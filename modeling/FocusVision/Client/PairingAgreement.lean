import FocusVision.Client.PairingExchange

/-!
# What a handshake establishes

Each step of either end keeps the two in lockstep.
-/

namespace FocusVision
namespace Client

open Bytes
open Engine (ControlMessage HandshakeServer PairingHost ServerStep VideoConfig VideoCodec
  sendMsg verdict)
open Engine.MsgType

variable {epoch : Nat} {video : VideoConfig} {codec : VideoCodec} {pairing : PairingHost}
  {pin : UInt32} {x : PairingExchange} {now : Nat} {random : UInt32}
  {toServer toClient : List ControlMessage}

/-! ### The messages that meet -/

/-- The engine's next message. -/
theorem Meets.server_send
    {cs : ClientStep} {s : HandshakeServer} {rejected : Bool} {m : ControlMessage}
    {next : ServerStep} (h : Meets pin s.video s.codec cs s.step rejected toServer toClient)
    (hcaps : s.step ≠ .awaitHello → s.clientCaps = HELLO_CAPS)
    (hout : s.outgoing = some (m, next)) :
    Meets pin s.video s.codec cs next rejected toServer (toClient ++ [m]) ∧
      verdict next = verdict s.step ∧ s.step ≠ .awaitHello ∧
      ServerStep.left next < ServerStep.left s.step := by
  obtain ⟨video, codec, host, caps, ss, failed, inbox⟩ := s
  simp only at h hcaps ⊢
  cases h <;> simp only [HandshakeServer.outgoing, Option.some.injEq, Prod.mk.injEq,
    reduceCtorEq] at hout <;> obtain ⟨rfl, rfl⟩ := hout
  case greeted => exact ⟨.helloAck, rfl, by decide, by decide⟩
  case helloAck => exact ⟨.bothAsked, rfl, by decide, by decide⟩
  case acknowledged => exact ⟨.asked, rfl, by decide, by decide⟩
  case rejects => exact ⟨.refused, rfl, by decide, by decide⟩
  case accepts => exact ⟨.accepted, rfl, by decide, by decide⟩
  case accepted =>
      rw [hcaps (by decide)]
      exact ⟨.bothSent, rfl, by decide, by decide⟩
  case paired =>
      rw [hcaps (by decide)]
      exact ⟨.configSent, rfl, by decide, by decide⟩

/-- The engine takes the first message that is under way to it. -/
theorem Meets.server_take
    {cs : ClientStep} {s : HandshakeServer} {rejected : Bool} {m : ControlMessage}
    (h : Meets pin video codec cs s.step rejected (m :: toServer) toClient)
    (hawaits : s.awaits = true) (hcaps : s.step ≠ .awaitHello → s.clientCaps = HELLO_CAPS)
    (hchecked : Checked epoch pairing pin (verdict s.step) s.pairing) :
    let s' := s.handle epoch now random m
    Meets pin video codec cs s'.step rejected toServer toClient ∧
      s'.video = s.video ∧ s'.codec = s.codec ∧ s'.failed = s.failed ∧ s'.inbox = s.inbox ∧
      s'.clientCaps = HELLO_CAPS ∧ Checked epoch pairing pin (verdict s'.step) s'.pairing ∧
      ServerStep.left s'.step < ServerStep.left s.step := by
  obtain ⟨serverVideo, serverCodec, host, caps, ss, failed, inbox⟩ := s
  simp only at h hcaps hchecked ⊢
  cases h
  case hello => exact ⟨.greeted, rfl, rfl, rfl, rfl, rfl, hchecked, Nat.lt_succ_self _⟩
  case started =>
      exact ⟨.streams, rfl, rfl, rfl, rfl, hcaps (by decide), hchecked, Nat.lt_succ_self _⟩
  case pinSent =>
      have hlen : ¬ ((pinMessage pin).msgType ≠ PIN_RESPONSE ∨
          (pinMessage pin).payload.length < 4) := by
        simp [pinMessage]
      have hpin : Engine.readU32Le (pinMessage pin).payload 0 = pin := readU32Le_leBytes pin
      have hhost : host = pairing := hchecked
      subst hhost
      rcases hverify : host.state.verify epoch host.file now random pin
        with ⟨answer, state, file⟩
      have hstep : host.step epoch ⟨now, random, .verify pin⟩ =
          (.verified answer, ⟨state, file⟩) := by
        simp only [PairingHost.step, hverify]
      simp only [HandshakeServer.handle, hlen, if_false, hpin, hverify]
      cases answer with
      | ok u =>
          exact ⟨.accepts, trivial, trivial, trivial, trivial, hcaps (by decide),
            ⟨now, random, _, hstep, rfl⟩, Nat.lt_succ_self _⟩
      | error e =>
          exact ⟨.rejects, trivial, trivial, trivial, trivial, hcaps (by decide),
            ⟨now, random, _, hstep, rfl⟩, Nat.lt_succ_self _⟩

/-- The headset's next message. -/
theorem Meets.client_send
    {c : HandshakeClient} {ss : ServerStep} {rejected : Bool} {m : ControlMessage}
    {next : ClientStep} (h : Meets c.pin video codec c.step ss rejected toServer toClient)
    (hout : c.outgoing = some (m, next)) :
    Meets c.pin video codec next ss rejected (toServer ++ [m]) toClient ∧
      next.configured = c.step.configured ∧ next.paired = c.step.paired ∧
      next.left < c.step.left := by
  obtain ⟨clientPin, cs, result, closed, config, rxBuf⟩ := c
  simp only at h ⊢
  cases h <;> simp only [HandshakeClient.outgoing, Option.some.injEq, Prod.mk.injEq,
    reduceCtorEq] at hout <;> obtain ⟨rfl, rfl⟩ := hout
  case start => exact ⟨.hello, rfl, rfl, by decide⟩
  case answers => exact ⟨.pinSent, rfl, rfl, by decide⟩
  case pinned => exact ⟨.started, rfl, rfl, by decide⟩

/-- The headset takes the first message that is under way to it. -/
theorem Meets.client_take
    {c : HandshakeClient} {ss : ServerStep} {rejected : Bool} {m : ControlMessage}
    {msgType : UInt8}
    (h : Meets c.pin video codec c.step ss rejected toServer (m :: toClient))
    (hexpected : c.expected = some msgType) (hopen : c.closed = false)
    (hresult : rejected = (c.result == some .pinRejected))
    (hpaired : c.result = some .ok ↔ c.step.paired = true) :
    let c' := c.handle m.payload
    m.msgType = msgType ∧
      Meets c.pin video codec c'.step ss (c'.result == some .pinRejected) toServer toClient ∧
      c'.pin = c.pin ∧ c'.m_rxBuf = c.m_rxBuf ∧
      (c'.step.configured = true → c'.m_config = agreedConfig video codec) ∧
      (c'.result = some .ok ↔ c'.step.paired = true) ∧
      (c'.result = some .pinRejected ↔ c'.closed = true) ∧
      (if c'.closed then 0 else c'.step.left) < c.step.left := by
  obtain ⟨clientPin, cs, result, closed, config, rxBuf⟩ := c
  simp only at h hopen hresult hpaired ⊢
  subst hopen
  have hnot : rejected = false → ¬ result = some .pinRejected := by
    rintro rfl heq
    rw [heq] at hresult
    exact absurd hresult (by decide)
  have hempty : ∀ step : ClientStep, step.configured = false → (step.configured = true →
      config = agreedConfig video codec) := by
    intro step hstep htrue
    rw [hstep] at htrue
    exact absurd htrue (by decide)
  have hopen : rejected = false → (result = some .pinRejected ↔ false = true) := fun hfalse =>
    ⟨fun heq => absurd heq (hnot hfalse), fun h => absurd h (by decide)⟩
  cases h <;> simp only [HandshakeClient.expected, Option.some.injEq] at hexpected <;>
    subst hexpected
  case helloAck =>
      exact ⟨rfl, hresult ▸ .acknowledged, rfl, rfl, hempty _ rfl, hpaired, hopen rfl,
        Nat.lt_succ_self _⟩
  case bothAsked =>
      exact ⟨rfl, hresult ▸ .asked, rfl, rfl, hempty _ rfl, hpaired, hopen rfl,
        Nat.lt_succ_self _⟩
  case asked =>
      exact ⟨rfl, hresult ▸ .answers, rfl, rfl, hempty _ rfl, hpaired, hopen rfl,
        Nat.lt_succ_self _⟩
  case accepted =>
      exact ⟨rfl, hresult ▸ .paired, rfl, rfl, hempty _ rfl, hpaired, hopen rfl,
        Nat.lt_succ_self _⟩
  case bothSent =>
      exact ⟨rfl, hresult ▸ .configSent, rfl, rfl, hempty _ rfl, hpaired, hopen rfl,
        Nat.lt_succ_self _⟩
  case refused =>
      have hhandle : HandshakeClient.handle ⟨clientPin, .expectPinResult, result, false, config,
            rxBuf⟩ [0x00] =
          ⟨clientPin, .expectPinResult, some .pinRejected, true, config, rxBuf⟩ := rfl
      rw [hhandle]
      refine ⟨rfl, .rejected, rfl, rfl, hempty _ rfl, ?_, ?_, Nat.zero_lt_succ _⟩
      · simp [ClientStep.paired]
      · simp
  case configSent =>
      have hparse := parseStreamConfig_encode video codec HELLO_CAPS {}
      have hhandle : HandshakeClient.handle ⟨clientPin, .expectStreamConfig, result, false,
            config, rxBuf⟩ (configMessage video codec).payload =
          ⟨clientPin, .pinPeer, result, false, agreedConfig video codec, rxBuf⟩ := by
        simp only [HandshakeClient.handle, configMessage, agreedConfig, hparse, if_true]
      rw [hhandle]
      exact ⟨rfl, hresult ▸ .configured, rfl, rfl, fun _ => rfl, hpaired, hopen rfl,
        Nat.lt_succ_self _⟩

/-- The headset pins the engine that it paired with. -/
theorem Meets.client_pin
    {ss : ServerStep} {rejected : Bool}
    (h : Meets pin video codec .pinPeer ss rejected toServer toClient) :
    Meets pin video codec .startStream ss false toServer toClient := by
  cases h
  exact .pinned

/-! ### Lockstep is kept -/

theorem lockstep_start :
    Lockstep epoch video codec pairing pin (PairingExchange.start video codec pairing pin) where
  video_eq := rfl
  codec_eq := rfl
  pin_eq := rfl
  caps := fun h => absurd rfl h
  checked := rfl
  config := fun h => absurd h Bool.false_ne_true
  paired := ⟨fun h => absurd h (Option.some_ne_none _).symm,
    fun h => absurd h Bool.false_ne_true⟩
  rejected_closed := fun h => absurd h (Option.some_ne_none _).symm
  meets := ⟨[], [], .start, carries_nil _, carries_nil _⟩

theorem PairingExchange.left_server
    {server : HandshakeServer} (h : ServerStep.left server.step < ServerStep.left x.server.step) :
    PairingExchange.left { x with server } < x.left := by
  unfold PairingExchange.left
  simp only
  omega

theorem PairingExchange.left_client
    {client : HandshakeClient} (hopen : x.client.closed = false)
    (h : (if client.closed then 0 else client.step.left) < x.client.step.left) :
    PairingExchange.left { x with client } < x.left := by
  unfold PairingExchange.left
  simp only [hopen, Bool.false_eq_true, if_false]
  omega

/-- The engine's task runs on: nothing changes, or there is less left to do. -/
theorem Lockstep.server
    (h : Lockstep epoch video codec pairing pin x) :
    Lockstep epoch video codec pairing pin (x.step epoch (.server now random)) ∧
      (x.step epoch (.server now random) = x ∨
        (x.step epoch (.server now random)).left < x.left) ∧
      (x.step epoch (.server now random)).server.failed = x.server.failed := by
  obtain ⟨toServer, toClient, hmeets, hserver, hclient⟩ := h.meets
  rcases Bool.eq_false_or_eq_true x.server.failed with hfailed | hfailed
  · have hsame : x.step epoch (.server now random) = x := by
      simp only [PairingExchange.step, HandshakeServer.advance, hfailed, if_true,
        List.append_nil]
    rw [hsame]
    exact ⟨h, Or.inl rfl, rfl⟩
  cases hout : x.server.outgoing with
  | some out =>
      obtain ⟨m, next⟩ := out
      have hmeets' : Meets pin x.server.video x.server.codec x.client.step x.server.step
          (x.client.result == some .pinRejected) toServer toClient := by
        rw [h.video_eq, h.codec_eq]
        exact hmeets
      obtain ⟨hnext, hverdict, hlater, hleft⟩ := hmeets'.server_send h.caps hout
      rw [h.video_eq, h.codec_eq] at hnext
      rw [hfailed] at hclient
      have hshort := hnext.short.2 m (by simp)
      rw [PairingExchange.server_sends hfailed hout]
      refine ⟨?_, Or.inr ?_, rfl⟩
      · exact
          { video_eq := h.video_eq
            codec_eq := h.codec_eq
            pin_eq := h.pin_eq
            caps := fun _ => h.caps hlater
            checked := hverdict.symm ▸ h.checked
            config := h.config
            paired := h.paired
            rejected_closed := h.rejected_closed
            meets := by
              refine ⟨toServer, toClient ++ [m], hnext, hserver, ?_⟩
              have hsent := hclient.send m
              rw [List.append_assoc] at hsent
              simp only [hfailed]
              exact hsent }
      · unfold PairingExchange.left
        simp only [List.length_append, length_sendMsg]
        omega
  | none =>
      cases hawaits : x.server.awaits with
      | false =>
          have hsame : x.step epoch (.server now random) = x := by
            simp only [PairingExchange.step, HandshakeServer.advance, hfailed, hout, hawaits,
              Bool.false_eq_true, if_false, List.append_nil]
          rw [hsame]
          exact ⟨h, Or.inl rfl, rfl⟩
      | true =>
          rcases @PairingExchange.server_takes epoch x now random toServer hfailed hout hawaits
            hserver hmeets.short.1 with hsame | ⟨m, later, rest, rfl, htaken, hcarries⟩
          · rw [hsame]
            exact ⟨h, Or.inl rfl, rfl⟩
          obtain ⟨hnext, hvideo, hcodec, hstill, hinbox, hcaps, hchecked, hleft⟩ :=
            @Meets.server_take epoch video codec pairing pin now random later toClient
              x.client.step { x.server with inbox := rest } _ m hmeets hawaits h.caps h.checked
          rw [htaken]
          refine ⟨?_, Or.inr ?_, hstill⟩
          · exact
              { video_eq := hvideo.trans h.video_eq
                codec_eq := hcodec.trans h.codec_eq
                pin_eq := h.pin_eq
                caps := fun _ => hcaps
                checked := hchecked
                config := h.config
                paired := h.paired
                rejected_closed := h.rejected_closed
                meets := ⟨later, toClient, hnext, hinbox.symm ▸ hcarries, hstill.symm ▸ hclient⟩ }
          · exact PairingExchange.left_server hleft

/-- The headset's thread runs on. -/
theorem Lockstep.client
    (h : Lockstep epoch video codec pairing pin x) :
    Lockstep epoch video codec pairing pin (x.step epoch .client) ∧
      (x.step epoch .client = x ∨ (x.step epoch .client).left < x.left) ∧
      (x.client.StaysUntilRefused → (x.step epoch .client).client.StaysUntilRefused) := by
  obtain ⟨toServer, toClient, hmeets, hserver, hclient⟩ := h.meets
  rcases Bool.eq_false_or_eq_true x.client.closed with hclosed | hopen
  · have hsame : x.step epoch .client = x := by
      simp only [PairingExchange.step, HandshakeClient.advance, hclosed, if_true,
        List.append_nil]
    rw [hsame]
    exact ⟨h, Or.inl rfl, id⟩
  have hmeets' : Meets x.client.pin video codec x.client.step x.server.step
      (x.client.result == some .pinRejected) toServer toClient := by
    rw [h.pin_eq]
    exact hmeets
  cases hout : x.client.outgoing with
  | some out =>
      obtain ⟨m, next⟩ := out
      obtain ⟨hnext, hconfigured, hpaired, hleft⟩ := hmeets'.client_send hout
      rw [h.pin_eq] at hnext
      rw [hopen] at hserver
      have hshort := hnext.short.1 m (by simp)
      rw [PairingExchange.client_sends hopen hout]
      refine ⟨?_, Or.inr ?_, fun hstays => hstays⟩
      · exact
          { video_eq := h.video_eq
            codec_eq := h.codec_eq
            pin_eq := h.pin_eq
            caps := h.caps
            checked := h.checked
            config := fun hnow => h.config (hconfigured.symm.trans hnow)
            paired := h.paired.trans (hpaired.symm ▸ Iff.rfl)
            rejected_closed := h.rejected_closed
            meets := by
              refine ⟨toServer ++ [m], toClient, hnext, ?_, hclient⟩
              have hsent := hserver.send m
              rw [List.append_assoc] at hsent
              simp only [hopen]
              exact hsent }
      · unfold PairingExchange.left
        simp only [hopen, Bool.false_eq_true, if_false, List.length_append, length_sendMsg]
        omega
  | none =>
      cases hexpected : x.client.expected with
      | some msgType =>
          rcases @PairingExchange.client_takes epoch x toClient hopen hout msgType hexpected
            hclient hmeets.short.2 with hsame | ⟨m, later, rest, rfl, htaken, hcarries⟩
          · rw [hsame]
            exact ⟨h, Or.inl rfl, id⟩
          obtain ⟨htype, hnext, hpin, hrxBuf, hconfig, hpaired, hclosed, hleft⟩ :=
            @Meets.client_take video codec toServer later { x.client with m_rxBuf := rest } _ _ m
              msgType hmeets' hexpected hopen rfl h.paired
          rw [h.pin_eq] at hnext
          rw [htaken htype]
          rw [hopen] at hserver
          refine ⟨?_, Or.inr ?_, fun _ => hclosed.mpr⟩
          · exact
              { video_eq := h.video_eq
                codec_eq := h.codec_eq
                pin_eq := hpin.trans h.pin_eq
                caps := h.caps
                checked := h.checked
                config := hconfig
                paired := hpaired
                rejected_closed := hclosed.mp
                meets := ⟨toServer, later, hnext, hserver.whole _, hrxBuf.symm ▸ hcarries⟩ }
          · exact PairingExchange.left_client hopen hleft
      | none =>
          rcases Decidable.em (x.client.step = .pinPeer) with hstep | hstep
          · have hpinned : x.step epoch .client =
                { x with
                  client := { x.client with step := .startStream, result := some .ok } } := by
              simp only [PairingExchange.step, HandshakeClient.advance, hopen, hout, hexpected,
                hstep, Bool.false_eq_true, if_false, List.append_nil]
            rw [hstep] at hmeets
            rw [hpinned]
            refine ⟨?_, Or.inr ?_, fun _ hclosed => absurd (hopen.symm.trans hclosed) (by decide)⟩
            · exact
                { video_eq := h.video_eq
                  codec_eq := h.codec_eq
                  pin_eq := h.pin_eq
                  caps := h.caps
                  checked := h.checked
                  config := fun _ => h.config (hstep ▸ rfl)
                  paired := ⟨fun _ => rfl, fun _ => rfl⟩
                  rejected_closed := fun hresult => absurd (Option.some.inj hresult) (by decide)
                  meets := ⟨toServer, toClient, hmeets.client_pin, hserver, hclient⟩ }
            · refine PairingExchange.left_client hopen ?_
              simp only [hopen, hstep, Bool.false_eq_true, if_false, ClientStep.left]
              decide
          · have hsame : x.step epoch .client = x := by
              simp only [PairingExchange.step, HandshakeClient.advance, hopen, hout, hexpected,
                Bool.false_eq_true, if_false, List.append_nil]
            rw [hsame]
            exact ⟨h, Or.inl rfl, id⟩

theorem arrives_left
    (stream : List UInt8) (n : Nat) :
    (stream.take n = [] ∧ stream.drop n = stream) ∨ (stream.drop n).length < stream.length := by
  cases n with
  | zero => exact Or.inl ⟨rfl, rfl⟩
  | succ n =>
      cases stream with
      | nil => exact Or.inl ⟨rfl, rfl⟩
      | cons b stream =>
          right
          rw [List.drop_succ_cons, List.length_drop, List.length_cons]
          omega

/-- Some bytes arrive at the engine. -/
theorem Lockstep.arriveServer
    (h : Lockstep epoch video codec pairing pin x) (n : Nat) :
    Lockstep epoch video codec pairing pin (x.step epoch (.arriveServer n)) ∧
      (x.step epoch (.arriveServer n) = x ∨ (x.step epoch (.arriveServer n)).left < x.left) := by
  obtain ⟨toServer, toClient, hmeets, hserver, hclient⟩ := h.meets
  constructor
  · refine { h with meets := ⟨toServer, toClient, hmeets, ?_, hclient⟩ }
    simp only [PairingExchange.step, List.append_assoc, List.take_append_drop]
    exact hserver
  · rcases arrives_left x.toServer n with ⟨htake, hdrop⟩ | hless
    · left
      simp only [PairingExchange.step, htake, hdrop, List.append_nil]
    · right
      exact Nat.add_lt_add_left (Nat.add_lt_add_right hless _) _

/-- Some bytes arrive at the headset. -/
theorem Lockstep.arriveClient
    (h : Lockstep epoch video codec pairing pin x) (n : Nat) :
    Lockstep epoch video codec pairing pin (x.step epoch (.arriveClient n)) ∧
      (x.step epoch (.arriveClient n) = x ∨ (x.step epoch (.arriveClient n)).left < x.left) := by
  obtain ⟨toServer, toClient, hmeets, hserver, hclient⟩ := h.meets
  constructor
  · refine { h with meets := ⟨toServer, toClient, hmeets, hserver, ?_⟩ }
    simp only [PairingExchange.step, List.append_assoc, List.take_append_drop]
    exact hclient
  · rcases arrives_left x.toClient n with ⟨htake, hdrop⟩ | hless
    · left
      simp only [PairingExchange.step, htake, hdrop, List.append_nil]
    · right
      exact Nat.add_lt_add_left (Nat.add_lt_add_left hless _) _

/-- The engine gives up. -/
theorem Lockstep.serverGivesUp
    (h : Lockstep epoch video codec pairing pin x) (written : Nat) :
    Lockstep epoch video codec pairing pin (x.step epoch (.serverGivesUp written)) := by
  obtain ⟨toServer, toClient, hmeets, hserver, hclient⟩ := h.meets
  rcases Bool.eq_false_or_eq_true x.server.failed with hfailed | hfailed
  · have hsame : x.step epoch (.serverGivesUp written) = x := by
      simp only [PairingExchange.step, HandshakeServer.giveUp, hfailed, if_true, List.append_nil]
    rw [hsame]
    exact h
  rw [hfailed] at hclient
  simp only [PairingExchange.step, HandshakeServer.giveUp, hfailed, Bool.false_eq_true, if_false,
    sendMessageGeneric_eq]
  cases hout : x.server.outgoing with
  | some out =>
      obtain ⟨m, next⟩ := out
      have hmeets' : Meets pin x.server.video x.server.codec x.client.step x.server.step
          (x.client.result == some .pinRejected) toServer toClient := by
        rw [h.video_eq, h.codec_eq]
        exact hmeets
      have hshort := @Short.fits _ (hmeets'.server_send h.caps hout).1.short.2 m (by simp)
      refine { h with meets := ⟨toServer, toClient, hmeets, hserver, ?_⟩ }
      have hgone := hclient.giveUp (stub_take hshort written)
      rw [List.append_assoc] at hgone
      exact hgone
  | none =>
      simp only [List.append_nil]
      split
      · exact { h with meets := ⟨toServer, toClient, hmeets, hserver, hclient.whole true⟩ }
      · exact h

/-- The headset gives up. -/
theorem Lockstep.clientGivesUp
    (h : Lockstep epoch video codec pairing pin x) (written : Nat) :
    Lockstep epoch video codec pairing pin (x.step epoch (.clientGivesUp written)) := by
  obtain ⟨toServer, toClient, hmeets, hserver, hclient⟩ := h.meets
  rcases Decidable.em (x.client.closed = true ∨ x.client.step = .streaming) with hgone | hopen
  · have hsame : x.step epoch (.clientGivesUp written) = x := by
      simp only [PairingExchange.step, HandshakeClient.giveUp, hgone, if_true, List.append_nil]
    rw [hsame]
    exact h
  obtain ⟨hopen, hstep⟩ := not_or.mp hopen
  rw [Bool.not_eq_true] at hopen
  have hok : some (x.client.result.getD .failed) = some .ok ↔ x.client.result = some .ok := by
    cases x.client.result with
    | none => simp
    | some result => simp
  have hrejected : (some (x.client.result.getD .failed) == some .pinRejected) =
      (x.client.result == some .pinRejected) := by
    cases x.client.result with
    | none => rfl
    | some result => rfl
  have hmeets' := hmeets
  rw [← hrejected] at hmeets'
  rw [hopen] at hserver
  simp only [PairingExchange.step, HandshakeClient.giveUp, hopen, hstep, Bool.false_eq_true,
    or_self, if_false, sendMessage_eq]
  cases hout : x.client.outgoing with
  | some out =>
      obtain ⟨m, next⟩ := out
      rw [← h.pin_eq] at hmeets
      have hshort := @Short.fits _ (hmeets.client_send hout).1.short.1 m (by simp)
      have hgone := hserver.giveUp (stub_take hshort written)
      rw [List.append_assoc] at hgone
      exact
        { h with
          paired := hok.trans h.paired
          rejected_closed := fun _ => rfl
          meets := ⟨toServer, toClient, hmeets', hgone, hclient⟩ }
  | none =>
      simp only [List.append_nil]
      exact
        { h with
          paired := hok.trans h.paired
          rejected_closed := fun _ => rfl
          meets := ⟨toServer, toClient, hmeets', hserver.whole true, hclient⟩ }

theorem Lockstep.step
    (h : Lockstep epoch video codec pairing pin x) (event : ExchangeEvent) :
    Lockstep epoch video codec pairing pin (x.step epoch event) := by
  cases event with
  | server now random => exact h.server.1
  | client => exact h.client.1
  | arriveServer n => exact (h.arriveServer n).1
  | arriveClient n => exact (h.arriveClient n).1
  | serverGivesUp written => exact h.serverGivesUp written
  | clientGivesUp written => exact h.clientGivesUp written

theorem Lockstep.run
    (h : Lockstep epoch video codec pairing pin x) (events : List ExchangeEvent) :
    Lockstep epoch video codec pairing pin (x.run epoch events) := by
  induction events generalizing x with
  | nil => exact h
  | cons event events ih => exact ih (h.step event)

/-! ### What the two ends know -/

/-- Where the headset is, so is the engine. -/
theorem Meets.verdict_eq
    {cs : ClientStep} {ss : ServerStep} {rejected : Bool}
    (h : Meets pin video codec cs ss rejected toServer toClient) :
    (cs.paired = true → cs.configured = true ∧ verdict ss = some true) ∧
      (rejected = true → verdict ss = some false) ∧
      (ss = .ready → cs = .streaming) := by
  cases h <;> simp [ClientStep.paired, ClientStep.configured, verdict]

namespace PairingExchange

/--
However the bytes of a handshake are cut and whenever either end gives up: the engine hands
out a stream only to a headset that has started to stream; a headset whose handshake succeeds
has submitted the host's PIN, which the engine accepted, and holds the engine's configuration;
a headset is told that its PIN was refused only if the engine refused it; and a handshake
verifies at most one PIN.
-/
theorem handshake_agreement
    (epoch : Nat) (video : VideoConfig) (codec : VideoCodec) (pairing : PairingHost)
    (pin : UInt32) (events : List ExchangeEvent) :
    let x := (start video codec pairing pin).run epoch events
    let verified := fun answer => ∃ now random,
      pairing.step epoch ⟨now, random, .verify pin⟩ = (.verified answer, x.server.pairing)
    (x.server.step = .ready → x.client.step = .streaming ∧ x.client.result = some .ok) ∧
    (x.client.result = some .ok →
      pin = pairing.state.pin ∧ verified (.ok ()) ∧
      x.client.m_config =
        { width := video.resolutionPerEye.1
          height := video.resolutionPerEye.2
          bitrateMbps := video.bitrateMbps
          framerate := video.framerate
          codec := codec.byte
          encodedWidth := (Engine.encodedDims video HELLO_CAPS).1
          encodedHeight := (Engine.encodedDims video HELLO_CAPS).2
          layout := STEREO_SIDE_BY_SIDE
          framePose := true }) ∧
    (x.client.result = some .pinRejected → ∃ e, verified (.error e)) ∧
    (x.server.pairing = pairing ∨ ∃ answer, verified answer) := by
  intro x verified
  have h : Lockstep epoch video codec pairing pin x := lockstep_start.run events
  obtain ⟨toServer, toClient, hmeets, -, -⟩ := h.meets
  obtain ⟨hpaired, hrejected, hready⟩ := hmeets.verdict_eq
  refine ⟨fun hstep => ⟨hready hstep, ?_⟩, fun hok => ?_, fun hrefused => ?_, ?_⟩
  · rw [h.paired, hready hstep]
    rfl
  · obtain ⟨hconfigured, hverdict⟩ := hpaired (h.paired.mp hok)
    obtain ⟨now, random, answer, hverified, haccepted⟩ := hverdict ▸ h.checked
    cases answer with
    | error e => exact absurd haccepted Bool.false_ne_true
    | ok u =>
        refine ⟨(Engine.verified_ok hverified).1, ⟨now, random, hverified⟩, ?_⟩
        rw [h.config hconfigured, agreedConfig, parseStreamConfig_encode]
        rfl
  · have hverdict := hrejected (by rw [hrefused]; rfl)
    obtain ⟨now, random, answer, hverified, haccepted⟩ := hverdict ▸ h.checked
    cases answer with
    | error e => exact ⟨e, now, random, hverified⟩
    | ok u => exact absurd haccepted.symm Bool.false_ne_true
  · have hchecked := h.checked
    cases hverdict : verdict x.server.step with
    | none =>
        rw [hverdict] at hchecked
        exact Or.inl hchecked
    | some accepted =>
        rw [hverdict] at hchecked
        obtain ⟨now, random, answer, hverified, -⟩ := hchecked
        exact Or.inr ⟨answer, now, random, hverified⟩

end PairingExchange

end Client
end FocusVision
