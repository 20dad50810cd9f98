import FocusVision.Client.PairingAgreement
import FocusVision.Lib.Schedule

/-!
# A handshake ends

While nobody gives up, each step of a handshake leaves less to do, and until it has ended
one of its steps is always possible.
-/

namespace FocusVision
namespace Client

open Engine (ControlMessage HandshakeServer PairingHost ServerStep VideoConfig VideoCodec
  sendMsg)

variable {epoch : Nat} {video : VideoConfig} {codec : VideoCodec} {pairing : PairingHost}
  {pin : UInt32} {x : PairingExchange} {now : Nat} {random : UInt32}
  {toServer toClient : List ControlMessage}

/-- An end gives up. -/
def ExchangeEvent.givesUp : ExchangeEvent → Bool
  | .serverGivesUp _ | .clientGivesUp _ => true
  | _ => false

/-- In lockstep, and nobody has given up. -/
structure Ongoing (epoch : Nat) (video : VideoConfig) (codec : VideoCodec)
    (pairing : PairingHost) (pin : UInt32) (x : PairingExchange) : Prop
    extends Lockstep epoch video codec pairing pin x where
  serving : x.server.failed = false
  stays : x.client.StaysUntilRefused

theorem ongoing_start :
    Ongoing epoch video codec pairing pin (PairingExchange.start video codec pairing pin) where
  toLockstep := lockstep_start
  serving := rfl
  stays := fun h => absurd h Bool.false_ne_true

theorem Ongoing.step
    (h : Ongoing epoch video codec pairing pin x) {event : ExchangeEvent}
    (hevent : event.givesUp = false) :
    Ongoing epoch video codec pairing pin (x.step epoch event) ∧
      (x.step epoch event = x ∨ (x.step epoch event).left < x.left) := by
  cases event with
  | server now random =>
      obtain ⟨hlock, hleft, hfailed⟩ := h.toLockstep.server
      exact ⟨⟨hlock, hfailed.trans h.serving, h.stays⟩, hleft⟩
  | client =>
      obtain ⟨hlock, hleft, hstays⟩ := h.toLockstep.client
      exact ⟨⟨hlock, h.serving, hstays h.stays⟩, hleft⟩
  | arriveServer n =>
      obtain ⟨hlock, hleft⟩ := h.toLockstep.arriveServer n
      exact ⟨⟨hlock, h.serving, h.stays⟩, hleft⟩
  | arriveClient n =>
      obtain ⟨hlock, hleft⟩ := h.toLockstep.arriveClient n
      exact ⟨⟨hlock, h.serving, h.stays⟩, hleft⟩
  | serverGivesUp written => exact absurd hevent (by simp [ExchangeEvent.givesUp])
  | clientGivesUp written => exact absurd hevent (by simp [ExchangeEvent.givesUp])

/-! ### An end that rests -/

theorem stream_ne
    (stream : List UInt8) (m : ControlMessage) :
    stream ++ sendMsg m ≠ stream := by
  intro h
  have hlength := congrArg List.length h
  rw [List.length_append, length_sendMsg] at hlength
  omega

/-- An engine that rests has nothing to send. -/
theorem server_rests
    (hfailed : x.server.failed = false) (hrests : x.step epoch (.server now random) = x) :
    x.server.outgoing = none := by
  cases hout : x.server.outgoing with
  | none => rfl
  | some out =>
      obtain ⟨m, next⟩ := out
      rw [PairingExchange.server_sends hfailed hout] at hrests
      exact absurd (congrArg PairingExchange.toClient hrests) (stream_ne x.toClient m)

theorem server_handle_inbox
    (epoch now : Nat) (random : UInt32) (s : HandshakeServer) (m : ControlMessage) :
    (s.handle epoch now random m).inbox = s.inbox := by
  unfold HandshakeServer.handle
  split
  · split <;> rfl
  · split <;> rfl
  · split <;> rfl
  · rfl

theorem client_handle_rxBuf
    (c : HandshakeClient) (payload : List UInt8) :
    (c.handle payload).m_rxBuf = c.m_rxBuf := by
  unfold HandshakeClient.handle
  split
  · rfl
  · rfl
  · split <;> rfl
  · simp only
    split <;> rfl
  · rfl

/-- No message has arrived at an engine that rests where it awaits one. -/
theorem server_rests_empty
    (hfailed : x.server.failed = false) (hrests : x.step epoch (.server now random) = x)
    (hout : x.server.outgoing = none) (hawaits : x.server.awaits = true)
    (hstream : Carries x.client.closed toServer x.server.inbox) (hshort : Short toServer) :
    toServer = [] := by
  cases toServer with
  | nil => rfl
  | cons m later =>
      obtain ⟨rest, htake, hless⟩ := hstream.take_all hshort
      have hread := Engine.readMessageGeneric_iff.mpr htake
      have hinbox := congrArg (fun x => x.server.inbox.length) hrests
      simp only [PairingExchange.step, HandshakeServer.advance, hfailed, Bool.false_eq_true,
        if_false, hout, hawaits, if_true, hread, server_handle_inbox] at hinbox
      omega

/-- A headset that rests has nothing to send. -/
theorem client_rests
    (hopen : x.client.closed = false) (hrests : x.step epoch .client = x) :
    x.client.outgoing = none := by
  cases hout : x.client.outgoing with
  | none => rfl
  | some out =>
      obtain ⟨m, next⟩ := out
      rw [PairingExchange.client_sends hopen hout] at hrests
      exact absurd (congrArg PairingExchange.toServer hrests) (stream_ne x.toServer m)

/-- No message has arrived at a headset that rests where it expects one. -/
theorem client_rests_empty
    (hopen : x.client.closed = false) (hrests : x.step epoch .client = x)
    (hout : x.client.outgoing = none) {msgType : UInt8}
    (hexpected : x.client.expected = some msgType)
    (hstream : Carries x.server.failed toClient x.client.m_rxBuf) (hshort : Short toClient) :
    toClient = [] := by
  cases toClient with
  | nil => rfl
  | cons m later =>
      obtain ⟨rest, htake, hless⟩ := hstream.take_all hshort
      have hrxBuf := congrArg (fun x => x.client.m_rxBuf.length) hrests
      simp only [PairingExchange.step, HandshakeClient.advance, hopen, Bool.false_eq_true,
        if_false, hout, hexpected, htake] at hrxBuf
      have hkept : ∀ c : HandshakeClient, (c.finish .failed).m_rxBuf = c.m_rxBuf := fun _ => rfl
      split at hrxBuf <;> simp only [client_handle_rxBuf, hkept] at hrxBuf <;> omega

/-- A headset that rests has not left out its pin. -/
theorem client_rests_pinned
    (hopen : x.client.closed = false) (hrests : x.step epoch .client = x) :
    x.client.step ≠ .pinPeer := by
  intro hstep
  have hnext := congrArg (fun x => x.client.step) hrests
  simp only [PairingExchange.step, HandshakeClient.advance, hopen, Bool.false_eq_true, if_false,
    HandshakeClient.outgoing, HandshakeClient.expected, hstep] at hnext
  cases hnext

/-! ### The end -/

/-- Where neither end can go on, the handshake has ended. -/
theorem Meets.ended
    {c : HandshakeClient} {s : HandshakeServer} {rejected : Bool}
    (h : Meets pin video codec c.step s.step rejected toServer toClient)
    (hserver : s.outgoing = none) (htoServer : s.awaits = true → toServer = [])
    (hclient : rejected = false → c.outgoing = none)
    (htoClient : rejected = false → c.expected.isSome = true → toClient = [])
    (hpinned : rejected = false → c.step ≠ .pinPeer) :
    (s.step = .ready ∧ c.step = .streaming ∧ rejected = false) ∨
      (s.step = .refused ∧ rejected = true) := by
  obtain ⟨serverVideo, serverCodec, host, caps, ss, failed, inbox⟩ := s
  obtain ⟨clientPin, cs, result, closed, config, rxBuf⟩ := c
  simp only at h hpinned ⊢
  cases h <;> simp [HandshakeServer.outgoing, HandshakeServer.awaits, HandshakeClient.outgoing,
    HandshakeClient.expected] at *

/-- A handshake that rests has ended. -/
theorem Ongoing.ended
    (h : Ongoing epoch video codec pairing pin x)
    (hserver : x.step epoch (.server now random) = x) (hclient : x.step epoch .client = x)
    (htoServer : x.toServer = []) (htoClient : x.toClient = []) :
    (x.server.step = .ready ∧ x.client.step = .streaming ∧ x.client.result = some .ok) ∨
      (x.server.step = .refused ∧ x.client.result = some .pinRejected) := by
  obtain ⟨toServer, toClient, hmeets, hcarriesServer, hcarriesClient⟩ := h.meets
  rw [htoServer, List.append_nil] at hcarriesServer
  rw [htoClient, List.append_nil] at hcarriesClient
  have hsends := server_rests h.serving hserver
  have hopen : (x.client.result == some .pinRejected) = false → x.client.closed = false := by
    intro hnot
    rcases Bool.eq_false_or_eq_true x.client.closed with hclosed | hopen
    · rw [h.stays hclosed] at hnot
      exact absurd hnot (by decide)
    · exact hopen
  rcases hmeets.ended hsends
    (fun hawaits =>
      server_rests_empty h.serving hserver hsends hawaits hcarriesServer hmeets.short.1)
    (fun hnot => client_rests (hopen hnot) hclient)
    (fun hnot hexpected => by
      obtain ⟨msgType, hexpected⟩ := Option.isSome_iff_exists.mp hexpected
      exact client_rests_empty (hopen hnot) hclient (client_rests (hopen hnot) hclient) hexpected
        hcarriesClient hmeets.short.2)
    (fun hnot => client_rests_pinned (hopen hnot) hclient)
    with ⟨hready, hstreaming, -⟩ | ⟨hrefused, hrejected⟩
  · refine Or.inl ⟨hready, hstreaming, ?_⟩
    rw [h.paired, hstreaming]
    rfl
  · exact Or.inr ⟨hrefused, eq_of_beq hrejected⟩

namespace PairingExchange

open Schedule (Recurs stateAt)

/-- Bytes that arrive are none only if none are under way. -/
theorem drop_eq_self
    {stream : List UInt8} {n : Nat} (hn : 0 < n) (h : stream.drop n = stream) :
    stream = [] := by
  have hlength := congrArg List.length h
  rw [List.length_drop] at hlength
  exact List.eq_nil_of_length_eq_zero (by omega)

/--
A handshake in which nobody gives up ends, in whatever order the two ends take their turns and
however their bytes are cut, as long as each end gets its turn again and again and bytes keep
arriving: the engine hands out the stream and the headset streams, or the engine refuses the
PIN and the headset knows it.
-/
theorem handshake_ends
    (epoch : Nat) (video : VideoConfig) (codec : VideoCodec) (pairing : PairingHost)
    (pin : UInt32) (schedule : Nat → ExchangeEvent)
    (hpatient : ∀ n, (schedule n).givesUp = false)
    (hserver : Recurs schedule fun event => ∃ now random, event = .server now random)
    (hclient : Recurs schedule fun event => event = .client)
    (hToServer : Recurs schedule fun event => ∃ n, 0 < n ∧ event = .arriveServer n)
    (hToClient : Recurs schedule fun event => ∃ n, 0 < n ∧ event = .arriveClient n) :
    ∃ n, ∀ later, n ≤ later →
      let x := (start video codec pairing pin).run epoch ((List.range later).map schedule)
      (x.server.step = .ready ∧ x.client.step = .streaming ∧ x.client.result = some .ok) ∨
        (x.server.step = .refused ∧ x.client.result = some .pinRejected) := by
  have hongoing : ∀ n, Ongoing epoch video codec pairing pin
      (stateAt (step epoch) (start video codec pairing pin) schedule n) :=
    Schedule.stateAt_invariant ongoing_start fun x n h => (h.step (hpatient n)).1
  obtain ⟨n, hrest⟩ := @Schedule.comes_to_rest _ _ (step epoch)
    (Ongoing epoch video codec pairing pin) left (start video codec pairing pin) schedule
    ongoing_start (fun x n h => (h.step (hpatient n)).1) (fun x n h => (h.step (hpatient n)).2)
  refine ⟨n, fun later hlater => ?_⟩
  have hrun : (start video codec pairing pin).run epoch ((List.range later).map schedule) =
      stateAt (step epoch) (start video codec pairing pin) schedule n :=
    (Schedule.stateAt_eq_foldl _ _ _).symm.trans (hrest later hlater)
  obtain ⟨_, ⟨now, random, rfl⟩, hserver⟩ := Schedule.rests_unchanged hserver hrest
  obtain ⟨_, rfl, hclient⟩ := Schedule.rests_unchanged hclient hrest
  obtain ⟨_, ⟨a, ha, rfl⟩, harrived⟩ := Schedule.rests_unchanged hToServer hrest
  obtain ⟨_, ⟨b, hb, rfl⟩, harrived'⟩ := Schedule.rests_unchanged hToClient hrest
  intro x
  rw [show x = _ from hrun]
  exact (hongoing n).ended hserver hclient
    (drop_eq_self ha (congrArg PairingExchange.toServer harrived))
    (drop_eq_self hb (congrArg PairingExchange.toClient harrived'))

/-- The two ends and the two directions take turns, a byte at a time. -/
def roundRobin (n : Nat) : ExchangeEvent :=
  match n % 4 with
  | 0 => .server n 0
  | 1 => .client
  | 2 => .arriveServer 1
  | _ => .arriveClient 1

theorem roundRobin_turn
    (n turn : Nat) (hturn : turn < 4) :
    ∃ later, n ≤ later ∧ later % 4 = turn :=
  ⟨4 * n + turn, by omega, by omega⟩

/-- A host and a headset that was given its PIN. -/
theorem handshake_ends_roundRobin :
    ∃ n, ∀ later, n ≤ later →
      let x := (start {} .h265 (PairingHost.start 0 ⟨5, 300⟩ 0 1234 none) 1234).run 0
        ((List.range later).map roundRobin)
      (x.server.step = .ready ∧ x.client.step = .streaming ∧ x.client.result = some .ok) ∨
        (x.server.step = .refused ∧ x.client.result = some .pinRejected) := by
  apply handshake_ends
  · intro n
    unfold roundRobin
    split <;> rfl
  · intro n
    obtain ⟨later, hlater, hturn⟩ := roundRobin_turn n 0 (by decide)
    exact ⟨later, hlater, later, 0, by simp only [roundRobin, hturn]⟩
  · intro n
    obtain ⟨later, hlater, hturn⟩ := roundRobin_turn n 1 (by decide)
    exact ⟨later, hlater, by simp only [roundRobin, hturn]⟩
  · intro n
    obtain ⟨later, hlater, hturn⟩ := roundRobin_turn n 2 (by decide)
    exact ⟨later, hlater, 1, Nat.one_pos, by simp only [roundRobin, hturn]⟩
  · intro n
    obtain ⟨later, hlater, hturn⟩ := roundRobin_turn n 3 (by decide)
    exact ⟨later, hlater, 1, Nat.one_pos, by simp only [roundRobin, hturn]⟩

end PairingExchange

end Client
end FocusVision
