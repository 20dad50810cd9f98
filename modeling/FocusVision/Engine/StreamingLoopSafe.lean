import FocusVision.Engine.PairedHeadset
import FocusVision.Engine.StreamingLoop

/-!
# What strangers can do to the engine

Whoever connects to the engine and whatever is sent to it, over TCP and to the tracking port:
only a headset that sent the PIN gets a session and moves the inputs, and each PIN meets few
wrong guesses.
-/

namespace FocusVision
namespace Engine

/-! ### The pairing state over a run -/

/-- The pairing state after these calls. -/
def hostAfter (epoch : Nat) (boot : PairingHost) (calls : List PeerCall) : PairingHost :=
  Run.final (PairingHost.step epoch) boot (calls.map Prod.snd)

/-- After `before`, this peer sends the PIN of the host, and no lockout holds. -/
def SendsPin (epoch : Nat) (boot : PairingHost) (before : List PeerCall) (peer : IpAddr)
    (call : PeerCall) : Prop :=
  let host := hostAfter epoch boot before
  call.1 = some peer ∧ call.2.op = .verify host.state.pin ∧
    host.state.isLocked call.2.now = false

/-- The last call is that this peer sent the PIN. -/
def JustPaired (epoch : Nat) (boot : PairingHost) (calls : List PeerCall) (peer : IpAddr) :
    Prop :=
  ∃ before call, calls = before ++ [call] ∧ SendsPin epoch boot before peer call

/-- At some time this peer sent the PIN. -/
def Paired (epoch : Nat) (boot : PairingHost) (calls : List PeerCall) (peer : IpAddr) : Prop :=
  ∃ before call after, calls = before ++ call :: after ∧ SendsPin epoch boot before peer call

variable {epoch now : Nat} {random : UInt32} {boot : PairingHost} {calls more : List PeerCall}
  {peer : IpAddr}

theorem JustPaired.paired
    (h : JustPaired epoch boot calls peer) :
    Paired epoch boot calls peer := by
  obtain ⟨before, call, hcalls, hsends⟩ := h
  exact ⟨before, call, [], hcalls, hsends⟩

theorem Paired.append
    (h : Paired epoch boot calls peer) (more : List PeerCall) :
    Paired epoch boot (calls ++ more) peer := by
  obtain ⟨before, call, after, rfl, hsends⟩ := h
  exact ⟨before, call, after ++ more, by simp, hsends⟩

theorem hostAfter_append
    (calls more : List PeerCall) :
    hostAfter epoch boot (calls ++ more) = hostAfter epoch (hostAfter epoch boot calls) more := by
  unfold hostAfter
  rw [List.map_append, Run.final_append]

theorem hostAfter_singleton
    (host : PairingHost) (call : PeerCall) :
    hostAfter epoch host [call] = (host.step epoch call.2).2 :=
  rfl

/-- The limits never change. -/
theorem step_limits
    (epoch : Nat) (host : PairingHost) (c : PairingCall) :
    (host.step epoch c).2.state.limits = host.state.limits := by
  obtain ⟨now, random, op⟩ := c
  cases op with
  | verify pin =>
      simp only [PairingHost.step, PairingState.verify]
      split
      · rfl
      · split
        · rfl
        · split <;> rfl
  | rotateIfExpired =>
      simp only [PairingHost.step, PairingState.rotateIfExpired]
      split <;> rfl
  | rearmForReconnect window => rfl
  | restart => rfl

theorem hostAfter_limits
    (host : PairingHost) (calls : List PeerCall) :
    (hostAfter epoch host calls).state.limits = host.state.limits := by
  induction calls generalizing host with
  | nil => rfl
  | cons call calls ih =>
      exact (ih (host.step epoch call.2).2).trans (step_limits epoch host call.2)

/-! ### Listening -/

theorem TcpControlServer.host_some
    {s : TcpControlServer} {h : HandshakeServer} (hconnection : s.connection = some (peer, h)) :
    s.host = h.pairing := by
  unfold TcpControlServer.host
  rw [hconnection]

theorem TcpControlServer.host_none
    {s : TcpControlServer} (hconnection : s.connection = none) :
    s.host = s.pairing := by
  unfold TcpControlServer.host
  rw [hconnection]

/-- A server that listens keeps to the pairing state, and whose handshake was accepted has
just sent the PIN. -/
structure TcpControlServer.Ok (epoch : Nat) (boot : PairingHost) (calls : List PeerCall)
    (s : TcpControlServer) : Prop where
  host_eq : s.host = hostAfter epoch boot calls
  accepted : ∀ peer h, s.connection = some (peer, h) → verdict h.step = some true →
    JustPaired epoch boot calls peer

/-- A server between two connections. -/
structure TcpControlServer.Idle (epoch : Nat) (boot : PairingHost) (calls : List PeerCall)
    (s : TcpControlServer) : Prop where
  pairing_eq : s.pairing = hostAfter epoch boot calls
  connection_eq : s.connection = none

theorem TcpControlServer.Idle.ok
    {s : TcpControlServer} (h : s.Idle epoch boot calls) :
    s.Ok epoch boot calls where
  host_eq := (TcpControlServer.host_none h.connection_eq).trans h.pairing_eq
  accepted := by
    intro peer hs hsome
    rw [h.connection_eq] at hsome
    cases hsome

/-- What `listen_and_accept` has come to, after these calls. -/
def Accepted.Ok (epoch : Nat) (boot : PairingHost) (calls : List PeerCall) : Accepted → Prop
  | .listening s => s.Ok epoch boot calls
  | .connected s peer => s.Idle epoch boot calls ∧ JustPaired epoch boot calls peer
  | .failed s => s.Ok epoch boot calls

theorem settle_ok
    {s : TcpControlServer} {h : HandshakeServer}
    (hhost : h.pairing = hostAfter epoch boot calls)
    (haccepted : verdict h.step = some true → JustPaired epoch boot calls peer) :
    (s.settle peer h).Ok epoch boot calls := by
  unfold TcpControlServer.settle
  split
  · exact TcpControlServer.Idle.ok ⟨hhost, rfl⟩
  · split
    · rename_i hready
      exact ⟨⟨hhost, rfl⟩, haccepted (hready ▸ rfl)⟩
    · refine ⟨hhost, ?_⟩
      intro peer' h' hsome hverdict
      cases hsome
      exact haccepted hverdict

/-- One step of the handshake on a connection. -/
theorem runs_ok
    {s : TcpControlServer} (hs : s.Ok epoch boot calls) {h : HandshakeServer}
    (hconnection : s.connection = some (peer, h)) :
    (s.settle peer (h.advance epoch now random).2).Ok epoch boot
      (calls ++ (h.submits.map fun pin =>
        ((some peer, ⟨now, random, .verify pin⟩) : PeerCall)).toList) := by
  have hhost := (TcpControlServer.host_some hconnection).symm.trans hs.host_eq
  have hadvance := HandshakeServer.advance_pairing epoch now random h
  simp only at hadvance
  cases hsubmits : h.submits with
  | none =>
      rw [hsubmits] at hadvance
      obtain ⟨hpairing, hverdict⟩ := hadvance
      simp only [Option.map_none, Option.toList_none, List.append_nil]
      refine settle_ok (hpairing.trans hhost) fun haccepted => ?_
      rw [hverdict] at haccepted
      exact hs.accepted peer h hconnection haccepted
  | some pin =>
      rw [hsubmits] at hadvance
      obtain ⟨answer, hverified, -, hverdict⟩ := hadvance
      simp only [Option.map_some, Option.toList_some]
      rw [hhost] at hverified
      refine settle_ok ?_ fun haccepted => ?_
      · rw [hostAfter_append, hostAfter_singleton, hverified]
      · rw [hverdict, Option.some.injEq] at haccepted
        cases answer with
        | error e => exact absurd haccepted Bool.false_ne_true
        | ok u =>
            obtain ⟨hpin, hopen⟩ := verified_ok hverified
            exact ⟨calls, _, rfl, rfl, congrArg PairingOp.verify hpin, hopen⟩

theorem listen_ok
    {s : TcpControlServer} (hs : s.Ok epoch boot calls) (event : ListenEvent) :
    let r := s.listen epoch now random event
    r.2.Ok epoch boot (calls ++ r.1) := by
  have hsame : (Accepted.listening s).Ok epoch boot (calls ++ []) := by
    rw [List.append_nil]
    exact hs
  cases hconnection : s.connection with
  | some connection =>
      obtain ⟨peer, h⟩ := connection
      have hhost := (TcpControlServer.host_some hconnection).symm.trans hs.host_eq
      have haccepted := hs.accepted peer h hconnection
      simp only [TcpControlServer.listen, hconnection]
      cases event with
      | expires => exact hsame
      | acceptError => exact hsame
      | accept peer => exact hsame
      | bytes bytes =>
          rw [List.append_nil]
          refine ⟨hhost, ?_⟩
          intro peer' h' hsome
          cases hsome
          exact haccepted
      | runs => exact runs_ok hs hconnection
      | givesUp written =>
          obtain ⟨hpairing, hstep⟩ := h.giveUp_pairing written
          rw [List.append_nil]
          exact settle_ok (hpairing.trans hhost) fun h => haccepted (hstep ▸ h)
  | none =>
      have hhost := (TcpControlServer.host_none hconnection).symm.trans hs.host_eq
      have hrotated : (s.pairing.step epoch ⟨now, random, .rotateIfExpired⟩).2 =
          hostAfter epoch boot (calls ++ [(none, ⟨now, random, .rotateIfExpired⟩)]) := by
        rw [hostAfter_append, hostAfter_singleton, hhost]
      simp only [TcpControlServer.listen, hconnection]
      cases event with
      | expires => exact TcpControlServer.Idle.ok ⟨hrotated, rfl⟩
      | acceptError =>
          simp only
          split <;> exact TcpControlServer.Idle.ok ⟨hrotated, rfl⟩
      | accept peer =>
          refine ⟨hrotated, ?_⟩
          intro peer' h' hsome hverdict
          cases hsome
          cases hverdict
      | bytes bytes => exact hsame
      | runs => exact hsame
      | givesUp written => exact hsame

/-! ### The tracking port -/

/-- Everything in the inputs was sent from the address of such a peer. -/
structure HmdInputs.AllFrom (P : IpAddr → Prop) (inputs : HmdInputs) : Prop where
  head : ∀ e, inputs.head = some e → ∃ ip, P ip ∧ ip.toCanonical = e.src.toCanonical
  controllers : ∀ i e, inputs.controllers i = some e →
    ∃ ip, P ip ∧ ip.toCanonical = e.src.toCanonical

/-- What a datagram does to the inputs. -/
theorem HmdInputs.store_cases
    (inputs : HmdInputs) (peer : Option IpAddr) (d : Datagram) :
    (inputs.store peer d).2 = inputs ∨
      (∃ data, (inputs.store peer d).2 = { inputs with head := some ⟨data, d.src, peer⟩ }) ∨
      ∃ i state, (inputs.store peer d).2 =
        { inputs with
          controllers := Function.update inputs.controllers i (some ⟨state, d.src, peer⟩) } := by
  unfold HmdInputs.store
  cases d.packet with
  | nil => exact Or.inl rfl
  | cons packetType payload =>
      simp only
      split_ifs with hhead hcontroller
      · cases parseHeadPose payload with
        | none => exact Or.inl rfl
        | some data => exact Or.inr (Or.inl ⟨data, rfl⟩)
      · cases parseController payload with
        | none => exact Or.inl rfl
        | some state =>
            simp only
            split_ifs with hid
            · exact Or.inr (Or.inr ⟨⟨_, hid⟩, state, rfl⟩)
            · exact Or.inl rfl
      · exact Or.inl rfl

variable {P Q : IpAddr → Prop}

theorem HmdInputs.AllFrom.mono
    {inputs : HmdInputs} (h : inputs.AllFrom P) (himp : ∀ ip, P ip → Q ip) :
    inputs.AllFrom Q := by
  refine ⟨fun e he => ?_, fun i e he => ?_⟩
  · obtain ⟨ip, hip, hsrc⟩ := h.head e he
    exact ⟨ip, himp ip hip, hsrc⟩
  · obtain ⟨ip, hip, hsrc⟩ := h.controllers i e he
    exact ⟨ip, himp ip hip, hsrc⟩

theorem HmdInputs.AllFrom.store
    {inputs : HmdInputs} (h : inputs.AllFrom P) {d : Datagram} {session : Option IpAddr}
    {ip : IpAddr} (hip : P ip) (hsrc : ip.toCanonical = d.src.toCanonical) :
    (inputs.store session d).2.AllFrom P := by
  rcases inputs.store_cases session d with hsame | ⟨data, hhead⟩ | ⟨i, state, hcontroller⟩
  · rw [hsame]
    exact h
  · rw [hhead]
    refine ⟨fun e he => ?_, h.controllers⟩
    cases he
    exact ⟨ip, hip, hsrc⟩
  · rw [hcontroller]
    refine ⟨h.head, fun j e he => ?_⟩
    rcases Decidable.eq_or_ne j i with rfl | hj
    · simp only [Function.update_self] at he
      cases he
      exact ⟨ip, hip, hsrc⟩
    · simp only [Function.update_of_ne hj] at he
      exact h.controllers j e he

/-- The port only stores what the session's peer sends. -/
theorem TrackingPort.step_allFrom
    {port : TrackingPort} (hok : port.Ok) (hinputs : port.inputs.AllFrom P)
    (hsession : ∀ ip, port.session.peer = some ip → P ip) (event : PortEvent) :
    (port.step event).2.inputs.AllFrom P := by
  cases event with
  | authorize ip =>
      simp only [TrackingPort.step]
      split <;> exact hinputs
  | revoke =>
      simp only [TrackingPort.step]
      split <;> exact hinputs
  | clearHead =>
      simp only [TrackingPort.step]
      split
      · exact ⟨fun e he => absurd he.symm (Option.some_ne_none e), hinputs.controllers⟩
      · exact hinputs
  | clearControllers =>
      simp only [TrackingPort.step]
      split
      · exact ⟨hinputs.head, fun i e he => absurd he.symm (Option.some_ne_none e)⟩
      · exact hinputs
  | receive d =>
      simp only [TrackingPort.step]
      split
      · exact hinputs
      · split <;> exact hinputs
  | store =>
      simp only [TrackingPort.step]
      cases hreceiving : port.receiving with
      | none => exact hinputs
      | some d =>
          obtain ⟨ip, hip, hsrc⟩ := isPairedHmd_iff.mp (hok.receiving d hreceiving)
          exact hinputs.store (hsession ip hip) hsrc

/-! ### The loop -/

/-- What holds in a phase, with the session of the tracking port. -/
def LoopPhase.Ok (epoch : Nat) (boot : PairingHost) (calls : List PeerCall)
    (session : SessionState) : LoopPhase → Prop
  | .retry file _ => session = .down ∧ (hostAfter epoch boot calls).file = file
  | .accepting s => session = .down ∧ s.Ok epoch boot calls
  | .starting s peer => session = .down ∧ s.Idle epoch boot calls ∧ JustPaired epoch boot calls peer
  | .streaming s peer =>
      session = .active peer ∧ s.Idle epoch boot calls ∧ JustPaired epoch boot calls peer
  | .ending s _ => s.Idle epoch boot calls
  | .holding s _ => session = .down ∧ s.Ok epoch boot calls
  | .stopped => True

/-- The invariant of the loop and the tracking port. -/
structure StreamingLoop.Safe (epoch : Nat) (boot : PairingHost) (calls : List PeerCall)
    (w : StreamingLoop) : Prop where
  port_ok : w.port.Ok
  paired : ∀ ip, w.port.session.peer = some ip → Paired epoch boot calls ip
  inputs : w.port.inputs.AllFrom (Paired epoch boot calls)
  limits_eq : w.limits = boot.state.limits
  phase_ok : w.phase.Ok epoch boot calls w.port.session

namespace StreamingLoop

variable {w : StreamingLoop}

/-- Another phase, after more calls. -/
theorem Safe.move
    (h : w.Safe epoch boot calls) (reconnect : ReconnectState) {phase : LoopPhase}
    (hphase : phase.Ok epoch boot (calls ++ more) w.port.session) :
    Safe epoch boot (calls ++ more) { w with reconnect, phase } where
  port_ok := h.port_ok
  paired := fun ip hip => (h.paired ip hip).append more
  inputs := h.inputs.mono fun _ hip => hip.append more
  limits_eq := h.limits_eq
  phase_ok := hphase

/-- The port takes a step. -/
theorem Safe.portStep
    (h : w.Safe epoch boot calls) {event : PortEvent} {phase : LoopPhase}
    (hpaired : ∀ ip, (w.port.step event).2.session.peer = some ip → Paired epoch boot calls ip)
    (hphase : phase.Ok epoch boot calls (w.port.step event).2.session) :
    Safe epoch boot calls { w with port := (w.port.step event).2, phase } where
  port_ok := h.port_ok.step event
  paired := hpaired
  inputs := TrackingPort.step_allFrom h.port_ok h.inputs h.paired event
  limits_eq := h.limits_eq
  phase_ok := hphase

/-- A server that is given up leaves its lockout file. -/
theorem Safe.backOff
    (h : w.Safe epoch boot calls) (reconnect : ReconnectState) {s : TcpControlServer} (now : Nat)
    (hdown : w.port.session = .down) (hs : s.Ok epoch boot (calls ++ more)) :
    (w.backOff reconnect s now).Safe epoch boot (calls ++ more) :=
  h.move reconnect ⟨hdown, congrArg PairingHost.file hs.host_eq.symm⟩

/-- What a server that listens has come to. -/
theorem Safe.accepted
    (h : w.Safe epoch boot calls) {listening : TcpControlServer → LoopPhase}
    {accepted : Accepted} (hdown : w.port.session = .down)
    (haccepted : accepted.Ok epoch boot (calls ++ more))
    (hlistening : ∀ s : TcpControlServer, s.Ok epoch boot (calls ++ more) →
      (listening s).Ok epoch boot (calls ++ more) .down) :
    (w.accepted now listening accepted).Safe epoch boot (calls ++ more) := by
  cases accepted with
  | listening s => exact h.move w.reconnect (hdown.symm ▸ hlistening s haccepted)
  | connected s peer => exact h.move _ ⟨hdown, haccepted.1, haccepted.2⟩
  | failed s => exact h.backOff _ now hdown haccepted

/-- A session returns. -/
theorem Safe.sessionEnded
    (h : w.Safe epoch boot calls) {s : TcpControlServer} (hdown : w.port.session = .down)
    (hs : s.Idle epoch boot calls) (outcome : SessionEnd) :
    let r := w.sessionEnded epoch now random s outcome
    r.2.Safe epoch boot (calls ++ r.1) := by
  have hok : s.Ok epoch boot (calls ++ []) := by
    rw [List.append_nil]
    exact hs.ok
  cases outcome with
  | setupFailed => exact h.backOff _ now hdown hok
  | shutdown => exact h.move w.reconnect trivial
  | disconnected reason =>
      cases reason with
      | connectionLost =>
          refine h.move _ ⟨hdown, TcpControlServer.Idle.ok ⟨?_, hs.connection_eq⟩⟩
          simp only [StreamingLoop.sessionEnded, hostAfter_append, hostAfter_singleton,
            hs.pairing_eq]
      | clientRequested => exact h.backOff _ now hdown hok
      | protocolError => exact h.backOff _ now hdown hok

/-- Receiving and storing leave the session alone, and dropping a guard only ends one. -/
theorem port_session
    (port : TrackingPort) {phase : LoopPhase} {event : PortEvent}
    (hevent : phase.allows event = true) :
    (port.step event).2.session = port.session ∨
      (∃ s outcome, phase = .ending s outcome) ∧ (port.step event).2.session.peer = none := by
  cases event with
  | receive d =>
      left
      simp only [TrackingPort.step]
      split
      · rfl
      · split <;> rfl
  | store =>
      left
      simp only [TrackingPort.step]
      split <;> rfl
  | authorize ip => cases phase <;> cases hevent
  | revoke =>
      cases phase with
      | ending s outcome =>
          simp only [TrackingPort.step]
          split
          · exact Or.inr ⟨⟨s, outcome, rfl⟩, rfl⟩
          · exact Or.inl rfl
      | _ => cases hevent
  | clearHead =>
      cases phase with
      | ending s outcome =>
          simp only [TrackingPort.step]
          split
          · exact Or.inr ⟨⟨s, outcome, rfl⟩, rfl⟩
          · exact Or.inl rfl
      | _ => cases hevent
  | clearControllers =>
      cases phase with
      | ending s outcome =>
          simp only [TrackingPort.step]
          split
          · exact Or.inr ⟨⟨s, outcome, rfl⟩, rfl⟩
          · exact Or.inl rfl
      | _ => cases hevent

theorem step_port
    (epoch now : Nat) (random : UInt32) (w : StreamingLoop) (event : PortEvent) :
    w.step epoch (now, random, .port event) =
      if w.phase.allows event then ([], { w with port := (w.port.step event).2 })
      else ([], w) := by
  cases hphase : w.phase <;> simp only [StreamingLoop.step, hphase]

theorem Safe.step
    (h : w.Safe epoch boot calls) (event : Nat × UInt32 × LoopEvent) :
    let r := w.step epoch event
    r.2.Safe epoch boot (calls ++ r.1) := by
  obtain ⟨now, random, event⟩ := event
  have hsame : w.Safe epoch boot (calls ++ []) := by
    rw [List.append_nil]
    exact h
  have hphase_ok := h.phase_ok
  cases event with
  | newServer =>
      cases hphase : w.phase with
      | retry file deadline =>
          rw [hphase] at hphase_ok
          obtain ⟨hdown, hfile⟩ := hphase_ok
          simp only [StreamingLoop.step, hphase]
          split
          · refine h.move w.reconnect ⟨hdown, TcpControlServer.Idle.ok ⟨?_, rfl⟩⟩
            rw [hostAfter_append, hostAfter_singleton, h.limits_eq, ← hfile,
              ← hostAfter_limits boot calls]
            rfl
          · exact hsame
      | _ =>
          simp only [StreamingLoop.step, hphase]
          exact hsame
  | bindFails =>
      cases hphase : w.phase with
      | accepting s =>
          rw [hphase] at hphase_ok
          obtain ⟨hdown, hs⟩ := hphase_ok
          rw [← List.append_nil calls] at hs
          simp only [StreamingLoop.step, hphase]
          exact h.backOff _ now hdown hs
      | holding s deadline =>
          rw [hphase] at hphase_ok
          obtain ⟨hdown, hs⟩ := hphase_ok
          rw [← List.append_nil calls] at hs
          simp only [StreamingLoop.step, hphase]
          exact h.backOff _ now hdown hs
      | _ =>
          simp only [StreamingLoop.step, hphase]
          exact hsame
  | listen event =>
      cases hphase : w.phase with
      | accepting s =>
          rw [hphase] at hphase_ok
          obtain ⟨hdown, hs⟩ := hphase_ok
          simp only [StreamingLoop.step, hphase]
          exact h.accepted hdown (listen_ok hs event) fun s hs => ⟨rfl, hs⟩
      | holding s deadline =>
          rw [hphase] at hphase_ok
          obtain ⟨hdown, hs⟩ := hphase_ok
          simp only [StreamingLoop.step, hphase]
          exact h.accepted hdown (listen_ok hs event) fun s hs => ⟨rfl, hs⟩
      | _ =>
          simp only [StreamingLoop.step, hphase]
          exact hsame
  | authorizes =>
      cases hphase : w.phase with
      | starting s peer =>
          rw [hphase] at hphase_ok
          obtain ⟨hdown, hs, hpaired⟩ := hphase_ok
          simp only [StreamingLoop.step, hphase]
          split
          · exact hsame
          · rename_i hfree
            have hnone : w.port.receiving = none := Option.not_isSome_iff_eq_none.mp hfree
            have hport : (w.port.step (.authorize peer)).2.session = .active peer := by
              simp only [TrackingPort.step, hdown, hnone]
            rw [List.append_nil]
            refine h.portStep (fun ip hip => ?_) ⟨hport, hs, hpaired⟩
            rw [hport] at hip
            cases hip
            exact hpaired.paired
      | _ =>
          simp only [StreamingLoop.step, hphase]
          exact hsame
  | sessionEnds outcome =>
      cases hphase : w.phase with
      | streaming s peer =>
          rw [hphase] at hphase_ok
          obtain ⟨-, hs, -⟩ := hphase_ok
          rw [← List.append_nil calls] at hs
          simp only [StreamingLoop.step, hphase]
          exact h.move w.reconnect hs
      | _ =>
          simp only [StreamingLoop.step, hphase]
          exact hsame
  | sessionReturns =>
      cases hphase : w.phase with
      | ending s outcome =>
          rw [hphase] at hphase_ok
          simp only [StreamingLoop.step, hphase]
          cases hsession : w.port.session with
          | down => exact h.sessionEnded hsession hphase_ok outcome
          | _ => exact hsame
      | _ =>
          simp only [StreamingLoop.step, hphase]
          exact hsame
  | holdOver =>
      cases hphase : w.phase with
      | holding s deadline =>
          rw [hphase] at hphase_ok
          obtain ⟨hdown, hs⟩ := hphase_ok
          rw [← List.append_nil calls] at hs
          simp only [StreamingLoop.step, hphase]
          split
          · exact h.backOff _ now hdown hs
          · exact hsame
      | _ =>
          simp only [StreamingLoop.step, hphase]
          exact hsame
  | cancelled =>
      cases hphase : w.phase with
      | retry | accepting | starting | holding =>
          simp only [StreamingLoop.step, hphase]
          exact h.move w.reconnect trivial
      | _ =>
          simp only [StreamingLoop.step, hphase]
          exact hsame
  | port event =>
      rw [step_port]
      split
      · rename_i hallows
        simp only [List.append_nil]
        rcases port_session w.port hallows with hsession | ⟨⟨s, outcome, hending⟩, hnone⟩
        · exact h.portStep (fun ip hip => h.paired ip (hsession ▸ hip)) (hsession ▸ h.phase_ok)
        · refine h.portStep (fun ip hip => ?_) ?_
          · rw [hnone] at hip
            cases hip
          · rw [hending] at hphase_ok ⊢
            exact hphase_ok
      · exact hsame

theorem safe_start
    (epoch : Nat) (video : VideoConfig) (codec : VideoCodec) (limits : PairingLimits)
    (now : Nat) (random : UInt32) (file : PersistedLockout) :
    (start epoch video codec limits now random file).Safe epoch
      (PairingHost.start epoch limits now random file) [] where
  port_ok := TrackingPort.ok_init
  paired := fun ip hip => absurd hip.symm (Option.some_ne_none ip)
  inputs :=
    { head := fun e he => absurd he.symm (Option.some_ne_none e)
      controllers := fun _ e he => absurd he.symm (Option.some_ne_none e) }
  limits_eq := rfl
  phase_ok := ⟨rfl, TcpControlServer.Idle.ok ⟨rfl, rfl⟩⟩

theorem safe_run
    (epoch : Nat) (video : VideoConfig) (codec : VideoCodec) (limits : PairingLimits)
    (now : Nat) (random : UInt32) (file : PersistedLockout)
    (events : List (Nat × UInt32 × LoopEvent)) :
    let w := start epoch video codec limits now random file
    (Run.final (step epoch) w events).Safe epoch
      (PairingHost.start epoch limits now random file)
      (Run.outputs (step epoch) w events).flatten := by
  intro w
  refine @Run.history _ _ _ (step epoch)
    (fun _ outputs w => w.Safe epoch (PairingHost.start epoch limits now random file)
      outputs.flatten) w (safe_start ..) ?_ events
  intro _ outputs w event h
  rw [List.flatten_append, List.flatten_singleton]
  exact h.step event

/--
Whoever connects, whatever bytes and datagrams they send and in whatever order things happen:
when a session starts, the last call of the pairing state was that its peer sent the current
PIN while no lockout held; every head pose and controller state comes from the address of a
peer that has sent the PIN; and between sessions the inputs are empty.
-/
theorem only_paired_streams
    (epoch : Nat) (video : VideoConfig) (codec : VideoCodec) (limits : PairingLimits)
    (bootTime : Nat) (bootRandom : UInt32) (file : PersistedLockout)
    (events : List (Nat × UInt32 × LoopEvent)) :
    let boot := PairingHost.start epoch limits bootTime bootRandom file
    let first := start epoch video codec limits bootTime bootRandom file
    let w := Run.final (step epoch) first events
    let calls := (Run.outputs (step epoch) first events).flatten
    (∀ server peer, w.phase = .streaming server peer → JustPaired epoch boot calls peer) ∧
    (∀ e, w.port.inputs.head = some e →
      ∃ ip, Paired epoch boot calls ip ∧ ip.toCanonical = e.src.toCanonical) ∧
    (∀ i e, w.port.inputs.controllers i = some e →
      ∃ ip, Paired epoch boot calls ip ∧ ip.toCanonical = e.src.toCanonical) ∧
    (w.port.session = .down →
      w.port.inputs.head = none ∧ ∀ i, w.port.inputs.controllers i = none) := by
  intro boot first w calls
  have h : w.Safe epoch boot calls :=
    safe_run epoch video codec limits bootTime bootRandom file events
  refine ⟨fun server peer hphase => ?_, h.inputs.head, h.inputs.controllers, fun hdown => ?_⟩
  · have hphase_ok := h.phase_ok
    rw [hphase] at hphase_ok
    exact hphase_ok.2.2
  · exact ⟨h.port_ok.head (Or.inr hdown), fun i => congrFun (h.port_ok.controllers hdown) i⟩

/-- A headset that sends the PIN does get its session. -/
example :
    (Run.final (step 0) (start 0 {} .h265 ⟨5, 300 * MICROS⟩ 0 1234 none)
      [(10, 0, .listen (.accept (.v4 7))),
        (11, 0, .listen (.bytes [4, 0, 0, 0, 1, 6, 0, 3])),
        (12, 0, .listen .runs), (13, 0, .listen .runs), (14, 0, .listen .runs),
        (15, 0, .listen (.bytes [5, 0, 0, 0, 4, 0xD2, 0x04, 0, 0])),
        (16, 0, .listen .runs), (17, 0, .listen .runs), (18, 0, .listen .runs),
        (19, 0, .listen (.bytes [1, 0, 0, 0, 7])),
        (20, 0, .listen .runs), (21, 0, .authorizes)]).port.authorizedPeer =
      some (.v4 7) := by
  decide

end StreamingLoop

end Engine
end FocusVision
