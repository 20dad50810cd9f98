import FocusVision.Engine.PairingLockout
import FocusVision.Engine.StreamingLoopSafe

/-!
# Guesses over the network

Each connection that the engine takes is good for one guess of the PIN, and over all
connections, sessions and reconnects a PIN meets only a few wrong guesses.
-/

namespace FocusVision
namespace Engine

variable {epoch : Nat}

/-- The audit of a host keeps its pairing state. -/
theorem audit_host
    (a : Audit) (calls : List PairingCall) :
    (Run.final (Audit.step epoch) a calls).host =
      Run.final (PairingHost.step epoch) a.host calls := by
  induction calls generalizing a with
  | nil => rfl
  | cons c calls ih => exact ih (a.step epoch c).2

/-- A call that compares a PIN, if no lockout holds. -/
def PairingCall.verifies (c : PairingCall) : Bool :=
  match c.op with
  | .verify _ => true
  | _ => false

theorem log_length_le
    (a : Audit) (calls : List PairingCall) :
    (Run.final (Audit.step epoch) a calls).log.length ≤
      a.log.length + calls.countP PairingCall.verifies := by
  induction calls generalizing a with
  | nil => exact Nat.le_refl _
  | cons c calls ih =>
      have hone : (a.host.compares a.generation c).toList.length ≤
          if c.verifies then 1 else 0 := by
        obtain ⟨now, random, op⟩ := c
        cases op with
        | verify pin =>
            simp only [PairingHost.compares, PairingCall.verifies]
            split <;> simp
        | _ => exact Nat.zero_le _
      have hlog : (a.step epoch c).2.log.length =
          a.log.length + (a.host.compares a.generation c).toList.length := by
        simp only [Audit.step, List.length_append]
      have hnext := ih (a.step epoch c).2
      rw [List.countP_cons, Run.final_cons]
      omega

/-- A handshake that may still verify a PIN. -/
def TcpControlServer.pending (s : TcpControlServer) : Nat :=
  match s.connection with
  | some (_, h) => if verdict h.step = none then 1 else 0
  | none => 0

def Accepted.pending : Accepted → Nat
  | .listening s => s.pending
  | _ => 0

/-- The server takes this connection; it takes none while another is in its handshake. -/
def TcpControlServer.takes (s : TcpControlServer) : ListenEvent → Bool
  | .accept _ => s.connection.isNone
  | _ => false

/-- The PINs that these calls verify. -/
def guesses (calls : List PeerCall) : Nat :=
  (calls.map Prod.snd).countP PairingCall.verifies

theorem settle_pending
    (s : TcpControlServer) (peer : IpAddr) (h : HandshakeServer) :
    (s.settle peer h).pending ≤ if verdict h.step = none then 1 else 0 := by
  unfold TcpControlServer.settle
  split
  · exact Nat.zero_le _
  · split
    · exact Nat.zero_le _
    · exact Nat.le_refl _

theorem TcpControlServer.pending_takes_le
    (s : TcpControlServer) (event : ListenEvent) :
    s.pending + (if s.takes event then 1 else 0) ≤ 1 := by
  unfold TcpControlServer.pending
  cases hconnection : s.connection with
  | none =>
      simp only [Nat.zero_add]
      split <;> decide
  | some connection =>
      have htakes : s.takes event = false := by
        cases event <;> simp [TcpControlServer.takes, hconnection]
      simp only [htakes, Bool.false_eq_true, if_false]
      split <;> decide

/-- A connection is good for one guess. -/
theorem listen_pending
    (epoch now : Nat) (random : UInt32) (s : TcpControlServer) (event : ListenEvent) :
    let r := s.listen epoch now random event
    guesses r.1 + r.2.pending ≤ s.pending + if s.takes event then 1 else 0 := by
  have hsame : guesses [] + (Accepted.listening s).pending ≤ s.pending :=
    Nat.le_of_eq (Nat.zero_add _)
  cases hconnection : s.connection with
  | none =>
      simp only [TcpControlServer.listen, hconnection]
      cases event with
      | acceptError =>
          simp only
          split <;> exact Nat.zero_le _
      | expires => exact Nat.zero_le _
      | accept peer =>
          unfold TcpControlServer.pending TcpControlServer.takes
          rw [hconnection]
          exact Nat.le_refl _
      | bytes bytes => exact hsame
      | runs => exact hsame
      | givesUp written => exact hsame
  | some connection =>
      obtain ⟨peer, h⟩ := connection
      have hpending : s.pending = if verdict h.step = none then 1 else 0 := by
        unfold TcpControlServer.pending
        rw [hconnection]
      refine Nat.le_trans ?_ (Nat.le_add_right ..)
      simp only [TcpControlServer.listen, hconnection]
      cases event with
      | expires => exact hsame
      | acceptError => exact hsame
      | accept peer => exact hsame
      | bytes bytes =>
          rw [hpending]
          exact Nat.le_of_eq (Nat.zero_add _)
      | runs =>
          have hadvance := HandshakeServer.advance_pairing epoch now random h
          have hsettle := settle_pending s peer (h.advance epoch now random).2
          simp only at hadvance
          cases hsubmits : h.submits with
          | none =>
              rw [hsubmits] at hadvance
              rw [hadvance.2, ← hpending] at hsettle
              simp only [hsubmits, Option.map_none, Option.toList_none]
              exact Nat.le_trans (Nat.le_of_eq (Nat.zero_add _)) hsettle
          | some pin =>
              rw [hsubmits] at hadvance
              obtain ⟨answer, -, hnone, hverdict⟩ := hadvance
              rw [hverdict, if_neg (by simp)] at hsettle
              rw [hpending, if_pos hnone]
              simp only [hsubmits, Option.map_some, Option.toList_some]
              exact Nat.add_le_add_left hsettle 1
      | givesUp written =>
          have hsettle := settle_pending s peer (h.giveUp written).2
          rw [(h.giveUp_pairing written).2, ← hpending] at hsettle
          exact Nat.le_trans (Nat.le_of_eq (Nat.zero_add _)) hsettle

namespace StreamingLoop

/-- A handshake of the loop that may still verify a PIN. -/
def pending (w : StreamingLoop) : Nat :=
  match w.phase with
  | .accepting s | .holding s _ => s.pending
  | _ => 0

/-- The loop takes this connection. -/
def takes (w : StreamingLoop) : LoopEvent → Bool
  | .listen event =>
      match w.phase with
      | .accepting s | .holding s _ => s.takes event
      | _ => false
  | _ => false

variable {w : StreamingLoop}

theorem pending_takes_le
    (w : StreamingLoop) (event : LoopEvent) :
    w.pending + (if w.takes event then 1 else 0) ≤ 1 := by
  unfold pending takes
  cases w.phase with
  | accepting s | holding s =>
      cases event with
      | listen event => exact s.pending_takes_le event
      | _ => exact s.pending_takes_le .expires
  | _ => cases event <;> exact Nat.zero_le _

theorem accepted_pending
    (w : StreamingLoop) (now : Nat) {listening : TcpControlServer → LoopPhase}
    (hlistening : ∀ s, { w with phase := listening s }.pending = s.pending)
    (accepted : Accepted) :
    (w.accepted now listening accepted).pending = accepted.pending := by
  cases accepted with
  | listening s => exact hlistening s
  | connected s peer => rfl
  | failed s => rfl

theorem sessionEnded_pending
    (epoch now : Nat) (random : UInt32) (w : StreamingLoop) {s : TcpControlServer}
    (hs : s.connection = none) (outcome : SessionEnd) :
    let r := w.sessionEnded epoch now random s outcome
    guesses r.1 + r.2.pending = 0 := by
  cases outcome with
  | setupFailed => rfl
  | shutdown => rfl
  | disconnected reason =>
      cases reason with
      | connectionLost =>
          simp only [StreamingLoop.sessionEnded, pending, TcpControlServer.pending, hs]
          rfl
      | clientRequested => rfl
      | protocolError => rfl

theorem Safe.step_pending
    {boot : PairingHost} {calls : List PeerCall} (h : w.Safe epoch boot calls)
    (event : Nat × UInt32 × LoopEvent) :
    let r := w.step epoch event
    guesses r.1 + r.2.pending ≤ w.pending + if w.takes event.2.2 then 1 else 0 := by
  obtain ⟨now, random, event⟩ := event
  have hsame : guesses [] + w.pending ≤ w.pending := Nat.le_of_eq (Nat.zero_add _)
  cases event with
  | listen event =>
      cases hphase : w.phase with
      | accepting s =>
          have hpending : w.pending = s.pending := by
            unfold pending
            rw [hphase]
          have hlisten := listen_pending epoch now random s event
          simp only [StreamingLoop.step, takes, hphase]
          rw [hpending, accepted_pending w now (fun s => rfl)]
          exact hlisten
      | holding s deadline =>
          have hpending : w.pending = s.pending := by
            unfold pending
            rw [hphase]
          have hlisten := listen_pending epoch now random s event
          simp only [StreamingLoop.step, takes, hphase]
          rw [hpending, accepted_pending w now (fun s => rfl)]
          exact hlisten
      | _ =>
          simp only [StreamingLoop.step, hphase]
          exact Nat.le_trans hsame (Nat.le_add_right ..)
  | newServer =>
      cases hphase : w.phase with
      | retry file deadline =>
          simp only [StreamingLoop.step, hphase]
          split
          · exact Nat.zero_le _
          · exact hsame
      | _ =>
          simp only [StreamingLoop.step, hphase]
          exact hsame
  | bindFails =>
      cases hphase : w.phase with
      | accepting | holding =>
          simp only [StreamingLoop.step, hphase]
          exact Nat.zero_le _
      | _ =>
          simp only [StreamingLoop.step, hphase]
          exact hsame
  | authorizes =>
      cases hphase : w.phase with
      | starting s peer =>
          simp only [StreamingLoop.step, hphase]
          split
          · exact hsame
          · exact Nat.zero_le _
      | _ =>
          simp only [StreamingLoop.step, hphase]
          exact hsame
  | sessionEnds outcome =>
      cases hphase : w.phase with
      | streaming s peer =>
          simp only [StreamingLoop.step, hphase]
          exact Nat.zero_le _
      | _ =>
          simp only [StreamingLoop.step, hphase]
          exact hsame
  | sessionReturns =>
      cases hphase : w.phase with
      | ending s outcome =>
          have hphase_ok := h.phase_ok
          rw [hphase] at hphase_ok
          simp only [StreamingLoop.step, hphase]
          split
          · exact Nat.le_trans
              (Nat.le_of_eq
                (sessionEnded_pending epoch now random w hphase_ok.connection_eq outcome))
              (Nat.zero_le _)
          · exact hsame
      | _ =>
          simp only [StreamingLoop.step, hphase]
          exact hsame
  | holdOver =>
      cases hphase : w.phase with
      | holding s deadline =>
          simp only [StreamingLoop.step, hphase]
          split
          · exact Nat.zero_le _
          · exact hsame
      | _ =>
          simp only [StreamingLoop.step, hphase]
          exact hsame
  | cancelled =>
      cases hphase : w.phase with
      | retry | accepting | starting | holding =>
          simp only [StreamingLoop.step, hphase]
          exact Nat.zero_le _
      | _ =>
          simp only [StreamingLoop.step, hphase]
          exact hsame
  | port event =>
      rw [step_port]
      split
      · exact hsame
      · exact hsame

theorem guesses_append
    (calls more : List PeerCall) :
    guesses (calls ++ more) = guesses calls + guesses more := by
  unfold guesses
  rw [List.map_append, List.countP_append]

/-- So many connections are taken. -/
def connections (epoch : Nat) : StreamingLoop → List (Nat × UInt32 × LoopEvent) → Nat
  | _, [] => 0
  | w, event :: events =>
      (if w.takes event.2.2 then 1 else 0) + connections epoch (w.step epoch event).2 events

/-- The connections on which PINs are guessed, one entry for each guess; the connections are
numbered in the order in which they are taken, and so many were taken before. -/
def guessedOn (epoch : Nat) : Nat → StreamingLoop → List (Nat × UInt32 × LoopEvent) → List Nat
  | _, _, [] => []
  | before, w, event :: events =>
      let taken := before + if w.takes event.2.2 then 1 else 0
      let r := w.step epoch event
      List.replicate (guesses r.1) taken ++ guessedOn epoch taken r.2 events

theorem guessedOn_length
    (epoch taken : Nat) (w : StreamingLoop) (events : List (Nat × UInt32 × LoopEvent)) :
    (guessedOn epoch taken w events).length =
      guesses (Run.outputs (step epoch) w events).flatten := by
  induction events generalizing taken w with
  | nil => rfl
  | cons event events ih =>
      simp only [guessedOn, List.length_append, List.length_replicate, ih, Run.outputs_cons,
        List.flatten_cons, guesses_append]

/-- Each connection is guessed on once at most, and only after it was taken. -/
theorem Safe.guessedOn
    {boot : PairingHost} {calls : List PeerCall} (h : w.Safe epoch boot calls) (taken : Nat)
    (events : List (Nat × UInt32 × LoopEvent)) :
    (guessedOn epoch taken w events).Pairwise (· < ·) ∧
      ∀ k ∈ StreamingLoop.guessedOn epoch taken w events,
        taken + 1 ≤ k + w.pending ∧ k ≤ taken + connections epoch w events := by
  induction events generalizing w taken calls with
  | nil => exact ⟨List.Pairwise.nil, fun _ hk => absurd hk List.not_mem_nil⟩
  | cons event events ih =>
      have hstep := h.step_pending event
      have hone := w.pending_takes_le event.2.2
      obtain ⟨hpairwise, hrest⟩ := ih (h.step event)
        (taken + if w.takes event.2.2 then 1 else 0)
      simp only at hstep
      simp only [StreamingLoop.guessedOn, connections]
      generalize (if w.takes event.2.2 = true then 1 else 0) = takes at *
      refine ⟨List.pairwise_append.mpr ⟨?_, hpairwise, fun k hk k' hk' => ?_⟩, fun k hk => ?_⟩
      · refine List.pairwise_replicate.mpr (Or.inl ?_)
        omega
      · -- after a guess, only another connection is guessed on
        have hguess := (List.mem_replicate.mp hk).1
        rw [(List.mem_replicate.mp hk).2]
        have := (hrest k' hk').1
        omega
      · rcases List.mem_append.mp hk with hnow | hlater
        · have hguess := (List.mem_replicate.mp hnow).1
          rw [(List.mem_replicate.mp hnow).2]
          omega
        · have := hrest k hlater
          omega

/--
Whoever connects and whatever is sent: in a run of the engine with its sessions, reconnects
and new servers, the pairing state is that of its calls alone, each connection that is taken is
good for one guess at most, and each generated PIN is compared with at most `max_attempts`
wrong PINs between two successes.
-/
theorem connection_guesses
    (epoch : Nat) (video : VideoConfig) (codec : VideoCodec) (limits : PairingLimits)
    (hallowed : limits.Allowed) (bootTime : Nat) (bootRandom : UInt32) (file : PersistedLockout)
    (events : List (Nat × UInt32 × LoopEvent)) :
    let first := start epoch video codec limits bootTime bootRandom file
    let calls := (Run.outputs (step epoch) first events).flatten.map Prod.snd
    let audit := Run.final (Audit.step epoch)
      { host := PairingHost.start epoch limits bootTime bootRandom file } calls
    let w := Run.final (step epoch) first events
    let guessed := guessedOn epoch 0 first events
    (∀ server deadline, w.phase = .accepting server ∨ w.phase = .holding server deadline →
      server.host = audit.host) ∧
    guessed.Pairwise (· < ·) ∧
    (∀ connection ∈ guessed, 1 ≤ connection ∧ connection ≤ connections epoch first events) ∧
    audit.log.length ≤ guessed.length ∧
    (∀ e ∈ audit.log, e.ComparesWith audit.pins) ∧
    (∀ generation before stretch after, audit.log = before ++ stretch ++ after →
      AllMisses stretch →
      stretch.countP (Comparison.missOf generation) ≤ limits.maxAttempts) := by
  intro first calls audit w guessed
  have hsafe : first.Safe epoch (PairingHost.start epoch limits bootTime bootRandom file) [] :=
    safe_start ..
  obtain ⟨hpairwise, hbetween⟩ := hsafe.guessedOn 0 events
  obtain ⟨hguard, hdrawn⟩ := guarded_run hallowed epoch bootTime bootRandom file calls
  refine ⟨fun server deadline hphase => ?_, hpairwise, fun connection hmem => ?_, ?_, hdrawn.log,
    hguard.stretch_le⟩
  · have haudit := @audit_host epoch
      { host := PairingHost.start epoch limits bootTime bootRandom file } calls
    have hphase_ok :=
      (safe_run epoch video codec limits bootTime bootRandom file events).phase_ok
    have hok : server.Ok epoch (PairingHost.start epoch limits bootTime bootRandom file)
        (Run.outputs (step epoch) first events).flatten := by
      rcases hphase with hphase | hphase
      · simp only [w, first] at hphase
        rw [hphase] at hphase_ok
        exact hphase_ok.2
      · simp only [w, first] at hphase
        rw [hphase] at hphase_ok
        exact hphase_ok.2
    exact hok.host_eq.trans haudit.symm
  · have hpending : first.pending = 0 := rfl
    have := hbetween connection hmem
    omega
  · rw [guessedOn_length]
    have hlog := @log_length_le epoch
      { host := PairingHost.start epoch limits bootTime bootRandom file } calls
    simp only [List.length_nil, Nat.zero_add] at hlog
    exact hlog

/-- Two connections that send a wrong PIN, and one between them that is not taken. -/
theorem connection_guesses_two :
    let guess : List (Nat × UInt32 × LoopEvent) :=
      [(10, 0, .listen (.accept (.v4 7))),
        (20, 0, .listen (.bytes [1, 0, 0, 0, 1, 5, 0, 0, 0, 4, 9, 9, 0, 0])),
        (25, 0, .listen (.accept (.v4 8))),
        (30, 0, .listen .runs), (31, 0, .listen .runs), (32, 0, .listen .runs),
        (33, 0, .listen .runs), (34, 0, .listen .runs)]
    let first := start 0 {} .h265 ⟨5, 300 * MICROS⟩ 0 1234 none
    guessedOn 0 0 first (guess ++ guess) = [1, 2] ∧
      ∀ connection ∈ guessedOn 0 0 first (guess ++ guess),
        connection ≤ connections 0 first (guess ++ guess) := by
  intro guess first
  have h := connection_guesses 0 {} .h265 ⟨5, 300 * MICROS⟩
    ⟨by decide, by decide, by decide, by decide⟩ 0 1234 none (guess ++ guess)
  exact ⟨by decide, fun connection hmem => (h.2.2.1 connection hmem).2⟩

end StreamingLoop

end Engine
end FocusVision
