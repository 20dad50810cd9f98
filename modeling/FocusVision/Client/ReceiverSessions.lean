import FocusVision.Client.VideoReceiver
import Mathlib.Algebra.Order.Ring.Nat

/-!
# Frames of another session

Frames that are under way when a session begins or ends never reach the app afterwards: the
generation tells the receive thread that they are outdated, and what is in the queue already
is cleared.  This holds for every order of the steps of the three threads.
-/

namespace FocusVision
namespace Client
namespace VideoReceiver

/-- The receive thread assembled the frame in these steps, from a packet of the server of the
session. -/
def AssembledIn (begun : VideoReceiver) (later : List ReceiverStep) (f : Frame) : Prop :=
  ∃ (before : List ReceiverStep) (packet : List UInt8) (now : Int) (after : List ReceiverStep),
    let r := Run.final step begun before
    later = before ++ .receive (some (r.m_serverAddr, packet)) now :: after ∧
      r.thread = .receiving ∧ r.m_sessionActive = true ∧
      f ∈ (r.m_assembler.onPacket packet now {}).2.frames

section Renewed

variable {begun r : VideoReceiver} {later : List ReceiverStep} {past : Nat}

theorem AssembledIn.snoc
    {f : Frame} (h : AssembledIn begun later f) (s : ReceiverStep) :
    AssembledIn begun (later ++ [s]) f := by
  obtain ⟨before, packet, now, after, hlater, hassembled⟩ := h
  exact ⟨before, packet, now, after ++ [s], by rw [hlater]; simp, hassembled⟩

/-- Frames come from a packet of the server only. -/
theorem exists_packet_of_assemble
    {a : FrameAssembler} {server : UInt32} {received : Option (UInt32 × List UInt8)}
    {now : Int} {f : Frame} (h : f ∈ (assemble a server received now).2.frames) :
    ∃ packet, received = some (server, packet) ∧ f ∈ (a.onPacket packet now {}).2.frames := by
  have htick : ∀ (b : FrameAssembler) (out : Output),
      (b.onTick now out).2.frames = out.frames := by
    intro b out
    unfold FrameAssembler.onTick
    split_ifs
    · simp
    · rfl
  unfold assemble at h
  cases received with
  | none =>
      rw [htick] at h
      exact absurd h (by simp)
  | some received =>
      obtain ⟨source, packet⟩ := received
      simp only at h
      split_ifs at h with hsource
      · rw [htick] at h
        exact ⟨packet, by rw [hsource], h⟩
      · rw [htick] at h
        exact absurd h (by simp)

/-- What the receive thread holds was assembled at most `past` sections ago. -/
def Lags (r : VideoReceiver) (past : Nat) : Prop :=
  ∀ assembled, r.thread = .queueing assembled →
    ∃ k ≤ past, assembled.generation + UInt64.ofNat k = r.m_generation

/-- What the receive thread holds was assembled in `later`, or is outdated. -/
def HoldsRenewed (begun r : VideoReceiver) (later : List ReceiverStep) (past : Nat) : Prop :=
  ∀ assembled, r.thread = .queueing assembled →
    (∀ f ∈ assembled.out.frames, AssembledIn begun later f) ∨
      ∃ k, 0 < k ∧ k ≤ past ∧ assembled.generation + UInt64.ofNat k = r.m_generation

/-- A session begins or ends at `begun`; `past` bounds the sections until now. -/
structure Renewed (begun r : VideoReceiver) (later : List ReceiverStep) (past : Nat) : Prop where
  holds : HoldsRenewed begun r later past
  clearing : .clearOld ∉ later → r.switching = true
  cleared : .clearOld ∈ later → ∀ e ∈ r.m_frames, AssembledIn begun later e.frame

/-! ### What a section does to the generation and the frames -/

/-- The section belongs to the receive thread. -/
def ofReceiveThread : ReceiverStep → Bool
  | .receive _ _ | .queueFrames | .restart => true
  | _ => false

/-- The other threads leave the receive thread alone and never queue a frame. -/
theorem step_elsewhere
    {s : ReceiverStep} (h : ofReceiveThread s = false) :
    (r.step s).2.thread = r.thread ∧
      ((r.step s).2.m_generation = r.m_generation ∨
        (r.step s).2.m_generation = r.m_generation + 1) ∧
      ∀ e ∈ (r.step s).2.m_frames, e ∈ r.m_frames := by
  unfold VideoReceiver.step
  cases s with
  | receive received now => exact absurd h (by simp [ofReceiveThread])
  | queueFrames => exact absurd h (by simp [ofReceiveThread])
  | restart => exact absurd h (by simp [ofReceiveThread])
  | beginSession server =>
      cases r.switching with
      | true => exact ⟨rfl, Or.inl rfl, fun e he => he⟩
      | false => exact ⟨rfl, Or.inr rfl, fun e he => he⟩
  | endSession =>
      cases r.switching with
      | true => exact ⟨rfl, Or.inl rfl, fun e he => he⟩
      | false => exact ⟨rfl, Or.inr rfl, fun e he => he⟩
  | clearOld =>
      cases r.switching with
      | true => exact ⟨rfl, Or.inl rfl, fun e he => absurd he (by simp [clearFrames])⟩
      | false => exact ⟨rfl, Or.inl rfl, fun e he => he⟩
  | requireKeyframe now =>
      simp only
      split_ifs
      all_goals exact ⟨rfl, Or.inl rfl, fun e he => he⟩
  | clearRequired =>
      cases r.requiring with
      | true => exact ⟨rfl, Or.inl rfl, fun e he => absurd he (by simp [clearFrames])⟩
      | false => exact ⟨rfl, Or.inl rfl, fun e he => he⟩
  | popFrame =>
      cases r.requiring with
      | true => exact ⟨rfl, Or.inl rfl, fun e he => he⟩
      | false =>
          unfold VideoReceiver.popFrame
          cases hframes : r.m_frames with
          | nil => exact ⟨rfl, Or.inl rfl, fun e he => by simp [hframes] at he⟩
          | cons front frames =>
              exact ⟨rfl, Or.inl rfl, fun e he => List.mem_cons_of_mem front he⟩

theorem receive_frames
    (r : VideoReceiver) (received : Option (UInt32 × List UInt8)) (now : Int) :
    (r.receive received now).m_frames = r.m_frames := by
  unfold VideoReceiver.receive
  split_ifs
  · rfl
  · rfl

/-- What the receive thread assembles. -/
theorem receive_queueing
    {received : Option (UInt32 × List UInt8)} {now : Int} {assembled : Assembled}
    (hthread : r.thread = .receiving)
    (h : (r.receive received now).thread = .queueing assembled) :
    assembled.generation = (r.receive received now).m_generation ∧ ∃ packet,
      received = some (r.m_serverAddr, packet) ∧ r.m_sessionActive = true ∧
        ∀ f ∈ assembled.out.frames, f ∈ (r.m_assembler.onPacket packet now {}).2.frames := by
  unfold VideoReceiver.receive at h ⊢
  cases hactive : r.m_sessionActive with
  | false =>
      rw [hactive, Bool.not_false, if_pos rfl, hthread] at h
      exact absurd h (by simp)
  | true =>
      simp only [hactive, Bool.not_true, Bool.false_eq_true, if_false] at h ⊢
      split_ifs at h with hempty
      have hsame := ReceiveThread.queueing.inj h
      obtain ⟨f, hf⟩ := List.exists_mem_of_ne_nil _ (by simpa using hempty)
      obtain ⟨packet, hreceived, -⟩ := exists_packet_of_assemble hf
      refine ⟨by rw [← hsame], packet, hreceived, trivial, fun g hg => ?_⟩
      rw [← hsame] at hg
      obtain ⟨packet', hpacket, hg⟩ := exists_packet_of_assemble hg
      rw [hreceived] at hpacket
      cases hpacket
      exact hg

/-- The receive thread holds frames since before, or it has just assembled them. -/
theorem step_queueing
    {s : ReceiverStep} {assembled : Assembled}
    (h : (r.step s).2.thread = .queueing assembled) :
    (r.thread = .queueing assembled ∧
      ((r.step s).2.m_generation = r.m_generation ∨
        (r.step s).2.m_generation = r.m_generation + 1)) ∨
      (assembled.generation = (r.step s).2.m_generation ∧
        ∃ packet now, s = .receive (some (r.m_serverAddr, packet)) now ∧
          r.thread = .receiving ∧ r.m_sessionActive = true ∧ ∀ f ∈ assembled.out.frames,
            f ∈ (r.m_assembler.onPacket packet now {}).2.frames) := by
  cases hs : ofReceiveThread s with
  | false =>
      obtain ⟨hthread, hgeneration, -⟩ := step_elsewhere (r := r) hs
      exact Or.inl ⟨hthread.symm.trans h, hgeneration⟩
  | true =>
      unfold VideoReceiver.step at h ⊢
      cases s with
      | receive received now =>
          cases hthread : r.thread with
          | receiving =>
              rw [hthread] at h
              obtain ⟨hgeneration, packet, hreceived, hframes⟩ := receive_queueing hthread h
              exact Or.inr ⟨hgeneration, packet, now, by rw [hreceived], rfl, hframes⟩
          | _ =>
              rw [hthread] at h
              exact Or.inl ⟨hthread.symm.trans h, Or.inl rfl⟩
      | queueFrames =>
          cases hthread : r.thread with
          | queueing assembled' =>
              rw [hthread] at h
              unfold VideoReceiver.queueFrames at h
              simp only at h
              split_ifs at h
          | _ =>
              rw [hthread] at h
              exact absurd (hthread.symm.trans h) (by simp)
      | restart =>
          cases hthread : r.thread with
          | overflowed now out =>
              rw [hthread] at h
              exact absurd h (by simp [VideoReceiver.restart])
          | _ =>
              rw [hthread] at h
              exact Or.inl ⟨hthread.symm.trans h, Or.inl rfl⟩
      | _ => exact absurd hs (by simp [ofReceiveThread])

/-- A frame of the queue was there before, or the receive thread held it. -/
theorem step_frames
    {s : ReceiverStep} {e : QueuedFrame} (h : e ∈ (r.step s).2.m_frames) :
    e ∈ r.m_frames ∨ ∃ assembled, r.thread = .queueing assembled ∧
      assembled.generation = r.m_generation ∧ e.frame ∈ assembled.out.frames := by
  cases hs : ofReceiveThread s with
  | false => exact Or.inl ((step_elsewhere hs).2.2 e h)
  | true =>
      unfold VideoReceiver.step at h
      cases s with
      | receive received now =>
          left
          cases hthread : r.thread with
          | receiving =>
              rw [hthread] at h
              rw [← r.receive_frames received now]
              exact h
          | _ =>
              rw [hthread] at h
              exact h
      | queueFrames =>
          cases hthread : r.thread with
          | queueing assembled =>
              rw [hthread] at h
              unfold VideoReceiver.queueFrames at h
              simp only at h
              split_ifs at h with hgeneration
              · exact absurd h (by simp)
              · rcases List.mem_append.mp h with hold | hnew
                · exact Or.inl hold
                · obtain ⟨f, hf, rfl⟩ := List.mem_map.mp hnew
                  exact Or.inr ⟨assembled, rfl, hgeneration, hf⟩
              · exact Or.inl h
          | _ =>
              rw [hthread] at h
              exact Or.inl h
      | restart =>
          left
          cases hthread : r.thread with
          | overflowed now out =>
              rw [hthread] at h
              exact h
          | _ =>
              rw [hthread] at h
              exact h
      | _ => exact absurd hs (by simp [ofReceiveThread])

/-- Only the queue section ends the switch to another session. -/
theorem step_switching
    {s : ReceiverStep} (h : r.switching = true) (hs : s ≠ .clearOld) :
    (r.step s).2.switching = true := by
  unfold VideoReceiver.step
  cases s with
  | receive received now =>
      cases r.thread with
      | receiving =>
          simp only [VideoReceiver.receive]
          split_ifs
          all_goals exact h
      | _ => exact h
  | queueFrames =>
      cases r.thread with
      | queueing assembled =>
          simp only [VideoReceiver.queueFrames]
          split_ifs
          all_goals exact h
      | _ => exact h
  | restart => cases r.thread <;> exact h
  | beginSession server => simp [h]
  | endSession => simp [h]
  | clearOld => exact absurd rfl hs
  | requireKeyframe now =>
      simp only
      split_ifs
      all_goals exact h
  | clearRequired =>
      simp only
      split_ifs
      all_goals exact h
  | popFrame =>
      simp only [VideoReceiver.popFrame]
      split_ifs
      · exact h
      · cases r.m_frames <;> exact h

/-- The queue section of `beginSession` or `endSession` leaves no frame. -/
theorem step_clearOld
    (h : r.switching = true) :
    (r.step .clearOld).2.m_frames = [] := by
  unfold VideoReceiver.step
  simp [h, clearFrames]

/-! ### What was under way when the session began -/

theorem ofNat_add_one
    (k : Nat) :
    UInt64.ofNat (k + 1) = UInt64.ofNat k + 1 := by
  rw [UInt64.ofNat_add]
  rfl

theorem Lags.step
    (h : Lags r past) (s : ReceiverStep) :
    Lags (r.step s).2 (past + 1) := by
  intro assembled hqueueing
  rcases step_queueing hqueueing with ⟨hthread, hgeneration⟩ | ⟨hgeneration, -⟩
  · obtain ⟨k, hk, hsum⟩ := h assembled hthread
    rcases hgeneration with hsame | hnext
    · exact ⟨k, by omega, by rw [hsame, hsum]⟩
    · exact ⟨k + 1, by omega, by rw [hnext, ofNat_add_one, ← UInt64.add_assoc, hsum]⟩
  · exact ⟨0, by omega, by rw [hgeneration]; simp⟩

theorem HoldsRenewed.step
    (h : HoldsRenewed begun r later past) (s : ReceiverStep)
    (hrun : Run.final VideoReceiver.step begun later = r) :
    HoldsRenewed begun (r.step s).2 (later ++ [s]) (past + 1) := by
  intro assembled hqueueing
  rcases step_queueing hqueueing with ⟨hthread, hgeneration⟩ |
    ⟨-, packet, now, rfl, hthread, hactive, hframes⟩
  · rcases h assembled hthread with hlater | ⟨k, hpos, hk, hsum⟩
    · exact Or.inl fun f hf => (hlater f hf).snoc s
    · rcases hgeneration with hsame | hnext
      · exact Or.inr ⟨k, hpos, by omega, by rw [hsame, hsum]⟩
      · exact Or.inr ⟨k + 1, by omega, by omega,
          by rw [hnext, ofNat_add_one, ← UInt64.add_assoc, hsum]⟩
  · refine Or.inl fun f hf => ⟨later, packet, now, [], ?_⟩
    rw [hrun]
    exact ⟨rfl, hthread, hactive, hframes f hf⟩

theorem Renewed.step
    (h : Renewed begun r later past) (s : ReceiverStep)
    (hrun : Run.final VideoReceiver.step begun later = r) (hpast : past < 2 ^ 64) :
    Renewed begun (r.step s).2 (later ++ [s]) (past + 1) := by
  have hqueued : ∀ e ∈ (r.step s).2.m_frames, e ∈ r.m_frames ∨
      AssembledIn begun (later ++ [s]) e.frame := by
    intro e he
    refine (step_frames he).imp_right ?_
    rintro ⟨assembled, hthread, hgeneration, hf⟩
    rcases h.holds assembled hthread with hlater | ⟨k, hpos, hk, hsum⟩
    · exact (hlater _ hf).snoc s
    · rw [← hgeneration] at hsum
      have hzero : UInt64.ofNat k = 0 := by grind
      have hnat := congrArg UInt64.toNat hzero
      rw [UInt64.toNat_ofNat_of_lt' (Nat.lt_of_le_of_lt hk hpast)] at hnat
      have hnone : (0 : UInt64).toNat = 0 := rfl
      omega
  refine ⟨h.holds.step s hrun, fun hclear => ?_, fun hclear e he => ?_⟩
  · simp only [List.mem_append, List.mem_singleton, not_or] at hclear
    exact step_switching (h.clearing hclear.1) (Ne.symm hclear.2)
  · rcases hqueued e he with hold | hnew
    · by_cases hbefore : .clearOld ∈ later
      · exact (h.cleared hbefore e hold).snoc s
      · rcases List.mem_append.mp hclear with hold | hnow
        · exact absurd hold hbefore
        · rw [← List.mem_singleton.mp hnow, step_clearOld (h.clearing hbefore)] at he
          exact absurd he (by simp)
    · exact hnew

end Renewed

/-- What the app gets is in the queue. -/
theorem mem_of_popFrame
    {r : VideoReceiver} {f : Frame} (h : (r.step .popFrame).1 = some (.delivered f)) :
    ∃ e ∈ r.m_frames, e.frame = f := by
  unfold VideoReceiver.step VideoReceiver.popFrame at h
  cases hframes : r.m_frames with
  | nil => simp [hframes] at h
  | cons e frames =>
      refine ⟨e, List.mem_cons_self, ?_⟩
      simp only [hframes] at h
      split_ifs at h
      simpa using h

theorem Lags.run
    {r : VideoReceiver} {past : Nat} (h : Lags r past) (steps : List ReceiverStep) :
    Lags (Run.final VideoReceiver.step r steps) (past + steps.length) := by
  induction steps generalizing r past with
  | nil => exact h
  | cons s steps ih =>
      have hnext := ih (h.step s)
      rw [Nat.add_right_comm, Nat.add_assoc] at hnext
      exact hnext

theorem Renewed.run
    {begun : VideoReceiver} {past : Nat} (h : Renewed begun begun [] past)
    (later : List ReceiverStep) (hpast : past + later.length < 2 ^ 64) :
    Renewed begun (Run.final VideoReceiver.step begun later) later (past + later.length) := by
  induction later using List.reverseRecOn with
  | nil => exact h
  | append_singleton later s ih =>
      rw [List.length_append, List.length_singleton] at hpast ⊢
      rw [Run.final_append, ← Nat.add_assoc]
      exact (ih (by omega)).step s rfl (by omega)

/-- The section of `beginSession` or `endSession` outdates what is under way. -/
theorem Lags.renewed
    {r : VideoReceiver} {past : Nat} (h : Lags r past) {s : ReceiverStep}
    (hs : s = .endSession ∨ ∃ server, s = .beginSession server) (hfree : r.switching = false) :
    Renewed (r.step s).2 (r.step s).2 [] (past + 1) := by
  have hnext : (r.step s).2.thread = r.thread ∧
      (r.step s).2.m_generation = r.m_generation + 1 ∧ (r.step s).2.switching = true := by
    unfold VideoReceiver.step
    rcases hs with rfl | ⟨server, rfl⟩
    · simp [hfree, VideoReceiver.endSession]
    · simp [hfree, VideoReceiver.beginSession]
  obtain ⟨hthread, hgeneration, hswitching⟩ := hnext
  refine ⟨fun assembled hqueueing => ?_, fun _ => hswitching, fun hclear => ?_⟩
  · obtain ⟨k, hk, hsum⟩ := h assembled (hthread.symm.trans hqueueing)
    refine Or.inr ⟨k + 1, by omega, by omega, ?_⟩
    rw [hgeneration, ofNat_add_one, ← UInt64.add_assoc, hsum]
  · exact absurd hclear (by simp)

/--
Once `beginSession` or `endSession` has returned, the app only gets frames that were
assembled after its first section, in a session, from a packet of that session's server.
-/
theorem popped_assembledIn
    (r : VideoReceiver) (stats : Option StatsReporter) (past later : List ReceiverStep)
    (s : ReceiverStep) (hs : s = .endSession ∨ ∃ server, s = .beginSession server)
    (hfree : (Run.final step (r.start stats) past).switching = false)
    (hreturned : .clearOld ∈ later)
    (hshort : past.length + later.length + 1 < 2 ^ 64) (f : Frame)
    (hpop : ((Run.final step ((Run.final step (r.start stats) past).step s).2 later).step
      .popFrame).1 = some (.delivered f)) :
    AssembledIn ((Run.final step (r.start stats) past).step s).2 later f := by
  have hstart : Lags (r.start stats) 0 := fun assembled hqueueing =>
    absurd hqueueing (by simp [start])
  have hbegun := (hstart.run past).renewed hs hfree
  have hlater := hbegun.run later (by omega)
  obtain ⟨e, he, rfl⟩ := mem_of_popFrame hpop
  exact hlater.cleared hreturned e he

/-- A session with a frame that is assembled, but not queued. -/
def underWay : List ReceiverStep :=
  [.beginSession 9, .clearOld, .receive (some (9, FrameAssembler.keyframePacket 0 1)) 0]

/-- The next session gets a frame too, and a packet of the server before. -/
def nextSession : List ReceiverStep :=
  [.queueFrames, .clearOld, .receive (some (9, FrameAssembler.keyframePacket 1 1)) 1,
    .receive (some (8, FrameAssembler.keyframePacket 5 1)) 2, .queueFrames]

theorem popped_assembledIn_nextSession :
    AssembledIn ((Run.final step (start {} none) underWay).step (.beginSession 8)).2 nextSession
      ⟨5, true, [7]⟩ :=
  popped_assembledIn {} none underWay nextSession (.beginSession 8) (Or.inr ⟨8, rfl⟩)
    (by decide +kernel) (by simp [nextSession]) (by decide) ⟨5, true, [7]⟩ (by decide +kernel)

end VideoReceiver
end Client
end FocusVision
