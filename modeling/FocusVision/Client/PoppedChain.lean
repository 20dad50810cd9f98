import FocusVision.Client.VideoReceiver

/-!
# The frames that the app gets

The assembler delivers a chain of frames, and the queue is cleared whenever the chain is
broken.  But both have a mutex of their own, so a frame can be queued after the clearing
that was meant for it, or cleared although the chain begins with it.  `InTime` rules these
orders of steps out; then the app gets a chain as well, whatever the three threads do.
-/

namespace FocusVision
namespace Client

/-! ### The newest delivered frame -/

/-- The assembler has delivered `newest`, and nothing is lost since. -/
def Chain.Newest (newest : Frame) (c : Chain) : Prop :=
  c.haveFrame = true ∧
    if c.finished then c.frameIndex = newest.frameIndex
    else c.frameIndex = newest.frameIndex + 1

/-- The frame may be decoded after `newest`. -/
def Frame.Follows (newest : Option Frame) (f : Frame) : Prop :=
  f.keyframe = false → ∃ g, newest = some g ∧ f.frameIndex = g.frameIndex + 1

namespace Chain

variable {newest : Option Frame} {c c' : Chain} {frames : List Frame}

/-- Unless it waits, the chain goes on from the newest frame. -/
def GoesOn (newest : Option Frame) (c : Chain) : Prop :=
  c.waiting = false → ∃ g, newest = some g ∧ c.Newest g

theorem GoesOn.start
    (h : GoesOn newest c) (frameIndex : UInt32) :
    GoesOn newest (c.start frameIndex (c.abandoned frameIndex)) := by
  intro hwaiting
  simp only [Chain.start, Bool.or_eq_false_iff, decide_eq_false_iff_not] at hwaiting
  obtain ⟨g, hnewest, hhave, hlast⟩ := h hwaiting.1
  have hzero : c.abandoned frameIndex = 0 := by omega
  unfold abandoned at hzero
  rw [if_pos hhave] at hzero
  have hfinished : c.finished = true := by
    by_contra hnot
    rw [if_neg hnot] at hzero
    omega
  rw [hfinished, if_pos rfl] at hlast hzero
  have hgap : frameIndex - c.frameIndex - 1 = 0 := by
    have hmin : (frameIndex - c.frameIndex - 1).toNat = 0 := by
      simp only [kMaxCountedGap] at hzero
      omega
    exact UInt32.toNat_inj.mp hmin
  refine ⟨g, hnewest, rfl, ?_⟩
  simp only [Chain.start, Bool.false_eq_true, if_false]
  rw [← hlast]
  grind

theorem GoesOn.finish
    (h : GoesOn newest c) (hhave : c.haveFrame = true) (hfinished : c.finished = false)
    (hfinish : Finish c c' frames) :
    (frames = [] ∧ GoesOn newest c') ∨
      ∃ f, frames = [f] ∧ f.Follows newest ∧ GoesOn (some f) c' := by
  cases hfinish with
  | pending => exact Or.inl ⟨rfl, h⟩
  | lost => exact Or.inl ⟨rfl, fun hwaiting => absurd hwaiting (by simp [lose])⟩
  | skipped hwaiting =>
      refine Or.inl ⟨rfl, fun hnot => ?_⟩
      exact absurd hwaiting (by rw [Bool.not_eq_true]; exact hnot)
  | delivered f hindex hkey =>
      refine Or.inr ⟨f, rfl, ?_, fun _ => ⟨f, rfl, hhave, ?_⟩⟩
      · intro hdelta
        have hwaiting : c.waiting = false := by
          by_contra hnot
          rw [hkey (by simpa using hnot)] at hdelta
          exact absurd hdelta (by simp)
        obtain ⟨g, hnewest, -, hlast⟩ := h hwaiting
        rw [hfinished, if_neg (by simp)] at hlast
        exact ⟨g, hnewest, hindex.trans hlast⟩
      · simpa using hindex.symm

/-- A call that is not `requireKeyframe` goes on with the chain or breaks it. -/
theorem GoesOn.step
    (h : GoesOn newest c) (hstep : ChainStep c false c' frames) :
    (frames = [] ∧ GoesOn newest c') ∨
      ∃ f, frames = [f] ∧ f.Follows newest ∧ GoesOn (some f) c' := by
  cases hstep with
  | ignored => exact Or.inl ⟨rfl, h⟩
  | shard hhave hfinished hfinish => exact h.finish hhave hfinished hfinish
  | newer frameIndex _ hfinish => exact (h.start frameIndex).finish rfl rfl hfinish
  | timeout => exact Or.inl ⟨rfl, fun hwaiting => absurd hwaiting (by simp [lose])⟩

end Chain

namespace FrameAssembler

theorem onTick_chain
    (a : FrameAssembler) (now : Int) (out : Output) :
    Chain.ChainStep a.chain false (a.onTick now out).1.chain [] ∧
      (a.onTick now out).2.frames = out.frames := by
  have hchain : ∀ b : FrameAssembler, b.chain = b.progress.chain := fun _ => rfl
  unfold onTick
  by_cases htimeout : a.m_haveFrame = true ∧ (!a.m_frameFinished) = true ∧
      now - a.m_lastFramePacket > kFrameTimeout
  · rw [if_pos htimeout]
    refine ⟨?_, by simp⟩
    have hfinished : a.m_frameFinished = false := by simpa using htimeout.2.1
    have hlost : (loseFrames { a with m_frameFinished := true } 1 now out).1.chain =
        a.chain.lose := by
      rw [hchain, loseFrames_progress]
      rfl
    rw [hlost]
    exact Chain.ChainStep.timeout htimeout.1 hfinished
  · rw [if_neg htimeout]
    exact ⟨Chain.ChainStep.ignored, rfl⟩

theorem requireKeyframe_waiting
    (a : FrameAssembler) (now : Int) (out : Output) :
    (a.requireKeyframe now out).1.m_waitingForKeyframe = true := by
  unfold requireKeyframe askForIdr
  split_ifs <;> rfl

end FrameAssembler

namespace VideoReceiver

open Bytes
open Chain (GoesOn)

/-- What the receive thread assembles goes on with the chain or breaks it. -/
theorem assemble_spec
    {newest : Option Frame} {a : FrameAssembler} (h : GoesOn newest a.chain) (server : UInt32)
    (received : Option (UInt32 × List UInt8)) (now : Int) :
    let r := assemble a server received now
    (r.2.frames = [] ∧ GoesOn newest r.1.chain) ∨
      ∃ f, r.2.frames = [f] ∧ f.Follows newest ∧ GoesOn (some f) r.1.chain := by
  have htick : ∀ {newest : Option Frame} {b : FrameAssembler}, GoesOn newest b.chain →
      ∀ out : Output, GoesOn newest (b.onTick now out).1.chain ∧
        (b.onTick now out).2.frames = out.frames := by
    intro newest b hb out
    obtain ⟨hstep, hframes⟩ := b.onTick_chain now out
    rcases hb.step hstep with ⟨-, hnext⟩ | ⟨f, hnone, -⟩
    · exact ⟨hnext, hframes⟩
    · exact absurd hnone (by simp)
  have hnothing : let r := a.onTick now {}
      (r.2.frames = [] ∧ GoesOn newest r.1.chain) ∨
        ∃ f, r.2.frames = [f] ∧ f.Follows newest ∧ GoesOn (some f) r.1.chain :=
    Or.inl ⟨(htick h {}).2, (htick h {}).1⟩
  unfold assemble
  cases received with
  | none => exact hnothing
  | some received =>
      obtain ⟨source, packet⟩ := received
      simp only
      split_ifs with hsource
      · have hpacket := h.step (a.step_chain (.onPacket packet now))
        have hsame : a.step (.onPacket packet now) =
            ((a.onPacket packet now {}).2, (a.onPacket packet now {}).1) := rfl
        rw [hsame] at hpacket
        rcases hpacket with ⟨hnone, hnext⟩ | ⟨f, hf, hfollows, hnext⟩
        · refine Or.inl ⟨?_, (htick hnext _).1⟩
          rw [(htick hnext _).2]
          exact hnone
        · refine Or.inr ⟨f, ?_, hfollows, (htick hnext _).1⟩
          rw [(htick hnext _).2]
          exact hf
      · exact hnothing

/-! ### The queue -/

/-- The frame that the app got last, if nothing came after it. -/
def lastPopped (seen : List Event) : Option Frame :=
  match seen.getLast? with
  | some (.delivered f) => some f
  | _ => none

theorem lastPopped_popped
    (seen : List Event) (f : Frame) :
    lastPopped (seen ++ [.delivered f]) = some f := by
  unfold lastPopped
  rw [List.getLast?_concat]

theorem exists_of_lastPopped
    {seen : List Event} {g : Frame} (h : lastPopped seen = some g) :
    ∃ older, seen = older ++ [.delivered g] := by
  rcases List.eq_nil_or_concat seen with rfl | ⟨older, e, rfl⟩
  · exact absurd h (by simp [lastPopped])
  · rw [List.concat_eq_append] at h ⊢
    unfold lastPopped at h
    rw [List.getLast?_concat] at h
    cases e with
    | delivered f =>
        rw [Option.some.inj h]
        exact ⟨older, rfl⟩
    | _ => exact absurd h (by simp)

/-- Each frame may be decoded after the one before. -/
def Linkable : Option Frame → List QueuedFrame → Prop
  | _, [] => True
  | last, e :: frames => e.frame.Follows last ∧ Linkable (some e.frame) frames

theorem Linkable.concat
    {last : Option Frame} {frames : List QueuedFrame} {e : QueuedFrame}
    (h : Linkable last frames)
    (he : e.frame.Follows ((frames.getLast?.map QueuedFrame.frame).or last)) :
    Linkable last (frames ++ [e]) := by
  induction frames generalizing last with
  | nil => exact ⟨he, trivial⟩
  | cons e' frames ih =>
      refine ⟨h.1, ih h.2 ?_⟩
      cases frames with
      | nil => simpa using he
      | cons e'' frames =>
          rw [List.getLast?_cons_cons] at he
          cases hlast : (e'' :: frames).getLast? with
          | none => exact absurd hlast (by simp)
          | some e => simpa [hlast] using he

/-- The frame is the last one in the queue, or the app got it last. -/
def Settled (seen : List Event) (r : VideoReceiver) (g : Frame) : Prop :=
  (∃ e, r.m_frames.getLast? = some e ∧ e.frame = g ∧ e.changes = r.changes) ∨
    (r.m_frames = [] ∧ lastPopped seen = some g ∧ r.requiring = false)

/-- The receive thread has assembled this frame, and nothing changed since. -/
def Pending (seen : List Event) (newest : Option Frame) (r : VideoReceiver)
    (assembled : Assembled) (f : Frame) : Prop :=
  assembled.generation = r.m_generation ∧ newest = some f ∧
    (f.keyframe = false → ∃ g, f.frameIndex = g.frameIndex + 1 ∧ Settled seen r g)

/--
What the app has seen and what is under way.  `newest` is the frame that the assembler
delivered last, unless it was changed or the queue overflowed since.
-/
structure Queued (seen : List Event) (newest : Option Frame) (r : VideoReceiver) : Prop where
  linked : Linked seen
  queue : r.requiring = false → Linkable (lastPopped seen) r.m_frames
  goesOn : r.m_sessionActive = true → (∀ now out, r.thread ≠ .overflowed now out) →
    GoesOn newest r.m_assembler.chain
  inactive : r.m_sessionActive = false → newest = none
  settled : (∀ assembled, r.thread ≠ .queueing assembled) → ∀ g, newest = some g →
    Settled seen r g
  single : ∀ assembled, r.thread = .queueing assembled → ∃ f, assembled.out.frames = [f]
  pending : ∀ assembled f, r.thread = .queueing assembled → assembled.out.frames = [f] →
    assembled.changes = r.changes → Pending seen newest r assembled f
  outdated : ∀ assembled, r.thread = .queueing assembled → assembled.changes ≠ r.changes →
    newest = none
  queueBound : ∀ e ∈ r.m_frames, e.changes ≤ r.changes
  threadBound : ∀ assembled, r.thread = .queueing assembled → assembled.changes ≤ r.changes

/-- A frame that is about to be queued is not older than a call that has returned. -/
def QueuesInTime (r : VideoReceiver) : ReceiveThread → Prop
  | .queueing assembled =>
      assembled.generation = r.m_generation → r.requiring = false →
        assembled.changes = r.changes ∨ ∀ f ∈ assembled.out.frames, f.keyframe = true
  | _ => True

/-- No frame is queued behind the clearing that was meant for it, no clearing drops a frame
that was assembled after the change that it belongs to, and `requireKeyframe`, which does
nothing without a session, is not called then while frames still wait. -/
def InTime (r : VideoReceiver) : ReceiverStep → Prop
  | .queueFrames => r.QueuesInTime r.thread
  | .clearOld => r.switching = true → ∀ e ∈ r.m_frames, e.changes ≠ r.changes
  | .clearRequired => r.requiring = true → ∀ e ∈ r.m_frames, e.changes ≠ r.changes
  | .requireKeyframe _ =>
      r.requiring = false → r.m_sessionActive = false → r.m_frames = []
  | _ => True

instance QueuesInTime.decidable
    (r : VideoReceiver) :
    DecidablePred r.QueuesInTime
  | .queueing assembled =>
      inferInstanceAs (Decidable (assembled.generation = r.m_generation →
        r.requiring = false → assembled.changes = r.changes ∨
          ∀ f ∈ assembled.out.frames, f.keyframe = true))
  | .receiving => isTrue trivial
  | .overflowed _ _ => isTrue trivial

instance InTime.decidable
    (r : VideoReceiver) :
    DecidablePred r.InTime
  | .queueFrames => inferInstanceAs (Decidable (r.QueuesInTime r.thread))
  | .clearOld | .clearRequired =>
      inferInstanceAs (Decidable (_ = true → ∀ e ∈ r.m_frames, e.changes ≠ r.changes))
  | .requireKeyframe _ =>
      inferInstanceAs (Decidable (r.requiring = false → r.m_sessionActive = false →
        r.m_frames = []))
  | .receive _ _ | .restart | .beginSession _ | .endSession | .popFrame => isTrue trivial

section Steps

variable {seen : List Event} {newest : Option Frame} {r : VideoReceiver}

/-- A call changes the assembler: what was assembled before is outdated. -/
theorem Queued.change
    (h : Queued seen newest r) {r' : VideoReceiver}
    (hframes : r'.m_frames = r.m_frames) (hthread : r'.thread = r.thread)
    (hchanges : r'.changes = r.changes + 1)
    (hrequiring : r'.requiring = false → r.requiring = false)
    (hwaiting : r'.m_sessionActive = true → r'.m_assembler.m_waitingForKeyframe = true) :
    Queued seen none r' := by
  have hnothing : ∀ assembled, r.thread = .queueing assembled →
      assembled.changes ≠ r.changes + 1 := by
    intro assembled hqueueing heq
    have hle := h.threadBound assembled hqueueing
    omega
  constructor
  · exact h.linked
  · rw [hframes]
    exact fun hnot => h.queue (hrequiring hnot)
  · intro hactive _ hnot
    have hwait : r'.m_assembler.m_waitingForKeyframe = false := hnot
    rw [hwaiting hactive] at hwait
    exact absurd hwait (by simp)
  · exact fun _ => rfl
  · exact fun _ g hnone => absurd hnone (by simp)
  · rw [hthread]
    exact h.single
  · rw [hthread, hchanges]
    exact fun assembled f hqueueing _ heq => absurd heq (hnothing assembled hqueueing)
  · exact fun _ _ _ => rfl
  · rw [hframes, hchanges]
    exact fun e he => Nat.le_succ_of_le (h.queueBound e he)
  · rw [hthread, hchanges]
    exact fun assembled hqueueing => Nat.le_succ_of_le (h.threadBound assembled hqueueing)

/-- The receive thread assembles. -/
theorem Queued.receive
    (h : Queued seen newest r) (hthread : r.thread = .receiving)
    (received : Option (UInt32 × List UInt8)) (now : Int) :
    ∃ newest, Queued seen newest (r.receive received now) := by
  unfold VideoReceiver.receive
  cases hactive : r.m_sessionActive with
  | false => exact ⟨newest, h⟩
  | true =>
      have hgoes := h.goesOn hactive (by simp [hthread])
      have hsettled := h.settled (by simp [hthread])
      have hspec := assemble_spec hgoes r.m_serverAddr received now
      simp only [Bool.not_true, Bool.false_eq_true, if_false]
      generalize assemble r.m_assembler r.m_serverAddr received now = res at hspec ⊢
      obtain ⟨a, out⟩ := res
      rcases hspec with ⟨hnone, hnext⟩ | ⟨f, hf, hfollows, hnext⟩
      · have hsame : (if out.frames.isEmpty then ReceiveThread.receiving
            else .queueing ⟨r.m_generation, now, out, r.changes⟩) = .receiving := by
          rw [show out.frames = [] from hnone]
          rfl
        simp only [hsame]
        refine ⟨newest, h.linked, h.queue, fun _ _ => hnext, ?_, fun _ => hsettled,
          fun _ hqueueing => ?_, fun _ _ hqueueing => ?_, fun _ hqueueing => ?_,
          h.queueBound, fun _ hqueueing => ?_⟩
        · intro hnot
          exact absurd hnot (by simp)
        all_goals exact absurd hqueueing (by simp)
      · have hsame : (if out.frames.isEmpty then ReceiveThread.receiving
            else .queueing ⟨r.m_generation, now, out, r.changes⟩) =
            .queueing ⟨r.m_generation, now, out, r.changes⟩ := by
          rw [show out.frames = [f] from hf]
          rfl
        simp only [hsame]
        refine ⟨some f, h.linked, h.queue, fun _ _ => hnext, ?_, ?_, ?_, ?_, ?_, h.queueBound, ?_⟩
        · intro hnot
          exact absurd hnot (by simp)
        · intro hnot
          exact absurd rfl (hnot _)
        · intro assembled hqueueing
          rw [← ReceiveThread.queueing.inj hqueueing]
          exact ⟨f, hf⟩
        · intro assembled g hqueueing hg _
          rw [← ReceiveThread.queueing.inj hqueueing] at hg ⊢
          have hfg : f = g := by
            have hcons : [f] = [g] := hf.symm.trans hg
            simpa using hcons
          rw [← hfg]
          refine ⟨rfl, rfl, fun hdelta => ?_⟩
          obtain ⟨g', hg', hindex⟩ := hfollows hdelta
          exact ⟨g', hindex, hsettled g' hg'⟩
        · intro assembled hqueueing hold
          rw [← ReceiveThread.queueing.inj hqueueing] at hold
          exact absurd rfl hold
        · intro assembled hqueueing
          rw [← ReceiveThread.queueing.inj hqueueing]

/-- The frame that was assembled last may be put behind the queue. -/
theorem Pending.follows
    {assembled : Assembled} {f : Frame} (h : Pending seen newest r assembled f) :
    f.Follows ((r.m_frames.getLast?.map QueuedFrame.frame).or (lastPopped seen)) := by
  intro hdelta
  obtain ⟨g, hindex, hsettled⟩ := h.2.2 hdelta
  refine ⟨g, ?_, hindex⟩
  rcases hsettled with ⟨e, hlast, hframe, -⟩ | ⟨hempty, hpopped, -⟩
  · rw [hlast, Option.map_some, hframe]
    rfl
  · rw [hempty, hpopped]
    rfl

/-- The receive thread drops what it assembled. -/
theorem Queued.superseded
    (h : Queued seen newest r) {assembled : Assembled}
    (hthread : r.thread = .queueing assembled) (hold : assembled.changes ≠ r.changes) :
    Queued seen newest { r with thread := .receiving } := by
  have hnone := h.outdated assembled hthread hold
  refine ⟨h.linked, h.queue, fun hactive _ => ?_, h.inactive, fun _ g hg => ?_,
    fun _ hqueueing => ?_, fun _ _ hqueueing => ?_, fun _ hqueueing => ?_, h.queueBound,
    fun _ hqueueing => ?_⟩
  · exact h.goesOn hactive (by simp [hthread])
  · rw [hnone] at hg
    exact absurd hg (by simp)
  all_goals exact absurd hqueueing (by simp)

/-- The queue overflows. -/
theorem Queued.overflow
    (h : Queued seen newest r) (now : Int) (out : Output) :
    Queued seen none { r with m_frames := [], thread := .overflowed now out } := by
  refine ⟨h.linked, fun _ => trivial, fun _ hnot => ?_, fun _ => rfl, fun _ _ hg => ?_,
    fun _ hqueueing => ?_, fun _ _ hqueueing => ?_, fun _ hqueueing => ?_, fun _ he => ?_,
    fun _ hqueueing => ?_⟩
  · exact absurd rfl (hnot now out)
  · exact absurd hg (by simp)
  · exact absurd hqueueing (by simp)
  · exact absurd hqueueing (by simp)
  · exact absurd hqueueing (by simp)
  · exact absurd he (by simp)
  · exact absurd hqueueing (by simp)

/-- The receive thread puts a frame into the queue. -/
theorem Queued.push
    (h : Queued seen newest r) {assembled : Assembled} {f : Frame}
    (hthread : r.thread = .queueing assembled) (hf : assembled.out.frames = [f])
    (hintime : r.requiring = false → assembled.changes = r.changes ∨ f.keyframe = true) :
    Queued seen newest
      { r with m_frames := r.m_frames ++ [⟨f, assembled.changes⟩], thread := .receiving } := by
  have hfollows : r.requiring = false →
      f.Follows ((r.m_frames.getLast?.map QueuedFrame.frame).or (lastPopped seen)) := by
    intro hnot
    rcases hintime hnot with hfresh | hkey
    · exact (h.pending assembled f hthread hf hfresh).follows
    · intro hdelta
      rw [hkey] at hdelta
      exact absurd hdelta (by simp)
  refine ⟨h.linked, fun hnot => (h.queue hnot).concat (hfollows hnot), fun hactive _ => ?_,
    h.inactive, fun _ g hg => ?_, fun _ hqueueing => ?_, fun _ _ hqueueing => ?_,
    fun _ hqueueing => ?_, fun e he => ?_, fun _ hqueueing => ?_⟩
  · exact h.goesOn hactive (by simp [hthread])
  · by_cases hfresh : assembled.changes = r.changes
    · have hnewest := (h.pending assembled f hthread hf hfresh).2.1
      refine Or.inl ⟨⟨f, assembled.changes⟩, by simp, ?_, hfresh⟩
      exact Option.some.inj (hnewest.symm.trans hg)
    · rw [h.outdated assembled hthread hfresh] at hg
      exact absurd hg (by simp)
  · exact absurd hqueueing (by simp)
  · exact absurd hqueueing (by simp)
  · exact absurd hqueueing (by simp)
  · rcases List.mem_append.mp he with hold | hnew
    · exact h.queueBound e hold
    · rw [List.mem_singleton.mp hnew]
      exact h.threadBound assembled hthread
  · exact absurd hqueueing (by simp)

/-- The receive thread queues what it assembled. -/
theorem Queued.queueFrames
    (h : Queued seen newest r) {assembled : Assembled}
    (hthread : r.thread = .queueing assembled) (hintime : InTime r .queueFrames) :
    ∃ newest, Queued seen newest (r.queueFrames assembled) := by
  unfold VideoReceiver.queueFrames
  by_cases hgeneration : assembled.generation = r.m_generation
  · rw [if_pos hgeneration]
    obtain ⟨f, hf⟩ := h.single assembled hthread
    have hmap : assembled.out.frames.map
        (fun frame => (⟨frame, assembled.changes⟩ : QueuedFrame)) =
        [⟨f, assembled.changes⟩] := by
      rw [hf]
      rfl
    simp only [hmap]
    split_ifs with hfull
    · exact ⟨none, h.overflow _ _⟩
    · refine ⟨newest, h.push hthread hf fun hnot => ?_⟩
      unfold InTime at hintime
      rw [hthread] at hintime
      refine (hintime hgeneration hnot).imp_right fun hkey => hkey f ?_
      rw [hf]
      exact List.mem_singleton_self f
  · rw [if_neg hgeneration]
    refine ⟨newest, h.superseded hthread fun hfresh => ?_⟩
    obtain ⟨f, hf⟩ := h.single assembled hthread
    exact hgeneration (h.pending assembled f hthread hf hfresh).1

/-- The receive thread starts again from a keyframe. -/
theorem Queued.restart
    (h : Queued seen newest r) (now : Int) (out : Output) :
    Queued seen none (r.restart now out) := by
  unfold VideoReceiver.restart
  refine ⟨h.linked, h.queue, fun _ _ hnot => ?_, fun _ => rfl, fun _ _ hg => ?_,
    fun _ hqueueing => ?_, fun _ _ hqueueing => ?_, fun _ hqueueing => ?_, h.queueBound,
    fun _ hqueueing => ?_⟩
  · have hwaiting : (r.m_assembler.requireKeyframe now out).1.m_waitingForKeyframe = false :=
      hnot
    rw [r.m_assembler.requireKeyframe_waiting now out] at hwaiting
    exact absurd hwaiting (by simp)
  · exact absurd hg (by simp)
  all_goals exact absurd hqueueing (by simp)

/-- The newest frame is not among those that are cleared. -/
theorem Settled.clear
    {g : Frame} (h : Settled seen r g) (hold : ∀ e ∈ r.m_frames, e.changes ≠ r.changes) :
    r.m_frames = [] ∧ lastPopped seen = some g ∧ r.requiring = false := by
  rcases h with ⟨e, hlast, -, hchanges⟩ | hempty
  · exact absurd hchanges (hold e (List.mem_of_getLast? hlast))
  · exact hempty

/-- The queue section of `beginSession` or `endSession`. -/
theorem Queued.clearOld
    (h : Queued seen newest r) (hold : ∀ e ∈ r.m_frames, e.changes ≠ r.changes) :
    Queued seen newest { r.clearFrames with switching := false } := by
  unfold VideoReceiver.clearFrames
  refine ⟨h.linked, fun _ => trivial, h.goesOn, h.inactive, fun hthread g hg => ?_, h.single,
    fun assembled f hthread hf hfresh => ?_, h.outdated, fun _ he => ?_, h.threadBound⟩
  · exact Or.inr ⟨rfl, ((h.settled hthread g hg).clear hold).2⟩
  · obtain ⟨hgeneration, hnewest, hbefore⟩ := h.pending assembled f hthread hf hfresh
    refine ⟨hgeneration, hnewest, fun hdelta => ?_⟩
    obtain ⟨g, hindex, hsettled⟩ := hbefore hdelta
    exact ⟨g, hindex, Or.inr ⟨rfl, (hsettled.clear hold).2⟩⟩
  · exact absurd he (by simp)

/-- The queue section of `requireKeyframe`. -/
theorem Queued.clearRequired
    (h : Queued seen newest r) (hrequiring : r.requiring = true)
    (hold : ∀ e ∈ r.m_frames, e.changes ≠ r.changes) :
    Queued (seen ++ [.required]) newest { r.clearFrames with requiring := false } := by
  have hnot : ∀ {g : Frame}, ¬ Settled seen r g := by
    intro g hsettled
    rw [(hsettled.clear hold).2.2] at hrequiring
    exact absurd hrequiring (by simp)
  unfold VideoReceiver.clearFrames
  refine ⟨?_, fun _ => trivial, h.goesOn, h.inactive, fun hthread g hg => ?_, h.single,
    fun assembled f hthread hf hfresh => ?_, h.outdated, fun _ he => ?_, h.threadBound⟩
  · exact h.linked.append_singleton fun f hf => absurd hf (by simp)
  · exact absurd (h.settled hthread g hg) hnot
  · obtain ⟨hgeneration, hnewest, hbefore⟩ := h.pending assembled f hthread hf hfresh
    refine ⟨hgeneration, hnewest, fun hdelta => ?_⟩
    obtain ⟨g, -, hsettled⟩ := hbefore hdelta
    exact absurd hsettled hnot
  · exact absurd he (by simp)

/-- `requireKeyframe` returns at once, as no session is active. -/
theorem Queued.requiredInactive
    (h : Queued seen newest r) (hactive : r.m_sessionActive = false)
    (hempty : r.m_frames = []) :
    Queued (seen ++ [.required]) newest r := by
  have hnone := h.inactive hactive
  refine ⟨?_, fun _ => ?_, h.goesOn, h.inactive, fun _ g hg => ?_, h.single,
    fun assembled f hthread hf hfresh => ?_, h.outdated, h.queueBound, h.threadBound⟩
  · exact h.linked.append_singleton fun f hf => absurd hf (by simp)
  · rw [hempty]
    trivial
  · rw [hnone] at hg
    exact absurd hg (by simp)
  · have hnewest := (h.pending assembled f hthread hf hfresh).2.1
    rw [hnone] at hnewest
    exact absurd hnewest (by simp)

/-- The newest frame after the app took the first one of the queue. -/
theorem Settled.pop
    {g : Frame} {e : QueuedFrame} {frames : List QueuedFrame} (h : Settled seen r g)
    (hframes : r.m_frames = e :: frames) (hrequiring : r.requiring = false) :
    Settled (seen ++ [.delivered e.frame]) { r with m_frames := frames } g := by
  rcases h with ⟨e', hlast, hframe, hchanges⟩ | ⟨hempty, -⟩
  · rw [hframes] at hlast
    cases frames with
    | nil =>
        have hsame : e = e' := by simpa using hlast
        refine Or.inr ⟨rfl, ?_, hrequiring⟩
        rw [lastPopped_popped, hsame, hframe]
    | cons e'' frames =>
        rw [List.getLast?_cons_cons] at hlast
        exact Or.inl ⟨e', hlast, hframe, hchanges⟩
  · rw [hframes] at hempty
    exact absurd hempty (by simp)

/-- The app takes a frame. -/
theorem Queued.pop
    (h : Queued seen newest r) {e : QueuedFrame} {frames : List QueuedFrame}
    (hframes : r.m_frames = e :: frames) (hrequiring : r.requiring = false) :
    Queued (seen ++ [.delivered e.frame]) newest { r with m_frames := frames } := by
  have hqueue := h.queue hrequiring
  rw [hframes] at hqueue
  refine ⟨?_, fun _ => ?_, h.goesOn, h.inactive, fun hthread g hg => ?_, h.single,
    fun assembled f hthread hf hfresh => ?_, h.outdated, fun e' he => ?_, h.threadBound⟩
  · refine h.linked.append_singleton fun f hf hdelta => ?_
    rw [Event.delivered.injEq] at hf
    rw [← hf] at hdelta ⊢
    obtain ⟨g, hg, hindex⟩ := hqueue.1 hdelta
    obtain ⟨older, hseen⟩ := exists_of_lastPopped hg
    exact ⟨older, g, hseen, hindex⟩
  · rw [lastPopped_popped]
    exact hqueue.2
  · exact (h.settled hthread g hg).pop hframes hrequiring
  · obtain ⟨hgeneration, hnewest, hbefore⟩ := h.pending assembled f hthread hf hfresh
    refine ⟨hgeneration, hnewest, fun hdelta => ?_⟩
    obtain ⟨g, hindex, hsettled⟩ := hbefore hdelta
    exact ⟨g, hindex, hsettled.pop hframes hrequiring⟩
  · refine h.queueBound e' ?_
    rw [hframes]
    exact List.mem_cons_of_mem e he

/-- Every section keeps it. -/
theorem Queued.step
    (h : Queued seen newest r) (s : ReceiverStep) (hintime : InTime r s) :
    ∃ newest, Queued (seen ++ (r.step s).1.toList) newest (r.step s).2 := by
  have hsame : ∃ newest, Queued (seen ++ (none : Option Event).toList) newest r :=
    ⟨newest, by simpa using h⟩
  cases s with
  | receive received now =>
      unfold VideoReceiver.step
      cases hthread : r.thread with
      | receiving => simpa using h.receive hthread received now
      | _ => exact hsame
  | queueFrames =>
      unfold VideoReceiver.step
      cases hthread : r.thread with
      | queueing assembled => simpa using h.queueFrames hthread hintime
      | _ => exact hsame
  | restart =>
      unfold VideoReceiver.step
      cases hthread : r.thread with
      | overflowed now out => exact ⟨none, by simpa using h.restart now out⟩
      | _ => exact hsame
  | beginSession server =>
      unfold VideoReceiver.step
      cases r.switching with
      | true => exact hsame
      | false =>
          have hnext : Queued seen none (r.beginSession server) :=
            h.change rfl rfl rfl id fun _ => rfl
          exact ⟨none, by simpa using hnext⟩
  | endSession =>
      unfold VideoReceiver.step
      cases r.switching with
      | true => exact hsame
      | false =>
          have hnext : Queued seen none r.endSession :=
            h.change rfl rfl rfl id fun hactive => absurd hactive (by simp [endSession])
          exact ⟨none, by simpa using hnext⟩
  | clearOld =>
      unfold VideoReceiver.step
      cases hswitching : r.switching with
      | true => exact ⟨newest, by simpa using h.clearOld (hintime hswitching)⟩
      | false => exact hsame
  | requireKeyframe now =>
      unfold VideoReceiver.step
      cases hrequiring : r.requiring with
      | true => exact hsame
      | false =>
          cases hactive : r.m_sessionActive with
          | true =>
              have hnext : Queued seen none (r.requireKeyframe now) :=
                h.change rfl rfl rfl (fun hnot => absurd hnot (by
                  simp [VideoReceiver.requireKeyframe]))
                  fun _ => r.m_assembler.requireKeyframe_waiting now {}
              exact ⟨none, by simpa using hnext⟩
          | false =>
              exact ⟨newest, by
                simpa using h.requiredInactive hactive (hintime hrequiring hactive)⟩
  | clearRequired =>
      unfold VideoReceiver.step
      cases hrequiring : r.requiring with
      | true => exact ⟨newest, by simpa using h.clearRequired hrequiring (hintime hrequiring)⟩
      | false => exact hsame
  | popFrame =>
      unfold VideoReceiver.step VideoReceiver.popFrame
      cases hrequiring : r.requiring with
      | true => exact hsame
      | false =>
          cases hframes : r.m_frames with
          | nil => simpa [hframes] using hsame
          | cons e frames =>
              exact ⟨newest, by simpa [hrequiring] using h.pop hframes hrequiring⟩

end Steps

theorem Queued.start
    (r : VideoReceiver) (stats : Option StatsReporter) :
    Queued [] none (r.start stats) := by
  unfold VideoReceiver.start
  refine ⟨linked_nil, fun _ => trivial, fun hactive => ?_, fun _ => rfl, fun _ _ hg => ?_,
    fun _ hqueueing => ?_, fun _ _ hqueueing => ?_, fun _ hqueueing => ?_, fun _ he => ?_,
    fun _ hqueueing => ?_⟩
  · exact absurd hactive (by simp)
  · exact absurd hg (by simp)
  · exact absurd hqueueing (by simp)
  · exact absurd hqueueing (by simp)
  · exact absurd hqueueing (by simp)
  · exact absurd he (by simp)
  · exact absurd hqueueing (by simp)

theorem Queued.run
    {seen : List Event} {newest : Option Frame} {r : VideoReceiver}
    (h : Queued seen newest r) {steps : List ReceiverStep}
    (hintime : Run.Along VideoReceiver.step InTime r steps) :
    ∃ newest, Queued (seen ++ Run.emitted VideoReceiver.step r steps) newest
      (Run.final VideoReceiver.step r steps) := by
  induction steps generalizing seen newest r with
  | nil => exact ⟨newest, by simpa using h⟩
  | cons s steps ih =>
      obtain ⟨next, hnext⟩ := h.step s hintime.1
      rw [Run.emitted_cons, ← List.append_assoc]
      exact ih hnext hintime.2

/-- The app gets a delta frame only right after the frame with the index before. -/
theorem popped_linked
    (r : VideoReceiver) (stats : Option StatsReporter) (steps : List ReceiverStep)
    (hintime : Run.Along step InTime (r.start stats) steps) :
    Linked (Run.emitted step (r.start stats) steps) := by
  obtain ⟨newest, h⟩ := (Queued.start r stats).run hintime
  exact h.linked

/-- A packet with the only payload byte of a bulk delta frame. -/
def deltaPacket (frameIndex : Nat) : List UInt8 :=
  List.replicate RTP_HEADER_LEN 0 ++ leBytes 4 frameIndex ++ leBytes 2 0 ++
    leBytes 2 1 ++ leBytes 2 0 ++ leBytes 2 1 ++ [7]

/-- The receive thread takes a packet and queues its frame. -/
def received (packet : List UInt8) (now : Int) : List ReceiverStep :=
  [.receive (some (9, packet)) now, .queueFrames]

/-- Two frames, and a third one that arrives while the app asks for a keyframe. -/
def schedule : List ReceiverStep :=
  [.beginSession 9, .clearOld] ++ received (FrameAssembler.keyframePacket 0 1) 0 ++
    received (deltaPacket 1) 1 ++ [.popFrame, .popFrame, .requireKeyframe 2,
      .receive (some (9, FrameAssembler.keyframePacket 2 1)) 3, .clearRequired, .queueFrames,
      .popFrame]

theorem popped_linked_schedule :
    Linked [.delivered ⟨0, true, [7]⟩, .delivered ⟨1, false, [7]⟩, .required,
      .delivered ⟨2, true, [7]⟩] := by
  have hintime : Run.Along step InTime (start {} none) schedule := by decide +kernel
  have hemitted : Run.emitted step (start {} none) schedule =
      [.delivered ⟨0, true, [7]⟩, .delivered ⟨1, false, [7]⟩, .required,
        .delivered ⟨2, true, [7]⟩] := by
    decide +kernel
  rw [← hemitted]
  exact popped_linked {} none schedule hintime

/-- The keyframe is cleared, because it came between the two sections of `beginSession`. -/
example :
    Run.emitted step (start {} none)
      ([.beginSession 9] ++ received (FrameAssembler.keyframePacket 0 1) 0 ++ [.clearOld] ++
        received (deltaPacket 1) 1 ++ [.popFrame]) = [.delivered ⟨1, false, [7]⟩] := by
  decide +kernel

end VideoReceiver

end Client
end FocusVision
