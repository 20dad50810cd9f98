import FocusVision.Client.FrameProgress

/-!
# The reference chain

A delta frame can only be decoded after the frame before it.  `Chain` is what
matters for this: the newest frame, whether it is finished, whether the assembler
waits for a keyframe, and how many frames were lost.  Every call of a
`FrameAssembler` is one `ChainStep` of its chain, whatever the decoders do.

The main result is that a delivered delta frame comes right after the frame with
the preceding index, with no loss and no `requireKeyframe` in between.  Indices
wrap around, so they only increase as far as serial numbers can be compared.
-/

namespace FocusVision
namespace Client

open Bytes

/-- What decides which frames may be delivered. -/
structure Chain where
  haveFrame : Bool
  frameIndex : UInt32
  finished : Bool
  waiting : Bool
  lost : Nat

namespace Chain

/-- The newest frame becomes `frameIndex`, and `count` frames are lost. -/
def start (c : Chain) (frameIndex : UInt32) (count : Nat) : Chain :=
  { haveFrame := true
    frameIndex
    finished := false
    waiting := c.waiting || decide (count > 0)
    lost := c.lost + count }

/-- The frame in progress is lost. -/
def lose (c : Chain) : Chain :=
  { c with finished := true, waiting := true, lost := c.lost + 1 }

/-- The frames that a newer frame makes impossible. -/
def abandoned (c : Chain) (frameIndex : UInt32) : Nat :=
  if c.haveFrame then
    (if c.finished then 0 else 1) + min (frameIndex - c.frameIndex - 1).toNat kMaxCountedGap
  else 0

/-- What a shard of the frame in progress can lead to. -/
inductive Finish (c : Chain) : Chain → List Frame → Prop
  | pending : Finish c c []
  | lost : Finish c c.lose []
  | skipped : c.waiting = true → Finish c { c with finished := true } []
  | delivered (f : Frame) :
      f.frameIndex = c.frameIndex → (c.waiting = true → f.keyframe = true) →
      Finish c { c with finished := true, waiting := c.waiting && !f.keyframe } [f]

/-- One call; `required` tells `requireKeyframe` from the others. -/
inductive ChainStep (c : Chain) : Bool → Chain → List Frame → Prop
  | ignored : ChainStep c false c []
  | shard {c' frames} :
      c.haveFrame = true → c.finished = false → Finish c c' frames →
      ChainStep c false c' frames
  | newer (frameIndex : UInt32) {c' frames} :
      (c.haveFrame = true → isNewer frameIndex c.frameIndex = true) →
      Finish (c.start frameIndex (c.abandoned frameIndex)) c' frames →
      ChainStep c false c' frames
  | timeout :
      c.haveFrame = true → c.finished = false → ChainStep c false c.lose []
  | required : ChainStep c true { c with waiting := true } []

end Chain

namespace Progress

/-- What of it matters for the references. -/
def chain (c : Progress) : Chain :=
  { haveFrame := c.haveFrame
    frameIndex := c.frameIndex
    finished := c.finished
    waiting := c.waiting
    lost := c.lost }

theorem Finish.chain
    {c c' : Progress} {frames : List Frame} (h : Finish c c' frames) :
    Chain.Finish c.chain c'.chain frames := by
  cases h with
  | pending => exact Chain.Finish.pending
  | lost => exact Chain.Finish.lost
  | skipped hwaiting => exact Chain.Finish.skipped hwaiting
  | delivered f hindex hkey => exact Chain.Finish.delivered f hindex hkey

end Progress

namespace FrameAssembler

def chain (a : FrameAssembler) : Chain :=
  { haveFrame := a.m_haveFrame
    frameIndex := a.m_frameIndex
    finished := a.m_frameFinished
    waiting := a.m_waitingForKeyframe
    lost := a.m_framesLost }

/-- Is the call `requireKeyframe`? -/
def Call.isRequire : Call → Bool
  | .requireKeyframe _ => true
  | _ => false

/-! ### Every call is a step of the chain -/

/-- Every call is a step of the chain, and pushes the frames of that step. -/
theorem step_chain
    (a : FrameAssembler) (call : Call) :
    Chain.ChainStep a.chain call.isRequire (a.step call).2.chain (a.step call).1.frames := by
  have hstep := a.step_progress call
  have hchain : ∀ b : FrameAssembler, b.chain = b.progress.chain := fun _ => rfl
  rw [hchain, hchain]
  generalize (a.step call).2.progress = c', (a.step call).1.frames = frames at hstep ⊢
  cases hstep with
  | dropped => exact Chain.ChainStep.ignored
  | shard hhave hfinished hfinish =>
      exact Chain.ChainStep.shard hhave hfinished hfinish.chain
  | newer h _ hnewer hfinish =>
      exact Chain.ChainStep.newer h.frameIndex hnewer hfinish.chain
  | tick => exact Chain.ChainStep.ignored
  | timeout hhave hfinished => exact Chain.ChainStep.timeout hhave hfinished
  | required => exact Chain.ChainStep.required

end FrameAssembler

/-! ### What the decoder sees -/

/-- What happens to the chain, as far as the decoder is concerned. -/
inductive Event where
  | required
  | lost
  | delivered (frame : Frame)
deriving DecidableEq

/-- A delivered delta frame comes right after the frame with the index before. -/
def Linked (events : List Event) : Prop :=
  ∀ (before : List Event) (f : Frame) (after : List Event),
    events = before ++ .delivered f :: after → f.keyframe = false →
    ∃ (older : List Event) (g : Frame),
      before = older ++ [.delivered g] ∧ f.frameIndex = g.frameIndex + 1

theorem linked_nil :
    Linked [] := by
  intro before f after h
  exact absurd h (by simp)

theorem Linked.append_singleton
    {events : List Event} {e : Event} (h : Linked events)
    (he : ∀ f, e = .delivered f → f.keyframe = false →
      ∃ (older : List Event) (g : Frame),
        events = older ++ [.delivered g] ∧ f.frameIndex = g.frameIndex + 1) :
    Linked (events ++ [e]) := by
  intro before f after hsplit hkey
  rcases Run.append_eq_append_singleton hsplit with ⟨hnil, -⟩ | ⟨rest, hrest, hevents⟩
  · exact absurd hnil (by simp)
  · cases rest with
    | nil =>
        simp only [List.nil_append, List.cons.injEq] at hrest
        rw [List.append_nil] at hevents
        subst hevents
        exact he f hrest.1.symm hkey
    | cons x rest =>
        simp only [List.cons_append, List.cons.injEq] at hrest
        obtain ⟨rfl, -⟩ := hrest
        exact h before f rest hevents hkey

theorem Linked.append_lost
    {events : List Event} (h : Linked events) (count : Nat) :
    Linked (events ++ List.replicate count .lost) := by
  induction count with
  | zero => simpa using h
  | succ count ih =>
      rw [List.replicate_succ', ← List.append_assoc]
      exact ih.append_singleton fun f hf => absurd hf (by simp)

namespace Chain

/-- The events of a step, in the order in which they happen. -/
def events (c c' : Chain) (required : Bool) (frames : List Frame) : List Event :=
  (if required then [.required] else []) ++ List.replicate (c'.lost - c.lost) .lost ++
    frames.map .delivered

/--
The chain after these events.  Unless it waits, the last event is the delivery of
the newest frame, or of the frame before the one in progress.
-/
structure Ready (seen : List Event) (c : Chain) : Prop where
  linked : Linked seen
  last : c.waiting = false → ∃ (older : List Event) (g : Frame),
    seen = older ++ [.delivered g] ∧ c.haveFrame = true ∧
      (if c.finished then c.frameIndex = g.frameIndex
        else c.frameIndex = g.frameIndex + 1)

section Steps

variable {seen : List Event} {c c' : Chain} {frames : List Frame}

theorem events_nil
    (h : c'.lost = c.lost) :
    c.events c' false [] = [] := by
  simp [events, h]

/-- A newer frame begins. -/
theorem Ready.start
    (h : Ready seen c) (frameIndex : UInt32) :
    Ready (seen ++ List.replicate (c.abandoned frameIndex) .lost)
      (c.start frameIndex (c.abandoned frameIndex)) := by
  refine ⟨h.linked.append_lost _, ?_⟩
  intro hwaiting
  simp only [Chain.start, Bool.or_eq_false_iff, decide_eq_false_iff_not] at hwaiting
  have hzero : c.abandoned frameIndex = 0 := by omega
  obtain ⟨older, g, hseen, hhave, hlast⟩ := h.last hwaiting.1
  refine ⟨older, g, ?_, rfl, ?_⟩
  · rw [hzero, List.replicate_zero, List.append_nil]
    exact hseen
  · unfold abandoned at hzero
    rw [if_pos hhave] at hzero
    have hfinished : c.finished = true := by
      by_contra hnot
      rw [if_neg hnot] at hzero
      omega
    rw [hfinished, if_pos rfl] at hlast
    rw [hfinished, if_pos rfl] at hzero
    have hgap : frameIndex - c.frameIndex - 1 = 0 := by
      have hmin : (frameIndex - c.frameIndex - 1).toNat = 0 := by
        simp only [kMaxCountedGap] at hzero
        omega
      exact UInt32.toNat_inj.mp hmin
    simp only [Chain.start, Bool.false_eq_true, if_false]
    rw [← hlast]
    grind

/-- A shard of the frame in progress. -/
theorem Ready.finish
    (h : Ready seen c) (hhave : c.haveFrame = true) (hfinished : c.finished = false)
    (hfinish : Finish c c' frames) :
    Ready (seen ++ c.events c' false frames) c' := by
  cases hfinish with
  | pending =>
      rw [events_nil rfl, List.append_nil]
      exact h
  | lost =>
      refine ⟨?_, fun hwaiting => absurd hwaiting (by simp [lose])⟩
      have hevents : c.events c.lose false [] = List.replicate 1 .lost := by
        simp [events, lose]
      rw [hevents]
      exact h.linked.append_lost 1
  | skipped hwaiting =>
      have hevents : c.events { c with finished := true } false [] = [] := events_nil rfl
      rw [hevents, List.append_nil]
      refine ⟨h.linked, ?_⟩
      intro hnot
      exact absurd hwaiting (by rw [Bool.not_eq_true]; exact hnot)
  | delivered f hindex hkey =>
      have hevents : ∀ waiting : Bool,
          c.events { c with finished := true, waiting } false [f] = [.delivered f] := by
        simp [events]
      rw [hevents]
      constructor
      · refine h.linked.append_singleton ?_
        intro g hg hdelta
        cases hg
        have hwaiting : c.waiting = false := by
          by_contra hnot
          rw [hkey (by simpa using hnot)] at hdelta
          exact absurd hdelta (by simp)
        obtain ⟨older, g, hseen, -, hlast⟩ := h.last hwaiting
        rw [hfinished] at hlast
        exact ⟨older, g, hseen, by rw [hindex]; simpa using hlast⟩
      · intro _
        exact ⟨seen, f, rfl, hhave, by simp [hindex]⟩

/-- Every call keeps the chain linked. -/
theorem Ready.step
    (h : Ready seen c) {required : Bool} (hstep : ChainStep c required c' frames) :
    Ready (seen ++ c.events c' required frames) c' := by
  cases hstep with
  | ignored =>
      rw [events_nil rfl, List.append_nil]
      exact h
  | shard hhave hfinished hfinish => exact h.finish hhave hfinished hfinish
  | newer frameIndex _ hfinish =>
      have hnext := (h.start frameIndex).finish rfl rfl hfinish
      have hlost : (c.start frameIndex (c.abandoned frameIndex)).lost =
          c.lost + c.abandoned frameIndex := rfl
      have hmono : (c.start frameIndex (c.abandoned frameIndex)).lost ≤ c'.lost := by
        cases hfinish <;> simp [lose]
      have hevents : c.events c' false frames =
          List.replicate (c.abandoned frameIndex) .lost ++
            (c.start frameIndex (c.abandoned frameIndex)).events c' false frames := by
        have hsplit : c'.lost - c.lost = c.abandoned frameIndex +
            (c'.lost - (c.start frameIndex (c.abandoned frameIndex)).lost) := by
          omega
        simp only [events, hsplit, List.replicate_add, List.nil_append, if_false,
          Bool.false_eq_true, List.append_assoc]
      rw [hevents, ← List.append_assoc]
      exact hnext
  | timeout _ _ =>
      refine ⟨?_, fun hwaiting => absurd hwaiting (by simp [lose])⟩
      have hevents : c.events c.lose false [] = List.replicate 1 .lost := by
        simp [events, lose]
      rw [hevents]
      exact h.linked.append_lost 1
  | required =>
      refine ⟨?_, fun hwaiting => absurd hwaiting (by simp)⟩
      have hevents : c.events { c with waiting := true } true [] = [.required] := by
        simp [events]
      rw [hevents]
      exact h.linked.append_singleton fun f hf => absurd hf (by simp)

end Steps

/-! ### Serial numbers -/

theorem isNewer_iff
    (a b : UInt32) :
    isNewer a b = true ↔ 0 < (a - b).toNat ∧ (a - b).toNat < 2 ^ 31 := by
  have hlt := (a - b).toNat_lt
  unfold isNewer
  rw [decide_eq_true_eq, BitVec.toInt_eq_toNat_cond]
  simp only [UInt32.toNat_toBitVec]
  split_ifs <;> omega

/-- How the newest frame moves with a call. -/
structure Moved (c c' : Chain) (frames : List Frame) : Prop where
  haveFrame : c.haveFrame = true → c'.haveFrame = true
  index : c.haveFrame = true → c'.frameIndex = c.frameIndex ∨
    isNewer c'.frameIndex c.frameIndex = true
  finished : c.haveFrame = true → c.finished = true → c'.frameIndex = c.frameIndex →
    c'.finished = true ∧ frames = []
  frames_le : frames.length ≤ 1
  newest : ∀ f ∈ frames,
    f.frameIndex = c'.frameIndex ∧ c'.haveFrame = true ∧ c'.finished = true

theorem Finish.moved
    {c c' : Chain} {frames : List Frame} (h : Finish c c' frames)
    (hhave : c.haveFrame = true) :
    c'.haveFrame = true ∧ c'.frameIndex = c.frameIndex ∧ frames.length ≤ 1 ∧
      ∀ f ∈ frames, f.frameIndex = c'.frameIndex ∧ c'.haveFrame = true ∧
        c'.finished = true := by
  cases h with
  | pending => exact ⟨hhave, rfl, by simp, by simp⟩
  | lost => exact ⟨hhave, rfl, by simp, by simp⟩
  | skipped _ => exact ⟨hhave, rfl, by simp, by simp⟩
  | delivered f hindex _ =>
      refine ⟨hhave, rfl, by simp, ?_⟩
      intro g hg
      rw [List.mem_singleton.mp hg]
      exact ⟨hindex, hhave, rfl⟩

theorem ChainStep.moved
    {c c' : Chain} {required : Bool} {frames : List Frame}
    (h : ChainStep c required c' frames) :
    Moved c c' frames := by
  cases h with
  | ignored =>
      exact ⟨id, fun _ => Or.inl rfl, fun _ h _ => ⟨h, rfl⟩, by simp, by simp⟩
  | shard hhave hfinished hfinish =>
      obtain ⟨hhave', hindex, hle, hnewest⟩ := hfinish.moved hhave
      exact ⟨fun _ => hhave', fun _ => Or.inl hindex,
        fun _ h => absurd h (by simp [hfinished]), hle, hnewest⟩
  | newer frameIndex hnewer hfinish =>
      obtain ⟨hhave', hindex, hle, hnewest⟩ := hfinish.moved rfl
      refine ⟨fun _ => hhave', fun h => Or.inr ?_, ?_, hle, hnewest⟩
      · rw [hindex]
        exact hnewer h
      · intro h _ hsame
        have hserial := hnewer h
        have hstart : frameIndex = c.frameIndex := hindex.symm.trans hsame
        rw [isNewer_iff, hstart, UInt32.sub_self] at hserial
        exact absurd hserial.1 (by simp)
  | timeout hhave hfinished =>
      exact ⟨fun _ => hhave, fun _ => Or.inl rfl,
        fun _ h => absurd h (by simp [hfinished]), by simp, by simp⟩
  | required =>
      exact ⟨id, fun _ => Or.inl rfl, fun _ h _ => ⟨h, rfl⟩, by simp, by simp⟩

end Chain

/-! ### Runs of the assembler -/

namespace FrameAssembler

/-- The events of one call. -/
def callEvents (a : FrameAssembler) (call : Call) : List Event :=
  (if call.isRequire then [.required] else []) ++
    List.replicate ((a.step call).2.m_framesLost - a.m_framesLost) .lost ++
    (a.step call).1.frames.map .delivered

/-- The events of a run. -/
def events : FrameAssembler → List Call → List Event
  | _, [] => []
  | a, call :: calls => a.callEvents call ++ events (a.step call).2 calls

/-- The frames pushed by a call, in a run from `a`. -/
def pushed (a : FrameAssembler) (before : List Call) (call : Call) : List Frame :=
  ((Run.final step a before).step call).1.frames

/-- How far the newest frame index moves in a run, without the wrap-around. -/
def travelled : FrameAssembler → List Call → Nat
  | _, [] => 0
  | a, call :: calls =>
      ((a.step call).2.m_frameIndex - a.m_frameIndex).toNat + travelled (a.step call).2 calls

/-- After a delivery the index moves on before the next one. -/
structure Since (f : Frame) (distance : Nat) (c : Chain) : Prop where
  haveFrame : c.haveFrame = true
  index : c.frameIndex = f.frameIndex + UInt32.ofNat distance
  finished : distance = 0 → c.finished = true

theorem Since.next
    {f : Frame} {distance : Nat} {a : FrameAssembler} (h : Since f distance a.chain)
    (call : Call) :
    Since f (distance + ((a.step call).2.m_frameIndex - a.m_frameIndex).toNat)
        (a.step call).2.chain ∧
      ∀ g ∈ (a.step call).1.frames,
        0 < distance + ((a.step call).2.m_frameIndex - a.m_frameIndex).toNat := by
  have hmoved := (a.step_chain call).moved
  have hindex : a.m_frameIndex = f.frameIndex + UInt32.ofNat distance := h.index
  have hstay : distance + ((a.step call).2.m_frameIndex - a.m_frameIndex).toNat = 0 →
      (a.step call).2.chain.finished = true ∧ (a.step call).1.frames = [] := by
    intro hzero
    have hsame : (a.step call).2.m_frameIndex = a.m_frameIndex := by
      have hsub : ((a.step call).2.m_frameIndex - a.m_frameIndex).toNat = 0 := by omega
      have hsub' : (a.step call).2.m_frameIndex - a.m_frameIndex = 0 :=
        UInt32.toNat_inj.mp hsub
      grind
    exact hmoved.finished h.haveFrame (h.finished (by omega)) hsame
  constructor
  · refine ⟨hmoved.haveFrame h.haveFrame, ?_, fun hzero => (hstay hzero).1⟩
    have hcalc : (a.step call).2.m_frameIndex = f.frameIndex +
        (UInt32.ofNat distance + ((a.step call).2.m_frameIndex - a.m_frameIndex)) := by
      rw [hindex]
      grind
    rw [UInt32.ofNat_add, UInt32.ofNat_toNat]
    exact hcalc
  · intro g hg
    by_contra hzero
    have hnone := (hstay (by omega)).2
    rw [hnone] at hg
    exact absurd hg (by simp)

theorem Since.run
    {f : Frame} {distance : Nat} {a : FrameAssembler} (h : Since f distance a.chain)
    (calls : List Call) :
    Since f (distance + a.travelled calls) (Run.final step a calls).chain := by
  induction calls generalizing a distance with
  | nil => simpa [travelled] using h
  | cons call calls ih =>
      have hrun := ih (h.next call).1
      rw [Nat.add_assoc] at hrun
      exact hrun

/-- A packet with the only payload byte of a shard of a bulk keyframe. -/
def keyframePacket (frameIndex totalShards : Nat) : List UInt8 :=
  List.replicate RTP_HEADER_LEN 0 ++ leBytes 4 frameIndex ++ leBytes 2 0 ++
    leBytes 2 totalShards ++ leBytes 2 1 ++ leBytes 2 totalShards ++ [7]

end FrameAssembler

end Client
end FocusVision
