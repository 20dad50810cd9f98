import FocusVision.Client.ReferenceChain

/-!
# Frame accounting

The assembler counts the frames that it delivered, skipped and lost.  A run is
written down as a ledger, one outcome for each frame index from the first one on.

The main result is that the ledger always has all the indices up to the newest,
apart from the frame in progress while it is not finished, and that the counters
count its entries, as long as no packet is further ahead than the frames that the
assembler counts.  A frame lost by a timeout is not lost again when a newer one
begins.
-/

namespace FocusVision
namespace Client

open Bytes

/-- What became of a frame. -/
inductive Outcome where
  | lost
  | skipped
  | delivered (frame : Frame)
deriving DecidableEq

def Outcome.isDelivered : Outcome → Bool
  | .delivered _ => true
  | _ => false

namespace Progress

/-- The outcomes of a step, in the order of the frame indices. -/
def outcomes (c c' : Progress) (frames : List Frame) : List Outcome :=
  List.replicate (c'.lost - c.lost) .lost ++
    List.replicate (c'.skipped - c.skipped) .skipped ++ frames.map .delivered

/-- The outcomes of the `distance + 1` frames from `first` to the newest one. -/
structure Ledger (first : UInt32) (distance : Nat) (entries : List Outcome) (c : Progress) :
    Prop where
  haveFrame : c.haveFrame = true
  index : c.frameIndex = first + UInt32.ofNat distance
  length : entries.length + (if c.finished then 0 else 1) = distance + 1
  lost : entries.count .lost = c.lost
  skipped : entries.count .skipped = c.skipped
  delivered : entries.countP Outcome.isDelivered = c.delivered
  inPlace : ∀ i f, entries[i]? = some (.delivered f) → f.frameIndex = first + UInt32.ofNat i

variable {first : UInt32} {distance : Nat} {entries : List Outcome} {c c' : Progress}
  {frames : List Frame}

/-- The frames before `frameIndex` are lost. -/
theorem Ledger.start
    (h : Ledger first distance entries c) {frameIndex : UInt32}
    (hnewer : isNewer frameIndex c.frameIndex = true)
    (hjump : (frameIndex - c.frameIndex).toNat ≤ kMaxCountedGap + 1) :
    Ledger first (distance + (frameIndex - c.frameIndex).toNat)
      (entries ++ List.replicate (c.abandoned frameIndex) .lost) (c.start frameIndex) := by
  have hpos : 0 < (frameIndex - c.frameIndex).toNat := (Chain.isNewer_iff _ _).mp hnewer |>.1
  have hgap : (frameIndex - c.frameIndex - 1).toNat = (frameIndex - c.frameIndex).toNat - 1 := by
    have hone : 1 ≤ frameIndex - c.frameIndex := UInt32.le_iff_toNat_le.mpr hpos
    rw [UInt32.toNat_sub_of_le _ _ hone]
    rfl
  have habandoned : c.abandoned frameIndex =
      (if c.finished then 0 else 1) + ((frameIndex - c.frameIndex).toNat - 1) := by
    rw [abandoned, if_pos h.haveFrame, hgap, min_eq_left (by omega)]
  have hlength := h.length
  refine ⟨rfl, ?_, ?_, ?_, ?_, ?_, ?_⟩
  · rw [UInt32.ofNat_add, UInt32.ofNat_toNat, ← UInt32.add_assoc, ← h.index]
    simp only [Progress.start]
    grind
  · rw [List.length_append, List.length_replicate, habandoned]
    simp only [Progress.start, Bool.false_eq_true, if_false]
    omega
  · rw [List.count_append, List.count_replicate_self, h.lost]
    rfl
  · rw [List.count_append, List.count_replicate, h.skipped]
    rfl
  · rw [List.countP_append, List.countP_replicate, h.delivered]
    rfl
  · intro i f hi
    rw [List.getElem?_append] at hi
    split_ifs at hi
    · exact h.inPlace i f hi
    · rw [List.getElem?_replicate] at hi
      split_ifs at hi
      exact absurd hi (by simp)

/-- The frame in progress gets its entry. -/
theorem Ledger.append
    (h : Ledger first distance entries c) (hfinished : c.finished = false) {e : Outcome}
    (he : ∀ f, e = .delivered f → f.frameIndex = c.frameIndex)
    (hhave : c'.haveFrame = true) (hindex : c'.frameIndex = c.frameIndex)
    (hfinished' : c'.finished = true)
    (hlost : c'.lost = c.lost + [e].count .lost)
    (hskipped : c'.skipped = c.skipped + [e].count .skipped)
    (hdelivered : c'.delivered = c.delivered + [e].countP Outcome.isDelivered) :
    Ledger first distance (entries ++ [e]) c' := by
  have hlength : entries.length = distance := by
    have hpending := h.length
    rw [hfinished] at hpending
    simpa using hpending
  refine ⟨hhave, hindex.trans h.index, ?_, ?_, ?_, ?_, ?_⟩
  · rw [hfinished', List.length_append, hlength]
    rfl
  · rw [List.count_append, h.lost, hlost]
  · rw [List.count_append, h.skipped, hskipped]
  · rw [List.countP_append, h.delivered, hdelivered]
  · intro i f hi
    rw [List.getElem?_append] at hi
    split_ifs at hi
    · exact h.inPlace i f hi
    · obtain ⟨hi, hf⟩ := List.getElem?_eq_some_iff.mp hi
      have hzero : i = entries.length := by
        simp only [List.length_singleton] at hi
        omega
      subst hzero
      rw [he f (by simpa using hf), h.index, hlength]

/-- A shard of the frame in progress. -/
theorem Ledger.finish
    (h : Ledger first distance entries c) (hfinished : c.finished = false)
    (hfinish : Finish c c' frames) :
    Ledger first distance (entries ++ c.outcomes c' frames) c' ∧
      c'.frameIndex = c.frameIndex := by
  cases hfinish with
  | pending => exact ⟨by simpa [outcomes] using h, rfl⟩
  | lost =>
      have hout : c.outcomes (c.finish.lose 1) [] = [.lost] := by
        simp [outcomes, Progress.finish, lose]
      rw [hout]
      exact ⟨h.append hfinished (by simp) h.haveFrame rfl rfl rfl rfl rfl, rfl⟩
  | skipped _ =>
      have hout : c.outcomes { c.finish with skipped := c.skipped + 1 } [] = [.skipped] := by
        simp [outcomes, Progress.finish]
      rw [hout]
      exact ⟨h.append hfinished (by simp) h.haveFrame rfl rfl rfl rfl rfl, rfl⟩
  | delivered f hindex _ =>
      have hout : ∀ waiting : Bool,
          c.outcomes { c.finish with waiting, delivered := c.delivered + 1 } [f] =
            [.delivered f] := by
        simp [outcomes, Progress.finish]
      rw [hout]
      refine ⟨h.append hfinished ?_ h.haveFrame rfl rfl rfl rfl rfl, rfl⟩
      rintro g ⟨⟩
      exact hindex

/-- A new frame first loses the ones before it. -/
theorem outcomes_start
    {frameIndex : UInt32} (hfinish : Finish (c.start frameIndex) c' frames) :
    c.outcomes c' frames = List.replicate (c.abandoned frameIndex) .lost ++
      (c.start frameIndex).outcomes c' frames := by
  have hlost : (c.start frameIndex).lost = c.lost + c.abandoned frameIndex := rfl
  have hmono : (c.start frameIndex).lost ≤ c'.lost := by
    cases hfinish <;> simp [Progress.finish, lose]
  have hsplit : c'.lost - c.lost =
      c.abandoned frameIndex + (c'.lost - (c.start frameIndex).lost) := by
    omega
  have hskipped : (c.start frameIndex).skipped = c.skipped := rfl
  simp only [outcomes, hsplit, hskipped, List.replicate_add, List.append_assoc]

/-- The newest frame is not further ahead than the frames that are counted. -/
def Near (c : Progress) (h : FvpHeaderView) : Prop :=
  c.haveFrame = true → isNewer h.frameIndex c.frameIndex = true →
    (h.frameIndex - c.frameIndex).toNat ≤ kMaxCountedGap + 1

instance (c : Progress) (h : FvpHeaderView) : Decidable (c.Near h) :=
  inferInstanceAs (Decidable (_ → _ → _))

/-- Every call keeps the ledger. -/
theorem Ledger.step
    (h : Ledger first distance entries c) {call : FrameAssembler.Call}
    (hjump : ∀ packet now header, call = .onPacket packet now →
      parseFvpHeader packet = some header → c.Near header)
    (hstep : Step c call c' frames) :
    Ledger first (distance + (c'.frameIndex - c.frameIndex).toNat)
      (entries ++ c.outcomes c' frames) c' := by
  have hstay : Ledger first (distance + (c.frameIndex - c.frameIndex).toNat)
      (entries ++ c.outcomes c []) c := by
    simpa [outcomes] using h
  cases hstep with
  | dropped => exact hstay
  | shard _ hfinished hfinish =>
      obtain ⟨hledger, hindex⟩ := h.finish hfinished hfinish
      rw [hindex, UInt32.sub_self]
      exact hledger
  | newer header hparse hnewer hfinish =>
      have hnear := hjump _ _ header rfl hparse h.haveFrame (hnewer h.haveFrame)
      have hstart := h.start (hnewer h.haveFrame) hnear
      obtain ⟨hledger, hindex⟩ := hstart.finish rfl hfinish
      rw [outcomes_start hfinish, hindex, ← List.append_assoc]
      exact hledger
  | tick => exact hstay
  | timeout _ hfinished =>
      obtain ⟨hledger, -⟩ := h.finish hfinished Finish.lost
      simpa [lose, Progress.finish] using hledger
  | required => simpa [outcomes] using { h with }

/-- Nothing has happened since `reset`. -/
structure Fresh (c : Progress) : Prop where
  haveFrame : c.haveFrame = false
  delivered : c.delivered = 0
  skipped : c.skipped = 0
  lost : c.lost = 0

/-- The first frame opens the ledger. -/
theorem Fresh.step
    (h : Fresh c) {call : FrameAssembler.Call} (hstep : Step c call c' frames) :
    (Fresh c' ∧ c.outcomes c' frames = []) ∨
      Ledger c'.frameIndex 0 (c.outcomes c' frames) c' := by
  have hnone : ∀ {P : Prop}, c.haveFrame = true → P :=
    fun hhave => absurd hhave (by simp [h.haveFrame])
  cases hstep with
  | dropped => exact Or.inl ⟨h, by simp [outcomes]⟩
  | shard hhave _ _ => exact hnone hhave
  | newer header _ _ hfinish =>
      have hzero : c.abandoned header.frameIndex = 0 := if_neg (by simp [h.haveFrame])
      have hstart : Ledger header.frameIndex 0 [] (c.start header.frameIndex) := by
        refine ⟨rfl, by simp [Progress.start], rfl, ?_, h.skipped.symm, h.delivered.symm, ?_⟩
        · simp [Progress.start, hzero, h.lost]
        · intro i f hi
          exact absurd hi (by simp)
      obtain ⟨hledger, hindex⟩ := hstart.finish rfl hfinish
      rw [outcomes_start hfinish, hzero, hindex]
      exact Or.inr hledger
  | tick => exact Or.inl ⟨h, by simp [outcomes]⟩
  | timeout hhave _ => exact hnone hhave
  | required => exact Or.inl ⟨⟨h.haveFrame, h.delivered, h.skipped, h.lost⟩, by simp [outcomes]⟩

end Progress

namespace FrameAssembler

/-- A packet is not further ahead of the newest frame than the frames that are counted. -/
def SmallJump (a : FrameAssembler) : Call → Prop
  | .onPacket packet _ => ∀ h, parseFvpHeader packet = some h → a.progress.Near h
  | _ => True

instance (a : FrameAssembler) (call : Call) : Decidable (a.SmallJump call) :=
  match call with
  | .onPacket packet _ =>
      decidable_of_iff (∀ h ∈ parseFvpHeader packet, a.progress.Near h) Iff.rfl
  | .onTick _ => inferInstanceAs (Decidable True)
  | .requireKeyframe _ => inferInstanceAs (Decidable True)

/-- The outcomes of a run. -/
def outcomes : FrameAssembler → List Call → List Outcome
  | _, [] => []
  | a, call :: calls =>
      a.progress.outcomes (a.step call).2.progress (a.step call).1.frames ++
        outcomes (a.step call).2 calls

/-- The first frame index of a run. -/
def firstIndex : FrameAssembler → List Call → UInt32
  | a, [] => a.m_frameIndex
  | a, call :: calls =>
      if a.m_haveFrame then a.m_frameIndex else firstIndex (a.step call).2 calls

/-- How far the newest frame is from the first one, without the wrap-around. -/
def distance : FrameAssembler → List Call → Nat
  | _, [] => 0
  | a, call :: calls =>
      (if a.m_haveFrame then ((a.step call).2.m_frameIndex - a.m_frameIndex).toNat else 0) +
        distance (a.step call).2 calls

theorem ledger_run
    {a : FrameAssembler} {first : UInt32} {distance : Nat} {entries : List Outcome}
    (h : Progress.Ledger first distance entries a.progress) (calls : List Call)
    (hjump : Run.Along step SmallJump a calls) :
    Progress.Ledger first (distance + a.distance calls) (entries ++ a.outcomes calls)
      (Run.final step a calls).progress := by
  induction calls generalizing a distance entries with
  | nil => simpa [outcomes, FrameAssembler.distance] using h
  | cons call calls ih =>
      obtain ⟨hsmall, hrest⟩ := hjump
      have hnext := h.step (fun packet now header hcall hparse => by
        subst hcall
        exact hsmall header hparse) (a.step_progress call)
      have hrun := ih hnext hrest
      have hhave : a.m_haveFrame = true := h.haveFrame
      rw [FrameAssembler.distance, if_pos hhave, outcomes, ← List.append_assoc,
        ← Nat.add_assoc]
      exact hrun

theorem firstIndex_of_haveFrame
    {a : FrameAssembler} (h : a.m_haveFrame = true) (calls : List Call) :
    a.firstIndex calls = a.m_frameIndex := by
  cases calls with
  | nil => rfl
  | cons call calls => exact if_pos h

theorem fresh_run
    {a : FrameAssembler} (h : a.progress.Fresh) (calls : List Call)
    (hjump : Run.Along step SmallJump a calls) :
    (Run.final step a calls).progress.Fresh ∨
      Progress.Ledger (a.firstIndex calls) (a.distance calls) (a.outcomes calls)
        (Run.final step a calls).progress := by
  induction calls generalizing a with
  | nil => exact Or.inl h
  | cons call calls ih =>
      obtain ⟨-, hrest⟩ := hjump
      have hhave : ¬a.m_haveFrame = true := by
        rw [Bool.not_eq_true]
        exact h.haveFrame
      rw [firstIndex, if_neg hhave, FrameAssembler.distance, if_neg hhave, outcomes]
      rcases h.step (a.step_progress call) with ⟨hfresh, hnone⟩ | hledger
      · rw [hnone, List.nil_append, Nat.zero_add]
        exact ih hfresh hrest
      · rw [firstIndex_of_haveFrame hledger.haveFrame]
        exact Or.inr (ledger_run hledger calls hrest)

theorem length_outcomes
    (entries : List Outcome) :
    entries.length = entries.countP Outcome.isDelivered + entries.count .skipped +
      entries.count .lost := by
  induction entries with
  | nil => rfl
  | cons e entries ih =>
      rw [List.length_cons, List.countP_cons, List.count_cons, List.count_cons, ih]
      cases e <;> simp [Outcome.isDelivered] <;> omega

/--
**Frame accounting.**  After `reset`, as long as no packet that begins a frame is
more than `kMaxCountedGap + 1` ahead, the three counters and the frame in progress
add up to the number of frame indices from the first one to the newest, counted
without the wrap-around.  There is one outcome for each of them, in the order of
the indices, and the counters count the outcomes.
-/
theorem frames_accounted
    (a : FrameAssembler) (calls : List Call)
    (hjump : Run.Along step SmallJump a.reset calls) :
    let b := Run.final step a.reset calls
    let first := a.reset.firstIndex calls
    let distance := a.reset.distance calls
    let entries := a.reset.outcomes calls
    (b.m_haveFrame = true →
      b.m_framesDelivered + b.m_framesSkipped + b.m_framesLost +
          (if b.m_frameFinished then 0 else 1) = distance + 1 ∧
      b.m_frameIndex = first + UInt32.ofNat distance ∧
      entries.length + (if b.m_frameFinished then 0 else 1) = distance + 1 ∧
      entries.countP Outcome.isDelivered = b.m_framesDelivered ∧
      entries.count .skipped = b.m_framesSkipped ∧
      entries.count .lost = b.m_framesLost ∧
      ∀ i f, entries[i]? = some (.delivered f) → f.frameIndex = first + UInt32.ofNat i) ∧
    (b.m_haveFrame = false →
      b.m_framesDelivered = 0 ∧ b.m_framesSkipped = 0 ∧ b.m_framesLost = 0) := by
  have hfresh : a.reset.progress.Fresh := ⟨rfl, rfl, rfl, rfl⟩
  intro b first distance entries
  rcases fresh_run hfresh calls hjump with hfresh | hledger
  · constructor
    · intro hhave
      have hnone : b.m_haveFrame = false := hfresh.haveFrame
      exact absurd hhave (by simp [hnone])
    · intro _
      exact ⟨hfresh.delivered, hfresh.skipped, hfresh.lost⟩
  · constructor
    · intro _
      have htotal : b.m_framesDelivered + b.m_framesSkipped + b.m_framesLost =
          entries.length := by
        rw [length_outcomes, hledger.delivered, hledger.skipped, hledger.lost]
        rfl
      refine ⟨?_, hledger.index, hledger.length, hledger.delivered, hledger.skipped,
        hledger.lost, hledger.inPlace⟩
      rw [htotal]
      exact hledger.length
    · intro hnone
      have hhave : b.m_haveFrame = true := hledger.haveFrame
      exact absurd hhave (by simp [hnone])

/-- Keyframe 0, half of frame 2, a timeout, and keyframe 3. -/
def lostFrames : List Call :=
  [.onPacket (keyframePacket 0 1) 0, .onPacket (keyframePacket 2 2) 1,
    .onTick (2 * kFrameTimeout), .onPacket (keyframePacket 3 1) (2 * kFrameTimeout)]

theorem frames_accounted_lostFrames :
    let b := Run.final step (reset {}) lostFrames
    Run.Along step SmallJump (reset {}) lostFrames ∧
      b.m_framesDelivered + b.m_framesSkipped + b.m_framesLost + 0 = 3 + 1 := by
  have hjump : Run.Along step SmallJump (reset {}) lostFrames := by
    refine ⟨?_, ?_, ?_, ?_, trivial⟩
    · decide
    · decide
    · decide
    · decide
  exact ⟨hjump, ((frames_accounted {} lostFrames hjump).1 (by decide)).1⟩

end FrameAssembler

end Client
end FocusVision
