import FocusVision.Client.FrameAssembler

/-!
# Frames in progress

What a call of a `FrameAssembler` can do, whatever its decoders do.  `Progress`
is the newest frame, whether it is finished, whether the assembler waits for a
keyframe, and the three frame counters; every call is one `Step` of it.
-/

namespace FocusVision
namespace Client

/-- The newest frame and the counters. -/
structure Progress where
  haveFrame : Bool
  frameIndex : UInt32
  finished : Bool
  waiting : Bool
  delivered : Nat
  skipped : Nat
  lost : Nat

namespace Progress

/-- `count` frames are lost. -/
def lose (c : Progress) (count : Nat) : Progress :=
  { c with waiting := true, lost := c.lost + count }

/-- The frame in progress needs no more packets. -/
def finish (c : Progress) : Progress :=
  { c with finished := true }

/-- The frames that are lost when `frameIndex` begins. -/
def abandoned (c : Progress) (frameIndex : UInt32) : Nat :=
  if c.haveFrame then
    (if c.finished then 0 else 1) + min (frameIndex - c.frameIndex - 1).toNat kMaxCountedGap
  else 0

/-- The newest frame becomes `frameIndex`. -/
def start (c : Progress) (frameIndex : UInt32) : Progress :=
  { c with
    haveFrame := true
    frameIndex
    finished := false
    waiting := c.waiting || decide (c.abandoned frameIndex > 0)
    lost := c.lost + c.abandoned frameIndex }

/-- What a shard of the frame in progress can lead to. -/
inductive Finish (c : Progress) : Progress → List Frame → Prop
  | pending : Finish c c []
  | lost : Finish c (c.finish.lose 1) []
  | skipped :
      c.waiting = true → Finish c { c.finish with skipped := c.skipped + 1 } []
  | delivered (f : Frame) :
      f.frameIndex = c.frameIndex → (c.waiting = true → f.keyframe = true) →
      Finish c
        { c.finish with
          waiting := c.waiting && !f.keyframe
          delivered := c.delivered + 1 } [f]

/-- One call, with the frames that it delivers. -/
inductive Step (c : Progress) : FrameAssembler.Call → Progress → List Frame → Prop
  | dropped {packet now} : Step c (.onPacket packet now) c []
  | shard {packet now c' frames} :
      c.haveFrame = true → c.finished = false → Finish c c' frames →
      Step c (.onPacket packet now) c' frames
  | newer {packet now c' frames} (h : FvpHeaderView) :
      parseFvpHeader packet = some h →
      (c.haveFrame = true → isNewer h.frameIndex c.frameIndex = true) →
      Finish (c.start h.frameIndex) c' frames →
      Step c (.onPacket packet now) c' frames
  | tick {now} : Step c (.onTick now) c []
  | timeout {now} :
      c.haveFrame = true → c.finished = false → Step c (.onTick now) (c.finish.lose 1) []
  | required {now} : Step c (.requireKeyframe now) { c with waiting := true } []

theorem Finish.lost_le
    {c c' : Progress} {frames : List Frame} (h : Finish c c' frames) :
    c.lost ≤ c'.lost := by
  cases h with
  | lost => exact Nat.le_succ c.lost
  | _ => exact Nat.le_refl c.lost

theorem Finish.waiting
    {c c' : Progress} {frames : List Frame} (h : Finish c c' frames) (hlost : c'.lost = c.lost)
    (hwaiting : c'.waiting = true) :
    c.waiting = true ∧ ∀ f ∈ frames, f.keyframe = false := by
  cases h with
  | pending => exact ⟨hwaiting, by simp⟩
  | lost => exact absurd hlost (Nat.succ_ne_self c.lost)
  | skipped => exact ⟨hwaiting, by simp⟩
  | delivered f _ _ =>
      simp only [Bool.and_eq_true, Bool.not_eq_true'] at hwaiting
      exact ⟨hwaiting.1, List.forall_mem_singleton.mpr hwaiting.2⟩

/-- Without a loss or a request, only who waited already waits, and not behind a keyframe. -/
theorem Step.waiting
    {c c' : Progress} {call : FrameAssembler.Call} {frames : List Frame}
    (h : Step c call c' frames) (hcall : ∀ now, call ≠ .requireKeyframe now)
    (hlost : c'.lost = c.lost) (hwaiting : c'.waiting = true) :
    c.waiting = true ∧ ∀ f ∈ frames, f.keyframe = false := by
  cases h with
  | dropped => exact ⟨hwaiting, by simp⟩
  | shard _ _ hfinish => exact hfinish.waiting hlost hwaiting
  | newer h _ _ hfinish =>
      have hle := hfinish.lost_le
      have hstart : (c.start h.frameIndex).lost = c.lost + c.abandoned h.frameIndex := rfl
      have hnone : c.abandoned h.frameIndex = 0 := by omega
      obtain ⟨hwaited, hkey⟩ := hfinish.waiting (by omega) hwaiting
      rw [start, hnone] at hwaited
      simp only [Nat.lt_irrefl, gt_iff_lt, decide_false, Bool.or_false] at hwaited
      exact ⟨hwaited, hkey⟩
  | tick => exact ⟨hwaiting, by simp⟩
  | timeout => exact absurd hlost (Nat.succ_ne_self c.lost)
  | required => exact absurd rfl (hcall _)

end Progress

namespace FrameAssembler

def progress (a : FrameAssembler) : Progress :=
  { haveFrame := a.m_haveFrame
    frameIndex := a.m_frameIndex
    finished := a.m_frameFinished
    waiting := a.m_waitingForKeyframe
    delivered := a.m_framesDelivered
    skipped := a.m_framesSkipped
    lost := a.m_framesLost }

section Methods

variable (a : FrameAssembler) (now : Int) (out : Output)

@[simp] theorem askForIdr_progress :
    (a.askForIdr now out).1.progress = a.progress := by
  unfold askForIdr
  split_ifs <;> rfl

@[simp] theorem askForIdr_frames :
    (a.askForIdr now out).2.frames = out.frames := by
  unfold askForIdr
  split_ifs <;> rfl

@[simp] theorem loseFrames_progress
    (count : Nat) :
    (a.loseFrames count now out).1.progress = a.progress.lose count := by
  unfold loseFrames
  rw [askForIdr_progress]
  rfl

@[simp] theorem loseFrames_frames
    (count : Nat) :
    (a.loseFrames count now out).2.frames = out.frames := by
  unfold loseFrames
  rw [askForIdr_frames]

@[simp] theorem accountSequence_progress
    (seq : UInt16) :
    (a.accountSequence seq).progress = a.progress := by
  unfold accountSequence
  simp only
  split_ifs <;> rfl

@[simp] theorem beginFrame_progress
    (frameIndex : UInt32) (flags totalShards dataShards : UInt16) :
    (a.beginFrame frameIndex flags totalShards dataShards now).progress =
      { a.progress with haveFrame := true, frameIndex, finished := false } := by
  unfold beginFrame
  simp only
  split_ifs <;> rfl

@[simp] theorem tryDecode_progress :
    a.tryDecode.2.progress = a.progress := by
  unfold tryDecode
  split_ifs <;> rfl

theorem finishCurrent_progress :
    ∃ frames, (a.finishCurrent now out).2.frames = out.frames ++ frames ∧
      Progress.Finish a.progress (a.finishCurrent now out).1.progress frames := by
  have hprogress := tryDecode_progress { a with m_frameFinished := true }
  unfold finishCurrent
  simp only
  generalize tryDecode { a with m_frameFinished := true } = res at hprogress ⊢
  obtain ⟨decoded, b⟩ := res
  have hb : b.progress = a.progress.finish := hprogress
  cases decoded with
  | none =>
      refine ⟨[], by simp, ?_⟩
      simp only [loseFrames_progress, hb]
      exact Progress.Finish.lost
  | some f =>
      have hwaiting : b.m_waitingForKeyframe = a.progress.waiting :=
        congrArg Progress.waiting hb
      simp only
      by_cases hskip : b.m_waitingForKeyframe = true ∧ (!f.isKeyframe) = true
      · rw [if_pos hskip]
        refine ⟨[], by simp, ?_⟩
        rw [askForIdr_progress]
        have hskipped : progress { b with m_framesSkipped := b.m_framesSkipped + 1 } =
            { b.progress with skipped := b.progress.skipped + 1 } := rfl
        rw [hskipped, hb]
        exact Progress.Finish.skipped (hwaiting ▸ hskip.1)
      · rw [if_neg hskip]
        refine ⟨[⟨b.m_frameIndex, f.isKeyframe, f.data⟩], rfl, ?_⟩
        have hkey : a.progress.waiting = true → f.isKeyframe = true := by
          intro h
          by_contra hkey
          exact hskip ⟨hwaiting.trans h, by simpa using hkey⟩
        have hafter : ∀ waiting : Bool,
            progress { b with
              m_waitingForKeyframe := waiting
              m_framesDelivered := b.m_framesDelivered + 1 } =
            { b.progress with waiting, delivered := b.progress.delivered + 1 } :=
          fun _ => rfl
        have hwait : (if f.isKeyframe = true then false else b.m_waitingForKeyframe) =
            (a.progress.waiting && !f.isKeyframe) := by
          rw [hwaiting]
          cases f.isKeyframe <;> simp
        rw [hafter, hb, hwait]
        exact Progress.Finish.delivered ⟨b.m_frameIndex, f.isKeyframe, f.data⟩
          (congrArg Progress.frameIndex hb) hkey

theorem takeShard_progress
    (h : FvpHeaderView) (shard : List UInt8) :
    ∃ frames, (a.takeShard h shard now out).2.frames = out.frames ++ frames ∧
      Progress.Finish a.progress (a.takeShard h shard now out).1.progress frames := by
  unfold takeShard
  simp only
  generalize hb : (if a.m_frameSliced = true then _ else _ : FrameAssembler) = b
  have hprogress : b.progress = a.progress := by
    rw [← hb]
    split_ifs <;> rfl
  rw [← hprogress]
  split_ifs
  · exact finishCurrent_progress b now out
  · exact ⟨[], by simp, Progress.Finish.pending⟩

theorem startFrame_progress
    (h : FvpHeaderView) :
    (a.startFrame h now out).1.progress = a.progress.start h.frameIndex ∧
      (a.startFrame h now out).2.frames = out.frames := by
  unfold startFrame
  by_cases hhave : a.m_haveFrame = true
  · have habandoned : a.abandoned h.frameIndex = a.progress.abandoned h.frameIndex :=
      (if_pos hhave).symm
    by_cases hlost : a.abandoned h.frameIndex > 0
    · simp only [hhave, hlost, and_self, if_true, beginFrame_progress, loseFrames_progress,
        loseFrames_frames, and_true]
      rw [habandoned] at hlost ⊢
      simp [Progress.start, Progress.lose, hlost]
    · simp only [hhave, hlost, and_false, if_false, beginFrame_progress, and_true]
      rw [habandoned] at hlost
      rw [Progress.start, Nat.eq_zero_of_not_pos hlost]
      simp
  · have hzero : a.progress.abandoned h.frameIndex = 0 := if_neg hhave
    rw [Bool.not_eq_true] at hhave
    simp only [hhave, Bool.false_eq_true, false_and, if_false, beginFrame_progress, and_true]
    rw [Progress.start, hzero]
    simp

end Methods

/-- Every call is a step, and delivers the frames of that step. -/
theorem step_progress
    (a : FrameAssembler) (call : Call) :
    Progress.Step a.progress call (a.step call).2.progress (a.step call).1.frames := by
  cases call with
  | requireKeyframe now =>
      have h : (requireKeyframe a now {}).1.progress = { a.progress with waiting := true } := by
        unfold requireKeyframe
        rw [askForIdr_progress]
        rfl
      have hframes : (requireKeyframe a now {}).2.frames = [] := by
        unfold requireKeyframe
        rw [askForIdr_frames]
      simp only [step, h, hframes]
      exact Progress.Step.required
  | onTick now =>
      simp only [step, onTick]
      by_cases htimeout : a.m_haveFrame = true ∧ (!a.m_frameFinished) = true ∧
          now - a.m_lastFramePacket > kFrameTimeout
      · rw [if_pos htimeout]
        simp only [loseFrames_progress, loseFrames_frames]
        have hfinished : a.m_frameFinished = false := by simpa using htimeout.2.1
        exact Progress.Step.timeout htimeout.1 hfinished
      · rw [if_neg htimeout]
        exact Progress.Step.tick
  | onPacket packet now =>
      simp only [step, onPacket]
      cases hparse : parseFvpHeader packet with
      | none => exact Progress.Step.dropped
      | some h =>
          have hprogress := accountSequence_progress a (rtpSequence packet)
          generalize a.accountSequence (rtpSequence packet) = b at hprogress ⊢
          simp only
          rw [← hprogress]
          split_ifs with hsame hfinished hnewer
          · exact Progress.Step.dropped
          · obtain ⟨frames, hframes, hfinish⟩ :=
              takeShard_progress b now {} h (packet.drop PACKET_HEADER_LEN)
            rw [hframes, List.nil_append]
            rw [Bool.not_eq_true] at hfinished
            exact Progress.Step.shard hsame.1 hfinished hfinish
          · obtain ⟨hstart, hout⟩ := startFrame_progress b now {} h
            generalize b.startFrame h now {} = res at hstart hout ⊢
            obtain ⟨c, out⟩ := res
            simp only at hstart hout ⊢
            obtain ⟨frames, hframes, hfinish⟩ :=
              takeShard_progress c now out h (packet.drop PACKET_HEADER_LEN)
            rw [hframes, hout, List.nil_append]
            rw [hstart] at hfinish
            refine Progress.Step.newer h hparse ?_ hfinish
            intro hhave
            rcases hnewer with hnone | hnewer
            · exact absurd hhave (by simpa [progress] using hnone)
            · exact hnewer
          · exact Progress.Step.dropped

end FrameAssembler

end Client
end FocusVision
