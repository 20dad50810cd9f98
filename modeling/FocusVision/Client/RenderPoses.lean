import FocusVision.Client.DecoderInput
import FocusVision.Client.WireAgreement
import Mathlib.Data.List.ReduceOption

/-!
# The orientation of a shown frame

The orientation that a frame was rendered at comes in front of its data.  It is kept in
a `RenderPoseLog` while the decoder has the frame, and found again by the timestamp of
the decoder's output: `render_pose_log.h`, and what `renderFrame` of the client's
`openxr_app.cpp` asks of it.  The codec keeps the timestamp of a frame.
-/

namespace FocusVision
namespace Client

/-- Components of a quaternion. -/
abbrev Orientation := F32 × F32 × F32 × F32

/-- `RenderPoseLog::frameIndexOf`. -/
def frameIndexOf (ptsUs : Int) (frameDurationUs : Nat) : UInt32 :=
  if ptsUs < 0 ∨ frameDurationUs = 0 then UInt32.ofNat (2 ^ 32 - 1)
  else UInt32.ofNat ((ptsUs + (frameDurationUs / 2 : Nat)) / frameDurationUs).toNat

namespace DecoderApp

/-- `RenderPoseLog::find`. -/
def find (app : DecoderApp) (frameIndex : UInt32) : Option Orientation :=
  match app.m_renderPoses (frameIndex.toNat % kSize) with
  | none => none
  | some (recorded, pose) =>
      if recorded ≠ frameIndex ∨ !pose.known then none else some pose.orientation

/-- What `renderFrame` takes for the orientation of a decoded frame, if it is known. -/
def renderedOrientation (app : DecoderApp) (ptsUs : Int) : Option Orientation :=
  if app.m_framePose then app.find (frameIndexOf ptsUs app.m_frameDurationUs) else none

end DecoderApp

/-! ### Timestamps -/

theorem frameIndexOf_timestamp
    (frameIndex : UInt32) {frameDurationUs : Nat} (hpos : 0 < frameDurationUs) :
    frameIndexOf (frameIndex.toNat * frameDurationUs : Nat) frameDurationUs = frameIndex := by
  have hquotient : (frameIndex.toNat * frameDurationUs + frameDurationUs / 2) / frameDurationUs =
      frameIndex.toNat := by
    rw [Nat.mul_comm, Nat.mul_add_div hpos, Nat.div_eq_of_lt (by omega), Nat.add_zero]
  have hvalid : ¬(((frameIndex.toNat * frameDurationUs : Nat) : Int) < 0 ∨
      frameDurationUs = 0) := by
    omega
  rw [frameIndexOf, if_neg hvalid, ← Int.natCast_add, ← Int.natCast_ediv, Int.toNat_natCast,
    hquotient, UInt32.ofNat_toNat]

/-! ### Frames of a session -/

/-- A frame as the engine sends it, and the codec's answer for it. -/
structure RenderedFrame where
  frameIndex : UInt32
  orientation : Option Orientation
  nalData : List UInt8
  answer : DequeueAnswer

/-- The orientation that the headset can use. -/
def RenderedFrame.usable (f : RenderedFrame) : Option Orientation :=
  f.orientation.filter finiteOrientation

/-- A frame that is popped, or a flush of the codec. -/
def sessionEvent : Option RenderedFrame → DecoderEvent
  | none => .flush
  | some f => .frame (Engine.FramePose.encode f.orientation ++ f.nalData) f.frameIndex f.answer

/-- The log after some frames. -/
def logOf (frames : List RenderedFrame) : Nat → Option (UInt32 × FramePose) :=
  frames.foldl
    (fun log f => Function.update log (f.frameIndex.toNat % kSize)
      (some (f.frameIndex, .of f.usable)))
    fun _ => none

theorem logOf_append_singleton
    (frames : List RenderedFrame) (f : RenderedFrame) :
    logOf (frames ++ [f]) =
      Function.update (logOf frames) (f.frameIndex.toNat % kSize)
        (some (f.frameIndex, .of f.usable)) := by
  rw [logOf, List.foldl_append]
  rfl

/-- Every entry is from a frame. -/
theorem logOf_origin
    {frames : List RenderedFrame} {slot : Nat} {frameIndex : UInt32} {pose : FramePose}
    (h : logOf frames slot = some (frameIndex, pose)) :
    ∃ f ∈ frames, f.frameIndex = frameIndex ∧ pose = .of f.usable := by
  induction frames using List.reverseRecOn with
  | nil => cases h
  | append_singleton frames f ih =>
      rw [logOf_append_singleton] at h
      by_cases hslot : slot = f.frameIndex.toNat % kSize
      · subst hslot
        rw [Function.update_self, Option.some.injEq, Prod.mk.injEq] at h
        exact ⟨f, by simp, h.1, h.2.symm⟩
      · rw [Function.update_of_ne hslot] at h
        obtain ⟨g, hg, hindex, hpose⟩ := ih h
        exact ⟨g, List.mem_append_left _ hg, hindex, hpose⟩

/-- An entry stays until a frame with the same slot is recorded. -/
theorem logOf_kept
    (before : List RenderedFrame) (f : RenderedFrame) {after : List RenderedFrame}
    (hafter : ∀ g ∈ after, g.frameIndex.toNat % kSize ≠ f.frameIndex.toNat % kSize) :
    logOf (before ++ f :: after) (f.frameIndex.toNat % kSize) =
      some (f.frameIndex, .of f.usable) := by
  induction after using List.reverseRecOn with
  | nil => rw [logOf_append_singleton, Function.update_self]
  | append_singleton after g ih =>
      have hother : f.frameIndex.toNat % kSize ≠ g.frameIndex.toNat % kSize :=
        fun h => hafter g (by simp) h.symm
      rw [← List.cons_append, ← List.append_assoc, logOf_append_singleton,
        Function.update_of_ne hother]
      exact ih fun g hg => hafter g (List.mem_append_left _ hg)

/-- Frames that are less than 32 ahead have other slots. -/
theorem slot_ne_of_ahead
    {i j : UInt32} (hahead : 0 < (j - i).toNat) (hnear : (j - i).toNat < kSize) :
    j.toNat % kSize ≠ i.toNat % kSize := by
  have hi := i.toNat_lt
  have hj := j.toNat_lt
  rw [UInt32.toNat_sub] at hahead hnear
  simp only [kSize] at *
  omega

/-- The duration of a frame, in microseconds. -/
def frameDurationOf (config : StreamConfigView) : Nat :=
  if config.framerate > 0 then 1000000 / config.framerate.toNat else 11111

theorem frameDurationOf_pos
    {config : StreamConfigView} (hrate : config.framerate.toNat ≤ 1000000) :
    0 < frameDurationOf config := by
  unfold frameDurationOf
  split_ifs with hframerate
  · exact Nat.div_pos hrate hframerate
  · decide

/-! ### A session -/

namespace DecoderApp

/-- The log is that of the frames so far. -/
structure Logged (frames : List RenderedFrame) (frameDurationUs : Nat) (app : DecoderApp) :
    Prop where
  framePose : app.m_framePose = true
  duration : app.m_frameDurationUs = frameDurationUs
  poses : app.m_renderPoses = logOf frames

@[simp] theorem framePose_flush
    (app : DecoderApp) :
    app.flush.2.m_framePose = app.m_framePose := by
  unfold DecoderApp.flush
  split <;> rfl

@[simp] theorem renderPoses_flush
    (app : DecoderApp) :
    app.flush.2.m_renderPoses = app.m_renderPoses := by
  unfold DecoderApp.flush
  split <;> rfl

@[simp] theorem frameDurationUs_flush
    (app : DecoderApp) :
    app.flush.2.m_frameDurationUs = app.m_frameDurationUs := by
  unfold DecoderApp.flush
  split <;> rfl

theorem Logged.flush
    {frames : List RenderedFrame} {frameDurationUs : Nat} {app : DecoderApp}
    (h : Logged frames frameDurationUs app) :
    Logged frames frameDurationUs app.flush.2 :=
  ⟨(framePose_flush app).trans h.framePose, (frameDurationUs_flush app).trans h.duration,
    (renderPoses_flush app).trans h.poses⟩

theorem Logged.submitPacket
    {frames : List RenderedFrame} {frameDurationUs : Nat} {app : DecoderApp}
    (h : Logged frames frameDurationUs app) (data : List UInt8) (timestampUs : Nat)
    (answer : DequeueAnswer) :
    Logged frames frameDurationUs (app.submitPacket data timestampUs answer).2.2 := by
  unfold DecoderApp.submitPacket
  split
  · exact h
  · cases answer with
    | none => exact h
    | some buffer =>
        obtain ⟨bufIdx, capacity⟩ := buffer
        cases capacity with
        | none => exact ⟨h.framePose, h.duration, h.poses⟩
        | some bufSize =>
            simp only
            split
            · exact ⟨h.framePose, h.duration, h.poses⟩
            · exact ⟨h.framePose, h.duration, h.poses⟩

theorem Logged.submitNal
    {frames : List RenderedFrame} {frameDurationUs : Nat} {app : DecoderApp}
    (h : Logged frames frameDurationUs app) (nalData : List UInt8) (frameIndex : UInt32)
    (answer : DequeueAnswer) :
    Logged frames frameDurationUs (app.submitNal nalData frameIndex answer).2 := by
  unfold DecoderApp.submitNal
  split
  · exact h.flush
  · exact h.submitPacket nalData _ answer

/-- Only `submitPacket` queues data, with its timestamp. -/
theorem timestamp_of_submitPacket
    {app : DecoderApp} {data queued : List UInt8} {timestampUs bufIdx ts : Nat}
    {answer : DequeueAnswer}
    (h : .queueInputBuffer bufIdx queued ts ∈ (app.submitPacket data timestampUs answer).2.1) :
    ts = timestampUs := by
  unfold DecoderApp.submitPacket at h
  split at h
  · cases h
  · cases answer with
    | none => cases h
    | some buffer =>
        obtain ⟨index, capacity⟩ := buffer
        cases capacity with
        | none => simp at h
        | some bufSize =>
            simp only at h
            split at h
            · simp at h
            · simp at h
              exact h.2.2

theorem timestamp_of_submitNal
    {app : DecoderApp} {nalData queued : List UInt8} {frameIndex : UInt32} {bufIdx ts : Nat}
    {answer : DequeueAnswer}
    (h : .queueInputBuffer bufIdx queued ts ∈ (app.submitNal nalData frameIndex answer).1) :
    ts = frameIndex.toNat * app.m_frameDurationUs := by
  unfold DecoderApp.submitNal at h
  split at h
  · change _ ∈ app.flush.1 ++ [.requireKeyframe] at h
    rw [DecoderApp.flush] at h
    split at h
    · simp at h
    · simp at h
  · simp only at h
    split at h
    · exact timestamp_of_submitPacket h
    · rw [List.mem_append] at h
      rcases h with h | h
      · exact timestamp_of_submitPacket h
      · simp at h

/-- A frame of the engine: its orientation is recorded, and its data submitted. -/
theorem step_frame
    {app : DecoderApp} (h : app.m_framePose = true) (f : RenderedFrame) :
    app.step (sessionEvent (some f)) =
      (app.record f.frameIndex (.of f.usable)).submitNal f.nalData f.frameIndex f.answer := by
  obtain ⟨hparse, hrest⟩ := parseFramePose_encode f.orientation f.nalData {}
  have hlen : ¬FRAME_POSE_LEN = 0 := by decide
  change app.submitDecodedFrame _ _ _ = _
  simp only [submitDecodedFrame, h, if_true, hparse, if_neg hlen, hrest]
  rfl

theorem Logged.step
    {frames : List RenderedFrame} {frameDurationUs : Nat} {app : DecoderApp}
    (h : Logged frames frameDurationUs app) (item : Option RenderedFrame) :
    Logged (frames ++ item.toList) frameDurationUs (app.step (sessionEvent item)).2 := by
  cases item with
  | none =>
      rw [Option.toList_none, List.append_nil]
      exact h.flush
  | some f =>
      have hposes : (app.record f.frameIndex (.of f.usable)).m_renderPoses =
          logOf (frames ++ [f]) := by
        rw [logOf_append_singleton, ← h.poses]
        rfl
      have hrecorded : Logged (frames ++ [f]) frameDurationUs
          (app.record f.frameIndex (.of f.usable)) :=
        ⟨h.framePose, h.duration, hposes⟩
      rw [step_frame h.framePose]
      exact hrecorded.submitNal f.nalData f.frameIndex f.answer

theorem Logged.run
    {frames : List RenderedFrame} {frameDurationUs : Nat} {app : DecoderApp}
    (h : Logged frames frameDurationUs app) (items : List (Option RenderedFrame)) :
    Logged (frames ++ items.reduceOption) frameDurationUs
      (Run.final DecoderApp.step app (items.map sessionEvent)) := by
  induction items generalizing frames app with
  | nil =>
      change Logged (frames ++ []) frameDurationUs app
      rw [List.append_nil]
      exact h
  | cons item items ih =>
      have hrest := ih (h.step item)
      cases item with
      | none =>
          rw [Option.toList_none, List.append_nil] at hrest
          exact hrest
      | some f =>
          rw [Option.toList_some, List.append_assoc] at hrest
          exact hrest

/-- A session begins with an empty log. -/
theorem logged_streaming
    (app : DecoderApp) {config : StreamConfigView} (hpose : config.framePose = true)
    (initOk : Bool) :
    Logged [] (frameDurationOf config) (app.step (.streaming config initOk)).2 := by
  have hconfigured : (app.configureDecoder config initOk).2.m_framePose = true ∧
      (app.configureDecoder config initOk).2.m_renderPoses = logOf [] := by
    unfold configureDecoder
    simp only
    split_ifs <;> simp [hpose, logOf]
  exact ⟨hconfigured.1, rfl, hconfigured.2⟩

theorem Logged.find_eq
    {frames : List RenderedFrame} {frameDurationUs : Nat} {app : DecoderApp}
    (h : Logged frames frameDurationUs app) (ptsUs : Int) :
    app.renderedOrientation ptsUs = app.find (frameIndexOf ptsUs frameDurationUs) := by
  rw [renderedOrientation, if_pos h.framePose, h.duration]

theorem find_of_entry
    {app : DecoderApp} {frameIndex : UInt32} {orientation : Option Orientation}
    (h : app.m_renderPoses (frameIndex.toNat % kSize) =
      some (frameIndex, .of orientation)) :
    app.find frameIndex = orientation := by
  unfold find
  rw [h]
  cases orientation with
  | none => simp [FramePose.of]
  | some q => simp [FramePose.of]

theorem entry_of_find
    {app : DecoderApp} {frameIndex : UInt32} {q : Orientation}
    (h : app.find frameIndex = some q) :
    ∃ pose, app.m_renderPoses (frameIndex.toNat % kSize) = some (frameIndex, pose) ∧
      pose.known = true ∧ pose.orientation = q := by
  unfold find at h
  rcases hentry : app.m_renderPoses (frameIndex.toNat % kSize) with _ | ⟨recorded, pose⟩
  · rw [hentry] at h
    cases h
  · rw [hentry] at h
    simp only at h
    split_ifs at h with hother
    rw [not_or, not_not, Bool.not_eq_true, Bool.not_eq_false'] at hother
    obtain ⟨rfl, hknown⟩ := hother
    exact ⟨pose, rfl, hknown, Option.some.inj h⟩

/--
**The orientation of a shown frame.**  In a session whose frames come with a pose: while
the newest frame is less than 32 ahead of a frame, the headset finds for its timestamp the
orientation that the engine rendered it at, unless that has a component that is not finite.
And whatever timestamp it looks up at whatever moment, it finds nothing or the orientation
of a frame of this session with the index that the timestamp stands for.
-/
theorem shown_orientation
    (app : DecoderApp) (config : StreamConfigView) (initOk : Bool)
    (hpose : config.framePose = true) (hrate : config.framerate.toNat ≤ 1000000)
    (frames : List (Option RenderedFrame)) :
    let start := (app.step (.streaming config initOk)).2
    let now := Run.final step start (frames.map sessionEvent)
    (∀ before f after, frames = before ++ some f :: after →
      (∀ g ∈ after.reduceOption, 0 < (g.frameIndex - f.frameIndex).toNat ∧
        (g.frameIndex - f.frameIndex).toNat < kSize) →
      ∀ bufIdx queued ts, .queueInputBuffer bufIdx queued ts ∈
          ((Run.final step start (before.map sessionEvent)).step (sessionEvent (some f))).1 →
        now.renderedOrientation (ts : Nat) = f.usable) ∧
    ∀ (ptsUs : Int) (q : Orientation), now.renderedOrientation ptsUs = some q →
      ∃ g ∈ frames.reduceOption,
        g.frameIndex = frameIndexOf ptsUs now.m_frameDurationUs ∧ g.usable = some q := by
  intro start now
  have hstart := logged_streaming app hpose initOk
  have hnow := hstart.run frames
  rw [List.nil_append] at hnow
  refine ⟨fun before f after hframes hahead bufIdx queued ts hqueued => ?_,
    fun ptsUs q hfound => ?_⟩
  · have hfed := hstart.run before
    rw [List.nil_append] at hfed
    have hlog : frames.reduceOption = before.reduceOption ++ f :: after.reduceOption := by
      rw [hframes, List.reduceOption_append, List.reduceOption_cons_of_some]
    rw [step_frame hfed.framePose] at hqueued
    have hts := timestamp_of_submitNal hqueued
    have hduration : ((Run.final step start (before.map sessionEvent)).record f.frameIndex
        (.of f.usable)).m_frameDurationUs = frameDurationOf config :=
      hfed.duration
    rw [hnow.find_eq, hts, hduration,
      frameIndexOf_timestamp f.frameIndex (frameDurationOf_pos hrate)]
    apply find_of_entry
    rw [hnow.poses, hlog]
    exact logOf_kept before.reduceOption f fun g hg =>
      slot_ne_of_ahead (hahead g hg).1 (hahead g hg).2
  · rw [renderedOrientation, if_pos hnow.framePose] at hfound
    obtain ⟨pose, hentry, hknown, hpose⟩ := entry_of_find hfound
    rw [hnow.poses] at hentry
    obtain ⟨g, hg, hindex, rfl⟩ := logOf_origin hentry
    refine ⟨g, hg, hindex, ?_⟩
    cases husable : g.usable with
    | none =>
        rw [husable] at hknown
        cases hknown
    | some orientation =>
        rw [husable] at hpose
        exact congrArg some hpose

/-- A frame with one byte of data, and a buffer for it. -/
def smallFrame (frameIndex : UInt32) (orientation : Option Orientation) : RenderedFrame :=
  { frameIndex, orientation, nalData := [0x41], answer := some (0, some 100) }

/-- The head is turned to the side. -/
def turned : Orientation :=
  (f32 0 1, f32 3 5, f32 0 1, f32 4 5)

/-- The frame behind it has a pose that is not known; between the two, the codec is flushed. -/
theorem shown_orientation_turned :
    let start := (step {} (.streaming { framerate := 90, framePose := true } true)).2
    (Run.final step start
      (([some (smallFrame 7 none)] ++ some (smallFrame 8 (some turned)) ::
        [none, some (smallFrame 9 none)]).map sessionEvent)).renderedOrientation 88888 =
      some turned := by
  have hahead : ∀ g ∈ [none, some (smallFrame 9 none)].reduceOption,
      0 < (g.frameIndex - (smallFrame 8 (some turned)).frameIndex).toNat ∧
        (g.frameIndex - (smallFrame 8 (some turned)).frameIndex).toNat < kSize := by
    intro g hg
    have hlast : g = smallFrame 9 none := List.mem_singleton.mp hg
    subst hlast
    decide
  have hshown := (shown_orientation {} { framerate := 90, framePose := true } true rfl (by decide)
    ([some (smallFrame 7 none)] ++ some (smallFrame 8 (some turned)) ::
      [none, some (smallFrame 9 none)])).1 [some (smallFrame 7 none)] (smallFrame 8 (some turned))
    [none, some (smallFrame 9 none)] rfl hahead 0 [0x41] 88888 (by decide +kernel)
  have husable : (smallFrame 8 (some turned)).usable = some turned := by decide +kernel
  exact hshown.trans husable

end DecoderApp
end Client
end FocusVision
