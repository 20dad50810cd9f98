import FocusVision.Client.DecoderInput

/-!
# The decoder's input buffers are kept

Every popped frame is queued to the codec whole, or it is dropped and a keyframe is
asked for.  The buffer that was dequeued for it comes back, in every run in which the
buffers are as large as the frames: a frame that does not fit keeps the buffer it was
to be copied to.
-/

namespace FocusVision
namespace Client
namespace DecoderApp

/-- The data that were queued to the codec. -/
def queuedData (calls : List CodecCall) : List (List UInt8) :=
  calls.filterMap fun
    | .queueInputBuffer _ data _ => some data
    | _ => none

/-- The part of a frame that is for the decoder: the part behind its pose. -/
def frameNal (app : DecoderApp) (data : List UInt8) : Option (List UInt8) :=
  if app.m_framePose then
    let prefixLen := (parseFramePose data {}).1
    if prefixLen = 0 then none else some (data.drop prefixLen)
  else some data

/-- A frame is queued whole, or a keyframe is asked for. -/
def QueuedOrDropped (nal : Option (List UInt8)) (calls : List CodecCall) : Prop :=
  (.requireKeyframe ∉ calls ∧ ∃ data, nal = some data ∧ queuedData calls = [data]) ∨
    (.requireKeyframe ∈ calls ∧ queuedData calls = [])

/-- What a turn of the app should do: it holds no buffer afterwards. -/
def Right (app : DecoderApp) (event : DecoderEvent) : Prop :=
  (app.step event).2.held = [] ∧
    match event with
    | .frame data _ _ => QueuedOrDropped (app.frameNal data) (app.step event).1
    | _ => True

/-- A buffer that the codec hands out for `nal` can hold it. -/
def AnswerFits (app : DecoderApp) (nal : List UInt8) (answer : DequeueAnswer) : Prop :=
  app.m_initialized = true → ∀ bufIdx capacity, answer = some (bufIdx, capacity) →
    ∃ bufSize, capacity = some bufSize ∧ nal.length ≤ bufSize

/-- The buffer that the codec hands out for a frame can hold it, if the frame has
passed the checks. -/
def Fits (app : DecoderApp) : DecoderEvent → Prop
  | .frame data _ answer =>
      ∀ nal, app.frameNal data = some nal →
        validNal app.m_decoderCodec (skipStartCode nal) = true → app.AnswerFits nal answer
  | _ => True

theorem queuedData_append
    (calls others : List CodecCall) :
    queuedData (calls ++ others) = queuedData calls ++ queuedData others :=
  List.filterMap_append

theorem flush_held
    {app : DecoderApp} (h : app.held = []) :
    app.flush.2.held = [] := by
  unfold flush
  split
  · exact h
  · rfl

theorem flush_queuedData
    (app : DecoderApp) :
    queuedData app.flush.1 = [] := by
  unfold flush
  split
  · rfl
  · rfl

/-- `submitPacket` queues the packet or nothing, and holds a buffer afterwards if it was
handed one that is too small. -/
theorem submitPacket_spec
    {app : DecoderApp} (h : app.held = []) (nal : List UInt8) (timestampUs : Nat)
    (answer : DequeueAnswer) :
    ((app.submitPacket nal timestampUs answer).2.2.held = [] ↔ app.AnswerFits nal answer) ∧
      .requireKeyframe ∉ (app.submitPacket nal timestampUs answer).2.1 ∧
      queuedData (app.submitPacket nal timestampUs answer).2.1 =
        if (app.submitPacket nal timestampUs answer).1 then [nal] else [] := by
  unfold submitPacket
  cases hinit : app.m_initialized with
  | false =>
      have hfits : app.AnswerFits nal answer := fun hi => by simp [hinit] at hi
      exact ⟨iff_of_true h hfits, List.not_mem_nil, rfl⟩
  | true =>
      rcases answer with _ | ⟨bufIdx, _ | bufSize⟩
      · have hfits : app.AnswerFits nal none := fun _ _ _ hnone => nomatch hnone
        exact ⟨iff_of_true h hfits, List.not_mem_nil, rfl⟩
      · have hfits : ¬app.AnswerFits nal (some (bufIdx, none)) := by
          intro hall
          obtain ⟨_, hsome, _⟩ := hall hinit bufIdx none rfl
          exact nomatch hsome
        exact ⟨iff_of_false (List.cons_ne_nil _ _) hfits, by simp, rfl⟩
      · have hiff : app.AnswerFits nal (some (bufIdx, some bufSize)) ↔
            nal.length ≤ bufSize := by
          refine ⟨fun hall => ?_, fun hle _ idx capacity heq => ?_⟩
          · obtain ⟨_, hsome, hle⟩ := hall hinit bufIdx _ rfl
            rwa [Option.some.inj hsome]
          · obtain ⟨-, rfl⟩ := Prod.mk.inj (Option.some.inj heq)
            exact ⟨bufSize, rfl, hle⟩
        rw [hiff]
        by_cases hlarge : nal.length > bufSize
        · simp only [if_pos hlarge]
          exact ⟨iff_of_false (List.cons_ne_nil _ _) (Nat.not_le.mpr hlarge), by simp, rfl⟩
        · simp only [if_neg hlarge]
          exact ⟨iff_of_true (by simp [h]) (Nat.not_lt.mp hlarge), by simp, rfl⟩

/-- The same for the part of a frame behind its pose. -/
theorem submitNal_spec
    {app : DecoderApp} (h : app.held = []) (nal : List UInt8) (frameIndex : UInt32)
    (answer : DequeueAnswer) :
    ((app.submitNal nal frameIndex answer).2.held = [] ↔
        (validNal app.m_decoderCodec (skipStartCode nal) = true →
          app.AnswerFits nal answer)) ∧
      QueuedOrDropped (some nal) (app.submitNal nal frameIndex answer).1 := by
  unfold submitNal
  cases hvalid : validNal app.m_decoderCodec (skipStartCode nal) with
  | false =>
      refine ⟨iff_of_true (flush_held h) (fun htrue => nomatch htrue), Or.inr ⟨by simp, ?_⟩⟩
      simp only [Bool.not_false, if_true]
      rw [queuedData_append, flush_queuedData]
      rfl
  | true =>
      obtain ⟨hheld, hkey, hqueued⟩ :=
        submitPacket_spec h nal (frameIndex.toNat * app.m_frameDurationUs) answer
      simp only [Bool.not_true, Bool.false_eq_true, if_false]
      refine ⟨hheld.trans (by simp), ?_⟩
      cases hsubmitted :
          (app.submitPacket nal (frameIndex.toNat * app.m_frameDurationUs) answer).1 with
      | true =>
          rw [hsubmitted] at hqueued
          exact Or.inl ⟨hkey, nal, rfl, hqueued⟩
      | false =>
          rw [hsubmitted] at hqueued
          refine Or.inr ⟨by simp, ?_⟩
          simp only [Bool.false_eq_true, if_false]
          rw [queuedData_append, hqueued]
          rfl

/-- A frame, when no buffer is held. -/
theorem submitDecodedFrame_spec
    {app : DecoderApp} (h : app.held = []) (data : List UInt8) (frameIndex : UInt32)
    (answer : DequeueAnswer) :
    ((app.submitDecodedFrame data frameIndex answer).2.held = [] ↔
        app.Fits (.frame data frameIndex answer)) ∧
      QueuedOrDropped (app.frameNal data)
        (app.submitDecodedFrame data frameIndex answer).1 := by
  unfold submitDecodedFrame Fits frameNal
  cases hpose : app.m_framePose with
  | false =>
      simp only [Bool.false_eq_true, if_false, Option.some.injEq, forall_eq']
      exact submitNal_spec h data frameIndex answer
  | true =>
      simp only [if_true]
      by_cases hprefix : (parseFramePose data {}).1 = 0
      · simp only [if_pos hprefix]
        exact ⟨iff_of_true h (fun _ hnone => nomatch hnone), Or.inr ⟨by simp, rfl⟩⟩
      · simp only [if_neg hprefix, Option.some.injEq, forall_eq']
        have hrecord : (app.record frameIndex (parseFramePose data {}).2).held = [] := h
        exact submitNal_spec hrecord (data.drop (parseFramePose data {}).1) frameIndex answer

theorem configureDecoder_held
    {app : DecoderApp} (h : app.held = []) (config : StreamConfigView) (initOk : Bool) :
    (app.configureDecoder config initOk).2.held = [] := by
  have hboth : ∀ (same : Bool) {flushed replaced : List CodecCall × DecoderApp},
      flushed.2.held = [] → replaced.2.held = [] →
      (if same then flushed else replaced).2.held = [] := by
    intro same flushed replaced hflushed hreplaced
    cases same with
    | true => exact hflushed
    | false => exact hreplaced
  refine hboth _ (flush_held h) ?_
  cases initOk with
  | true => rfl
  | false => rfl

/-- One turn is right exactly if the buffer it is handed can hold the frame. -/
theorem right_iff
    {app : DecoderApp} (h : app.held = []) (event : DecoderEvent) :
    app.Right event ↔ app.Fits event := by
  cases event with
  | frame data frameIndex answer =>
      obtain ⟨hheld, hdone⟩ := submitDecodedFrame_spec h data frameIndex answer
      exact (and_iff_left hdone).trans hheld
  | flush => exact iff_of_true ⟨flush_held h, trivial⟩ trivial
  | streaming config initOk =>
      exact iff_of_true ⟨configureDecoder_held h config initOk, trivial⟩ trivial

/-- **The input buffers.**  No buffer is ever lost, in exactly the runs in which the
buffers that are handed out can hold the frames. -/
theorem buffersKept_iff
    (events : List DecoderEvent) :
    Run.Along step Right {} events ↔ Run.Along step Fits {} events := by
  have hright : ∀ (app : DecoderApp) (event : DecoderEvent), app.held = [] →
      (app.Right event ↔ app.Fits event) := fun app event h => right_iff h event
  have hstep : ∀ (app : DecoderApp) (event : DecoderEvent), app.held = [] →
      app.Fits event → (app.step event).2.held = [] :=
    fun app event h hfits => ((right_iff h event).mpr hfits).1
  exact Run.along_congr_of step hstep hright rfl events

/-- A stream starts, and its first frame has a byte more than the codec's buffer. -/
theorem oversizedFrame_keepsBuffer :
    let config : StreamConfigView := { codec := 1, width := 1832, height := 1920 }
    ¬Run.Along step Right {}
      [.streaming config true, .frame [0x26, 0x01, 0xAF, 0x00] 0 (some (0, some 3))] := by
  intro config h
  exact absurd h.2.1.1 (by decide)

end DecoderApp
end Client
end FocusVision
