import FocusVision.Driver.NvencEncoder
import FocusVision.Lib.Run

/-!
# IDR requests at the encoder

After `requestIdr`, and from every frame that is an IDR frame anyway, an IDR is
owed until NVENC takes a picture.  `EncoderThreads` has this next to the encoder
and the call of `encode` that is under way; requests come at any moment.

`encode` takes the request before it calls NVENC and does not give it back when
a call fails, so the picture after a failed one can be submitted without the IDR
flag.  The main result says that nothing else loses a request.
-/

namespace FocusVision
namespace Driver

open NVENCSTATUS

/-- The call of `encode` that is under way. -/
structure EncodeCall where
  isIdr : Bool
  /-- Was an IDR owed when it began, or is the frame an IDR frame anyway? -/
  owed : Bool
deriving DecidableEq

/-- The encoder, and whether an IDR is owed by the next call of `encode`. -/
structure EncoderThreads where
  encoder : NvencEncoder
  call : Option EncodeCall := none
  owed : Bool := false
deriving DecidableEq

/-- What the two threads do. -/
inductive EncoderAction where
  | requestIdr
  | requestBitrate (bitrateBps : UInt32)
  | beginEncode (forceIdr : Bool) (reconfigure : NVENCSTATUS)
  | finishEncode (outNalData : List UInt8) (results : NvencResults)

/-- Did NVENC take the picture? -/
def NvencResults.taken (r : NvencResults) : Bool :=
  r.mapInputResource = NV_ENC_SUCCESS ∧ r.encodePicture = NV_ENC_SUCCESS

namespace EncoderThreads

/-- One action, with the result of `encode` when it returns. -/
def step (s : EncoderThreads) : EncoderAction → Option Encoded × EncoderThreads
  | .requestIdr => (none, { s with encoder := s.encoder.requestIdr, owed := true })
  | .requestBitrate bitrateBps =>
      (none, { s with encoder := s.encoder.requestBitrate bitrateBps })
  | .beginEncode forceIdr reconfigure =>
      if s.call.isSome ∨ !s.encoder.m_initialized ∨ !s.encoder.m_encoder then (none, s)
      else
        let begun := s.encoder.beginEncode forceIdr reconfigure
        (none,
          { encoder := begun.2
            call := some { isIdr := begun.1, owed := s.owed || s.encoder.idrDue }
            owed := false })
  | .finishEncode outNalData results =>
      match s.call with
      | none => (none, s)
      | some call =>
          (some (s.encoder.finishEncode call.isIdr outNalData results),
            { s with call := none, owed := s.owed || (call.owed && !results.taken) })

/-- A picture that NVENC takes is an IDR picture if one is owed. -/
def Served (s : EncoderThreads) : EncoderAction → Prop
  | .finishEncode outNalData results =>
      ∀ call, s.call = some call → call.owed = true → results.taken = true →
        ∃ p, (s.encoder.finishEncode call.isIdr outNalData results).submitted = some p ∧
          p.forcesIdr = true
  | _ => True

/-- When NVENC does not take a picture by which an IDR is owed, the request is still there. -/
def Retained (s : EncoderThreads) : EncoderAction → Prop
  | .finishEncode _ results =>
      ∀ call, s.call = some call → call.owed = true → results.taken = false →
        s.encoder.s_idrRequested = true
  | _ => True

/-- An IDR that is owed will be asked for. -/
structure Remembered (s : EncoderThreads) : Prop where
  requested : s.owed = true → s.encoder.s_idrRequested = true
  flagged : ∀ call, s.call = some call → call.owed = true → call.isIdr = true

theorem finishEncode_forcesIdr
    (e : NvencEncoder) (outNalData : List UInt8) {r : NvencResults} (h : r.taken = true) :
    ∃ p, (e.finishEncode true outNalData r).submitted = some p ∧ p.forcesIdr = true := by
  have htaken : r.mapInputResource = NV_ENC_SUCCESS ∧ r.encodePicture = NV_ENC_SUCCESS := by
    simpa [NvencResults.taken] using h
  have hmore : ¬r.encodePicture = NV_ENC_ERR_NEED_MORE_INPUT := by
    rw [htaken.2]
    decide
  have hflags : picFlagsFor true &&& NV_ENC_PIC_FLAG_FORCEIDR != 0 := by decide
  refine ⟨⟨e.m_frameCount - 1, (e.m_frameCount - 1).toUInt64, picFlagsFor true⟩, ?_, hflags⟩
  unfold NvencEncoder.finishEncode
  rw [if_neg (not_not.mpr htaken.1)]
  simp only
  rw [if_neg hmore, if_neg (not_not.mpr htaken.2)]
  split_ifs <;> rfl

theorem finishEncode_plain
    {e : NvencEncoder} {outNalData : List UInt8} {r : NvencResults} {p : PicParams}
    (h : (e.finishEncode false outNalData r).submitted = some p) :
    p.forcesIdr = false := by
  have hflags : p.encodePicFlags = picFlagsFor false := by
    unfold NvencEncoder.finishEncode at h
    simp only at h
    split_ifs at h <;> cases h <;> rfl
  rw [PicParams.forcesIdr, hflags]
  decide

theorem Remembered.step
    {s : EncoderThreads} (h : Remembered s) {action : EncoderAction}
    (hretained : s.Retained action) :
    Remembered (s.step action).2 := by
  cases action with
  | requestIdr => exact ⟨fun _ => rfl, h.flagged⟩
  | requestBitrate bitrateBps =>
      refine ⟨fun howed => ?_, h.flagged⟩
      have hrequested := h.requested howed
      simp only [EncoderThreads.step, NvencEncoder.requestBitrate]
      split_ifs <;> exact hrequested
  | beginEncode forceIdr reconfigure =>
      simp only [EncoderThreads.step]
      split_ifs
      · exact h
      · refine ⟨fun howed => absurd howed (by simp), ?_⟩
        intro call hcall howed
        rw [Option.some.injEq] at hcall
        subst hcall
        simp only [Bool.or_eq_true] at howed
        simp only [NvencEncoder.beginEncode_isIdr, Bool.or_eq_true]
        rcases howed with howed | hdue
        · exact Or.inl (Or.inr (h.requested howed))
        · exact Or.inr hdue
  | finishEncode outNalData results =>
      cases hcall : s.call with
      | none =>
          simp only [EncoderThreads.step, hcall]
          exact h
      | some call =>
          simp only [EncoderThreads.step, hcall]
          refine ⟨?_, fun call hnone => absurd hnone (by simp)⟩
          intro howed
          simp only [Bool.or_eq_true, Bool.and_eq_true, Bool.not_eq_true'] at howed
          rcases howed with howed | ⟨howed, hlost⟩
          · exact h.requested howed
          · exact hretained call hcall howed hlost

theorem Remembered.served
    {s : EncoderThreads} (h : Remembered s) (action : EncoderAction) :
    s.Served action := by
  cases action with
  | finishEncode outNalData results =>
      intro call hcall howed htaken
      rw [h.flagged call hcall howed]
      exact finishEncode_forcesIdr _ _ htaken
  | _ => trivial

theorem Remembered.run
    {s : EncoderThreads} (h : Remembered s) (actions : List EncoderAction)
    (hretained : Run.Along EncoderThreads.step Retained s actions) :
    Run.Along EncoderThreads.step Served s actions := by
  induction actions generalizing s with
  | nil => trivial
  | cons action actions ih =>
      exact ⟨h.served action, ih (h.step hretained.1) hretained.2⟩

/-! ### What is not retained is lost -/

/-- The encoder of a session, as `init` leaves it and no call changes it. -/
structure Ready (e : NvencEncoder) : Prop where
  session : e.m_encoder = true
  initialized : e.m_initialized = true
  idrInterval : e.m_idrInterval = 180

/-- An IDR is owed, and nobody remembers. -/
structure Lost (s : EncoderThreads) : Prop where
  ready : Ready s.encoder
  call : s.call = none
  owed : s.owed = true
  requested : s.encoder.s_idrRequested = false

theorem ready_beginEncode
    {e : NvencEncoder} (h : Ready e) (forceIdr : Bool) (reconfigure : NVENCSTATUS) :
    Ready (e.beginEncode forceIdr reconfigure).2 := by
  obtain ⟨hsession, hinitialized, hinterval⟩ := h
  unfold NvencEncoder.beginEncode NvencEncoder.applyPendingBitrate
  simp only
  split_ifs <;> exact ⟨hsession, hinitialized, hinterval⟩

theorem ready_step
    {s : EncoderThreads} (h : Ready s.encoder) (action : EncoderAction) :
    Ready (s.step action).2.encoder := by
  cases action with
  | requestIdr => exact ⟨h.session, h.initialized, h.idrInterval⟩
  | requestBitrate bitrateBps =>
      simp only [step, NvencEncoder.requestBitrate]
      split_ifs
      · exact ⟨h.session, h.initialized, h.idrInterval⟩
      · exact h
  | beginEncode forceIdr reconfigure =>
      simp only [step]
      split_ifs
      · exact h
      · exact ready_beginEncode h forceIdr reconfigure
  | finishEncode outNalData results =>
      simp only [step]
      cases s.call with
      | none => exact h
      | some call => exact h

theorem lost_of_not_retained
    {s : EncoderThreads} (h : Ready s.encoder) {action : EncoderAction}
    (hnot : ¬s.Retained action) :
    Lost (s.step action).2 := by
  have hready := ready_step h action
  cases action with
  | finishEncode outNalData results =>
      simp only [Retained, not_forall] at hnot
      obtain ⟨call, hcall, howed, hlost, hrequested⟩ := hnot
      simp only [step, hcall] at hready ⊢
      exact ⟨hready, rfl, by simp [howed, hlost], by simpa using hrequested⟩
  | _ => exact absurd trivial hnot

/-- The results of an `encode` whose picture NVENC answers with `status`. -/
def resultsOf (status : NVENCSTATUS) : NvencResults :=
  { mapInputResource := NV_ENC_SUCCESS
    encodePicture := status
    lockBitstream := NV_ENC_SUCCESS
    bitstream := [7]
    isIdrPicture := false }

/-- One `encode` that is not forced. -/
def encodeOnce (status : NVENCSTATUS) : List EncoderAction :=
  [.beginEncode false NV_ENC_SUCCESS, .finishEncode [] (resultsOf status)]

theorem Lost.begin
    {s : EncoderThreads} (h : Lost s) :
    (s.step (.beginEncode false NV_ENC_SUCCESS)).2 =
      { encoder := (s.encoder.beginEncode false NV_ENC_SUCCESS).2
        call := some { isIdr := s.encoder.idrDue, owed := true }
        owed := false } := by
  simp [step, h.call, h.owed, h.requested, h.ready.initialized, h.ready.session]

/-- The next picture is not an IDR picture, unless it is one anyway. -/
theorem Lost.not_served
    {s : EncoderThreads} (h : Lost s) (hdue : s.encoder.idrDue = false) :
    ¬Run.Along step Served s (encodeOnce NV_ENC_SUCCESS) := by
  rintro ⟨-, hserved, -⟩
  rw [h.begin, hdue] at hserved
  obtain ⟨p, hp, hidr⟩ := hserved _ rfl rfl (by decide)
  exact absurd hidr (by simp [finishEncode_plain hp])

/-- After a failure on a frame that is an IDR frame anyway, the next frame is not. -/
theorem Lost.after_due
    {s : EncoderThreads} (h : Lost s) (hdue : s.encoder.idrDue = true) :
    Lost (Run.final step s (encodeOnce NV_ENC_ERR_GENERIC)) ∧
      (Run.final step s (encodeOnce NV_ENC_ERR_GENERIC)).encoder.idrDue = false := by
  have hfinal : Run.final step s (encodeOnce NV_ENC_ERR_GENERIC) =
      { encoder := (s.encoder.beginEncode false NV_ENC_SUCCESS).2
        call := none
        owed := true } := by
    rw [encodeOnce, Run.final_cons, h.begin]
    rfl
  rw [hfinal]
  refine ⟨⟨ready_beginEncode h.ready false NV_ENC_SUCCESS, rfl, rfl, by simp⟩, ?_⟩
  have hcount : s.encoder.m_frameCount.toNat % 180 = 0 := by
    have hmod : s.encoder.m_frameCount % 180 = 0 := by
      simpa [NvencEncoder.idrDue, h.ready.idrInterval] using hdue
    have hnat := congrArg UInt32.toNat hmod
    rwa [UInt32.toNat_mod] at hnat
  have hlt := s.encoder.m_frameCount.toNat_lt
  have hnext : ((s.encoder.m_frameCount + 1) % 180).toNat ≠ 0 := by
    rw [UInt32.toNat_mod, UInt32.toNat_add]
    change (s.encoder.m_frameCount.toNat + 1) % 2 ^ 32 % 180 ≠ 0
    omega
  simp only [NvencEncoder.idrDue, NvencEncoder.beginEncode,
    NvencEncoder.applyPendingBitrate_frameCount, NvencEncoder.applyPendingBitrate_idrInterval,
    h.ready.idrInterval, beq_eq_false_iff_ne, ne_eq]
  intro hzero
  exact hnext (congrArg UInt32.toNat hzero)

theorem Lost.breaks
    {s : EncoderThreads} (h : Lost s) :
    ∃ next, ¬Run.Along step Served s next := by
  cases hdue : s.encoder.idrDue with
  | false => exact ⟨_, h.not_served hdue⟩
  | true =>
      obtain ⟨hlost, hnot⟩ := h.after_due hdue
      refine ⟨encodeOnce NV_ENC_ERR_GENERIC ++ encodeOnce NV_ENC_SUCCESS, ?_⟩
      intro hserved
      exact hlost.not_served hnot ((Run.along_append step _ _ _).mp hserved).2

/--
**IDR requests.**  Let an encoder be initialised and nothing be owed.  In a run in
which every owed IDR whose picture NVENC does not take is still requested, the
first picture that it takes after a request, or from a frame that is an IDR frame
anyway, is submitted as an IDR picture.  A step that leaves an owed IDR without a
request has a continuation in which that fails.
-/
theorem idr_served
    (e : NvencEncoder) (h : Ready e) :
    (∀ actions, Run.Along step Retained { encoder := e } actions →
      Run.Along step Served { encoder := e } actions) ∧
    ∀ before action,
      ¬(Run.final step { encoder := e } before).Retained action →
      ∃ next, ¬Run.Along step Served { encoder := e } (before ++ action :: next) := by
  constructor
  · intro actions hretained
    have hstart : Remembered { encoder := e } :=
      ⟨fun howed => absurd howed (by simp), fun call hcall => absurd hcall (by simp)⟩
    exact hstart.run actions hretained
  · intro before action hnot
    have hstep : ∀ (s : EncoderThreads) a, Ready s.encoder → Ready (s.step a).2.encoder :=
      fun s a hs => ready_step hs a
    have hstart : Ready (EncoderThreads.mk e none false).encoder := h
    have hready := Run.final_invariant step hstep hstart before
    obtain ⟨next, hnext⟩ := (lost_of_not_retained hready hnot).breaks
    refine ⟨next, fun hserved => hnext ?_⟩
    exact ((Run.along_append step _ _ _).mp hserved).2.2

/-- An initialised encoder that has encoded its first frame. -/
def runningEncoder : NvencEncoder :=
  { m_encoder := true, m_initialized := true, m_frameCount := 1 }

/-- A request, a frame that NVENC refuses, with another request while it is encoded, and a frame
that NVENC takes. -/
def servedRequest : List EncoderAction :=
  [.requestIdr, .beginEncode false NV_ENC_SUCCESS, .requestIdr,
    .finishEncode [] (resultsOf NV_ENC_ERR_ENCODER_BUSY)] ++ encodeOnce NV_ENC_SUCCESS

theorem idr_served_request :
    Ready runningEncoder ∧
      Run.Along step Served { encoder := runningEncoder } servedRequest := by
  have hready : Ready runningEncoder := ⟨rfl, rfl, rfl⟩
  refine ⟨hready, (idr_served runningEncoder hready).1 servedRequest ?_⟩
  refine ⟨trivial, trivial, trivial, fun _ _ _ _ => rfl, trivial, ?_, trivial⟩
  intro call hcall howed htaken
  exact absurd htaken (by decide)

/-- A request, a frame that NVENC refuses, and one that it takes. -/
def lostRequest : List EncoderAction :=
  .requestIdr :: encodeOnce NV_ENC_ERR_ENCODER_BUSY ++ encodeOnce NV_ENC_SUCCESS

theorem lostRequest_not_served :
    ¬Run.Along step Served { encoder := runningEncoder } lostRequest := by
  rintro ⟨-, -, -, -, hserved, -⟩
  obtain ⟨p, hp, hidr⟩ := hserved _ rfl rfl (by decide)
  exact absurd hidr (by simp [finishEncode_plain hp])

end EncoderThreads

end Driver
end FocusVision
