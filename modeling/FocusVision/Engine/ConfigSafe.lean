import FocusVision.Engine.Config

/-!
# What config validation guarantees

`Safe` collects the constraints that `validate` checks.  Most checks establish
theirs and leave good values alone (`Repairs`).  Three repairs can break a
constraint that was checked before: the fixed FEC maximum, the fixed middle
radius and the fixed thermal limit.  A NaN redundancy is not repaired at all.
`RepairsFit` says, on the input, that none of these happens; the main result is
that `validate` makes a config safe exactly then.
-/

namespace FocusVision
namespace Engine

/-- A check that always establishes `ok`, and reports and changes nothing when
it holds. -/
structure Repairs {α : Type} (f : α → List ConfigError × α) (ok : α → Prop) :
    Prop where
  result : ∀ x, ok (f x).2
  keeps : ∀ x, ok x → f x = ([], x)

/-- `lo ≤ value ≤ hi`. -/
def InRange {α : Type} [LE α] (lo hi value : α) : Prop :=
  lo ≤ value ∧ value ≤ hi

structure PortsOk (n : NetworkConfig) : Prop where
  tcp : 1024 ≤ n.tcpPort
  udp : 1024 ≤ n.udpPort
  room : n.udpPort.toNat + 3 ≤ 65535
  distinct : n.tcpPort ≠ n.udpPort

structure FecOk (n : NetworkConfig) : Prop where
  zero_le : f32 0 1 ≤ n.fecRedundancyMin
  min_le : n.fecRedundancyMin ≤ n.fecRedundancy
  le_max : n.fecRedundancy ≤ n.fecRedundancyMax
  max_le : n.fecRedundancyMax ≤ f32 1 1

structure ModesOk (n : NetworkConfig) : Prop where
  mode : n.congestionControl = "gcc" ∨ n.congestionControl = "loss"
  slices : InRange 2 15 n.sliceCount

/-- An edge is in range and even. -/
def EdgeOk (size : UInt32) : Prop :=
  InRange 320 4096 size ∧ size % 2 = 0

structure VideoOk (v : VideoConfig) : Prop where
  bitrate : InRange 10 200 v.bitrateMbps
  framerate : InRange 30 120 v.framerate
  scale : InRange (f32 5 10) (f32 1 1) v.resolutionScale
  width : EdgeOk v.resolutionPerEye.1
  height : EdgeOk v.resolutionPerEye.2

structure DisplayOk (d : DisplayConfig) : Prop where
  ipd : InRange (f32 40 1000) (f32 90 1000) d.ipd
  photons : InRange (f32 0 1) (f32 1 10) d.secondsFromVsyncToPhotons

structure SleepModeOk (s : SleepModeConfig) : Prop where
  timeout : InRange 30 3600 s.timeoutSeconds
  bitrate : InRange 1 200 s.sleepBitrateMbps
  motion : f32 0 1 < s.motionThreshold ∧ s.motionThreshold ≤ f32 1 10

structure PairingOk (p : PairingConfig) : Prop where
  attempts : InRange 1 10 p.maxAttempts
  lockout : InRange 300 3600 p.lockoutSeconds

structure MemoryMonitorOk (m : MemoryMonitorConfig) : Prop where
  poll : InRange 10 3600 m.pollIntervalSeconds
  growth : InRange 1 100000 m.growthThresholdMb

structure FoveatedOk (f : FoveatedConfig) : Prop where
  fovea : f32 0 1 < f.foveaRadius ∧ f.foveaRadius ≤ f32 5 10
  mid : f.foveaRadius < f.midRadius ∧ f.midRadius ≤ f32 1 1
  midQp : InRange 0 51 f.midQpOffset
  peripheralQp : InRange 0 51 f.peripheralQpOffset

structure ThermalRangesOk (t : ThermalConfig) : Prop where
  warn : InRange 50 100 t.warnCelsius
  limit : InRange 50 105 t.limitCelsius
  emergency : InRange 50 110 t.emergencyCelsius
  poll : InRange 1 600 t.pollIntervalSeconds
  recovery : InRange 1 600 t.recoverySeconds

structure ThermalOrderOk (t : ThermalConfig) : Prop where
  warn_lt : t.warnCelsius < t.limitCelsius
  limit_lt : t.limitCelsius < t.emergencyCelsius

/-- All constraints that `validate` checks. -/
structure Safe (c : AppConfig) : Prop where
  ports : PortsOk c.network
  fec : FecOk c.network
  modes : ModesOk c.network
  video : VideoOk c.video
  display : DisplayOk c.display
  faceTracking : InRange (f32 0 1) (f32 99 100) c.faceTracking.smoothing
  sleepMode : SleepModeOk c.sleepMode
  bitrate : InRange 32 512 c.audio.bitrateKbps
  synthetic : c.audio.syntheticSource ∈ syntheticSources
  pairing : PairingOk c.pairing
  memoryMonitor : MemoryMonitorOk c.memoryMonitor
  foveated : FoveatedOk c.foveated
  thermalRanges : ThermalRangesOk c.thermal
  thermalOrder : ThermalOrderOk c.thermal

/-- The fields that are no settings are gone. -/
structure Taken (c : AppConfig) : Prop where
  pixelFactor : c.video.bitratePixelFactor = none
  frameSize : c.audio.frameSizeMs = none
  sampleRate : c.audio.sampleRate = none
  channels : c.audio.channels = none

instance {α : Type} [LE α] [DecidableLE α] (lo hi value : α) :
    Decidable (InRange lo hi value) :=
  inferInstanceAs (Decidable (_ ∧ _))

instance (size : UInt32) : Decidable (EdgeOk size) :=
  inferInstanceAs (Decidable (_ ∧ _))

section Checks

theorem check_of_not
    {α : Type} {bad : Prop} [Decidable bad] (h : ¬ bad)
    (error : ConfigError) (fixed value : α) :
    check bad error fixed value = ([], value) :=
  if_neg h

theorem check_of
    {α : Type} {bad : Prop} [Decidable bad] (h : bad)
    (error : ConfigError) (fixed value : α) :
    check bad error fixed value = ([error], fixed) :=
  if_pos h

@[simp] theorem check_snd
    {α : Type} (bad : Prop) [Decidable bad] (error : ConfigError) (fixed value : α) :
    (check bad error fixed value).2 = if bad then fixed else value := by
  by_cases h : bad
  · rw [check_of h, if_pos h]
  · rw [check_of_not h, if_neg h]

section Ranges

variable {α : Type} [LT α] [DecidableLT α] [ToString α] [LE α]
  [Std.IsLinearOrder α] [Std.LawfulOrderLT α]

/-- What a range check leaves: the value in range, or the default. -/
theorem validateRange_cases
    (value lo hi default : α) (field : String) :
    (InRange lo hi value ∧ (validateRange value lo hi default field).2 = value) ∨
      ((value < lo ∨ hi < value) ∧
        (validateRange value lo hi default field).2 = default) := by
  rw [validateRange, check_snd]
  by_cases h : value < lo ∨ hi < value
  · exact Or.inr ⟨h, if_pos h⟩
  · exact Or.inl ⟨⟨Std.not_lt.mp fun hlt => h (Or.inl hlt),
      Std.not_lt.mp fun hlt => h (Or.inr hlt)⟩, if_neg h⟩

theorem validateRange_inRange
    {value lo hi default : α} {field : String} (hdefault : InRange lo hi default) :
    InRange lo hi (validateRange value lo hi default field).2 := by
  rcases validateRange_cases value lo hi default field with ⟨h, heq⟩ | ⟨-, heq⟩
  · rw [heq]
    exact h
  · rw [heq]
    exact hdefault

theorem validateRange_of_inRange
    {value lo hi default : α} {field : String} (h : InRange lo hi value) :
    validateRange value lo hi default field = ([], value) := by
  refine check_of_not ?_ _ _ _
  rintro (hlt | hlt)
  · exact Std.not_lt.mpr h.1 hlt
  · exact Std.not_lt.mpr h.2 hlt

end Ranges

/-- The bits of the literals that `validate` compares with. -/
@[simp] theorem literal_mags :
    (f32 0 1).mag = 0 ∧ (f32 2 1000).mag = 990057071 ∧
    (f32 11 1000).mag = 1010055512 ∧ (f32 40 1000).mag = 1025758986 ∧
    (f32 5 100).mag = 1028443341 ∧ (f32 63 1000).mag = 1031865893 ∧
    (f32 90 1000).mag = 1035489772 ∧ (f32 1 10).mag = 1036831949 ∧
    (f32 15 100).mag = 1041865114 ∧ (f32 2 10).mag = 1045220557 ∧
    (f32 35 100).mag = 1051931443 ∧ (f32 40 100).mag = 1053609165 ∧
    (f32 5 10).mag = 1056964608 ∧ (f32 6 10).mag = 1058642330 ∧
    (f32 99 100).mag = 1065185444 ∧ (f32 1 1).mag = 1065353216 := by
  decide +kernel

theorem f32_finite
    {a b : Nat} (h : (f32 a b).mag < 2139095040) :
    (f32 a b).isInfinite = false :=
  decide_eq_false (Nat.ne_of_lt h)

theorem f32_lt
    {a b c d : Nat} (h : (f32 a b).mag < (f32 c d).mag) :
    f32 a b < f32 c d :=
  ⟨f32_isNaN a b, f32_isNaN c d, Int.ofNat_lt.mpr h⟩

theorem f32_le
    {a b c d : Nat} (h : (f32 a b).mag ≤ (f32 c d).mag) :
    f32 a b ≤ f32 c d :=
  ⟨f32_isNaN a b, f32_isNaN c d, Int.ofNat_le.mpr h⟩

theorem f32_inRange
    {a b c d e f : Nat}
    (h : (f32 a b).mag ≤ (f32 e f).mag ∧ (f32 e f).mag ≤ (f32 c d).mag) :
    InRange (f32 a b) (f32 c d) (f32 e f) :=
  ⟨f32_le h.1, f32_le h.2⟩

/-- A float between finite floats is finite. -/
theorem isInfinite_of_inRange
    {lo hi value : F32} (hlo : lo.isInfinite = false) (hhi : hi.isInfinite = false)
    (h : InRange lo hi value) :
    value.isInfinite = false := by
  obtain ⟨⟨hlo', -, h1⟩, ⟨-, hhi', h2⟩⟩ := h
  simp only [Flt.isInfinite, Flt.isNaN, Flt.key, decide_eq_false_iff_not] at *
  split_ifs at h1 h2 <;> omega

theorem isNaN_eq_false
    {value : F32} (h : ¬ value.isNaN = true) :
    value.isNaN = false :=
  Bool.eq_false_iff.mpr h

theorem validateF32Range_inRange
    {value lo hi default : F32} {field : String} (hdefault : InRange lo hi default) :
    InRange lo hi (validateF32Range value lo hi default field).2 := by
  rw [validateF32Range, check_snd]
  split_ifs with h
  · exact hdefault
  · have hnan := isNaN_eq_false fun hn => h (Or.inl hn)
    exact ⟨Flt.le_of_not_lt hdefault.1.1 hnan fun hlt => h (Or.inr (Or.inr (Or.inl hlt))),
      Flt.le_of_not_lt hnan hdefault.2.2.1 fun hlt => h (Or.inr (Or.inr (Or.inr hlt)))⟩

theorem validateF32Range_of_inRange
    {value lo hi default : F32} {field : String}
    (hlo : lo.isInfinite = false) (hhi : hi.isInfinite = false)
    (h : InRange lo hi value) :
    validateF32Range value lo hi default field = ([], value) := by
  refine check_of_not ?_ _ _ _
  rintro (hnan | hinf | hlt | hlt)
  · rw [h.1.2.1] at hnan
    exact absurd hnan (by decide)
  · rw [isInfinite_of_inRange hlo hhi h] at hinf
    exact absurd hinf (by decide)
  · exact Flt.not_lt_of_le h.1 hlt
  · exact Flt.not_lt_of_le h.2 hlt

end Checks

section Sections

/-- The port next to `tcp_port` is a port that leaves room for the streams. -/
theorem offset_ok
    {t : UInt16} (hlow : 1024 ≤ t) (hhigh : t ≤ maxUdp) :
    let u := if t < maxUdp then t + 1 else t - 1
    1024 ≤ u ∧ u.toNat + 3 ≤ 65535 ∧ t ≠ u := by
  have hmax : maxUdp.toNat = 65532 := rfl
  have hone : (1 : UInt16).toNat = 1 := rfl
  have h1024 : (1024 : UInt16).toNat = 1024 := rfl
  rw [UInt16.le_iff_toNat_le] at hlow hhigh
  by_cases h : t < maxUdp
  · have hlt := UInt16.lt_iff_toNat_lt.mp h
    have hadd : (t + 1).toNat = t.toNat + 1 := by
      rw [UInt16.toNat_add]
      omega
    simp only [h, if_true]
    refine ⟨UInt16.le_iff_toNat_le.mpr (by omega), by omega, fun heq => ?_⟩
    have := congrArg UInt16.toNat heq
    omega
  · have hsub : (t - 1).toNat = t.toNat - 1 := by
      rw [UInt16.toNat_sub_of_le _ _ (UInt16.le_iff_toNat_le.mpr (by omega)), hone]
    simp only [h, if_false]
    rw [UInt16.lt_iff_toNat_lt] at h
    refine ⟨UInt16.le_iff_toNat_le.mpr (by omega), by omega, fun heq => ?_⟩
    have := congrArg UInt16.toNat heq
    omega

theorem validatePorts_repairs :
    Repairs validatePorts PortsOk where
  result n := by
    simp only [validatePorts, check_snd]
    have htcp : 1024 ≤ if n.tcpPort < 1024 then DEFAULT_TCP_PORT else n.tcpPort := by
      split_ifs with h
      · decide
      · exact Std.not_lt.mp h
    have hudp : 1024 ≤ if n.udpPort < 1024 then DEFAULT_UDP_PORT else n.udpPort := by
      split_ifs with h
      · decide
      · exact Std.not_lt.mp h
    revert htcp hudp
    generalize (if n.tcpPort < 1024 then DEFAULT_TCP_PORT else n.tcpPort) = tcp
    generalize (if n.udpPort < 1024 then DEFAULT_UDP_PORT else n.udpPort) = low
    intro htcp hlow
    have hhigh : 1024 ≤ (if maxUdp < low then DEFAULT_UDP_PORT else low) ∧
        (if maxUdp < low then DEFAULT_UDP_PORT else low) ≤ maxUdp := by
      split_ifs with h
      · decide
      · exact ⟨hlow, Std.not_lt.mp h⟩
    revert hhigh
    generalize (if maxUdp < low then DEFAULT_UDP_PORT else low) = high
    rintro ⟨hhigh, hmax⟩
    by_cases heq : tcp = high
    · subst heq
      simp only [if_true]
      obtain ⟨hlow', hroom, hne⟩ := offset_ok htcp hmax
      exact ⟨htcp, hlow', hroom, hne⟩
    · simp only [heq, if_false]
      refine ⟨htcp, hhigh, ?_, heq⟩
      have hroom := UInt16.le_iff_toNat_le.mp hmax
      have : maxUdp.toNat = 65532 := rfl
      show high.toNat + 3 ≤ 65535
      omega
  keeps n h := by
    have hmax : ¬ maxUdp < n.udpPort := by
      rw [UInt16.lt_iff_toNat_lt]
      have hroom := h.room
      have : maxUdp.toNat = 65532 := rfl
      omega
    simp only [validatePorts, check_of_not (Std.not_lt.mpr h.tcp),
      check_of_not (Std.not_lt.mpr h.udp), check_of_not hmax, check_of_not h.distinct]
    rfl

theorem validateModes_repairs :
    Repairs validateModes ModesOk where
  result n :=
    { mode := by
        simp only [validateModes, check_snd]
        split_ifs with h
        · exact Or.inl rfl
        · by_contra hno
          exact h ⟨fun hgcc => hno (Or.inl hgcc), fun hloss => hno (Or.inr hloss)⟩
      slices := validateRange_inRange (by decide) }
  keeps n h := by
    have hmode : ¬ (n.congestionControl ≠ "gcc" ∧ n.congestionControl ≠ "loss") :=
      fun hbad => h.mode.elim hbad.1 hbad.2
    simp only [validateModes, check_of_not hmode, validateRange_of_inRange h.slices]
    rfl

/-- Rounding an odd edge down keeps it in range, since the bounds are even. -/
theorem validateEdge_ok
    (size : UInt32) {default : UInt32} (hdefault : EdgeOk default) :
    EdgeOk (validateEdge size default).2 := by
  have hrange := @validateRange_inRange UInt32 _ _ _ _ _ _ size 320 4096 default
    "video.resolution_per_eye" hdefault.1
  simp only [validateEdge, check_snd]
  generalize (validateRange size 320 4096 default "video.resolution_per_eye").2 = edge
    at hrange
  obtain ⟨hlow, hhigh⟩ := hrange
  have h1 : (1 : UInt32).toNat = 1 := rfl
  have h2 : (2 : UInt32).toNat = 2 := rfl
  have h320 : (320 : UInt32).toNat = 320 := rfl
  have h4096 : (4096 : UInt32).toNat = 4096 := rfl
  rw [UInt32.le_iff_toNat_le] at hlow hhigh
  have hmod : (edge % 2).toNat = edge.toNat % 2 := by
    rw [UInt32.toNat_mod, h2]
  split_ifs with hodd
  · have hodd' : edge.toNat % 2 = 1 := by
      rw [← hmod, hodd, h1]
    have hsub : (edge - 1).toNat = edge.toNat - 1 := by
      rw [UInt32.toNat_sub_of_le _ _ (UInt32.le_iff_toNat_le.mpr (by omega)), h1]
    refine ⟨⟨UInt32.le_iff_toNat_le.mpr (by omega), UInt32.le_iff_toNat_le.mpr (by omega)⟩,
      UInt32.toNat_inj.mp ?_⟩
    rw [UInt32.toNat_mod, hsub, h2]
    show (edge.toNat - 1) % 2 = 0
    omega
  · refine ⟨⟨UInt32.le_iff_toNat_le.mpr hlow, UInt32.le_iff_toNat_le.mpr hhigh⟩,
      UInt32.toNat_inj.mp ?_⟩
    have hne : edge.toNat % 2 ≠ 1 := by
      rw [← hmod, ← h1]
      exact fun h => hodd (UInt32.toNat_inj.mp h)
    rw [hmod]
    show edge.toNat % 2 = 0
    omega

theorem validateEdge_of_ok
    {size default : UInt32} (h : EdgeOk size) :
    validateEdge size default = ([], size) := by
  have hodd : ¬ size % 2 = 1 := by
    rw [h.2]
    decide
  simp only [validateEdge, validateRange_of_inRange h.1, check_of_not hodd]
  rfl

theorem validateVideo_repairs :
    Repairs validateVideo VideoOk where
  result v :=
    { bitrate := validateRange_inRange (by decide)
      framerate := validateRange_inRange (by decide)
      scale := validateF32Range_inRange (f32_inRange (by simp))
      width := validateEdge_ok _ (by decide)
      height := validateEdge_ok _ (by decide) }
  keeps v h := by
    simp only [validateVideo, validateRange_of_inRange h.bitrate,
      validateRange_of_inRange h.framerate,
      validateF32Range_of_inRange (f32_finite (by simp)) (f32_finite (by simp)) h.scale,
      validateEdge_of_ok h.width, validateEdge_of_ok h.height]
    rfl

theorem validateDisplay_repairs :
    Repairs validateDisplay DisplayOk where
  result d :=
    { ipd := validateF32Range_inRange (f32_inRange (by simp))
      photons := validateF32Range_inRange (f32_inRange (by simp)) }
  keeps d h := by
    simp only [validateDisplay,
      validateF32Range_of_inRange (f32_finite (by simp)) (f32_finite (by simp)) h.ipd,
      validateF32Range_of_inRange (f32_finite (by simp)) (f32_finite (by simp)) h.photons]
    rfl

theorem validateFaceTracking_repairs :
    Repairs validateFaceTracking
      (fun f => InRange (f32 0 1) (f32 99 100) f.smoothing) where
  result _ := validateF32Range_inRange (f32_inRange (by simp))
  keeps f h := by
    simp only [validateFaceTracking,
      validateF32Range_of_inRange (f32_finite (by simp)) (f32_finite (by simp)) h]

/-- A positive value up to a bound, as the manual checks ask for. -/
theorem of_not_bad
    {x lo hi : F32} (hlo : lo.isNaN = false) (hhi : hi.isNaN = false)
    (h : ¬ (x ≤ lo ∨ hi < x ∨ x.isNaN = true)) :
    lo < x ∧ x ≤ hi := by
  have hnan := isNaN_eq_false fun hn => h (Or.inr (Or.inr hn))
  exact ⟨Flt.lt_of_not_le hlo hnan fun hle => h (Or.inl hle),
    Flt.le_of_not_lt hnan hhi fun hlt => h (Or.inr (Or.inl hlt))⟩

theorem not_bad_of
    {x lo hi : F32} (h : lo < x ∧ x ≤ hi) :
    ¬ (x ≤ lo ∨ hi < x ∨ x.isNaN = true) := by
  rintro (hle | hlt | hn)
  · exact Flt.not_lt_of_le hle h.1
  · exact Flt.not_lt_of_le h.2 hlt
  · rw [h.2.1] at hn
    exact absurd hn (by decide)

theorem validateSleepMode_repairs :
    Repairs validateSleepMode SleepModeOk where
  result s :=
    { timeout := validateRange_inRange (by decide)
      bitrate := validateRange_inRange (by decide)
      motion := by
        simp only [validateSleepMode, check_snd]
        split_ifs with h
        · exact ⟨f32_lt (by simp), f32_le (by simp)⟩
        · exact of_not_bad (f32_isNaN 0 1) (f32_isNaN 1 10) h }
  keeps s h := by
    simp only [validateSleepMode, validateRange_of_inRange h.timeout,
      validateRange_of_inRange h.bitrate, check_of_not (not_bad_of h.motion)]
    rfl

theorem validatePairing_repairs :
    Repairs validatePairing PairingOk where
  result p :=
    { attempts := validateRange_inRange (by decide)
      lockout := validateRange_inRange (by decide) }
  keeps p h := by
    simp only [validatePairing, validateRange_of_inRange h.attempts,
      validateRange_of_inRange h.lockout]
    rfl

theorem validateMemoryMonitor_repairs :
    Repairs validateMemoryMonitor MemoryMonitorOk where
  result m :=
    { poll := validateRange_inRange (by decide)
      growth := validateRange_inRange (by decide) }
  keeps m h := by
    simp only [validateMemoryMonitor, validateRange_of_inRange h.poll,
      validateRange_of_inRange h.growth]
    rfl

theorem validateSynthetic_repairs :
    Repairs validateSynthetic (fun a => a.syntheticSource ∈ syntheticSources) where
  result a := by
    simp only [validateSynthetic, check_snd]
    split_ifs with h
    · exact h
    · decide
  keeps a h := by
    simp only [validateSynthetic, check_of_not (not_not.mpr h)]

/-- The pairing limits of a validated config are allowed. -/
theorem limits_allowed
    {p : PairingConfig} (h : PairingOk p) :
    (PairingLimits.ofConfig p).Allowed where
  one_le := UInt8.le_iff_toNat_le.mp h.attempts.1
  le_ten := UInt8.le_iff_toNat_le.mp h.attempts.2
  lockout_ge := Nat.mul_le_mul_right _ (UInt64.le_iff_toNat_le.mp h.lockout.1)
  lockout_le := Nat.mul_le_mul_right _ (UInt64.le_iff_toNat_le.mp h.lockout.2)

end Sections

section Fec

/-- The maximum is replaced by 0.40 although the minimum is above it. -/
def FixedMaxTooLow (n : NetworkConfig) : Prop :=
  (f32 40 100 < n.fecRedundancyMin ∧ n.fecRedundancyMin ≤ f32 1 1) ∧
    (n.fecRedundancyMax < n.fecRedundancyMin ∨ f32 1 1 < n.fecRedundancyMax ∨
      n.fecRedundancyMax.isNaN = true)

/-- A value between 0 and 1, as the check of the minimum asks for. -/
theorem unit_of_not_bad
    {x : F32} (h : ¬ (x < f32 0 1 ∨ f32 1 1 < x ∨ x.isNaN = true)) :
    f32 0 1 ≤ x ∧ x ≤ f32 1 1 := by
  have hnan := isNaN_eq_false fun hn => h (Or.inr (Or.inr hn))
  exact ⟨Flt.le_of_not_lt (f32_isNaN 0 1) hnan fun hlt => h (Or.inl hlt),
    Flt.le_of_not_lt hnan (f32_isNaN 1 1) fun hlt => h (Or.inr (Or.inl hlt))⟩

/-- The repaired minimum. -/
def repairedMin (n : NetworkConfig) : F32 :=
  if n.fecRedundancyMin < f32 0 1 ∨ f32 1 1 < n.fecRedundancyMin ∨
      n.fecRedundancyMin.isNaN = true then defaultFecRedundancyMin
  else n.fecRedundancyMin

/-- The repaired maximum. -/
def repairedMax (n : NetworkConfig) : F32 :=
  if n.fecRedundancyMax < repairedMin n ∨ f32 1 1 < n.fecRedundancyMax ∨
      n.fecRedundancyMax.isNaN = true then defaultFecRedundancyMax
  else n.fecRedundancyMax

theorem repairedMin_unit
    (n : NetworkConfig) :
    f32 0 1 ≤ repairedMin n ∧ repairedMin n ≤ f32 1 1 := by
  unfold repairedMin
  split_ifs with h
  · exact ⟨f32_le (by simp), f32_le (by simp)⟩
  · exact unit_of_not_bad h

theorem repairedMax_le
    (n : NetworkConfig) :
    repairedMax n ≤ f32 1 1 := by
  unfold repairedMax
  split_ifs with h
  · exact f32_le (by simp)
  · have hnan := isNaN_eq_false fun hn => h (Or.inr (Or.inr hn))
    exact Flt.le_of_not_lt hnan (f32_isNaN 1 1) fun hlt => h (Or.inr (Or.inl hlt))

/-- The repaired bounds are in order unless 0.40 is below the minimum. -/
theorem repaired_le_iff
    (n : NetworkConfig) :
    repairedMin n ≤ repairedMax n ↔ ¬ FixedMaxTooLow n := by
  have hmin := repairedMin_unit n
  constructor
  · rintro hle ⟨⟨hlow, hone⟩, hbad⟩
    have hsame : repairedMin n = n.fecRedundancyMin := by
      refine if_neg ?_
      rintro (hlt | hlt | hn)
      · have := Flt.lt_of_lt_of_le (Flt.lt_of_le_of_lt (f32_le (by simp) : f32 0 1 ≤ _) hlow)
          (Flt.le_of_lt hlt)
        exact Flt.not_lt_of_le (Flt.le_refl (f32_isNaN 0 1)) this
      · exact Flt.not_lt_of_le hone hlt
      · rw [hlow.2.1] at hn
        exact absurd hn (by decide)
    rw [← hsame] at hbad hlow
    have hmax : repairedMax n = f32 40 100 := if_pos hbad
    rw [hmax] at hle
    exact Flt.not_lt_of_le hle hlow
  · intro hfit
    unfold repairedMax
    split_ifs with hbad
    · refine Flt.le_of_not_lt hmin.1.2.1 (f32_isNaN 40 100) fun hlt => hfit ?_
      have hsame : repairedMin n = n.fecRedundancyMin := by
        refine if_neg fun hmin => ?_
        have hdef : repairedMin n = defaultFecRedundancyMin := if_pos hmin
        rw [hdef] at hlt
        exact Flt.not_lt_of_le (f32_le (by simp) : f32 5 100 ≤ f32 40 100) hlt
      rw [hsame] at hbad hlt hmin
      exact ⟨⟨hlt, hmin.2⟩, hbad⟩
    · have hnan := isNaN_eq_false fun hn => hbad (Or.inr (Or.inr hn))
      exact Flt.le_of_not_lt hmin.1.2.1 hnan fun hlt => hbad (Or.inl hlt)

/-- The redundancy within the repaired bounds. -/
def repairedRedundancy (n : NetworkConfig) : F32 :=
  if n.fecRedundancy < repairedMin n then repairedMin n
  else if repairedMax n < n.fecRedundancy then repairedMax n
  else n.fecRedundancy

/-- The FEC checks panic on an empty range, and otherwise leave these values. -/
theorem validateFec_cases
    (n : NetworkConfig) :
    (¬ repairedMin n ≤ repairedMax n ∧ validateFec n = none) ∨
      (repairedMin n ≤ repairedMax n ∧ ∃ errors, validateFec n = some (errors,
        { n with
          fecRedundancyMin := repairedMin n
          fecRedundancyMax := repairedMax n
          fecRedundancy := repairedRedundancy n })) := by
  have hlo : ∀ e, (check (n.fecRedundancyMin < f32 0 1 ∨ f32 1 1 < n.fecRedundancyMin ∨
      n.fecRedundancyMin.isNaN = true) e defaultFecRedundancyMin n.fecRedundancyMin).2 =
      repairedMin n := fun e => check_snd _ _ _ _
  have hhi : ∀ e, (check (n.fecRedundancyMax < repairedMin n ∨
      f32 1 1 < n.fecRedundancyMax ∨ n.fecRedundancyMax.isNaN = true) e
      defaultFecRedundancyMax n.fecRedundancyMax).2 = repairedMax n :=
    fun e => check_snd _ _ _ _
  have hmin := repairedMin_unit n
  have hmax := repairedMax_le n
  unfold validateFec
  simp only [hlo, hhi]
  by_cases hbad : n.fecRedundancy.isNaN = true ∨ n.fecRedundancy < repairedMin n ∨
      repairedMax n < n.fecRedundancy
  · rw [if_pos hbad]
    unfold Flt.clamp
    by_cases hle : repairedMin n ≤ repairedMax n
    · rw [if_pos hle]
      exact Or.inr ⟨hle, _, rfl⟩
    · rw [if_neg hle]
      exact Or.inl ⟨hle, rfl⟩
  · rw [if_neg hbad]
    have hn := isNaN_eq_false fun hn => hbad (Or.inl hn)
    have h1 : ¬ n.fecRedundancy < repairedMin n := fun h => hbad (Or.inr (Or.inl h))
    have h2 : ¬ repairedMax n < n.fecRedundancy := fun h => hbad (Or.inr (Or.inr h))
    have hsame : repairedRedundancy n = n.fecRedundancy := by
      rw [repairedRedundancy, if_neg h1, if_neg h2]
    rw [hsame]
    exact Or.inr ⟨Flt.le_trans (Flt.le_of_not_lt hmin.1.2.1 hn h1)
      (Flt.le_of_not_lt hn hmax.1 h2), _, rfl⟩

theorem repairedRedundancy_iff
    {n : NetworkConfig} (hle : repairedMin n ≤ repairedMax n) :
    (repairedMin n ≤ repairedRedundancy n ∧ repairedRedundancy n ≤ repairedMax n) ↔
      n.fecRedundancy.isNaN = false := by
  unfold repairedRedundancy
  split_ifs with h1 h2
  · exact iff_of_true ⟨Flt.le_refl hle.1, hle⟩ h1.1
  · exact iff_of_true ⟨hle, Flt.le_refl hle.2.1⟩ h2.2.1
  · constructor
    · exact fun h => h.2.1
    · exact fun hn => ⟨Flt.le_of_not_lt hle.1 hn h1, Flt.le_of_not_lt hn hle.2.1 h2⟩

/-- The FEC checks succeed exactly when 0.40 fits and the redundancy is a number. -/
theorem validateFec_iff
    (n : NetworkConfig) :
    (∃ r, validateFec n = some r ∧ FecOk r.2) ↔
      ¬ FixedMaxTooLow n ∧ n.fecRedundancy.isNaN = false := by
  rw [← repaired_le_iff]
  rcases validateFec_cases n with ⟨hle, hnone⟩ | ⟨hle, errors, hsome⟩
  · rw [hnone]
    simp [hle]
  · rw [hsome, ← repairedRedundancy_iff hle]
    constructor
    · rintro ⟨r, hr, hok⟩
      cases hr
      exact ⟨hle, hok.min_le, hok.le_max⟩
    · rintro ⟨-, h1, h2⟩
      exact ⟨_, rfl, (repairedMin_unit n).1, h1, h2, repairedMax_le n⟩

/-- The FEC checks touch no other field. -/
theorem validateFec_same
    {n : NetworkConfig} {r : List ConfigError × NetworkConfig}
    (h : validateFec n = some r) :
    r.2.tcpPort = n.tcpPort ∧ r.2.udpPort = n.udpPort := by
  rcases validateFec_cases n with ⟨-, hnone⟩ | ⟨-, errors, hsome⟩
  · rw [hnone] at h
    exact absurd h (by simp)
  · rw [hsome] at h
    cases h
    exact ⟨rfl, rfl⟩

theorem validateFec_of_ok
    {n : NetworkConfig} (h : FecOk n) :
    validateFec n = some ([], n) := by
  have hle := Flt.le_trans h.min_le h.le_max
  have hone := Flt.le_trans hle h.max_le
  have hlo : ¬ (n.fecRedundancyMin < f32 0 1 ∨ f32 1 1 < n.fecRedundancyMin ∨
      n.fecRedundancyMin.isNaN = true) := by
    rintro (hlt | hlt | hn)
    · exact Flt.not_lt_of_le h.zero_le hlt
    · exact Flt.not_lt_of_le hone hlt
    · rw [h.min_le.1] at hn
      exact absurd hn (by decide)
  have hhi : ¬ (n.fecRedundancyMax < n.fecRedundancyMin ∨
      f32 1 1 < n.fecRedundancyMax ∨ n.fecRedundancyMax.isNaN = true) := by
    rintro (hlt | hlt | hn)
    · exact Flt.not_lt_of_le hle hlt
    · exact Flt.not_lt_of_le h.max_le hlt
    · rw [h.max_le.1] at hn
      exact absurd hn (by decide)
  have hmid : ¬ (n.fecRedundancy.isNaN = true ∨ n.fecRedundancy < n.fecRedundancyMin ∨
      n.fecRedundancyMax < n.fecRedundancy) := by
    rintro (hn | hlt | hlt)
    · rw [h.le_max.1] at hn
      exact absurd hn (by decide)
    · exact Flt.not_lt_of_le h.min_le hlt
    · exact Flt.not_lt_of_le h.le_max hlt
  simp only [validateFec, check_of_not hlo, check_of_not hhi, if_neg hmid]
  rfl

end Fec

section Foveated

/-- The middle radius is replaced by 0.35 although the fovea is not below it. -/
def FixedMidTooSmall (f : FoveatedConfig) : Prop :=
  (f32 35 100 ≤ f.foveaRadius ∧ f.foveaRadius ≤ f32 5 10) ∧
    (f.midRadius ≤ f.foveaRadius ∨ f32 1 1 < f.midRadius ∨ f.midRadius.isNaN = true)

theorem validateFoveated_iff
    (f : FoveatedConfig) :
    FoveatedOk (validateFoveated f).2 ↔ ¬ FixedMidTooSmall f := by
  by_cases hfovea : f.foveaRadius ≤ f32 0 1 ∨ f32 5 10 < f.foveaRadius ∨
      f.foveaRadius.isNaN = true
  · -- the fovea becomes 0.15, below both the fixed and any accepted middle radius
    have hfit : ¬ FixedMidTooSmall f := by
      rintro ⟨⟨hlow, hhigh⟩, -⟩
      refine not_bad_of ⟨?_, hhigh⟩ hfovea
      exact Flt.lt_of_lt_of_le (f32_lt (by simp)) hlow
    refine iff_of_true ?_ hfit
    refine
      { fovea := ?_
        mid := ?_
        midQp := validateRange_inRange (by decide)
        peripheralQp := validateRange_inRange (by decide) }
    · simp only [validateFoveated, check_snd, if_pos hfovea]
      exact ⟨f32_lt (by simp), f32_le (by simp)⟩
    · simp only [validateFoveated, check_snd, if_pos hfovea]
      split_ifs with hmid
      · exact ⟨f32_lt (by simp), f32_le (by simp)⟩
      · exact of_not_bad (f32_isNaN 15 100) (f32_isNaN 1 1) hmid
  · have hok := of_not_bad (f32_isNaN 0 1) (f32_isNaN 5 10) hfovea
    by_cases hmid : f.midRadius ≤ f.foveaRadius ∨ f32 1 1 < f.midRadius ∨
        f.midRadius.isNaN = true
    · constructor
      · rintro h ⟨⟨hlow, -⟩, -⟩
        have hlt := h.mid.1
        simp only [validateFoveated, check_snd, if_neg hfovea, if_pos hmid] at hlt
        exact Flt.not_lt_of_le hlow hlt
      · intro hfit
        refine
          { fovea := ?_
            mid := ?_
            midQp := validateRange_inRange (by decide)
            peripheralQp := validateRange_inRange (by decide) }
        · simp only [validateFoveated, check_snd, if_neg hfovea]
          exact hok
        · simp only [validateFoveated, check_snd, if_neg hfovea, if_pos hmid]
          refine ⟨Flt.lt_of_not_le hok.2.1 (f32_isNaN 35 100) fun hle => ?_,
            f32_le (by simp)⟩
          exact hfit ⟨⟨hle, hok.2⟩, hmid⟩
    · refine iff_of_true ?_ fun hfit => hmid hfit.2
      refine
        { fovea := ?_
          mid := ?_
          midQp := validateRange_inRange (by decide)
          peripheralQp := validateRange_inRange (by decide) }
      · simp only [validateFoveated, check_snd, if_neg hfovea]
        exact hok
      · simp only [validateFoveated, check_snd, if_neg hfovea, if_neg hmid]
        exact of_not_bad hok.2.1 (f32_isNaN 1 1) hmid

theorem validateFoveated_of_ok
    {f : FoveatedConfig} (h : FoveatedOk f) :
    validateFoveated f = ([], f) := by
  simp only [validateFoveated, check_of_not (not_bad_of h.fovea),
    check_of_not (not_bad_of h.mid), validateRange_of_inRange h.midQp,
    validateRange_of_inRange h.peripheralQp]
  rfl

end Foveated

section Thermal

/-- The limit is replaced by 85 because of the emergency threshold, although the
warning threshold is not below 85. -/
def FixedLimitTooLow (t : ThermalConfig) : Prop :=
  (85 ≤ t.warnCelsius ∧ t.warnCelsius ≤ 100) ∧
    (t.warnCelsius < t.limitCelsius ∧ t.limitCelsius ≤ 105) ∧
    ((50 ≤ t.emergencyCelsius ∧ t.emergencyCelsius ≤ t.limitCelsius) ∨
      ((t.emergencyCelsius < 50 ∨ 110 < t.emergencyCelsius) ∧ 90 ≤ t.limitCelsius))

theorem validateThermalRanges_ok
    (t : ThermalConfig) :
    ThermalRangesOk (validateThermalRanges t).2 where
  warn := validateRange_inRange (by decide)
  limit := validateRange_inRange (by decide)
  emergency := validateRange_inRange (by decide)
  poll := validateRange_inRange (by decide)
  recovery := validateRange_inRange (by decide)

theorem validateThermalRanges_of_ok
    {t : ThermalConfig} (h : ThermalRangesOk t) :
    validateThermalRanges t = ([], t) := by
  simp only [validateThermalRanges, validateRange_of_inRange h.warn,
    validateRange_of_inRange h.limit, validateRange_of_inRange h.emergency,
    validateRange_of_inRange h.poll, validateRange_of_inRange h.recovery]
  rfl

theorem defaultThermal_ok :
    ThermalRangesOk {} ∧ ThermalOrderOk {} :=
  ⟨⟨by decide, by decide, by decide, by decide, by decide⟩, ⟨by decide, by decide⟩⟩

/-- The thresholds that are reset to their defaults stay in range. -/
theorem validateThermalOrder_rangesOk
    {t : ThermalConfig} (h : ThermalRangesOk t) :
    ThermalRangesOk (validateThermalOrder t).2 := by
  have hdefault := defaultThermal_ok.1
  simp only [validateThermalOrder, check_snd]
  split_ifs
  · exact ⟨hdefault.warn, hdefault.limit, hdefault.emergency, h.poll, h.recovery⟩
  · exact ⟨hdefault.warn, hdefault.limit, h.emergency, h.poll, h.recovery⟩
  · exact ⟨h.warn, hdefault.limit, hdefault.emergency, h.poll, h.recovery⟩
  · exact h

theorem validateThermalOrder_of_ok
    {t : ThermalConfig} (h : ThermalOrderOk t) :
    validateThermalOrder t = ([], t) := by
  simp only [validateThermalOrder, check_of_not (Std.not_le.mpr h.warn_lt),
    check_of_not (Std.not_le.mpr h.limit_lt)]
  rfl

/-- The order holds afterwards unless only the limit is reset, below the warning
threshold. -/
theorem validateThermalOrder_iff
    (t : ThermalConfig) :
    ThermalOrderOk (validateThermalOrder t).2 ↔
      ¬ (t.warnCelsius < t.limitCelsius ∧ t.emergencyCelsius ≤ t.limitCelsius ∧
        defaultThermalLimitCelsius ≤ t.warnCelsius) := by
  have hdefault := defaultThermal_ok.2
  simp only [validateThermalOrder, check_snd]
  by_cases hwarn : t.warnCelsius ≥ t.limitCelsius
  · -- both lower thresholds are reset
    refine iff_of_true ?_ fun h => Std.not_lt.mpr hwarn h.1
    simp only [if_pos hwarn]
    split_ifs with hlimit
    · exact ⟨hdefault.warn_lt, hdefault.limit_lt⟩
    · exact ⟨hdefault.warn_lt, Std.not_le.mp hlimit⟩
  · simp only [if_neg hwarn]
    by_cases hlimit : t.limitCelsius ≥ t.emergencyCelsius
    · simp only [if_pos hlimit]
      constructor
      · rintro h ⟨-, -, hle⟩
        exact Std.not_lt.mpr hle h.warn_lt
      · intro h
        exact ⟨Std.not_le.mp fun hle => h ⟨Std.not_le.mp hwarn, hlimit, hle⟩,
          hdefault.limit_lt⟩
    · simp only [if_neg hlimit]
      exact iff_of_true ⟨Std.not_le.mp hwarn, Std.not_le.mp hlimit⟩ fun h => hlimit h.2.1

theorem validateThermal_iff
    (t : ThermalConfig) :
    ThermalOrderOk (validateThermalOrder (validateThermalRanges t).2).2 ↔
      ¬ FixedLimitTooLow t := by
  rw [validateThermalOrder_iff]
  have hwarn := validateRange_cases t.warnCelsius 50 100 defaultThermalWarnCelsius
    "thermal.warn_celsius"
  have hlimit := validateRange_cases t.limitCelsius 50 105 defaultThermalLimitCelsius
    "thermal.limit_celsius"
  have hemergency := validateRange_cases t.emergencyCelsius 50 110
    defaultThermalEmergencyCelsius "thermal.emergency_celsius"
  simp only [validateThermalRanges, FixedLimitTooLow, InRange] at *
  have h1 : defaultThermalWarnCelsius.toNat = 75 := rfl
  have h2 : defaultThermalLimitCelsius.toNat = 85 := rfl
  have h3 : defaultThermalEmergencyCelsius.toNat = 90 := rfl
  simp only [UInt32.le_iff_toNat_le, UInt32.lt_iff_toNat_lt, UInt32.toNat_ofNat] at *
  rcases hwarn with ⟨hw, heqw⟩ | ⟨hw, heqw⟩ <;>
    rcases hlimit with ⟨hl, heql⟩ | ⟨hl, heql⟩ <;>
    rcases hemergency with ⟨he, heqe⟩ | ⟨he, heqe⟩ <;>
    rw [heqw, heql, heqe] <;> omega

end Thermal

theorem validatePixelFactor_of_none
    {v : VideoConfig} (h : v.bitratePixelFactor = none) :
    validatePixelFactor v = ([], v) := by
  obtain ⟨bitrateMbps, framerate, resolutionScale, resolutionPerEye, _⟩ := v
  simp only at h
  subst h
  rfl

theorem validateAudio_of_ok
    {a : AudioConfig} (hsize : a.frameSizeMs = none) (hrate : a.sampleRate = none)
    (hchannels : a.channels = none) (hbitrate : InRange 32 512 a.bitrateKbps) :
    validateAudio a = ([], a) := by
  obtain ⟨_, _, _, bitrateKbps, syntheticSource⟩ := a
  simp only at hsize hrate hchannels hbitrate
  subst hsize hrate hchannels
  simp only [validateAudio, validateRange_of_inRange hbitrate]
  rfl

/-- A safe config passes as it is. -/
theorem validate_of_safe
    {c : AppConfig} (h : Safe c) (ht : Taken c) :
    validate c = some ([], c) := by
  simp only [validate, validatePorts_repairs.keeps _ h.ports, validateFec_of_ok h.fec,
    validateModes_repairs.keeps _ h.modes, validateVideo_repairs.keeps _ h.video,
    validateDisplay_repairs.keeps _ h.display,
    validatePixelFactor_of_none ht.pixelFactor,
    validateFaceTracking_repairs.keeps _ h.faceTracking,
    validateSleepMode_repairs.keeps _ h.sleepMode,
    validateAudio_of_ok ht.frameSize ht.sampleRate ht.channels h.bitrate,
    validatePairing_repairs.keeps _ h.pairing,
    validateMemoryMonitor_repairs.keeps _ h.memoryMonitor,
    validateSynthetic_repairs.keeps _ h.synthetic, validateFoveated_of_ok h.foveated,
    validateThermalRanges_of_ok h.thermalRanges,
    validateThermalOrder_of_ok h.thermalOrder, List.append_nil]

/-- The shipped defaults pass their own checks. -/
theorem default_safe :
    Safe {} where
  ports := ⟨by decide, by decide, by decide, by decide⟩
  fec := ⟨f32_le (by simp), f32_le (by simp), f32_le (by simp), f32_le (by simp)⟩
  modes := ⟨Or.inl rfl, by decide⟩
  video := ⟨by decide, by decide, f32_inRange (by simp), by decide, by decide⟩
  display := ⟨f32_inRange (by simp), f32_inRange (by simp)⟩
  faceTracking := f32_inRange (by simp)
  sleepMode := ⟨by decide, by decide, f32_lt (by simp), f32_le (by simp)⟩
  bitrate := by decide
  synthetic := by decide
  pairing := ⟨by decide, by decide⟩
  memoryMonitor := ⟨by decide, by decide⟩
  foveated :=
    ⟨⟨f32_lt (by simp), f32_le (by simp)⟩, ⟨f32_lt (by simp), f32_le (by simp)⟩,
      by decide, by decide⟩
  thermalRanges := defaultThermal_ok.1
  thermalOrder := defaultThermal_ok.2

/-- The config that `validate` leaves, around the result of the FEC checks. -/
def validated (c : AppConfig) (network : NetworkConfig) : AppConfig :=
  { network := (validateModes network).2
    video := (validatePixelFactor (validateVideo c.video).2).2
    display := (validateDisplay c.display).2
    faceTracking := (validateFaceTracking c.faceTracking).2
    sleepMode := (validateSleepMode c.sleepMode).2
    audio := (validateSynthetic (validateAudio c.audio).2).2
    pairing := (validatePairing c.pairing).2
    memoryMonitor := (validateMemoryMonitor c.memoryMonitor).2
    foveated := (validateFoveated c.foveated).2
    thermal := (validateThermalOrder (validateThermalRanges c.thermal).2).2 }

theorem validate_eq_none
    {c : AppConfig} (h : validateFec (validatePorts c.network).2 = none) :
    validate c = none := by
  simp only [validate, h]

theorem validate_eq_none_of_not_le
    {c : AppConfig} (h : ¬ repairedMin c.network ≤ repairedMax c.network) :
    validate c = none := by
  rcases validateFec_cases (validatePorts c.network).2 with ⟨-, hnone⟩ | ⟨hle, -⟩
  · exact validate_eq_none hnone
  · exact absurd hle h

theorem validate_eq_some
    {c : AppConfig} {fec : List ConfigError × NetworkConfig}
    (h : validateFec (validatePorts c.network).2 = some fec) :
    ∃ errors, validate c = some (errors, validated c fec.2) := by
  simp only [validate, h]
  exact ⟨_, rfl⟩

/-- The FEC bounds of a validated config are in order, with the redundancy between
them if it is a number. -/
theorem validate_fecBounds
    {c c' : AppConfig} {errors : List ConfigError} (h : validate c = some (errors, c')) :
    f32 0 1 ≤ c'.network.fecRedundancyMin ∧
      c'.network.fecRedundancyMin ≤ c'.network.fecRedundancyMax ∧
      c'.network.fecRedundancyMax ≤ f32 1 1 ∧
      (c'.network.fecRedundancy.isNaN = false →
        InRange c'.network.fecRedundancyMin c'.network.fecRedundancyMax
          c'.network.fecRedundancy) := by
  rcases validateFec_cases (validatePorts c.network).2 with ⟨-, hnone⟩ | ⟨hle, _, hsome⟩
  · rw [validate_eq_none hnone] at h
    exact absurd h (by simp)
  · obtain ⟨_, heq⟩ := validate_eq_some hsome
    rw [heq, Option.some.injEq, Prod.mk.injEq] at h
    obtain ⟨-, rfl⟩ := h
    refine ⟨(repairedMin_unit _).1, hle, repairedMax_le _, fun hnan => ?_⟩
    refine (repairedRedundancy_iff hle).mpr ?_
    by_contra hbad
    rw [Bool.not_eq_false] at hbad
    have hkept : repairedRedundancy (validatePorts c.network).2 =
        (validatePorts c.network).2.fecRedundancy := by
      unfold repairedRedundancy
      rw [if_neg fun hlt => ?_, if_neg fun hlt => ?_]
      · exact absurd (hlt.2.1.symm.trans hbad) (by decide)
      · exact absurd (hlt.1.symm.trans hbad) (by decide)
    rw [← hkept] at hbad
    exact absurd (hnan.symm.trans hbad) (by decide)

/-- Everything but the FEC section is safe, if the fixed radius and limit fit. -/
theorem validated_safe
    {c : AppConfig} {n : NetworkConfig} (hports : PortsOk n) (hfec : FecOk n)
    (hmid : ¬ FixedMidTooSmall c.foveated) (hlimit : ¬ FixedLimitTooLow c.thermal) :
    Safe (validated c n) :=
  have hvideo := validateVideo_repairs.result c.video
  { ports := ⟨hports.tcp, hports.udp, hports.room, hports.distinct⟩
    fec := ⟨hfec.zero_le, hfec.min_le, hfec.le_max, hfec.max_le⟩
    modes := validateModes_repairs.result n
    video :=
      ⟨hvideo.bitrate, hvideo.framerate, hvideo.scale, hvideo.width, hvideo.height⟩
    display := validateDisplay_repairs.result c.display
    faceTracking := validateFaceTracking_repairs.result c.faceTracking
    sleepMode := validateSleepMode_repairs.result c.sleepMode
    bitrate := validateRange_inRange (by decide)
    synthetic := validateSynthetic_repairs.result (validateAudio c.audio).2
    pairing := validatePairing_repairs.result c.pairing
    memoryMonitor := validateMemoryMonitor_repairs.result c.memoryMonitor
    foveated := (validateFoveated_iff c.foveated).mpr hmid
    thermalRanges := validateThermalOrder_rangesOk (validateThermalRanges_ok c.thermal)
    thermalOrder := (validateThermal_iff c.thermal).mpr hlimit }

/-- No repair of `validate` breaks a constraint that was checked before it. -/
structure RepairsFit (c : AppConfig) : Prop where
  max : ¬ FixedMaxTooLow c.network
  redundancy : c.network.fecRedundancy.isNaN = false
  mid : ¬ FixedMidTooSmall c.foveated
  limit : ¬ FixedLimitTooLow c.thermal

/-- **Config validation.**  `validate` returns, leaves all constraints true and
reports and changes nothing when it runs again, exactly when its repairs fit. -/
theorem validate_safe_iff
    (c : AppConfig) :
    (∃ errors c', validate c = some (errors, c') ∧ Safe c' ∧
      validate c' = some ([], c')) ↔
      RepairsFit c := by
  have hfec : (∃ r, validateFec (validatePorts c.network).2 = some r ∧ FecOk r.2) ↔
      ¬ FixedMaxTooLow c.network ∧ c.network.fecRedundancy.isNaN = false :=
    validateFec_iff (validatePorts c.network).2
  constructor
  · rintro ⟨errors, c', hvalid, hsafe, -⟩
    cases hr : validateFec (validatePorts c.network).2 with
    | none =>
        rw [validate_eq_none hr] at hvalid
        exact absurd hvalid (by simp)
    | some fec =>
        obtain ⟨errors', heq⟩ := validate_eq_some hr
        rw [heq, Option.some.injEq, Prod.mk.injEq] at hvalid
        obtain ⟨-, rfl⟩ := hvalid
        have hok : FecOk fec.2 :=
          ⟨hsafe.fec.zero_le, hsafe.fec.min_le, hsafe.fec.le_max, hsafe.fec.max_le⟩
        obtain ⟨hmax, hnan⟩ := hfec.mp ⟨fec, hr, hok⟩
        exact ⟨hmax, hnan, (validateFoveated_iff c.foveated).mp hsafe.foveated,
          (validateThermal_iff c.thermal).mp hsafe.thermalOrder⟩
  · intro hfit
    obtain ⟨fec, hr, hok⟩ := hfec.mpr ⟨hfit.max, hfit.redundancy⟩
    obtain ⟨htcp, hudp⟩ := validateFec_same hr
    have hports : PortsOk fec.2 := by
      have h := validatePorts_repairs.result c.network
      exact ⟨htcp ▸ h.tcp, hudp ▸ h.udp, hudp ▸ h.room, htcp ▸ hudp ▸ h.distinct⟩
    obtain ⟨errors, heq⟩ := validate_eq_some hr
    have hsafe := validated_safe hports hok hfit.mid hfit.limit
    exact ⟨errors, validated c fec.2, heq, hsafe,
      validate_of_safe hsafe ⟨rfl, rfl, rfl, rfl⟩⟩

/-- A minimum of 0.5 with a maximum of 2: the maximum becomes 0.40, and
`f32::clamp` panics. -/
theorem validate_panics :
    ¬ ∃ errors c',
      validate { network :=
        { fecRedundancyMin := f32 5 10
          fecRedundancyMax := f32 2 1 } } = some (errors, c') ∧
      Safe c' ∧ validate c' = some ([], c') := by
  rintro ⟨errors, c', hvalid, -, -⟩
  rw [validate_eq_none_of_not_le (by decide +kernel)] at hvalid
  exact absurd hvalid (by simp)

end Engine
end FocusVision
