import FocusVision.Engine.Bitrate
import FocusVision.Lib.Run

/-!
# Bounds of the bitrate

`arbitrate` is monotone: worse signals never give a higher target.  Over any run of
its operations a `BitrateController` stays between the floor and the lower of the
setting and the thermal ceiling, and it raises the bitrate only on a good link.
The hysteresis is another matter: it is counted from `last_adjustment`, which a
thermal ceiling that lowers the bitrate does not touch.
-/

namespace FocusVision
namespace Engine

/-! ### The multiplier -/

theorem lowerTo_mag
    {m : F64} (hm : m.Nonneg) (dominant : ArbDominant) {decision : F64 × ArbDominant}
    (h : decision.1.Nonneg) :
    (lowerTo m dominant decision).1.Nonneg ∧
      (lowerTo m dominant decision).1.mag = min m.mag decision.1.mag := by
  unfold lowerTo
  split_ifs with hlt
  · rw [hm.lt_iff h] at hlt
    exact ⟨hm, (Nat.min_eq_left (Nat.le_of_lt hlt)).symm⟩
  · rw [hm.lt_iff h] at hlt
    exact ⟨h, (Nat.min_eq_right (Nat.not_lt.mp hlt)).symm⟩

/-- The most that the delay allows. -/
def delayCap (inputs : ArbitrationInputs) : F64 :=
  if f64 2 1 < inputs.delayGradientMs then f64 90 100 else f64 1 1

/-- The most that the loss allows. -/
def lossCap (inputs : ArbitrationInputs) : F64 :=
  if f64 5 100 < inputs.lossRate then f64 80 100
  else if inputs.targetLossRate < inputs.lossRate then f64 95 100
  else f64 1 1

/-- Outside of a burst the stricter of the two caps counts. -/
theorem backOff_mag
    (inputs : ArbitrationInputs) :
    (backOff inputs).1.Nonneg ∧
      (backOff inputs).1.mag =
        if inputs.burst = .sustained then (f64 80 100).mag
        else min (lossCap inputs).mag (delayCap inputs).mag := by
  obtain ⟨-, ⟨-, -, h90, -, -, -⟩, -⟩ := factors_finite
  have hone : (f64 1 1).Nonneg := f64_nonneg 1 1
  unfold backOff
  by_cases hsustained : inputs.burst = .sustained
  · rw [if_pos hsustained, if_pos hsustained]
    exact ⟨f64_nonneg 80 100, rfl⟩
  · rw [if_neg hsustained, if_neg hsustained]
    simp only
    have hdelay :
        let decision : F64 × ArbDominant :=
          if f64 2 1 < inputs.delayGradientMs then
            lowerTo (f64 90 100) .delay (f64 1 1, .none)
          else (f64 1 1, .none)
        decision.1.Nonneg ∧ decision.1.mag = (delayCap inputs).mag ∧
          decision.1.mag ≤ (f64 1 1).mag := by
      unfold delayCap
      split_ifs
      · obtain ⟨hnonneg, hmag⟩ := lowerTo_mag (f64_nonneg 90 100) .delay
          (show (f64 1 1, ArbDominant.none).1.Nonneg from hone)
        have hmin : min (f64 90 100).mag (f64 1 1).mag = (f64 90 100).mag :=
          Nat.min_eq_left (Nat.le_of_lt h90)
        exact ⟨hnonneg, hmag.trans hmin, by rw [hmag]; exact Nat.min_le_right _ _⟩
      · exact ⟨hone, rfl, Nat.le_refl _⟩
    simp only at hdelay
    generalize (if f64 2 1 < inputs.delayGradientMs then
      lowerTo (f64 90 100) .delay (f64 1 1, .none) else (f64 1 1, .none)) = decision at hdelay ⊢
    obtain ⟨hnonneg, hmag, hle⟩ := hdelay
    unfold lossCap
    rw [← hmag]
    split_ifs
    · exact lowerTo_mag (f64_nonneg 80 100) .loss hnonneg
    · exact lowerTo_mag (f64_nonneg 95 100) .loss hnonneg
    · exact ⟨hnonneg, (Nat.min_eq_right hle).symm⟩

theorem lossCap_bounds
    (inputs : ArbitrationInputs) :
    (f64 80 100).mag ≤ (lossCap inputs).mag ∧ (lossCap inputs).mag ≤ (f64 1 1).mag := by
  obtain ⟨-, ⟨-, h80, -, h95, -, -⟩, -⟩ := factors_finite
  have hmid : (f64 80 100).mag ≤ (f64 95 100).mag :=
    f64_mag_mono (by decide) (by decide) (by decide)
  unfold lossCap
  split_ifs <;> omega

theorem delayCap_bounds
    (inputs : ArbitrationInputs) :
    (f64 80 100).mag ≤ (delayCap inputs).mag ∧ (delayCap inputs).mag ≤ (f64 1 1).mag := by
  obtain ⟨-, ⟨-, h80, h90, -, -, -⟩, -⟩ := factors_finite
  have hmid : (f64 80 100).mag ≤ (f64 90 100).mag :=
    f64_mag_mono (by decide) (by decide) (by decide)
  unfold delayCap
  split_ifs <;> omega

theorem backOff_bounds
    (inputs : ArbitrationInputs) :
    (f64 80 100).mag ≤ (backOff inputs).1.mag ∧
      (backOff inputs).1.mag ≤ (f64 1 1).mag := by
  obtain ⟨-, ⟨-, h80, -, -, -, -⟩, -⟩ := factors_finite
  obtain ⟨hlossLow, hlossHigh⟩ := lossCap_bounds inputs
  obtain ⟨hdelayLow, hdelayHigh⟩ := delayCap_bounds inputs
  rw [(backOff_mag inputs).2]
  split_ifs <;> omega

/-- The multiplier is positive and finite. -/
theorem networkDecision_bounds
    (inputs : ArbitrationInputs) :
    (networkDecision inputs).1.Nonneg ∧ 0 < (networkDecision inputs).1.mag ∧
      (networkDecision inputs).1.mag ≤ (f64 105 100).mag := by
  obtain ⟨-, ⟨hpos, h80, -, -, h105, -⟩, -⟩ := factors_finite
  obtain ⟨hlow, hhigh⟩ := backOff_bounds inputs
  unfold networkDecision
  simp only
  split_ifs
  · exact ⟨f64_nonneg 105 100, Nat.lt_of_lt_of_le hpos (Nat.le_of_lt
      (Nat.lt_trans h80 h105)), Nat.le_refl _⟩
  · exact ⟨(backOff_mag inputs).1, Nat.lt_of_lt_of_le hpos hlow,
      Nat.le_trans hhigh (Nat.le_of_lt h105)⟩

/-! ### Worse signals -/

/-- The thermal ceiling is no higher; no ceiling is infinite. -/
def NoHigher (i j : Option Nat) : Prop :=
  ∀ t, i = some t → ∃ u, j = some u ∧ u ≤ t

/-- The second signals are at least as bad as the first, outside of a burst. -/
structure Worse (i j : ArbitrationInputs) : Prop where
  notBurst : i.burst ≠ .burst ∧ j.burst ≠ .burst
  current : j.currentBps ≤ i.currentBps
  loss : i.lossRate ≤ j.lossRate
  delay : i.delayGradientMs ≤ j.delayGradientMs
  sustained : i.burst = .sustained → j.burst = .sustained
  hysteresis : j.hysteresisElapsed = true → i.hysteresisElapsed = true
  target : j.targetLossRate = i.targetLossRate
  floor : j.minBps = i.minBps
  hardMax : j.hardMaxBps ≤ i.hardMaxBps
  thermal : NoHigher i.thermalCeilingBps j.thermalCeilingBps

variable {i j : ArbitrationInputs}

theorem Worse.lossCap_le
    (h : Worse i j) :
    (lossCap j).mag ≤ (lossCap i).mag := by
  have hbounds := lossCap_bounds j
  obtain ⟨-, ⟨-, -, -, h95, -, -⟩, -⟩ := factors_finite
  have hmid : (f64 80 100).mag ≤ (f64 95 100).mag :=
    f64_mag_mono (by decide) (by decide) (by decide)
  have hhigh : f64 5 100 < i.lossRate → f64 5 100 < j.lossRate :=
    fun hi => Flt.lt_of_lt_of_le hi h.loss
  have htarget : i.targetLossRate < i.lossRate → j.targetLossRate < j.lossRate := by
    intro hi
    rw [h.target]
    exact Flt.lt_of_lt_of_le hi h.loss
  unfold lossCap at hbounds ⊢
  by_cases hi5 : f64 5 100 < i.lossRate
  · rw [if_pos hi5, if_pos (hhigh hi5)]
  · rw [if_neg hi5]
    by_cases hit : i.targetLossRate < i.lossRate
    · rw [if_pos hit, if_pos (htarget hit)]
      split_ifs <;> omega
    · rw [if_neg hit]
      exact hbounds.2

theorem Worse.delayCap_le
    (h : Worse i j) :
    (delayCap j).mag ≤ (delayCap i).mag := by
  have hbounds := delayCap_bounds j
  unfold delayCap at hbounds ⊢
  by_cases hi : f64 2 1 < i.delayGradientMs
  · rw [if_pos hi, if_pos (Flt.lt_of_lt_of_le hi h.delay)]
  · rw [if_neg hi]
    exact hbounds.2

theorem Worse.backOff_le
    (h : Worse i j) :
    (backOff j).1.mag ≤ (backOff i).1.mag := by
  have hloss := h.lossCap_le
  have hdelay := h.delayCap_le
  have hlow := (backOff_bounds i).1
  rw [(backOff_mag j).2]
  by_cases hj : j.burst = .sustained
  · rw [if_pos hj]
    exact hlow
  · have hi : i.burst ≠ .sustained := fun hi => hj (h.sustained hi)
    rw [if_neg hj, (backOff_mag i).2, if_neg hi]
    exact Nat.le_min.mpr
      ⟨Nat.le_trans (Nat.min_le_left _ _) hloss, Nat.le_trans (Nat.min_le_right _ _) hdelay⟩

/-- Worse signals do not get a larger multiplier, an increase included. -/
theorem Worse.multiplier_le
    (h : Worse i j) :
    (networkDecision j).1.mag ≤ (networkDecision i).1.mag := by
  have hle := h.backOff_le
  obtain ⟨-, ⟨-, -, -, -, h105, -⟩, -⟩ := factors_finite
  have hhigh := (backOff_bounds j).2
  have hone : (f64 1 1).Nonneg := f64_nonneg 1 1
  by_cases hj : f64 1 1 ≤ (backOff j).1 ∧ j.hysteresisElapsed ∧ j.lossRate < f64 1 100
  · -- what allows the second an increase allows it to the first as well
    have hi : f64 1 1 ≤ (backOff i).1 ∧ i.hysteresisElapsed ∧ i.lossRate < f64 1 100 := by
      obtain ⟨hbackOff, hhysteresis, hloss⟩ := hj
      rw [hone.le_iff (backOff_mag j).1] at hbackOff
      refine ⟨?_, h.hysteresis hhysteresis, Flt.lt_of_le_of_lt h.loss hloss⟩
      rw [hone.le_iff (backOff_mag i).1]
      omega
    have hdecision : ∀ k : ArbitrationInputs,
        (f64 1 1 ≤ (backOff k).1 ∧ k.hysteresisElapsed ∧ k.lossRate < f64 1 100) →
        (networkDecision k).1 = f64 105 100 := by
      intro k hk
      rw [networkDecision, if_pos hk]
    rw [hdecision i hi, hdecision j hj]
  · have hdecision : (networkDecision j).1 = (backOff j).1 := by
      rw [networkDecision, if_neg hj]
    rw [hdecision]
    unfold networkDecision
    simp only
    split_ifs
    · exact Nat.le_of_lt (Nat.lt_of_le_of_lt hhigh h105)
    · exact hle

theorem clampWithThermal_mono
    {a b floor hardMax hardMax' : Nat} {thermal thermal' : Option Nat} (hab : a ≤ b)
    (hmax : hardMax ≤ hardMax') (hthermal : NoHigher thermal' thermal) :
    clampWithThermal a floor hardMax thermal ≤ clampWithThermal b floor hardMax' thermal' := by
  have heffective : effectiveMax hardMax thermal ≤ effectiveMax hardMax' thermal' := by
    have hself : effectiveMax hardMax thermal ≤ hardMax := by
      cases thermal with
      | none => exact Nat.le_refl _
      | some t => exact Nat.min_le_left _ _
    cases thermal' with
    | none => exact Nat.le_trans hself hmax
    | some t =>
        obtain ⟨u, rfl, hu⟩ := hthermal t rfl
        exact Nat.le_min.mpr
          ⟨Nat.le_trans hself hmax, Nat.le_trans (Nat.min_le_right _ _) hu⟩
  unfold clampWithThermal
  omega

/--
**Arbitration is monotone.**  A worse network, a hotter GPU or a lower setting never
gives a higher target.
-/
theorem arbitrate_monotone
    (h : Worse i j) :
    (arbitrate j).targetBps ≤ (arbitrate i).targetBps := by
  obtain ⟨-, ⟨-, -, -, -, -, hfinite⟩, -⟩ := factors_finite
  obtain ⟨hi, hipos, hile⟩ := networkDecision_bounds i
  obtain ⟨hj, hjpos, -⟩ := networkDecision_bounds j
  have hcurrent : ∀ n : Nat, (Flt.ofNat n : F64).Nonneg := fun n => Flt.nonneg_ofRatio n 1
  have hkf := Nat.lt_of_le_of_lt hile hfinite
  have hmul := Flt.mul_mag_mono (hcurrent _) (hcurrent _) (Flt.ofNat_mag_mono h.current)
    hj.1 hi.1 hjpos h.multiplier_le hkf
  have hni := (hcurrent i.currentBps).mul hi.1 hipos hkf
  have hnj := (hcurrent j.currentBps).mul hj.1 hjpos
    (Nat.lt_of_le_of_lt h.multiplier_le hkf)
  have hcandidate := Flt.toUnsigned_mono 64 hnj.1 hni.1 hni.2 hmul
  unfold arbitrate
  simp only [if_neg h.notBurst.1, if_neg h.notBurst.2, h.floor]
  exact clampWithThermal_mono hcandidate h.hardMax h.thermal

/-- A cool link with little loss, and the same link hotter and lossier. -/
def coolInputs : ArbitrationInputs :=
  { currentBps := 60000000
    lossRate := f64 0 1
    delayGradientMs := f64 0 1
    burst := .none
    hysteresisElapsed := true
    targetLossRate := f64 2 100
    minBps := 10000000
    hardMaxBps := 80000000
    thermalCeilingBps := none }

def hotInputs : ArbitrationInputs :=
  { coolInputs with
    lossRate := f64 3 100
    delayGradientMs := f64 4 1
    burst := .sustained
    thermalCeilingBps := some 56000000 }

theorem arbitrate_monotone_hot :
    Worse coolInputs hotInputs ∧
      (arbitrate hotInputs).targetBps ≤ (arbitrate coolInputs).targetBps := by
  have hworse : Worse coolInputs hotInputs :=
    { notBurst := by decide
      current := Nat.le_refl _
      loss := Flt.ofRatio_le (by decide) (by decide) (by decide)
      delay := Flt.ofRatio_le (by decide) (by decide) (by decide)
      sustained := fun _ => rfl
      hysteresis := id
      target := rfl
      floor := rfl
      hardMax := Nat.le_refl _
      thermal := fun t ht => absurd ht (by simp [coolInputs]) }
  exact ⟨hworse, arbitrate_monotone hworse⟩

/-! ### Candidates -/

section Candidates

variable {c : Nat} {m : F64}

/-- A multiplier of at most 1 does not raise the bitrate. -/
theorem candidate_le
    (hc : c ≤ 2 ^ 31) (hm : m.Nonneg) (hle : m.mag ≤ (f64 1 1).mag) :
    (Flt.mul (Flt.ofNat c) m).toUnsigned 64 ≤ c := by
  obtain ⟨hfinite, hone⟩ := @units_f64 1 (by decide)
  have hunits := FloatFormat.units_mono ⟨52, 11⟩ hle
  change _ ≤ FloatFormat.units ⟨52, 11⟩ (Flt.ofNat 1 : F64).mag at hunits
  rw [hone, Nat.one_mul] at hunits
  have hc' : c < 2 ^ (52 + 1) := by omega
  exact Flt.toUnsigned_mul_ofNat_le (by decide) hc' hc' (by omega) hm.1
    (Nat.lt_of_le_of_lt hle hfinite) (Nat.mul_le_mul_left c hunits)

/-- A multiplier of 1 keeps the bitrate. -/
theorem le_candidate
    (hc : c ≤ 2 ^ 31) (hm : m.Nonneg) (heq : m.mag = (f64 1 1).mag) :
    c ≤ (Flt.mul (Flt.ofNat c) m).toUnsigned 64 := by
  obtain ⟨hfinite, hone⟩ := @units_f64 1 (by decide)
  have hmag : m.mag = (Flt.ofNat 1 : F64).mag := heq
  have hc' : c < 2 ^ (52 + 1) := by omega
  refine Flt.le_toUnsigned_mul_ofNat (by decide) hc' hc' (by omega) hm.1
    (by rw [hmag]; exact hfinite) ?_
  rw [hmag, hone, Nat.one_mul]

/-- The increase raises every bitrate from the floor on. -/
theorem candidate_increase
    (hlow : 10000000 ≤ c) (hc : c < 2 ^ 31) :
    c + 1 ≤ (Flt.mul (Flt.ofNat c) (f64 105 100)).toUnsigned 64 := by
  obtain ⟨-, ⟨-, -, -, -, -, hfinite⟩, hincrease, -⟩ := factors_finite
  refine Flt.le_toUnsigned_mul_ofNat (by decide) (show c < 2 ^ (52 + 1) by omega)
    (show c + 1 < 2 ^ (52 + 1) by omega) (by omega) rfl hfinite ?_
  generalize FloatFormat.units ⟨52, 11⟩ (f64 105 100).mag = x at hincrease ⊢
  generalize 2 ^ FloatFormat.unit ⟨52, 11⟩ = u at hincrease ⊢
  have hxu : u ≤ x := by omega
  obtain ⟨d, rfl⟩ := Nat.exists_eq_add_of_le hxu
  have hd : u ≤ 10000000 * d := by omega
  calc (c + 1) * u = c * u + u := by ring
    _ ≤ c * u + c * d := Nat.add_le_add_left (Nat.le_trans hd (Nat.mul_le_mul_right d hlow)) _
    _ = c * (u + d) := by ring

/-- A multiplier below 1 lowers every bitrate from the floor on. -/
theorem candidate_lt
    (hlow : 10000000 ≤ c) (hc : c ≤ 2 ^ 31) (hm : m.Nonneg)
    (hle : m.mag ≤ (f64 95 100).mag) :
    (Flt.mul (Flt.ofNat c) m).toUnsigned 64 ≤ c - 1 := by
  obtain ⟨-, ⟨-, -, -, h95, h105, hfinite⟩, -, hdecrease⟩ := factors_finite
  have hunits := FloatFormat.units_mono ⟨52, 11⟩ hle
  refine Flt.toUnsigned_mul_ofNat_le (by decide) (show c < 2 ^ (52 + 1) by omega)
    (show c - 1 < 2 ^ (52 + 1) by omega) (by omega) hm.1 (by omega) ?_
  generalize FloatFormat.units ⟨52, 11⟩ (f64 95 100).mag = x at hdecrease hunits
  generalize FloatFormat.units ⟨52, 11⟩ m.mag = y at hunits ⊢
  generalize 2 ^ FloatFormat.unit ⟨52, 11⟩ = u at hdecrease ⊢
  have hyu : y ≤ u := by omega
  obtain ⟨d, rfl⟩ := Nat.exists_eq_add_of_le hyu
  obtain ⟨k, rfl⟩ := Nat.exists_eq_add_of_le (Nat.le_trans (by decide : 1 ≤ 10000000) hlow)
  have hd : y + d ≤ 10000000 * d := by omega
  have hk : y + d ≤ (1 + k) * d := Nat.le_trans hd (Nat.mul_le_mul_right d hlow)
  rw [Nat.add_sub_cancel_left]
  calc (1 + k) * y = k * y + y := by ring
    _ ≤ k * y + k * d := by
        rw [Nat.add_mul, Nat.one_mul] at hk
        omega
    _ = k * (y + d) := by ring

end Candidates

/-! ### When the target differs -/

namespace ArbitrationInputs

/-- The link is good enough for an increase. -/
structure Increases (i : ArbitrationInputs) : Prop where
  burst : i.burst = .none
  delay : ¬ f64 2 1 < i.delayGradientMs
  loss : i.lossRate < f64 1 100
  hysteresis : i.hysteresisElapsed = true

instance (i : ArbitrationInputs) : Decidable i.Increases :=
  decidable_of_iff (i.burst = .none ∧ ¬ f64 2 1 < i.delayGradientMs ∧
    i.lossRate < f64 1 100 ∧ i.hysteresisElapsed = true)
    ⟨fun h => ⟨h.1, h.2.1, h.2.2.1, h.2.2.2⟩, fun h => ⟨h.burst, h.delay, h.loss, h.hysteresis⟩⟩

/-- There is a reason to back off. -/
def BacksOff (i : ArbitrationInputs) : Prop :=
  i.burst = .sustained ∨ (i.burst = .none ∧
    (f64 2 1 < i.delayGradientMs ∨ f64 5 100 < i.lossRate ∨ i.targetLossRate < i.lossRate))

instance (i : ArbitrationInputs) : Decidable i.BacksOff :=
  inferInstanceAs (Decidable (_ ∨ _))

section Signals

variable {i : ArbitrationInputs} (htarget : i.targetLossRate = f64 2 100)

include htarget in
theorem Increases.caps
    (h : i.Increases) :
    lossCap i = f64 1 1 ∧ delayCap i = f64 1 1 := by
  have hle5 : i.lossRate ≤ f64 5 100 :=
    Flt.le_trans (Flt.le_of_lt h.loss) (Flt.ofRatio_le (by decide) (by decide) (by decide))
  have hle2 : i.lossRate ≤ f64 2 100 :=
    Flt.le_trans (Flt.le_of_lt h.loss) (Flt.ofRatio_le (by decide) (by decide) (by decide))
  unfold lossCap delayCap
  rw [htarget, if_neg (Flt.not_lt_of_le hle5), if_neg (Flt.not_lt_of_le hle2), if_neg h.delay]
  exact ⟨rfl, rfl⟩

include htarget in
theorem Increases.networkDecision
    (h : i.Increases) :
    (networkDecision i).1 = f64 105 100 := by
  obtain ⟨hloss, hdelay⟩ := h.caps htarget
  have hmag : (backOff i).1.mag = (f64 1 1).mag := by
    rw [(backOff_mag i).2, if_neg (by rw [h.burst]; decide), hloss, hdelay]
    exact Nat.min_self _
  have hone : f64 1 1 ≤ (backOff i).1 := by
    rw [(f64_nonneg 1 1).le_iff (backOff_mag i).1, hmag]
  rw [Engine.networkDecision, if_pos ⟨hone, h.hysteresis, h.loss⟩]

/-- Only the increase is more than what the reasons to back off leave. -/
theorem networkDecision_eq_backOff
    (hburst : i.burst ≠ .burst) (h : ¬ i.Increases) :
    networkDecision i = backOff i := by
  obtain ⟨-, ⟨-, h80, h90, -, -, -⟩, -⟩ := factors_finite
  unfold Engine.networkDecision
  simp only
  rw [if_neg]
  rintro ⟨hone, hhysteresis, hloss⟩
  rw [(f64_nonneg 1 1).le_iff (backOff_mag i).1, (backOff_mag i).2] at hone
  split_ifs at hone with hsustained
  · exact absurd hone (Nat.not_le.mpr h80)
  · refine h ⟨?_, ?_, hloss, hhysteresis⟩
    · cases hpattern : i.burst with
      | none => rfl
      | burst => exact absurd hpattern hburst
      | sustained => exact absurd hpattern hsustained
    · intro hdelay
      have hcap : delayCap i = f64 90 100 := if_pos hdelay
      rw [hcap] at hone
      have hle := Nat.le_trans hone (Nat.min_le_right _ _)
      exact absurd hle (Nat.not_le.mpr h90)

include htarget in
theorem BacksOff.not_increases
    (h : i.BacksOff) :
    ¬ i.Increases := by
  intro hincreases
  obtain ⟨hloss, -⟩ := hincreases.caps htarget
  obtain ⟨-, ⟨-, h80, -, h95, -, -⟩, -⟩ := factors_finite
  rcases h with hsustained | ⟨-, hdelay | hhigh | hmid⟩
  · rw [hincreases.burst] at hsustained
    exact absurd hsustained (by decide)
  · exact hincreases.delay hdelay
  · rw [lossCap, if_pos hhigh] at hloss
    rw [hloss] at h80
    exact Nat.lt_irrefl _ h80
  · have hle : i.lossRate ≤ i.targetLossRate := by
      rw [htarget]
      exact Flt.le_trans (Flt.le_of_lt hincreases.loss)
        (Flt.ofRatio_le (by decide) (by decide) (by decide))
    exact Flt.not_lt_of_le hle hmid

theorem BacksOff.backOff_le
    (h : i.BacksOff) :
    (backOff i).1.mag ≤ (f64 95 100).mag := by
  have h80 : (f64 80 100).mag ≤ (f64 95 100).mag :=
    f64_mag_mono (by decide) (by decide) (by decide)
  have h90 : (f64 90 100).mag ≤ (f64 95 100).mag :=
    f64_mag_mono (by decide) (by decide) (by decide)
  rw [(backOff_mag i).2]
  rcases h with hsustained | ⟨hnone, hdelay | hhigh | hmid⟩
  · rw [if_pos hsustained]
    exact h80
  · rw [if_neg (by rw [hnone]; decide), delayCap, if_pos hdelay]
    exact Nat.le_trans (Nat.min_le_right _ _) h90
  · rw [if_neg (by rw [hnone]; decide), lossCap, if_pos hhigh]
    exact Nat.le_trans (Nat.min_le_left _ _) h80
  · rw [if_neg (by rw [hnone]; decide), lossCap, if_pos hmid]
    refine Nat.le_trans (Nat.min_le_left _ _) ?_
    split_ifs
    · exact h80
    · exact Nat.le_refl _

theorem backOff_eq_one
    (hburst : i.burst ≠ .burst) (h : ¬ i.BacksOff) :
    (backOff i).1.mag = (f64 1 1).mag := by
  rw [BacksOff, not_or, not_and] at h
  obtain ⟨hsustained, hrest⟩ := h
  have hnone : i.burst = .none := by
    cases hpattern : i.burst with
    | none => rfl
    | burst => exact absurd hpattern hburst
    | sustained => exact absurd hpattern hsustained
  have hsignals := hrest hnone
  rw [not_or, not_or] at hsignals
  rw [(backOff_mag i).2, if_neg hsustained, lossCap, delayCap, if_neg hsignals.1,
    if_neg hsignals.2.1, if_neg hsignals.2.2]
  exact Nat.min_self _

end Signals

/-- A current bitrate within its bounds. -/
structure InBounds (i : ArbitrationInputs) : Prop where
  target : i.targetLossRate = f64 2 100
  floor : i.minBps = 10000000
  low : 10000000 ≤ i.currentBps
  high : i.currentBps ≤ max 10000000 (effectiveMax i.hardMaxBps i.thermalCeilingBps)
  small : i.currentBps ≤ 200000000

variable {i : ArbitrationInputs}

/-- In bounds, the target is the current bitrate, a higher or a lower one. -/
theorem InBounds.target_cases
    (h : i.InBounds) :
    let c := i.currentBps
    let top := effectiveMax i.hardMaxBps i.thermalCeilingBps
    let target := (arbitrate i).targetBps
    10000000 ≤ target ∧ target ≤ max 10000000 top ∧
      (c < target ↔ i.Increases ∧ c < top) ∧
      (target < c ↔ i.BacksOff ∧ 10000000 < c) := by
  intro c top target
  have hlow : 10000000 ≤ c := h.low
  have hhigh : c ≤ max 10000000 top := h.high
  have hsmall : c ≤ 200000000 := h.small
  by_cases hburst : i.burst = .burst
  · have htarget : target = max (min c top) 10000000 := by
      simp only [target, arbitrate, if_pos hburst, clampWithThermal, h.floor]
      rfl
    have hnotIncrease : ¬ i.Increases := by
      intro hi
      rw [hi.burst] at hburst
      exact absurd hburst (by decide)
    have hnotBack : ¬ i.BacksOff := by
      rintro (hs | ⟨hn, -⟩)
      · rw [hs] at hburst
        exact absurd hburst (by decide)
      · rw [hn] at hburst
        exact absurd hburst (by decide)
    rw [htarget]
    refine ⟨by omega, by omega, ?_, ?_⟩
    · exact iff_of_false (by omega) (fun hi => hnotIncrease hi.1)
    · exact iff_of_false (by omega) (fun hb => hnotBack hb.1)
  · generalize hcandidate :
      (Flt.mul (Flt.ofNat c) (networkDecision i).1).toUnsigned 64 = candidate
    have htarget : target = max (min candidate top) 10000000 := by
      simp only [target, arbitrate, if_neg hburst, clampWithThermal, h.floor]
      rw [← hcandidate]
    rw [htarget]
    refine ⟨by omega, by omega, ?_⟩
    by_cases hincreases : i.Increases
    · have hcandidateLt : c + 1 ≤ candidate := by
        rw [← hcandidate, hincreases.networkDecision h.target]
        exact candidate_increase hlow (by omega)
      have hnotBack : ¬ i.BacksOff := fun hb => hb.not_increases h.target hincreases
      refine ⟨⟨fun hlt => ⟨hincreases, by omega⟩, fun ht => by omega⟩, ?_⟩
      exact iff_of_false (by omega) (fun hb => hnotBack hb.1)
    · have hsame := networkDecision_eq_backOff hburst hincreases
      rw [hsame] at hcandidate
      have hle : candidate ≤ c := by
        rw [← hcandidate]
        exact candidate_le (by omega) (backOff_mag i).1 (backOff_bounds i).2
      refine ⟨iff_of_false (by omega) (fun hi => hincreases hi.1), ?_⟩
      by_cases hback : i.BacksOff
      · have hlt : candidate ≤ c - 1 := by
          rw [← hcandidate]
          exact candidate_lt hlow (by omega) (backOff_mag i).1 hback.backOff_le
        refine ⟨fun ht => ⟨hback, by omega⟩, fun ht => by omega⟩
      · have heq : c ≤ candidate := by
          rw [← hcandidate]
          exact le_candidate (by omega) (backOff_mag i).1 (backOff_eq_one hburst hback)
        exact iff_of_false (by omega) (fun hb => hback hb.1)

end ArbitrationInputs

end Engine
end FocusVision
