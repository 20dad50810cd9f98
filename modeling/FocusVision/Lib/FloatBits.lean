import FocusVision.Lib.Bytes
import FocusVision.Lib.FloatMean

/-!
# The bits of a float

The bits of a float as one number, which is what a message carries, and the rounding
to an integer, away from zero at a half.
-/

namespace FocusVision
namespace Flt

open FloatFormat

variable {F : FloatFormat}

/-- `to_bits`: the sign is the highest bit. -/
def toBits (x : Flt F) : Nat :=
  (if x.neg then 2 ^ (F.fraction + F.exponent) else 0) + x.mag

/-- `from_bits`. -/
def ofBits (F : FloatFormat) (bits : Nat) : Flt F :=
  ⟨decide (2 ^ (F.fraction + F.exponent) ≤ bits), bits % 2 ^ (F.fraction + F.exponent),
    Nat.mod_lt _ (Nat.two_pow_pos _)⟩

/-- `round`: to the nearest integer, and away from zero at a half. -/
def roundHalfAway (x : Flt F) : Flt F :=
  if x.isNaN || x.isInfinite then x
  else
    round x.neg ((2 * F.units x.mag + 2 ^ F.unit) / (2 * 2 ^ F.unit) * 2 ^ F.unit) 1

theorem toBits_lt
    (x : Flt F) :
    x.toBits < 2 ^ (F.fraction + F.exponent + 1) := by
  have hmag := x.mag_lt
  unfold toBits
  rw [Nat.pow_succ]
  split
  · omega
  · omega

@[simp] theorem ofBits_toBits
    (x : Flt F) :
    ofBits F x.toBits = x := by
  obtain ⟨neg, mag, hmag⟩ := x
  cases neg with
  | false =>
      have hsign : ¬2 ^ (F.fraction + F.exponent) ≤ mag := Nat.not_le.mpr hmag
      simp [ofBits, toBits, hsign, Nat.mod_eq_of_lt hmag]
  | true => simp [ofBits, toBits, Nat.mod_eq_of_lt hmag]

end Flt

open Bytes

/-- `f32::to_le_bytes`. -/
def f32Bytes (x : F32) : List UInt8 :=
  leBytes 4 x.toBits

@[simp] theorem length_f32Bytes
    (x : F32) :
    (f32Bytes x).length = 4 :=
  length_leBytes 4 _

@[simp] theorem ofBits_f32Bytes
    (x : F32) :
    Flt.ofBits ⟨23, 8⟩ (ofLeBytes (f32Bytes x)) = x := by
  have hlt : x.toBits < 256 ^ 4 := x.toBits_lt
  rw [f32Bytes, ofLeBytes_leBytes hlt, Flt.ofBits_toBits]

end FocusVision
