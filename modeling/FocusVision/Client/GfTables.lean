import Mathlib.Algebra.CharP.Two
import Mathlib.Algebra.Field.Basic
import Mathlib.Algebra.Polynomial.Div
import Mathlib.Data.Fintype.Card
import Mathlib.Data.Nat.Bitwise
import Mathlib.Data.ZMod.Basic
import Mathlib.Logic.Function.Iterate
import Mathlib.Tactic

/-!
# GF(2^8) tables of the client's FEC decoder

`initGfTables` in `fec_decoder.cpp` fills an exponential and a logarithm table
from the powers of `x` modulo `0x11d`; `gfMul`, `gfInv` and `gfPow` only look
things up in them.

The two tables are followed through the filling loops instead of being
evaluated: after `k` rounds they hold the first `k` powers.  That the tables
form a field then needs three facts about multiplication by `x` on bytes: it is
injective, it is linear over `xor`, and no power below the 255th is `1`.

`gfMul` is the product of polynomials over GF(2) modulo `0x11d` (`polynomial_gfMul`).
`GF256` is the byte type with these operations; its `Field` instance is what the
matrix code of the decoder computes in.
-/

namespace FocusVision
namespace Gf

/-- Multiplication by `x`: `x <<= 1; if (x & 0x100) x ^= 0x11d`. -/
def xtime (x : Nat) : Nat :=
  if (x <<< 1) &&& 0x100 ≠ 0 then (x <<< 1) ^^^ 0x11d else x <<< 1

/-- The file-scope tables `s_gfExp[512]` and `s_gfLog[256]`. -/
structure GfTables where
  gfExp : Nat → UInt8
  gfLog : Nat → UInt8

/-- One round of the first loop of `initGfTables`. -/
def fillRound (s : Nat × GfTables) (i : Nat) : Nat × GfTables :=
  (xtime s.1,
    { gfExp := Function.update s.2.gfExp i (UInt8.ofNat s.1)
      gfLog := Function.update s.2.gfLog s.1 (UInt8.ofNat i) })

/-- One round of the second loop: `s_gfExp[i] = s_gfExp[i - 255]`. -/
def wrapRound (e : Nat → UInt8) (i : Nat) : Nat → UInt8 :=
  Function.update e i (e (i - 255))

/-- The tables after the first loop of `initGfTables`. -/
def fillTables : GfTables :=
  ((List.range 255).foldl fillRound (1, ⟨fun _ => 0, fun _ => 0⟩)).2

/-- The tables after `initGfTables`. -/
def initGfTables : GfTables where
  gfExp := (List.range' 255 257).foldl wrapRound fillTables.gfExp
  gfLog := Function.update fillTables.gfLog 0 0

/-- Product of two bytes by table lookup. -/
def gfMul (a b : UInt8) : UInt8 :=
  if a = 0 ∨ b = 0 then 0
  else
    initGfTables.gfExp
      ((initGfTables.gfLog a.toNat).toNat + (initGfTables.gfLog b.toNat).toNat)

/-- Inverse of a byte by table lookup; `0` for `0`. -/
def gfInv (a : UInt8) : UInt8 :=
  if a = 0 then 0
  else initGfTables.gfExp (255 - (initGfTables.gfLog a.toNat).toNat)

/-- Power of a byte by table lookup. -/
def gfPow (a : UInt8) (n : Nat) : UInt8 :=
  if n = 0 then 1
  else if a = 0 then 0
  else initGfTables.gfExp (((initGfTables.gfLog a.toNat).toNat * n) % 255)

/-- The powers of `x`, as the first loop runs through them. -/
def alpha : Nat → Nat
  | 0 => 1
  | k + 1 => xtime (alpha k)

section Xtime

theorem and_256_ne_zero_iff (x : Nat) :
    (x <<< 1) &&& 0x100 ≠ 0 ↔ x.testBit 7 = true := by
  have h : ((x <<< 1) &&& 2 ^ 8) = ((x <<< 1).testBit 8).toNat * 2 ^ 8 :=
    Nat.and_two_pow _ 8
  have hb : (x <<< 1).testBit 8 = x.testBit 7 := by
    simp [Nat.testBit_shiftLeft]
  rw [show (0x100 : Nat) = 2 ^ 8 by norm_num, h, hb]
  cases x.testBit 7 <;> simp

theorem xtime_eq (x : Nat) :
    xtime x = (x <<< 1) ^^^ (if x.testBit 7 then 0x11d else 0) := by
  unfold xtime
  by_cases h : x.testBit 7 = true
  · rw [if_pos ((and_256_ne_zero_iff x).mpr h), if_pos h]
  · rw [if_neg (fun hx => h ((and_256_ne_zero_iff x).mp hx)), if_neg h]
    simp

/-- Multiplication by `x` is linear over `xor`. -/
theorem xtime_xor (a b : Nat) :
    xtime (a ^^^ b) = xtime a ^^^ xtime b := by
  simp only [xtime_eq, Nat.testBit_xor, Nat.shiftLeft_xor_distrib]
  cases a.testBit 7 <;> cases b.testBit 7 <;>
    simp [Nat.xor_assoc, Nat.xor_left_comm, Nat.xor_comm]

theorem xtime_lt {x : Nat} (hx : x < 256) : xtime x < 256 := by
  revert x
  decide +kernel

theorem xtime_injOn :
    ∀ a < 256, ∀ b < 256, xtime a = xtime b → a = b := by
  have hzero : ∀ c < 256, xtime c = 0 → c = 0 := by decide +kernel
  intro a ha b hb h
  have hx : xtime (a ^^^ b) = 0 := by
    rw [xtime_xor, h, Nat.xor_self]
  have hlt : a ^^^ b < 2 ^ 8 := Nat.xor_lt_two_pow (n := 8) ha hb
  exact Nat.xor_eq_zero_iff.mp (hzero _ hlt hx)

theorem alpha_lt (k : Nat) : alpha k < 256 := by
  induction k with
  | zero => decide
  | succ k ih => exact xtime_lt ih

theorem alpha_ne_zero (k : Nat) : alpha k ≠ 0 := by
  induction k with
  | zero => decide
  | succ k ih =>
      intro h
      exact ih (xtime_injOn _ (alpha_lt k) 0 (by decide)
        (by rw [show xtime 0 = 0 by decide]; exact h))

theorem alpha_255 : alpha 255 = 1 := by decide +kernel

theorem alpha_ne_one : ∀ k < 255, 0 < k → alpha k ≠ 1 := by decide +kernel

theorem alpha_add_255 (k : Nat) : alpha (k + 255) = alpha k := by
  induction k with
  | zero => rw [Nat.zero_add, alpha_255, alpha]
  | succ k ih =>
      rw [Nat.add_right_comm]
      exact congrArg xtime ih

theorem alpha_mod (k : Nat) : alpha (k % 255) = alpha k := by
  induction k using Nat.strong_induction_on with
  | _ k ih =>
      by_cases hk : k < 255
      · rw [Nat.mod_eq_of_lt hk]
      · obtain ⟨j, rfl⟩ : ∃ j, k = j + 255 := ⟨k - 255, by omega⟩
        rw [alpha_add_255, Nat.add_mod_right]
        exact ih j (by omega)

theorem alpha_sub_eq_one :
    ∀ {i j : Nat}, i ≤ j → alpha i = alpha j → alpha (j - i) = 1
  | 0, j, _, h => by simpa [alpha] using h.symm
  | i + 1, 0, hij, _ => absurd hij (by omega)
  | i + 1, j + 1, hij, h => by
      have hpred : alpha i = alpha j :=
        xtime_injOn _ (alpha_lt i) _ (alpha_lt j) h
      have := alpha_sub_eq_one (by omega : i ≤ j) hpred
      rwa [Nat.add_sub_add_right]

theorem alpha_injOn {i j : Nat} (hi : i < 255) (hj : j < 255)
    (h : alpha i = alpha j) : i = j := by
  by_contra hne
  rcases Nat.lt_or_gt_of_ne hne with hlt | hlt
  · exact alpha_ne_one (j - i) (by omega) (by omega)
      (alpha_sub_eq_one hlt.le h)
  · exact alpha_ne_one (i - j) (by omega) (by omega)
      (alpha_sub_eq_one hlt.le h.symm)

/-- Every nonzero byte is one of the first 255 powers. -/
theorem exists_alpha_eq {a : Nat} (ha : a < 256) (h0 : a ≠ 0) :
    ∃ k < 255, alpha k = a := by
  classical
  have hcard : ((Finset.range 255).image alpha).card = 255 := by
    rw [Finset.card_image_of_injOn, Finset.card_range]
    intro i hi j hj hij
    exact alpha_injOn (Finset.mem_range.mp hi) (Finset.mem_range.mp hj) hij
  have hsub : (Finset.range 255).image alpha ⊆ (Finset.range 256).erase 0 := by
    intro x hx
    obtain ⟨k, -, rfl⟩ := Finset.mem_image.mp hx
    exact Finset.mem_erase.mpr
      ⟨alpha_ne_zero k, Finset.mem_range.mpr (alpha_lt k)⟩
  have herase : ((Finset.range 256).erase 0).card = 255 := by
    rw [Finset.card_erase_of_mem (Finset.mem_range.mpr (by omega)),
      Finset.card_range]
  have heq :=
    Finset.eq_of_subset_of_card_le hsub (by rw [hcard, herase])
  have hmem : a ∈ (Finset.range 255).image alpha := by
    rw [heq]
    exact Finset.mem_erase.mpr ⟨h0, Finset.mem_range.mpr ha⟩
  obtain ⟨k, hk, rfl⟩ := Finset.mem_image.mp hmem
  exact ⟨k, Finset.mem_range.mp hk, rfl⟩

end Xtime

section Tables

/-- What the first loop has written after `k` rounds. -/
structure FilledTo (k : Nat) (s : Nat × GfTables) : Prop where
  cur : s.1 = alpha k
  exp : ∀ i < k, s.2.gfExp i = UInt8.ofNat (alpha i)
  log : ∀ i < k, s.2.gfLog (alpha i) = UInt8.ofNat i

theorem fillRound_filledTo {k : Nat} {s : Nat × GfTables}
    (hk : k < 255) (h : FilledTo k s) :
    FilledTo (k + 1) (fillRound s k) where
  cur := by simp [fillRound, alpha, h.cur]
  exp := by
    intro i hi
    rcases Nat.lt_succ_iff_lt_or_eq.mp hi with hlt | rfl
    · simp [fillRound, Function.update_of_ne (Nat.ne_of_lt hlt), h.exp i hlt]
    · simp [fillRound, h.cur]
  log := by
    intro i hi
    rcases Nat.lt_succ_iff_lt_or_eq.mp hi with hlt | rfl
    · have hne : alpha i ≠ alpha k := by
        intro he
        exact absurd (alpha_injOn (by omega) hk he) (Nat.ne_of_lt hlt)
      simp [fillRound, h.cur, Function.update_of_ne hne, h.log i hlt]
    · simp [fillRound, h.cur]

theorem foldl_fillRound_filledTo (s : Nat × GfTables) (h : FilledTo 0 s) :
    ∀ k ≤ 255, FilledTo k ((List.range k).foldl fillRound s)
  | 0, _ => h
  | k + 1, hk => by
      rw [List.range_succ, List.foldl_append]
      exact fillRound_filledTo (by omega)
        (foldl_fillRound_filledTo s h k (by omega))

theorem filledTo_255 :
    FilledTo 255
      ((List.range 255).foldl fillRound (1, ⟨fun _ => 0, fun _ => 0⟩)) :=
  foldl_fillRound_filledTo _
    ⟨rfl, fun _ hi => absurd hi (by omega), fun _ hi => absurd hi (by omega)⟩
    255 le_rfl

/-- The second loop extends the table periodically. -/
theorem foldl_wrapRound (e : Nat → UInt8)
    (he : ∀ i < 255, e i = UInt8.ofNat (alpha i)) :
    ∀ n i, i < 255 + n →
      (List.range' 255 n).foldl wrapRound e i = UInt8.ofNat (alpha i)
  | 0, i, hi => he i (by omega)
  | n + 1, i, hi => by
      rw [List.range'_concat, List.foldl_append]
      simp only [List.foldl_cons, List.foldl_nil, wrapRound, Nat.one_mul]
      by_cases hin : i = 255 + n
      · subst hin
        rw [Function.update_self, foldl_wrapRound e he n _ (by omega)]
        rw [show 255 + n - 255 = n by omega, Nat.add_comm 255 n, alpha_add_255]
      · rw [Function.update_of_ne hin]
        exact foldl_wrapRound e he n i (by omega)

theorem gfExp_eq {i : Nat} (hi : i < 512) :
    initGfTables.gfExp i = UInt8.ofNat (alpha i) := by
  dsimp only [initGfTables]
  exact foldl_wrapRound fillTables.gfExp filledTo_255.exp 257 i (by omega)

theorem gfLog_alpha {i : Nat} (hi : i < 255) :
    initGfTables.gfLog (alpha i) = UInt8.ofNat i := by
  show Function.update _ 0 0 (alpha i) = _
  rw [Function.update_of_ne (alpha_ne_zero i)]
  exact filledTo_255.log i hi

end Tables

/-- The power of `x` with exponent `k`, as a byte. -/
def powX (k : Nat) : UInt8 :=
  UInt8.ofNat (alpha k)

theorem powX_toNat (k : Nat) : (powX k).toNat = alpha k := by
  simp [powX, Nat.mod_eq_of_lt (alpha_lt k)]

theorem powX_ne_zero (k : Nat) : powX k ≠ 0 := by
  intro h
  have := congrArg UInt8.toNat h
  rw [powX_toNat] at this
  exact alpha_ne_zero k this

theorem powX_mod (k : Nat) : powX (k % 255) = powX k := by
  simp [powX, alpha_mod]

theorem exists_powX_eq {a : UInt8} (ha : a ≠ 0) :
    ∃ k < 255, powX k = a := by
  have hne : a.toNat ≠ 0 := fun h => ha (UInt8.toNat_inj.mp (by simpa using h))
  obtain ⟨k, hk, he⟩ := exists_alpha_eq a.toNat_lt hne
  exact ⟨k, hk, by simp [powX, he]⟩

/-- The logarithm table inverts `powX`. -/
theorem gfLog_powX (k : Nat) :
    (initGfTables.gfLog (powX k).toNat).toNat = k % 255 := by
  rw [powX_toNat, ← alpha_mod, gfLog_alpha (Nat.mod_lt _ (by omega))]
  simp
  omega

theorem gfMul_powX (i j : Nat) :
    gfMul (powX i) (powX j) = powX (i + j) := by
  have hi := Nat.mod_lt i (show 255 > 0 by omega)
  have hj := Nat.mod_lt j (show 255 > 0 by omega)
  unfold gfMul
  rw [if_neg (by simp [powX_ne_zero]), gfLog_powX, gfLog_powX, gfExp_eq (by omega)]
  show powX (i % 255 + j % 255) = powX (i + j)
  rw [← powX_mod, ← Nat.add_mod, powX_mod]

theorem gfInv_powX (i : Nat) :
    gfMul (powX i) (gfInv (powX i)) = 1 := by
  have hi := Nat.mod_lt i (show 255 > 0 by omega)
  unfold gfInv
  rw [if_neg (powX_ne_zero i), gfLog_powX, gfExp_eq (by omega)]
  show gfMul (powX i) (powX (255 - i % 255)) = 1
  calc gfMul (powX i) (powX (255 - i % 255))
      = powX ((i + (255 - i % 255)) % 255) := by rw [gfMul_powX, powX_mod]
    _ = powX ((i % 255 + (255 - i % 255)) % 255) := by rw [Nat.mod_add_mod]
    _ = powX 0 := by rw [show i % 255 + (255 - i % 255) = 255 by omega]
    _ = 1 := rfl

@[simp] theorem gfMul_zero_left (a : UInt8) : gfMul 0 a = 0 := by
  simp [gfMul]

@[simp] theorem gfMul_zero_right (a : UInt8) : gfMul a 0 = 0 := by
  simp [gfMul]

/-- Multiplication by `x` on bytes. -/
def timesX (a : UInt8) : UInt8 :=
  UInt8.ofNat (xtime a.toNat)

theorem timesX_xor (a b : UInt8) :
    timesX (a ^^^ b) = timesX a ^^^ timesX b := by
  apply UInt8.toNat_inj.mp
  have ha := xtime_lt a.toNat_lt
  have hb := xtime_lt b.toNat_lt
  have hab : xtime a.toNat ^^^ xtime b.toNat < 2 ^ 8 :=
    Nat.xor_lt_two_pow (n := 8) ha hb
  simp only [timesX, UInt8.toNat_xor, xtime_xor, UInt8.toNat_ofNat']
  rw [Nat.mod_eq_of_lt ha, Nat.mod_eq_of_lt hb, Nat.mod_eq_of_lt hab]

theorem timesX_powX (k : Nat) : timesX (powX k) = powX (k + 1) := by
  rw [timesX, powX_toNat]
  rfl

theorem iterate_timesX_xor (k : Nat) (a b : UInt8) :
    timesX^[k] (a ^^^ b) = timesX^[k] a ^^^ timesX^[k] b := by
  induction k generalizing a b with
  | zero => rfl
  | succ k ih => simp only [Function.iterate_succ_apply, timesX_xor, ih]

/-- A product with a power of `x` is a repeated multiplication by `x`. -/
theorem gfMul_powX_eq_iterate (k : Nat) (b : UInt8) :
    gfMul (powX k) b = timesX^[k] b := by
  by_cases hb : b = 0
  · subst hb
    rw [gfMul_zero_right]
    induction k with
    | zero => rfl
    | succ k ih =>
        rw [Function.iterate_succ_apply, show timesX 0 = 0 by decide]
        exact ih
  · obtain ⟨j, -, rfl⟩ := exists_powX_eq hb
    rw [gfMul_powX]
    induction k generalizing j with
    | zero => simp
    | succ k ih =>
        rw [Function.iterate_succ_apply, timesX_powX, ← ih (j + 1) (powX_ne_zero _)]
        rw [show k + 1 + j = k + (j + 1) by omega]

theorem gfMul_comm (a b : UInt8) : gfMul a b = gfMul b a := by
  simp [gfMul, or_comm, Nat.add_comm]

theorem gfMul_assoc (a b c : UInt8) :
    gfMul (gfMul a b) c = gfMul a (gfMul b c) := by
  by_cases ha : a = 0
  · simp [ha]
  by_cases hb : b = 0
  · simp [hb]
  by_cases hc : c = 0
  · simp [hc]
  obtain ⟨i, -, rfl⟩ := exists_powX_eq ha
  obtain ⟨j, -, rfl⟩ := exists_powX_eq hb
  obtain ⟨k, -, rfl⟩ := exists_powX_eq hc
  simp only [gfMul_powX, Nat.add_assoc]

/-- Products distribute over `xor`. -/
theorem gfMul_xor (a b c : UInt8) :
    gfMul a (b ^^^ c) = gfMul a b ^^^ gfMul a c := by
  by_cases ha : a = 0
  · simp [ha]
  · obtain ⟨k, -, rfl⟩ := exists_powX_eq ha
    simp only [gfMul_powX_eq_iterate, iterate_timesX_xor]

theorem powX_zero : powX 0 = 1 := rfl

theorem gfMul_one_left (a : UInt8) : gfMul 1 a = a := by
  rw [← powX_zero, gfMul_powX_eq_iterate]
  rfl

theorem gfMul_gfInv {a : UInt8} (ha : a ≠ 0) : gfMul a (gfInv a) = 1 := by
  obtain ⟨k, -, rfl⟩ := exists_powX_eq ha
  exact gfInv_powX k

section Polynomials

open Polynomial

/-- The polynomial over GF(2) with the low nine bits as its coefficients. -/
noncomputable def polynomial (x : Nat) : (ZMod 2)[X] :=
  ∑ i ∈ Finset.range 9, if x.testBit i then X ^ i else 0

/-- The polynomial of `0x11d`. -/
noncomputable def modulus : (ZMod 2)[X] :=
  X ^ 8 + X ^ 4 + X ^ 3 + X ^ 2 + 1

theorem polynomial_modulus : polynomial 0x11d = modulus := by
  simp [polynomial, modulus, Finset.sum_range_succ, Nat.testBit, Nat.shiftRight_eq_div_pow]
  ring

theorem polynomial_zero : polynomial 0 = 0 := by
  simp [polynomial]

theorem polynomial_one : polynomial 1 = 1 := by
  simp [polynomial, Finset.sum_range_succ, Nat.testBit, Nat.shiftRight_eq_div_pow]

theorem polynomial_xor (x y : Nat) :
    polynomial (x ^^^ y) = polynomial x + polynomial y := by
  unfold polynomial
  rw [← Finset.sum_add_distrib]
  refine Finset.sum_congr rfl fun i _ => ?_
  rw [Nat.testBit_xor]
  cases x.testBit i <;> cases y.testBit i <;> simp [CharTwo.add_self_eq_zero]

theorem polynomial_coeff {x : Nat} (hx : x < 256) :
    ∀ n ≥ 8, (polynomial x).coeff n = 0 := by
  intro n hn
  unfold polynomial
  rw [finsetSum_coeff]
  refine Finset.sum_eq_zero fun i hi => ?_
  by_cases hbit : x.testBit i = true
  · have hlt : i < 8 := by
      by_contra hge
      rw [Nat.testBit_lt_two_pow (Nat.lt_of_lt_of_le hx
        (Nat.pow_le_pow_right Nat.two_pos (Nat.le_of_not_lt hge)))] at hbit
      exact absurd hbit (by decide)
    rw [if_pos hbit, coeff_X_pow, if_neg (by omega)]
  · rw [if_neg hbit, coeff_zero]

theorem polynomial_shiftLeft {x : Nat} (hx : x < 256) :
    polynomial (x <<< 1) = X * polynomial x := by
  have hbit : x.testBit 8 = false := Nat.testBit_lt_two_pow hx
  unfold polynomial
  rw [Finset.sum_range_succ', Finset.mul_sum, Finset.sum_range_succ _ 8, hbit]
  simp [Nat.testBit_shiftLeft, pow_succ', mul_ite]

/-- A step of the table's first loop multiplies by `X`, modulo `0x11d`. -/
theorem modulus_dvd_xtime {x : Nat} (hx : x < 256) :
    modulus ∣ polynomial (xtime x) - X * polynomial x := by
  rw [xtime_eq, polynomial_xor, polynomial_shiftLeft hx, add_sub_cancel_left]
  split
  · rw [polynomial_modulus]
  · rw [polynomial_zero]
    exact dvd_zero modulus

theorem modulus_dvd_iterate (k : Nat) (b : UInt8) :
    modulus ∣ polynomial (timesX^[k] b).toNat - X ^ k * polynomial b.toNat := by
  induction k generalizing b with
  | zero => simp
  | succ k ih =>
      have hfirst : modulus ∣ polynomial (timesX b).toNat - X * polynomial b.toNat := by
        rw [timesX, UInt8.toNat_ofNat', Nat.mod_eq_of_lt (xtime_lt b.toNat_lt)]
        exact modulus_dvd_xtime b.toNat_lt
      have hrest := ih (timesX b)
      have hsum := dvd_add hrest (dvd_mul_of_dvd_right hfirst (X ^ k))
      rw [Function.iterate_succ_apply]
      convert hsum using 1
      ring

theorem modulus_monic : modulus.Monic := by
  unfold modulus
  monicity!

theorem modulus_degree : modulus.degree = 8 := by
  unfold modulus
  compute_degree!

/-- The product by table lookup is the product of the polynomials modulo `0x11d`. -/
theorem polynomial_gfMul (a b : UInt8) :
    polynomial (gfMul a b).toNat = (polynomial a.toNat * polynomial b.toNat) %ₘ modulus := by
  have hdegree : (polynomial (gfMul a b).toNat).degree < modulus.degree := by
    rw [modulus_degree]
    exact (degree_lt_iff_coeff_zero _ 8).mpr (polynomial_coeff (gfMul a b).toNat_lt)
  rw [← (modByMonic_eq_self_iff modulus_monic).mpr hdegree]
  refine modByMonic_eq_of_dvd_sub modulus_monic ?_
  by_cases ha : a = 0
  · simp [ha, polynomial_zero]
  · obtain ⟨k, -, rfl⟩ := exists_powX_eq ha
    have hproduct := modulus_dvd_iterate k b
    have hpower := modulus_dvd_iterate k 1
    rw [← gfMul_powX_eq_iterate] at hproduct hpower
    rw [gfMul_comm, gfMul_one_left, UInt8.toNat_one, polynomial_one, mul_one] at hpower
    have hdiff := dvd_sub hproduct (dvd_mul_of_dvd_left hpower (polynomial b.toNat))
    convert hdiff using 1
    ring

end Polynomials
/-- Bytes as elements of GF(2^8). -/
@[ext] structure GF256 where
  byte : UInt8
deriving DecidableEq

namespace GF256

instance : Zero GF256 := ⟨⟨0⟩⟩
instance : One GF256 := ⟨⟨1⟩⟩
instance : Add GF256 := ⟨fun a b => ⟨a.byte ^^^ b.byte⟩⟩
instance : Neg GF256 := ⟨fun a => a⟩
instance : Mul GF256 := ⟨fun a b => ⟨gfMul a.byte b.byte⟩⟩
instance : Inv GF256 := ⟨fun a => ⟨gfInv a.byte⟩⟩

@[simp] theorem byte_zero : (0 : GF256).byte = 0 := rfl
@[simp] theorem byte_one : (1 : GF256).byte = 1 := rfl
@[simp] theorem byte_add (a b : GF256) : (a + b).byte = a.byte ^^^ b.byte := rfl
@[simp] theorem byte_neg (a : GF256) : (-a).byte = a.byte := rfl
@[simp] theorem byte_mul (a b : GF256) : (a * b).byte = gfMul a.byte b.byte := rfl
@[simp] theorem byte_inv (a : GF256) : (a⁻¹).byte = gfInv a.byte := rfl

/-- The tables form a field. -/
instance : Field GF256 where
  add_assoc a b c := by ext; simp [UInt8.xor_assoc]
  zero_add a := by ext; simp
  add_zero a := by ext; simp
  add_comm a b := by ext; simp [UInt8.xor_comm]
  neg_add_cancel a := by ext; simp
  nsmul := nsmulRec
  zsmul := zsmulRec
  left_distrib a b c := by ext; simp [gfMul_xor]
  right_distrib a b c := by ext; simp [gfMul_comm _ c.byte, gfMul_xor]
  zero_mul a := by ext; simp
  mul_zero a := by ext; simp
  mul_assoc a b c := by ext; simp [gfMul_assoc]
  one_mul a := by ext; simp [gfMul_one_left]
  mul_one a := by ext; simp [gfMul_comm _ 1, gfMul_one_left]
  mul_comm a b := by ext; simp [gfMul_comm]
  exists_pair_ne := ⟨0, 1, by decide⟩
  mul_inv_cancel a ha := by
    ext
    have hb : a.byte ≠ 0 := fun h => ha (GF256.ext h)
    simp [gfMul_gfInv hb]
  inv_zero := by ext; simp [gfInv]
  nnqsmul := _
  nnqsmul_def := fun _ _ => rfl
  qsmul := _
  qsmul_def := fun _ _ => rfl

/-- `gfPow` is the field's power. -/
theorem byte_pow (a : GF256) (n : Nat) : (a ^ n).byte = gfPow a.byte n := by
  unfold gfPow
  by_cases hn : n = 0
  · simp [hn]
  rw [if_neg hn]
  by_cases ha : a.byte = 0
  · have h0 : a = 0 := GF256.ext ha
    simp [h0, hn]
  rw [if_neg ha]
  obtain ⟨k, -, hk⟩ := exists_powX_eq ha
  have hpow : ∀ m, (a ^ m).byte = powX (k * m) := by
    intro m
    induction m with
    | zero => rfl
    | succ m ih =>
        rw [pow_succ, byte_mul, ih, ← hk, gfMul_powX, Nat.mul_succ]
  have hlt : (initGfTables.gfLog (powX k).toNat).toNat * n % 255 < 255 :=
    Nat.mod_lt _ (by omega)
  rw [hpow, ← hk, gfExp_eq (by omega), gfLog_powX]
  show powX (k * n) = powX (k % 255 * n % 255)
  rw [powX_mod, ← powX_mod (k * n), ← powX_mod (k % 255 * n), Nat.mod_mul_mod]

end GF256

end Gf
end FocusVision
