import Mathlib.Data.Nat.Digits.Lemmas

/-!
# Decimal numbers in bytes

A number is read digit by digit into a machine word, which is right as long as the
number of digits keeps it from overflowing, and written without leading zeros.
-/

namespace FocusVision
namespace Decimal

/-- `'0'..='9'`. -/
def IsDigit (c : UInt8) : Prop :=
  0x30 ≤ c ∧ c ≤ 0x39

instance (c : UInt8) : Decidable (IsDigit c) :=
  inferInstanceAs (Decidable (_ ∧ _))

/-- The number that starts with `v` and goes on with the digits. -/
def numberFrom (v : Nat) (s : List UInt8) : Nat :=
  s.foldl (fun v c => v * 10 + (c.toNat - 48)) v

/-- The number with these digits. -/
def numberOf (s : List UInt8) : Nat :=
  numberFrom 0 s

/-- The loop that reads a number into 32 bits, and fails at what is not a digit. -/
def readLoop (v : UInt32) : List UInt8 → Option UInt32
  | [] => some v
  | c :: rest =>
      if c < 0x30 ∨ 0x39 < c then none
      else readLoop (v * 10 + (c - 0x30).toUInt32) rest

/-- A number as it is printed. -/
def show10 (n : Nat) : List UInt8 :=
  if n = 0 then [0x30] else (Nat.digits 10 n).reverse.map fun d => UInt8.ofNat (48 + d)

theorem not_isDigit_iff
    {c : UInt8} :
    ¬IsDigit c ↔ c < 0x30 ∨ 0x39 < c := by
  unfold IsDigit
  rw [not_and_or, UInt8.not_le, UInt8.not_le]

theorem toNat_of_isDigit
    {c : UInt8} (h : IsDigit c) :
    48 ≤ c.toNat ∧ c.toNat ≤ 57 :=
  ⟨UInt8.le_iff_toNat_le.mp h.1, UInt8.le_iff_toNat_le.mp h.2⟩

theorem numberFrom_lt
    {v : Nat} {s : List UInt8} (h : ∀ c ∈ s, IsDigit c) :
    numberFrom v s < (v + 1) * 10 ^ s.length := by
  induction s generalizing v with
  | nil =>
      simp [numberFrom]
  | cons c rest ih =>
      have hc := toNat_of_isDigit (h c List.mem_cons_self)
      have hrest := @ih (v * 10 + (c.toNat - 48)) fun d hd => h d (List.mem_cons_of_mem _ hd)
      have hstep : numberFrom v (c :: rest) = numberFrom (v * 10 + (c.toNat - 48)) rest := rfl
      rw [hstep, List.length_cons, pow_succ, Nat.mul_comm (10 ^ rest.length), ← Nat.mul_assoc]
      refine Nat.lt_of_lt_of_le hrest (Nat.mul_le_mul_right _ ?_)
      omega

theorem numberOf_lt
    {s : List UInt8} (h : ∀ c ∈ s, IsDigit c) :
    numberOf s < 10 ^ s.length := by
  have hlt := @numberFrom_lt 0 s h
  rwa [Nat.zero_add, Nat.one_mul] at hlt

/-- Reading stops at what is not a digit; digits that fit in the word are the number. -/
theorem readLoop_eq_some_iff
    {v w : UInt32} {s : List UInt8} (hfits : (v.toNat + 1) * 10 ^ s.length ≤ 2 ^ 32) :
    readLoop v s = some w ↔ (∀ c ∈ s, IsDigit c) ∧ w.toNat = numberFrom v.toNat s := by
  induction s generalizing v with
  | nil =>
      simp only [readLoop, numberFrom, List.foldl_nil, List.not_mem_nil, false_implies,
        implies_true, true_and, Option.some.injEq]
      exact ⟨fun h => h ▸ rfl, fun h => UInt32.toNat_inj.mp h.symm⟩
  | cons c rest ih =>
      unfold readLoop
      by_cases hc : IsDigit c
      · have hdigit := toNat_of_isDigit hc
        have hin : ¬(c < 0x30 ∨ 0x39 < c) := fun h => not_isDigit_iff.mpr h hc
        rw [List.length_cons, pow_succ, Nat.mul_comm (10 ^ rest.length), ← Nat.mul_assoc] at hfits
        have hpos : 0 < 10 ^ rest.length := Nat.pow_pos (by omega)
        have hword : (v.toNat + 1) * 10 ≤ 2 ^ 32 :=
          Nat.le_trans (Nat.le_mul_of_pos_right _ hpos) hfits
        have hsub : (c - 0x30).toUInt32.toNat = c.toNat - 48 := by
          rw [UInt8.toNat_toUInt32, UInt8.toNat_sub_of_le _ _ hc.1]
          rfl
        have hten : (10 : UInt32).toNat = 10 := rfl
        have hvalue : (v * 10 + (c - 0x30).toUInt32).toNat = v.toNat * 10 + (c.toNat - 48) := by
          rw [UInt32.toNat_add, UInt32.toNat_mul, hsub, hten]
          omega
        have hrest : (v.toNat * 10 + (c.toNat - 48) + 1) * 10 ^ rest.length ≤ 2 ^ 32 :=
          Nat.le_trans (Nat.mul_le_mul_right _ (by omega)) hfits
        rw [if_neg hin, @ih (v * 10 + (c - 0x30).toUInt32) (by rw [hvalue]; exact hrest), hvalue,
          List.forall_mem_cons]
        exact and_congr_left fun _ => ⟨fun h => ⟨hc, h⟩, fun h => h.2⟩
      · rw [if_pos (not_isDigit_iff.mp hc)]
        refine iff_of_false (fun h => by cases h) ?_
        exact fun h => hc (h.1 c List.mem_cons_self)

/-- From zero, up to nine digits fit. -/
theorem readLoop_zero
    {w : UInt32} {s : List UInt8} (hlength : s.length ≤ 9) :
    readLoop 0 s = some w ↔ (∀ c ∈ s, IsDigit c) ∧ w.toNat = numberOf s := by
  have hpow : 10 ^ s.length ≤ 10 ^ 9 := Nat.pow_le_pow_right (by omega) hlength
  have hzero : (0 : UInt32).toNat = 0 := rfl
  refine readLoop_eq_some_iff ?_
  rw [hzero]
  omega

theorem readLoop_eq_none
    {s : List UInt8} (hlength : s.length ≤ 9) (h : ¬∀ c ∈ s, IsDigit c) :
    readLoop 0 s = none := by
  cases hread : readLoop 0 s with
  | none =>
      rfl
  | some w =>
      exact absurd ((readLoop_zero hlength).mp hread).1 h

theorem exists_readLoop
    {s : List UInt8} (hlength : s.length ≤ 9) (h : ∀ c ∈ s, IsDigit c) :
    ∃ w, readLoop 0 s = some w ∧ w.toNat = numberOf s := by
  have hpow : 10 ^ s.length ≤ 10 ^ 9 := Nat.pow_le_pow_right (by omega) hlength
  have hlt := numberOf_lt h
  have hword : (UInt32.ofNat (numberOf s)).toNat = numberOf s :=
    UInt32.toNat_ofNat_of_lt' (show numberOf s < 2 ^ 32 by omega)
  exact ⟨_, (readLoop_zero hlength).mpr ⟨h, hword⟩, hword⟩

/-! ### Printed numbers -/

theorem numberFrom_append
    (v : Nat) (s t : List UInt8) :
    numberFrom v (s ++ t) = numberFrom (numberFrom v s) t :=
  List.foldl_append

theorem toNat_digit
    {d : Nat} (h : d < 10) :
    (UInt8.ofNat (48 + d)).toNat = 48 + d :=
  UInt8.toNat_ofNat_of_lt' (show 48 + d < 256 by omega)

theorem isDigit_digit
    {d : Nat} (h : d < 10) :
    IsDigit (UInt8.ofNat (48 + d)) := by
  have hnat := toNat_digit h
  refine ⟨UInt8.le_iff_toNat_le.mpr ?_, UInt8.le_iff_toNat_le.mpr ?_⟩
  · rw [hnat]
    exact Nat.le_add_right _ _
  · rw [hnat]
    show 48 + d ≤ 57
    omega

theorem numberOf_digits
    {ds : List Nat} (h : ∀ d ∈ ds, d < 10) :
    numberOf (ds.reverse.map fun d => UInt8.ofNat (48 + d)) = Nat.ofDigits 10 ds := by
  induction ds with
  | nil =>
      rfl
  | cons d ds ih =>
      have hd := h d List.mem_cons_self
      have hrest := ih fun e he => h e (List.mem_cons_of_mem _ he)
      unfold numberOf at hrest ⊢
      rw [List.reverse_cons, List.map_append, numberFrom_append, hrest, Nat.ofDigits_cons]
      simp only [numberFrom, List.map_cons, List.map_nil, List.foldl_cons, List.foldl_nil,
        toNat_digit hd]
      omega

theorem numberOf_show10
    (n : Nat) :
    numberOf (show10 n) = n := by
  unfold show10
  split_ifs with hzero
  · subst hzero
    rfl
  · rw [numberOf_digits fun d hd => Nat.digits_lt_base (by omega) hd, Nat.ofDigits_digits]

theorem isDigit_show10
    (n : Nat) :
    ∀ c ∈ show10 n, IsDigit c := by
  unfold show10
  split_ifs with hzero
  · intro c hc
    rw [List.mem_singleton.mp hc]
    decide
  · intro c hc
    obtain ⟨d, hd, rfl⟩ := List.mem_map.mp hc
    exact isDigit_digit (Nat.digits_lt_base (by omega) (List.mem_reverse.mp hd))

theorem show10_ne_nil
    (n : Nat) :
    show10 n ≠ [] := by
  unfold show10
  split_ifs with hzero
  · exact List.cons_ne_nil _ _
  · intro h
    rw [List.map_eq_nil_iff, List.reverse_eq_nil_iff] at h
    exact Nat.digits_ne_nil_iff_ne_zero.mpr hzero h

theorem length_show10_le
    {n k : Nat} (hk : 0 < k) (h : n < 10 ^ k) :
    (show10 n).length ≤ k := by
  unfold show10
  split_ifs with hzero
  · exact hk
  · rw [List.length_map, List.length_reverse]
    exact (Nat.digits_length_le_iff (by omega) n).mpr h

/-- A printed number begins with a zero only if it is zero. -/
theorem head_show10
    {n : Nat} (h : (show10 n).head? = some 0x30) :
    (show10 n).length = 1 := by
  unfold show10 at h ⊢
  split_ifs at h ⊢ with hzero
  · rfl
  · exfalso
    have hne : Nat.digits 10 n ≠ [] := Nat.digits_ne_nil_iff_ne_zero.mpr hzero
    have hlast := Nat.getLast_digit_ne_zero 10 hzero
    have hdigit : (Nat.digits 10 n).getLast hne < 10 :=
      Nat.digits_lt_base (by omega) (List.getLast_mem hne)
    rw [List.head?_map, List.head?_reverse, List.getLast?_eq_some_getLast hne, Option.map_some,
      Option.some.injEq] at h
    have hnat := congrArg UInt8.toNat h
    have hzeroDigit : (0x30 : UInt8).toNat = 48 := rfl
    rw [toNat_digit hdigit, hzeroDigit] at hnat
    omega

end Decimal
end FocusVision
