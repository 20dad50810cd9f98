import FocusVision.Lib.FloatFormat

/-!
# Operations on floats

Comparisons, conversions and the arithmetic that rounds once, on the floats of a
format.  A comparison with a NaN is false.  `display` is the shortest decimal
that reads back as the float, written without an exponent.
-/

namespace FocusVision
namespace Flt

open FloatFormat

variable {F : FloatFormat}

def isNaN (x : Flt F) : Bool :=
  decide (F.infBits < x.mag)

def isInfinite (x : Flt F) : Bool :=
  decide (x.mag = F.infBits)

/-- The order of the floats that are not NaN; both zeros are 0. -/
def key (x : Flt F) : Int :=
  if x.neg then -(x.mag : Int) else x.mag

instance : LT (Flt F) :=
  ⟨fun x y => x.isNaN = false ∧ y.isNaN = false ∧ x.key < y.key⟩

instance : LE (Flt F) :=
  ⟨fun x y => x.isNaN = false ∧ y.isNaN = false ∧ x.key ≤ y.key⟩

instance (x y : Flt F) : Decidable (x < y) :=
  inferInstanceAs (Decidable (_ ∧ _ ∧ _))

instance (x y : Flt F) : Decidable (x ≤ y) :=
  inferInstanceAs (Decidable (_ ∧ _ ∧ _))

/-- `num / den` units with a sign, rounded to nearest. -/
def round (neg : Bool) (num den : Nat) : Flt F :=
  ⟨neg, F.roundBits num den,
    Nat.lt_of_le_of_lt (F.roundBits_le num den) F.infBits_lt⟩

/-- The float nearest to `num / den`: a decimal literal. -/
def ofRatio (num den : Nat) : Flt F :=
  round false (num * 2 ^ F.unit) den

/-- An unsigned integer as a float. -/
def ofNat (n : Nat) : Flt F :=
  ofRatio n 1

/-- A signed integer as a float. -/
def ofInt (n : Int) : Flt F :=
  round (decide (n < 0)) (n.natAbs * 2 ^ F.unit) 1

def inf (neg : Bool) : Flt F :=
  ⟨neg, F.infBits, F.infBits_lt⟩

/-- The default NaN. -/
def nan : Flt F :=
  ⟨false, 2 ^ (F.fraction + F.exponent) - 1,
    Nat.sub_lt (Nat.two_pow_pos _) Nat.one_pos⟩

def mul (x y : Flt F) : Flt F :=
  if x.isNaN || y.isNaN then nan
  else if x.isInfinite || y.isInfinite then
    if x.mag = 0 ∨ y.mag = 0 then nan else inf (x.neg != y.neg)
  else round (x.neg != y.neg) (F.units x.mag * F.units y.mag) (2 ^ F.unit)

/-- The signed number of units of a finite float. -/
def signedUnits (x : Flt F) : Int :=
  if x.neg then -(F.units x.mag : Int) else F.units x.mag

def sub (x y : Flt F) : Flt F :=
  if x.isNaN || y.isNaN then nan
  else if x.isInfinite then
    if y.isInfinite && x.neg == y.neg then nan else x
  else if y.isInfinite then inf (!y.neg)
  else
    let d := x.signedUnits - y.signedUnits
    round (if d = 0 then x.mag == 0 && x.neg && !y.neg else decide (d < 0)) d.natAbs 1

def add (x y : Flt F) : Flt F :=
  if x.isNaN || y.isNaN then nan
  else if x.isInfinite then
    if y.isInfinite && x.neg != y.neg then nan else x
  else if y.isInfinite then y
  else
    let s := x.signedUnits + y.signedUnits
    round (if s = 0 then x.neg && y.neg else decide (s < 0)) s.natAbs 1

def div (x y : Flt F) : Flt F :=
  if x.isNaN || y.isNaN then nan
  else if x.isInfinite then
    if y.isInfinite then nan else inf (x.neg != y.neg)
  else if y.isInfinite then round (x.neg != y.neg) 0 1
  else if y.mag = 0 then
    if x.mag = 0 then nan else inf (x.neg != y.neg)
  else round (x.neg != y.neg) (F.units x.mag * 2 ^ F.unit) (F.units y.mag)

/-- The square root, rounded from a root with more bits than the fraction has. -/
def sqrt (x : Flt F) : Flt F :=
  if x.isNaN then nan
  else if x.mag = 0 then x
  else if x.neg then nan
  else if x.isInfinite then x
  else
    let guard := F.fraction + 2
    let square := F.units x.mag * 2 ^ F.unit * 4 ^ guard
    let root := Nat.sqrt square
    round false (2 * root + if root * root = square then 0 else 1) (2 * 2 ^ guard)

def abs (x : Flt F) : Flt F :=
  { x with neg := false }

def ceil (x : Flt F) : Flt F :=
  if x.isNaN || x.isInfinite then x
  else if x.neg then round true (F.units x.mag / 2 ^ F.unit * 2 ^ F.unit) 1
  else round false ((F.units x.mag + (2 ^ F.unit - 1)) / 2 ^ F.unit * 2 ^ F.unit) 1

/-- Truncation to an unsigned integer of `bits` bits, which saturates. -/
def toUnsigned (bits : Nat) (x : Flt F) : Nat :=
  if x.isNaN || x.neg then 0
  else if x.isInfinite then 2 ^ bits - 1
  else min (F.units x.mag / 2 ^ F.unit) (2 ^ bits - 1)

/-- `clamp`, which panics unless `lo ≤ hi`. -/
def clamp (x lo hi : Flt F) : Option (Flt F) :=
  if lo ≤ hi then some (if x < lo then lo else if hi < x then hi else x)
  else none

/-- Least `p` with `num / den < 10 ^ p`. -/
def decimalExponent (num den : Nat) : Int :=
  if den ≤ num then Nat.log 10 (num / den) + 1
  else -(Nat.log 10 ((den - 1) / num) : Int)

/-- `d * 10 ^ q` as a fraction. -/
def scale10 (d : Nat) (q : Int) : Nat × Nat :=
  (d * 10 ^ q.toNat, 10 ^ (-q).toNat)

/-- Does the decimal `d * 10 ^ q` read back as the magnitude `mag`? -/
def readsBack (F : FloatFormat) (mag d : Nat) (q : Int) : Bool :=
  F.roundBits ((scale10 d q).1 * 2 ^ F.unit) (scale10 d q).2 == mag

/-- `10 ^ n` has one digit too many. -/
def carry (n d : Nat) (q : Int) : Nat × Int :=
  if d = 10 ^ n then (1, q + n) else (d, q)

/-- A decimal of `n` digits that reads back as `mag`, the nearest one. -/
def decimalOfLength (F : FloatFormat) (mag n : Nat) : Option (Nat × Int) :=
  let num := F.units mag
  let den := 2 ^ F.unit
  let q := decimalExponent num den - n
  let scaled := num * 10 ^ (-q).toNat
  let unit := den * 10 ^ q.toNat
  let d := scaled / unit
  match readsBack F mag d q, readsBack F mag (d + 1) q with
  | true, true => some (carry n (if 2 * (scaled % unit) < unit then d else d + 1) q)
  | true, false => some (d, q)
  | false, true => some (carry n (d + 1) q)
  | false, false => none

/-- The shortest decimal that reads back as `mag`. -/
def shortestDecimal (F : FloatFormat) (mag : Nat) : Nat × Int :=
  ((List.range' 1 20).findSome? (decimalOfLength F mag)).getD (0, 0)

/-- The decimal `d * 10 ^ q`, without an exponent. -/
def showDecimal (d : Nat) (q : Int) : String :=
  if 0 ≤ q then toString d ++ String.ofList (List.replicate q.toNat '0')
  else
    let places := (-q).toNat
    let digits := toString (d % 10 ^ places)
    toString (d / 10 ^ places) ++ "." ++
      String.ofList (List.replicate (places - digits.length) '0') ++ digits

def display (x : Flt F) : String :=
  if x.isNaN then "NaN"
  else
    (if x.neg then "-" else "") ++
      if x.isInfinite then "inf"
      else if x.mag = 0 then "0"
      else showDecimal (shortestDecimal F x.mag).1 (shortestDecimal F x.mag).2

instance : ToString (Flt F) :=
  ⟨display⟩

theorem isNaN_round
    (neg : Bool) (num den : Nat) :
    (round neg num den : Flt F).isNaN = false :=
  decide_eq_false (Nat.not_lt.mpr (F.roundBits_le num den))

theorem lt_def
    {x y : Flt F} :
    x < y ↔ x.isNaN = false ∧ y.isNaN = false ∧ x.key < y.key :=
  Iff.rfl

theorem le_def
    {x y : Flt F} :
    x ≤ y ↔ x.isNaN = false ∧ y.isNaN = false ∧ x.key ≤ y.key :=
  Iff.rfl

theorem not_lt_of_le
    {x y : Flt F} (h : x ≤ y) :
    ¬ y < x := by
  rw [lt_def]
  rw [le_def] at h
  omega

theorem le_of_not_lt
    {x y : Flt F} (hx : x.isNaN = false) (hy : y.isNaN = false) (h : ¬ y < x) :
    x ≤ y := by
  rw [lt_def] at h
  refine ⟨hx, hy, ?_⟩
  by_contra hlt
  exact h ⟨hy, hx, by omega⟩

theorem lt_of_not_le
    {x y : Flt F} (hx : x.isNaN = false) (hy : y.isNaN = false) (h : ¬ y ≤ x) :
    x < y := by
  rw [le_def] at h
  refine ⟨hx, hy, ?_⟩
  by_contra hle
  exact h ⟨hy, hx, by omega⟩

theorem le_refl
    {x : Flt F} (hx : x.isNaN = false) :
    x ≤ x :=
  ⟨hx, hx, Int.le_refl _⟩

theorem le_trans
    {x y z : Flt F} (hxy : x ≤ y) (hyz : y ≤ z) :
    x ≤ z :=
  ⟨hxy.1, hyz.2.1, Int.le_trans hxy.2.2 hyz.2.2⟩

theorem le_of_lt
    {x y : Flt F} (h : x < y) :
    x ≤ y :=
  ⟨h.1, h.2.1, Int.le_of_lt h.2.2⟩

theorem lt_of_le_of_lt
    {x y z : Flt F} (hxy : x ≤ y) (hyz : y < z) :
    x < z :=
  ⟨hxy.1, hyz.2.1, Int.lt_of_le_of_lt hxy.2.2 hyz.2.2⟩

theorem lt_of_lt_of_le
    {x y z : Flt F} (hxy : x < y) (hyz : y ≤ z) :
    x < z :=
  ⟨hxy.1, hyz.2.1, Int.lt_of_lt_of_le hxy.2.2 hyz.2.2⟩

/-- A quotient rounds to a smaller float than a larger quotient. -/
theorem ofRatio_le
    {a b c d : Nat} (hb : 0 < b) (hd : 0 < d) (h : a * d ≤ c * b) :
    (ofRatio a b : Flt F) ≤ ofRatio c d := by
  refine ⟨isNaN_round _ _ _, isNaN_round _ _ _, Int.ofNat_le.mpr ?_⟩
  refine F.roundBits_mono hb hd ?_
  calc a * 2 ^ F.unit * d = a * d * 2 ^ F.unit := by ring
    _ ≤ c * b * 2 ^ F.unit := Nat.mul_le_mul_right _ h
    _ = c * 2 ^ F.unit * b := by ring

/-- Rounding up keeps the order of the floats that are not negative. -/
theorem ceil_mag_mono
    {x y : Flt F} (hx : x.neg = false) (hy : y.neg = false)
    (hinf : y.mag ≤ F.infBits) (h : x.mag ≤ y.mag) :
    x.ceil.mag ≤ y.ceil.mag := by
  have hceil : ∀ z : Flt F, z.neg = false → z.mag < F.infBits →
      z.ceil.mag =
        F.roundBits ((F.units z.mag + (2 ^ F.unit - 1)) / 2 ^ F.unit * 2 ^ F.unit) 1 := by
    intro z hz hlt
    simp [ceil, isNaN, isInfinite, round, hz, Nat.not_lt.mpr (Nat.le_of_lt hlt),
      Nat.ne_of_lt hlt]
  rcases Nat.lt_or_eq_of_le hinf with hlt | heq
  · rw [hceil x hx (Nat.lt_of_le_of_lt h hlt), hceil y hy hlt]
    refine F.roundBits_mono Nat.one_pos Nat.one_pos (Nat.mul_le_mul_right _ ?_)
    refine Nat.mul_le_mul_right _ (Nat.div_le_div_right ?_)
    exact Nat.add_le_add_right (F.units_mono h) _
  · have hy' : y.ceil = y := by
      simp [ceil, isInfinite, heq]
    rw [hy', heq]
    rcases Nat.lt_or_eq_of_le (Nat.le_trans h hinf) with hlt | heq'
    · rw [hceil x hx hlt]
      exact F.roundBits_le _ _
    · have hx' : x.ceil = x := by
        simp [ceil, isInfinite, heq']
      rw [hx', heq']

theorem ceil_mag_le
    {x : Flt F} (hx : x.neg = false) (hinf : x.mag ≤ F.infBits) :
    x.ceil.mag ≤ F.infBits := by
  have h := @ceil_mag_mono F x (inf false) hx rfl (Nat.le_refl _) hinf
  simpa [ceil, isInfinite, inf] using h

theorem ceil_neg
    (x : Flt F) :
    x.ceil.neg = x.neg := by
  unfold ceil
  split_ifs with h1 h2
  · rfl
  · simp [round, h2]
  · simp [round, h2]

theorem toUnsigned_mono
    {x y : Flt F} (bits : Nat) (hx : x.neg = false) (hy : y.neg = false)
    (hinf : y.mag ≤ F.infBits) (h : x.mag ≤ y.mag) :
    x.toUnsigned bits ≤ y.toUnsigned bits := by
  have hint : ∀ z : Flt F, z.neg = false → z.mag ≤ F.infBits → z.toUnsigned bits =
      if z.mag = F.infBits then 2 ^ bits - 1
      else min (F.units z.mag / 2 ^ F.unit) (2 ^ bits - 1) := by
    intro z hz hle
    simp [toUnsigned, isNaN, isInfinite, hz, Nat.not_lt.mpr hle]
  rw [hint x hx (Nat.le_trans h hinf), hint y hy hinf]
  have hunits : F.units x.mag / 2 ^ F.unit ≤ F.units y.mag / 2 ^ F.unit :=
    Nat.div_le_div_right (F.units_mono h)
  split_ifs with hxi hyi
  · exact Nat.le_refl _
  · exact absurd (Nat.le_antisymm hinf (hxi ▸ h)) hyi
  · exact Nat.min_le_right _ _
  · exact Nat.le_min.mpr
      ⟨Nat.le_trans (Nat.min_le_left _ _) hunits, Nat.min_le_right _ _⟩

/-- Multiplying by a float that is not negative is monotone, up to the integer
that the product is rounded up to. -/
theorem toUnsigned_ceil_mul_mono
    {x y r : Flt F} (bits : Nat) (hx : x.neg = false) (hy : y.neg = false)
    (hyf : y.mag < F.infBits) (hxy : x.mag ≤ y.mag)
    (hr : r.neg = false) (hrf : r.mag < F.infBits) :
    (mul x r).ceil.toUnsigned bits ≤ (mul y r).ceil.toUnsigned bits := by
  have hmul : ∀ z : Flt F, z.neg = false → z.mag < F.infBits →
      mul z r = round false (F.units z.mag * F.units r.mag) (2 ^ F.unit) := by
    intro z hz hzf
    simp [mul, isNaN, isInfinite, hz, hr, Nat.not_lt.mpr (Nat.le_of_lt hzf),
      Nat.not_lt.mpr (Nat.le_of_lt hrf), Nat.ne_of_lt hzf, Nat.ne_of_lt hrf]
  rw [hmul x hx (Nat.lt_of_le_of_lt hxy hyf), hmul y hy hyf]
  have hround : F.roundBits (F.units x.mag * F.units r.mag) (2 ^ F.unit) ≤
      F.roundBits (F.units y.mag * F.units r.mag) (2 ^ F.unit) := by
    refine F.roundBits_mono (Nat.two_pow_pos _) (Nat.two_pow_pos _) ?_
    exact Nat.mul_le_mul_right _ (Nat.mul_le_mul_right _ (F.units_mono hxy))
  refine toUnsigned_mono bits (ceil_neg _) (ceil_neg _) ?_ ?_
  · exact ceil_mag_le rfl (F.roundBits_le _ _)
  · exact ceil_mag_mono rfl rfl (F.roundBits_le _ _) hround

/-- A product with a negative factor truncates to 0. -/
theorem toUnsigned_ceil_mul_neg
    {x r : Flt F} (bits : Nat) (hx : x.neg = false) (hxf : x.mag < F.infBits)
    (hr : r.neg = true) (hrf : r.mag < F.infBits) :
    (mul x r).ceil.toUnsigned bits = 0 := by
  have hneg : (mul x r).neg = true := by
    simp [mul, isNaN, isInfinite, round, hx, hr, Nat.not_lt.mpr (Nat.le_of_lt hxf),
      Nat.not_lt.mpr (Nat.le_of_lt hrf), Nat.ne_of_lt hxf, Nat.ne_of_lt hrf]
  unfold toUnsigned
  rw [ceil_neg, hneg, Bool.or_true, if_pos rfl]

/-- Zero times a finite float is a zero. -/
theorem mul_mag_zero
    {x r : Flt F} (hx : x.mag = 0) (hr : r.mag < F.infBits) :
    (mul x r).mag = 0 := by
  have hinf : ¬ 0 = F.infBits := by omega
  simp only [mul, isNaN, isInfinite, hx, Nat.not_lt_zero, Nat.not_lt.mpr (Nat.le_of_lt hr),
    Nat.ne_of_lt hr, hinf, decide_false, Bool.or_self, Bool.false_eq_true, if_false, round,
    units_zero, Nat.zero_mul, roundBits_zero]

theorem toUnsigned_ceil_zero
    {x : Flt F} (bits : Nat) (hx : x.mag = 0) (hinf : 0 < F.infBits) :
    x.ceil.toUnsigned bits = 0 := by
  have hceil : x.ceil.mag = 0 := by
    have hpos := Nat.two_pow_pos F.unit
    have hdiv : (2 ^ F.unit - 1) / 2 ^ F.unit = 0 := Nat.div_eq_of_lt (by omega)
    unfold ceil
    split_ifs
    · exact hx
    · simp only [round, hx, units_zero, Nat.zero_div, Nat.zero_mul, roundBits_zero]
    · simp only [round, hx, units_zero, Nat.zero_add, hdiv, Nat.zero_mul, roundBits_zero]
  unfold toUnsigned
  rw [hceil, units_zero, Nat.zero_div, Nat.zero_min]
  split_ifs with _ hinfinite
  · rfl
  · rw [isInfinite, hceil, decide_eq_true_eq] at hinfinite
    omega
  · rfl

end Flt

/-- `f32`. -/
abbrev F32 := Flt ⟨23, 8⟩

/-- `f64`. -/
abbrev F64 := Flt ⟨52, 11⟩

/-- A decimal literal of type `f64`. -/
def f64 (num den : Nat) : F64 :=
  Flt.ofRatio num den

/-- A decimal literal of type `f32`. -/
def f32 (num den : Nat) : F32 :=
  Flt.ofRatio num den

theorem f32_isNaN
    (a b : Nat) :
    (f32 a b).isNaN = false :=
  Flt.isNaN_round _ _ _

end FocusVision
