import FocusVision.Lib.FloatOps
import FocusVision.Lib.Bytes
import Mathlib.Data.List.Forall2

/-!
# Forward error correction of one code word

`FecEncoder` and `FecDecoder` of the engine's `transport/fec.rs`.  The
Reed-Solomon crate they call is a parameter: `RsCrate` is the part of it that
they use, and `RsCrate.Correct` what its documentation promises, a systematic
code that any `d` of the `d + p` shards determine.

The main results are that `encode` succeeds on every number of data shards up to
`maxDataShards`, whatever the encoder did before, and that `decode` gives the
data shards back.
-/

namespace FocusVision
namespace Engine

def RS_MAX_TOTAL_SHARDS : Nat := 256

abbrev Shard := List UInt8

/--
The Reed-Solomon crate.  `reconstruct` fills the missing shards in place; its
second component is what it leaves behind.
-/
structure RsCrate where
  ReedSolomon : Type
  new : Nat → Nat → Except String ReedSolomon
  encode : ReedSolomon → List Shard → Except String (List Shard)
  reconstruct : ReedSolomon → List (Option Shard) →
    Except String Unit × List (Option Shard)

/-- Some shards of a code word; the others are lost. -/
def Received (word : List Shard) (shards : List (Option Shard)) : Prop :=
  List.Forall₂ (fun shard received => received = none ∨ received = some shard)
    word shards

/-- The number of shards that are present. -/
def presentCount (shards : List (Option Shard)) : Nat :=
  shards.countP Option.isSome

/-- The crate is a systematic code; any `d` shards give the whole word. -/
structure RsCrate.Correct (crate : RsCrate) : Prop where
  new_isOk : ∀ d p,
    (∃ rs, crate.new d p = .ok rs) ↔ 0 < d ∧ 0 < p ∧ d + p ≤ RS_MAX_TOTAL_SHARDS
  code : ∀ d p rs, crate.new d p = .ok rs →
    ∀ (data : List Shard) (size : Nat), data.length = d → 0 < size →
    (∀ shard ∈ data, shard.length = size) →
    ∃ parity : List Shard, parity.length = p ∧
      (∀ shard ∈ parity, shard.length = size) ∧
      crate.encode rs (data ++ List.replicate p (List.replicate size 0)) =
        .ok (data ++ parity) ∧
      ∀ shards, Received (data ++ parity) shards → d ≤ presentCount shards →
        crate.reconstruct rs shards = (.ok (), (data ++ parity).map some)

/-- `FecError`. -/
inductive FecError where
  | emptyInput
  | unequalShards
  | insufficientShards
  | reedSolomon (message : String)
deriving DecidableEq

/-- `clamp(0.0, 1.0)`. -/
def clampUnit (redundancy : F32) : F32 :=
  if redundancy < f32 0 1 then f32 0 1
  else if f32 1 1 < redundancy then f32 1 1
  else redundancy

/-- `f32::EPSILON`. -/
def f32Epsilon : F32 :=
  f32 1 (2 ^ 23)

/-- `parity_for`, of an encoder at this redundancy. -/
def parityFor (redundancy : F32) (dataCount : Nat) : Nat :=
  max ((Flt.mul (Flt.ofNat dataCount) redundancy).ceil.toUnsigned 64) 1

/-- `max_data_shards`, of an encoder at this redundancy. -/
def maxDataShards (redundancy : F32) : Nat :=
  ((List.range' 1 (RS_MAX_TOTAL_SHARDS - 1)).reverse.find? fun d =>
    decide (d + parityFor redundancy d ≤ RS_MAX_TOTAL_SHARDS)).getD 0

structure FecEncoder (crate : RsCrate) where
  redundancy : F32
  cachedRs : Option crate.ReedSolomon
  cachedDataCount : Nat
  cachedParityCount : Nat

namespace FecEncoder

variable {crate : RsCrate}

def new (redundancy : F32) : FecEncoder crate :=
  { redundancy := clampUnit redundancy
    cachedRs := none
    cachedDataCount := 0
    cachedParityCount := 0 }

/-- `set_redundancy`. -/
def setRedundancy (enc : FecEncoder crate) (redundancy : F32) : FecEncoder crate :=
  let new := clampUnit redundancy
  if f32Epsilon < (Flt.sub new enc.redundancy).abs then
    { enc with redundancy := new, cachedRs := none }
  else enc

/-- A new instance, which replaces the cached one. -/
def renewRs (enc : FecEncoder crate) (dataCount parityCount : Nat) :
    Except String (crate.ReedSolomon × FecEncoder crate) :=
  match crate.new dataCount parityCount with
  | .error e => .error e
  | .ok rs =>
      .ok (rs,
        { enc with
          cachedRs := some rs
          cachedDataCount := dataCount
          cachedParityCount := parityCount })

/-- The cached instance if the counts match, else a new one. -/
def reuseRs (enc : FecEncoder crate) (dataCount parityCount : Nat) :
    Except String (crate.ReedSolomon × FecEncoder crate) :=
  match enc.cachedRs with
  | none => enc.renewRs dataCount parityCount
  | some rs =>
      if enc.cachedDataCount ≠ dataCount ∨ enc.cachedParityCount ≠ parityCount then
        enc.renewRs dataCount parityCount
      else .ok (rs, enc)

def encode (enc : FecEncoder crate) (dataShards : List Shard) :
    Except FecError (List Shard) × FecEncoder crate :=
  match dataShards with
  | [] => (.error .emptyInput, enc)
  | first :: _ =>
      let dataCount := dataShards.length
      let parityCount := parityFor enc.redundancy dataCount
      let shardLen := first.length
      if dataShards.any fun s => s.length != shardLen then
        (.error .unequalShards, enc)
      else
        match enc.reuseRs dataCount parityCount with
        | .error e => (.error (.reedSolomon e), enc)
        | .ok (rs, enc) =>
            match crate.encode rs
              (dataShards ++ List.replicate parityCount (List.replicate shardLen 0)) with
            | .error e => (.error (.reedSolomon e), enc)
            | .ok shards => (.ok shards, enc)

end FecEncoder

/--
`FecDecoder::decode`, with the shards it leaves behind.  A shard that the crate
did not reconstruct is read as empty; the source panics there.
-/
def FecDecoder.decode (crate : RsCrate) (shards : List (Option Shard))
    (dataCount : Nat) : Except FecError (List Shard) × List (Option Shard) :=
  let total := shards.length
  if total ≤ dataCount then (.error .insufficientShards, shards)
  else
    match crate.new dataCount (total - dataCount) with
    | .error e => (.error (.reedSolomon e), shards)
    | .ok rs =>
        match crate.reconstruct rs shards with
        | (.error e, shards) => (.error (.reedSolomon e), shards)
        | (.ok _, shards) =>
            (.ok ((shards.take dataCount).map fun s => s.getD []), shards)

/-! ### The redundancy -/

/-- A redundancy in `[0, 1]`; the zero may be negative. -/
def UnitInterval (r : F32) : Prop :=
  f32 0 1 ≤ r ∧ r ≤ f32 1 1

instance (r : F32) : Decidable (UnitInterval r) :=
  inferInstanceAs (Decidable (_ ∧ _))

theorem f32_zero_le_one :
    f32 0 1 ≤ f32 1 1 ∧ (f32 0 1).key = 0 ∧ (f32 1 1).mag < FloatFormat.infBits ⟨23, 8⟩ ∧
      (f32 1 1).neg = false ∧ (Flt.ofNat 255 : F32).mag < FloatFormat.infBits ⟨23, 8⟩ := by
  decide +kernel

/-- The clamp never panics, and leaves `[0, 1]` alone. -/
theorem clamp_unit
    (r : F32) :
    Flt.clamp r (f32 0 1) (f32 1 1) = some (clampUnit r) :=
  if_pos f32_zero_le_one.1

theorem clampUnit_of_unit
    {r : F32} (h : UnitInterval r) :
    clampUnit r = r := by
  unfold clampUnit
  rw [if_neg (Flt.not_lt_of_le h.1), if_neg (Flt.not_lt_of_le h.2)]

theorem clampUnit_unit
    {r : F32} (h : r.isNaN = false) :
    UnitInterval (clampUnit r) := by
  have h0 := f32_isNaN 0 1
  have h1 := f32_isNaN 1 1
  unfold clampUnit
  split_ifs with hlt hgt
  · exact ⟨Flt.le_refl h0, f32_zero_le_one.1⟩
  · exact ⟨f32_zero_le_one.1, Flt.le_refl h1⟩
  · exact ⟨Flt.le_of_not_lt h0 h hlt, Flt.le_of_not_lt h h1 hgt⟩

theorem UnitInterval.mag_lt
    {r : F32} (h : UnitInterval r) :
    r.mag < FloatFormat.infBits ⟨23, 8⟩ := by
  obtain ⟨-, hzero, hone, honeNeg, -⟩ := f32_zero_le_one
  have hlow := h.1.2.2
  have hhigh := h.2.2.2
  rw [hzero] at hlow
  unfold Flt.key at hlow hhigh
  rw [honeNeg] at hhigh
  split_ifs at hlow hhigh <;> omega

/-- More data shards get no fewer parity shards. -/
theorem parityFor_mono
    {r : F32} (hr : UnitInterval r) {d e : Nat} (hde : d ≤ e) (he : e ≤ 255) :
    parityFor r d ≤ parityFor r e := by
  have hmag : ∀ {a b : Nat}, a ≤ b → (Flt.ofNat a : F32).mag ≤ (Flt.ofNat b : F32).mag := by
    intro a b hab
    exact Int.ofNat_le.mp (Flt.ofRatio_le Nat.one_pos Nat.one_pos (by omega)).2.2
  have hfin : ∀ {a : Nat}, a ≤ 255 →
      (Flt.ofNat a : F32).mag < FloatFormat.infBits ⟨23, 8⟩ := by
    intro a ha
    exact Nat.lt_of_le_of_lt (hmag ha) f32_zero_le_one.2.2.2.2
  unfold parityFor
  refine max_le_max ?_ (Nat.le_refl 1)
  cases hneg : r.neg with
  | false =>
      exact Flt.toUnsigned_ceil_mul_mono 64 rfl rfl (hfin he) (hmag hde) hneg hr.mag_lt
  | true =>
      rw [Flt.toUnsigned_ceil_mul_neg 64 rfl (hfin (Nat.le_trans hde he)) hneg hr.mag_lt]
      exact Nat.zero_le _

theorem parityFor_pos
    (r : F32) (d : Nat) :
    0 < parityFor r d :=
  Nat.lt_of_lt_of_le Nat.one_pos (Nat.le_max_right _ _)

theorem maxDataShards_le
    (r : F32) :
    maxDataShards r ≤ 255 := by
  unfold maxDataShards
  cases hfind : (List.range' 1 (RS_MAX_TOTAL_SHARDS - 1)).reverse.find? fun d =>
      decide (d + parityFor r d ≤ RS_MAX_TOTAL_SHARDS) with
  | none => exact Nat.zero_le _
  | some m =>
      have hmem := List.mem_of_find?_eq_some hfind
      simp [RS_MAX_TOTAL_SHARDS] at hmem
      rw [Option.getD_some]
      omega

/-- Up to `maxDataShards`, data and parity fit in one code word. -/
theorem add_parityFor_le
    {r : F32} (hr : UnitInterval r) {d : Nat} (hd : d ≤ maxDataShards r) :
    d + parityFor r d ≤ RS_MAX_TOTAL_SHARDS ∨ d = 0 := by
  unfold maxDataShards at hd
  cases hfind : (List.range' 1 (RS_MAX_TOTAL_SHARDS - 1)).reverse.find? fun d =>
      decide (d + parityFor r d ≤ RS_MAX_TOTAL_SHARDS) with
  | none =>
      rw [hfind] at hd
      exact Or.inr (Nat.le_zero.mp hd)
  | some m =>
      have hm : m ≤ 255 := by
        have hle := maxDataShards_le r
        unfold maxDataShards at hle
        rwa [hfind] at hle
      rw [hfind] at hd
      have hfits := List.find?_some hfind
      simp only [decide_eq_true_eq, Option.getD_some] at hfits hd
      have hmono := parityFor_mono hr hd hm
      exact Or.inl (by omega)

/-- Without data there is one parity shard. -/
theorem parityFor_zero
    {r : F32} (hr : UnitInterval r) :
    parityFor r 0 = 1 := by
  have hzero : (Flt.ofNat 0 : F32).mag = 0 := FloatFormat.roundBits_zero _ 1
  unfold parityFor
  rw [Flt.toUnsigned_ceil_zero 64 (Flt.mul_mag_zero hzero hr.mag_lt) (by decide)]
  rfl

/-- No more data shards than `maxDataShards` fit. -/
theorem le_maxDataShards
    {r : F32} {d : Nat} (hpos : 0 < d) (hd : d + parityFor r d ≤ RS_MAX_TOTAL_SHARDS) :
    d ≤ maxDataShards r := by
  have hparity := parityFor_pos r d
  have hmem : d ∈ (List.range' 1 (RS_MAX_TOTAL_SHARDS - 1)).reverse := by
    rw [List.mem_reverse, List.mem_range'_1]
    simp only [RS_MAX_TOTAL_SHARDS] at hd ⊢
    omega
  have hsorted : (List.range' 1 (RS_MAX_TOTAL_SHARDS - 1)).reverse.Pairwise (· > ·) := by
    rw [List.pairwise_reverse]
    exact List.pairwise_lt_range'
  unfold maxDataShards
  cases hfind : (List.range' 1 (RS_MAX_TOTAL_SHARDS - 1)).reverse.find? fun d =>
      decide (d + parityFor r d ≤ RS_MAX_TOTAL_SHARDS) with
  | none =>
      have hnone := List.find?_eq_none.mp hfind d hmem
      simp only [decide_eq_true_eq] at hnone
      exact absurd hd hnone
  | some m =>
      obtain ⟨-, before, after, hsplit, hbefore⟩ := List.find?_eq_some_iff_append.mp hfind
      rw [hsplit] at hmem hsorted
      rw [Option.getD_some]
      rcases List.mem_append.mp hmem with h | h
      · exact absurd (hbefore d h) (by simpa using hd)
      · rcases List.mem_cons.mp h with rfl | h
        · exact Nat.le_refl _
        · have hlater := (List.pairwise_cons.mp (List.pairwise_append.mp hsorted).2.1).1 d h
          exact Nat.le_of_lt hlater
/-- A number of data shards fits with its parity if it is at most `maxDataShards`. -/
theorem fits_iff
    {r : F32} (hr : UnitInterval r) {d : Nat} (hpos : 0 < d) :
    d + parityFor r d ≤ RS_MAX_TOTAL_SHARDS ↔ d ≤ maxDataShards r := by
  refine ⟨le_maxDataShards hpos, fun hd => ?_⟩
  rcases add_parityFor_le hr hd with h | h
  · exact h
  · omega

/-! ### Encoding and decoding -/

/-- Decoding any `data.length` shards of the word gives the data. -/
def Protects (crate : RsCrate) (data parity : List Shard) : Prop :=
  ∀ shards, Received (data ++ parity) shards → data.length ≤ presentCount shards →
    (FecDecoder.decode crate shards data.length).1 = .ok data

theorem Received.length_eq
    {word : List Shard} {shards : List (Option Shard)} (h : Received word shards) :
    shards.length = word.length :=
  (List.Forall₂.length_eq h).symm

namespace FecEncoder

variable {crate : RsCrate}

/-- The cached instance is the one the crate gives for the cached counts. -/
def CacheOk (enc : FecEncoder crate) : Prop :=
  ∀ rs, enc.cachedRs = some rs →
    crate.new enc.cachedDataCount enc.cachedParityCount = .ok rs

theorem new_cacheOk
    (redundancy : F32) :
    (new redundancy : FecEncoder crate).CacheOk := by
  intro rs hrs
  exact absurd hrs (by simp [new])

theorem setRedundancy_cacheOk
    {enc : FecEncoder crate} (h : enc.CacheOk) (redundancy : F32) :
    (enc.setRedundancy redundancy).CacheOk := by
  unfold setRedundancy
  simp only
  split_ifs
  · intro rs hrs
    exact absurd hrs (by simp)
  · exact h

/-- The new redundancy depends on the old one only. -/
theorem setRedundancy_redundancy
    (enc : FecEncoder crate) (redundancy : F32) :
    (enc.setRedundancy redundancy).redundancy =
      if f32Epsilon < (Flt.sub (clampUnit redundancy) enc.redundancy).abs then
        clampUnit redundancy
      else enc.redundancy := by
  unfold setRedundancy
  simp only
  split_ifs <;> rfl

/-- A NaN is not taken over. -/
theorem setRedundancy_unit
    {enc : FecEncoder crate} (h : UnitInterval enc.redundancy) (redundancy : F32) :
    UnitInterval (enc.setRedundancy redundancy).redundancy := by
  rw [setRedundancy_redundancy]
  split_ifs with hlt
  · refine clampUnit_unit ?_
    cases hnan : redundancy.isNaN with
    | false => rfl
    | true =>
        have hclamp : clampUnit redundancy = redundancy := by
          simp [clampUnit, Flt.lt_def, hnan]
        have hsub : (Flt.sub (clampUnit redundancy) enc.redundancy).abs.isNaN = true := by
          rw [hclamp]
          simp only [Flt.sub, hnan, Bool.true_or, if_true]
          decide
        exact absurd hlt.2.1 (by simp [hsub])
  · exact h

/-- The instance that `encode` uses, cached or new, is the crate's own. -/
theorem reuseRs_spec
    {enc : FecEncoder crate} (henc : enc.CacheOk) (d p : Nat) :
    match enc.reuseRs d p with
    | .error e => crate.new d p = .error e
    | .ok (rs, enc') =>
        crate.new d p = .ok rs ∧ enc'.CacheOk ∧ enc'.redundancy = enc.redundancy := by
  have hrenew : match enc.renewRs d p with
      | .error e => crate.new d p = .error e
      | .ok (rs, enc') =>
          crate.new d p = .ok rs ∧ enc'.CacheOk ∧
            enc'.redundancy = enc.redundancy := by
    unfold renewRs
    cases hnew : crate.new d p with
    | error e => rfl
    | ok rs =>
        refine ⟨rfl, ?_, rfl⟩
        intro rs' hrs'
        cases hrs'
        exact hnew
  unfold reuseRs
  cases hcached : enc.cachedRs with
  | none => exact hrenew
  | some rs =>
      simp only
      split_ifs with hcounts
      · exact hrenew
      · rw [not_or, not_not, not_not] at hcounts
        obtain ⟨rfl, rfl⟩ := hcounts
        exact ⟨henc rs hcached, henc, rfl⟩

/-- Encoding keeps the redundancy and a correct cache. -/
theorem encode_state
    {enc : FecEncoder crate} (henc : enc.CacheOk) (dataShards : List Shard) :
    (enc.encode dataShards).2.CacheOk ∧
      (enc.encode dataShards).2.redundancy = enc.redundancy := by
  unfold encode
  cases dataShards with
  | nil => exact ⟨henc, rfl⟩
  | cons first rest =>
      simp only
      split_ifs
      · exact ⟨henc, rfl⟩
      · have hrs := reuseRs_spec henc (first :: rest).length
          (parityFor enc.redundancy (first :: rest).length)
        cases hreuse : enc.reuseRs (first :: rest).length
            (parityFor enc.redundancy (first :: rest).length) with
        | error e => exact ⟨henc, rfl⟩
        | ok res =>
            rw [hreuse] at hrs
            simp only
            split <;> exact hrs.2

/-- As many data shards as fit are encoded. -/
theorem encode_ok
    (hcrate : crate.Correct) {enc : FecEncoder crate} (henc : enc.CacheOk)
    (hunit : UnitInterval enc.redundancy) {data : List Shard} {size : Nat}
    (hne : data ≠ []) (hsize : 0 < size) (hlen : ∀ shard ∈ data, shard.length = size)
    (hmax : data.length ≤ maxDataShards enc.redundancy) :
    ∃ parity : List Shard,
      (enc.encode data).1 = .ok (data ++ parity) ∧
      parity.length = parityFor enc.redundancy data.length ∧
      data.length + parity.length ≤ RS_MAX_TOTAL_SHARDS ∧
      (∀ shard ∈ parity, shard.length = size) ∧
      Protects crate data parity := by
  have hpos : 0 < data.length := List.length_pos_iff.mpr hne
  have hfits : data.length + parityFor enc.redundancy data.length ≤
      RS_MAX_TOTAL_SHARDS := by
    rcases add_parityFor_le hunit hmax with h | h
    · exact h
    · omega
  obtain ⟨rs, hnew⟩ := (hcrate.new_isOk _ _).mpr
    ⟨hpos, parityFor_pos enc.redundancy data.length, hfits⟩
  obtain ⟨parity, hcount, hparity, hencode, hrec⟩ :=
    hcrate.code _ _ rs hnew data size rfl hsize hlen
  refine ⟨parity, ?_, hcount, by omega, hparity, ?_⟩
  · have hrs := reuseRs_spec henc data.length (parityFor enc.redundancy data.length)
    unfold encode
    cases data with
    | nil => exact absurd rfl hne
    | cons first rest =>
        have hfirst := hlen first (List.mem_cons_self)
        have hequal : ((first :: rest).any fun s => s.length != first.length) = false := by
          rw [List.any_eq_false]
          intro s hs
          simp [hlen s hs, hfirst]
        simp only [hequal]
        cases hreuse : enc.reuseRs (first :: rest).length
            (parityFor enc.redundancy (first :: rest).length) with
        | error e =>
            rw [hreuse] at hrs
            rw [hnew] at hrs
            exact absurd hrs (by simp)
        | ok res =>
            rw [hreuse, hnew] at hrs
            obtain ⟨heq, -, -⟩ := hrs
            cases heq
            simp only [hfirst, hencode]
            rfl
  · intro shards hreceived henough
    have htotal : shards.length = data.length + parity.length := by
      rw [hreceived.length_eq, List.length_append]
    have hp := parityFor_pos enc.redundancy data.length
    have hcountEq : shards.length - data.length =
        parityFor enc.redundancy data.length := by
      omega
    unfold FecDecoder.decode
    simp only
    rw [if_neg (by omega), hcountEq, hnew]
    simp only
    rw [hrec shards hreceived henough]
    simp only [List.map_append, List.take_left' (List.length_map some), List.map_map]
    congr 1
    exact List.map_id data

end FecEncoder
end Engine
end FocusVision
