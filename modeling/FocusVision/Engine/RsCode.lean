import FocusVision.Engine.Fec
import FocusVision.Client.FecDecoderState

/-!
# The code of the Reed-Solomon crate

`RsCrate.Vandermonde` says which code the crate uses: `rsMatrix`, the matrix that
the client's decoder was written for.  Such a crate is correct.

`galois8` is a crate of this kind that can be run; its elimination is the
client's.
-/

namespace FocusVision
namespace Engine

open Bytes Client Gf

section CodeWord

variable {d p : Nat}

/-- The code word of `data`: `d` data shards, then `p` of parity. -/
noncomputable def codeWord (d p : Nat) (data : List Shard) (size : Nat) : List Shard :=
  (List.finRange (d + p)).map (codeShard (Nat.le_add_right d p) data size)

@[simp] theorem length_codeWord
    (data : List Shard) (size : Nat) :
    (codeWord d p data size).length = d + p := by
  simp [codeWord]

theorem length_of_mem_codeWord
    {data : List Shard} {size : Nat} {shard : Shard} (h : shard ∈ codeWord d p data size) :
    shard.length = size := by
  obtain ⟨i, -, rfl⟩ := List.mem_map.mp h
  exact codeShard_length _ data size i

theorem codeWord_getElem?
    (data : List Shard) (size : Nat) (i : Fin (d + p)) :
    (codeWord d p data size)[i.val]? =
      some (codeShard (Nat.le_add_right d p) data size i) := by
  simp [codeWord, i.isLt]

theorem take_codeWord
    {data : List Shard} {size : Nat} (hle : d + p ≤ RS_MAX_TOTAL_SHARDS)
    (hlen : ∀ shard ∈ data, shard.length = size) (hdata : data.length = d) :
    (codeWord d p data size).take d = data := by
  refine List.ext_getElem? fun i => ?_
  rw [List.getElem?_take]
  split_ifs with hi
  · have h := codeShard_data (Nat.le_add_right d p) data size hle hlen hdata ⟨i, hi⟩
    have hget := codeWord_getElem? data size (Fin.castLE (Nat.le_add_right d p) ⟨i, hi⟩)
    rw [h] at hget
    simp only [Fin.val_castLE] at hget
    have hlt : i < data.length := by omega
    rw [hget, List.getElem?_eq_getElem hlt, List.getD_eq_getElem?_getD,
      List.getElem?_eq_getElem hlt, Option.getD_some]
  · rw [List.getElem?_eq_none (by omega)]

end CodeWord

/-- A crate whose code is `rsMatrix`. -/
structure RsCrate.Vandermonde (crate : RsCrate) : Prop where
  new_isOk : ∀ d p,
    (∃ rs, crate.new d p = .ok rs) ↔ 0 < d ∧ 0 < p ∧ d + p ≤ RS_MAX_TOTAL_SHARDS
  encode : ∀ d p rs, crate.new d p = .ok rs →
    ∀ (data : List Shard) (size : Nat), data.length = d → 0 < size →
    (∀ shard ∈ data, shard.length = size) →
    crate.encode rs (data ++ List.replicate p (List.replicate size 0)) =
      .ok (codeWord d p data size)
  reconstruct : ∀ d p rs, crate.new d p = .ok rs →
    ∀ (data : List Shard) (size : Nat), data.length = d → 0 < size →
    (∀ shard ∈ data, shard.length = size) →
    ∀ shards, Received (codeWord d p data size) shards → d ≤ presentCount shards →
      crate.reconstruct rs shards = (.ok (), (codeWord d p data size).map some)

theorem RsCrate.Vandermonde.correct
    {crate : RsCrate} (h : crate.Vandermonde) :
    crate.Correct := by
  refine ⟨h.new_isOk, ?_⟩
  intro d p rs hnew data size hdata hsize hlen
  obtain ⟨-, -, hle⟩ := (h.new_isOk d p).mp ⟨rs, hnew⟩
  have htake := take_codeWord (p := p) hle hlen hdata
  have hsplit : data ++ (codeWord d p data size).drop d = codeWord d p data size := by
    have h := List.take_append_drop d (codeWord d p data size)
    rwa [htake] at h
  refine ⟨(codeWord d p data size).drop d, ?_, ?_, ?_, ?_⟩
  · simp
  · exact fun shard hshard => length_of_mem_codeWord (List.mem_of_mem_drop hshard)
  · rw [hsplit]
    exact h.encode d p rs hnew data size hdata hsize hlen
  · rw [hsplit]
    exact h.reconstruct d p rs hnew data size hdata hsize hlen

/-! ### A crate that runs -/

/-- The rows of the encoding matrix times the data shards. -/
def encodeShards (total n : Nat) (data : List Shard) (size : Nat) : Option (List Shard) :=
  (buildEncodingMatrix total n).map fun fullE =>
    (List.range total).map fun i => (List.range size).map fun b =>
      gfDot n (fun j => (fullE.getD i []).getD j 0) fun j => (data.getD j []).getD b 0

/-- A decoder that holds these shards. -/
def decoderOf (d p size : Nat) (shards : List (Option Shard)) : FecFrameDecoder :=
  { m_active := true
    m_totalShards := d + p
    m_dataShards := d
    m_shardSize := size
    m_receivedCount := presentCount shards
    m_shards := shards }

def galois8 : RsCrate where
  ReedSolomon := Nat × Nat
  new d p :=
    if d = 0 then .error "TooFewDataShards"
    else if p = 0 then .error "TooFewParityShards"
    else if d + p > RS_MAX_TOTAL_SHARDS then .error "TooManyShards"
    else .ok (d, p)
  encode rs shards :=
    match encodeShards (rs.1 + rs.2) rs.1 shards (shards.headD []).length with
    | some word => .ok word
    | none => .error "SingularMatrix"
  reconstruct rs shards :=
    let size := ((shards.find? Option.isSome).join.getD []).length
    match (decoderOf rs.1 rs.2 size shards).tryDecode.1 with
    | none => (.error "TooFewShardsPresent", shards)
    | some frame =>
        match encodeShards (rs.1 + rs.2) rs.1 (paddedBlocks size rs.1 frame.data) size with
        | some word => (.ok (), word.map some)
        | none => (.error "SingularMatrix", shards)

theorem encodeShards_eq
    {d p : Nat} (hle : d + p ≤ RS_MAX_TOTAL_SHARDS) {data shards : List Shard} (size : Nat)
    (hdata : ∀ j < d, shards.getD j [] = data.getD j []) :
    encodeShards (d + p) d shards size = some (codeWord d p data size) := by
  obtain ⟨fullE, hbuild, hentry⟩ := buildEncodingMatrix_eq (Nat.le_add_right d p) hle
  unfold encodeShards
  rw [hbuild, Option.map_some, Option.some.injEq]
  refine List.ext_getElem (by simp) fun i hi hi' => ?_
  have hlt : i < d + p := by simpa using hi
  have hget := codeWord_getElem? data size (⟨i, hlt⟩ : Fin (d + p))
  rw [List.getElem?_eq_getElem hi', Option.some.injEq] at hget
  rw [hget, List.getElem_map, List.getElem_range]
  refine ext_getD size (by simp) (codeShard_length _ data size _) fun b hb => ?_
  rw [getD_map_range _ _ hb]
  have hsum := gfDot_eq_sum d (fun j => (fullE.getD i []).getD j 0)
    fun j => (shards.getD j []).getD b 0
  have hshard := codeShard_getD (Nat.le_add_right d p) data size ⟨i, hlt⟩ hb
  refine congrArg GF256.byte (hsum.trans (Eq.trans ?_ hshard.symm))
  refine Finset.sum_congr rfl fun j _ => ?_
  rw [← hentry ⟨i, hlt⟩ j, hdata j.val j.isLt]

/-- Blocks of the right size are cut where they were joined. -/
theorem paddedBlocks_flatten
    {size : Nat} {data : List Shard} (hlen : ∀ shard ∈ data, shard.length = size) :
    paddedBlocks size data.length data.flatten = data := by
  induction data with
  | nil => rfl
  | cons shard data ih =>
      have hshard := hlen shard List.mem_cons_self
      rw [List.length_cons, paddedBlocks, List.flatten_cons, List.take_left' hshard,
        List.drop_left' hshard, ih fun s hs => hlen s (List.mem_cons_of_mem _ hs),
        List.length_append, hshard, Nat.sub_eq_zero_of_le (Nat.le_add_right _ _)]
      simp

theorem Received.get
    {word : List Shard} {shards : List (Option Shard)} (h : Received word shards) {i : Nat}
    {shard : Shard} (hi : shards[i]? = some (some shard)) :
    word[i]? = some shard := by
  unfold Received at h
  induction h generalizing i with
  | nil => exact absurd hi (by simp)
  | cons hhead htail ih =>
      cases i with
      | zero =>
          simp only [List.getElem?_cons_zero, Option.some.injEq] at hi ⊢
          rcases hhead with h | h
          · rw [h] at hi
            exact absurd hi (by simp)
          · rw [h] at hi
            exact Option.some.inj hi
      | succ i => exact ih hi

theorem presentCount_eq_card
    (shards : List (Option Shard)) :
    presentCount shards =
      ((Finset.range shards.length).filter fun i => (shards.getD i none).isSome = true).card := by
  induction shards using List.reverseRecOn with
  | nil => rfl
  | append_singleton shards s ih =>
      have hold : ∀ i ∈ Finset.range shards.length,
          ((shards ++ [s]).getD i none).isSome = (shards.getD i none).isSome := by
        intro i hi
        rw [List.getD_eq_getElem?_getD, List.getD_eq_getElem?_getD,
          List.getElem?_append_left (Finset.mem_range.mp hi)]
      have hlast : ((shards ++ [s]).getD shards.length none).isSome = s.isSome := by
        simp [List.getD_eq_getElem?_getD]
      unfold presentCount at ih ⊢
      rw [List.countP_append, List.length_append, List.length_singleton,
        Finset.range_add_one, Finset.filter_insert, hlast,
        Finset.filter_congr fun i hi => by rw [hold i hi], ih, List.countP_singleton]
      cases s with
      | none => simp
      | some s =>
          simp only [Option.isSome_some, if_true]
          rw [Finset.card_insert_of_notMem (by simp)]

section Galois8

variable {d p : Nat} {data : List Shard} {size : Nat} {shards : List (Option Shard)}

/-- The shards that are here are shards of the code word. -/
theorem shard_decoderOf
    (h : Received (codeWord d p data size) shards) {i : Nat}
    (hi : (shards.getD i none).isSome = true) :
    ∃ hlt : i < d + p,
      (decoderOf d p size shards).shard i =
        codeShard (Nat.le_add_right d p) data size ⟨i, hlt⟩ := by
  obtain ⟨shard, hshard⟩ := Option.isSome_iff_exists.mp hi
  rw [List.getD_eq_getElem?_getD] at hshard
  have hget : shards[i]? = some (some shard) := by
    cases hs : shards[i]? with
    | none => rw [hs] at hshard; exact absurd hshard (by simp)
    | some s => rw [hs] at hshard; rw [← hshard]; rfl
  have hword := h.get hget
  have hlt : i < d + p := by
    have := (List.getElem?_eq_some_iff.mp hword).1
    rwa [length_codeWord] at this
  refine ⟨hlt, ?_⟩
  rw [codeWord_getElem? data size ⟨i, hlt⟩, Option.some.injEq] at hword
  rw [hword]
  simp [FecFrameDecoder.shard, decoderOf, List.getD_eq_getElem?_getD, hget]

theorem decoderOf_wellFormed
    (hd : 0 < d) (hle : d + p ≤ RS_MAX_TOTAL_SHARDS) (hsize : 0 < size)
    (h : Received (codeWord d p data size) shards) (henough : d ≤ presentCount shards) :
    (decoderOf d p size shards).WellFormed where
  cache := by simp [CacheOk, EncodingMatrixCache.valid, decoderOf]
  length := by
    have := h.length_eq
    rwa [length_codeWord] at this
  count := by
    have hlen := h.length_eq
    rw [length_codeWord] at hlen
    rw [FecFrameDecoder.receivedSet]
    simp only [decoderOf]
    rw [presentCount_eq_card, hlen]
    rfl
  size := by
    intro i hi
    obtain ⟨hlt, hshard⟩ := shard_decoderOf h hi
    rw [hshard, codeShard_length]
    rfl
  size_pos := fun _ => hsize
  size_zero := fun hzero => by
    simp only [decoderOf] at hzero
    omega
  counts := fun _ => by
    simp only [decoderOf, RS_MAX_TOTAL_SHARDS, MAX_TOTAL_SHARDS] at hle ⊢
    omega

theorem decoderOf_tryDecode
    (hd : 0 < d) (hle : d + p ≤ RS_MAX_TOTAL_SHARDS) (hsize : 0 < size)
    (hdata : data.length = d) (hlen : ∀ shard ∈ data, shard.length = size)
    (h : Received (codeWord d p data size) shards) (henough : d ≤ presentCount shards) :
    ∃ frame, (decoderOf d p size shards).tryDecode.1 = some frame ∧
      frame.data = data.flatten := by
  have hword : (decoderOf d p size shards).InCodeWord data :=
    { total_le := hle
      data_le := Nat.le_add_right d p
      data_length := hdata
      data_size := hlen
      shard_eq := fun i hi => (shard_decoderOf h hi).2 }
  obtain ⟨c, -, hdecode⟩ := FecFrameDecoder.tryDecode_eq_some
    (decoderOf_wellFormed hd hle hsize h henough) hword rfl rfl henough
  exact ⟨_, by rw [hdecode], rfl⟩

/-- The first shard that is here has the size of all. -/
theorem size_of_find
    (h : Received (codeWord d p data size) shards) (hpos : 0 < presentCount shards) :
    ((shards.find? Option.isSome).join.getD []).length = size := by
  cases hfind : shards.find? Option.isSome with
  | none =>
      rw [List.find?_eq_none] at hfind
      unfold presentCount at hpos
      obtain ⟨s, hs, hsome⟩ := List.countP_pos_iff.mp hpos
      exact absurd hsome (hfind s hs)
  | some s =>
      have hsome := List.find?_some hfind
      obtain ⟨shard, rfl⟩ := Option.isSome_iff_exists.mp hsome
      obtain ⟨i, hi⟩ := List.mem_iff_getElem?.mp (List.mem_of_find?_eq_some hfind)
      exact length_of_mem_codeWord (List.mem_of_getElem? (h.get hi))

end Galois8

theorem galois8_vandermonde :
    galois8.Vandermonde := by
  have hnew : ∀ d p rs, galois8.new d p = .ok rs →
      rs = (d, p) ∧ 0 < d ∧ 0 < p ∧ d + p ≤ RS_MAX_TOTAL_SHARDS := by
    intro d p rs h
    simp only [galois8] at h
    split_ifs at h with hd hp hle
    cases h
    exact ⟨rfl, by omega, by omega, by omega⟩
  constructor
  · intro d p
    constructor
    · rintro ⟨rs, h⟩
      exact (hnew d p rs h).2
    · rintro ⟨hd, hp, hle⟩
      refine ⟨(d, p), ?_⟩
      simp only [galois8]
      rw [if_neg (by omega), if_neg (by omega), if_neg (by omega)]
  · intro d p rs h data size hdata hsize hlen
    obtain ⟨rfl, hd, -, hle⟩ := hnew d p rs h
    have hhead : ((data ++ List.replicate p (List.replicate size 0)).headD []).length =
        size := by
      cases data with
      | nil => exact absurd hdata (by simp; omega)
      | cons shard data => exact hlen shard List.mem_cons_self
    have hshards : ∀ j < d,
        (data ++ List.replicate p (List.replicate size (0 : UInt8))).getD j [] =
          data.getD j [] := by
      intro j hj
      rw [List.getD_eq_getElem?_getD, List.getD_eq_getElem?_getD,
        List.getElem?_append_left (by omega)]
    simp only [galois8]
    rw [hhead, encodeShards_eq hle size hshards]
  · intro d p rs h data size hdata hsize hlen shards hreceived henough
    obtain ⟨rfl, hd, -, hle⟩ := hnew d p rs h
    obtain ⟨frame, hdecode, hframe⟩ :=
      decoderOf_tryDecode hd hle hsize hdata hlen hreceived henough
    have hfind := size_of_find hreceived (by omega)
    simp only [galois8]
    rw [hfind, hdecode]
    simp only
    rw [hframe, ← hdata, paddedBlocks_flatten hlen, hdata,
      encodeShards_eq hle size (fun j _ => rfl)]

end Engine
end FocusVision
