import FocusVision.Client.FecDecoder
import FocusVision.Lib.SystematicCode

/-!
# The Reed-Solomon code on byte shards

`rsMatrix` is the code the engine's encoder uses: `E = V * V_top⁻¹` over
GF(2^8) with `V i j = i ^ j`.  A code word of data shards applies it to every
byte position.

The first result is that the client's `buildEncodingMatrix` computes exactly
`rsMatrix` whenever the counts fit one code word, so its elimination never
meets a singular `V_top`.  The second is that a code word's data shards are
determined by any `n` of its shards, for shards of any content.
-/

namespace FocusVision
namespace Client

open Gf GaussJordan SystematicCode

/-- Node `i` of the code: the byte `i`. -/
def rsNode (i : Nat) : GF256 :=
  ⟨UInt8.ofNat i⟩

theorem rsNode_injective {total : Nat} (ht : total ≤ 256) :
    Function.Injective fun i : Fin total => rsNode i.val := by
  intro i j h
  have hb : UInt8.ofNat i.val = UInt8.ofNat j.val := congrArg GF256.byte h
  have hn := congrArg UInt8.toNat hb
  simp only [UInt8.toNat_ofNat'] at hn
  apply Fin.ext
  omega

/-- The encoding matrix of `n` data shards in a code word of `total`. -/
noncomputable def rsMatrix {total n : Nat} (h : n ≤ total) :
    Matrix (Fin total) (Fin n) GF256 :=
  encodingMatrix (fun i => rsNode i.val) h

/-- Shard `i` of the code word of `data`, whose shards have `len` bytes. -/
noncomputable def codeShard {total n : Nat} (h : n ≤ total)
    (data : List (List UInt8)) (len : Nat) (i : Fin total) : List UInt8 :=
  (List.range len).map fun b =>
    (∑ j : Fin n, rsMatrix h i j * ⟨(data.getD j.val []).getD b 0⟩).byte

theorem vandEntry_eq {i : Nat} (hi : i < 256) (j : Nat) :
    vandEntry i j = (rsNode i ^ j).byte := by
  have hand : i &&& 0xFF = i := by
    rw [show (0xFF : Nat) = 2 ^ 8 - 1 by norm_num, Nat.and_two_pow_sub_one_eq_mod]
    exact Nat.mod_eq_of_lt hi
  rw [GF256.byte_pow, vandEntry, hand]
  rfl

/-- The `xor` of table products is the field's sum of products. -/
theorem gfDot_eq_sum
    (n : Nat) (f g : Nat → UInt8) :
    (⟨gfDot n f g⟩ : GF256) = ∑ k : Fin n, ⟨f k.val⟩ * ⟨g k.val⟩ := by
  induction n with
  | zero => rfl
  | succ n ih =>
      rw [Fin.sum_univ_castSucc]
      simp only [Fin.val_castSucc, Fin.val_last]
      rw [← ih]
      ext
      simp only [gfDot, List.range_succ, List.foldl_append, List.foldl_cons,
        List.foldl_nil, GF256.byte_add, GF256.byte_mul]

theorem getD_map_range
    {α : Type} (f : Nat → α) (d : α) {n i : Nat} (hi : i < n) :
    ((List.range n).map f).getD i d = f i := by
  simp [List.getD_eq_getElem?_getD, hi]

/-- `ensureEncodingMatrix` computes the engine's matrix, and never finds
`V_top` singular, for counts that fit one code word. -/
theorem buildEncodingMatrix_eq
    {total n : Nat} (hn : n ≤ total) (ht : total ≤ 256) :
    ∃ E, buildEncodingMatrix total n = some E ∧
      ∀ (i : Fin total) (j : Fin n),
        (⟨(E.getD i.val []).getD j.val 0⟩ : GF256) = rsMatrix hn i j := by
  have htop : toMatrix (topRows n) =
      powers ((fun i : Fin total => rsNode i.val) ∘ Fin.castLE hn) n := by
    funext r c
    rw [topRows, toMatrix_ofEntries]
    exact GF256.ext (vandEntry_eq (show r.val < 256 by omega) c.val)
  have hdet := powers_top_det_ne_zero (rsNode_injective ht) hn
  rw [← htop] at hdet
  obtain ⟨R, hR, hinv⟩ := invert_eq_some hdet
  refine ⟨_, by unfold buildEncodingMatrix; rw [hR], ?_⟩
  intro i j
  rw [getD_map_range _ _ i.isLt, getD_map_range _ _ j.isLt, gfDot_eq_sum]
  unfold rsMatrix encodingMatrix
  rw [← htop, ← hinv, Matrix.mul_apply]
  refine Finset.sum_congr rfl fun k _ => ?_
  congr 1
  · exact GF256.ext (vandEntry_eq (show i.val < 256 by omega) k.val)
  · simp [toMatrix]

section CodeWord

variable {total n : Nat} (h : n ≤ total) (data : List (List UInt8)) (len : Nat)

@[simp] theorem codeShard_length (i : Fin total) :
    (codeShard h data len i).length = len := by
  simp [codeShard]

theorem codeShard_getD
    (i : Fin total) {b : Nat} (hb : b < len) :
    (⟨(codeShard h data len i).getD b 0⟩ : GF256) =
      ∑ j : Fin n, rsMatrix h i j * ⟨(data.getD j.val []).getD b 0⟩ := by
  unfold codeShard
  rw [getD_map_range _ _ hb]

/-- Two shards of `len` bytes that agree at every position are equal. -/
theorem ext_getD
    {s t : List UInt8} (hs : s.length = len) (ht : t.length = len)
    (hst : ∀ b < len, s.getD b 0 = t.getD b 0) :
    s = t := by
  refine List.ext_getElem (hs.trans ht.symm) fun b hb hb' => ?_
  have := hst b (by omega)
  simpa [List.getD_eq_getElem?_getD, hb, hb'] using this

/-- The code is systematic: a code word starts with its data shards. -/
theorem codeShard_data
    (ht : total ≤ 256) (hlen : ∀ s ∈ data, s.length = len)
    (hdata : data.length = n) (i : Fin n) :
    codeShard h data len (Fin.castLE h i) = data.getD i.val [] := by
  have hi : i.val < data.length := by omega
  have hshard : (data.getD i.val []).length = len := by
    simpa [List.getD_eq_getElem?_getD, hi] using
      hlen data[i.val] (List.getElem_mem hi)
  refine ext_getD len (codeShard_length h data len _) hshard fun b hb => ?_
  have hsum := codeShard_getD h data len (Fin.castLE h i) hb
  simp only [rsMatrix, encodingMatrix_top (rsNode_injective ht) h, ite_mul,
    one_mul, zero_mul, Finset.sum_ite_eq, Finset.mem_univ, if_true] at hsum
  exact congrArg GF256.byte hsum

end CodeWord

end Client
end FocusVision
