import FocusVision.Engine.FrameEncoder

/-!
# The sizes of the slices

The loop of `SliceSplitter::split` gives one byte more to each of its first
`remainder` slices.  What the sender's layout and the receiver's concatenation use
follows from the list of sizes: the slices are the frame, none differs from another
by more than a byte, and the first one is the longest.
-/

namespace FocusVision
namespace Engine

open Bytes

/-- The sizes from slice `i` on: the larger ones that are left, then the smaller. -/
theorem splitLoop_lengths
    {data : List UInt8} {baseSize remainder todo i offset : Nat}
    (hrem : remainder ≤ i + todo)
    (hlen : offset + todo * baseSize + (remainder - i) = data.length) :
    (splitLoop data baseSize remainder todo i offset).map List.length =
      List.replicate (remainder - i) (baseSize + 1) ++
        List.replicate (todo - (remainder - i)) baseSize := by
  induction todo generalizing i offset with
  | zero =>
      have hnone : remainder - i = 0 := by omega
      simp [splitLoop, hnone]
  | succ todo ih =>
      rw [Nat.add_mul, Nat.one_mul] at hlen
      by_cases hi : i < remainder
      · have hfits : offset + (baseSize + 1) ≤ data.length := by omega
        have hrest := @ih (i + 1) (offset + (baseSize + 1)) (by omega) (by omega)
        have hlarge : remainder - i = remainder - (i + 1) + 1 := by omega
        have hsmall : todo + 1 - (remainder - (i + 1) + 1) = todo - (remainder - (i + 1)) := by
          omega
        simp only [splitLoop, if_pos hi, if_pos hfits, List.map_cons, hrest]
        rw [hlarge, hsmall, List.replicate_succ, List.cons_append, List.length_take,
          List.length_drop, Nat.min_eq_left (by omega)]
      · have hfits : offset + baseSize ≤ data.length := by omega
        have hrest := @ih (i + 1) (offset + baseSize) (by omega) (by omega)
        have hnone : remainder - i = 0 := by omega
        have hnext : remainder - (i + 1) = 0 := by omega
        simp only [splitLoop, if_neg hi, if_pos hfits, List.map_cons, hrest]
        rw [hnone, hnext, Nat.sub_zero, Nat.sub_zero, List.replicate_succ, List.length_take,
          List.length_drop, Nat.min_eq_left (by omega)]
        rfl

/-- How many slices there are: one when there is nothing to split. -/
def sliceNumber (data : List UInt8) (count : Nat) : Nat :=
  if data = [] then 1 else max 1 count

theorem sliceNumber_pos
    (data : List UInt8) (count : Nat) :
    0 < sliceNumber data count := by
  unfold sliceNumber
  split_ifs <;> omega

/-- Every size at once: the remainder goes to the first slices, a byte each. -/
theorem split_lengths
    (data : List UInt8) (count : Nat) :
    (split data count).map List.length =
      List.replicate (data.length % sliceNumber data count)
          (data.length / sliceNumber data count + 1) ++
        List.replicate (sliceNumber data count - data.length % sliceNumber data count)
          (data.length / sliceNumber data count) := by
  unfold split
  split_ifs with hone
  · have hnumber : sliceNumber data count = 1 := by
      unfold sliceNumber
      rcases hone with hzero | hempty
      · simp [hzero]
      · simp [hempty]
    rw [hnumber]
    simp [Nat.mod_one]
  · obtain ⟨hcount, hdata⟩ := not_or.mp hone
    have hnumber : sliceNumber data count = count := by
      unfold sliceNumber
      rw [if_neg hdata]
      omega
    have hdiv := Nat.div_add_mod data.length count
    have hmod := Nat.mod_lt data.length (Nat.pos_of_ne_zero hcount)
    rw [hnumber]
    exact splitLoop_lengths (by omega) (by omega)

theorem split_flatten
    (data : List UInt8) (count : Nat) :
    (split data count).flatten = data := by
  by_cases hone : count = 0 ∨ data = []
  · simp [split, hone]
  · obtain ⟨hcount, hdata⟩ := not_or.mp hone
    exact (split_spec hdata (Nat.pos_of_ne_zero hcount)).1

theorem split_length
    (data : List UInt8) (count : Nat) :
    (split data count).length = sliceNumber data count := by
  have hmod := Nat.mod_lt data.length (sliceNumber_pos data count)
  have hsum := congrArg List.length (split_lengths data count)
  rw [List.length_map, List.length_append, List.length_replicate, List.length_replicate] at hsum
  omega

/-- A quotient rounded up is the quotient, and one more when something is left. -/
theorem ceilDiv_eq
    (len : Nat) {n : Nat} (hn : 0 < n) :
    ceilDiv len n = if len % n = 0 then len / n else len / n + 1 := by
  have hdiv := Nat.div_add_mod len n
  have hmod := Nat.mod_lt len hn
  split_ifs with hzero
  · refine Nat.le_antisymm ?_ ?_
    · rw [ceilDiv_le_iff hn, Nat.mul_comm]
      omega
    · refine Nat.le_of_mul_le_mul_right ?_ hn
      have hup := le_ceilDiv_mul len hn
      rw [Nat.mul_comm (len / n)]
      omega
  · refine Nat.le_antisymm ?_ ?_
    · rw [ceilDiv_le_iff hn, Nat.add_mul, Nat.one_mul, Nat.mul_comm]
      omega
    · refine Nat.lt_of_mul_lt_mul_right (a := n) ?_
      have hup := le_ceilDiv_mul len hn
      rw [Nat.mul_comm (len / n)]
      omega

theorem split_pairwise
    (data : List UInt8) (count : Nat) :
    ((split data count).map List.length).Pairwise fun a b => b ≤ a ∧ a ≤ b + 1 := by
  rw [split_lengths, List.pairwise_append]
  refine ⟨?_, ?_, ?_⟩
  · exact List.pairwise_replicate.mpr (Or.inr ⟨Nat.le_refl _, Nat.le_succ _⟩)
  · exact List.pairwise_replicate.mpr (Or.inr ⟨Nat.le_refl _, Nat.le_succ _⟩)
  · intro a ha b hb
    rw [List.eq_of_mem_replicate ha, List.eq_of_mem_replicate hb]
    exact ⟨Nat.le_succ _, Nat.le_refl _⟩

theorem split_first
    (data : List UInt8) (count : Nat) :
    ((split data count).map List.length).head? =
      some (ceilDiv data.length (sliceNumber data count)) := by
  have hpos := sliceNumber_pos data count
  rw [split_lengths, ceilDiv_eq data.length hpos]
  split_ifs with hzero
  · rw [hzero, Nat.sub_zero, List.replicate_zero, List.nil_append, List.head?_replicate,
      if_neg (Nat.ne_of_gt hpos)]
  · rw [List.head?_append, List.head?_replicate, if_neg hzero]
    rfl

theorem split_nonempty
    {data : List UInt8} {count : Nat} (hlen : sliceNumber data count ≤ data.length) :
    ∀ slice ∈ split data count, slice ≠ [] := by
  intro slice hslice hempty
  have hbase : 0 < data.length / sliceNumber data count :=
    Nat.div_pos hlen (sliceNumber_pos data count)
  have hsize : slice.length ∈ (split data count).map List.length :=
    List.mem_map_of_mem hslice
  rw [split_lengths, hempty, List.length_nil, List.mem_append] at hsize
  rcases hsize with hlarge | hsmall
  · exact absurd (List.eq_of_mem_replicate hlarge) (by omega)
  · exact absurd (List.eq_of_mem_replicate hsmall) (by omega)

/-- The slices give the input back; there are as many as requested (at least one, and
one for an empty input), longer ones first, all within a byte of each other. -/
theorem split_even
    (data : List UInt8) (count : Nat) :
    (split data count).flatten = data ∧
      (split data count).length = (if data = [] then 1 else max 1 count) ∧
      ((split data count).map List.length).Pairwise (fun a b => b ≤ a ∧ a ≤ b + 1) ∧
      ((split data count).map List.length).head? =
        some (ceilDiv data.length (split data count).length) ∧
      ((split data count).length ≤ data.length → ∀ slice ∈ split data count, slice ≠ []) := by
  have hnumber := split_length data count
  refine ⟨split_flatten data count, hnumber, split_pairwise data count, ?_, ?_⟩
  · rw [hnumber]
    exact split_first data count
  · intro hlen
    exact split_nonempty (Nat.le_trans (Nat.le_of_eq hnumber.symm) hlen)

/-- An empty input is one empty slice, however many are requested. -/
theorem split_empty_number :
    (split [] 4).length = 1 ∧ (split [] 4).length ≠ max 1 4 := by
  decide

end Engine
end FocusVision
