import Mathlib.Algebra.Order.Ring.Nat
import Mathlib.Data.List.Basic
import Mathlib.Tactic.Ring

/-!
# Byte strings

Little- and big-endian integers of a fixed number of bytes, and the cutting of a
byte string into blocks of one size, where the last one may be shorter or is padded
with zeros.
-/

namespace FocusVision
namespace Bytes

/-- The `k` low bytes of `n`, least significant first. -/
def leBytes : Nat → Nat → List UInt8
  | 0, _ => []
  | k + 1, n => UInt8.ofNat n :: leBytes k (n / 256)

/-- The `k` low bytes of `n`, most significant first. -/
def beBytes (k n : Nat) : List UInt8 :=
  (leBytes k n).reverse

/-- The number that little-endian bytes stand for. -/
def ofLeBytes : List UInt8 → Nat
  | [] => 0
  | b :: bs => b.toNat + 256 * ofLeBytes bs

@[simp] theorem length_leBytes
    (k n : Nat) :
    (leBytes k n).length = k := by
  induction k generalizing n with
  | zero => rfl
  | succ k ih => simp [leBytes, ih]

@[simp] theorem length_beBytes
    (k n : Nat) :
    (beBytes k n).length = k := by
  simp [beBytes]

/-- `k` bytes hold every number below `256 ^ k`. -/
theorem ofLeBytes_leBytes
    {k n : Nat} (h : n < 256 ^ k) :
    ofLeBytes (leBytes k n) = n := by
  induction k generalizing n with
  | zero =>
      simp only [pow_zero, Nat.lt_one_iff] at h
      simp [leBytes, ofLeBytes, h]
  | succ k ih =>
      have hdiv : n / 256 < 256 ^ k := by
        rw [Nat.div_lt_iff_lt_mul (by omega), ← pow_succ]
        exact h
      have hmod := Nat.mod_add_div n 256
      simp only [leBytes, ofLeBytes, ih hdiv, UInt8.toNat_ofNat']
      omega

theorem leBytes_ofLeBytes
    (bs : List UInt8) :
    leBytes bs.length (ofLeBytes bs) = bs := by
  induction bs with
  | nil => rfl
  | cons b bs ih =>
      have hb := b.toNat_lt
      have hdiv : (b.toNat + 256 * ofLeBytes bs) / 256 = ofLeBytes bs := by omega
      have hmod : (b.toNat + 256 * ofLeBytes bs) % 256 = b.toNat := by omega
      have hhead : UInt8.ofNat (b.toNat + 256 * ofLeBytes bs) = b := by
        apply UInt8.toNat_inj.mp
        rw [UInt8.toNat_ofNat']
        exact hmod
      simp only [List.length_cons, leBytes, ofLeBytes, hdiv, hhead, ih]

/-- `n / size`, rounded up: the number of blocks. -/
def ceilDiv (n size : Nat) : Nat :=
  (n + size - 1) / size

theorem le_ceilDiv_mul
    (n : Nat) {size : Nat} (hsize : 0 < size) :
    n ≤ ceilDiv n size * size := by
  have hdiv := Nat.div_add_mod (n + size - 1) size
  have hmod := Nat.mod_lt (n + size - 1) hsize
  rw [Nat.mul_comm] at hdiv
  unfold ceilDiv
  omega

theorem ceilDiv_le_iff
    {n size k : Nat} (hsize : 0 < size) :
    ceilDiv n size ≤ k ↔ n ≤ k * size := by
  unfold ceilDiv
  rw [← Nat.lt_add_one_iff, Nat.div_lt_iff_lt_mul hsize, Nat.add_mul, Nat.one_mul]
  omega

theorem ceilDiv_pos
    {n size : Nat} (hsize : 0 < size) (hn : 0 < n) :
    0 < ceilDiv n size := by
  rw [Nat.pos_iff_ne_zero]
  intro h
  have := (ceilDiv_le_iff (n := n) (k := 0) hsize).mp (Nat.le_of_eq h)
  omega

/-- The first `count` blocks of `data`, where the last one may be shorter. -/
def blocks (size : Nat) : Nat → List UInt8 → List (List UInt8)
  | 0, _ => []
  | count + 1, data => data.take size :: blocks size count (data.drop size)

/-- All blocks of `data`. -/
def chunks (size : Nat) (data : List UInt8) : List (List UInt8) :=
  blocks size (ceilDiv data.length size) data

@[simp] theorem length_blocks
    (size count : Nat) (data : List UInt8) :
    (blocks size count data).length = count := by
  induction count generalizing data with
  | zero => rfl
  | succ count ih => simp [blocks, ih]

theorem flatten_blocks
    {size count : Nat} {data : List UInt8} (h : data.length ≤ count * size) :
    (blocks size count data).flatten = data := by
  induction count generalizing data with
  | zero =>
      have hnil : data = [] := List.eq_nil_of_length_eq_zero (by omega)
      simp [blocks, hnil]
  | succ count ih =>
      have hdrop : (data.drop size).length ≤ count * size := by
        rw [Nat.add_mul, Nat.one_mul] at h
        rw [List.length_drop]
        omega
      rw [blocks, List.flatten_cons, ih hdrop, List.take_append_drop]

@[simp] theorem length_chunks
    (size : Nat) (data : List UInt8) :
    (chunks size data).length = ceilDiv data.length size :=
  length_blocks size _ data

theorem flatten_chunks
    {size : Nat} (hsize : 0 < size) (data : List UInt8) :
    (chunks size data).flatten = data :=
  flatten_blocks (le_ceilDiv_mul data.length hsize)

/-- The first `count` blocks of `data`, each padded with zeros to `size`. -/
def paddedBlocks (size : Nat) : Nat → List UInt8 → List (List UInt8)
  | 0, _ => []
  | count + 1, data =>
      (data.take size ++ List.replicate (size - data.length) 0) ::
        paddedBlocks size count (data.drop size)

@[simp] theorem length_paddedBlocks
    (size count : Nat) (data : List UInt8) :
    (paddedBlocks size count data).length = count := by
  induction count generalizing data with
  | zero => rfl
  | succ count ih => simp [paddedBlocks, ih]

theorem length_of_mem_paddedBlocks
    {size count : Nat} {data block : List UInt8}
    (h : block ∈ paddedBlocks size count data) :
    block.length = size := by
  induction count generalizing data with
  | zero => exact absurd h (by simp [paddedBlocks])
  | succ count ih =>
      rcases List.mem_cons.mp h with rfl | h
      · simp only [List.length_append, List.length_take, List.length_replicate]
        omega
      · exact ih h

/-- Enough blocks together are the data, padded with zeros. -/
theorem flatten_paddedBlocks
    {size count : Nat} {data : List UInt8} (h : data.length ≤ count * size) :
    (paddedBlocks size count data).flatten =
      data ++ List.replicate (count * size - data.length) 0 := by
  induction count generalizing data with
  | zero =>
      have hnil : data = [] := List.eq_nil_of_length_eq_zero (by omega)
      simp [paddedBlocks, hnil]
  | succ count ih =>
      rw [Nat.add_mul, Nat.one_mul] at h
      have hdrop : (data.drop size).length ≤ count * size := by
        rw [List.length_drop]
        omega
      rw [paddedBlocks, List.flatten_cons, ih hdrop]
      rcases Nat.le_total size data.length with hle | hlt
      · have hsame : (count + 1) * size - data.length =
            count * size - (data.drop size).length := by
          rw [List.length_drop, Nat.add_mul]
          omega
        rw [Nat.sub_eq_zero_of_le hle, List.replicate_zero, List.append_nil,
          ← List.append_assoc, List.take_append_drop, hsame]
      · have hzeros : (count + 1) * size - data.length =
            (size - data.length) + count * size := by
          rw [Nat.add_mul]
          omega
        rw [List.take_of_length_le hlt, List.drop_of_length_le hlt, hzeros,
          List.replicate_add, List.append_assoc]
        simp

end Bytes
end FocusVision
