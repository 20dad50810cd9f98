import FocusVision.Lib.Bytes

/-!
# Fields of a byte string

A message is written as fields one after the other, or over the bytes from an
offset on, and read back from a window at an offset.
-/

namespace FocusVision
namespace Bytes

/-- The `n` bytes from `offset` on. -/
def window (bs : List UInt8) (offset n : Nat) : List UInt8 :=
  (bs.drop offset).take n

/-- `bs`, with a field written over the bytes from `offset` on. -/
def overwrite (bs : List UInt8) (offset : Nat) (field : List UInt8) : List UInt8 :=
  bs.take offset ++ field ++ bs.drop (offset + field.length)

/-- The same for several fields, one after the other. -/
def overwriteAll (bs : List UInt8) (offset : Nat) : List (List UInt8) → List UInt8
  | [] => bs
  | field :: fields =>
      overwriteAll (overwrite bs offset field) (offset + field.length) fields

@[simp] theorem overwrite_nil
    (bs : List UInt8) (offset : Nat) :
    overwrite bs offset [] = bs := by
  simp [overwrite]

theorem overwrite_append
    {bs first second : List UInt8} {offset : Nat} (h : offset ≤ bs.length) :
    overwrite (overwrite bs offset first) (offset + first.length) second =
      overwrite bs offset (first ++ second) := by
  have hhead : (bs.take offset ++ first).length = offset + first.length := by
    rw [List.length_append, List.length_take, Nat.min_eq_left h]
  unfold overwrite
  rw [List.take_left' hhead, ← List.drop_drop, List.drop_left' hhead, List.drop_drop,
    List.length_append, List.append_assoc _ first second, Nat.add_assoc]

/-- Fields that are written one after the other are one field. -/
theorem overwriteAll_eq
    {bs : List UInt8} {offset : Nat} {fields : List (List UInt8)}
    (h : offset + fields.flatten.length ≤ bs.length) :
    overwriteAll bs offset fields = overwrite bs offset fields.flatten := by
  induction fields generalizing bs offset with
  | nil => simp [overwriteAll]
  | cons field fields ih =>
      simp only [List.flatten_cons, List.length_append] at h
      have hlength : (overwrite bs offset field).length = bs.length := by
        simp only [overwrite, List.length_append, List.length_take, List.length_drop]
        omega
      rw [overwriteAll, ih (by rw [hlength]; omega), overwrite_append (by omega),
        List.flatten_cons]

/-- All bytes are written over. -/
theorem overwrite_all
    {bs field : List UInt8} (h : bs.length = field.length) :
    overwrite bs 0 field = field := by
  simp [overwrite, h]

/-- One field is written over another one of its length. -/
theorem overwrite_middle
    {before field field' : List UInt8} {offset : Nat} (rest : List UInt8)
    (hoffset : before.length = offset) (hlength : field'.length = field.length) :
    overwrite (before ++ field ++ rest) offset field' = before ++ field' ++ rest := by
  have hhead : (before ++ field).length = offset + field'.length := by
    rw [List.length_append, hoffset, hlength]
  unfold overwrite
  rw [List.drop_left' hhead, List.append_assoc before field rest, List.take_left' hoffset]

/-- A field stands at an offset. -/
def FieldAt (bs : List UInt8) (offset : Nat) (field : List UInt8) : Prop :=
  window bs offset field.length = field

/-- A field of a message stands behind the fields before it. -/
theorem fieldAt_flatten
    {fields : List (List UInt8)} (i offset : Nat) {field : List UInt8}
    (hget : fields[i]? = some field)
    (hoffset : (fields.take i).flatten.length = offset) :
    FieldAt fields.flatten offset field := by
  induction fields generalizing i offset with
  | nil => simp at hget
  | cons first fields ih =>
      subst hoffset
      cases i with
      | zero =>
          obtain rfl : first = field := by simpa using hget
          simp [FieldAt, window]
      | succ i =>
          have hnext := ih i (fields.take i).flatten.length (by simpa using hget) rfl
          unfold FieldAt window at hnext ⊢
          rw [List.take_succ_cons, List.flatten_cons, List.flatten_cons, List.length_append,
            ← List.drop_drop, List.drop_left' rfl]
          exact hnext

/-- A number that stands at an offset is read back. -/
theorem FieldAt.ofLeBytes_eq
    {bs : List UInt8} {offset k n : Nat} (h : FieldAt bs offset (leBytes k n))
    (hn : n < 256 ^ k) :
    ofLeBytes (window bs offset k) = n := by
  unfold FieldAt at h
  rw [length_leBytes] at h
  rw [h, ofLeBytes_leBytes hn]

/-- A byte that stands at an offset. -/
theorem FieldAt.getD_eq
    {bs : List UInt8} {offset : Nat} {b : UInt8} (h : FieldAt bs offset [b]) :
    bs.getD offset 0 = b := by
  unfold FieldAt window at h
  rw [List.length_singleton] at h
  have hhead := congrArg List.head? h
  rw [List.head?_take, if_neg Nat.one_ne_zero, List.head?_drop] at hhead
  rw [List.getD_eq_getElem?_getD, hhead]
  rfl

/-- The bytes before the end of a field are there. -/
theorem FieldAt.length_le
    {bs : List UInt8} {offset : Nat} {field : List UInt8} (h : FieldAt bs offset field)
    (hfield : field ≠ []) :
    offset + field.length ≤ bs.length := by
  unfold FieldAt window at h
  have hlength := congrArg List.length h
  have hpos := List.length_pos_iff.mpr hfield
  rw [List.length_take, List.length_drop] at hlength
  omega

end Bytes
end FocusVision
