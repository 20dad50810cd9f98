import Mathlib.Data.List.Basic

/-!
# UTF-8 texts as bytes

A text is the bytes of its characters.  It can be cut where a character begins, and so
on both sides of an ASCII byte.
-/

namespace FocusVision
namespace Utf8

/-- The bytes of an ASCII string. -/
def ascii (s : String) : List UInt8 :=
  s.toList.map fun c => UInt8.ofNat c.toNat

/-- A byte inside of a character, behind its first one. -/
def isContinuation (c : UInt8) : Bool :=
  decide (0x80 ≤ c) && decide (c < 0xC0)

/-- The bytes of some characters. -/
def Valid (bs : List UInt8) : Prop :=
  ∃ cs : List Char, cs.flatMap String.utf8EncodeChar = bs

/-- `is_char_boundary`. -/
def isCharBoundary (bs : List UInt8) (i : Nat) : Bool :=
  i == 0 ||
    match bs[i]? with
    | none => i == bs.length
    | some c => !isContinuation c

/-- `&text[a..b]`, which panics out of order, out of range and off a boundary. -/
def strSlice (bs : List UInt8) (a b : Nat) : Option (List UInt8) :=
  if a ≤ b ∧ isCharBoundary bs a ∧ isCharBoundary bs b then some ((bs.take b).drop a) else none

/-! ### The bytes of a character -/

theorem isContinuation_tail
    (x : UInt8) :
    isContinuation (x &&& 0x3f ||| 0x80) = true := by
  have hall : ∀ y : BitVec 8,
      0x80#8 ≤ (y &&& 0x3f#8 ||| 0x80#8) ∧ (y &&& 0x3f#8 ||| 0x80#8) < 0xC0#8 := by decide
  obtain ⟨hle, hlt⟩ := hall x.toBitVec
  simp only [isContinuation, Bool.and_eq_true, decide_eq_true_eq]
  exact ⟨hle, hlt⟩

/-- The first byte of a longer character. -/
theorem le_head
    {high : UInt8} (hhigh : 0xC0 ≤ high) (x : UInt8) :
    0xC0 ≤ x ||| high := by
  refine UInt8.le_trans hhigh ?_
  rw [UInt8.le_iff_toNat_le, UInt8.toNat_or]
  exact Nat.right_le_or

/-- A character is an ASCII byte, or a first byte and continuation bytes. -/
theorem utf8EncodeChar_shape
    (c : Char) :
    (∃ a, String.utf8EncodeChar c = [a] ∧ a < 0x80) ∨
      ∃ head tail, String.utf8EncodeChar c = head :: tail ∧ 0xC0 ≤ head ∧
        ∀ t ∈ tail, isContinuation t = true := by
  rcases hsize : c.utf8Size with _ | _ | _ | _ | _ | n
  · exact absurd hsize (Nat.ne_of_gt c.utf8Size_pos)
  · refine Or.inl ⟨_, String.utf8EncodeChar_eq_singleton hsize, ?_⟩
    have hval := Char.utf8Size_eq_one_iff.mp hsize
    rw [UInt32.le_iff_toNat_le] at hval
    have hmax : (127 : UInt32).toNat = 127 := rfl
    have hhigh : (0x80 : UInt8).toNat = 128 := rfl
    rw [UInt8.lt_iff_toNat_lt, UInt32.toNat_toUInt8]
    omega
  · refine Or.inr ⟨_, _, String.utf8EncodeChar_eq_cons_cons hsize, le_head (by decide) _, ?_⟩
    simp [isContinuation_tail]
  · refine Or.inr ⟨_, _, String.utf8EncodeChar_eq_cons_cons_cons hsize, le_head (by decide) _, ?_⟩
    simp [isContinuation_tail]
  · refine Or.inr ⟨_, _, String.utf8EncodeChar_eq_cons_cons_cons_cons hsize,
      le_head (by decide) _, ?_⟩
    simp [isContinuation_tail]
  · exact absurd c.utf8Size_le_four (by omega)

theorem not_continuation_of_ascii
    {c : UInt8} (h : c < 0x80) :
    isContinuation c = false := by
  have hle : ¬0x80 ≤ c := UInt8.not_le.mpr h
  simp [isContinuation, hle]

theorem not_continuation_of_head
    {c : UInt8} (h : 0xC0 ≤ c) :
    isContinuation c = false := by
  have hlt : ¬c < 0xC0 := UInt8.not_lt.mpr h
  simp [isContinuation, hlt]

theorem not_ascii_of_continuation
    {c : UInt8} (h : isContinuation c = true) :
    ¬c < 0x80 := by
  intro hlt
  rw [not_continuation_of_ascii hlt] at h
  exact nomatch h

/-- A text begins with a first byte. -/
theorem head_not_continuation
    {bs : List UInt8} (h : Valid bs) {c : UInt8} (hc : bs[0]? = some c) :
    isContinuation c = false := by
  obtain ⟨cs, rfl⟩ := h
  cases cs with
  | nil => exact nomatch hc
  | cons ch cs =>
      rw [List.flatMap_cons] at hc
      rcases utf8EncodeChar_shape ch with ⟨a, henc, ha⟩ | ⟨head, tail, henc, hhead, -⟩
      · rw [henc] at hc
        obtain rfl := Option.some.inj hc
        exact not_continuation_of_ascii ha
      · rw [henc] at hc
        obtain rfl := Option.some.inj hc
        exact not_continuation_of_head hhead

/-- What follows an ASCII byte is a first byte. -/
theorem next_not_continuation
    {bs : List UInt8} (h : Valid bs) {i : Nat} {c d : UInt8} (hc : bs[i]? = some c)
    (hascii : c < 0x80) (hd : bs[i + 1]? = some d) :
    isContinuation d = false := by
  obtain ⟨cs, rfl⟩ := h
  induction cs generalizing i with
  | nil => exact nomatch hc
  | cons ch cs ih =>
      rw [List.flatMap_cons] at hc hd
      rcases Nat.lt_or_ge i (String.utf8EncodeChar ch).length with hlt | hge
      · rw [List.getElem?_append_left hlt] at hc
        rcases utf8EncodeChar_shape ch with ⟨a, henc, -⟩ | ⟨head, tail, henc, hhead, htail⟩
        · rw [henc, List.length_singleton] at hlt
          obtain rfl : i = 0 := by omega
          rw [henc] at hd
          exact head_not_continuation ⟨cs, rfl⟩ hd
        · rw [henc] at hc
          cases i with
          | zero =>
              obtain rfl := Option.some.inj hc
              exact absurd (UInt8.lt_of_lt_of_le hascii (UInt8.le_trans (by decide) hhead))
                (UInt8.lt_irrefl _)
          | succ i =>
              rw [List.getElem?_cons_succ] at hc
              have hmem := List.mem_of_getElem? hc
              exact absurd hascii (not_ascii_of_continuation (htail c hmem))
      · rw [List.getElem?_append_right hge] at hc
        rw [List.getElem?_append_right (by omega), Nat.sub_add_comm hge] at hd
        exact ih hc hd

/-! ### Boundaries -/

theorem isCharBoundary_zero
    (bs : List UInt8) :
    isCharBoundary bs 0 = true := by
  simp [isCharBoundary]

theorem isCharBoundary_length
    (bs : List UInt8) :
    isCharBoundary bs bs.length = true := by
  simp [isCharBoundary]

/-- An ASCII byte is a character. -/
theorem isCharBoundary_of_ascii
    {bs : List UInt8} {i : Nat} {c : UInt8} (hc : bs[i]? = some c) (hascii : c < 0x80) :
    isCharBoundary bs i = true := by
  simp [isCharBoundary, hc, not_continuation_of_ascii hascii]

theorem isCharBoundary_succ
    {bs : List UInt8} (h : Valid bs) {i : Nat} {c : UInt8} (hc : bs[i]? = some c)
    (hascii : c < 0x80) :
    isCharBoundary bs (i + 1) = true := by
  have hlt : i < bs.length := (List.getElem?_eq_some_iff.mp hc).1
  cases hd : bs[i + 1]? with
  | none =>
      have hle := List.getElem?_eq_none_iff.mp hd
      have hlength : i + 1 = bs.length := by omega
      rw [hlength]
      exact isCharBoundary_length bs
  | some d => simp [isCharBoundary, hd, next_not_continuation h hc hascii hd]

theorem le_length_of_isCharBoundary
    {bs : List UInt8} {i : Nat} (h : isCharBoundary bs i = true) :
    i ≤ bs.length := by
  cases hd : bs[i]? with
  | none =>
      simp only [isCharBoundary, hd, Bool.or_eq_true, beq_iff_eq] at h
      omega
  | some d => exact Nat.le_of_lt (List.getElem?_eq_some_iff.mp hd).1

theorem Valid.append
    {bs bs' : List UInt8} (h : Valid bs) (h' : Valid bs') :
    Valid (bs ++ bs') := by
  obtain ⟨cs, rfl⟩ := h
  obtain ⟨cs', rfl⟩ := h'
  exact ⟨cs ++ cs', List.flatMap_append⟩

theorem valid_nil :
    Valid [] :=
  ⟨[], rfl⟩

theorem valid_ascii
    {s : String} (h : (s.toList.all fun c => decide (c.toNat < 0x80)) = true) :
    Valid (ascii s) := by
  refine ⟨s.toList, ?_⟩
  unfold ascii
  rw [List.map_eq_flatMap]
  refine List.flatMap_congr fun c hc => ?_
  have hsize : c.utf8Size = 1 := by
    rw [Char.utf8Size_eq_one_iff, UInt32.le_iff_toNat_le]
    exact Nat.le_of_lt_succ (of_decide_eq_true (List.all_eq_true.mp h c hc))
  rw [String.utf8EncodeChar_eq_singleton hsize]
  rfl

/-- A text is cut at a boundary into texts. -/
theorem Valid.split
    {bs : List UInt8} (h : Valid bs) {i : Nat} (hi : isCharBoundary bs i = true) :
    Valid (bs.take i) ∧ Valid (bs.drop i) := by
  obtain ⟨cs, rfl⟩ := h
  induction cs generalizing i with
  | nil => simp [valid_nil]
  | cons ch cs ih =>
      rw [List.flatMap_cons] at hi ⊢
      rcases Nat.eq_zero_or_pos i with rfl | hpos
      · exact ⟨valid_nil, ch :: cs, List.flatMap_cons⟩
      · rcases Nat.lt_or_ge i (String.utf8EncodeChar ch).length with hlt | hge
        · have hget := @List.getElem?_append_left _ _ (cs.flatMap String.utf8EncodeChar) _ hlt
          rcases utf8EncodeChar_shape ch with ⟨a, henc, -⟩ | ⟨head, tail, henc, -, htail⟩
          · rw [henc, List.length_singleton] at hlt
            omega
          · obtain ⟨k, rfl⟩ : ∃ k, i = k + 1 := ⟨i - 1, by omega⟩
            have hk : k < tail.length := by
              rw [henc, List.length_cons] at hlt
              omega
            have hbyte : (String.utf8EncodeChar ch ++ cs.flatMap String.utf8EncodeChar)[k + 1]? =
                some tail[k] := by
              rw [hget, henc, List.getElem?_cons_succ, List.getElem?_eq_getElem hk]
            have hcont := htail _ (List.getElem_mem hk)
            simp [isCharBoundary, hbyte, hcont] at hi
        · have hrest : isCharBoundary (cs.flatMap String.utf8EncodeChar)
              (i - (String.utf8EncodeChar ch).length) = true := by
            unfold isCharBoundary at hi ⊢
            rw [List.getElem?_append_right hge] at hi
            cases hd :
                (cs.flatMap String.utf8EncodeChar)[i - (String.utf8EncodeChar ch).length]? with
            | none =>
                simp only [hd, List.length_append, Bool.or_eq_true, beq_iff_eq] at hi ⊢
                omega
            | some d =>
                simp only [hd, Bool.or_eq_true, beq_iff_eq] at hi ⊢
                exact Or.inr (hi.resolve_left (Nat.ne_of_gt hpos))
          obtain ⟨htake, hdrop⟩ := ih hrest
          have hch : Valid (String.utf8EncodeChar ch) := ⟨[ch], by simp⟩
          rw [List.take_append, List.drop_append, List.take_of_length_le hge,
            List.drop_of_length_le hge, List.nil_append]
          exact ⟨hch.append htake, hdrop⟩

theorem isCharBoundary_take
    {bs : List UInt8} {a b : Nat} (ha : isCharBoundary bs a = true) (hle : a ≤ b)
    (hb : b ≤ bs.length) :
    isCharBoundary (bs.take b) a = true := by
  rcases Nat.eq_or_lt_of_le hle with rfl | hlt
  · have hlength : (bs.take a).length = a := by rw [List.length_take, Nat.min_eq_left hb]
    have hend := isCharBoundary_length (bs.take a)
    rwa [hlength] at hend
  · have hget : bs[a]? = some bs[a] := List.getElem?_eq_getElem (by omega)
    unfold isCharBoundary at ha ⊢
    rw [List.getElem?_take_of_lt hlt, hget]
    rwa [hget] at ha

/-- What is between two boundaries is a text. -/
theorem Valid.slice
    {bs : List UInt8} (h : Valid bs) {a b : Nat} (ha : isCharBoundary bs a = true)
    (hb : isCharBoundary bs b = true) (hle : a ≤ b) :
    Valid ((bs.take b).drop a) :=
  ((h.split hb).1.split (isCharBoundary_take ha hle (le_length_of_isCharBoundary hb))).2

/-- A slice between two boundaries. -/
theorem strSlice_eq
    {bs : List UInt8} {a b : Nat} (hle : a ≤ b) (ha : isCharBoundary bs a = true)
    (hb : isCharBoundary bs b = true) :
    strSlice bs a b = some ((bs.take b).drop a) :=
  if_pos ⟨hle, ha, hb⟩

end Utf8
end FocusVision
