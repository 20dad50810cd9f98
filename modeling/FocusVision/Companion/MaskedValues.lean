import FocusVision.Companion.Export

/-!
# Masking the values of keys

The spans of a pass can be replaced when they are in order, apart and on character
boundaries.  Those of `mask_pins` always are; those of `mask_ssids` are unless a masked
SSID begins inside of another one, as in `ssid=ssid=x`.
-/

namespace FocusVision
namespace Companion

open Utf8 TextScan

/-! ### Bytes -/

/-- All bytes in `p` are ASCII. -/
def Ascii (p : UInt8 → Bool) : Prop :=
  ∀ c, p c = true → c < 0x80

theorem ascii_of_bytes
    {p : UInt8 → Bool} (h : ∀ b : BitVec 8, p ⟨b⟩ = true → b < 0x80#8) :
    Ascii p :=
  fun c hc => h c.toBitVec hc

theorem ascii_is_sep : Ascii is_sep :=
  ascii_of_bytes (by decide)

theorem ascii_isQuote : Ascii isQuote :=
  ascii_of_bytes (by decide)

theorem ascii_isBlank : Ascii isBlank :=
  ascii_of_bytes (by decide)

theorem ascii_isKeySep : Ascii isKeySep :=
  ascii_of_bytes (by decide)

theorem ascii_is_ascii_digit : Ascii is_ascii_digit :=
  ascii_of_bytes (by decide)

theorem ascii_is_local : Ascii is_local :=
  ascii_of_bytes (by decide)

theorem ascii_isV6 : Ascii isV6 :=
  ascii_of_bytes (by decide)

theorem ascii_is_ascii_hexdigit : Ascii is_ascii_hexdigit :=
  fun c hc => ascii_isV6 c (by simp [isV6, hc])

theorem byteIs_iff
    {p : UInt8 → Bool} {text : Text} {i : Nat} :
    byteIs p text i = true ↔ ∃ c, text[i]? = some c ∧ p c = true := by
  unfold byteIs
  cases text[i]? with
  | none => simp
  | some c => simp

/-- A text can be cut where an ASCII byte begins. -/
theorem boundary_of_byteIs
    {p : UInt8 → Bool} (hp : Ascii p) {text : Text} {i : Nat} (h : byteIs p text i = true) :
    isCharBoundary text i = true := by
  obtain ⟨c, hc, hpc⟩ := byteIs_iff.mp h
  exact isCharBoundary_of_ascii hc (hp c hpc)

/-- And where it ends. -/
theorem boundary_succ_of_byteIs
    {p : UInt8 → Bool} (hp : Ascii p) {text : Text} (htext : Valid text) {i : Nat}
    (h : byteIs p text i = true) :
    isCharBoundary text (i + 1) = true := by
  obtain ⟨c, hc, hpc⟩ := byteIs_iff.mp h
  exact isCharBoundary_succ htext hc (hp c hpc)

/-- The end of some ASCII bytes. -/
theorem boundary_of_allIn
    {p : UInt8 → Bool} (hp : Ascii p) {text : Text} (htext : Valid text) {i j : Nat}
    (h : AllIn p text i j) (hlt : i < j) :
    isCharBoundary text j = true := by
  obtain ⟨c, hc, hpc⟩ := h (j - 1) (by omega) (by omega)
  have hsucc := isCharBoundary_succ htext hc (hp c hpc)
  rwa [Nat.sub_add_cancel (by omega)] at hsucc

/-- Where a run of everything but some ASCII bytes ends. -/
theorem boundary_of_runEnd
    {p : UInt8 → Bool} {text : Text} {i j : Nat} (h : RunEnd p text i text.length j)
    (hp : ∀ c, p c = false → c < 0x80) :
    isCharBoundary text j = true := by
  rcases h.stop with rfl | ⟨c, hc, hpc⟩
  · exact isCharBoundary_length text
  · exact isCharBoundary_of_ascii hc (hp c hpc)

/-! ### Replacing -/

/-- Spans that can be replaced: in order, apart, not empty, and on boundaries. -/
structure GoodSpans (text : Text) (spans : List Span) : Prop where
  ordered : Ordered 0 spans
  boundary : ∀ s ∈ spans, isCharBoundary text s.1 = true ∧ isCharBoundary text s.2 = true

theorem replaceFrom_replaced
    {text label : Text} (htext : Valid text) (hlabel : Valid label) {last : Nat}
    {spans : List Span} (hlast : isCharBoundary text last = true) (hordered : Ordered last spans)
    (hspans : ∀ s ∈ spans, isCharBoundary text s.1 = true ∧ isCharBoundary text s.2 = true) :
    ∃ out, replaceFrom text label last spans = some out ∧
      Replaced label last spans (text.drop last) out ∧ Valid out := by
  induction spans generalizing last with
  | nil =>
      have hle := le_length_of_isCharBoundary hlast
      refine ⟨text.drop last, ?_, .done, (htext.split hlast).2⟩
      unfold replaceFrom
      rw [strSlice_eq hle hlast (isCharBoundary_length text), List.take_length]
  | cons s spans ih =>
      obtain ⟨start, stop⟩ := s
      obtain ⟨hle, hlt, hrest⟩ := hordered
      obtain ⟨hstart, hstop⟩ := hspans _ List.mem_cons_self
      have hlength := le_length_of_isCharBoundary hstop
      dsimp only at hle hlt hrest hstart hstop hlength
      obtain ⟨out, hout, hreplaced, hvalid⟩ :=
        ih hstop hrest fun t ht => hspans t (List.mem_cons_of_mem _ ht)
      have hkept : ((text.take start).drop last).length = start - last := by
        rw [List.length_drop, List.length_take, Nat.min_eq_left (by omega)]
      have hgone : ((text.take stop).drop start).length = stop - start := by
        rw [List.length_drop, List.length_take, Nat.min_eq_left hlength]
      have hstart_eq : last + ((text.take start).drop last).length = start := by omega
      have hstop_eq : start + ((text.take stop).drop start).length = stop := by omega
      refine ⟨(text.take start).drop last ++ label ++ out, ?_, ?_, ?_⟩
      · unfold replaceFrom
        rw [strSlice_eq hle hlast hstart, hout]
        rfl
      · rw [drop_eq_append hle (by omega), drop_eq_append (Nat.le_of_lt hlt) hlength,
          ← List.append_assoc]
        have hnext : Replaced label (last + ((text.take start).drop last).length +
            ((text.take stop).drop start).length) spans (text.drop stop) out := by
          rwa [hstart_eq, hstop_eq]
        have hall := hnext.span
        rwa [hstart_eq, hstop_eq] at hall
      · exact ((htext.slice hlast hstart hle).append hlabel).append hvalid

/-- Good spans are replaced. -/
theorem GoodSpans.replaced
    {text label : Text} {spans : List Span} (h : GoodSpans text spans) (htext : Valid text)
    (hlabel : Valid label) :
    ∃ out, replace_spans text spans label = some out ∧ Replaced label 0 spans text out ∧
      Valid out := by
  cases spans with
  | nil => exact ⟨text, rfl, .done, htext⟩
  | cons s spans =>
      exact replaceFrom_replaced htext hlabel (isCharBoundary_zero text) h.ordered h.boundary

/-! ### Keys -/

/-- The value of a key starts at `start`; the key is at `i`, as a whole word in upper or
lower case, and goes with a closing quote, a separator and blanks. -/
structure KeyValue (text key : Text) (i start : Nat) : Prop where
  word : wordAt text key i = true
  whole : ¬(0 < i ∧ byteIs is_word_byte text (i - 1) = true)
  value : ∃ j k, j = i + key.length + (if byteIs isQuote text (i + key.length) then 1 else 0) ∧
    RunEnd isBlank text j text.length k ∧ byteIs isKeySep text k = true ∧
    RunEnd isBlank text (k + 1) text.length start

/-- All letters of a key are letters. -/
def IsWord (key : Text) : Prop :=
  key ≠ [] ∧ ∀ c ∈ key, is_ascii_alphabetic c = true

theorem is_ascii_alphabetic_congr
    {c d : UInt8} (h : to_ascii_lowercase c = to_ascii_lowercase d) :
    is_ascii_alphabetic c = is_ascii_alphabetic d := by
  unfold is_ascii_alphabetic
  rw [h]

/-- A key covers letters. -/
theorem letters_of_wordAt
    {text key : Text} (hkey : IsWord key) {i : Nat} (h : wordAt text key i = true) :
    i + key.length ≤ text.length ∧ AllIn is_ascii_alphabetic text i (i + key.length) := by
  have hmap := beq_iff_eq.mp h
  have hlength := congrArg List.length hmap
  have hpos := List.length_pos_iff.mpr hkey.1
  simp only [List.length_map, List.length_take, List.length_drop] at hlength
  refine ⟨by omega, fun k hik hk => ?_⟩
  have hlt : k < text.length := by omega
  have hin : k - i < key.length := by omega
  have hbyte := congrArg (fun l => l[k - i]?) hmap
  simp only [List.getElem?_map, List.getElem?_take_of_lt hin, List.getElem?_drop,
    Nat.add_sub_cancel' hik, List.getElem?_eq_getElem hlt, List.getElem?_eq_getElem hin,
    Option.map_some, Option.some.injEq] at hbyte
  refine ⟨text[k], List.getElem?_eq_getElem hlt, ?_⟩
  rw [is_ascii_alphabetic_congr hbyte]
  exact hkey.2 _ (List.getElem_mem hin)

theorem keyValueStart_iff
    {text key : Text} (hkey : IsWord key) {i start : Nat} :
    keyValueStart text key i = some start ↔ KeyValue text key i start := by
  by_cases hword : wordAt text key i = true
  · by_cases hwhole : 0 < i ∧ byteIs is_word_byte text (i - 1) = true
    · have hnone : keyValueStart text key i = none := by
        unfold keyValueStart
        rw [if_neg]
        simp [hwhole.1, hwhole.2]
      rw [hnone]
      exact ⟨fun h => (nomatch h), fun h => absurd hwhole h.whole⟩
    · have hle := (letters_of_wordAt hkey hword).1
      have hgo : (wordAt text key i && !(decide (0 < i) && byteIs is_word_byte text (i - 1))) =
          true := by
        simp only [hword, Bool.true_and, Bool.not_eq_true', Bool.and_eq_false_iff,
          decide_eq_false_iff_not]
        rcases Nat.eq_zero_or_pos i with rfl | hpos
        · exact Or.inl (Nat.lt_irrefl 0)
        · exact Or.inr (Bool.eq_false_iff.mpr fun hb => hwhole ⟨hpos, hb⟩)
      have hquote : (if byteIs isQuote text (i + key.length) then i + key.length + 1
          else i + key.length) =
          i + key.length + (if byteIs isQuote text (i + key.length) then 1 else 0) := by
        split <;> rfl
      have hjle : i + key.length + (if byteIs isQuote text (i + key.length) then 1 else 0) ≤
          text.length := by
        split
        · rename_i hq
          obtain ⟨c, hc, -⟩ := byteIs_iff.mp hq
          exact (List.getElem?_eq_some_iff.mp hc).1
        · exact hle
      unfold keyValueStart
      rw [if_pos hgo]
      dsimp only
      rw [hquote]
      have hrun := forward_spec isBlank hjle (Nat.le_refl text.length)
      generalize hk : forward isBlank text _ text.length = k at hrun
      constructor
      · intro hsome
        split at hsome
        · rename_i hsep
          obtain ⟨c, hc, -⟩ := byteIs_iff.mp hsep
          have hlt := (List.getElem?_eq_some_iff.mp hc).1
          refine ⟨hword, hwhole, _, k, rfl, hrun, hsep, ?_⟩
          exact (forward_eq_iff _ hlt (Nat.le_refl _)).mp (Option.some.inj hsome)
        · exact nomatch hsome
      · rintro ⟨-, -, j, k', rfl, hrun', hsep, hstart⟩
        obtain rfl := hrun.unique hrun'
        obtain ⟨c, hc, -⟩ := byteIs_iff.mp hsep
        have hlt := (List.getElem?_eq_some_iff.mp hc).1
        rw [if_pos hsep]
        exact congrArg some ((forward_eq_iff _ hlt (Nat.le_refl _)).mpr hstart)
  · have hnone : keyValueStart text key i = none := by
      unfold keyValueStart
      rw [if_neg]
      simp [hword]
    rw [hnone]
    exact ⟨fun h => (nomatch h), fun h => absurd h.word hword⟩

/-- Where a value starts, behind its key. -/
theorem KeyValue.start_bounds
    {text key : Text} {i start : Nat} (h : KeyValue text key i start) :
    i + key.length < start ∧ start ≤ text.length := by
  obtain ⟨j, k, hj, hrun, -, hstart⟩ := h.value
  have hle := hstart.le
  have hjk := hrun.le
  exact ⟨by omega, hstart.le_hi⟩

theorem isQuote_not_letter
    {c : UInt8} (h : isQuote c = true) :
    is_ascii_alphabetic c = false := by
  rw [beq_iff_eq.mp h]
  decide

/-- Behind the key there is no letter before its value. -/
theorem KeyValue.no_letter
    {text key : Text} {i start m : Nat} (h : KeyValue text key i start)
    (him : i + key.length ≤ m) (hm : m < start) :
    byteIs is_ascii_alphabetic text m = false := by
  have hclass : ∀ {p : UInt8 → Bool}, (∀ c, p c = true → is_ascii_alphabetic c = false) →
      byteIs p text m = true → byteIs is_ascii_alphabetic text m = false := by
    intro p hp hpm
    obtain ⟨c, hc, hpc⟩ := byteIs_iff.mp hpm
    simp [byteIs, hc, hp c hpc]
  have hblank : ∀ c, isBlank c = true → is_ascii_alphabetic c = false := by
    intro c hc
    rw [beq_iff_eq.mp hc]
    decide
  have hsep : ∀ c, isKeySep c = true → is_ascii_alphabetic c = false := by
    intro c hc
    rcases Bool.or_eq_true _ _ ▸ hc with hc | hc
    · rw [beq_iff_eq.mp hc]
      decide
    · rw [beq_iff_eq.mp hc]
      decide
  obtain ⟨j, k, hj, hrun, hk, hstart⟩ := h.value
  rcases Nat.lt_trichotomy m k with hmk | rfl | hmk
  · rcases Nat.lt_or_ge m j with hmj | hjm
    · split at hj
      · rename_i hq
        obtain rfl : m = i + key.length := by omega
        exact hclass (fun c => isQuote_not_letter) hq
      · omega
    · exact hclass hblank (byteIs_iff.mpr (hrun.all m hjm hmk))
  · exact hclass hsep hk
  · exact hclass hblank (byteIs_iff.mpr (hstart.all m hmk hm))

theorem keyValueStart_of_no_letter
    {text key : Text} (hkey : IsWord key) {m : Nat}
    (h : byteIs is_ascii_alphabetic text m = false) :
    keyValueStart text key m = none := by
  rw [Option.eq_none_iff_forall_ne_some]
  intro start hstart
  have hvalue := (keyValueStart_iff hkey).mp hstart
  have hpos := List.length_pos_iff.mpr hkey.1
  have hletter := (letters_of_wordAt hkey hvalue.word).2 m (Nat.le_refl m) (by omega)
  rw [byteIs_iff.mpr hletter] at h
  exact nomatch h

/-- There is no other key between a key and its value. -/
theorem KeyValue.no_key
    {text key : Text} (hkey : IsWord key) {i start m : Nat} (h : KeyValue text key i start)
    (him : i < m) (hm : m < start) :
    keyValueStart text key m = none := by
  rcases Nat.lt_or_ge m (i + key.length) with hlt | hge
  · rw [Option.eq_none_iff_forall_ne_some]
    intro start' hstart'
    have hvalue := (keyValueStart_iff hkey).mp hstart'
    obtain ⟨c, hc, hletter⟩ := (letters_of_wordAt hkey h.word).2 (m - 1) (by omega) (by omega)
    refine hvalue.whole ⟨by omega, byteIs_iff.mpr ⟨c, hc, ?_⟩⟩
    simp [is_word_byte, is_ascii_alphanumeric, hletter]
  · exact keyValueStart_of_no_letter hkey (h.no_letter hge hm)

/-- A value starts where a text can be cut. -/
theorem KeyValue.boundary
    {text key : Text} (htext : Valid text) {i start : Nat} (h : KeyValue text key i start) :
    isCharBoundary text start = true := by
  obtain ⟨j, k, -, -, hk, hstart⟩ := h.value
  rcases Nat.eq_or_lt_of_le hstart.le with rfl | hlt
  · exact boundary_succ_of_byteIs ascii_isKeySep htext hk
  · exact boundary_of_allIn ascii_isBlank htext hstart.all hlt

/-- What `key_value_starts` finds, as a derivation. -/
theorem key_value_starts_found
    {text key : Text} (hkey : IsWord key) :
    ∃ starts, key_value_starts text key = some starts ∧
      Found (keyStep text key) (text.length + 1 - key.length) 0 starts := by
  refine scan_found fun i _ => ?_
  unfold keyStep
  cases hi : keyValueStart text key i with
  | none => exact ⟨none, i + 1, rfl, Nat.lt_succ_self i⟩
  | some start =>
      have hbounds := ((keyValueStart_iff hkey).mp hi).start_bounds
      exact ⟨some start, start, rfl, by omega⟩

theorem value_of_mem
    {text key : Text} (hkey : IsWord key) {starts : List Nat} {i stop : Nat}
    (h : Found (keyStep text key) stop i starts) {start : Nat} (hstart : start ∈ starts) :
    ∃ m, KeyValue text key m start := by
  obtain ⟨m, next, -, hstep⟩ := h.mem hstart
  refine ⟨m, (keyValueStart_iff hkey).mp ?_⟩
  unfold keyStep at hstep
  cases hm : keyValueStart text key m with
  | none =>
      rw [hm] at hstep
      exact nomatch (Prod.mk.inj (Option.some.inj hstep)).1
  | some start' =>
      rw [hm] at hstep
      exact (Prod.mk.inj (Option.some.inj hstep)).1

/-! ### PINs -/

theorem isWord_pin : IsWord (ascii "pin") :=
  ⟨by decide, List.all_eq_true.mp (by decide)⟩

theorem isWord_ssid : IsWord (ascii "ssid") :=
  ⟨by decide, List.all_eq_true.mp (by decide)⟩

/-- What a masked PIN is. -/
structure PinSpan (text : Text) (start : Nat) (s : Span) : Prop where
  first : s.1 = start + if byteIs isQuote text start then 1 else 0
  digits : RunEnd is_ascii_digit text s.1 text.length s.2
  length : 4 ≤ s.2 - s.1 ∧ s.2 - s.1 ≤ 8
  alone : byteIs is_word_byte text s.2 = false

theorem pinSpan_iff
    {text : Text} {start : Nat} (hstart : start ≤ text.length) {s : Span} :
    pinSpan text start = some s ↔ PinSpan text start s := by
  have hfirst : (if byteIs isQuote text start then start + 1 else start) =
      start + if byteIs isQuote text start then 1 else 0 := by
    split <;> rfl
  have hle : start + (if byteIs isQuote text start then 1 else 0) ≤ text.length := by
    split
    · rename_i hq
      obtain ⟨c, hc, -⟩ := byteIs_iff.mp hq
      exact (List.getElem?_eq_some_iff.mp hc).1
    · exact hstart
  obtain ⟨first, hfirst_eq⟩ : ∃ first, first = start + if byteIs isQuote text start then 1 else 0 :=
    ⟨_, rfl⟩
  rw [← hfirst_eq] at hfirst hle
  have hrun := forward_spec is_ascii_digit hle (Nat.le_refl text.length)
  unfold pinSpan
  rw [hfirst]
  dsimp only
  constructor
  · intro h
    split at h
    · rename_i hok
      obtain rfl := Option.some.inj h
      exact ⟨hfirst_eq, hrun, ⟨hok.1, hok.2.1⟩, Bool.not_eq_true _ ▸ hok.2.2⟩
    · exact nomatch h
  · rintro ⟨hs, hdigits, ⟨hmin, hmax⟩, halone⟩
    obtain rfl : first = s.1 := hfirst_eq.trans hs.symm
    rw [hrun.unique hdigits, if_pos ⟨hmin, hmax, Bool.not_eq_true _ ▸ halone⟩]

theorem digit_not_letter
    {c : UInt8} (h : is_ascii_digit c = true) :
    is_ascii_alphabetic c = false := by
  have hall : ∀ b : BitVec 8, is_ascii_digit ⟨b⟩ = true → is_ascii_alphabetic ⟨b⟩ = false := by
    decide
  exact hall c.toBitVec h

/-- There is no key in the digits. -/
theorem PinSpan.no_key
    {text : Text} {start m : Nat} {s : Span} (h : PinSpan text start s) (hm : start ≤ m)
    (hms : m < s.2) :
    keyValueStart text (ascii "pin") m = none := by
  apply keyValueStart_of_no_letter isWord_pin
  have hfirst := h.first
  rcases Nat.lt_or_ge m s.1 with hlt | hge
  · split at hfirst
    · rename_i hq
      obtain rfl : m = start := by omega
      obtain ⟨c, hc, hquote⟩ := byteIs_iff.mp hq
      simp [byteIs, hc, isQuote_not_letter hquote]
    · omega
  · obtain ⟨c, hc, hdigit⟩ := h.digits.all m hge hms
    simp [byteIs, hc, digit_not_letter hdigit]

/-- The PINs are in order. -/
theorem ordered_pins
    {text : Text} {stop i : Nat} {starts : List Nat}
    (h : Found (keyStep text (ascii "pin")) stop i starts) {j : Nat} (hij : i ≤ j)
    (hnone : ∀ m, i ≤ m → m < j → keyValueStart text (ascii "pin") m = none) :
    Ordered j (starts.filterMap (pinSpan text)) := by
  induction h generalizing j with
  | done _ => trivial
  | @step i next found rest hlt hstep hrest ih =>
      unfold keyStep at hstep
      cases hi : keyValueStart text (ascii "pin") i with
      | none =>
          rw [hi] at hstep
          obtain ⟨rfl, rfl⟩ := Prod.mk.inj (Option.some.inj hstep)
          rcases Nat.eq_or_lt_of_le hij with rfl | hij
          · exact (ih (Nat.le_refl _) fun m h h' => absurd h' (Nat.not_lt.mpr h)).mono
              (Nat.le_succ i)
          · exact ih hij fun m h h' => hnone m (by omega) h'
      | some start =>
          rw [hi] at hstep
          obtain ⟨rfl, rfl⟩ := Prod.mk.inj (Option.some.inj hstep)
          have hvalue := (keyValueStart_iff isWord_pin).mp hi
          obtain ⟨hlt', hle⟩ := hvalue.start_bounds
          obtain rfl : i = j := by
            rcases Nat.eq_or_lt_of_le hij with rfl | hij
            · rfl
            · exact nomatch hi.symm.trans (hnone i (Nat.le_refl i) hij)
          cases hpin : pinSpan text start with
          | none =>
              rw [Option.toList_some, List.singleton_append, List.filterMap_cons_none hpin]
              exact (ih (Nat.le_refl _) fun m h h' => absurd h' (Nat.not_lt.mpr h)).mono (by omega)
          | some s =>
              have hs := (pinSpan_iff hle).mp hpin
              have hfirst := hs.first
              have hlength := hs.length
              rw [Option.toList_some, List.singleton_append, List.filterMap_cons_some hpin]
              refine ⟨by omega, by omega, ih (by omega) fun m h h' => hs.no_key h h'⟩

theorem pins_good
    {text : Text} (htext : Valid text) :
    ∃ spans, pins.spans text = some spans ∧ GoodSpans text spans := by
  obtain ⟨starts, hstarts, hfound⟩ := @key_value_starts_found text _ isWord_pin
  refine ⟨starts.filterMap (pinSpan text), by simp [pins, hstarts], ?_, fun s hs => ?_⟩
  · exact ordered_pins hfound (Nat.le_refl 0) fun m _ h => (nomatch h)
  · obtain ⟨start, hstart, hpin⟩ := List.mem_filterMap.mp hs
    obtain ⟨m, hvalue⟩ := value_of_mem isWord_pin hfound hstart
    have hspan := (pinSpan_iff hvalue.start_bounds.2).mp hpin
    have hlength := hspan.length
    refine ⟨?_, boundary_of_allIn ascii_is_ascii_digit htext hspan.digits.all (by omega)⟩
    obtain ⟨c, hc, hdigit⟩ := hspan.digits.all s.1 (Nat.le_refl _) (by omega)
    exact isCharBoundary_of_ascii hc (ascii_is_ascii_digit c hdigit)

/-! ### SSIDs -/

def endsQuote (c : UInt8) : Bool :=
  c == QUOTE || c == 0x0A

/-- What is quoted from `i` on goes up to `stop`: a closing quote, a line end or the end of
the text.  A backslash escapes the next byte. -/
inductive Quoted (text : Text) : Nat → Nat → Prop where
  | stop {i : Nat} (h : i = text.length ∨ byteIs endsQuote text i = true) : Quoted text i i
  | escaped {i stop : Nat} (hescape : text[i]? = some BACKSLASH) (hmore : i + 1 < text.length)
      (hrest : Quoted text (i + 2) stop) : Quoted text i stop
  | plain {i stop : Nat} {c : UInt8} (hc : text[i]? = some c) (hplain : endsQuote c = false)
      (hlast : c = BACKSLASH → i + 1 = text.length)
      (hrest : Quoted text (i + 1) stop) : Quoted text i stop

/-- A masked SSID: the value of a key, quoted or not, with something in it. -/
inductive SsidValue (text : Text) : Nat → Nat → Prop where
  | quoted {i start stop : Nat} (hkey : KeyValue text (ascii "ssid") i start)
      (hopen : byteIs isQuote text start = true) (hbody : Quoted text (start + 1) stop)
      (hsome : start + 1 < stop) : SsidValue text (start + 1) stop
  | bare {i start stop : Nat} (hkey : KeyValue text (ascii "ssid") i start)
      (hopen : byteIs (fun c => c != QUOTE && c != byte '<') text start = true)
      (hbody : RunEnd isBareSsid text start text.length stop)
      (hsome : start < stop) : SsidValue text start stop

/-- No masked SSID begins inside of another one. -/
def NoNestedSsid (text : Text) : Prop :=
  ∀ start stop start' stop', SsidValue text start stop → SsidValue text start' stop' →
    start < start' → stop ≤ start'

theorem endsQuote_iff
    {c : UInt8} :
    endsQuote c = true ↔ c = QUOTE ∨ c = 0x0A := by
  simp [endsQuote]

/-- A quoted text has one end. -/
theorem Quoted.unique
    {text : Text} {i stop stop' : Nat} (h : Quoted text i stop) (h' : Quoted text i stop') :
    stop = stop' := by
  have hends : ∀ {i : Nat} {c : UInt8}, text[i]? = some c → endsQuote c = false →
      ¬(i = text.length ∨ byteIs endsQuote text i = true) := by
    rintro i c hc hplain (rfl | hq)
    · rw [List.getElem?_eq_none (Nat.le_refl _)] at hc
      exact nomatch hc
    · simp [byteIs, hc, hplain] at hq
  have hbackslash : endsQuote BACKSLASH = false := by decide
  induction h with
  | stop hend =>
      cases h' with
      | stop _ => rfl
      | escaped hescape _ _ => exact absurd hend (hends hescape hbackslash)
      | plain hc hplain _ _ => exact absurd hend (hends hc hplain)
  | escaped hescape hmore _ ih =>
      cases h' with
      | stop hend => exact absurd hend (hends hescape hbackslash)
      | escaped _ _ hrest' => exact ih hrest'
      | plain hc _ hlast _ =>
          have hlength := hlast (Option.some.inj (hc.symm.trans hescape))
          omega
  | plain hc hplain hlast _ ih =>
      cases h' with
      | stop hend => exact absurd hend (hends hc hplain)
      | escaped hescape hmore _ =>
          have hlength := hlast (Option.some.inj (hc.symm.trans hescape))
          omega
      | plain _ _ _ hrest' => exact ih hrest'

theorem quotedLength_of_stop
    {c : UInt8} (h : c = QUOTE ∨ c = 0x0A) (rest : Text) :
    quotedLength (c :: rest) = 0 := by
  cases rest with
  | nil => rw [quotedLength, if_pos h]
  | cons d rest => rw [quotedLength, if_pos h]

theorem quotedLength_of_plain
    {c : UInt8} (h : ¬(c = QUOTE ∨ c = 0x0A)) (hescape : c ≠ BACKSLASH) (rest : Text) :
    quotedLength (c :: rest) = 1 + quotedLength rest := by
  cases rest with
  | nil => simp [quotedLength, h, hescape]
  | cons d rest => rw [quotedLength, if_neg h, if_neg hescape]

/-- The loop finds it. -/
theorem quoted_quotedLength
    {text : Text} (rest : Text) {i : Nat} (hrest : text.drop i = rest) (hi : i ≤ text.length) :
    Quoted text i (i + quotedLength rest) := by
  have hhead : ∀ {i : Nat} {c : UInt8} {rest : Text}, text.drop i = c :: rest →
      text[i]? = some c ∧ text.drop (i + 1) = rest ∧ i + 1 ≤ text.length := by
    intro i c rest h
    have hc := congrArg (fun l => l[0]?) h
    have htail := congrArg List.tail h
    simp only [List.getElem?_drop, Nat.add_zero, List.getElem?_cons_zero] at hc
    rw [List.tail_drop, List.tail_cons] at htail
    exact ⟨hc, htail, (List.getElem?_eq_some_iff.mp hc).1⟩
  induction rest using quotedLength.induct generalizing i with
  | case1 =>
      have hle := List.drop_eq_nil_iff.mp hrest
      exact .stop (Or.inl (by omega))
  | case2 c rest hstop =>
      obtain ⟨hc, -, -⟩ := hhead hrest
      rw [quotedLength_of_stop hstop]
      exact .stop (Or.inr (byteIs_iff.mpr ⟨c, hc, endsQuote_iff.mpr hstop⟩))
  | case3 hstop =>
      obtain ⟨hc, htail, hlt⟩ := hhead hrest
      have hle := List.drop_eq_nil_iff.mp htail
      rw [quotedLength, if_neg hstop, if_pos rfl]
      refine .plain hc (by decide) (fun _ => by omega) (.stop (Or.inl (by omega)))
  | case4 c rest hstop ih =>
      obtain ⟨hc, htail, hlt⟩ := hhead hrest
      obtain ⟨-, htail', hlt'⟩ := hhead htail
      rw [quotedLength, if_neg hstop, if_pos rfl]
      refine .escaped hc hlt' ?_
      rw [← Nat.add_assoc]
      exact ih htail' hlt'
  | case5 c rest hstop hescape ih =>
      obtain ⟨hc, htail, hlt⟩ := hhead hrest
      rw [quotedLength_of_plain hstop hescape]
      have hplain : endsQuote c = false := by
        rw [← Bool.not_eq_true, endsQuote_iff]
        exact hstop
      refine .plain hc hplain (fun h => absurd h hescape) ?_
      rw [← Nat.add_assoc]
      exact ih htail hlt

theorem Quoted.bounds
    {text : Text} {i stop : Nat} (h : Quoted text i stop) (hi : i ≤ text.length) :
    i ≤ stop ∧ stop ≤ text.length ∧ (stop = text.length ∨ byteIs endsQuote text stop = true) := by
  induction h with
  | stop hend => exact ⟨Nat.le_refl _, hi, hend⟩
  | escaped _ hmore _ ih =>
      obtain ⟨hle, hmax, hend⟩ := ih hmore
      exact ⟨by omega, hmax, hend⟩
  | plain hc _ _ _ ih =>
      obtain ⟨hle, hmax, hend⟩ := ih (List.getElem?_eq_some_iff.mp hc).1
      exact ⟨by omega, hmax, hend⟩

/-- What `ssidSpan` makes of the value of a key. -/
theorem ssidSpan_iff
    {text : Text} {start : Nat} {s : Span} :
    ssidSpan text start = some s ↔
      (byteIs isQuote text start = true ∧ s.1 = start + 1 ∧ Quoted text (start + 1) s.2 ∧
          start + 1 < s.2) ∨
        (byteIs (fun c => c != QUOTE && c != byte '<') text start = true ∧ s.1 = start ∧
          RunEnd isBareSsid text start text.length s.2 ∧ start < s.2) := by
  unfold ssidSpan
  cases hc : text[start]? with
  | none => simp [byteIs, hc]
  | some c =>
      have hlt := (List.getElem?_eq_some_iff.mp hc).1
      dsimp only
      by_cases hquote : c = QUOTE
      · have hbody := quoted_quotedLength _ (rfl : text.drop (start + 1) = _) hlt
        obtain ⟨-, hmax, -⟩ := hbody.bounds hlt
        have hopen : byteIs isQuote text start = true := by simp [byteIs, hc, isQuote, hquote]
        have hbare : byteIs (fun c => c != QUOTE && c != byte '<') text start = false := by
          simp [byteIs, hc, hquote]
        rw [if_pos hquote, Nat.min_eq_left hmax]
        constructor
        · intro h
          split at h
          · rename_i hsome
            obtain rfl := Option.some.inj h
            exact Or.inl ⟨hopen, rfl, hbody, hsome⟩
          · exact nomatch h
        · rintro (⟨-, hs, hbody', hsome⟩ | ⟨hbare', -⟩)
          · obtain ⟨a, e⟩ := s
            dsimp only at hs hbody' hsome
            rw [hbody.unique hbody', hs, if_pos hsome]
          · exact nomatch hbare.symm.trans hbare'
      · have hopen : byteIs isQuote text start = false := by simp [byteIs, hc, isQuote, hquote]
        have hbody := forward_spec isBareSsid (Nat.le_of_lt hlt) (Nat.le_refl text.length)
        rw [if_neg hquote]
        by_cases hless : c = byte '<'
        · have hbare : byteIs (fun c => c != QUOTE && c != byte '<') text start = false := by
            simp [byteIs, hc, hless]
          rw [if_neg (fun h => h hless)]
          simp [hopen, hbare]
        · have hbare : byteIs (fun c => c != QUOTE && c != byte '<') text start = true := by
            simp [byteIs, hc, hquote, hless]
          rw [if_pos hless]
          constructor
          · intro h
            split at h
            · rename_i hsome
              obtain rfl := Option.some.inj h
              exact Or.inr ⟨hbare, rfl, hbody, hsome⟩
            · exact nomatch h
          · rintro (⟨hopen', -⟩ | ⟨-, hs, hbody', hsome⟩)
            · exact nomatch hopen.symm.trans hopen'
            · obtain ⟨a, e⟩ := s
              dsimp only at hs hbody' hsome
              rw [hbody.unique hbody', hs, if_pos hsome]

/-- No key is left out. -/
theorem mem_starts
    {text key : Text} (hkey : IsWord key) {starts : List Nat}
    (h : Found (keyStep text key) (text.length + 1 - key.length) 0 starts) {i start : Nat}
    (hvalue : KeyValue text key i start) :
    start ∈ starts := by
  have hsome := (keyValueStart_iff hkey).mpr hvalue
  have hend := (letters_of_wordAt hkey hvalue.word).1
  have hjump : ∀ j, j < i → ∀ found next, keyStep text key j = some (found, next) →
      (∀ x ∈ found, x ∈ starts) → next ≤ i := by
    intro j hji found next hstep _
    unfold keyStep at hstep
    cases hj : keyValueStart text key j with
    | none =>
        rw [hj] at hstep
        obtain ⟨-, rfl⟩ := Prod.mk.inj (Option.some.inj hstep)
        exact hji
    | some start' =>
        rw [hj] at hstep
        obtain ⟨-, rfl⟩ := Prod.mk.inj (Option.some.inj hstep)
        rw [← Nat.not_lt]
        intro hlt
        have hnone := ((keyValueStart_iff hkey).mp hj).no_key hkey hji hlt
        exact nomatch hsome.symm.trans hnone
  obtain ⟨found, next, hstep, hmem⟩ := h.visits_of_le (Nat.zero_le i) (by omega) hjump
  unfold keyStep at hstep
  rw [hsome] at hstep
  obtain ⟨rfl, -⟩ := Prod.mk.inj (Option.some.inj hstep)
  exact hmem start rfl

/-- The spans of `mask_ssids` are the masked SSIDs. -/
theorem mem_ssid_spans
    {text : Text} {starts : List Nat}
    (h : Found (keyStep text (ascii "ssid")) (text.length + 1 - (ascii "ssid").length) 0 starts)
    {s : Span} :
    s ∈ starts.filterMap (ssidSpan text) ↔ SsidValue text s.1 s.2 := by
  obtain ⟨a, e⟩ := s
  rw [List.mem_filterMap]
  constructor
  · rintro ⟨start, hstart, hspan⟩
    obtain ⟨i, hkey⟩ := value_of_mem isWord_ssid h hstart
    rcases ssidSpan_iff.mp hspan with ⟨hopen, hs, hbody, hsome⟩ | ⟨hopen, hs, hbody, hsome⟩
    · dsimp only at hs hbody hsome ⊢
      rw [hs]
      exact .quoted hkey hopen hbody hsome
    · dsimp only at hs hbody hsome ⊢
      rw [hs]
      exact .bare hkey hopen hbody hsome
  · intro hvalue
    cases hvalue with
    | quoted hkey hopen hbody hsome =>
        exact ⟨_, mem_starts isWord_ssid h hkey,
          ssidSpan_iff.mpr (Or.inl ⟨hopen, rfl, hbody, hsome⟩)⟩
    | bare hkey hopen hbody hsome =>
        exact ⟨_, mem_starts isWord_ssid h hkey,
          ssidSpan_iff.mpr (Or.inr ⟨hopen, rfl, hbody, hsome⟩)⟩

/-- The values of a key follow each other. -/
theorem starts_apart
    {text key : Text} (hkey : IsWord key) {stop i : Nat} {starts : List Nat}
    (h : Found (keyStep text key) stop i starts) :
    (∀ start ∈ starts, i + key.length < start) ∧
      starts.Pairwise fun start start' => start + key.length < start' := by
  induction h with
  | done _ => exact ⟨fun _ h => (nomatch h), List.Pairwise.nil⟩
  | @step i next found rest hlt hstep _ ih =>
      obtain ⟨hall, hpair⟩ := ih
      unfold keyStep at hstep
      cases hi : keyValueStart text key i with
      | none =>
          rw [hi] at hstep
          obtain ⟨rfl, rfl⟩ := Prod.mk.inj (Option.some.inj hstep)
          exact ⟨fun start hstart => by have := hall start hstart; omega, hpair⟩
      | some start =>
          rw [hi] at hstep
          obtain ⟨rfl, rfl⟩ := Prod.mk.inj (Option.some.inj hstep)
          have hbounds := ((keyValueStart_iff hkey).mp hi).start_bounds
          refine ⟨fun start' hstart' => ?_, List.pairwise_cons.mpr ⟨hall, hpair⟩⟩
          rcases List.mem_cons.mp hstart' with rfl | hrest
          · exact hbounds.1
          · have := hall start' hrest
            omega

theorem ssidSpan_first
    {text : Text} {start : Nat} {s : Span} (h : ssidSpan text start = some s) :
    start ≤ s.1 ∧ s.1 ≤ start + 1 := by
  rcases ssidSpan_iff.mp h with ⟨-, hs, -⟩ | ⟨-, hs, -⟩
  · omega
  · omega

theorem SsidValue.lt
    {text : Text} {start stop : Nat} (h : SsidValue text start stop) :
    start < stop := by
  cases h with
  | quoted _ _ _ hsome => exact hsome
  | bare _ _ _ hsome => exact hsome

/-- A masked SSID can be cut out. -/
theorem SsidValue.boundary
    {text : Text} (htext : Valid text) {start stop : Nat} (h : SsidValue text start stop) :
    isCharBoundary text start = true ∧ isCharBoundary text stop = true := by
  have hends : Ascii endsQuote := by
    intro c hc
    rcases endsQuote_iff.mp hc with rfl | rfl
    · decide
    · decide
  have hbare : ∀ b : BitVec 8, isBareSsid ⟨b⟩ = false → b < 0x80#8 := by decide
  cases h with
  | quoted hkey hopen hbody _ =>
      refine ⟨boundary_succ_of_byteIs ascii_isQuote htext hopen, ?_⟩
      obtain ⟨c, hc, -⟩ := byteIs_iff.mp hopen
      obtain ⟨-, -, hend⟩ := hbody.bounds (List.getElem?_eq_some_iff.mp hc).1
      rcases hend with rfl | hend
      · exact isCharBoundary_length text
      · exact boundary_of_byteIs hends hend
  | bare hkey _ hbody _ =>
      exact ⟨hkey.boundary htext, boundary_of_runEnd hbody fun c hc => hbare c.toBitVec hc⟩

/-- `mask_ssids` has good spans if no SSID is nested in another one. -/
theorem ssids_good_iff
    {text : Text} (htext : Valid text) :
    ∃ spans, ssids.spans text = some spans ∧ (GoodSpans text spans ↔ NoNestedSsid text) := by
  obtain ⟨starts, hstarts, hfound⟩ := @key_value_starts_found text _ isWord_ssid
  have hmem := fun s => @mem_ssid_spans text starts hfound s
  refine ⟨starts.filterMap (ssidSpan text), by simp [ssids, hstarts], ?_, ?_⟩
  · intro hgood start stop start' stop' h h' hlt
    exact hgood.ordered.apart ((hmem (start, stop)).mpr h) ((hmem (start', stop')).mpr h') hlt
  · intro hnested
    refine ⟨ordered_of_pairwise (fun s hs => ⟨Nat.zero_le _, ?_⟩) ?_, fun s hs => ?_⟩
    · exact ((hmem s).mp hs).lt
    · rw [List.pairwise_filterMap]
      refine (starts_apart isWord_ssid hfound).2.imp_of_mem ?_
      intro start start' hstart hstart' hlt s hs s' hs'
      refine hnested s.1 s.2 s'.1 s'.2 ((hmem s).mp ?_) ((hmem s').mp ?_) ?_
      · exact List.mem_filterMap.mpr ⟨start, hstart, hs⟩
      · exact List.mem_filterMap.mpr ⟨start', hstart', hs'⟩
      · have hfirst := ssidSpan_first hs
        have hfirst' := ssidSpan_first hs'
        have hfour : (ascii "ssid").length = 4 := by decide
        omega
    · exact ((hmem s).mp hs).boundary htext

end Companion
end FocusVision
