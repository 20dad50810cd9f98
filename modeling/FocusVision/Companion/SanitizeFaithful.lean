import FocusVision.Companion.MaskedValues

/-!
# Masking is total and faithful

The passes over paths and addresses find spans that can be replaced in every text, and so
`sanitize_pii` replaces what its passes find and nothing else, unless the first pass has
two masked SSIDs that overlap: then it panics.
-/

namespace FocusVision
namespace Companion

open Utf8 TextScan

/-- A scan whose steps find spans on boundaries, each behind the one before. -/
theorem scan_good
    {text : Text} {step : Nat → Option (Option Span × Nat)} {stop : Nat}
    (hstep : ∀ i, i < stop → ∃ found next, step i = some (found, next) ∧ i < next ∧
      ∀ s, found = some s → (i ≤ s.1 ∧ s.1 < s.2 ∧ s.2 ≤ next) ∧
        isCharBoundary text s.1 = true ∧ isCharBoundary text s.2 = true) :
    ∃ spans, scan step stop = some spans ∧ GoodSpans text spans := by
  have hgo : ∀ i, i < stop → ∃ found next, step i = some (found, next) ∧ i < next := by
    intro i hi
    obtain ⟨found, next, heq, hlt, -⟩ := hstep i hi
    exact ⟨found, next, heq, hlt⟩
  obtain ⟨spans, hspans, hfound⟩ := scan_found hgo
  have hordered : Ordered 0 spans ∧
      ∀ s ∈ spans, isCharBoundary text s.1 = true ∧ isCharBoundary text s.2 = true := by
    refine hfound.ordered fun i _ hi found next heq => ?_
    obtain ⟨found', next', heq', hlt, hspan⟩ := hstep i hi
    obtain ⟨rfl, rfl⟩ := Prod.mk.inj (Option.some.inj (heq.symm.trans heq'))
    exact ⟨hlt, hspan⟩
  exact ⟨spans, hspans, hordered.1, hordered.2⟩

/-! ### User names -/

theorem isName_not_ascii
    {c : UInt8} (h : isName c = false) :
    c < 0x80 := by
  have hall : ∀ b : BitVec 8, isName ⟨b⟩ = false → b < 0x80#8 := by decide
  exact hall c.toBitVec h

theorem whitespace_ascii
    {c : UInt8} (h : (!is_ascii_whitespace c) = false) :
    c < 0x80 := by
  have hall : ∀ b : BitVec 8, (!is_ascii_whitespace ⟨b⟩) = false → b < 0x80#8 := by decide
  exact hall c.toBitVec h

theorem markerLen_spec
    {text : Text} {i m : Nat} (h : markerLen text i = some m) :
    byteIs is_sep text (i + 1 + m) = true := by
  obtain ⟨word, -, hword⟩ := List.exists_of_findSome?_eq_some h
  dsimp only at hword
  split at hword
  · rename_i hok
    obtain rfl := Option.some.inj hword
    exact (Bool.and_eq_true _ _ ▸ hok).2
  · exact nomatch hword

/-- Where a user name starts. -/
theorem name_start_spec
    {text : Text} (htext : Valid text) {i : Nat} (h : byteIs is_sep text i = true) :
    i < forward is_sep text i text.length ∧ forward is_sep text i text.length ≤ text.length ∧
      isCharBoundary text (forward is_sep text i text.length) = true := by
  obtain ⟨c, hc, hsep⟩ := byteIs_iff.mp h
  have hlt := (List.getElem?_eq_some_iff.mp hc).1
  have hrun := forward_spec is_sep (Nat.le_of_lt hlt) (Nat.le_refl text.length)
  have hpos := hrun.lt hlt hc hsep
  exact ⟨hpos, hrun.le_hi, boundary_of_allIn ascii_is_sep htext hrun.all hpos⟩

/-- Where it ends. -/
theorem name_end_spec
    {text : Text} {name_start : Nat} (hle : name_start ≤ text.length) :
    let j := forward isName text name_start text.length
    isCharBoundary text (if byteIs is_sep text j then j
      else forward (fun c => !is_ascii_whitespace c) text name_start j) = true := by
  intro j
  have hrun : RunEnd isName text name_start text.length j :=
    forward_spec isName hle (Nat.le_refl _)
  have hj := boundary_of_runEnd hrun fun c => isName_not_ascii
  split
  · exact hj
  · have hspace := forward_spec (fun c => !is_ascii_whitespace c) hrun.le hrun.le_hi
    rcases hspace.stop with hend | ⟨c, hc, hwhite⟩
    · rwa [hend]
    · exact isCharBoundary_of_ascii hc (whitespace_ascii hwhite)

theorem userPathStep_good
    {text : Text} (htext : Valid text) (i : Nat) :
    ∃ found next, userPathStep text i = some (found, next) ∧ i < next ∧
      ∀ s, found = some s → (i ≤ s.1 ∧ s.1 < s.2 ∧ s.2 ≤ next) ∧
        isCharBoundary text s.1 = true ∧ isCharBoundary text s.2 = true := by
  unfold userPathStep
  split
  · exact ⟨none, i + 1, rfl, Nat.lt_succ_self i, fun s hs => nomatch hs⟩
  · cases hmarker : markerLen text i with
    | none => exact ⟨none, i + 1, rfl, Nat.lt_succ_self i, fun s hs => nomatch hs⟩
    | some m =>
        obtain ⟨hfirst, hlength, hstart⟩ := name_start_spec htext (markerLen_spec hmarker)
        have hend := name_end_spec hlength
        dsimp only at hend ⊢
        generalize forward is_sep text (i + 1 + m) text.length = name_start at hfirst hstart hend ⊢
        generalize (if byteIs is_sep text _ then _ else _) = name_end at hend ⊢
        have hnext : i < max name_end (i + 1) :=
          Nat.lt_of_lt_of_le i.lt_succ_self (Nat.le_max_right _ _)
        by_cases hsome : name_end > name_start
        · rw [if_pos hsome, strSlice_eq (Nat.le_of_lt hsome) hstart hend]
          simp only [Option.bind_eq_bind, Option.bind_some]
          split
          · exact ⟨none, _, rfl, hnext, fun s hs => nomatch hs⟩
          · refine ⟨_, _, rfl, hnext, fun s hs => ?_⟩
            obtain rfl := Option.some.inj hs
            exact ⟨⟨by dsimp only; omega, hsome, Nat.le_max_left _ _⟩, hstart, hend⟩
        · rw [if_neg hsome]
          exact ⟨none, _, rfl, hnext, fun s hs => nomatch hs⟩

theorem userPaths_good
    {text : Text} (htext : Valid text) :
    ∃ spans, userPaths.spans text = some spans ∧ GoodSpans text spans :=
  scan_good fun i _ => userPathStep_good htext i

/-! ### MAC addresses -/

theorem is_mac_at_spec
    {text : Text} {i : Nat} (h : is_mac_at text i = true) :
    byteIs is_ascii_hexdigit text i = true ∧ byteIs is_ascii_hexdigit text (i + 16) = true := by
  obtain ⟨sep, -, hsep⟩ := byteIs_iff.mp h
  obtain ⟨⟨-, hpairs⟩, -⟩ : (_ ∧ _) ∧ _ := by simpa only [Bool.and_eq_true] using hsep
  have hfirst := List.all_eq_true.mp hpairs 0 (by decide)
  have hlast := List.all_eq_true.mp hpairs 5 (by decide)
  simp only [Bool.and_eq_true] at hfirst hlast
  exact ⟨hfirst.1, hlast.2⟩

theorem macs_good
    {text : Text} (htext : Valid text) :
    ∃ spans, macs.spans text = some spans ∧ GoodSpans text spans := by
  refine scan_good fun i _ => ?_
  unfold macStep
  dsimp only
  split
  · rename_i hok
    have hmac := (Bool.and_eq_true _ _ ▸ hok).2
    obtain ⟨hfirst, hlast⟩ := is_mac_at_spec hmac
    refine ⟨_, _, rfl, by unfold MAC_LEN; omega, fun s hs => ?_⟩
    obtain rfl := Option.some.inj hs
    refine ⟨⟨Nat.le_refl _, by unfold MAC_LEN; omega, Nat.le_refl _⟩, ?_, ?_⟩
    · exact boundary_of_byteIs ascii_is_ascii_hexdigit hfirst
    · exact boundary_succ_of_byteIs ascii_is_ascii_hexdigit htext hlast
  · exact ⟨none, i + 1, rfl, Nat.lt_succ_self i, fun s hs => nomatch hs⟩

/-! ### IPv6 addresses -/

theorem trimEnd_bounds
    (text : Text) {start stop : Nat} (h : start < stop) :
    start < trimEnd text start stop ∧ trimEnd text start stop ≤ stop := by
  unfold trimEnd
  split
  · rename_i hok
    simp only [Bool.and_eq_true, decide_eq_true_eq] at hok
    omega
  · omega

theorem trimStart_bounds
    (text : Text) {start stop : Nat} (h : start < stop) :
    start ≤ trimStart text start stop ∧ trimStart text start stop < stop := by
  unfold trimStart
  split
  · rename_i hok
    simp only [Bool.and_eq_true, decide_eq_true_eq] at hok
    omega
  · omega

theorem ipv6Step_good
    {text : Text} (htext : Valid text) (i : Nat) :
    ∃ found next, ipv6Step text i = some (found, next) ∧ i < next ∧
      ∀ s, found = some s → (i ≤ s.1 ∧ s.1 < s.2 ∧ s.2 ≤ next) ∧
        isCharBoundary text s.1 = true ∧ isCharBoundary text s.2 = true := by
  unfold ipv6Step
  by_cases hv6 : byteIs isV6 text i = true
  · obtain ⟨c, hc, hclass⟩ := byteIs_iff.mp hv6
    have hlength := (List.getElem?_eq_some_iff.mp hc).1
    have hrun := forward_spec isV6 (Nat.le_of_lt hlength) (Nat.le_refl text.length)
    have hpos := hrun.lt hlength hc hclass
    rw [if_neg (by simp [hv6])]
    dsimp only
    generalize forward isV6 text i text.length = run_end at hrun hpos ⊢
    split
    · exact ⟨none, run_end, rfl, hpos, fun s hs => nomatch hs⟩
    · have hstop_bounds := trimEnd_bounds text hpos
      generalize trimEnd text i run_end = stop at hstop_bounds ⊢
      have hstart_bounds := trimStart_bounds text hstop_bounds.1
      generalize trimStart text i stop = start at hstart_bounds ⊢
      have hfirst : isCharBoundary text start = true := by
        obtain ⟨d, hd, hd6⟩ := hrun.all start hstart_bounds.1 (by omega)
        exact isCharBoundary_of_ascii hd (ascii_isV6 d hd6)
      have hlast : isCharBoundary text stop = true :=
        boundary_of_allIn ascii_isV6 htext
          (fun k hk hks => hrun.all k hk (by omega)) hstop_bounds.1
      rw [strSlice_eq (Nat.le_of_lt hstart_bounds.2) hfirst hlast]
      refine ⟨_, run_end, rfl, hpos, fun s hs => ?_⟩
      split at hs
      · obtain rfl := Option.some.inj hs
        exact ⟨⟨hstart_bounds.1, hstart_bounds.2, hstop_bounds.2⟩, hfirst, hlast⟩
      · exact nomatch hs
  · rw [if_pos (by simp [hv6])]
    exact ⟨none, i + 1, rfl, Nat.lt_succ_self i, fun s hs => nomatch hs⟩

theorem ipv6_good
    {text : Text} (htext : Valid text) :
    ∃ spans, ipv6.spans text = some spans ∧ GoodSpans text spans :=
  scan_good fun i _ => ipv6Step_good htext i

/-! ### IPv4 addresses -/

/-- The numbers of a run of digits and dots. -/
structure Numbers (text : Text) (run_start run_end : Nat) (parts : List Span) : Prop where
  found : Found (numberStep text run_end) run_end run_start parts
  ordered : Ordered run_start parts
  digits : ∀ s ∈ parts, s.2 ≤ run_end ∧ RunEnd is_ascii_digit text s.1 run_end s.2

theorem numbers_spec
    {text : Text} {run_start run_end : Nat} (hlength : run_end ≤ text.length)
    (hrun : AllIn isDigitOrDot text run_start run_end) :
    ∃ parts, numbers text run_start run_end = some parts ∧
      Numbers text run_start run_end parts := by
  -- a turn passes over a dot or a number
  have hturn : ∀ p, run_start ≤ p → p < run_end →
      numberStep text run_end p = some (none, p + 1) ∨
        ∃ stop, numberStep text run_end p = some (some (p, stop), stop) ∧ p < stop ∧
          RunEnd is_ascii_digit text p run_end stop := by
    intro p hp hlt
    unfold numberStep
    by_cases hdot : byteIs (· == byte '.') text p = true
    · exact Or.inl (if_pos hdot)
    · obtain ⟨c, hc, hclass⟩ := hrun p hp hlt
      have hdigit : is_ascii_digit c = true := by
        rcases Bool.or_eq_true _ _ ▸ hclass with hdigit | hc'
        · exact hdigit
        · exact absurd (byteIs_iff.mpr ⟨c, hc, hc'⟩) hdot
      have hend := forward_spec is_ascii_digit (Nat.le_of_lt hlt) hlength
      rw [if_neg hdot]
      exact Or.inr ⟨_, rfl, hend.lt hlt hc hdigit, hend⟩
  have hgo : ∀ p, run_start ≤ p → p < run_end →
      ∃ found next, numberStep text run_end p = some (found, next) ∧ p < next := by
    intro p hp hlt
    rcases hturn p hp hlt with heq | ⟨stop, heq, hpos, -⟩
    · exact ⟨none, p + 1, heq, Nat.lt_succ_self p⟩
    · exact ⟨some (p, stop), stop, heq, hpos⟩
  obtain ⟨parts, hparts, hfound⟩ :=
    scanFrom_found hgo (Nat.le_add_left run_end run_start)
  suffices hordered : Ordered run_start parts ∧
      ∀ s ∈ parts, s.2 ≤ run_end ∧ RunEnd is_ascii_digit text s.1 run_end s.2 from
    ⟨parts, hparts, hfound, hordered.1, hordered.2⟩
  refine hfound.ordered fun p hp hlt found next heq => ?_
  rcases hturn p hp hlt with hnone | ⟨stop, hsome, hpos, hend⟩
  · obtain ⟨rfl, rfl⟩ := Prod.mk.inj (Option.some.inj (heq.symm.trans hnone))
    exact ⟨Nat.lt_succ_self p, fun s hs => nomatch hs⟩
  · obtain ⟨rfl, rfl⟩ := Prod.mk.inj (Option.some.inj (heq.symm.trans hsome))
    refine ⟨hpos, fun s hs => ?_⟩
    obtain rfl := Option.some.inj hs
    exact ⟨⟨Nat.le_refl _, hpos, Nat.le_refl _⟩, hend.le_hi, hend⟩

theorem Numbers.boundary
    {text : Text} (htext : Valid text) {run_start run_end : Nat} {parts : List Span}
    (h : Numbers text run_start run_end parts) {s : Span} (hs : s ∈ parts) :
    isCharBoundary text s.1 = true ∧ isCharBoundary text s.2 = true := by
  have hlt := (h.ordered.mem hs).2
  have hall := (h.digits s hs).2.all
  obtain ⟨c, hc, hdigit⟩ := hall s.1 (Nat.le_refl _) hlt
  exact ⟨isCharBoundary_of_ascii hc (ascii_is_ascii_digit c hdigit),
    boundary_of_allIn ascii_is_ascii_digit htext hall hlt⟩

theorem allM_some
    {β : Type} {f : β → Option Bool} {xs : List β} (h : ∀ x ∈ xs, ∃ b, f x = some b) :
    ∃ b, xs.allM f = some b := by
  induction xs with
  | nil => exact ⟨true, rfl⟩
  | cons x xs ih =>
      obtain ⟨b, hb⟩ := h x List.mem_cons_self
      rw [List.allM_cons, hb]
      cases b with
      | false => exact ⟨false, rfl⟩
      | true => exact ih fun y hy => h y (List.mem_cons_of_mem _ hy)

theorem isQuad_some
    {text : Text} (htext : Valid text) {run_start run_end : Nat} {parts : List Span}
    (h : Numbers text run_start run_end parts) :
    ∃ b, isQuad text parts = some b := by
  unfold isQuad
  split
  · refine allM_some fun s hs => ?_
    unfold isOctet
    split
    · obtain ⟨hfirst, hlast⟩ := h.boundary htext hs
      rw [strSlice_eq (Nat.le_of_lt (h.ordered.mem hs).2) hfirst hlast]
      exact ⟨_, rfl⟩
    · exact ⟨false, rfl⟩
  · exact ⟨false, rfl⟩

theorem ipv4Step_good
    {text : Text} (htext : Valid text) (i : Nat) :
    ∃ found next, ipv4Step text i = some (found, next) ∧ i < next ∧
      ∀ s, found = some s → (i ≤ s.1 ∧ s.1 < s.2 ∧ s.2 ≤ next) ∧
        isCharBoundary text s.1 = true ∧ isCharBoundary text s.2 = true := by
  unfold ipv4Step
  by_cases hclass : byteIs isDigitOrDot text i = true
  · obtain ⟨c, hc, hin⟩ := byteIs_iff.mp hclass
    have hlength := (List.getElem?_eq_some_iff.mp hc).1
    have hrun := forward_spec isDigitOrDot (Nat.le_of_lt hlength) (Nat.le_refl text.length)
    have hpos := hrun.lt hlength hc hin
    rw [if_neg (by simp [hclass])]
    dsimp only
    generalize forward isDigitOrDot text i text.length = run_end at hrun hpos ⊢
    obtain ⟨parts, hparts, hnumbers⟩ := numbers_spec hrun.le_hi hrun.all
    obtain ⟨is_quad, hquad⟩ := isQuad_some htext hnumbers
    simp only [hparts, hquad, Option.bind_eq_bind, Option.bind_some]
    split
    · rename_i first second third last
      refine ⟨_, run_end, rfl, hpos, fun s hs => ?_⟩
      obtain rfl := Option.some.inj hs
      have hfirst : first ∈ [first, second, third, last] := List.mem_cons_self
      have hlast : last ∈ [first, second, third, last] := by simp
      obtain ⟨h1, h2, h3, h4, h5, h6, h7, h8, -⟩ := hnumbers.ordered
      refine ⟨⟨h1, ?_, (hnumbers.digits last hlast).1⟩, (hnumbers.boundary htext hfirst).1,
        (hnumbers.boundary htext hlast).2⟩
      dsimp only
      omega
    · exact ⟨none, run_end, rfl, hpos, fun s hs => nomatch hs⟩
  · rw [if_pos (by simp [hclass])]
    exact ⟨none, i + 1, rfl, Nat.lt_succ_self i, fun s hs => nomatch hs⟩

theorem ipv4_good
    {text : Text} (htext : Valid text) :
    ∃ spans, ipv4.spans text = some spans ∧ GoodSpans text spans :=
  scan_good fun i _ => ipv4Step_good htext i

/-! ### E-mail addresses -/

theorem ascii_isDomain : Ascii is_domain := by
  intro c hc
  refine ascii_is_local c ?_
  have hall : ∀ b : BitVec 8, is_domain ⟨b⟩ = true → is_local ⟨b⟩ = true := by decide
  exact hall c.toBitVec hc

theorem validTld_some
    {domain : Text} (h : Valid domain) :
    ∃ b, validTld domain = some b := by
  have hdot := backward_spec (· != byte '.') (Nat.zero_le domain.length) (Nat.le_refl _)
  unfold validTld
  generalize backward (· != byte '.') domain 0 domain.length = k at hdot ⊢
  cases k with
  | zero => exact ⟨false, rfl⟩
  | succ dot =>
      rcases hdot.stop with hzero | ⟨c, hc, hstop⟩
      · exact nomatch hzero
      · have hascii : c < 0x80 := by
          have heq : c = byte '.' := by simpa using hstop
          rw [heq]
          decide
        dsimp only
        rw [strSlice_eq hdot.le (isCharBoundary_succ h hc hascii) (isCharBoundary_length _)]
        exact ⟨_, rfl⟩

/-- The parts of an address around the `@` at `i`. -/
structure EmailParts (text : Text) (last_end i : Nat) (s : Span) : Prop where
  local_part : ∃ first, RunStart is_local text last_end i first ∧
    RunEnd (· == byte '.') text first i s.1
  domain : ∃ last, RunEnd is_domain text (i + 1) text.length last ∧
    RunStart (fun c => c == byte '.' || c == byte '-') text (i + 1) last s.2

theorem EmailParts.bounds
    {text : Text} {last_end i : Nat} {s : Span} (h : EmailParts text last_end i s) :
    last_end ≤ s.1 ∧ s.1 ≤ i ∧ i + 1 ≤ s.2 ∧ s.2 ≤ text.length := by
  obtain ⟨first, hfirst, hstart⟩ := h.local_part
  obtain ⟨last, hlast, hstop⟩ := h.domain
  have h1 := hfirst.lo_le
  have h2 := hstart.le
  have h3 := hstop.le
  have h4 := hlast.le_hi
  exact ⟨by omega, hstart.le_hi, hstop.lo_le, by omega⟩

theorem EmailParts.boundary
    {text : Text} (htext : Valid text) {last_end i : Nat}
    (hat : byteIs (· == byte '@') text i = true)
    {s : Span} (h : EmailParts text last_end i s) :
    (s.1 < i → isCharBoundary text s.1 = true) ∧ isCharBoundary text (i + 1) = true ∧
      isCharBoundary text s.2 = true := by
  obtain ⟨first, hfirst, hstart⟩ := h.local_part
  obtain ⟨last, hlast, hstop⟩ := h.domain
  have hascii : Ascii (· == byte '@') := by
    intro c hc
    rw [beq_iff_eq.mp hc]
    decide
  have hnext := boundary_succ_of_byteIs hascii htext hat
  refine ⟨fun hlt => ?_, hnext, ?_⟩
  · obtain ⟨c, hc, hlocal⟩ := hfirst.all s.1 hstart.le hlt
    exact isCharBoundary_of_ascii hc (ascii_is_local c hlocal)
  · rcases Nat.eq_or_lt_of_le hstop.lo_le with heq | hlt
    · rwa [← heq]
    · exact boundary_of_allIn ascii_isDomain htext
        (fun k hk hks => hlast.all k hk (Nat.lt_of_lt_of_le hks hstop.le)) hlt

/-- What `emailAt` answers. -/
theorem emailAt_spec
    {text : Text} (htext : Valid text) {last_end i : Nat} (hle : last_end ≤ i)
    (hat : byteIs (· == byte '@') text i = true) :
    ∃ found, emailAt text last_end i = some found ∧
      ∀ s, found = some s → EmailParts text last_end i s ∧ s.1 < i := by
  obtain ⟨c, hc, -⟩ := byteIs_iff.mp hat
  have hlength := (List.getElem?_eq_some_iff.mp hc).1
  have hfirst := backward_spec is_local hle (Nat.le_of_lt hlength)
  have hstart := forward_spec (· == byte '.') hfirst.le (Nat.le_of_lt hlength)
  have hlast := forward_spec is_domain (show i + 1 ≤ text.length from hlength) (Nat.le_refl _)
  have hstop := backward_spec (fun c => c == byte '.' || c == byte '-') hlast.le hlast.le_hi
  unfold emailAt
  dsimp only
  generalize backward is_local text last_end i = first at hfirst hstart ⊢
  generalize forward (· == byte '.') text first i = start at hstart ⊢
  generalize forward is_domain text (i + 1) text.length = last at hlast hstop ⊢
  generalize backward (fun c => c == byte '.' || c == byte '-') text (i + 1) last = stop at hstop ⊢
  have hparts : EmailParts text last_end i (start, stop) :=
    ⟨⟨first, hfirst, hstart⟩, ⟨last, hlast, hstop⟩⟩
  obtain ⟨-, hnext, hend⟩ := hparts.boundary htext hat
  split
  · exact ⟨none, rfl, fun s hs => nomatch hs⟩
  · rename_i hsome
    obtain ⟨b, hb⟩ := validTld_some (htext.slice hnext hend hparts.bounds.2.2.1)
    rw [strSlice_eq hparts.bounds.2.2.1 hnext hend]
    simp only [Option.bind_eq_bind, Option.bind_some, hb]
    refine ⟨_, rfl, fun s hs => ?_⟩
    split at hs
    · obtain rfl := Option.some.inj hs
      exact ⟨hparts, Nat.lt_of_le_of_ne hparts.bounds.2.1 hsome⟩
    · exact nomatch hs

theorem emailSpans_good
    {text : Text} (htext : Valid text) {last_end : Nat} (ats : List Nat)
    (hats : ∀ i ∈ ats, byteIs (· == byte '@') text i = true) :
    ∃ spans, emailSpans text last_end ats = some spans ∧ Ordered last_end spans ∧
      ∀ s ∈ spans, isCharBoundary text s.1 = true ∧ isCharBoundary text s.2 = true := by
  induction ats generalizing last_end with
  | nil => exact ⟨[], rfl, trivial, fun s hs => nomatch hs⟩
  | cons i ats ih =>
      have hat := hats i List.mem_cons_self
      have hrest := fun last_end => @ih last_end fun k hk => hats k (List.mem_cons_of_mem _ hk)
      unfold emailSpans
      by_cases hlt : i < last_end
      · rw [if_pos hlt]
        exact hrest last_end
      · obtain ⟨found, hfound, hspan⟩ := emailAt_spec htext (Nat.not_lt.mp hlt) hat
        rw [if_neg hlt, hfound]
        cases found with
        | none => exact hrest last_end
        | some s =>
            obtain ⟨hparts, hsi⟩ := hspan s rfl
            obtain ⟨hlo, -, hhi, -⟩ := hparts.bounds
            obtain ⟨hfirst, -, hlast⟩ := hparts.boundary htext hat
            obtain ⟨spans, hspans, hordered, hbound⟩ := hrest s.2
            refine ⟨s :: spans, by simp only [hspans, Option.map_some], ⟨hlo, by omega, hordered⟩,
              fun t ht => ?_⟩
            rcases List.mem_cons.mp ht with rfl | ht
            · exact ⟨hfirst hsi, hlast⟩
            · exact hbound t ht

theorem emails_good
    {text : Text} (htext : Valid text) :
    ∃ spans, emails.spans text = some spans ∧ GoodSpans text spans := by
  obtain ⟨spans, hspans, hordered, hbound⟩ := @emailSpans_good text htext 0 _
    fun i hi => (List.mem_filter.mp hi).2
  exact ⟨spans, hspans, hordered, hbound⟩

/-! ### All passes -/

/-- The passes, in order. -/
def passes : List Pass :=
  [ssids, pins, userPaths, emails, macs, ipv4, ipv6]

/-- Each pass hands good spans to `replace_spans`, and what it returns is its text with
those spans replaced and everything else kept. -/
def Faithful : List Pass → Text → Prop
  | [], _ => True
  | pass :: rest, text => ∃ spans out, pass.spans text = some spans ∧ GoodSpans text spans ∧
      pass.mask text = some out ∧ Replaced pass.label 0 spans text out ∧ Faithful rest out

/-- The text after some passes. -/
def maskAll : List Pass → Text → Option Text
  | [], text => some text
  | pass :: rest, text => (pass.mask text).bind (maskAll rest)

theorem sanitize_pii_eq
    (text : Text) :
    sanitize_pii text = maskAll passes text := by
  simp [sanitize_pii, passes, maskAll, mask_ssids, mask_pins, mask_user_paths, mask_emails,
    mask_macs, mask_ipv4, mask_ipv6]

/-- A pass over a text in which it finds good spans. -/
theorem pass_faithful
    {pass : Pass} {text : Text} {spans : List Span} (hspans : pass.spans text = some spans)
    (hgood : GoodSpans text spans) (htext : Valid text) (hlabel : Valid pass.label) :
    ∃ out, pass.mask text = some out ∧ Replaced pass.label 0 spans text out ∧ Valid out := by
  obtain ⟨out, hout, hreplaced, hvalid⟩ := hgood.replaced htext hlabel
  exact ⟨out, by simp [Pass.mask, hspans, hout], hreplaced, hvalid⟩

/-- Passes that find good spans in every text get through every text. -/
theorem faithful_of_good
    {rest : List Pass}
    (hgood : ∀ pass ∈ rest, Valid pass.label ∧ ∀ text, Valid text →
      ∃ spans, pass.spans text = some spans ∧ GoodSpans text spans)
    {text : Text} (htext : Valid text) :
    Faithful rest text ∧ ∃ out, maskAll rest text = some out := by
  induction rest generalizing text with
  | nil => exact ⟨trivial, text, rfl⟩
  | cons pass rest ih =>
      obtain ⟨hlabel, hpass⟩ := hgood pass List.mem_cons_self
      obtain ⟨spans, hspans, hspans_good⟩ := hpass text htext
      obtain ⟨out, hout, hreplaced, hvalid⟩ := pass_faithful hspans hspans_good htext hlabel
      obtain ⟨hrest, final, hfinal⟩ := ih (fun p hp => hgood p (List.mem_cons_of_mem _ hp)) hvalid
      refine ⟨⟨spans, out, hspans, hspans_good, hout, hreplaced, hrest⟩, final, ?_⟩
      unfold maskAll
      rw [hout]
      exact hfinal

theorem good_passes :
    ∀ pass ∈ passes.tail, Valid pass.label ∧ ∀ text, Valid text →
      ∃ spans, pass.spans text = some spans ∧ GoodSpans text spans := by
  intro pass hpass
  simp only [passes, List.tail_cons, List.mem_cons, List.not_mem_nil, or_false] at hpass
  rcases hpass with rfl | rfl | rfl | rfl | rfl | rfl
  · exact ⟨valid_ascii (by decide), fun _ => pins_good⟩
  · exact ⟨valid_ascii (by decide), fun _ => userPaths_good⟩
  · exact ⟨valid_ascii (by decide), fun _ => emails_good⟩
  · exact ⟨valid_ascii (by decide), fun _ => macs_good⟩
  · exact ⟨valid_ascii (by decide), fun _ => ipv4_good⟩
  · exact ⟨valid_ascii (by decide), fun _ => ipv6_good⟩

/-- **Masking is total and faithful** exactly when no masked SSID begins inside of another
one. -/
theorem sanitize_faithful_iff
    {text : Text} (htext : Valid text) :
    ((∃ out, sanitize_pii text = some out) ∧ Faithful passes text) ↔ NoNestedSsid text := by
  obtain ⟨spans, hspans, hiff⟩ := ssids_good_iff htext
  rw [sanitize_pii_eq, ← hiff]
  constructor
  · rintro ⟨-, spans', out, hspans', hgood, -⟩
    obtain rfl := Option.some.inj (hspans.symm.trans hspans')
    exact hgood
  · intro hgood
    have hlabel : Valid ssids.label := valid_ascii (by decide)
    obtain ⟨out, hout, hreplaced, hvalid⟩ := pass_faithful hspans hgood htext hlabel
    obtain ⟨hrest, final, hfinal⟩ := faithful_of_good good_passes hvalid
    refine ⟨⟨final, ?_⟩, spans, out, hspans, hgood, hout, hreplaced, hrest⟩
    show (ssids.mask text).bind (maskAll passes.tail) = some final
    rw [hout]
    exact hfinal

/-- A key inside of the value of another one. -/
theorem nestedSsid_panics :
    Valid (ascii "ssid=ssid=x") ∧ sanitize_pii (ascii "ssid=ssid=x") = none :=
  ⟨valid_ascii (by decide), by decide⟩

/-- A text with an SSID and a PIN, and one that cannot be masked. -/
theorem sanitize_faithful_texts :
    NoNestedSsid (ascii "ssid=home pin=1234") ∧ ¬NoNestedSsid (ascii "ssid=ssid=x") := by
  constructor
  · have htext : Valid (ascii "ssid=home pin=1234") := valid_ascii (by decide)
    have hspans : ssids.spans (ascii "ssid=home pin=1234") = some [(5, 9)] := by decide
    have hgood : GoodSpans (ascii "ssid=home pin=1234") [(5, 9)] :=
      ⟨⟨by decide, by decide, trivial⟩, by decide⟩
    obtain ⟨out, hout, hreplaced, hvalid⟩ :=
      pass_faithful hspans hgood htext (valid_ascii (by decide))
    have hrest := (faithful_of_good good_passes hvalid).1
    exact (sanitize_faithful_iff htext).mp
      ⟨Option.isSome_iff_exists.mp (by decide +kernel), _, out, hspans, hgood, hout, hreplaced,
        hrest⟩
  · intro hnone
    obtain ⟨⟨out, hout⟩, -⟩ := (sanitize_faithful_iff (valid_ascii (by decide))).mpr hnone
    have hpanics : sanitize_pii (ascii "ssid=ssid=x") = none := by decide
    rw [hpanics] at hout
    exact absurd hout nofun

end Companion
end FocusVision
