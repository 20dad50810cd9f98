import FocusVision.Lib.TextScan
import Mathlib.Algebra.Order.Ring.Nat

/-!
# Masking personal data

`sanitize_pii` and its seven passes of the companion's `export.rs`.  A `&str` is its
UTF-8 bytes.  Slicing one may panic, which is `none`; the source reads single bytes only
behind a check of the index, and such a read is a test that fails behind the end.
-/

namespace FocusVision
namespace Companion

open Utf8 TextScan

abbrev Text : Type := List UInt8

/-! ### Bytes -/

def QUOTE : UInt8 := 0x22

def BACKSLASH : UInt8 := 0x5C

def byte (c : Char) : UInt8 := UInt8.ofNat c.toNat

def is_ascii_digit (b : UInt8) : Bool :=
  decide (byte '0' ≤ b) && decide (b ≤ byte '9')

def is_ascii_uppercase (b : UInt8) : Bool :=
  decide (byte 'A' ≤ b) && decide (b ≤ byte 'Z')

def to_ascii_lowercase (b : UInt8) : UInt8 :=
  if is_ascii_uppercase b then b + 0x20 else b

def is_ascii_alphabetic (b : UInt8) : Bool :=
  decide (byte 'a' ≤ to_ascii_lowercase b) && decide (to_ascii_lowercase b ≤ byte 'z')

def is_ascii_alphanumeric (b : UInt8) : Bool :=
  is_ascii_alphabetic b || is_ascii_digit b

def is_ascii_hexdigit (b : UInt8) : Bool :=
  is_ascii_digit b ||
    decide (byte 'a' ≤ to_ascii_lowercase b) && decide (to_ascii_lowercase b ≤ byte 'f')

/-- Blank, tab, line feed, form feed and carriage return. -/
def is_ascii_whitespace (b : UInt8) : Bool :=
  [0x20, 0x09, 0x0A, 0x0C, 0x0D].contains b

def is_word_byte (b : UInt8) : Bool :=
  is_ascii_alphanumeric b || b == byte '_'

/-- There is a byte at `i`, and it is in `p`. -/
def byteIs (p : UInt8 → Bool) (text : Text) (i : Nat) : Bool :=
  text[i]?.any p

/-- `text[i..i + word.len()].eq_ignore_ascii_case(word)`. -/
def wordAt (text word : Text) (i : Nat) : Bool :=
  ((text.drop i).take word.length).map to_ascii_lowercase == word.map to_ascii_lowercase

/-! ### Replacing -/

/-- The loop of `replace_spans`. -/
def replaceFrom (text label : Text) : Nat → List Span → Option Text
  | last, [] => strSlice text last text.length
  | last, (start, stop) :: spans => do
      let kept ← strSlice text last start
      let rest ← replaceFrom text label stop spans
      some (kept ++ label ++ rest)

def replace_spans (text : Text) (spans : List Span) (label : Text) : Option Text :=
  if spans.isEmpty then some text else replaceFrom text label 0 spans

/-- One pass: how it finds its spans, and the label that it puts there. -/
structure Pass where
  spans : Text → Option (List Span)
  label : Text

/-- The text after a pass. -/
def Pass.mask (pass : Pass) (text : Text) : Option Text := do
  let spans ← pass.spans text
  replace_spans text spans pass.label

/-! ### Keys and values -/

def isQuote (c : UInt8) : Bool :=
  c == QUOTE

def isBlank (c : UInt8) : Bool :=
  c == byte ' '

def isKeySep (c : UInt8) : Bool :=
  c == byte ':' || c == byte '='

/-- Where the value of `key` starts, if the key is at `i`. -/
def keyValueStart (text key : Text) (i : Nat) : Option Nat :=
  if wordAt text key i && !(decide (0 < i) && byteIs is_word_byte text (i - 1)) then
    let j := i + key.length
    let j := if byteIs isQuote text j then j + 1 else j
    let j := forward isBlank text j text.length
    if byteIs isKeySep text j then
      some (forward isBlank text (j + 1) text.length)
    else none
  else none

/-- A turn of the loop of `key_value_starts`. -/
def keyStep (text key : Text) (i : Nat) : Option (Option Nat × Nat) :=
  match keyValueStart text key i with
  | some start => some (some start, start)
  | none => some (none, i + 1)

def key_value_starts (text key : Text) : Option (List Nat) :=
  scan (keyStep text key) (text.length + 1 - key.length)

/-- The length of what is quoted: up to the closing quote or the end of the line. -/
def quotedLength : Text → Nat
  | [] => 0
  | c :: rest =>
      if c = QUOTE ∨ c = 0x0A then 0
      else if c = BACKSLASH then
        match rest with
        | [] => 1
        | _ :: rest => 2 + quotedLength rest
      else 1 + quotedLength rest

/-- A byte of an SSID without quotes. -/
def isBareSsid (c : UInt8) : Bool :=
  !is_ascii_whitespace c && !(ascii ",;)\x7d]").contains c

/-- What is masked of the value that starts here. -/
def ssidSpan (text : Text) (start : Nat) : Option Span :=
  match text[start]? with
  | none => none
  | some c =>
      if c = QUOTE then
        let stop := min (start + 1 + quotedLength (text.drop (start + 1))) text.length
        if stop > start + 1 then some (start + 1, stop) else none
      else if c ≠ byte '<' then
        let stop := forward isBareSsid text start text.length
        if stop > start then some (start, stop) else none
      else none

def ssids : Pass where
  spans text := do
    let starts ← key_value_starts text (ascii "ssid")
    some (starts.filterMap (ssidSpan text))
  label := ascii "[REDACTED_SSID]"

def mask_ssids (text : Text) : Option Text :=
  ssids.mask text

def pinSpan (text : Text) (start : Nat) : Option Span :=
  let digits_start := if byteIs isQuote text start then start + 1 else start
  let stop := forward is_ascii_digit text digits_start text.length
  let len := stop - digits_start
  if 4 ≤ len ∧ len ≤ 8 ∧ ¬byteIs is_word_byte text stop then some (digits_start, stop) else none

def pins : Pass where
  spans text := do
    let starts ← key_value_starts text (ascii "pin")
    some (starts.filterMap (pinSpan text))
  label := ascii "[REDACTED_PIN]"

def mask_pins (text : Text) : Option Text :=
  pins.mask text

/-! ### User names in paths -/

def is_sep (c : UInt8) : Bool :=
  c == BACKSLASH || c == byte '/'

/-- A byte of a path's part. -/
def isName (c : UInt8) : Bool :=
  !is_sep c && !(([QUOTE, 0x27, 0x0D, 0x0A, 0x09, byte '<', byte '>', byte '|', byte '*',
    byte '?', byte ':', byte ',', byte ';'] : Text).contains c)

/-- The length of the marker that follows the separator at `i`. -/
def markerLen (text : Text) (i : Nat) : Option Nat :=
  [ascii "users", ascii "home"].findSome? fun m =>
    let stop := i + 1 + m.length
    if decide (stop < text.length) && wordAt text m (i + 1) && byteIs is_sep text stop then
      some m.length
    else none

/-- The user name behind the separator at `i`, and where to go on. -/
def userPathStep (text : Text) (i : Nat) : Option (Option Span × Nat) :=
  if !byteIs is_sep text i then some (none, i + 1)
  else
    match markerLen text i with
    | none => some (none, i + 1)
    | some marker_len => do
        let name_start := forward is_sep text (i + 1 + marker_len) text.length
        let j := forward isName text name_start text.length
        let name_end :=
          if byteIs is_sep text j then j
          else forward (fun c => !is_ascii_whitespace c) text name_start j
        let next := max name_end (i + 1)
        if name_end > name_start then
          let name ← strSlice text name_start name_end
          if (ascii "[REDACTED").isPrefixOf name then some (none, next)
          else some (some (name_start, name_end), next)
        else some (none, next)

def userPaths : Pass where
  spans text := scan (userPathStep text) text.length
  label := ascii "[REDACTED_USER]"

def mask_user_paths (text : Text) : Option Text :=
  userPaths.mask text

/-! ### E-mail addresses -/

def is_local (c : UInt8) : Bool :=
  is_ascii_alphanumeric c || (ascii "._%+-").contains c

def is_domain (c : UInt8) : Bool :=
  is_ascii_alphanumeric c || c == byte '.' || c == byte '-'

/-- The check of the domain: its last part. -/
def validTld (domain : Text) : Option Bool :=
  match backward (· != byte '.') domain 0 domain.length with
  | 0 => some false
  | dot + 1 => do
      let tld ← strSlice domain (dot + 1) domain.length
      some (decide (dot > 0) && decide (tld.length ≥ 2) && tld.all is_ascii_alphabetic)

/-- The address around the `@` at `i`, behind the last one. -/
def emailAt (text : Text) (last_end i : Nat) : Option (Option Span) :=
  let start := backward is_local text last_end i
  let start := forward (· == byte '.') text start i
  let stop := forward is_domain text (i + 1) text.length
  let stop := backward (fun c => c == byte '.' || c == byte '-') text (i + 1) stop
  if start = i then some none
  else do
    let domain ← strSlice text (i + 1) stop
    let valid_tld ← validTld domain
    some (if valid_tld then some (start, stop) else none)

/-- The loop of `mask_emails`, over the positions of the `@`s. -/
def emailSpans (text : Text) : Nat → List Nat → Option (List Span)
  | _, [] => some []
  | last_end, i :: ats =>
      if i < last_end then emailSpans text last_end ats
      else
        match emailAt text last_end i with
        | none => none
        | some none => emailSpans text last_end ats
        | some (some span) => (emailSpans text span.2 ats).map (span :: ·)

def emails : Pass where
  spans text :=
    emailSpans text 0 ((List.range text.length).filter (byteIs (· == byte '@') text))
  label := ascii "[REDACTED_EMAIL]"

def mask_emails (text : Text) : Option Text :=
  emails.mask text

/-! ### Addresses -/

def MAC_LEN : Nat := 17

def is_mac_at (text : Text) (i : Nat) : Bool :=
  byteIs (fun sep => (sep == byte ':' || sep == byte '-') &&
      (List.range 6).all (fun g => byteIs is_ascii_hexdigit text (i + g * 3) &&
        byteIs is_ascii_hexdigit text (i + g * 3 + 1)) &&
      (List.range 5).all fun g => byteIs (· == sep) text (i + g * 3 + 2))
    text (i + 2)

def macStep (text : Text) (i : Nat) : Option (Option Span × Nat) :=
  let stop := i + MAC_LEN
  if !(decide (0 < i) && byteIs is_ascii_hexdigit text (i - 1)) &&
      !byteIs is_ascii_hexdigit text stop && is_mac_at text i then
    some (some (i, stop), stop)
  else some (none, i + 1)

def macs : Pass where
  spans text := scan (macStep text) (text.length + 1 - MAC_LEN)
  label := ascii "[REDACTED_MAC]"

def mask_macs (text : Text) : Option Text :=
  macs.mask text

def isDigitOrDot (c : UInt8) : Bool :=
  is_ascii_digit c || c == byte '.'

/-- A turn of the loop over a run of digits and dots. -/
def numberStep (text : Text) (run_end p : Nat) : Option (Option Span × Nat) :=
  if byteIs (· == byte '.') text p then some (none, p + 1)
  else
    let stop := forward is_ascii_digit text p run_end
    some (some (p, stop), stop)

/-- The numbers of such a run. -/
def numbers (text : Text) (run_start run_end : Nat) : Option (List Span) :=
  scanFrom (numberStep text run_end) run_end run_end run_start

/-- `parse::<u16>` of digits. -/
def parseU16 (digits : Text) : Option Nat :=
  let value := digits.foldl (fun n d => 10 * n + (d - byte '0').toNat) 0
  if digits ≠ [] ∧ digits.all is_ascii_digit ∧ value < 2 ^ 16 then some value else none

/-- An octet of an address. -/
def isOctet (text : Text) (part : Span) : Option Bool :=
  if part.2 - part.1 ≤ 3 then do
    let digits ← strSlice text part.1 part.2
    some ((parseU16 digits).any fun v => decide (v ≤ 255))
  else some false

/-- The numbers are the four of an address. -/
def isQuad (text : Text) (parts : List Span) : Option Bool :=
  if parts.length = 4 ∧ (parts.zip parts.tail).all (fun (w0, w1) => w1.1 == w0.2 + 1) then
    parts.allM (isOctet text)
  else some false

def ipv4Step (text : Text) (i : Nat) : Option (Option Span × Nat) :=
  if !byteIs isDigitOrDot text i then some (none, i + 1)
  else do
    let run_end := forward isDigitOrDot text i text.length
    let parts ← numbers text i run_end
    let is_quad ← isQuad text parts
    match is_quad, parts with
    | true, [first, _, _, last] => some (some (first.1, last.2), run_end)
    | _, _ => some (none, run_end)

def ipv4 : Pass where
  spans text := scan (ipv4Step text) text.length
  label := ascii "[REDACTED_IP]"

def mask_ipv4 (text : Text) : Option Text :=
  ipv4.mask text

def isV6 (c : UInt8) : Bool :=
  is_ascii_hexdigit c || c == byte ':'

/-- `matches("::").count()`. -/
def countDoubleColons : Text → Nat
  | [] => 0
  | [_] => 0
  | c :: d :: rest =>
      if c = byte ':' ∧ d = byte ':' then 1 + countDoubleColons rest
      else countDoubleColons (d :: rest)

/-- `contains`. -/
def containsText (s sub : Text) : Bool :=
  s.tails.any sub.isPrefixOf

def looks_like_ipv6 (s : Text) : Bool :=
  if containsText s (ascii ":::") || decide (countDoubleColons s > 1) then false
  else
    let groups := s.splitOn (byte ':')
    if groups.length > 9 ∨ groups.any (fun g => decide (g.length > 4)) then false
    else
      let non_empty := (groups.filter fun g => !g.isEmpty).length
      if containsText s (ascii "::") then decide (non_empty ≥ 2)
      else decide (groups.length = 8) && decide (non_empty = 8)

def isColon (c : UInt8) : Bool :=
  c == byte ':'

/-- The end of a run without a single `:`, which is punctuation. -/
def trimEnd (text : Text) (start stop : Nat) : Nat :=
  if decide (stop - start ≥ 2) && byteIs isColon text (stop - 1) &&
      !byteIs isColon text (stop - 2) then stop - 1
  else stop

/-- Its beginning. -/
def trimStart (text : Text) (start stop : Nat) : Nat :=
  if decide (stop - start ≥ 2) && byteIs isColon text start && !byteIs isColon text (start + 1) then
    start + 1
  else start

def ipv6Step (text : Text) (i : Nat) : Option (Option Span × Nat) :=
  if !byteIs isV6 text i then some (none, i + 1)
  else
    let run_end := forward isV6 text i text.length
    if (decide (0 < i) && byteIs is_word_byte text (i - 1)) || byteIs is_word_byte text run_end then
      some (none, run_end)
    else do
      let stop := trimEnd text i run_end
      let start := trimStart text i stop
      let s ← strSlice text start stop
      some (if looks_like_ipv6 s then some (start, stop) else none, run_end)

def ipv6 : Pass where
  spans text := scan (ipv6Step text) text.length
  label := ascii "[REDACTED_IP]"

def mask_ipv6 (text : Text) : Option Text :=
  ipv6.mask text

/-! ### All passes -/

def sanitize_pii (text : Text) : Option Text := do
  let text ← mask_ssids text
  let text ← mask_pins text
  let text ← mask_user_paths text
  let text ← mask_emails text
  let text ← mask_macs text
  let text ← mask_ipv4 text
  mask_ipv6 text

end Companion
end FocusVision
