import FocusVision.Engine.Bitrate
import FocusVision.Lib.Bytes

/-!
# The delay gradient

`parse_transport_feedback` of `protocol.rs`, which reads the entries off the wire,
and what `GccEstimator::process_feedback` averages over them: the differences of
neighbouring `recv_delta_us`, taken in `i32`.  They are exact as long as neighbours
are less than `2 ^ 31` microseconds apart, which the parser does not ask for.
-/

namespace FocusVision
namespace Engine

open Bytes

/-! ### Transport feedback -/

def TRANSPORT_FEEDBACK_MAX_ENTRIES : Nat := 256

/-- The entry number `i` of a payload. -/
def feedbackEntry (payload : List UInt8) (i : Nat) : TransportFeedbackEntry :=
  let off := 2 + i * 6
  { sequence := UInt16.ofNat (ofLeBytes ((payload.drop off).take 2))
    recvDeltaUs := (UInt32.ofNat (ofLeBytes ((payload.drop (off + 2)).take 4))).toInt32 }

/-- `parse_transport_feedback`. -/
def parseTransportFeedback (payload : List UInt8) : Option (List TransportFeedbackEntry) :=
  if payload.length < 2 then none
  else
    let count := ofLeBytes (payload.take 2)
    if TRANSPORT_FEEDBACK_MAX_ENTRIES < count then none
    else if payload.length < 2 + count * 6 then none
    else some ((List.range count).map (feedbackEntry payload))

def encodeEntry (entry : TransportFeedbackEntry) : List UInt8 :=
  leBytes 2 entry.sequence.toNat ++ leBytes 4 entry.recvDeltaUs.toUInt32.toNat

/-- `encode_transport_feedback`. -/
def encodeTransportFeedback (entries : List TransportFeedbackEntry) : List UInt8 :=
  let count := min entries.length TRANSPORT_FEEDBACK_MAX_ENTRIES
  leBytes 2 count ++ (entries.take count).flatMap encodeEntry

@[simp] theorem length_encodeEntry
    (entry : TransportFeedbackEntry) :
    (encodeEntry entry).length = 6 := by
  simp [encodeEntry]

theorem length_flatMap_encodeEntry
    (entries : List TransportFeedbackEntry) :
    (entries.flatMap encodeEntry).length = entries.length * 6 := by
  induction entries with
  | nil => rfl
  | cons entry entries ih =>
      simp only [List.flatMap_cons, List.length_append, length_encodeEntry, ih,
        List.length_cons]
      omega

/-- An entry reads back wherever the bytes before it end. -/
theorem feedbackEntry_append
    {before : List UInt8} {i : Nat} (h : before.length = 2 + i * 6)
    (entry : TransportFeedbackEntry) (after : List UInt8) :
    feedbackEntry (before ++ (encodeEntry entry ++ after)) i = entry := by
  have hseq : ((before ++ (encodeEntry entry ++ after)).drop (2 + i * 6)).take 2 =
      leBytes 2 entry.sequence.toNat := by
    rw [← h, List.drop_left, encodeEntry, List.append_assoc]
    exact List.take_left' (length_leBytes _ _)
  have hdelta : ((before ++ (encodeEntry entry ++ after)).drop (2 + i * 6 + 2)).take 4 =
      leBytes 4 entry.recvDeltaUs.toUInt32.toNat := by
    rw [← h, ← List.drop_drop, List.drop_left, encodeEntry, List.append_assoc,
      List.drop_left' (length_leBytes _ _)]
    exact List.take_left' (length_leBytes _ _)
  simp only [feedbackEntry]
  rw [hseq, hdelta, ofLeBytes_leBytes entry.sequence.toNat_lt,
    ofLeBytes_leBytes entry.recvDeltaUs.toUInt32.toNat_lt, UInt16.ofNat_toNat,
    UInt32.ofNat_toNat, Int32.toInt32_toUInt32]

theorem map_feedbackEntry
    (entries : List TransportFeedbackEntry) {before : List UInt8} {i : Nat}
    (h : before.length = 2 + i * 6) :
    (List.range' i entries.length).map
      (feedbackEntry (before ++ entries.flatMap encodeEntry)) = entries := by
  induction entries generalizing before i with
  | nil => rfl
  | cons entry entries ih =>
      have hnext : (before ++ encodeEntry entry).length = 2 + (i + 1) * 6 := by
        rw [List.length_append, length_encodeEntry, h]
        omega
      rw [List.length_cons, List.range'_succ, List.map_cons, List.flatMap_cons,
        feedbackEntry_append h, ← List.append_assoc, ih hnext]

/-- What the headset encodes is accepted, and read as the first entries of its list. -/
theorem parse_encodeTransportFeedback
    (entries : List TransportFeedbackEntry) :
    parseTransportFeedback (encodeTransportFeedback entries) =
      some (entries.take TRANSPORT_FEEDBACK_MAX_ENTRIES) := by
  have hmax : TRANSPORT_FEEDBACK_MAX_ENTRIES < 256 ^ 2 := by decide
  have hcount : min entries.length TRANSPORT_FEEDBACK_MAX_ENTRIES ≤
      TRANSPORT_FEEDBACK_MAX_ENTRIES := Nat.min_le_right _ _
  have htake : entries.take (min entries.length TRANSPORT_FEEDBACK_MAX_ENTRIES) =
      entries.take TRANSPORT_FEEDBACK_MAX_ENTRIES := by
    rw [Nat.min_comm, ← List.take_eq_take_min]
  have hlen : (entries.take TRANSPORT_FEEDBACK_MAX_ENTRIES).length =
      min entries.length TRANSPORT_FEEDBACK_MAX_ENTRIES := by
    rw [List.length_take, Nat.min_comm]
  unfold encodeTransportFeedback
  simp only [htake]
  generalize min entries.length TRANSPORT_FEEDBACK_MAX_ENTRIES = count at hcount hlen ⊢
  generalize entries.take TRANSPORT_FEEDBACK_MAX_ENTRIES = sent at hlen ⊢
  have hread : ofLeBytes ((leBytes 2 count ++ sent.flatMap encodeEntry).take 2) = count := by
    rw [List.take_left' (length_leBytes _ _), ofLeBytes_leBytes]
    omega
  have hlength : (leBytes 2 count ++ sent.flatMap encodeEntry).length = 2 + count * 6 := by
    rw [List.length_append, length_leBytes, length_flatMap_encodeEntry, hlen]
  unfold parseTransportFeedback
  rw [if_neg (by omega)]
  simp only
  rw [hread, if_neg (Nat.not_lt.mpr hcount), if_neg (by omega), List.range_eq_range',
    ← hlen]
  exact congrArg some (map_feedbackEntry sent (i := 0) (length_leBytes _ _))

/-- The entries of an accepted payload are those at its first positions. -/
theorem parse_eq_some
    {payload : List UInt8} {entries : List TransportFeedbackEntry}
    (h : parseTransportFeedback payload = some entries) :
    entries = (List.range entries.length).map (feedbackEntry payload) := by
  unfold parseTransportFeedback at h
  simp only at h
  split_ifs at h
  rw [Option.some.injEq] at h
  rw [← h, List.length_map, List.length_range]

/-! ### Differences -/

/-- `window[1].recv_delta_us - window[0].recv_delta_us`, for each window. -/
def differences (entries : List TransportFeedbackEntry) : List Int :=
  (entries.zip entries.tail).map fun window =>
    (window.2.recvDeltaUs - window.1.recvDeltaUs).toInt

/-- The differences of the integers that the deltas stand for. -/
def exactDifferences (entries : List TransportFeedbackEntry) : List Int :=
  (entries.zip entries.tail).map fun window =>
    window.2.recvDeltaUs.toInt - window.1.recvDeltaUs.toInt

/-- The filtered gradient after some more differences. -/
def averageOf (smooth : Bool) (filtered : F64) (diffs : List Int) : F64 :=
  diffs.foldl (fun filtered diff =>
    let gradient := Flt.div (Flt.ofInt diff) (f64 1000 1)
    if smooth then ewma gccAlpha gradient filtered else gradient) filtered

/-- The estimator averages the `i32` differences. -/
theorem filterAll_eq_averageOf
    (gcc : GccEstimator) (entries : List TransportFeedbackEntry) :
    gcc.filterAll entries =
      averageOf gcc.lastRecvDeltaUs.isSome gcc.filteredGradient (differences entries) := by
  unfold GccEstimator.filterAll averageOf differences
  rw [List.foldl_map]
  rfl

theorem toInt_sub_iff
    (a b : Int32) :
    (a - b).toInt = a.toInt - b.toInt ↔
      -2 ^ 31 ≤ a.toInt - b.toInt ∧ a.toInt - b.toInt < 2 ^ 31 := by
  have ha := a.le_toInt
  have ha' := a.toInt_lt
  have hb := b.le_toInt
  have hb' := b.toInt_lt
  rw [Int32.toInt_sub, Int.bmod_def]
  split_ifs <;> omega

/-- The estimator works on the exact differences of a batch. -/
structure ExactGradient (gcc : GccEstimator) (entries : List TransportFeedbackEntry) :
    Prop where
  noOverflow : differences entries = exactDifferences entries
  average : 2 ≤ entries.length →
    (gcc.processFeedback entries).filteredGradient =
      averageOf gcc.lastRecvDeltaUs.isSome gcc.filteredGradient (exactDifferences entries)

/-- The `recv_delta_us` of the entry number `i` of a payload. -/
def deltaUs (payload : List UInt8) (i : Nat) : Int :=
  (feedbackEntry payload i).recvDeltaUs.toInt

/-- Neighbouring deltas of a payload are less than `2 ^ 31` apart. -/
def CloseDeltas (payload : List UInt8) (count : Nat) : Prop :=
  ∀ i, i + 1 < count →
    -2 ^ 31 ≤ deltaUs payload (i + 1) - deltaUs payload i ∧
      deltaUs payload (i + 1) - deltaUs payload i < 2 ^ 31

theorem differences_eq_iff
    {payload : List UInt8} {entries : List TransportFeedbackEntry}
    (h : parseTransportFeedback payload = some entries) :
    differences entries = exactDifferences entries ↔
      CloseDeltas payload entries.length := by
  have hentry : ∀ i (hi : i < entries.length),
      entries[i].recvDeltaUs.toInt = deltaUs payload i := by
    intro i hi
    have hget : entries[i]? = some (feedbackEntry payload i) := by
      rw [parse_eq_some h, List.getElem?_map, List.getElem?_range hi]
      rfl
    rw [List.getElem?_eq_getElem hi, Option.some.injEq] at hget
    rw [hget]
    rfl
  have hlen : (entries.zip entries.tail).length = entries.length - 1 := by
    rw [List.length_zip, List.length_tail]
    omega
  unfold differences exactDifferences
  rw [List.map_inj_left, List.forall_mem_iff_forall_getElem]
  constructor
  · intro hall i hi
    have hwindow := (toInt_sub_iff _ _).mp (hall i (by omega))
    rw [List.getElem_zip, List.getElem_tail, hentry, hentry] at hwindow
    exact hwindow
  · intro hclose i hi
    rw [toInt_sub_iff, List.getElem_zip, List.getElem_tail, hentry, hentry]
    exact hclose i (by omega)

/-- The gradient is exact for exactly the payloads with close neighbours. -/
theorem exactGradient_iff
    {payload : List UInt8} {entries : List TransportFeedbackEntry}
    (h : parseTransportFeedback payload = some entries) (gcc : GccEstimator) :
    ExactGradient gcc entries ↔ CloseDeltas payload entries.length := by
  rw [← differences_eq_iff h]
  refine ⟨fun hexact => hexact.noOverflow, fun hdiff => ⟨hdiff, fun htwo => ?_⟩⟩
  unfold GccEstimator.processFeedback
  rw [if_neg (Nat.not_lt.mpr htwo)]
  exact (filterAll_eq_averageOf gcc entries).trans (by rw [hdiff])

/-- The receive times of a link whose second packet came `2 ^ 31` microseconds later. -/
def farApart : List TransportFeedbackEntry :=
  [⟨0, -1⟩, ⟨1, 0x7FFFFFFF⟩]

theorem exactGradient_two :
    CloseDeltas (encodeTransportFeedback [⟨0, 0⟩, ⟨1, 500⟩]) 2 ∧
      ExactGradient GccEstimator.new [⟨0, 0⟩, ⟨1, 500⟩] := by
  have hclose : CloseDeltas (encodeTransportFeedback [⟨0, 0⟩, ⟨1, 500⟩]) 2 := by
    intro i hi
    have hzero : i = 0 := by omega
    subst hzero
    decide
  exact ⟨hclose, (exactGradient_iff (parse_encodeTransportFeedback _) _).mpr hclose⟩

/-- The difference wraps, and the link seems to have become faster. -/
theorem farApart_overflows :
    parseTransportFeedback (encodeTransportFeedback farApart) = some farApart ∧
      differences farApart = [-2 ^ 31] ∧ exactDifferences farApart = [2 ^ 31] ∧
      ¬ ExactGradient GccEstimator.new farApart := by
  have hwrapped : differences farApart = [-2 ^ 31] := by decide
  have hexact : exactDifferences farApart = [2 ^ 31] := by decide
  refine ⟨parse_encodeTransportFeedback farApart, hwrapped, hexact, fun h => ?_⟩
  have hsame := h.noOverflow
  rw [hwrapped, hexact] at hsame
  exact absurd hsame (by decide)

end Engine
end FocusVision
