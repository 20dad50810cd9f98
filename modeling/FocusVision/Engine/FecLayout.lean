import FocusVision.Engine.FecEndToEnd

/-!
# The choice of the layout

`choose_fec_layout` reasons about the longest slice, and about the number of data
shards alone; the encoder works on the slices that `SliceSplitter` gives, and adds
parity.  Here the two are brought together: the counts it accepts are those for
which every slice fits in a code word with its parity, it takes the least of them,
and every code word of the frame is then encoded.
-/

namespace FocusVision
namespace Engine

open Bytes

variable {crate : RsCrate}

/-! ### The longest slice -/

theorem length_flatten_le
    {slices : List (List UInt8)} {size : Nat}
    (h : ∀ slice ∈ slices, slice.length ≤ size) :
    slices.flatten.length ≤ slices.length * size := by
  induction slices with
  | nil => simp
  | cons slice slices ih =>
      have hrest := ih fun s hs => h s (List.mem_cons_of_mem _ hs)
      have hfirst := h slice List.mem_cons_self
      rw [List.flatten_cons, List.length_append, List.length_cons, Nat.add_mul, Nat.one_mul]
      omega

/-- The longest slice has `ceil(len / n)` bytes. -/
theorem longest_slice
    (data : List UInt8) {n : Nat} (hn : 0 < n) :
    (∀ slice ∈ split data n, slice.length ≤ ceilDiv data.length n) ∧
      ∃ slice ∈ split data n, slice.length = ceilDiv data.length n := by
  by_cases hdata : data = []
  · have hzero : ceilDiv 0 n = 0 := Nat.le_zero.mp ((ceilDiv_le_iff hn).mpr (Nat.zero_le _))
    subst hdata
    simp [split, hzero]
  · obtain ⟨hflat, hcount, hbound⟩ := split_spec hdata hn
    refine ⟨hbound, ?_⟩
    by_contra hnone
    -- if every slice were shorter, the slices could not be the whole frame
    have hshort : ∀ slice ∈ split data n, slice.length ≤ ceilDiv data.length n - 1 := by
      intro slice hslice
      have hle := hbound slice hslice
      have hne : slice.length ≠ ceilDiv data.length n := fun h => hnone ⟨slice, hslice, h⟩
      omega
    have hlen := length_flatten_le hshort
    rw [hflat, hcount, Nat.mul_comm, ← ceilDiv_le_iff hn] at hlen
    have hpos := ceilDiv_pos hn (List.length_pos_iff.mpr hdata)
    omega

/-! ### Slices that fit -/

/-- Every slice fits in a code word, with its parity. -/
def SlicesFit (r : F32) (data : List UInt8) (n : Nat) : Prop :=
  ∀ slice ∈ split data n,
    sliceDataShards slice.length + parityFor r (sliceDataShards slice.length) ≤
      RS_MAX_TOTAL_SHARDS

theorem sliceDataShards_pos
    (len : Nat) :
    0 < sliceDataShards len :=
  ceilDiv_pos (by decide) (by simp [SLICE_LEN_PREFIX])

/-- It is enough to look at the longest slice. -/
theorem slicesFit_iff
    {r : F32} (hr : UnitInterval r) (data : List UInt8) {n : Nat} (hn : 0 < n) :
    SlicesFit r data n ↔ sliceDataShards (ceilDiv data.length n) ≤ maxDataShards r := by
  obtain ⟨hbound, slice, hslice, hlen⟩ := longest_slice data hn
  constructor
  · intro hfit
    rw [← hlen, ← fits_iff hr (sliceDataShards_pos _)]
    exact hfit slice hslice
  · intro hmax other hother
    rw [fits_iff hr (sliceDataShards_pos _)]
    exact Nat.le_trans (sliceDataShards_mono (hbound other hother)) hmax

theorem ceilDiv_anti
    (len : Nat) {m n : Nat} (hm : 0 < m) (hmn : m ≤ n) :
    ceilDiv len n ≤ ceilDiv len m := by
  rw [ceilDiv_le_iff (Nat.lt_of_lt_of_le hm hmn)]
  exact Nat.le_trans (le_ceilDiv_mul len hm) (Nat.mul_le_mul_left _ hmn)

/-- More slices fit as well. -/
theorem SlicesFit.mono
    {r : F32} (hr : UnitInterval r) {data : List UInt8} {m n : Nat} (hm : 0 < m)
    (hmn : m ≤ n) (h : SlicesFit r data m) :
    SlicesFit r data n := by
  rw [slicesFit_iff hr data hm] at h
  rw [slicesFit_iff hr data (Nat.lt_of_lt_of_le hm hmn)]
  exact Nat.le_trans (sliceDataShards_mono (ceilDiv_anti data.length hm hmn)) h

/-- The least count that the search may answer. -/
def firstCount (frameLen : Nat) (sliceFecEnabled : Bool) (sliceCount : Nat) : Nat :=
  if sliceFecEnabled && decide (frameLen ≥ MIN_SLICE_SIZE) then
    max 1 (min sliceCount MAX_SLICE_COUNT)
  else 1

theorem firstCount_bounds
    (frameLen : Nat) (sliceFecEnabled : Bool) (sliceCount : Nat) :
    0 < firstCount frameLen sliceFecEnabled sliceCount ∧
      firstCount frameLen sliceFecEnabled sliceCount ≤ MAX_SLICE_COUNT := by
  have hmax : MAX_SLICE_COUNT = 15 := rfl
  unfold firstCount
  split_ifs <;> omega

/-- The layout is bulk, or the outcome of the search. -/
theorem chooseFecLayout_cases
    (frameLen : Nat) (sliceFecEnabled : Bool) (sliceCount maxShards : Nat) :
    let first := firstCount frameLen sliceFecEnabled sliceCount
    match chooseFecLayout frameLen sliceFecEnabled sliceCount maxShards with
    | .bulk => ceilDiv frameLen FEC_SHARD_SIZE ≤ maxShards
    | .sliced n =>
        (first ≤ n ∧ n ≤ MAX_SLICE_COUNT ∧
          sliceDataShards (ceilDiv frameLen n) ≤ maxShards) ∧
        ∀ k, first ≤ k → k < n → ¬ sliceDataShards (ceilDiv frameLen k) ≤ maxShards
    | .unprotected =>
        ∀ k, first ≤ k → k ≤ MAX_SLICE_COUNT →
          ¬ sliceDataShards (ceilDiv frameLen k) ≤ maxShards := by
  intro first
  obtain ⟨-, hfirst⟩ := firstCount_bounds frameLen sliceFecEnabled sliceCount
  cases hlayout : chooseFecLayout frameLen sliceFecEnabled sliceCount maxShards with
  | bulk => exact chooseFecLayout_bulk hlayout
  | sliced n =>
      unfold chooseFecLayout at hlayout
      simp only at hlayout
      split at hlayout
      · exact absurd hlayout (by simp)
      · split at hlayout
        · next m hfind =>
            cases hlayout
            obtain ⟨hfits, hmem, hleast⟩ := List.find?_range'_eq_some.mp hfind
            rw [List.mem_range'_1] at hmem
            simp only [decide_eq_true_eq] at hfits
            refine ⟨⟨hmem.1, ?_, hfits⟩, ?_⟩
            · have hlt := hmem.2
              change n < first + (MAX_SLICE_COUNT + 1 - first) at hlt
              have hle : first ≤ MAX_SLICE_COUNT := hfirst
              omega
            · intro k hk hkn
              simpa using hleast k hk hkn
        · exact absurd hlayout (by simp)
  | unprotected =>
      unfold chooseFecLayout at hlayout
      simp only at hlayout
      split at hlayout
      · exact absurd hlayout (by simp)
      · split at hlayout
        · exact absurd hlayout (by simp)
        · next hfind =>
            intro k hk hkmax
            have hmem : k ∈ List.range' first (MAX_SLICE_COUNT + 1 - first) := by
              rw [List.mem_range'_1]
              omega
            have hnot := List.find?_eq_none.mp hfind k hmem
            simpa using hnot

/-! ### Code words -/

/-- The data shards of the code words that a frame is cut into. -/
def codeWords (layout : FecLayout) (frameData : List UInt8) : List (List Shard) :=
  match layout with
  | .bulk => if frameData = [] then [] else [toDataShards frameData]
  | .sliced n =>
      (split frameData n).map fun slice =>
        toDataShards (leBytes SLICE_LEN_PREFIX slice.length ++ slice)
  | .unprotected => []

/-- The batch carries these data shards and their parity. -/
def Coded (r : F32) (batch : List Packet) (word : List Shard) : Prop :=
  ∃ parity : List Shard,
    parity.length = parityFor r word.length ∧ batch.map payload = word ++ parity

theorem map_payload_shardsToPackets
    {shards : List Shard} (hle : shards.length ≤ MAX_FRAME_SHARDS) (dataCount : Nat)
    (frameIndex timestamp : UInt32) (flags sequence : UInt16) :
    (shardsToPackets shards dataCount frameIndex timestamp flags sequence).1.map payload =
      shards := by
  unfold shardsToPackets
  simp only
  rw [if_neg (Nat.not_lt.mpr hle)]
  refine List.ext_getElem? fun i => ?_
  rw [List.getElem?_map, List.getElem?_mapIdx]
  cases shards[i]? with
  | none => rfl
  | some shard => simp

/-- Data shards that fit are encoded, by every encoder in good order. -/
theorem encode_fits
    (hcrate : crate.Correct) {r : F32} (hr : UnitInterval r) {fec : FecEncoder crate}
    (hfec : fec.Ok r) {data : List UInt8} (hne : data ≠ [])
    (hfits : (toDataShards data).length + parityFor r (toDataShards data).length ≤
      RS_MAX_TOTAL_SHARDS) :
    ∃ parity : List Shard,
      parity.length = parityFor r (toDataShards data).length ∧
      (fec.encode (toDataShards data)).1 = .ok (toDataShards data ++ parity) := by
  obtain ⟨hcache, rfl⟩ := hfec
  have hpos : 0 < (toDataShards data).length :=
    List.length_pos_iff.mpr (toDataShards_ne_nil hne)
  obtain ⟨parity, hencode, hcount, -⟩ :=
    FecEncoder.encode_ok hcrate hcache hr (toDataShards_ne_nil hne) (by decide)
      (fun shard hshard => length_of_mem_toDataShards hshard) ((fits_iff hr hpos).mp hfits)
  exact ⟨parity, hcount, hencode⟩

section Coding

variable {r : F32} (hcrate : crate.Correct) (hr : UnitInterval r)

include hcrate hr

/-- A shard list that fits becomes a coded batch. -/
theorem encode_coded
    {fec : FecEncoder crate} (hfec : fec.Ok r) {data : List UInt8} (hne : data ≠ [])
    (hfits : (toDataShards data).length + parityFor r (toDataShards data).length ≤
      RS_MAX_TOTAL_SHARDS)
    (frameIndex timestamp : UInt32) (flags sequence : UInt16) :
    ∃ shards : List Shard,
      (fec.encode (toDataShards data)).1 = .ok shards ∧
      Coded r (shardsToPackets shards (toDataShards data).length frameIndex timestamp flags
        sequence).1 (toDataShards data) := by
  obtain ⟨parity, hcount, hencode⟩ := encode_fits hcrate hr hfec hne hfits
  refine ⟨_, hencode, parity, hcount, map_payload_shardsToPackets ?_ _ _ _ _ _⟩
  rw [List.length_append, hcount]
  simp only [RS_MAX_TOTAL_SHARDS, MAX_FRAME_SHARDS] at hfits ⊢
  omega

/-- Slices that fit are all encoded. -/
theorem encodeSlices_coded
    (frameIndex timestamp : UInt32) (isKeyframe : Bool) (sliceCount : Nat)
    {sliceIdx : Nat} {slices : List (List UInt8)} {encoders : List (FecEncoder crate)}
    {sequence : UInt16} (hencoders : ∀ enc ∈ encoders, enc.Ok r)
    (hlen : slices.length ≤ encoders.length)
    (hfits : ∀ slice ∈ slices,
      sliceDataShards slice.length + parityFor r (sliceDataShards slice.length) ≤
        RS_MAX_TOTAL_SHARDS) :
    ∃ batches : List (List Packet),
      (encodeSlices frameIndex timestamp isKeyframe sliceCount sliceIdx slices encoders
        sequence).1 = some batches ∧
      List.Forall₂ (Coded r) batches (slices.map fun slice =>
        toDataShards (leBytes SLICE_LEN_PREFIX slice.length ++ slice)) := by
  induction slices generalizing sliceIdx encoders sequence with
  | nil => exact ⟨[], by simp [encodeSlices], List.Forall₂.nil⟩
  | cons slice slices ih =>
      cases encoders with
      | nil => exact absurd hlen (by simp)
      | cons enc encoders =>
          have hshards : (toDataShards (leBytes SLICE_LEN_PREFIX slice.length ++ slice)).length =
              sliceDataShards slice.length := by
            rw [length_toDataShards, List.length_append, length_leBytes, Nat.add_comm]
            rfl
          obtain ⟨shards, hencode, hcoded⟩ :=
            encode_coded hcrate hr (hencoders enc List.mem_cons_self)
              (show leBytes SLICE_LEN_PREFIX slice.length ++ slice ≠ [] by
                simp [SLICE_LEN_PREFIX, leBytes])
              (by rw [hshards]; exact hfits slice List.mem_cons_self)
              frameIndex timestamp
              (FvpFlags.encode isKeyframe (UInt8.ofNat sliceIdx) (UInt8.ofNat sliceCount) 0)
              sequence
          simp only [encodeSlices]
          generalize enc.encode
            (toDataShards (leBytes SLICE_LEN_PREFIX slice.length ++ slice)) = res at hencode ⊢
          obtain ⟨answer, enc'⟩ := res
          simp only at hencode
          subst hencode
          simp only
          generalize shardsToPackets shards
            (toDataShards (leBytes SLICE_LEN_PREFIX slice.length ++ slice)).length frameIndex
            timestamp
            (FvpFlags.encode isKeyframe (UInt8.ofNat sliceIdx) (UInt8.ofNat sliceCount) 0)
            sequence = out at hcoded ⊢
          obtain ⟨packets, sequence'⟩ := out
          obtain ⟨batches, hrest, hall⟩ :=
            @ih (sliceIdx + 1) encoders sequence'
              (fun enc henc => hencoders enc (List.mem_cons_of_mem _ henc))
              (by simpa using hlen)
              (fun slice hslice => hfits slice (List.mem_cons_of_mem _ hslice))
          exact ⟨packets :: batches, by rw [hrest]; rfl, List.Forall₂.cons hcoded hall⟩

end Coding

/-! ### The frame encoder -/

namespace FrameFecEncoder

/-- The calls do not change the slice settings. -/
theorem after_settings
    (enc : FrameFecEncoder crate) (calls : List Call) :
    (enc.after calls).sliceFecEnabled = enc.sliceFecEnabled ∧
      (enc.after calls).sliceCount = enc.sliceCount := by
  induction calls generalizing enc with
  | nil => exact ⟨rfl, rfl⟩
  | cons call calls ih =>
      have hcall : (enc.apply call).sliceFecEnabled = enc.sliceFecEnabled ∧
          (enc.apply call).sliceCount = enc.sliceCount := by
        cases call with
        | setRedundancy redundancy => exact ⟨rfl, rfl⟩
        | encode frameData frameIndex timestamp isKeyframe sequence =>
            simp only [apply, FrameFecEncoder.encode]
            cases enc.layout frameData <;> exact ⟨rfl, rfl⟩
      rw [← hcall.1, ← hcall.2]
      exact ih (enc.apply call)

variable {enc : FrameFecEncoder crate} {frameData : List UInt8}

/-- What the layout says about the counts of slices that fit. -/
theorem layout_spec
    (henc : enc.Ok) :
    let first := firstCount frameData.length enc.sliceFecEnabled enc.sliceCount
    match enc.layout frameData with
    | .bulk => ceilDiv frameData.length FEC_SHARD_SIZE ≤ maxDataShards enc.bulk.redundancy
    | .sliced n =>
        (first ≤ n ∧ n ≤ MAX_SLICE_COUNT ∧ SlicesFit enc.bulk.redundancy frameData n) ∧
        ∀ k, first ≤ k → k < n → ¬ SlicesFit enc.bulk.redundancy frameData k
    | .unprotected =>
        ∀ k, 0 < k → k ≤ MAX_SLICE_COUNT → ¬ SlicesFit enc.bulk.redundancy frameData k := by
  intro first
  obtain ⟨hpos, hmax⟩ := firstCount_bounds frameData.length enc.sliceFecEnabled enc.sliceCount
  have hcases := chooseFecLayout_cases frameData.length enc.sliceFecEnabled enc.sliceCount
    (maxDataShards enc.bulk.redundancy)
  unfold layout
  cases hlayout : chooseFecLayout frameData.length enc.sliceFecEnabled enc.sliceCount
      (maxDataShards enc.bulk.redundancy) with
  | bulk =>
      rw [hlayout] at hcases
      exact hcases
  | sliced n =>
      rw [hlayout] at hcases
      obtain ⟨⟨hle, hn, hfits⟩, hleast⟩ := hcases
      have hnpos : 0 < n := Nat.lt_of_lt_of_le hpos hle
      refine ⟨⟨hle, hn, (slicesFit_iff henc.unit frameData hnpos).mpr hfits⟩, ?_⟩
      intro k hk hkn hfit
      refine hleast k hk hkn ?_
      exact (slicesFit_iff henc.unit frameData (Nat.lt_of_lt_of_le hpos hk)).mp hfit
  | unprotected =>
      rw [hlayout] at hcases
      intro k hk hkmax hfit
      -- a smaller count than the first would make the first one fit as well
      have hlarger : SlicesFit enc.bulk.redundancy frameData (max first k) :=
        hfit.mono henc.unit hk (Nat.le_max_right _ _)
      refine hcases (max first k) (Nat.le_max_left _ _) (Nat.max_le.mpr ⟨hmax, hkmax⟩) ?_
      exact (slicesFit_iff henc.unit frameData
        (Nat.lt_of_lt_of_le hk (Nat.le_max_right _ _))).mp hlarger

/-- The code words of the frame fit, with their parity. -/
theorem codeWords_fit
    (henc : enc.Ok) {word : List Shard}
    (hword : word ∈ codeWords (enc.layout frameData) frameData) :
    (∃ data, data ≠ [] ∧ word = toDataShards data) ∧
      word.length + parityFor enc.bulk.redundancy word.length ≤ RS_MAX_TOTAL_SHARDS := by
  have hspec := @layout_spec crate enc frameData henc
  cases hlayout : enc.layout frameData with
  | bulk =>
      rw [hlayout] at hword hspec
      unfold codeWords at hword
      simp only at hword hspec
      split_ifs at hword with hdata
      · exact absurd hword List.not_mem_nil
      · rw [List.mem_singleton] at hword
        subst hword
        have hpos : 0 < (toDataShards frameData).length :=
          List.length_pos_iff.mpr (toDataShards_ne_nil hdata)
        refine ⟨⟨frameData, hdata, rfl⟩, (fits_iff henc.unit hpos).mpr ?_⟩
        rw [length_toDataShards]
        exact hspec
  | sliced n =>
      rw [hlayout] at hword hspec
      obtain ⟨slice, hslice, rfl⟩ := List.mem_map.mp hword
      have hlen : (toDataShards (leBytes SLICE_LEN_PREFIX slice.length ++ slice)).length =
          sliceDataShards slice.length := by
        rw [length_toDataShards, List.length_append, length_leBytes, Nat.add_comm]
        rfl
      refine ⟨⟨_, by simp [SLICE_LEN_PREFIX, leBytes], rfl⟩, ?_⟩
      rw [hlen]
      exact hspec.1.2.2 slice hslice
  | unprotected =>
      rw [hlayout] at hword
      exact absurd hword List.not_mem_nil

/-- Unless the frame is unprotected, the packets are its code words with parity. -/
theorem encode_codeWords
    (hcrate : crate.Correct) (henc : enc.Ok)
    (hlayout : enc.layout frameData ≠ .unprotected)
    (frameIndex timestamp : UInt32) (isKeyframe : Bool) (sequence : UInt16) :
    List.Forall₂ (Coded enc.bulk.redundancy)
      (enc.encode frameData frameIndex timestamp isKeyframe sequence).1
      (codeWords (enc.layout frameData) frameData) := by
  have hfit := @codeWords_fit crate enc frameData henc
  cases hcase : enc.layout frameData with
  | unprotected => exact absurd hcase hlayout
  | bulk =>
      rw [hcase] at hfit
      simp only [encode, hcase, encodeFrameToPacketsWithFec]
      by_cases hdata : frameData = []
      · subst hdata
        have hnone : (toDataShards []).isEmpty = true := by decide
        simp [codeWords, hnone]
      · have hsome : (toDataShards frameData).isEmpty = false := by
          rw [List.isEmpty_eq_false_iff]
          exact toDataShards_ne_nil hdata
        have hwords : codeWords .bulk frameData = [toDataShards frameData] := by
          simp [codeWords, hdata]
        rw [hwords] at hfit ⊢
        obtain ⟨shards, hencode, hcoded⟩ :=
          encode_coded hcrate henc.unit ⟨henc.bulk, rfl⟩ hdata
            (hfit List.mem_cons_self).2 frameIndex timestamp
            (FvpFlags.encodeSimple isKeyframe) sequence
        simp only [hsome, Bool.false_eq_true, if_false]
        generalize enc.bulk.encode (toDataShards frameData) = res at hencode ⊢
        obtain ⟨answer, bulk⟩ := res
        simp only at hencode
        subst hencode
        simp only
        generalize shardsToPackets shards (toDataShards frameData).length frameIndex timestamp
          (FvpFlags.encodeSimple isKeyframe) sequence = out at hcoded ⊢
        obtain ⟨packets, sequence'⟩ := out
        have hne : packets.isEmpty = false := by
          obtain ⟨parity, -, hpackets⟩ := hcoded
          rw [List.isEmpty_eq_false_iff]
          rintro rfl
          have hnil := List.append_eq_nil_iff.mp hpackets.symm
          exact toDataShards_ne_nil hdata hnil.1
        simp only [hne, Bool.false_eq_true, if_false]
        exact List.Forall₂.cons hcoded List.Forall₂.nil
  | sliced n =>
      obtain ⟨hn, hnMax, hnLen, -⟩ := chooseFecLayout_sliced hcase
      have hmin : min (min n MAX_SLICE_COUNT) (min frameData.length 255) = n := by
        have hmax : MAX_SLICE_COUNT = 15 := rfl
        omega
      have hne : frameData ≠ [] := by
        rintro rfl
        simp only [List.length_nil] at hnLen
        omega
      have hspec := @layout_spec crate enc frameData henc
      rw [hcase] at hspec
      obtain ⟨-, hcount, -⟩ := split_spec hne hn
      obtain ⟨batches, hbatches, hcoded⟩ :=
        @encodeSlices_coded crate _ hcrate henc.unit frameIndex timestamp isKeyframe n 0
          (split frameData n) enc.slices sequence henc.slices
          (by rw [hcount, henc.length]; exact hnMax) hspec.1.2.2
      simp only [encode, hcase, encodeFrameSliced, hmin]
      rw [if_neg (by omega), if_neg (by rw [henc.length]; omega)]
      generalize encodeSlices frameIndex timestamp isKeyframe n 0
        (split frameData n) enc.slices sequence = res at hbatches ⊢
      obtain ⟨answer, encoders, sequence'⟩ := res
      simp only at hbatches
      subst hbatches
      exact hcoded

end FrameFecEncoder

/--
**The layout never fails and is minimal.**  At any point of a session: in a bulk or
sliced frame every code word fits with its parity, every encoder of the session
encodes it, and the packets are these code words; the count of slices is the least
one from the configured count on for which every slice fits; and a frame is only
unprotected if no count would do.
-/
theorem fec_layout
    (hcrate : crate.Correct) {redundancy : F32} (hunit : UnitInterval redundancy)
    (sliceFecEnabled : Bool) (sliceCount : Nat) (calls : List FrameFecEncoder.Call)
    (frameData : List UInt8) (frameIndex timestamp : UInt32) (isKeyframe : Bool)
    (sequence : UInt16) :
    let enc := (FrameFecEncoder.new redundancy sliceFecEnabled sliceCount :
      FrameFecEncoder crate).after calls
    let r := enc.bulk.redundancy
    let layout := enc.layout frameData
    let first := firstCount frameData.length sliceFecEnabled sliceCount
    (layout ≠ .unprotected →
      (∀ word ∈ codeWords layout frameData,
        word.length + parityFor r word.length ≤ RS_MAX_TOTAL_SHARDS ∧
        ∀ fec ∈ enc.bulk :: enc.slices, ∃ shards, (fec.encode word).1 = .ok shards) ∧
      List.Forall₂ (Coded r)
        (enc.encode frameData frameIndex timestamp isKeyframe sequence).1
        (codeWords layout frameData)) ∧
    (∀ n, layout = .sliced n →
      (first ≤ n ∧ n ≤ MAX_SLICE_COUNT ∧ SlicesFit r frameData n) ∧
      ∀ k, first ≤ k → k < n → ¬ SlicesFit r frameData k) ∧
    (layout = .unprotected →
      ∀ k, 0 < k → k ≤ MAX_SLICE_COUNT → ¬ SlicesFit r frameData k) ∧
    (∀ d ≤ maxDataShards r, d + parityFor r d ≤ RS_MAX_TOTAL_SHARDS) ∧
    (∀ n, 0 < n → (∀ slice ∈ split frameData n, slice.length ≤ ceilDiv frameData.length n) ∧
      ∃ slice ∈ split frameData n, slice.length = ceilDiv frameData.length n) := by
  intro enc r layout first
  have henc : enc.Ok := (FrameFecEncoder.ok_new hunit sliceFecEnabled sliceCount).after calls
  obtain ⟨henabled, hcount⟩ : enc.sliceFecEnabled = sliceFecEnabled ∧
      enc.sliceCount = sliceCount :=
    FrameFecEncoder.after_settings (FrameFecEncoder.new redundancy sliceFecEnabled sliceCount)
      calls
  have hspec := @FrameFecEncoder.layout_spec crate enc frameData henc
  rw [henabled, hcount] at hspec
  refine ⟨?_, ?_, ?_, ?_, fun n hn => longest_slice frameData hn⟩
  · intro hprotected
    refine ⟨?_, FrameFecEncoder.encode_codeWords hcrate henc hprotected _ _ _ _⟩
    intro word hword
    obtain ⟨⟨data, hne, rfl⟩, hfits⟩ := FrameFecEncoder.codeWords_fit henc hword
    refine ⟨hfits, ?_⟩
    intro fec hfec
    have hok : fec.Ok r := by
      rcases List.mem_cons.mp hfec with rfl | hslice
      · exact ⟨henc.bulk, rfl⟩
      · exact henc.slices fec hslice
    obtain ⟨parity, -, hencode⟩ := encode_fits hcrate henc.unit hok hne hfits
    exact ⟨_, hencode⟩
  · intro n hn
    have h := hspec
    simp only [show enc.layout frameData = .sliced n from hn] at h
    exact h
  · intro hnone
    have h := hspec
    simp only [show enc.layout frameData = .unprotected from hnone] at h
    exact h
  · intro d hd
    rcases add_parityFor_le henc.unit hd with h | rfl
    · exact h
    · rw [parityFor_zero henc.unit]
      decide

/-- A frame that is too long for one code word and for two, of an encoder whose redundancy was
changed. -/
theorem fec_layout_sliced :
    let frameData : List UInt8 := List.replicate 500000 7
    sampleEncoder.layout frameData = .sliced 3 ∧
      ¬SlicesFit sampleEncoder.bulk.redundancy frameData 2 ∧
      List.Forall₂ (Coded sampleEncoder.bulk.redundancy)
        (sampleEncoder.encode frameData 7 90 true 65535).1 (codeWords (.sliced 3) frameData) := by
  intro frameData
  have hlength : frameData.length = 500000 := List.length_replicate
  have hlayout : sampleEncoder.layout frameData = .sliced 3 := by
    rw [FrameFecEncoder.layout, hlength]
    decide +kernel
  have hfirst : firstCount frameData.length false 4 = 1 := by
    rw [hlength]
    rfl
  have h := @fec_layout galois8 galois8_vandermonde.correct (f32 1 2) sample_bulk.1 false 4
    [.setRedundancy (f32 2 5)] frameData 7 90 true 65535
  have hprotected : sampleEncoder.layout frameData ≠ .unprotected := by
    rw [hlayout]
    exact nofun
  refine ⟨hlayout, (h.2.1 3 hlayout).2 2 ?_ (by decide), ?_⟩
  · rw [hfirst]
    decide
  · rw [← hlayout]
    exact (h.1 hprotected).2

end Engine
end FocusVision
