import FocusVision.Engine.Rtp
import FocusVision.Engine.Fec

/-!
# Encoding a frame into packets

`SliceSplitter` of the engine's `transport/slice.rs`, and the sending half of
`pipeline.rs`: a frame is laid out as one code word, as slices with a length
prefix each, or without parity, and every shard becomes a packet.  Of the
packetizer only the sequence number is modelled; the log messages and the counter
of unprotected frames are left out.

The lemmas on `split` and `chooseFecLayout` say that the slices are the frame and
that each of them fits in a code word.
-/

namespace FocusVision
namespace Engine

open Bytes

/-- `SliceSplitter::split` from slice `i` on, which starts at `offset`. -/
def splitLoop (data : List UInt8) (baseSize remainder : Nat) :
    Nat → Nat → Nat → List (List UInt8)
  | 0, _, _ => []
  | todo + 1, i, offset =>
      let size := if i < remainder then baseSize + 1 else baseSize
      (if offset + size ≤ data.length then (data.drop offset).take size
        else if offset < data.length then data.drop offset
        else []) ::
        splitLoop data baseSize remainder todo (i + 1) (offset + size)

/-- `SliceSplitter::split`. -/
def split (data : List UInt8) (count : Nat) : List (List UInt8) :=
  if count = 0 ∨ data = [] then [data]
  else splitLoop data (data.length / count) (data.length % count) count 0 0

/-- `to_data_shards`. -/
def toDataShards (data : List UInt8) : List Shard :=
  paddedBlocks FEC_SHARD_SIZE (ceilDiv data.length FEC_SHARD_SIZE) data

/-- `shards_to_packets`, with the packetizer's next sequence number. -/
def shardsToPackets (allShards : List Shard) (dataCount : Nat) (frameIndex : UInt32)
    (timestamp90khz : UInt32) (flags sequence : UInt16) : List Packet × UInt16 :=
  let totalShards := allShards.length
  if totalShards > MAX_FRAME_SHARDS then ([], sequence)
  else
    (allShards.mapIdx fun i shard =>
      makePacket (i == totalShards - 1) (sequence + UInt16.ofNat i) timestamp90khz
        { frameIndex
          shardIndex := UInt16.ofNat i
          shardCount := UInt16.ofNat totalShards
          flags
          dataShardCount := UInt16.ofNat dataCount }
        shard,
      sequence + UInt16.ofNat totalShards)

/-- `encode_frame_without_fec`. -/
def encodeFrameWithoutFec (frameData : List UInt8) (frameIndex timestamp90khz : UInt32)
    (isKeyframe : Bool) (sequence : UInt16) : List Packet × UInt16 :=
  let shards := toDataShards frameData
  shardsToPackets shards shards.length frameIndex timestamp90khz
    (FvpFlags.encodeSimple isKeyframe) sequence

def MIN_SLICE_SIZE : Nat := 16384
def SLICE_LEN_PREFIX : Nat := 4
def MAX_SLICE_COUNT : Nat := FvpFlags.MAX_SLICE_COUNT.toNat

/-- `FecLayout`. -/
inductive FecLayout where
  | bulk
  | sliced (count : Nat)
  | unprotected
deriving DecidableEq

/-- `slice_data_shards`. -/
def sliceDataShards (sliceLen : Nat) : Nat :=
  ceilDiv (sliceLen + SLICE_LEN_PREFIX) FEC_SHARD_SIZE

/-- `choose_fec_layout`. -/
def chooseFecLayout (frameLen : Nat) (sliceFecEnabled : Bool)
    (sliceCount maxDataShards : Nat) : FecLayout :=
  let slice := sliceFecEnabled && decide (frameLen ≥ MIN_SLICE_SIZE)
  if !slice && decide (ceilDiv frameLen FEC_SHARD_SIZE ≤ maxDataShards) then .bulk
  else
    let start := if slice then max 1 (min sliceCount MAX_SLICE_COUNT) else 1
    match (List.range' start (MAX_SLICE_COUNT + 1 - start)).find? fun n =>
      decide (sliceDataShards (ceilDiv frameLen n) ≤ maxDataShards) with
    | some n => .sliced n
    | none => .unprotected

section Encoding

variable {crate : RsCrate}

/-- `encode_frame_to_packets_with_fec`. -/
def encodeFrameToPacketsWithFec (frameData : List UInt8)
    (frameIndex timestamp90khz : UInt32) (isKeyframe : Bool) (fec : FecEncoder crate)
    (sequence : UInt16) : List Packet × FecEncoder crate × UInt16 :=
  let dataShards := toDataShards frameData
  if dataShards.isEmpty then ([], fec, sequence)
  else
    match fec.encode dataShards with
    | (.ok allShards, fec) =>
        let (packets, sequence) := shardsToPackets allShards dataShards.length frameIndex
          timestamp90khz (FvpFlags.encodeSimple isKeyframe) sequence
        (packets, fec, sequence)
    | (.error _, fec) =>
        let (packets, sequence) :=
          encodeFrameWithoutFec frameData frameIndex timestamp90khz isKeyframe sequence
        (packets, fec, sequence)

/--
The loop of `encode_frame_sliced` from slice `sliceIdx` on; `none` when a slice
could not be encoded.
-/
def encodeSlices (frameIndex timestamp90khz : UInt32) (isKeyframe : Bool)
    (sliceCount : Nat) :
    Nat → List (List UInt8) → List (FecEncoder crate) → UInt16 →
      Option (List (List Packet)) × List (FecEncoder crate) × UInt16
  | sliceIdx, sliceData :: slices, fec :: encoders, sequence =>
      let dataShards := toDataShards (leBytes SLICE_LEN_PREFIX sliceData.length ++ sliceData)
      match fec.encode dataShards with
      | (.error _, fec) => (none, fec :: encoders, sequence)
      | (.ok allShards, fec) =>
          let flags := FvpFlags.encode isKeyframe (UInt8.ofNat sliceIdx)
            (UInt8.ofNat sliceCount) 0
          let (packets, sequence) := shardsToPackets allShards dataShards.length
            frameIndex timestamp90khz flags sequence
          let (batches, encoders, sequence) := encodeSlices frameIndex timestamp90khz
            isKeyframe sliceCount (sliceIdx + 1) slices encoders sequence
          (batches.map (packets :: ·), fec :: encoders, sequence)
  | _, _, encoders, sequence => (some [], encoders, sequence)

/-- `encode_frame_sliced`. -/
def encodeFrameSliced (frameData : List UInt8) (frameIndex timestamp90khz : UInt32)
    (isKeyframe : Bool) (sliceCount : Nat) (fecEncoders : List (FecEncoder crate))
    (sequence : UInt16) :
    List (List Packet) × List (FecEncoder crate) × UInt16 :=
  let sliceCount := min (min sliceCount MAX_SLICE_COUNT) (min frameData.length 255)
  if sliceCount = 0 then ([], fecEncoders, sequence)
  else if fecEncoders.length < sliceCount then ([], fecEncoders, sequence)
  else
    match encodeSlices frameIndex timestamp90khz isKeyframe sliceCount 0
      (split frameData sliceCount) fecEncoders sequence with
    | (some batches, encoders, sequence) => (batches, encoders, sequence)
    | (none, encoders, sequence) => ([], encoders, sequence)

end Encoding

structure FrameFecEncoder (crate : RsCrate) where
  bulk : FecEncoder crate
  slices : List (FecEncoder crate)
  sliceFecEnabled : Bool
  sliceCount : Nat

namespace FrameFecEncoder

variable {crate : RsCrate}

def new (redundancy : F32) (sliceFecEnabled : Bool) (sliceCount : Nat) :
    FrameFecEncoder crate :=
  { bulk := FecEncoder.new redundancy
    slices := List.replicate MAX_SLICE_COUNT (FecEncoder.new redundancy)
    sliceFecEnabled
    sliceCount }

/-- `set_redundancy`. -/
def setRedundancy (enc : FrameFecEncoder crate) (redundancy : F32) :
    FrameFecEncoder crate :=
  { enc with
    bulk := enc.bulk.setRedundancy redundancy
    slices := enc.slices.map fun slice => slice.setRedundancy redundancy }

/-- The layout that `encode` picks. -/
def layout (enc : FrameFecEncoder crate) (frameData : List UInt8) : FecLayout :=
  chooseFecLayout frameData.length enc.sliceFecEnabled enc.sliceCount
    (maxDataShards enc.bulk.redundancy)

/-- `encode`: the packets in batches, one batch a code word. -/
def encode (enc : FrameFecEncoder crate) (frameData : List UInt8)
    (frameIndex timestamp90khz : UInt32) (isKeyframe : Bool) (sequence : UInt16) :
    List (List Packet) × FrameFecEncoder crate × UInt16 :=
  match enc.layout frameData with
  | .sliced n =>
      let (batches, slices, sequence) := encodeFrameSliced frameData frameIndex
        timestamp90khz isKeyframe n enc.slices sequence
      (batches, { enc with slices }, sequence)
  | .bulk =>
      let (packets, bulk, sequence) := encodeFrameToPacketsWithFec frameData frameIndex
        timestamp90khz isKeyframe enc.bulk sequence
      (if packets.isEmpty then [] else [packets], { enc with bulk }, sequence)
  | .unprotected =>
      let (packets, sequence) :=
        encodeFrameWithoutFec frameData frameIndex timestamp90khz isKeyframe sequence
      (if packets.isEmpty then [] else [packets], enc, sequence)

end FrameFecEncoder

/-! ### Slices -/

theorem splitLoop_spec
    {data : List UInt8} {baseSize remainder todo i offset : Nat}
    (hrem : remainder ≤ i + todo)
    (hlen : offset + todo * baseSize + (remainder - i) = data.length) :
    (splitLoop data baseSize remainder todo i offset).flatten = data.drop offset ∧
      (splitLoop data baseSize remainder todo i offset).length = todo ∧
      ∀ slice ∈ splitLoop data baseSize remainder todo i offset,
        slice.length ≤ if remainder = 0 then baseSize else baseSize + 1 := by
  induction todo generalizing i offset with
  | zero =>
      have hend : data.length ≤ offset := by omega
      simp [splitLoop, List.drop_of_length_le hend]
  | succ todo ih =>
      rw [Nat.add_mul, Nat.one_mul] at hlen
      have hsize : offset + (if i < remainder then baseSize + 1 else baseSize) ≤
          data.length := by
        split_ifs <;> omega
      obtain ⟨hflat, hcount, hbound⟩ :=
        @ih (i + 1) (offset + if i < remainder then baseSize + 1 else baseSize)
          (by omega) (by split_ifs <;> omega)
      simp only [splitLoop, if_pos hsize]
      refine ⟨?_, ?_, ?_⟩
      · rw [List.flatten_cons, hflat, ← List.drop_drop, List.take_append_drop]
      · rw [List.length_cons, hcount]
      · intro slice hslice
        rcases List.mem_cons.mp hslice with rfl | hslice
        · refine Nat.le_trans (List.length_take_le _ _) ?_
          split_ifs <;> omega
        · exact hbound slice hslice

/-- The slices are the frame, and none is longer than `ceilDiv`. -/
theorem split_spec
    {data : List UInt8} {count : Nat} (hdata : data ≠ []) (hcount : 0 < count) :
    (split data count).flatten = data ∧ (split data count).length = count ∧
      ∀ slice ∈ split data count, slice.length ≤ ceilDiv data.length count := by
  have hdiv := Nat.div_add_mod data.length count
  have hmod := Nat.mod_lt data.length hcount
  obtain ⟨hflat, hlen, hbound⟩ :=
    @splitLoop_spec data (data.length / count) (data.length % count) count 0 0
      (by omega) (by omega)
  unfold split
  rw [if_neg (by simp [hdata, Nat.ne_of_gt hcount])]
  refine ⟨hflat, hlen, ?_⟩
  intro slice hslice
  refine Nat.le_trans (hbound slice hslice) ?_
  have hceil := le_ceilDiv_mul data.length hcount
  split_ifs with h0
  · refine Nat.le_of_mul_le_mul_left ?_ hcount
    rw [Nat.mul_comm count (ceilDiv data.length count)]
    omega
  · refine Nat.lt_of_mul_lt_mul_left (a := count) ?_
    rw [Nat.mul_comm count (ceilDiv data.length count)]
    omega

theorem sliceDataShards_mono
    {a b : Nat} (h : a ≤ b) :
    sliceDataShards a ≤ sliceDataShards b :=
  Nat.div_le_div_right (by omega)

/-! ### The layout -/

theorem chooseFecLayout_bulk
    {frameLen sliceCount maxShards : Nat} {enabled : Bool}
    (h : chooseFecLayout frameLen enabled sliceCount maxShards = .bulk) :
    ceilDiv frameLen FEC_SHARD_SIZE ≤ maxShards := by
  unfold chooseFecLayout at h
  simp only at h
  split at h
  · next hbulk =>
      simp only [Bool.and_eq_true, decide_eq_true_eq] at hbulk
      exact hbulk.2
  · split at h <;> exact absurd h (by simp)

/-- Every slice fits in a code word, and no slice is empty. -/
theorem chooseFecLayout_sliced
    {frameLen sliceCount maxShards n : Nat} {enabled : Bool}
    (h : chooseFecLayout frameLen enabled sliceCount maxShards = .sliced n) :
    0 < n ∧ n ≤ MAX_SLICE_COUNT ∧ n ≤ frameLen ∧
      sliceDataShards (ceilDiv frameLen n) ≤ maxShards := by
  unfold chooseFecLayout at h
  simp only at h
  split at h
  · exact absurd h (by simp)
  · next hbulk =>
      split at h
      · next m hfind =>
          cases h
          have hfits := List.find?_some hfind
          have hmem := List.mem_of_find?_eq_some hfind
          rw [List.mem_range'_1] at hmem
          simp only [decide_eq_true_eq] at hfits
          have hstart : 1 ≤ if (enabled && decide (frameLen ≥ MIN_SLICE_SIZE)) = true then
              max 1 (min sliceCount MAX_SLICE_COUNT) else 1 := by
            split_ifs
            · exact Nat.le_max_left _ _
            · exact Nat.le_refl 1
          have hshards : 0 < sliceDataShards (ceilDiv frameLen n) :=
            ceilDiv_pos (by decide) (by simp [SLICE_LEN_PREFIX])
          have hle : n ≤ MAX_SLICE_COUNT := by omega
          refine ⟨by omega, hle, ?_, hfits⟩
          -- a sliced frame is at least 16 KiB, or too long for one code word
          have hlong : 15 ≤ frameLen := by
            by_contra hshort
            apply hbulk
            have hceil : ceilDiv frameLen FEC_SHARD_SIZE ≤ 1 := by
              rw [ceilDiv_le_iff (by decide)]
              simp only [FEC_SHARD_SIZE]
              omega
            have hsmall : ¬ frameLen ≥ MIN_SLICE_SIZE := by
              simp only [MIN_SLICE_SIZE]
              omega
            simp only [hsmall, decide_false, Bool.and_false, Bool.not_false,
              Bool.true_and, decide_eq_true_eq]
            omega
          exact Nat.le_trans hle hlong
      · exact absurd h (by simp)

end Engine
end FocusVision
