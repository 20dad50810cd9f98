import FocusVision.Engine.FecEndToEnd

/-!
# Sequence numbers of a session

A session has one `FrameFecEncoder` and one `RtpPacketizer`.  Every packet takes
the next sequence number when it is written, so the numbers of a slice that cannot
be encoded after another one would be lost with it.  That does not happen: the
layout leaves no such slice, and the other frames that are dropped take no number.
-/

namespace FocusVision
namespace Engine

open Bytes

/-- The sequence number of a packet, as `record_send_timestamps` reads it. -/
def rtpSequence (packet : Packet) : UInt16 :=
  UInt16.ofNat (ofLeBytes ((packet.drop 2).take 2).reverse)

/-- `n` sequence numbers from `s` on. -/
def consecutive (s : UInt16) (n : Nat) : List UInt16 :=
  (List.range n).map fun i => s + UInt16.ofNat i

theorem consecutive_add
    (s : UInt16) (m n : Nat) :
    consecutive s (m + n) = consecutive s m ++ consecutive (s + UInt16.ofNat m) n := by
  unfold consecutive
  rw [List.range_add, List.map_append, List.map_map]
  congr 1
  refine List.map_congr_left fun i _ => ?_
  rw [Function.comp_apply, UInt16.ofNat_add, UInt16.add_assoc]

theorem rtpSequence_makePacket
    (marker : Bool) (sequence : UInt16) (timestamp : UInt32) (h : FvpHeader)
    (shard : List UInt8) :
    rtpSequence (makePacket marker sequence timestamp h shard) = sequence := by
  have hn : sequence.toNat < 256 ^ 2 := sequence.toNat_lt
  have hbytes : ((makePacket marker sequence timestamp h shard).drop 2).take 2 =
      beBytes 2 sequence.toNat := by
    unfold makePacket writeRtpHeader
    simp only [List.append_assoc]
    exact List.take_left' (length_beBytes 2 _)
  unfold rtpSequence
  rw [hbytes, beBytes, List.reverse_reverse, ofLeBytes_leBytes hn, UInt16.ofNat_toNat]

/-! ### Every packet takes a number -/

/-- The packets take the numbers from `s` on, and leave `s'` as the next one. -/
def Numbered (s : UInt16) (packets : List Packet) (s' : UInt16) : Prop :=
  packets.map rtpSequence = consecutive s packets.length ∧
    s' = s + UInt16.ofNat packets.length

theorem Numbered.nil
    (s : UInt16) :
    Numbered s [] s := by
  constructor
  · rfl
  · simp

theorem Numbered.append
    {s s' s'' : UInt16} {packets rest : List Packet} (h : Numbered s packets s')
    (hrest : Numbered s' rest s'') :
    Numbered s (packets ++ rest) s'' := by
  obtain ⟨hmap, rfl⟩ := h
  obtain ⟨hmapRest, rfl⟩ := hrest
  constructor
  · rw [List.map_append, hmap, hmapRest, List.length_append, consecutive_add]
  · rw [List.length_append, UInt16.ofNat_add, UInt16.add_assoc]

theorem shardsToPackets_numbered
    (shards : List Shard) (dataCount : Nat) (frameIndex timestamp : UInt32)
    (flags sequence : UInt16) :
    let out := shardsToPackets shards dataCount frameIndex timestamp flags sequence
    Numbered sequence out.1 out.2 := by
  unfold shardsToPackets
  simp only
  split_ifs
  · exact Numbered.nil sequence
  · constructor
    · refine List.ext_getElem? fun i => ?_
      rw [List.getElem?_map, List.getElem?_mapIdx, List.length_mapIdx, consecutive,
        List.getElem?_map]
      by_cases hi : i < shards.length
      · rw [List.getElem?_eq_getElem hi, List.getElem?_range hi]
        simp only [Option.map_some, rtpSequence_makePacket]
      · rw [List.getElem?_eq_none (Nat.not_lt.mp hi),
          List.getElem?_eq_none (by rw [List.length_range]; exact Nat.not_lt.mp hi)]
        rfl
    · rw [List.length_mapIdx]

section Encoding

variable {crate : RsCrate}

/-- As long as every slice is encoded no number is lost. -/
theorem encodeSlices_numbered
    (frameIndex timestamp : UInt32) (isKeyframe : Bool) (sliceCount : Nat)
    {sliceIdx : Nat} {slices : List (List UInt8)} {encoders encoders' : List (FecEncoder crate)}
    {sequence sequence' : UInt16} {batches : List (List Packet)}
    (h : encodeSlices frameIndex timestamp isKeyframe sliceCount sliceIdx slices encoders
      sequence = (some batches, encoders', sequence')) :
    Numbered sequence batches.flatten sequence' := by
  induction slices generalizing sliceIdx encoders encoders' sequence sequence' batches with
  | nil =>
      simp only [encodeSlices, Prod.mk.injEq, Option.some.injEq] at h
      obtain ⟨rfl, -, rfl⟩ := h
      exact Numbered.nil sequence
  | cons slice slices ih =>
      cases encoders with
      | nil =>
          simp only [encodeSlices, Prod.mk.injEq, Option.some.injEq] at h
          obtain ⟨rfl, -, rfl⟩ := h
          exact Numbered.nil sequence
      | cons enc encoders =>
          simp only [encodeSlices] at h
          generalize enc.encode
            (toDataShards (leBytes SLICE_LEN_PREFIX slice.length ++ slice)) = res at h
          obtain ⟨answer, enc'⟩ := res
          cases answer with
          | error e => exact absurd h (by simp)
          | ok shards =>
              have hfirst := shardsToPackets_numbered shards
                (toDataShards (leBytes SLICE_LEN_PREFIX slice.length ++ slice)).length
                frameIndex timestamp
                (FvpFlags.encode isKeyframe (UInt8.ofNat sliceIdx) (UInt8.ofNat sliceCount) 0)
                sequence
              simp only at h hfirst
              generalize shardsToPackets shards
                (toDataShards (leBytes SLICE_LEN_PREFIX slice.length ++ slice)).length
                frameIndex timestamp
                (FvpFlags.encode isKeyframe (UInt8.ofNat sliceIdx) (UInt8.ofNat sliceCount) 0)
                sequence = out at h hfirst
              obtain ⟨packets, next⟩ := out
              generalize hrest : encodeSlices frameIndex timestamp isKeyframe sliceCount
                (sliceIdx + 1) slices encoders next = rest at h
              obtain ⟨answer, others, last⟩ := rest
              cases answer with
              | none => exact absurd h (by simp)
              | some later =>
                  simp only [Option.map_some, Prod.mk.injEq, Option.some.injEq] at h
                  obtain ⟨rfl, -, rfl⟩ := h
                  rw [List.flatten_cons]
                  exact hfirst.append (ih hrest)

theorem flatten_single
    (packets : List Packet) :
    (if packets.isEmpty then [] else [packets]).flatten = packets := by
  cases packets <;> simp

theorem encodeFrameToPacketsWithFec_numbered
    (frameData : List UInt8) (frameIndex timestamp : UInt32) (isKeyframe : Bool)
    (fec : FecEncoder crate) (sequence : UInt16) :
    let out := encodeFrameToPacketsWithFec frameData frameIndex timestamp isKeyframe fec sequence
    Numbered sequence out.1 out.2.2 := by
  unfold encodeFrameToPacketsWithFec
  simp only
  split_ifs
  · exact Numbered.nil sequence
  · generalize fec.encode (toDataShards frameData) = res
    obtain ⟨answer, fec'⟩ := res
    cases answer with
    | error e => exact shardsToPackets_numbered _ _ _ _ _ _
    | ok shards => exact shardsToPackets_numbered _ _ _ _ _ _

/-- The packets of a frame take consecutive numbers, and a dropped frame none. -/
theorem FrameFecEncoder.encode_numbered
    (hcrate : crate.Correct) {enc : FrameFecEncoder crate} (henc : enc.Ok)
    (frameData : List UInt8) (frameIndex timestamp : UInt32) (isKeyframe : Bool)
    (sequence : UInt16) :
    let out := enc.encode frameData frameIndex timestamp isKeyframe sequence
    Numbered sequence out.1.flatten out.2.2 := by
  unfold FrameFecEncoder.encode
  cases hlayout : enc.layout frameData with
  | unprotected =>
      simp only [flatten_single]
      exact shardsToPackets_numbered _ _ _ _ _ _
  | bulk =>
      simp only [flatten_single]
      exact encodeFrameToPacketsWithFec_numbered _ _ _ _ _ _
  | sliced n =>
      obtain ⟨hn, hnMax, hnLen, hshards⟩ := chooseFecLayout_sliced hlayout
      have hmin : min (min n MAX_SLICE_COUNT) (min frameData.length 255) = n := by
        have hmax : MAX_SLICE_COUNT = 15 := rfl
        omega
      have hne : frameData ≠ [] := by
        rintro rfl
        simp only [List.length_nil] at hnLen
        omega
      obtain ⟨-, hcount, hbound⟩ := split_spec hne hn
      -- no slice can fail, so no numbered batch is thrown away
      obtain ⟨batches, -, hbatches, -⟩ :=
        @encodeSlices_spec crate hcrate _ henc.unit frameIndex timestamp isKeyframe n 0
          (split frameData n) enc.slices sequence henc.slices
          (by rw [hcount, henc.length]; exact hnMax)
          (fun slice hslice =>
            Nat.le_trans (sliceDataShards_mono (hbound slice hslice)) hshards)
      simp only [encodeFrameSliced, hmin]
      rw [if_neg (by omega), if_neg (by rw [henc.length]; omega)]
      generalize hres : encodeSlices frameIndex timestamp isKeyframe n 0
        (split frameData n) enc.slices sequence = res at hbatches ⊢
      obtain ⟨answer, encoders, sequence'⟩ := res
      simp only at hbatches
      subst hbatches
      exact encodeSlices_numbered frameIndex timestamp isKeyframe n hres

end Encoding

/-! ### Sessions -/

/-- The encoder of a session and the packetizer's next sequence number. -/
structure VideoSession (crate : RsCrate) where
  fecEncoder : FrameFecEncoder crate
  sequence : UInt16

namespace VideoSession

variable {crate : RsCrate}

/-- What a session does with its encoder and packetizer. -/
inductive Call where
  | setRedundancy (redundancy : F32)
  | encode (frameData : List UInt8) (frameIndex timestamp90khz : UInt32) (isKeyframe : Bool)

def step (s : VideoSession crate) : Call → List (List Packet) × VideoSession crate
  | .setRedundancy redundancy =>
      ([], { s with fecEncoder := s.fecEncoder.setRedundancy redundancy })
  | .encode frameData frameIndex timestamp isKeyframe =>
      let (batches, fecEncoder, sequence) :=
        s.fecEncoder.encode frameData frameIndex timestamp isKeyframe s.sequence
      (batches, { fecEncoder, sequence })

/-- A call keeps the encoder in good order and takes consecutive numbers. -/
theorem step_numbered
    (hcrate : crate.Correct) {s : VideoSession crate} (h : s.fecEncoder.Ok) (call : Call) :
    (s.step call).2.fecEncoder.Ok ∧
      Numbered s.sequence (s.step call).1.flatten (s.step call).2.sequence := by
  cases call with
  | setRedundancy redundancy => exact ⟨h.setRedundancy redundancy, Numbered.nil _⟩
  | encode frameData frameIndex timestamp isKeyframe =>
      exact ⟨h.encode frameData frameIndex timestamp isKeyframe s.sequence,
        FrameFecEncoder.encode_numbered hcrate h frameData frameIndex timestamp isKeyframe
          s.sequence⟩

theorem run_numbered
    (hcrate : crate.Correct) {s : VideoSession crate} (h : s.fecEncoder.Ok)
    (calls : List Call) :
    Numbered s.sequence (Run.outputs step s calls).flatten.flatten
      (Run.final step s calls).sequence := by
  induction calls generalizing s with
  | nil => exact Numbered.nil s.sequence
  | cons call calls ih =>
      obtain ⟨hok, hfirst⟩ := step_numbered hcrate h call
      rw [Run.outputs_cons, List.flatten_cons, List.flatten_append]
      exact hfirst.append (ih hok)

/--
**No holes of the sender's own making.**  In every session the packets, in the order
in which they are returned, carry consecutive sequence numbers, whatever frames are
encoded or dropped and however the redundancy changes.
-/
theorem sequence_consecutive
    (hcrate : crate.Correct) {redundancy : F32} (hunit : UnitInterval redundancy)
    (sliceFecEnabled : Bool) (sliceCount : Nat) (sequence : UInt16) (calls : List Call) :
    let s : VideoSession crate :=
      ⟨FrameFecEncoder.new redundancy sliceFecEnabled sliceCount, sequence⟩
    let packets := (Run.outputs step s calls).flatten.flatten
    packets.map rtpSequence = consecutive sequence packets.length :=
  (run_numbered hcrate (FrameFecEncoder.ok_new hunit sliceFecEnabled sliceCount) calls).1

/-- Two frames with an empty one and another redundancy between them. -/
def twoFrames : List Call :=
  [.encode [1, 2, 3] 7 90 true, .encode [] 8 180 false, .setRedundancy (f32 2 5),
    .encode [4] 9 270 false]

theorem sequence_consecutive_twoFrames :
    let s : VideoSession galois8 := ⟨FrameFecEncoder.new (f32 1 2) false 4, 65534⟩
    let packets := (Run.outputs step s twoFrames).flatten.flatten
    packets.map rtpSequence = consecutive 65534 packets.length :=
  sequence_consecutive galois8_vandermonde.correct sample_bulk.1 false 4 65534 twoFrames

end VideoSession
end Engine
end FocusVision
