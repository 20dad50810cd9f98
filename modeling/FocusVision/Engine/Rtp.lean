import FocusVision.Lib.Bytes

/-!
# Video packets

The RTP and FVP headers of a video packet, from the engine's `transport/rtp.rs`
and the `fvp_flags` of the protocol crate.  The packetizer's buffer pool is left
out; of its state only the sequence number reaches a packet.

A packet written by the engine is read back field by field.
-/

namespace FocusVision
namespace Engine

open Bytes

def FEC_SHARD_SIZE : Nat := 1200
def RTP_HEADER_LEN : Nat := 12
def FVP_HEADER_LEN : Nat := 12
def PACKET_HEADER_LEN : Nat := RTP_HEADER_LEN + FVP_HEADER_LEN
def MAX_FRAME_SHARDS : Nat := 4096
def RTP_PT_H265 : UInt8 := 97

namespace FvpFlags

def KEYFRAME : UInt16 := 1
def SLICE_INDEX_SHIFT : UInt16 := 1
def SLICE_INDEX_MASK : UInt16 := (0b1111 : UInt16) <<< (1 : UInt16)
def SLICE_COUNT_SHIFT : UInt16 := 5
def SLICE_COUNT_MASK : UInt16 := (0b1111 : UInt16) <<< (5 : UInt16)
def STREAM_ID_SHIFT : UInt16 := 9
def MAX_SLICE_COUNT : UInt8 := 15

/-- `encode_simple`. -/
def encodeSimple (isKeyframe : Bool) : UInt16 :=
  if isKeyframe then KEYFRAME else 0

/-- `encode`. -/
def encode (isKeyframe : Bool) (sliceIndex sliceCount streamId : UInt8) : UInt16 :=
  (if isKeyframe then KEYFRAME else 0) |||
    ((sliceIndex.toUInt16 &&& 0xF) <<< SLICE_INDEX_SHIFT) |||
    ((sliceCount.toUInt16 &&& 0xF) <<< SLICE_COUNT_SHIFT) |||
    ((streamId.toUInt16 &&& 0x3) <<< STREAM_ID_SHIFT)

def isKeyframe (flags : UInt16) : Bool :=
  flags &&& KEYFRAME != 0

def sliceIndex (flags : UInt16) : UInt8 :=
  ((flags &&& SLICE_INDEX_MASK) >>> SLICE_INDEX_SHIFT).toUInt8

def sliceCount (flags : UInt16) : UInt8 :=
  ((flags &&& SLICE_COUNT_MASK) >>> SLICE_COUNT_SHIFT).toUInt8

end FvpFlags

/-- `FvpHeader`. -/
structure FvpHeader where
  frameIndex : UInt32
  shardIndex : UInt16
  shardCount : UInt16
  flags : UInt16
  dataShardCount : UInt16
deriving DecidableEq

namespace FvpHeader

def isKeyframe (h : FvpHeader) : Bool :=
  h.flags &&& 1 != 0

/-- `is_valid`. -/
def isValid (h : FvpHeader) : Bool :=
  let total := h.shardCount.toNat
  decide (total > 0 ∧ total ≤ MAX_FRAME_SHARDS ∧ h.shardIndex < h.shardCount ∧
    h.dataShardCount > 0 ∧ h.dataShardCount ≤ h.shardCount)

end FvpHeader

/-- The bytes of an `RtpPacket`. -/
abbrev Packet := List UInt8

/-- `write_rtp_header`. -/
def writeRtpHeader (payloadType : UInt8) (marker : Bool) (sequence : UInt16)
    (timestamp ssrc : UInt32) : List UInt8 :=
  [0x80, if marker then 0x80 ||| (payloadType &&& 0x7F) else payloadType &&& 0x7F] ++
    beBytes 2 sequence.toNat ++ beBytes 4 timestamp.toNat ++ beBytes 4 ssrc.toNat

/-- `write_fvp_header`. -/
def writeFvpHeader (h : FvpHeader) : List UInt8 :=
  leBytes 4 h.frameIndex.toNat ++ leBytes 2 h.shardIndex.toNat ++
    leBytes 2 h.shardCount.toNat ++ leBytes 2 h.flags.toNat ++
    leBytes 2 h.dataShardCount.toNat

/-- `u16::from_le_bytes` of the two bytes at `offset`. -/
def readU16Le (bytes : List UInt8) (offset : Nat) : UInt16 :=
  UInt16.ofNat (ofLeBytes ((bytes.drop offset).take 2))

/-- `u32::from_le_bytes` of the four bytes at `offset`. -/
def readU32Le (bytes : List UInt8) (offset : Nat) : UInt32 :=
  UInt32.ofNat (ofLeBytes ((bytes.drop offset).take 4))

/-- `read_fvp_header`. -/
def readFvpHeader (packet : Packet) : Option FvpHeader :=
  if packet.length < PACKET_HEADER_LEN then none
  else
    let f := packet.drop RTP_HEADER_LEN
    some
      { frameIndex := readU32Le f 0
        shardIndex := readU16Le f 4
        shardCount := readU16Le f 6
        flags := readU16Le f 8
        dataShardCount := readU16Le f 10 }

/-- The bytes behind both headers. -/
def payload (packet : Packet) : List UInt8 :=
  packet.drop PACKET_HEADER_LEN

/-- A packet of `shards_to_packets`. -/
def makePacket (marker : Bool) (sequence : UInt16) (timestamp : UInt32)
    (h : FvpHeader) (shard : List UInt8) : Packet :=
  writeRtpHeader RTP_PT_H265 marker sequence timestamp 0x42 ++ writeFvpHeader h ++ shard

namespace FvpFlags

/-- The flags carry the slice fields without loss. -/
theorem encode_fields :
    ∀ (key : Bool) (i c : Fin 16),
      isKeyframe (encode key (UInt8.ofNat i) (UInt8.ofNat c) 0) = key ∧
      sliceIndex (encode key (UInt8.ofNat i) (UInt8.ofNat c) 0) = UInt8.ofNat i ∧
      sliceCount (encode key (UInt8.ofNat i) (UInt8.ofNat c) 0) = UInt8.ofNat c := by
  decide +kernel

theorem encodeSimple_fields
    (key : Bool) :
    isKeyframe (encodeSimple key) = key ∧ sliceCount (encodeSimple key) = 0 := by
  cases key <;> decide

end FvpFlags

@[simp] theorem length_writeRtpHeader
    (payloadType : UInt8) (marker : Bool) (sequence : UInt16) (timestamp ssrc : UInt32) :
    (writeRtpHeader payloadType marker sequence timestamp ssrc).length =
      RTP_HEADER_LEN := by
  simp [writeRtpHeader, RTP_HEADER_LEN]

@[simp] theorem length_writeFvpHeader
    (h : FvpHeader) :
    (writeFvpHeader h).length = FVP_HEADER_LEN := by
  simp [writeFvpHeader, FVP_HEADER_LEN]

theorem payload_append
    {rtp : List UInt8} (hrtp : rtp.length = RTP_HEADER_LEN) (h : FvpHeader)
    (shard : List UInt8) :
    payload (rtp ++ writeFvpHeader h ++ shard) = shard := by
  refine List.drop_left' ?_
  rw [List.length_append, hrtp, length_writeFvpHeader]
  rfl

@[simp] theorem payload_makePacket
    (marker : Bool) (sequence : UInt16) (timestamp : UInt32) (h : FvpHeader)
    (shard : List UInt8) :
    payload (makePacket marker sequence timestamp h shard) = shard :=
  payload_append (length_writeRtpHeader _ _ _ _ _) h shard

theorem readU16Le_append
    {pre post : List UInt8} (n : UInt16) {offset : Nat} (h : pre.length = offset) :
    readU16Le (pre ++ (leBytes 2 n.toNat ++ post)) offset = n := by
  have hn : n.toNat < 256 ^ 2 := n.toNat_lt
  unfold readU16Le
  rw [List.drop_left' h, List.take_left' (length_leBytes 2 _), ofLeBytes_leBytes hn,
    UInt16.ofNat_toNat]

theorem readU32Le_append
    {pre post : List UInt8} (n : UInt32) {offset : Nat} (h : pre.length = offset) :
    readU32Le (pre ++ (leBytes 4 n.toNat ++ post)) offset = n := by
  have hn : n.toNat < 256 ^ 4 := n.toNat_lt
  unfold readU32Le
  rw [List.drop_left' h, List.take_left' (length_leBytes 4 _), ofLeBytes_leBytes hn,
    UInt32.ofNat_toNat]

/-- A written packet is read back. -/
theorem readFvpHeader_append
    {rtp : List UInt8} (hrtp : rtp.length = RTP_HEADER_LEN) (h : FvpHeader)
    (shard : List UInt8) :
    readFvpHeader (rtp ++ writeFvpHeader h ++ shard) = some h := by
  have hlen : ¬(rtp ++ writeFvpHeader h ++ shard).length < PACKET_HEADER_LEN := by
    simp only [List.length_append, hrtp, length_writeFvpHeader, PACKET_HEADER_LEN]
    omega
  have hdrop : (rtp ++ writeFvpHeader h ++ shard).drop RTP_HEADER_LEN =
      writeFvpHeader h ++ shard := by
    rw [List.append_assoc]
    exact List.drop_left' hrtp
  unfold readFvpHeader
  rw [if_neg hlen, hdrop]
  obtain ⟨frameIndex, shardIndex, shardCount, flags, dataShardCount⟩ := h
  simp only [writeFvpHeader, Option.some.injEq, FvpHeader.mk.injEq]
  refine ⟨?_, ?_, ?_, ?_, ?_⟩
  · simpa using @readU32Le_append [] (leBytes 2 shardIndex.toNat ++
      (leBytes 2 shardCount.toNat ++ (leBytes 2 flags.toNat ++
        (leBytes 2 dataShardCount.toNat ++ shard)))) frameIndex 0 rfl
  · simpa using @readU16Le_append (leBytes 4 frameIndex.toNat)
      (leBytes 2 shardCount.toNat ++ (leBytes 2 flags.toNat ++
        (leBytes 2 dataShardCount.toNat ++ shard))) shardIndex 4 (by simp)
  · simpa using @readU16Le_append (leBytes 4 frameIndex.toNat ++
      leBytes 2 shardIndex.toNat) (leBytes 2 flags.toNat ++
        (leBytes 2 dataShardCount.toNat ++ shard)) shardCount 6 (by simp)
  · simpa using @readU16Le_append (leBytes 4 frameIndex.toNat ++
      (leBytes 2 shardIndex.toNat ++ leBytes 2 shardCount.toNat))
      (leBytes 2 dataShardCount.toNat ++ shard) flags 8 (by simp)
  · simpa using @readU16Le_append (leBytes 4 frameIndex.toNat ++
      (leBytes 2 shardIndex.toNat ++ (leBytes 2 shardCount.toNat ++
        leBytes 2 flags.toNat))) shard dataShardCount 10 (by simp)

theorem readFvpHeader_makePacket
    (marker : Bool) (sequence : UInt16) (timestamp : UInt32) (h : FvpHeader)
    (shard : List UInt8) :
    readFvpHeader (makePacket marker sequence timestamp h shard) = some h :=
  readFvpHeader_append (length_writeRtpHeader _ _ _ _ _) h shard

end Engine
end FocusVision
