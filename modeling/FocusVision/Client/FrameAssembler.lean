import FocusVision.Client.FecDecoder
import FocusVision.Lib.Bytes
import FocusVision.Lib.Run

/-!
# The frame assembler

`FrameAssembler` of the client's `frame_assembler.cpp`, the packet header of
`client_protocol.h` and the flags of `fec_decoder.h`.  Of the statistics only
the two packet counters are modelled, which the assembler writes.

Every method takes the assembler and the output it appends to; times are
nanoseconds of the steady clock.  The three counts of frames have 64 bits in the
source, more than a session has frames; here they are not bounded.
-/

namespace FocusVision
namespace Client

open Bytes

def RTP_HEADER_LEN : Nat := 12
def FVP_HEADER_LEN : Nat := 12
def PACKET_HEADER_LEN : Nat := RTP_HEADER_LEN + FVP_HEADER_LEN
def MAX_FRAME_SHARDS : UInt16 := 4096

/-- The byte `p[i]`. -/
def byteAt (p : List UInt8) (i : Nat) : Nat :=
  (p.getD i 0).toNat

/-- `readU16Le`, at an offset. -/
def readU16Le (p : List UInt8) (offset : Nat) : UInt16 :=
  UInt16.ofNat (byteAt p offset ||| byteAt p (offset + 1) <<< 8)

/-- `readU32Le`, at an offset. -/
def readU32Le (p : List UInt8) (offset : Nat) : UInt32 :=
  UInt32.ofNat (byteAt p offset ||| byteAt p (offset + 1) <<< 8 |||
    byteAt p (offset + 2) <<< 16 ||| byteAt p (offset + 3) <<< 24)

/-- `FvpHeaderView`. -/
structure FvpHeaderView where
  frameIndex : UInt32
  shardIndex : UInt16
  totalShards : UInt16
  flags : UInt16
  dataShards : UInt16
deriving DecidableEq

/-- `parseFvpHeader`: too short or inconsistent packets are dropped. -/
def parseFvpHeader (packet : List UInt8) : Option FvpHeaderView :=
  if packet.length < PACKET_HEADER_LEN then none
  else
    let f := packet.drop RTP_HEADER_LEN
    let h : FvpHeaderView :=
      { frameIndex := readU32Le f 0
        shardIndex := readU16Le f 4
        totalShards := readU16Le f 6
        flags := readU16Le f 8
        dataShards := readU16Le f 10 }
    if h.totalShards = 0 ∨ h.totalShards > MAX_FRAME_SHARDS then none
    else if h.shardIndex ≥ h.totalShards then none
    else if h.dataShards = 0 ∨ h.dataShards > h.totalShards then none
    else some h

/-- `rtpSequence`. -/
def rtpSequence (packet : List UInt8) : UInt16 :=
  UInt16.ofNat (byteAt packet 2 <<< 8 ||| byteAt packet 3)

namespace FvpFlags

def isKeyframe (flags : UInt16) : Bool :=
  flags &&& 0x01 != 0

def sliceIndex (flags : UInt16) : UInt8 :=
  ((flags >>> 1) &&& 0x0F).toUInt8

def sliceCount (flags : UInt16) : UInt8 :=
  ((flags >>> 5) &&& 0x0F).toUInt8

end FvpFlags

/-- The part of `StatsReporter` that counts packets. -/
structure StatsReporter where
  m_packetsReceived : UInt32 := 0
  m_packetsLost : UInt32 := 0
deriving DecidableEq

/-- `FrameAssembler::Frame`. -/
structure Frame where
  frameIndex : UInt32
  keyframe : Bool
  data : List UInt8
deriving DecidableEq

/-- `FrameAssembler::Output`. -/
structure Output where
  frames : List Frame := []
  requestIdr : Bool := false
deriving DecidableEq

/-- `kFrameTimeout`, 100 ms. -/
def kFrameTimeout : Int := 100000000

/-- `kIdrRepeat`, 500 ms. -/
def kIdrRepeat : Int := 500000000

def kMaxCountedGap : Nat := 1000

/-- `isNewer`: serial-number comparison. -/
def isNewer (a b : UInt32) : Bool :=
  decide ((a - b).toBitVec.toInt > 0)

structure FrameAssembler where
  m_stats : Option StatsReporter := none
  m_bulk : FecFrameDecoder := {}
  m_sliced : SlicedFecFrameDecoder := {}
  m_haveFrame : Bool := false
  m_frameIndex : UInt32 := 0
  m_frameSliced : Bool := false
  m_frameFinished : Bool := false
  m_lastFramePacket : Int := 0
  m_waitingForKeyframe : Bool := true
  m_idrAsked : Bool := false
  m_lastIdrAsk : Int := 0
  m_haveSequence : Bool := false
  m_expectedSequence : UInt16 := 0
  m_framesDelivered : Nat := 0
  m_framesLost : Nat := 0
  m_framesSkipped : Nat := 0
deriving DecidableEq

namespace FrameAssembler

def reset (a : FrameAssembler) : FrameAssembler :=
  { a with
    m_bulk := {}
    m_sliced := {}
    m_haveFrame := false
    m_frameFinished := false
    m_waitingForKeyframe := true
    m_idrAsked := false
    m_haveSequence := false
    m_framesDelivered := 0
    m_framesLost := 0
    m_framesSkipped := 0 }

def askForIdr (a : FrameAssembler) (now : Int) (out : Output) : FrameAssembler × Output :=
  if a.m_idrAsked ∧ now - a.m_lastIdrAsk < kIdrRepeat then (a, out)
  else
    ({ a with m_idrAsked := true, m_lastIdrAsk := now }, { out with requestIdr := true })

def loseFrames (a : FrameAssembler) (count : Nat) (now : Int) (out : Output) :
    FrameAssembler × Output :=
  askForIdr
    { a with m_framesLost := a.m_framesLost + count, m_waitingForKeyframe := true } now out

def accountSequence (a : FrameAssembler) (seq : UInt16) : FrameAssembler :=
  let a :=
    { a with
      m_stats := a.m_stats.map fun s =>
        { s with m_packetsReceived := s.m_packetsReceived + 1 } }
  if !a.m_haveSequence then
    { a with m_haveSequence := true, m_expectedSequence := seq + 1 }
  else
    let diff := (seq - a.m_expectedSequence).toBitVec.toInt
    if diff = 0 then { a with m_expectedSequence := seq + 1 }
    else if diff > 0 then
      { a with
        m_stats :=
          if diff.toNat ≤ kMaxCountedGap then
            a.m_stats.map fun s =>
              { s with m_packetsLost := s.m_packetsLost + UInt32.ofNat diff.toNat }
          else a.m_stats
        m_expectedSequence := seq + 1 }
    else a

def beginFrame (a : FrameAssembler) (frameIndex : UInt32) (flags totalShards dataShards : UInt16)
    (now : Int) : FrameAssembler :=
  let slices := FvpFlags.sliceCount flags
  let keyframe := FvpFlags.isKeyframe flags
  let a :=
    { a with
      m_haveFrame := true
      m_frameIndex := frameIndex
      m_frameFinished := false
      m_lastFramePacket := now
      m_frameSliced := decide (slices > 0) }
  if a.m_frameSliced then
    { a with m_sliced := a.m_sliced.beginFrame frameIndex slices.toNat keyframe }
  else
    { a with
      m_bulk :=
        (a.m_bulk.beginFrame frameIndex totalShards.toNat dataShards.toNat keyframe).2 }

def currentComplete (a : FrameAssembler) : Bool :=
  if a.m_frameSliced then a.m_sliced.isComplete else a.m_bulk.isComplete

/-- `tryDecode` of the decoder in use. -/
def tryDecode (a : FrameAssembler) : Option DecodedFrame × FrameAssembler :=
  if a.m_frameSliced then
    (a.m_sliced.tryDecode.1, { a with m_sliced := a.m_sliced.tryDecode.2 })
  else
    (a.m_bulk.tryDecode.1, { a with m_bulk := a.m_bulk.tryDecode.2 })

def finishCurrent (a : FrameAssembler) (now : Int) (out : Output) : FrameAssembler × Output :=
  let a := { a with m_frameFinished := true }
  match a.tryDecode with
  | (none, a) => a.loseFrames 1 now out -- enough shards, but Reed-Solomon failed
  | (some f, a) =>
      let frame : Frame :=
        { frameIndex := a.m_frameIndex, keyframe := f.isKeyframe, data := f.data }
      if a.m_waitingForKeyframe ∧ !frame.keyframe then
        { a with m_framesSkipped := a.m_framesSkipped + 1 }.askForIdr now out
      else
        ({ a with
            m_waitingForKeyframe := if frame.keyframe then false else a.m_waitingForKeyframe
            m_framesDelivered := a.m_framesDelivered + 1 },
          { out with frames := out.frames ++ [frame] })

/-- The frames lost when a packet of a newer frame arrives. -/
def abandoned (a : FrameAssembler) (frameIndex : UInt32) : Nat :=
  (if a.m_frameFinished then 0 else 1) +
    min (frameIndex - a.m_frameIndex - 1).toNat kMaxCountedGap

/-- A packet of a newer frame: the frame in progress is given up. -/
def startFrame (a : FrameAssembler) (h : FvpHeaderView) (now : Int) (out : Output) :
    FrameAssembler × Output :=
  let (a, out) :=
    if a.m_haveFrame ∧ a.abandoned h.frameIndex > 0 then
      a.loseFrames (a.abandoned h.frameIndex) now out
    else (a, out)
  (a.beginFrame h.frameIndex h.flags h.totalShards h.dataShards now, out)

/-- A packet of the frame in progress: its shard goes to the decoder in use. -/
def takeShard (a : FrameAssembler) (h : FvpHeaderView) (shard : List UInt8) (now : Int)
    (out : Output) : FrameAssembler × Output :=
  let a := { a with m_lastFramePacket := now }
  let a :=
    if a.m_frameSliced then
      { a with
        m_sliced := a.m_sliced.addShard (FvpFlags.sliceIndex h.flags).toNat h.shardIndex.toNat
          h.totalShards.toNat h.dataShards.toNat shard }
    else { a with m_bulk := a.m_bulk.addShard h.shardIndex.toNat shard }
  if a.currentComplete then a.finishCurrent now out else (a, out)

def onPacket (a : FrameAssembler) (packet : List UInt8) (now : Int) (out : Output) :
    FrameAssembler × Output :=
  match parseFvpHeader packet with
  | none => (a, out)
  | some h =>
      let a := a.accountSequence (rtpSequence packet)
      let shard := packet.drop PACKET_HEADER_LEN
      if a.m_haveFrame ∧ h.frameIndex = a.m_frameIndex then
        if a.m_frameFinished then (a, out) -- a late or extra shard of a finished frame
        else a.takeShard h shard now out
      else if !a.m_haveFrame ∨ isNewer h.frameIndex a.m_frameIndex then
        let (a, out) := a.startFrame h now out
        a.takeShard h shard now out
      else (a, out) -- a late packet of an older frame

def onTick (a : FrameAssembler) (now : Int) (out : Output) : FrameAssembler × Output :=
  if a.m_haveFrame ∧ !a.m_frameFinished ∧ now - a.m_lastFramePacket > kFrameTimeout then
    { a with m_frameFinished := true }.loseFrames 1 now out
  else (a, out)

def requireKeyframe (a : FrameAssembler) (now : Int) (out : Output) :
    FrameAssembler × Output :=
  { a with m_waitingForKeyframe := true }.askForIdr now out

/-- A call of the assembler's owner. -/
inductive Call where
  | onPacket (packet : List UInt8) (now : Int)
  | onTick (now : Int)
  | requireKeyframe (now : Int)

/-- One call, with a fresh output. -/
def step (a : FrameAssembler) (call : Call) : Output × FrameAssembler :=
  let (a, out) :=
    match call with
    | .onPacket packet now => a.onPacket packet now {}
    | .onTick now => a.onTick now {}
    | .requireKeyframe now => a.requireKeyframe now {}
  (out, a)

end FrameAssembler

end Client
end FocusVision
