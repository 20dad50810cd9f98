import FocusVision.Engine.FrameEncoder
import FocusVision.Lib.Run

/-!
# Reassembling frames

`ShardGroup` and `FecFrameReassembler` of the engine's `pipeline.rs`: the
receiver works from the header of each packet alone and keeps one pending frame.

Each method takes and returns the state that it changes.
-/

namespace FocusVision
namespace Engine

open Bytes

/-- One Reed-Solomon group: the whole frame (bulk) or one slice. -/
structure ShardGroup where
  shardCount : Nat
  dataShardCount : Nat
  shardLen : Nat
  shards : List (Option Shard)
  received : Nat
  decoded : Option (List UInt8)
  failed : Bool
deriving DecidableEq

/-- The data shards of a group: the ones that came, or the ones decoded. -/
def rebuildData (crate : RsCrate) (shards : List (Option Shard)) (dataCount : Nat) :
    Option (List Shard) :=
  if (shards.take dataCount).all Option.isSome then
    some ((shards.take dataCount).map fun s => s.getD [])
  else
    match (FecDecoder.decode crate shards dataCount).1 with
    | .ok dataShards => some dataShards
    | .error _ => none

/-- The bytes behind the length prefix; `none` if it is out of range. -/
def stripLength (data : List UInt8) : Option (List UInt8) :=
  if data.length < 4 then none
  else
    let len := ofLeBytes (data.take 4)
    if len > data.length - 4 then none
    else some ((data.take (4 + len)).drop 4)

/-- The bytes of a group, from its data shards. -/
def groupBytes (hasLenPrefix : Bool) (dataShards : List Shard) : Option (List UInt8) :=
  if hasLenPrefix then stripLength dataShards.flatten else some dataShards.flatten

namespace ShardGroup

def default : ShardGroup :=
  { shardCount := 0
    dataShardCount := 0
    shardLen := 0
    shards := []
    received := 0
    decoded := none
    failed := false }

/-- The first packet fixes the counts; `none` if a packet disagrees with them. -/
def agree (group : ShardGroup) (shardCount dataCount payloadLen : Nat) :
    Option ShardGroup :=
  if group.shardCount = 0 then
    some
      { group with
        shardCount
        dataShardCount := dataCount
        shardLen := payloadLen
        shards := List.replicate shardCount none }
  else if group.shardCount ≠ shardCount ∨ group.dataShardCount ≠ dataCount ∨
      group.shardLen ≠ payloadLen then none
  else some group

def accept (group : ShardGroup) (shardIndex shardCount dataCount : Nat)
    (payload : List UInt8) : Bool × ShardGroup :=
  match group.agree shardCount dataCount payload.length with
  | none => (false, group)
  | some group =>
      if (group.shards.getD shardIndex none).isSome then (false, group)
      else
        (true,
          { group with
            shards := group.shards.set shardIndex (some payload)
            received := group.received + 1 })

def reconstruct (crate : RsCrate) (group : ShardGroup) (hasLenPrefix : Bool) :
    Option (List UInt8) × ShardGroup :=
  match rebuildData crate group.shards group.dataShardCount with
  | none =>
      (none,
        { group with
          shards := (FecDecoder.decode crate group.shards group.dataShardCount).2 })
  | some dataShards => (groupBytes hasLenPrefix dataShards, { group with shards := [] })

/-- What `feed` does with one group; `false` when it returns there. -/
def feed (crate : RsCrate) (group : ShardGroup) (hdr : FvpHeader)
    (hasLenPrefix : Bool) (payload : List UInt8) : Bool × ShardGroup :=
  if group.decoded.isSome || group.failed then (false, group)
  else
    match group.accept hdr.shardIndex.toNat hdr.shardCount.toNat
      hdr.dataShardCount.toNat payload with
    | (false, group) => (false, group)
    | (true, group) =>
        if group.received ≥ group.dataShardCount then
          match group.reconstruct crate hasLenPrefix with
          | (some data, group) => (true, { group with decoded := some data })
          | (none, group) => (false, { group with failed := true })
        else (true, group)

end ShardGroup

structure PendingFrame where
  frameIndex : UInt32
  isKeyframe : Bool
  sliceCount : UInt8
  groups : List ShardGroup
  delivered : Bool
deriving DecidableEq

structure ReassembledFrame where
  frameIndex : UInt32
  isKeyframe : Bool
  data : List UInt8
deriving DecidableEq

/-- `FecFrameReassembler`. -/
structure FecFrameReassembler where
  frame : Option PendingFrame
deriving DecidableEq

namespace FecFrameReassembler

def new : FecFrameReassembler :=
  ⟨none⟩

/-- A frame of which no shard has come yet. -/
def openFrame (hdr : FvpHeader) : PendingFrame :=
  { frameIndex := hdr.frameIndex
    isKeyframe := hdr.isKeyframe
    sliceCount := FvpFlags.sliceCount hdr.flags
    groups := List.replicate (max (FvpFlags.sliceCount hdr.flags).toNat 1)
      ShardGroup.default
    delivered := false }

/-- A new frame index abandons the previous frame. -/
def pendingFor (r : FecFrameReassembler) (hdr : FvpHeader) : PendingFrame :=
  match r.frame with
  | some frame => if frame.frameIndex = hdr.frameIndex then frame else openFrame hdr
  | none => openFrame hdr

/-- The slice that a packet belongs to; a bulk frame is one group. -/
def groupIdx (hdr : FvpHeader) : Nat :=
  if FvpFlags.sliceCount hdr.flags = 0 then 0
  else (FvpFlags.sliceIndex hdr.flags).toNat

/-- The packets that `feed` drops before it looks at its state. -/
def malformed (hdr : FvpHeader) (payload : List UInt8) : Bool :=
  !hdr.isValid || payload.isEmpty ||
    (decide (FvpFlags.sliceCount hdr.flags > 0) &&
      decide (FvpFlags.sliceIndex hdr.flags ≥ FvpFlags.sliceCount hdr.flags))

/-- `feed` for the pending frame of the packet. -/
def feedFrame (crate : RsCrate) (frame : PendingFrame) (hdr : FvpHeader)
    (payload : List UInt8) : Option ReassembledFrame × PendingFrame :=
  if frame.delivered || frame.sliceCount != FvpFlags.sliceCount hdr.flags then
    (none, frame)
  else
    match frame.groups[groupIdx hdr]? with
    | none => (none, frame)
    | some group =>
        let (go, group) := group.feed crate hdr
          (decide (FvpFlags.sliceCount hdr.flags > 0)) payload
        let groups := frame.groups.set (groupIdx hdr) group
        if go && groups.all fun g => g.decoded.isSome then
          (some
            { frameIndex := frame.frameIndex
              isKeyframe := frame.isKeyframe
              data := groups.flatMap fun g => g.decoded.getD [] },
            { frame with
              delivered := true
              groups := groups.map fun g => { g with decoded := none } })
        else (none, { frame with groups })

def feed (crate : RsCrate) (r : FecFrameReassembler) (packet : Packet) :
    Option ReassembledFrame × FecFrameReassembler :=
  match readFvpHeader packet with
  | none => (none, r)
  | some hdr =>
      if malformed hdr (payload packet) then (none, r)
      else
        let (out, frame) := feedFrame crate (r.pendingFor hdr) hdr (payload packet)
        (out, ⟨some frame⟩)

/-- The frames returned over a sequence of packets. -/
abbrev frames (crate : RsCrate) (r : FecFrameReassembler) (packets : List Packet) :
    List ReassembledFrame :=
  Run.emitted (feed crate) r packets

theorem pendingFor_same
    {r : FecFrameReassembler} {frame : PendingFrame} {hdr : FvpHeader}
    (hframe : r.frame = some frame) (hindex : frame.frameIndex = hdr.frameIndex) :
    r.pendingFor hdr = frame := by
  unfold pendingFor
  rw [hframe]
  exact if_pos hindex

theorem pendingFor_other
    {r : FecFrameReassembler} {hdr : FvpHeader}
    (hother : ∀ frame, r.frame = some frame → frame.frameIndex ≠ hdr.frameIndex) :
    r.pendingFor hdr = openFrame hdr := by
  unfold pendingFor
  cases hframe : r.frame with
  | none => rfl
  | some frame => exact if_neg (hother frame hframe)

theorem pendingFor_frameIndex
    (r : FecFrameReassembler) (hdr : FvpHeader) :
    (r.pendingFor hdr).frameIndex = hdr.frameIndex := by
  unfold pendingFor
  cases r.frame with
  | none => rfl
  | some frame =>
      simp only
      split_ifs with h
      · exact h
      · rfl

theorem feedFrame_frameIndex
    (crate : RsCrate) (frame : PendingFrame) (hdr : FvpHeader) (payload : List UInt8) :
    (feedFrame crate frame hdr payload).2.frameIndex = frame.frameIndex := by
  unfold feedFrame
  split_ifs
  · rfl
  · cases frame.groups[groupIdx hdr]? with
    | none => rfl
    | some group =>
        simp only
        split_ifs <;> rfl

/-- After a packet the frame of the packet is pending, or the one before. -/
theorem feed_pending
    {crate : RsCrate} {r : FecFrameReassembler} {packet : Packet} {pending : PendingFrame}
    (h : (feed crate r packet).2.frame = some pending) :
    r.frame = some pending ∨
      ∃ hdr, readFvpHeader packet = some hdr ∧ pending.frameIndex = hdr.frameIndex := by
  unfold feed at h
  cases hheader : readFvpHeader packet with
  | none =>
      rw [hheader] at h
      exact Or.inl h
  | some hdr =>
      rw [hheader] at h
      simp only at h
      split_ifs at h
      · exact Or.inl h
      · cases h
        exact Or.inr ⟨hdr, rfl, by rw [feedFrame_frameIndex, pendingFor_frameIndex]⟩

end FecFrameReassembler

end Engine
end FocusVision
