import FocusVision.Client.GfTables
import FocusVision.Lib.GaussJordan

/-!
# The client's FEC decoders

`FecFrameDecoder` collects the shards of one frame (or of one slice) and
rebuilds it by Reed-Solomon; `SlicedFecFrameDecoder` routes the packets of a
sliced frame to one such decoder per slice and joins the slices.  Both are
translated from `fec_decoder.cpp`.

The pair `m_shards` / `m_received` is one list of optional shards: a shard is
received when its entry is not `none`.  `SlicedFecFrameDecoder::m_startTime`
is left out, since nothing the client runs reads it.
-/

namespace FocusVision
namespace Client

open Gf GaussJordan

/-- `FecFrameDecoder::MAX_TOTAL_SHARDS`. -/
def MAX_TOTAL_SHARDS : Nat := 4096

/-- `DecodedFrame` of both decoders. -/
structure DecodedFrame where
  frameIndex : UInt32
  data : List UInt8
  isKeyframe : Bool
deriving DecidableEq

/-- The cached encoding matrix `E = V * V_top⁻¹`, `fullE[total][n]`. -/
structure EncodingMatrixCache where
  cachedTotal : Nat := 0
  cachedN : Nat := 0
  fullE : List (List UInt8) := []
deriving DecidableEq

namespace EncodingMatrixCache

def valid (c : EncodingMatrixCache) : Bool :=
  c.cachedTotal ≠ 0 && c.cachedN ≠ 0

/-- `fullE[s][col]`. -/
def entry (c : EncodingMatrixCache) (s col : Nat) : GF256 :=
  ⟨(c.fullE.getD s []).getD col 0⟩

end EncodingMatrixCache

/-- State of a `FecFrameDecoder`. -/
structure FecFrameDecoder where
  m_frameIndex : UInt32 := 0
  m_totalShards : Nat := 0
  m_dataShards : Nat := 0
  m_isKeyframe : Bool := false
  m_active : Bool := false
  m_delivered : Bool := false
  m_shardSize : Nat := 0
  m_receivedCount : Nat := 0
  m_shards : List (Option (List UInt8)) := []
  m_encodingCache : EncodingMatrixCache := {}
deriving DecidableEq

/-- Entry of the Vandermonde matrix: `gfPow((uint8_t)(i & 0xFF), j)`. -/
def vandEntry (i j : Nat) : UInt8 :=
  gfPow (UInt8.ofNat (i &&& 0xFF)) j

/-- Sum of products `val ^= gfMul(f k, g k)` over `k < n`. -/
def gfDot (n : Nat) (f g : Nat → UInt8) : UInt8 :=
  (List.range n).foldl (fun val k => val ^^^ gfMul (f k) (g k)) 0

/-- `V_top`, the first `n` rows of the Vandermonde matrix. -/
def topRows (n : Nat) : Rows GF256 n n :=
  ofEntries fun r c => ⟨vandEntry r.val c.val⟩

/-- Steps 1 to 3 of `ensureEncodingMatrix`; `none` when `V_top` is singular. -/
def buildEncodingMatrix (total n : Nat) : Option (List (List UInt8)) :=
  match invert (topRows n) with
  | none => none
  | some topInv =>
      some ((List.range total).map fun i => (List.range n).map fun j =>
        gfDot n (vandEntry i) fun k =>
          if h : k < n ∧ j < n then (topInv[k][j]).byte else 0)

namespace FecFrameDecoder

/-- `beginFrame`: start collecting; refuses inconsistent counts. -/
def beginFrame (d : FecFrameDecoder) (frameIndex : UInt32)
    (totalShards dataShards : Nat) (isKeyframe : Bool) :
    Bool × FecFrameDecoder :=
  let d :=
    { d with
      m_frameIndex := frameIndex
      m_isKeyframe := isKeyframe
      m_shardSize := 0
      m_receivedCount := 0
      m_delivered := false }
  if totalShards = 0 ∨ totalShards > MAX_TOTAL_SHARDS ∨
      dataShards = 0 ∨ dataShards > totalShards then
    (false,
      { d with
        m_active := false
        m_totalShards := 0
        m_dataShards := 0
        m_shards := [] })
  else
    (true,
      { d with
        m_active := true
        m_totalShards := totalShards
        m_dataShards := dataShards
        m_shards := List.replicate totalShards none })

/-- `m_received[i]`. -/
def received (d : FecFrameDecoder) (i : Nat) : Bool :=
  (d.m_shards.getD i none).isSome

/-- `m_shards[i]`, empty when not received. -/
def shard (d : FecFrameDecoder) (i : Nat) : List UInt8 :=
  (d.m_shards.getD i none).getD []

/-- `addShard`. -/
def addShard (d : FecFrameDecoder) (shardIndex : Nat) (data : List UInt8) :
    FecFrameDecoder :=
  if !d.m_active || d.m_delivered then d
  else if data.length ≤ 0 then d
  else if shardIndex ≥ d.m_totalShards then d
  else if d.received shardIndex then d
  else if d.m_shardSize ≠ 0 ∧ data.length ≠ d.m_shardSize then d
  else
    { d with
      m_shards := d.m_shards.set shardIndex (some data)
      m_receivedCount := d.m_receivedCount + 1
      m_shardSize := if d.m_shardSize = 0 then data.length else d.m_shardSize }

/-- `isComplete`: at least `data_shard_count` shards are here. -/
def isComplete (d : FecFrameDecoder) : Bool :=
  d.m_active && decide (d.m_receivedCount ≥ d.m_dataShards)

/-- `isActiveFor`. -/
def isActiveFor (d : FecFrameDecoder) (frameIndex : UInt32) : Bool :=
  d.m_active && d.m_frameIndex == frameIndex

/-- `ensureEncodingMatrix`: rebuild the cached matrix unless it is for these
counts; a singular `V_top` leaves the cache invalid. -/
def ensureEncodingMatrix (d : FecFrameDecoder) : FecFrameDecoder :=
  if d.m_encodingCache.cachedTotal = d.m_totalShards ∧
      d.m_encodingCache.cachedN = d.m_dataShards ∧ d.m_encodingCache.valid then d
  else
    match buildEncodingMatrix d.m_totalShards d.m_dataShards with
    | none => { d with m_encodingCache := {} }
    | some fullE =>
        { d with
          m_encodingCache := ⟨d.m_totalShards, d.m_dataShards, fullE⟩ }

/-- The first `m_dataShards` received indices. -/
def presentIdx (d : FecFrameDecoder) : List Nat :=
  ((List.range d.m_totalShards).filter d.received).take d.m_dataShards

/-- The received rows of the cached matrix. -/
def selectedRows (d : FecFrameDecoder) : Rows GF256 d.m_dataShards d.m_dataShards :=
  ofEntries fun row col =>
    d.m_encodingCache.entry (d.presentIdx.getD row.val 0) col.val

/-- The data shards concatenated: the path without any loss. -/
def concatData (d : FecFrameDecoder) : List UInt8 :=
  (List.range d.m_dataShards).flatMap d.shard

/-- The inverse of the selected rows times the received shards. -/
def multiplyInverse (d : FecFrameDecoder)
    (aug : Rows GF256 d.m_dataShards d.m_dataShards) : List UInt8 :=
  (List.range d.m_dataShards).flatMap fun di =>
    (List.range d.m_shardSize).map fun byteIdx =>
      gfDot d.m_dataShards
        (fun k =>
          if h : di < d.m_dataShards ∧ k < d.m_dataShards then (aug[di][k]).byte
          else 0)
        (fun k => (d.shard (d.presentIdx.getD k 0)).getD byteIdx 0)

/-- Number of data shards not received. -/
def missing (d : FecFrameDecoder) : Nat :=
  ((List.range d.m_dataShards).filter fun i => !d.received i).length

/-- Number of parity shards received. -/
def availableParity (d : FecFrameDecoder) : Nat :=
  ((List.range' d.m_dataShards (d.m_totalShards - d.m_dataShards)).filter
    d.received).length

/-- The end of `tryDecode`, once the encoding matrix is cached: invert the
selected rows and rebuild the data shards. -/
def reconstruct (d : FecFrameDecoder) : Option DecodedFrame × FecFrameDecoder :=
  if !d.m_encodingCache.valid then (none, d)
  else
    match invert d.selectedRows with
    | none => (none, d) -- singular: nothing is delivered
    | some aug =>
        if d.m_shardSize > 0 ∧
            d.m_dataShards * d.m_shardSize / d.m_shardSize ≠ d.m_dataShards then
          (none, d)
        else
          (some ⟨d.m_frameIndex, d.multiplyInverse aug, d.m_isKeyframe⟩,
            { d with m_delivered := true })

/-- `tryDecode`: the frame, at most once, as soon as enough shards are here. -/
def tryDecode (d : FecFrameDecoder) : Option DecodedFrame × FecFrameDecoder :=
  if !d.isComplete || d.m_delivered then (none, d)
  else if (List.range d.m_dataShards).all d.received then
    (some ⟨d.m_frameIndex, d.concatData, d.m_isKeyframe⟩,
      { d with m_delivered := true })
  else if d.m_shardSize = 0 then (none, d)
  else if d.missing > d.availableParity then (none, d)
  else d.ensureEncodingMatrix.reconstruct

end FecFrameDecoder

/-- `SlicedFecFrameDecoder::MAX_SLICES`. -/
def MAX_SLICES : Nat := 15

/-- Cap on a decoded slice: 16 MiB. -/
def MAX_DECODED_SLICE_BYTES : Nat := 16 * 1024 * 1024

/-- State of a `SlicedFecFrameDecoder`; bit `i` of `m_sliceCompleted` says
that slice `i` is decoded. -/
structure SlicedFecFrameDecoder where
  m_frameIndex : UInt32 := 0
  m_sliceCount : Nat := 0
  m_isKeyframe : Bool := false
  m_active : Bool := false
  m_delivered : Bool := false
  m_sliceCompleted : Nat := 0
  m_contexts : List FecFrameDecoder := List.replicate MAX_SLICES {}
  m_sliceData : List (List UInt8) := List.replicate MAX_SLICES []
deriving DecidableEq

/-- The little-endian length prefix of a decoded slice. -/
def slicePrefix (data : List UInt8) : Nat :=
  (data.getD 0 0).toNat ||| ((data.getD 1 0).toNat <<< 8) |||
    ((data.getD 2 0).toNat <<< 16) ||| ((data.getD 3 0).toNat <<< 24)

/-- What a decoded slice contributes to the frame: its bytes behind the length
prefix, or `none` for a prefix that is out of range.  A slice shorter than a
prefix is taken as it is. -/
def stripPrefix (data : List UInt8) : Option (List UInt8) :=
  if data.length ≥ 4 then
    if slicePrefix data > MAX_DECODED_SLICE_BYTES ∨
        slicePrefix data > data.length - 4 then none
    else some ((data.drop 4).take (slicePrefix data))
  else some data

namespace SlicedFecFrameDecoder

/-- `beginFrame`. -/
def beginFrame (d : SlicedFecFrameDecoder) (frameIndex : UInt32)
    (sliceCount : Nat) (isKeyframe : Bool) : SlicedFecFrameDecoder :=
  let count := if sliceCount > MAX_SLICES then MAX_SLICES else sliceCount
  { d with
    m_frameIndex := frameIndex
    m_sliceCount := count
    m_isKeyframe := isKeyframe
    m_active := decide (count > 0)
    m_delivered := false
    m_sliceCompleted := 0
    m_sliceData := d.m_sliceData.mapIdx fun i s => if i < count then [] else s }

/-- `m_contexts[i]`. -/
def context (d : SlicedFecFrameDecoder) (i : Nat) : FecFrameDecoder :=
  d.m_contexts.getD i {}

/-- Is slice `i` decoded? -/
def sliceDone (d : SlicedFecFrameDecoder) (i : Nat) : Bool :=
  d.m_sliceCompleted &&& (1 <<< i) ≠ 0

/-- Store a decoded slice; an invalid prefix leaves the slice incomplete. -/
def storeSlice (d : SlicedFecFrameDecoder) (sliceIndex : Nat)
    (data : List UInt8) : SlicedFecFrameDecoder :=
  match stripPrefix data with
  | none => d
  | some s =>
      { d with
        m_sliceData := d.m_sliceData.set sliceIndex s
        m_sliceCompleted := d.m_sliceCompleted ||| (1 <<< sliceIndex) }

/-- `addShard`. -/
def addShard (d : SlicedFecFrameDecoder)
    (sliceIndex shardIndex totalShards dataShards : Nat)
    (data : List UInt8) : SlicedFecFrameDecoder :=
  if !d.m_active || d.m_delivered then d
  else if sliceIndex ≥ d.m_sliceCount then d
  else
    let ctx := d.context sliceIndex
    let started :=
      if ctx.isActiveFor d.m_frameIndex then (true, ctx)
      else ctx.beginFrame d.m_frameIndex totalShards dataShards d.m_isKeyframe
    if !started.1 then
      { d with m_contexts := d.m_contexts.set sliceIndex started.2 }
    else
      let ctx := started.2.addShard shardIndex data
      if !d.sliceDone sliceIndex && ctx.isComplete then
        let r := ctx.tryDecode
        let d := { d with m_contexts := d.m_contexts.set sliceIndex r.2 }
        match r.1 with
        | none => d
        | some f => d.storeSlice sliceIndex f.data
      else { d with m_contexts := d.m_contexts.set sliceIndex ctx }

/-- `isComplete`: every slice of the frame is decoded. -/
def isComplete (d : SlicedFecFrameDecoder) : Bool :=
  let allBits := (1 <<< d.m_sliceCount) - 1
  d.m_active && d.m_sliceCompleted &&& allBits == allBits

/-- `tryDecode`: the slices joined, at most once. -/
def tryDecode (d : SlicedFecFrameDecoder) :
    Option DecodedFrame × SlicedFecFrameDecoder :=
  if !d.isComplete || d.m_delivered then (none, d)
  else
    (some
      { frameIndex := d.m_frameIndex
        data := (d.m_sliceData.take d.m_sliceCount).flatten
        isKeyframe := d.m_isKeyframe },
      { d with m_delivered := true })

end SlicedFecFrameDecoder

end Client
end FocusVision
