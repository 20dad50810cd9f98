import FocusVision.Engine.Reassembler

/-!
# Packets without parity

`RtpPacketizer::packetize` and `RtpDepacketizer` of the engine's
`transport/rtp.rs`: a frame is cut into packets, and put together again from the
packets of one frame.

The packetizer allows for as many packets as an index can number, the receiver
only for `MAX_FRAME_SHARDS`.  The main result is that exactly the frames within
the receiver's limit come back, whatever the order of their packets.
-/

namespace FocusVision
namespace Engine

open Bytes

def MTU_SIZE : Nat := 1400

/-- The payload of a packet. -/
def MAX_PAYLOAD : Nat := MTU_SIZE - PACKET_HEADER_LEN

/-- `RtpPacketizer`, without its pool of buffers. -/
structure RtpPacketizer where
  ssrc : UInt32
  sequence : UInt16 := 0

namespace RtpPacketizer

/-- The FVP header of packet `i`: without parity every shard is a data shard. -/
def header (frameIndex : UInt32) (isKeyframe : Bool) (totalChunks i : Nat) : FvpHeader :=
  { frameIndex
    shardIndex := UInt16.ofNat i
    shardCount := UInt16.ofNat totalChunks
    flags := if isKeyframe then 1 else 0
    dataShardCount := UInt16.ofNat totalChunks }

/-- Packet `i` of `packetize`. -/
def packet (p : RtpPacketizer) (frameIndex timestamp90khz : UInt32) (isKeyframe : Bool)
    (totalChunks i : Nat) (chunk : List UInt8) : Packet :=
  writeRtpHeader RTP_PT_H265 (i == totalChunks - 1) (p.sequence + UInt16.ofNat i)
      timestamp90khz p.ssrc ++
    writeFvpHeader (header frameIndex isKeyframe totalChunks i) ++ chunk

/-- `packetize`. -/
def packetize (p : RtpPacketizer) (frameData : List UInt8)
    (frameIndex timestamp90khz : UInt32) (isKeyframe : Bool) :
    List Packet × RtpPacketizer :=
  if frameData = [] then ([], p)
  else
    let chunks := chunks MAX_PAYLOAD frameData
    let totalChunks := chunks.length
    if totalChunks > 65535 then ([], p)
    else
      (chunks.mapIdx fun i chunk =>
        p.packet frameIndex timestamp90khz isKeyframe totalChunks i chunk,
        { p with sequence := p.sequence + UInt16.ofNat totalChunks })

end RtpPacketizer

structure RtpDepacketizer where
  currentFrameIndex : Option UInt32 := none
  shards : List (Option (List UInt8)) := []
  expectedCount : Nat := 0
deriving DecidableEq

namespace RtpDepacketizer

/-- The new frame of a packet, unless its frame is the current one. -/
def frameFor (d : RtpDepacketizer) (hdr : FvpHeader) : RtpDepacketizer :=
  if d.currentFrameIndex ≠ some hdr.frameIndex then
    { currentFrameIndex := some hdr.frameIndex
      shards := List.replicate hdr.shardCount.toNat none
      expectedCount := hdr.shardCount.toNat }
  else d

/-- What `feed` does with a shard of the current frame. -/
def store (d : RtpDepacketizer) (hdr : FvpHeader) (marker : Bool) (payload : List UInt8) :
    Option ReassembledFrame × RtpDepacketizer :=
  let d :=
    if hdr.shardIndex.toNat < d.shards.length then
      { d with shards := d.shards.set hdr.shardIndex.toNat (some payload) }
    else d
  if (marker || d.shards.all Option.isSome) &&
      (d.shards.filter Option.isSome).length == d.expectedCount then
    (some
      { frameIndex := hdr.frameIndex
        isKeyframe := hdr.isKeyframe
        data := (d.shards.filterMap id).flatten },
      { d with currentFrameIndex := none })
  else (none, d)

/-- `feed`. -/
def feed (d : RtpDepacketizer) (packet : Packet) :
    Option ReassembledFrame × RtpDepacketizer :=
  match readFvpHeader packet with
  | none => (none, d)
  | some hdr =>
      let marker := packet.getD 1 0 &&& 0x80 != 0
      if !hdr.isValid then (none, d)
      else (d.frameFor hdr).store hdr marker (payload packet)

end RtpDepacketizer

/-! ### What the receiver has of a frame -/

section Slots

variable {α : Type*}

/-- The chunks whose number is in `seen`. -/
def slots (chunks : List α) (seen : List Nat) : List (Option α) :=
  chunks.mapIdx fun i chunk => if i ∈ seen then some chunk else none

@[simp] theorem length_slots
    (chunks : List α) (seen : List Nat) :
    (slots chunks seen).length = chunks.length := by
  simp [slots]

theorem getElem?_slots
    (chunks : List α) (seen : List Nat) (i : Nat) :
    (slots chunks seen)[i]? =
      chunks[i]?.map fun chunk => if i ∈ seen then some chunk else none := by
  simp [slots]

theorem slots_nil
    (chunks : List α) :
    slots chunks [] = List.replicate chunks.length none := by
  refine List.ext_getElem? fun i => ?_
  rw [getElem?_slots, List.getElem?_replicate]
  by_cases hi : i < chunks.length
  · simp [hi]
  · simp [hi]

theorem set_slots
    {chunks : List α} {seen : List Nat} {i : Nat} {chunk : α} (h : chunks[i]? = some chunk) :
    (slots chunks seen).set i (some chunk) = slots chunks (i :: seen) := by
  refine List.ext_getElem? fun j => ?_
  rw [List.getElem?_set, getElem?_slots, getElem?_slots]
  by_cases hij : i = j
  · subst hij
    obtain ⟨hi, hchunk⟩ := List.getElem?_eq_some_iff.mp h
    simp [hi, hchunk]
  · have hji : ¬j = i := fun heq => hij heq.symm
    simp [hij, hji]

/-- Every chunk has been seen. -/
def AllSeen (chunks : List α) (seen : List Nat) : Prop :=
  ∀ i < chunks.length, i ∈ seen

theorem slots_of_allSeen
    {chunks : List α} {seen : List Nat} (h : AllSeen chunks seen) :
    slots chunks seen = chunks.map some := by
  refine List.ext_getElem? fun i => ?_
  rw [getElem?_slots, List.getElem?_map]
  by_cases hi : i < chunks.length
  · simp [h i hi]
  · rw [List.getElem?_eq_none (by omega)]
    rfl

theorem length_filter_slots
    {chunks : List α} {seen : List Nat} (h : ¬AllSeen chunks seen) :
    ((slots chunks seen).filter Option.isSome).length < chunks.length := by
  simp only [AllSeen, not_forall] at h
  obtain ⟨i, hi, hnot⟩ := h
  have hnone : (slots chunks seen)[i]? = some none := by
    rw [getElem?_slots, List.getElem?_eq_getElem hi]
    simp [hnot]
  have hlt : ((slots chunks seen).filter Option.isSome).length < (slots chunks seen).length :=
    List.length_filter_lt_length_iff_exists.mpr ⟨none, List.mem_of_getElem? hnone, by simp⟩
  rwa [length_slots] at hlt

end Slots

/-! ### The packets of one frame -/

section Frame

variable {p : RtpPacketizer} {chunks : List (List UInt8)} {frameIndex timestamp90khz : UInt32}
  {isKeyframe : Bool}

theorem readFvpHeader_packet
    (totalChunks i : Nat) (chunk : List UInt8) :
    readFvpHeader (p.packet frameIndex timestamp90khz isKeyframe totalChunks i chunk) =
        some (RtpPacketizer.header frameIndex isKeyframe totalChunks i) ∧
      payload (p.packet frameIndex timestamp90khz isKeyframe totalChunks i chunk) = chunk :=
  ⟨readFvpHeader_append (length_writeRtpHeader _ _ _ _ _) _ chunk,
    payload_append (length_writeRtpHeader _ _ _ _ _) _ chunk⟩

theorem header_isKeyframe
    (totalChunks i : Nat) :
    (RtpPacketizer.header frameIndex isKeyframe totalChunks i).isKeyframe = isKeyframe := by
  have hflags : (RtpPacketizer.header frameIndex isKeyframe totalChunks i).flags =
      if isKeyframe then 1 else 0 := rfl
  rw [FvpHeader.isKeyframe, hflags]
  cases isKeyframe <;> decide

theorem header_toNat
    {totalChunks i : Nat} (hi : i < totalChunks) (hmax : totalChunks ≤ 65535) :
    (RtpPacketizer.header frameIndex isKeyframe totalChunks i).shardIndex.toNat = i ∧
      (RtpPacketizer.header frameIndex isKeyframe totalChunks i).shardCount.toNat =
        totalChunks := by
  simp only [RtpPacketizer.header, UInt16.toNat_ofNat']
  omega

/-- A receiver takes the packets of a frame if there are not too many of them. -/
theorem header_isValid
    {totalChunks i : Nat} (hi : i < totalChunks) (hmax : totalChunks ≤ 65535) :
    (RtpPacketizer.header frameIndex isKeyframe totalChunks i).isValid =
      decide (totalChunks ≤ MAX_FRAME_SHARDS) := by
  obtain ⟨hindex, hcount⟩ := @header_toNat frameIndex isKeyframe _ _ hi hmax
  have hdata : (RtpPacketizer.header frameIndex isKeyframe totalChunks i).dataShardCount =
      (RtpPacketizer.header frameIndex isKeyframe totalChunks i).shardCount := rfl
  have hpos : 0 < totalChunks := Nat.zero_lt_of_lt hi
  simp [FvpHeader.isValid, hdata, UInt16.lt_iff_toNat_lt, hindex, hcount, hi, hpos]

/-- The receiver has the chunks in `seen` of the frame; none of them if it is new. -/
def Holds (frameIndex : UInt32) (chunks : List (List UInt8)) (seen : List Nat)
    (d : RtpDepacketizer) : Prop :=
  (seen = [] ∧ d.currentFrameIndex ≠ some frameIndex) ∨
    d =
      { currentFrameIndex := some frameIndex
        shards := slots chunks seen
        expectedCount := chunks.length }

theorem Holds.frameFor
    {seen : List Nat} {d : RtpDepacketizer} (h : Holds frameIndex chunks seen d)
    {hdr : FvpHeader} (hframe : hdr.frameIndex = frameIndex)
    (hcount : hdr.shardCount.toNat = chunks.length) :
    d.frameFor hdr =
      { currentFrameIndex := some frameIndex
        shards := slots chunks seen
        expectedCount := chunks.length } := by
  subst hframe
  rcases h with ⟨rfl, hnew⟩ | rfl
  · rw [RtpDepacketizer.frameFor, if_pos hnew, slots_nil, hcount]
  · exact if_neg (by simp)

theorem feed_of_valid
    (d : RtpDepacketizer) {packet : Packet} {hdr : FvpHeader}
    (hread : readFvpHeader packet = some hdr) (hvalid : hdr.isValid = true) :
    ∃ marker, d.feed packet = (d.frameFor hdr).store hdr marker (payload packet) := by
  refine ⟨packet.getD 1 0 &&& 0x80 != 0, ?_⟩
  simp only [RtpDepacketizer.feed, hread, hvalid]
  rfl

/-- A packet of the frame is stored, and the last one that was missing completes it. -/
theorem Holds.feed
    {seen : List Nat} {d : RtpDepacketizer} (h : Holds frameIndex chunks seen d)
    (hmax : chunks.length ≤ MAX_FRAME_SHARDS) {i : Nat} {chunk : List UInt8}
    (hi : chunks[i]? = some chunk) :
    let out := d.feed (p.packet frameIndex timestamp90khz isKeyframe chunks.length i chunk)
    (¬AllSeen chunks (i :: seen) → out.1 = none ∧ Holds frameIndex chunks (i :: seen) out.2) ∧
    (AllSeen chunks (i :: seen) →
      out.1 = some ⟨frameIndex, isKeyframe, chunks.flatten⟩ ∧
        Holds frameIndex chunks [] out.2) := by
  intro out
  obtain ⟨hread, hpayload⟩ :=
    @readFvpHeader_packet p frameIndex timestamp90khz isKeyframe chunks.length i chunk
  obtain ⟨hlt, -⟩ := List.getElem?_eq_some_iff.mp hi
  have hle : chunks.length ≤ 65535 := hmax.trans (by decide)
  obtain ⟨hindex, hcount⟩ := @header_toNat frameIndex isKeyframe _ _ hlt hle
  have hvalid := @header_isValid frameIndex isKeyframe _ _ hlt hle
  obtain ⟨marker, hout⟩ := feed_of_valid d hread (hvalid.trans (decide_eq_true hmax))
  rw [hpayload, h.frameFor rfl hcount] at hout
  simp only [RtpDepacketizer.store, hindex, length_slots, hlt, if_true, set_slots hi,
    header_isKeyframe] at hout
  have hheader : (RtpPacketizer.header frameIndex isKeyframe chunks.length i).frameIndex =
      frameIndex := rfl
  constructor
  · intro hmissing
    have hfew : (((slots chunks (i :: seen)).filter Option.isSome).length ==
        chunks.length) = false := by
      have hlt := length_filter_slots hmissing
      rw [beq_eq_false_iff_ne]
      omega
    rw [hfew, Bool.and_false] at hout
    change out = _ at hout
    rw [hout]
    exact ⟨rfl, Or.inr rfl⟩
  · intro hseen
    rw [slots_of_allSeen hseen] at hout
    have hall : (chunks.map some).all Option.isSome = true := by simp
    have hfilter : (chunks.map some).filter Option.isSome = chunks.map some := by
      rw [List.filter_eq_self]
      simp
    have hdata : (chunks.map some).filterMap id = chunks := by simp
    rw [hall, hfilter, hdata, List.length_map, Bool.or_true, beq_self_eq_true,
      hheader] at hout
    change out = _ at hout
    rw [hout]
    exact ⟨rfl, Or.inl ⟨rfl, by simp⟩⟩

/-- The packet with chunk `i`. -/
def packetAt (p : RtpPacketizer) (frameIndex timestamp90khz : UInt32) (isKeyframe : Bool)
    (chunks : List (List UInt8)) (i : Nat) : Packet :=
  p.packet frameIndex timestamp90khz isKeyframe chunks.length i (chunks.getD i [])

/-- As long as a packet is missing, nothing comes out. -/
theorem Holds.run
    {seen : List Nat} {d : RtpDepacketizer} (h : Holds frameIndex chunks seen d)
    (hmax : chunks.length ≤ MAX_FRAME_SHARDS) {order : List Nat}
    (horder : ∀ i ∈ order, i < chunks.length) (hmissing : ¬AllSeen chunks (order ++ seen)) :
    let packets := order.map (packetAt p frameIndex timestamp90khz isKeyframe chunks)
    Run.outputs RtpDepacketizer.feed d packets = List.replicate order.length none ∧
      Holds frameIndex chunks (order.reverse ++ seen)
        (Run.final RtpDepacketizer.feed d packets) := by
  induction order generalizing d seen with
  | nil => exact ⟨rfl, h⟩
  | cons i order ih =>
      have hi : chunks[i]? = some (chunks.getD i []) := by
        have hlt := horder i List.mem_cons_self
        simp [hlt]
      have hnot : ¬AllSeen chunks (i :: seen) := by
        intro hall
        refine hmissing fun j hj => ?_
        have hmem := hall j hj
        simp only [List.cons_append, List.mem_cons, List.mem_append] at hmem ⊢
        tauto
      obtain ⟨hout, hnext⟩ :=
        (@Holds.feed p chunks frameIndex timestamp90khz isKeyframe _ _ h hmax _ _ hi).1 hnot
      have hrest : ¬AllSeen chunks (order ++ i :: seen) := by
        intro hall
        refine hmissing fun j hj => ?_
        have hmem := hall j hj
        simp only [List.cons_append, List.mem_cons, List.mem_append] at hmem ⊢
        tauto
      obtain ⟨houts, hfinal⟩ := ih hnext (fun j hj => horder j (List.mem_cons_of_mem i hj)) hrest
      refine ⟨?_, ?_⟩
      · rw [List.map_cons, Run.outputs_cons, List.length_cons, List.replicate_succ]
        exact congrArg₂ List.cons hout houts
      · rw [List.reverse_cons, List.append_assoc]
        exact hfinal

end Frame

/-! ### Deliveries -/

/--
Packets of one frame in any order: `last` is the last one to come for the first
time, others may have come before more than once, and what comes after is not the
whole frame again.
-/
structure Delivery (packets before : List Packet) (last : Packet) (after : List Packet) :
    Prop where
  sent : ∀ q ∈ before ++ last :: after, q ∈ packets
  first : last ∉ before
  complete : ∀ q ∈ packets, q ∈ before ++ [last]
  short : ∃ q ∈ packets, q ∉ after

/-- Every delivery to a fresh receiver yields the frame once, with the last packet. -/
def RoundTrips (packets : List Packet) (frame : ReassembledFrame) : Prop :=
  ∀ before last after, Delivery packets before last after →
    Run.outputs RtpDepacketizer.feed {} (before ++ last :: after) =
      List.replicate before.length none ++ some frame :: List.replicate after.length none

section Deliveries

variable (p : RtpPacketizer) (frameIndex timestamp90khz : UInt32) (isKeyframe : Bool)
  (chunks : List (List UInt8))

theorem mapIdx_packet :
    (chunks.mapIdx fun i chunk =>
        p.packet frameIndex timestamp90khz isKeyframe chunks.length i chunk) =
      (List.range chunks.length).map
        (packetAt p frameIndex timestamp90khz isKeyframe chunks) := by
  refine List.ext_getElem? fun i => ?_
  rw [List.getElem?_mapIdx, List.getElem?_map]
  by_cases hi : i < chunks.length
  · rw [List.getElem?_range hi]
    simp [packetAt, hi]
  · rw [List.getElem?_eq_none (by omega), List.getElem?_eq_none (by simpa using hi)]
    rfl

theorem packetAt_injective
    (hmax : chunks.length ≤ 65535) {i j : Nat} (hi : i < chunks.length)
    (hj : j < chunks.length)
    (h : packetAt p frameIndex timestamp90khz isKeyframe chunks i =
      packetAt p frameIndex timestamp90khz isKeyframe chunks j) :
    i = j := by
  have hread : some (RtpPacketizer.header frameIndex isKeyframe chunks.length i) =
      some (RtpPacketizer.header frameIndex isKeyframe chunks.length j) := by
    rw [← (readFvpHeader_packet _ i _).1, ← (readFvpHeader_packet _ j _).1]
    exact congrArg readFvpHeader h
  have hindex : (RtpPacketizer.header frameIndex isKeyframe chunks.length i).shardIndex.toNat =
      (RtpPacketizer.header frameIndex isKeyframe chunks.length j).shardIndex.toNat :=
    congrArg (fun hdr : FvpHeader => hdr.shardIndex.toNat) (Option.some.inj hread)
  rwa [(header_toNat hi hmax).1, (header_toNat hj hmax).1] at hindex

theorem exists_order
    {fed : List Packet}
    (h : ∀ q ∈ fed, q ∈ (List.range chunks.length).map
      (packetAt p frameIndex timestamp90khz isKeyframe chunks)) :
    ∃ order : List Nat, (∀ i ∈ order, i < chunks.length) ∧
      fed = order.map (packetAt p frameIndex timestamp90khz isKeyframe chunks) := by
  induction fed with
  | nil => exact ⟨[], by simp, rfl⟩
  | cons q fed ih =>
      obtain ⟨order, horder, rfl⟩ := ih fun r hr => h r (List.mem_cons_of_mem q hr)
      obtain ⟨i, hi, rfl⟩ := List.mem_map.mp (h q List.mem_cons_self)
      refine ⟨i :: order, ?_, rfl⟩
      intro j hj
      rcases List.mem_cons.mp hj with rfl | hj
      · exact List.mem_range.mp hi
      · exact horder j hj

/-- Within the receiver's limit every delivery succeeds. -/
theorem roundTrips_of_small
    (hmax : chunks.length ≤ MAX_FRAME_SHARDS) :
    RoundTrips
      ((List.range chunks.length).map (packetAt p frameIndex timestamp90khz isKeyframe chunks))
      ⟨frameIndex, isKeyframe, chunks.flatten⟩ := by
  intro before last after hdelivery
  have hle : chunks.length ≤ 65535 := hmax.trans (by decide)
  obtain ⟨hsent, hfirst, hcomplete, hshort⟩ := hdelivery
  obtain ⟨order, horder, rfl⟩ := exists_order p frameIndex timestamp90khz isKeyframe chunks
    fun q hq => hsent q (List.mem_append_left _ hq)
  obtain ⟨rest, hrest, rfl⟩ := exists_order p frameIndex timestamp90khz isKeyframe chunks
    fun q hq => hsent q (List.mem_append_right _ (List.mem_cons_of_mem last hq))
  obtain ⟨i, hi, rfl⟩ := List.mem_map.mp
    (hsent last (List.mem_append_right _ List.mem_cons_self))
  rw [List.mem_range] at hi
  -- without `last` a chunk is missing
  have hmissing : ¬AllSeen chunks (order ++ []) := by
    intro hall
    refine hfirst (List.mem_map_of_mem ?_)
    simpa using hall i hi
  have hstart : Holds frameIndex chunks [] {} := Or.inl ⟨rfl, by simp⟩
  obtain ⟨hbefore, hheld⟩ :=
    @Holds.run p chunks frameIndex timestamp90khz isKeyframe _ _ hstart hmax _ horder hmissing
  -- with it there is none
  have hall : AllSeen chunks (i :: (order.reverse ++ [])) := by
    intro j hj
    have hmem := hcomplete _ (List.mem_map_of_mem (List.mem_range.mpr hj))
    rcases List.mem_append.mp hmem with hmem | hmem
    · obtain ⟨k, hk, hsame⟩ := List.mem_map.mp hmem
      have hkj := packetAt_injective p frameIndex timestamp90khz isKeyframe chunks hle
        (horder k hk) hj hsame
      simp [← hkj, hk]
    · have hij := packetAt_injective p frameIndex timestamp90khz isKeyframe chunks hle
        hj hi (List.mem_singleton.mp hmem)
      simp [hij]
  have hchunk : chunks[i]? = some (chunks.getD i []) := by simp [hi]
  obtain ⟨hlast, hreset⟩ :=
    (@Holds.feed p chunks frameIndex timestamp90khz isKeyframe _ _ hheld hmax _ _ hchunk).2 hall
  -- the frame does not come back
  have hagain : ¬AllSeen chunks (rest ++ []) := by
    intro hall
    obtain ⟨q, hq, hnot⟩ := hshort
    obtain ⟨j, hj, rfl⟩ := List.mem_map.mp hq
    refine hnot (List.mem_map_of_mem ?_)
    simpa using hall j (List.mem_range.mp hj)
  obtain ⟨hafter, -⟩ :=
    @Holds.run p chunks frameIndex timestamp90khz isKeyframe _ _ hreset hmax _ hrest hagain
  rw [Run.outputs_append, hbefore, Run.outputs_cons, List.length_map, List.length_map]
  exact congrArg _ (congrArg₂ List.cons hlast hafter)

/-- A receiver never takes a packet of a larger frame. -/
theorem feed_large
    (hmax : ¬chunks.length ≤ MAX_FRAME_SHARDS) (hle : chunks.length ≤ 65535) {i : Nat}
    (hi : i < chunks.length) (d : RtpDepacketizer) :
    d.feed (packetAt p frameIndex timestamp90khz isKeyframe chunks i) = (none, d) := by
  have hvalid := @header_isValid frameIndex isKeyframe _ _ hi hle
  rw [decide_eq_false hmax] at hvalid
  simp only [RtpDepacketizer.feed, packetAt, (readFvpHeader_packet _ i _).1, hvalid]
  rfl

theorem outputs_large
    (hmax : ¬chunks.length ≤ MAX_FRAME_SHARDS) (hle : chunks.length ≤ 65535)
    {order : List Nat} (horder : ∀ i ∈ order, i < chunks.length) (d : RtpDepacketizer) :
    Run.outputs RtpDepacketizer.feed d
        (order.map (packetAt p frameIndex timestamp90khz isKeyframe chunks)) =
      List.replicate order.length none := by
  induction order with
  | nil => rfl
  | cons i order ih =>
      have hfeed := feed_large p frameIndex timestamp90khz isKeyframe chunks hmax hle
        (horder i List.mem_cons_self) d
      rw [List.map_cons, Run.outputs_cons, hfeed,
        ih fun j hj => horder j (List.mem_cons_of_mem i hj)]
      rfl

/-- The packets in order are a delivery. -/
theorem delivery_inOrder
    (hle : chunks.length ≤ 65535) {n : Nat} (hn : chunks.length = n + 1) :
    Delivery
      ((List.range chunks.length).map (packetAt p frameIndex timestamp90khz isKeyframe chunks))
      ((List.range n).map (packetAt p frameIndex timestamp90khz isKeyframe chunks))
      (packetAt p frameIndex timestamp90khz isKeyframe chunks n) [] := by
  have hsplit : (List.range chunks.length).map
        (packetAt p frameIndex timestamp90khz isKeyframe chunks) =
      (List.range n).map (packetAt p frameIndex timestamp90khz isKeyframe chunks) ++
        [packetAt p frameIndex timestamp90khz isKeyframe chunks n] := by
    rw [hn, List.range_succ, List.map_append]
    rfl
  refine ⟨fun q hq => hsplit ▸ hq, ?_, fun q hq => hsplit ▸ hq, ?_⟩
  · intro hmem
    obtain ⟨i, hi, hsame⟩ := List.mem_map.mp hmem
    rw [List.mem_range] at hi
    have hin := packetAt_injective p frameIndex timestamp90khz isKeyframe chunks hle
      (by omega) (by omega) hsame
    omega
  · exact ⟨_, List.mem_map_of_mem (List.mem_range.mpr (show n < chunks.length by omega)), by simp⟩

/-- Beyond the limit even the packets in order yield nothing. -/
theorem not_roundTrips_of_large
    (hmax : ¬chunks.length ≤ MAX_FRAME_SHARDS) (hle : chunks.length ≤ 65535)
    (frame : ReassembledFrame) :
    ¬RoundTrips
      ((List.range chunks.length).map (packetAt p frameIndex timestamp90khz isKeyframe chunks))
      frame := by
  intro hround
  obtain ⟨n, hn⟩ := Nat.exists_eq_succ_of_ne_zero (n := chunks.length) (by omega)
  have hout := hround _ _ _ (delivery_inOrder p frameIndex timestamp90khz isKeyframe chunks hle hn)
  have hsplit : (List.range n).map (packetAt p frameIndex timestamp90khz isKeyframe chunks) ++
        [packetAt p frameIndex timestamp90khz isKeyframe chunks n] =
      (List.range (n + 1)).map (packetAt p frameIndex timestamp90khz isKeyframe chunks) := by
    rw [List.range_succ, List.map_append]
    rfl
  rw [hsplit, outputs_large p frameIndex timestamp90khz isKeyframe chunks hmax hle
    fun i hi => by rw [hn]; exact List.mem_range.mp hi] at hout
  have hmem : some frame ∈ List.replicate (List.range (n + 1)).length none := by
    rw [hout]
    simp
  exact absurd (List.eq_of_mem_replicate hmem) (by simp)

end Deliveries

/-! ### Frames -/

theorem length_chunks_le_iff
    (frameData : List UInt8) (k : Nat) :
    (Bytes.chunks MAX_PAYLOAD frameData).length ≤ k ↔ frameData.length ≤ k * MAX_PAYLOAD := by
  rw [length_chunks]
  exact ceilDiv_le_iff (by decide)

/-- A frame that is not dropped becomes one packet for each chunk. -/
theorem packetize_packets
    (p : RtpPacketizer) {frameData : List UInt8} (frameIndex timestamp90khz : UInt32)
    (isKeyframe : Bool) (hdata : frameData ≠ [])
    (hle : (Bytes.chunks MAX_PAYLOAD frameData).length ≤ 65535) :
    (p.packetize frameData frameIndex timestamp90khz isKeyframe).1 =
      (List.range (Bytes.chunks MAX_PAYLOAD frameData).length).map
        (packetAt p frameIndex timestamp90khz isKeyframe (Bytes.chunks MAX_PAYLOAD frameData)) := by
  rw [← mapIdx_packet, RtpPacketizer.packetize, if_neg hdata]
  simp only
  rw [if_neg (by omega)]

/-- Dropped are the empty frame and those with too many packets for an index. -/
theorem packetize_dropped
    (p : RtpPacketizer) (frameData : List UInt8) (frameIndex timestamp90khz : UInt32)
    (isKeyframe : Bool)
    (h : (p.packetize frameData frameIndex timestamp90khz isKeyframe).1 ≠ []) :
    frameData ≠ [] ∧ (Bytes.chunks MAX_PAYLOAD frameData).length ≤ 65535 := by
  unfold RtpPacketizer.packetize at h
  simp only at h
  split_ifs at h with hdata hlarge
  · exact absurd rfl h
  · exact absurd rfl h
  · exact ⟨hdata, by omega⟩

/--
**RTP round trip.**  The packets of a frame that `packetize` does not drop come
back as that frame from every delivery, if and only if they are not more than
receivers take: up to `MAX_FRAME_SHARDS * MAX_PAYLOAD` bytes.
-/
theorem packetize_roundTrips_iff
    (p : RtpPacketizer) (frameData : List UInt8) (frameIndex timestamp90khz : UInt32)
    (isKeyframe : Bool)
    (h : (p.packetize frameData frameIndex timestamp90khz isKeyframe).1 ≠ []) :
    RoundTrips (p.packetize frameData frameIndex timestamp90khz isKeyframe).1
        ⟨frameIndex, isKeyframe, frameData⟩ ↔
      frameData.length ≤ MAX_FRAME_SHARDS * MAX_PAYLOAD := by
  obtain ⟨hdata, hle⟩ := packetize_dropped p frameData frameIndex timestamp90khz isKeyframe h
  rw [packetize_packets p frameIndex timestamp90khz isKeyframe hdata hle,
    ← length_chunks_le_iff]
  constructor
  · intro hround
    by_contra hmax
    exact not_roundTrips_of_large p frameIndex timestamp90khz isKeyframe _ hmax hle _ hround
  · intro hmax
    have hround := roundTrips_of_small p frameIndex timestamp90khz isKeyframe _ hmax
    rwa [flatten_chunks (by decide)] at hround

/-- A frame of three packets, at the end of the sequence numbers. -/
theorem packetize_roundTrips_three :
    let frameData : List UInt8 := List.replicate (2 * MAX_PAYLOAD + 1) 5
    let packets := ((RtpPacketizer.mk 1 65535).packetize frameData 7 9000 true).1
    packets.length = 3 ∧ RoundTrips packets ⟨7, true, frameData⟩ := by
  intro frameData packets
  have hlength : frameData.length = 2 * MAX_PAYLOAD + 1 := List.length_replicate
  have hchunks : (Bytes.chunks MAX_PAYLOAD frameData).length = 3 := by
    rw [Bytes.length_chunks, hlength]
    decide
  have hdata : frameData ≠ [] := by
    intro hnil
    rw [hnil] at hlength
    exact absurd hlength (by decide)
  have hpackets : packets.length = 3 := by
    simp only [packets]
    rw [packetize_packets (RtpPacketizer.mk 1 65535) 7 9000 true hdata (by omega),
      List.length_map, List.length_range, hchunks]
  refine ⟨hpackets, (packetize_roundTrips_iff (RtpPacketizer.mk 1 65535) frameData 7 9000 true
    ?_).mpr ?_⟩
  · intro hnil
    simp only [packets, hnil, List.length_nil] at hpackets
    exact absurd hpackets (by decide)
  · rw [hlength]
    decide

/-- One byte more than receivers take. -/
def hugeFrame : List UInt8 :=
  List.replicate (MAX_FRAME_SHARDS * MAX_PAYLOAD + 1) 0

theorem hugeFrame_not_roundTrips :
    ((RtpPacketizer.mk 1 0).packetize hugeFrame 7 9000 true).1 ≠ [] ∧
      ¬RoundTrips ((RtpPacketizer.mk 1 0).packetize hugeFrame 7 9000 true).1
        ⟨7, true, hugeFrame⟩ := by
  have hlength : hugeFrame.length = MAX_FRAME_SHARDS * MAX_PAYLOAD + 1 := List.length_replicate
  have hdata : hugeFrame ≠ [] := by
    intro hnil
    rw [hnil] at hlength
    exact absurd hlength (by decide)
  have hle : (Bytes.chunks MAX_PAYLOAD hugeFrame).length ≤ 65535 := by
    rw [length_chunks_le_iff, hlength]
    decide
  have hmax : ¬(Bytes.chunks MAX_PAYLOAD hugeFrame).length ≤ MAX_FRAME_SHARDS := by
    rw [length_chunks_le_iff, hlength]
    omega
  rw [packetize_packets (RtpPacketizer.mk 1 0) 7 9000 true hdata hle]
  refine ⟨?_, not_roundTrips_of_large _ 7 9000 true _ hmax hle _⟩
  intro hnil
  have hzero := congrArg List.length hnil
  rw [List.length_map, List.length_range, List.length_nil] at hzero
  omega

end Engine
end FocusVision
