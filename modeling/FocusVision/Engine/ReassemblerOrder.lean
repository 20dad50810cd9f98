import FocusVision.Engine.FecEndToEnd

/-!
# The frames of a session

`FecFrameReassembler` keeps one pending frame and replaces it at every packet of
another index, older ones included.  So a late packet of an older frame throws
away the shards of a newer one, and can make the reassembler return the older
frame again.

As long as no packet is older than the pending frame, every frame is returned at
most once, and whenever enough shards of it arrive while it is the newest.
-/

namespace FocusVision
namespace Engine

variable {crate : RsCrate}

/-- A frame of a session, with the packets that `encode` gave for it. -/
structure EncodedFrame where
  frameIndex : UInt32
  isKeyframe : Bool
  layout : FecLayout
  frameData : List UInt8
  batches : List (List Packet)

namespace EncodedFrame

def packets (frame : EncodedFrame) : List Packet :=
  frame.batches.flatten

/-- What a receiver should return for the frame. -/
def result (frame : EncodedFrame) : ReassembledFrame :=
  ⟨frame.frameIndex, frame.isKeyframe, receivedData frame.layout frame.frameData⟩

end EncodedFrame

/-- The frames that a session encodes. -/
def FrameFecEncoder.session (enc : FrameFecEncoder crate) : List Call → List EncodedFrame
  | [] => []
  | .setRedundancy redundancy :: calls => (enc.setRedundancy redundancy).session calls
  | .encode frameData frameIndex timestamp isKeyframe sequence :: calls =>
      let (batches, enc', _) :=
        enc.encode frameData frameIndex timestamp isKeyframe sequence
      { frameIndex, isKeyframe, layout := enc.layout frameData, frameData, batches } ::
        enc'.session calls

/-- The frame index in the header of a packet. -/
def packetIndex (packet : Packet) : UInt32 :=
  match readFvpHeader packet with
  | some hdr => hdr.frameIndex
  | none => 0

/-- The packets are packets of the session. -/
def DrawnFrom (session : List EncodedFrame) (packets : List Packet) : Prop :=
  ∀ p ∈ packets, ∃ frame ∈ session, p ∈ frame.packets

/--
No frame index is returned twice.  A frame is returned as soon as enough of its
shards came, if no newer frame superseded it before.
-/
structure ProducesOnce (crate : RsCrate) (session : List EncodedFrame)
    (packets : List Packet) : Prop where
  once : ((FecFrameReassembler.frames crate FecFrameReassembler.new packets).map
    fun out => out.frameIndex).Nodup
  newest : ∀ frame ∈ session, frame.batches ≠ [] → ∀ before after : List Packet,
    packets = before ++ after → (∀ p ∈ before, packetIndex p ≤ frame.frameIndex) →
    EnoughShards frame.batches before →
    frame.result ∈ FecFrameReassembler.frames crate FecFrameReassembler.new before

/-- The packet is not older than the pending frame. -/
def NotOlder (r : FecFrameReassembler) (packet : Packet) : Prop :=
  ∀ frame, r.frame = some frame → frame.frameIndex ≤ packetIndex packet

/-! ### Sessions -/

theorem session_sentAs
    (hcrate : crate.Correct) {enc : FrameFecEncoder crate} (henc : enc.Ok)
    (calls : List FrameFecEncoder.Call) :
    ∀ frame ∈ enc.session calls, frame.batches = [] ∨
      ∃ sent : SentFrame crate, sent.SentAs frame.batches ∧ sent.result = frame.result := by
  induction calls generalizing enc with
  | nil => simp [FrameFecEncoder.session]
  | cons call calls ih =>
      cases call with
      | setRedundancy redundancy => exact ih (henc.setRedundancy redundancy)
      | encode frameData frameIndex timestamp isKeyframe sequence =>
          intro frame hframe
          rcases List.mem_cons.mp hframe with rfl | hframe
          · exact FrameFecEncoder.encode_cases hcrate henc frameData frameIndex timestamp
              isKeyframe sequence
          · exact ih (henc.encode frameData frameIndex timestamp isKeyframe sequence)
              frame hframe

/-- Frames of increasing indices are told apart by their index. -/
theorem eq_of_frameIndex_eq
    {session : List EncodedFrame}
    (hincreasing : (session.map fun frame => frame.frameIndex).Pairwise (· < ·))
    {a b : EncodedFrame} (ha : a ∈ session) (hb : b ∈ session)
    (hab : a.frameIndex = b.frameIndex) :
    a = b := by
  rw [List.pairwise_map] at hincreasing
  have h := List.pairwise_iff_getElem.mp hincreasing
  by_contra hne
  obtain ⟨i, hi, rfl⟩ := List.getElem_of_mem ha
  obtain ⟨j, hj, rfl⟩ := List.getElem_of_mem hb
  rcases Nat.lt_trichotomy i j with hlt | heq | hgt
  · exact absurd hab (UInt32.ne_of_lt (h i j hi hj hlt))
  · subst heq
    exact hne rfl
  · exact absurd hab.symm (UInt32.ne_of_lt (h j i hj hi hgt))

theorem SentFrame.Carries.packetIndex_eq
    {sent : SentFrame crate} {g i : Nat} {packet : Packet} (h : sent.Carries g i packet) :
    packetIndex packet = sent.frameIndex := by
  obtain ⟨word, -, hheader, -⟩ := h.word
  unfold packetIndex
  rw [hheader]
  rfl

theorem SentFrame.SentAs.packetIndex_eq
    {sent : SentFrame crate} {frame : EncodedFrame} (h : sent.SentAs frame.batches)
    (hresult : sent.result = frame.result) {packet : Packet}
    (hpacket : packet ∈ frame.packets) :
    packetIndex packet = frame.frameIndex := by
  obtain ⟨g, i, word, batch, hword, hbatch, hi⟩ := h.sends hpacket
  rw [(h.carries hword hbatch hi).packetIndex_eq]
  exact congrArg ReassembledFrame.frameIndex hresult

/-! ### The newest frame -/

/-- What is left of the packets so far: the shards of the newest frame. -/
structure Newest (frame : EncodedFrame) (sent : SentFrame crate) (packets : List Packet)
    (outs : List ReassembledFrame) (r : FecFrameReassembler) : Prop where
  sentAs : sent.SentAs frame.batches
  result : sent.result = frame.result
  state : Fed sent (seenIn (packets.filter fun p => p ∈ frame.packets)) r ∨
    OtherFrame sent r ∧ seenIn (packets.filter fun p => p ∈ frame.packets) = fun _ => ∅
  packets_le : ∀ p ∈ packets, packetIndex p ≤ frame.frameIndex
  nodup : (outs.map fun out => out.frameIndex).Nodup
  outs_le : ∀ out ∈ outs, out.frameIndex ≤ frame.frameIndex
  incomplete : ¬ sent.Complete (seenIn (packets.filter fun p => p ∈ frame.packets)) →
    ∀ out ∈ outs, out.frameIndex < frame.frameIndex
  complete : sent.Complete (seenIn (packets.filter fun p => p ∈ frame.packets)) →
    frame.result ∈ outs

section Newest

variable {frame : EncodedFrame} {sent : SentFrame crate} {packets : List Packet}
variable {outs : List ReassembledFrame} {r : FecFrameReassembler}

theorem not_complete_empty
    (sent : SentFrame crate) :
    ¬ sent.Complete fun _ => ∅ := by
  intro h
  obtain ⟨word, hword⟩ : ∃ word, sent.words[0]? = some word :=
    ⟨_, List.getElem?_eq_getElem sent.length_pos⟩
  have hle := h 0 word hword
  have hpos := word.dataCount_pos
  rw [Finset.card_empty] at hle
  omega

/-- A frame that is newer than all packets so far. -/
theorem Newest.start
    (hsent : sent.SentAs frame.batches) (hresult : sent.result = frame.result)
    (hother : OtherFrame sent r) (hpackets : ∀ p ∈ packets, packetIndex p < frame.frameIndex)
    (hnodup : (outs.map fun out => out.frameIndex).Nodup)
    (houts : ∀ out ∈ outs, out.frameIndex < frame.frameIndex) :
    Newest frame sent packets outs r := by
  have hnone : packets.filter (fun p => p ∈ frame.packets) = [] := by
    rw [List.filter_eq_nil_iff]
    intro p hp hmem
    have hindex := hsent.packetIndex_eq hresult (of_decide_eq_true hmem)
    exact absurd hindex (UInt32.ne_of_lt (hpackets p hp))
  have hseen : seenIn (packets.filter fun p => p ∈ frame.packets) = fun _ => ∅ := by
    rw [hnone, seenIn_nil]
  exact
    { sentAs := hsent
      result := hresult
      state := Or.inr ⟨hother, hseen⟩
      packets_le := fun p hp => UInt32.le_of_lt (hpackets p hp)
      nodup := hnodup
      outs_le := fun out hout => UInt32.le_of_lt (houts out hout)
      incomplete := fun _ => houts
      complete := fun h => by
        rw [hseen] at h
        exact absurd h (not_complete_empty sent) }

/-- One more packet of the newest frame. -/
theorem Newest.step
    (h : Newest frame sent packets outs r) {packet : Packet}
    (hpacket : packet ∈ frame.packets) :
    Newest frame sent (packets ++ [packet])
        (outs ++ (FecFrameReassembler.feed crate r packet).1.toList)
        (FecFrameReassembler.feed crate r packet).2 ∧
      Fed sent (seenIn ((packets ++ [packet]).filter fun p => p ∈ frame.packets))
        (FecFrameReassembler.feed crate r packet).2 := by
  obtain ⟨g, i, word, batch, hword, hbatch, hi⟩ := h.sentAs.sends hpacket
  have hcarries := h.sentAs.carries hword hbatch hi
  obtain ⟨hfed, hanswer⟩ := feed_carries h.state hcarries
  have hfilter : (packets ++ [packet]).filter (fun p => p ∈ frame.packets) =
      packets.filter (fun p => p ∈ frame.packets) ++ [packet] := by
    rw [List.filter_append, List.filter_singleton, decide_eq_true hpacket]
    rfl
  have hseen : seenIn ((packets ++ [packet]).filter fun p => p ∈ frame.packets) =
      addSeen (seenIn (packets.filter fun p => p ∈ frame.packets)) g i := by
    rw [hfilter, seenIn_append_singleton, hcarries.position_eq]
  have hindex := h.sentAs.packetIndex_eq h.result hpacket
  have hresultIndex : sent.result.frameIndex = frame.frameIndex := by
    rw [h.result]
    rfl
  rw [← hseen] at hfed hanswer
  refine ⟨?_, hfed⟩
  have hpackets : ∀ p ∈ packets ++ [packet], packetIndex p ≤ frame.frameIndex := by
    intro p hp
    rcases List.mem_append.mp hp with hp | hp
    · exact h.packets_le p hp
    · rw [List.mem_singleton.mp hp, hindex]
      exact UInt32.le_refl _
  by_cases hbefore : sent.Complete (seenIn (packets.filter fun p => p ∈ frame.packets))
  · -- the frame is out already
    rw [hanswer.before hbefore, Option.toList_none, List.append_nil]
    exact
      { sentAs := h.sentAs
        result := h.result
        state := Or.inl hfed
        packets_le := hpackets
        nodup := h.nodup
        outs_le := h.outs_le
        incomplete := fun hnot => by
          rw [hseen] at hnot
          exact absurd (hbefore.addSeen g i) hnot
        complete := fun _ => h.complete hbefore }
  · by_cases hafter :
        sent.Complete (seenIn ((packets ++ [packet]).filter fun p => p ∈ frame.packets))
    · -- this packet completes it
      have hlt := h.incomplete hbefore
      rw [hanswer.completes hbefore hafter, Option.toList_some]
      exact
        { sentAs := h.sentAs
          result := h.result
          state := Or.inl hfed
          packets_le := hpackets
          nodup := by
            rw [List.map_append, List.map_singleton, List.nodup_append]
            refine ⟨h.nodup, List.nodup_singleton _, ?_⟩
            intro a ha b hb
            obtain ⟨out, hout, rfl⟩ := List.mem_map.mp ha
            rw [List.mem_singleton.mp hb, hresultIndex]
            exact UInt32.ne_of_lt (hlt out hout)
          outs_le := by
            intro out hout
            rcases List.mem_append.mp hout with hout | hout
            · exact h.outs_le out hout
            · rw [List.mem_singleton.mp hout, hresultIndex]
              exact UInt32.le_refl _
          incomplete := fun hnot => absurd hafter hnot
          complete := fun _ => by
            rw [h.result]
            exact List.mem_append_right _ (List.mem_singleton_self _) }
    · rw [hanswer.pending hafter, Option.toList_none, List.append_nil]
      exact
        { sentAs := h.sentAs
          result := h.result
          state := Or.inl hfed
          packets_le := hpackets
          nodup := h.nodup
          outs_le := h.outs_le
          incomplete := fun _ => h.incomplete hbefore
          complete := fun hcomplete => absurd hcomplete hafter }

end Newest

/-! ### Runs without older packets -/

/-- At every step of the run the packet is not older than the pending frame. -/
def InOrder (crate : RsCrate) (packets : List Packet) : Prop :=
  ∀ (before : List Packet) (packet : Packet) (after : List Packet),
    packets = before ++ packet :: after →
    NotOlder (Run.final (FecFrameReassembler.feed crate) FecFrameReassembler.new before) packet

section Session

variable {session : List EncodedFrame}

/-- The frames of a session are sent frames, with increasing indices. -/
structure SessionOk (crate : RsCrate) (session : List EncodedFrame) : Prop where
  increasing : (session.map fun frame => frame.frameIndex).Pairwise (· < ·)
  sentAs : ∀ frame ∈ session, frame.batches = [] ∨
    ∃ sent : SentFrame crate, sent.SentAs frame.batches ∧ sent.result = frame.result

theorem SessionOk.exists_sent
    (h : SessionOk crate session) {frame : EncodedFrame} (hframe : frame ∈ session)
    (hne : frame.batches ≠ []) :
    ∃ sent : SentFrame crate, sent.SentAs frame.batches ∧ sent.result = frame.result := by
  rcases h.sentAs frame hframe with hnil | hsent
  · exact absurd hnil hne
  · exact hsent

theorem InOrder.of_append
    {before after : List Packet} (h : InOrder crate (before ++ after)) :
    InOrder crate before := by
  intro first packet rest hsplit
  refine h first packet (rest ++ after) ?_
  rw [hsplit, List.append_assoc, List.cons_append]

/-- After a run in order, one frame of the session is the newest. -/
theorem newest_run
    (hsession : SessionOk crate session) {packets : List Packet} (hne : packets ≠ [])
    (hdrawn : DrawnFrom session packets) (horder : InOrder crate packets) :
    ∃ frame ∈ session, ∃ sent : SentFrame crate,
      Newest frame sent packets
        (FecFrameReassembler.frames crate FecFrameReassembler.new packets)
        (Run.final (FecFrameReassembler.feed crate) FecFrameReassembler.new packets) ∧
      Fed sent (seenIn (packets.filter fun p => p ∈ frame.packets))
        (Run.final (FecFrameReassembler.feed crate) FecFrameReassembler.new packets) ∧
      ∃ p ∈ packets, p ∈ frame.packets := by
  induction packets using List.reverseRecOn with
  | nil => exact absurd rfl hne
  | append_singleton packets packet ih =>
      obtain ⟨frame, hframe, hpacket⟩ := hdrawn packet (by simp)
      have hbatches : frame.batches ≠ [] := by
        intro hnil
        rw [EncodedFrame.packets, hnil] at hpacket
        exact absurd hpacket (by simp)
      have hfinal : Run.final (FecFrameReassembler.feed crate) FecFrameReassembler.new
          (packets ++ [packet]) =
        (FecFrameReassembler.feed crate (Run.final (FecFrameReassembler.feed crate)
          FecFrameReassembler.new packets) packet).2 := by
        rw [Run.final_append]
        rfl
      have houts : FecFrameReassembler.frames crate FecFrameReassembler.new
          (packets ++ [packet]) =
        FecFrameReassembler.frames crate FecFrameReassembler.new packets ++
          (FecFrameReassembler.feed crate (Run.final (FecFrameReassembler.feed crate)
            FecFrameReassembler.new packets) packet).1.toList := by
        unfold FecFrameReassembler.frames
        rw [Run.emitted_append, Run.emitted_cons, Run.emitted_nil, List.append_nil]
      suffices hnewest : ∃ sent : SentFrame crate,
          Newest frame sent packets
            (FecFrameReassembler.frames crate FecFrameReassembler.new packets)
            (Run.final (FecFrameReassembler.feed crate) FecFrameReassembler.new packets) by
        obtain ⟨sent, hnewest⟩ := hnewest
        obtain ⟨hnext, hfed⟩ := hnewest.step hpacket
        rw [hfinal, houts]
        exact ⟨frame, hframe, sent, hnext, hfed, packet, by simp, hpacket⟩
      obtain ⟨sent, hsent, hresult⟩ := hsession.exists_sent hframe hbatches
      cases packets with
      | nil =>
          refine ⟨sent, Newest.start hsent hresult ?_ (by simp) List.nodup_nil (by simp)⟩
          intro pending hpending
          exact absurd hpending (by simp [FecFrameReassembler.new])
      | cons first rest =>
          obtain ⟨old, hold, oldSent, holdNewest, ⟨pending, hpending, hreceiving⟩, -⟩ :=
            ih (by simp) (fun p hp => hdrawn p (List.mem_append_left _ hp)) horder.of_append
          have hpendingIndex : pending.frameIndex = old.frameIndex := by
            rw [hreceiving.frameIndex]
            exact congrArg ReassembledFrame.frameIndex holdNewest.result
          have hle := horder (first :: rest) packet [] rfl pending hpending
          rw [hpendingIndex, hsent.packetIndex_eq hresult hpacket] at hle
          rcases UInt32.lt_or_eq_of_le hle with hlt | heq
          · -- the packet opens a newer frame
            refine ⟨sent, Newest.start hsent hresult ?_ ?_ holdNewest.nodup ?_⟩
            · intro other hother
              rw [hpending] at hother
              cases hother
              rw [hpendingIndex]
              have hindex : sent.frameIndex = frame.frameIndex :=
                congrArg ReassembledFrame.frameIndex hresult
              rw [hindex]
              exact UInt32.ne_of_lt hlt
            · exact fun p hp => UInt32.lt_of_le_of_lt (holdNewest.packets_le p hp) hlt
            · exact fun out hout => UInt32.lt_of_le_of_lt (holdNewest.outs_le out hout) hlt
          · have hsame := eq_of_frameIndex_eq hsession.increasing hold hframe heq
            subst hsame
            exact ⟨oldSent, holdNewest⟩

/-- Only packets of the batches count. -/
theorem enoughShards_filter
    (batches : List (List Packet)) (packets : List Packet) :
    EnoughShards batches (packets.filter fun p => p ∈ batches.flatten) ↔
      EnoughShards batches packets := by
  have hcount : ∀ batch ∈ batches,
      distinctIn batch (packets.filter fun p => p ∈ batches.flatten) =
        distinctIn batch packets := by
    intro batch hbatch
    unfold distinctIn
    congr 1
    ext p
    simp only [Finset.mem_filter, List.mem_toFinset, List.mem_filter, decide_eq_true_eq]
    constructor
    · rintro ⟨⟨hp, -⟩, hmem⟩
      exact ⟨hp, hmem⟩
    · rintro ⟨hp, hmem⟩
      exact ⟨⟨hp, List.mem_flatten_of_mem hbatch hmem⟩, hmem⟩
  constructor
  · intro h batch hbatch
    rw [← hcount batch hbatch]
    exact h batch hbatch
  · intro h batch hbatch
    rw [hcount batch hbatch]
    exact h batch hbatch

theorem SentFrame.SentAs.complete_of_enough
    {sent : SentFrame crate} {frame : EncodedFrame} (h : sent.SentAs frame.batches)
    {packets : List Packet} (henough : EnoughShards frame.batches packets) :
    sent.Complete (seenIn (packets.filter fun p => p ∈ frame.packets)) := by
  rw [← enoughShards_filter] at henough
  exact (h.enough_iff fun p hp => of_decide_eq_true (List.mem_filter.mp hp).2).mp henough

/-- In a run in order every frame is produced once. -/
theorem SessionOk.producesOnce
    (hsession : SessionOk crate session) {packets : List Packet}
    (hdrawn : DrawnFrom session packets) (horder : InOrder crate packets) :
    ProducesOnce crate session packets := by
  constructor
  · cases packets with
    | nil => exact List.nodup_nil
    | cons first rest =>
        obtain ⟨frame, -, sent, hnewest, -⟩ :=
          newest_run hsession (by simp) hdrawn horder
        exact hnewest.nodup
  · intro frame hframe hbatches before after hsplit hle henough
    subst hsplit
    obtain ⟨sent, hsent, hresult⟩ := hsession.exists_sent hframe hbatches
    have hcomplete := hsent.complete_of_enough henough
    cases before with
    | nil => exact absurd hcomplete (not_complete_empty sent)
    | cons first rest =>
        obtain ⟨newest, hmem, newestSent, hnewest, -, p, hp, hpNewest⟩ :=
          newest_run hsession (by simp)
            (fun p hp => hdrawn p (List.mem_append_left _ hp)) horder.of_append
        have hindex := hnewest.sentAs.packetIndex_eq hnewest.result hpNewest
        have hbound := hle p hp
        rw [hindex] at hbound
        rcases UInt32.lt_or_eq_of_le hbound with hlt | heq
        · -- no packet of the frame came yet
          exfalso
          have hnone : (first :: rest).filter (fun p => p ∈ frame.packets) = [] := by
            rw [List.filter_eq_nil_iff]
            intro q hq hmemFrame
            have hq' := hnewest.packets_le q hq
            rw [hsent.packetIndex_eq hresult (of_decide_eq_true hmemFrame)] at hq'
            exact absurd (UInt32.lt_of_lt_of_le hlt hq') (UInt32.lt_irrefl _)
          rw [hnone] at hcomplete
          exact not_complete_empty sent hcomplete
        · have hsame := eq_of_frameIndex_eq hsession.increasing hmem hframe heq
          subst hsame
          exact hnewest.complete (hnewest.sentAs.complete_of_enough henough)

end Session

/-- The pending frame is the frame of an earlier packet. -/
theorem pending_index
    (packets : List Packet) :
    ∀ pending, (Run.final (FecFrameReassembler.feed crate) FecFrameReassembler.new
      packets).frame = some pending → ∃ p ∈ packets, pending.frameIndex = packetIndex p := by
  induction packets using List.reverseRecOn with
  | nil => exact fun pending hpending => absurd hpending (by simp [FecFrameReassembler.new])
  | append_singleton packets packet ih =>
      intro pending hpending
      rw [Run.final_append] at hpending
      rcases FecFrameReassembler.feed_pending hpending with hold | ⟨hdr, hheader, hindex⟩
      · obtain ⟨p, hp, hindex⟩ := ih pending hold
        exact ⟨p, List.mem_append_left _ hp, hindex⟩
      · refine ⟨packet, by simp, ?_⟩
        unfold packetIndex
        rw [hheader]
        exact hindex

/-- Packets that arrive in the order of their frames are never too old. -/
theorem inOrder_of_pairwise
    {packets : List Packet} (h : (packets.map packetIndex).Pairwise (· ≤ ·)) :
    InOrder crate packets := by
  intro before packet after hsplit pending hpending
  obtain ⟨p, hp, hindex⟩ := pending_index before pending hpending
  rw [hsplit, List.map_append, List.pairwise_append] at h
  rw [hindex]
  exact h.2.2 _ (List.mem_map_of_mem hp) _ (by simp)

theorem sessionOk
    (hcrate : crate.Correct) {redundancy : F32} (hunit : UnitInterval redundancy)
    (sliceFecEnabled : Bool) (sliceCount : Nat) (calls : List FrameFecEncoder.Call)
    (hincreasing : (((FrameFecEncoder.new redundancy sliceFecEnabled sliceCount :
      FrameFecEncoder crate).session calls).map fun frame => frame.frameIndex).Pairwise
        (· < ·)) :
    SessionOk crate ((FrameFecEncoder.new redundancy sliceFecEnabled sliceCount :
      FrameFecEncoder crate).session calls) :=
  ⟨hincreasing, session_sentAs hcrate
    (FrameFecEncoder.ok_new hunit sliceFecEnabled sliceCount) calls⟩

/--
A session's packets in any order, with losses and duplicates: if no packet is
older than the frame pending when it arrives, each frame is produced once.
-/
theorem reassembler_in_order
    (hcrate : crate.Correct) {redundancy : F32} (hunit : UnitInterval redundancy)
    (sliceFecEnabled : Bool) (sliceCount : Nat) (calls : List FrameFecEncoder.Call)
    {packets : List Packet} :
    let session := (FrameFecEncoder.new redundancy sliceFecEnabled sliceCount :
      FrameFecEncoder crate).session calls
    (session.map fun frame => frame.frameIndex).Pairwise (· < ·) →
    DrawnFrom session packets → InOrder crate packets →
    ProducesOnce crate session packets := by
  intro session hincreasing hdrawn horder
  exact (sessionOk hcrate hunit sliceFecEnabled sliceCount calls hincreasing).producesOnce
    hdrawn horder

/-! ### An older packet -/

/-- One packet alone: a shard of a bulk frame. -/
theorem complete_single
    (frameIndex : UInt32) (isKeyframe : Bool) (word : CodeWord crate) (i : Nat) :
    (SentFrame.single frameIndex isKeyframe word).Complete (addSeen (fun _ => ∅) 0 i) ↔
      word.dataCount ≤ 1 := by
  constructor
  · intro h
    simpa [addSeen] using h 0 word rfl
  · intro hle g word' hword
    cases g with
    | zero =>
        simp only [SentFrame.single, List.getElem?_cons_zero, Option.some.injEq] at hword
        subst hword
        simpa [addSeen] using hle
    | succ g => exact absurd hword (by simp [SentFrame.single])

theorem getD_mem
    {packets : List Packet} {i : Nat} (hi : i < packets.length) :
    packets.getD i [] ∈ packets := by
  rw [List.getD_eq_getElem?_getD, List.getElem?_eq_getElem hi, Option.getD_some]
  exact List.getElem_mem hi

theorem single_carries
    {frameIndex : UInt32} {isKeyframe : Bool} {word : CodeWord crate} {packets : List Packet}
    (h : (SentFrame.single frameIndex isKeyframe word).SentAs [packets]) {i : Nat}
    (hi : i < packets.length) :
    (SentFrame.single frameIndex isKeyframe word).Carries 0 i (packets.getD i []) := by
  refine @SentFrame.SentAs.carries crate _ _ h 0 i word packets _ rfl rfl ?_
  rw [List.getD_eq_getElem?_getD, List.getElem?_eq_getElem hi, Option.getD_some]

/-- Two packets are enough for two data shards. -/
theorem single_enough
    {frameIndex : UInt32} {isKeyframe : Bool} {word : CodeWord crate}
    {packets arrived : List Packet}
    (h : (SentFrame.single frameIndex isKeyframe word).SentAs [packets])
    (hdata : word.dataCount ≤ 2) (hlen : 1 < packets.length)
    (hfirst : packets.getD 0 [] ∈ arrived) (hsecond : packets.getD 1 [] ∈ arrived) :
    EnoughShards [packets] arrived := by
  intro batch hbatch
  rw [List.mem_singleton.mp hbatch,
    @SentFrame.SentAs.dataShardCount_eq crate _ _ h 0 word packets rfl rfl]
  refine Nat.le_trans hdata ?_
  refine Finset.one_lt_card.mpr ⟨packets.getD 0 [], ?_, packets.getD 1 [], ?_, ?_⟩
  · rw [Finset.mem_filter, List.mem_toFinset]
    exact ⟨hfirst, getD_mem (by omega)⟩
  · rw [Finset.mem_filter, List.mem_toFinset]
    exact ⟨hsecond, getD_mem hlen⟩
  · intro heq
    have h0 := @single_carries crate _ _ _ _ h 0 (by omega)
    have h1 := single_carries h hlen
    have hposition := h0.position_eq
    rw [heq, h1.position_eq] at hposition
    exact absurd hposition (by simp)

theorem Fed.otherFrame
    {a b : SentFrame crate} {seen : Nat → Finset Nat} {r : FecFrameReassembler}
    (h : Fed a seen r) (hne : a.frameIndex ≠ b.frameIndex) :
    OtherFrame b r := by
  obtain ⟨pending, hpending, hreceiving⟩ := h
  intro frame hframe
  rw [hpending] at hframe
  cases hframe
  rw [hreceiving.frameIndex]
  exact hne

/--
Two frames, the first of one data shard and the second of more.  When their
packets alternate, the first is returned with each of its packets and the second
never gets beyond one shard.
-/
theorem frames_alternating
    {a b : SentFrame crate} (hne : a.frameIndex ≠ b.frameIndex) {i j k l : Nat}
    {firstA firstB secondA secondB : Packet}
    (hA : a.Carries 0 i firstA) (hB : b.Carries 0 j firstB)
    (hA' : a.Carries 0 k secondA) (hB' : b.Carries 0 l secondB)
    (hone : ∀ n, a.Complete (addSeen (fun _ => ∅) 0 n))
    (hmore : ∀ n, ¬ b.Complete (addSeen (fun _ => ∅) 0 n)) :
    FecFrameReassembler.frames crate FecFrameReassembler.new
      [firstA, firstB, secondA, secondB] = [a.result, a.result] := by
  have hnew : OtherFrame a FecFrameReassembler.new :=
    fun frame hframe => absurd hframe (by simp [FecFrameReassembler.new])
  obtain ⟨hfed1, hanswer1⟩ := feed_carries (Or.inr ⟨hnew, rfl⟩) hA
  obtain ⟨hfed2, hanswer2⟩ := feed_carries (Or.inr ⟨hfed1.otherFrame hne, rfl⟩) hB
  obtain ⟨hfed3, hanswer3⟩ := feed_carries (Or.inr ⟨hfed2.otherFrame hne.symm, rfl⟩) hA'
  obtain ⟨-, hanswer4⟩ := feed_carries (Or.inr ⟨hfed3.otherFrame hne, rfl⟩) hB'
  unfold FecFrameReassembler.frames
  simp only [Run.emitted_cons, Run.emitted_nil]
  rw [hanswer1.completes (not_complete_empty a) (hone i), hanswer2.pending (hmore j),
    hanswer3.completes (not_complete_empty a) (hone k), hanswer4.pending (hmore l)]
  rfl

/-- Encoding leaves the layouts as they are. -/
theorem FrameFecEncoder.Ok.encode_layout
    {enc : FrameFecEncoder crate} (h : enc.Ok) (frameData : List UInt8)
    (frameIndex timestamp : UInt32) (isKeyframe : Bool) (sequence : UInt16)
    (other : List UInt8) :
    (enc.encode frameData frameIndex timestamp isKeyframe sequence).2.1.layout other =
      enc.layout other := by
  unfold FrameFecEncoder.encode
  cases enc.layout frameData with
  | unprotected => rfl
  | sliced n => rfl
  | bulk =>
      have hstate := (FecEncoder.encode_state h.bulk (toDataShards frameData)).2
      simp only [encodeFrameToPacketsWithFec]
      split_ifs
      · rfl
      · generalize enc.bulk.encode (toDataShards frameData) = res at hstate ⊢
        obtain ⟨answer, bulk⟩ := res
        simp only at hstate
        cases answer with
        | error e => simp only [FrameFecEncoder.layout, hstate]
        | ok shards => simp only [FrameFecEncoder.layout, hstate]

section Late

def lateEncoder : FrameFecEncoder galois8 :=
  FrameFecEncoder.new (f32 1 5) true 4

/-- Two data shards. -/
def lateFrame : List UInt8 :=
  List.replicate 1201 2

/-- A keyframe of one byte, then a frame of two data shards. -/
def lateSession : List EncodedFrame :=
  lateEncoder.session [.encode [1] 0 0 true 0, .encode lateFrame 1 3000 false 2]

/-- The second packet of frame 0 arrives between the packets of frame 1. -/
def lateOrder : List Packet :=
  match lateSession with
  | [a, b] =>
      [a.packets.getD 0 [], b.packets.getD 0 [], a.packets.getD 1 [], b.packets.getD 1 []]
  | _ => []

theorem late_bulk :
    UnitInterval (f32 1 5) ∧ lateEncoder.layout [1] = .bulk ∧
      lateEncoder.layout lateFrame = .bulk := by
  decide +kernel

/-- The session on the wire: one code word a frame, of one and of two data shards. -/
theorem late_words :
    ∃ (wordA wordB : CodeWord galois8) (packetsA packetsB : List Packet),
      lateSession =
        [⟨0, true, .bulk, [1], [packetsA]⟩, ⟨1, false, .bulk, lateFrame, [packetsB]⟩] ∧
      (SentFrame.single 0 true wordA).SentAs [packetsA] ∧ wordA.dataCount = 1 ∧
      1 < packetsA.length ∧
      (SentFrame.single 1 false wordB).SentAs [packetsB] ∧ wordB.dataCount = 2 ∧
      1 < packetsB.length := by
  obtain ⟨hunit, hlayoutA, hlayoutB⟩ := late_bulk
  have hok : lateEncoder.Ok := FrameFecEncoder.ok_new hunit true 4
  have hok' := hok.encode [1] 0 0 true 0
  have hlayoutB' : (lateEncoder.encode [1] 0 0 true 0).2.1.layout lateFrame = .bulk := by
    rw [hok.encode_layout]
    exact hlayoutB
  have hlength : lateFrame.length = 1201 := List.length_replicate
  obtain ⟨wordA, packetsA, hencodeA, hsentA, -, hcountA, hparityA, -⟩ :=
    @FrameFecEncoder.encode_bulk galois8 lateEncoder [1] 0 0 true 0
      galois8_vandermonde.correct hok (by simp) hlayoutA
  obtain ⟨wordB, packetsB, hencodeB, hsentB, -, hcountB, hparityB, -⟩ :=
    @FrameFecEncoder.encode_bulk galois8 (lateEncoder.encode [1] 0 0 true 0).2.1
      lateFrame 1 3000 false 2 galois8_vandermonde.correct hok'
      (List.ne_nil_of_length_pos (by rw [hlength]; omega)) hlayoutB'
  rw [hlength] at hcountB
  have hdataA : wordA.dataCount = 1 := hcountA
  have hdataB : wordB.dataCount = 2 := hcountB
  refine ⟨wordA, wordB, packetsA, packetsB, ?_, SentFrame.single_sentAs hsentA, hdataA,
    by rw [hsentA.length]; omega, SentFrame.single_sentAs hsentB, hdataB,
    by rw [hsentB.length]; omega⟩
  simp only [lateSession, FrameFecEncoder.session, hencodeA, hencodeB, hlayoutA, hlayoutB']

theorem lateOrder_eq
    {a b : FecLayout} {dataA dataB : List UInt8} {packetsA packetsB : List Packet}
    (h : lateSession = [⟨0, true, a, dataA, [packetsA]⟩, ⟨1, false, b, dataB, [packetsB]⟩]) :
    lateOrder = [packetsA.getD 0 [], packetsB.getD 0 [], packetsA.getD 1 [],
      packetsB.getD 1 []] := by
  simp [lateOrder, h, EncodedFrame.packets]

theorem late_drawn :
    DrawnFrom lateSession lateOrder := by
  obtain ⟨wordA, wordB, packetsA, packetsB, hsession, -, -, hlenA, -, -, hlenB⟩ := late_words
  have h0 := @getD_mem packetsA 0 (by omega)
  have h1 := getD_mem hlenA
  have h2 := @getD_mem packetsB 0 (by omega)
  have h3 := getD_mem hlenB
  intro p hp
  rw [lateOrder_eq hsession] at hp
  rw [hsession]
  simp only [List.mem_cons, List.not_mem_nil, or_false] at hp
  rcases hp with rfl | rfl | rfl | rfl
  · exact ⟨_, List.mem_cons_self, by simpa [EncodedFrame.packets] using h0⟩
  · exact ⟨_, List.mem_cons_of_mem _ List.mem_cons_self,
      by simpa [EncodedFrame.packets] using h2⟩
  · exact ⟨_, List.mem_cons_self, by simpa [EncodedFrame.packets] using h1⟩
  · exact ⟨_, List.mem_cons_of_mem _ List.mem_cons_self,
      by simpa [EncodedFrame.packets] using h3⟩

/-- Frame 0 is returned twice, and frame 1 is lost although its shards arrived. -/
theorem late_packet :
    (lateSession.map fun frame => frame.frameIndex).Pairwise (· < ·) ∧
      DrawnFrom lateSession lateOrder ∧
      (∀ frame ∈ lateSession, EnoughShards frame.batches lateOrder) ∧
      (FecFrameReassembler.frames galois8 FecFrameReassembler.new lateOrder).map
        (fun out => out.frameIndex) = [0, 0] ∧
      ¬ ProducesOnce galois8 lateSession lateOrder := by
  obtain ⟨wordA, wordB, packetsA, packetsB, hsession, hsentA, hdataA, hlenA, hsentB,
    hdataB, hlenB⟩ := late_words
  have horder := lateOrder_eq hsession
  have hframes : FecFrameReassembler.frames galois8 FecFrameReassembler.new lateOrder =
      [(SentFrame.single 0 true wordA).result, (SentFrame.single 0 true wordA).result] := by
    rw [horder]
    refine frames_alternating (by simp [SentFrame.single])
      (single_carries hsentA (by omega)) (single_carries hsentB (by omega))
      (single_carries hsentA hlenA) (single_carries hsentB hlenB) ?_ ?_
    · intro n
      rw [complete_single]
      omega
    · intro n
      rw [complete_single]
      omega
  have hindices : (FecFrameReassembler.frames galois8 FecFrameReassembler.new lateOrder).map
      (fun out => out.frameIndex) = [0, 0] := by
    rw [hframes]
    rfl
  refine ⟨?_, ?_, ?_, hindices, ?_⟩
  · rw [hsession]
    simp
  · exact late_drawn
  · intro frame hframe
    rw [hsession] at hframe
    simp only [List.mem_cons, List.not_mem_nil, or_false] at hframe
    rcases hframe with rfl | rfl
    · exact single_enough hsentA (by omega) hlenA (by simp [horder]) (by simp [horder])
    · exact single_enough hsentB (by omega) hlenB (by simp [horder]) (by simp [horder])
  · intro h
    have hnodup := h.once
    rw [hindices] at hnodup
    exact absurd hnodup (by simp)

/-- The same packets, each frame's together and backwards. -/
def timelyOrder : List Packet :=
  [lateOrder.getD 2 [], lateOrder.getD 0 [], lateOrder.getD 3 [], lateOrder.getD 1 []]

theorem reassembler_in_order_timely :
    ProducesOnce galois8 lateSession timelyOrder := by
  obtain ⟨wordA, wordB, packetsA, packetsB, hsession, hsentA, -, hlenA, hsentB, -, hlenB⟩ :=
    late_words
  have horder : timelyOrder = [packetsA.getD 1 [], packetsA.getD 0 [], packetsB.getD 1 [],
      packetsB.getD 0 []] := by
    simp [timelyOrder, lateOrder_eq hsession]
  have hindices : timelyOrder.map packetIndex = [0, 0, 1, 1] := by
    rw [horder, List.map_cons, List.map_cons, List.map_cons, List.map_cons, List.map_nil,
      (single_carries hsentA hlenA).packetIndex_eq,
      (@single_carries galois8 _ _ _ _ hsentA 0 (by omega)).packetIndex_eq,
      (single_carries hsentB hlenB).packetIndex_eq,
      (@single_carries galois8 _ _ _ _ hsentB 0 (by omega)).packetIndex_eq]
    rfl
  have hincreasing : (lateSession.map fun frame => frame.frameIndex).Pairwise (· < ·) := by
    rw [hsession]
    simp
  have hdrawn : DrawnFrom lateSession timelyOrder := by
    intro p hp
    refine late_drawn p ?_
    rw [horder] at hp
    rw [lateOrder_eq hsession]
    simp only [List.mem_cons, List.not_mem_nil, or_false] at hp ⊢
    rcases hp with h | h | h | h <;> simp [h]
  exact reassembler_in_order galois8_vandermonde.correct late_bulk.1 true 4 _ hincreasing
    hdrawn (inOrder_of_pairwise (by rw [hindices]; decide))

end Late

end Engine
end FocusVision
