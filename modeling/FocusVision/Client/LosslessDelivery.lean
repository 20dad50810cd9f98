import FocusVision.Client.LosslessFrame

/-!
# Delivery without loss

A `FrameAssembler` that gets all packets of frames with consecutive indices, in order.
No frame is lost: each one is complete before the next one begins.
-/

namespace FocusVision
namespace Client
namespace FrameAssembler

open Engine (CodeWord SentFrame RsCrate)
open SlicedFecFrameDecoder (doneSlices)

variable {crate : RsCrate}

/-! ### What arrives -/

/-- The packet of a call. -/
def Call.packet? : Call → Option (List UInt8)
  | .onPacket packet _ => some packet
  | _ => none

/-- The packets that arrive. -/
def arrivals (calls : List Call) : List (List UInt8) :=
  calls.filterMap Call.packet?

/-- Nobody asks for a keyframe, and while a frame is unfinished, no tick is later than the
timeout behind its last packet. -/
def Prompt (a : FrameAssembler) : Call → Prop
  | .onPacket _ _ => True
  | .onTick now =>
      a.m_haveFrame = true → a.m_frameFinished = false → now - a.m_lastFramePacket ≤ kFrameTimeout
  | .requireKeyframe _ => False

/-- Such a tick does nothing. -/
theorem Prompt.onTick
    {a : FrameAssembler} {now : Int} (h : a.Prompt (.onTick now)) (out : Output) :
    a.onTick now out = (a, out) := by
  unfold FrameAssembler.onTick
  refine if_neg ?_
  rintro ⟨hhave, hunfinished, htimeout⟩
  exact absurd (h hhave (by simpa using hunfinished)) (not_le.mpr htimeout)

theorem accountSequence_eq_with
    (a : FrameAssembler) (seq : UInt16) :
    ∃ stats haveSequence expected, a.accountSequence seq =
      { a with
        m_stats := stats
        m_haveSequence := haveSequence
        m_expectedSequence := expected } := by
  unfold accountSequence
  simp only
  split_ifs
  · exact ⟨_, _, _, rfl⟩
  · exact ⟨_, _, _, rfl⟩
  · exact ⟨_, _, _, rfl⟩
  · exact ⟨_, _, _, rfl⟩
  · exact ⟨_, _, _, rfl⟩

/-! ### States -/

/-- The slice decoders hold no other frames than these. -/
structure Contexts (old : Nat → UInt32 → Prop) (d : SlicedFecFrameDecoder) : Prop where
  contexts : d.m_contexts.length = MAX_SLICES
  sliceData : d.m_sliceData.length = MAX_SLICES
  held : ∀ i frameIndex, d.Holds i frameIndex → old i frameIndex

/-- No frame is in progress; `last` was the last one, and none was lost. -/
structure Between (old : Nat → UInt32 → Prop) (last : Option UInt32) (a : FrameAssembler) :
    Prop where
  lost : a.m_framesLost = 0
  haveFrame : a.m_haveFrame = last.isSome
  finished : ∀ frameIndex ∈ last, a.m_frameIndex = frameIndex ∧ a.m_frameFinished = true
  contexts : Contexts old a.m_sliced

/-- The frame is in progress: its words before `g` came, and `k` shards of word `g`. -/
structure Receiving (old : Nat → UInt32 → Prop) (sent : SentFrame crate) (g : Nat)
    (word : CodeWord crate) (k : Nat) (a : FrameAssembler) : Prop where
  lost : a.m_framesLost = 0
  haveFrame : a.m_haveFrame = true
  frame_eq : a.m_frameIndex = sent.frameIndex
  unfinished : a.m_frameFinished = false
  sliced_eq : a.m_frameSliced = sent.sliced
  bulk : sent.sliced = false →
    a.m_bulk.HoldsFirst sent.frameIndex sent.isKeyframe word k ∧ Contexts old a.m_sliced
  slices : sent.sliced = true → a.m_sliced.HoldsFirst old sent g word k

/-- What the slice decoders hold after a frame with `slices` slices. -/
def heldAfter (old : Nat → UInt32 → Prop) (slices : Nat) (sent : UInt32) (i : Nat)
    (frameIndex : UInt32) : Prop :=
  if i < slices then frameIndex = sent else old i frameIndex

section Frame

variable {old : Nat → UInt32 → Prop} {sent : SentFrame crate} {g k : Nat}
  {word : CodeWord crate} {a : FrameAssembler}

/-- In a frame that is not sliced, one word is all. -/
theorem doneSlices_bulk
    (hbulk : sent.sliced = false) (hword : sent.words[g]? = some word) :
    doneSlices word g k = sent.words.length ↔ word.dataCount ≤ k := by
  have hlt := (List.getElem?_eq_some_iff.mp hword).1
  have hone := sent.length_bulk hbulk
  unfold doneSlices
  split_ifs
  · exact iff_of_true (by omega) ‹_›
  · exact iff_of_false (by omega) ‹_›

theorem Receiving.complete_iff
    (h : Receiving old sent g word k a) (hword : sent.words[g]? = some word) :
    a.currentComplete = decide (doneSlices word g k = sent.words.length) := by
  unfold currentComplete
  rw [h.sliced_eq]
  cases hsliced : sent.sliced with
  | false =>
      rw [if_neg (by decide), (h.bulk hsliced).1.isComplete_eq]
      exact decide_eq_decide.mpr (doneSlices_bulk hsliced hword).symm
  | true =>
      rw [if_pos rfl, (h.slices hsliced).isComplete_eq hword]

/-- The slice decoders behind a complete frame. -/
theorem Receiving.contexts
    (h : Receiving old sent g word (k + 1) a) (hword : sent.words[g]? = some word)
    (hcomplete : doneSlices word g (k + 1) = sent.words.length) :
    Contexts (heldAfter old sent.sliceCount.toNat sent.frameIndex) a.m_sliced := by
  have hlt := (List.getElem?_eq_some_iff.mp hword).1
  unfold heldAfter
  rw [sent.sliceCount_toNat]
  cases hsliced : sent.sliced with
  | false => exact (h.bulk hsliced).2
  | true =>
      have hslices := h.slices hsliced
      have hlast : g + 1 = sent.words.length := by
        unfold doneSlices at hcomplete
        split_ifs at hcomplete
        · exact hcomplete
        · omega
      refine ⟨hslices.contexts, hslices.sliceData, ?_⟩
      intro i frameIndex hheld
      rw [if_pos rfl]
      rcases Nat.lt_trichotomy i g with hi | rfl | hi
      · rw [if_pos (by omega)]
        exact hslices.before i hi frameIndex hheld
      · rw [if_pos (by omega)]
        exact hslices.current.index_eq hheld
      · rw [if_neg (by omega)]
        exact hslices.behind i hi frameIndex hheld

/-- A complete frame is put together and finished. -/
theorem Receiving.finishCurrent
    (h : Receiving old sent g word (k + 1) a) (hword : sent.words[g]? = some word)
    (hlt : k < word.shards.length)
    (hcomplete : doneSlices word g (k + 1) = sent.words.length) (now : Int) (out : Output) :
    Between (heldAfter old sent.sliceCount.toNat sent.frameIndex) (some sent.frameIndex)
      (a.finishCurrent now out).1 := by
  have hcontexts := h.contexts hword hcomplete
  obtain ⟨frame, decoded, hdecode, hdecoded⟩ : ∃ frame decoded,
      tryDecode { a with m_frameFinished := true } = (some frame, decoded) ∧
        Between (heldAfter old sent.sliceCount.toNat sent.frameIndex) (some sent.frameIndex)
          decoded := by
    unfold tryDecode
    simp only [h.sliced_eq]
    cases hsliced : sent.sliced with
    | false =>
        have hdata := (doneSlices_bulk hsliced hword).mp hcomplete
        rw [if_neg (by decide), (h.bulk hsliced).1.tryDecode_eq hlt hdata]
        refine ⟨_, _, rfl, h.lost, h.haveFrame, ?_, hcontexts⟩
        intro frameIndex hindex
        rw [← Option.some.inj hindex]
        exact ⟨h.frame_eq, rfl⟩
    | true =>
        rw [if_pos rfl, (h.slices hsliced).tryDecode_eq hword hcomplete]
        refine ⟨_, _, rfl, h.lost, h.haveFrame, ?_, hcontexts.contexts, hcontexts.sliceData,
          hcontexts.held⟩
        intro frameIndex hindex
        rw [← Option.some.inj hindex]
        exact ⟨h.frame_eq, rfl⟩
  unfold FrameAssembler.finishCurrent
  simp only [hdecode]
  split_ifs
  · unfold askForIdr
    split_ifs
    · exact ⟨hdecoded.lost, hdecoded.haveFrame, hdecoded.finished, hdecoded.contexts⟩
    · exact ⟨hdecoded.lost, hdecoded.haveFrame, hdecoded.finished, hdecoded.contexts⟩
  · exact ⟨hdecoded.lost, hdecoded.haveFrame, hdecoded.finished, hdecoded.contexts⟩
  · exact ⟨hdecoded.lost, hdecoded.haveFrame, hdecoded.finished, hdecoded.contexts⟩

theorem isValid_of_not_malformed
    {hdr : Engine.FvpHeader} {shard : List UInt8}
    (h : Engine.FecFrameReassembler.malformed hdr shard = false) :
    hdr.isValid = true := by
  unfold Engine.FecFrameReassembler.malformed at h
  simp only [Bool.or_eq_false_iff, Bool.not_eq_false'] at h
  exact h.1.1

/-- The client's view of a packet that carries shard `k` of word `g`. -/
theorem parse_carries
    {packet : List UInt8} (hword : sent.words[g]? = some word)
    (hpacket : Engine.readFvpHeader packet =
      some (word.header sent.frameIndex (sent.flags g) k)) {shard : List UInt8}
    (hshard : word.shards[k]? = some shard) :
    parseFvpHeader packet =
      some (FvpHeaderView.of (word.header sent.frameIndex (sent.flags g) k)) := by
  have hg := (List.getElem?_eq_some_iff.mp hword).1
  have hvalid := isValid_of_not_malformed (sent.not_malformed hg hshard)
  rw [parseFvpHeader_eq, hpacket, Option.filter_some, if_pos hvalid, Option.map_some]

/-- Shard `k` of word `g` arrives: the frame is finished, or one more shard of it came. -/
theorem Receiving.takeShard
    (h : Receiving old sent g word k a) (hsized : sent.Sized)
    (hword : sent.words[g]? = some word) {shard : List UInt8}
    (hshard : word.shards[k]? = some shard) (now : Int) (out : Output) :
    let a' := (a.takeShard (.of (word.header sent.frameIndex (sent.flags g) k)) shard now out).1
    (doneSlices word g (k + 1) = sent.words.length ∧
        Between (heldAfter old sent.sliceCount.toNat sent.frameIndex) (some sent.frameIndex) a') ∨
      (doneSlices word g (k + 1) ≠ sent.words.length ∧
        Receiving old sent g word (k + 1) a') := by
  have hg := (List.getElem?_eq_some_iff.mp hword).1
  have hlt := (List.getElem?_eq_some_iff.mp hshard).1
  obtain ⟨hindex, htotal, hdata⟩ :=
    SentFrame.header_counts word sent.frameIndex (sent.flags g) hlt
  obtain ⟨-, -, hslice⟩ := sent.flags_fields hg
  obtain ⟨a', ha', hreceiving⟩ : ∃ a' : FrameAssembler,
      (if a.m_frameSliced = true then
        { a with
          m_lastFramePacket := now
          m_sliced := a.m_sliced.addShard (FvpFlags.sliceIndex (sent.flags g)).toNat k
            word.shards.length word.dataCount shard }
      else { a with m_lastFramePacket := now, m_bulk := a.m_bulk.addShard k shard }) = a' ∧
        Receiving old sent g word (k + 1) a' := by
    have hsame := h.sliced_eq
    cases hsliced : sent.sliced with
    | false =>
        rw [hsliced] at hsame
        refine ⟨_, if_neg (by rw [hsame]; decide), h.lost, h.haveFrame, h.frame_eq,
          h.unfinished, h.sliced_eq, ?_, ?_⟩
        · intro hbulk
          exact ⟨(h.bulk hbulk).1.addShard hshard, (h.bulk hbulk).2⟩
        · intro htrue
          rw [hsliced] at htrue
          exact absurd htrue (by decide)
    | true =>
        rw [hsliced] at hsame
        refine ⟨_, if_pos hsame, h.lost, h.haveFrame, h.frame_eq, h.unfinished,
          h.sliced_eq, ?_, ?_⟩
        · intro hfalse
          rw [hsliced] at hfalse
          exact absurd hfalse (by decide)
        · intro htrue
          have hle := sent.length_le
          have hgroup : (FvpFlags.sliceIndex (sent.flags g)).toNat = g := by
            rw [(flags_eq _).2.1, hslice htrue, UInt8.toNat_ofNat']
            omega
          simp only [hgroup]
          exact (h.slices htrue).addShard htrue hsized hword hshard
  have htake : a.takeShard (.of (word.header sent.frameIndex (sent.flags g) k)) shard now out =
      if a'.currentComplete then a'.finishCurrent now out else (a', out) := by
    rw [← ha']
    unfold FrameAssembler.takeShard
    simp only [FvpHeaderView.of, hindex, htotal, hdata]
    rfl
  rw [htake, hreceiving.complete_iff hword]
  by_cases hcomplete : doneSlices word g (k + 1) = sent.words.length
  · rw [decide_eq_true hcomplete, if_pos rfl]
    exact Or.inl ⟨hcomplete, hreceiving.finishCurrent hword hlt hcomplete now out⟩
  · rw [decide_eq_false hcomplete, if_neg (by decide)]
    exact Or.inr ⟨hcomplete, hreceiving⟩

/-- All packets of a word came, but not all of the frame. -/
theorem Receiving.next
    (h : Receiving old sent g word word.shards.length a) {next : CodeWord crate}
    (hnext : sent.words[g + 1]? = some next)
    (hfresh : ∀ i < sent.sliceCount.toNat, ¬old i sent.frameIndex) :
    Receiving old sent (g + 1) next 0 a := by
  have hlt := (List.getElem?_eq_some_iff.mp hnext).1
  have hcount := sent.sliceCount_toNat
  refine { h with bulk := ?_, slices := ?_ }
  · intro hbulk
    rw [sent.length_bulk hbulk] at hlt
    omega
  · intro hsliced
    rw [hsliced, if_pos rfl] at hcount
    exact (h.slices hsliced).next next (hfresh (g + 1) (by omega))

/-- The frame in progress begins, and no frame is lost. -/
theorem Between.startFrame
    {last : Option UInt32} (h : Between old last a)
    (hnext : ∀ frameIndex ∈ last, sent.frameIndex = frameIndex + 1)
    (hfresh : ∀ i < sent.sliceCount.toNat, ¬old i sent.frameIndex)
    {shard : List UInt8} (hshard : word.shards[0]? = some shard) (now : Int) (out : Output) :
    Receiving old sent 0 word 0
      (a.startFrame (.of (word.header sent.frameIndex (sent.flags 0) 0)) now out).1 := by
  have hg := sent.length_pos
  have hlt := (List.getElem?_eq_some_iff.mp hshard).1
  obtain ⟨-, htotal, hdata⟩ := SentFrame.header_counts word sent.frameIndex (sent.flags 0) hlt
  obtain ⟨hkey, hslices, -⟩ := sent.flags_fields hg
  have hkey : FvpFlags.isKeyframe (sent.flags 0) = sent.isKeyframe := hkey
  have hslices : FvpFlags.sliceCount (sent.flags 0) = sent.sliceCount :=
    (flags_eq _).2.2.trans hslices
  have hnone : ¬(a.m_haveFrame ∧ a.abandoned
      (FvpHeaderView.of (word.header sent.frameIndex (sent.flags 0) 0)).frameIndex > 0) := by
    rintro ⟨hhave, hlost⟩
    rw [h.haveFrame, Option.isSome_iff_exists] at hhave
    obtain ⟨frameIndex, hlast⟩ := hhave
    obtain ⟨hindex, hfinished⟩ := h.finished frameIndex hlast
    have hgap : frameIndex + 1 - frameIndex - 1 = 0 := by
      grind
    unfold FrameAssembler.abandoned at hlost
    rw [hfinished, if_pos rfl, hindex] at hlost
    simp only [FvpHeaderView.of, CodeWord.header, hnext frameIndex hlast, hgap] at hlost
    exact absurd hlost (by decide)
  unfold FrameAssembler.startFrame
  rw [if_neg hnone]
  simp only [FvpHeaderView.of, CodeWord.header] at htotal hdata ⊢
  unfold FrameAssembler.beginFrame
  simp only [hslices, hkey, sent.sliceCount_pos_iff, htotal, hdata]
  have hcount := sent.sliceCount_toNat
  cases hsliced : sent.sliced with
  | false =>
      rw [if_neg (by decide)]
      refine ⟨h.lost, rfl, rfl, rfl, hsliced.symm, ?_, ?_⟩
      · intro _
        exact ⟨(FecFrameDecoder.beginFrame_holds a.m_bulk sent.frameIndex sent.isKeyframe
          word).2, h.contexts⟩
      · intro htrue
        rw [hsliced] at htrue
        exact absurd htrue (by decide)
  | true =>
      rw [hsliced, if_pos rfl] at hcount
      rw [if_pos rfl]
      refine ⟨h.lost, rfl, rfl, rfl, hsliced.symm, ?_, ?_⟩
      · intro hfalse
        rw [hsliced] at hfalse
        exact absurd hfalse (by decide)
      · intro _
        have hunheld : ¬a.m_sliced.Holds 0 sent.frameIndex :=
          fun hheld => hfresh 0 (by omega) (h.contexts.held 0 _ hheld)
        have hbegun := SlicedFecFrameDecoder.beginFrame_holds h.contexts.contexts
          h.contexts.sliceData hunheld word
        rw [hcount]
        exact
          { hbegun with
            behind := fun i hi frameIndex hheld =>
              h.contexts.held i frameIndex (hbegun.behind i hi frameIndex hheld) }

theorem Between.accountSequence
    {last : Option UInt32} (h : Between old last a) (seq : UInt16) :
    Between old last (a.accountSequence seq) := by
  obtain ⟨_, _, _, heq⟩ := a.accountSequence_eq_with seq
  rw [heq]
  exact ⟨h.lost, h.haveFrame, h.finished, h.contexts⟩

theorem Receiving.accountSequence
    (h : Receiving old sent g word k a) (seq : UInt16) :
    Receiving old sent g word k (a.accountSequence seq) := by
  obtain ⟨_, _, _, heq⟩ := a.accountSequence_eq_with seq
  rw [heq]
  exact ⟨h.lost, h.haveFrame, h.frame_eq, h.unfinished, h.sliced_eq, h.bulk, h.slices⟩

end Frame

/-! ### Frame after frame -/

/-- A sent frame and its packets, one batch for each code word. -/
structure SentBatches (crate : RsCrate) where
  sent : SentFrame crate
  batches : List (List (List UInt8))
  sentAs : sent.SentAs batches
  sized : sent.Sized

/-- The packets of some frames. -/
def packetsOf (frames : List (SentBatches crate)) : List (List UInt8) :=
  frames.flatMap fun frame => frame.batches.flatten

/-- The indices follow each other, and no slice decoder still holds the index of a frame. -/
def Consecutive (old : Nat → UInt32 → Prop) (last : Option UInt32) :
    List (SentBatches crate) → Prop
  | [] => True
  | frame :: frames =>
      (∀ frameIndex ∈ last, frame.sent.frameIndex = frameIndex + 1) ∧
        (∀ i < frame.sent.sliceCount.toNat, ¬old i frame.sent.frameIndex) ∧
        Consecutive (heldAfter old frame.sent.sliceCount.toNat frame.sent.frameIndex)
          (some frame.sent.frameIndex) frames

variable (crate) in
/-- Between two packets of a lossless delivery, with those that are still to come. -/
inductive Lossless : List (List UInt8) → FrameAssembler → Prop
  | between {old last a} {frames : List (SentBatches crate)} :
      Between old last a → Consecutive old last frames → Lossless (packetsOf frames) a
  | receiving {old g k word batch a} {frame : SentBatches crate}
      {frames : List (SentBatches crate)} :
      frame.sent.words[g]? = some word → frame.batches[g]? = some batch →
      k < word.shards.length → doneSlices word g k ≠ frame.sent.words.length →
      Receiving old frame.sent g word k a →
      (∀ i < frame.sent.sliceCount.toNat, ¬old i frame.sent.frameIndex) →
      Consecutive (heldAfter old frame.sent.sliceCount.toNat frame.sent.frameIndex)
        (some frame.sent.frameIndex) frames →
      Lossless (batch.drop k ++ ((frame.batches.drop (g + 1)).flatten ++ packetsOf frames)) a
  | extra {old a rest} {frame : SentBatches crate} {frames : List (SentBatches crate)} :
      Between (heldAfter old frame.sent.sliceCount.toNat frame.sent.frameIndex)
        (some frame.sent.frameIndex) a →
      (∀ packet ∈ rest, packet ∈ frame.batches.flatten) →
      Consecutive (heldAfter old frame.sent.sliceCount.toNat frame.sent.frameIndex)
        (some frame.sent.frameIndex) frames →
      Lossless (rest ++ packetsOf frames) a

/-- The first packets of a frame. -/
theorem SentBatches.exists_first
    (frame : SentBatches crate) :
    ∃ word batch, frame.sent.words[0]? = some word ∧ frame.batches[0]? = some batch ∧
      0 < word.shards.length ∧
      frame.batches.flatten = batch.drop 0 ++ (frame.batches.drop (0 + 1)).flatten := by
  have hpos := frame.sent.length_pos
  have hlen := frame.sentAs.length
  obtain ⟨word, hword⟩ : ∃ word, frame.sent.words[0]? = some word :=
    ⟨_, List.getElem?_eq_getElem hpos⟩
  cases hbatches : frame.batches with
  | nil =>
      rw [hbatches, List.length_nil] at hlen
      omega
  | cons batch batches =>
      have hdata := word.dataCount_pos
      have hle := word.dataCount_le
      exact ⟨word, batch, hword, rfl, by omega, rfl⟩

/-- The client reads the index of the frame in each packet. -/
theorem SentBatches.parse_packet
    (frame : SentBatches crate) {packet : List UInt8} (h : packet ∈ frame.batches.flatten) :
    ∃ hdr, parseFvpHeader packet = some hdr ∧ hdr.frameIndex = frame.sent.frameIndex := by
  obtain ⟨g, i, word, batch, hword, hbatch, hi⟩ := frame.sentAs.sends h
  obtain ⟨hheader, hshard⟩ := (frame.sentAs.batch g word batch hword hbatch).packet i packet hi
  exact ⟨_, parse_carries hword hheader hshard, rfl⟩

section Step

variable {old : Nat → UInt32 → Prop} {frame : SentBatches crate}
  {frames : List (SentBatches crate)} {g k : Nat} {word : CodeWord crate}
  {batch : List (List UInt8)} {a : FrameAssembler}

/-- The next packet of the frame in progress. -/
theorem Receiving.lossless
    (h : Receiving old frame.sent g word k a) (hword : frame.sent.words[g]? = some word)
    (hbatch : frame.batches[g]? = some batch) {packet : List UInt8}
    (hpacket : batch[k]? = some packet)
    (hfresh : ∀ i < frame.sent.sliceCount.toNat, ¬old i frame.sent.frameIndex)
    (hrest : Consecutive (heldAfter old frame.sent.sliceCount.toNat frame.sent.frameIndex)
      (some frame.sent.frameIndex) frames) (now : Int) (out : Output) :
    Lossless crate
      (batch.drop (k + 1) ++ ((frame.batches.drop (g + 1)).flatten ++ packetsOf frames))
      (a.takeShard (.of (word.header frame.sent.frameIndex (frame.sent.flags g) k))
        (packet.drop PACKET_HEADER_LEN) now out).1 := by
  have hsent := frame.sentAs.batch g word batch hword hbatch
  have hshard := (hsent.packet k packet hpacket).2
  have hlt := (List.getElem?_eq_some_iff.mp hshard).1
  rcases h.takeShard frame.sized hword hshard now out with ⟨-, hbetween⟩ | ⟨hmore, hnext⟩
  · rw [← List.append_assoc]
    refine Lossless.extra hbetween ?_ hrest
    intro extra hextra
    rcases List.mem_append.mp hextra with hmem | hmem
    · exact List.mem_flatten_of_mem (List.mem_of_getElem? hbatch) (List.mem_of_mem_drop hmem)
    · obtain ⟨later, hlater, hmem⟩ := List.mem_flatten.mp hmem
      exact List.mem_flatten_of_mem (List.mem_of_mem_drop hlater) hmem
  · by_cases hword_end : k + 1 < word.shards.length
    · exact Lossless.receiving hword hbatch hword_end hmore hnext hfresh hrest
    · -- the word is complete, and the next one begins
      have hend : k + 1 = word.shards.length := by omega
      have hdone : doneSlices word g (k + 1) = g + 1 := by
        rw [hend]
        exact if_pos word.dataCount_le
      rw [hdone] at hmore
      have hg := (List.getElem?_eq_some_iff.mp hword).1
      have hnextWord : g + 1 < frame.sent.words.length := by omega
      have hnextBatch : g + 1 < frame.batches.length := by
        rw [frame.sentAs.length]
        exact hnextWord
      have hwordEq := List.getElem?_eq_getElem hnextWord
      have hpos := frame.sent.words[g + 1].dataCount_pos
      have hle := frame.sent.words[g + 1].dataCount_le
      rw [hend] at hnext
      have hempty : batch.drop (k + 1) = [] := by
        rw [List.drop_eq_nil_iff, hsent.length]
        omega
      rw [hempty, List.nil_append, List.drop_eq_getElem_cons hnextBatch, List.flatten_cons,
        List.append_assoc]
      refine @Lossless.receiving crate old (g + 1) 0 _ _ _ frame frames hwordEq
        (List.getElem?_eq_getElem hnextBatch) (by omega) ?_ (hnext.next hwordEq hfresh)
        hfresh hrest
      unfold doneSlices
      rw [if_neg (by omega)]
      omega

/-- The first packet of a frame. -/
theorem Between.onPacket
    {last : Option UInt32} (h : Between old last a)
    (hnext : Consecutive old last (frame :: frames)) {packet : List UInt8}
    {rest : List (List UInt8)} (hpackets : packetsOf (frame :: frames) = packet :: rest)
    (now : Int) (out : Output) :
    Lossless crate rest (a.onPacket packet now out).1 := by
  obtain ⟨hindex, hfresh, hrest⟩ := hnext
  obtain ⟨word, batch, hword, hbatch, hpos, hflat⟩ := frame.exists_first
  have hsent := frame.sentAs.batch 0 word batch hword hbatch
  have hlen : 0 < batch.length := by
    rw [hsent.length]
    exact hpos
  have hfirst := List.getElem?_eq_getElem hlen
  rw [packetsOf, List.flatMap_cons, hflat, List.drop_eq_getElem_cons hlen, List.cons_append,
    List.cons_append, List.cons.injEq, List.append_assoc] at hpackets
  obtain ⟨rfl, rfl⟩ := hpackets
  obtain ⟨hheader, hshard⟩ := hsent.packet 0 _ hfirst
  have hparse := parse_carries hword hheader hshard
  have hbefore := h.accountSequence (rtpSequence batch[0])
  have hother : ¬((a.accountSequence (rtpSequence batch[0])).m_haveFrame ∧
      (FvpHeaderView.of (word.header frame.sent.frameIndex (frame.sent.flags 0) 0)).frameIndex =
        (a.accountSequence (rtpSequence batch[0])).m_frameIndex) := by
    rintro ⟨hhave, hsame⟩
    rw [hbefore.haveFrame, Option.isSome_iff_exists] at hhave
    obtain ⟨frameIndex, hlast⟩ := hhave
    rw [(hbefore.finished frameIndex hlast).1] at hsame
    have hadd : frame.sent.frameIndex = frameIndex + 1 := hindex frameIndex hlast
    have hsame : frame.sent.frameIndex = frameIndex := hsame
    grind
  have hnewer : !(a.accountSequence (rtpSequence batch[0])).m_haveFrame ∨
      isNewer (FvpHeaderView.of (word.header frame.sent.frameIndex
        (frame.sent.flags 0) 0)).frameIndex
        (a.accountSequence (rtpSequence batch[0])).m_frameIndex := by
    rw [hbefore.haveFrame]
    cases hlast : last with
    | none => exact Or.inl rfl
    | some frameIndex =>
        have hadd : frame.sent.frameIndex = frameIndex + 1 := hindex frameIndex hlast
        have hone : frameIndex + 1 - frameIndex = 1 := by
          grind
        refine Or.inr ?_
        rw [(hbefore.finished frameIndex hlast).1]
        simp only [FvpHeaderView.of, CodeWord.header, isNewer, hadd, hone]
        decide
  have hstarted := hbefore.startFrame hindex hfresh hshard now out
  unfold FrameAssembler.onPacket
  rw [hparse]
  simp only
  rw [if_neg hother, if_pos hnewer]
  exact hstarted.lossless hword hbatch hfirst hfresh hrest now _

/-- Another packet of a frame that is in progress. -/
theorem Receiving.onPacket
    (h : Receiving old frame.sent g word k a) (hword : frame.sent.words[g]? = some word)
    (hbatch : frame.batches[g]? = some batch) {packet : List UInt8}
    (hpacket : batch[k]? = some packet)
    (hfresh : ∀ i < frame.sent.sliceCount.toNat, ¬old i frame.sent.frameIndex)
    (hrest : Consecutive (heldAfter old frame.sent.sliceCount.toNat frame.sent.frameIndex)
      (some frame.sent.frameIndex) frames) (now : Int) (out : Output) :
    Lossless crate
      (batch.drop (k + 1) ++ ((frame.batches.drop (g + 1)).flatten ++ packetsOf frames))
      (a.onPacket packet now out).1 := by
  obtain ⟨hheader, hshard⟩ :=
    (frame.sentAs.batch g word batch hword hbatch).packet k packet hpacket
  have hbefore := h.accountSequence (rtpSequence packet)
  unfold FrameAssembler.onPacket
  rw [parse_carries hword hheader hshard]
  simp only
  rw [if_pos ⟨hbefore.haveFrame, hbefore.frame_eq.symm⟩,
    if_neg (by rw [hbefore.unfinished]; decide)]
  exact hbefore.lossless hword hbatch hpacket hfresh hrest now out

/-- Another packet of a frame that is complete. -/
theorem Between.onExtra
    (h : Between old (some frame.sent.frameIndex) a) {packet : List UInt8}
    (hpacket : packet ∈ frame.batches.flatten) (now : Int) (out : Output) :
    Between old (some frame.sent.frameIndex) (a.onPacket packet now out).1 := by
  obtain ⟨hdr, hparse, hindex⟩ := frame.parse_packet hpacket
  have hbefore := h.accountSequence (rtpSequence packet)
  obtain ⟨hsame, hfinished⟩ := hbefore.finished _ rfl
  unfold FrameAssembler.onPacket
  rw [hparse]
  simp only
  rw [if_pos ⟨hbefore.haveFrame, hindex.trans hsame.symm⟩, if_pos hfinished]
  exact hbefore

end Step

section Run

variable {a : FrameAssembler}

theorem Lossless.lost
    {packets : List (List UInt8)} (h : Lossless crate packets a) :
    a.m_framesLost = 0 := by
  cases h with
  | between h _ => exact h.lost
  | receiving _ _ _ _ h _ _ => exact h.lost
  | extra h _ _ => exact h.lost

/-- The next packet arrives. -/
theorem Lossless.onPacket
    {packet : List UInt8} {packets : List (List UInt8)}
    (h : Lossless crate (packet :: packets) a) (now : Int) (out : Output) :
    Lossless crate packets (a.onPacket packet now out).1 := by
  have hbetween : ∀ {old last} {frames : List (SentBatches crate)}, Between old last a →
      Consecutive old last frames → packetsOf frames = packet :: packets →
      Lossless crate packets (a.onPacket packet now out).1 := by
    intro old last frames hstate hframes hpackets
    cases frames with
    | nil => exact absurd hpackets (by simp [packetsOf])
    | cons frame frames => exact hstate.onPacket hframes hpackets now out
  generalize hall : packet :: packets = all at h
  cases h with
  | between hstate hframes => exact hbetween hstate hframes hall.symm
  | @receiving old g k word batch _ frame frames hword hbatch hk _ hstate hfresh hrest =>
      have hsent := frame.sentAs.batch g word batch hword hbatch
      have hlt : k < batch.length := by
        rw [hsent.length]
        exact hk
      rw [List.drop_eq_getElem_cons hlt, List.cons_append, List.cons.injEq] at hall
      obtain ⟨rfl, rfl⟩ := hall
      exact hstate.onPacket hword hbatch (List.getElem?_eq_getElem hlt) hfresh hrest now out
  | @extra old _ rest frame frames hstate hextra hframes =>
      cases rest with
      | nil => exact hbetween hstate hframes hall.symm
      | cons next rest =>
          rw [List.cons_append, List.cons.injEq] at hall
          obtain ⟨rfl, rfl⟩ := hall
          obtain ⟨hnext, hextra⟩ := List.forall_mem_cons.mp hextra
          exact Lossless.extra (hstate.onExtra hnext now out) hextra hframes

/-- A call of a lossless delivery. -/
theorem Lossless.step
    {packets : List (List UInt8)} (h : Lossless crate packets a) {call : Call}
    {calls : List Call} (harrive : arrivals (call :: calls) <+: packets) (hprompt : a.Prompt call) :
    ∃ rest, Lossless crate rest (a.step call).2 ∧ arrivals calls <+: rest ∧
      ∀ now, call ≠ .requireKeyframe now := by
  cases call with
  | onPacket packet now =>
      obtain ⟨rest, hrest⟩ := harrive
      have hpackets : packets = packet :: (arrivals calls ++ rest) := hrest.symm
      rw [hpackets] at h
      exact ⟨_, h.onPacket now {}, List.prefix_append _ _, by simp⟩
  | onTick now =>
      have hsame : (a.step (.onTick now)).2 = a := by
        simp only [FrameAssembler.step]
        rw [hprompt.onTick]
      rw [hsame]
      exact ⟨_, h, harrive, by simp⟩
  | requireKeyframe now => exact hprompt.elim

/-- No frame is lost, and who waits for a keyframe has waited since the start. -/
theorem Lossless.run
    {packets : List (List UInt8)} (h : Lossless crate packets a) (calls : List Call)
    (harrive : arrivals calls <+: packets)
    (hprompt : Run.Along FrameAssembler.step Prompt a calls) :
    (Run.final FrameAssembler.step a calls).m_framesLost = 0 ∧
      ((Run.final FrameAssembler.step a calls).m_waitingForKeyframe = true →
        a.m_waitingForKeyframe = true ∧
          ∀ out ∈ Run.outputs FrameAssembler.step a calls, ∀ f ∈ out.frames,
            f.keyframe = false) := by
  induction calls generalizing a packets with
  | nil => exact ⟨h.lost, fun hwaiting => ⟨hwaiting, by simp⟩⟩
  | cons call calls ih =>
      obtain ⟨rest, hnext, harriveNext, hcall⟩ := h.step harrive hprompt.1
      obtain ⟨hlost, hwaits⟩ := ih hnext harriveNext hprompt.2
      rw [Run.final_cons, Run.outputs_cons]
      refine ⟨hlost, fun hwaiting => ?_⟩
      obtain ⟨hwaited, hlater⟩ := hwaits hwaiting
      obtain ⟨hbefore, hfirst⟩ := (step_progress a call).waiting hcall
        (hnext.lost.trans h.lost.symm) hwaited
      exact ⟨hbefore, List.forall_mem_cons.mpr ⟨hfirst, hlater⟩⟩

/-- Nothing that the decoders could mix up. -/
def nothingHeld (_ : Nat) (_ : UInt32) : Prop :=
  False

/--
**Delivery without loss.**  The packets of frames with consecutive indices arrive in
order.  No frame is lost, and once a keyframe came through nobody waits for one.
-/
theorem lossless_delivery
    (a : FrameAssembler) {frames : List (SentBatches crate)}
    (hframes : Consecutive nothingHeld none frames) (calls : List Call)
    (harrive : arrivals calls <+: packetsOf frames)
    (hprompt : Run.Along FrameAssembler.step Prompt a.reset calls) :
    (Run.final FrameAssembler.step a.reset calls).m_framesLost = 0 ∧
      ∀ out ∈ Run.outputs FrameAssembler.step a.reset calls, ∀ f ∈ out.frames,
        f.keyframe = true →
          (Run.final FrameAssembler.step a.reset calls).m_waitingForKeyframe = false := by
  have hcontexts : Contexts nothingHeld ({} : SlicedFecFrameDecoder) := by
    refine ⟨rfl, rfl, ?_⟩
    intro i frameIndex hheld
    unfold SlicedFecFrameDecoder.Holds SlicedFecFrameDecoder.context at hheld
    rw [List.getD_eq_getElem?_getD, List.getElem?_replicate] at hheld
    split_ifs at hheld <;> exact absurd hheld (by simp [FecFrameDecoder.isActiveFor])
  have hstart : Between nothingHeld none a.reset :=
    ⟨rfl, rfl, fun _ hnone => absurd hnone (by simp), hcontexts⟩
  obtain ⟨hlost, hwaits⟩ := (Lossless.between hstart hframes).run calls harrive hprompt
  refine ⟨hlost, fun out hout f hf hkey => ?_⟩
  by_contra hwaiting
  have hplain := (hwaits (by simpa using hwaiting)).2 out hout f hf
  rw [hkey] at hplain
  exact absurd hplain (by decide)

end Run

end FrameAssembler
end Client
end FocusVision
