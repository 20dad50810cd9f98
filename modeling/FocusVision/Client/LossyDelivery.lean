import FocusVision.Client.LosslessDelivery
import FocusVision.Client.LossyFrame
import FocusVision.Client.ReferenceChain
import Mathlib.Tactic.IntervalCases

/-!
# Delivery with loss

A `FrameAssembler` that gets some packets of consecutive frames: of each frame any of its
packets, in any order, with duplicates, or none at all.  A frame is delivered exactly if
enough different shards of each of its code words came and it is a keyframe or the frame
before it was delivered.
-/

namespace FocusVision
namespace Client
namespace FrameAssembler

open Engine (CodeWord SentFrame RsCrate addSeen)

variable {crate : RsCrate}

/-! ### States -/

/-- The first `k` frames have such an index. -/
def Upto (first : UInt32) (k : Nat) (frameIndex : UInt32) : Prop :=
  ∃ j < k, frameIndex = first + UInt32.ofNat j

/-- The first `k` frames were sent; `chained` says that the last one was delivered. -/
structure Before (first : UInt32) (k : Nat) (chained : Bool) (time : Option Int)
    (a : FrameAssembler) : Prop where
  bulk : a.m_bulk.WellFormed
  contexts : a.m_sliced.Contexts (Upto first k)
  newest : a.m_haveFrame = true → Upto first k a.m_frameIndex
  chained_iff : chained = true ↔ a.m_waitingForKeyframe = false ∧ a.m_haveFrame = true ∧
    a.m_frameFinished = true ∧ a.m_frameIndex + 1 = first + UInt32.ofNat k
  noFrame : a.m_haveFrame = false → a.m_waitingForKeyframe = true
  time_eq : a.m_haveFrame = true → a.m_frameFinished = false → time = some a.m_lastFramePacket

/-- Some shards of frame `k` came, but not enough. -/
structure InProgress (first : UInt32) (k : Nat) (chained : Bool) (sent : SentFrame crate)
    (seen : Nat → Finset Nat) (a : FrameAssembler) : Prop where
  haveFrame : a.m_haveFrame = true
  frame_eq : a.m_frameIndex = sent.frameIndex
  unfinished : a.m_frameFinished = false
  sliced_eq : a.m_frameSliced = sent.sliced
  waiting_eq : a.m_waitingForKeyframe = !chained
  wellFormed : a.m_bulk.WellFormed
  contexts : a.m_sliced.Contexts (Upto first (k + 1))
  bulk : sent.sliced = false → ∀ word, sent.words[0]? = some word →
    a.m_bulk.HoldsSeen sent.frameIndex sent.isKeyframe word (seen 0)
  slices : sent.sliced = true → a.m_sliced.HoldsSeen (Upto first k) sent seen

/-- Frame `k` is finished; `chained` says that it was delivered. -/
structure Finished (first : UInt32) (k : Nat) (chained : Bool) (a : FrameAssembler) : Prop where
  bulk : a.m_bulk.WellFormed
  contexts : a.m_sliced.Contexts (Upto first (k + 1))
  haveFrame : a.m_haveFrame = true
  frame_eq : a.m_frameIndex = first + UInt32.ofNat k
  finished : a.m_frameFinished = true
  waiting_eq : a.m_waitingForKeyframe = !chained

/-- The frame as the client gets it, if it is passed on. -/
def passed (sent : SentFrame crate) (chained : Bool) : List Frame :=
  if sent.isKeyframe || chained then
    [{ frameIndex := sent.frameIndex, keyframe := sent.isKeyframe, data := sent.parts.flatten }]
  else []

/-- Where the assembler is with frame `k`, of which the shards `seen` came. -/
inductive Phase (first : UInt32) (k : Nat) (chained : Bool) (sent : SentFrame crate)
    (seen : Nat → Finset Nat) : Option Int → FrameAssembler → Prop
  | before {time a} :
      (seen = fun _ => ∅) → Before first k chained time a → Phase first k chained sent seen time a
  | inProgress {now a} :
      ¬sent.Complete seen → a.m_lastFramePacket = now →
      InProgress first k chained sent seen a → Phase first k chained sent seen (some now) a
  | finished {time a} :
      sent.Complete seen → Finished first k (sent.isKeyframe || chained) a →
      Phase first k chained sent seen time a

/-- The frame comes out once it is complete. -/
structure Passes (sent : SentFrame crate) (chained : Bool) (seen : Nat → Finset Nat)
    (frames : List Frame) : Prop where
  complete : sent.Complete seen → frames = passed sent chained
  incomplete : ¬sent.Complete seen → frames = []

section Frame

variable {first : UInt32} {k : Nat} {chained : Bool} {time : Option Int} {sent : SentFrame crate}
  {seen : Nat → Finset Nat} {g i : Nat} {word : CodeWord crate} {a : FrameAssembler}

theorem ofNat_succ
    (first : UInt32) (k : Nat) :
    first + UInt32.ofNat (k + 1) = first + UInt32.ofNat k + 1 := by
  rw [UInt32.ofNat_add, ← UInt32.add_assoc]
  rfl

theorem index_inj
    {j : Nat} (hj : j < 2 ^ 32) (hk : k < 2 ^ 32)
    (h : first + UInt32.ofNat j = first + UInt32.ofNat k) :
    j = k := by
  have hsame : UInt32.ofNat j = UInt32.ofNat k := by grind
  have hnat := congrArg UInt32.toNat hsame
  rwa [UInt32.toNat_ofNat_of_lt' hj, UInt32.toNat_ofNat_of_lt' hk] at hnat

theorem not_upto
    (hk : k < 2 ^ 32) :
    ¬Upto first k (first + UInt32.ofNat k) := by
  rintro ⟨j, hj, heq⟩
  have hsame := index_inj hk (Nat.lt_trans hj hk) heq
  omega

theorem Upto.mono
    {frameIndex : UInt32} (h : Upto first k frameIndex) :
    Upto first (k + 1) frameIndex := by
  obtain ⟨j, hj, heq⟩ := h
  exact ⟨j, Nat.lt_succ_of_lt hj, heq⟩

theorem Upto.isNewer
    {frameIndex : UInt32} (h : Upto first k frameIndex) (hk : k < 2 ^ 31) :
    isNewer (first + UInt32.ofNat k) frameIndex = true := by
  obtain ⟨j, hj, rfl⟩ := h
  have hdiff : first + UInt32.ofNat k - (first + UInt32.ofNat j) = UInt32.ofNat (k - j) := by
    have hsum : UInt32.ofNat k = UInt32.ofNat j + UInt32.ofNat (k - j) := by
      rw [← UInt32.ofNat_add, Nat.add_sub_cancel' (Nat.le_of_lt hj)]
    rw [hsum]
    grind
  rw [Chain.isNewer_iff, hdiff, UInt32.toNat_ofNat_of_lt' (by simp [UInt32.size]; omega)]
  omega

theorem Contexts.mono
    {old new : UInt32 → Prop} {d : SlicedFecFrameDecoder} (h : d.Contexts old)
    (hle : ∀ frameIndex, old frameIndex → new frameIndex) :
    d.Contexts new :=
  ⟨h.contexts, h.sliceData, h.wellFormed, fun i frameIndex hheld =>
    hle frameIndex (h.held i frameIndex hheld)⟩

/-- No packet of a frame came. -/
theorem Before.skip
    (h : Before first k chained time a) (hk : k + 1 < 2 ^ 32) :
    Before first (k + 1) false time a := by
  refine ⟨h.bulk, Contexts.mono h.contexts fun _ => Upto.mono, fun hhave => (h.newest hhave).mono,
    ?_, h.noFrame, h.time_eq⟩
  refine iff_of_false (by decide) ?_
  rintro ⟨-, hhave, -, hnext⟩
  obtain ⟨j, hj, heq⟩ := h.newest hhave
  rw [heq, ← ofNat_succ] at hnext
  have hsame := index_inj (by omega) hk hnext
  omega

/-- A frame is given up when the next one begins. -/
theorem InProgress.abandon
    (h : InProgress first k chained sent seen a)
    (hindex : sent.frameIndex = first + UInt32.ofNat k) :
    Before first (k + 1) false (some a.m_lastFramePacket) a := by
  refine ⟨h.wellFormed, h.contexts, fun _ => ?_, ?_, fun hnone => ?_, fun _ _ => rfl⟩
  · exact ⟨k, Nat.lt_succ_self k, h.frame_eq.trans hindex⟩
  · refine iff_of_false (by decide) ?_
    rintro ⟨-, -, hfinished, -⟩
    rw [h.unfinished] at hfinished
    exact absurd hfinished (by decide)
  · rw [h.haveFrame] at hnone
    exact absurd hnone (by decide)

/-- What is left of a finished frame when the next one begins. -/
theorem Finished.before
    (h : Finished first k chained a) :
    Before first (k + 1) chained time a := by
  refine ⟨h.bulk, h.contexts, fun _ => ⟨k, Nat.lt_succ_self k, h.frame_eq⟩, ?_, fun hnone => ?_,
    fun _ hunfinished => ?_⟩
  · rw [h.waiting_eq, ofNat_succ, h.frame_eq]
    cases chained <;> simp [h.haveFrame, h.finished]
  · rw [h.haveFrame] at hnone
    exact absurd hnone (by decide)
  · rw [h.finished] at hunfinished
    exact absurd hunfinished (by decide)

theorem Before.accountSequence
    (h : Before first k chained time a) (seq : UInt16) :
    Before first k chained time (a.accountSequence seq) := by
  obtain ⟨_, _, _, heq⟩ := a.accountSequence_eq_with seq
  rw [heq]
  exact ⟨h.bulk, h.contexts, h.newest, h.chained_iff, h.noFrame, h.time_eq⟩

theorem InProgress.accountSequence
    (h : InProgress first k chained sent seen a) (seq : UInt16) :
    InProgress first k chained sent seen (a.accountSequence seq) := by
  obtain ⟨_, _, _, heq⟩ := a.accountSequence_eq_with seq
  rw [heq]
  exact ⟨h.haveFrame, h.frame_eq, h.unfinished, h.sliced_eq, h.waiting_eq, h.wellFormed,
    h.contexts, h.bulk, h.slices⟩

theorem Finished.accountSequence
    (h : Finished first k chained a) (seq : UInt16) :
    Finished first k chained (a.accountSequence seq) := by
  obtain ⟨_, _, _, heq⟩ := a.accountSequence_eq_with seq
  rw [heq]
  exact ⟨h.bulk, h.contexts, h.haveFrame, h.frame_eq, h.finished, h.waiting_eq⟩

/-! ### A frame that is complete -/

/-- The first code word is all of a frame that is not sliced. -/
theorem complete_bulk
    (hbulk : sent.sliced = false) (hword : sent.words[0]? = some word) :
    sent.Complete seen ↔ word.dataCount ≤ (seen 0).card := by
  refine ⟨fun hcomplete => hcomplete 0 word hword, fun hle g word' hword' => ?_⟩
  have hg := (List.getElem?_eq_some_iff.mp hword').1
  have hone := sent.length_bulk hbulk
  obtain rfl : g = 0 := by omega
  rw [hword] at hword'
  cases hword'
  exact hle

theorem exists_word
    (sent : SentFrame crate) :
    ∃ word, sent.words[0]? = some word :=
  ⟨_, List.getElem?_eq_getElem sent.length_pos⟩

theorem not_complete_empty
    (sent : SentFrame crate) :
    ¬sent.Complete fun _ => ∅ := by
  intro hcomplete
  obtain ⟨word, hword⟩ := exists_word sent
  have hle := hcomplete 0 word hword
  have hpos := word.dataCount_pos
  rw [Finset.card_empty] at hle
  omega

theorem InProgress.currentComplete_iff
    (h : InProgress first k chained sent seen a) :
    a.currentComplete = true ↔ sent.Complete seen := by
  unfold currentComplete
  rw [h.sliced_eq]
  cases hsliced : sent.sliced with
  | false =>
      obtain ⟨word, hword⟩ := exists_word sent
      rw [if_neg (by decide), (h.bulk hsliced word hword).isComplete_eq, decide_eq_true_eq,
        complete_bulk hsliced hword]
  | true =>
      rw [if_pos rfl]
      exact (h.slices hsliced).isComplete_iff

/-- The bytes of a frame that is not sliced. -/
theorem parts_bulk
    (hbulk : sent.sliced = false) (hword : sent.words[0]? = some word) :
    (word.shards.take word.dataCount).flatten = sent.parts.flatten := by
  have hlen : sent.parts.length = 1 := by
    have hparts := congrArg List.length sent.parts_eq
    rw [List.length_map, List.length_map, sent.length_bulk hbulk] at hparts
    exact hparts.symm
  obtain ⟨part, hpart⟩ := List.length_eq_one_iff.mp hlen
  obtain ⟨part', hpart', hbytes⟩ := sent.part_isSome hword
  rw [hpart, List.getElem?_cons_zero] at hpart'
  cases hpart'
  rw [hbulk, Engine.groupBytes, if_neg (by decide)] at hbytes
  rw [hpart, List.flatten_singleton]
  exact Option.some.inj hbytes

theorem InProgress.tryDecode
    (h : InProgress first k chained sent seen a) (hsized : sent.Sized) (hcoded : sent.AllCoded)
    (hcomplete : sent.Complete seen) :
    ∃ bulk sliced, bulk.WellFormed ∧ sliced.Contexts (Upto first (k + 1)) ∧
      FrameAssembler.tryDecode { a with m_frameFinished := true } =
        (some ⟨sent.frameIndex, sent.parts.flatten, sent.isKeyframe⟩,
          { a with m_frameFinished := true, m_bulk := bulk, m_sliced := sliced }) := by
  have hsame := h.sliced_eq
  unfold FrameAssembler.tryDecode
  cases hsliced : sent.sliced with
  | false =>
      rw [hsliced] at hsame
      obtain ⟨word, hword⟩ := exists_word sent
      have hmem := List.mem_of_getElem? hword
      obtain ⟨c, hcache, hdecode⟩ := (h.bulk hsliced word hword).tryDecode_eq (hsized word hmem)
        (hcoded word hmem) ((complete_bulk hsliced hword).mp hcomplete)
      rw [if_neg (by rw [hsame]; decide), hdecode, parts_bulk hsliced hword]
      exact ⟨_, _, FecFrameDecoder.wellFormed_of_cache h.wellFormed hcache true, h.contexts, rfl⟩
  | true =>
      rw [hsliced] at hsame
      rw [if_pos hsame, (h.slices hsliced).tryDecode_eq hcomplete]
      have hcontexts := h.contexts
      exact ⟨a.m_bulk, { a.m_sliced with m_delivered := true }, h.wellFormed,
        ⟨hcontexts.contexts, hcontexts.sliceData, hcontexts.wellFormed, hcontexts.held⟩, rfl⟩

/-- A complete frame is put together, and passed on or skipped. -/
theorem InProgress.finishCurrent
    (h : InProgress first k chained sent seen a) (hsized : sent.Sized) (hcoded : sent.AllCoded)
    (hindex : sent.frameIndex = first + UInt32.ofNat k) (hcomplete : sent.Complete seen)
    (now : Int) (out : Output) :
    Finished first k (sent.isKeyframe || chained) (a.finishCurrent now out).1 ∧
      (a.finishCurrent now out).2.frames = out.frames ++ passed sent chained := by
  obtain ⟨bulk, sliced, hbulk, hcontexts, hdecode⟩ := h.tryDecode hsized hcoded hcomplete
  unfold FrameAssembler.finishCurrent passed
  simp only [hdecode]
  simp only [h.waiting_eq, h.frame_eq]
  cases hkey : sent.isKeyframe with
  | true =>
      simp only [Bool.true_or, if_true, Bool.not_true, Bool.false_eq_true, and_false, if_false]
      exact ⟨⟨hbulk, hcontexts, h.haveFrame, hindex, rfl, rfl⟩, trivial⟩
  | false =>
      cases chained with
      | true =>
          simp only [Bool.or_true, if_true, Bool.not_true, Bool.false_eq_true, false_and, if_false]
          exact ⟨⟨hbulk, hcontexts, h.haveFrame, hindex, rfl, rfl⟩, trivial⟩
      | false =>
          simp only [Bool.or_false, Bool.false_eq_true, if_false, Bool.not_false, and_self,
            if_true]
          unfold askForIdr
          split_ifs
          · exact ⟨⟨hbulk, hcontexts, h.haveFrame, hindex, rfl, rfl⟩,
              (List.append_nil _).symm⟩
          · exact ⟨⟨hbulk, hcontexts, h.haveFrame, hindex, rfl, rfl⟩,
              (List.append_nil _).symm⟩

/-! ### A packet of the frame -/

/-- Nothing is given up exactly if the frame before is finished. -/
theorem abandoned_eq_zero
    (a : FrameAssembler) (frameIndex : UInt32) :
    a.abandoned frameIndex = 0 ↔
      a.m_frameFinished = true ∧ a.m_frameIndex + 1 = frameIndex := by
  have hgap : min (frameIndex - a.m_frameIndex - 1).toNat kMaxCountedGap = 0 ↔
      a.m_frameIndex + 1 = frameIndex := by
    have hmax : kMaxCountedGap = 1000 := rfl
    have hzero : (frameIndex - a.m_frameIndex - 1).toNat = 0 ↔
        frameIndex - a.m_frameIndex - 1 = 0 := UInt32.toNat_inj (b := 0)
    rw [Nat.min_eq_zero_iff, hzero]
    grind
  unfold FrameAssembler.abandoned
  rw [Nat.add_eq_zero_iff, hgap]
  cases a.m_frameFinished <;> simp

/-- What is left of the frames before when frame `k` begins. -/
theorem Before.startFrame_eq
    (h : Before first k chained time a) {hdr : FvpHeaderView}
    (hindex : hdr.frameIndex = first + UInt32.ofNat k) (now : Int) (out : Output) :
    ∃ (b : FrameAssembler) (out' : Output),
      a.startFrame hdr now out =
        (b.beginFrame hdr.frameIndex hdr.flags hdr.totalShards hdr.dataShards now, out') ∧
      b.m_bulk = a.m_bulk ∧ b.m_sliced = a.m_sliced ∧ b.m_waitingForKeyframe = (!chained) ∧
      out'.frames = out.frames := by
  have hchained := h.chained_iff
  have hzero := abandoned_eq_zero a hdr.frameIndex
  rw [← hindex] at hchained
  unfold FrameAssembler.startFrame
  by_cases hlose : a.m_haveFrame ∧ a.abandoned hdr.frameIndex > 0
  · rw [if_pos hlose]
    have hfalse : chained = false := by
      rw [Bool.eq_false_iff]
      intro htrue
      obtain ⟨-, -, hfinished, hnext⟩ := hchained.mp htrue
      have hnone := hzero.mpr ⟨hfinished, hnext⟩
      omega
    unfold loseFrames askForIdr
    split_ifs
    · exact ⟨_, _, rfl, rfl, rfl, by rw [hfalse]; rfl, rfl⟩
    · exact ⟨_, _, rfl, rfl, rfl, by rw [hfalse]; rfl, rfl⟩
  · rw [if_neg hlose]
    refine ⟨_, _, rfl, rfl, rfl, ?_, rfl⟩
    cases hhave : a.m_haveFrame with
    | false =>
        rw [h.noFrame hhave]
        rw [hhave] at hchained
        cases chained with
        | false => rfl
        | true => exact absurd (hchained.mp rfl).2.1 (by decide)
    | true =>
        obtain ⟨hfinished, hnext⟩ := hzero.mp (by
          by_contra hne
          exact hlose ⟨hhave, Nat.pos_of_ne_zero hne⟩)
        rw [hhave, hfinished] at hchained
        cases chained with
        | false =>
            cases hwaiting : a.m_waitingForKeyframe with
            | true => rfl
            | false => exact absurd (hchained.mpr ⟨hwaiting, rfl, rfl, hnext⟩) (by decide)
        | true => exact (hchained.mp rfl).1

/-- The first packet of frame `k` that comes. -/
theorem Before.startFrame
    (h : Before first k chained time a) (hk : k < 2 ^ 31)
    (hindex : sent.frameIndex = first + UInt32.ofNat k)
    (hword : sent.words[g]? = some word) {shard : List UInt8}
    (hshard : word.shards[i]? = some shard) (now : Int) (out : Output) :
    InProgress first k chained sent (fun _ => ∅)
        (a.startFrame (.of (word.header sent.frameIndex (sent.flags g) i)) now out).1 ∧
      (a.startFrame (.of (word.header sent.frameIndex (sent.flags g) i)) now out).2.frames =
        out.frames := by
  have hg := (List.getElem?_eq_some_iff.mp hword).1
  have hlt := (List.getElem?_eq_some_iff.mp hshard).1
  obtain ⟨-, htotal, hdata⟩ := SentFrame.header_counts word sent.frameIndex (sent.flags g) hlt
  obtain ⟨hkey, hslices, -⟩ := sent.flags_fields hg
  have hkey : FvpFlags.isKeyframe (sent.flags g) = sent.isKeyframe := hkey
  have hslices : FvpFlags.sliceCount (sent.flags g) = sent.sliceCount :=
    (flags_eq _).2.2.trans hslices
  have hcount := sent.sliceCount_toNat
  have hfresh : ¬Upto first k sent.frameIndex := by
    rw [hindex]
    exact not_upto (by omega)
  have hmono : ∀ frameIndex, Upto first k frameIndex → Upto first (k + 1) frameIndex :=
    fun _ => Upto.mono
  obtain ⟨b, out', hstart, hbulk, hsliced, hwaiting, hframes⟩ :=
    @Before.startFrame_eq _ _ _ _ _ h (.of (word.header sent.frameIndex (sent.flags g) i))
      hindex now out
  rw [hstart]
  refine ⟨?_, hframes⟩
  simp only [FvpHeaderView.of, CodeWord.header] at htotal hdata ⊢
  unfold FrameAssembler.beginFrame
  simp only [hslices, hkey, sent.sliceCount_pos_iff, htotal, hdata]
  cases hkind : sent.sliced with
  | false =>
      rw [if_neg (by decide)]
      refine ⟨rfl, rfl, rfl, hkind.symm, hwaiting, ?_, ?_, ?_, ?_⟩
      · exact FecFrameDecoder.beginFrame_wellFormed _ _ _ _ _ (by rw [hbulk]; exact h.bulk)
      · rw [hsliced]
        exact Contexts.mono h.contexts hmono
      · intro _ word' hword'
        have hone := sent.length_bulk hkind
        obtain rfl : g = 0 := by omega
        rw [hword] at hword'
        cases hword'
        exact (FecFrameDecoder.beginFrame_holdsSeen (by rw [hbulk]; exact h.bulk) _ _ word).2
      · intro htrue
        rw [hkind] at htrue
        exact absurd htrue (by decide)
  | true =>
      rw [hkind, if_pos rfl] at hcount
      rw [if_pos rfl, hcount]
      have hbegun := (by rw [hsliced]; exact h.contexts : b.m_sliced.Contexts _).beginFrame hfresh
      refine ⟨rfl, rfl, rfl, hkind.symm, hwaiting, by rw [hbulk]; exact h.bulk, ?_, ?_, ?_⟩
      · refine Contexts.mono hbegun.contexts fun frameIndex hheld => ?_
        rcases hheld with rfl | hheld
        · exact ⟨k, Nat.lt_succ_self k, hindex⟩
        · exact hheld.mono
      · intro hfalse
        rw [hkind] at hfalse
        exact absurd hfalse (by decide)
      · exact fun _ => hbegun

/-- A shard of the frame in progress. -/
theorem InProgress.takeShard
    (h : InProgress first k chained sent seen a) (hsized : sent.Sized) (hcoded : sent.AllCoded)
    (hindex : sent.frameIndex = first + UInt32.ofNat k) (hword : sent.words[g]? = some word)
    {shard : List UInt8} (hshard : word.shards[i]? = some shard) (now : Int) (out : Output) :
    let res := a.takeShard (.of (word.header sent.frameIndex (sent.flags g) i)) shard now out
    Phase first k chained sent (addSeen seen g i) (some now) res.1 ∧
      (sent.Complete (addSeen seen g i) → res.2.frames = out.frames ++ passed sent chained) ∧
      (¬sent.Complete (addSeen seen g i) → res.2.frames = out.frames) := by
  have hg := (List.getElem?_eq_some_iff.mp hword).1
  have hlt := (List.getElem?_eq_some_iff.mp hshard).1
  obtain ⟨hshardIndex, htotal, hdata⟩ :=
    SentFrame.header_counts word sent.frameIndex (sent.flags g) hlt
  obtain ⟨-, -, hslice⟩ := sent.flags_fields hg
  obtain ⟨a', ha', hlast, hnext⟩ : ∃ a' : FrameAssembler,
      (if a.m_frameSliced = true then
        { a with
          m_lastFramePacket := now
          m_sliced := a.m_sliced.addShard (FvpFlags.sliceIndex (sent.flags g)).toNat i
            word.shards.length word.dataCount shard }
      else { a with m_lastFramePacket := now, m_bulk := a.m_bulk.addShard i shard }) = a' ∧
        a'.m_lastFramePacket = now ∧
        InProgress first k chained sent (addSeen seen g i) a' := by
    have hsame := h.sliced_eq
    cases hsliced : sent.sliced with
    | false =>
        rw [hsliced] at hsame
        refine ⟨_, if_neg (by rw [hsame]; decide), rfl, h.haveFrame, h.frame_eq, h.unfinished,
          h.sliced_eq, h.waiting_eq, ?_, h.contexts, ?_, ?_⟩
        · exact FecFrameDecoder.addShard_wellFormed h.wellFormed i shard
        · intro _ word' hword'
          have hone := sent.length_bulk hsliced
          obtain rfl : g = 0 := by omega
          rw [hword] at hword'
          cases hword'
          have hheld := (h.bulk hsliced word hword).addShard hshard
          have hself : addSeen seen 0 i 0 = insert i (seen 0) := Function.update_self ..
          rw [hself]
          exact hheld
        · intro htrue
          rw [hsliced] at htrue
          exact absurd htrue (by decide)
    | true =>
        rw [hsliced] at hsame
        have hle := sent.length_le
        have hgroup : (FvpFlags.sliceIndex (sent.flags g)).toNat = g := by
          rw [(flags_eq _).2.1, hslice hsliced, UInt8.toNat_ofNat']
          omega
        have hheld := (h.slices hsliced).addShard hsliced hsized hcoded hword hshard
        refine ⟨_, if_pos hsame, rfl, h.haveFrame, h.frame_eq, h.unfinished, h.sliced_eq,
          h.waiting_eq, h.wellFormed, ?_, ?_, ?_⟩
        · simp only [hgroup]
          refine Contexts.mono hheld.contexts fun frameIndex hold => ?_
          rcases hold with rfl | hold
          · exact ⟨k, Nat.lt_succ_self k, hindex⟩
          · exact hold.mono
        · intro hfalse
          rw [hsliced] at hfalse
          exact absurd hfalse (by decide)
        · intro _
          simp only [hgroup]
          exact hheld
  have htake : a.takeShard (.of (word.header sent.frameIndex (sent.flags g) i)) shard now out =
      if a'.currentComplete then a'.finishCurrent now out else (a', out) := by
    rw [← ha']
    unfold FrameAssembler.takeShard
    simp only [FvpHeaderView.of, hshardIndex, htotal, hdata]
    rfl
  have hiff := hnext.currentComplete_iff
  simp only [htake]
  by_cases hcomplete : sent.Complete (addSeen seen g i)
  · obtain ⟨hfinished, hframes⟩ :=
      hnext.finishCurrent hsized hcoded hindex hcomplete now out
    rw [if_pos (hiff.mpr hcomplete)]
    exact ⟨Phase.finished hcomplete hfinished, fun _ => hframes, fun hnot =>
      absurd hcomplete hnot⟩
  · rw [if_neg (hiff.not.mpr hcomplete)]
    exact ⟨Phase.inProgress hcomplete hlast hnext, fun hyes => absurd hyes hcomplete,
      fun _ => rfl⟩

/-- What one more shard gives out. -/
structure PassesNow (sent : SentFrame crate) (chained : Bool) (seen seen' : Nat → Finset Nat)
    (frames : List Frame) : Prop where
  completes : ¬sent.Complete seen → sent.Complete seen' → frames = passed sent chained
  otherwise : sent.Complete seen ∨ ¬sent.Complete seen' → frames = []

/-- A packet of the frame arrives. -/
theorem Phase.onPacket
    (h : Phase first k chained sent seen time a) (hk : k < 2 ^ 31) (hsized : sent.Sized)
    (hcoded : sent.AllCoded) (hindex : sent.frameIndex = first + UInt32.ofNat k)
    {packet : List UInt8} (hpacket : sent.Carries g i packet) (now : Int) :
    Phase first k chained sent (addSeen seen g i) (some now) (a.onPacket packet now {}).1 ∧
      PassesNow sent chained seen (addSeen seen g i) (a.onPacket packet now {}).2.frames := by
  obtain ⟨word, hword, hheader, hshard⟩ := hpacket.word
  have hview : (FvpHeaderView.of (word.header sent.frameIndex (sent.flags g) i)).frameIndex =
      sent.frameIndex := rfl
  unfold FrameAssembler.onPacket
  rw [parse_carries hword hheader hshard]
  simp only
  cases h with
  | before hseen h =>
      subst hseen
      have hbefore := h.accountSequence (rtpSequence packet)
      generalize a.accountSequence (rtpSequence packet) = b at hbefore
      have hother : ¬(b.m_haveFrame = true ∧ sent.frameIndex = b.m_frameIndex) := by
        rintro ⟨hhave, hsame⟩
        have hold := hbefore.newest hhave
        rw [← hsame, hindex] at hold
        exact not_upto (by omega) hold
      have hnewer : (!b.m_haveFrame) = true ∨ isNewer sent.frameIndex b.m_frameIndex = true := by
        cases hhave : b.m_haveFrame with
        | false => exact Or.inl rfl
        | true =>
            rw [hindex]
            exact Or.inr ((hbefore.newest hhave).isNewer hk)
      obtain ⟨hstarted, hframes⟩ := hbefore.startFrame hk hindex hword hshard now {}
      obtain ⟨hphase, hyes, hno⟩ := hstarted.takeShard hsized hcoded hindex hword hshard now
        (b.startFrame (.of (word.header sent.frameIndex (sent.flags g) i)) now {}).2
      rw [← hview] at hother hnewer
      rw [if_neg hother, if_pos hnewer]
      refine ⟨hphase, fun _ hcomplete => ?_, fun hcase => ?_⟩
      · rw [hframes] at hyes
        exact hyes hcomplete
      · rw [hframes] at hno
        exact hno (hcase.resolve_left (not_complete_empty sent))
  | inProgress hopen hlast h =>
      have hbefore := h.accountSequence (rtpSequence packet)
      obtain ⟨hphase, hyes, hno⟩ :=
        hbefore.takeShard hsized hcoded hindex hword hshard now {}
      rw [if_pos ⟨hbefore.haveFrame, hview.trans hbefore.frame_eq.symm⟩,
        if_neg (by rw [hbefore.unfinished]; decide)]
      exact ⟨hphase, fun _ => hyes, fun hcase => hno (hcase.resolve_left hopen)⟩
  | finished hcomplete h =>
      have hbefore := h.accountSequence (rtpSequence packet)
      rw [if_pos ⟨hbefore.haveFrame, hview.trans (hindex.trans hbefore.frame_eq.symm)⟩,
        if_pos hbefore.finished]
      exact ⟨Phase.finished (hcomplete.addSeen g i) hbefore, fun hnot => absurd hcomplete hnot,
        fun _ => rfl⟩

theorem Before.onTick
    (h : Before first k chained time a) {now : Int}
    (htimely : ∀ last ∈ time, now - last ≤ kFrameTimeout) (out : Output) :
    a.onTick now out = (a, out) := by
  unfold FrameAssembler.onTick
  refine if_neg ?_
  rintro ⟨hhave, hunfinished, hlate⟩
  have hle := htimely _ (h.time_eq hhave (by simpa using hunfinished))
  omega

/-- A tick that comes in time does nothing. -/
theorem Phase.onTick
    (h : Phase first k chained sent seen time a) {now : Int}
    (htimely : ∀ last ∈ time, now - last ≤ kFrameTimeout) (out : Output) :
    a.onTick now out = (a, out) := by
  cases h with
  | before _ h => exact h.onTick htimely out
  | inProgress _ hlast h =>
      have hle := htimely _ rfl
      rw [← hlast] at hle
      unfold FrameAssembler.onTick
      exact if_neg fun hlate => absurd hlate.2.2 (not_lt.mpr hle)
  | finished _ h =>
      have hfinished := h.finished
      unfold FrameAssembler.onTick
      rw [hfinished]
      exact if_neg (by simp)

/-- The next frame can begin. -/
theorem Phase.next
    (h : Phase first k chained sent seen time a) (hk : k < 2 ^ 31)
    (hindex : sent.frameIndex = first + UInt32.ofNat k) {complete : Bool}
    (hcomplete : complete = true ↔ sent.Complete seen) :
    Before first (k + 1) (complete && (sent.isKeyframe || chained)) time a := by
  have hopen : ¬sent.Complete seen → complete = false := fun hnot =>
    Bool.eq_false_iff.mpr (hcomplete.not.mpr hnot)
  cases h with
  | before hseen h =>
      rw [hopen (by rw [hseen]; exact not_complete_empty sent)]
      exact h.skip (by omega)
  | inProgress hnot hlast h =>
      rw [hopen hnot, ← hlast]
      exact h.abandon hindex
  | finished hyes h =>
      rw [hcomplete.mpr hyes, Bool.true_and]
      exact h.before

end Frame

/-! ### The calls of a frame -/

/-- Nobody asks for a keyframe, and no tick is later than the timeout behind a packet. -/
inductive Timely : Option Int → List Call → Prop
  | nil {last} : Timely last []
  | onPacket {last packet now calls} :
      Timely (some now) calls → Timely last (.onPacket packet now :: calls)
  | onTick {last now calls} :
      (∀ time ∈ last, now - time ≤ kFrameTimeout) → Timely last calls →
      Timely last (.onTick now :: calls)

/-- When the last packet came. -/
def lastPacket (time : Option Int) : List Call → Option Int
  | [] => time
  | .onPacket _ now :: calls => lastPacket (some now) calls
  | _ :: calls => lastPacket time calls

theorem Timely.append
    {time : Option Int} {calls later : List Call} (h : Timely time (calls ++ later)) :
    Timely time calls ∧ Timely (lastPacket time calls) later := by
  induction calls generalizing time with
  | nil => exact ⟨Timely.nil, h⟩
  | cons call calls ih =>
      rw [List.cons_append] at h
      cases h with
      | onPacket h => exact ⟨Timely.onPacket (ih h).1, (ih h).2⟩
      | onTick hsoon h => exact ⟨Timely.onTick hsoon (ih h).1, (ih h).2⟩

theorem lastPacket_append
    (time : Option Int) (calls later : List Call) :
    lastPacket time (calls ++ later) = lastPacket (lastPacket time calls) later := by
  induction calls generalizing time with
  | nil => rfl
  | cons call calls ih =>
      cases call with
      | onPacket packet now => exact ih (some now)
      | onTick now => exact ih time
      | requireKeyframe now => exact ih time

/-- The frames that some calls give out. -/
def framesOut (a : FrameAssembler) (calls : List Call) : List Frame :=
  (Run.outputs FrameAssembler.step a calls).flatMap Output.frames

theorem framesOut_append
    (a : FrameAssembler) (calls later : List Call) :
    framesOut a (calls ++ later) =
      framesOut a calls ++ framesOut (Run.final FrameAssembler.step a calls) later := by
  unfold framesOut
  rw [Run.outputs_append, List.flatMap_append]

theorem step_onTick
    {a : FrameAssembler} {now : Int} (h : a.onTick now {} = (a, {})) :
    FrameAssembler.step a (.onTick now) = ({}, a) := by
  unfold FrameAssembler.step
  simp only [h]

section Calls

variable {first : UInt32} {k : Nat} {chained : Bool} {time : Option Int} {sent : SentFrame crate}
  {a : FrameAssembler}

/-- Calls that bring packets of frame `k`, and ticks in time. -/
theorem Before.run
    (h : Before first k chained time a) (hk : k < 2 ^ 31) (hsized : sent.Sized)
    (hcoded : sent.AllCoded) (hindex : sent.frameIndex = first + UInt32.ofNat k)
    (calls : List Call) (harrive : ∀ p ∈ arrivals calls, sent.Sends p)
    (htimely : Timely time calls) :
    Phase first k chained sent (Engine.seenIn (arrivals calls)) (lastPacket time calls)
        (Run.final FrameAssembler.step a calls) ∧
      Passes sent chained (Engine.seenIn (arrivals calls)) (framesOut a calls) := by
  induction calls using List.reverseRecOn with
  | nil =>
      exact ⟨Phase.before rfl h, fun hcomplete => absurd hcomplete (not_complete_empty sent),
        fun _ => rfl⟩
  | append_singleton calls call ih =>
      have hsplit : arrivals (calls ++ [call]) = arrivals calls ++ call.packet?.toList := by
        unfold arrivals
        rw [List.filterMap_append]
        cases hcall : call.packet? <;> simp [hcall]
      obtain ⟨hbefore, hlast⟩ := htimely.append
      obtain ⟨hphase, hpasses⟩ := ih
        (fun p hp => harrive p (by rw [hsplit]; exact List.mem_append_left _ hp)) hbefore
      rw [hsplit, Run.final_append, framesOut_append, lastPacket_append]
      cases hlast with
      | @onPacket _ packet now _ _ =>
          obtain ⟨g, i, hcarries⟩ := harrive packet (by rw [hsplit]; simp [Call.packet?])
          obtain ⟨hnext, hnow⟩ := hphase.onPacket hk hsized hcoded hindex hcarries now
          have hseen : Engine.seenIn (arrivals calls ++ (Call.onPacket packet now).packet?.toList) =
              addSeen (Engine.seenIn (arrivals calls)) g i := by
            rw [Call.packet?, Option.toList_some, Engine.seenIn_append_singleton,
              hcarries.position_eq]
          have hout : framesOut (Run.final FrameAssembler.step a calls) [.onPacket packet now] =
              ((Run.final FrameAssembler.step a calls).onPacket packet now {}).2.frames :=
            List.append_nil _
          rw [hseen, hout]
          refine ⟨hnext, fun hcomplete => ?_, fun hnot => ?_⟩
          · by_cases hdone : sent.Complete (Engine.seenIn (arrivals calls))
            · rw [hpasses.complete hdone, hnow.otherwise (Or.inl hdone), List.append_nil]
            · rw [hpasses.incomplete hdone, hnow.completes hdone hcomplete, List.nil_append]
          · rw [hnow.otherwise (Or.inr hnot), List.append_nil]
            exact hpasses.incomplete fun hdone => hnot (hdone.addSeen g i)
      | @onTick _ now _ hsoon _ =>
          have hstep := step_onTick (hphase.onTick hsoon {})
          simp only [framesOut, Run.final_cons, Run.final_nil, Run.outputs_cons,
            Run.outputs_nil, hstep, Call.packet?, Option.toList_none, List.append_nil,
            List.flatMap_cons, List.flatMap_nil]
          exact ⟨hphase, hpasses⟩

/-- Without packets nothing comes out. -/
theorem Before.ticks
    (h : Before first k chained time a) {calls : List Call} (harrive : arrivals calls = [])
    (htimely : Timely time calls) :
    framesOut a calls = [] := by
  induction htimely generalizing a with
  | nil => rfl
  | onPacket _ _ => exact absurd harrive (by simp [arrivals, Call.packet?])
  | @onTick last now calls hsoon htimely ih =>
      unfold framesOut at ih ⊢
      rw [Run.outputs_cons, step_onTick (h.onTick hsoon {})]
      exact ih h harrive

end Calls

/-! ### Frames of an encoder -/

/-- A frame that was encoded, and those of its packets that arrive. -/
structure FrameArrival (crate : RsCrate) where
  encoder : Engine.FrameFecEncoder crate
  frameData : List UInt8
  frameIndex : UInt32
  timestamp90khz : UInt32
  isKeyframe : Bool
  sequence : UInt16
  packets : List (List UInt8)
  encoder_ok : encoder.Ok
  nonempty : frameData ≠ []
  fits : encoder.Fits frameData
  drawn : ∀ p ∈ packets,
    p ∈ (encoder.encode frameData frameIndex timestamp90khz isKeyframe sequence).1.flatten

namespace FrameArrival

/-- The packets that were sent. -/
def batches (f : FrameArrival crate) : List (List (List UInt8)) :=
  (f.encoder.encode f.frameData f.frameIndex f.timestamp90khz f.isKeyframe f.sequence).1

/-- Do enough different shards of every code word arrive? -/
def decodable (f : FrameArrival crate) : Bool :=
  f.batches.all fun batch =>
    decide (Engine.dataShardCount batch ≤ Engine.distinctIn batch f.packets)

/-- The frame as the client gets it. -/
def frame (f : FrameArrival crate) : Frame :=
  { frameIndex := f.frameIndex
    keyframe := f.isKeyframe
    data := Engine.receivedData (f.encoder.layout f.frameData) f.frameData }

/-- What the client gets: `chained` says that the frame before was delivered. -/
def delivered : Bool → List (FrameArrival crate) → List Frame
  | _, [] => []
  | chained, f :: rest =>
      if f.decodable && (f.isKeyframe || chained) then f.frame :: delivered true rest
      else delivered false rest

theorem decodable_iff
    (f : FrameArrival crate) :
    f.decodable = true ↔ Engine.EnoughShards f.batches f.packets := by
  simp [decodable, Engine.EnoughShards]

/-- The code words of the frame. -/
theorem exists_sent
    (f : FrameArrival crate) (hcrate : crate.Vandermonde) :
    ∃ sent : SentFrame crate, sent.Sized ∧ sent.AllCoded ∧ sent.frameIndex = f.frameIndex ∧
      sent.isKeyframe = f.isKeyframe ∧
      (∀ chained, passed sent chained = if f.isKeyframe || chained then [f.frame] else []) ∧
      (∀ p ∈ f.packets, sent.Sends p) ∧
      (f.decodable = true ↔ sent.Complete (Engine.seenIn f.packets)) := by
  obtain ⟨sent, hsent, hsized, -, hresult⟩ :=
    @Engine.FrameFecEncoder.encode_sentAs crate f.encoder f.frameData f.frameIndex
      f.timestamp90khz f.isKeyframe f.sequence hcrate.correct f.encoder_ok f.nonempty f.fits
  have hcoded := hsent.allCoded
    (Engine.FrameFecEncoder.encode_matrixCoded hcrate f.encoder_ok f.frameData f.frameIndex
      f.timestamp90khz f.isKeyframe f.sequence)
  simp only [SentFrame.result, Engine.ReassembledFrame.mk.injEq] at hresult
  obtain ⟨hindex, hkey, hdata⟩ := hresult
  refine ⟨sent, hsized, hcoded, hindex, hkey, fun chained => ?_, fun p hp => ?_, ?_⟩
  · unfold passed frame
    rw [hindex, hkey, hdata]
  · obtain ⟨g, i, word, batch, hword, hbatch, hi⟩ := hsent.sends (f.drawn p hp)
    exact ⟨g, i, hsent.carries hword hbatch hi⟩
  · rw [f.decodable_iff]
    exact hsent.enough_iff f.drawn

end FrameArrival

/-- The slice decoders of a new session hold nothing. -/
theorem contexts_init
    (old : UInt32 → Prop) :
    SlicedFecFrameDecoder.Contexts old {} := by
  have hcontext : ∀ i, ({} : SlicedFecFrameDecoder).context i = {} := by
    intro i
    unfold SlicedFecFrameDecoder.context
    rw [List.getD_eq_getElem?_getD, List.getElem?_replicate]
    split_ifs <;> rfl
  refine ⟨rfl, rfl, fun i => ?_, fun i frameIndex hheld => ?_⟩
  · rw [hcontext]
    exact FecFrameDecoder.wellFormed_init
  · unfold SlicedFecFrameDecoder.Holds at hheld
    rw [hcontext] at hheld
    exact absurd hheld (by simp [FecFrameDecoder.isActiveFor])

/-- Frame after frame. -/
theorem Before.frames
    (hcrate : crate.Vandermonde) {first : UInt32} {k : Nat} {chained : Bool}
    {time : Option Int} {a : FrameAssembler} (h : Before first k chained time a)
    {frames : List (FrameArrival crate)} (hlen : k + frames.length ≤ 2 ^ 31)
    (hindex : ∀ (i : Nat) f, frames[i]? = some f → f.frameIndex = first + UInt32.ofNat (k + i))
    {calls : List Call} (harrive : arrivals calls = frames.flatMap (·.packets))
    (htimely : Timely time calls) :
    framesOut a calls = FrameArrival.delivered chained frames := by
  induction frames generalizing k chained time a calls with
  | nil => exact h.ticks harrive htimely
  | cons f frames ih =>
      rw [List.length_cons] at hlen
      obtain ⟨sent, hsized, hcoded, hsentIndex, hkey, hpassed, hsends, hcomplete⟩ :=
        f.exists_sent hcrate
      rw [List.flatMap_cons] at harrive
      obtain ⟨mine, later, rfl, hmine, hlater⟩ := List.filterMap_eq_append_iff.mp harrive
      have hmine : arrivals mine = f.packets := hmine
      obtain ⟨hsoon, hsoonLater⟩ := htimely.append
      have hsame : sent.frameIndex = first + UInt32.ofNat k :=
        hsentIndex.trans (hindex 0 f rfl)
      obtain ⟨hphase, hpasses⟩ := h.run (by omega) hsized hcoded hsame mine
        (by rw [hmine]; exact hsends) hsoon
      rw [hmine] at hphase hpasses
      have hnext := hphase.next (by omega) hsame hcomplete
      rw [hkey] at hnext
      have hrest := ih hnext (by omega) (fun i g hg => by
        rw [Nat.add_assoc, Nat.add_comm 1 i]
        exact hindex (i + 1) g hg) hlater hsoonLater
      rw [framesOut_append, hrest, FrameArrival.delivered]
      cases hdecodable : f.decodable with
      | false =>
          rw [hpasses.incomplete (hcomplete.not.mp (by rw [hdecodable]; decide))]
          rfl
      | true =>
          rw [hpasses.complete (hcomplete.mp hdecodable), hpassed]
          cases hpass : f.isKeyframe || chained <;> rfl

/--
**Delivery with loss.**  Encoded frames with consecutive indices are sent, and of each frame
some packets arrive, in any order and any number, but no later than those of the next frame.
The client hands out exactly the frames with enough shards of each code word that are
keyframes or follow a frame that it handed out.
-/
theorem lossy_delivery
    (hcrate : crate.Vandermonde) (a : FrameAssembler) {first : UInt32}
    {frames : List (FrameArrival crate)} (hlen : frames.length ≤ 2 ^ 31)
    (hindex : ∀ (i : Nat) f, frames[i]? = some f → f.frameIndex = first + UInt32.ofNat i)
    {calls : List Call} (harrive : arrivals calls = frames.flatMap (·.packets))
    (htimely : Timely none calls) :
    (Run.outputs FrameAssembler.step a.reset calls).flatMap Output.frames =
      FrameArrival.delivered false frames := by
  have hstart : Before first 0 false none a.reset := by
    have hnone : ¬a.reset.m_haveFrame = true := Bool.false_ne_true
    exact ⟨FecFrameDecoder.wellFormed_init, contexts_init _, fun hhave => absurd hhave hnone,
      iff_of_false (by decide) fun hall => hnone hall.2.1, fun _ => rfl,
      fun hhave => absurd hhave hnone⟩
  exact hstart.frames hcrate (by omega) (fun i f hf => by
    rw [Nat.zero_add]
    exact hindex i f hf) harrive htimely

/-- A frame of three bytes: all its packets, backwards, or none. -/
def sampleArrival (frameIndex : UInt32) (isKeyframe arrives : Bool) :
    FrameArrival Engine.galois8 where
  encoder := Engine.sampleEncoder
  frameData := [1, 2, 3]
  frameIndex
  timestamp90khz := 90
  isKeyframe
  sequence := 65535
  packets :=
    if arrives then
      (Engine.sampleEncoder.encode [1, 2, 3] frameIndex 90 isKeyframe 65535).1.flatten.reverse
    else []
  encoder_ok := (Engine.FrameFecEncoder.ok_new Engine.sample_bulk.1 false 4).after _
  nonempty := by simp
  fits := by
    intro hunprotected
    rw [Engine.sample_bulk.2] at hunprotected
    exact absurd hunprotected (by simp)
  drawn := by
    intro p hp
    split_ifs at hp
    · exact List.mem_reverse.mp hp
    · exact absurd hp (by simp)

theorem sampleArrival_decodable
    (frameIndex : UInt32) (isKeyframe arrives : Bool) :
    (sampleArrival frameIndex isKeyframe arrives).decodable = arrives := by
  obtain ⟨sent, -, -, -, -, -, -, hcomplete⟩ :=
    (sampleArrival frameIndex isKeyframe arrives).exists_sent Engine.galois8_vandermonde
  cases arrives with
  | false =>
      rw [Bool.eq_false_iff, Ne, hcomplete]
      exact not_complete_empty sent
  | true =>
      obtain ⟨sent, hsent, -⟩ :=
        @Engine.FrameFecEncoder.encode_sentAs Engine.galois8 Engine.sampleEncoder [1, 2, 3]
          frameIndex 90 isKeyframe 65535 Engine.galois8_vandermonde.correct
          (sampleArrival frameIndex isKeyframe true).encoder_ok (by simp)
          (sampleArrival frameIndex isKeyframe true).fits
      rw [FrameArrival.decodable_iff]
      refine (hsent.enough_iff (sampleArrival frameIndex isKeyframe true).drawn).mpr ?_
      refine hsent.complete_of_all fun p hp => ?_
      simp only [sampleArrival, if_true]
      exact List.mem_reverse.mpr hp

theorem timely_packets
    (last : Option Int) (packets : List (List UInt8)) (now : Int) :
    Timely last (packets.map fun packet => .onPacket packet now) := by
  induction packets generalizing last with
  | nil => exact Timely.nil
  | cons packet packets ih => exact Timely.onPacket (ih (some now))

theorem arrivals_packets
    (packets : List (List UInt8)) (now : Int) :
    arrivals (packets.map fun packet => .onPacket packet now) = packets := by
  unfold arrivals
  rw [List.filterMap_map]
  exact List.filterMap_some

/-- A keyframe comes, the next frame is lost, and so is the one that builds on it. -/
def lossyFrames : List (FrameArrival Engine.galois8) :=
  [sampleArrival 7 true true, sampleArrival 8 false false, sampleArrival 9 false true,
    sampleArrival 10 true true]

theorem lossy_delivery_gap :
    (Run.outputs FrameAssembler.step ({} : FrameAssembler).reset
        ((lossyFrames.flatMap (·.packets)).map fun packet => .onPacket packet 5)).flatMap
          Output.frames =
      [⟨7, true, [1, 2, 3] ++ List.replicate 1197 0⟩,
        ⟨10, true, [1, 2, 3] ++ List.replicate 1197 0⟩] := by
  have hdata : Engine.receivedData (Engine.sampleEncoder.layout [1, 2, 3]) [1, 2, 3] =
      [1, 2, 3] ++ List.replicate 1197 0 := by
    rw [Engine.sample_bulk.2]
    rfl
  have hindex : ∀ (i : Nat) f, lossyFrames[i]? = some f →
      f.frameIndex = (7 : UInt32) + UInt32.ofNat i := by
    intro i f hf
    have hi := (List.getElem?_eq_some_iff.mp hf).1
    simp only [lossyFrames, List.length_cons, List.length_nil] at hi
    interval_cases i <;> cases hf <;> rfl
  have h := @lossy_delivery _ Engine.galois8_vandermonde {} 7 lossyFrames (by simp [lossyFrames])
    hindex _ (arrivals_packets _ 5) (timely_packets none _ 5)
  refine h.trans ?_
  have hframe : ∀ frameIndex key arrives, (sampleArrival frameIndex key arrives).frame =
      ⟨frameIndex, key, [1, 2, 3] ++ List.replicate 1197 0⟩ := fun frameIndex key _ =>
    congrArg (fun data => (⟨frameIndex, key, data⟩ : Frame)) hdata
  simp only [lossyFrames, FrameArrival.delivered, sampleArrival_decodable, hframe]
  rfl

end FrameAssembler
end Client
end FocusVision
