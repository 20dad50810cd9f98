import FocusVision.Client.FecDecoderCorrect
import FocusVision.Client.LosslessFrame
import FocusVision.Engine.SentCode

/-!
# A frame with loss

The packets of a sent frame at the client's decoders, in any order and any number: each
decoder holds some shards of its code word, and has the data as soon as they are enough.
-/

namespace FocusVision
namespace Client

open Engine (CodeWord SentFrame RsCrate MatrixCoded codeWord)

variable {crate : RsCrate}

/-! ### One code word -/

namespace FecFrameDecoder

variable {d : FecFrameDecoder} {frameIndex : UInt32} {key : Bool} {word : CodeWord crate}
  {seen : Finset Nat}

/-- The decoder has these shards of the code word. -/
structure HoldsSeen (frameIndex : UInt32) (key : Bool) (word : CodeWord crate)
    (seen : Finset Nat) (d : FecFrameDecoder) : Prop where
  wellFormed : d.WellFormed
  active : d.m_active = true
  waiting : d.m_delivered = false
  frame_eq : d.m_frameIndex = frameIndex
  key_eq : d.m_isKeyframe = key
  total : d.m_totalShards = word.shards.length
  data : d.m_dataShards = word.dataCount
  received_iff : ∀ i, d.received i = true ↔ i ∈ seen
  shard_eq : ∀ i ∈ seen, word.shards[i]? = some (d.shard i)

theorem beginFrame_holdsSeen
    (hd : d.WellFormed) (frameIndex : UInt32) (key : Bool) (word : CodeWord crate) :
    (d.beginFrame frameIndex word.shards.length word.dataCount key).1 = true ∧
      (d.beginFrame frameIndex word.shards.length word.dataCount key).2.HoldsSeen
        frameIndex key word ∅ := by
  have hcounts : CountsOk word.shards.length word.dataCount :=
    ⟨word.dataCount_pos, word.dataCount_le, word.length_le⟩
  have hwell := beginFrame_wellFormed d frameIndex word.shards.length word.dataCount key hd
  rw [beginFrame_of_countsOk d _ _ _ _ hcounts] at hwell ⊢
  refine ⟨rfl, hwell, rfl, rfl, rfl, rfl, rfl, rfl, fun i => ?_, fun i hi => ?_⟩
  · rw [received_replicate _ rfl]
    simp
  · exact absurd hi (by simp)

theorem HoldsSeen.receivedSet_eq
    (h : HoldsSeen frameIndex key word seen d) :
    d.receivedSet = seen := by
  ext i
  rw [mem_receivedSet h.wellFormed.length, h.received_iff]

theorem HoldsSeen.count
    (h : HoldsSeen frameIndex key word seen d) :
    d.m_receivedCount = seen.card := by
  rw [h.wellFormed.count, h.receivedSet_eq]

theorem HoldsSeen.lt_length
    (h : HoldsSeen frameIndex key word seen d) {i : Nat} (hi : i ∈ seen) :
    i < word.shards.length :=
  (List.getElem?_eq_some_iff.mp (h.shard_eq i hi)).1

/-- As soon as a shard is here, the size is known. -/
theorem HoldsSeen.size_eq
    (h : HoldsSeen frameIndex key word seen d) {i : Nat} (hi : i ∈ seen) :
    d.m_shardSize = word.size := by
  rw [← h.wellFormed.size i ((h.received_iff i).mpr hi)]
  exact word.length_eq _ (List.mem_of_getElem? (h.shard_eq i hi))

/-- Another shard of the code word, new or not. -/
theorem HoldsSeen.addShard
    (h : HoldsSeen frameIndex key word seen d) {i : Nat} {shard : List UInt8}
    (hshard : word.shards[i]? = some shard) :
    HoldsSeen frameIndex key word (insert i seen) (d.addShard i shard) := by
  have hwell := addShard_wellFormed h.wellFormed i shard
  have hlt := (List.getElem?_eq_some_iff.mp hshard).1
  have hsize := word.length_eq shard (List.mem_of_getElem? hshard)
  by_cases hi : i ∈ seen
  · -- a duplicate
    rcases addShard_cases d i shard with ⟨haccepts, -⟩ | ⟨-, heq⟩
    · have hfresh := haccepts.fresh
      rw [(h.received_iff i).mpr hi] at hfresh
      exact absurd hfresh (by decide)
    · rw [heq, Finset.insert_eq_of_mem hi]
      exact h
  · have haccepts : d.Accepts i shard :=
      { active := h.active
        waiting := h.waiting
        nonempty := by rw [hsize]; exact word.size_pos
        index := by rw [h.total]; exact hlt
        fresh := Bool.eq_false_iff.mpr fun hrec => hi ((h.received_iff i).mp hrec)
        size := by
          rw [hsize]
          rcases Finset.eq_empty_or_nonempty seen with hempty | ⟨j, hj⟩
          · exact Or.inl (h.wellFormed.size_zero (by rw [h.count, hempty]; rfl))
          · exact Or.inr (h.size_eq hj).symm }
    rcases addShard_cases d i shard with ⟨-, heq⟩ | ⟨hno, -⟩
    · rw [heq] at hwell ⊢
      refine ⟨hwell, h.active, h.waiting, h.frame_eq, h.key_eq, h.total, h.data, ?_, ?_⟩
      · intro j
        rw [received_set h.wellFormed.length haccepts.index]
        simp [h.received_iff]
      · intro j hj
        rw [shard_set h.wellFormed.length haccepts.index]
        by_cases hji : j = i
        · rw [if_pos hji, hji]
          exact hshard
        · rw [if_neg hji]
          exact h.shard_eq j (Finset.mem_of_mem_insert_of_ne hj hji)
    · exact absurd haccepts hno

theorem HoldsSeen.isComplete_eq
    (h : HoldsSeen frameIndex key word seen d) :
    d.isComplete = decide (word.dataCount ≤ seen.card) := by
  unfold isComplete
  rw [h.active, h.count, h.data, Bool.true_and]

/-- The stored shards of a code word with parity. -/
theorem HoldsSeen.inCodeWord
    (h : HoldsSeen frameIndex key word seen d) (hsize : word.size = Engine.FEC_SHARD_SIZE)
    (hseen : seen.Nonempty) {p : Nat} (hle : word.dataCount + p ≤ Engine.RS_MAX_TOTAL_SHARDS)
    (hshards : word.shards =
      codeWord word.dataCount p (word.shards.take word.dataCount) Engine.FEC_SHARD_SIZE) :
    d.InCodeWord (word.shards.take word.dataCount) := by
  obtain ⟨j, hj⟩ := hseen
  have hstored := h.size_eq hj
  have htotal : d.m_totalShards = word.dataCount + p := by
    rw [h.total, hshards, Engine.length_codeWord]
  have hcode : ∀ {total n : Nat} (hn : n ≤ total) (i : Fin total), n = word.dataCount →
      total = word.dataCount + p →
      word.shards[i.val]? = some (codeShard hn (word.shards.take word.dataCount)
        Engine.FEC_SHARD_SIZE i) := by
    rintro total n hn i rfl rfl
    exact (congrArg (·[i.val]?) hshards).trans (Engine.codeWord_getElem? _ _ i)
  refine
    { total_le := by rw [htotal]; exact hle
      data_le := by rw [h.data, h.total]; exact word.dataCount_le
      data_length := by
        rw [h.data, List.length_take, Nat.min_eq_left word.dataCount_le]
      data_size := fun shard hshard => by
        rw [hstored]
        exact word.length_eq shard (List.mem_of_mem_take hshard)
      shard_eq := fun i hi => ?_ }
  have hmem := (h.received_iff i.val).mp hi
  have hstoredShard := h.shard_eq i.val hmem
  rw [hcode _ i h.data htotal] at hstoredShard
  rw [hstored, hsize]
  exact (Option.some.inj hstoredShard).symm

/-- The data of the code word, from any shards that are enough. -/
theorem HoldsSeen.tryDecode_eq
    (h : HoldsSeen frameIndex key word seen d) (hsize : word.size = Engine.FEC_SHARD_SIZE)
    (hcoded : MatrixCoded word.dataCount word.shards)
    (hcomplete : word.dataCount ≤ seen.card) :
    ∃ c, CacheOk c ∧ d.tryDecode =
      (some ⟨frameIndex, (word.shards.take word.dataCount).flatten, key⟩,
        { d with m_encodingCache := c, m_delivered := true }) := by
  have hpos := word.dataCount_pos
  rcases hcoded with hplain | ⟨p, hle, hshards⟩
  · -- no parity: every shard is here
    have hsubset : seen ⊆ Finset.range word.shards.length := fun i hi =>
      Finset.mem_range.mpr (h.lt_length hi)
    have hall : seen = Finset.range word.shards.length :=
      Finset.eq_of_subset_of_card_le hsubset (by rw [Finset.card_range, ← hplain]; exact hcomplete)
    have hreceived : (List.range d.m_dataShards).all d.received = true := by
      rw [List.all_eq_true]
      intro i hi
      rw [List.mem_range, h.data, hplain] at hi
      rw [h.received_iff, hall, Finset.mem_range]
      exact hi
    have hdata : d.concatData = (word.shards.take word.dataCount).flatten := by
      rw [hplain, List.take_length, flatten_eq_flatMap_getD, concatData, h.data, hplain]
      refine List.flatMap_congr fun i hi => ?_
      rw [List.mem_range] at hi
      have hshard := h.shard_eq i (by rw [hall, Finset.mem_range]; exact hi)
      rw [List.getD_eq_getElem?_getD, hshard, Option.getD_some]
    refine ⟨d.m_encodingCache, h.wellFormed.cache, ?_⟩
    unfold tryDecode
    rw [h.isComplete_eq, h.waiting, decide_eq_true hcomplete, if_neg (by decide),
      if_pos hreceived, hdata, h.frame_eq, h.key_eq]
  · have hseen : seen.Nonempty := Finset.card_pos.mp (by omega)
    obtain ⟨c, hcache, hdecode⟩ := tryDecode_eq_some h.wellFormed
      (h.inCodeWord hsize hseen hle hshards) h.active h.waiting
      (by rw [h.data, h.count]; exact hcomplete)
    refine ⟨c, hcache, hdecode.trans ?_⟩
    simp only [h.frame_eq, h.key_eq]

end FecFrameDecoder

/-! ### Slices -/

namespace SlicedFecFrameDecoder

open Engine (addSeen)

/-- The decoder of a slice that has seen these shards. -/
def ContextSeen (frameIndex : UInt32) (key : Bool) (word : CodeWord crate) (seen : Finset Nat)
    (ctx : FecFrameDecoder) : Prop :=
  if seen = ∅ then ctx.isActiveFor frameIndex = false
  else if seen.card < word.dataCount then ctx.HoldsSeen frameIndex key word seen
  else ctx.isActiveFor frameIndex = true ∧ ctx.m_delivered = true

/-- What the slice decoders hold of frames before, and the good order of all. -/
structure Contexts (old : UInt32 → Prop) (d : SlicedFecFrameDecoder) : Prop where
  contexts : d.m_contexts.length = MAX_SLICES
  sliceData : d.m_sliceData.length = MAX_SLICES
  wellFormed : ∀ i, (d.context i).WellFormed
  held : ∀ i frameIndex, d.Holds i frameIndex → old frameIndex

/-- The slices of the frame have seen these shards. -/
structure HoldsSeen (old : UInt32 → Prop) (sent : SentFrame crate) (seen : Nat → Finset Nat)
    (d : SlicedFecFrameDecoder) : Prop where
  active : d.m_active = true
  waiting : d.m_delivered = false
  frame_eq : d.m_frameIndex = sent.frameIndex
  key_eq : d.m_isKeyframe = sent.isKeyframe
  count : d.m_sliceCount = sent.words.length
  contexts : Contexts (fun frameIndex => frameIndex = sent.frameIndex ∨ old frameIndex) d
  context : ∀ g word, sent.words[g]? = some word →
    ContextSeen sent.frameIndex sent.isKeyframe word (seen g) (d.context g)
  done : ∀ g word, sent.words[g]? = some word →
    d.sliceDone g = decide (word.dataCount ≤ (seen g).card)
  data : ∀ g word, sent.words[g]? = some word → word.dataCount ≤ (seen g).card →
    d.m_sliceData[g]? = sent.parts[g]?

variable {old : UInt32 → Prop} {sent : SentFrame crate} {seen : Nat → Finset Nat} {g i : Nat}
  {word : CodeWord crate} {d : SlicedFecFrameDecoder}

/-- The decoder that takes a shard of a slice that is not decoded. -/
theorem HoldsSeen.started
    (h : HoldsSeen old sent seen d) (hword : sent.words[g]? = some word)
    (hlt : (seen g).card < word.dataCount) :
    ∃ ctx, (if (d.context g).isActiveFor d.m_frameIndex then (true, d.context g)
        else (d.context g).beginFrame d.m_frameIndex word.shards.length word.dataCount
          d.m_isKeyframe) = (true, ctx) ∧
      ctx.HoldsSeen sent.frameIndex sent.isKeyframe word (seen g) := by
  have hcontext := h.context g word hword
  unfold ContextSeen at hcontext
  rw [h.frame_eq, h.key_eq]
  by_cases hempty : seen g = ∅
  · rw [if_pos hempty] at hcontext
    rw [hcontext, if_neg (by decide), hempty]
    obtain ⟨hok, hholds⟩ := FecFrameDecoder.beginFrame_holdsSeen (h.contexts.wellFormed g)
      sent.frameIndex sent.isKeyframe word
    exact ⟨_, Prod.ext hok rfl, hholds⟩
  · rw [if_neg hempty, if_pos hlt] at hcontext
    have hactive : (d.context g).isActiveFor sent.frameIndex = true := by
      unfold FecFrameDecoder.isActiveFor
      rw [hcontext.active, hcontext.frame_eq]
      simp
    rw [hactive, if_pos rfl]
    exact ⟨_, rfl, hcontext⟩

theorem sliceDone_eq
    (d : SlicedFecFrameDecoder) (i : Nat) :
    d.sliceDone i = d.m_sliceCompleted.testBit i := by
  unfold sliceDone
  rw [Nat.one_shiftLeft, Nat.and_two_pow]
  cases d.m_sliceCompleted.testBit i <;> simp

theorem context_seen_set
    {ctx : FecFrameDecoder} (hg : g < d.m_contexts.length) {sliceData : List (List UInt8)}
    {completed : Nat} (j : Nat) :
    ({ d with
      m_contexts := d.m_contexts.set g ctx
      m_sliceData := sliceData
      m_sliceCompleted := completed } : SlicedFecFrameDecoder).context j =
      if j = g then ctx else d.context j :=
  context_set d ctx hg j

/-- What a shard has to leave in the decoder of its slice. -/
theorem HoldsSeen.update
    (h : HoldsSeen old sent seen d) (hword : sent.words[g]? = some word)
    {ctx : FecFrameDecoder} {sliceData : List (List UInt8)} {completed : Nat}
    (hwell : ctx.WellFormed) (hheld : ∀ frameIndex, ctx.isActiveFor frameIndex = true →
      frameIndex = sent.frameIndex)
    (hctx : ContextSeen sent.frameIndex sent.isKeyframe word (insert i (seen g)) ctx)
    (hlength : sliceData.length = MAX_SLICES)
    (hdone : completed.testBit g = decide (word.dataCount ≤ (insert i (seen g)).card))
    (hdata : word.dataCount ≤ (insert i (seen g)).card → sliceData[g]? = sent.parts[g]?)
    (hsame : ∀ j, j ≠ g → completed.testBit j = d.m_sliceCompleted.testBit j ∧
      sliceData[j]? = d.m_sliceData[j]?) :
    HoldsSeen old sent (addSeen seen g i)
      { d with
        m_contexts := d.m_contexts.set g ctx
        m_sliceData := sliceData
        m_sliceCompleted := completed } := by
  have hlt : g < d.m_contexts.length := by
    have hg := (List.getElem?_eq_some_iff.mp hword).1
    have hle := sent.length_le
    have hmax : MAX_SLICES = 15 := rfl
    rw [h.contexts.contexts]
    omega
  have hcontext := fun j => @context_seen_set g d ctx hlt sliceData completed j
  have hself : addSeen seen g i g = insert i (seen g) := Function.update_self ..
  have hother : ∀ j, j ≠ g → addSeen seen g i j = seen j := fun j hj =>
    Function.update_of_ne hj ..
  refine ⟨h.active, h.waiting, h.frame_eq, h.key_eq, h.count, ⟨?_, hlength, ?_, ?_⟩, ?_, ?_, ?_⟩
  · rw [List.length_set]
    exact h.contexts.contexts
  · intro j
    rw [hcontext]
    split_ifs
    · exact hwell
    · exact h.contexts.wellFormed j
  · intro j frameIndex hactive
    unfold Holds at hactive
    rw [hcontext] at hactive
    split_ifs at hactive
    · exact Or.inl (hheld frameIndex hactive)
    · exact h.contexts.held j frameIndex hactive
  · intro j word' hword'
    rw [hcontext]
    split_ifs with hj
    · subst hj
      rw [hword] at hword'
      cases hword'
      rw [hself]
      exact hctx
    · rw [hother j hj]
      exact h.context j word' hword'
  · intro j word' hword'
    rw [sliceDone_eq]
    by_cases hj : j = g
    · subst hj
      rw [hword] at hword'
      cases hword'
      rw [hself]
      exact hdone
    · rw [hother j hj, ← h.done j word' hword', sliceDone_eq]
      exact (hsame j hj).1
  · intro j word' hword' hle
    by_cases hj : j = g
    · subst hj
      rw [hword] at hword'
      cases hword'
      rw [hself] at hle
      exact hdata hle
    · rw [hother j hj] at hle
      exact (hsame j hj).2.trans (h.data j word' hword' hle)

/-- The index of the frame that a decoder has seen shards of. -/
theorem index_of_active
    {ctx : FecFrameDecoder} {frameIndex other : UInt32} (h : ctx.isActiveFor frameIndex = true)
    (hother : ctx.isActiveFor other = true) :
    other = frameIndex := by
  simp only [FecFrameDecoder.isActiveFor, Bool.and_eq_true, beq_iff_eq] at h hother
  rw [← hother.2, h.2]

/-- Another shard of a slice that is not decoded. -/
theorem HoldsSeen.addShard_open
    (h : HoldsSeen old sent seen d) (hsliced : sent.sliced = true) (hsized : sent.Sized)
    (hcoded : sent.AllCoded) (hword : sent.words[g]? = some word) {shard : List UInt8}
    (hshard : word.shards[i]? = some shard) (hlt : (seen g).card < word.dataCount) :
    HoldsSeen old sent (addSeen seen g i)
      (d.addShard g i word.shards.length word.dataCount shard) := by
  have hmem := List.mem_of_getElem? hword
  obtain ⟨ctx, hstarted, hctx⟩ := h.started hword hlt
  have hnext := hctx.addShard hshard
  have hactive : (ctx.addShard i shard).isActiveFor sent.frameIndex = true := by
    unfold FecFrameDecoder.isActiveFor
    rw [hnext.active, hnext.frame_eq]
    simp
  have hopen : d.sliceDone g = false := by
    rw [h.done g word hword, decide_eq_false_iff_not]
    omega
  have hbit : d.m_sliceCompleted.testBit g = false := by
    rw [← sliceDone_eq]
    exact hopen
  have hcount : ¬g ≥ d.m_sliceCount := by
    rw [h.count]
    exact Nat.not_le.mpr (List.getElem?_eq_some_iff.mp hword).1
  have hne : insert i (seen g) ≠ ∅ := Finset.insert_ne_empty i (seen g)
  unfold SlicedFecFrameDecoder.addShard
  rw [if_neg (by simp [h.active, h.waiting]), if_neg hcount]
  simp only
  rw [hstarted, hopen, hnext.isComplete_eq]
  by_cases hlast : word.dataCount ≤ (insert i (seen g)).card
  · -- enough shards: the slice is decoded
    obtain ⟨part, hpart, hstrip⟩ := stripPrefix_word hsliced hsized hword
    obtain ⟨c, hcache, hdecode⟩ := hnext.tryDecode_eq (hsized word hmem) (hcoded word hmem) hlast
    have hslot : g < d.m_sliceData.length := by
      have hg := (List.getElem?_eq_some_iff.mp hword).1
      have hle := sent.length_le
      have hmax : MAX_SLICES = 15 := rfl
      rw [h.contexts.sliceData]
      omega
    simp only [hlast, decide_true, Bool.not_true, Bool.not_false, Bool.and_self,
      Bool.false_eq_true, if_false, if_true, hdecode, storeSlice, hstrip]
    refine h.update hword (FecFrameDecoder.wellFormed_of_cache hnext.wellFormed hcache true)
      (fun frameIndex hheld => index_of_active hactive hheld) ?_ ?_ ?_ ?_ ?_
    · unfold ContextSeen
      rw [if_neg hne, if_neg (Nat.not_lt.mpr hlast)]
      exact ⟨hactive, rfl⟩
    · rw [List.length_set]
      exact h.contexts.sliceData
    · rw [Nat.one_shiftLeft, Nat.testBit_or, Nat.testBit_two_pow_self, Bool.or_true,
        decide_eq_true hlast]
    · intro _
      rw [List.getElem?_set_self hslot, hpart]
    · intro j hj
      rw [Nat.one_shiftLeft, Nat.testBit_or, Nat.testBit_two_pow_of_ne (Ne.symm hj),
        Bool.or_false, List.getElem?_set_ne (Ne.symm hj)]
      exact ⟨rfl, rfl⟩
  · simp only [hlast, decide_false, Bool.not_true, Bool.and_false, Bool.false_eq_true, if_false]
    refine h.update hword hnext.wellFormed
      (fun frameIndex hheld => index_of_active hactive hheld) ?_ h.contexts.sliceData ?_ ?_ ?_
    · unfold ContextSeen
      rw [if_neg hne, if_pos (Nat.not_le.mp hlast)]
      exact hnext
    · rw [hbit, decide_eq_false hlast]
    · exact fun hle => absurd hle hlast
    · exact fun j _ => ⟨rfl, rfl⟩

/-- A shard of a slice that is decoded already. -/
theorem HoldsSeen.addShard_done
    (h : HoldsSeen old sent seen d) (hword : sent.words[g]? = some word) (shard : List UInt8)
    (hge : word.dataCount ≤ (seen g).card) :
    HoldsSeen old sent (addSeen seen g i)
      (d.addShard g i word.shards.length word.dataCount shard) := by
  have hpos := word.dataCount_pos
  have hle : word.dataCount ≤ (insert i (seen g)).card :=
    Nat.le_trans hge (Finset.card_le_card (Finset.subset_insert i (seen g)))
  have hne : seen g ≠ ∅ := by
    intro hempty
    rw [hempty, Finset.card_empty] at hge
    omega
  have hcontext := h.context g word hword
  unfold ContextSeen at hcontext
  rw [if_neg hne, if_neg (Nat.not_lt.mpr hge)] at hcontext
  obtain ⟨hactive, hdelivered⟩ := hcontext
  have hdone : d.sliceDone g = true := by
    rw [h.done g word hword, decide_eq_true hge]
  have hkept : (d.context g).addShard i shard = d.context g := by
    unfold FecFrameDecoder.addShard
    rw [if_pos (by simp [hdelivered])]
  have hcount : ¬g ≥ d.m_sliceCount := by
    rw [h.count]
    exact Nat.not_le.mpr (List.getElem?_eq_some_iff.mp hword).1
  have hstarted : (d.context g).isActiveFor d.m_frameIndex = true := by
    rw [h.frame_eq]
    exact hactive
  unfold SlicedFecFrameDecoder.addShard
  rw [if_neg (by simp [h.active, h.waiting]), if_neg hcount]
  simp only
  rw [hstarted, if_pos rfl, hdone, hkept]
  simp only [Bool.not_true, Bool.false_and, Bool.false_eq_true, if_false]
  refine h.update hword (h.contexts.wellFormed g)
    (fun frameIndex hheld => index_of_active hactive hheld) ?_ h.contexts.sliceData ?_ ?_ ?_
  · unfold ContextSeen
    rw [if_neg (Finset.insert_ne_empty i (seen g)), if_neg (Nat.not_lt.mpr hle)]
    exact ⟨hactive, hdelivered⟩
  · rw [← sliceDone_eq, hdone, decide_eq_true hle]
  · exact fun _ => h.data g word hword hge
  · exact fun j _ => ⟨rfl, rfl⟩

theorem HoldsSeen.addShard
    (h : HoldsSeen old sent seen d) (hsliced : sent.sliced = true) (hsized : sent.Sized)
    (hcoded : sent.AllCoded) (hword : sent.words[g]? = some word) {shard : List UInt8}
    (hshard : word.shards[i]? = some shard) :
    HoldsSeen old sent (addSeen seen g i)
      (d.addShard g i word.shards.length word.dataCount shard) := by
  rcases Nat.lt_or_ge (seen g).card word.dataCount with hlt | hge
  · exact h.addShard_open hsliced hsized hcoded hword hshard hlt
  · exact h.addShard_done hword shard hge

/-- All slices are decoded exactly if each has seen enough. -/
theorem HoldsSeen.isComplete_iff
    (h : HoldsSeen old sent seen d) :
    d.isComplete = true ↔ sent.Complete seen := by
  have hbits : d.isComplete = true ↔
      ∀ g < sent.words.length, d.m_sliceCompleted.testBit g = true := by
    unfold isComplete
    simp only
    rw [h.active, h.count, Bool.true_and, beq_iff_eq, Nat.one_shiftLeft,
      Nat.and_two_pow_sub_one_eq_mod]
    constructor
    · intro heq g hg
      have hbit := congrArg (·.testBit g) heq
      simpa [hg] using hbit
    · intro hall
      refine Nat.eq_of_testBit_eq fun g => ?_
      rw [Nat.testBit_mod_two_pow, Nat.testBit_two_pow_sub_one]
      by_cases hg : g < sent.words.length
      · rw [hall g hg, Bool.and_true]
      · rw [decide_eq_false hg, Bool.false_and]
  rw [hbits]
  constructor
  · intro hall g word hword
    have hbit := hall g (List.getElem?_eq_some_iff.mp hword).1
    rwa [← sliceDone_eq, h.done g word hword, decide_eq_true_eq] at hbit
  · intro hcomplete g hg
    have hword := List.getElem?_eq_getElem hg
    rw [← sliceDone_eq, h.done g _ hword, decide_eq_true_eq]
    exact hcomplete g _ hword

/-- The slices are put together. -/
theorem HoldsSeen.tryDecode_eq
    (h : HoldsSeen old sent seen d) (hcomplete : sent.Complete seen) :
    d.tryDecode =
      (some ⟨sent.frameIndex, sent.parts.flatten, sent.isKeyframe⟩,
        { d with m_delivered := true }) := by
  have hparts : sent.parts.length = sent.words.length := by
    simpa using (congrArg List.length sent.parts_eq).symm
  have hdata : d.m_sliceData.take sent.words.length = sent.parts := by
    refine List.ext_getElem? fun g => ?_
    rw [List.getElem?_take]
    split_ifs with hg
    · have hword := List.getElem?_eq_getElem hg
      exact h.data g _ hword (hcomplete g _ hword)
    · rw [List.getElem?_eq_none (by omega)]
  unfold tryDecode
  rw [h.isComplete_iff.mpr hcomplete, h.waiting, if_neg (by decide), h.count, hdata, h.frame_eq,
    h.key_eq]

/-- A frame begins whose index no decoder holds. -/
theorem Contexts.beginFrame
    (h : Contexts old d) (hfresh : ¬old sent.frameIndex) :
    HoldsSeen old sent (fun _ => ∅)
      (d.beginFrame sent.frameIndex sent.words.length sent.isKeyframe) := by
  have hle := sent.length_le
  have hpos := sent.length_pos
  have hmax : MAX_SLICES = 15 := rfl
  have hcount : (if sent.words.length > MAX_SLICES then MAX_SLICES else sent.words.length) =
      sent.words.length := if_neg (by omega)
  unfold SlicedFecFrameDecoder.beginFrame
  rw [hcount]
  refine ⟨decide_eq_true hpos, rfl, rfl, rfl, rfl, ⟨h.contexts, ?_, h.wellFormed, ?_⟩, ?_, ?_, ?_⟩
  · rw [List.length_mapIdx]
    exact h.sliceData
  · exact fun i frameIndex hheld => Or.inr (h.held i frameIndex hheld)
  · intro g word _
    unfold ContextSeen
    rw [if_pos rfl, Bool.eq_false_iff]
    exact fun hheld => hfresh (h.held g _ hheld)
  · intro g word _
    have hword := word.dataCount_pos
    rw [sliceDone_eq, Nat.zero_testBit, Finset.card_empty, eq_comm, decide_eq_false_iff_not]
    omega
  · intro g word _ hle
    have hword := word.dataCount_pos
    rw [Finset.card_empty] at hle
    omega

end SlicedFecFrameDecoder
end Client
end FocusVision
