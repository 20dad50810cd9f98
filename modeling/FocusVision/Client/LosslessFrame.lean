import FocusVision.Client.FrameProgress
import FocusVision.Client.PacketHeader
import FocusVision.Engine.FecLayout

/-!
# A frame without loss

The packets of a sent frame, in order, at the client's decoders.  Each decoder holds the
first shards of its code word, and has the data as soon as it has the data shards,
without any Reed-Solomon arithmetic.
-/

namespace FocusVision
namespace Client

open Bytes
open Engine (CodeWord SentFrame RsCrate)

variable {crate : RsCrate}

/-! ### One code word -/

namespace FecFrameDecoder

variable {d : FecFrameDecoder} {frameIndex : UInt32} {key : Bool} {word : CodeWord crate}
  {k : Nat}

/-- The decoder has the first `k` shards of the code word. -/
structure HoldsFirst (frameIndex : UInt32) (key : Bool) (word : CodeWord crate) (k : Nat)
    (d : FecFrameDecoder) : Prop where
  active : d.m_active = true
  waiting : d.m_delivered = false
  frame_eq : d.m_frameIndex = frameIndex
  key_eq : d.m_isKeyframe = key
  total : d.m_totalShards = word.shards.length
  data : d.m_dataShards = word.dataCount
  count : d.m_receivedCount = k
  size : d.m_shardSize = if k = 0 then 0 else word.size
  shards : d.m_shards =
    (word.shards.take k).map some ++ List.replicate (word.shards.length - k) none

theorem beginFrame_holds
    (d : FecFrameDecoder) (frameIndex : UInt32) (key : Bool) (word : CodeWord crate) :
    (d.beginFrame frameIndex word.shards.length word.dataCount key).1 = true ∧
      (d.beginFrame frameIndex word.shards.length word.dataCount key).2.HoldsFirst
        frameIndex key word 0 := by
  have hcounts : CountsOk word.shards.length word.dataCount :=
    ⟨word.dataCount_pos, word.dataCount_le, word.length_le⟩
  rw [beginFrame_of_countsOk d _ _ _ _ hcounts]
  exact ⟨rfl, rfl, rfl, rfl, rfl, rfl, rfl, rfl, rfl, by simp⟩

theorem HoldsFirst.received_eq
    (h : HoldsFirst frameIndex key word k d) (hk : k ≤ word.shards.length) (i : Nat) :
    d.received i = decide (i < k) := by
  unfold received
  rw [h.shards, List.getD_eq_getElem?_getD, List.getElem?_append, List.length_map,
    List.length_take, Nat.min_eq_left hk]
  split_ifs with hi
  · have hlt : i < word.shards.length := Nat.lt_of_lt_of_le hi hk
    simp [hi, hlt]
  · rw [List.getElem?_replicate]
    split_ifs <;> simp [hi]

theorem HoldsFirst.shard_eq
    (h : HoldsFirst frameIndex key word k d) (hk : k ≤ word.shards.length) {i : Nat}
    (hi : i < k) :
    d.shard i = word.shards.getD i [] := by
  have hlt : i < word.shards.length := Nat.lt_of_lt_of_le hi hk
  unfold shard
  rw [h.shards, List.getD_eq_getElem?_getD, List.getElem?_append_left (by simp; omega)]
  simp [hi, List.getD_eq_getElem?_getD, hlt]

/-- The next shard of the code word. -/
theorem HoldsFirst.addShard
    (h : HoldsFirst frameIndex key word k d) {shard : List UInt8}
    (hshard : word.shards[k]? = some shard) :
    HoldsFirst frameIndex key word (k + 1) (d.addShard k shard) := by
  obtain ⟨hlt, rfl⟩ := List.getElem?_eq_some_iff.mp hshard
  have hsize := word.length_eq _ (List.getElem_mem hlt)
  have haccepts : d.Accepts k word.shards[k] :=
    { active := h.active
      waiting := h.waiting
      nonempty := by rw [hsize]; exact word.size_pos
      index := by rw [h.total]; exact hlt
      fresh := by rw [h.received_eq (Nat.le_of_lt hlt)]; simp
      size := by
        rw [hsize, h.size]
        split_ifs
        · exact Or.inl rfl
        · exact Or.inr rfl }
  rcases addShard_cases d k word.shards[k] with ⟨-, heq⟩ | ⟨hno, -⟩
  · rw [heq]
    refine ⟨h.active, h.waiting, h.frame_eq, h.key_eq, h.total, h.data, ?_, ?_, ?_⟩
    · exact congrArg (· + 1) h.count
    · exact hsize
    · have hlast : word.shards.length - k = word.shards.length - (k + 1) + 1 := by omega
      rw [h.shards, hlast, List.replicate_succ, List.set_append_right _ _ (by simp),
        List.take_succ_eq_append_getElem hlt, List.map_append, List.append_assoc]
      simp [Nat.min_eq_left (Nat.le_of_lt hlt)]
  · exact absurd haccepts hno

theorem HoldsFirst.isComplete_eq
    (h : HoldsFirst frameIndex key word k d) :
    d.isComplete = decide (word.dataCount ≤ k) := by
  unfold isComplete
  rw [h.active, h.count, h.data, Bool.true_and]

/-- The data shards are put together. -/
theorem HoldsFirst.tryDecode_eq
    (h : HoldsFirst frameIndex key word k d) (hk : k ≤ word.shards.length)
    (hcomplete : word.dataCount ≤ k) :
    d.tryDecode =
      (some ⟨frameIndex, (word.shards.take word.dataCount).flatten, key⟩,
        { d with m_delivered := true }) := by
  have hall : (List.range d.m_dataShards).all d.received = true := by
    rw [List.all_eq_true]
    intro i hi
    rw [List.mem_range, h.data] at hi
    rw [h.received_eq hk, decide_eq_true_eq]
    omega
  have hdata : d.concatData = (word.shards.take word.dataCount).flatten := by
    have hlen : (word.shards.take word.dataCount).length = word.dataCount := by
      rw [List.length_take, Nat.min_eq_left word.dataCount_le]
    rw [flatten_eq_flatMap_getD, hlen, concatData, h.data]
    refine List.flatMap_congr fun i hi => ?_
    rw [List.mem_range] at hi
    rw [h.shard_eq hk (by omega)]
    simp [List.getD_eq_getElem?_getD, hi]
  unfold tryDecode
  rw [h.isComplete_eq, h.waiting, decide_eq_true hcomplete, if_neg (by decide), if_pos hall,
    hdata, h.frame_eq, h.key_eq]

end FecFrameDecoder

/-! ### Slices -/

/-- The client cuts the length prefix off as the engine does, up to its cap. -/
theorem stripPrefix_eq
    {data slice : List UInt8} (h : Engine.stripLength data = some slice)
    (hcap : slice.length ≤ MAX_DECODED_SLICE_BYTES) :
    stripPrefix data = some slice := by
  unfold Engine.stripLength at h
  simp only at h
  split_ifs at h with hshort hlong
  obtain ⟨a, b, low, hab⟩ := exists_drop_two (show 0 + 2 ≤ data.length by omega)
  obtain ⟨c, e, rest, hce⟩ := exists_drop_two (show 2 + 2 ≤ data.length by omega)
  rw [List.drop_zero] at hab
  have hlow : low = c :: e :: rest := by
    rw [← hce, hab]
    rfl
  subst hlow
  have hprefix : slicePrefix data = ofLeBytes (data.take 4) := by
    have ha : a.toNat < 2 ^ 8 := a.toNat_lt
    have hb : b.toNat < 2 ^ 8 := b.toNat_lt
    have hc : c.toNat < 2 ^ 8 := c.toNat_lt
    have h2 : a.toNat + 2 ^ 8 * b.toNat < 2 ^ 16 := by omega
    have h3 : a.toNat + 2 ^ 8 * b.toNat + 2 ^ 16 * c.toNat < 2 ^ 24 := by omega
    unfold slicePrefix
    rw [hab]
    simp only [List.getD_cons_zero, List.getD_cons_succ, or_shiftLeft_eq ha,
      or_shiftLeft_eq h2, or_shiftLeft_eq h3, List.take_succ_cons, List.take_zero, ofLeBytes]
    omega
  have hslice : slice = (data.drop 4).take (ofLeBytes (data.take 4)) := by
    rw [← Option.some.inj h, List.drop_take, Nat.add_sub_cancel_left]
  have hlen : slice.length = ofLeBytes (data.take 4) := by
    rw [hslice, List.length_take, List.length_drop]
    omega
  unfold stripPrefix
  rw [if_pos (by omega), hprefix, if_neg (by omega), hslice]

namespace SlicedFecFrameDecoder

theorem bit_facts :
    ∀ g : Fin 15, (2 ^ g.val - 1) &&& (1 <<< g.val) = 0 ∧
      (2 ^ (g.val + 1) - 1) &&& (1 <<< g.val) ≠ 0 ∧
      (2 ^ g.val - 1) ||| (1 <<< g.val) = 2 ^ (g.val + 1) - 1 := by
  decide

/-- The decoder of a slice, when the first `k` shards came. -/
def ContextHolds (frameIndex : UInt32) (key : Bool) (word : CodeWord crate) (k : Nat)
    (ctx : FecFrameDecoder) : Prop :=
  if k = 0 then ctx.isActiveFor frameIndex = false
  else if k < word.dataCount then ctx.HoldsFirst frameIndex key word k
  else ctx.isActiveFor frameIndex = true ∧ ctx.m_delivered = true

/-- The slices that are decoded when `k` shards of slice `g` came. -/
def doneSlices (word : CodeWord crate) (g k : Nat) : Nat :=
  if word.dataCount ≤ k then g + 1 else g

/-- The decoder of slice `i` has started a frame of this index. -/
def Holds (d : SlicedFecFrameDecoder) (i : Nat) (frameIndex : UInt32) : Prop :=
  (d.context i).isActiveFor frameIndex = true

/-- All slices before `g` are decoded, and `k` shards of slice `g` came; `old` are the
frames that the decoders held before. -/
structure HoldsFirst (old : Nat → UInt32 → Prop) (sent : SentFrame crate) (g : Nat)
    (word : CodeWord crate) (k : Nat) (d : SlicedFecFrameDecoder) : Prop where
  active : d.m_active = true
  waiting : d.m_delivered = false
  frame_eq : d.m_frameIndex = sent.frameIndex
  key_eq : d.m_isKeyframe = sent.isKeyframe
  count : d.m_sliceCount = sent.words.length
  contexts : d.m_contexts.length = MAX_SLICES
  sliceData : d.m_sliceData.length = MAX_SLICES
  completed : d.m_sliceCompleted = 2 ^ doneSlices word g k - 1
  data : ∀ i < doneSlices word g k, d.m_sliceData[i]? = sent.parts[i]?
  current : ContextHolds sent.frameIndex sent.isKeyframe word k (d.context g)
  before : ∀ i < g, ∀ frameIndex, d.Holds i frameIndex → frameIndex = sent.frameIndex
  behind : ∀ i, g < i → ∀ frameIndex, d.Holds i frameIndex → old i frameIndex

variable {old : Nat → UInt32 → Prop} {sent : SentFrame crate} {g k : Nat} {word : CodeWord crate}
  {d : SlicedFecFrameDecoder}

theorem ContextHolds.index_eq
    {frameIndex other : UInt32} {key : Bool} {ctx : FecFrameDecoder}
    (h : ContextHolds frameIndex key word (k + 1) ctx)
    (hother : ctx.isActiveFor other = true) :
    other = frameIndex := by
  unfold ContextHolds at h
  rw [if_neg (Nat.succ_ne_zero k)] at h
  simp only [FecFrameDecoder.isActiveFor, Bool.and_eq_true, beq_iff_eq] at h hother
  split_ifs at h
  · rw [← hother.2, h.frame_eq]
  · rw [← hother.2, h.1.2]

theorem context_set
    (d : SlicedFecFrameDecoder) (ctx : FecFrameDecoder) {g : Nat}
    (hg : g < d.m_contexts.length) (i : Nat) :
    ({ d with m_contexts := d.m_contexts.set g ctx } : SlicedFecFrameDecoder).context i =
      if i = g then ctx else d.context i := by
  unfold context
  simp only [List.getD_eq_getElem?_getD, List.getElem?_set]
  by_cases hi : g = i
  · subst hi
    simp [hg]
  · simp [hi, Ne.symm hi]

/-- The decoder that takes the next shard of an undecoded slice. -/
theorem HoldsFirst.started
    (h : HoldsFirst old sent g word k d) (hk : k < word.dataCount) :
    ∃ ctx, (if (d.context g).isActiveFor d.m_frameIndex then (true, d.context g)
        else (d.context g).beginFrame d.m_frameIndex word.shards.length word.dataCount
          d.m_isKeyframe) = (true, ctx) ∧
      ctx.HoldsFirst sent.frameIndex sent.isKeyframe word k := by
  have hcurrent := h.current
  unfold ContextHolds at hcurrent
  rw [h.frame_eq, h.key_eq]
  by_cases hzero : k = 0
  · subst hzero
    rw [if_pos rfl] at hcurrent
    rw [hcurrent, if_neg (by decide)]
    obtain ⟨hok, hholds⟩ := FecFrameDecoder.beginFrame_holds (d.context g) sent.frameIndex
      sent.isKeyframe word
    exact ⟨_, Prod.ext hok rfl, hholds⟩
  · rw [if_neg hzero, if_pos hk] at hcurrent
    have hactive : (d.context g).isActiveFor sent.frameIndex = true := by
      unfold FecFrameDecoder.isActiveFor
      rw [hcurrent.active, hcurrent.frame_eq]
      simp
    rw [hactive, if_pos rfl]
    exact ⟨_, rfl, hcurrent⟩

/-- A slice is decoded exactly if its bit is set. -/
theorem HoldsFirst.sliceDone_eq
    (h : HoldsFirst old sent g word k d) (hg : g < 15) :
    d.sliceDone g = decide (word.dataCount ≤ k) := by
  obtain ⟨hclear, hset, -⟩ := bit_facts ⟨g, hg⟩
  unfold sliceDone
  rw [h.completed, doneSlices]
  split_ifs with hdone
  · simpa [hdone] using hset
  · simpa [hdone] using hclear

theorem HoldsFirst.sliceCount
    (h : HoldsFirst old sent g word k d) (hword : sent.words[g]? = some word) :
    ¬g ≥ d.m_sliceCount ∧ g < 15 ∧ g < d.m_contexts.length := by
  have hlt := (List.getElem?_eq_some_iff.mp hword).1
  have hle := sent.length_le
  have hmax : MAX_SLICES = 15 := rfl
  rw [h.count, h.contexts, hmax]
  omega

theorem stripLength_le
    {data slice : List UInt8} (h : Engine.stripLength data = some slice) :
    slice.length ≤ data.length := by
  unfold Engine.stripLength at h
  simp only at h
  split_ifs at h
  rw [← Option.some.inj h]
  simp only [List.length_drop, List.length_take]
  omega

/-- No slice is as long as the cap. -/
theorem word_fits
    (hsize : word.size = Engine.FEC_SHARD_SIZE) :
    (word.shards.take word.dataCount).flatten.length ≤ MAX_DECODED_SLICE_BYTES := by
  have hlength := word.length_le
  have hle : (word.shards.take word.dataCount).flatten.length ≤
      (word.shards.take word.dataCount).length * word.size :=
    Engine.length_flatten_le fun shard hshard =>
      Nat.le_of_eq (word.length_eq shard (List.mem_of_mem_take hshard))
  have htake := List.length_take_le' word.dataCount word.shards
  have hshards : Engine.MAX_FRAME_SHARDS = 4096 := rfl
  have hshard : Engine.FEC_SHARD_SIZE = 1200 := rfl
  have hcap : MAX_DECODED_SLICE_BYTES = 16777216 := rfl
  rw [hsize, hshard] at hle
  omega

/-- The bytes of a code word are the slice behind its prefix. -/
theorem stripPrefix_word
    (hsliced : sent.sliced = true) (hsized : sent.Sized) (hword : sent.words[g]? = some word) :
    ∃ part, sent.parts[g]? = some part ∧
      stripPrefix (word.shards.take word.dataCount).flatten = some part := by
  have hpart := congrArg (·[g]?) sent.parts_eq
  simp only [List.getElem?_map, hword, Option.map_some, hsliced] at hpart
  cases hp : sent.parts[g]? with
  | none => exact absurd hpart (by simp [hp])
  | some part =>
      rw [hp, Option.map_some, Option.some.injEq, Engine.groupBytes, if_pos rfl] at hpart
      exact ⟨part, rfl, stripPrefix_eq hpart (Nat.le_trans (stripLength_le hpart)
        (word_fits (hsized word (List.mem_of_getElem? hword))))⟩

/-- What the next shard has to leave in the decoder of its slice. -/
theorem HoldsFirst.update
    (h : HoldsFirst old sent g word k d) (hlen : g < d.m_contexts.length)
    {ctx : FecFrameDecoder} {sliceData : List (List UInt8)} {completed : Nat}
    (hctx : ContextHolds sent.frameIndex sent.isKeyframe word (k + 1) ctx)
    (hsliceData : sliceData.length = MAX_SLICES)
    (hcompleted : completed = 2 ^ doneSlices word g (k + 1) - 1)
    (hdata : ∀ i < doneSlices word g (k + 1), sliceData[i]? = sent.parts[i]?) :
    HoldsFirst old sent g word (k + 1)
      { d with
        m_contexts := d.m_contexts.set g ctx
        m_sliceData := sliceData
        m_sliceCompleted := completed } := by
  have hcontext : ∀ i, ({ d with
      m_contexts := d.m_contexts.set g ctx
      m_sliceData := sliceData
      m_sliceCompleted := completed } : SlicedFecFrameDecoder).context i =
      if i = g then ctx else d.context i := context_set d ctx hlen
  refine ⟨h.active, h.waiting, h.frame_eq, h.key_eq, h.count, ?_, hsliceData, hcompleted, hdata,
    ?_, ?_, ?_⟩
  · simpa using h.contexts
  · rw [hcontext, if_pos rfl]
    exact hctx
  · intro i hi frameIndex hheld
    unfold Holds at hheld
    rw [hcontext, if_neg (by omega)] at hheld
    exact h.before i hi frameIndex hheld
  · intro i hi frameIndex hheld
    unfold Holds at hheld
    rw [hcontext, if_neg (by omega)] at hheld
    exact h.behind i hi frameIndex hheld

/-- The next shard of a slice. -/
theorem HoldsFirst.addShard
    (h : HoldsFirst old sent g word k d) (hsliced : sent.sliced = true) (hsized : sent.Sized)
    (hword : sent.words[g]? = some word) {shard : List UInt8}
    (hshard : word.shards[k]? = some shard) :
    HoldsFirst old sent g word (k + 1)
      (d.addShard g k word.shards.length word.dataCount shard) := by
  obtain ⟨hcount, hg, hlen⟩ := h.sliceCount hword
  have hlt := (List.getElem?_eq_some_iff.mp hshard).1
  have hdone := h.sliceDone_eq hg
  unfold SlicedFecFrameDecoder.addShard
  rw [if_neg (by simp [h.active, h.waiting]), if_neg hcount]
  simp only
  by_cases hk : k < word.dataCount
  · obtain ⟨ctx, hstarted, hctx⟩ := h.started hk
    have hnext := hctx.addShard hshard
    have hbefore : doneSlices word g k = g := if_neg (Nat.not_le.mpr hk)
    rw [hstarted, hdone, hnext.isComplete_eq, decide_eq_false (Nat.not_le.mpr hk)]
    by_cases hlast : word.dataCount ≤ k + 1
    · -- the last data shard: the slice is decoded
      obtain ⟨part, hpart, hstrip⟩ := stripPrefix_word hsliced hsized hword
      obtain ⟨-, -, hbit⟩ := bit_facts ⟨g, hg⟩
      have hafter : doneSlices word g (k + 1) = g + 1 := if_pos hlast
      simp only [hlast, decide_true, Bool.not_true, Bool.not_false, Bool.and_self,
        Bool.false_eq_true, if_false, if_true, hnext.tryDecode_eq hlt hlast, storeSlice, hstrip]
      refine h.update hlen ?_ (by simpa using h.sliceData) ?_ ?_
      · unfold ContextHolds
        rw [if_neg (Nat.succ_ne_zero k), if_neg (Nat.not_lt.mpr hlast)]
        unfold FecFrameDecoder.isActiveFor
        simp [hnext.active, hnext.frame_eq]
      · rw [hafter, h.completed, hbefore]
        exact hbit
      · intro i hi
        rw [hafter] at hi
        rw [List.getElem?_set]
        have hslot : g < d.m_sliceData.length := by
          rw [h.sliceData]
          exact hg
        split_ifs with hig
        · rw [← hig, hpart]
        · exact h.data i (by rw [hbefore]; omega)
    · have hafter : doneSlices word g (k + 1) = doneSlices word g k := by
        rw [hbefore]
        exact if_neg hlast
      simp only [hlast, decide_false, Bool.not_true, Bool.and_false, Bool.false_eq_true,
        if_false]
      refine h.update hlen ?_ h.sliceData (hafter ▸ h.completed) (hafter ▸ h.data)
      unfold ContextHolds
      rw [if_neg (Nat.succ_ne_zero k), if_pos (by omega)]
      exact hnext
  · -- the slice is decoded already
    have hge : word.dataCount ≤ k := Nat.le_of_not_lt hk
    have hcurrent := h.current
    have hpos := word.dataCount_pos
    unfold ContextHolds at hcurrent
    rw [if_neg (by omega), if_neg hk] at hcurrent
    have hafter : doneSlices word g (k + 1) = doneSlices word g k := by
      unfold doneSlices
      rw [if_pos hge, if_pos (by omega)]
    have hkept : (d.context g).addShard k shard = d.context g := by
      unfold FecFrameDecoder.addShard
      rw [if_pos (by simp [hcurrent.2])]
    have hactive : (d.context g).isActiveFor d.m_frameIndex = true := by
      rw [h.frame_eq]
      exact hcurrent.1
    rw [hactive, if_pos rfl, hdone, decide_eq_true hge, hkept]
    simp only [Bool.not_true, Bool.false_and, Bool.false_eq_true, if_false]
    refine h.update hlen ?_ h.sliceData (hafter ▸ h.completed) (hafter ▸ h.data)
    unfold ContextHolds
    rw [if_neg (Nat.succ_ne_zero k), if_neg (by omega)]
    exact hcurrent

theorem doneSlices_le
    (hword : sent.words[g]? = some word) :
    doneSlices word g k ≤ sent.words.length := by
  have hlt := (List.getElem?_eq_some_iff.mp hword).1
  unfold doneSlices
  split_ifs <;> omega

theorem HoldsFirst.isComplete_eq
    (h : HoldsFirst old sent g word k d) (hword : sent.words[g]? = some word) :
    d.isComplete = decide (doneSlices word g k = sent.words.length) := by
  have hle := @doneSlices_le _ sent g k word hword
  have hpow : 2 ^ doneSlices word g k ≤ 2 ^ sent.words.length :=
    Nat.pow_le_pow_right (by decide) hle
  have hpos : 0 < 2 ^ doneSlices word g k := Nat.two_pow_pos _
  unfold isComplete
  rw [h.active, h.completed, h.count, Nat.one_shiftLeft]
  simp only [Bool.true_and]
  rw [Nat.and_two_pow_sub_one_eq_mod, Nat.mod_eq_of_lt (by omega), Bool.beq_eq_decide_eq]
  refine decide_eq_decide.mpr ⟨fun heq => ?_, fun heq => by rw [heq]⟩
  have hpowEq : 2 ^ doneSlices word g k = 2 ^ sent.words.length := by omega
  exact Nat.pow_right_injective (Nat.le_refl 2) hpowEq

/-- The slices are put together. -/
theorem HoldsFirst.tryDecode_eq
    (h : HoldsFirst old sent g word k d) (hword : sent.words[g]? = some word)
    (hcomplete : doneSlices word g k = sent.words.length) :
    d.tryDecode =
      (some ⟨sent.frameIndex, sent.parts.flatten, sent.isKeyframe⟩,
        { d with m_delivered := true }) := by
  have hparts : sent.parts.length = sent.words.length := by
    simpa using (congrArg List.length sent.parts_eq).symm
  have hdata : d.m_sliceData.take sent.words.length = sent.parts := by
    refine List.ext_getElem? fun i => ?_
    rw [List.getElem?_take]
    split_ifs with hi
    · exact h.data i (by rw [hcomplete]; exact hi)
    · rw [List.getElem?_eq_none (by omega)]
  unfold tryDecode
  rw [h.isComplete_eq hword, h.waiting, decide_eq_true hcomplete, if_neg (by decide), h.count,
    hdata, h.frame_eq, h.key_eq]

/-- All packets of a slice came, and the next slice follows. -/
theorem HoldsFirst.next
    (h : HoldsFirst old sent g word word.shards.length d) (next : CodeWord crate)
    (hfresh : ¬old (g + 1) sent.frameIndex) :
    HoldsFirst old sent (g + 1) next 0 d := by
  have hbefore : doneSlices word g word.shards.length = g + 1 := if_pos word.dataCount_le
  have hafter : doneSlices next (g + 1) 0 = g + 1 :=
    if_neg (Nat.not_le.mpr next.dataCount_pos)
  have hpos := word.dataCount_pos
  have hle := word.dataCount_le
  have hcurrent := h.current
  obtain ⟨k, hk⟩ : ∃ k, word.shards.length = k + 1 := ⟨word.shards.length - 1, by omega⟩
  rw [hk] at hcurrent
  exact
    { h with
      completed := by rw [hafter, ← hbefore]; exact h.completed
      data := by rw [hafter, ← hbefore]; exact h.data
      current := by
        unfold ContextHolds
        rw [if_pos rfl, Bool.eq_false_iff]
        exact fun hheld => hfresh (h.behind (g + 1) (Nat.lt_succ_self g) _ hheld)
      before := by
        intro i hi frameIndex hheld
        rcases Nat.lt_succ_iff_lt_or_eq.mp hi with hlt | rfl
        · exact h.before i hlt frameIndex hheld
        · exact hcurrent.index_eq hheld
      behind := fun i hi => h.behind i (by omega) }

theorem beginFrame_holds
    (hcontexts : d.m_contexts.length = MAX_SLICES) (hsliceData : d.m_sliceData.length = MAX_SLICES)
    (hfresh : ¬d.Holds 0 sent.frameIndex) (word : CodeWord crate) :
    HoldsFirst d.Holds sent 0 word 0
      (d.beginFrame sent.frameIndex sent.words.length sent.isKeyframe) := by
  have hle := sent.length_le
  have hpos := sent.length_pos
  have hmax : MAX_SLICES = 15 := rfl
  have hcount : (if sent.words.length > MAX_SLICES then MAX_SLICES else sent.words.length) =
      sent.words.length := if_neg (by omega)
  have hdone : doneSlices word 0 0 = 0 := if_neg (Nat.not_le.mpr word.dataCount_pos)
  unfold beginFrame
  rw [hcount]
  refine ⟨decide_eq_true hpos, rfl, rfl, rfl, rfl, hcontexts, ?_, ?_, ?_,
    Bool.eq_false_iff.mpr hfresh, ?_, fun i _ frameIndex hheld => hheld⟩
  · simpa using hsliceData
  · rw [hdone]
    rfl
  · intro i hi
    rw [hdone] at hi
    exact absurd hi (Nat.not_lt_zero i)
  · intro i hi
    exact absurd hi (Nat.not_lt_zero i)

end SlicedFecFrameDecoder

end Client
end FocusVision
