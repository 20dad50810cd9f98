import FocusVision.Engine.Reassembler
import Mathlib.Data.Finset.Card
import Mathlib.Data.Finset.Dedup

/-!
# The receiver of a sent frame

What a sender promises, apart from how it does so: a `CodeWord` can be rebuilt
from any `dataCount` of its shards, and a `SentFrame` is one code word, or one
for each slice.  The receiver is followed packet by packet: `Progress` relates a
group to the set of shards seen, `Receiving` the reassembler to the shards seen
of every code word.

The main result is `emitted_sent`: the frame comes out once enough shards of
every code word were seen, and only then.
-/

namespace FocusVision
namespace Engine

variable {crate : RsCrate}

/-- Shards of one size; any `dataCount` of them give the first `dataCount`. -/
structure CodeWord (crate : RsCrate) where
  shards : List Shard
  dataCount : Nat
  size : Nat
  dataCount_pos : 0 < dataCount
  dataCount_le : dataCount ≤ shards.length
  length_le : shards.length ≤ MAX_FRAME_SHARDS
  size_pos : 0 < size
  length_eq : ∀ shard ∈ shards, shard.length = size
  rebuild : ∀ received, Received shards received → dataCount ≤ presentCount received →
    rebuildData crate received dataCount = some (shards.take dataCount)

/-- The header of a packet that carries shard `i` of this word. -/
def CodeWord.header (word : CodeWord crate) (frameIndex : UInt32) (flags : UInt16)
    (i : Nat) : FvpHeader :=
  { frameIndex
    shardIndex := UInt16.ofNat i
    shardCount := UInt16.ofNat word.shards.length
    flags
    dataShardCount := UInt16.ofNat word.dataCount }

/-- A frame on the wire: its code words, and the bytes that each stands for. -/
structure SentFrame (crate : RsCrate) where
  frameIndex : UInt32
  isKeyframe : Bool
  sliced : Bool
  words : List (CodeWord crate)
  parts : List (List UInt8)
  words_ne : words ≠ []
  length_slices : sliced = true → words.length ≤ MAX_SLICE_COUNT
  length_bulk : sliced = false → words.length = 1
  parts_eq : words.map (fun word => groupBytes sliced (word.shards.take word.dataCount)) =
    parts.map some

namespace SentFrame

/-- The flags of the packets of word `g`. -/
def flags (sent : SentFrame crate) (g : Nat) : UInt16 :=
  if sent.sliced then
    FvpFlags.encode sent.isKeyframe (UInt8.ofNat g) (UInt8.ofNat sent.words.length) 0
  else FvpFlags.encodeSimple sent.isKeyframe

/-- The frame that the receiver should return. -/
def result (sent : SentFrame crate) : ReassembledFrame :=
  { frameIndex := sent.frameIndex
    isKeyframe := sent.isKeyframe
    data := sent.parts.flatten }

/-- The packet carries shard `i` of word `g`. -/
structure Carries (sent : SentFrame crate) (g i : Nat) (packet : Packet) : Prop where
  word : ∃ word, sent.words[g]? = some word ∧
    readFvpHeader packet = some (word.header sent.frameIndex (sent.flags g) i) ∧
    word.shards[i]? = some (payload packet)

/-- Enough shards of every word. -/
def Complete (sent : SentFrame crate) (seen : Nat → Finset Nat) : Prop :=
  ∀ g word, sent.words[g]? = some word → word.dataCount ≤ (seen g).card

end SentFrame

/-! ### One group -/

theorem Received.set
    {word : List Shard} {shards : List (Option Shard)} {i : Nat} {shard : Shard}
    (h : Received word shards) (hi : word[i]? = some shard) :
    Received word (shards.set i (some shard)) := by
  unfold Received at h
  induction h generalizing i with
  | nil => exact absurd hi (by simp)
  | cons hhead htail ih =>
      cases i with
      | zero =>
          simp only [List.getElem?_cons_zero, Option.some.injEq] at hi
          exact List.Forall₂.cons (Or.inr (by rw [hi])) htail
      | succ i => exact List.Forall₂.cons hhead (ih hi)

theorem received_replicate
    (word : List Shard) :
    Received word (List.replicate word.length none) := by
  induction word with
  | nil => exact List.Forall₂.nil
  | cons shard word ih => exact List.Forall₂.cons (Or.inl rfl) ih

/-- A group that has its counts and the shards `seen`. -/
structure Collecting (word : CodeWord crate) (seen : Finset Nat)
    (group : ShardGroup) : Prop where
  shardCount : group.shardCount = word.shards.length
  dataShardCount : group.dataShardCount = word.dataCount
  shardLen : group.shardLen = word.size
  shards : Received word.shards group.shards
  present : presentCount group.shards = seen.card
  mem : ∀ i, (group.shards.getD i none).isSome ↔ i ∈ seen
  received : group.received = seen.card
  decoded : group.decoded = none
  failed : group.failed = false

/-- How far a group has come with the shards `seen`. -/
inductive Progress (word : CodeWord crate) (sliced : Bool) :
    Finset Nat → ShardGroup → Prop
  | untouched : Progress word sliced ∅ ShardGroup.default
  | collecting {seen group} :
      Collecting word seen group → seen.card < word.dataCount →
      Progress word sliced seen group
  | decoded {seen group} :
      word.dataCount ≤ seen.card → group.decoded.isSome →
      group.decoded = groupBytes sliced (word.shards.take word.dataCount) →
      Progress word sliced seen group

section Group

variable {word : CodeWord crate} {sliced : Bool} {seen : Finset Nat} {group : ShardGroup}

theorem Progress.isSome_iff
    (h : Progress word sliced seen group) :
    group.decoded.isSome = true ↔ word.dataCount ≤ seen.card := by
  cases h with
  | untouched =>
      have := word.dataCount_pos
      simp only [ShardGroup.default, Option.isSome_none, Bool.false_eq_true,
        Finset.card_empty, false_iff]
      omega
  | collecting h hlt =>
      rw [h.decoded]
      simp only [Option.isSome_none, Bool.false_eq_true, false_iff]
      omega
  | decoded hle hsome _ => exact ⟨fun _ => hle, fun _ => hsome⟩

theorem Progress.decoded_eq
    (h : Progress word sliced seen group) (hle : word.dataCount ≤ seen.card) :
    group.decoded = groupBytes sliced (word.shards.take word.dataCount) := by
  have hsome := h.isSome_iff.mpr hle
  cases h with
  | untouched => exact absurd hsome (by simp [ShardGroup.default])
  | collecting _ hlt => exact absurd hle (Nat.not_le.mpr hlt)
  | decoded _ _ heq => exact heq

/-- Another shard, of the same word, is accepted. -/
theorem Progress.agree
    (h : Progress word sliced seen group) (hlt : seen.card < word.dataCount) :
    ∃ group', group.agree word.shards.length word.dataCount word.size = some group' ∧
      Collecting word seen group' := by
  have hpos : word.shards.length ≠ 0 := by
    have := word.dataCount_pos
    have := word.dataCount_le
    omega
  cases h with
  | untouched =>
      refine ⟨_, if_pos rfl, ?_⟩
      constructor
      · rfl
      · rfl
      · rfl
      · exact received_replicate _
      · simp [presentCount, List.countP_replicate]
      · intro i
        simp [List.getD_eq_getElem?_getD, List.getElem?_replicate]
        split_ifs <;> rfl
      · rfl
      · rfl
      · rfl
  | collecting h _ =>
      refine ⟨group, ?_, h⟩
      unfold ShardGroup.agree
      rw [h.shardCount, h.dataShardCount, h.shardLen, if_neg hpos]
      simp
  | decoded hle _ _ => exact absurd hlt (Nat.not_lt.mpr hle)

/-- A new shard is stored. -/
theorem Collecting.store
    (h : Collecting word seen group) {i : Nat} {shard : Shard}
    (hi : word.shards[i]? = some shard) (hnew : i ∉ seen) :
    Collecting word (insert i seen)
      { group with
        shards := group.shards.set i (some shard)
        received := group.received + 1 } := by
  have hlt : i < group.shards.length := by
    rw [h.shards.length_eq]
    exact (List.getElem?_eq_some_iff.mp hi).1
  have hcard := Finset.card_insert_of_notMem hnew
  have hnone : group.shards[i].isSome = false := by
    have hmem := (h.mem i).not.mpr hnew
    rw [List.getD_eq_getElem?_getD, List.getElem?_eq_getElem hlt] at hmem
    exact Bool.eq_false_iff.mpr hmem
  constructor
  · exact h.shardCount
  · exact h.dataShardCount
  · exact h.shardLen
  · exact h.shards.set hi
  · unfold presentCount
    have hpresent := h.present
    unfold presentCount at hpresent
    rw [List.countP_set hlt, hpresent, hnone, hcard]
    simp
  · intro j
    rw [List.getD_eq_getElem?_getD, List.getElem?_set, Finset.mem_insert]
    by_cases hij : i = j
    · subst hij
      simp [hlt]
    · rw [if_neg hij, ← List.getD_eq_getElem?_getD, h.mem j]
      simp [Ne.symm hij]
  · simp only [h.received, hcard]
  · exact h.decoded
  · exact h.failed

/--
One packet of the word.  Unless the group reports progress, nothing about its
completeness changes.
-/
theorem Progress.feed
    (h : Progress word sliced seen group) {hdr : FvpHeader} {i : Nat} {shard : Shard}
    (hindex : hdr.shardIndex.toNat = i) (hcount : hdr.shardCount.toNat = word.shards.length)
    (hdata : hdr.dataShardCount.toNat = word.dataCount)
    (hi : word.shards[i]? = some shard)
    (hbytes : (groupBytes sliced (word.shards.take word.dataCount)).isSome) :
    Progress word sliced (insert i seen) (group.feed crate hdr sliced shard).2 ∧
      ((group.feed crate hdr sliced shard).1 = false →
        (word.dataCount ≤ (insert i seen).card ↔ word.dataCount ≤ seen.card)) := by
  have hsize : shard.length = word.size :=
    word.length_eq shard (List.mem_of_getElem? hi)
  rcases Nat.lt_or_ge seen.card word.dataCount with hlt | hge
  · -- the group still collects
    obtain ⟨group', hagree, hcoll⟩ := h.agree hlt
    have hopen : (group.decoded.isSome || group.failed) = false := by
      cases h with
      | untouched => rfl
      | collecting h _ => rw [h.decoded, h.failed]; rfl
      | decoded hle _ _ => exact absurd hlt (Nat.not_lt.mpr hle)
    unfold ShardGroup.feed ShardGroup.accept
    rw [hopen, hindex, hcount, hdata, hsize, hagree]
    simp only [Bool.false_eq_true, if_false]
    by_cases hmem : i ∈ seen
    · -- a duplicate
      rw [if_pos ((hcoll.mem i).mpr hmem), Finset.insert_eq_of_mem hmem]
      exact ⟨Progress.collecting hcoll hlt, fun _ => Iff.rfl⟩
    · rw [if_neg ((hcoll.mem i).not.mpr hmem)]
      have hstored := hcoll.store hi hmem
      have hcard := Finset.card_insert_of_notMem hmem
      by_cases henough : group'.received + 1 ≥ group'.dataShardCount
      · -- the shard that completes the word
        have hle : word.dataCount ≤ (insert i seen).card := by
          rw [hcard, ← hcoll.received, ← hcoll.dataShardCount]
          exact henough
        have hrebuild := word.rebuild _ hstored.shards (by rw [hstored.present]; exact hle)
        obtain ⟨bytes, hsome⟩ := Option.isSome_iff_exists.mp hbytes
        dsimp only
        rw [if_pos henough]
        simp only [ShardGroup.reconstruct, hcoll.dataShardCount, hrebuild, hsome]
        refine ⟨Progress.decoded hle rfl hsome.symm, ?_⟩
        intro hfalse
        exact absurd hfalse (by simp)
      · simp only [if_neg henough]
        rw [hcoll.received, hcoll.dataShardCount] at henough
        refine ⟨Progress.collecting hstored (by omega), ?_⟩
        intro hfalse
        exact absurd hfalse (by simp)
  · -- the group is decoded already
    have hle : word.dataCount ≤ (insert i seen).card :=
      Nat.le_trans hge (Finset.card_le_card (Finset.subset_insert i seen))
    have hsome := h.isSome_iff.mpr hge
    unfold ShardGroup.feed
    rw [hsome, Bool.true_or, if_pos rfl]
    exact ⟨Progress.decoded hle hsome (h.decoded_eq hge),
      fun _ => ⟨fun _ => hge, fun _ => hle⟩⟩

end Group

/-! ### The pending frame -/

namespace SentFrame

def sliceCount (sent : SentFrame crate) : UInt8 :=
  if sent.sliced then UInt8.ofNat sent.words.length else 0

theorem length_le
    (sent : SentFrame crate) :
    sent.words.length ≤ 15 := by
  cases hsliced : sent.sliced with
  | false =>
      rw [sent.length_bulk hsliced]
      decide
  | true => exact sent.length_slices hsliced

theorem length_pos
    (sent : SentFrame crate) :
    0 < sent.words.length :=
  List.length_pos_iff.mpr sent.words_ne

theorem sliceCount_toNat
    (sent : SentFrame crate) :
    sent.sliceCount.toNat = if sent.sliced then sent.words.length else 0 := by
  have hle := sent.length_le
  unfold sliceCount
  split_ifs
  · rw [UInt8.toNat_ofNat']
    omega
  · rfl

/-- The flags say what the receiver needs. -/
theorem flags_fields
    (sent : SentFrame crate) {g : Nat} (hg : g < sent.words.length) :
    FvpFlags.isKeyframe (sent.flags g) = sent.isKeyframe ∧
      FvpFlags.sliceCount (sent.flags g) = sent.sliceCount ∧
      (sent.sliced = true → FvpFlags.sliceIndex (sent.flags g) = UInt8.ofNat g) := by
  have hle := sent.length_le
  unfold flags sliceCount
  cases sent.sliced with
  | false =>
      obtain ⟨hkey, hcount⟩ := FvpFlags.encodeSimple_fields sent.isKeyframe
      exact ⟨hkey, hcount, fun h => absurd h (by simp)⟩
  | true =>
      obtain ⟨hkey, hindex, hcount⟩ := FvpFlags.encode_fields sent.isKeyframe
        ⟨g, by omega⟩ ⟨sent.words.length, by omega⟩
      exact ⟨hkey, hcount, fun _ => hindex⟩

theorem sliceCount_pos_iff
    (sent : SentFrame crate) :
    decide (sent.sliceCount > 0) = sent.sliced := by
  have hpos := sent.length_pos
  have hcount := sent.sliceCount_toNat
  cases hsliced : sent.sliced with
  | false => simp [sliceCount, hsliced]
  | true =>
      rw [hsliced, if_pos rfl] at hcount
      rw [decide_eq_true_eq, gt_iff_lt, UInt8.lt_iff_toNat_lt, hcount]
      exact hpos

/-- A packet of word `g` goes to group `g`. -/
theorem groupIdx_header
    (sent : SentFrame crate) (word : CodeWord crate) {g : Nat}
    (hg : g < sent.words.length) (i : Nat) :
    FecFrameReassembler.groupIdx (word.header sent.frameIndex (sent.flags g) i) = g := by
  obtain ⟨-, hcount, hindex⟩ := sent.flags_fields hg
  have hle := sent.length_le
  have htoNat := sent.sliceCount_toNat
  unfold FecFrameReassembler.groupIdx
  simp only [CodeWord.header, hcount]
  cases hsliced : sent.sliced with
  | false =>
      have hone := sent.length_bulk hsliced
      rw [if_pos (by simp [sliceCount, hsliced])]
      omega
  | true =>
      rw [hsliced, if_pos rfl] at htoNat
      have hne : sent.sliceCount ≠ 0 := by
        intro h
        rw [h] at htoNat
        exact absurd htoNat (Nat.ne_of_lt sent.length_pos)
      rw [if_neg hne, hindex hsliced, UInt8.toNat_ofNat']
      omega

/-- The receiver reads the counts that were sent. -/
theorem header_counts
    (word : CodeWord crate) (frameIndex : UInt32) (flags : UInt16) {i : Nat}
    (hi : i < word.shards.length) :
    (word.header frameIndex flags i).shardIndex.toNat = i ∧
      (word.header frameIndex flags i).shardCount.toNat = word.shards.length ∧
      (word.header frameIndex flags i).dataShardCount.toNat = word.dataCount := by
  have hle := word.length_le
  have hdata := word.dataCount_le
  simp only [MAX_FRAME_SHARDS] at hle
  simp only [CodeWord.header, UInt16.toNat_ofNat']
  omega

/-- No packet of a sent frame is malformed. -/
theorem not_malformed
    (sent : SentFrame crate) {word : CodeWord crate} {g i : Nat} {shard : Shard}
    (hg : g < sent.words.length) (hi : word.shards[i]? = some shard) :
    FecFrameReassembler.malformed (word.header sent.frameIndex (sent.flags g) i) shard =
      false := by
  have hlt := (List.getElem?_eq_some_iff.mp hi).1
  obtain ⟨hindex, hcount, hdata⟩ := header_counts word sent.frameIndex (sent.flags g) hlt
  have hpos := word.dataCount_pos
  have hdataLe := word.dataCount_le
  have hlen := word.length_le
  have hvalid : (word.header sent.frameIndex (sent.flags g) i).isValid = true := by
    unfold FvpHeader.isValid
    simp only [decide_eq_true_eq, UInt16.lt_iff_toNat_lt, UInt16.le_iff_toNat_le,
      gt_iff_lt, hindex, hcount, hdata]
    exact ⟨by omega, hlen, hlt, hpos, hdataLe⟩
  have hpayload : shard.isEmpty = false := by
    have hsize := word.length_eq shard (List.mem_of_getElem? hi)
    have := word.size_pos
    cases shard with
    | nil => exact absurd hsize (by simp; omega)
    | cons _ _ => rfl
  obtain ⟨-, hsliceCount, hsliceIndex⟩ := sent.flags_fields hg
  have hslice : (decide (FvpFlags.sliceCount (sent.flags g) > 0) &&
      decide (FvpFlags.sliceIndex (sent.flags g) ≥ FvpFlags.sliceCount (sent.flags g))) =
        false := by
    rw [hsliceCount, sent.sliceCount_pos_iff]
    have hle := sent.length_le
    have htoNat := sent.sliceCount_toNat
    cases hsliced : sent.sliced with
    | false => rfl
    | true =>
        rw [hsliced, if_pos rfl] at htoNat
        rw [Bool.true_and, decide_eq_false_iff_not, hsliceIndex hsliced, ge_iff_le,
          UInt8.le_iff_toNat_le, htoNat, UInt8.toNat_ofNat']
        omega
  unfold FecFrameReassembler.malformed
  rw [hvalid, hpayload, CodeWord.header]
  simp only [hslice]
  rfl

end SentFrame

/-- The pending frame, when the shards `seen` of the sent frame were fed. -/
structure Receiving (sent : SentFrame crate) (seen : Nat → Finset Nat)
    (frame : PendingFrame) : Prop where
  frameIndex : frame.frameIndex = sent.frameIndex
  isKeyframe : frame.isKeyframe = sent.isKeyframe
  sliceCount : frame.sliceCount = sent.sliceCount
  length : frame.groups.length = sent.words.length
  delivered : frame.delivered = true ↔ sent.Complete seen
  groups : ¬ sent.Complete seen → ∀ (g : Nat) word group,
    sent.words[g]? = some word → frame.groups[g]? = some group →
    Progress word sent.sliced (seen g) group

section Frame

variable {sent : SentFrame crate} {seen : Nat → Finset Nat}

/-- One more shard seen. -/
def addSeen (seen : Nat → Finset Nat) (g i : Nat) : Nat → Finset Nat :=
  Function.update seen g (insert i (seen g))

theorem SentFrame.Complete.addSeen
    (h : sent.Complete seen) (g i : Nat) :
    sent.Complete (addSeen seen g i) := by
  intro g' word hword
  refine Nat.le_trans (h g' word hword) (Finset.card_le_card ?_)
  unfold Engine.addSeen
  by_cases hg : g' = g
  · subst hg
    rw [Function.update_self]
    exact Finset.subset_insert i (seen g')
  · rw [Function.update_of_ne hg]

theorem SentFrame.part_isSome
    (sent : SentFrame crate) {word : CodeWord crate} {g : Nat}
    (hword : sent.words[g]? = some word) :
    ∃ part, sent.parts[g]? = some part ∧
      groupBytes sent.sliced (word.shards.take word.dataCount) = some part := by
  have hmap := congrArg (fun l => l[g]?) sent.parts_eq
  simp only [List.getElem?_map, hword, Option.map_some] at hmap
  cases hpart : sent.parts[g]? with
  | none => exact absurd hmap (by simp [hpart])
  | some part =>
      rw [hpart] at hmap
      exact ⟨part, rfl, by simpa using hmap⟩

/-- A frame that was just opened has seen nothing. -/
theorem receiving_openFrame
    {word : CodeWord crate} {g i : Nat} (hg : g < sent.words.length) :
    Receiving sent (fun _ => ∅)
      (FecFrameReassembler.openFrame (word.header sent.frameIndex (sent.flags g) i)) := by
  obtain ⟨hkey, hcount, -⟩ := sent.flags_fields hg
  have hnot : ¬ sent.Complete fun _ => ∅ := by
    intro h
    obtain ⟨first, hfirst⟩ : ∃ first, sent.words[0]? = some first :=
      ⟨_, List.getElem?_eq_getElem sent.length_pos⟩
    have hle := h 0 first hfirst
    have hpos := first.dataCount_pos
    rw [Finset.card_empty] at hle
    omega
  constructor
  · rfl
  · exact hkey
  · exact hcount
  · have htoNat := sent.sliceCount_toNat
    simp only [FecFrameReassembler.openFrame, CodeWord.header, hcount, htoNat,
      List.length_replicate]
    have hpos := sent.length_pos
    cases hsliced : sent.sliced with
    | false =>
        rw [sent.length_bulk hsliced]
        rfl
    | true =>
        rw [if_pos rfl]
        omega
  · exact ⟨fun h => absurd h (by simp [FecFrameReassembler.openFrame]),
      fun h => absurd h hnot⟩
  · intro _ g' word' group hword' hgroup
    simp only [FecFrameReassembler.openFrame, List.getElem?_replicate] at hgroup
    split_ifs at hgroup
    cases hgroup
    exact Progress.untouched

/-- All groups are decoded when every word has enough shards. -/
theorem all_isSome_iff
    {groups : List ShardGroup} (hlen : groups.length = sent.words.length)
    (hgroups : ∀ (g : Nat) word group, sent.words[g]? = some word →
      groups[g]? = some group → Progress word sent.sliced (seen g) group) :
    (groups.all fun g => g.decoded.isSome) = true ↔ sent.Complete seen := by
  rw [List.all_eq_true]
  constructor
  · intro h g word hword
    have hlt : g < groups.length := by
      rw [hlen]
      exact (List.getElem?_eq_some_iff.mp hword).1
    have hgroup := List.getElem?_eq_getElem hlt
    exact (hgroups g word _ hword hgroup).isSome_iff.mp (h _ (List.getElem_mem hlt))
  · intro h group hgroup
    obtain ⟨g, hlt, rfl⟩ := List.getElem_of_mem hgroup
    have hword : sent.words[g]? = some (sent.words.get ⟨g, hlen ▸ hlt⟩) :=
      List.getElem?_eq_getElem _
    exact (hgroups g _ _ hword (List.getElem?_eq_getElem hlt)).isSome_iff.mpr
      (h g _ hword)

/-- The decoded groups together are the frame. -/
theorem flatMap_decoded
    {groups : List ShardGroup} (hlen : groups.length = sent.words.length)
    (hgroups : ∀ (g : Nat) word group, sent.words[g]? = some word →
      groups[g]? = some group → Progress word sent.sliced (seen g) group)
    (hcomplete : sent.Complete seen) :
    (groups.flatMap fun g => g.decoded.getD []) = sent.parts.flatten := by
  rw [List.flatMap_def]
  congr 1
  have hparts : sent.words.length = sent.parts.length := by
    simpa using congrArg List.length sent.parts_eq
  refine List.ext_getElem? fun g => ?_
  rw [List.getElem?_map]
  cases hgroup : groups[g]? with
  | none =>
      have hge : sent.parts.length ≤ g := by
        rw [← hparts, ← hlen]
        exact List.getElem?_eq_none_iff.mp hgroup
      rw [List.getElem?_eq_none_iff.mpr hge]
      rfl
  | some group =>
      have hlt : g < sent.words.length := by
        rw [← hlen]
        exact (List.getElem?_eq_some_iff.mp hgroup).1
      have hword := List.getElem?_eq_getElem hlt
      obtain ⟨part, hpart, hbytes⟩ := sent.part_isSome hword
      have hdecoded : group.decoded = some part := by
        rw [(hgroups g _ group hword hgroup).decoded_eq (hcomplete g _ hword), hbytes]
      rw [hpart]
      simp [hdecoded]

/-- The frame comes out with the shard that completes it. -/
structure Answer (sent : SentFrame crate) (seen seen' : Nat → Finset Nat)
    (out : Option ReassembledFrame) : Prop where
  before : sent.Complete seen → out = none
  completes : ¬ sent.Complete seen → sent.Complete seen' → out = some sent.result
  pending : ¬ sent.Complete seen' → out = none

/-- One packet of the frame reaches the pending frame. -/
theorem Receiving.feedFrame
    {frame : PendingFrame} (h : Receiving sent seen frame)
    {word : CodeWord crate} {g i : Nat} {shard : Shard}
    (hword : sent.words[g]? = some word) (hi : word.shards[i]? = some shard) :
    Receiving sent (addSeen seen g i)
        (FecFrameReassembler.feedFrame crate frame
          (word.header sent.frameIndex (sent.flags g) i) shard).2 ∧
      Answer sent seen (addSeen seen g i)
        (FecFrameReassembler.feedFrame crate frame
          (word.header sent.frameIndex (sent.flags g) i) shard).1 := by
  have hg := (List.getElem?_eq_some_iff.mp hword).1
  obtain ⟨hindex, hcount, hdata⟩ := SentFrame.header_counts word sent.frameIndex
    (sent.flags g) (List.getElem?_eq_some_iff.mp hi).1
  have hflags : FvpFlags.sliceCount (word.header sent.frameIndex (sent.flags g) i).flags =
      sent.sliceCount := (sent.flags_fields hg).2.1
  unfold FecFrameReassembler.feedFrame
  by_cases hcomplete : sent.Complete seen
  · -- the frame is out already
    rw [h.delivered.mpr hcomplete, Bool.true_or, if_pos rfl]
    have hcomplete' := hcomplete.addSeen g i
    refine ⟨?_, ⟨fun _ => rfl, fun hnot => absurd hcomplete hnot, fun _ => rfl⟩⟩
    exact
      { h with
        delivered := ⟨fun _ => hcomplete', fun _ => h.delivered.mpr hcomplete⟩
        groups := fun hnot => absurd hcomplete' hnot }
  · have hdelivered : frame.delivered = false :=
      Bool.eq_false_iff.mpr fun ht => hcomplete (h.delivered.mp ht)
    have hlt : g < frame.groups.length := by
      rw [h.length]
      exact hg
    rw [hflags, sent.sliceCount_pos_iff, sent.groupIdx_header word hg, h.sliceCount,
      hdelivered, List.getElem?_eq_getElem hlt]
    obtain ⟨part, -, hbytes⟩ := sent.part_isSome hword
    obtain ⟨hprogress, hgo⟩ :=
      (h.groups hcomplete g word _ hword (List.getElem?_eq_getElem hlt)).feed
        hindex hcount hdata hi (by rw [hbytes]; rfl)
    simp only [bne_self_eq_false, Bool.or_self, Bool.false_eq_true, if_false]
    generalize ShardGroup.feed crate frame.groups[g]
      (word.header sent.frameIndex (sent.flags g) i) sent.sliced shard = res
      at hprogress hgo ⊢
    obtain ⟨go, group⟩ := res
    -- the other groups have seen nothing new
    have hgroups : ∀ (g' : Nat) word' group', sent.words[g']? = some word' →
        (frame.groups.set g group)[g']? = some group' →
        Progress word' sent.sliced (addSeen seen g i g') group' := by
      intro g' word' group' hword' hgroup'
      rw [List.getElem?_set] at hgroup'
      by_cases hsame : g = g'
      · subst hsame
        rw [if_pos rfl, if_pos hlt] at hgroup'
        cases hgroup'
        rw [hword] at hword'
        cases hword'
        simpa [addSeen] using hprogress
      · rw [if_neg hsame] at hgroup'
        rw [addSeen, Function.update_of_ne (Ne.symm hsame)]
        exact h.groups hcomplete g' word' group' hword' hgroup'
    have hlen : (frame.groups.set g group).length = sent.words.length := by
      rw [List.length_set, h.length]
    have hall := all_isSome_iff hlen hgroups
    by_cases hdone : sent.Complete (addSeen seen g i)
    · have hgoes : go = true := by
        cases hcase : go with
        | true => rfl
        | false =>
            refine absurd ?_ hcomplete
            intro g' word' hword'
            have hle := hdone g' word' hword'
            by_cases hsame : g' = g
            · subst hsame
              rw [hword] at hword'
              cases hword'
              rw [addSeen, Function.update_self] at hle
              exact (hgo hcase).mp hle
            · rwa [addSeen, Function.update_of_ne hsame] at hle
      simp only [hgoes, hall.mpr hdone, Bool.and_self, if_true]
      refine ⟨?_, ⟨fun hc => absurd hc hcomplete, fun _ _ => ?_, fun hn => absurd hdone hn⟩⟩
      · exact
          { frameIndex := h.frameIndex
            isKeyframe := h.isKeyframe
            sliceCount := rfl
            length := by simpa using h.length
            delivered := ⟨fun _ => hdone, fun _ => rfl⟩
            groups := fun hn => absurd hdone hn }
      · rw [flatMap_decoded hlen hgroups hdone, h.frameIndex, h.isKeyframe]
        rfl
    · have hnotAll : (go && (frame.groups.set g group).all fun g => g.decoded.isSome) =
          false := by
        rw [Bool.eq_false_iff.mpr (hall.not.mpr hdone), Bool.and_false]
      simp only [hnotAll, Bool.false_eq_true, if_false]
      refine ⟨?_, ⟨fun _ => rfl, fun _ hc => absurd hc hdone, fun _ => rfl⟩⟩
      exact
        { frameIndex := h.frameIndex
          isKeyframe := h.isKeyframe
          sliceCount := rfl
          length := hlen
          delivered := ⟨fun ht => absurd ht (by simp), fun hc => absurd hc hdone⟩
          groups := fun _ => hgroups }

/-- A pending frame of another index, or none. -/
def OtherFrame (sent : SentFrame crate) (r : FecFrameReassembler) : Prop :=
  ∀ frame, r.frame = some frame → frame.frameIndex ≠ sent.frameIndex

/-- The reassembler, when the shards `seen` of the sent frame were fed. -/
def Fed (sent : SentFrame crate) (seen : Nat → Finset Nat) (r : FecFrameReassembler) :
    Prop :=
  ∃ frame, r.frame = some frame ∧ Receiving sent seen frame

/-- One packet of the frame is fed, first or later. -/
theorem feed_carries
    {r : FecFrameReassembler} {g i : Nat} {packet : Packet}
    (h : Fed sent seen r ∨ OtherFrame sent r ∧ seen = fun _ => ∅)
    (hpacket : sent.Carries g i packet) :
    Fed sent (addSeen seen g i) (FecFrameReassembler.feed crate r packet).2 ∧
      Answer sent seen (addSeen seen g i) (FecFrameReassembler.feed crate r packet).1 := by
  obtain ⟨word, hword, hheader, hi⟩ := hpacket.word
  have hg := (List.getElem?_eq_some_iff.mp hword).1
  have hpending : Receiving sent seen
      (r.pendingFor (word.header sent.frameIndex (sent.flags g) i)) := by
    rcases h with ⟨frame, hframe, hreceiving⟩ | ⟨hother, rfl⟩
    · rw [FecFrameReassembler.pendingFor_same hframe hreceiving.frameIndex]
      exact hreceiving
    · rw [FecFrameReassembler.pendingFor_other fun frame hframe => hother frame hframe]
      exact receiving_openFrame hg
  obtain ⟨hreceiving, hanswer⟩ := hpending.feedFrame hword hi
  unfold FecFrameReassembler.feed
  rw [hheader]
  simp only [sent.not_malformed hg hi, Bool.false_eq_true, if_false]
  exact ⟨⟨_, rfl, hreceiving⟩, hanswer⟩

end Frame

/-! ### Runs -/

/-- The code word and the shard of a packet, from its header. -/
def position (packet : Packet) : Nat × Nat :=
  match readFvpHeader packet with
  | some hdr => (FecFrameReassembler.groupIdx hdr, hdr.shardIndex.toNat)
  | none => (0, 0)

/-- The shards of word `g` among the packets. -/
def seenIn (packets : List Packet) (g : Nat) : Finset Nat :=
  ((packets.filter fun p => (position p).1 = g).map fun p => (position p).2).toFinset

theorem seenIn_nil :
    seenIn [] = fun _ => ∅ :=
  rfl

theorem seenIn_append_singleton
    (packets : List Packet) (packet : Packet) :
    seenIn (packets ++ [packet]) =
      addSeen (seenIn packets) (position packet).1 (position packet).2 := by
  funext g
  unfold seenIn addSeen
  rw [List.filter_append, List.map_append, List.toFinset_append]
  by_cases hg : (position packet).1 = g
  · subst hg
    rw [Function.update_self, List.filter_singleton, decide_eq_true rfl]
    exact Finset.union_comm _ _
  · rw [Function.update_of_ne (Ne.symm hg), List.filter_singleton, decide_eq_false hg]
    exact Finset.union_empty _

theorem SentFrame.Carries.position_eq
    {sent : SentFrame crate} {g i : Nat} {packet : Packet} (h : sent.Carries g i packet) :
    position packet = (g, i) := by
  obtain ⟨word, hword, hheader, hi⟩ := h.word
  unfold position
  rw [hheader]
  simp only
  rw [sent.groupIdx_header word (List.getElem?_eq_some_iff.mp hword).1,
    (header_counts word sent.frameIndex (sent.flags g)
      (List.getElem?_eq_some_iff.mp hi).1).1]

/-- The packet is one of the frame's. -/
def SentFrame.Sends (sent : SentFrame crate) (packet : Packet) : Prop :=
  ∃ g i, sent.Carries g i packet

/-- The frames that come out, and the state, after some packets of the frame. -/
structure Outcome (sent : SentFrame crate) (seen : Nat → Finset Nat)
    (out : List ReassembledFrame) : Prop where
  complete : sent.Complete seen → out = [sent.result]
  incomplete : ¬ sent.Complete seen → out = []

theorem Outcome.append
    {sent : SentFrame crate} {seen : Nat → Finset Nat} {out : List ReassembledFrame}
    (h : Outcome sent seen out) {g i : Nat} {answer : Option ReassembledFrame}
    (hanswer : Answer sent seen (addSeen seen g i) answer) :
    Outcome sent (addSeen seen g i) (out ++ answer.toList) := by
  by_cases hcomplete : sent.Complete seen
  · rw [h.complete hcomplete, hanswer.before hcomplete]
    exact ⟨fun _ => rfl, fun hn => absurd (hcomplete.addSeen g i) hn⟩
  · rw [h.incomplete hcomplete]
    constructor
    · intro hdone
      rw [hanswer.completes hcomplete hdone]
      rfl
    · intro hn
      rw [hanswer.pending hn]
      rfl

/--
Packets of the frame, in any order and any number of times, fed to a reassembler
that has none of them: the frame comes out if enough shards of every word are
among them, and then once.
-/
theorem emitted_sent
    {sent : SentFrame crate} {r : FecFrameReassembler} (hr : OtherFrame sent r)
    (packets : List Packet) (hpackets : ∀ p ∈ packets, sent.Sends p) :
    Outcome sent (seenIn packets) (FecFrameReassembler.frames crate r packets) ∧
      (packets ≠ [] → Fed sent (seenIn packets)
        (Run.final (FecFrameReassembler.feed crate) r packets)) := by
  induction packets using List.reverseRecOn with
  | nil =>
      refine ⟨⟨fun h => ?_, fun _ => rfl⟩, fun h => absurd rfl h⟩
      obtain ⟨word, hword⟩ : ∃ word, sent.words[0]? = some word :=
        ⟨_, List.getElem?_eq_getElem sent.length_pos⟩
      have hle := h 0 word hword
      have hpos := word.dataCount_pos
      rw [seenIn_nil, Finset.card_empty] at hle
      omega
  | append_singleton packets packet ih =>
      obtain ⟨houtcome, hfed⟩ := ih fun p hp => hpackets p (List.mem_append_left _ hp)
      obtain ⟨g, i, hcarries⟩ := hpackets packet (by simp)
      have hstate : Fed sent (seenIn packets)
            (Run.final (FecFrameReassembler.feed crate) r packets) ∨
          OtherFrame sent (Run.final (FecFrameReassembler.feed crate) r packets) ∧
            seenIn packets = fun _ => ∅ := by
        cases packets with
        | nil => exact Or.inr ⟨hr, rfl⟩
        | cons p ps => exact Or.inl (hfed (by simp))
      obtain ⟨hfed', hanswer⟩ := feed_carries hstate hcarries
      rw [seenIn_append_singleton, hcarries.position_eq, Run.final_append]
      refine ⟨?_, fun _ => hfed'⟩
      have happend := houtcome.append hanswer
      unfold FecFrameReassembler.frames at happend ⊢
      rw [Run.emitted_append, Run.emitted_cons, Run.emitted_nil, List.append_nil]
      exact happend

end Engine
end FocusVision
