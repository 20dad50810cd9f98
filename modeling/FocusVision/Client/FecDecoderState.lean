import FocusVision.Client.RsMatrix
import FocusVision.Lib.Run

/-!
# What a frame decoder holds

`WellFormed` is the invariant of a `FecFrameDecoder` under any calls with any
arguments: the received count is the number of stored shards, these all have the
stored size, and a valid cached matrix is the one `buildEncodingMatrix` computes
for the cached counts.

On it rests the central lemma `tryDecode_eq_some`: when the stored shards
belong to the code word of some data, decoding returns exactly that data,
whichever shards they are and whatever the cache held before.
-/

namespace FocusVision
namespace Client

open Gf GaussJordan

/-- A valid cache holds the matrix of its own counts. -/
def CacheOk (c : EncodingMatrixCache) : Prop :=
  c.valid = true → buildEncodingMatrix c.cachedTotal c.cachedN = some c.fullE

namespace FecFrameDecoder

/-- The indices of the stored shards. -/
def receivedSet (d : FecFrameDecoder) : Finset Nat :=
  (Finset.range d.m_totalShards).filter fun i => d.received i = true

/-- The invariant of a decoder. -/
structure WellFormed (d : FecFrameDecoder) : Prop where
  cache : CacheOk d.m_encodingCache
  length : d.m_shards.length = d.m_totalShards
  count : d.m_receivedCount = d.receivedSet.card
  size : ∀ i, d.received i = true → (d.shard i).length = d.m_shardSize
  size_pos : 0 < d.m_receivedCount → 0 < d.m_shardSize
  size_zero : d.m_receivedCount = 0 → d.m_shardSize = 0
  counts : d.m_active = true →
    0 < d.m_dataShards ∧ d.m_dataShards ≤ d.m_totalShards ∧
      d.m_totalShards ≤ MAX_TOTAL_SHARDS

theorem wellFormed_init : WellFormed {} where
  cache := by simp [CacheOk, EncodingMatrixCache.valid]
  length := rfl
  count := rfl
  size := by simp [received]
  size_pos := by simp
  size_zero := by simp
  counts := by simp

theorem mem_receivedSet
    {d : FecFrameDecoder} (hd : d.m_shards.length = d.m_totalShards) {i : Nat} :
    i ∈ d.receivedSet ↔ d.received i = true := by
  simp only [receivedSet, Finset.mem_filter, Finset.mem_range,
    and_iff_right_iff_imp]
  intro h
  by_contra hi
  have hnone : d.m_shards[i]? = none := List.getElem?_eq_none (by omega)
  simp [received, List.getD_eq_getElem?_getD, hnone] at h

section BeginFrame

variable (d : FecFrameDecoder) (frameIndex : UInt32)
  (totalShards dataShards : Nat) (isKeyframe : Bool)

/-- The counts `beginFrame` takes. -/
def CountsOk : Prop :=
  0 < dataShards ∧ dataShards ≤ totalShards ∧ totalShards ≤ MAX_TOTAL_SHARDS

theorem beginFrame_of_countsOk
    (h : CountsOk totalShards dataShards) :
    d.beginFrame frameIndex totalShards dataShards isKeyframe =
      (true,
        { m_frameIndex := frameIndex
          m_totalShards := totalShards
          m_dataShards := dataShards
          m_isKeyframe := isKeyframe
          m_active := true
          m_delivered := false
          m_shardSize := 0
          m_receivedCount := 0
          m_shards := List.replicate totalShards none
          m_encodingCache := d.m_encodingCache }) := by
  obtain ⟨h1, h2, h3⟩ := h
  unfold beginFrame
  rw [if_neg (by omega)]

theorem received_replicate
    (h : d.m_shards = List.replicate d.m_totalShards none) (i : Nat) :
    d.received i = false := by
  unfold received
  rw [h, List.getD_eq_getElem?_getD, List.getElem?_replicate]
  split_ifs <;> rfl

theorem beginFrame_wellFormed
    (hd : d.WellFormed) :
    (d.beginFrame frameIndex totalShards dataShards isKeyframe).2.WellFormed := by
  by_cases h : CountsOk totalShards dataShards
  · rw [beginFrame_of_countsOk d _ _ _ _ h]
    have hrec : ∀ i, received
        { m_frameIndex := frameIndex
          m_totalShards := totalShards
          m_dataShards := dataShards
          m_isKeyframe := isKeyframe
          m_active := true
          m_delivered := false
          m_shardSize := 0
          m_receivedCount := 0
          m_shards := List.replicate totalShards none
          m_encodingCache := d.m_encodingCache } i = false :=
      received_replicate _ rfl
    exact
      { cache := hd.cache
        length := by simp
        count := by simp [receivedSet, hrec]
        size := fun i hi => by rw [hrec] at hi; exact absurd hi (by decide)
        size_pos := fun hi => absurd hi (Nat.lt_irrefl 0)
        size_zero := fun _ => rfl
        counts := fun _ => h }
  · unfold beginFrame
    rw [if_pos (by unfold CountsOk at h; omega)]
    exact
      { cache := hd.cache
        length := rfl
        count := rfl
        size := by simp [received]
        size_pos := fun hi => absurd hi (Nat.lt_irrefl 0)
        size_zero := fun _ => rfl
        counts := fun hi => absurd hi Bool.false_ne_true }

end BeginFrame

section AddShard

variable {d : FecFrameDecoder} {i : Nat} {s : List UInt8}

/-- The conditions under which `addShard` stores a shard. -/
structure Accepts (d : FecFrameDecoder) (i : Nat) (s : List UInt8) : Prop where
  active : d.m_active = true
  waiting : d.m_delivered = false
  nonempty : 0 < s.length
  index : i < d.m_totalShards
  fresh : d.received i = false
  size : d.m_shardSize = 0 ∨ s.length = d.m_shardSize

/-- `addShard` stores a shard or does nothing. -/
theorem addShard_cases
    (d : FecFrameDecoder) (i : Nat) (s : List UInt8) :
    (d.Accepts i s ∧
      d.addShard i s =
        { d with
          m_shards := d.m_shards.set i (some s)
          m_receivedCount := d.m_receivedCount + 1
          m_shardSize := s.length }) ∨
    (¬ d.Accepts i s ∧ d.addShard i s = d) := by
  by_cases h : d.Accepts i s
  · refine Or.inl ⟨h, ?_⟩
    have h1 := h.active
    have h2 := h.waiting
    have h3 := h.nonempty
    have h4 := h.index
    have h5 := h.fresh
    unfold addShard
    rw [if_neg (by simp [h1, h2]), if_neg (by omega), if_neg (by omega),
      if_neg (by simp [h5]), if_neg (by have := h.size; omega)]
    rcases h.size with h6 | h6
    · rw [if_pos h6]
    · rw [if_neg (by omega), h6]
  · refine Or.inr ⟨h, ?_⟩
    unfold addShard
    by_cases h1 : (!d.m_active || d.m_delivered) = true
    · rw [if_pos h1]
    rw [if_neg h1]
    by_cases h2 : s.length ≤ 0
    · rw [if_pos h2]
    rw [if_neg h2]
    by_cases h3 : i ≥ d.m_totalShards
    · rw [if_pos h3]
    rw [if_neg h3]
    by_cases h4 : d.received i = true
    · rw [if_pos h4]
    rw [if_neg h4]
    by_cases h5 : d.m_shardSize ≠ 0 ∧ s.length ≠ d.m_shardSize
    · rw [if_pos h5]
    simp only [Bool.or_eq_true, Bool.not_eq_true', not_or,
      Bool.not_eq_false, Bool.not_eq_true] at h1
    exact absurd
      { active := h1.1
        waiting := h1.2
        nonempty := by omega
        index := by omega
        fresh := by simpa using h4
        size := by omega } h

theorem received_set
    (hlen : d.m_shards.length = d.m_totalShards)
    (hi : i < d.m_totalShards) (j n size : Nat) :
    received
        { d with
          m_shards := d.m_shards.set i (some s)
          m_receivedCount := n
          m_shardSize := size } j =
      (decide (j = i) || d.received j) := by
  unfold received
  simp only [List.getD_eq_getElem?_getD, List.getElem?_set]
  by_cases hj : i = j
  · subst hj
    simp [show i < d.m_shards.length by omega]
  · simp [hj, Ne.symm hj]

theorem shard_set
    (hlen : d.m_shards.length = d.m_totalShards)
    (hi : i < d.m_totalShards) (j n size : Nat) :
    shard
        { d with
          m_shards := d.m_shards.set i (some s)
          m_receivedCount := n
          m_shardSize := size } j =
      if j = i then s else d.shard j := by
  unfold shard
  simp only [List.getD_eq_getElem?_getD, List.getElem?_set]
  by_cases hj : i = j
  · subst hj
    simp [show i < d.m_shards.length by omega]
  · simp [hj, Ne.symm hj]

theorem receivedSet_addShard
    (hlen : d.m_shards.length = d.m_totalShards)
    (h : d.Accepts i s) :
    (d.addShard i s).receivedSet = insert i d.receivedSet := by
  rcases addShard_cases d i s with ⟨-, heq⟩ | ⟨hno, -⟩
  · rw [heq]
    ext j
    simp only [receivedSet, Finset.mem_filter, Finset.mem_range,
      received_set hlen h.index, Finset.mem_insert, Bool.or_eq_true,
      decide_eq_true_eq]
    constructor
    · rintro ⟨hj, rfl | hr⟩
      · exact Or.inl rfl
      · exact Or.inr ⟨hj, hr⟩
    · rintro (rfl | ⟨hj, hr⟩)
      · exact ⟨h.index, Or.inl rfl⟩
      · exact ⟨hj, Or.inr hr⟩
  · exact absurd h hno

theorem addShard_wellFormed
    (hd : d.WellFormed) (i : Nat) (s : List UInt8) :
    (d.addShard i s).WellFormed := by
  rcases addShard_cases d i s with ⟨h, heq⟩ | ⟨-, heq⟩
  · have hset := receivedSet_addShard hd.length h
    have hni : i ∉ d.receivedSet := by
      rw [mem_receivedSet hd.length, h.fresh]
      decide
    have hsize : ∀ j, d.received j = true → (d.shard j).length = s.length := by
      intro j hj
      have hpos : 0 < d.m_receivedCount := by
        rw [hd.count]
        exact Finset.card_pos.mpr ⟨j, (mem_receivedSet hd.length).mpr hj⟩
      have := hd.size_pos hpos
      rw [hd.size j hj]
      rcases h.size with h0 | h0 <;> omega
    rw [heq] at hset ⊢
    exact
      { cache := hd.cache
        length := by simp [hd.length]
        count := by
          rw [hset, Finset.card_insert_of_notMem hni]
          simp [hd.count]
        size := by
          intro j hj
          rw [received_set hd.length h.index] at hj
          rw [shard_set hd.length h.index]
          by_cases hji : j = i
          · rw [if_pos hji]
          · rw [if_neg hji]
            exact hsize j (by simpa [hji] using hj)
        size_pos := fun _ => h.nonempty
        size_zero := fun h0 => absurd h0 (by simp)
        counts := hd.counts }
  · rw [heq]
    exact hd

end AddShard

section Cache

variable {d : FecFrameDecoder}

theorem ensureEncodingMatrix_cases
    (d : FecFrameDecoder) :
    ∃ c, d.ensureEncodingMatrix = { d with m_encodingCache := c } ∧
      (CacheOk d.m_encodingCache → CacheOk c) := by
  unfold ensureEncodingMatrix
  split_ifs with h
  · exact ⟨d.m_encodingCache, rfl, id⟩
  · cases hb : buildEncodingMatrix d.m_totalShards d.m_dataShards with
    | none => exact ⟨_, rfl, fun _ => by simp [CacheOk, EncodingMatrixCache.valid]⟩
    | some E => exact ⟨_, rfl, fun _ _ => hb⟩

/-- With a cache that is never stale, the matrix used is the one of the
current counts. -/
theorem ensureEncodingMatrix_eq
    (hc : CacheOk d.m_encodingCache) {E : List (List UInt8)}
    (hE : buildEncodingMatrix d.m_totalShards d.m_dataShards = some E) :
    d.ensureEncodingMatrix =
      { d with m_encodingCache := ⟨d.m_totalShards, d.m_dataShards, E⟩ } := by
  unfold ensureEncodingMatrix
  split_ifs with h
  · obtain ⟨ht, hn, hv⟩ := h
    have hfull := hc hv
    rw [ht, hn, hE] at hfull
    have : d.m_encodingCache = ⟨d.m_totalShards, d.m_dataShards, E⟩ := by
      rw [Option.some.inj hfull, ← ht, ← hn]
    rw [← this]
  · rw [hE]

/-- `reconstruct` changes at most the delivered flag. -/
theorem reconstruct_state
    (d : FecFrameDecoder) :
    d.reconstruct = (none, d) ∨
      ∃ f, d.reconstruct = (some f, { d with m_delivered := true }) ∧
        f.frameIndex = d.m_frameIndex ∧ f.isKeyframe = d.m_isKeyframe := by
  unfold reconstruct
  cases invert d.selectedRows with
  | none =>
      dsimp only
      rw [ite_self]
      exact Or.inl rfl
  | some aug =>
      dsimp only
      split_ifs with h1 h2
      · exact Or.inl rfl
      · exact Or.inl rfl
      · exact Or.inr ⟨_, rfl, rfl, rfl⟩

/-- `tryDecode` changes at most the delivered flag and the cache. -/
theorem tryDecode_state
    (d : FecFrameDecoder) :
    ∃ c, (CacheOk d.m_encodingCache → CacheOk c) ∧
      (d.tryDecode = (none, { d with m_encodingCache := c }) ∨
        ∃ f, d.tryDecode =
          (some f, { d with m_encodingCache := c, m_delivered := true }) ∧
            f.frameIndex = d.m_frameIndex ∧ f.isKeyframe = d.m_isKeyframe) := by
  have hself : CacheOk d.m_encodingCache → CacheOk d.m_encodingCache := id
  obtain ⟨c, hens, hok⟩ := ensureEncodingMatrix_cases d
  unfold tryDecode
  split_ifs with h1 h2 h3 h4
  · exact ⟨_, hself, Or.inl rfl⟩
  · exact ⟨_, hself, Or.inr ⟨_, rfl, rfl, rfl⟩⟩
  · exact ⟨_, hself, Or.inl rfl⟩
  · exact ⟨_, hself, Or.inl rfl⟩
  · refine ⟨c, hok, ?_⟩
    rw [hens]
    exact reconstruct_state _

theorem wellFormed_of_cache
    (hd : d.WellFormed) {c : EncodingMatrixCache} (hc : CacheOk c) (b : Bool) :
    WellFormed { d with m_encodingCache := c, m_delivered := b } where
  cache := hc
  length := hd.length
  count := hd.count
  size := hd.size
  size_pos := hd.size_pos
  size_zero := hd.size_zero
  counts := hd.counts

theorem tryDecode_wellFormed
    (hd : d.WellFormed) :
    d.tryDecode.2.WellFormed := by
  obtain ⟨c, hok, h | ⟨f, h, -⟩⟩ := tryDecode_state d
  · rw [h]
    exact wellFormed_of_cache hd (hok hd.cache) d.m_delivered
  · rw [h]
    exact wellFormed_of_cache hd (hok hd.cache) true

end Cache

section Decode

variable {d : FecFrameDecoder} {data : List (List UInt8)}

/-- The stored shards belong to the code word of `data`. -/
structure InCodeWord (d : FecFrameDecoder) (data : List (List UInt8)) : Prop where
  total_le : d.m_totalShards ≤ 256
  data_le : d.m_dataShards ≤ d.m_totalShards
  data_length : data.length = d.m_dataShards
  data_size : ∀ s ∈ data, s.length = d.m_shardSize
  shard_eq : ∀ i : Fin d.m_totalShards, d.received i.val = true →
    d.shard i.val = codeShard data_le data d.m_shardSize i

theorem flatten_eq_flatMap_getD
    (data : List (List UInt8)) :
    data.flatten = (List.range data.length).flatMap fun i => data.getD i [] := by
  have hmap : (List.range data.length).map (fun i => data.getD i []) = data := by
    refine List.ext_getElem (by simp) fun i h1 h2 => ?_
    simp [List.getD_eq_getElem?_getD, h2]
  rw [List.flatMap_def, hmap]

/-- Without loss the data shards are concatenated. -/
theorem concatData_eq
    (hd : d.InCodeWord data)
    (hall : (List.range d.m_dataShards).all d.received = true) :
    d.concatData = data.flatten := by
  rw [flatten_eq_flatMap_getD, hd.data_length, concatData]
  refine List.flatMap_congr fun i hi => ?_
  have hin : i < d.m_dataShards := List.mem_range.mp hi
  have hrec : d.received i = true := List.all_eq_true.mp hall i hi
  have hlt : i < d.m_totalShards := lt_of_lt_of_le hin hd.data_le
  rw [hd.shard_eq ⟨i, hlt⟩ hrec]
  exact codeShard_data hd.data_le data _ hd.total_le hd.data_size
    hd.data_length ⟨i, hin⟩

theorem length_filter_range
    (p : Nat → Bool) (t : Nat) :
    ((List.range t).filter p).length =
      ((Finset.range t).filter fun i => p i = true).card := by
  rw [← List.toFinset_card_of_nodup (List.nodup_range.filter p)]
  congr 1
  ext i
  simp

/-- Every lost data shard is covered by a parity shard. -/
theorem missing_le_availableParity
    (hle : d.m_dataShards ≤ d.m_totalShards)
    (hcount : d.m_dataShards ≤ d.receivedSet.card) :
    d.missing ≤ d.availableParity := by
  have hsplit : List.range d.m_totalShards =
      List.range d.m_dataShards ++
        List.range' d.m_dataShards (d.m_totalShards - d.m_dataShards) := by
    rw [List.range_eq_range', List.range_eq_range']
    have happ : List.range' 0 d.m_dataShards ++
        List.range' d.m_dataShards (d.m_totalShards - d.m_dataShards) =
        List.range' 0 (d.m_dataShards + (d.m_totalShards - d.m_dataShards)) := by
      simpa using @List.range'_append 0 d.m_dataShards
        (d.m_totalShards - d.m_dataShards) 1
    rw [happ]
    congr 1
    omega
  have htotal : d.receivedSet.card =
      ((List.range d.m_dataShards).filter d.received).length +
        d.availableParity := by
    unfold receivedSet availableParity
    rw [← length_filter_range, hsplit, List.filter_append, List.length_append]
  have hdata : (List.range d.m_dataShards).length =
      ((List.range d.m_dataShards).filter d.received).length + d.missing :=
    List.length_eq_length_filter_add d.received
  rw [List.length_range] at hdata
  omega

/-- The rows taken for the reconstruction: distinct stored shards. -/
theorem exists_selection
    (hcount : d.m_dataShards ≤ d.receivedSet.card) :
    ∃ sel : Fin d.m_dataShards → Fin d.m_totalShards,
      Function.Injective sel ∧
        ∀ k, d.presentIdx.getD k.val 0 = (sel k).val ∧
          d.received (sel k).val = true := by
  have hlen : d.presentIdx.length = d.m_dataShards := by
    unfold presentIdx
    rw [List.length_take, length_filter_range]
    exact Nat.min_eq_left hcount
  have hnodup : d.presentIdx.Nodup :=
    ((List.nodup_range).filter _).sublist (List.take_sublist _ _)
  have hmem : ∀ k : Fin d.m_dataShards,
      d.presentIdx.get ⟨k.val, by omega⟩ < d.m_totalShards ∧
        d.received (d.presentIdx.get ⟨k.val, by omega⟩) = true := by
    intro k
    have hm := List.mem_of_mem_take (List.get_mem d.presentIdx ⟨k.val, by omega⟩)
    simpa using hm
  refine ⟨fun k => ⟨d.presentIdx.get ⟨k.val, by omega⟩, (hmem k).1⟩, ?_, ?_⟩
  · intro a b hab
    have := (List.nodup_iff_injective_get.mp hnodup) (Fin.ext_iff.mp hab)
    exact Fin.ext (Fin.mk.inj this)
  · intro k
    refine ⟨?_, (hmem k).2⟩
    simp [List.getD_eq_getElem?_getD, hlen]

/-- The selected rows of the cached matrix are rows of `rsMatrix`; their
elimination meets no singular column. -/
theorem invert_selectedRows
    {hle : d.m_dataShards ≤ d.m_totalShards} (ht : d.m_totalShards ≤ 256)
    (hentry : ∀ (i : Fin d.m_totalShards) (j : Fin d.m_dataShards),
      d.m_encodingCache.entry i.val j.val = rsMatrix hle i j)
    {sel : Fin d.m_dataShards → Fin d.m_totalShards}
    (hinj : Function.Injective sel)
    (hsel : ∀ k, d.presentIdx.getD k.val 0 = (sel k).val) :
    ∃ aug, invert d.selectedRows = some aug ∧
      toMatrix aug = ((rsMatrix hle).submatrix sel id)⁻¹ := by
  have hrows : toMatrix d.selectedRows = (rsMatrix hle).submatrix sel id := by
    funext r c
    rw [selectedRows, toMatrix_ofEntries, hsel, hentry]
    rfl
  have hdet := SystematicCode.encodingMatrix_submatrix_det_ne_zero
    (rsNode_injective ht) hle hinj
  obtain ⟨aug, haug, hinv⟩ :=
    invert_eq_some (M := d.selectedRows) (by rw [hrows]; exact hdet)
  exact ⟨aug, haug, by rw [hinv, hrows]⟩

/-- The inverse of the selected rows times the stored shards is the data. -/
theorem multiplyInverse_eq
    (hd : d.InCodeWord data)
    {sel : Fin d.m_dataShards → Fin d.m_totalShards}
    (hinj : Function.Injective sel)
    (hsel : ∀ k, d.presentIdx.getD k.val 0 = (sel k).val ∧
      d.received (sel k).val = true)
    {aug : Rows GF256 d.m_dataShards d.m_dataShards}
    (haug : toMatrix aug = ((rsMatrix hd.data_le).submatrix sel id)⁻¹) :
    d.multiplyInverse aug = data.flatten := by
  rw [flatten_eq_flatMap_getD, hd.data_length, multiplyInverse]
  refine List.flatMap_congr fun di hdi => ?_
  have hlt : di < d.m_dataShards := List.mem_range.mp hdi
  have hmem : di < data.length := by
    rw [hd.data_length]
    exact hlt
  have hsize : (data.getD di []).length = d.m_shardSize := by
    simpa [List.getD_eq_getElem?_getD, hmem] using
      hd.data_size data[di] (List.getElem_mem hmem)
  refine ext_getD d.m_shardSize (by simp) hsize fun b hb => ?_
  rw [getD_map_range _ _ hb]
  have hsum := gfDot_eq_sum d.m_dataShards
    (fun k => if h : di < d.m_dataShards ∧ k < d.m_dataShards then
      (aug[di][k]).byte else 0)
    (fun k => (d.shard (d.presentIdx.getD k 0)).getD b 0)
  have hterm : ∀ k : Fin d.m_dataShards,
      (⟨if h : di < d.m_dataShards ∧ k.val < d.m_dataShards then
          (aug[di][k.val]).byte else 0⟩ : GF256) *
        ⟨(d.shard (d.presentIdx.getD k.val 0)).getD b 0⟩ =
      (((rsMatrix hd.data_le).submatrix sel id)⁻¹) ⟨di, hlt⟩ k *
        ∑ j : Fin d.m_dataShards,
          rsMatrix hd.data_le (sel k) j * ⟨(data.getD j.val []).getD b 0⟩ := by
    intro k
    rw [← haug, ← codeShard_getD hd.data_le data d.m_shardSize (sel k) hb,
      (hsel k).1, ← hd.shard_eq (sel k) (hsel k).2]
    simp [toMatrix, hlt]
  rw [Finset.sum_congr rfl fun k _ => hterm k] at hsum
  have hrec := SystematicCode.inv_submatrix_mulVec
    (rsNode_injective hd.total_le) hd.data_le hinj
    (fun j => (⟨(data.getD j.val []).getD b 0⟩ : GF256)) ⟨di, hlt⟩
  exact congrArg GF256.byte (hsum.trans hrec)

/-- After `ensureEncodingMatrix` the rebuilt frame is the data. -/
theorem reconstruct_eq
    (hd : d.InCodeWord data)
    (hcount : d.m_dataShards ≤ d.receivedSet.card)
    (hsize : 0 < d.m_shardSize)
    (hvalid : d.m_encodingCache.valid = true)
    (hentry : ∀ (i : Fin d.m_totalShards) (j : Fin d.m_dataShards),
      d.m_encodingCache.entry i.val j.val = rsMatrix hd.data_le i j) :
    d.reconstruct =
      (some ⟨d.m_frameIndex, data.flatten, d.m_isKeyframe⟩,
        { d with m_delivered := true }) := by
  obtain ⟨sel, hinj, hsel⟩ := exists_selection hcount
  obtain ⟨aug, haug, hinv⟩ :=
    invert_selectedRows hd.total_le hentry hinj fun k => (hsel k).1
  unfold reconstruct
  rw [if_neg (by simp [hvalid]), haug]
  dsimp only
  rw [if_neg (by
    rintro ⟨-, hne⟩
    exact hne (Nat.mul_div_cancel _ hsize))]
  rw [multiplyInverse_eq hd hinj hsel hinv]

/-- The matrix cached by `ensureEncodingMatrix` is valid and is `rsMatrix`. -/
theorem ensureEncodingMatrix_spec
    (hd : d.WellFormed) (hpos : 0 < d.m_dataShards)
    (hle : d.m_dataShards ≤ d.m_totalShards) (ht : d.m_totalShards ≤ 256) :
    ∃ c, d.ensureEncodingMatrix = { d with m_encodingCache := c } ∧
      CacheOk c ∧ c.valid = true ∧
      ∀ (i : Fin d.m_totalShards) (j : Fin d.m_dataShards),
        c.entry i.val j.val = rsMatrix hle i j := by
  obtain ⟨E, hE, hentry⟩ := buildEncodingMatrix_eq hle ht
  refine ⟨_, ensureEncodingMatrix_eq hd.cache hE, fun _ => hE, ?_, hentry⟩
  simp only [EncodingMatrixCache.valid, Bool.and_eq_true, decide_eq_true_eq]
  omega

/-- **Decoding**: if the stored shards belong to the code word of `data`, are
enough and the frame is not delivered yet, `tryDecode` returns the data. -/
theorem tryDecode_eq_some
    (hw : d.WellFormed) (hd : d.InCodeWord data)
    (hact : d.m_active = true) (hdel : d.m_delivered = false)
    (hcount : d.m_dataShards ≤ d.m_receivedCount) :
    ∃ c, CacheOk c ∧
      d.tryDecode =
        (some ⟨d.m_frameIndex, data.flatten, d.m_isKeyframe⟩,
          { d with m_encodingCache := c, m_delivered := true }) := by
  obtain ⟨hpos, hle, -⟩ := hw.counts hact
  have hsize : 0 < d.m_shardSize := hw.size_pos (by omega)
  have hset : d.m_dataShards ≤ d.receivedSet.card := by
    rw [← hw.count]
    exact hcount
  unfold tryDecode
  rw [if_neg (by simp [isComplete, hact, hdel, hcount])]
  by_cases hall : (List.range d.m_dataShards).all d.received = true
  · rw [if_pos hall, concatData_eq hd hall]
    exact ⟨d.m_encodingCache, hw.cache, rfl⟩
  · have hmiss := missing_le_availableParity hle hset
    rw [if_neg hall, if_neg (by omega), if_neg (by omega)]
    obtain ⟨c, hens, hok, hvalid, hentry⟩ :=
      ensureEncodingMatrix_spec hw hpos hle hd.total_le
    refine ⟨c, hok, ?_⟩
    rw [hens]
    have hd' : InCodeWord { d with m_encodingCache := c } data :=
      { total_le := hd.total_le
        data_le := hd.data_le
        data_length := hd.data_length
        data_size := hd.data_size
        shard_eq := hd.shard_eq }
    exact reconstruct_eq hd' hset hsize hvalid hentry

/-- Below the data count nothing is decoded. -/
theorem tryDecode_eq_none_of_lt
    (hlt : d.m_receivedCount < d.m_dataShards) :
    d.tryDecode = (none, d) := by
  unfold tryDecode
  rw [if_pos]
  simp [isComplete, hlt]

/-- A delivered frame is not decoded again. -/
theorem tryDecode_eq_none_of_delivered
    (hdel : d.m_delivered = true) :
    d.tryDecode = (none, d) := by
  unfold tryDecode
  rw [if_pos]
  simp [hdel]

end Decode

end FecFrameDecoder

end Client
end FocusVision
