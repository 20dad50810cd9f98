import FocusVision.Driver.SwapTextures
import Mathlib.Data.List.Nodup

/-!
# Whole sets, each with one index

Every set has all of its textures and one index, whatever fails or is destroyed, and
a frame advances each of its sets once.  Set ids are 32-bit numbers that are counted
up for every attempt: all of this holds if and only if no new set gets the id of a
set that is still there.
-/

namespace FocusVision
namespace Driver

/-- The device makes and shares all textures of a set. -/
def AllMade (made : Nat → Option UInt64) : Prop :=
  ∀ i < kTexturesPerSet, (made i).isSome

/-! ### The loops -/

theorem mapM_some
    {α : Type} {β : Type} {f : α → Option β} {xs : List α} {ys : List β}
    (h : xs.mapM f = some ys) :
    xs.map f = ys.map some := by
  induction xs generalizing ys with
  | nil =>
      rw [List.mapM_nil] at h
      obtain rfl := Option.some.inj h
      rfl
  | cons x xs ih =>
      rw [List.mapM_cons] at h
      cases hx : f x with
      | none => simp [hx] at h
      | some y =>
          cases hrest : xs.mapM f with
          | none => simp [hx, hrest] at h
          | some rest =>
              simp only [hx, hrest, Option.bind_eq_bind, Option.bind_some,
                Option.pure_def, Option.some.injEq] at h
              subst h
              simp [hx, ih hrest]

/-- The textures of a new set are all there, and are its. -/
theorem createTextures_spec
    {pid setId : UInt32} {made : Nat → Option UInt64} {created : List Texture}
    (h : createTextures pid setId made = some created) :
    created.length = kTexturesPerSet ∧ AllMade made ∧
      ∀ t ∈ created, t.setId = setId ∧ t.pid = pid := by
  have hmap := mapM_some h
  have hlength := congrArg List.length hmap
  rw [List.length_map, List.length_map, List.length_range] at hlength
  refine ⟨hlength.symm, fun i hi => ?_, fun t ht => ?_⟩
  · have hmem : (made i).map (fun handle => (⟨handle, pid, setId⟩ : Texture)) ∈
        created.map some := by
      rw [← hmap]
      exact List.mem_map.mpr ⟨i, List.mem_range.mpr hi, rfl⟩
    obtain ⟨t, -, ht⟩ := List.mem_map.mp hmem
    rw [← Option.isSome_map, ← ht]
    rfl
  · have hmem : some t ∈ created.map some := List.mem_map.mpr ⟨t, ht, rfl⟩
    rw [← hmap] at hmem
    obtain ⟨i, -, hi⟩ := List.mem_map.mp hmem
    obtain ⟨handle, -, rfl⟩ := Option.map_eq_some_iff.mp hi
    exact ⟨rfl, rfl⟩

theorem createTextures_of_allMade
    (pid setId : UInt32) {made : Nat → Option UInt64} (h : AllMade made) :
    ∃ created, createTextures pid setId made = some created := by
  obtain ⟨h0, h1, h2⟩ : (made 0).isSome ∧ (made 1).isSome ∧ (made 2).isSome :=
    ⟨h 0 (by decide), h 1 (by decide), h 2 (by decide)⟩
  obtain ⟨a, ha⟩ := Option.isSome_iff_exists.mp h0
  obtain ⟨b, hb⟩ := Option.isSome_iff_exists.mp h1
  obtain ⟨c, hc⟩ := Option.isSome_iff_exists.mp h2
  exact ⟨[⟨a, pid, setId⟩, ⟨b, pid, setId⟩, ⟨c, pid, setId⟩], by
    simp [createTextures, kTexturesPerSet, List.range_succ, ha, hb, hc]⟩

section Indices

variable (again : Bool)

theorem useIndex_cons_self
    (setId index : UInt32) (rest : List (UInt32 × UInt32)) :
    useIndex again setId ((setId, index) :: rest) =
      (some (advanceIndex again index), (setId, advanceIndex again index) :: rest) :=
  if_pos rfl

theorem useIndex_cons_ne
    {id setId : UInt32} (h : id ≠ setId) (index : UInt32) (rest : List (UInt32 × UInt32)) :
    useIndex again setId ((id, index) :: rest) =
      ((useIndex again setId rest).1, (id, index) :: (useIndex again setId rest).2) :=
  if_neg h

variable (setId : UInt32) (current : List (UInt32 × UInt32))

theorem useIndex_fst :
    (useIndex again setId current).1 =
      (current.lookup setId).map (advanceIndex again) := by
  induction current with
  | nil => rfl
  | cons e rest ih =>
      obtain ⟨id, index⟩ := e
      rcases eq_or_ne id setId with rfl | hne
      · rw [useIndex_cons_self, List.lookup_cons_self]
        rfl
      · rw [useIndex_cons_ne again hne, List.lookup_cons, beq_eq_false_iff_ne.mpr hne.symm]
        exact ih

theorem useIndex_lookup
    (id : UInt32) :
    (useIndex again setId current).2.lookup id =
      if id = setId then (current.lookup setId).map (advanceIndex again)
      else current.lookup id := by
  induction current with
  | nil => simp [useIndex]
  | cons e rest ih =>
      obtain ⟨first, index⟩ := e
      rcases eq_or_ne first setId with rfl | hne
      · rw [useIndex_cons_self, List.lookup_cons_self]
        rcases eq_or_ne id first with rfl | hother
        · rw [if_pos rfl, List.lookup_cons_self]
          rfl
        · rw [if_neg hother, List.lookup_cons, List.lookup_cons,
            beq_eq_false_iff_ne.mpr hother]
      · rw [useIndex_cons_ne again hne]
        simp only [List.lookup_cons, ih, beq_eq_false_iff_ne.mpr hne.symm]
        rcases eq_or_ne id setId with rfl | hother
        · simp [beq_eq_false_iff_ne.mpr hne.symm]
        · simp [hother]

theorem useIndex_keys :
    (useIndex again setId current).2.map Prod.fst = current.map Prod.fst := by
  induction current with
  | nil => rfl
  | cons e rest ih =>
      obtain ⟨id, index⟩ := e
      rcases eq_or_ne id setId with rfl | hne
      · rw [useIndex_cons_self]
        rfl
      · rw [useIndex_cons_ne again hne, List.map_cons, ih, List.map_cons]

theorem advanceIndex_lt
    {index : UInt32} (h : index.toNat < kTexturesPerSet) :
    (advanceIndex again index).toNat < kTexturesPerSet := by
  unfold advanceIndex
  split_ifs
  · exact h
  · rw [UInt32.toNat_mod]
    exact Nat.mod_lt _ (by decide)

theorem useIndex_bounded
    (h : ∀ e ∈ current, e.2.toNat < kTexturesPerSet) :
    ∀ e ∈ (useIndex again setId current).2, e.2.toNat < kTexturesPerSet := by
  induction current with
  | nil => exact h
  | cons e rest ih =>
      obtain ⟨id, index⟩ := e
      obtain ⟨hfirst, hrest⟩ := List.forall_mem_cons.mp h
      rcases eq_or_ne id setId with rfl | hne
      · rw [useIndex_cons_self]
        exact List.forall_mem_cons.mpr ⟨advanceIndex_lt again hfirst, hrest⟩
      · rw [useIndex_cons_ne again hne]
        exact List.forall_mem_cons.mpr ⟨hfirst, ih hrest⟩

end Indices

namespace SwapTextureSets

/-- A texture of this set is there. -/
def Live (s : SwapTextureSets) (setId : UInt32) : Prop :=
  ∃ t ∈ s.textures, t.setId = setId

/-- Every set that is there has all its textures and one index, within the set, and
no other set has one. -/
structure Whole (s : SwapTextureSets) : Prop where
  textures : ∀ setId, s.Live setId →
    s.textures.countP (fun t => t.setId == setId) = kTexturesPerSet
  indexed : ∀ setId, s.Live setId → (s.current.map Prod.fst).count setId = 1
  others : ∀ e ∈ s.current, s.Live e.1
  bounded : ∀ e ∈ s.current, e.2.toNat < kTexturesPerSet

/-- A handle names one texture, and a set has one process. -/
structure Ok (s : SwapTextureSets) : Prop where
  whole : s.Whole
  handles : (s.textures.map Texture.handle).Nodup
  owned : ∀ t ∈ s.textures, ∀ u ∈ s.textures, t.setId = u.setId → t.pid = u.pid

/-- One of the two handles is of this set. -/
def Named (s : SwapTextureSets) (handles : UInt64 × UInt64) (setId : UInt32) : Prop :=
  ∃ t ∈ s.textures, t.setId = setId ∧ (t.handle = handles.1 ∨ t.handle = handles.2)

/-- The entry of `indices` for an eye: the index that the set of its handle is at, or
what it was. -/
def Answered (s next : SwapTextureSets) (handle : UInt64) (before after : UInt32) : Prop :=
  (∀ t ∈ s.textures, t.handle = handle → next.current.lookup t.setId = some after) ∧
    ((∀ t ∈ s.textures, t.handle ≠ handle) → after = before)

/-- What a call should leave and answer. -/
def Does (s : SwapTextureSets) (call : SwapCall) : Prop :=
  let next := (s.step call).2
  match call with
  | .create _ made =>
      ¬ AllMade made → next.textures = s.textures ∧ next.current = s.current
  | .destroySet handle =>
      (∀ t ∈ s.textures, t.handle = handle →
        ∀ u, u ∈ next.textures ↔ u ∈ s.textures ∧ u.setId ≠ t.setId) ∧
      ((∀ t ∈ s.textures, t.handle ≠ handle) → next = s) ∧
      next.current ⊆ s.current
  | .destroyAll pid =>
      (∀ u, u ∈ next.textures ↔
        u ∈ s.textures ∧ ∀ t ∈ s.textures, t.setId = u.setId → t.pid ≠ pid) ∧
      next.current ⊆ s.current
  | .nextIndices handles indices =>
      let answer := (s.nextIndices handles indices).1
      next.textures = s.textures ∧
      (∀ setId, s.Named handles setId →
        next.current.lookup setId =
          (s.current.lookup setId).map fun index => (index + 1) % UInt32.ofNat kTexturesPerSet) ∧
      (∀ setId, ¬ s.Named handles setId →
        next.current.lookup setId = s.current.lookup setId) ∧
      Answered s next handles.1 indices.1 answer.1 ∧
      Answered s next handles.2 indices.2 answer.2

/-- The bookkeeping of a call is right. -/
structure Right (s : SwapTextureSets) (call : SwapCall) : Prop where
  does : s.Does call
  whole : (s.step call).2.Whole

/-- The handles of a new set are distinct from each other and from the live ones. -/
def Fresh (s : SwapTextureSets) (call : SwapCall) : Prop :=
  ∀ pid made created, call = .create pid made →
    createTextures pid s.nextSetId made = some created →
    ((s.textures ++ created).map Texture.handle).Nodup

/-- No new set gets the id of a set that is there. -/
def IdFree (s : SwapTextureSets) (call : SwapCall) : Prop :=
  ∀ pid made, call = .create pid made → AllMade made → ¬ s.Live s.nextSetId

/-! ### Lookups -/

theorem find_eq_some
    {s : SwapTextureSets} {handle : UInt64} {t : Texture} (h : s.find handle = some t) :
    t ∈ s.textures ∧ t.handle = handle := by
  have hhandle := List.find?_some h
  exact ⟨List.mem_of_find?_eq_some h, by simpa using hhandle⟩

theorem find_eq_none
    {s : SwapTextureSets} {handle : UInt64} (h : s.find handle = none) :
    ∀ t ∈ s.textures, t.handle ≠ handle := by
  intro t ht
  have hnot := List.find?_eq_none.mp h t ht
  simpa using hnot

theorem Ok.eq_of_handle
    {s : SwapTextureSets} (h : s.Ok) {t u : Texture} (ht : t ∈ s.textures)
    (hu : u ∈ s.textures) (heq : t.handle = u.handle) :
    t = u :=
  List.inj_on_of_nodup_map h.handles ht hu heq

/-- A live set has an index, also in a list with the same sets. -/
theorem Whole.lookup
    {s : SwapTextureSets} (h : s.Whole) {t : Texture} (ht : t ∈ s.textures)
    {current : List (UInt32 × UInt32)}
    (hkeys : current.map Prod.fst = s.current.map Prod.fst) :
    ∃ index, current.lookup t.setId = some index := by
  have hmem : t.setId ∈ current.map Prod.fst := by
    rw [hkeys, ← List.count_pos_iff, h.indexed t.setId ⟨t, ht, rfl⟩]
    exact Nat.one_pos
  cases hlookup : current.lookup t.setId with
  | some index => exact ⟨index, rfl⟩
  | none =>
      obtain ⟨e, he, heq⟩ := List.mem_map.mp hmem
      have hnot := List.lookup_eq_none_iff.mp hlookup e he
      exact absurd hnot (by simp [heq])

/-! ### New sets -/

theorem create_failed
    {s : SwapTextureSets} {pid : UInt32} {made : Nat → Option UInt64}
    (h : createTextures pid s.nextSetId made = none) :
    s.create pid made = (none, { s with nextSetId := s.nextSetId + 1 }) := by
  simp only [create, h]

theorem create_made
    {s : SwapTextureSets} {pid : UInt32} {made : Nat → Option UInt64}
    {created : List Texture} (h : createTextures pid s.nextSetId made = some created) :
    s.create pid made =
      (some (created.map Texture.handle),
        { textures := s.textures ++ created
          current := s.current ++ [(s.nextSetId, 0)]
          nextSetId := s.nextSetId + 1 }) := by
  simp only [create, h]

/-- The next id does not matter: a failed attempt leaves what was there. -/
theorem Ok.attempted
    {s : SwapTextureSets} (h : s.Ok) (nextSetId : UInt32) :
    Ok { s with nextSetId } :=
  ⟨⟨h.whole.textures, h.whole.indexed, h.whole.others, h.whole.bounded⟩, h.handles, h.owned⟩

section Added

variable {s : SwapTextureSets} {pid : UInt32} {created : List Texture}
variable (hlength : created.length = kTexturesPerSet)
variable (hids : ∀ t ∈ created, t.setId = s.nextSetId ∧ t.pid = pid)

include hlength hids

theorem countP_added
    (setId : UInt32) :
    created.countP (fun t => t.setId == setId) =
      if setId = s.nextSetId then kTexturesPerSet else 0 := by
  split_ifs with heq
  · rw [← hlength, List.countP_eq_length]
    intro t ht
    rw [heq, (hids t ht).1]
    exact beq_self_eq_true _
  · rw [List.countP_eq_zero]
    intro t ht
    rw [(hids t ht).1]
    simpa using Ne.symm heq

theorem live_added
    {setId : UInt32} :
    Live { textures := s.textures ++ created
           current := s.current ++ [(s.nextSetId, 0)]
           nextSetId := s.nextSetId + 1 } setId ↔
      s.Live setId ∨ setId = s.nextSetId := by
  constructor
  · rintro ⟨t, ht, rfl⟩
    rcases List.mem_append.mp ht with ht | ht
    · exact Or.inl ⟨t, ht, rfl⟩
    · exact Or.inr (hids t ht).1
  · rintro (⟨t, ht, rfl⟩ | rfl)
    · exact ⟨t, List.mem_append_left _ ht, rfl⟩
    · obtain ⟨t, ht⟩ : ∃ t, t ∈ created := by
        refine List.exists_mem_of_length_pos ?_
        rw [hlength]
        decide
      exact ⟨t, List.mem_append_right _ ht, (hids t ht).1⟩

/-- A new set is whole, and so are the others, if its id is free. -/
theorem Whole.added
    (h : s.Whole) (hfree : ¬ s.Live s.nextSetId) :
    Whole { textures := s.textures ++ created
            current := s.current ++ [(s.nextSetId, 0)]
            nextSetId := s.nextSetId + 1 } := by
  have hnone : s.textures.countP (fun t => t.setId == s.nextSetId) = 0 := by
    rw [List.countP_eq_zero]
    intro t ht heq
    exact hfree ⟨t, ht, by simpa using heq⟩
  have hkeys : (s.current.map Prod.fst).count s.nextSetId = 0 := by
    rw [List.count_eq_zero]
    intro hmem
    obtain ⟨e, he, heq⟩ := List.mem_map.mp hmem
    exact hfree (heq ▸ h.others e he)
  refine ⟨fun setId hlive => ?_, fun setId hlive => ?_, fun e he => ?_, fun e he => ?_⟩
  · rw [List.countP_append, countP_added hlength hids]
    rcases eq_or_ne setId s.nextSetId with rfl | hne
    · rw [hnone, if_pos rfl, Nat.zero_add]
    · have hold := ((live_added hlength hids).mp hlive).resolve_right hne
      rw [if_neg hne, h.textures setId hold, Nat.add_zero]
  · rw [List.map_append, List.count_append, List.map_singleton]
    rcases eq_or_ne setId s.nextSetId with rfl | hne
    · rw [hkeys, List.count_singleton_self]
    · have hold := ((live_added hlength hids).mp hlive).resolve_right hne
      rw [h.indexed setId hold, List.count_eq_zero.mpr (by simpa using hne), Nat.add_zero]
  · rw [live_added hlength hids]
    rcases List.mem_append.mp he with he | he
    · exact Or.inl (h.others e he)
    · exact Or.inr (by rw [List.mem_singleton.mp he])
  · rcases List.mem_append.mp he with he | he
    · exact h.bounded e he
    · rw [List.mem_singleton.mp he]
      change (0 : UInt32).toNat < kTexturesPerSet
      decide

/-- With an id that is taken, the set has too many textures. -/
theorem not_whole_added
    (h : s.Whole) (htaken : s.Live s.nextSetId) :
    ¬ Whole { textures := s.textures ++ created
              current := s.current ++ [(s.nextSetId, 0)]
              nextSetId := s.nextSetId + 1 } := by
  intro hwhole
  have hcount := hwhole.textures s.nextSetId ((live_added hlength hids).mpr (Or.inr rfl))
  rw [List.countP_append, countP_added hlength hids, if_pos rfl, h.textures _ htaken] at hcount
  exact absurd hcount (by decide)

theorem Ok.added
    (h : s.Ok) (hfree : ¬ s.Live s.nextSetId)
    (hfresh : ((s.textures ++ created).map Texture.handle).Nodup) :
    Ok { textures := s.textures ++ created
         current := s.current ++ [(s.nextSetId, 0)]
         nextSetId := s.nextSetId + 1 } := by
  refine ⟨h.whole.added hlength hids hfree, hfresh, fun t ht u hu heq => ?_⟩
  rcases List.mem_append.mp ht with ht | ht <;> rcases List.mem_append.mp hu with hu | hu
  · exact h.owned t ht u hu heq
  · exact absurd ⟨t, ht, heq.trans (hids u hu).1⟩ hfree
  · exact absurd ⟨u, hu, heq.symm.trans (hids t ht).1⟩ hfree
  · rw [(hids t ht).2, (hids u hu).2]

end Added

/-! ### Destroyed sets -/

/-- Whole sets are dropped, with their indices. -/
theorem Ok.restrict
    {s : SwapTextureSets} (h : s.Ok) {keep : Texture → Bool} {keepId : UInt32 → Bool}
    (hids : ∀ t ∈ s.textures, keepId t.setId = keep t) :
    Ok { s with
      textures := s.textures.filter keep
      current := s.current.filter fun e => keepId e.1 } := by
  have hlive : ∀ setId, Live { s with
      textures := s.textures.filter keep
      current := s.current.filter fun e => keepId e.1 } setId →
      s.Live setId ∧ keepId setId = true := by
    rintro setId ⟨t, ht, rfl⟩
    obtain ⟨ht, hkeep⟩ := List.mem_filter.mp ht
    exact ⟨⟨t, ht, rfl⟩, (hids t ht).trans hkeep⟩
  refine ⟨⟨fun setId h' => ?_, fun setId h' => ?_, fun e he => ?_, fun e he => ?_⟩, ?_, ?_⟩
  · obtain ⟨hold, hkept⟩ := hlive setId h'
    rw [← h.whole.textures setId hold, List.countP_filter]
    refine List.countP_congr fun t ht => ?_
    simp only [Bool.and_eq_true, beq_iff_eq, and_iff_left_iff_imp]
    rintro rfl
    rw [← hids t ht]
    exact hkept
  · obtain ⟨hold, hkept⟩ := hlive setId h'
    have hmap : (s.current.filter fun e => keepId e.1).map Prod.fst =
        (s.current.map Prod.fst).filter keepId := by
      rw [List.filter_map]
      rfl
    rw [hmap, List.count_filter hkept]
    exact h.whole.indexed setId hold
  · obtain ⟨he, hkept⟩ := List.mem_filter.mp he
    obtain ⟨t, ht, heq⟩ := h.whole.others e he
    refine ⟨t, List.mem_filter.mpr ⟨ht, ?_⟩, heq⟩
    rw [← hids t ht, heq]
    exact hkept
  · exact h.whole.bounded e (List.mem_filter.mp he).1
  · exact (List.Sublist.map _ List.filter_sublist).nodup h.handles
  · intro t ht u hu
    exact h.owned t (List.mem_filter.mp ht).1 u (List.mem_filter.mp hu).1

theorem Ok.destroySet
    {s : SwapTextureSets} (h : s.Ok) (handle : UInt64) :
    (s.destroySet handle).Ok := by
  unfold SwapTextureSets.destroySet
  cases s.find handle with
  | none => exact h
  | some t =>
      have hok := @Ok.restrict s h (fun e => e.setId != t.setId) (fun setId => setId != t.setId)
        (fun _ _ => rfl)
      exact hok

theorem destroySet_does
    {s : SwapTextureSets} (h : s.Ok) (handle : UInt64) :
    s.Does (.destroySet handle) := by
  simp only [Does, step]
  cases hfind : s.find handle with
  | none =>
      have hsame : s.destroySet handle = s := by simp only [SwapTextureSets.destroySet, hfind]
      rw [hsame]
      refine ⟨fun t ht heq => absurd heq (find_eq_none hfind t ht), fun _ => rfl, ?_⟩
      exact List.Subset.refl _
  | some t =>
      obtain ⟨ht, hhandle⟩ := find_eq_some hfind
      simp only [SwapTextureSets.destroySet, hfind]
      refine ⟨fun u hu heq e => ?_, fun hnone => absurd hhandle (hnone t ht), ?_⟩
      · rw [h.eq_of_handle hu ht (heq.trans hhandle.symm), List.mem_filter, bne_iff_ne]
      · exact List.filter_subset_self _

theorem Ok.destroyAll
    {s : SwapTextureSets} (h : s.Ok) (pid : UInt32) :
    (s.destroyAll pid).Ok := by
  refine @Ok.restrict s h (fun e => e.pid != pid)
    (fun setId => (s.textures.filter fun e => e.pid != pid).any fun t => t.setId == setId) ?_
  intro t ht
  rw [Bool.eq_iff_iff, List.any_eq_true]
  constructor
  · rintro ⟨u, hu, heq⟩
    obtain ⟨hu, hkept⟩ := List.mem_filter.mp hu
    rw [beq_iff_eq] at heq
    rw [h.owned t ht u hu heq.symm]
    exact hkept
  · intro hkept
    exact ⟨t, List.mem_filter.mpr ⟨ht, hkept⟩, beq_self_eq_true _⟩

theorem destroyAll_does
    {s : SwapTextureSets} (h : s.Ok) (pid : UInt32) :
    s.Does (.destroyAll pid) := by
  refine ⟨fun u => ?_, List.filter_subset_self _⟩
  change u ∈ s.textures.filter (fun e => e.pid != pid) ↔ _
  rw [List.mem_filter, bne_iff_ne]
  constructor
  · rintro ⟨hu, hpid⟩
    exact ⟨hu, fun t ht heq => by rw [h.owned t ht u hu heq]; exact hpid⟩
  · rintro ⟨hu, hall⟩
    exact ⟨hu, hall u hu rfl⟩

/-! ### Advances -/

theorem nextIndex_unknown
    {s : SwapTextureSets} {handle : UInt64} (h : s.find handle = none) (a : Advance) :
    s.nextIndex handle a = (none, a) := by
  simp only [nextIndex, h]

/-- An eye moves its set on, unless the other eye just did. -/
theorem nextIndex_known
    {s : SwapTextureSets} {handle : UInt64} {t : Texture} (h : s.find handle = some t)
    {a : Advance} {index : UInt32} (hlookup : a.current.lookup t.setId = some index) :
    s.nextIndex handle a =
      (some (advanceIndex (a.advanced == some t.setId) index),
        { current := (useIndex (a.advanced == some t.setId) t.setId a.current).2
          advanced := some t.setId }) := by
  have hfst := useIndex_fst (a.advanced == some t.setId) t.setId a.current
  rw [hlookup, Option.map_some] at hfst
  simp only [nextIndex, h]
  generalize useIndex (a.advanced == some t.setId) t.setId a.current = r at hfst ⊢
  obtain ⟨first, current⟩ := r
  simp only at hfst
  subst hfst
  rfl

/-- The sets of a list of indices stay what they are, and so do the bounds. -/
theorem nextIndex_keeps
    (s : SwapTextureSets) (handle : UInt64) (a : Advance) :
    (s.nextIndex handle a).2.current.map Prod.fst = a.current.map Prod.fst ∧
      ((∀ e ∈ a.current, e.2.toNat < kTexturesPerSet) →
        ∀ e ∈ (s.nextIndex handle a).2.current, e.2.toNat < kTexturesPerSet) := by
  unfold nextIndex
  cases s.find handle with
  | none => exact ⟨rfl, id⟩
  | some t =>
      have hkeys := useIndex_keys (a.advanced == some t.setId) t.setId a.current
      have hbounded := useIndex_bounded (a.advanced == some t.setId) t.setId a.current
      simp only
      generalize useIndex (a.advanced == some t.setId) t.setId a.current = r at hkeys hbounded ⊢
      obtain ⟨first, current⟩ := r
      cases first with
      | none => exact ⟨rfl, id⟩
      | some index => exact ⟨hkeys, hbounded⟩

theorem Ok.nextIndices
    {s : SwapTextureSets} (h : s.Ok) (handles : UInt64 × UInt64) (indices : UInt32 × UInt32) :
    (s.nextIndices handles indices).2.Ok := by
  obtain ⟨hleft, hleftBound⟩ := s.nextIndex_keeps handles.1 { current := s.current }
  obtain ⟨hright, hrightBound⟩ := s.nextIndex_keeps handles.2
    (s.nextIndex handles.1 { current := s.current }).2
  have hkeys := hright.trans hleft
  refine ⟨⟨h.whole.textures, fun setId hlive => ?_, fun e he => ?_, ?_⟩, h.handles, h.owned⟩
  · exact (congrArg (List.count setId) hkeys).trans (h.whole.indexed setId hlive)
  · have hmem : e.1 ∈ s.current.map Prod.fst := by
      rw [← hkeys]
      exact List.mem_map.mpr ⟨e, he, rfl⟩
    obtain ⟨e', he', heq⟩ := List.mem_map.mp hmem
    exact heq ▸ h.whole.others e' he'
  · exact hrightBound (hleftBound h.whole.bounded)

theorem Ok.find_of_mem
    {s : SwapTextureSets} (h : s.Ok) {t : Texture} (ht : t ∈ s.textures) :
    s.find t.handle = some t := by
  cases hfind : s.find t.handle with
  | none => exact absurd rfl (find_eq_none hfind t ht)
  | some u =>
      obtain ⟨hu, heq⟩ := find_eq_some hfind
      rw [h.eq_of_handle hu ht heq]

/-- An eye in one piece: the index of each set after it, the set that it advanced, and
its answer. -/
theorem nextIndex_spec
    {s : SwapTextureSets} (h : s.Whole) (handle : UInt64) {a : Advance}
    (hkeys : a.current.map Prod.fst = s.current.map Prod.fst) :
    let r := s.nextIndex handle a
    let setId := (s.find handle).map Texture.setId
    (∀ id, r.2.current.lookup id =
      if setId = some id then
        (a.current.lookup id).map (advanceIndex (a.advanced == some id))
      else a.current.lookup id) ∧
    r.2.advanced = setId.or a.advanced ∧
    r.1 = setId.bind fun id => r.2.current.lookup id := by
  cases hfind : s.find handle with
  | none =>
      rw [nextIndex_unknown hfind]
      exact ⟨fun id => rfl, rfl, rfl⟩
  | some t =>
      obtain ⟨index, hindex⟩ := h.lookup (find_eq_some hfind).1 hkeys
      have hlookup := useIndex_lookup (a.advanced == some t.setId) t.setId a.current
      rw [nextIndex_known hfind hindex]
      refine ⟨fun id => ?_, rfl, ?_⟩
      · simp only [hlookup, Option.map_some, Option.some.injEq]
        rcases eq_or_ne id t.setId with rfl | hne
        · rw [if_pos rfl]
        · rw [if_neg hne, if_neg hne.symm]
      · rw [Option.map_some, Option.bind_some, hlookup, if_pos rfl, hindex]
        rfl

theorem Ok.map_find
    {s : SwapTextureSets} (h : s.Ok) (handle : UInt64) (setId : UInt32) :
    (s.find handle).map Texture.setId = some setId ↔
      ∃ t ∈ s.textures, t.setId = setId ∧ t.handle = handle := by
  rw [Option.map_eq_some_iff]
  constructor
  · rintro ⟨t, hfind, rfl⟩
    obtain ⟨ht, hhandle⟩ := find_eq_some hfind
    exact ⟨t, ht, rfl, hhandle⟩
  · rintro ⟨t, ht, rfl, rfl⟩
    exact ⟨t, h.find_of_mem ht, rfl⟩

theorem Ok.named_iff
    {s : SwapTextureSets} (h : s.Ok) (handles : UInt64 × UInt64) (setId : UInt32) :
    s.Named handles setId ↔
      (s.find handles.1).map Texture.setId = some setId ∨
        (s.find handles.2).map Texture.setId = some setId := by
  rw [h.map_find, h.map_find]
  constructor
  · rintro ⟨t, ht, hid, hleft | hright⟩
    · exact Or.inl ⟨t, ht, hid, hleft⟩
    · exact Or.inr ⟨t, ht, hid, hright⟩
  · rintro (⟨t, ht, hid, hleft⟩ | ⟨t, ht, hid, hright⟩)
    · exact ⟨t, ht, hid, Or.inl hleft⟩
    · exact ⟨t, ht, hid, Or.inr hright⟩

/-- The entry of an eye, from the index that its set is at in the end. -/
theorem Ok.answered
    {s : SwapTextureSets} (h : s.Ok) {current : List (UInt32 × UInt32)}
    (hkeys : current.map Prod.fst = s.current.map Prod.fst) {handle : UInt64}
    {answer : Option UInt32} (before : UInt32)
    (hanswer : answer = ((s.find handle).map Texture.setId).bind fun id => current.lookup id) :
    Answered s { s with current } handle before (answer.getD before) := by
  constructor
  · rintro t ht rfl
    obtain ⟨index, hindex⟩ := h.whole.lookup ht hkeys
    rw [h.find_of_mem ht] at hanswer
    rw [hanswer, Option.map_some, Option.bind_some, hindex]
    rfl
  · intro hnone
    cases hfind : s.find handle with
    | none =>
        rw [hfind] at hanswer
        rw [hanswer]
        rfl
    | some t =>
        obtain ⟨ht, hhandle⟩ := find_eq_some hfind
        exact absurd hhandle (hnone t ht)

theorem advanceIndex_false :
    advanceIndex false = fun index => (index + 1) % UInt32.ofNat kTexturesPerSet :=
  rfl

/-- Two eyes of the same set advance it once. -/
theorem nextIndices_does
    {s : SwapTextureSets} (h : s.Ok) (handles : UInt64 × UInt64) (indices : UInt32 × UInt32) :
    s.Does (.nextIndices handles indices) := by
  obtain ⟨hleftLookup, hadvanced, hleftAnswer⟩ :=
    nextIndex_spec h.whole handles.1 (a := { current := s.current }) rfl
  have hleftKeys := (s.nextIndex_keeps handles.1 { current := s.current }).1
  obtain ⟨hrightLookup, -, hrightAnswer⟩ := nextIndex_spec h.whole handles.2 hleftKeys
  have hkeys := ((s.nextIndex_keeps handles.2 _).1).trans hleftKeys
  simp only [Does, step, h.named_iff, nextIndices]
  generalize s.nextIndex handles.1 { current := s.current } = left at *
  generalize s.nextIndex handles.2 left.2 = right at *
  have hnext : ∀ id, right.2.current.lookup id =
      if (s.find handles.1).map Texture.setId = some id ∨
          (s.find handles.2).map Texture.setId = some id then
        (s.current.lookup id).map (advanceIndex false)
      else s.current.lookup id := by
    intro id
    rw [hrightLookup, hleftLookup, hadvanced]
    by_cases hl : (s.find handles.1).map Texture.setId = some id <;>
      by_cases hr : (s.find handles.2).map Texture.setId = some id
    · -- the second eye finds the set just advanced
      simp only [hl, hr, or_self, if_true, Option.some_or, beq_self_eq_true, Option.map_map]
      rfl
    · simp only [hl, hr, or_false, if_true, if_false]
      rfl
    · have hother : (((s.find handles.1).map Texture.setId).or none == some id) = false := by
        rw [Option.or_none]
        exact beq_eq_false_iff_ne.mpr hl
      simp only [hl, hr, or_true, if_true, if_false, hother]
    · simp only [hl, hr, or_self, if_false]
  refine ⟨trivial, fun id hnamed => ?_, fun id hother => ?_, ?_, ?_⟩
  · rw [hnext, if_pos hnamed, advanceIndex_false]
  · rw [hnext, if_neg hother]
  · refine h.answered hkeys indices.1 (hleftAnswer.trans ?_)
    cases hl : (s.find handles.1).map Texture.setId with
    | none => rfl
    | some id =>
        rw [Option.bind_some, Option.bind_some, hleftLookup, hnext, if_pos hl, if_pos (Or.inl hl)]
        rfl
  · exact h.answered hkeys indices.2 hrightAnswer

/-! ### Runs -/

/-- A call that creates no set over one that is there leaves everything in order. -/
theorem Ok.step
    {s : SwapTextureSets} (h : s.Ok) {call : SwapCall} (hfresh : s.Fresh call)
    (hfree : s.IdFree call) :
    (s.step call).2.Ok := by
  cases call with
  | create pid made =>
      simp only [SwapTextureSets.step]
      cases hmade : createTextures pid s.nextSetId made with
      | none =>
          rw [create_failed hmade]
          exact h.attempted _
      | some created =>
          obtain ⟨hlength, hall, hids⟩ := createTextures_spec hmade
          rw [create_made hmade]
          exact h.added hlength hids (hfree pid made rfl hall)
            (hfresh pid made created rfl hmade)
  | destroySet handle => exact h.destroySet handle
  | destroyAll pid => exact h.destroyAll pid
  | nextIndices handles indices => exact h.nextIndices handles indices

/-- The bookkeeping of a call is right if and only if it creates no set over one that
is there. -/
theorem right_iff
    {s : SwapTextureSets} (h : s.Ok) (call : SwapCall) :
    s.Right call ↔ s.IdFree call := by
  cases call with
  | create pid made =>
      cases hmade : createTextures pid s.nextSetId made with
      | none =>
          have hstep : s.step (.create pid made) =
              (.created none, { s with nextSetId := s.nextSetId + 1 }) := by
            simp only [SwapTextureSets.step, create_failed hmade]
          have hfree : s.IdFree (.create pid made) := by
            rintro pid' made' heq hall
            obtain ⟨rfl, rfl⟩ := SwapCall.create.inj heq
            obtain ⟨created, hcreated⟩ := createTextures_of_allMade pid s.nextSetId hall
            exact absurd (hmade.symm.trans hcreated) (by simp)
          refine ⟨fun _ => hfree, fun _ => ⟨?_, ?_⟩⟩
          · simp only [Does, hstep]
            exact fun _ => ⟨trivial, trivial⟩
          · rw [hstep]
            exact (h.attempted _).whole
      | some created =>
          obtain ⟨hlength, hall, hids⟩ := createTextures_spec hmade
          have hstep : (s.create pid made).2 =
              { textures := s.textures ++ created
                current := s.current ++ [(s.nextSetId, 0)]
                nextSetId := s.nextSetId + 1 } := congrArg Prod.snd (create_made hmade)
          constructor
          · rintro hright pid' made' heq -
            obtain ⟨rfl, rfl⟩ := SwapCall.create.inj heq
            intro htaken
            refine not_whole_added hlength hids h.whole htaken ?_
            rw [← hstep]
            exact hright.whole
          · intro hfree
            refine ⟨fun hnot => absurd hall hnot, ?_⟩
            change (s.create pid made).2.Whole
            rw [hstep]
            exact h.whole.added hlength hids (hfree pid made rfl hall)
  | destroySet handle =>
      refine ⟨fun _ _ _ heq => ?_, fun _ => ⟨destroySet_does h handle, ?_⟩⟩
      · cases heq
      · exact (h.destroySet handle).whole
  | destroyAll pid =>
      refine ⟨fun _ _ _ heq => ?_, fun _ => ⟨destroyAll_does h pid, ?_⟩⟩
      · cases heq
      · exact (h.destroyAll pid).whole
  | nextIndices handles indices =>
      refine ⟨fun _ _ _ heq => ?_, fun _ => ⟨nextIndices_does h handles indices, ?_⟩⟩
      · cases heq
      · exact (h.nextIndices handles indices).whole

theorem ok_empty :
    Ok {} :=
  { whole :=
      { textures := fun _ ⟨_, ht, _⟩ => absurd ht (List.not_mem_nil)
        indexed := fun _ ⟨_, ht, _⟩ => absurd ht (List.not_mem_nil)
        others := fun _ he => absurd he (List.not_mem_nil)
        bounded := fun _ he => absurd he (List.not_mem_nil) }
    handles := List.nodup_nil
    owned := fun _ ht => absurd ht (List.not_mem_nil) }

/-- With fresh handles, the bookkeeping is right in exactly the runs that create no
set over one that is there. -/
theorem setsRight_iff
    {calls : List SwapCall} (hfresh : Run.Along step Fresh {} calls) :
    Run.Along step Right {} calls ↔ Run.Along step IdFree {} calls := by
  have hstep : ∀ (s : SwapTextureSets) (call : SwapCall), s.Ok →
      s.Fresh call ∧ s.IdFree call → (s.step call).2.Ok :=
    fun s call h hcall => h.step hcall.1 hcall.2
  have hright : ∀ (s : SwapTextureSets) (call : SwapCall), s.Ok →
      (s.Fresh call ∧ s.Right call ↔ s.Fresh call ∧ s.IdFree call) :=
    fun s call h => and_congr_right fun _ => right_iff h call
  have hall := Run.along_congr_of step hstep hright ok_empty calls
  rw [Run.along_and, Run.along_and] at hall
  simpa only [hfresh, true_and] using hall

/-- The device's answers for a set with the handles from `first` on. -/
def handlesFrom (first : Nat) (i : Nat) : Option UInt64 :=
  some (UInt64.ofNat (first + i))

/-- A set that both eyes show, until its process ends. -/
def sharedSet : List SwapCall :=
  [.create 1 (handlesFrom 1), .nextIndices (1, 2) (0, 0), .destroyAll 1]

theorem sharedSet_right :
    Run.Along step Right {} sharedSet := by
  refine (setsRight_iff ?_).mpr ?_
  · refine ⟨?_, (nofun), (nofun), trivial⟩
    rintro pid made created heq hmade
    obtain ⟨rfl, rfl⟩ := SwapCall.create.inj heq
    obtain rfl := Option.some.inj hmade
    decide
  · refine ⟨?_, (nofun), (nofun), trivial⟩
    rintro pid made - - ⟨t, ht, -⟩
    exact absurd ht List.not_mem_nil

/-- An attempt that fails at once. -/
def attempt : SwapCall :=
  .create 1 fun _ => none

theorem attempt_fresh
    (s : SwapTextureSets) :
    s.Fresh attempt := by
  intro pid made created heq hmade
  obtain ⟨rfl, rfl⟩ := SwapCall.create.inj heq
  exact absurd ((createTextures_spec hmade).2.1 0 (by decide)) (by simp)

/-- Failed attempts count the ids up. -/
theorem attempts
    (n : Nat) (s : SwapTextureSets) :
    Run.Along step Fresh s (List.replicate n attempt) ∧
      Run.final step s (List.replicate n attempt) =
        { s with nextSetId := s.nextSetId + UInt32.ofNat n } := by
  induction n generalizing s with
  | zero => exact ⟨trivial, by simp⟩
  | succ n ih =>
      obtain ⟨hfresh, hfinal⟩ := ih (s.step attempt).2
      rw [List.replicate_succ]
      refine ⟨⟨attempt_fresh s, hfresh⟩, ?_⟩
      rw [Run.final_cons, hfinal]
      have hnext : s.nextSetId + 1 + UInt32.ofNat n = s.nextSetId + UInt32.ofNat (n + 1) := by
        rw [UInt32.ofNat_add, UInt32.add_assoc, UInt32.add_comm 1]
        rfl
      simp [attempt, step, create, createTextures, kTexturesPerSet, List.range_succ, hnext]

/-- A set stays while the ids wrap around, and the next set gets its id. -/
def wrappedIds : List SwapCall :=
  .create 1 (handlesFrom 1) ::
    (List.replicate (2 ^ 32 - 1) attempt ++ [.create 1 (handlesFrom 4)])

theorem wrappedIds_wrong :
    Run.Along step Fresh {} wrappedIds ∧ ¬ Run.Along step Right {} wrappedIds := by
  have hfirst : Fresh {} (.create 1 (handlesFrom 1)) := by
    rintro pid made created heq hmade
    obtain ⟨rfl, rfl⟩ := SwapCall.create.inj heq
    obtain rfl := Option.some.inj hmade
    decide
  have hfree : IdFree {} (.create 1 (handlesFrom 1)) :=
    fun _ _ _ _ ⟨t, ht, _⟩ => absurd ht List.not_mem_nil
  have hok := ok_empty.step hfirst hfree
  obtain ⟨hfresh, hfinal⟩ := attempts (2 ^ 32 - 1) (step {} (.create 1 (handlesFrom 1))).2
  have hwrapped : (step {} (.create 1 (handlesFrom 1))).2.nextSetId +
      UInt32.ofNat (2 ^ 32 - 1) = 0 := by decide
  rw [hwrapped] at hfinal
  constructor
  · refine ⟨hfirst, (Run.along_append step _ _ _).mpr ⟨hfresh, ?_, trivial⟩⟩
    rw [hfinal]
    rintro pid made created heq hmade
    obtain ⟨rfl, rfl⟩ := SwapCall.create.inj heq
    obtain rfl := Option.some.inj hmade
    decide
  · rintro ⟨-, hright⟩
    obtain ⟨-, hlast, -⟩ := (Run.along_append step _ _ _).mp hright
    rw [hfinal, right_iff (hok.attempted 0)] at hlast
    refine hlast 1 (handlesFrom 4) rfl (fun i _ => rfl) ⟨⟨1, 1, 0⟩, ?_, rfl⟩
    decide

end SwapTextureSets

end Driver
end FocusVision
