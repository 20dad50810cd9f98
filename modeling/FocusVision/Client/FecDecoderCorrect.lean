import FocusVision.Client.FecDecoderState

/-!
# Correctness of the client's Reed-Solomon decoder

A decoder object is used for many frames.  Whatever calls it has seen, after
`beginFrame` with counts that fit one code word it delivers a frame of
Reed-Solomon shards exactly once: at the first `tryDecode` that comes after as
many distinct shards as there are data shards.
-/

namespace FocusVision
namespace Client

open Gf GaussJordan

/-- A call on a decoder object, with any arguments. -/
inductive DecoderCall
  | beginFrame (frameIndex : UInt32) (totalShards dataShards : Nat) (isKeyframe : Bool)
  | addShard (shardIndex : Nat) (data : List UInt8)
  | tryDecode

namespace FecFrameDecoder

/-- The effect of a call; only `tryDecode` can return a frame. -/
def call (d : FecFrameDecoder) : DecoderCall → Option DecodedFrame × FecFrameDecoder
  | .beginFrame frameIndex totalShards dataShards isKeyframe =>
      (none, (d.beginFrame frameIndex totalShards dataShards isKeyframe).2)
  | .addShard shardIndex data => (none, d.addShard shardIndex data)
  | .tryDecode => d.tryDecode

theorem call_wellFormed
    {d : FecFrameDecoder} (hd : d.WellFormed) (c : DecoderCall) :
    (d.call c).2.WellFormed := by
  cases c with
  | beginFrame frameIndex totalShards dataShards isKeyframe =>
      exact beginFrame_wellFormed d _ _ _ _ hd
  | addShard shardIndex data => exact addShard_wellFormed hd _ _
  | tryDecode => exact tryDecode_wellFormed hd

/-- Every decoder object is well formed, whatever was done with it. -/
theorem final_wellFormed
    (calls : List DecoderCall) :
    (Run.final call {} calls).WellFormed := by
  have hstep : ∀ d c, WellFormed d → WellFormed (call d c).2 :=
    fun _ c h => call_wellFormed h c
  exact Run.final_invariant call hstep wellFormed_init calls

end FecFrameDecoder

/-- What happens to a frame after `beginFrame`: one of its shards arrives, or
the client tries to decode. -/
inductive FrameCall (total : Nat)
  | shard (i : Fin total)
  | decode

/-- Shard `i` of a frame: data shard `i`, or the parity of row `i`. -/
noncomputable def encodedShard {total n : Nat} (h : n ≤ total)
    (data : List (List UInt8)) (len : Nat) (i : Fin total) : List UInt8 :=
  if i.val < n then data.getD i.val [] else codeShard h data len i

/-- A `FrameCall` as a call on the decoder. -/
noncomputable def FrameCall.toCall {total n : Nat} (h : n ≤ total)
    (data : List (List UInt8)) (len : Nat) : FrameCall total → DecoderCall
  | .shard i => .addShard i.val (encodedShard h data len i)
  | .decode => .tryDecode

/-- The distinct shards that arrived. -/
def arrived {total : Nat} (got : Finset (Fin total)) :
    List (FrameCall total) → Finset (Fin total)
  | [] => got
  | .shard i :: calls => arrived (insert i got) calls
  | .decode :: calls => arrived got calls

/-- Was `tryDecode` called when at least `n` distinct shards had arrived? -/
def decodable {total : Nat} (n : Nat) (got : Finset (Fin total)) :
    List (FrameCall total) → Bool
  | [] => false
  | .shard i :: calls => decodable n (insert i got) calls
  | .decode :: calls => decide (n ≤ got.card) || decodable n got calls

section Frame

variable {total n : Nat} {hn : n ≤ total} {data : List (List UInt8)} {len : Nat}
  {frameIndex : UInt32} {isKeyframe : Bool}

/-- A decoder in the middle of a frame, from which the shards `got` arrived. -/
structure Collecting (hn : n ≤ total) (data : List (List UInt8)) (len : Nat)
    (frameIndex : UInt32) (isKeyframe : Bool) (got : Finset (Fin total))
    (d : FecFrameDecoder) : Prop where
  wellFormed : d.WellFormed
  active : d.m_active = true
  waiting : d.m_delivered = false
  frame_eq : d.m_frameIndex = frameIndex
  total_eq : d.m_totalShards = total
  data_eq : d.m_dataShards = n
  key_eq : d.m_isKeyframe = isKeyframe
  received_iff : ∀ i : Fin total, d.received i.val = true ↔ i ∈ got
  shard_eq : ∀ i : Fin total, i ∈ got → d.shard i.val = codeShard hn data len i

/-- The frame was delivered. -/
structure Delivered (d : FecFrameDecoder) (n : Nat) : Prop where
  wellFormed : d.WellFormed
  active : d.m_active = true
  delivered : d.m_delivered = true
  data_eq : d.m_dataShards = n
  complete : n ≤ d.m_receivedCount

theorem encodedShard_eq
    (ht : total ≤ 256) (hdata : data.length = n)
    (hlen : ∀ s ∈ data, s.length = len) (i : Fin total) :
    encodedShard hn data len i = codeShard hn data len i := by
  unfold encodedShard
  split_ifs with hi
  · exact (codeShard_data hn data len ht hlen hdata ⟨i.val, hi⟩).symm
  · rfl

theorem Collecting.count
    {got : Finset (Fin total)} {d : FecFrameDecoder}
    (hd : Collecting hn data len frameIndex isKeyframe got d) :
    d.m_receivedCount = got.card := by
  rw [hd.wellFormed.count]
  have hset : d.receivedSet = got.map Fin.valEmbedding := by
    ext i
    rw [FecFrameDecoder.mem_receivedSet hd.wellFormed.length]
    simp only [Finset.mem_map, Fin.valEmbedding_apply]
    constructor
    · intro hi
      have hlt : i < total := by
        have := (FecFrameDecoder.mem_receivedSet hd.wellFormed.length).mpr hi
        rw [← hd.total_eq]
        exact Finset.mem_range.mp (Finset.mem_filter.mp this).1
      exact ⟨⟨i, hlt⟩, (hd.received_iff ⟨i, hlt⟩).mp hi, rfl⟩
    · rintro ⟨j, hj, rfl⟩
      exact (hd.received_iff j).mpr hj
  rw [hset, Finset.card_map]

/-- The shard size of a frame in progress, once a shard is here. -/
theorem Collecting.shardSize_eq
    {got : Finset (Fin total)} {d : FecFrameDecoder}
    (hd : Collecting hn data len frameIndex isKeyframe got d)
    {i : Fin total} (hi : i ∈ got) :
    d.m_shardSize = len := by
  rw [← hd.wellFormed.size i.val ((hd.received_iff i).mpr hi), hd.shard_eq i hi,
    codeShard_length]

theorem Collecting.inCodeWord
    {got : Finset (Fin total)} {d : FecFrameDecoder}
    (hd : Collecting hn data len frameIndex isKeyframe got d)
    (ht : total ≤ 256) (hdata : data.length = n)
    (hlen : ∀ s ∈ data, s.length = len) (hgot : got.Nonempty) :
    d.InCodeWord data := by
  obtain ⟨i, hi⟩ := hgot
  have hsize := hd.shardSize_eq hi
  obtain rfl := hd.total_eq
  obtain rfl := hd.data_eq
  exact
    { total_le := ht
      data_le := hn
      data_length := hdata
      data_size := by rw [hsize]; exact hlen
      shard_eq := by
        intro j hj
        rw [hsize]
        exact hd.shard_eq j ((hd.received_iff j).mp hj) }

/-- A shard of the frame arrives. -/
theorem Collecting.addShard
    {got : Finset (Fin total)} {d : FecFrameDecoder}
    (hd : Collecting hn data len frameIndex isKeyframe got d)
    (ht : total ≤ 256) (hdata : data.length = n)
    (hlen : ∀ s ∈ data, s.length = len) (hpos : 0 < len) (i : Fin total) :
    Collecting hn data len frameIndex isKeyframe (insert i got)
      (d.addShard i.val (encodedShard hn data len i)) := by
  have hw := FecFrameDecoder.addShard_wellFormed hd.wellFormed i.val
    (encodedShard hn data len i)
  rw [encodedShard_eq ht hdata hlen] at hw ⊢
  by_cases hi : i ∈ got
  · -- a duplicate
    have hrec := (hd.received_iff i).mpr hi
    rcases FecFrameDecoder.addShard_cases d i.val (codeShard hn data len i) with
      ⟨hacc, -⟩ | ⟨-, heq⟩
    · rw [hacc.fresh] at hrec
      exact absurd hrec (by decide)
    · rw [heq, Finset.insert_eq_of_mem hi]
      exact hd
  · have hfresh : d.received i.val = false := by
      rw [Bool.eq_false_iff]
      exact fun h => hi ((hd.received_iff i).mp h)
    have hacc : d.Accepts i.val (codeShard hn data len i) :=
      { active := hd.active
        waiting := hd.waiting
        nonempty := by rw [codeShard_length]; exact hpos
        index := by rw [hd.total_eq]; exact i.isLt
        fresh := hfresh
        size := by
          rw [codeShard_length]
          rcases Finset.eq_empty_or_nonempty got with rfl | ⟨j, hj⟩
          · exact Or.inl (hd.wellFormed.size_zero (by simp [hd.count]))
          · exact Or.inr (hd.shardSize_eq hj).symm }
    rcases FecFrameDecoder.addShard_cases d i.val (codeShard hn data len i) with
      ⟨-, heq⟩ | ⟨hno, -⟩
    · rw [heq] at hw ⊢
      exact
        { wellFormed := hw
          active := hd.active
          waiting := hd.waiting
          frame_eq := hd.frame_eq
          total_eq := hd.total_eq
          data_eq := hd.data_eq
          key_eq := hd.key_eq
          received_iff := by
            intro j
            rw [FecFrameDecoder.received_set hd.wellFormed.length hacc.index]
            simp [hd.received_iff, Fin.ext_iff]
          shard_eq := by
            intro j hj
            rw [FecFrameDecoder.shard_set hd.wellFormed.length hacc.index]
            by_cases hji : j = i
            · rw [if_pos (Fin.ext_iff.mp hji), hji]
            · rw [if_neg fun h => hji (Fin.ext h)]
              exact hd.shard_eq j (Finset.mem_of_mem_insert_of_ne hj hji) }
    · exact absurd hacc hno

theorem Delivered.addShard
    {d : FecFrameDecoder} (hd : Delivered d n) (i : Nat) (s : List UInt8) :
    d.addShard i s = d := by
  unfold FecFrameDecoder.addShard
  rw [if_pos (by simp [hd.delivered])]

/-- After delivery nothing changes any more. -/
theorem Delivered.run
    {d : FecFrameDecoder} (hd : Delivered d n)
    (hn : n ≤ total) (data : List (List UInt8)) (len : Nat) :
    ∀ calls : List (FrameCall total),
      Run.final FecFrameDecoder.call d (calls.map (FrameCall.toCall hn data len)) = d ∧
      Run.emitted FecFrameDecoder.call d
        (calls.map (FrameCall.toCall hn data len)) = []
  | [] => ⟨rfl, rfl⟩
  | .shard i :: calls => by
      have ih := Delivered.run hd hn data len calls
      simp only [List.map_cons, FrameCall.toCall, Run.final_cons, Run.emitted_cons,
        FecFrameDecoder.call, hd.addShard,
        Option.toList_none, List.nil_append]
      exact ih
  | .decode :: calls => by
      have ih := Delivered.run hd hn data len calls
      simp only [List.map_cons, FrameCall.toCall, Run.final_cons, Run.emitted_cons,
        FecFrameDecoder.call, FecFrameDecoder.tryDecode_eq_none_of_delivered hd.delivered,
        Option.toList_none, List.nil_append]
      exact ih

theorem card_le_arrived :
    ∀ (calls : List (FrameCall total)) (got : Finset (Fin total)),
      got ⊆ arrived got calls
  | [], _ => Finset.Subset.refl _
  | .shard i :: calls, got =>
      (Finset.subset_insert i got).trans (card_le_arrived calls _)
  | .decode :: calls, got => card_le_arrived calls got

/-- The calls of a frame, from any point before its delivery: either the frame
is still collected, or it came out exactly once. -/
theorem Collecting.run
    (ht : total ≤ 256) (hdata : data.length = n) (hn0 : 0 < n)
    (hlen : ∀ s ∈ data, s.length = len) (hpos : 0 < len) :
    ∀ (calls : List (FrameCall total)) (got : Finset (Fin total))
      (d : FecFrameDecoder),
      Collecting hn data len frameIndex isKeyframe got d →
      (decodable n got calls = false ∧
        Collecting hn data len frameIndex isKeyframe (arrived got calls)
          (Run.final FecFrameDecoder.call d
            (calls.map (FrameCall.toCall hn data len))) ∧
        Run.emitted FecFrameDecoder.call d
          (calls.map (FrameCall.toCall hn data len)) = []) ∨
      (decodable n got calls = true ∧
        Delivered (Run.final FecFrameDecoder.call d
          (calls.map (FrameCall.toCall hn data len))) n ∧
        Run.emitted FecFrameDecoder.call d
          (calls.map (FrameCall.toCall hn data len)) =
            [⟨frameIndex, data.flatten, isKeyframe⟩])
  | [], _, _, hd => Or.inl ⟨rfl, hd, rfl⟩
  | .shard i :: calls, got, d, hd => by
      have ih := Collecting.run ht hdata hn0 hlen hpos calls (insert i got) _
        (hd.addShard ht hdata hlen hpos i)
      simpa only [List.map_cons, FrameCall.toCall, Run.final_cons, Run.emitted_cons,
        FecFrameDecoder.call, Option.toList_none, List.nil_append, decodable, arrived] using ih
  | .decode :: calls, got, d, hd => by
      by_cases hcount : n ≤ got.card
      · -- the first `tryDecode` with enough shards
        have hgot : got.Nonempty := Finset.card_pos.mp (by omega)
        obtain ⟨c, hc, heq⟩ := FecFrameDecoder.tryDecode_eq_some hd.wellFormed
          (hd.inCodeWord ht hdata hlen hgot) hd.active hd.waiting
          (by rw [hd.count, hd.data_eq]; exact hcount)
        have hdel : Delivered { d with m_encodingCache := c, m_delivered := true } n :=
          { wellFormed := FecFrameDecoder.wellFormed_of_cache hd.wellFormed hc true
            active := hd.active
            delivered := rfl
            data_eq := hd.data_eq
            complete := by
              show n ≤ d.m_receivedCount
              rw [hd.count]
              exact hcount }
        obtain ⟨hfin, hout⟩ := hdel.run hn data len calls
        refine Or.inr ⟨by simp [decodable, hcount], ?_, ?_⟩
        · simp only [List.map_cons, FrameCall.toCall, Run.final_cons,
            FecFrameDecoder.call, heq, hfin]
          exact hdel
        · simp only [List.map_cons, FrameCall.toCall, Run.emitted_cons,
            FecFrameDecoder.call, heq]
          rw [hout, hd.frame_eq, hd.key_eq]
          rfl
      · have hnone := FecFrameDecoder.tryDecode_eq_none_of_lt (d := d)
          (by rw [hd.count, hd.data_eq]; omega)
        have ih := Collecting.run ht hdata hn0 hlen hpos calls got d hd
        simpa only [List.map_cons, FrameCall.toCall, Run.final_cons, Run.emitted_cons,
          FecFrameDecoder.call, hnone, Option.toList_none, List.nil_append, decodable, arrived,
          hcount, decide_false, Bool.false_or] using ih

theorem decodable_arrived :
    ∀ (calls : List (FrameCall total)) (got : Finset (Fin total)),
      decodable n got calls = true → n ≤ (arrived got calls).card
  | .shard i :: calls, got, h => decodable_arrived calls _ h
  | .decode :: calls, got, h => by
      rcases Bool.or_eq_true_iff.mp h with h | h
      · exact (of_decide_eq_true h).trans
          (Finset.card_le_card (card_le_arrived calls got))
      · exact decodable_arrived calls got h

/-- `beginFrame` makes any decoder object ready for the frame. -/
theorem beginFrame_collecting
    (frameIndex : UInt32) (isKeyframe : Bool)
    (data : List (List UInt8)) (len : Nat)
    (d : FecFrameDecoder) (hd : d.WellFormed)
    (hn0 : 0 < n) (hn : n ≤ total) (ht : total ≤ 256) :
    (d.beginFrame frameIndex total n isKeyframe).1 = true ∧
      Collecting hn data len frameIndex isKeyframe ∅
        (d.beginFrame frameIndex total n isKeyframe).2 := by
  have hok : FecFrameDecoder.CountsOk total n :=
    ⟨hn0, hn, by unfold MAX_TOTAL_SHARDS; omega⟩
  have hw := FecFrameDecoder.beginFrame_wellFormed d frameIndex total n isKeyframe hd
  rw [FecFrameDecoder.beginFrame_of_countsOk d _ _ _ _ hok] at hw ⊢
  refine ⟨rfl, ?_⟩
  exact
    { wellFormed := hw
      active := rfl
      waiting := rfl
      frame_eq := rfl
      total_eq := rfl
      data_eq := rfl
      key_eq := rfl
      received_iff := fun i => by
        rw [FecFrameDecoder.received_replicate _ rfl]
        simp
      shard_eq := fun i hi => absurd hi (by simp) }

end Frame

/-- **The client's Reed-Solomon decoder.**  Whatever calls a decoder object has
seen, a frame of `n` data shards and its parity shards, with any sequence of
shard arrivals and decoding attempts:

* is complete once `n` distinct shards arrived;
* comes out exactly once, as the data shards concatenated, if a decoding attempt
  was made after that, and not at all otherwise;
* never finds a singular matrix, neither `V_top` nor the selected rows. -/
theorem fecFrameDecoder_correct
    (before : List DecoderCall) (frameIndex : UInt32) (isKeyframe : Bool)
    {total n : Nat} (hn0 : 1 ≤ n) (hn : n ≤ total) (ht : total ≤ 256)
    (data : List (List UInt8)) (hdata : data.length = n)
    {len : Nat} (hpos : 0 < len) (hlen : ∀ s ∈ data, s.length = len)
    (calls : List (FrameCall total)) :
    let begun := (Run.final FecFrameDecoder.call {} before).beginFrame
      frameIndex total n isKeyframe
    let d := Run.final FecFrameDecoder.call begun.2
      (calls.map (FrameCall.toCall hn data len))
    begun.1 = true ∧
    (n ≤ (arrived ∅ calls).card → d.isComplete = true) ∧
    Run.emitted FecFrameDecoder.call begun.2
        (calls.map (FrameCall.toCall hn data len)) =
      (if decodable n ∅ calls then [⟨frameIndex, data.flatten, isKeyframe⟩] else []) ∧
    (buildEncodingMatrix total n).isSome = true ∧
    (n ≤ (arrived ∅ calls).card → decodable n ∅ calls = false →
      d.ensureEncodingMatrix.m_encodingCache.valid = true ∧
      (invert d.ensureEncodingMatrix.selectedRows).isSome = true) := by
  intro begun d
  obtain ⟨hbegun, hcol⟩ := beginFrame_collecting frameIndex isKeyframe data len _
    (FecFrameDecoder.final_wellFormed before) hn0 hn ht
  obtain ⟨E, hE, -⟩ := buildEncodingMatrix_eq hn ht
  have hrun := Collecting.run ht hdata hn0 hlen hpos calls ∅ begun.2 hcol
  refine ⟨hbegun, ?_, ?_, by rw [hE]; rfl, ?_⟩
  · intro hcard
    rcases hrun with ⟨-, hd, -⟩ | ⟨-, hd, -⟩
    · have hc := hd.count
      have ha := hd.active
      have he := hd.data_eq
      simp only [FecFrameDecoder.isComplete, Bool.and_eq_true, decide_eq_true_eq]
      exact ⟨ha, by rw [hc, he]; exact hcard⟩
    · simp only [FecFrameDecoder.isComplete, Bool.and_eq_true, decide_eq_true_eq]
      exact ⟨hd.active, by rw [hd.data_eq]; exact hd.complete⟩
  · rcases hrun with ⟨hdec, -, hout⟩ | ⟨hdec, -, hout⟩
    · rw [hout, hdec]
      rfl
    · rw [hout, hdec]
      rfl
  · intro hcard hdec
    rcases hrun with ⟨-, hd, -⟩ | ⟨hdec', -, -⟩
    · have hcount : d.m_dataShards ≤ d.receivedSet.card := by
        rw [← hd.wellFormed.count, hd.count, hd.data_eq]
        exact hcard
      have hle : d.m_dataShards ≤ d.m_totalShards := by
        rw [hd.data_eq, hd.total_eq]
        exact hn
      have htot : d.m_totalShards ≤ 256 := by
        rw [hd.total_eq]
        exact ht
      obtain ⟨c, hens, -, hvalid, hentry⟩ :=
        FecFrameDecoder.ensureEncodingMatrix_spec hd.wellFormed
          (by rw [hd.data_eq]; exact hn0) hle htot
      rw [hens]
      obtain ⟨sel, hinj, hsel⟩ := FecFrameDecoder.exists_selection hcount
      obtain ⟨aug, haug, -⟩ :=
        FecFrameDecoder.invert_selectedRows
          (d := { d with m_encodingCache := c }) htot hentry hinj
          (fun k => (hsel k).1)
      exact ⟨hvalid, by rw [haug]; rfl⟩
    · rw [hdec] at hdec'
      exact absurd hdec' (by decide)

/-- A decoder with half of another frame; then one data shard and one parity shard of two. -/
theorem fecFrameDecoder_correct_mixed :
    let before : List DecoderCall :=
      [.beginFrame 4 3 2 false, .addShard 0 [1, 2], .tryDecode]
    let calls : List (FrameCall 4) := [.shard 3, .decode, .shard 3, .shard 1, .decode, .decode]
    decodable 2 ∅ calls = true ∧
      Run.emitted FecFrameDecoder.call
        ((Run.final FecFrameDecoder.call {} before).beginFrame 5 4 2 true).2
        (calls.map (FrameCall.toCall (by decide : 2 ≤ 4) [[7, 1], [9, 3]] 2)) =
        [⟨5, [7, 1, 9, 3], true⟩] := by
  intro before calls
  have h := fecFrameDecoder_correct before 5 true (by decide : 1 ≤ 2)
    (by decide : 2 ≤ 4) (by decide) [[7, 1], [9, 3]] rfl (by decide : 0 < 2) (by decide) calls
  exact ⟨by decide, h.2.2.1⟩

end Client
end FocusVision
