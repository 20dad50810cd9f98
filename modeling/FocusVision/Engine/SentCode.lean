import FocusVision.Engine.FecLayout
import FocusVision.Engine.RsCode

/-!
# The code words of sent frames

`SentFrame` says of a code word that the crate can rebuild it.  The headset does not use
the crate, so it matters which code the words are from: data shards alone, or with the
parity of `rsMatrix`.
-/

namespace FocusVision
namespace Engine

open Bytes

variable {crate : RsCrate}

/-- `d` data shards alone, or with the parity of the encoding matrix. -/
def MatrixCoded (d : Nat) (shards : List Shard) : Prop :=
  d = shards.length ∨
    ∃ p, d + p ≤ RS_MAX_TOTAL_SHARDS ∧
      shards = codeWord d p (shards.take d) FEC_SHARD_SIZE

theorem MatrixCoded.le_length
    {d : Nat} {shards : List Shard} (h : MatrixCoded d shards) :
    d ≤ shards.length := by
  rcases h with rfl | ⟨p, -, hshards⟩
  · exact Nat.le_refl _
  · rw [hshards, length_codeWord]
    exact Nat.le_add_right d p

/-- All code words of the frame. -/
def SentFrame.AllCoded (sent : SentFrame crate) : Prop :=
  ∀ word ∈ sent.words, MatrixCoded word.dataCount word.shards

/-- What the encoder answers is a code word. -/
theorem FecEncoder.encode_matrixCoded
    (hcrate : crate.Vandermonde) {enc : FecEncoder crate} (henc : enc.CacheOk)
    {data shards : List Shard} (hlen : ∀ shard ∈ data, shard.length = FEC_SHARD_SIZE)
    (hok : (enc.encode data).1 = .ok shards) :
    MatrixCoded data.length shards := by
  unfold FecEncoder.encode at hok
  cases data with
  | nil => exact absurd hok (by simp)
  | cons first rest =>
      have hfirst := hlen first List.mem_cons_self
      have hrs := reuseRs_spec henc (first :: rest).length
        (parityFor enc.redundancy (first :: rest).length)
      simp only at hok
      split_ifs at hok with hequal
      generalize parityFor enc.redundancy (first :: rest).length = p at hok hrs
      generalize enc.reuseRs (first :: rest).length p = res at hok hrs
      cases res with
      | error e => exact absurd hok (by simp)
      | ok res =>
          obtain ⟨rs, enc'⟩ := res
          obtain ⟨hnew, -, -⟩ := hrs
          obtain ⟨-, -, hle⟩ := (hcrate.new_isOk _ _).mp ⟨rs, hnew⟩
          have hencode := hcrate.encode _ _ rs hnew (first :: rest) FEC_SHARD_SIZE rfl
            (by decide) hlen
          simp only [hfirst, hencode, Except.ok.injEq] at hok
          refine Or.inr ⟨p, hle, ?_⟩
          rw [← hok, take_codeWord hle hlen rfl]

/-- The code word that a batch carries. -/
def BatchMatrixCoded (batch : List Packet) : Prop :=
  MatrixCoded (dataShardCount batch) (batch.map payload)

theorem batchMatrixCoded_nil :
    BatchMatrixCoded [] :=
  Or.inl rfl

theorem shardsToPackets_matrixCoded
    {d : Nat} {shards : List Shard} (h : MatrixCoded d shards)
    (frameIndex timestamp : UInt32) (flags sequence : UInt16) :
    BatchMatrixCoded (shardsToPackets shards d frameIndex timestamp flags sequence).1 := by
  unfold shardsToPackets
  simp only
  split_ifs with hlong
  · exact batchMatrixCoded_nil
  · have hle := h.le_length
    have hmax : MAX_FRAME_SHARDS = 4096 := rfl
    cases shards with
    | nil => exact batchMatrixCoded_nil
    | cons first rest =>
        have hpayload := map_payload_shardsToPackets (Nat.not_lt.mp hlong) d frameIndex timestamp
          flags sequence
        unfold shardsToPackets at hpayload
        simp only [if_neg hlong] at hpayload
        have hcount : dataShardCount ((first :: rest).mapIdx fun i shard =>
            makePacket (i == (first :: rest).length - 1) (sequence + UInt16.ofNat i) timestamp
              { frameIndex
                shardIndex := UInt16.ofNat i
                shardCount := UInt16.ofNat (first :: rest).length
                flags
                dataShardCount := UInt16.ofNat d } shard) = d := by
          unfold dataShardCount
          rw [List.mapIdx_cons, List.head?_cons, Option.bind_some, readFvpHeader_makePacket]
          simp only [UInt16.toNat_ofNat']
          omega
        unfold BatchMatrixCoded
        rw [hcount, hpayload]
        exact h

theorem encodeSlices_matrixCoded
    (hcrate : crate.Vandermonde) (frameIndex timestamp : UInt32) (isKeyframe : Bool)
    (sliceCount : Nat) {sliceIdx : Nat} {slices : List (List UInt8)}
    {encoders : List (FecEncoder crate)} {sequence : UInt16} {batches : List (List Packet)}
    (hencoders : ∀ enc ∈ encoders, enc.CacheOk)
    (h : (encodeSlices frameIndex timestamp isKeyframe sliceCount sliceIdx slices encoders
      sequence).1 = some batches) :
    ∀ batch ∈ batches, BatchMatrixCoded batch := by
  induction slices generalizing sliceIdx encoders sequence batches with
  | nil =>
      simp only [encodeSlices, Option.some.injEq] at h
      subst h
      exact fun batch hbatch => absurd hbatch (by simp)
  | cons slice slices ih =>
      cases encoders with
      | nil =>
          simp only [encodeSlices, Option.some.injEq] at h
          subst h
          exact fun batch hbatch => absurd hbatch (by simp)
      | cons enc encoders =>
          have hok := @FecEncoder.encode_matrixCoded crate hcrate enc
            (hencoders enc List.mem_cons_self)
            (toDataShards (leBytes SLICE_LEN_PREFIX slice.length ++ slice))
          simp only [encodeSlices] at h
          generalize enc.encode
            (toDataShards (leBytes SLICE_LEN_PREFIX slice.length ++ slice)) = res at h hok
          obtain ⟨answer, enc'⟩ := res
          cases answer with
          | error e => exact absurd h (by simp)
          | ok shards =>
              have hcoded := hok (fun shard hshard => length_of_mem_toDataShards hshard) rfl
              simp only [Option.map_eq_some_iff] at h
              obtain ⟨later, hlater, rfl⟩ := h
              refine List.forall_mem_cons.mpr ⟨shardsToPackets_matrixCoded hcoded _ _ _ _, ?_⟩
              exact ih (fun enc henc => hencoders enc (List.mem_cons_of_mem _ henc)) hlater

/-- Every batch that the encoder returns carries a code word. -/
theorem FrameFecEncoder.encode_matrixCoded
    (hcrate : crate.Vandermonde) {enc : FrameFecEncoder crate} (henc : enc.Ok)
    (frameData : List UInt8) (frameIndex timestamp : UInt32) (isKeyframe : Bool)
    (sequence : UInt16) :
    ∀ batch ∈ (enc.encode frameData frameIndex timestamp isKeyframe sequence).1,
      BatchMatrixCoded batch := by
  have hplain : ∀ flags, BatchMatrixCoded (shardsToPackets (toDataShards frameData)
      (toDataShards frameData).length frameIndex timestamp flags sequence).1 :=
    fun flags => shardsToPackets_matrixCoded (Or.inl rfl) _ _ _ _
  have hsingle : ∀ packets : List Packet, BatchMatrixCoded packets →
      ∀ batch ∈ (if packets.isEmpty then [] else [packets]), BatchMatrixCoded batch := by
    intro packets hpackets batch hbatch
    split_ifs at hbatch
    · exact absurd hbatch (by simp)
    · rw [List.mem_singleton.mp hbatch]
      exact hpackets
  unfold FrameFecEncoder.encode
  cases enc.layout frameData with
  | unprotected => exact hsingle _ (hplain _)
  | bulk =>
      refine hsingle _ ?_
      unfold encodeFrameToPacketsWithFec
      simp only
      split_ifs
      · exact batchMatrixCoded_nil
      · have hok := @FecEncoder.encode_matrixCoded crate hcrate enc.bulk henc.bulk
          (toDataShards frameData)
        generalize enc.bulk.encode (toDataShards frameData) = res at hok ⊢
        obtain ⟨answer, bulk⟩ := res
        cases answer with
        | error e => exact hplain _
        | ok shards =>
            exact shardsToPackets_matrixCoded
              (hok (fun shard hshard => length_of_mem_toDataShards hshard) rfl) _ _ _ _
  | sliced n =>
      unfold encodeFrameSliced
      simp only
      split_ifs
      · exact fun batch hbatch => absurd hbatch (by simp)
      · exact fun batch hbatch => absurd hbatch (by simp)
      · have hslices := @encodeSlices_matrixCoded crate hcrate frameIndex timestamp isKeyframe
          (min (min n MAX_SLICE_COUNT) (min frameData.length 255)) 0
          (split frameData (min (min n MAX_SLICE_COUNT) (min frameData.length 255))) enc.slices
          sequence
        generalize encodeSlices frameIndex timestamp isKeyframe _ 0 _ enc.slices sequence = res
          at hslices ⊢
        obtain ⟨answer, encoders, sequence'⟩ := res
        cases answer with
        | none => exact fun batch hbatch => absurd hbatch (by simp)
        | some batches => exact hslices (fun enc henc' => (henc.slices enc henc').1) rfl

/-- A frame whose packets carry code words consists of them. -/
theorem SentFrame.SentAs.allCoded
    {sent : SentFrame crate} {batches : List (List Packet)} (h : sent.SentAs batches)
    (hbatches : ∀ batch ∈ batches, BatchMatrixCoded batch) :
    sent.AllCoded := by
  intro word hmem
  obtain ⟨g, hword⟩ := List.mem_iff_getElem?.mp hmem
  have hlt : g < batches.length := by
    rw [h.length]
    exact (List.getElem?_eq_some_iff.mp hword).1
  have hbatch := List.getElem?_eq_getElem hlt
  have hsent := h.batch g word _ hword hbatch
  have hshards : batches[g].map payload = word.shards := by
    refine List.ext_getElem (by rw [List.length_map, hsent.length]) fun i hi hi' => ?_
    rw [List.length_map] at hi
    obtain ⟨-, hshard⟩ := hsent.packet i _ (List.getElem?_eq_getElem hi)
    rw [List.getElem_map]
    exact (List.getElem?_eq_some_iff.mp hshard).2.symm
  have hcoded := hbatches _ (List.getElem_mem hlt)
  unfold BatchMatrixCoded at hcoded
  rwa [h.dataShardCount_eq hword hbatch, hshards] at hcoded

end Engine
end FocusVision
