import FocusVision.Engine.Resampler
import FocusVision.Lib.Bytes

/-!
# The resampler does not see the chunks

Output `n` is the weighted sum around input position `n · in / out`, which depends
on the input so far and not on how it was cut into calls.  The resampler's index and
fraction are that position, counted from the oldest frame it still holds.
-/

namespace FocusVision
namespace Engine

open Slices
open Bytes (ceilDiv ceilDiv_le_iff)

/-- What a resampler computes with: its rates and its kernel. -/
structure Kernel where
  inRate : SampleRate
  outRate : SampleRate
  halfTaps : Nat
  table : List F32

namespace Kernel

variable (k : Kernel)

/-- The input frame that output `n` sits at or just behind. -/
def position (n : Nat) : Nat :=
  n * k.inRate.hz.toNat / k.outRate.hz.toNat

/-- How far behind it, in units of `1 / out_rate`. -/
def fraction (n : Nat) : Nat :=
  n * k.inRate.hz.toNat % k.outRate.hz.toNat

/-- The input behind the silence before it. -/
def padded (input : List StereoFrame) : List StereoFrame :=
  List.replicate (k.halfTaps - 1) silence ++ input

/-- The frames under the kernel of output `n`. -/
def window (input : List StereoFrame) (n : Nat) : List StereoFrame :=
  ((k.padded input).drop (k.position n)).take (2 * k.halfTaps)

/-- A row of the table. -/
def row (p : Nat) : List F32 :=
  (k.table.drop (p * (2 * k.halfTaps))).take (2 * k.halfTaps)

/-- Output `n`; `phaseRow`, `phase` and `weigh` are the code's interpolation between two rows. -/
def outputAt (input : List StereoFrame) (n : Nat) : StereoFrame :=
  let p := phaseRow k.outRate (k.fraction n)
  weigh (Flt.sub (phase k.outRate (k.fraction n)) (Flt.ofNat p)) (k.row p) (k.row (p + 1))
    (k.window input n)

/-- How many outputs reach no further than an input of some length. -/
def due (length : Nat) : Nat :=
  ceilDiv ((length - k.halfTaps) * k.outRate.hz.toNat) k.inRate.hz.toNat

/-- All outputs for an input, left before right. -/
def resampled (input : List StereoFrame) : List F32 :=
  if k.inRate.hz = k.outRate.hz then input.flatMap fun frame => [frame.1, frame.2]
  else
    (List.range (k.due input.length)).flatMap fun n =>
      [(k.outputAt input n).1, (k.outputAt input n).2]

/-- The table has a row for every phase, and the kernel a frame on each side. -/
structure Complete : Prop where
  halfTaps_pos : 1 ≤ k.halfTaps
  table_length : k.table.length = (PHASES + 1) * (2 * k.halfTaps)

variable {k}

theorem resampled_same
    (hrates : k.inRate.hz = k.outRate.hz) (input : List StereoFrame) :
    k.resampled input = input.flatMap interleaved :=
  if_pos hrates

theorem resampled_other
    (hrates : k.inRate.hz ≠ k.outRate.hz) (input : List StereoFrame) :
    k.resampled input =
      (List.range (k.due input.length)).flatMap fun n => interleaved (k.outputAt input n) :=
  if_neg hrates

/-- Two samples for each frame that comes out. -/
theorem resampled_length
    (input : List StereoFrame) :
    (k.resampled input).length =
      2 * if k.inRate.hz = k.outRate.hz then input.length else k.due input.length := by
  unfold resampled
  split_ifs
  · simp [List.length_flatMap, Nat.mul_comm]
  · simp [List.length_flatMap, Nat.mul_comm]

theorem position_succ
    (n : Nat) :
    k.position (n + 1) =
      k.position n + (k.fraction n + k.inRate.hz.toNat) / k.outRate.hz.toNat := by
  have hdiv := Nat.div_add_mod (n * k.inRate.hz.toNat) k.outRate.hz.toNat
  have hsum : (n + 1) * k.inRate.hz.toNat =
      k.fraction n + k.inRate.hz.toNat + k.outRate.hz.toNat * k.position n := by
    rw [Nat.add_mul, Nat.one_mul]
    unfold fraction position
    omega
  rw [position, hsum, Nat.add_mul_div_left _ _ k.outRate.pos, Nat.add_comm]

theorem fraction_succ
    (n : Nat) :
    k.fraction (n + 1) = (k.fraction n + k.inRate.hz.toNat) % k.outRate.hz.toNat := by
  rw [fraction, fraction, Nat.add_mul, Nat.one_mul, Nat.mod_add_mod]

/-- An output is due once the input reaches past its kernel. -/
theorem lt_due_iff
    {n length : Nat} :
    n < k.due length ↔ k.position n + k.halfTaps < length := by
  have hdue : n < k.due length ↔
      n * k.inRate.hz.toNat < (length - k.halfTaps) * k.outRate.hz.toNat := by
    rw [← Nat.not_le, ← Nat.not_le]
    exact not_congr (ceilDiv_le_iff k.inRate.pos)
  rw [hdue, ← Nat.div_lt_iff_lt_mul k.outRate.pos]
  unfold position
  generalize n * k.inRate.hz.toNat / k.outRate.hz.toNat = position
  omega

/-- More input changes no output that is due. -/
theorem outputAt_append
    {input : List StereoFrame} {n : Nat} (hn : n < k.due input.length)
    (hpos : 1 ≤ k.halfTaps) (more : List StereoFrame) :
    k.outputAt (input ++ more) n = k.outputAt input n := by
  have hreach := lt_due_iff.mp hn
  have hwindow : k.window (input ++ more) n = k.window input n := by
    have hlength : (k.padded input).length = k.halfTaps - 1 + input.length := by
      simp [padded]
    have hpadded : k.padded (input ++ more) = k.padded input ++ more := by
      simp [padded]
    unfold window
    rw [hpadded, List.drop_append_of_le_length (by omega), List.take_append_of_le_length]
    rw [List.length_drop]
    omega
  simp only [outputAt, hwindow]

theorem due_mono
    {l m : Nat} (h : l ≤ m) :
    k.due l ≤ k.due m := by
  by_contra hless
  have hlast := lt_due_iff.mp (Nat.not_le.mp hless)
  have hnot : ¬ k.due m < k.due m := Nat.lt_irrefl _
  rw [lt_due_iff] at hnot
  omega

/-- The outputs that were due before come first, and are what they were. -/
theorem resampled_append
    (hrates : k.inRate.hz ≠ k.outRate.hz) (hpos : 1 ≤ k.halfTaps)
    (input more : List StereoFrame) :
    k.resampled (input ++ more) =
      k.resampled input ++
        (List.range' (k.due input.length)
          (k.due (input ++ more).length - k.due input.length)).flatMap
            fun m => interleaved (k.outputAt (input ++ more) m) := by
  have hgrows : k.due input.length ≤ k.due (input ++ more).length :=
    due_mono (by rw [List.length_append]; exact Nat.le_add_right _ _)
  have hrange : List.range (k.due (input ++ more).length) =
      List.range (k.due input.length) ++ List.range' (k.due input.length)
        (k.due (input ++ more).length - k.due input.length) := by
    have hsplit := @List.range'_append_1 0 (k.due input.length)
      (k.due (input ++ more).length - k.due input.length)
    rw [Nat.zero_add, Nat.add_sub_cancel' hgrows] at hsplit
    rw [List.range_eq_range', List.range_eq_range', hsplit]
  have hsame : (List.range (k.due input.length)).flatMap
        (fun m => interleaved (k.outputAt (input ++ more) m)) =
      (List.range (k.due input.length)).flatMap
        fun m => interleaved (k.outputAt input m) := by
    refine List.flatMap_congr fun m hm => ?_
    rw [outputAt_append (List.mem_range.mp hm) hpos]
  rw [resampled_other hrates, resampled_other hrates, hrange, List.flatMap_append, hsame]

theorem due_zero :
    k.due 0 = 0 := by
  have hnone : ¬ 0 < k.due 0 := by
    rw [lt_due_iff]
    exact Nat.not_lt_zero _
  exact Nat.eq_zero_of_not_pos hnone

end Kernel

namespace Resampler

/-- What a resampler computes with. -/
def kernel (r : Resampler) : Kernel :=
  { inRate := r.inRate
    outRate := r.outRate
    halfTaps := r.halfTaps
    table := r.table }

/-- After some input, `n` outputs were emitted: the next one's position is the
index, counted from the first frame that is still held, and no frame was dropped
that it reaches. -/
structure Reached (k : Kernel) (input : List StereoFrame) (n : Nat) (r : Resampler) :
    Prop where
  kernel : r.kernel = k
  complete : k.Complete
  held : ∃ dropped, k.padded input = dropped ++ r.history ∧
    dropped.length + r.index = k.halfTaps - 1 + k.position n ∧
    dropped.length ≤ k.position n
  frac : r.frac = k.fraction n

variable {k : Kernel} {input : List StereoFrame} {n : Nat} {r : Resampler}

/-- The loop goes on exactly while an output is due. -/
theorem Reached.going_on
    (h : Reached k input n r) :
    r.index + r.halfTaps < r.history.length ↔ n < k.due input.length := by
  obtain ⟨dropped, hheld, hindex, -⟩ := h.held
  have hhalf : r.halfTaps = k.halfTaps := congrArg Kernel.halfTaps h.kernel
  have hpos := h.complete.halfTaps_pos
  have hlength := congrArg List.length hheld
  simp only [Kernel.padded, List.length_append, List.length_replicate] at hlength
  rw [Kernel.lt_due_iff]
  omega

/-- The next output is output `n`, and none of its slices is out of range. -/
theorem Reached.sample_eq
    (h : Reached k input n r) (hn : n < k.due input.length) :
    r.sample = some (k.outputAt input n) := by
  obtain ⟨dropped, hheld, hindex, hdropped⟩ := h.held
  have hgoing := h.going_on.mpr hn
  have hcomplete := h.complete
  obtain rfl := h.kernel
  have hpos : 1 ≤ r.halfTaps := hcomplete.halfTaps_pos
  have htable : r.table.length = (PHASES + 1) * (2 * r.halfTaps) := hcomplete.table_length
  have hindex : dropped.length + r.index = r.halfTaps - 1 + r.kernel.position n := hindex
  have hrow : phaseRow r.outRate (r.kernel.fraction n) + 2 ≤ PHASES + 1 :=
    Nat.add_le_add_right (Nat.min_le_right _ _) 2
  have hreach : r.index + 1 - r.halfTaps + dropped.length = r.kernel.position n := by omega
  have hframes : slice r.history (r.index + 1 - r.halfTaps) (r.index + 1 + r.halfTaps) =
      some (r.kernel.window input n) := by
    have hend : r.index + 1 + r.halfTaps + dropped.length =
        r.kernel.position n + 2 * r.halfTaps := by omega
    have hlength : (r.kernel.padded input).length = dropped.length + r.history.length := by
      rw [hheld, List.length_append]
    rw [← @slice_append_right _ dropped r.history _ _ _ rfl (by omega), ← hheld, Nat.add_comm,
      hreach, Nat.add_comm, hend, slice_of_le (by omega) (by omega), Nat.add_sub_cancel_left]
    rfl
  have hrows : ∀ p, p + 1 ≤ PHASES + 1 →
      slice r.table (p * (2 * r.halfTaps)) ((p + 1) * (2 * r.halfTaps)) =
        some (r.kernel.row p) := by
    intro p hp
    have hend : (p + 1) * (2 * r.halfTaps) ≤ r.table.length := by
      rw [htable]
      exact Nat.mul_le_mul_right _ hp
    have hwidth : (p + 1) * (2 * r.halfTaps) - p * (2 * r.halfTaps) = 2 * r.halfTaps := by
      rw [Nat.add_mul, Nat.one_mul]
      omega
    rw [slice_of_le (Nat.mul_le_mul_right _ (Nat.le_succ p)) hend, hwidth]
    rfl
  unfold sample
  rw [h.frac]
  simp only [hrows _ (Nat.le_of_succ_le hrow), hrows _ hrow, Option.bind_eq_bind,
    Option.bind_some, checkedSub_of_le (show r.halfTaps ≤ r.index + 1 by omega), hframes]
  rfl

theorem Reached.advance
    (h : Reached k input n r) :
    Reached k input (n + 1) r.advance := by
  obtain ⟨dropped, hheld, hindex, hdropped⟩ := h.held
  have hfrac := h.frac
  have hcomplete := h.complete
  obtain rfl := h.kernel
  have hposition := @Kernel.position_succ r.kernel n
  have hfraction := @Kernel.fraction_succ r.kernel n
  rw [← hfrac] at hposition hfraction
  refine ⟨rfl, hcomplete, ⟨dropped, hheld, ?_, ?_⟩, hfraction.symm⟩
  · rw [hposition, ← Nat.add_assoc, ← hindex, Nat.add_assoc]
    rfl
  · rw [hposition]
    exact Nat.le_add_right_of_le hdropped

/-- The loop emits the outputs that are due. -/
theorem Reached.emit_eq
    (h : Reached k input n r) (hn : n ≤ k.due input.length) :
    ∃ s, r.emit =
        some ((List.range' n (k.due input.length - n)).flatMap
          fun m => interleaved (k.outputAt input m), s) ∧
      Reached k input (k.due input.length) s := by
  induction hrest : k.due input.length - n generalizing n r with
  | zero =>
      obtain rfl : n = k.due input.length := by omega
      have hstop : ¬ r.index + r.halfTaps < r.history.length := by
        rw [h.going_on]
        exact Nat.lt_irrefl _
      rw [emit, dif_neg hstop]
      exact ⟨r, rfl, h⟩
  | succ rest ih =>
      have hless : n < k.due input.length := by omega
      obtain ⟨s, hemit, hs⟩ := ih h.advance hless (by omega)
      rw [emit, dif_pos (h.going_on.mpr hless), h.sample_eq hless, hemit]
      exact ⟨s, by rw [List.range'_succ, List.flatMap_cons]; rfl, hs⟩

/-- The drain keeps what later outputs need, and no index underflows. -/
theorem Reached.drain_eq
    (h : Reached k input n r) :
    ∃ s, r.drain = some s ∧ Reached k input n s := by
  obtain ⟨dropped, hheld, hindex, hdropped⟩ := h.held
  have hfrac := h.frac
  have hcomplete := h.complete
  obtain rfl := h.kernel
  have hpos : 1 ≤ r.halfTaps := hcomplete.halfTaps_pos
  have hindex : dropped.length + r.index = r.halfTaps - 1 + r.kernel.position n := hindex
  unfold drain
  rw [checkedSub_of_le (show r.halfTaps ≤ r.index + 1 by omega)]
  simp only [Option.bind_eq_bind, Option.bind_some]
  generalize hdone : min (r.index + 1 - r.halfTaps) r.history.length = done
  rw [checkedSub_of_le (show done ≤ r.index by omega)]
  refine ⟨_, rfl, rfl, hcomplete, ⟨dropped ++ r.history.take done, ?_, ?_, ?_⟩, hfrac⟩
  · rw [List.append_assoc, List.take_append_drop]
    exact hheld
  · rw [List.length_append, List.length_take]
    change _ + (r.index - done) = r.halfTaps - 1 + r.kernel.position n
    omega
  · rw [List.length_append, List.length_take]
    omega

/-- A call emits what becomes due with its input. -/
theorem Reached.process_eq
    (h : Reached k input (k.due input.length) r) (hrates : k.inRate.hz ≠ k.outRate.hz)
    (more : List StereoFrame) :
    ∃ out s, r.process more = some (out, s) ∧
      k.resampled (input ++ more) = k.resampled input ++ out ∧
      Reached k (input ++ more) (k.due (input ++ more).length) s := by
  obtain ⟨dropped, hheld, hindex, hdropped⟩ := h.held
  have hmore : Reached k (input ++ more) (k.due input.length)
      { r with history := r.history ++ more } := by
    refine ⟨h.kernel, h.complete, ⟨dropped, ?_, hindex, hdropped⟩, h.frac⟩
    rw [← List.append_assoc, ← hheld, Kernel.padded, Kernel.padded, List.append_assoc]
  have hgrows : k.due input.length ≤ k.due (input ++ more).length :=
    Kernel.due_mono (by rw [List.length_append]; exact Nat.le_add_right _ _)
  obtain ⟨s, hemit, hs⟩ := hmore.emit_eq hgrows
  obtain ⟨t, hdrain, ht⟩ := hs.drain_eq
  have hne : ¬ r.inRate.hz = r.outRate.hz := by
    have hin : r.inRate = k.inRate := congrArg Kernel.inRate h.kernel
    have hout : r.outRate = k.outRate := congrArg Kernel.outRate h.kernel
    rw [hin, hout]
    exact hrates
  refine ⟨_, t, ?_, Kernel.resampled_append hrates h.complete.halfTaps_pos input more, ht⟩
  rw [process, if_neg hne, hemit]
  simp only [Option.bind_eq_bind, Option.bind_some, hdrain]
  rfl

/-- Calls one after the other emit what one call on the whole input emits. -/
theorem Reached.processAll_eq
    (h : Reached k input (k.due input.length) r) (hrates : k.inRate.hz ≠ k.outRate.hz)
    (chunks : List (List StereoFrame)) :
    ∃ out s, r.processAll chunks = some (out, s) ∧
      k.resampled (input ++ chunks.flatten) = k.resampled input ++ out := by
  induction chunks generalizing input r with
  | nil => exact ⟨[], r, rfl, by simp⟩
  | cons chunk chunks ih =>
      obtain ⟨first, s, hprocess, hfirst, hs⟩ := h.process_eq hrates chunk
      obtain ⟨rest, t, hrest, hout⟩ := ih hs
      refine ⟨first ++ rest, t, ?_, ?_⟩
      · rw [processAll, hprocess]
        simp only [Option.bind_eq_bind, Option.bind_some, hrest]
        rfl
      · rw [List.flatten_cons, ← List.append_assoc, hout, hfirst, List.append_assoc]

/-- At equal rates the input passes through. -/
theorem processAll_same
    (hrates : r.inRate.hz = r.outRate.hz) (chunks : List (List StereoFrame)) :
    r.processAll chunks = some (chunks.flatten.flatMap interleaved, r) := by
  induction chunks with
  | nil => rfl
  | cons chunk chunks ih =>
      rw [processAll, process, if_pos hrates]
      simp only [Option.bind_eq_bind, Option.bind_some, ih, List.flatten_cons,
        List.flatMap_append]
      rfl

/-- The kernel reaches at least one frame. -/
theorem kernelReach_pos
    (inRate outRate : SampleRate) :
    1 ≤ kernelReach inRate outRate := by
  have hexp : (⟨52, 11⟩ : FloatFormat).fraction + 1 <
      2 ^ ((⟨52, 11⟩ : FloatFormat).exponent - 1) := by decide
  have hfits : ∀ n < 2 ^ 32, n < 2 ^ ((⟨52, 11⟩ : FloatFormat).fraction + 1) :=
    fun n hn => Nat.lt_trans hn (by decide)
  have hratio : (Flt.div (Flt.ofNat outRate.hz.toNat) (Flt.ofNat inRate.hz.toNat) :
      F64).Nonneg := by
    rw [Flt.div_ofNat hexp (hfits _ outRate.hz.toNat_lt) (hfits _ inRate.hz.toNat_lt)
      inRate.pos]
    exact Flt.nonneg_ofRatio _ _
  have hone : (f64 1 1).Fraction := ⟨rfl, Nat.le_refl _⟩
  have hpass : PASSBAND.Fraction := ⟨rfl, f64_mag_mono (by decide) (by decide) (by decide)⟩
  have hless := Flt.minNum_fraction hexp hratio hone
  have hcutoff : (cutoff inRate outRate).Fraction := by
    obtain ⟨hneg, hle⟩ := Flt.mul_fraction hexp hless.1 (hless.finite hexp) hpass
    exact ⟨hneg, Nat.le_trans hle hless.2⟩
  have hzeros := Flt.units_ofNat hexp (hfits 16 (by decide))
  unfold kernelReach
  exact Flt.ceil_div_fraction_pos hexp (by decide) rfl (Flt.ofNat_mag_mono (by decide))
    hzeros.1 hcutoff

/-- The kernel of a new resampler. -/
def kernelOf (weight : Nat → Nat → F32) (inRate outRate : SampleRate) : Kernel :=
  { inRate, outRate
    halfTaps := kernelReach inRate outRate
    table := kernelTable weight (2 * kernelReach inRate outRate) }

theorem start_reached
    {k : Kernel} (h : k.Complete) :
    ∃ r, start k.inRate k.outRate k.halfTaps k.table = some r ∧ Reached k [] 0 r := by
  simp only [start, checkedSub_of_le h.halfTaps_pos]
  refine ⟨_, rfl, rfl, h, ⟨[], ?_, ?_, Nat.zero_le _⟩, ?_⟩
  · simp only [Kernel.padded, List.append_nil, List.nil_append]
  · simp only [Kernel.position, Nat.zero_mul, Nat.zero_div, List.length_nil, Nat.zero_add,
      Nat.add_zero]
  · simp only [Kernel.fraction, Nat.zero_mul, Nat.zero_mod]

theorem kernelOf_complete
    (weight : Nat → Nat → F32) (inRate outRate : SampleRate) :
    (kernelOf weight inRate outRate).Complete :=
  { halfTaps_pos := kernelReach_pos inRate outRate
    table_length := by
      simp only [kernelOf, kernelTable, List.length_flatMap, List.length_map,
        List.length_range, List.map_const', List.sum_replicate_nat] }

/-- However the input is cut into calls, a new resampler emits, for all of it, output
`n` at input position `n · in / out`; no call fails. -/
theorem processAll_chunks
    (weight : Nat → Nat → F32) (inRate outRate : SampleRate)
    (chunks : List (List StereoFrame)) :
    ∃ r s t, new weight inRate outRate = some r ∧
      r.processAll chunks =
        some ((kernelOf weight inRate outRate).resampled chunks.flatten, s) ∧
      r.process chunks.flatten =
        some ((kernelOf weight inRate outRate).resampled chunks.flatten, t) := by
  obtain ⟨r, hnew, hr⟩ := start_reached (kernelOf_complete weight inRate outRate)
  by_cases hrates : inRate.hz = outRate.hz
  · have hsame : r.inRate.hz = r.outRate.hz := by
      have hin : r.inRate = inRate := congrArg Kernel.inRate hr.kernel
      have hout : r.outRate = outRate := congrArg Kernel.outRate hr.kernel
      rw [hin, hout, hrates]
    refine ⟨r, r, r, hnew, ?_, ?_⟩
    · rw [processAll_same hsame, Kernel.resampled_same hrates]
    · rw [process, if_pos hsame, Kernel.resampled_same hrates]
  · have hstart : Reached (kernelOf weight inRate outRate) []
        ((kernelOf weight inRate outRate).due ([] : List StereoFrame).length) r := by
      rw [List.length_nil, Kernel.due_zero]
      exact hr
    have hnone : (kernelOf weight inRate outRate).resampled [] = [] := by
      rw [Kernel.resampled_other hrates, List.length_nil, Kernel.due_zero]
      rfl
    obtain ⟨out, s, hout, hall⟩ := hstart.processAll_eq hrates chunks
    obtain ⟨whole, t, hwhole, hall', -⟩ := hstart.process_eq hrates chunks.flatten
    rw [hnone, List.nil_append, List.nil_append] at hall hall'
    exact ⟨r, s, t, hnew, by rw [hall]; exact hout, by rw [hall']; exact hwhole⟩

end Resampler

end Engine
end FocusVision
