import FocusVision.Lib.FloatUnit
import FocusVision.Lib.Slices

/-!
# The streaming resampler

`Resampler` of the engine's `audio/convert.rs`: loopback audio to the rate of the
Opus encoder, by a windowed sinc whose position is a whole number of frames and a
fraction in units of `1 / out_rate`.  A slice that is out of range and an index that
underflows are failures.

The weights of the kernel come from the sine and the cosine of the platform: the
table is filled from a parameter.  Everything else about the floats is as the code
has it.
-/

namespace FocusVision
namespace Engine

open Slices

/-- `ZERO_CROSSINGS`. -/
def ZERO_CROSSINGS : F64 := f64 16 1

/-- `PHASES`. -/
def PHASES : Nat := 256

/-- `PASSBAND`. -/
def PASSBAND : F64 := f64 95 100

/-- A stereo frame: `[f32; 2]`. -/
abbrev StereoFrame := F32 × F32

def silence : StereoFrame := (f32 0 1, f32 0 1)

/-- The interleaved samples of a frame. -/
def interleaved (frame : StereoFrame) : List F32 :=
  [frame.1, frame.2]

/-- A sample rate of at least 1. -/
structure SampleRate where
  hz : UInt32
  pos : 0 < hz.toNat

structure Resampler where
  inRate : SampleRate
  outRate : SampleRate
  halfTaps : Nat
  table : List F32
  history : List StereoFrame
  index : Nat
  frac : Nat
  frac_lt : frac < outRate.hz.toNat

/-- The kernel's cutoff: below both Nyquist frequencies. -/
def cutoff (inRate outRate : SampleRate) : F64 :=
  Flt.mul
    (Flt.minNum (Flt.div (Flt.ofNat outRate.hz.toNat) (Flt.ofNat inRate.hz.toNat)) (f64 1 1))
    PASSBAND

/-- How many input frames the kernel reaches on each side. -/
@[irreducible] def kernelReach (inRate outRate : SampleRate) : Nat :=
  (Flt.div ZERO_CROSSINGS (cutoff inRate outRate)).ceil.toUnsigned 64

/-- The rows of the table: `weight p j` is the weight of tap `j` in row `p`. -/
def kernelTable (weight : Nat → Nat → F32) (taps : Nat) : List F32 :=
  (List.range (PHASES + 1)).flatMap fun p => (List.range taps).map (weight p)

/-- Where a fraction lies among the rows of the table. -/
def phase (outRate : SampleRate) (frac : Nat) : F32 :=
  Flt.div (Flt.mul (Flt.ofNat frac) (Flt.ofNat PHASES)) (Flt.ofNat outRate.hz.toNat)

/-- The row below it. -/
def phaseRow (outRate : SampleRate) (frac : Nat) : Nat :=
  min ((phase outRate frac).toUnsigned 64) (PHASES - 1)

/-- The sum over the taps, with weights between two rows. -/
def weigh (between : F32) (row0 row1 : List F32) (frames : List StereoFrame) : StereoFrame :=
  ((row0.zip row1).zip frames).foldl
    (fun sample tap =>
      let h := Flt.add tap.1.1 (Flt.mul (Flt.sub tap.1.2 tap.1.1) between)
      (Flt.add sample.1 (Flt.mul h tap.2.1), Flt.add sample.2 (Flt.mul h tap.2.2)))
    silence

namespace Resampler

/-- Before any input, with silence so that the first frame can be the first output. -/
def start (inRate outRate : SampleRate) (halfTaps : Nat) (table : List F32) :
    Option Resampler := do
  let before ← checkedSub halfTaps 1
  return {
    inRate, outRate, halfTaps, table
    history := List.replicate before silence
    index := before
    frac := 0
    frac_lt := outRate.pos }

/-- `new`. -/
def new (weight : Nat → Nat → F32) (inRate outRate : SampleRate) : Option Resampler :=
  let halfTaps := kernelReach inRate outRate
  start inRate outRate halfTaps (kernelTable weight (2 * halfTaps))

/-- The next output. -/
def sample (r : Resampler) : Option StereoFrame := do
  let taps := 2 * r.halfTaps
  let p := phaseRow r.outRate r.frac
  let between := Flt.sub (phase r.outRate r.frac) (Flt.ofNat p)
  let row0 ← slice r.table (p * taps) ((p + 1) * taps)
  let row1 ← slice r.table ((p + 1) * taps) ((p + 2) * taps)
  let first ← checkedSub (r.index + 1) r.halfTaps
  let frames ← slice r.history first (r.index + 1 + r.halfTaps)
  return weigh between row0 row1 frames

/-- The step to the position of the next output. -/
def advance (r : Resampler) : Resampler :=
  let frac := r.frac + r.inRate.hz.toNat
  { r with
    index := r.index + frac / r.outRate.hz.toNat
    frac := frac % r.outRate.hz.toNat
    frac_lt := Nat.mod_lt _ r.outRate.pos }

/-- A step moves the position by `in_rate` units of `1 / out_rate`. -/
theorem advance_position
    (r : Resampler) :
    r.advance.index * r.outRate.hz.toNat + r.advance.frac =
      r.index * r.outRate.hz.toNat + r.frac + r.inRate.hz.toNat := by
  have hdiv := Nat.div_add_mod (r.frac + r.inRate.hz.toNat) r.outRate.hz.toNat
  rw [Nat.mul_comm] at hdiv
  simp only [advance, Nat.add_mul]
  omega

/-- The position before the end of the history has a distance to it, which a step
makes less. -/
theorem advance_closer
    {r : Resampler} (h : r.index + r.halfTaps < r.history.length) :
    r.history.length * r.outRate.hz.toNat -
        (r.advance.index * r.outRate.hz.toNat + r.advance.frac) <
      r.history.length * r.outRate.hz.toNat - (r.index * r.outRate.hz.toNat + r.frac) := by
  have hstep := r.advance_position
  have hrate := r.inRate.pos
  have hfrac := r.frac_lt
  have hbefore : (r.index + 1) * r.outRate.hz.toNat ≤
      r.history.length * r.outRate.hz.toNat := Nat.mul_le_mul_right _ (by omega)
  rw [Nat.add_mul, Nat.one_mul] at hbefore
  omega

/-- The loop of `process`. -/
def emit (r : Resampler) : Option (List F32 × Resampler) :=
  if _ : r.index + r.halfTaps < r.history.length then do
    let frame ← r.sample
    let (out, r) ← r.advance.emit
    return (interleaved frame ++ out, r)
  else some ([], r)
termination_by
  r.history.length * r.outRate.hz.toNat - (r.index * r.outRate.hz.toNat + r.frac)
decreasing_by exact advance_closer ‹_›

/-- Drop what no later output reaches back to. -/
def drain (r : Resampler) : Option Resampler := do
  let reach ← checkedSub (r.index + 1) r.halfTaps
  let done := min reach r.history.length
  let index ← checkedSub r.index done
  return { r with history := r.history.drop done, index }

/-- `process`: what it appends to `out`. -/
def process (r : Resampler) (input : List StereoFrame) : Option (List F32 × Resampler) :=
  if r.inRate.hz = r.outRate.hz then some (input.flatMap interleaved, r)
  else do
    let (out, r) ← { r with history := r.history ++ input }.emit
    let r ← r.drain
    return (out, r)

/-- One call after the other. -/
def processAll (r : Resampler) : List (List StereoFrame) → Option (List F32 × Resampler)
  | [] => some ([], r)
  | input :: inputs => do
      let (out, r) ← r.process input
      let (rest, r) ← r.processAll inputs
      return (out ++ rest, r)

end Resampler

end Engine
end FocusVision
