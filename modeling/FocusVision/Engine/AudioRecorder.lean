import FocusVision.Lib.ByteFields
import FocusVision.Lib.CrashTriple
import FocusVision.Lib.FloatDistance

/-!
# The WAV recorder

`AudioRecorder` of the engine's `recording/audio.rs`, over the standard library's
`BufWriter` and a file whose I/O calls may fail.  The contents of the file outlive the
process, which can be killed at every I/O call; a failed call changes nothing, a write of
a header field goes in whole, and a write of the buffer takes any number of its bytes.

Left out: the path, the log, and `BufWriter`'s way around the buffer for writes as long
as the buffer is.  The samples of one call are converted together, not block by block.
-/

namespace FocusVision
namespace Engine

open Bytes

/-! ### The file -/

inductive IoAnswer where
  | failed
  /-- A write of the buffer has taken this many bytes and one more, or all of them. -/
  | done (n : Nat)
deriving DecidableEq

/-- A program over the contents of the file. -/
abbrev Io : Type → Type := Prog IoAnswer (List UInt8)

/-- Whether an I/O call succeeds. -/
def succeeds : Io Bool := do
  match ← Prog.call with
  | .failed => pure false
  | .done _ => pure true

/-- `content`, with `bytes` written at `pos`; a gap is filled with zeros. -/
def writeAt (pos : Nat) (bytes content : List UInt8) : List UInt8 :=
  overwrite (content ++ List.replicate (pos - content.length) 0) pos bytes

/-- `BufWriter<File>`: the bytes that are not written yet, and the file's position. -/
structure BufWriter where
  buf : List UInt8 := []
  pos : Nat := 0

namespace BufWriter

def CAPACITY : Nat := 64 * 1024

/-- The loop of `flush_buf`; each turn takes at least one byte. -/
def flushLoop : Nat → BufWriter → Io (Bool × BufWriter)
  | 0, w => pure (true, w)
  | turns + 1, w =>
      if w.buf = [] then pure (true, w)
      else do
        match ← Prog.call with
        | .failed => pure (false, w)
        | .done n =>
            Prog.modify (writeAt w.pos (w.buf.take (n + 1)))
            flushLoop turns
              { buf := w.buf.drop (n + 1), pos := w.pos + (w.buf.take (n + 1)).length }

def flush_buf (w : BufWriter) : Io (Bool × BufWriter) :=
  flushLoop w.buf.length w

/-- The operator `?`: the next step, if this one has succeeded. -/
def andThen (step : Io (Bool × BufWriter)) (next : BufWriter → Io (Bool × BufWriter)) :
    Io (Bool × BufWriter) := do
  let (ok, w) ← step
  if ok then next w else pure (false, w)

/-- `write_all`. -/
def write_all (w : BufWriter) (bytes : List UInt8) : Io (Bool × BufWriter) :=
  andThen (if bytes.length > CAPACITY - w.buf.length then w.flush_buf else pure (true, w))
    fun w => pure (true, { w with buf := w.buf ++ bytes })

/-- `flush`. -/
def flush (w : BufWriter) : Io (Bool × BufWriter) :=
  andThen w.flush_buf fun w => do pure (← succeeds, w)

/-- `seek(SeekFrom::Start(pos))` of the file. -/
def seekStart (w : BufWriter) (pos : Nat) : Io (Bool × BufWriter) := do
  if ← succeeds then pure (true, { w with pos }) else pure (false, w)

/-- `seek(SeekFrom::End(0))` of the file. -/
def seekEnd (w : BufWriter) : Io (Bool × BufWriter) := do
  let content ← Prog.get
  if ← succeeds then pure (true, { w with pos := content.length }) else pure (false, w)

/-- `write_all` of the file. -/
def writeFile (w : BufWriter) (bytes : List UInt8) : Io (Bool × BufWriter) := do
  if ← succeeds then
    Prog.modify (writeAt w.pos bytes)
    pure (true, { w with pos := w.pos + bytes.length })
  else pure (false, w)

end BufWriter

/-! ### The recorder -/

/-- The most PCM a WAV can hold: `u32::MAX - 36`. -/
def MAX_DATA_BYTES : Nat := 2 ^ 32 - 1 - 36

/-- Samples in a block. -/
def CHUNK : Nat := 1024

structure AudioRecorder where
  writer : Option BufWriter
  sample_rate : UInt32
  channels : UInt16
  data_bytes : Nat := 0
  patched_bytes : Nat := 0
  max_data_bytes : Nat := MAX_DATA_BYTES
  poisoned : Bool := false

/-- A sample as a 16-bit integer: `(s.clamp(-1.0, 1.0) * 32767.0) as i16`. -/
def sampleI16 (s : F32) : Int16 :=
  let clamped := Flt.clampTo (f32 1 1).negate (f32 1 1) s
  Int16.ofInt ((clamped.mul (f32 32767 1)).toSigned 16)

/-- A sample as 16-bit PCM. -/
def samplePcm (s : F32) : List UInt8 :=
  leBytes 2 (sampleI16 s).toUInt16.toNat

example : [f32 1 2, f32 2 1, (f32 2 1).negate].flatMap samplePcm =
    [0xFF, 0x3F, 0xFF, 0x7F, 0x01, 0x80] := by
  decide +kernel

/-- What stands between the RIFF size and the data size: the WAVE id, the `fmt `
subchunk and the id of the `data` subchunk. -/
def wavFormat (channels sample_rate byte_rate block_align : Nat) : List UInt8 :=
  [0x57, 0x41, 0x56, 0x45] ++ [0x66, 0x6D, 0x74, 0x20] ++ leBytes 4 16 ++ leBytes 2 1 ++
    leBytes 2 channels ++ leBytes 4 sample_rate ++ leBytes 4 byte_rate ++
    leBytes 2 block_align ++ leBytes 2 16 ++ [0x64, 0x61, 0x74, 0x61]

/-- The header of a WAV file. -/
def wavHeader (format : List UInt8) (riff_size data_size : Nat) : List UInt8 :=
  [0x52, 0x49, 0x46, 0x46] ++ leBytes 4 riff_size ++ format ++ leBytes 4 data_size

/-- A result of integer arithmetic with `bits` bits. -/
def fits (bits n : Nat) : Io Nat :=
  Prog.checked (n < 2 ^ bits) n

/-- A difference of unsigned integers. -/
def minus (a b : Nat) : Io Nat :=
  Prog.checked (b ≤ a) (a - b)

/-- `saturating_mul` of `u32`. -/
def saturatingMul (a b : Nat) : Nat :=
  min (a * b) (2 ^ 32 - 1)

namespace AudioRecorder

/-- The bytes that hold a second of audio. -/
def second (r : AudioRecorder) : Nat :=
  saturatingMul (saturatingMul r.sample_rate.toNat r.channels.toNat) 2

/-- The file operations of `patch_sizes`. -/
def writeSizes (w : BufWriter) (riff_size data_size : Nat) : Io (Bool × BufWriter) :=
  BufWriter.andThen w.flush fun w =>
  BufWriter.andThen (w.seekStart 4) fun w =>
  BufWriter.andThen (w.writeFile (leBytes 4 riff_size)) fun w =>
  BufWriter.andThen (w.seekStart 40) fun w =>
  BufWriter.andThen (w.writeFile (leBytes 4 data_size)) fun w =>
  w.seekEnd

def patch_sizes (r : AudioRecorder) : Io AudioRecorder :=
  match r.writer with
  | none => pure r
  | some w => do
      let riff_size ← fits 32 (36 + r.data_bytes)
      let (ok, w) ← writeSizes w riff_size r.data_bytes
      if ok then pure { r with writer := some w, patched_bytes := r.data_bytes }
      else pure { r with writer := some w, poisoned := true }

/-- `close`; a `BufWriter` that is dropped flushes its buffer once more. -/
def close (r : AudioRecorder) : Io AudioRecorder :=
  match r.writer with
  | none => pure r
  | some _ => do
      let r ← r.patch_sizes
      match r.writer with
      | none => pure r
      | some w => do
          let _ ← w.flush_buf
          pure { r with writer := none }

def write_header (r : AudioRecorder) : Io (Bool × AudioRecorder) :=
  match r.writer with
  | none => pure (false, r)
  | some w => do
      let frames ← fits 32 (r.sample_rate.toNat * r.channels.toNat)
      let byte_rate ← fits 32 (frames * 2)
      let block_align ← fits 16 (r.channels.toNat * 2)
      let format := wavFormat r.channels.toNat r.sample_rate.toNat byte_rate block_align
      let (ok, w) ← w.write_all (wavHeader format 0 0)
      if ok then pure (true, { r with writer := some w })
      else pure (false, { r with writer := some w, poisoned := true })

/-- `open`; a recorder that is dropped is closed. -/
def «open» (sample_rate : UInt32) (channels : UInt16) : Io (Option AudioRecorder) := do
  if ← succeeds then
    let (ok, r) ← write_header { writer := some {}, sample_rate, channels }
    if ok then pure (some r)
    else do
      let _ ← r.close
      pure none
  else pure none

/-- The loop of `write_pcm_f32` over its blocks: whether it has returned early. -/
def writeBlocks : AudioRecorder → List (List UInt8) → Io (Bool × AudioRecorder)
  | r, [] => pure (false, r)
  | r, block :: blocks => do
      let room ← minus r.max_data_bytes r.data_bytes
      if block.length > room then do
        let r ← r.close
        pure (true, r)
      else
        match r.writer with
        | none => pure (true, r)
        | some w => do
            let (ok, w) ← w.write_all block
            if ok then do
              let data_bytes ← fits 32 (r.data_bytes + block.length)
              writeBlocks { r with writer := some w, data_bytes } blocks
            else pure (true, { r with writer := some w, poisoned := true })

def write_pcm_f32 (r : AudioRecorder) (samples : List F32) : Io AudioRecorder :=
  if r.poisoned || samples.isEmpty || r.writer.isNone then pure r
  else do
    let (returned, r) ← r.writeBlocks (chunks (CHUNK * 2) (samples.flatMap samplePcm))
    if returned then pure r
    else do
      let unpatched ← minus r.data_bytes r.patched_bytes
      if unpatched ≥ r.second then r.patch_sizes else pure r

def is_open (r : AudioRecorder) : Bool :=
  r.writer.isSome && !r.poisoned

end AudioRecorder

/-! ### Recordings -/

inductive RecorderCall where
  | write_pcm_f32 (samples : List F32)
  | close

namespace RecorderCall

/-- The PCM that a call hands over. -/
def pcm : RecorderCall → List UInt8
  | .write_pcm_f32 samples => samples.flatMap samplePcm
  | .close => []

def perform (r : AudioRecorder) : RecorderCall → Io AudioRecorder
  | .write_pcm_f32 samples => r.write_pcm_f32 samples
  | .close => r.close

def performAll : AudioRecorder → List RecorderCall → Io AudioRecorder
  | r, [] => pure r
  | r, call :: calls => do
      let r ← call.perform r
      performAll r calls

end RecorderCall

/-- A recorder that is opened, stops at a limit and gets some calls. -/
def record (sample_rate : UInt32) (channels : UInt16) (limit : Nat)
    (calls : List RecorderCall) : Io (Option AudioRecorder) := do
  match ← AudioRecorder.open sample_rate channels with
  | none => pure none
  | some r => do
      let r ← RecorderCall.performAll { r with max_data_bytes := limit } calls
      pure (some r)

end Engine
end FocusVision
