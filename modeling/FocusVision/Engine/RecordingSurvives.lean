import FocusVision.Engine.AudioRecorder

/-!
# A recording survives a crash

Whatever I/O calls fail and wherever the process is killed, the sizes in the header of the
file describe no more than it holds, and what follows the header is a prefix of the
samples.  An open recorder is less than a second ahead of its header, and after a close
without I/O errors the header describes the file exactly.
-/

namespace FocusVision
namespace Engine

open Bytes

/-! ### The file -/

def HEADER_LEN : Nat := 44

/-- The RIFF size in a file. -/
def riffSize (content : List UInt8) : Nat :=
  ofLeBytes (window content 4 4)

/-- The data size in a file. -/
def dataSize (content : List UInt8) : Nat :=
  ofLeBytes (window content 40 4)

/-- What is left of a recording of `all` is a file that can be played. -/
structure Survives (all content : List UInt8) : Prop where
  data_le : HEADER_LEN ≤ content.length → dataSize content ≤ content.length - HEADER_LEN
  riff_ok : HEADER_LEN ≤ content.length → riffSize content = 0 ∨
    dataSize content + 36 ≤ riffSize content ∧ riffSize content + 8 ≤ content.length
  samples : content.drop HEADER_LEN <+: all

/-- The sizes describe the whole file. -/
structure Exact (content : List UInt8) : Prop where
  header : HEADER_LEN ≤ content.length
  data_eq : dataSize content = content.length - HEADER_LEN
  riff_eq : riffSize content + 8 = content.length

/-- Sizes that describe no more than a file of some length. -/
structure GoodSizes (riff data length : Nat) : Prop where
  riff_lt : riff < 2 ^ 32
  data_lt : data < 2 ^ 32
  data_le : data ≤ length - HEADER_LEN
  riff_ok : riff = 0 ∨ data + 36 ≤ riff ∧ riff + 8 ≤ length

theorem GoodSizes.mono
    {riff data length length' : Nat} (h : GoodSizes riff data length)
    (hle : length ≤ length') :
    GoodSizes riff data length' where
  riff_lt := h.riff_lt
  data_lt := h.data_lt
  data_le := h.data_le.trans (Nat.sub_le_sub_right hle _)
  riff_ok := h.riff_ok.imp_right fun ⟨hdata, hriff⟩ => ⟨hdata, hriff.trans hle⟩

/-- The file and the buffer hold a header and the samples `pcm`. -/
def WavFile (format pcm buf content : List UInt8) : Prop :=
  ∃ riff data, content ++ buf = wavHeader format riff data ++ pcm ∧
    GoodSizes riff data content.length

@[simp] theorem length_wavFormat
    (channels sample_rate byte_rate block_align : Nat) :
    (wavFormat channels sample_rate byte_rate block_align).length = 32 := by
  simp [wavFormat]

section Header

variable {format : List UInt8} (hformat : format.length = 32)
include hformat

theorem length_wavHeader
    (riff data : Nat) :
    (wavHeader format riff data).length = HEADER_LEN := by
  simp [wavHeader, hformat, HEADER_LEN]

/-- The sizes are read back. -/
theorem sizes_wavHeader
    {riff data : Nat} (hriff : riff < 2 ^ 32) (hdata : data < 2 ^ 32) (rest : List UInt8) :
    riffSize (wavHeader format riff data ++ rest) = riff ∧
      dataSize (wavHeader format riff data ++ rest) = data := by
  have hfields : wavHeader format riff data ++ rest =
      [[0x52, 0x49, 0x46, 0x46], leBytes 4 riff, format, leBytes 4 data, rest].flatten := by
    simp [wavHeader]
  rw [hfields]
  refine ⟨(fieldAt_flatten 1 4 rfl rfl).ofLeBytes_eq hriff, ?_⟩
  refine (fieldAt_flatten 3 40 rfl ?_).ofLeBytes_eq hdata
  simp [hformat]

omit hformat in
/-- A new RIFF size. -/
theorem overwrite_riff
    (riff riff' data : Nat) (rest : List UInt8) :
    overwrite (wavHeader format riff data ++ rest) 4 (leBytes 4 riff') =
      wavHeader format riff' data ++ rest := by
  have hbefore : ([0x52, 0x49, 0x46, 0x46] : List UInt8).length = 4 := rfl
  have hlength : (leBytes 4 riff').length = (leBytes 4 riff).length := by simp
  have hpatched := overwrite_middle (format ++ leBytes 4 data ++ rest) hbefore hlength
  simpa [wavHeader] using hpatched

/-- A new data size. -/
theorem overwrite_data
    (riff data data' : Nat) (rest : List UInt8) :
    overwrite (wavHeader format riff data ++ rest) 40 (leBytes 4 data') =
      wavHeader format riff data' ++ rest := by
  have hbefore : ([0x52, 0x49, 0x46, 0x46] ++ leBytes 4 riff ++ format).length = 40 := by
    simp [hformat]
  have hlength : (leBytes 4 data').length = (leBytes 4 data).length := by simp
  have hpatched := overwrite_middle rest hbefore hlength
  simpa [wavHeader] using hpatched

theorem WavFile.survives
    {pcm buf content all : List UInt8} (h : WavFile format pcm buf content)
    (hpcm : pcm <+: all) :
    Survives all content := by
  obtain ⟨riff, data, hbytes, hsizes⟩ := h
  have hlength := length_wavHeader hformat riff data
  rcases Nat.lt_or_ge content.length HEADER_LEN with hlt | hle
  · refine ⟨fun h => absurd h (Nat.not_le.mpr hlt), fun h => absurd h (Nat.not_le.mpr hlt), ?_⟩
    rw [List.drop_eq_nil_of_le (Nat.le_of_lt hlt)]
    exact List.nil_prefix
  · have hdrop : content.drop HEADER_LEN ++ buf = pcm := by
      rw [← List.drop_append_of_le_length hle, hbytes, List.drop_left' hlength]
    have htake : content.take HEADER_LEN = wavHeader format riff data := by
      rw [← @List.take_append_of_le_length _ _ buf _ hle, hbytes, List.take_left' hlength]
    have hcontent : content = wavHeader format riff data ++ content.drop HEADER_LEN := by
      rw [← htake, List.take_append_drop]
    obtain ⟨hriff, hdata⟩ :=
      sizes_wavHeader hformat hsizes.riff_lt hsizes.data_lt (content.drop HEADER_LEN)
    rw [← hcontent] at hriff hdata
    refine ⟨fun _ => hdata ▸ hsizes.data_le, fun _ => ?_, ?_⟩
    · rw [hriff, hdata]
      exact hsizes.riff_ok
    · exact (hdrop ▸ List.prefix_append _ _).trans hpcm

end Header

/-! ### The calls of the writer -/

/-- The answers of a run; a clean one has no failed call. -/
def Allowed (clean : Prop) (a : IoAnswer) : Prop :=
  clean → a ≠ .failed

/-- The file and its writer hold the samples `pcm`.  What is buffered goes to the end of
the file; a writer that is `live` is there. -/
structure At (format pcm : List UInt8) (live : Prop) (w : BufWriter)
    (content : List UInt8) : Prop where
  file : WavFile format pcm w.buf content
  place : w.buf = [] ∨ w.pos = content.length
  live_pos : live → w.pos = content.length

/-- Everything is in the file, with these sizes. -/
structure Whole (format pcm : List UInt8) (riff data : Nat) (w : BufWriter)
    (content : List UInt8) : Prop where
  flushed : w.buf = []
  content_eq : content = wavHeader format riff data ++ pcm
  sizes : GoodSizes riff data content.length

/-- A step has succeeded with `Good`, or failed with `Bad`, if steps may fail. -/
def Tried (clean : Prop) (Good Bad : BufWriter → List UInt8 → Prop)
    (result : Bool × BufWriter) (content : List UInt8) : Prop :=
  (result.1 = true ∧ Good result.2 content) ∨
    (result.1 = false ∧ ¬clean ∧ Bad result.2 content)

/-- The position of a writer. -/
def AtPos (Good : BufWriter → List UInt8 → Prop) (pos : Nat) (w : BufWriter)
    (content : List UInt8) : Prop :=
  w.pos = pos ∧ Good w content

theorem Whole.at
    {format pcm : List UInt8} {riff data : Nat} {w : BufWriter} {content : List UInt8}
    (h : Whole format pcm riff data w content) :
    At format pcm False w content where
  file := ⟨riff, data, by rw [h.flushed, List.append_nil, h.content_eq], h.sizes⟩
  place := Or.inl h.flushed
  live_pos := False.elim

theorem At.whole
    {format pcm : List UInt8} {live : Prop} {w : BufWriter} {content : List UInt8}
    (h : At format pcm live w content) (hflushed : w.buf = []) :
    ∃ riff data, Whole format pcm riff data w content := by
  obtain ⟨riff, data, hbytes, hsizes⟩ := h.file
  rw [hflushed, List.append_nil] at hbytes
  exact ⟨riff, data, hflushed, hbytes, hsizes⟩

theorem writeAt_of_le
    {pos : Nat} {content : List UInt8} (h : pos ≤ content.length) (bytes : List UInt8) :
    writeAt pos bytes content = overwrite content pos bytes := by
  rw [writeAt, Nat.sub_eq_zero_of_le h, List.replicate_zero, List.append_nil]

theorem writeAt_length
    (bytes content : List UInt8) :
    writeAt content.length bytes content = content ++ bytes := by
  rw [writeAt_of_le (Nat.le_refl _)]
  simp [overwrite]

section Calls

variable {format : List UInt8} (hformat : format.length = 32)
variable {all pcm : List UInt8} (hpcm : pcm <+: all)
variable {clean live : Prop}

section

variable {P C : List UInt8 → Prop}

theorem triple_succeeds
    (hkilled : ∀ s, P s → C s) :
    Prog.Triple (Allowed clean) P succeeds
      (fun ok s => (clean → ok = true) ∧ P s) C := by
  refine (Prog.Triple.call hkilled).bind fun a => ?_
  cases a with
  | failed => exact Prog.Triple.ret fun s hs => ⟨fun hclean => absurd rfl (hs.1 hclean), hs.2⟩
  | done n => exact Prog.Triple.ret fun s hs => ⟨fun _ => rfl, hs.2⟩

/-- The operator `?`. -/
theorem triple_andThen
    {step : Io (Bool × BufWriter)} {next : BufWriter → Io (Bool × BufWriter)}
    {Good Good' Bad : BufWriter → List UInt8 → Prop}
    (hstep : Prog.Triple (Allowed clean) P step (Tried clean Good Bad) C)
    (hnext : ∀ w, Prog.Triple (Allowed clean) (Good w) (next w) (Tried clean Good' Bad) C) :
    Prog.Triple (Allowed clean) P (BufWriter.andThen step next) (Tried clean Good' Bad) C := by
  refine hstep.bind fun ⟨ok, w⟩ => ?_
  cases ok with
  | false =>
      refine Prog.Triple.ret fun s hs => ?_
      rcases hs with ⟨htrue, -⟩ | hfailed
      · exact nomatch htrue
      · exact Or.inr hfailed
  | true =>
      refine (hnext w).weaken (fun s hs => ?_) (fun _ _ h => h)
      rcases hs with ⟨-, hgood⟩ | ⟨hfalse, -⟩
      · exact hgood
      · exact nomatch hfalse

/-- A call that moves the file's position, or fails. -/
theorem triple_seekStart
    {Good Bad : BufWriter → List UInt8 → Prop} {w : BufWriter} (pos : Nat)
    (hkilled : ∀ s, Good w s → C s) (hbad : ∀ s, Good w s → Bad w s)
    (hpos : ∀ s, Good w s → Good { w with pos } s) :
    Prog.Triple (Allowed clean) (Good w) (w.seekStart pos)
      (Tried clean (AtPos Good pos) Bad) C := by
  refine (triple_succeeds hkilled).bind fun ok => ?_
  cases ok with
  | false =>
      exact Prog.Triple.ret fun s ⟨hok, hs⟩ =>
        Or.inr ⟨rfl, fun hclean => (nomatch hok hclean), hbad s hs⟩
  | true => exact Prog.Triple.ret fun s ⟨_, hs⟩ => Or.inl ⟨rfl, rfl, hpos s hs⟩

/-- A write into the file, or a failed one. -/
theorem triple_writeFile
    {P' : List UInt8 → Prop} {Good Bad : BufWriter → List UInt8 → Prop} {w : BufWriter}
    (bytes : List UInt8)
    (hkilled : ∀ s, P' s → C s) (hbad : ∀ s, P' s → Bad w s)
    (hwrite : ∀ s, P' s →
      Good { w with pos := w.pos + bytes.length } (writeAt w.pos bytes s)) :
    Prog.Triple (Allowed clean) P' (w.writeFile bytes) (Tried clean Good Bad) C := by
  refine (triple_succeeds hkilled).bind fun ok => ?_
  cases ok with
  | false =>
      exact Prog.Triple.ret fun s ⟨hok, hs⟩ =>
        Or.inr ⟨rfl, fun hclean => (nomatch hok hclean), hbad s hs⟩
  | true =>
      refine (Prog.Triple.modify fun s ⟨_, hs⟩ => hwrite s hs).bind fun _ => ?_
      exact Prog.Triple.ret fun s hs => Or.inl ⟨rfl, hs⟩

/-- A seek to the end of the file, or a failed one. -/
theorem triple_seekEnd
    {P' : List UInt8 → Prop} {Good Bad : BufWriter → List UInt8 → Prop} {w : BufWriter}
    (hkilled : ∀ s, P' s → C s) (hbad : ∀ s, P' s → Bad w s)
    (hend : ∀ s, P' s → Good { w with pos := s.length } s) :
    Prog.Triple (Allowed clean) P' w.seekEnd (Tried clean Good Bad) C := by
  refine Prog.Triple.get.bind fun content => ?_
  refine (triple_succeeds fun s ⟨_, hs⟩ => hkilled s hs).bind fun ok => ?_
  cases ok with
  | false =>
      exact Prog.Triple.ret fun s ⟨hok, _, hs⟩ =>
        Or.inr ⟨rfl, fun hclean => (nomatch hok hclean), hbad s hs⟩
  | true =>
      refine Prog.Triple.ret fun s ⟨_, hcontent, hs⟩ => Or.inl ⟨rfl, ?_⟩
      rw [hcontent]
      exact hend s hs

end

include hformat hpcm

theorem At.survives
    {w : BufWriter} {content : List UInt8} (h : At format pcm live w content) :
    Survives all content :=
  h.file.survives hformat hpcm

theorem Whole.survives
    {riff data : Nat} {w : BufWriter} {content : List UInt8}
    (h : Whole format pcm riff data w content) :
    Survives all content :=
  h.at.file.survives hformat hpcm

omit hformat hpcm in
/-- A part of the buffer goes to the end of the file. -/
theorem At.flushed
    {w : BufWriter} {content : List UInt8} (h : At format pcm live w content)
    (hbuf : w.buf ≠ []) (n : Nat) :
    At format pcm live
      { buf := w.buf.drop n, pos := w.pos + (w.buf.take n).length }
      (writeAt w.pos (w.buf.take n) content) := by
  have hpos : w.pos = content.length := h.place.resolve_left hbuf
  have hwritten : writeAt w.pos (w.buf.take n) content = content ++ w.buf.take n := by
    rw [hpos, writeAt_length]
  have hend : w.pos + (w.buf.take n).length = (content ++ w.buf.take n).length := by
    rw [List.length_append, hpos]
  obtain ⟨riff, data, hbytes, hsizes⟩ := h.file
  rw [hwritten]
  refine ⟨⟨riff, data, ?_, hsizes.mono ?_⟩, Or.inr hend, fun _ => hend⟩
  · rw [List.append_assoc, List.take_append_drop, hbytes]
  · rw [List.length_append]
    omega

/-- The loop ends with an empty buffer, or fails. -/
theorem triple_flushLoop
    (turns : Nat) (w : BufWriter) (hturns : w.buf.length ≤ turns) :
    Prog.Triple (Allowed clean) (At format pcm live w) (w.flushLoop turns)
      (Tried clean (fun w s => At format pcm live w s ∧ w.buf = []) (At format pcm live))
      (Survives all) := by
  induction turns generalizing w with
  | zero =>
      have hbuf : w.buf = [] := List.eq_nil_of_length_eq_zero (by omega)
      exact Prog.Triple.ret fun s hs => Or.inl ⟨rfl, hs, hbuf⟩
  | succ turns ih =>
      unfold BufWriter.flushLoop
      refine Prog.Triple.ite (fun hbuf => ?_) (fun hbuf => ?_)
      · exact Prog.Triple.ret fun s hs => Or.inl ⟨rfl, hs, hbuf⟩
      · refine (Prog.Triple.call fun s hs => hs.survives hformat hpcm).bind fun a => ?_
        cases a with
        | failed =>
            exact Prog.Triple.ret fun s ⟨hallowed, hs⟩ =>
              Or.inr ⟨rfl, fun hclean => hallowed hclean rfl, hs⟩
        | done n =>
            refine (Prog.Triple.modify fun s ⟨_, hs⟩ => hs.flushed hbuf (n + 1)).bind fun _ => ?_
            apply ih
            have hpos := List.length_pos_iff.mpr hbuf
            simp only [List.length_drop]
            omega

theorem triple_flush_buf
    (w : BufWriter) :
    Prog.Triple (Allowed clean) (At format pcm live w) w.flush_buf
      (Tried clean (fun w s => At format pcm live w s ∧ w.buf = []) (At format pcm live))
      (Survives all) :=
  triple_flushLoop hformat hpcm w.buf.length w (Nat.le_refl _)

/-- The bytes are taken into the buffer, or nothing is. -/
theorem triple_write_all
    (w : BufWriter) (bytes : List UInt8) :
    Prog.Triple (Allowed clean) (At format pcm True w) (w.write_all bytes)
      (Tried clean (At format (pcm ++ bytes) True) (At format pcm True)) (Survives all) := by
  have happend : ∀ (w : BufWriter) s, At format pcm True w s →
      At format (pcm ++ bytes) True { w with buf := w.buf ++ bytes } s := by
    intro w s hs
    obtain ⟨riff, data, hbytes, hsizes⟩ := hs.file
    refine ⟨⟨riff, data, ?_, hsizes⟩, Or.inr (hs.live_pos trivial), hs.live_pos⟩
    rw [← List.append_assoc, hbytes, List.append_assoc]
  have hroom : Prog.Triple (Allowed clean) (At format pcm True w)
      (if bytes.length > BufWriter.CAPACITY - w.buf.length then w.flush_buf else pure (true, w))
      (Tried clean (At format pcm True) (At format pcm True)) (Survives all) := by
    refine Prog.Triple.ite (fun _ => ?_) (fun _ => ?_)
    · refine (triple_flush_buf hformat hpcm w).weaken (fun _ hs => hs) (fun r s hs => ?_)
      exact hs.imp_left fun ⟨hok, hgood, _⟩ => ⟨hok, hgood⟩
    · exact Prog.Triple.ret fun s hs => Or.inl ⟨rfl, hs⟩
  exact triple_andThen hroom fun w =>
    Prog.Triple.ret fun s hs => Or.inl ⟨rfl, happend w s hs⟩

/-- `flush` ends with everything in the file. -/
theorem triple_flush
    (w : BufWriter) :
    Prog.Triple (Allowed clean) (At format pcm live w) w.flush
      (Tried clean (fun w s => ∃ riff data, Whole format pcm riff data w s)
        (At format pcm False)) (Survives all) := by
  have hweak : ∀ (w : BufWriter) s, At format pcm live w s → At format pcm False w s :=
    fun w s hs => ⟨hs.file, hs.place, False.elim⟩
  have hfirst : Prog.Triple (Allowed clean) (At format pcm live w) w.flush_buf
      (Tried clean (fun w s => At format pcm live w s ∧ w.buf = []) (At format pcm False))
      (Survives all) := by
    refine (triple_flush_buf hformat hpcm w).weaken (fun _ hs => hs) (fun r s hs => ?_)
    exact hs.imp_right fun ⟨hok, hclean, hbad⟩ => ⟨hok, hclean, hweak _ _ hbad⟩
  refine triple_andThen hfirst fun w => ?_
  refine (triple_succeeds fun s hs => hs.1.survives hformat hpcm).bind fun ok => ?_
  refine Prog.Triple.ret fun s ⟨hok, hs, hbuf⟩ => ?_
  cases ok with
  | false => exact Or.inr ⟨rfl, fun hclean => (nomatch hok hclean), hweak _ _ hs⟩
  | true => exact Or.inl ⟨rfl, hs.whole hbuf⟩

/-- The sizes describe everything that has been written. -/
theorem triple_writeSizes
    (w : BufWriter) (hmax : pcm.length ≤ MAX_DATA_BYTES) :
    Prog.Triple (Allowed clean) (At format pcm live w)
      (AudioRecorder.writeSizes w (36 + pcm.length) pcm.length)
      (Tried clean
        (fun w s => Whole format pcm (36 + pcm.length) pcm.length w s ∧ w.pos = s.length)
        (At format pcm False)) (Survives all) := by
  have hriff : 36 + pcm.length < 2 ^ 32 := by
    unfold MAX_DATA_BYTES at hmax
    omega
  have hheader : HEADER_LEN = 44 := rfl
  have hlength : ∀ {riff data}, (wavHeader format riff data ++ pcm).length =
      HEADER_LEN + pcm.length := by
    intro riff data
    rw [List.length_append, length_wavHeader hformat]
  refine triple_andThen (triple_flush hformat hpcm w) fun w => ?_
  refine Prog.Triple.of_exists fun riff => Prog.Triple.of_exists fun data => ?_
  refine triple_andThen (triple_seekStart 4 (fun s hs => hs.survives hformat hpcm)
    (fun s hs => hs.at) (fun s hs => ⟨hs.flushed, hs.content_eq, hs.sizes⟩)) fun w => ?_
  have hriffWritten : ∀ s, AtPos (Whole format pcm riff data) 4 w s →
      Whole format pcm (36 + pcm.length) data
        { w with pos := w.pos + (leBytes 4 (36 + pcm.length)).length }
        (writeAt w.pos (leBytes 4 (36 + pcm.length)) s) := by
    rintro s ⟨hpos, hs⟩
    have hle : 4 ≤ s.length := by
      rw [hs.content_eq, hlength]
      omega
    have hwritten : writeAt w.pos (leBytes 4 (36 + pcm.length)) s =
        wavHeader format (36 + pcm.length) data ++ pcm := by
      rw [hpos, writeAt_of_le hle, hs.content_eq, overwrite_riff]
    have hsizes := hs.sizes
    rw [hs.content_eq, hlength] at hsizes
    have hdata := hsizes.data_le
    refine ⟨hs.flushed, hwritten, ?_⟩
    rw [hwritten, hlength]
    exact ⟨hriff, hsizes.data_lt, hdata, Or.inr ⟨by omega, by omega⟩⟩
  refine triple_andThen (triple_writeFile _ (fun s hs => hs.2.survives hformat hpcm)
    (fun s hs => hs.2.at) hriffWritten) fun w => ?_
  refine triple_andThen (triple_seekStart 40 (fun s hs => hs.survives hformat hpcm)
    (fun s hs => hs.at) (fun s hs => ⟨hs.flushed, hs.content_eq, hs.sizes⟩)) fun w => ?_
  have hdataWritten : ∀ s, AtPos (Whole format pcm (36 + pcm.length) data) 40 w s →
      Whole format pcm (36 + pcm.length) pcm.length
        { w with pos := w.pos + (leBytes 4 pcm.length).length }
        (writeAt w.pos (leBytes 4 pcm.length) s) := by
    rintro s ⟨hpos, hs⟩
    have hle : 40 ≤ s.length := by
      rw [hs.content_eq, hlength]
      omega
    have hwritten : writeAt w.pos (leBytes 4 pcm.length) s =
        wavHeader format (36 + pcm.length) pcm.length ++ pcm := by
      rw [hpos, writeAt_of_le hle, hs.content_eq, overwrite_data hformat]
    refine ⟨hs.flushed, hwritten, ?_⟩
    rw [hwritten, hlength]
    exact ⟨hriff, by omega, by omega, Or.inr ⟨by omega, by omega⟩⟩
  refine triple_andThen (triple_writeFile _ (fun s hs => hs.2.survives hformat hpcm)
    (fun s hs => hs.2.at) hdataWritten) fun w => ?_
  exact triple_seekEnd (fun s hs => hs.survives hformat hpcm) (fun s hs => hs.at)
    (fun s hs => ⟨⟨hs.flushed, hs.content_eq, hs.sizes⟩, rfl⟩)

end Calls

/-! ### The recorder -/

/-- The format of a recording. -/
def formatOf (sample_rate : UInt32) (channels : UInt16) : List UInt8 :=
  wavFormat channels.toNat sample_rate.toNat (sample_rate.toNat * channels.toNat * 2)
    (channels.toNat * 2)

/-- What one recording is about: its format, the samples that are handed over, where it
stops, and whether it is to be clean. -/
structure Recording where
  sample_rate : UInt32
  channels : UInt16
  all : List UInt8
  limit : Nat
  clean : Prop
  sample_pos : 1 ≤ sample_rate.toNat
  channel_pos : 1 ≤ channels.toNat
  rate_lt : sample_rate.toNat * channels.toNat * 2 < 2 ^ 32
  limit_le : limit ≤ MAX_DATA_BYTES

namespace Recording

def format (k : Recording) : List UInt8 :=
  formatOf k.sample_rate k.channels

/-- The bytes that hold a second of audio. -/
def second (k : Recording) : Nat :=
  k.sample_rate.toNat * k.channels.toNat * 2

theorem format_length
    (k : Recording) :
    k.format.length = 32 :=
  length_wavFormat _ _ _ _

theorem second_pos
    (k : Recording) :
    0 < k.second :=
  Nat.mul_pos (Nat.mul_pos k.sample_pos k.channel_pos) Nat.two_pos

end Recording

/-- What the recorder keeps in memory, after the samples `pcm` and before `rest`. -/
structure Books (k : Recording) (pcm rest : List UInt8) (r : AudioRecorder) : Prop where
  limit_eq : r.max_data_bytes = k.limit
  sample_rate_eq : r.sample_rate = k.sample_rate
  channels_eq : r.channels = k.channels
  pcm_length : pcm.length = r.data_bytes
  data_le : r.data_bytes ≤ k.limit
  patched_le : r.patched_bytes ≤ r.data_bytes
  samples : pcm <+: k.all
  next : r.is_open = true → pcm ++ rest = k.all
  clean_ok : k.clean → r.poisoned = false

/-- What it has on disk. -/
structure OnDisk (k : Recording) (pcm : List UInt8) (r : AudioRecorder)
    (content : List UInt8) : Prop where
  writing : ∀ w, r.writer = some w → At k.format pcm (r.poisoned = false) w content
  written : r.writer = none → ∃ buf, WavFile k.format pcm buf content
  exact : k.clean → r.writer = none →
    ∃ w, Whole k.format pcm (36 + pcm.length) pcm.length w content

/-- The header is less than a second behind. -/
def Current (r : AudioRecorder) : Prop :=
  r.is_open = true → r.data_bytes - r.patched_bytes < r.second

theorem saturatingMul_of_lt
    {a b : Nat} (h : a * b < 2 ^ 32) :
    saturatingMul a b = a * b :=
  Nat.min_eq_left (by omega)

theorem Books.second_eq
    {k : Recording} {pcm rest : List UInt8} {r : AudioRecorder} (h : Books k pcm rest r) :
    r.second = k.second := by
  have hrate := k.rate_lt
  have hframes : k.sample_rate.toNat * k.channels.toNat < 2 ^ 32 := by omega
  unfold AudioRecorder.second
  rw [h.sample_rate_eq, h.channels_eq, saturatingMul_of_lt hframes, saturatingMul_of_lt hrate]
  rfl

theorem is_open_iff
    (r : AudioRecorder) :
    r.is_open = true ↔ (∃ w, r.writer = some w) ∧ r.poisoned = false := by
  simp [AudioRecorder.is_open, Option.isSome_iff_exists]

section Recorder

variable {k : Recording} {pcm rest : List UInt8}

theorem OnDisk.survives
    {r : AudioRecorder} {content : List UInt8} (h : OnDisk k pcm r content)
    (hpcm : pcm <+: k.all) :
    Survives k.all content := by
  cases hw : r.writer with
  | none =>
      obtain ⟨buf, hfile⟩ := h.written hw
      exact hfile.survives k.format_length hpcm
  | some w => exact (h.writing w hw).survives k.format_length hpcm

/-- What `patch_sizes` can do. -/
def Patched (k : Recording) (pcm : List UInt8) (r r' : AudioRecorder)
    (content : List UInt8) : Prop :=
  (∃ w, r' = { r with writer := some w, patched_bytes := r.data_bytes } ∧
      Whole k.format pcm (36 + pcm.length) pcm.length w content ∧ w.pos = content.length) ∨
    (¬k.clean ∧ ∃ w, r' = { r with writer := some w, poisoned := true } ∧
      At k.format pcm False w content)

theorem patch_sizes_eq
    {r : AudioRecorder} {w : BufWriter} (hw : r.writer = some w) :
    r.patch_sizes = (do
      let riff_size ← fits 32 (36 + r.data_bytes)
      let (ok, w) ← AudioRecorder.writeSizes w riff_size r.data_bytes
      if ok then pure { r with writer := some w, patched_bytes := r.data_bytes }
      else pure { r with writer := some w, poisoned := true }) := by
  unfold AudioRecorder.patch_sizes
  rw [hw]

theorem triple_patch_sizes
    {r : AudioRecorder} {w : BufWriter} (hbooks : Books k pcm rest r)
    (hw : r.writer = some w) :
    Prog.Triple (Allowed k.clean) (OnDisk k pcm r) r.patch_sizes
      (fun r' s => Patched k pcm r r' s) (Survives k.all) := by
  have hmax : pcm.length ≤ MAX_DATA_BYTES :=
    hbooks.pcm_length ▸ hbooks.data_le.trans k.limit_le
  have hriff : 36 + r.data_bytes < 2 ^ 32 := by
    have hle := hbooks.pcm_length ▸ hmax
    unfold MAX_DATA_BYTES at hle
    omega
  have hsizes : Prog.Triple (Allowed k.clean) (At k.format pcm (r.poisoned = false) w) _ _ _ :=
    triple_writeSizes k.format_length hbooks.samples w hmax
  rw [hbooks.pcm_length] at hsizes
  have hfits : Prog.Triple (Allowed k.clean) (OnDisk k pcm r) (fits 32 (36 + r.data_bytes))
      (fun n s => n = 36 + r.data_bytes ∧ At k.format pcm (r.poisoned = false) w s)
      (Survives k.all) :=
    Prog.Triple.checked (fun _ _ => hriff) fun s hs => ⟨rfl, hs.writing w hw⟩
  rw [patch_sizes_eq hw]
  refine hfits.bind fun n => Prog.Triple.of_fact fun hn => ?_
  subst hn
  refine hsizes.bind fun written => ?_
  obtain ⟨ok, w⟩ := written
  unfold Patched
  rw [hbooks.pcm_length]
  cases ok with
  | false =>
      refine Prog.Triple.ret fun s hs => ?_
      rcases hs with ⟨htrue, -⟩ | ⟨-, hclean, hat⟩
      · cases htrue
      · exact Or.inr ⟨hclean, w, rfl, hat⟩
  | true =>
      refine Prog.Triple.ret fun s hs => ?_
      rcases hs with ⟨-, hwhole, hpos⟩ | ⟨hfalse, -⟩
      · exact Or.inl ⟨w, rfl, hwhole, hpos⟩
      · cases hfalse

theorem Patched.books
    {r r' : AudioRecorder} {content : List UInt8} (h : Patched k pcm r r' content)
    {w : BufWriter} (hw : r.writer = some w) (hbooks : Books k pcm rest r) :
    Books k pcm rest r' := by
  rcases h with ⟨w', rfl, -⟩ | ⟨hclean, w', rfl, -⟩
  · refine { hbooks with patched_le := Nat.le_refl _, next := fun hopen => hbooks.next ?_ }
    exact (is_open_iff r).mpr ⟨⟨w, hw⟩, ((is_open_iff _).mp hopen).2⟩
  · exact
      { hbooks with
        next := fun hopen => nomatch hopen
        clean_ok := fun h => absurd h hclean }

theorem Patched.stored
    {r r' : AudioRecorder} {content : List UInt8} (h : Patched k pcm r r' content) :
    OnDisk k pcm r' content := by
  rcases h with ⟨w, rfl, hwhole, hpos⟩ | ⟨hclean, w, rfl, hat⟩
  · refine ⟨fun w' hw' => ?_, fun hnone => (nomatch hnone),
      fun _ hnone => (nomatch hnone)⟩
    obtain rfl := Option.some.inj hw'
    exact ⟨hwhole.at.file, hwhole.at.place, fun _ => hpos⟩
  · refine ⟨fun w' hw' => ?_, fun hnone => (nomatch hnone),
      fun _ hnone => (nomatch hnone)⟩
    obtain rfl := Option.some.inj hw'
    exact ⟨hat.file, hat.place, fun hfalse => nomatch hfalse⟩

theorem Patched.current
    {r r' : AudioRecorder} {content : List UInt8} (h : Patched k pcm r r' content)
    (hbooks : Books k pcm rest r) :
    Current r' := by
  intro hopen
  rcases h with ⟨w, rfl, -⟩ | ⟨-, w, rfl, -⟩
  · have hpos := hbooks.second_eq ▸ k.second_pos
    show r.data_bytes - r.data_bytes < r.second
    rwa [Nat.sub_self]
  · exact nomatch hopen

/-- A recorder without a writer, after whatever comes. -/
theorem Books.closed
    {r : AudioRecorder} (h : Books k pcm rest r) (hnone : r.writer = none)
    (rest' : List UInt8) :
    Books k pcm rest' r := by
  refine { h with next := fun hopen => ?_ }
  obtain ⟨⟨w, hw⟩, -⟩ := (is_open_iff r).mp hopen
  exact nomatch hnone.symm.trans hw

theorem flush_buf_of_flushed
    {w : BufWriter} (h : w.buf = []) :
    w.flush_buf = pure (true, w) := by
  unfold BufWriter.flush_buf
  rw [h]
  rfl

/-- What is on disk after `patch_sizes`, with the writer that it leaves. -/
def Ended (k : Recording) (pcm : List UInt8) (w : BufWriter) (content : List UInt8) : Prop :=
  (∃ w, Whole k.format pcm (36 + pcm.length) pcm.length w content) ∧ w.buf = [] ∨
    ¬k.clean ∧ At k.format pcm False w content

/-- A writer that is dropped flushes its buffer, if it can. -/
theorem triple_drop
    (w : BufWriter) (r : AudioRecorder) (hpcm : pcm <+: k.all) :
    Prog.Triple (Allowed k.clean) (Ended k pcm w) w.flush_buf
      (fun _ s => OnDisk k pcm { r with writer := none } s) (Survives k.all) := by
  by_cases hflushed : w.buf = []
  · rw [flush_buf_of_flushed hflushed]
    refine Prog.Triple.ret fun s hs => ⟨fun _ hw => (nomatch hw), fun _ => ?_, fun hclean _ => ?_⟩
    · rcases hs with ⟨⟨w', hwhole⟩, -⟩ | ⟨-, hat⟩
      · exact ⟨_, hwhole.at.file⟩
      · exact ⟨_, hat.file⟩
    · rcases hs with ⟨hwhole, -⟩ | ⟨hdirty, -⟩
      · exact hwhole
      · exact absurd hclean hdirty
  · have hflush : Prog.Triple (Allowed k.clean)
        (fun s => ¬k.clean ∧ At k.format pcm False w s) w.flush_buf
        (fun _ s => OnDisk k pcm { r with writer := none } s) (Survives k.all) := by
      refine Prog.Triple.of_fact fun hdirty => ?_
      refine (triple_flush_buf k.format_length hpcm w).weaken (fun _ hs => hs) fun x s hs => ?_
      have hat : At k.format pcm False x.2 s := by
        rcases hs with ⟨-, hgood, -⟩ | ⟨-, -, hbad⟩
        · exact hgood
        · exact hbad
      exact ⟨fun _ hw => (nomatch hw), fun _ => ⟨_, hat.file⟩, fun hclean => absurd hclean hdirty⟩
    refine hflush.weaken (fun s hs => ?_) (fun _ _ h => h)
    rcases hs with ⟨-, hbuf⟩ | hdirty
    · exact absurd hbuf hflushed
    · exact hdirty

theorem Patched.ended
    {r r' : AudioRecorder} {content : List UInt8} (h : Patched k pcm r r' content) :
    ∃ w, r'.writer = some w ∧ Ended k pcm w content := by
  rcases h with ⟨w, rfl, hwhole, -⟩ | ⟨hdirty, w, rfl, hat⟩
  · exact ⟨w, rfl, Or.inl ⟨⟨w, hwhole⟩, hwhole.flushed⟩⟩
  · exact ⟨w, rfl, Or.inr ⟨hdirty, hat⟩⟩

/-- The end of `close`: the buffer is emptied, and the file let go. -/
def closeWriter (r : AudioRecorder) : Io AudioRecorder :=
  match r.writer with
  | none => pure r
  | some w => do
      let _ ← w.flush_buf
      pure { r with writer := none }

theorem close_eq
    {r : AudioRecorder} {w : BufWriter} (hw : r.writer = some w) :
    r.close = (do
      let r ← r.patch_sizes
      closeWriter r) := by
  unfold AudioRecorder.close
  rewrite [hw]
  rfl

/-- `close` leaves no writer. -/
theorem triple_close
    {r : AudioRecorder} (hbooks : Books k pcm rest r) (rest' : List UInt8) :
    Prog.Triple (Allowed k.clean) (OnDisk k pcm r) r.close
      (fun r' s => r'.writer = none ∧ Books k pcm rest' r' ∧ OnDisk k pcm r' s)
      (Survives k.all) := by
  cases hw : r.writer with
  | none =>
      have heq : r.close = pure r := by
        unfold AudioRecorder.close
        rw [hw]
      rw [heq]
      exact Prog.Triple.ret fun s hs => ⟨hw, hbooks.closed hw rest', hs⟩
  | some w =>
      rw [close_eq hw]
      refine (triple_patch_sizes hbooks hw).bind fun r' => ?_
      have hended : Prog.Triple (Allowed k.clean)
          (fun s => ∃ w', (r'.writer = some w' ∧ Books k pcm rest r') ∧ Ended k pcm w' s)
          (closeWriter r')
          (fun r' s => r'.writer = none ∧ Books k pcm rest' r' ∧ OnDisk k pcm r' s)
          (Survives k.all) := by
        refine Prog.Triple.of_exists fun w' => Prog.Triple.of_fact fun h => ?_
        obtain ⟨hw', hbooks'⟩ := h
        unfold closeWriter
        rw [hw']
        refine (triple_drop w' r' hbooks.samples).bind fun _ => Prog.Triple.ret fun s hs => ?_
        refine ⟨rfl, { hbooks' with next := fun hopen => ?_ }, hs⟩
        cases hopen
      refine hended.weaken (fun s hs => ?_) (fun _ _ h => h)
      obtain ⟨w', hw', hend⟩ := hs.ended
      exact ⟨w', ⟨hw', hs.books hw hbooks⟩, hend⟩

/-- The blocks that are written while the recorder stays open. -/
theorem triple_writeBlocks
    {r : AudioRecorder} (blocks : List (List UInt8))
    (hbooks : Books k pcm (blocks.flatten ++ rest) r) (hopen : r.is_open = true) :
    Prog.Triple (Allowed k.clean) (OnDisk k pcm r) (r.writeBlocks blocks)
      (fun x s => ∃ pcm', Books k pcm' rest x.2 ∧ OnDisk k pcm' x.2 s ∧
        x.2.is_open = !x.1) (Survives k.all) := by
  induction blocks generalizing r pcm with
  | nil => exact Prog.Triple.ret fun s hs => ⟨pcm, hbooks, hs, hopen⟩
  | cons block blocks ih =>
      obtain ⟨⟨w, hw⟩, hpoisoned⟩ := (is_open_iff r).mp hopen
      have hlimit : r.data_bytes ≤ r.max_data_bytes := hbooks.limit_eq ▸ hbooks.data_le
      have hminus : Prog.Triple (Allowed k.clean) (OnDisk k pcm r)
          (minus r.max_data_bytes r.data_bytes)
          (fun room s => room = r.max_data_bytes - r.data_bytes ∧ OnDisk k pcm r s)
          (Survives k.all) :=
        Prog.Triple.checked (fun _ _ => hlimit) fun s hs => ⟨rfl, hs⟩
      unfold AudioRecorder.writeBlocks
      refine hminus.bind fun room => Prog.Triple.of_fact fun hroom => ?_
      subst hroom
      refine Prog.Triple.ite (fun _ => ?_) (fun hfit => ?_)
      · refine (triple_close hbooks rest).bind fun r' => ?_
        refine Prog.Triple.ret fun s ⟨hnone, hbooks', hstored⟩ => ⟨pcm, hbooks', hstored, ?_⟩
        simp [AudioRecorder.is_open, hnone]
      · rw [hw]
        have hnext := hbooks.next hopen
        rw [List.flatten_cons, List.append_assoc, ← List.append_assoc] at hnext
        have hwrite : Prog.Triple (Allowed k.clean) (OnDisk k pcm r) (w.write_all block) _ _ :=
          (triple_write_all k.format_length hbooks.samples w block).weaken
            (fun s hs => by
              have hat := hs.writing w hw
              exact ⟨hat.file, hat.place, fun _ => hat.live_pos hpoisoned⟩)
            (fun _ _ h => h)
        have hroom : r.data_bytes + block.length ≤ k.limit := by
          rw [hbooks.limit_eq] at hfit
          have hle := hbooks.data_le
          omega
        refine hwrite.bind fun ⟨ok, w'⟩ => ?_
        cases ok with
        | false =>
            refine Prog.Triple.ret fun s hs => ?_
            rcases hs with ⟨htrue, -⟩ | ⟨-, hdirty, hat⟩
            · exact nomatch htrue
            · refine ⟨pcm, ?_, ⟨fun w hw => ?_, fun hnone => (nomatch hnone),
                fun _ hnone => (nomatch hnone)⟩, ?_⟩
              · exact
                  { hbooks with
                    next := fun hfalse => absurd ((is_open_iff _).mp hfalse).2 nofun
                    clean_ok := fun hclean => absurd hclean hdirty }
              · obtain rfl := Option.some.inj hw
                exact ⟨hat.file, hat.place, fun hfalse => nomatch hfalse⟩
              · simp [AudioRecorder.is_open]
        | true =>
            have hfits : Prog.Triple (Allowed k.clean)
                (Tried k.clean (At k.format (pcm ++ block) True) (At k.format pcm True) (true, w'))
                (fits 32 (r.data_bytes + block.length))
                (fun n s => n = r.data_bytes + block.length ∧
                  At k.format (pcm ++ block) True w' s) (Survives k.all) := by
              refine Prog.Triple.checked (fun _ _ => ?_) fun s hs => ⟨rfl, ?_⟩
              · have hmax := hroom.trans k.limit_le
                unfold MAX_DATA_BYTES at hmax
                omega
              · rcases hs with ⟨-, hat⟩ | ⟨hfalse, -⟩
                · exact hat
                · exact nomatch hfalse
            refine hfits.bind fun n => Prog.Triple.of_fact fun hn => ?_
            subst hn
            have hbooks' : Books k (pcm ++ block) (blocks.flatten ++ rest)
                { r with writer := some w', data_bytes := r.data_bytes + block.length } :=
              { limit_eq := hbooks.limit_eq
                sample_rate_eq := hbooks.sample_rate_eq
                channels_eq := hbooks.channels_eq
                pcm_length := by rw [List.length_append, hbooks.pcm_length]
                data_le := hroom
                patched_le := Nat.le_add_right_of_le hbooks.patched_le
                samples := ⟨_, hnext⟩
                next := fun _ => hnext
                clean_ok := hbooks.clean_ok }
            refine (ih hbooks' ((is_open_iff _).mpr ⟨⟨w', rfl⟩, hpoisoned⟩)).weaken
              (fun s hat => ⟨fun w hw => ?_, fun hnone => (nomatch hnone),
                fun _ hnone => (nomatch hnone)⟩) (fun _ _ h => h)
            obtain rfl := Option.some.inj hw
            exact ⟨hat.file, hat.place, fun _ => hat.live_pos trivial⟩

/-- `write_pcm_f32` leaves an open recorder less than a second behind. -/
theorem triple_write_pcm_f32
    {r : AudioRecorder} (samples : List F32)
    (hbooks : Books k pcm (samples.flatMap samplePcm ++ rest) r) (hcurrent : Current r) :
    Prog.Triple (Allowed k.clean) (OnDisk k pcm r) (r.write_pcm_f32 samples)
      (fun r' s => ∃ pcm', Books k pcm' rest r' ∧ OnDisk k pcm' r' s ∧ Current r')
      (Survives k.all) := by
  unfold AudioRecorder.write_pcm_f32
  refine Prog.Triple.ite (fun hskip => ?_) (fun hgo => ?_)
  · refine Prog.Triple.ret fun s hs => ⟨pcm, { hbooks with next := fun hopen => ?_ }, hs, hcurrent⟩
    obtain ⟨⟨w, hw⟩, hpoisoned⟩ := (is_open_iff r).mp hopen
    have hempty : samples = [] := by simpa [hw, hpoisoned] using hskip
    have hnext := hbooks.next hopen
    rwa [hempty] at hnext
  · have hopen : r.is_open = true := by
      simp only [Bool.or_eq_true, not_or, Bool.not_eq_true, Option.isNone_eq_false_iff] at hgo
      simp [AudioRecorder.is_open, hgo.1.1, hgo.2]
    have hchunks : (chunks (CHUNK * 2) (samples.flatMap samplePcm)).flatten =
        samples.flatMap samplePcm := flatten_chunks (by decide) _
    rw [← hchunks] at hbooks
    refine (triple_writeBlocks _ hbooks hopen).bind fun ⟨returned, r'⟩ => ?_
    refine Prog.Triple.of_exists fun pcm' => Prog.Triple.of_fact fun hbooks' => ?_
    cases returned with
    | true =>
        refine Prog.Triple.ret fun s ⟨hstored, hclosed⟩ => ⟨pcm', hbooks', hstored, fun htrue => ?_⟩
        exact nomatch hclosed.symm.trans htrue
    | false =>
        have hminus : Prog.Triple (Allowed k.clean)
            (fun s => OnDisk k pcm' r' s ∧ r'.is_open = !false)
            (minus r'.data_bytes r'.patched_bytes)
            (fun n s => n = r'.data_bytes - r'.patched_bytes ∧ r'.is_open = true ∧
              OnDisk k pcm' r' s) (Survives k.all) :=
          Prog.Triple.checked (fun _ _ => hbooks'.patched_le)
            fun s ⟨hstored, hopen'⟩ => ⟨rfl, hopen', hstored⟩
        refine hminus.bind fun n =>
          Prog.Triple.of_fact fun hn => Prog.Triple.of_fact fun hopen' => ?_
        subst hn
        refine Prog.Triple.ite (fun _ => ?_) (fun hfew => ?_)
        · obtain ⟨⟨w, hw⟩, -⟩ := (is_open_iff r').mp hopen'
          refine (triple_patch_sizes hbooks' hw).weaken (fun _ hs => hs) fun r'' s hs => ?_
          exact ⟨pcm', hs.books hw hbooks', hs.stored, hs.current hbooks'⟩
        · exact Prog.Triple.ret fun s hs =>
            ⟨pcm', hbooks', hs, fun _ => Nat.lt_of_not_le hfew⟩

/-- What a call leaves. -/
def Performed (k : Recording) (rest : List UInt8) (closed : Prop) (r : AudioRecorder)
    (content : List UInt8) : Prop :=
  ∃ pcm, (Books k pcm rest r ∧ Current r ∧ (closed → r.writer = none)) ∧ OnDisk k pcm r content

theorem triple_perform
    {r : AudioRecorder} (call : RecorderCall)
    (hbooks : Books k pcm (call.pcm ++ rest) r) (hcurrent : Current r) :
    Prog.Triple (Allowed k.clean) (OnDisk k pcm r) (call.perform r)
      (Performed k rest (call = .close)) (Survives k.all) := by
  cases call with
  | write_pcm_f32 samples =>
      refine (triple_write_pcm_f32 samples hbooks hcurrent).weaken (fun _ hs => hs)
        fun r' s hs => ?_
      obtain ⟨pcm', hbooks', hstored, hcurrent'⟩ := hs
      exact ⟨pcm', ⟨hbooks', hcurrent', fun hclose => nomatch hclose⟩, hstored⟩
  | close =>
      refine (triple_close hbooks rest).weaken (fun _ hs => hs) fun r' s hs => ?_
      obtain ⟨hnone, hbooks', hstored⟩ := hs
      refine ⟨pcm, ⟨hbooks', fun hopen => ?_, fun _ => hnone⟩, hstored⟩
      obtain ⟨⟨w, hw⟩, -⟩ := (is_open_iff r').mp hopen
      exact nomatch hnone.symm.trans hw

theorem triple_performAll
    {r : AudioRecorder} (calls : List RecorderCall)
    (hbooks : Books k pcm (calls.flatMap RecorderCall.pcm) r) (hcurrent : Current r) :
    Prog.Triple (Allowed k.clean) (OnDisk k pcm r) (RecorderCall.performAll r calls)
      (Performed k [] (calls.getLast? = some .close)) (Survives k.all) := by
  induction calls generalizing r pcm with
  | nil =>
      exact Prog.Triple.ret fun s hs =>
        ⟨pcm, ⟨hbooks, hcurrent, fun hclose => nomatch hclose⟩, hs⟩
  | cons call calls ih =>
      unfold RecorderCall.performAll
      refine (triple_perform call hbooks hcurrent).bind fun r' => ?_
      refine Prog.Triple.of_exists fun pcm' =>
        Prog.Triple.of_fact fun ⟨hbooks', hcurrent', hclosed⟩ => ?_
      cases calls with
      | nil =>
          exact Prog.Triple.ret fun s hs =>
            ⟨pcm', ⟨hbooks', hcurrent', fun hlast => hclosed (Option.some.inj hlast)⟩, hs⟩
      | cons next calls =>
          rw [List.getLast?_cons_cons]
          exact ih hbooks' hcurrent'

end Recorder

/-! ### Recordings -/

/-- The header fits into the buffer of a new writer. -/
theorem write_all_header
    {format : List UInt8} (hformat : format.length = 32) :
    BufWriter.write_all {} (wavHeader format 0 0) =
      pure (true, { buf := wavHeader format 0 0 }) := by
  have hroom : ¬(wavHeader format 0 0).length > BufWriter.CAPACITY - ([] : List UInt8).length := by
    rw [length_wavHeader hformat]
    decide
  unfold BufWriter.write_all
  rw [if_neg hroom]
  rfl

/-- A new recorder has its header in the buffer. -/
def opened (sample_rate : UInt32) (channels : UInt16) : AudioRecorder :=
  { writer := some { buf := wavHeader (formatOf sample_rate channels) 0 0 }
    sample_rate
    channels }

section Record

variable {sample_rate : UInt32} {channels : UInt16}

theorem survives_nil
    (all : List UInt8) :
    Survives all [] :=
  ⟨fun h => (nomatch h), fun h => (nomatch h), List.nil_prefix⟩

theorem triple_write_header
    {clean : Prop} {C : List UInt8 → Prop} (hchannels : channels.toNat ≤ 32767)
    (hrate : sample_rate.toNat * channels.toNat * 2 < 2 ^ 32) :
    Prog.Triple (Allowed clean) (fun s => s = [])
      (AudioRecorder.write_header { writer := some {}, sample_rate, channels })
      (fun x s => x = (true, opened sample_rate channels) ∧ s = []) C := by
  have hfits : ∀ {bits n : Nat}, n < 2 ^ bits →
      Prog.Triple (Allowed clean) (fun s => s = []) (fits bits n)
        (fun m s => m = n ∧ s = []) C :=
    fun hn => Prog.Triple.checked (fun _ _ => hn) fun s hs => ⟨rfl, hs⟩
  unfold AudioRecorder.write_header
  refine (hfits (by dsimp only; omega)).bind fun frames => Prog.Triple.of_fact fun hframes => ?_
  subst hframes
  refine (hfits hrate).bind fun byte_rate => Prog.Triple.of_fact fun hbyte => ?_
  subst hbyte
  refine (hfits (by dsimp only; omega)).bind fun block_align => Prog.Triple.of_fact fun halign => ?_
  subst halign
  dsimp only
  rw [write_all_header (length_wavFormat _ _ _ _)]
  exact Prog.Triple.ret fun s hs => ⟨rfl, hs⟩

theorem triple_open
    {clean : Prop} (all : List UInt8) (hchannels : channels.toNat ≤ 32767)
    (hrate : sample_rate.toNat * channels.toNat * 2 < 2 ^ 32) :
    Prog.Triple (Allowed clean) (fun s => s = []) (AudioRecorder.open sample_rate channels)
      (fun o s => (∀ r, o = some r → r = opened sample_rate channels) ∧ s = [])
      (Survives all) := by
  have hnil : ∀ s : List UInt8, s = [] → Survives all s := fun s hs => hs ▸ survives_nil all
  refine (triple_succeeds hnil).bind fun created => ?_
  cases created with
  | false => exact Prog.Triple.ret fun s ⟨_, hs⟩ => ⟨fun _ hnone => (nomatch hnone), hs⟩
  | true =>
      refine Prog.Triple.bind ((triple_write_header hchannels hrate).weaken
        (fun s ⟨_, hs⟩ => hs) (fun _ _ h => h)) fun x => ?_
      refine Prog.Triple.of_fact fun hx => ?_
      subst hx
      exact Prog.Triple.ret fun s hs => ⟨fun r hr => (Option.some.inj hr).symm, hs⟩

/-- What holds of a recorder after some calls, with the answers that it has got. -/
structure Kept (answers : List IoAnswer) (calls : List RecorderCall) (r : AudioRecorder)
    (content : List UInt8) : Prop where
  data_le : r.data_bytes ≤ r.max_data_bytes
  max_le : r.max_data_bytes ≤ MAX_DATA_BYTES
  /-- An open recorder is less than a second ahead of the header. -/
  behind : r.is_open = true → r.patched_bytes ≤ r.data_bytes ∧
    r.data_bytes - r.patched_bytes < r.sample_rate.toNat * r.channels.toNat * 2
  /-- After a close without I/O errors the header describes the file. -/
  exact : (∀ a ∈ answers, a ≠ .failed) → calls.getLast? = some .close →
    Exact content ∧ dataSize content = r.data_bytes

/-- A recording that has got these calls and answers leaves a good file, and does not
panic. -/
def Sound (answers : List IoAnswer) (calls : List RecorderCall) :
    Exit (Option AudioRecorder) × List IoAnswer × List UInt8 → Prop
  | (.returned (some r), _, content) =>
      Survives (calls.flatMap RecorderCall.pcm) content ∧ Kept answers calls r content
  | (.returned none, _, content) => Survives (calls.flatMap RecorderCall.pcm) content
  | (.killed, _, content) => Survives (calls.flatMap RecorderCall.pcm) content
  | (.panicked, _, _) => False

/-- A recorder that has just been opened. -/
theorem stored_opened
    (k : Recording) :
    OnDisk k [] { opened k.sample_rate k.channels with max_data_bytes := k.limit } [] := by
  refine ⟨fun w hw => ?_, fun hnone => (nomatch hnone), fun _ hnone => (nomatch hnone)⟩
  obtain rfl := Option.some.inj hw
  refine ⟨⟨0, 0, ?_, by decide, by decide, Nat.zero_le _, Or.inl rfl⟩, Or.inr rfl, fun _ => rfl⟩
  rw [List.nil_append, List.append_nil]
  rfl

theorem books_opened
    (k : Recording) :
    Books k [] k.all { opened k.sample_rate k.channels with max_data_bytes := k.limit } where
  limit_eq := rfl
  sample_rate_eq := rfl
  channels_eq := rfl
  pcm_length := rfl
  data_le := Nat.zero_le _
  patched_le := Nat.le_refl _
  samples := List.nil_prefix
  next := fun _ => rfl
  clean_ok := fun _ => rfl

theorem current_opened
    (k : Recording) :
    Current { opened k.sample_rate k.channels with max_data_bytes := k.limit } := by
  intro _
  rw [(books_opened k).second_eq]
  exact k.second_pos

/-- What is left of the calls is what they should leave. -/
theorem Performed.kept
    {k : Recording} {answers : List IoAnswer} {calls : List RecorderCall} {r : AudioRecorder}
    {content : List UInt8} (hclean : (∀ a ∈ answers, a ≠ .failed) → k.clean)
    (h : Performed k [] (calls.getLast? = some .close) r content) :
    Survives k.all content ∧ Kept answers calls r content := by
  obtain ⟨pcm, ⟨hbooks, hcurrent, hclosed⟩, hstored⟩ := h
  refine ⟨hstored.survives hbooks.samples, hbooks.limit_eq ▸ hbooks.data_le,
    hbooks.limit_eq ▸ k.limit_le, fun hopen => ⟨hbooks.patched_le, ?_⟩, fun hanswers hclose => ?_⟩
  · have hbehind := hcurrent hopen
    rw [hbooks.second_eq] at hbehind
    rwa [hbooks.sample_rate_eq, hbooks.channels_eq]
  · obtain ⟨w, hwhole⟩ := hstored.exact (hclean hanswers) (hclosed hclose)
    obtain ⟨hriff, hdata⟩ :=
      sizes_wavHeader k.format_length hwhole.sizes.riff_lt hwhole.sizes.data_lt pcm
    have hlength : content.length = HEADER_LEN + pcm.length := by
      rw [hwhole.content_eq, List.length_append, length_wavHeader k.format_length]
    have hheader : HEADER_LEN = 44 := rfl
    rw [← hwhole.content_eq] at hriff hdata
    exact ⟨⟨by omega, by omega, by omega⟩, hdata.trans hbooks.pcm_length⟩

theorem triple_record
    (k : Recording) {answers : List IoAnswer} {calls : List RecorderCall}
    (hchannels : k.channels.toNat ≤ 32767) (hall : k.all = calls.flatMap RecorderCall.pcm)
    (hclean : (∀ a ∈ answers, a ≠ .failed) → k.clean) :
    Prog.Triple (Allowed k.clean) (fun s => s = [])
      (record k.sample_rate k.channels k.limit calls)
      (fun o s => Survives k.all s ∧ ∀ r, o = some r → Kept answers calls r s)
      (Survives k.all) := by
  refine (triple_open k.all hchannels k.rate_lt).bind fun o => Prog.Triple.of_fact fun ho => ?_
  cases o with
  | none =>
      exact Prog.Triple.ret fun s hs => ⟨hs ▸ survives_nil k.all, fun _ hnone => nomatch hnone⟩
  | some r =>
      obtain rfl := ho r rfl
      have hbooks := hall ▸ books_opened k
      refine Prog.Triple.bind ((triple_performAll calls hbooks (current_opened k)).weaken
        (fun s hs => hs ▸ stored_opened k) (fun _ _ h => h)) fun r => ?_
      refine Prog.Triple.ret fun s hs => ?_
      obtain ⟨hsurvives, hkept⟩ := hs.kept hclean
      exact ⟨hsurvives, fun r' hr => Option.some.inj hr ▸ hkept⟩

/-- **A recording survives a crash**, whatever calls it gets, whatever I/O calls fail and
wherever it is killed. -/
theorem recording_survives
    (sample_rate : UInt32) (channels : UInt16) (limit : Nat) (calls : List RecorderCall)
    (answers : List IoAnswer)
    (hsample : 1 ≤ sample_rate.toNat) (hchannel : 1 ≤ channels.toNat)
    (hchannels : channels.toNat ≤ 32767)
    (hrate : sample_rate.toNat * channels.toNat * 2 < 2 ^ 32)
    (hlimit : limit ≤ MAX_DATA_BYTES) :
    Sound answers calls (record sample_rate channels limit calls answers []) := by
  let k : Recording :=
    { sample_rate, channels, all := calls.flatMap RecorderCall.pcm, limit
      clean := ∀ a ∈ answers, a ≠ .failed
      sample_pos := hsample, channel_pos := hchannel, rate_lt := hrate, limit_le := hlimit }
  have hrun := triple_record k hchannels rfl (fun h => h) answers []
    (fun a ha hclean => hclean a ha) rfl
  have hrecord : record k.sample_rate k.channels k.limit calls answers [] =
      record sample_rate channels limit calls answers [] := rfl
  revert hrun
  rw [hrecord]
  rcases record sample_rate channels limit calls answers [] with ⟨exit, rest, content⟩
  cases exit with
  | returned o =>
      rintro ⟨-, hsurvives, hkept⟩
      cases o with
      | none => exact hsurvives
      | some r => exact ⟨hsurvives, hkept r rfl⟩
  | killed => exact id
  | panicked => exact id

/-- Two samples and a close; the header goes into the file in two writes. -/
theorem recording_survives_closed :
    Sound (.done 20 :: List.replicate 10 (.done 64)) [.write_pcm_f32 [f32 1 2, f32 1 1], .close]
      (record 1 2 MAX_DATA_BYTES [.write_pcm_f32 [f32 1 2, f32 1 1], .close]
        (.done 20 :: List.replicate 10 (.done 64)) []) :=
  recording_survives 1 2 MAX_DATA_BYTES _ _ (by decide) (by decide) (by decide) (by decide)
    (Nat.le_refl _)

end Record

end Engine
end FocusVision
