import FocusVision.Client.AudioTimeline

/-!
# The jitter buffer

What goes to the stream are the decoded samples in their order.  Where the stream takes
too few of them, the oldest ones are dropped: what waits are always the newest samples,
and no more than those of 100 ms.
-/

namespace FocusVision
namespace Client
namespace AudioPlayer

variable {D : Type}

/-! ### The samples of a call -/

/-- The samples of some concealed packets; an error ends them. -/
def concealedSamples (opus : OpusDecode D) : D → Nat → List Int16 × D
  | decoder, 0 => ([], decoder)
  | decoder, packets + 1 =>
      match opus decoder none with
      | (none, decoder) => ([], decoder)
      | (some decoded, decoder) =>
          let (more, decoder) := concealedSamples opus decoder packets
          (decoded ++ more, decoder)

/-- The samples of a call, and the decoder after it. -/
def callSamples (opus : OpusDecode D) (decoder : D) : PlayerCall → List Int16 × D
  | .concealLoss packets => concealedSamples opus decoder packets
  | .submitOpusPacket data =>
      ((opus decoder (some data)).1.getD [], (opus decoder (some data)).2)

/-- The samples of all calls. -/
def decodedSamples (opus : OpusDecode D) (decoder : D) (calls : List PlayerCall) : List Int16 :=
  (Run.outputs (callSamples opus) decoder calls).flatten

/-- A packet has at most `FRAME_SIZE` samples a channel: that is all the room there is. -/
def DecodesFrames (opus : OpusDecode D) (channels : Nat) : Prop :=
  ∀ decoder input decoded, (opus decoder input).1 = some decoded →
    decoded.length ≤ FRAME_SIZE * channels

/-! ### What a call does to the buffer -/

/-- Behind `written`, the newest of the samples that were `heard` wait. -/
structure Buffered (heard written : List Int16) (p : AudioPlayer D) : Prop where
  in_order : (written ++ p.m_pcmBuffer).Sublist heard
  newest : p.m_pcmBuffer <:+ heard
  bounded : p.m_pcmBuffer.length ≤ p.maxSamples

/-- The player with another decoder and other samples waiting. -/
def withBuffer (p : AudioPlayer D) (m_opusDecoder : D) (m_pcmBuffer : List Int16) :
    AudioPlayer D :=
  { p with m_opusDecoder, m_pcmBuffer }

/-- The oldest samples give way. -/
theorem appendDecoded_eq
    {p : AudioPlayer D} {decoded : List Int16} (hdecoded : decoded.length ≤ p.maxSamples) :
    p.appendDecoded decoded =
      p.withBuffer p.m_opusDecoder ((p.m_pcmBuffer ++ decoded).drop
        (p.m_pcmBuffer.length + decoded.length - p.maxSamples)) := by
  unfold appendDecoded
  simp only
  split_ifs with hfull hexcess
  · rw [List.drop_append_of_le_length hexcess.2]
    rfl
  · omega
  · have hnone : p.m_pcmBuffer.length + decoded.length - p.maxSamples = 0 := by omega
    rw [hnone, List.drop_zero]
    rfl

theorem Buffered.append
    {heard written : List Int16} {p : AudioPlayer D} (h : Buffered heard written p)
    {decoded : List Int16} (hdecoded : decoded.length ≤ p.maxSamples) :
    Buffered (heard ++ decoded) written (p.appendDecoded decoded) := by
  rw [appendDecoded_eq hdecoded]
  refine ⟨?_, ?_, ?_⟩
  · have hdrop := (List.drop_sublist (p.m_pcmBuffer.length + decoded.length - p.maxSamples)
      (p.m_pcmBuffer ++ decoded)).append_left written
    rw [← List.append_assoc] at hdrop
    exact hdrop.trans (h.in_order.append_right decoded)
  · obtain ⟨older, rfl⟩ := h.newest
    refine (List.drop_suffix _ _).trans ⟨older, ?_⟩
    rw [List.append_assoc]
  · change (List.drop _ _).length ≤ p.maxSamples
    rw [List.length_drop, List.length_append]
    omega

/-- What a call leaves as it was, and what it does to the decoder. -/
structure Hears (opus : OpusDecode D) (heard written : List Int16) (p : AudioPlayer D)
    (samples : List Int16 × D) (p' : AudioPlayer D) : Prop where
  buffered : Buffered (heard ++ samples.1) written p'
  decoder_eq : p'.m_opusDecoder = samples.2
  rate_eq : p'.m_sampleRate = p.m_sampleRate
  channels_eq : p'.m_channels = p.m_channels
  /-- Nothing is dropped while there is room for all of the samples. -/
  kept : p.m_pcmBuffer.length + samples.1.length ≤ p.maxSamples →
    p'.m_pcmBuffer = p.m_pcmBuffer ++ samples.1

theorem appendDecoded_hears
    (opus : OpusDecode D) {heard written : List Int16} {p : AudioPlayer D}
    (h : Buffered heard written p) {decoded : List Int16}
    (hdecoded : decoded.length ≤ p.maxSamples) (decoder : D) :
    Hears opus heard written p (decoded, decoder)
      ({ p with m_opusDecoder := decoder }.appendDecoded decoded) := by
  have hsame : Buffered heard written { p with m_opusDecoder := decoder } :=
    ⟨h.in_order, h.newest, h.bounded⟩
  have happend := @appendDecoded_eq D { p with m_opusDecoder := decoder } decoded hdecoded
  refine ⟨hsame.append hdecoded, ?_, ?_, ?_, fun hroom => ?_⟩
  · rw [happend]
    rfl
  · rw [happend]
    rfl
  · rw [happend]
    rfl
  · have hnone : p.m_pcmBuffer.length + decoded.length - p.maxSamples = 0 := by
      simp only at hroom
      omega
    rw [happend]
    change List.drop (p.m_pcmBuffer.length + decoded.length - p.maxSamples) _ = _
    rw [hnone, List.drop_zero]

theorem Hears.maxSamples_eq
    {opus : OpusDecode D} {heard written : List Int16} {p p' : AudioPlayer D}
    {samples : List Int16 × D} (h : Hears opus heard written p samples p') :
    p'.maxSamples = p.maxSamples := by
  rw [maxSamples, maxSamples, h.rate_eq, h.channels_eq]

/-- Nothing to hear: only the decoder has changed. -/
theorem hears_nothing
    (opus : OpusDecode D) {heard written : List Int16} {p : AudioPlayer D}
    (h : Buffered heard written p) (decoder : D) :
    Hears opus heard written p ([], decoder) { p with m_opusDecoder := decoder } := by
  refine ⟨⟨?_, ?_, h.bounded⟩, rfl, rfl, rfl, fun _ => (List.append_nil _).symm⟩
  · rw [List.append_nil]
    exact h.in_order
  · rw [List.append_nil]
    exact h.newest

/-- One after the other. -/
theorem Hears.trans
    {opus : OpusDecode D} {heard written first second : List Int16} {p p' p'' : AudioPlayer D}
    {d d' : D} (h : Hears opus heard written p (first, d) p')
    (h' : Hears opus (heard ++ first) written p' (second, d') p'') :
    Hears opus heard written p (first ++ second, d') p'' := by
  refine ⟨?_, h'.decoder_eq, h'.rate_eq.trans h.rate_eq, h'.channels_eq.trans h.channels_eq,
    fun hroom => ?_⟩
  · have hbuffered := h'.buffered
    rw [List.append_assoc] at hbuffered
    exact hbuffered
  · have hmax := h.maxSamples_eq
    simp only [List.length_append] at hroom
    have hfirst := h.kept (by simp only; omega)
    have hsecond := h'.kept (by
      rw [hfirst, hmax, List.length_append]
      simp only
      omega)
    rw [hsecond, hfirst, List.append_assoc]

section Calls

variable {opus : OpusDecode D} {heard written : List Int16} {p : AudioPlayer D}

theorem concealLoss_hears
    (h : Buffered heard written p) (hopus : DecodesFrames opus p.m_channels)
    (hroom : FRAME_SIZE * p.m_channels ≤ p.maxSamples) (packets : Nat) :
    Hears opus heard written p (concealedSamples opus p.m_opusDecoder packets)
      (p.concealLoss opus packets) := by
  induction packets generalizing p heard with
  | zero => exact hears_nothing opus h p.m_opusDecoder
  | succ packets ih =>
      unfold concealLoss concealedSamples
      rcases hdecode : opus p.m_opusDecoder none with ⟨_ | decoded, decoder⟩
      · exact hears_nothing opus h decoder
      · have hlength := hopus p.m_opusDecoder none decoded (by rw [hdecode])
        have hfirst := appendDecoded_hears opus h (Nat.le_trans hlength hroom) decoder
        have hrest := ih hfirst.buffered (by rw [hfirst.channels_eq]; exact hopus)
          (by rw [hfirst.channels_eq, hfirst.maxSamples_eq]; exact hroom)
        rw [hfirst.decoder_eq] at hrest
        exact hfirst.trans hrest

theorem submitOpusPacket_hears
    (h : Buffered heard written p) (hopus : DecodesFrames opus p.m_channels)
    (hroom : FRAME_SIZE * p.m_channels ≤ p.maxSamples) (data : List UInt8) :
    Hears opus heard written p (callSamples opus p.m_opusDecoder (.submitOpusPacket data))
      (p.submitOpusPacket opus data).2 := by
  simp only [submitOpusPacket, callSamples]
  rcases hdecode : opus p.m_opusDecoder (some data) with ⟨_ | decoded, decoder⟩
  · exact hears_nothing opus h decoder
  · have hlength := hopus p.m_opusDecoder (some data) decoded (by rw [hdecode])
    exact appendDecoded_hears opus h (Nat.le_trans hlength hroom) decoder

theorem call_hears
    (h : Buffered heard written p) (hopus : DecodesFrames opus p.m_channels)
    (hroom : FRAME_SIZE * p.m_channels ≤ p.maxSamples) (call : PlayerCall) :
    Hears opus heard written p (callSamples opus p.m_opusDecoder call) (p.call opus call) := by
  cases call with
  | concealLoss packets => exact concealLoss_hears h hopus hroom packets
  | submitOpusPacket data => exact submitOpusPacket_hears h hopus hroom data

theorem calls_hear
    (h : Buffered heard written p) (hopus : DecodesFrames opus p.m_channels)
    (hroom : FRAME_SIZE * p.m_channels ≤ p.maxSamples) (calls : List PlayerCall) :
    Hears opus heard written p
      (decodedSamples opus p.m_opusDecoder calls,
        Run.final (callSamples opus) p.m_opusDecoder calls)
      (calls.foldl (AudioPlayer.call opus) p) := by
  induction calls generalizing p heard with
  | nil => exact hears_nothing opus h p.m_opusDecoder
  | cons call calls ih =>
      have hfirst := call_hears h hopus hroom call
      have hrest := ih hfirst.buffered (by rw [hfirst.channels_eq]; exact hopus)
        (by rw [hfirst.channels_eq, hfirst.maxSamples_eq]; exact hroom)
      rw [hfirst.decoder_eq] at hrest
      exact hfirst.trans hrest

/-- Writing takes samples from the front. -/
theorem pump_spec
    (p : AudioPlayer D) (answer : WriteAnswer) :
    ∃ samples, p.pump answer = (p.m_pcmBuffer.take samples,
      p.withBuffer p.m_opusDecoder (p.m_pcmBuffer.drop samples)) := by
  unfold pump
  split_ifs with hempty
  · exact ⟨0, rfl⟩
  · cases answer with
    | failed => exact ⟨0, rfl⟩
    | room frames => exact ⟨min frames (p.m_pcmBuffer.length / p.m_channels) * p.m_channels, rfl⟩

theorem Buffered.pump
    (h : Buffered heard written p) (answer : WriteAnswer) :
    Buffered heard (written ++ (p.pump answer).1) (p.pump answer).2 := by
  obtain ⟨samples, hpump⟩ := pump_spec p answer
  rw [hpump]
  refine ⟨?_, (List.drop_suffix _ _).trans h.newest, ?_⟩
  · change (written ++ List.take _ _ ++ List.drop _ _).Sublist heard
    rw [List.append_assoc, List.take_append_drop]
    exact h.in_order
  · exact Nat.le_trans (List.drop_sublist _ _).length_le h.bounded

end Calls

theorem decodedSamples_append
    (opus : OpusDecode D) (decoder : D) (calls more : List PlayerCall) :
    decodedSamples opus decoder (calls ++ more) =
      decodedSamples opus decoder calls ++
        decodedSamples opus (Run.final (callSamples opus) decoder calls) more := by
  unfold decodedSamples
  rw [Run.outputs_append, List.flatten_append]

end AudioPlayer

/-! ### A run -/

namespace AudioClient

open AudioPlayer

variable {D : Type}

/-- All samples that went to the stream. -/
def writtenIn (outputs : List AudioOutput) : List Int16 :=
  outputs.flatMap AudioOutput.written

/-- The samples that the calls of a step decode. -/
def stepSamples (opus : OpusDecode D) (c : AudioClient D) (ev : AudioEvent) : List Int16 :=
  decodedSamples opus c.m_audioPlayer.m_opusDecoder (c.step opus ev).1.calls

/-- There is room for all samples that a step decodes. -/
def HasRoom (opus : OpusDecode D) (c : AudioClient D) (ev : AudioEvent) : Prop :=
  c.m_audioPlayer.m_pcmBuffer.length + (c.stepSamples opus ev).length ≤
    c.m_audioPlayer.maxSamples

/-- What a step does to the player, and what went to the stream. -/
structure Plays (opus : OpusDecode D) (heard written : List Int16) (c : AudioClient D)
    (ev : AudioEvent) (out : AudioOutput) (p' : AudioPlayer D) : Prop where
  buffered : Buffered (heard ++ c.stepSamples opus ev) (written ++ out.written) p'
  decoder_eq : p'.m_opusDecoder =
    Run.final (callSamples opus) c.m_audioPlayer.m_opusDecoder (c.step opus ev).1.calls
  rate_eq : p'.m_sampleRate = c.m_audioPlayer.m_sampleRate
  channels_eq : p'.m_channels = c.m_audioPlayer.m_channels
  kept : HasRoom opus c ev →
    out.written ++ p'.m_pcmBuffer = c.m_audioPlayer.m_pcmBuffer ++ c.stepSamples opus ev

theorem step_plays
    {opus : OpusDecode D} {heard written : List Int16} {c : AudioClient D}
    (h : Buffered heard written c.m_audioPlayer)
    (hopus : DecodesFrames opus c.m_audioPlayer.m_channels)
    (hroom : FRAME_SIZE * c.m_audioPlayer.m_channels ≤ c.m_audioPlayer.maxSamples)
    (ev : AudioEvent) :
    Plays opus heard written c ev (c.step opus ev).1 (c.step opus ev).2.m_audioPlayer := by
  cases ev with
  | arrived datagram =>
      have hnothing := hears_nothing opus h c.m_audioPlayer.m_opusDecoder
      refine ⟨?_, rfl, rfl, rfl, fun _ => (List.append_nil _).symm⟩
      change Buffered _ (written ++ []) _
      rw [List.append_nil]
      exact hnothing.buffered
  | rendered answer =>
      have hears := calls_hear h hopus hroom (readAudio c.m_audioSequence c.m_audioReceiver).1
      obtain ⟨samples, hpump⟩ := pump_spec
        ((readAudio c.m_audioSequence c.m_audioReceiver).1.foldl (AudioPlayer.call opus)
          c.m_audioPlayer) answer
      have hplayer : (c.step opus (.rendered answer)).2.m_audioPlayer =
          (((readAudio c.m_audioSequence c.m_audioReceiver).1.foldl (AudioPlayer.call opus)
            c.m_audioPlayer).pump answer).2 := rfl
      have hwritten : (c.step opus (.rendered answer)).1.written =
          (((readAudio c.m_audioSequence c.m_audioReceiver).1.foldl (AudioPlayer.call opus)
            c.m_audioPlayer).pump answer).1 := rfl
      refine ⟨?_, ?_, ?_, ?_, fun hfits => ?_⟩
      · rw [hplayer, hwritten]
        exact hears.buffered.pump answer
      · rw [hplayer, hpump]
        exact hears.decoder_eq
      · rw [hplayer, hpump]
        exact hears.rate_eq
      · rw [hplayer, hpump]
        exact hears.channels_eq
      · rw [hplayer, hwritten, hpump]
        have hkept := hears.kept hfits
        exact (List.take_append_drop samples _).trans hkept

theorem run_plays
    {opus : OpusDecode D} {heard written : List Int16} {c : AudioClient D}
    (h : Buffered heard written c.m_audioPlayer)
    (hopus : DecodesFrames opus c.m_audioPlayer.m_channels)
    (hroom : FRAME_SIZE * c.m_audioPlayer.m_channels ≤ c.m_audioPlayer.maxSamples)
    (evs : List AudioEvent) :
    let outputs := Run.outputs (step opus) c evs
    let samples := decodedSamples opus c.m_audioPlayer.m_opusDecoder (callsOf outputs)
    let p := (Run.final (step opus) c evs).m_audioPlayer
    Buffered (heard ++ samples) (written ++ writtenIn outputs) p ∧
      p.maxSamples = c.m_audioPlayer.maxSamples ∧
      (Run.Along (step opus) (HasRoom opus) c evs →
        writtenIn outputs ++ p.m_pcmBuffer = c.m_audioPlayer.m_pcmBuffer ++ samples) := by
  induction evs generalizing c heard written with
  | nil =>
      refine ⟨?_, rfl, fun _ => (List.append_nil _).symm⟩
      change Buffered (heard ++ []) (written ++ []) _
      rw [List.append_nil, List.append_nil]
      exact h
  | cons ev evs ih =>
      have hfirst := step_plays h hopus hroom ev
      have hmax : (c.step opus ev).2.m_audioPlayer.maxSamples = c.m_audioPlayer.maxSamples := by
        rw [maxSamples, maxSamples, hfirst.rate_eq, hfirst.channels_eq]
      obtain ⟨hbuffered, hlimit, hkept⟩ := ih hfirst.buffered
        (by rw [hfirst.channels_eq]; exact hopus)
        (by rw [hfirst.channels_eq, hmax]; exact hroom)
      have hsamples : decodedSamples opus c.m_audioPlayer.m_opusDecoder
          (callsOf (Run.outputs (step opus) c (ev :: evs))) =
          c.stepSamples opus ev ++
            decodedSamples opus (c.step opus ev).2.m_audioPlayer.m_opusDecoder
              (callsOf (Run.outputs (step opus) (c.step opus ev).2 evs)) := by
        rw [Run.outputs_cons, callsOf, List.flatMap_cons, decodedSamples_append, hfirst.decoder_eq]
        rfl
      have hwritten : writtenIn (Run.outputs (step opus) c (ev :: evs)) =
          (c.step opus ev).1.written ++
            writtenIn (Run.outputs (step opus) (c.step opus ev).2 evs) :=
        List.flatMap_cons
      intro outputs samples p
      refine ⟨?_, hlimit.trans hmax, fun hrooms => ?_⟩
      · change Buffered (heard ++ decodedSamples _ _ _) (written ++ writtenIn _) _
        rw [hsamples, hwritten, ← List.append_assoc, ← List.append_assoc]
        exact hbuffered
      · change writtenIn _ ++ _ = _ ++ decodedSamples _ _ _
        rw [hsamples, hwritten, List.append_assoc, ← List.append_assoc _ (c.stepSamples opus ev),
          ← hfirst.kept hrooms.1, List.append_assoc]
        exact congrArg _ (hkept hrooms.2)

/--
**The jitter buffer.**  Whatever comes in and whatever the stream has room for: the samples
that went to the stream, and behind them those that wait, are in the order in which they
were decoded; the ones that wait are the newest, and no more than 100 ms.  Nothing is
dropped in a run where there is always room for the samples of a step.
-/
theorem jitter_buffer
    (opus : OpusDecode D) (c : AudioClient D) (evs : List AudioEvent)
    (hopus : DecodesFrames opus c.m_audioPlayer.m_channels)
    (hroom : FRAME_SIZE * c.m_audioPlayer.m_channels ≤ c.m_audioPlayer.maxSamples)
    (hbounded : c.m_audioPlayer.m_pcmBuffer.length ≤ c.m_audioPlayer.maxSamples) :
    let outputs := Run.outputs (step opus) c evs
    let heard := c.m_audioPlayer.m_pcmBuffer ++
      decodedSamples opus c.m_audioPlayer.m_opusDecoder (callsOf outputs)
    let waiting := (Run.final (step opus) c evs).m_audioPlayer.m_pcmBuffer
    (writtenIn outputs ++ waiting).Sublist heard ∧ waiting <:+ heard ∧
      waiting.length ≤ c.m_audioPlayer.maxSamples ∧
      (Run.Along (step opus) (HasRoom opus) c evs → writtenIn outputs ++ waiting = heard) := by
  intro outputs heard waiting
  have hstart : Buffered c.m_audioPlayer.m_pcmBuffer [] c.m_audioPlayer :=
    ⟨List.Sublist.refl _, List.suffix_refl _, hbounded⟩
  obtain ⟨hbuffered, hlimit, hkept⟩ := run_plays hstart hopus hroom evs
  refine ⟨hbuffered.in_order, hbuffered.newest, ?_, hkept⟩
  rw [← hlimit]
  exact hbuffered.bounded

/-- A buffer with room for half a packet more; the oldest 360 samples are dropped. -/
theorem jitter_buffer_overflow :
    let c : AudioClient Unit :=
      { m_audioPlayer := { m_opusDecoder := (), m_pcmBuffer := List.replicate 9000 1 } }
    let outputs := Run.outputs (step silentDecode) c reordered
    let heard := List.replicate 9000 1 ++ decodedSamples silentDecode () (callsOf outputs)
    let waiting := (Run.final (step silentDecode) c reordered).m_audioPlayer.m_pcmBuffer
    (writtenIn outputs ++ waiting).Sublist heard ∧ waiting <:+ heard ∧
      waiting.length ≤ 9600 ∧ (writtenIn outputs).length + waiting.length + 360 ≤ heard.length := by
  intro c outputs heard waiting
  have hopus : DecodesFrames silentDecode 2 := by
    intro decoder input decoded hdecoded
    cases hdecoded
    rw [List.length_replicate]
    decide
  have hlength : c.m_audioPlayer.m_pcmBuffer.length = 9000 := List.length_replicate
  have hmax : c.m_audioPlayer.maxSamples = 9600 := by decide
  have hbuffer := jitter_buffer silentDecode c reordered hopus (by decide)
    (by rw [hlength, hmax]; decide)
  rw [hmax] at hbuffer
  exact ⟨hbuffer.1, hbuffer.2.1, hbuffer.2.2.1, by decide +kernel⟩

end AudioClient
end Client
end FocusVision
