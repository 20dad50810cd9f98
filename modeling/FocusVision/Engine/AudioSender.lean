import FocusVision.Engine.AudioRecorder
import FocusVision.Engine.Rtp
import FocusVision.Lib.Framing

/-!
# The audio sender

The `audio-encoder` task of the engine's `spawn_audio_pipeline`: chunks of captured
samples are cut into frames of 10 ms, each frame is encoded and sent as one RTP packet.
The Opus library is a parameter.  Left out: the choice of the source, the tap of the
recorder, and errors of the socket, after which the task goes on as after a packet
that was sent.

What is sent does not depend on the cutting of the samples into chunks, and the packets
are numbered without gaps.
-/

namespace FocusVision
namespace Engine

open Bytes

variable {E : Type}

def OPUS_FRAME_SAMPLES : Nat := 480
def STEREO_FRAME_SIZE : Nat := OPUS_FRAME_SAMPLES * 2

/-- `encode` of the Opus library, from the state of its encoder: a packet, or an error. -/
abbrev OpusEncode (E : Type) := E → List Int16 → Option (List UInt8) × E

/-- `AudioEncoder::encode`. -/
def audioEncode (opus : OpusEncode E) (encoder : E) (pcm : List F32) :
    Option (List UInt8) × E :=
  opus encoder (pcm.map sampleI16)

/-- What the task keeps between two chunks. -/
structure AudioTask (E : Type) where
  encoder : E
  sequence : UInt16 := 0
  timestamp : UInt32 := 0
  accum : List F32 := []

/-- `"AUDI"`. -/
def AUDIO_SSRC : UInt32 := 0x41554449

/-- The packet of a frame. -/
def audioPacket (sequence : UInt16) (timestamp : UInt32) (opusData : List UInt8) : Packet :=
  writeRtpHeader 111 true sequence timestamp AUDIO_SSRC ++ opusData

namespace AudioTask

/-- Encode one frame and send it; a frame that cannot be encoded is skipped. -/
def sendFrame (opus : OpusEncode E) (t : AudioTask E) (pcmFrame : List F32) :
    List Packet × AudioTask E :=
  match audioEncode opus t.encoder pcmFrame with
  | (none, encoder) => ([], { t with encoder })
  | (some opusData, encoder) =>
      ([audioPacket t.sequence t.timestamp opusData],
        { t with encoder, sequence := t.sequence + 1, timestamp := t.timestamp + 480 })

@[simp] theorem accum_sendFrame
    (opus : OpusEncode E) (t : AudioTask E) (pcmFrame : List F32) :
    (t.sendFrame opus pcmFrame).2.accum = t.accum := by
  unfold sendFrame
  split <;> rfl

/-- The loop over the complete frames in `accum`. -/
def sendFrames (opus : OpusEncode E) (t : AudioTask E) : List Packet × AudioTask E :=
  if t.accum.length ≥ STEREO_FRAME_SIZE then
    let pcmFrame := t.accum.take STEREO_FRAME_SIZE
    let sent := { t with accum := t.accum.drop STEREO_FRAME_SIZE }.sendFrame opus pcmFrame
    let rest := sent.2.sendFrames opus
    (sent.1 ++ rest.1, rest.2)
  else ([], t)
termination_by t.accum.length
decreasing_by
  simp only [accum_sendFrame, List.length_drop, STEREO_FRAME_SIZE, OPUS_FRAME_SAMPLES] at *
  omega

/-- A chunk from the capture. -/
def onChunk (opus : OpusEncode E) (t : AudioTask E) (chunk : List F32) :
    List Packet × AudioTask E :=
  { t with accum := t.accum ++ chunk }.sendFrames opus

/-- The packets that a capture makes a fresh task send. -/
def sentPackets (opus : OpusEncode E) (encoder : E) (chunks : List (List F32)) :
    List Packet :=
  (Run.outputs (onChunk opus) { encoder } chunks).flatten

end AudioTask

/-! ### Frames of the captured samples -/

/-- The complete frames of 10 ms. -/
def opusFrames (samples : List F32) : List (List F32) :=
  (List.range (samples.length / STEREO_FRAME_SIZE)).map fun i =>
    (samples.drop (i * STEREO_FRAME_SIZE)).take STEREO_FRAME_SIZE

/-- The frames come off the front of `accum`. -/
def pcmFramer : Framer F32 (List F32) Empty where
  take xs :=
    if xs.length ≥ STEREO_FRAME_SIZE then
      (.ok (some (xs.take STEREO_FRAME_SIZE)), xs.drop STEREO_FRAME_SIZE)
    else (.ok none, xs)
  shrinks := by
    intro xs m rest h
    split_ifs at h with hlen
    · cases h
      simp only [List.length_drop, STEREO_FRAME_SIZE, OPUS_FRAME_SAMPLES] at *
      omega
    · cases h
  message_append := by
    intro xs m rest h ys
    split_ifs at h with hlen
    · cases h
      have hmore : (xs ++ ys).length ≥ STEREO_FRAME_SIZE := by
        rw [List.length_append]
        omega
      rw [if_pos hmore, List.take_append_of_le_length hlen, List.drop_append_of_le_length hlen]
    · cases h
  error_append := by
    intro xs e rest h
    exact e.elim
  none_append := by
    intro xs rest h ys
    split_ifs at h with hlen
    · cases h
    · cases h
      rfl

theorem take_pcmFramer_frame
    {xs : List F32} (h : xs.length ≥ STEREO_FRAME_SIZE) :
    pcmFramer.take xs =
      (.ok (some (xs.take STEREO_FRAME_SIZE)), xs.drop STEREO_FRAME_SIZE) :=
  if_pos h

theorem take_pcmFramer_none
    {xs : List F32} (h : ¬xs.length ≥ STEREO_FRAME_SIZE) :
    pcmFramer.take xs = (.ok none, xs) :=
  if_neg h

theorem frameCount_frame
    {samples : List F32} (h : samples.length ≥ STEREO_FRAME_SIZE) :
    samples.length / STEREO_FRAME_SIZE =
      (samples.drop STEREO_FRAME_SIZE).length / STEREO_FRAME_SIZE + 1 := by
  rw [List.length_drop]
  exact Nat.div_eq_sub_div (by decide) h

theorem opusFrames_frame
    {samples : List F32} (h : samples.length ≥ STEREO_FRAME_SIZE) :
    opusFrames samples =
      samples.take STEREO_FRAME_SIZE :: opusFrames (samples.drop STEREO_FRAME_SIZE) := by
  unfold opusFrames
  rw [frameCount_frame h, List.range_succ_eq_map, List.map_cons, List.map_map]
  refine congrArg₂ List.cons ?_ (List.map_congr_left fun i _ => ?_)
  · rw [Nat.zero_mul, List.drop_zero]
  · rw [Function.comp_apply, List.drop_drop, Nat.succ_mul, Nat.add_comm]

theorem opusFrames_none
    {samples : List F32} (h : ¬samples.length ≥ STEREO_FRAME_SIZE) :
    opusFrames samples = [] := by
  rw [opusFrames, Nat.div_eq_of_lt (Nat.not_le.mp h)]
  rfl

/-- Draining gives the complete frames, and leaves the samples behind them. -/
theorem drain_pcmFramer
    (samples : List F32) :
    pcmFramer.drain samples =
      ⟨opusFrames samples, none,
        samples.drop (samples.length / STEREO_FRAME_SIZE * STEREO_FRAME_SIZE)⟩ := by
  induction samples using pcmFramer.drain_induction with
  | hmessage xs m rest htake ih =>
      by_cases h : xs.length ≥ STEREO_FRAME_SIZE
      · rw [take_pcmFramer_frame h] at htake
        cases htake
        rw [Framer.drain_message (take_pcmFramer_frame h), ih, opusFrames_frame h,
          List.drop_drop, frameCount_frame h, Nat.succ_mul, Nat.add_comm STEREO_FRAME_SIZE]
        rfl
      · rw [take_pcmFramer_none h] at htake
        cases htake
  | hnone xs rest htake =>
      by_cases h : xs.length ≥ STEREO_FRAME_SIZE
      · rw [take_pcmFramer_frame h] at htake
        cases htake
      · rw [Framer.drain_none (take_pcmFramer_none h), opusFrames_none h,
          Nat.div_eq_of_lt (Nat.not_le.mp h), Nat.zero_mul, List.drop_zero]
  | herror xs e rest htake => exact e.elim

/-! ### Packets of a capture -/

/-- The packets of the encoder, without the frames that it cannot encode. -/
def opusPayloads (opus : OpusEncode E) : E → List (List F32) → List (List UInt8)
  | _, [] => []
  | encoder, pcmFrame :: pcmFrames =>
      (audioEncode opus encoder pcmFrame).1.toList ++
        opusPayloads opus (audioEncode opus encoder pcmFrame).2 pcmFrames

/-- Packet `i` of a session. -/
def audioPacketAt (i : Nat) (opusData : List UInt8) : Packet :=
  audioPacket (UInt16.ofNat i) (UInt32.ofNat (480 * i)) opusData

/-- The number and the timestamp in the RTP header of a packet. -/
def rtpNumbers (packet : Packet) : Nat × Nat :=
  (ofLeBytes ((packet.drop 2).take 2).reverse, ofLeBytes ((packet.drop 4).take 4).reverse)

theorem rtpNumbers_audioPacketAt
    (i : Nat) (opusData : List UInt8) :
    rtpNumbers (audioPacketAt i opusData) = (i % 2 ^ 16, 480 * i % 2 ^ 32) := by
  have hsequence : (UInt16.ofNat i).toNat < 256 ^ 2 := (UInt16.ofNat i).toNat_lt
  have htimestamp : (UInt32.ofNat (480 * i)).toNat < 256 ^ 4 := (UInt32.ofNat (480 * i)).toNat_lt
  have hbytes : ((audioPacketAt i opusData).drop 2).take 2 = beBytes 2 (UInt16.ofNat i).toNat ∧
      ((audioPacketAt i opusData).drop 4).take 4 = beBytes 4 (UInt32.ofNat (480 * i)).toNat := by
    constructor
    · rfl
    · rfl
  unfold rtpNumbers
  rw [hbytes.1, hbytes.2, beBytes, beBytes, List.reverse_reverse, List.reverse_reverse,
    ofLeBytes_leBytes hsequence, ofLeBytes_leBytes htimestamp, UInt16.toNat_ofNat',
    UInt32.toNat_ofNat']

namespace AudioTask

/-- `sendFrame` for each frame. -/
def sendAll (opus : OpusEncode E) (t : AudioTask E) (frames : List (List F32)) :
    List Packet × AudioTask E :=
  ((Run.outputs (sendFrame opus) t frames).flatten, Run.final (sendFrame opus) t frames)

theorem sendAll_cons
    (opus : OpusEncode E) (t : AudioTask E) (pcmFrame : List F32)
    (frames : List (List F32)) :
    t.sendAll opus (pcmFrame :: frames) =
      ((t.sendFrame opus pcmFrame).1 ++ ((t.sendFrame opus pcmFrame).2.sendAll opus frames).1,
        ((t.sendFrame opus pcmFrame).2.sendAll opus frames).2) :=
  rfl

theorem sendAll_append
    (opus : OpusEncode E) (t : AudioTask E) (frames more : List (List F32)) :
    t.sendAll opus (frames ++ more) =
      ((t.sendAll opus frames).1 ++ ((t.sendAll opus frames).2.sendAll opus more).1,
        ((t.sendAll opus frames).2.sendAll opus more).2) := by
  unfold sendAll
  rw [Run.outputs_append, Run.final_append, List.flatten_append]

/-- The task with other samples waiting. -/
def withAccum (t : AudioTask E) (accum : List F32) : AudioTask E :=
  { t with accum }

/-- What is in `accum` plays no part in the sending of a frame. -/
theorem sendFrame_withAccum
    (opus : OpusEncode E) (t : AudioTask E) (accum pcmFrame : List F32) :
    (t.withAccum accum).sendFrame opus pcmFrame =
      ((t.sendFrame opus pcmFrame).1, (t.sendFrame opus pcmFrame).2.withAccum accum) := by
  simp only [sendFrame, withAccum]
  split <;> rfl

theorem sendFrames_frame
    (opus : OpusEncode E) (t : AudioTask E) {samples : List F32}
    (h : samples.length ≥ STEREO_FRAME_SIZE) :
    (t.withAccum samples).sendFrames opus =
      let sent := t.sendFrame opus (samples.take STEREO_FRAME_SIZE)
      let rest := (sent.2.withAccum (samples.drop STEREO_FRAME_SIZE)).sendFrames opus
      (sent.1 ++ rest.1, rest.2) := by
  have hfirst := sendFrame_withAccum opus t (samples.drop STEREO_FRAME_SIZE)
    (samples.take STEREO_FRAME_SIZE)
  have hlen : (t.withAccum samples).accum.length ≥ STEREO_FRAME_SIZE := h
  rw [sendFrames, if_pos hlen]
  exact congrArg
    (fun sent => (sent.1 ++ (sent.2.sendFrames opus).1, (sent.2.sendFrames opus).2)) hfirst

theorem sendFrames_none
    (opus : OpusEncode E) (t : AudioTask E) {samples : List F32}
    (h : ¬samples.length ≥ STEREO_FRAME_SIZE) :
    (t.withAccum samples).sendFrames opus = ([], t.withAccum samples) := by
  have hlen : ¬(t.withAccum samples).accum.length ≥ STEREO_FRAME_SIZE := h
  rw [sendFrames, if_neg hlen]

/-- The loop sends the complete frames and keeps the samples behind them. -/
theorem sendFrames_withAccum
    (opus : OpusEncode E) (t : AudioTask E) (samples : List F32) :
    (t.withAccum samples).sendFrames opus =
      ((t.sendAll opus (pcmFramer.drain samples).messages).1,
        (t.sendAll opus (pcmFramer.drain samples).messages).2.withAccum
          (pcmFramer.drain samples).rest) := by
  induction samples using pcmFramer.drain_induction generalizing t with
  | hmessage samples m rest htake ih =>
      by_cases h : samples.length ≥ STEREO_FRAME_SIZE
      · rw [take_pcmFramer_frame h] at htake
        cases htake
        rw [sendFrames_frame opus t h, Framer.drain_message (take_pcmFramer_frame h)]
        simp only [Drained.after_messages, Drained.after_rest, List.singleton_append, sendAll_cons,
          ih]
      · rw [take_pcmFramer_none h] at htake
        cases htake
  | hnone samples rest htake =>
      by_cases h : samples.length ≥ STEREO_FRAME_SIZE
      · rw [take_pcmFramer_frame h] at htake
        cases htake
      · rw [sendFrames_none opus t h, Framer.drain_none (take_pcmFramer_none h)]
        rfl
  | herror samples e rest htake => exact e.elim

theorem onChunk_withAccum
    (opus : OpusEncode E) (t : AudioTask E) (accum chunk : List F32) :
    (t.withAccum accum).onChunk opus chunk =
      ((t.sendAll opus (pcmFramer.drain (accum ++ chunk)).messages).1,
        (t.sendAll opus (pcmFramer.drain (accum ++ chunk)).messages).2.withAccum
          (pcmFramer.drain (accum ++ chunk)).rest) :=
  sendFrames_withAccum opus t (accum ++ chunk)

/-- What a capture has come to: its frames are sent, and the samples behind them kept. -/
structure Sent (opus : OpusEncode E) (encoder : E) (samples : List F32)
    (packets : List Packet) (t : AudioTask E) : Prop where
  packets_eq :
    packets = ({ encoder : AudioTask E }.sendAll opus (pcmFramer.drain samples).messages).1
  task_eq :
    t = ({ encoder : AudioTask E }.sendAll opus (pcmFramer.drain samples).messages).2.withAccum
      (pcmFramer.drain samples).rest

theorem Sent.onChunk
    {opus : OpusEncode E} {encoder : E} {samples : List F32} {packets : List Packet}
    {t : AudioTask E} (h : Sent opus encoder samples packets t) (chunk : List F32) :
    Sent opus encoder (samples ++ chunk) (packets ++ (t.onChunk opus chunk).1)
      (t.onChunk opus chunk).2 := by
  have hgood : (pcmFramer.drain samples).error = none := by
    rw [drain_pcmFramer]
  have hdrain := Framer.drain_append hgood chunk
  obtain ⟨rfl, rfl⟩ := h
  rw [onChunk_withAccum]
  constructor
  · rw [hdrain, Drained.after_messages, sendAll_append]
  · rw [hdrain, Drained.after_messages, Drained.after_rest, sendAll_append]

theorem sent_onChunks
    (opus : OpusEncode E) (encoder : E) (chunks : List (List F32)) :
    Sent opus encoder chunks.flatten (sentPackets opus encoder chunks)
      (Run.final (AudioTask.onChunk opus) { encoder } chunks) := by
  refine @Run.history _ _ _ (AudioTask.onChunk opus)
    (fun chunks packets t => Sent opus encoder chunks.flatten packets.flatten t)
    { encoder } ?_ ?_ chunks
  · constructor
    · rw [List.flatten_nil, drain_pcmFramer]
      rfl
    · rw [List.flatten_nil, drain_pcmFramer]
      rfl
  · intro chunks packets t chunk h
    rw [List.flatten_append, List.flatten_singleton, List.flatten_append, List.flatten_singleton]
    exact h.onChunk chunk

/-! ### Numbers of the packets -/

/-- The task's numbers after `n` packets. -/
structure Numbered (n : Nat) (t : AudioTask E) : Prop where
  sequence_eq : t.sequence = UInt16.ofNat n
  timestamp_eq : t.timestamp = UInt32.ofNat (480 * n)

/-- Packet `i` of the session is the one with number `i`. -/
theorem sendAll_numbered
    (opus : OpusEncode E) {n : Nat} {t : AudioTask E} (h : Numbered n t)
    (frames : List (List F32)) :
    (t.sendAll opus frames).1 =
      (opusPayloads opus t.encoder frames).mapIdx fun i => audioPacketAt (n + i) := by
  induction frames generalizing n t with
  | nil => rfl
  | cons pcmFrame frames ih =>
      rw [sendAll_cons, opusPayloads]
      rcases hencode : audioEncode opus t.encoder pcmFrame with ⟨_ | opusData, encoder⟩
      · have hsend : t.sendFrame opus pcmFrame = ([], { t with encoder }) := by
          rw [sendFrame, hencode]
        have hrest := @ih n { t with encoder } ⟨h.sequence_eq, h.timestamp_eq⟩
        rw [hsend]
        exact hrest
      · have hsend : t.sendFrame opus pcmFrame =
            ([audioPacket t.sequence t.timestamp opusData],
              { t with encoder, sequence := t.sequence + 1, timestamp := t.timestamp + 480 }) := by
          rw [sendFrame, hencode]
        have hnext : Numbered (n + 1)
            { t with encoder, sequence := t.sequence + 1, timestamp := t.timestamp + 480 } := by
          constructor
          · simp only [h.sequence_eq, UInt16.ofNat_add]
            rfl
          · simp only [h.timestamp_eq, Nat.mul_add, UInt32.ofNat_add]
            rfl
        have hrest := ih hnext
        rw [hsend]
        simp only [Option.toList_some, List.singleton_append, List.mapIdx_cons, hrest]
        refine congrArg₂ List.cons ?_ ?_
        · rw [h.sequence_eq, h.timestamp_eq]
          rfl
        · refine congrArg (List.mapIdx · _) (funext fun i => ?_)
          rw [Nat.add_assoc, Nat.add_comm 1 i]

theorem sentPackets_numbered
    (opus : OpusEncode E) (encoder : E) (chunks : List (List F32)) :
    sentPackets opus encoder chunks =
      (opusPayloads opus encoder (opusFrames chunks.flatten)).mapIdx audioPacketAt := by
  have hpackets := (sent_onChunks opus encoder chunks).packets_eq
  have hstart : Numbered 0 { encoder : AudioTask E } := ⟨rfl, rfl⟩
  rw [drain_pcmFramer] at hpackets
  rw [hpackets, sendAll_numbered opus hstart]
  simp only [Nat.zero_add]

/--
**The audio packets of a session.**  However the captured samples are cut into chunks,
what is sent is the complete frames of 10 ms in their order, each encoded once, where
the packets have the numbers 0, 1, 2 and so on and the multiples of 480 as timestamps in
their headers; the samples behind the last complete frame wait for the next chunk.
-/
theorem audio_packets
    (opus : OpusEncode E) (encoder : E) (chunks : List (List F32)) :
    sentPackets opus encoder chunks =
        (opusPayloads opus encoder (opusFrames chunks.flatten)).mapIdx audioPacketAt ∧
      (∀ i packet, (sentPackets opus encoder chunks)[i]? = some packet →
        rtpNumbers packet = (i % 2 ^ 16, 480 * i % 2 ^ 32)) ∧
      (Run.final (AudioTask.onChunk opus) { encoder } chunks).accum =
        chunks.flatten.drop (chunks.flatten.length / STEREO_FRAME_SIZE * STEREO_FRAME_SIZE) := by
  have htask := (sent_onChunks opus encoder chunks).task_eq
  rw [drain_pcmFramer] at htask
  refine ⟨sentPackets_numbered opus encoder chunks, fun i packet hpacket => ?_, ?_⟩
  · rw [sentPackets_numbered, List.getElem?_mapIdx] at hpacket
    obtain ⟨opusData, -, rfl⟩ := Option.map_eq_some_iff.mp hpacket
    exact rtpNumbers_audioPacketAt i opusData
  · rw [htask]
    rfl

end AudioTask
end Engine
end FocusVision
