import FocusVision.Lib.Run
import Mathlib.Data.List.Basic

/-!
# The audio player

The headset's side of the audio stream: `AudioSequence` of `audio_sequence.h`, the
jitter buffer of `audio_player.cpp`, and `receiveAudio` of `openxr_app.cpp`, which
reads the waiting datagrams once per rendered frame.  The Opus decoder is a parameter;
the audio stream takes as many frames as it has room for, or fails.

The checks for a receiver or a player that is not initialized are left out, and so
are the mutex, since one thread does all of this, and the log.
-/

namespace FocusVision
namespace Client

/-! ### Sequence numbers -/

structure AudioSequence where
  m_started : Bool := false
  m_last : UInt16 := 0

namespace AudioSequence

def kMaxConcealed : Int := 5
def kReorderWindow : Int := 50

/-- The packets missing before this one, or -1 for one that is dropped. -/
def onPacket (a : AudioSequence) (sequence : UInt16) : Int × AudioSequence :=
  if !a.m_started then (0, { m_started := true, m_last := sequence })
  else
    let delta := (sequence - a.m_last).toBitVec.toInt
    if delta ≤ 0 ∧ delta ≥ -kReorderWindow then (-1, a)
    else
      let a := { a with m_last := sequence }
      -- the sender has started over
      if delta < 0 then (0, a) else (min (delta - 1) kMaxConcealed, a)

def reset (a : AudioSequence) : AudioSequence :=
  { a with m_started := false }

end AudioSequence

/-! ### The player -/

/--
`opus_decode`, from the state of the decoder: the interleaved samples of a packet, or
of the gap that a lost one leaves; or an error.
-/
abbrev OpusDecode (D : Type) := D → Option (List UInt8) → Option (List Int16) × D

/-- What `AAudioStream_write` answers: an error, or the room it had, in frames. -/
inductive WriteAnswer where
  | failed
  | room (frames : Nat)
deriving DecidableEq

structure AudioPlayer (D : Type) where
  m_sampleRate : Nat := 48000
  m_channels : Nat := 2
  m_opusDecoder : D
  m_pcmBuffer : List Int16 := []

namespace AudioPlayer

variable {D : Type}

def FRAME_SIZE : Nat := 480
def MAX_BUFFER_MS : Nat := 100

/-- The most samples that wait in the buffer. -/
def maxSamples (p : AudioPlayer D) : Nat :=
  p.m_sampleRate * MAX_BUFFER_MS / 1000 * p.m_channels

/-- `appendDecoded`, with the samples of `m_decodeBuffer`. -/
def appendDecoded (p : AudioPlayer D) (decoded : List Int16) : AudioPlayer D :=
  let totalSamples := decoded.length
  let kept :=
    if p.m_pcmBuffer.length + totalSamples > p.maxSamples then
      let excess := p.m_pcmBuffer.length + totalSamples - p.maxSamples
      if excess > 0 ∧ excess ≤ p.m_pcmBuffer.length then p.m_pcmBuffer.drop excess
      else p.m_pcmBuffer
    else p.m_pcmBuffer
  { p with m_pcmBuffer := kept ++ decoded }

def submitOpusPacket (opus : OpusDecode D) (p : AudioPlayer D) (data : List UInt8) :
    Bool × AudioPlayer D :=
  match opus p.m_opusDecoder (some data) with
  | (none, m_opusDecoder) => (false, { p with m_opusDecoder })
  | (some decoded, m_opusDecoder) => (true, { p with m_opusDecoder }.appendDecoded decoded)

def concealLoss (opus : OpusDecode D) : AudioPlayer D → Nat → AudioPlayer D
  | p, 0 => p
  | p, packets + 1 =>
      match opus p.m_opusDecoder none with
      | (none, m_opusDecoder) => { p with m_opusDecoder }
      | (some decoded, m_opusDecoder) =>
          concealLoss opus ({ p with m_opusDecoder }.appendDecoded decoded) packets

/-- `pump`: the samples that go to the stream, from the front of the buffer. -/
def pump (p : AudioPlayer D) (answer : WriteAnswer) : List Int16 × AudioPlayer D :=
  if p.m_pcmBuffer = [] then ([], p)
  else
    let framesToWrite := p.m_pcmBuffer.length / p.m_channels
    match answer with
    | .failed => ([], p)
    | .room frames =>
        let samplesWritten := min frames framesToWrite * p.m_channels
        (p.m_pcmBuffer.take samplesWritten,
          { p with m_pcmBuffer := p.m_pcmBuffer.drop samplesWritten })

end AudioPlayer

/-! ### Reading the socket -/

/-- What `receiveAudio` asks of the player. -/
inductive PlayerCall where
  | concealLoss (packets : Nat)
  | submitOpusPacket (data : List UInt8)
deriving DecidableEq

def AudioPlayer.call {D : Type} (opus : OpusDecode D) (p : AudioPlayer D) :
    PlayerCall → AudioPlayer D
  | .concealLoss packets => p.concealLoss opus packets
  | .submitOpusPacket data => (p.submitOpusPacket opus data).2

def kRtpHeader : Nat := 12

/-- The size of `m_audioBuffer`; a longer datagram loses its end. -/
def audioBufferSize : Nat := 2048

/-- The calls for a datagram. -/
def onAudioDatagram (a : AudioSequence) (datagram : List UInt8) :
    List PlayerCall × AudioSequence :=
  let buffer := datagram.take audioBufferSize
  if buffer.length ≤ kRtpHeader then ([], a)
  else
    let sequence := ((buffer.getD 2 0).toUInt16 <<< 8) ||| (buffer.getD 3 0).toUInt16
    let (missing, a) := a.onPacket sequence
    if missing < 0 then ([], a)
    else
      ((if missing > 0 then [.concealLoss missing.toNat] else []) ++
        [.submitOpusPacket (buffer.drop kRtpHeader)], a)

/-- The loop of `receiveAudio`, with the datagrams that wait; an empty one ends it. -/
def readAudio (a : AudioSequence) :
    List (List UInt8) → List PlayerCall × AudioSequence × List (List UInt8)
  | [] => ([], a, [])
  | [] :: waiting => ([], a, waiting)
  | datagram :: waiting =>
      let (calls, a) := onAudioDatagram a datagram
      let (more, a, waiting) := readAudio a waiting
      (calls ++ more, a, waiting)

/-- The audio half of `OpenXRApp`, and the datagrams in the socket of its receiver. -/
structure AudioClient (D : Type) where
  m_audioReceiver : List (List UInt8) := []
  m_audioSequence : AudioSequence := {}
  m_audioPlayer : AudioPlayer D

inductive AudioEvent where
  /-- A datagram comes in at the socket. -/
  | arrived (datagram : List UInt8)
  /-- `receiveAudio`, where the stream answers its `pump` so. -/
  | rendered (answer : WriteAnswer)
deriving DecidableEq

/-- What `receiveAudio` has asked of the player, and what went to the stream. -/
structure AudioOutput where
  calls : List PlayerCall := []
  written : List Int16 := []

namespace AudioClient

variable {D : Type}

/-- A session starts, in `handleStreamEvents`. -/
def handleStreaming (c : AudioClient D) : AudioClient D :=
  { c with m_audioSequence := c.m_audioSequence.reset }

def receiveAudio (opus : OpusDecode D) (c : AudioClient D) (answer : WriteAnswer) :
    AudioOutput × AudioClient D :=
  let (calls, m_audioSequence, m_audioReceiver) :=
    readAudio c.m_audioSequence c.m_audioReceiver
  let (written, m_audioPlayer) :=
    (calls.foldl (AudioPlayer.call opus) c.m_audioPlayer).pump answer
  ({ calls, written }, { m_audioReceiver, m_audioSequence, m_audioPlayer })

def step (opus : OpusDecode D) (c : AudioClient D) : AudioEvent → AudioOutput × AudioClient D
  | .arrived datagram => ({}, { c with m_audioReceiver := c.m_audioReceiver ++ [datagram] })
  | .rendered answer => c.receiveAudio opus answer

end AudioClient
end Client
end FocusVision
