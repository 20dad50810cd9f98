import FocusVision.Engine.ControlMessage
import FocusVision.Engine.Pairing
import FocusVision.Engine.WireFormats

/-!
# The engine's side of the handshake

`handle_handshake_generic` of `control/tcp_server.rs` with its steps, as a task that is
run from one `await` to the next: it writes a message, or takes one that has arrived.

Left out: TLS, the log messages and the client's protocol version, which is only logged.
A deadline that runs out and a connection that breaks are a step of the environment.
-/

namespace FocusVision
namespace Engine

open Bytes

namespace MsgType

def HELLO : UInt8 := 0x01
def HELLO_ACK : UInt8 := 0x02
def PIN_REQUEST : UInt8 := 0x03
def PIN_RESPONSE : UInt8 := 0x04
def PIN_RESULT : UInt8 := 0x05
def STREAM_CONFIG : UInt8 := 0x06
def STREAM_START : UInt8 := 0x07

end MsgType

def PROTOCOL_VERSION : UInt16 := 6

/-- `encode_version`. -/
def encodeVersion (version : UInt16) : List UInt8 :=
  leBytes 2 version.toNat

/-- `parse_hello_caps`. -/
def parseHelloCaps (payload : List UInt8) : UInt8 :=
  if 3 ≤ payload.length then payload.getD 2 0 else 0

/-- What the task does next. -/
inductive ServerStep where
  | awaitHello
  | sendHelloAck
  | sendPinRequest
  | awaitPinResponse
  | sendPinAccepted
  | sendPinRejected
  | sendStreamConfig
  | awaitStreamStart
  /-- The stream is handed out. -/
  | ready
  /-- The PIN was refused. -/
  | refused
deriving DecidableEq

/-- What has become of the PIN, at a step of the engine: nothing yet, accepted or refused. -/
def verdict : ServerStep → Option Bool
  | .awaitHello | .sendHelloAck | .sendPinRequest | .awaitPinResponse => none
  | .sendPinAccepted | .sendStreamConfig | .awaitStreamStart | .ready => some true
  | .sendPinRejected | .refused => some false

/-- A PIN that is accepted is the PIN of the host, and no lockout holds. -/
theorem verified_ok
    {epoch now : Nat} {random pin : UInt32} {host next : PairingHost}
    (h : host.step epoch ⟨now, random, .verify pin⟩ = (.verified (.ok ()), next)) :
    pin = host.state.pin ∧ host.state.isLocked now = false := by
  have hanswer : (host.state.verify epoch host.file now random pin).1 = .ok () := by
    have hfirst := congrArg Prod.fst h
    simp only [PairingHost.step, PairingAnswer.verified.injEq] at hfirst
    exact hfirst
  unfold PairingState.verify at hanswer
  split at hanswer
  · cases hanswer
  · rename_i hopen
    split at hanswer
    · rename_i hpin
      exact ⟨(PairingState.pinMatches_iff _ _).mp hpin, Bool.eq_false_of_not_eq_true hopen⟩
    · simp only at hanswer
      split at hanswer <;> cases hanswer

/--
`TcpControlServer`, with a connection whose handshake is under way.  `inbox` holds the
bytes that have arrived, and `failed` says that the handshake has ended with another
error.
-/
structure HandshakeServer where
  video : VideoConfig
  codec : VideoCodec
  pairing : PairingHost
  clientCaps : UInt8 := 0
  step : ServerStep := .awaitHello
  failed : Bool := false
  inbox : List UInt8 := []

namespace HandshakeServer

/-- A message that arrives where one is awaited. -/
def handle (epoch now : Nat) (random : UInt32) (s : HandshakeServer) (m : ControlMessage) :
    HandshakeServer :=
  match s.step with
  | .awaitHello =>
      if m.msgType ≠ MsgType.HELLO then { s with failed := true }
      else { s with clientCaps := parseHelloCaps m.payload, step := .sendHelloAck }
  | .awaitPinResponse =>
      if m.msgType ≠ MsgType.PIN_RESPONSE ∨ m.payload.length < 4 then { s with failed := true }
      else
        let submittedPin := readU32Le m.payload 0
        let (answer, state, file) :=
          s.pairing.state.verify epoch s.pairing.file now random submittedPin
        { s with
          pairing := ⟨state, file⟩
          step :=
            match answer with
            | .ok () => .sendPinAccepted
            | .error _ => .sendPinRejected }
  | .awaitStreamStart =>
      if m.msgType ≠ MsgType.STREAM_START then { s with failed := true }
      else { s with step := .ready }
  | _ => s

/-- The message that is to be sent, and what comes after it. -/
def outgoing (s : HandshakeServer) : Option (ControlMessage × ServerStep) :=
  match s.step with
  | .sendHelloAck =>
      some (⟨MsgType.HELLO_ACK, encodeVersion PROTOCOL_VERSION⟩, .sendPinRequest)
  | .sendPinRequest => some (⟨MsgType.PIN_REQUEST, []⟩, .awaitPinResponse)
  | .sendPinAccepted => some (⟨MsgType.PIN_RESULT, [0x01]⟩, .sendStreamConfig)
  | .sendPinRejected => some (⟨MsgType.PIN_RESULT, [0x00]⟩, .refused)
  | .sendStreamConfig =>
      some (⟨MsgType.STREAM_CONFIG, encodeStreamConfig s.video s.codec s.clientCaps⟩,
        .awaitStreamStart)
  | _ => none

/-- Is a message awaited? -/
def awaits (s : HandshakeServer) : Bool :=
  match s.step with
  | .awaitHello | .awaitPinResponse | .awaitStreamStart => true
  | _ => false

/-- The task runs on; the bytes are what it writes. -/
def advance (epoch now : Nat) (random : UInt32) (s : HandshakeServer) :
    List UInt8 × HandshakeServer :=
  if s.failed then ([], s)
  else
    match s.outgoing with
    | some (m, next) => ((sendMessageGeneric m).flatten, { s with step := next })
    | none =>
        if s.awaits then
          match readMessageGeneric s.inbox with
          | .ok (m, rest) => ([], { s with inbox := rest }.handle epoch now random m)
          | .error .unexpectedEof => ([], s) -- not all of it is here
          | .error _ => ([], { s with failed := true })
        else ([], s)

/-- A deadline has run out, or the connection is broken: some bytes of the message that is
being sent are written, but not all. -/
def giveUp (written : Nat) (s : HandshakeServer) : List UInt8 × HandshakeServer :=
  if s.failed then ([], s)
  else
    match s.outgoing with
    | some (m, _) =>
        let bytes := (sendMessageGeneric m).flatten
        (bytes.take (min written (bytes.length - 1)), { s with failed := true })
    | none => ([], if s.awaits then { s with failed := true } else s)

/-- The PIN that the task verifies when it runs on. -/
def submits (s : HandshakeServer) : Option UInt32 :=
  if s.failed then none
  else
    match s.step, readMessageGeneric s.inbox with
    | .awaitPinResponse, .ok (m, _) =>
        if m.msgType ≠ MsgType.PIN_RESPONSE ∨ m.payload.length < 4 then none
        else some (readU32Le m.payload 0)
    | _, _ => none

/-- The task verifies the PIN that it was sent, and nothing else touches the pairing state. -/
theorem advance_pairing
    (epoch now : Nat) (random : UInt32) (s : HandshakeServer) :
    let next := (s.advance epoch now random).2
    match s.submits with
    | some pin =>
        ∃ answer, s.pairing.step epoch ⟨now, random, .verify pin⟩ =
            (.verified answer, next.pairing) ∧
          verdict s.step = none ∧ verdict next.step = some answer.isOk
    | none => next.pairing = s.pairing ∧ verdict next.step = verdict s.step := by
  obtain ⟨video, codec, pairing, caps, step, failed, inbox⟩ := s
  cases failed with
  | true => exact ⟨rfl, rfl⟩
  | false =>
      cases step with
      | sendHelloAck | sendPinRequest | sendPinAccepted | sendPinRejected | sendStreamConfig
        | ready | refused =>
          exact ⟨rfl, rfl⟩
      | awaitHello =>
          simp only [submits, advance, outgoing, awaits, Bool.false_eq_true, if_false, if_true]
          rcases readMessageGeneric inbox with e | ⟨m, rest⟩
          · cases e <;> exact ⟨rfl, rfl⟩
          · simp only [handle]
            split <;> exact ⟨rfl, rfl⟩
      | awaitStreamStart =>
          simp only [submits, advance, outgoing, awaits, Bool.false_eq_true, if_false, if_true]
          rcases readMessageGeneric inbox with e | ⟨m, rest⟩
          · cases e <;> exact ⟨rfl, rfl⟩
          · simp only [handle]
            split <;> exact ⟨rfl, rfl⟩
      | awaitPinResponse =>
          simp only [submits, advance, outgoing, awaits, Bool.false_eq_true, if_false, if_true]
          rcases readMessageGeneric inbox with e | ⟨m, rest⟩
          · cases e <;> exact ⟨rfl, rfl⟩
          · simp only [handle]
            rcases Decidable.em (m.msgType ≠ MsgType.PIN_RESPONSE ∨ m.payload.length < 4)
              with hbad | hgood
            · simp only [if_pos hbad]
              exact ⟨trivial, trivial⟩
            · simp only [if_neg hgood, PairingHost.step]
              refine ⟨_, rfl, rfl, ?_⟩
              cases
                (pairing.state.verify epoch pairing.file now random (readU32Le m.payload 0)).1 <;>
                rfl

theorem giveUp_pairing
    (written : Nat) (s : HandshakeServer) :
    (s.giveUp written).2.pairing = s.pairing ∧ (s.giveUp written).2.step = s.step := by
  unfold giveUp
  split
  · exact ⟨rfl, rfl⟩
  · split
    · exact ⟨rfl, rfl⟩
    · split <;> exact ⟨rfl, rfl⟩

end HandshakeServer

end Engine
end FocusVision
