import FocusVision.Client.CertificatePinning
import FocusVision.Client.TcpClient
import FocusVision.Engine.HandshakeServer

/-!
# The headset's side of the handshake

`TcpControlClient::handshake` and `startStream` of the client's `tcp_client.cpp`, run from
one message to the next.  Reads are cut as they come: what has been read is `m_rxBuf`.

Left out: the log messages.  A deadline that runs out, a connection that breaks and a
store that cannot be written are steps of the environment.
-/

namespace FocusVision
namespace Client

open Bytes
open Engine (ControlMessage)
open Engine.MsgType

/-- The capabilities of a `HELLO`. -/
def HELLO_CAPS : UInt8 := Engine.HelloCaps.RESOLUTION_SCALE ||| Engine.HelloCaps.FRAME_POSE

/-- `buildHelloPayload`. -/
def buildHelloPayload (version : UInt16) (caps : UInt8) : List UInt8 :=
  [(version &&& 0xFF).toUInt8, ((version >>> 8) &&& 0xFF).toUInt8, caps]

/-- What the session thread does next. -/
inductive ClientStep where
  | sendHello
  | expectHelloAck
  | expectPinRequest
  | sendPin
  | expectPinResult
  | expectStreamConfig
  /-- `pinPeerFingerprint`. -/
  | pinPeer
  /-- `handshake` has returned, and `startStream` is called. -/
  | startStream
  | streaming
deriving DecidableEq

/-- `TcpControlClient` in a handshake; `result` is what `handshake` returned, and `closed`
says that the connection was given up. -/
structure HandshakeClient where
  pin : UInt32
  step : ClientStep := .sendHello
  result : Option HandshakeResult := none
  closed : Bool := false
  m_config : StreamConfigView := {}
  m_rxBuf : List UInt8 := []

namespace HandshakeClient

/-- `handshake` returns without success, and the session disconnects. -/
def finish (c : HandshakeClient) (result : HandshakeResult) : HandshakeClient :=
  { c with result := some result, closed := true }

/-- The message that is to be sent, and what comes after it. -/
def outgoing (c : HandshakeClient) : Option (ControlMessage × ClientStep) :=
  match c.step with
  | .sendHello =>
      some (⟨HELLO, buildHelloPayload Engine.PROTOCOL_VERSION HELLO_CAPS⟩, .expectHelloAck)
  | .sendPin => some (⟨PIN_RESPONSE, leBytes 4 c.pin.toNat⟩, .expectPinResult)
  | .startStream => some (⟨STREAM_START, []⟩, .streaming)
  | _ => none

/-- The type that `expectMessage` waits for. -/
def expected (c : HandshakeClient) : Option UInt8 :=
  match c.step with
  | .expectHelloAck => some HELLO_ACK
  | .expectPinRequest => some PIN_REQUEST
  | .expectPinResult => some PIN_RESULT
  | .expectStreamConfig => some STREAM_CONFIG
  | _ => none

/-- A message of the type that was expected. -/
def handle (c : HandshakeClient) (payload : List UInt8) : HandshakeClient :=
  match c.step with
  | .expectHelloAck => { c with step := .expectPinRequest }
  | .expectPinRequest => { c with step := .sendPin }
  | .expectPinResult =>
      if payload.head? ≠ some 0x01 then c.finish .pinRejected
      else { c with step := .expectStreamConfig }
  | .expectStreamConfig =>
      let (ok, config) := parseStreamConfig payload {}
      if ok then { c with m_config := config, step := .pinPeer } else c.finish .failed
  | _ => c

/-- The thread runs on; the bytes are what it writes. -/
def advance (c : HandshakeClient) : List UInt8 × HandshakeClient :=
  if c.closed then ([], c)
  else
    match c.outgoing, c.expected with
    | some (m, next), _ =>
        ((TcpControlClient.sendMessage true m).getD [], { c with step := next })
    | none, some msgType =>
        match TcpControlClient.takeMessage c.m_rxBuf with
        | (.ok (some m), rest) =>
            let c := { c with m_rxBuf := rest }
            ([], if m.msgType = msgType then c.handle m.payload else c.finish .failed)
        | (.ok none, _) => ([], c)
        | (.error _, rest) => ([], { c with m_rxBuf := rest }.finish .failed)
    | none, none =>
        match c.step with
        | .pinPeer => ([], { c with step := .startStream, result := some .ok })
        | _ => ([], c)

/-- The handshake, or `startStream`, fails: some bytes of the message that is being sent are
written, but not all. -/
def giveUp (written : Nat) (c : HandshakeClient) : List UInt8 × HandshakeClient :=
  if c.closed ∨ c.step = .streaming then ([], c)
  else
    let closed := { c with result := some (c.result.getD .failed), closed := true }
    match c.outgoing with
    | some (m, _) =>
        let bytes := (TcpControlClient.sendMessage true m).getD []
        (bytes.take (min written (bytes.length - 1)), closed)
    | none => ([], closed)

end HandshakeClient

end Client
end FocusVision
