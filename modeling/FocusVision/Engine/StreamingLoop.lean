import FocusVision.Engine.HandshakeServer
import FocusVision.Engine.Tracking
import FocusVision.Lib.Run

/-!
# The engine's accept, session and hold loop

`StreamingLoop` of `engine.rs` with `listen_and_accept` of `control/tcp_server.rs` and the
counters of `control/reconnect.rs`.  Who connects, what the peers send and when anything
happens is up to the environment.

Left out: the log messages, `status.json`, what a session streams, and what is written to a
peer.  A connection that fails in TLS is one that gives up before its first message.
-/

namespace FocusVision
namespace Engine

def MAX_CONSECUTIVE_ACCEPT_ERRORS : Nat := 100

/-- `hold_duration`. -/
def HOLD_DURATION : Nat := 5 * MICROS

/-! ### Reconnecting -/

/-- `ReconnectState`. -/
structure ReconnectState where
  acceptFailures : Nat := 0
  reconnectAttempts : Nat := 0
deriving DecidableEq

namespace ReconnectState

/-- `u32::saturating_add` of one. -/
def saturatingSucc (count : Nat) : Nat :=
  min (count + 1) (2 ^ 32 - 1)

def recordAcceptFailure (s : ReconnectState) : ReconnectState :=
  { s with acceptFailures := saturatingSucc s.acceptFailures }

def recordAcceptSuccess (s : ReconnectState) : ReconnectState :=
  { s with acceptFailures := 0 }

def recordCleanDisconnect (_ : ReconnectState) : ReconnectState :=
  { acceptFailures := 0, reconnectAttempts := 0 }

def recordConnectionLost (s : ReconnectState) : ReconnectState :=
  { s with reconnectAttempts := saturatingSucc s.reconnectAttempts }

def recordProtocolError (s : ReconnectState) : ReconnectState :=
  { s with reconnectAttempts := saturatingSucc s.reconnectAttempts }

def recordHoldAcceptFailure (s : ReconnectState) : ReconnectState :=
  { s with acceptFailures := saturatingSucc s.acceptFailures }

/-- `next_backoff`, in seconds. -/
def nextBackoff (s : ReconnectState) : Option Nat :=
  if s.acceptFailures = 0 then none else some (2 ^ min (s.acceptFailures - 1) 4)

end ReconnectState

/-! ### Listening -/

/-- A `TcpControlServer`, with the connection whose handshake is under way. -/
structure TcpControlServer where
  video : VideoConfig
  codec : VideoCodec
  pairing : PairingHost
  acceptErrors : Nat := 0
  connection : Option (IpAddr × HandshakeServer) := none

/-- What happens to a server that listens. -/
inductive ListenEvent where
  /-- The PIN's lifetime is over. -/
  | expires
  | acceptError
  | accept (peer : IpAddr)
  /-- Bytes arrive on the connection. -/
  | bytes (bytes : List UInt8)
  /-- The handshake runs on. -/
  | runs
  /-- A deadline of the handshake runs out, or its connection breaks. -/
  | givesUp (written : Nat)

/-- What `listen_and_accept` has come to. -/
inductive Accepted where
  | listening (server : TcpControlServer)
  | connected (server : TcpControlServer) (peer : IpAddr)
  | failed (server : TcpControlServer)

/-- A call of the pairing state, with the peer whose handshake makes it. -/
abbrev PeerCall := Option IpAddr × PairingCall

namespace TcpControlServer

/-- The pairing state: a handshake holds it while it runs. -/
def host (s : TcpControlServer) : PairingHost :=
  match s.connection with
  | some (_, h) => h.pairing
  | none => s.pairing

/-- After a step of the handshake: it goes on, has failed, or is complete. -/
def settle (s : TcpControlServer) (peer : IpAddr) (h : HandshakeServer) : Accepted :=
  if h.failed ∨ h.step = .refused then
    .listening { s with pairing := h.pairing, connection := none }
  else if h.step = .ready then
    .connected { s with pairing := h.pairing, connection := none } peer
  else .listening { s with connection := some (peer, h) }

/-- `listen_and_accept`, one event at a time. -/
def listen (epoch now : Nat) (random : UInt32) (s : TcpControlServer) (event : ListenEvent) :
    List PeerCall × Accepted :=
  let rotate : PairingCall := ⟨now, random, .rotateIfExpired⟩
  let rotated := (s.pairing.step epoch rotate).2
  match s.connection, event with
  | none, .expires => ([(none, rotate)], .listening { s with pairing := rotated })
  | none, .acceptError =>
      let s := { s with pairing := rotated, acceptErrors := s.acceptErrors + 1 }
      ([(none, rotate)],
        if s.acceptErrors ≥ MAX_CONSECUTIVE_ACCEPT_ERRORS then .failed s else .listening s)
  | none, .accept peer =>
      ([(none, rotate)],
        .listening { s with
          pairing := rotated
          acceptErrors := 0
          connection := some (peer, { video := s.video, codec := s.codec, pairing := rotated }) })
  | some (peer, h), .bytes bytes =>
      ([], .listening { s with connection := some (peer, { h with inbox := h.inbox ++ bytes }) })
  | some (peer, h), .runs =>
      ((h.submits.map fun pin => (some peer, ⟨now, random, .verify pin⟩)).toList,
        s.settle peer (h.advance epoch now random).2)
  | some (peer, h), .givesUp written => ([], s.settle peer (h.giveUp written).2)
  | _, _ => ([], .listening s)

end TcpControlServer

/-! ### The loop -/

inductive DisconnectReason where
  | connectionLost
  | clientRequested
  | protocolError
deriving DecidableEq

inductive SessionEnd where
  | disconnected (reason : DisconnectReason)
  | setupFailed
  | shutdown
deriving DecidableEq

inductive LoopPhase where
  /-- No server; the next one listens after the backoff. -/
  | retry (file : PersistedLockout) (deadline : Nat)
  | accepting (server : TcpControlServer)
  /-- A headset has connected. -/
  | starting (server : TcpControlServer) (peer : IpAddr)
  /-- A session, with its `AuthorizedPeerGuard`. -/
  | streaming (server : TcpControlServer) (peer : IpAddr)
  /-- The session is over, and its guard is dropped. -/
  | ending (server : TcpControlServer) (outcome : SessionEnd)
  | holding (server : TcpControlServer) (deadline : Nat)
  | stopped

/-- The steps of the tracking port that are possible: a guard is dropped after its session. -/
def LoopPhase.allows : LoopPhase → PortEvent → Bool
  | _, .receive _ | _, .store => true
  | .ending _ _, .revoke | .ending _ _, .clearHead | .ending _ _, .clearControllers => true
  | _, _ => false

/-- `StreamingLoop`, and the tracking port that it opens. -/
structure StreamingLoop where
  video : VideoConfig
  codec : VideoCodec
  limits : PairingLimits
  reconnect : ReconnectState := {}
  port : TrackingPort := {}
  phase : LoopPhase

inductive LoopEvent where
  /-- `TcpControlServer::new`, after the backoff. -/
  | newServer
  /-- The server cannot listen. -/
  | bindFails
  | listen (event : ListenEvent)
  | authorizes
  | sessionEnds (reason : SessionEnd)
  | sessionReturns
  | holdOver
  /-- The engine shuts down outside of a session. -/
  | cancelled
  /-- The receiver, and the steps of a guard that is dropped. -/
  | port (event : PortEvent)

namespace StreamingLoop

/-- The backoff before the next server. -/
def backOff (w : StreamingLoop) (reconnect : ReconnectState) (server : TcpControlServer)
    (now : Nat) : StreamingLoop :=
  { w with
    reconnect
    phase := .retry server.host.file (now + reconnect.nextBackoff.getD 0 * MICROS) }

/-- What becomes of a server that listens. -/
def accepted (w : StreamingLoop) (now : Nat) (listening : TcpControlServer → LoopPhase) :
    Accepted → StreamingLoop
  | .listening server => { w with phase := listening server }
  | .connected server peer =>
      { w with reconnect := w.reconnect.recordAcceptSuccess, phase := .starting server peer }
  | .failed server => w.backOff w.reconnect.recordAcceptFailure server now

/-- What `run` does with the end of a session. -/
def sessionEnded (epoch now : Nat) (random : UInt32) (w : StreamingLoop)
    (server : TcpControlServer) : SessionEnd → List PeerCall × StreamingLoop
  | .setupFailed => ([], w.backOff w.reconnect.recordAcceptFailure server now)
  | .shutdown => ([], { w with phase := .stopped })
  | .disconnected .connectionLost =>
      let rearm : PairingCall := ⟨now, random, .rearmForReconnect HOLD_DURATION⟩
      let server := { server with pairing := (server.pairing.step epoch rearm).2 }
      ([(none, rearm)],
        { w with
          reconnect := w.reconnect.recordConnectionLost
          phase := .holding server (now + HOLD_DURATION) })
  | .disconnected .clientRequested =>
      ([], w.backOff w.reconnect.recordCleanDisconnect server now)
  | .disconnected .protocolError =>
      ([], w.backOff w.reconnect.recordProtocolError server now)

/-- One event, its time and the random number for a new PIN; the result is the calls of the
pairing state. -/
def step (epoch : Nat) (w : StreamingLoop) (event : Nat × UInt32 × LoopEvent) :
    List PeerCall × StreamingLoop :=
  let (now, random, event) := event
  match w.phase, event with
  | .retry file deadline, .newServer =>
      if deadline ≤ now then
        let host := PairingHost.start epoch w.limits now random file
        ([(none, ⟨now, random, .restart⟩)],
          { w with phase := .accepting { video := w.video, codec := w.codec, pairing := host } })
      else ([], w)
  | .accepting server, .bindFails => ([], w.backOff w.reconnect.recordAcceptFailure server now)
  | .accepting server, .listen event =>
      let (calls, accepted) := server.listen epoch now random event
      (calls, w.accepted now .accepting accepted)
  | .holding server _, .bindFails =>
      ([], w.backOff w.reconnect.recordHoldAcceptFailure server now)
  | .holding server deadline, .listen event =>
      let (calls, accepted) := server.listen epoch now random event
      (calls, w.accepted now (.holding · deadline) accepted)
  | .holding server deadline, .holdOver =>
      if deadline ≤ now then ([], w.backOff w.reconnect server now) else ([], w)
  | .starting server peer, .authorizes =>
      -- the write lock waits for the receiver
      if w.port.receiving.isSome then ([], w)
      else
        ([], { w with
          port := (w.port.step (.authorize peer)).2
          phase := .streaming server peer })
  | .streaming server _, .sessionEnds reason => ([], { w with phase := .ending server reason })
  | .ending server reason, .sessionReturns =>
      match w.port.session with
      | .down => w.sessionEnded epoch now random server reason
      | _ => ([], w)
  | .retry _ _, .cancelled | .accepting _, .cancelled | .starting _ _, .cancelled
    | .holding _ _, .cancelled => ([], { w with phase := .stopped })
  | phase, .port event =>
      if phase.allows event then ([], { w with port := (w.port.step event).2 }) else ([], w)
  | _, _ => ([], w)

/-- The engine starts, with the lockout file of earlier runs. -/
def start (epoch : Nat) (video : VideoConfig) (codec : VideoCodec) (limits : PairingLimits)
    (now : Nat) (random : UInt32) (file : PersistedLockout) : StreamingLoop :=
  { video, codec, limits
    phase := .accepting
      { video, codec, pairing := PairingHost.start epoch limits now random file } }

end StreamingLoop

end Engine
end FocusVision
