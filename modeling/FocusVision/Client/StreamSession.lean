import FocusVision.Client.CertificatePinning

/-!
# The client's stream session

`ClientSession` of the client's `client_session.h`, and `StreamSession::send`,
`requestIdr`, `setViewConfig`, `run` and `runStreaming` of `stream_session.cpp` as
the steps of concurrent threads.  Every access to an atomic and every section under
`m_mutex` is a step of its own; what the network and the clock answer is an input
(`Io`).

Kept for the statements: what was queued, sent and told to the hooks, how many sessions
have ended, and which one a call sees streaming.  Left out: the server's events, the
statistics, the count of streams, `m_config`, and a second `start`, so that the session
thread runs once.
-/

namespace FocusVision
namespace Client

/-! ### The session's state machine -/

inductive SessionState where
  | disconnected
  | connecting
  | pairing
  | configuring
  | streaming
  | reconnecting
deriving DecidableEq

inductive SessionEvent where
  | connectRequested
  | transportConnected
  | transportFailed
  | handshakeOk
  | pinRejected
  | handshakeFailed
  | streamConfigured
  | packetTimeout
  | backoffElapsed
  | disconnectRequested
deriving DecidableEq

structure ClientSession where
  state : SessionState := .disconnected
  attempts : UInt32 := 0
deriving DecidableEq

namespace ClientSession

def enterReconnect (fsm : ClientSession) : ClientSession :=
  { state := .reconnecting
    attempts := fsm.attempts + 1 }

/-- `on_event`. -/
def onEvent (fsm : ClientSession) (e : SessionEvent) : ClientSession :=
  if e = .disconnectRequested then { state := .disconnected, attempts := 0 }
  else
    match fsm.state, e with
    | .disconnected, .connectRequested => { fsm with state := .connecting }
    | .connecting, .transportConnected => { fsm with state := .pairing }
    | .connecting, .transportFailed => fsm.enterReconnect
    | .pairing, .handshakeOk => { fsm with state := .configuring }
    -- a rejected PIN is not retried
    | .pairing, .pinRejected => { state := .disconnected, attempts := 0 }
    | .pairing, .handshakeFailed => fsm.enterReconnect
    | .configuring, .streamConfigured => { state := .streaming, attempts := 0 }
    | .configuring, .transportFailed => fsm.enterReconnect
    | .configuring, .packetTimeout => fsm.enterReconnect
    | .streaming, .packetTimeout => fsm.enterReconnect
    | .streaming, .transportFailed => fsm.enterReconnect
    | .reconnecting, .backoffElapsed => { fsm with state := .connecting }
    | _, _ => fsm

end ClientSession

/-! ### Messages -/

def kMaxOutbox : Nat := 128

abbrev ViewConfigPayload := Vector UInt8 36

structure Outgoing where
  msgType : UInt8
  payload : List UInt8
deriving DecidableEq

/-- A message in the outbox, with the session that `send` saw streaming. -/
structure QueuedMessage where
  message : Outgoing
  made : Nat
deriving DecidableEq

/-- What `runStreaming` sends. -/
inductive Item where
  | queued (q : QueuedMessage)
  /-- `VIEW_CONFIG`. -/
  | view (v : ViewConfigPayload)
  /-- An IDR request, for calls of `requestIdr` that saw these sessions streaming. -/
  | idr (made : List Nat)
deriving DecidableEq

/-- Something sent on the connection of a session. -/
structure Sent where
  session : Nat
  item : Item
deriving DecidableEq

inductive Hook where
  | streamStart
  | streamEnd
deriving DecidableEq

/-! ### Threads -/

/-- Where the session thread stands in `run` and `runStreaming`. -/
inductive Pc where
  | begin
  /-- `while (!m_stop)` and the `switch` on the state. -/
  | loop
  | connecting
  | pairing
  | startHook
  | startStream
  | publishStreaming
  | startFailed
  /-- `runStreaming`: the view is unsent in a new session. -/
  | viewUnsent
  /-- `while (!m_stop)`. -/
  | poll
  | dropTest
  | swapOutbox
  | sending (outbox : List Item)
  | takeIdr
  | sendIdr (made : List Nat)
  | heartbeat
  | receive
  /-- Back in `run`: `if (m_stop) break`. -/
  | returned
  | disconnect
  | clearOutbox
  | clearIdr
  | endHook
  | backoff
  | waitStop
  /-- `setState` at the end of the loop's body. -/
  | publish
  /-- Behind the loop. -/
  | leaving
  | goodbyeHook
  | finalDisconnect
  | exited
deriving DecidableEq

/-- A call of another thread between its test of the state and its second half, with the session
that the test saw streaming. -/
inductive HalfCall where
  | send (message : Outgoing) (made : Nat)
  | requestIdr (made : Nat)
deriving DecidableEq

/-- `StreamSession` with its thread. -/
structure StreamSession where
  stop : Bool := false
  dropForTest : Bool := false
  idrPending : Bool := false
  state : SessionState := .disconnected
  outbox : List QueuedMessage := []
  view : Option ViewConfigPayload := none
  viewUnsent : Bool := false
  fsm : ClientSession := {}
  pc : Pc := .begin
  calls : List HalfCall := []
  /-- The sessions that have ended with their connection closed. -/
  closed : Nat := 0
  /-- The last session of which `state` said that it streams. -/
  shown : Nat := 0
  /-- All messages that were queued so far. -/
  pushed : List QueuedMessage := []
  /-- The calls of `requestIdr` that set `idrPending`. -/
  idrMade : List Nat := []
  sent : List Sent := []
  hooks : List Hook := []

/-- The event that a handshake ends in. -/
def HandshakeResult.event : HandshakeResult → SessionEvent
  | .ok => .handshakeOk
  | .pinRejected => .pinRejected
  | .failed => .handshakeFailed

/-- What the network and the clock answer to a step of the session thread. -/
structure Io where
  /-- `connect`, `startStream`, `sendMessage` or `requestIdr` succeeds. -/
  ok : Bool := true
  handshake : HandshakeResult := .ok
  heartbeatDue : Bool := false
  /-- `recvMessage` says `Closed`. -/
  closed : Bool := false
  /-- Nothing was heard for longer than the liveness timeout. -/
  silent : Bool := false

inductive SessionStep where
  /-- The first half of `send` and of `requestIdr`: the test of the state. -/
  | send (message : Outgoing)
  | requestIdr
  /-- The second half of a call. -/
  | finish (call : Nat)
  | setViewConfig (payload : ViewConfigPayload)
  /-- `m_stop = true` of `stop`. -/
  | requestStop
  | dropConnectionForTest
  | thread (io : Io)

namespace StreamSession

def isStreaming (s : StreamSession) : Bool :=
  s.state == .streaming

/-- The locked section of `send`. -/
def push (s : StreamSession) (message : Outgoing) (made : Nat) : StreamSession :=
  let outbox := if s.outbox.length ≥ kMaxOutbox then s.outbox.tail else s.outbox
  { s with
    outbox := outbox ++ [⟨message, made⟩]
    pushed := s.pushed ++ [⟨message, made⟩] }

/-- `m_idrPending = true`. -/
def storeIdr (s : StreamSession) (made : Nat) : StreamSession :=
  { s with
    idrPending := true
    idrMade := s.idrMade ++ [made] }

/-- The second half of the call at an index. -/
def finish (s : StreamSession) (call : Nat) : StreamSession :=
  match s.calls[call]? with
  | none => s
  | some (.send message made) =>
      { s.push message made with calls := s.calls.eraseIdx call }
  | some (.requestIdr made) =>
      { s.storeIdr made with calls := s.calls.eraseIdx call }

/-- `setViewConfig`. -/
def setViewConfig (s : StreamSession) (payload : ViewConfigPayload) : StreamSession :=
  if s.view = some payload then s
  else
    { s with
      view := some payload
      viewUnsent := true }

/-- The `switch` on the state. -/
def dispatch (state : SessionState) : Pc :=
  match state with
  | .disconnected => .waitStop
  | .connecting => .connecting
  | .pairing => .pairing
  | .configuring => .startHook
  | .streaming => .viewUnsent
  | .reconnecting => .backoff

/-- The locked section of `runStreaming`'s loop. -/
def swapOutbox (s : StreamSession) : StreamSession :=
  let queued := s.outbox.map Item.queued
  match s.viewUnsent, s.view with
  | true, some v =>
      { s with
        outbox := []
        viewUnsent := false
        pc := .sending (queued ++ [.view v]) }
  | _, _ => { s with outbox := [], pc := .sending queued }

/-- One step of the session thread. -/
def threadStep (s : StreamSession) (io : Io) : StreamSession :=
  match s.pc with
  | .begin =>
      let fsm := s.fsm.onEvent .connectRequested
      { s with fsm, state := fsm.state, pc := .loop }
  | .loop => { s with pc := if s.stop then .leaving else dispatch s.fsm.state }
  | .connecting =>
      { s with
        fsm := s.fsm.onEvent (if io.ok then .transportConnected else .transportFailed)
        pc := .publish }
  | .pairing => { s with fsm := s.fsm.onEvent io.handshake.event, pc := .publish }
  | .startHook => { s with hooks := s.hooks ++ [.streamStart], pc := .startStream }
  | .startStream =>
      if io.ok then
        { s with
          fsm := s.fsm.onEvent .streamConfigured
          pc := .publishStreaming }
      else { s with pc := .startFailed }
  | .publishStreaming =>
      { s with
        state := s.fsm.state
        shown := s.closed
        pc := .publish }
  | .startFailed =>
      { s with
        hooks := s.hooks ++ [.streamEnd]
        fsm := s.fsm.onEvent .transportFailed
        pc := .publish }
  | .viewUnsent => { s with viewUnsent := s.view.isSome, pc := .poll }
  | .poll => { s with pc := if s.stop then .returned else .dropTest }
  | .dropTest =>
      if s.dropForTest then { s with dropForTest := false, pc := .returned }
      else { s with pc := .swapOutbox }
  | .swapOutbox => s.swapOutbox
  | .sending [] => { s with pc := .takeIdr }
  | .sending (item :: outbox) =>
      if io.ok then { s with sent := s.sent ++ [⟨s.closed, item⟩], pc := .sending outbox }
      else { s with pc := .returned }
  | .takeIdr =>
      if s.idrPending then
        { s with idrPending := false, idrMade := [], pc := .sendIdr s.idrMade }
      else { s with pc := .heartbeat }
  | .sendIdr made =>
      if io.ok then { s with sent := s.sent ++ [⟨s.closed, .idr made⟩], pc := .heartbeat }
      else { s with pc := .returned }
  | .heartbeat =>
      { s with pc := if io.heartbeatDue && !io.ok then .returned else .receive }
  | .receive => { s with pc := if io.closed || io.silent then .returned else .poll }
  | .returned => { s with pc := if s.stop then .publish else .disconnect }
  | .disconnect => { s with closed := s.closed + 1, pc := .clearOutbox }
  | .clearOutbox => { s with outbox := [], pc := .clearIdr }
  | .clearIdr => { s with idrPending := false, idrMade := [], pc := .endHook }
  | .endHook =>
      { s with
        hooks := s.hooks ++ [.streamEnd]
        fsm := s.fsm.onEvent .transportFailed
        pc := .publish }
  -- `waitFor` ends when the time is over or `stop` was called
  | .backoff =>
      { s with
        fsm := if s.stop then s.fsm else s.fsm.onEvent .backoffElapsed
        pc := .publish }
  | .waitStop => if s.stop then { s with pc := .publish } else s
  | .publish => { s with state := s.fsm.state, pc := .loop }
  | .leaving =>
      { s with pc := if s.fsm.state = .streaming then .goodbyeHook else .finalDisconnect }
  | .goodbyeHook => { s with hooks := s.hooks ++ [.streamEnd], pc := .finalDisconnect }
  | .finalDisconnect => { s with pc := .exited }
  | .exited => s

/-- A step of some thread. -/
def step (s : StreamSession) : SessionStep → Unit × StreamSession
  | .send message =>
      ((), if s.isStreaming then { s with calls := s.calls ++ [.send message s.shown] } else s)
  | .requestIdr =>
      ((), if s.isStreaming then { s with calls := s.calls ++ [.requestIdr s.shown] } else s)
  | .finish call => ((), s.finish call)
  | .setViewConfig payload => ((), s.setViewConfig payload)
  | .requestStop => ((), { s with stop := true })
  | .dropConnectionForTest => ((), { s with dropForTest := true })
  | .thread io => ((), s.threadStep io)

/-- After `start`, with the view that was set before it. -/
def started (view : Option ViewConfigPayload) (viewUnsent : Bool) : StreamSession :=
  { view, viewUnsent }

end StreamSession

end Client
end FocusVision
