import FocusVision.Client.ReferenceChain

/-!
# The video receiver

`VideoReceiver` of the client's `video_receiver.cpp` and its three threads: the receive
thread assembles frames and queues them, the session thread begins and ends sessions, and
the app's thread takes frames from the queue or asks for a keyframe.  Every section under
one of the two mutexes is a function of its own.

`changes` counts how often a call changed the assembler.  Frames carry the count at which
they were assembled; no function looks at it, it only serves the statements.  Left out: the
socket, the time of the last packet, the count of dropped frames, the statistics and the
callback for the IDR request.
-/

namespace FocusVision
namespace Client

def kMaxQueuedFrames : Nat := 8

/-- A frame in the queue. -/
structure QueuedFrame where
  frame : Frame
  changes : Nat
deriving DecidableEq

/-- Frames that the receive thread has assembled and not yet queued. -/
structure Assembled where
  generation : UInt64
  now : Int
  out : Output
  changes : Nat
deriving DecidableEq

/-- Where the receive thread is in its loop. -/
inductive ReceiveThread where
  | receiving
  | queueing (assembled : Assembled)
  /-- The queue overflowed and was cleared. -/
  | overflowed (now : Int) (out : Output)
deriving DecidableEq

structure VideoReceiver where
  m_generation : UInt64 := 0
  m_assembler : FrameAssembler := {}
  m_sessionActive : Bool := false
  m_serverAddr : UInt32 := 0
  m_frames : List QueuedFrame := []
  thread : ReceiveThread := .receiving
  /-- `requireKeyframe` is between its two sections. -/
  requiring : Bool := false
  /-- `beginSession` or `endSession` is between its two sections. -/
  switching : Bool := false
  changes : Nat := 0
deriving DecidableEq

namespace VideoReceiver

/-- `start`, with the socket bound. -/
def start (r : VideoReceiver) (stats : Option StatsReporter) : VideoReceiver :=
  { r with
    m_assembler := { m_stats := stats }
    m_sessionActive := false
    m_frames := []
    thread := .receiving }

/-- The section of `beginSession` under `m_assemblyMutex`. -/
def beginSession (r : VideoReceiver) (server : UInt32) : VideoReceiver :=
  { r with
    m_generation := r.m_generation + 1
    m_serverAddr := server
    m_assembler := r.m_assembler.reset
    m_sessionActive := true
    switching := true
    changes := r.changes + 1 }

/-- The section of `endSession` under `m_assemblyMutex`. -/
def endSession (r : VideoReceiver) : VideoReceiver :=
  { r with
    m_generation := r.m_generation + 1
    m_sessionActive := false
    switching := true
    changes := r.changes + 1 }

/-- The section of `requireKeyframe` under `m_assemblyMutex`, in a session. -/
def requireKeyframe (r : VideoReceiver) (now : Int) : VideoReceiver :=
  { r with
    m_assembler := (r.m_assembler.requireKeyframe now {}).1
    requiring := true
    changes := r.changes + 1 }

/-- The section of these calls under `m_queueMutex`. -/
def clearFrames (r : VideoReceiver) : VideoReceiver :=
  { r with m_frames := [] }

/-- `popFrame`. -/
def popFrame (r : VideoReceiver) : Option Frame × VideoReceiver :=
  match r.m_frames with
  | [] => (none, r)
  | front :: frames => (some front.frame, { r with m_frames := frames })

/-- `onPacket`, if a packet of the server came, and `onTick`. -/
def assemble (a : FrameAssembler) (server : UInt32) (received : Option (UInt32 × List UInt8))
    (now : Int) : FrameAssembler × Output :=
  let (a, out) :=
    match received with
    | some (source, packet) => if source = server then a.onPacket packet now {} else (a, {})
    | none => (a, {})
  a.onTick now out

/-- The section of `run` under `m_assemblyMutex`, with what `recvfrom` received. -/
def receive (r : VideoReceiver) (received : Option (UInt32 × List UInt8)) (now : Int) :
    VideoReceiver :=
  if !r.m_sessionActive then r
  else
    let (a, out) := assemble r.m_assembler r.m_serverAddr received now
    { r with
      m_assembler := a
      thread :=
        if out.frames.isEmpty then .receiving
        else .queueing { generation := r.m_generation, now, out, changes := r.changes } }

/-- The section of `run` under `m_queueMutex`. -/
def queueFrames (r : VideoReceiver) (assembled : Assembled) : VideoReceiver :=
  if assembled.generation = r.m_generation then
    let frames := r.m_frames ++
      assembled.out.frames.map fun frame => { frame, changes := assembled.changes }
    if frames.length > kMaxQueuedFrames then
      { r with m_frames := [], thread := .overflowed assembled.now assembled.out }
    else { r with m_frames := frames, thread := .receiving }
  else { r with thread := .receiving } -- superseded by a new session meanwhile

/-- The last section of `run`, behind an overflow. -/
def restart (r : VideoReceiver) (now : Int) (out : Output) : VideoReceiver :=
  { r with
    m_assembler := (r.m_assembler.requireKeyframe now out).1
    thread := .receiving }

end VideoReceiver

/-- The next section of a thread. -/
inductive ReceiverStep where
  | receive (received : Option (UInt32 × List UInt8)) (now : Int)
  | queueFrames
  | restart
  | beginSession (server : UInt32)
  | endSession
  /-- The queue section of `beginSession` or `endSession`. -/
  | clearOld
  | requireKeyframe (now : Int)
  /-- The queue section of `requireKeyframe`. -/
  | clearRequired
  | popFrame

namespace VideoReceiver

/-- A section, if it is the next one of its thread; otherwise nothing happens.  The event is
what the app's thread sees: a frame, or that its `requireKeyframe` returned. -/
def step (r : VideoReceiver) : ReceiverStep → Option Event × VideoReceiver
  | .receive received now =>
      match r.thread with
      | .receiving => (none, r.receive received now)
      | _ => (none, r)
  | .queueFrames =>
      match r.thread with
      | .queueing assembled => (none, r.queueFrames assembled)
      | _ => (none, r)
  | .restart =>
      match r.thread with
      | .overflowed now out => (none, r.restart now out)
      | _ => (none, r)
  | .beginSession server => (none, if r.switching then r else r.beginSession server)
  | .endSession => (none, if r.switching then r else r.endSession)
  | .clearOld => (none, if r.switching then { r.clearFrames with switching := false } else r)
  | .requireKeyframe now =>
      if r.requiring then (none, r)
      else if !r.m_sessionActive then (some .required, r)
      else (none, r.requireKeyframe now)
  | .clearRequired =>
      if r.requiring then (some .required, { r.clearFrames with requiring := false })
      else (none, r)
  | .popFrame =>
      if r.requiring then (none, r) else (r.popFrame.1.map .delivered, r.popFrame.2)

end VideoReceiver

end Client
end FocusVision
