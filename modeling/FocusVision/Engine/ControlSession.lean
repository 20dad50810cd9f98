import FocusVision.Engine.ControlMessage
import FocusVision.Engine.DelayGradient
import FocusVision.Engine.WireFormats
import FocusVision.Lib.Mailbox

/-!
# Settings over the control channel

The control task and the frame loop of a session in `engine.rs`: `handle_tcp_control`,
which answers the messages of the headset and puts events on a bounded queue, and the
frame loop, which takes them one at a time.  The control task stands still while it
writes a reply; the write can fail, and the end of the session cuts it off.

Left out: what the other messages do (`IDR_REQUEST`, `FACE_DATA`, `VIEW_CONFIG`, and the
haptic and sleep messages to the headset), the figures in `HEARTBEAT_ACK`, and the log
messages.
-/

namespace FocusVision
namespace Engine

namespace MsgType

def HEARTBEAT : UInt8 := 0x10
def TRANSPORT_FEEDBACK : UInt8 := 0x12
def CONFIG_UPDATE : UInt8 := 0x55
def DISCONNECT : UInt8 := 0xFF

end MsgType

def CONTROL_EVENT_CAPACITY : Nat := 256

/-- `CONFIG_UPDATE_MIN_INTERVAL_MS`, in nanoseconds. -/
def CONFIG_UPDATE_MIN_INTERVAL : Nat := 1000 * 1000000

/-- `apply_recording_config_update`: the status of the answer, and the switch. -/
def applyRecordingConfigUpdate (value : UInt32) (state : Bool) : UInt8 × Bool :=
  if value = 0 then (0x01, false)
  else if value = 1 then (0x01, true)
  else (0x00, state)

/-- `apply_audio_recording_config_update`, which is the same function. -/
def applyAudioRecordingConfigUpdate (value : UInt32) (state : Bool) : UInt8 × Bool :=
  applyRecordingConfigUpdate value state

/-- A reply of the control task.  `CONFIG_UPDATE_ACK` does not carry the value. -/
inductive Reply where
  | heartbeatAck
  | configUpdateAck (ackStatus key : UInt8) (value : UInt32)
deriving DecidableEq

/-- The bitrate that the frame loop calls `set_setting_mbps` with for an event. -/
def ControlEvent.setting : ControlEvent → List UInt32
  | .bitrateSetting mbps => [mbps]
  | _ => []

/-- The bitrate that a reply accepts. -/
def Reply.accepted : Reply → List UInt32
  | .configUpdateAck ackStatus key value =>
      if ackStatus = 0x01 ∧ key = 0x01 then [value] else []
  | .heartbeatAck => []

/-- A bitrate in the update that is a session's `message`-th message. -/
structure BitrateUpdate where
  message : Nat
  mbps : UInt32
deriving DecidableEq

/--
The two tasks of a session.  `reply` is being written.  The rest is kept for the proofs:
how many messages the control task has taken, whether the queue had room when it took the
last one, the bitrates put on the queue and those whose acknowledgement was written, each
with its message, and the bitrates that the frame loop has set.
-/
structure ControlSession where
  sinceConfigUpdate : Nat := 2 * 1000000000
  events : Mailbox ControlEvent := {}
  reply : Option Reply := none
  running : Bool := true
  recordingEnabled : Bool := false
  audioRecordingEnabled : Bool := false
  taken : Nat := 0
  hadRoom : Bool := true
  forwarded : List BitrateUpdate := []
  acked : List BitrateUpdate := []
  settings : List UInt32 := []

inductive ControlStep where
  /-- A message, some nanoseconds after the one before. -/
  | receive (elapsed : Nat) (m : ControlMessage)
  /-- The reply is written. -/
  | sendReply
  /-- The reply cannot be written, which is only logged. -/
  | replyFails
  /-- The frame loop takes an event. -/
  | takeEvent
  /-- The frame loop returns, and drops its end of the queue. -/
  | endSession
  /-- The connection is gone, or the session is cancelled: the task ends where it is. -/
  | stopControl

namespace ControlSession

/-- `ControlChannel::forward`. -/
def forward (s : ControlSession) (event : ControlEvent) : ControlSession :=
  let (sent, events) := s.events.trySend CONTROL_EVENT_CAPACITY event
  { s with
    events
    forwarded :=
      if sent then s.forwarded ++ event.setting.map (BitrateUpdate.mk s.taken)
      else s.forwarded }

/-- A setting that `CONFIG_UPDATE` accepts as a bitrate. -/
def bitrateInRange (value : UInt32) : Bool :=
  decide (MIN_BITRATE_MBPS ≤ value.toNat ∧ value.toNat ≤ MAX_BITRATE_MBPS)

/-- The `match key` of `CONFIG_UPDATE`: the status, and the session afterwards. -/
def applyUpdate (s : ControlSession) (key : UInt8) (value : UInt32) :
    UInt8 × ControlSession :=
  if key = 0x01 then
    if bitrateInRange value then (0x01, s.forward (.bitrateSetting value)) else (0x00, s)
  else if key = 0x02 then (0x00, s)
  else if key = 0x03 then
    let (ackStatus, recordingEnabled) := applyRecordingConfigUpdate value s.recordingEnabled
    (ackStatus, { s with recordingEnabled })
  else if key = 0x05 then
    let (ackStatus, audioRecordingEnabled) :=
      applyAudioRecordingConfigUpdate value s.audioRecordingEnabled
    (ackStatus, { s with audioRecordingEnabled })
  else (0x00, s)

/-- `CONFIG_UPDATE`. -/
def configUpdate (s : ControlSession) (payload : List UInt8) : ControlSession :=
  if s.sinceConfigUpdate < CONFIG_UPDATE_MIN_INTERVAL then s
  else if 5 ≤ payload.length then
    let s := { s with sinceConfigUpdate := 0 }
    let key := payload.getD 0 0
    let value := readU32Le payload 1
    let (ackStatus, s) := s.applyUpdate key value
    { s with reply := some (.configUpdateAck ackStatus key value) }
  else s

/-- A message in the loop of `handle_tcp_control`. -/
def handleMessage (s : ControlSession) (m : ControlMessage) : ControlSession :=
  if m.msgType = MsgType.HEARTBEAT then
    match heartbeatStats m.payload with
    | some stats =>
        { s.forward (.heartbeat stats.toHmdStats) with reply := some .heartbeatAck }
    | none => s
  else if m.msgType = MsgType.TRANSPORT_FEEDBACK then
    match parseTransportFeedback m.payload with
    | some entries => s.forward (.transportFeedback entries)
    | none => s
  else if m.msgType = MsgType.CONFIG_UPDATE then s.configUpdate m.payload
  else if m.msgType = MsgType.DISCONNECT then { s with running := false }
  else s

/-- The control task takes a message. -/
def take (s : ControlSession) : ControlSession :=
  { s with
    taken := s.taken + 1
    hadRoom := decide (s.events.HasRoom CONTROL_EVENT_CAPACITY) }

/-- The bitrate that the reply being written accepts. -/
def accepting (s : ControlSession) : List BitrateUpdate :=
  ((s.reply.map Reply.accepted).getD []).map (BitrateUpdate.mk s.taken)

/-- A step of one of the tasks, with the reply that was sent; the control task takes no
message while it writes. -/
def step (s : ControlSession) : ControlStep → Option Reply × ControlSession
  | .receive elapsed m =>
      let s := { s with sinceConfigUpdate := s.sinceConfigUpdate + elapsed }
      if s.running && s.reply.isNone then (none, s.take.handleMessage m) else (none, s)
  | .sendReply =>
      match s.reply with
      | some reply =>
          (some reply, { s with reply := none, acked := s.acked ++ s.accepting })
      | none => (none, s)
  | .replyFails => (none, { s with reply := none })
  | .takeEvent =>
      match s.events.recv with
      | (some event, events) =>
          (none, { s with events, settings := s.settings ++ event.setting })
      | (none, _) => (none, s)
  | .endSession => (none, { s with events := s.events.close })
  | .stopControl => (none, { s with running := false, reply := none })

end ControlSession

/-- An event sets the bitrate exactly with the values of `ControlEvent.setting`. -/
theorem onEvent_bitrateCtrl
    (s : AdaptiveState) (event : ControlEvent) (now : Nat) :
    (s.onEvent event now).2.bitrateCtrl =
      event.setting.foldl (fun ctrl mbps => ctrl.setSettingMbps mbps.toNat now)
        s.bitrateCtrl := by
  cases event with
  | heartbeat stats => rfl
  | transportFeedback entries =>
      simp only [AdaptiveState.onEvent, ControlEvent.setting, List.foldl_nil]
      split
      · rfl
      · rfl
  | bitrateSetting mbps => rfl

end Engine
end FocusVision
