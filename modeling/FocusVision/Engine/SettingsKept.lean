import FocusVision.Engine.ControlSession
import FocusVision.Lib.Run

/-!
# Acknowledged settings

A bitrate that `CONFIG_UPDATE_ACK` accepts was put on the queue before, and the frame
loop sets exactly the acknowledged bitrates in their order.  `forward` drops an event that
finds no room, and the acknowledgement does not say so; and an event stays on the queue
when its acknowledgement cannot be written.  The law holds in exactly the runs in which
neither happens.

A rejected update changes nothing but the time of the last update, which starts anew.
-/

namespace FocusVision
namespace Engine

def ControlStep.elapsed : ControlStep → Nat
  | .receive elapsed _ => elapsed
  | _ => 0

namespace ControlSession

open Bytes

/-- Acknowledged bitrates are not lost. -/
structure Kept (s : ControlSession) : Prop where
  /-- The event of each of them was put on the queue before. -/
  onQueue : ∀ update ∈ s.acked, update ∈ s.forwarded
  /-- The frame loop sets them in their order, the last of them at the earliest while its
  acknowledgement is being written. -/
  inOrder : s.settings <+: (s.acked ++ s.accepting).map BitrateUpdate.mbps
  /-- As long as the frame loop runs, those that it has not set wait on the queue. -/
  waits : s.events.closed = false →
    s.settings ++ s.events.waiting.flatMap ControlEvent.setting =
        s.acked.map BitrateUpdate.mbps ∨
      s.settings ++ s.events.waiting.flatMap ControlEvent.setting =
        (s.acked ++ s.accepting).map BitrateUpdate.mbps

/-- The control task takes an update and does not accept it. -/
def Rejected (s : ControlSession) (call : ControlStep) : Prop :=
  match call with
  | .receive _ m =>
      s.running = true ∧ s.reply = none ∧ m.msgType = MsgType.CONFIG_UPDATE ∧
        ∀ key value, (s.step call).2.reply ≠ some (.configUpdateAck 0x01 key value)
  | _ => False

/-- A rejected update changes no state; time has passed, and there may be a reply. -/
def RejectedUnchanged (s : ControlSession) (call : ControlStep) : Prop :=
  s.Rejected call →
    (s.step call).2 =
      { s.take with
        sinceConfigUpdate := s.sinceConfigUpdate + call.elapsed
        reply := (s.step call).2.reply }

/-- A rejected update changes nothing but the time of the last update. -/
def RejectedLimits (s : ControlSession) (call : ControlStep) : Prop :=
  s.Rejected call →
    (s.step call).2 =
      { s.take with
        sinceConfigUpdate := (s.step call).2.sinceConfigUpdate
        reply := (s.step call).2.reply }

/-- What a step should do. -/
def Right (s : ControlSession) (call : ControlStep) : Prop :=
  (s.step call).2.Kept ∧ s.RejectedUnchanged call

/-- An update with this key and value is accepted. -/
def Acceptable (key : UInt8) (value : UInt32) : Prop :=
  (key = 0x01 ∧ bitrateInRange value = true) ∨
    ((key = 0x03 ∨ key = 0x05) ∧ (value = 0 ∨ value = 1))

/-- An update that is looked at, a second or more after the one before, but cannot be
accepted: it is taken for the last update all the same. -/
def RestartsLimit (s : ControlSession) : ControlStep → Prop
  | .receive elapsed m =>
      s.running = true ∧ s.reply = none ∧ m.msgType = MsgType.CONFIG_UPDATE ∧
        CONFIG_UPDATE_MIN_INTERVAL ≤ s.sinceConfigUpdate + elapsed ∧ 5 ≤ m.payload.length ∧
        ¬Acceptable (m.payload.getD 0 0) (readU32Le m.payload 1)
  | _ => False

/-- The queue had room for a bitrate whose acknowledgement is written; and if it cannot be
written, it had none, or the frame loop returned before it came to the bitrate. -/
def Delivered (s : ControlSession) : ControlStep → Prop
  | .sendReply => s.accepting ≠ [] → s.hadRoom = true
  | .replyFails | .stopControl =>
      s.accepting ≠ [] → s.hadRoom = true →
        s.events.closed = true ∧ s.settings.length < s.forwarded.length
  | _ => True

/-- A session's start. -/
def start (recordingEnabled audioRecordingEnabled : Bool) : ControlSession :=
  { recordingEnabled, audioRecordingEnabled }

/-! ### What a message does -/

/-- Nothing happened to the bitrates. -/
structure Quiet (s t : ControlSession) : Prop where
  taken : t.taken = s.taken
  hadRoom : t.hadRoom = s.hadRoom
  forwarded : t.forwarded = s.forwarded
  acked : t.acked = s.acked
  settings : t.settings = s.settings
  closed : t.events.closed = s.events.closed
  waiting : t.events.waiting.flatMap ControlEvent.setting =
    s.events.waiting.flatMap ControlEvent.setting
  accepting : t.accepting = s.accepting

theorem Quiet.refl
    (s : ControlSession) :
    Quiet s s :=
  ⟨rfl, rfl, rfl, rfl, rfl, rfl, rfl, rfl⟩

theorem accepting_of_none
    {s : ControlSession} (h : s.reply = none) :
    s.accepting = [] := by
  simp [accepting, h]

/-- An event without a bitrate. -/
theorem forward_quiet
    (s : ControlSession) {event : ControlEvent} (h : event.setting = []) :
    (s.forward event).forwarded = s.forwarded ∧
      (s.forward event).events.waiting.flatMap ControlEvent.setting =
        s.events.waiting.flatMap ControlEvent.setting := by
  refine ⟨?_, Mailbox.flatMap_trySend h CONTROL_EVENT_CAPACITY s.events⟩
  simp only [forward, h, List.map_nil, List.append_nil, ite_self]

@[simp] theorem forward_closed
    (s : ControlSession) (event : ControlEvent) :
    (s.forward event).events.closed = s.events.closed :=
  Mailbox.trySend_closed _ _ _

/-- A switch takes 0 and 1. -/
theorem applyRecordingConfigUpdate_cases
    (value : UInt32) (state : Bool) :
    (¬(value = 0 ∨ value = 1) ∧ applyRecordingConfigUpdate value state = (0x00, state)) ∨
      ((value = 0 ∨ value = 1) ∧ ∃ b, applyRecordingConfigUpdate value state = (0x01, b)) := by
  unfold applyRecordingConfigUpdate
  by_cases h0 : value = 0
  · exact Or.inr ⟨Or.inl h0, _, if_pos h0⟩
  · by_cases h1 : value = 1
    · exact Or.inr ⟨Or.inr h1, _, by rw [if_neg h0, if_pos h1]⟩
    · refine Or.inl ⟨fun h => h.elim h0 h1, ?_⟩
      rw [if_neg h0, if_neg h1]

/-- A bitrate is forwarded, a switch is set, and anything else is rejected. -/
theorem applyUpdate_cases
    (s : ControlSession) (key : UInt8) (value : UInt32) :
    (key = 0x01 ∧ Acceptable key value ∧
        s.applyUpdate key value = (0x01, s.forward (.bitrateSetting value))) ∨
      (key ≠ 0x01 ∧ Acceptable key value ∧ ∃ recordingEnabled audioRecordingEnabled,
        s.applyUpdate key value = (0x01, { s with recordingEnabled, audioRecordingEnabled })) ∨
      (¬Acceptable key value ∧ s.applyUpdate key value = (0x00, s)) := by
  unfold applyUpdate Acceptable
  by_cases hbitrate : key = 0x01
  · subst hbitrate
    by_cases hrange : bitrateInRange value = true
    · exact Or.inl ⟨rfl, Or.inl ⟨rfl, hrange⟩, by rw [if_pos rfl, if_pos hrange]⟩
    · refine Or.inr (Or.inr ⟨?_, by rw [if_pos rfl, if_neg hrange]⟩)
      rintro (h | ⟨h | h, -⟩)
      · exact hrange h.2
      · exact absurd h (by decide)
      · exact absurd h (by decide)
  rw [if_neg hbitrate]
  by_cases hcodec : key = 0x02
  · subst hcodec
    exact Or.inr (Or.inr ⟨by simp, if_pos rfl⟩)
  rw [if_neg hcodec]
  by_cases hrecording : key = 0x03
  · rw [if_pos hrecording]
    rcases applyRecordingConfigUpdate_cases value s.recordingEnabled with
      ⟨hvalue, h⟩ | ⟨hvalue, b, h⟩
    · refine Or.inr (Or.inr ⟨fun hok => ?_, by rw [h]⟩)
      exact hok.elim (fun hok => hbitrate hok.1) (fun hok => hvalue hok.2)
    · exact Or.inr (Or.inl ⟨hbitrate, Or.inr ⟨Or.inl hrecording, hvalue⟩,
        b, s.audioRecordingEnabled, by rw [h]⟩)
  rw [if_neg hrecording]
  by_cases haudio : key = 0x05
  · rw [if_pos haudio]
    unfold applyAudioRecordingConfigUpdate
    rcases applyRecordingConfigUpdate_cases value s.audioRecordingEnabled with
      ⟨hvalue, h⟩ | ⟨hvalue, b, h⟩
    · refine Or.inr (Or.inr ⟨fun hok => ?_, by rw [h]⟩)
      exact hok.elim (fun hok => hbitrate hok.1) (fun hok => hvalue hok.2)
    · exact Or.inr (Or.inl ⟨hbitrate, Or.inr ⟨Or.inr haudio, hvalue⟩,
        s.recordingEnabled, b, by rw [h]⟩)
  · refine Or.inr (Or.inr ⟨?_, if_neg haudio⟩)
    rintro (h | ⟨h | h, -⟩)
    · exact hbitrate h.1
    · exact hrecording h
    · exact haudio h

/-- The update is looked at: not too early, and long enough. -/
def InTime (s : ControlSession) (payload : List UInt8) : Prop :=
  CONFIG_UPDATE_MIN_INTERVAL ≤ s.sinceConfigUpdate ∧ 5 ≤ payload.length

/-- What `CONFIG_UPDATE` can do: nothing, when it comes too early or is too short; forward
a bitrate; set a switch; or only answer that it is rejected. -/
theorem configUpdate_cases
    (s : ControlSession) (payload : List UInt8) {key : UInt8} {value : UInt32}
    (hkey : payload.getD 0 0 = key) (hvalue : readU32Le payload 1 = value) :
    (¬s.InTime payload ∧ s.configUpdate payload = s) ∨
      (Acceptable key value ∧ s.configUpdate payload =
        { s.forward (.bitrateSetting value) with
          sinceConfigUpdate := 0
          reply := some (.configUpdateAck 0x01 0x01 value) }) ∨
      (Acceptable key value ∧ key ≠ 0x01 ∧ ∃ recordingEnabled audioRecordingEnabled,
        s.configUpdate payload =
          { s with
            sinceConfigUpdate := 0
            recordingEnabled
            audioRecordingEnabled
            reply := some (.configUpdateAck 0x01 key value) }) ∨
      (s.InTime payload ∧ ¬Acceptable key value ∧ s.configUpdate payload =
        { s with
          sinceConfigUpdate := 0
          reply := some (.configUpdateAck 0x00 key value) }) := by
  unfold configUpdate InTime
  by_cases hlimited : s.sinceConfigUpdate < CONFIG_UPDATE_MIN_INTERVAL
  · rw [if_pos hlimited]
    exact Or.inl ⟨fun h => absurd h.1 (Nat.not_le.mpr hlimited), rfl⟩
  rw [if_neg hlimited]
  by_cases hlength : 5 ≤ payload.length
  · rw [if_pos hlength, hkey, hvalue]
    dsimp only
    rcases applyUpdate_cases { s with sinceConfigUpdate := 0 } key value with
      ⟨rfl, hok, hnext⟩ | ⟨hother, hok, recording, audio, hnext⟩ | ⟨hbad, hnext⟩
    · rw [hnext]
      exact Or.inr (Or.inl ⟨hok, rfl⟩)
    · rw [hnext]
      exact Or.inr (Or.inr (Or.inl ⟨hok, hother, recording, audio, rfl⟩))
    · rw [hnext]
      exact Or.inr (Or.inr (Or.inr ⟨⟨Nat.not_lt.mp hlimited, hlength⟩, hbad, rfl⟩))
  · rw [if_neg hlength]
    exact Or.inl ⟨fun h => hlength h.2, rfl⟩

/-- A message forwards a bitrate and is answered so, or it leaves the bitrates alone. -/
theorem handleMessage_cases
    {s : ControlSession} (hreply : s.reply = none) (m : ControlMessage) :
    (∃ value, s.handleMessage m =
        { s.forward (.bitrateSetting value) with
          sinceConfigUpdate := 0
          reply := some (.configUpdateAck 0x01 0x01 value) }) ∨
      Quiet s (s.handleMessage m) := by
  have hnone := accepting_of_none hreply
  unfold handleMessage
  by_cases hheartbeat : m.msgType = MsgType.HEARTBEAT
  · rw [if_pos hheartbeat]
    refine Or.inr ?_
    cases heartbeatStats m.payload with
    | none => exact Quiet.refl s
    | some stats =>
        obtain ⟨hforwarded, hwaiting⟩ := @forward_quiet s (.heartbeat stats.toHmdStats) rfl
        exact ⟨rfl, rfl, hforwarded, rfl, rfl, forward_closed s _, hwaiting, hnone.symm⟩
  rw [if_neg hheartbeat]
  by_cases hfeedback : m.msgType = MsgType.TRANSPORT_FEEDBACK
  · rw [if_pos hfeedback]
    refine Or.inr ?_
    cases parseTransportFeedback m.payload with
    | none => exact Quiet.refl s
    | some entries =>
        obtain ⟨hforwarded, hwaiting⟩ := @forward_quiet s (.transportFeedback entries) rfl
        exact ⟨rfl, rfl, hforwarded, rfl, rfl, forward_closed s _, hwaiting, rfl⟩
  rw [if_neg hfeedback]
  by_cases hupdate : m.msgType = MsgType.CONFIG_UPDATE
  · rw [if_pos hupdate]
    rcases s.configUpdate_cases m.payload rfl rfl with
      ⟨-, hnext⟩ | ⟨-, hnext⟩ | ⟨-, hother, recording, audio, hnext⟩ | ⟨-, -, hnext⟩
    · rw [hnext]
      exact Or.inr (Quiet.refl s)
    · exact Or.inl ⟨_, hnext⟩
    · rw [hnext]
      refine Or.inr ⟨rfl, rfl, rfl, rfl, rfl, rfl, rfl, ?_⟩
      rw [hnone]
      simp only [accepting, Option.map_some, Option.getD_some, Reply.accepted, hother,
        and_false, if_false, List.map_nil]
    · rw [hnext]
      refine Or.inr ⟨rfl, rfl, rfl, rfl, rfl, rfl, rfl, ?_⟩
      rw [hnone]
      simp [accepting, Reply.accepted]
  rw [if_neg hupdate]
  refine Or.inr ?_
  split_ifs
  · exact ⟨rfl, rfl, rfl, rfl, rfl, rfl, rfl, rfl⟩
  · exact Quiet.refl s

/-! ### The bitrates -/

/-- The bitrate whose acknowledgement is being written, if the queue had room for it. -/
def queued (s : ControlSession) : List BitrateUpdate :=
  if s.hadRoom then s.accepting else []

/-- Which bitrates are where, as long as every acknowledged one was queued. -/
structure Tracked (s : ControlSession) : Prop where
  onQueue : s.acked ++ s.queued <+: s.forwarded
  last : s.queued ≠ [] → s.forwarded = s.acked ++ s.queued
  numbered : ∀ update ∈ s.forwarded,
    update.message ≤ s.taken ∧ (s.hadRoom = false → update.message < s.taken)
  inOrder : s.settings <+: (s.acked ++ s.queued).map BitrateUpdate.mbps
  waits : s.events.closed = false →
    s.forwarded = s.acked ++ s.queued ∧
      s.settings ++ s.events.waiting.flatMap ControlEvent.setting =
        s.forwarded.map BitrateUpdate.mbps

theorem accepting_cases
    (s : ControlSession) :
    s.accepting = [] ∨ ∃ mbps, s.accepting = [⟨s.taken, mbps⟩] := by
  unfold accepting
  cases s.reply with
  | none => exact Or.inl rfl
  | some reply =>
      cases reply with
      | heartbeatAck => exact Or.inl rfl
      | configUpdateAck ackStatus key value =>
          simp only [Option.map_some, Option.getD_some, Reply.accepted]
          split_ifs
          · exact Or.inr ⟨value, rfl⟩
          · exact Or.inl rfl

theorem queued_of_room
    {s : ControlSession} (h : s.hadRoom = true) :
    s.queued = s.accepting :=
  if_pos h

theorem queued_of_no_room
    {s : ControlSession} (h : s.hadRoom = false) :
    s.queued = [] :=
  if_neg (by rw [h]; decide)

theorem queued_of_nil
    {s : ControlSession} (h : s.accepting = []) :
    s.queued = [] := by
  unfold queued
  rw [h, ite_self]

/-- No event is on the queue whose acknowledgement is still being written. -/
theorem Tracked.of_nothing_queued
    {s : ControlSession} (hqueued : s.queued = []) (honQueue : s.acked <+: s.forwarded)
    (hnumbered : ∀ update ∈ s.forwarded,
      update.message ≤ s.taken ∧ (s.hadRoom = false → update.message < s.taken))
    (hinOrder : s.settings <+: s.acked.map BitrateUpdate.mbps)
    (hwaits : s.events.closed = false →
      s.forwarded = s.acked ∧
        s.settings ++ s.events.waiting.flatMap ControlEvent.setting =
          s.forwarded.map BitrateUpdate.mbps) :
    s.Tracked := by
  rw [← List.append_nil s.acked, ← hqueued] at honQueue hinOrder hwaits
  exact ⟨honQueue, fun hsome => absurd hqueued hsome, hnumbered, hinOrder, hwaits⟩

theorem Tracked.kept
    {s : ControlSession} (h : s.Tracked) :
    s.Kept := by
  have hprefix : (s.acked ++ s.queued).map BitrateUpdate.mbps <+:
      (s.acked ++ s.accepting).map BitrateUpdate.mbps := by
    refine List.IsPrefix.map _ ((List.prefix_append_right_inj _).mpr ?_)
    cases hroom : s.hadRoom with
    | false =>
        rw [queued_of_no_room hroom]
        exact List.nil_prefix
    | true =>
        simp only [queued_of_room hroom, List.prefix_rfl]
  refine ⟨fun update hupdate => ?_, h.inOrder.trans hprefix, fun hopen => ?_⟩
  · exact h.onQueue.subset (List.mem_append_left _ hupdate)
  · obtain ⟨hforwarded, hwaits⟩ := h.waits hopen
    rw [hwaits, hforwarded]
    cases hroom : s.hadRoom with
    | false =>
        rw [queued_of_no_room hroom, List.append_nil]
        exact Or.inl rfl
    | true =>
        rw [queued_of_room hroom]
        exact Or.inr rfl

/-- The bitrates stay where they are. -/
theorem Tracked.quiet
    {s t : ControlSession} (hs : s.Tracked) (hreply : s.reply = none)
    (h : Quiet s.take t) :
    t.Tracked := by
  have hqueued : s.queued = [] := queued_of_nil (accepting_of_none hreply)
  have hnext : t.accepting = [] := by
    rw [h.accepting]
    exact accepting_of_none hreply
  obtain ⟨honQueue, -, hnumbered, hinOrder, hwaits⟩ := hs
  rw [hqueued, List.append_nil] at honQueue hinOrder hwaits
  refine Tracked.of_nothing_queued (queued_of_nil hnext) ?_ (fun update hupdate => ?_) ?_
    fun hopen => ?_
  · rw [h.acked, h.forwarded]
    exact honQueue
  · rw [h.forwarded] at hupdate
    have hle := (hnumbered update hupdate).1
    rw [h.taken]
    exact ⟨Nat.le_succ_of_le hle, fun _ => Nat.lt_succ_of_le hle⟩
  · rw [h.settings, h.acked]
    exact hinOrder
  · rw [h.closed] at hopen
    rw [h.settings, h.waiting, h.acked, h.forwarded]
    exact hwaits hopen

/-- A bitrate is accepted, whether its event finds room or not. -/
theorem Tracked.accept
    {s : ControlSession} (hs : s.Tracked) (hreply : s.reply = none) (value : UInt32) :
    Tracked { s.take.forward (.bitrateSetting value) with
      sinceConfigUpdate := 0
      reply := some (.configUpdateAck 0x01 0x01 value) } := by
  obtain ⟨honQueue, -, hnumbered, hinOrder, hwaits⟩ := hs
  rw [queued_of_nil (accepting_of_none hreply), List.append_nil] at honQueue hinOrder hwaits
  have hle : ∀ update ∈ s.forwarded, update.message ≤ s.taken :=
    fun update hupdate => (hnumbered update hupdate).1
  by_cases hroom : s.events.HasRoom CONTROL_EVENT_CAPACITY
  · obtain ⟨hforwarded, hset⟩ := hwaits hroom.1
    have htake : s.take.events.HasRoom CONTROL_EVENT_CAPACITY := hroom
    simp only [forward, Mailbox.trySend_of_room htake, if_true, ControlEvent.setting,
      List.map_cons, List.map_nil]
    have hqueued : queued { s.take with
        events := { s.take.events with
          waiting := s.take.events.waiting ++ [.bitrateSetting value] }
        forwarded := s.take.forwarded ++ [⟨s.take.taken, value⟩]
        sinceConfigUpdate := 0
        reply := some (.configUpdateAck 0x01 0x01 value) } = [⟨s.take.taken, value⟩] := by
      simp [queued, take, hroom, accepting, Reply.accepted]
    refine ⟨?_, fun _ => ?_, ?_, ?_, fun _ => ⟨?_, ?_⟩⟩
    · rw [hqueued]
      change s.acked ++ _ <+: s.forwarded ++ _
      simp only [hforwarded, List.prefix_rfl]
    · rw [hqueued]
      change s.forwarded ++ _ = s.acked ++ _
      rw [hforwarded]
    · intro update hupdate
      refine ⟨?_, fun hno => ?_⟩
      · rcases List.mem_append.mp hupdate with hold | hnew
        · exact Nat.le_succ_of_le (hle update hold)
        · rw [List.mem_singleton.mp hnew]
      · exact absurd hroom (of_decide_eq_false hno)
    · rw [hqueued]
      change s.settings <+: (s.acked ++ _).map _
      rw [List.map_append]
      exact hinOrder.trans (List.prefix_append _ _)
    · rw [hqueued]
      change s.forwarded ++ _ = s.acked ++ _
      rw [hforwarded]
    · change s.settings ++ (s.events.waiting ++ [_]).flatMap _ = (s.forwarded ++ [_]).map _
      rw [List.flatMap_append, ← List.append_assoc, hset, List.map_append]
      rfl
  · have htake : ¬s.take.events.HasRoom CONTROL_EVENT_CAPACITY := hroom
    simp only [forward, Mailbox.trySend_of_no_room htake, Bool.false_eq_true, if_false]
    have hqueued : queued { s.take with
        sinceConfigUpdate := 0
        reply := some (.configUpdateAck 0x01 0x01 value) } = [] := by
      simp [queued, take, hroom]
    refine Tracked.of_nothing_queued hqueued honQueue (fun update hupdate => ?_) hinOrder hwaits
    have hold := hle update hupdate
    exact ⟨Nat.le_succ_of_le hold, fun _ => Nat.lt_succ_of_le hold⟩

/-- The reply goes, and with it the bitrate that was being acknowledged. -/
theorem Tracked.dropReply_iff
    {s : ControlSession} (hs : s.Tracked) (running : Bool) :
    (Kept { s with running, reply := none } ↔
      (s.accepting ≠ [] → s.hadRoom = true →
        s.events.closed = true ∧ s.settings.length < s.forwarded.length)) ∧
    (Kept { s with running, reply := none } → Tracked { s with running, reply := none }) := by
  have hdropped : accepting { s with running, reply := none } = [] := accepting_of_none rfl
  have hempty : queued { s with running, reply := none } = [] := queued_of_nil hdropped
  by_cases hqueued : s.queued = []
  · -- nothing was queued that is not acknowledged
    have htracked : Tracked { s with running, reply := none } := by
      obtain ⟨honQueue, -, hnumbered, hinOrder, hwaits⟩ := hs
      rw [hqueued, List.append_nil] at honQueue hinOrder hwaits
      exact Tracked.of_nothing_queued hempty honQueue hnumbered hinOrder hwaits
    refine ⟨iff_of_true htracked.kept fun hsome hroom => ?_, fun _ => htracked⟩
    rw [queued_of_room hroom] at hqueued
    exact absurd hqueued hsome
  · have hforwarded := hs.last hqueued
    have hroom : s.hadRoom = true := by
      by_contra hno
      exact hqueued (queued_of_no_room (by simpa using hno))
    have hone : s.queued.length = 1 := by
      rw [queued_of_room hroom] at hqueued ⊢
      rcases s.accepting_cases with hnil | ⟨mbps, hsingle⟩
      · exact absurd hnil hqueued
      · rw [hsingle]
        rfl
    have hlength : s.forwarded.length = s.acked.length + 1 := by
      rw [hforwarded, List.length_append, hone]
    have hlost : Kept { s with running, reply := none } →
        s.events.closed = true ∧ s.settings.length < s.forwarded.length := by
      intro hkept
      have hinOrder := hkept.inOrder.length_le
      rw [hdropped, List.append_nil, List.length_map] at hinOrder
      refine ⟨?_, by rw [hlength]; exact Nat.lt_succ_of_le hinOrder⟩
      by_contra hrunning
      have hopen : s.events.closed = false := by simpa using hrunning
      have hwaits := hkept.waits hopen
      rw [hdropped, List.append_nil, or_self] at hwaits
      have hset := congrArg List.length ((hs.waits hopen).2.symm.trans hwaits)
      rw [List.length_map, List.length_map, hlength] at hset
      exact Nat.succ_ne_self _ hset
    have htracked : s.events.closed = true ∧ s.settings.length < s.forwarded.length →
        Tracked { s with running, reply := none } := by
      rintro ⟨hclosed, hbefore⟩
      refine Tracked.of_nothing_queued hempty ((List.prefix_append _ _).trans hs.onQueue)
        hs.numbered ?_ fun hopen => ?_
      · have hall := hs.inOrder
        rw [List.map_append] at hall
        refine List.prefix_of_prefix_length_le hall (List.prefix_append _ _) ?_
        rw [List.length_map]
        rw [hlength] at hbefore
        exact Nat.le_of_lt_succ hbefore
      · exact absurd (hclosed.symm.trans hopen) (by decide)
    refine ⟨⟨fun hkept _ _ => hlost hkept, fun h => ?_⟩, fun hkept => htracked (hlost hkept)⟩
    refine (htracked (h ?_ hroom)).kept
    rw [← queued_of_room hroom]
    exact hqueued

/-! ### Steps -/

/-- The reply is written: its bitrate has to be on the queue. -/
theorem Tracked.sendReply_iff
    {s : ControlSession} (hs : s.Tracked) :
    ((s.step .sendReply).2.Kept ↔ s.Delivered .sendReply) ∧
      (s.Delivered .sendReply → (s.step .sendReply).2.Tracked) := by
  have hwritten : (s.step .sendReply).2 =
      { s with reply := none, acked := s.acked ++ s.accepting } := by
    unfold step
    cases hreply : s.reply with
    | none =>
        obtain ⟨since, events, reply, running, recording, audio, taken, room, forwarded, acked,
          settings⟩ := s
        subst hreply
        simp [accepting]
    | some reply => rfl
  rw [hwritten]
  have hdropped : accepting { s with reply := none, acked := s.acked ++ s.accepting } = [] :=
    accepting_of_none rfl
  have hempty : queued { s with reply := none, acked := s.acked ++ s.accepting } = [] :=
    queued_of_nil hdropped
  have htracked : s.Delivered .sendReply →
      Tracked { s with reply := none, acked := s.acked ++ s.accepting } := by
    intro hdelivered
    have hqueued : s.queued = s.accepting := by
      rcases List.eq_nil_or_concat s.accepting with hnil | ⟨_, _, hsome⟩
      · rw [queued_of_nil hnil, hnil]
      · exact queued_of_room (hdelivered (by rw [hsome]; simp))
    obtain ⟨honQueue, -, hnumbered, hinOrder, hwaits⟩ := hs
    rw [hqueued] at honQueue hinOrder hwaits
    exact Tracked.of_nothing_queued hempty honQueue hnumbered hinOrder hwaits
  refine ⟨⟨fun hkept hsome => ?_, fun hdelivered => (htracked hdelivered).kept⟩, htracked⟩
  by_contra hroom
  obtain hnil | ⟨mbps, hsingle⟩ := s.accepting_cases
  · exact hsome hnil
  · -- the event of this message is not on the queue
    have hmem := hkept.onQueue ⟨s.taken, mbps⟩
      (List.mem_append_right _ (by rw [hsingle]; exact List.mem_singleton.mpr rfl))
    exact Nat.lt_irrefl _ ((hs.numbered _ hmem).2 (by simpa using hroom))

/-- The frame loop takes an event. -/
theorem Tracked.takeEvent
    {s : ControlSession} (hs : s.Tracked) :
    (s.step .takeEvent).2.Tracked := by
  simp only [step, Mailbox.recv]
  cases hclosed : s.events.closed with
  | true => exact hs
  | false =>
      obtain ⟨hforwarded, hwaits⟩ := hs.waits hclosed
      cases hwaiting : s.events.waiting with
      | nil => exact hs
      | cons event rest =>
          rw [hwaiting, List.flatMap_cons, ← List.append_assoc] at hwaits
          refine ⟨hs.onQueue, hs.last, hs.numbered, ?_, fun _ => ⟨hforwarded, hwaits⟩⟩
          change s.settings ++ event.setting <+: (s.acked ++ s.queued).map _
          rw [← hforwarded]
          exact ⟨_, hwaits⟩

/-- One step keeps the acknowledged bitrates exactly if they are delivered. -/
theorem kept_iff
    {s : ControlSession} (hs : s.Tracked) (call : ControlStep) :
    ((s.step call).2.Kept ↔ s.Delivered call) ∧
      (s.Delivered call → (s.step call).2.Tracked) := by
  have hquiet : ∀ {t : ControlSession}, t.Tracked → (t.Kept ↔ True) ∧ (True → t.Tracked) :=
    fun ht => ⟨iff_of_true ht.kept trivial, fun _ => ht⟩
  cases call with
  | receive elapsed m =>
      refine hquiet ?_
      unfold step
      have hlater : Tracked { s with sinceConfigUpdate := s.sinceConfigUpdate + elapsed } :=
        ⟨hs.onQueue, hs.last, hs.numbered, hs.inOrder, hs.waits⟩
      by_cases hready : (s.running && s.reply.isNone) = true
      · simp only [hready, if_true]
        rw [Bool.and_eq_true, Option.isNone_iff_eq_none] at hready
        rcases handleMessage_cases
          (s := take { s with sinceConfigUpdate := s.sinceConfigUpdate + elapsed }) hready.2 m with
          ⟨value, hnext⟩ | hnext
        · rw [hnext]
          exact hlater.accept hready.2 value
        · exact hlater.quiet hready.2 hnext
      · simp only [hready]
        exact hlater
  | sendReply => exact hs.sendReply_iff
  | replyFails =>
      obtain ⟨hiff, htracked⟩ := hs.dropReply_iff s.running
      exact ⟨hiff, fun h => htracked (hiff.mpr h)⟩
  | takeEvent => exact hquiet hs.takeEvent
  | endSession =>
      exact hquiet ⟨hs.onQueue, hs.last, hs.numbered, hs.inOrder, fun hopen => nomatch hopen⟩
  | stopControl =>
      obtain ⟨hiff, htracked⟩ := hs.dropReply_iff false
      exact ⟨hiff, fun h => htracked (hiff.mpr h)⟩

/-- What an update does: nothing, if it comes too early or is too short; it is accepted; or
it is only answered and taken for the last update. -/
theorem update_cases
    {s : ControlSession} {m : ControlMessage} (hrunning : s.running = true)
    (hreply : s.reply = none) (hupdate : m.msgType = MsgType.CONFIG_UPDATE) (elapsed : Nat) :
    (¬s.RestartsLimit (.receive elapsed m) ∧ (s.step (.receive elapsed m)).2 =
        { s.take with sinceConfigUpdate := s.sinceConfigUpdate + elapsed }) ∨
      (¬s.RestartsLimit (.receive elapsed m) ∧ ∃ key value,
        (s.step (.receive elapsed m)).2.reply = some (.configUpdateAck 0x01 key value)) ∨
      (s.RestartsLimit (.receive elapsed m) ∧ ∃ key value, (s.step (.receive elapsed m)).2 =
        { s.take with
          sinceConfigUpdate := 0
          reply := some (.configUpdateAck 0x00 key value) }) := by
  have hstep : (s.step (.receive elapsed m)).2 =
      configUpdate { s.take with
        sinceConfigUpdate := s.sinceConfigUpdate + elapsed } m.payload := by
    simp only [step, hrunning, hreply, Option.isNone_none, Bool.and_self, if_true,
      handleMessage, hupdate]
    rw [if_neg (by decide), if_neg (by decide)]
    simp only [take, hrunning, hreply]
  rw [hstep]
  rcases configUpdate_cases { s.take with
      sinceConfigUpdate := s.sinceConfigUpdate + elapsed } m.payload rfl rfl with
    ⟨hearly, hnext⟩ | ⟨hok, hnext⟩ | ⟨hok, -, _, _, hnext⟩ | ⟨hlate, hbad, hnext⟩
  · refine Or.inl ⟨?_, hnext⟩
    rintro ⟨-, -, -, hlate, hlength, -⟩
    exact hearly ⟨hlate, hlength⟩
  · refine Or.inr (Or.inl ⟨?_, _, _, congrArg reply hnext⟩)
    rintro ⟨-, -, -, -, -, hbad⟩
    exact hbad hok
  · refine Or.inr (Or.inl ⟨?_, _, _, congrArg reply hnext⟩)
    rintro ⟨-, -, -, -, -, hbad⟩
    exact hbad hok
  · exact Or.inr (Or.inr ⟨⟨hrunning, hreply, hupdate, hlate.1, hlate.2, hbad⟩, _, _, hnext⟩)

/-- A rejected update changes nothing, exactly if it is not looked at; and if it is, only
the wait for the next one starts anew. -/
theorem rejected_spec
    (s : ControlSession) (call : ControlStep) :
    (s.RejectedUnchanged call ↔ ¬s.RestartsLimit call) ∧ s.RejectedLimits call := by
  have hneither : ¬s.Rejected call → ¬s.RestartsLimit call →
      (s.RejectedUnchanged call ↔ ¬s.RestartsLimit call) ∧ s.RejectedLimits call :=
    fun hno hlimit => ⟨iff_of_true (fun h => absurd h hno) hlimit, fun h => absurd h hno⟩
  cases call with
  | receive elapsed m =>
      by_cases htaken : s.running = true ∧ s.reply = none ∧ m.msgType = MsgType.CONFIG_UPDATE
      · obtain ⟨hrunning, hreply, hupdate⟩ := htaken
        rcases update_cases hrunning hreply hupdate elapsed with
          ⟨hno, hnext⟩ | ⟨hno, key, value, hnext⟩ | ⟨hlimit, key, value, hnext⟩
        · refine ⟨iff_of_true (fun _ => ?_) hno, fun _ => ?_⟩
          · rw [hnext]
            rfl
          · rw [hnext]
        · exact hneither (fun hrejected => hrejected.2.2.2 key value hnext) hno
        · have hrejected : s.Rejected (.receive elapsed m) := by
            refine ⟨hrunning, hreply, hupdate, fun key' value' => ?_⟩
            rw [hnext]
            simp
          have hlate := hlimit.2.2.2.1
          refine ⟨iff_of_false (fun hunchanged => ?_) (fun hno => hno hlimit), fun _ => ?_⟩
          · have hsince := congrArg sinceConfigUpdate (hunchanged hrejected)
            rw [hnext] at hsince
            simp only [ControlStep.elapsed] at hsince
            rw [← hsince] at hlate
            exact absurd hlate (by decide)
          · rw [hnext]
      · exact hneither
          (fun hrejected => htaken ⟨hrejected.1, hrejected.2.1, hrejected.2.2.1⟩)
          (fun hlimit => htaken ⟨hlimit.1, hlimit.2.1, hlimit.2.2.1⟩)
  | sendReply => exact hneither id id
  | replyFails => exact hneither id id
  | takeEvent => exact hneither id id
  | endSession => exact hneither id id
  | stopControl => exact hneither id id

/-! ### Runs -/

theorem start_tracked
    (recordingEnabled audioRecordingEnabled : Bool) :
    (start recordingEnabled audioRecordingEnabled).Tracked :=
  ⟨List.prefix_rfl, fun hsome => absurd rfl hsome, nofun, List.prefix_rfl, fun _ => ⟨rfl, rfl⟩⟩

/-- The acknowledged bitrates in a run from a state in which they are on the queue. -/
theorem along_kept_iff
    {s : ControlSession} (hs : s.Tracked) (calls : List ControlStep) :
    Run.Along step (fun s call => (s.step call).2.Kept) s calls ↔
      Run.Along step Delivered s calls :=
  @Run.along_congr_of _ _ _ step (fun s call => (s.step call).2.Kept) Delivered Tracked
    (fun _ call hs => (kept_iff hs call).2) (fun _ call hs => (kept_iff hs call).1) s hs calls

/-- **Acknowledged settings.**  They are kept in exactly the runs in which they are
delivered.  A rejected update only ever restarts the wait for the next one, and it changes
nothing in exactly the runs in which none is looked at. -/
theorem settingsKept_iff
    (recordingEnabled audioRecordingEnabled : Bool) (calls : List ControlStep) :
    let s := start recordingEnabled audioRecordingEnabled
    (Run.Along step Right s calls ↔
      Run.Along step (fun s call => s.Delivered call ∧ ¬s.RestartsLimit call) s calls) ∧
    (Run.Along step (fun s call => (s.step call).2.Kept ∧ s.RejectedLimits call) s calls ↔
      Run.Along step Delivered s calls) := by
  intro s
  have hs : s.Tracked := start_tracked _ _
  refine ⟨?_, ?_⟩
  · refine @Run.along_congr_of _ _ _ step Right
      (fun s call => s.Delivered call ∧ ¬s.RestartsLimit call) Tracked ?_ ?_ s hs calls
    · exact fun s call hs hcall => (kept_iff hs call).2 hcall.1
    · exact fun s call hs => and_congr (kept_iff hs call).1 (rejected_spec s call).1
  · rw [← along_kept_iff hs]
    exact @Run.along_congr _ _ _ step _ _ (fun _ => True) (fun _ _ _ => trivial)
      (fun s call _ => and_iff_left (rejected_spec s call).2) s trivial calls

/-! ### A stalled frame loop -/

/-- `TRANSPORT_FEEDBACK` without entries. -/
def emptyFeedback : ControlStep :=
  .receive 0 ⟨MsgType.TRANSPORT_FEEDBACK, [0, 0]⟩

/-- `CONFIG_UPDATE` of the bitrate to 100 Mbps. -/
def update100 : ControlStep :=
  .receive 0 ⟨MsgType.CONFIG_UPDATE, [0x01, 100, 0, 0, 0]⟩

/-- Without a frame loop that takes them, events pile up. -/
theorem final_emptyFeedback
    {n : Nat} (hn : n ≤ CONTROL_EVENT_CAPACITY) :
    Run.final step (start false false) (List.replicate n emptyFeedback) =
      { start false false with
        events := { waiting := List.replicate n (.transportFeedback []) }
        taken := n } := by
  induction n with
  | zero => rfl
  | succ n ih =>
      have hroom : Mailbox.HasRoom CONTROL_EVENT_CAPACITY
          (⟨List.replicate n (.transportFeedback []), false⟩ : Mailbox ControlEvent) :=
        ⟨rfl, by rw [List.length_replicate]; exact hn⟩
      have hparse : parseTransportFeedback [0, 0] = some [] := rfl
      rw [List.replicate_succ', Run.final_append, ih (Nat.le_of_succ_le hn)]
      simp only [Run.final_cons, Run.final_nil, emptyFeedback, step, start, Bool.and_self,
        Option.isNone_none, if_true, handleMessage, take, hroom, decide_true]
      rw [if_neg (by decide), hparse]
      simp only [forward, Mailbox.trySend_of_room hroom, ControlEvent.setting, List.map_nil,
        List.append_nil, ite_self, Nat.add_zero, ← List.replicate_succ']

/-- On a full queue the setting is acknowledged, and nothing else happens to it. -/
theorem update100_final
    {s : ControlSession} (hfull : ¬s.events.HasRoom CONTROL_EVENT_CAPACITY)
    (hrunning : s.running = true) (hreply : s.reply = none)
    (hsince : CONFIG_UPDATE_MIN_INTERVAL ≤ s.sinceConfigUpdate) :
    Run.final step s [update100, .sendReply] =
      { s.take with
        sinceConfigUpdate := 0
        acked := s.acked ++ [⟨s.taken + 1, 100⟩] } := by
  obtain ⟨since, events, reply, running, recording, audio, taken, room, forwarded, acked,
    settings⟩ := s
  dsimp only at hfull hrunning hreply hsince
  subst hrunning hreply
  have hlimit : ¬since < CONFIG_UPDATE_MIN_INTERVAL := Nat.not_lt.mpr hsince
  have hvalue : readU32Le [0x01, 100, 0, 0, 0] 1 = 100 := by decide
  have hrange : bitrateInRange 100 = true := by decide
  have happly : ∀ t : ControlSession, t.events = events →
      t.applyUpdate 0x01 100 = (0x01, t) := by
    intro t ht
    subst ht
    unfold applyUpdate forward
    rw [if_pos rfl, hrange, if_pos rfl, Mailbox.trySend_of_no_room hfull]
    rfl
  simp only [Run.final_cons, Run.final_nil, update100, step, Option.isNone_none, Bool.and_self,
    if_true, handleMessage, configUpdate, Nat.add_zero, take]
  rw [if_neg (by decide), if_neg (by decide)]
  simp only [hlimit, if_false, hvalue, List.getD_cons_zero, happly]
  rfl

/-- The queue is full of feedback when the setting comes: it is acknowledged and lost. -/
theorem fullQueue_losesSetting :
    let calls :=
      List.replicate CONTROL_EVENT_CAPACITY emptyFeedback ++ [update100, .sendReply]
    ¬Run.Along step Right (start false false) calls ∧
      (Run.final step (start false false) calls).acked =
        [⟨CONTROL_EVENT_CAPACITY + 1, 100⟩] ∧
      (Run.final step (start false false) calls).forwarded = [] := by
  intro calls
  have hfull : ¬Mailbox.HasRoom CONTROL_EVENT_CAPACITY
      (⟨List.replicate CONTROL_EVENT_CAPACITY (.transportFeedback []), false⟩ :
        Mailbox ControlEvent) := by
    rintro ⟨-, hlength⟩
    rw [List.length_replicate] at hlength
    exact Nat.lt_irrefl _ hlength
  have hfinal : Run.final step (start false false) calls =
      { take { start false false with
          events := { waiting :=
            List.replicate CONTROL_EVENT_CAPACITY (.transportFeedback []) }
          taken := CONTROL_EVENT_CAPACITY } with
        sinceConfigUpdate := 0
        acked := [⟨CONTROL_EVENT_CAPACITY + 1, 100⟩] } := by
    rw [Run.final_append, final_emptyFeedback (Nat.le_refl _)]
    exact update100_final hfull rfl rfl (by decide)
  refine ⟨fun h => ?_, ?_, ?_⟩
  · have hsplit : calls =
        (List.replicate CONTROL_EVENT_CAPACITY emptyFeedback ++ [update100]) ++ [.sendReply] :=
      (List.append_assoc _ [update100] [.sendReply]).symm
    have hkept : (Run.final step (start false false) calls).Kept := by
      rw [hsplit, Run.along_append] at h
      rw [hsplit, Run.final_append]
      exact h.2.1.1
    rw [hfinal] at hkept
    exact absurd (hkept.onQueue _ (List.mem_singleton.mpr rfl)) List.not_mem_nil
  · rw [hfinal]
  · rw [hfinal]
    rfl

end ControlSession
end Engine
end FocusVision
