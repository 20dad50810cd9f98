import FocusVision.Client.StreamSession

/-!
# Sessions do not leak into each other

What holds of the stream session in every interleaving of its thread with the calls
of the others.  The hooks alternate in all of them.  That messages and IDR requests
stay in the session that their callers saw needs an orderly run: the calls test the
state before they take the lock, and `run` clears the outbox and the IDR flag while
the state still says that it is streaming, so that a call with its second half after
the clearing leaves something behind for the next session.
-/

namespace FocusVision
namespace Client

/-- The calls of the other threads leave the session thread alone. -/
theorem StreamSession.step_elsewhere
    (s : StreamSession) {a : SessionStep} (h : ∀ io, a ≠ .thread io) :
    (s.step a).2.pc = s.pc ∧ (s.step a).2.fsm = s.fsm ∧ (s.step a).2.hooks = s.hooks := by
  unfold StreamSession.step
  cases a with
  | send message =>
      simp only
      split_ifs
      · exact ⟨rfl, rfl, rfl⟩
      · exact ⟨rfl, rfl, rfl⟩
  | requestIdr =>
      simp only
      split_ifs
      · exact ⟨rfl, rfl, rfl⟩
      · exact ⟨rfl, rfl, rfl⟩
  | finish call =>
      simp only [StreamSession.finish]
      split
      · exact ⟨rfl, rfl, rfl⟩
      · exact ⟨rfl, rfl, rfl⟩
      · exact ⟨rfl, rfl, rfl⟩
  | setViewConfig payload =>
      simp only [StreamSession.setViewConfig]
      split_ifs
      · exact ⟨rfl, rfl, rfl⟩
      · exact ⟨rfl, rfl, rfl⟩
  | requestStop => exact ⟨rfl, rfl, rfl⟩
  | dropConnectionForTest => exact ⟨rfl, rfl, rfl⟩
  | thread io => exact absurd rfl (h io)

/-! ### Hooks -/

/-- The hooks alternate, beginning with a start; the flag says that a session is open. -/
inductive Alternating : List Hook → Bool → Prop
  | nil : Alternating [] false
  | streamStart {hooks : List Hook} :
      Alternating hooks false → Alternating (hooks ++ [.streamStart]) true
  | streamEnd {hooks : List Hook} :
      Alternating hooks true → Alternating (hooks ++ [.streamEnd]) false

namespace Pc

/-- The state of the state machine at a point of `run`, where there is only one. -/
def fsmState : Pc → Option SessionState
  | .begin => some .disconnected
  | .connecting => some .connecting
  | .pairing => some .pairing
  | .startHook => some .configuring
  | .startStream => some .configuring
  | .startFailed => some .configuring
  | .backoff => some .reconnecting
  | .waitStop => some .disconnected
  | .loop => none
  | .publish => none
  | .leaving => none
  | .finalDisconnect => none
  | .exited => none
  | _ => some .streaming

/-- Between the two hooks of a session. -/
def hooked (fsm : SessionState) : Pc → Bool
  | .begin => false
  | .connecting => false
  | .pairing => false
  | .startHook => false
  | .backoff => false
  | .waitStop => false
  | .finalDisconnect => false
  | .exited => false
  | .loop => decide (fsm = .streaming)
  | .publish => decide (fsm = .streaming)
  | .leaving => decide (fsm = .streaming)
  | _ => true

/-- Inside `runStreaming`, behind its first locked section. -/
def Serving : Pc → Prop
  | .poll => True
  | .dropTest => True
  | .swapOutbox => True
  | .sending _ => True
  | .takeIdr => True
  | .sendIdr _ => True
  | .heartbeat => True
  | .receive => True
  | _ => False

/-- What `runStreaming` took from the outbox and has not sent. -/
def upcoming : Pc → List Item
  | .sending items => items
  | _ => []

/-- Steps that have nothing to do with messages. -/
def quiet : Pc → Bool
  | .viewUnsent => false
  | .swapOutbox => false
  | .sending _ => false
  | .takeIdr => false
  | .sendIdr _ => false
  | .disconnect => false
  | .clearOutbox => false
  | .clearIdr => false
  | _ => true

end Pc

namespace StreamSession

/-- The hooks alternate, and a session is open where the thread needs one. -/
structure HooksOk (s : StreamSession) : Prop where
  fsm : ∀ state, s.pc.fsmState = some state → s.fsm.state = state
  hooks : Alternating s.hooks (s.pc.hooked s.fsm.state)

/-- At a point where the state machine may be anywhere. -/
theorem HooksOk.anywhere
    {s : StreamSession} (hpc : s.pc = .publish ∨ s.pc = .loop ∨ s.pc = .leaving)
    (hhooks : Alternating s.hooks (decide (s.fsm.state = .streaming))) :
    s.HooksOk := by
  rcases hpc with hpc | hpc | hpc
  all_goals
    refine ⟨fun _ h => ?_, ?_⟩
    · rw [hpc] at h
      exact absurd h (by simp [Pc.fsmState])
    · rw [hpc]
      exact hhooks

theorem HooksOk.threadStep
    {s : StreamSession} (h : s.HooksOk) (io : Io) :
    (s.threadStep io).HooksOk := by
  have hfsm := h.fsm
  have hhooks := h.hooks
  unfold StreamSession.threadStep
  cases hpc : s.pc with
  | begin =>
      rw [hpc] at hfsm hhooks
      have hstate := hfsm _ rfl
      refine HooksOk.anywhere (Or.inr (Or.inl rfl)) ?_
      simpa [ClientSession.onEvent, hstate, Pc.hooked] using hhooks
  | loop =>
      rw [hpc] at hhooks
      cases s.stop with
      | true => exact HooksOk.anywhere (Or.inr (Or.inr rfl)) hhooks
      | false =>
          have hhooks' : Alternating s.hooks (decide (s.fsm.state = .streaming)) := hhooks
          cases hstate : s.fsm.state
          all_goals
            rw [hstate] at hhooks'
            refine ⟨fun state h => ?_, ?_⟩
            · simpa [dispatch, Pc.fsmState, hstate] using h
            · simpa [dispatch, Pc.hooked] using hhooks'
  | connecting =>
      rw [hpc] at hfsm hhooks
      have hstate := hfsm _ rfl
      refine HooksOk.anywhere (Or.inl rfl) ?_
      cases io.ok <;>
        simpa [ClientSession.onEvent, ClientSession.enterReconnect, hstate, Pc.hooked] using hhooks
  | pairing =>
      rw [hpc] at hfsm hhooks
      have hstate := hfsm _ rfl
      refine HooksOk.anywhere (Or.inl rfl) ?_
      cases io.handshake <;>
        simpa [ClientSession.onEvent, ClientSession.enterReconnect, HandshakeResult.event, hstate,
          Pc.hooked] using hhooks
  | startHook =>
      rw [hpc] at hfsm hhooks
      exact ⟨hfsm, hhooks.streamStart⟩
  | startStream =>
      rw [hpc] at hfsm hhooks
      cases io.ok with
      | true =>
          refine ⟨fun state h => ?_, hhooks⟩
          simpa [ClientSession.onEvent, Pc.fsmState, hfsm _ rfl] using h
      | false => exact ⟨hfsm, hhooks⟩
  | publishStreaming =>
      rw [hpc] at hfsm hhooks
      refine HooksOk.anywhere (Or.inl rfl) ?_
      simpa [hfsm _ rfl, Pc.hooked] using hhooks
  | startFailed =>
      rw [hpc] at hfsm hhooks
      refine HooksOk.anywhere (Or.inl rfl) ?_
      simpa [ClientSession.onEvent, ClientSession.enterReconnect, hfsm _ rfl] using
        hhooks.streamEnd
  | viewUnsent =>
      rw [hpc] at hfsm hhooks
      exact ⟨hfsm, hhooks⟩
  | poll =>
      rw [hpc] at hfsm hhooks
      cases s.stop <;> exact ⟨hfsm, hhooks⟩
  | dropTest =>
      rw [hpc] at hfsm hhooks
      cases s.dropForTest <;> exact ⟨hfsm, hhooks⟩
  | swapOutbox =>
      rw [hpc] at hfsm hhooks
      unfold StreamSession.swapOutbox
      simp only
      split <;> exact ⟨hfsm, hhooks⟩
  | sending outbox =>
      rw [hpc] at hfsm hhooks
      cases outbox with
      | nil => exact ⟨hfsm, hhooks⟩
      | cons item outbox => cases io.ok <;> exact ⟨hfsm, hhooks⟩
  | takeIdr =>
      rw [hpc] at hfsm hhooks
      cases s.idrPending <;> exact ⟨hfsm, hhooks⟩
  | sendIdr made =>
      rw [hpc] at hfsm hhooks
      cases io.ok <;> exact ⟨hfsm, hhooks⟩
  | heartbeat =>
      rw [hpc] at hfsm hhooks
      cases io.heartbeatDue && !io.ok <;> exact ⟨hfsm, hhooks⟩
  | receive =>
      rw [hpc] at hfsm hhooks
      cases io.closed || io.silent <;> exact ⟨hfsm, hhooks⟩
  | returned =>
      rw [hpc] at hfsm hhooks
      cases s.stop with
      | true =>
          refine HooksOk.anywhere (Or.inl rfl) ?_
          simpa [hfsm _ rfl, Pc.hooked] using hhooks
      | false => exact ⟨hfsm, hhooks⟩
  | disconnect =>
      rw [hpc] at hfsm hhooks
      exact ⟨hfsm, hhooks⟩
  | clearOutbox =>
      rw [hpc] at hfsm hhooks
      exact ⟨hfsm, hhooks⟩
  | clearIdr =>
      rw [hpc] at hfsm hhooks
      exact ⟨hfsm, hhooks⟩
  | endHook =>
      rw [hpc] at hfsm hhooks
      refine HooksOk.anywhere (Or.inl rfl) ?_
      simpa [ClientSession.onEvent, ClientSession.enterReconnect, hfsm _ rfl] using
        hhooks.streamEnd
  | backoff =>
      rw [hpc] at hfsm hhooks
      refine HooksOk.anywhere (Or.inl rfl) ?_
      cases s.stop <;> simpa [ClientSession.onEvent, hfsm _ rfl, Pc.hooked] using hhooks
  | waitStop =>
      cases s.stop with
      | true =>
          rw [hpc] at hfsm hhooks
          refine HooksOk.anywhere (Or.inl rfl) ?_
          simpa [hfsm _ rfl, Pc.hooked] using hhooks
      | false => exact h
  | publish =>
      rw [hpc] at hhooks
      exact HooksOk.anywhere (Or.inr (Or.inl rfl)) hhooks
  | leaving =>
      rw [hpc] at hhooks
      have hhooks' : Alternating s.hooks (decide (s.fsm.state = .streaming)) := hhooks
      by_cases hstate : s.fsm.state = .streaming
      · rw [hstate] at hhooks'
        refine ⟨fun state h => ?_, ?_⟩
        · simpa [hstate, Pc.fsmState] using h
        · simpa [hstate, Pc.hooked] using hhooks'
      · refine ⟨fun state h => ?_, ?_⟩
        · simp [hstate, Pc.fsmState] at h
        · simpa [hstate, Pc.hooked] using hhooks'
  | goodbyeHook =>
      rw [hpc] at hhooks
      exact ⟨fun _ h => absurd h (by simp [Pc.fsmState]), hhooks.streamEnd⟩
  | finalDisconnect =>
      rw [hpc] at hhooks
      exact ⟨fun _ h => absurd h (by simp [Pc.fsmState]), hhooks⟩
  | exited => exact h

theorem HooksOk.step
    {s : StreamSession} (h : s.HooksOk) (a : SessionStep) :
    (s.step a).2.HooksOk := by
  by_cases hthread : ∃ io, a = .thread io
  · obtain ⟨io, rfl⟩ := hthread
    exact h.threadStep io
  · obtain ⟨hpc, hfsm, hhooks⟩ := s.step_elsewhere fun io ha => hthread ⟨io, ha⟩
    refine ⟨?_, ?_⟩
    · rw [hpc, hfsm]
      exact h.fsm
    · rw [hpc, hfsm, hhooks]
      exact h.hooks

/--
The stream-start and stream-end hooks alternate.  `runStreaming` only sends between a start
and its end, and when the thread exits, every start has had its end.
-/
theorem hooks_alternate
    (view : Option ViewConfigPayload) (viewUnsent : Bool) (steps : List SessionStep) :
    let s := Run.final step (started view viewUnsent) steps
    ∃ opened, Alternating s.hooks opened ∧ (s.pc.Serving → opened = true) ∧
      (s.pc = .exited → opened = false) := by
  intro s
  have hstart : (started view viewUnsent).HooksOk :=
    ⟨fun _ h => Option.some.inj h, Alternating.nil⟩
  have h : s.HooksOk :=
    @Run.final_invariant _ _ _ step HooksOk (fun _ a hs => hs.step a) _ hstart steps
  refine ⟨_, h.hooks, fun hserving => ?_, fun hexited => ?_⟩
  · generalize s.pc = pc at hserving ⊢
    cases pc <;> first | rfl | exact hserving.elim
  · rw [hexited]
    rfl

/-! ### Messages -/

/-- Nothing happens to the messages. -/
structure Quiet (s t : StreamSession) : Prop where
  outbox : t.outbox = s.outbox
  pushed : t.pushed = s.pushed
  sent : t.sent = s.sent
  closed : t.closed = s.closed
  idrMade : t.idrMade = s.idrMade
  view : t.view = s.view
  viewUnsent : t.viewUnsent = s.viewUnsent
  upcoming : t.pc.upcoming = []
  serving : t.pc.Serving → s.pc.Serving
  sendIdr : ∀ made, t.pc ≠ .sendIdr made

theorem quiet_threadStep
    {s : StreamSession} (h : s.pc.quiet = true) (io : Io) :
    Quiet s (s.threadStep io) := by
  unfold StreamSession.threadStep
  cases hpc : s.pc with
  | begin => constructor <;> simp [Pc.upcoming, Pc.Serving]
  | loop =>
      cases s.stop with
      | true => constructor <;> simp [Pc.upcoming, Pc.Serving]
      | false => cases s.fsm.state <;> constructor <;> simp [dispatch, Pc.upcoming, Pc.Serving]
  | startStream => cases io.ok <;> constructor <;> simp [Pc.upcoming, Pc.Serving]
  | poll => cases s.stop <;> constructor <;> simp [Pc.upcoming, Pc.Serving, hpc]
  | dropTest => cases s.dropForTest <;> constructor <;> simp [Pc.upcoming, Pc.Serving, hpc]
  | heartbeat =>
      cases io.heartbeatDue && !io.ok <;> constructor <;> simp [Pc.upcoming, Pc.Serving, hpc]
  | receive =>
      cases io.closed || io.silent <;> constructor <;> simp [Pc.upcoming, Pc.Serving, hpc]
  | returned => cases s.stop <;> constructor <;> simp [Pc.upcoming, Pc.Serving]
  | waitStop => cases s.stop <;> constructor <;> simp [Pc.upcoming, Pc.Serving, hpc]
  | leaving =>
      by_cases hstate : s.fsm.state = .streaming
      all_goals constructor <;> simp [hstate, Pc.upcoming, Pc.Serving]
  | exited => constructor <;> simp [Pc.upcoming, Pc.Serving, hpc]
  | viewUnsent => simp [hpc, Pc.quiet] at h
  | swapOutbox => simp [hpc, Pc.quiet] at h
  | sending outbox => simp [hpc, Pc.quiet] at h
  | takeIdr => simp [hpc, Pc.quiet] at h
  | sendIdr made => simp [hpc, Pc.quiet] at h
  | disconnect => simp [hpc, Pc.quiet] at h
  | clearOutbox => simp [hpc, Pc.quiet] at h
  | clearIdr => simp [hpc, Pc.quiet] at h
  | _ => constructor <;> simp [Pc.upcoming, Pc.Serving]

/-- The messages of the outbox among what is sent. -/
def queuedItems (items : List Item) : List QueuedMessage :=
  items.filterMap fun item =>
    match item with
    | .queued q => some q
    | _ => none

theorem queuedItems_map
    (outbox : List QueuedMessage) :
    queuedItems (outbox.map .queued) = outbox := by
  induction outbox with
  | nil => rfl
  | cons q outbox ih => exact congrArg (q :: ·) ih

theorem queuedItems_append
    (items items' : List Item) :
    queuedItems (items ++ items') = queuedItems items ++ queuedItems items' := by
  simp [queuedItems]

/-- What has been sent, what is about to be, and what is still in the outbox. -/
def messages (s : StreamSession) : List QueuedMessage :=
  queuedItems (s.sent.map Sent.item) ++ queuedItems s.pc.upcoming ++ s.outbox

theorem swapOutbox_messages
    (s : StreamSession) (h : s.pc.upcoming = []) :
    s.swapOutbox.messages = s.messages := by
  unfold messages swapOutbox
  rw [h]
  simp only
  split
  · simp only [Pc.upcoming, queuedItems_append, queuedItems_map]
    simp [queuedItems]
  · simp only [Pc.upcoming, queuedItems_map]
    simp [queuedItems]

/-- The session thread sends messages or drops them, and keeps their order. -/
theorem threadStep_messages
    (s : StreamSession) (io : Io) :
    (s.threadStep io).messages.Sublist s.messages ∧ (s.threadStep io).pushed = s.pushed := by
  by_cases hquiet : s.pc.quiet = true
  · have h := quiet_threadStep hquiet io
    refine ⟨?_, h.pushed⟩
    unfold messages
    rw [h.sent, h.upcoming, h.outbox]
    refine List.Sublist.append_right ?_ s.outbox
    exact List.Sublist.append_left (List.nil_sublist _) _
  · unfold threadStep
    cases hpc : s.pc with
    | viewUnsent => exact ⟨by simp [messages, hpc, Pc.upcoming], rfl⟩
    | swapOutbox =>
        refine ⟨?_, ?_⟩
        · rw [show s.swapOutbox.messages = s.messages from
            s.swapOutbox_messages (by rw [hpc]; rfl)]
        · simp only [swapOutbox]
          split <;> rfl
    | sending outbox =>
        cases outbox with
        | nil => exact ⟨by simp [messages, hpc, Pc.upcoming], rfl⟩
        | cons item outbox =>
            cases io.ok with
            | true =>
                have hsame : queuedItems ((s.sent ++ [(⟨s.closed, item⟩ : Sent)]).map Sent.item) ++
                    queuedItems outbox =
                    queuedItems (s.sent.map Sent.item) ++ queuedItems (item :: outbox) := by
                  rw [List.map_append, ← queuedItems_append, ← queuedItems_append,
                    List.append_assoc]
                  rfl
                refine ⟨?_, rfl⟩
                simp only [messages, hpc, Pc.upcoming, if_true, hsame]
                exact List.Sublist.refl _
            | false =>
                refine ⟨?_, rfl⟩
                simp only [messages, hpc, Pc.upcoming, Bool.false_eq_true, if_false]
                refine List.Sublist.append_right ?_ s.outbox
                exact List.Sublist.append_left (List.nil_sublist _) _
    | takeIdr => cases s.idrPending <;> exact ⟨by simp [messages, hpc, Pc.upcoming], rfl⟩
    | sendIdr made =>
        cases io.ok with
        | true => exact ⟨by simp [messages, hpc, Pc.upcoming, queuedItems], rfl⟩
        | false => exact ⟨by simp [messages, hpc, Pc.upcoming], rfl⟩
    | disconnect => exact ⟨by simp [messages, hpc, Pc.upcoming], rfl⟩
    | clearOutbox => exact ⟨by simp [messages, hpc, Pc.upcoming], rfl⟩
    | clearIdr => exact ⟨by simp [messages, hpc, Pc.upcoming], rfl⟩
    | _ => exact absurd (by rw [hpc]; rfl) hquiet

/-- A call queues its message behind the others, or nothing. -/
theorem step_messages
    (s : StreamSession) (a : SessionStep) (h : s.messages.Sublist s.pushed) :
    (s.step a).2.messages.Sublist (s.step a).2.pushed := by
  unfold step
  cases a with
  | send message => simp only; split_ifs <;> exact h
  | requestIdr => simp only; split_ifs <;> exact h
  | finish call =>
      simp only [finish]
      split
      · exact h
      · rename_i message made _
        have htail : (if s.outbox.length ≥ kMaxOutbox then s.outbox.tail else s.outbox).Sublist
            s.outbox := by
          split_ifs
          · exact List.tail_sublist _
          · exact List.Sublist.refl _
        have hall : (queuedItems (s.sent.map Sent.item) ++ queuedItems s.pc.upcoming ++
            (if s.outbox.length ≥ kMaxOutbox then s.outbox.tail else s.outbox)).Sublist
            s.pushed :=
          (List.Sublist.append_left htail _).trans h
        have hnext := hall.append (List.Sublist.refl [(⟨message, made⟩ : QueuedMessage)])
        rw [List.append_assoc] at hnext
        exact hnext
      · exact h
  | setViewConfig payload =>
      simp only [setViewConfig]
      split_ifs <;> exact h
  | requestStop => exact h
  | dropConnectionForTest => exact h
  | thread io =>
      obtain ⟨hmessages, hpushed⟩ := s.threadStep_messages io
      simp only
      rw [hpushed]
      exact hmessages.trans h

/-- Messages are sent in the order in which they were queued, and none is sent twice. -/
theorem sent_in_order
    (view : Option ViewConfigPayload) (viewUnsent : Bool) (steps : List SessionStep) :
    let s := Run.final step (started view viewUnsent) steps
    (queuedItems (s.sent.map Sent.item)).Sublist s.pushed := by
  intro s
  have h : s.messages.Sublist s.pushed :=
    @Run.final_invariant _ _ _ step (fun s => s.messages.Sublist s.pushed)
      (fun s a hs => s.step_messages a hs) _ (List.Sublist.refl _) steps
  refine List.Sublist.trans ?_ h
  unfold messages
  rw [List.append_assoc]
  exact List.sublist_append_left _ _

/-! ### The view -/

/-- The views among what is sent. -/
def views (items : List Item) : List ViewConfigPayload :=
  items.filterMap fun item =>
    match item with
    | .view v => some v
    | _ => none

/-- What was sent in the session, and what is about to be. -/
def sessionItems (s : StreamSession) : List Item :=
  (s.sent.filter fun x => x.session = s.closed).map Sent.item ++ s.pc.upcoming

/-- The server has the view, or it is on its way. -/
def ViewKnown (s : StreamSession) : Prop :=
  s.pc.Serving → s.viewUnsent = false → ∀ v, s.view = some v →
    (views s.sessionItems).getLast? = some v

theorem views_append
    (items items' : List Item) :
    views (items ++ items') = views items ++ views items' := by
  simp [views]

theorem views_map_queued
    (outbox : List QueuedMessage) :
    views (outbox.map .queued) = [] := by
  induction outbox with
  | nil => rfl
  | cons q outbox ih => exact ih

theorem ViewKnown.swapOutbox
    {s : StreamSession} (h : s.ViewKnown) (hpc : s.pc = .swapOutbox) :
    s.swapOutbox.ViewKnown := by
  unfold StreamSession.swapOutbox
  cases hunsent : s.viewUnsent with
  | true =>
      cases hview : s.view with
      | none =>
          intro _ hsent
          exact absurd hsent (by simp)
      | some v =>
          intro _ _ w hw
          have hsame : v = w := Option.some.inj hw
          subst hsame
          simp only [sessionItems, Pc.upcoming, views_append]
          rw [← List.append_assoc]
          exact List.getLast?_concat
  | false =>
      intro _ _ v hv
      have hknown := h (by rw [hpc]; trivial) hunsent v hv
      simp only [sessionItems, hpc, Pc.upcoming, List.append_nil] at hknown
      simp only [sessionItems, Pc.upcoming, views_append, views_map_queued, List.append_nil]
      exact hknown

theorem ViewKnown.threadStep
    {s : StreamSession} (h : s.ViewKnown) (io : Io) :
    (s.threadStep io).ViewKnown := by
  by_cases hquiet : s.pc.quiet = true
  · have hstep := quiet_threadStep hquiet io
    have hupcoming : s.pc.upcoming = [] := by
      cases hpc : s.pc <;> first | rfl | simp [hpc, Pc.quiet] at hquiet
    intro hserving hsent v hv
    rw [hstep.viewUnsent] at hsent
    rw [hstep.view] at hv
    have hknown := h (hstep.serving hserving) hsent v hv
    unfold sessionItems at hknown ⊢
    rw [hstep.sent, hstep.closed, hstep.upcoming]
    rw [hupcoming] at hknown
    exact hknown
  · unfold StreamSession.threadStep
    cases hpc : s.pc with
    | viewUnsent =>
        intro _ hsent v hv
        have hnone : s.view.isSome = false := hsent
        rw [show s.view = some v from hv] at hnone
        exact absurd hnone (by simp)
    | swapOutbox => exact h.swapOutbox hpc
    | sending outbox =>
        cases outbox with
        | nil =>
            intro _ hsent v hv
            have hknown := h (by rw [hpc]; trivial) hsent v hv
            unfold sessionItems at hknown ⊢
            rw [hpc] at hknown
            exact hknown
        | cons item outbox =>
            cases io.ok with
            | true =>
                intro _ hsent v hv
                have hknown := h (by rw [hpc]; trivial) hsent v hv
                simp only [sessionItems, hpc, Pc.upcoming] at hknown
                simpa [sessionItems, Pc.upcoming] using hknown
            | false => exact fun hserving => hserving.elim
    | takeIdr =>
        cases s.idrPending
        all_goals
          intro _ hsent v hv
          have hknown := h (by rw [hpc]; trivial) hsent v hv
          simp only [sessionItems, hpc, Pc.upcoming] at hknown
          exact hknown
    | sendIdr made =>
        cases io.ok with
        | true =>
            intro _ hsent v hv
            have hknown := h (by rw [hpc]; trivial) hsent v hv
            simp only [sessionItems, hpc, Pc.upcoming, List.append_nil] at hknown
            simp only [sessionItems, Pc.upcoming, List.append_nil, if_true, List.filter_append,
              List.map_append, views_append]
            simpa [views] using hknown
        | false => exact fun hserving => hserving.elim
    | disconnect => exact fun hserving => hserving.elim
    | clearOutbox => exact fun hserving => hserving.elim
    | clearIdr => exact fun hserving => hserving.elim
    | _ => exact absurd (by rw [hpc]; rfl) hquiet

theorem ViewKnown.step
    {s : StreamSession} (h : s.ViewKnown) (a : SessionStep) :
    (s.step a).2.ViewKnown := by
  unfold StreamSession.step
  cases a with
  | send message => simp only; split_ifs <;> exact h
  | requestIdr => simp only; split_ifs <;> exact h
  | finish call =>
      simp only [finish]
      split <;> exact h
  | setViewConfig payload =>
      simp only [setViewConfig]
      split_ifs
      · exact h
      · exact fun _ hsent => absurd hsent (by simp)
  | requestStop => exact h
  | dropConnectionForTest => exact h
  | thread io => exact h.threadStep io

/--
Behind the first section of `runStreaming`: unless a change of the view is pending, the last
view that was sent in this session, or is about to be, is the one that is set.
-/
theorem view_known
    (view : Option ViewConfigPayload) (viewUnsent : Bool) (steps : List SessionStep) :
    let s := Run.final step (started view viewUnsent) steps
    s.pc.Serving → s.viewUnsent = false → ∀ v, s.view = some v →
      (views ((s.sent.filter fun x => x.session = s.closed).map Sent.item ++
        s.pc.upcoming)).getLast? = some v :=
  @Run.final_invariant _ _ _ step ViewKnown (fun _ a hs => hs.step a) (started view viewUnsent)
    (fun hserving => False.elim hserving) steps

/-- The session thread goes on for so many steps. -/
def goesOn (count : Nat) : List SessionStep :=
  List.replicate count (.thread {})

/-- The view is set before the first session and changes in it; the second one has it too. -/
def viewChanges : List SessionStep :=
  [.setViewConfig (Vector.replicate 36 1)] ++ goesOn 18 ++
    [.setViewConfig (Vector.replicate 36 2)] ++ goesOn 11 ++ [.thread { closed := true }] ++
    goesOn 27

theorem view_known_viewChanges :
    let s := Run.final step (started none false) viewChanges
    s.pc = .takeIdr ∧ s.closed = 1 ∧
      (views ((s.sent.filter fun x => x.session = s.closed).map Sent.item ++
        s.pc.upcoming)).getLast? = some (Vector.replicate 36 2) := by
  intro s
  have hpc : s.pc = .takeIdr := by decide +kernel
  refine ⟨hpc, by decide +kernel, ?_⟩
  refine view_known none false viewChanges ?_ (by decide +kernel) _ (by decide +kernel)
  have hserving : s.pc.Serving := by
    rw [hpc]
    trivial
  exact hserving

/-! ### Calls -/

end StreamSession

/-- What is sent stands for calls that saw this session streaming. -/
def Item.Of (session : Nat) : Item → Prop
  | .queued q => q.made = session
  | .view _ => True
  | .idr made => ∀ m ∈ made, m = session

namespace StreamSession

/-- The session that the call saw is still connected, or `run` has yet to clear what the call
leaves behind. -/
def MayFinish (s : StreamSession) : HalfCall → Prop
  | .send _ made => made = s.closed ∨ s.pc = .clearOutbox
  | .requestIdr made => made = s.closed ∨ s.pc = .clearOutbox ∨ s.pc = .clearIdr

/-- No call has its second half too late. -/
def InTime (s : StreamSession) : SessionStep → Prop
  | .finish call => ∀ c ∈ s.calls[call]?, s.MayFinish c
  | _ => True

/-- Everything belongs to the session, except for what `run` is about to clear. -/
structure OwnCalls (s : StreamSession) : Prop where
  sent : ∀ x ∈ s.sent, x.item.Of x.session
  upcoming : ∀ item ∈ s.pc.upcoming, item.Of s.closed
  sendIdr : ∀ made, s.pc = .sendIdr made → ∀ m ∈ made, m = s.closed
  outbox : s.pc ≠ .clearOutbox → ∀ q ∈ s.outbox, q.made = s.closed
  idrMade : s.pc ≠ .clearOutbox → s.pc ≠ .clearIdr → ∀ m ∈ s.idrMade, m = s.closed

theorem OwnCalls.quiet
    {s t : StreamSession} (h : s.OwnCalls) (hs : s.pc.quiet = true) (ht : Quiet s t) :
    t.OwnCalls := by
  have hout : s.pc ≠ .clearOutbox := fun hpc => by simp [hpc, Pc.quiet] at hs
  have hidr : s.pc ≠ .clearIdr := fun hpc => by simp [hpc, Pc.quiet] at hs
  constructor
  · rw [ht.sent]
    exact h.sent
  · rw [ht.upcoming]
    exact fun item hitem => absurd hitem (by simp)
  · exact fun made hpc => absurd hpc (ht.sendIdr made)
  · rw [ht.outbox, ht.closed]
    exact fun _ => h.outbox hout
  · rw [ht.idrMade, ht.closed]
    exact fun _ _ => h.idrMade hout hidr

/-- The session thread goes on, where nothing is about to be cleared. -/
theorem OwnCalls.moved
    {s t : StreamSession} (h : s.OwnCalls) (hout : s.pc ≠ .clearOutbox) (hidr : s.pc ≠ .clearIdr)
    (hclosed : t.closed = s.closed)
    (hsent : ∀ x ∈ t.sent, x ∈ s.sent ∨ x.item.Of x.session)
    (hupcoming : ∀ item ∈ t.pc.upcoming, item.Of s.closed)
    (hsendIdr : ∀ made, t.pc = .sendIdr made → ∀ m ∈ made, m ∈ s.idrMade)
    (houtbox : ∀ q ∈ t.outbox, q ∈ s.outbox) (hidrMade : ∀ m ∈ t.idrMade, m ∈ s.idrMade) :
    t.OwnCalls := by
  constructor
  · exact fun x hx => (hsent x hx).elim (h.sent x) id
  · rw [hclosed]
    exact hupcoming
  · rw [hclosed]
    exact fun made hpc m hm => h.idrMade hout hidr m (hsendIdr made hpc m hm)
  · rw [hclosed]
    exact fun _ q hq => h.outbox hout q (houtbox q hq)
  · rw [hclosed]
    exact fun _ _ m hm => h.idrMade hout hidr m (hidrMade m hm)

theorem OwnCalls.threadStep
    {s : StreamSession} (h : s.OwnCalls) (io : Io) :
    (s.threadStep io).OwnCalls := by
  by_cases hquiet : s.pc.quiet = true
  · exact h.quiet hquiet (quiet_threadStep hquiet io)
  · unfold StreamSession.threadStep
    cases hpc : s.pc with
    | viewUnsent =>
        refine h.moved ?_ ?_ rfl (fun _ => Or.inl) ?_ ?_ (fun _ => id) (fun _ => id)
        all_goals simp [hpc, Pc.upcoming]
    | swapOutbox =>
        have hout : s.pc ≠ .clearOutbox := by simp [hpc]
        have hqueued : ∀ item ∈ s.outbox.map Item.queued, item.Of s.closed := by
          intro item hitem
          obtain ⟨q, hq, rfl⟩ := List.mem_map.mp hitem
          exact h.outbox hout q hq
        simp only [StreamSession.swapOutbox]
        split
        · refine h.moved hout ?_ rfl (fun _ => Or.inl) ?_ ?_ ?_ (fun _ => id)
          · simp [hpc]
          · intro item hitem
            rcases List.mem_append.mp hitem with hold | hview
            · exact hqueued item hold
            · rw [List.mem_singleton.mp hview]
              trivial
          · simp
          · simp
        · refine h.moved hout ?_ rfl (fun _ => Or.inl) hqueued ?_ ?_ (fun _ => id)
          · simp [hpc]
          · simp
          · simp
    | sending outbox =>
        have hall := h.upcoming
        rw [hpc] at hall
        cases outbox with
        | nil =>
            refine h.moved ?_ ?_ rfl (fun _ => Or.inl) ?_ ?_ (fun _ => id) (fun _ => id)
            all_goals simp [hpc, Pc.upcoming]
        | cons item outbox =>
            have hitem : item.Of s.closed := hall item List.mem_cons_self
            cases io.ok with
            | true =>
                refine h.moved ?_ ?_ rfl ?_ ?_ ?_ (fun _ => id) (fun _ => id)
                · simp [hpc]
                · simp [hpc]
                · intro x hx
                  rcases List.mem_append.mp hx with hold | hnew
                  · exact Or.inl hold
                  · rw [List.mem_singleton.mp hnew]
                    exact Or.inr hitem
                · exact fun item' hitem' => hall item' (List.mem_cons_of_mem item hitem')
                · simp
            | false =>
                refine h.moved ?_ ?_ rfl (fun _ => Or.inl) ?_ ?_ (fun _ => id) (fun _ => id)
                all_goals simp [hpc, Pc.upcoming]
    | takeIdr =>
        cases s.idrPending with
        | true =>
            refine h.moved ?_ ?_ rfl (fun _ => Or.inl) ?_ ?_ (fun _ => id) ?_
            · simp [hpc]
            · simp [hpc]
            · simp [Pc.upcoming]
            · intro made hmade m hm
              rw [← Pc.sendIdr.inj hmade] at hm
              exact hm
            · simp
        | false =>
            refine h.moved ?_ ?_ rfl (fun _ => Or.inl) ?_ ?_ (fun _ => id) (fun _ => id)
            all_goals simp [hpc, Pc.upcoming]
    | sendIdr made =>
        cases io.ok with
        | true =>
            refine h.moved ?_ ?_ rfl ?_ ?_ ?_ (fun _ => id) (fun _ => id)
            · simp [hpc]
            · simp [hpc]
            · intro x hx
              rcases List.mem_append.mp hx with hold | hnew
              · exact Or.inl hold
              · rw [List.mem_singleton.mp hnew]
                exact Or.inr (h.sendIdr made hpc)
            · simp [Pc.upcoming]
            · simp
        | false =>
            refine h.moved ?_ ?_ rfl (fun _ => Or.inl) ?_ ?_ (fun _ => id) (fun _ => id)
            all_goals simp [hpc, Pc.upcoming]
    | disconnect =>
        constructor
        · exact h.sent
        all_goals simp [Pc.upcoming]
    | clearOutbox =>
        constructor
        · exact h.sent
        all_goals simp [Pc.upcoming]
    | clearIdr =>
        constructor
        · exact h.sent
        · simp [Pc.upcoming]
        · simp
        · exact fun _ => h.outbox (by simp [hpc])
        · simp
    | _ => exact absurd (by rw [hpc]; rfl) hquiet

/-- The first half of a call. -/
theorem OwnCalls.call
    {s : StreamSession} (h : s.OwnCalls) (calls : List HalfCall) :
    { s with calls }.OwnCalls :=
  ⟨h.sent, h.upcoming, h.sendIdr, h.outbox, h.idrMade⟩

/-- The second half of a call. -/
theorem OwnCalls.finish
    {s : StreamSession} (h : s.OwnCalls) {call : Nat} (hintime : s.InTime (.finish call)) :
    (s.finish call).OwnCalls := by
  unfold StreamSession.finish
  split
  · exact h
  · rename_i message made hcall
    have hmay : made = s.closed ∨ s.pc = .clearOutbox := hintime _ hcall
    refine ⟨h.sent, h.upcoming, h.sendIdr, fun hout q hq => ?_, h.idrMade⟩
    rcases List.mem_append.mp hq with hold | hnew
    · refine h.outbox hout q ?_
      split_ifs at hold
      · exact List.mem_of_mem_tail hold
      · exact hold
    · rw [List.mem_singleton.mp hnew]
      exact hmay.resolve_right hout
  · rename_i made hcall
    have hmay : made = s.closed ∨ s.pc = .clearOutbox ∨ s.pc = .clearIdr := hintime _ hcall
    refine ⟨h.sent, h.upcoming, h.sendIdr, h.outbox, fun hout hidr m hm => ?_⟩
    rcases List.mem_append.mp hm with hold | hnew
    · exact h.idrMade hout hidr m hold
    · rw [List.mem_singleton.mp hnew]
      exact hmay.resolve_right fun hclears => hclears.elim hout hidr

theorem OwnCalls.step
    {s : StreamSession} (h : s.OwnCalls) (a : SessionStep) (hintime : s.InTime a) :
    (s.step a).2.OwnCalls := by
  unfold StreamSession.step
  cases a with
  | send message =>
      simp only
      split_ifs
      · exact h.call _
      · exact h
  | requestIdr =>
      simp only
      split_ifs
      · exact h.call _
      · exact h
  | finish call => exact h.finish hintime
  | setViewConfig payload =>
      simp only [setViewConfig]
      split_ifs
      · exact h
      · exact ⟨h.sent, h.upcoming, h.sendIdr, h.outbox, h.idrMade⟩
  | requestStop => exact ⟨h.sent, h.upcoming, h.sendIdr, h.outbox, h.idrMade⟩
  | dropConnectionForTest => exact ⟨h.sent, h.upcoming, h.sendIdr, h.outbox, h.idrMade⟩
  | thread io => exact h.threadStep io

theorem OwnCalls.run
    {s : StreamSession} (h : s.OwnCalls) {steps : List SessionStep}
    (hintime : Run.Along StreamSession.step InTime s steps) :
    (Run.final StreamSession.step s steps).OwnCalls := by
  induction steps generalizing s with
  | nil => exact h
  | cons a steps ih => exact ih (h.step a hintime.1) hintime.2

instance MayFinish.decidable
    (s : StreamSession) :
    DecidablePred s.MayFinish
  | .send _ made => inferInstanceAs (Decidable (made = s.closed ∨ s.pc = .clearOutbox))
  | .requestIdr made =>
      inferInstanceAs (Decidable (made = s.closed ∨ s.pc = .clearOutbox ∨ s.pc = .clearIdr))

instance InTime.decidable
    (s : StreamSession) :
    DecidablePred s.InTime
  | .finish call => inferInstanceAs (Decidable (∀ c ∈ s.calls[call]?, s.MayFinish c))
  | .send _ | .requestIdr | .setViewConfig _ | .requestStop | .dropConnectionForTest
  | .thread _ => isTrue trivial

/-- The session ends, and a message is queued behind the clearing of the outbox. -/
def lateSend (early late : List SessionStep) : List SessionStep :=
  goesOn 12 ++ early ++ goesOn 8 ++ [.thread { closed := true }] ++ goesOn 3 ++ late ++ goesOn 30

-- the next session sends it, if `send` tested the state before the end or just behind it
example :
    (Run.final step (started none false)
      (lateSend [.send ⟨0x30, [1]⟩] [.finish 0])).sent = [⟨1, .queued ⟨⟨0x30, [1]⟩, 0⟩⟩] := by
  decide +kernel

example :
    (Run.final step (started none false)
      (lateSend [] [.send ⟨0x30, [1]⟩, .finish 0])).sent = [⟨1, .queued ⟨⟨0x30, [1]⟩, 0⟩⟩] := by
  decide +kernel

end StreamSession

end Client
end FocusVision
