import FocusVision.Engine.Tracking
import FocusVision.Lib.Run

/-!
# Only the paired headset drives the inputs

The invariant of the tracking port, and what follows from it for every interleaving
of the session task and the receiver: `only_paired_headset`.  The lock is what
carries the argument: while the receiver is in its protected section, the session
whose peer it checked cannot end, and the inputs are cleared only after that.
-/

namespace FocusVision
namespace Engine

/-- The value came from the peer of the session in which it was stored. -/
def Stored.FromPeer
    {α : Type} (e : Stored α) : Prop :=
  ∃ ip, e.peer = some ip ∧ ip.toCanonical = e.src.toCanonical

theorem isPairedHmd_iff
    {session : Option IpAddr} {src : IpAddr} :
    isPairedHmd session src = true ↔
      ∃ ip, session = some ip ∧ ip.toCanonical = src.toCanonical := by
  cases session with
  | none => simp [isPairedHmd]
  | some ip => simp [isPairedHmd]

namespace HmdInputs

/-- Everything in the inputs came from a paired headset. -/
structure FromPeer (inputs : HmdInputs) : Prop where
  head : ∀ e, inputs.head = some e → e.FromPeer
  controllers : ∀ i e, inputs.controllers i = some e → e.FromPeer

/-- A packet of the peer leaves nothing else in the inputs. -/
theorem FromPeer.store
    {inputs : HmdInputs} (h : inputs.FromPeer) {ip : IpAddr} {d : Datagram}
    (hsrc : ip.toCanonical = d.src.toCanonical) :
    (inputs.store (some ip) d).2.FromPeer := by
  have hfrom : ∃ ip', some ip = some ip' ∧ ip'.toCanonical = d.src.toCanonical :=
    ⟨ip, rfl, hsrc⟩
  unfold HmdInputs.store
  cases d.packet with
  | nil => exact h
  | cons packetType payload =>
      simp only
      split_ifs with hhead hcontroller
      · cases parseHeadPose payload with
        | none => exact h
        | some data =>
            refine ⟨fun e he => ?_, h.controllers⟩
            cases he
            exact hfrom
      · cases parseController payload with
        | none => exact h
        | some state =>
            simp only
            split_ifs with hid
            · refine ⟨h.head, fun i e he => ?_⟩
              simp only at he
              by_cases hi : i = ⟨state.controllerId.toNat, hid⟩
              · subst hi
                rw [Function.update_self] at he
                cases he
                exact hfrom
              · rw [Function.update_of_ne hi] at he
                exact h.controllers i e he
            · exact h
      · exact h

end HmdInputs

namespace TrackingPort

/-- The invariant of the two tasks. -/
structure Ok (w : TrackingPort) : Prop where
  authorized : w.authorizedPeer = w.session.peer
  -- the read lock: a datagram in the protected section is from the session's peer
  receiving : ∀ d, w.receiving = some d → isPairedHmd w.session.peer d.src = true
  inputs : w.inputs.FromPeer
  head : w.session = .headCleared ∨ w.session = .down → w.inputs.head = none
  controllers : w.session = .down → w.inputs.controllers = fun _ => none

theorem ok_init :
    (({} : TrackingPort)).Ok :=
  { authorized := rfl
    receiving := fun d h => absurd h.symm (Option.some_ne_none d)
    inputs :=
      { head := fun e h => absurd h.symm (Option.some_ne_none e)
        controllers := fun _ e h => absurd h.symm (Option.some_ne_none e) }
    head := fun _ => rfl
    controllers := fun _ => rfl }

variable {w : TrackingPort}

/-- While the receiver holds the lock, the session is active. -/
theorem Ok.active
    (h : w.Ok) {d : Datagram} (hd : w.receiving = some d) :
    ∃ ip, w.session = .active ip ∧ ip.toCanonical = d.src.toCanonical := by
  obtain ⟨ip, hip, hsrc⟩ := isPairedHmd_iff.mp (h.receiving d hd)
  cases hsession : w.session with
  | active peer =>
      rw [hsession] at hip
      cases hip
      exact ⟨ip, rfl, hsrc⟩
  | down =>
      rw [hsession] at hip
      cases hip
  | revoked =>
      rw [hsession] at hip
      cases hip
  | headCleared =>
      rw [hsession] at hip
      cases hip

theorem Ok.not_receiving
    (h : w.Ok) (hsession : w.session.peer = none) :
    w.receiving = none := by
  cases hd : w.receiving with
  | none => rfl
  | some d =>
      obtain ⟨ip, hip, -⟩ := isPairedHmd_iff.mp (h.receiving d hd)
      rw [hsession] at hip
      cases hip

theorem Ok.step
    (h : w.Ok) (event : PortEvent) :
    (w.step event).2.Ok := by
  cases event with
  | authorize ip =>
      simp only [TrackingPort.step]
      split
      · rename_i hdown hfree
        exact
          { authorized := rfl
            receiving := fun d hd => absurd (hfree.symm.trans hd) (Option.some_ne_none d).symm
            inputs := h.inputs
            head := fun hs => by rcases hs with hs | hs <;> cases hs
            controllers := fun hs => by cases hs }
      · exact h
  | revoke =>
      simp only [TrackingPort.step]
      split
      · rename_i hactive hfree
        exact
          { authorized := rfl
            receiving := fun d hd => absurd (hfree.symm.trans hd) (Option.some_ne_none d).symm
            inputs := h.inputs
            head := fun hs => by rcases hs with hs | hs <;> cases hs
            controllers := fun hs => by cases hs }
      · exact h
  | clearHead =>
      simp only [TrackingPort.step]
      split
      · rename_i hrevoked
        have hauthorized := h.authorized
        rw [hrevoked] at hauthorized
        have hfree := h.not_receiving (by rw [hrevoked]; rfl)
        exact
          { authorized := hauthorized
            receiving := fun d hd => absurd (hfree.symm.trans hd) (Option.some_ne_none d).symm
            inputs :=
              { head := fun e he => absurd he.symm (Option.some_ne_none e)
                controllers := h.inputs.controllers }
            head := fun _ => rfl
            controllers := fun hs => by cases hs }
      · exact h
  | clearControllers =>
      simp only [TrackingPort.step]
      split
      · rename_i hcleared
        have hauthorized := h.authorized
        rw [hcleared] at hauthorized
        have hfree := h.not_receiving (by rw [hcleared]; rfl)
        exact
          { authorized := hauthorized
            receiving := fun d hd => absurd (hfree.symm.trans hd) (Option.some_ne_none d).symm
            inputs :=
              { head := h.inputs.head
                controllers := fun _ e he => absurd he.symm (Option.some_ne_none e) }
            head := fun _ => h.head (Or.inl hcleared)
            controllers := fun _ => rfl }
      · exact h
  | receive d =>
      simp only [TrackingPort.step]
      split
      · exact h
      · split_ifs with hpaired
        · rw [h.authorized] at hpaired
          exact
            { authorized := h.authorized
              receiving := fun d' hd' => by
                cases hd'
                exact hpaired
              inputs := h.inputs
              head := h.head
              controllers := h.controllers }
        · exact h
  | store =>
      simp only [TrackingPort.step]
      split
      · exact h
      · rename_i d hd
        obtain ⟨ip, hactive, hsrc⟩ := h.active hd
        have hpeer : w.session.peer = some ip := by
          rw [hactive]
          rfl
        have hstored := h.inputs.store (d := d) hsrc
        rw [← hpeer] at hstored
        exact
          { authorized := h.authorized
            receiving := fun d' hd' => absurd hd'.symm (Option.some_ne_none d')
            inputs := hstored
            head := fun hs => by
              rw [hactive] at hs
              rcases hs with hs | hs <;> cases hs
            controllers := fun hs => by
              rw [hactive] at hs
              cases hs }

/--
**Only the paired headset drives the inputs.**  After every interleaving of the two
tasks, everything in the inputs was sent by the peer of the session in which it was
stored, and nothing is there while no session is up.
-/
theorem only_paired_headset
    (events : List PortEvent) :
    (∀ e, (Run.final step {} events).inputs.head = some e →
      ∃ ip, e.peer = some ip ∧ ip.toCanonical = e.src.toCanonical) ∧
    (∀ i e, (Run.final step {} events).inputs.controllers i = some e →
      ∃ ip, e.peer = some ip ∧ ip.toCanonical = e.src.toCanonical) ∧
    ((Run.final step {} events).session = .down →
      (Run.final step {} events).inputs.head = none ∧
        ∀ i, (Run.final step {} events).inputs.controllers i = none) := by
  have hok : (Run.final TrackingPort.step {} events).Ok :=
    @Run.final_invariant _ _ _ TrackingPort.step Ok (fun _ event h => h.step event)
      {} ok_init events
  exact ⟨hok.inputs.head, hok.inputs.controllers,
    fun hdown => ⟨hok.head (Or.inr hdown), fun i => congrFun (hok.controllers hdown) i⟩⟩

/-- A head pose of the paired headset does get through. -/
example :
    (Run.final step {}
      [.authorize (.v4 1), .receive ⟨.v4 1, PACKET_HEAD_POSE :: List.replicate 36 0⟩,
        .store]).inputs.head.isSome = true := by
  decide

end TrackingPort
end Engine
end FocusVision
