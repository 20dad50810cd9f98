import FocusVision.Engine.Pairing

/-!
# The lifetime of a PIN

A PIN should be good for `PIN_LIFETIME_SECONDS` from the moment that it is issued,
and only a PIN that was re-armed for a reconnect for the window of that.  But the
window stays in `lifetime` when the next PIN is issued: a PIN has its full lifetime
if and only if no other window was set before it since the process started.
-/

namespace FocusVision
namespace Engine

/-- The full lifetime of a PIN. -/
def fullLifetime : Nat :=
  PIN_LIFETIME_SECONDS * MICROS

/-- A host, the window of the last re-arming since the process started, and whether
its current PIN was re-armed. -/
structure PinRecord where
  host : PairingHost
  window : Option Nat := none
  rearmed : Bool := false

namespace PinRecord

def start (epoch : Nat) (limits : PairingLimits) (now : Nat) (random : UInt32)
    (file : PersistedLockout) : PinRecord :=
  { host := PairingHost.start epoch limits now random file }

/-- The window after an operation. -/
def nextWindow (r : PinRecord) (c : PairingCall) : Option Nat :=
  match c.op with
  | .rearmForReconnect window => some window
  | .restart => none
  | _ => r.window

/-- Was the PIN re-armed after an operation? -/
def nextRearmed (r : PinRecord) (c : PairingCall) : Bool :=
  match c.op with
  | .rearmForReconnect _ => true
  | _ => r.rearmed && !r.host.generatesPin c

def step (epoch : Nat) (r : PinRecord) (c : PairingCall) : PairingAnswer × PinRecord :=
  let next := r.host.step epoch c
  (next.1, { host := next.2, window := r.nextWindow c, rearmed := r.nextRearmed c })

/-- What an operation does to the lifetime, and to the issue time of a new PIN. -/
theorem step_lifetime
    (epoch : Nat) {h : PairingHost} (hmax : h.state.limits.maxAttempts ≤ 255)
    (c : PairingCall) :
    let next := (h.step epoch c).2.state
    next.limits = h.state.limits ∧
      (h.generatesPin c = true → next.issuedAt = c.now) ∧
      next.lifetime =
        (match c.op with
        | .rearmForReconnect window => window
        | .restart => fullLifetime
        | _ => h.state.lifetime) := by
  obtain ⟨now, random, op⟩ := c
  unfold PairingHost.generatesPin PairingHost.step
  cases op with
  | verify submittedPin =>
      simp only
      rcases Bool.eq_false_or_eq_true (h.state.isLocked now) with hlocked | hopen
      · rw [PairingState.verify_of_locked hlocked]
        exact ⟨rfl, by simp [hlocked], rfl⟩
      rcases Bool.eq_false_or_eq_true (h.state.pinMatches submittedPin) with hpin | hpin
      · rw [PairingState.verify_of_matches hopen hpin]
        exact ⟨rfl, by simp [hpin], rfl⟩
      rcases Nat.lt_or_ge (h.state.attempts + 1) h.state.limits.maxAttempts
        with hless | hlast
      · rw [PairingState.verify_of_miss hopen hpin hmax hless]
        exact ⟨rfl, by simp [Nat.not_le.mpr hless], rfl⟩
      · rw [PairingState.verify_of_last_miss hopen hpin hmax hlast]
        exact ⟨rfl, fun _ => rfl, rfl⟩
  | rotateIfExpired =>
      simp only [PairingState.rotateIfExpired]
      split_ifs with hfresh
      · refine ⟨rfl, fun hexpired => ?_, rfl⟩
        rw [decide_eq_true_eq] at hexpired
        omega
      · exact ⟨rfl, fun _ => rfl, rfl⟩
  | rearmForReconnect window => exact ⟨rfl, by simp, rfl⟩
  | restart => exact ⟨rfl, fun _ => rfl, rfl⟩

/-- The lifetime is the last window, and a `u8` counts the attempts. -/
structure Ok (r : PinRecord) : Prop where
  attempts : r.host.state.limits.maxAttempts ≤ 255
  lifetime : r.host.state.lifetime = r.window.getD fullLifetime

/-- A PIN that was not re-armed has the full lifetime. -/
def OnlyRearmed (r : PinRecord) : Prop :=
  r.rearmed = false → r.host.state.lifetime = fullLifetime

/-- A PIN that an operation issues is good for the full lifetime, and none but a
re-armed PIN has another. -/
structure IssuesFresh (epoch : Nat) (r : PinRecord) (c : PairingCall) : Prop where
  issued : r.host.generatesPin c = true →
    (step epoch r c).2.host.state.expiresIn c.now = fullLifetime
  others : (step epoch r c).2.OnlyRearmed

/-- Where a running process issues a PIN, the last re-arming had the full lifetime as
its window, or there was none. -/
def WindowGone (r : PinRecord) (c : PairingCall) : Prop :=
  c.op ≠ .restart → r.host.generatesPin c = true → ∀ window, r.window = some window →
    window = fullLifetime

theorem Ok.step
    {r : PinRecord} (h : r.Ok) (epoch : Nat) (c : PairingCall) :
    (PinRecord.step epoch r c).2.Ok := by
  obtain ⟨hlimits, -, hlifetime⟩ := step_lifetime epoch h.attempts c
  have hkept := h.lifetime
  refine ⟨?_, ?_⟩
  · have hattempts := h.attempts
    rw [← hlimits] at hattempts
    exact hattempts
  · refine hlifetime.trans ?_
    simp only [PinRecord.step, nextWindow]
    cases c.op with
    | verify submittedPin => exact hkept
    | rotateIfExpired => exact hkept
    | rearmForReconnect window => exact Option.getD_some.symm
    | restart => exact Option.getD_none.symm

theorem OnlyRearmed.step
    {r : PinRecord} (hok : r.Ok) (h : r.OnlyRearmed) (epoch : Nat) {c : PairingCall}
    (hgone : r.WindowGone c) :
    (PinRecord.step epoch r c).2.OnlyRearmed := by
  obtain ⟨-, -, hlifetime⟩ := step_lifetime epoch hok.attempts c
  have hfull : c.op ≠ .restart → r.host.generatesPin c = true →
      r.host.state.lifetime = fullLifetime := by
    intro hop hissue
    rw [hok.lifetime]
    cases hwindow : r.window with
    | none => rfl
    | some window => exact hgone hop hissue window hwindow
  intro hnot
  simp only [PinRecord.step, nextRearmed] at hnot
  refine Eq.trans hlifetime ?_
  have hcase : c.op ≠ .restart → (r.rearmed && !r.host.generatesPin c) = false →
      r.host.state.lifetime = fullLifetime := by
    intro hop hrearmed
    cases hissue : r.host.generatesPin c with
    | true => exact hfull hop hissue
    | false =>
        rw [hissue, Bool.not_false, Bool.and_true] at hrearmed
        exact h hrearmed
  cases hop : c.op with
  | verify submittedPin =>
      rw [hop] at hnot
      exact hcase (by simp [hop]) hnot
  | rotateIfExpired =>
      rw [hop] at hnot
      exact hcase (by simp [hop]) hnot
  | rearmForReconnect window =>
      rw [hop] at hnot
      exact absurd hnot (by simp)
  | restart => rfl

/-- A step issues no short-lived PIN if and only if no window is left. -/
theorem issuesFresh_iff
    {r : PinRecord} (hok : r.Ok) (h : r.OnlyRearmed) (epoch : Nat) (c : PairingCall) :
    IssuesFresh epoch r c ↔ r.WindowGone c := by
  obtain ⟨-, hissued, hlifetime⟩ := step_lifetime epoch hok.attempts c
  have hexpires : r.host.generatesPin c = true →
      (step epoch r c).2.host.state.expiresIn c.now =
        (step epoch r c).2.host.state.lifetime := by
    intro hissue
    have hat : (step epoch r c).2.host.state.issuedAt = c.now := hissued hissue
    rw [PairingState.expiresIn, hat, Nat.sub_self, Nat.sub_zero]
  have hnext : (step epoch r c).2.host.state.lifetime =
      (match c.op with
      | .rearmForReconnect window => window
      | .restart => fullLifetime
      | _ => r.host.state.lifetime) := hlifetime
  constructor
  · intro hfresh hop hissue window hwindow
    have hfull := hfresh.issued hissue
    rw [hexpires hissue, hnext] at hfull
    have hkept : r.host.state.lifetime = fullLifetime := by
      cases hcase : c.op with
      | verify submittedPin =>
          rw [hcase] at hfull
          exact hfull
      | rotateIfExpired =>
          rw [hcase] at hfull
          exact hfull
      | rearmForReconnect window =>
          unfold PairingHost.generatesPin at hissue
          rw [hcase] at hissue
          exact absurd hissue (by simp)
      | restart => exact absurd hcase hop
    rw [hok.lifetime, hwindow] at hkept
    exact hkept
  · intro hgone
    have hothers := h.step hok epoch hgone
    refine ⟨fun hissue => ?_, hothers⟩
    rw [hexpires hissue]
    refine hothers ?_
    simp only [step, nextRearmed]
    cases hcase : c.op with
    | verify submittedPin => simp [hissue]
    | rotateIfExpired => simp [hissue]
    | rearmForReconnect window =>
        unfold PairingHost.generatesPin at hissue
        rw [hcase] at hissue
        exact absurd hissue (by simp)
    | restart => simp [hissue]

/-- The PIN at construction is good for the full lifetime, and so are all that the
process issues in exactly the runs that never issue one with a window left. -/
theorem pinLifetime_iff
    (epoch : Nat) (maxAttempts : UInt8) (lockout bootTime : Nat) (random : UInt32)
    (file : PersistedLockout) (calls : List PairingCall) :
    let r := start epoch ⟨maxAttempts.toNat, lockout⟩ bootTime random file
    r.host.state.expiresIn bootTime = fullLifetime ∧
      (Run.Along (step epoch) (IssuesFresh epoch) r calls ↔
        Run.Along (step epoch) WindowGone r calls) := by
  simp only
  have hboot : (start epoch ⟨maxAttempts.toNat, lockout⟩ bootTime random file).host.state.expiresIn
      bootTime = fullLifetime - (bootTime - bootTime) := rfl
  rw [Nat.sub_self, Nat.sub_zero] at hboot
  refine ⟨hboot, ?_⟩
  have hstep : ∀ (r : PinRecord) (c : PairingCall), r.Ok ∧ r.OnlyRearmed → r.WindowGone c →
      (step epoch r c).2.Ok ∧ (step epoch r c).2.OnlyRearmed :=
    fun r c h hgone => ⟨h.1.step epoch c, h.2.step h.1 epoch hgone⟩
  have hattempts := maxAttempts.toNat_lt
  refine Run.along_congr_of (step epoch) hstep
    (fun r c h => issuesFresh_iff h.1 h.2 epoch c)
    ⟨⟨?_, Option.getD_none.symm⟩, fun _ => rfl⟩ calls
  exact Nat.le_of_lt_succ hattempts

/-- A session drops and is re-armed for 5 seconds, nobody reconnects, and the PIN is
replaced. -/
def droppedSession : List PairingCall :=
  [⟨10000000, 0, .rearmForReconnect 5000000⟩, ⟨20000000, 1, .rotateIfExpired⟩]

/-- The new PIN expires after 5 seconds. -/
theorem droppedSession_short :
    (Run.final (step 0) (start 0 ⟨5, 300000000⟩ 0 7 none) droppedSession).host.state.expiresIn
        20000000 = 5000000 ∧
      ¬ Run.Along (step 0) (IssuesFresh 0) (start 0 ⟨5, 300000000⟩ 0 7 none)
        droppedSession := by
  refine ⟨by decide, ?_⟩
  rintro ⟨-, hfresh, -⟩
  exact absurd (hfresh.issued (by decide)) (by decide)

end PinRecord
end Engine
end FocusVision
