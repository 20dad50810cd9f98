import FocusVision.Engine.FrameLoop

/-!
# The bitrate that the encoder is told

Awake, the encoder should run at the controller's bitrate; asleep, at no more than
the sleep bitrate.  Neither holds in every run: a thermal ceiling lowers the
controller's bitrate without telling the encoder, waking up tells it the setting
instead of the controller's bitrate, and a tick or a new setting tells it a bitrate
while the headset sleeps.  The results say exactly which runs are free of these.
-/

namespace FocusVision
namespace Engine

/-! ### Sleep transitions -/

namespace SleepDetector

/-- The sample ends the sleep. -/
def Wakes (det : SleepDetector) (tracking : TrackingData) : Prop :=
  det.enabled = true ∧ det.isSleeping = true ∧ det.motionThreshold < det.motion tracking

/-- The sample begins the sleep. -/
def FallsAsleep (det : SleepDetector) (tracking : TrackingData) : Prop :=
  det.enabled = true ∧ det.isSleeping = false ∧
    ¬ det.motionThreshold < det.motion tracking ∧
    90 * det.timeoutSeconds.toNat ≤ det.idleFrames + 1

/-- The three outcomes of a sample. -/
theorem update_cases
    (det : SleepDetector) (tracking : TrackingData) :
    (det.update tracking).2.sleepBitrateMbps = det.sleepBitrateMbps ∧
    (((det.update tracking).1 = some .wake ∧ (det.update tracking).2.isSleeping = false ∧
        det.Wakes tracking) ∨
      ((det.update tracking).1 = some .sleep ∧ (det.update tracking).2.isSleeping = true ∧
        det.FallsAsleep tracking) ∨
      ((det.update tracking).1 = none ∧
        (det.update tracking).2.isSleeping = det.isSleeping ∧
        ¬ det.Wakes tracking ∧ ¬ det.FallsAsleep tracking)) := by
  unfold update Wakes FallsAsleep
  cases henabled : det.enabled with
  | false => simp
  | true =>
      simp only [Bool.not_true, Bool.false_eq_true, if_false]
      by_cases hmoved : det.motionThreshold < det.motion tracking
      · rw [if_pos hmoved]
        cases hsleeping : det.isSleeping <;> simp [hmoved]
      · rw [if_neg hmoved]
        cases hsleeping : det.isSleeping with
        | true => simp [hmoved]
        | false =>
            by_cases hidle : 90 * det.timeoutSeconds.toNat ≤ det.idleFrames + 1
            · simp [hmoved, hidle]
            · simp [hmoved, hidle]

/-- An awake user whose head stays where the last sample saw it. -/
structure Resting (det : SleepDetector) (tracking : TrackingData) : Prop where
  enabled : det.enabled = true
  awake : det.isSleeping = false
  still : ¬ det.motionThreshold < det.motion tracking

theorem Resting.update
    {det : SleepDetector} {tracking : TrackingData} (h : det.Resting tracking)
    (hidle : det.idleFrames + 1 < 90 * det.timeoutSeconds.toNat) :
    det.update tracking =
      (none, { det with
        prevPosition := some tracking.position
        idleFrames := det.idleFrames + 1 }) := by
  have hnot : ¬ 90 * det.timeoutSeconds.toNat ≤ det.idleFrames + 1 := by omega
  unfold SleepDetector.update
  simp [h.enabled, h.awake, h.still, hnot]

/-- Idle for the timeout, a resting user falls asleep. -/
theorem Resting.fallsAsleep
    {det : SleepDetector} {tracking : TrackingData} (h : det.Resting tracking)
    (hidle : 90 * det.timeoutSeconds.toNat ≤ det.idleFrames + 1) :
    (det.update tracking).2.isSleeping = true := by
  obtain ⟨-, ⟨-, -, hwakes⟩ | ⟨-, hsleeping, -⟩ | ⟨-, -, -, hstays⟩⟩ := det.update_cases tracking
  · exact absurd (h.awake.symm.trans hwakes.2.1) Bool.false_ne_true
  · exact hsleeping
  · exact absurd ⟨h.enabled, h.awake, h.still, hidle⟩ hstays

end SleepDetector

/-! ### Arbitration of a tick -/

namespace ArbitrationInputs

/-- The signals call for another bitrate, and the limits leave room for it. -/
def Changes (i : ArbitrationInputs) : Prop :=
  (i.Increases ∧ i.currentBps < effectiveMax i.hardMaxBps i.thermalCeilingBps) ∨
    (i.BacksOff ∧ 10000000 < i.currentBps)

/-- The multiplied bitrate, or what limits it, is at most `bound`. -/
def EndsBelow (i : ArbitrationInputs) (bound : Nat) : Prop :=
  10000000 ≤ bound ∧
    ((Flt.mul (Flt.ofNat i.currentBps) (networkDecision i).1).toUnsigned 64 ≤ bound ∨
      effectiveMax i.hardMaxBps i.thermalCeilingBps ≤ bound)

variable {i : ArbitrationInputs}

theorem InBounds.changes_iff
    (h : i.InBounds) :
    (arbitrate i).targetBps ≠ i.currentBps ↔ i.Changes := by
  obtain ⟨-, -, hraise, hlower⟩ := h.target_cases
  unfold Changes
  rw [← hraise, ← hlower]
  omega

/-- A changed target is at most `bound`. -/
theorem InBounds.endsBelow_iff
    (h : i.InBounds) (hchanges : i.Changes) (bound : Nat) :
    (arbitrate i).targetBps ≤ bound ↔ i.EndsBelow bound := by
  have hburst : i.burst ≠ .burst := by
    intro hburst
    rcases hchanges with ⟨hincreases, -⟩ | ⟨hsustained | ⟨hnone, -⟩, -⟩
    · rw [hincreases.burst] at hburst
      exact absurd hburst (by decide)
    · rw [hsustained] at hburst
      exact absurd hburst (by decide)
    · rw [hnone] at hburst
      exact absurd hburst (by decide)
  unfold arbitrate EndsBelow
  simp only [if_neg hburst, clampWithThermal, h.floor]
  omega

end ArbitrationInputs

theorem update_hasData
    (est : BandwidthEstimator) (received lost : UInt32) (rtt : F64) :
    (est.update received lost rtt).hasData = true := by
  unfold BandwidthEstimator.update
  cases h : est.hasData with
  | false => simp
  | true => simp

theorem settingBps_whole
    (mbps : Nat) :
    BitrateController.settingBps mbps / 1000000 * 1000000 =
      BitrateController.settingBps mbps := by
  unfold BitrateController.settingBps
  rw [Nat.mul_div_cancel _ (by decide)]

theorem asU32_of_le
    {bps : Nat} (h : bps ≤ 200000000) :
    asU32 bps = bps :=
  Nat.mod_eq_of_lt (by omega)

namespace AdaptiveState

/-- The controller is in good order, with a whole number of Mbps as its setting. -/
def Ok (s : AdaptiveState) : Prop :=
  s.bitrateCtrl.Ok ∧
    s.bitrateCtrl.maxBitrateBps / 1000000 * 1000000 = s.bitrateCtrl.maxBitrateBps

theorem ok_new
    (config : AppConfig) (sleepEnabled : Bool) (now : Nat) :
    (new config sleepEnabled now).Ok :=
  ⟨BitrateController.ok_new _ _, settingBps_whole _⟩

/-- What a tick hands to `arbitrate`, when it finds these figures. -/
def tickInputs (s : AdaptiveState) (stats : HmdStats) (now : Nat) : ArbitrationInputs :=
  let s := s.takeIn stats now
  s.bitrateCtrl.inputs s.bwEstimator s.tickGcc s.tickBurst now

theorem takeIn_fields
    (s : AdaptiveState) (stats : HmdStats) (now : Nat) :
    (s.takeIn stats now).bitrateCtrl = s.bitrateCtrl ∧
      (s.takeIn stats now).sleepDetector = s.sleepDetector ∧
      (s.takeIn stats now).bwEstimator.hasData = true := by
  unfold takeIn
  cases s.gccEnabled <;> exact ⟨rfl, rfl, update_hasData _ _ _ _⟩

theorem tickInputs_inBounds
    {s : AdaptiveState} (h : s.Ok) (stats : HmdStats) (now : Nat) :
    (s.tickInputs stats now).InBounds := by
  have hok : (s.takeIn stats now).bitrateCtrl.Ok := by
    rw [(s.takeIn_fields stats now).1]
    exact h.1
  exact hok.inBounds _ _ _ now

/-- A tick tells the encoder the new bitrate if the signals change it. -/
theorem tick_spec
    {s : AdaptiveState} (h : s.Ok) (now : Nat) :
    (s.tick now).2.Ok ∧ (s.tick now).2.sleepDetector = s.sleepDetector ∧
    ((s.tick now).1 = [] ∧
        (s.tick now).2.bitrateCtrl.currentBitrateBps = s.bitrateCtrl.currentBitrateBps ∧
        (∀ stats, s.pendingStats = some stats → ¬ (s.tickInputs stats now).Changes) ∨
      (∃ stats, s.pendingStats = some stats ∧ (s.tickInputs stats now).Changes ∧
        (s.tick now).2.bitrateCtrl.currentBitrateBps =
          (arbitrate (s.tickInputs stats now)).targetBps ∧
        (s.tick now).1 = [(s.tick now).2.bitrateCtrl.currentBitrateBps])) := by
  unfold tick
  cases hpending : s.pendingStats with
  | none => exact ⟨h, rfl, Or.inl ⟨rfl, rfl, fun stats hstats => absurd hstats (by simp)⟩⟩
  | some stats =>
      obtain ⟨hctrl, hsleep, hdata⟩ := s.takeIn_fields stats now
      simp only
      generalize ht : s.takeIn stats now = t at hctrl hsleep hdata ⊢
      have hok : t.bitrateCtrl.Ok := by
        rw [hctrl]
        exact h.1
      have hinputs : s.tickInputs stats now =
          t.bitrateCtrl.inputs t.bwEstimator t.tickGcc t.tickBurst now := by
        unfold tickInputs
        rw [ht]
      have hin := hok.inBounds t.bwEstimator t.tickGcc t.tickBurst now
      obtain ⟨hcurrent, hchanged, -, hmax, -⟩ :=
        BitrateController.adjust_fields t.bwEstimator t.tickGcc t.tickBurst now t.bitrateCtrl
      have hnext := hok.adjust t.bwEstimator t.tickGcc t.tickBurst now
      rw [if_pos hdata] at hcurrent
      generalize t.bitrateCtrl.adjust t.bwEstimator t.tickGcc t.tickBurst now = res
        at hcurrent hchanged hmax hnext ⊢
      obtain ⟨changed, ctrl⟩ := res
      simp only at hcurrent hchanged hmax hnext ⊢
      have hchanges := hin.changes_iff
      rw [← hcurrent] at hchanges
      refine ⟨⟨hnext, by rw [hmax, hctrl]; exact h.2⟩, hsleep, ?_⟩
      cases changed with
      | false =>
          have hsame : ¬ ctrl.currentBitrateBps ≠ t.bitrateCtrl.currentBitrateBps :=
            fun hne => absurd (hchanged.mpr hne) (by simp)
          refine Or.inl ⟨rfl, ?_, ?_⟩
          · rw [ne_eq, not_not] at hsame
            rw [hsame, hctrl]
          · intro stats' hstats
            cases hstats
            rw [hinputs]
            exact fun hchange => hsame (hchanges.mpr hchange)
      | true =>
          have hsmall : ctrl.currentBitrateBps ≤ 200000000 :=
            Nat.le_trans hnext.le_max hnext.setting.2
          refine Or.inr ⟨stats, rfl, ?_⟩
          rw [hinputs]
          refine ⟨hchanges.mp (hchanged.mp rfl), hcurrent, ?_⟩
          rw [if_pos rfl, asU32_of_le hsmall]

/-- A new setting tells the encoder the bitrate that it leads to. -/
theorem bitrateSetting_spec
    {s : AdaptiveState} (h : s.Ok) (mbps : UInt32) (now : Nat) :
    let r := s.onEvent (.bitrateSetting mbps) now
    r.2.Ok ∧ r.2.sleepDetector = s.sleepDetector ∧
      r.2.bitrateCtrl.currentBitrateBps = max 10000000
        (effectiveMax (BitrateController.settingBps mbps.toNat)
          s.bitrateCtrl.thermalCeilingBps) ∧
      r.1 = [r.2.bitrateCtrl.currentBitrateBps] := by
  have hok := h.1.setSettingMbps mbps.toNat now
  have hwhole := settingBps_whole mbps.toNat
  have hevent : s.onEvent (.bitrateSetting mbps) now =
      ([asU32 (s.bitrateCtrl.setSettingMbps mbps.toNat now).currentBitrateBps],
        { s with bitrateCtrl := s.bitrateCtrl.setSettingMbps mbps.toNat now }) :=
    rfl
  rw [h.1.setSettingMbps_eq] at hok hevent
  rw [hevent]
  generalize BitrateController.settingBps mbps.toNat = setting at hok hwhole ⊢
  exact ⟨⟨hok, hwhole⟩, rfl, rfl,
    congrArg (fun bps => [bps]) (asU32_of_le (Nat.le_trans hok.le_max hok.setting.2))⟩

/-- A thermal ceiling lowers the bitrate, and tells the encoder nothing. -/
theorem applyThermal_spec
    {s : AdaptiveState} (h : s.Ok) (multiplier : F64) :
    let r := s.applyThermal (some multiplier)
    r.Ok ∧ r.sleepDetector = s.sleepDetector ∧
      (s.bitrateCtrl.currentBitrateBps = r.bitrateCtrl.currentBitrateBps ↔
        s.bitrateCtrl.currentBitrateBps ≤ s.thermalCeiling multiplier ∨
          s.bitrateCtrl.currentBitrateBps = 10000000) := by
  have hok := h.1.setThermalCeilingBps (s.thermalCeiling multiplier)
  have hfloor := h.1.floor
  have hlow := h.1.low
  have hmax := h.1.le_max
  refine ⟨⟨hok, ?_⟩, rfl, ?_⟩
  · simp only [applyThermal, BitrateController.setThermalCeilingBps_eq]
    exact h.2
  · simp only [applyThermal, BitrateController.setThermalCeilingBps_eq, effectiveMax]
    omega

/-- A sample changes nothing but the sleep detector. -/
theorem checkSleepMode_spec
    {s : AdaptiveState} (h : s.Ok) (data : TrackingData) :
    let r := s.checkSleepMode (some data)
    r.2.bitrateCtrl = s.bitrateCtrl ∧
      r.2.sleepDetector.sleepBitrateMbps = s.sleepDetector.sleepBitrateMbps ∧
      ((s.sleepDetector.Wakes data ∧ r.2.sleepDetector.isSleeping = false ∧
          r.1 = [s.bitrateCtrl.maxBitrateBps]) ∨
        (s.sleepDetector.FallsAsleep data ∧ r.2.sleepDetector.isSleeping = true ∧
          r.1 = [asU32 (s.sleepDetector.sleepBitrateMbps.toNat * 1000000)]) ∨
        (¬ s.sleepDetector.Wakes data ∧
          r.2.sleepDetector.isSleeping = s.sleepDetector.isSleeping ∧ r.1 = [])) := by
  obtain ⟨hrate, hcases⟩ := s.sleepDetector.update_cases data
  unfold checkSleepMode
  simp only
  generalize s.sleepDetector.update data = res at hrate hcases ⊢
  obtain ⟨transition, det⟩ := res
  simp only at hrate hcases
  rcases hcases with ⟨rfl, hsleeping, hwakes⟩ | ⟨rfl, hsleeping, hasleep⟩ |
    ⟨rfl, hsleeping, hwakes, -⟩
  · refine ⟨rfl, hrate, Or.inl ⟨hwakes, hsleeping, ?_⟩⟩
    rw [BitrateController.settingMbps, h.2, asU32_of_le h.1.setting.2]
  · refine ⟨rfl, hrate, Or.inr (Or.inl ⟨hasleep, hsleeping, ?_⟩)⟩
    simp only [hrate]
  · exact ⟨rfl, hrate, Or.inr (Or.inr ⟨hwakes, hsleeping, rfl⟩)⟩

end AdaptiveState

/-! ### Runs -/

namespace FrameLoop

/-- Awake, the encoder runs at the controller's bitrate. -/
def Matches (s : FrameLoop) : Prop :=
  s.adaptive.sleepDetector.isSleeping = false →
    s.commanded = s.adaptive.bitrateCtrl.currentBitrateBps

/-- The sleep bitrate, in bits per second. -/
def sleepBps (s : FrameLoop) : Nat :=
  s.adaptive.sleepDetector.sleepBitrateMbps.toNat * 1000000

/-- Asleep, the encoder was last told at most the sleep bitrate. -/
def Rests (s : FrameLoop) : Prop :=
  s.adaptive.sleepDetector.isSleeping = true → s.commanded ≤ s.sleepBps

/--
No thermal ceiling below the current bitrate applies while the user is awake, unless
that is the floor already, and the user wakes with the controller at the setting.
-/
def Undisturbed (s : FrameLoop) (call : LoopStep) : Prop :=
  match call.input with
  | .thermal (some multiplier) =>
      s.adaptive.sleepDetector.isSleeping = false →
        s.adaptive.bitrateCtrl.currentBitrateBps ≤ s.adaptive.thermalCeiling multiplier ∨
          s.adaptive.bitrateCtrl.currentBitrateBps = 10000000
  | .checkSleep (some data) =>
      s.adaptive.sleepDetector.Wakes data →
        s.adaptive.bitrateCtrl.currentBitrateBps = s.adaptive.bitrateCtrl.maxBitrateBps
  | _ => True

/--
Asleep, no setting above the sleep bitrate arrives, and no tick changes the bitrate
to one above it.
-/
def Quiet (s : FrameLoop) (call : LoopStep) : Prop :=
  s.adaptive.sleepDetector.isSleeping = true →
    match call.input with
    | .event (.bitrateSetting mbps) =>
        max 10000000 (effectiveMax (BitrateController.settingBps mbps.toNat)
          s.adaptive.bitrateCtrl.thermalCeilingBps) ≤ s.sleepBps
    | .tick =>
        ∀ stats, s.adaptive.pendingStats = some stats →
          (s.adaptive.tickInputs stats (s.now + call.elapsed)).Changes →
          (s.adaptive.tickInputs stats (s.now + call.elapsed)).EndsBelow s.sleepBps
    | _ => True

theorem step_ok
    {s : FrameLoop} (h : s.adaptive.Ok) (call : LoopStep) :
    (s.step call).2.adaptive.Ok := by
  obtain ⟨elapsed, input⟩ := call
  cases input with
  | event e =>
      cases e with
      | heartbeat stats => exact h
      | transportFeedback entries =>
          simp only [step, handle, AdaptiveState.onEvent]
          split_ifs <;> exact h
      | bitrateSetting mbps => exact (AdaptiveState.bitrateSetting_spec h mbps _).1
  | tick => exact (AdaptiveState.tick_spec h _).1
  | thermal multiplier =>
      cases multiplier with
      | none => exact h
      | some multiplier => exact (AdaptiveState.applyThermal_spec h multiplier).1
  | checkSleep tracking =>
      cases tracking with
      | none => exact h
      | some data =>
          have hctrl := (AdaptiveState.checkSleepMode_spec h data).1
          simp only [step, handle, AdaptiveState.Ok, hctrl]
          exact h

theorem handle_event
    (adaptive : AdaptiveState) (now : Nat) (e : ControlEvent) :
    handle adaptive now (.event e) = adaptive.onEvent e now :=
  rfl

section Answer

variable {s : FrameLoop} {elapsed : Nat} {i : LoopInput} {r : List Nat × AdaptiveState}

/-- A step at which the encoder is told something. -/
theorem step_notified
    {bps : Nat} (hr : handle s.adaptive (s.now + elapsed) i = r) (h : r.1 = [bps]) :
    (s.step ⟨elapsed, i⟩).2 =
      { adaptive := r.2, now := s.now + elapsed, commanded := bps } := by
  have hstep : (s.step ⟨elapsed, i⟩).2 =
      { adaptive := (handle s.adaptive (s.now + elapsed) i).2
        now := s.now + elapsed
        commanded :=
          (handle s.adaptive (s.now + elapsed) i).1.getLast?.getD s.commanded } := rfl
  rw [hstep, hr, h]
  rfl

/-- A step at which the encoder is told nothing. -/
theorem step_silent
    (hr : handle s.adaptive (s.now + elapsed) i = r) (h : r.1 = []) :
    (s.step ⟨elapsed, i⟩).2 =
      { adaptive := r.2, now := s.now + elapsed, commanded := s.commanded } := by
  have hstep : (s.step ⟨elapsed, i⟩).2 =
      { adaptive := (handle s.adaptive (s.now + elapsed) i).2
        now := s.now + elapsed
        commanded :=
          (handle s.adaptive (s.now + elapsed) i).1.getLast?.getD s.commanded } := rfl
  rw [hstep, hr, h]
  rfl

end Answer

/-- A step that tells the encoder nothing about an unchanged bitrate. -/
theorem Matches.same
    {s t : FrameLoop} (hk : s.Matches)
    (hsleeping : t.adaptive.sleepDetector.isSleeping =
      s.adaptive.sleepDetector.isSleeping)
    (hcurrent : t.adaptive.bitrateCtrl.currentBitrateBps =
      s.adaptive.bitrateCtrl.currentBitrateBps)
    (hcommanded : t.commanded = s.commanded) :
    t.Matches := by
  intro hawake
  rw [hcommanded, hcurrent]
  exact hk (hsleeping.symm.trans hawake)

theorem matches_iff
    {s : FrameLoop} (h : s.adaptive.Ok) (hk : s.Matches) (call : LoopStep) :
    (s.step call).2.Matches ↔ s.Undisturbed call := by
  obtain ⟨elapsed, input⟩ := call
  cases input with
  | event e =>
      refine iff_of_true ?_ trivial
      cases e with
      | heartbeat stats => exact hk
      | transportFeedback entries =>
          simp only [step, handle, AdaptiveState.onEvent]
          split_ifs <;> exact hk
      | bitrateSetting mbps =>
          obtain ⟨-, -, -, hnotified⟩ :=
            AdaptiveState.bitrateSetting_spec h mbps (s.now + elapsed)
          have hr := handle_event s.adaptive (s.now + elapsed) (.bitrateSetting mbps)
          generalize s.adaptive.onEvent (.bitrateSetting mbps) (s.now + elapsed) = r
            at hr hnotified
          rw [step_notified hr hnotified]
          exact fun _ => rfl
  | tick =>
      refine iff_of_true ?_ trivial
      have hspec := AdaptiveState.tick_spec h (s.now + elapsed)
      generalize hr : s.adaptive.tick (s.now + elapsed) = r at hspec
      obtain ⟨-, hsleep, ⟨hnone, hsame, -⟩ | ⟨stats, -, -, -, hnotified⟩⟩ := hspec
      · rw [step_silent (i := .tick) hr hnone]
        exact hk.same (congrArg SleepDetector.isSleeping hsleep) hsame rfl
      · rw [step_notified (i := .tick) hr hnotified]
        exact fun _ => rfl
  | thermal multiplier =>
      cases multiplier with
      | none => exact iff_of_true hk trivial
      | some multiplier =>
          obtain ⟨-, hsleep, hsame⟩ := AdaptiveState.applyThermal_spec h multiplier
          have hr : handle s.adaptive (s.now + elapsed) (.thermal (some multiplier)) =
              ([], s.adaptive.applyThermal (some multiplier)) := rfl
          rw [step_silent hr rfl]
          generalize s.adaptive.applyThermal (some multiplier) = after at hsleep hsame ⊢
          unfold Matches Undisturbed
          rw [hsleep]
          refine forall_congr' fun hawake => ?_
          rw [← hsame, ← hk hawake]
  | checkSleep tracking =>
      cases tracking with
      | none => exact iff_of_true hk trivial
      | some data =>
          have hspec := AdaptiveState.checkSleepMode_spec h data
          generalize hr : s.adaptive.checkSleepMode (some data) = r at hspec
          obtain ⟨hctrl, -, hcases⟩ := hspec
          rcases hcases with ⟨hwakes, hsleeping, hnotified⟩ |
            ⟨hasleep, hsleeping, hnotified⟩ | ⟨hwakes, hsleeping, hnotified⟩
          · rw [step_notified (i := .checkSleep (some data)) hr hnotified]
            unfold Matches Undisturbed
            rw [hctrl, hsleeping]
            exact ⟨fun heq _ => (heq rfl).symm, fun hcond _ => (hcond hwakes).symm⟩
          · rw [step_notified (i := .checkSleep (some data)) hr hnotified]
            refine iff_of_true ?_ ?_
            · intro hawake
              exact absurd (hsleeping.symm.trans hawake) (by decide)
            · intro hwakes
              exact absurd (hasleep.2.1.symm.trans hwakes.2.1) (by decide)
          · rw [step_silent (i := .checkSleep (some data)) hr hnotified]
            refine iff_of_true ?_ (fun hw => absurd hw hwakes)
            exact hk.same hsleeping (congrArg BitrateController.currentBitrateBps hctrl) rfl

/-- A step that tells the encoder nothing and leaves the sleep detector alone. -/
theorem Rests.same
    {s t : FrameLoop} (hk : s.Rests)
    (hsleep : t.adaptive.sleepDetector = s.adaptive.sleepDetector)
    (hcommanded : t.commanded = s.commanded) :
    t.Rests := by
  unfold Rests sleepBps
  rw [hsleep, hcommanded]
  exact hk

/-- A step that tells the encoder something and leaves the sleep detector alone. -/
theorem rests_of_notified
    {s t : FrameLoop}
    (hsleep : t.adaptive.sleepDetector = s.adaptive.sleepDetector) :
    t.Rests ↔
      (s.adaptive.sleepDetector.isSleeping = true → t.commanded ≤ s.sleepBps) := by
  unfold Rests sleepBps
  rw [hsleep]

theorem rests_iff
    {s : FrameLoop} (h : s.adaptive.Ok) (hk : s.Rests) (call : LoopStep) :
    (s.step call).2.Rests ↔ s.Quiet call := by
  obtain ⟨elapsed, input⟩ := call
  cases input with
  | event e =>
      cases e with
      | heartbeat stats => exact iff_of_true hk (fun _ => trivial)
      | transportFeedback entries =>
          refine iff_of_true ?_ (fun _ => trivial)
          simp only [step, handle, AdaptiveState.onEvent]
          split_ifs <;> exact hk
      | bitrateSetting mbps =>
          obtain ⟨-, hsleep, hcurrent, hnotified⟩ :=
            AdaptiveState.bitrateSetting_spec h mbps (s.now + elapsed)
          have hr := handle_event s.adaptive (s.now + elapsed) (.bitrateSetting mbps)
          generalize s.adaptive.onEvent (.bitrateSetting mbps) (s.now + elapsed) = r
            at hr hsleep hcurrent hnotified
          rw [hcurrent] at hnotified
          rw [step_notified hr hnotified, rests_of_notified hsleep]
          exact Iff.rfl
  | tick =>
      have hspec := AdaptiveState.tick_spec h (s.now + elapsed)
      generalize hr : s.adaptive.tick (s.now + elapsed) = r at hspec
      obtain ⟨-, hsleep, ⟨hnone, -, hstill⟩ | ⟨stats, hstats, hchanges, hcurrent, hnotified⟩⟩ :=
        hspec
      · rw [step_silent (i := .tick) hr hnone]
        refine iff_of_true (hk.same hsleep rfl) ?_
        exact fun _ stats hstats hchanges => absurd hchanges (hstill stats hstats)
      · have hin := AdaptiveState.tickInputs_inBounds h stats (s.now + elapsed)
        have hends := hin.endsBelow_iff hchanges s.sleepBps
        rw [hcurrent] at hnotified
        rw [step_notified (i := .tick) hr hnotified, rests_of_notified hsleep]
        refine forall_congr' fun _ => ⟨fun hlow stats' hstats' _ => ?_, fun hall => ?_⟩
        · rw [hstats] at hstats'
          cases hstats'
          exact hends.mp hlow
        · exact hends.mpr (hall stats hstats hchanges)
  | thermal multiplier =>
      refine iff_of_true ?_ (fun _ => trivial)
      cases multiplier with
      | none => exact hk
      | some multiplier =>
          obtain ⟨-, hsleep, -⟩ := AdaptiveState.applyThermal_spec h multiplier
          exact hk.same hsleep rfl
  | checkSleep tracking =>
      refine iff_of_true ?_ (fun _ => trivial)
      cases tracking with
      | none => exact hk
      | some data =>
          have hspec := AdaptiveState.checkSleepMode_spec h data
          generalize hr : s.adaptive.checkSleepMode (some data) = r at hspec
          obtain ⟨-, hrate, hcases⟩ := hspec
          rcases hcases with ⟨-, hsleeping, hnotified⟩ | ⟨-, -, hnotified⟩ |
            ⟨-, hsleeping, hnotified⟩
          · rw [step_notified (i := .checkSleep (some data)) hr hnotified]
            intro hasleep
            exact absurd (hsleeping.symm.trans hasleep) (by decide)
          · rw [step_notified (i := .checkSleep (some data)) hr hnotified]
            unfold Rests sleepBps
            rw [hrate]
            exact fun _ => Nat.mod_le _ _
          · rw [step_silent (i := .checkSleep (some data)) hr hnotified]
            unfold Rests sleepBps
            rw [hrate]
            exact fun hasleep => hk (hsleeping.symm.trans hasleep)

theorem start_matches
    (config : AppConfig) (sleepEnabled : Bool) (now : Nat) :
    (start config sleepEnabled now).Matches := by
  have hok := (AdaptiveState.ok_new config sleepEnabled now).1
  exact fun _ => asU32_of_le (Nat.le_trans hok.le_max hok.setting.2)

/-- Throughout a run, the encoder runs at the controller's bitrate while awake. -/
def Followed (config : AppConfig) (sleepEnabled : Bool) (now : Nat)
    (calls : List LoopStep) : Prop :=
  Run.Along step (fun s call => (s.step call).2.Matches) (start config sleepEnabled now) calls

/-- The encoder follows the controller in exactly the undisturbed runs. -/
theorem followed_iff
    (config : AppConfig) (sleepEnabled : Bool) (now : Nat) (calls : List LoopStep) :
    Followed config sleepEnabled now calls ↔
      Run.Along step Undisturbed (start config sleepEnabled now) calls :=
  Run.along_iff step (fun s call (h : s.adaptive.Ok) => step_ok h call)
    (fun _ call h hk => matches_iff h hk call)
    (AdaptiveState.ok_new config sleepEnabled now) (start_matches config sleepEnabled now) calls

/-- The governor's answer at the limit temperature. -/
def limitReached : List LoopStep :=
  [⟨11111111, .thermal (some (f64 7 10))⟩]

/-- The ceiling at the limit temperature lowers the bitrate behind the encoder's back. -/
theorem limitReached_unfollowed :
    ¬ Followed {} false 0 limitReached := by
  rintro ⟨hmatches, -⟩
  have hceiling := (matches_iff (AdaptiveState.ok_new {} false 0) (start_matches {} false 0) _).mp
    hmatches
  have hlow : (Flt.mul (Flt.ofNat 80000000) (f64 7 10)).toUnsigned 64 ≤ 80000000 - 1 :=
    candidate_lt (by decide) (by decide) (f64_nonneg 7 10)
      (f64_mag_mono (by decide) (by decide) (by decide))
  rcases hceiling rfl with hle | hfloor
  · exact absurd (Nat.le_trans hle hlow) (by decide)
  · exact absurd hfloor (by decide)

/-- Throughout a run, the encoder was told at most the sleep bitrate while asleep. -/
def SleepHolds (config : AppConfig) (sleepEnabled : Bool) (now : Nat)
    (calls : List LoopStep) : Prop :=
  Run.Along step (fun s call => (s.step call).2.Rests) (start config sleepEnabled now) calls

theorem along_rests_iff
    {s : FrameLoop} (h : s.adaptive.Ok) (hk : s.Rests) (calls : List LoopStep) :
    Run.Along step (fun s call => (s.step call).2.Rests) s calls ↔
      Run.Along step Quiet s calls :=
  Run.along_iff step (fun s call (h : s.adaptive.Ok) => step_ok h call)
    (fun _ call h hk => rests_iff h hk call) h hk calls

theorem start_rests
    (config : AppConfig) (sleepEnabled : Bool) (now : Nat) :
    (start config sleepEnabled now).Rests :=
  fun hasleep => absurd hasleep Bool.false_ne_true

/-- Sleep mode holds in exactly the quiet runs. -/
theorem sleepHolds_iff
    (config : AppConfig) (sleepEnabled : Bool) (now : Nat) (calls : List LoopStep) :
    SleepHolds config sleepEnabled now calls ↔
      Run.Along step Quiet (start config sleepEnabled now) calls :=
  along_rests_iff (AdaptiveState.ok_new config sleepEnabled now)
    (start_rests config sleepEnabled now) calls

section Nap

variable (data : TrackingData) (elapsed : Nat)

theorem step_checkSleep
    (s : FrameLoop) :
    (s.step ⟨elapsed, .checkSleep (some data)⟩).2.adaptive.sleepDetector =
      (s.adaptive.sleepDetector.update data).2 := by
  unfold step handle AdaptiveState.checkSleepMode
  simp only
  rcases s.adaptive.sleepDetector.update data with ⟨_ | _ | _, det⟩ <;> rfl

/-- Samples from one place put the user to sleep when the timeout is over. -/
theorem sleeps_after
    (n : Nat) {s : FrameLoop} {data : TrackingData}
    (hrest : s.adaptive.sleepDetector.Resting data)
    (hprev : s.adaptive.sleepDetector.prevPosition = some data.position)
    (hidle : s.adaptive.sleepDetector.idleFrames + (n + 1) =
      90 * s.adaptive.sleepDetector.timeoutSeconds.toNat) :
    let t := Run.final step s (List.replicate (n + 1) ⟨elapsed, .checkSleep (some data)⟩)
    t.adaptive.sleepDetector.isSleeping = true ∧
      t.adaptive.sleepDetector.sleepBitrateMbps =
        s.adaptive.sleepDetector.sleepBitrateMbps := by
  rw [List.replicate_succ, Run.final_cons]
  have hstep := step_checkSleep data elapsed s
  induction n generalizing s with
  | zero =>
      simp only [List.replicate_zero, Run.final_nil]
      rw [hstep]
      exact ⟨hrest.fallsAsleep (by omega), (SleepDetector.update_cases _ _).1⟩
  | succ n ih =>
      have hlow : s.adaptive.sleepDetector.idleFrames + 1 <
          90 * s.adaptive.sleepDetector.timeoutSeconds.toNat := by omega
      rw [hrest.update hlow] at hstep
      generalize (s.step ⟨elapsed, .checkSleep (some data)⟩).2 = t at hstep ⊢
      have hmotion : t.adaptive.sleepDetector.motion data =
          s.adaptive.sleepDetector.motion data := by
        simp only [SleepDetector.motion, hstep, hprev]
      have hnext : t.adaptive.sleepDetector.Resting data :=
        { enabled := by rw [hstep]; exact hrest.enabled
          awake := by rw [hstep]; exact hrest.awake
          still := by
            rw [hmotion, hstep]
            exact hrest.still }
      have hrun := ih hnext (by rw [hstep]) (by rw [hstep]; simp only; omega)
        (step_checkSleep data elapsed t)
      rw [List.replicate_succ, Run.final_cons]
      rw [hstep] at hrun
      exact hrun

end Nap

/-- A sample of a head at the origin. -/
def origin : TrackingData :=
  { position := (f32 0 1, f32 0 1, f32 0 1) }

def sampleOrigin : LoopStep :=
  ⟨11111111, .checkSleep (some origin)⟩

/-- `n` samples without a movement, and then a new setting. -/
def settingAfter (n : Nat) : List LoopStep :=
  List.replicate n sampleOrigin ++ [⟨0, .event (.bitrateSetting 80)⟩]

theorem asleep_at_origin
    {n : Nat} (hn : n + 2 = 27000) :
    let t := Run.final step (start {} true 0) (List.replicate (n + 2) sampleOrigin)
    t.adaptive.sleepDetector.isSleeping = true ∧
      t.adaptive.sleepDetector.sleepBitrateMbps = 8 := by
  have hfirst : (start {} true 0).adaptive.sleepDetector.Resting origin :=
    ⟨rfl, rfl, by decide⟩
  have hstep := step_checkSleep origin 11111111 (start {} true 0)
  rw [hfirst.update (by decide)] at hstep
  have hnext : (step (start {} true 0) sampleOrigin).2.adaptive.sleepDetector.Resting origin := by
    unfold sampleOrigin
    rw [hstep]
    exact ⟨rfl, rfl, by decide⟩
  have htimeout : (90 : Nat) * (300 : UInt32).toNat = 27000 := by decide
  have hrun := sleeps_after 11111111 n hnext (by unfold sampleOrigin; rw [hstep])
    (by
      unfold sampleOrigin
      rw [hstep]
      refine Eq.trans ?_ htimeout.symm
      change 0 + 1 + (n + 1) = 27000
      omega)
  refine ⟨hrun.1, hrun.2.trans ?_⟩
  unfold sampleOrigin
  rw [hstep]
  rfl

theorem settingAfter_breaks
    {n : Nat} (hn : n = 27000) :
    ¬ SleepHolds {} true 0 (settingAfter n) := by
  obtain ⟨m, rfl⟩ := Nat.exists_eq_add_of_le' (show 2 ≤ n by omega)
  obtain ⟨hasleep, hrate⟩ := asleep_at_origin hn
  intro hholds
  have hquietly := (along_rests_iff (AdaptiveState.ok_new {} true 0) (start_rests {} true 0)
    (settingAfter (m + 2))).mp hholds
  rw [settingAfter, Run.along_append] at hquietly
  obtain ⟨-, hquiet, -⟩ := hquietly
  have hlow := hquiet hasleep
  simp only [sleepBps, hrate] at hlow
  exact absurd (Nat.le_trans (Nat.le_max_left _ _) hlow) (by decide)

/-- After five minutes at 90 samples a second, a new setting wakes the encoder, not the user. -/
theorem settingAsleep_breaks :
    ¬ SleepHolds {} true 0 (settingAfter 27000) :=
  settingAfter_breaks rfl

end FrameLoop

end Engine
end FocusVision
