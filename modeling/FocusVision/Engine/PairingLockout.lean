import FocusVision.Engine.Pairing

/-!
# The pairing lockout

For every sequence of operations, restarts included, on a host that starts
without a lockout file:

* at most `max_attempts` wrong PINs are compared with one generated PIN without
  a successful `verify` between them;
* the last of these locks pairing out, for every `verify` until the lockout
  duration has passed;
* `verify` succeeds exactly for the current PIN while no lockout holds.

The counting part of the invariant is `Guarded`; `Drawn` ties it to the PINs that were
drawn, and `Deadline` says that the memory and the file agree on the end of the last
lockout.
-/

namespace FocusVision
namespace Engine

/-- No PIN in this stretch of the log was correct. -/
def AllMisses (log : List Comparison) : Prop :=
  ∀ e ∈ log, e.correct = false

/-- After `log`, the comparison `e` is the `maxAttempts`-th miss of its PIN
without a success between them. -/
def ExhaustsAttempts (limits : PairingLimits) (log : List Comparison)
    (e : Comparison) : Prop :=
  e.correct = false ∧
    ∃ before since, log = before ++ since ∧ AllMisses since ∧
      since.countP (Comparison.missOf e.generation) + 1 = limits.maxAttempts

/-- The audit of a host that started at `bootTime` without a lockout file. -/
def audit (epoch : Nat) (limits : PairingLimits) (bootTime : Nat)
    (bootRandom : UInt32) (calls : List PairingCall) : Audit :=
  Run.final (Audit.step epoch)
    { host := PairingHost.start epoch limits bootTime bootRandom none } calls

/-- After `calls`, the call `c` submits the `maxAttempts`-th wrong PIN. -/
def SubmitsLastMiss (epoch : Nat) (limits : PairingLimits) (bootTime : Nat)
    (bootRandom : UInt32) (calls : List PairingCall) (c : PairingCall) : Prop :=
  let a := audit epoch limits bootTime bootRandom calls
  ∃ e, a.host.compares a.generation c = some e ∧
    ExhaustsAttempts limits a.log e

/-- At time `t` the lockout of some earlier last miss has not passed. -/
def LockoutActive (epoch : Nat) (limits : PairingLimits) (bootTime : Nat)
    (bootRandom : UInt32) (calls : List PairingCall) (t : Nat) : Prop :=
  ∃ before c after, calls = before ++ c :: after ∧
    SubmitsLastMiss epoch limits bootTime bootRandom before c ∧
    t < c.now + limits.lockout

/-! ### The drawn PINs -/

theorem Comparison.ComparesWith.append
    {pins : List UInt32} {e : Comparison} (h : e.ComparesWith pins) (more : List UInt32) :
    e.ComparesWith (pins ++ more) := by
  obtain ⟨pin, hpin, hcorrect⟩ := h
  refine ⟨pin, ?_, hcorrect⟩
  rw [List.getElem?_append_left (List.getElem?_eq_some_iff.mp hpin).1]
  exact hpin

/-- The current PIN is the one that was drawn last, and the log compares with drawn PINs. -/
structure Drawn (a : Audit) : Prop where
  length_eq : a.pins.length = a.generation + 1
  current : a.pins[a.generation]? = some a.host.state.pin
  log : ∀ e ∈ a.log, e.ComparesWith a.pins

/-- A comparison with the current PIN. -/
theorem Drawn.log_append
    {a : Audit} (h : Drawn a) {now : Nat} {submitted : UInt32} {correct : Bool}
    (hcorrect : correct = true ↔ submitted = a.host.state.pin) :
    ∀ e ∈ a.log ++ [⟨a.generation, now, submitted, correct⟩], e.ComparesWith a.pins := by
  intro e he
  rcases List.mem_append.mp he with hold | hnew
  · exact h.log e hold
  · rw [List.mem_singleton.mp hnew]
    exact ⟨a.host.state.pin, h.current, hcorrect⟩

/-- A PIN is drawn. -/
theorem Drawn.next
    {a : Audit} (h : Drawn a) (random : UInt32) :
    (a.pins ++ [generatePin random]).length = a.generation + 1 + 1 ∧
      (a.pins ++ [generatePin random])[a.generation + 1]? = some (generatePin random) := by
  refine ⟨by rw [List.length_append, List.length_singleton, h.length_eq], ?_⟩
  rw [← h.length_eq]
  exact List.getElem?_concat_length

theorem Drawn.effect
    {epoch : Nat} {a : Audit} {c : PairingCall} {r : PairingAnswer × Audit}
    (h : Drawn a) (he : Audit.Effect epoch a c r) :
    Drawn r.2 := by
  obtain ⟨hlength, hcurrent⟩ := h.next c.random
  cases he with
  | refused | kept => exact h
  | rearmed => exact ⟨h.length_eq, h.current, h.log⟩
  | rotated | restarted => exact ⟨hlength, hcurrent, fun e he => (h.log e he).append _⟩
  | accepted submittedPin hop hopen hpin =>
      exact ⟨h.length_eq, h.current, h.log_append (iff_of_true rfl hpin)⟩
  | missed submittedPin hop hopen hpin =>
      exact ⟨h.length_eq, h.current, h.log_append (iff_of_false (by decide) hpin)⟩
  | exhausted submittedPin hop hopen hpin =>
      have hlog := @Drawn.log_append a h c.now submittedPin false (iff_of_false (by decide) hpin)
      exact ⟨hlength, hcurrent, fun e he => (hlog e he).append _⟩

theorem drawn_start
    (host : PairingHost) :
    Drawn { host } :=
  ⟨rfl, rfl, fun _ he => absurd he List.not_mem_nil⟩

/-! ### Counting misses -/

theorem countP_missOf_append_singleton
    (log : List Comparison) (e : Comparison) (g : Nat) :
    (log ++ [e]).countP (Comparison.missOf g) =
      log.countP (Comparison.missOf g) +
        if e.correct = false ∧ e.generation = g then 1 else 0 := by
  rw [List.countP_append]
  congr 1
  simp [Comparison.missOf, List.countP_cons]

section Counting

variable {limits : PairingLimits}

/-- The attempt counter counts the misses of the current PIN since the last
success, and no PIN has seen more than `maxAttempts` of them. -/
structure Guarded (limits : PairingLimits) (a : Audit) : Prop where
  limits_eq : a.host.state.limits = limits
  attempts_lt : a.host.state.attempts < limits.maxAttempts
  generation_le : ∀ e ∈ a.log, e.generation ≤ a.generation
  current : ∃ before since, a.log = before ++ since ∧ AllMisses since ∧
    since.countP (Comparison.missOf a.generation) = a.host.state.attempts
  since_le : ∀ before since, a.log = before ++ since → AllMisses since →
    since.countP (Comparison.missOf a.generation) ≤ a.host.state.attempts
  stretch_le : ∀ g before stretch after, a.log = before ++ stretch ++ after →
    AllMisses stretch → stretch.countP (Comparison.missOf g) ≤ limits.maxAttempts

/-- A PIN that was not generated yet was not compared with. -/
theorem Guarded.countP_next
    {a : Audit} (h : Guarded limits a)
    {before since after : List Comparison}
    (hlog : a.log = before ++ since ++ after) :
    since.countP (Comparison.missOf (a.generation + 1)) = 0 := by
  rw [List.countP_eq_zero]
  intro e he
  have hle := h.generation_le e (by rw [hlog]; simp [he])
  simp only [Comparison.missOf, Bool.and_eq_true, beq_iff_eq, not_and]
  intro _
  omega

theorem Guarded.generation_le_append
    {a : Audit} (h : Guarded limits a) (now : Nat) (submitted : UInt32) (correct : Bool)
    {e : Comparison} (he : e ∈ a.log ++ [⟨a.generation, now, submitted, correct⟩]) :
    e.generation ≤ a.generation := by
  rcases List.mem_append.mp he with he | he
  · exact h.generation_le e he
  · exact Nat.le_of_eq (congrArg Comparison.generation (List.mem_singleton.mp he))

/-- Stretches of a log that grows by the comparison of the current PIN. -/
theorem Guarded.stretch_le_append
    {a : Audit} (h : Guarded limits a) (now : Nat) (submitted : UInt32) (correct : Bool)
    (g : Nat) (before stretch after : List Comparison)
    (hlog : a.log ++ [⟨a.generation, now, submitted, correct⟩] = before ++ stretch ++ after)
    (hmiss : AllMisses stretch) :
    stretch.countP (Comparison.missOf g) ≤ limits.maxAttempts := by
  have hlt := h.attempts_lt
  rcases Run.append_eq_append_singleton hlog with ⟨-, heq⟩ | ⟨after', -, heq⟩
  · rcases Run.append_eq_append_singleton heq.symm with ⟨rfl, -⟩ | ⟨stretch', rfl, hlog'⟩
    · simp
    · rw [countP_missOf_append_singleton]
      have hmiss' : AllMisses stretch' := fun e he => hmiss e (by simp [he])
      by_cases hg : a.generation = g
      · subst hg
        have := h.since_le before stretch' hlog' hmiss'
        split_ifs <;> omega
      · rw [if_neg (by simp [hg])]
        exact h.stretch_le g before stretch' [] (by simpa using hlog') hmiss'
  · exact h.stretch_le g before stretch after' heq hmiss

/-- One operation keeps the count. -/
theorem Guarded.effect
    {epoch : Nat} {a : Audit} {c : PairingCall} {r : PairingAnswer × Audit}
    (h : Guarded limits a) (hallowed : limits.Allowed)
    (he : Audit.Effect epoch a c r) :
    Guarded limits r.2 := by
  have hone := hallowed.one_le
  have hlimits := h.limits_eq
  have hlt := h.attempts_lt
  have hnext : ∀ before since after, a.log = before ++ since ++ after →
      since.countP (Comparison.missOf (a.generation + 1)) = 0 :=
    fun _ _ _ hlog => h.countP_next hlog
  cases he with
  | refused | kept => exact h
  | rearmed window hop =>
      exact
        { limits_eq := hlimits
          attempts_lt := hlt
          generation_le := h.generation_le
          current := h.current
          since_le := h.since_le
          stretch_le := h.stretch_le }
  | rotated hop hexpired =>
      exact
        { limits_eq := hlimits
          attempts_lt := hone
          generation_le := fun e he => Nat.le_succ_of_le (h.generation_le e he)
          current := ⟨a.log, [], by simp, by simp [AllMisses], rfl⟩
          since_le := fun before since hlog _ =>
            Nat.le_of_eq (hnext before since [] (by simpa using hlog))
          stretch_le := h.stretch_le }
  | restarted hop =>
      exact
        { limits_eq := hlimits
          attempts_lt := hone
          generation_le := fun e he => Nat.le_succ_of_le (h.generation_le e he)
          current := ⟨a.log, [], by simp, by simp [AllMisses], rfl⟩
          since_le := fun before since hlog _ =>
            Nat.le_of_eq (hnext before since [] (by simpa using hlog))
          stretch_le := h.stretch_le }
  | accepted submittedPin hop hopen hpin =>
      refine
        { limits_eq := hlimits
          attempts_lt := hone
          generation_le := fun _ he => h.generation_le_append c.now submittedPin true he
          current := ⟨a.log ++ [⟨a.generation, c.now, submittedPin, true⟩], [], by simp,
            by simp [AllMisses], rfl⟩
          since_le := ?_
          stretch_le := fun g before stretch after hlog hmiss =>
            h.stretch_le_append c.now submittedPin true g before stretch after hlog hmiss }
      · -- a stretch without success cannot reach past the new entry
        intro before since hlog hmiss
        rcases Run.append_eq_append_singleton hlog with ⟨rfl, -⟩ | ⟨since', rfl, -⟩
        · simp
        · have := hmiss ⟨a.generation, c.now, submittedPin, true⟩ (by simp)
          exact absurd this (by simp)
  | missed submittedPin hop hopen hpin hless =>
      obtain ⟨before, since, hlog, hmiss, hcount⟩ := h.current
      refine
        { limits_eq := hlimits
          attempts_lt := by rw [← hlimits]; exact hless
          generation_le := fun _ he => h.generation_le_append c.now submittedPin false he
          current := ?_
          since_le := ?_
          stretch_le := fun g before stretch after hlog hmiss =>
            h.stretch_le_append c.now submittedPin false g before stretch after hlog hmiss }
      · refine ⟨before, since ++ [⟨a.generation, c.now, submittedPin, false⟩], by simp [hlog],
          ?_, ?_⟩
        · intro e he
          rcases List.mem_append.mp he with he | he
          · exact hmiss e he
          · rw [List.mem_singleton.mp he]
        · rw [countP_missOf_append_singleton, hcount]
          simp
      · intro before since hlog hmiss
        rcases Run.append_eq_append_singleton hlog with ⟨rfl, -⟩ | ⟨since', rfl, hlog'⟩
        · simp
        · have := h.since_le before since' hlog' fun e he => hmiss e (by simp [he])
          rw [countP_missOf_append_singleton]
          simpa using this
  | exhausted submittedPin hop hopen hpin hlast =>
      have hgen := fun e => @Guarded.generation_le_append _ _ h c.now submittedPin false e
      refine
        { limits_eq := hlimits
          attempts_lt := hone
          generation_le := fun e he => Nat.le_succ_of_le (hgen e he)
          current := ⟨a.log ++ [⟨a.generation, c.now, submittedPin, false⟩], [], by simp,
            by simp [AllMisses], rfl⟩
          since_le := ?_
          stretch_le := fun g before stretch after hlog hmiss =>
            h.stretch_le_append c.now submittedPin false g before stretch after hlog hmiss }
      intro before since hlog hmiss
      refine Nat.le_of_eq (List.countP_eq_zero.mpr fun e he => ?_)
      have hmem : e ∈ before ++ since := List.mem_append_right before he
      rw [← hlog] at hmem
      have hle := hgen e hmem
      simp only [Comparison.missOf, Bool.and_eq_true, beq_iff_eq, not_and]
      intro _
      omega

/-- In every run, with any lockout file at its start. -/
theorem guarded_run
    (hallowed : limits.Allowed) (epoch bootTime : Nat) (bootRandom : UInt32)
    (file : PersistedLockout) (calls : List PairingCall) :
    let a := Run.final (Audit.step epoch)
      { host := PairingHost.start epoch limits bootTime bootRandom file } calls
    Guarded limits a ∧ Drawn a := by
  have hstep : ∀ a c, Guarded limits a ∧ Drawn a →
      Guarded limits (Audit.step epoch a c).2 ∧ Drawn (Audit.step epoch a c).2 := by
    rintro a c ⟨ha, hdrawn⟩
    have heffect := Audit.step_effect epoch a c (by
      rw [ha.limits_eq]
      exact Nat.le_trans hallowed.le_ten (by decide))
    exact ⟨ha.effect hallowed heffect, hdrawn.effect heffect⟩
  refine @Run.final_invariant _ _ _ (Audit.step epoch) _ hstep _ ⟨?_, drawn_start _⟩ calls
  exact
    { limits_eq := rfl
      attempts_lt := hallowed.one_le
      generation_le := by simp
      current := ⟨[], [], rfl, by simp [AllMisses], rfl⟩
      since_le := by
        intro before since hlog _
        rw [(List.append_eq_nil_iff.mp hlog.symm).2]
        exact Nat.zero_le _
      stretch_le := by
        intro g before stretch after hlog _
        have := (List.append_eq_nil_iff.mp hlog.symm).1
        rw [(List.append_eq_nil_iff.mp this).2]
        exact Nat.zero_le _ }

theorem audit_guarded
    (hallowed : limits.Allowed) (epoch bootTime : Nat) (bootRandom : UInt32)
    (calls : List PairingCall) :
    Guarded limits (audit epoch limits bootTime bootRandom calls) :=
  (guarded_run hallowed epoch bootTime bootRandom none calls).1

/-- What an operation does to the host of a run. -/
theorem audit_effect
    (epoch bootTime : Nat) (bootRandom : UInt32) (hallowed : limits.Allowed)
    (calls : List PairingCall) (c : PairingCall) :
    Audit.Effect epoch (audit epoch limits bootTime bootRandom calls) c
      ((audit epoch limits bootTime bootRandom calls).step epoch c) := by
  refine Audit.step_effect epoch _ c ?_
  rw [(audit_guarded hallowed epoch bootTime bootRandom calls).limits_eq]
  have := hallowed.le_ten
  omega

/-- `verify` locks pairing out exactly at the `maxAttempts`-th miss. -/
theorem Guarded.exhaustsAttempts_iff
    {a : Audit} (h : Guarded limits a) (now : Nat) (submitted : UInt32) :
    ExhaustsAttempts limits a.log ⟨a.generation, now, submitted, false⟩ ↔
      limits.maxAttempts ≤ a.host.state.attempts + 1 := by
  have hlt := h.attempts_lt
  constructor
  · rintro ⟨-, before, since, hlog, hmiss, hcount⟩
    have := h.since_le before since hlog hmiss
    simp only at hcount
    omega
  · intro hlast
    obtain ⟨before, since, hlog, hmiss, hcount⟩ := h.current
    refine ⟨rfl, before, since, hlog, hmiss, ?_⟩
    simp only
    omega

end Counting

/-- The end of the last lockout is `deadline`, in memory and on disk, from time
`now` on. -/
structure Deadline (epoch deadline now : Nat) (h : PairingHost) : Prop where
  locked_iff : ∀ t, now ≤ t → (h.state.isLocked t = true ↔ t < deadline)
  file_iff : ∀ t, now ≤ t → (epoch + t < h.file.load ↔ t < deadline)

section Deadlines

variable {epoch deadline now : Nat} {limits : PairingLimits}

theorem Deadline.later
    {h : PairingHost} (hd : Deadline epoch deadline now h)
    {t : Nat} (ht : now ≤ t) :
    Deadline epoch deadline t h :=
  { locked_iff := fun u hu => hd.locked_iff u (Nat.le_trans ht hu)
    file_iff := fun u hu => hd.file_iff u (Nat.le_trans ht hu) }

theorem start_without_file
    (epoch : Nat) (limits : PairingLimits) (now : Nat) (random : UInt32) :
    (PairingHost.start epoch limits now random none).state.lockoutUntil = none ∧
      (PairingHost.start epoch limits now random none).file = none := by
  simp [PairingHost.start, PairingState.withLimits, PersistedLockout.load]

/-- A restart takes the lockout over from the file. -/
theorem Deadline.start
    {h : PairingHost} (hd : Deadline epoch deadline now h)
    (hclock : epoch + now < 2 ^ 64) (random : UInt32) :
    Deadline epoch deadline now
      (PairingHost.start epoch limits now random h.file) := by
  have hnow : nowUnixUs epoch now = epoch + now := Nat.mod_eq_of_lt hclock
  have hfile := hd.file_iff
  unfold PairingHost.start PairingState.withLimits
  simp only [hnow, gt_iff_lt]
  by_cases hactive : epoch + now < h.file.load
  · simp only [hactive, decide_true, if_true, Bool.not_true, Bool.false_and,
      Bool.false_eq_true, if_false]
    refine { locked_iff := fun t ht => ?_, file_iff := hfile }
    rw [PairingState.isLocked_some rfl, ← hfile t ht]
    omega
  · have hpast : deadline ≤ now := by
      have := hfile now (Nat.le_refl _)
      omega
    simp only [hactive, decide_false, Bool.false_eq_true, if_false, Bool.not_false,
      Bool.true_and]
    refine { locked_iff := fun t ht => ?_, file_iff := fun t ht => ?_ }
    · rw [PairingState.isLocked_none rfl]
      simp only [Bool.false_eq_true, false_iff]
      omega
    · split
      · show epoch + t < 0 ↔ t < deadline
        omega
      · exact hfile t ht

/-- One operation keeps the deadline, except that the last miss sets it. -/
theorem Deadline.effect
    {a : Audit} {c : PairingCall} {r : PairingAnswer × Audit}
    (hd : Deadline epoch deadline now a.host) (ht : now ≤ c.now)
    (hlimits : a.host.state.limits.lockout ≤ 3600 * MICROS)
    (hclock : epoch + c.now + 3600 * MICROS < 2 ^ 64)
    (he : Audit.Effect epoch a c r) :
    (∃ submittedPin, c.op = .verify submittedPin ∧
      a.host.state.isLocked c.now = false ∧ submittedPin ≠ a.host.state.pin ∧
      a.host.state.limits.maxAttempts ≤ a.host.state.attempts + 1 ∧
      Deadline epoch (c.now + a.host.state.limits.lockout) c.now r.2.host) ∨
    (¬ (∃ submittedPin, c.op = .verify submittedPin ∧
        a.host.state.isLocked c.now = false ∧ submittedPin ≠ a.host.state.pin ∧
        a.host.state.limits.maxAttempts ≤ a.host.state.attempts + 1) ∧
      Deadline epoch deadline c.now r.2.host) := by
  have hd := hd.later ht
  cases he with
  | refused submittedPin hop hlocked =>
      refine Or.inr ⟨?_, hd⟩
      rintro ⟨p, -, hopen, -⟩
      rw [hlocked] at hopen
      exact absurd hopen (by decide)
  | kept hop | rotated hop | rearmed window hop =>
      refine Or.inr ⟨?_, { locked_iff := hd.locked_iff, file_iff := hd.file_iff }⟩
      rintro ⟨p, hverify, -⟩
      rw [hop] at hverify
      exact absurd hverify (by simp)
  | restarted hop =>
      refine Or.inr ⟨?_, hd.start (by omega) c.random⟩
      rintro ⟨p, hverify, -⟩
      rw [hop] at hverify
      exact absurd hverify (by simp)
  | accepted submittedPin hop hopen hpin =>
      have hpast : ¬ c.now < deadline := by
        rw [← hd.locked_iff c.now (Nat.le_refl _), hopen]
        decide
      refine Or.inr ⟨?_, { locked_iff := fun t h => ?_, file_iff := fun t h => ?_ }⟩
      · rintro ⟨p, hverify, -, hne, -⟩
        rw [hop] at hverify
        cases hverify
        exact hne hpin
      · rw [PairingState.isLocked_none rfl]
        simp only [Bool.false_eq_true, false_iff]
        omega
      · show epoch + t < 0 ↔ t < deadline
        omega
  | missed submittedPin hop hopen hpin hless =>
      refine Or.inr ⟨?_, { locked_iff := hd.locked_iff, file_iff := hd.file_iff }⟩
      rintro ⟨-, -, -, -, hlast⟩
      omega
  | exhausted submittedPin hop hopen hpin hlast =>
      refine Or.inl ⟨submittedPin, hop, hopen, hpin, hlast,
        { locked_iff := fun t h => PairingState.isLocked_some rfl t, file_iff := fun t h => ?_ }⟩
      have hnow : nowUnixUs epoch c.now = epoch + c.now :=
        Nat.mod_eq_of_lt (by omega)
      show epoch + t < saturatingAddU64 (nowUnixUs epoch c.now) _ ↔ _
      rw [hnow]
      unfold saturatingAddU64
      omega

end Deadlines

/-- The time of the last call. -/
def endTime : Nat → List PairingCall → Nat
  | t, [] => t
  | _, c :: calls => endTime c.now calls

theorem clockOk_append_cons
    {epoch : Nat} {c : PairingCall} {after : List PairingCall} :
    ∀ {t : Nat} {before : List PairingCall},
      ClockOk epoch t (before ++ c :: after) →
      ClockOk epoch t before ∧ endTime t before ≤ c.now ∧
        epoch + c.now + 3600 * MICROS < 2 ^ 64 ∧ ClockOk epoch c.now after
  | _, [], ⟨hle, hroom, hafter⟩ => ⟨trivial, hle, hroom, hafter⟩
  | _, _ :: _, ⟨hle, hroom, hrest⟩ => by
      obtain ⟨hbefore, hend, hc, hafter⟩ := clockOk_append_cons hrest
      exact ⟨⟨hle, hroom, hbefore⟩, hend, hc, hafter⟩

theorem endTime_append_singleton
    (t : Nat) (calls : List PairingCall) (c : PairingCall) :
    endTime t (calls ++ [c]) = c.now := by
  induction calls generalizing t with
  | nil => rfl
  | cons d calls ih => exact ih d.now

section Runs

variable {epoch bootTime : Nat} {limits : PairingLimits} {bootRandom : UInt32}

theorem audit_append_singleton
    (calls : List PairingCall) (c : PairingCall) :
    audit epoch limits bootTime bootRandom (calls ++ [c]) =
      (Audit.step epoch (audit epoch limits bootTime bootRandom calls) c).2 := by
  unfold audit
  rw [Run.final_append]
  rfl

/-- A call is the last miss exactly when the code locks pairing out. -/
theorem submitsLastMiss_iff
    (epoch bootTime : Nat) (bootRandom : UInt32) (hallowed : limits.Allowed)
    (calls : List PairingCall) (c : PairingCall) :
    SubmitsLastMiss epoch limits bootTime bootRandom calls c ↔
      ∃ submittedPin, c.op = .verify submittedPin ∧
        (audit epoch limits bootTime bootRandom calls).host.state.isLocked c.now = false ∧
        submittedPin ≠ (audit epoch limits bootTime bootRandom calls).host.state.pin ∧
        limits.maxAttempts ≤
          (audit epoch limits bootTime bootRandom calls).host.state.attempts + 1 := by
  have hguard := audit_guarded hallowed epoch bootTime bootRandom calls
  unfold SubmitsLastMiss
  generalize audit epoch limits bootTime bootRandom calls = a at hguard ⊢
  constructor
  · rintro ⟨e, hcmp, hexhaust⟩
    unfold PairingHost.compares at hcmp
    cases hop : c.op with
    | verify submittedPin =>
        rw [hop] at hcmp
        simp only [Option.ite_none_left_eq_some, Option.some.injEq] at hcmp
        obtain ⟨hopen, rfl⟩ := hcmp
        have hwrong : a.host.state.pinMatches submittedPin = false := hexhaust.1
        rw [hwrong] at hexhaust
        refine ⟨submittedPin, rfl, by simpa using hopen, ?_,
          (hguard.exhaustsAttempts_iff c.now submittedPin).mp hexhaust⟩
        rintro rfl
        rw [(PairingState.pinMatches_iff _ _).mpr rfl] at hwrong
        exact absurd hwrong (by decide)
    | rotateIfExpired | rearmForReconnect | restart =>
        rw [hop] at hcmp
        exact absurd hcmp (by simp)
  · rintro ⟨submittedPin, hop, hopen, hne, hlast⟩
    have hwrong : a.host.state.pinMatches submittedPin = false := by
      rw [Bool.eq_false_iff]
      exact fun h => hne ((PairingState.pinMatches_iff _ _).mp h)
    refine ⟨⟨a.generation, c.now, submittedPin, false⟩, ?_,
      (hguard.exhaustsAttempts_iff c.now submittedPin).mpr hlast⟩
    simp [PairingHost.compares, hop, hopen, hwrong]

theorem lockoutActive_append_singleton
    (calls : List PairingCall) (c : PairingCall) (t : Nat) :
    LockoutActive epoch limits bootTime bootRandom (calls ++ [c]) t ↔
      LockoutActive epoch limits bootTime bootRandom calls t ∨
        SubmitsLastMiss epoch limits bootTime bootRandom calls c ∧
          t < c.now + limits.lockout := by
  constructor
  · rintro ⟨before, d, after, hcalls, hmiss, hlt⟩
    rcases Run.append_eq_append_singleton hcalls with ⟨hnil, -⟩ | ⟨after', hafter, hrest⟩
    · exact absurd hnil (by simp)
    · rcases List.eq_nil_or_concat after' with rfl | ⟨init, last, rfl⟩
      · simp only [List.nil_append, List.cons.injEq] at hafter
        obtain ⟨rfl, -⟩ := hafter
        rw [List.append_nil] at hrest
        subst hrest
        exact Or.inr ⟨hmiss, hlt⟩
      · cases init with
        | nil =>
            simp only [List.concat_eq_append, List.nil_append, List.cons_append,
              List.cons.injEq] at hafter hrest
            obtain ⟨rfl, -⟩ := hafter
            exact Or.inl ⟨before, d, [], hrest, hmiss, hlt⟩
        | cons x init =>
            simp only [List.concat_eq_append, List.cons_append,
              List.cons.injEq] at hafter hrest
            obtain ⟨rfl, -⟩ := hafter
            exact Or.inl ⟨before, d, init ++ [last], hrest, hmiss, hlt⟩
  · rintro (⟨before, d, after, hcalls, hmiss, hlt⟩ | ⟨hmiss, hlt⟩)
    · exact ⟨before, d, after ++ [c], by simp [hcalls], hmiss, hlt⟩
    · exact ⟨calls, c, [], rfl, hmiss, hlt⟩

/-- In every run, the pairing state is locked exactly during the lockouts. -/
theorem audit_deadline
    (bootRandom : UInt32) (hallowed : limits.Allowed) (calls : List PairingCall)
    (hclock : ClockOk epoch bootTime calls) :
    ∃ deadline,
      Deadline epoch deadline (endTime bootTime calls)
        (audit epoch limits bootTime bootRandom calls).host ∧
      ∀ t, endTime bootTime calls ≤ t →
        (LockoutActive epoch limits bootTime bootRandom calls t ↔ t < deadline) := by
  induction calls using List.reverseRecOn with
  | nil =>
      refine ⟨0, ?_, fun t _ => ?_⟩
      · obtain ⟨hopen, hfile⟩ := start_without_file epoch limits bootTime bootRandom
        exact
          { locked_iff := fun t _ => by
              show PairingState.isLocked (PairingHost.start _ _ _ _ _).state t = true ↔ _
              rw [PairingState.isLocked_none hopen]
              simp
            file_iff := fun t _ => by
              show epoch + t < (PairingHost.start _ _ _ _ _).file.load ↔ _
              rw [hfile]
              simp [PersistedLockout.load] }
      · simp [LockoutActive]
  | append_singleton calls c ih =>
      obtain ⟨hbefore, hend, hroom, -⟩ := clockOk_append_cons hclock
      obtain ⟨deadline, hd, hactive⟩ := ih hbefore
      have hguard := audit_guarded hallowed epoch bootTime bootRandom calls
      have hlast := submitsLastMiss_iff epoch bootTime bootRandom hallowed calls c
      have heffect := audit_effect epoch bootTime bootRandom hallowed calls c
      rw [endTime_append_singleton, audit_append_singleton]
      have hstep := hd.effect hend (by rw [hguard.limits_eq]; exact hallowed.lockout_le)
        hroom heffect
      rw [hguard.limits_eq] at hstep
      rcases hstep with ⟨p, hop, hopen, hne, hmax, hd'⟩ | ⟨hno, hd'⟩
      · have hsub := hlast.mpr ⟨p, hop, hopen, hne, hmax⟩
        refine ⟨c.now + limits.lockout, hd', fun t ht => ?_⟩
        rw [lockoutActive_append_singleton, hactive t (Nat.le_trans hend ht)]
        have hpast : ¬ c.now < deadline := by
          rw [← hd.locked_iff c.now hend, hopen]
          decide
        constructor
        · rintro (hlt | ⟨-, hlt⟩)
          · omega
          · exact hlt
        · exact fun hlt => Or.inr ⟨hsub, hlt⟩
      · refine ⟨deadline, hd', fun t ht => ?_⟩
        rw [lockoutActive_append_singleton, hactive t (Nat.le_trans hend ht)]
        exact or_iff_left fun h => hno (hlast.mp h.1)

/-- What `verify` answers at any point of a run. -/
theorem verify_answer
    (hallowed : limits.Allowed) (calls : List PairingCall) (c : PairingCall)
    (submittedPin : UInt32) (hop : c.op = .verify submittedPin)
    (hclock : ClockOk epoch bootTime (calls ++ [c])) :
    let a := audit epoch limits bootTime bootRandom calls
    (LockoutActive epoch limits bootTime bootRandom calls c.now →
      (a.step epoch c).1 = .verified (.error .lockedOut)) ∧
    ((a.step epoch c).1 = .verified (.ok ()) ↔
      submittedPin = a.host.state.pin ∧
        ¬ LockoutActive epoch limits bootTime bootRandom calls c.now) := by
  intro a
  obtain ⟨hbefore, hend, -, -⟩ := clockOk_append_cons hclock
  obtain ⟨deadline, hd, hactive⟩ := audit_deadline bootRandom hallowed calls hbefore
  have hiff : LockoutActive epoch limits bootTime bootRandom calls c.now ↔
      a.host.state.isLocked c.now = true :=
    (hactive c.now hend).trans (hd.locked_iff c.now hend).symm
  have heffect := audit_effect epoch bootTime bootRandom hallowed calls c
  rw [hiff]
  change Audit.Effect epoch a c (a.step epoch c) at heffect
  generalize a.step epoch c = r at heffect
  cases heffect with
  | refused p hop' hlocked => simp [hlocked]
  | accepted p hop' hopen hpin =>
      rw [hop] at hop'
      cases hop'
      simp [hopen, hpin]
  | missed p hop' hopen hpin =>
      rw [hop] at hop'
      cases hop'
      simp [hopen, hpin]
  | exhausted p hop' hopen hpin =>
      rw [hop] at hop'
      cases hop'
      simp [hopen, hpin]
  | kept hop' | rotated hop' | rearmed window hop' | restarted hop' =>
      rw [hop] at hop'
      exact absurd hop' (by simp)

end Runs

/-- **Pairing lockout.**  In every run of a host that starts without a lockout
file:

* every PIN that is compared is compared with one of the generated PINs, and at
  most `maxAttempts` wrong ones with one of them, in any stretch of the run without
  a successful `verify`;
* the call that submits the `maxAttempts`-th of them is answered `LockedOut`, and
  so is every `verify` until the lockout duration has passed, whatever PIN it
  submits and whatever restarts, rotations and rearms come between;
* `verify` answers `Ok` exactly for the current PIN while no lockout is active. -/
theorem pairing_lockout
    (epoch : Nat) (limits : PairingLimits) (hallowed : limits.Allowed)
    (bootTime : Nat) (bootRandom : UInt32) (calls : List PairingCall)
    (hclock : ClockOk epoch bootTime calls) :
    (∀ e ∈ (audit epoch limits bootTime bootRandom calls).log,
      e.ComparesWith (audit epoch limits bootTime bootRandom calls).pins) ∧
    (∀ generation before stretch after,
      (audit epoch limits bootTime bootRandom calls).log = before ++ stretch ++ after →
      AllMisses stretch →
      stretch.countP (Comparison.missOf generation) ≤ limits.maxAttempts) ∧
    (∀ before c after, calls = before ++ c :: after →
      SubmitsLastMiss epoch limits bootTime bootRandom before c →
      ((audit epoch limits bootTime bootRandom before).step epoch c).1 =
        .verified (.error .lockedOut) ∧
      ∀ between d rest submittedPin, after = between ++ d :: rest →
        d.op = .verify submittedPin → d.now < c.now + limits.lockout →
        ((audit epoch limits bootTime bootRandom (before ++ c :: between)).step
          epoch d).1 = .verified (.error .lockedOut)) ∧
    (∀ before c after submittedPin, calls = before ++ c :: after →
      c.op = .verify submittedPin →
      (((audit epoch limits bootTime bootRandom before).step epoch c).1 =
          .verified (.ok ()) ↔
        submittedPin = (audit epoch limits bootTime bootRandom before).host.state.pin ∧
          ¬ LockoutActive epoch limits bootTime bootRandom before c.now)) := by
  obtain ⟨hguard, hdrawn⟩ := guarded_run hallowed epoch bootTime bootRandom none calls
  have hclocks : ∀ before c after, calls = before ++ c :: after →
      ClockOk epoch bootTime (before ++ [c]) := by
    rintro before c after rfl
    have h : before ++ c :: after = (before ++ [c]) ++ after := by simp
    cases after with
    | nil => exact hclock
    | cons d after =>
        rw [h] at hclock
        exact (clockOk_append_cons hclock).1
  refine ⟨hdrawn.log, hguard.stretch_le, ?_, ?_⟩
  · rintro before c after hcalls hlast
    constructor
    · obtain ⟨p, hop, hopen, hne, hmax⟩ :=
        (submitsLastMiss_iff epoch bootTime bootRandom hallowed before c).mp hlast
      have hguard := audit_guarded hallowed epoch bootTime bootRandom before
      have heffect := audit_effect epoch bootTime bootRandom hallowed before c
      generalize Audit.step epoch (audit epoch limits bootTime bootRandom before) c = r
        at heffect
      cases heffect with
      | refused | exhausted => rfl
      | accepted p' hop' _ hpin =>
          rw [hop] at hop'
          cases hop'
          exact absurd hpin hne
      | missed p' hop' _ _ hless =>
          rw [hguard.limits_eq] at hless
          omega
      | kept hop' | rotated hop' | rearmed window hop' | restarted hop' =>
          rw [hop] at hop'
          exact absurd hop' (by simp)
    · rintro between d rest submittedPin rfl hop hlt
      have hsplit : calls = (before ++ c :: between) ++ d :: rest := by
        rw [hcalls]
        simp
      exact (verify_answer hallowed _ d submittedPin hop (hclocks _ _ _ hsplit)).1
        ⟨before, c, between, rfl, hlast, hlt⟩
  · intro before c after submittedPin hcalls hop
    exact (verify_answer hallowed before c submittedPin hop (hclocks _ _ _ hcalls)).2

/-- A miss with one attempt, a restart, and the correct PIN of the new process. -/
theorem pairing_lockout_restart :
    ((audit 0 ⟨1, 300 * MICROS⟩ 0 7 [⟨10, 5, .verify 8⟩, ⟨20, 9, .restart⟩]).step 0
      ⟨30, 0, .verify 9⟩).1 = .verified (.error .lockedOut) := by
  have hallowed : PairingLimits.Allowed ⟨1, 300 * MICROS⟩ :=
    ⟨by decide, by decide, by decide, by decide⟩
  have hlast : SubmitsLastMiss 0 ⟨1, 300 * MICROS⟩ 0 7 [] ⟨10, 5, .verify 8⟩ :=
    ⟨⟨0, 10, 8, false⟩, by decide, rfl, [], [], rfl, by simp [AllMisses], rfl⟩
  have h := pairing_lockout 0 _ hallowed 0 7
    [⟨10, 5, .verify 8⟩, ⟨20, 9, .restart⟩, ⟨30, 0, .verify 9⟩]
    (by simp [ClockOk, MICROS])
  exact (h.2.2.1 [] _ _ rfl hlast).2 [⟨20, 9, .restart⟩] _ [] 9 rfl rfl (by decide)

end Engine
end FocusVision
