import FocusVision.Engine.Pairing

/-!
# The guessing rate against the pairing PIN

One process, without restart or reconnect: in any 300 s without a success at
most `2 * max_attempts - 1` wrong PINs are compared.  The bound needs both
mechanisms.  Within the window a PIN can expire once, which resets the attempt
counter, and the lockout that ends the second PIN lasts beyond the window.
-/

namespace FocusVision
namespace Engine

/-- The length of the window: the lifetime of a PIN. -/
def WINDOW : Nat := PIN_LIFETIME_SECONDS * MICROS

/-- Neither a restart nor a reconnect. -/
def PairingOp.isGuessing : PairingOp → Bool
  | .verify _ => true
  | .rotateIfExpired => true
  | .rearmForReconnect _ => false
  | .restart => false

/-- The calls come at non-decreasing times, none before `t`. -/
def NonDecreasing : Nat → List PairingCall → Prop
  | _, [] => True
  | t, c :: calls => t ≤ c.now ∧ NonDecreasing c.now calls

/-- A wrong PIN was compared in the window that begins at `a`. -/
def Comparison.missIn (a : Nat) (e : Comparison) : Bool :=
  !e.correct && decide (a ≤ e.now) && decide (e.now < a + WINDOW)

/-- A correct PIN was compared in the window that begins at `a`. -/
def Comparison.successIn (a : Nat) (e : Comparison) : Bool :=
  e.correct && decide (a ≤ e.now) && decide (e.now < a + WINDOW)

section Window

variable {epoch : Nat} {limits : PairingLimits} {a now : Nat}

/-- How the misses in the window came about, while it is open: against the PIN
of its beginning, or partly against one that replaced an expired PIN, or a
lockout holds until its end. -/
structure WindowBound (limits : PairingLimits) (a now : Nat) (s : Audit) : Prop where
  limits_eq : s.host.state.limits = limits
  lifetime_eq : s.host.state.lifetime = WINDOW
  attempts_lt : s.host.state.attempts < limits.maxAttempts
  count_le : s.log.countP (Comparison.missIn a) ≤ 2 * limits.maxAttempts - 1
  before : now < a → s.log.countP (Comparison.missIn a) = 0
  inside : now < a + WINDOW →
    s.log.countP (Comparison.missIn a) ≤ s.host.state.attempts ∨
    (a ≤ s.host.state.issuedAt ∧ s.log.countP (Comparison.missIn a) ≤
      limits.maxAttempts - 1 + s.host.state.attempts) ∨
    ∀ t < a + WINDOW, s.host.state.isLocked t = true

theorem countP_missIn_append
    (log : List Comparison) (e : Comparison) :
    (log ++ [e]).countP (Comparison.missIn a) =
      log.countP (Comparison.missIn a) +
        if e.correct = false ∧ a ≤ e.now ∧ e.now < a + WINDOW then 1 else 0 := by
  rw [List.countP_append]
  congr 1
  simp [Comparison.missIn, List.countP_cons, and_assoc]

/-- One call keeps the bound. -/
theorem WindowBound.effect
    {s : Audit} {c : PairingCall} {r : PairingAnswer × Audit}
    (h : WindowBound limits a now s) (ht : now ≤ c.now)
    (hone : 1 ≤ limits.maxAttempts) (hlockout : WINDOW ≤ limits.lockout)
    (hguess : c.op.isGuessing = true)
    (hsuccess : ∀ e ∈ r.2.log, e.successIn a = false)
    (he : Audit.Effect epoch s c r) :
    WindowBound limits a c.now r.2 := by
  have hlimits := h.limits_eq
  have hlifetime := h.lifetime_eq
  have hattempts := h.attempts_lt
  have hcount := h.count_le
  have hbefore := h.before
  have hinside := h.inside
  cases he with
  | rearmed window hop | restarted hop =>
      rw [hop] at hguess
      exact absurd hguess (by simp [PairingOp.isGuessing])
  | refused | kept =>
      exact
        { h with
          before := fun hc => hbefore (by omega)
          inside := fun hc => hinside (by omega) }
  | rotated hop hexpired =>
      refine
        { limits_eq := hlimits
          lifetime_eq := hlifetime
          attempts_lt := hone
          count_le := hcount
          before := fun hc => hbefore (by omega)
          inside := fun hc => ?_ }
      simp only [PairingState.expiresIn, hlifetime] at hexpired
      simp only [PairingState.rotatePin]
      rcases hinside (by omega) with hle | ⟨hissued, -⟩ | hlocked
      · rcases Nat.lt_or_ge c.now a with hc' | hc'
        · exact Or.inl (Nat.le_of_eq (hbefore (by omega)))
        · exact Or.inr (Or.inl ⟨hc', by omega⟩)
      · -- a PIN issued in the window does not expire in it
        omega
      · exact Or.inr (Or.inr hlocked)
  | accepted submittedPin hop hopen hpin =>
      have hout : ¬ (a ≤ c.now ∧ c.now < a + WINDOW) := by
        have := hsuccess ⟨s.generation, c.now, submittedPin, true⟩ (by simp)
        simpa [Comparison.successIn] using this
      have hsame := countP_missIn_append (a := a) s.log ⟨s.generation, c.now, submittedPin, true⟩
      rw [if_neg (by simp), Nat.add_zero] at hsame
      exact
        { limits_eq := hlimits
          lifetime_eq := hlifetime
          attempts_lt := hone
          count_le := by rw [hsame]; exact hcount
          before := fun hc => by rw [hsame]; exact hbefore (by omega)
          inside := fun hc => by
            rw [hsame]
            exact Or.inl (Nat.le_of_eq (hbefore (by omega))) }
  | missed submittedPin hop hopen hpin hless =>
      rw [hlimits] at hless
      have hmore := countP_missIn_append (a := a) s.log ⟨s.generation, c.now, submittedPin, false⟩
      simp only [true_and] at hmore
      have hcases : c.now < a + WINDOW →
          (s.log.countP (Comparison.missIn a) ≤ s.host.state.attempts ∨
          a ≤ s.host.state.issuedAt ∧ s.log.countP (Comparison.missIn a) ≤
            limits.maxAttempts - 1 + s.host.state.attempts) := by
        intro hc
        rcases hinside (by omega) with hle | hle | hlocked
        · exact Or.inl hle
        · exact Or.inr hle
        · have := hlocked c.now hc
          rw [hopen] at this
          exact absurd this (by decide)
      refine
        { limits_eq := hlimits
          lifetime_eq := hlifetime
          attempts_lt := hless
          count_le := ?_
          before := fun hc => ?_
          inside := fun hc => ?_ }
      · rw [hmore]
        split_ifs with hin
        · have := hcases hin.2
          omega
        · exact hcount
      · rw [hmore, if_neg (by omega)]
        exact hbefore (by omega)
      · rw [hmore]
        have hle := hcases hc
        simp only
        split_ifs with hin <;> omega
  | exhausted submittedPin hop hopen hpin hlast =>
      rw [hlimits] at hlast
      have hmore := countP_missIn_append (a := a) s.log ⟨s.generation, c.now, submittedPin, false⟩
      simp only [true_and] at hmore
      refine
        { limits_eq := hlimits
          lifetime_eq := hlifetime
          attempts_lt := hone
          count_le := ?_
          before := fun hc => ?_
          inside := fun hc => ?_ }
      · rw [hmore]
        split_ifs with hin
        · rcases hinside (by omega) with hle | hle | hlocked
          · omega
          · omega
          · have := hlocked c.now hin.2
            rw [hopen] at this
            exact absurd this (by decide)
        · exact hcount
      · rw [hmore, if_neg (by omega)]
        exact hbefore (by omega)
      · rcases Nat.lt_or_ge c.now a with hc' | hc'
        · rw [hmore, if_neg (by omega)]
          exact Or.inl (Nat.le_of_eq (hbefore (by omega)))
        · refine Or.inr (Or.inr fun t ht => (PairingState.isLocked_some rfl t).mpr ?_)
          rw [hlimits]
          omega

/-- The log only grows. -/
theorem mem_log_final
    {e : Comparison} (calls : List PairingCall) :
    ∀ {s : Audit}, e ∈ s.log → e ∈ (Run.final (Audit.step epoch) s calls).log := by
  induction calls with
  | nil => exact fun h => h
  | cons c calls ih =>
      intro s h
      exact ih (List.mem_append_left _ h)

theorem WindowBound.run
    (hone : 1 ≤ limits.maxAttempts) (hten : limits.maxAttempts ≤ 10)
    (hlockout : WINDOW ≤ limits.lockout) (calls : List PairingCall) :
    ∀ {now : Nat} {s : Audit}, WindowBound limits a now s →
      NonDecreasing now calls → (∀ c ∈ calls, c.op.isGuessing = true) →
      (∀ e ∈ (Run.final (Audit.step epoch) s calls).log, e.successIn a = false) →
      (Run.final (Audit.step epoch) s calls).log.countP (Comparison.missIn a) ≤
        2 * limits.maxAttempts - 1 := by
  induction calls with
  | nil => exact fun h _ _ _ => h.count_le
  | cons c calls ih =>
      intro now s h htime hguess hsuccess
      have heffect := Audit.step_effect epoch s c (by rw [h.limits_eq]; omega)
      have hnext := h.effect htime.1 hone hlockout (hguess c (by simp))
        (fun e he => hsuccess e (mem_log_final calls he)) heffect
      exact ih hnext htime.2 (fun d hd => hguess d (by simp [hd])) hsuccess

end Window

/-- **Brute-force rate.**  One process that is neither restarted nor re-armed, with
any lockout file found at its start: every half-open window of 300 s without a
successful `verify` sees at most `2 * maxAttempts - 1` wrong PINs compared. -/
theorem pairing_guess_rate
    (epoch : Nat) (limits : PairingLimits)
    (hone : 1 ≤ limits.maxAttempts) (hten : limits.maxAttempts ≤ 10)
    (hlockout : 300 * MICROS ≤ limits.lockout)
    (bootTime : Nat) (bootRandom : UInt32) (file : PersistedLockout)
    (calls : List PairingCall)
    (hguess : ∀ c ∈ calls, c.op.isGuessing = true)
    (htime : NonDecreasing bootTime calls)
    (windowStart : Nat) :
    let log := (Run.final (Audit.step epoch)
      { host := PairingHost.start epoch limits bootTime bootRandom file } calls).log
    (∀ e ∈ log, e.successIn windowStart = false) →
    log.countP (Comparison.missIn windowStart) ≤ 2 * limits.maxAttempts - 1 := by
  intro log hsuccess
  refine WindowBound.run hone hten hlockout calls ?_ htime hguess hsuccess
  exact
    { limits_eq := rfl
      lifetime_eq := rfl
      attempts_lt := hone
      count_le := Nat.zero_le _
      before := fun _ => rfl
      inside := fun _ => Or.inl (Nat.zero_le _) }

/-- The bound is reached: a miss, the expiry of the PIN, and the miss that locks. -/
theorem pairing_guess_rate_tight :
    (Run.final (Audit.step 0)
      { host := PairingHost.start 0 ⟨2, 300 * MICROS⟩ 0 7 none }
      [⟨200 * MICROS, 1, .verify 8⟩, ⟨300 * MICROS, 9, .rotateIfExpired⟩,
        ⟨310 * MICROS, 1, .verify 8⟩, ⟨320 * MICROS, 1, .verify 8⟩]).log.countP
      (Comparison.missIn (200 * MICROS)) = 3 ∧ 3 ≤ 2 * 2 - 1 := by
  have h := pairing_guess_rate 0 ⟨2, 300 * MICROS⟩ (by decide) (by decide) (by decide)
    0 7 none
    [⟨200 * MICROS, 1, .verify 8⟩, ⟨300 * MICROS, 9, .rotateIfExpired⟩,
      ⟨310 * MICROS, 1, .verify 8⟩, ⟨320 * MICROS, 1, .verify 8⟩]
    (by decide) (by simp [NonDecreasing, MICROS]) (200 * MICROS) (by decide)
  have hcount : (Run.final (Audit.step 0)
      { host := PairingHost.start 0 ⟨2, 300 * MICROS⟩ 0 7 none }
      [⟨200 * MICROS, 1, .verify 8⟩, ⟨300 * MICROS, 9, .rotateIfExpired⟩,
        ⟨310 * MICROS, 1, .verify 8⟩, ⟨320 * MICROS, 1, .verify 8⟩]).log.countP
      (Comparison.missIn (200 * MICROS)) = 3 := by decide
  exact ⟨hcount, hcount ▸ h⟩

end Engine
end FocusVision
