import FocusVision.Lib.Run
import Mathlib.Algebra.Order.Ring.Nat

/-!
# PIN pairing with brute-force protection

Translated from the engine's `control/pairing.rs`.  Times and durations are
whole microseconds.  A call reads the clock once: `now` is the monotonic clock
(`Instant::now()`), and the wall clock is `epoch` ahead of it.  The lockout file
is written, read and removed successfully, so it is an optional record.  Every
call carries the random number its `generate_pin` would draw.

The log texts are left out.

An `Audit` runs these operations and writes down, for the statements about
guessing, which PINs were generated, and which were compared with which of them.
-/

namespace FocusVision
namespace Engine

/-- Microseconds in a second. -/
def MICROS : Nat := 1000000

/-- `PIN_LIFETIME_SECONDS`. -/
def PIN_LIFETIME_SECONDS : Nat := 300

/-- `PairingLimits`. -/
structure PairingLimits where
  maxAttempts : Nat
  lockout : Nat
deriving DecidableEq

/-- The limits that config validation lets through. -/
structure PairingLimits.Allowed (limits : PairingLimits) : Prop where
  one_le : 1 ≤ limits.maxAttempts
  le_ten : limits.maxAttempts ≤ 10
  lockout_ge : 300 * MICROS ≤ limits.lockout
  lockout_le : limits.lockout ≤ 3600 * MICROS

/-- `PairingError`. -/
inductive PairingError
  | wrongPin (remaining : Nat)
  | lockedOut
deriving DecidableEq

/-- `PairingState`. -/
structure PairingState where
  pin : UInt32
  attempts : Nat
  limits : PairingLimits
  lockoutUntil : Option Nat
  paired : Bool
  issuedAt : Nat
  lifetime : Nat
deriving DecidableEq

/-- The lockout file: `lockout_until_unix_us`, or no file. -/
abbrev PersistedLockout := Option Nat

/-- `PersistedLockout::load`: no file reads as 0. -/
def PersistedLockout.load (file : PersistedLockout) : Nat :=
  file.getD 0

/-- `u64::saturating_add`. -/
def saturatingAddU64 (a b : Nat) : Nat :=
  min (a + b) (2 ^ 64 - 1)

/-- `now_unix_us`: the wall clock as a `u64`. -/
def nowUnixUs (epoch now : Nat) : Nat :=
  (epoch + now) % 2 ^ 64

/-- `generate_pin`, from the random number it draws. -/
def generatePin (random : UInt32) : UInt32 :=
  random % 1000000

namespace PairingState

/-- `with_limits`: a fresh PIN, and the lockout that is still on disk. -/
def withLimits (epoch : Nat) (limits : PairingLimits) (now : Nat) (random : UInt32)
    (file : PersistedLockout) : PairingState × PersistedLockout :=
  let persisted := file.load
  let nowUs := nowUnixUs epoch now
  let active := decide (persisted > nowUs)
  ({ pin := generatePin random
     attempts := 0
     limits := limits
     lockoutUntil := if active then some (now + (persisted - nowUs)) else none
     paired := false
     issuedAt := now
     lifetime := PIN_LIFETIME_SECONDS * MICROS },
    -- a stale record is removed
    if !active && persisted != 0 then none else file)

/-- `expires_in`. -/
def expiresIn (s : PairingState) (now : Nat) : Nat :=
  s.lifetime - (now - s.issuedAt)

/-- `rotate_pin`. -/
def rotatePin (s : PairingState) (now : Nat) (random : UInt32) : PairingState :=
  { s with
    pin := generatePin random
    attempts := 0
    issuedAt := now }

/-- `rotate_if_expired`. -/
def rotateIfExpired (s : PairingState) (now : Nat) (random : UInt32) :
    Bool × PairingState :=
  if s.expiresIn now > 0 then (false, s)
  else (true, s.rotatePin now random)

/-- `rearm_for_reconnect`. -/
def rearmForReconnect (s : PairingState) (now window : Nat) : PairingState :=
  { s with
    paired := false
    issuedAt := now
    lifetime := window }

/-- `is_locked`. -/
def isLocked (s : PairingState) (now : Nat) : Bool :=
  match s.lockoutUntil with
  | some lockedUntil => decide (now < lockedUntil)
  | none => false

/-- The comparison `submitted_pin ^ self.pin == 0`. -/
def pinMatches (s : PairingState) (submittedPin : UInt32) : Bool :=
  submittedPin ^^^ s.pin == 0

/-- `verify`; the second result is the lockout file afterwards. -/
def verify (epoch : Nat) (s : PairingState) (file : PersistedLockout)
    (now : Nat) (random submittedPin : UInt32) :
    Except PairingError Unit × PairingState × PersistedLockout :=
  if s.isLocked now then (.error .lockedOut, s, file)
  else if s.pinMatches submittedPin then
    (.ok (), { s with paired := true, attempts := 0, lockoutUntil := none }, none)
  else
    let s := { s with attempts := min (s.attempts + 1) 255 }
    if s.attempts ≥ s.limits.maxAttempts then
      (.error .lockedOut,
        { s with lockoutUntil := some (now + s.limits.lockout) }.rotatePin now random,
        some (saturatingAddU64 (nowUnixUs epoch now) s.limits.lockout))
    else
      (.error (.wrongPin (s.limits.maxAttempts - s.attempts)), s, file)

end PairingState

/-- The operations of the engine on its pairing state. -/
inductive PairingOp
  | verify (submittedPin : UInt32)
  | rotateIfExpired
  | rearmForReconnect (window : Nat)
  | restart
deriving DecidableEq

/-- An operation, the time of its call and the random number it may draw. -/
structure PairingCall where
  now : Nat
  random : UInt32
  op : PairingOp
deriving DecidableEq

/-- What an operation returns. -/
inductive PairingAnswer
  | verified (result : Except PairingError Unit)
  | rotated (did : Bool)
  | done

/-- The engine's pairing state and the lockout file. -/
structure PairingHost where
  state : PairingState
  file : PersistedLockout
deriving DecidableEq

namespace PairingHost

/-- The process starts, with a lockout file from earlier runs. -/
def start (epoch : Nat) (limits : PairingLimits) (now : Nat) (random : UInt32)
    (file : PersistedLockout) : PairingHost :=
  let s := PairingState.withLimits epoch limits now random file
  ⟨s.1, s.2⟩

/-- One operation. -/
def step (epoch : Nat) (h : PairingHost) (c : PairingCall) :
    PairingAnswer × PairingHost :=
  match c.op with
  | .verify submittedPin =>
      let r := h.state.verify epoch h.file c.now c.random submittedPin
      (.verified r.1, ⟨r.2.1, r.2.2⟩)
  | .rotateIfExpired =>
      let r := h.state.rotateIfExpired c.now c.random
      (.rotated r.1, { h with state := r.2 })
  | .rearmForReconnect window =>
      (.done, { h with state := h.state.rearmForReconnect c.now window })
  | .restart => (.done, start epoch h.state.limits c.now c.random h.file)

/-- Does this operation replace the PIN? -/
def generatesPin (h : PairingHost) (c : PairingCall) : Bool :=
  match c.op with
  | .verify submittedPin =>
      !h.state.isLocked c.now && !h.state.pinMatches submittedPin &&
        decide (h.state.attempts + 1 ≥ h.state.limits.maxAttempts)
  | .rotateIfExpired => decide (h.state.expiresIn c.now = 0)
  | .rearmForReconnect _ => false
  | .restart => true

end PairingHost

/-- A submitted PIN was compared with the `generation`-th generated PIN. -/
structure Comparison where
  generation : Nat
  now : Nat
  submitted : UInt32
  correct : Bool
deriving DecidableEq

/-- The comparison an operation makes: only `verify` compares, and only while
no lockout holds. -/
def PairingHost.compares (h : PairingHost) (generation : Nat) (c : PairingCall) :
    Option Comparison :=
  match c.op with
  | .verify submittedPin =>
      if h.state.isLocked c.now then none
      else some ⟨generation, c.now, submittedPin, h.state.pinMatches submittedPin⟩
  | _ => none

/-- A host under observation: the PINs that were drawn, how many of them after its
first, and all comparisons so far, oldest first. -/
structure Audit where
  host : PairingHost
  pins : List UInt32 := [host.state.pin]
  generation : Nat := 0
  log : List Comparison := []

namespace Audit

def step (epoch : Nat) (a : Audit) (c : PairingCall) : PairingAnswer × Audit :=
  let r := a.host.step epoch c
  (r.1,
    { host := r.2
      pins := a.pins ++ if a.host.generatesPin c then [generatePin c.random] else []
      generation := a.generation + if a.host.generatesPin c then 1 else 0
      log := a.log ++ (a.host.compares a.generation c).toList })

end Audit

namespace Comparison

/-- A wrong PIN was compared with this generated PIN. -/
def missOf (generation : Nat) (e : Comparison) : Bool :=
  !e.correct && e.generation == generation

/-- What was submitted was compared with the `generation`-th of the drawn PINs. -/
def ComparesWith (pins : List UInt32) (e : Comparison) : Prop :=
  ∃ pin, pins[e.generation]? = some pin ∧ (e.correct = true ↔ e.submitted = pin)

end Comparison

/-- The calls come at non-decreasing times, none before `t`, and the wall clock
has room for a lockout in its 64 bits. -/
def ClockOk (epoch : Nat) : Nat → List PairingCall → Prop
  | _, [] => True
  | t, c :: calls =>
      t ≤ c.now ∧ epoch + c.now + 3600 * MICROS < 2 ^ 64 ∧ ClockOk epoch c.now calls

namespace PairingState

theorem pinMatches_iff
    (s : PairingState) (submittedPin : UInt32) :
    s.pinMatches submittedPin = true ↔ submittedPin = s.pin := by
  unfold pinMatches
  rw [beq_iff_eq]
  exact UInt32.xor_eq_zero_iff

theorem isLocked_none
    {s : PairingState} (h : s.lockoutUntil = none) (t : Nat) :
    s.isLocked t = false := by
  unfold isLocked
  rw [h]

theorem isLocked_some
    {s : PairingState} {lockedUntil : Nat}
    (h : s.lockoutUntil = some lockedUntil) (t : Nat) :
    s.isLocked t = true ↔ t < lockedUntil := by
  unfold isLocked
  rw [h]
  exact decide_eq_true_iff

theorem verify_of_locked
    {epoch : Nat} {s : PairingState} {file : PersistedLockout}
    {now : Nat} {random submittedPin : UInt32}
    (h : s.isLocked now = true) :
    s.verify epoch file now random submittedPin =
      (.error .lockedOut, s, file) := by
  unfold verify
  rw [if_pos h]

theorem verify_of_matches
    {epoch : Nat} {s : PairingState} {file : PersistedLockout}
    {now : Nat} {random submittedPin : UInt32}
    (h : s.isLocked now = false)
    (hpin : s.pinMatches submittedPin = true) :
    s.verify epoch file now random submittedPin =
      (.ok (), { s with paired := true, attempts := 0, lockoutUntil := none },
        none) := by
  unfold verify
  rw [if_neg (by simp [h]), if_pos hpin]

/-- A miss that leaves further attempts. -/
theorem verify_of_miss
    {epoch : Nat} {s : PairingState} {file : PersistedLockout}
    {now : Nat} {random submittedPin : UInt32}
    (h : s.isLocked now = false)
    (hpin : s.pinMatches submittedPin = false)
    (hmax : s.limits.maxAttempts ≤ 255)
    (hless : s.attempts + 1 < s.limits.maxAttempts) :
    s.verify epoch file now random submittedPin =
      (.error (.wrongPin (s.limits.maxAttempts - (s.attempts + 1))),
        { s with attempts := s.attempts + 1 }, file) := by
  have hmin : min (s.attempts + 1) 255 = s.attempts + 1 := by omega
  unfold verify
  rw [if_neg (by simp [h]), if_neg (by simp [hpin])]
  simp only [hmin]
  rw [if_neg (by omega)]

/-- The last miss: lockout, and a new PIN. -/
theorem verify_of_last_miss
    {epoch : Nat} {s : PairingState} {file : PersistedLockout}
    {now : Nat} {random submittedPin : UInt32}
    (h : s.isLocked now = false)
    (hpin : s.pinMatches submittedPin = false)
    (hmax : s.limits.maxAttempts ≤ 255)
    (hlast : s.limits.maxAttempts ≤ s.attempts + 1) :
    s.verify epoch file now random submittedPin =
      (.error .lockedOut,
        { s with
          pin := generatePin random
          attempts := 0
          lockoutUntil := some (now + s.limits.lockout)
          issuedAt := now },
        some (saturatingAddU64 (nowUnixUs epoch now) s.limits.lockout)) := by
  unfold verify
  rw [if_neg (by simp [h]), if_neg (by simp [hpin]), if_pos (by simp only; omega)]
  rfl

end PairingState

namespace Audit

/-- What an operation can do to an audited host. -/
inductive Effect (epoch : Nat) (a : Audit) (c : PairingCall) :
    PairingAnswer × Audit → Prop
  | refused (submittedPin : UInt32)
      (hop : c.op = .verify submittedPin)
      (hlocked : a.host.state.isLocked c.now = true) :
      Effect epoch a c (.verified (.error .lockedOut), a)
  | accepted (submittedPin : UInt32)
      (hop : c.op = .verify submittedPin)
      (hopen : a.host.state.isLocked c.now = false)
      (hpin : submittedPin = a.host.state.pin) :
      Effect epoch a c
        (.verified (.ok ()),
          { host :=
              { state :=
                  { a.host.state with
                    paired := true
                    attempts := 0
                    lockoutUntil := none }
                file := none }
            pins := a.pins
            generation := a.generation
            log := a.log ++ [⟨a.generation, c.now, submittedPin, true⟩] })
  | missed (submittedPin : UInt32)
      (hop : c.op = .verify submittedPin)
      (hopen : a.host.state.isLocked c.now = false)
      (hpin : submittedPin ≠ a.host.state.pin)
      (hless : a.host.state.attempts + 1 < a.host.state.limits.maxAttempts) :
      Effect epoch a c
        (.verified (.error (.wrongPin
            (a.host.state.limits.maxAttempts - (a.host.state.attempts + 1)))),
          { host :=
              { state := { a.host.state with attempts := a.host.state.attempts + 1 }
                file := a.host.file }
            pins := a.pins
            generation := a.generation
            log := a.log ++ [⟨a.generation, c.now, submittedPin, false⟩] })
  | exhausted (submittedPin : UInt32)
      (hop : c.op = .verify submittedPin)
      (hopen : a.host.state.isLocked c.now = false)
      (hpin : submittedPin ≠ a.host.state.pin)
      (hlast : a.host.state.limits.maxAttempts ≤ a.host.state.attempts + 1) :
      Effect epoch a c
        (.verified (.error .lockedOut),
          { host :=
              { state :=
                  { a.host.state with
                    pin := generatePin c.random
                    attempts := 0
                    lockoutUntil := some (c.now + a.host.state.limits.lockout)
                    issuedAt := c.now }
                file := some (saturatingAddU64 (nowUnixUs epoch c.now)
                  a.host.state.limits.lockout) }
            pins := a.pins ++ [generatePin c.random]
            generation := a.generation + 1
            log := a.log ++ [⟨a.generation, c.now, submittedPin, false⟩] })
  | kept
      (hop : c.op = .rotateIfExpired)
      (hfresh : 0 < a.host.state.expiresIn c.now) :
      Effect epoch a c (.rotated false, a)
  | rotated
      (hop : c.op = .rotateIfExpired)
      (hexpired : a.host.state.expiresIn c.now = 0) :
      Effect epoch a c
        (.rotated true,
          { host := { a.host with state := a.host.state.rotatePin c.now c.random }
            pins := a.pins ++ [generatePin c.random]
            generation := a.generation + 1
            log := a.log })
  | rearmed (window : Nat)
      (hop : c.op = .rearmForReconnect window) :
      Effect epoch a c
        (.done,
          { a with
            host := { a.host with state := a.host.state.rearmForReconnect c.now window } })
  | restarted
      (hop : c.op = .restart) :
      Effect epoch a c
        (.done,
          { host := PairingHost.start epoch a.host.state.limits c.now c.random a.host.file
            pins := a.pins ++ [generatePin c.random]
            generation := a.generation + 1
            log := a.log })

/-- `Effect` is all that an operation does. -/
theorem step_effect
    (epoch : Nat) (a : Audit) (c : PairingCall)
    (hmax : a.host.state.limits.maxAttempts ≤ 255) :
    Effect epoch a c (a.step epoch c) := by
  unfold step PairingHost.step PairingHost.generatesPin PairingHost.compares
  cases hop : c.op with
  | verify submittedPin =>
      rcases Bool.eq_false_or_eq_true (a.host.state.isLocked c.now) with hl | hl
      · have heff := @Effect.refused epoch a c submittedPin hop hl
        simpa [PairingState.verify_of_locked hl, hl] using heff
      rcases Bool.eq_false_or_eq_true (a.host.state.pinMatches submittedPin) with hp | hp
      · have heff := @Effect.accepted epoch a c submittedPin hop hl
          ((PairingState.pinMatches_iff _ _).mp hp)
        simpa [PairingState.verify_of_matches hl hp, hl, hp] using heff
      have hne : submittedPin ≠ a.host.state.pin := by
        rintro rfl
        rw [(PairingState.pinMatches_iff _ _).mpr rfl] at hp
        exact absurd hp (by decide)
      rcases Nat.lt_or_ge (a.host.state.attempts + 1) a.host.state.limits.maxAttempts
        with hless | hlast
      · have heff := @Effect.missed epoch a c submittedPin hop hl hne hless
        simpa [PairingState.verify_of_miss hl hp hmax hless, hl, hp,
          Nat.not_le.mpr hless] using heff
      · have heff := @Effect.exhausted epoch a c submittedPin hop hl hne hlast
        simpa [PairingState.verify_of_last_miss hl hp hmax hlast, hl, hp, hlast] using heff
  | rotateIfExpired =>
      rcases Nat.eq_zero_or_pos (a.host.state.expiresIn c.now) with he | he
      · have heff := @Effect.rotated epoch a c hop he
        simpa [PairingState.rotateIfExpired, he] using heff
      · have heff := @Effect.kept epoch a c hop he
        simpa [PairingState.rotateIfExpired, he, Nat.pos_iff_ne_zero.mp he] using heff
  | rearmForReconnect window =>
      have heff := @Effect.rearmed epoch a c window hop
      simpa using heff
  | restart =>
      have heff := @Effect.restarted epoch a c hop
      simpa using heff

end Audit

end Engine
end FocusVision
