import FocusVision.Engine.OscBridge
import FocusVision.Lib.Run

/-!
# The avatar's expression follows the face

VRChat keeps a parameter's last value, so the bridge has to send 0 when a parameter
comes back to rest.  `sent` is what VRChat holds, every smoothed value is a number
from 0 to 1, and after a call VRChat holds the value of each parameter that the call
had a number for.
-/

namespace FocusVision
namespace Engine

/-- What VRChat holds for an address after some messages: the last value, or 0. -/
def lastSent (log : List OscMessage) (address : String) : F32 :=
  ((log.filter fun m => m.address == address).getLast?.map OscMessage.value).getD (f32 0 1)

theorem lastSent_append
    (log more : List OscMessage) (address : String) :
    lastSent (log ++ more) address =
      ((more.filter fun m => m.address == address).getLast?.map OscMessage.value).getD
        (lastSent log address) := by
  unfold lastSent
  rw [List.filter_append, List.getLast?_append]
  cases (more.filter fun m => m.address == address).getLast? <;> rfl

/-! ### One parameter -/

/-- A value is 0, or it is above the threshold. -/
def Rested (x : F32) : Prop :=
  x = f32 0 1 ∨ REST_THRESHOLD < x

theorem restedValue_rested
    (profile : Profile) (index : Nat) (smoothed : F32) :
    Rested (restedValue profile index smoothed) := by
  simp only [restedValue]
  split_ifs with habove
  · exact Or.inr habove
  · exact Or.inl rfl

/-- Only 0 itself compares equal to 0. -/
theorem Rested.eq_zero
    {x : F32} (h : Rested x) (hsame : x.Same (f32 0 1)) :
    x = f32 0 1 := by
  rcases h with rfl | habove
  · rfl
  · have hle : (f32 0 1) ≤ REST_THRESHOLD := Flt.ofRatio_le (by decide) (by decide) (by decide)
    exact absurd (Flt.lt_of_le_of_lt hle habove) (Flt.not_lt_of_le hsame.le)

/-- What a call leaves of a parameter: a number from 0 to 1, and the value sent for
it. -/
theorem updateParameter_spec
    {alpha : F32} (halpha : alpha.InUnit) (profile : Profile) (index : Nat) (raw : F32)
    {prev sent : F32} (hprev : prev.InUnit) (hsent : Rested sent) :
    let r := updateParameter alpha profile index raw prev sent
    r.2.1.InUnit ∧ Rested r.2.2 ∧ r.2.2 = r.1.getD sent ∧
      (raw.isFinite = true → r.2.2 = restedValue profile index r.2.1) := by
  unfold updateParameter
  cases hfinite : raw.isFinite with
  | false => exact ⟨hprev, hsent, rfl, fun h => absurd h (by decide)⟩
  | true =>
      have hnumber : raw.isNaN = false := by
        have hless := of_decide_eq_true hfinite
        exact decide_eq_false (Nat.not_lt.mpr (Nat.le_of_lt hless))
      have hsmoothed := Flt.InUnit.mean (by decide) (by decide) halpha hprev
        (Flt.clampUnit_inUnit hnumber)
      simp only [Bool.not_true, Bool.false_eq_true, if_false]
      generalize Flt.mean alpha prev (Flt.clampUnit raw) = smoothed at hsmoothed
      have hrested := restedValue_rested profile index smoothed
      generalize hvalue : restedValue profile index smoothed = value at hrested
      split_ifs with hzero
      · -- nothing is sent where VRChat already holds a 0
        refine ⟨hsmoothed, hsent, rfl, fun _ => ?_⟩
        rw [hvalue, hrested.eq_zero hzero.1]
        exact hsent.eq_zero hzero.2
      · exact ⟨hsmoothed, hrested, rfl, fun _ => hvalue.symm⟩

/-! ### A group -/

/-- Parameters with different names have different addresses. -/
theorem parameterAddress_inj
    {a b : String} (h : parameterAddress a = parameterAddress b) :
    a = b :=
  (String.append_right_inj _).mp h

section Messages

variable {n : Nat} (address : Fin n → String) (value : Fin n → Option F32)

/-- The messages of a group. -/
def groupMessages (indices : List (Fin n)) : List OscMessage :=
  indices.filterMap fun i => (value i).map fun x => ⟨address i, x⟩

@[simp] theorem groupMessages_cons
    (i : Fin n) (indices : List (Fin n)) :
    groupMessages address value (i :: indices) =
      ((value i).map fun x => ⟨address i, x⟩).toList ++ groupMessages address value indices := by
  unfold groupMessages
  cases hi : value i with
  | none => rw [List.filterMap_cons_none (by rw [hi]; rfl)]; rfl
  | some x => rw [List.filterMap_cons_some (by rw [hi]; rfl)]; rfl

theorem filter_message
    (i : Fin n) (other : String) :
    (((value i).map fun x => (⟨address i, x⟩ : OscMessage)).toList).filter
        (fun m => m.address == other) =
      if address i = other then ((value i).map fun x => ⟨address i, x⟩).toList else [] := by
  cases value i with
  | none => split_ifs <;> rfl
  | some x =>
      split_ifs with heq
      · exact List.filter_cons_of_pos (by simpa using heq)
      · exact List.filter_cons_of_neg (by simpa using heq)

/-- A group has no messages for another address. -/
theorem filter_groupMessages_other
    {other : String} {indices : List (Fin n)} (hother : ∀ i ∈ indices, address i ≠ other) :
    (groupMessages address value indices).filter (fun m => m.address == other) = [] := by
  induction indices with
  | nil => rfl
  | cons i indices ih =>
      obtain ⟨hi, hrest⟩ := List.forall_mem_cons.mp hother
      rw [groupMessages_cons, List.filter_append, filter_message, if_neg hi, ih hrest]
      rfl

/-- A group has at most one message for each of its addresses. -/
theorem filter_groupMessages
    (hinj : Function.Injective address) (i : Fin n) {indices : List (Fin n)}
    (hnodup : indices.Nodup) (hmem : i ∈ indices) :
    (groupMessages address value indices).filter (fun m => m.address == address i) =
      ((value i).map fun x => ⟨address i, x⟩).toList := by
  induction indices with
  | nil => exact absurd hmem List.not_mem_nil
  | cons j indices ih =>
      obtain ⟨hj, hrest⟩ := List.nodup_cons.mp hnodup
      rw [groupMessages_cons, List.filter_append, filter_message]
      rcases eq_or_ne j i with rfl | hne
      · have hothers : ∀ m ∈ indices, address m ≠ address j :=
          fun m hm heq => hj (hinj heq ▸ hm)
        rw [if_pos rfl, filter_groupMessages_other address value hothers, List.append_nil]
      · rw [if_neg (fun heq => hne (hinj heq)), List.nil_append]
        exact ih hrest ((List.mem_cons.mp hmem).resolve_left hne.symm)

end Messages

namespace Group

variable {n : Nat}

/-- The address of a parameter of a group. -/
def address (g : Group n) (i : Fin n) : String :=
  parameterAddress (g.names.get i)

/-- The messages so far brought VRChat to what the group remembers. -/
structure Follows (log : List OscMessage) (g : Group n) : Prop where
  smoothed : ∀ i, (g.prev i).InUnit
  rested : ∀ i, Rested (g.sent i)
  held : ∀ i, lastSent log (g.address i) = g.sent i

variable {log : List OscMessage} {g : Group n}

/-- Messages for other addresses change nothing. -/
theorem Follows.other
    (h : Follows log g) {more : List OscMessage}
    (hother : ∀ i, more.filter (fun m => m.address == g.address i) = []) :
    Follows (log ++ more) g := by
  refine ⟨h.smoothed, h.rested, fun i => ?_⟩
  rw [lastSent_append, hother i]
  exact h.held i

/-- What a call does to a group: VRChat holds what it remembers, which is the value of
every parameter that there was a number for. -/
theorem Follows.applySmoothingAndSend
    (h : Follows log g) (hnames : Function.Injective g.address) (raw : Fin n → F32)
    {alpha : F32} (halpha : alpha.InUnit) (profile : Profile) :
    let r := g.applySmoothingAndSend raw alpha profile
    Follows (log ++ r.1) r.2 ∧
      (∀ i, (raw i).isFinite = true →
        r.2.sent i = restedValue profile (g.first + i) (r.2.prev i)) ∧
      ∀ other, (∀ i, g.address i ≠ other) →
        r.1.filter (fun m => m.address == other) = [] := by
  have hspec := fun (i : Fin n) => updateParameter_spec halpha profile (g.first + i) (raw i)
    (h.smoothed i) (h.rested i)
  have hmessages : (g.applySmoothingAndSend raw alpha profile).1 =
      groupMessages g.address (fun i => (updateParameter alpha profile (g.first + i) (raw i)
        (g.prev i) (g.sent i)).1) (List.finRange n) := rfl
  refine ⟨⟨fun i => (hspec i).1, fun i => (hspec i).2.1, fun i => ?_⟩,
    fun i => (hspec i).2.2.2, fun other hother => ?_⟩
  · rw [lastSent_append, hmessages]
    change ((List.filter (fun m : OscMessage => m.address == g.address i) _).getLast?.map _).getD
      (lastSent log (g.address i)) = _
    rw [filter_groupMessages g.address _ hnames i (List.nodup_finRange n)
      (List.mem_finRange i), h.held i]
    refine Eq.trans ?_ (hspec i).2.2.1.symm
    cases (updateParameter alpha profile (g.first + i) (raw i) (g.prev i) (g.sent i)).1 <;> rfl
  · rw [hmessages]
    exact filter_groupMessages_other g.address _ fun i _ => hother i

end Group

namespace OscBridge

/-- All parameters have different names. -/
theorem names_nodup :
    (LIP_NAMES.toList ++ EYE_NAMES.toList).Nodup := by
  decide +kernel

/-- Different entries of a vector without repetitions are at different places. -/
theorem fin_eq_of_get_eq
    {n : Nat} {names : Vector String n} (hnodup : names.toList.Nodup)
    {i j : Fin n} (h : names.get i = names.get j) :
    i = j := by
  have hi : i.val < names.toList.length := by simp
  have hj : j.val < names.toList.length := by simp
  have hget : names.toList[i.val] = names.toList[j.val] := by
    simpa [Vector.get] using h
  exact Fin.ext (hnodup.getElem_inj_iff.mp hget)

theorem lip_injective
    (b : OscBridge) :
    Function.Injective b.lipGroup.address := by
  intro i j h
  have hname : LIP_NAMES.get i = LIP_NAMES.get j := parameterAddress_inj h
  exact fin_eq_of_get_eq (List.nodup_append.mp names_nodup).1 hname

theorem eye_injective
    (b : OscBridge) :
    Function.Injective b.eyeGroup.address := by
  intro i j h
  have hname : EYE_NAMES.get i = EYE_NAMES.get j := parameterAddress_inj h
  exact fin_eq_of_get_eq (List.nodup_append.mp names_nodup).2.1 hname

theorem lip_ne_eye
    (b : OscBridge) (i : Fin 37) (j : Fin 14) :
    b.lipGroup.address i ≠ b.eyeGroup.address j := by
  intro h
  have hname : LIP_NAMES[i] = EYE_NAMES[j] := parameterAddress_inj h
  refine (List.nodup_append.mp names_nodup).2.2 LIP_NAMES[i] ?_ EYE_NAMES[j] ?_ hname
  · simp
  · simp

/-- VRChat holds what a bridge with a profile remembers. -/
structure Follows (profile : Option FtProfile) (log : List OscMessage) (b : OscBridge) :
    Prop where
  weights : b.profileWeights = profile.map FtProfile.weights
  offsets : b.profileOffsets = profile.map FtProfile.offsets
  enabled : b.enabled = true
  socket : b.socket = true
  smoothing : b.smoothing.InUnit
  lip : b.lipGroup.Follows log
  eye : b.eyeGroup.Follows log

/-- The weight that a profile gives a blendshape, or 1. -/
def weightAt (profile : Option FtProfile) (index : Nat) : F32 :=
  match profile with
  | some p => p.weights.getD index (f32 1 1)
  | none => f32 1 1

/-- The resting value that a profile gives a blendshape, or 0. -/
def offsetAt (profile : Option FtProfile) (index : Nat) : F32 :=
  match profile with
  | some p => p.offsets.getD index (f32 0 1)
  | none => f32 0 1

/-- `clamp((smoothed - offset) * weight)`. -/
def scaledAt (profile : Option FtProfile) (index : Nat) (smoothed : F32) : F32 :=
  Flt.clampUnit (Flt.mul (Flt.sub smoothed (offsetAt profile index)) (weightAt profile index))

/-- The scaled value if it is above the threshold, and 0 otherwise. -/
def Shows (profile : Option FtProfile) (index : Nat) (smoothed held : F32) : Prop :=
  (REST_THRESHOLD < scaledAt profile index smoothed →
    held = scaledAt profile index smoothed) ∧
  (¬REST_THRESHOLD < scaledAt profile index smoothed → held = f32 0 1)

/-- After a call, every smoothed value is a number from 0 to 1, and VRChat holds, for
every parameter that the call had a number for, the scaled value or 0 at rest. -/
structure Expresses (profile : Option FtProfile) (log : List OscMessage) (b : OscBridge)
    (data : FaceData) : Prop where
  lipSmoothed : ∀ i, (b.prevLip i).InUnit
  eyeSmoothed : ∀ i, (b.prevEye i).InUnit
  lipHeld : data.lipValid = true → ∀ i, (data.lip i).isFinite = true →
    Shows profile i (b.prevLip i) (lastSent log (parameterAddress LIP_NAMES[i]))
  eyeHeld : data.eyeValid = true → ∀ i, (data.eye i).isFinite = true →
    Shows profile (37 + i) (b.prevEye i) (lastSent log (parameterAddress EYE_NAMES[i]))

/-- A bridge that was given the profile scales by it. -/
theorem shows_restedValue
    {b : OscBridge} {profile : Option FtProfile}
    (hweights : b.profileWeights = profile.map FtProfile.weights)
    (hoffsets : b.profileOffsets = profile.map FtProfile.offsets)
    (index : Nat) (smoothed : F32) :
    Shows profile index smoothed (restedValue b.profile index smoothed) := by
  have hscaled : b.profile.apply index smoothed = scaledAt profile index smoothed := by
    unfold Profile.apply OscBridge.profile scaledAt weightAt offsetAt
    rw [hweights, hoffsets]
    cases profile with
    | none => rfl
    | some p =>
        simp only [Option.map_some, Option.bind_some, List.getD_eq_getElem?_getD]
  unfold Shows restedValue
  simp only [hscaled]
  exact ⟨fun habove => if_pos habove, fun hrest => if_neg hrest⟩

variable {profile : Option FtProfile} {log : List OscMessage} {b : OscBridge}

theorem Follows.sendLip
    (h : Follows profile log b) (data : FaceData) :
    Follows profile (log ++ (b.sendLip data).1) (b.sendLip data).2 ∧
      (b.sendLip data).2.profile = b.profile ∧
      (data.lipValid = true → ∀ i, (data.lip i).isFinite = true →
        (b.sendLip data).2.sentLip i =
          restedValue b.profile i ((b.sendLip data).2.prevLip i)) := by
  unfold OscBridge.sendLip
  cases data.lipValid with
  | false =>
      simp only [Bool.false_eq_true, if_false, List.append_nil, false_imp_iff, and_true]
      exact h
  | true =>
      obtain ⟨hlip, hvalue, hothers⟩ :=
        h.lip.applySmoothingAndSend b.lip_injective data.lip h.smoothing b.profile
      simp only [if_true]
      refine ⟨⟨h.weights, h.offsets, h.enabled, h.socket, h.smoothing, hlip, ?_⟩, rfl,
        fun _ i hi => ?_⟩
      · exact h.eye.other fun j => hothers _ fun i => b.lip_ne_eye i j
      · have heq := hvalue i hi
        rw [show b.lipGroup.first = 0 from rfl, Nat.zero_add] at heq
        exact heq

theorem Follows.sendEye
    (h : Follows profile log b) (data : FaceData) :
    Follows profile (log ++ (b.sendEye data).1) (b.sendEye data).2 ∧
      (b.sendEye data).2.lipGroup = b.lipGroup ∧
      (data.eyeValid = true → ∀ i, (data.eye i).isFinite = true →
        (b.sendEye data).2.sentEye i =
          restedValue b.profile (37 + i) ((b.sendEye data).2.prevEye i)) := by
  unfold OscBridge.sendEye
  cases data.eyeValid with
  | false =>
      simp only [Bool.false_eq_true, if_false, List.append_nil, false_imp_iff, and_true]
      exact h
  | true =>
      obtain ⟨heye, hvalue, hothers⟩ :=
        h.eye.applySmoothingAndSend b.eye_injective data.eye h.smoothing b.profile
      simp only [if_true]
      refine ⟨⟨h.weights, h.offsets, h.enabled, h.socket, h.smoothing, ?_, heye⟩, rfl,
        fun _ i hi => hvalue i hi⟩
      exact h.lip.other fun i => hothers _ fun j => (b.lip_ne_eye i j).symm

theorem Follows.sendFaceData
    (h : Follows profile log b) (data : FaceData) :
    Follows profile (log ++ (b.sendFaceData data).1) (b.sendFaceData data).2 ∧
      Expresses profile (log ++ (b.sendFaceData data).1) (b.sendFaceData data).2 data := by
  obtain ⟨hlip, hprofile, hlipValue⟩ := h.sendLip data
  obtain ⟨hboth, hkept, heyeValue⟩ := hlip.sendEye data
  have hsend : b.sendFaceData data =
      ((b.sendLip data).1 ++ ((b.sendLip data).2.sendEye data).1,
        ((b.sendLip data).2.sendEye data).2) := by
    simp [OscBridge.sendFaceData, h.enabled, h.socket]
  rw [hsend, ← List.append_assoc]
  rw [hprofile] at heyeValue
  have hprev : ((b.sendLip data).2.sendEye data).2.prevLip = (b.sendLip data).2.prevLip :=
    congrArg Group.prev hkept
  have hsent : ((b.sendLip data).2.sendEye data).2.sentLip = (b.sendLip data).2.sentLip :=
    congrArg Group.sent hkept
  refine ⟨hboth, hboth.lip.smoothed, hboth.eye.smoothed, fun hvalid i hi => ?_,
    fun hvalid i hi => ?_⟩
  · have hheld := hboth.lip.held i
    change lastSent _ (parameterAddress LIP_NAMES[i]) =
      ((b.sendLip data).2.sendEye data).2.sentLip i at hheld
    rw [hheld, hsent, hlipValue hvalid i hi, hprev]
    exact shows_restedValue h.weights h.offsets _ _
  · have hheld := hboth.eye.held i
    change lastSent _ (parameterAddress EYE_NAMES[i]) =
      ((b.sendLip data).2.sendEye data).2.sentEye i at hheld
    rw [hheld, heyeValue hvalid i hi]
    exact shows_restedValue h.weights h.offsets _ _

/-! ### Runs -/

/-- A bridge before its first call. -/
def start (smoothing : F32) (profile : Option FtProfile) : OscBridge :=
  (withSmoothing smoothing).setProfile profile

theorem start_follows
    {smoothing : F32} {profile : Option FtProfile}
    (hlow : f32 0 1 ≤ (start smoothing profile).smoothing)
    (hhigh : (start smoothing profile).smoothing ≤ f32 99 100) :
    Follows profile [] (start smoothing profile) := by
  have hzero : (f32 0 1).InUnit :=
    ⟨Flt.ofRatio_le (by decide) (by decide) (by decide),
      Flt.ofRatio_le (by decide) (by decide) (by decide)⟩
  have hone : f32 99 100 ≤ f32 1 1 := Flt.ofRatio_le (by decide) (by decide) (by decide)
  refine ⟨rfl, rfl, rfl, rfl, ⟨hlow, Flt.le_trans hhigh hone⟩, ?_, ?_⟩
  · exact ⟨fun _ => hzero, fun _ => Or.inl rfl, fun _ => rfl⟩
  · exact ⟨fun _ => hzero, fun _ => Or.inl rfl, fun _ => rfl⟩

/-- After every call of every run, the avatar expresses what the call said. -/
theorem face_expressed
    {smoothing : F32} {profile : Option FtProfile}
    (hlow : f32 0 1 ≤ (start smoothing profile).smoothing)
    (hhigh : (start smoothing profile).smoothing ≤ f32 99 100)
    (calls : List FaceData) (data : FaceData) :
    Expresses profile
      (Run.outputs OscBridge.sendFaceData (start smoothing profile) (calls ++ [data])).flatten
      (Run.final OscBridge.sendFaceData (start smoothing profile) (calls ++ [data])) data := by
  have hstep : ∀ (_ : List FaceData) (logs : List (List OscMessage)) (b : OscBridge)
      (data : FaceData), Follows profile logs.flatten b →
      Follows profile (logs ++ [(b.sendFaceData data).1]).flatten (b.sendFaceData data).2 := by
    intro _ logs b data h
    rw [List.flatten_append, List.flatten_singleton]
    exact (h.sendFaceData data).1
  have hrun := Run.history OscBridge.sendFaceData (start_follows hlow hhigh) hstep calls
  rw [Run.outputs_append, Run.final_append, List.flatten_append]
  simp only [Run.outputs_cons, Run.outputs_nil, List.flatten_singleton, Run.final_cons,
    Run.final_nil]
  exact (hrun.sendFaceData data).2

/-- A face that opens its mouth and closes it again, with no smoothing and a profile. -/
theorem closedMouth_expressed :
    let opened : FaceData := ⟨true, false, fun _ => f32 1 1, fun _ => f32 0 1⟩
    let closed : FaceData := ⟨true, false, fun _ => f32 0 1, fun _ => f32 0 1⟩
    let profile : FtProfile := ⟨[f32 2 1, f32 1 2], none, [f32 1 10]⟩
    Expresses (some profile)
      (Run.outputs OscBridge.sendFaceData (start (f32 0 1) (some profile))
        ([opened] ++ [closed])).flatten
      (Run.final OscBridge.sendFaceData (start (f32 0 1) (some profile))
        ([opened] ++ [closed])) closed := by
  have hzero : f32 0 1 ≤ f32 0 1 := Flt.le_refl (f32_isNaN 0 1)
  have hle : f32 0 1 ≤ f32 99 100 := Flt.ofRatio_le (by decide) (by decide) (by decide)
  have hclamp : (start (f32 0 1) (some ⟨[f32 2 1, f32 1 2], none, [f32 1 10]⟩)).smoothing =
      f32 0 1 := Flt.clampTo_of_mem hzero hle
  exact face_expressed (by rw [hclamp]; exact hzero) (by rw [hclamp]; exact hle) _ _

end OscBridge

end Engine
end FocusVision
