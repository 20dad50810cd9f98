import FocusVision.Engine.TlsIdentity
import FocusVision.Lib.Run

/-!
# The identity that a headset has pinned

The container is read back as it was written, and nothing else is read as one.  The file is
never half written, whenever the engine is killed; and once it holds an identity, every
start of the engine serves that one.
-/

namespace FocusVision
namespace Engine

open Bytes

variable {sha256 : List UInt8 → Vector UInt8 32} {acceptor : TlsIdentity → Bool}

/-! ### The container -/

theorem stripMagic_iff
    {bytes rest : List UInt8} :
    stripMagic bytes = some rest ↔ bytes = IDENTITY_MAGIC ++ rest := by
  unfold stripMagic
  constructor
  · intro h
    split at h
    · rename_i hmagic
      obtain ⟨tail, rfl⟩ := List.isPrefixOf_iff_prefix.mp hmagic
      cases h
      rfl
    · cases h
  · rintro rfl
    rw [if_pos (List.isPrefixOf_iff_prefix.mpr (List.prefix_append ..))]
    rfl

/-- A part that a container can hold. -/
def FitsPart (part : List UInt8) : Prop :=
  0 < part.length ∧ part.length ≤ MAX_IDENTITY_PART_LEN

theorem FitsPart.lt
    {part : List UInt8} (h : FitsPart part) :
    part.length < 256 ^ 4 :=
  Nat.lt_of_le_of_lt h.2 (by decide)

/-- A part is taken off a buffer exactly if it is there, behind its length. -/
theorem splitLenPrefixed_iff
    {buf part rest : List UInt8} :
    splitLenPrefixed buf = some (part, rest) ↔
      FitsPart part ∧ buf = leBytes 4 part.length ++ part ++ rest := by
  constructor
  · intro h
    unfold splitLenPrefixed at h
    split at h
    · cases h
    · rename_i hfour
      simp only at h
      split at h
      · cases h
      · rename_i hlen
        split at h
        · cases h
        · rename_i hall
          simp only [Option.some.injEq, Prod.mk.injEq] at h
          obtain ⟨hpart, hrest⟩ := h
          have hlength : part.length = ofLeBytes (buf.take 4) := by
            rw [← hpart, List.length_take, List.length_drop]
            omega
          have htake : (buf.take 4).length = 4 := by
            rw [List.length_take]
            omega
          have hheader : leBytes 4 part.length = buf.take 4 := by
            have hle := leBytes_ofLeBytes (buf.take 4)
            rw [htake] at hle
            rw [hlength, hle]
          refine ⟨⟨by omega, by omega⟩, ?_⟩
          rw [hheader, ← hpart, ← hrest, List.append_assoc, ← List.drop_drop,
            List.take_append_drop, List.take_append_drop]
  · rintro ⟨hfits, rfl⟩
    have hheader : (leBytes 4 part.length ++ part ++ rest).take 4 = leBytes 4 part.length := by
      rw [List.append_assoc, List.take_left' (length_leBytes ..)]
    have hdrop : (leBytes 4 part.length ++ part ++ rest).drop 4 = part ++ rest := by
      rw [List.append_assoc, List.drop_left' (length_leBytes ..)]
    have hlength : (leBytes 4 part.length ++ part ++ rest).length =
        4 + part.length + rest.length := by
      rw [List.length_append, List.length_append, length_leBytes]
    have hpositive := hfits.1
    have hmax := hfits.2
    unfold splitLenPrefixed
    rw [if_neg (by omega)]
    simp only [hheader, ofLeBytes_leBytes hfits.lt]
    rw [if_neg (by omega), if_neg (by omega), hdrop, List.take_left' rfl, ← List.drop_drop, hdrop,
      List.drop_left' rfl]

/-- An identity that a container can hold. -/
structure TlsIdentity.Fits (identity : TlsIdentity) : Prop where
  cert : FitsPart identity.certDer
  key : FitsPart identity.keyDer

theorem FitsPart.mod
    {part : List UInt8} (h : FitsPart part) :
    part.length % 2 ^ 32 = part.length :=
  Nat.mod_eq_of_lt h.lt

/-- The layout of a container. -/
theorem TlsIdentity.Fits.toBytes_eq
    {identity : TlsIdentity} (h : identity.Fits) :
    identity.toBytes sha256 =
      IDENTITY_MAGIC ++ (leBytes 4 identity.certDer.length ++ identity.certDer ++
        (leBytes 4 identity.keyDer.length ++ identity.keyDer ++
          (sha256 (identity.certDer ++ identity.keyDer)).toList)) := by
  unfold TlsIdentity.toBytes
  rw [h.cert.mod, h.key.mod]
  simp only [List.append_assoc]

/-- A container is read as the identity that it was written for, and nothing else is read. -/
theorem fromBytes_iff
    {bytes : List UInt8} {identity : TlsIdentity} :
    TlsIdentity.fromBytes sha256 bytes = some identity ↔
      identity.Fits ∧ bytes = identity.toBytes sha256 := by
  constructor
  · intro h
    unfold TlsIdentity.fromBytes at h
    simp only [Option.bind_eq_bind, Option.bind_eq_some_iff] at h
    obtain ⟨body, hmagic, ⟨certDer, afterCert⟩, hcert, ⟨keyDer, digest⟩, hkey, hend⟩ := h
    have hbytes := stripMagic_iff.mp hmagic
    obtain ⟨hcertFits, rfl⟩ := splitLenPrefixed_iff.mp hcert
    obtain ⟨hkeyFits, rfl⟩ := splitLenPrefixed_iff.mp hkey
    simp only at hend
    split at hend
    · cases hend
    · split at hend
      · cases hend
      · rename_i hdigest
        cases hend
        have hfits : TlsIdentity.Fits ⟨certDer, keyDer⟩ := ⟨hcertFits, hkeyFits⟩
        refine ⟨hfits, ?_⟩
        rw [hbytes, hfits.toBytes_eq, Decidable.not_not.mp hdigest]
  · rintro ⟨hfits, rfl⟩
    have hmagic := stripMagic_iff.mpr (@TlsIdentity.Fits.toBytes_eq sha256 identity hfits)
    have hcert := splitLenPrefixed_iff.mpr ⟨hfits.cert,
      Eq.refl (leBytes 4 identity.certDer.length ++ identity.certDer ++
        (leBytes 4 identity.keyDer.length ++ identity.keyDer ++
          (sha256 (identity.certDer ++ identity.keyDer)).toList))⟩
    have hkey := splitLenPrefixed_iff.mpr ⟨hfits.key,
      Eq.refl (leBytes 4 identity.keyDer.length ++ identity.keyDer ++
          (sha256 (identity.certDer ++ identity.keyDer)).toList)⟩
    have hdigest : ¬ (sha256 (identity.certDer ++ identity.keyDer)).toList.length ≠ 32 :=
      not_not_intro (Vector.length_toList ..)
    unfold TlsIdentity.fromBytes
    simp only [Option.bind_eq_bind, hmagic, Option.bind_some, hcert, hkey, if_neg hdigest, ne_eq,
      not_true_eq_false, if_false]

/-- A part ends where its length says. -/
theorem part_unique
    {first second rest rest' : List UInt8} (hfirst : FitsPart first) (hsecond : FitsPart second)
    (h : leBytes 4 first.length ++ (first ++ rest) =
      leBytes 4 second.length ++ (second ++ rest')) :
    first = second ∧ rest = rest' := by
  rw [← List.append_assoc, ← List.append_assoc] at h
  have hsplit := splitLenPrefixed_iff.mpr ⟨hfirst, h.symm⟩
  rw [splitLenPrefixed_iff.mpr ⟨hsecond, rfl⟩, Option.some.injEq, Prod.mk.injEq] at hsplit
  exact ⟨hsplit.1.symm, hsplit.2.symm⟩

/-- No container is the start of another. -/
theorem toBytes_append
    {first second : TlsIdentity} (hfirst : first.Fits) (hsecond : second.Fits)
    {extra : List UInt8} (h : first.toBytes sha256 ++ extra = second.toBytes sha256) :
    extra = [] := by
  rw [hfirst.toBytes_eq, hsecond.toBytes_eq, List.append_assoc, List.append_cancel_left_eq] at h
  simp only [List.append_assoc] at h
  obtain ⟨-, hkey⟩ := part_unique hfirst.cert hsecond.cert h
  obtain ⟨-, hdigest⟩ := part_unique hfirst.key hsecond.key hkey
  have hlength := congrArg List.length hdigest
  rw [List.length_append, Vector.length_toList, Vector.length_toList] at hlength
  exact List.eq_nil_of_length_eq_zero (by omega)

namespace TlsIdentity

/--
The identity container is read exactly as it is written: what it is read as was written for it,
every identity that fits is read back, and neither a container that was cut short nor one with
bytes behind it is read.
-/
theorem container_exact
    (sha256 : List UInt8 → Vector UInt8 32) :
    (∀ bytes identity, fromBytes sha256 bytes = some identity ↔
      identity.Fits ∧ bytes = identity.toBytes sha256) ∧
    (∀ (identity : TlsIdentity) extra, identity.Fits → extra ≠ [] →
      fromBytes sha256 (identity.toBytes sha256 ++ extra) = none) ∧
    (∀ (identity : TlsIdentity) n, identity.Fits → n < (identity.toBytes sha256).length →
      fromBytes sha256 ((identity.toBytes sha256).take n) = none) := by
  refine ⟨fun bytes identity => fromBytes_iff, fun identity extra hfits hextra => ?_,
    fun identity n hfits hn => ?_⟩
  · rw [Option.eq_none_iff_forall_ne_some]
    intro other hread
    obtain ⟨hother, hbytes⟩ := fromBytes_iff.mp hread
    exact hextra (toBytes_append hfits hother hbytes)
  · rw [Option.eq_none_iff_forall_ne_some]
    intro other hread
    obtain ⟨hother, hbytes⟩ := fromBytes_iff.mp hread
    have hwhole := List.take_append_drop n (identity.toBytes sha256)
    rw [hbytes] at hwhole
    have hdrop := congrArg List.length (toBytes_append hother hfits hwhole)
    rw [List.length_drop, List.length_nil] at hdrop
    omega

end TlsIdentity

/-! ### The file -/

/-- There is no file, or it holds an identity that can be served. -/
def Usable (sha256 : List UInt8 → Vector UInt8 32) (acceptor : TlsIdentity → Bool)
    (file : Option (List UInt8)) : Prop :=
  ∀ bytes, file = some bytes →
    ∃ identity, TlsIdentity.fromBytes sha256 bytes = some identity ∧ acceptor identity = true

/-- What is generated fits its container and can be served. -/
def GeneratesWell (acceptor : TlsIdentity → Bool) (answer : IdentityAnswer) : Prop :=
  ∀ identity, answer = .generated identity → identity.Fits ∧ acceptor identity = true

open Prog (Triple)

/-- A call that changes the files if it succeeds. -/
theorem attempt_triple
    {allowed : IdentityAnswer → Prop} {change : IdentityFiles → IdentityFiles}
    {P C : IdentityFiles → Prop} {Q : Bool → IdentityFiles → Prop} (hkilled : ∀ s, P s → C s)
    (hdone : ∀ s, P s → Q true (change s)) (hfailed : ∀ s, P s → Q false s) :
    Triple allowed P (attempt change) Q C := by
  unfold attempt
  refine Triple.bind (Triple.call hkilled) fun answer => ?_
  cases answer with
  | done n =>
      exact Triple.bind (Triple.modify fun s hs => hdone s hs.2) fun _ => Triple.ret fun _ => id
  | failed => exact Triple.ret fun s hs => hfailed s hs.2
  | unreadable => exact Triple.ret fun s hs => hfailed s hs.2
  | generated identity => exact Triple.ret fun s hs => hfailed s hs.2

/-- Writing the temporary file leaves the others alone. -/
theorem writeTmp_triple
    {allowed : IdentityAnswer → Prop} (file : Option (List UInt8)) (turns : Nat)
    (data written : List UInt8) (hturns : data.length ≤ turns) :
    Triple allowed (fun s => s.identity = file ∧ s.tmp = some written) (writeTmp turns data)
      (fun ok s => s.identity = file ∧ (ok = true → s.tmp = some (written ++ data)))
      (fun s => s.identity = file) := by
  induction turns generalizing data written with
  | zero =>
      have hdata : data = [] := List.eq_nil_of_length_eq_zero (by omega)
      subst hdata
      exact Triple.ret fun s hs => ⟨hs.1, fun _ => by rw [List.append_nil]; exact hs.2⟩
  | succ turns ih =>
      unfold writeTmp
      refine Triple.ite (fun hdata => ?_) fun hdata => ?_
      · subst hdata
        exact Triple.ret fun s hs => ⟨hs.1, fun _ => by rw [List.append_nil]; exact hs.2⟩
      · refine Triple.bind (Triple.call fun s hs => hs.1) fun answer => ?_
        have hlength := List.length_pos_iff.mpr hdata
        cases answer with
        | done n =>
            refine Triple.bind (Triple.modify (Q := fun s => s.identity = file ∧
              s.tmp = some (written ++ data.take (n + 1))) fun s hs => ?_) fun _ => ?_
            · exact ⟨hs.2.1, by simp [hs.2.2]⟩
            · refine Triple.weaken (ih (data.drop (n + 1)) (written ++ data.take (n + 1)) ?_)
                (fun s hs => hs) fun ok s hs => ⟨hs.1, fun hok => ?_⟩
              · rw [List.length_drop]
                omega
              · rw [hs.2 hok, List.append_assoc, List.take_append_drop]
        | failed => exact Triple.ret fun s hs => ⟨hs.2.1, fun h => absurd h (by decide)⟩
        | unreadable => exact Triple.ret fun s hs => ⟨hs.2.1, fun h => absurd h (by decide)⟩
        | generated identity =>
            exact Triple.ret fun s hs => ⟨hs.2.1, fun h => absurd h (by decide)⟩

section

variable {allowed : IdentityAnswer → Prop} {file : Option (List UInt8)}

theorem writePrivateFile_triple
    (data : List UInt8) :
    Triple allowed (fun s => s.identity = file) (writePrivateFile data)
      (fun ok s => s.identity = file ∧ (ok = true → s.tmp = some data))
      (fun s => s.identity = file) := by
  unfold writePrivateFile
  refine Triple.bind (attempt_triple (Q := fun ok s => s.identity = file ∧
    (ok = true → s.tmp = some [])) (fun s => id) (fun s hs => ⟨hs, fun _ => rfl⟩)
    fun s hs => ⟨hs, fun h => absurd h (by decide)⟩) fun opened => ?_
  refine Triple.ite (fun hopened => ?_) fun hclosed => ?_
  · refine Triple.bind (Triple.weaken (writeTmp_triple file data.length data [] (Nat.le_refl _))
      (fun s hs => ⟨hs.1, hs.2 hopened⟩) fun ok s hs => hs) fun wrote => ?_
    refine Triple.ite (fun hwrote => ?_) fun hfailed => ?_
    · refine attempt_triple (fun s hs => hs.1) (fun s hs => ⟨hs.1, fun _ => hs.2 hwrote⟩)
        fun s hs => ⟨hs.1, fun h => absurd h (by decide)⟩
    · exact Triple.ret fun s hs => ⟨hs.1, fun h => absurd h (by decide)⟩
  · exact Triple.ret fun s hs => ⟨hs.1, fun h => absurd h (by decide)⟩

/-- The file is replaced as a whole or not at all. -/
theorem persistIdentity_triple
    (identity : TlsIdentity) :
    Triple allowed (fun s => s.identity = file) (persistIdentity sha256 identity)
      (fun _ s => s.identity = file ∨ s.identity = some (identity.toBytes sha256))
      (fun s => s.identity = file) := by
  unfold persistIdentity
  refine Triple.bind (attempt_triple (Q := fun _ s => s.identity = file) (fun s => id)
    (fun s => id) fun s => id) fun created => ?_
  refine Triple.ite (fun hcreated => ?_) fun hfailed => ?_
  · refine Triple.bind (writePrivateFile_triple _) fun wrote => ?_
    refine Triple.ite (fun hwrote => ?_) fun hfailed => ?_
    · exact attempt_triple (fun s hs => hs.1) (fun s hs => Or.inr (hs.2 hwrote))
        fun s hs => Or.inl hs.1
    · exact Triple.ret fun s hs => Or.inl hs.1
  · exact Triple.ret fun s hs => Or.inl hs

theorem whole_toBytes
    {identity : TlsIdentity} (hfits : identity.Fits) (hacceptor : acceptor identity = true) :
    Usable sha256 acceptor (some (identity.toBytes sha256)) := by
  intro bytes hbytes
  rw [Option.some.injEq] at hbytes
  exact ⟨identity, fromBytes_iff.mpr ⟨hfits, hbytes.symm⟩, hacceptor⟩

theorem createIdentity_triple
    (hallowed : ∀ a, allowed a → GeneratesWell acceptor a) :
    Triple allowed (fun s => Usable sha256 acceptor s.identity) (createIdentity sha256)
      (fun _ s => Usable sha256 acceptor s.identity)
      (fun s => Usable sha256 acceptor s.identity) := by
  unfold createIdentity
  refine Triple.bind (Triple.call fun s => id) fun answer => ?_
  cases answer with
  | failed => exact Triple.ret fun s hs => hs.2
  | unreadable => exact Triple.ret fun s hs => hs.2
  | done n => exact Triple.ret fun s hs => hs.2
  | generated identity =>
      refine Triple.of_fact fun hanswer => ?_
      obtain ⟨hfits, hacceptor⟩ := hallowed _ hanswer identity rfl
      refine Triple.weaken (Triple.of_exists fun file => Triple.of_fact fun hfile => ?_)
        (P := fun s => ∃ file, Usable sha256 acceptor file ∧ s.identity = file)
        (fun s hs => ⟨s.identity, hs, rfl⟩) fun _ s hs => hs
      refine Triple.bind (Triple.weaken_killed (persistIdentity_triple identity)
        fun s hs => hs ▸ hfile) fun saved => Triple.ret fun s hs => ?_
      rcases hs with hkept | hsaved
      · exact hkept ▸ hfile
      · exact hsaved ▸ whole_toBytes hfits hacceptor

/-- The file stays whole. -/
theorem loadOrCreateIdentity_triple
    (hallowed : ∀ a, allowed a → GeneratesWell acceptor a) :
    Triple allowed (fun s => Usable sha256 acceptor s.identity)
      (loadOrCreateIdentity sha256 acceptor) (fun _ s => Usable sha256 acceptor s.identity)
      (fun s => Usable sha256 acceptor s.identity) := by
  have hcreate := @createIdentity_triple sha256 acceptor allowed hallowed
  have hload : Triple allowed (fun s => Usable sha256 acceptor s.identity)
      (loadIdentity sha256 acceptor) (fun _ s => Usable sha256 acceptor s.identity)
      (fun s => Usable sha256 acceptor s.identity) := by
    unfold loadIdentity
    refine Triple.bind Triple.get fun files => ?_
    cases files.identity with
    | none => exact Triple.weaken hcreate (fun s hs => hs.2) fun _ s hs => hs
    | some bytes =>
        cases hfilter : (TlsIdentity.fromBytes sha256 bytes).filter acceptor with
        | some identity =>
            simp only [hfilter]
            exact Triple.ret fun s hs => hs.2
        | none =>
            simp only [hfilter]
            refine Triple.bind (attempt_triple (Q := fun _ s => Usable sha256 acceptor s.identity)
              (fun s hs => hs.2) (fun s hs bytes h => ?_) fun s hs => hs.2) fun _ => hcreate
            cases h
  unfold loadOrCreateIdentity
  refine Triple.bind (Triple.call fun s => id) fun answer => ?_
  cases answer with
  | unreadable => exact Triple.weaken hcreate (fun s hs => hs.2) fun _ s hs => hs
  | failed => exact Triple.weaken hload (fun s hs => hs.2) fun _ s hs => hs
  | done n => exact Triple.weaken hload (fun s hs => hs.2) fun _ s hs => hs
  | generated identity => exact Triple.weaken hload (fun s hs => hs.2) fun _ s hs => hs

/-- An identity that is on disk is loaded. -/
theorem loadOrCreateIdentity_saved
    (hallowed : ∀ a, allowed a → a ≠ .unreadable) {bytes : List UInt8} {identity : TlsIdentity}
    (hread : TlsIdentity.fromBytes sha256 bytes = some identity)
    (hacceptor : acceptor identity = true) :
    Triple allowed (fun s => s.identity = some bytes) (loadOrCreateIdentity sha256 acceptor)
      (fun loaded s => loaded = some identity ∧ s.identity = some bytes)
      (fun s => s.identity = some bytes) := by
  have hfilter : (TlsIdentity.fromBytes sha256 bytes).filter acceptor = some identity := by
    rw [hread, Option.filter_some, if_pos hacceptor]
  have hload : Triple allowed (fun s => s.identity = some bytes) (loadIdentity sha256 acceptor)
      (fun loaded s => loaded = some identity ∧ s.identity = some bytes)
      (fun s => s.identity = some bytes) := by
    unfold loadIdentity
    refine Triple.bind Triple.get fun files => ?_
    refine Triple.weaken (P := fun s => files.identity = some bytes ∧ s.identity = some bytes)
      (Triple.of_fact fun hfiles => ?_) (fun s hs => ⟨hs.1 ▸ hs.2, hs.2⟩) fun _ s hs => hs
    simp only [hfiles, hfilter]
    exact Triple.ret fun s hs => ⟨rfl, hs⟩
  unfold loadOrCreateIdentity
  refine Triple.bind (Triple.call fun s => id) fun answer => Triple.of_fact fun hanswer => ?_
  cases answer with
  | unreadable => exact absurd rfl (hallowed _ hanswer)
  | failed => exact hload
  | done n => exact hload
  | generated identity => exact hload

/-! ### A process -/

/-- All that a process serves is one identity. -/
def OneIdentity (served : List (Option TlsIdentity)) : Prop :=
  ∀ x y, some x ∈ served → some y ∈ served → x = y

/-- Once there is an acceptor, it is the one of every server. -/
theorem servers_guarded
    {P : IdentityFiles → Prop} (identity : TlsIdentity) (n : Nat) :
    Triple allowed P (servers sha256 acceptor n (some identity))
      (fun served s => (∀ x ∈ served, x = some identity) ∧ P s) P := by
  induction n with
  | zero => exact Triple.ret fun s hs => ⟨fun x hx => absurd hx List.not_mem_nil, hs⟩
  | succ n ih =>
      unfold servers sharedTlsAcceptor
      refine Triple.bind (Q := fun made s => made = some identity ∧ P s)
        (Triple.ret fun s hs => ⟨rfl, hs⟩) fun made => Triple.of_fact fun hmade => ?_
      subst hmade
      refine Triple.bind ih fun later => Triple.ret fun s hs => ⟨fun x hx => ?_, hs.2⟩
      rcases List.mem_cons.mp hx with rfl | hx
      · rfl
      · exact hs.1 x hx

theorem servers_triple
    (hallowed : ∀ a, allowed a → GeneratesWell acceptor a) (n : Nat) :
    Triple allowed (fun s => Usable sha256 acceptor s.identity)
      (servers sha256 acceptor n none)
      (fun served s => OneIdentity served ∧ Usable sha256 acceptor s.identity)
      (fun s => Usable sha256 acceptor s.identity) := by
  induction n with
  | zero => exact Triple.ret fun s hs => ⟨fun x y hx => absurd hx List.not_mem_nil, hs⟩
  | succ n ih =>
      unfold servers sharedTlsAcceptor
      refine Triple.bind (Q := fun _ s => Usable sha256 acceptor s.identity)
        (Triple.bind (loadOrCreateIdentity_triple hallowed) fun loaded =>
          Triple.ret fun s hs => hs) fun made => ?_
      cases made with
      | none =>
          refine Triple.bind ih fun later => Triple.ret fun s hs => ⟨fun x y hx hy => ?_, hs.2⟩
          simp only [List.mem_cons, reduceCtorEq, false_or] at hx hy
          exact hs.1 x y hx hy
      | some identity =>
          refine Triple.bind (servers_guarded identity n) fun later =>
            Triple.ret fun s hs => ⟨fun x y hx hy => ?_, hs.2⟩
          have hall : ∀ z, some z ∈ some identity :: later → z = identity := by
            intro z hz
            rcases List.mem_cons.mp hz with hz | hz
            · exact Option.some.inj hz
            · exact Option.some.inj (hs.1 _ hz)
          exact (hall x hx).trans (hall y hy).symm

/-- With an identity on disk, every server has it. -/
theorem servers_saved
    (hallowed : ∀ a, allowed a → a ≠ .unreadable) {bytes : List UInt8} {identity : TlsIdentity}
    (hread : TlsIdentity.fromBytes sha256 bytes = some identity)
    (hacceptor : acceptor identity = true) (n : Nat) :
    Triple allowed (fun s => s.identity = some bytes) (servers sha256 acceptor n none)
      (fun served s => (∀ x ∈ served, x = some identity) ∧ s.identity = some bytes)
      (fun s => s.identity = some bytes) := by
  cases n with
  | zero => exact Triple.ret fun s hs => ⟨fun x hx => absurd hx List.not_mem_nil, hs⟩
  | succ n =>
      unfold servers sharedTlsAcceptor
      refine Triple.bind (Q := fun made s => made = some identity ∧ s.identity = some bytes)
        (Triple.bind (loadOrCreateIdentity_saved hallowed hread hacceptor) fun loaded =>
          Triple.of_fact fun hloaded => Triple.ret fun s hs => ⟨?_, hs⟩)
        fun made => Triple.of_fact fun hmade => ?_
      · rw [hloaded, Option.filter_some, if_pos hacceptor]
      · subst hmade
        refine Triple.bind (servers_guarded identity n) fun later =>
          Triple.ret fun s hs => ⟨fun x hx => ?_, hs.2⟩
        rcases List.mem_cons.mp hx with rfl | hx
        · rfl
        · exact hs.1 x hx

end

/-! ### Every start -/

variable {files : IdentityFiles} {e : EngineStart}

/-- What a process does, from the triple of its servers. -/
theorem run_of_triple
    {allowed : IdentityAnswer → Prop} {P C : IdentityFiles → Prop}
    {Q : List (Option TlsIdentity) → IdentityFiles → Prop}
    (h : Triple allowed P (servers sha256 acceptor e.servers none) Q C)
    (hanswers : ∀ a ∈ e.answers, allowed a) (hfiles : P files)
    (hkilled : ∀ s, C s → Q [] s) :
    Q (startEngine sha256 acceptor files e).1 (startEngine sha256 acceptor files e).2 := by
  have hrun := h e.answers files hanswers hfiles
  unfold startEngine
  revert hrun
  rcases servers sha256 acceptor e.servers none e.answers files with ⟨exit, rest, s⟩
  cases exit with
  | returned served => exact fun hserved => hserved.2
  | killed => exact hkilled s
  | panicked => exact False.elim

theorem run_whole
    (hfiles : Usable sha256 acceptor files.identity)
    (hgenerates : ∀ a ∈ e.answers, GeneratesWell acceptor a) :
    OneIdentity (startEngine sha256 acceptor files e).1 ∧
      Usable sha256 acceptor (startEngine sha256 acceptor files e).2.identity :=
  run_of_triple (@servers_triple sha256 acceptor (GeneratesWell acceptor) (fun _ h => h) e.servers)
    hgenerates hfiles fun _ hs => ⟨fun _ _ hx => absurd hx List.not_mem_nil, hs⟩

theorem run_saved
    {bytes : List UInt8} {identity : TlsIdentity}
    (hread : TlsIdentity.fromBytes sha256 bytes = some identity)
    (hacceptor : acceptor identity = true) (hfiles : files.identity = some bytes)
    (hreads : ∀ a ∈ e.answers, a ≠ .unreadable) :
    (∀ x ∈ (startEngine sha256 acceptor files e).1, x = some identity) ∧
      (startEngine sha256 acceptor files e).2.identity = some bytes :=
  run_of_triple (@servers_saved sha256 acceptor (· ≠ .unreadable) (fun _ h => h) bytes identity
    hread hacceptor e.servers) hreads hfiles
    fun _ hs => ⟨fun _ hx => absurd hx List.not_mem_nil, hs⟩

/-- The answers of the calls of these starts. -/
def AllAnswers (P : IdentityAnswer → Prop) (starts : List EngineStart) : Prop :=
  ∀ e ∈ starts, ∀ a ∈ e.answers, P a

theorem starts_whole
    (starts : List EngineStart) (hfiles : Usable sha256 acceptor files.identity)
    (hgenerates : AllAnswers (GeneratesWell acceptor) starts) :
    (∀ served ∈ Run.outputs (startEngine sha256 acceptor) files starts, OneIdentity served) ∧
      Usable sha256 acceptor (Run.final (startEngine sha256 acceptor) files starts).identity := by
  induction starts generalizing files with
  | nil => exact ⟨fun served hserved => absurd hserved List.not_mem_nil, hfiles⟩
  | cons e starts ih =>
      obtain ⟨hone, hwhole⟩ := run_whole hfiles (hgenerates e List.mem_cons_self)
      obtain ⟨hones, hfinal⟩ := ih hwhole fun e he => hgenerates e (List.mem_cons_of_mem _ he)
      refine ⟨fun served hserved => ?_, hfinal⟩
      rcases List.mem_cons.mp hserved with rfl | hserved
      · exact hone
      · exact hones served hserved

theorem starts_saved
    {bytes : List UInt8} {identity : TlsIdentity} (starts : List EngineStart)
    (hread : TlsIdentity.fromBytes sha256 bytes = some identity)
    (hacceptor : acceptor identity = true) (hfiles : files.identity = some bytes)
    (hreads : AllAnswers (· ≠ .unreadable) starts) :
    (∀ served ∈ Run.outputs (startEngine sha256 acceptor) files starts,
        ∀ x ∈ served, x = some identity) ∧
      (Run.final (startEngine sha256 acceptor) files starts).identity = some bytes := by
  induction starts generalizing files with
  | nil => exact ⟨fun served hserved => absurd hserved List.not_mem_nil, hfiles⟩
  | cons e starts ih =>
      obtain ⟨hall, hkept⟩ := run_saved hread hacceptor hfiles (hreads e List.mem_cons_self)
      obtain ⟨halls, hfinal⟩ := ih hkept fun e he => hreads e (List.mem_cons_of_mem _ he)
      refine ⟨fun served hserved => ?_, hfinal⟩
      rcases List.mem_cons.mp hserved with rfl | hserved
      · exact hall
      · exact halls served hserved

/--
However often the engine is started and wherever it is killed or its I/O fails: a process
serves one identity, and the identity file is never half written.  Once the file is there, the
servers of all later starts have its identity, as long as no read of it fails.
-/
theorem identity_kept
    (sha256 : List UInt8 → Vector UInt8 32) (acceptor : TlsIdentity → Bool)
    (files : IdentityFiles) (before later : List EngineStart)
    (hfiles : Usable sha256 acceptor files.identity)
    (hgenerates : AllAnswers (GeneratesWell acceptor) (before ++ later))
    (hreads : AllAnswers (· ≠ .unreadable) later) :
    let start := startEngine sha256 acceptor
    let saved := Run.final start files before
    (∀ served ∈ Run.outputs start files (before ++ later), OneIdentity served) ∧
    Usable sha256 acceptor (Run.final start files (before ++ later)).identity ∧
    ∀ bytes, saved.identity = some bytes →
      ∃ identity, identity.Fits ∧ bytes = identity.toBytes sha256 ∧
        (∀ served ∈ Run.outputs start saved later, ∀ x ∈ served, x = some identity) ∧
        (Run.final start saved later).identity = some bytes := by
  intro start saved
  obtain ⟨hone, hwhole⟩ := starts_whole (before ++ later) hfiles hgenerates
  refine ⟨hone, hwhole, fun bytes hbytes => ?_⟩
  have hsaved := (starts_whole before hfiles fun e he =>
    hgenerates e (List.mem_append_left _ he)).2
  obtain ⟨identity, hread, hacceptor⟩ := hsaved bytes hbytes
  obtain ⟨hfits, hcontainer⟩ := fromBytes_iff.mp hread
  obtain ⟨hserved, hkept⟩ := starts_saved later hread hacceptor hbytes hreads
  exact ⟨identity, hfits, hcontainer, hserved, hkept⟩

/-- The engine is killed while it writes its first identity, makes another, and is started
again. -/
theorem identity_kept_killed :
    let sha256 : List UInt8 → Vector UInt8 32 := fun _ => Vector.replicate 32 7
    let start := startEngine sha256 fun _ => true
    let before : List EngineStart :=
      [⟨[.done 0, .generated ⟨[1], [2]⟩, .done 0, .done 0, .done 5], 1⟩,
        ⟨[.done 0, .generated ⟨[3], [4]⟩, .done 0, .done 0, .done 99, .done 0, .done 0], 1⟩]
    let saved := Run.final start {} before
    saved.identity = some (TlsIdentity.toBytes sha256 ⟨[3], [4]⟩) ∧
      ∃ identity, identity.Fits ∧
        TlsIdentity.toBytes sha256 ⟨[3], [4]⟩ = identity.toBytes sha256 ∧
        (∀ served ∈ Run.outputs start saved [⟨[.done 0], 3⟩], ∀ x ∈ served, x = some identity) ∧
        (Run.final start saved [⟨[.done 0], 3⟩]).identity =
          some (TlsIdentity.toBytes sha256 ⟨[3], [4]⟩) := by
  intro sha256 start before saved
  have hidentity : saved.identity = some (TlsIdentity.toBytes sha256 ⟨[3], [4]⟩) := by decide
  have hmax : 1 ≤ MAX_IDENTITY_PART_LEN := by decide
  have hfits : ∀ a b : UInt8, TlsIdentity.Fits ⟨[a], [b]⟩ := fun a b =>
    ⟨⟨Nat.one_pos, hmax⟩, Nat.one_pos, hmax⟩
  refine ⟨hidentity, (identity_kept sha256 (fun _ => true) {} before [⟨[.done 0], 3⟩]
    (fun bytes h => absurd h.symm (Option.some_ne_none bytes)) ?_ ?_).2.2 _ hidentity⟩
  · intro e he a ha identity hgenerated
    subst hgenerated
    simp [before] at he
    rcases he with rfl | rfl | rfl <;> simp at ha <;> subst ha <;> exact ⟨hfits _ _, rfl⟩
  · intro e he a ha hunreadable
    subst hunreadable
    simp at he
    subst he
    simp at ha

end Engine
end FocusVision
