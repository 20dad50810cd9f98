import FocusVision.Client.FrameAssembler

/-!
# Packet loss

`FrameAssembler::accountSequence` counts the packets that arrived and, from the
gaps in their RTP sequence numbers, the packets that did not.  Sequence numbers
have 16 bits, so a gap is measured from a moving expectation.

The main result is that every packet between the first and the newest one is
counted once, as received or as lost, over any number of wraps, and that packets
which come again or come late do not change what counts as lost.
-/

namespace FocusVision
namespace Client
namespace FrameAssembler

/-! ### One packet -/

/-- The numbers between the expected one and `seq`. -/
def gap (a : FrameAssembler) (seq : UInt16) : Nat :=
  (seq - a.m_expectedSequence).toNat

/-- The packets that count as lost when `seq` arrives. -/
def lostBy (a : FrameAssembler) (seq : UInt16) : Nat :=
  if a.m_haveSequence ∧ a.gap seq ≤ kMaxCountedGap then a.gap seq else 0

/-- The number that is expected after `seq`. -/
def expectedAfter (a : FrameAssembler) (seq : UInt16) : UInt16 :=
  if a.m_haveSequence ∧ 2 ^ 15 ≤ a.gap seq then a.m_expectedSequence else seq + 1

/-- One received packet, and `lost` packets before it. -/
def counted (lost : Nat) (s : StatsReporter) : StatsReporter :=
  { m_packetsReceived := s.m_packetsReceived + 1
    m_packetsLost := s.m_packetsLost + UInt32.ofNat lost }

theorem counted_zero
    (s : StatsReporter) :
    counted 0 s = { s with m_packetsReceived := s.m_packetsReceived + 1 } := by
  simp [counted]

/-- The difference that `accountSequence` looks at, a signed number. -/
theorem toInt_gap
    (a : FrameAssembler) (seq : UInt16) :
    (seq - a.m_expectedSequence).toBitVec.toInt =
      if a.gap seq < 2 ^ 15 then (a.gap seq : Int) else (a.gap seq : Int) - 2 ^ 16 := by
  rw [BitVec.toInt_eq_toNat_cond]
  simp only [gap, UInt16.toNat_toBitVec]
  split_ifs <;> omega

theorem accountSequence_eq
    (a : FrameAssembler) (seq : UInt16) :
    a.accountSequence seq =
      { a with
        m_stats := a.m_stats.map (counted (a.lostBy seq))
        m_haveSequence := true
        m_expectedSequence := a.expectedAfter seq } := by
  have hlt : a.gap seq < 2 ^ 16 := (seq - a.m_expectedSequence).toNat_lt
  cases hhave : a.m_haveSequence with
  | false =>
      simp [accountSequence, lostBy, expectedAfter, hhave, funext counted_zero]
  | true =>
      simp only [accountSequence, hhave, toInt_gap, Bool.not_true, Bool.false_eq_true, if_false]
      by_cases hnew : a.gap seq < 2 ^ 15
      · have hexpected : a.expectedAfter seq = seq + 1 := by
          rw [expectedAfter, if_neg (by omega)]
        simp only [hnew, if_true, hexpected, Int.toNat_natCast]
        by_cases hnext : a.gap seq = 0
        · simp [lostBy, hnext, funext counted_zero]
        · have hpos : (a.gap seq : Int) > 0 := by omega
          have hne : ¬(a.gap seq : Int) = 0 := by omega
          simp only [hne, hpos, if_true, if_false]
          by_cases hcap : a.gap seq ≤ kMaxCountedGap
          · have hlost : a.lostBy seq = a.gap seq := if_pos ⟨hhave, hcap⟩
            rw [if_pos hcap, hlost, Option.map_map]
            rfl
          · simp [lostBy, hcap, funext counted_zero]
      · have hexpected : a.expectedAfter seq = a.m_expectedSequence := by
          rw [expectedAfter, if_pos ⟨hhave, by omega⟩]
        have hlost : a.lostBy seq = 0 := by
          rw [lostBy, if_neg]
          simp only [kMaxCountedGap]
          omega
        have hne : ¬(a.gap seq : Int) - 2 ^ 16 = 0 := by omega
        have hneg : ¬(a.gap seq : Int) - 2 ^ 16 > 0 := by omega
        simp only [hnew, if_false, hne, hneg, hexpected, hlost, funext counted_zero]

/-! ### A run of packets -/

/-- `accountSequence` for each packet. -/
def accountSequences (a : FrameAssembler) (seqs : List UInt16) : FrameAssembler :=
  seqs.foldl accountSequence a

/-- The packets that count as lost in a run. -/
def lostPackets : FrameAssembler → List UInt16 → Nat
  | _, [] => 0
  | a, seq :: seqs => a.lostBy seq + lostPackets (a.accountSequence seq) seqs

/-- The counters of the statistics are these numbers, with 32 bits. -/
theorem accountSequences_stats
    (a : FrameAssembler) (seqs : List UInt16) :
    (a.accountSequences seqs).m_stats = a.m_stats.map fun s =>
      { m_packetsReceived := s.m_packetsReceived + UInt32.ofNat seqs.length
        m_packetsLost := s.m_packetsLost + UInt32.ofNat (a.lostPackets seqs) } := by
  induction seqs generalizing a with
  | nil => simp [accountSequences, lostPackets]
  | cons seq seqs ih =>
      have hrest := ih (a.accountSequence seq)
      rw [accountSequences, List.foldl_cons, ← accountSequences, hrest, accountSequence_eq,
        Option.map_map]
      congr 1
      funext s
      simp only [Function.comp_apply, counted, lostPackets, List.length_cons, UInt32.ofNat_add,
        accountSequence_eq, UInt32.add_assoc, StatsReporter.mk.injEq, and_true]
      rw [UInt32.add_comm 1]
      rfl

/-- Packets in order, after `last`; no gap has more than the counted number. -/
def InOrder : Nat → List Nat → Prop
  | _, [] => True
  | last, x :: xs => last < x ∧ x ≤ last + 1 + kMaxCountedGap ∧ InOrder x xs

instance decidableInOrder :
    (last : Nat) → (xs : List Nat) → Decidable (InOrder last xs)
  | _, [] => inferInstanceAs (Decidable True)
  | last, x :: xs =>
      have := decidableInOrder x xs
      inferInstanceAs (Decidable (last < x ∧ x ≤ last + 1 + kMaxCountedGap ∧ InOrder x xs))

/-! ### Packets in order -/

/-- The newest packet was number `last`, counted without the wraps. -/
structure Newest (last : Nat) (a : FrameAssembler) : Prop where
  haveSequence : a.m_haveSequence = true
  expected : a.m_expectedSequence = UInt16.ofNat (last + 1)

theorem newest_first
    {a : FrameAssembler} (h : a.m_haveSequence = false) (first : Nat) :
    a.lostBy (UInt16.ofNat first) = 0 ∧
      Newest first (a.accountSequence (UInt16.ofNat first)) := by
  refine ⟨by simp [lostBy, h], ?_⟩
  rw [accountSequence_eq]
  exact ⟨rfl, by simp [expectedAfter, h, UInt16.ofNat_add]⟩

/-- The packets between two numbers of a run are the lost ones. -/
theorem Newest.next
    {last : Nat} {a : FrameAssembler} (h : Newest last a) {x : Nat} (hlater : last < x)
    (hgap : x ≤ last + 1 + kMaxCountedGap) :
    last + 1 + a.lostBy (UInt16.ofNat x) = x ∧
      Newest x (a.accountSequence (UInt16.ofNat x)) := by
  obtain ⟨d, rfl⟩ := Nat.exists_eq_add_of_le hlater
  have hd : d ≤ kMaxCountedGap := by omega
  have hsub : a.gap (UInt16.ofNat (last + 1 + d)) = d := by
    rw [gap, h.expected, UInt16.ofNat_add, UInt16.add_comm, UInt16.add_sub_cancel,
      UInt16.toNat_ofNat']
    simp only [kMaxCountedGap] at hd
    omega
  constructor
  · rw [lostBy, hsub, if_pos ⟨h.haveSequence, hd⟩]
  · rw [accountSequence_eq]
    refine ⟨rfl, ?_⟩
    have hnew : ¬2 ^ 15 ≤ d := by
      simp only [kMaxCountedGap] at hd
      omega
    rw [expectedAfter, hsub, if_neg fun h => hnew h.2, UInt16.ofNat_add _ 1]
    rfl

theorem Newest.run
    {last : Nat} {a : FrameAssembler} (h : Newest last a) {xs : List Nat}
    (hxs : InOrder last xs) :
    last + xs.length + a.lostPackets (xs.map UInt16.ofNat) = xs.getLastD last := by
  induction xs generalizing a last with
  | nil => rfl
  | cons x xs ih =>
      obtain ⟨hlater, hgap, hrest⟩ := hxs
      obtain ⟨hlost, hnext⟩ := h.next hlater hgap
      have hrun := ih hnext hrest
      rw [List.getLastD_cons, List.map_cons, lostPackets, List.length_cons]
      omega

theorem inOrder_run
    {a : FrameAssembler} (h : a.m_haveSequence = false) {first : Nat} {xs : List Nat}
    (hxs : InOrder first xs) :
    xs.length + 1 + a.lostPackets ((first :: xs).map UInt16.ofNat) =
      xs.getLastD first - first + 1 := by
  obtain ⟨hlost, hnext⟩ := newest_first h first
  have hrun := hnext.run hxs
  rw [List.map_cons, lostPackets, hlost]
  omega

/-! ### Packets that come again or come late -/

/-- The newest number, in serial order, when `seq` comes after `newest`. -/
def newestOf : Option UInt16 → UInt16 → UInt16
  | none, seq => seq
  | some newest, seq => if (seq - newest - 1).toNat < 2 ^ 15 then seq else newest

/--
`full` is `base` with more packets between, of numbers that are not newer than
the newest one before them, and at most 32767 behind it.
-/
inductive Inserted : Option UInt16 → List UInt16 → List UInt16 → Prop
  | nil (newest : Option UInt16) : Inserted newest [] []
  | kept {newest : Option UInt16} (seq : UInt16) {base full : List UInt16} :
      Inserted (some (newestOf newest seq)) base full →
      Inserted newest (seq :: base) (seq :: full)
  | late {newest : UInt16} (behind : Nat) {base full : List UInt16} :
      behind ≤ 32767 → Inserted (some newest) base full →
      Inserted (some newest) base ((newest - UInt16.ofNat behind) :: full)

/-- The newest number that was accounted. -/
def newest (a : FrameAssembler) : Option UInt16 :=
  if a.m_haveSequence then some (a.m_expectedSequence - 1) else none

theorem newest_accountSequence
    (a : FrameAssembler) (seq : UInt16) :
    (a.accountSequence seq).newest = some (newestOf a.newest seq) := by
  rw [accountSequence_eq]
  cases hhave : a.m_haveSequence with
  | false => simp [newest, newestOf, expectedAfter, hhave]
  | true =>
      have hsub : seq - (a.m_expectedSequence - 1) - 1 = seq - a.m_expectedSequence := by
        grind
      simp only [newest, newestOf, expectedAfter, hhave, hsub, gap, true_and, if_true]
      split_ifs with hlate hnew hnew
      · omega
      · rfl
      · simp
      · omega

theorem newest_eq_some
    {a : FrameAssembler} {last : UInt16} (h : a.newest = some last) :
    a.m_haveSequence = true ∧ a.m_expectedSequence = last + 1 := by
  unfold newest at h
  split_ifs at h with hhave
  rw [Option.some.injEq] at h
  exact ⟨hhave, by rw [← h]; simp⟩

/-- A packet that is not newer only counts as received. -/
theorem accountSequence_late
    {a : FrameAssembler} {last : UInt16} (h : a.newest = some last) {behind : Nat}
    (hbehind : behind ≤ 32767) :
    a.lostBy (last - UInt16.ofNat behind) = 0 ∧
      a.accountSequence (last - UInt16.ofNat behind) =
        { a with m_stats := a.m_stats.map (counted 0) } := by
  obtain ⟨hhave, hexpected⟩ := newest_eq_some h
  have hgap : a.gap (last - UInt16.ofNat behind) = 65535 - behind := by
    have hsub : last - UInt16.ofNat behind - a.m_expectedSequence =
        UInt16.ofNat (65535 - behind) := by
      rw [hexpected, UInt16.ofNat_sub (by omega)]
      have hmax : UInt16.ofNat 65535 = -1 := by decide
      rw [hmax]
      grind
    rw [gap, hsub, UInt16.toNat_ofNat']
    omega
  have hlost : a.lostBy (last - UInt16.ofNat behind) = 0 := by
    rw [lostBy, hgap, if_neg]
    simp only [kMaxCountedGap]
    omega
  refine ⟨hlost, ?_⟩
  rw [accountSequence_eq, hlost, expectedAfter, hgap, if_pos ⟨hhave, by omega⟩, ← hhave]

/-- What counts as lost does not depend on the statistics. -/
theorem lostPackets_stats
    (a : FrameAssembler) (stats : Option StatsReporter) (seqs : List UInt16) :
    { a with m_stats := stats }.lostPackets seqs = a.lostPackets seqs := by
  induction seqs generalizing a stats with
  | nil => rfl
  | cons seq seqs ih =>
      have hstats := ih (a.accountSequence seq)
        (stats.map (counted (a.lostBy seq)))
      rw [lostPackets, lostPackets, ← hstats, accountSequence_eq, accountSequence_eq]
      rfl

theorem Inserted.lostPackets
    {last : Option UInt16} {base full : List UInt16} (h : Inserted last base full)
    {a : FrameAssembler} (ha : a.newest = last) :
    a.lostPackets full = a.lostPackets base := by
  induction h generalizing a with
  | nil newest => rfl
  | kept seq _ ih =>
      have hrest := ih (by rw [newest_accountSequence, ha])
      rw [FrameAssembler.lostPackets, FrameAssembler.lostPackets, hrest]
  | late behind hbehind _ ih =>
      obtain ⟨hlost, hnext⟩ := accountSequence_late ha hbehind
      rw [FrameAssembler.lostPackets, hlost, hnext, lostPackets_stats, Nat.zero_add]
      exact ih ha

/--
**Packet loss.**  After `reset`, packets in order with gaps of at most 1000 are
counted so that received and lost ones make up all numbers from the first to the
last, however often these wrap around.  Packets inserted into any sequence, of
numbers that are at most 32767 behind the newest, do not change what is lost; so
with them no more than the missing numbers are lost.  The counters of the
statistics are these numbers, modulo `2 ^ 32`.
-/
theorem packetLoss_exact
    (a : FrameAssembler) :
    (∀ (first : Nat) (xs : List Nat), InOrder first xs →
      let seqs := (first :: xs).map UInt16.ofNat
      seqs.length + a.reset.lostPackets seqs = xs.getLastD first - first + 1 ∧
      ∀ full, Inserted none seqs full →
        xs.length + 1 + a.reset.lostPackets full = xs.getLastD first - first + 1) ∧
    (∀ base full, Inserted none base full →
      a.reset.lostPackets full = a.reset.lostPackets base) ∧
    ∀ seqs, (a.reset.accountSequences seqs).m_stats = a.m_stats.map fun s =>
      { m_packetsReceived := s.m_packetsReceived + UInt32.ofNat seqs.length
        m_packetsLost := s.m_packetsLost + UInt32.ofNat (a.reset.lostPackets seqs) } := by
  have hinserted : ∀ base full, Inserted none base full →
      a.reset.lostPackets full = a.reset.lostPackets base :=
    fun base full h => h.lostPackets rfl
  refine ⟨?_, hinserted, fun seqs => accountSequences_stats a.reset seqs⟩
  intro first xs hxs seqs
  have hrun : xs.length + 1 + a.reset.lostPackets seqs = xs.getLastD first - first + 1 :=
    inOrder_run rfl hxs
  have hlength : seqs.length = xs.length + 1 := by simp [seqs]
  refine ⟨hlength ▸ hrun, ?_⟩
  intro full hfull
  rw [hinserted seqs full hfull]
  exact hrun

/-- Numbers 65534, 1 and 3, where 1 comes twice and 0 comes late. -/
theorem packetLoss_exact_wrap :
    InOrder 65534 [65537, 65539] ∧
      2 + 1 + (reset {}).lostPackets [65534, 1, 0, 1, 3] = 6 := by
  have hxs : InOrder 65534 [65537, 65539] := by decide
  refine ⟨hxs, ?_⟩
  have hlate : Inserted (some 1) [3] [0, 1, 3] :=
    .late 1 (by decide) (.late 0 (by decide) (.kept 3 (.nil _)))
  exact ((packetLoss_exact {}).1 65534 _ hxs).2 _ (.kept 65534 (.kept 1 hlate))

end FrameAssembler
end Client
end FocusVision
