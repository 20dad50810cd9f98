import FocusVision.Client.AudioPlayer
import FocusVision.Client.PacketHeader
import FocusVision.Engine.AudioSender

/-!
# Audio in time

The engine numbers its audio packets with 16 bits, and the network may lose, repeat and
reorder them.  The headset's decoder gets what a receiver would give it that knew the
full numbers: every packet that is newer than all before it, at the place in time that
its number says, with concealed packets before it, and none that comes late.
-/

namespace FocusVision
namespace Client

open Bytes Engine

/-! ### The timeline -/

/-- What the headset plays for 10 ms. -/
inductive Slot where
  | concealed
  | played (i : Nat)
deriving DecidableEq

/-- The slots that packet `i` brings, where `last` is the newest one before it. -/
def slotsOf : Option Nat → Nat → List Slot
  | none, i => [.played i]
  | some last, i =>
      if i ≤ last then []
      else List.replicate (min (i - last - 1) 5) .concealed ++ [.played i]

/-- The newest packet, after packet `i`. -/
def newestAudio : Option Nat → Nat → Nat
  | none, i => i
  | some last, i => max last i

/-- The slots of the packets that have come in. -/
def timeline : Option Nat → List Nat → List Slot
  | _, [] => []
  | last, i :: is => slotsOf last i ++ timeline (some (newestAudio last i)) is

/-- Packets are at most 50 behind the newest one, and less than 32768 ahead of it. -/
def InWindow : Option Nat → List Nat → Prop
  | _, [] => True
  | none, i :: is => InWindow (some i) is
  | some last, i :: is => last ≤ i + 50 ∧ i < last + 2 ^ 15 ∧ InWindow (some (max last i)) is

instance decidableInWindow :
    (last : Option Nat) → (is : List Nat) → Decidable (InWindow last is)
  | none, [] => inferInstanceAs (Decidable True)
  | some _, [] => inferInstanceAs (Decidable True)
  | none, i :: is => decidableInWindow (some i) is
  | some last, i :: is =>
      have := decidableInWindow (some (max last i)) is
      inferInstanceAs (Decidable (last ≤ i + 50 ∧ i < last + 2 ^ 15 ∧ _))

/-! ### Sequence numbers -/

/-- The difference of two numbers with 16 bits, for numbers that are close. -/
theorem toInt_ofNat_sub
    {last i : Nat} (hbehind : last ≤ i + 2 ^ 15) (hahead : i < last + 2 ^ 15) :
    (UInt16.ofNat i - UInt16.ofNat last).toBitVec.toInt = (i : Int) - last := by
  rw [BitVec.toInt_eq_toNat_cond]
  simp only [UInt16.toNat_toBitVec, UInt16.toNat_sub, UInt16.toNat_ofNat']
  split_ifs <;> omega

/-- The numbering after packet `last`, the newest one. -/
def Follows : Option Nat → AudioSequence → Prop
  | none, a => a.m_started = false
  | some last, a => a = { m_started := true, m_last := UInt16.ofNat last }

namespace AudioSequence

theorem onPacket_first
    {a : AudioSequence} (h : Follows none a) (i : Nat) :
    a.onPacket (UInt16.ofNat i) = (0, { m_started := true, m_last := UInt16.ofNat i }) := by
  have hstarted : a.m_started = false := h
  simp [onPacket, hstarted]

theorem onPacket_late
    {a : AudioSequence} {last i : Nat} (h : Follows (some last) a) (hlate : i ≤ last)
    (hbehind : last ≤ i + 50) :
    a.onPacket (UInt16.ofNat i) = (-1, a) := by
  have hdelta := @toInt_ofNat_sub last i (by omega) (by omega)
  have hlast : a = { m_started := true, m_last := UInt16.ofNat last } := h
  subst hlast
  have hdrop : (i : Int) - last ≤ 0 ∧ (i : Int) - last ≥ -kReorderWindow := by
    simp only [kReorderWindow]
    omega
  simp only [onPacket, hdelta, if_pos hdrop]
  rfl

theorem onPacket_newer
    {a : AudioSequence} {last i : Nat} (h : Follows (some last) a) (hnewer : last < i)
    (hahead : i < last + 2 ^ 15) :
    a.onPacket (UInt16.ofNat i) =
      (((min (i - last - 1) 5 : Nat) : Int),
        { m_started := true, m_last := UInt16.ofNat i }) := by
  have hdelta := @toInt_ofNat_sub last i (by omega) hahead
  have hlast : a = { m_started := true, m_last := UInt16.ofNat last } := h
  subst hlast
  have hkeep : ¬((i : Int) - last ≤ 0 ∧ (i : Int) - last ≥ -kReorderWindow) := by omega
  have hpos : ¬(i : Int) - last < 0 := by omega
  have hmissing : min ((i : Int) - last - 1) kMaxConcealed = (min (i - last - 1) 5 : Nat) := by
    simp only [kMaxConcealed]
    omega
  simp only [onPacket, hdelta, if_neg hkeep, if_neg hpos, hmissing]
  rfl

end AudioSequence

/-! ### One packet -/

/-- A packet of the Opus library: one frame, of at most 1275 bytes, and a byte before it. -/
structure OpusPacket (data : List UInt8) : Prop where
  nonempty : data ≠ []
  length_le : data.length ≤ 1276

/-- What the decoder gets for a slot. -/
def Slot.input (payload : Nat → List UInt8) : Slot → Option (List UInt8)
  | .concealed => none
  | .played i => some (payload i)

/-- What the decoder gets with a call. -/
def PlayerCall.inputs : PlayerCall → List (Option (List UInt8))
  | .concealLoss packets => List.replicate packets none
  | .submitOpusPacket data => [some data]

theorem length_audioPacketAt
    (i : Nat) (data : List UInt8) :
    (audioPacketAt i data).length = kRtpHeader + data.length := by
  rw [audioPacketAt, audioPacket, List.length_append, length_writeRtpHeader]
  rfl

/-- The number of a packet, as `receiveAudio` reads it. -/
theorem sequence_audioPacketAt
    (i : Nat) (data : List UInt8) :
    (((audioPacketAt i data).getD 2 0).toUInt16 <<< 8 |||
      ((audioPacketAt i data).getD 3 0).toUInt16) = UInt16.ofNat i := by
  have hbytes : (audioPacketAt i data).getD 2 0 = UInt8.ofNat ((UInt16.ofNat i).toNat / 256) ∧
      (audioPacketAt i data).getD 3 0 = UInt8.ofNat (UInt16.ofNat i).toNat := ⟨rfl, rfl⟩
  have hlt : (UInt16.ofNat i).toNat < 2 ^ 16 := (UInt16.ofNat i).toNat_lt
  have hlow : (UInt16.ofNat i).toNat % 256 < 2 ^ 8 := by omega
  rw [hbytes.1, hbytes.2]
  apply UInt16.toNat_inj.mp
  simp only [UInt16.toNat_or, UInt16.toNat_shiftLeft, UInt8.toNat_toUInt16, UInt8.toNat_ofNat']
  generalize (UInt16.ofNat i).toNat = n at hlt hlow ⊢
  have hhigh : n / 256 % 2 ^ 8 = n / 256 := by omega
  have hshift : (n / 256) <<< 8 % 2 ^ 16 = (n / 256) <<< 8 := by
    rw [Nat.shiftLeft_eq]
    omega
  change (n / 256 % 2 ^ 8) <<< 8 % 2 ^ 16 ||| n % 2 ^ 8 = n
  rw [hhigh, hshift, Nat.or_comm, or_shiftLeft_eq hlow]
  omega

theorem drop_audioPacketAt
    (i : Nat) (data : List UInt8) :
    (audioPacketAt i data).drop kRtpHeader = data :=
  List.drop_left' (length_writeRtpHeader _ _ _ _ _)

/-- A packet of the engine brings the decoder the slots of its number. -/
theorem onAudioDatagram_packet
    {payload : Nat → List UInt8} {a : AudioSequence} {last : Option Nat} {i : Nat}
    (h : Follows last a) (hopus : OpusPacket (payload i)) (hwindow : InWindow last [i]) :
    (onAudioDatagram a (audioPacketAt i (payload i))).1.flatMap PlayerCall.inputs =
        (slotsOf last i).map (Slot.input payload) ∧
      Follows (some (newestAudio last i)) (onAudioDatagram a (audioPacketAt i (payload i))).2 := by
  have hlength := length_audioPacketAt i (payload i)
  have hpos := List.length_pos_of_ne_nil hopus.nonempty
  have hmax := hopus.length_le
  have htake : (audioPacketAt i (payload i)).take audioBufferSize =
      audioPacketAt i (payload i) := by
    refine List.take_of_length_le ?_
    simp only [kRtpHeader, audioBufferSize] at *
    omega
  have hlong : ¬(audioPacketAt i (payload i)).length ≤ kRtpHeader := by omega
  simp only [onAudioDatagram, htake, if_neg hlong, sequence_audioPacketAt, drop_audioPacketAt]
  cases last with
  | none =>
      rw [AudioSequence.onPacket_first h]
      exact ⟨rfl, rfl⟩
  | some last =>
      obtain ⟨hbehind, hahead, -⟩ := hwindow
      by_cases hlate : i ≤ last
      · rw [AudioSequence.onPacket_late h hlate hbehind]
        simp only [slotsOf, newestAudio, if_pos hlate, Nat.max_eq_left hlate]
        exact ⟨rfl, h⟩
      · have hnewer : last < i := Nat.not_le.mp hlate
        have hnonneg : ¬((min (i - last - 1) 5 : Nat) : Int) < 0 := by omega
        rw [AudioSequence.onPacket_newer h hnewer hahead]
        simp only [slotsOf, newestAudio, if_neg hlate, if_neg hnonneg,
          Nat.max_eq_right (Nat.le_of_lt hnewer)]
        refine ⟨?_, rfl⟩
        by_cases hmissing : ((min (i - last - 1) 5 : Nat) : Int) > 0
        · simp only [if_pos hmissing, Int.toNat_natCast]
          simp [PlayerCall.inputs, Slot.input]
        · have hnext : min (i - last - 1) 5 = 0 := by omega
          simp [PlayerCall.inputs, Slot.input, hnext]

/-! ### A run -/

/-- The newest packet, after some more. -/
def newestAudios : Option Nat → List Nat → Option Nat :=
  List.foldl fun last i => some (newestAudio last i)

theorem inWindow_append
    {last : Option Nat} {is js : List Nat} :
    InWindow last (is ++ js) ↔ InWindow last is ∧ InWindow (newestAudios last is) js := by
  induction is generalizing last with
  | nil =>
      cases last with
      | none => simp [InWindow, newestAudios]
      | some last => simp [InWindow, newestAudios]
  | cons i is ih =>
      cases last with
      | none => exact ih
      | some last =>
          change _ ∧ _ ∧ InWindow (some (max last i)) (is ++ js) ↔ (_ ∧ _ ∧ _) ∧ _
          rw [ih, and_assoc, and_assoc]
          rfl

theorem timeline_append
    (last : Option Nat) (is js : List Nat) :
    timeline last (is ++ js) = timeline last is ++ timeline (newestAudios last is) js := by
  induction is generalizing last with
  | nil => rfl
  | cons i is ih =>
      simp only [List.cons_append, timeline, ih, List.append_assoc]
      rfl

/-- Packet `i` of the engine, in a session with these payloads. -/
def packetOf (payload : Nat → List UInt8) (i : Nat) : List UInt8 :=
  audioPacketAt i (payload i)

theorem readAudio_packets
    {payload : Nat → List UInt8} {a : AudioSequence} {last : Option Nat} {is : List Nat}
    (h : Follows last a) (hopus : ∀ i ∈ is, OpusPacket (payload i)) (hwindow : InWindow last is) :
    ∃ calls b, readAudio a (is.map (packetOf payload)) = (calls, b, []) ∧
      calls.flatMap PlayerCall.inputs = (timeline last is).map (Slot.input payload) ∧
      Follows (newestAudios last is) b := by
  induction is generalizing a last with
  | nil => exact ⟨[], a, rfl, rfl, h⟩
  | cons i is ih =>
      obtain ⟨hfirst, hrest⟩ := (@inWindow_append last [i] is).mp hwindow
      obtain ⟨hcalls, hnext⟩ := onAudioDatagram_packet h (hopus i List.mem_cons_self) hfirst
      obtain ⟨more, b, hread, hmore, hb⟩ :=
        ih hnext (fun j hj => hopus j (List.mem_cons_of_mem i hj)) hrest
      refine ⟨(onAudioDatagram a (packetOf payload i)).1 ++ more, b, ?_, ?_, hb⟩
      · have hdatagram : ∃ x xs, packetOf payload i = x :: xs := ⟨_, _, rfl⟩
        obtain ⟨x, xs, hx⟩ := hdatagram
        rw [List.map_cons, hx, readAudio, ← hx]
        · exact congrArg (fun r => ((onAudioDatagram a (packetOf payload i)).1 ++ r.1, r.2)) hread
        · exact fun h => absurd h (List.cons_ne_nil x xs)
      · rw [List.flatMap_append, timeline, List.map_append, hmore]
        exact congrArg (· ++ _) hcalls

/-- The datagrams that come in. -/
def arrivals : List AudioEvent → List (List UInt8)
  | [] => []
  | .arrived datagram :: evs => datagram :: arrivals evs
  | .rendered _ :: evs => arrivals evs

/-- All calls of a run. -/
def callsOf (outputs : List AudioOutput) : List PlayerCall :=
  outputs.flatMap AudioOutput.calls

/-- What has been read was played in time; the rest waits in the socket. -/
structure Playing (payload : Nat → List UInt8) (last : Option Nat) (incoming : List Nat)
    (calls : List PlayerCall) (datagrams : List (List UInt8)) (read waiting : List Nat) : Prop where
  incoming_eq : incoming = read ++ waiting
  waiting_eq : datagrams = waiting.map (packetOf payload)
  inputs_eq :
    calls.flatMap PlayerCall.inputs = (timeline last read).map (Slot.input payload)

theorem AudioClient.playing
    {D : Type} (decode : OpusDecode D) {payload : Nat → List UInt8} {c : AudioClient D}
    {last : Option Nat} {waiting incoming : List Nat} {evs : List AudioEvent}
    (h : Follows last c.m_audioSequence)
    (hwaiting : c.m_audioReceiver = waiting.map (packetOf payload))
    (hincoming : arrivals evs = incoming.map (packetOf payload))
    (hopus : ∀ i ∈ waiting ++ incoming, OpusPacket (payload i))
    (hwindow : InWindow last (waiting ++ incoming)) :
    ∃ read left, Playing payload last (waiting ++ incoming)
      (callsOf (Run.outputs (AudioClient.step decode) c evs))
      (Run.final (AudioClient.step decode) c evs).m_audioReceiver read left := by
  induction evs generalizing c last waiting incoming with
  | nil =>
      have hnone : incoming = [] := List.map_eq_nil_iff.mp hincoming.symm
      subst hnone
      exact ⟨[], waiting, List.append_nil waiting, hwaiting, rfl⟩
  | cons ev evs ih =>
      cases ev with
      | arrived datagram =>
          obtain ⟨i, is, rfl, hi, his⟩ := List.map_eq_cons_iff.mp hincoming.symm
          have hsplit : waiting ++ i :: is = (waiting ++ [i]) ++ is := by simp
          rw [hsplit] at hopus hwindow ⊢
          refine @ih { c with m_audioReceiver := c.m_audioReceiver ++ [datagram] } last
            (waiting ++ [i]) is h ?_ his.symm hopus hwindow
          rw [hwaiting, List.map_append, ← hi]
          rfl
      | rendered answer =>
          obtain ⟨hwindowed, hrest⟩ := inWindow_append.mp hwindow
          obtain ⟨calls, b, hread, hinputs, hb⟩ := readAudio_packets h
            (fun i hi => hopus i (List.mem_append_left _ hi)) hwindowed
          rw [← hwaiting] at hread
          have hstep : c.step decode (.rendered answer) = c.receiveAudio decode answer := rfl
          have hcalls : (c.receiveAudio decode answer).1.calls = calls := by
            rw [receiveAudio, hread]
          have hsequence : (c.receiveAudio decode answer).2.m_audioSequence = b := by
            rw [receiveAudio, hread]
          have hsocket : (c.receiveAudio decode answer).2.m_audioReceiver = [] := by
            rw [receiveAudio, hread]
          obtain ⟨read, left, hplaying⟩ := @ih (c.receiveAudio decode answer).2
            (newestAudios last waiting) [] incoming (by rw [hsequence]; exact hb) hsocket
            hincoming (fun i hi => hopus i (List.mem_append_right _ hi)) hrest
          refine ⟨waiting ++ read, left, ?_, hplaying.waiting_eq, ?_⟩
          · rw [List.append_assoc, ← hplaying.incoming_eq, List.nil_append]
          · rw [Run.outputs_cons, hstep, callsOf, List.flatMap_cons, List.flatMap_append, hcalls,
              hinputs, timeline_append, List.map_append]
            exact congrArg _ hplaying.inputs_eq

/-! ### Slots and numbers -/

/-- The packets that are newer than all before them. -/
def inTime : Option Nat → List Nat → List Nat
  | _, [] => []
  | none, i :: is => i :: inTime (some i) is
  | some last, i :: is => if i ≤ last then inTime (some last) is else i :: inTime (some i) is

theorem lt_of_mem_inTime
    {last j : Nat} {is : List Nat} (h : j ∈ inTime (some last) is) :
    last < j := by
  induction is generalizing last with
  | nil => cases h
  | cons i is ih =>
      rw [inTime] at h
      split_ifs at h with hlate
      · exact ih h
      · rcases List.mem_cons.mp h with rfl | hmem
        · omega
        · have := ih hmem
          omega

theorem inTime_increasing
    (last : Option Nat) (is : List Nat) :
    (inTime last is).Pairwise (· < ·) := by
  induction is generalizing last with
  | nil => cases last <;> exact List.Pairwise.nil
  | cons i is ih =>
      have hcons : (i :: inTime (some i) is).Pairwise (· < ·) :=
        List.pairwise_cons.mpr ⟨fun j hj => lt_of_mem_inTime hj, ih (some i)⟩
      cases last with
      | none => exact hcons
      | some last =>
          rw [inTime]
          split_ifs
          · exact ih (some last)
          · exact hcons

/-- No more than 5 packets in a row are missing when the next one comes in. -/
def ShortGaps : Nat → List Nat → Prop
  | _, [] => True
  | last, i :: is => i ≤ last + 6 ∧ ShortGaps (max last i) is

instance decidableShortGaps :
    (last : Nat) → (is : List Nat) → Decidable (ShortGaps last is)
  | _, [] => inferInstanceAs (Decidable True)
  | last, i :: is =>
      have := decidableShortGaps (max last i) is
      inferInstanceAs (Decidable (i ≤ last + 6 ∧ ShortGaps (max last i) is))

/-- Packet `n`, if it comes in time. -/
def slotFor (played : List Nat) (n : Nat) : Slot :=
  if n ∈ played then .played n else .concealed

theorem le_foldl_max
    (last : Nat) (is : List Nat) :
    last ≤ is.foldl max last := by
  induction is generalizing last with
  | nil => exact Nat.le_refl last
  | cons i is ih => exact Nat.le_trans (Nat.le_max_left last i) (ih (max last i))

/-- One packet, and the gap before it. -/
theorem slotFor_gap
    {last i : Nat} (hnewer : last < i) (played : List Nat) (hplayed : ∀ j ∈ played, i < j) :
    (List.range' (last + 1) (i - last)).map (slotFor (i :: played)) =
      List.replicate (i - last - 1) .concealed ++ [.played i] := by
  have hsplit : List.range' (last + 1) (i - last) =
      List.range' (last + 1) (i - last - 1) ++ [i] := by
    have hcount : i - last = i - last - 1 + 1 := by omega
    have hend : last + 1 + 1 * (i - last - 1) = i := by omega
    conv_lhs => rw [hcount, List.range'_concat, hend]
  rw [hsplit, List.map_append, List.map_singleton]
  refine congrArg₂ (· ++ ·) ?_ ?_
  · rw [List.eq_replicate_iff]
    refine ⟨by simp, fun slot hslot => ?_⟩
    obtain ⟨n, hn, rfl⟩ := List.mem_map.mp hslot
    have hbelow : n < i := by
      have := List.mem_range'_1.mp hn
      omega
    have hmissing : n ∉ i :: played := by
      intro hmem
      rcases List.mem_cons.mp hmem with rfl | hlater
      · exact Nat.lt_irrefl n hbelow
      · exact Nat.lt_asymm hbelow (hplayed n hlater)
    exact if_neg hmissing
  · rw [slotFor, if_pos List.mem_cons_self]

/-- While the gaps are short there is a slot for every number. -/
theorem timeline_numbers
    {last : Nat} {is : List Nat} (h : ShortGaps last is) :
    timeline (some last) is =
      (List.range' (last + 1) (is.foldl max last - last)).map
        (slotFor (inTime (some last) is)) := by
  induction is generalizing last with
  | nil => simp [timeline]
  | cons i is ih =>
      obtain ⟨hgap, hrest⟩ := h
      have hnext := ih hrest
      by_cases hlate : i ≤ last
      · rw [Nat.max_eq_left hlate] at hnext
        simp only [timeline, slotsOf, inTime, newestAudio, if_pos hlate, List.foldl_cons,
          Nat.max_eq_left hlate, List.nil_append]
        exact hnext
      · have hnewer : last < i := Nat.not_le.mp hlate
        rw [Nat.max_eq_right (Nat.le_of_lt hnewer)] at hnext
        have hcap : min (i - last - 1) 5 = i - last - 1 := by omega
        have hle := le_foldl_max i is
        have hcount : is.foldl max i - last = i - last + (is.foldl max i - i) := by omega
        have hstart : last + 1 + (i - last) = i + 1 := by omega
        simp only [timeline, slotsOf, inTime, newestAudio, if_neg hlate, List.foldl_cons,
          Nat.max_eq_right (Nat.le_of_lt hnewer), hcap]
        rw [hcount, ← List.range'_append_1, List.map_append, hstart,
          slotFor_gap hnewer _ fun j hj => lt_of_mem_inTime hj, hnext]
        refine congrArg _ (List.map_congr_left fun n hn => ?_)
        have hafter : n ≠ i := by
          have := List.mem_range'_1.mp hn
          omega
        simp only [slotFor, List.mem_cons, hafter, false_or]

/-! ### From the capture to the decoder -/

theorem timeline_cons
    (first : Nat) (rest : List Nat) :
    timeline none (first :: rest) = .played first :: timeline (some first) rest :=
  rfl

/-- What comes in of the engine's packets are the packets of these numbers. -/
theorem arrivals_eq
    {payloads : List (List UInt8)} {datagrams : List (List UInt8)} {numbers : List Nat}
    (h : datagrams.map some = numbers.map ((payloads.mapIdx audioPacketAt)[·]?)) :
    datagrams = numbers.map (packetOf fun i => payloads.getD i []) ∧
      ∀ i ∈ numbers, i < payloads.length := by
  induction numbers generalizing datagrams with
  | nil =>
      have hnone : datagrams = [] := List.map_eq_nil_iff.mp h
      subst hnone
      exact ⟨rfl, fun i hi => absurd hi List.not_mem_nil⟩
  | cons i is ih =>
      obtain ⟨datagram, more, rfl, hdatagram, hmore⟩ := List.map_eq_cons_iff.mp h
      obtain ⟨hrest, hbound⟩ := ih hmore
      simp only [List.getElem?_mapIdx] at hdatagram
      have hi : i < payloads.length := by
        by_contra hout
        rw [List.getElem?_eq_none (Nat.not_lt.mp hout)] at hdatagram
        cases hdatagram
      rw [List.getElem?_eq_getElem hi, Option.map_some, Option.some.injEq] at hdatagram
      refine ⟨?_, fun j hj => ?_⟩
      · have hpayload : payloads.getD i [] = payloads[i] := by
          rw [List.getD_eq_getElem?_getD, List.getElem?_eq_getElem hi, Option.getD_some]
        rw [List.map_cons, ← hrest, packetOf, hpayload, hdatagram]
      · rcases List.mem_cons.mp hj with rfl | hj
        · exact hi
        · exact hbound j hj

theorem mem_of_mem_inTime
    {last : Option Nat} {j : Nat} {is : List Nat} (h : j ∈ inTime last is) :
    j ∈ is := by
  induction is generalizing last with
  | nil => cases last <;> cases h
  | cons i is ih =>
      have hcons : j ∈ i :: inTime (some i) is → j ∈ i :: is := by
        intro hmem
        rcases List.mem_cons.mp hmem with rfl | hlater
        · exact List.mem_cons_self
        · exact List.mem_cons_of_mem i (ih hlater)
      cases last with
      | none => exact hcons h
      | some last =>
          rw [inTime] at h
          split_ifs at h
          · exact List.mem_cons_of_mem i (ih h)
          · exact hcons h

/-- While the gaps are short there is a slot for every number from the first one on. -/
theorem timeline_first
    {first : Nat} {rest : List Nat} (h : ShortGaps first rest) :
    timeline none (first :: rest) =
      (List.range' first (rest.foldl max first - first + 1)).map
        (slotFor (inTime none (first :: rest))) := by
  rw [timeline_cons, timeline_numbers h, List.range'_succ, List.map_cons]
  refine congrArg₂ List.cons (if_pos List.mem_cons_self).symm (List.map_congr_left fun n hn => ?_)
  have hafter : n ≠ first := by
    have := List.mem_range'_1.mp hn
    omega
  simp only [slotFor, inTime, List.mem_cons, hafter, false_or]

/-! ### What the decoder is asked for -/

/-- A decoder that keeps what it was asked for. -/
def recorded {D : Type} (opus : OpusDecode D) : OpusDecode (List (Option (List UInt8)) × D) :=
  fun decoder data =>
    let r := opus decoder.2 data
    (r.1, decoder.1 ++ [data], r.2)

namespace AudioPlayer

variable {D : Type} (opus : OpusDecode D)

/-- The player with a decoder that has not been asked for anything. -/
def recording (p : AudioPlayer D) : AudioPlayer (List (Option (List UInt8)) × D) :=
  { p with m_opusDecoder := ([], p.m_opusDecoder) }

/-- The player without the record. -/
def plain (p : AudioPlayer (List (Option (List UInt8)) × D)) : AudioPlayer D :=
  { p with m_opusDecoder := p.m_opusDecoder.2 }

/-- `opus_decode` can always conceal a lost packet. -/
def Conceals : Prop :=
  ∀ decoder, (opus decoder none).1 ≠ none

theorem plain_concealLoss
    (p : AudioPlayer (List (Option (List UInt8)) × D)) (packets : Nat) :
    (p.concealLoss (recorded opus) packets).plain = p.plain.concealLoss opus packets := by
  induction packets generalizing p with
  | zero => rfl
  | succ packets ih =>
      simp only [concealLoss, recorded, plain]
      rcases opus p.m_opusDecoder.2 none with ⟨_ | decoded, decoder⟩
      · rfl
      · exact ih _

/-- The record changes nothing. -/
theorem plain_call
    (p : AudioPlayer (List (Option (List UInt8)) × D)) (call : PlayerCall) :
    (p.call (recorded opus) call).plain = p.plain.call opus call := by
  cases call with
  | concealLoss packets => exact plain_concealLoss opus p packets
  | submitOpusPacket data =>
      simp only [AudioPlayer.call, submitOpusPacket, recorded, plain]
      rcases opus p.m_opusDecoder.2 (some data) with ⟨_ | decoded, decoder⟩
      · rfl
      · rfl

variable {opus}

theorem record_concealLoss
    (h : Conceals opus) (p : AudioPlayer (List (Option (List UInt8)) × D)) (packets : Nat) :
    (p.concealLoss (recorded opus) packets).m_opusDecoder.1 =
      p.m_opusDecoder.1 ++ List.replicate packets none := by
  induction packets generalizing p with
  | zero => exact (List.append_nil _).symm
  | succ packets ih =>
      have hconceals := h p.m_opusDecoder.2
      simp only [concealLoss, recorded]
      rcases hr : opus p.m_opusDecoder.2 none with ⟨_ | decoded, decoder⟩
      · rw [hr] at hconceals
        exact absurd rfl hconceals
      · refine (ih _).trans ?_
        change p.m_opusDecoder.1 ++ [none] ++ _ = _
        rw [List.append_assoc, List.replicate_succ, List.singleton_append]

/-- A call asks the decoder for a packet, or for as many concealed ones as it says. -/
theorem record_call
    (h : Conceals opus) (p : AudioPlayer (List (Option (List UInt8)) × D)) (call : PlayerCall) :
    (p.call (recorded opus) call).m_opusDecoder.1 = p.m_opusDecoder.1 ++ call.inputs := by
  cases call with
  | concealLoss packets => exact record_concealLoss h p packets
  | submitOpusPacket data =>
      simp only [AudioPlayer.call, submitOpusPacket, recorded]
      rcases opus p.m_opusDecoder.2 (some data) with ⟨_ | decoded, decoder⟩
      · rfl
      · rfl

theorem record_calls
    (h : Conceals opus) (p : AudioPlayer (List (Option (List UInt8)) × D))
    (calls : List PlayerCall) :
    (calls.foldl (AudioPlayer.call (recorded opus)) p).m_opusDecoder.1 =
      p.m_opusDecoder.1 ++ calls.flatMap PlayerCall.inputs := by
  induction calls generalizing p with
  | nil => exact (List.append_nil _).symm
  | cons call calls ih =>
      rw [List.foldl_cons, ih, record_call h, List.flatMap_cons, List.append_assoc]

end AudioPlayer

namespace AudioClient

section Record

variable {D : Type} (opus : OpusDecode D)

/-- The client with a decoder that keeps what it is asked for. -/
def recording (c : AudioClient D) : AudioClient (List (Option (List UInt8)) × D) :=
  { c with m_audioPlayer := c.m_audioPlayer.recording }

/-- The client without the record. -/
def plain (c : AudioClient (List (Option (List UInt8)) × D)) : AudioClient D :=
  { c with m_audioPlayer := c.m_audioPlayer.plain }

theorem plain_calls
    (p : AudioPlayer (List (Option (List UInt8)) × D)) (calls : List PlayerCall) :
    (calls.foldl (AudioPlayer.call (recorded opus)) p).plain =
      calls.foldl (AudioPlayer.call opus) p.plain := by
  induction calls generalizing p with
  | nil => rfl
  | cons call calls ih => rw [List.foldl_cons, ih, AudioPlayer.plain_call, List.foldl_cons]

theorem plain_pump
    (p : AudioPlayer (List (Option (List UInt8)) × D)) (answer : WriteAnswer) :
    (p.pump answer).2.plain = (p.plain.pump answer).2 ∧
      (p.pump answer).2.m_opusDecoder = p.m_opusDecoder := by
  unfold AudioPlayer.pump AudioPlayer.plain
  simp only
  split_ifs
  · exact ⟨rfl, rfl⟩
  · cases answer with
    | failed => exact ⟨rfl, rfl⟩
    | room frames => exact ⟨rfl, rfl⟩

/-- A step does the same with the record and without. -/
theorem plain_step
    (c : AudioClient (List (Option (List UInt8)) × D)) (ev : AudioEvent) :
    (c.step (recorded opus) ev).2.plain = (c.plain.step opus ev).2 := by
  cases ev with
  | arrived datagram => rfl
  | rendered answer =>
      have hcalls := plain_calls opus c.m_audioPlayer
        (readAudio c.m_audioSequence c.m_audioReceiver).1
      have hpump := (plain_pump ((readAudio c.m_audioSequence c.m_audioReceiver).1.foldl
        (AudioPlayer.call (recorded opus)) c.m_audioPlayer) answer).1
      rw [hcalls] at hpump
      simp only [step, receiveAudio, plain] at hpump ⊢
      rw [hpump]

variable {opus}

/-- A step asks the decoder for what its calls say. -/
theorem record_step
    (h : AudioPlayer.Conceals opus) (c : AudioClient (List (Option (List UInt8)) × D))
    (ev : AudioEvent) :
    (c.step (recorded opus) ev).2.m_audioPlayer.m_opusDecoder.1 =
      c.m_audioPlayer.m_opusDecoder.1 ++
        (c.step (recorded opus) ev).1.calls.flatMap PlayerCall.inputs := by
  cases ev with
  | arrived datagram => exact (List.append_nil _).symm
  | rendered answer =>
      have hpump := (plain_pump ((readAudio c.m_audioSequence c.m_audioReceiver).1.foldl
        (AudioPlayer.call (recorded opus)) c.m_audioPlayer) answer).2
      exact (congrArg Prod.fst hpump).trans (AudioPlayer.record_calls h _ _)

theorem record_run
    (h : AudioPlayer.Conceals opus) (c : AudioClient (List (Option (List UInt8)) × D))
    (evs : List AudioEvent) :
    (Run.final (step (recorded opus)) c evs).m_audioPlayer.m_opusDecoder.1 =
      c.m_audioPlayer.m_opusDecoder.1 ++
        (callsOf (Run.outputs (step (recorded opus)) c evs)).flatMap PlayerCall.inputs := by
  induction evs generalizing c with
  | nil => exact (List.append_nil _).symm
  | cons ev evs ih =>
      rw [Run.final_cons, ih, record_step h, Run.outputs_cons, callsOf, callsOf,
        List.flatMap_cons, List.flatMap_append, List.append_assoc]

end Record

/-- What `opus_decode` has been asked for in a run: packets, and concealed ones. -/
def decoderInputs {D : Type} (decode : OpusDecode D) (c : AudioClient D) (evs : List AudioEvent) :
    List (Option (List UInt8)) :=
  (Run.final (step (recorded decode)) c.recording evs).m_audioPlayer.m_opusDecoder.1

/-- The packets of a run that do not wait in the socket, by their numbers. -/
def readNumbers {D : Type} (decode : OpusDecode D) (c : AudioClient D) (evs : List AudioEvent)
    (numbers : List Nat) : List Nat :=
  numbers.take (numbers.length - (Run.final (step decode) c evs).m_audioReceiver.length)

/--
**Audio in time.**  A session starts.  The engine cuts captured samples into packets,
however they come, and the network loses, repeats and reorders these; none is more than 50
packets behind the newest one or 32768 ahead of it.  At any moment, the headset's decoder
has been given each packet that was newer than all before it, in the order of the full
numbers, and at most 5 concealed ones for a gap.  As long as no gap is longer, it has been
given one thing for every number from the first on: the packet, or a concealed one if it
has not come in time.  The decoder is assumed never to fail to conceal a packet.
-/
theorem audio_in_time
    {E D : Type} (encode : OpusEncode E) (encoder : E) (chunks : List (List F32))
    (decode : OpusDecode D) (c : AudioClient D) (evs : List AudioEvent) (numbers : List Nat)
    (hsocket : c.m_audioReceiver = [])
    (harrivals : (arrivals evs).map some =
      numbers.map ((AudioTask.sentPackets encode encoder chunks)[·]?))
    (hopus : ∀ data ∈ opusPayloads encode encoder (opusFrames chunks.flatten), OpusPacket data)
    (hconceals : AudioPlayer.Conceals decode) (hwindow : InWindow none numbers) :
    let started := c.handleStreaming
    let payloads := opusPayloads encode encoder (opusFrames chunks.flatten)
    let read := started.readNumbers decode evs numbers
    started.decoderInputs decode evs =
        (timeline none read).map (Slot.input fun i => payloads.getD i []) ∧
      (inTime none read).Pairwise (· < ·) ∧
      ∀ first rest, read = first :: rest → ShortGaps first rest →
        started.decoderInputs decode evs =
          (List.range' first (rest.foldl max first - first + 1)).map fun n =>
            if n ∈ inTime none read then payloads[n]? else none := by
  intro started payloads read
  rw [AudioTask.sentPackets_numbered] at harrivals
  obtain ⟨hdatagrams, hbound⟩ := arrivals_eq harrivals
  have hpayload : ∀ i ∈ numbers, payloads[i]? = some (payloads.getD i []) := by
    intro i hi
    rw [List.getD_eq_getElem?_getD, List.getElem?_eq_getElem (hbound i hi), Option.getD_some]
  have hpackets : ∀ i ∈ [] ++ numbers, OpusPacket (payloads.getD i []) :=
    fun i hi => hopus _ (List.mem_of_getElem? (hpayload i hi))
  obtain ⟨consumed, left, hincoming, hleft, hinputs⟩ :=
    @AudioClient.playing _ (recorded decode) (fun i => payloads.getD i []) started.recording none []
      numbers evs rfl hsocket hdatagrams hpackets hwindow
  have hplain := Run.final_map (step (recorded decode)) (step decode) plain (plain_step decode)
    started.recording evs
  have hasked : started.decoderInputs decode evs = _ :=
    record_run hconceals started.recording evs
  change _ = [] ++ _ at hasked
  rw [List.nil_append, hinputs] at hasked
  have hread : read = consumed := by
    have hlength := congrArg List.length hleft
    have htotal := congrArg List.length hincoming
    rw [List.length_map] at hlength
    rw [List.nil_append, List.length_append] at htotal
    have hsocketLeft : (Run.final (step decode) started evs).m_audioReceiver.length = left.length :=
      (congrArg (fun c => c.m_audioReceiver.length) hplain).symm.trans hlength
    change numbers.take (numbers.length - _) = consumed
    rw [List.nil_append] at hincoming
    rw [hsocketLeft, htotal, Nat.add_sub_cancel, hincoming, List.take_left']
    rfl
  subst hread
  refine ⟨hasked, inTime_increasing none read, ?_⟩
  intro first rest hfirst hgaps
  have hslots := timeline_first hgaps
  rw [← hfirst] at hslots
  rw [hasked, hslots, List.map_map]
  refine List.map_congr_left fun n hn => ?_
  by_cases hn : n ∈ inTime none read
  · have hmem : n ∈ numbers := List.mem_of_mem_take (mem_of_mem_inTime hn)
    rw [Function.comp_apply, slotFor, if_pos hn, if_pos hn, hpayload n hmem]
    rfl
  · rw [Function.comp_apply, slotFor, if_neg hn, if_neg hn]
    rfl

/-- An encoder whose packets have their number behind the first byte. -/
def countingEncode : OpusEncode Nat :=
  fun n _ => (some [0xF4, UInt8.ofNat n], n + 1)

/-- A decoder that gives 10 ms of silence. -/
def silentDecode : OpusDecode Unit :=
  fun decoder _ => (some (List.replicate 960 0), decoder)

/-- A headset that has played 500 packets of an earlier session. -/
def reconnected : AudioClient Unit :=
  { m_audioSequence := { m_started := true, m_last := 499 }
    m_audioPlayer := { m_opusDecoder := () } }

/-- Packets 0, 2, 1 and 3 come in; the headset reads twice. -/
def reordered : List AudioEvent :=
  [.arrived (audioPacketAt 0 [0xF4, 0]), .rendered (.room 480),
    .arrived (audioPacketAt 2 [0xF4, 2]), .arrived (audioPacketAt 1 [0xF4, 1]),
    .arrived (audioPacketAt 3 [0xF4, 3]), .rendered (.room 960)]

theorem countingEncode_payloads :
    opusPayloads countingEncode 0
        (opusFrames [List.replicate 3000 (f32 0 1), List.replicate 900 (f32 0 1)].flatten) =
      [[0xF4, 0], [0xF4, 1], [0xF4, 2], [0xF4, 3]] := by
  have hlength : [List.replicate 3000 (f32 0 1), List.replicate 900 (f32 0 1)].flatten.length /
      STEREO_FRAME_SIZE = 4 := by
    rw [List.flatten_cons, List.flatten_cons, List.flatten_nil, List.append_nil,
      List.length_append, List.length_replicate, List.length_replicate]
    rfl
  rw [opusFrames, hlength]
  rfl

theorem audio_in_time_reordered :
    decoderInputs silentDecode reconnected.handleStreaming reordered =
      [some [0xF4, 0], none, some [0xF4, 2], some [0xF4, 3]] := by
  have hread : readNumbers silentDecode reconnected.handleStreaming reordered [0, 2, 1, 3] =
      [0, 2, 1, 3] := by
    decide +kernel
  have htime := audio_in_time countingEncode 0
    [List.replicate 3000 (f32 0 1), List.replicate 900 (f32 0 1)]
    silentDecode reconnected reordered [0, 2, 1, 3] rfl
    (by rw [AudioTask.sentPackets_numbered, countingEncode_payloads]; rfl)
    (by
      rw [countingEncode_payloads]
      intro data hdata
      fin_cases hdata <;> exact ⟨by decide, by decide⟩)
    (fun _ => Option.some_ne_none _) (by decide)
  simp only [hread, countingEncode_payloads] at htime
  exact htime.1

end AudioClient

end Client
end FocusVision
