import FocusVision.Client.FrameAssembler
import FocusVision.Engine.Rtp

/-!
# The two readers of a packet header

The client's `parseFvpHeader` and the engine's `read_fvp_header` and `is_valid`
read the same header and accept the same packets, and they find the same fields in
the flags.
-/

namespace FocusVision
namespace Client

open Bytes

/-- Bytes are joined by `|` as by `+`. -/
theorem or_shiftLeft_eq
    {a : Nat} {k : Nat} (ha : a < 2 ^ k) (b : Nat) :
    a ||| b <<< k = a + 2 ^ k * b := by
  rw [Nat.or_comm, ← Nat.shiftLeft_add_eq_or_of_lt ha, Nat.shiftLeft_eq]
  ring

theorem byteAt_add
    {p rest : List UInt8} {offset : Nat} (h : p.drop offset = rest) (i : Nat) :
    byteAt p (offset + i) = (rest.getD i 0).toNat := by
  rw [← h]
  simp [byteAt, List.getD_eq_getElem?_getD]

theorem exists_drop_two
    {p : List UInt8} {offset : Nat} (h : offset + 2 ≤ p.length) :
    ∃ a b rest, p.drop offset = a :: b :: rest := by
  have hlen : (p.drop offset).length = p.length - offset := List.length_drop
  match hd : p.drop offset, hlen with
  | [], hlen => simp only [List.length_nil] at hlen; omega
  | [_], hlen => simp only [List.length_singleton] at hlen; omega
  | a :: b :: rest, _ => exact ⟨a, b, rest, rfl⟩

theorem readU16Le_eq
    {p : List UInt8} {offset : Nat} (h : offset + 2 ≤ p.length) :
    readU16Le p offset = Engine.readU16Le p offset := by
  obtain ⟨a, b, rest, hdrop⟩ := exists_drop_two h
  have h0 := byteAt_add hdrop 0
  have h1 := byteAt_add hdrop 1
  simp only [Nat.add_zero] at h0
  unfold readU16Le Engine.readU16Le
  rw [hdrop, h0, h1]
  have ha : a.toNat < 2 ^ 8 := a.toNat_lt
  simp [or_shiftLeft_eq ha, ofLeBytes]

theorem readU32Le_eq
    {p : List UInt8} {offset : Nat} (h : offset + 4 ≤ p.length) :
    readU32Le p offset = Engine.readU32Le p offset := by
  obtain ⟨a, b, low, hdrop⟩ := exists_drop_two (show offset + 2 ≤ p.length by omega)
  obtain ⟨c, d, rest, hhigh⟩ := exists_drop_two (show offset + 2 + 2 ≤ p.length by omega)
  have hlow : low = c :: d :: rest := by
    rw [← hhigh, ← List.drop_drop, hdrop]
    rfl
  subst hlow
  have h0 := byteAt_add hdrop 0
  have h1 := byteAt_add hdrop 1
  have h2 := byteAt_add hdrop 2
  have h3 := byteAt_add hdrop 3
  simp only [Nat.add_zero] at h0
  unfold readU32Le Engine.readU32Le
  rw [hdrop, h0, h1, h2, h3]
  have ha : a.toNat < 2 ^ 8 := a.toNat_lt
  have hb : b.toNat < 2 ^ 8 := b.toNat_lt
  have hc : c.toNat < 2 ^ 8 := c.toNat_lt
  have hab : a.toNat + 2 ^ 8 * b.toNat < 2 ^ 16 := by omega
  have habc : a.toNat + 2 ^ 8 * b.toNat + 2 ^ 16 * c.toNat < 2 ^ 24 := by omega
  simp only [List.getD_cons_zero, List.getD_cons_succ, or_shiftLeft_eq ha,
    or_shiftLeft_eq hab, or_shiftLeft_eq habc]
  simp only [List.take_succ_cons, List.take_zero, ofLeBytes]
  congr 1
  omega

/-- The engine's header, as the client sees it. -/
def FvpHeaderView.of (h : Engine.FvpHeader) : FvpHeaderView :=
  { frameIndex := h.frameIndex
    shardIndex := h.shardIndex
    totalShards := h.shardCount
    flags := h.flags
    dataShards := h.dataShardCount }

/-- The client's checks of the counts are `is_valid`. -/
theorem isValid_iff
    (h : Engine.FvpHeader) :
    h.isValid = true ↔
      ¬(h.shardCount = 0 ∨ h.shardCount > MAX_FRAME_SHARDS) ∧
        ¬h.shardIndex ≥ h.shardCount ∧
        ¬(h.dataShardCount = 0 ∨ h.dataShardCount > h.shardCount) := by
  have hmax : MAX_FRAME_SHARDS.toNat = 4096 := rfl
  have hzero : (0 : UInt16).toNat = 0 := rfl
  unfold Engine.FvpHeader.isValid
  simp only [decide_eq_true_eq, Engine.MAX_FRAME_SHARDS, UInt16.lt_iff_toNat_lt,
    UInt16.le_iff_toNat_le, ← UInt16.toNat_inj, hmax, hzero, gt_iff_lt, ge_iff_le]
  omega

theorem checks_eq
    (h : Engine.FvpHeader) :
    (if h.shardCount = 0 ∨ h.shardCount > MAX_FRAME_SHARDS then none
      else if h.shardIndex ≥ h.shardCount then none
      else if h.dataShardCount = 0 ∨ h.dataShardCount > h.shardCount then none
      else some (FvpHeaderView.of h)) =
      ((some h).filter Engine.FvpHeader.isValid).map .of := by
  rw [Option.filter_some]
  by_cases hok : h.isValid = true
  · obtain ⟨hcount, hindex, hdata⟩ := (isValid_iff h).mp hok
    rw [if_neg hcount, if_neg hindex, if_neg hdata, if_pos hok]
    rfl
  · rw [if_neg hok, Option.map_none]
    split_ifs with hcount hindex hdata
    · rfl
    · rfl
    · rfl
    · exact absurd ((isValid_iff h).mpr ⟨hcount, hindex, hdata⟩) hok

/-- **The header.**  Client and engine accept the same packets, with the same fields. -/
theorem parseFvpHeader_eq
    (packet : List UInt8) :
    parseFvpHeader packet =
      ((Engine.readFvpHeader packet).filter Engine.FvpHeader.isValid).map .of := by
  have hheader : Engine.PACKET_HEADER_LEN = PACKET_HEADER_LEN := rfl
  unfold parseFvpHeader Engine.readFvpHeader
  rw [hheader]
  by_cases hshort : packet.length < PACKET_HEADER_LEN
  · rw [if_pos hshort, if_pos hshort]
    rfl
  · rw [if_neg hshort, if_neg hshort]
    have hlen : 12 ≤ (packet.drop RTP_HEADER_LEN).length := by
      rw [List.length_drop]
      unfold PACKET_HEADER_LEN RTP_HEADER_LEN FVP_HEADER_LEN at *
      omega
    have hrtp : Engine.RTP_HEADER_LEN = RTP_HEADER_LEN := rfl
    rw [hrtp]
    simp only
    rw [readU32Le_eq (by omega), readU16Le_eq (by omega), readU16Le_eq (by omega),
      readU16Le_eq (by omega), readU16Le_eq (by omega)]
    exact checks_eq
      { frameIndex := Engine.readU32Le (packet.drop RTP_HEADER_LEN) 0
        shardIndex := Engine.readU16Le (packet.drop RTP_HEADER_LEN) 4
        shardCount := Engine.readU16Le (packet.drop RTP_HEADER_LEN) 6
        flags := Engine.readU16Le (packet.drop RTP_HEADER_LEN) 8
        dataShardCount := Engine.readU16Le (packet.drop RTP_HEADER_LEN) 10 }

/-- Both find the same fields in the flags. -/
theorem flags_eq
    (flags : UInt16) :
    FvpFlags.isKeyframe flags = Engine.FvpFlags.isKeyframe flags ∧
      FvpFlags.sliceIndex flags = Engine.FvpFlags.sliceIndex flags ∧
      FvpFlags.sliceCount flags = Engine.FvpFlags.sliceCount flags := by
  have hfield : ∀ k mask : UInt16, (mask <<< k) >>> k = mask →
      (flags >>> k) &&& mask = (flags &&& (mask <<< k)) >>> k := by
    intro k mask h
    rw [UInt16.shiftRight_and, h]
  refine ⟨rfl, ?_, ?_⟩
  · exact congrArg UInt16.toUInt8 (hfield 1 0xF (by decide))
  · exact congrArg UInt16.toUInt8 (hfield 5 0xF (by decide))

end Client
end FocusVision
