import FocusVision.Client.LaunchRequest

/-!
# The grammar of a launch request

What the parsers of a launch request accept, as texts; and that the request takes the
last value of each key.
-/

namespace FocusVision
namespace Client

open Decimal KeyedLines Utf8

/-! ### The texts of the values -/

/-- Six digits. -/
def PinText (s : List UInt8) (pin : UInt32) : Prop :=
  s.length = 6 ∧ (∀ c ∈ s, IsDigit c) ∧ pin.toNat = numberOf s

/-- One to five digits with a value from 1 to 65535. -/
def PortText (s : List UInt8) (port : UInt16) : Prop :=
  s ≠ [] ∧ s.length ≤ 5 ∧ (∀ c ∈ s, IsDigit c) ∧ port.toNat = numberOf s ∧ 1 ≤ port.toNat

/-- A port that leaves room for the three ports above it. -/
def UdpPortText (s : List UInt8) (port : UInt16) : Prop :=
  PortText s port ∧ port.toNat ≤ 65532

/-- One to three digits with a value up to 255. -/
def OctetText (s : List UInt8) : Prop :=
  s ≠ [] ∧ s.length ≤ 3 ∧ (∀ c ∈ s, IsDigit c) ∧ numberOf s ≤ 255

/-- Four octets with dots between them. -/
def DottedQuad (ip : List UInt8) : Prop :=
  ∃ a b c d, ip = a ++ 0x2E :: (b ++ 0x2E :: (c ++ 0x2E :: d)) ∧
    OctetText a ∧ OctetText b ∧ OctetText c ∧ OctetText d

/-- An address, with a port or the default one. -/
def ServerText (s : List UInt8) (server : ServerEndpoint) : Prop :=
  DottedQuad server.ip ∧
    (s = server.ip ∧ server.port = DEFAULT_CONTROL_PORT ∨
      ∃ port, s = server.ip ++ 0x3A :: port ∧ PortText port server.port)

theorem parsePin_iff
    {s : List UInt8} {pin : UInt32} :
    parsePin s = some pin ↔ PinText s pin := by
  unfold parsePin PinText
  split_ifs with hlength
  · exact iff_of_false (fun h => by cases h) fun h => hlength h.1
  · rw [readLoop_zero (by omega)]
    exact ⟨fun h => ⟨not_not.mp hlength, h⟩, fun h => h.2⟩

theorem parsePort_iff
    {s : List UInt8} {port : UInt16} :
    parsePort s = some port ↔ PortText s port := by
  unfold parsePort PortText
  have hshape : (s.isEmpty || decide (s.length > 5)) = true ↔ s = [] ∨ 5 < s.length := by simp
  by_cases hbad : s = [] ∨ 5 < s.length
  · rw [if_pos (hshape.mpr hbad)]
    refine iff_of_false (fun h => by cases h) ?_
    rintro ⟨hne, hlength, -⟩
    exact hbad.elim hne (Nat.not_lt.mpr hlength)
  · rw [if_neg fun h => hbad (hshape.mp h)]
    obtain ⟨hne, hlength⟩ := not_or.mp hbad
    by_cases hdigits : ∀ c ∈ s, IsDigit c
    · obtain ⟨v, hread, hv⟩ := exists_readLoop (by omega) hdigits
      have hrange : (v == 0 || decide (v > 65535)) = true ↔ v.toNat = 0 ∨ 65535 < v.toNat := by
        rw [Bool.or_eq_true, beq_iff_eq, decide_eq_true_eq, ← UInt32.toNat_inj]
        exact or_congr Iff.rfl UInt32.lt_iff_toNat_lt
      rw [hread]
      simp only
      by_cases hout : v.toNat = 0 ∨ 65535 < v.toNat
      · rw [if_pos (hrange.mpr hout)]
        refine iff_of_false (fun h => by cases h) ?_
        rintro ⟨-, -, -, hvalue, hpos⟩
        have hlt := port.toNat_lt
        omega
      · rw [if_neg fun h => hout (hrange.mp h), Option.some.injEq]
        have hword : v.toUInt16.toNat = v.toNat := by
          rw [UInt32.toNat_toUInt16]
          omega
        constructor
        · rintro rfl
          exact ⟨hne, by omega, hdigits, by omega, by omega⟩
        · rintro ⟨-, -, -, hvalue, -⟩
          refine UInt16.toNat_inj.mp ?_
          omega
    · rw [readLoop_eq_none (by omega) hdigits]
      exact iff_of_false (fun h => by cases h) fun h => hdigits h.2.2.1

theorem parseOctet_iff
    {s : List UInt8} :
    (∃ octet, parseOctet s = some octet) ↔ OctetText s := by
  unfold parseOctet OctetText
  have hshape : (s.isEmpty || decide (s.length > 3)) = true ↔ s = [] ∨ 3 < s.length := by simp
  by_cases hbad : s = [] ∨ 3 < s.length
  · rw [if_pos (hshape.mpr hbad)]
    refine iff_of_false (fun ⟨_, h⟩ => by cases h) ?_
    rintro ⟨hne, hlength, -⟩
    exact hbad.elim hne (Nat.not_lt.mpr hlength)
  · rw [if_neg fun h => hbad (hshape.mp h)]
    obtain ⟨hne, hlength⟩ := not_or.mp hbad
    by_cases hdigits : ∀ c ∈ s, IsDigit c
    · obtain ⟨v, hread, hv⟩ := exists_readLoop (by omega) hdigits
      have hmax : v > 255 ↔ 255 < v.toNat := UInt32.lt_iff_toNat_lt
      rw [hread]
      simp only
      by_cases hout : v > 255
      · rw [if_pos hout]
        refine iff_of_false (fun ⟨_, h⟩ => by cases h) ?_
        rintro ⟨-, -, -, hvalue⟩
        have hlt := hmax.mp hout
        omega
      · rw [if_neg hout]
        have hle := mt hmax.mpr hout
        exact iff_of_true ⟨_, rfl⟩ ⟨hne, by omega, hdigits, by omega⟩
    · rw [readLoop_eq_none (by omega) hdigits]
      exact iff_of_false (fun ⟨_, h⟩ => by cases h) fun h => hdigits h.2.2.1

theorem octetLoop_iff
    {octets n : Nat} {parts : List (List UInt8)} :
    octetLoop octets parts = some n ↔
      (∀ part ∈ parts, OctetText part) ∧ n = octets + parts.length := by
  induction parts generalizing octets with
  | nil =>
      simp [octetLoop, eq_comm]
  | cons part rest ih =>
      unfold octetLoop
      cases hpart : parseOctet part with
      | none =>
          refine iff_of_false (fun h => by cases h) ?_
          rintro ⟨h, -⟩
          obtain ⟨octet, hoctet⟩ := parseOctet_iff.mpr (h part List.mem_cons_self)
          rw [hpart] at hoctet
          cases hoctet
      | some octet =>
          have htext : OctetText part := parseOctet_iff.mp ⟨octet, hpart⟩
          simp only
          rw [ih, List.forall_mem_cons, List.length_cons]
          refine and_congr ⟨fun h => ⟨htext, h⟩, fun h => h.2⟩ ?_
          omega

/-! ### The address -/

theorem not_mem_of_octet
    {s : List UInt8} (h : OctetText s) {c : UInt8} (hc : ¬IsDigit c) :
    c ∉ s :=
  fun hmem => hc (h.2.2.1 c hmem)

theorem splitOn_quad
    {a b c d : List UInt8} (ha : 0x2E ∉ a) (hb : 0x2E ∉ b) (hc : 0x2E ∉ c) (hd : 0x2E ∉ d) :
    (a ++ 0x2E :: (b ++ 0x2E :: (c ++ 0x2E :: d))).splitOn 0x2E = [a, b, c, d] := by
  rw [List.splitOn_append_cons_self_of_not_mem ha, List.splitOn_append_cons_self_of_not_mem hb,
    List.splitOn_append_cons_self_of_not_mem hc, List.splitOn_eq_singleton hd]

theorem eq_of_splitOn
    {ip a b c d : List UInt8} (h : ip.splitOn 0x2E = [a, b, c, d]) :
    ip = a ++ 0x2E :: (b ++ 0x2E :: (c ++ 0x2E :: d)) := by
  rw [← @List.intercalate_splitOn _ ip _ _ 0x2E, h]
  simp [List.intercalate]

theorem dottedQuad_iff
    {ip : List UInt8} :
    DottedQuad ip ↔ (∀ part ∈ ip.splitOn 0x2E, OctetText part) ∧ (ip.splitOn 0x2E).length = 4 := by
  constructor
  · rintro ⟨a, b, c, d, rfl, ha, hb, hc, hd⟩
    have hdot : ¬IsDigit 0x2E := by decide
    rw [splitOn_quad (not_mem_of_octet ha hdot) (not_mem_of_octet hb hdot)
      (not_mem_of_octet hc hdot) (not_mem_of_octet hd hdot)]
    refine ⟨?_, rfl⟩
    simp only [List.forall_mem_cons]
    exact ⟨ha, hb, hc, hd, fun _ h => absurd h List.not_mem_nil⟩
  · rintro ⟨hparts, hlength⟩
    obtain ⟨a, b, c, d, hsplit⟩ := List.length_eq_four.mp hlength
    rw [hsplit] at hparts
    simp only [List.forall_mem_cons] at hparts
    obtain ⟨ha, hb, hc, hd, -⟩ := hparts
    exact ⟨a, b, c, d, eq_of_splitOn hsplit, ha, hb, hc, hd⟩

theorem parseHost_iff
    {host : List UInt8} {port : UInt16} {server : ServerEndpoint} :
    parseHost host port = some server ↔ DottedQuad host ∧ server = { ip := host, port } := by
  unfold parseHost
  rw [dottedQuad_iff]
  cases hloop : octetLoop 0 (host.splitOn 0x2E) with
  | none =>
      refine iff_of_false (fun h => by cases h) ?_
      rintro ⟨⟨hparts, -⟩, -⟩
      have hsome := (@octetLoop_iff 0 _ _).mpr ⟨hparts, rfl⟩
      rw [hloop] at hsome
      cases hsome
  | some octets =>
      obtain ⟨hparts, hoctets⟩ := octetLoop_iff.mp hloop
      simp only
      split_ifs with hfour
      · refine iff_of_false (fun h => by cases h) ?_
        rintro ⟨⟨-, hlength⟩, -⟩
        omega
      · rw [Option.some.injEq]
        exact ⟨fun h => ⟨⟨hparts, by omega⟩, h.symm⟩, fun h => h.2.symm⟩

theorem not_mem_quad
    {ip : List UInt8} (h : DottedQuad ip) {c : UInt8} (hc : ¬IsDigit c) (hdot : c ≠ 0x2E) :
    c ∉ ip := by
  obtain ⟨a, b, c', d, rfl, ha, hb, hc', hd⟩ := h
  simp only [List.mem_append, List.mem_cons, not_or]
  exact ⟨not_mem_of_octet ha hc, hdot, not_mem_of_octet hb hc, hdot, not_mem_of_octet hc' hc, hdot,
    not_mem_of_octet hd hc⟩

theorem parseServerEndpoint_iff
    {s : List UInt8} {server : ServerEndpoint} :
    parseServerEndpoint s = some server ↔ ServerText s server := by
  have hcolon : DottedQuad server.ip → 0x3A ∉ server.ip := fun h =>
    not_mem_quad h (by decide) (by decide)
  have hempty : ¬DottedQuad [] := by
    rintro ⟨a, b, c, d, h, -⟩
    rcases a with - | ⟨x, a⟩
    · cases h
    · cases h
  unfold parseServerEndpoint ServerText
  rcases hs : s with - | ⟨x, rest⟩
  · refine iff_of_false (fun h => by cases h) ?_
    rintro ⟨hquad, ⟨hip, -⟩ | ⟨port, hip, -⟩⟩
    · exact hempty (hip ▸ hquad)
    · exact absurd hip.symm (by simp)
  · rw [if_neg (by simp), ← hs]
    cases hcut : cut 0x3A s with
    | none =>
        have hnot := cut_eq_none_iff.mp hcut
        rw [parseHost_iff]
        constructor
        · rintro ⟨hquad, rfl⟩
          exact ⟨hquad, Or.inl ⟨rfl, rfl⟩⟩
        · rintro ⟨hquad, ⟨rfl, hport⟩ | ⟨port, rfl, -⟩⟩
          · refine ⟨hquad, ?_⟩
            cases server
            cases hport
            rfl
          · exact absurd (List.mem_append_right _ List.mem_cons_self) hnot
    | some parts =>
        obtain ⟨host, portStr⟩ := parts
        obtain ⟨hsplit, -⟩ := cut_eq_some_iff.mp hcut
        have hwith : ∀ port, DottedQuad server.ip → s = server.ip ++ 0x3A :: port →
            host = server.ip ∧ portStr = port := by
          intro port hquad hport
          have hparts := cut_eq_some_iff.mpr ⟨hport, hcolon hquad⟩
          rw [hcut] at hparts
          cases hparts
          exact ⟨rfl, rfl⟩
        have hno : DottedQuad server.ip → s ≠ server.ip := by
          intro hquad h
          refine hcolon hquad ?_
          rw [← h, hsplit]
          exact List.mem_append_right _ List.mem_cons_self
        simp only
        cases hport : parsePort portStr with
        | none =>
            refine iff_of_false (fun h => by cases h) ?_
            rintro ⟨hquad, ⟨h, -⟩ | ⟨port, h, htext⟩⟩
            · exact hno hquad h
            · obtain ⟨-, rfl⟩ := hwith port hquad h
              rw [parsePort_iff.mpr htext] at hport
              cases hport
        | some port =>
            simp only
            rw [parseHost_iff]
            constructor
            · rintro ⟨hquad, rfl⟩
              exact ⟨hquad, Or.inr ⟨portStr, hsplit, parsePort_iff.mp hport⟩⟩
            · rintro ⟨hquad, ⟨h, -⟩ | ⟨p, h, htext⟩⟩
              · exact absurd h (hno hquad)
              · obtain ⟨rfl, rfl⟩ := hwith p hquad h
                rw [parsePort_iff.mpr htext, Option.some.injEq] at hport
                refine ⟨hquad, ?_⟩
                cases server
                cases hport
                rfl

/-! ### The lines -/

/-- The lines of the text, without carriage returns at their ends. -/
def requestLines (text : List UInt8) : List (List UInt8) :=
  (text.splitOn 0x0A).map dropCr

/-- What is read from a `udp_port` line. -/
def readUdpPort (s : List UInt8) : Option UInt16 :=
  (parsePort s).bind fun port => if port > 65532 then none else some port

theorem readUdpPort_iff
    {s : List UInt8} {port : UInt16} :
    readUdpPort s = some port ↔ UdpPortText s port := by
  unfold readUdpPort UdpPortText
  rw [Option.bind_eq_some_iff]
  have hmax : ∀ p : UInt16, p > 65532 ↔ 65532 < p.toNat := fun _ => UInt16.lt_iff_toNat_lt
  constructor
  · rintro ⟨p, hp, hif⟩
    split_ifs at hif with hout
    cases hif
    exact ⟨parsePort_iff.mp hp, Nat.not_lt.mp (mt (hmax port).mpr hout)⟩
  · rintro ⟨htext, hle⟩
    exact ⟨port, parsePort_iff.mpr htext,
      if_neg fun h => absurd ((hmax port).mp h) (Nat.not_lt.mpr hle)⟩

/-- The locals of the parser, from the last values of the three keys. -/
def stateOf (server : Option ServerEndpoint) (pin : Option UInt32) (udp : Option UInt16) :
    ParseState where
  r := { server := server.getD {}, pin := pin.getD 0,
         udpBasePort := udp.getD DEFAULT_UDP_BASE_PORT }
  haveServer := server.isSome
  havePin := pin.isSome

abbrev serverSlot := slotStep (0x3D : UInt8) (ascii "server") parseServerEndpoint
abbrev pinSlot := slotStep (0x3D : UInt8) (ascii "pin") parsePin
abbrev udpSlot := slotStep (0x3D : UInt8) (ascii "udp_port") readUdpPort

/-- A line is read for each key on its own. -/
theorem parseLine_stateOf
    (server : Option ServerEndpoint) (pin : Option UInt32) (udp : Option UInt16)
    (line : List UInt8) :
    parseLine (stateOf server pin udp) line =
      (serverSlot server (dropCr line)).bind fun server =>
        (pinSlot pin (dropCr line)).bind fun pin =>
          (udpSlot udp (dropCr line)).bind fun udp => some (stateOf server pin udp) := by
  unfold parseLine serverSlot pinSlot udpSlot slotStep field?
  cases cut 0x3D (dropCr line) with
  | none =>
      rfl
  | some parts =>
      obtain ⟨key, value⟩ := parts
      simp only [Option.bind_some]
      by_cases hserver : key = ascii "server"
      · subst hserver
        rw [if_pos rfl, if_pos rfl, if_neg (by decide), if_neg (by decide)]
        simp only [Option.bind_some]
        cases parseServerEndpoint value with
        | none =>
            rfl
        | some endpoint =>
            rfl
      · rw [if_neg hserver, if_neg hserver]
        by_cases hpin : key = ascii "pin"
        · subst hpin
          rw [if_pos rfl, if_pos rfl, if_neg (by decide)]
          simp only [Option.bind_some]
          cases parsePin value with
          | none =>
              rfl
          | some number =>
              rfl
        · rw [if_neg hpin, if_neg hpin]
          by_cases hudp : key = ascii "udp_port"
          · subst hudp
            rw [if_pos rfl, if_pos rfl]
            simp only [Option.bind_some, readUdpPort]
            cases parsePort value with
            | none =>
                rfl
            | some port =>
                simp only [Option.bind_some]
                split_ifs with hmax
                · rfl
                · rfl
          · rw [if_neg hudp, if_neg hudp]
            rfl

/-- So the lines can be read for each key on its own. -/
theorem foldlM_parseLine
    (server : Option ServerEndpoint) (pin : Option UInt32) (udp : Option UInt16)
    (lines : List (List UInt8)) :
    lines.foldlM parseLine (stateOf server pin udp) =
      ((lines.map dropCr).foldlM serverSlot server).bind fun server =>
        ((lines.map dropCr).foldlM pinSlot pin).bind fun pin =>
          ((lines.map dropCr).foldlM udpSlot udp).bind fun udp =>
            some (stateOf server pin udp) := by
  induction lines generalizing server pin udp with
  | nil =>
      rfl
  | cons line rest ih =>
      simp only [List.map_cons, List.foldlM_cons, parseLine_stateOf, Option.bind_eq_bind]
      cases serverSlot server (dropCr line) with
      | none =>
          rfl
      | some server' =>
          simp only [Option.bind_some]
          cases pinSlot pin (dropCr line) with
          | none =>
              exact (Option.bind_fun_none _).symm
          | some pin' =>
              simp only [Option.bind_some]
              cases udpSlot udp (dropCr line) with
              | none =>
                  simp only [Option.bind_none, Option.bind_fun_none]
              | some udp' =>
                  exact ih server' pin' udp'

/-! ### The whole text -/

/-- Every line of a known key can be read, and there are a server and a PIN. -/
structure WellFormed (lines : List (List UInt8)) : Prop where
  server : ∀ v, ascii "server" ++ 0x3D :: v ∈ lines → ∃ server, ServerText v server
  pin : ∀ v, ascii "pin" ++ 0x3D :: v ∈ lines → ∃ pin, PinText v pin
  udpPort : ∀ v, ascii "udp_port" ++ 0x3D :: v ∈ lines → ∃ port, UdpPortText v port
  hasServer : ∃ v, ascii "server" ++ 0x3D :: v ∈ lines
  hasPin : ∃ v, ascii "pin" ++ 0x3D :: v ∈ lines

/-- The request has the values of the last line of each key. -/
structure LastValues (lines : List (List UInt8)) (r : LaunchRequest) : Prop where
  server : ∃ v, LastField 0x3D lines (ascii "server") v ∧ ServerText v r.server
  pin : ∃ v, LastField 0x3D lines (ascii "pin") v ∧ PinText v r.pin
  udpPort : (∃ v, LastField 0x3D lines (ascii "udp_port") v ∧ UdpPortText v r.udpBasePort) ∨
    (∀ v, ascii "udp_port" ++ 0x3D :: v ∉ lines) ∧ r.udpBasePort = DEFAULT_UDP_BASE_PORT

theorem parseLaunchRequest_eq_true_iff
    {text : List UInt8} {out r : LaunchRequest} :
    parseLaunchRequest text out = (true, r) ↔
      ∃ server pin udp,
        (requestLines text).foldlM serverSlot none = some (some server) ∧
        (requestLines text).foldlM pinSlot none = some (some pin) ∧
        (requestLines text).foldlM udpSlot none = some udp ∧
        r = (stateOf (some server) (some pin) udp).r := by
  have hfold := foldlM_parseLine none none none (text.splitOn 0x0A)
  have hstart : stateOf none none none = {} := rfl
  rw [hstart] at hfold
  unfold parseLaunchRequest requestLines
  rw [hfold]
  rcases ((text.splitOn 0x0A).map dropCr).foldlM serverSlot none with - | - | server
  · simp
  · rcases ((text.splitOn 0x0A).map dropCr).foldlM pinSlot none with - | pin
    · simp
    · rcases ((text.splitOn 0x0A).map dropCr).foldlM udpSlot none with - | udp
      · simp
      · simp [stateOf]
  · rcases ((text.splitOn 0x0A).map dropCr).foldlM pinSlot none with - | - | pin
    · simp
    · rcases ((text.splitOn 0x0A).map dropCr).foldlM udpSlot none with - | udp
      · simp
      · simp [stateOf]
    · rcases ((text.splitOn 0x0A).map dropCr).foldlM udpSlot none with - | udp
      · simp
      · simp [stateOf, eq_comm]

/-- A request that is not accepted leaves `out` as it is. -/
theorem parseLaunchRequest_rejected
    {text : List UInt8} {out : LaunchRequest} (h : (parseLaunchRequest text out).1 = false) :
    (parseLaunchRequest text out).2 = out := by
  unfold parseLaunchRequest at h ⊢
  split at h
  · rfl
  · split_ifs at h ⊢ with hmissing
    rfl

theorem server_slots
    (lines : List (List UInt8)) (server : ServerEndpoint) :
    lines.foldlM serverSlot none = some (some server) ↔
      (∀ v, ascii "server" ++ 0x3D :: v ∈ lines → ∃ server, ServerText v server) ∧
        ∃ v, LastField 0x3D lines (ascii "server") v ∧ ServerText v server := by
  rw [foldlM_slotStep_iff (by decide)]
  simp only [parseServerEndpoint_iff]

theorem pin_slots
    (lines : List (List UInt8)) (pin : UInt32) :
    lines.foldlM pinSlot none = some (some pin) ↔
      (∀ v, ascii "pin" ++ 0x3D :: v ∈ lines → ∃ pin, PinText v pin) ∧
        ∃ v, LastField 0x3D lines (ascii "pin") v ∧ PinText v pin := by
  rw [foldlM_slotStep_iff (by decide)]
  simp only [parsePin_iff]

theorem udp_slots
    (lines : List (List UInt8)) (udp : Option UInt16) :
    lines.foldlM udpSlot none = some udp ↔
      (∀ v, ascii "udp_port" ++ 0x3D :: v ∈ lines → ∃ port, UdpPortText v port) ∧
        match udp with
        | none => ∀ v, ascii "udp_port" ++ 0x3D :: v ∉ lines
        | some port => ∃ v, LastField 0x3D lines (ascii "udp_port") v ∧ UdpPortText v port := by
  rw [foldlM_slotStep_iff (by decide)]
  simp only [readUdpPort_iff]
  cases udp with
  | none =>
      rfl
  | some port =>
      rfl

/-- Well formed lines are accepted. -/
theorem parseLaunchRequest_of_wellFormed
    {text : List UInt8} (h : WellFormed (requestLines text)) (out : LaunchRequest) :
    ∃ r, parseLaunchRequest text out = (true, r) := by
  obtain ⟨server, hserver⟩ : ∃ server,
      (requestLines text).foldlM serverSlot none = some (some server) := by
    have hread : ∀ v, ascii "server" ++ 0x3D :: v ∈ requestLines text →
        ∃ b, parseServerEndpoint v = some b := fun v hv =>
      (h.server v hv).imp fun _ => parseServerEndpoint_iff.mpr
    obtain ⟨slot, hslot⟩ := exists_foldlM_slotStep (by decide) hread none
    obtain ⟨v, hv⟩ := h.hasServer
    cases slot with
    | none =>
        exact absurd hv (((foldlM_slotStep_iff (by decide) _ _ _).mp hslot).2 v)
    | some server =>
        exact ⟨server, hslot⟩
  obtain ⟨pin, hpin⟩ : ∃ pin, (requestLines text).foldlM pinSlot none = some (some pin) := by
    have hread : ∀ v, ascii "pin" ++ 0x3D :: v ∈ requestLines text →
        ∃ b, parsePin v = some b := fun v hv =>
      (h.pin v hv).imp fun _ => parsePin_iff.mpr
    obtain ⟨slot, hslot⟩ := exists_foldlM_slotStep (by decide) hread none
    obtain ⟨v, hv⟩ := h.hasPin
    cases slot with
    | none =>
        exact absurd hv (((foldlM_slotStep_iff (by decide) _ _ _).mp hslot).2 v)
    | some pin =>
        exact ⟨pin, hslot⟩
  have hread : ∀ v, ascii "udp_port" ++ 0x3D :: v ∈ requestLines text →
      ∃ b, readUdpPort v = some b := fun v hv =>
    (h.udpPort v hv).imp fun _ => readUdpPort_iff.mpr
  obtain ⟨udp, hudp⟩ := exists_foldlM_slotStep (by decide) hread none
  exact ⟨_, parseLaunchRequest_eq_true_iff.mpr ⟨server, pin, udp, hserver, hpin, hudp, rfl⟩⟩

/-- What is accepted is well formed, and has the values of the last lines. -/
theorem lastValues_of_parseLaunchRequest
    {text : List UInt8} {out r : LaunchRequest} (h : parseLaunchRequest text out = (true, r)) :
    WellFormed (requestLines text) ∧ LastValues (requestLines text) r := by
  obtain ⟨server, pin, udp, hserver, hpin, hudp, rfl⟩ := parseLaunchRequest_eq_true_iff.mp h
  obtain ⟨hservers, s, hlastServer, hs⟩ := (server_slots _ _).mp hserver
  obtain ⟨hpins, p, hlastPin, hp⟩ := (pin_slots _ _).mp hpin
  obtain ⟨hports, hlastPort⟩ := (udp_slots _ _).mp hudp
  refine ⟨⟨hservers, hpins, hports, ⟨s, hlastServer.mem⟩, ⟨p, hlastPin.mem⟩⟩,
    ⟨⟨s, hlastServer, hs⟩, ⟨p, hlastPin, hp⟩, ?_⟩⟩
  cases udp with
  | none =>
      exact Or.inr ⟨hlastPort, rfl⟩
  | some port =>
      exact Or.inl hlastPort

/-- The texts that are accepted, and what is read from them. -/
def AcceptsGrammar (text : List UInt8) (out : LaunchRequest) : Prop :=
  ((parseLaunchRequest text out).1 = true ↔ WellFormed (requestLines text)) ∧
    ((parseLaunchRequest text out).1 = true →
      LastValues (requestLines text) (parseLaunchRequest text out).2) ∧
    ((parseLaunchRequest text out).1 = false → (parseLaunchRequest text out).2 = out)

theorem acceptsGrammar
    (text : List UInt8) (out : LaunchRequest) :
    AcceptsGrammar text out := by
  have haccepted : (parseLaunchRequest text out).1 = true →
      WellFormed (requestLines text) ∧
        LastValues (requestLines text) (parseLaunchRequest text out).2 := fun h =>
    lastValues_of_parseLaunchRequest (Prod.ext h rfl)
  refine ⟨⟨fun h => (haccepted h).1, ?_⟩, fun h => (haccepted h).2, parseLaunchRequest_rejected⟩
  intro h
  obtain ⟨r, hr⟩ := parseLaunchRequest_of_wellFormed h out
  rw [hr]

end Client
end FocusVision
