import FocusVision.Client.LaunchGrammar
import Mathlib.Data.List.TakeWhile

/-!
# The launch hand-over

What the companion hands over is read back on the headset, and the addresses of accepted
requests that the socket layer takes: those without a leading zero.
-/

namespace FocusVision
namespace Client

open Decimal KeyedLines Utf8

/-! ### Addresses for the socket layer -/

/-- No part of the address has a zero before its other digits. -/
def NoLeadingZero (ip : List UInt8) : Prop :=
  ∀ part ∈ ip.splitOn 0x2E, ¬(1 < part.length ∧ part.head? = some 0x30)

instance (ip : List UInt8) : Decidable (NoLeadingZero ip) :=
  inferInstanceAs (Decidable (∀ part ∈ _, _))

/-- The address of a `server` value. -/
def hostOf (value : List UInt8) : List UInt8 :=
  value.takeWhile fun c => c != 0x3A

theorem inetPtonOctet_isSome_iff
    {s : List UInt8} (h : OctetText s) :
    (inetPtonOctet s).isSome = true ↔ ¬(1 < s.length ∧ s.head? = some 0x30) := by
  obtain ⟨hne, hlength, hdigits, hmax⟩ := h
  unfold inetPtonOctet
  have hall : (s.all fun c => decide (IsDigit c)) = true := by simpa using hdigits
  split_ifs with hpart
  · exact iff_of_true rfl hpart.2.2.2.2
  · exact iff_of_false (by simp) fun hzero => hpart ⟨hne, hlength, hall, hmax, hzero⟩

theorem inetPton_isSome_iff
    {ip : List UInt8} (h : DottedQuad ip) :
    (inetPton ip).isSome = true ↔ NoLeadingZero ip := by
  obtain ⟨hparts, hlength⟩ := dottedQuad_iff.mp h
  obtain ⟨a, b, c, d, hsplit⟩ := List.length_eq_four.mp hlength
  unfold inetPton NoLeadingZero
  rw [hsplit] at hparts ⊢
  simp only [List.forall_mem_cons] at hparts ⊢
  obtain ⟨ha, hb, hc, hd, -⟩ := hparts
  rw [← inetPtonOctet_isSome_iff ha, ← inetPtonOctet_isSome_iff hb, ← inetPtonOctet_isSome_iff hc,
    ← inetPtonOctet_isSome_iff hd]
  simp only [List.map_cons, List.map_nil]
  cases inetPtonOctet a with
  | none =>
      simp
  | some a =>
      cases inetPtonOctet b with
      | none =>
          simp
      | some b =>
          cases inetPtonOctet c with
          | none =>
              simp
          | some c =>
              cases inetPtonOctet d with
              | none =>
                  simp
              | some d =>
                  simp

theorem hostOf_eq
    {value : List UInt8} {server : ServerEndpoint} (h : ServerText value server) :
    hostOf value = server.ip := by
  obtain ⟨hquad, hvalue⟩ := h
  have hcolon : ∀ c ∈ server.ip, (c != 0x3A) = true := by
    intro c hc
    rw [bne_iff_ne]
    rintro rfl
    exact not_mem_quad hquad (by decide) (by decide) hc
  unfold hostOf
  rcases hvalue with ⟨rfl, -⟩ | ⟨port, rfl, -⟩
  · exact List.takeWhile_eq_self_iff.mpr hcolon
  · rw [List.takeWhile_append_of_pos hcolon]
    simp

/-- The socket layer takes the address of the request, if it is accepted. -/
def Usable (text : List UInt8) (out : LaunchRequest) : Prop :=
  (parseLaunchRequest text out).1 = true →
    (parseIpv4 (parseLaunchRequest text out).2.server.ip).isSome = true

theorem usable_iff
    (text : List UInt8) (out : LaunchRequest) :
    Usable text out ↔
      (WellFormed (requestLines text) →
        ∀ v, LastField 0x3D (requestLines text) (ascii "server") v → NoLeadingZero (hostOf v)) := by
  obtain ⟨haccept, hvalues, -⟩ := acceptsGrammar text out
  unfold Usable
  rw [haccept]
  refine forall_congr' fun hwell => ?_
  obtain ⟨v, hlast, htext⟩ := (hvalues (haccept.mpr hwell)).server
  unfold parseIpv4
  rw [inetPton_isSome_iff htext.1, ← hostOf_eq htext]
  constructor
  · intro h w hw
    rwa [hw.unique hlast]
  · intro h
    exact h v hlast

/-! ### Starting the activity -/

/-- A byte that means itself on a command line. -/
def PlainByte (c : UInt8) : Prop :=
  IsDigit c ∨ (0x41 ≤ c ∧ c ≤ 0x5A) ∨ (0x61 ≤ c ∧ c ≤ 0x7A) ∨ c ∈ ascii "._:/"

instance (c : UInt8) : Decidable (PlainByte c) :=
  inferInstanceAs (Decidable (_ ∨ _ ∨ _ ∨ _))

/-- A word that the shell of the headset hands on as it is. -/
def PlainWord (w : List UInt8) : Prop :=
  w ≠ [] ∧ ∀ c ∈ w, PlainByte c

instance (w : List UInt8) : Decidable (PlainWord w) :=
  decidable_of_iff (w ≠ [] ∧ (w.all fun c => decide (PlainByte c)) = true) (by simp [PlainWord])

/-- The command that starts a component with string extras. -/
def amStart (component : List UInt8) (extras : List (List UInt8 × List UInt8)) :
    List (List UInt8) :=
  ascii "am" :: ascii "start" :: ascii "-n" :: component ::
    extras.flatMap fun extra => [ascii "--es", extra.1, extra.2]

/-- `--es KEY VALUE` of the command adds a string extra to the intent that the activity
gets. -/
def DeliversExtras (extraOf : List (List UInt8) → List UInt8 → Option (List UInt8)) : Prop :=
  ∀ component extras, PlainWord component →
    (∀ extra ∈ extras, PlainWord extra.1 ∧ PlainWord extra.2) → (extras.map Prod.fst).Nodup →
    ∀ extra ∈ extras, extraOf (amStart component extras) extra.1 = some extra.2

/-- The value of the first `--es` of the key. -/
def findExtra (key : List UInt8) : List (List UInt8) → Option (List UInt8)
  | option :: name :: value :: rest =>
      if option = ascii "--es" ∧ name = key then some value else findExtra key rest
  | _ => none

/-- An activity manager that reads the extras behind the component. -/
def stringExtra (command : List (List UInt8)) (key : List UInt8) : Option (List UInt8) :=
  findExtra key (command.drop 4)

theorem findExtra_flatMap
    {extras : List (List UInt8 × List UInt8)} (hkeys : (extras.map Prod.fst).Nodup)
    {extra : List UInt8 × List UInt8} (h : extra ∈ extras) :
    findExtra extra.1 (extras.flatMap fun e => [ascii "--es", e.1, e.2]) = some extra.2 := by
  induction extras with
  | nil =>
      exact absurd h List.not_mem_nil
  | cons first rest ih =>
      rw [List.map_cons, List.nodup_cons] at hkeys
      rw [List.flatMap_cons]
      simp only [List.cons_append, List.nil_append, findExtra, true_and]
      rcases List.mem_cons.mp h with rfl | hrest
      · rw [if_pos rfl]
      · have hne : first.1 ≠ extra.1 := fun heq =>
          hkeys.1 (heq ▸ List.mem_map_of_mem hrest)
        rw [if_neg hne]
        exact ih hkeys.2 hrest

theorem deliversExtras_stringExtra :
    DeliversExtras stringExtra := by
  intro component extras _ _ hkeys extra hextra
  exact findExtra_flatMap hkeys hextra

/-! ### What is handed over -/

theorem plainWord_show10
    (n : Nat) :
    PlainWord (show10 n) :=
  ⟨show10_ne_nil n, fun c hc => Or.inl (isDigit_show10 n c hc)⟩

theorem isPin_iff
    {pin : List UInt8} :
    isPin pin = true ↔ pin.length = 6 ∧ ∀ c ∈ pin, IsDigit c := by
  simp [isPin]

theorem plainWord_of_isPin
    {pin : List UInt8} (h : isPin pin = true) :
    PlainWord pin := by
  obtain ⟨hlength, hdigits⟩ := isPin_iff.mp h
  refine ⟨?_, fun c hc => Or.inl (hdigits c hc)⟩
  rintro rfl
  cases hlength

theorem pinText_of_isPin
    {pin : List UInt8} (h : isPin pin = true) :
    PinText pin (UInt32.ofNat (numberOf pin)) := by
  obtain ⟨hlength, hdigits⟩ := isPin_iff.mp h
  have hlt := numberOf_lt hdigits
  rw [hlength] at hlt
  exact ⟨hlength, hdigits, UInt32.toNat_ofNat_of_lt' (Nat.lt_trans hlt (by decide))⟩

theorem octetText_show10
    (octet : UInt8) :
    OctetText (show10 octet.toNat) := by
  have hlt := octet.toNat_lt
  refine ⟨show10_ne_nil _, length_show10_le (by omega) (by omega), isDigit_show10 _, ?_⟩
  rw [numberOf_show10]
  omega

theorem inetPtonOctet_show10
    (octet : UInt8) :
    inetPtonOctet (show10 octet.toNat) = some octet := by
  obtain ⟨hne, hlength, hdigits, hmax⟩ := octetText_show10 octet
  have hzero : ¬(1 < (show10 octet.toNat).length ∧ (show10 octet.toNat).head? = some 0x30) := by
    rintro ⟨hlong, hhead⟩
    have hone := head_show10 hhead
    omega
  have hall : ((show10 octet.toNat).all fun c => decide (IsDigit c)) = true := by
    simpa using hdigits
  unfold inetPtonOctet
  rw [if_pos ⟨hne, hlength, hall, hmax, hzero⟩, numberOf_show10, UInt8.ofNat_toNat]

theorem showIpv4_eq
    (address : UInt8 × UInt8 × UInt8 × UInt8) :
    showIpv4 address = show10 address.1.toNat ++ 0x2E :: (show10 address.2.1.toNat ++
      0x2E :: (show10 address.2.2.1.toNat ++ 0x2E :: show10 address.2.2.2.toNat)) := by
  simp only [showIpv4, List.append_assoc, List.cons_append]

theorem dottedQuad_showIpv4
    (address : UInt8 × UInt8 × UInt8 × UInt8) :
    DottedQuad (showIpv4 address) :=
  ⟨_, _, _, _, showIpv4_eq address, octetText_show10 _, octetText_show10 _, octetText_show10 _,
    octetText_show10 _⟩

theorem inetPton_showIpv4
    (address : UInt8 × UInt8 × UInt8 × UInt8) :
    inetPton (showIpv4 address) = some address := by
  have hdot : ∀ octet : UInt8, 0x2E ∉ show10 octet.toNat := fun octet =>
    not_mem_of_octet (octetText_show10 octet) (by decide)
  unfold inetPton
  rw [showIpv4_eq, splitOn_quad (hdot _) (hdot _) (hdot _) (hdot _)]
  simp only [List.map_cons, List.map_nil, inetPtonOctet_show10]

theorem portText_show10
    {port : UInt16} (h : 1 ≤ port) :
    PortText (show10 port.toNat) port := by
  have hlt := port.toNat_lt
  exact ⟨show10_ne_nil _, length_show10_le (by omega) (by omega), isDigit_show10 _,
    (numberOf_show10 _).symm, UInt16.le_iff_toNat_le.mp h⟩

theorem serverText_showSocketAddr
    (address : UInt8 × UInt8 × UInt8 × UInt8) {port : UInt16} (h : 1 ≤ port) :
    ServerText (showSocketAddr address port) { ip := showIpv4 address, port } :=
  ⟨dottedQuad_showIpv4 address, Or.inr ⟨_, rfl, portText_show10 h⟩⟩

theorem plainWord_showSocketAddr
    (address : UInt8 × UInt8 × UInt8 × UInt8) (port : UInt16) :
    PlainWord (showSocketAddr address port) := by
  have hshow : ∀ n : Nat, ∀ c ∈ show10 n, PlainByte c := fun n => (plainWord_show10 n).2
  have hdot : PlainByte 0x2E := by decide
  have hcolon : PlainByte 0x3A := by decide
  unfold showSocketAddr
  rw [showIpv4_eq]
  refine ⟨by simp, ?_⟩
  simp only [List.forall_mem_append, List.forall_mem_cons]
  exact ⟨⟨hshow _, hdot, hshow _, hdot, hshow _, hdot, hshow _⟩, hcolon, hshow _⟩

/-! ### Reading it back -/

/-- The line of a key and a value, which carries no line break. -/
theorem plainWord_line
    {key value : List UInt8} (hkey : (key.all fun c => c != 0x0A && c != 0x0D) = true)
    (hvalue : PlainWord value) :
    0x0A ∉ key ++ 0x3D :: value ∧ 0x0D ∉ key ++ 0x3D :: value := by
  have hplain : ∀ c ∈ value, c ≠ 0x0A ∧ c ≠ 0x0D := by
    intro c hc
    refine ⟨?_, ?_⟩
    · rintro rfl
      exact absurd (hvalue.2 _ hc) (by decide)
    · rintro rfl
      exact absurd (hvalue.2 _ hc) (by decide)
  have hline : ∀ c ∈ key ++ 0x3D :: value, c ≠ 0x0A ∧ c ≠ 0x0D := by
    simp only [List.forall_mem_append, List.forall_mem_cons]
    exact ⟨by simpa using hkey, by decide, hplain⟩
  exact ⟨fun h => (hline _ h).1 rfl, fun h => (hline _ h).2 rfl⟩

theorem dropCr_of_not_mem
    {line : List UInt8} (h : 0x0D ∉ line) :
    dropCr line = line :=
  if_neg fun hlast => h (List.mem_of_getLast? hlast)

theorem splitOn_lines
    {a b c : List UInt8} (ha : 0x0A ∉ a) (hb : 0x0A ∉ b) (hc : 0x0A ∉ c) :
    (a ++ 0x0A :: (b ++ 0x0A :: (c ++ [0x0A]))).splitOn 0x0A = [a, b, c, []] := by
  rw [List.splitOn_append_cons_self_of_not_mem ha, List.splitOn_append_cons_self_of_not_mem hb,
    List.splitOn_append_cons_self_of_not_mem hc]
  rfl

/-- The text of a server, a PIN and a port gives the request with these values. -/
theorem parseLaunchRequest_lines
    {server pin port : List UInt8} {endpoint : ServerEndpoint} {number : UInt32} {udp : UInt16}
    (hserver : ServerText server endpoint) (hpin : PinText pin number)
    (hport : UdpPortText port udp)
    (hplainServer : PlainWord server) (hplainPin : PlainWord pin) (hplainPort : PlainWord port)
    (out : LaunchRequest) :
    parseLaunchRequest (ascii "server" ++ 0x3D :: server ++ 0x0A ::
        (ascii "pin" ++ 0x3D :: pin ++ 0x0A :: (ascii "udp_port" ++ 0x3D :: port ++ [0x0A]))) out =
      (true, { server := endpoint, pin := number, udpBasePort := udp }) := by
  obtain ⟨hbreakServer, hcrServer⟩ := @plainWord_line (ascii "server") _ (by decide) hplainServer
  obtain ⟨hbreakPin, hcrPin⟩ := @plainWord_line (ascii "pin") _ (by decide) hplainPin
  obtain ⟨hbreakPort, hcrPort⟩ := @plainWord_line (ascii "udp_port") _ (by decide) hplainPort
  have hlines : requestLines (ascii "server" ++ 0x3D :: server ++ 0x0A ::
        (ascii "pin" ++ 0x3D :: pin ++ 0x0A :: (ascii "udp_port" ++ 0x3D :: port ++ [0x0A]))) =
      [ascii "server" ++ 0x3D :: server, ascii "pin" ++ 0x3D :: pin,
        ascii "udp_port" ++ 0x3D :: port, []] := by
    unfold requestLines
    rw [splitOn_lines hbreakServer hbreakPin hbreakPort]
    simp only [List.map_cons, List.map_nil, dropCr_of_not_mem hcrServer, dropCr_of_not_mem hcrPin,
      dropCr_of_not_mem hcrPort]
    rfl
  refine parseLaunchRequest_eq_true_iff.mpr ⟨endpoint, number, some udp, ?_, ?_, ?_, rfl⟩
  · have hself : serverSlot none (ascii "server" ++ 0x3D :: server) = some (some endpoint) :=
      slotStep_self (by decide) (parseServerEndpoint_iff.mpr hserver) none
    have hpinLine : ∀ slot, serverSlot slot (ascii "pin" ++ 0x3D :: pin) = some slot :=
      fun slot => slotStep_other (by decide) (by decide) _ slot pin
    have hportLine : ∀ slot, serverSlot slot (ascii "udp_port" ++ 0x3D :: port) = some slot :=
      fun slot => slotStep_other (by decide) (by decide) _ slot port
    simp only [hlines, List.foldlM_cons, Option.bind_eq_bind, hself, hpinLine, hportLine,
      Option.bind_some]
    rfl
  · have hserverLine : ∀ slot, pinSlot slot (ascii "server" ++ 0x3D :: server) = some slot :=
      fun slot => slotStep_other (by decide) (by decide) _ slot server
    have hself : pinSlot none (ascii "pin" ++ 0x3D :: pin) = some (some number) :=
      slotStep_self (by decide) (parsePin_iff.mpr hpin) none
    have hportLine : ∀ slot, pinSlot slot (ascii "udp_port" ++ 0x3D :: port) = some slot :=
      fun slot => slotStep_other (by decide) (by decide) _ slot port
    simp only [hlines, List.foldlM_cons, Option.bind_eq_bind, hserverLine, hself, hportLine,
      Option.bind_some]
    rfl
  · have hserverLine : ∀ slot, udpSlot slot (ascii "server" ++ 0x3D :: server) = some slot :=
      fun slot => slotStep_other (by decide) (by decide) _ slot server
    have hpinLine : ∀ slot, udpSlot slot (ascii "pin" ++ 0x3D :: pin) = some slot :=
      fun slot => slotStep_other (by decide) (by decide) _ slot pin
    have hself : udpSlot none (ascii "udp_port" ++ 0x3D :: port) = some (some udp) :=
      slotStep_self (by decide) (readUdpPort_iff.mpr hport) none
    simp only [hlines, List.foldlM_cons, Option.bind_eq_bind, hserverLine, hpinLine, hself,
      Option.bind_some]
    rfl

/-- What the companion starts the client with is what the client reads. -/
def HandsOver (extraOf : List (List UInt8) → List UInt8 → Option (List UInt8)) : Prop :=
  ∀ serial address tcpPort pin udpPort out,
    1 ≤ tcpPort → 1 ≤ udpPort → udpPort ≤ 65532 → isPin pin = true →
    ∃ text r,
      saveLaunchRequest (extraOf ((launchArgs serial address tcpPort pin udpPort).drop 3)) =
        some text ∧
      parseLaunchRequest text out = (true, r) ∧
      r.server.ip = showIpv4 address ∧ parseIpv4 r.server.ip = some address ∧
      r.server.port = tcpPort ∧ r.udpBasePort = udpPort ∧ r.pin.toNat = numberOf pin

theorem handsOver
    {extraOf : List (List UInt8) → List UInt8 → Option (List UInt8)}
    (h : DeliversExtras extraOf) :
    HandsOver extraOf := by
  intro serial address tcpPort pin udpPort out htcp hudp hroom hpin
  have hplainServer := plainWord_showSocketAddr address tcpPort
  have hplainPin := plainWord_of_isPin hpin
  have hplainPort := plainWord_show10 udpPort.toNat
  have hdelivered := h (ascii (CLIENT_PACKAGE ++ "/.MainActivity"))
    [(ascii "fvp_server", showSocketAddr address tcpPort), (ascii "fvp_pin", pin),
      (ascii "fvp_udp_port", show10 udpPort.toNat)] (by decide)
    (by
      simp only [List.forall_mem_cons]
      exact ⟨⟨by decide, hplainServer⟩, ⟨by decide, hplainPin⟩, ⟨by decide, hplainPort⟩,
        fun _ h => absurd h List.not_mem_nil⟩)
    (show [ascii "fvp_server", ascii "fvp_pin", ascii "fvp_udp_port"].Nodup by decide)
  simp only [List.forall_mem_cons] at hdelivered
  obtain ⟨hserver, hpinExtra, hport, -⟩ := hdelivered
  have hread := parseLaunchRequest_lines (serverText_showSocketAddr address htcp)
    (pinText_of_isPin hpin)
    ⟨portText_show10 hudp, UInt16.le_iff_toNat_le.mp hroom⟩
    hplainServer hplainPin hplainPort out
  refine ⟨_, _, ?_, hread, rfl, inetPton_showIpv4 address, rfl, rfl, (pinText_of_isPin hpin).2.2⟩
  have hcommand : (launchArgs serial address tcpPort pin udpPort).drop 3 =
      amStart (ascii (CLIENT_PACKAGE ++ "/.MainActivity"))
        [(ascii "fvp_server", showSocketAddr address tcpPort), (ascii "fvp_pin", pin),
          (ascii "fvp_udp_port", show10 udpPort.toNat)] := rfl
  have hserverKey : ascii "server=" = ascii "server" ++ [0x3D] := rfl
  have hpinKey : ascii "pin=" = ascii "pin" ++ [0x3D] := rfl
  have hportKey : ascii "udp_port=" = ascii "udp_port" ++ [0x3D] := rfl
  unfold saveLaunchRequest
  rw [hcommand, hserver, hpinExtra, hport, hserverKey, hpinKey, hportKey]
  simp only [Option.bind_eq_bind, Option.bind_some, List.append_assoc, List.cons_append,
    List.nil_append]

/-! ### The hand-over -/

/-- The launch hand-over for a text: the grammar is accepted, what the companion sends is
read back, and an accepted address can be used. -/
def LaunchContract (extraOf : List (List UInt8) → List UInt8 → Option (List UInt8))
    (text : List UInt8) (out : LaunchRequest) : Prop :=
  AcceptsGrammar text out ∧ HandsOver extraOf ∧ Usable text out

/-- The hand-over is right for a text exactly when the address of its last server has no
leading zero, or the text is not accepted. -/
theorem launchContract_iff
    (extraOf : List (List UInt8) → List UInt8 → Option (List UInt8))
    (hextras : DeliversExtras extraOf) (text : List UInt8) (out : LaunchRequest) :
    LaunchContract extraOf text out ↔
      (WellFormed (requestLines text) →
        ∀ value, LastField 0x3D (requestLines text) (ascii "server") value →
          NoLeadingZero (hostOf value)) := by
  unfold LaunchContract
  rw [← usable_iff text out]
  constructor
  · rintro ⟨-, -, husable⟩
    exact husable
  · intro husable
    exact ⟨acceptsGrammar text out, handsOver hextras, husable⟩

/-- An address with three digits for each octet is accepted and cannot be used. -/
theorem launchContract_padded_address :
    ¬LaunchContract stringExtra (ascii "server=192.168.001.010\npin=012345\n") {} := by
  rintro ⟨-, -, husable⟩
  have haddress := husable (by decide)
  revert haddress
  decide

/-- For the extras as the command has them: an address that can be used, and one that cannot. -/
theorem launchContract_iff_stringExtra :
    let lines := requestLines (ascii "server=192.168.1.10:9944\npin=012345\n")
    let padded := requestLines (ascii "server=192.168.001.010\npin=012345\n")
    (WellFormed lines → ∀ value, LastField 0x3D lines (ascii "server") value →
        NoLeadingZero (hostOf value)) ∧
      ¬(WellFormed padded → ∀ value, LastField 0x3D padded (ascii "server") value →
        NoLeadingZero (hostOf value)) := by
  intro lines padded
  have hextras := deliversExtras_stringExtra
  constructor
  · refine (launchContract_iff stringExtra hextras _ {}).mp
      ⟨acceptsGrammar _ _, handsOver hextras, fun _ => ?_⟩
    decide
  · intro hzeros
    obtain ⟨-, -, husable⟩ := (launchContract_iff stringExtra hextras _ {}).mpr hzeros
    have haddress := husable (by decide)
    revert haddress
    decide

end Client
end FocusVision
