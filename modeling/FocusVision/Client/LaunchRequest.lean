import FocusVision.Lib.Decimal
import FocusVision.Lib.KeyedLines
import FocusVision.Lib.Utf8

/-!
# The launch request

`parseLaunchRequest` of the client's `launch_request.h` with the endpoint parser of
`client_session.h`, and the way of a request there: `launch_args` of the companion's
`headset_link.rs` and `saveLaunchRequest` of the client's `MainActivity`.  A text is its
bytes; of the characters that are compared, all are ASCII.

Left out: the socket calls behind `parseIpv4`, removing the PIN from the intent, and
writing the file through a temporary one.
-/

namespace FocusVision
namespace Client

open Decimal KeyedLines Utf8

/-! ### Parsing -/

def DEFAULT_CONTROL_PORT : UInt16 := 9944
def DEFAULT_UDP_BASE_PORT : UInt16 := 9945

structure ServerEndpoint where
  ip : List UInt8 := []
  port : UInt16 := DEFAULT_CONTROL_PORT
deriving DecidableEq

structure LaunchRequest where
  server : ServerEndpoint := {}
  pin : UInt32 := 0
  udpBasePort : UInt16 := DEFAULT_UDP_BASE_PORT
deriving DecidableEq

/-- `parsePin`. -/
def parsePin (s : List UInt8) : Option UInt32 :=
  if s.length ≠ 6 then none else readLoop 0 s

/-- `parsePort`. -/
def parsePort (s : List UInt8) : Option UInt16 :=
  if s.isEmpty || s.length > 5 then none
  else
    match readLoop 0 s with
    | none => none
    | some v => if v == 0 || v > 65535 then none else some v.toUInt16

/-- `parse_octet`; the source's `int` cannot overflow with three digits. -/
def parseOctet (s : List UInt8) : Option UInt8 :=
  if s.isEmpty || s.length > 3 then none
  else
    match readLoop 0 s with
    | none => none
    | some v => if v > 255 then none else some v.toUInt8

/-- The loop over the octets of the host: how many there are, if all can be parsed. -/
def octetLoop (octets : Nat) : List (List UInt8) → Option Nat
  | [] => some octets
  | oct :: rest =>
      match parseOctet oct with
      | none => none
      | some _ => octetLoop (octets + 1) rest

/-- The end of `parse_server_endpoint`: exactly four octets between the dots. -/
def parseHost (host : List UInt8) (port : UInt16) : Option ServerEndpoint :=
  match octetLoop 0 (host.splitOn 0x2E) with
  | none => none
  | some octets => if octets ≠ 4 then none else some { ip := host, port }

/-- `parse_server_endpoint`, which checks the port as `parsePort` does. -/
def parseServerEndpoint (s : List UInt8) : Option ServerEndpoint :=
  if s.isEmpty then none
  else
    match cut 0x3A s with
    | none => parseHost s DEFAULT_CONTROL_PORT
    | some (host, portStr) =>
        match parsePort portStr with
        | none => none
        | some port => parseHost host port

/-- The locals of `parseLaunchRequest`. -/
structure ParseState where
  r : LaunchRequest := {}
  haveServer : Bool := false
  havePin : Bool := false
deriving DecidableEq

/-- The line without a carriage return at its end. -/
def dropCr (line : List UInt8) : List UInt8 :=
  if line.getLast? = some 0x0D then line.dropLast else line

/-- A turn of the loop of `parseLaunchRequest`. -/
def parseLine (state : ParseState) (line : List UInt8) : Option ParseState :=
  match cut 0x3D (dropCr line) with
  | none => some state
  | some (key, value) =>
      if key = ascii "server" then
        match parseServerEndpoint value with
        | none => none
        | some server => some { state with r := { state.r with server }, haveServer := true }
      else if key = ascii "pin" then
        match parsePin value with
        | none => none
        | some pin => some { state with r := { state.r with pin }, havePin := true }
      else if key = ascii "udp_port" then
        match parsePort value with
        | none => none
        | some udpBasePort =>
            if udpBasePort > 65532 then none
            else some { state with r := { state.r with udpBasePort } }
      else some state

/-- `parseLaunchRequest`: its result, and `out` afterwards. -/
def parseLaunchRequest (text : List UInt8) (out : LaunchRequest) : Bool × LaunchRequest :=
  match (text.splitOn 0x0A).foldlM parseLine {} with
  | none => (false, out)
  | some state =>
      if !state.haveServer || !state.havePin then (false, out) else (true, state.r)

/-! ### Using the address -/

/-- A part of an address for `inet_pton`: a decimal number up to 255, without leading
zeros. -/
def inetPtonOctet (s : List UInt8) : Option UInt8 :=
  if s ≠ [] ∧ s.length ≤ 3 ∧ (s.all fun c => decide (IsDigit c)) ∧ numberOf s ≤ 255 ∧
      ¬(1 < s.length ∧ s.head? = some 0x30) then
    some (UInt8.ofNat (numberOf s))
  else none

/-- `inet_pton(AF_INET, ..)`: four such parts, as an address. -/
def inetPton (ip : List UInt8) : Option (UInt8 × UInt8 × UInt8 × UInt8) :=
  match (ip.splitOn 0x2E).map inetPtonOctet with
  | [some a, some b, some c, some d] => some (a, b, c, d)
  | _ => none

/-- `parseIpv4`, with which `connectTcp` and `VideoReceiver::beginSession` begin: both give
up when it fails. -/
def parseIpv4 (ip : List UInt8) : Option (UInt8 × UInt8 × UInt8 × UInt8) :=
  inetPton ip

/-! ### Handing over -/

/-- `Ipv4Addr` as it is printed. -/
def showIpv4 (address : UInt8 × UInt8 × UInt8 × UInt8) : List UInt8 :=
  show10 address.1.toNat ++ 0x2E :: show10 address.2.1.toNat ++ 0x2E ::
    show10 address.2.2.1.toNat ++ 0x2E :: show10 address.2.2.2.toNat

/-- `SocketAddrV4` as it is printed. -/
def showSocketAddr (address : UInt8 × UInt8 × UInt8 × UInt8) (port : UInt16) : List UInt8 :=
  showIpv4 address ++ 0x3A :: show10 port.toNat

/-- `is_pin`. -/
def isPin (pin : List UInt8) : Bool :=
  pin.length == 6 && pin.all fun c => decide (IsDigit c)

def CLIENT_PACKAGE : String := "com.focusvision.pcvr"

/-- The command that `launch_args` runs on the headset. -/
def startCommand (server : List UInt8) (pin : List UInt8) (udpPort : UInt16) :
    List (List UInt8) :=
  [ascii "am", ascii "start", ascii "-n", ascii (CLIENT_PACKAGE ++ "/.MainActivity"),
    ascii "--es", ascii "fvp_server", server, ascii "--es", ascii "fvp_pin", pin,
    ascii "--es", ascii "fvp_udp_port", show10 udpPort.toNat]

/-- `launch_args`. -/
def launchArgs (serial : List UInt8) (address : UInt8 × UInt8 × UInt8 × UInt8) (tcpPort : UInt16)
    (pin : List UInt8) (udpPort : UInt16) : List (List UInt8) :=
  ascii "-s" :: serial :: ascii "shell" ::
    startCommand (showSocketAddr address tcpPort) pin udpPort

/-- `saveLaunchRequest`: the text it writes, from the intent's string extras. -/
def saveLaunchRequest (extra : List UInt8 → Option (List UInt8)) : Option (List UInt8) := do
  let server ← extra (ascii "fvp_server")
  let pin ← extra (ascii "fvp_pin")
  let text := ascii "server=" ++ server ++ [0x0A] ++ ascii "pin=" ++ pin ++ [0x0A]
  match extra (ascii "fvp_udp_port") with
  | none => some text
  | some udpPort => some (text ++ ascii "udp_port=" ++ udpPort ++ [0x0A])

end Client
end FocusVision
