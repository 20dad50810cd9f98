import FocusVision.Engine.ControlMessage

/-!
# The client's control connection

`TcpControlClient::sendMessage`, `takeMessage` and `recvMessage` of the client's
`tcp_client.cpp`.  `m_rxBuf` is a byte list, and the TLS reads of one
`recvMessage` are the list of the chunks that arrive before its deadline or an
error ends it.
-/

namespace FocusVision
namespace Client
namespace TcpControlClient

open Bytes
open Engine (ControlMessage)

def MAX_CONTROL_MESSAGE_LEN : Nat := 64 * 1024

/-- `sendMessage`: the frame that it hands to `writeAll`. -/
def sendMessage (tlsEstablished : Bool) (m : ControlMessage) : Option (List UInt8) :=
  if !tlsEstablished then none
  else some (leBytes 4 ((1 + m.payload.length) % 2 ^ 32) ++ m.msgType :: m.payload)

/-- `takeMessage`, with `m_rxBuf` after it: 0 is `.ok none` and -1 is an error. -/
def takeMessage : List UInt8 → Except Unit (Option ControlMessage) × List UInt8
  | b0 :: b1 :: b2 :: b3 :: rest =>
      let len := ofLeBytes [b0, b1, b2, b3]
      if len = 0 ∨ MAX_CONTROL_MESSAGE_LEN < len then
        (.error (), b0 :: b1 :: b2 :: b3 :: rest)
      else if rest.length < len then (.ok none, b0 :: b1 :: b2 :: b3 :: rest)
      else
        (.ok (some ⟨rest.headD 0, (rest.take len).drop 1⟩), rest.drop len)
  | rxBuf => (.ok none, rxBuf)

/-- What ends the reads of a `recvMessage`. -/
inductive ReadsEnd where
  | deadline
  | connectionGone
deriving DecidableEq

inductive RecvResult where
  | message (m : ControlMessage)
  | timeout
  | closed
deriving DecidableEq

/-- `recvMessage`: its result, `m_rxBuf` after it and the chunks it has not read. -/
def recvMessage (readsEnd : ReadsEnd) (rxBuf : List UInt8) (reads : List (List UInt8)) :
    RecvResult × List UInt8 × List (List UInt8) :=
  match takeMessage rxBuf with
  | (.ok (some m), rest) => (.message m, rest, reads)
  | (.error _, rest) => (.closed, rest, reads)
  | (.ok none, rest) =>
      match reads with
      | chunk :: reads => recvMessage readsEnd (rest ++ chunk) reads
      | [] =>
          match readsEnd with
          | .deadline => (.timeout, rest, [])
          | .connectionGone => (.closed, rest, [])

end TcpControlClient
end Client
end FocusVision
