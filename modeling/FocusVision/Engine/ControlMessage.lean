import FocusVision.Lib.Bytes

/-!
# Control messages

The framing `[length u32 LE][type][payload]` of the control channel: `send_msg` and
`take_control_message` of the engine's `engine.rs`, `send_message_generic` and
`read_message_generic` of `tcp_server.rs`, which the handshake uses.  A read from the
network is a byte list; the deadlines and the log messages are left out.
-/

namespace FocusVision
namespace Engine

open Bytes

def MAX_MSG_LEN : Nat := 65536

structure ControlMessage where
  msgType : UInt8
  payload : List UInt8
deriving DecidableEq

/-- `msg[0]` and `msg[1..]` of a message that `take_control_message` took. -/
def splitMessage (msg : List UInt8) : ControlMessage :=
  { msgType := msg.headD 0
    payload := msg.drop 1 }

/-- `(1 + payload.len()) as u32`. -/
def frameLength (payload : List UInt8) : Nat :=
  (1 + payload.length) % 2 ^ 32

/-- `send_msg`: the frame, written at once. -/
def sendMsg (m : ControlMessage) : List UInt8 :=
  leBytes 4 (frameLength m.payload) ++ m.msgType :: m.payload

/-- `send_message_generic`: the three writes. -/
def sendMessageGeneric (m : ControlMessage) : List (List UInt8) :=
  [leBytes 4 (frameLength m.payload), [m.msgType], m.payload]

/-- `take_control_message`: what it returns, and the inbox after it. -/
def takeControlMessage : List UInt8 → Except Nat (Option (List UInt8)) × List UInt8
  | b0 :: b1 :: b2 :: b3 :: rest =>
      let len := ofLeBytes [b0, b1, b2, b3]
      -- an empty frame carries nothing
      if len = 0 then takeControlMessage rest
      else if MAX_MSG_LEN < len then (.error len, b0 :: b1 :: b2 :: b3 :: rest)
      else if rest.length < len then (.ok none, b0 :: b1 :: b2 :: b3 :: rest)
      else (.ok (some (rest.take len)), rest.drop len)
  | inbox => (.ok none, inbox)

/-- Why `read_message_generic` gave up. -/
inductive ReadError where
  | unexpectedEof
  | emptyMessage
  | tooLarge (len : Nat)
deriving DecidableEq

/-- `read_exact` on a stream that ends with `stream`. -/
def readExact (n : Nat) (stream : List UInt8) :
    Except ReadError (List UInt8 × List UInt8) :=
  if stream.length < n then .error .unexpectedEof
  else .ok (stream.take n, stream.drop n)

/-- `read_message_generic`: the message, and the stream behind it. -/
def readMessageGeneric (stream : List UInt8) :
    Except ReadError (ControlMessage × List UInt8) := do
  let (lenBuf, stream) ← readExact 4 stream
  let len := ofLeBytes lenBuf
  if len = 0 then throw .emptyMessage
  if MAX_MSG_LEN < len then throw (.tooLarge len)
  let (msgBuf, stream) ← readExact len stream
  return (splitMessage msgBuf, stream)

end Engine
end FocusVision
