import FocusVision.Client.HandshakeClient
import FocusVision.Client.WireAgreement
import FocusVision.Engine.ControlFraming

/-!
# A handshake between headset and engine

Both ends of one connection: what one writes arrives at the other, in pieces of any size,
and each end gives up whenever it likes.
-/

namespace FocusVision
namespace Client

open Bytes
open Engine (ControlMessage HandshakeServer PairingHost ServerStep VideoConfig VideoCodec
  sendMsg verdict)
open Engine.MsgType
open TcpControlClient (takeMessage)

/-! ### One connection -/

/-- A connection, and the bytes that are under way. -/
structure PairingExchange where
  server : HandshakeServer
  client : HandshakeClient
  toServer : List UInt8 := []
  toClient : List UInt8 := []

inductive ExchangeEvent where
  /-- The engine's task runs on, at a time and with a random number for a new PIN. -/
  | server (now : Nat) (random : UInt32)
  | client
  /-- Some bytes arrive. -/
  | arriveServer (n : Nat)
  | arriveClient (n : Nat)
  | serverGivesUp (written : Nat)
  | clientGivesUp (written : Nat)

namespace PairingExchange

def step (epoch : Nat) (x : PairingExchange) : ExchangeEvent → PairingExchange
  | .server now random =>
      let (bytes, server) := x.server.advance epoch now random
      { x with server, toClient := x.toClient ++ bytes }
  | .client =>
      let (bytes, client) := x.client.advance
      { x with client, toServer := x.toServer ++ bytes }
  | .arriveServer n =>
      { x with
        server := { x.server with inbox := x.server.inbox ++ x.toServer.take n }
        toServer := x.toServer.drop n }
  | .arriveClient n =>
      { x with
        client := { x.client with m_rxBuf := x.client.m_rxBuf ++ x.toClient.take n }
        toClient := x.toClient.drop n }
  | .serverGivesUp written =>
      let (bytes, server) := x.server.giveUp written
      { x with server, toClient := x.toClient ++ bytes }
  | .clientGivesUp written =>
      let (bytes, client) := x.client.giveUp written
      { x with client, toServer := x.toServer ++ bytes }

/-- A new connection: the engine's settings and pairing state, and the PIN that the headset
was given. -/
def start (video : VideoConfig) (codec : VideoCodec) (pairing : PairingHost) (pin : UInt32) :
    PairingExchange :=
  { server := { video, codec, pairing }, client := { pin } }

def run (epoch : Nat) (x : PairingExchange) (events : List ExchangeEvent) : PairingExchange :=
  events.foldl (step epoch) x

end PairingExchange

/-! ### Messages under way -/

/-- The start of a message. -/
def Stub (tail : List UInt8) : Prop :=
  takeMessage tail = (.ok none, tail)

/-- A stream of messages, which ends in the middle of one only if its writer gave up. -/
def Carries (gaveUp : Bool) (messages : List ControlMessage) (stream : List UInt8) : Prop :=
  ∃ tail, stream = messages.flatMap sendMsg ++ tail ∧ Stub tail ∧ (gaveUp = false → tail = [])

/-- No message is longer than a `STREAM_CONFIG`. -/
def Short (messages : List ControlMessage) : Prop :=
  ∀ m ∈ messages, m.payload.length ≤ 27

theorem length_sendMsg
    (m : ControlMessage) :
    (sendMsg m).length = m.payload.length + 5 := by
  unfold sendMsg
  rw [List.length_append, List.length_cons, length_leBytes]
  omega

theorem Short.fits
    {messages : List ControlMessage} (h : Short messages) {m : ControlMessage}
    (hm : m ∈ messages) :
    m.payload.length < Engine.MAX_MSG_LEN :=
  Nat.lt_of_le_of_lt (h m hm) (by decide)

theorem stub_nil :
    Stub [] :=
  rfl

theorem carries_nil
    (gaveUp : Bool) :
    Carries gaveUp [] [] :=
  ⟨[], rfl, stub_nil, fun _ => rfl⟩

/-- Whether the writer gave up or not. -/
theorem Carries.whole
    {messages : List ControlMessage} {stream : List UInt8} (h : Carries false messages stream)
    (gaveUp : Bool) :
    Carries gaveUp messages stream := by
  obtain ⟨tail, hstream, htail, hnil⟩ := h
  exact ⟨tail, hstream, htail, fun _ => hnil rfl⟩

/-- Another message is written. -/
theorem Carries.send
    {messages : List ControlMessage} {stream : List UInt8} (h : Carries false messages stream)
    (m : ControlMessage) :
    Carries false (messages ++ [m]) (stream ++ sendMsg m) := by
  obtain ⟨tail, rfl, -, hnil⟩ := h
  refine ⟨[], ?_, stub_nil, fun _ => rfl⟩
  rw [hnil rfl, List.append_nil, List.append_nil, List.flatMap_append, List.flatMap_singleton]

/-- Not all of a message. -/
theorem stub_take
    {m : ControlMessage} (hm : m.payload.length < Engine.MAX_MSG_LEN) (n : Nat) :
    Stub ((sendMsg m).take (min n ((sendMsg m).length - 1))) := by
  have hpos : 0 < (sendMsg m).length := by
    rw [length_sendMsg]
    omega
  have hwhole := Engine.takeMessage_sendMsg hm []
  rw [List.append_nil] at hwhole
  unfold Stub
  generalize hk : min n ((sendMsg m).length - 1) = k
  have hlt : k < (sendMsg m).length := by omega
  rcases htake : takeMessage ((sendMsg m).take k) with ⟨answer, rest⟩
  rcases Engine.takeMessage_append htake ((sendMsg m).drop k) with ⟨rfl, rfl⟩ | ⟨-, hsame⟩
  · rfl
  · rw [List.take_append_drop, hwhole, Prod.mk.injEq] at hsame
    have hdrop := (List.append_eq_nil_iff.mp hsame.2.symm).2
    rw [List.drop_eq_nil_iff] at hdrop
    omega

/-- The writer gives up in the middle of a message. -/
theorem Carries.giveUp
    {messages : List ControlMessage} {stream tail : List UInt8}
    (h : Carries false messages stream) (htail : Stub tail) :
    Carries true messages (stream ++ tail) := by
  obtain ⟨rest, rfl, -, hnil⟩ := h
  exact ⟨tail, by rw [hnil rfl, List.append_nil], htail, fun hfalse => absurd hfalse (by decide)⟩

/-- What has arrived of a stream holds its first message, or not all of it. -/
theorem Carries.take
    {gaveUp : Bool} {messages : List ControlMessage} {arrived coming : List UInt8}
    (h : Carries gaveUp messages (arrived ++ coming)) (hshort : Short messages) :
    takeMessage arrived = (.ok none, arrived) ∨
      ∃ m later rest, messages = m :: later ∧ takeMessage arrived = (.ok (some m), rest) ∧
        Carries gaveUp later (rest ++ coming) := by
  obtain ⟨tail, hstream, hstub, hnil⟩ := h
  rcases htake : takeMessage arrived with ⟨answer, rest⟩
  rcases Engine.takeMessage_append htake coming with ⟨rfl, rfl⟩ | ⟨hsome, hsame⟩
  · exact Or.inl rfl
  · rw [hstream] at hsame
    cases messages with
    | nil =>
        rw [List.flatMap_nil, List.nil_append, hstub, Prod.mk.injEq] at hsame
        exact absurd hsame.1.symm hsome
    | cons m later =>
        rw [List.flatMap_cons, List.append_assoc,
          Engine.takeMessage_sendMsg (hshort.fits List.mem_cons_self), Prod.mk.injEq] at hsame
        obtain ⟨rfl, hrest⟩ := hsame
        exact Or.inr ⟨m, later, rest, rfl, rfl, tail, hrest.symm, hstub, hnil⟩

/-- Once all of a stream has arrived, its first message is taken. -/
theorem Carries.take_all
    {gaveUp : Bool} {m : ControlMessage} {later : List ControlMessage} {arrived : List UInt8}
    (h : Carries gaveUp (m :: later) arrived) (hshort : Short (m :: later)) :
    ∃ rest, takeMessage arrived = (.ok (some m), rest) ∧ rest.length < arrived.length := by
  obtain ⟨tail, rfl, -, -⟩ := h
  rw [List.flatMap_cons, List.append_assoc]
  refine ⟨later.flatMap sendMsg ++ tail,
    Engine.takeMessage_sendMsg (hshort.fits List.mem_cons_self) _, ?_⟩
  simp only [List.length_append, length_sendMsg]
  omega

/-- Where the client's reader finds no whole message, the engine's reader waits for the rest. -/
theorem readMessageGeneric_of_none
    {inbox : List UInt8} (h : takeMessage inbox = (.ok none, inbox)) :
    Engine.readMessageGeneric inbox = .error .unexpectedEof := by
  match inbox, h with
  | b0 :: b1 :: b2 :: b3 :: tail, h =>
      have hheader : Engine.readExact 4 (b0 :: b1 :: b2 :: b3 :: tail) =
          .ok ([b0, b1, b2, b3], tail) := by
        simp [Engine.readExact]
      have hmax : TcpControlClient.MAX_CONTROL_MESSAGE_LEN = Engine.MAX_MSG_LEN := rfl
      rw [takeMessage, hmax] at h
      unfold Engine.readMessageGeneric
      rw [hheader]
      simp only [bind, Except.bind, pure, Except.pure, throw, throwThe, MonadExceptOf.throw]
      generalize ofLeBytes [b0, b1, b2, b3] = len at h ⊢
      by_cases hbad : len = 0 ∨ Engine.MAX_MSG_LEN < len
      · rw [if_pos hbad] at h
        simp at h
      · rw [if_neg hbad] at h
        obtain ⟨hlen, hlarge⟩ := not_or.mp hbad
        by_cases hshort : tail.length < len
        · simp [hlen, hlarge, Engine.readExact, hshort]
        · rw [if_neg hshort] at h
          simp at h
  | [], _ => simp [Engine.readMessageGeneric, Engine.readExact, bind, Except.bind]
  | [_], _ => simp [Engine.readMessageGeneric, Engine.readExact, bind, Except.bind]
  | [_, _], _ => simp [Engine.readMessageGeneric, Engine.readExact, bind, Except.bind]
  | [_, _, _], _ => simp [Engine.readMessageGeneric, Engine.readExact, bind, Except.bind]

/-! ### Lockstep -/

def helloMessage : ControlMessage :=
  ⟨HELLO, buildHelloPayload Engine.PROTOCOL_VERSION HELLO_CAPS⟩

def helloAckMessage : ControlMessage :=
  ⟨HELLO_ACK, Engine.encodeVersion Engine.PROTOCOL_VERSION⟩

def pinMessage (pin : UInt32) : ControlMessage :=
  ⟨PIN_RESPONSE, leBytes 4 pin.toNat⟩

def configMessage (video : VideoConfig) (codec : VideoCodec) : ControlMessage :=
  ⟨STREAM_CONFIG, Engine.encodeStreamConfig video codec HELLO_CAPS⟩

/-- Where the two ends are, whether the headset knows that its PIN was refused, and which
messages are under way to the engine and to the headset. -/
inductive Meets (pin : UInt32) (video : VideoConfig) (codec : VideoCodec) :
    ClientStep → ServerStep → Bool → List ControlMessage → List ControlMessage → Prop
  | start : Meets pin video codec .sendHello .awaitHello false [] []
  | hello : Meets pin video codec .expectHelloAck .awaitHello false [helloMessage] []
  | greeted : Meets pin video codec .expectHelloAck .sendHelloAck false [] []
  | helloAck : Meets pin video codec .expectHelloAck .sendPinRequest false [] [helloAckMessage]
  | acknowledged : Meets pin video codec .expectPinRequest .sendPinRequest false [] []
  | bothAsked : Meets pin video codec .expectHelloAck .awaitPinResponse false []
      [helloAckMessage, ⟨PIN_REQUEST, []⟩]
  | asked : Meets pin video codec .expectPinRequest .awaitPinResponse false []
      [⟨PIN_REQUEST, []⟩]
  | answers : Meets pin video codec .sendPin .awaitPinResponse false [] []
  | pinSent : Meets pin video codec .expectPinResult .awaitPinResponse false [pinMessage pin] []
  | rejects : Meets pin video codec .expectPinResult .sendPinRejected false [] []
  | refused : Meets pin video codec .expectPinResult .refused false [] [⟨PIN_RESULT, [0x00]⟩]
  | rejected : Meets pin video codec .expectPinResult .refused true [] []
  | accepts : Meets pin video codec .expectPinResult .sendPinAccepted false [] []
  | accepted : Meets pin video codec .expectPinResult .sendStreamConfig false []
      [⟨PIN_RESULT, [0x01]⟩]
  | paired : Meets pin video codec .expectStreamConfig .sendStreamConfig false [] []
  | bothSent : Meets pin video codec .expectPinResult .awaitStreamStart false []
      [⟨PIN_RESULT, [0x01]⟩, configMessage video codec]
  | configSent : Meets pin video codec .expectStreamConfig .awaitStreamStart false []
      [configMessage video codec]
  | configured : Meets pin video codec .pinPeer .awaitStreamStart false [] []
  | pinned : Meets pin video codec .startStream .awaitStreamStart false [] []
  | started : Meets pin video codec .streaming .awaitStreamStart false [⟨STREAM_START, []⟩] []
  | streams : Meets pin video codec .streaming .ready false [] []

/-- The engine's pairing state once the PIN has met this verdict. -/
def Checked (epoch : Nat) (pairing : PairingHost) (pin : UInt32) :
    Option Bool → PairingHost → Prop
  | none, host => host = pairing
  | some accepted, host =>
      ∃ now random answer,
        pairing.step epoch ⟨now, random, .verify pin⟩ = (.verified answer, host) ∧
          answer.isOk = accepted

/-- The headset has read its stream configuration. -/
def ClientStep.configured : ClientStep → Bool
  | .pinPeer | .startStream | .streaming => true
  | _ => false

/-- `handshake` has returned with success. -/
def ClientStep.paired : ClientStep → Bool
  | .startStream | .streaming => true
  | _ => false

/-- The configuration that the headset should have. -/
def agreedConfig (video : VideoConfig) (codec : VideoCodec) : StreamConfigView :=
  (parseStreamConfig (Engine.encodeStreamConfig video codec HELLO_CAPS) {}).2

/-- How many steps are left to the engine. -/
def ServerStep.left : ServerStep → Nat
  | .awaitHello => 7
  | .sendHelloAck => 6
  | .sendPinRequest => 5
  | .awaitPinResponse => 4
  | .sendPinAccepted | .sendPinRejected => 3
  | .sendStreamConfig => 2
  | .awaitStreamStart => 1
  | .ready | .refused => 0

/-- How many steps are left to the headset. -/
def ClientStep.left : ClientStep → Nat
  | .sendHello => 8
  | .expectHelloAck => 7
  | .expectPinRequest => 6
  | .sendPin => 5
  | .expectPinResult => 4
  | .expectStreamConfig => 3
  | .pinPeer => 2
  | .startStream => 1
  | .streaming => 0

/-- What is left to do; a step weighs more than the bytes of the message that it sends. -/
def PairingExchange.left (x : PairingExchange) : Nat :=
  33 * (ServerStep.left x.server.step + if x.client.closed then 0 else x.client.step.left) +
    (x.toServer.length + x.toClient.length)

/-- The headset only closes the connection because its PIN was refused. -/
def HandshakeClient.StaysUntilRefused (c : HandshakeClient) : Prop :=
  c.closed = true → c.result = some .pinRejected

/-- The two ends keep to the order of the handshake, whoever gives up. -/
structure Lockstep (epoch : Nat) (video : VideoConfig) (codec : VideoCodec)
    (pairing : PairingHost) (pin : UInt32) (x : PairingExchange) : Prop where
  video_eq : x.server.video = video
  codec_eq : x.server.codec = codec
  pin_eq : x.client.pin = pin
  caps : x.server.step ≠ .awaitHello → x.server.clientCaps = HELLO_CAPS
  checked : Checked epoch pairing pin (verdict x.server.step) x.server.pairing
  config : x.client.step.configured = true → x.client.m_config = agreedConfig video codec
  paired : x.client.result = some .ok ↔ x.client.step.paired = true
  rejected_closed : x.client.result = some .pinRejected → x.client.closed = true
  meets : ∃ toServer toClient,
    Meets pin video codec x.client.step x.server.step
      (x.client.result == some .pinRejected) toServer toClient ∧
    Carries x.client.closed toServer (x.server.inbox ++ x.toServer) ∧
    Carries x.server.failed toClient (x.client.m_rxBuf ++ x.toClient)

/-! ### One step -/

theorem sendMessageGeneric_eq
    (m : ControlMessage) :
    (Engine.sendMessageGeneric m).flatten = sendMsg m :=
  (Engine.sendMessageGeneric_flatten m).1

theorem sendMessage_eq
    (m : ControlMessage) :
    (TcpControlClient.sendMessage true m).getD [] = sendMsg m := by
  rw [(Engine.sendMessageGeneric_flatten m).2]
  rfl

theorem readU32Le_leBytes
    (v : UInt32) :
    Engine.readU32Le (leBytes 4 v.toNat) 0 = v := by
  have hlen : (leBytes 4 v.toNat).take 4 = leBytes 4 v.toNat :=
    List.take_of_length_le (by rw [length_leBytes])
  unfold Engine.readU32Le
  rw [List.drop_zero, hlen, ofLeBytes_leBytes v.toNat_lt]
  exact UInt32.ofNat_toNat

variable {epoch : Nat} {video : VideoConfig} {codec : VideoCodec} {pairing : PairingHost}
  {pin : UInt32} {x : PairingExchange} {now : Nat} {random : UInt32}
  {toServer toClient : List ControlMessage}

/-- Every message of the handshake is short. -/
theorem Meets.short
    {cs : ClientStep} {ss : ServerStep} {rejected : Bool}
    (h : Meets pin video codec cs ss rejected toServer toClient) :
    Short toServer ∧ Short toClient := by
  have hconfig : (configMessage video codec).payload.length = 27 := by
    simp [configMessage, Engine.encodeStreamConfig]
  unfold Short
  cases h <;>
    simp [helloMessage, helloAckMessage, pinMessage, hconfig, buildHelloPayload,
      Engine.encodeVersion]

namespace PairingExchange

/-- The engine writes a message. -/
theorem server_sends
    (hfailed : x.server.failed = false) {m : ControlMessage} {next : ServerStep}
    (hout : x.server.outgoing = some (m, next)) :
    x.step epoch (.server now random) =
      { x with
        server := { x.server with step := next }
        toClient := x.toClient ++ sendMsg m } := by
  simp only [step, HandshakeServer.advance, hfailed, Bool.false_eq_true, if_false, hout,
    sendMessageGeneric_eq]

/-- The engine waits, or takes the first message that is under way. -/
theorem server_takes
    (hfailed : x.server.failed = false) (hout : x.server.outgoing = none)
    (hawaits : x.server.awaits = true)
    (hstream : Carries x.client.closed toServer (x.server.inbox ++ x.toServer))
    (hshort : Short toServer) :
    x.step epoch (.server now random) = x ∨
      ∃ m later rest, toServer = m :: later ∧
        x.step epoch (.server now random) =
          { x with server := { x.server with inbox := rest }.handle epoch now random m } ∧
        Carries x.client.closed later (rest ++ x.toServer) := by
  rcases hstream.take hshort with hnone | ⟨m, later, rest, hfirst, htake, hlater⟩
  · left
    simp only [step, HandshakeServer.advance, hfailed, Bool.false_eq_true, if_false, hout,
      hawaits, if_true, readMessageGeneric_of_none hnone, List.append_nil]
  · right
    refine ⟨m, later, rest, hfirst, ?_, hlater⟩
    have hread := Engine.readMessageGeneric_iff.mpr htake
    simp only [step, HandshakeServer.advance, hfailed, Bool.false_eq_true, if_false, hout,
      hawaits, if_true, hread, List.append_nil]

/-- The headset writes a message. -/
theorem client_sends
    (hopen : x.client.closed = false) {m : ControlMessage} {next : ClientStep}
    (hout : x.client.outgoing = some (m, next)) :
    x.step epoch .client =
      { x with
        client := { x.client with step := next }
        toServer := x.toServer ++ sendMsg m } := by
  simp only [step, HandshakeClient.advance, hopen, Bool.false_eq_true, if_false, hout,
    sendMessage_eq]

/-- The headset waits, or takes the first message that is under way. -/
theorem client_takes
    (hopen : x.client.closed = false) (hout : x.client.outgoing = none) {msgType : UInt8}
    (hexpected : x.client.expected = some msgType)
    (hstream : Carries x.server.failed toClient (x.client.m_rxBuf ++ x.toClient))
    (hshort : Short toClient) :
    x.step epoch .client = x ∨
      ∃ m later rest, toClient = m :: later ∧
        (m.msgType = msgType → x.step epoch .client =
          { x with client := { x.client with m_rxBuf := rest }.handle m.payload }) ∧
        Carries x.server.failed later (rest ++ x.toClient) := by
  rcases hstream.take hshort with hnone | ⟨m, later, rest, hfirst, htake, hlater⟩
  · left
    simp only [step, HandshakeClient.advance, hopen, Bool.false_eq_true, if_false, hout,
      hexpected, hnone, List.append_nil]
  · right
    refine ⟨m, later, rest, hfirst, fun htype => ?_, hlater⟩
    simp only [step, HandshakeClient.advance, hopen, Bool.false_eq_true, if_false, hout,
      hexpected, htake, htype, if_true, List.append_nil]

end PairingExchange

end Client
end FocusVision
