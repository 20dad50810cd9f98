import FocusVision.Client.TcpClient
import FocusVision.Lib.Framing

/-!
# Framing of the control channel

The engine's `take_control_message` and the client's `takeMessage` as framers of one
format.  Neither depends on how the stream is cut into reads, and both read back
every list of messages.  They differ in one respect: the engine skips an empty frame
and the client takes it for an error.  The handshake's reader is strict like the
client.
-/

namespace FocusVision
namespace Engine

open Bytes
open Client.TcpControlClient (takeMessage recvMessage RecvResult ReadsEnd)

/-! ### The front of the inbox -/

section Front

variable {b0 b1 b2 b3 : UInt8} {rest : List UInt8}

theorem header_eq_zero
    (h : ofLeBytes [b0, b1, b2, b3] = 0) :
    b0 :: b1 :: b2 :: b3 :: rest = 0 :: 0 :: 0 :: 0 :: rest := by
  simp only [ofLeBytes] at h
  have h0 : b0 = 0 := UInt8.toNat_inj.mp (show b0.toNat = 0 by omega)
  have h1 : b1 = 0 := UInt8.toNat_inj.mp (show b1.toNat = 0 by omega)
  have h2 : b2 = 0 := UInt8.toNat_inj.mp (show b2.toNat = 0 by omega)
  have h3 : b3 = 0 := UInt8.toNat_inj.mp (show b3.toNat = 0 by omega)
  rw [h0, h1, h2, h3]

end Front

/-! ### The engine's framer -/

theorem takeControlMessage_shrinks
    {inbox msg rest : List UInt8}
    (h : takeControlMessage inbox = (.ok (some msg), rest)) :
    rest.length < inbox.length := by
  induction inbox using takeControlMessage.induct with
  | case1 b0 b1 b2 b3 tail len hlen ih =>
      rw [takeControlMessage, if_pos hlen] at h
      have hrest := ih h
      simp only [List.length_cons]
      omega
  | case2 b0 b1 b2 b3 tail len hlen hlarge =>
      rw [takeControlMessage, if_neg hlen, if_pos hlarge] at h
      cases h
  | case3 b0 b1 b2 b3 tail len hlen hlarge hshort =>
      rw [takeControlMessage, if_neg hlen, if_neg hlarge, if_pos hshort] at h
      cases h
  | case4 b0 b1 b2 b3 tail len hlen hlarge hshort =>
      rw [takeControlMessage, if_neg hlen, if_neg hlarge, if_neg hshort] at h
      cases h
      simp only [List.length_drop, List.length_cons]
      omega
  | case5 inbox hshort =>
      rw [takeControlMessage] at h
      · cases h
      · exact hshort

/-- What is there is answered again when more arrives; an incomplete message is not. -/
theorem takeControlMessage_append
    {inbox rest : List UInt8} {answer : Except Nat (Option (List UInt8))}
    (h : takeControlMessage inbox = (answer, rest)) (ys : List UInt8) :
    (answer = .ok none ∧ takeControlMessage (inbox ++ ys) = takeControlMessage (rest ++ ys)) ∨
      (answer ≠ .ok none ∧ takeControlMessage (inbox ++ ys) = (answer, rest ++ ys)) := by
  induction inbox using takeControlMessage.induct with
  | case1 b0 b1 b2 b3 tail len hlen ih =>
      rw [takeControlMessage, if_pos hlen] at h
      have hskip : takeControlMessage (b0 :: b1 :: b2 :: b3 :: tail ++ ys) =
          takeControlMessage (tail ++ ys) := by
        simp only [List.cons_append]
        rw [takeControlMessage, if_pos hlen]
      rw [hskip]
      exact ih h
  | case2 b0 b1 b2 b3 tail len hlen hlarge =>
      rw [takeControlMessage, if_neg hlen, if_pos hlarge] at h
      cases h
      refine Or.inr ⟨by simp, ?_⟩
      simp only [List.cons_append]
      rw [takeControlMessage, if_neg hlen, if_pos hlarge]
  | case3 b0 b1 b2 b3 tail len hlen hlarge hshort =>
      rw [takeControlMessage, if_neg hlen, if_neg hlarge, if_pos hshort] at h
      cases h
      exact Or.inl ⟨rfl, rfl⟩
  | case4 b0 b1 b2 b3 tail len hlen hlarge hshort =>
      rw [takeControlMessage, if_neg hlen, if_neg hlarge, if_neg hshort] at h
      cases h
      have hall : len ≤ tail.length := Nat.le_of_not_lt hshort
      have hlonger : ¬ (tail ++ ys).length < len := by
        rw [List.length_append]
        omega
      refine Or.inr ⟨by simp, ?_⟩
      simp only [List.cons_append]
      rw [takeControlMessage, if_neg hlen, if_neg hlarge, if_neg hlonger,
        List.take_append_of_le_length hall, List.drop_append_of_le_length hall]
  | case5 inbox hshort =>
      rw [takeControlMessage] at h
      · cases h
        exact Or.inl ⟨rfl, rfl⟩
      · exact hshort

/-- The engine's end of the control channel. -/
def controlFramer : Framer UInt8 (List UInt8) Nat where
  take := takeControlMessage
  shrinks := takeControlMessage_shrinks
  message_append h ys := by
    rcases takeControlMessage_append h ys with ⟨hnone, -⟩ | ⟨-, hsame⟩
    · cases hnone
    · exact hsame
  error_append h ys := by
    rcases takeControlMessage_append h ys with ⟨hnone, -⟩ | ⟨-, hsame⟩
    · cases hnone
    · exact hsame
  none_append h ys := by
    rcases takeControlMessage_append h ys with ⟨-, hagain⟩ | ⟨hsome, -⟩
    · exact hagain
    · exact absurd rfl hsome

/-! ### The client's framer -/

/-- The answer of the engine in the client's terms. -/
def strict : Except Nat (Option (List UInt8)) → Except Unit (Option ControlMessage)
  | .error _ => .error ()
  | .ok none => .ok none
  | .ok (some msg) => .ok (some (splitMessage msg))

theorem splitMessage_take
    {len : Nat} (rest : List UInt8) (h : len ≠ 0) :
    splitMessage (rest.take len) = ⟨rest.headD 0, (rest.take len).drop 1⟩ := by
  obtain ⟨n, rfl⟩ := Nat.exists_eq_succ_of_ne_zero h
  cases rest with
  | nil => rfl
  | cons b rest => rfl

/-- At an empty frame the client gives up; at everything else it does what the engine does. -/
theorem takeMessage_cases
    (inbox : List UInt8) :
    (∃ rest, inbox = 0 :: 0 :: 0 :: 0 :: rest ∧ takeMessage inbox = (.error (), inbox)) ∨
      takeMessage inbox =
        (strict (takeControlMessage inbox).1, (takeControlMessage inbox).2) := by
  have hmax : Client.TcpControlClient.MAX_CONTROL_MESSAGE_LEN = MAX_MSG_LEN := rfl
  cases inbox using takeControlMessage.induct with
  | case1 b0 b1 b2 b3 tail len hlen =>
      refine Or.inl ⟨tail, header_eq_zero hlen, ?_⟩
      rw [takeMessage]
      exact if_pos (Or.inl hlen)
  | case2 b0 b1 b2 b3 tail len hlen hlarge =>
      refine Or.inr ?_
      rw [takeControlMessage, if_neg hlen, if_pos hlarge, takeMessage, hmax]
      exact if_pos (Or.inr hlarge)
  | case3 b0 b1 b2 b3 tail len hlen hlarge hshort =>
      refine Or.inr ?_
      rw [takeControlMessage, if_neg hlen, if_neg hlarge, if_pos hshort, takeMessage, hmax]
      exact (if_neg (not_or.mpr ⟨hlen, hlarge⟩)).trans (if_pos hshort)
  | case4 b0 b1 b2 b3 tail len hlen hlarge hshort =>
      refine Or.inr ?_
      rw [takeControlMessage, if_neg hlen, if_neg hlarge, if_neg hshort, takeMessage, hmax]
      refine (if_neg (not_or.mpr ⟨hlen, hlarge⟩)).trans ((if_neg hshort).trans ?_)
      exact congrArg (fun m => (Except.ok (some m), tail.drop len))
        (splitMessage_take tail hlen).symm
  | case5 inbox hshort =>
      refine Or.inr ?_
      rw [takeControlMessage, takeMessage]
      · rfl
      · exact hshort
      · exact hshort

theorem takeMessage_shrinks
    {inbox rest : List UInt8} {m : ControlMessage}
    (h : takeMessage inbox = (.ok (some m), rest)) :
    rest.length < inbox.length := by
  rcases takeMessage_cases inbox with ⟨_, -, hempty⟩ | hsame
  · rw [hempty] at h
    cases h
  · rw [hsame] at h
    rcases htake : takeControlMessage inbox with ⟨_ | _ | msg, rest'⟩
    · rw [htake] at h
      cases h
    · rw [htake] at h
      cases h
    · rw [htake] at h
      cases h
      exact takeControlMessage_shrinks htake

/-- The client's answers stay as well, and an incomplete message stays where it is. -/
theorem takeMessage_append
    {inbox rest : List UInt8} {answer : Except Unit (Option ControlMessage)}
    (h : takeMessage inbox = (answer, rest)) (ys : List UInt8) :
    (answer = .ok none ∧ rest = inbox) ∨
      (answer ≠ .ok none ∧ takeMessage (inbox ++ ys) = (answer, rest ++ ys)) := by
  match inbox, h with
  | b0 :: b1 :: b2 :: b3 :: tail, h =>
      simp only [List.cons_append]
      rw [takeMessage] at h ⊢
      generalize ofLeBytes [b0, b1, b2, b3] = len at h ⊢
      split_ifs at h with hbad hshort
      · cases h
        exact Or.inr ⟨by simp, if_pos hbad⟩
      · cases h
        exact Or.inl ⟨rfl, rfl⟩
      · cases h
        have hall : len ≤ tail.length := Nat.le_of_not_lt hshort
        have hlonger : ¬ (tail ++ ys).length < len := by
          rw [List.length_append]
          omega
        refine Or.inr ⟨by simp, ?_⟩
        have hhead : (tail ++ ys).headD 0 = tail.headD 0 := by
          cases tail with
          | nil => exact absurd (Or.inl (Nat.le_zero.mp hall)) hbad
          | cons b tail => rfl
        rw [if_neg hbad, if_neg hlonger, List.take_append_of_le_length hall,
          List.drop_append_of_le_length hall, hhead]
  | [], h =>
      cases h
      exact Or.inl ⟨rfl, rfl⟩
  | [_], h =>
      cases h
      exact Or.inl ⟨rfl, rfl⟩
  | [_, _], h =>
      cases h
      exact Or.inl ⟨rfl, rfl⟩
  | [_, _, _], h =>
      cases h
      exact Or.inl ⟨rfl, rfl⟩

/-- The client's end of the control channel. -/
def clientFramer : Framer UInt8 ControlMessage Unit where
  take := takeMessage
  shrinks := takeMessage_shrinks
  message_append h ys := by
    rcases takeMessage_append h ys with ⟨hnone, -⟩ | ⟨-, hsame⟩
    · cases hnone
    · exact hsame
  error_append h ys := by
    rcases takeMessage_append h ys with ⟨hnone, -⟩ | ⟨-, hsame⟩
    · cases hnone
    · exact hsame
  none_append h ys := by
    rcases takeMessage_append h ys with ⟨-, hrest⟩ | ⟨hsome, -⟩
    · rw [hrest]
    · exact absurd rfl hsome

/-! ### What is sent is taken -/

theorem frameLength_eq
    {payload : List UInt8} (h : payload.length < MAX_MSG_LEN) :
    frameLength payload = 1 + payload.length := by
  unfold MAX_MSG_LEN at h
  exact Nat.mod_eq_of_lt (by omega)

/-- A message, as the engine's inbox holds it. -/
def joinMessage (m : ControlMessage) : List UInt8 :=
  m.msgType :: m.payload

theorem splitMessage_joinMessage
    (m : ControlMessage) :
    splitMessage (joinMessage m) = m :=
  rfl

theorem takeControlMessage_sendMsg
    {m : ControlMessage} (h : m.payload.length < MAX_MSG_LEN) (ys : List UInt8) :
    takeControlMessage (sendMsg m ++ ys) = (.ok (some (joinMessage m)), ys) := by
  have hlen := frameLength_eq h
  have hbytes := ofLeBytes_leBytes (k := 4) (n := frameLength m.payload)
    (Nat.mod_lt _ (by decide))
  have hbody : (joinMessage m).length = frameLength m.payload := by
    rw [hlen, Nat.add_comm]
    rfl
  have hframe : sendMsg m ++ ys = leBytes 4 (frameLength m.payload) ++ (joinMessage m ++ ys) :=
    List.append_assoc _ _ _
  have hshort : ¬ (joinMessage m ++ ys).length < frameLength m.payload := by
    rw [List.length_append]
    omega
  have htake : (joinMessage m ++ ys).take (frameLength m.payload) = joinMessage m :=
    List.take_left' hbody
  have hdrop : (joinMessage m ++ ys).drop (frameLength m.payload) = ys :=
    List.drop_left' hbody
  rw [hframe]
  generalize joinMessage m ++ ys = tail at hshort htake hdrop ⊢
  simp only [leBytes, List.cons_append, List.nil_append] at hbytes ⊢
  rw [takeControlMessage, hbytes, if_neg (by omega), if_neg (by omega), if_neg hshort, htake,
    hdrop]

theorem sendMsg_ne_empty
    {m : ControlMessage} (h : m.payload.length < MAX_MSG_LEN) (ys rest : List UInt8) :
    sendMsg m ++ ys ≠ 0 :: 0 :: 0 :: 0 :: rest := by
  intro heq
  have hbytes := ofLeBytes_leBytes (k := 4) (n := frameLength m.payload)
    (Nat.mod_lt _ (by decide))
  have hlen := frameLength_eq h
  have hfour : (sendMsg m ++ ys).take 4 = leBytes 4 (frameLength m.payload) := by
    unfold sendMsg
    rw [List.append_assoc]
    exact List.take_left' (length_leBytes 4 _)
  rw [heq] at hfour
  rw [← hfour] at hbytes
  have hzero : ofLeBytes ((0 :: 0 :: 0 :: 0 :: rest : List UInt8).take 4) = 0 := rfl
  omega

theorem takeMessage_sendMsg
    {m : ControlMessage} (h : m.payload.length < MAX_MSG_LEN) (ys : List UInt8) :
    takeMessage (sendMsg m ++ ys) = (.ok (some m), ys) := by
  rcases takeMessage_cases (sendMsg m ++ ys) with ⟨rest, hempty, -⟩ | hsame
  · exact absurd hempty (sendMsg_ne_empty h ys rest)
  · rw [hsame, takeControlMessage_sendMsg h]
    rfl

section RoundTrip

variable {messages : List ControlMessage}
  (h : ∀ m ∈ messages, m.payload.length < MAX_MSG_LEN) (ys : List UInt8)

include h

theorem drain_sendMsg_control :
    controlFramer.drain (messages.flatMap sendMsg ++ ys) =
      (controlFramer.drain ys).after (messages.map joinMessage) :=
  Framer.drain_flatMap (fun m hm => takeControlMessage_sendMsg (h m hm)) ys

theorem drain_sendMsg_client :
    clientFramer.drain (messages.flatMap sendMsg ++ ys) =
      (clientFramer.drain ys).after messages := by
  have hdrain := @Framer.drain_flatMap _ _ _ clientFramer ControlMessage sendMsg id messages
    (fun m hm => takeMessage_sendMsg (h m hm)) ys
  rw [List.map_id] at hdrain
  exact hdrain

end RoundTrip

/-- The three writes of the handshake make the same frame, and so does the client's buffer. -/
theorem sendMessageGeneric_flatten
    (m : ControlMessage) :
    (sendMessageGeneric m).flatten = sendMsg m ∧
      Client.TcpControlClient.sendMessage true m = some (sendMsg m) := by
  refine ⟨?_, rfl⟩
  unfold sendMessageGeneric sendMsg
  simp

/-! ### Empty frames -/

/-- Behind whole messages, the stream holds a frame of length zero. -/
def HasEmptyFrame (stream : List UInt8) : Prop :=
  ∃ (messages : List ControlMessage) (rest : List UInt8),
    (∀ m ∈ messages, m.payload.length < MAX_MSG_LEN) ∧
      stream = messages.flatMap sendMsg ++ 0 :: 0 :: 0 :: 0 :: rest

theorem HasEmptyFrame.cons
    {m : ControlMessage} {stream : List UInt8} (h : HasEmptyFrame stream)
    (hm : m.payload.length < MAX_MSG_LEN) :
    HasEmptyFrame (sendMsg m ++ stream) := by
  obtain ⟨messages, rest, hsmall, rfl⟩ := h
  refine ⟨m :: messages, rest, ?_, ?_⟩
  · intro m' hm'
    rcases List.mem_cons.mp hm' with rfl | hm'
    · exact hm
    · exact hsmall m' hm'
  · rw [List.flatMap_cons, List.append_assoc]

/-- What the client takes off the front is the frame of a message. -/
theorem takeMessage_sound
    {inbox rest : List UInt8} {m : ControlMessage}
    (h : takeMessage inbox = (.ok (some m), rest)) :
    m.payload.length < MAX_MSG_LEN ∧ inbox = sendMsg m ++ rest := by
  match inbox, h with
  | b0 :: b1 :: b2 :: b3 :: tail, h =>
      have hbytes := leBytes_ofLeBytes [b0, b1, b2, b3]
      rw [takeMessage] at h
      generalize ofLeBytes [b0, b1, b2, b3] = len at h hbytes
      split_ifs at h with hbad hshort
      · cases h
      · cases h
      · obtain ⟨hlen, hlarge⟩ := not_or.mp hbad
        obtain ⟨n, rfl⟩ := Nat.exists_eq_succ_of_ne_zero hlen
        cases tail with
        | nil => exact absurd (Nat.zero_lt_succ n) hshort
        | cons b tail =>
            cases h
            have hn : n ≤ tail.length := Nat.le_of_succ_le_succ (Nat.le_of_not_lt hshort)
            have hsmall : (tail.take n).length < MAX_MSG_LEN := by
              rw [List.length_take, Nat.min_eq_left hn]
              exact Nat.lt_of_succ_le (Nat.le_of_not_lt hlarge)
            refine ⟨hsmall, ?_⟩
            have hlength : frameLength (tail.take n) = n + 1 := by
              rw [frameLength_eq hsmall, List.length_take, Nat.min_eq_left hn, Nat.add_comm]
            calc b0 :: b1 :: b2 :: b3 :: b :: tail
                = leBytes 4 (n + 1) ++ b :: tail := congrArg (· ++ b :: tail) hbytes.symm
              _ = leBytes 4 (frameLength (tail.take n)) ++
                    b :: (tail.take n ++ tail.drop n) := by rw [hlength, List.take_append_drop]
              _ = sendMsg ⟨b, tail.take n⟩ ++ tail.drop n := by simp [sendMsg]

/-- Without an empty frame the client reads what the engine reads. -/
theorem drain_of_not_hasEmptyFrame
    {stream : List UInt8} (h : ¬ HasEmptyFrame stream) :
    (clientFramer.drain stream).messages =
        (controlFramer.drain stream).messages.map splitMessage ∧
      (clientFramer.drain stream).error = (controlFramer.drain stream).error.map (fun _ => ()) ∧
      (clientFramer.drain stream).rest = (controlFramer.drain stream).rest := by
  have agrees (inbox : List UInt8) (hno : ¬ HasEmptyFrame inbox) :
      clientFramer.take inbox =
        (strict (controlFramer.take inbox).1, (controlFramer.take inbox).2) := by
    rcases takeMessage_cases inbox with ⟨rest, rfl, -⟩ | hsame
    · exact absurd ⟨[], rest, by simp, rfl⟩ hno
    · exact hsame
  induction stream using controlFramer.drain_induction with
  | hmessage xs msg rest htake ih =>
      have hclient := agrees xs h
      rw [htake] at hclient
      obtain ⟨hsmall, hframe⟩ := takeMessage_sound hclient
      obtain ⟨hmessages, herror, hrest⟩ := ih (fun hempty => h (hframe ▸ hempty.cons hsmall))
      rw [Framer.drain_message hclient, Framer.drain_message htake]
      simp [hmessages, herror, hrest]
  | hnone xs rest htake =>
      have hclient := agrees xs h
      rw [htake] at hclient
      rw [Framer.drain_none hclient, Framer.drain_none htake]
      simp
  | herror xs e rest htake =>
      have hclient := agrees xs h
      rw [htake] at hclient
      rw [Framer.drain_error hclient, Framer.drain_error htake]
      simp

/-- At an empty frame the client gives up and the engine reads on. -/
theorem drain_of_hasEmptyFrame
    {messages : List ControlMessage} (h : ∀ m ∈ messages, m.payload.length < MAX_MSG_LEN)
    (rest : List UInt8) :
    clientFramer.drain (messages.flatMap sendMsg ++ 0 :: 0 :: 0 :: 0 :: rest) =
        ⟨messages, some (), 0 :: 0 :: 0 :: 0 :: rest⟩ ∧
      controlFramer.drain (messages.flatMap sendMsg ++ 0 :: 0 :: 0 :: 0 :: rest) =
        (controlFramer.drain rest).after (messages.map joinMessage) := by
  have hclient : clientFramer.take (0 :: 0 :: 0 :: 0 :: rest) =
      (.error (), 0 :: 0 :: 0 :: 0 :: rest) := rfl
  have hcontrol : controlFramer.take (0 :: 0 :: 0 :: 0 :: rest) = controlFramer.take rest := by
    change takeControlMessage _ = takeControlMessage _
    rw [takeControlMessage]
    exact if_pos rfl
  rw [drain_sendMsg_client h, drain_sendMsg_control h, Framer.drain_error hclient,
    Framer.drain_congr hcontrol]
  exact ⟨congrArg (fun ms => Drained.mk ms _ _) (List.append_nil messages), rfl⟩

/-! ### The other readers -/

/-- The handshake's reader takes what the client takes. -/
theorem readMessageGeneric_iff
    {stream rest : List UInt8} {m : ControlMessage} :
    readMessageGeneric stream = .ok (m, rest) ↔
      takeMessage stream = (.ok (some m), rest) := by
  match stream with
  | b0 :: b1 :: b2 :: b3 :: tail =>
      have hheader : readExact 4 (b0 :: b1 :: b2 :: b3 :: tail) =
          .ok ([b0, b1, b2, b3], tail) := by
        simp [readExact]
      have hmax : Client.TcpControlClient.MAX_CONTROL_MESSAGE_LEN = MAX_MSG_LEN := rfl
      unfold readMessageGeneric
      rw [hheader, takeMessage, hmax]
      simp only [bind, Except.bind, pure, Except.pure, throw, throwThe, MonadExceptOf.throw]
      generalize ofLeBytes [b0, b1, b2, b3] = len
      by_cases hlen : len = 0
      · simp [hlen]
      · by_cases hlarge : MAX_MSG_LEN < len
        · simp [hlen, hlarge]
        · by_cases hshort : tail.length < len
          · simp [hlen, hlarge, readExact, hshort]
          · simp [hlen, hlarge, readExact, hshort, splitMessage_take tail hlen]
  | [] => simp [readMessageGeneric, readExact, takeMessage, bind, Except.bind]
  | [_] => simp [readMessageGeneric, readExact, takeMessage, bind, Except.bind]
  | [_, _] => simp [readMessageGeneric, readExact, takeMessage, bind, Except.bind]
  | [_, _, _] => simp [readMessageGeneric, readExact, takeMessage, bind, Except.bind]

/-- What a `recvMessage` returns is what comes next in its buffer and its reads. -/
theorem recvMessage_spec
    (readsEnd : ReadsEnd) (rxBuf : List UInt8) (reads : List (List UInt8)) :
    match recvMessage readsEnd rxBuf reads with
    | (.message m, rest, unread) =>
        clientFramer.drain (rxBuf ++ reads.flatten) =
          (clientFramer.drain (rest ++ unread.flatten)).after [m]
    | (.timeout, rest, unread) =>
        clientFramer.drain (rxBuf ++ reads.flatten) = ⟨[], none, rest⟩ ∧ unread = [] ∧
          readsEnd = .deadline
    | (.closed, _, _) =>
        (clientFramer.drain (rxBuf ++ reads.flatten)).messages = [] ∧
          ((clientFramer.drain (rxBuf ++ reads.flatten)).error = none →
            readsEnd = .connectionGone) := by
  induction reads generalizing rxBuf with
  | nil =>
      rw [recvMessage, List.flatten_nil, List.append_nil]
      rcases htake : takeMessage rxBuf with ⟨_ | _ | m, rest⟩
      · have hdrain := Framer.drain_error (F := clientFramer) htake
        simp [hdrain]
      · have hdrain := Framer.drain_none (F := clientFramer) htake
        cases readsEnd <;> simp [hdrain]
      · have hdrain := Framer.drain_message (F := clientFramer) htake
        simp [hdrain]
  | cons chunk reads ih =>
      rw [recvMessage]
      rcases htake : takeMessage rxBuf with ⟨_ | _ | m, rest⟩
      · have hdrain := Framer.drain_error (F := clientFramer)
          (clientFramer.error_append htake (chunk :: reads).flatten)
        simp only [hdrain]
        simp
      · have hagain : clientFramer.drain (rxBuf ++ (chunk :: reads).flatten) =
            clientFramer.drain (rest ++ chunk ++ reads.flatten) := by
          rw [List.append_assoc]
          exact Framer.drain_congr (clientFramer.none_append htake _)
        simp only [hagain]
        exact ih (rest ++ chunk)
      · exact Framer.drain_message (F := clientFramer)
          (clientFramer.message_append htake (chunk :: reads).flatten)

/-! ### The control channel -/

/--
Cutting the stream into reads does not matter to `F`, and it reads back every list
of messages.
-/
structure FramesControl {μ ε : Type} (F : Framer UInt8 μ ε) (message : μ → ControlMessage) :
    Prop where
  reads : ∀ chunks, F.Reads chunks (F.received chunks).1 (F.received chunks).2
  round_trip : ∀ messages : List ControlMessage,
    (∀ m ∈ messages, m.payload.length < MAX_MSG_LEN) →
      (F.drain (messages.flatMap sendMsg)).messages.map message = messages ∧
        (F.drain (messages.flatMap sendMsg)).error = none ∧
        (F.drain (messages.flatMap sendMsg)).rest = []

theorem framesControl_control :
    FramesControl controlFramer splitMessage where
  reads := Framer.received_reads rfl
  round_trip messages h := by
    have hdrain := drain_sendMsg_control h []
    have hnil : controlFramer.drain [] = ⟨[], none, []⟩ := Framer.drain_none rfl
    rw [List.append_nil, hnil] at hdrain
    rw [hdrain]
    simp [Function.comp_def, splitMessage_joinMessage]

theorem framesControl_client :
    FramesControl clientFramer id where
  reads := Framer.received_reads rfl
  round_trip messages h := by
    have hdrain := drain_sendMsg_client h []
    have hnil : clientFramer.drain [] = ⟨[], none, []⟩ := Framer.drain_none rfl
    rw [List.append_nil, hnil] at hdrain
    rw [hdrain]
    simp

/--
**Framing of the control channel.**  The engine and the client frame their streams by
one law.  On a stream without an empty frame they read the same; an empty frame is
skipped by the engine and an error to the client.
-/
theorem control_framing :
    FramesControl controlFramer splitMessage ∧ FramesControl clientFramer id ∧
    (∀ m, (sendMessageGeneric m).flatten = sendMsg m) ∧
    (∀ stream, ¬ HasEmptyFrame stream →
      (clientFramer.drain stream).messages =
          (controlFramer.drain stream).messages.map splitMessage ∧
        (clientFramer.drain stream).error =
          (controlFramer.drain stream).error.map (fun _ => ()) ∧
        (clientFramer.drain stream).rest = (controlFramer.drain stream).rest) ∧
    (∀ messages rest, (∀ m ∈ messages, m.payload.length < MAX_MSG_LEN) →
      clientFramer.drain (messages.flatMap sendMsg ++ 0 :: 0 :: 0 :: 0 :: rest) =
          ⟨messages, some (), 0 :: 0 :: 0 :: 0 :: rest⟩ ∧
        controlFramer.drain (messages.flatMap sendMsg ++ 0 :: 0 :: 0 :: 0 :: rest) =
          (controlFramer.drain rest).after (messages.map joinMessage)) :=
  ⟨framesControl_control, framesControl_client,
    fun m => (sendMessageGeneric_flatten m).1,
    fun _ h => drain_of_not_hasEmptyFrame h,
    fun _ rest h => drain_of_hasEmptyFrame h rest⟩

/-- The engine accepts a stream that the client rejects. -/
theorem emptyFrame_accepted :
    ¬ ∀ stream, (clientFramer.drain stream).error = none ↔
      (controlFramer.drain stream).error = none := by
  intro hsame
  have hclient : clientFramer.drain [0, 0, 0, 0] = ⟨[], some (), [0, 0, 0, 0]⟩ :=
    Framer.drain_error rfl
  have hcontrol : controlFramer.drain [0, 0, 0, 0] = ⟨[], none, []⟩ := Framer.drain_none rfl
  have herror := (hsame [0, 0, 0, 0]).mpr (by rw [hcontrol])
  rw [hclient] at herror
  cases herror

end Engine
end FocusVision
