import FocusVision.Client.ClientProtocol
import FocusVision.Lib.Run

/-!
# Pinning the server's certificate

`connect`, `disconnect`, `handshake`, `checkServerCert`, `pinPeerFingerprint` and
`clearPinnedFingerprint` of the client's `tcp_client.cpp`, for one fingerprint store.  A
string is the list of its bytes, and a certificate is its SHA-256, which is `none` if the
server has none or the hash fails.  The network, the server and the disk decide the
outcome of each call; an app that is started again has a new client and the same store.

Left out: the messages themselves, the stream's configuration and the connected flag.
-/

namespace FocusVision
namespace Client

/-! ### Fingerprints -/

/-- `hex[n]`. -/
def hexDigit (n : UInt8) : UInt8 :=
  if n < 10 then 0x30 + n else 0x57 + n

/-- `sha256Hex`, of the hash. -/
def sha256Hex (hash : Vector UInt8 32) : List UInt8 :=
  hash.toList.flatMap fun (b : UInt8) => [hexDigit (b >>> 4 &&& 0xF), hexDigit (b &&& 0xF)]

def isSpace (c : UInt8) : Bool :=
  c == 0x20 || decide (0x09 ≤ c ∧ c ≤ 0x0D)

def trim (s : List UInt8) : List UInt8 :=
  ((s.dropWhile isSpace).reverse.dropWhile isSpace).reverse

/-- What is read of a store: its first line. -/
def loadPin (content : List UInt8) : List UInt8 :=
  trim (content.takeWhile (· != 0x0A))

/-- What is written to a store. -/
def pinLine (fingerprint : List UInt8) : List UInt8 :=
  fingerprint ++ [0x0A]

/-- The comparison that looks at every byte. -/
def sameFingerprint (pinned actual : List UInt8) : Bool :=
  pinned.length == actual.length &&
    (pinned.zip actual).foldl (fun diff (p, a) => diff ||| (p ^^^ a)) 0 == 0

/-! ### The calls -/

/-- How the TLS connection of a `connect` goes, and whether the store could be read. -/
structure ConnectOutcome where
  transport : Bool
  cert : Option (Vector UInt8 32)
  storeReads : Bool

inductive WriteOutcome where
  | cannotOpen
  /-- Some bytes have reached the file when an error shows. -/
  | failed (written : Nat)
  | ok

/-- How the steps of a `handshake` go: `none` is a message that does not come. -/
structure HandshakeOutcome where
  helloSent : Bool
  helloAck : Bool
  pinRequest : Bool
  pinResponseSent : Bool
  pinResult : Option (List UInt8)
  streamConfig : Option (List UInt8)
  write : WriteOutcome

inductive HandshakeResult where
  | ok
  | pinRejected
  | failed
deriving DecidableEq

inductive PinningCall where
  | connect (outcome : ConnectOutcome)
  | handshake (outcome : HandshakeOutcome)
  | disconnect
  /-- `clearPinnedFingerprint`; `removed` is whether the store could be removed. -/
  | clear (removed : Bool)
  /-- The app is started again. -/
  | restart

inductive PinningAnswer where
  /-- `connect`: the fingerprint of the server, if it has passed the check. -/
  | connected (fingerprint : Option (List UInt8))
  /-- `handshake`, with the fingerprint of the server that was sent the PIN. -/
  | handshake (result : HandshakeResult) (pinSentTo : Option (List UInt8))
  | done
deriving DecidableEq

/--
The client and the store.  Kept for the proofs: `pin`, the fingerprint that has been
pinned or read from the store and not cleared since, and `accepted`, the fingerprints of
the servers that have accepted the PIN.
-/
structure PinningClient where
  storePathSet : Bool
  store : Option (List UInt8) := none
  m_pinnedFingerprint : List UInt8 := []
  m_peerFingerprint : List UInt8 := []
  m_peerNeedsPinning : Bool := false
  m_tlsEstablished : Bool := false
  pin : Option (List UInt8) := none
  accepted : List (List UInt8) := []

/-- The length of a fingerprint. -/
def FINGERPRINT_LEN : Nat := 64

namespace PinningClient

/-- `disconnect`. -/
def disconnect (s : PinningClient) : PinningClient :=
  { s with m_tlsEstablished := false, m_peerNeedsPinning := false }

/-- The pinned fingerprint is loaded from disk, unless there is one. -/
def loadStore (s : PinningClient) (storeReads : Bool) : PinningClient :=
  match s.m_pinnedFingerprint, s.store, storeReads with
  | [], some content, true =>
      let loaded := loadPin content
      { s with
        m_pinnedFingerprint := loaded
        pin := if loaded.length = FINGERPRINT_LEN then some loaded else s.pin }
  | _, _, _ => s

/-- `checkServerCert`. -/
def checkServerCert (s : PinningClient) (cert : Option (Vector UInt8 32))
    (storeReads : Bool) : Bool × PinningClient :=
  if !s.storePathSet then (false, s)
  else
    match cert with
    | none => (false, s)
    | some hash =>
        let actual := sha256Hex hash
        let s : PinningClient :=
          { s.loadStore storeReads with m_peerFingerprint := actual }
        if s.m_pinnedFingerprint = [] then (true, { s with m_peerNeedsPinning := true })
        else (sameFingerprint s.m_pinnedFingerprint actual, s)

/-- `connect`. -/
def connect (s : PinningClient) (outcome : ConnectOutcome) : Bool × PinningClient :=
  let s := s.disconnect
  if !outcome.transport then (false, s)
  else
    let s := { s with m_tlsEstablished := true }
    let (ok, s) := s.checkServerCert outcome.cert outcome.storeReads
    if ok then (true, s) else (false, s.disconnect)

/-- `pinPeerFingerprint`. -/
def pinPeerFingerprint (s : PinningClient) (write : WriteOutcome) : Bool × PinningClient :=
  if !s.m_peerNeedsPinning then (true, s)
  else
    match write with
    | .cannotOpen => (false, s)
    | .failed written =>
        (false, { s with store := some ((pinLine s.m_peerFingerprint).take written) })
    | .ok =>
        (true, { s with
          store := some (pinLine s.m_peerFingerprint)
          m_pinnedFingerprint := s.m_peerFingerprint
          m_peerNeedsPinning := false
          pin := some s.m_peerFingerprint })

/-- The rest of `handshake`, when the server has accepted the PIN. -/
def finishHandshake (s : PinningClient) (outcome : HandshakeOutcome) :
    HandshakeResult × PinningClient :=
  match outcome.streamConfig with
  | none => (.failed, s)
  | some payload =>
      if !(parseStreamConfig payload {}).1 then (.failed, s)
      else
        let (ok, s) := s.pinPeerFingerprint outcome.write
        (if ok then .ok else .failed, s)

/-- `handshake`: its result, and the fingerprint of the server that was sent the PIN. -/
def handshake (s : PinningClient) (outcome : HandshakeOutcome) :
    HandshakeResult × Option (List UInt8) × PinningClient :=
  if !(s.m_tlsEstablished && outcome.helloSent && outcome.helloAck && outcome.pinRequest) then
    (.failed, none, s)
  else if !outcome.pinResponseSent then (.failed, some s.m_peerFingerprint, s)
  else
    match outcome.pinResult with
    | none => (.failed, some s.m_peerFingerprint, s)
    | some payload =>
        if payload.head? ≠ some 0x01 then (.pinRejected, some s.m_peerFingerprint, s)
        else
          let s := { s with accepted := s.m_peerFingerprint :: s.accepted }
          let (result, next) := s.finishHandshake outcome
          (result, some s.m_peerFingerprint, next)

/-- `clearPinnedFingerprint`. -/
def clearPinnedFingerprint (s : PinningClient) (removed : Bool) : PinningClient :=
  { s with
    m_pinnedFingerprint := []
    pin := none
    store := if s.storePathSet && removed then none else s.store }

/-- A new client with the same store. -/
def restart (s : PinningClient) : PinningClient :=
  { storePathSet := s.storePathSet, store := s.store, pin := s.pin, accepted := s.accepted }

def step (s : PinningClient) : PinningCall → PinningAnswer × PinningClient
  | .connect outcome =>
      let (ok, next) := s.connect outcome
      (.connected (if ok then some next.m_peerFingerprint else none), next)
  | .handshake outcome =>
      let (result, pinSentTo, next) := s.handshake outcome
      (.handshake result pinSentTo, next)
  | .disconnect => (.done, s.disconnect)
  | .clear removed => (.done, s.clearPinnedFingerprint removed)
  | .restart => (.done, s.restart)

end PinningClient

end Client
end FocusVision
