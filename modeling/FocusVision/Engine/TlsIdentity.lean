import FocusVision.Lib.Bytes
import FocusVision.Lib.CrashTriple

/-!
# The engine's TLS identity

`control/tls.rs`: the container of certificate and key, how it is loaded or made and kept on
disk, and the acceptor that a process makes once.  Every I/O call may fail, and the process
can be killed at each of them.

SHA-256, the acceptor that `rustls` builds and what `rcgen` generates are parameters.  Left
out: the log messages, the mode of the file and the in-memory identity of the tests.
-/

namespace FocusVision
namespace Engine

open Bytes

def IDENTITY_MAGIC : List UInt8 := [0x46, 0x56, 0x50, 0x54, 0x4C, 0x53, 0x30, 0x31]

def MAX_IDENTITY_PART_LEN : Nat := 16 * 1024

/-- `TlsIdentity`; its fingerprint, a hash of the certificate, is left out. -/
structure TlsIdentity where
  certDer : List UInt8
  keyDer : List UInt8
deriving DecidableEq

/-- `strip_prefix` of `IDENTITY_MAGIC`. -/
def stripMagic (bytes : List UInt8) : Option (List UInt8) :=
  if IDENTITY_MAGIC.isPrefixOf bytes then some (bytes.drop 8) else none

/-- `split_len_prefixed`. -/
def splitLenPrefixed (buf : List UInt8) : Option (List UInt8 × List UInt8) :=
  if buf.length < 4 then none
  else
    let len := ofLeBytes (buf.take 4)
    if len = 0 ∨ len > MAX_IDENTITY_PART_LEN then none
    else if buf.length < 4 + len then none
    else some ((buf.drop 4).take len, buf.drop (4 + len))

section

variable (sha256 : List UInt8 → Vector UInt8 32) (acceptor : TlsIdentity → Bool)

namespace TlsIdentity

def toBytes (identity : TlsIdentity) : List UInt8 :=
  IDENTITY_MAGIC ++ leBytes 4 (identity.certDer.length % 2 ^ 32) ++ identity.certDer ++
    leBytes 4 (identity.keyDer.length % 2 ^ 32) ++ identity.keyDer ++
    (sha256 (identity.certDer ++ identity.keyDer)).toList

def fromBytes (bytes : List UInt8) : Option TlsIdentity := do
  let rest ← stripMagic bytes
  let (certDer, rest) ← splitLenPrefixed rest
  let (keyDer, rest) ← splitLenPrefixed rest
  if rest.length ≠ 32 then none
  else if (sha256 (certDer ++ keyDer)).toList ≠ rest then none
  else some ⟨certDer, keyDer⟩

end TlsIdentity

/-! ### The file -/

/-- The identity file, its backup and the temporary file. -/
structure IdentityFiles where
  identity : Option (List UInt8) := none
  backup : Option (List UInt8) := none
  tmp : Option (List UInt8) := none

/-- How a call goes. -/
inductive IdentityAnswer where
  | failed
  /-- The identity file is there, or was, but cannot be read. -/
  | unreadable
  /-- A write has taken this many bytes and one more, or all of them. -/
  | done (n : Nat)
  | generated (identity : TlsIdentity)

/-- A program over the files. -/
abbrev IdentityIo : Type → Type := Prog IdentityAnswer IdentityFiles

/-- A call that changes the files if it succeeds. -/
def attempt (change : IdentityFiles → IdentityFiles) : IdentityIo Bool := do
  match ← Prog.call with
  | .done _ =>
      Prog.modify change
      pure true
  | _ => pure false

/-- The loop of `write_all`; each turn takes at least one byte. -/
def writeTmp : Nat → List UInt8 → IdentityIo Bool
  | 0, _ => pure true
  | turns + 1, data =>
      if data = [] then pure true
      else do
        match ← Prog.call with
        | .done n =>
            Prog.modify fun files =>
              { files with tmp := files.tmp.map (· ++ data.take (n + 1)) }
            writeTmp turns (data.drop (n + 1))
        | _ => pure false

/-- `write_private_file`, of the temporary file. -/
def writePrivateFile (data : List UInt8) : IdentityIo Bool := do
  if ← attempt fun files => { files with tmp := some [] } then
    if ← writeTmp data.length data then
      attempt id -- `sync_all`
    else pure false
  else pure false

/-- `persist_identity`. -/
def persistIdentity (identity : TlsIdentity) : IdentityIo Bool := do
  if ← attempt id then -- `create_dir_all`
    if ← writePrivateFile (identity.toBytes sha256) then
      attempt fun files => { files with identity := files.tmp, tmp := none }
    else pure false
  else pure false

/-- The end of `load_or_create_identity`: a new identity, saved if that works. -/
def createIdentity : IdentityIo (Option TlsIdentity) := do
  match ← Prog.call with
  | .generated identity =>
      let _ ← persistIdentity sha256 identity
      pure (some identity)
  | _ => pure none

/-- `load_or_create_identity`, where the file can be read or is not there. -/
def loadIdentity : IdentityIo (Option TlsIdentity) := do
  match (← Prog.get).identity with
  | none => createIdentity sha256
  | some bytes =>
      match (TlsIdentity.fromBytes sha256 bytes).filter acceptor with
      | some identity => pure (some identity)
      | none => do
          let _ ← attempt fun files => { files with identity := none, backup := files.identity }
          createIdentity sha256

/-- `load_or_create_identity`. -/
def loadOrCreateIdentity : IdentityIo (Option TlsIdentity) := do
  match ← Prog.call with
  | .unreadable => createIdentity sha256
  | _ => loadIdentity sha256 acceptor

/-- `shared_tls_acceptor`, with `SHARED_ACCEPTOR`; the result is the latter too. -/
def sharedTlsAcceptor (guard : Option TlsIdentity) : IdentityIo (Option TlsIdentity) :=
  match guard with
  | some identity => pure (some identity)
  | none => do
      let identity ← loadOrCreateIdentity sha256 acceptor
      pure (identity.filter acceptor)

/-- The identities of the servers that a process makes one after the other. -/
def servers : Nat → Option TlsIdentity → IdentityIo (List (Option TlsIdentity))
  | 0, _ => pure []
  | n + 1, guard => do
      let identity ← sharedTlsAcceptor sha256 acceptor guard
      let later ← servers n identity
      pure (identity :: later)

/-- The engine is started: how its calls go until it ends or is killed, and how many servers it
makes. -/
structure EngineStart where
  answers : List IdentityAnswer
  servers : Nat

/-- A process runs: the identities of its servers, if it was not killed over its files, and the
files that it leaves. -/
def startEngine (files : IdentityFiles) (e : EngineStart) :
    List (Option TlsIdentity) × IdentityFiles :=
  match servers sha256 acceptor e.servers none e.answers files with
  | (.returned identities, _, files) => (identities, files)
  | (_, _, files) => ([], files)

end

end Engine
end FocusVision
