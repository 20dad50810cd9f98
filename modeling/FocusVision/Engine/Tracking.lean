import FocusVision.Lib.Bytes
import FocusVision.Lib.FloatOps
import Mathlib.Logic.Function.Basic

/-!
# Tracking input

The tracking receiver of the engine's `tracking/receiver.rs`, and the guard in
`engine.rs` that opens the tracking port to the paired headset for the time of a
session.  The two run concurrently: the receiver holds the read lock of the
authorized peer from its source check until the packet is stored, and the guard
takes the write lock to authorize and to revoke, and clears the inputs after that.

Left out: the log messages and the count of rejected packets, errors of the socket,
the arrival time in a controller's slot, and poisoned locks (no locked section
panics).
-/

namespace FocusVision
namespace Engine

open Bytes

/-! ### Packets -/

def PACKET_HEAD_POSE : UInt8 := 0x01
def PACKET_CONTROLLER : UInt8 := 0x02

/-- `TrackingData`, with its `Default`. -/
structure TrackingData where
  position : F32 × F32 × F32 := (f32 0 1, f32 0 1, f32 0 1)
  orientation : F32 × F32 × F32 × F32 := (f32 0 1, f32 0 1, f32 0 1, f32 0 1)
  timestampNs : UInt64 := 0
  gazeX : F32 := f32 0 1
  gazeY : F32 := f32 0 1
  gazeValid : UInt8 := 0
deriving DecidableEq

structure ControllerState where
  controllerId : UInt8
  timestampNs : UInt64
  position : F32 × F32 × F32
  orientation : F32 × F32 × F32 × F32
  trigger : F32
  grip : F32
  thumbstickX : F32
  thumbstickY : F32
  buttonFlags : UInt32
  batteryLevel : UInt8
deriving DecidableEq

/-- `f32::from_le_bytes` of the four bytes at an offset. -/
def readF32 (data : List UInt8) (offset : Nat) : F32 :=
  let bits := ofLeBytes ((data.drop offset).take 4)
  ⟨decide (2 ^ 31 ≤ bits), bits % 2 ^ 31, Nat.mod_lt _ (Nat.two_pow_pos _)⟩

/-- `u64::from_le_bytes` of the eight bytes at an offset. -/
def readU64 (data : List UInt8) (offset : Nat) : UInt64 :=
  UInt64.ofNat (ofLeBytes ((data.drop offset).take 8))

/-- `parse_head_pose`. -/
def parseHeadPose (data : List UInt8) : Option TrackingData :=
  if data.length < 36 then none
  else
    let (gazeX, gazeY, gazeValid) :=
      if 45 ≤ data.length then (readF32 data 36, readF32 data 40, data.getD 44 0)
      else (f32 1 2, f32 1 2, 0)
    some
      { position := (readF32 data 8, readF32 data 12, readF32 data 16)
        orientation :=
          (readF32 data 20, readF32 data 24, readF32 data 28, readF32 data 32)
        timestampNs := readU64 data 0
        gazeX, gazeY, gazeValid }

/-- `parse_controller`. -/
def parseController (data : List UInt8) : Option ControllerState :=
  if data.length < 53 then none
  else
    some
      { controllerId := data.getD 0 0
        timestampNs := readU64 data 1
        position := (readF32 data 9, readF32 data 13, readF32 data 17)
        orientation :=
          (readF32 data 21, readF32 data 25, readF32 data 29, readF32 data 33)
        trigger := readF32 data 37
        grip := readF32 data 41
        thumbstickX := readF32 data 45
        thumbstickY := readF32 data 49
        buttonFlags :=
          if 57 ≤ data.length then UInt32.ofNat (ofLeBytes ((data.drop 53).take 4)) else 0
        batteryLevel := if 58 ≤ data.length then data.getD 57 0 else 100 }

/-! ### Addresses -/

inductive IpAddr where
  | v4 (octets : BitVec 32)
  | v6 (octets : BitVec 128)
deriving DecidableEq

/-- `to_canonical`: an IPv4-mapped IPv6 address is its IPv4 address. -/
def IpAddr.toCanonical : IpAddr → IpAddr
  | .v4 octets => .v4 octets
  | .v6 octets =>
      if octets.extractLsb' 32 96 = 0xffff then .v4 (octets.extractLsb' 0 32) else .v6 octets

/-- `is_paired_hmd`. -/
def isPairedHmd (session : Option IpAddr) (src : IpAddr) : Bool :=
  match session with
  | some ip => ip.toCanonical == src.toCanonical
  | none => false

/-! ### Inputs -/

/--
A stored value.  The address that it was sent from and the peer of the session in
which it was stored are kept for the proofs; the engine does not store them.
-/
structure Stored (α : Type) where
  value : α
  src : IpAddr
  peer : Option IpAddr

/-- `HmdInputs`. -/
structure HmdInputs where
  head : Option (Stored TrackingData) := none
  controllers : Fin 2 → Option (Stored ControllerState) := fun _ => none

structure Datagram where
  src : IpAddr
  packet : List UInt8

/-- Where the session task stands: `clear` empties the head and then the controllers. -/
inductive SessionState where
  | down
  | active (peer : IpAddr)
  | revoked
  | headCleared

def SessionState.peer : SessionState → Option IpAddr
  | .active peer => some peer
  | _ => none

/-- The session task and the receiver, with the datagram of its protected section. -/
structure TrackingPort where
  authorizedPeer : Option IpAddr := none
  inputs : HmdInputs := {}
  session : SessionState := .down
  receiving : Option Datagram := none

/-- Parse a packet and store it: the inputs, and the gaze point told to the encoder. -/
def HmdInputs.store (inputs : HmdInputs) (peer : Option IpAddr) (d : Datagram) :
    Option (F32 × F32) × HmdInputs :=
  match d.packet with
  | [] => (none, inputs)
  | packetType :: payload =>
      if packetType = PACKET_HEAD_POSE then
        match parseHeadPose payload with
        | none => (none, inputs)
        | some data =>
            (if data.gazeValid ≠ 0 then some (data.gazeX, data.gazeY) else none,
              { inputs with head := some ⟨data, d.src, peer⟩ })
      else if packetType = PACKET_CONTROLLER then
        match parseController payload with
        | none => (none, inputs)
        | some state =>
            if h : state.controllerId.toNat < 2 then
              (none, { inputs with
                controllers := Function.update inputs.controllers ⟨_, h⟩
                  (some ⟨state, d.src, peer⟩) })
            else (none, inputs)
      else (none, inputs)

/-- The atomic steps of the two tasks. -/
inductive PortEvent where
  /-- `AuthorizedPeerGuard::authorize`, at the start of a session. -/
  | authorize (ip : IpAddr)
  /-- The write lock of the guard's `drop`. -/
  | revoke
  /-- `HmdInputs::clear`, the head and the controllers. -/
  | clearHead
  | clearControllers
  /-- `recv_from`, the read lock and the source check. -/
  | receive (d : Datagram)
  /-- The rest of the protected section. -/
  | store

namespace TrackingPort

/-- A step; an event that has to wait for a lock, or for its task, changes nothing. -/
def step (w : TrackingPort) : PortEvent → Option (F32 × F32) × TrackingPort
  | .authorize ip =>
      match w.session, w.receiving with
      | .down, none => (none, { w with authorizedPeer := some ip, session := .active ip })
      | _, _ => (none, w)
  | .revoke =>
      match w.session, w.receiving with
      | .active _, none => (none, { w with authorizedPeer := none, session := .revoked })
      | _, _ => (none, w)
  | .clearHead =>
      match w.session with
      | .revoked => (none, { w with inputs.head := none, session := .headCleared })
      | _ => (none, w)
  | .clearControllers =>
      match w.session with
      | .headCleared => (none, { w with inputs.controllers := fun _ => none, session := .down })
      | _ => (none, w)
  | .receive d =>
      match w.receiving with
      | some _ => (none, w)
      | none =>
          if isPairedHmd w.authorizedPeer d.src then (none, { w with receiving := some d })
          else (none, w)
  | .store =>
      match w.receiving with
      | none => (none, w)
      | some d =>
          let (gaze, inputs) := w.inputs.store w.session.peer d
          (gaze, { w with inputs, receiving := none })

end TrackingPort

end Engine
end FocusVision
