import FocusVision.Lib.Run
import Mathlib.Algebra.Order.Ring.Nat

/-!
# Swap texture sets

`SwapTextureSets` of the driver's `swap_textures.cpp`: the textures that SteamVR's
compositor renders into, in sets of three, and the index that each set is at.

What the device answers for a new texture is an input: its shared handle, or nothing
when it cannot be created or shared.  Left out: the texture and its view, the format
and the size, and the error texts.
-/

namespace FocusVision
namespace Driver

/-- `kTexturesPerSet`. -/
def kTexturesPerSet : Nat := 3

/-- The bookkeeping part of `Texture`. -/
structure Texture where
  handle : UInt64
  pid : UInt32
  setId : UInt32
deriving DecidableEq

structure SwapTextureSets where
  textures : List Texture := []
  /-- A set's id and the index in use. -/
  current : List (UInt32 × UInt32) := []
  nextSetId : UInt32 := 0
deriving DecidableEq

/-- The textures of a new set, if the device makes and shares all of them. -/
def createTextures (pid setId : UInt32) (made : Nat → Option UInt64) : Option (List Texture) :=
  (List.range kTexturesPerSet).mapM fun i =>
    (made i).map fun handle => { handle, pid, setId }

/-- What `nextIndices` has done so far: `advanced` is the set that it advanced last. -/
structure Advance where
  current : List (UInt32 × UInt32)
  advanced : Option UInt32 := none

/-- The index of a set, which moves on unless the set was just advanced. -/
def advanceIndex (again : Bool) (index : UInt32) : UInt32 :=
  if again then index else (index + 1) % UInt32.ofNat kTexturesPerSet

/-- The loop over `m_current`. -/
def useIndex (again : Bool) (setId : UInt32) :
    List (UInt32 × UInt32) → Option UInt32 × List (UInt32 × UInt32)
  | [] => (none, [])
  | (id, index) :: rest =>
      if id = setId then
        let index := advanceIndex again index
        (some index, (id, index) :: rest)
      else
        let r := useIndex again setId rest
        (r.1, (id, index) :: r.2)

namespace SwapTextureSets

/-- `find`. -/
def find (s : SwapTextureSets) (handle : UInt64) : Option Texture :=
  s.textures.find? fun t => t.handle == handle

/-- `create`: the handles of the new set, if there is one. -/
def create (s : SwapTextureSets) (pid : UInt32) (made : Nat → Option UInt64) :
    Option (List UInt64) × SwapTextureSets :=
  let setId := s.nextSetId
  let s := { s with nextSetId := s.nextSetId + 1 }
  match createTextures pid setId made with
  | none => (none, s)
  | some created =>
      (some (created.map Texture.handle),
        { s with
          textures := s.textures ++ created
          current := s.current ++ [(setId, 0)] })

/-- `destroySet`. -/
def destroySet (s : SwapTextureSets) (handle : UInt64) : SwapTextureSets :=
  match s.find handle with
  | none => s
  | some t =>
      { s with
        textures := s.textures.filter fun e => e.setId != t.setId
        current := s.current.filter fun e => e.1 != t.setId }

/-- `destroyAll`. -/
def destroyAll (s : SwapTextureSets) (pid : UInt32) : SwapTextureSets :=
  let textures := s.textures.filter fun e => e.pid != pid
  { s with
    textures
    current := s.current.filter fun e => textures.any fun t => t.setId == e.1 }

/-- One eye of `nextIndices`. -/
def nextIndex (s : SwapTextureSets) (handle : UInt64) (a : Advance) :
    Option UInt32 × Advance :=
  match s.find handle with
  | none => (none, a)
  | some t =>
      match useIndex (a.advanced == some t.setId) t.setId a.current with
      | (none, _) => (none, a)
      | (some index, current) => (some index, { current, advanced := some t.setId })

/-- `nextIndices`: the entries of `indices` after it. -/
def nextIndices (s : SwapTextureSets) (handles : UInt64 × UInt64)
    (indices : UInt32 × UInt32) : (UInt32 × UInt32) × SwapTextureSets :=
  let left := s.nextIndex handles.1 { current := s.current }
  let right := s.nextIndex handles.2 left.2
  ((left.1.getD indices.1, right.1.getD indices.2), { s with current := right.2.current })

end SwapTextureSets

/-- The calls of the driver component. -/
inductive SwapCall where
  | create (pid : UInt32) (made : Nat → Option UInt64)
  | destroySet (handle : UInt64)
  | destroyAll (pid : UInt32)
  | nextIndices (handles : UInt64 × UInt64) (indices : UInt32 × UInt32)

/-- What a call returns. -/
inductive SwapAnswer where
  | created (handles : Option (List UInt64))
  | done
  | indices (indices : UInt32 × UInt32)

namespace SwapTextureSets

def step (s : SwapTextureSets) : SwapCall → SwapAnswer × SwapTextureSets
  | .create pid made =>
      let r := s.create pid made
      (.created r.1, r.2)
  | .destroySet handle => (.done, s.destroySet handle)
  | .destroyAll pid => (.done, s.destroyAll pid)
  | .nextIndices handles indices =>
      let r := s.nextIndices handles indices
      (.indices r.1, r.2)

end SwapTextureSets

end Driver
end FocusVision
