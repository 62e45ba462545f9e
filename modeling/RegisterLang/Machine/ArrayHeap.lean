import RegisterLang.Machine.Fault
import RegisterLang.Machine.Value

/-! # The heap of arrays

Arrays are named by handles. Handle zero names no array, and handle `n + 1` names the array in slot `n`.
The slot of a destroyed array is used again, the one freed last first. An operation gives a result or a
fault, and leaves a heap in both cases.
-/

namespace RegisterLang

/-- The arrays of a run. A handle is the number of a slot plus one. -/
structure ArrayHeap where
  slots : Array (Option (Array Value))
  /-- The slots without an array, the one freed last first. -/
  free : List Nat
  deriving DecidableEq, Repr, Inhabited

namespace ArrayHeap

/-- The largest length of an array. -/
def maxLength : Nat := 0x1000000

def empty : ArrayHeap :=
  ⟨#[], []⟩

def array? (h : ArrayHeap) (handle : UInt32) : Except Fault (Array Value) :=
  if handle = 0 then .error .nullArray
  else
    match h.slots[handle.toNat - 1]? with
    | some (some array) => .ok array
    | _ => .error (.staleArray handle)

/-- Store an array in a free slot, or in a new one. -/
def store (h : ArrayHeap) (array : Array Value) : Nat × ArrayHeap :=
  match h.free with
  | slot :: free => (slot, ⟨h.slots.setIfInBounds slot (some array), free⟩)
  | [] => (h.slots.size, ⟨h.slots.push (some array), []⟩)

/-- Create an array of zeros. It is stored before it gets a handle, for which there may be no number. -/
def create (h : ArrayHeap) (length : UInt64) : Except Fault UInt32 × ArrayHeap :=
  if maxLength < length.toNat then (.error (.arrayTooLarge length maxLength), h)
  else
    let (slot, h) := h.store (Array.replicate length.toNat 0)
    if slot + 1 < UInt32.size then (.ok (UInt32.ofNat (slot + 1)), h)
    else (.error (.arrayTooLarge length maxLength), h)

def get (h : ArrayHeap) (handle : UInt32) (index : UInt64) : Except Fault Value × ArrayHeap :=
  match h.array? handle with
  | .error fault => (.error fault, h)
  | .ok array =>
    match array[index.toNat]? with
    | some v => (.ok v, h)
    | none => (.error (.arrayIndexOutOfBounds index array.size), h)

def length (h : ArrayHeap) (handle : UInt32) : Except Fault Nat :=
  (h.array? handle).map Array.size

def set (h : ArrayHeap) (handle : UInt32) (index : UInt64) (v : Value) : Except Fault Unit × ArrayHeap :=
  match h.length handle with
  | .error fault => (.error fault, h)
  | .ok length =>
    if index.toNat < length then
      let write (array : Array Value) := array.setIfInBounds index.toNat v
      (.ok (), { h with slots := h.slots.modify (handle.toNat - 1) (Option.map write) })
    else (.error (.arrayIndexOutOfBounds index length), h)

/-- Destroy an array. Destroying no array does nothing. -/
def destroy (h : ArrayHeap) (handle : UInt32) : Except Fault Unit × ArrayHeap :=
  if handle = 0 then (.ok (), h)
  else
    match h.length handle with
    | .error fault => (.error fault, h)
    | .ok _ =>
      let slot := handle.toNat - 1
      (.ok (), ⟨h.slots.setIfInBounds slot none, slot :: h.free⟩)

def live (h : ArrayHeap) : Nat :=
  h.slots.countP Option.isSome

end ArrayHeap

end RegisterLang
