import SquidVideoCache.Lib.CString
import SquidVideoCache.Lib.Machine
import SquidVideoCache.Lib.Pages

/-!
# Object data in memory, stmem.c

The data of an object is a list of nodes with a page of data each. Nodes are allocated at the end and freed
at the front, so a node is named by the number of nodes that were allocated before it.
-/

namespace SquidVideoCache.Stmem
open Lib

abbrev Bytes := List UInt8

def smPageSize : ℕ := 4096

/-- The nodes from number `freed` on. -/
structure MemHdr where
  freed : ℕ
  pages : List Bytes
  originOffset : ℤ
  deriving DecidableEq, Repr

def MemHdr.empty : MemHdr := ⟨0, [], 0⟩

/-! ## Freeing -/

/-- What is left begins at the target, or before it. -/
def freedTo (targetOffset : ℤ) (mem : MemHdr) : Exec MemHdr :=
  if mem.originOffset < targetOffset then .ok mem
  else do
    cAssert (mem.originOffset = targetOffset)
    pure mem

/-- The loop of `stmemFreeDataUpto`, at a node with the given number and offset. The last node is kept. -/
def freeNodes (targetOffset : ℤ) : ℕ → ℤ → List Bytes → Exec MemHdr
  | node, currentOffset, [] => freedTo targetOffset ⟨node, [], currentOffset⟩
  | node, currentOffset, [p] =>
    if currentOffset + p.length ≤ targetOffset then .ok ⟨node, [p], currentOffset⟩
    else freedTo targetOffset ⟨node, [p], currentOffset⟩
  | node, currentOffset, p :: q :: rest =>
    if currentOffset + p.length ≤ targetOffset then freeNodes targetOffset (node + 1) (currentOffset + p.length) (q :: rest)
    else freedTo targetOffset ⟨node, p :: q :: rest, currentOffset⟩

/-- The function returns the new `origin_offset`. -/
def stmemFreeDataUpto (mem : MemHdr) (targetOffset : ℤ) : Exec MemHdr :=
  freeNodes targetOffset mem.freed mem.originOffset mem.pages

/-! ## Appending -/

def newNodes (data : Bytes) : List Bytes := cutPages smPageSize data.length data

def stmemAppend (mem : MemHdr) (data : Bytes) : MemHdr :=
  match mem.pages.getLast? with
  | none => { mem with pages := newNodes data }
  | some tail =>
    if tail.length < smPageSize then
      { mem with pages := mem.pages.dropLast ++ (tail ++ data.take (smPageSize - tail.length)) ::
          newNodes (data.drop (smPageSize - tail.length)) }
    else { mem with pages := mem.pages ++ newNodes data }

/-! ## Copying -/

/-- The first node that does not end before the offset, the nodes after it and where it begins. -/
def seekNode (offset : ℤ) : ℤ → List Bytes → Option (Bytes × List Bytes × ℤ)
  | _, [] => none
  | tOff, p :: rest => if tOff + p.length < offset then seekNode offset (tOff + p.length) rest else some (p, rest, tOff)

/-- The bytes from the nodes, and how many are missing in the end. -/
def copyNodes : List Bytes → ℕ → Bytes × ℕ
  | [], bytesToGo => ([], bytesToGo)
  | p :: rest, bytesToGo =>
    if bytesToGo = 0 then ([], 0)
    else if p.length < bytesToGo then (p ++ (copyNodes rest (bytesToGo - p.length)).1, (copyNodes rest (bytesToGo - p.length)).2)
    else (p.take bytesToGo, 0)

def firstBytes (p : Bytes) (bytesInto size : ℕ) : ℕ := min size (p.length - bytesInto)

/-- What is copied to the buffer and the number that is returned. -/
def copyFrom (p : Bytes) (rest : List Bytes) (bytesInto size : ℕ) : Bytes × ℕ :=
  ((p.drop bytesInto).take (firstBytes p bytesInto size) ++ (copyNodes rest (size - firstBytes p bytesInto size)).1,
    size - (copyNodes rest (size - firstBytes p bytesInto size)).2)

def stmemCopy (mem : MemHdr) (offset : ℤ) (size : ℕ) : Exec (Bytes × ℕ) :=
  if mem.pages = [] then .ok ([], 0)
  else do
    cAssert (0 < size)
    match seekNode offset mem.originOffset mem.pages with
    | none => pure ([], 0)
    | some (p, rest, tOff) => if offset < tOff then .error .bounds else pure (copyFrom p rest (offset - tOff).toNat size)

/-! ## Runs -/

/-- `stream` is all that was appended and `requested` the last offset that was to be freed. -/
structure State where
  mem : MemHdr
  stream : Bytes
  requested : ℤ
  deriving DecidableEq, Repr

inductive Event
  | append (data : Bytes)
  | freeDataUpto (targetOffset : ℤ)
  deriving DecidableEq, Repr

/-- The offsets that are to be freed do not decrease, and they have been appended. -/
def enabled (s : State) : Event → Bool
  | .append _ => true
  | .freeDataUpto targetOffset => s.requested ≤ targetOffset ∧ targetOffset ≤ s.stream.length

def step (s : State) : Event → Exec State
  | .append data => .ok { s with mem := stmemAppend s.mem data, stream := s.stream ++ data }
  | .freeDataUpto targetOffset => do
    let mem ← stmemFreeDataUpto s.mem targetOffset
    pure { s with mem := mem, requested := targetOffset }

def machine : Machine State Event Fault := ⟨⟨.empty, [], 0⟩, enabled, step⟩

end SquidVideoCache.Stmem
