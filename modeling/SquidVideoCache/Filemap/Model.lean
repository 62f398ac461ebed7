import SquidVideoCache.Lib.CString

/-!
# File maps, filemap.c

The file numbers in use are the bits of an array of `unsigned long` words of 64 bits. The array is doubled when a
number beyond it is set, or when `file_map_allocate` finds no number that is free. Every access to the array is
checked; the source checks the number in `file_map_bit_test` only.
-/

namespace SquidVideoCache.Filemap
open Lib

/-- `BITS_IN_A_LONG`; `LONG_BIT_SHIFT` is 6. -/
def bitsInALong : ℕ := 64

abbrev Word := BitVec bitsInALong

def fmInitialNumber : ℕ := 2 ^ 14

def filemapMaxSize : ℕ := 2 ^ 24

structure FileMap where
  maxNFiles : ℕ
  nFilesInMap : ℤ
  nwords : ℕ
  fileMap : List Word

def fileMapCreate : FileMap :=
  ⟨fmInitialNumber, 0, fmInitialNumber / bitsInALong, List.replicate (fmInitialNumber / bitsInALong) 0⟩

/-- The old words are copied to the beginning of the new array. -/
def fileMapGrow (fm : FileMap) : Exec FileMap := do
  let maxNFiles := fm.maxNFiles * 2
  cAssert (maxNFiles ≤ filemapMaxSize)
  let nwords := maxNFiles / bitsInALong
  pure { fm with maxNFiles, nwords, fileMap := fm.fileMap ++ List.replicate (nwords - fm.nwords) 0 }

/-- The map has doubled ten times when the assertion of `file_map_grow` fails, so no loop or recursion that grows it
has more rounds than this. -/
def growRounds : ℕ := 12

def fileMapGrowTo (fileNumber : ℕ) : ℕ → FileMap → Exec FileMap
  | 0, _ => .error .diverges
  | k + 1, fm =>
    if fm.maxNFiles ≤ fileNumber then do
      let fm ← fileMapGrow fm
      fileMapGrowTo fileNumber k fm
    else .ok fm

def wordAt (fm : FileMap) (i : ℕ) : Exec Word :=
  match fm.fileMap[i]? with
  | some x => .ok x
  | none => .error .bounds

def bitmask (fileNumber : ℕ) : Word := BitVec.twoPow bitsInALong (fileNumber % bitsInALong)

def fileMapBitSet (fm : FileMap) (fileNumber : ℕ) : Exec (FileMap × ℕ) := do
  let fm ← fileMapGrowTo fileNumber growRounds fm
  let x ← wordAt fm (fileNumber / bitsInALong)
  pure ({ fm with
    fileMap := fm.fileMap.set (fileNumber / bitsInALong) (x ||| bitmask fileNumber)
    nFilesInMap := fm.nFilesInMap + 1 }, fileNumber)

/-- The number is not compared with the size of the map. -/
def fileMapBitReset (fm : FileMap) (fileNumber : ℕ) : Exec FileMap := do
  let x ← wordAt fm (fileNumber / bitsInALong)
  pure { fm with
    fileMap := fm.fileMap.set (fileNumber / bitsInALong) (x &&& ~~~bitmask fileNumber)
    nFilesInMap := fm.nFilesInMap - 1 }

def fileMapBitTest (fm : FileMap) (fileNumber : ℕ) : Exec Bool :=
  if fm.maxNFiles ≤ fileNumber then .ok false
  else do
    let x ← wordAt fm (fileNumber / bitsInALong)
    pure (x &&& bitmask fileNumber != 0)

/-- The first loop of `file_map_allocate`: from a word on, round the array, to one that is not full. -/
def nextWord (fm : FileMap) : ℕ → ℕ → Exec ℕ
  | 0, word => .ok word
  | count + 1, word => do
    let x ← wordAt fm word
    if x ≠ BitVec.allOnes bitsInALong then pure word else nextWord fm count ((word + 1) % fm.nwords)

/-- The second loop: the first number of a list that is free. -/
def firstFree (fm : FileMap) : List ℕ → Exec (Option ℕ)
  | [] => .ok none
  | n :: ns => do
    let used ← fileMapBitTest fm n
    if used then firstFree fm ns else pure (some n)

def wordNumbers (word : ℕ) : List ℕ := (List.range bitsInALong).map fun bit => word * bitsInALong + bit

/-- A number that is free in the map as it is, with `suggestion` as a hint. -/
def searchFree (fm : FileMap) (suggestion : ℕ) : Exec (Option ℕ) := do
  let used ← fileMapBitTest fm suggestion
  if used then do
    let word ← nextWord fm fm.nwords (suggestion / bitsInALong)
    firstFree fm (wordNumbers word)
  else pure (some suggestion)

def allocateRounds : ℕ → FileMap → ℕ → Exec (FileMap × ℕ)
  | 0, _, _ => .error .diverges
  | k + 1, fm, suggestion => do
    let found ← searchFree fm (if fm.maxNFiles ≤ suggestion then 0 else suggestion)
    match found with
    | some n => pure (fm, n)
    | none => do
      let fm ← fileMapGrow fm
      allocateRounds k fm (fm.maxNFiles / 2)

def fileMapAllocate (fm : FileMap) (suggestion : ℕ) : Exec (FileMap × ℕ) := allocateRounds growRounds fm suggestion

/-! ## Calls -/

inductive Call where
  | set (fileNumber : ℕ)
  | reset (fileNumber : ℕ)
  | test (fileNumber : ℕ)
  | allocate (suggestion : ℕ)
  deriving DecidableEq

def step (fm : FileMap) : Call → Exec FileMap
  | .set n => do
    let (fm, _) ← fileMapBitSet fm n
    pure fm
  | .reset n => fileMapBitReset fm n
  | .test n => do
    let _ ← fileMapBitTest fm n
    pure fm
  | .allocate suggestion => do
    let (fm, _) ← fileMapAllocate fm suggestion
    pure fm

end SquidVideoCache.Filemap
