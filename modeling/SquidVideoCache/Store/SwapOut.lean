import SquidVideoCache.Store.Create

/-!
# The end of a swapout

`storeSwapOutFileClosed` is called when the file of an entry has been closed. After an
error the entry has no file and is released; otherwise it is on disk, and the swap log
gets a record if `storeCheckCachable` still approves.

What readers have left in memory is outside this model, so the new `inmem_lo` of
`storeSwapOutMaintainMemObject` is a parameter.
-/

namespace SquidVideoCache.Store
open Lib StoreKey

variable {Key : Type} [DecidableEq Key] (cfg : Config Key)

/-- `Config.Store.maxObjectSize` and `Config.Store.minObjectSize`. -/
structure ObjectLimits where
  maxObjectSize : ℤ
  minObjectSize : ℤ
  deriving DecidableEq, Repr

variable (limits : ObjectLimits)

/-! ## storeCheckCachable -/

def storeCheckTooBig (mem : MemObject) : Bool :=
  (0 < mem.reply.contentLength && limits.maxObjectSize < mem.reply.contentLength) ||
    limits.maxObjectSize < mem.inmemHi

def storeCheckTooSmall (entry : StoreEntry Key) (mem : MemObject) : Bool := !entry.flags.entrySpecial &&
    ((entry.storeStatus == .ok && mem.objectSz < limits.minObjectSize) ||
      (-1 < mem.reply.contentLength && mem.reply.contentLength < limits.minObjectSize))

/-- The entry is released, and the answer is no. -/
def refuseCachable (e : ℕ) (s : State Key) : Result (Bool × State Key) := do
  let s ← storeReleaseRequest cfg e s
  let s ← clearCachable e s
  return (false, s)

/-- `noFiles` says that too many disk files or descriptors are open, which matters only before
the swapout has begun. -/
def storeCheckCachable (noFiles : Bool) (e : ℕ) (s : State Key) : Result (Bool × State Key) := do
  let entry ← entryAt e s
  if (entry.storeStatus = .ok ∧ entry.flags.entryBadLength) ∨ entry.flags.releaseRequest ∨
      ¬ entry.flags.entryCachable then refuseCachable cfg e s
  else if entry.flags.entryNegcached then return (false, s)
  else match entry.memObj with
    | none => .error .freed
    | some mem =>
      if storeCheckTooBig limits mem ∨ storeCheckTooSmall limits entry mem ∨ entry.flags.keyPrivate then
        refuseCachable cfg e s
      else if entry.swapStatus ≠ .none then return (true, s)
      else if noFiles then refuseCachable cfg e s
      else return (true, s)

/-! ## storeSwapOutStart -/

/-- `storeSwapOutStart` with the file that `storeCreate` opens, if it opens one. -/
def storeSwapOutTry (e : ℕ) (file : Option (ℤ × ℤ)) (s : State Key) : Result (State Key) :=
  match file with
  | some (filen, dirn) => storeSwapOutStart e filen dirn s
  | none => do
    let entry ← entryAt e s
    return setEntry e { entry with swapStatus := .none } s

/-! ## storeSwapOutFileClosed -/

/-- Is this entry a candidate for writing to disk? -/
def storeSwapOutAble (entry : StoreEntry Key) (mem : MemObject) : Bool :=
  if limits.maxObjectSize < mem.inmemHi then false
  else if ¬ entry.flags.entryCachable then false
  else if mem.sio then true
  else if mem.queueOffset ≠ 0 ∧ mem.queueOffset = mem.inmemHi then true
  else if 0 < mem.inmemLo then false
  else true

def storeSwapOutMaintainMemObject (lo : ℤ) (e : ℕ) (s : State Key) : Result (State Key) := do
  let entry ← entryAt e s
  if entry.flags.entrySpecial then return s
  if entry.memStatus = .inMemory then return s
  match entry.memObj with
  | none => .error .freed
  | some mem =>
    let s ← if storeSwapOutAble limits entry mem then .ok s
      else do
        let s ← storeReleaseRequest cfg e s
        modifyMem e ({ · with sio := false }) s
    modifyMem e ({ · with inmemLo := lo }) s

/-- The branch for an error: the file number goes first. -/
def closeFailed (e : ℕ) (s : State Key) : Result (State Key) := do
  let entry ← entryAt e s
  storeReleaseRequest cfg e
    (setEntry e { entry with swapFilen := -1, swapDirn := -1, swapStatus := .none } s)

/-- The branch for a complete file. -/
def closeDone (noFiles : Bool) (e : ℕ) (s : State Key) : Result (State Key) := do
  let entry ← entryAt e s
  let (cachable, s) ← storeCheckCachable cfg limits noFiles e (setEntry e { entry with swapStatus := .done } s)
  if cachable then storeDirSwapLog e .add s else return s

/-- What the disk and the readers decide when a file is closed. -/
structure Closing where
  errflag : Bool
  noFiles : Bool := false
  lo : ℤ := 0
  deriving DecidableEq, Repr

def storeSwapOutFileClosed (c : Closing) (e : ℕ) (s : State Key) : Result (State Key) := do
  let entry ← entryAt e s
  check (entry.swapStatus = .writing) .assertion
  check entry.memObj.isSome .freed
  let s ← if c.errflag then closeFailed cfg e s else closeDone cfg limits c.noFiles e s
  let s ← modifyMem e ({ · with sio := false }) s
  let s ← storeSwapOutMaintainMemObject cfg limits c.lo e s
  storeUnlockObject cfg e s

end SquidVideoCache.Store
