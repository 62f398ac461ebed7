import SquidVideoCache.CleanLog.Model
import SquidVideoCache.Lib.Text

/-!
# The size of the disk cache, store_dir.c, store_swapout.c, store.c, store_io.c and store_rebuild.c

`cur_size` of a directory, `store_swap_size` and `n_disk_objects` are raised when a swapout ends and when
`storeCleanup` validates an entry of a log, and lowered when an entry is released. The functions that release,
recycle or update entries each look at other fields to decide.

Entries live in slots and are named by them; a freed slot stays empty. Loops that run over records, buckets or
stacked entries are taken one turn at a time, so that other events may come between any two turns.
-/

namespace SquidVideoCache.SwapSize
open Lib Function
open Store (StoreStatus SwapStatus)
open CleanLog (Flags EntryFlag ebitTest ebitSet ebitClr SwapLogData SwapLogOp FileMap fileMapCreate fileMapBitSet fileMapBitTest
  storeUfsDirMapBitReset storeUfsDirValidFileno)

variable {Key : Type}

/-- A key is public, or private with its number. -/
structure StoreEntry (Key : Type) where
  key : Key ⊕ ℕ
  lastref : ℤ
  swapFileSz : ℤ
  flags : Flags
  lockCount : ℕ
  swapFilen : ℤ
  swapDirn : ℤ
  storeStatus : StoreStatus
  swapStatus : SwapStatus
  deriving DecidableEq

structure State (Key : Type) where
  entries : List (Option (StoreEntry Key))
  maps : ℤ → FileMap
  curSize : ℤ → ℤ
  storeSwapSize : ℤ
  nDiskObjects : ℤ
  storeDirsRebuilding : ℕ
  lateReleaseStack : List ℕ
  keyCounter : ℕ
  /-- the bucket that `storeCleanup` looks at next -/
  bucketnum : ℕ

structure Config (Key : Type) where
  nConfigured : ℕ
  /-- `SD->fs.blksize` -/
  blksize : ℤ → ℤ
  storeHashBuckets : ℕ
  hash : Key ⊕ ℕ → ℕ

def State.init (cfg : Config Key) : State Key :=
  ⟨[], fun _ => fileMapCreate, fun _ => 0, 0, 0, cfg.nConfigured + 1, [], 0, 0⟩

/-! ## Entries -/

def entryAt (i : ℕ) (s : State Key) : Exec (StoreEntry Key) :=
  match s.entries[i]? with
  | some (some e) => .ok e
  | _ => .error .bounds

def State.setEntry (s : State Key) (i : ℕ) (e : StoreEntry Key) : State Key := { s with entries := s.entries.set i (some e) }

def State.destroy (s : State Key) (i : ℕ) : State Key := { s with entries := s.entries.set i none }

def State.resetBit (s : State Key) (d filn : ℤ) : State Key :=
  { s with maps := update s.maps d (storeUfsDirMapBitReset (s.maps d) filn) }

def storeEntryLocked (e : StoreEntry Key) : Bool :=
  e.lockCount != 0 || e.swapStatus == .writing || e.storeStatus == .pending ||
    (ebitTest e.flags .entrySpecial && !ebitTest e.flags .keyPrivate)

/-! ## The counters -/

def kilobytes (blksize size : ℤ) : ℤ := (size + blksize - 1).tdiv blksize * blksize / 1024

section
variable (cfg : Config Key)

def storeDirUpdateSwapSize (d size sign : ℤ) (s : State Key) : State Key :=
  let k := toInt (kilobytes (cfg.blksize d) size * sign)
  { s with
    curSize := update s.curSize d (toInt (s.curSize d + k))
    storeSwapSize := toInt (s.storeSwapSize + k)
    nDiskObjects := if 0 < sign then toInt (s.nDiskObjects + 1) else if sign < 0 then toInt (s.nDiskObjects - 1) else s.nDiskObjects }

/-! ## Releasing -/

/-- The private key is a new one, so that no other entry has it. -/
def storeSetPrivateKey (i : ℕ) (s : State Key) : Exec (State Key) := do
  let e ← entryAt i s
  if ebitTest e.flags .keyPrivate then pure s
  else pure ({ s with keyCounter := s.keyCounter + 1 }.setEntry i
    { e with key := .inr (s.keyCounter + 1), flags := ebitSet e.flags .keyPrivate })

def storeReleaseRequest (i : ℕ) (s : State Key) : Exec (State Key) := do
  let e ← entryAt i s
  if ebitTest e.flags .releaseRequest then pure s
  else storeSetPrivateKey i (s.setEntry i { e with flags := ebitClr (ebitSet e.flags .releaseRequest) .entryCachable })

/-- While the store is rebuilt, the entry is kept for `storeLateRelease`. -/
def releaseLate (i : ℕ) (s : State Key) : Exec (State Key) := do
  let s ← storeSetPrivateKey i s
  let e ← entryAt i s
  pure ({ s with lateReleaseStack := i :: s.lateReleaseStack }.setEntry i
    { e with lockCount := e.lockCount + 1, flags := ebitSet e.flags .releaseRequest })

/-- What `storeRelease` takes back of an entry's file. -/
def releaseFile (e : StoreEntry Key) (s : State Key) : State Key :=
  if -1 < e.swapFilen then
    if e.swapStatus = .done ∧ ebitTest e.flags .entryValidated then
      storeDirUpdateSwapSize cfg e.swapDirn e.swapFileSz (-1) (s.resetBit e.swapDirn e.swapFilen)
    else s.resetBit e.swapDirn e.swapFilen
  else s

def storeRelease (i : ℕ) (s : State Key) : Exec (State Key) := do
  let e ← entryAt i s
  if storeEntryLocked e then storeReleaseRequest i s
  else if s.storeDirsRebuilding ≠ 0 ∧ -1 < e.swapFilen then releaseLate i s
  else pure ((releaseFile cfg e s).destroy i)

def storeLockObject (i : ℕ) (curtime : ℤ) (s : State Key) : Exec (State Key) := do
  let e ← entryAt i s
  pure (s.setEntry i { e with lockCount := e.lockCount + 1, lastref := curtime })

def storeUnlockObject (i : ℕ) (s : State Key) : Exec (State Key) := do
  let e ← entryAt i s
  if e.lockCount - 1 ≠ 0 then pure (s.setEntry i { e with lockCount := e.lockCount - 1 })
  else
    let flags := if e.storeStatus = .pending then ebitSet e.flags .releaseRequest else e.flags
    let s := s.setEntry i { e with lockCount := 0, flags := flags }
    if ebitTest flags .releaseRequest then storeRelease cfg i s else pure s

/-- The file is left to its next user. -/
def recycleFile (e : StoreEntry Key) (s : State Key) : State Key × StoreEntry Key :=
  if -1 < e.swapFilen then (s.resetBit e.swapDirn e.swapFilen, { e with swapFilen := -1, swapDirn := -1 }) else (s, e)

def storeRecycle (i : ℕ) (s : State Key) : Exec (State Key) := do
  let e ← entryAt i s
  if 0 ≤ e.swapDirn ∧ storeEntryLocked e = false then do
    let s ← storeReleaseRequest i s
    let e ← entryAt i s
    storeRelease cfg i ((recycleFile e s).1.setEntry i (recycleFile e s).2)
  else storeRelease cfg i s

/-! ## New entries -/

def storeCreateEntry (cachable : Bool) (curtime : ℤ) (s : State Key) : State Key :=
  let flags := ebitSet (ebitSet 0 .keyPrivate) .entryValidated
  { s with
    keyCounter := s.keyCounter + 1
    entries := s.entries ++ [some
      { key := .inr (s.keyCounter + 1), lastref := curtime, swapFileSz := 0
        flags := if cachable then ebitSet flags .entryCachable else ebitSet flags .releaseRequest
        lockCount := 1, swapFilen := -1, swapDirn := -1, storeStatus := .pending, swapStatus := .none }] }

variable [DecidableEq Key]

/-- `hash_lookup(store_table, key)`. -/
def storeGet (s : State Key) (key : Key) : Option ℕ := s.entries.findIdx? fun e => e.any (·.key = .inl key)

/-- Takes the key from another entry, which is released. -/
def releaseOther (key : Key) (s : State Key) : Exec (State Key) :=
  match storeGet s key with
  | none => .ok s
  | some j => do
    let s ← storeSetPrivateKey j s
    storeRelease cfg j s

def storeSetPublicKey (i : ℕ) (key : Key) (s : State Key) : Exec (State Key) := do
  let s ← releaseOther cfg key s
  let e ← entryAt i s
  pure (s.setEntry i { e with key := .inl key, flags := ebitClr e.flags .keyPrivate })

/-! ## Swapping out -/

/-- The directory and the file number are those that `storeCreate` chose. -/
def storeSwapOutStart (i : ℕ) (d filn : ℤ) (s : State Key) : Exec (State Key) := do
  let e ← entryAt i s
  let fm ← fileMapBitSet (s.maps d) filn
  pure ({ s with maps := update s.maps d fm }.setEntry i
    { e with swapStatus := .writing, swapFilen := filn, swapDirn := d, lockCount := e.lockCount + 1 })

/-- The two ways a swapout ends, with the size of the object and its header or with an error. After an error
file 0 is not unlinked. -/
def swapOutEnd (i : ℕ) (e : StoreEntry Key) (s : State Key) : Option ℤ → Exec (State Key)
  | none => storeReleaseRequest i
      ((if 0 < e.swapFilen then s.resetBit e.swapDirn e.swapFilen else s).setEntry i
        { e with swapFilen := -1, swapDirn := -1, swapStatus := .none })
  | some size =>
    .ok (storeDirUpdateSwapSize cfg e.swapDirn size 1 (s.setEntry i { e with swapFileSz := size, swapStatus := .done }))

def storeSwapOutFileClosed (i : ℕ) (size : Option ℤ) (s : State Key) : Exec (State Key) := do
  let e ← entryAt i s
  cAssert (e.swapStatus = .writing)
  let s ← swapOutEnd cfg i e s size
  storeUnlockObject cfg i s

/-! ## Reading a log -/

/-- The entry of a record, which `storeCleanup` has still to validate. -/
def diskEntry (d : ℕ) (r : SwapLogData Key) : StoreEntry Key where
  key := .inl r.key
  lastref := r.lastref
  swapFileSz := r.swapFileSz
  flags := ebitClr (ebitClr (ebitClr (ebitSet r.flags .entryCachable) .releaseRequest) .keyPrivate) .entryValidated
  lockCount := 0
  swapFilen := r.swapFilen
  swapDirn := d
  storeStatus := .ok
  swapStatus := .done

def storeUfsDirAddDiskRestore (d : ℕ) (r : SwapLogData Key) (s : State Key) : Exec (State Key) := do
  let fm ← fileMapBitSet (s.maps d) r.swapFilen
  pure { s with maps := update s.maps d fm, entries := s.entries ++ [some (diskEntry d r)] }

/-- `lastref` is given the time stamp, and the flags are those of the record. -/
def updateMeta (r : SwapLogData Key) (e : StoreEntry Key) : StoreEntry Key := { e with lastref := r.timestamp, flags := r.flags }

/-- An ADD record of an entry that is known, with its slot. -/
def rebuildKnown (d : ℕ) (r : SwapLogData Key) (i : ℕ) (s : State Key) : Exec (State Key) := do
  let e ← entryAt i s
  if r.lastref ≤ e.lastref then pure s
  else if fileMapBitTest (s.maps d) r.swapFilen then
    if e.swapFilen = r.swapFilen ∧ e.swapDirn = d ∧ e.storeStatus = .ok then pure (s.setEntry i (updateMeta r e)) else pure s
  else do
    let s ← storeRecycle cfg i s
    storeUfsDirAddDiskRestore d r s

/-- An ADD record with a valid file number of an entry that is not private. -/
def rebuildAdd (d : ℕ) (r : SwapLogData Key) (s : State Key) : Exec (State Key) :=
  match storeGet s r.key with
  | none => if fileMapBitTest (s.maps d) r.swapFilen then .ok s else storeUfsDirAddDiskRestore d r s
  | some i => rebuildKnown cfg d r i s

/-- Cancels the entry unless it is newer. -/
def rebuildDel (r : SwapLogData Key) (s : State Key) : Exec (State Key) :=
  match storeGet s r.key with
  | none => .ok s
  | some i => do
    let e ← entryAt i s
    if e.lastref ≤ r.lastref then storeRecycle cfg i s else pure s

/-- A turn of `storeUfsDirRebuildFromSwapLog`. -/
def rebuildRecord (d : ℕ) (r : SwapLogData Key) (s : State Key) : Exec (State Key) :=
  match r.op with
  | .add =>
    if ¬ storeUfsDirValidFileno (s.maps d) r.masked.swapFilen false then .ok s
    else if ebitTest r.flags .keyPrivate then .ok s
    else rebuildAdd cfg d r.masked s
  | .del => rebuildDel cfg r s
  | .nop => .ok s
  | .max => .ok s

/-! ## Validation -/

/-- The body of the loop of `storeCleanup` over the entries of a bucket. -/
def cleanupEntry (s : State Key) (i : ℕ) : Exec (State Key) := do
  let e ← entryAt i s
  if ebitTest e.flags .entryValidated then pure s
  else if e.swapFilen < 0 then pure s
  else do
    let e := { e with flags := ebitSet e.flags .entryValidated }
    let s := storeDirUpdateSwapSize cfg e.swapDirn e.swapFileSz 1 (s.setEntry i e)
    if ebitTest e.flags .keyPrivate then storeRelease cfg i s else pure s

def bucket (s : State Key) (b : ℕ) : List ℕ :=
  (List.range s.entries.length).filter fun i => (s.entries[i]?.join).any fun e => cfg.hash e.key = b

/-- A turn of `storeCleanup`: the next bucket, or the end of the validation. -/
def storeCleanup (s : State Key) : Exec (State Key) := do
  if s.bucketnum < cfg.storeHashBuckets then
    (bucket cfg s s.bucketnum).foldlM (cleanupEntry cfg) { s with bucketnum := s.bucketnum + 1 }
  else do
    cAssert (s.storeDirsRebuilding - 1 = 0)
    pure { s with storeDirsRebuilding := s.storeDirsRebuilding - 1 }

/-- A turn of `storeLateRelease`. -/
def storeLateRelease (s : State Key) : Exec (State Key) :=
  match s.lateReleaseStack with
  | [] => .ok s
  | i :: rest => storeUnlockObject cfg i { s with lateReleaseStack := rest }

/-! ## The machine -/

inductive Event (Key : Type) where
  | create (cachable : Bool) (curtime : ℤ)
  | setPublicKey (i : ℕ) (key : Key)
  | setSpecial (i : ℕ)
  | complete (i : ℕ)
  | lock (i : ℕ) (curtime : ℤ)
  | unlock (i : ℕ)
  | release (i : ℕ)
  | recycle (i : ℕ)
  | swapOutStart (i : ℕ) (d filn : ℤ)
  | swapOutClosed (i : ℕ) (size : Option ℤ)
  | record (d : ℕ) (r : SwapLogData Key)
  /-- `storeUfsDirRebuildComplete` -/
  | rebuildComplete
  | cleanup
  | lateRelease

def State.has (s : State Key) (i : ℕ) (p : StoreEntry Key → Bool) : Bool := (s.entries[i]?.join).any p

def enabled (cfg : Config Key) (s : State Key) : Event Key → Bool
  | .create _ _ => true
  | .setPublicKey i _ => s.has i fun e => ebitTest e.flags .keyPrivate
  | .setSpecial i => s.has i fun e => e.swapStatus == .none
  | .complete i => s.has i fun e => e.storeStatus == .pending
  | .lock i _ => s.has i fun _ => true
  | .unlock i => s.has i fun e => e.lockCount != 0
  | .release i => s.has i fun _ => true
  | .recycle i => s.has i fun _ => true
  | .swapOutStart i d filn => s.has i (fun e => e.swapStatus == .none) && decide (0 ≤ d ∧ d < cfg.nConfigured ∧ 0 ≤ filn) &&
      !fileMapBitTest (s.maps d) filn
  | .swapOutClosed i _ => s.has i fun e => e.swapStatus == .writing
  | .record d _ => decide (d < cfg.nConfigured ∧ 1 < s.storeDirsRebuilding)
  | .rebuildComplete => decide (1 < s.storeDirsRebuilding)
  | .cleanup => decide (s.storeDirsRebuilding = 1)
  | .lateRelease => decide (s.storeDirsRebuilding = 0)

def step (s : State Key) : Event Key → Exec (State Key)
  | .create cachable curtime => .ok (storeCreateEntry cachable curtime s)
  | .setPublicKey i key => storeSetPublicKey cfg i key s
  | .setSpecial i => do
    let e ← entryAt i s
    pure (s.setEntry i { e with flags := ebitSet e.flags .entrySpecial })
  | .complete i => do
    let e ← entryAt i s
    pure (s.setEntry i { e with storeStatus := .ok })
  | .lock i curtime => storeLockObject i curtime s
  | .unlock i => storeUnlockObject cfg i s
  | .release i => storeRelease cfg i s
  | .recycle i => storeRecycle cfg i s
  | .swapOutStart i d filn => storeSwapOutStart i d filn s
  | .swapOutClosed i size => storeSwapOutFileClosed cfg i size s
  | .record d r => rebuildRecord cfg d r s
  | .rebuildComplete => .ok { s with storeDirsRebuilding := s.storeDirsRebuilding - 1 }
  | .cleanup => storeCleanup cfg s
  | .lateRelease => storeLateRelease cfg s

def machine : Machine (State Key) (Event Key) Fault := ⟨.init cfg, enabled cfg, step cfg⟩

end

end SquidVideoCache.SwapSize
