import SquidVideoCache.StoreKey.Model

/-!
# The store of store.c

Entries live in a heap and are named by their index, so that a pointer can
outlive its entry; `table` lists the indices that `store_table` has, the newest
first, which is the order of a hash bucket. Requests are shared between a memory
object and the client side, so they have a heap of their own.

The disk and the policies that choose what to write are outside: `Config.swapOut`
says what `storeSwapOut` decides to do with an entry. Counters, debug output and
the replacement policies' lists are left out.
-/

namespace SquidVideoCache.Store
open Lib StoreKey

inductive StoreStatus where
  | ok
  | pending
  deriving DecidableEq, Repr

inductive MemStatus where
  | notInMemory
  | inMemory
  deriving DecidableEq, Repr

/-- `SWAPOUT_NONE`, `SWAPOUT_WRITING` and `SWAPOUT_DONE`. -/
inductive SwapStatus where
  | none
  | writing
  | done
  deriving DecidableEq, Repr

inductive SwapLogOp where
  | add
  | del
  deriving DecidableEq, Repr

/-- The bits of `StoreEntry.flags` that the functions below test or set. -/
structure EntryFlags where
  entrySpecial : Bool := false
  releaseRequest : Bool := false
  entryCachable : Bool := false
  keyPrivate : Bool := false
  entryValidated : Bool := false
  entryBadLength : Bool := false
  entryAborted : Bool := false
  keyEarlyPublic : Bool := false
  entryNegcached : Bool := false
  deriving DecidableEq, Repr

/-- The fields of an `HttpReply` that the store reads; `age` is the Age header. -/
structure Reply where
  versionMajor : ℕ := 0
  status : ℕ := 0
  contentLength : ℤ := -1
  hdrSz : ℤ := 0
  date : ℤ := -1
  expires : ℤ := -1
  lastModified : ℤ := -1
  age : ℤ := -1
  vary : Option CString := none
  etag : Option CString := none
  deriving DecidableEq

/-- `sio` says that a swapout file is open, `queueOffset` how much of the object has been given to
it, and `hasData` that `data_hdr` has a node. -/
structure MemObject where
  method : Method
  url : CString
  storeUrl : Option CString := none
  request : Option ℕ := none
  reply : Reply := {}
  varyHeaders : Option CString := none
  varyEncoding : Option CString := none
  id : ℤ := 0
  nclients : ℕ := 0
  hasData : Bool := false
  inmemLo : ℤ := 0
  inmemHi : ℤ := 0
  objectSz : ℤ := -1
  sio : Bool := false
  queueOffset : ℤ := 0
  imsEntry : Option ℕ := none
  oldEntry : Option ℕ := none
  refreshTimestamp : ℤ := 0
  deriving DecidableEq

structure StoreEntry (Key : Type) where
  key : Option Key := none
  memObj : Option MemObject
  flags : EntryFlags := {}
  lockCount : UInt16 := 0
  storeStatus : StoreStatus := .ok
  memStatus : MemStatus := .notInMemory
  swapStatus : SwapStatus := .none
  swapFilen : ℤ := -1
  swapDirn : ℤ := -1
  expires : ℤ := -1
  lastref : ℤ := -1
  timestamp : ℤ := -1
  lastmod : ℤ := -1
  refcount : UInt16 := 0

/-- `dangling` records that a freed entry was read. -/
structure State (Key : Type) where
  entries : ℕ → Option (StoreEntry Key) := fun _ => none
  nextEntry : ℕ := 0
  table : List ℕ := []
  requests : ℕ → Request
  keyCounter : ℕ := 0
  curtime : ℤ := 0
  storeDirsRebuilding : Bool := false
  lateReleaseStack : List ℕ := []
  swapLog : List (SwapLogOp × Option Key × ℤ) := []
  dangling : Bool := false

/-- What `storeSwapOut` does with an entry: nothing, stop because it cannot be swapped out,
close the file, or ask `storeCheckCachable` and start to write to a new file if the sizes and
the open files allow it (`some`). Nothing is done with a negatively cached entry, which
`storeCheckCachable` refuses without a release. -/
inductive SwapOut where
  | keep
  | stop
  | close
  | start (file : Option (ℤ × ℤ))
  deriving DecidableEq, Repr

/-- How an operation stops without a result. -/
inductive StoreFault where
  /-- a key function faults -/
  | key (f : Fault)
  /-- `assert(hash_lookup(store_table, newkey) == NULL)` in `storeSetPrivateKey` -/
  | keyTaken
  /-- `hash_remove_link` does not find the entry -/
  | unlinked
  /-- `assert(e->hash.key == NULL)` in `destroy_StoreEntry` -/
  | keyLeft
  /-- an `assert` of `storeDirSwapLog` -/
  | swapLog
  /-- any other `assert` -/
  | assertion
  /-- the entry or its memory object is gone -/
  | freed
  /-- `key_counter` is incremented past the largest `int` -/
  | overflow
  | diverges
  deriving DecidableEq, Repr

structure Config (Key : Type) where
  md5 : List UInt8 → Key
  order : ByteOrder
  acsmCap : AcsmCap
  neighborsDoPrivateKeys : Bool
  /-- `httpMakeVaryMark` stores the mark in the request. -/
  makeVaryMark : Request → Reply → Request
  swapOut : State Key → ℕ → SwapOut

abbrev Result (α : Type) := Except StoreFault α

variable {Key : Type} [DecidableEq Key] (cfg : Config Key)

def liftKey {α : Type} : Exec α → Result α
  | .ok a => .ok a
  | .error f => .error (.key f)

def check (p : Prop) [Decidable p] (f : StoreFault) : Result Unit := if p then .ok () else .error f

/-! ## The heap and the hash table -/

def entryAt (e : ℕ) (s : State Key) : Result (StoreEntry Key) :=
  match s.entries e with
  | some entry => .ok entry
  | none => .error .freed

def setEntry (e : ℕ) (entry : StoreEntry Key) (s : State Key) : State Key :=
  { s with entries := Function.update s.entries e (some entry) }

def freeEntry (e : ℕ) (s : State Key) : State Key := { s with entries := Function.update s.entries e none }

def keyOf (s : State Key) (e : ℕ) : Option Key := (s.entries e).bind StoreEntry.key

def hashLookup (key : Key) (s : State Key) : Option ℕ := s.table.find? fun e => keyOf s e = some key

def storeHashInsert (e : ℕ) (key : Key) (s : State Key) : Result (State Key) := do
  let entry ← entryAt e s
  return { setEntry e { entry with key := some key } s with table := e :: s.table }

/-- A `NULL` key or an entry that is in no bucket stops `hash_remove_link`. -/
def storeHashDelete (e : ℕ) (s : State Key) : Result (State Key) := do
  let entry ← entryAt e s
  check (entry.key.isSome ∧ e ∈ s.table) .unlinked
  return { setEntry e { entry with key := none } s with table := s.table.erase e }

/-- The log needs a public key and a file number; special entries are not logged. -/
def storeDirSwapLog (e : ℕ) (op : SwapLogOp) (s : State Key) : Result (State Key) := do
  let entry ← entryAt e s
  check (¬ entry.flags.keyPrivate ∧ 0 ≤ entry.swapFilen) .swapLog
  if entry.flags.entrySpecial then return s
  return { s with swapLog := s.swapLog ++ [(op, entry.key, entry.swapFilen)] }

/-! ## Private keys -/

/-- `if (++key_counter < 0) key_counter = 1;` The increment of the largest `int` is undefined, so
the test comes too late. -/
def getKeyCounter (s : State Key) : Result ℕ := do
  check (s.keyCounter + 1 < 2 ^ 31) .overflow
  return s.keyCounter + 1

def junk : CString := ⟨ascii ['J', 'U', 'N', 'K'], by decide⟩

def methodNone : Method := 0
def methodGet : Method := 1
def methodHead : Method := 4

/-- The private key of the next number, for the URL and method of `memObj`. -/
def newPrivateKey (memObj : Option MemObject) (num : ℕ) : Result Key :=
  match memObj with
  | some mem => liftKey (storeKeyPrivate cfg.md5 cfg.order mem.url mem.method num)
  | none => liftKey (storeKeyPrivate cfg.md5 cfg.order junk methodNone num)

/-- The first part of `storeSetPrivateKey`: the old key is taken back. -/
def dropKey (e : ℕ) (s : State Key) : Result (State Key) := do
  let entry ← entryAt e s
  if entry.key.isSome then
    let s ← if -1 < entry.swapFilen then storeDirSwapLog e .del s else .ok s
    storeHashDelete e s
  else return s

def storeSetPrivateKey (e : ℕ) (s : State Key) : Result (State Key) := do
  let entry ← entryAt e s
  if entry.key.isSome ∧ entry.flags.keyPrivate then return s
  let s ← dropKey e s
  let num ← getKeyCounter s
  let newkey ← newPrivateKey cfg entry.memObj num
  check (hashLookup newkey s = none) .keyTaken
  let memObj := entry.memObj.map fun mem => { mem with id := num }
  let flags := { entry.flags with keyPrivate := true }
  storeHashInsert e newkey
    { setEntry e { entry with key := none, memObj, flags } s with keyCounter := num }

/-! ## Releasing -/

def storeExpireNow (e : ℕ) (s : State Key) : Result (State Key) := do
  let entry ← entryAt e s
  return setEntry e { entry with expires := s.curtime } s

def storeReleaseRequest (e : ℕ) (s : State Key) : Result (State Key) := do
  let entry ← entryAt e s
  if entry.flags.releaseRequest then return s
  let flags := { entry.flags with releaseRequest := true, entryCachable := false }
  storeSetPrivateKey cfg e (setEntry e { entry with flags } s)

/-- Special entries count as locked while they are public. -/
def storeEntryLocked (entry : StoreEntry Key) : Bool :=
  entry.lockCount != 0 || entry.swapStatus == .writing || entry.storeStatus == .pending ||
    (entry.flags.entrySpecial && !entry.flags.keyPrivate)

def storeSetMemStatus (e : ℕ) (status : MemStatus) (s : State Key) : Result (State Key) := do
  let entry ← entryAt e s
  if status = entry.memStatus then return s
  check entry.memObj.isSome .assertion
  check (status = .inMemory → (entry.memObj.map MemObject.inmemLo) = some 0) .assertion
  return setEntry e { entry with memStatus := status } s

/-- The functions below call each other when a memory object goes away that holds other
entries. `unlock` is the recursive call of `storeUnlockObject`. -/
def unlockLink (unlock : ℕ → State Key → Result (State Key)) (link : Option ℕ) (s : State Key) :
    Result (State Key) :=
  match link with
  | some e => unlock e s
  | none => .ok s

def destroyMemObject (unlock : ℕ → State Key → Result (State Key)) (e : ℕ) (s : State Key) :
    Result (State Key) := do
  let entry ← entryAt e s
  match entry.memObj with
  | none => .error .freed
  | some mem =>
    let s := setEntry e { entry with memObj := none } s
    check (¬ mem.sio) .assertion
    let s ← unlockLink unlock mem.imsEntry s
    unlockLink unlock mem.oldEntry s

def freeStoreEntry (e : ℕ) (s : State Key) : Result (State Key) := do
  let s ← storeHashDelete e s
  check (keyOf s e = none) .keyLeft
  return freeEntry e s

def destroyStoreEntry (unlock : ℕ → State Key → Result (State Key)) (e : ℕ) (s : State Key) :
    Result (State Key) := do
  let entry ← entryAt e s
  let s ← if entry.memObj.isSome then destroyMemObject unlock e s else .ok s
  freeStoreEntry e s

def logDelete (e : ℕ) (s : State Key) : Result (State Key) := do
  let entry ← entryAt e s
  if -1 < entry.swapFilen ∧ ¬ entry.flags.keyPrivate then storeDirSwapLog e .del s else return s

def releaseNow (unlock : ℕ → State Key → Result (State Key)) (e : ℕ) (s : State Key) :
    Result (State Key) := do
  let s ← logDelete e s
  let s ← storeSetMemStatus e .notInMemory s
  destroyStoreEntry unlock e s

/-- The end of the branch of `storeRelease` while the store is rebuilt: the entry is kept, locked
and marked, until `storeLateRelease`. -/
def pushLateRelease (unlock : ℕ → State Key → Result (State Key)) (e : ℕ) (s : State Key) :
    Result (State Key) := do
  let entry ← entryAt e s
  if -1 < entry.swapFilen then
    let flags := { entry.flags with releaseRequest := true }
    return { setEntry e { entry with lockCount := entry.lockCount + 1, flags } s with
      lateReleaseStack := e :: s.lateReleaseStack }
  else
    -- the source goes on with the entry it has just destroyed
    let s ← destroyStoreEntry unlock e s
    releaseNow unlock e s

def releaseLate (unlock : ℕ → State Key → Result (State Key)) (e : ℕ) (s : State Key) :
    Result (State Key) := do
  let s ← storeSetPrivateKey cfg e s
  let entry ← entryAt e s
  let s ← if entry.memObj.isSome then do
      let s ← storeSetMemStatus e .notInMemory s
      destroyMemObject unlock e s
    else .ok s
  pushLateRelease unlock e s

def releaseWith (unlock : ℕ → State Key → Result (State Key)) (e : ℕ) (s : State Key) :
    Result (State Key) := do
  let entry ← entryAt e s
  if storeEntryLocked entry then
    let s ← storeExpireNow e s
    storeReleaseRequest cfg e s
  else if s.storeDirsRebuilding ∧ -1 < entry.swapFilen then releaseLate cfg unlock e s
  else releaseNow unlock e s

def purgeMemWith (unlock : ℕ → State Key → Result (State Key)) (e : ℕ) (s : State Key) :
    Result (State Key) := do
  let entry ← entryAt e s
  if entry.memObj.isNone then return s
  let s ← storeSetMemStatus e .notInMemory s
  let s ← destroyMemObject unlock e s
  let entry ← entryAt e s
  if entry.swapStatus ≠ .done then releaseWith cfg unlock e s else return s

def storeKeepInMemory (entry : StoreEntry Key) : Bool :=
  match entry.memObj with
  | none => false
  | some mem => mem.hasData && mem.inmemLo == 0

def storePendingNClients (entry : StoreEntry Key) : ℕ :=
  match entry.memObj with
  | none => 0
  | some mem => mem.nclients

/-- `storeEntryDereferenced` reads the entry, which may be gone by then. -/
def storeEntryDereferenced (e : ℕ) (s : State Key) : State Key :=
  match s.entries e with
  | some _ => s
  | none => { s with dangling := true }

/-- The last unlock, with the lock count at 0. -/
def unlockLast (unlock : ℕ → State Key → Result (State Key)) (e : ℕ) (s : State Key) :
    Result (State Key) := do
  let entry ← entryAt e s
  let releaseRequest := entry.flags.releaseRequest || entry.storeStatus == .pending
  let s := setEntry e { entry with flags := { entry.flags with releaseRequest } } s
  check (storePendingNClients entry = 0) .assertion
  if releaseRequest then releaseWith cfg unlock e s
  else if storeKeepInMemory entry then
    let s ← storeSetMemStatus e .inMemory s
    let entry ← entryAt e s
    return setEntry e { entry with memObj := entry.memObj.map ({ · with request := none }) } s
  else
    let s ← purgeMemWith cfg unlock e s
    return storeEntryDereferenced e s

/-- One call may turn as often as there are entries before it counts as endless. -/
def unlockFuel : ℕ → ℕ → State Key → Result (State Key)
  | 0, _, _ => .error .diverges
  | fuel + 1, e, s => do
    let entry ← entryAt e s
    let lockCount := entry.lockCount - 1
    let s := setEntry e { entry with lockCount } s
    if lockCount ≠ 0 then return s
    unlockLast cfg (unlockFuel fuel) e s

def storeUnlockObject (e : ℕ) (s : State Key) : Result (State Key) := unlockFuel cfg (s.nextEntry + 1) e s

def storeRelease (e : ℕ) (s : State Key) : Result (State Key) :=
  releaseWith cfg (unlockFuel cfg (s.nextEntry + 1)) e s

def storeLockObject (e : ℕ) (s : State Key) : Result (State Key) := do
  let entry ← entryAt e s
  return setEntry e { entry with lockCount := entry.lockCount + 1, lastref := s.curtime } s

end SquidVideoCache.Store
