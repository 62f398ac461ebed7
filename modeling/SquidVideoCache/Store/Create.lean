import SquidVideoCache.Store.Model

/-!
# Public keys, new entries and the end of a transfer

`storeCreateEntry` gives a new entry a public key at once if the keyword list has
its URL. `storeSetPublicKey` takes the key away from the entry that has it, and
adds a variant to the marker object of its URL through `storeAddVary`.
-/

namespace SquidVideoCache.Store
open Lib StoreKey

variable {Key : Type} [DecidableEq Key] (cfg : Config Key)

structure RequestFlags where
  cachable : Bool := false
  hierarchical : Bool := false
  deriving DecidableEq, Repr

/-! ## Lookup -/

def storeLookupUrl (mem : MemObject) : CString := mem.storeUrl.getD mem.url

def storeGetPublic (url : CString) (method : Method) (s : State Key) : Result (Option ℕ) := do
  let key ← liftKey (storeKeyPublic cfg.md5 cfg.acsmCap url method)
  return hashLookup key s

/-- The lookup of a request that carries no `VaryData`. -/
def storeGetPublicByRequestMethod (request : Request) (method : Method) (s : State Key) :
    Result (Option ℕ) := do
  let key ← liftKey (storeKeyPublicByRequestMethod cfg.md5 cfg.acsmCap request method)
  return hashLookup key s

/-- A HEAD request can be answered from a GET entry. -/
def storeGetPublicByRequest (request : Request) (s : State Key) : Result (Option ℕ) := do
  match ← storeGetPublicByRequestMethod cfg request request.method s with
  | some e => return some e
  | none =>
    if request.method = methodHead then storeGetPublicByRequestMethod cfg request methodGet s
    else return none

/-! ## storeSetPublicKey -/

def setRequest (r : ℕ) (request : Request) (s : State Key) : State Key :=
  { s with requests := Function.update s.requests r request }

def publicKeyOf (mem : MemObject) (s : State Key) : Result Key :=
  match mem.request with
  | some r => liftKey (storeKeyPublicByRequest cfg.md5 cfg.acsmCap (s.requests r))
  | none => liftKey (storeKeyPublic cfg.md5 cfg.acsmCap (storeLookupUrl mem) mem.method)

/-- The entry that has the key becomes private and is released. -/
def evict (key : Key) (s : State Key) : Result (State Key) :=
  match hashLookup key s with
  | some e2 => do
    let s ← storeSetPrivateKey cfg e2 s
    storeRelease cfg e2 s
  | none => .ok s

/-- The entry goes into the table as a public one, and into the swap log if it has a file. -/
def insertPublic (e : ℕ) (newkey : Key) (s : State Key) : Result (State Key) := do
  let entry ← entryAt e s
  let s ← storeHashInsert e newkey
    (setEntry e { entry with flags := { entry.flags with keyPrivate := false } } s)
  if -1 < entry.swapFilen then storeDirSwapLog e .add s else return s

def replaceKey (e : ℕ) (newkey : Key) (s : State Key) : Result (State Key) := do
  let entry ← entryAt e s
  let s ← if entry.key.isSome then storeHashDelete e s else .ok s
  insertPublic e newkey s

/-- The last part of `storeSetPublicKey`, which computes the key once more. -/
def publish (e : ℕ) (mem : MemObject) (newkey : Key) (s : State Key) : Result (State Key) := do
  let s ← evict cfg newkey s
  let newkey ← publicKeyOf cfg mem s
  replaceKey e newkey s

/-- The variance of the request is brought in line with that of the object; `false` if the
object had to be released instead. -/
def syncVary (e : ℕ) (mem : MemObject) (r : ℕ) (s : State Key) : Result (State Key × Bool) :=
  let request := s.requests r
  match mem.varyHeaders, request.varyHeaders with
  | none, _ => .ok (setRequest r { request with varyHeaders := none } s, true)
  | some mark, some mark' =>
    if mark' ≠ mark then do
      let s := setRequest r { request with varyHeaders := none } s
      match ← storeGetPublic cfg (storeLookupUrl mem) mem.method s with
      | some pe => return (← storeRelease cfg pe s, true)
      | none => return (s, true)
    else .ok (s, true)
  | some _, none => do
    let request := cfg.makeVaryMark request mem.reply
    let s := setRequest r request s
    if request.varyHeaders.isNone then return (← storeReleaseRequest cfg e s, false)
    return (s, true)

/-- The part after the tests of the current key. `addVary` is the call of `storeAddVary`. -/
def makePublic (addVary : MemObject → Key → State Key → Result (State Key)) (e : ℕ)
    (s : State Key) : Result (State Key) := do
  let entry ← entryAt e s
  match entry.memObj with
  | none => .error .assertion
  | some mem =>
    check (¬ entry.flags.releaseRequest) .assertion
    match mem.request with
    | none => publish cfg e mem (← publicKeyOf cfg mem s) s
    | some r =>
      let (s, indexed) ← syncVary cfg e mem r s
      if indexed then
        let newkey ← publicKeyOf cfg mem s
        let s ← if mem.varyHeaders.isSome ∧ ¬ entry.flags.keyEarlyPublic then addVary mem newkey s
          else .ok s
        publish cfg e mem newkey s
      else return s

/-- An early public key is taken back first; another public key stays. -/
def setPublicKeyWith (addVary : MemObject → Key → State Key → Result (State Key)) (e : ℕ)
    (s : State Key) : Result (State Key) := do
  let entry ← entryAt e s
  if entry.key.isSome ∧ ¬ entry.flags.keyPrivate then
    if entry.flags.keyEarlyPublic then
      let flags := { entry.flags with keyEarlyPublic := false }
      let s ← storeSetPrivateKey cfg e (setEntry e { entry with flags } s)
      makePublic cfg addVary e s
    else return s
  else makePublic cfg addVary e s

/-- `storeSetPublicKey` for an entry without a request, which adds no variant. -/
def setPublicKeyPlain : ℕ → State Key → Result (State Key) := setPublicKeyWith cfg fun _ _ s => .ok s

/-! ## storeCreateEntry -/

/-- `new_StoreEntry` with the lock and the method set. -/
def newStoreEntry (url : CString) (method : Method) : StoreEntry Key :=
  { memObj := some { method, url }, lockCount := 1 }

/-- The kind of key a new entry gets: public for a keyword, otherwise by the neighbours. -/
def setFirstKey (flags : RequestFlags) (ret : ℤ) (e : ℕ) (s : State Key) : Result (State Key) :=
  if 0 ≤ ret - 100 then setPublicKeyPlain cfg e s
  else if cfg.neighborsDoPrivateKeys ∨ ¬ flags.hierarchical then storeSetPrivateKey cfg e s
  else setPublicKeyPlain cfg e s

def setCachable (flags : RequestFlags) (e : ℕ) (s : State Key) : Result (State Key) := do
  let entry ← entryAt e s
  if flags.cachable then
    let flags := { entry.flags with entryCachable := true, releaseRequest := false }
    return setEntry e { entry with flags } s
  else
    let flags := { entry.flags with entryCachable := false }
    storeReleaseRequest cfg e (setEntry e { entry with flags } s)

/-- The assignments at the end of `storeCreateEntry`. -/
def startPending (e : ℕ) (s : State Key) : Result (State Key) := do
  let entry ← entryAt e s
  let s := setEntry e { entry with storeStatus := .pending } s
  let s ← storeSetMemStatus e .notInMemory s
  let entry ← entryAt e s
  let flags := { entry.flags with entryValidated := true }
  return setEntry e { entry with
    swapStatus := .none, swapFilen := -1, swapDirn := -1, refcount := 0, lastref := s.curtime
    timestamp := -1, flags } s

def storeCreateEntry (url : CString) (flags : RequestFlags) (method : Method) (s : State Key) :
    Result (ℕ × State Key) := do
  let e := s.nextEntry
  let s := { setEntry e (newStoreEntry url method) s with nextEntry := e + 1 }
  let queryStr ← liftKey (convertQuery url)
  let ret ← liftKey (searchQuery cfg.acsmCap.keywords queryStr)
  let s ← setFirstKey cfg flags ret e s
  let s ← setCachable cfg flags e s
  let s ← startPending e s
  return (e, s)

/-! ## The end of a transfer -/

def modifyMem (e : ℕ) (f : MemObject → MemObject) (s : State Key) : Result (State Key) := do
  let entry ← entryAt e s
  return setEntry e { entry with memObj := entry.memObj.map f } s

/-- The tests of the flags in `storeCheckCachable`. -/
def cachableFlags (entry : StoreEntry Key) : Bool :=
  !(entry.storeStatus == .ok && entry.flags.entryBadLength) && !entry.flags.releaseRequest &&
    entry.flags.entryCachable && !entry.flags.keyPrivate

def clearCachable (e : ℕ) (s : State Key) : Result (State Key) := do
  let entry ← entryAt e s
  return setEntry e { entry with flags := { entry.flags with entryCachable := false } } s

def storeSwapOutStart (e : ℕ) (filen dirn : ℤ) (s : State Key) : Result (State Key) := do
  let s ← storeLockObject e s
  let entry ← entryAt e s
  let memObj := entry.memObj.map fun mem => { mem with sio := entry.storeStatus == .pending }
  return setEntry e { entry with
    swapStatus := .writing, swapFilen := filen, swapDirn := dirn, memObj } s

def storeSwapOut (e : ℕ) (s : State Key) : Result (State Key) := do
  let entry ← entryAt e s
  if entry.memObj.isNone then return s
  match cfg.swapOut s e with
  | .keep => return s
  | .stop =>
    let s ← storeReleaseRequest cfg e s
    modifyMem e ({ · with sio := false }) s
  | .close => modifyMem e ({ · with sio := false }) s
  | .start file =>
    if entry.swapStatus ≠ .none then return s
    match file, cachableFlags entry with
    | some (filen, dirn), true => storeSwapOutStart e filen dirn s
    | _, _ =>
      let s ← storeReleaseRequest cfg e s
      clearCachable e s

def httpOk : ℕ := 200
def httpNoContent : ℕ := 204
def httpNotModified : ℕ := 304

def httpReplyBodySize (method : Method) (reply : Reply) : ℤ :=
  if reply.versionMajor < 1 then -1
  else if method = methodHead then 0
  else if reply.status = httpOk then reply.contentLength
  else if reply.status = httpNoContent ∨ reply.status = httpNotModified ∨ reply.status < httpOk then 0
  else reply.contentLength

def storeEntryValidLength (mem : MemObject) : Bool :=
  let clen := httpReplyBodySize mem.method mem.reply
  clen < 0 || mem.reply.hdrSz + clen - mem.objectSz == 0

/-- `refresh_timestamp = 0` in the entry that is being revalidated. -/
def resetOldEntry (oldEntry : Option ℕ) (s : State Key) : Result (State Key) :=
  match oldEntry with
  | none => .ok s
  | some o => modifyMem o ({ · with refreshTimestamp := 0 }) s

def finishComplete (e : ℕ) (oldEntry : Option ℕ) (s : State Key) : Result (State Key) := do
  let s ← modifyMem e ({ · with refreshTimestamp := 0 }) s
  let s ← resetOldEntry oldEntry s
  storeSwapOut cfg e s

/-- The handlers of the clients run as events of their own. -/
def storeComplete (e : ℕ) (s : State Key) : Result (State Key) := do
  let entry ← entryAt e s
  match entry.memObj with
  | none => .error .freed
  | some mem =>
    if entry.storeStatus ≠ .pending then
      check (entry.flags.entryAborted ∧ mem.nclients = 0) .assertion
      return s
    let mem := { mem with objectSz := mem.inmemHi }
    let s := setEntry e { entry with memObj := some mem, storeStatus := .ok } s
    check (entry.memStatus = .notInMemory) .assertion
    let s ← if storeEntryValidLength mem then .ok s
      else
        let flags := { entry.flags with entryBadLength := true }
        storeReleaseRequest cfg e
          (setEntry e { entry with memObj := some mem, storeStatus := .ok, flags } s)
    finishComplete cfg e mem.oldEntry s

/-! ## storeAddVary -/

def storeTimestampsSet (e : ℕ) (s : State Key) : Result (State Key) := do
  let entry ← entryAt e s
  match entry.memObj with
  | none => .error .freed
  | some mem =>
    let now := s.curtime
    let served := if mem.reply.date < 0 ∨ now < mem.reply.date then now else mem.reply.date
    let served := if now - served < mem.reply.age ∧ mem.reply.age < now then now - mem.reply.age
      else served
    let expires := if 0 < mem.reply.expires ∧ -1 < mem.reply.date
      then served + (mem.reply.expires - mem.reply.date) else mem.reply.expires
    return setEntry e
      { entry with expires, lastmod := mem.reply.lastModified, timestamp := served } s

def storeClientRegister (e : ℕ) (s : State Key) : Result (State Key) := do
  let entry ← entryAt e s
  check entry.memObj.isSome .assertion
  let memObj := entry.memObj.map fun mem => { mem with nclients := mem.nclients + 1 }
  storeLockObject e (setEntry e { entry with refcount := entry.refcount + 1, memObj } s)

/-- `storeCreateMemObject` with the method set, for an entry that is only on disk. -/
def createMemObject (e : ℕ) (url : CString) (method : Method) (s : State Key) : Result (State Key) := do
  let entry ← entryAt e s
  if entry.memObj.isSome then return s
  return setEntry e { entry with memObj := some { method, url } } s

/-- The marker object gets its header and the first bytes. -/
def markerObject (storeUrl : Option CString) (vary : Option CString) (now : ℤ) (mem : MemObject) :
    MemObject :=
  { mem with
    storeUrl
    reply := { mem.reply with
      versionMajor := 1, status := httpOk, date := now, contentLength := -1
      expires := now + 100000, lastModified := -1, vary }
    hasData := true }

def finishMarker (e : ℕ) (s : State Key) : Result (State Key) := do
  let s ← storeTimestampsSet e s
  let s ← storeComplete cfg e s
  let s ← storeTimestampsSet e s
  let s ← storeSwapOut cfg e s
  storeUnlockObject cfg e s

def lockFound (found : Option ℕ) (s : State Key) : Result (State Key) :=
  match found with
  | some o => storeLockObject o s
  | none => .ok s

/-- If there is an old marker it is read, in events of their own, before the new one is completed. -/
def finishAddVary (mem : MemObject) (found : Option ℕ) (e : ℕ) (s : State Key) : Result (State Key) :=
  match found with
  | some o => do
    let s ← createMemObject o mem.url mem.method s
    storeClientRegister o s
  | none => finishMarker cfg e s

/-- The new marker object of a URL. -/
def storeAddVary (mem : MemObject) (_key : Key) (s : State Key) : Result (State Key) := do
  let found ← storeGetPublic cfg (storeLookupUrl mem) mem.method s
  let s ← lockFound found s
  let (e, s) ← storeCreateEntry cfg mem.url { cachable := true } mem.method s
  let s ← modifyMem e (markerObject mem.storeUrl mem.reply.vary s.curtime) s
  let s ← setPublicKeyPlain cfg e s
  finishAddVary cfg mem found e s

def storeSetPublicKey : ℕ → State Key → Result (State Key) := setPublicKeyWith cfg (storeAddVary cfg)

end SquidVideoCache.Store
