import SquidVideoCache.Store.Create

/-!
# Revalidation of a stale entry

`clientProcessExpired` of client_side.c asks the server whether a stale entry is still
good, and a new entry takes the reply. `clientHandleIMSReply` sees the reply first: after
a 304 the old entry gets the new headers, and `storeUpdate` of store_update.c replaces it
by a copy that has them.

The transfers are events of the server side. What a client is sent and the log are left out.
-/

namespace SquidVideoCache.Client
open Lib StoreKey Store

variable {Key : Type} [DecidableEq Key]

/-- `updateOnNotModified` merges the headers of a 304 into a reply, `headerSize` is the size of a
packed header, `quickAbort` is `CheckQuickAbort2`, and `staleOk` says that a reply that is a failure
is not cached as such and that the old entry may be sent instead. -/
structure Options (Key : Type) where
  updateHeaders : Bool
  collapsedForwarding : Bool
  updateOnNotModified : Reply → Reply → Reply
  headerSize : Reply → ℤ
  quickAbort : StoreEntry Key → Bool
  staleOk : StoreEntry Key → StoreEntry Key → Bool

/-- A `clientHttpRequest` with the fields of its `request_t` that only the client side reads;
`ifNoneMatch` lists the tags of the If-None-Match header. -/
structure ClientHttpRequest where
  uri : CString
  request : ℕ
  flags : RequestFlags
  onlyIfCached : Bool := false
  cacheValidation : Bool := false
  collapsed : Bool := false
  ims : Option ℤ := none
  imslen : ℤ := -1
  ifNoneMatch : List CString := []
  entry : ℕ
  oldEntry : Option ℕ := none

variable (cfg : Config Key) (opts : Options Key)

/-! ## Clients of an entry -/

/-- The call of `storeSwapOutMaintainMemObject` when a client leaves. -/
def storeSwapOutMaintainMemObject (e : ℕ) (s : State Key) : Result (State Key) := do
  let entry ← entryAt e s
  if entry.flags.entrySpecial ∨ entry.memStatus = .inMemory then return s
  match cfg.swapOut s e with
  | .stop =>
    let s ← storeReleaseRequest cfg e s
    modifyMem e ({ · with sio := false }) s
  | _ => return s

def setAborted (e : ℕ) (s : State Key) : Result (State Key) := do
  let entry ← entryAt e s
  let s := setEntry e { entry with flags := { entry.flags with entryAborted := true } } s
  let s ← storeSetMemStatus e .notInMemory s
  let entry ← entryAt e s
  let memObj := entry.memObj.map fun mem => { mem with objectSz := mem.inmemHi, sio := false }
  return setEntry e { entry with storeStatus := .ok, memObj } s

def storeAbort (e : ℕ) (s : State Key) : Result (State Key) := do
  let entry ← entryAt e s
  check (entry.storeStatus = .pending ∧ entry.memObj.isSome) .assertion
  let s ← storeLockObject e s
  let s ← storeExpireNow e s
  let s ← storeReleaseRequest cfg e s
  let s ← setAborted e s
  storeUnlockObject cfg e s

def checkQuickAbort (e : ℕ) (s : State Key) : Result (State Key) := do
  let entry ← entryAt e s
  if 0 < storePendingNClients entry ∨ entry.storeStatus ≠ .pending ∨ entry.flags.entrySpecial ∨
      ¬ opts.quickAbort entry then return s
  storeAbort cfg e s

/-- The end of `storeClientUnregister`, which gives the lock of the client back. -/
def leaveEntry (e : ℕ) (s : State Key) : Result (State Key) := do
  let s ← storeSwapOutMaintainMemObject cfg e s
  let s ← checkQuickAbort cfg opts e s
  storeUnlockObject cfg e s

def storeClientUnregister (e : ℕ) (s : State Key) : Result (State Key) := do
  let entry ← entryAt e s
  match entry.memObj with
  | none => .error .freed
  | some mem =>
    if mem.nclients = 0 then return s
    let s := setEntry e { entry with memObj := some { mem with nclients := mem.nclients - 1 } } s
    let s ← if entry.storeStatus = .ok ∧ entry.swapStatus ≠ .done then storeSwapOut cfg e s else .ok s
    leaveEntry cfg opts e s

/-- A client that is done with an entry unregisters and unlocks it. -/
def releaseClient (e : ℕ) (s : State Key) : Result (State Key) := do
  let s ← storeClientUnregister cfg opts e s
  storeUnlockObject cfg e s

/-! ## clientProcessExpired -/

def dropImsEntry (old : ℕ) (s : State Key) : Result (State Key) := do
  let entry ← entryAt old s
  match entry.memObj.bind MemObject.imsEntry with
  | none => return s
  | some i =>
    let s ← storeUnlockObject cfg i s
    modifyMem old ({ · with imsEntry := none }) s

def dropOldEntry (e : ℕ) (s : State Key) : Result (State Key) := do
  let entry ← entryAt e s
  match entry.memObj.bind MemObject.oldEntry with
  | none => return s
  | some o =>
    let s ← storeUnlockObject cfg o s
    modifyMem e ({ · with oldEntry := none }) s

/-- A revalidation of the old entry that is under way, unless it was aborted or is 30 seconds old. -/
def collapsedEntry (old : ℕ) (s : State Key) : Option ℕ :=
  (s.entries old).bind fun entry => entry.memObj.bind fun mem => mem.imsEntry.bind fun i =>
    (s.entries i).bind fun ims =>
      if ims.flags.entryAborted ∨ mem.refreshTimestamp + 30 < s.curtime then none else some i

/-- The old entry remembers when it was revalidated, and by which entry. -/
def rememberRevalidation (old e : ℕ) (storeUrl : Option CString) (s : State Key) : Result (ℕ × State Key) := do
  let s ← modifyMem e (fun mem => { mem with storeUrl := storeUrl.or mem.storeUrl }) s
  let s ← modifyMem old ({ · with refreshTimestamp := s.curtime }) s
  let entry ← entryAt old s
  if opts.collapsedForwarding ∧ entry.memObj.isSome then
    let s ← modifyMem old ({ · with imsEntry := some e }) s
    let s ← storeLockObject e s
    return (e, s)
  return (e, s)

def createRevalidation (http : ClientHttpRequest) (s : State Key) : Result (ℕ × State Key) := do
  let s ← dropImsEntry cfg http.entry s
  let request := s.requests http.request
  let (e, s) ← storeCreateEntry cfg http.uri http.flags request.method s
  rememberRevalidation opts http.entry e request.storeUrl s

/-- The new entry holds the old one, and the client registers with the new one. -/
def linkRevalidation (old e : ℕ) (s : State Key) : Result (State Key) := do
  let s ← dropOldEntry cfg e s
  let s ← modifyMem e ({ · with oldEntry := some old }) s
  let s ← storeLockObject old s
  storeClientRegister e s

/-- The part of `fwdStart` that concerns the store. -/
def fwdStart (e r : ℕ) (s : State Key) : Result (State Key) := do
  let s ← modifyMem e (fun mem => { mem with request := mem.request.or (some r) }) s
  storeLockObject e s

def startRevalidation (http : ClientHttpRequest) (e : ℕ) (s : State Key) :
    Result (ClientHttpRequest × State Key) := do
  let s ← linkRevalidation cfg http.entry e s
  let s ← fwdStart e http.request s
  return ({ http with entry := e }, s)

/-- A 200 reply can be revalidated by its date or its tag. -/
def canValidate (old : StoreEntry Key) (mem : MemObject) : Bool :=
  mem.reply.status == httpOk && (decide (0 < old.lastmod) || mem.reply.etag.isSome)

def clientProcessExpired (http : ClientHttpRequest) (s : State Key) :
    Result (ClientHttpRequest × State Key) := do
  let entry ← entryAt http.entry s
  match entry.memObj with
  | none => .error .freed
  | some mem =>
    if http.onlyIfCached then return (http, s)
    let http := { http with
      oldEntry := some http.entry, cacheValidation := http.cacheValidation || canValidate entry mem }
    match collapsedEntry http.entry s with
    | some e =>
      let s ← storeLockObject e s
      let s ← linkRevalidation cfg http.entry e s
      return ({ http with entry := e, collapsed := true }, s)
    | none =>
      let (e, s) ← createRevalidation cfg opts http s
      startRevalidation cfg http e s

/-! ## storeUpdate -/

structure StoreUpdateState where
  oldentry : ℕ
  newentry : ℕ
  deriving DecidableEq, Repr

/-- The new entry gets a clone of the reply, the times and the request. The mark of the variance is
made for the request. -/
def copyHeaders (old new r : ℕ) (s : State Key) : Result (State Key) := do
  let entry ← entryAt old s
  match entry.memObj with
  | none => .error .freed
  | some mem =>
    let request := cfg.makeVaryMark (s.requests r) mem.reply
    let size := opts.headerSize mem.reply
    let newentry ← entryAt new s
    let memObj := newentry.memObj.map fun new => { new with
      reply := { mem.reply with hdrSz := size }
      request := some r
      varyHeaders := request.varyHeaders
      varyEncoding := if request.varyHeaders.isSome then request.varyEncoding else none
      hasData := true
      inmemHi := size
      refreshTimestamp := s.curtime }
    return setRequest r request (setEntry new { newentry with
      memObj, timestamp := entry.timestamp, lastref := entry.lastref, expires := entry.expires
      lastmod := entry.lastmod, refcount := entry.refcount } s)

/-- The copy is created, filled with the header and published. Its bytes come in events of their own. -/
def storeUpdate (old r : ℕ) (s : State Key) : Result (Option StoreUpdateState × State Key) := do
  let entry ← entryAt old s
  if entry.flags.keyPrivate ∨ ¬ opts.updateHeaders then return (none, s)
  match entry.memObj with
  | none => .error .freed
  | some mem =>
    let s ← modifyMem old ({ · with refreshTimestamp := 0 }) s
    let s ← storeLockObject old s
    let (new, s) ← storeCreateEntry cfg mem.url { cachable := true } mem.method s
    let s ← storeClientRegister old s
    let s ← copyHeaders cfg opts old new r s
    let s ← storeSetPublicKey cfg new s
    let s ← storeSwapOut cfg new s
    return (some ⟨old, new⟩, s)

def storeAppend (e : ℕ) (len : ℤ) (s : State Key) : Result (State Key) := do
  let entry ← entryAt e s
  check (entry.memObj.isSome ∧ 0 ≤ len ∧ entry.storeStatus = .pending) .assertion
  let memObj := entry.memObj.map fun mem => { mem with
    refreshTimestamp := s.curtime, inmemHi := mem.inmemHi + len, hasData := mem.hasData || decide (0 < len) }
  storeSwapOut cfg e (setEntry e { entry with memObj } s)

def storeUpdateFail (state : StoreUpdateState) (s : State Key) : Result (State Key) := do
  let s ← releaseClient cfg opts state.oldentry s
  let s ← storeRelease cfg state.newentry s
  let s ← storeComplete cfg state.newentry s
  storeUnlockObject cfg state.newentry s

def storeUpdateDone (state : StoreUpdateState) (s : State Key) : Result (State Key) := do
  let s ← storeComplete cfg state.newentry s
  let s ← storeUnlockObject cfg state.newentry s
  releaseClient cfg opts state.oldentry s

/-- `size` bytes of the old entry have been read; there are no more if it is 0. -/
def storeUpdateCopy (state : StoreUpdateState) (size : ℤ) (s : State Key) :
    Result (Option StoreUpdateState × State Key) := do
  let new ← entryAt state.newentry s
  if new.flags.entryAborted then return (some state, s)
  if (new.flags.keyPrivate ∧ storePendingNClients new = 0) ∨ size < 0 then
    let s ← storeUpdateFail cfg opts state s
    return (none, s)
  if 0 < size then
    let s ← storeAppend cfg state.newentry size s
    return (some state, s)
  let s ← storeUpdateDone cfg opts state s
  return (none, s)

/-! ## clientHandleIMSReply -/

/-- `contentLen` of an entry is the size of its object without the header. -/
def modifiedSince (old : StoreEntry Key) (mem : MemObject) (http : ClientHttpRequest) (ims : ℤ) : Bool :=
  let length := if mem.reply.contentLength < 0 then mem.objectSz - mem.reply.hdrSz
    else mem.reply.contentLength
  old.lastmod < 0 || decide (ims < old.lastmod) ||
    (old.lastmod == ims && decide (0 ≤ http.imslen) && http.imslen != length)

def clientGetsOldEntry (new old : StoreEntry Key) (reply : Reply) (oldMem : MemObject)
    (http : ClientHttpRequest) : Bool :=
  if reply.status = 0 then true
  else if 500 ≤ reply.status ∧ reply.status < 600 then opts.staleOk new old
  else if ¬ http.cacheValidation ∨ reply.status ≠ httpNotModified then false
  else if reply.etag.any fun etag => http.ifNoneMatch.contains etag then false
  else match http.ims with
    | none => true
    | some ims => modifiedSince old oldMem http ims

def applyNotModified (old r : ℕ) (reply : Reply) (s : State Key) :
    Result (Option StoreUpdateState × State Key) := do
  let s ← modifyMem old (fun mem => { mem with reply := opts.updateOnNotModified mem.reply reply }) s
  let s ← storeTimestampsSet old s
  storeUpdate cfg opts old r s

/-- A reply other than a 304 leaves the old entry alone. -/
def applyReply (validated : Bool) (old r : ℕ) (reply : Reply) (s : State Key) :
    Result (Option StoreUpdateState × State Key) :=
  if reply.status = httpNotModified ∧ validated then applyNotModified cfg opts old r reply s
  else .ok (none, s)

/-- The old entry has a request while it is updated. -/
def lendRequest (old : ℕ) (request : Option ℕ) (s : State Key) : Result (State Key) :=
  modifyMem old (fun mem => { mem with request := mem.request.or request }) s

def returnRequest (old : ℕ) (lent : Bool) (s : State Key) : Result (State Key) :=
  if lent then modifyMem old ({ · with request := none }) s else .ok s

def sendOldEntry (old : ℕ) (oldMem mem : MemObject) (http : ClientHttpRequest) (reply : Reply)
    (s : State Key) : Result (ClientHttpRequest × Option StoreUpdateState × State Key) := do
  let s ← lendRequest old mem.request s
  let (update, s) ← applyReply cfg opts true old http.request reply s
  let s ← releaseClient cfg opts http.entry s
  let s ← returnRequest old oldMem.request.isNone s
  return ({ http with entry := old, oldEntry := none }, update, s)

def releaseUnvalidated (old : ℕ) (http : ClientHttpRequest) (s : State Key) : Result (State Key) :=
  if http.cacheValidation then .ok s else storeRelease cfg old s

/-- The client goes on with the new entry. An entry that was not revalidated is released. -/
def sendNewEntry (old : ℕ) (http : ClientHttpRequest) (reply : Reply) (s : State Key) :
    Result (ClientHttpRequest × Option StoreUpdateState × State Key) := do
  let (update, s) ← applyReply cfg opts http.cacheValidation old http.request reply s
  let s ← releaseUnvalidated cfg old http s
  let s ← releaseClient cfg opts old s
  return ({ http with oldEntry := none }, update, s)

/-- `rep` is the reply, or nothing if the transfer was aborted. What follows is a transfer to the client
or, if the entry was aborted, a new request. -/
def clientHandleIMSReply (http : ClientHttpRequest) (rep : Option Reply) (s : State Key) :
    Result (ClientHttpRequest × Option StoreUpdateState × State Key) :=
  match http.oldEntry with
  | none => .error .assertion
  | some old => do
    let s ← dropImsEntry cfg old s
    let s ← dropOldEntry cfg http.entry s
    match rep with
    | none =>
      let s ← releaseClient cfg opts http.entry s
      return ({ http with entry := old, oldEntry := none }, none, s)
    | some rep =>
      let new ← entryAt http.entry s
      let entry ← entryAt old s
      match new.memObj, entry.memObj with
      | some mem, some oldMem =>
        if clientGetsOldEntry opts new entry mem.reply oldMem http then
          sendOldEntry cfg opts old oldMem mem http rep s
        else sendNewEntry cfg opts old http rep s
      | _, _ => .error .freed

/-- The part of `httpRequestFree` that gives the entries back, after the reply has been seen. -/
def httpRequestFree (http : ClientHttpRequest) (s : State Key) : Result (State Key) :=
  releaseClient cfg opts http.entry s

/-- A reply that must not be cached. -/
def httpMakePrivate (e : ℕ) (s : State Key) : Result (State Key) := do
  let s ← storeExpireNow e s
  storeReleaseRequest cfg e s

end SquidVideoCache.Client
