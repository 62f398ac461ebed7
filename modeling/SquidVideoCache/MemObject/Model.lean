import SquidVideoCache.Stmem.Model
import SquidVideoCache.Store.Model

/-!
# An object in transfer, store_swapout.c and store_client.c

The data of an entry comes in at one end, is written to disk page by page, is copied to clients, and is
freed from the front when nobody needs it any more. The state is that of one entry and its memory object.

A client's callback may call any of these functions before the function that ran it goes on. So functions
are cut where they run callbacks, and an event is one piece: `storeAppend` is `append`, then `copy2` for
every client that `InvokeHandlers` finds waiting, then `swapOut`. All that is asked from outside (open files,
whether a file can be created or opened, whether a close is done at once) comes with the event. Disk writes
succeed. Offsets have 64 bits, so the abort of `storeSwapOut` against their overflow is left out.
-/

namespace SquidVideoCache.MemObject
open Lib Stmem
open Store (StoreStatus MemStatus SwapStatus)

inductive Failure
  /-- an assertion of `storeSwapOut`, or a node that it reads and that is not there -/
  | swapOut
  /-- the assertion of `stmemFreeDataUpto` -/
  | freeData
  /-- `assert(STORE_DISK_CLIENT == sc->type)` in `storeClientCopy3` -/
  | diskClient
  /-- any other `assert` -/
  | other
  | diverges
  deriving DecidableEq, Repr

abbrev Prog (α : Type) := Except Failure α

def check (f : Failure) (p : Prop) [Decidable p] : Prog Unit := if p then .ok () else .error f

structure Flags where
  entrySpecial : Bool := false
  releaseRequest : Bool := false
  entryCachable : Bool := false
  keyPrivate : Bool := false
  entryFwdHdrWait : Bool := false
  entryNegcached : Bool := false
  entryBadLength : Bool := false
  entryAborted : Bool := false
  entryDeferRead : Bool := false
  deriving DecidableEq, Repr

inductive ClientType
  | mem
  | disk
  deriving DecidableEq, Repr

/-- What a disk read of a client is for. -/
inductive DiskRead
  | header
  | body
  deriving DecidableEq, Repr

structure StoreClient where
  id : ℕ
  type : ClientType
  seenOffset : ℤ := 0
  copyOffset : ℤ := 0
  copySize : ℕ := 0
  callback : Bool := false
  swapinSio : Bool := false
  diskIoPending : Option DiskRead := none
  storeCopying : Bool := false
  copyEventPending : Bool := false
  deriving DecidableEq, Repr

/-- The file that is written: what was given to it and what is known to be on disk. -/
structure StoreIOState where
  writeOffset : ℤ
  offset : ℤ
  deriving DecidableEq, Repr

/-- `closing` is set while a file was closed and its callback is due. `object` is all that was appended, and
`written` all that was given to `storeWrite` after the swap metadata. -/
structure State where
  storeStatus : StoreStatus
  swapStatus : SwapStatus
  memStatus : MemStatus := .notInMemory
  flags : Flags
  contentLength : ℤ := -1
  dataHdr : MemHdr := .empty
  inmemLo : ℤ := 0
  inmemHi : ℤ := 0
  objectSz : ℤ := -1
  swapHdrSz : ℤ := 0
  nclients : ℤ := 0
  clients : List StoreClient := []
  nextClient : ℕ := 0
  queueOffset : ℤ := 0
  memnode : Option ℕ := none
  sio : Option StoreIOState := none
  closing : Bool := false
  object : Bytes := []
  written : Bytes := []
  deriving DecidableEq, Repr

structure Config where
  maxInMemObjSize : ℤ
  maxObjectSize : ℤ
  minObjectSize : ℤ
  storeMaxobjsize : ℤ
  readAheadGap : ℤ

/-- The answers from outside; `swapHdrSz` is the size of the packed metadata. -/
structure World where
  tooManyDiskFilesOpen : Bool
  fwdCheckDeferRead : Bool
  fewFds : Bool
  creates : Bool
  swapHdrSz : ℤ
  swapHdrSz_pos : 0 < swapHdrSz
  opens : Bool
  closesNow : Bool

variable (cfg : Config) (w : World)

/-! ## Cachability -/

def storeReleaseRequest (s : State) : State :=
  if s.flags.releaseRequest then s
  else { s with flags := { s.flags with releaseRequest := true, entryCachable := false, keyPrivate := true } }

def storeCheckTooSmall (s : State) : Bool :=
  if s.flags.entrySpecial then false
  else if s.storeStatus = .ok ∧ s.objectSz < cfg.minObjectSize then true
  else -1 < s.contentLength ∧ s.contentLength < cfg.minObjectSize

def storeCheckCachableNo (s : State) : State × Bool :=
  ({ storeReleaseRequest s with flags := { (storeReleaseRequest s).flags with entryCachable := false } }, false)

def storeCheckCachable (s : State) : State × Bool :=
  if s.storeStatus = .ok ∧ s.flags.entryBadLength then storeCheckCachableNo s
  else if s.flags.releaseRequest then storeCheckCachableNo s
  else if ¬ s.flags.entryCachable then storeCheckCachableNo s
  else if s.flags.entryNegcached then (s, false)
  else if (0 < s.contentLength ∧ cfg.maxObjectSize < s.contentLength) ∨ cfg.maxObjectSize < s.inmemHi then
    storeCheckCachableNo s
  else if storeCheckTooSmall cfg s then storeCheckCachableNo s
  else if s.flags.keyPrivate then storeCheckCachableNo s
  else if s.swapStatus ≠ .none then (s, true)
  else if w.tooManyDiskFilesOpen then storeCheckCachableNo s
  else if w.fewFds then storeCheckCachableNo s
  else (s, true)

/-! ## Freeing memory -/

def storeSwapOutAble (s : State) : Bool :=
  if cfg.maxObjectSize < s.inmemHi then false
  else if ¬ s.flags.entryCachable then false
  else if s.sio ≠ none then true
  else if s.queueOffset ≠ 0 ∧ s.queueOffset = s.inmemHi then true
  else if 0 < s.inmemLo then false
  else true

def storeSwapOutObjectBytesOnDisk (s : State) : ℤ :=
  match s.sio with
  | none => s.queueOffset
  | some sio => if sio.offset ≤ s.swapHdrSz then 0 else sio.offset - s.swapHdrSz

/-- One turn of the loop of `storeLowestMemReaderOffset`, with the lowest and the highest offset so far. -/
def readerOffset (writing : Bool) (r : ℤ × ℤ) (sc : StoreClient) : ℤ × ℤ :=
  (if writing ∧ sc.type ≠ .mem then r.1 else if sc.copyOffset < r.1 then sc.copyOffset else r.1,
    if r.2 < sc.copyOffset then sc.copyOffset else r.2)

def readerOffsets (s : State) : ℤ × ℤ := s.clients.foldl (readerOffset s.sio.isSome) (s.inmemHi + 1, -1)

def storeLowestMemReaderOffset (s : State) : ℤ :=
  if (readerOffsets s).2 < (readerOffsets s).1 ∧ 0 ≤ (readerOffsets s).2 then (readerOffsets s).2 else (readerOffsets s).1

/-- Where memory could begin if the disk did not need it. -/
def readMemLo (able : Bool) (s : State) : ℤ :=
  if ¬ able then storeLowestMemReaderOffset s
  else if cfg.maxInMemObjSize < s.inmemHi then storeLowestMemReaderOffset s
  else if cfg.maxInMemObjSize < s.contentLength then storeLowestMemReaderOffset s
  else s.inmemLo

/-- The node that was written last is kept, because the next one is found from it. -/
def diskMemLo (able : Bool) (s : State) : ℤ :=
  if able ∧ readMemLo cfg able s ≠ 0 then
    if storeSwapOutObjectBytesOnDisk s - 1 < readMemLo cfg able s then storeSwapOutObjectBytesOnDisk s - 1
    else readMemLo cfg able s
  else readMemLo cfg able s

def newMemLo (able : Bool) (s : State) : ℤ := if diskMemLo cfg able s < s.inmemLo then s.inmemLo else diskMemLo cfg able s

def storeResumeRead (s : State) : State := { s with flags := { s.flags with entryDeferRead := false } }

def resumeReader (s : State) : State :=
  if s.flags.entryDeferRead ∧ s.inmemHi - s.inmemLo ≤ cfg.readAheadGap then storeResumeRead s else s

def trimMemory (able : Bool) (s : State) : Prog State :=
  if s.inmemLo ≠ newMemLo cfg able s then
    match stmemFreeDataUpto s.dataHdr (newMemLo cfg able s) with
    | .error _ => .error .freeData
    | .ok mem => .ok (resumeReader cfg { s with dataHdr := mem, inmemLo := mem.originOffset })
  else .ok s

/-- `storeSwapOutMaintainMemObject`, with the way to close a file. -/
def maintainMemObject (close : State → Prog State) (s : State) : Prog (State × Bool) :=
  if s.flags.entrySpecial then .ok (s, true)
  else if s.memStatus = .inMemory then .ok (s, true)
  else if storeSwapOutAble cfg s then do
    let s ← trimMemory cfg true s
    pure (s, true)
  else do
    let s ← close (storeReleaseRequest s)
    let s ← trimMemory cfg false s
    pure (s, false)

/-! ## Closing the file -/

/-- The callback of a file that was closed without an error. The call of `storeSwapOutFileClose` in
`storeSwapOutMaintainMemObject` does nothing here, because no file is open. -/
def storeSwapOutFileClosed (s : State) : Prog State := do
  check .other (s.swapStatus = .writing)
  let r ← maintainMemObject cfg .ok
    { (storeCheckCachable cfg w { s with swapStatus := .done }).1 with sio := none, closing := false }
  pure r.1

def storeSwapOutFileClose (s : State) : Prog State :=
  if s.sio = none then .ok s
  else if w.closesNow then storeSwapOutFileClosed cfg w { s with sio := none, closing := true }
  else .ok { s with sio := none, closing := true }

def storeSwapOutMaintainMemObject (s : State) : Prog (State × Bool) :=
  maintainMemObject cfg (storeSwapOutFileClose cfg w) s

/-! ## Writing -/

/-- The metadata is the first thing that is written. -/
def storeSwapOutStart (s : State) : State :=
  if w.creates then { s with swapStatus := .writing, swapHdrSz := w.swapHdrSz, sio := some ⟨w.swapHdrSz, 0⟩ }
  else { s with swapStatus := .none, swapHdrSz := w.swapHdrSz }

/-- The node after `swapout.memnode`, or the first one. -/
def nextNode (s : State) : Option ℕ :=
  match s.memnode with
  | none => if s.dataHdr.pages = [] then none else some s.dataHdr.freed
  | some node => if s.dataHdr.freed ≤ node ∧ node + 1 < s.dataHdr.freed + s.dataHdr.pages.length then some (node + 1) else none

def nodeData (mem : MemHdr) (node : ℕ) : Option Bytes := if node < mem.freed then none else mem.pages[node - mem.freed]?

def State.writePage (s : State) (node : ℕ) (p : Bytes) : State := { s with
    memnode := some node
    queueOffset := s.queueOffset + p.length
    sio := s.sio.map fun io => { io with writeOffset := io.writeOffset + p.length }
    written := s.written ++ p }

def writeNode (s : State) : Prog State :=
  match nextNode s with
  | none => .error .swapOut
  | some node =>
    match nodeData s.dataHdr node with
    | none => .error .swapOut
    | some p => do
      check .swapOut (0 < p.length)
      pure (s.writePage node p)

/-- The loop of `storeSwapOut`, with a bound on the number of nodes. -/
def writeNodes : ℕ → State → Prog State
  | 0, _ => .error .diverges
  | k + 1, s => do
    let s ← writeNode s
    if s.swapStatus ≠ .writing then pure s
    else if s.storeStatus = .pending ∧ s.inmemHi - s.queueOffset < smPageSize then pure s
    else if 0 < s.inmemHi - s.queueOffset then writeNodes k s
    else pure s

def swapOutNodes (s : State) : Prog State :=
  if s.sio = none then .ok s
  else do
    let s ← writeNodes (s.dataHdr.pages.length + 1) s
    if s.sio = none then pure s
    else if s.storeStatus = .ok then do
      check .swapOut (s.inmemHi = s.queueOffset)
      storeSwapOutFileClose cfg w s
    else pure s

/-- The part of `storeSwapOut` for an entry that can be swapped out. -/
def swapOutData (swapoutSize : ℤ) (s : State) : Prog State :=
  if swapoutSize = 0 then
    if s.storeStatus = .ok then storeSwapOutFileClose cfg w s else .ok s
  else if s.storeStatus = .pending ∧ (swapoutSize < smPageSize ∨ (w.tooManyDiskFilesOpen ∧ ¬ w.fwdCheckDeferRead)) then .ok s
  else if s.swapStatus = .none ∧ ¬ s.flags.entryFwdHdrWait then do
    check .swapOut (s.sio = none)
    check .swapOut (s.inmemLo = 0)
    if (storeCheckCachable cfg w s).2 then swapOutNodes cfg w (storeSwapOutStart w (storeCheckCachable cfg w s).1)
    else do
      let r ← storeSwapOutMaintainMemObject cfg w (storeCheckCachable cfg w s).1
      pure r.1
  else swapOutNodes cfg w s

def storeSwapOut (s : State) : Prog State :=
  if s.flags.entryAborted then do
    check .swapOut s.flags.releaseRequest
    storeSwapOutFileClose cfg w s
  else if s.flags.entrySpecial then .ok s
  else do
    check .swapOut (s.queueOffset ≤ s.inmemHi)
    if s.storeStatus ≠ .ok ∧ s.inmemHi - s.queueOffset < cfg.storeMaxobjsize then pure s
    else do
      let r ← storeSwapOutMaintainMemObject cfg w s
      if r.2 then swapOutData cfg w (s.inmemHi - s.queueOffset) r.1 else pure r.1

/-! ## Clients -/

def State.client (s : State) (c : ℕ) : Option StoreClient := s.clients.find? fun sc => sc.id = c

def State.setClient (s : State) (sc : StoreClient) : State :=
  { s with clients := s.clients.map fun x => if x.id = sc.id then sc else x }

def storeClientType (s : State) : ClientType :=
  if s.inmemLo ≠ 0 then .disk
  else if s.flags.entryAborted then .mem
  else if s.storeStatus = .ok then if s.inmemLo = 0 ∧ 0 < s.inmemHi then .mem else .disk
  else if s.nclients = 1 then .mem
  else if s.swapStatus = .none then .mem
  else .disk

/-- The type is chosen when the client is counted. -/
def storeClientRegister (s : State) : State := { s with
    nclients := s.nclients + 1
    nextClient := s.nextClient + 1
    clients := { id := s.nextClient, type := storeClientType { s with nclients := s.nclients + 1 } } :: s.clients }

/-- The callback is run, and the client no longer waits. -/
def storeClientCallback (s : State) (sc : StoreClient) : State := s.setClient { sc with callback := false }

def storeClientNoMoreToSend (s : State) (sc : StoreClient) : Bool :=
  if s.storeStatus = .pending then false
  else if s.objectSz < 0 then false
  else if sc.copyOffset < s.objectSz then false
  else true

def storeClientFileRead (s : State) (sc : StoreClient) : Prog State := do
  check .other (sc.callback = true)
  check .other (sc.diskIoPending = none)
  if s.swapHdrSz = 0 then pure (s.setClient { sc with diskIoPending := some .header })
  else do
    check .other (s.swapStatus = .writing → sc.copyOffset < storeSwapOutObjectBytesOnDisk s)
    pure (s.setClient { sc with diskIoPending := some .body })

def waitForMore (s : State) : State :=
  if s.flags.entryDeferRead ∧ storeLowestMemReaderOffset s = s.inmemHi then storeResumeRead s else s

/-- From memory if the data is there, else from disk. -/
def copyData (s : State) (sc : StoreClient) : Prog State :=
  if s.inmemLo ≤ sc.copyOffset ∧ sc.copyOffset < s.inmemHi then
    match stmemCopy s.dataHdr sc.copyOffset sc.copySize with
    | .error _ => .error .other
    | .ok _ =>
      if s.flags.releaseRequest then do
        let r ← storeSwapOutMaintainMemObject cfg w s
        pure (storeClientCallback r.1 sc)
      else .ok (storeClientCallback s sc)
  else do
    check .diskClient (sc.type = .disk)
    storeClientFileRead s sc

/-- `storeSwapInStart` opens a file that is there. -/
def opensSwapIn (s : State) : Bool := s.swapStatus ≠ .none && w.opens

def storeClientCopy3 (s : State) (sc : StoreClient) : Prog State :=
  if storeClientNoMoreToSend s sc then .ok (storeClientCallback s sc)
  else if s.storeStatus = .pending ∧ s.inmemHi ≤ sc.seenOffset then .ok (waitForMore s)
  else if sc.type = .disk ∧ sc.swapinSio = false then
    if w.tooManyDiskFilesOpen then .ok (storeClientCallback s sc)
    else if sc.diskIoPending = none then do
      check .other (s.memStatus = .notInMemory)
      if opensSwapIn w s then copyData cfg w (s.setClient { sc with swapinSio := true }) { sc with swapinSio := true }
      else pure (storeClientCallback s sc)
    else .ok s
  else copyData cfg w s sc

def storeClientCopy2 (s : State) (sc : StoreClient) : Prog State :=
  if sc.copyEventPending then .ok s
  else if s.flags.entryFwdHdrWait then .ok s
  else if sc.storeCopying then .ok (s.setClient { sc with copyEventPending := true })
  else do
    check .other (sc.callback = true)
    storeClientCopy3 cfg w (s.setClient { sc with storeCopying := true }) { sc with storeCopying := true }

def StoreClient.request (sc : StoreClient) (seenOffset copyOffset : ℤ) (size : ℕ) : StoreClient :=
  { sc with seenOffset := seenOffset, copyOffset := copyOffset, copySize := size, callback := true }

/-- Memory may be freed first, in case the client was the last one to need it. -/
def copyRequested (s : State) (sc : StoreClient) : Prog State :=
  if s.flags.entryDeferRead then do
    let s ← storeSwapOut cfg w s
    storeClientCopy2 cfg w s sc
  else storeClientCopy2 cfg w s sc

def storeClientCopy (s : State) (sc : StoreClient) (seenOffset copyOffset : ℤ) (size : ℕ) : Prog State := do
  check .other (sc.callback = false)
  copyRequested cfg w (s.setClient (sc.request seenOffset copyOffset size)) (sc.request seenOffset copyOffset size)

def State.dropClient (s : State) (c : ℕ) : State :=
  { s with clients := s.clients.filter (fun sc => sc.id ≠ c), nclients := s.nclients - 1 }

/-- Up to the client's callback; `maintain` follows. -/
def storeClientUnregister (s : State) (c : ℕ) : Prog State :=
  if s.clients = [] then .ok s
  else if s.storeStatus = .ok ∧ s.swapStatus ≠ .done then storeSwapOut cfg w (s.dropClient c)
  else .ok (s.dropClient c)

/-- A body read ends with the client's callback. -/
def storeClientReadBody (s : State) (sc : StoreClient) : Prog State := do
  check .other (sc.callback = true)
  pure (storeClientCallback s { sc with diskIoPending := none })

/-- A header read that fails ends with the callback; one that succeeds tells the sizes, and the client is
served from the same buffer or by another read. -/
def storeClientReadHeader (s : State) (sc : StoreClient) : Option (ℤ × ℤ × Bool) → Prog State
  | none => do
    check .other (sc.callback = true)
    pure (storeClientCallback s { sc with diskIoPending := none })
  | some (swapHdrSz, objectSz, served) => do
    check .other (sc.callback = true)
    if served then
      pure (storeClientCallback { s with swapHdrSz := swapHdrSz, objectSz := objectSz } { sc with diskIoPending := none })
    else storeClientFileRead { s with swapHdrSz := swapHdrSz, objectSz := objectSz } { sc with diskIoPending := none }

/-! ## The server side -/

/-- Up to `InvokeHandlers`. -/
def storeAppend (s : State) (data : Bytes) : Prog State := do
  check .other (s.storeStatus = .pending)
  pure { s with dataHdr := stmemAppend s.dataHdr data, inmemHi := s.inmemHi + data.length, object := s.object ++ data }

def State.completed (s : State) : State := { s with objectSz := s.inmemHi, storeStatus := .ok }

def checkLength (validLength : Bool) (s : State) : State :=
  if validLength then s else storeReleaseRequest { s with flags := { s.flags with entryBadLength := true } }

/-- Up to `InvokeHandlers`; nothing is done for an entry that was aborted. -/
def storeComplete (validLength : Bool) (s : State) : Prog State :=
  if s.storeStatus ≠ .pending then do
    check .other (s.flags.entryAborted = true)
    check .other (s.nclients = 0)
    pure s
  else do
    check .other (s.memStatus = .notInMemory)
    storeSwapOut cfg w (checkLength validLength s.completed)

def State.abort (s : State) : State :=
  { s.completed with flags := { s.flags with entryAborted := true }, memStatus := .notInMemory }

/-- Up to `InvokeHandlers`; `fileClose` follows. -/
def storeAbort (s : State) : Prog State := do
  check .other (s.storeStatus = .pending)
  pure (storeReleaseRequest s).abort

/-! ## Runs -/

inductive Event
  | append (data : Bytes)
  | swapOut (w : World)
  | maintain (w : World)
  | register
  | copy (w : World) (c : ℕ) (seenOffset copyOffset : ℤ) (size : ℕ)
  | copy2 (w : World) (c : ℕ)
  /-- the callback of a client has returned -/
  | copied (c : ℕ)
  /-- `storeClientCopyEvent` -/
  | copyEvent (c : ℕ)
  | readBody (c : ℕ)
  | readHeader (c : ℕ) (sizes : Option (ℤ × ℤ × Bool))
  | unregister (w : World) (c : ℕ)
  | complete (w : World) (validLength : Bool)
  | abort
  | fileClose (w : World)
  | fileClosed (w : World)
  /-- bytes are known to be on disk -/
  | writeDone (n : ℤ)
  | releaseRequest
  /-- `storeUnlockObject` keeps the data of an entry that nobody uses -/
  | keepInMemory
  /-- flags that other parts set, and the length in the reply -/
  | outside (entryDeferRead entryFwdHdrWait entryNegcached keyPrivate : Bool) (contentLength : ℤ)

def enabled (s : State) : Event → Bool
  | .append _ => true
  | .swapOut _ => true
  | .maintain _ => true
  | .register => true
  | .copy _ c _ _ _ => (s.client c).isSome
  | .copy2 _ c => (s.client c).any fun sc => sc.callback
  | .copied c => (s.client c).any fun sc => sc.storeCopying
  | .copyEvent c => (s.client c).any fun sc => sc.copyEventPending
  | .readBody c => (s.client c).any fun sc => sc.diskIoPending = some .body
  | .readHeader c _ => (s.client c).any fun sc => sc.diskIoPending = some .header
  | .unregister _ c => (s.client c).isSome
  | .complete _ _ => true
  | .abort => true
  | .fileClose _ => s.flags.entryAborted
  | .fileClosed _ => s.closing
  | .writeDone n => s.sio.any fun io => 0 ≤ n ∧ io.offset + n ≤ io.writeOffset
  | .releaseRequest => true
  | .keepInMemory => s.storeStatus = .ok ∧ s.nclients = 0 ∧ s.sio = none ∧ s.closing = false ∧
      s.flags.releaseRequest = false ∧ s.dataHdr.pages ≠ [] ∧ s.inmemLo = 0
  | .outside _ _ _ _ _ => true

def withClient (s : State) (c : ℕ) (f : StoreClient → Prog State) : Prog State :=
  match s.client c with
  | none => .ok s
  | some sc => f sc

def step (s : State) : Event → Prog State
  | .append data => storeAppend s data
  | .swapOut w => storeSwapOut cfg w s
  | .maintain w => do
    let r ← storeSwapOutMaintainMemObject cfg w s
    pure r.1
  | .register => .ok (storeClientRegister s)
  | .copy w c seenOffset copyOffset size => withClient s c fun sc => storeClientCopy cfg w s sc seenOffset copyOffset size
  | .copy2 w c => withClient s c fun sc => storeClientCopy2 cfg w s sc
  | .copied c => withClient s c fun sc => .ok (s.setClient { sc with storeCopying := false })
  | .copyEvent c => withClient s c fun sc => .ok (s.setClient { sc with copyEventPending := false })
  | .readBody c => withClient s c fun sc => storeClientReadBody s sc
  | .readHeader c sizes => withClient s c fun sc => storeClientReadHeader s sc sizes
  | .unregister w c => storeClientUnregister cfg w s c
  | .complete w validLength => storeComplete cfg w validLength s
  | .abort => storeAbort s
  | .fileClose w => storeSwapOutFileClose cfg w s
  | .fileClosed w => storeSwapOutFileClosed cfg w s
  | .writeDone n => .ok { s with sio := s.sio.map fun io => { io with offset := io.offset + n } }
  | .releaseRequest => .ok (storeReleaseRequest s)
  | .keepInMemory => .ok { s with memStatus := .inMemory }
  | .outside entryDeferRead entryFwdHdrWait entryNegcached keyPrivate contentLength =>
    .ok { s with
      flags := { s.flags with
        entryDeferRead := entryDeferRead
        entryFwdHdrWait := entryFwdHdrWait
        entryNegcached := entryNegcached
        keyPrivate := keyPrivate }
      contentLength := contentLength }

/-- An entry that is being fetched, or one that is on disk and was not in memory. -/
def State.init (onDisk cachable special : Bool) : State where
  storeStatus := if onDisk then .ok else .pending
  swapStatus := if onDisk then .done else .none
  flags := { entrySpecial := special, releaseRequest := !cachable, entryCachable := cachable }

def machine (onDisk cachable special : Bool) : Machine State Event Failure :=
  ⟨.init onDisk cachable special, enabled, step cfg⟩

end SquidVideoCache.MemObject
