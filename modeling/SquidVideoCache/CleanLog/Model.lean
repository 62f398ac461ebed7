import SquidVideoCache.Lib.Machine
import SquidVideoCache.Store.Model

/-!
# Clean swap logs, store_dir.c, fs/ufs/store_dir_ufs.c and filemap.c

When the cache stops, `storeDirWriteCleanLogs` writes the index to one log per cache directory. When it
starts, each directory reads its log back in events of its own, a number of records at a time, and the
events of different directories alternate in any order.

The entries are those that are made while a log is read, so none is locked and none is in memory. The
replacement policies are lists in the order of their walkers.
-/

namespace SquidVideoCache.CleanLog
open Lib Function
open Store (StoreStatus SwapStatus)

variable {Key : Type}

/-! ## Entries and records -/

inductive EntryFlag
  | entrySpecial
  | entryRevalidate
  | delaySending
  | releaseRequest
  | refreshFailure
  | entryCachable
  | entryDispatched
  | keyPrivate
  | entryFwdHdrWait
  | entryNegcached
  | entryValidated
  | entryBadLength
  | entryAborted
  | entryDeferRead
  | keyEarlyPublic
  deriving DecidableEq, Repr

def EntryFlag.bit : EntryFlag → ℕ
  | .entrySpecial => 0
  | .entryRevalidate => 1
  | .delaySending => 2
  | .releaseRequest => 3
  | .refreshFailure => 4
  | .entryCachable => 5
  | .entryDispatched => 6
  | .keyPrivate => 7
  | .entryFwdHdrWait => 8
  | .entryNegcached => 9
  | .entryValidated => 10
  | .entryBadLength => 11
  | .entryAborted => 12
  | .entryDeferRead => 13
  | .keyEarlyPublic => 14

abbrev Flags := BitVec 16

def ebitTest (flags : Flags) (f : EntryFlag) : Bool := flags.getLsbD f.bit

def ebitSet (flags : Flags) (f : EntryFlag) : Flags := flags ||| BitVec.twoPow 16 f.bit

def ebitClr (flags : Flags) (f : EntryFlag) : Flags := flags &&& ~~~ BitVec.twoPow 16 f.bit

/-- The fields of a `StoreEntry` that a log has, and those that decide whether it is written. -/
structure StoreEntry (Key : Type) where
  key : Key
  timestamp : ℤ
  lastref : ℤ
  expires : ℤ
  lastmod : ℤ
  swapFileSz : ℤ
  refcount : UInt16
  flags : Flags
  swapFilen : ℤ
  swapDirn : ℤ
  storeStatus : StoreStatus
  swapStatus : SwapStatus
  deriving DecidableEq

/-- The operation of a record; a record with `SWAP_LOG_VERSION` is a header. -/
inductive SwapLogOp
  | nop
  | add
  | del
  | max
  deriving DecidableEq, Repr

structure SwapLogData (Key : Type) where
  op : SwapLogOp
  swapFilen : ℤ
  timestamp : ℤ
  lastref : ℤ
  expires : ℤ
  lastmod : ℤ
  swapFileSz : ℤ
  refcount : UInt16
  flags : Flags
  key : Key
  deriving DecidableEq

/-- A header takes the place of a whole record. -/
inductive LogRecord (Key : Type)
  | header (version recordSize : ℕ)
  | data (r : SwapLogData Key)
  deriving DecidableEq

/-- The size of a `storeSwapLogData` where `time_t` and `squid_file_sz` have 64 bits. -/
def sizeofSwapLogData : ℕ := 72

def swapLogData (op : SwapLogOp) (e : StoreEntry Key) : SwapLogData Key where
  op := op
  swapFilen := e.swapFilen
  timestamp := e.timestamp
  lastref := e.lastref
  expires := e.expires
  lastmod := e.lastmod
  swapFileSz := e.swapFileSz
  refcount := e.refcount
  flags := e.flags
  key := e.key

def storeUfsWriteSwapLogheader : LogRecord Key := .header 1 sizeofSwapLogData

/-! ## File maps -/

def fmInitialNumber : ℤ := 2 ^ 14

def filemapMaxSize : ℤ := 2 ^ 24

structure FileMap where
  maxNFiles : ℤ
  bits : ℤ → Bool

def fileMapCreate : FileMap := ⟨fmInitialNumber, fun _ => false⟩

def fileMapGrow (fm : FileMap) : Exec FileMap := do
  cAssert (fm.maxNFiles * 2 ≤ filemapMaxSize)
  pure { fm with maxNFiles := fm.maxNFiles * 2 }

/-- The map grows until it has the file number. The bound on the rounds is that of the doublings from
`FM_INITIAL_NUMBER` on before the assertion fails. -/
def fileMapGrowTo (fileNumber : ℤ) : ℕ → FileMap → Exec FileMap
  | 0, _ => .error .diverges
  | k + 1, fm =>
    if fm.maxNFiles ≤ fileNumber then do
      let fm ← fileMapGrow fm
      fileMapGrowTo fileNumber k fm
    else .ok fm

def fileMapBitSet (fm : FileMap) (fileNumber : ℤ) : Exec FileMap := do
  let fm ← fileMapGrowTo fileNumber 12 fm
  pure { fm with bits := update fm.bits fileNumber true }

def fileMapBitReset (fm : FileMap) (fileNumber : ℤ) : FileMap :=
  { fm with bits := update fm.bits fileNumber false }

def fileMapBitTest (fm : FileMap) (fileNumber : ℤ) : Bool :=
  if fm.maxNFiles ≤ fileNumber then false else fm.bits fileNumber

def storeUfsDirMapBitReset (fm : FileMap) (filn : ℤ) : FileMap :=
  if fileMapBitTest fm filn then fileMapBitReset fm filn else fm

def storeUfsDirValidFileno (fm : FileMap) (filn : ℤ) (flag : Bool) : Bool :=
  if filn < 0 then false
  else if flag && decide (fm.maxNFiles < filn) then false
  else true

/-! ## Writing -/

/-- The store index: the entries of the hash table, of which each directory has its own in the order of
its replacement policy. Keys are unique, and file numbers are unique in a directory; `swap_filen` has
25 bits, one of them for the sign. -/
structure Index (Key : Type) where
  entries : List (StoreEntry Key)
  nConfigured : ℕ
  policy : ℕ → List (StoreEntry Key)
  walks : ∀ d < nConfigured, (policy d).Perm (entries.filter fun e => e.swapDirn = d)
  placed : ∀ e ∈ entries, 0 ≤ e.swapFilen → ∃ d < nConfigured, e.swapDirn = d
  bounded : ∀ e ∈ entries, e.swapFilen < 2 ^ 24
  keys : (entries.map StoreEntry.key).Nodup
  files : ∀ e ∈ entries, ∀ f ∈ entries, e.swapDirn = f.swapDirn → e.swapFilen = f.swapFilen → 0 ≤ e.swapFilen → e = f

/-- The state of the clean log of one directory: what the walker still has, the buffer and the file. -/
structure CleanState (Key : Type) where
  walker : List (StoreEntry Key)
  outbuf : List (LogRecord Key)
  file : List (LogRecord Key)

structure Clean (Key : Type) where
  dirs : ℕ → CleanState Key
  notdone : Bool
  n : ℕ

def cleanBufSz : ℕ := 16384

def storeUfsDirWriteCleanStart (policy : List (StoreEntry Key)) : CleanState Key :=
  ⟨policy, [], [storeUfsWriteSwapLogheader]⟩

def CleanState.flush (st : CleanState Key) : CleanState Key :=
  { st with outbuf := [], file := st.file ++ st.outbuf }

def CleanState.flushFull (st : CleanState Key) : CleanState Key :=
  if cleanBufSz < st.outbuf.length * sizeofSwapLogData + sizeofSwapLogData then st.flush else st

def CleanState.push (st : CleanState Key) (r : LogRecord Key) : CleanState Key :=
  { st with outbuf := st.outbuf ++ [r] }

def storeUfsDirWriteCleanEntry (st : CleanState Key) (e : StoreEntry Key) : Exec (CleanState Key) :=
  if cleanBufSz < st.outbuf.length * sizeofSwapLogData + sizeofSwapLogData then .error .bounds
  else .ok (st.push (.data (swapLogData .add e))).flushFull

def storeUfsDirWriteCleanDone (st : CleanState Key) : List (LogRecord Key) := st.flush.file

def written (e : StoreEntry Key) : Bool :=
  if e.swapFilen < 0 then false
  else if e.swapStatus ≠ .done then false
  else if e.swapFileSz ≤ 0 then false
  else if ebitTest e.flags .releaseRequest then false
  else if ebitTest e.flags .keyPrivate then false
  else if ebitTest e.flags .entrySpecial then false
  else true

def Clean.put (c : Clean Key) (d : ℕ) (st : CleanState Key) : Clean Key :=
  { c with dirs := update c.dirs d st, notdone := true }

/-- The turn of a directory in a round of the loop. -/
def cleanTurn (c : Clean Key) (d : ℕ) : Exec (Clean Key) :=
  match (c.dirs d).walker with
  | [] => .ok c
  | e :: rest =>
    if written e then do
      let st ← storeUfsDirWriteCleanEntry { c.dirs d with walker := rest } e
      pure { c.put d st with n := c.n + 1 }
    else .ok (c.put d { c.dirs d with walker := rest })

def cleanRound (nConfigured : ℕ) (c : Clean Key) : Exec (Clean Key) :=
  (List.range nConfigured).foldlM cleanTurn { c with notdone := false }

def cleanLoop (nConfigured : ℕ) : ℕ → Clean Key → Exec (Clean Key)
  | 0, _ => .error .diverges
  | k + 1, c => do
    let c ← cleanRound nConfigured c
    if c.notdone then cleanLoop nConfigured k c else .ok c

/-- The logs of the directories and the number of entries written. A rebuild that is under way leaves the
logs as they are. -/
def storeDirWriteCleanLogs (storeDirsRebuilding : ℕ) (ix : Index Key) (logs : ℕ → List (LogRecord Key)) :
    Exec ((ℕ → List (LogRecord Key)) × ℕ) :=
  if storeDirsRebuilding ≠ 0 then .ok (logs, 0)
  else do
    let c ← cleanLoop ix.nConfigured (ix.entries.length + 1)
      ⟨fun d => storeUfsDirWriteCleanStart (ix.policy d), true, 0⟩
    pure (fun d => if d < ix.nConfigured then storeUfsDirWriteCleanDone (c.dirs d) else logs d, c.n)

/-! ## Reading -/

inductive RebuildFunc
  | checkVersion
  | swapLog
  | complete
  deriving DecidableEq, Repr

structure RebuildState (Key : Type) where
  func : RebuildFunc
  log : List (LogRecord Key)

/-- `newLogs` are the logs that the running cache writes. -/
structure State (Key : Type) where
  index : List (StoreEntry Key)
  rebuilds : ℕ → RebuildState Key
  maps : ℕ → FileMap
  newLogs : ℕ → List (LogRecord Key)

structure Config where
  optForegroundRebuild : Bool
  squidCurtime : ℤ

def Config.speed (cfg : Config) : ℕ := if cfg.optForegroundRebuild then 2 ^ 30 else 50

def State.setRebuild (s : State Key) (d : ℕ) (rb : RebuildState Key) : State Key :=
  { s with rebuilds := update s.rebuilds d rb }

def State.setMap (s : State Key) (d : ℕ) (fm : FileMap) : State Key := { s with maps := update s.maps d fm }

def State.log (s : State Key) (d : ℕ) (r : LogRecord Key) : State Key :=
  { s with newLogs := update s.newLogs d (s.newLogs d ++ [r]) }

def storeDirSwapLog (e : StoreEntry Key) (op : SwapLogOp) (s : State Key) : Exec (State Key) := do
  cAssert (ebitTest e.flags .keyPrivate = false)
  cAssert (0 ≤ e.swapFilen)
  if ebitTest e.flags .entrySpecial then pure s
  else do
    cAssert (op ≠ .nop ∧ op ≠ .max)
    pure (s.log e.swapDirn.toNat (.data (swapLogData op e)))

def diskEntry (d : ℕ) (r : SwapLogData Key) : StoreEntry Key where
  key := r.key
  timestamp := r.timestamp
  lastref := r.lastref
  expires := r.expires
  lastmod := r.lastmod
  swapFileSz := r.swapFileSz
  refcount := r.refcount
  flags := ebitClr (ebitClr (ebitClr (ebitSet r.flags .entryCachable) .releaseRequest) .keyPrivate) .entryValidated
  swapFilen := r.swapFilen
  swapDirn := d
  storeStatus := .ok
  swapStatus := .done

def storeUfsDirAddDiskRestore (d : ℕ) (r : SwapLogData Key) (s : State Key) : Exec (State Key) := do
  let fm ← fileMapBitSet (s.maps d) r.swapFilen
  pure { s.setMap d fm with index := diskEntry d r :: s.index }

/-- The entry is given back; a public one is cancelled in the log. -/
def storeReleaseRequest (e : StoreEntry Key) (s : State Key) : Exec (State Key) :=
  if ebitTest e.flags .releaseRequest then .ok s
  else if ebitTest e.flags .keyPrivate then .ok s
  else if -1 < e.swapFilen then
    storeDirSwapLog { e with flags := ebitClr (ebitSet e.flags .releaseRequest) .entryCachable } .del s
  else .ok s

/-- A newer record of an entry; `lastref` is given the time stamp. -/
def updateMeta (r : SwapLogData Key) (e : StoreEntry Key) : StoreEntry Key := { e with
    lastref := r.timestamp
    timestamp := r.timestamp
    expires := r.expires
    lastmod := r.lastmod
    flags := r.flags
    refcount := e.refcount + r.refcount }

/-- The new entry also goes to the new log. -/
def loadNew (d : ℕ) (r : SwapLogData Key) (s : State Key) : Exec (State Key) := do
  let s ← storeUfsDirAddDiskRestore d r s
  storeDirSwapLog (diskEntry d r) .add s

/-- The file number without the index of the directory, which old logs have in the high bits. -/
def SwapLogData.masked (r : SwapLogData Key) : SwapLogData Key := { r with swapFilen := r.swapFilen % 2 ^ 24 }

/-- A log without a header is read from its beginning. -/
def storeUfsDirRebuildFromSwapLogCheckVersion (d : ℕ) (s : State Key) : State Key :=
  match (s.rebuilds d).log with
  | [] => s.setRebuild d ⟨.complete, []⟩
  | .header version recordSize :: rest =>
    if version = 1 ∧ recordSize = sizeofSwapLogData then s.setRebuild d ⟨.swapLog, rest⟩
    else s.setRebuild d ⟨.complete, []⟩
  | .data r :: rest => s.setRebuild d ⟨.swapLog, .data r :: rest⟩

def enabled (nConfigured : ℕ) (s : State Key) (d : ℕ) : Bool := d < nConfigured && (s.rebuilds d).func ≠ .complete

/-- An empty index, with the logs still to be read. -/
def State.init (logs : ℕ → List (LogRecord Key)) : State Key :=
  ⟨[], fun d => ⟨.checkVersion, logs d⟩, fun _ => fileMapCreate, fun _ => [storeUfsWriteSwapLogheader]⟩

variable [DecidableEq Key]

def storeGet (s : State Key) (key : Key) : Option (StoreEntry Key) := s.index.find? fun e => e.key = key

def State.forget (s : State Key) (key : Key) : State Key := { s with index := s.index.filter fun x => x.key ≠ key }

/-- An entry that is not locked and has a directory leaves the index and frees its file number, without
unlinking the file. -/
def storeRecycle (cfg : Config) (e : StoreEntry Key) (s : State Key) : Exec (State Key) := do
  let s ← storeReleaseRequest { e with expires := cfg.squidCurtime } s
  pure ((s.setMap e.swapDirn.toNat (storeUfsDirMapBitReset (s.maps e.swapDirn.toNat) e.swapFilen)).forget e.key)

def storeUpdateMeta (r : SwapLogData Key) (s : State Key) : State Key :=
  { s with index := s.index.map fun x => if x.key = r.key then updateMeta r x else x }

def rebuildAdd (cfg : Config) (d : ℕ) (r : SwapLogData Key) (s : State Key) : Exec (State Key) :=
  match storeGet s r.key, fileMapBitTest (s.maps d) r.swapFilen with
  | none, true => .ok s
  | none, false => loadNew d r s
  | some e, true =>
    if r.lastref ≤ e.lastref then .ok s
    else if e.swapFilen = r.swapFilen ∧ e.swapDirn = d then
      if e.storeStatus = .ok then .ok (storeUpdateMeta r s) else .ok s
    else .ok s
  | some e, false =>
    if r.lastref ≤ e.lastref then .ok s
    else do
      let s ← storeRecycle cfg e s
      loadNew d r s

def rebuildRecord (cfg : Config) (d : ℕ) (s : State Key) : LogRecord Key → Exec (State Key)
  | .header _ _ => .ok s
  | .data r =>
    match r.op with
    | .add =>
      if ¬ storeUfsDirValidFileno (s.maps d) r.masked.swapFilen false then .ok s
      else if ebitTest r.flags .keyPrivate then .ok s
      else rebuildAdd cfg d r.masked s
    | .del =>
      match storeGet s r.key with
      | some e => if e.lastref ≤ r.lastref then storeRecycle cfg e s else .ok s
      | none => .ok s
    | .nop => .ok s
    | .max => .ok s

/-- Up to `count` records of a log. -/
def storeUfsDirRebuildFromSwapLog (cfg : Config) (d : ℕ) : ℕ → State Key → Exec (State Key)
  | 0, s => .ok s
  | count + 1, s =>
    match (s.rebuilds d).log with
    | [] => .ok (s.setRebuild d ⟨.complete, []⟩)
    | r :: rest => do
      let s ← rebuildRecord cfg d (s.setRebuild d ⟨.swapLog, rest⟩) r
      storeUfsDirRebuildFromSwapLog cfg d count s

def storeRebuild (cfg : Config) (s : State Key) (d : ℕ) : Exec (State Key) :=
  match (s.rebuilds d).func with
  | .checkVersion => .ok (storeUfsDirRebuildFromSwapLogCheckVersion d s)
  | .swapLog => storeUfsDirRebuildFromSwapLog cfg d cfg.speed s
  | .complete => .ok s

def machine (nConfigured : ℕ) (cfg : Config) (logs : ℕ → List (LogRecord Key)) : Machine (State Key) ℕ Fault :=
  ⟨.init logs, enabled nConfigured, storeRebuild cfg⟩

end SquidVideoCache.CleanLog
