import SquidVideoCache.Repl.BinaryHeap
import SquidVideoCache.Store.Model

/-!
# The heap removal policy, store_repl_heap.c

One policy and the store around it. The policy is that of the memory cache or that of a cache directory, its owner. An
entry has a policy node for each, `entry->repl` and `entry->mem_obj->repl`, with a pointer to its heap node. What the
store does with other policies is left out.

`storeLockObject` and the last `storeUnlockObject` of an entry call back into the policy. The policy has no `Referenced`
function, and `heap_referenced` is its `Dereferenced`.
-/

namespace SquidVideoCache.HeapPolicy
open Lib Store Function

inductive PolicyFault where
  | store (f : StoreFault)
  | heap (f : Fault)
  deriving DecidableEq

abbrev Outcome (α : Type) := Except PolicyFault α

def liftStore {α : Type} : Store.Result α → Outcome α
  | .ok a => .ok a
  | .error f => .error (.store f)

def liftHeap {α : Type} : Exec α → Outcome α
  | .ok a => .ok a
  | .error f => .error (.heap f)

/-- `enum heap_entry_type` -/
inductive EntryType where
  | unknown
  | storeEntry
  | storeMem
  deriving DecidableEq

inductive Owner where
  | memPolicy
  | swapDir (dirn : ℤ)
  deriving DecidableEq

def Owner.location : Owner → EntryType
  | .memPolicy => .storeMem
  | .swapDir _ => .storeEntry

structure HeapPolicyData (HeapKey : Type) where
  heap : Heap HeapKey ℕ
  count : ℤ
  nwalkers : ℤ
  type : EntryType

/-- `replNode` and `memNode` are the `data` of the policy nodes of an entry. `calls` lists the nodes that have been given
to `heap_update` and `heap_delete`, each with the heap at that time. -/
structure State (Key HeapKey : Type) where
  store : Store.State Key
  policy : HeapPolicyData HeapKey
  owner : Owner
  replNode : ℕ → Option ℕ
  memNode : ℕ → Option ℕ
  calls : List (Heap HeapKey ℕ × ℕ)

/-- The key function of the policy, one of the three of store_heap_replacement.c, and the allocator. -/
structure Setup (Key HeapKey : Type) where
  store : Store.Config Key
  keyfunc : StoreEntry Key → HeapKey → HeapKey
  xmalloc : Heap HeapKey ℕ → ℕ
  xmalloc_free : ∀ hp, HeapOk hp → hp.mem (xmalloc hp) = none

variable {Key HeapKey : Type}

def entryOf (e : ℕ) (s : State Key HeapKey) : Outcome (StoreEntry Key) := liftStore (entryAt e s.store)

def withEntry (e : ℕ) (entry : StoreEntry Key) (s : State Key HeapKey) : State Key HeapKey :=
  { s with store := setEntry e entry s.store }

/-- A step of the store that calls no policy. -/
def onStore (f : Store.State Key → Store.Result (Store.State Key)) (s : State Key HeapKey) : Outcome (State Key HeapKey) := do
  let store ← liftStore (f s.store)
  pure { s with store := store }

def policyNode (node : EntryType) (s : State Key HeapKey) (e : ℕ) : Option ℕ :=
  match node with
  | .storeEntry => s.replNode e
  | .storeMem => s.memNode e
  | .unknown => none

/-- A policy node in a memory object that is gone cannot be written. -/
def setPolicyNode (node : EntryType) (e : ℕ) (value : Option ℕ) (s : State Key HeapKey) : Outcome (State Key HeapKey) :=
  match node with
  | .storeEntry => .ok { s with replNode := update s.replNode e value }
  | .storeMem => do
    let entry ← entryOf e s
    liftStore (check entry.memObj.isSome .freed)
    pure { s with memNode := update s.memNode e value }
  | .unknown => .ok s

section
variable [LE HeapKey] [DecidableLE HeapKey] [LT HeapKey] [DecidableLT HeapKey] [Add HeapKey] [Div HeapKey]
  [NatCast HeapKey]
variable [DecidableEq Key] (cfg : Setup Key HeapKey)

/-! ## The policy -/

/-- The type is guessed from the place of the first policy node. -/
def heapAdd (node : EntryType) (e : ℕ) (s : State Key HeapKey) : Outcome (State Key HeapKey) := do
  liftHeap (cAssert (policyNode node s e = none))
  let entry ← entryOf e s
  if entry.flags.entrySpecial then pure s
  else do
    let elm := cfg.xmalloc s.policy.heap
    let hp ← liftHeap (heapInsert (fun _ => cfg.keyfunc entry) elm e s.policy.heap)
    let s ← setPolicyNode node e (some elm) s
    pure { s with policy := { s.policy with
      heap := { hp with age := hp.age + hp.age / (100000000 : ℕ) }
      count := s.policy.count + 1
      type := if s.policy.type = .unknown then node else s.policy.type } }

def heapRemove (node : EntryType) (e : ℕ) (s : State Key HeapKey) : Outcome (State Key HeapKey) :=
  match policyNode node s e with
  | none => .ok s
  | some hnode => do
    let r ← liftHeap (heapDelete hnode s.policy.heap)
    setPolicyNode node e none { s with
      policy := { s.policy with heap := r.2, count := s.policy.count - 1 }
      calls := s.calls ++ [(s.policy.heap, hnode)] }

def heapReferenced (node : EntryType) (e : ℕ) (s : State Key HeapKey) : Outcome (State Key HeapKey) :=
  match policyNode node s e with
  | none => .ok s
  | some hnode => do
    let entry ← entryOf e s
    let hp ← liftHeap (heapUpdate (fun _ => cfg.keyfunc entry) hnode e s.policy.heap)
    pure { s with policy := { s.policy with heap := hp }, calls := s.calls ++ [(s.policy.heap, hnode)] }

structure RemovalPolicy (σ : Type) where
  add : EntryType → ℕ → σ → Outcome σ
  remove : EntryType → ℕ → σ → Outcome σ
  referenced : Option (EntryType → ℕ → σ → Outcome σ)
  dereferenced : Option (EntryType → ℕ → σ → Outcome σ)

def createRemovalPolicyHeap : RemovalPolicy (State Key HeapKey) where
  add := heapAdd cfg
  remove := heapRemove
  referenced := none
  dereferenced := some (heapReferenced cfg)

/-! ## The store -/

/-- A function of the policy that may be NULL. -/
def callback (f : Option (EntryType → ℕ → State Key HeapKey → Outcome (State Key HeapKey))) (node : EntryType) (e : ℕ)
    (s : State Key HeapKey) : Outcome (State Key HeapKey) :=
  match f with
  | some f => f node e s
  | none => .ok s

def storeEntryReferenced (e : ℕ) (s : State Key HeapKey) : Outcome (State Key HeapKey) := do
  let entry ← entryOf e s
  match s.owner with
  | .swapDir dirn =>
    if -1 < entry.swapDirn ∧ entry.swapDirn = dirn then callback (createRemovalPolicyHeap cfg).referenced .storeEntry e s else pure s
  | .memPolicy => if entry.memObj.isSome then callback (createRemovalPolicyHeap cfg).referenced .storeMem e s else pure s

/-- The file number is tested here, not the directory. -/
def storeEntryDereferenced (e : ℕ) (s : State Key HeapKey) : Outcome (State Key HeapKey) := do
  let entry ← entryOf e s
  match s.owner with
  | .swapDir dirn =>
    if -1 < entry.swapFilen ∧ entry.swapDirn = dirn then callback (createRemovalPolicyHeap cfg).dereferenced .storeEntry e s else pure s
  | .memPolicy => if entry.memObj.isSome then callback (createRemovalPolicyHeap cfg).dereferenced .storeMem e s else pure s

def storeLockObject (e : ℕ) (s : State Key HeapKey) : Outcome (State Key HeapKey) := do
  let s ← onStore (Store.storeLockObject e) s
  storeEntryReferenced cfg e s

def memPolicyStatus (e : ℕ) (status : MemStatus) (s : State Key HeapKey) : Outcome (State Key HeapKey) :=
  match status with
  | .inMemory => (createRemovalPolicyHeap cfg).add .storeMem e s
  | .notInMemory => (createRemovalPolicyHeap cfg).remove .storeMem e s

def storeSetMemStatus (e : ℕ) (status : MemStatus) (s : State Key HeapKey) : Outcome (State Key HeapKey) := do
  let entry ← entryOf e s
  let store ← liftStore (Store.storeSetMemStatus e status s.store)
  if status = entry.memStatus ∨ entry.flags.entrySpecial ∨ s.owner ≠ .memPolicy then pure { s with store := store }
  else do
    let s ← memPolicyStatus cfg e status s
    pure { s with store := store }

/-- `storeUfsUnlink` and its like take the entry out of the policy of its directory. -/
def storeUnlink (e : ℕ) (s : State Key HeapKey) : Outcome (State Key HeapKey) := do
  let entry ← entryOf e s
  match s.owner with
  | .swapDir dirn => if entry.swapDirn = dirn then (createRemovalPolicyHeap cfg).remove .storeEntry e s else pure s
  | .memPolicy => pure s

section
-- the recursive call of storeUnlockObject, when a memory object goes away that holds other entries
variable (unlock : ℕ → State Key HeapKey → Outcome (State Key HeapKey))

def unlockLink (link : Option ℕ) (s : State Key HeapKey) : Outcome (State Key HeapKey) :=
  match link with
  | some e => unlock e s
  | none => .ok s

def destroyMemObject (e : ℕ) (s : State Key HeapKey) : Outcome (State Key HeapKey) := do
  let entry ← entryOf e s
  match entry.memObj with
  | none => .error (.store .freed)
  | some mem => do
    liftStore (check (¬ mem.sio) .assertion)
    let s ← unlockLink unlock mem.imsEntry
      { withEntry e { entry with memObj := none } s with memNode := update s.memNode e none }
    unlockLink unlock mem.oldEntry s

def destroyIfAny (e : ℕ) (s : State Key HeapKey) : Outcome (State Key HeapKey) := do
  let entry ← entryOf e s
  if entry.memObj.isSome then destroyMemObject unlock e s else pure s

def destroyStoreEntry (e : ℕ) (s : State Key HeapKey) : Outcome (State Key HeapKey) := do
  let s ← destroyIfAny unlock e s
  onStore (freeStoreEntry e) s

def unlinkIfAny (e : ℕ) (s : State Key HeapKey) : Outcome (State Key HeapKey) := do
  let entry ← entryOf e s
  if -1 < entry.swapFilen then storeUnlink cfg e s else pure s

def releaseNow (e : ℕ) (s : State Key HeapKey) : Outcome (State Key HeapKey) := do
  let s ← unlinkIfAny cfg e s
  let s ← onStore (logDelete e) s
  let s ← storeSetMemStatus cfg e .notInMemory s
  destroyStoreEntry unlock e s

def releaseMem (e : ℕ) (s : State Key HeapKey) : Outcome (State Key HeapKey) := do
  let entry ← entryOf e s
  if entry.memObj.isSome then do
    let s ← storeSetMemStatus cfg e .notInMemory s
    destroyMemObject unlock e s
  else pure s

/-- The branch of `storeRelease` while the store is rebuilt, where the entry has a file: it is kept, locked and marked. -/
def releaseLate (e : ℕ) (s : State Key HeapKey) : Outcome (State Key HeapKey) := do
  let s ← onStore (storeSetPrivateKey cfg.store e) s
  let s ← releaseMem cfg unlock e s
  let entry ← entryOf e s
  let s := withEntry e { entry with lockCount := entry.lockCount + 1, flags := { entry.flags with releaseRequest := true } } s
  pure { s with store := { s.store with lateReleaseStack := e :: s.store.lateReleaseStack } }

def storeRelease (e : ℕ) (s : State Key HeapKey) : Outcome (State Key HeapKey) := do
  let entry ← entryOf e s
  if storeEntryLocked entry then do
    let s ← onStore (storeExpireNow e) s
    onStore (storeReleaseRequest cfg.store e) s
  else if s.store.storeDirsRebuilding ∧ -1 < entry.swapFilen then releaseLate cfg unlock e s
  else releaseNow cfg unlock e s

def storePurgeMem (e : ℕ) (s : State Key HeapKey) : Outcome (State Key HeapKey) := do
  let entry ← entryOf e s
  if entry.memObj.isNone then pure s
  else do
    let s ← storeSetMemStatus cfg e .notInMemory s
    let s ← destroyMemObject unlock e s
    let entry ← entryOf e s
    if entry.swapStatus ≠ .done then storeRelease cfg unlock e s else pure s

def dropRequest (e : ℕ) (s : State Key HeapKey) : Outcome (State Key HeapKey) := do
  let entry ← entryOf e s
  pure (withEntry e { entry with memObj := entry.memObj.map ({ · with request := none }) } s)

/-- `storeUnlockObject` once the lock count is 0. -/
def unlockLast (e : ℕ) (s : State Key HeapKey) : Outcome (State Key HeapKey) := do
  let entry ← entryOf e s
  let releaseRequest := entry.flags.releaseRequest || entry.storeStatus == .pending
  let s := withEntry e { entry with flags := { entry.flags with releaseRequest } } s
  liftStore (check (storePendingNClients entry = 0) .assertion)
  if releaseRequest then storeRelease cfg unlock e s
  else if storeKeepInMemory entry then do
    let s ← storeEntryDereferenced cfg e s
    let s ← storeSetMemStatus cfg e .inMemory s
    dropRequest e s
  else do
    let s ← storePurgeMem cfg unlock e s
    storeEntryDereferenced cfg e s

end

/-- The number bounds the calls within calls. -/
def unlockFuel : ℕ → ℕ → State Key HeapKey → Outcome (State Key HeapKey)
  | 0, _, _ => .error (.store .diverges)
  | fuel + 1, e, s => do
    let entry ← entryOf e s
    let s := withEntry e { entry with lockCount := entry.lockCount - 1 } s
    if entry.lockCount - 1 ≠ 0 then pure s else unlockLast cfg (unlockFuel fuel) e s

def storeUnlockObject (e : ℕ) (s : State Key HeapKey) : Outcome (State Key HeapKey) :=
  unlockFuel cfg (s.store.nextEntry + 1) e s

/-! ## The purge walker -/

variable [Zero HeapKey]

/-- The walker, with the state that it works on. -/
structure PurgeWalker (Key HeapKey : Type) where
  state : State Key HeapKey
  lockedEntries : List ℕ
  minAge : HeapKey

def heapPurgeInit (s : State Key HeapKey) : PurgeWalker Key HeapKey :=
  ⟨{ s with policy := { s.policy with nwalkers := s.policy.nwalkers + 1 } }, [], 0⟩

/-- The root of the heap is taken out; `heap_extractmin` gives it to `heap_delete`. -/
def extractRoot (s : State Key HeapKey) : Outcome (HeapKey × ℕ × State Key HeapKey) := do
  let age ← liftHeap (heapPeepminkey s.policy.heap)
  let root ← liftHeap (slot s.policy.heap 0)
  let r ← liftHeap (heapExtractmin s.policy.heap)
  match r.1 with
  | none => .error (.store .freed)
  | some e => pure (age, e, { s with policy := { s.policy with heap := r.2 }, calls := s.calls ++ [(s.policy.heap, root)] })

/-- The number bounds the jumps to `try_again`. -/
def heapPurgeNext : ℕ → PurgeWalker Key HeapKey → Outcome (Option ℕ × PurgeWalker Key HeapKey)
  | 0, _ => .error (.store .diverges)
  | k + 1, w =>
    if w.state.policy.heap.last = 0 then .ok (none, w)
    else do
      let r ← extractRoot w.state
      let entry ← entryOf r.2.1 r.2.2
      if storeEntryLocked entry then do
        let s ← storeLockObject cfg r.2.1 r.2.2
        heapPurgeNext k { w with state := s, lockedEntries := w.lockedEntries ++ [r.2.1] }
      else do
        let s ← setPolicyNode r.2.2.policy.type r.2.1 none r.2.2
        pure (some r.2.1, { w with state := s, minAge := r.1 })

def reinsert (e : ℕ) (s : State Key HeapKey) : Outcome (State Key HeapKey) := do
  let entry ← entryOf e s
  let node := cfg.xmalloc s.policy.heap
  let hp ← liftHeap (heapInsert (fun _ => cfg.keyfunc entry) node e s.policy.heap)
  let s ← setPolicyNode s.policy.type e (some node) { s with policy := { s.policy with heap := hp } }
  storeUnlockObject cfg e s

def reinsertAll : List ℕ → State Key HeapKey → Outcome (State Key HeapKey)
  | [], s => .ok s
  | e :: rest, s => do
    let s ← reinsert cfg e s
    reinsertAll rest s

def heapPurgeDone (w : PurgeWalker Key HeapKey) : Outcome (State Key HeapKey) := do
  liftHeap (cAssert (0 < w.state.policy.nwalkers))
  let age := if 0 < w.minAge then w.minAge else w.state.policy.heap.age
  reinsertAll cfg w.lockedEntries { w.state with policy := { w.state.policy with
    nwalkers := w.state.policy.nwalkers - 1
    heap := { w.state.policy.heap with age := age } } }

/-- The entries that `n` calls of `heap_purgeNext` return. Each call takes no more nodes than there are. -/
def heapPurgeCalls : ℕ → PurgeWalker Key HeapKey → Outcome (List ℕ × PurgeWalker Key HeapKey)
  | 0, w => .ok ([], w)
  | n + 1, w => do
    let r ← heapPurgeNext cfg (w.state.policy.heap.last + 1) w
    let rest ← heapPurgeCalls n r.2
    pure (r.1.toList ++ rest.1, rest.2)

/-- A purge walk of `n` calls. -/
def heapPurge (n : ℕ) (s : State Key HeapKey) : Outcome (List ℕ × State Key HeapKey) := do
  let r ← heapPurgeCalls cfg n (heapPurgeInit s)
  let s ← heapPurgeDone cfg r.2
  pure (r.1, s)

end

end SquidVideoCache.HeapPolicy
