import SquidVideoCache.Icp.Model
import SquidVideoCache.Lib.Machine
import SquidVideoCache.Lib.Words

/-!
# The cache digest, CacheDigest.c and store_digest.c

Two jobs work on the digest in small steps: one rebuilds it from the store, the other writes it into a store entry
that peers fetch. Each has a lock, and each wakes the other when it ends. The steps and the next starts are tasks of
the event queue; here the queue may run them in any order.
-/

namespace SquidVideoCache.Digest
open Lib List
open Icp (ntoh hton16 hton32)

inductive DigestFault where
  /-- an assertion of store_digest.c -/
  | storeDigest
  /-- an assertion of CacheDigest.c -/
  | cacheDigest
  /-- `assert(len >= 0)` in `storeAppend` -/
  | storeAppend
  /-- no memory for the mask, or a read behind it -/
  | memory
  /-- a division by zero, or a value that is no `int` -/
  | arithmetic
  deriving DecidableEq, Repr

def digestAssert (p : Prop) [Decidable p] : Except DigestFault Unit := if p then .ok () else .error .storeDigest

/-! ## The digest -/

structure CacheDigest where
  mask : List UInt8
  capacity : ℤ
  bitsPerEntry : ℤ
  count : ℕ
  delCount : ℕ
  mask_pos : 0 < mask.length
  mask_lt : mask.length < 2 ^ 28
  bits_pos : 0 < bitsPerEntry
  deriving DecidableEq, Repr

/-- The product is an `int`, and wraps before it becomes a `size_t`. -/
def cacheDigestCalcMaskSize (cap bpe : ℤ) : ℕ := size64 (toInt (cap * bpe + 7)) / 8

/-- The size is stored in an `int`; `xcalloc` finds no memory for a negative one. The counters are not reset. -/
def cacheDigestInit (cap bpe : ℤ) (count delCount : ℕ) : Except DigestFault CacheDigest :=
  if hassert : 0 < cap ∧ 0 < bpe ∧ 0 < cacheDigestCalcMaskSize cap bpe then
    if hsize : 0 < toInt (cacheDigestCalcMaskSize cap bpe) ∧ toInt (cacheDigestCalcMaskSize cap bpe) < 2 ^ 28 then
      .ok { mask := replicate (toInt (cacheDigestCalcMaskSize cap bpe)).toNat 0, capacity := cap, bitsPerEntry := bpe,
            count := count, delCount := delCount,
            mask_pos := by rw [length_replicate]; omega,
            mask_lt := by rw [length_replicate]; omega,
            bits_pos := hassert.2.1 }
    else .error .memory
  else .error .cacheDigest

def cacheDigestCreate (cap bpe : ℤ) : Except DigestFault CacheDigest := cacheDigestInit cap bpe 0 0

def cacheDigestChangeCap (cd : CacheDigest) (newCap : ℤ) : Except DigestFault CacheDigest :=
  cacheDigestInit newCap cd.bitsPerEntry cd.count cd.delCount

def cacheDigestClear (cd : CacheDigest) : CacheDigest := { cd with
    mask := replicate cd.mask.length 0, count := 0, delCount := 0,
    mask_pos := by rw [length_replicate]; exact cd.mask_pos,
    mask_lt := by rw [length_replicate]; exact cd.mask_lt }

def cacheDigestHashKey (cd : CacheDigest) (key : List UInt8) (i : ℕ) : ℕ :=
  ntoh ((key.drop (4 * i)).take 4) % (cd.mask.length * 8)

def cbitSet (mask : List UInt8) (bit : ℕ) : List UInt8 := mask.modify (bit / 8) (· ||| (1 <<< (bit % 8).toUInt8))

@[simp] lemma length_cbitSet (mask : List UInt8) (bit : ℕ) : (cbitSet mask bit).length = mask.length :=
  length_modify _ _ _

def cacheDigestAdd (cd : CacheDigest) (key : List UInt8) : CacheDigest := { cd with
    mask := [0, 1, 2, 3].foldl (fun mask i => cbitSet mask (cacheDigestHashKey cd key i)) cd.mask,
    count := cd.count + 1,
    mask_pos := by simpa using cd.mask_pos,
    mask_lt := by simpa using cd.mask_lt }

/-! ## The store -/

structure Config where
  /-- `Config.Swap.maxSize`, in kilobytes -/
  maxSize : ℤ
  /-- `Config.Store.avgObjectSize`, in kilobytes -/
  avgObjectSize : ℤ
  /-- `Config.Store.maxObjectSize` -/
  maxObjectSize : ℤ
  bitsPerEntry : ℤ
  swapoutChunkSize : ℤ
  rebuildChunkPercentage : ℤ
  storeHashBuckets : ℕ
  deriving DecidableEq, Repr

structure StoreEntry where
  key : List UInt8
  cachable : Bool
  keyPrivate : Bool
  negcached : Bool
  releaseRequest : Bool
  storeOk : Bool
  badLength : Bool
  swapFileSz : ℤ
  /-- `refreshCheckDigest(e, Config.digest.rebuild_period)` -/
  refreshCheckDigest : Bool
  deriving DecidableEq, Repr

structure Store where
  table : List (List StoreEntry)
  /-- `memInUse(MEM_STOREENTRY)` -/
  memInUse : ℤ
  storeSwapSize : ℤ
  deriving DecidableEq, Repr

def storeDigestAddable (cfg : Config) (e : StoreEntry) : Bool :=
  e.cachable && !e.keyPrivate && !e.negcached && !e.releaseRequest && !(e.storeOk && e.badLength) &&
    decide (e.swapFileSz ≤ cfg.maxObjectSize) && !e.refreshCheckDigest

def storeDigestAdd (cfg : Config) (cd : CacheDigest) (e : StoreEntry) : CacheDigest :=
  if storeDigestAddable cfg e then cacheDigestAdd cd e.key else cd

def storeDigestCalcCap (cfg : Config) (store : Store) : Except DigestFault ℤ :=
  if cfg.avgObjectSize = 0 then .error .arithmetic
  else
    let hiCap := toInt (cfg.maxSize.tdiv cfg.avgObjectSize)
    let loCap := toInt (1 + store.storeSwapSize.tdiv cfg.avgObjectSize)
    let cap := if store.memInUse ≠ 0 then store.memInUse else hiCap
    .ok (if cap < loCap then loCap else cap)

/-- The new digest, if the change is a big one. -/
def storeDigestResize (cfg : Config) (store : Store) (cd : CacheDigest) : Except DigestFault (Option CacheDigest) := do
  let cap ← storeDigestCalcCap cfg store
  if toInt |toInt (cap - cd.capacity)| ≤ cd.capacity.tdiv 10 then pure none
  else do
    let cd ← cacheDigestChangeCap cd cap
    pure (some cd)

/-! ## The jobs -/

inductive Task where
  | rebuildStart
  | rebuildStep
  | rewriteStart
  /-- with its `generic_cbdata` -/
  | swapOutStep (lock : ℕ)
  deriving DecidableEq, Repr

/-- A `generic_cbdata` with the entry that the digest is written to. -/
structure RewriteLock where
  id : ℕ
  /-- the `Content-Length` of the reply -/
  contentLength : ℤ
  body : List UInt8
  deriving DecidableEq, Repr

structure Published where
  contentLength : ℤ
  body : List UInt8
  /-- the digest at the end of the last rebuild before; not in the source -/
  rebuilt : Option CacheDigest
  deriving DecidableEq, Repr

structure State where
  digest : CacheDigest
  rebuildLock : Bool
  rewriteLock : Option RewriteLock
  rebuildOffset : ℕ
  rewriteOffset : ℕ
  queue : List Task
  store : Store
  nextLock : ℕ
  published : List Published
  /-- the digest at the end of the last rebuild; not in the source -/
  rebuilt : Option CacheDigest
  deriving DecidableEq, Repr

def State.eventAdd (s : State) (t : Task) : State := { s with queue := s.queue ++ [t] }

def storeDigestInit (cfg : Config) (store : Store) : Except DigestFault State := do
  let cap ← storeDigestCalcCap cfg store
  let cd ← cacheDigestCreate cap cfg.bitsPerEntry
  pure ⟨cd, false, none, 0, 0, [], store, 0, [], none⟩

def cblockSize : ℕ := 128

/-- The control block, in network byte order. -/
def storeDigestCBlock (cfg : Config) (cd : CacheDigest) : List UInt8 :=
  hton16 5 ++ hton16 3 ++ hton32 cd.capacity.toNat ++ hton32 cd.count ++ hton32 cd.delCount ++ hton32 cd.mask.length ++
    [(cfg.bitsPerEntry % 256).toNat.toUInt8, 4] ++ replicate 106 0

section
variable (cfg : Config)

def storeDigestRebuildResume (s : State) : Except DigestFault State := do
  digestAssert (s.rebuildLock = true)
  digestAssert (s.rewriteLock = none)
  let resized ← storeDigestResize cfg s.store s.digest
  pure ({ s with rebuildOffset := 0, digest := resized.getD (cacheDigestClear s.digest) }.eventAdd .rebuildStep)

def storeDigestRebuildStart (s : State) : Except DigestFault State :=
  if s.rebuildLock then .ok s
  else if s.rewriteLock.isSome then .ok { s with rebuildLock := true }
  else storeDigestRebuildResume cfg { s with rebuildLock := true }

/-- The reply and the control block are written at once. -/
def storeDigestRewriteResume (s : State) : Except DigestFault State :=
  match s.rewriteLock with
  | none => .error .storeDigest
  | some lock => do
    digestAssert (s.rebuildLock = false)
    pure ({ s with
      rewriteOffset := 0
      rewriteLock := some ⟨lock.id, s.digest.mask.length + cblockSize, storeDigestCBlock cfg s.digest⟩ }.eventAdd
        (.swapOutStep lock.id))

def storeDigestRewriteStart (s : State) : Except DigestFault State :=
  if s.rewriteLock.isSome then .ok s
  else if s.rebuildLock then .ok { s with rewriteLock := some ⟨s.nextLock, 0, []⟩, nextLock := s.nextLock + 1 }
  else storeDigestRewriteResume cfg { s with rewriteLock := some ⟨s.nextLock, 0, []⟩, nextLock := s.nextLock + 1 }

def storeDigestRebuildFinish (s : State) : Except DigestFault State := do
  digestAssert (s.rebuildLock = true)
  let s := { s with rebuildLock := false, rebuilt := some s.digest }.eventAdd .rebuildStart
  if s.rewriteLock.isSome then storeDigestRewriteResume cfg s else pure s

def storeDigestRewriteFinish (lock : RewriteLock) (s : State) : Except DigestFault State := do
  digestAssert (s.rewriteLock = some lock)
  let s := { s with
    rewriteLock := none
    published := ⟨lock.contentLength, lock.body, s.rebuilt⟩ :: s.published }.eventAdd .rewriteStart
  if s.rebuildLock then storeDigestRebuildResume cfg s else pure s

/-- `ceil(store_hash_buckets * rebuild_chunk_percentage / 100.0)`. -/
def rebuildChunk : ℤ := -(-(cfg.storeHashBuckets * cfg.rebuildChunkPercentage) / 100)

def bucketEntries (s : State) (n : ℕ) : List StoreEntry :=
  (range' s.rebuildOffset n).flatMap fun i => s.store.table.getD i []

/-- The loop `while (bcount--)` runs through all of `int` if `bcount` is negative. -/
def storeDigestRebuildStep (s : State) : Except DigestFault State := do
  if toInt (rebuildChunk cfg) ≠ rebuildChunk cfg then .error .arithmetic
  else do
    digestAssert (s.rebuildLock = true)
    let bcount := if s.rebuildOffset + rebuildChunk cfg > cfg.storeHashBuckets
      then cfg.storeHashBuckets - (s.rebuildOffset : ℤ) else rebuildChunk cfg
    if bcount < 0 then .error .arithmetic
    else
      let s := { s with
        digest := (bucketEntries s bcount.toNat).foldl (storeDigestAdd cfg) s.digest
        rebuildOffset := s.rebuildOffset + bcount.toNat }
      if cfg.storeHashBuckets ≤ s.rebuildOffset then storeDigestRebuildFinish cfg s else pure (s.eventAdd .rebuildStep)

def swapOutChunk (s : State) : ℤ :=
  if toInt (s.rewriteOffset + toInt cfg.swapoutChunkSize) > s.digest.mask.length
  then s.digest.mask.length - (s.rewriteOffset : ℤ) else toInt cfg.swapoutChunkSize

def storeAppend (mask body : List UInt8) (offset : ℕ) (len : ℤ) : Except DigestFault (List UInt8) :=
  if len < 0 then .error .storeAppend
  else if mask.length < offset + len then .error .memory
  else .ok (body ++ (mask.drop offset).take len.toNat)

def storeDigestSwapOutStep (data : ℕ) (s : State) : Except DigestFault State :=
  match s.rewriteLock with
  | none => .error .storeDigest
  | some lock => do
    digestAssert (data = lock.id)
    let body ← storeAppend s.digest.mask lock.body s.rewriteOffset (swapOutChunk cfg s)
    let s := { s with
      rewriteLock := some { lock with body := body }
      rewriteOffset := s.rewriteOffset + (swapOutChunk cfg s).toNat }
    if s.digest.mask.length ≤ s.rewriteOffset then storeDigestRewriteFinish cfg { lock with body := body } s
    else pure (s.eventAdd (.swapOutStep data))

def storeDigestNoteStoreReady (s : State) : Except DigestFault State := do
  let s ← storeDigestRebuildStart cfg s
  storeDigestRewriteStart cfg s

/-! ## The machine -/

def runTask (s : State) : Task → Except DigestFault State
  | .rebuildStart => storeDigestRebuildStart cfg s
  | .rebuildStep => storeDigestRebuildStep cfg s
  | .rewriteStart => storeDigestRewriteStart cfg s
  | .swapOutStep lock => storeDigestSwapOutStep cfg lock s

inductive Event where
  | noteStoreReady
  /-- a task of the queue -/
  | run (i : ℕ)
  /-- the store changes -/
  | store (store : Store)
  deriving DecidableEq, Repr

def enabled (s : State) : Event → Bool
  | .run i => i < s.queue.length
  | _ => true

def step (s : State) : Event → Except DigestFault State
  | .noteStoreReady => storeDigestNoteStoreReady cfg s
  | .run i =>
    match s.queue[i]? with
    | none => .ok s
    | some t => runTask cfg { s with queue := s.queue.eraseIdx i } t
  | .store store => .ok { s with store := store }

def machine (init : State) : Machine State Event DigestFault := ⟨init, enabled, step cfg⟩

end

end SquidVideoCache.Digest
