import SquidVideoCache.Lib.CString
import SquidVideoCache.Lib.Machine

/-!
# Memory pools, MemPool.c

A pool keeps freed objects of one size on a stack for the next allocation. `TheMeter` counts bytes
over all pools, the meter of a pool counts objects. The table of the pools only grows: a pool that is
destroyed leaves a `NULL` slot, and a pool is named by its slot.
-/

namespace SquidVideoCache.MemPool
open Lib

/-- The levels of a `MemPoolMeter`. -/
structure Meter where
  alloc : ℤ
  inuse : ℤ
  idle : ℤ
  deriving DecidableEq, Repr

/-- The levels are raised or lowered. -/
def Meter.shift (m : Meter) (alloc inuse idle : ℤ) : Meter := ⟨m.alloc + alloc, m.inuse + inuse, m.idle + idle⟩

structure Pool where
  objSize : ℕ
  pstack : List ℕ
  meter : Meter
  deriving DecidableEq, Repr

structure State where
  pools : List (Option Pool)
  theMeter : Meter
  memIdleLimit : ℕ
  /-- The objects in use, each with the slot of its pool. -/
  objects : List (ℕ × ℕ)
  /-- The address of the next object that `xmalloc` returns. -/
  next : ℕ
  deriving DecidableEq, Repr

def State.init : State := ⟨[], ⟨0, 0, 0⟩, 0, [], 0⟩

def State.pool (s : State) (p : ℕ) : Exec Pool :=
  match s.pools[p]? with
  | some (some pool) => .ok pool
  | _ => .error .bounds

def memPoolCreate (s : State) (objSize : ℕ) : Exec State := do
  cAssert (objSize ≠ 0)
  pure { s with pools := s.pools ++ [some ⟨objSize, [], ⟨0, 0, 0⟩⟩] }

/-- The slot is cleared; `TheMeter` is left as it is. -/
def memPoolDestroy (s : State) (p : ℕ) : Exec State := do
  let _ ← s.pool p
  pure { s with pools := s.pools.set p none }

/-! ## Objects -/

def Pool.reuse (pool : Pool) (rest : List ℕ) : Pool :=
  { pool with pstack := rest, meter := pool.meter.shift 0 1 (-1) }

def Pool.grow (pool : Pool) : Pool := { pool with meter := pool.meter.shift 1 1 0 }

def Pool.keep (pool : Pool) (obj : ℕ) : Pool :=
  { pool with pstack := obj :: pool.pstack, meter := pool.meter.shift 0 (-1) 1 }

def Pool.release (pool : Pool) : Pool := { pool with meter := pool.meter.shift (-1) (-1) 0 }

def memPoolAlloc (s : State) (p : ℕ) : Exec State := do
  let pool ← s.pool p
  match pool.pstack with
  | obj :: rest =>
    cAssert (pool.meter.idle ≠ 0)
    pure { s with
      pools := s.pools.set p (some (pool.reuse rest))
      theMeter := s.theMeter.shift 0 pool.objSize (-pool.objSize)
      objects := (p, obj) :: s.objects }
  | [] =>
    cAssert (pool.meter.idle = 0)
    pure { s with
      pools := s.pools.set p (some pool.grow)
      theMeter := s.theMeter.shift pool.objSize pool.objSize 0
      objects := (p, s.next) :: s.objects
      next := s.next + 1 }

def memPoolFree (s : State) (p obj : ℕ) : Exec State := do
  let pool ← s.pool p
  if s.theMeter.idle + pool.objSize ≤ s.memIdleLimit then
    cAssert ((pool.keep obj).meter.idle ≤ (pool.keep obj).meter.alloc)
    pure { s with
      pools := s.pools.set p (some (pool.keep obj))
      theMeter := s.theMeter.shift 0 (-pool.objSize) pool.objSize
      objects := s.objects.erase (p, obj) }
  else
    cAssert (pool.release.meter.idle ≤ pool.release.meter.alloc)
    pure { s with
      pools := s.pools.set p (some pool.release)
      theMeter := s.theMeter.shift (-pool.objSize) (-pool.objSize) 0
      objects := s.objects.erase (p, obj) }

/-! ## Shrinking -/

def popIdle (limit : ℕ) (pool : Pool) (m : Meter) : List ℕ → Pool × Meter
  | [] => ({ pool with pstack := [] }, m)
  | obj :: rest =>
    if (limit : ℤ) < pool.meter.idle then
      popIdle limit { pool with meter := pool.meter.shift (-1) 0 (-1) } (m.shift (-pool.objSize) 0 (-pool.objSize)) rest
    else ({ pool with pstack := obj :: rest }, m)

def memPoolShrink (limit : ℕ) (pool : Pool) (m : Meter) : Exec (Pool × Meter) := do
  let r := popIdle limit pool m pool.pstack
  cAssert (r.1.meter.idle ≤ limit)
  pure r

/-- A phase of `memShrink`: pools are shrunk in order while there is too much idle. What a `NULL` slot leads to differs
between the phases. -/
def shrinkPhase (null : Fault) (target : Pool → ℕ) (limit : ℕ) : List (Option Pool) → Meter → Exec (List (Option Pool) × Meter)
  | [], m => .ok ([], m)
  | slot :: pools, m =>
    if (limit : ℤ) < m.idle then
      match slot with
      | none => .error null
      | some pool => do
        let (pool, m) ← memPoolShrink (target pool) pool m
        let (pools, m) ← shrinkPhase null target limit pools m
        pure (some pool :: pools, m)
    else .ok (slot :: pools, m)

/-- The share of a pool; `product` is the product of two numbers in double precision, cut to an integer. -/
def share (product : ℕ → ℕ → ℕ) (start limit : ℕ) (pool : Pool) : ℕ := product pool.meter.idle.toNat limit / start

/-- The first phase reads the meter of each pool, the second asserts that the pool is there. -/
def memShrink (product : ℕ → ℕ → ℕ) (s : State) (limit : ℕ) : Exec State := do
  let (pools, m) ← shrinkPhase .bounds (share product s.theMeter.idle.toNat limit) limit s.pools s.theMeter
  let (pools, m) ← shrinkPhase .assertion (fun _ => 0) limit pools m
  cAssert (m.idle ≤ limit)
  pure { s with pools := pools, theMeter := m }

/-- `mem_unlimited_size` -/
def memUnlimitedSize : ℕ := 2 * 1024 * (1024 * 1024) - 1

/-- The limit for idle memory that the configuration asks for. -/
def poolLimit (memPools : Bool) (limit : ℤ) : ℕ :=
  if !memPools then 0 else if 0 < limit then limit.toNat else memUnlimitedSize

/-- Memory pools are shrunk if needed. -/
def shrinkIfNeeded (product : ℕ → ℕ → ℕ) (s : State) (limit : ℕ) : Exec State :=
  if (limit : ℤ) < s.theMeter.idle then memShrink product s limit else .ok s

def memConfigure (product : ℕ → ℕ → ℕ) (s : State) (limit : ℕ) : Exec State := do
  let s ← shrinkIfNeeded product s limit
  cAssert (s.theMeter.idle ≤ limit)
  pure { s with memIdleLimit := limit }

/-! ## Runs -/

inductive Event where
  | create (objSize : ℕ)
  | alloc (p : ℕ)
  | free (p obj : ℕ)
  | configure (memPools : Bool) (limit : ℤ)
  | destroy (p : ℕ)
  deriving DecidableEq, Repr

def State.live (s : State) (p : ℕ) : Bool := (s.pools[p]?.join).isSome

/-- Pools are created for objects of some size, objects are freed that are in use, and a pool is destroyed when none are. -/
def enabled (s : State) : Event → Bool
  | .create objSize => objSize ≠ 0
  | .alloc p => s.live p
  | .free p obj => (p, obj) ∈ s.objects
  | .configure .. => true
  | .destroy p => s.live p && s.objects.all (·.1 ≠ p)

def step (product : ℕ → ℕ → ℕ) (s : State) : Event → Exec State
  | .create objSize => memPoolCreate s objSize
  | .alloc p => memPoolAlloc s p
  | .free p obj => memPoolFree s p obj
  | .configure memPools limit => memConfigure product s (poolLimit memPools limit)
  | .destroy p => memPoolDestroy s p

def machine (product : ℕ → ℕ → ℕ) : Machine State Event Fault := ⟨.init, enabled, step product⟩

end SquidVideoCache.MemPool
