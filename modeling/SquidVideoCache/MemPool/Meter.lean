import SquidVideoCache.MemPool.Model
import Mathlib.Algebra.BigOperators.Group.List.Basic
import Mathlib.Tactic.Ring

/-!
# The meters of the pools

`TheMeter` is the sum over the live pools of their levels times the size of their objects.
Destroying a pool with idle objects leaves them in `TheMeter`, and `memShrink` does not expect
`NULL` slots.
-/

namespace SquidVideoCache.MemPool
open Lib List

variable {product : ℕ → ℕ → ℕ} {s s' : State} {p : ℕ} {pool pool' : Pool} {pools pools' : List (Option Pool)}
  {m m' : Meter}
  {slot slot' : Option Pool} {limit : ℕ} {target : Pool → ℕ} {null : Fault}
  {level : Meter → ℤ} {stack : List ℕ} {objects : List (ℕ × ℕ)} {next : ℕ}

@[simp] lemma shift_alloc (m : Meter) (a u i : ℤ) : (m.shift a u i).alloc = m.alloc + a := rfl

@[simp] lemma shift_inuse (m : Meter) (a u i : ℤ) : (m.shift a u i).inuse = m.inuse + u := rfl

@[simp] lemma shift_idle (m : Meter) (a u i : ℤ) : (m.shift a u i).idle = m.idle + i := rfl

/-! ## Sums over the pools -/

def weight (level : Meter → ℤ) : Option Pool → ℤ
  | some pool => level pool.meter * pool.objSize
  | none => 0

def total (level : Meter → ℤ) (pools : List (Option Pool)) : ℤ := (pools.map (weight level)).sum

@[simp] lemma total_cons (level : Meter → ℤ) (slot : Option Pool) (pools : List (Option Pool)) :
    total level (slot :: pools) = weight level slot + total level pools := by simp [total]

@[simp] lemma total_append (level : Meter → ℤ) (a b : List (Option Pool)) :
    total level (a ++ b) = total level a + total level b := by simp [total]

lemma total_set (level : Meter → ℤ) (h : pools[p]? = some slot) (slot' : Option Pool) :
    total level (pools.set p slot') = total level pools - weight level slot + weight level slot' := by
  induction pools generalizing p with
  | nil => cases h
  | cons x pools ih =>
    cases p with
    | zero =>
      rw [getElem?_cons_zero, Option.some.injEq] at h
      subst h
      simp only [set_cons_zero, total_cons]
      omega
    | succ p =>
      simp only [set_cons_succ, total_cons, ih h]
      omega

/-- What the proofs use of the three levels: they are linear. -/
structure IsLevel (level : Meter → ℤ) : Prop where
  shift : ∀ m a u i, level (m.shift a u i) = level m + level ⟨a, u, i⟩
  scale : ∀ a u i k, level ⟨a * k, u * k, i * k⟩ = level ⟨a, u, i⟩ * k

lemma isLevel_alloc : IsLevel Meter.alloc := ⟨fun _ _ _ _ => rfl, fun _ _ _ _ => rfl⟩

lemma isLevel_inuse : IsLevel Meter.inuse := ⟨fun _ _ _ _ => rfl, fun _ _ _ _ => rfl⟩

lemma isLevel_idle : IsLevel Meter.idle := ⟨fun _ _ _ _ => rfl, fun _ _ _ _ => rfl⟩

lemma IsLevel.zero (h : IsLevel level) : level ⟨0, 0, 0⟩ = 0 := by simpa using h.scale 0 0 0 0

/-- `TheMeter` is shifted by objects of a size. -/
def Meter.shiftBytes (m : Meter) (size : ℕ) (a u i : ℤ) : Meter := m.shift (a * size) (u * size) (i * size)

lemma IsLevel.shiftBytes (h : IsLevel level) (m : Meter) (size : ℕ) (a u i : ℤ) :
    level (m.shiftBytes size a u i) = level m + level ⟨a, u, i⟩ * size := by
  rw [Meter.shiftBytes, h.shift, h.scale]

/-- What is in `TheMeter` beyond the pools is the same before and after. -/
def SameGap (pools : List (Option Pool)) (m : Meter) (pools' : List (Option Pool)) (m' : Meter) : Prop :=
  ∀ level, IsLevel level → level m' - total level pools' = level m - total level pools

/-! ## Balanced pools -/

structure Pool.Balanced (pool : Pool) : Prop where
  alloc_eq : pool.meter.alloc = pool.meter.inuse + pool.meter.idle
  idle_eq : pool.meter.idle = pool.pstack.length
  inuse_nonneg : 0 ≤ pool.meter.inuse

/-- The pool with objects from the top of its stack given back to the system. -/
def Pool.discard (pool : Pool) (k : ℕ) : Pool :=
  { pool with pstack := pool.pstack.drop k, meter := pool.meter.shift (-k) 0 (-k) }

lemma Pool.Balanced.discard (h : pool.Balanced) {k : ℕ} (hk : k ≤ pool.pstack.length) : (pool.discard k).Balanced where
  alloc_eq := by
    have hall := h.alloc_eq
    simp only [Pool.discard, shift_alloc, shift_inuse, shift_idle]
    omega
  idle_eq := by
    have hidle := h.idle_eq
    simp only [Pool.discard, shift_idle, length_drop]
    omega
  inuse_nonneg := by
    have hinuse := h.inuse_nonneg
    simpa [Pool.discard] using hinuse

/-- The loop of `memPoolShrink` discards objects until the limit is met. -/
theorem popIdle_eq (limit : ℕ) (pool : Pool) (m : Meter) (h : pool.meter.idle = stack.length) :
    ∃ k ≤ stack.length, popIdle limit pool m stack =
      ({ pool with pstack := stack.drop k, meter := pool.meter.shift (-k) 0 (-k) }, m.shiftBytes pool.objSize (-k) 0 (-k)) ∧ pool.meter.idle - k ≤ limit := by
  induction stack generalizing pool m with
  | nil =>
    refine ⟨0, le_rfl, by simp [popIdle, Meter.shift, Meter.shiftBytes], ?_⟩
    rw [length_nil] at h
    omega
  | cons obj stack ih =>
    unfold popIdle
    split_ifs with hlt
    · have hidle : (pool.meter.shift (-1) 0 (-1)).idle = stack.length := by
        rw [length_cons] at h
        rw [shift_idle]
        omega
      obtain ⟨k, hk, heq, hle⟩ := ih { pool with meter := pool.meter.shift (-1) 0 (-1) }
        _ hidle
      refine ⟨k + 1, by simpa using hk, ?_, ?_⟩
      · rw [heq]
        simp only [Meter.shift, Meter.shiftBytes, drop_succ_cons, Prod.mk.injEq, Pool.mk.injEq, Meter.mk.injEq, true_and]
        push_cast
        refine ⟨⟨by ring, by ring, by ring⟩, by ring, by ring, by ring⟩
      · simp only [shift_idle] at hle
        omega
    · refine ⟨0, Nat.zero_le _, by simp [Meter.shift, Meter.shiftBytes], ?_⟩
      omega

lemma memPoolShrink_eq (h : pool.Balanced) (limit : ℕ) (m : Meter) :
    ∃ k ≤ pool.pstack.length, memPoolShrink limit pool m =
      .ok (pool.discard k, m.shiftBytes pool.objSize (-k) 0 (-k)) ∧ (pool.discard k).meter.idle ≤ limit := by
  obtain ⟨k, hk, heq, hle⟩ := popIdle_eq limit pool m h.idle_eq
  have hidle : (pool.discard k).meter.idle ≤ limit := by
    simp only [Pool.discard, shift_idle]
    omega
  refine ⟨k, hk, ?_, hidle⟩
  unfold memPoolShrink
  simp only [heq]
  rw [cAssert_pos (show (pool.meter.shift (-k) 0 (-k)).idle ≤ (limit : ℤ) from hidle)]
  rfl

/-! ## Shrinking -/

/-- What shrinking does to a slot. -/
inductive Trimmed : Option Pool → Option Pool → Prop
  | gone : Trimmed none none
  | pool {pool pool' : Pool} (hsize : pool'.objSize = pool.objSize) (hinuse : pool'.meter.inuse = pool.meter.inuse)
      (hbalanced : pool.Balanced → pool'.Balanced) : Trimmed (some pool) (some pool')

lemma Trimmed.refl (slot : Option Pool) : Trimmed slot slot := by
  cases slot with
  | none => exact .gone
  | some pool => exact .pool rfl rfl id

lemma Trimmed.trans {slot'' : Option Pool} (h : Trimmed slot slot') (h' : Trimmed slot' slot'') : Trimmed slot slot'' := by
  cases h with
  | gone => exact h'
  | pool hsize hinuse hbalanced =>
    cases h' with
    | pool hsize' hinuse' hbalanced' =>
      exact .pool (hsize'.trans hsize) (hinuse'.trans hinuse) fun hb => hbalanced' (hbalanced hb)

/-- What shrinking does to the table and to `TheMeter`. -/
structure Shrunk (pools : List (Option Pool)) (m : Meter) (pools' : List (Option Pool)) (m' : Meter) : Prop where
  slots : List.Forall₂ Trimmed pools pools'
  gap : SameGap pools m pools' m'

lemma Shrunk.refl (pools : List (Option Pool)) (m : Meter) : Shrunk pools m pools m where
  slots := List.forall₂_same.mpr fun slot _ => .refl slot
  gap := fun _ _ => rfl

lemma Shrunk.trans {pools'' : List (Option Pool)} {m'' : Meter} (h : Shrunk pools m pools' m')
    (h' : Shrunk pools' m' pools'' m'') : Shrunk pools m pools'' m'' where
  slots := by
    have hslo := h.slots
    have hslo' := h'.slots
    clear h h'
    induction hslo generalizing pools'' with
    | nil => exact hslo'
    | cons hslot _ ih =>
      cases hslo' with
      | cons hslot' hrest' => exact .cons (hslot.trans hslot') (ih hrest')
  gap := fun level hlev => (h'.gap level hlev).trans (h.gap level hlev)

section

variable (h : Shrunk pools m pools' m')

include h

lemma Shrunk.append (rest : List (Option Pool)) : Shrunk (pools ++ rest) m (pools' ++ rest) m' where
  slots := rel_append h.slots (List.forall₂_same.mpr fun slot _ => .refl slot)
  gap := fun level hlev => by
    have hgap := h.gap level hlev
    simp only [total_append]
    omega

lemma Shrunk.none_notMem (hlive : none ∉ pools) : none ∉ pools' := by
  have hslo := h.slots
  clear h
  induction hslo with
  | nil => exact hlive
  | cons hslot _ ih =>
    rw [mem_cons, not_or] at hlive ⊢
    cases hslot with
    | gone => exact absurd rfl hlive.1
    | pool => exact ⟨by simp, ih hlive.2⟩

lemma Shrunk.getElem? (p : ℕ) : Option.Rel Trimmed pools[p]? pools'[p]? := by
  have hslo := h.slots
  clear h
  induction hslo generalizing p with
  | nil => exact .none
  | cons hslot _ ih =>
    cases p with
    | zero => exact .some hslot
    | succ p => exact ih p

lemma Shrunk.balanced (hbalanced : ∀ pool, some pool ∈ pools → pool.Balanced) :
    ∀ pool, some pool ∈ pools' → pool.Balanced := by
  intro pool' hpool'
  obtain ⟨p, hp⟩ := mem_iff_getElem?.mp hpool'
  have hrel := h.getElem? p
  rw [hp] at hrel
  generalize hbef : pools[p]? = before at hrel
  cases hrel with
  | some hslot =>
    cases hslot with
    | pool _ _ hb => exact hb (hbalanced _ (mem_of_getElem? hbef))

end

lemma shrinkPhase_of_le (h : m.idle ≤ limit) (pools : List (Option Pool)) :
    shrinkPhase null target limit pools m = .ok (pools, m) := by
  cases pools with
  | nil => rfl
  | cons slot pools =>
    unfold shrinkPhase
    rw [if_neg (by omega)]

lemma shrinkPhase_live (null : Fault) (target : Pool → ℕ) (limit : ℕ) (hlive : none ∉ pools)
    (hbalanced : ∀ pool, some pool ∈ pools → pool.Balanced) (m : Meter) :
    ∃ pools' m', shrinkPhase null target limit pools m = .ok (pools', m') ∧ Shrunk pools m pools' m' ∧
      (m'.idle ≤ limit ∨ ∀ pool', some pool' ∈ pools' → ∃ pool, pool'.meter.idle ≤ target pool) := by
  induction pools generalizing m with
  | nil => exact ⟨[], m, rfl, .refl _ _, .inr fun _ hpool => absurd hpool not_mem_nil⟩
  | cons slot pools ih =>
    by_cases hlim : m.idle ≤ limit
    · exact ⟨_, m, shrinkPhase_of_le hlim _, .refl _ _, .inl hlim⟩
    · rw [mem_cons, not_or] at hlive
      obtain ⟨pool, rfl⟩ := Option.ne_none_iff_exists'.mp (Ne.symm hlive.1)
      have hpool := hbalanced pool mem_cons_self
      obtain ⟨k, hk, hshr, hidle⟩ := memPoolShrink_eq hpool (target pool) m
      obtain ⟨pools', m', hpha, hrest, hdone⟩ := ih hlive.2 (fun pool' hmem => hbalanced pool' (mem_cons_of_mem _ hmem))
        (m.shiftBytes pool.objSize (-k) 0 (-k))
      refine ⟨some (pool.discard k) :: pools', m', ?_, ⟨?_, ?_⟩, ?_⟩
      · unfold shrinkPhase
        rw [if_pos (by omega)]
        simp only [hshr, ok_bind, hpha]
        rfl
      · exact .cons (.pool rfl (by simp [Pool.discard]) fun hb => hb.discard hk) hrest.slots
      · intro level hlev
        have hgap := hrest.gap level hlev
        rw [hlev.shiftBytes] at hgap
        simp only [total_cons, weight, Pool.discard, hlev.shift, add_mul]
        omega
      · refine hdone.imp_right fun hall pool' hmem => ?_
        rcases mem_cons.mp hmem with heq | hmem
        · cases heq
          exact ⟨pool, hidle⟩
        · exact hall pool' hmem

lemma shrinkPhase_append (h : shrinkPhase null target limit pools m = .ok (pools', m')) (hlim : m'.idle ≤ limit)
    (rest : List (Option Pool)) : shrinkPhase null target limit (pools ++ rest) m = .ok (pools' ++ rest, m') := by
  induction pools generalizing m pools' with
  | nil =>
    cases h
    exact shrinkPhase_of_le hlim rest
  | cons slot pools ih =>
    unfold shrinkPhase at h
    rw [cons_append]
    unfold shrinkPhase
    split_ifs at h ⊢ with hlt
    · cases slot with
      | none => cases h
      | some pool =>
        simp only [bind_eq_ok] at h ⊢
        obtain ⟨⟨pool', m₁⟩, hshr, ⟨pools₁, m₂⟩, hpha, heq⟩ := h
        cases heq
        exact ⟨(pool', m₁), hshr, (pools₁ ++ rest, m₂), ih hpha, rfl⟩
    · cases h
      rfl

/-! ## The condition on the steps -/

/-- The first phase of `memShrink` meets the limit with the pools before the first `NULL` slot. -/
def meetsLimit (product : ℕ → ℕ → ℕ) (s : State) (limit : ℕ) : Bool :=
  match shrinkPhase .bounds (share product s.theMeter.idle.toNat limit) limit (s.pools.takeWhile Option.isSome) s.theMeter with
  | .ok (_, m) => m.idle ≤ limit
  | .error _ => false

/-- A pool is destroyed only without idle objects, and pools are shrunk only if no `NULL` slot is in the way. -/
def orderly (product : ℕ → ℕ → ℕ) (s : State) : Event → Bool
  | .configure memPools limit =>
    s.theMeter.idle ≤ poolLimit memPools limit || none ∉ s.pools || meetsLimit product s (poolLimit memPools limit)
  | .destroy p =>
    match s.pools[p]? with
    | some (some pool) => pool.pstack = []
    | _ => true
  | _ => true

/-! ## The invariant -/

def objectCount (objects : List (ℕ × ℕ)) (p : ℕ) : ℕ := objects.countP (·.1 = p)

/-- The pool of a slot has the right meter. -/
structure Pool.Counts (pool : Pool) (objects : List (ℕ × ℕ)) (p : ℕ) : Prop extends pool.Balanced where
  inuse_eq : pool.meter.inuse = objectCount objects p

structure Inv (s : State) : Prop where
  counts : ∀ (p : ℕ) (pool : Pool), s.pools[p]? = some (some pool) → pool.Counts s.objects p
  live : ∀ obj ∈ s.objects, s.live obj.1
  metered : ∀ level, IsLevel level → level s.theMeter = total level s.pools

lemma Inv.balanced (h : Inv s) (pool : Pool) (hpool : some pool ∈ s.pools) : pool.Balanced := by
  obtain ⟨p, hp⟩ := mem_iff_getElem?.mp hpool
  exact (h.counts p pool hp).toBalanced

lemma live_iff : s.live p ↔ ∃ pool, s.pools[p]? = some (some pool) := by
  unfold State.live
  rw [Option.isSome_iff_exists]
  refine exists_congr fun pool => ?_
  cases s.pools[p]? with
  | none => simp
  | some slot => simp

lemma pool_eq_ok (h : s.pools[p]? = some (some pool)) : s.pool p = .ok pool := by
  unfold State.pool
  rw [h]

lemma Inv.set (h : Inv s) (hp : s.pools[p]? = some (some pool)) (hslot : ∀ pool' ∈ slot, pool'.Counts objects p)
    (hoth : ∀ q, q ≠ p → objectCount objects q = objectCount s.objects q)
    (hlive : ∀ obj ∈ objects, s.live obj.1 ∧ (obj.1 = p → slot.isSome))
    (hmet : ∀ level, IsLevel level → level m = level s.theMeter - weight level (some pool) + weight level slot) :
    Inv { s with pools := s.pools.set p slot, theMeter := m, objects := objects, next := next } := by
  have hlt : p < s.pools.length := (List.getElem?_eq_some_iff.mp hp).1
  refine ⟨?_, ?_, ?_⟩
  · intro q pool₁ hq
    by_cases hqp : q = p
    · subst hqp
      simp only [getElem?_set_self hlt, Option.some.injEq] at hq
      exact hslot _ hq
    · simp only [getElem?_set_ne (Ne.symm hqp)] at hq
      obtain ⟨hbalanced, hinuse⟩ := h.counts q _ hq
      exact ⟨hbalanced, by rw [hinuse, ← hoth q hqp]⟩
  · intro obj hobj
    obtain ⟨hold, hnew⟩ := hlive obj hobj
    obtain ⟨pool₁, hpool₁⟩ := live_iff.mp hold
    apply live_iff.mpr
    by_cases hqp : obj.1 = p
    · obtain ⟨pool', hpool'⟩ := Option.isSome_iff_exists.mp (hnew hqp)
      exact ⟨pool', by simp [hqp, getElem?_set_self hlt, hpool']⟩
    · exact ⟨pool₁, by simp [getElem?_set_ne (Ne.symm hqp), hpool₁]⟩
  · intro level hlev
    rw [total_set level hp, ← h.metered level hlev]
    exact hmet level hlev

lemma Inv.shift (h : Inv s) (hp : s.pools[p]? = some (some pool)) {a u i : ℤ}
    (hall : a = u + i) (hsta : (stack.length : ℤ) = pool.pstack.length + i)
    (hown : (objectCount objects p : ℤ) = objectCount s.objects p + u)
    (hoth : ∀ q, q ≠ p → objectCount objects q = objectCount s.objects q) (hlive : ∀ obj ∈ objects, s.live obj.1)
    (hmet : m = s.theMeter.shiftBytes pool.objSize a u i) : Inv { s with
      pools := s.pools.set p (some { pool with pstack := stack, meter := pool.meter.shift a u i })
      theMeter := m
      objects := objects
      next := next } := by
  obtain ⟨⟨hsum, hidle, -⟩, hinuse⟩ := h.counts p pool hp
  refine h.set hp ?_ hoth (fun obj hobj => ⟨hlive obj hobj, fun _ => rfl⟩) ?_
  · rintro _ ⟨⟩
    refine ⟨⟨?_, ?_, ?_⟩, ?_⟩
    all_goals simp
    all_goals omega
  · intro level hlev
    rw [hmet, hlev.shiftBytes]
    simp only [weight, hlev.shift, add_mul]
    omega

lemma Inv.create (h : Inv s) {objSize : ℕ} (hsize : objSize ≠ 0) : Ends (fun _ => False) Inv (memPoolCreate s objSize) := by
  unfold memPoolCreate
  rw [cAssert_pos hsize]
  have hold : ∀ obj ∈ s.objects, obj.1 < s.pools.length := fun obj hobj => by
    obtain ⟨pool, hpool⟩ := live_iff.mp (h.live obj hobj)
    exact (List.getElem?_eq_some_iff.mp hpool).1
  refine ⟨?_, ?_, ?_⟩
  · intro p pool hp
    rcases lt_trichotomy p s.pools.length with hlt | rfl | hgt
    · simp only [getElem?_append_left hlt] at hp
      exact h.counts p pool hp
    · simp only [getElem?_concat_length, Option.some.injEq] at hp
      subst hp
      -- no object belongs to a slot that was not there
      have hnone : objectCount s.objects s.pools.length = 0 :=
        countP_eq_zero.mpr fun obj hobj => by simpa using (hold obj hobj).ne
      exact ⟨⟨rfl, rfl, le_rfl⟩, by simp [hnone]⟩
    · have hlen := (List.getElem?_eq_some_iff.mp hp).1
      simp only [length_append, length_singleton] at hlen
      omega
  · intro obj hobj
    obtain ⟨pool, hpool⟩ := live_iff.mp (h.live obj hobj)
    exact live_iff.mpr ⟨pool, by simp [getElem?_append_left (hold obj hobj), hpool]⟩
  · intro level hlev
    simpa [weight, total, hlev.zero] using h.metered level hlev

lemma Inv.alloc (h : Inv s) (hlive : s.live p) : Ends (fun _ => False) Inv (memPoolAlloc s p) := by
  obtain ⟨pool, hp⟩ := live_iff.mp hlive
  have hidle := (h.counts p pool hp).idle_eq
  have hoth : ∀ obj : ℕ, ∀ q, q ≠ p → objectCount ((p, obj) :: s.objects) q = objectCount s.objects q := by
    intro obj q hqp
    exact countP_cons_of_neg (by simpa using Ne.symm hqp)
  have hown : ∀ obj : ℕ, (objectCount ((p, obj) :: s.objects) p : ℤ) = objectCount s.objects p + 1 := fun obj =>
    congrArg _ (countP_cons_of_pos (by simp))
  have hmem : ∀ obj : ℕ, ∀ o ∈ (p, obj) :: s.objects, s.live o.1 := by
    intro obj o ho
    rcases mem_cons.mp ho with rfl | ho
    · exact hlive
    · exact h.live o ho
  unfold memPoolAlloc
  simp only [pool_eq_ok hp, ok_bind]
  cases hsta : pool.pstack with
  | nil =>
    rw [hsta] at hidle
    simp only
    rw [cAssert_pos (by simpa using hidle)]
    exact h.shift hp rfl (by simp) (hown s.next) (hoth s.next) (hmem s.next) (by simp [Meter.shiftBytes])
  | cons obj rest =>
    rw [hsta, length_cons] at hidle
    rw [cAssert_pos (by omega)]
    exact h.shift hp rfl (by simp [hsta]) (hown obj) (hoth obj) (hmem obj) (by simp [Meter.shiftBytes])

lemma Inv.free {obj : ℕ} (h : Inv s) (hobj : (p, obj) ∈ s.objects) : Ends (fun _ => False) Inv (memPoolFree s p obj) := by
  obtain ⟨pool, hp⟩ : ∃ pool, s.pools[p]? = some (some pool) := live_iff.mp (h.live _ hobj)
  obtain ⟨⟨hall, hidle, hinuse⟩, hcou⟩ := h.counts p pool hp
  have hera : ∀ q, objectCount s.objects q = (if p = q then 1 else 0) + objectCount (s.objects.erase (p, obj)) q := by
    intro q
    unfold objectCount
    rw [(perm_cons_erase hobj).countP_eq, countP_cons]
    simp only [decide_eq_true_eq]
    omega
  have hown := hera p
  rw [if_pos rfl] at hown
  have hoth : ∀ q, q ≠ p → objectCount (s.objects.erase (p, obj)) q = objectCount s.objects q := by
    intro q hqp
    have heq := hera q
    rw [if_neg (Ne.symm hqp)] at heq
    omega
  have hmem : ∀ o ∈ s.objects.erase (p, obj), s.live o.1 := fun o ho => h.live o (mem_of_mem_erase ho)
  unfold memPoolFree
  simp only [pool_eq_ok hp]
  apply ends_ite
  · intro _
    rw [cAssert_pos (by simp only [Pool.keep, shift_idle, shift_alloc]; omega)]
    exact h.shift hp rfl (by simp) (by omega) hoth hmem (by simp [Meter.shiftBytes])
  · intro _
    rw [cAssert_pos (by simp only [Pool.release, shift_idle, shift_alloc]; omega)]
    exact h.shift hp rfl (by simp) (by omega) hoth hmem (by simp [Meter.shiftBytes])

lemma Inv.destroy (h : Inv s) (he : enabled s (.destroy p)) (hc : orderly product s (.destroy p)) :
    Ends (fun _ => False) Inv (memPoolDestroy s p) := by
  have hpre : s.live p ∧ ∀ obj ∈ s.objects, obj.1 ≠ p := by simpa [enabled] using he
  obtain ⟨pool, hp⟩ := live_iff.mp hpre.1
  have hsta : pool.pstack = [] := by simpa [orderly, hp] using hc
  obtain ⟨⟨hall, hidle, -⟩, hinuse⟩ := h.counts p pool hp
  have hunu : objectCount s.objects p = 0 := countP_eq_zero.mpr fun obj hobj => by simpa using hpre.2 obj hobj
  rw [hsta, length_nil] at hidle
  -- all levels of the pool are zero
  have hemp : pool.meter = ⟨0, 0, 0⟩ := by
    cases hm : pool.meter
    simp only [hm, Meter.mk.injEq] at hall hidle hinuse ⊢
    omega
  unfold memPoolDestroy
  simp only [pool_eq_ok hp]
  refine h.set hp (by simp) (fun _ _ => rfl) (fun obj hobj => ⟨h.live obj hobj, fun heq => absurd heq (hpre.2 obj hobj)⟩) ?_
  intro level hlev
  simp [weight, hemp, hlev.zero]

/-! ## Configuring -/

lemma total_idle_eq_zero (h : ∀ pool, some pool ∈ pools → pool.meter.idle = 0) : total Meter.idle pools = 0 := by
  apply sum_eq_zero
  intro w hw
  obtain ⟨slot, hslot, rfl⟩ := mem_map.mp hw
  cases slot with
  | none => rfl
  | some pool => simp [weight, h pool hslot]

lemma memShrink_live (h : Inv s) (hlive : none ∉ s.pools) (limit : ℕ) :
    ∃ pools m, memShrink product s limit = .ok { s with pools := pools, theMeter := m } ∧ Shrunk s.pools s.theMeter pools m ∧
      m.idle ≤ limit := by
  obtain ⟨pools₁, m₁, hpha₁, hshr₁, -⟩ := shrinkPhase_live .bounds (share product s.theMeter.idle.toNat limit) limit
    hlive h.balanced s.theMeter
  have hbalanced₁ := hshr₁.balanced h.balanced
  obtain ⟨pools₂, m₂, hpha₂, hshr₂, hdone⟩ := shrinkPhase_live .assertion (fun _ => 0) limit
    (hshr₁.none_notMem hlive) hbalanced₁ m₁
  have hshr := hshr₁.trans hshr₂
  have hidle : m₂.idle ≤ limit := by
    refine hdone.elim id fun hzero => ?_
    have hall : total Meter.idle pools₂ = 0 := total_idle_eq_zero fun pool hpool => by
      obtain ⟨_, hle⟩ := hzero pool hpool
      have hnn := (hshr₂.balanced hbalanced₁ pool hpool).idle_eq
      omega
    have hgap := hshr.gap _ isLevel_idle
    have hsum := h.metered _ isLevel_idle
    omega
  refine ⟨pools₂, m₂, ?_, hshr, hidle⟩
  unfold memShrink
  simp only [hpha₁, hpha₂, ok_bind, cAssert_pos hidle]
  rfl

/-- The limit is met before a `NULL` slot is reached. -/
theorem memShrink_meetsLimit (h : Inv s) (hmee : meetsLimit product s limit) :
    ∃ pools m, memShrink product s limit = .ok { s with pools := pools, theMeter := m } ∧ Shrunk s.pools s.theMeter pools m ∧
      m.idle ≤ limit := by
  have hsome : none ∉ s.pools.takeWhile Option.isSome := fun hmem => by
    simpa using mem_takeWhile_imp hmem
  have hbef : ∀ pool, some pool ∈ s.pools.takeWhile Option.isSome → pool.Balanced := fun pool hpool =>
    h.balanced pool ((List.takeWhile_prefix _).subset hpool)
  obtain ⟨pools₁, m₁, hpha, hshr, -⟩ := shrinkPhase_live .bounds (share product s.theMeter.idle.toNat limit) limit
    hsome hbef s.theMeter
  have hidle : m₁.idle ≤ limit := by simpa [meetsLimit, hpha] using hmee
  have hwho := shrinkPhase_append hpha hidle (s.pools.dropWhile Option.isSome)
  have hall := hshr.append (s.pools.dropWhile Option.isSome)
  rw [takeWhile_append_dropWhile] at hwho hall
  refine ⟨_, m₁, ?_, hall, hidle⟩
  unfold memShrink
  simp only [hwho, ok_bind, shrinkPhase_of_le hidle, cAssert_pos hidle]
  rfl

lemma Inv.shrunk (h : Inv s) (hshr : Shrunk s.pools s.theMeter pools m) (limit : ℕ) :
    Inv { s with pools := pools, theMeter := m, memIdleLimit := limit } := by
  refine ⟨?_, ?_, ?_⟩
  · intro p pool' hp
    have hrel := hshr.getElem? p
    rw [show pools[p]? = some (some pool') from hp] at hrel
    generalize hbef : s.pools[p]? = before at hrel
    cases hrel with
    | some hslot =>
      cases hslot with
      | pool _ hinuse hbalanced =>
        obtain ⟨hpool, hcou⟩ := h.counts p _ hbef
        exact ⟨hbalanced hpool, hinuse.trans hcou⟩
  · intro obj hobj
    obtain ⟨pool, hpool⟩ := live_iff.mp (h.live obj hobj)
    have hrel := hshr.getElem? obj.1
    rw [hpool] at hrel
    generalize haft : pools[obj.1]? = after at hrel
    cases hrel with
    | some hslot =>
      cases hslot with
      | pool => exact live_iff.mpr ⟨_, haft⟩
  · intro level hlev
    have hsum := h.metered level hlev
    have hgap := hshr.gap level hlev
    show level m = total level pools
    omega

lemma Inv.configure {memPools : Bool} {limit : ℤ} (h : Inv s) (hc : orderly product s (.configure memPools limit)) :
    Ends (fun _ => False) Inv (memConfigure product s (poolLimit memPools limit)) := by
  have hcas : s.theMeter.idle ≤ poolLimit memPools limit ∨ none ∉ s.pools ∨
      meetsLimit product s (poolLimit memPools limit) = true := by
    simpa [orderly, or_assoc] using hc
  unfold memConfigure shrinkIfNeeded
  by_cases hnee : (poolLimit memPools limit : ℤ) < s.theMeter.idle
  · rw [if_pos hnee]
    have hshr : ∃ pools m, memShrink product s (poolLimit memPools limit) = .ok { s with pools := pools, theMeter := m } ∧
        Shrunk s.pools s.theMeter pools m ∧ m.idle ≤ poolLimit memPools limit := by
      rcases hcas with hle | hlive | hmee
      · omega
      · exact memShrink_live h hlive _
      · exact memShrink_meetsLimit h hmee
    obtain ⟨pools, m, heq, hshru, hidle⟩ := hshr
    rw [heq, ok_bind, cAssert_pos hidle]
    exact h.shrunk hshru _
  · rw [if_neg hnee, ok_bind, cAssert_pos (by omega)]
    exact h.shrunk (.refl _ _) _

/-! ## Runs -/

lemma Inv.init : Inv State.init where
  counts := fun _ _ hp => by simp [State.init] at hp
  live := fun _ hobj => absurd hobj not_mem_nil
  metered := fun level hlev => hlev.zero

lemma Inv.step {e : Event} (h : Inv s) (he : enabled s e) (hc : orderly product s e) :
    Ends (fun _ => False) Inv (MemPool.step product s e) := by
  cases e with
  | create objSize => exact h.create (by simpa [enabled] using he)
  | alloc p => exact h.alloc he
  | free p obj => exact h.free (by simpa [enabled] using he)
  | configure memPools limit => exact h.configure hc
  | destroy p => exact h.destroy he hc

lemma inv_of_reached {es : List Event} (h : (machine product).Reached (orderly product) es s) : Inv s := by
  induction h with
  | init => exact .init
  | next e _ he hc hstep ih => exact (ih.step he hc).ok_of_eq hstep

/-- In a run whose steps are orderly, each pool is balanced, `TheMeter` is the sum over the pools, and every orderly
step succeeds. -/
theorem metered_of_reached {es : List Event} (h : (machine product).Reached (orderly product) es s) :
    (∀ pool, some pool ∈ s.pools → pool.meter.alloc = pool.meter.inuse + pool.meter.idle ∧
      pool.meter.idle = pool.pstack.length) ∧
    s.theMeter = ⟨total Meter.alloc s.pools, total Meter.inuse s.pools, total Meter.idle s.pools⟩ ∧
    ∀ e, enabled s e → orderly product s e → ∃ s', step product s e = .ok s' := by
  have hinv := inv_of_reached h
  refine ⟨fun pool hpool => ⟨(hinv.balanced pool hpool).alloc_eq, (hinv.balanced pool hpool).idle_eq⟩, ?_, ?_⟩
  · rw [← hinv.metered _ isLevel_alloc, ← hinv.metered _ isLevel_inuse, ← hinv.metered _ isLevel_idle]
  · intro e he hc
    have hend := hinv.step he hc
    cases hs : step product s e with
    | ok s' => exact ⟨s', rfl⟩
    | error f =>
      rw [hs] at hend
      exact hend.elim

/-! A pool with objects of ten bytes. -/

/-- One object is kept idle, another is in use. -/
def keptRun : List Event := [.configure true 100, .create 10, .alloc 0, .alloc 0, .free 0 0]

theorem metered_keptRun : ∃ s, (machine (· * ·)).Reached (orderly (· * ·)) keptRun s ∧ s.theMeter = ⟨20, 10, 10⟩ ∧
    s.theMeter = ⟨total Meter.alloc s.pools, total Meter.inuse s.pools, total Meter.idle s.pools⟩ := by
  obtain ⟨s, hs, hmet⟩ := (machine (· * ·)).exists_reached (orderly (· * ·)) keptRun
    (fun s => s.theMeter = ⟨20, 10, 10⟩) (by decide)
  exact ⟨s, hs, hmet, (metered_of_reached hs).2.1⟩

/-- The pool is destroyed with its object idle. -/
def destroyedRun : List Event := [.configure true 100, .create 10, .alloc 0, .free 0 0, .destroy 0]

/-- `TheMeter` still counts the object, and shrinking reads the pool that is gone. -/
theorem not_metered_destroyedRun :
    ¬ (∀ (es : List Event) (s : State), (machine (· * ·)).Reached (fun _ _ => true) es s →
      s.theMeter = ⟨total Meter.alloc s.pools, total Meter.inuse s.pools, total Meter.idle s.pools⟩) ∧
    ¬ (∀ (es : List Event) (s : State), (machine (· * ·)).Reached (fun _ _ => true) es s →
      ∀ e, enabled s e → ∃ s', step (· * ·) s e = .ok s') := by
  obtain ⟨s, hs, hmet, hstep⟩ := (machine (· * ·)).exists_reached (fun _ _ => true) destroyedRun
    (fun s => s.theMeter ≠ ⟨total Meter.alloc s.pools, total Meter.inuse s.pools, total Meter.idle s.pools⟩ ∧
      (step (· * ·) s (.configure false 0)).isOk = false) (by decide)
  refine ⟨fun hall => hmet (hall _ s hs), fun hall => ?_⟩
  obtain ⟨s', hs'⟩ := hall _ s hs (.configure false 0) rfl
  rw [hs'] at hstep
  cases hstep

end SquidVideoCache.MemPool
