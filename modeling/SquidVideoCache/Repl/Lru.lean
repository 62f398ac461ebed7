import SquidVideoCache.Lib.Dlink
import Mathlib.Data.Set.Finite.List

/-!
# The LRU removal policy, store_repl_lru.c

The policy keeps its entries in a doubly linked list, the one that was referenced last at the tail. An entry has a policy
node with a pointer to its node in the list. A purge walker takes nodes from the list to find entries that are not
locked; a node that is locked is put back at the tail. The walker knows its end by the node it started with.
-/

namespace SquidVideoCache.Lru
open Lib Function List

variable {Entry : Type}

structure LruPolicyData (Entry : Type) where
  list : Dlink Entry
  count : ℤ
  /-- `node->data` of the policy node of an entry -/
  policyNode : Entry → Option ℕ

section
variable [DecidableEq Entry]

/-- The node is at address `a`, which `memPoolAlloc` returns. -/
def lruAdd (a : ℕ) (entry : Entry) (lru : LruPolicyData Entry) : Exec (LruPolicyData Entry) := do
  cAssert (lru.policyNode entry = none)
  let list ← dlinkAddTail entry a { lru.list with mem := update lru.list.mem a (some ⟨entry, none, none⟩) }
  pure ⟨list, lru.count + 1, update lru.policyNode entry (some a)⟩

/-- A node in the list always has its data. -/
def lruRemove (entry : Entry) (lru : LruPolicyData Entry) : Exec (LruPolicyData Entry) :=
  match lru.policyNode entry with
  | none => .ok lru
  | some a => do
    let node ← nodeAt lru.list.mem a
    cAssert (node.data = entry)
    let list ← dlinkDelete a lru.list
    pure ⟨{ list with mem := update list.mem a none }, lru.count - 1, update lru.policyNode entry none⟩

def lruReferenced (entry : Entry) (lru : LruPolicyData Entry) : Exec (LruPolicyData Entry) :=
  match lru.policyNode entry with
  | none => .ok lru
  | some a => do
    let list ← dlinkDelete a lru.list
    let list ← dlinkAddTail entry a list
    pure { lru with list := list }

/-! ## The purge walker -/

structure RemovalPurgeWalker (Entry : Type) where
  lru : LruPolicyData Entry
  current : Option ℕ
  start : Option ℕ
  scanned : ℤ
  maxScan : ℤ
  locked : ℤ
  /-- the nodes that have been looked at -/
  examined : List ℕ

def lruPurgeInit (lru : LruPolicyData Entry) (maxScan : ℤ) : RemovalPurgeWalker Entry :=
  ⟨lru, lru.list.head, lru.list.head, 0, maxScan, 0, []⟩

/-- The next node is taken from the list, and the walker moves on. -/
def lruScan (w : RemovalPurgeWalker Entry) (a : ℕ) : Exec (Entry × RemovalPurgeWalker Entry) := do
  let node ← nodeAt w.lru.list.mem a
  let list ← dlinkDelete a w.lru.list
  pure (node.data, { w with
    scanned := w.scanned + 1
    current := if node.next = w.start then none else node.next
    lru := { w.lru with list := list }
    examined := w.examined ++ [a] })

/-- The node of an entry that is not locked is freed. -/
def freeNode (w : RemovalPurgeWalker Entry) (a : ℕ) (entry : Entry) : RemovalPurgeWalker Entry :=
  { w with lru := ⟨{ w.lru.list with mem := update w.lru.list.mem a none }, w.lru.count - 1,
    update w.lru.policyNode entry none⟩ }

variable (isLocked : Entry → Bool)

/-- The number bounds the jumps to `try_again`. -/
def lruPurgeNext : ℕ → RemovalPurgeWalker Entry → Exec (Option Entry × RemovalPurgeWalker Entry)
  | 0, _ => .error .diverges
  | k + 1, w =>
    match w.current with
    | none => .ok (none, w)
    | some a =>
      if w.maxScan ≤ w.scanned then .ok (none, w)
      else do
        let r ← lruScan w a
        if isLocked r.1 then do
          let list ← dlinkAddTail r.1 a r.2.lru.list
          lruPurgeNext k { r.2 with lru := { r.2.lru with list := list }, locked := r.2.locked + 1 }
        else pure (some r.1, freeNode r.2 a r.1)

/-- The entries that the walker returns before NULL. Each call scans a node at least. -/
def lruPurgeAll : ℕ → RemovalPurgeWalker Entry → Exec (List Entry × RemovalPurgeWalker Entry)
  | 0, _ => .error .diverges
  | n + 1, w => do
    let r ← lruPurgeNext isLocked ((w.maxScan - w.scanned).toNat + 1) w
    match r.1 with
    | none => pure ([], r.2)
    | some entry => do
      let rest ← lruPurgeAll n r.2
      pure (entry :: rest.1, rest.2)

def lruPurge (maxScan : ℤ) (lru : LruPolicyData Entry) : Exec (List Entry × RemovalPurgeWalker Entry) :=
  lruPurgeAll isLocked (maxScan.toNat + 1) (lruPurgeInit lru maxScan)

end

/-! ## The list -/

/-- The nodes of the list are those of the entries. -/
structure LruOk (lru : LruPolicyData Entry) (l : List (ℕ × Entry)) : Prop where
  list : IsList lru.list l
  count : lru.count = l.length
  nodes : ∀ entry a, lru.policyNode entry = some a ↔ (a, entry) ∈ l

variable {lru : LruPolicyData Entry} {l r : List (ℕ × Entry)} {a : ℕ} {entry : Entry}

lemma LruOk.entry_inj (h : LruOk lru l) {b : ℕ} (ha : (a, entry) ∈ l) (hb : (b, entry) ∈ l) : a = b := by
  rw [← h.nodes] at ha hb
  exact Option.some.inj (ha.symm.trans hb)

lemma LruOk.mem_order (h : LruOk lru l) : entry ∈ l.map Prod.snd ↔ lru.policyNode entry ≠ none := by
  simp [← h.nodes, Option.ne_none_iff_exists']

lemma LruOk.delete (h : LruOk lru (l ++ (a, entry) :: r)) :
    ∃ list, dlinkDelete a lru.list = .ok list ∧ IsList list (l ++ r) ∧ list.mem a = some ⟨entry, none, none⟩ ∧
      a ∉ (l ++ r).map Prod.fst ∧ ∀ entry' b, (b, entry') ∈ l ++ r ↔ entry' ≠ entry ∧ lru.policyNode entry' = some b := by
  obtain ⟨list, heq, hlist, hnode, -⟩ := h.list.delete
  have hnod := h.list.nodup
  rw [map_append, map_cons, nodup_middle, nodup_cons, ← map_append] at hnod
  refine ⟨list, heq, hlist, hnode, hnod.1, fun entry' b => ?_⟩
  have hmem : ∀ x, x ∈ l ++ (a, entry) :: r ↔ x = (a, entry) ∨ x ∈ l ++ r := by
    intro x
    simp only [mem_append, mem_cons]
    tauto
  rw [h.nodes, hmem, Prod.mk.injEq]
  constructor
  · intro hb
    refine ⟨?_, .inr hb⟩
    rintro rfl
    have hba := h.entry_inj ((hmem _).2 (.inr hb)) ((hmem _).2 (.inl rfl))
    exact hnod.1 (hba ▸ mem_map_of_mem hb)
  · rintro ⟨hne, ⟨-, heq⟩ | hb⟩
    · exact absurd heq hne
    · exact hb

variable [DecidableEq Entry]

section

variable (h : LruOk lru (l ++ (a, entry) :: r))

include h

/-- The node of an entry is freed. -/
theorem LruOk.drop :
    ∃ list, dlinkDelete a lru.list = .ok list ∧ LruOk ⟨{ list with mem := update list.mem a none }, lru.count - 1,
      update lru.policyNode entry none⟩ (l ++ r) := by
  obtain ⟨list, heq, hlist, -, hnot, hnod⟩ := h.delete
  refine ⟨list, heq, hlist.update hnot none, ?_, fun entry' b => ?_⟩
  · change lru.count - 1 = _
    rw [h.count, length_append, length_append, length_cons]
    omega
  · rw [hnod]
    by_cases he : entry' = entry
    · simp [he]
    · simp [he]

lemma LruOk.moveTail :
    ∃ list list', dlinkDelete a lru.list = .ok list ∧ dlinkAddTail entry a list = .ok list' ∧
      LruOk { lru with list := list' } (l ++ r ++ [(a, entry)]) := by
  have hnode := (h.nodes entry a).2 (by simp)
  obtain ⟨list, heq, hlist, hmem, hnot, hnod⟩ := h.delete
  obtain ⟨list', heq', hlist', -⟩ := hlist.addTail hnot (by simp [hmem]) entry
  refine ⟨list, list', heq, heq', hlist', ?_, fun entry' b => ?_⟩
  · simp only [h.count, length_append, length_cons, length_nil]
    omega
  · rw [mem_append, hnod]
    by_cases he : entry' = entry
    · simp [he, hnode, eq_comm]
    · simp [he]

end

/-! ## Runs -/

/-- `memPoolAlloc` returns an address that is not in use. -/
structure Pool where
  alloc : Set ℕ → ℕ
  alloc_free : ∀ used, used.Finite → alloc used ∉ used

instance : Nonempty Pool := by
  choose! alloc hfree using fun (used : Set ℕ) (hfin : used.Finite) => hfin.exists_notMem
  exact ⟨alloc, hfree⟩

/-- A call of a removal policy. -/
inductive Call (Entry : Type)
  | add (entry : Entry)
  | remove (entry : Entry)
  | referenced (entry : Entry)

def Call.apply (pool : Pool) (lru : LruPolicyData Entry) : Call Entry → Exec (LruPolicyData Entry)
  | .add entry => lruAdd (pool.alloc {a | some a ∈ Set.range lru.policyNode}) entry lru
  | .remove entry => lruRemove entry lru
  | .referenced entry => lruReferenced entry lru

/-- What the policy is for: the entries in the order of their last use. -/
def Call.order (order : List Entry) : Call Entry → Exec (List Entry)
  | .add entry => do
    cAssert (entry ∉ order)
    pure (order ++ [entry])
  | .remove entry => .ok (order.erase entry)
  | .referenced entry => .ok (if entry ∈ order then order.erase entry ++ [entry] else order)

/-- The list of the policy spells the order. -/
def Orders (lru : LruPolicyData Entry) (order : List Entry) : Prop := ∃ l, LruOk lru l ∧ l.map Prod.snd = order

section

variable (h : LruOk lru l)

include h

lemma LruOk.split (hnode : lru.policyNode entry = some a) : ∃ l₁ l₂, l = l₁ ++ (a, entry) :: l₂ ∧
    (l.map Prod.snd).erase entry = (l₁ ++ l₂).map Prod.snd := by
  obtain ⟨l₁, l₂, rfl⟩ := append_of_mem ((h.nodes entry a).1 hnode)
  obtain ⟨-, -, -, -, -, hmem⟩ := h.delete
  have hnot : entry ∉ l₁.map Prod.snd := by
    simpa using fun b hb => ((hmem entry b).1 (mem_append_left _ hb)).1 rfl
  exact ⟨l₁, l₂, rfl, by simp [erase_append_right _ hnot]⟩

lemma LruOk.add (hnot : a ∉ l.map Prod.fst) :
    Refines Orders (lruAdd a entry lru) ((Call.add entry).order (l.map Prod.snd)) := by
  rw [lruAdd, Call.order]
  cases hnode : lru.policyNode entry with
  | some b => simp [cAssert, h.mem_order, hnode, Refines]
  | none =>
    obtain ⟨list, heq, hlist, -⟩ := (h.list.update hnot (some ⟨entry, none, none⟩)).addTail hnot (by simp) entry
    rw [cAssert_pos rfl, cAssert_pos (by simp [h.mem_order, hnode]), ok_bind, heq]
    refine ⟨l ++ [(a, entry)], ⟨hlist, ?_, fun entry' b => ?_⟩, map_append⟩
    · rw [h.count, length_append]
      rfl
    · rw [mem_append, ← h.nodes]
      by_cases he : entry' = entry
      · simp [he, hnode, eq_comm]
      · simp [he]

lemma LruOk.remove : Refines Orders (lruRemove entry lru) ((Call.remove entry).order (l.map Prod.snd)) := by
  rw [lruRemove, Call.order]
  cases hnode : lru.policyNode entry with
  | none =>
    rw [erase_of_not_mem (by simp [h.mem_order, hnode])]
    exact ⟨l, h, rfl⟩
  | some a =>
    obtain ⟨l₁, l₂, rfl, hord⟩ := h.split hnode
    obtain ⟨p, n, hmem⟩ := h.list.exists_node (x := (a, entry)) (by simp)
    obtain ⟨list, heq, hok⟩ := h.drop
    simp only [nodeAt, hmem, ok_bind, heq, hord]
    exact ⟨_, hok, rfl⟩

lemma LruOk.referenced :
    Refines Orders (lruReferenced entry lru) ((Call.referenced entry).order (l.map Prod.snd)) := by
  rw [lruReferenced, Call.order]
  cases hnode : lru.policyNode entry with
  | none =>
    rw [if_neg (by simp [h.mem_order, hnode])]
    exact ⟨l, h, rfl⟩
  | some a =>
    obtain ⟨l₁, l₂, rfl, hord⟩ := h.split hnode
    obtain ⟨list, list', heq, heq', hok⟩ := h.moveTail
    rw [if_pos (by simp), hord]
    simp only [heq, heq', ok_bind]
    exact ⟨_, hok, map_append⟩

end

/-- In every run, the linked list is the order of last use, and `lru_add` fails for an entry that is in it. -/
theorem lru_refines_order (pool : Pool) (calls : List (Call Entry)) :
    Refines Orders (calls.foldlM (Call.apply pool) ⟨⟨fun _ => none, none, none⟩, 0, fun _ => none⟩)
      (calls.foldlM Call.order []) := by
  apply refines_foldlM
  · rintro call lru order ⟨l, hok, rfl⟩
    cases call with
    | add entry =>
      have hused : {a | some a ∈ Set.range lru.policyNode} = {a | a ∈ l.map Prod.fst} := by simp [hok.nodes]
      rw [Call.apply, hused]
      exact hok.add (pool.alloc_free _ (finite_toSet _))
    | remove entry => exact hok.remove
    | referenced entry => exact hok.referenced
  · exact ⟨[], ⟨⟨nodup_nil, rfl, rfl, trivial⟩, rfl, by simp⟩, rfl⟩

end SquidVideoCache.Lru
