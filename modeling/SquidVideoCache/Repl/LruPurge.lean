import SquidVideoCache.Repl.Lru

/-!
# Purge walks over an LRU list

A walk takes nodes from the head of the list. On the list it is a rotation that drops the entries
that are not locked, and stops when the next node is the one it started with.
-/

namespace SquidVideoCache.Lru
open Lib List Prod Option

variable {Entry : Type} {isLocked : Entry → Bool} {start : Option ℕ} {k : ℕ} {l : List (ℕ × Entry)} {x : ℕ × Entry}

/-! ## Rotations -/

/-- The entries that are dropped, the nodes that are looked at and the list that is left, with `k` scans to go. -/
def scans (isLocked : Entry → Bool) (start : Option ℕ) : ℕ → List (ℕ × Entry) → List Entry × List ℕ × List (ℕ × Entry)
  | 0, l => ([], [], l)
  | _ + 1, [] => ([], [], [])
  | k + 1, x :: l =>
    let left := if isLocked x.2 then l ++ [x] else l
    let rest := if firstAddr l = start ∨ firstAddr l = none then ([], [], left) else scans isLocked start k left
    (if isLocked x.2 then rest.1 else x.2 :: rest.1, x.1 :: rest.2.1, rest.2.2)

lemma scans_locked (start : Option ℕ) (k : ℕ) (hl : ∀ x ∈ l, isLocked x.2 = true) :
    (scans isLocked start k l).1 = [] ∧ (scans isLocked start k l).2.2.Perm l := by
  induction k generalizing l with
  | zero => exact ⟨rfl, .refl l⟩
  | succ k ih =>
    cases l with
    | nil => exact ⟨rfl, .refl []⟩
    | cons x l =>
      obtain ⟨hx, hl⟩ := forall_mem_cons.1 hl
      have hperm : (l ++ [x]).Perm (x :: l) := perm_append_singleton x l
      rw [scans]
      split_ifs
      · exact ⟨rfl, hperm⟩
      · have hnext := ih (l := l ++ [x]) (by simpa [or_imp, forall_and, hx] using hl)
        exact ⟨hnext.1, hnext.2.trans hperm⟩

/-- The first pass. The entries that have been moved before follow those that are still to be looked at. -/
theorem scans_pass (isLocked : Entry → Bool) (start : Option ℕ) {todo : List (ℕ × Entry)} (moved : List (ℕ × Entry))
    (htodo : todo ≠ []) (hstart : ∀ x ∈ todo.tail, some x.1 ≠ start) (hk : todo.length ≤ k) :
    scans isLocked start k (todo ++ moved) = let left := moved ++ todo.filter fun x => isLocked x.2
      let next := firstAddr (moved ++ todo.dropLast.filter fun x => isLocked x.2)
      let rest := if next = start ∨ next = none then ([], [], left) else scans isLocked start (k - todo.length) left
      ((todo.map snd).filter (fun e => !isLocked e) ++ rest.1, todo.map fst ++ rest.2.1, rest.2.2) := by
  induction todo generalizing moved k with
  | nil => exact absurd rfl htodo
  | cons x todo ih =>
    obtain ⟨k, rfl⟩ : ∃ j, k = j + 1 := ⟨k - 1, by rw [length_cons] at hk; omega⟩
    have hleft : ∀ l : List (ℕ × Entry), (if isLocked x.2 = true then l ++ [x] else l) = l ++ [x].filter fun x => isLocked x.2 := by
      intro l
      by_cases hx : isLocked x.2 = true
      · simp [hx]
      · simp [hx]
    have hretu : ∀ es : List Entry, (if isLocked x.2 = true then es else x.2 :: es) =
        [x.2].filter (fun e => !isLocked e) ++ es := by
      intro es
      by_cases hx : isLocked x.2 = true
      · simp [hx]
      · simp [hx]
    rw [cons_append, scans]
    simp only [hleft, hretu]
    cases todo with
    | nil => simp
    | cons y todo =>
      have hnext : ¬(firstAddr (y :: todo ++ moved) = start ∨ firstAddr (y :: todo ++ moved) = none) := by
        rintro (h | h)
        · exact hstart y mem_cons_self h
        · simp at h
      have hrest := ih (moved ++ [x].filter fun x => isLocked x.2) (by simp)
        (fun z hz => hstart z (mem_of_mem_tail hz)) (by simpa using hk)
      have hfil : ∀ l : List (ℕ × Entry), ((x :: l).filter fun x => isLocked x.2) =
          ([x].filter fun x => isLocked x.2) ++ l.filter fun x => isLocked x.2 := fun l => filter_append [x] l
      have hentr : (((x :: y :: todo).map snd).filter fun e => !isLocked e) =
          ([x.2].filter fun e => !isLocked e) ++ ((y :: todo).map snd).filter fun e => !isLocked e :=
        filter_append [x.2] _
      have hlength : k + 1 - (x :: y :: todo).length = k - (y :: todo).length := by
        simp only [length_cons]
        omega
      rw [if_neg hnext, append_assoc, hrest, hlength, dropLast_cons_cons, hfil (y :: todo),
        hfil (y :: todo).dropLast, hentr]
      simp

/-- The walk stops after the first pass if the first entry is locked, or if none but the last one is. -/
theorem stops_iff (hnod : x.1 ∉ l.map fst) :
    (firstAddr ((x :: l).dropLast.filter fun x => isLocked x.2) = some x.1 ∨
      firstAddr ((x :: l).dropLast.filter fun x => isLocked x.2) = none) ↔
    isLocked x.2 = true ∨ ∀ y ∈ (x :: l).dropLast, isLocked y.2 = false := by
  cases l with
  | nil => simp
  | cons y l =>
    by_cases hx : isLocked x.2 = true
    · simp [hx]
    · have hne : firstAddr ((y :: l).dropLast.filter fun x => isLocked x.2) ≠ some x.1 := by
        intro h
        obtain ⟨z, hz, hzx⟩ := map_eq_some_iff.1 h
        have hmem := mem_of_mem_dropLast (mem_of_mem_filter (mem_of_head? hz))
        exact hnod (hzx ▸ mem_map_of_mem hmem)
      have hnone : firstAddr ((y :: l).dropLast.filter fun x => isLocked x.2) = none ↔
          ∀ z ∈ (y :: l).dropLast, isLocked z.2 = false := by
        rw [firstAddr, map_eq_none_iff, head?_eq_none_iff, filter_eq_nil_iff]
        simp
      simp [hne, hnone, hx]

lemma scans_spec (isLocked : Entry → Bool) (hnod : (l.map fst).Nodup) (hk : l.length ≤ k) :
    (scans isLocked (firstAddr l) k l).1 = (l.map snd).filter (fun e => !isLocked e) ∧
    (scans isLocked (firstAddr l) k l).2.2.Perm (l.filter fun x => isLocked x.2) ∧
    ((scans isLocked (firstAddr l) k l).2.1.Nodup ↔
      k = l.length ∨ (∃ x ∈ l.head?, isLocked x.2 = true) ∨ ∀ x ∈ l.dropLast, isLocked x.2 = false) := by
  cases l with
  | nil =>
    cases k with
    | zero => simp [scans]
    | succ k => simp [scans]
  | cons x l =>
    have hx := (nodup_cons.1 hnod).1
    have hpass := scans_pass isLocked (firstAddr (x :: l)) [] (cons_ne_nil x l) (fun y hy heq => ?_) hk
    · have hloc : ∀ y ∈ (x :: l).filter fun x => isLocked x.2, isLocked y.2 = true := fun y hy => (mem_filter.1 hy).2
      obtain ⟨hnone, hperm⟩ := scans_locked _ _ hloc
      rw [append_nil] at hpass
      simp only [nil_append, firstAddr_cons, stops_iff hx] at hpass
      rw [firstAddr_cons, hpass]
      by_cases hstop : isLocked x.2 = true ∨ ∀ y ∈ (x :: l).dropLast, isLocked y.2 = false
      · rw [if_pos hstop]
        refine ⟨append_nil _, .refl _, fun _ => .inr (hstop.imp_left fun h => ⟨x, rfl, h⟩), fun _ => ?_⟩
        simpa using hnod
      · rw [if_neg hstop]
        refine ⟨by rw [hnone, append_nil], hperm, fun hnod' => ?_, fun h => ?_⟩
        · by_contra hcond
          obtain ⟨j, hj⟩ : ∃ j, k - (x :: l).length = j + 1 := ⟨k - (x :: l).length - 1, by omega⟩
          -- the first of the locked entries is looked at again
          obtain ⟨y, hy, hylo⟩ : ∃ y ∈ (x :: l).dropLast, isLocked y.2 = true := by
            by_contra hnot
            exact hstop (.inr fun y hy => by simpa using fun h => hnot ⟨y, hy, h⟩)
          have hmem : y ∈ (x :: l).filter fun x => isLocked x.2 := mem_filter.2 ⟨mem_of_mem_dropLast hy, hylo⟩
          obtain ⟨z, left, hleft⟩ := exists_cons_of_ne_nil (ne_nil_of_mem hmem)
          have hz : z ∈ x :: l := mem_of_mem_filter (hleft ▸ mem_cons_self)
          rw [hj, hleft] at hnod'
          exact (nodup_append.1 hnod').2.2 z.1 (mem_map_of_mem hz) z.1 mem_cons_self rfl
        · have hlength : k - (x :: l).length = 0 := by
            rcases h with h | ⟨y, hy, hylo⟩ | h
            · omega
            · exact absurd (.inl (some.inj hy ▸ hylo)) hstop
            · exact absurd (.inr h) hstop
          rw [hlength, scans]
          simpa using hnod
    · exact hx (some.inj heq ▸ mem_map_of_mem hy)

/-! ## The walker -/

variable {w w' : RemovalPurgeWalker Entry} {left : List (ℕ × Entry)}

lemma lruScan_eq (h : LruOk w.lru (x :: l)) {list : Dlink Entry} (hdel : dlinkDelete x.1 w.lru.list = .ok list) :
    lruScan w x.1 = .ok (x.2, { w with
      scanned := w.scanned + 1
      current := if firstAddr l = w.start then none else firstAddr l
      lru := { w.lru with list := list }
      examined := w.examined ++ [x.1] }) := by
  rw [lruScan, h.list.nodeAt_eq, hdel]
  rfl

/-- The walker after it has looked at the node `x` before the nodes `l`, with the list that is left. -/
structure Scanned (w : RemovalPurgeWalker Entry) (x : ℕ × Entry) (l left : List (ℕ × Entry))
    (w' : RemovalPurgeWalker Entry) : Prop where
  lru : LruOk w'.lru left
  current : w'.current = if firstAddr l = w.start then none else firstAddr l
  start : w'.start = w.start
  maxScan : w'.maxScan = w.maxScan
  scanned : w'.scanned = w.scanned + 1
  examined : w'.examined = w.examined ++ [x.1]

lemma Scanned.current_none (h : Scanned w x l left w') (hstop : firstAddr l = w.start ∨ firstAddr l = none) :
    w'.current = none := by
  rw [h.current]
  split_ifs with hs
  · rfl
  · exact hstop.resolve_left hs

variable [DecidableEq Entry]

lemma lruPurgeAll_none (isLocked : Entry → Bool) (n : ℕ) (h : w.current = none) :
    lruPurgeAll isLocked (n + 1) w = .ok ([], w) := by
  rw [lruPurgeAll, lruPurgeNext, h]
  rfl

section

variable (h : LruOk w.lru (x :: l)) (hcurrent : w.current = some x.1) (hscan : w.scanned < w.maxScan)

include h hcurrent hscan

lemma lruPurgeNext_locked (hloc : isLocked x.2 = true) (k : ℕ) :
    ∃ w', lruPurgeNext isLocked (k + 1) w = lruPurgeNext isLocked k w' ∧ Scanned w x l (l ++ [x]) w' := by
  obtain ⟨list, list', heq, heq', hok⟩ := LruOk.moveTail (l := []) h
  refine ⟨{ w with
    scanned := w.scanned + 1
    current := if firstAddr l = w.start then none else firstAddr l
    lru := { w.lru with list := list' }
    locked := w.locked + 1
    examined := w.examined ++ [x.1] }, ?_, hok, rfl, rfl, rfl, rfl, rfl⟩
  rw [lruPurgeNext, hcurrent]
  simp [if_neg (not_le.2 hscan), lruScan_eq h heq, hloc, heq']

lemma lruPurgeNext_unlocked (hfree : isLocked x.2 = false) (k : ℕ) :
    ∃ w', lruPurgeNext isLocked (k + 1) w = .ok (some x.2, w') ∧ Scanned w x l l w' := by
  obtain ⟨list, heq, hok⟩ := LruOk.drop (l := []) h
  refine ⟨{ w with
    scanned := w.scanned + 1
    current := if firstAddr l = w.start then none else firstAddr l
    lru := ⟨{ list with mem := Function.update _ x.1 none }, w.lru.count - 1,
      Function.update _ x.2 none⟩
    examined := w.examined ++ [x.1] }, ?_, hok, rfl, rfl, rfl, rfl, rfl⟩
  rw [lruPurgeNext, hcurrent]
  simp only [if_neg (not_le.2 hscan), lruScan_eq h heq, ok_bind, hfree]
  rfl

end

lemma lruPurgeAll_eq (isLocked : Entry → Bool) {n : ℕ} (h : LruOk w.lru l) (hcurrent : w.current = firstAddr l)
    (hk : (w.maxScan - w.scanned).toNat = k) (hn : k < n) :
    ∃ w', lruPurgeAll isLocked n w = .ok ((scans isLocked w.start k l).1, w') ∧
      LruOk w'.lru (scans isLocked w.start k l).2.2 ∧ w'.examined = w.examined ++ (scans isLocked w.start k l).2.1 := by
  induction k generalizing n w l with
  | zero =>
    obtain ⟨n, rfl⟩ : ∃ j, n = j + 1 := ⟨n - 1, by omega⟩
    refine ⟨w, ?_, h, by simp [scans]⟩
    rw [lruPurgeAll, lruPurgeNext]
    cases w.current with
    | none => rfl
    | some a =>
      simp only
      rw [if_pos (by omega)]
      rfl
  | succ k ih =>
    obtain ⟨n, rfl⟩ : ∃ j, n = j + 1 := ⟨n - 1, by omega⟩
    cases l with
    | nil => exact ⟨w, lruPurgeAll_none _ n hcurrent, h, by simp [scans]⟩
    | cons x l =>
      have hscan : w.scanned < w.maxScan := by omega
      -- the rest of the walk, with the list that this scan leaves
      have hrest : ∀ {m : ℕ} {w' : RemovalPurgeWalker Entry} {left : List (ℕ × Entry)}, k < m → Scanned w x l left w' →
          (firstAddr l ≠ none → firstAddr left = firstAddr l) →
          let rest := if firstAddr l = w.start ∨ firstAddr l = none then ([], [], left) else scans isLocked w.start k left
          ∃ w'', lruPurgeAll isLocked m w' = .ok (rest.1, w'') ∧ LruOk w''.lru rest.2.2 ∧
            w''.examined = w.examined ++ x.1 :: rest.2.1 := by
        intro m w' left hm hw' hfir
        obtain ⟨m, rfl⟩ : ∃ j, m = j + 1 := ⟨m - 1, by omega⟩
        split_ifs with hstop
        · exact ⟨w', lruPurgeAll_none _ m (hw'.current_none hstop), hw'.lru, hw'.examined⟩
        · rw [not_or] at hstop
          have hnext := hw'.current
          rw [if_neg hstop.1, ← hfir hstop.2] at hnext
          have hall := ih hw'.lru hnext (by rw [hw'.maxScan, hw'.scanned]; omega) hm
          rwa [hw'.start, hw'.examined, append_assoc] at hall
      by_cases hx : isLocked x.2 = true
      · obtain ⟨w', heq, hw'⟩ := lruPurgeNext_locked h hcurrent hscan hx _
        have hall : lruPurgeAll isLocked (n + 1) w = lruPurgeAll isLocked (n + 1) w' := by
          have hfuel : (w'.maxScan - w'.scanned).toNat + 1 = (w.maxScan - w.scanned).toNat := by
            rw [hw'.maxScan, hw'.scanned]
            omega
          rw [lruPurgeAll, lruPurgeAll, heq, hfuel]
        have hfir : firstAddr l ≠ none → firstAddr (l ++ [x]) = firstAddr l := by
          intro hne
          cases l with
          | nil => exact absurd rfl hne
          | cons y l => rfl
        simp only [scans, hx]
        exact hall ▸ hrest (by omega) hw' hfir
      · obtain ⟨w', heq, hw'⟩ := lruPurgeNext_unlocked h hcurrent hscan (by simpa using hx) _
        obtain ⟨w'', hall, hok⟩ := hrest (m := n) (by omega) hw' fun _ => rfl
        simp only [scans, hx]
        refine ⟨w'', ?_, hok⟩
        rw [lruPurgeAll, heq, ok_bind]
        simp only [hall]
        rfl

/-- What a purge walk over a list should do: it looks at each node once, returns the entries that are not locked in the
order of the list, and leaves the others. -/
structure Walked (isLocked : Entry → Bool) (l : List (ℕ × Entry)) (out : List Entry × RemovalPurgeWalker Entry) : Prop where
  once : out.2.examined.Nodup
  returned : out.1 = (l.map snd).filter fun e => !isLocked e
  left : ∃ l', LruOk out.2.lru l' ∧ l'.Perm (l.filter fun x => isLocked x.2)

/-- A walk that may look at more nodes than there are looks at one of them twice, unless the first entry is locked or none
but the last one is. -/
theorem lruPurge_walked_iff (isLocked : Entry → Bool) {lru : LruPolicyData Entry} {maxScan : ℤ} (h : LruOk lru l)
    (hscan : (l.length : ℤ) ≤ maxScan) : ∃ out, lruPurge isLocked maxScan lru = .ok out ∧ (Walked isLocked l out ↔
      maxScan = l.length ∨ (∃ x ∈ l.head?, isLocked x.2 = true) ∨ ∀ x ∈ l.dropLast, isLocked x.2 = false) := by
  have hhead := h.list.head
  obtain ⟨w', heq, hok, hexa⟩ := lruPurgeAll_eq _ (w := lruPurgeInit lru maxScan) (k := maxScan.toNat) h hhead
    (by simp [lruPurgeInit]) (Nat.lt_succ_self _)
  have hstart : (lruPurgeInit lru maxScan).start = firstAddr l := hhead
  rw [hstart] at heq hok hexa
  obtain ⟨hretu, hperm, hnod⟩ := scans_spec _ (k := maxScan.toNat) h.list.nodup (by omega)
  have hexa' : w'.examined = (scans isLocked (firstAddr l) maxScan.toNat l).2.1 := hexa
  have hmax : maxScan.toNat = l.length ↔ maxScan = l.length := by omega
  rw [hmax] at hnod
  refine ⟨_, heq, fun hw => hnod.1 (hexa' ▸ hw.once), fun hcond => ⟨?_, hretu, _, hok, hperm⟩⟩
  exact hexa' ▸ hnod.2 hcond

/-- Three entries, added in this order. -/
def threeEntries : LruPolicyData ℕ where
  list :=
    { mem := fun a => [⟨10, none, some 1⟩, ⟨20, some 0, some 2⟩, ⟨30, some 1, none⟩][a]?
      head := some 0
      tail := some 2 }
  count := 3
  policyNode := fun entry => if entry = 10 then some 0 else if entry = 20 then some 1 else if entry = 30 then some 2 else none

lemma threeEntries_ok : LruOk threeEntries [(0, 10), (1, 20), (2, 30)] := by
  refine ⟨⟨by decide, rfl, rfl, rfl, rfl, rfl, trivial⟩, rfl, fun entry a => ?_⟩
  simp only [threeEntries]
  split_ifs with h₁ h₂ h₃
  · simp [h₁, eq_comm]
  · simp [h₂, eq_comm]
  · simp [h₃, eq_comm]
  · simp [h₁, h₂, h₃]

/-- The first entry is locked. -/
theorem walked_first_locked : ∃ out, lruPurge (fun e => e == 10) 5 threeEntries = .ok out ∧
    Walked (fun e => e == 10) [(0, 10), (1, 20), (2, 30)] out := by
  obtain ⟨out, heq, hiff⟩ := lruPurge_walked_iff (fun e => e == 10) threeEntries_ok (show (3 : ℤ) ≤ 5 by decide)
  exact ⟨out, heq, hiff.2 (.inr (.inl ⟨(0, 10), rfl, rfl⟩))⟩

/-- The first entry is not locked: the node of the second one is looked at twice. -/
theorem middle_locked_twice :
    (lruPurge (fun e => e == 20) 4 threeEntries).map (fun out => (out.1, out.2.examined)) = .ok ([10, 30], [0, 1, 2, 1]) := by
  decide

end SquidVideoCache.Lru
