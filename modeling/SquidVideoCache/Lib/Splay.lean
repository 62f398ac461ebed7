import Mathlib.Algebra.Order.Ring.Int
import Mathlib.Data.List.Induction

/-!
# Top-down splay trees

A search cuts the tree along its path into the part that lies before the data, the part
that lies after it and the node it ends at, which becomes the root. The order of the nodes
never changes. The nodes need not be totally ordered by the comparison: it is enough that
along the tree its sign goes from positive over zero to negative (`Cuts`).

The second half is about trees of intervals of a linear order. Two intervals overlap
exactly if one of them contains the start of the other, and intervals that do not overlap
are in order, so a tree that takes in only such intervals finds every point that lies in one.
-/

namespace SquidVideoCache.Lib
open List

inductive SplayNode (α : Type) where
  | nil
  | node (left : SplayNode α) (data : α) (right : SplayNode α)
  deriving DecidableEq, Repr

namespace SplayNode

variable {α β γ : Type}

def toList : SplayNode α → List α
  | nil => []
  | node left data right => left.toList ++ data :: right.toList

/-- The nodes on the left that have been linked, the last one first, and `t` at their end. -/
def linkLeft : List (SplayNode α × α) → SplayNode α → SplayNode α
  | [], t => t
  | (left, data) :: L, t => linkLeft L (node left data t)

/-- The nodes on the right that have been linked, the last one first, and `t` at their end. -/
def linkRight : List (α × SplayNode α) → SplayNode α → SplayNode α
  | [], t => t
  | (data, right) :: R, t => linkRight R (node t data right)

def assemble (L : List (SplayNode α × α)) (R : List (α × SplayNode α)) (left : SplayNode α) (data : α)
    (right : SplayNode α) : SplayNode α :=
  node (linkLeft L left) data (linkRight R right)

/-- The loop of `splay_splay`; `f` compares the data with that of a node. The tree is not empty. -/
def splayLoop (f : α → ℤ) : SplayNode α → List (SplayNode α × α) → List (α × SplayNode α) → SplayNode α × ℤ
  | nil, _, _ => (nil, -1)
  | node left a right, L, R =>
    if f a < 0 then
      match left with
      | nil => (assemble L R nil a right, f a)
      | node ll b lr =>
        if f b < 0 then
          -- rotate right
          match ll with
          | nil => (assemble L R nil b (node lr a right), f b)
          | node lll c llr => splayLoop f (node lll c llr) L ((b, node lr a right) :: R)
        else splayLoop f (node ll b lr) L ((a, right) :: R)
    else if 0 < f a then
      match right with
      | nil => (assemble L R left a nil, f a)
      | node rl b rr =>
        if 0 < f b then
          -- rotate left
          match rr with
          | nil => (assemble L R (node left a rl) b nil, f b)
          | node rrl c rrr => splayLoop f (node rrl c rrr) ((node left a rl, b) :: L) R
        else splayLoop f (node rl b rr) ((left, a) :: L) R
    else (assemble L R left a right, f a)

/-- The tree with the node the search ends at on top, and the result of the last comparison. -/
def splaySplay (f : α → ℤ) (top : SplayNode α) : SplayNode α × ℤ := splayLoop f top [] []

def splayInsert (compare : α → α → ℤ) (data : α) (top : SplayNode α) : SplayNode α × ℤ :=
  match splaySplay (compare data) top with
  | (nil, result) => (node nil data nil, result)
  | (node left a right, result) =>
    if result < 0 then (node left data (node nil a right), result)
    else if 0 < result then (node (node left a nil) data right, result)
    else (node left a right, result)

/-! ## The order of the nodes -/

def before : List (SplayNode α × α) → List α
  | [] => []
  | (left, data) :: L => before L ++ (left.toList ++ [data])

def after : List (α × SplayNode α) → List α
  | [] => []
  | (data, right) :: R => data :: (right.toList ++ after R)

lemma toList_linkLeft (L : List (SplayNode α × α)) (t : SplayNode α) :
    (linkLeft L t).toList = before L ++ t.toList := by
  induction L generalizing t with
  | nil => rfl
  | cons p L ih => simp [linkLeft, ih, before, toList]

lemma toList_linkRight (R : List (α × SplayNode α)) (t : SplayNode α) :
    (linkRight R t).toList = t.toList ++ after R := by
  induction R generalizing t with
  | nil => simp [linkRight, after]
  | cons p R ih => simp [linkRight, ih, after, toList]

variable {f : α → ℤ} {t left right : SplayNode α} {a : α} {l r : List α} {L : List (SplayNode α × α)}
  {R : List (α × SplayNode α)}

/-- Along the list the comparison says first that the data lies further on, then that it is found,
then that it is passed. -/
def Cuts (f : α → ℤ) (l : List α) : Prop := l.Pairwise fun x y => (0 < f y → 0 < f x) ∧ (f x < 0 → f y < 0)

lemma Cuts.neg (h : Cuts f (l ++ a :: r)) (ha : f a < 0) : ∀ y ∈ a :: r, f y < 0 := by
  have hnode := (pairwise_cons.mp (pairwise_append.mp h).2.1).1
  simp only [mem_cons, forall_eq_or_imp]
  exact ⟨ha, fun y hy => (hnode y hy).2 ha⟩

lemma Cuts.pos (h : Cuts f (l ++ a :: r)) (ha : 0 < f a) : ∀ x ∈ l ++ [a], 0 < f x := by
  have hacr := (pairwise_append.mp h).2.2
  simp only [mem_append, mem_singleton]
  rintro x (hx | rfl)
  · exact (hacr x hx a mem_cons_self).1 ha
  · exact ha

lemma neg_after_cons (ha : ∀ y ∈ a :: right.toList, f y < 0) (hR : ∀ y ∈ after R, f y < 0) :
    ∀ y ∈ after ((a, right) :: R), f y < 0 := by
  exact forall_mem_append.mpr ⟨ha, hR⟩

lemma pos_before_cons (ha : ∀ x ∈ left.toList ++ [a], 0 < f x) (hL : ∀ x ∈ before L, 0 < f x) :
    ∀ x ∈ before ((left, a) :: L), 0 < f x := by
  exact forall_mem_append.mpr ⟨hL, ha⟩

/-- The search ends at a node that has the data, or at a neighbour of the place where it belongs. -/
def Found (f : α → ℤ) (l : List α) (result : SplayNode α × ℤ) : Prop :=
  ∃ left a right, result = (node left a right, f a) ∧ l = left.toList ++ a :: right.toList ∧
    (f a ≠ 0 → (∀ x ∈ left.toList, 0 < f x) ∧ ∀ y ∈ right.toList, f y < 0)

lemma found_assemble (hl : l = before L ++ (node left a right).toList ++ after R)
    (hL : ∀ x ∈ before L, 0 < f x) (hR : ∀ y ∈ after R, f y < 0)
    (hleft : f a ≠ 0 → ∀ x ∈ left.toList, 0 < f x) (hrig : f a ≠ 0 → ∀ y ∈ right.toList, f y < 0) :
    Found f l (assemble L R left a right, f a) := by
  refine ⟨_, a, _, rfl, ?_, fun ha => ?_⟩
  · simp [hl, toList_linkLeft, toList_linkRight, toList]
  · rw [toList_linkLeft, toList_linkRight]
    exact ⟨forall_mem_append.mpr ⟨hL, hleft ha⟩, forall_mem_append.mpr ⟨hrig ha, hR⟩⟩

/-- The induction is on the walk down the tree; what has been linked on the way is on its side of the data. -/
theorem found_splayLoop (hne : t ≠ nil) (hcuts : Cuts f t.toList) (hL : ∀ x ∈ before L, 0 < f x)
    (hR : ∀ y ∈ after R, f y < 0) : Found f (before L ++ t.toList ++ after R) (splayLoop f t L R) := by
  fun_induction splayLoop f t L R
  case case1 => exact absurd rfl hne
  case case2 a right L R ha =>
    apply found_assemble rfl hL hR
    · simp [toList]
    · exact fun _ y hy => hcuts.neg ha y (mem_cons_of_mem a hy)
  case case3 a right L R ha b lr hb =>
    -- the rotation moves `a` below `b`, both of them behind the data
    have hcut : Cuts f ([] ++ b :: (node lr a right).toList) := by simpa [toList] using hcuts
    apply found_assemble (by simp [toList]) hL hR
    · simp [toList]
    · exact fun _ y hy => hcut.neg hb y (mem_cons_of_mem b hy)
  case case4 a right L R ha b lr hb lll c llr ih =>
    have hcut : Cuts f ((node lll c llr).toList ++ b :: (node lr a right).toList) := by
      simpa [toList] using hcuts
    have h := ih nofun (pairwise_append.mp hcut).1 hL (neg_after_cons (hcut.neg hb) hR)
    simpa [toList, after] using h
  case case5 a right L R ha ll b lr hb ih =>
    have hcut : Cuts f ((node ll b lr).toList ++ a :: right.toList) := hcuts
    have h := ih nofun (pairwise_append.mp hcut).1 hL (neg_after_cons (hcut.neg ha) hR)
    simpa [toList, after] using h
  case case6 left a L R _ ha =>
    apply found_assemble rfl hL hR
    · exact fun _ x hx => hcuts.pos ha x (mem_append_left _ hx)
    · simp [toList]
  case case7 left a L R _ ha rl b hb =>
    have hcut : Cuts f ((node left a rl).toList ++ b :: []) := by simpa [toList] using hcuts
    apply found_assemble (by simp [toList]) hL hR
    · exact fun _ x hx => hcut.pos hb x (mem_append_left _ hx)
    · simp [toList]
  case case8 left a L R _ ha rl b hb rrl c rrr ih =>
    have hcut : Cuts f ((node left a rl).toList ++ b :: (node rrl c rrr).toList) := by
      simpa [toList] using hcuts
    have h := ih nofun (pairwise_cons.mp (pairwise_append.mp hcut).2.1).2 (pos_before_cons (hcut.pos hb) hL) hR
    simpa [toList, before] using h
  case case9 left a L R _ ha rl b rr hb ih =>
    have hcut : Cuts f (left.toList ++ a :: (node rl b rr).toList) := hcuts
    have h := ih nofun (pairwise_cons.mp (pairwise_append.mp hcut).2.1).2 (pos_before_cons (hcut.pos ha) hL) hR
    simpa [toList, before] using h
  case case10 left a right L R hneg hpos =>
    have ha : f a = 0 := by omega
    exact found_assemble rfl hL hR (fun h => absurd ha h) (fun h => absurd ha h)

lemma found_splaySplay (hne : t ≠ nil) (hcuts : Cuts f t.toList) : Found f t.toList (splaySplay f t) := by
  have h := found_splayLoop (L := []) (R := []) hne hcuts (by simp [before]) (by simp [after])
  simpa [before, after, splaySplay] using h

lemma toList_splaySplay (hcuts : Cuts f t.toList) : (splaySplay f t).1.toList = t.toList := by
  cases t with
  | nil => rfl
  | node left a right =>
    obtain ⟨left', a', right', heq, hlist, -⟩ := found_splaySplay (by simp) hcuts
    rw [heq, hlist]
    rfl

lemma splaySplay_eq_zero_iff (hcuts : Cuts f t.toList) : (splaySplay f t).2 = 0 ↔ ∃ x ∈ t.toList, f x = 0 := by
  cases t with
  | nil => simp [splaySplay, splayLoop, toList]
  | node left a right =>
    obtain ⟨left', a', right', heq, hlist, hsid⟩ := found_splaySplay (by simp) hcuts
    rw [heq, hlist]
    constructor
    · exact fun h => ⟨a', by simp, h⟩
    · rintro ⟨x, hx, hzero⟩
      by_contra ha
      obtain ⟨hleft, hrig⟩ := hsid ha
      simp only [mem_append, mem_cons] at hx
      rcases hx with hx | rfl | hx
      · exact absurd hzero (hleft x hx).ne'
      · exact ha hzero
      · exact absurd hzero (hrig x hx).ne

lemma splayInsert_cases {compare : α → α → ℤ} (hcuts : Cuts (compare a) t.toList) :
    ((splayInsert compare a t).2 = 0 ∧ (∃ x ∈ t.toList, compare a x = 0) ∧
      (splayInsert compare a t).1.toList = t.toList) ∨ ((splayInsert compare a t).2 ≠ 0 ∧ ∃ l r, t.toList = l ++ r ∧
      (splayInsert compare a t).1.toList = l ++ a :: r ∧ (∀ x ∈ l, 0 < compare a x) ∧ ∀ y ∈ r, compare a y < 0) := by
  cases t with
  | nil => exact .inr ⟨by simp [splayInsert, splaySplay, splayLoop], [], [], rfl, rfl, nofun, nofun⟩
  | node left b right =>
    obtain ⟨left', a', right', heq, hlist, hsid⟩ := found_splaySplay (by simp) hcuts
    simp only [splayInsert, heq]
    rw [hlist]
    split_ifs with hneg hpos
    · obtain ⟨hleft, hrig⟩ := hsid hneg.ne
      refine .inr ⟨hneg.ne, left'.toList, a' :: right'.toList, rfl, by simp [toList], hleft, ?_⟩
      exact forall_mem_cons.mpr ⟨hneg, hrig⟩
    · obtain ⟨hleft, hrig⟩ := hsid hpos.ne'
      refine .inr ⟨hpos.ne', left'.toList ++ [a'], right'.toList, by simp, by simp [toList], ?_, hrig⟩
      exact forall_mem_append.mpr ⟨hleft, by simpa using hpos⟩
    · have hzero : compare a a' = 0 := by omega
      exact .inl ⟨hzero, ⟨a', by simp, hzero⟩, rfl⟩

/-! ## Trees of intervals -/

/-- The comparison of two entries of which each is tried as a point in the other. -/
def compareBoth (cmp : α → α → ℤ) (a b : α) : ℤ := if cmp b a = 0 then 0 else cmp a b

lemma compareBoth_eq_zero_iff {cmp : α → α → ℤ} {a b : α} : compareBoth cmp a b = 0 ↔ cmp a b = 0 ∨ cmp b a = 0 := by
  unfold compareBoth
  split_ifs with h <;> simp [h]

inductive TreeOp (α : Type) where
  | insert (data : α)
  | search (data : α)
  deriving DecidableEq, Repr

def TreeOp.data : TreeOp α → α
  | insert data => data
  | search data => data

def TreeOp.apply (cmp : α → α → ℤ) (top : SplayNode α) : TreeOp α → SplayNode α
  | insert data => (splayInsert (compareBoth cmp) data top).1
  | search data => (splaySplay (cmp data) top).1

def run (cmp : α → α → ℤ) (ops : List (TreeOp α)) : SplayNode α := ops.foldl (TreeOp.apply cmp) nil

/-- An entry is taken in if none of those that are there is in its way. -/
def takeIn (overlaps : α → α → Prop) [DecidableRel overlaps] (kept : List α) : TreeOp α → List α
  | .insert a => if ∃ b ∈ kept, overlaps a b then kept else a :: kept
  | .search _ => kept

def kept (overlaps : α → α → Prop) [DecidableRel overlaps] (ops : List (TreeOp α)) : List α :=
  ops.foldl (takeIn overlaps) []

variable [LinearOrder β]

/-- `cmp p a` compares the start of `p` with the interval `a`. -/
structure Intervals (β : Type) [LinearOrder β] (P : α → Prop) (cmp : α → α → ℤ) where
  start : α → β
  stop : α → β
  start_lt_stop {a : α} : P a → start a < stop a
  neg_iff {p a : α} : P p → P a → (cmp p a < 0 ↔ start p < start a)
  pos_iff {p a : α} : P p → P a → (0 < cmp p a ↔ stop a ≤ start p)

namespace Intervals

variable {P : α → Prop} {cmp : α → α → ℤ} (I : Intervals β P cmp) {a b p x y : α}

lemma eq_zero_iff (hp : P p) (ha : P a) : cmp p a = 0 ↔ I.start a ≤ I.start p ∧ I.start p < I.stop a := by
  have hneg := I.neg_iff hp ha
  have hpos := I.pos_iff hp ha
  rw [← not_lt, ← hneg, ← not_le (a := I.stop a), ← hpos]
  omega

lemma compareBoth_pos_iff (ha : P a) (hb : P b) : 0 < compareBoth cmp a b ↔ I.stop b ≤ I.start a := by
  rw [compareBoth, ← I.pos_iff ha hb]
  split_ifs with h
  · -- `b` starts in `a`, so `a` does not start behind `b`
    have hba := ((I.eq_zero_iff hb ha).mp h).1
    rw [I.pos_iff ha hb]
    exact ⟨fun h => absurd h (lt_irrefl 0), fun h => absurd (h.trans hba) (I.start_lt_stop hb).not_ge⟩
  · rfl

lemma compareBoth_neg_iff (ha : P a) (hb : P b) : compareBoth cmp a b < 0 ↔ I.stop a ≤ I.start b := by
  rw [compareBoth, ← I.pos_iff hb ha]
  split_ifs with h
  · simp [h]
  · rw [I.neg_iff ha hb, I.pos_iff hb ha]
    constructor
    · intro hab
      by_contra hstop
      exact h ((I.eq_zero_iff hb ha).mpr ⟨hab.le, not_le.mp hstop⟩)
    · exact (I.start_lt_stop ha).trans_le

/-- The intervals of a tree lie one behind the other. -/
structure Ordered (l : List α) : Prop where
  entry : ∀ x ∈ l, P x
  apart : l.Pairwise fun x y => I.stop x ≤ I.start y

variable {I} {l : List α}

lemma Ordered.cuts_insert (h : I.Ordered l) (ha : P a) : Cuts (compareBoth cmp a) l := by
  refine h.apart.imp_of_mem fun {x y} hx hy hxy => ?_
  have hPx := h.entry x hx
  have hPy := h.entry y hy
  rw [I.compareBoth_pos_iff ha hPx, I.compareBoth_pos_iff ha hPy, I.compareBoth_neg_iff ha hPx,
    I.compareBoth_neg_iff ha hPy]
  constructor
  · exact fun hya => hxy.trans ((I.start_lt_stop hPy).le.trans hya)
  · exact fun hax => hax.trans ((I.start_lt_stop hPx).le.trans hxy)

lemma Ordered.cuts_search (h : I.Ordered l) (hp : P p) : Cuts (cmp p) l := by
  refine h.apart.imp_of_mem fun {x y} hx hy hxy => ?_
  have hPx := h.entry x hx
  have hPy := h.entry y hy
  rw [I.pos_iff hp hPx, I.pos_iff hp hPy, I.neg_iff hp hPx, I.neg_iff hp hPy]
  constructor
  · exact fun hyp => hxy.trans ((I.start_lt_stop hPy).le.trans hyp)
  · exact fun hpx => hpx.trans ((I.start_lt_stop hPx).trans_le hxy)

lemma Ordered.insert {r : List α} (h : I.Ordered (l ++ r)) (ha : P a) (hl : ∀ x ∈ l, 0 < compareBoth cmp a x)
    (hr : ∀ y ∈ r, compareBoth cmp a y < 0) : I.Ordered (l ++ a :: r) := by
  obtain ⟨hentr, hapa⟩ := h
  obtain ⟨hPl, hPr⟩ := forall_mem_append.mp hentr
  obtain ⟨hll, hrr, hlr⟩ := pairwise_append.mp hapa
  refine ⟨forall_mem_append.mpr ⟨hPl, forall_mem_cons.mpr ⟨ha, hPr⟩⟩, ?_⟩
  refine pairwise_append.mpr ⟨hll, pairwise_cons.mpr ⟨fun y hy => ?_, hrr⟩, fun x hx => ?_⟩
  · exact (I.compareBoth_neg_iff ha (hPr y hy)).mp (hr y hy)
  · refine forall_mem_cons.mpr ⟨?_, hlr x hx⟩
    exact (I.compareBoth_pos_iff ha (hPl x hx)).mp (hl x hx)

variable {overlaps : α → α → Prop} [DecidableRel overlaps]

lemma Ordered.apply (ho : ∀ x y, P x → P y → (overlaps x y ↔ cmp x y = 0 ∨ cmp y x = 0))
    {op : TreeOp α} (hop : P op.data) (h : I.Ordered t.toList) (hl : t.toList.Perm l) :
    I.Ordered (op.apply cmp t).toList ∧ (op.apply cmp t).toList.Perm (takeIn overlaps l op) := by
  cases op with
  | search p =>
    have hp : P p := hop
    rw [TreeOp.apply, toList_splaySplay (h.cuts_search hp)]
    exact ⟨h, hl⟩
  | insert a =>
    have ha : P a := hop
    have hzero : (∃ b ∈ l, overlaps a b) ↔ ∃ b ∈ t.toList, compareBoth cmp a b = 0 := by
      simp only [hl.mem_iff, compareBoth_eq_zero_iff]
      refine exists_congr fun b => and_congr_right fun hb => ?_
      exact ho a b ha (h.entry b (hl.mem_iff.mpr hb))
    simp only [TreeOp.apply, takeIn, hzero]
    rcases splayInsert_cases (h.cuts_insert ha) with ⟨-, hfou, hlist⟩ | ⟨-, l, r, ht, hlist, hpos, hneg⟩
    · rw [if_pos hfou, hlist]
      exact ⟨h, hl⟩
    · have hnone : ¬∃ b ∈ t.toList, compareBoth cmp a b = 0 := by
        rintro ⟨b, hb, hzero⟩
        rw [ht] at hb
        rcases mem_append.mp hb with hb | hb
        · exact absurd hzero (hpos b hb).ne'
        · exact absurd hzero (hneg b hb).ne
      rw [if_neg hnone, hlist]
      rw [ht] at h hl
      exact ⟨h.insert ha hpos hneg, perm_middle.trans (hl.cons a)⟩

lemma ordered_run (I : Intervals β P cmp) (ho : ∀ x y, P x → P y → (overlaps x y ↔ cmp x y = 0 ∨ cmp y x = 0))
    {ops : List (TreeOp α)} (hops : ∀ op ∈ ops, P op.data) :
    I.Ordered (run cmp ops).toList ∧ (run cmp ops).toList.Perm (kept overlaps ops) := by
  induction ops using List.reverseRecOn with
  | nil => exact ⟨⟨nofun, List.Pairwise.nil⟩, List.Perm.nil⟩
  | append_singleton ops op ih =>
    obtain ⟨hops, hop⟩ := forall_mem_append.mp hops
    obtain ⟨h, hl⟩ := ih hops
    simp only [run, kept, foldl_append]
    exact h.apply ho (hop op mem_cons_self) hl

lemma search_run (I : Intervals β P cmp) (ho : ∀ x y, P x → P y → (overlaps x y ↔ cmp x y = 0 ∨ cmp y x = 0))
    {ops : List (TreeOp α)} (hops : ∀ op ∈ ops, P op.data) (hp : P p) :
    (splaySplay (cmp p) (run cmp ops)).2 = 0 ↔ ∃ a ∈ kept overlaps ops, cmp p a = 0 := by
  obtain ⟨h, hl⟩ := I.ordered_run ho hops
  simp [splaySplay_eq_zero_iff (h.cuts_search hp), hl.mem_iff]

end Intervals

end SplayNode
end SquidVideoCache.Lib
