import SquidVideoCache.Lib.CString

/-!
# Doubly linked lists in memory

The nodes of a list are in a memory that is a partial function of addresses, so that a pointer to a node that has
been freed cannot be followed. `IsList s l` says that the pointers of `s` make up the list `l` of addresses and data.
A node is added at the tail, and one at any place is deleted.
-/

namespace SquidVideoCache.Lib
open List Function Prod

variable {α : Type}

structure DlinkNode (α : Type) where
  data : α
  prev : Option ℕ
  next : Option ℕ

structure Dlink (α : Type) where
  mem : ℕ → Option (DlinkNode α)
  head : Option ℕ
  tail : Option ℕ

def nodeAt (mem : ℕ → Option (DlinkNode α)) (a : ℕ) : Exec (DlinkNode α) :=
  match mem a with
  | some x => .ok x
  | none => .error .bounds

/-- Changes the node of a pointer that is not NULL. -/
def modifyAt (mem : ℕ → Option (DlinkNode α)) (p : Option ℕ) (f : DlinkNode α → DlinkNode α) : Exec (ℕ → Option (DlinkNode α)) :=
  match p with
  | none => .ok mem
  | some a => do
    let x ← nodeAt mem a
    pure (update mem a (some (f x)))

def dlinkAddTail (data : α) (m : ℕ) (s : Dlink α) : Exec (Dlink α) := do
  let mem ← modifyAt s.mem (some m) fun _ => ⟨data, s.tail, none⟩
  let mem ← modifyAt mem s.tail fun x => { x with next := some m }
  pure ⟨mem, if s.head = none then some m else s.head, some m⟩

def dlinkDelete (m : ℕ) (s : Dlink α) : Exec (Dlink α) := do
  let x ← nodeAt s.mem m
  let mem ← modifyAt s.mem x.next fun y => { y with prev := x.prev }
  let mem ← modifyAt mem x.prev fun y => { y with next := x.next }
  let mem ← modifyAt mem (some m) fun y => { y with prev := none, next := none }
  pure ⟨mem, if some m = s.head then x.next else s.head, if some m = s.tail then x.prev else s.tail⟩

/-! ## Segments -/

def firstAddr (l : List (ℕ × α)) : Option ℕ := l.head?.map fst

def lastAddr (l : List (ℕ × α)) : Option ℕ := l.getLast?.map fst

/-- The nodes of a part of a list, between the pointers `p` and `n`. -/
def Seg (mem : ℕ → Option (DlinkNode α)) : Option ℕ → List (ℕ × α) → Option ℕ → Prop
  | _, [], _ => True
  | p, x :: l, n => mem x.1 = some ⟨x.2, p, (firstAddr l).or n⟩ ∧ Seg mem (some x.1) l n

variable {mem mem' : ℕ → Option (DlinkNode α)} {p p' n n' : Option ℕ} {l r : List (ℕ × α)} {x : ℕ × α} {m a : ℕ}
  {d : α}

@[simp] lemma firstAddr_nil : firstAddr ([] : List (ℕ × α)) = none := rfl

@[simp] lemma firstAddr_cons : firstAddr (x :: l) = some x.1 := rfl

@[simp] lemma lastAddr_nil : lastAddr ([] : List (ℕ × α)) = none := rfl

@[simp] lemma lastAddr_concat : lastAddr (l ++ [x]) = some x.1 := by
  simp [lastAddr]

lemma firstAddr_append (l r : List (ℕ × α)) : firstAddr (l ++ r) = (firstAddr l).or (firstAddr r) := by
  cases l with
  | nil => rfl
  | cons x l => rfl

lemma lastAddr_append (l r : List (ℕ × α)) : lastAddr (l ++ r) = (lastAddr r).or (lastAddr l) := by
  rcases eq_nil_or_concat r with rfl | ⟨r, x, rfl⟩
  · simp
  · rw [concat_eq_append, ← append_assoc, lastAddr_concat, lastAddr_concat]
    rfl

lemma lastAddr_cons (x : ℕ × α) (l : List (ℕ × α)) : lastAddr (x :: l) = (lastAddr l).or (some x.1) :=
  lastAddr_append [x] l

lemma seg_append : Seg mem p (l ++ r) n ↔ Seg mem p l ((firstAddr r).or n) ∧ Seg mem ((lastAddr l).or p) r n := by
  induction l generalizing p with
  | nil => simp [Seg]
  | cons x l ih =>
    rw [cons_append, Seg, ih, firstAddr_append, Option.or_assoc, lastAddr_cons, Option.or_assoc]
    exact and_assoc.symm

lemma Seg.frame (h : Seg mem p l n) (hmem : ∀ x ∈ l, mem' x.1 = mem x.1) : Seg mem' p l n := by
  induction l generalizing p with
  | nil => trivial
  | cons x l ih =>
    refine ⟨?_, ih h.2 fun y hy => hmem y (mem_cons_of_mem x hy)⟩
    rw [hmem x mem_cons_self]
    exact h.1

lemma modifyAt_some {y : DlinkNode α} (h : mem a = some y) (f : DlinkNode α → DlinkNode α) :
    modifyAt mem (some a) f = .ok (update mem a (some (f y))) := by
  simp [modifyAt, nodeAt, h]

lemma Seg.frame_update {v : Option (DlinkNode α)} (h : Seg mem p l n) (ha : a ∉ l.map fst) :
    Seg (update mem a v) p l n := by
  refine h.frame fun x hx => update_of_ne ?_ _ _
  rintro rfl
  exact ha (mem_map_of_mem hx)

lemma Seg.modifyFirst (h : Seg mem p l n) (hnod : (l.map fst).Nodup) (p' : Option ℕ) :
    ∃ mem', modifyAt mem (firstAddr l) (fun x => { x with prev := p' }) = .ok mem' ∧ Seg mem' p' l n ∧
      ∀ a, a ∉ l.map fst → mem' a = mem a := by
  cases l with
  | nil => exact ⟨mem, rfl, trivial, fun _ _ => rfl⟩
  | cons x l =>
    rw [map_cons, nodup_cons] at hnod
    refine ⟨_, modifyAt_some h.1 _, ⟨update_self _ _ _, h.2.frame_update hnod.1⟩, fun a ha => ?_⟩
    exact update_of_ne (fun heq => ha (by simp [heq])) _ _

lemma Seg.modifyLast (h : Seg mem p l n) (hnod : (l.map fst).Nodup) (n' : Option ℕ) :
    ∃ mem', modifyAt mem (lastAddr l) (fun x => { x with next := n' }) = .ok mem' ∧ Seg mem' p l n' ∧
      ∀ a, a ∉ l.map fst → mem' a = mem a := by
  rcases eq_nil_or_concat l with rfl | ⟨l, x, rfl⟩
  · exact ⟨mem, rfl, trivial, fun _ _ => rfl⟩
  · rw [concat_eq_append] at *
    obtain ⟨hl, hx, -⟩ := seg_append.1 h
    rw [map_append, nodup_append] at hnod
    have hnot : x.1 ∉ l.map fst := fun hmem => hnod.2.2 _ hmem x.1 (by simp) rfl
    rw [lastAddr_concat]
    refine ⟨_, modifyAt_some hx _, seg_append.2 ⟨?_, update_self _ _ _, trivial⟩, fun a ha => ?_⟩
    · exact hl.frame_update hnot
    · exact update_of_ne (fun heq => ha (by simp [heq])) _ _

/-! ## Lists -/

structure IsList (s : Dlink α) (l : List (ℕ × α)) : Prop where
  nodup : (l.map fst).Nodup
  head : s.head = firstAddr l
  tail : s.tail = lastAddr l
  nodes : Seg s.mem none l none

variable {s : Dlink α}

lemma IsList.nodeAt_eq (h : IsList s (x :: l)) : nodeAt s.mem x.1 = .ok ⟨x.2, none, firstAddr l⟩ := by
  rw [nodeAt, h.nodes.1, Option.or_none]

lemma IsList.exists_node (h : IsList s l) (hx : x ∈ l) : ∃ p n, s.mem x.1 = some ⟨x.2, p, n⟩ := by
  obtain ⟨front, back, rfl⟩ := append_of_mem hx
  exact ⟨_, _, (seg_append.1 h.nodes).2.1⟩

lemma IsList.update (h : IsList s l) (ha : a ∉ l.map fst) (v : Option (DlinkNode α)) :
    IsList { s with mem := update s.mem a v } l :=
  ⟨h.nodup, h.head, h.tail, h.nodes.frame_update ha⟩

lemma IsList.addTail (h : IsList s l) (hm : m ∉ l.map fst) (hnode : (s.mem m).isSome) (d : α) :
    ∃ s', dlinkAddTail d m s = .ok s' ∧ IsList s' (l ++ [(m, d)]) ∧
      ∀ a, a ∉ l.map fst → a ≠ m → s'.mem a = s.mem a := by
  obtain ⟨y, hy⟩ := Option.isSome_iff_exists.1 hnode
  have hl : Seg (Function.update s.mem m (some ⟨d, s.tail, none⟩)) none l none := h.nodes.frame_update hm
  obtain ⟨mem', heq, hseg, hfra⟩ := hl.modifyLast h.nodup _
  rw [← h.tail] at heq
  have hadd : dlinkAddTail d m s = .ok ⟨mem', if s.head = none then some m else s.head, some m⟩ := by
    rw [dlinkAddTail, modifyAt_some hy, ok_bind, heq]
    rfl
  have hnode' : mem' m = some ⟨d, lastAddr l, none⟩ := by
    rw [hfra m hm, update_self, h.tail]
  have hhead : (if s.head = none then some m else s.head) = firstAddr (l ++ [(m, d)]) := by
    rw [h.head]
    cases l with
    | nil => rfl
    | cons x l => rfl
  have htail : some m = lastAddr (l ++ [(m, d)]) := by rw [lastAddr_concat]
  refine ⟨_, hadd, ⟨?_, hhead, htail, seg_append.2 ⟨hseg, ?_, trivial⟩⟩, fun a ha hne => ?_⟩
  · rw [map_append, nodup_append]
    refine ⟨h.nodup, by simp, fun a ha b hb => ?_⟩
    rw [map_singleton, mem_singleton] at hb
    rintro rfl
    rw [hb] at ha
    exact hm ha
  · rw [Option.or_none]
    exact hnode'
  · exact (hfra a ha).trans (update_of_ne hne _ _)

lemma IsList.delete (h : IsList s (l ++ (m, d) :: r)) :
    ∃ s', dlinkDelete m s = .ok s' ∧ IsList s' (l ++ r) ∧ s'.mem m = some ⟨d, none, none⟩ ∧
      ∀ a, a ∉ (l ++ (m, d) :: r).map fst → s'.mem a = s.mem a := by
  have hnod := h.nodup
  rw [map_append, map_cons, nodup_append, nodup_cons] at hnod
  obtain ⟨hnl, ⟨hmr, hnr⟩, hne⟩ := hnod
  have hml : m ∉ l.map fst := fun hmem => hne m hmem m mem_cons_self rfl
  have hlr : ∀ x ∈ l, x.1 ∉ r.map fst :=
    fun x hx hmem => hne x.1 (mem_map_of_mem hx) x.1 (mem_cons_of_mem _ hmem) rfl
  have hrl : ∀ x ∈ r, x.1 ∉ l.map fst :=
    fun x hx hmem => hne x.1 hmem x.1 (mem_cons_of_mem _ (mem_map_of_mem hx)) rfl
  obtain ⟨hl, hm, hr⟩ := seg_append.1 h.nodes
  rw [Option.or_none, Option.or_none] at hm
  -- the node after and the node before are linked to each other
  obtain ⟨mem₁, heq₁, hr₁, hfra₁⟩ := hr.modifyFirst hnr _
  have hl₁ : Seg mem₁ none l (some m) := hl.frame fun x hx => hfra₁ x.1 (hlr x hx)
  obtain ⟨mem₂, heq₂, hl₂, hfra₂⟩ := hl₁.modifyLast hnl (firstAddr r)
  have hr₂ : Seg mem₂ (lastAddr l) r none := hr₁.frame fun x hx => hfra₂ x.1 (hrl x hx)
  have hm₂ : mem₂ m = some ⟨d, lastAddr l, firstAddr r⟩ := by
    rw [hfra₂ m hml, hfra₁ m hmr]
    exact hm
  have hdel : dlinkDelete m s = .ok ⟨Function.update mem₂ m (some ⟨d, none, none⟩),
      if some m = s.head then firstAddr r else s.head, if some m = s.tail then lastAddr l else s.tail⟩ := by
    rw [dlinkDelete, nodeAt, hm]
    simp only [ok_bind, heq₁, heq₂, modifyAt_some hm₂]
    rfl
  have hhead : (if some m = s.head then firstAddr r else s.head) = firstAddr (l ++ r) := by
    rw [h.head]
    cases l with
    | nil => simp
    | cons x l =>
      have hx : m ≠ x.1 := fun heq => hml (by simp [heq])
      simp [hx]
  have htail : (if some m = s.tail then lastAddr l else s.tail) = lastAddr (l ++ r) := by
    rw [h.tail, lastAddr_append, lastAddr_append, lastAddr_cons]
    rcases eq_nil_or_concat r with rfl | ⟨r, x, rfl⟩
    · simp
    · have hx : m ≠ x.1 := fun heq => hmr (by simp [heq])
      simp [hx]
  refine ⟨_, hdel, ⟨?_, hhead, htail, ?_⟩, update_self _ _ _, fun a ha => ?_⟩
  · rw [map_append, nodup_append]
    exact ⟨hnl, hnr, fun a ha b hb => hne a ha b (mem_cons_of_mem _ hb)⟩
  · rw [seg_append, Option.or_none, Option.or_none]
    exact ⟨hl₂.frame_update hml, hr₂.frame_update hmr⟩
  · simp only [map_append, map_cons, mem_append, mem_cons, not_or] at ha
    exact (update_of_ne ha.2.1 _ _).trans ((hfra₂ a ha.1).trans (hfra₁ a ha.2.2))

end SquidVideoCache.Lib
