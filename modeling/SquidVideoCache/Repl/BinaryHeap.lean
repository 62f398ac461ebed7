import SquidVideoCache.Lib.CString

/-!
# The heap of lib/heap.c

A node of the heap knows its index in the array, so that it can be deleted or get a new key without a search; its owner
keeps a pointer to it. The nodes are in a memory that is a partial function of addresses: a node that has been freed
cannot be read. Slots of the array from `last` on may hold pointers to freed nodes.

The keys are C doubles, which are not even ordered when one is not a number. Nothing below depends on their order.
-/

namespace SquidVideoCache.HeapPolicy
open Lib Function Option

structure HeapNode (Key Data : Type) where
  key : Key
  id : ℕ
  data : Data

/-- `size` is the length of the array `nodes`. -/
structure Heap (Key Data : Type) where
  mem : ℕ → Option (HeapNode Key Data)
  size : ℕ
  last : ℕ
  age : Key
  nodes : ℕ → Option ℕ

variable {Key Data : Type}

def left (x : ℕ) : ℕ := 2 * x + 1

def right (x : ℕ) : ℕ := 2 * x + 2

/-- The parent of the root is the root, as `-1 / 2` is 0 in C. -/
def parent (x : ℕ) : ℕ := (x - 1) / 2

/-! ## Memory -/

def nodeOf (hp : Heap Key Data) (a : ℕ) : Exec (HeapNode Key Data) :=
  match hp.mem a with
  | some x => .ok x
  | none => .error .bounds

def setNode (a : ℕ) (x : HeapNode Key Data) (hp : Heap Key Data) : Heap Key Data :=
  { hp with mem := update hp.mem a (some x) }

def slot (hp : Heap Key Data) (i : ℕ) : Exec ℕ :=
  match hp.nodes i with
  | some a => if i < hp.size then .ok a else .error .bounds
  | none => .error .bounds

def setSlot (i a : ℕ) (hp : Heap Key Data) : Exec (Heap Key Data) :=
  if i < hp.size then .ok { hp with nodes := update hp.nodes i (some a) } else .error .bounds

def heapNodeExist (hp : Heap Key Data) (i : ℕ) : Bool := decide (i < hp.last) && (hp.nodes i).isSome

/-! ## Moving nodes -/

def heapSwapElement (elm1 elm2 : ℕ) (hp : Heap Key Data) : Exec (Heap Key Data) := do
  let x ← nodeOf hp elm1
  let y ← nodeOf hp elm2
  let hp := setNode elm2 { y with id := x.id } (setNode elm1 { x with id := y.id } hp)
  let hp ← setSlot y.id elm1 hp
  setSlot x.id elm2 hp

section
variable [LT Key] [DecidableLT Key]

/-- The child with the smaller key, where the left one exists. -/
def smallerKid (hp : Heap Key Data) (i : ℕ) : Exec ℕ := do
  let l ← slot hp (left i)
  if heapNodeExist hp (right i) then do
    let r ← slot hp (right i)
    let x ← nodeOf hp r
    let y ← nodeOf hp l
    pure (if x.key < y.key then r else l)
  else pure l

variable [LE Key] [DecidableLE Key]

/-- The first number bounds the turns of the loop. -/
def heapIfyUp : ℕ → ℕ → Heap Key Data → Exec (Heap Key Data)
  | 0, _, _ => .error .diverges
  | k + 1, elm, hp => do
    let x ← nodeOf hp elm
    if x.id = 0 then pure hp
    else do
      let parentNode ← slot hp (parent x.id)
      let y ← nodeOf hp parentNode
      if y.key ≤ x.key then pure hp
      else do
        let hp ← heapSwapElement parentNode elm hp
        heapIfyUp k elm hp

def heapIfyDown : ℕ → ℕ → Heap Key Data → Exec (Heap Key Data)
  | 0, _, _ => .error .diverges
  | k + 1, elm, hp => do
    let x ← nodeOf hp elm
    if heapNodeExist hp (left x.id) then do
      let kid ← smallerKid hp x.id
      let y ← nodeOf hp kid
      if x.key ≤ y.key then pure hp
      else do
        let hp ← heapSwapElement kid elm hp
        heapIfyDown k elm hp
    else do
      cAssert (¬ heapNodeExist hp (right x.id))
      pure hp

/-- A node that has a new key or a new place moves up if it is smaller than its parent, then down. -/
def heapMove (elm : ℕ) (hp : Heap Key Data) : Exec (Heap Key Data) := do
  let x ← nodeOf hp elm
  let p ← slot hp (parent x.id)
  let y ← nodeOf hp p
  if x.key < y.key then do
    let hp ← heapIfyUp (hp.last + 1) elm hp
    heapIfyDown (hp.last + 1) elm hp
  else heapIfyDown (hp.last + 1) elm hp

end

/-! ## The operations -/

def heapShouldGrow (hp : Heap Key Data) : Bool := decide (hp.size ≤ hp.last)

def heapGrow (hp : Heap Key Data) : Heap Key Data :=
  { hp with size := if 10000 < hp.size then hp.size * 3 / 2 else hp.size * 2 }

def heapExtractlast (hp : Heap Key Data) : Exec (Data × Heap Key Data) := do
  cAssert (heapNodeExist hp (hp.last - 1))
  let a ← slot hp (hp.last - 1)
  let x ← nodeOf hp a
  pure (x.data, { hp with last := hp.last - 1, mem := update hp.mem a none })

def heapPeepminkey (hp : Heap Key Data) : Exec Key := do
  cAssert (heapNodeExist hp 0)
  let a ← slot hp 0
  let x ← nodeOf hp a
  pure x.key

section
variable [LE Key] [DecidableLE Key] [LT Key] [DecidableLT Key] (genKey : Data → Key → Key)

/-- The new node is at the address `elm`, which `xmalloc` returns. -/
def heapInsert (elm : ℕ) (dat : Data) (hp : Heap Key Data) : Exec (Heap Key Data) := do
  let hp := if heapShouldGrow hp then heapGrow hp else hp
  let hp ← setSlot hp.last elm (setNode elm ⟨genKey dat hp.age, hp.last, dat⟩ hp)
  heapIfyUp (hp.last + 2) elm { hp with last := hp.last + 1 }

def heapDelete (elm : ℕ) (hp : Heap Key Data) : Exec (Data × Heap Key Data) := do
  let x ← nodeOf hp elm
  cAssert (heapNodeExist hp (hp.last - 1))
  let lastNode ← slot hp (hp.last - 1)
  let hp ← heapSwapElement lastNode elm hp
  let r ← heapExtractlast hp
  if elm = lastNode ∨ r.2.last = 0 then pure (x.data, r.2)
  else do
    let hp ← heapMove lastNode r.2
    pure (x.data, hp)

/-- `none` is NULL. -/
def heapExtractmin (hp : Heap Key Data) : Exec (Option Data × Heap Key Data) :=
  if hp.last = 0 then pure (none, hp)
  else do
    let root ← slot hp 0
    let r ← heapDelete root hp
    pure (some r.1, r.2)

def heapUpdate (elm : ℕ) (dat : Data) (hp : Heap Key Data) : Exec (Heap Key Data) := do
  let x ← nodeOf hp elm
  heapMove elm (setNode elm { x with key := genKey dat hp.age, data := dat } hp)

end

/-! ## Well-formed heaps -/

/-- The slots below `last` have the nodes of the heap, each of which knows its slot, and there are no other nodes. -/
structure HeapOk (hp : Heap Key Data) : Prop where
  size_pos : 0 < hp.size
  last_le : hp.last ≤ hp.size
  slots : ∀ i < hp.last, ∃ a x, hp.nodes i = some a ∧ hp.mem a = some x ∧ x.id = i
  nodes : ∀ a x, hp.mem a = some x → x.id < hp.last ∧ hp.nodes x.id = some a

def contents (hp : Heap Key Data) (a : ℕ) : Option Data := (hp.mem a).map HeapNode.data

def InHeap (hp : Heap Key Data) (a : ℕ) : Prop := ∃ i < hp.last, hp.nodes i = some a

/-- The same nodes in another order. -/
structure Rearranged (hp hp' : Heap Key Data) : Prop where
  ok : HeapOk hp'
  contents : contents hp' = contents hp
  last : hp'.last = hp.last
  age : hp'.age = hp.age

variable {hp hp' hp'' : Heap Key Data} {a b i : ℕ} {x y : HeapNode Key Data} {dat : Data}

lemma HeapOk.rearranged (h : HeapOk hp) : Rearranged hp hp := ⟨h, rfl, rfl, rfl⟩

lemma Rearranged.trans (h : Rearranged hp hp') (h' : Rearranged hp' hp'') : Rearranged hp hp'' :=
  ⟨h'.ok, h'.contents.trans h.contents, h'.last.trans h.last, h'.age.trans h.age⟩

lemma contents_of_mem (ha : hp.mem a = some x) : contents hp a = some x.data := by
  rw [contents, ha, map_some]

lemma exists_node (ha : contents hp a = some dat) : ∃ x, hp.mem a = some x ∧ x.data = dat := by
  simpa [contents] using ha

lemma HeapOk.inHeap (h : HeapOk hp) (ha : contents hp a = some dat) : InHeap hp a := by
  obtain ⟨x, hx, -⟩ := exists_node ha
  obtain ⟨hlt, heq⟩ := h.nodes a x hx
  exact ⟨x.id, hlt, heq⟩

lemma HeapOk.eq_of_id (h : HeapOk hp) (ha : hp.mem a = some x) (hb : hp.mem b = some y) (hid : x.id = y.id) : a = b := by
  have hx := (h.nodes a x ha).2
  have hy := (h.nodes b y hb).2
  rw [hid, hy, some.injEq] at hx
  exact hx.symm

lemma nodeOf_eq (ha : hp.mem a = some x) : nodeOf hp a = .ok x := by
  rw [nodeOf, ha]

lemma HeapOk.nodeExist_iff (h : HeapOk hp) : heapNodeExist hp i ↔ i < hp.last := by
  simp only [heapNodeExist, Bool.and_eq_true, decide_eq_true_eq, and_iff_left_iff_imp]
  intro hi
  obtain ⟨a, x, ha, -⟩ := h.slots i hi
  rw [ha, isSome_some]

lemma HeapOk.slot_eq (h : HeapOk hp) (hi : i < hp.last) : ∃ a x, slot hp i = .ok a ∧ hp.mem a = some x ∧ x.id = i := by
  obtain ⟨a, x, ha, hx, hid⟩ := h.slots i hi
  refine ⟨a, x, ?_, hx, hid⟩
  simp only [slot, ha]
  rw [if_pos (hi.trans_le h.last_le)]

lemma setSlot_eq (hi : i < hp.size) : setSlot i a hp = .ok { hp with nodes := update hp.nodes i (some a) } := by
  rw [setSlot, if_pos hi]

/-! ## Moving keeps the nodes -/

lemma contents_setNode : contents (setNode a x hp) = update (contents hp) a (some x.data) := by
  funext b
  by_cases hb : b = a
  · subst hb
    simp [contents, setNode]
  · simp [contents, setNode, hb]

def swapped (a b : ℕ) (x y : HeapNode Key Data) (hp : Heap Key Data) : Heap Key Data :=
  { setNode b { y with id := x.id } (setNode a { x with id := y.id } hp) with
    nodes := update (update hp.nodes y.id (some a)) x.id (some b) }

lemma HeapOk.swapElement_eq (h : HeapOk hp) (ha : hp.mem a = some x) (hb : hp.mem b = some y) :
    heapSwapElement a b hp = .ok (swapped a b x y hp) := by
  have hx := (h.nodes a x ha).1.trans_le h.last_le
  have hy := (h.nodes b y hb).1.trans_le h.last_le
  simp only [heapSwapElement, nodeOf_eq ha, nodeOf_eq hb, ok_bind]
  rw [setSlot_eq (by exact hy), ok_bind, setSlot_eq (by exact hx)]
  rfl

lemma swapped_mem_right : (swapped a b x y hp).mem b = some { y with id := x.id } := update_self ..

lemma swapped_mem_left (ha : hp.mem a = some x) (hb : hp.mem b = some y) :
    (swapped a b x y hp).mem a = some { x with id := y.id } := by
  by_cases hab : a = b
  · subst hab
    rw [ha, some.injEq] at hb
    rw [swapped_mem_right, hb]
  · simp [swapped, setNode, hab]

lemma swapped_mem_of_ne {c : ℕ} (hca : c ≠ a) (hcb : c ≠ b) : (swapped a b x y hp).mem c = hp.mem c := by
  simp [swapped, setNode, hca, hcb]

lemma swapped_nodes_right : (swapped a b x y hp).nodes x.id = some b := update_self ..

lemma swapped_nodes_left (h : HeapOk hp) (ha : hp.mem a = some x) (hb : hp.mem b = some y) :
    (swapped a b x y hp).nodes y.id = some a := by
  by_cases hid : y.id = x.id
  · rw [hid, swapped_nodes_right, h.eq_of_id hb ha hid]
  · simp [swapped, hid]

lemma swapped_nodes_of_ne (hix : i ≠ x.id) (hiy : i ≠ y.id) : (swapped a b x y hp).nodes i = hp.nodes i := by
  simp [swapped, hix, hiy]

lemma HeapOk.swap (h : HeapOk hp) (ha : hp.mem a = some x) (hb : hp.mem b = some y) :
    Rearranged hp (swapped a b x y hp) := by
  have hx := h.nodes a x ha
  have hy := h.nodes b y hb
  have hrig : (swapped a b x y hp).mem b = some { y with id := x.id } := swapped_mem_right
  have hleft := swapped_mem_left ha hb
  refine ⟨⟨h.size_pos, h.last_le, ?_, ?_⟩, ?_, rfl, rfl⟩
  · intro i hi
    by_cases hix : i = x.id
    · subst hix
      exact ⟨b, _, swapped_nodes_right, hrig, rfl⟩
    · by_cases hiy : i = y.id
      · subst hiy
        exact ⟨a, _, swapped_nodes_left h ha hb, hleft, rfl⟩
      · obtain ⟨c, z, hc, hz, rfl⟩ := h.slots i hi
        have hca : c ≠ a := fun hca => hix (by rw [hca, ha, some.injEq] at hz; rw [hz])
        have hcb : c ≠ b := fun hcb => hiy (by rw [hcb, hb, some.injEq] at hz; rw [hz])
        exact ⟨c, z, by rw [swapped_nodes_of_ne hix hiy, hc], by rw [swapped_mem_of_ne hca hcb, hz], rfl⟩
  · intro c z hc
    by_cases hcb : c = b
    · rw [hcb, hrig, some.injEq] at hc
      rw [← hc, hcb]
      exact ⟨hx.1, swapped_nodes_right⟩
    · by_cases hca : c = a
      · rw [hca, hleft, some.injEq] at hc
        rw [← hc, hca]
        exact ⟨hy.1, swapped_nodes_left h ha hb⟩
      · rw [swapped_mem_of_ne hca hcb] at hc
        obtain ⟨hlt, hslot⟩ := h.nodes c z hc
        refine ⟨hlt, ?_⟩
        rw [swapped_nodes_of_ne (fun hid => hca (h.eq_of_id hc ha hid)) (fun hid => hcb (h.eq_of_id hc hb hid)), hslot]
  · funext c
    by_cases hcb : c = b
    · rw [hcb, contents_of_mem hrig, contents_of_mem hb]
    · by_cases hca : c = a
      · rw [hca, contents_of_mem hleft, contents_of_mem ha]
      · rw [contents, swapped_mem_of_ne hca hcb, contents]

lemma HeapOk.rekey (h : HeapOk hp) (ha : hp.mem a = some x) (hid : y.id = x.id) : HeapOk (setNode a y hp) := by
  have hx := h.nodes a x ha
  refine ⟨h.size_pos, h.last_le, ?_, ?_⟩
  · intro i hi
    obtain ⟨c, z, hc, hz, hzid⟩ := h.slots i hi
    by_cases hca : c = a
    · subst hca
      rw [ha, some.injEq] at hz
      exact ⟨c, y, hc, update_self .., by rw [hid, hz, hzid]⟩
    · exact ⟨c, z, hc, by simp [setNode, hca, hz], hzid⟩
  · intro c z hc
    by_cases hca : c = a
    · subst hca
      have hz : y = z := by simpa [setNode] using hc
      rw [← hz, hid]
      exact hx
    · exact h.nodes c z (by simpa [setNode, hca] using hc)

/-! ## One node more or less -/

def withRoom (hp : Heap Key Data) : Heap Key Data := if heapShouldGrow hp then heapGrow hp else hp

lemma HeapOk.room (h : HeapOk hp) : Rearranged hp (withRoom hp) ∧ hp.last < (withRoom hp).size := by
  have hsize := h.size_pos
  have hlast := h.last_le
  unfold withRoom heapShouldGrow
  by_cases hfull : hp.size ≤ hp.last
  · have hlt : hp.size < (heapGrow hp).size := by
      simp only [heapGrow]
      split_ifs <;> omega
    rw [if_pos (decide_eq_true hfull)]
    exact ⟨⟨⟨by omega, hlast.trans hlt.le, h.slots, h.nodes⟩, rfl, rfl, rfl⟩, by omega⟩
  · rw [if_neg (by simpa using hfull)]
    exact ⟨h.rearranged, by omega⟩

def appended (a : ℕ) (key : Key) (dat : Data) (hp : Heap Key Data) : Heap Key Data :=
  { setNode a ⟨key, hp.last, dat⟩ hp with
    nodes := update hp.nodes hp.last (some a)
    last := hp.last + 1 }

lemma HeapOk.append (h : HeapOk hp) (hroom : hp.last < hp.size) (hfree : hp.mem a = none) (key : Key) :
    HeapOk (appended a key dat hp) := by
  refine ⟨h.size_pos, hroom, ?_, ?_⟩
  · intro i hi
    by_cases hil : i = hp.last
    · subst hil
      exact ⟨a, ⟨key, hp.last, dat⟩, update_self .., update_self .., rfl⟩
    · have hlt : i < hp.last := by
        have hle : i < hp.last + 1 := hi
        omega
      obtain ⟨c, z, hc, hz, hid⟩ := h.slots i hlt
      have hca : c ≠ a := by
        rintro rfl
        rw [hfree] at hz
        cases hz
      refine ⟨c, z, ?_, ?_, hid⟩
      · simp [appended, hil, hc]
      · simp [appended, setNode, hca, hz]
  · intro c z hc
    by_cases hca : c = a
    · subst hca
      have hz : (⟨key, hp.last, dat⟩ : HeapNode Key Data) = z := by simpa [appended, setNode] using hc
      subst hz
      exact ⟨Nat.lt_succ_self _, update_self ..⟩
    · have hz : hp.mem c = some z := by simpa [appended, setNode, hca] using hc
      obtain ⟨hlt, hslot⟩ := h.nodes c z hz
      refine ⟨Nat.lt_succ_of_lt hlt, ?_⟩
      simp [appended, hlt.ne, hslot]

def truncated (a : ℕ) (hp : Heap Key Data) : Heap Key Data :=
  { hp with last := hp.last - 1, mem := update hp.mem a none }

lemma contents_truncated : contents (truncated a hp) = update (contents hp) a none := by
  funext c
  by_cases hca : c = a
  · subst hca
    simp [contents, truncated]
  · simp [contents, truncated, hca]

section

variable (h : HeapOk hp)

include h

lemma HeapOk.truncate (ha : hp.mem a = some x) (hid : x.id + 1 = hp.last) : HeapOk (truncated a hp) := by
  refine ⟨h.size_pos, (Nat.sub_le ..).trans h.last_le, ?_, ?_⟩
  · intro i hi
    have hlt : i < hp.last - 1 := hi
    obtain ⟨c, z, hc, hz, hzid⟩ := h.slots i (by omega)
    have hca : c ≠ a := by
      rintro rfl
      rw [ha, some.injEq] at hz
      rw [hz] at hid
      omega
    exact ⟨c, z, hc, by simp [truncated, hca, hz], hzid⟩
  · intro c z hc
    have hca : c ≠ a := by
      rintro rfl
      simp [truncated] at hc
    have hz : hp.mem c = some z := by simpa [truncated, hca] using hc
    obtain ⟨hlt, hslot⟩ := h.nodes c z hz
    have hne : z.id ≠ x.id := fun heq => hca (h.eq_of_id hz ha heq)
    exact ⟨by show z.id < hp.last - 1; omega, hslot⟩

lemma HeapOk.extractlast_eq (ha : hp.mem a = some x) (hid : x.id + 1 = hp.last) :
    heapExtractlast hp = .ok (x.data, truncated a hp) := by
  have hlast : hp.last - 1 = x.id := by omega
  obtain ⟨b, y, hslot, hb, hbid⟩ := h.slot_eq (h.nodes a x ha).1
  obtain rfl := h.eq_of_id hb ha hbid
  rw [heapExtractlast, hlast, cAssert_pos (h.nodeExist_iff.2 (h.nodes b x ha).1), ok_bind, hslot, ok_bind, nodeOf_eq ha, ok_bind,
    pure_eq_ok, truncated, hlast]

section
variable [LE Key] [DecidableLE Key]

lemma HeapOk.ifyUp (k : ℕ) (ha : hp.mem a = some x) (hk : x.id < k) :
    ∃ hp', heapIfyUp k a hp = .ok hp' ∧ Rearranged hp hp' := by
  induction k generalizing hp x with
  | zero => omega
  | succ k ih =>
    rw [heapIfyUp, nodeOf_eq ha, ok_bind]
    by_cases hroot : x.id = 0
    · exact ⟨hp, by rw [if_pos hroot, pure_eq_ok], h.rearranged⟩
    · have hlt : parent x.id < x.id := by
        unfold parent
        omega
      obtain ⟨p, y, hslot, hp, hid⟩ := h.slot_eq (hlt.trans (h.nodes a x ha).1)
      rw [if_neg hroot, hslot, ok_bind, nodeOf_eq hp, ok_bind]
      by_cases hle : y.key ≤ x.key
      · exact ⟨_, by rw [if_pos hle, pure_eq_ok], h.rearranged⟩
      · -- the node takes the place of its parent, which is nearer to the root
        have hre := h.swap hp ha
        obtain ⟨hp', hup, hre'⟩ := ih hre.ok swapped_mem_right (by show y.id < k; omega)
        exact ⟨hp', by rw [if_neg hle, h.swapElement_eq hp ha, ok_bind, hup], hre.trans hre'⟩

lemma HeapOk.insert (genKey : Data → Key → Key) (dat : Data) (hfree : hp.mem a = none) :
    ∃ hp', heapInsert genKey a dat hp = .ok hp' ∧ HeapOk hp' ∧ contents hp' = update (contents hp) a (some dat) ∧
      hp'.last = hp.last + 1 ∧ hp'.age = hp.age := by
  obtain ⟨hre, hroom⟩ := h.room
  rw [← hre.last] at hroom
  have hmem : (withRoom hp).mem = hp.mem := by
    unfold withRoom
    split_ifs <;> rfl
  have hok : HeapOk (appended a (genKey dat (withRoom hp).age) dat (withRoom hp)) :=
    hre.ok.append hroom (by rw [hmem, hfree]) _
  obtain ⟨hp', hup, hre'⟩ := hok.ifyUp ((withRoom hp).last + 2) (update_self ..) (by show (withRoom hp).last < _; omega)
  refine ⟨hp', ?_, hre'.ok, ?_, ?_, hre'.age.trans hre.age⟩
  · rw [← hup]
    show (setSlot _ _ _ >>= _) = _
    rw [setSlot_eq (by exact hroom)]
    rfl
  · rw [hre'.contents, ← hre.contents]
    exact contents_setNode
  · rw [hre'.last, ← hre.last]
    rfl

end

section
variable [LT Key] [DecidableLT Key]

lemma HeapOk.smallerKid_eq (hi : left i < hp.last) :
    ∃ kid y, smallerKid hp i = .ok kid ∧ hp.mem kid = some y ∧ i < y.id := by
  have hleft : i < left i := by
    unfold left
    omega
  have hrig : i < right i := by
    unfold right
    omega
  obtain ⟨l, y, hslot, hl, hid⟩ := h.slot_eq hi
  rw [smallerKid, hslot, ok_bind]
  by_cases hr : heapNodeExist hp (right i)
  · obtain ⟨r, z, hslot, hr', hid'⟩ := h.slot_eq (h.nodeExist_iff.1 hr)
    rw [if_pos hr, hslot, ok_bind, nodeOf_eq hr', ok_bind, nodeOf_eq hl, ok_bind]
    by_cases hlt : z.key < y.key
    · exact ⟨r, z, by rw [if_pos hlt, pure_eq_ok], hr', by omega⟩
    · exact ⟨l, y, by rw [if_neg hlt, pure_eq_ok], hl, by omega⟩
  · exact ⟨l, y, by rw [if_neg hr, pure_eq_ok], hl, by omega⟩

variable [LE Key] [DecidableLE Key]

lemma HeapOk.ifyDown (k : ℕ) (ha : hp.mem a = some x) (hk : hp.last < x.id + k) :
    ∃ hp', heapIfyDown k a hp = .ok hp' ∧ Rearranged hp hp' := by
  induction k generalizing hp x with
  | zero =>
    have hlt := (h.nodes a x ha).1
    omega
  | succ k ih =>
    rw [heapIfyDown, nodeOf_eq ha, ok_bind]
    by_cases hl : heapNodeExist hp (left x.id)
    · obtain ⟨kid, y, hkid, hy, hid⟩ := h.smallerKid_eq (h.nodeExist_iff.1 hl)
      rw [if_pos hl, hkid, ok_bind, nodeOf_eq hy, ok_bind]
      by_cases hle : x.key ≤ y.key
      · exact ⟨hp, by rw [if_pos hle, pure_eq_ok], h.rearranged⟩
      · have hre := h.swap hy ha
        obtain ⟨hp', hdown, hre'⟩ := ih hre.ok swapped_mem_right (by show hp.last < y.id + k; omega)
        exact ⟨hp', by rw [if_neg hle, h.swapElement_eq hy ha, ok_bind, hdown], hre.trans hre'⟩
    · -- without a left child there is no right one
      have hr : ¬ heapNodeExist hp (right x.id) := by
        rw [h.nodeExist_iff, left] at hl
        rw [h.nodeExist_iff, right]
        omega
      exact ⟨hp, by rw [if_neg hl, cAssert_pos hr, ok_bind, pure_eq_ok], h.rearranged⟩

lemma HeapOk.move (ha : hp.mem a = some x) : ∃ hp', heapMove a hp = .ok hp' ∧ Rearranged hp hp' := by
  have hlt := (h.nodes a x ha).1
  have hle : parent x.id ≤ x.id := by
    unfold parent
    omega
  obtain ⟨p, y, hslot, hp', -⟩ := h.slot_eq (hle.trans_lt hlt)
  rw [heapMove, nodeOf_eq ha, ok_bind, hslot, ok_bind, nodeOf_eq hp', ok_bind]
  by_cases hkey : x.key < y.key
  · obtain ⟨hp₁, hup, hre⟩ := h.ifyUp (hp.last + 1) ha (by omega)
    obtain ⟨z, hz, -⟩ := exists_node ((congrFun hre.contents a).trans (contents_of_mem ha))
    obtain ⟨hp₂, hdown, hre'⟩ := hre.ok.ifyDown (hp₁.last + 1) hz (by omega)
    exact ⟨hp₂, by rw [if_pos hkey, hup, ok_bind, hdown], hre.trans hre'⟩
  · obtain ⟨hp₁, hdown, hre⟩ := h.ifyDown (hp.last + 1) ha (by omega)
    exact ⟨hp₁, by rw [if_neg hkey, hdown], hre⟩

/-! ## What the operations do to the nodes -/

lemma HeapOk.delete (ha : contents hp a = some dat) :
    ∃ hp', heapDelete a hp = .ok (dat, hp') ∧ HeapOk hp' ∧ contents hp' = update (contents hp) a none ∧
      hp'.last + 1 = hp.last ∧ hp'.age = hp.age := by
  obtain ⟨x, hx, rfl⟩ := exists_node ha
  have hpos := (h.nodes a x hx).1
  obtain ⟨b, y, hslot, hb, hid⟩ := h.slot_eq (i := hp.last - 1) (by omega)
  have hre := h.swap hb hx
  have ha' : (swapped b a y x hp).mem a = some { x with id := y.id } := swapped_mem_right
  have hlast : y.id + 1 = (swapped b a y x hp).last := by
    show y.id + 1 = hp.last
    omega
  have hok := hre.ok.truncate ha' hlast
  have hcon : contents (truncated a (swapped b a y x hp)) = update (contents hp) a none := by
    rw [contents_truncated, hre.contents]
  have htla : (truncated a (swapped b a y x hp)).last + 1 = hp.last := by
    show hp.last - 1 + 1 = hp.last
    omega
  have hdel : heapDelete a hp = (if a = b ∨ (truncated a (swapped b a y x hp)).last = 0 then
      pure (x.data, truncated a (swapped b a y x hp))
    else do
      let hp ← heapMove b (truncated a (swapped b a y x hp))
      pure (x.data, hp)) := by
    rw [heapDelete, nodeOf_eq hx, ok_bind, cAssert_pos (h.nodeExist_iff.2 (by omega)), ok_bind, hslot, ok_bind,
      h.swapElement_eq hb hx, ok_bind, hre.ok.extractlast_eq ha' hlast, ok_bind]
  by_cases hend : a = b ∨ (truncated a (swapped b a y x hp)).last = 0
  · exact ⟨_, by rw [hdel, if_pos hend, pure_eq_ok], hok, hcon, htla, rfl⟩
  · -- the node that was the last one is in the place of the deleted one
    have hne : b ≠ a := fun hba => hend (.inl hba.symm)
    have hb' : (truncated a (swapped b a y x hp)).mem b = some { y with id := x.id } := by
      show update (swapped b a y x hp).mem a none b = _
      rw [update_of_ne hne, swapped_mem_left hb hx]
    obtain ⟨hp', hmove, hre'⟩ := hok.move hb'
    exact ⟨hp', by rw [hdel, if_neg hend, hmove, ok_bind, pure_eq_ok], hre'.ok, hre'.contents.trans hcon,
      by rw [hre'.last, htla], hre'.age⟩

lemma HeapOk.update (genKey : Data → Key → Key) (dat : Data) {old : Data} (ha : contents hp a = some old) :
    ∃ hp', heapUpdate genKey a dat hp = .ok hp' ∧ HeapOk hp' ∧ contents hp' = update (contents hp) a (some dat) ∧
      hp'.last = hp.last ∧ hp'.age = hp.age := by
  obtain ⟨x, hx, -⟩ := exists_node ha
  have hok : HeapOk (setNode a { x with key := genKey dat hp.age, data := dat } hp) := h.rekey hx rfl
  obtain ⟨hp', hmove, hre⟩ := hok.move (update_self ..)
  exact ⟨hp', by rw [heapUpdate, nodeOf_eq hx, ok_bind, hmove], hre.ok, hre.contents.trans contents_setNode, hre.last, hre.age⟩

lemma HeapOk.extractmin (hlast : hp.last ≠ 0) :
    ∃ a dat hp', contents hp a = some dat ∧ slot hp 0 = .ok a ∧ heapExtractmin hp = .ok (some dat, hp') ∧ HeapOk hp' ∧
      contents hp' = Function.update (contents hp) a none ∧ hp'.last + 1 = hp.last ∧ hp'.age = hp.age := by
  obtain ⟨a, x, hslot, ha, -⟩ := h.slot_eq (Nat.pos_of_ne_zero hlast)
  obtain ⟨hp', hdel, hrest⟩ := h.delete (contents_of_mem ha)
  exact ⟨a, x.data, hp', contents_of_mem ha, hslot, by rw [heapExtractmin, if_neg hlast, hslot, ok_bind, hdel, ok_bind, pure_eq_ok], hrest⟩

end

end

end SquidVideoCache.HeapPolicy
