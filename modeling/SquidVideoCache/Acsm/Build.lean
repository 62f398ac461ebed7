import SquidVideoCache.Acsm.Trie
import Mathlib.Data.Finset.Card

/-!
# Build_DFA

The states are taken from the queue in order of depth. When a state is taken, its
fail state is less deep and already has all its transitions, so every missing
transition is copied from it and the loop that follows fail states stops at once.
-/

namespace SquidVideoCache.Acsm
open Lib List

variable {base table table' : ℕ → AcsmStateTable} {num r f : ℕ} {word : ℕ → List UInt8}
  {bytes : List UInt8} {s : ℕ} {pats : List AcsmPattern}

lemma mem_alphabet (c : UInt8) : c ∈ alphabet := mem_map.mpr ⟨c.toNat, mem_range.mpr c.toNat_lt, by simp⟩

lemma alphabet_nodup : alphabet.Nodup := by
  refine List.Nodup.map_on ?_ nodup_range
  intro a ha b hb h
  rw [mem_range] at ha hb
  have hn := congrArg UInt8.toNat h
  simpa [Nat.mod_eq_of_lt ha, Nat.mod_eq_of_lt hb] using hn

@[simp] lemma setFail_next (s next t : ℕ) : (setFail table s next t).nextState = (table t).nextState := by
  by_cases h : t = s <;> simp [setFail, h]

lemma setFail_fail (s next t : ℕ) :
    (setFail table s next t).failState = if t = s then next else (table t).failState := by
  by_cases h : t = s <;> simp [setFail, h]

@[simp] lemma setFail_kept (s next t : ℕ) : (setFail table s next t).matchList = (table t).matchList ∧
      (setFail table s next t).flag = (table t).flag := by
  by_cases h : t = s <;> simp [setFail, h]

lemma setNext_next (s : ℕ) (i : UInt8) (next t : ℕ) : (setNext table s i next t).nextState =
      if t = s then Function.update (table s).nextState i next else (table t).nextState := by
  by_cases h : t = s <;> simp [setNext, h]

@[simp] lemma setNext_kept (s : ℕ) (i : UInt8) (next t : ℕ) :
    (setNext table s i next t).failState = (table t).failState ∧
      (setNext table s i next t).matchList = (table t).matchList ∧
      (setNext table s i next t).flag = (table t).flag := by
  by_cases h : t = s <;> simp [setNext, h]

/-! ## One row -/

def children (row : AcsmStateTable) (bytes : List UInt8) : List ℕ :=
  (bytes.map row.nextState).filter (· ≠ acsmFailState)

lemma mem_children {row : AcsmStateTable} :
    s ∈ children row bytes ↔ ∃ c ∈ bytes, row.nextState c = s ∧ s ≠ acsmFailState := by
  simp only [children, mem_filter, mem_map, decide_eq_true_eq]
  exact ⟨fun ⟨⟨c, hc, hs⟩, hne⟩ => ⟨c, hc, hs, hne⟩, fun ⟨c, hc, hs, hne⟩ => ⟨⟨c, hc, hs⟩, hne⟩⟩

/-- Row `r` filled in from row `f` at the given bytes, with the fail states of its children. -/
structure Filled (table table' : ℕ → AcsmStateTable) (r f : ℕ) (bytes : List UInt8) : Prop where
  other : ∀ s, s ≠ r → (table' s).nextState = (table s).nextState
  row : ∀ c, (table' r).nextState c =
    if c ∈ bytes ∧ (table r).nextState c = acsmFailState then (table f).nextState c
    else (table r).nextState c
  failChild : ∀ c ∈ bytes, (table r).nextState c ≠ acsmFailState →
    (table' ((table r).nextState c)).failState = (table f).nextState c
  failOther : ∀ s, s ∉ children (table r) bytes → (table' s).failState = (table s).failState
  kept : ∀ s, (table' s).matchList = (table s).matchList ∧ (table' s).flag = (table s).flag

/-- The fail state `f` of `r` has all its transitions, and the children of `r` are states of their own. -/
structure Fillable (table : ℕ → AcsmStateTable) (r f : ℕ) : Prop where
  ne : f ≠ r
  fail : (table r).failState = f
  complete : ∀ c, (table f).nextState c ≠ acsmFailState
  self : ∀ c, (table r).nextState c ≠ acsmFailState → (table r).nextState c ≠ r
  inj : ∀ c d, (table r).nextState c ≠ acsmFailState → (table r).nextState c = (table r).nextState d → c = d

lemma Filled.byte {c : UInt8} (h : Filled table table' r f bytes) (hf : Fillable table r f)
    (hc : c ∉ bytes) (fuel : ℕ) (queue : List ℕ) :
    ∃ table'', buildByte (fuel + 1) r (table', queue) c = .ok (table'', queue ++ children (table r) [c]) ∧
      Filled table table'' r f (bytes ++ [c]) := by
  have hrow : (table' r).nextState c = (table r).nextState c := by
    rw [h.row, if_neg fun hmem => hc hmem.1]
  have hnext : (table' f).nextState = (table f).nextState := h.other f hf.ne
  have hfail : (table' r).failState = f := by
    rw [h.failOther r, hf.fail]
    intro hmem
    obtain ⟨d, -, hd, hne⟩ := mem_children.mp hmem
    exact hf.self d (hd.trans_ne hne) hd
  have hchi : children (table r) (bytes ++ [c]) = children (table r) bytes ++ children (table r) [c] := by
    simp [children]
  by_cases hmis : (table r).nextState c = acsmFailState
  · -- a missing transition, copied from row `f`
    refine ⟨setNext table' r c ((table f).nextState c), by simp [buildByte, hrow, hfail, hnext, hmis, children], ?_⟩
    constructor
    · intro s hs
      rw [setNext_next, if_neg hs, h.other s hs]
    · intro d
      rw [setNext_next]
      by_cases hdc : d = c
      · simp [hdc, hmis]
      · simp [hdc, h.row]
    · intro d hd hne
      rw [(setNext_kept _ _ _ _).1]
      rcases mem_append.mp hd with hd | hd
      · exact h.failChild d hd hne
      · exact absurd (mem_singleton.mp hd ▸ hmis) hne
    · intro s hs
      rw [hchi, mem_append, not_or] at hs
      rw [(setNext_kept _ _ _ _).1, h.failOther s hs.1]
    · intro s
      simpa using h.kept s
  · -- an existing transition: the child is queued, its fail state found at `f`
    refine ⟨setFail table' ((table r).nextState c) ((table f).nextState c), ?_, ?_⟩
    · simp [buildByte, locateNext, hrow, hfail, hnext, hmis, hf.complete, children]
    constructor
    · intro s hs
      rw [setFail_next, h.other s hs]
    · intro d
      rw [setFail_next, h.row]
      by_cases hdc : d = c
      · simp [hdc, hmis]
      · simp [hdc]
    · intro d hd hne
      rw [setFail_fail]
      rcases mem_append.mp hd with hd | hd
      · rw [if_neg, h.failChild d hd hne]
        exact fun heq => hc (hf.inj d c hne heq ▸ hd)
      · rw [mem_singleton.mp hd, if_pos rfl]
    · intro s hs
      rw [hchi, mem_append, not_or] at hs
      rw [setFail_fail, if_neg, h.failOther s hs.1]
      rintro rfl
      exact hs.2 (mem_children.mpr ⟨c, mem_singleton_self c, rfl, hmis⟩)
    · intro s
      simpa using h.kept s

lemma foldlM_buildByte (hf : Fillable table r f) (fuel : ℕ) (queue : List ℕ) (hnd : bytes.Nodup) :
    ∃ table', bytes.foldlM (buildByte (fuel + 1) r) (table, queue) =
        .ok (table', queue ++ children (table r) bytes) ∧ Filled table table' r f bytes := by
  induction bytes using List.reverseRecOn with
  | nil =>
    refine ⟨table, by simp [children], ?_⟩
    exact ⟨fun _ _ => rfl, by simp, by simp, fun _ _ => rfl, fun _ => ⟨rfl, rfl⟩⟩
  | append_singleton bytes c ih =>
    rw [← concat_eq_append, nodup_concat] at hnd
    obtain ⟨table₁, hrun, h⟩ := ih hnd.2
    obtain ⟨table', hstep, h'⟩ := h.byte hf hnd.1 fuel _
    refine ⟨table', ?_, h'⟩
    rw [foldlM_append, hrun, ok_bind, foldlM_cons, hstep]
    simp [children]

/-! ## The order of the queue -/

/-- The queue holds the next states in order of depth: those not yet taken whose
parent has been taken (`done`). -/
structure QueueInv (base : ℕ → AcsmStateTable) (num : ℕ) (word : ℕ → List UInt8)
    (queue : List ℕ) (done : Finset ℕ) : Prop where
  root : 0 ∈ done ∨ 0 ∈ queue
  done_le : ∀ s ∈ done, s ≤ num
  queue_le : ∀ s ∈ queue, s ≤ num
  fresh : ∀ s ∈ queue, s ∉ done
  nodup : queue.Nodup
  sorted : queue.Pairwise fun a b => (word a).length ≤ (word b).length
  spread : ∀ a ∈ queue, ∀ b ∈ queue, (word b).length ≤ (word a).length + 1
  seen : ∀ p ≤ num, ∀ c, (base p).nextState c ≠ acsmFailState →
    ((base p).nextState c ∈ done ∨ (base p).nextState c ∈ queue ↔ p ∈ done)

namespace QueueInv

variable {queue : List ℕ} {done : Finset ℕ} {s : ℕ}

lemma mem_done (h : QueueInv base num word queue done) (ht : Trie base num word)
    (hnum : num < acsmFailState) (hs : s ≤ num) (hlt : ∀ q ∈ queue, (word s).length < (word q).length) : s ∈ done := by
  induction hn : (word s).length generalizing s with
  | zero =>
    have h0 : s = 0 := by
      by_contra h0
      exact ht.word_ne_nil hs h0 (length_eq_zero_iff.mp hn)
    subst h0
    exact h.root.resolve_right fun hq => lt_irrefl _ (hlt 0 hq)
  | succ n ih =>
    have h0 : s ≠ 0 := by
      intro h0
      rw [h0, ht.root] at hn
      simp at hn
    obtain ⟨p, hp, c, hc⟩ := ht.parent s hs h0
    have hne : (base p).nextState c ≠ acsmFailState := by omega
    have hlen := ht.next_length hp hne
    rw [hc] at hlen
    have hpd : p ∈ done := ih hp (fun q hq => by have := hlt q hq; omega) (by omega)
    rcases (h.seen p hp c hne).mpr hpd with hd | hq
    · exact hc ▸ hd
    · have := hlt s (hc ▸ hq)
      omega

lemma eq_range (h : QueueInv base num word [] done) (ht : Trie base num word)
    (hnum : num < acsmFailState) : done = Finset.range (num + 1) := by
  ext s
  rw [Finset.mem_range, Nat.lt_succ_iff]
  exact ⟨h.done_le s, fun hs => h.mem_done ht hnum hs (by simp)⟩

lemma head_ne_zero (h : QueueInv base num word (r :: queue) done) (hroot : 0 ∈ done) :
    r ≠ 0 := fun h0 => h.fresh r mem_cons_self (h0 ▸ hroot)

lemma start (ht : Trie base num word) : QueueInv base num word [0] ∅ := by
  refine ⟨by simp, by simp, by simp, by simp, by simp, by simp, by simp, ?_⟩
  intro p hp c hc
  simpa using ht.next_ne_zero hp hc

lemma child_new (h : QueueInv base num word (r :: queue) done)
    (hs : s ∈ children (base r) alphabet) : s ∉ done ∧ s ∉ r :: queue := by
  obtain ⟨c, -, rfl, hne⟩ := mem_children.mp hs
  have hr := h.fresh r mem_cons_self
  have hseen := h.seen r (h.queue_le r mem_cons_self) c hne
  exact ⟨fun hd => hr (hseen.mp (Or.inl hd)), fun hq => hr (hseen.mp (Or.inr hq))⟩

lemma step (h : QueueInv base num word (r :: queue) done) (ht : Trie base num word) :
    QueueInv base num word (queue ++ children (base r) alphabet) (insert r done) := by
  have hr : r ≤ num := h.queue_le r mem_cons_self
  have hchi : ∀ s ∈ children (base r) alphabet, s ≤ num ∧ (word s).length = (word r).length + 1 := by
    intro s hs
    obtain ⟨c, -, rfl, hne⟩ := mem_children.mp hs
    exact ⟨(ht.next r hr c hne).1, ht.next_length hr hne⟩
  have hsor := pairwise_cons.mp h.sorted
  have hnod := nodup_cons.mp h.nodup
  -- everything left in the queue is as deep as the head or one deeper
  have hque : ∀ a ∈ queue, (word r).length ≤ (word a).length ∧
      (word a).length ≤ (word r).length + 1 := fun a ha =>
    ⟨hsor.1 a ha, h.spread r mem_cons_self a (mem_cons_of_mem _ ha)⟩
  have hdep : ∀ a ∈ queue ++ children (base r) alphabet, (word r).length ≤ (word a).length ∧
      (word a).length ≤ (word r).length + 1 := by
    intro a ha
    rcases mem_append.mp ha with ha | ha
    · exact hque a ha
    · have := (hchi a ha).2
      omega
  constructor
  · rcases h.root with h0 | h0
    · exact Or.inl (Finset.mem_insert_of_mem h0)
    · rcases mem_cons.mp h0 with rfl | h0
      · exact Or.inl (Finset.mem_insert_self _ _)
      · exact Or.inr (mem_append_left _ h0)
  · intro s hs
    rcases Finset.mem_insert.mp hs with rfl | hs
    · exact hr
    · exact h.done_le s hs
  · intro s hs
    rcases mem_append.mp hs with hs | hs
    · exact h.queue_le s (mem_cons_of_mem _ hs)
    · exact (hchi s hs).1
  · intro s hs hd
    rcases mem_append.mp hs with hq | hc <;> rcases Finset.mem_insert.mp hd with he | hd
    · exact hnod.1 (he ▸ hq)
    · exact h.fresh s (mem_cons_of_mem _ hq) hd
    · exact (h.child_new hc).2 (he ▸ mem_cons_self)
    · exact (h.child_new hc).1 hd
  · refine nodup_append.mpr ⟨hnod.2, ?_, ?_⟩
    · unfold children
      rw [filter_map]
      refine List.Nodup.map_on ?_ (alphabet_nodup.filter _)
      intro c hc d _ he
      have hne : (base r).nextState c ≠ acsmFailState := by simpa using (mem_filter.mp hc).2
      exact (ht.next_injective hr hr hne he).2
    · intro a ha b hb hab
      exact (h.child_new hb).2 (mem_cons_of_mem _ (hab ▸ ha))
  · refine pairwise_append.mpr ⟨hsor.2, ?_, ?_⟩
    · refine pairwise_of_forall_mem_list ?_
      intro a ha b hb
      rw [(hchi a ha).2, (hchi b hb).2]
    · intro a ha b hb
      rw [(hchi b hb).2]
      exact (hque a ha).2
  · intro a ha b hb
    have := hdep a ha
    have := hdep b hb
    omega
  · intro p hp c hne
    have hseen := h.seen p hp c hne
    rw [Finset.mem_insert, Finset.mem_insert, mem_append, ← hseen, mem_cons]
    have hpr : (base p).nextState c ∈ children (base r) alphabet ↔ p = r := by
      rw [mem_children]
      constructor
      · intro ⟨d, _, he, _⟩
        exact (ht.next_injective hp hr hne he.symm).1
      · intro he
        exact ⟨c, mem_alphabet c, by rw [he], hne⟩
    tauto

end QueueInv

/-! ## The table -/

/-- Taken states have all their transitions, the others those of the trie; fail
states are set from the moment a state is queued. -/
structure TableInv (base table : ℕ → AcsmStateTable) (num : ℕ) (word : ℕ → List UInt8)
    (queue : List ℕ) (done : Finset ℕ) : Prop where
  complete : ∀ s ∈ done, ∀ c, (table s).nextState c ≤ num ∧
    word ((table s).nextState c) = longestSuffix (nodes num word) (word s ++ [c])
  pending : ∀ s, s ∉ done → (table s).nextState = (base s).nextState
  fail : ∀ s, s ∈ done ∨ s ∈ queue → s ≠ 0 → (table s).failState ≤ num ∧
    word (table s).failState = properSuffix (nodes num word) (word s)
  rootFail : (table 0).failState = 0
  kept : ∀ s, (table s).matchList = (base s).matchList ∧ (table s).flag = (base s).flag

variable {queue : List ℕ} {done : Finset ℕ}

section

variable (hq : QueueInv base num word (r :: queue) done)
  (hi : TableInv base table num word (r :: queue) done)
  (ht : Trie base num word)
  (hnum : num < acsmFailState)
  (hroot : 0 ∈ done)

include hq hi ht hnum hroot

/-- The fail state of the head of the queue has already been taken. -/
theorem fail_mem_done : (table r).failState ∈ done := by
  have hr := hq.queue_le r mem_cons_self
  obtain ⟨hle, hw⟩ := hi.fail r (Or.inr mem_cons_self) (hq.head_ne_zero hroot)
  apply hq.mem_done ht hnum hle
  intro q hqm
  have hlt := properSuffix_length_lt (nodes num word) (ht.word_ne_nil hr (hq.head_ne_zero hroot))
  rw [← hw] at hlt
  rcases mem_cons.mp hqm with rfl | hqm
  · exact hlt
  · exact lt_of_lt_of_le hlt ((pairwise_cons.mp hq.sorted).1 q hqm)

lemma TableInv.step (hfill : Filled table table' r (table r).failState alphabet) :
    TableInv base table' num word (queue ++ children (base r) alphabet) (insert r done) := by
  have hr := hq.queue_le r mem_cons_self
  have hrow : (table r).nextState = (base r).nextState := hi.pending r (hq.fresh r mem_cons_self)
  have hch : children (table r) alphabet = children (base r) alphabet := by
    unfold children
    rw [hrow]
  have hfd := fail_mem_done hq hi ht hnum hroot
  obtain ⟨-, hfw⟩ := hi.fail r (Or.inr mem_cons_self) (hq.head_ne_zero hroot)
  have hne := ht.word_ne_nil hr (hq.head_ne_zero hroot)
  have hP := ht.prefixClosed hnum
  constructor
  · intro s hs c
    by_cases hsr : s = r
    · subst hsr
      rw [hfill.row]
      split_ifs with hc
      · -- a missing transition leads where the fail state leads
        obtain ⟨hle, hw⟩ := hi.complete _ hfd c
        have hmem : word s ++ [c] ∉ nodes num word := by
          rw [← ht.next_ne_fail_iff hnum hr c, ← hrow, not_not]
          exact hc.2
        refine ⟨hle, ?_⟩
        rw [hw, hfw, longestSuffix_concat_of_notMem hP ht.nil_mem hne hmem]
      · have hb : (base s).nextState c ≠ acsmFailState := fun h => hc ⟨mem_alphabet c, hrow ▸ h⟩
        rw [hrow]
        obtain ⟨hle, hw⟩ := ht.next s hr c hb
        refine ⟨hle, ?_⟩
        rw [hw, longestSuffix_of_mem ((ht.next_ne_fail_iff hnum hr c).mp hb)]
    · rw [hfill.other s hsr]
      exact hi.complete s ((Finset.mem_insert.mp hs).resolve_left hsr) c
  · intro s hs
    rw [Finset.mem_insert, not_or] at hs
    rw [hfill.other s hs.1]
    exact hi.pending s hs.2
  · intro s hs h0
    by_cases hsc : s ∈ children (base r) alphabet
    · obtain ⟨c, -, rfl, hb⟩ := mem_children.mp hsc
      have hf := hfill.failChild c (mem_alphabet c) (by rw [hrow]; exact hb)
      rw [hrow] at hf
      obtain ⟨hle, hw⟩ := hi.complete _ hfd c
      rw [hf, hw, hfw, (ht.next r hr c hb).2, properSuffix_concat hP ht.nil_mem hne]
      exact ⟨hle, rfl⟩
    · rw [hfill.failOther s (by rw [hch]; exact hsc)]
      apply hi.fail s _ h0
      rcases hs with hs | hs
      · rcases Finset.mem_insert.mp hs with rfl | hs
        · exact Or.inr mem_cons_self
        · exact Or.inl hs
      · exact Or.inr (mem_cons_of_mem _ ((mem_append.mp hs).resolve_right hsc))
  · have h0 : 0 ∉ children (base r) alphabet := fun h0 => (hq.child_new h0).1 hroot
    rw [hfill.failOther 0 (by rw [hch]; exact h0)]
    exact hi.rootFail
  · intro s
    rw [(hfill.kept s).1, (hfill.kept s).2]
    exact hi.kept s

end

/-- The queue runs empty, and then every state has all its transitions. -/
theorem buildLoop_spec (inner fuel : ℕ) (hq : QueueInv base num word queue done)
    (hi : TableInv base table num word queue done) (ht : Trie base num word)
    (hnum : num < acsmFailState) (hroot : 0 ∈ done) (hfuel : num + 1 ≤ fuel + done.card) :
    ∃ table', buildLoop (inner + 1) fuel table queue = .ok table' ∧
      TableInv base table' num word [] (Finset.range (num + 1)) := by
  induction fuel generalizing table queue done with
  | zero =>
    have hall : done = Finset.range (num + 1) := by
      apply Finset.eq_of_subset_of_card_le
      · intro s hs
        exact Finset.mem_range.mpr (Nat.lt_succ_of_le (hq.done_le s hs))
      · rw [Finset.card_range]
        omega
    cases queue with
    | nil => exact ⟨table, rfl, hall ▸ hi⟩
    | cons r queue =>
      have hr := hq.fresh r mem_cons_self
      rw [hall, Finset.mem_range] at hr
      have := hq.queue_le r mem_cons_self
      omega
  | succ fuel ih =>
    cases queue with
    | nil => exact ⟨table, rfl, hq.eq_range ht hnum ▸ hi⟩
    | cons r queue =>
      have hr := hq.queue_le r mem_cons_self
      have hrd := hq.fresh r mem_cons_self
      have hrow : (table r).nextState = (base r).nextState := hi.pending r hrd
      have hfd := fail_mem_done hq hi ht hnum hroot
      have hf : Fillable table r (table r).failState := by
        refine ⟨fun h => hrd (h ▸ hfd), rfl, fun c => ?_, ?_, ?_⟩
        · have := (hi.complete _ hfd c).1
          omega
        · intro c hc he
          rw [hrow] at hc he
          have := ht.next_length hr hc
          rw [he] at this
          omega
        · rw [hrow]
          exact fun c d hc he => (ht.next_injective hr hr hc he).2
      obtain ⟨table₁, hrun, hfill⟩ := foldlM_buildByte hf inner queue alphabet_nodup
      have hch : children (table r) alphabet = children (base r) alphabet := by
        unfold children
        rw [hrow]
      rw [hch] at hrun
      obtain ⟨table', hloop, hi'⟩ := ih (hq.step ht) (hi.step hq ht hnum hroot hfill)
        (Finset.mem_insert_of_mem hroot) (by rw [Finset.card_insert_of_notMem hrd]; omega)
      refine ⟨table', ?_, hi'⟩
      rw [buildLoop, hrun]
      exact hloop

/-! ## The first level -/

@[simp] lemma closeRoot_next_of_ne (acsm : AcsmStruct) (hs : s ≠ 0) :
    ((closeRoot acsm).acsmStateTable s).nextState = (acsm.acsmStateTable s).nextState := by
  simp [closeRoot, setRow, hs]

lemma closeRoot_next_zero (acsm : AcsmStruct) (c : UInt8) : ((closeRoot acsm).acsmStateTable 0).nextState c =
      if (acsm.acsmStateTable 0).nextState c = acsmFailState then 0 else (acsm.acsmStateTable 0).nextState c := by
  simp [closeRoot, setRow]

lemma closeRoot_kept (acsm : AcsmStruct) (s : ℕ) :
    ((closeRoot acsm).acsmStateTable s).matchList = (acsm.acsmStateTable s).matchList ∧
      ((closeRoot acsm).acsmStateTable s).flag = (acsm.acsmStateTable s).flag := by
  by_cases hs : s = 0 <;> simp [closeRoot, setRow, hs]

lemma foldl_queueRoot (table : ℕ → AcsmStateTable) (bytes : List UInt8) (queue : List ℕ) :
    ∃ table', bytes.foldl (fun st i => let s := (st.1 0).nextState i
        if s ≠ 0 then (setFail st.1 s 0, st.2 ++ [s]) else st) (table, queue) =
        (table', queue ++ (bytes.map (table 0).nextState).filter (· ≠ 0)) ∧
      (∀ s, (table' s).nextState = (table s).nextState) ∧
      (∀ s, (table s).failState = 0 ∨ s ∈ (bytes.map (table 0).nextState).filter (· ≠ 0) →
        (table' s).failState = 0) ∧
      ∀ s, (table' s).matchList = (table s).matchList ∧ (table' s).flag = (table s).flag := by
  induction bytes generalizing table queue with
  | nil => exact ⟨table, by simp, fun _ => rfl, by simp, fun _ => ⟨rfl, rfl⟩⟩
  | cons c bytes ih =>
    by_cases hc : (table 0).nextState c = 0
    · obtain ⟨table', hrun, hnext, hfail, hkept⟩ := ih table queue
      refine ⟨table', ?_, hnext, ?_, hkept⟩
      · simpa [hc] using hrun
      · intro s hs
        apply hfail s
        simpa [hc] using hs
    · obtain ⟨table', hrun, hnext, hfail, hkept⟩ :=
        ih (setFail table _ 0) (queue ++ [(table 0).nextState c])
      simp only [setFail_next] at hrun hnext hfail
      refine ⟨table', ?_, hnext, ?_, fun s => ?_⟩
      · simpa [hc] using hrun
      · intro s hs
        apply hfail s
        rw [setFail_fail]
        by_cases hsc : s = (table 0).nextState c
        · exact Or.inl (if_pos hsc)
        · simpa [hsc] using hs
      · rw [(hkept s).1, (hkept s).2]
        exact setFail_kept _ _ s

variable {acsm : AcsmStruct}

lemma queueRoot_spec (ht : Trie acsm.acsmStateTable acsm.acsmNumState word)
    (hfail0 : (acsm.acsmStateTable 0).failState = 0) (hnum : acsm.acsmNumState < acsmFailState) :
    ∃ table, queueRoot (closeRoot acsm).acsmStateTable = (table, children (acsm.acsmStateTable 0) alphabet) ∧
      QueueInv acsm.acsmStateTable acsm.acsmNumState word (children (acsm.acsmStateTable 0) alphabet) {0} ∧
      TableInv acsm.acsmStateTable table acsm.acsmNumState word (children (acsm.acsmStateTable 0) alphabet) {0} := by
  have h0 : 0 ≤ acsm.acsmNumState := Nat.zero_le _
  have hq : (alphabet.map ((closeRoot acsm).acsmStateTable 0).nextState).filter (· ≠ 0) =
      children (acsm.acsmStateTable 0) alphabet := by
    unfold children
    rw [filter_map, filter_map]
    have hfil : alphabet.filter ((fun x => decide (x ≠ 0)) ∘ ((closeRoot acsm).acsmStateTable 0).nextState) =
        alphabet.filter ((fun x => decide (x ≠ acsmFailState)) ∘
          (acsm.acsmStateTable 0).nextState) := by
      apply filter_congr
      intro c _
      simp only [Function.comp, closeRoot_next_zero]
      split_ifs with hc
      · simp [hc]
      · simp [hc, ht.next_ne_zero h0 hc]
    rw [hfil]
    apply map_congr_left
    intro c hc
    have hne : (acsm.acsmStateTable 0).nextState c ≠ acsmFailState := by
      simpa using (mem_filter.mp hc).2
    rw [closeRoot_next_zero, if_neg hne]
  obtain ⟨table, hrun, hnext, hfail, hkept⟩ := foldl_queueRoot _ _ []
  rw [hq] at hrun hfail
  refine ⟨table, hrun, (QueueInv.start ht).step ht, ?_⟩
  constructor
  · intro s hs c
    rw [Finset.mem_singleton] at hs
    subst hs
    rw [hnext, closeRoot_next_zero, ht.root, nil_append]
    have hiff := ht.next_ne_fail_iff hnum h0 c
    rw [ht.root, nil_append] at hiff
    split_ifs with hc
    · have hmem : [c] ∉ nodes acsm.acsmNumState word := fun h => hiff.mpr h hc
      refine ⟨h0, ?_⟩
      rw [ht.root, longestSuffix, if_neg hmem]
      rfl
    · obtain ⟨hle, hw⟩ := ht.next 0 h0 c hc
      rw [ht.root, nil_append] at hw
      refine ⟨hle, ?_⟩
      rw [hw, longestSuffix_of_mem (hiff.mp hc)]
  · intro s hs
    rw [Finset.mem_singleton] at hs
    rw [hnext, closeRoot_next_of_ne acsm hs]
  · intro s hs hs0
    have hsc := hs.resolve_left (by simpa using hs0)
    rw [hfail s (Or.inr hsc)]
    obtain ⟨c, -, rfl, hc⟩ := mem_children.mp hsc
    rw [(ht.next 0 h0 c hc).2, ht.root]
    exact ⟨h0, rfl⟩
  · apply hfail 0 (Or.inl _)
    simpa [closeRoot, setRow] using hfail0
  · intro s
    rw [(hkept s).1, (hkept s).2]
    exact closeRoot_kept acsm s

/-! ## The compiled automaton -/

def prefixes (pats : List AcsmPattern) : Set (List UInt8) := {w | w = [] ∨ ∃ p ∈ pats, w <+: p.patrnCap}

/-- Each state spells a prefix of a pattern; transitions and fail states are those
of longest suffixes, and match lists stand at the states that spell a pattern. -/
structure Compiled (acsm : AcsmStruct) (word : ℕ → List UInt8) : Prop where
  num_lt : acsm.acsmNumState < acsm.acsmMaxState
  max_lt : acsm.acsmMaxState < acsmFailState
  root : word 0 = []
  inj : ∀ s ≤ acsm.acsmNumState, ∀ t ≤ acsm.acsmNumState, word s = word t → s = t
  nodes_eq : nodes acsm.acsmNumState word = prefixes acsm.acsmPatterns
  next : ∀ s ≤ acsm.acsmNumState, ∀ c,
    (acsm.acsmStateTable s).nextState c ≤ acsm.acsmNumState ∧
    word ((acsm.acsmStateTable s).nextState c) =
      longestSuffix (prefixes acsm.acsmPatterns) (word s ++ [c])
  fail : ∀ s ≤ acsm.acsmNumState, s ≠ 0 →
    (acsm.acsmStateTable s).failState ≤ acsm.acsmNumState ∧
    word (acsm.acsmStateTable s).failState = properSuffix (prefixes acsm.acsmPatterns) (word s)
  rootFail : (acsm.acsmStateTable 0).failState = 0
  matchList_sound : ∀ s ≤ acsm.acsmNumState, ∀ m ∈ (acsm.acsmStateTable s).matchList,
    m ∈ acsm.acsmPatterns ∧ m.patrnCap = word s
  matchList_complete : ∀ s ≤ acsm.acsmNumState, ∀ p ∈ acsm.acsmPatterns,
    p.patrnCap = word s → (acsm.acsmStateTable s).matchList ≠ []

lemma mem_of_isPrefix {P : Set (List UInt8)} (hP : PrefixClosed P) {u w : List UInt8}
    (hw : w ∈ P) (h : u <+: w) : u ∈ P := by
  obtain ⟨t, rfl⟩ := h
  induction t using List.reverseRecOn with
  | nil => simpa using hw
  | append_singleton t c ih => exact ih (hP _ c (by simpa using hw))

lemma nodes_eq_prefixes (h : Holds acsm pats word) (hnum : acsm.acsmNumState < acsmFailState) :
    nodes acsm.acsmNumState word = prefixes pats := by
  ext w
  constructor
  · intro ⟨s, hs, hw⟩
    rcases h.onlyPrefixes s hs with h0 | ⟨p, hp, hpre⟩
    · exact Or.inl (by rw [← hw, h0, h.trie.root])
    · exact Or.inr ⟨p, hp, hw ▸ hpre⟩
  · intro hw
    rcases hw with rfl | ⟨p, hp, hpre⟩
    · exact h.trie.nil_mem
    · exact mem_of_isPrefix (h.trie.prefixClosed hnum) (h.hasPattern p hp) hpre

lemma buildDFA_spec (h : Holds acsm pats word)
    (hmem : ∀ p, p ∈ pats ↔ p ∈ acsm.acsmPatterns) (hnum : acsm.acsmNumState < acsm.acsmMaxState)
    (hmax : acsm.acsmMaxState < acsmFailState) : ∃ acsm', buildDFA (closeRoot acsm) = .ok acsm' ∧ Compiled acsm' word ∧
      acsm'.acsmPatterns = acsm.acsmPatterns ∧ acsm'.acsmNumState = acsm.acsmNumState ∧
      ∀ s, (acsm'.acsmStateTable s).flag = (acsm.acsmStateTable s).flag := by
  have hnum' : acsm.acsmNumState < acsmFailState := hnum.trans hmax
  obtain ⟨table, hroot, hq, hi⟩ := queueRoot_spec h.trie (h.failZero 0) hnum'
  obtain ⟨inner, hinn⟩ : ∃ inner, acsm.acsmMaxState = inner + 1 := ⟨acsm.acsmMaxState - 1, by omega⟩
  obtain ⟨table', hloop, hi'⟩ := buildLoop_spec inner acsm.acsmMaxState
    hq hi h.trie hnum' (Finset.mem_singleton_self 0) (by omega)
  have hpre : nodes acsm.acsmNumState word = prefixes acsm.acsmPatterns := by
    rw [nodes_eq_prefixes h hnum']
    simp [prefixes, hmem]
  refine ⟨{ acsm with acsmStateTable := table' }, ?_, ?_, rfl, rfl, fun s => (hi'.kept s).2⟩
  · have hrun : buildDFA (closeRoot acsm) = (do
        let table ← buildLoop acsm.acsmMaxState acsm.acsmMaxState table
          (children (acsm.acsmStateTable 0) alphabet)
        return { closeRoot acsm with acsmStateTable := table }) := by
      simp only [buildDFA, hroot]
      rfl
    rw [hrun]
    nth_rewrite 1 [hinn]
    rw [hloop]
    rfl
  · have hdone : ∀ s ≤ acsm.acsmNumState, s ∈ Finset.range (acsm.acsmNumState + 1) :=
      fun s hs => Finset.mem_range.mpr (Nat.lt_succ_of_le hs)
    refine ⟨hnum, hmax, h.trie.root, h.trie.inj, hpre, ?_, ?_, hi'.rootFail, ?_, ?_⟩
    · intro s hs c
      rw [← hpre]
      exact hi'.complete s (hdone s hs) c
    · intro s hs h0
      rw [← hpre]
      exact hi'.fail s (Or.inl (hdone s hs)) h0
    · intro s hs m hm
      rw [(hi'.kept s).1] at hm
      exact ⟨(hmem m).mp (h.matchList_sound s hs m hm).1, (h.matchList_sound s hs m hm).2⟩
    · intro s hs p hp hw
      rw [(hi'.kept s).1]
      exact h.matchList_complete s hs p ((hmem p).mpr hp) hw

/-- The table after `AddPatternStates` of every pattern, before it is completed. -/
def trie (acsm : AcsmStruct) : AcsmStruct := acsm.acsmPatterns.foldl addPatternStates (initTable acsm)

/-- Every list of patterns whose table has fewer than 2^32 bytes compiles. -/
theorem acsmCompileCap_spec (acsm : AcsmStruct)
    (hfit : sizeofStateTable * (1 + (acsm.acsmPatterns.map AcsmPattern.nCap).sum) < 2 ^ 32) :
    ∃ acsm' word, acsmCompileCap acsm = .ok acsm' ∧ Compiled acsm' word ∧ acsm'.acsmPatterns = acsm.acsmPatterns ∧
      ((∀ p ∈ acsm.acsmPatterns, ∀ c ∈ p.patrnCap, c < 128) → ∀ s, (acsm'.acsmStateTable s).flag = .solid) ∧
      Trie (trie acsm).acsmStateTable acsm'.acsmNumState word := by
  have hkee := foldl_addPatternStates_keeps (initTable acsm) acsm.acsmPatterns
  have hsum : 1 + (acsm.acsmPatterns.map AcsmPattern.nCap).sum < acsmFailState := by
    unfold sizeofStateTable at hfit
    unfold acsmFailState
    omega
  obtain ⟨word, h⟩ := foldl_addPatternStates_holds (initTable_holds acsm) acsm.acsmPatterns
    (by simp only [map_nil, sum_nil]; omega)
  rw [append_nil] at h
  have hnum := h.num_le
  rw [map_reverse, sum_reverse] at hnum
  have hmax : (acsm.acsmPatterns.foldl addPatternStates (initTable acsm)).acsmMaxState =
      1 + (acsm.acsmPatterns.map AcsmPattern.nCap).sum := hkee.max
  obtain ⟨acsm', hrun, hcomp, hpats, hsame, hflag⟩ := buildDFA_spec h
    (by intro p; rw [hkee.patterns]; simp [initTable]) (by omega) (by omega)
  refine ⟨acsm', word, ?_, hcomp, hpats.trans hkee.patterns, fun hasc s => ?_, hsame ▸ h.trie⟩
  · exact (if_pos hfit).trans hrun
  · rw [hflag]
    refine hkee.solid (fun c hc => ?_) (fun _ => rfl) s
    obtain ⟨p, hp, hcp⟩ := mem_flatMap.mp hc
    exact hasc p hp c hcp

/-! ## The states reached -/

/-- The trie node of a word. -/
def node (acsm : AcsmStruct) (u : List UInt8) : ℕ := (matchUp (trie acsm).acsmStateTable 0 u).1

def walk (acsm : AcsmStruct) (w : List UInt8) : ℕ :=
  w.foldl (fun s c => (acsm.acsmStateTable s).nextState c) 0

lemma matchUp_word (h : Trie table num word) (hnum : num < acsmFailState) {u : List UInt8}
    (hu : u ∈ nodes num word) : (matchUp table 0 u).1 ≤ num ∧ word (matchUp table 0 u).1 = u := by
  obtain ⟨hle, hw, hstop⟩ := matchUp_spec h (Nat.zero_le _) u
  rw [h.root] at hw
  refine ⟨hle, ?_⟩
  rcases hr : (matchUp table 0 u).2 with _ | ⟨c, rest⟩
  · rwa [hr, append_nil] at hw
  · rw [hr] at hw
    have hpre : word (matchUp table 0 u).1 ++ [c] ∈ nodes num word :=
      mem_of_isPrefix (h.prefixClosed hnum) hu ⟨rest, by simpa using hw⟩
    exact absurd (hstop c rest hr) ((h.next_ne_fail_iff hnum hle c).mpr hpre)

lemma Compiled.walk_word (hc : Compiled acsm word) (hP : PrefixClosed (prefixes acsm.acsmPatterns))
    (w : List UInt8) : walk acsm w ≤ acsm.acsmNumState ∧
      word (walk acsm w) = longestSuffix (prefixes acsm.acsmPatterns) w := by
  induction w using List.reverseRecOn with
  | nil => exact ⟨Nat.zero_le _, hc.root⟩
  | append_singleton w c ih =>
    have hnext := hc.next _ ih.1 c
    rw [ih.2, ← longestSuffix_concat hP (Or.inl rfl)] at hnext
    rwa [walk, foldl_append]

theorem acsmCompileCap_nodes (start : AcsmStruct)
    (hfit : sizeofStateTable * (1 + (start.acsmPatterns.map AcsmPattern.nCap).sum) < 2 ^ 32) :
    ∃ acsm, acsmCompileCap start = .ok acsm ∧ acsm.acsmNumState < acsm.acsmMaxState ∧
      (∀ s ≤ acsm.acsmNumState, (∀ c, (acsm.acsmStateTable s).nextState c < acsm.acsmMaxState) ∧
        (acsm.acsmStateTable s).failState < acsm.acsmMaxState) ∧
      (∀ w, walk acsm w = node start (longestSuffix (prefixes start.acsmPatterns) w)) ∧
      ∀ u ∈ prefixes start.acsmPatterns, u ≠ [] → (acsm.acsmStateTable (node start u)).failState =
        node start (properSuffix (prefixes start.acsmPatterns) u) := by
  obtain ⟨acsm, word, hrun, hc, hpat, -, ht⟩ := acsmCompileCap_spec start hfit
  have hnum := hc.num_lt.trans hc.max_lt
  have hP := hc.nodes_eq ▸ ht.prefixClosed hnum
  have hnode : ∀ u ∈ prefixes acsm.acsmPatterns, node start u ≤ acsm.acsmNumState ∧ word (node start u) = u :=
    fun u hu => matchUp_word ht hnum (hc.nodes_eq ▸ hu)
  have hlong := fun w => hnode _ (longestSuffix_mem (Or.inl rfl) w)
  rw [← hpat]
  refine ⟨acsm, hrun, hc.num_lt, ?_, ?_, ?_⟩
  · intro s hs
    refine ⟨fun c => (hc.next s hs c).1.trans_lt hc.num_lt, ?_⟩
    rcases eq_or_ne s 0 with rfl | h0
    · rw [hc.rootFail]
      exact Nat.zero_lt_of_lt hc.num_lt
    · exact (hc.fail s hs h0).1.trans_lt hc.num_lt
  · intro w
    obtain ⟨hle, hw⟩ := hc.walk_word hP w
    exact hc.inj _ hle _ (hlong w).1 (hw.trans (hlong w).2.symm)
  · intro u hu hne
    obtain ⟨hle, hw⟩ := hnode u hu
    have h0 : node start u ≠ 0 := fun h0 => hne (by rw [← hw, h0, hc.root])
    obtain ⟨hfle, hf⟩ := hc.fail _ hle h0
    rw [hw] at hf
    exact hc.inj _ hfle _ (hlong _).1 (hf.trans (hlong _).2.symm)

theorem acsmCompileCap_nodes_ab : ∃ acsm, acsmCompileCap (acsmAddPatterns [([97, 98], 1)]) = .ok acsm ∧
    walk acsm [99, 65] = node (acsmAddPatterns [([97, 98], 1)])
      (longestSuffix (prefixes [⟨[65, 66], 1⟩]) [99, 65]) := by
  obtain ⟨acsm, hrun, -, -, hwalk, -⟩ :=
    acsmCompileCap_nodes (acsmAddPatterns [([97, 98], 1)]) (by decide)
  exact ⟨acsm, hrun, hwalk _⟩

lemma acsmCompileCap_overrun {n : ℕ} (hn : 2 ^ 32 ≤ sizeofStateTable * (1 + n)) :
    acsmCompileCap (acsmAddPatterns [(List.replicate n 65, 1)]) = .error .bounds := by
  apply if_neg
  have hmax : (initTable (acsmAddPatterns [(List.replicate n 65, 1)])).acsmMaxState = 1 + n := by
    simp [initTable, acsmAddPatterns, acsmAddPattern, acsmNew, AcsmPattern.nCap]
  rw [hmax]
  omega

end SquidVideoCache.Acsm
