import SquidVideoCache.Lib.Machine
import SquidVideoCache.Lib.Text
import Mathlib.Data.List.Sort

/-!
# The event queue, event.c

Events are kept in the order in which they are due. `eventRun` takes them from the front and
calls their handlers, which may add and delete events; what it must not run is marked with the
number of the run. Times are doubles other than NaN, here any linear order.
-/

namespace SquidVideoCache.Events

open Lib List

/-- `serial` numbers the events in the order in which they are added. It is not in the program. -/
structure Event (T F A : Type) where
  func : F
  arg : Option A
  when : T
  weight : ℤ
  id : ℤ
  serial : ℕ

/-- `now` is `current_dtime`. -/
structure State (T F A : Type) where
  tasks : List (Event T F A) := []
  runId : ℤ := 0
  now : T
  added : ℕ := 0

inductive Call (T F A : Type) where
  | add (func : F) (arg : Option A) (when : T) (weight : ℤ)
  | delete (func : F) (arg : Option A)

/-- The events that are run, each with the queue at that time. -/
abbrev Log (T F A : Type) := List (Event T F A × List (Event T F A))

/-- What is found out when an event is run: whether its argument is valid, and what its handler calls. -/
structure Answer (T F A : Type) where
  valid : Bool
  calls : List (Call T F A)

variable {T F A : Type} [LinearOrder T] [Add T] [DecidableEq F] [DecidableEq A]

def eventAdd (s : State T F A) (func : F) (arg : Option A) (when : T) (weight : ℤ) : State T F A :=
  let event : Event T F A := ⟨func, arg, s.now + when, weight, s.runId, s.added⟩
  { s with tasks := s.tasks.orderedInsert (fun a b => a.when < b.when) event, added := s.added + 1 }

def eventDelete (s : State T F A) (func : F) (arg : Option A) : State T F A :=
  { s with tasks := s.tasks.eraseP fun event => event.func = func ∧ (arg = none ∨ event.arg = arg) }

def perform (s : State T F A) : Call T F A → State T F A
  | .add func arg when weight => eventAdd s func arg when weight
  | .delete func arg => eventDelete s func arg

/-- The loop of `eventRun`. -/
def runLoop (answer : ℕ → Answer T F A) : ℕ → State T F A → ℤ → Log T F A → Exec (State T F A × Log T F A)
  | 0, _, _, _ => .error .diverges
  | n + 1, s, weight, ran =>
    match s.tasks with
    | [] => .ok (s, ran)
    | event :: tasks =>
      if event.when > s.now ∨ event.id = s.runId ∨ weight ≠ 0 then .ok (s, ran)
      else if event.arg = none ∨ (answer n).valid then
        runLoop answer n ((answer n).calls.foldl perform { s with tasks }) (weight + event.weight)
          (ran ++ [(event, tasks)])
      else runLoop answer n { s with tasks } weight ran

/-- The loop has no more rounds than there are events, and one. -/
def eventRun (answer : ℕ → Answer T F A) (s : State T F A) : Exec (State T F A × Log T F A) :=
  match s.tasks with
  | [] => .ok (s, [])
  | event :: _ =>
    if event.when > s.now then .ok (s, [])
    else runLoop answer (s.tasks.length + 1) { s with runId := toInt (s.runId + 1) } 0 []

inductive Step (T F A : Type) where
  | call (c : Call T F A)
  | run (answer : ℕ → Answer T F A)
  | tick (now : T)

def machine (T F A : Type) [LinearOrder T] [Add T] [DecidableEq F] [DecidableEq A] (start : T) :
    Machine (State T F A) (Step T F A) Fault where
  init := { now := start }
  enabled
    | s, .tick now => s.now ≤ now
    | _, _ => true
  step
    | s, .call c => .ok (perform s c)
    | s, .run answer => (eventRun answer s).map Prod.fst
    | s, .tick now => .ok { s with now }

/-! ## The order of the queue -/

/-- The first event is due earlier, or at the same time and was added earlier. -/
def Before (a b : Event T F A) : Prop := a.when < b.when ∨ a.when = b.when ∧ a.serial < b.serial

structure Ordered (s : State T F A) : Prop where
  tasks : s.tasks.Pairwise Before
  serial : ∀ event ∈ s.tasks, event.serial < s.added

variable {s s' : State T F A} {e : Event T F A} {l : List (Event T F A)} {answer : ℕ → Answer T F A}
  {ran : Log T F A} {n : ℕ} {w : ℤ}

section

omit [Add T] [DecidableEq F] [DecidableEq A]

lemma pairwise_orderedInsert (hl : l.Pairwise Before) (hser : ∀ x ∈ l, x.serial < e.serial) :
    (l.orderedInsert (fun a b => a.when < b.when) e).Pairwise Before := by
  induction l with
  | nil => exact pairwise_singleton _ _
  | cons x l ih =>
    obtain ⟨hx, hl⟩ := pairwise_cons.mp hl
    rw [List.orderedInsert]
    split_ifs with hlt
    · -- the event comes before all that are due later
      refine pairwise_cons.mpr ⟨fun y hy => .inl ?_, pairwise_cons.mpr ⟨hx, hl⟩⟩
      rcases mem_cons.mp hy with rfl | hy
      · exact hlt
      · rcases hx y hy with h | h
        · exact hlt.trans h
        · exact hlt.trans_eq h.1
    · refine pairwise_cons.mpr ⟨fun y hy => ?_, ih hl fun y hy => hser y (mem_cons_of_mem x hy)⟩
      rcases mem_cons.mp ((perm_orderedInsert _ e l).mem_iff.mp hy) with rfl | hy
      · rcases (not_lt.mp hlt).lt_or_eq with h | h
        · exact .inl h
        · exact .inr ⟨h, hser x mem_cons_self⟩
      · exact hx y hy

lemma Ordered.sublist (hs : Ordered s) (hl : l.Sublist s.tasks) : Ordered { s with tasks := l } :=
  ⟨hs.tasks.sublist hl, fun event hmem => hs.serial event (hl.subset hmem)⟩

end

lemma Ordered.perform (hs : Ordered s) (c : Call T F A) : Ordered (perform s c) := by
  cases c with
  | add func arg when weight =>
    refine ⟨pairwise_orderedInsert hs.tasks hs.serial, fun event hmem => ?_⟩
    rcases mem_cons.mp ((perm_orderedInsert _ _ _).mem_iff.mp hmem) with rfl | hmem
    · exact Nat.lt_succ_self _
    · exact Nat.lt_succ_of_lt (hs.serial event hmem)
  | delete func arg => exact hs.sublist eraseP_sublist

/-! ## One run -/

/-- The events that were not added in this run. -/
def old (s : State T F A) : List (Event T F A) := s.tasks.filter fun event => event.id ≠ s.runId

omit [Add T] [DecidableEq F] [DecidableEq A] in
lemma filter_orderedInsert {p : Event T F A → Bool} (he : p e = false) :
    (l.orderedInsert (fun a b => a.when < b.when) e).filter p = l.filter p := by
  induction l with
  | nil => simp [he]
  | cons x l ih =>
    rw [List.orderedInsert]
    split_ifs with hlt
    · rw [filter_cons_of_neg (by simp [he])]
    · rw [filter_cons, ih, ← filter_cons]

structure Called (s s' : State T F A) : Prop where
  ordered : Ordered s → Ordered s'
  old : (old s').Sublist (old s)
  now : s'.now = s.now
  runId : s'.runId = s.runId

lemma called_foldl (calls : List (Call T F A)) (s : State T F A) : Called s (calls.foldl perform s) := by
  induction calls generalizing s with
  | nil => exact ⟨id, List.Sublist.refl _, rfl, rfl⟩
  | cons c calls ih =>
    have hone : Called s (perform s c) := by
      cases c with
      | add func arg when weight =>
        have hold : old (eventAdd s func arg when weight) = old s :=
          filter_orderedInsert (decide_eq_false (not_not_intro rfl))
        exact ⟨fun hs => hs.perform _, hold ▸ List.Sublist.refl _, rfl, rfl⟩
      | delete func arg => exact ⟨fun hs => hs.perform _, eraseP_sublist.filter _, rfl, rfl⟩
    have hrest := ih (perform s c)
    exact ⟨hrest.ordered ∘ hone.ordered, hrest.old.trans hone.old, hrest.now.trans hone.now, hrest.runId.trans hone.runId⟩

/-- The events that have been run and those that still may be are from the queue `l`, in its order. -/
structure Fair (l : List (Event T F A)) (s : State T F A) (ran : Log T F A) : Prop where
  ordered : Ordered s
  old : (ran.map Prod.fst ++ old s).Sublist l
  due : ∀ r ∈ ran, r.1.when ≤ s.now
  queue : ∀ r ∈ ran, r.2.Pairwise Before

lemma fair_runLoop (h : Fair l s ran) (hn : (old s).length < n) :
    Ends (fun _ => False) (fun r => Fair l r.1 r.2 ∧ r.1.now = s.now) (runLoop answer n s w ran) := by
  induction n generalizing s w ran with
  | zero => omega
  | succ n ih =>
    unfold runLoop
    cases htas : s.tasks with
    | nil => exact ⟨h, rfl⟩
    | cons event tasks =>
      apply ends_ite
      · intro _
        exact ⟨h, rfl⟩
      · intro hgo
        simp only [not_or, not_lt] at hgo
        have hsub : tasks.Sublist s.tasks := htas ▸ sublist_cons_self event tasks
        have hrest := h.ordered.sublist hsub
        have hold : old s = event :: old { s with tasks } := by
          rw [old, htas, filter_cons_of_pos (by simpa using hgo.2.1), old]
        rw [hold, length_cons] at hn
        have hl := hold ▸ h.old
        apply ends_ite
        · intro _
          have hcal := called_foldl (answer n).calls { s with tasks }
          have hlen := hcal.old.length_le
          refine (ih ⟨hcal.ordered hrest, ?_, ?_, ?_⟩ (by omega)).mono fun r hr => ⟨hr.1, hr.2.trans hcal.now⟩
          · rw [map_append, append_assoc]
            exact ((hcal.old.cons_cons event).append_left _).trans hl
          · rw [hcal.now]
            intro r hr
            rcases mem_append.mp hr with hr | hr
            · exact h.due r hr
            · rw [mem_singleton.mp hr]
              exact hgo.1
          · intro r hr
            rcases mem_append.mp hr with hr | hr
            · exact h.queue r hr
            · rw [mem_singleton.mp hr]
              exact hrest.tasks
        · intro _
          refine ih ⟨hrest, ?_, h.due, h.queue⟩ (by omega)
          exact ((sublist_cons_self event _).append_left _).trans hl

lemma fair_eventRun (hs : Ordered s) (answer : ℕ → Answer T F A) :
    Ends (fun _ => False) (fun r => Fair s.tasks r.1 r.2 ∧ r.1.now = s.now) (eventRun answer s) := by
  have hnone : Fair s.tasks s [] := ⟨hs, filter_sublist, by simp, by simp⟩
  unfold eventRun
  split
  · exact ⟨hnone, rfl⟩
  · apply ends_ite
    · intro _
      exact ⟨hnone, rfl⟩
    · intro _
      have hlen := (filter_sublist (p := fun event => event.id ≠ toInt (s.runId + 1)) (l := s.tasks)).length_le
      exact fair_runLoop ⟨⟨hs.tasks, hs.serial⟩, filter_sublist, by simp, by simp⟩ (Nat.lt_succ_of_le hlen)

lemma ordered_of_reached {start : T} {steps : List (Step T F A)}
    (h : (machine T F A start).Reached (fun _ _ => true) steps s) : Ordered s := by
  induction h with
  | init => exact ⟨List.Pairwise.nil, by simp [machine]⟩
  | @next steps s s' step _ _ _ hstep ih =>
    cases step with
    | call c =>
      cases hstep
      exact ih.perform c
    | run answer =>
      have hrun := fair_eventRun ih answer
      change (eventRun answer s).map Prod.fst = .ok s' at hstep
      cases hrun' : eventRun answer s with
      | error f => rw [hrun'] at hstep; cases hstep
      | ok r =>
        rw [hrun'] at hstep hrun
        cases hstep
        exact hrun.1.ordered
    | tick now =>
      cases hstep
      exact ⟨ih.tasks, ih.serial⟩

end SquidVideoCache.Events
