import Mathlib.Tactic.Common

/-!
# Outcomes of computations that can fail

`Ends E Q r` says that `r` is a value with `Q` or an error with `E`. It is the
weakest precondition of a program in `Except` that passes its state explicitly:
`Ends.bind` follows a program from left to right.
-/

namespace SquidVideoCache.Lib

variable {ε α β : Type} {x : Except ε α} {f : α → Except ε β} {a : α} {e : ε} {Q' : α → Prop} {E' : ε → Prop}

@[simp] lemma ok_bind (a : α) (f : α → Except ε β) : ((Except.ok a : Except ε α) >>= f) = f a := rfl

@[simp] lemma error_bind (e : ε) (f : α → Except ε β) : ((Except.error e : Except ε α) >>= f) = .error e := rfl

@[simp] lemma pure_eq_ok (a : α) : (pure a : Except ε α) = .ok a := rfl

lemma bind_eq_ok {b : β} : (x >>= f) = .ok b ↔ ∃ a, x = .ok a ∧ f a = .ok b := by
  cases x with
  | error e => simp
  | ok a => simp

lemma eq_ok_of_isOk (h : x.isOk) (d : α) : x = .ok (x.toOption.getD d) := by
  cases x with
  | error e => cases h
  | ok a => rfl

def Ends (E : ε → Prop) (Q : α → Prop) : Except ε α → Prop
  | .ok a => Q a
  | .error e => E e

variable {E : ε → Prop} {Q : α → Prop} {R : β → Prop}

@[simp] lemma ends_ok : Ends E Q (.ok a : Except ε α) ↔ Q a := Iff.rfl

@[simp] lemma ends_error : Ends E Q (.error e : Except ε α) ↔ E e := Iff.rfl

section

variable (hx : Ends E Q x)

include hx

lemma Ends.bind (hf : ∀ a, Q a → Ends E R (f a)) : Ends E R (x >>= f) := by
  cases x with
  | ok a => exact hf a hx
  | error e => exact hx

lemma Ends.mono (h : ∀ a, Q a → Q' a) : Ends E Q' x := by
  cases x with
  | ok a => exact h a hx
  | error e => exact hx

lemma Ends.weaken (h : ∀ e, E e → E' e) : Ends E' Q x := by
  cases x with
  | ok a => exact hx
  | error e => exact h e hx

lemma Ends.and (hx' : Ends E' Q' x) : Ends E (fun a => Q a ∧ Q' a) x := by
  cases x with
  | ok a => exact ⟨hx, hx'⟩
  | error e => exact hx

lemma Ends.ok_of_eq (h : x = .ok a) : Q a := by
  rw [h] at hx
  exact hx

lemma Ends.error_of_eq (h : x = .error e) : E e := by
  rw [h] at hx
  exact hx

end

lemma ends_ite {p : Prop} [Decidable p] {y : Except ε α} (hx : p → Ends E Q x)
    (hy : ¬ p → Ends E Q y) : Ends E Q (if p then x else y) := by
  split_ifs with h
  · exact hx h
  · exact hy h

lemma ends_true (x : Except ε α) : Ends (fun _ => True) (fun _ => True) x := by
  cases x with
  | ok a => trivial
  | error e => trivial

lemma ends_of_ne (h : x ≠ .error e) : Ends (· ≠ e) (fun _ => True) x := by
  cases x with
  | ok a => trivial
  | error e' => exact fun he => h (congrArg _ he)

/-- Where `f` succeeds in a state with `P`, the new state has `P`. -/
def Preserves (P : α → Prop) (f : α → Except ε α) : Prop := ∀ a, P a → Ends (fun _ => True) P (f a)

lemma preserves_ok {P : α → Prop} : Preserves P (fun a => (.ok a : Except ε α)) := fun _ h => h

/-- Two computations fail alike, or end in related values. -/
def Refines (S : α → β → Prop) : Except ε α → Except ε β → Prop
  | .ok a, .ok b => S a b
  | .error e, .error e' => e = e'
  | _, _ => False

lemma refines_foldlM {γ : Type} {S : α → β → Prop} {f : α → γ → Except ε α} {g : β → γ → Except ε β} {b : β}
    (hstep : ∀ c a b, S a b → Refines S (f a c) (g b c)) (cs : List γ) (h : S a b) : Refines S (cs.foldlM f a) (cs.foldlM g b) := by
  induction cs generalizing a b with
  | nil => exact h
  | cons c cs ih =>
    have hnext := hstep c a b h
    rw [List.foldlM_cons, List.foldlM_cons]
    cases hf : f a c <;> cases hg : g b c <;> rw [hf, hg] at hnext
    · exact hnext
    · cases hnext
    · cases hnext
    · exact ih hnext

end SquidVideoCache.Lib
