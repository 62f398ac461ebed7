import Mathlib.Algebra.BigOperators.Group.List.Basic
import Mathlib.Data.List.ReduceOption

/-!
# Slots

A table of slots, each free or with a value: `List.reduceOption` lists the values.
-/

namespace SquidVideoCache.Lib
open List

variable {α : Type} {slots : List (Option α)} {i : ℕ} {a : α}

lemma perm_set_some (h : slots[i]? = some none) (a : α) :
    (slots.set i (some a)).reduceOption.Perm (a :: slots.reduceOption) := by
  induction slots generalizing i with
  | nil => cases h
  | cons x slots ih =>
    cases i with
    | zero =>
      rw [getElem?_cons_zero, Option.some.injEq] at h
      subst h
      simp
    | succ i =>
      cases x with
      | none => simpa using ih h
      | some b =>
        exact ((ih h).cons b).trans (.swap a b _)

lemma perm_set_none (h : slots[i]? = some (some a)) :
    slots.reduceOption.Perm (a :: (slots.set i none).reduceOption) := by
  obtain ⟨hi, hget⟩ := List.getElem?_eq_some_iff.mp h
  have hfree : (slots.set i none)[i]? = some none := by simp [hi]
  have hback : (slots.set i none).set i (some a) = slots := by
    rw [set_set, ← hget, set_getElem_self]
  have hperm := perm_set_some hfree a
  rwa [hback] at hperm

lemma exists_free_slot (h : slots.reduceOption.length < slots.length) :
    ∃ i, slots.findIdx? Option.isNone = some i ∧ slots[i]? = some none := by
  have hsome : (slots.findIdx? Option.isNone).isSome := by
    rw [findIdx?_isSome, any_eq_true]
    have hlen := length_eq_reduceOption_length_add_filter_none (l := slots)
    obtain ⟨x, hx⟩ := exists_mem_of_length_pos (show 0 < (slots.filter Option.isNone).length by omega)
    exact ⟨x, mem_filter.mp hx⟩
  obtain ⟨i, hi⟩ := Option.isSome_iff_exists.mp hsome
  obtain ⟨hlt, hnone, _⟩ := findIdx?_eq_some_iff_getElem.mp hi
  rw [Option.isNone_iff_eq_none] at hnone
  exact ⟨i, hi, by rw [getElem?_eq_getElem hlt, hnone]⟩

lemma reduceOption_eq_nil (h : ∀ i < slots.length, slots[i]? = some none) : slots.reduceOption = [] := by
  refine (reduceOption_eq_nil_iff slots).mpr ⟨slots.length, eq_replicate_iff.mpr ⟨rfl, fun x hx => ?_⟩⟩
  obtain ⟨i, hi, rfl⟩ := getElem_of_mem hx
  have hnone := h i hi
  rwa [getElem?_eq_getElem hi, Option.some.injEq] at hnone

/-! ## Sums -/

variable {M : Type} [AddCommGroup M] {w : α → M}

/-- The sum over the values of a table. -/
def slotSum (w : α → M) (slots : List (Option α)) : M := (slots.reduceOption.map w).sum

lemma slotSum_set (h : slots[i]? = some (some a)) (b : Option α) :
    slotSum w (slots.set i b) = slotSum w slots - w a + b.elim 0 w := by
  have hnone : slotSum w (slots.set i none) = slotSum w slots - w a := by
    have hsum := ((perm_set_none h).map w).sum_eq
    exact eq_sub_of_add_eq' hsum.symm
  cases b with
  | none => rw [hnone, Option.elim_none, add_zero]
  | some b =>
    obtain ⟨hi, -⟩ := List.getElem?_eq_some_iff.mp h
    have hfree : (slots.set i none)[i]? = some none := by simp [hi]
    have hsum := ((perm_set_some hfree b).map w).sum_eq
    rw [set_set, map_cons, sum_cons, add_comm] at hsum
    rw [← hnone]
    exact hsum

lemma slotSum_append (slots : List (Option α)) (a : α) : slotSum w (slots ++ [some a]) = slotSum w slots + w a := by
  simp [slotSum, reduceOption_append]

end SquidVideoCache.Lib
