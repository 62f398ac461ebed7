import Mathlib.Data.List.Infix

/-!
# Longest suffixes in a prefix-closed set of words

The mathematics of multi-pattern matching. The nodes of a trie are the words of
a prefix-closed set `P`; the automaton reading a text keeps the longest suffix
of the text read so far that is a word of `P`, and the failure function sends a
word to its longest proper suffix in `P`.
-/

noncomputable section
open scoped Classical

namespace SquidVideoCache.Lib

variable {α : Type*} {P : Set (List α)} {u v w : List α} {c : α}

/-- Every prefix of a word of `P` is in `P`; one letter at a time is enough. -/
def PrefixClosed (P : Set (List α)) : Prop := ∀ u c, u ++ [c] ∈ P → u ∈ P

def longestSuffix (P : Set (List α)) : List α → List α
  | [] => []
  | a :: w => if a :: w ∈ P then a :: w else longestSuffix P w

/-- The failure function: the longest suffix of the word without its first letter. -/
def properSuffix (P : Set (List α)) (u : List α) : List α := longestSuffix P u.tail

lemma longestSuffix_suffix (P : Set (List α)) (w : List α) : longestSuffix P w <:+ w := by
  induction w with
  | nil => exact List.suffix_rfl
  | cons a w ih =>
    unfold longestSuffix
    split_ifs with h
    · exact List.suffix_rfl
    · exact ih.trans (List.suffix_cons a w)

lemma longestSuffix_mem (hnil : [] ∈ P) (w : List α) : longestSuffix P w ∈ P := by
  induction w with
  | nil => exact hnil
  | cons a w ih =>
    unfold longestSuffix
    split_ifs with h
    · exact h
    · exact ih

lemma longestSuffix_max (hu : u ∈ P) (h : u <:+ w) : u <:+ longestSuffix P w := by
  induction w with
  | nil => exact h
  | cons a w ih =>
    unfold longestSuffix
    split_ifs with hP
    · exact h
    · rcases List.suffix_cons_iff.mp h with rfl | h
      · exact absurd hu hP
      · exact ih h

lemma longestSuffix_of_mem (h : w ∈ P) : longestSuffix P w = w := by
  cases w with
  | nil => rfl
  | cons a w => simp [longestSuffix, if_pos h]

/-- Suffixes of one word are ordered by length, so the longest one is unique. -/
theorem longestSuffix_unique (hnil : [] ∈ P) (hu : u ∈ P) (h : u <:+ w)
    (hmax : ∀ v ∈ P, v <:+ w → v.length ≤ u.length) : longestSuffix P w = u := by
  have hle := hmax _ (longestSuffix_mem hnil w) (longestSuffix_suffix P w)
  exact ((longestSuffix_max hu h).eq_of_length_le hle).symm

lemma suffix_concat_iff : u ++ [c] <:+ w ++ [c] ↔ u <:+ w := by
  constructor
  · rintro ⟨t, h⟩
    exact ⟨t, List.append_cancel_right (by rw [← h, List.append_assoc])⟩
  · rintro ⟨t, rfl⟩
    exact ⟨t, by simp⟩

lemma eq_concat_of_suffix (h : u <:+ w ++ [c]) (hu : u ≠ []) : ∃ v, u = v ++ [c] ∧ v <:+ w := by
  obtain ⟨v, d, rfl⟩ : ∃ v d, u = v ++ [d] :=
    ⟨u.dropLast, u.getLast hu, (List.dropLast_append_getLast hu).symm⟩
  obtain ⟨t, ht⟩ := h
  rw [← List.append_assoc] at ht
  obtain ⟨hw, hc⟩ := List.append_inj' ht rfl
  cases hc
  exact ⟨v, rfl, t, hw⟩

/-- Reading one more letter only needs the longest suffix, not the whole text. -/
theorem longestSuffix_concat (hP : PrefixClosed P) (hnil : [] ∈ P) (w : List α) (c : α) :
    longestSuffix P (w ++ [c]) = longestSuffix P (longestSuffix P w ++ [c]) := by
  apply longestSuffix_unique hnil (longestSuffix_mem hnil _)
  · exact (longestSuffix_suffix P _).trans (suffix_concat_iff.mpr (longestSuffix_suffix P w))
  · intro v hv hvw
    rcases eq_or_ne v [] with rfl | hne
    · exact Nat.zero_le _
    · obtain ⟨x, rfl, hx⟩ := eq_concat_of_suffix hvw hne
      have hxl := longestSuffix_max (hP x c hv) hx
      exact (longestSuffix_max hv (suffix_concat_iff.mpr hxl)).length_le

lemma properSuffix_suffix (P : Set (List α)) (u : List α) : properSuffix P u <:+ u :=
  (longestSuffix_suffix P _).trans (List.tail_suffix u)

lemma properSuffix_length_lt (P : Set (List α)) (hu : u ≠ []) : (properSuffix P u).length < u.length := by
  have h := (longestSuffix_suffix P u.tail).length_le
  have hpos := List.length_pos_iff.mpr hu
  rw [List.length_tail] at h
  unfold properSuffix
  omega

lemma suffix_properSuffix (hv : v ∈ P) (h : v <:+ u) (hne : v ≠ u) : v <:+ properSuffix P u := by
  cases u with
  | nil => exact absurd (List.suffix_nil.mp h) hne
  | cons a u =>
    rcases List.suffix_cons_iff.mp h with rfl | h
    · exact absurd rfl hne
    · exact longestSuffix_max hv h

lemma longestSuffix_concat_of_notMem (hP : PrefixClosed P) (hnil : [] ∈ P) (hu : u ≠ [])
    (h : u ++ [c] ∉ P) : longestSuffix P (u ++ [c]) = longestSuffix P (properSuffix P u ++ [c]) := by
  obtain ⟨a, u, rfl⟩ := List.exists_cons_of_ne_nil hu
  have hstep : longestSuffix P ((a :: u) ++ [c]) = longestSuffix P (u ++ [c]) := by
    simp only [List.cons_append] at h ⊢
    rw [longestSuffix, if_neg h]
  rw [hstep]
  exact longestSuffix_concat hP hnil u c

/-- The failure word of a child is the failure word of its parent, read one letter further. -/
theorem properSuffix_concat (hP : PrefixClosed P) (hnil : [] ∈ P) (hu : u ≠ []) (c : α) :
    properSuffix P (u ++ [c]) = longestSuffix P (properSuffix P u ++ [c]) := by
  obtain ⟨a, u, rfl⟩ := List.exists_cons_of_ne_nil hu
  exact longestSuffix_concat hP hnil u c

end SquidVideoCache.Lib
end
