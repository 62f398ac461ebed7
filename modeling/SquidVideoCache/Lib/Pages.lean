import Mathlib.Data.List.Basic

/-!
# Texts in pages

A text is kept in pages of at most `n` elements, of which all but the last are full. So a page is found by
its number, and the text is extended by filling the last page and cutting the rest into new ones.
-/

namespace SquidVideoCache.Lib
open List

variable {α : Type} {n : ℕ} {p tail : List α} {pages init more : List (List α)}

/-- A text cut into at most `k` pages. -/
def cutPages (n : ℕ) : ℕ → List α → List (List α)
  | 0, _ => []
  | _ + 1, [] => []
  | k + 1, a :: data => (a :: data).take n :: cutPages n k ((a :: data).drop n)

structure Paged (n : ℕ) (pages : List (List α)) : Prop where
  full : ∀ p ∈ pages.dropLast, p.length = n
  le : ∀ p ∈ pages, p.length ≤ n
  ne_nil : ∀ p ∈ pages, p ≠ []

lemma paged_nil : Paged n ([] : List (List α)) := ⟨by simp, by simp, by simp⟩

lemma paged_singleton (hle : p.length ≤ n) (hne : p ≠ []) : Paged n [p] := ⟨by simp, by simpa, by simpa⟩

lemma Paged.of_cons (h : Paged n (p :: pages)) : Paged n pages := by
  refine ⟨fun q hq => h.full q ?_, fun q hq => h.le q (mem_cons_of_mem p hq), fun q hq => h.ne_nil q (mem_cons_of_mem p hq)⟩
  cases pages with
  | nil => simp at hq
  | cons r rest =>
    exact mem_cons_of_mem p hq

lemma Paged.length_head (h : Paged n (p :: pages)) (hne : pages ≠ []) : p.length = n := by
  refine h.full p ?_
  rw [dropLast_cons_of_ne_nil hne]
  exact mem_cons_self

lemma Paged.cons (h : Paged n pages) (hn : 0 < n) (hp : p.length = n) : Paged n (p :: pages) := by
  have hne : p ≠ [] := ne_nil_of_length_pos (by omega)
  refine ⟨?_, forall_mem_cons.2 ⟨Nat.le_of_eq hp, h.le⟩, forall_mem_cons.2 ⟨hne, h.ne_nil⟩⟩
  intro q hq
  by_cases hnil : pages = []
  · simp [hnil] at hq
  · rw [dropLast_cons_of_ne_nil hnil] at hq
    rcases mem_cons.1 hq with rfl | hq
    · exact hp
    · exact h.full q hq

lemma Paged.append (h : Paged n more) (hn : 0 < n) (hinit : ∀ p ∈ init, p.length = n) : Paged n (init ++ more) := by
  induction init with
  | nil => exact h
  | cons p init ih =>
    rw [forall_mem_cons] at hinit
    exact (ih hinit.2).cons hn hinit.1

lemma flatten_cutPages (hn : 0 < n) {k : ℕ} {data : List α} (hk : data.length ≤ k) : (cutPages n k data).flatten = data := by
  induction k generalizing data with
  | zero => rw [length_eq_zero_iff.1 (Nat.le_zero.1 hk), cutPages, flatten_nil]
  | succ k ih =>
    cases data with
    | nil => rfl
    | cons a data =>
      rw [cutPages, flatten_cons, ih, take_append_drop]
      rw [length_drop]
      omega

lemma paged_cutPages (hn : 0 < n) (k : ℕ) (data : List α) : Paged n (cutPages n k data) := by
  induction k generalizing data with
  | zero => exact paged_nil
  | succ k ih =>
    cases data with
    | nil => exact paged_nil
    | cons a data =>
      rw [cutPages]
      by_cases hlen : n ≤ (a :: data).length
      · exact (ih _).cons hn (length_take_of_le hlen)
      · -- What is left fits into one page.
        have hdrop : (a :: data).drop n = [] := drop_eq_nil_of_le (by omega)
        have hcut : cutPages n k ([] : List α) = [] := by cases k <;> rfl
        rw [hdrop, hcut]
        exact paged_singleton (length_take_le n _) (by simp; omega)

lemma Paged.fill (h : Paged n (init ++ [tail])) (hn : 0 < n) (k : ℕ) (data : List α) :
    Paged n (init ++ (tail ++ data.take (n - tail.length)) :: cutPages n k (data.drop (n - tail.length))) := by
  have hfull : ∀ p ∈ init, p.length = n := by
    intro p hp
    exact h.full p (by rwa [dropLast_concat])
  have htail : tail.length ≤ n := h.le tail (by simp)
  have hne : tail ≠ [] := h.ne_nil tail (by simp)
  refine Paged.append ?_ hn hfull
  by_cases hlen : n - tail.length ≤ data.length
  · refine (paged_cutPages hn k _).cons hn ?_
    rw [length_append, length_take_of_le hlen]
    omega
  · have hdrop : data.drop (n - tail.length) = [] := drop_eq_nil_of_le (by omega)
    have hcut : cutPages n k ([] : List α) = [] := by cases k <;> rfl
    rw [hdrop, hcut]
    refine paged_singleton ?_ (by simp [hne])
    rw [length_append, length_take]
    omega

lemma Paged.drop (h : Paged n pages) (k : ℕ) : Paged n (pages.drop k) := by
  induction k generalizing pages with
  | zero => exact h
  | succ k ih =>
    cases pages with
    | nil => exact paged_nil
    | cons p rest => exact ih h.of_cons

lemma Paged.flatten_drop (h : Paged n pages) (k : ℕ) : (pages.drop k).flatten = pages.flatten.drop (n * k) := by
  induction k generalizing pages with
  | zero => simp
  | succ k ih =>
    cases pages with
    | nil => simp
    | cons p rest =>
      rw [drop_succ_cons, ih h.of_cons, flatten_cons, Nat.mul_succ, Nat.add_comm, ← drop_drop]
      by_cases hrest : rest = []
      · have hp : p.length ≤ n := h.le p mem_cons_self
        simp [hrest, drop_eq_nil_of_le hp]
      · rw [← h.length_head hrest, drop_left]

lemma Paged.length_flatten_le (h : Paged n pages) : pages.flatten.length ≤ n * pages.length := by
  induction pages with
  | nil => simp
  | cons p rest ih =>
    have hp := h.le p mem_cons_self
    have hrest := ih h.of_cons
    rw [flatten_cons, length_append, length_cons, Nat.mul_succ]
    omega

lemma Paged.getElem? (h : Paged n pages) {i : ℕ} (hi : n * i < pages.flatten.length) :
    pages[i]? = some ((pages.flatten.drop (n * i)).take n) := by
  have hpag := h.drop i
  have hfla := h.flatten_drop i
  rw [← head?_drop, ← hfla]
  cases hdrop : pages.drop i with
  | nil =>
    have hlen := congrArg List.length hfla
    rw [hdrop, flatten_nil, length_nil, length_drop] at hlen
    omega
  | cons p rest =>
    rw [hdrop] at hpag
    by_cases hrest : rest = []
    · have hp : p.length ≤ n := hpag.le p mem_cons_self
      simp [hrest, take_of_length_le hp]
    · simp [← hpag.length_head hrest]

end SquidVideoCache.Lib
