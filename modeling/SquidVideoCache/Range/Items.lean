import SquidVideoCache.Range.Parse

/-!
# The items of a list

`strListGetItem` skips blanks, tabs and line ends before an item, but takes every white space
off its end. So a vertical tab or a form feed before an item is a part of it, and an item that
is nothing else ends the list.
-/

namespace SquidVideoCache.Range
open Lib List

/-- The texts between the commas outside of quotes. The flag tells whether the text begins inside of them. -/
def cut : Bool → List UInt8 → List (List UInt8)
  | _, [] => [[]]
  | false, c :: s => if c = 44 then [] :: cut false s else (cut (c = 34) s).modifyHead (c :: ·)
  | true, 92 :: [] => [[92]]
  | true, 92 :: c :: s => (cut true s).modifyHead (92 :: c :: ·)
  | true, c :: s => (cut (c ≠ 34) s).modifyHead (c :: ·)

def trim (s : List UInt8) : List UInt8 := (s.dropWhile isSpace).rdropWhile isSpace

def isBlank (c : UInt8) : Bool := isBetween c && c ≠ 44

/-- From a text on that begins with a vertical tab or a form feed there is only white space. -/
def Plain : List (List UInt8) → Prop
  | [] => True
  | w :: ws => if (w.dropWhile isBlank).head?.any isSpace then ∀ u ∈ w :: ws, trim u = [] else Plain ws

/-- The items that are found in such texts. -/
def visit : List (List UInt8) → List (List UInt8)
  | [] => []
  | w :: ws =>
    if w.dropWhile isBlank = [] then visit ws
    else if (w.dropWhile isBlank).rdropWhile isSpace = [] then []
    else (w.dropWhile isBlank).rdropWhile isSpace :: visit ws

/-! ## The scanner -/

lemma cut_eq (quoted : Bool) (s : List UInt8) : ∃ ws, cut quoted s = s.take (itemLength quoted s) :: ws ∧
    visit ws = visit (cut false (s.drop (itemLength quoted s))) := by
  fun_induction cut quoted s with
  | case1 => exact ⟨[], by simp, by simp [cut, visit]⟩
  | case2 s => exact ⟨cut false s, by simp [itemLength], by simp [itemLength, cut, visit]⟩
  | case3 c s hc ih =>
    obtain ⟨ws, heq, hvis⟩ := ih
    exact ⟨ws, by simp [itemLength, hc, heq], by simpa [itemLength, hc] using hvis⟩
  | case4 => exact ⟨[], by simp [itemLength], by simp [itemLength, cut, visit]⟩
  | case5 c s ih =>
    obtain ⟨ws, heq, hvis⟩ := ih
    exact ⟨ws, by simp [itemLength, heq], by simpa [itemLength] using hvis⟩
  | case6 c s hc hc' ih =>
    obtain ⟨ws, heq, hvis⟩ := ih
    exact ⟨ws, by rw [heq, itemLength]; exacts [rfl, hc, hc'], by rw [hvis, itemLength]; exacts [rfl, hc, hc']⟩

lemma visit_dropWhile (pos : List UInt8) : visit (cut false (pos.dropWhile isBetween)) = visit (cut false pos) := by
  induction pos with
  | nil => rfl
  | cons c s ih =>
    cases hc : isBetween c with
    | false => rw [dropWhile_cons_of_neg (by simp [hc])]
    | true =>
      rw [dropWhile_cons_of_pos hc, ih, cut]
      split_ifs with hcom
      · simp [visit]
      · have hquo : c ≠ 34 := by
          rintro rfl
          cases hc
        have hbla : isBlank c = true := by simp [isBlank, hc, hcom]
        rw [decide_eq_false hquo]
        cases cut false s with
        | nil => rfl
        | cons w ws => simp [visit, hbla]

variable {rounds : ℕ} {pos w : List UInt8}

/-- The induction is on the rounds; each begins with the rest of the text behind an item. -/
theorem map_listItems (h : pos.length < rounds) :
    (listItems rounds pos).map (fun item => item.field.take item.len) = visit (cut false pos) := by
  induction rounds generalizing pos with
  | zero => omega
  | succ rounds ih =>
    have hle := (dropWhile_suffix isBetween (l := pos)).length_le
    obtain ⟨ws, hcut, hvis⟩ := cut_eq false _
    have hfir := head?_dropWhile_not isBetween pos
    rw [← visit_dropWhile, hcut]
    simp only [listItems, strListGetItem]
    generalize pos.dropWhile isBetween = item at *
    cases item with
    | nil => simp [visit, hvis, cut]
    | cons c s =>
      have hbet : isBetween c = false := by simpa using hfir
      have hcom : c ≠ 44 := by
        rintro rfl
        cases hbet
      have hbla : ¬ isBlank c = true := by simp [isBlank, hbet]
      have hitem : (c :: s).take (itemLength false (c :: s)) = c :: s.take (itemLength (c = 34) s) := by
        rw [itemLength, if_neg hcom, take_succ_cons]
      have hpre := (List.rdropWhile_prefix isSpace _).trans (hitem ▸ take_prefix _ _)
      rw [visit, hitem, dropWhile_cons_of_neg hbla, if_neg (cons_ne_nil _ _)]
      by_cases hitem : (c :: s.take (itemLength (c = 34) s)).rdropWhile isSpace = []
      · simp [hitem]
      · have hrest : ((c :: s).drop (itemLength false (c :: s))).length < rounds := by
          rw [itemLength, if_neg hcom, drop_succ_cons]
          have hdrop := (drop_suffix (itemLength (c = 34) s) s).length_le
          simp only [length_cons] at hle
          omega
        rw [if_pos (length_pos_of_ne_nil hitem), if_neg hitem]
        simp only [map_cons]
        rw [ih hrest, hvis, ← prefix_iff_eq_take.mp hpre]

lemma listItems_add (h : pos.length < rounds) (n : ℕ) : listItems (rounds + n) pos = listItems rounds pos := by
  induction rounds generalizing pos with
  | zero => omega
  | succ rounds ih =>
    rw [Nat.add_right_comm, listItems, listItems]
    cases hget : strListGetItem pos with
    | none => rfl
    | some got =>
      obtain ⟨hfie, -, hlt, -⟩ := strListGetItem_eq_some hget
      have hle := hfie.length_le
      simp [ih (show got.2.length < rounds by omega)]

/-! ## White space -/

lemma trim_dropWhile (w : List UInt8) : trim (w.dropWhile isBlank) = trim w := by
  induction w with
  | nil => rfl
  | cons c w ih =>
    cases hc : isBlank c with
    | false => rw [dropWhile_cons_of_neg (by simp [hc])]
    | true =>
      have hspa : isSpace c = true := by
        revert hc
        exact forall_byte (P := fun c => isBlank c = true → isSpace c = true) (by decide +kernel) c
      rw [dropWhile_cons_of_pos hc, ih, trim, trim, dropWhile_cons_of_pos hspa]

lemma isSpace_of_trim {c : UInt8} {u : List UInt8} (h : trim w = c :: u) : isSpace c = false := by
  obtain ⟨tail, htail⟩ := rdropWhile_prefix (p := isSpace) _
  have hnot := head?_dropWhile_not isSpace w
  rw [← trim, h] at htail
  simpa [← htail] using hnot

lemma rdropWhile_of_trim (h : trim w = []) : w.rdropWhile isSpace = [] := by
  rw [rdropWhile_eq_nil_iff]
  rw [trim, rdropWhile_eq_nil_iff] at h
  intro c hc
  rw [← takeWhile_append_dropWhile (l := w), mem_append] at hc
  exact hc.elim mem_takeWhile_imp (h c)

lemma visit_eq_iff (ws : List (List UInt8)) : visit ws = (ws.map trim).filter (· ≠ []) ↔ Plain ws := by
  induction ws with
  | nil => simp [visit, Plain]
  | cons w ws ih =>
    have htrim := trim_dropWhile w
    cases hw : w.dropWhile isBlank with
    | nil =>
      have hnil : trim w = [] := by rw [← htrim, hw]; rfl
      simpa [visit, Plain, hw, hnil] using ih
    | cons c u =>
      rw [hw] at htrim
      simp only [visit, Plain, hw, cons_ne_nil, if_false, head?_cons, Option.any_some]
      cases hc : isSpace c with
      | false =>
        have hsame : (c :: u).rdropWhile isSpace = trim w := by
          rw [← htrim, trim, dropWhile_cons_of_neg (by simp [hc])]
        have hne : trim w ≠ [] := by
          intro hnil
          have hall := rdropWhile_eq_nil_iff.mp (hsame.trans hnil) c mem_cons_self
          simp [hc] at hall
        simpa [hsame, hne] using ih
      | true =>
        constructor
        · intro heq v hv
          split_ifs at heq with hspa
          · simpa using filter_eq_nil_iff.mp heq.symm _ (mem_map_of_mem hv)
          · -- no item that is listed begins with white space
            obtain ⟨d, rest, hd⟩ := exists_cons_of_ne_nil hspa
            obtain ⟨tail, htail⟩ := rdropWhile_prefix _ _
            have hmem := heq ▸ mem_cons_self
            obtain ⟨v, -, hv⟩ := mem_map.mp (mem_filter.mp hmem).1
            rw [hd, cons_append, List.cons.injEq] at htail
            have hnot := isSpace_of_trim (hv.trans hd)
            rw [htail.1, hc] at hnot
            cases hnot
        · intro hall
          rw [if_pos (rdropWhile_of_trim (htrim.trans (hall w mem_cons_self)))]
          refine (filter_eq_nil_iff.mpr fun v hv => ?_).symm
          obtain ⟨x, hx, rfl⟩ := mem_map.mp hv
          simp [hall x hx]

/-- The iteration ends, and it has visited the items of the list if white space is plain. -/
theorem items_eq_iff (v : List UInt8) : (∀ rounds, v.length < rounds → listItems rounds v = items v) ∧
    ((items v).map (fun item => item.field.take item.len) = ((cut false v).map trim).filter (· ≠ []) ↔
      Plain (cut false v)) := by
  refine ⟨fun rounds h => ?_, ?_⟩
  · obtain ⟨n, rfl⟩ := Nat.exists_eq_add_of_le (Nat.succ_le_of_lt h)
    exact listItems_add (Nat.lt_succ_self _) n
  · rw [items, map_listItems (Nat.lt_succ_self _), visit_eq_iff]

/-- A vertical tab between two commas ends the list. -/
theorem items_verticalTab : (items [97, 44, 11, 44, 98]).map (fun item => item.field.take item.len) = [[97]] ∧
    ((cut false [97, 44, 11, 44, 98]).map trim).filter (· ≠ []) = [[97], [98]] := by decide +kernel

end SquidVideoCache.Range
