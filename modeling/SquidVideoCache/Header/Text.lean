import SquidVideoCache.Header.Model

/-!
# The text of a field

What `readField` finds is a text of one or more lines: no line has a CR or a newline within, each
line after the first begins with a space or a tab and has something behind it, and the line ends
stand as they were. Such a text, when it is packed again, is read back unchanged.
-/

namespace SquidVideoCache.Header
open Lib List

variable {relaxed cont : Bool} {l tail line text rest field a b : List UInt8} {clean : List UInt8}

def Plain (l : List UInt8) : Prop := cr ∉ l ∧ newline ∉ l

def LineTail (relaxed : Bool) (l tail : List UInt8) : Prop :=
  tail = [] ∨ tail = [cr] ∨ relaxed = true ∧ l ≠ [] ∧ tail = [cr, cr]

structure FieldLine (cont : Bool) (l : List UInt8) : Prop where
  plain : Plain l
  folded : cont = true → folds l = true ∧ 2 ≤ l.length

inductive Folded (relaxed : Bool) : Bool → List UInt8 → Prop
  | last {cont : Bool} {l : List UInt8} : FieldLine cont l → Folded relaxed cont l
  | fold {cont : Bool} {l tail text : List UInt8} : FieldLine cont l → LineTail relaxed l tail →
      Folded relaxed true text → Folded relaxed cont (l ++ tail ++ newline :: text)

/-! ## Lines -/

lemma splitLine_eq (h : splitLine text = some (line, rest)) : text = line ++ newline :: rest ∧ newline ∉ line := by
  induction text generalizing line with
  | nil => cases h
  | cons c s ih =>
    unfold splitLine at h
    split_ifs at h with hc
    · cases h
      exact ⟨by rw [hc]; rfl, not_mem_nil⟩
    · obtain ⟨⟨line', rest'⟩, hs, heq⟩ := Option.map_eq_some_iff.mp h
      cases heq
      obtain ⟨rfl, hnot⟩ := ih hs
      exact ⟨rfl, by simp [hnot, Ne.symm hc]⟩

lemma splitLine_append (h : newline ∉ line) (rest : List UInt8) :
    splitLine (line ++ newline :: rest) = some (line, rest) := by
  induction line with
  | nil => simp [splitLine]
  | cons c line ih =>
    rw [mem_cons, not_or] at h
    simp [splitLine, ih h.2, Ne.symm h.1]

lemma LineTail.notMem (h : LineTail relaxed l tail) : newline ∉ tail := by
  obtain rfl | rfl | ⟨-, -, rfl⟩ := h
  all_goals decide

lemma getLast?_ne_cr (h : cr ∉ l) : l.getLast? ≠ some cr := fun hlast => h (mem_of_getLast? hlast)

lemma LineTail.lineEnd_eq (hl : cr ∉ l) (h : LineTail relaxed l tail) : lineEnd relaxed (l ++ tail) = l.length := by
  have hlast := getLast?_ne_cr hl
  obtain rfl | rfl | ⟨rfl, hne, rfl⟩ := h
  · simp [lineEnd, hlast]
  · have hprev : ¬ (1 < l.length ∧ (l ++ [cr])[l.length - 1]? = some cr) := by
      rintro ⟨hlen, hget⟩
      rw [getElem?_append_left (by omega), ← getLast?_eq_getElem?] at hget
      exact hlast hget
    simp only [lineEnd, getLast?_append, getLast?_singleton, Option.some_or, length_append,
      if_true]
    exact if_neg fun hcond => hprev hcond.2
  · have hlen : 0 < l.length := length_pos_of_ne_nil hne
    simp [lineEnd, hlen]

lemma lineTail_lineEnd (relaxed : Bool) (line : List UInt8) :
    LineTail relaxed (line.take (lineEnd relaxed line)) (line.drop (lineEnd relaxed line)) ∧
      lineEnd relaxed line ≤ line.length := by
  unfold lineEnd
  by_cases hlast : line.getLast? = some cr
  · obtain ⟨l, rfl⟩ := getLast?_eq_some_iff.mp hlast
    by_cases hrel : relaxed = true ∧ 1 < l.length ∧ (l ++ [cr])[l.length - 1]? = some cr
    · obtain ⟨hr, hlen, hget⟩ := hrel
      rw [getElem?_append_left (by omega), ← getLast?_eq_getElem?] at hget
      obtain ⟨l, rfl⟩ := getLast?_eq_some_iff.mp hget
      have hne : l ≠ [] := by
        rintro rfl
        simp at hlen
      simp [LineTail, hr, hne, length_pos_of_ne_nil hne]
    · simp only [length_append, length_singleton, Nat.add_sub_cancel, if_neg hrel]
      simp [LineTail]
  · simp [hlast, LineTail]

lemma strayCr_of_notMem (h : cr ∉ l) : strayCr relaxed l = some l := if_neg h

lemma strayCr_eq (h : strayCr relaxed l = some clean) : clean = l.map fun c => if c = cr then space else c := by
  unfold strayCr at h
  split_ifs at h with hcr
  · exact (Option.some.inj h).symm
  · have hsame : ∀ c ∈ l, (if c = cr then space else c) = c := by
      intro c hc
      exact if_neg fun heq : c = cr => hcr (heq ▸ hc)
    rw [← Option.some.inj h, map_congr_left hsame, map_id']

lemma mem_of_strayCr {c : UInt8} (h : strayCr relaxed l = some clean) (hc : c ∈ clean) :
    c = space ∨ c ∈ l ∧ c ≠ cr := by
  rw [strayCr_eq h] at hc
  obtain ⟨x, hx, rfl⟩ := mem_map.mp hc
  split_ifs with hcr
  · exact .inl rfl
  · exact .inr ⟨hx, hcr⟩

lemma length_of_strayCr (h : strayCr relaxed l = some clean) : clean.length = l.length := by
  rw [strayCr_eq h, length_map]

lemma folds_iff : folds l = true ↔ ∃ c s, l = c :: s ∧ (c = space ∨ c = tab) := by
  cases l with
  | nil => simp [folds]
  | cons c s => simp [folds]

lemma folds_append (h : l ≠ []) (rest : List UInt8) : folds (l ++ rest) = folds l := by
  cases l with
  | nil => exact absurd rfl h
  | cons c s => rfl

lemma fieldLine_of_strayCr (cont : Bool) (hline : newline ∉ line)
    (hcle : strayCr relaxed (line.take (lineEnd relaxed line)) = some clean)
    (hbla : ¬ (lineEnd relaxed line = 1 ∧ cont = true)) (hcont : cont = true → folds line = true) :
    FieldLine cont clean ∧ LineTail relaxed clean (line.drop (lineEnd relaxed line)) := by
  obtain ⟨htail, hle⟩ := lineTail_lineEnd _ line
  have hlen : clean.length = lineEnd relaxed line := by
    rw [length_of_strayCr hcle, length_take, Nat.min_eq_left hle]
  refine ⟨⟨⟨fun hmem => ?_, fun hmem => ?_⟩, fun hc => ?_⟩, ?_⟩
  · obtain heq | ⟨-, hne⟩ := mem_of_strayCr hcle hmem
    · exact absurd heq (by decide)
    · exact hne rfl
  · obtain heq | ⟨hin, -⟩ := mem_of_strayCr hcle hmem
    · exact absurd heq (by decide)
    · exact hline (mem_of_mem_take hin)
  · obtain ⟨c, s, rfl, hcs⟩ := folds_iff.mp (hcont hc)
    have hne : c ≠ cr := by
      obtain rfl | rfl := hcs
      all_goals decide
    -- a line that begins with a blank has its end behind the blank
    have hpos : lineEnd relaxed (c :: s) ≠ 0 := by
      intro hzero
      rw [hzero] at htail
      obtain hnil | hone | ⟨-, -, htwo⟩ := htail
      · cases hnil
      · exact hne (List.cons.inj hone).1
      · exact hne (List.cons.inj htwo).1
    have htwo : lineEnd relaxed (c :: s) ≠ 1 := fun hone => hbla ⟨hone, hc⟩
    refine ⟨?_, by omega⟩
    obtain ⟨n, hn⟩ := Nat.exists_eq_succ_of_ne_zero hpos
    rw [strayCr_eq hcle, hn, take_succ_cons, map_cons, if_neg hne]
    exact folds_iff.mpr ⟨c, _, rfl, hcs⟩
  · refine htail.imp_right (Or.imp_right fun ⟨hr, hne, htwo⟩ => ⟨hr, ?_, htwo⟩)
    intro hnil
    apply hne
    rw [← length_eq_zero_iff, ← length_of_strayCr hcle, hnil, length_nil]

/-! ## Reading a field -/

structure Found (relaxed : Bool) (field text field' rest : List UInt8) : Prop where
  unfolded : folds rest = false
  suffix : ∃ before, text = before ++ newline :: rest
  field_eq : ∃ t, field' = field ++ t ∧ Folded relaxed (field ≠ []) t ∧ (0 ∉ text → 0 ∉ t)

lemma folds_of_append_newline (h : folds (line ++ newline :: rest) = true) : folds line = true := by
  cases line with
  | nil => simp [folds, newline, space, tab] at h
  | cons c s => exact h

lemma nul_notMem_of_strayCr {n : ℕ} (hcle : strayCr relaxed (line.take n) = some clean)
    (h : 0 ∉ line) : 0 ∉ clean := by
  intro hmem
  obtain heq | ⟨hin, -⟩ := mem_of_strayCr hcle hmem
  · exact absurd heq (by decide)
  · exact h (mem_of_mem_take hin)

lemma readField_found {field' : List UInt8} (h : readField relaxed field text = some (field', rest))
    (hcont : field ≠ [] → folds text = true) : Found relaxed field text field' rest := by
  fun_induction readField _ field text with
  | case1 => cases h
  | case2 => cases h
  | case3 => cases h
  | case4 field text line rest' hs n clean hc hn hf ih =>
    obtain ⟨rfl, hline⟩ := splitLine_eq hs
    obtain ⟨hunf, ⟨before, hbef⟩, t, rfl, ht, hnul⟩ := ih h fun _ => hf
    obtain ⟨hfl, htail⟩ := fieldLine_of_strayCr _ hline hc (by simpa using hn)
      fun hne => folds_of_append_newline (hcont (of_decide_eq_true hne))
    refine ⟨hunf, ⟨line ++ newline :: before, by simp [hbef]⟩,
      clean ++ line.drop n ++ newline :: t, by simp, ?_, fun h0 => ?_⟩
    · exact .fold hfl htail (by simpa using ht)
    · simp only [mem_append, mem_cons, not_or] at h0 ⊢
      exact ⟨⟨nul_notMem_of_strayCr hc h0.1, fun hmem => h0.1 (mem_of_mem_drop hmem)⟩, h0.2.1, hnul h0.2.2⟩
  | case5 field text line rest' hs n clean hc hn hf =>
    cases h
    obtain ⟨rfl, hline⟩ := splitLine_eq hs
    obtain ⟨hfl, -⟩ := fieldLine_of_strayCr _ hline hc (by simpa using hn)
      fun hne => folds_of_append_newline (hcont (of_decide_eq_true hne))
    refine ⟨by simpa using hf, ⟨line, rfl⟩, clean, rfl, .last hfl, fun h0 => ?_⟩
    exact nul_notMem_of_strayCr hc fun hmem => h0 (mem_append_left _ hmem)

lemma Folded.folds (h : Folded relaxed true text) : folds text = true ∧ text ≠ [] := by
  cases h with
  | last hl =>
    obtain ⟨hfold, hlen⟩ := hl.folded rfl
    exact ⟨hfold, ne_nil_of_length_pos (by omega)⟩
  | @fold _ l tail text hl htail ht =>
    obtain ⟨hfold, hlen⟩ := hl.folded rfl
    have hne : l ≠ [] := ne_nil_of_length_pos (by omega)
    rw [append_assoc]
    exact ⟨(folds_append hne _).trans hfold, by simp⟩

lemma readField_line (hl : FieldLine cont l) (htail : LineTail relaxed l tail)
    (hcont : cont = true ↔ field ≠ []) (rest : List UInt8) : readField relaxed field (l ++ tail ++ newline :: rest) =
      if Header.folds rest then readField relaxed (field ++ l ++ tail ++ [newline]) rest
      else some (field ++ l, rest) := by
  have hspl : splitLine (l ++ tail ++ newline :: rest) = some (l ++ tail, rest) :=
    splitLine_append (by simp [hl.plain.2, htail.notMem]) rest
  have hend := htail.lineEnd_eq hl.plain.1
  have hbla : ¬ (l.length = 1 ∧ field ≠ []) := by
    rintro ⟨hone, hne⟩
    have htwo := (hl.folded (hcont.mpr hne)).2
    omega
  rw [readField]
  split
  · next hnone => rw [hspl] at hnone; cases hnone
  · next line rest' hsome =>
    rw [hspl] at hsome
    cases hsome
    simp [hend, strayCr_of_notMem hl.plain.1, if_neg hbla]

lemma Folded.readField_eq (h : Folded relaxed cont text) (hcont : cont = true ↔ field ≠ [])
    (hrest : Header.folds rest = false) :
    readField relaxed field (text ++ [cr, newline] ++ rest) = some (field ++ text, rest) := by
  induction h generalizing field with
  | @last cont l hl =>
    have htail : LineTail relaxed l [cr] := .inr (.inl rfl)
    have hline := readField_line hl htail hcont rest
    rw [hrest] at hline
    simpa using hline
  | @fold cont l tail text hl htail ht ih =>
    have hline := readField_line hl htail hcont (text ++ [cr, newline] ++ rest)
    have hfold : Header.folds (text ++ [cr, newline] ++ rest) = true := by
      rw [append_assoc, folds_append ht.folds.2]
      exact ht.folds.1
    rw [hfold, ih (by simp)] at hline
    simpa using hline

/-! ## Parts of a field -/

lemma plain_append : Plain (a ++ b) ↔ Plain a ∧ Plain b := by
  simp only [Plain, mem_append]
  tauto

lemma isSpace_of_lineTail (h : LineTail relaxed l tail) : ∀ c ∈ tail, isSpace c = true := by
  obtain rfl | rfl | ⟨-, -, rfl⟩ := h
  · simp
  · decide +kernel
  · decide +kernel

lemma content_of_lineTail (htail : LineTail relaxed l tail) (h : a ++ b = l ++ tail)
    (hlast : ∀ c ∈ a.getLast?, isSpace c = false) : ∃ d, l = a ++ d := by
  obtain ⟨d, rfl, rfl⟩ | ⟨d, rfl, hd⟩ := append_eq_append_iff.mp h
  · exact ⟨d, rfl⟩
  · cases hrev : d.getLast? with
    | none =>
      rw [getLast?_eq_none_iff] at hrev
      exact ⟨[], by simp [hrev]⟩
    | some c =>
      have hspa := isSpace_of_lineTail htail c (hd ▸ mem_append_left _ (mem_of_getLast? hrev))
      have hsolid := hlast c (by simp [hrev])
      rw [hspa] at hsolid
      cases hsolid

lemma FieldLine.left {d : List UInt8} (hl : FieldLine cont (a ++ d)) (ha : a ≠ [])
    (hlast : ∀ c ∈ a.getLast?, isSpace c = false) : FieldLine cont a := by
  refine ⟨(plain_append.mp hl.plain).1, fun hc => ?_⟩
  have hfold := (hl.folded hc).1
  rw [folds_append ha] at hfold
  refine ⟨hfold, ?_⟩
  obtain ⟨c, s, rfl, hbla⟩ := folds_iff.mp hfold
  cases s with
  | nil =>
    have hsolid := hlast c rfl
    obtain rfl | rfl := hbla
    all_goals cases hsolid
  | cons c' s => simp

lemma Folded.left (h : Folded relaxed cont (a ++ b)) (ha : a ≠ [])
    (hlast : ∀ c ∈ a.getLast?, isSpace c = false) : Folded relaxed cont a := by
  generalize htext : a ++ b = text at h
  induction h generalizing a with
  | @last cont l hl =>
    subst htext
    exact .last (FieldLine.left hl ha hlast)
  | @fold cont l tail text hl htail ht ih =>
    obtain ⟨d, hd, hb⟩ | ⟨d, rfl, hd⟩ := append_eq_append_iff.mp htext
    · obtain ⟨d', rfl⟩ := content_of_lineTail htail hd.symm hlast
      exact .last (FieldLine.left hl ha hlast)
    · cases d with
      | nil =>
        rw [append_nil] at ha hlast ⊢
        obtain ⟨d', hd'⟩ := content_of_lineTail (b := []) htail (by simp) hlast
        have htail' : tail = [] := by
          rw [append_assoc] at hd'
          exact (append_eq_nil_iff.mp (self_eq_append_right.mp hd')).1
        rw [htail', append_nil]
        exact .last hl
      | cons c d =>
        obtain ⟨rfl, rfl⟩ := List.cons.inj hd
        refine .fold hl htail (ih ?_ ?_ rfl)
        · rintro rfl
          have hsolid := hlast newline (by simp)
          cases hsolid
        · intro c hc
          exact hlast c (by simp [getLast?_cons, Option.mem_def.mp hc])

lemma head_of_blanks (hspa : ∀ c ∈ a, isSpace c = true) (h : ∀ c ∈ (a ++ newline :: b).head?, isSpace c = false) :
    False := by
  cases a with
  | nil => exact absurd (h _ rfl) (by decide)
  | cons c s =>
    have hc := h c rfl
    rw [hspa c mem_cons_self] at hc
    cases hc

lemma Folded.right (h : Folded relaxed cont (a ++ b)) (hhead : ∀ c ∈ b.head?, isSpace c = false) :
    Folded relaxed false b := by
  generalize htext : a ++ b = text at h
  induction h generalizing a with
  | @last cont l hl =>
    subst htext
    exact .last ⟨(plain_append.mp hl.plain).2, by simp⟩
  | @fold cont l tail text hl htail ht ih =>
    have hbla := isSpace_of_lineTail htail
    obtain ⟨d, hd, rfl⟩ | ⟨d, rfl, hd⟩ := append_eq_append_iff.mp htext
    · obtain ⟨x, rfl, rfl⟩ | ⟨x, rfl, rfl⟩ := append_eq_append_iff.mp hd
      · exact (head_of_blanks (fun c hc => hbla c (mem_append_right _ hc)) hhead).elim
      · have hx : x ≠ [] := by
          rintro rfl
          exact head_of_blanks hbla hhead
        have htail' : LineTail relaxed x tail := htail.imp_right (Or.imp_right fun h => ⟨h.1, hx, h.2.2⟩)
        exact .fold ⟨(plain_append.mp hl.plain).2, by simp⟩ htail' ht
    · cases d with
      | nil =>
        rw [nil_append] at hd
        exact (head_of_blanks (a := []) (by simp) (hd ▸ hhead)).elim
      | cons c d => exact ih (List.cons.inj hd).2.symm

lemma Folded.join {mid : List UInt8} (ha : Folded relaxed cont a) (hmid : Plain mid) (hne : mid ≠ [])
    (hb : Folded relaxed false b) : Folded relaxed cont (a ++ mid ++ b) := by
  -- the line at the joint is a line where the last line of `a` is one
  have hjoi : ∀ {cont l l'}, FieldLine cont l → Plain l' → FieldLine cont (l ++ mid ++ l') := by
    intro cont l l' hl hl'
    refine ⟨plain_append.mpr ⟨plain_append.mpr ⟨hl.plain, hmid⟩, hl'⟩, fun hc => ?_⟩
    obtain ⟨hfold, hlen⟩ := hl.folded hc
    have hne : l ≠ [] := ne_nil_of_length_pos (by omega)
    rw [append_assoc, folds_append hne]
    exact ⟨hfold, by rw [length_append]; omega⟩
  induction ha with
  | @last cont l hl =>
    cases hb with
    | last hl' => exact .last (hjoi hl hl'.plain)
    | @fold _ l' tail text hl' htail ht =>
      have htail' : LineTail relaxed (l ++ mid ++ l') tail :=
        htail.imp_right (Or.imp_right fun h => ⟨h.1, by simp [hne], h.2.2⟩)
      have hfold := Folded.fold (hjoi hl hl'.plain) htail' ht
      simpa using hfold
  | @fold cont l tail text hl htail ht ih =>
    have hfold := Folded.fold hl htail ih
    simpa using hfold

end SquidVideoCache.Header
