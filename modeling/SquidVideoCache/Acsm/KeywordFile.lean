import SquidVideoCache.Acsm.ParseLine

/-!
# Keyword files

If every line has a key, a blank and a number of its own, a line gives the same wherever it stands. A number of
three digits fills `siteflag` and leaves no room for its terminator, so `atoi` reads past it.
-/

namespace SquidVideoCache.Acsm
open Lib List

variable {got body rest s : List UInt8}

/-! ## The lines that are read -/

lemma fgets_line (hgot : got.length + 2 ≤ lineLen) (hbody : newline ∉ body) (rest : List UInt8) :
    fgets got (body ++ newline :: rest) = fgets got (body ++ [newline]) ++ fgets [] rest := by
  induction body generalizing got with
  | nil => simp [fgets]
  | cons c body ih =>
    rw [mem_cons, not_or] at hbody
    simp only [cons_append, fgets]
    split_ifs with hc
    · rw [ih (by decide) hbody.2, cons_append]
    · refine ih ?_ hbody.2
      rw [length_append, length_singleton]
      omega

lemma fgets_short (hbody : newline ∉ body) (hsho : got.length + body.length + 2 ≤ lineLen) (rest : List UInt8) :
    fgets got (body ++ newline :: rest) = (got ++ body ++ [newline]) :: fgets [] rest := by
  induction body generalizing got with
  | nil => simp [fgets]
  | cons c body ih =>
    rw [mem_cons, not_or] at hbody
    rw [length_cons] at hsho
    have hc : ¬ (c = newline ∨ got.length + 2 = lineLen) := not_or.2 ⟨Ne.symm hbody.1, by omega⟩
    rw [cons_append, fgets, if_neg hc, ih hbody.2 (by simp; omega)]
    simp

lemma mem_fgets {input : List UInt8} (hgot : got.length + 2 ≤ lineLen) (h : s ∈ fgets got input) :
    s ≠ [] ∧ s.length < lineLen := by
  induction input generalizing got with
  | nil =>
    unfold fgets at h
    split_ifs at h with hnil
    · cases h
    · rw [mem_singleton] at h
      rw [h]
      exact ⟨hnil, by omega⟩
  | cons c input ih =>
    unfold fgets at h
    split_ifs at h with hc
    · rcases mem_cons.1 h with rfl | h
      · refine ⟨by simp, ?_⟩
        rw [length_append, length_singleton]
        omega
      · exact ih (by decide) h
    · refine ih ?_ h
      rw [length_append, length_singleton]
      omega

lemma fgets_lines {lines : List (List UInt8)} (hlines : ∀ l ∈ lines, ∃ body, l = body ++ [newline] ∧ newline ∉ body)
    (rest : List UInt8) : fgets [] (lines.flatten ++ rest) = lines.flatMap (fgets []) ++ fgets [] rest := by
  induction lines with
  | nil => rfl
  | cons l lines ih =>
    obtain ⟨body, rfl, hbody⟩ := hlines l mem_cons_self
    have hread : fgets [] (body ++ newline :: (lines.flatten ++ rest)) = _ := fgets_line (by decide) hbody _
    rw [flatten_cons, append_assoc, append_assoc, singleton_append, hread,
      ih fun l hl => hlines l (mem_cons_of_mem _ hl), flatMap_cons, append_assoc]

/-! ## Lines on their own -/

lemma parseLines_cons {st : Scanner} {r : LineResult} {k' : Option ℕ} (h : parseLine (st.store s) st.k = .ok (r, k'))
    (hr : r ≠ .stop) (pieces : List (List UInt8)) :
    parseLines st (s :: pieces) = (parseLines ⟨st.store s, k'⟩ pieces >>= fun rest => pure (r :: rest)) := by
  rw [parseLines, h]
  cases r with
  | skip => rfl
  | stop => exact absurd rfl hr
  | add key flag => rfl

lemma parseLines_selfContained {pieces : List (List UInt8)} (hpie : ∀ s ∈ pieces, s ≠ [] ∧ s.length < lineLen)
    (hself : ∀ s ∈ pieces, SelfContained s ∧ lineResult s ≠ .stop) (st : Scanner) :
    parseLines st pieces = .ok (pieces.map lineResult) := by
  induction pieces generalizing st with
  | nil => rfl
  | cons s pieces ih =>
    obtain ⟨hne, hlen⟩ := hpie s mem_cons_self
    obtain ⟨hs, hstop⟩ := hself s mem_cons_self
    obtain ⟨k', hk'⟩ := parseLine_eq hne hlen hs _ st.k
    rw [parseLines_cons hk' hstop, ih (fun s hs => hpie s (mem_cons_of_mem _ hs))
      fun s hs => hself s (mem_cons_of_mem _ hs)]
    rfl

/-- A line gives the same in every buffer exactly if it is self-contained. In a file of such lines, none of which
ends the function, every line gives what it says on its own. -/
theorem parseLines_lines (lines : List (List UInt8)) (rest : List UInt8)
    (hlines : ∀ l ∈ lines, ∃ body, l = body ++ [newline] ∧ newline ∉ body) :
    (∀ s : List UInt8, s ≠ [] → s.length < lineLen →
      ((∃ r, ∀ st : Scanner, ∃ k', parseLine (st.store s) st.k = .ok (r, k')) ↔ SelfContained s)) ∧
    ((∀ s ∈ fgets [] (lines.flatten ++ rest), SelfContained s ∧ lineResult s ≠ .stop) →
      parseLines .init (fgets [] (lines.flatten ++ rest)) =
        .ok ((lines.flatMap fun l => (fgets [] l).map lineResult) ++ (fgets [] rest).map lineResult)) := by
  constructor
  · intro s hne hlen
    constructor
    · rintro ⟨r, hr⟩
      by_contra hself
      obtain ⟨k', hk'⟩ := hr .init
      have hfre := parseLine_fresh hne hlen hself (lineLen - (s.length + 1))
      have hsto : Scanner.init.store s = s ++ 0 :: List.replicate (lineLen - (s.length + 1)) 0 := by
        rw [Scanner.store, Scanner.init, drop_replicate]
      rw [hsto, show Scanner.init.k = none from rfl, hfre] at hk'
      cases hk'
    · intro hself
      exact ⟨lineResult s, fun st => parseLine_eq hne hlen hself _ st.k⟩
  · intro hself
    have hpie : ∀ s ∈ fgets [] (lines.flatten ++ rest), s ≠ [] ∧ s.length < lineLen := fun s hs => mem_fgets (by decide) hs
    rw [parseLines_selfContained hpie hself, fgets_lines hlines, map_append, map_flatMap]

def longLine (digit : Char) : List UInt8 := ascii ['a', 'b', 'c', 'd', 'e', 'f', 'g', 'h', ' ', digit] ++ [newline]

def bareLine : List UInt8 := [120, newline]

/-- The second line of both files is the same; its number is the one of the line before. -/
theorem parseLines_bareLine :
    parseLines .init (fgets [] (longLine '5' ++ bareLine)) = .ok [.add (ascii ['a', 'b', 'c', 'd', 'e', 'f', 'g', 'h']) 5, .add bareLine 5] ∧
    parseLines .init (fgets [] (longLine '6' ++ bareLine)) = .ok [.add (ascii ['a', 'b', 'c', 'd', 'e', 'f', 'g', 'h']) 6, .add bareLine 6] := by
  decide +kernel

theorem parseLines_longLine : parseLines .init (fgets [] ([longLine '5'].flatten ++ [])) = .ok [lineResult (longLine '5')] := by
  have hline : ∀ l ∈ [longLine '5'], ∃ body, l = body ++ [newline] ∧ newline ∉ body := by
    intro l hl
    rw [mem_singleton.1 hl]
    exact ⟨_, rfl, by decide⟩
  have hself : SelfContained (longLine '5') := Or.inr ⟨by decide, by decide, by decide⟩
  have hpie : fgets [] ([longLine '5'].flatten ++ []) = [longLine '5'] := by decide
  have hres := (parseLines_lines _ [] hline).2 fun s hs => by
    rw [hpie, mem_singleton] at hs
    rw [hs]
    exact ⟨hself, by decide⟩
  exact hres.trans (by decide)

/-! ## Well-formed files -/

structure KeyLine where
  key : List UInt8
  blanks : List UInt8
  digits : List UInt8
  key_ne : key ≠ []
  key_plain : ∀ c ∈ key, isBlank c = false ∧ c ≠ newline
  key_comment : key.head? ≠ some 35
  blanks_ne : blanks ≠ []
  blanks_blank : ∀ c ∈ blanks, isBlank c = true
  digits_ne : digits ≠ []
  digits_number : ∀ c ∈ digits, isNumber c = true
  digits_short : digits.length ≤ 3
  short : key.length + blanks.length + digits.length + 1 ≤ 255

def KeyLine.text (l : KeyLine) : List UInt8 := l.key ++ (l.blanks ++ (l.digits ++ [newline]))

structure CommentLine where
  body : List UInt8
  body_line : newline ∉ body
  short : body.length + 2 ≤ 255

def CommentLine.text (l : CommentLine) : List UInt8 := 35 :: l.body ++ [newline]

inductive FileLine where
  | comment (l : CommentLine)
  | entry (l : KeyLine)

def FileLine.text : FileLine → List UInt8
  | .comment l => l.text
  | .entry l => l.text

def FileLine.pattern : FileLine → Option AcsmPattern
  | .comment _ => none
  | .entry l => some ⟨upper l.key, UInt32.ofNat (numeral 10 l.digits)⟩

/-- The pattern that is added for it, if nothing fails. -/
def FileLine.added : FileLine → Option AcsmPattern
  | .comment _ => none
  | .entry l => if l.key.head? = some 0 then none else some ⟨upper (cString l.key), UInt32.ofNat (numeral 10 l.digits)⟩

/-- A file of such lines. The newline of a comment at the end may be missing. -/
structure KeywordFile where
  lines : List FileLine
  last : List UInt8
  last_comment : last ≠ [] → last.head? = some 35
  last_line : newline ∉ last
  last_short : last.length ≤ 255

def KeywordFile.text (f : KeywordFile) : List UInt8 := f.lines.flatMap FileLine.text ++ f.last

/-! ### One line -/

lemma take_cString_append (a b : List UInt8) : (cString (a ++ b)).take a.length = cString a := by
  induction a with
  | nil => rfl
  | cons c a ih =>
    by_cases hc : c = 0
    · simp [cString, hc]
    · have hcons : ∀ s, cString (c :: s) = c :: cString s := fun s => takeWhile_cons_of_pos (by simpa using hc)
      rw [cons_append, hcons, hcons, length_cons, take_succ_cons, ih]

section
variable (l : KeyLine)

lemma KeyLine.exists_blank : ∃ c ∈ l.text, isBlank c = true := by
  obtain ⟨b, bs, hb⟩ := exists_cons_of_ne_nil l.blanks_ne
  exact ⟨b, by simp [KeyLine.text, hb], l.blanks_blank b (by simp [hb])⟩

lemma KeyLine.findIdx_text : l.text.findIdx isBlank = l.key.length := by
  have hkey : ∀ c ∈ l.key, isBlank c = false := fun c hc => (l.key_plain c hc).1
  obtain ⟨b, bs, hb⟩ := exists_cons_of_ne_nil l.blanks_ne
  have hbla : isBlank b = true := l.blanks_blank b (by simp [hb])
  rw [KeyLine.text, findIdx_append, if_neg (by rw [findIdx_eq_length_of_false hkey]; omega), hb, cons_append,
    findIdx_cons, hbla]
  simp

lemma KeyLine.fromDigit_text : fromDigit l.text = l.digits ++ [newline] := by
  obtain ⟨b, bs, hb⟩ := exists_cons_of_ne_nil l.blanks_ne
  have hblanks : ∀ c ∈ bs, isBlank c = true := fun c hc => l.blanks_blank c (by simp [hb, hc])
  have hdrop : l.text.drop (l.text.findIdx isBlank + 1) = bs ++ (l.digits ++ [newline]) := by
    rw [l.findIdx_text, KeyLine.text, hb, ← drop_drop, drop_left]
    rfl
  have hpla : ∀ c, isBlank c = true → c ≠ 0 ∧ isNumber c = false := forall_byte (by decide +kernel)
  have hnul : 0 ∉ bs ++ (l.digits ++ [newline]) := by
    intro h
    rcases mem_append.1 h with h | h
    · exact (hpla 0 (hblanks 0 h)).1 rfl
    · rcases mem_append.1 h with h | h
      · exact absurd (l.digits_number 0 h) (by decide)
      · exact absurd h (by decide)
  obtain ⟨d, ds, hd⟩ := exists_cons_of_ne_nil l.digits_ne
  have hnumb : isNumber d = true := l.digits_number d (by simp [hd])
  rw [fromDigit, behindBlank, hdrop, cString_of_nulFree hnul, dropWhile_append_of_pos fun c hc => by
    simp [(hpla c (hblanks c hc)).2], hd, cons_append, dropWhile_cons_of_neg (by simp [hnumb])]

lemma KeyLine.digitsOf_text : digitsOf l.text = l.digits := by
  rw [digitsOf, l.fromDigit_text]
  exact takeWhile_run l.digits_number (by decide +kernel)

lemma KeyLine.refused_text : refused l.text = false := by
  rw [refused, l.fromDigit_text, dropWhile_append_of_pos l.digits_number]
  rfl

lemma KeyLine.length_text : l.text.length ≤ 255 := by
  have hsho := l.short
  simp only [KeyLine.text, length_append, length_singleton]
  omega

lemma KeyLine.skipped_text : Skipped l.text ↔ l.key.head? = some 0 := by
  have hlen := l.length_text
  have hstr : (cString l.text).length ≤ l.text.length := (takeWhile_sublist _).length_le
  have hhead : l.text.head? = l.key.head? := by
    obtain ⟨c, cs, hc⟩ := exists_cons_of_ne_nil l.key_ne
    simp [KeyLine.text, hc]
  rw [Skipped, hhead]
  constructor
  · rintro (hlong | h0 | hcom)
    · unfold maxPatternLen at hlong
      omega
    · exact h0
    · exact absurd hcom l.key_comment
  · exact fun h => Or.inr (Or.inl h)

lemma KeyLine.lineResult_text : lineResult l.text =
    if l.key.head? = some 0 then .skip else .add (cString l.key) (numeral 10 l.digits) := by
  have hkey : (cString l.text).take l.key.length = cString l.key := take_cString_append _ _
  simp [lineResult, l.skipped_text, l.refused_text, l.findIdx_text, l.digitsOf_text, hkey, l.digits_short]

lemma KeyLine.selfContained_text (h : l.key.head? = some 0 ∨ l.digits.length ≠ 3) : SelfContained l.text := by
  rcases h with h0 | hthr
  · exact Or.inl (l.skipped_text.2 h0)
  · refine Or.inr ⟨l.exists_blank, ?_, fun _ => ?_⟩
    · rw [l.fromDigit_text]
      simp
    · rwa [l.digitsOf_text]

/-- A number of three digits is read past the end of `siteflag`. -/
theorem KeyLine.parseLine_three (h0 : l.key.head? ≠ some 0) (hthr : l.digits.length = 3) (stale : List UInt8)
    (k : Option ℕ) : parseLine (l.text ++ 0 :: stale) k = .error .bounds := by
  have hne : l.text ≠ [] := by simp [KeyLine.text]
  have hnumb : fromDigit l.text ≠ [] := by
    rw [l.fromDigit_text]
    simp
  obtain ⟨k', hk'⟩ := scanLine_eq l.exists_blank hnumb (by have := l.length_text; unfold lineLen; omega) stale k
  rw [parseLine_skipped_or hne, if_neg fun h => h0 (l.skipped_text.1 h), hk', l.refused_text, if_neg (by simp),
    l.digitsOf_text, if_pos hthr]

end

lemma FileLine.text_line (l : FileLine) : ∃ body, l.text = body ++ [newline] ∧ newline ∉ body ∧ body.length ≤ 254 := by
  cases l with
  | comment l =>
    have hsho := l.short
    refine ⟨35 :: l.body, rfl, ?_, by rw [length_cons]; omega⟩
    rw [mem_cons, not_or]
    exact ⟨by decide, l.body_line⟩
  | entry l =>
    have hsho := l.short
    have hpla : ∀ c, isBlank c = true ∨ isNumber c = true → c ≠ newline := forall_byte (by decide +kernel)
    refine ⟨l.key ++ (l.blanks ++ l.digits), by simp [FileLine.text, KeyLine.text], ?_, ?_⟩
    · intro h
      rcases mem_append.1 h with h | h
      · exact (l.key_plain _ h).2 rfl
      · rcases mem_append.1 h with h | h
        · exact hpla _ (Or.inl (l.blanks_blank _ h)) rfl
        · exact hpla _ (Or.inr (l.digits_number _ h)) rfl
    · simp only [length_append]
      omega

lemma fgets_text (lines : List FileLine) (rest : List UInt8) :
    fgets [] (lines.flatMap FileLine.text ++ rest) = lines.map FileLine.text ++ fgets [] rest := by
  induction lines with
  | nil => rfl
  | cons l lines ih =>
    obtain ⟨body, hbody, hline, hsho⟩ := l.text_line
    rw [flatMap_cons, hbody, append_assoc, append_assoc, singleton_append,
      fgets_short hline (by simp only [length_nil, lineLen]; omega), nil_append, ih, ← hbody, map_cons,
      cons_append]

lemma fgets_unended (hbody : newline ∉ body) (hsho : got.length + body.length + 1 < lineLen) :
    fgets got body = if got ++ body = [] then [] else [got ++ body] := by
  induction body generalizing got with
  | nil => rw [fgets, append_nil]
  | cons c body ih =>
    rw [mem_cons, not_or] at hbody
    rw [length_cons] at hsho
    have hc : ¬ (c = newline ∨ got.length + 2 = lineLen) := not_or.2 ⟨Ne.symm hbody.1, by omega⟩
    rw [fgets, if_neg hc, ih hbody.2 (by simp; omega), append_assoc, singleton_append]

lemma KeywordFile.fgets_text (f : KeywordFile) :
    fgets [] f.text = f.lines.map FileLine.text ++ if f.last = [] then [] else [f.last] := by
  have hsho := f.last_short
  rw [KeywordFile.text, Acsm.fgets_text,
    fgets_unended f.last_line (by simp only [length_nil, lineLen]; omega), nil_append]

/-! ### The list of patterns -/

def LineResult.pattern : LineResult → Option AcsmPattern
  | .skip => none
  | .stop => none
  | .add key flag => some ⟨upper key, UInt32.ofInt flag⟩

lemma foldl_addResult (results : List LineResult) (acsm : AcsmStruct) :
    (results.foldl addResult acsm).acsmPatterns = (results.filterMap LineResult.pattern).reverse ++ acsm.acsmPatterns := by
  induction results generalizing acsm with
  | nil => rfl
  | cons r results ih =>
    rw [foldl_cons, ih]
    cases r with
    | skip => rfl
    | stop => rfl
    | add key flag => simp [LineResult.pattern, addResult, acsmAddPattern, upper]

lemma FileLine.skipped_comment (l : CommentLine) : Skipped l.text := Or.inr (Or.inr rfl)

lemma FileLine.pattern_lineResult (l : FileLine) : (lineResult l.text).pattern = l.added := by
  cases l with
  | comment l =>
    rw [FileLine.text, lineResult, if_pos (FileLine.skipped_comment l)]
    rfl
  | entry l =>
    rw [FileLine.text, l.lineResult_text, FileLine.added]
    split_ifs
    · rfl
    · have hflag : UInt32.ofInt (numeral 10 l.digits : ℕ) = UInt32.ofNat (numeral 10 l.digits) := by
        have hnat : ((numeral 10 l.digits : ℤ) % 2 ^ 32).toNat = numeral 10 l.digits % 2 ^ 32 := by omega
        rw [UInt32.ofInt, hnat, ← UInt32.toNat_inj, UInt32.toNat_ofNat', UInt32.toNat_ofNat', Nat.mod_mod]
      rw [LineResult.pattern, hflag]

/-- Every number with room for its terminator, or not read at all. -/
def FileLine.Fits : FileLine → Prop
  | .comment _ => True
  | .entry l => l.key.head? = some 0 ∨ l.digits.length ≠ 3

lemma FileLine.parseLine_fits {l : FileLine} (h : l.Fits) (st : Scanner) :
    ∃ k', parseLine (st.store l.text) st.k = .ok (lineResult l.text, k') := by
  obtain ⟨body, hbody, -, hsho⟩ := l.text_line
  have hne : l.text ≠ [] := by simp [hbody]
  have hlen : l.text.length < lineLen := by
    rw [hbody, length_append, length_singleton, lineLen]
    omega
  refine parseLine_eq hne hlen ?_ _ st.k
  cases l with
  | comment l => exact Or.inl (FileLine.skipped_comment l)
  | entry l => exact l.selfContained_text h

lemma FileLine.parseLine_not_fits {l : FileLine} (h : ¬ l.Fits) (st : Scanner) :
    parseLine (st.store l.text) st.k = .error .bounds := by
  cases l with
  | comment l => exact absurd trivial h
  | entry l =>
    obtain ⟨h0, hthr⟩ := not_or.1 h
    exact l.parseLine_three h0 (not_not.1 hthr) _ _

lemma FileLine.lineResult_ne_stop (l : FileLine) : lineResult l.text ≠ .stop := by
  cases l with
  | comment l =>
    rw [FileLine.text, lineResult, if_pos (FileLine.skipped_comment l)]
    simp
  | entry l =>
    rw [FileLine.text, l.lineResult_text]
    split_ifs <;> simp

variable {lines : List FileLine}

lemma parseLines_text (h : ∀ l ∈ lines, l.Fits) {rest : List (List UInt8)} {results : List LineResult}
    (hrest : ∀ st, parseLines st rest = .ok results) (st : Scanner) :
    parseLines st (lines.map FileLine.text ++ rest) = .ok ((lines.map fun l => lineResult l.text) ++ results) := by
  induction lines generalizing st with
  | nil => exact hrest st
  | cons l lines ih =>
    obtain ⟨k', hk'⟩ := FileLine.parseLine_fits (h l mem_cons_self) st
    rw [map_cons, cons_append, parseLines_cons hk' l.lineResult_ne_stop,
      ih fun l hl => h l (mem_cons_of_mem _ hl)]
    rfl

lemma parseLines_not_fits (h : ∃ l ∈ lines, ¬ l.Fits) (rest : List (List UInt8)) (st : Scanner) :
    parseLines st (lines.map FileLine.text ++ rest) = .error .bounds := by
  induction lines generalizing st with
  | nil =>
    obtain ⟨l, hl, -⟩ := h
    cases hl
  | cons l lines ih =>
    rw [map_cons, cons_append]
    by_cases hl : l.Fits
    · obtain ⟨k', hk'⟩ := FileLine.parseLine_fits hl st
      have hrest : ∃ l ∈ lines, ¬ l.Fits := by
        obtain ⟨l', hmem, hnot⟩ := h
        rcases mem_cons.1 hmem with rfl | hmem
        · exact absurd hl hnot
        · exact ⟨l', hmem, hnot⟩
      rw [parseLines_cons hk' l.lineResult_ne_stop, ih hrest]
      rfl
    · rw [parseLines, FileLine.parseLine_not_fits hl]
      rfl

lemma upper_cString_iff (key : List UInt8) : upper (cString key) = upper key ↔ (0 : UInt8) ∉ key := by
  constructor
  · intro h
    have hlen : (cString key).length = key.length := by simpa using congrArg List.length h
    have heq : cString key = key := (List.takeWhile_prefix _).eq_of_length hlen
    rw [← heq]
    exact cString_nulFree key
  · intro h
    rw [cString_of_nulFree h]

lemma length_added_le (lines : List FileLine) :
    (lines.filterMap FileLine.added).length ≤ (lines.filterMap FileLine.pattern).length := by
  induction lines with
  | nil => exact le_rfl
  | cons l lines ih =>
    cases l with
    | comment l => exact ih
    | entry l =>
      rw [filterMap_cons_some (show FileLine.pattern (.entry l) = some _ from rfl), length_cons]
      by_cases h0 : l.key.head? = some 0
      · rw [filterMap_cons_none (by rw [FileLine.added, if_pos h0])]
        omega
      · rw [filterMap_cons_some (by rw [FileLine.added, if_neg h0]), length_cons]
        omega

lemma filterMap_added_iff (lines : List FileLine) :
    lines.filterMap FileLine.added = lines.filterMap FileLine.pattern ↔ ∀ l, .entry l ∈ lines → (0 : UInt8) ∉ l.key := by
  induction lines with
  | nil => simp
  | cons l lines ih =>
    cases l with
    | comment l =>
      rw [filterMap_cons_none rfl, filterMap_cons_none rfl, ih]
      simp
    | entry l =>
      have hentr : (∀ l', .entry l' ∈ FileLine.entry l :: lines → (0 : UInt8) ∉ l'.key) ↔
          (0 : UInt8) ∉ l.key ∧ ∀ l', .entry l' ∈ lines → (0 : UInt8) ∉ l'.key := by simp
      rw [hentr, filterMap_cons_some (show FileLine.pattern (.entry l) = some _ from rfl)]
      by_cases h0 : l.key.head? = some 0
      · -- a key that starts with a NUL is skipped, and the lists differ in their lengths
        have hmem : (0 : UInt8) ∈ l.key := mem_of_mem_head? h0
        rw [filterMap_cons_none (by rw [FileLine.added, if_pos h0])]
        constructor
        · intro heq
          have hle := length_added_le lines
          rw [heq, length_cons] at hle
          omega
        · exact fun h => absurd hmem h.1
      · rw [filterMap_cons_some (by rw [FileLine.added, if_neg h0]), List.cons.injEq, ih, AcsmPattern.mk.injEq,
          upper_cString_iff, and_iff_left rfl]

lemma KeywordFile.parseLines_last (f : KeywordFile) : ∃ results : List LineResult,
    (∀ st, parseLines st (if f.last = [] then [] else [f.last]) = .ok results) ∧ results.filterMap LineResult.pattern = [] := by
  by_cases hlast : f.last = []
  · refine ⟨[], fun st => ?_, rfl⟩
    rw [if_pos hlast, parseLines]
  · refine ⟨[.skip], fun st => ?_, rfl⟩
    have hski : Skipped f.last := Or.inr (Or.inr (f.last_comment hlast))
    have hline : parseLine (st.store f.last) st.k = .ok (.skip, st.k) := (parseLine_skipped_or hlast).trans (if_pos hski)
    rw [if_neg hlast, parseLines_cons hline (by simp)]
    rfl

/-- The list of patterns is that of the file's lines exactly if no number has three digits and no key holds a NUL. -/
theorem acsmParseLine_file (f : KeywordFile) (acsm : AcsmStruct) : (∃ acsm', acsmParseLine f.text acsm = .ok acsm' ∧
      acsm'.acsmPatterns = (f.lines.filterMap FileLine.pattern).reverse ++ acsm.acsmPatterns) ↔
    ∀ l, .entry l ∈ f.lines → l.digits.length ≤ 2 ∧ (0 : UInt8) ∉ l.key := by
  obtain ⟨results, hlast, hnone⟩ := f.parseLines_last
  have hadde : ((f.lines.map fun l => lineResult l.text) ++ results).filterMap LineResult.pattern =
      f.lines.filterMap FileLine.added := by
    rw [filterMap_append, hnone, append_nil, filterMap_map]
    exact congrArg (List.filterMap · _) (funext FileLine.pattern_lineResult)
  rw [acsmParseLine, f.fgets_text]
  by_cases hfits : ∀ l ∈ f.lines, l.Fits
  · -- nothing fails, and the list is that of the patterns added
    have hpatt : (∃ acsm', (pure (((f.lines.map fun l => lineResult l.text) ++ results).foldl addResult acsm) :
          Exec AcsmStruct) = .ok acsm' ∧
        acsm'.acsmPatterns = (f.lines.filterMap FileLine.pattern).reverse ++ acsm.acsmPatterns) ↔
        f.lines.filterMap FileLine.added = f.lines.filterMap FileLine.pattern := by
      constructor
      · rintro ⟨acsm', hok, hpat⟩
        cases hok
        rw [foldl_addResult, hadde] at hpat
        exact reverse_injective (append_cancel_right hpat)
      · intro heq
        exact ⟨_, rfl, by rw [foldl_addResult, hadde, heq]⟩
    rw [parseLines_text hfits hlast, ok_bind, hpatt, filterMap_added_iff]
    refine ⟨fun h l hl => ⟨?_, h l hl⟩, fun h l hl => (h l hl).2⟩
    have hsho := l.digits_short
    rcases hfits (.entry l) hl with h0 | hthr
    · exact absurd (mem_of_mem_head? h0) (h l hl)
    · omega
  · have hnot : ∃ l ∈ f.lines, ¬ l.Fits := by simpa using hfits
    rw [parseLines_not_fits hnot]
    constructor
    · rintro ⟨acsm', hok, -⟩
      cases hok
    · intro h
      refine absurd (fun l hl => ?_) hfits
      cases l with
      | comment l => trivial
      | entry l =>
        obtain ⟨hdigits, -⟩ := h l hl
        exact Or.inr (by omega)

/-- The shipped list of keywords has such lines. -/
theorem acsmParseLine_three : acsmParseLine (ascii ['/', 'y', 'o', 'u', 'k', 'u', '/', ' ', '1', '0', '0'] ++ [newline]) acsmNew = .error .bounds := by
  have hpar : parseLines .init (fgets [] (ascii ['/', 'y', 'o', 'u', 'k', 'u', '/', ' ', '1', '0', '0'] ++ [newline])) = .error .bounds := by
    decide +kernel
  rw [acsmParseLine, hpar]
  rfl

end SquidVideoCache.Acsm
