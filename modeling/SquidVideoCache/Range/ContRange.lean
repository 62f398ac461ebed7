import SquidVideoCache.Range.Parse

/-!
# The Content-Range header of HttpHdrContRange.c

What is packed begins with `bytes` only if the first byte and the length are known, and
the parser takes nothing else.
-/

namespace SquidVideoCache.Range
open Lib List Option
open Header (httpHeaderParseSize)

structure HttpHdrContRange where
  spec : HttpHdrRangeSpec
  elength : ℤ
  deriving DecidableEq, Repr

def httpHdrRangeRespSpecParseInit (field : List UInt8) (flen : ℕ) : Option HttpHdrRangeSpec :=
  if flen < 2 then none
  else if field.head? = some 42 then some ⟨unknown, unknown⟩
  else
    match field.findIdx? (· = 45) with
    | none => none
    | some p =>
      if p < flen then
        (httpHeaderParseSize field).bind fun offset =>
          if p + 1 < flen then
            (httpHeaderParseSize (field.drop (p + 1))).bind fun lastPos =>
              sensible ⟨offset, sizeDiff (toOff (lastPos + 1)) offset⟩
          else sensible ⟨offset, unknown⟩
      else none

def bytesSpace : List UInt8 := ascii ['b', 'y', 't', 'e', 's', ' ']

def httpHdrContRangeParseInit (str : List UInt8) : Option HttpHdrContRange :=
  if ((cString str).take 6).map tolower = bytesSpace then
    let field := (cString str).drop 6
    (field.findIdx? (· = 47)).bind fun p =>
      (if field.head? = some 42 then some ⟨unknown, unknown⟩ else httpHdrRangeRespSpecParseInit field p).bind fun spec =>
        if (field.drop (p + 1)).head? = some 42 then some ⟨spec, unknown⟩
        else (httpHeaderParseSize (field.drop (p + 1))).map (⟨spec, ·⟩)
  else none

def httpHdrRangeRespSpecPackInto (spec : HttpHdrRangeSpec) : List UInt8 :=
  if spec.offset = unknown ∨ spec.length = unknown then [42]
  else bytesSpace ++ (signedDecimal spec.offset ++ 45 :: signedDecimal (toOff (spec.offset + spec.length - 1)))

def httpHdrContRangePackInto (range : HttpHdrContRange) : List UInt8 :=
  httpHdrRangeRespSpecPackInto range.spec ++
    47 :: if range.elength = unknown then [42] else signedDecimal range.elength

/-! ## Numbers and marks -/

variable {field rest : List UInt8} {spec : HttpHdrRangeSpec} {n : ℤ} {flen : ℕ}
  {c : UInt8} {text tail : List UInt8} {lastPos : ℤ}

lemma nul_notMem_signedDecimal (n : ℤ) : 0 ∉ signedDecimal n := fun h => absurd (mem_signedDecimal h) (by decide)

lemma httpHeaderParseSize_printed (hmin : -2 ^ 63 ≤ n) (hmax : n ≤ maxOff) (hnul : 0 ∉ rest)
    (hend : ∀ c ∈ rest.head?, 10 ≤ digitValue c) : httpHeaderParseSize (signedDecimal n ++ rest) = some n := by
  obtain ⟨used, hused, hread⟩ := strtoll_signedDecimal hmin hmax hend
  have hstr : cString (signedDecimal n ++ rest) = signedDecimal n ++ rest := by
    apply cString_of_nulFree
    simp [nul_notMem_signedDecimal, hnul]
  rw [httpHeaderParseSize, hstr, hread]
  simp [hused]

lemma findIdx_mark (h : c ∉ text) (rest : List UInt8) : (text ++ c :: rest).findIdx? (· = c) = some text.length := by
  have hnone : text.findIdx? (· = c) = none := by
    rw [findIdx?_eq_none_iff]
    intro d hd
    simpa using fun heq : d = c => h (heq ▸ hd)
  simp [hnone, findIdx?_cons]

/-! ## What is parsed -/

/-- A range whose first byte and length are known, with the number that has been read for its last byte. -/
structure Known (spec : HttpHdrRangeSpec) (lastPos : ℤ) : Prop where
  offset_bounds : -2 ^ 63 ≤ spec.offset ∧ spec.offset ≤ maxOff
  offset_ne : spec.offset ≠ unknown
  length_ne : spec.length ≠ unknown
  sense : sensible ⟨spec.offset, sizeDiff (toOff (lastPos + 1)) spec.offset⟩ = some spec
  lastPos_le : lastPos ≤ maxOff
  of_neg : spec.offset < 0 → lastPos = -spec.offset
  of_nonneg : 0 ≤ spec.offset → 0 ≤ lastPos ∧ toOff (spec.offset + spec.length - 1) = lastPos

lemma lastPos_of_nonneg (hn : 0 ≤ n) (hmax : n ≤ maxOff) (hlow : -2 ^ 63 ≤ lastPos)
    (hlast : lastPos ≤ maxOff) (hne : sizeDiff (toOff (lastPos + 1)) n ≠ 0) :
    n ≤ lastPos ∧ sizeDiff (toOff (lastPos + 1)) n = lastPos + 1 - n := by
  unfold sizeDiff at hne ⊢
  rcases le_or_gt (lastPos + 1) maxOff with hle | hgt
  · rw [toOff_of_le (by omega) hle] at hne ⊢
    split_ifs at hne ⊢ with hge
    · rw [toOff_of_le (by omega) (by omega)] at hne ⊢
      exact ⟨by omega, rfl⟩
    · exact absurd rfl hne
  · -- the successor wraps around and is below every offset
    rw [toOff_of_gt hgt (by unfold maxOff at *; omega), if_neg (by unfold maxOff at *; omega)] at hne
    exact absurd rfl hne

/-- A minus sign before the first number is the dash, so the second number has the same digits. -/
theorem lastPos_of_neg (hnul : 0 ∉ field) (hn : httpHeaderParseSize field = some n) (hneg : n < 0) {p : ℕ}
    (hp : field.findIdx? (· = 45) = some p)
    (hlast : httpHeaderParseSize (field.drop (p + 1)) = some lastPos) : lastPos = -n := by
  obtain ⟨blanks, digits, rest, rfl, hblanks, hne, hdigits, hend, rfl⟩ := httpHeaderParseSize_negative hnul hn hneg
  rw [findIdx_dash hblanks] at hp
  obtain rfl := some.inj hp
  have hdrop : (blanks ++ 45 :: (digits ++ rest)).drop (blanks.length + 1) = digits ++ rest := by
    rw [← drop_drop, drop_left, drop_one, tail_cons]
  have hnul' : 0 ∉ digits ++ rest := fun h => hnul (mem_append_right _ (mem_cons_of_mem _ h))
  rw [hdrop, httpHeaderParseSize_digits hnul' hne hdigits hend] at hlast
  split_ifs at hlast
  rw [neg_neg]
  exact (some.inj hlast).symm

/-- The first byte and the length are known: there is no star, the first number is not the one that stands for
the unknown, and something stands between the dash and the slash. -/
def Printable (field : List UInt8) : Prop :=
  field.head? ≠ some 42 ∧ httpHeaderParseSize field ≠ some unknown ∧ field[field.findIdx (· = 45) + 1]? ≠ some 47

lemma known_or_unknown (hnul : 0 ∉ field) (hflen : field.findIdx? (· = 47) = some flen)
    (hstar : field.head? ≠ some 42) (h : httpHdrRangeRespSpecParseInit field flen = some spec) :
    (Printable field ∧ ∃ lastPos, Known spec lastPos) ∨
      (¬ Printable field ∧ (spec.offset = unknown ∨ spec.length = unknown)) := by
  unfold httpHdrRangeRespSpecParseInit at h
  split_ifs at h
  cases hp : field.findIdx? (· = 45) with
  | none => simp [hp] at h
  | some p =>
    simp only [hp, ite_none_right_eq_some] at h
    obtain ⟨hlt, h⟩ := h
    obtain ⟨n, hn, h⟩ := bind_eq_some_iff.mp h
    have hdash : field.findIdx (· = 45) = p := (findIdx?_eq_some_iff_findIdx_eq.mp hp).2
    obtain ⟨hend, hsla, hbef⟩ := findIdx?_eq_some_iff_getElem.mp hflen
    unfold Printable
    rw [hdash, hn]
    split_ifs at h with hmore
    · obtain ⟨lastPos, hlast, hsen⟩ := bind_eq_some_iff.mp h
      obtain ⟨hlow, hmax⟩ := httpHeaderParseSize_bounds hn
      obtain ⟨hlow', hmax'⟩ := httpHeaderParseSize_bounds hlast
      have hnos : field[p + 1]? ≠ some 47 := by
        rw [getElem?_eq_getElem (by omega)]
        simpa using hbef _ hmore
      obtain ⟨rfl, hne⟩ := sensible_eq_some hsen
      rcases eq_or_ne n unknown with rfl | hkno
      · exact .inr ⟨fun hall => hall.2.1 rfl, .inl rfl⟩
      refine .inl ⟨⟨hstar, by simpa using hkno, hnos⟩, lastPos, ⟨hlow, hmax⟩, hkno, ?_, hsen, hmax', ?_, ?_⟩
      · rcases lt_or_ge n 0 with hneg | hnn
        · obtain rfl := lastPos_of_neg hnul hn hneg hp hlast
          exact (sizeDiff_of_neg hmax' hneg hne).1
        · obtain ⟨hle, heq⟩ := lastPos_of_nonneg hnn hmax hlow' hmax' hne
          simp only [unknown]
          omega
      · exact fun hneg => lastPos_of_neg hnul hn hneg hp hlast
      · intro hnn
        obtain ⟨hle, heq⟩ := lastPos_of_nonneg hnn hmax hlow' hmax' hne
        refine ⟨hnn.trans hle, ?_⟩
        simp only [heq]
        rw [toOff_of_le (by omega) (by omega)]
        omega
    · -- the slash follows the dash
      obtain ⟨rfl, -⟩ := sensible_eq_some h
      refine .inr ⟨fun hall => hall.2.2 ?_, .inr rfl⟩
      obtain rfl : p + 1 = flen := by omega
      rw [getElem?_eq_getElem hend]
      simpa using hsla

/-! ## What is packed -/

lemma signedDecimal_ne_nil (n : ℤ) : signedDecimal n ≠ [] := by
  unfold signedDecimal
  split_ifs
  · simp
  · exact decimal_ne_nil _

lemma notMem_signedDecimal (hne : c ≠ 45) (hc : 10 ≤ digitValue c) (n : ℤ) : c ∉ signedDecimal n := by
  intro h
  obtain rfl | hlt := mem_signedDecimal h
  · exact hne rfl
  · omega

lemma head_signedDecimal (n : ℤ) (rest : List UInt8) : (signedDecimal n ++ rest).head? ≠ some 42 := by
  rw [head?_append_of_ne_nil _ (signedDecimal_ne_nil n)]
  exact fun h => notMem_signedDecimal (by decide) (by decide) n (mem_of_head? h)

lemma digit_of_cons {rest : List UInt8} (hc : 10 ≤ digitValue c) : ∀ d ∈ (c :: rest).head?, 10 ≤ digitValue d := by
  simpa using hc

/-- The packed numbers are read again: the sign of a negative offset is taken for the dash as before. -/
theorem Known.parseInit (h : Known spec lastPos) (hrest : 0 ∉ rest)
    (htext : text = signedDecimal spec.offset ++ 45 :: signedDecimal (toOff (spec.offset + spec.length - 1))) :
    httpHdrRangeRespSpecParseInit (text ++ 47 :: rest) text.length = some spec := by
  set last := toOff (spec.offset + spec.length - 1) with hlast
  have hnul : 0 ∉ 45 :: (signedDecimal last ++ 47 :: rest) := by
    simp [nul_notMem_signedDecimal, hrest]
  have hoffset : httpHeaderParseSize (text ++ 47 :: rest) = some spec.offset := by
    rw [htext, append_assoc]
    exact httpHeaderParseSize_printed h.offset_bounds.1 h.offset_bounds.2 hnul (digit_of_cons (by decide))
  have hlen' := length_pos_of_ne_nil (signedDecimal_ne_nil last)
  have hsize : text.length = (signedDecimal spec.offset).length + 1 + (signedDecimal last).length := by
    simp [htext]
    omega
  obtain ⟨p, hp, hmore, hread⟩ : ∃ p, (text ++ 47 :: rest).findIdx? (· = 45) = some p ∧ p + 1 < text.length ∧
      httpHeaderParseSize ((text ++ 47 :: rest).drop (p + 1)) = some lastPos := by
    rcases lt_or_ge spec.offset 0 with hneg | hnn
    · have hsig : signedDecimal spec.offset = 45 :: signedDecimal lastPos := by
        rw [h.of_neg hneg, signedDecimal, signedDecimal, if_pos hneg, if_neg (by omega), Int.natAbs_neg]
      refine ⟨0, by simp [htext, hsig, findIdx?_cons], by omega, ?_⟩
      rw [htext, hsig]
      simp only [append_assoc]
      exact httpHeaderParseSize_printed (by have := h.of_neg hneg; omega) h.lastPos_le hnul (digit_of_cons (by decide))
    · have hdash : 45 ∉ signedDecimal spec.offset := by
        rw [signedDecimal, if_neg (by omega)]
        exact fun hmem => absurd (mem_decimal hmem) (by decide)
      obtain ⟨hpos, heq⟩ := h.of_nonneg hnn
      refine ⟨(signedDecimal spec.offset).length, ?_, by omega, ?_⟩
      · rw [htext, append_assoc]
        exact findIdx_mark hdash _
      · have hdrop : (text ++ 47 :: rest).drop ((signedDecimal spec.offset).length + 1) = signedDecimal last ++ 47 :: rest := by
          rw [htext, append_assoc, ← drop_drop, drop_left]
          rfl
        rw [hdrop, hlast, heq]
        exact httpHeaderParseSize_printed (by omega) h.lastPos_le (by simp [hrest]) (digit_of_cons (by decide))
  have hstar : (text ++ 47 :: rest).head? ≠ some 42 := by
    rw [htext, append_assoc]
    exact head_signedDecimal _ _
  unfold httpHdrRangeRespSpecParseInit
  rw [if_neg (by omega), if_neg hstar, hp]
  dsimp only
  rw [if_pos (by omega), hoffset, bind_some, if_pos hmore, hread]
  exact h.sense

lemma httpHdrContRangeParseInit_cut (htext : 0 ∉ text) (htail : 0 ∉ tail) (hsla : 47 ∉ text)
    (hstar : (text ++ 47 :: tail).head? ≠ some 42) : httpHdrContRangeParseInit (bytesSpace ++ text ++ 47 :: tail) =
      (httpHdrRangeRespSpecParseInit (text ++ 47 :: tail) text.length).bind fun spec =>
        if tail.head? = some 42 then some ⟨spec, unknown⟩ else (httpHeaderParseSize tail).map (⟨spec, ·⟩) := by
  have hbyt : 0 ∉ bytesSpace := by decide
  have hstr : cString (bytesSpace ++ text ++ 47 :: tail) = bytesSpace ++ (text ++ 47 :: tail) := by
    apply cString_of_nulFree
    simp [htext, htail, hbyt]
  have hunit : ((bytesSpace ++ (text ++ 47 :: tail)).take 6).map tolower = bytesSpace := by
    change (bytesSpace).map tolower = bytesSpace
    decide
  have hfie : (bytesSpace ++ (text ++ 47 :: tail)).drop 6 = text ++ 47 :: tail := rfl
  have hdrop : (text ++ 47 :: tail).drop (text.length + 1) = tail := by
    rw [← drop_drop, drop_left]
    rfl
  unfold httpHdrContRangeParseInit
  rw [hstr, if_pos hunit, hfie]
  dsimp only
  rw [findIdx_mark hsla, bind_some, if_neg hstar, hdrop]

lemma elength_packed {elength : ℤ} (hlow : -2 ^ 63 ≤ elength) (hmax : elength ≤ maxOff)
    (htail : tail = if elength = unknown then [42] else signedDecimal elength) :
    0 ∉ tail ∧ (if tail.head? = some 42 then some (HttpHdrContRange.mk spec unknown)
      else (httpHeaderParseSize tail).map (⟨spec, ·⟩)) = some ⟨spec, elength⟩ := by
  by_cases hunk : elength = unknown
  · simp [htail, hunk]
  · have hhead := head_signedDecimal elength []
    have hread := httpHeaderParseSize_printed hlow hmax not_mem_nil (by simp)
    rw [append_nil] at hhead hread
    simp [htail, hunk, nul_notMem_signedDecimal, hhead, hread]

/-- A Content-Range is packed into a text that is parsed to it again exactly if its offset and length are known. -/
theorem contRange_packed_iff {str : List UInt8} {range : HttpHdrContRange}
    (h : httpHdrContRangeParseInit str = some range) :
    httpHdrContRangeParseInit (httpHdrContRangePackInto range) = some range ↔ Printable ((cString str).drop 6) := by
  have hnul : 0 ∉ (cString str).drop 6 := fun hmem => cString_nulFree str (mem_of_mem_drop hmem)
  unfold httpHdrContRangeParseInit at h
  split_ifs at h
  obtain ⟨p, hp, h⟩ := bind_eq_some_iff.mp h
  obtain ⟨spec, hspec, h⟩ := bind_eq_some_iff.mp h
  obtain ⟨elength, rfl, hlow, hmax⟩ : ∃ elength, range = ⟨spec, elength⟩ ∧ -2 ^ 63 ≤ elength ∧ elength ≤ maxOff := by
    split_ifs at h
    · exact ⟨unknown, (some.inj h).symm, by decide, by decide⟩
    · obtain ⟨elength, hsize, heq⟩ := map_eq_some_iff.mp h
      exact ⟨elength, heq.symm, httpHeaderParseSize_bounds hsize⟩
  have hcas : (Printable ((cString str).drop 6) ∧ ∃ lastPos, Known spec lastPos) ∨
      (¬ Printable ((cString str).drop 6) ∧ (spec.offset = unknown ∨ spec.length = unknown)) := by
    split_ifs at hspec with hstar
    · obtain rfl := some.inj hspec
      exact .inr ⟨fun hall => hall.1 hstar, .inl rfl⟩
    · exact known_or_unknown hnul hp hstar hspec
  unfold httpHdrContRangePackInto httpHdrRangeRespSpecPackInto
  rcases hcas with ⟨hpri, lastPos, hkno⟩ | ⟨hnot, hunk⟩
  · simp only [hpri, iff_true, if_neg (not_or.mpr ⟨hkno.offset_ne, hkno.length_ne⟩)]
    generalize htext : signedDecimal spec.offset ++ 45 :: signedDecimal (toOff (spec.offset + spec.length - 1)) = text
    generalize htail : (if elength = unknown then [42] else signedDecimal elength) = tail
    obtain ⟨htai, hele⟩ := @elength_packed spec _ _ hlow hmax htail.symm
    have htex : 0 ∉ text := by simp [← htext, nul_notMem_signedDecimal]
    have hsla : 47 ∉ text := by
      have hno := notMem_signedDecimal (c := 47) (by decide) (by decide)
      simp [← htext, hno]
    have hstar : (text ++ 47 :: tail).head? ≠ some 42 := by
      rw [← htext, append_assoc]
      exact head_signedDecimal _ _
    rw [httpHdrContRangeParseInit_cut htex htai hsla hstar, hkno.parseInit htai htext.symm,
      bind_some, hele]
  · -- the text begins with the star
    rw [if_pos hunk]
    simp only [hnot]
    have hb : (42 : UInt8) ≠ 'b'.toUInt8 := by decide
    simp [httpHdrContRangeParseInit, cString, bytesSpace, ascii, tolower, hb]

theorem contRange_packed_plain :
    httpHdrContRangeParseInit (httpHdrContRangePackInto ⟨⟨0, 10⟩, 100⟩) = some ⟨⟨0, 10⟩, 100⟩ ↔
      Printable ((cString (ascii ['b', 'y', 't', 'e', 's', ' ', '0', '-', '9', '/', '1', '0', '0'])).drop 6) :=
  contRange_packed_iff (by decide +kernel)

/-- An unsatisfied range is packed without its unit. -/
theorem contRange_unsatisfied :
    httpHdrContRangeParseInit (ascii ['b', 'y', 't', 'e', 's', ' ', '*', '/', '1', '0', '0']) =
      some ⟨⟨unknown, unknown⟩, 100⟩ ∧
    httpHdrContRangePackInto ⟨⟨unknown, unknown⟩, 100⟩ = ascii ['*', '/', '1', '0', '0'] ∧
    httpHdrContRangeParseInit (ascii ['*', '/', '1', '0', '0']) = none := by
  decide +kernel

end SquidVideoCache.Range
