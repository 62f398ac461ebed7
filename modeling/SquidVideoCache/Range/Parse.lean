import SquidVideoCache.Header.Model
import SquidVideoCache.Range.Pack

/-!
# The Range header of HttpHdrRange.c

`strListGetItem` cuts the value at its commas, and `httpHdrRangeSpecParseCreate` reads the
numbers of an item with `httpHeaderParseSize`. That function takes blanks and a sign as
`strtoll` does, and `-1` stands for an unknown number, so the signs decide whether
`httpHdrRangeCanonize` can make sense of what has been parsed.
-/

namespace SquidVideoCache.Range
open Lib List Option
open Header (httpHeaderParseSize)

/-- An item of a list: what begins with it and how many bytes of that belong to it. -/
structure Item where
  field : List UInt8
  len : ℕ
  deriving DecidableEq, Repr

/-- White space and commas, which stand between items. -/
def isBetween (c : UInt8) : Bool := c = 32 || c = 44 || c = 9 || c = 13 || c = 10

/-- The bytes before the next comma outside of quotes. -/
def itemLength : Bool → List UInt8 → ℕ
  | _, [] => 0
  | false, c :: s => if c = 44 then 0 else itemLength (c = 34) s + 1
  | true, 92 :: [] => 1
  | true, 92 :: _ :: s => itemLength true s + 2
  | true, c :: s => itemLength (c ≠ 34) s + 1

/-- The next item and what follows it, `del` is the comma. -/
def strListGetItem (pos : List UInt8) : Option (Item × List UInt8) :=
  let item := pos.dropWhile isBetween
  let n := itemLength false item
  let len := ((item.take n).rdropWhile isSpace).length
  if len > 0 then some (⟨item, len⟩, item.drop n) else none

/-- The items of at most so many rounds of `httpHdrRangeParseInit`. -/
def listItems : ℕ → List UInt8 → List Item
  | 0, _ => []
  | rounds + 1, pos =>
    match strListGetItem pos with
    | some (item, pos) => item :: listItems rounds pos
    | none => []

/-- An item has at least one byte, so the length of the list bounds the rounds. -/
def items (pos : List UInt8) : List Item := listItems (pos.length + 1) pos

/-- A length of zero makes no sense. -/
def sensible (spec : HttpHdrRangeSpec) : Option HttpHdrRangeSpec :=
  if spec.length ≠ unknown ∧ spec.length = 0 then none else some spec

def httpHdrRangeSpecParseCreate (item : Item) : Option HttpHdrRangeSpec :=
  if item.len < 2 then none
  else if item.field.head? = some 45 then
    (httpHeaderParseSize item.field.tail).bind fun length => sensible ⟨unknown, length⟩
  else
    match item.field.findIdx? (· = 45) with
    | none => none
    | some p =>
      (httpHeaderParseSize item.field).bind fun offset =>
        if p + 1 < item.len then
          (httpHeaderParseSize (item.field.drop (p + 1))).bind fun lastPos =>
            sensible ⟨offset, sizeDiff (toOff (lastPos + 1)) offset⟩
        else sensible ⟨offset, unknown⟩

def bytesUnit : List UInt8 := ascii ['b', 'y', 't', 'e', 's', '=']

/-- The specs of a header value that has any. -/
def httpHdrRangeParseCreate (str : List UInt8) : Option (List HttpHdrRangeSpec) :=
  let value := cString str
  if (value.take 6).map tolower = bytesUnit then
    let specs := (items (value.drop 6)).filterMap httpHdrRangeSpecParseCreate
    if specs = [] then none else some specs
  else none

/-! ## Items -/

variable {pos rest front s digits blanks : List UInt8} {item : Item} {rounds : ℕ} {c : UInt8} {n : ℤ}
  {spec : HttpHdrRangeSpec}

lemma strListGetItem_eq_some (h : strListGetItem pos = some (item, rest)) :
    item.field <:+ pos ∧ rest <:+ item.field ∧ rest.length < item.field.length ∧
      item.len = ((item.field.take (itemLength false item.field)).rdropWhile isSpace).length := by
  simp only [strListGetItem] at h
  split_ifs at h with hlen
  obtain ⟨rfl, rfl⟩ := h
  refine ⟨dropWhile_suffix _, drop_suffix _ _, ?_, rfl⟩
  have hle := (List.rdropWhile_prefix (p := isSpace)
    ((pos.dropWhile isBetween).take (itemLength false (pos.dropWhile isBetween)))).length_le
  rw [length_take] at hle
  change ((pos.dropWhile isBetween).drop _).length < (pos.dropWhile isBetween).length
  rw [length_drop]
  omega

lemma of_mem_listItems (h : item ∈ listItems rounds pos) : item.field <:+ pos ∧
      item.len = ((item.field.take (itemLength false item.field)).rdropWhile isSpace).length := by
  induction rounds generalizing pos with
  | zero => simp [listItems] at h
  | succ rounds ih =>
    rw [listItems] at h
    split at h
    · rename_i got rest hget
      obtain ⟨hfie, hrest, -, hlen⟩ := strListGetItem_eq_some hget
      rcases mem_cons.mp h with rfl | hmem
      · exact ⟨hfie, hlen⟩
      · obtain ⟨hsuf, hlen'⟩ := ih hmem
        exact ⟨hsuf.trans (hrest.trans hfie), hlen'⟩
    · simp at h

lemma le_itemLength (h : ∀ c ∈ front, c ≠ 34 ∧ c ≠ 44) : front.length ≤ itemLength false (front ++ rest) := by
  induction front with
  | nil => exact Nat.zero_le _
  | cons c front ih =>
    obtain ⟨⟨hquo, hcom⟩, hfro⟩ := forall_mem_cons.mp h
    rw [cons_append, itemLength, if_neg hcom, decide_eq_false hquo]
    exact Nat.succ_le_succ (ih hfro)

lemma suffix_dropWhile_append {p : UInt8 → Bool} (l tail : List UInt8) (h : p c = false) :
    c :: tail <:+ (l ++ c :: tail).dropWhile p := by
  induction l with
  | nil => simp [h]
  | cons d l ih =>
    rw [cons_append, dropWhile_cons]
    split_ifs
    · exact ih
    · exact (suffix_append l _).trans (suffix_cons d _)

/-- What has no quote and no comma and ends in a byte that is not blank belongs to the item. -/
theorem le_len_of_mem_listItems (h : item ∈ listItems rounds pos) (hfie : item.field = front ++ c :: rest)
    (hfro : ∀ c ∈ front, c ≠ 34 ∧ c ≠ 44) (hc : c ≠ 34 ∧ c ≠ 44) (hbla : isSpace c = false) :
    front.length + 1 ≤ item.len := by
  have hspl : item.field = (front ++ [c]) ++ rest := by simp [hfie]
  have hall : ∀ d ∈ front ++ [c], d ≠ 34 ∧ d ≠ 44 := by
    rw [forall_mem_append]
    exact ⟨hfro, by simpa using hc⟩
  have hle : (front ++ [c]).length ≤ itemLength false item.field := hspl ▸ le_itemLength hall
  obtain ⟨more, hmore⟩ : ∃ more, item.field.take (itemLength false item.field) = (front ++ [c]) ++ more := by
    refine ⟨rest.take (itemLength false item.field - (front ++ [c]).length), ?_⟩
    conv_lhs => rw [hspl, take_append]
    rw [← hspl, take_of_length_le hle]
  rw [(of_mem_listItems h).2, hmore]
  -- the blanks at the end are dropped at most up to the byte
  have hkept := (suffix_dropWhile_append more.reverse front.reverse hbla).length_le
  simpa [List.rdropWhile] using hkept

/-! ## Numbers below zero -/

lemma httpHeaderParseSize_negative (hs : 0 ∉ s) (h : httpHeaderParseSize s = some n) (hn : n < 0) :
    ∃ blanks digits rest, s = blanks ++ 45 :: (digits ++ rest) ∧ (∀ c ∈ blanks, isSpace c) ∧ digits ≠ [] ∧
      (∀ c ∈ digits, digitValue c < 10) ∧ (∀ c ∈ rest.head?, 10 ≤ digitValue c) ∧ n = -numeral 10 digits := by
  rw [httpHeaderParseSize, cString_of_nulFree hs] at h
  split_ifs at h with hfail
  obtain rfl := some.inj h
  obtain ⟨-, hran⟩ := not_or.mp hfail
  exact strtoll_negative hn (Bool.eq_false_of_not_eq_true hran)

lemma httpHeaderParseSize_bounds (h : httpHeaderParseSize s = some n) : -2 ^ 63 ≤ n ∧ n ≤ maxOff := by
  rw [httpHeaderParseSize] at h
  split_ifs at h
  obtain rfl := some.inj h
  exact strtoll_bounds _ _

lemma httpHeaderParseSize_digits (hnul : 0 ∉ digits ++ rest) (hne : digits ≠ [])
    (hdigits : ∀ c ∈ digits, digitValue c < 10) (hend : ∀ c ∈ rest.head?, 10 ≤ digitValue c) :
    httpHeaderParseSize (digits ++ rest) =
      if (numeral 10 digits : ℤ) ≤ maxOff then some (numeral 10 digits : ℤ) else none := by
  have hrun : strtoll 10 (digits ++ rest) = signed false (numeral 10 digits) (0 + digits.length) :=
    strtoll_run (by decide) (forall_mem_nil _) hne hdigits hend (hexMark_ten _)
  have hused : digits.length ≠ 0 := by simpa using hne
  rw [httpHeaderParseSize, cString_of_nulFree hnul, hrun, signed]
  by_cases hle : (numeral 10 digits : ℤ) ≤ maxOff
  · simp [hle, hused]
  · simp [hle]

lemma ne_quote_comma_of_space : ∀ c : UInt8, isSpace c → c ≠ 34 ∧ c ≠ 44 := forall_byte (by decide +kernel)

lemma ne_quote_comma_of_digit : ∀ c : UInt8, digitValue c < 10 → c ≠ 34 ∧ c ≠ 44 := forall_byte (by decide +kernel)

lemma ne_quote_comma_of_signed (hblanks : ∀ c ∈ blanks, isSpace c) : ∀ c ∈ blanks ++ [45], c ≠ 34 ∧ c ≠ 44 := by
  rw [forall_mem_append]
  exact ⟨fun c hc => ne_quote_comma_of_space c (hblanks c hc), by simp⟩

/-! ## Specs -/

/-- The spec that an item is parsed to is assigned a part of the body, or dropped. -/
def Sound (clen : ℤ) (spec : HttpHdrRangeSpec) : Prop :=
  ∃ res, httpHdrRangeSpecCanonize spec clen = .ok res ∧ (res.2 = true → Canonized clen res.1)

lemma sound_iff {clen : ℤ} {known : HttpHdrRangeSpec}
    (hkno : (if spec.offset = unknown then { spec with offset := sizeDiff clen spec.length }
      else if spec.length = unknown then { spec with length := sizeDiff clen spec.offset } else spec) = known) :
    Sound clen spec ↔ known.length ≠ unknown ∧ known.offset ≠ unknown ∧
      (0 ≤ known.offset ∨ sizeMin (sizeDiff clen known.offset) known.length ≤ 0) := by
  constructor
  · rintro ⟨⟨good, b⟩, hok, hgood⟩
    unfold httpHdrRangeSpecCanonize at hok
    rw [hkno] at hok
    obtain ⟨_, hlength, hok⟩ := bind_eq_ok.mp hok
    obtain ⟨_, hoffset, hok⟩ := bind_eq_ok.mp hok
    refine ⟨cAssert_eq_ok.mp hlength, cAssert_eq_ok.mp hoffset, ?_⟩
    obtain ⟨rfl, rfl⟩ := Prod.mk.inj (Except.ok.inj hok)
    by_contra! hbad
    exact absurd (hgood (decide_eq_true hbad.2)).offset_nonneg hbad.1.not_ge
  · rintro ⟨hlength, hoffset, hor⟩
    have hok : httpHdrRangeSpecCanonize spec clen =
        .ok ({ known with length := sizeMin (sizeDiff clen known.offset) known.length },
          decide (sizeMin (sizeDiff clen known.offset) known.length > 0)) := by
      unfold httpHdrRangeSpecCanonize
      rw [hkno]
      dsimp only
      rw [cAssert_pos hlength, cAssert_pos hoffset]
      rfl
    refine ⟨_, hok, fun hgood => ?_⟩
    rcases hor with hoff | hle
    · have hpos : decide (sizeMin (sizeDiff clen known.offset) known.length > 0) = true := hgood
      rw [hpos] at hok
      exact (canonized_of_httpHdrRangeSpecCanonize hok).2 hoff
    · exact absurd (of_decide_eq_true hgood) hle.not_gt

lemma canonize_iff {clen : ℤ} {specs : List HttpHdrRangeSpec} :
    (∃ goods, httpHdrRangeCanonize clen specs = .ok goods ∧ ∀ spec ∈ goods, Canonized clen spec) ↔
      ∀ spec ∈ specs, Sound clen spec := by
  induction specs with
  | nil => simp [httpHdrRangeCanonize]
  | cons spec specs ih =>
    rw [forall_mem_cons, ← ih]
    constructor
    · rintro ⟨goods, hok, hgoo⟩
      rw [httpHdrRangeCanonize, bind_eq_ok] at hok
      obtain ⟨res, hres, hok⟩ := hok
      obtain ⟨rest, hrest, hok⟩ := bind_eq_ok.mp hok
      obtain rfl := Except.ok.inj hok
      split_ifs at hgoo with hgood
      · obtain ⟨hspec, hgoo⟩ := forall_mem_cons.mp hgoo
        exact ⟨⟨res, hres, fun _ => hspec⟩, rest, hrest, hgoo⟩
      · exact ⟨⟨res, hres, fun h => absurd h hgood⟩, rest, hrest, hgoo⟩
    · rintro ⟨⟨res, hres, hspec⟩, rest, hrest, hgoo⟩
      refine ⟨if res.2 then res.1 :: rest else rest, ?_, ?_⟩
      · simp [httpHdrRangeCanonize, hres, hrest]
      · split_ifs with hgood
        · exact forall_mem_cons.mpr ⟨hspec hgood, hgoo⟩
        · exact hgoo

/-! ## The specs of an item -/

lemma sizeMin_le_right (a b : ℤ) : sizeMin a b ≤ b := by
  unfold sizeMin
  split_ifs <;> omega

lemma sizeDiff_nonneg {a b : ℤ} (hb : 0 ≤ b) (ha : a ≤ maxOff) : 0 ≤ sizeDiff a b := by
  unfold sizeDiff
  split_ifs with hle
  · rw [toOff_of_le (by omega) (by omega)]
    omega
  · exact le_rfl

variable {clen : ℤ}

lemma sizeDiff_of_lt_zero (hclen : 0 ≤ clen) (hmax : clen ≤ maxOff) (hlow : -2 ^ 63 ≤ n) (hn : n < 0) :
    sizeDiff clen n = if clen - n ≤ maxOff then clen - n else clen - n - 2 ^ 64 := by
  rw [sizeDiff, if_pos (by omega)]
  split_ifs with hfits
  · exact toOff_of_le (by omega) hfits
  · exact toOff_of_gt (not_le.mp hfits) (by unfold maxOff at *; omega)

lemma sound_suffix (hclen : 0 ≤ clen) (hmax : clen ≤ maxOff) (hlow : -2 ^ 63 ≤ n) :
    Sound clen ⟨unknown, n⟩ ↔ ¬(n = -1 ∨ n = -2 ^ 63 ∧ clen = maxOff) := by
  rw [sound_iff (if_pos rfl)]
  simp only [unknown]
  by_cases hn : 0 ≤ n
  · have hoff := sizeDiff_nonneg hn hmax
    exact ⟨fun _ => by omega, fun _ => ⟨by omega, by omega, .inl hoff⟩⟩
  · have hle : sizeMin (sizeDiff clen (sizeDiff clen n)) n ≤ 0 := (sizeMin_le_right _ _).trans (by omega)
    have hoff : sizeDiff clen n = -1 ↔ n = -2 ^ 63 ∧ clen = maxOff := by
      rw [sizeDiff_of_lt_zero hclen hmax hlow (not_le.mp hn)]
      unfold maxOff at *
      omega
    rw [not_or, ← hoff]
    exact ⟨fun h => ⟨h.1, h.2.1⟩, fun h => ⟨h.1, h.2, .inr hle⟩⟩

lemma sound_of_offset_nonneg (hmax : clen ≤ maxOff) (hoff : 0 ≤ spec.offset) : Sound clen spec := by
  have hkno : spec.offset ≠ unknown := by
    unfold unknown
    omega
  rcases eq_or_ne spec.length unknown with hunk | hlength
  · rw [sound_iff ((if_neg hkno).trans (if_pos hunk))]
    have hdiff := sizeDiff_nonneg hoff hmax
    refine ⟨?_, hkno, .inl hoff⟩
    change sizeDiff clen spec.offset ≠ -1
    omega
  · rw [sound_iff ((if_neg hkno).trans (if_neg hlength))]
    exact ⟨hlength, hkno, .inl hoff⟩

lemma sound_iff_of_offset_neg (hclen : 0 ≤ clen) (hmax : clen ≤ maxOff) {len : ℤ} (hlow : -2 ^ 63 ≤ n) (hn : n < -1) (hlen : len ≠ unknown) :
    Sound clen ⟨n, len⟩ ↔ ¬(0 < len ∧ clen - n ≤ maxOff) := by
  have hkno : n ≠ unknown := by
    unfold unknown
    omega
  have hpos : 0 < sizeDiff clen n ↔ clen - n ≤ maxOff := by
    rw [sizeDiff_of_lt_zero hclen hmax hlow (by omega)]
    unfold maxOff at *
    omega
  rw [sound_iff ((if_neg hkno).trans (if_neg hlen))]
  dsimp only
  unfold sizeMin
  constructor
  · rintro ⟨-, -, hoff | hle⟩
    · omega
    · split_ifs at hle <;> omega
  · intro h
    refine ⟨hlen, hkno, .inr ?_⟩
    split_ifs <;> omega

/-- A minus sign that the parser takes for a part of a number: before the length of a suffix it makes the unknown
length, and after blanks it makes the first byte negative. The bounds are those of a `squid_off_t`. -/
def Misread (clen : ℤ) (item : Item) : Prop :=
  if item.field.head? = some 45 then
    ∃ n ∈ httpHeaderParseSize item.field.tail, n = -1 ∨ n = -2 ^ 63 ∧ clen = maxOff
  else ∃ n ∈ httpHeaderParseSize item.field, (-2 ^ 62 < n ∧ n < -1) ∧ clen - n ≤ maxOff

lemma sensible_of_ne (h : spec.length ≠ 0) : sensible spec = some spec := if_neg fun hzero => h hzero.2

lemma sensible_eq_some {res : HttpHdrRangeSpec} (h : sensible spec = some res) : spec = res ∧ spec.length ≠ 0 := by
  unfold sensible at h
  split_ifs at h with hzero
  refine ⟨some.inj h, fun hlen => hzero ⟨?_, hlen⟩⟩
  rw [hlen]
  decide

lemma lt_len_of_negative (hitem : item ∈ items pos)
    (hfie : item.field = front ++ (digits ++ rest)) (hfro : ∀ c ∈ front, c ≠ 34 ∧ c ≠ 44) (hne : digits ≠ [])
    (hdigits : ∀ c ∈ digits, digitValue c < 10) : front.length < item.len := by
  obtain ⟨d, ds, rfl⟩ := exists_cons_of_ne_nil hne
  have hd : digitValue d < 10 := hdigits d mem_cons_self
  exact le_len_of_mem_listItems hitem hfie hfro (ne_quote_comma_of_digit d hd) (not_isSpace_of_digit (by omega))

lemma findIdx_dash (hblanks : ∀ c ∈ blanks, isSpace c) :
    (blanks ++ 45 :: rest).findIdx? (· = 45) = some blanks.length := by
  have hnone : blanks.findIdx? (· = 45) = none := by
    rw [findIdx?_eq_none_iff]
    intro c hc
    have hspa := hblanks c hc
    by_contra hdash
    simp only [decide_eq_false_iff_not, not_not] at hdash
    rw [hdash] at hspa
    exact absurd hspa (by decide)
  simp [hnone, findIdx?_cons]

/-- After blanks the minus sign of the first number is also the dash of the range. -/
theorem httpHdrRangeSpecParseCreate_of_neg (hpos : 0 ∉ pos) (hitem : item ∈ items pos)
    (hhead : item.field.head? ≠ some 45) (hn : httpHeaderParseSize item.field = some n) (hneg : n < 0) :
    httpHdrRangeSpecParseCreate item = if -n ≤ maxOff then sensible ⟨n, sizeDiff (toOff (-n + 1)) n⟩ else none := by
  have hnul : 0 ∉ item.field := fun h => hpos ((of_mem_listItems hitem).1.subset h)
  obtain ⟨blanks, digits, rest, hfie, hblanks, hne, hdigits, hend, rfl⟩ := httpHeaderParseSize_negative hnul hn hneg
  have hfie' : item.field = (blanks ++ [45]) ++ (digits ++ rest) := by simp [hfie]
  have hlen : blanks.length + 1 < item.len := by
    have hlt := lt_len_of_negative hitem hfie' (ne_quote_comma_of_signed hblanks) hne hdigits
    simpa using hlt
  have hdash : item.field.findIdx? (· = 45) = some blanks.length := hfie ▸ findIdx_dash hblanks
  have hdrop : item.field.drop (blanks.length + 1) = digits ++ rest := by
    rw [hfie', drop_left' (by simp)]
  have hnul' : 0 ∉ digits ++ rest := fun h => hnul (hfie' ▸ mem_append_right _ h)
  unfold httpHdrRangeSpecParseCreate
  rw [if_neg (by omega), if_neg hhead, hdash]
  dsimp only
  rw [hn, bind_some, hdrop, httpHeaderParseSize_digits hnul' hne hdigits hend, neg_neg]
  split_ifs
  · exact bind_some _ _
  · exact bind_none _

lemma sizeDiff_of_neg (hfits : -n ≤ maxOff) (hneg : n < 0) (hne : sizeDiff (toOff (-n + 1)) n ≠ 0) :
    sizeDiff (toOff (-n + 1)) n ≠ unknown ∧ (0 < sizeDiff (toOff (-n + 1)) n ↔ -2 ^ 62 < n) := by
  rcases le_or_gt (-n + 1) maxOff with hle | hgt
  · rw [toOff_of_le (by omega) hle, sizeDiff]
    rcases le_or_gt (-n + 1 - n) maxOff with hle' | hgt'
    · rw [toOff_of_le (by omega) hle']
      unfold unknown maxOff at *
      omega
    · unfold unknown maxOff at *
      rw [toOff_of_gt hgt' (by omega)]
      omega
  · have hwra : toOff (-n + 1) < n := by
      unfold maxOff at *
      rw [toOff_of_gt hgt (by omega)]
      omega
    exact absurd (if_neg hwra.not_ge) hne

lemma sound_iff_not_misread (hclen : 0 ≤ clen) (hmax : clen ≤ maxOff) (hpos : 0 ∉ pos)
    (hitem : item ∈ items pos) (hpar : httpHdrRangeSpecParseCreate item = some spec) :
    Sound clen spec ↔ ¬Misread clen item := by
  unfold Misread
  by_cases hhead : item.field.head? = some 45
  · -- the suffix has the length that is read after the dash
    have hread := hpar
    unfold httpHdrRangeSpecParseCreate at hread
    split_ifs at hread with hlen
    obtain ⟨n, hn, hsen⟩ := bind_eq_some_iff.mp hread
    obtain ⟨rfl, -⟩ := sensible_eq_some hsen
    rw [if_pos hhead, sound_suffix hclen hmax (httpHeaderParseSize_bounds hn).1]
    simp [hn]
  · have hread := hpar
    unfold httpHdrRangeSpecParseCreate at hread
    split_ifs at hread with hlen
    split at hread
    · exact absurd hread.symm (some_ne_none spec)
    obtain ⟨n, hn, hrest⟩ := bind_eq_some_iff.mp hread
    simp only [if_neg hhead, hn, mem_some_iff, exists_eq_left']
    rcases lt_or_ge n 0 with hneg | hnn
    · rw [httpHdrRangeSpecParseCreate_of_neg hpos hitem hhead hn hneg] at hpar
      split_ifs at hpar with hfits
      obtain ⟨rfl, hne⟩ := sensible_eq_some hpar
      obtain ⟨hkno, hlength⟩ := sizeDiff_of_neg hfits hneg hne
      obtain ⟨hlow, -⟩ := httpHeaderParseSize_bounds hn
      rcases eq_or_ne n (-1) with rfl | hn1
      · -- the unknown first byte: a suffix of three bytes
        have hsou := (sound_suffix hclen hmax (n := sizeDiff (toOff (- -1 + 1)) (-1)) (by omega)).mpr (by omega)
        exact ⟨fun _ h => absurd h.1.2 (lt_irrefl _), fun _ => hsou⟩
      · rw [sound_iff_of_offset_neg hclen hmax hlow (by omega) hkno, hlength]
        have hlt : n < -1 := by omega
        simp [hlt]
    · have hsou : Sound clen spec := by
        apply sound_of_offset_nonneg hmax
        split_ifs at hrest
        · obtain ⟨lastPos, -, hsen⟩ := bind_eq_some_iff.mp hrest
          obtain ⟨rfl, -⟩ := sensible_eq_some hsen
          exact hnn
        · obtain ⟨rfl, -⟩ := sensible_eq_some hrest
          exact hnn
      exact ⟨fun _ => by omega, fun _ => hsou⟩

lemma isSome_of_misread (hpos : 0 ∉ pos) (hitem : item ∈ items pos)
    (h : Misread clen item) : (httpHdrRangeSpecParseCreate item).isSome := by
  have hnul : 0 ∉ item.field := fun h => hpos ((of_mem_listItems hitem).1.subset h)
  unfold Misread at h
  split_ifs at h with hhead
  · obtain ⟨n, hn, hbad⟩ := h
    obtain ⟨tail, htail⟩ : ∃ tail, item.field = 45 :: tail := head?_eq_some_iff.mp hhead
    rw [htail, tail_cons] at hn
    have hnul' : 0 ∉ tail := fun h => hnul (htail ▸ mem_cons_of_mem _ h)
    obtain ⟨blanks, digits, rest, hfie, hblanks, hne, hdigits, -, -⟩ :=
      httpHeaderParseSize_negative hnul' hn (by omega)
    have hfie' : item.field = (45 :: (blanks ++ [45])) ++ (digits ++ rest) := by simp [htail, hfie]
    have hlen := lt_len_of_negative hitem hfie'
      (forall_mem_cons.mpr ⟨by decide, ne_quote_comma_of_signed hblanks⟩) hne hdigits
    unfold httpHdrRangeSpecParseCreate
    rw [if_neg (by simp at hlen; omega), htail, tail_cons, hn, bind_some,
      sensible_of_ne (by dsimp only; omega)]
    rfl
  · obtain ⟨n, hn, ⟨hlow, hneg⟩, -⟩ := h
    have hfits : -n + 1 ≤ maxOff := by
      unfold maxOff
      omega
    have hlength : sizeDiff (toOff (-n + 1)) n ≠ 0 := by
      rw [toOff_of_le (by omega) hfits, sizeDiff, toOff_of_le (by omega) (by unfold maxOff; omega)]
      omega
    rw [httpHdrRangeSpecParseCreate_of_neg hpos hitem hhead hn (by omega), if_pos (by omega), sensible_of_ne hlength]
    rfl

/-- A Range header is answered by parts of the body, whatever its length, unless a sign of an item is misread. -/
theorem canonize_parsed_iff {str : List UInt8} {specs : List HttpHdrRangeSpec} {clen : ℤ}
    (hparse : httpHdrRangeParseCreate str = some specs) (hclen : 0 ≤ clen) (hmax : clen ≤ maxOff) :
    (∃ goods, httpHdrRangeCanonize clen specs = .ok goods ∧ ∀ spec ∈ goods, Canonized clen spec) ↔
      ∀ item ∈ items ((cString str).drop 6), ¬Misread clen item := by
  have hnul : 0 ∉ (cString str).drop 6 := fun h => cString_nulFree str (mem_of_mem_drop h)
  rw [canonize_iff]
  unfold httpHdrRangeParseCreate at hparse
  dsimp only at hparse
  split_ifs at hparse
  obtain rfl := some.inj hparse
  simp only [mem_filterMap]
  constructor
  · intro h item hitem hbad
    obtain ⟨spec, hspec⟩ := isSome_iff_exists.mp (isSome_of_misread hnul hitem hbad)
    exact (sound_iff_not_misread hclen hmax hnul hitem hspec).mp (h spec ⟨item, hitem, hspec⟩) hbad
  · rintro h spec ⟨item, hitem, hspec⟩
    exact (sound_iff_not_misread hclen hmax hnul hitem hspec).mpr (h item hitem)

theorem canonize_parsed_iff_list :
    (∃ goods, httpHdrRangeCanonize 100 [⟨0, 5⟩, ⟨-1, 7⟩] = .ok goods ∧ ∀ spec ∈ goods, Canonized 100 spec) ↔
      ∀ item ∈ items ((cString (ascii ['b', 'y', 't', 'e', 's', '=', '0', '-', '4', ',', ' ', '-', '7'])).drop 6),
        ¬Misread 100 item :=
  canonize_parsed_iff (by decide +kernel) (by decide) (by decide)

/-- The length of a suffix after a second minus sign is the unknown one. -/
theorem canonize_doubled_dash :
    httpHdrRangeParseCreate (ascii ['b', 'y', 't', 'e', 's', '=', '-', '-', '1']) = some [⟨unknown, unknown⟩] ∧
      httpHdrRangeCanonize 100 [⟨unknown, unknown⟩] = .error .assertion := by
  decide +kernel

end SquidVideoCache.Range
