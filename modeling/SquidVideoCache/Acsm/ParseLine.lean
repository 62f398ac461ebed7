import SquidVideoCache.Acsm.Search
import SquidVideoCache.Lib.Text
import SquidVideoCache.Lib.Lines

/-!
# Reading a keyword file, acsm_parse_line

`fgets` stores each line over the one before in one buffer. The loop that looks for the blank behind
the key has a condition that always holds, so it runs over the end of a line without a blank, into
what is left of earlier lines; and the pointer to the number keeps its value when a line has no
number.
-/

namespace SquidVideoCache.Acsm
open Lib List

/-- `LEN`, the size of `line` and `keychar`. -/
def lineLen : ℕ := 1024

def maxPatternLen : ℕ := 257

/-! ## Lines of a file -/

/-- The strings that calls of `fgets(line, LEN, kwFp)` store, when `got` was read already. -/
def fgets : List UInt8 → List UInt8 → List (List UInt8)
  | got, [] => if got = [] then [] else [got]
  | got, c :: input =>
    if c = newline ∨ got.length + 2 = lineLen then (got ++ [c]) :: fgets [] input else fgets (got ++ [c]) input

/-- The buffer, and the pointer to the number if it was ever set. -/
structure Scanner where
  line : List UInt8
  k : Option ℕ

/-- `memset(line, 0, sizeof(line))`. -/
def Scanner.init : Scanner := ⟨List.replicate lineLen 0, none⟩

def Scanner.store (st : Scanner) (s : List UInt8) : List UInt8 := s ++ 0 :: st.line.drop (s.length + 1)

/-! ## The scanner -/

def isBlank (c : UInt8) : Bool := c = 32 || c = 9

/-- `*q-'0'>=0 && *q-'0'<=9`. -/
def isNumber (c : UInt8) : Bool := 48 ≤ c && c ≤ 57

def isEnd (c : UInt8) : Bool := c = 32 || c = 9 || c = 10 || c = 13

/-- The first loop: its condition `*p != '\0' || *p != '\n' || *p == '\r'` always holds. -/
def scanBlank (line : List UInt8) : Exec ℕ :=
  match line.findIdx? isBlank with
  | some p => .ok p
  | none => .error .bounds

/-- The second loop, over the bytes from `q` on: where it stops, and whether a digit is there. -/
def scanDigit : List UInt8 → ℕ → Exec (ℕ × Bool)
  | [], _ => .error .bounds
  | c :: rest, q => if c = 0 then .ok (q, false) else if isNumber c then .ok (q, true) else scanDigit rest (q + 1)

/-- The third loop: where the number ends, or nothing for a grammar error. -/
def scanNumber : List UInt8 → ℕ → Exec (Option ℕ)
  | [], _ => .error .bounds
  | c :: rest, q =>
    if c = 0 then .ok (some q)
    else if isEnd c then .ok (some q)
    else if isNumber c then scanNumber rest (q + 1)
    else .ok none

/-- `siteflag`, an array of three bytes. -/
def copyFlag (line : List UInt8) (k q : ℕ) : Exec (List UInt8) :=
  if (q : ℤ) - k ≤ 3 then strncpy [0, 0, 0] (cString (line.drop k)) (q - k) else .ok [0, 0, 0]

def numberPart (s : List UInt8) : List UInt8 := (s.dropWhile isSpace).drop (sign (s.dropWhile isSpace)).1

/-- `atoi(siteflag)`, which reads on until a byte that is not a digit. -/
def atoiFlag (siteflag : List UInt8) : Exec ℤ :=
  if (numberPart siteflag).all isNumber then .error .bounds else .ok (atoi siteflag)

/-- The number from `k` to `q`. -/
def readFlag (line : List UInt8) (k q : ℕ) : Exec ℤ := copyFlag line k q >>= atoiFlag

inductive LineResult where
  /-- nothing is added -/
  | skip
  /-- the function returns -/
  | stop
  | add (key : List UInt8) (flag : ℤ)
  deriving DecidableEq, Repr

/-- The key of a line with its number. -/
def addKey (line keychar : List UInt8) (q : ℕ) : Option ℕ → Exec (LineResult × Option ℕ)
  | none => .error .bounds
  | some k => do
    let flag ← readFlag line k q
    let n ← strlen keychar
    pure (.add (keychar.take n) flag, some k)

def endKey (line keychar : List UInt8) (k : Option ℕ) : Option ℕ → Exec (LineResult × Option ℕ)
  | none => .ok (.stop, k)
  | some q => addKey line keychar q k

/-- The body of the loop that is not skipped. -/
def scanLine (line : List UInt8) (k : Option ℕ) : Exec (LineResult × Option ℕ) := do
  let p ← scanBlank line
  let keychar ← strncpy (List.replicate lineLen 0) (cString line) p
  let d ← scanDigit (line.drop (p + 1)) (p + 1)
  let q ← scanNumber (line.drop d.1) d.1
  endKey line keychar (if d.2 then some d.1 else k) q

def parseLine (line : List UInt8) (k : Option ℕ) : Exec (LineResult × Option ℕ) := do
  let n ← strlen line
  if maxPatternLen ≤ n then pure (.skip, k)
  else do
    let c ← load line 0
    if c = 0 ∨ c = 35 then pure (.skip, k) else scanLine line k

/-- The results of the lines, up to one that ends the function. -/
def parseLines : Scanner → List (List UInt8) → Exec (List LineResult)
  | _, [] => .ok []
  | st, s :: lines => do
    let r ← parseLine (st.store s) st.k
    match r.1 with
    | .stop => pure [.stop]
    | r' => do
      let rest ← parseLines ⟨st.store s, r.2⟩ lines
      pure (r' :: rest)

def addResult (acsm : AcsmStruct) : LineResult → AcsmStruct
  | .skip => acsm
  | .stop => acsm
  | .add key flag => acsmAddPattern acsm key (UInt32.ofInt flag)

/-- The list of patterns is not read while it is built, so the patterns are added at the end here. -/
def acsmParseLine (file : List UInt8) (acsm : AcsmStruct) : Exec AcsmStruct := do
  let results ← parseLines .init (fgets [] file)
  pure (results.foldl addResult acsm)

/-! ## A line on its own -/

variable {s stale u : List UInt8} {k : Option ℕ}

lemma cString_append_zero (s stale : List UInt8) : cString (s ++ 0 :: stale) = cString s := by
  induction s with
  | nil => simp [cString]
  | cons c s ih =>
    by_cases hc : c = 0
    · simp [cString, hc]
    · rw [cons_append, cString, takeWhile_cons_of_pos (by simpa using hc), cString,
        takeWhile_cons_of_pos (by simpa using hc)]
      exact congrArg _ ih

def behindBlank (s : List UInt8) : List UInt8 := cString (s.drop (s.findIdx isBlank + 1))

def fromDigit (s : List UInt8) : List UInt8 := (behindBlank s).dropWhile fun c => !isNumber c

def digitsOf (s : List UInt8) : List UInt8 := (fromDigit s).takeWhile isNumber

/-- The digits are followed by something else than a blank or the end of the line. -/
def refused (s : List UInt8) : Bool := ((fromDigit s).dropWhile isNumber).head?.any fun c => !isEnd c

/-- The line is too long, or empty, or a comment. -/
def Skipped (s : List UInt8) : Prop := maxPatternLen ≤ (cString s).length ∨ s.head? = some 0 ∨ s.head? = some 35

instance (s : List UInt8) : Decidable (Skipped s) := inferInstanceAs (Decidable (_ ∨ _))

def lineResult (s : List UInt8) : LineResult :=
  if Skipped s then .skip
  else if refused s then .stop
  else .add ((cString s).take (s.findIdx isBlank)) (if (digitsOf s).length ≤ 3 then numeral 10 (digitsOf s) else 0)

/-- A blank, a number behind it, and room for the number with its terminator. -/
structure Complete (s : List UInt8) : Prop where
  blank : ∃ c ∈ s, isBlank c = true
  number : fromDigit s ≠ []
  room : refused s = false → (digitsOf s).length ≠ 3

def SelfContained (s : List UInt8) : Prop := Skipped s ∨ Complete s

/-! ## The loops -/

lemma exists_append_cString (v stale : List UInt8) : ∃ t, v ++ 0 :: stale = cString v ++ 0 :: t := by
  induction v with
  | nil => exact ⟨stale, rfl⟩
  | cons c v ih =>
    by_cases hc : c = 0
    · exact ⟨v ++ 0 :: stale, by simp [cString, hc]⟩
    · obtain ⟨t, ht⟩ := ih
      refine ⟨t, ?_⟩
      have hcons : cString (c :: v) = c :: cString v := takeWhile_cons_of_pos (by simpa using hc)
      rw [hcons, cons_append, ht, cons_append]

lemma scanBlank_eq (h : ∃ c ∈ s, isBlank c = true) (t : List UInt8) : scanBlank (s ++ t) = .ok (s.findIdx isBlank) := by
  have hfind : (s ++ t).findIdx? isBlank = some (s.findIdx isBlank) := by
    rw [findIdx?_append, findIdx?_eq_some_of_exists h]
    rfl
  rw [scanBlank, hfind]

lemma scanDigit_eq (hu : 0 ∉ u) (t : List UInt8) (q : ℕ) : scanDigit (u ++ 0 :: t) q =
    .ok (q + (u.takeWhile fun c => !isNumber c).length, decide (u.dropWhile (fun c => !isNumber c) ≠ [])) := by
  induction u generalizing q with
  | nil => simp [scanDigit]
  | cons c u ih =>
    rw [mem_cons, not_or] at hu
    rw [cons_append, scanDigit, if_neg (Ne.symm hu.1)]
    by_cases hc : isNumber c = true
    · rw [if_pos hc, takeWhile_cons_of_neg (by simp [hc]), dropWhile_cons_of_neg (by simp [hc])]
      simp
    · rw [if_neg hc, ih hu.2, takeWhile_cons_of_pos (by simp [hc]), dropWhile_cons_of_pos (by simp [hc]),
        length_cons, Nat.add_assoc, Nat.add_comm 1]

lemma not_isEnd_of_isNumber {c : UInt8} (h : isNumber c = true) : isEnd c = false := by
  have hall : ∀ c, isNumber c = true → isEnd c = false := forall_byte (by decide +kernel)
  exact hall c h

lemma scanNumber_eq (hu : 0 ∉ u) (t : List UInt8) (q : ℕ) : scanNumber (u ++ 0 :: t) q =
    .ok (if (u.dropWhile isNumber).head?.any fun c => !isEnd c then none else some (q + (u.takeWhile isNumber).length)) := by
  induction u generalizing q with
  | nil => simp [scanNumber]
  | cons c u ih =>
    rw [mem_cons, not_or] at hu
    rw [cons_append, scanNumber, if_neg (Ne.symm hu.1)]
    by_cases hc : isNumber c = true
    · rw [not_isEnd_of_isNumber hc, if_neg (by simp), if_pos hc, ih hu.2, takeWhile_cons_of_pos hc,
        dropWhile_cons_of_pos hc, length_cons, Nat.add_assoc, Nat.add_comm 1]
    · rw [takeWhile_cons_of_neg hc, dropWhile_cons_of_neg hc]
      by_cases hend : isEnd c = true
      · simp [hend]
      · simp [hend, hc]

/-! ## The number and the key -/

lemma digitValue_of_isNumber {c : UInt8} (h : isNumber c = true) : digitValue c < 10 := by
  have hall : ∀ c, isNumber c = true → digitValue c < 10 := forall_byte (by decide +kernel)
  exact hall c h

variable {digits rest : List UInt8}

lemma numberPart_digits (hne : digits ≠ []) (hdigits : ∀ c ∈ digits, isNumber c = true) (rest : List UInt8) :
    numberPart (digits ++ rest) = digits ++ rest := by
  obtain ⟨d, ds, rfl⟩ := exists_cons_of_ne_nil hne
  have hd : digitValue d < 36 := (digitValue_of_isNumber (hdigits d mem_cons_self)).trans (by decide)
  have hspa : (d :: ds ++ rest).dropWhile isSpace = d :: ds ++ rest :=
    dropWhile_cons_of_neg (by simp [not_isSpace_of_digit hd])
  rw [numberPart, hspa, cons_append, sign_of_digit hd]
  rfl

lemma numeral_lt (hdigits : ∀ c ∈ digits, isNumber c = true) : numeral 10 digits < 10 ^ digits.length := by
  induction digits using List.reverseRecOn with
  | nil => simp [numeral]
  | append_singleton ds d ih =>
    have hd : digitValue d < 10 := digitValue_of_isNumber (hdigits d (by simp))
    have hds := ih fun c hc => hdigits c (by simp [hc])
    rw [numeral_append, length_append, length_singleton]
    omega

lemma atoi_digits (hne : digits ≠ []) (hdigits : ∀ c ∈ digits, isNumber c = true) (hlen : digits.length ≤ 3)
    (rest : List UInt8) : atoi (digits ++ 0 :: rest) = numeral 10 digits := by
  have hbou : numeral 10 digits < 1000 :=
    (numeral_lt hdigits).trans_le (Nat.pow_le_pow_right (by decide) hlen)
  exact atoi_numeral hne (fun c hc => digitValue_of_isNumber (hdigits c hc)) (by simp [cString]) (by omega)

/-- `siteflag` holds three bytes, so a number of three digits has no terminator in it. -/
theorem readFlag_eq {line : List UInt8} {k : ℕ} (hline : cString (line.drop k) = digits ++ rest) (hne : digits ≠ [])
    (hdigits : ∀ c ∈ digits, isNumber c = true) : readFlag line k (k + digits.length) =
      if digits.length = 3 then .error .bounds else .ok (if digits.length ≤ 3 then (numeral 10 digits : ℤ) else 0) := by
  have hlen : ((k + digits.length : ℕ) : ℤ) - k = digits.length := by omega
  unfold readFlag copyFlag
  rw [hlen, hline]
  by_cases hsho : digits.length ≤ 3
  · have hcopy : strncpy [0, 0, 0] (digits ++ rest) digits.length = .ok (digits ++ [0, 0, 0].drop digits.length) := by
      rw [strncpy_natCast (by simp) hsho, take_left]
    rw [if_pos (by omega), hcopy, ok_bind, atoiFlag, numberPart_digits hne hdigits]
    by_cases hthr : digits.length = 3
    · rw [hthr]
      exact if_pos (by simpa using hdigits)
    · have hzer : ∀ n < 3, [0, 0, 0].drop n = (0 : UInt8) :: [0, 0, 0].drop (n + 1) := by decide
      have hzero := hzer digits.length (by omega)
      rw [if_neg hthr, if_pos hsho, hzero, if_neg (by simp [isNumber]), atoi_digits hne hdigits hsho]
  · rw [if_neg (by omega), if_neg (by omega), if_neg hsho]
    rfl

lemma key_eq (line : List UInt8) {p : ℕ} (hp : p < lineLen) : ∃ keychar n,
    strncpy (List.replicate lineLen 0) (cString line) p = .ok keychar ∧ strlen keychar = .ok n ∧
      keychar.take n = (cString line).take p := by
  have hnul : 0 ∉ (cString line).take p := fun h => cString_nulFree line (mem_of_mem_take h)
  obtain ⟨m, hm⟩ : ∃ m, p - (cString line).length + (lineLen - p) = m + 1 := ⟨p - (cString line).length + (lineLen - p) - 1, by omega⟩
  have hcopy : strncpy (List.replicate lineLen 0) (cString line) p = .ok ((cString line).take p ++ 0 :: List.replicate m 0) := by
    rw [strncpy, if_pos (by rw [length_replicate]; omega), Int.toNat_natCast, append_assoc, drop_replicate,
      replicate_append_replicate, hm, replicate_succ]
  exact ⟨_, _, hcopy, strlen_append_nul hnul _, take_left⟩

/-! ## One line -/

lemma fromDigit_eq (s : List UInt8) : behindBlank s = (behindBlank s).takeWhile (fun c => !isNumber c) ++ fromDigit s :=
  takeWhile_append_dropWhile.symm

lemma exists_drop_behindBlank (hbla : ∃ c ∈ s, isBlank c = true) (stale : List UInt8) :
    ∃ t, (s ++ 0 :: stale).drop (s.findIdx isBlank + 1) = behindBlank s ++ 0 :: t := by
  have hlt : s.findIdx isBlank < s.length := findIdx_lt_length.2 hbla
  obtain ⟨t, ht⟩ := exists_append_cString _ stale
  exact ⟨t, (drop_append_of_le_length hlt).trans ht⟩

lemma nul_notMem_fromDigit (s : List UInt8) : 0 ∉ fromDigit s :=
  fun h => cString_nulFree _ ((dropWhile_sublist _).subset h)

lemma digitsOf_ne_nil (h : fromDigit s ≠ []) : digitsOf s ≠ [] := by
  obtain ⟨d, ds, hds⟩ := exists_cons_of_ne_nil h
  have hd : isNumber d = true := by
    have hhead := head?_dropWhile_not (fun c => !isNumber c) (behindBlank s)
    rw [← fromDigit, hds] at hhead
    simpa using hhead
  rw [digitsOf, hds, takeWhile_cons_of_pos hd]
  simp

lemma scanLine_eq (hbla : ∃ c ∈ s, isBlank c = true) (hnumb : fromDigit s ≠ []) (hlen : s.length < lineLen)
    (stale : List UInt8) (k : Option ℕ) : ∃ k', scanLine (s ++ 0 :: stale) k = if refused s then .ok (.stop, k')
      else if (digitsOf s).length = 3 then .error .bounds else .ok (.add ((cString s).take (s.findIdx isBlank))
        (if (digitsOf s).length ≤ 3 then numeral 10 (digitsOf s) else 0), k') := by
  have hlt : s.findIdx isBlank < s.length := findIdx_lt_length.2 hbla
  obtain ⟨keychar, n, hcopy, hstr, hkey⟩ := key_eq (s ++ 0 :: stale) (hlt.trans hlen)
  obtain ⟨t, hbeh⟩ := exists_drop_behindBlank hbla stale
  have hfrom : (s ++ 0 :: stale).drop (s.findIdx isBlank + 1 + ((behindBlank s).takeWhile fun c => !isNumber c).length) =
      fromDigit s ++ 0 :: t := by
    have hspl : behindBlank s ++ 0 :: t = (behindBlank s).takeWhile (fun c => !isNumber c) ++ (fromDigit s ++ 0 :: t) := by
      rw [← append_assoc, ← fromDigit_eq]
    rw [← drop_drop, hbeh, hspl, drop_left]
  have hdig : scanDigit (behindBlank s ++ 0 :: t) (s.findIdx isBlank + 1) =
      .ok (s.findIdx isBlank + 1 + ((behindBlank s).takeWhile fun c => !isNumber c).length, true) := by
    have hnul : 0 ∉ behindBlank s := cString_nulFree _
    rw [scanDigit_eq hnul, ← fromDigit, decide_eq_true hnumb]
  refine ⟨some (s.findIdx isBlank + 1 + ((behindBlank s).takeWhile fun c => !isNumber c).length), ?_⟩
  simp only [scanLine, scanBlank_eq hbla, ok_bind, hcopy, hbeh, hdig, hfrom, scanNumber_eq (nul_notMem_fromDigit s),
    if_true]
  rw [← refused, ← digitsOf]
  by_cases href : refused s = true
  · rw [if_pos href, if_pos href]
    rfl
  · have hstri : cString ((s ++ 0 :: stale).drop
        (s.findIdx isBlank + 1 + ((behindBlank s).takeWhile fun c => !isNumber c).length)) =
        digitsOf s ++ (fromDigit s).dropWhile isNumber := by
      rw [hfrom, cString_append_nul (nul_notMem_fromDigit s)]
      exact takeWhile_append_dropWhile.symm
    have hflag := readFlag_eq hstri (digitsOf_ne_nil hnumb) fun c hc => mem_takeWhile_imp hc
    rw [if_neg href, endKey, addKey, hflag]
    split_ifs
    · rfl
    · rw [ok_bind, hstr, ok_bind, hkey, cString_append_zero]
      rfl
    · rw [ok_bind, hstr, ok_bind, hkey, cString_append_zero]
      rfl

lemma scanLine_noNumber (hbla : ∃ c ∈ s, isBlank c = true) (hnumb : fromDigit s = []) (hlen : s.length < lineLen)
    (stale : List UInt8) : scanLine (s ++ 0 :: stale) none = .error .bounds := by
  have hlt : s.findIdx isBlank < s.length := findIdx_lt_length.2 hbla
  obtain ⟨keychar, n, hcopy, -, -⟩ := key_eq (s ++ 0 :: stale) (hlt.trans hlen)
  obtain ⟨t, hbeh⟩ := exists_drop_behindBlank hbla stale
  have hwho : (behindBlank s).takeWhile (fun c => !isNumber c) = behindBlank s := by
    have hspl := fromDigit_eq s
    rw [hnumb, append_nil] at hspl
    exact hspl.symm
  have hdig : scanDigit (behindBlank s ++ 0 :: t) (s.findIdx isBlank + 1) =
      .ok (s.findIdx isBlank + 1 + (behindBlank s).length, false) := by
    have hnul : 0 ∉ behindBlank s := cString_nulFree _
    rw [scanDigit_eq hnul, ← fromDigit, hwho, hnumb]
    rfl
  have hfrom : (s ++ 0 :: stale).drop (s.findIdx isBlank + 1 + (behindBlank s).length) = 0 :: t := by
    rw [← drop_drop, hbeh, drop_left]
  have hend : scanNumber (0 :: t) (s.findIdx isBlank + 1 + (behindBlank s).length) =
      .ok (some (s.findIdx isBlank + 1 + (behindBlank s).length)) := if_pos rfl
  simp [scanLine, scanBlank_eq hbla, hcopy, hbeh, hdig, hfrom, hend, endKey, addKey]

lemma parseLine_skipped_or (hne : s ≠ []) : parseLine (s ++ 0 :: stale) k =
    if Skipped s then .ok (.skip, k) else scanLine (s ++ 0 :: stale) k := by
  obtain ⟨c, s, rfl⟩ := exists_cons_of_ne_nil hne
  have hstr : strlen (c :: s ++ 0 :: stale) = .ok (cString (c :: s)).length := by
    rw [strlen, if_pos (by simp), cString_append_zero]
  rw [parseLine, hstr, ok_bind]
  by_cases hlong : maxPatternLen ≤ (cString (c :: s)).length
  · have hskip : Skipped (c :: s) := Or.inl hlong
    rw [if_pos hlong, if_pos hskip]
    rfl
  · rw [if_neg hlong]
    show (if c = 0 ∨ c = 35 then _ else _) = _
    by_cases hc : c = 0 ∨ c = 35
    · have hskip : Skipped (c :: s) := Or.inr (by simpa using hc)
      rw [if_pos hc, if_pos hskip]
      rfl
    · have hskip : ¬ Skipped (c :: s) := fun h => h.elim hlong fun h => hc (by simpa using h)
      rw [if_neg hc, if_neg hskip]

lemma parseLine_eq (hne : s ≠ []) (hlen : s.length < lineLen) (h : SelfContained s) (stale : List UInt8) (k : Option ℕ) :
    ∃ k', parseLine (s ++ 0 :: stale) k = .ok (lineResult s, k') := by
  rw [parseLine_skipped_or hne]
  by_cases hskip : Skipped s
  · rw [if_pos hskip, lineResult, if_pos hskip]
    exact ⟨k, rfl⟩
  · obtain ⟨hbla, hnumb, hroom⟩ := h.resolve_left hskip
    obtain ⟨k', hk'⟩ := scanLine_eq hbla hnumb hlen stale k
    refine ⟨k', ?_⟩
    rw [if_neg hskip, hk', lineResult, if_neg hskip]
    by_cases href : refused s = true
    · rw [if_pos href, if_pos href]
    · rw [if_neg href, if_neg href, if_neg (hroom (by simpa using href))]

/-- In a fresh buffer, a line that is not self-contained is read past the end of an array, or a pointer is used
that was never set. -/
theorem parseLine_fresh (hne : s ≠ []) (hlen : s.length < lineLen) (h : ¬ SelfContained s) (n : ℕ) :
    parseLine (s ++ 0 :: List.replicate n 0) none = .error .bounds := by
  rw [SelfContained, not_or] at h
  rw [parseLine_skipped_or hne, if_neg h.1]
  by_cases hbla : ∃ c ∈ s, isBlank c = true
  · by_cases hnumb : fromDigit s = []
    · exact scanLine_noNumber hbla hnumb hlen _
    · obtain ⟨k', hk'⟩ := scanLine_eq hbla hnumb hlen _ none
      rw [hk']
      by_cases href : refused s = true
      · exact absurd ⟨hbla, hnumb, fun hr => absurd (href.symm.trans hr) (by simp)⟩ h.2
      · have hthr : (digitsOf s).length = 3 := by
          by_contra hthr
          exact h.2 ⟨hbla, hnumb, fun _ => hthr⟩
        rw [if_neg href, if_pos hthr]
  · have hnone : (s ++ 0 :: List.replicate n 0).findIdx? isBlank = none := by
      rw [findIdx?_eq_none_iff, ← replicate_succ]
      intro c hc
      rcases mem_append.1 hc with hs | hzero
      · exact Bool.eq_false_iff.2 fun h => hbla ⟨c, hs, h⟩
      · rw [eq_of_mem_replicate hzero]
        rfl
    rw [scanLine, scanBlank, hnone]
    rfl

end SquidVideoCache.Acsm
