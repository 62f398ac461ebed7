import SquidVideoCache.Lib.Text

/-!
# Quoting for the access log, access_log.c

`log_quote` and `log_quoted_string` escape the backslash along with the bytes that they write with one, so
a field tells the string it was made from. `username_quote` does not escape it: a line end and the two
characters that stand for one give the same field.
-/

namespace SquidVideoCache.AccessLog
open Lib List Function

/-- The characters of the table `c2x` for a byte. -/
def c2x (c : UInt8) : List UInt8 := [c / 16, c % 16].map fun d => if d < 10 then 48 + d else 87 + d

def percent (c : UInt8) : List UInt8 := 37 :: c2x c

def logQuoteByte (c : UInt8) : List UInt8 :=
  if c = 13 then [92, 114]
  else if c = 10 then [92, 110]
  else if c ≤ 0x1F ∨ 0x7F ≤ c ∨ c = 37 ∨ c = 91 ∨ c = 93 then percent c
  else if c = 92 then [92, 92]
  else [c]

/-- Without `OLD_LOG_MIME`. A header that is missing gives the empty string. -/
def logQuote (header : Option CString) : List UInt8 := (header.elim [] CString.bytes).flatMap logQuoteByte

def usernameQuoteByte (c : UInt8) : List UInt8 :=
  if c = 13 then [92, 114]
  else if c = 10 then [92, 110]
  else if c ≤ 0x1F ∨ 0x7F ≤ c ∨ c = 37 ∨ c = 32 then percent c
  else [c]

def usernameQuote (header : Option CString) : List UInt8 := (header.elim [] CString.bytes).flatMap usernameQuoteByte

def logQuotedByte (c : UInt8) : List UInt8 :=
  if c = 13 then [92, 114]
  else if c = 10 then [92, 110]
  else if c = 9 then [92, 116]
  else if c = 34 ∨ c = 92 then [92, c]
  else [c]

/-- The runs that `strcspn` finds are copied as they are. -/
def logQuotedString (str : CString) : List UInt8 := str.bytes.flatMap logQuotedByte

/-! ## Codes of bytes -/

variable {c d : UInt8} {a b s t : List UInt8} {k : ℕ} {f : UInt8 → List UInt8}

lemma numeral_c2x (c : UInt8) : numeral 16 (c2x c) = c.toNat :=
  forall_byte (P := fun c => numeral 16 _ = c.toNat) (by decide +kernel) c

lemma percent_append (h : percent c ++ s = percent d ++ t) : c = d := by
  have hdigits : c2x c = c2x d := append_inj_left (cons.inj h).2 rfl
  rw [← UInt8.toNat_inj, ← numeral_c2x c, ← numeral_c2x d, hdigits]

/-- The results have at most `k` bytes for a byte, stay in their line and tell the strings. -/
structure Quotes (k : ℕ) (quote : CString → List UInt8) : Prop where
  fits : ∀ s, (quote s).length + 1 ≤ s.bytes.length * k + 1
  line : ∀ s, 0 ∉ quote s ∧ 10 ∉ quote s ∧ 13 ∉ quote s
  injective : Injective quote

section

variable (hne : ∀ c, f c ≠ []) (htells : ∀ c d s t, f c ++ s = f d ++ t → c = d)

include hne htells

lemma flatMap_injective : Injective (flatMap f) := by
  intro a b h
  induction a generalizing b with
  | nil =>
    cases b with
    | nil => rfl
    | cons d b => exact absurd h.symm (by simp [hne])
  | cons c a ih =>
    cases b with
    | nil => exact absurd h (by simp [hne])
    | cons d b =>
      obtain rfl := htells c d _ _ h
      rw [ih (append_cancel_left h)]

lemma quotes_flatMap (hbyte : ∀ c, (f c).length ≤ k ∧ (c = 0 ∨ 0 ∉ f c ∧ 10 ∉ f c ∧ 13 ∉ f c)) :
    Quotes k fun s => s.bytes.flatMap f where
  fits s := by
    induction s.bytes with
    | nil => simp
    | cons c s ih =>
      have hc := (hbyte c).1
      rw [flatMap_cons, length_append, length_cons, Nat.succ_mul]
      omega
  line s := by
    have hline : ∀ c ∈ s.bytes, 0 ∉ f c ∧ 10 ∉ f c ∧ 13 ∉ f c :=
      fun c hc => (hbyte c).2.resolve_left fun h => s.nulFree (h ▸ hc)
    simp only [mem_flatMap, not_exists, not_and]
    exact ⟨fun c hc => (hline c hc).1, fun c hc => (hline c hc).2.1, fun c hc => (hline c hc).2.2⟩
  injective s t h := CString.ext (flatMap_injective hne htells h)

end

lemma logQuoteByte_append (h : logQuoteByte c ++ s = logQuoteByte d ++ t) : c = d := by
  unfold logQuoteByte at h
  split_ifs at h <;> first | exact percent_append h | simp_all [percent]

lemma logQuotedByte_append (h : logQuotedByte c ++ s = logQuotedByte d ++ t) : c = d := by
  unfold logQuotedByte at h
  split_ifs at h <;> grind

theorem log_quotes : Quotes 3 (logQuote ∘ some) ∧ Quotes 2 logQuotedString := by
  constructor
  · exact quotes_flatMap (forall_byte (by decide +kernel)) (fun _ _ _ _ => logQuoteByte_append)
      (forall_byte (by decide +kernel))
  · exact quotes_flatMap (forall_byte (by decide +kernel)) (fun _ _ _ _ => logQuotedByte_append)
      (forall_byte (by decide +kernel))

/-! ## User names -/

/-- The line ends with the letters that stand for them. -/
def lineEnds : List (UInt8 × UInt8) := [(13, 114), (10, 110)]

/-- The name has no line end, and no backslash before a letter that stands for one. -/
def Plain (name : List UInt8) : Prop := ∀ e ∈ lineEnds, e.1 ∉ name ∧ ¬ [92, e.2] <:+: name

def lineEndByte (c : UInt8) : List UInt8 := if c = 13 then [92, 114] else if c = 10 then [92, 110] else [c]

def escapeByte (c : UInt8) : List UInt8 := if c ≤ 0x1F ∨ 0x7F ≤ c ∨ c = 37 ∨ c = 32 then percent c else [c]

lemma usernameQuoteByte_eq (c : UInt8) : usernameQuoteByte c = (lineEndByte c).flatMap escapeByte :=
  forall_byte (P := fun c => usernameQuoteByte c = (lineEndByte c).flatMap _) (by decide +kernel) c

lemma escapeByte_append (h : escapeByte c ++ s = escapeByte d ++ t) : c = d := by
  unfold escapeByte at h
  split_ifs at h <;> first | exact percent_append h | simp_all [percent]

lemma usernameQuote_eq_iff {a b : CString} :
    usernameQuote (some a) = usernameQuote (some b) ↔ a.bytes.flatMap lineEndByte = b.bytes.flatMap lineEndByte := by
  have hquo : ∀ s : CString, usernameQuote (some s) = (s.bytes.flatMap lineEndByte).flatMap escapeByte := by
    intro s
    rw [flatMap_assoc, ← funext usernameQuoteByte_eq]
    rfl
  rw [hquo, hquo]
  exact (flatMap_injective (forall_byte (by decide +kernel)) fun _ _ _ _ => escapeByte_append).eq_iff

lemma flatMap_lineEndByte (h : ∀ e ∈ lineEnds, e.1 ∉ s) : s.flatMap lineEndByte = s := by
  have hbyte : ∀ c ∈ s, lineEndByte c = [c] := by
    intro c hc
    rw [lineEndByte, if_neg, if_neg]
    · exact fun h10 => h (10, 110) (by decide) (h10 ▸ hc)
    · exact fun h13 => h (13, 114) (by decide) (h13 ▸ hc)
  rw [flatMap_congr hbyte, flatMap_singleton']

lemma lineEndByte_mem {e : UInt8 × UInt8} (he : e ∈ lineEnds) :
    lineEndByte e.1 = [92, e.2] ∧ lineEndByte e.2 = [e.2] ∧ 0 ≠ e.1 ∧ 0 ≠ e.2 := by
  simp only [lineEnds, mem_cons, not_mem_nil, or_false] at he
  obtain rfl | rfl := he
  · decide
  · decide

/-- A line end and the characters that stand for it are written alike. -/
lemma usernameQuote_lineEnd {e : UInt8 × UInt8} (he : e ∈ lineEnds) {a b : CString} (ha : a.bytes = s ++ e.1 :: t)
    (hb : b.bytes = s ++ 92 :: e.2 :: t) : usernameQuote (some a) = usernameQuote (some b) ∧ a ≠ b := by
  obtain ⟨hend, hlet, -⟩ := lineEndByte_mem he
  constructor
  · rw [usernameQuote_eq_iff, ha, hb]
    simp [hend, hlet, show lineEndByte 92 = [92] by decide]
  · rintro rfl
    have hlength := congrArg length (ha.symm.trans hb)
    simp at hlength

theorem usernameQuote_tells_iff (a : CString) :
    ((∀ b, usernameQuote (some a) = usernameQuote (some b) → a = b) ∧
      10 ∉ usernameQuote (some a) ∧ 13 ∉ usernameQuote (some a) ∧ 32 ∉ usernameQuote (some a)) ↔ Plain a.bytes := by
  have hnul := a.nulFree
  constructor
  · rintro ⟨htells, -⟩ e he
    obtain ⟨-, -, h1, h2⟩ := lineEndByte_mem he
    constructor
    · intro hmem
      obtain ⟨s, t, hs⟩ := append_of_mem hmem
      have hb := usernameQuote_lineEnd he hs (b := ⟨s ++ 92 :: e.2 :: t, by simp_all⟩) rfl
      exact hb.2 (htells _ hb.1)
    · rintro ⟨s, t, hs⟩
      rw [append_assoc] at hs
      rw [← hs] at hnul
      have hb := usernameQuote_lineEnd he (a := ⟨s ++ e.1 :: t, by simp_all⟩) rfl hs.symm
      exact hb.2 (htells _ hb.1.symm).symm
  · intro ha
    refine ⟨fun b h => ?_, ?_⟩
    · rw [usernameQuote_eq_iff, flatMap_lineEndByte fun e he => (ha e he).1] at h
      have hb : ∀ e ∈ lineEnds, e.1 ∉ b.bytes := by
        intro e he hmem
        obtain ⟨s, t, hs⟩ := append_of_mem hmem
        rw [hs, flatMap_append, flatMap_cons, (lineEndByte_mem he).1, ← append_assoc] at h
        exact (ha e he).2 ⟨_, _, h.symm⟩
      exact CString.ext (h.trans (flatMap_lineEndByte hb))
    · have hbyte := forall_byte (P := fun c => 10 ∉ usernameQuoteByte c ∧ 13 ∉ usernameQuoteByte c ∧ 32 ∉ usernameQuoteByte c)
        (by decide +kernel)
      simp only [usernameQuote, mem_flatMap, not_exists, not_and]
      exact ⟨fun c _ => (hbyte c).1, fun c _ => (hbyte c).2.1, fun c _ => (hbyte c).2.2⟩

theorem usernameQuote_cr :
    usernameQuote (some ⟨[13], by decide⟩) = usernameQuote (some ⟨[92, 114], by decide⟩) := by
  decide +kernel

end SquidVideoCache.AccessLog
