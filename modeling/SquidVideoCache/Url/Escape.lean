import SquidVideoCache.Lib.Text

/-!
# Escaping, rfc1738.c

A byte is copied or written as a triplet. Unless `encode_reserved` is negative the percent sign is written
so too, and `rfc1738_unescape` finds the triplets again.
-/

namespace SquidVideoCache.Rfc1738
open Lib List

def unsafeChars : List UInt8 :=
  [0x3C, 0x3E, 0x22, 0x23, 0x7B, 0x7D, 0x7C, 0x5C, 0x5E, 0x7E, 0x5B, 0x5D, 0x60, 0x27, 0x20]

def reservedChars : List UInt8 := [0x3B, 0x2F, 0x3F, 0x3A, 0x40, 0x3D, 0x26]

def doEscape (encodeReserved : ℤ) (c : UInt8) : Bool :=
  unsafeChars.contains c || (0 ≤ encodeReserved && c = 37) || (0 < encodeReserved && reservedChars.contains c) ||
    c ≤ 0x1F || c = 0x7F || 0x80 ≤ c

def hexDigit (d : UInt8) : UInt8 := if d < 10 then 48 + d else 55 + d

def escapeByte (encodeReserved : ℤ) (c : UInt8) : List UInt8 :=
  if doEscape encodeReserved c then [37, hexDigit (c / 16), hexDigit (c % 16)] else [c]

def rfc1738DoEscape (encodeReserved : ℤ) (url : List UInt8) : List UInt8 := url.flatMap (escapeByte encodeReserved)

def rfc1738Escape : List UInt8 → List UInt8 := rfc1738DoEscape 0

def rfc1738EscapeUnescaped : List UInt8 → List UInt8 := rfc1738DoEscape (-1)

def rfc1738EscapePart : List UInt8 → List UInt8 := rfc1738DoEscape 1

def fromhex (ch : UInt8) : Option UInt8 :=
  if 48 ≤ ch ∧ ch ≤ 57 then some (ch - 48)
  else if 97 ≤ ch ∧ ch ≤ 102 then some (ch - 87)
  else if 65 ≤ ch ∧ ch ≤ 70 then some (ch - 55)
  else none

/-- What the digits behind a percent sign stand for; never NUL. -/
def decode (a b : UInt8) : Option UInt8 := do
  let v1 ← fromhex a
  let v2 ← fromhex b
  let x := v1 <<< 4 ||| v2
  if x = 0 then none else some x

/-- Works in place: the write index is never ahead of the read index. -/
def rfc1738Unescape : List UInt8 → List UInt8
  | [] => []
  | 37 :: 37 :: s => 37 :: rfc1738Unescape s
  | 37 :: a :: b :: s =>
    match decode a b with
    | some x => x :: rfc1738Unescape s
    | none => 37 :: rfc1738Unescape (a :: b :: s)
  | c :: s => c :: rfc1738Unescape s

variable {r : ℤ} {c : UInt8} {s : List UInt8}

lemma decode_hexDigit (c : UInt8) :
    hexDigit (c / 16) ≠ 37 ∧ (c = 0 ∨ decode (hexDigit (c / 16)) (hexDigit (c % 16)) = some c) :=
  forall_byte (P := fun c => hexDigit (c / 16) ≠ 37 ∧ (c = 0 ∨ decode (hexDigit (c / 16)) (hexDigit (c % 16)) = some c))
    (by decide +kernel) c

lemma unescape_escapeByte (hr : 0 ≤ r) (hc : c ≠ 0) (s : List UInt8) :
    rfc1738Unescape (escapeByte r c ++ s) = c :: rfc1738Unescape s := by
  unfold escapeByte
  split_ifs with hesc
  · -- the equation for a triplet needs that it is not `%%`
    obtain ⟨hne, hdec⟩ := decode_hexDigit c
    simp [rfc1738Unescape, hdec.resolve_left hc]
  · have h37 : c ≠ 37 := by
      rintro rfl
      exact hesc (by simp [doEscape, hr])
    simp [rfc1738Unescape, h37]

lemma unescape_doEscape (hr : 0 ≤ r) (hs : 0 ∉ s) : rfc1738Unescape (rfc1738DoEscape r s) = s := by
  induction s with
  | nil => rfl
  | cons c s ih =>
    rw [mem_cons, not_or] at hs
    change rfc1738Unescape (escapeByte r c ++ rfc1738DoEscape r s) = c :: s
    rw [unescape_escapeByte hr (Ne.symm hs.1), ih hs.2]

/-- No control character, no space, in ASCII and not unsafe. -/
def Clean (c : UInt8) : Prop := 0x20 < c ∧ c < 0x7F ∧ c ∉ unsafeChars

instance : DecidablePred Clean := fun _ => inferInstanceAs (Decidable (_ ∧ _ ∧ _))

lemma forall_mem_doEscape {P : UInt8 → Prop} [DecidablePred P] (h : ∀ c, (escapeByte r c).all P) :
    ∀ c ∈ rfc1738DoEscape r s, P c := by
  intro d hd
  obtain ⟨c, -, hd⟩ := mem_flatMap.mp hd
  simpa using all_eq_true.mp (h c) d hd

theorem rfc1738_escapes (s : CString) :
    rfc1738Unescape (rfc1738Escape s.bytes) = s.bytes ∧ rfc1738Unescape (rfc1738EscapePart s.bytes) = s.bytes ∧
      (∀ c ∈ rfc1738Escape s.bytes, Clean c) ∧ (∀ c ∈ rfc1738EscapePart s.bytes, Clean c ∧ c ∉ reservedChars) ∧
      rfc1738EscapeUnescaped (rfc1738EscapeUnescaped s.bytes) = rfc1738EscapeUnescaped s.bytes := by
  refine ⟨unescape_doEscape le_rfl s.nulFree, unescape_doEscape Int.one_nonneg s.nulFree, ?_, ?_, ?_⟩
  · exact forall_mem_doEscape (forall_byte (by decide +kernel))
  · exact forall_mem_doEscape (forall_byte (by decide +kernel))
  · have hbyte : ∀ c, (escapeByte (-1) c).flatMap (escapeByte (-1)) = escapeByte (-1) c := forall_byte (by decide +kernel)
    rw [rfc1738EscapeUnescaped, rfc1738DoEscape, rfc1738DoEscape, flatMap_assoc, funext hbyte]

end SquidVideoCache.Rfc1738
