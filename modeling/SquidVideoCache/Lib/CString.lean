import SquidVideoCache.Lib.Outcome
import Mathlib.Algebra.Order.Ring.Int
import Mathlib.Data.List.Infix
import Mathlib.Data.List.TakeWhile

/-!
# C strings and byte buffers

Computations over C memory end with a value or with a `Fault`. A buffer is its
list of bytes; a string is the bytes before its terminator. The functions follow
the C library: the search is for the first occurrence, the length is that of the
bytes before the first NUL, and the bounded copy always writes its full count.
-/

namespace SquidVideoCache.Lib
open List Option

/-- How a computation fails to return: an access outside an object, a failed
`assert`, or a loop that does not end. -/
inductive Fault where
  | bounds
  | assertion
  | diverges
  deriving DecidableEq, Repr

abbrev Exec (α : Type) := Except Fault α

def cAssert (p : Prop) [Decidable p] : Exec Unit := if p then .ok () else .error .assertion

variable {p : Prop} {s buf needle a : List UInt8} {i n : ℕ}

@[simp] lemma cAssert_eq_ok [Decidable p] {x : Unit} : cAssert p = .ok x ↔ p := by
  unfold cAssert
  split_ifs with h <;> simp [h]

lemma cAssert_pos [Decidable p] (h : p) : cAssert p = .ok () := if_pos h

/-- The bytes of a string, without the NUL that ends it. -/
@[ext]
structure CString where
  bytes : List UInt8
  nulFree : 0 ∉ bytes
  deriving DecidableEq

def ascii (cs : List Char) : List UInt8 := cs.map Char.toUInt8

/-- The string that starts at the head of a buffer. -/
def cString (buf : List UInt8) : List UInt8 := buf.takeWhile (· != 0)

lemma cString_nulFree (buf : List UInt8) : 0 ∉ cString buf := by
  intro h
  simpa using mem_takeWhile_imp h

lemma ne_nul_of_mem (hs : 0 ∉ s) : ∀ a ∈ s, (a != 0) = true := by
  intro a ha
  have hne : a ≠ 0 := fun h0 => hs (h0 ▸ ha)
  simpa using hne

lemma cString_of_nulFree (hs : 0 ∉ s) : cString s = s := takeWhile_eq_self_iff.mpr (ne_nul_of_mem hs)

lemma cString_append_nul (hs : 0 ∉ s) (t : List UInt8) : cString (s ++ 0 :: t) = s := by
  rw [cString, takeWhile_append_of_pos (ne_nul_of_mem hs)]
  simp

def CString.ofBuffer (buf : List UInt8) : CString := ⟨cString buf, cString_nulFree buf⟩

/-! ## Checked access -/

def load (buf : List UInt8) (i : ℕ) : Exec UInt8 :=
  match buf[i]? with
  | some c => .ok c
  | none => .error .bounds

/-- `buf[i] = c`, the index being the signed difference of two pointers. -/
def store (buf : List UInt8) (i : ℤ) (c : UInt8) : Exec (List UInt8) :=
  if 0 ≤ i ∧ i < buf.length then .ok (buf.set i.toNat c) else .error .bounds

lemma load_of_lt (h : i < buf.length) : load buf i = .ok buf[i] := by
  simp [load, h]

lemma store_natCast_of_lt (h : i < buf.length) (c : UInt8) : store buf i c = .ok (buf.set i c) := by
  have hi : (0 : ℤ) ≤ i ∧ (i : ℤ) < buf.length := by omega
  simp [store, hi]

lemma store_natCast_of_ge (h : buf.length ≤ i) (c : UInt8) : store buf i c = .error .bounds := if_neg (by omega)

/-- Walks to the first NUL; a buffer without one is read past its end. -/
def strlen (buf : List UInt8) : Exec ℕ :=
  if 0 ∈ buf then .ok (cString buf).length else .error .bounds

lemma strlen_append_nul (hs : 0 ∉ s) (t : List UInt8) : strlen (s ++ 0 :: t) = .ok s.length := by
  rw [strlen, if_pos (by simp), cString_append_nul hs]

lemma strlen_of_notMem (h : 0 ∉ buf) : strlen buf = .error .bounds := if_neg h

/-! ## Substring search -/

/-- The offset of the first occurrence of `needle`. -/
def strstr (needle : List UInt8) : List UInt8 → Option ℕ
  | [] => if needle = [] then some 0 else none
  | c :: s => if needle <+: c :: s then some 0 else (strstr needle s).map (· + 1)

lemma prefix_of_strstr (h : strstr needle s = some i) : needle <+: s.drop i := by
  induction s generalizing i with
  | nil =>
    have hn : needle = [] := by
      by_contra hne
      simp [strstr, hne] at h
    simp [hn]
  | cons c s ih =>
    unfold strstr at h
    split_ifs at h with hp
    · cases h
      exact hp
    · obtain ⟨j, hj, rfl⟩ := map_eq_some_iff.mp h
      exact ih hj

lemma strstr_first {j : ℕ} (h : strstr needle s = some i) (hj : needle <+: s.drop j) : i ≤ j := by
  induction s generalizing i j with
  | nil =>
    have hi : i = 0 := by
      by_cases hn : needle = []
      · simpa [strstr, hn] using h.symm
      · simp [strstr, hn] at h
    omega
  | cons c s ih =>
    unfold strstr at h
    split_ifs at h with hp
    · cases h
      exact Nat.zero_le j
    · obtain ⟨k, hk, rfl⟩ := map_eq_some_iff.mp h
      cases j with
      | zero => exact absurd hj hp
      | succ j => exact Nat.succ_le_succ (ih hk hj)

lemma strstr_isSome_iff : (strstr needle s).isSome ↔ needle <:+: s := by
  induction s with
  | nil =>
    by_cases hn : needle = []
    · simp [strstr]
    · simp [strstr]
  | cons c s ih =>
    unfold strstr
    split_ifs with hp
    · simpa using hp.isInfix
    · rw [isSome_map, ih, infix_cons_iff]
      exact ⟨Or.inr, fun h => h.resolve_left hp⟩

lemma strstr_eq_none_iff : strstr needle s = none ↔ ¬ needle <:+: s := by
  rw [← strstr_isSome_iff, Bool.not_eq_true, isSome_eq_false_iff, isNone_iff_eq_none]

lemma strstr_eq_some_iff : strstr needle s = some i ↔
      i ≤ s.length ∧ needle <+: s.drop i ∧ ∀ j < i, ¬ needle <+: s.drop j := by
  constructor
  · intro h
    have hp := prefix_of_strstr h
    have hfir : ∀ j < i, ¬ needle <+: s.drop j := fun j hj hp' => by
      have := strstr_first h hp'
      omega
    refine ⟨?_, hp, hfir⟩
    by_contra hlen
    have hnil : s.drop i = [] := drop_eq_nil_of_le (by omega)
    rw [hnil] at hp
    exact hfir s.length (by omega) (by simp [hp])
  · rintro ⟨-, hp, hfir⟩
    have hs : (strstr needle s).isSome := strstr_isSome_iff.mpr (hp.isInfix.trans (drop_suffix i s).isInfix)
    obtain ⟨j, hj⟩ := isSome_iff_exists.mp hs
    have hle := strstr_first hj hp
    have hge : ¬ j < i := fun h => hfir j h (prefix_of_strstr hj)
    rw [hj, show j = i by omega]

/-! ## Bounded copy -/

/-- Exactly `n` bytes are written, NULs after the end of `src`. The count is a
pointer difference; a negative one converts to a `size_t` above every object size. -/
def strncpy (dst src : List UInt8) (n : ℤ) : Exec (List UInt8) :=
  if 0 ≤ n ∧ n ≤ dst.length then
    .ok (src.take n.toNat ++ List.replicate (n.toNat - src.length) 0 ++ dst.drop n.toNat)
  else .error .bounds

lemma strncpy_natCast {dst src : List UInt8} (hsrc : n ≤ src.length)
    (hdst : n ≤ dst.length) : strncpy dst src n = .ok (src.take n ++ dst.drop n) := by
  have hn : (0 : ℤ) ≤ n ∧ (n : ℤ) ≤ dst.length := by omega
  have hz : n - src.length = 0 := by omega
  simp [strncpy, hn, hz]

/-! ## Bounded comparison -/

/-- Whether `strncmp` returns 0: bytes are compared until two differ, until both strings end or until `n` are equal. -/
def strncmpEq : ℕ → List UInt8 → List UInt8 → Exec Bool
  | 0, _, _ => .ok true
  | n + 1, x :: a, y :: b => if x ≠ y then .ok false else if x = 0 then .ok true else strncmpEq n a b
  | _ + 1, _, _ => .error .bounds

lemma strncmpEq_comm (n : ℕ) (a b : List UInt8) : strncmpEq n a b = strncmpEq n b a := by
  induction n generalizing a b with
  | zero => rfl
  | succ n ih =>
    cases a with
    | nil => cases b <;> rfl
    | cons x a =>
      cases b with
      | nil => rfl
      | cons y b =>
        by_cases hxy : x = y
        · simp [strncmpEq, hxy, ih a b]
        · simp [strncmpEq, hxy, Ne.symm hxy]

lemma strncmpEq_terminated (ha : 0 ∉ a) (b : List UInt8) :
    strncmpEq a.length a (b ++ [0]) = .ok (decide (a <+: b)) := by
  induction a generalizing b with
  | nil => simp [strncmpEq]
  | cons x a ih =>
    obtain ⟨hx, ha⟩ : (0 : UInt8) ≠ x ∧ 0 ∉ a := by simpa using ha
    cases b with
    | nil => simp [strncmpEq, Ne.symm hx]
    | cons y b =>
      by_cases hxy : x = y
      · subst hxy
        simp [strncmpEq, Ne.symm hx, ih ha b]
      · simp [strncmpEq, hxy]

lemma strncmpEq_name {name : List UInt8} (hname : 0 ∉ name) (hlen : name.length ≤ buf.length) :
    strncmpEq name.length buf (name ++ [0]) = .ok (decide (name <+: buf)) := by
  induction name generalizing buf with
  | nil => simp [strncmpEq]
  | cons x name ih =>
    obtain ⟨hx, hname'⟩ : (0 : UInt8) ≠ x ∧ 0 ∉ name := by simpa using hname
    cases buf with
    | nil => simp at hlen
    | cons y buf =>
      by_cases hyx : y = x
      · subst hyx
        have htail := ih hname' (by simpa using hlen)
        simp [strncmpEq, Ne.symm hx, htail]
      · simp [strncmpEq, hyx, Ne.symm hyx]

lemma strncmpEq_append (hn : n ≤ a.length) (rest b : List UInt8) : strncmpEq n (a ++ rest) b = strncmpEq n a b := by
  induction n generalizing a b with
  | zero => rfl
  | succ n ih =>
    cases a with
    | nil => simp at hn
    | cons x a =>
      cases b with
      | nil => rfl
      | cons y b => simp [strncmpEq, ih (by simpa using hn) b]

lemma ends_strncmpEq (n : ℕ) (a b : List UInt8) : Ends (· = .bounds) (fun _ => True) (strncmpEq n a b) := by
  induction n generalizing a b with
  | zero => trivial
  | succ n ih =>
    cases a with
    | nil => rfl
    | cons x a =>
      cases b with
      | nil => rfl
      | cons y b => exact ends_ite (fun _ => trivial) fun _ => ends_ite (fun _ => trivial) fun _ => ih a b

end SquidVideoCache.Lib
