import SquidVideoCache.Lib.CString
import SquidVideoCache.Lib.Splay
import Mathlib.Data.List.Lex

/-!
# Domain lists of acl.c

`matchDomainName` compares a host with a domain from their ends, without regard to case. Read from
the end and with the dot before all other characters, the names are in lexicographic order.
-/

namespace SquidVideoCache.Acl
open Lib SplayNode List Except

def dot : UInt8 := 46

def xtolower (c : UInt8) : UInt8 := if 65 ≤ c ∧ c ≤ 90 then c + 32 else c

lemma xtolower_eq_dot_iff (c : UInt8) : xtolower c = dot ↔ c = dot := by
  unfold xtolower dot
  split_ifs with h
  · rw [UInt8.le_iff_toNat_le, UInt8.le_iff_toNat_le] at h
    rw [← UInt8.toNat_inj, ← UInt8.toNat_inj, UInt8.toNat_add]
    simp only [UInt8.toNat_ofNat] at *
    omega
  · rfl

def compareChars (h d : UInt8) : ℤ :=
  if d = dot then 1
  else if h = dot then -1
  else (xtolower h).toNat - (xtolower d).toNat

/-- The loop of `matchDomainName`; both strings are read from the end. -/
def matchFromEnd : List UInt8 → List UInt8 → Exec ℤ
  | [], _ => .error .bounds
  | _ :: _, [] => .error .bounds
  | a :: h, b :: d =>
    if xtolower a = xtolower b then
      match h, d with
      | [], [] => .ok 0
      | [], d => if d = [dot] then .ok 0 else .ok (-1)
      | _ :: _, [] => if b = dot then .ok 0 else .ok 1
      | h, d => matchFromEnd h d
    else .ok (compareChars a b)

def stripDots (h : List UInt8) : List UInt8 := h.dropWhile (· = dot)

def matchDomainName (h d : List UInt8) : Exec ℤ := matchFromEnd (stripDots h).reverse d.reverse

/-- A name with a character that is not a dot, and at most one dot in front. -/
structure DomainName where
  bytes : List UInt8
  named : ∃ c ∈ bytes, c ≠ dot
  oneDot : ¬[dot, dot] <+: bytes
  deriving DecidableEq

/-- A name has a last character, so the value is there (`matchDomainName_eq_ok`). -/
def aclHostDomainCompare (h d : DomainName) : ℤ := (matchDomainName h.bytes d.bytes).toOption.getD 0

def aclDomainCompare (a b : DomainName) : ℤ :=
  let ret := aclHostDomainCompare b a
  if ret ≠ 0 then aclHostDomainCompare a b else ret

def aclMatchDomainList (top : SplayNode DomainName) : Option DomainName → SplayNode DomainName × Bool
  | none => (top, false)
  | some host =>
    let (top, result) := splaySplay (aclHostDomainCompare host) top
    (top, result = 0)

/-- The body of the loop of `aclParseDomainList`; an entry that is found is freed. -/
def aclInsertDomain (top : SplayNode DomainName) (t : DomainName) : SplayNode DomainName :=
  (splayInsert aclDomainCompare t top).1

def DomainName.tolower (t : DomainName) : DomainName where
  bytes := t.bytes.map xtolower
  named := by
    obtain ⟨c, hc, hne⟩ := t.named
    exact ⟨xtolower c, mem_map_of_mem hc, fun h => hne ((xtolower_eq_dot_iff c).mp h)⟩
  oneDot := by
    rintro ⟨rest, hrest⟩
    obtain ⟨a, l, hl, ha, hmap⟩ := map_eq_cons_iff.mp hrest.symm
    obtain ⟨b, l, rfl, hb, -⟩ := map_eq_cons_iff.mp hmap
    rw [xtolower_eq_dot_iff] at ha hb
    exact t.oneDot ⟨l, by rw [hl, ha, hb]; rfl⟩

def aclParseDomainList (tokens : List DomainName) (top : SplayNode DomainName) : SplayNode DomainName :=
  (tokens.map DomainName.tolower).foldl aclInsertDomain top

inductive DomainOp where
  | insert (t : DomainName)
  | lookup (host : Option DomainName)
  deriving DecidableEq

def DomainOp.apply (top : SplayNode DomainName) : DomainOp → SplayNode DomainName
  | insert t => aclInsertDomain top t
  | lookup host => (aclMatchDomainList top host).1

def domainRun (ops : List DomainOp) : SplayNode DomainName := ops.foldl DomainOp.apply nil

/-! ## The order of the names -/

/-- The place of a character in lower case. -/
def rank (c : UInt8) : ℕ := if c = dot then 0 else c.toNat + 1

lemma rank_injective : Function.Injective rank := by
  intro a b h
  unfold rank at h
  split_ifs at h with ha hb
  · rw [ha, hb]
  · apply UInt8.toNat_inj.mp
    omega

def key (h : List UInt8) : List ℕ := h.map fun c => rank (xtolower c)

lemma compareChars_sign {h d : UInt8} (hne : xtolower h ≠ xtolower d) :
    (compareChars h d < 0 ↔ rank (xtolower h) < rank (xtolower d)) ∧
    (0 < compareChars h d ↔ rank (xtolower d) < rank (xtolower h)) := by
  have hne := rank_injective.ne hne
  unfold rank at hne ⊢
  simp only [xtolower_eq_dot_iff] at hne ⊢
  unfold compareChars
  split_ifs at hne ⊢ <;> omega

/-- The sign of `r` places `H` before, in or behind the interval from `X` on whose lists go on below `n`. -/
structure Places (r : ℤ) (X : List ℕ) (n : ℕ) (H : List ℕ) : Prop where
  neg : r < 0 ↔ H < X
  pos : 0 < r ↔ X ++ [n] ≤ H

lemma Places.cons {r : ℤ} {X H : List ℕ} {n : ℕ} (h : Places r X n H) (w : ℕ) : Places r (w :: X) n (w :: H) := by
  constructor
  · rw [h.neg]
    simp
  · rw [h.pos, ← not_lt, ← not_lt]
    simp

lemma places_of_ne {r : ℤ} {v w : ℕ} (hne : v ≠ w) (hneg : r < 0 ↔ v < w) (hpos : 0 < r ↔ w < v)
    (X H : List ℕ) (n : ℕ) : Places r (w :: X) n (v :: H) := by
  constructor
  · rw [hneg, cons_lt_cons_iff]
    simp [hne]
  · rw [cons_append, ← not_lt, cons_lt_cons_iff]
    omega

lemma places_zero_nil (n : ℕ) : Places 0 [] n [] := by
  constructor <;> simp

lemma places_neg_nil (w : ℕ) (X : List ℕ) (n : ℕ) : Places (-1) (w :: X) n [] := by
  constructor <;> simp

/-- The walk along `h` and `d` returns where `h` lies. -/
def Compared (h d : List UInt8) (X : List ℕ) (n : ℕ) : Prop :=
  ∃ r, matchFromEnd h d = .ok r ∧ Places r X n (key h)

variable {a b : UInt8} {h d : List UInt8} {X : List ℕ} {n : ℕ}

lemma compared_of_ne (hne : xtolower a ≠ xtolower b) : Compared (a :: h) (b :: d) (rank (xtolower b) :: X) n := by
  obtain ⟨hneg, hpos⟩ := compareChars_sign hne
  refine ⟨compareChars a b, ?_, places_of_ne (rank_injective.ne hne) hneg hpos _ _ _⟩
  rw [matchFromEnd.eq_def]
  exact if_neg hne

lemma Compared.step (heq : xtolower a = xtolower b) (hh : h ≠ []) (hd : d ≠ []) (ih : Compared h d X n) :
    Compared (a :: h) (b :: d) (rank (xtolower b) :: X) n := by
  obtain ⟨r, hr, hpla⟩ := ih
  refine ⟨r, ?_, by simpa [key, heq] using hpla.cons _⟩
  cases h with
  | nil => exact absurd rfl hh
  | cons a' h =>
    cases d with
    | nil => exact absurd rfl hd
    | cons b' d => simpa [matchFromEnd, heq] using hr

/-- A domain with a dot in front. The induction is on the walk from the ends to the front. -/
theorem compared_dotted (x : List UInt8) (hh : h ≠ []) : Compared h (x ++ [dot]) (key x) 1 := by
  induction x generalizing h with
  | nil =>
    cases h with
    | nil => exact absurd rfl hh
    | cons a h =>
      by_cases ha : a = dot
      · -- the dot in front of the domain is met by a dot of the host
        refine ⟨0, by cases h <;> simp [matchFromEnd, ha], ?_⟩
        constructor <;> simp [key, ha, rank, xtolower_eq_dot_iff, cons_lt_cons_iff]
      · have hne : xtolower a ≠ xtolower dot := by
          exact fun h => ha ((xtolower_eq_dot_iff a).mp h)
        refine ⟨1, ?_, ?_⟩
        · rw [matchFromEnd.eq_def]
          exact if_neg hne
        · constructor
          · simp [key]
          · rw [← not_lt]
            simp [key, rank, xtolower_eq_dot_iff, ha, cons_lt_cons_iff]
  | cons b x ih =>
    cases h with
    | nil => exact absurd rfl hh
    | cons a h =>
      by_cases heq : xtolower a = xtolower b
      · by_cases hnil : h = []
        · subst hnil
          cases x with
          | nil =>
            refine ⟨0, by simp [matchFromEnd, heq], ?_⟩
            simpa [key, heq] using (places_zero_nil 1).cons _
          | cons c x =>
            refine ⟨-1, by simp [matchFromEnd, heq], ?_⟩
            simpa [key, heq] using (places_neg_nil _ _ 1).cons _
        · exact (ih hnil).step heq hnil (by simp)
      · exact compared_of_ne heq

lemma compared_plain {x : List UInt8} (hx : x ≠ []) (hdot : x.getLast hx ≠ dot) (hh : h ≠ []) :
    Compared h x (key x) 0 := by
  induction x generalizing h with
  | nil => exact absurd rfl hx
  | cons b x ih =>
    cases h with
    | nil => exact absurd rfl hh
    | cons a h =>
      by_cases heq : xtolower a = xtolower b
      · cases x with
        | nil =>
          cases h with
          | nil =>
            refine ⟨0, by simp [matchFromEnd, heq], ?_⟩
            simpa [key, heq] using (places_zero_nil 0).cons _
          | cons a' h =>
            -- the host goes on
            have hb : b ≠ dot := by simpa using hdot
            refine ⟨1, by simp [matchFromEnd, heq, hb], ?_⟩
            have hlong : Places 1 [] 0 (key (a' :: h)) := by
              constructor
              · simp
              · rw [← not_lt]
                simp [key, cons_lt_cons_iff]
            simpa [key, heq] using hlong.cons _
        | cons c x =>
          have hlast : (c :: x).getLast (by simp) ≠ dot := by simpa using hdot
          cases h with
          | nil =>
            have hne : c :: x ≠ [dot] := by
              rintro heq
              simp [heq] at hlast
            refine ⟨-1, by simp [matchFromEnd, heq, hne], ?_⟩
            simpa [key, heq] using (places_neg_nil _ _ 0).cons _
          | cons a' h => exact (ih (by simp) hlast (by simp)).step heq (by simp) (by simp)
      · exact compared_of_ne heq

namespace DomainName

def core (d : DomainName) : List UInt8 := stripDots d.bytes

def dotted (d : DomainName) : Bool := d.bytes.head? = some dot

lemma bytes_eq (d : DomainName) : d.bytes = if d.dotted then dot :: d.core else d.core := by
  obtain ⟨bytes, named, oneDot⟩ := d
  cases bytes with
  | nil => simp at named
  | cons c rest =>
    by_cases hc : c = dot
    · cases rest with
      | nil => simp [hc] at named
      | cons c' rest =>
        have hc' : c' ≠ dot := by
          intro h
          simp [hc, h] at oneDot
        simp [dotted, core, stripDots, hc, hc']
    · simp [dotted, core, stripDots, hc]

lemma core_ne_nil (d : DomainName) : d.core ≠ [] := by
  obtain ⟨c, hc, hne⟩ := d.named
  intro h
  have hdot := dropWhile_eq_nil_iff.mp h c hc
  simp [hne] at hdot

lemma head_core (d : DomainName) : d.core.head d.core_ne_nil ≠ dot := by
  have hhead := head_dropWhile_not (fun c => decide _) d.core_ne_nil
  simpa [core, stripDots] using hhead

lemma compared (h d : DomainName) :
    Compared h.core.reverse d.bytes.reverse (key d.core.reverse) (if d.dotted then 1 else 0) := by
  have hh : h.core.reverse ≠ [] := by simp [h.core_ne_nil]
  rw [d.bytes_eq]
  split_ifs
  · rw [reverse_cons]
    exact compared_dotted _ hh
  · apply compared_plain (by simp [d.core_ne_nil]) _ hh
    rw [getLast_reverse]
    exact d.head_core

end DomainName

lemma matchDomainName_eq_ok (h d : DomainName) :
    matchDomainName h.bytes d.bytes = .ok (aclHostDomainCompare h d) := by
  obtain ⟨r, hr, -⟩ := DomainName.compared h d
  have hmat : matchDomainName h.bytes d.bytes = .ok r := hr
  rw [aclHostDomainCompare, hmat]
  rfl

lemma places_aclHostDomainCompare (h d : DomainName) :
    Places (aclHostDomainCompare h d) (key d.core.reverse) (if d.dotted then 1 else 0) (key h.core.reverse) := by
  obtain ⟨r, hr, hpla⟩ := DomainName.compared h d
  have heq : r = aclHostDomainCompare h d := ok.inj (hr.symm.trans (matchDomainName_eq_ok h d))
  rwa [← heq]

lemma between_iff (X H : List ℕ) (n : ℕ) : X ≤ H ∧ H < X ++ [n] ↔ H = X ∨ ∃ m < n, ∃ t, H = X ++ m :: t := by
  induction X generalizing H with
  | nil =>
    rw [← not_lt]
    cases H with
    | nil => simp
    | cons m t => simp [cons_lt_cons_iff]
  | cons w X ih =>
    cases H with
    | nil => simp
    | cons v H =>
      rw [← not_lt, cons_append, cons_lt_cons_iff, cons_lt_cons_iff]
      by_cases hvw : v = w
      · simpa [hvw] using ih H
      · simp [hvw]

def domainIntervals : Intervals (List ℕ) (fun _ : DomainName => True) aclHostDomainCompare where
  start d := key d.core.reverse
  stop d := key d.core.reverse ++ [if d.dotted then 1 else 0]
  start_lt_stop _ := ((between_iff _ _ _).mpr (.inl rfl)).2
  neg_iff _ _ := (places_aclHostDomainCompare _ _).neg
  pos_iff _ _ := (places_aclHostDomainCompare _ _).pos

/-! ## What matches -/

lemma key_eq_map_rank (h : List UInt8) : key h = (h.map xtolower).map rank := by
  simp [key]

lemma key_reverse_inj (h d : List UInt8) : key h.reverse = key d.reverse ↔ h.map xtolower = d.map xtolower := by
  rw [key_eq_map_rank, key_eq_map_rank, (map_injective_iff.mpr rank_injective).eq_iff, map_reverse,
    map_reverse, reverse_inj]

lemma key_eq_append_zero_iff (h d : List UInt8) : (∃ t, key h.reverse = key d.reverse ++ 0 :: t) ↔
    dot :: d.map xtolower <:+ h.map xtolower := by
  constructor
  · rintro ⟨t, ht⟩
    rw [key_eq_map_rank, key_eq_map_rank, map_eq_append_iff] at ht
    obtain ⟨l₁, l₂, hl, h₁, h₂⟩ := ht
    obtain ⟨c, rest, rfl, hc, -⟩ := map_eq_cons_iff.mp h₂
    have hdot : c = dot := rank_injective (hc.trans rfl)
    have hd := (map_injective_iff.mpr rank_injective) h₁
    refine ⟨rest.reverse, ?_⟩
    have hrev := congrArg List.reverse hl
    simp only [map_reverse, reverse_reverse] at hrev hd
    rw [hrev, hd, hdot]
    simp
  · rintro ⟨rest, hrest⟩
    refine ⟨rest.reverse.map rank, ?_⟩
    rw [key_eq_map_rank, key_eq_map_rank, map_reverse, ← hrest]
    simp
    rfl

lemma aclHostDomainCompare_eq_zero_iff (h d : DomainName) : aclHostDomainCompare h d = 0 ↔
    key h.core.reverse = key d.core.reverse ∨
    ∃ m < if d.dotted then 1 else 0, ∃ t, key h.core.reverse = key d.core.reverse ++ m :: t :=
  (domainIntervals.eq_zero_iff trivial trivial).trans (between_iff _ _ _)

lemma map_core_ne (d : DomainName) (x : List UInt8) : d.core.map xtolower ≠ dot :: x := by
  intro h
  obtain ⟨c, rest, hc, hdot, -⟩ := map_eq_cons_iff.mp h
  have hhead := d.head_core
  simp only [hc] at hhead
  exact hhead ((xtolower_eq_dot_iff c).mp hdot)

lemma matchDomainName_eq_ok_zero_iff (h d : DomainName) : matchDomainName h.bytes d.bytes = .ok 0 ↔
    (stripDots h.bytes).map xtolower = d.bytes.map xtolower ∨ ∃ x, d.bytes.map xtolower = dot :: x ∧
      ((stripDots h.bytes).map xtolower = x ∨ dot :: x <:+ (stripDots h.bytes).map xtolower) := by
  have hzero : matchDomainName h.bytes d.bytes = .ok 0 ↔ aclHostDomainCompare h d = 0 := by
    rw [matchDomainName_eq_ok, ok.injEq]
  have hcore : stripDots h.bytes = h.core := rfl
  rw [hzero, aclHostDomainCompare_eq_zero_iff, key_reverse_inj, d.bytes_eq, hcore]
  by_cases hdott : d.dotted
  · -- the host never begins with a dot
    have hpla := map_core_ne h (d.core.map xtolower)
    have hdot : xtolower dot = dot := (xtolower_eq_dot_iff dot).mpr rfl
    simp only [hdott, if_true, map_cons, hdot, hpla, false_or, List.cons.injEq, true_and]
    simp [key_eq_append_zero_iff]
  · have hpla := map_core_ne d
    simp [hdott, hpla]

/-! ## The tree over its operations -/

def DomainOp.treeOp : DomainOp → List (TreeOp DomainName)
  | insert t => [.insert t]
  | lookup none => []
  | lookup (some host) => [.search host]

lemma aclDomainCompare_eq : aclDomainCompare = compareBoth aclHostDomainCompare := by
  funext a b
  simp only [aclDomainCompare, compareBoth, ne_eq]
  split_ifs with h
  · exact h
  · rfl

lemma domainRun_eq_run (ops : List DomainOp) :
    domainRun ops = run aclHostDomainCompare (ops.flatMap DomainOp.treeOp) := by
  have hstep : ∀ (top : SplayNode DomainName) (op : DomainOp),
      op.apply top = op.treeOp.foldl (TreeOp.apply aclHostDomainCompare) top := by
    intro top op
    match op with
    | .insert t => simp [DomainOp.apply, aclInsertDomain, aclDomainCompare_eq, DomainOp.treeOp, TreeOp.apply]
    | .lookup none => rfl
    | .lookup (some host) => rfl
  rw [domainRun, run, foldl_flatMap]
  congr 1
  funext top op
  exact hstep top op

def DomainsMatch (d e : DomainName) : Prop :=
  matchDomainName d.bytes e.bytes = .ok 0 ∨ matchDomainName e.bytes d.bytes = .ok 0

instance : DecidableRel DomainsMatch := fun _ _ => inferInstanceAs (Decidable (_ ∨ _))

/-- The domains that neither match a domain kept before nor are matched by one. -/
def domainKept (ops : List DomainOp) : List DomainName := kept DomainsMatch (ops.flatMap DomainOp.treeOp)

theorem domainRun_kept_found : (∀ h d : DomainName, matchDomainName h.bytes d.bytes = .ok 0 ↔
      (stripDots h.bytes).map xtolower = d.bytes.map xtolower ∨ ∃ x, d.bytes.map xtolower = dot :: x ∧
        ((stripDots h.bytes).map xtolower = x ∨ dot :: x <:+ (stripDots h.bytes).map xtolower)) ∧
    ∀ ops, (domainRun ops).toList.Perm (domainKept ops) ∧ ∀ h, (aclMatchDomainList (domainRun ops) (some h)).2 = true ↔
        ∃ d ∈ domainKept ops, matchDomainName h.bytes d.bytes = .ok 0 := by
  refine ⟨matchDomainName_eq_ok_zero_iff, fun ops => ?_⟩
  have hmat : ∀ x y : DomainName, True → True →
      (DomainsMatch x y ↔ aclHostDomainCompare x y = 0 ∨ aclHostDomainCompare y x = 0) := by
    intro x y _ _
    simp [DomainsMatch, matchDomainName_eq_ok]
  rw [domainRun_eq_run]
  refine ⟨(domainIntervals.ordered_run hmat fun _ _ => trivial).2, fun h => ?_⟩
  have hfou : (splaySplay (aclHostDomainCompare h) (run aclHostDomainCompare (ops.flatMap DomainOp.treeOp))).2 = 0 ↔
      ∃ d ∈ kept DomainsMatch (ops.flatMap DomainOp.treeOp), aclHostDomainCompare h d = 0 :=
    domainIntervals.search_run hmat (fun _ _ => trivial) trivial
  simp only [matchDomainName_eq_ok, ok.injEq, domainKept, ← hfou]
  exact decide_eq_true_iff

end SquidVideoCache.Acl
