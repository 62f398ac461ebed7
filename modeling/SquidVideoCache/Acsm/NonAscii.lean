import SquidVideoCache.Acsm.Search

/-!
# Bytes outside ASCII in the text

`acsmSearch_cap` takes a byte of 128 or more for the first half of a character of two bytes. If all
patterns are ASCII, such a byte leads to state 0 and the byte behind it is skipped, whatever it is.
-/

namespace SquidVideoCache.Acsm
open Lib List

variable {acsm : AcsmStruct} {word : ℕ → List UInt8} {s : ℕ} {b c : UInt8} {text : List UInt8}

/-- Replaces every byte of 128 or more and the byte behind it, from left to right; `hidden` says that the byte before
was the first one of such a pair. -/
def maskPairs (c : UInt8) : Bool → List UInt8 → List UInt8
  | _, [] => []
  | true, _ :: text => c :: maskPairs c false text
  | false, b :: text => if b < 128 then b :: maskPairs c false text else c :: maskPairs c true text

lemma maskPairs_take (c : UInt8) (hidden : Bool) (text : List UInt8) (n : ℕ) :
    maskPairs c hidden (text.take n) = (maskPairs c hidden text).take n := by
  induction text generalizing hidden n with
  | nil => simp [maskPairs]
  | cons b text ih =>
    cases n with
    | zero => simp [maskPairs]
    | succ n =>
      cases hidden with
      | true => simp [maskPairs, ih]
      | false =>
        rw [take_succ_cons, maskPairs, maskPairs]
        split_ifs
        · rw [ih, take_succ_cons]
        · rw [ih, take_succ_cons]

/-! ## Bytes of no pattern -/

lemma nextState_of_notMem (hc : Compiled acsm word) (hs : s ≤ acsm.acsmNumState)
    (hb : ∀ p ∈ acsm.acsmPatterns, b ∉ p.patrnCap) : (acsm.acsmStateTable s).nextState b = 0 := by
  obtain ⟨hle, hword⟩ := hc.next s hs b
  have hnil : longestSuffix (prefixes acsm.acsmPatterns) (word s ++ [b]) = [] := by
    by_contra hne
    obtain ⟨v, hv, -⟩ := eq_concat_of_suffix (longestSuffix_suffix _ _) hne
    have hmem : longestSuffix (prefixes acsm.acsmPatterns) (word s ++ [b]) ∈ prefixes acsm.acsmPatterns :=
      longestSuffix_mem (Or.inl rfl) _
    rw [hv] at hmem
    obtain ⟨p, hp, hpre⟩ := hmem.resolve_left (by simp)
    exact hb p hp (hpre.subset (by simp))
  exact hc.inj _ hle 0 (Nat.zero_le _) (hword.trans (hnil.trans hc.root.symm))

section

variable (hc : Compiled acsm word) (hsolid : ∀ s, (acsm.acsmStateTable s).flag = .solid)

include hc hsolid

lemma searchLoop_of_notMem
    (hne : ∀ p ∈ acsm.acsmPatterns, p.patrnCap ≠ []) (hs : s ≤ acsm.acsmNumState) (h0 : c ≠ 0) (hlt : c < 128)
    (hnot : ∀ p ∈ acsm.acsmPatterns, c ∉ p.patrnCap) : searchLoop acsm s (c :: text) = searchLoop acsm 0 text := by
  obtain ⟨o, hsta, hbest⟩ := searchState_spec hc hsolid hne (Nat.zero_le _)
  rw [searchLoop_ascii acsm s text h0 hlt, nextState_of_notMem hc hs hnot, hsta]
  cases o with
  | none => rfl
  | some m =>
    -- nothing matches in state 0
    have hsuf := hbest.2.1
    rw [hc.root, suffix_nil] at hsuf
    exact absurd hsuf (hne m hbest.1)

/-- It goes on in state 0 two bytes behind a byte of 128 or more. -/
theorem searchLoop_nonAscii
    (hs : s ≤ acsm.acsmNumState) (h0 : b ≠ 0) (hge : ¬ b < 128) (hnot : ∀ p ∈ acsm.acsmPatterns, b ∉ p.patrnCap) :
    searchLoop acsm s (b :: text) = searchLoop acsm 0 text.tail := by
  rw [searchLoop, if_neg h0]
  simp only [if_neg hge, hsolid, nextState_of_notMem hc hs hnot]
  simp

/-- The two searches stay in the same state, up to the bytes that one of them skips. -/
theorem searchLoop_maskPairs
    (hne : ∀ p ∈ acsm.acsmPatterns, p.patrnCap ≠ []) (hasc : ∀ p ∈ acsm.acsmPatterns, ∀ b ∈ p.patrnCap, b < 128)
    (h0 : c ≠ 0) (hlt : c < 128) (hnot : ∀ p ∈ acsm.acsmPatterns, c ∉ p.patrnCap) (htext : 0 ∉ text) :
    (∀ s ≤ acsm.acsmNumState, searchLoop acsm s text = searchLoop acsm s (maskPairs c false text)) ∧
      searchLoop acsm 0 text.tail = searchLoop acsm 0 (maskPairs c true text) := by
  induction text with
  | nil => exact ⟨fun _ _ => rfl, rfl⟩
  | cons b text ih =>
    rw [mem_cons, not_or] at htext
    obtain ⟨hsame, hskip⟩ := ih htext.2
    have hb0 : b ≠ 0 := Ne.symm htext.1
    constructor
    · intro s hs
      rw [maskPairs]
      by_cases hb : b < 128
      · obtain ⟨hnext, -⟩ := hc.next s hs b
        rw [if_pos hb, searchLoop_ascii acsm s text hb0 hb, searchLoop_ascii acsm s _ hb0 hb, hsame _ hnext]
      · have hbnot : ∀ p ∈ acsm.acsmPatterns, b ∉ p.patrnCap := fun p hp hmem => hb (hasc p hp b hmem)
        rw [if_neg hb, searchLoop_nonAscii hc hsolid hs hb0 hb hbnot, searchLoop_of_notMem hc hsolid hne hs h0 hlt hnot]
        exact hskip
    · rw [maskPairs, searchLoop_of_notMem hc hsolid hne (Nat.zero_le _) h0 hlt hnot]
      exact hsame 0 (Nat.zero_le _)

end

/-! ## Compiled patterns -/

lemma compiled_of_ascii {pats : List (List UInt8 × UInt32)} (hpats : ∀ p ∈ pats, p.1 ≠ [] ∧ ∀ b ∈ p.1, b ≠ 0 ∧ b < 128)
    (hcomp : acsmCompileCap (acsmAddPatterns pats) = .ok acsm) :
    ∃ word, Compiled acsm word ∧ (∀ s, (acsm.acsmStateTable s).flag = .solid) ∧
      ∀ a ∈ acsm.acsmPatterns, ∃ p ∈ pats, a.patrnCap = upper p.1 ∧ a.patrnCap ≠ [] ∧ ∀ b ∈ a.patrnCap, b < 128 := by
  have hadd := acsmAddPatterns_acsmPatterns pats
  have hmem : ∀ a ∈ (acsmAddPatterns pats).acsmPatterns,
      ∃ p ∈ pats, a.patrnCap = upper p.1 ∧ a.patrnCap ≠ [] ∧ ∀ b ∈ a.patrnCap, b < 128 := by
    intro a ha
    rw [hadd, mem_reverse, mem_map] at ha
    obtain ⟨p, hp, rfl⟩ := ha
    refine ⟨p, hp, rfl, fun h => (hpats p hp).1 (map_eq_nil_iff.mp h), fun b hb => ?_⟩
    obtain ⟨d, hd, rfl⟩ := mem_map.mp hb
    exact xlatcase_lt ((hpats p hp).2 d hd).2
  have hfit : sizeofStateTable * (1 + ((acsmAddPatterns pats).acsmPatterns.map AcsmPattern.nCap).sum) < 2 ^ 32 := by
    by_contra hbig
    have hfau : acsmCompileCap (acsmAddPatterns pats) = .error .bounds := if_neg hbig
    rw [hfau] at hcomp
    cases hcomp
  obtain ⟨acsm', word, hcomp', hc, hpat, hflag, -⟩ := acsmCompileCap_spec _ hfit
  cases hcomp.symm.trans hcomp'
  refine ⟨word, hc, hflag fun a ha b hb => ?_, ?_⟩
  · obtain ⟨p, -, -, -, hasc⟩ := hmem a ha
    exact hasc b hb
  · rw [hpat]
    exact hmem

/-- A byte of 128 or more hides itself and the byte behind it, and nothing else: the search returns what it returns
for the text in which both are replaced by a byte of no pattern. -/
theorem acsmSearchCap_maskPairs {pats : List (List UInt8 × UInt32)}
    (hpats : ∀ p ∈ pats, p.1 ≠ [] ∧ (∀ b ∈ p.1, b ≠ 0 ∧ b < 128) ∧ p.2 ≠ 0)
    (hcompile : acsmCompileCap (acsmAddPatterns pats) = .ok acsm) (h0 : c ≠ 0) (hlt : c < 128)
    (hnot : ∀ p ∈ pats, c ∉ upper p.1) (htext : 0 ∉ text) (n : UInt32) :
    acsmSearchCap acsm text n = acsmSearchCap acsm (maskPairs c false text) n := by
  obtain ⟨word, hc, hsolid, hmem⟩ := compiled_of_ascii (fun p hp => ⟨(hpats p hp).1, (hpats p hp).2.1⟩) hcompile
  have hne : ∀ a ∈ acsm.acsmPatterns, a.patrnCap ≠ [] := by
    intro a ha
    obtain ⟨p, -, -, hne, -⟩ := hmem a ha
    exact hne
  have hasc : ∀ a ∈ acsm.acsmPatterns, ∀ b ∈ a.patrnCap, b < 128 := by
    intro a ha
    obtain ⟨p, -, -, -, hasc⟩ := hmem a ha
    exact hasc
  have hnot' : ∀ a ∈ acsm.acsmPatterns, c ∉ a.patrnCap := by
    intro a ha
    obtain ⟨p, hp, heq, -, -⟩ := hmem a ha
    rw [heq]
    exact hnot p hp
  have htake : 0 ∉ text.take n.toNat := fun h => htext (mem_of_mem_take h)
  have hloop := (searchLoop_maskPairs hc hsolid hne hasc h0 hlt hnot' htake).1 0 (Nat.zero_le _)
  unfold acsmSearchCap
  rw [hloop, maskPairs_take]

/-- The keyword `A` is found behind `B`, and not behind a byte outside ASCII. -/
theorem exists_hidden : ∃ acsm, acsmCompileCap (acsmAddPatterns [([65], 1)]) = .ok acsm ∧
    acsmSearchCap acsm [200, 65] 2 = .ok 0 ∧ acsmSearchCap acsm [66, 65] 2 = .ok 1 := by
  obtain ⟨acsm, hcomp, hfou⟩ := searchLoop_single (p := [65]) 1 (by decide) (by decide +kernel) (by decide)
  refine ⟨acsm, hcomp, ?_, ?_⟩
  · obtain ⟨word, hc, hsolid, hmem⟩ := compiled_of_ascii (by decide +kernel) hcomp
    have hnot : ∀ a ∈ acsm.acsmPatterns, 200 ∉ a.patrnCap := by
      intro a ha h
      obtain ⟨p, -, -, -, hasc⟩ := hmem a ha
      exact absurd (hasc 200 h) (by decide)
    have hrun : searchLoop acsm 0 [200, 65] = searchLoop acsm 0 [] :=
      searchLoop_nonAscii hc hsolid (Nat.zero_le _) (by decide) (by decide) hnot
    show searchLoop acsm 0 [200, 65] = .ok 0
    rw [hrun, searchLoop]
  · exact hfou [66, 65] (by decide +kernel) ⟨[66], [], rfl⟩

theorem acsmSearchCap_maskPairs_hidden : ∃ acsm, acsmCompileCap (acsmAddPatterns [([65], 1)]) = .ok acsm ∧
    acsmSearchCap acsm [200, 65] 2 = acsmSearchCap acsm [66, 66] 2 := by
  obtain ⟨acsm, hcomp, -⟩ := searchLoop_single (p := [65]) 1 (by decide) (by decide +kernel) (by decide)
  have hsame : acsmSearchCap acsm [200, 65] 2 = acsmSearchCap acsm (maskPairs 66 false [200, 65]) 2 :=
    acsmSearchCap_maskPairs (by decide +kernel) hcomp (by decide) (by decide) (by decide) (by decide) 2
  exact ⟨acsm, hcomp, hsame⟩

end SquidVideoCache.Acsm
