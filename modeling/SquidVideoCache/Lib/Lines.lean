import Mathlib.Data.List.DropRight

/-!
# Line by line reading of a text that comes in pieces

A reader has a buffer. Each piece is put behind what is left of the one before, the lines
that are complete are handled, and what follows the last newline stays. A buffer without a
newline grows up to a limit, at which the reader gives up. If no line is as long as the
limit, then the pieces do not matter (`readAll_eq`).
-/

namespace SquidVideoCache.Lib
open List

variable {σ : Type}

def newline : UInt8 := 10

/-- Handles the lines of a text, the first of which has begun with `line`; the last component is left over. -/
def eachLine (f : σ → List UInt8 → σ) : σ → List UInt8 → List UInt8 → σ × List UInt8
  | s, line, [] => (s, line)
  | s, line, c :: text =>
    if c = newline then eachLine f (f s line) [] text else eachLine f s (line ++ [c]) text

structure LineReader (σ : Type) where
  state : σ
  carry : List UInt8 := []
  bufSize : ℕ := 4096

/-- The size at which the buffer does not grow any more. -/
def maxBufSize : ℕ := 65536

/-- Reads one piece; the right result is that of a reader that gives up. -/
def LineReader.read (f : σ → List UInt8 → σ) (r : LineReader σ) (piece : List UInt8) : LineReader σ ⊕ σ :=
  let (state, carry) := eachLine f r.state [] (r.carry ++ piece)
  if carry.length = r.bufSize then
    if r.bufSize < maxBufSize then .inl ⟨state, carry, r.bufSize * 2⟩ else .inr state
  else .inl ⟨state, carry, r.bufSize⟩

/-- The state when there is nothing more to read. -/
def LineReader.readAll (f : σ → List UInt8 → σ) : LineReader σ → List (List UInt8) → σ
  | r, [] => r.state
  | r, piece :: pieces =>
    match r.read f piece with
    | .inl r => r.readAll f pieces
    | .inr state => state

variable {f : σ → List UInt8 → σ} {line text p : List UInt8}

lemma eachLine_append (s : σ) (line a b : List UInt8) : eachLine f s line (a ++ b) =
    eachLine f (eachLine f s line a).1 (eachLine f s line a).2 b := by
  induction a generalizing s line with
  | nil => rfl
  | cons c a ih =>
    simp only [cons_append, eachLine]
    split_ifs
    · exact ih _ _
    · exact ih _ _

lemma eachLine_of_notMem {l : List UInt8} (hl : newline ∉ l) (s : σ) (line : List UInt8) :
    eachLine f s line l = (s, line ++ l) := by
  induction l generalizing line with
  | nil => simp [eachLine]
  | cons c l ih =>
    rw [mem_cons, not_or] at hl
    rw [eachLine, if_neg (Ne.symm hl.1), ih hl.2]
    simp

lemma newline_notMem_rest (hline : newline ∉ line) (s : σ) (text : List UInt8) :
    newline ∉ (eachLine f s line text).2 := by
  induction text generalizing s line with
  | nil => exact hline
  | cons c text ih =>
    rw [eachLine]
    split_ifs with hc
    · exact ih (by simp) _
    · exact ih (by simp [hline, Ne.symm hc]) _

def lastLine (text : List UInt8) : List UInt8 := text.rtakeWhile (· != newline)

lemma newline_notMem_lastLine (text : List UInt8) : newline ∉ lastLine text := by
  intro h
  simpa using mem_rtakeWhile_imp h

lemma lastLine_of_notMem (h : newline ∉ text) : lastLine text = text := by
  rw [lastLine, rtakeWhile_eq_self_iff]
  intro c hc
  have hne : c ≠ newline := fun heq => h (heq ▸ hc)
  simpa using hne

lemma lastLine_newline (a b : List UInt8) : lastLine (a ++ newline :: b) = lastLine b := by
  rw [lastLine, lastLine, List.rtakeWhile, List.rtakeWhile, reverse_append, reverse_cons, append_assoc,
    takeWhile_append]
  split_ifs with hall
  · have heq : b.reverse.takeWhile (· != newline) = b.reverse := (List.takeWhile_prefix _).eq_of_length hall
    rw [heq]
    simp
  · rfl

lemma eachLine_snd (hline : newline ∉ line) (s : σ) (text : List UInt8) :
    (eachLine f s line text).2 = lastLine (line ++ text) := by
  induction text generalizing s line with
  | nil => rw [append_nil, lastLine_of_notMem hline, eachLine]
  | cons c text ih =>
    rw [eachLine]
    split_ifs with hc
    · rw [ih not_mem_nil, hc, lastLine_newline, nil_append]
    · rw [ih (by simp [hline, Ne.symm hc]), append_assoc, singleton_append]

lemma lastLine_append (a b : List UInt8) : lastLine (lastLine a ++ b) = lastLine (a ++ b) := by
  have hspl := congrArg Prod.snd (eachLine_append (f := fun (_ : Unit) (_ : List UInt8) => ()) () [] a b)
  rw [eachLine_snd (newline_notMem_rest not_mem_nil _ _), eachLine_snd not_mem_nil, eachLine_snd not_mem_nil] at hspl
  exact hspl.symm

/-- A part of the text without a newline is shorter than `n`. -/
def LinesShorter (n : ℕ) (text : List UInt8) : Prop := ∀ part, part <:+: text → newline ∉ part → part.length < n

lemma LinesShorter.lastLine_lt {n : ℕ} (h : LinesShorter n text) (hp : p <+: text) : (lastLine p).length < n :=
  h _ ((rtakeWhile_suffix _ p).isInfix.trans hp.isInfix) (newline_notMem_lastLine p)

/-- The buffer after a read that left `carry` in it. -/
def grown (bufSize : ℕ) (carry : List UInt8) : ℕ := if carry.length = bufSize then bufSize * 2 else bufSize

/-- Each piece has a byte at least and fits into the buffer behind what is left there. -/
def PiecesFit : ℕ → List UInt8 → List (List UInt8) → Prop
  | _, _, [] => True
  | bufSize, carry, piece :: pieces => piece ≠ [] ∧ carry.length + piece.length ≤ bufSize ∧
      PiecesFit (grown bufSize (lastLine (carry ++ piece))) (lastLine (carry ++ piece)) pieces

instance PiecesFit.decide : ∀ bufSize carry pieces, Decidable (PiecesFit bufSize carry pieces)
  | _, _, [] => .isTrue trivial
  | bufSize, carry, piece :: pieces =>
    have := PiecesFit.decide (grown bufSize (lastLine (carry ++ piece))) (lastLine (carry ++ piece)) pieces
    inferInstanceAs (Decidable (_ ∧ _ ∧ _))

lemma LineReader.readAll_eq {pieces : List (List UInt8)} (r : LineReader σ) (hcarry : newline ∉ r.carry)
    (hsho : ∀ p, p <+: pieces.flatten → (eachLine f r.state r.carry p).2.length < maxBufSize) :
    r.readAll f pieces = (eachLine f r.state r.carry pieces.flatten).1 := by
  induction pieces generalizing r with
  | nil => rfl
  | cons piece pieces ih =>
    have hread : eachLine f r.state [] (r.carry ++ piece) = eachLine f r.state r.carry piece := by
      rw [eachLine_append, eachLine_of_notMem hcarry]
      rfl
    have hroom := hsho piece (prefix_append _ _)
    have hmore : ∀ p, p <+: pieces.flatten → (eachLine f (eachLine f r.state r.carry piece).1
        (eachLine f r.state r.carry piece).2 p).2.length < maxBufSize := by
      intro p hp
      have hmore := hsho (piece ++ p) (by simpa using hp)
      rwa [eachLine_append] at hmore
    simp only [readAll, read, hread, flatten_cons, eachLine_append]
    split_ifs with hfull hsma
    · exact ih _ (newline_notMem_rest hcarry _ _) hmore
    · -- a reader that gives up has a line that is too long
      omega
    · exact ih _ (newline_notMem_rest hcarry _ _) hmore

/-! ## Texts of lines -/

def unlines (lines : List (List UInt8)) : List UInt8 := lines.flatMap (· ++ [newline])

@[simp] lemma unlines_append (a b : List (List UInt8)) : unlines (a ++ b) = unlines a ++ unlines b := by
  simp [unlines]

lemma unlines_cons (line : List UInt8) (lines : List (List UInt8)) :
    unlines (line :: lines) = line ++ newline :: unlines lines := by
  simp [unlines]

lemma eachLine_unlines {lines : List (List UInt8)} (hlines : ∀ l ∈ lines, newline ∉ l) {rest : List UInt8}
    (hrest : newline ∉ rest) (s : σ) : eachLine f s [] (unlines lines ++ rest) = (lines.foldl f s, rest) := by
  induction lines generalizing s with
  | nil => simp [unlines, eachLine_of_notMem hrest]
  | cons line lines ih =>
    obtain ⟨hline, hlines⟩ := forall_mem_cons.mp hlines
    rw [unlines_cons, append_assoc, eachLine_append, eachLine_of_notMem hline, cons_append, eachLine,
      ih hlines]
    simp

lemma exists_unlines_of_prefix {lines : List (List UInt8)} (hp : p <+: unlines lines) :
    ∃ begun rest, begun <+: lines ∧ p = unlines begun ++ rest ∧ (rest = [] ∨ ∃ l ∈ lines, rest <+: l) := by
  induction lines generalizing p with
  | nil => exact ⟨[], [], prefix_rfl, by simpa [unlines] using hp, .inl rfl⟩
  | cons line lines ih =>
    rw [unlines_cons] at hp
    rcases prefix_or_prefix_of_prefix hp (prefix_append line _) with hsho | ⟨q, rfl⟩
    · exact ⟨[], p, nil_prefix, rfl, .inr ⟨line, mem_cons_self, hsho⟩⟩
    · cases q with
      | nil => exact ⟨[], line, nil_prefix, by simp [unlines], .inr ⟨line, mem_cons_self, prefix_rfl⟩⟩
      | cons c q =>
        -- the newline is there, so the line is complete
        obtain ⟨rfl, hq⟩ := cons_prefix_cons.mp ((prefix_append_right_inj line).mp hp)
        obtain ⟨begun, rest, hbeg, rfl, hrest⟩ := ih hq
        refine ⟨line :: begun, rest, cons_prefix_cons.mpr ⟨rfl, hbeg⟩, by simp [unlines_cons], ?_⟩
        exact hrest.imp_right fun ⟨l, hl, hpre⟩ => ⟨l, mem_cons_of_mem _ hl, hpre⟩

section Short

variable {lines : List (List UInt8)} {pieces : List (List UInt8)} (r : LineReader σ)

section

variable (hcarry : r.carry = []) (hlines : ∀ l ∈ lines, newline ∉ l ∧ l.length < maxBufSize)

include hcarry hlines

lemma eachLine_prefix {p : List UInt8} (hp : p <+: unlines lines) :
    ∃ begun rest, begun <+: lines ∧ rest.length < maxBufSize ∧
      eachLine f r.state r.carry p = (begun.foldl f r.state, rest) := by
  obtain ⟨begun, rest, hbeg, rfl, hrest⟩ := exists_unlines_of_prefix hp
  have hpart : newline ∉ rest ∧ rest.length < maxBufSize := by
    rcases hrest with rfl | ⟨l, hl, hpre⟩
    · exact ⟨by simp, by decide⟩
    · exact ⟨fun h => (hlines l hl).1 (hpre.subset h), hpre.length_le.trans_lt (hlines l hl).2⟩
  refine ⟨begun, rest, hbeg, hpart.2, ?_⟩
  rw [hcarry, eachLine_unlines (fun l hl => (hlines l (hbeg.subset hl)).1) hpart.1]

lemma LineReader.readAll_eq_of_prefix (hpie : pieces.flatten <+: unlines lines) :
    r.readAll f pieces = (eachLine f r.state r.carry pieces.flatten).1 := by
  apply r.readAll_eq
  · simp [hcarry]
  · intro p hp
    obtain ⟨_, _, _, hlt, heq⟩ := eachLine_prefix r hcarry hlines (hp.trans hpie)
    rw [heq]
    exact hlt

lemma LineReader.readAll_prefix (hpie : pieces.flatten <+: unlines lines) :
    ∃ begun, begun <+: lines ∧ r.readAll f pieces = begun.foldl f r.state := by
  obtain ⟨begun, rest, hbeg, -, heq⟩ := eachLine_prefix r hcarry hlines hpie
  refine ⟨begun, hbeg, ?_⟩
  rw [r.readAll_eq_of_prefix hcarry hlines hpie, heq]

lemma LineReader.readAll_unlines (hpie : pieces.flatten = unlines lines) :
    r.readAll f pieces = lines.foldl f r.state := by
  have hnl : ∀ l ∈ lines, newline ∉ l := fun l hl => (hlines l hl).1
  have heach := eachLine_unlines (f := f) hnl not_mem_nil r.state
  rw [append_nil] at heach
  rw [r.readAll_eq_of_prefix hcarry hlines (hpie ▸ prefix_rfl), hcarry, hpie, heach]

end

end Short

end SquidVideoCache.Lib
