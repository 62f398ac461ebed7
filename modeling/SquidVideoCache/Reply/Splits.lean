import SquidVideoCache.Reply.Decoder

/-!
# What depends on the splits of a stream

Lines are collected with string functions, so that a NUL ends what was copied at once but not what
is appended to it. And the loop of `httpAppendBody` goes on after the end of the trailer.
-/

namespace SquidVideoCache.Reply
open Lib List

/-! ## Bytes after the end -/

namespace Decoder

/-- The bytes after the blank line that ends the trailer. -/
def excess (d : Decoder) : List UInt8 → ℕ
  | [] => 0
  | c :: text => if d.complete then text.length + 1 else (d.next c).excess text

variable {d : Decoder} {t : List UInt8}

lemma excess_of_complete (h : d.complete = true) (t : List UInt8) : d.excess t = t.length := by
  cases t with
  | nil => rfl
  | cons c t => simp [excess, h]

lemma excess_append (d : Decoder) (a b : List UInt8) : d.excess (a ++ b) = d.excess a + (d.run a).excess b := by
  induction a generalizing d with
  | nil => simp [excess, run]
  | cons c a ih =>
    cases hd : d.complete with
    | true =>
      rw [excess_of_complete hd, excess_of_complete hd, excess_of_complete (run_complete hd _), length_append]
    | false =>
      rw [cons_append, excess, excess, hd]
      exact ih _

lemma excess_of_open (h : (d.run t).complete = false) : d.excess t = 0 := by
  induction t generalizing d with
  | nil => rfl
  | cons c t ih =>
    rw [excess, open_of_run h]
    exact ih h

end Decoder

/-! ## The verdict on a stream -/

inductive Verdict where
  | accepted
  | rejected
  /-- more data is waited for -/
  | waiting
  deriving DecidableEq

/-- Successive calls until the reply is complete or given up: the verdict, and the body that has been appended. -/
def outcome (s : HttpState) : List (List UInt8) → Verdict × List UInt8
  | [] => (.waiting, s.body)
  | piece :: pieces =>
    match httpAppendBody s piece with
    | .error _ => (.rejected, appended piece.length s piece)
    | .ok (s, _, true) => (.accepted, s.body)
    | .ok (s, _, false) => outcome s pieces

def Decoder.outcome (d : Decoder) : Verdict × List UInt8 :=
  (if d.rejected then .rejected else if d.complete then .accepted else .waiting, d.data)

lemma Follows.outcome {s : HttpState} {d : Decoder} {pieces : List (List UInt8)} (h : Follows s d) (hopen : d.complete = false)
    (hleg : d.legible pieces.flatten = true) (hexc : d.excess pieces.flatten = 0) :
    Reply.outcome s pieces = (d.run pieces.flatten).outcome := by
  induction pieces generalizing s d with
  | nil => simp [Reply.outcome, Decoder.outcome, Decoder.run, h.accepted, hopen, h.body]
  | cons piece pieces ih =>
    rw [flatten_cons, Decoder.legible_append, Bool.and_eq_true] at hleg
    rw [flatten_cons, Decoder.excess_append, Nat.add_eq_zero_iff] at hexc
    rw [flatten_cons, Decoder.run_append, Reply.outcome]
    have hcall := h.httpAppendBody hleg.1 hopen
    rcases hbody : Reply.httpAppendBody s piece with e | ⟨s', rest, complete⟩
    · have hrej := hcall.error_of_eq hbody
      simp [Decoder.run_of_rejected hrej, Decoder.outcome, hrej, (h.loop hleg.1 le_rfl).2]
    · obtain ⟨hfol, -, rfl⟩ := hcall.ok_of_eq hbody
      cases hcmp : (d.run piece).complete with
      | false => exact ih hfol hcmp hleg.2 hexc.2
      | true =>
        -- nothing comes after the end
        rw [Decoder.excess_of_complete hcmp, length_eq_zero_iff] at hexc
        rw [hexc.2, Decoder.run]
        simp [Decoder.outcome, hfol.accepted, hcmp, hfol.body]

/-- Of a stream with no NUL that matters and nothing after its end, the splits do not matter. -/
theorem outcome_eq_of_flatten_eq {pieces pieces' : List (List UInt8)} (hsplit : pieces.flatten = pieces'.flatten)
    (hlegible : ({} : Decoder).legible pieces.flatten = true) (hexcess : ({} : Decoder).excess pieces.flatten = 0) :
    outcome { chunked := true } pieces = outcome { chunked := true } pieces' := by
  rw [follows_init.outcome rfl hlegible hexcess]
  rw [hsplit] at hlegible hexcess ⊢
  rw [follows_init.outcome rfl hlegible hexcess]

/-- A chunk of two bytes, one of them a NUL, cut in its size line and in its data. -/
theorem outcome_nulData : outcome { chunked := true } [[50, 13], [10, 0], [7, 13, 10, 48, 10, 10]] = (.accepted, [0, 7]) ∧
    outcome { chunked := true } [[50, 13], [10, 0], [7, 13, 10, 48, 10, 10]] =
      outcome { chunked := true } [[50, 13, 10, 0, 7, 13, 10, 48, 10, 10]] :=
  ⟨by decide +kernel, outcome_eq_of_flatten_eq rfl (by decide +kernel) (by decide +kernel)⟩

/-- A size line with a NUL behind the digit: the newline is appended to the digit if it comes later. -/
theorem outcome_nulLine_ne : outcome { chunked := true } [[49, 0], [10, 65]] = (.waiting, [65]) ∧
    outcome { chunked := true } [[49, 0, 10, 65]] = (.rejected, []) := by decide +kernel

/-! ## The connection -/

/-- After reads that do not come to the end, a connection is kept only if nothing was read after the end, unless what was
read there makes the reply fail or more is found when the connection is looked at. -/
theorem keptAlive_excess_iff {pieces : List (List UInt8)} {buf : List UInt8}
    (hlegible : ({} : Decoder).legible (pieces.flatten ++ buf) = true)
    (hopen : (({} : Decoder).run pieces.flatten).complete = false)
    (haccepted : (({} : Decoder).run pieces.flatten).rejected = false) (peek : Peek) :
    ∃ s, appendPieces { chunked := true } pieces = .ok (s, replicate pieces.length ([], false)) ∧
      ((keptAlive s buf peek = true → ({} : Decoder).excess (pieces.flatten ++ buf) = 0) ↔
        ({} : Decoder).excess (pieces.flatten ++ buf) = 0 ∨ (({} : Decoder).run (pieces.flatten ++ buf)).rejected = true ∨
          peek = .closed ∨ peek = .bytes) := by
  rw [Decoder.legible_append, Bool.and_eq_true] at hlegible
  obtain ⟨s, hcal, hfol⟩ := follows_init.appendPieces hlegible.1 hopen haccepted
  refine ⟨s, hcal, ?_⟩
  have hcall := hfol.httpAppendBody hlegible.2 hopen
  rw [← Decoder.run_append] at hcall
  unfold keptAlive
  rcases hbody : httpAppendBody s buf with e | ⟨s', rest, complete⟩
  · simp [hcall.error_of_eq hbody]
  · obtain ⟨hfol', rfl, rfl⟩ := hcall.ok_of_eq hbody
    cases hcmp : (({} : Decoder).run (pieces.flatten ++ buf)).complete with
    | false => simp [Decoder.excess_of_open hcmp]
    | true =>
      have hsize : s'.chunkSize = 0 := by
        rw [hfol'.size, hfol'.chunks (hfol'.complete hcmp)]
        rfl
      cases peek
      all_goals simp [hsize, hfol.eof, hfol'.accepted]

/-- The body ends with the second read. -/
theorem keptAlive_emptyBody : ∃ s, appendPieces { chunked := true } [[48, 10]] = .ok (s, [([], false)]) ∧
    (keptAlive s [10] .nothing = true → ({} : Decoder).excess [48, 10, 10] = 0) := by
  obtain ⟨s, hcal, hiff⟩ := @keptAlive_excess_iff [[48, 10]] [10] (by decide +kernel) (by decide +kernel)
    (by decide +kernel) _
  exact ⟨s, hcal, hiff.mpr (.inl (by decide +kernel))⟩

/-- A byte after the end comes with it. -/
theorem keptAlive_excessByte : keptAlive { chunked := true } [48, 13, 10, 13, 10, 88] .nothing = true ∧
    ({} : Decoder).excess [48, 13, 10, 13, 10, 88] = 1 := by decide +kernel

end SquidVideoCache.Reply
