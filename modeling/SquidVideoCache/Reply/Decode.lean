import SquidVideoCache.Reply.Decoder

/-!
# Chunked bodies are decoded, however they arrive

A chunked body is written from its chunks, its last line and its trailer.
-/

namespace SquidVideoCache.Reply
open Lib List

/-! ## Chunked bodies -/

def crlf : List UInt8 := [cr, newline]

/-- The line in front of a chunk: its size, and perhaps an extension. -/
structure SizeLine where
  digits : List UInt8
  blanks : List UInt8 := []
  ext : List UInt8 := []
  digits_ne : digits ≠ []
  hex : ∀ c ∈ digits, digitValue c < 16
  fits : (numeral 16 digits : ℤ) ≤ maxOff
  blank : ∀ c ∈ blanks, c = 32 ∨ c = 9
  ext_first : ∀ c ∈ ext.head?, c = 59
  ext_line : newline ∉ ext
  ext_nulFree : 0 ∉ ext

def SizeLine.size (l : SizeLine) : ℕ := numeral 16 l.digits

def SizeLine.text (l : SizeLine) : List UInt8 := l.digits ++ (l.blanks ++ l.ext)

structure Chunk where
  line : SizeLine
  data : List UInt8
  length_data : data.length = line.size
  data_ne : data ≠ []

def Chunk.text (c : Chunk) : List UInt8 := c.line.text ++ crlf ++ c.data ++ crlf

/-- A line of the trailer. It begins neither with a CR nor with a NUL. -/
structure TrailerLine where
  text : List UInt8
  line : newline ∉ text
  first : ∃ c, text.head? = some c ∧ c ≠ cr ∧ c ≠ 0

def trailerText (lines : List TrailerLine) : List UInt8 := lines.flatMap (·.text ++ crlf) ++ crlf

structure ChunkedBody where
  chunks : List Chunk
  last : SizeLine
  size_last : last.size = 0
  trailer : List TrailerLine

namespace ChunkedBody

def text (b : ChunkedBody) : List UInt8 := b.chunks.flatMap Chunk.text ++ b.last.text ++ crlf ++ trailerText b.trailer

def data (b : ChunkedBody) : List UInt8 := b.chunks.flatMap (·.data)

def lines (b : ChunkedBody) : List SizeLine := b.chunks.map (·.line) ++ [b.last]

/-- The bound of the decoder on a line and the line end before it, which the first line
and the lines of the trailer do not have. -/
structure Short (b : ChunkedBody) : Prop where
  first : ∀ l ∈ b.lines.head?, l.text.length + 2 ≤ 256
  later : ∀ l ∈ b.lines.tail, l.text.length + 4 ≤ 256
  trailer : ∀ t ∈ b.trailer, t.text.length + 2 ≤ 256

end ChunkedBody

/-! ## The header of a chunk -/

section SizeLine

variable (l : SizeLine)

lemma SizeLine.head_rest {c : UInt8} (hc : c ∈ (l.blanks ++ (l.ext ++ crlf)).head?) :
    c = 32 ∨ c = 9 ∨ c = 59 ∨ c = cr := by
  rcases hb : l.blanks with _ | ⟨b, blanks⟩
  · rcases he : l.ext with _ | ⟨e, ext⟩
    · simp [hb, he, crlf] at hc
      tauto
    · have := l.ext_first e (by simp [he])
      simp [hb, he] at hc
      rw [← hc]
      tauto
  · have := l.blank b (by simp [hb])
    simp [hb] at hc
    rw [← hc]
    tauto

lemma SizeLine.strtoll_eq {lead : List UInt8} (hlead : ∀ c ∈ lead, isSpace c) :
    strtoll 16 (lead ++ (l.digits ++ (l.blanks ++ (l.ext ++ crlf)))) =
      ⟨l.size, lead.length + l.digits.length, false⟩ := by
  apply strtoll_numeral (by omega) hlead l.digits_ne l.hex
  · intro c hc
    rcases l.head_rest hc with rfl | rfl | rfl | rfl
    all_goals decide
  · apply hexMark_of_digits l.digits_ne l.hex
    intro c hc
    rcases l.head_rest hc with rfl | rfl | rfl | rfl
    all_goals decide
  · exact l.fits

lemma SizeLine.chunkHeader_eq {lead : List UInt8} (hlead : ∀ c ∈ lead, isSpace c) :
    chunkHeader (lead ++ (l.text ++ crlf)) = some ((l.size : ℤ), false) := by
  have htext : lead ++ (l.text ++ crlf) = lead ++ (l.digits ++ (l.blanks ++ (l.ext ++ crlf))) := by
    simp [text]
  have hused : (lead ++ (l.digits ++ (l.blanks ++ (l.ext ++ crlf)))).drop (lead.length + l.digits.length) =
      l.blanks ++ (l.ext ++ crlf) := by
    rw [← append_assoc, drop_left' (by simp)]
  have hrest : ((l.blanks ++ (l.ext ++ crlf)).dropWhile fun c => c = cr || c = 32 || c = 9).head? = some newline ∨
      ((l.blanks ++ (l.ext ++ crlf)).dropWhile fun c => c = cr || c = 32 || c = 9).head? = some 59 := by
    rw [dropWhile_append_of_pos (by intro c hc; have := l.blank c hc; simp; tauto)]
    rcases he : l.ext with _ | ⟨e, ext⟩
    · decide
    · obtain rfl := l.ext_first e (by simp [he])
      simp [cr]
  simp only [chunkHeader, htext, l.strtoll_eq hlead, hused]
  rw [if_neg]
  · simp [l.digits_ne]
  · rintro (h | h | h)
    · omega
    · simp at h
    · tauto

lemma SizeLine.newline_notMem : newline ∉ l.text := by
  simp only [text, mem_append, not_or]
  refine ⟨fun h => ?_, fun h => ?_, l.ext_line⟩
  · exact absurd (l.hex _ h) (by decide)
  · exact absurd (l.blank _ h) (by decide)

lemma SizeLine.nul_notMem : 0 ∉ l.text := by
  simp only [text, mem_append, not_or]
  refine ⟨fun h => ?_, fun h => ?_, l.ext_nulFree⟩
  · exact absurd (l.hex _ h) (by decide)
  · exact absurd (l.blank _ h) (by decide)

end SizeLine

/-! ## What the decoder reads -/

def Reads (d : Decoder) (text : List UInt8) (d' : Decoder) : Prop := d.legible text = true ∧ d.run text = d'

lemma Reads.append {d d' d'' : Decoder} {a b : List UInt8} (ha : Reads d a d') (hb : Reads d' b d'') : Reads d (a ++ b) d'' := by
  obtain ⟨hleg, rfl⟩ := ha
  exact ⟨by rw [Decoder.legible_append, hleg, hb.1]; rfl, by rw [Decoder.run_append, hb.2]⟩

section
variable {d : Decoder} {lead data : List UInt8}

lemma reads_line {l : List UInt8} (hr : d.rejected = false) (hleft : d.left = 0) (hl : newline ∉ l)
    (hsho : d.line.length + l.length < 256) (hleg : { d with line := d.line ++ l }.lineLegible = true) :
    Reads d (l ++ [newline]) { d with line := d.line ++ (l ++ [newline]) }.endLine := by
  obtain ⟨hrun, hopen⟩ := Decoder.run_open hr hleft hl hsho.le
  refine ⟨?_, by rw [Decoder.run_line hr hleft hl hsho, if_pos rfl]⟩
  rw [Decoder.legible_append, hopen, hrun]
  simp [Decoder.legible, hleg]

lemma cr_ne_newline : newline ≠ cr := by decide

lemma reads_sizeLine (l : SizeLine) (hlead : lead = [] ∨ lead = crlf) (hsho : lead.length + l.text.length + 2 ≤ 256) :
    Reads { line := lead, data } (l.text ++ crlf) { left := l.size, trailer := l.size = 0, data } := by
  have hspa : ∀ c ∈ lead, isSpace c := by
    rcases hlead with rfl | rfl
    · simp
    · decide +kernel
  have hcle : 0 ∉ lead ++ (l.text ++ [cr]) := by
    have hnul : (0 : UInt8) ∉ crlf := by decide
    rcases hlead with rfl | rfl
    · simp [l.nul_notMem, cr]
    · simp [l.nul_notMem, hnul, cr]
  have hread := reads_line (d := { line := lead, data }) (l := l.text ++ [cr]) rfl rfl (by simp [l.newline_notMem, cr_ne_newline])
    (by simp only [length_append, length_singleton]; omega) (by simp [Decoder.lineLegible, hcle])
  have htext : l.text ++ [cr] ++ [newline] = l.text ++ crlf := by simp [crlf]
  rw [htext] at hread
  simpa [Decoder.endLine, l.chunkHeader_eq hspa] using hread

lemma reads_chunk (c : Chunk) (hlead : lead = [] ∨ lead = crlf) (hsho : lead.length + c.line.text.length + 2 ≤ 256) :
    Reads { line := lead, data } c.text { line := crlf, data := data ++ c.data } := by
  have hpos : c.line.size ≠ 0 := by
    rw [← c.length_data]
    simp [c.data_ne]
  have hdata : Reads { left := c.line.size, trailer := c.line.size = 0, data } c.data { data := data ++ c.data } := by
    obtain ⟨hrun, hleg⟩ := Decoder.run_data (d := { left := c.line.size, trailer := c.line.size = 0, data }) rfl c.length_data.le
    exact ⟨hleg, by rw [hrun]; simp [c.length_data, hpos]⟩
  have hend : Reads { data := data ++ c.data } ([cr] ++ [newline]) { line := crlf, data := data ++ c.data } := by
    have hread := reads_line (d := { data := data ++ c.data }) (l := [cr]) rfl rfl (by decide) (by simp) (by simp [Decoder.lineLegible, cr])
    exact hread
  exact ((reads_sizeLine c.line hlead hsho).append hdata).append hend

/-- All chunks. The line end after a chunk stays in front of the next line. -/
theorem reads_chunks {b : ChunkedBody} (hlead : lead = [] ∨ lead = crlf)
    (hfir : ∀ l ∈ b.lines.head?, lead.length + l.text.length + 2 ≤ 256) (hlat : ∀ l ∈ b.lines.tail, l.text.length + 4 ≤ 256) :
    Reads { line := lead, data } (b.chunks.flatMap Chunk.text ++ b.last.text ++ crlf) { trailer := true, data := data ++ b.data } := by
  obtain ⟨chunks, last, hlast, trailer⟩ := b
  induction chunks generalizing lead data with
  | nil =>
    simpa [hlast, ChunkedBody.data] using reads_sizeLine last hlead (hfir last (by simp [ChunkedBody.lines]))
  | cons c chunks ih =>
    have hchu : Reads { line := lead, data } c.text _ := reads_chunk c hlead (hfir c.line (by simp [ChunkedBody.lines]))
    have hrest := hchu.append (ih (.inr rfl) (fun l hl => ?_) (fun l hl => ?_))
    · simpa [ChunkedBody.data] using hrest
    · have := hlat l (mem_of_mem_head? hl)
      simp only [crlf, length_cons, length_nil]
      omega
    · exact hlat l (mem_of_mem_tail hl)

lemma reads_trailerLines {lines : List TrailerLine} (hsho : ∀ t ∈ lines, t.text.length + 2 ≤ 256) :
    Reads { trailer := true, data } (lines.flatMap (·.text ++ crlf)) { trailer := true, data } := by
  induction lines with
  | nil => exact ⟨rfl, rfl⟩
  | cons t lines ih =>
    obtain ⟨hline, hsho⟩ := forall_mem_cons.mp hsho
    obtain ⟨c, hc, hcr, hnul⟩ := t.first
    have hne : c ≠ newline := by
      rintro rfl
      exact t.line (mem_of_mem_head? hc)
    have hread := reads_line (d := { trailer := true, data }) (l := t.text ++ [cr]) rfl rfl (by simp [t.line, cr_ne_newline])
      (by simp only [length_append, length_singleton, length_nil]; omega)
      (by simp [Decoder.lineLegible, hc, hcr, hnul])
    obtain ⟨more, hmore⟩ := head?_eq_some_iff.mp hc
    have hread' : Reads { trailer := true, data } (t.text ++ crlf) { trailer := true, data } := by
      simpa [Decoder.endLine, hmore, hcr, hne, crlf] using hread
    exact hread'.append (ih hsho)

lemma ChunkedBody.reads (b : ChunkedBody) (hsho : b.Short) : ∃ front, b.text = front ++ [newline] ∧
    Reads {} front { trailer := true, line := [cr], data := b.data } ∧
    Reads {} b.text { trailer := true, data := b.data, complete := true } := by
  have hfir : ∀ l ∈ b.lines.head?, ([] : List UInt8).length + l.text.length + 2 ≤ 256 := by simpa using hsho.first
  have hlines : Reads {} _ { trailer := true, data := [] ++ b.data } :=
    (reads_chunks (.inl rfl) hfir hsho.later).append (reads_trailerLines hsho.trailer)
  have hcr : Reads { trailer := true, data := [] ++ b.data } [cr] { trailer := true, line := [cr], data := b.data } := ⟨rfl, rfl⟩
  have hend : Reads { trailer := true, line := [cr], data := b.data } [newline]
      { trailer := true, data := b.data, complete := true } := ⟨rfl, rfl⟩
  have hfro := hlines.append hcr
  have htext : b.text = (b.chunks.flatMap Chunk.text ++ b.last.text ++ crlf ++ b.trailer.flatMap (·.text ++ crlf) ++ [cr]) ++ [newline] := by
    simp [text, trailerText, crlf]
  exact ⟨_, htext, hfro, by rw [htext]; exact hfro.append hend⟩

end

/-! ## Calls -/

lemma appendPieces_concat {s s' s'' : HttpState} {pieces : List (List UInt8)} {piece : List UInt8} {results : List (List UInt8 × Bool)}
    {r : List UInt8 × Bool} (h : appendPieces s pieces = .ok (s', results)) (hlast : httpAppendBody s' piece = .ok (s'', r)) :
    appendPieces s (pieces ++ [piece]) = .ok (s'', results ++ [r]) := by
  induction pieces generalizing s results with
  | nil =>
    obtain ⟨rfl, rfl⟩ := Prod.mk.inj (Except.ok.inj h)
    simp [appendPieces, hlast]
  | cons p pieces ih =>
    obtain ⟨⟨s₁, r₁⟩, hcall, h⟩ := bind_eq_ok.mp h
    obtain ⟨⟨s₂, results'⟩, hcal, heq⟩ := bind_eq_ok.mp h
    obtain ⟨rfl, rfl⟩ := Prod.mk.inj (Except.ok.inj heq)
    simp [appendPieces, hcall, ih hcal]

/-- However a chunked body is split into calls, its data is appended and the last call finds it complete. -/
theorem appendPieces_chunked (b : ChunkedBody) (hshort : b.Short) {pieces : List (List UInt8)}
    (hsplit : pieces.flatten = b.text) (hpieces : ∀ p ∈ pieces, p ≠ []) : ∃ s, appendPieces { chunked := true } pieces =
        .ok (s, List.replicate (pieces.length - 1) ([], false) ++ [([], true)]) ∧ s.body = b.data := by
  obtain ⟨front, htext, hfro, hleg, hrun⟩ := b.reads hshort
  have hne : pieces ≠ [] := by
    rintro rfl
    simp [htext] at hsplit
  obtain ⟨init, last, rfl⟩ := (eq_nil_or_concat' pieces).resolve_left hne
  obtain ⟨l, c, rfl⟩ := (eq_nil_or_concat' last).resolve_left (hpieces last (by simp))
  rw [flatten_append, flatten_singleton] at hsplit
  -- the last byte is in the last piece
  rw [htext, ← append_assoc] at hsplit
  obtain ⟨rfl, hc⟩ := append_inj' hsplit rfl
  rw [htext, ← hc, append_assoc, Decoder.legible_append, Bool.and_eq_true] at hleg
  rw [htext, ← hc, append_assoc, Decoder.run_append] at hrun
  have hopen : (({} : Decoder).run init.flatten).complete = false :=
    Decoder.open_of_run (by rw [← Decoder.run_append, hfro.2])
  have hacc : (({} : Decoder).run init.flatten).rejected = false := by
    by_contra hrej
    rw [Decoder.run_of_rejected (by simpa using hrej)] at hrun
    simp [hrun] at hrej
  obtain ⟨s, hcal, hfol⟩ := follows_init.appendPieces hleg.1 hopen hacc
  have hcall := hfol.httpAppendBody hleg.2 hopen
  rw [hrun] at hcall
  rcases hbody : httpAppendBody s (l ++ [c]) with e | ⟨s', rest, complete⟩
  · exact absurd (hcall.error_of_eq hbody) (by simp)
  · obtain ⟨hfol', rfl, rfl⟩ := hcall.ok_of_eq hbody
    exact ⟨s', by simpa using appendPieces_concat hcal hbody, hfol'.body⟩

def smallBody : ChunkedBody where
  chunks := [⟨⟨[51], [], [59, 120], by decide, by simp [digitValue], by decide, by simp, by simp, by decide, by decide⟩,
    [97, 98, 99], by decide, by decide⟩]
  last := ⟨[48], [32], [], by decide, by simp [digitValue], by decide, by simp, by simp, by decide, by decide⟩
  size_last := by decide
  trailer := [⟨[97, 58, 98], by decide, 97, by decide, by decide, by decide⟩]

/-- The pieces end inside a line end, the data, and the last line. -/
theorem appendPieces_smallBody : ∃ s, appendPieces { chunked := true }
        [[51, 59, 120, 13], [10, 97], [98, 99, 13, 10, 48, 32, 13, 10, 97], [58, 98, 13, 10, 13], [10]] =
        .ok (s, List.replicate 4 ([], false) ++ [([], true)]) ∧ s.body = [97, 98, 99] :=
  appendPieces_chunked smallBody ⟨by decide, by decide, by decide⟩ (by decide) (by decide)

end SquidVideoCache.Reply
