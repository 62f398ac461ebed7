import SquidVideoCache.Message.StatusLine

/-!
# Request lines and the end of the headers, HttpMsg.c and mime.c

The request line ends at the first newline, and no byte behind it is read. Offsets are those
of a buffer that an `int` can count.
-/

namespace SquidVideoCache.Message

open Lib List

structure HttpMsgBuf where
  (hStart hEnd hLen reqStart reqEnd rLen mStart mEnd mLen uStart uEnd uLen vStart vEnd vLen vMaj vMin : ℤ)
  deriving DecidableEq, Inhabited, Repr

def finish (hmsg : HttpMsgBuf) (retcode maj min : ℤ) : ℤ × HttpMsgBuf :=
  (retcode, { hmsg with vMaj := maj, vMin := min })

def accept (hmsg : HttpMsgBuf) (uEnd maj min : ℤ) : ℤ × HttpMsgBuf :=
  finish { hmsg with uEnd, uLen := uEnd - hmsg.uStart + 1 } 1 maj min

/-- From the first digit of the version to `req_end`. -/
def parseVersion (hmsg : HttpMsgBuf) (uEnd : ℤ) (word : List UInt8) : ℤ × HttpMsgBuf :=
  let maj := readDigits below65536 0 word
  if maj.2 = [] ∨ 65536 ≤ maj.1 then finish hmsg (-1) maj.1 (-1)
  else if maj.2.head? ≠ some 46 then finish hmsg 0 maj.1 (-1)
  else if maj.2.tail = [] then finish hmsg (-1) maj.1 (-1)
  else
    let min := readDigits below65536 0 maj.2.tail
    if 65536 ≤ min.1 then finish hmsg (-1) maj.1 min.1
    else
      let vEnd := hmsg.reqEnd - min.2.length
      accept { hmsg with vEnd, vLen := vEnd - hmsg.vStart + 1 } uEnd maj.1 min.1

/-- The loop for `line_end` and `last_whitespace`. -/
def scanLine (i : ℕ) (lastWhitespace : Option ℕ) : List UInt8 → ℕ × Option ℕ
  | [] => (i, lastWhitespace)
  | c :: s =>
    if c = 13 ∧ s = [] then (i, lastWhitespace)
    else scanLine (i + 1) (if c = 32 ∨ c = 9 then some i else lastWhitespace) s

/-- From the first byte of the URL to `req_end`. -/
def parseUrl (hmsg : HttpMsgBuf) (url : List UInt8) : ℤ × HttpMsgBuf :=
  match scanLine 0 none url with
  | (lineEnd, none) => accept hmsg (hmsg.uStart + lineEnd - 1) 0 9
  | (lineEnd, some lastWhitespace) =>
    let word := (url.drop lastWhitespace).dropWhile isSpace
    -- the newline is white space as well, so that the loop passes `req_end`
    if word = [] then finish hmsg (-1) (-1) (-1)
    else if word.length ≤ 5 ∨ (word.take 5).map tolower ≠ httpSlash then
      accept hmsg (hmsg.uStart + lineEnd - 1) 0 9
    else
      parseVersion { hmsg with vStart := hmsg.reqEnd - word.length } (hmsg.uStart + lastWhitespace - 1)
        (word.drop 5)

def httpMsgParseRequestLine (hmsg : HttpMsgBuf) (buf : List UInt8) : ℤ × HttpMsgBuf :=
  if 10 ∉ buf then finish hmsg 0 (-1) (-1)
  else
    let text := buf.takeWhile (· ≠ 10)
    let line := text.dropWhile isSpace
    let start : ℤ := text.length - line.length
    let gap := line.dropWhile (!isSpace ·)
    let mEnd : ℤ := text.length - gap.length - 1
    let url := gap.dropWhile isSpace
    let hmsg := { hmsg with reqEnd := text.length }
    let request := { hmsg with mStart := start, reqStart := start, rLen := text.length - start + 1 }
    let method := { request with mEnd, mLen := mEnd - start + 1 }
    if line = [] then finish hmsg 0 (-1) (-1)
    else if gap = [] then finish request (-1) (-1) (-1)
    else if url = [] then finish method (-1) (-1) (-1)
    else parseUrl { method with uStart := text.length - url.length } url

/-! ## The end of the headers -/

/-- The states 0 to 3 of both scanners. -/
inductive Scan
  | inLine | lineStart | afterCr | blankLine
  deriving DecidableEq

def Scan.next (c : UInt8) : Scan → Scan
  | inLine => if c = 10 then lineStart else inLine
  | lineStart => if c = 13 then afterCr else if c = 10 then blankLine else inLine
  | afterCr => if c = 10 then blankLine else inLine
  | blankLine => blankLine

def headersEndFrom (e : ℕ) : Scan → List UInt8 → ℕ
  | .blankLine, _ => e
  | _, [] => 0
  | state, c :: mime => headersEndFrom (e + 1) (state.next c) mime

def headersEnd (mime : List UInt8) : ℕ := headersEndFrom 0 .lineStart mime

def findFrom (e : ℕ) (he : ℤ) : Scan → List UInt8 → Option (ℕ × ℤ)
  | .blankLine, _ => some (e, he)
  | _, [] => none
  | state, c :: mime =>
    findFrom (e + 1) (if state = .inLine ∧ c = 10 then e else he) (state.next c) mime

def httpMsgFindHeadersEnd (hmsg : HttpMsgBuf) (buf : List UInt8) : ℕ × HttpMsgBuf :=
  if hmsg.vMaj = 0 ∧ hmsg.vMin = 9 then (1, hmsg)
  else
    match findFrom 0 (-1) .lineStart buf with
    | some (e, he) =>
      (e, { hmsg with hEnd := he, hStart := hmsg.reqEnd + 1, hLen := he - (hmsg.reqEnd + 1) })
    | none => (0, hmsg)

/-- What stands behind the last whole line. -/
def Scan.Tail : Scan → List UInt8 → Prop
  | inLine, _ => True
  | lineStart, tail => tail = []
  | afterCr, tail => tail = [13]
  | blankLine, tail => tail = [10] ∨ tail = [13, 10]

/-- The bytes read are whole lines up to the newline at `he`, and a tail. -/
def Stands (read : List UInt8) (he : ℤ) (state : Scan) : Prop :=
  ∃ lines tail, read = lines ++ tail ∧ (lines.length : ℤ) = he + 1 ∧ (∀ c ∈ lines.getLast?, c = 10) ∧
    state.Tail tail

variable {hmsg before : HttpMsgBuf} {buf mime read : List UInt8} {e n : ℕ} {he last : ℤ} {state : Scan}

lemma headersEndFrom_eq (e : ℕ) (he : ℤ) (state : Scan) (mime : List UInt8) :
    headersEndFrom e state mime = ((findFrom e he state mime).map Prod.fst).getD 0 := by
  induction mime generalizing e he state with
  | nil => cases state <;> rfl
  | cons c mime ih =>
    cases state with
    | blankLine => rfl
    | _ => exact ih _ _ _

lemma Stands.next (h : Stands read he state) (hsta : state ≠ .blankLine) (c : UInt8) :
    Stands (read ++ [c]) (if state = .inLine ∧ c = 10 then read.length else he) (state.next c) := by
  obtain ⟨lines, tail, rfl, hlength, hnewl, htail⟩ := h
  by_cases hend : state = .inLine ∧ c = 10
  · obtain ⟨rfl, rfl⟩ := hend
    exact ⟨lines ++ tail ++ [10], [], by simp, by simp [add_assoc], by simp, rfl⟩
  · rw [if_neg hend]
    refine ⟨lines, tail ++ [c], by simp, hlength, hnewl, ?_⟩
    cases state <;> simp only [Scan.Tail] at htail <;> simp only [Scan.next]
    case inLine => simp_all [Scan.Tail]
    case lineStart => split_ifs <;> simp_all [Scan.Tail]
    case afterCr => split_ifs <;> simp_all [Scan.Tail]
    case blankLine => exact absurd rfl hsta

lemma Stands.findFrom (h : Stands read he state)
    (hfind : findFrom read.length he state mime = some (e, last)) :
    Stands ((read ++ mime).take e) last .blankLine := by
  induction mime generalizing read he state with
  | nil =>
    cases state with
    | blankLine => cases hfind; simpa using h
    | _ => cases hfind
  | cons c mime ih =>
    by_cases hsta : state = .blankLine
    · subst hsta
      cases hfind
      simpa using h
    · have hstep := @ih _ _ _ (h.next hsta c)
      rw [append_assoc, length_append] at hstep
      apply hstep
      cases state with
      | blankLine => exact absurd rfl hsta
      | _ => exact hfind

lemma reqEnd_parseVersion (uEnd : ℤ) (word : List UInt8) :
    (parseVersion hmsg uEnd word).2.reqEnd = hmsg.reqEnd := by
  simp only [parseVersion]
  split_ifs <;> rfl

lemma reqEnd_parseUrl (url : List UInt8) : (parseUrl hmsg url).2.reqEnd = hmsg.reqEnd := by
  simp only [parseUrl]
  split
  · rfl
  · split_ifs
    · rfl
    · rfl
    · exact reqEnd_parseVersion _ _

lemma reqEnd_httpMsgParseRequestLine (before : HttpMsgBuf) (hnewl : 10 ∈ buf) :
    (httpMsgParseRequestLine before buf).2.reqEnd = (buf.takeWhile (· ≠ 10)).length := by
  rw [httpMsgParseRequestLine]
  dsimp only
  split_ifs
  · rfl
  · rfl
  · rfl
  · exact reqEnd_parseUrl _

/-- The bytes read when the loop ends are the request line, the headers and a blank line. -/
theorem Stands.headers (h : Stands (buf.take n) he .blankLine) (hfir : ∃ c ∈ buf.head?, isSpace c = false) :
    ∃ line headers blank, buf.take n = line ++ 10 :: headers ++ blank ∧ 10 ∉ line ∧
      he = line.length + headers.length ∧ (∀ c ∈ headers.getLast?, c = 10) ∧
      (blank = [10] ∨ blank = [13, 10]) := by
  obtain ⟨lines, blank, hread, hlength, hnewl, hblan⟩ := h
  obtain ⟨c, hc, hspa⟩ := hfir
  have hmem : 10 ∈ lines := by
    cases hlast : lines.getLast? with
    | some d => exact hnewl d hlast ▸ mem_of_getLast? hlast
    | none =>
      -- the first byte would be that of the blank line
      rw [getLast?_eq_none_iff.mp hlast] at hread
      have hbla : ∀ d ∈ buf.head?, isSpace d = true := by
        rw [← take_append_drop n buf, hread]
        rcases hblan with rfl | rfl <;> simp <;> decide
      exact absurd (hbla c hc) (by simp [hspa])
  obtain ⟨line, headers, rfl, hline⟩ := eq_append_cons_of_mem hmem
  refine ⟨line, headers, blank, hread, hline, ?_, fun d hd => hnewl d ?_, hblan⟩
  · simp at hlength
    omega
  · rw [getLast?_append, getLast?_cons]
    simp at hd
    simp [hd]

/-- On a request line that is accepted and is not of version 0.9 the two scanners agree, and the headers
are the lines between the request line and the blank line. -/
theorem httpMsgFindHeadersEnd_eq_headersEnd (hfirst : ∃ c ∈ buf.head?, isSpace c = false)
    (hline : httpMsgParseRequestLine before buf = (1, hmsg)) (hversion : ¬ (hmsg.vMaj = 0 ∧ hmsg.vMin = 9))
    (hn : 0 < n) :
    ((httpMsgFindHeadersEnd hmsg buf).1 = n ↔ headersEnd buf = n) ∧
    ((httpMsgFindHeadersEnd hmsg buf).1 = n → ∃ hStart hEnd : ℕ, ∃ line headers blank : List UInt8,
      (httpMsgFindHeadersEnd hmsg buf).2 = { hmsg with hStart, hEnd := hEnd, hLen := hEnd - hStart } ∧
      headers = (buf.take (hEnd + 1)).drop hStart ∧ buf.take n = line ++ 10 :: headers ++ blank ∧
      10 ∉ line ∧ hStart = line.length + 1 ∧ (∀ c ∈ headers.getLast?, c = 10) ∧
      (blank = [10] ∨ blank = [13, 10])) := by
  have hequ := headersEndFrom_eq 0 (-1) .lineStart buf
  rw [httpMsgFindHeadersEnd, if_neg hversion, headersEnd, hequ]
  cases hfind : findFrom 0 (-1) .lineStart buf with
  | none => exact ⟨by simp, fun h => absurd h (by simpa using hn.ne)⟩
  | some r =>
    obtain ⟨e, he⟩ := r
    refine ⟨by simp, fun h => ?_⟩
    obtain rfl : e = n := h
    have hstart : Stands [] (-1) .lineStart := ⟨[], [], rfl, rfl, by simp, rfl⟩
    have hstop : Stands (buf.take e) he .blankLine := hstart.findFrom hfind
    obtain ⟨line, headers, blank, hread, hnone, rfl, hrest⟩ := hstop.headers hfirst
    have hbuf : buf = line ++ 10 :: headers ++ (blank ++ buf.drop e) := by
      rw [← append_assoc, ← hread, take_append_drop]
    have hreqE : hmsg.reqEnd = line.length := by
      have hnewl : 10 ∈ buf := by rw [hbuf]; simp
      have hreq := reqEnd_httpMsgParseRequestLine before hnewl
      have htext : (line ++ 10 :: (headers ++ (blank ++ buf.drop e))).takeWhile (· ≠ 10) = line := by
        rw [takeWhile_append_of_pos, takeWhile_cons_of_neg (by decide), append_nil]
        intro c hc
        simpa using ne_of_mem_of_not_mem hc hnone
      rw [hline, hbuf, append_assoc, cons_append, htext] at hreq
      exact hreq
    refine ⟨line.length + 1, line.length + headers.length, line, headers, blank, ?_, ?_, hread, hnone, rfl, hrest⟩
    · simp [hreqE]
    · rw [hbuf, take_left' (by simp [add_assoc])]
      simp

/-- `GET / HTTP/1.0`, a field `A:1`, and an empty line. -/
def getRequest : List UInt8 :=
  [71, 69, 84, 32, 47, 32, 72, 84, 84, 80, 47, 49, 46, 48, 13, 10, 65, 58, 49, 10, 13, 10]

theorem httpMsgFindHeadersEnd_getRequest : headersEnd getRequest = 22 ∧
    (httpMsgFindHeadersEnd (httpMsgParseRequestLine default getRequest).2 getRequest).1 = 22 := by
  have hend : headersEnd getRequest = 22 := by decide +kernel
  have hline : (httpMsgParseRequestLine default getRequest).1 = 1 := by decide +kernel
  have hagr := httpMsgFindHeadersEnd_eq_headersEnd ⟨71, rfl, rfl⟩ (Prod.ext hline rfl) (by decide +kernel)
    (n := 22) (by decide)
  exact ⟨hend, hagr.1.mpr hend⟩

end SquidVideoCache.Message
