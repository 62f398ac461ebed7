import SquidVideoCache.Reply.Model

/-!
# A decoder that is given one byte at a time

`httpAppendBody` copies the beginning of a line into a `String`, whose contents end at the first
NUL. The decoder here has the line itself.
-/

namespace SquidVideoCache.Reply
open Lib List

/-! ## What a string holds -/

/-- The string has been given the bytes of `line`. It ends early where the line has a NUL. -/
structure Kept (s : Str) (line : List UInt8) : Prop where
  len : s.len = line.length
  size : s.size = s.buf.length
  room : line ≠ [] → s.len < s.size
  short : (cString s.buf).length ≤ s.len
  first : ∀ c ∈ line.head?, c ≠ 0 → (cString s.buf).head? = some c
  exact : 0 ∉ line → cString s.buf = line

lemma kept_nil : Kept {} [] := ⟨rfl, rfl, by simp, by simp [cString], by simp, by simp [cString]⟩

lemma head?_of_cString {buf : List UInt8} {c : UInt8} (h : (cString buf).head? = some c) : buf.head? = some c := by
  cases buf with
  | nil => simp [cString] at h
  | cons b buf =>
    by_cases hb : b = 0
    · simp [cString, hb] at h
    · simpa [cString, hb] using h

lemma cString_append (a b : List UInt8) (ha : 0 ∉ a) : cString (a ++ b) = a ++ cString b :=
  takeWhile_append_of_pos (ne_nul_of_mem ha)

lemma cString_replicate (n : ℕ) : cString (List.replicate n 0) = [] := by
  cases n with
  | zero => rfl
  | succ n => simp [cString]

lemma length_cString_le (a : List UInt8) (n : ℕ) : (cString (a ++ List.replicate n 0)).length ≤ a.length := by
  by_cases ha : 0 ∈ a
  · obtain ⟨x, y, rfl⟩ := append_of_mem ha
    induction x with
    | nil => simp [cString]
    | cons b x ih =>
      by_cases hb : b = 0
      · simp [cString, hb]
      · simpa [cString, hb] using ih (by simp)
  · rw [cString_append _ _ ha, cString_replicate]
    simp

section Append

variable {s : Str} {line str : List UInt8}

lemma Kept.strncat (h : Kept s line) (hfits : s.len + str.length < s.size) :
    ∃ buf, Reply.strncat s.buf str = .ok buf ∧ Kept { s with buf, len := s.len + str.length } (line ++ str) := by
  have hstr : (cString str).length ≤ str.length := (takeWhile_sublist _).length_le
  have hsize := h.size
  have hsho := h.short
  have hroom : (cString s.buf ++ cString str).length < s.buf.length := by
    rw [length_append]
    omega
  have hcle : (0 : UInt8) ∉ cString s.buf ++ cString str := by
    simp [cString_nulFree]
  refine ⟨_, if_pos hroom, ?_⟩
  refine ⟨?_, ?_, fun _ => hfits, ?_, ?_, ?_⟩
  · simp [h.len]
  · simp
    omega
  · rw [cString_append_nul hcle, length_append]
    simp only
    omega
  · intro c hc hne
    rw [cString_append_nul hcle]
    cases line with
    | nil =>
      -- nothing has been kept, so there is no memory to append to
      have h0 := h.exact (by simp)
      rw [h0]
      cases str with
      | nil => simp at hc
      | cons b str =>
        obtain rfl : b = c := by simpa using hc
        simp [cString, hne]
    | cons b line =>
      have hfir := h.first c (by simpa using hc) hne
      rw [head?_append, hfir]
      rfl
  · intro hnul
    simp only [mem_append, not_or] at hnul
    rw [cString_append_nul hcle, h.exact hnul.1, cString_of_nulFree hnul.2]

lemma take_of_kept (h : Kept s line) (hnul : 0 ∉ line) : s.buf.take s.len = line := by
  obtain ⟨t, ht⟩ : cString s.buf <+: s.buf := takeWhile_prefix _
  rw [h.exact hnul] at ht
  rw [← ht, h.len, take_left]

lemma Kept.grow (h : Kept s line) {n : ℕ} (hn : 0 < n) :
    Kept ⟨s.len + str.length + n, s.len + str.length, s.buf.take s.len ++ str ++ List.replicate n 0⟩ (line ++ str) := by
  have hlen : (s.buf.take s.len).length = s.len := by
    rw [length_take, ← h.size]
    by_cases hl : line = []
    · simp [h.len, hl]
    · have := h.room hl
      omega
  refine ⟨?_, ?_, fun _ => ?_, ?_, ?_, ?_⟩
  · simp [h.len]
  · simp [hlen, Nat.add_assoc]
  · simp only
    omega
  · have := length_cString_le (s.buf.take s.len ++ str) n
    rw [length_append, hlen] at this
    exact this
  · intro c hc hne
    have hhead : (s.buf.take s.len ++ str).head? = some c := by
      cases line with
      | nil => simpa [h.len] using hc
      | cons b line =>
        have hfir := head?_of_cString (h.first c (by simpa using hc) hne)
        rw [head?_append, head?_take, if_neg (by simp [h.len]), hfir]
        rfl
    obtain ⟨t, ht⟩ : ∃ t, s.buf.take s.len ++ str = c :: t := head?_eq_some_iff.mp hhead
    simp [ht, cString, hne]
  · intro hnul
    rw [take_of_kept h (fun hm => hnul (by simp [hm])), cString_append _ _ hnul, cString_replicate, append_nil]

lemma Kept.append (h : Kept s line) (hsho : line.length + str.length ≤ 256) :
    ∃ s', stringAppend s str = .ok s' ∧ Kept s' (line ++ str) := by
  unfold stringAppend
  split_ifs with hfits
  · obtain ⟨buf, hbuf, hkept⟩ := h.strncat hfits
    exact ⟨_, by rw [hbuf]; rfl, hkept⟩
  · have hlen := h.len
    have hmod : (s.len + str.length) % 65536 = s.len + str.length := Nat.mod_eq_of_lt (by omega)
    have hall := memAllocString_bounds (s.len + str.length + 1)
    obtain ⟨n, hn, hsize⟩ : ∃ n, 0 < n ∧ memAllocString (s.len + str.length + 1) = s.len + str.length + n :=
      ⟨memAllocString (s.len + str.length + 1) - (s.len + str.length), by omega, by omega⟩
    have hsma : s.len + str.length + n < 65536 := by omega
    refine ⟨_, ?_, h.grow hn⟩
    simp only [hmod, hsize, cAssert_pos hsma, ok_bind]
    rw [if_pos (by omega), Nat.add_sub_cancel_left]

end Append

lemma stringAppend_long {s s' : Str} {str : List UInt8} (h : stringAppend s str = .ok s') (hlong : 256 < s.len + str.length) :
    256 < s'.len := by
  unfold stringAppend at h
  split_ifs at h with hfits
  · obtain ⟨buf, -, h⟩ := bind_eq_ok.mp h
    obtain rfl := Except.ok.inj h
    exact hlong
  · obtain ⟨_, hsize, h⟩ := bind_eq_ok.mp h
    rw [cAssert_eq_ok] at hsize
    split_ifs at h with hroom
    obtain rfl := Except.ok.inj h
    -- the length has not been cut to sixteen bits
    rw [Nat.mod_eq_of_lt (by omega)]
    exact hlong

/-! ## The decoder -/

structure Decoder where
  /-- what is left of the chunk -/
  left : ℕ := 0
  trailer : Bool := false
  /-- the line so far, with the blank lines before it -/
  line : List UInt8 := []
  data : List UInt8 := []
  /-- the blank line that ends the trailer has been read -/
  complete : Bool := false
  rejected : Bool := false
  deriving DecidableEq

namespace Decoder

def endLine (d : Decoder) : Decoder :=
  if d.trailer then
    { d with line := [], complete := d.complete || decide ((d.line.dropWhile (· = cr)).head? = some newline) }
  else
    match chunkHeader d.line with
    | none => { d with rejected := true }
    | some (size, true) => { d with left := size.toNat }
    | some (size, false) => { d with left := size.toNat, trailer := size = 0, line := [] }

def next (d : Decoder) (c : UInt8) : Decoder :=
  if d.rejected then d
  else if 0 < d.left then { d with left := d.left - 1, data := d.data ++ [c] }
  else if 256 ≤ d.line.length then { d with rejected := true }
  else if c = newline then { d with line := d.line ++ [c] }.endLine
  else { d with line := d.line ++ [c] }

def run (d : Decoder) (text : List UInt8) : Decoder := text.foldl next d

/-- No NUL matters for what is made of the line: it has none, or it is a line of the trailer that is not blank. -/
def lineLegible (d : Decoder) : Bool :=
  d.complete || decide (0 ∉ d.line) || (d.trailer && d.line.head?.any fun c => c != cr && c != 0)

/-- All lines of the text that end are legible. -/
def legible (d : Decoder) : List UInt8 → Bool
  | [] => true
  | c :: text => (c != newline || d.left != 0 || d.lineLegible) && (d.next c).legible text

variable {d : Decoder} {l t : List UInt8}

lemma run_append (d : Decoder) (a b : List UInt8) : d.run (a ++ b) = (d.run a).run b := foldl_append

lemma legible_append (d : Decoder) (a b : List UInt8) : d.legible (a ++ b) = (d.legible a && (d.run a).legible b) := by
  induction a generalizing d with
  | nil => rfl
  | cons c a ih =>
    rw [cons_append, legible, legible, ih, Bool.and_assoc]
    rfl

lemma run_of_rejected (h : d.rejected = true) (t : List UInt8) : d.run t = d := by
  induction t with
  | nil => rfl
  | cons c t ih =>
    have hnext : d.next c = d := if_pos h
    rw [run, foldl_cons, hnext]
    exact ih

lemma run_data (hr : d.rejected = false) (ht : t.length ≤ d.left) :
    d.run t = { d with left := d.left - t.length, data := d.data ++ t } ∧ d.legible t = true := by
  induction t generalizing d with
  | nil => simp [run, legible]
  | cons c t ih =>
    simp only [length_cons] at ht
    have hnext : d.next c = { d with left := d.left - 1, data := d.data ++ [c] } := by
      rw [next, hr, if_neg (by simp), if_pos (by omega)]
    have hleft : d.left ≠ 0 := by omega
    obtain ⟨hrun, hleg⟩ := ih (d := d.next c) (by rw [hnext]; exact hr) (by rw [hnext]; simp only; omega)
    refine ⟨?_, by simp [legible, hleft, hleg]⟩
    show (d.next c).run t = _
    rw [hrun, hnext]
    simp [Nat.sub_sub, Nat.add_comm]

section

variable (hr : d.rejected = false) (hleft : d.left = 0) (hl : newline ∉ l)

include hr hleft hl

lemma run_open (hsho : d.line.length + l.length ≤ 256) :
    d.run l = { d with line := d.line ++ l } ∧ d.legible l = true := by
  induction l generalizing d with
  | nil => simp [run, legible]
  | cons c l ih =>
    simp only [mem_cons, not_or, length_cons] at hl hsho
    have hc : c ≠ newline := Ne.symm hl.1
    have hnext : d.next c = { d with line := d.line ++ [c] } := by
      rw [next, hr, if_neg (by simp), if_neg (by omega), if_neg (by omega), if_neg hc]
    obtain ⟨hrun, hleg⟩ := ih (d := d.next c) (by rw [hnext]; exact hr) (by rw [hnext]; exact hleft) hl.2
      (by rw [hnext, length_append, length_singleton]; omega)
    refine ⟨?_, by simp [legible, hc, hleg]⟩
    show (d.next c).run l = _
    rw [hrun, hnext]
    simp

lemma run_line (hsho : d.line.length + l.length < 256) (c : UInt8) : d.run (l ++ [c]) =
      if c = newline then { d with line := d.line ++ (l ++ [c]) }.endLine else { d with line := d.line ++ (l ++ [c]) } := by
  rw [run_append, (run_open hr hleft hl hsho.le).1, run, foldl_cons, foldl_nil, next]
  simp only [hr, hleft, length_append, append_assoc]
  rw [if_neg (by simp), if_neg (by simp), if_neg (by omega)]

lemma run_long (hd : d.line.length ≤ 256) (hlong : 256 ≤ d.line.length + l.length) (c : UInt8) :
    (d.run (l ++ [c])).rejected = true ∧ (d.run (l ++ [c])).data = d.data := by
  -- the first bytes fill the line
  obtain ⟨a, b, rfl, ha⟩ : ∃ a b, l = a ++ b ∧ d.line.length + a.length = 256 :=
    ⟨l.take _, l.drop (256 - d.line.length), (take_append_drop _ _).symm, by rw [length_take]; omega⟩
  have hrun := (run_open hr hleft (fun hmem => hl (mem_append_left b hmem)) ha.le).1
  obtain ⟨x, y, hxy⟩ : ∃ x y, b ++ [c] = x :: y := exists_cons_of_ne_nil (by simp)
  have hfull : (d.run a).next x = { d with line := d.line ++ a, rejected := true } := by
    rw [hrun, next, if_neg (by simp [hr]), if_neg (by simp [hleft]), if_pos (by simp [ha])]
  have hall : d.run (a ++ b ++ [c]) = { d with line := d.line ++ a, rejected := true } := by
    rw [append_assoc, hxy, run_append, ← hfull]
    exact run_of_rejected (by rw [hfull]) y
  exact ⟨by rw [hall], by rw [hall]⟩

end

lemma next_complete (h : d.complete = true) (c : UInt8) : (d.next c).complete = true := by
  unfold next endLine
  split_ifs
  · exact h
  · exact h
  · exact h
  · simp [h]
  · split
    · exact h
    · exact h
    · exact h
  · exact h

lemma run_complete (h : d.complete = true) (t : List UInt8) : (d.run t).complete = true := by
  induction t generalizing d with
  | nil => exact h
  | cons c t ih => exact ih (next_complete h c)

lemma open_of_run (h : (d.run t).complete = false) : d.complete = false :=
  Bool.eq_false_iff.mpr fun hd => Bool.eq_false_iff.mp h (run_complete hd t)

end Decoder

/-! ## The loop -/

lemma untilNewline_of_notMem {buf : List UInt8} (h : newline ∉ buf) : untilNewline buf = buf := by
  have hrun : buf.takeWhile (· != newline) = buf :=
    takeWhile_eq_self_iff.mpr fun c hc => by simpa using ne_of_mem_of_not_mem hc h
  simp [untilNewline, hrun]

lemma untilNewline_append {line : List UInt8} (h : newline ∉ line) (rest : List UInt8) :
    untilNewline (line ++ newline :: rest) = line ++ [newline] := by
  have hrun : (line ++ newline :: rest).takeWhile (· != newline) = line :=
    takeWhile_run (fun c hc => by simpa using ne_of_mem_of_not_mem hc h) (by simp)
  rw [untilNewline, hrun, take_length_add_append]
  simp

lemma untilNewline_eq {buf : List UInt8} (hbuf : buf ≠ []) :
    ∃ l c rest, newline ∉ l ∧ untilNewline buf = l ++ [c] ∧ buf = l ++ [c] ++ rest ∧ (c = newline ∨ rest = []) := by
  by_cases hmem : newline ∈ buf
  · obtain ⟨l, rest, rfl, hl⟩ := eq_append_cons_of_mem hmem
    exact ⟨l, newline, rest, hl, untilNewline_append hl rest, by simp, .inl rfl⟩
  · obtain ⟨l, c, rfl⟩ := (eq_nil_or_concat' buf).resolve_left hbuf
    exact ⟨l, c, [], fun hl => hmem (mem_append_left _ hl), untilNewline_of_notMem hmem, by simp, .inr rfl⟩

/-- The state of the loop is that of the decoder. -/
structure Follows (s : HttpState) (d : Decoder) : Prop where
  chunked : s.chunked = true
  eof : s.eof = false
  size : s.chunkSize = d.left
  trailer : s.trailer = d.trailer
  hdr : Kept s.chunkhdr d.line
  body : s.body = d.data
  short : d.line.length ≤ 256
  accepted : d.rejected = false
  complete : d.complete = true → d.trailer = true
  chunks : d.trailer = true → d.left = 0

lemma chunkHeader_nonneg {line : List UInt8} {size : ℤ} {blank : Bool} (h : chunkHeader line = some (size, blank)) : 0 ≤ size := by
  simp only [chunkHeader] at h
  split_ifs at h with hbad
  obtain ⟨rfl, -⟩ := Prod.mk.inj (Option.some.inj h)
  simp only [not_or, not_lt] at hbad
  exact hbad.1

section
variable {s : HttpState} {d : Decoder} {buf : List UInt8}

lemma follows_init : Follows { chunked := true } {} := ⟨rfl, rfl, rfl, rfl, kept_nil, rfl, by simp, rfl, by simp, by simp⟩

/-- What a part of the loop makes of its bytes is what the decoder makes of them. -/
def Matches (d d' : Decoder) (r : Except BadReply (HttpState × Bool)) : Prop :=
  Ends (fun _ => d'.rejected = true ∧ d'.data = d.data) (fun (s, done) => Follows s d' ∧ d'.complete = (d.complete || done)) r

/-- The end of a line. In the trailer its first byte can matter, and nothing else after a byte that is no CR. -/
theorem Follows.lineEnd (h : Follows s d) {hdr : Str} {l : List UInt8} (hkept : Kept hdr (d.line ++ (l ++ [newline])))
    (hleg : { d with line := d.line ++ l }.lineLegible = true) (hsho : (d.line ++ (l ++ [newline])).length ≤ 256) :
    Matches d { d with line := d.line ++ (l ++ [newline]) }.endLine (Reply.lineEnd s hdr) := by
  have hexa : 0 ∉ d.line ++ l → cString hdr.buf = d.line ++ (l ++ [newline]) := by
    intro hnul
    apply hkept.exact
    rw [← append_assoc, mem_append, not_or]
    exact ⟨hnul, by decide⟩
  simp only [Decoder.lineLegible, Bool.or_eq_true, decide_eq_true_eq, Bool.and_eq_true, Option.any_eq_true] at hleg
  unfold Reply.lineEnd
  by_cases ht : d.trailer = true
  · rw [if_neg (by simp [h.trailer, ht]), Decoder.endLine, if_pos ht]
    refine ⟨⟨h.chunked, h.eof, h.size, h.trailer, kept_nil, h.body, by simp, h.accepted, fun _ => ht, h.chunks⟩, ?_⟩
    rcases hleg with (hcmp | hnul) | ⟨-, c, hc, hcr, hne⟩
    · simp [hcmp]
    · rw [hexa hnul]
    · -- the first byte decides on both sides
      have hhead : (d.line ++ (l ++ [newline])).head? = some c := by
        rw [← append_assoc, head?_append, hc]
        rfl
      obtain ⟨x, hx⟩ := head?_eq_some_iff.mp hhead
      obtain ⟨y, hy⟩ := head?_eq_some_iff.mp (hkept.first c hhead (by simpa using hne))
      have hcr' : c ≠ cr := by simpa using hcr
      simp [hx, hy, hcr']
  · have hnul : 0 ∉ d.line ++ l := by
      rcases hleg with (hcmp | hnul) | ⟨htra, -⟩
      · exact absurd (h.complete hcmp) ht
      · exact hnul
      · exact absurd htra ht
    rw [if_pos (by simp [h.trailer, ht]), hexa hnul, Decoder.endLine, if_neg ht]
    cases hread : chunkHeader (d.line ++ (l ++ [newline])) with
    | none => exact ⟨rfl, rfl⟩
    | some r =>
      obtain ⟨size, blank⟩ := r
      have hsize : size = (size.toNat : ℤ) := (Int.toNat_of_nonneg (chunkHeader_nonneg hread)).symm
      cases blank with
      | true =>
        exact ⟨⟨h.chunked, h.eof, hsize, h.trailer, hkept, h.body, hsho, h.accepted, h.complete, fun ht' => absurd ht' ht⟩,
          (Bool.or_false _).symm⟩
      | false =>
        exact ⟨⟨h.chunked, h.eof, hsize, rfl, kept_nil, h.body, by simp, h.accepted, fun hc => absurd (h.complete hc) ht,
          fun hzero => by simp [of_decide_eq_true hzero]⟩, (Bool.or_false _).symm⟩

lemma Follows.step (h : Follows s d) (hbuf : buf ≠ []) (hleg : d.legible buf = true) :
    ∃ a rest, buf = a ++ rest ∧ a ≠ [] ∧ ∃ r, Matches d (d.run a) r ∧
      appendStep s buf = r.map fun (s, done) => (s, rest, done) := by
  unfold appendStep
  have hsize := h.size
  by_cases hleft : 0 < d.left
  · -- data of a chunk
    have hpos := length_pos_of_ne_nil hbuf
    set n := min buf.length d.left with hn
    have hlen : (buf.take n).length = n := length_take_of_le (by omega)
    obtain ⟨hrun, -⟩ := Decoder.run_data h.accepted (t := buf.take n) (by omega)
    refine ⟨buf.take n, buf.drop n, (take_append_drop _ _).symm, ne_nil_of_length_pos (by omega),
      .ok ({ s with chunkSize := s.chunkSize - n, body := s.body ++ buf.take n }, false), ?_, ?_⟩
    · rw [hrun]
      refine ⟨⟨h.chunked, h.eof, ?_, h.trailer, h.hdr, by rw [h.body], h.short, h.accepted, h.complete,
        fun ht => absurd (h.chunks ht) hleft.ne'⟩, (Bool.or_false _).symm⟩
      simp only
      omega
    · rw [if_pos (by omega)]
      have hnat : s.chunkSize.toNat = d.left := by omega
      simp only [hnat]
      rfl
  · have hzero : d.left = 0 := by omega
    obtain ⟨l, c, rest, hl, hunt, rfl, hc⟩ := untilNewline_eq hbuf
    rw [if_neg (by omega), if_neg (by omega)]
    refine ⟨l ++ [c], rest, rfl, by simp, ?_⟩
    simp only [hunt, drop_left]
    by_cases hsho : d.line.length + l.length < 256
    · have hfits : d.line.length + (l ++ [c]).length ≤ 256 := by simp only [length_append, length_singleton]; omega
      obtain ⟨hdr, hhdr, hkept⟩ := h.hdr.append hfits
      have hlen : ¬ hdr.len > 256 := by
        rw [hkept.len, length_append]
        omega
      simp only [hhdr]
      rw [if_neg hlen, Decoder.run_line h.accepted hzero hl hsho]
      by_cases hnewl : c = newline
      · subst hnewl
        have hline : { d with line := d.line ++ l }.lineLegible = true := by
          rw [append_assoc, Decoder.legible_append, (Decoder.run_open h.accepted hzero hl hsho.le).1, Bool.and_eq_true] at hleg
          simpa [hzero] using (Bool.and_eq_true_iff.mp hleg.2).1
        refine ⟨_, by exact h.lineEnd hkept hline (by rw [length_append]; exact hfits), ?_⟩
        rw [if_pos (by simp)]
        cases Reply.lineEnd s hdr with
        | error e => rfl
        | ok r => rfl
      · refine ⟨.ok ({ s with chunkhdr := hdr }, false), ?_, ?_⟩
        · rw [if_neg hnewl]
          exact ⟨⟨h.chunked, h.eof, h.size, h.trailer, hkept, h.body, by rw [length_append]; exact hfits, h.accepted, h.complete,
            h.chunks⟩, (Bool.or_false _).symm⟩
        · rw [if_neg (by simp [hl, Ne.symm hnewl])]
          rfl
    · -- the line is too long, if the string can hold it at all
      have hrej := Decoder.run_long h.accepted hzero hl h.short (by omega) c
      cases happ : stringAppend s.chunkhdr (l ++ [c]) with
      | error f => exact ⟨.error _, hrej, rfl⟩
      | ok hdr =>
        have hlong := stringAppend_long happ (by
          rw [h.hdr.len, length_append, length_singleton]
          omega)
        exact ⟨.error _, hrej, by simp only; rw [if_pos hlong]; rfl⟩

end

/-- The body at the end of the loop, also where the reply is given up. -/
def appended : ℕ → HttpState → List UInt8 → List UInt8
  | 0, s, _ => s.body
  | fuel + 1, s, buf =>
    if buf = [] ∨ (s.chunkSize = 0 ∧ !s.chunked) then s.body
    else
      match appendStep s buf with
      | .error _ => s.body
      | .ok (s, rest, _) => appended fuel s rest

lemma Follows.loop {s : HttpState} {d : Decoder} {buf : List UInt8} {fuel : ℕ} (h : Follows s d) (hleg : d.legible buf = true)
    (hfuel : buf.length ≤ fuel) : Ends (fun _ => (d.run buf).rejected = true)
      (fun (s, rest, complete) => Follows s (d.run buf) ∧ rest = [] ∧ complete = (d.run buf).complete)
      (appendLoop fuel s buf d.complete) ∧ appended fuel s buf = (d.run buf).data := by
  induction fuel generalizing s d buf with
  | zero =>
    obtain rfl := length_eq_zero_iff.mp (Nat.le_zero.mp hfuel)
    exact ⟨⟨h, rfl, rfl⟩, h.body⟩
  | succ fuel ih =>
    rcases eq_or_ne buf [] with rfl | hbuf
    · exact ⟨⟨h, rfl, rfl⟩, h.body⟩
    obtain ⟨a, rest, rfl, ha, r, hmat, hstep⟩ := h.step hbuf hleg
    have hgo : ¬ (a ++ rest = [] ∨ (s.chunkSize = 0 ∧ !s.chunked)) := by simp [ha, h.chunked]
    rw [appendLoop, appended, if_neg hgo, if_neg hgo, hstep, Decoder.run_append]
    cases r with
    | error e =>
      obtain ⟨hrej, hdata⟩ := hmat
      rw [Decoder.run_of_rejected hrej]
      exact ⟨hrej, h.body.trans hdata.symm⟩
    | ok r =>
      obtain ⟨s', done⟩ := r
      obtain ⟨hfol, hcmp⟩ := hmat
      have hlength := length_pos_of_ne_nil ha
      rw [length_append] at hfuel
      rw [Decoder.legible_append, Bool.and_eq_true] at hleg
      have := ih hfol hleg.2 (by omega)
      rw [hcmp] at this
      exact this

/-- One call. It ends in the state of the decoder, or the decoder rejects too. -/
theorem Follows.httpAppendBody {s : HttpState} {d : Decoder} {buf : List UInt8} (h : Follows s d) (hleg : d.legible buf = true)
    (hopen : d.complete = false) : Ends (fun _ => (d.run buf).rejected = true)
      (fun (s, rest, complete) => Follows s (d.run buf) ∧ rest = [] ∧ complete = (d.run buf).complete)
      (Reply.httpAppendBody s buf) := by
  have hloop := (h.loop hleg le_rfl).1
  rw [hopen] at hloop
  rw [Reply.httpAppendBody, if_neg (by simp [h.eof]), h.eof]
  refine hloop.bind fun (s', rest, complete) ⟨hfol, hrest, hcmp⟩ => ?_
  exact ⟨hfol, hrest, by simpa [hfol.chunked] using hcmp⟩

lemma Follows.appendPieces {s : HttpState} {d : Decoder} {pieces : List (List UInt8)} (h : Follows s d)
    (hleg : d.legible pieces.flatten = true) (hopen : (d.run pieces.flatten).complete = false)
    (hacc : (d.run pieces.flatten).rejected = false) :
    ∃ s', Reply.appendPieces s pieces = .ok (s', List.replicate pieces.length ([], false)) ∧ Follows s' (d.run pieces.flatten) := by
  induction pieces generalizing s d with
  | nil => exact ⟨s, rfl, h⟩
  | cons piece pieces ih =>
    rw [flatten_cons, Decoder.legible_append, Bool.and_eq_true] at hleg
    rw [flatten_cons, Decoder.run_append] at hopen hacc ⊢
    have hopen' := Decoder.open_of_run hopen
    have hcall := h.httpAppendBody hleg.1 (Decoder.open_of_run hopen')
    rcases hbody : Reply.httpAppendBody s piece with e | ⟨s₁, rest, complete⟩
    · -- a rejected reply would have stayed so
      have hrej := hcall.error_of_eq hbody
      rw [Decoder.run_of_rejected hrej, hrej] at hacc
      exact absurd hacc (by simp)
    · obtain ⟨hfol, rfl, rfl⟩ := hcall.ok_of_eq hbody
      obtain ⟨s', hcal, hfol'⟩ := ih hfol hleg.2 hopen hacc
      exact ⟨s', by simp [Reply.appendPieces, hbody, hcal, hopen', replicate_succ], hfol'⟩

end SquidVideoCache.Reply
