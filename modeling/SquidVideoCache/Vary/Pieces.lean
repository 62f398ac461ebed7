import SquidVideoCache.Vary.Records

/-!
# Looking for a mark, byte by byte

`storeLocateVaryRead` gets the text in pieces that need not end at a line. What follows the last
newline of the buffer is moved to its front, and the next piece is read behind it.
-/

namespace SquidVideoCache.Vary
open Lib List

/-! ## The function -/

def strmatchbeg (search name : List UInt8) (maxlen : ℕ) : Exec Bool :=
  if maxlen < name.length then .ok false else strncmpEq name.length search (name ++ [0])

def strmatch (search : List UInt8) (mark : CString) (maxlen : ℕ) : Exec Bool :=
  if maxlen < mark.bytes.length then .ok false else strncmpEq maxlen search (mark.bytes ++ [0])

/-- The test of an `Accept-Encoding` line; `strncmpnull` is not 0 if there is no encoding. -/
def encodingMatches (encoding : Option CString) (p2 : List UInt8) (l2 : ℕ) : Exec Bool :=
  match encoding with
  | none => .ok false
  | some encoding => do
    let same ← strncmpEq l2 (encoding.bytes ++ [0]) p2
    if same then do
      let c ← load (encoding.bytes ++ [0]) l2
      pure (c == 0)
    else pure false

section
variable (mark : CString) (encoding : Option CString)

/-- The lines of a variant after its key; `p` are the `l` bytes from the line on, and `e` is where it ends. -/
def locateVariant (s : LocateVaryState) (p : List UInt8) (l e : ℕ) : Exec LocateVaryState := do
  let isETag ← strmatchbeg p etagField l
  if isETag then
    if s.encodingOk then
      let etag := cString ((p.drop 6).take (e - 6))
      pure { s with etag := some etag, data := { s.data with etags := s.data.etags ++ [etag] } }
    else pure { s with ignore := true }
  else do
    let isMark ← strmatchbeg p varyField l
    if isMark then do
      let found ← strmatch (p.drop 10) mark (e - 10)
      pure (if found then { s with data := { s.data with key := s.key, etag := s.etag } } else s)
    else do
      let isEncoding ← strmatchbeg p encodingField l
      if isEncoding then do
        let same ← encodingMatches encoding (p.drop 17) (e - 17)
        pure (if same then { s with encodingOk := true } else s)
      else pure s

/-- The body of the loop. Data before the first key is only reported. -/
def locateTurn (s : LocateVaryState) (p : List UInt8) (l e : ℕ) : Exec LocateVaryState := do
  let isKey ← strmatchbeg p keyField l
  if isKey then
    pure { s with key := some (cString ((p.drop 5).take (e - 5))), etag := none, ignore := false, encodingOk := encoding.isNone }
  else if s.ignore then pure s
  else if s.key.isNone then pure s
  else locateVariant mark encoding s p l e

/-- The loop; `p` is an offset into the buffer and `stop` is `buf + size`. There is a turn for each newline at most. -/
def locateLoop (buf : List UInt8) (stop : ℕ) : ℕ → LocateVaryState → ℕ → ℕ → Exec (LocateVaryState × ℕ × ℕ)
  | 0, _, _, _ => .error .diverges
  | k + 1, s, p, l =>
    match ((buf.drop p).take l).idxOf? newline with
    | none => .ok (s, p, l)
    | some e => do
      let s ← locateTurn mark encoding s (buf.drop p) l e
      if l - (e + 1) = 0 then pure (s, p + (e + 1), 0)
      else do
        cAssert (0 < l - (e + 1))
        cAssert (p + (e + 1) < stop)
        locateLoop buf stop k s (p + (e + 1)) (l - (e + 1))

end

def storeLocateVaryCallback (data : VaryData) : Option VaryData :=
  if data.key.isSome ∨ data.etags ≠ [] then some data else none

/-- The bytes are those before `buf_offset`. -/
structure LocateReader where
  state : LocateVaryState
  buf : List UInt8
  bufSize : ℕ

/-- The end of a read that leaves `carry`: another read, or the callback if the buffer is full and large. -/
def nextRead (bufSize : ℕ) (s : LocateVaryState) (carry : List UInt8) : LocateReader ⊕ Option VaryData :=
  if carry.length = bufSize then
    if bufSize < maxBufSize then .inl ⟨s, carry, bufSize * 2⟩ else .inr (storeLocateVaryCallback s.data)
  else .inl ⟨s, carry, bufSize⟩

section
variable (mark : CString) (encoding : Option CString)

/-- One call, with what `storeClientCopy` has read into the buffer. -/
def storeLocateVaryRead (r : LocateReader) (piece : List UInt8) : Exec (LocateReader ⊕ Option VaryData) :=
  if piece = [] then .ok (.inr (storeLocateVaryCallback r.state.data))
  else if r.bufSize < r.buf.length + piece.length then .error .bounds
  else do
    let (s, p, l) ← locateLoop mark encoding (r.buf ++ piece) (r.buf ++ piece).length ((r.buf ++ piece).length + 1) r.state 0
      (r.buf ++ piece).length
    pure (nextRead r.bufSize s (((r.buf ++ piece).drop p).take l))

/-- The calls for the pieces of a text, with the last one at its end. -/
def locateReads : LocateReader → List (List UInt8) → Exec (Option VaryData)
  | r, [] => .ok (storeLocateVaryCallback r.state.data)
  | r, piece :: pieces => do
    match ← storeLocateVaryRead mark encoding r piece with
    | .inl r => locateReads r pieces
    | .inr found => pure found

/-- What is passed to the callback of a `storeLocateVary` that reads these pieces. -/
def locatePieces (pieces : List (List UInt8)) : Exec (Option VaryData) := locateReads mark encoding ⟨{}, [], 4096⟩ pieces

end

/-! ## Lines -/

variable {mark : CString} {encoding : Option CString} {s : LocateVaryState} {line : List UInt8}
  {name : List UInt8} {n : ℕ}

lemma prefix_line_iff (hname : newline ∉ name) (line rest : List UInt8) :
    name <+: line ++ newline :: rest ↔ name <+: line := by
  constructor
  · intro h
    rcases prefix_or_prefix_of_prefix h (prefix_append line _) with hsho | ⟨q, rfl⟩
    · exact hsho
    · cases q with
      | nil => simp
      | cons c q =>
        have hq := (prefix_append_right_inj line).mp h
        obtain ⟨rfl, -⟩ := cons_prefix_cons.mp hq
        simp at hname
  · exact fun h => h.trans (prefix_append _ _)

/-- Whether a line has the name does not depend on what follows it. -/
theorem strmatchbeg_line (hnul : 0 ∉ name) (hname : newline ∉ name) (line rest : List UInt8) :
    strmatchbeg (line ++ newline :: rest) name (line ++ newline :: rest).length = .ok (decide (name <+: line)) := by
  unfold strmatchbeg
  split_ifs with hlen
  · have hnot : ¬ name <+: line := fun h => by
      have hle := h.length_le
      simp only [length_append] at hlen
      omega
    simp [hnot]
  · rw [strncmpEq_name hnul (not_lt.1 hlen)]
    simp [prefix_line_iff hname]

lemma take_drop_line (hn : n ≤ line.length) (rest : List UInt8) :
    ((line ++ newline :: rest).drop n).take (line.length - n) = line.drop n := by
  rw [drop_append_of_le_length hn, take_append_of_le_length (by simp), take_of_length_le (by simp)]

/-- What a turn of the loop does with a line. -/
def locateLine (mark : CString) (encoding : Option CString) (s : LocateVaryState) (line : List UInt8) : Exec LocateVaryState :=
  match field keyField line with
  | some key => .ok { s with key := some (cString key), etag := none, ignore := false, encodingOk := encoding.isNone }
  | none =>
    if s.ignore then .ok s
    else if s.key.isNone then .ok s
    else
      match field etagField line with
      | some etag =>
        if s.encodingOk then .ok { s with etag := some (cString etag), data := { s.data with etags := s.data.etags ++ [cString etag] } }
        else .ok { s with ignore := true }
      | none =>
        match field varyField line with
        | some m => do
          let found ← strmatch m mark m.length
          pure (if found then { s with data := { s.data with key := s.key, etag := s.etag } } else s)
        | none =>
          match field encodingField line with
          | some enc => do
            let same ← encodingMatches encoding enc enc.length
            pure (if same then { s with encodingOk := true } else s)
          | none => .ok s

lemma field_of_prefix (h : name <+: line) : field name line = some (line.drop name.length) := if_pos h

lemma field_of_not (h : ¬ name <+: line) : field name line = none := if_neg h

lemma strmatch_line (hn : n ≤ line.length) (rest : List UInt8) :
    strmatch ((line ++ newline :: rest).drop n) mark (line.length - n) = strmatch (line.drop n) mark (line.drop n).length := by
  rw [strmatch, strmatch, length_drop, drop_append_of_le_length hn, strncmpEq_append (by simp)]

lemma encodingMatches_line (hn : n ≤ line.length) (rest : List UInt8) :
    encodingMatches encoding ((line ++ newline :: rest).drop n) (line.length - n) =
      encodingMatches encoding (line.drop n) (line.drop n).length := by
  unfold encodingMatches
  cases encoding with
  | none => rfl
  | some encoding =>
    rw [length_drop, drop_append_of_le_length hn]
    simp only
    rw [strncmpEq_comm, strncmpEq_append (by simp), strncmpEq_comm]

lemma locateVariant_eq (mark : CString) (encoding : Option CString) (hign : s.ignore = false) (hkey : s.key.isNone = false)
    (hnot : ¬ keyField <+: line) (rest : List UInt8) :
    locateVariant mark encoding s (line ++ newline :: rest) (line ++ newline :: rest).length line.length =
      locateLine mark encoding s line := by
  rw [locateVariant, locateLine, field_of_not hnot, strmatchbeg_line (by decide) (by decide)]
  simp only [hign, hkey, ok_bind]
  by_cases hetag : etagField <+: line
  · rw [if_pos (by simpa using hetag), field_of_prefix hetag, take_drop_line (show 6 ≤ line.length from hetag.length_le)]
    rfl
  · rw [if_neg (by simpa using hetag), field_of_not hetag, strmatchbeg_line (by decide) (by decide)]
    simp only [ok_bind]
    by_cases hvary : varyField <+: line
    · rw [if_pos (by simpa using hvary), field_of_prefix hvary, strmatch_line (show 10 ≤ line.length from hvary.length_le)]
      rfl
    · rw [if_neg (by simpa using hvary), field_of_not hvary, strmatchbeg_line (by decide) (by decide)]
      simp only [ok_bind]
      by_cases henc : encodingField <+: line
      · rw [if_pos (by simpa using henc), field_of_prefix henc,
          encodingMatches_line (show 17 ≤ line.length from henc.length_le)]
        rfl
      · rw [if_neg (by simpa using henc), field_of_not henc]
        rfl

lemma locateTurn_eq (mark : CString) (encoding : Option CString) (s : LocateVaryState) (line rest : List UInt8) :
    locateTurn mark encoding s (line ++ newline :: rest) (line ++ newline :: rest).length line.length =
      locateLine mark encoding s line := by
  rw [locateTurn, strmatchbeg_line (by decide) (by decide), ok_bind]
  by_cases hkey : keyField <+: line
  · rw [if_pos (by simpa using hkey), take_drop_line (show 5 ≤ line.length from hkey.length_le), locateLine,
      field_of_prefix hkey]
    rfl
  · rw [if_neg (by simpa using hkey)]
    split_ifs with hign hnone
    · simp [locateLine, field_of_not hkey, hign]
    · simp [locateLine, field_of_not hkey, hnone]
    · exact locateVariant_eq mark _ (by simpa using hign) (Bool.eq_false_of_not_eq_true hnone) hkey rest

/-! ## The loop -/

/-- The lines of a text after a line that may have failed. -/
def locateNext (mark : CString) (encoding : Option CString) (s : Exec LocateVaryState) (line : List UInt8) : Exec LocateVaryState :=
  s >>= fun s => locateLine mark encoding s line

lemma eachLine_error (fault : Fault) (line text : List UInt8) :
    (eachLine (locateNext mark encoding) (.error fault) line text).1 = .error fault := by
  induction text generalizing line with
  | nil => rfl
  | cons c text ih =>
    rw [eachLine]
    split_ifs
    · exact ih []
    · exact ih _

lemma exists_of_idxOf? {text : List UInt8} {e : ℕ} (h : text.idxOf? newline = some e) :
    ∃ line rest, text = line ++ newline :: rest ∧ newline ∉ line ∧ line.length = e := by
  induction text generalizing e with
  | nil => simp at h
  | cons c text ih =>
    rw [idxOf?_cons] at h
    split_ifs at h with hc
    · obtain rfl := Option.some.inj h
      exact ⟨[], text, by simpa using hc, not_mem_nil, rfl⟩
    · obtain ⟨j, hj, rfl⟩ := Option.map_eq_some_iff.1 h
      obtain ⟨line, rest, rfl, hline, rfl⟩ := ih hj
      have hne : newline ≠ c := fun heq => hc (by simp [heq])
      exact ⟨c :: line, rest, rfl, by simp [hline, hne], rfl⟩

lemma locateLoop_eq (mark : CString) (encoding : Option CString) {k : ℕ} (s : LocateVaryState) (done text : List UInt8)
    (hk : text.length < k) : locateLoop mark encoding (done ++ text) (done ++ text).length k s done.length text.length =
      (eachLine (locateNext mark encoding) (.ok s) [] text).1 >>= fun s =>
        .ok (s, (done ++ text).length - (lastLine text).length, (lastLine text).length) := by
  induction k generalizing s done text with
  | zero => omega
  | succ k ih =>
    rw [locateLoop, drop_left, take_length]
    cases hfind : text.idxOf? newline with
    | none =>
      have hnot : newline ∉ text := idxOf?_eq_none_iff.1 hfind
      rw [eachLine_of_notMem hnot, lastLine_of_notMem hnot]
      simp
    | some e =>
      obtain ⟨line, rest, rfl, hline, rfl⟩ := exists_of_idxOf? hfind
      have hlines : eachLine (locateNext mark encoding) (.ok s) [] (line ++ newline :: rest) =
          eachLine (locateNext mark encoding) (locateLine mark encoding s line) [] rest := by
        rw [eachLine_append, eachLine_of_notMem hline]
        rfl
      simp only
      rw [locateTurn_eq, hlines, lastLine_newline]
      cases locateLine mark encoding s line with
      | error fault => rw [eachLine_error, error_bind, error_bind]
      | ok s =>
        have hrest : (line ++ newline :: rest).length - (line.length + 1) = rest.length := by
          simp only [length_append, length_cons]
          omega
        rw [hrest]
        split_ifs with hend
        · obtain rfl := eq_nil_of_length_eq_zero hend
          simp [eachLine, lastLine]
        · have hstop : done.length + (line.length + 1) < (done ++ (line ++ newline :: rest)).length := by
            simp only [length_append, length_cons]
            omega
          rw [cAssert_pos (by omega), cAssert_pos hstop]
          have hnext := ih s (done ++ (line ++ [newline])) rest (by omega)
          simpa using hnext

/-! ## The reads -/

lemma storeLocateVaryRead_eq (mark : CString) (encoding : Option CString) {r : LocateReader} {piece : List UInt8}
    (hcarry : newline ∉ r.buf) (hpie : piece ≠ []) (hroom : r.buf.length + piece.length ≤ r.bufSize) :
    storeLocateVaryRead mark encoding r piece =
      (eachLine (locateNext mark encoding) (.ok r.state) r.buf piece).1 >>= fun s =>
        .ok (nextRead r.bufSize s (lastLine (r.buf ++ piece))) := by
  have hlines : eachLine (locateNext mark encoding) (.ok r.state) [] (r.buf ++ piece) =
      eachLine (locateNext mark encoding) (.ok r.state) r.buf piece := by
    rw [eachLine_append, eachLine_of_notMem hcarry]
    rfl
  have hloop := locateLoop_eq mark encoding r.state [] (r.buf ++ piece) (Nat.lt_succ_self _)
  rw [nil_append, length_nil, hlines] at hloop
  rw [storeLocateVaryRead, if_neg hpie, if_neg (not_lt.2 hroom), hloop]
  cases (eachLine (locateNext mark encoding) (.ok r.state) r.buf piece).1 with
  | error fault => rfl
  | ok s =>
    have hlast : ((r.buf ++ piece).drop ((r.buf ++ piece).length - (lastLine (r.buf ++ piece)).length)).take
        (lastLine (r.buf ++ piece)).length = lastLine (r.buf ++ piece) := by
      have hsuf : lastLine (r.buf ++ piece) <:+ r.buf ++ piece := rtakeWhile_suffix _ _
      rw [← suffix_iff_eq_drop.1 hsuf, take_length]
    simp only [ok_bind, hlast]
    rfl

lemma locateReads_eq (mark : CString) (encoding : Option CString) {pieces : List (List UInt8)} (r : LocateReader)
    (hcarry : newline ∉ r.buf) (hfit : PiecesFit r.bufSize r.buf pieces)
    (hsho : ∀ p, p <+: pieces.flatten → (lastLine (r.buf ++ p)).length < maxBufSize) :
    locateReads mark encoding r pieces =
      (eachLine (locateNext mark encoding) (.ok r.state) r.buf pieces.flatten).1 >>= fun s =>
        .ok (storeLocateVaryCallback s.data) := by
  induction pieces generalizing r with
  | nil => rfl
  | cons piece pieces ih =>
    obtain ⟨hpie, hroom, hrest⟩ := hfit
    rw [locateReads, storeLocateVaryRead_eq mark _ hcarry hpie hroom, flatten_cons, eachLine_append,
      eachLine_snd hcarry]
    cases (eachLine (locateNext mark encoding) (.ok r.state) r.buf piece).1 with
    | error fault => rw [eachLine_error, error_bind, error_bind, error_bind]
    | ok s =>
      have hnext : ∀ bufSize, PiecesFit bufSize (lastLine (r.buf ++ piece)) pieces →
          locateReads mark encoding ⟨s, lastLine (r.buf ++ piece), bufSize⟩ pieces =
            (eachLine (locateNext mark encoding) (.ok s) (lastLine (r.buf ++ piece)) pieces.flatten).1 >>= fun s =>
              .ok (storeLocateVaryCallback s.data) := by
        intro bufSize hfit
        refine ih _ (newline_notMem_lastLine _) hfit fun p hp => ?_
        have hmore := hsho (piece ++ p) (by simpa using hp)
        rwa [← append_assoc, ← lastLine_append] at hmore
      rw [ok_bind, nextRead]
      unfold grown at hrest
      split_ifs with hfull hsma
      · rw [if_pos hfull] at hrest
        exact hnext _ hrest
      · -- the line is too long
        have hlt := hsho piece (prefix_append _ _)
        omega
      · rw [if_neg hfull] at hrest
        exact hnext _ hrest

/-! ## Faults -/

lemma ends_strmatch (m : List UInt8) (mark : CString) (maxlen : ℕ) :
    Ends (· = .bounds) (fun _ => True) (strmatch m mark maxlen) :=
  ends_ite (fun _ => trivial) fun _ => ends_strncmpEq _ _ _

lemma ends_encodingMatches (encoding : Option CString) (p2 : List UInt8) (l2 : ℕ) :
    Ends (· = .bounds) (fun _ => True) (encodingMatches encoding p2 l2) := by
  cases encoding with
  | none => trivial
  | some encoding =>
    refine (ends_strncmpEq _ _ _).bind fun same _ => ends_ite (fun _ => ?_) fun _ => trivial
    unfold load
    cases (encoding.bytes ++ [0])[l2]? with
    | none => rfl
    | some c => trivial

lemma ends_locateLine (mark : CString) (encoding : Option CString) (s : LocateVaryState) (line : List UInt8) :
    Ends (· = .bounds) (fun _ => True) (locateLine mark encoding s line) := by
  unfold locateLine
  cases field keyField line with
  | some key => trivial
  | none =>
    refine ends_ite (fun _ => trivial) fun _ => ends_ite (fun _ => trivial) fun _ => ?_
    cases field etagField line with
    | some etag => exact ends_ite (fun _ => trivial) fun _ => trivial
    | none =>
      cases field varyField line with
      | some m => exact (ends_strmatch m mark _).bind fun _ _ => trivial
      | none =>
        cases field encodingField line with
        | some enc => exact (ends_encodingMatches _ enc _).bind fun _ _ => trivial
        | none => trivial

lemma ends_eachLine (mark : CString) (encoding : Option CString) {x : Exec LocateVaryState}
    (hx : Ends (· = .bounds) (fun _ => True) x) (line text : List UInt8) :
    Ends (· = .bounds) (fun _ => True) (eachLine (locateNext mark encoding) x line text).1 := by
  induction text generalizing x line with
  | nil => exact hx
  | cons c text ih =>
    rw [eachLine]
    split_ifs
    · exact ih (hx.bind fun s _ => ends_locateLine mark _ s line) []
    · exact ih hx _

/-! ## Texts without a NUL -/

lemma strmatch_of_nulFree {m : List UInt8} (hm : 0 ∉ m) (mark : CString) :
    strmatch m mark m.length = .ok (decide (m = mark.bytes)) := by
  unfold strmatch
  split_ifs with hlen
  · have hne : m ≠ mark.bytes := fun h => by
      rw [h] at hlen
      exact lt_irrefl _ hlen
    simp [hne]
  · rw [strncmpEq_terminated hm]
    have hiff : m <+: mark.bytes ↔ m = mark.bytes :=
      ⟨fun h => h.eq_of_length_le (not_lt.1 hlen), fun h => h ▸ prefix_rfl⟩
    simp [hiff]

lemma encodingMatches_of_nulFree {enc : List UInt8} (henc : 0 ∉ enc) (encoding : Option CString) :
    encodingMatches encoding enc enc.length = .ok (decide (encoding.map CString.bytes = some enc)) := by
  cases encoding with
  | none => rfl
  | some encoding =>
    rw [encodingMatches, strncmpEq_comm, strncmpEq_terminated henc, ok_bind]
    by_cases hpre : enc <+: encoding.bytes
    · obtain ⟨t, ht⟩ := hpre
      have hnul := encoding.nulFree
      rw [← ht] at hnul
      cases t with
      | nil => simp [load, ← ht]
      | cons c t =>
        -- the encoding goes on where the line ends
        have hc : c ≠ 0 := fun h => hnul (by simp [h])
        simp [load, ← ht, hc]
    · rw [if_neg (by simpa using hpre)]
      have hne : encoding.bytes ≠ enc := fun h => hpre (h ▸ prefix_rfl)
      simp [hne]

lemma field_nulFree {value : List UInt8} (hline : 0 ∉ line) (h : field name line = some value) : 0 ∉ value := by
  unfold field at h
  split_ifs at h
  obtain rfl := Option.some.inj h
  exact fun hmem => hline (mem_of_mem_drop hmem)

lemma locateLine_of_nulFree (mark : CString) (encoding : Option CString) (s : LocateVaryState) (hline : 0 ∉ line) :
    locateLine mark encoding s line = .ok (storeLocateVaryLine mark.bytes (encoding.map CString.bytes) s line) := by
  unfold locateLine storeLocateVaryLine
  cases hkey : field keyField line with
  | some key => simp [cString_of_nulFree (field_nulFree hline hkey)]
  | none =>
    by_cases hign : s.ignore = true
    · simp [hign]
    · cases hk : s.key with
      | none => simp
      | some key =>
        cases hetag : field etagField line with
        | some etag =>
          by_cases hok : s.encodingOk = true
          · simp [hign, hok, cString_of_nulFree (field_nulFree hline hetag)]
          · simp [hign, hok]
        | none =>
          cases hvary : field varyField line with
          | some m => simp [hign, strmatch_of_nulFree (field_nulFree hline hvary)]
          | none =>
            cases henc : field encodingField line with
            | some enc => simp [hign, encodingMatches_of_nulFree (field_nulFree hline henc)]
            | none => simp

lemma eachLine_of_nulFree (mark : CString) (encoding : Option CString) (s : LocateVaryState) {text : List UInt8}
    (hline : 0 ∉ line) (htext : 0 ∉ text) : (eachLine (locateNext mark encoding) (.ok s) line text).1 =
      .ok (eachLine (storeLocateVaryLine mark.bytes (encoding.map CString.bytes)) s line text).1 := by
  induction text generalizing s line with
  | nil => rfl
  | cons c text ih =>
    obtain ⟨hc, htext⟩ : (0 : UInt8) ≠ c ∧ 0 ∉ text := by simpa using htext
    rw [eachLine, eachLine]
    split_ifs
    · rw [locateNext, ok_bind, locateLine_of_nulFree mark _ s hline]
      exact ih _ not_mem_nil htext
    · exact ih s (by simp [hline, hc]) htext

/-! ## Pieces -/

variable {text : List UInt8} {pieces pieces' : List (List UInt8)}

lemma locatePieces_eq (mark : CString) (encoding : Option CString) (hlines : LinesShorter maxBufSize text)
    (hpie : pieces.flatten = text) (hfit : PiecesFit 4096 [] pieces) :
    locatePieces mark encoding pieces = (eachLine (locateNext mark encoding) (.ok {}) [] text).1 >>= fun s =>
      .ok (storeLocateVaryCallback s.data) := by
  rw [locatePieces, locateReads_eq mark _ _ not_mem_nil hfit, hpie]
  intro p hp
  exact hlines.lastLine_lt (hpie ▸ hp)

/-- Two ways to read a text with lines of less than 64 KB give the same result, and no assertion fails. The only fault
is the test of an encoding against a line that has a NUL; for texts without one the result is that of the lines. -/
theorem locatePieces_split (mark : CString) (encoding : Option CString) (hlines : LinesShorter maxBufSize text)
    (hpieces : pieces.flatten = text) (hfit : PiecesFit 4096 [] pieces)
    (hpieces' : pieces'.flatten = text) (hfit' : PiecesFit 4096 [] pieces') :
    locatePieces mark encoding pieces = locatePieces mark encoding pieces' ∧
    locatePieces mark encoding pieces ≠ .error .assertion ∧ (0 ∉ text → locatePieces mark encoding pieces =
      .ok (storeLocateVary mark.bytes (encoding.map CString.bytes) pieces)) := by
  have heq := locatePieces_eq mark encoding hlines hpieces hfit
  refine ⟨heq.trans (locatePieces_eq mark _ hlines hpieces' hfit').symm, fun herr => ?_, fun hnul => ?_⟩
  · have hends := (ends_eachLine mark encoding (x := .ok {}) trivial [] text).bind (R := fun _ => True)
      (f := fun s => .ok (storeLocateVaryCallback s.data)) fun _ _ => trivial
    rw [← heq, herr] at hends
    cases hends
  · rw [heq, eachLine_of_nulFree mark _ _ not_mem_nil hnul, storeLocateVary, LineReader.readAll_eq _ not_mem_nil]
    · rw [hpieces]
      rfl
    · intro p hp
      rw [eachLine_snd not_mem_nil]
      exact hlines.lastLine_lt (hpieces ▸ hp)

def markX : CString := ⟨ascii ['x'], by decide⟩

def taggedText : List UInt8 := printVariant (ascii ['A']) none (some (ascii ['t'])) ++ storeAppendPrintf varyField (ascii ['x'])

/-- The text at once and cut within its first and its last line. -/
theorem locatePieces_split_tagged :
    locatePieces markX none [taggedText] = locatePieces markX none [taggedText.take 3, (taggedText.drop 3).take 20, taggedText.drop 23] ∧
    locatePieces markX none [taggedText] = .ok (some ⟨some (ascii ['A']), some (ascii ['t']), [ascii ['t']]⟩) := by
  have hlines : LinesShorter maxBufSize taggedText := by
    intro part hpart _
    exact hpart.length_le.trans_lt (by decide)
  have hwho : [taggedText].flatten = taggedText := by decide
  have hcut : [taggedText.take 3, (taggedText.drop 3).take 20, taggedText.drop 23].flatten = taggedText := by decide
  have h := locatePieces_split markX none hlines hwho (by decide) hcut (by decide)
  exact ⟨h.1, (h.2.2 (by decide)).trans (by decide)⟩

end SquidVideoCache.Vary
