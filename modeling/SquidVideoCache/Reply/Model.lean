import SquidVideoCache.Lib.Lines
import SquidVideoCache.Lib.Number

/-!
# The body of a reply, String.c and http.c

`httpAppendBody` is called with the bytes that have come from the server and appends the
body to the store entry. A chunked body is decoded on the way; what is kept between two
calls is the number of bytes left of the chunk, the beginning of a line, and whether the
trailer has been reached. An entry that is aborted meanwhile is outside.
-/

namespace SquidVideoCache.Reply
open Lib

def cr : UInt8 := 13

/-! ## Strings -/

/-- A `String`: `buf` is all the memory that belongs to it. -/
structure Str where
  size : ℕ := 0
  len : ℕ := 0
  buf : List UInt8 := []
  deriving DecidableEq

/-- The size of the object of the smallest pool that fits. -/
def memAllocString (net : ℕ) : ℕ :=
  if net ≤ 36 then 36 else if net ≤ 128 then 128 else if net ≤ 512 then 512 else net

lemma memAllocString_bounds (n : ℕ) : n ≤ memAllocString n ∧ (memAllocString n < 65536 ↔ n < 65536) := by
  unfold memAllocString
  split_ifs
  all_goals omega

/-- The source ends at a NUL too. -/
def strncat (dst src : List UInt8) : Exec (List UInt8) :=
  let joined := cString dst ++ cString src
  if joined.length < dst.length then .ok (joined ++ 0 :: dst.drop (joined.length + 1)) else .error .bounds

/-- The fields of a `String` have sixteen bits. -/
def stringAppend (s : Str) (str : List UInt8) : Exec Str :=
  if s.len + str.length < s.size then do
    let buf ← strncat s.buf str
    .ok { s with buf, len := s.len + str.length }
  else do
    let len := (s.len + str.length) % 65536
    let size := memAllocString (len + 1)
    cAssert (size < 65536)
    if s.len + str.length < size then
      .ok ⟨size, len, s.buf.take s.len ++ str ++ List.replicate (size - (s.len + str.length)) 0⟩
    else .error .bounds

/-! ## Appending -/

structure HttpState where
  /-- what is left of the chunk; negative if the body ends with the connection -/
  chunkSize : ℤ := 0
  chunked : Bool
  trailer : Bool := false
  eof : Bool := false
  chunkhdr : Str := {}
  /-- the bytes that `storeAppend` has been given -/
  body : List UInt8 := []
  deriving DecidableEq

/-- Why a reply is given up with `ERR_INVALID_RESP`. -/
inductive BadReply where
  | unexpectedEof
  | oversizedHeader
  | invalidHeader
  | fault (f : Fault)
  deriving DecidableEq

/-- The size of the chunk and whether the line is blank; no result for an invalid header. -/
def chunkHeader (hdr : List UInt8) : Option (ℤ × Bool) :=
  let r := strtoll 16 hdr
  let emptychunk := r.used = 0
  let badchunk := ¬ emptychunk ∧ r.range
  let rest := (hdr.drop r.used).dropWhile (fun c => c = cr || c = 32 || c = 9)
  if r.value < 0 ∨ badchunk ∨ (rest.head? ≠ some newline ∧ rest.head? ≠ some 59) then none
  else some (r.value, emptychunk)

def untilNewline (buf : List UInt8) : List UInt8 :=
  let line := buf.takeWhile (· != newline)
  buf.take (line.length + 1)

/-- The end of a line that is now in `hdr`. -/
def lineEnd (s : HttpState) (hdr : Str) : Except BadReply (HttpState × Bool) :=
  if !s.trailer then
    match chunkHeader (cString hdr.buf) with
    | none => .error .invalidHeader
    -- a blank line is skipped, but stays in front of the next header
    | some (size, true) => .ok ({ s with chunkSize := size, chunkhdr := hdr }, false)
    | some (size, false) => .ok ({ s with chunkSize := size, trailer := size = 0, chunkhdr := {} }, false)
  else
    let p := (cString hdr.buf).dropWhile (· = cr)
    .ok ({ s with chunkhdr := {} }, p.head? = some newline)

/-- One turn of the loop: the new state, what is left of the buffer, and whether the reply is complete. -/
def appendStep (s : HttpState) (buf : List UInt8) : Except BadReply (HttpState × List UInt8 × Bool) :=
  if s.chunkSize > 0 then
    let size := min buf.length s.chunkSize.toNat
    .ok ({ s with chunkSize := s.chunkSize - size, body := s.body ++ buf.take size }, buf.drop size, false)
  else if s.chunkSize < 0 then .ok ({ s with body := s.body ++ buf }, [], false)
  else
    let line := untilNewline buf
    let rest := buf.drop line.length
    match stringAppend s.chunkhdr line with
    | .error f => .error (.fault f)
    | .ok hdr =>
      if hdr.len > 256 then .error .oversizedHeader
      else if newline ∈ line then do
        let (s, complete) ← lineEnd s hdr
        .ok (s, rest, complete)
      else .ok ({ s with chunkhdr := hdr }, rest, false)

/-- Each turn takes at least a byte. -/
def appendLoop : ℕ → HttpState → List UInt8 → Bool → Except BadReply (HttpState × List UInt8 × Bool)
  | 0, s, buf, complete => .ok (s, buf, complete)
  | fuel + 1, s, buf, complete =>
    if buf = [] ∨ (s.chunkSize = 0 ∧ !s.chunked) then .ok (s, buf, complete)
    else do
      let (s, rest, done) ← appendStep s buf
      appendLoop fuel s rest (complete || done)

/-- The state, the bytes that nobody wants, and whether the reply is complete. -/
def httpAppendBody (s : HttpState) (buf : List UInt8) : Except BadReply (HttpState × List UInt8 × Bool) :=
  if buf = [] ∧ s.eof ∧ s.chunked then .error .unexpectedEof
  else do
    let (s, rest, complete) ← appendLoop buf.length s buf s.eof
    .ok (s, rest, complete || (s.chunkSize = 0 && !s.chunked))

/-- Successive calls; which of them found the reply complete, and what was left over. -/
def appendPieces : HttpState → List (List UInt8) → Except BadReply (HttpState × List (List UInt8 × Bool))
  | s, [] => .ok (s, [])
  | s, piece :: pieces => do
    let (s, rest, complete) ← httpAppendBody s piece
    let (s, results) ← appendPieces s pieces
    .ok (s, (rest, complete) :: results)

/-- What `FD_READ_METHOD` finds when the connection is looked at; at the end of the file it is not. -/
inductive Peek where
  | skipped
  | nothing
  | closed
  | bytes
  deriving DecidableEq

/-- `httpAppendBody` comes past its check for excess data with `keep_alive` set. -/
def keptAlive (s : HttpState) (buf : List UInt8) (peek : Peek) : Bool :=
  match httpAppendBody s buf with
  | .error _ => false
  | .ok (s', rest, complete) =>
    -- it waits for more data, or the reply is short
    if (!complete && rest = []) || 0 < s'.chunkSize then false
    else if rest ≠ [] then false
    else
      match peek with
      | .skipped | .nothing => !s.eof
      | .closed | .bytes => false

end SquidVideoCache.Reply
