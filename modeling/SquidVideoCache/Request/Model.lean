import SquidVideoCache.Lib.Number
import Mathlib.Data.PNat.Defs

/-!
# The buffer of a client connection, client_side.c

A connection has one buffer. `clientReadRequest` puts what has come behind what is there;
the parser takes requests from its front, and `clientProcessBody` the bodies of the
requests. What the parser makes of a buffer and what a callback does when it has been
called are parameters. The eating of a body that nobody wants and aborts are outside.

`received` and `bodies` are not in the program. They note all that has been read, and
for each request with a Content-Length where its body begins, what the callbacks have
been given, and where the next parse has begun.
-/

namespace SquidVideoCache.Request
open Lib

/-- What a callback does before it returns. -/
inductive Reaction where
  | done
  /-- it calls `requestReadBody` with a buffer of this size -/
  | again (size : ℕ+)
  | close

/-- What `clientTryParseRequest` finds in a buffer of `avail` bytes. -/
inductive Parsed (avail : ℕ) where
  /-- the request is not complete -/
  | more
  /-- an error reply before anything is removed from the buffer -/
  | invalid
  /-- an error reply after the request has been removed -/
  | rejected (reqSz : ℕ) (le : reqSz ≤ avail)
  /-- a request; `start` is what happens in `clientCheckFollowXForwardedFor` -/
  | request (reqSz : ℕ) (pos : 0 < reqSz) (le : reqSz ≤ avail) (contentLength : ℤ) (tooLarge connect : Bool)
      (start : Reaction)

/-- The arguments of a `clientReadBody` call that has not been answered. -/
structure Reader where
  bufsize : ℕ+
  /-- whether the callback data is still valid -/
  valid : Bool := true

structure Body where
  start : ℕ
  size : ℕ
  handed : List UInt8 := []
  next : Option ℕ := none
  deriving DecidableEq

structure Conn where
  /-- the first `in.offset` bytes of `in.buf` -/
  inBuf : List UInt8 := []
  inSize : ℕ := 4096
  sizeLeft : ℤ := 0
  callback : Option Reader := none
  /-- whether the request has a body reader -/
  bodyReader : Bool := false
  nrequests : ℕ := 0
  socketEof : Bool := false
  closed : Bool := false
  received : List UInt8 := []
  bodies : List Body := []

/-- How many bytes of the connection have been removed from the buffer. -/
def Conn.position (s : Conn) : ℕ := s.received.length - s.inBuf.length

structure Env where
  parse : (buf : List UInt8) → Parsed buf.length
  onBody : Conn → Reaction
  maxRequests : ℕ
  maxRequestHeaderSize : ℕ
  halfClosedClients : Bool

variable (env : Env)

/-! ## Bodies -/

def noteHanded (bytes : List UInt8) : List Body → List Body
  | [] => []
  | b :: bodies => { b with handed := b.handed ++ bytes } :: bodies

/-- The callback takes `size` bytes; after the last of them the reader is removed from the request. -/
def handOver (size : ℕ) (s : Conn) : Conn := { s with
    sizeLeft := s.sizeLeft - size
    inBuf := s.inBuf.drop size
    bodyReader := if s.sizeLeft - size ≤ 0 then false else s.bodyReader
    callback := none
    bodies := noteHanded (s.inBuf.take size) s.bodies }

/-- The callback may ask for more before `clientProcessBody` returns. -/
def clientProcessBody : ℕ → Conn → Exec Conn
  | 0, s => .ok s
  | fuel + 1, s =>
    if s.inBuf = [] then .ok s
    else
      match s.callback with
      | none => .error .assertion
      | some reader =>
        if !reader.valid then .ok { s with closed := true }
        else do
          cAssert (0 < s.sizeLeft)
          let size := min (min s.inBuf.length s.sizeLeft.toNat) reader.bufsize
          let s := handOver size s
          match env.onBody s with
          | .done => .ok s
          | .close => .ok { s with closed := true }
          | .again size =>
            if s.bodyReader then clientProcessBody fuel { s with callback := some ⟨size, true⟩ } else .ok s

/-- `clientReadBody`, which the reader of the request calls; without a reader the body has ended. -/
def requestReadBody (size : ℕ+) (s : Conn) : Exec Conn :=
  if s.bodyReader then clientProcessBody env (s.inBuf.length + 1) { s with callback := some ⟨size, true⟩ } else .ok s

/-! ## Requests -/

def noteParse (position : ℕ) : List Body → List Body
  | [] => []
  | b :: bodies => { b with next := some (b.next.getD position) } :: bodies

/-- `conn->body.size_left` and the reader of a request that has been removed from the buffer. -/
def startBody (contentLength : ℤ) (s : Conn) : Conn :=
  if 0 ≤ contentLength then
    { s with
      sizeLeft := if 0 < contentLength then contentLength else s.sizeLeft
      bodyReader := 0 < contentLength
      bodies := ⟨s.position, contentLength.toNat, [], none⟩ :: s.bodies }
  else s

def react (reaction : Reaction) (s : Conn) : Exec Conn :=
  match reaction with
  | .done => .ok s
  | .close => .ok { s with closed := true }
  | .again size => requestReadBody env size s

/-- The number of bytes consumed; it is negative if no more requests are read. -/
def clientTryParseRequest (s : Conn) : Exec (Conn × ℤ) :=
  let s := { s with bodies := noteParse s.position s.bodies, inBuf := s.inBuf.dropWhile isSpace }
  if s.inBuf = [] ∨ env.maxRequests ≤ s.nrequests then .ok (s, 0)
  else
    match env.parse s.inBuf with
    | .more =>
      if env.maxRequestHeaderSize ≤ s.inBuf.length then .ok ({ s with nrequests := s.nrequests + 1 }, -1)
      else .ok (s, 0)
    | .invalid => .ok ({ s with nrequests := s.nrequests + 1 }, -1)
    | .rejected reqSz _ => .ok ({ s with nrequests := s.nrequests + 1, inBuf := s.inBuf.drop reqSz }, -1)
    | .request reqSz _ _ contentLength tooLarge connect start =>
      let s := startBody contentLength { s with nrequests := s.nrequests + 1, inBuf := s.inBuf.drop reqSz }
      if 0 < contentLength ∧ tooLarge then .ok (s, -1)
      else if connect then do
        let s ← react env start s
        .ok (s, -2)
      else do
        let s ← react env start s
        .ok (s, if s.closed then -1 else reqSz)

/-- The loop of `clientReadRequest`; each turn takes at least a byte. -/
def parseRequests : ℕ → Conn → Exec Conn
  | 0, s => .ok s
  | fuel + 1, s =>
    if s.closed ∨ s.inBuf = [] ∨ s.sizeLeft ≠ 0 then .ok s
    else do
      let (s, ret) ← clientTryParseRequest env s
      if ret ≤ 0 then .ok s else parseRequests fuel s

/-- A call that waits is answered first. -/
def processPending (s : Conn) : Exec Conn :=
  if s.inBuf ≠ [] ∧ s.callback.isSome then clientProcessBody env (s.inBuf.length + 1) s else .ok s

def processInput (s : Conn) : Exec Conn := do
  let s ← processPending env s
  if s.closed then return s
  let s ← parseRequests env (s.inBuf.length + 1) s
  if s.closed then return s
  if s.socketEof ∧ (s.inBuf.length : ℤ) ≠ s.sizeLeft then return { s with closed := true }
  return s

inductive Read where
  | bytes (bytes : List UInt8)
  | eof
  | error (ignore : Bool)

/-- The buffer doubles when it is full; no more is read than there is room for. -/
def clientReadRequest (read : Read) (s : Conn) : Exec Conn :=
  let s := if s.inSize - s.inBuf.length - 1 = 0 then { s with inSize := s.inSize * 2 } else s
  match read with
  | .bytes bytes =>
    let bytes := bytes.take (s.inSize - s.inBuf.length - 1)
    processInput env { s with inBuf := s.inBuf ++ bytes, received := s.received ++ bytes }
  | .eof =>
    if (s.nrequests = 0 ∧ s.inBuf = []) ∨ !env.halfClosedClients then .ok { s with closed := true }
    else processInput env { s with socketEof := true }
  | .error ignore => if ignore then processInput env s else .ok { s with closed := true }

/-! ## Runs -/

/-- The socket may become readable at any time, also after a request that ends the reading. -/
inductive Event where
  | readable (read : Read)
  | readBody (size : ℕ+)
  /-- the callback data of a call becomes invalid -/
  | abandon
  /-- a request is done -/
  | finish

def step (s : Conn) : Event → Exec Conn
  | .readable read => clientReadRequest env read s
  | .readBody size => requestReadBody env size s
  | .abandon => .ok { s with callback := s.callback.map ({ · with valid := false }) }
  | .finish => .ok { s with nrequests := s.nrequests - 1 }

inductive Reached : Conn → Prop
  | start : Reached {}
  | step {s s' : Conn} (e : Event) (h : Reached s) (hopen : s.closed = false) (hstep : step env s e = .ok s') :
      Reached s'

end SquidVideoCache.Request
