import SquidVideoCache.Lib.Number

/-!
# Range replies of HttpHdrRange.c and client_side.c

A range request is answered from the stored body. The store delivers buffers at
`out.offset`; `clientPackMoreRanges` takes from each what the ranges ask for, with a part
header before each range and a boundary at the end if there are several of them. Offsets
are `squid_off_t`, so integers; a buffer is the list of its bytes.
-/

namespace SquidVideoCache.Range
open Lib

/-- `range_spec_unknown` -/
def unknown : ℤ := -1

structure HttpHdrRangeSpec where
  offset : ℤ
  length : ℤ
  deriving DecidableEq, Repr

def sizeDiff (a b : ℤ) : ℤ := if a ≥ b then toOff (a - b) else 0

def sizeMin (a b : ℤ) : ℤ := if a ≤ b then a else b

/-! ## Canonization -/

def httpHdrRangeSpecCanonize (spec : HttpHdrRangeSpec) (clen : ℤ) : Exec (HttpHdrRangeSpec × Bool) := do
  let spec : HttpHdrRangeSpec :=
    if spec.offset = unknown then { spec with offset := sizeDiff clen spec.length }
    else if spec.length = unknown then { spec with length := sizeDiff clen spec.offset }
    else spec
  cAssert (spec.length ≠ unknown)
  cAssert (spec.offset ≠ unknown)
  let spec := { spec with length := sizeMin (sizeDiff clen spec.offset) spec.length }
  return (spec, spec.length > 0)

/-- Specs are not merged: `MERGING_BREAKS_NOTHING` is not defined. -/
def httpHdrRangeCanonize (clen : ℤ) : List HttpHdrRangeSpec → Exec (List HttpHdrRangeSpec)
  | [] => .ok []
  | spec :: specs => do
    let (spec, good) ← httpHdrRangeSpecCanonize spec clen
    let goods ← httpHdrRangeCanonize clen specs
    return if good then spec :: goods else goods

def isComplexFrom : ℤ → List HttpHdrRangeSpec → Bool
  | _, [] => false
  | offset, spec :: specs => if spec.offset < offset then true else isComplexFrom (spec.offset + spec.length) specs

def httpHdrRangeIsComplex (specs : List HttpHdrRangeSpec) : Bool := isComplexFrom 0 specs

/-! ## Parts of a reply -/

/-- The reply of the entry, and the boundary. -/
structure PartInfo where
  contentType : Option (List UInt8)
  contentLength : ℤ
  boundary : List UInt8

def crlf : List UInt8 := ascii ['\r', '\n']

def decimal (n : ℤ) : List UInt8 := ascii (toString n).toList

def clientPackTermBound (info : PartInfo) : List UInt8 :=
  crlf ++ ascii ['-', '-'] ++ info.boundary ++ ascii ['-', '-'] ++ crlf

def contentTypeField : List UInt8 :=
  ascii ['C', 'o', 'n', 't', 'e', 'n', 't', '-', 'T', 'y', 'p', 'e', ':', ' ']

def contentRangeField : List UInt8 :=
  ascii ['C', 'o', 'n', 't', 'e', 'n', 't', '-', 'R', 'a', 'n', 'g', 'e', ':', ' ']

/-- The value of Content-Range; the offset and the length of a canonized spec are known. -/
def contRange (spec : HttpHdrRangeSpec) (elength : ℤ) : List UInt8 :=
  ascii ['b', 'y', 't', 'e', 's', ' '] ++ decimal spec.offset ++ ascii ['-'] ++
    decimal (spec.offset + spec.length - 1) ++ ascii ['/'] ++ decimal elength

def clientPackRangeHdr (info : PartInfo) (spec : HttpHdrRangeSpec) : List UInt8 :=
  crlf ++ ascii ['-', '-'] ++ info.boundary ++ crlf ++
    info.contentType.elim [] (fun value => contentTypeField ++ value ++ crlf) ++
    (contentRangeField ++ contRange spec info.contentLength ++ crlf) ++ crlf

/-- The Content-Length of a reply with several ranges. -/
def clientMRangeCLen (info : PartInfo) (specs : List HttpHdrRangeSpec) : ℤ :=
  specs.foldl (fun clen spec => clen + (clientPackRangeHdr info spec).length + spec.length) 0 +
    (clientPackTermBound info).length

/-! ## Packing -/

structure HttpHdrRangeIter where
  pos : ℤ := -1
  spec : Option HttpHdrRangeSpec := none
  debtSize : ℤ := 0
  prefixSize : ℤ
  deriving DecidableEq

/-- A request with its range specs. -/
structure ClientHttpRequest where
  specs : List HttpHdrRangeSpec
  info : PartInfo
  iter : HttpHdrRangeIter
  outOffset : ℤ

/-- The state of the loop of `clientPackMoreRanges`; `mb` is what has been appended. -/
structure Packing where
  iter : HttpHdrRangeIter
  bodyOff : ℤ
  buf : List UInt8
  mb : List UInt8

def httpHdrRangeGetSpec (specs : List HttpHdrRangeSpec) (pos : ℤ) : Exec (Option HttpHdrRangeSpec × ℤ) := do
  cAssert (pos ≥ -1 ∧ pos < specs.length)
  let pos := pos + 1
  return (specs[pos.toNat]?, pos)

def clientCanPackMoreRanges (specs : List HttpHdrRangeSpec) (i : HttpHdrRangeIter) (size : ℕ) :
    Exec (HttpHdrRangeIter × Bool) := do
  let i ←
    if i.debtSize = 0 then do
      let (spec, pos) ← httpHdrRangeGetSpec specs i.pos
      pure { i with spec, pos, debtSize := spec.elim i.debtSize HttpHdrRangeSpec.length }
    else pure i
  cAssert (i.debtSize = 0 ↔ i.spec = none)
  return (i, i.spec.isSome ∧ size > 0)

/-- Appends from the buffer what is left of the current range. -/
def clientPackRange (specs : List HttpHdrRangeSpec) (info : PartInfo) (spec : HttpHdrRangeSpec) (p : Packing) :
    Exec Packing := do
  let size := p.buf.length
  let copySz : ℕ := if p.iter.debtSize ≤ size then p.iter.debtSize.toNat else size
  cAssert (size > 0)
  cAssert (p.bodyOff < spec.offset + spec.length)
  cAssert (p.bodyOff + size > spec.offset)
  let mb := if specs.length > 1 ∧ p.iter.debtSize = spec.length then p.mb ++ clientPackRangeHdr info spec else p.mb
  let debtSize := p.iter.debtSize - copySz
  cAssert (debtSize ≥ 0)
  return ⟨{ p.iter with debtSize }, p.bodyOff + copySz, p.buf.drop copySz, mb ++ p.buf.take copySz⟩

/-- The loop takes something from the buffer each time, so its length bounds the rounds. -/
def packLoop (specs : List HttpHdrRangeSpec) (info : PartInfo) : ℕ → Packing → Exec Packing
  | 0, _ => .error .diverges
  | fuel + 1, p => do
    let (iter, more) ← clientCanPackMoreRanges specs p.iter p.buf.length
    match iter.spec, more with
    | some spec, true =>
      let start := spec.offset + spec.length - iter.debtSize
      cAssert (p.bodyOff ≤ start)
      if p.bodyOff + p.buf.length > start then
        let p ← clientPackRange specs info spec ⟨iter, start, p.buf.drop (start - p.bodyOff).toNat, p.mb⟩
        packLoop specs info fuel p
      else packLoop specs info fuel ⟨iter, p.bodyOff + p.buf.length, [], p.mb⟩
    | _, _ => pure { p with iter }

/-- The request, what is sent, and whether more data is needed. -/
def clientPackMoreRanges (http : ClientHttpRequest) (buf : List UInt8) :
    Exec (ClientHttpRequest × List UInt8 × Bool) := do
  cAssert (http.iter.prefixSize > 0)
  let p ← packLoop http.specs http.info (buf.length + 1)
    ⟨http.iter, http.outOffset - http.iter.prefixSize, buf, []⟩
  cAssert (p.iter.debtSize = 0 ↔ p.iter.spec = none)
  match p.iter.spec with
  | some spec =>
    cAssert (p.iter.debtSize = spec.length ∨ p.bodyOff = spec.offset + spec.length - p.iter.debtSize)
    let bodyOff := if p.iter.debtSize = spec.length then spec.offset else p.bodyOff
    return ({ http with iter := p.iter, outOffset := bodyOff + p.iter.prefixSize }, p.mb, p.iter.debtSize > 0)
  | none =>
    let mb := if http.specs.length > 1 then p.mb ++ clientPackTermBound http.info else p.mb
    return ({ http with iter := p.iter, outOffset := p.bodyOff + p.iter.prefixSize }, mb, p.iter.debtSize > 0)

def delivered (body : List UInt8) (http : ClientHttpRequest) (size : ℕ) : List UInt8 :=
  (body.drop (http.outOffset - http.iter.prefixSize).toNat).take size

/-- The buffers of the given sizes, one after the other, until all ranges have been sent. -/
def sendBuffers (body : List UInt8) : ClientHttpRequest → List ℕ → Exec (List UInt8 × Bool)
  | _, [] => .ok ([], true)
  | http, size :: sizes => do
    let (http, mb, more) ← clientPackMoreRanges http (delivered body http size)
    if more then
      let (rest, more) ← sendBuffers body http sizes
      return (mb ++ rest, more)
    else return (mb, false)

/-- `clientCheckHeaderDone` packs without a buffer after the headers, then the buffers come. -/
def sendRanges (specs : List HttpHdrRangeSpec) (info : PartInfo) (prefixSize : ℤ) (body : List UInt8)
    (sizes : List ℕ) : Exec (List UInt8 × Bool) := do
  let (http, mb, more) ← clientPackMoreRanges
    { specs, info, iter := { prefixSize }, outOffset := prefixSize } []
  if more then
    let (rest, more) ← sendBuffers body http sizes
    return (mb ++ rest, more)
  else return (mb, false)

end SquidVideoCache.Range
