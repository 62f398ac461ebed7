import SquidVideoCache.Lib.CString
import SquidVideoCache.Lib.Lines

/-!
# The marker objects of store.c

A URL whose reply depends on request headers has a marker object. Its text lists the
variants: the key of the object, its encoding and its entity tag, and the marks of the
request headers that lead to it. `storeAddVary` copies the text of the old marker line by
line into a new one and puts its own record in; `storeLocateVary` looks for a mark.

Both read the body of the marker in pieces. The replies' headers and the entries that hold
the texts are outside; a variant that is replaced is released, which `released` notes.
-/

namespace SquidVideoCache.Vary
open Lib

def keyField : List UInt8 := ascii ['K', 'e', 'y', ':', ' ']

def encodingField : List UInt8 :=
  ascii ['A', 'c', 'c', 'e', 'p', 't', '-', 'E', 'n', 'c', 'o', 'd', 'i', 'n', 'g', ':', ' ']

def etagField : List UInt8 := ascii ['E', 'T', 'a', 'g', ':', ' ']

def varyField : List UInt8 := ascii ['V', 'a', 'r', 'y', 'D', 'a', 't', 'a', ':', ' ']

/-- The value of a line that begins with the name (`strmatchbeg`). -/
def field (name line : List UInt8) : Option (List UInt8) :=
  if name <+: line then some (line.drop name.length) else none

/-- The buffer of `storeAppendVPrintf` has 4096 bytes, the last of them for the terminator. -/
def printfMax : ℕ := 4095

def storeAppendPrintf (name value : List UInt8) : List UInt8 := (name ++ value ++ [newline]).take printfMax

def printVariant (key : List UInt8) (acceptEncoding etag : Option (List UInt8)) : List UInt8 :=
  storeAppendPrintf keyField key ++ (acceptEncoding.elim [] (storeAppendPrintf encodingField)) ++
    etag.elim [] (storeAppendPrintf etagField)

/-! ## Adding a variant -/

structure AddVaryArgs where
  key : Option (List UInt8)
  etag : Option (List UInt8)
  varyHeaders : List UInt8
  acceptEncoding : Option (List UInt8)
  deriving DecidableEq

structure Current where
  key : Option (List UInt8) := none
  etag : Option (List UInt8) := none
  acceptEncoding : Option (List UInt8) := none
  thisKey : Bool := false
  keyUsed : Bool := false
  ignore : Bool := false

structure AddVaryState where
  /-- what has been appended to the new marker -/
  text : List UInt8 := []
  done : Bool := false
  current : Current := {}
  released : List (List UInt8) := []

def storeAddVaryFlush (args : AddVaryArgs) (s : AddVaryState) : AddVaryState :=
  if s.current.ignore || s.current.keyUsed then s
  else if s.current.thisKey then
    { s with
      text := s.text ++ printVariant (s.current.key.getD (args.key.getD [])) args.acceptEncoding args.etag ++
        storeAppendPrintf varyField args.varyHeaders
      done := true
      current := { s.current with keyUsed := true } }
  else
    match s.current.key with
    | none => s
    | some key =>
      { s with
        text := s.text ++ printVariant key s.current.acceptEncoding s.current.etag
        current := { s.current with key := none, etag := none, keyUsed := true } }

/-- What the entity tag of the old marker says about the variant. -/
def storeAddVaryETag (args : AddVaryArgs) (s : AddVaryState) (etag : List UInt8) : AddVaryState :=
  let current := { s.current with etag := some etag }
  if args.etag = some etag then
    if args.acceptEncoding.isSome ∧ args.acceptEncoding ≠ current.acceptEncoding then
      -- it is not ours
      { s with current }
    else
      match args.key with
      | none => { s with current := { current with thisKey := true } }
      | some key =>
        if !current.thisKey then
          let released := s.released ++ current.key.toList
          if !s.done then { s with released, current := { current with key := some key, thisKey := true } }
          else { s with released, current := { current with ignore := true } }
        else { s with current }
  else if current.thisKey then { s with current := { current with ignore := true } }
  else { s with current }

/-- The loop of `storeAddVaryReadOld`. -/
def storeAddVaryLine (args : AddVaryArgs) (s : AddVaryState) (line : List UInt8) : AddVaryState :=
  match field keyField line with
  | some key =>
    let s := if s.current.thisKey then storeAddVaryFlush args s else s
    { s with current := { key := some key, thisKey := args.key = some key } }
  | none =>
    match field etagField line with
    | some etag => storeAddVaryETag args s etag
    | none =>
      match (if s.current.ignore then none else field varyField line) with
      | some varyData =>
        let s := storeAddVaryFlush args s
        if varyData = args.varyHeaders then s else { s with text := s.text ++ (line ++ [newline]) }
      | none =>
        match field encodingField line with
        | some encoding => { s with current := { s.current with acceptEncoding := some encoding } }
        | none => s

/-- The text of the new marker when it is complete. -/
def freeAddVaryState (args : AddVaryArgs) (s : AddVaryState) : List UInt8 :=
  match args.key with
  | some key =>
    if !s.done then
      s.text ++ printVariant key args.acceptEncoding args.etag ++ storeAppendPrintf varyField args.varyHeaders
    else s.text
  | none => s.text

/-- The text of the new marker. The pieces are those of the old one; there are none if there is no old marker. -/
def storeAddVary (args : AddVaryArgs) (pieces : List (List UInt8)) : List UInt8 :=
  freeAddVaryState args (LineReader.readAll (storeAddVaryLine args) ⟨{}, [], 4096⟩ pieces)

/-! ## Looking for a mark -/

structure VaryData where
  key : Option (List UInt8) := none
  etag : Option (List UInt8) := none
  etags : List (List UInt8) := []
  deriving DecidableEq

structure LocateVaryState where
  data : VaryData := {}
  ignore : Bool := false
  encodingOk : Bool := false
  key : Option (List UInt8) := none
  etag : Option (List UInt8) := none

/-- The loop of `storeLocateVaryRead`. -/
def storeLocateVaryLine (varyData : List UInt8) (acceptEncoding : Option (List UInt8)) (s : LocateVaryState)
    (line : List UInt8) : LocateVaryState :=
  match field keyField line with
  | some key => { s with key := some key, etag := none, ignore := false, encodingOk := acceptEncoding.isNone }
  | none =>
    if s.ignore then s
    else
      match s.key with
      | none => s
      | some key =>
        match field etagField line with
        | some etag =>
          if s.encodingOk then
            { s with etag := some etag, data := { s.data with etags := s.data.etags ++ [etag] } }
          else { s with ignore := true }
        | none =>
          match field varyField line with
          | some mark =>
            if mark = varyData then { s with data := { s.data with key := some key, etag := s.etag } } else s
          | none =>
            match field encodingField line with
            | some encoding => if acceptEncoding = some encoding then { s with encodingOk := true } else s
            | none => s

/-- What `storeLocateVaryCallback` passes on. -/
def storeLocateVary (varyData : List UInt8) (acceptEncoding : Option (List UInt8)) (pieces : List (List UInt8)) :
    Option VaryData :=
  let s := LineReader.readAll (storeLocateVaryLine varyData acceptEncoding) ⟨{}, [], 4096⟩ pieces
  if s.data.key.isSome ∨ s.data.etags ≠ [] then some s.data else none

end SquidVideoCache.Vary
