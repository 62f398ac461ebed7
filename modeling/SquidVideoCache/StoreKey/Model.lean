import SquidVideoCache.Acsm.Model
import SquidVideoCache.VideoReg.Model

/-!
# store_key_md5.c

A cache key is the MD5 digest of a byte string. `storeKeyPublic` and
`storeKeyPublicByRequestMethod` first replace the URL of a video by the id of its
file, unless the exclusion list has the URL. The digest is a parameter `md5`, the
two automata of `acsm_cap` are the fields of `AcsmCap`.
-/

namespace SquidVideoCache.StoreKey
open Lib Acsm VideoReg

/-- `acsm_cap[0]` and `acsm_cap[1]`. -/
structure AcsmCap where
  keywords : AcsmStruct
  exclusions : AcsmStruct

/-- A `method_t`, an enumeration stored in four bytes. -/
abbrev Method := UInt32

/-- The fields of a `request_t` that the key depends on; `canonical` is what
`urlCanonical` returns. -/
structure Request where
  method : Method
  canonical : CString
  storeUrl : Option CString
  varyHeaders : Option CString
  varyEncoding : Option CString
  urlgroup : Option CString
  deriving DecidableEq

/-- How the processor stores an `int`. -/
inductive ByteOrder where
  | little
  | big
  deriving DecidableEq, Repr

def littleBytes (n : UInt32) : List UInt8 :=
  [n.toUInt8, (n >>> 8).toUInt8, (n >>> 16).toUInt8, (n >>> 24).toUInt8]

def rawBytes : ByteOrder → UInt32 → List UInt8
  | .little, n => littleBytes n
  | .big, n => (littleBytes n).reverse

/-! ## The bytes of a key -/

def publicPreimage (url : CString) (method : Method) : List UInt8 := method.toUInt8 :: url.bytes

/-- An optional field: a NUL, a letter and the string. -/
def tagged (tag : UInt8) : Option CString → List UInt8
  | none => []
  | some s => 0 :: tag :: s.bytes

def tagV : UInt8 := 86
def tagE : UInt8 := 69
def tagG : UInt8 := 71

def varyPart : Option CString → Option CString → List UInt8
  | none, _ => []
  | some varyHeaders, varyEncoding => tagged tagV (some varyHeaders) ++ tagged tagE varyEncoding

def requestPreimage (url : CString) (method : Method) (request : Request) : List UInt8 :=
  publicPreimage url method ++ varyPart request.varyHeaders request.varyEncoding ++
    tagged tagG request.urlgroup

def privatePreimage (order : ByteOrder) (url : CString) (method : Method) (id : ℤ) : List UInt8 :=
  rawBytes order (UInt32.ofBitVec (BitVec.ofInt 32 id)) ++ rawBytes order method ++ url.bytes

/-! ## Video URLs -/

/-- `ConvertCaseEX(query_str, url, strlen(url))` on the zeroed `query_str`. -/
def convertQuery (url : CString) : Exec (List UInt8) := convertCaseEX zeroed url.bytes url.bytes.length

/-- `acsmSearch_cap(acsm, query_str, strlen(query_str))` -/
def searchQuery (acsm : AcsmStruct) (queryStr : List UInt8) : Exec ℤ := do
  let n ← strlen queryStr
  acsmSearchCap acsm queryStr (UInt32.ofNat n)

/-- `url = videoID`, read up to its NUL. -/
def videoUrl (videoID : List UInt8) : Exec CString := do
  let _ ← strlen videoID
  return CString.ofBuffer videoID

/-- The part that follows the search of the exclusion list, with its result `ret`. -/
def substituteVideo (acsmCap : AcsmCap) (url : CString) (queryStr : List UInt8) (ret : ℤ) : Exec CString :=
  if 0 < ret ∧ ret < 100 then .ok url
  else do
    let ret ← searchQuery acsmCap.keywords queryStr
    if 0 ≤ ret - 100 then
      let (found, videoID) ← selectFunc url zeroed ret
      if found ≠ 0 then videoUrl videoID else return url
    else return url

variable {Key : Type} (md5 : List UInt8 → Key)

def storeKeyPublic (acsmCap : AcsmCap) (url : CString) (method : Method) : Exec Key := do
  let queryStr ← convertQuery url
  let ret ← searchQuery acsmCap.exclusions queryStr
  let url ← substituteVideo acsmCap url queryStr ret
  return md5 (publicPreimage url method)

/-- `query_str` and `ret` before the test of the exclusions; a URL longer than
`MAX_LEN` is not converted. -/
def requestQuery (acsmCap : AcsmCap) (url : CString) : Exec (List UInt8 × ℤ) :=
  if url.bytes.length ≤ maxLen then do
    let queryStr ← convertQuery url
    let ret ← searchQuery acsmCap.exclusions queryStr
    return (queryStr, ret)
  else .ok (zeroed, -1)

def storeKeyPublicByRequestMethod (acsmCap : AcsmCap) (request : Request) (method : Method) : Exec Key := do
  let url := request.storeUrl.getD request.canonical
  let (queryStr, ret) ← requestQuery acsmCap url
  let url ← substituteVideo acsmCap url queryStr ret
  return md5 (requestPreimage url method request)

def storeKeyPublicByRequest (acsmCap : AcsmCap) (request : Request) : Exec Key :=
  storeKeyPublicByRequestMethod md5 acsmCap request request.method

def storeKeyPrivate (order : ByteOrder) (url : CString) (method : Method) (id : ℤ) : Exec Key := do
  cAssert (0 < id)
  return md5 (privatePreimage order url method id)

end SquidVideoCache.StoreKey
