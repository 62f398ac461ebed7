import SquidVideoCache.Lib.Lines
import SquidVideoCache.Lib.Text

/-!
# HTTP headers, HttpHeader.c and HttpHeaderTools.c

A header is an array of entries with gaps where entries have been deleted, a mask of the
ids that occur, and the length of the text it packs into. A gap is `none`. The pointers
into the text that is parsed are its suffixes.
-/

namespace SquidVideoCache.Header
open Lib

/-! ## The fields -/

inductive HdrType where
  | accept | acceptCharset | acceptEncoding | acceptLanguage | acceptRanges | age | allow
  | authorization | cacheControl | connection | contentBase | contentDisposition | contentEncoding
  | contentLanguage | contentLength | contentLocation | contentMd5 | contentRange | contentType | te
  | transferEncoding | trailer | cookie | date | etag | expires | hdrFrom | host | ifMatch
  | ifModifiedSince | ifNoneMatch | ifRange | lastModified | link | location | maxForwards
  | mimeVersion | pragma | proxyAuthenticate | proxyAuthenticationInfo | proxyAuthorization
  | proxyConnection | hdrPublic | range | requestRange | referer | retryAfter | server | setCookie
  | upgrade | userAgent | vary | via | expect | warning | wwwAuthenticate | authenticationInfo
  | xCache | xCacheLookup | xForwardedFor | xRequestUri | xSquidError | negotiate | xErrorUrl
  | xErrorStatus | xHttp09FirstLine | frontEndHttps | proxySupport | keepAlive | other
  deriving DecidableEq, Repr

/-- `Headers[id].name`. The colon of the last one keeps it from being matched. -/
def headerName : HdrType → List UInt8
  | .accept => ascii "Accept".toList
  | .acceptCharset => ascii "Accept-Charset".toList
  | .acceptEncoding => ascii "Accept-Encoding".toList
  | .acceptLanguage => ascii "Accept-Language".toList
  | .acceptRanges => ascii "Accept-Ranges".toList
  | .age => ascii "Age".toList
  | .allow => ascii "Allow".toList
  | .authorization => ascii "Authorization".toList
  | .cacheControl => ascii "Cache-Control".toList
  | .connection => ascii "Connection".toList
  | .contentBase => ascii "Content-Base".toList
  | .contentDisposition => ascii "Content-Disposition".toList
  | .contentEncoding => ascii "Content-Encoding".toList
  | .contentLanguage => ascii "Content-Language".toList
  | .contentLength => ascii "Content-Length".toList
  | .contentLocation => ascii "Content-Location".toList
  | .contentMd5 => ascii "Content-MD5".toList
  | .contentRange => ascii "Content-Range".toList
  | .contentType => ascii "Content-Type".toList
  | .te => ascii "Te".toList
  | .transferEncoding => ascii "Transfer-Encoding".toList
  | .trailer => ascii "Trailer".toList
  | .cookie => ascii "Cookie".toList
  | .date => ascii "Date".toList
  | .etag => ascii "ETag".toList
  | .expires => ascii "Expires".toList
  | .hdrFrom => ascii "From".toList
  | .host => ascii "Host".toList
  | .ifMatch => ascii "If-Match".toList
  | .ifModifiedSince => ascii "If-Modified-Since".toList
  | .ifNoneMatch => ascii "If-None-Match".toList
  | .ifRange => ascii "If-Range".toList
  | .lastModified => ascii "Last-Modified".toList
  | .link => ascii "Link".toList
  | .location => ascii "Location".toList
  | .maxForwards => ascii "Max-Forwards".toList
  | .mimeVersion => ascii "Mime-Version".toList
  | .pragma => ascii "Pragma".toList
  | .proxyAuthenticate => ascii "Proxy-Authenticate".toList
  | .proxyAuthenticationInfo => ascii "Proxy-Authentication-Info".toList
  | .proxyAuthorization => ascii "Proxy-Authorization".toList
  | .proxyConnection => ascii "Proxy-Connection".toList
  | .hdrPublic => ascii "Public".toList
  | .range => ascii "Range".toList
  | .requestRange => ascii "Request-Range".toList
  | .referer => ascii "Referer".toList
  | .retryAfter => ascii "Retry-After".toList
  | .server => ascii "Server".toList
  | .setCookie => ascii "Set-Cookie".toList
  | .upgrade => ascii "Upgrade".toList
  | .userAgent => ascii "User-Agent".toList
  | .vary => ascii "Vary".toList
  | .via => ascii "Via".toList
  | .expect => ascii "Expect".toList
  | .warning => ascii "Warning".toList
  | .wwwAuthenticate => ascii "WWW-Authenticate".toList
  | .authenticationInfo => ascii "Authentication-Info".toList
  | .xCache => ascii "X-Cache".toList
  | .xCacheLookup => ascii "X-Cache-Lookup".toList
  | .xForwardedFor => ascii "X-Forwarded-For".toList
  | .xRequestUri => ascii "X-Request-URI".toList
  | .xSquidError => ascii "X-Squid-Error".toList
  | .negotiate => ascii "Negotiate".toList
  | .xErrorUrl => ascii "X-Error-URL".toList
  | .xErrorStatus => ascii "X-Error-Status".toList
  | .xHttp09FirstLine => ascii "X-HTTP09-First-Line".toList
  | .frontEndHttps => ascii "Front-End-Https".toList
  | .proxySupport => ascii "Proxy-support".toList
  | .keepAlive => ascii "Keep-Alive".toList
  | .other => ascii "Other:".toList

/-- The ids in the order of the table `Headers`. -/
def headerIds : List HdrType := [
  .accept, .acceptCharset, .acceptEncoding, .acceptLanguage, .acceptRanges, .age, .allow,
  .authorization, .cacheControl, .connection, .contentBase, .contentDisposition, .contentEncoding,
  .contentLanguage, .contentLength, .contentLocation, .contentMd5, .contentRange, .contentType,
  .te, .transferEncoding, .trailer, .cookie, .date, .etag, .expires, .hdrFrom, .host, .ifMatch,
  .ifModifiedSince, .ifNoneMatch, .ifRange, .lastModified, .link, .location, .maxForwards,
  .mimeVersion, .pragma, .proxyAuthenticate, .proxyAuthenticationInfo, .proxyAuthorization,
  .proxyConnection, .hdrPublic, .range, .requestRange, .referer, .retryAfter, .server, .setCookie,
  .upgrade, .userAgent, .vary, .via, .expect, .warning, .wwwAuthenticate, .authenticationInfo,
  .xCache, .xCacheLookup, .xForwardedFor, .xRequestUri, .xSquidError, .negotiate, .xErrorUrl,
  .xErrorStatus, .xHttp09FirstLine, .frontEndHttps, .proxySupport, .keepAlive, .other]

/-- The lengths are compared first. -/
def httpHeaderIdByName (name : List UInt8) : Option HdrType :=
  headerIds.find? fun id => name.length = (headerName id).length && strcasecmp name (headerName id)

@[ext]
structure HttpHeaderEntry where
  id : HdrType
  name : List UInt8
  value : List UInt8
  named : id ≠ .other → name = headerName id
  deriving DecidableEq

/-- The bytes of the entry when packed, with its `": "` and its line end. -/
def HttpHeaderEntry.size (e : HttpHeaderEntry) : ℤ := e.name.length + 2 + e.value.length + 2

structure HttpHeader where
  entries : List (Option HttpHeaderEntry) := []
  mask : HdrType → Bool := fun _ => false
  len : ℤ := 0

/-- The entries in the order in which `httpHeaderGetEntry` comes to them. -/
def HttpHeader.live (hdr : HttpHeader) : List HttpHeaderEntry := hdr.entries.reduceOption

def cbitSet (mask : HdrType → Bool) (id : HdrType) : HdrType → Bool := fun i => i = id || mask i

def cbitClr (mask : HdrType → Bool) (id : HdrType) : HdrType → Bool := fun i => i ≠ id && mask i

/-! ## Changing a header -/

def httpHeaderAddEntry (hdr : HttpHeader) (e : HttpHeaderEntry) : HttpHeader where
  entries := hdr.entries ++ [some e]
  mask := cbitSet hdr.mask e.id
  len := hdr.len + e.size

/-- A position behind the end is the end. -/
def httpHeaderInsertEntry (hdr : HttpHeader) (e : HttpHeaderEntry) (pos : ℕ) : HttpHeader where
  entries := hdr.entries.insertIdx (min pos hdr.entries.length) (some e)
  mask := cbitSet hdr.mask e.id
  len := hdr.len + e.size

/-- Leaves a gap and does not update the mask. -/
def httpHeaderDelAt (hdr : HttpHeader) (pos : ℕ) : Exec HttpHeader :=
  match hdr.entries[pos]? with
  | none => .error .assertion
  | some none => .error .bounds
  | some (some e) => do
    cAssert (0 ≤ hdr.len - e.size)
    .ok { hdr with entries := hdr.entries.set pos none, len := hdr.len - e.size }

def httpHeaderRefreshMask (hdr : HttpHeader) : HttpHeader :=
  { hdr with mask := hdr.live.foldl (fun mask e => cbitSet mask e.id) fun _ => false }

/-- The loop over `httpHeaderGetEntry` through the first positions of the array. The number is
that of the entries deleted so far. -/
def eachEntry (step : ℕ → HttpHeaderEntry → HttpHeader × ℕ → Exec (HttpHeader × ℕ)) :
    ℕ → HttpHeader × ℕ → Exec (HttpHeader × ℕ)
  | 0, s => .ok s
  | pos + 1, s => do
    let s ← eachEntry step pos s
    match s.1.entries[pos]? with
    | some (some e) => step pos e s
    | _ => .ok s

def delNamed (name : List UInt8) (pos : ℕ) (e : HttpHeaderEntry) (s : HttpHeader × ℕ) :
    Exec (HttpHeader × ℕ) :=
  if strcasecmp e.name name then do
    let hdr ← httpHeaderDelAt s.1 pos
    .ok (hdr, s.2 + 1)
  else .ok ({ s.1 with mask := cbitSet s.1.mask e.id }, s.2)

def httpHeaderDelByName (hdr : HttpHeader) (name : List UInt8) : Exec (HttpHeader × ℕ) :=
  eachEntry (delNamed name) hdr.entries.length ({ hdr with mask := fun _ => false }, 0)

def delWithId (id : HdrType) (pos : ℕ) (e : HttpHeaderEntry) (s : HttpHeader × ℕ) : Exec (HttpHeader × ℕ) :=
  if e.id = id then do
    let hdr ← httpHeaderDelAt s.1 pos
    .ok (hdr, s.2 + 1)
  else .ok s

def httpHeaderDelById (hdr : HttpHeader) (id : HdrType) : Exec (HttpHeader × ℕ) := do
  cAssert (id ≠ .other)
  if hdr.mask id then do
    let (hdr, count) ← eachEntry (delWithId id) hdr.entries.length (hdr, 0)
    cAssert (count ≠ 0)
    .ok ({ hdr with mask := cbitClr hdr.mask id }, count)
  else .ok (hdr, 0)

def httpHeaderRepack (hdr : HttpHeader) : HttpHeader := { hdr with entries := hdr.live.map some }

/-- The first loop of `httpHeaderUpdate`, for one fresh entry. -/
def delReplaced (deniedMask : HdrType → Bool) (old : HttpHeader) (e : HttpHeaderEntry) : Exec HttpHeader :=
  if deniedMask e.id then .ok old
  else if e.id ≠ .other then do
    let (old, _) ← httpHeaderDelById old e.id
    .ok old
  else do
    let (old, _) ← httpHeaderDelByName old e.name
    .ok old

/-- No mask is the mask that denies nothing. -/
def httpHeaderUpdate (old fresh : HttpHeader) (deniedMask : HdrType → Bool) : Exec HttpHeader := do
  let old ← fresh.live.foldlM (delReplaced deniedMask) old
  let old := fresh.live.foldl (fun old e => if deniedMask e.id then old else httpHeaderAddEntry old e) old
  .ok (httpHeaderRepack old)

/-! ## Mangling -/

section
variable {Access : Type}

/-- What `header_access` and `header_replace` say about a field. -/
structure HeaderMangler (Access : Type) where
  name : List UInt8
  accessList : Option Access
  replacement : Option (List UInt8)

structure Anonymizer (Access : Type) where
  headerAccess : HdrType → HeaderMangler Access
  /-- the fields without an id, a list that hangs on the entry of `HDR_OTHER` -/
  otherAccess : List (HeaderMangler Access)
  /-- the answer for the request in hand -/
  aclCheckFastRequest : Access → Bool

variable (cfg : Anonymizer Access)

def Anonymizer.find (e : HttpHeaderEntry) : Option (HeaderMangler Access) :=
  if e.id = .other then cfg.otherAccess.find? fun hm => cString e.name = cString hm.name
  else some (cfg.headerAccess e.id)

/-- The entry is kept, deleted, or gets another value in place. -/
inductive Mangled where
  | keep
  | delete
  | replace (value : List UInt8)

def httpHdrMangle (e : HttpHeaderEntry) : Mangled :=
  match cfg.find e with
  | none => .keep
  | some hm =>
    match hm.accessList with
    | none => .keep
    | some list =>
      if cfg.aclCheckFastRequest list then .keep
      else match hm.replacement with
        | none => .delete
        | some value => .replace (cString value)

def mangleAt (pos : ℕ) (e : HttpHeaderEntry) (s : HttpHeader × ℕ) : Exec (HttpHeader × ℕ) :=
  match httpHdrMangle cfg e with
  | .keep => .ok s
  | .delete => do
    let hdr ← httpHeaderDelAt s.1 pos
    .ok (hdr, s.2 + 1)
  | .replace value =>
    .ok ({ s.1 with entries := s.1.entries.set pos (some { e with value }) }, s.2)

def httpHdrMangleList (l : HttpHeader) : Exec HttpHeader := do
  let (l, removedHeaders) ← eachEntry (mangleAt cfg) l.entries.length (l, 0)
  if removedHeaders ≠ 0 then .ok (httpHeaderRefreshMask l) else .ok l

end

/-! ## Parsing -/

def cr : UInt8 := 13
def space : UInt8 := 32
def tab : UInt8 := 9
def colon : UInt8 := 58

/-- The header that has the id, which the mask promises. -/
def httpHeaderFindEntry (hdr : HttpHeader) (id : HdrType) : Exec (Option HttpHeaderEntry) :=
  if hdr.mask id then
    match hdr.live.find? (·.id = id) with
    | some e => .ok (some e)
    | none => .error .assertion
  else .ok none

def httpHeaderParseSize (value : List UInt8) : Option ℤ :=
  let res := strtoll 10 (cString value)
  if res.used = 0 ∨ res.range then none else some res.value

/-- A new entry, with the name of the table if the name is known. -/
def entryNamed (name value : List UInt8) : HttpHeaderEntry :=
  let id := (httpHeaderIdByName name).getD .other
  if h : id = .other then ⟨id, name, value, fun hne => absurd h hne⟩
  else ⟨id, headerName id, value, fun _ => rfl⟩

/-- `relaxed` is `Config.onoff.relaxed_header_parser`. -/
def trimName (relaxed : Bool) (name : List UInt8) : List UInt8 :=
  if relaxed then name.rdropWhile isSpace else name

def httpHeaderEntryParseCreate (relaxed : Bool) (field : List UInt8) : Option HttpHeaderEntry :=
  let name := field.takeWhile (· ≠ colon)
  if colon ∉ field ∨ name = [] ∨ 65534 < name.length then none
  else
    let trimmed := trimName relaxed name
    if trimmed = [] then none
    else
      let value := ((field.drop (name.length + 1)).dropWhile isSpace).rdropWhile isSpace
      if 65534 < value.length then none else some (entryNamed trimmed value)

/-- The text before the first newline, and the text behind it. -/
def splitLine : List UInt8 → Option (List UInt8 × List UInt8)
  | [] => none
  | c :: s => if c = newline then some ([], s) else (splitLine s).map fun (line, rest) => (c :: line, rest)

/-- The length of a line without the CR before its newline, or without two of them. -/
def lineEnd (relaxed : Bool) (line : List UInt8) : ℕ :=
  if line.getLast? = some cr then
    let n := line.length - 1
    if relaxed ∧ 1 < n ∧ (line)[n - 1]? = some cr then n - 1 else n
  else line.length

/-- Another CR becomes a space, or is an error. -/
def strayCr (relaxed : Bool) (line : List UInt8) : Option (List UInt8) :=
  if cr ∈ line then if relaxed then some (line.map fun c => if c = cr then space else c) else none
  else some line

/-- Whether a text begins with the space or tab of a continuation line. -/
def folds : List UInt8 → Bool
  | [] => false
  | c :: _ => c = space || c = tab

lemma splitLine_length {s line rest : List UInt8} (h : splitLine s = some (line, rest)) : rest.length < s.length := by
  induction s generalizing line with
  | nil => cases h
  | cons c s ih =>
    unfold splitLine at h
    split_ifs at h
    · cases h
      exact Nat.lt_succ_self _
    · obtain ⟨⟨line', rest'⟩, hs, heq⟩ := Option.map_eq_some_iff.mp h
      cases heq
      exact Nat.lt_succ_of_lt (ih hs)

/-- The lines of one field: its text, which begins with what the earlier lines have left,
and the text behind it. -/
def readField (relaxed : Bool) (field text : List UInt8) : Option (List UInt8 × List UInt8) :=
  match _h : splitLine text with
  | none => none
  | some (line, rest) =>
    let n := lineEnd relaxed line
    match strayCr relaxed (line.take n) with
    | none => none
    | some clean =>
      if n = 1 ∧ field ≠ [] then none
      else if folds rest then readField relaxed (field ++ clean ++ line.drop n ++ [newline]) rest
      else some (field ++ clean, rest)
termination_by text.length
decreasing_by exact splitLine_length ‹_›

inductive Verdict where
  | reject
  | skip
  | add (hdr : HttpHeader)

def checkContentLength (relaxed : Bool) (hdr : HttpHeader) (e : HttpHeaderEntry) : Exec Verdict :=
  match httpHeaderParseSize e.value with
  | none => .ok .reject
  | some l1 => do
    match ← httpHeaderFindEntry hdr e.id with
    | none => .ok (.add hdr)
    | some e2 =>
      if cString e.value ≠ cString e2.value then
        if relaxed then
          match httpHeaderParseSize e2.value with
          | none => .ok .reject
          | some l2 =>
            if l1 > l2 then do
              let (hdr, _) ← httpHeaderDelById hdr e2.id
              .ok (.add hdr)
            else .ok .skip
        else .ok .reject
      else if relaxed then .ok .skip
      else .ok .reject

def checkEntry (relaxed : Bool) (hdr : HttpHeader) (e : HttpHeaderEntry) : Exec Verdict :=
  if e.id = .contentLength then checkContentLength relaxed hdr e
  else if e.id = .other ∧ stringHasWhitespace e.name ∧ !relaxed then .ok .reject
  else .ok (.add hdr)

lemma readField_length {relaxed : Bool} {field text field' rest : List UInt8}
    (h : readField relaxed field text = some (field', rest)) : rest.length < text.length := by
  fun_induction readField _ field text with
  | case1 => cases h
  | case2 => cases h
  | case3 => cases h
  | case4 field text line rest' hs n clean hc hn hf ih => exact (ih h).trans (splitLine_length hs)
  | case5 field text line rest' hs n clean hc hn hf =>
    cases h
    exact splitLine_length hs

/-- The loop of `httpHeaderParse`; the result `none` is that of a header that is reset. -/
def parseFields (relaxed : Bool) (hdr : HttpHeader) (text : List UInt8) : Exec (Option HttpHeader) :=
  if text = [] then .ok (some hdr)
  else match _h : readField relaxed [] text with
    | none => .ok none
    | some (field, rest) =>
      if field = [] then if rest = [] then .ok (some hdr) else .ok none
      else match httpHeaderEntryParseCreate relaxed field with
        | none => if relaxed then parseFields relaxed hdr rest else .ok none
        | some e => do
          match ← checkEntry relaxed hdr e with
          | .reject => .ok none
          | .skip => parseFields relaxed hdr rest
          | .add hdr => parseFields relaxed (httpHeaderAddEntry hdr e) rest
termination_by text.length
decreasing_by all_goals exact readField_length ‹_›

def httpHeaderParse (relaxed : Bool) (text : List UInt8) : Exec (Option HttpHeader) :=
  if 0 ∈ text then .ok none else parseFields relaxed {} text

/-! ## Packing -/

def httpHeaderEntryPackInto (e : HttpHeaderEntry) : List UInt8 :=
  e.name ++ [colon, space] ++ e.value ++ [cr, newline]

def httpHeaderPackInto (hdr : HttpHeader) : List UInt8 := hdr.live.flatMap httpHeaderEntryPackInto

end SquidVideoCache.Header
