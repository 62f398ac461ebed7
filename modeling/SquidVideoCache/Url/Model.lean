import SquidVideoCache.Lib.Text
import Mathlib.Data.List.DropRight

/-!
# URLs, url.c

`urlParse` takes a URL apart and `urlCanonical` puts it together again. A string is its bytes
before the NUL; the arrays of `urlParse` have room for every URL that passes the first check.
-/

namespace SquidVideoCache.Url
open Lib

def atSign : UInt8 := 64
def colon : UInt8 := 58
def slash : UInt8 := 47
def dot : UInt8 := 46

def maxUrl : ℕ := 8192
def squidHostnameLen : ℕ := 256
def maxLoginSz : ℕ := 128

/-- `method_t`; only one of them is treated apart. -/
inductive Method where
  | connect
  | get
  | other (index : ℕ)
  deriving DecidableEq, Repr

inductive Protocol where
  | none | http | ftp | gopher | wais | cacheobj | icp | urn | whois | internal | https
  deriving DecidableEq, Repr

def protocolStr : Protocol → List UInt8
  | .none => ascii "NONE".toList
  | .http => ascii "http".toList
  | .ftp => ascii "ftp".toList
  | .gopher => ascii "gopher".toList
  | .wais => ascii "wais".toList
  | .cacheobj => ascii "cache_object".toList
  | .icp => ascii "icp".toList
  | .urn => ascii "urn".toList
  | .whois => ascii "whois".toList
  | .internal => ascii "internal".toList
  | .https => ascii "https".toList

/-- `file` is another name of `ftp`. -/
def urlParseProtocol (s : List UInt8) : Protocol :=
  if strcasecmp s (ascii "http".toList) then .http
  else if strcasecmp s (ascii "ftp".toList) then .ftp
  else if strcasecmp s (ascii "https".toList) then .https
  else if strcasecmp s (ascii "file".toList) then .ftp
  else if strcasecmp s (ascii "gopher".toList) then .gopher
  else if strcasecmp s (ascii "wais".toList) then .wais
  else if strcasecmp s (ascii "cache_object".toList) then .cacheobj
  else if strcasecmp s (ascii "urn".toList) then .urn
  else if strcasecmp s (ascii "whois".toList) then .whois
  else if strcasecmp s (ascii "internal".toList) then .internal
  else .none

def urlDefaultPort : Protocol → ℕ
  | .http => 80
  | .https => 443
  | .ftp => 21
  | .gopher => 70
  | .wais => 210
  | .cacheobj | .internal => 3128
  | .whois => 43
  | .none | .icp | .urn => 0

inductive UriWhitespace where
  | strip | allow | encode | chop | deny
  deriving DecidableEq, Repr

structure Config where
  checkHostnames : Bool
  allowUnderscore : Bool
  uriWhitespace : UriWhitespace
  appendDomain : Option (List UInt8)

def Config.appendDomainLen (cfg : Config) : ℕ := ((cfg.appendDomain.map cString).getD []).length

structure Request where
  method : Method
  protocol : Protocol
  login : List UInt8
  host : List UInt8
  port : ℕ
  urlpath : List UInt8
  deriving DecidableEq, Repr

/-! ## The pieces -/

/-- `sscanf(url, "%[^:]:%d", host, &port)`, with the port that is set before. -/
def scanConnect (url : List UInt8) : Option (List UInt8 × ℤ) :=
  let host := url.takeWhile (· ≠ colon)
  if host = [] then none
  else match url.drop host.length with
    | [] => some (host, 443)
    | _ :: rest =>
      let res := strtoll 10 rest
      if res.used = 0 then some (host, 443) else some (host, toInt res.value)

/-- The path goes to the end of the line; an empty one is a slash. -/
def linePath (s : List UInt8) : List UInt8 :=
  let urlpath := s.takeWhile fun c => c ≠ 13 && c ≠ 10
  if urlpath = [] then [slash] else urlpath

/-- The protocol, the host with all that belongs to it, and the path. -/
def splitUrl (url : List UInt8) : Option (List UInt8 × List UInt8 × List UInt8) :=
  let proto := url.takeWhile (· ≠ colon)
  match url.drop proto.length with
  | 58 :: 47 :: 47 :: rest =>
    let host := rest.takeWhile (· ≠ slash)
    some (proto, host, linePath (rest.drop host.length))
  | _ => none

def splitLogin (host : List UInt8) : List UInt8 × List UInt8 := (splitLast atSign host).getD ([], host)

def splitPort (port : ℤ) (host : List UInt8) : List UInt8 × ℤ :=
  match splitLast colon host with
  | none => (host, port)
  | some (host, []) => (host, port)
  | some (host, t) => (host, atoi t)

def stripWhitespace (s : List UInt8) : List UInt8 := s.filter fun c => !isSpace c

def validHostnameChar (allowUnderscore : Bool) (c : UInt8) : Bool :=
  (65 ≤ c && c ≤ 90) || (97 ≤ c && c ≤ 122) || (48 ≤ c && c ≤ 57) || c = 45 || c = dot || (allowUnderscore && c = 95)

/-- The count of `strncat` is a `size_t`. -/
def appendDomain (cfg : Config) (host : List UInt8) : List UInt8 :=
  match cfg.appendDomain with
  | none => host
  | some domain =>
    if dot ∈ host then host
    else if host.length < squidHostnameLen then
      host ++ (cString domain).take (squidHostnameLen - host.length - 1)
    else host ++ cString domain

/-- The host as it is used, if it is one. -/
def cleanHost (cfg : Config) (host : List UInt8) : Option (List UInt8) :=
  let host := host.map tolower
  let host := if stringHasWhitespace host ∧ cfg.uriWhitespace = .strip then stripWhitespace host else host
  if cfg.checkHostnames ∧ ¬ host.all (validHostnameChar cfg.allowUnderscore) then none
  else
    let host := (appendDomain cfg host).rdropWhile (· = dot)
    if [dot, dot] <:+: host ∨ host.head? = some dot then none else some host

def rfc1738UnsafeChars : List UInt8 :=
  [0x3C, 0x3E, 0x22, 0x23, 0x7B, 0x7D, 0x7C, 0x5C, 0x5E, 0x7E, 0x5B, 0x5D, 0x60, 0x27, 0x20]

def hexUpper (n : UInt8) : UInt8 := if n < 10 then 48 + n else 55 + n

/-- The escape of a character, and that of the percent sign if `percent`. -/
def escapeChar (percent : Bool) (c : UInt8) : List UInt8 :=
  if c ∈ rfc1738UnsafeChars ∨ (percent ∧ c = 37) ∨ c ≤ 0x1F ∨ c = 0x7F ∨ 0x80 ≤ c then
    [37, hexUpper (c / 16), hexUpper (c % 16)]
  else [c]

def rfc1738Escape (url : List UInt8) : List UInt8 := url.flatMap (escapeChar true)

def rfc1738EscapeUnescaped (url : List UInt8) : List UInt8 := url.flatMap (escapeChar false)

def cleanPath (cfg : Config) (urlpath : List UInt8) : Option (List UInt8) :=
  if stringHasWhitespace urlpath then
    match cfg.uriWhitespace with
    | .deny => none
    | .allow => some urlpath
    | .encode => some ((rfc1738EscapeUnescaped urlpath).take (maxUrl - 1))
    | .chop => some (urlpath.takeWhile fun c => !stringHasWhitespace [c])
    | .strip => some (stripWhitespace urlpath)
  else some urlpath

/-! ## Parsing -/

structure Parts where
  protocol : Protocol
  login : List UInt8
  host : List UInt8
  port : ℤ
  urlpath : List UInt8

/-- The port is that of the URL or else that of the protocol. -/
def Parts.ofAuthority (protocol : Protocol) (authority urlpath : List UInt8) : Parts :=
  let (login, host) := splitLogin authority
  let (host, port) := splitPort (urlDefaultPort protocol) host
  ⟨protocol, login, host, port, urlpath⟩

def urlParts (method : Method) (url : List UInt8) : Option Parts :=
  if method = .connect then (scanConnect url).map fun (host, port) => ⟨.none, [], host, port, []⟩
  else (splitUrl url).map fun (proto, authority, urlpath) =>
    Parts.ofAuthority (urlParseProtocol proto) authority urlpath

/-- The checks that are the same for all URLs. -/
def Parts.check (cfg : Config) (method : Method) (parts : Parts) : Option Request :=
  match cleanHost cfg parts.host with
  | none => none
  | some host =>
    if parts.port < 1 ∨ 65535 < parts.port then none
    else (cleanPath cfg parts.urlpath).map fun urlpath =>
      ⟨method, parts.protocol, parts.login, host, parts.port.toNat, urlpath⟩

def urnScheme : List UInt8 := ascii "urn:".toList

def urnParse (method : Method) (urn : List UInt8) : Request := ⟨method, .urn, [], [], 0, urn.drop 4⟩

/-- What `urlParse` has in its arrays when it makes the request. -/
def urlScan (cfg : Config) (method : Method) (url : List UInt8) : Option Request :=
  let url := cString url
  if maxUrl - 1 < url.length + cfg.appendDomainLen then none
  else if method ≠ .connect ∧ urnScheme <+: url then some (urnParse method url)
  else (urlParts method url).bind (·.check cfg method)

/-- The arrays of the request are shorter than those of `urlParse`. -/
def Request.stored (r : Request) : Request :=
  { r with host := r.host.take (squidHostnameLen - 1), login := r.login.take (maxLoginSz - 1) }

def urlParse (cfg : Config) (method : Method) (url : List UInt8) : Option Request :=
  (urlScan cfg method url).map Request.stored

/-! ## Putting it together -/

def portText (r : Request) : List UInt8 :=
  if r.port ≠ urlDefaultPort r.protocol then colon :: decimal r.port else []

def loginText (r : Request) : List UInt8 := if r.login = [] then [] else r.login ++ [atSign]

def canonicalText (r : Request) : List UInt8 :=
  if r.protocol = .urn then urnScheme ++ r.urlpath
  else if r.method = .connect then r.host ++ colon :: decimal r.port
  else protocolStr r.protocol ++ [colon, slash, slash] ++ (loginText r ++ r.host ++ portText r) ++ r.urlpath

def urlCanonical (r : Request) : List UInt8 := (canonicalText r).take (maxUrl - 1)

end SquidVideoCache.Url
