import SquidVideoCache.Lib.Machine
import SquidVideoCache.Lib.Text
import Mathlib.Data.List.DropRight

/-!
# The internal resolver, dns_internal.c

A lookup for addresses starts a query or joins one that is pending under the name it asks for.
A query that is answered with a name error goes on along the search path under another name.
The queries live in a heap and are linked into the list of the queries sent and into the hash table.
`idnsCallback` runs one callback at a time; a callback may look up other names before it returns.
-/

namespace SquidVideoCache.Dns
open Lib Function

variable {R : Type}

/-- The longest text that `name` and `orig` of a query hold, `NS_MAXDNAME`. -/
def nsMaxdname : ℕ := 1025

/-- The size of the name in a question, `RFC1035_MAXHOSTNAMESZ`. -/
def maxHostnameSize : ℕ := 256

def maxAttempt : ℕ := 3

/-! ## Questions and messages -/

structure Question where
  qtype : UInt16
  qclass : UInt16
  name : List UInt8
  deriving DecidableEq, Repr

/-- `RFC1035_TYPE_A` -/
def typeA : UInt16 := 1

/-- `RFC1035_CLASS_IN` -/
def classIn : UInt16 := 1

/-- The question that `rfc1035BuildAQuery` leaves in the query. -/
def rfc1035BuildAQuery (hostname : List UInt8) : Question := ⟨typeA, classIn, hostname.take (maxHostnameSize - 1)⟩

def dot : UInt8 := 46

def trimRoot (name : List UInt8) : List UInt8 := name.rdropWhile (· = dot)

/-- Whether two questions are the same; `rfc1035QueryCompare` returns zero then. -/
def rfc1035QueryCompare (a b : Question) : Bool := a.qtype = b.qtype && a.qclass = b.qclass &&
    if a.name.length = b.name.length then a.name.map tolower = b.name.map tolower
    else (trimRoot a.name).map tolower = (trimRoot b.name).map tolower

/-- What `rfc1035MessageUnpack` makes of a reply with one question; `answer` holds the records it could unpack. -/
structure Message (R : Type) where
  id : UInt16
  tc : Bool
  rcode : Fin 16
  query : Question
  answer : List R
  deriving DecidableEq, Repr

/-- The codes of an answer and of a name that does not exist. -/
def noError : Fin 16 := 0

def nameError : Fin 16 := 3

def Message.records (m : Message R) : List R := if m.rcode = 0 then m.answer else []

def Message.result (m : Message R) : ℤ := if m.rcode = 0 then m.answer.length else -(m.rcode : ℤ)

/-- The text that `rfc1035SetErrno` sets. -/
def rfc1035ErrorMessage : ℕ → String
  | 0 => "No error condition"
  | 1 => "Format Error: The name server was unable to interpret the query."
  | 2 => "Server Failure: The name server was unable to process this query."
  | 3 => "Name Error: The domain name does not exist."
  | 4 => "Not Implemented: The name server does not support the requested kind of query."
  | 5 => "Refused: The name server refuses to perform the specified operation."
  | 15 => "The DNS reply message is corrupt or could not be safely parsed."
  | _ => "Unknown Error"

/-! ## Queries -/

structure Config where
  resDefnames : Bool
  searchpath : List (List UInt8)
  ndots : ℕ
  nameservers : ℕ
  dnsSocket : Bool

/-- The callback of a lookup. The name that it asks for is kept to state what it is owed; no step reads it. -/
structure Lookup where
  data : ℕ
  asked : List UInt8
  deriving DecidableEq, Repr

structure Query where
  query : Question
  name : List UInt8
  orig : List UInt8
  id : UInt16
  lookup : Lookup
  attempt : ℕ
  error : Option String
  rcode : ℕ
  queue : List Lookup
  domain : UInt16
  doSearchpath : Bool
  /-- Whether the query has a TCP socket. -/
  tcp : Bool

def extend (name domain : List UInt8) : List UInt8 := name ++ dot :: domain

/-- Whether names are searched for: the byte before an empty name is read as its last. -/
def doesSearch (cfg : Config) (before : UInt8) (name : List UInt8) : Bool :=
  cfg.resDefnames && 0 < cfg.searchpath.length && name.getLastD before ≠ dot

def firstName (cfg : Config) (before : UInt8) (name : List UInt8) : List UInt8 :=
  match cfg.searchpath with
  | domain :: _ => if doesSearch cfg before name && name.count dot < cfg.ndots then extend name domain else name
  | [] => name

/-- The name that follows a name error. -/
def Query.nextName (cfg : Config) (q : Query) : List UInt8 :=
  match cfg.searchpath[q.domain.toNat]? with
  | some domain => extend q.orig domain
  | none => q.orig

/-- The query after a name error. -/
def Query.searchNext (cfg : Config) (q : Query) : Query := { q with
    name := q.nextName cfg
    domain := if q.domain.toNat < cfg.searchpath.length then q.domain + 1 else q.domain
    attempt := if q.domain.toNat < cfg.searchpath.length then q.attempt else q.attempt + 1 }

inductive Outcome where
  | retryTcp
  | resend (q : Query)
  | search (q : Query)
  | callback (q : Query)

def Query.setError (q : Query) (m : Message R) : Query :=
  if m.rcode = 0 then { q with error := none }
  else { q with error := some (rfc1035ErrorMessage m.rcode), rcode := m.rcode }

def Query.answered (cfg : Config) (q : Query) (m : Message R) : Outcome :=
  if m.tc && !q.tcp then .retryTcp
  else if m.rcode = 2 then
    if q.attempt + 1 < maxAttempt then .resend { q.setError m with attempt := q.attempt + 1 }
    else .callback { q.setError m with attempt := q.attempt + 1 }
  else if m.rcode = 3 && q.doSearchpath && q.attempt < maxAttempt then .search ((q.setError m).searchNext cfg)
  else .callback (q.setError m)

/-! ## The state of the resolver -/

structure Delivery (R : Type) where
  query : ℕ
  /-- Whether the query's own callback has still to run. -/
  own : Bool
  answers : List R
  n : ℤ
  error : Option String
  deriving DecidableEq, Repr

structure Call (R : Type) where
  lookup : Lookup
  answers : List R
  n : ℤ
  error : Option String
  deriving DecidableEq, Repr

structure State (R : Type) where
  queries : ℕ → Option Query
  next : ℕ
  /-- The queries sent, latest first. -/
  lruList : List ℕ
  /-- The entries of the hash table; within a chain the latest comes first. -/
  lookupHash : List ℕ
  delivery : Option (Delivery R)
  called : List (Call R)

def State.init : State R := ⟨fun _ => none, 0, [], [], none, []⟩

def State.put (s : State R) (p : ℕ) (q : Query) : State R := { s with queries := update s.queries p (some q) }

@[simp] lemma put_self (s : State R) (p : ℕ) (q : Query) : (s.put p q).queries p = some q := update_self ..

lemma put_of_ne (s : State R) {p p' : ℕ} (q : Query) (h : p' ≠ p) : (s.put p q).queries p' = s.queries p' :=
  update_of_ne h ..

def State.get (s : State R) (p : ℕ) : Exec Query :=
  match s.queries p with
  | some q => .ok q
  | none => .error .bounds

def State.find (s : State R) (ps : List ℕ) (test : Query → Bool) : Option (ℕ × Query) :=
  ps.findSome? fun p => (s.queries p).bind fun q => if test q then some (p, q) else none

/-- The search goes from the tail to the head. -/
def idnsFindQuery (s : State R) (id : UInt16) : Option (ℕ × Query) := s.find s.lruList.reverse (·.id = id)

def freeId (s : State R) (id : UInt16) : ℕ → UInt16
  | 0 => id
  | k + 1 => if (idnsFindQuery s id).isSome then freeId s (id + 1) k else id

/-- All the identifiers are tried before the first is taken a second time. -/
def idnsQueryID (s : State R) (random : UInt16) : UInt16 := freeId s random 65536

/-- A query in a list of one element has no neighbours there either. -/
def hasNeighbour (s : State R) (p : ℕ) : Bool := p ∈ s.lruList && s.lruList.length ≠ 1

/-- Puts a query at the head of the list of the queries sent. -/
def idnsSendQuery (cfg : Config) (s : State R) (p : ℕ) : Exec (State R) :=
  if cfg.dnsSocket then do
    cAssert (0 < cfg.nameservers)
    cAssert (hasNeighbour s p = false)
    let q ← s.get p
    pure { s.put p { q with tcp := false } with lruList := p :: s.lruList }
  else pure s

/-! ## Lookups -/

def cachedQuery (s : State R) (key : List UInt8) : Option (ℕ × Query) := s.find s.lookupHash (·.query.name = key)

def newQuery (cfg : Config) (s : State R) (name : List UInt8) (before : UInt8) (random : UInt16) (data : ℕ) : Query where
  query := rfc1035BuildAQuery (firstName cfg before name)
  name := firstName cfg before name
  orig := name
  id := idnsQueryID s random
  lookup := ⟨data, name⟩
  attempt := 0
  error := none
  rcode := 0
  queue := []
  domain := 0
  doSearchpath := doesSearch cfg before name
  tcp := false

/-- A `strcpy` into a name of a query. -/
def nameFits (name : List UInt8) : Exec Unit := if name.length ≤ nsMaxdname then .ok () else .error .bounds

def idnsALookup (cfg : Config) (s : State R) (name : List UInt8) (before : UInt8) (random : UInt16) (data : ℕ) :
    Exec (State R) :=
  match cachedQuery s name with
  | some (p, q) => .ok (s.put p { q with queue := ⟨data, name⟩ :: q.queue })
  | none => do
    nameFits name
    nameFits (firstName cfg before name)
    let s' := s.put s.next (newQuery cfg s name before random data)
    idnsSendQuery cfg { s' with next := s.next + 1, lookupHash := s.next :: s.lookupHash } s.next

/-! ## Replies -/

def addressed (s : State R) (m : Message R) : Option (ℕ × Query) :=
  match idnsFindQuery s m.id with
  | some (p, q) => if rfc1035QueryCompare q.query m.query then some (p, q) else none
  | none => none

def State.unlink (s : State R) (p : ℕ) : State R := { s with lruList := s.lruList.erase p }

def sendSearched (cfg : Config) (s : State R) (p : ℕ) (q : Query) (random : UInt16) : Exec (State R) := do
  nameFits q.name
  let q' := { q with id := idnsQueryID s random, query := rfc1035BuildAQuery q.name }
  idnsSendQuery cfg { s.put p q' with lookupHash := p :: s.lookupHash.erase p } p

def idnsGrokReply (cfg : Config) (s : State R) (m : Message R) (random : UInt16) : Exec (State R) :=
  match addressed s m with
  | none => .ok s
  | some (p, q) =>
    match q.answered cfg m with
    | .retryTcp => .ok { s.put p { q with tcp := true } with lruList := p :: s.lruList.erase p }
    | .resend q' => idnsSendQuery cfg ((s.unlink p).put p { q' with id := idnsQueryID (s.unlink p) random }) p
    | .search q' => sendSearched cfg (s.unlink p) p q' random
    | .callback q' => .ok { (s.unlink p).put p q' with delivery := some ⟨p, true, m.records, m.result, q'.error⟩ }

/-! ## The queue and the callbacks -/

inductive Timer where
  | waiting | retransmit | expired
  deriving DecidableEq, Repr

/-- A turn of the loop of `idnsCheckQueue`. -/
def idnsCheckQuery (cfg : Config) (s : State R) (p : ℕ) : Timer → Exec (State R)
  | .waiting => .ok { s with lruList := p :: s.lruList.erase p }
  | .retransmit => idnsSendQuery cfg (s.unlink p) p
  | .expired => do
    let q ← s.get p
    let d : Delivery R := if q.rcode ≠ 0 then ⟨p, true, [], -q.rcode, q.error⟩ else ⟨p, true, [], -16, some "Timeout"⟩
    pure { s.unlink p with delivery := some d }

/-- The calls after one more callback, which runs only while its data is valid. -/
def Delivery.log (d : Delivery R) (w : Lookup) (valid : Bool) (called : List (Call R)) : List (Call R) :=
  if valid then called ++ [⟨w, d.answers, d.n, d.error⟩] else called

/-- A turn of `idnsCallback`: the query's own callback, then those that wait on it; at last the query is freed. -/
def idnsCallback (s : State R) (d : Delivery R) (valid : Bool) : Exec (State R) := do
  let q ← s.get d.query
  if d.own then
    pure { s with delivery := some { d with own := false }, called := d.log q.lookup valid s.called }
  else
    match q.queue with
    | w :: queue => pure { s.put d.query { q with queue := queue } with called := d.log w valid s.called }
    | [] => pure { s with
        queries := update s.queries d.query none
        lookupHash := s.lookupHash.erase d.query
        delivery := none }

/-! ## Runs -/

inductive Event (R : Type) where
  | lookup (name : List UInt8) (before : UInt8) (random : UInt16) (data : ℕ)
  | reply (m : Message R) (random : UInt16)
  | check (p : ℕ) (timer : Timer)
  | callback (valid : Bool)

/-- While callbacks run, lookups are all that can come between. -/
def enabled (s : State R) : Event R → Bool
  | .lookup .. => true
  | .reply .. => s.delivery.isNone
  | .check p _ => s.delivery.isNone && p ∈ s.lruList
  | .callback _ => s.delivery.isSome

def step (cfg : Config) (s : State R) : Event R → Exec (State R)
  | .lookup name before random data => idnsALookup cfg s name before random data
  | .reply m random => idnsGrokReply cfg s m random
  | .check p timer => idnsCheckQuery cfg s p timer
  | .callback valid =>
    match s.delivery with
    | some d => idnsCallback s d valid
    | none => .ok s

def machine (cfg : Config) : Machine (State R) (Event R) Fault := ⟨.init, enabled, step cfg⟩

end SquidVideoCache.Dns
