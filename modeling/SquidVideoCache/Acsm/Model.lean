import SquidVideoCache.Lib.CString

/-!
# The keyword automaton of acsmDFA.c

Patterns are added at the head of `acsmPatterns`, `acsmCompile_cap` turns them into a trie and
completes it to a DFA breadth first, and `acsmSearch_cap` returns the flag of the first pattern that
ends in the text. State numbers are C `unsigned`, with `ACSM_FAIL_STATE` the all-ones value. Match
counters (`nmatch`) are printed and never read, so they are left out, and memory is taken to be
available.
-/

namespace SquidVideoCache.Acsm
open Lib Function

/-- `ACSM_FAIL_STATE`, -1 stored in an `unsigned`. -/
def acsmFailState : ℕ := 2 ^ 32 - 1

/-- `sizeof(ACSM_STATETABLE)`: the flag, 256 next states, the fail state and a
pointer, with 8-byte pointers. -/
def sizeofStateTable : ℕ := 1040

/-- `SOLID_STATE` and `VIRTUAL_STATE1`; the two other flags are never stored. -/
inductive StateFlag where
  | solid
  | virtual1
  deriving DecidableEq, Repr

/-- `patrnCap` holds the `n_cap` upper-cased bytes. -/
structure AcsmPattern where
  patrnCap : List UInt8
  urlflag : UInt32
  deriving DecidableEq, Repr

def AcsmPattern.nCap (p : AcsmPattern) : ℕ := p.patrnCap.length

structure AcsmStateTable where
  flag : StateFlag
  nextState : UInt8 → ℕ
  failState : ℕ
  matchList : List AcsmPattern

structure AcsmStruct where
  acsmMaxState : ℕ
  acsmNumState : ℕ
  acsmPatterns : List AcsmPattern
  acsmStateTable : ℕ → AcsmStateTable

/-- `toupper` in the C locale. -/
def xlatcase (c : UInt8) : UInt8 := if 97 ≤ c ∧ c ≤ 122 then c - 32 else c

/-- `ConvertCaseEX`: one checked write for each of the `m` bytes. -/
def convertCaseEX (d s : List UInt8) (m : ℕ) : Exec (List UInt8) :=
  (List.range m).foldlM (fun d i => do store d i (xlatcase (← load s i))) d

/-- Equality under `strcmp`: only the bytes before a NUL are compared. -/
def strcmpEq (a b : List UInt8) : Bool := cString a == cString b

/-- `PrintMatch`: the flag of the first pattern of the list with the same text,
with the `int` conversion of its `return`; `none` is its 0 without a match. -/
def printMatch (patterns : List AcsmPattern) (mlist : AcsmPattern) : Option ℤ :=
  (patterns.find? fun temp => strcmpEq temp.patrnCap mlist.patrnCap).map
    fun temp => temp.urlflag.toBitVec.toInt

/-! ## Building -/

def emptyRow : AcsmStateTable := ⟨.solid, fun _ => 0, 0, []⟩

def acsmNew : AcsmStruct := ⟨0, 0, [], fun _ => emptyRow⟩

def acsmAddPattern (p : AcsmStruct) (pat : List UInt8) (urlflag : UInt32) : AcsmStruct :=
  { p with acsmPatterns := ⟨pat.map xlatcase, urlflag⟩ :: p.acsmPatterns }

/-- A list of patterns added one after the other to a new automaton. -/
def acsmAddPatterns (pats : List (List UInt8 × UInt32)) : AcsmStruct :=
  pats.foldl (fun p pat => acsmAddPattern p pat.1 pat.2) acsmNew

def setRow (acsm : AcsmStruct) (state : ℕ) (row : AcsmStateTable) : AcsmStruct :=
  { acsm with acsmStateTable := update acsm.acsmStateTable state row }

def addMatchListEntry (acsm : AcsmStruct) (state : ℕ) (px : AcsmPattern) : AcsmStruct :=
  let row := acsm.acsmStateTable state
  if row.matchList.any fun q => strcmpEq px.patrnCap q.patrnCap then acsm
  else setRow acsm state { row with matchList := px :: row.matchList }

/-- The first loop of `AddPatternStates`: the state reached along existing
transitions and the pattern bytes left over. -/
def matchUp (table : ℕ → AcsmStateTable) : ℕ → List UInt8 → ℕ × List UInt8
  | state, [] => (state, [])
  | state, c :: pattern =>
    let next := (table state).nextState c
    if next = acsmFailState then (state, c :: pattern) else matchUp table next pattern

/-- One turn of the second loop: a new state after `temp` on byte `c`. -/
def addState (acsm : AcsmStruct) (temp : ℕ) (c : UInt8) : AcsmStruct :=
  let state := acsm.acsmNumState + 1
  let row := acsm.acsmStateTable temp
  let acsm := setRow acsm temp { row with nextState := update row.nextState c state }
  let flag := if 128 ≤ c ∧ (acsm.acsmStateTable temp).flag = .solid then StateFlag.virtual1
    else .solid
  { setRow acsm state { acsm.acsmStateTable state with flag := flag } with acsmNumState := state }

def addStates : AcsmStruct → ℕ → List UInt8 → AcsmStruct × ℕ
  | acsm, state, [] => (acsm, state)
  | acsm, state, c :: pattern =>
    addStates (addState acsm state c) (acsm.acsmNumState + 1) pattern

/-- The automaton and the last state of the pattern after both loops. -/
def addPath (acsm : AcsmStruct) (pattern : List UInt8) : AcsmStruct × ℕ :=
  let acsm := setRow acsm 0 { acsm.acsmStateTable 0 with flag := .solid }
  let m := matchUp acsm.acsmStateTable 0 pattern
  addStates acsm m.1 m.2

def addPatternStates (acsm : AcsmStruct) (p : AcsmPattern) : AcsmStruct :=
  let r := addPath acsm p.patrnCap
  addMatchListEntry r.1 r.2 p

/-! ## Completing the DFA -/

/-- The loop variable `i` of `Build_DFA` as a table index. -/
def alphabet : List UInt8 := (List.range 256).map UInt8.ofNat

/-- `while ((next = NextState[fs][i]) == ACSM_FAIL_STATE) fs = FailState[fs];` -/
def locateNext (table : ℕ → AcsmStateTable) (i : UInt8) : ℕ → ℕ → Exec ℕ
  | 0, _ => .error .diverges
  | fuel + 1, fs =>
    let next := (table fs).nextState i
    if next = acsmFailState then locateNext table i fuel (table fs).failState else .ok next

def setFail (table : ℕ → AcsmStateTable) (s next : ℕ) : ℕ → AcsmStateTable :=
  update table s { table s with failState := next }

def setNext (table : ℕ → AcsmStateTable) (r : ℕ) (i : UInt8) (next : ℕ) : ℕ → AcsmStateTable := update table r
    { table r with nextState := update (table r).nextState i next }

/-- The body of the inner `for` loop. The queue is its list of states, head first. -/
def buildByte (fuel r : ℕ) (st : (ℕ → AcsmStateTable) × List ℕ) (i : UInt8) :
    Exec ((ℕ → AcsmStateTable) × List ℕ) :=
  let s := (st.1 r).nextState i
  let fs := (st.1 r).failState
  if s ≠ acsmFailState then do
    let next ← locateNext st.1 i fuel fs
    return (setFail st.1 s next, st.2 ++ [s])
  else .ok (setNext st.1 r i ((st.1 fs).nextState i), st.2)

/-- The outer `while` loop, one turn for each state taken from the queue. -/
def buildLoop (inner : ℕ) : ℕ → (ℕ → AcsmStateTable) → List ℕ → Exec (ℕ → AcsmStateTable)
  | _, table, [] => .ok table
  | 0, _, _ :: _ => .error .diverges
  | fuel + 1, table, r :: queue => do
    let st ← alphabet.foldlM (buildByte inner r) (table, queue)
    buildLoop inner fuel st.1 st.2

/-- The states of depth one: queued, with fail state 0. -/
def queueRoot (table : ℕ → AcsmStateTable) : (ℕ → AcsmStateTable) × List ℕ := alphabet.foldl (fun st i =>
    let s := (st.1 0).nextState i
    if s ≠ 0 then (setFail st.1 s 0, st.2 ++ [s]) else st) (table, [])

/-- Each loop may turn as often as there are states before it counts as endless. -/
def buildDFA (acsm : AcsmStruct) : Exec AcsmStruct := do
  let st := queueRoot acsm.acsmStateTable
  let table ← buildLoop acsm.acsmMaxState acsm.acsmMaxState st.1 st.2
  return { acsm with acsmStateTable := table }

/-- `for (i = 0; i < ALPHABET_SIZE; i++) if (NextState[i] == ACSM_FAIL_STATE) NextState[i] = 0;` -/
def closeRoot (acsm : AcsmStruct) : AcsmStruct :=
  let row := acsm.acsmStateTable 0
  let nextState := fun i => if row.nextState i = acsmFailState then 0 else row.nextState i
  setRow acsm 0 { row with nextState := nextState }

/-- The table after the `memset` and the loop that fails every transition. -/
def initTable (acsm : AcsmStruct) : AcsmStruct := { acsm with
    acsmMaxState := 1 + (acsm.acsmPatterns.map AcsmPattern.nCap).sum
    acsmNumState := 0
    acsmStateTable := fun _ => ⟨.solid, fun _ => acsmFailState, 0, []⟩ }

/-- `AC_MALLOC` takes its size as a `uint32_t`: a table of 2^32 bytes or more gets
a smaller block, which the `memset` after it overruns. -/
def acsmCompileCap (acsm : AcsmStruct) : Exec AcsmStruct :=
  let acsm := initTable acsm
  if sizeofStateTable * acsm.acsmMaxState < 2 ^ 32 then
    buildDFA (closeRoot (acsm.acsmPatterns.foldl addPatternStates acsm))
  else .error .bounds

/-! ## Searching -/

/-- The walk along the fail states for the first solid state with a match list;
`none` when it reaches state 0. -/
def failWalk (table : ℕ → AcsmStateTable) : ℕ → ℕ → Exec (Option AcsmPattern)
  | 0, _ => .error .diverges
  | fuel + 1, fail =>
    if fail = 0 then .ok none
    else match (table fail).matchList, (table fail).flag with
      | mlist :: _, .solid => .ok (some mlist)
      | _, _ => failWalk table fuel (table fail).failState

/-- The value `return PrintMatch(..)` gives, 0 without a match. -/
def returnMatch (acsm : AcsmStruct) (mlist : AcsmPattern) : ℤ := (printMatch acsm.acsmPatterns mlist).getD 0

/-- The result of a state without a match of its own, from its fail states. -/
def searchFail (acsm : AcsmStruct) (state : ℕ) : Exec (Option ℤ) := do
  let mlist ← failWalk acsm.acsmStateTable (acsm.acsmMaxState + 1)
    (acsm.acsmStateTable state).failState
  return mlist.map (returnMatch acsm)

/-- The loop of `acsmSearch_cap` over the bytes from `T` to `Tend`. -/
def searchLoop (acsm : AcsmStruct) : ℕ → List UInt8 → Exec ℤ
  | _, [] => .ok 0
  | temp, c :: text =>
    if c = 0 then .ok (-1) else
    let state := (acsm.acsmStateTable temp).nextState c
    if c < 128 then
      match (acsm.acsmStateTable state).matchList with
      | mlist :: _ => .ok (returnMatch acsm mlist)
      | [] => do
        match ← searchFail acsm state with
        | some ret => return ret
        | none => searchLoop acsm state text
    else
      let tempFlag := (acsm.acsmStateTable temp).flag
      -- no virtual state directly after a virtual state
      let state := if tempFlag = .virtual1 ∧ (acsm.acsmStateTable state).flag = .virtual1
        then 0 else state
      -- the second byte of an unmatched two-byte character is skipped
      if state = 0 ∧ tempFlag = .solid then searchLoop acsm state text.tail
      else
        -- `nfound` is set by the first `PrintMatch` that finds its pattern
        if tempFlag = .virtual1 ∧ (acsm.acsmStateTable state).matchList.any
            fun mlist => (printMatch acsm.acsmPatterns mlist).isSome then
          .ok ((acsm.acsmPatterns.head?.map fun p => p.urlflag.toBitVec.toInt).getD 0)
        else do
          match ← searchFail acsm state with
          | some ret => return ret
          | none => searchLoop acsm state text
  termination_by _ text => text.length

/-- `acsmSearch_cap(acsm, Tx, n)`; a length whose `int` value is not positive is refused. -/
def acsmSearchCap (acsm : AcsmStruct) (tx : List UInt8) (n : UInt32) : Exec ℤ :=
  if n.toBitVec.toInt ≤ 0 then .ok (-1) else searchLoop acsm 0 (tx.take n.toNat)

end SquidVideoCache.Acsm
