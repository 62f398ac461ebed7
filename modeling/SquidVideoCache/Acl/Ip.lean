import SquidVideoCache.Lib.Splay
import Mathlib.Data.Set.Lattice
import Mathlib.Order.CompletePartialOrder

/-!
# Address lists of acl.c

The entries of an address ACL are networks and ranges, kept in a splay tree. Addresses are in host
order. The scanning of the text is outside: `IpToken` is what `aclParseIpData` has read, with the
answer of `gethostbyname` for a name. With a contiguous mask an entry is an interval that starts at
`addr1`, and the tree is one of intervals.
-/

namespace SquidVideoCache.Acl
open Lib SplayNode

structure AclIpData where
  addr1 : UInt32
  addr2 : UInt32
  mask : UInt32
  deriving DecidableEq, Repr

def anyAddr : UInt32 := 0

def noAddr : UInt32 := 0xffffffff

inductive IpToken where
  | all
  | hostName (addresses : List UInt32)
  | decoded (addr1 : UInt32) (addr2 mask : Option UInt32)

/-- A name without addresses leaves the entry as it was allocated. -/
def aclParseIpData : IpToken → List AclIpData
  | .all => [⟨0, 0, 0⟩]
  | .hostName [] => [⟨0, 0, noAddr⟩]
  | .hostName addresses => addresses.map fun x => ⟨x, 0, noAddr⟩
  | .decoded addr1 addr2 mask =>
    let mask := mask.getD noAddr
    [⟨addr1 &&& mask, addr2.getD 0 &&& mask, mask⟩]

def aclIpNetworkCompare2 (p q : AclIpData) : ℤ :=
  let A := p.addr1 &&& q.mask
  let B := q.addr1
  let C := q.addr2
  if C = 0 then
    if A > B then 1
    else if A < B then -1
    else 0
  else
    if A > C then 1
    else if A < B then -1
    else 0

def aclIpNetworkCompare (a b : AclIpData) : ℤ :=
  let ret := aclIpNetworkCompare2 b a
  if ret ≠ 0 then aclIpNetworkCompare2 a b else ret

def aclIpAddrNetworkCompare (a b : AclIpData) : ℤ := aclIpNetworkCompare2 a b

/-- The body of the loop of `aclParseIpList`; an entry that is found is freed. -/
def aclInsertIp (top : SplayNode AclIpData) (q : AclIpData) : SplayNode AclIpData :=
  (splayInsert aclIpNetworkCompare q top).1

def aclParseIpList (tokens : List IpToken) (top : SplayNode AclIpData) : SplayNode AclIpData :=
  (tokens.flatMap aclParseIpData).foldl aclInsertIp top

def hostEntry (c : UInt32) : AclIpData := ⟨c, anyAddr, noAddr⟩

def aclMatchIp (top : SplayNode AclIpData) (c : UInt32) : SplayNode AclIpData × Bool :=
  let (top, result) := splaySplay (aclIpAddrNetworkCompare (hostEntry c)) top
  (top, result = 0)

inductive IpOp where
  | insert (q : AclIpData)
  | lookup (c : UInt32)
  deriving DecidableEq, Repr

def IpOp.apply (top : SplayNode AclIpData) : IpOp → SplayNode AclIpData
  | insert q => aclInsertIp top q
  | lookup c => (aclMatchIp top c).1

def ipRun (ops : List IpOp) : SplayNode AclIpData := ops.foldl IpOp.apply nil

/-! ## Entries as sets of addresses -/

namespace AclIpData

/-- The addresses of an entry: those whose masked value is its address, or is in its range. -/
def addresses (q : AclIpData) : Set UInt32 :=
  if q.addr2 = 0 then {c | c &&& q.mask = q.addr1}
  else {c | q.addr1 ≤ c &&& q.mask ∧ c &&& q.mask ≤ q.addr2}

def last (q : AclIpData) : UInt32 := if q.addr2 = 0 then q.addr1 else q.addr2

/-- The number of addresses that the mask does not tell apart. -/
def size (q : AclIpData) : ℕ := 2 ^ 32 - q.mask.toNat

/-- Both addresses are masked and in order, and the mask is contiguous. -/
structure WellFormed (q : AclIpData) : Prop where
  masked1 : q.addr1 &&& q.mask = q.addr1
  masked2 : q.addr2 &&& q.mask = q.addr2
  contiguous : ∃ k ≤ 32, q.mask.toNat = 2 ^ 32 - 2 ^ k
  ordered : q.addr2 = 0 ∨ q.addr1 ≤ q.addr2

lemma size_pos (q : AclIpData) : 0 < q.size := by
  have hlt := q.mask.toNat_lt
  unfold size
  omega

end AclIpData

lemma and_contiguous {c m : UInt32} {k : ℕ} (hk : k ≤ 32) (hm : m.toNat = 2 ^ 32 - 2 ^ k) :
    (c &&& m).toNat = c.toNat / 2 ^ k * 2 ^ k := by
  have hle : 2 ^ k ≤ 2 ^ 32 := Nat.pow_le_pow_right (by omega) hk
  have hpos : 0 < 2 ^ k := Nat.two_pow_pos k
  have hmask : 2 ^ 32 - 2 ^ k = 2 ^ 32 - (2 ^ k - 1 + 1) := by omega
  rw [UInt32.toNat_and, hm, hmask, ← Nat.shiftRight_eq_div_pow, ← Nat.shiftLeft_eq]
  apply Nat.eq_of_testBit_eq
  intro i
  rw [Nat.testBit_and, Nat.testBit_two_pow_sub_succ (by omega)]
  by_cases hik : k ≤ i
  · by_cases hi : i < 32
    · simp [hik, hi]
    · -- the address has no bits there
      have hbit : c.toNat.testBit i = false :=
        Nat.testBit_lt_two_pow (c.toNat_lt.trans_le (Nat.pow_le_pow_right (by omega) (by omega)))
      simp [hik, hbit]
  · simp [hik]
    omega

namespace AclIpData.WellFormed

variable {q : AclIpData} {b c : UInt32}

lemma and_mask (h : q.WellFormed) (c : UInt32) : (c &&& q.mask).toNat = c.toNat / q.size * q.size := by
  obtain ⟨k, hk, hm⟩ := h.contiguous
  have hle : 2 ^ k ≤ 2 ^ 32 := Nat.pow_le_pow_right (by omega) hk
  have hsize : q.size = 2 ^ k := by
    rw [size, hm, Nat.sub_sub_self hle]
  rw [and_contiguous hk hm, hsize]

lemma and_mask_lt_iff (h : q.WellFormed) (hb : b &&& q.mask = b) : c &&& q.mask < b ↔ c.toNat < b.toNat := by
  have hbou := h.and_mask b
  rw [hb] at hbou
  rw [UInt32.lt_iff_toNat_lt, h.and_mask, hbou, Nat.mul_lt_mul_right q.size_pos,
    Nat.div_lt_iff_lt_mul q.size_pos]

lemma lt_and_mask_iff (h : q.WellFormed) (hb : b &&& q.mask = b) : b < c &&& q.mask ↔ b.toNat + q.size ≤ c.toNat := by
  have hbou := h.and_mask b
  rw [hb] at hbou
  rw [UInt32.lt_iff_toNat_lt, h.and_mask, hbou, Nat.mul_lt_mul_right q.size_pos, ← Nat.succ_le_iff,
    Nat.le_div_iff_mul_le q.size_pos, Nat.succ_mul]

lemma last_masked (h : q.WellFormed) : q.last &&& q.mask = q.last := by
  unfold last
  split_ifs
  · exact h.masked1
  · exact h.masked2

lemma addr1_le_last (h : q.WellFormed) : q.addr1 ≤ q.last := by
  unfold last
  split_ifs with hzero
  · exact UInt32.le_refl _
  · exact h.ordered.resolve_left hzero

end AclIpData.WellFormed

lemma hostEntry_wellFormed (c : UInt32) : (hostEntry c).WellFormed where
  masked1 := by
    apply UInt32.toNat_inj.mp
    rw [and_contiguous (Nat.zero_le 32) rfl]
    simp
  masked2 := by simp [hostEntry, anyAddr]
  contiguous := ⟨0, by omega, by simp [hostEntry, noAddr]⟩
  ordered := .inl rfl

/-- Both branches compare with the first and the last masked address. -/
theorem aclIpNetworkCompare2_eq (p q : AclIpData) : aclIpNetworkCompare2 p q =
    if q.last < p.addr1 &&& q.mask then 1 else if p.addr1 &&& q.mask < q.addr1 then -1 else 0 := by
  simp only [aclIpNetworkCompare2, AclIpData.last]
  split_ifs <;> rfl

lemma aclIpNetworkCompare_eq : aclIpNetworkCompare = compareBoth aclIpNetworkCompare2 := by
  funext a b
  simp only [aclIpNetworkCompare, compareBoth, ne_eq]
  split_ifs with h
  · exact h
  · rfl

lemma mem_addresses_iff (c : UInt32) (q : AclIpData) :
    c ∈ q.addresses ↔ aclIpNetworkCompare2 (hostEntry c) q = 0 := by
  have hran : c ∈ q.addresses ↔ q.addr1 ≤ c &&& q.mask ∧ c &&& q.mask ≤ q.last := by
    unfold AclIpData.addresses AclIpData.last
    split_ifs
    · simp only [Set.mem_ofPred_eq, UInt32.le_iff_toNat_le, ← UInt32.toNat_inj]
      omega
    · rfl
  rw [hran, aclIpNetworkCompare2_eq, hostEntry]
  split_ifs with hlast hfir
  · simp [UInt32.not_le.mpr hlast]
  · simp [UInt32.not_le.mpr hfir]
  · simp [UInt32.not_lt.mp hlast, UInt32.not_lt.mp hfir]

/-- Entries with contiguous masks are intervals of addresses. -/
def ipIntervals : Intervals ℕ AclIpData.WellFormed aclIpNetworkCompare2 where
  start q := q.addr1.toNat
  stop q := q.last.toNat + q.size
  start_lt_stop {a} h := by
    have hle := UInt32.le_iff_toNat_le.mp h.addr1_le_last
    have hpos := a.size_pos
    omega
  neg_iff {p a} _ h := by
    have hle := UInt32.le_iff_toNat_le.mp h.addr1_le_last
    have hneg := h.and_mask_lt_iff (c := p.addr1) h.masked1
    have hpos := h.lt_and_mask_iff (c := p.addr1) h.last_masked
    rw [aclIpNetworkCompare2_eq]
    split_ifs <;> simp_all
    omega
  pos_iff {p a} _ h := by
    have hpos := h.lt_and_mask_iff (c := p.addr1) h.last_masked
    rw [aclIpNetworkCompare2_eq, ← hpos]
    split_ifs <;> simp_all

/-- The comparison reads only the first address of its first entry. -/
theorem addr1_mem_addresses_iff (p q : AclIpData) : p.addr1 ∈ q.addresses ↔ aclIpNetworkCompare2 p q = 0 := by
  rw [mem_addresses_iff]
  rfl

def Overlaps (x y : AclIpData) : Prop := ¬Disjoint x.addresses y.addresses

noncomputable instance : DecidableRel Overlaps := Classical.decRel _

lemma overlaps_iff {x y : AclIpData} (hx : x.WellFormed) (hy : y.WellFormed) :
    Overlaps x y ↔ aclIpNetworkCompare2 x y = 0 ∨ aclIpNetworkCompare2 y x = 0 := by
  have hself : ∀ q : AclIpData, q.WellFormed → q.addr1 ∈ q.addresses := by
    intro q hq
    rw [addr1_mem_addresses_iff]
    exact (ipIntervals.eq_zero_iff hq hq).mpr ⟨le_rfl, ipIntervals.start_lt_stop hq⟩
  rw [Overlaps, Set.not_disjoint_iff]
  constructor
  · rintro ⟨c, hcx, hcy⟩
    rw [mem_addresses_iff, ipIntervals.eq_zero_iff (hostEntry_wellFormed c)] at hcx hcy
    · rw [ipIntervals.eq_zero_iff hx hy, ipIntervals.eq_zero_iff hy hx]
      omega
    · exact hy
    · exact hx
  · rintro (h | h)
    · exact ⟨x.addr1, hself x hx, (addr1_mem_addresses_iff x y).mpr h⟩
    · exact ⟨y.addr1, (addr1_mem_addresses_iff y x).mpr h, hself y hy⟩

/-! ## The tree over its operations -/

def IpOp.treeOp : IpOp → TreeOp AclIpData
  | insert q => .insert q
  | lookup c => .search (hostEntry c)

lemma ipRun_eq_run (ops : List IpOp) : ipRun ops = run aclIpNetworkCompare2 (ops.map IpOp.treeOp) := by
  have hstep : ∀ (top : SplayNode AclIpData) (op : IpOp),
      op.apply top = op.treeOp.apply aclIpNetworkCompare2 top := by
    intro top op
    cases op with
    | insert q => simp [IpOp.apply, aclInsertIp, aclIpNetworkCompare_eq, IpOp.treeOp, TreeOp.apply]
    | lookup c => rfl
  rw [ipRun, run, List.foldl_map]
  congr 1
  funext top op
  exact hstep top op

/-- The entries that are disjoint from all the entries kept before. -/
noncomputable def ipKept (ops : List IpOp) : List AclIpData := kept Overlaps (ops.map IpOp.treeOp)

theorem ipRun_kept_found {ops : List IpOp} (hops : ∀ q, .insert q ∈ ops → q.WellFormed) :
    (ipRun ops).toList.Perm (ipKept ops) ∧
    ∀ c, (aclMatchIp (ipRun ops) c).2 = true ↔ ∃ q ∈ ipKept ops, c ∈ q.addresses := by
  have hdata : ∀ op ∈ ops.map IpOp.treeOp, op.data.WellFormed := by
    intro op hop
    obtain ⟨ipOp, hmem, rfl⟩ := List.mem_map.mp hop
    cases ipOp with
    | insert q => exact hops q hmem
    | lookup c => exact hostEntry_wellFormed c
  have hove := fun x y hx hy => overlaps_iff (x := x) (y := y) hx hy
  rw [ipRun_eq_run]
  refine ⟨(ipIntervals.ordered_run hove hdata).2, fun c => ?_⟩
  have hfou := ipIntervals.search_run hove hdata (hostEntry_wellFormed c)
  simp only [mem_addresses_iff, ipKept, ← hfou]
  exact decide_eq_true_iff

def networkTen : AclIpData := ⟨0x0a000000, 0, 0xff000000⟩

def rangeEleven : AclIpData := ⟨0x0b000000, 0x0b000500, 0xffffff00⟩

lemma networkTen_wellFormed : networkTen.WellFormed where
  masked1 := by decide
  masked2 := by decide
  contiguous := ⟨24, by decide, by decide⟩
  ordered := .inl rfl

lemma rangeEleven_wellFormed : rangeEleven.WellFormed where
  masked1 := by decide
  masked2 := by decide
  contiguous := ⟨8, by decide, by decide⟩
  ordered := .inr (by decide)

/-- A network and a range, with a lookup between them. -/
theorem ipRun_network_range :
    (ipRun [.insert networkTen, .lookup 0x0a010203, .insert rangeEleven]).toList = [networkTen, rangeEleven] ∧
    (ipRun [.insert networkTen, .lookup 0x0a010203, .insert rangeEleven]).toList.Perm
      (ipKept [.insert networkTen, .lookup 0x0a010203, .insert rangeEleven]) := by
  refine ⟨by decide +kernel, (ipRun_kept_found fun q hq => ?_).1⟩
  simp only [List.mem_cons, IpOp.insert.injEq, reduceCtorEq, List.not_mem_nil, or_false, false_or] at hq
  rcases hq with rfl | rfl
  · exact networkTen_wellFormed
  · exact rangeEleven_wellFormed

/-- The mask 255.0.255.0 lets the range have a part in each network 10.x. -/
def rangeHoles : AclIpData := ⟨0x0a000000, 0x0a000500, 0xff00ff00⟩

def rangeAcross : AclIpData := ⟨0x0a010600, 0x0a020100, noAddr⟩

/-- The start of neither range is in the other one, so both are kept although they share an address. -/
theorem ranges_overlap_kept : (aclParseIpData (.decoded 0x0a000000 (some 0x0a000500) (some 0xff00ff00)) = [rangeHoles] ∧
      rangeHoles.addr1 ≤ rangeHoles.addr2) ∧
    (aclParseIpData (.decoded 0x0a010600 (some 0x0a020100) none) = [rangeAcross] ∧
      rangeAcross.addr1 ≤ rangeAcross.addr2) ∧
    (0x0a020000 ∈ rangeHoles.addresses ∧ 0x0a020000 ∈ rangeAcross.addresses) ∧
    (ipRun [.insert rangeHoles, .insert rangeAcross]).toList = [rangeHoles, rangeAcross] := by
  simp only [mem_addresses_iff]
  decide +kernel

end SquidVideoCache.Acl
