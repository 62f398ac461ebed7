import SquidVideoCache.Dns.Model

/-!
# The names that a lookup asks for while none of them exists
-/

namespace SquidVideoCache.Dns
open Query

variable {R : Type} {cfg : Config} {q : Query}

/-- The query that is sent after a name error. -/
def Query.next (cfg : Config) (q : Query) : Option Query :=
  match q.answered cfg (⟨q.id, false, nameError, q.query, []⟩ : Message Unit) with
  | .search q' => some { q' with query := rfc1035BuildAQuery q'.name }
  | _ => none

/-- The name that the query numbered `n` asks for. -/
def Query.asked (cfg : Config) (q : Query) : ℕ → Option (List UInt8)
  | 0 => some q.name
  | n + 1 =>
    match q.next cfg with
    | some q' => q'.asked cfg n
    | none => none

lemma asked_none (h : q.doSearchpath = false) (n : ℕ) : q.asked cfg (n + 1) = none := by
  simp [asked, Query.next, answered, nameError, h]

lemma next_eq (cfg : Config) (h : q.doSearchpath) (h0 : q.attempt = 0) : ∃ q', q.next cfg = some q' ∧ q'.doSearchpath ∧
    q'.orig = q.orig ∧ q'.name = q.nextName cfg ∧
    (q.domain.toNat < cfg.searchpath.length → q'.attempt = 0 ∧ q'.domain = q.domain + 1) := by
  simp +contextual [Query.next, answered, nameError, h, h0, maxAttempt, searchNext, setError,
    nextName]

-- The index into the search path has 16 bits.
lemma asked_succ (n : ℕ) {q : Query} (h : q.doSearchpath) (h0 : q.attempt = 0)
    (hlt : ∀ i < n, (q.domain + UInt16.ofNat i).toNat < cfg.searchpath.length) :
    q.asked cfg (n + 1) = some (nextName cfg { q with domain := q.domain + UInt16.ofNat n }) := by
  induction n generalizing q with
  | zero =>
    obtain ⟨q', hq, -, -, hn, -⟩ := next_eq cfg h h0
    simp [asked, hq, hn]
  | succ n ih =>
    obtain ⟨q', hq, h', ho, -, hd⟩ := next_eq cfg h h0
    obtain ⟨h0', hd⟩ := hd (by simpa using hlt 0 n.succ_pos)
    have hadd (i : ℕ) : q'.domain + UInt16.ofNat i = q.domain + UInt16.ofNat (i + 1) := by
      rw [hd, UInt16.ofNat_add, UInt16.add_assoc, UInt16.add_comm 1]
      rfl
    rw [asked, hq]
    simp only
    rw [ih h' h0' fun i hi => hadd i ▸ hlt _ (by omega), hadd, nextName, nextName, ho]

theorem asked_once_iff (cfg : Config) (s : State R) (name : List UInt8) (before : UInt8) (random : UInt16) (data : ℕ) :
    (∀ i j c, (newQuery cfg s name before random data).asked cfg i = some c →
      (newQuery cfg s name before random data).asked cfg j = some c → i = j) ↔ doesSearch cfg before name = false := by
  set q := newQuery cfg s name before random data
  constructor
  · intro h
    by_contra hs
    rw [Bool.not_eq_false] at hs
    have hask (n : ℕ) (hlt : ∀ i < n, i % 65536 < cfg.searchpath.length) :
        q.asked cfg (n + 1) = some (nextName cfg { q with domain := UInt16.ofNat n }) := by
      simpa [q, newQuery] using asked_succ n (q := q) hs rfl (by simpa [q, newQuery] using hlt)
    by_cases hbig : 65536 ≤ cfg.searchpath.length
    · exact absurd (h 1 65537 _ (hask 0 (by omega)) (hask 65536 (by omega))) (by omega)
    · obtain ⟨d, ds, hsp⟩ : ∃ d ds, cfg.searchpath = d :: ds := by
        rw [← List.ne_nil_iff_exists_cons]
        rintro hn
        simp [doesSearch, hn] at hs
      by_cases hdots : name.count dot < cfg.ndots
      · refine absurd (h 0 1 _ ?_ (hask 0 (by omega))) (by omega)
        simp [asked, q, newQuery, firstName, nextName, hs, hsp, hdots]
      · refine absurd (h 0 _ name ?_ ((hask cfg.searchpath.length (by omega)).trans ?_)) (by omega)
        · simp [asked, q, newQuery, firstName, hsp, hdots]
        · simp [nextName, q, newQuery, Nat.mod_eq_of_lt (not_le.mp hbig)]
  · intro h i j c hi hj
    match i, j with
    | 0, 0 => rfl
    | 0, j + 1 => exact absurd hj (by simp [asked_none (q := q) h])
    | i + 1, _ => exact absurd hi (by simp [asked_none (q := q) h])

/-- A bare name is asked for again behind the only domain. -/
theorem asked_again : ¬ ∀ (cfg : Config) (s : State ℕ) (name : List UInt8) (before : UInt8) (random : UInt16) (data : ℕ),
    cfg.searchpath.Nodup → ∀ i j c, (newQuery cfg s name before random data).asked cfg i = some c →
      (newQuery cfg s name before random data).asked cfg j = some c → i = j := fun h =>
  absurd (h ⟨true, [[101]], 0, 1, true⟩ .init [102] 0 0 0 (by decide) 0 2 [102] rfl rfl) (by decide)

end SquidVideoCache.Dns
