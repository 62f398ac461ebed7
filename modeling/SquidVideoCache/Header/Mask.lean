import SquidVideoCache.Header.Model
import Mathlib.Algebra.BigOperators.Group.List.Basic
import Mathlib.Data.List.ReduceOption

/-!
# The mask and the length of a header

The loops that delete or change entries are sweeps: each entry is kept, changed or deleted by a
function of the entry. A sweep keeps the sum of the lengths of the entries in step with `len`, apart
from what a value has grown by in place.
-/

namespace SquidVideoCache.Header
open Lib List

def packedLength (es : List HttpHeaderEntry) : ℤ := (es.map HttpHeaderEntry.size).sum

lemma HttpHeaderEntry.size_nonneg (e : HttpHeaderEntry) : 0 ≤ e.size := by
  unfold HttpHeaderEntry.size
  omega

@[simp] lemma packedLength_nil : packedLength [] = 0 := rfl

@[simp] lemma packedLength_cons (e : HttpHeaderEntry) (es : List HttpHeaderEntry) :
    packedLength (e :: es) = e.size + packedLength es := by simp [packedLength]

@[simp] lemma packedLength_append (es es' : List HttpHeaderEntry) :
    packedLength (es ++ es') = packedLength es + packedLength es' := by simp [packedLength]

lemma packedLength_nonneg (es : List HttpHeaderEntry) : 0 ≤ packedLength es := by
  induction es with
  | nil => exact le_refl 0
  | cons e es ih =>
    have he := e.size_nonneg
    rw [packedLength_cons]
    omega

/-! ## Sweeps -/

section
variable (f : HttpHeaderEntry → Option HttpHeaderEntry)
  (g : HttpHeaderEntry → (HdrType → Bool) → HdrType → Bool)

/-- One turn of a loop that deletes the entries on which `f` is `none` and puts its value in the
place of the others; `g` is what the loop does to the mask. -/
def sweepStep (pos : ℕ) (e : HttpHeaderEntry) (s : HttpHeader × ℕ) : Exec (HttpHeader × ℕ) :=
  match f e with
  | none => do
    let hdr ← httpHeaderDelAt s.1 pos
    .ok (hdr, s.2 + 1)
  | some e' =>
    .ok ({ s.1 with entries := s.1.entries.set pos (some e'), mask := g e s.1.mask }, s.2)

def swept (es : List HttpHeaderEntry) : List HttpHeaderEntry := es.filter fun e => (f e).isNone

def spared (es : List HttpHeaderEntry) : List HttpHeaderEntry := es.filter fun e => (f e).isSome

def grown (e : HttpHeaderEntry) : ℤ :=
  match f e with
  | none => 0
  | some e' => e'.size - e.size

/-- The loop has left `xs` behind it. -/
structure Sweeping (hdr : HttpHeader) (xs ys : List (Option HttpHeaderEntry)) (s : HttpHeader × ℕ) : Prop where
  entries_eq : s.1.entries = xs.map (·.bind f) ++ ys
  len_eq : s.1.len = hdr.len - packedLength (swept f xs.reduceOption)
  count_eq : s.2 = (swept f xs.reduceOption).length
  mask_eq : s.1.mask = (spared f xs.reduceOption).foldl (fun m e => g e m) hdr.mask

/-- What a whole sweep does. The difference between the length and `len` changes by what the kept values grow. -/
structure Swept (hdr : HttpHeader) (s : HttpHeader × ℕ) : Prop where
  live_eq : s.1.live = hdr.live.filterMap f
  length_sub : packedLength s.1.live - s.1.len = packedLength hdr.live - hdr.len + (hdr.live.map (grown f)).sum
  count_eq : s.2 = (swept f hdr.live).length
  mask_eq : s.1.mask = (spared f hdr.live).foldl (fun m e => g e m) hdr.mask

variable {f g} {hdr : HttpHeader} {xs ys : List (Option HttpHeaderEntry)} {x : Option HttpHeaderEntry}
  {s t : HttpHeader × ℕ} {e : HttpHeaderEntry} {step : ℕ → HttpHeaderEntry → HttpHeader × ℕ → Exec (HttpHeader × ℕ)}

lemma set_self {xs : List (Option HttpHeaderEntry)} {pos : ℕ} (h : xs[pos]? = some x) : xs.set pos x = xs := by
  obtain ⟨hlt, hget⟩ := List.getElem?_eq_some_iff.mp h
  rw [← hget, set_getElem_self]

lemma Sweeping.getElem? (hs : Sweeping f g hdr xs (x :: ys) s) : s.1.entries[xs.length]? = some x := by
  simp [hs.entries_eq]

lemma Sweeping.next (hs : Sweeping f g hdr xs (x :: ys) s)
    (hentr : t.1.entries = s.1.entries.set xs.length (x.bind f))
    (hlen : t.1.len = s.1.len - packedLength (swept f x.toList)) (hcou : t.2 = s.2 + (swept f x.toList).length)
    (hmask : t.1.mask = (spared f x.toList).foldl (fun m e => g e m) s.1.mask) : Sweeping f g hdr (xs ++ [x]) ys t := by
  have hdone : (xs ++ [x]).reduceOption = xs.reduceOption ++ x.toList := by
    cases x with
    | none => simp [reduceOption_append]
    | some e => simp [reduceOption_append]
  constructor
  · simp [hentr, hs.entries_eq]
  · rw [hlen, hs.len_eq, hdone, swept, swept, swept, filter_append, packedLength_append]
    omega
  · rw [hcou, hs.count_eq, hdone, swept, swept, swept, filter_append, length_append]
  · rw [hmask, hs.mask_eq, hdone, spared, spared, spared, filter_append, foldl_append]

lemma packedLength_swept_le (f : HttpHeaderEntry → Option HttpHeaderEntry) (es : List HttpHeaderEntry) :
    packedLength (swept f es) ≤ packedLength es := by
  induction es with
  | nil => exact le_refl 0
  | cons e es ih =>
    have he := e.size_nonneg
    unfold swept at ih ⊢
    rw [filter_cons]
    split_ifs
    · simpa using ih
    · rw [packedLength_cons]
      omega

/-- The assertion in `httpHeaderDelAt` holds if `len` is not too small. -/
theorem Sweeping.ends_sweepStep (hs : Sweeping f g hdr xs (some e :: ys) s) (hhdr : hdr.entries = xs ++ some e :: ys) :
    Ends (fun _ => hdr.len < packedLength hdr.live) (Sweeping f g hdr (xs ++ [some e]) ys)
      (sweepStep f g xs.length e s) := by
  unfold sweepStep
  cases he : f e with
  | some e' => exact hs.next (by simp [he]) (by simp [swept, he]) (by simp [swept, he]) (by simp [spared, he])
  | none =>
    have hlive : hdr.live = xs.reduceOption ++ e :: ys.reduceOption := by
      simp [HttpHeader.live, hhdr, reduceOption_append]
    have hlen := hs.len_eq
    have hswe := packedLength_swept_le f xs.reduceOption
    have hrest := packedLength_nonneg ys.reduceOption
    simp only [httpHeaderDelAt, hs.getElem?, cAssert]
    split_ifs
    · exact hs.next (by simp [he]) (by simp [swept, he]) (by simp [swept, he]) (by simp [spared, he])
    · simp only [error_bind, ends_error, hlive, packedLength_append, packedLength_cons]
      omega

lemma ends_eachEntry
    (hstep : ∀ pos e (s : HttpHeader × ℕ), s.1.entries[pos]? = some (some e) → step pos e s = sweepStep f g pos e s)
    (xs : List (Option HttpHeaderEntry)) : ∀ ys, hdr.entries = xs ++ ys →
      Ends (fun _ => hdr.len < packedLength hdr.live) (Sweeping f g hdr xs ys) (eachEntry step xs.length (hdr, 0)) := by
  induction xs using List.reverseRecOn with
  | nil => exact fun ys hys => ⟨hys, by simp [swept], rfl, rfl⟩
  | append_singleton xs x ih =>
    intro ys hys
    rw [append_assoc] at hys
    rw [length_append]
    refine (ih _ hys).bind fun s hs => ?_
    have hget := hs.getElem?
    simp only [hget]
    cases x with
    | none => exact hs.next (set_self hget).symm (sub_zero _).symm rfl rfl
    | some e =>
      simp only [hstep _ e s hget]
      exact hs.ends_sweepStep hys

lemma packedLength_filterMap (f : HttpHeaderEntry → Option HttpHeaderEntry) (es : List HttpHeaderEntry) :
    packedLength (es.filterMap f) = packedLength es - packedLength (swept f es) + (es.map (grown f)).sum := by
  induction es with
  | nil => simp [swept]
  | cons e es ih =>
    unfold swept at ih ⊢
    cases he : f e with
    | none => simp [he, grown, ih]
    | some e' =>
      simp [he, grown]
      omega

lemma ends_sweep
    (hstep : ∀ pos e (s : HttpHeader × ℕ), s.1.entries[pos]? = some (some e) → step pos e s = sweepStep f g pos e s)
    (hdr : HttpHeader) : Ends (fun _ => hdr.len < packedLength hdr.live) (Swept f g hdr)
      (eachEntry step hdr.entries.length (hdr, 0)) := by
  refine (ends_eachEntry hstep _ [] (append_nil _).symm).mono fun s hs => ?_
  have hlive : s.1.live = hdr.live.filterMap f := by
    simp only [HttpHeader.live, hs.entries_eq, append_nil, List.reduceOption, filterMap_map,
      filterMap_filterMap]
    rfl
  refine ⟨hlive, ?_, hs.count_eq, hs.mask_eq⟩
  rw [hlive, packedLength_filterMap, hs.len_eq, HttpHeader.live]
  omega

end

/-! ## The operations -/

def Occurs (es : List HttpHeaderEntry) (id : HdrType) : Prop := ∃ e ∈ es, e.id = id

/-- The mask is that of the entries, and `len` is behind their length by `drift`. -/
structure Keeps (drift : ℤ) (hdr : HttpHeader) : Prop where
  mask_iff : ∀ id, hdr.mask id = true ↔ Occurs hdr.live id
  length_eq : packedLength hdr.live = hdr.len + drift

variable {hdr fresh : HttpHeader} {drift : ℤ} {e : HttpHeaderEntry} {id : HdrType}

lemma keeps_init : Keeps 0 {} := ⟨by simp [Occurs, HttpHeader.live], rfl⟩

lemma cbitSet_foldl (es : List HttpHeaderEntry) (mask : HdrType → Bool) (id : HdrType) :
    es.foldl (fun m e => cbitSet m e.id) mask id = true ↔ mask id = true ∨ Occurs es id := by
  induction es generalizing mask with
  | nil => simp [Occurs]
  | cons e es ih =>
    rw [foldl_cons, ih]
    simp only [cbitSet, Occurs, Bool.or_eq_true, decide_eq_true_eq, mem_cons, exists_eq_or_imp]
    tauto

@[simp] lemma live_httpHeaderAddEntry : (httpHeaderAddEntry hdr e).live = hdr.live ++ [e] := by
  simp [HttpHeader.live, httpHeaderAddEntry, reduceOption_append]

lemma Keeps.add (h : Keeps drift hdr) (e : HttpHeaderEntry) : Keeps drift (httpHeaderAddEntry hdr e) := by
  constructor
  · intro id
    change (decide (id = e.id) || hdr.mask id) = true ↔ _
    rw [Bool.or_eq_true, h.mask_iff]
    simp only [Occurs]
    aesop
  · have hlen := h.length_eq
    change _ = hdr.len + e.size + drift
    rw [live_httpHeaderAddEntry, packedLength_append, packedLength_cons, packedLength_nil]
    omega

lemma Keeps.insert (h : Keeps drift hdr) (e : HttpHeaderEntry) (pos : ℕ) :
    Keeps drift (httpHeaderInsertEntry hdr e pos) := by
  have hperm : (httpHeaderInsertEntry hdr e pos).live.Perm (httpHeaderAddEntry hdr e).live := by
    refine List.Perm.filterMap _ ?_
    exact (perm_insertIdx _ _ (min_le_right _ _)).trans (perm_append_singleton _ _).symm
  have hadd := h.add e
  constructor
  · intro id
    rw [Occurs]
    simp only [hperm.mem_iff]
    exact hadd.mask_iff id
  · rw [packedLength, (hperm.map _).sum_eq]
    exact hadd.length_eq

lemma Keeps.refresh (h : packedLength hdr.live = hdr.len + drift) : Keeps drift (httpHeaderRefreshMask hdr) := by
  refine ⟨fun id => ?_, h⟩
  change hdr.live.foldl (fun m e => cbitSet m e.id) (fun _ => false) id = true ↔ Occurs hdr.live id
  rw [cbitSet_foldl]
  simp

/-! ### Deleting -/

lemma grown_guard (p : HttpHeaderEntry → Bool) (es : List HttpHeaderEntry) :
    (es.map (grown (Option.guard p))).sum = 0 := by
  refine sum_eq_zero fun x hx => ?_
  obtain ⟨e, -, rfl⟩ := mem_map.mp hx
  cases he : p e with
  | false => simp [grown, Option.guard, he]
  | true => simp [grown, he]

lemma spared_guard (p : HttpHeaderEntry → Bool) (es : List HttpHeaderEntry) :
    spared (Option.guard p) es = es.filter p := by simp [spared]

lemma delWithId_eq (id : HdrType) (pos : ℕ) (e : HttpHeaderEntry) (s : HttpHeader × ℕ)
    (h : s.1.entries[pos]? = some (some e)) :
    delWithId id pos e s = sweepStep (Option.guard fun e => ¬ e.id = id) (fun _ m => m) pos e s := by
  unfold delWithId sweepStep
  by_cases he : e.id = id
  · simp [he, Option.guard]
  · simp [he, set_self h]

lemma delNamed_eq (name : List UInt8) (pos : ℕ) (e : HttpHeaderEntry) (s : HttpHeader × ℕ)
    (h : s.1.entries[pos]? = some (some e)) : delNamed name pos e s =
      sweepStep (Option.guard fun e => ¬ strcasecmp e.name name) (fun e m => cbitSet m e.id) pos e s := by
  unfold delNamed sweepStep
  by_cases he : strcasecmp e.name name
  · simp [he, Option.guard]
  · simp [he, set_self h]

lemma Keeps.ends_httpHeaderDelByName (h : Keeps drift hdr) (name : List UInt8) : Ends (fun _ => 0 < drift)
      (fun r => Keeps drift r.1 ∧ r.1.live = hdr.live.filter fun e => ¬ strcasecmp e.name name)
      (httpHeaderDelByName hdr name) := by
  have hlen := h.length_eq
  refine ((ends_sweep (delNamed_eq name) { hdr with mask := fun _ => false }).weaken fun _ hbad => ?_).mono fun s hs => ?_
  · change hdr.len < packedLength hdr.live at hbad
    omega
  · have heq := hs.live_eq
    have hsub : _ = packedLength hdr.live - hdr.len + _ := hs.length_sub
    rw [filterMap_eq_filter] at heq
    rw [grown_guard] at hsub
    refine ⟨⟨fun id => ?_, by omega⟩, heq⟩
    rw [hs.mask_eq, cbitSet_foldl, spared_guard, heq]
    simp

lemma Keeps.ends_httpHeaderDelById (h : Keeps drift hdr) (hid : id ≠ .other) : Ends (fun _ => 0 < drift)
      (fun r => Keeps drift r.1 ∧ r.1.live = hdr.live.filter fun e => ¬ e.id = id) (httpHeaderDelById hdr id) := by
  have hlen := h.length_eq
  unfold httpHeaderDelById
  rw [cAssert_pos hid]
  refine ends_ite (fun hmask => ?_) fun hmask => ?_
  · refine ((ends_sweep (delWithId_eq id) hdr).weaken fun _ hbad => by omega).bind fun (hdr', count) hs => ?_
    have heq : hdr'.live = _ := hs.live_eq
    rw [filterMap_eq_filter] at heq
    have hcou : count ≠ 0 := by
      obtain ⟨e, he, rfl⟩ := (h.mask_iff id).mp hmask
      have hswe : count = _ := hs.count_eq
      rw [hswe]
      exact (length_pos_of_mem (mem_filter.mpr ⟨he, by simp⟩)).ne'
    have hsame : hdr'.mask = hdr.mask := hs.mask_eq.trans (foldl_fixed _)
    have hsub : packedLength hdr'.live - hdr'.len = _ := hs.length_sub
    rw [grown_guard] at hsub
    simp only [cAssert_pos hcou]
    refine ⟨⟨fun i => ?_, ?_⟩, heq⟩
    · change (decide (i ≠ id) && hdr'.mask i) = true ↔ Occurs hdr'.live i
      rw [hsame, Bool.and_eq_true, h.mask_iff]
      simp only [Occurs]
      aesop
    · change packedLength hdr'.live = hdr'.len + drift
      omega
  · refine ⟨h, (filter_eq_self.mpr fun e he => ?_).symm⟩
    have hne : e.id ≠ id := fun heq => hmask ((h.mask_iff id).mpr ⟨e, he, heq⟩)
    simpa using hne

/-! ### Updating -/

/-- A fresh entry takes the place of those with its id, or with its name if the id is unknown. -/
def replaces (fresh e : HttpHeaderEntry) : Bool :=
  if fresh.id ≠ .other then e.id = fresh.id else strcasecmp e.name fresh.name

lemma replaces_self (e : HttpHeaderEntry) : replaces e e = true := by simp [replaces, strcasecmp]

def admitted (deniedMask : HdrType → Bool) (es : List HttpHeaderEntry) : List HttpHeaderEntry :=
  es.filter fun e => !deniedMask e.id

def outlasting (fresh es : List HttpHeaderEntry) : List HttpHeaderEntry :=
  es.filter fun e => !fresh.any (replaces · e)

lemma Keeps.ends_delReplaced (h : Keeps drift hdr) (deniedMask : HdrType → Bool) (e : HttpHeaderEntry) :
    Ends (fun _ => 0 < drift) (fun hdr' => Keeps drift hdr' ∧ hdr'.live = outlasting (admitted deniedMask [e]) hdr.live)
      (delReplaced deniedMask hdr e) := by
  refine ends_ite (fun hden => ?_) fun hok => ends_ite (fun hid => ?_) fun hid => ?_
  · exact ⟨h, by simp [outlasting, admitted, hden]⟩
  · refine (h.ends_httpHeaderDelById hid).bind fun r hr => ⟨hr.1, ?_⟩
    simp [hr.2, outlasting, admitted, hok, replaces, hid]
  · refine (h.ends_httpHeaderDelByName e.name).bind fun r hr => ⟨hr.1, ?_⟩
    rw [not_not.mp hid] at hok
    simp [hr.2, outlasting, admitted, hok, replaces, not_not.mp hid]

lemma outlasting_outlasting (fresh fresh' es : List HttpHeaderEntry) :
    outlasting fresh (outlasting fresh' es) = outlasting (fresh' ++ fresh) es := by
  simp [outlasting, Bool.and_comm]

lemma Keeps.ends_delAllReplaced (deniedMask : HdrType → Bool) (es : List HttpHeaderEntry) :
    ∀ hdr, Keeps drift hdr → Ends (fun _ => 0 < drift)
      (fun hdr' => Keeps drift hdr' ∧ hdr'.live = outlasting (admitted deniedMask es) hdr.live)
      (es.foldlM (delReplaced deniedMask) hdr) := by
  induction es with
  | nil => exact fun hdr h => ⟨h, by simp [outlasting, admitted]⟩
  | cons e es ih =>
    intro hdr h
    refine (h.ends_delReplaced _ e).bind fun hdr' h' => (ih hdr' h'.1).mono fun r hr => ⟨hr.1, ?_⟩
    rw [hr.2, h'.2, outlasting_outlasting, admitted, admitted, ← filter_append]
    rfl

lemma Keeps.addAll (deniedMask : HdrType → Bool) (es : List HttpHeaderEntry) : ∀ hdr, Keeps drift hdr →
    let hdr' := es.foldl (fun old e => if deniedMask e.id then old else httpHeaderAddEntry old e) hdr
    Keeps drift hdr' ∧ hdr'.live = hdr.live ++ admitted deniedMask es := by
  induction es with
  | nil => exact fun hdr h => ⟨h, by simp [admitted]⟩
  | cons e es ih =>
    intro hdr h
    by_cases hden : deniedMask e.id
    · simpa [hden, admitted] using ih hdr h
    · simpa [hden, admitted] using ih _ (h.add e)

lemma live_httpHeaderRepack (hdr : HttpHeader) : (httpHeaderRepack hdr).live = hdr.live := by
  simp [httpHeaderRepack, HttpHeader.live, List.reduceOption]

lemma Keeps.repack (h : Keeps drift hdr) : Keeps drift (httpHeaderRepack hdr) := by
  have hlive := live_httpHeaderRepack hdr
  exact ⟨fun id => hlive ▸ h.mask_iff id, hlive ▸ h.length_eq⟩

lemma Keeps.ends_httpHeaderUpdate (h : Keeps drift hdr) (fresh : HttpHeader) (deniedMask : HdrType → Bool) :
    Ends (fun _ => 0 < drift)
      (fun hdr' => Keeps drift hdr' ∧ hdr'.entries = (outlasting (admitted deniedMask fresh.live) hdr.live ++
        admitted deniedMask fresh.live).map some) (httpHeaderUpdate hdr fresh deniedMask) := by
  refine (Keeps.ends_delAllReplaced _ _ hdr h).bind fun old hold => ?_
  obtain ⟨hkee, hlive⟩ := Keeps.addAll _ _ old hold.1
  refine ⟨hkee.repack, ?_⟩
  rw [← hold.2, ← hlive]
  rfl

/-- The fresh entries that an update has added are all replaced by the same update, and what it has
left of the old ones is left again. -/
theorem outlasting_updated (fresh es : List HttpHeaderEntry) :
    outlasting fresh (outlasting fresh es ++ fresh) = outlasting fresh es := by
  have hnone : outlasting fresh fresh = [] := by
    refine filter_eq_nil_iff.mpr fun e he => ?_
    simpa using ⟨e, he, replaces_self e⟩
  rw [outlasting, filter_append]
  change outlasting fresh (outlasting fresh es) ++ outlasting fresh fresh = _
  rw [hnone]
  simp [outlasting]

/-- The entries after an update, which stay the same when it is done again. -/
theorem httpHeaderUpdate_entries {old : HttpHeader} (hold : Keeps 0 old) (fresh : HttpHeader)
    (deniedMask : HdrType → Bool) : ∃ hdr, httpHeaderUpdate old fresh deniedMask = .ok hdr ∧
      hdr.entries = ((old.live.filter fun e => !(admitted deniedMask fresh.live).any (replaces · e)) ++
        admitted deniedMask fresh.live).map some ∧
      ∃ hdr', httpHeaderUpdate hdr fresh deniedMask = .ok hdr' ∧ hdr'.entries = hdr.entries := by
  -- no assertion fails: the length of the header is right
  have hok : ∀ {hdr}, Keeps 0 hdr → ∃ hdr', httpHeaderUpdate hdr fresh deniedMask = .ok hdr' ∧ Keeps 0 hdr' ∧
      hdr'.entries = (outlasting (admitted deniedMask fresh.live) hdr.live ++
        admitted deniedMask fresh.live).map some := by
    intro hdr h
    have hends := h.ends_httpHeaderUpdate fresh deniedMask
    cases hup : httpHeaderUpdate hdr fresh deniedMask with
    | error e => exact absurd (hends.error_of_eq hup) (lt_irrefl 0)
    | ok hdr' => exact ⟨hdr', rfl, hends.ok_of_eq hup⟩
  obtain ⟨hdr, hup, hkee, hentr⟩ := hok hold
  obtain ⟨hdr', hup', -, hent'⟩ := hok hkee
  refine ⟨hdr, hup, hentr, hdr', hup', ?_⟩
  have hlive : hdr.live = outlasting (admitted deniedMask fresh.live) old.live ++ admitted deniedMask fresh.live := by
    simp [HttpHeader.live, hentr, List.reduceOption]
  rw [hent', hlive, outlasting_updated, hentr]

/-! ### Mangling -/

section
variable {Access : Type} (cfg : Anonymizer Access)

/-- How much longer the value becomes that `httpHdrMangle` puts in place of the one of the entry. -/
def replacedBy (e : HttpHeaderEntry) : ℤ :=
  match httpHdrMangle cfg e with
  | .replace value => value.length - e.value.length
  | _ => 0

def mangleDrift (hdr : HttpHeader) : ℤ := (hdr.live.map (replacedBy cfg)).sum

def mangled (e : HttpHeaderEntry) : Option HttpHeaderEntry :=
  match httpHdrMangle cfg e with
  | .keep => some e
  | .delete => none
  | .replace value => some { e with value }

lemma mangleAt_eq (pos : ℕ) (e : HttpHeaderEntry) (s : HttpHeader × ℕ) (h : s.1.entries[pos]? = some (some e)) :
    mangleAt cfg pos e s = sweepStep (mangled cfg) (fun _ m => m) pos e s := by
  unfold mangleAt sweepStep mangled
  cases httpHdrMangle cfg e with
  | keep => simp [set_self h]
  | delete => rfl
  | replace value => rfl

lemma grown_mangled : grown (mangled cfg) = replacedBy cfg := by
  funext e
  unfold grown mangled replacedBy
  cases httpHdrMangle cfg e with
  | keep => simp
  | delete => rfl
  | replace value =>
    simp only [HttpHeaderEntry.size]
    omega

lemma mangled_id {e e' : HttpHeaderEntry} (h : mangled cfg e = some e') : e'.id = e.id := by
  unfold mangled at h
  split at h
  · cases h
    rfl
  · cases h
  · cases h
    rfl

lemma occurs_filterMap {es : List HttpHeaderEntry} (h : (swept (mangled cfg) es).length = 0) :
    Occurs (es.filterMap (mangled cfg)) id ↔ Occurs es id := by
  have hkept : ∀ e ∈ es, ∃ e', mangled cfg e = some e' := by
    intro e he
    have hnone := filter_eq_nil_iff.mp (length_eq_zero_iff.mp h) e he
    exact Option.ne_none_iff_exists'.mp (by simpa using hnone)
  constructor
  · rintro ⟨e', he', rfl⟩
    obtain ⟨e, he, hm⟩ := mem_filterMap.mp he'
    exact ⟨e, he, (mangled_id cfg hm).symm⟩
  · rintro ⟨e, he, rfl⟩
    obtain ⟨e', hm⟩ := hkept e he
    exact ⟨e', mem_filterMap.mpr ⟨e, he, hm⟩, mangled_id cfg hm⟩

lemma Keeps.ends_httpHdrMangleList (h : Keeps drift hdr) :
    Ends (fun _ => 0 < drift) (Keeps (drift + mangleDrift cfg hdr)) (httpHdrMangleList cfg hdr) := by
  have hlen := h.length_eq
  refine ((ends_sweep (mangleAt_eq cfg) hdr).weaken fun _ hbad => by omega).bind fun (l, removed) hs => ?_
  have hlength : packedLength l.live = l.len + (drift + mangleDrift cfg hdr) := by
    have hsub : packedLength l.live - l.len = _ := hs.length_sub
    rw [grown_mangled, ← mangleDrift] at hsub
    omega
  refine ends_ite (fun _ => Keeps.refresh hlength) fun hrem => ⟨fun id => ?_, hlength⟩
  have hsame : l.mask = hdr.mask := hs.mask_eq.trans (foldl_fixed _)
  have heq : l.live = _ := hs.live_eq
  have hcou : removed = _ := hs.count_eq
  rw [hsame, heq, occurs_filterMap cfg (by omega)]
  exact h.mask_iff id

end

/-! ## Runs -/

lemma ends_httpHeaderDelAt (h : packedLength hdr.live = hdr.len + drift) (pos : ℕ) :
    Ends (fun _ => True) (fun hdr' => packedLength hdr'.live = hdr'.len + drift) (httpHeaderDelAt hdr pos) := by
  unfold httpHeaderDelAt
  split
  · trivial
  · trivial
  next e hget =>
    obtain ⟨hpos, hget⟩ := List.getElem?_eq_some_iff.mp hget
    obtain ⟨xs, ys, hspl, rfl⟩ : ∃ xs ys, hdr.entries = xs ++ some e :: ys ∧ xs.length = pos :=
      ⟨hdr.entries.take pos, hdr.entries.drop (pos + 1), by simp [← hget], by simp [hpos.le]⟩
    unfold cAssert
    split_ifs
    · simp [HttpHeader.live, hspl, reduceOption_append] at h ⊢
      omega
    · trivial

lemma ends_delAll (positions : List ℕ) : ∀ hdr : HttpHeader, packedLength hdr.live = hdr.len + drift →
    Ends (fun _ => True) (fun hdr' => packedLength hdr'.live = hdr'.len + drift)
      (positions.foldlM httpHeaderDelAt hdr) := by
  induction positions with
  | nil => exact fun hdr h => h
  | cons pos positions ih => exact fun hdr h => (ends_httpHeaderDelAt h pos).bind ih

/-- The headers that a sequence of operations leads to, with what the values have grown by in place. -/
inductive Built (Access : Type) : HttpHeader → ℤ → Prop
  | init : Built Access {} 0
  | add {hdr : HttpHeader} {drift : ℤ} (e : HttpHeaderEntry) :
      Built Access hdr drift → Built Access (httpHeaderAddEntry hdr e) drift
  | insert {hdr : HttpHeader} {drift : ℤ} (e : HttpHeaderEntry) (pos : ℕ) :
      Built Access hdr drift → Built Access (httpHeaderInsertEntry hdr e pos) drift
  | delById {hdr hdr' : HttpHeader} {drift : ℤ} {id : HdrType} {count : ℕ} :
      Built Access hdr drift → httpHeaderDelById hdr id = .ok (hdr', count) → Built Access hdr' drift
  | delByName {hdr hdr' : HttpHeader} {drift : ℤ} {name : List UInt8} {count : ℕ} :
      Built Access hdr drift → httpHeaderDelByName hdr name = .ok (hdr', count) → Built Access hdr' drift
  | delAt {hdr hdr' : HttpHeader} {drift : ℤ} (positions : List ℕ) :
      Built Access hdr drift → positions.foldlM httpHeaderDelAt hdr = .ok hdr' →
      Built Access (httpHeaderRefreshMask hdr') drift
  | update {hdr fresh hdr' : HttpHeader} {drift drift' : ℤ} {deniedMask : HdrType → Bool} :
      Built Access hdr drift → Built Access fresh drift' → httpHeaderUpdate hdr fresh deniedMask = .ok hdr' →
      Built Access hdr' drift
  | mangle {hdr hdr' : HttpHeader} {drift : ℤ} (cfg : Anonymizer Access) :
      Built Access hdr drift → httpHdrMangleList cfg hdr = .ok hdr' →
      Built Access hdr' (drift + mangleDrift cfg hdr)

lemma Built.keeps {Access : Type} (h : Built Access hdr drift) : Keeps drift hdr := by
  induction h with
  | init => exact keeps_init
  | add e _ ih => exact ih.add e
  | insert e pos _ ih => exact ih.insert e pos
  | @delById hdr hdr' drift id count _ hdel ih =>
    have hid : id ≠ .other := by
      intro hoth
      simp [httpHeaderDelById, hoth, cAssert] at hdel
    exact ((ih.ends_httpHeaderDelById hid).ok_of_eq hdel).1
  | @delByName hdr hdr' drift name count _ hdel ih => exact ((ih.ends_httpHeaderDelByName name).ok_of_eq hdel).1
  | delAt positions _ hdel ih => exact Keeps.refresh ((ends_delAll _ _ ih.length_eq).ok_of_eq hdel)
  | @update hdr fresh hdr' drift drift' deniedMask _ _ hup ih _ =>
    exact ((ih.ends_httpHeaderUpdate fresh _).ok_of_eq hup).1
  | mangle cfg _ hm ih => exact (ih.ends_httpHdrMangleList cfg).ok_of_eq hm

/-- The mask is right in every run, and the length as long as the replacements add up to nothing. -/
theorem Built.mask_and_len {Access : Type} {hdr : HttpHeader} {drift : ℤ} (h : Built Access hdr drift) :
    (∀ id, hdr.mask id = true ↔ ∃ e ∈ hdr.live, e.id = id) ∧
      (hdr.len = (hdr.live.map fun e => (e.name.length + e.value.length + 4 : ℤ)).sum ↔ drift = 0) := by
  have hkee := h.keeps
  refine ⟨hkee.mask_iff, ?_⟩
  have hsize : (fun e : HttpHeaderEntry => (e.name.length + e.value.length + 4 : ℤ)) = HttpHeaderEntry.size := by
    funext e
    unfold HttpHeaderEntry.size
    omega
  have hlen := hkee.length_eq
  rw [hsize, ← packedLength]
  omega

/-! A header with one field, whose value is replaced by a longer one. -/

def agent : HttpHeaderEntry := ⟨.userAgent, headerName .userAgent, ascii "x".toList, fun _ => rfl⟩

def hidingAgent : Anonymizer Unit where
  headerAccess id := ⟨[], if id = .userAgent then some () else none, some (ascii "hidden".toList)⟩
  otherAccess := []
  aclCheckFastRequest _ := false

def hiddenAgent : HttpHeader where
  entries := [some { agent with value := ascii "hidden".toList }]
  mask := cbitSet (fun _ => false) .userAgent
  len := 15

theorem httpHeaderUpdate_agent : ∃ hdr, httpHeaderUpdate (httpHeaderAddEntry {} agent) hiddenAgent (fun _ => false) = .ok hdr ∧
    hdr.entries = (((httpHeaderAddEntry {} agent).live.filter fun e =>
      !(admitted (fun _ => false) hiddenAgent.live).any (replaces · e)) ++
      admitted (fun _ => false) hiddenAgent.live).map some ∧
    ∃ hdr', httpHeaderUpdate hdr hiddenAgent (fun _ => false) = .ok hdr' ∧ hdr'.entries = hdr.entries :=
  httpHeaderUpdate_entries (keeps_init.add agent) _ fun _ => false

lemma built_hiddenAgent : Built Unit hiddenAgent (0 + mangleDrift hidingAgent (httpHeaderAddEntry {} agent)) :=
  .mangle _ (.add agent .init) rfl

theorem mask_and_len_hiddenAgent : (∀ id, hiddenAgent.mask id = true ↔ ∃ e ∈ hiddenAgent.live, e.id = id) ∧
      (hiddenAgent.len = (hiddenAgent.live.map fun e => (e.name.length + e.value.length + 4 : ℤ)).sum ↔
        0 + mangleDrift hidingAgent (httpHeaderAddEntry {} agent) = 0) :=
  Built.mask_and_len built_hiddenAgent

theorem not_len_hiddenAgent : ¬ ∀ (hdr : HttpHeader) (drift : ℤ), Built Unit hdr drift →
    (∀ id, hdr.mask id = true ↔ ∃ e ∈ hdr.live, e.id = id) ∧
      hdr.len = (hdr.live.map fun e => (e.name.length + e.value.length + 4 : ℤ)).sum := by
  intro hall
  have hlen := (hall _ _ built_hiddenAgent).2
  have hne : hiddenAgent.len ≠ (hiddenAgent.live.map fun e => (e.name.length + e.value.length + 4 : ℤ)).sum := by
    decide +kernel
  exact hne hlen

end SquidVideoCache.Header
