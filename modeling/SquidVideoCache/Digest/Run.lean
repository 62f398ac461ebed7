import SquidVideoCache.Digest.Model
import Mathlib.Data.List.Perm.Basic

/-!
# Runs of the two jobs

The step tasks in the queue say which job is active: there is at most one. A job that finds the
other active takes its lock and waits for the other to end.
-/

namespace SquidVideoCache.Digest
open Lib List

variable {cfg : Config} {s s' : State} {q : List Task} {t u : Task} {i : ℕ} {lock : RewriteLock} {cap bpe : ℤ}

/-! ## Phases -/

def Task.isStep : Task → Bool
  | .rebuildStep => true
  | .swapOutStep _ => true
  | _ => false

def steps (queue : List Task) : List Task := queue.filter Task.isStep

def State.Rebuilding (s : State) : Prop := Task.rebuildStep ∈ s.queue

def Task.isSwapOut : Task → Bool
  | .swapOutStep _ => true
  | _ => false

def State.Rewriting (s : State) : Prop := ∃ t ∈ s.queue, t.isSwapOut = true

instance (s : State) : Decidable s.Rebuilding := inferInstanceAs (Decidable (_ ∈ _))

instance (s : State) : Decidable s.Rewriting := inferInstanceAs (Decidable (∃ t ∈ s.queue, _))

inductive Phase (cfg : Config) (s : State) : Prop
  | idle (hrebuild : s.rebuildLock = false) (hrewrite : s.rewriteLock = none) (hsteps : steps s.queue = [])
      (hdigest : s.rebuilt = some s.digest ∨ s.queue = [])
  | rebuilding (hrebuild : s.rebuildLock = true) (hsteps : steps s.queue = [.rebuildStep])
  | rewriting (lock : RewriteLock) (hrewrite : s.rewriteLock = some lock) (hsteps : steps s.queue = [.swapOutStep lock.id])
      (hdigest : s.rebuilt = some s.digest) (hlength : lock.contentLength = s.digest.mask.length + cblockSize)
      (hbody : lock.body = storeDigestCBlock cfg s.digest ++ s.digest.mask.take s.rewriteOffset)
      (hoffset : s.rewriteOffset ≤ s.digest.mask.length)

/-- A body that peers can fetch is the digest at the end of a rebuild. -/
def Published.Whole (cfg : Config) (p : Published) : Prop :=
  ∃ cd, p.rebuilt = some cd ∧ p.body = storeDigestCBlock cfg cd ++ cd.mask ∧ p.contentLength = p.body.length

/-- A job that is not at work or waiting has its next start in the queue. -/
structure Armed (s : State) : Prop where
  rebuild : s.rebuildLock = true ∨ .rebuildStart ∈ s.queue
  rewrite : s.rewriteLock.isSome = true ∨ .rewriteStart ∈ s.queue

structure Inv (cfg : Config) (s : State) : Prop where
  phase : Phase cfg s
  published : ∀ p ∈ s.published, p.Whole cfg
  armed : s.queue = [] ∨ Armed s

def Elsewhere (f : DigestFault) : Prop := f ≠ .storeDigest

lemma length_cblock (cfg : Config) (cd : CacheDigest) : (storeDigestCBlock cfg cd).length = cblockSize := by
  simp [storeDigestCBlock, Icp.hton16, Icp.hton32, cblockSize]

lemma digestAssert_pos {p : Prop} [Decidable p] (h : p) : digestAssert p = .ok () := if_pos h

/-! ## The queue -/

@[simp] lemma steps_append (q : List Task) (t : Task) : steps (q ++ [t]) = steps q ++ if t.isStep then [t] else [] := by
  rw [steps, filter_append]
  cases t <;> rfl

lemma mem_steps (ht : t.isStep = true) : t ∈ q ↔ t ∈ steps q := by
  simp [steps, ht]

lemma perm_eraseIdx (h : q[i]? = some t) : (t :: q.eraseIdx i).Perm q := by
  obtain ⟨hi, rfl⟩ := List.getElem?_eq_some_iff.1 h
  exact getElem_cons_eraseIdx_perm hi

lemma steps_eraseIdx_start (h : q[i]? = some t) (ht : t.isStep = false) : (steps (q.eraseIdx i)).Perm (steps q) := by
  have hperm := (perm_eraseIdx h).filter Task.isStep
  rwa [filter_cons_of_neg (by simp [ht])] at hperm

lemma steps_eraseIdx_step (h : q[i]? = some t) (ht : t.isStep = true)
    (hq : steps q = [u]) : t = u ∧ steps (q.eraseIdx i) = [] := by
  have hperm := (perm_eraseIdx h).filter Task.isStep
  rw [filter_cons_of_pos ht, ← steps, ← steps, hq, perm_singleton] at hperm
  exact ⟨(List.cons.inj hperm).1, (List.cons.inj hperm).2⟩

lemma mem_eraseIdx_of_ne (h : q[i]? = some t) (hu : u ∈ q) (hne : u ≠ t) : u ∈ q.eraseIdx i := by
  have hmem := (perm_eraseIdx h).mem_iff.2 hu
  exact (mem_cons.1 hmem).resolve_left hne

/-! ## The functions -/

lemma ends_calcCap (cfg : Config) (store : Store) : Ends Elsewhere (fun _ => True) (storeDigestCalcCap cfg store) :=
  ends_ite (fun _ => by simp [Elsewhere]) fun _ => trivial

lemma cacheDigestInit_ne (cap bpe : ℤ) (count delCount : ℕ) :
    cacheDigestInit cap bpe count delCount ≠ .error .storeDigest := by
  rw [cacheDigestInit]
  split_ifs <;> simp

lemma ends_resize (cfg : Config) (store : Store) (cd : CacheDigest) :
    Ends Elsewhere (fun _ => True) (storeDigestResize cfg store cd) := by
  refine (ends_calcCap cfg store).bind fun cap _ => ends_ite (fun _ => trivial) fun _ => ?_
  have hinit : Ends Elsewhere (fun _ => True) (cacheDigestChangeCap cd cap) := ends_of_ne (cacheDigestInit_ne _ _ _ _)
  exact hinit.bind fun _ _ => trivial

/-- What a function leaves: nothing that is published is lost to it, and a job that was locked stays so or is started again. -/
structure Left (cfg : Config) (s s' : State) : Prop where
  phase : Phase cfg s'
  published : ∀ p ∈ s'.published, p.Whole cfg ∨ p ∈ s.published
  queue : ∀ t ∈ s.queue, t ∈ s'.queue
  rebuild : s.rebuildLock = true → s'.rebuildLock = true ∨ .rebuildStart ∈ s'.queue
  rewrite : s.rewriteLock.isSome = true → s'.rewriteLock.isSome = true ∨ .rewriteStart ∈ s'.queue

lemma left_eventAdd (hpha : Phase cfg (s'.eventAdd t)) (hpub : s'.published = s.published)
    (hque : s'.queue = s.queue) (hrebuild : s.rebuildLock = true → s'.rebuildLock = true)
    (hrewrite : s.rewriteLock.isSome = true → s'.rewriteLock.isSome = true) : Left cfg s (s'.eventAdd t) where
  phase := hpha
  published := fun _ hp => .inr (hpub ▸ hp)
  queue := fun _ hu => mem_append_left _ (hque ▸ hu)
  rebuild := fun h => .inl (hrebuild h)
  rewrite := fun h => .inl (hrewrite h)

lemma steps_eventAdd (hsteps : steps s.queue = []) (ht : t.isStep = true) : steps (s.eventAdd t).queue = [t] := by
  rw [State.eventAdd, steps_append, hsteps, if_pos ht]
  rfl

lemma ends_rebuildResume (hrebuild : s.rebuildLock = true) (hrewrite : s.rewriteLock = none) (hsteps : steps s.queue = []) :
    Ends Elsewhere (fun s' => Left cfg s s' ∧ s'.rebuildLock = true) (storeDigestRebuildResume cfg s) := by
  rw [storeDigestRebuildResume, digestAssert_pos hrebuild, digestAssert_pos hrewrite]
  refine (ends_resize cfg _ _).bind fun resized _ => ⟨left_eventAdd ?_ rfl rfl id id, hrebuild⟩
  exact .rebuilding hrebuild (steps_eventAdd hsteps rfl)

lemma ends_rewriteResume (hrewrite : s.rewriteLock = some lock) (hrebuild : s.rebuildLock = false)
    (hsteps : steps s.queue = []) (hdigest : s.rebuilt = some s.digest) :
    Ends Elsewhere (fun s' => Left cfg s s' ∧ s'.rewriteLock.isSome = true) (storeDigestRewriteResume cfg s) := by
  simp only [storeDigestRewriteResume, hrewrite]
  rw [digestAssert_pos hrebuild]
  refine ⟨left_eventAdd ?_ rfl rfl id fun _ => rfl, rfl⟩
  exact .rewriting _ rfl (steps_eventAdd hsteps rfl) hdigest rfl (by simp [State.eventAdd]) (Nat.zero_le _)

lemma Phase.left (hpha : Phase cfg s) : Left cfg s s := ⟨hpha, fun _ hp => .inr hp, fun _ ht => ht, .inl, .inl⟩

lemma ends_rebuildStart (hpha : Phase cfg s) :
    Ends Elsewhere (fun s' => Left cfg s s' ∧ s'.rebuildLock = true) (storeDigestRebuildStart cfg s) := by
  refine ends_ite (fun hlock => ⟨hpha.left, hlock⟩) fun hlock => ends_ite (fun hwait => ?_) fun hfree => ?_
  · -- the other job is active, and this one waits for it
    cases hpha with
    | idle _ hrewrite => simp [hrewrite] at hwait
    | rebuilding hrebuild => exact absurd hrebuild hlock
    | rewriting lock hrewrite hsteps hdigest hlength hbody hoffset =>
      exact ⟨⟨.rewriting lock hrewrite hsteps hdigest hlength hbody hoffset, fun _ hp => .inr hp, fun _ ht => ht,
        fun _ => .inl rfl, .inl⟩, rfl⟩
  · cases hpha with
    | idle _ hrewrite hsteps =>
      have hres : Ends Elsewhere _ (storeDigestRebuildResume cfg { s with rebuildLock := true }) :=
        ends_rebuildResume rfl hrewrite hsteps
      exact hres.mono fun s' h => ⟨{ h.1 with rebuild := fun _ => .inl h.2 }, h.2⟩
    | rebuilding hrebuild => exact absurd hrebuild hlock
    | rewriting lock hrewrite => simp [hrewrite] at hfree

/-- The digest must have been built before. -/
theorem ends_rewriteStart (hpha : Phase cfg s) (hbui : s.rebuildLock = true ∨ s.rebuilt = some s.digest) :
    Ends Elsewhere (fun s' => Left cfg s s' ∧ s'.rewriteLock.isSome = true) (storeDigestRewriteStart cfg s) := by
  refine ends_ite (fun hlock => ⟨hpha.left, hlock⟩) fun hlock => ends_ite (fun hwait => ?_) fun hfree => ?_
  · cases hpha with
    | idle hrebuild => simp [hrebuild] at hwait
    | rebuilding hrebuild hsteps =>
      exact ⟨⟨.rebuilding hrebuild hsteps, fun _ hp => .inr hp, fun _ ht => ht, .inl, fun _ => .inl rfl⟩, rfl⟩
    | rewriting lock hrewrite => simp [hrewrite] at hlock
  · cases hpha with
    | idle hrebuild hrewrite hsteps =>
      have hres : Ends Elsewhere _ (storeDigestRewriteResume cfg
          { s with rewriteLock := some ⟨s.nextLock, 0, []⟩, nextLock := s.nextLock + 1 }) :=
        ends_rewriteResume rfl hrebuild hsteps (hbui.resolve_left hfree)
      exact hres.mono fun s' h => ⟨{ h.1 with rewrite := fun _ => .inl h.2 }, h.2⟩
    | rebuilding hrebuild => exact absurd hrebuild hfree
    | rewriting lock hrewrite => simp [hrewrite] at hlock

lemma ends_rebuildFinish (hrebuild : s.rebuildLock = true) (hsteps : steps s.queue = []) :
    Ends Elsewhere (Left cfg s) (storeDigestRebuildFinish cfg s) := by
  rw [storeDigestRebuildFinish, digestAssert_pos hrebuild]
  have hmem : Task.rebuildStart ∈ s.queue ++ [.rebuildStart] := by simp
  have hnone : steps (s.queue ++ [.rebuildStart]) = [] := by
    rw [steps_append, hsteps]
    rfl
  refine ends_ite (fun hwait => ?_) fun hfree => ?_
  · obtain ⟨lock, hlock⟩ := Option.isSome_iff_exists.1 hwait
    refine (ends_rewriteResume hlock rfl hnone rfl).mono fun s' h => ?_
    obtain ⟨hleft, hsome⟩ := h
    exact ⟨hleft.phase, hleft.published, fun t ht => hleft.queue t (mem_append_left _ ht),
      fun _ => .inr (hleft.queue _ hmem), fun _ => .inl hsome⟩
  · exact ⟨.idle rfl (by simpa using hfree) hnone (.inl rfl), fun _ hp => .inr hp, fun t ht => mem_append_left _ ht,
      fun _ => .inr hmem, .inl⟩

lemma ends_rebuildStep (hrebuild : s.rebuildLock = true) (hsteps : steps s.queue = []) :
    Ends Elsewhere (Left cfg s) (storeDigestRebuildStep cfg s) := by
  refine ends_ite (fun _ => DigestFault.noConfusion) fun _ => ?_
  rw [digestAssert_pos hrebuild]
  refine ends_ite (fun _ => DigestFault.noConfusion) fun _ => ends_ite (fun _ => ?_) fun _ => ?_
  · refine Ends.mono (ends_rebuildFinish (by exact hrebuild) (by exact hsteps)) fun s' h => ?_
    exact ⟨h.phase, h.published, h.queue, h.rebuild, h.rewrite⟩
  · exact left_eventAdd (.rebuilding hrebuild (steps_eventAdd hsteps rfl)) rfl rfl id id

lemma ends_rewriteFinish (hrewrite : s.rewriteLock = some lock) (hsteps : steps s.queue = [])
    (hdigest : s.rebuilt = some s.digest) (hwho : Published.Whole cfg ⟨lock.contentLength, lock.body, s.rebuilt⟩) :
    Ends Elsewhere (Left cfg s) (storeDigestRewriteFinish cfg lock s) := by
  rw [storeDigestRewriteFinish, digestAssert_pos hrewrite]
  have hmem : Task.rewriteStart ∈ s.queue ++ [.rewriteStart] := by simp
  have hnone : steps (s.queue ++ [.rewriteStart]) = [] := by
    rw [steps_append, hsteps]
    rfl
  have hpub : ∀ p ∈ ⟨lock.contentLength, lock.body, s.rebuilt⟩ :: s.published, p.Whole cfg ∨ p ∈ s.published := by
    intro p hp
    rcases mem_cons.1 hp with rfl | hp
    · exact .inl hwho
    · exact .inr hp
  refine ends_ite (fun hwait => ?_) fun hfree => ?_
  · refine Ends.mono (ends_rebuildResume (by exact hwait) (by rfl) (by exact hnone)) fun s' h => ?_
    obtain ⟨hleft, hlock⟩ := h
    exact ⟨hleft.phase, fun p hp => (hleft.published p hp).elim .inl (hpub p),
      fun t ht => hleft.queue t (mem_append_left _ ht), fun _ => .inl hlock, fun _ => .inr (hleft.queue _ hmem)⟩
  · exact ⟨.idle (by simpa using hfree) rfl hnone (.inl hdigest), hpub, fun t ht => mem_append_left _ ht, .inl,
      fun _ => .inr hmem⟩

lemma storeAppend_eq {mask body body' : List UInt8} {offset : ℕ} {len : ℤ} (h : storeAppend mask body offset len = .ok body') :
    0 ≤ len ∧ offset + len.toNat ≤ mask.length ∧ body' = body ++ (mask.drop offset).take len.toNat := by
  unfold storeAppend at h
  split_ifs at h with hneg hlong
  cases h
  exact ⟨by omega, by omega, rfl⟩

lemma ends_storeAppend (mask body : List UInt8) (offset : ℕ) (len : ℤ) :
    Ends Elsewhere (fun body' => storeAppend mask body offset len = .ok body') (storeAppend mask body offset len) := by
  cases h : storeAppend mask body offset len with
  | ok body' => rfl
  | error f =>
    unfold storeAppend at h
    split_ifs at h <;> cases h <;> exact DigestFault.noConfusion

lemma ends_swapOutStep (hrewrite : s.rewriteLock = some lock) (hsteps : steps s.queue = [])
    (hdigest : s.rebuilt = some s.digest) (hlength : lock.contentLength = s.digest.mask.length + cblockSize)
    (hbody : lock.body = storeDigestCBlock cfg s.digest ++ s.digest.mask.take s.rewriteOffset) :
    Ends Elsewhere (Left cfg s) (storeDigestSwapOutStep cfg lock.id s) := by
  simp only [storeDigestSwapOutStep, hrewrite]
  refine (ends_storeAppend _ _ _ _).bind fun body hbody' => ?_
  obtain ⟨-, hle, rfl⟩ := storeAppend_eq hbody'
  have htake : lock.body ++ (s.digest.mask.drop s.rewriteOffset).take (swapOutChunk cfg s).toNat =
      storeDigestCBlock cfg s.digest ++ s.digest.mask.take (s.rewriteOffset + (swapOutChunk cfg s).toNat) := by
    rw [hbody, append_assoc, take_add]
  refine ends_ite (fun hend => ?_) fun hmore => ?_
  · -- the last part: the whole mask has been written
    have hall : s.digest.mask.take (s.rewriteOffset + (swapOutChunk cfg s).toNat) = s.digest.mask :=
      take_of_length_le hend
    rw [hall] at htake
    refine Ends.mono (ends_rewriteFinish (by rfl) (by exact hsteps) (by exact hdigest) ⟨s.digest, hdigest, htake, ?_⟩) fun s' h => ?_
    · show lock.contentLength = _
      rw [htake, length_append, length_cblock]
      omega
    · exact ⟨h.phase, h.published, h.queue, h.rebuild, fun _ => h.rewrite rfl⟩
  · exact left_eventAdd (.rewriting _ rfl (steps_eventAdd hsteps rfl) hdigest hlength htake hle) rfl rfl id fun _ => rfl

/-! ## Runs -/

lemma Phase.eraseIdx_start (hpha : Phase cfg s) (h : s.queue[i]? = some t) (ht : t.isStep = false) :
    Phase cfg { s with queue := s.queue.eraseIdx i } := by
  have hperm := steps_eraseIdx_start h ht
  cases hpha with
  | idle hrebuild hrewrite hsteps hdigest =>
    rw [hsteps, perm_nil] at hperm
    refine .idle hrebuild hrewrite hperm (Or.inl (hdigest.resolve_right fun hnil => ?_))
    simp [hnil] at h
  | rebuilding hrebuild hsteps =>
    rw [hsteps, perm_singleton] at hperm
    exact .rebuilding hrebuild hperm
  | rewriting lock hrewrite hsteps hdigest hlength hbody hoffset =>
    rw [hsteps, perm_singleton] at hperm
    exact .rewriting lock hrewrite hperm hdigest hlength hbody hoffset

lemma Phase.built (hpha : Phase cfg s) (hque : s.queue ≠ []) : s.rebuildLock = true ∨ s.rebuilt = some s.digest := by
  cases hpha with
  | idle _ _ _ hdigest => exact Or.inr (hdigest.resolve_right hque)
  | rebuilding hrebuild _ => exact Or.inl hrebuild
  | rewriting _ _ _ hdigest _ _ _ => exact Or.inr hdigest

lemma Inv.left (hs : Inv cfg s) (h : s.queue[i]? = some t)
    (hleft : Left cfg { s with queue := s.queue.eraseIdx i } s') (hrebuild : t = .rebuildStart → s'.rebuildLock = true)
    (hrewrite : t = .rewriteStart → s'.rewriteLock.isSome = true) : Inv cfg s' := by
  have harm : Armed s := hs.armed.resolve_left fun hnil => by simp [hnil] at h
  refine ⟨hleft.phase, fun p hp => (hleft.published p hp).elim id (hs.published p), .inr ⟨?_, ?_⟩⟩
  · by_cases ht : t = .rebuildStart
    · exact .inl (hrebuild ht)
    · exact harm.rebuild.elim hleft.rebuild fun hmem => .inr (hleft.queue _ (mem_eraseIdx_of_ne h hmem (Ne.symm ht)))
  · by_cases ht : t = .rewriteStart
    · exact .inl (hrewrite ht)
    · exact harm.rewrite.elim hleft.rewrite fun hmem => .inr (hleft.queue _ (mem_eraseIdx_of_ne h hmem (Ne.symm ht)))

lemma Inv.run (hs : Inv cfg s) (h : s.queue[i]? = some t) :
    Ends Elsewhere (Inv cfg) (runTask cfg { s with queue := s.queue.eraseIdx i } t) := by
  have hne : s.queue ≠ [] := by
    rintro hnil
    simp [hnil] at h
  have hmem := mem_of_getElem? h
  cases t with
  | rebuildStart =>
    have hpha := hs.phase.eraseIdx_start h rfl
    exact (ends_rebuildStart hpha).mono fun s' h' => hs.left h h'.1 (fun _ => h'.2) fun ht => absurd ht (by simp)
  | rewriteStart =>
    have hpha := hs.phase.eraseIdx_start h rfl
    exact (ends_rewriteStart hpha (hs.phase.built hne)).mono fun s' h' =>
      hs.left h h'.1 (fun ht => absurd ht (by simp)) fun _ => h'.2
  | rebuildStep =>
    rw [mem_steps rfl] at hmem
    cases hs.phase with
    | idle _ _ hsteps => simp [hsteps] at hmem
    | rewriting lock _ hsteps => simp [hsteps] at hmem
    | rebuilding hrebuild hsteps =>
      obtain ⟨-, hnone⟩ := steps_eraseIdx_step h rfl hsteps
      exact Ends.mono (ends_rebuildStep (by exact hrebuild) (by exact hnone)) fun s' h' =>
        hs.left h h' (fun ht => absurd ht (by simp)) fun ht => absurd ht (by simp)
  | swapOutStep data =>
    rw [mem_steps rfl] at hmem
    cases hs.phase with
    | idle _ _ hsteps => simp [hsteps] at hmem
    | rebuilding _ hsteps => simp [hsteps] at hmem
    | rewriting lock hrewrite hsteps hdigest hlength hbody hoffset =>
      obtain ⟨hdata, hnone⟩ := steps_eraseIdx_step h rfl hsteps
      cases hdata
      exact Ends.mono (ends_swapOutStep (by exact hrewrite) (by exact hnone) (by exact hdigest) (by exact hlength)
        (by exact hbody)) fun s' h' => hs.left h h' (fun ht => absurd ht (by simp)) fun ht => absurd ht (by simp)

lemma Inv.noteStoreReady (hs : Inv cfg s) : Ends Elsewhere (Inv cfg) (storeDigestNoteStoreReady cfg s) := by
  refine (ends_rebuildStart hs.phase).bind fun s₁ h₁ => ?_
  refine (ends_rewriteStart h₁.1.phase (.inl h₁.2)).mono fun s₂ h₂ => ?_
  refine ⟨h₂.1.phase, fun p hp => ?_, .inr ⟨h₂.1.rebuild h₁.2, .inl h₂.2⟩⟩
  exact (h₂.1.published p hp).elim id fun hp => (h₁.1.published p hp).elim id (hs.published p)

lemma step_run (h : s.queue[i]? = some t) :
    step cfg s (.run i) = runTask cfg { s with queue := s.queue.eraseIdx i } t := by
  simp [step, h]

lemma Inv.step (hs : Inv cfg s) (e : Event) : Ends Elsewhere (Inv cfg) (step cfg s e) := by
  cases e with
  | noteStoreReady => exact hs.noteStoreReady
  | run i =>
    cases h : s.queue[i]? with
    | none =>
      simp only [Digest.step, h]
      exact hs
    | some t =>
      rw [step_run h]
      exact hs.run h
  | store store =>
    refine ⟨?_, hs.published, hs.armed.imp_right fun h => ⟨h.rebuild, h.rewrite⟩⟩
    cases hs.phase with
    | idle hrebuild hrewrite hsteps hdigest => exact .idle hrebuild hrewrite hsteps hdigest
    | rebuilding hrebuild hsteps => exact .rebuilding hrebuild hsteps
    | rewriting lock hrewrite hsteps hdigest hlength hbody hoffset =>
      exact .rewriting lock hrewrite hsteps hdigest hlength hbody hoffset

lemma inv_storeDigestInit {store : Store} (h : storeDigestInit cfg store = .ok s) : Inv cfg s := by
  obtain ⟨cap, -, h⟩ := bind_eq_ok.1 h
  obtain ⟨cd, -, h⟩ := bind_eq_ok.1 h
  cases h
  exact ⟨.idle rfl rfl rfl (Or.inr rfl), by simp, Or.inl rfl⟩

lemma inv_of_reached {init : State} {cond : State → Event → Bool} {es : List Event} (hinit : Inv cfg init)
    (h : (machine cfg init).Reached cond es s) : Inv cfg s := by
  induction h with
  | init => exact hinit
  | next e _ _ _ hstep ih => exact (ih.step e).ok_of_eq hstep

/-! ## Starting -/

/-- The digest keeps its size, or the mask of the new one has a size. -/
def Resizable (cfg : Config) (s : State) : Prop := ∃ cap, storeDigestCalcCap cfg s.store = .ok cap ∧
    (toInt |toInt (cap - s.digest.capacity)| ≤ s.digest.capacity.tdiv 10 ∨ 0 < cap ∧ 8 ≤ toInt (cap * s.digest.bitsPerEntry + 7))

lemma toInt_bounds (n : ℤ) : -2 ^ 31 ≤ toInt n ∧ toInt n < 2 ^ 31 := by
  have hle : -((2 ^ 32 : ℕ) / 2 : ℤ) ≤ n.bmod (2 ^ 32) := Int.le_bmod (by decide)
  have hlt : n.bmod (2 ^ 32) < ((2 ^ 32 : ℕ) + 1) / 2 := Int.bmod_lt (by decide)
  unfold toInt
  omega

lemma calcMaskSize_of_nonneg (h : 0 ≤ toInt (cap * bpe + 7)) :
    cacheDigestCalcMaskSize cap bpe = (toInt (cap * bpe + 7)).toNat / 8 := by
  have hlt := (toInt_bounds (cap * bpe + 7)).2
  rw [cacheDigestCalcMaskSize, size64_of_lt h (by omega)]

lemma toInt_calcMaskSize_neg (h : toInt (cap * bpe + 7) < 0) : toInt (cacheDigestCalcMaskSize cap bpe) < 0 := by
  have hle := (toInt_bounds (cap * bpe + 7)).1
  rw [cacheDigestCalcMaskSize]
  rw [size64, toInt, Int.bmod_def]
  split_ifs <;> omega

/-- A mask of less than one byte is none, and a size that wrapped to a negative number stays negative. -/
theorem cacheDigestInit_ok_iff (cap bpe : ℤ) (count delCount : ℕ) :
    (∃ cd, cacheDigestInit cap bpe count delCount = .ok cd) ↔ 0 < cap ∧ 0 < bpe ∧ 8 ≤ toInt (cap * bpe + 7) := by
  have hlt := (toInt_bounds (cap * bpe + 7)).2
  constructor
  · rintro ⟨cd, hok⟩
    rw [cacheDigestInit] at hok
    split_ifs at hok with hassert hsize
    refine ⟨hassert.1, hassert.2.1, ?_⟩
    by_cases hneg : toInt (cap * bpe + 7) < 0
    · have hneg' := toInt_calcMaskSize_neg hneg
      omega
    · have hpos := hassert.2.2
      rw [calcMaskSize_of_nonneg (by omega)] at hpos
      omega
  · rintro ⟨hcap, hbpe, hbits⟩
    have hsize : cacheDigestCalcMaskSize cap bpe = (toInt (cap * bpe + 7)).toNat / 8 := calcMaskSize_of_nonneg (by omega)
    have hint : toInt (cacheDigestCalcMaskSize cap bpe) = cacheDigestCalcMaskSize cap bpe := toInt_of_lt (by omega) (by omega)
    rw [cacheDigestInit, dif_pos ⟨hcap, hbpe, by omega⟩, dif_pos ⟨by omega, by omega⟩]
    exact ⟨_, rfl⟩

lemma resize_ok_iff : (∃ resized, storeDigestResize cfg s.store s.digest = .ok resized) ↔ Resizable cfg s := by
  have hinit : ∀ cap, (∃ cd, cacheDigestChangeCap s.digest cap = .ok cd) ↔
      0 < cap ∧ 8 ≤ toInt (cap * s.digest.bitsPerEntry + 7) := by
    intro cap
    rw [cacheDigestChangeCap, cacheDigestInit_ok_iff]
    exact and_congr_right fun _ => and_iff_right s.digest.bits_pos
  unfold storeDigestResize
  constructor
  · rintro ⟨resized, h⟩
    obtain ⟨cap, hcap, h⟩ := bind_eq_ok.1 h
    refine ⟨cap, hcap, ?_⟩
    split_ifs at h with hsma
    · exact Or.inl hsma
    · obtain ⟨cd, hcd, -⟩ := bind_eq_ok.1 h
      exact Or.inr ((hinit cap).1 ⟨cd, hcd⟩)
  · rintro ⟨cap, hcap, hsize⟩
    rw [hcap, ok_bind]
    by_cases hsma : toInt |toInt (cap - s.digest.capacity)| ≤ s.digest.capacity.tdiv 10
    · exact ⟨none, if_pos hsma⟩
    · obtain ⟨cd, hcd⟩ := (hinit cap).2 (hsize.resolve_left hsma)
      refine ⟨some cd, ?_⟩
      rw [if_neg hsma, hcd]
      rfl

/-- The state behind a start that has nothing to wait for. -/
def restarted (s : State) (resized : Option CacheDigest) : State :=
  { s with rebuildLock := true, rebuildOffset := 0, digest := resized.getD (cacheDigestClear s.digest) }.eventAdd .rebuildStep

lemma rebuildStart_idle (hrebuild : s.rebuildLock = false) (hrewrite : s.rewriteLock = none) :
    storeDigestRebuildStart cfg s = (storeDigestResize cfg s.store s.digest >>= fun resized => pure (restarted s resized)) := by
  rw [storeDigestRebuildStart, if_neg (by simp [hrebuild]), if_neg (by simp [hrewrite]), storeDigestRebuildResume,
    digestAssert_pos (by rfl), digestAssert_pos (by exact hrewrite)]
  rfl

lemma rebuilding_restarted (s : State) (resized : Option CacheDigest) : (restarted s resized).Rebuilding :=
  mem_append_right _ mem_cons_self

section

variable (hrebuild : s.rebuildLock = false) (hrewrite : s.rewriteLock = none)

include hrebuild hrewrite

lemma rebuildStart_iff :
    (∃ s', storeDigestRebuildStart cfg s = .ok s' ∧ s'.Rebuilding) ↔ Resizable cfg s := by
  rw [← resize_ok_iff, rebuildStart_idle hrebuild hrewrite]
  constructor
  · rintro ⟨s', hok, -⟩
    obtain ⟨resized, hres, -⟩ := bind_eq_ok.1 hok
    exact ⟨resized, hres⟩
  · rintro ⟨resized, hres⟩
    rw [hres]
    exact ⟨_, rfl, rebuilding_restarted s _⟩

lemma noteStoreReady_iff :
    (∃ s', storeDigestNoteStoreReady cfg s = .ok s' ∧ s'.Rebuilding) ↔ Resizable cfg s := by
  rw [← resize_ok_iff, storeDigestNoteStoreReady, rebuildStart_idle hrebuild hrewrite]
  constructor
  · rintro ⟨s', hok, -⟩
    obtain ⟨s₁, hok₁, -⟩ := bind_eq_ok.1 hok
    obtain ⟨resized, hres, -⟩ := bind_eq_ok.1 hok₁
    exact ⟨resized, hres⟩
  · rintro ⟨resized, hres⟩
    -- the writer finds the lock taken and waits
    have hnone : ¬ (restarted s resized).rewriteLock.isSome = true := by
      show ¬ s.rewriteLock.isSome = true
      simp [hrewrite]
    rw [hres, ok_bind, pure_eq_ok, ok_bind, storeDigestRewriteStart, if_neg hnone]
    exact ⟨_, rfl, rebuilding_restarted s _⟩

lemma rewriteStart_ok : ∃ s', storeDigestRewriteStart cfg s = .ok s' ∧ s'.Rewriting := by
  rw [storeDigestRewriteStart, if_neg (by simp [hrewrite]), if_neg (by simp [hrebuild]), storeDigestRewriteResume,
    digestAssert_pos (by exact hrebuild)]
  exact ⟨_, rfl, .swapOutStep _, mem_append_right _ mem_cons_self, rfl⟩

end

lemma Phase.locks_free (hpha : Phase cfg s) (hrebuild : ¬ s.Rebuilding) (hrewrite : ¬ s.Rewriting) :
    s.rebuildLock = false ∧ s.rewriteLock = none := by
  cases hpha with
  | idle hrebuild' hrewrite' => exact ⟨hrebuild', hrewrite'⟩
  | rebuilding _ hsteps =>
    refine absurd ?_ hrebuild
    rw [State.Rebuilding, mem_steps rfl, hsteps]
    exact mem_cons_self
  | rewriting lock _ hsteps =>
    refine absurd ⟨.swapOutStep lock.id, ?_, rfl⟩ hrewrite
    rw [mem_steps rfl, hsteps]
    exact mem_cons_self

lemma Phase.not_both (hpha : Phase cfg s) : ¬ (s.Rebuilding ∧ s.Rewriting) := by
  rintro ⟨hrebuild, t, ht, hswap⟩
  have hstep : t.isStep = true := by
    cases t <;> first | rfl | cases hswap
  rw [State.Rebuilding, mem_steps rfl] at hrebuild
  rw [mem_steps hstep] at ht
  cases hpha with
  | idle _ _ hsteps => simp [hsteps] at hrebuild
  | rebuilding _ hsteps =>
    rw [hsteps, mem_singleton] at ht
    rw [ht] at hswap
    cases hswap
  | rewriting _ _ hsteps => simp [hsteps] at hrebuild

/-- In every run the jobs keep apart, no assertion fails, and what is published is whole. When nothing is active
both starts are due; a rewrite can start, and a rebuild can exactly if the digest can be resized. -/
theorem reached_apart {store : Store} {init : State} {es : List Event} (hinit : storeDigestInit cfg store = .ok init)
    (h : (machine cfg init).Reached (fun _ _ => true) es s) : ¬ (s.Rebuilding ∧ s.Rewriting) ∧
    (∀ e, step cfg s e ≠ .error .storeDigest) ∧ (∀ p ∈ s.published, p.Whole cfg) ∧ (¬ s.Rebuilding → ¬ s.Rewriting →
      (s.queue = [] ∨ .rebuildStart ∈ s.queue ∧ .rewriteStart ∈ s.queue) ∧ (∀ i, s.queue[i]? = some .rebuildStart →
        ((∃ s', step cfg s (.run i) = .ok s' ∧ s'.Rebuilding) ↔ Resizable cfg s)) ∧
      ((∃ s', step cfg s .noteStoreReady = .ok s' ∧ s'.Rebuilding) ↔ Resizable cfg s) ∧
      ∀ i, s.queue[i]? = some .rewriteStart → ∃ s', step cfg s (.run i) = .ok s' ∧ s'.Rewriting) := by
  have hs : Inv cfg s := inv_of_reached (inv_storeDigestInit hinit) h
  refine ⟨hs.phase.not_both, fun e herr => (hs.step e).error_of_eq herr rfl, hs.published, fun hrebuild hrewrite => ?_⟩
  obtain ⟨hlock, hlock'⟩ := hs.phase.locks_free hrebuild hrewrite
  refine ⟨hs.armed.imp_right fun harm => ⟨harm.rebuild.resolve_left (by simp [hlock]),
    harm.rewrite.resolve_left (by simp [hlock'])⟩, fun i hi => ?_, noteStoreReady_iff hlock hlock', fun i hi => ?_⟩
  · rw [step_run hi]
    exact rebuildStart_iff hlock hlock'
  · rw [step_run hi]
    exact rewriteStart_ok hlock hlock'

/-- One kilobyte for each object, and eight bits for each entry. -/
def smallConfig : Config := ⟨1, 1, 4096, 8, 4096, 100, 1⟩

def smallStore : Store := ⟨[[⟨List.replicate 16 1, true, false, false, false, true, false, 1, false⟩]], 1, 0⟩

/-- What is allocated for one entry. -/
def smallInit : State :=
  ⟨⟨[0], 1, 8, 0, 0, by decide, by decide, by decide⟩, false, none, 0, 0, [], smallStore, 0, [], none⟩

/-- A digest is built and written. -/
theorem reached_small : ∃ s, (machine smallConfig smallInit).Reached (fun _ _ => true) [.noteStoreReady, .run 0, .run 1] s ∧
    s.published.length = 1 ∧ ∀ p ∈ s.published, p.Whole smallConfig := by
  have hinit : storeDigestInit smallConfig smallStore = .ok smallInit := by decide +kernel
  obtain ⟨s, hs, hlength⟩ := Machine.exists_reached (machine smallConfig smallInit) (fun _ _ => true)
    [.noteStoreReady, .run 0, .run 1] (fun s => s.published.length = 1) (by decide +kernel)
  exact ⟨s, hs, hlength, (reached_apart hinit hs).2.2.1⟩

/-- A store of 512 gigabytes: the bits of its digest are no `int`, and the rebuild that is due cannot start. -/
theorem reached_big : storeDigestInit smallConfig smallStore = .ok smallInit ∧
    ∃ s, (machine smallConfig smallInit).Reached (fun _ _ => true)
      [.noteStoreReady, .run 0, .run 1, .store ⟨[], 1, 536870911⟩] s ∧
    ¬ s.Rebuilding ∧ ¬ s.Rewriting ∧ s.queue[0]? = some .rebuildStart ∧ step smallConfig s (.run 0) = .error .cacheDigest := by
  refine ⟨by decide +kernel, ?_⟩
  exact Machine.exists_reached (machine smallConfig smallInit) (fun _ _ => true)
    [.noteStoreReady, .run 0, .run 1, .store ⟨[], 1, 536870911⟩]
    (fun s => ¬ s.Rebuilding ∧ ¬ s.Rewriting ∧ s.queue[0]? = some _ ∧
      step _ s _ = .error _) (by decide +kernel)

end SquidVideoCache.Digest
