import SquidVideoCache.Store.Sound

/-!
# Publishing in a sound store

A public key is taken from the entry that has it, which may free that entry.
-/

namespace SquidVideoCache.Store
open Lib StoreKey VideoReg Set

variable {Key : Type} {cfg : Config Key} {s t u : State Key} {e : ℕ} {x y : StoreEntry Key}
  {X Y Z : Set ℕ} {mem : MemObject} {key : Key} {j : ℕ}

/-- A live entry that no public lookup can find. -/
def Hidden (s : State Key) (i : ℕ) : Prop := ∃ x, s.entries i = some x ∧ (x.key.isSome → x.flags.keyPrivate)

lemma Hidden.congr {i : ℕ} (h : Hidden s i) (ht : t.entries i = s.entries i) : Hidden t i := by
  obtain ⟨x, hx, hp⟩ := h
  exact ⟨x, ht.trans hx, hp⟩

/-- The store is sound, and hidden entries outside `Y` and the requests have not changed. -/
structure Keeps (cfg : Config Key) (X Y : Set ℕ) (s t : State Key) : Prop where
  sound : Sound cfg X t
  hidden : ∀ i, i ∉ Y → Hidden s i → t.entries i = s.entries i
  requests : t.requests = s.requests

lemma Keeps.refl (h : Sound cfg X s) : Keeps cfg X Y s s := ⟨h, fun _ _ _ => rfl, rfl⟩

lemma Keeps.trans (h : Keeps cfg X Y s t) (h' : Keeps cfg Z Y t u) : Keeps cfg Z Y s u := by
  refine ⟨h'.sound, ?_, h'.requests.trans h.requests⟩
  intro i hi hs
  have hst := h.hidden i hi hs
  exact (h'.hidden i hi (hs.congr hst)).trans hst

lemma Keeps.exempt (h : Keeps cfg X ∅ s t) : Keeps cfg X Y s t :=
  ⟨h.sound, fun i _ hs => h.hidden i (notMem_empty i) hs, h.requests⟩

lemma Keeps.mono (h : Keeps cfg X Z s t) (hXY : X ⊆ Y) : Keeps cfg Y Z s t :=
  ⟨h.sound.mono hXY, h.hidden, h.requests⟩

lemma Keeps.of_not_hidden (h : Keeps cfg X {e} s t) (he : ¬ Hidden s e) : Keeps cfg X ∅ s t := by
  refine ⟨h.sound, ?_, h.requests⟩
  intro i _ hs
  exact h.hidden i (fun hi => he (hi ▸ hs)) hs

lemma Keeps.entry (h : Keeps cfg X ∅ s t) (he : s.entries e = some x)
    (hp : x.key.isSome → x.flags.keyPrivate) : t.entries e = some x :=
  (h.hidden e (notMem_empty e) ⟨x, he, hp⟩).trans he

lemma Touches.keeps (h : Touches cfg X e s t) : Keeps cfg X {e} s t :=
  ⟨h.sound, fun i hi _ => h.others i hi, h.requests⟩

lemma not_hidden_of_none (h : s.entries e = none) : ¬ Hidden s e := by
  intro ⟨x, hx, _⟩
  rw [h] at hx
  cases hx

lemma not_hidden_of_public (he : s.entries e = some x) (hk : x.key.isSome)
    (hp : ¬ x.flags.keyPrivate) : ¬ Hidden s e := by
  intro ⟨y, hy, hpriv⟩
  cases he.symm.trans hy
  exact hp (hpriv hk)

/-! ## Public keys -/

lemma isPublicKey_publicKeyOf (h : publicKeyOf cfg mem s = .ok key) : IsPublicKey cfg key := by
  have hlift : ∀ {r : Exec Key}, liftKey r = .ok key → r = .ok key := by
    intro r hr
    cases r with
    | error f => cases hr
    | ok k =>
      cases hr
      rfl
  unfold publicKeyOf at h
  cases hr : mem.request with
  | none =>
    rw [hr] at h
    exact isPublicKey_storeKeyPublic (hlift h)
  | some r =>
    rw [hr] at h
    obtain ⟨url, hurl⟩ := storeKeyPublicByRequestMethod_preimage (hlift h)
    exact ⟨url, _, _, hurl⟩

lemma publicKeyOf_congr (mem : MemObject) (h : t.requests = s.requests) :
    publicKeyOf cfg mem t = publicKeyOf cfg mem s := by
  unfold publicKeyOf
  rw [h]

lemma ends_publicKeyOf {α : Type} {Q : α → Prop} {f : Key → Result α}
    (h : ∀ key, publicKeyOf cfg mem s = .ok key → Ends Allowed Q (f key)) :
    Ends Allowed Q (publicKeyOf cfg mem s >>= f) := by
  have hfau : ∀ {r : Exec Key}, Ends Allowed (fun _ => True) (liftKey r) := by
    intro r
    cases r <;> trivial
  have hends : Ends Allowed (fun _ => True) (publicKeyOf cfg mem s) := by
    unfold publicKeyOf
    cases mem.request with
    | none => exact hfau
    | some _ => exact hfau
  cases hr : publicKeyOf cfg mem s with
  | error fault =>
    rw [hr] at hends
    exact hends
  | ok key => exact h key hr

variable [DecidableEq Key] (hmd5 : Function.Injective cfg.md5)

include hmd5

lemma Inv.found_public (h : Inv cfg s) (hkey : IsPublicKey cfg key) (hl : hashLookup key s = some j) :
    ∃ x, s.entries j = some x ∧ x.key.isSome ∧ ¬ Hidden s j := by
  obtain ⟨x, hx, hk, hpub⟩ := h.public_of_hashLookup hmd5 hkey hl
  have hsome : x.key.isSome := by rw [hk]; rfl
  exact ⟨x, hx, hsome, not_hidden_of_public hx hsome hpub⟩

lemma Sound.evict (h : Sound cfg X s) (hkey : IsPublicKey cfg key) :
    Ends Allowed (fun t => Keeps cfg X ∅ s t ∧ ∀ i, keyOf t i ≠ some key) (evict cfg key s) := by
  cases hl : hashLookup key s with
  | none =>
    rw [Store.evict, hl]
    exact ⟨Keeps.refl h, h.inv.hashLookup_eq_none.mp hl⟩
  | some j =>
    obtain ⟨x, hx, hk, hnot⟩ := h.inv.found_public hmd5 hkey hl
    rw [Store.evict, hl]
    refine (h.storeSetPrivateKey hmd5 hx).bind ?_
    rintro t ⟨ht, y, hy, hyk, hyp, _⟩
    refine ((ht.sound.storeRelease hmd5 hy hyk).and (fades_storeRelease t)).mono ?_
    rintro u ⟨hu, hfade⟩
    have hsu := ht.trans hu
    refine ⟨(hsu.mono sdiff_subset).keeps.of_not_hidden hnot, ?_⟩
    intro i hi
    obtain ⟨z, hz, hzk⟩ := keyOf_eq_some.mp hi
    by_cases hij : i = j
    · -- the holder is private now, so its key is no public one
      rw [hij] at hz
      obtain ⟨y', hy', hyz⟩ := hfade.entries j z hz
      cases hy.symm.trans hy'
      exact ((hu.sound.inv.typed j z hz).isPublicKey_iff hmd5 hzk).mp hkey (hyz.keyPrivate hyp)
    · rw [hsu.others i hij] at hz
      exact hij (h.inv.distinct i j key (keyOf_eq_some.mpr ⟨z, hz, hzk⟩) (hashLookup_some hl).2)

lemma Sound.publish (h : Sound cfg X s) (he : s.entries e = some x) (hr : ¬ x.flags.releaseRequest)
    (hp : x.key.isSome → x.flags.keyPrivate) (hkey : publicKeyOf cfg mem s = .ok key) :
    Ends Allowed (fun t => Keeps cfg (X \ {e}) {e} s t ∧ t.entries e = some (publicEntry key x))
      (publish cfg e mem key s) := by
  have hpub := isPublicKey_publicKeyOf hkey
  refine (h.evict hmd5 hpub).bind ?_
  intro t ⟨hst, hfree⟩
  have het := hst.entry he hp
  have hinv := hst.sound.inv.publicKey het hpub fun i _ => hfree i
  have hgood : Good (publicEntry key x) := .of_not_released hr (hst.sound.good e x het).memObj
  have hsou := hst.sound.rekeyed hinv rfl rfl hgood rfl
  have hkee : Keeps cfg (X \ {e}) {e} s (Store.rekeyed e (publicEntry key x) t) :=
    hst.exempt.trans (Touches.keeps ⟨hsou, fun i hi => Function.update_of_ne hi .., rfl⟩)
  rw [publicKeyOf_congr mem hst.requests, hkey, ok_bind, hst.sound.inv.replaceKey_eq key het]
  refine ends_ite (fun _ => ?_) fun _ => ⟨hkee, rekeyed_self⟩
  refine (storeDirSwapLog_ends rekeyed_self trivial).mono ?_
  intro u ⟨log, hu⟩
  rw [hu]
  exact ⟨⟨hkee.sound.congr rfl rfl rfl rfl rfl, hkee.hidden, hkee.requests⟩, rekeyed_self⟩

lemma Sound.release_found (h : Sound cfg X s) (hkey : IsPublicKey cfg key)
    (hl : hashLookup key s = some j) : Ends Allowed (Keeps cfg X ∅ s) (Store.storeRelease cfg j s) := by
  obtain ⟨x, hx, hk, hnot⟩ := h.inv.found_public hmd5 hkey hl
  exact (h.storeRelease hmd5 hx hk).mono fun t ht => ht.keeps.of_not_hidden hnot

section

omit hmd5

lemma storeGetPublic_ends (url : CString) (method : Method) (s : State Key) :
    Ends Allowed (fun r => ∀ j, r = some j → ∃ key, IsPublicKey cfg key ∧ hashLookup key s = some j)
      (storeGetPublic cfg url method s) := by
  rw [storeGetPublic]
  cases hk : storeKeyPublic cfg.md5 cfg.acsmCap url method with
  | error f => trivial
  | ok key =>
    intro j hj
    exact ⟨key, isPublicKey_storeKeyPublic hk, hj⟩

lemma storeGetPublicByRequestMethod_ends (request : Request) (method : Method) (s : State Key) :
    Ends Allowed (fun r => ∀ j, r = some j → ∃ key, IsPublicKey cfg key ∧ hashLookup key s = some j)
      (storeGetPublicByRequestMethod cfg request method s) := by
  rw [storeGetPublicByRequestMethod]
  cases hk : storeKeyPublicByRequestMethod cfg.md5 cfg.acsmCap request method with
  | error f => trivial
  | ok key =>
    obtain ⟨url, hurl⟩ := storeKeyPublicByRequestMethod_preimage hk
    intro j hj
    exact ⟨key, ⟨url, _, _, hurl⟩, hj⟩

lemma storeGetPublicByRequest_ends (request : Request) (s : State Key) :
    Ends Allowed (fun r => ∀ j, r = some j → ∃ key, IsPublicKey cfg key ∧ hashLookup key s = some j)
      (storeGetPublicByRequest cfg request s) := by
  refine (storeGetPublicByRequestMethod_ends _ _ s).bind ?_
  intro found hfou
  cases found with
  | some j => exact hfou
  | none =>
    refine ends_ite (fun _ => storeGetPublicByRequestMethod_ends _ _ s) fun _ => ?_
    intro j hj
    cases hj

end

omit [DecidableEq Key] hmd5 in
lemma Sound.setRequest (h : Sound cfg X s) (r : ℕ) (request : Request) :
    Sound cfg X (setRequest r request s) := h.congr rfl rfl rfl rfl rfl

section

variable (h : Sound cfg X s) (he : s.entries e = some x)

include h he

/-- Whether the entry is to be indexed or was released instead, the store stays sound; in the first
case the entry has not changed, because no lookup finds it. -/
theorem Sound.syncVary (hp : x.key.isSome → x.flags.keyPrivate) (mem : MemObject) (r : ℕ) :
    Ends Allowed (fun p => if p.2 then Sound cfg X p.1 ∧ p.1.entries e = some x else Sound cfg (X \ {e}) p.1)
      (syncVary cfg e mem r s) := by
  have hset := fun request => h.setRequest r request
  have hsame : ∀ request, (Store.setRequest r request s).entries e = some x := fun _ => he
  rw [Store.syncVary]
  cases hv : mem.varyHeaders with
  | none => exact ⟨hset _, hsame _⟩
  | some mark =>
    cases hv' : (s.requests r).varyHeaders with
    | none =>
      refine ends_ite (fun _ => ?_) fun _ => ⟨hset _, hsame _⟩
      refine ((hset _).storeReleaseRequest hmd5 (hsame _)).bind ?_
      intro t ⟨ht, _⟩
      exact ht.sound
    | some mark' =>
      refine ends_ite (fun _ => ?_) fun _ => ⟨h, he⟩
      refine (storeGetPublic_ends _ _ _).bind ?_
      intro found hfou
      cases found with
      | none => exact ⟨hset _, hsame _⟩
      | some pe =>
        obtain ⟨key, hkey, hl⟩ := hfou pe rfl
        refine ((hset _).release_found hmd5 hkey hl).bind ?_
        intro t ht
        exact ⟨ht.sound, ht.entry (hsame _) hp⟩

/-! ## storeSetPublicKey -/

lemma Sound.makePublic_plain (hp : x.key.isSome → x.flags.keyPrivate) (hreq : requestOf x = none)
    (addVary : MemObject → Key → State Key → Result (State Key)) : Ends Allowed (fun t => Keeps cfg (X \ {e}) {e} s t ∧
      ∃ y, t.entries e = some y ∧ y.key.isSome ∧ Alike x y) (makePublic cfg addVary e s) := by
  rw [makePublic, entryAt_eq he, ok_bind]
  cases hm : x.memObj with
  | none => trivial
  | some mem =>
    have hnone : mem.request = none := by rw [requestOf, hm] at hreq; exact hreq
    apply ends_check (fun _ => trivial)
    intro hr
    rw [hnone]
    refine ends_publicKeyOf fun key hkey => (h.publish hmd5 he hr hp hkey).mono ?_
    rintro t ⟨ht, hte⟩
    exact ⟨ht, _, hte, rfl, rfl, rfl⟩

lemma Sound.setPublicKeyPlain (hreq : requestOf x = none) :
    Ends Allowed (fun t => Keeps cfg (X \ {e}) {e} s t ∧
      ∃ y, t.entries e = some y ∧ y.key.isSome ∧ Alike x y) (setPublicKeyPlain cfg e s) := by
  rw [Store.setPublicKeyPlain, setPublicKeyWith, entryAt_eq he]
  refine ends_ite (fun hpub => ends_ite (fun _ => ?_) fun _ => ?_) fun hpriv => ?_
  · -- an early public key is taken back first
    have hear : Sound cfg X (Store.setEntry e
        { x with flags := { x.flags with keyEarlyPublic := false } } s) :=
      h.setEntry he ⟨(h.good e x he).released, (h.good e x he).memObj⟩ rfl rfl
    refine (hear.storeSetPrivateKey hmd5 setEntry_self).bind ?_
    rintro t ⟨ht, y, hy, _, hyp, hxy⟩
    have hst : Touches cfg (X \ {e}) e s t :=
      ⟨ht.sound, fun i hi => (ht.others i hi).trans (Function.update_of_ne hi ..), ht.requests⟩
    refine (ht.sound.makePublic_plain hmd5 hy (fun _ => hyp) (hxy.request.trans hreq) _).mono ?_
    rintro u ⟨hu, z, hz, hzk, hyz⟩
    have hxz := hxy.trans hyz
    exact ⟨hst.keeps.trans (hu.mono sdiff_subset), z, hz, hzk, hxz.storeStatus, hxz.request⟩
  · exact ⟨Keeps.refl (h.sdiff he hpub.1), x, he, hpub.1, rfl, rfl⟩
  · exact h.makePublic_plain hmd5 he (fun hk => by_contra fun hp => hpriv ⟨hk, hp⟩) hreq _

end

/-- What `storeAddVary` is assumed to do while an entry is published. -/
def AddVaryOk (cfg : Config Key) (addVary : MemObject → Key → State Key → Result (State Key)) : Prop :=
  ∀ mem key s, MemOk (some mem) → Sound cfg ∅ s → Ends Allowed (Keeps cfg ∅ ∅ s) (addVary mem key s)

section

variable {addVary : MemObject → Key → State Key → Result (State Key)} (hadd : AddVaryOk cfg addVary)

include hadd

lemma Sound.makePublic (h : Sound cfg ∅ s) (he : s.entries e = some x) (hp : x.key.isSome → x.flags.keyPrivate) :
    Ends Allowed (Sound cfg ∅) (makePublic cfg addVary e s) := by
  rw [Store.makePublic, entryAt_eq he, ok_bind]
  cases hm : x.memObj with
  | none => trivial
  | some mem =>
    have hmem : MemOk (some mem) := hm ▸ (h.good e x he).memObj
    apply ends_check (fun _ => trivial)
    intro hr
    have hpubl : ∀ t key, Sound cfg ∅ t → t.entries e = some x → publicKeyOf cfg mem t = .ok key →
        Ends Allowed (Sound cfg ∅) (Store.publish cfg e mem key t) := by
      intro t key ht het hkey
      exact (ht.publish hmd5 het hr hp hkey).mono fun u hu => hu.1.sound.mono sdiff_subset
    cases hreq : mem.request with
    | none => exact ends_publicKeyOf fun key hkey => hpubl s key h he hkey
    | some r =>
      refine (h.syncVary hmd5 he hp mem r).bind ?_
      rintro ⟨t, indexed⟩ ht
      cases indexed with
      | false => exact Sound.mono ht sdiff_subset
      | true =>
        refine ends_publicKeyOf fun newkey hkey => ?_
        refine ends_ite (fun _ => ?_) fun _ => hpubl t newkey ht.1 ht.2 hkey
        -- the marker object leaves the requests alone, so the key is still the same
        refine (hadd mem newkey t hmem ht.1).bind ?_
        intro u hu
        refine hpubl u newkey hu.sound (hu.entry ht.2 hp) ?_
        rw [publicKeyOf_congr mem hu.requests, hkey]

lemma Sound.setPublicKeyWith (h : Sound cfg ∅ s) (he : s.entries e = some x) :
    Ends Allowed (Sound cfg ∅) (setPublicKeyWith cfg addVary e s) := by
  rw [Store.setPublicKeyWith, entryAt_eq he]
  refine ends_ite (fun _ => ends_ite (fun _ => ?_) fun _ => h) fun hpriv => ?_
  · have hear : Sound cfg ∅ (Store.setEntry e
        { x with flags := { x.flags with keyEarlyPublic := false } } s) :=
      h.setEntry he ⟨(h.good e x he).released, (h.good e x he).memObj⟩ rfl rfl
    refine (hear.storeSetPrivateKey hmd5 setEntry_self).bind ?_
    rintro t ⟨ht, y, hy, _, hyp, _⟩
    exact (ht.sound.mono sdiff_subset).makePublic hmd5 hadd hy fun _ => hyp
  · exact h.makePublic hmd5 hadd he fun hk => by_contra fun hp => hpriv ⟨hk, hp⟩

end

end SquidVideoCache.Store
