import SquidVideoCache.Store.NewEntry

/-!
# What the keyword list does to the store

For a URL that the keyword list has, a new entry is published at once, whoever asked for it.
-/

namespace SquidVideoCache.Store
open Lib Acsm StoreKey VideoReg Function Option

variable {Key : Type} [DecidableEq Key] {cfg : Config Key} {s : State Key}

/-! ## The query string -/

/-- The conversion stays in `query_str` and leaves it terminated for the `strlen` after it. -/
def SafeQuery (url : CString) : Prop :=
  ∃ buf, convertQuery url = .ok buf ∧ 0 ∈ buf ∧ strlen buf = .ok url.bytes.length

lemma safeQuery_iff (url : CString) : SafeQuery url ↔ url.bytes.length < maxLen := by
  refine ⟨?_, fun h => ⟨query url, convertQuery_ok h.le, nul_mem_query.mpr h, strlen_query h⟩⟩
  intro ⟨buf, hbuf, hnul, _⟩
  exact (convertQuery_safe_iff url).mp ⟨buf, hbuf, hnul⟩

lemma storeCreateEntry_long {url : CString} (h : maxLen ≤ url.bytes.length) (flags : RequestFlags)
    (method : Method) : storeCreateEntry cfg url flags method s = .error (.key .bounds) := by
  rcases Nat.lt_or_eq_of_le h with hgt | heq
  · rw [storeCreateEntry, convertQuery_fault hgt]
    rfl
  · rw [storeCreateEntry, convertQuery_ok heq.ge, liftKey, ok_bind, searchQuery_full _ heq.symm]
    rfl

/-- `storeKeyPublic` and `storeCreateEntry` convert every URL, `storeKeyPublicByRequestMethod` those
of at most `MAX_LEN` bytes; the conversion is safe below `MAX_LEN` bytes only. -/
theorem convertCaseEX_calls_safe_iff (url : CString) : (SafeQuery url ↔ url.bytes.length < maxLen) ∧
    ((url.bytes.length ≤ maxLen → SafeQuery url) ↔ url.bytes.length ≠ maxLen) ∧
    (maxLen ≤ url.bytes.length → ∀ (cfg : Config Key) (s : State Key) flags method,
      storeKeyPublic cfg.md5 cfg.acsmCap url method = .error .bounds ∧
      storeCreateEntry cfg url flags method s = .error (.key .bounds)) ∧
    (url.bytes.length = maxLen → ∀ (cfg : Config Key) (request : Request) method,
      request.storeUrl.getD request.canonical = url →
      storeKeyPublicByRequestMethod cfg.md5 cfg.acsmCap request method = .error .bounds) := by
  refine ⟨safeQuery_iff url, ⟨?_, ?_⟩, ?_, ?_⟩
  · intro h heq
    have hlt := (safeQuery_iff url).mp (h heq.le)
    omega
  · intro hne hle
    exact (safeQuery_iff url).mpr (by omega)
  · intro h cfg s flags method
    exact ⟨storeKeyPublic_long _ _ h method, storeCreateEntry_long h flags method⟩
  · intro heq cfg request method hurl
    rw [storeKeyPublicByRequestMethod, hurl, requestQuery, if_pos heq.le, convertQuery_ok heq.le, ok_bind,
      searchQuery_full _ heq]
    rfl

/-- URLs below `MAX_URL` that are too long for `query_str`. -/
theorem convertCaseEX_calls_unsafe : (longUrl 2048).bytes.length < 8192 ∧
    (longUrl 2049).bytes.length < 8192 ∧ ¬ SafeQuery (longUrl 2048) ∧ convertQuery (longUrl 2049) = .error .bounds := by
  refine ⟨?_, ?_, ?_, ?_⟩
  · rw [longUrl_length]
    decide
  · rw [longUrl_length]
    decide
  · rw [safeQuery_iff, longUrl_length]
    decide
  · apply convertQuery_fault
    rw [longUrl_length]
    decide

/-! ## Requests that must not be cached -/

/-- The entries of the table keep their keys, their bits and their expiry. -/
def OthersKept (s t : State Key) : Prop :=
  ∀ i ∈ s.table, i ∈ t.table ∧ ∃ x y, s.entries i = some x ∧ t.entries i = some y ∧
    y.key = x.key ∧ y.flags.keyPrivate = x.flags.keyPrivate ∧
    y.flags.releaseRequest = x.flags.releaseRequest ∧ y.expires = x.expires

section

omit [DecidableEq Key]

lemma Inv.entry_of_mem (h : Inv cfg s) {i : ℕ} (hi : i ∈ s.table) : ∃ x, s.entries i = some x := by
  obtain ⟨k, hk⟩ := isSome_iff_exists.mp ((h.mem_table i).mp hi)
  obtain ⟨x, hx, -⟩ := keyOf_eq_some.mp hk
  exact ⟨x, hx⟩

lemma othersKept_createdPrivate (h : Inv cfg s) (url : CString) (flags : RequestFlags) (method : Method) :
    OthersKept s (createdPrivate cfg url flags method s) := by
  intro i hi
  obtain ⟨x, hx⟩ := h.entry_of_mem hi
  have hne : i ≠ s.nextEntry := fun heq => h.nextEntry_notMem (heq ▸ hi)
  refine ⟨mem_table_createdPrivate h hi, x, x, hx, ?_, rfl, rfl, rfl, rfl⟩
  rw [createdPrivate_of_ne hne, hx]

end

/-- A request that must not be cached leaves the other entries alone exactly if its URL is no
keyword URL, or no entry has its public key. -/
theorem storeCreateEntry_othersKept_iff (h : Inv cfg s) (hmd5 : Injective cfg.md5)
    (hcount : s.keyCounter + 1 < 2 ^ 31) (hneighbors : cfg.neighborsDoPrivateKeys) (url : CString)
    (flags : RequestFlags) (hc : ¬ flags.cachable) (method : Method) (hm : method.toNat < 256) :
    (∃ e t, storeCreateEntry cfg url flags method s = .ok (e, t) ∧ OthersKept s t) ↔
      url.bytes.length < maxLen ∧ ∃ ret, searchQuery cfg.acsmCap.keywords (query url) = .ok ret ∧
        (ret < 100 ∨ ∃ key, storeKeyPublic cfg.md5 cfg.acsmCap url method = .ok key ∧ hashLookup key s = none) := by
  constructor
  · rintro ⟨e, t, hrun, hkept⟩
    by_cases hsea : url.bytes.length < maxLen ∧ ∃ ret, searchQuery cfg.acsmCap.keywords (query url) = .ok ret
    · obtain ⟨hlen, ret, hret⟩ := hsea
      refine ⟨hlen, ret, hret, ?_⟩
      rcases lt_or_ge ret 100 with hlow | hhigh
      · exact Or.inl hlow
      · cases hkey : storeKeyPublic cfg.md5 cfg.acsmCap url method with
        | error f =>
          rw [storeCreateEntry_eq hlen hret, setFirstKey, if_pos (by omega),
            setPublicKeyPlain_new allocated_self, hkey] at hrun
          cases hrun
        | ok key =>
          refine Or.inr ⟨key, rfl, ?_⟩
          cases hl : hashLookup key s with
          | none => rfl
          | some i =>
            -- the holder of the key was public and cannot be any more
            have hgone := (storeCreateEntry_taken h hlen hret hhigh hkey hl).ok_of_eq hrun
            obtain ⟨z, hz, -, hpub⟩ := h.public_of_hashLookup hmd5 (isPublicKey_storeKeyPublic hkey) hl
            obtain ⟨-, x, y, hx, hy, -, hp, -⟩ := hkept i (hashLookup_some hl).1
            cases hz.symm.trans hx
            exact absurd (hp ▸ hgone y hy) hpub
    · obtain ⟨f, hf⟩ := storeCreateEntry_fault flags method s hsea
      rw [hf] at hrun
      cases hrun
  · rintro ⟨hlen, ret, hret, hcond⟩
    refine ⟨s.nextEntry, _, ?_, othersKept_createdPrivate h url flags method⟩
    rcases lt_or_ge ret 100 with hlow | hhigh
    · exact storeCreateEntry_private h hmd5 hm hcount hlen hret hlow (Or.inl hneighbors)
    · obtain ⟨key, hkey, hl⟩ := hcond.resolve_left (by omega)
      exact storeCreateEntry_free h hmd5 hm hcount hlen hret hhigh hc hkey hl

/-- A configuration that digests bytes to themselves. -/
def plainConfig (acsmCap : AcsmCap) : Config (List UInt8) where
  md5 := id
  order := .little
  acsmCap := acsmCap
  neighborsDoPrivateKeys := true
  makeVaryMark := fun request _ => request
  swapOut := fun _ _ => .keep

/-- The video `b.flv` on disk, under the key of a GET request. -/
def cachedVideo : StoreEntry (List UInt8) where
  key := some (1 :: ascii ['b', '.', 'f', 'l', 'v'])
  memObj := none
  flags := { entryCachable := true, entryValidated := true }
  swapStatus := .done
  swapFilen := 0
  swapDirn := 0

def videoStore : State (List UInt8) where
  entries := update (fun _ => none) 0 (some cachedVideo)
  nextEntry := 1
  table := [0]
  requests := fun _ => plainRequest videoAB methodGet

lemma inv_videoStore (acsmCap : AcsmCap) : Inv (plainConfig acsmCap) videoStore := by
  have hpub : IsPublicKey (plainConfig acsmCap) (1 :: ascii ['b', '.', 'f', 'l', 'v']) :=
    ⟨⟨ascii ['b', '.', 'f', 'l', 'v'], by decide⟩, methodGet, plainRequest videoAB methodGet, rfl⟩
  refine .single rfl rfl rfl rfl hpub Bool.false_ne_true fun mem hmem => ?_
  cases hmem

theorem storeCreateEntry_othersKept_flatA : ∃ acsmCap : AcsmCap,
    ∃ e t, storeCreateEntry (plainConfig acsmCap) flatA {} methodGet videoStore = .ok (e, t) ∧
      OthersKept videoStore t := by
  obtain ⟨acsm, hacsm⟩ := exists_acsm_empty
  refine ⟨⟨acsm, acsm⟩, ?_⟩
  exact (storeCreateEntry_othersKept_iff (inv_videoStore _) injective_id (by decide) rfl flatA {}
    (by decide) _ (by decide)).mpr
      ⟨by decide, 0, hacsm flatA (by decide) (by decide), Or.inl (by decide)⟩

/-- A denied request for `/youku/a/b.flv` removes the video from the store. -/
theorem storeCreateEntry_removes_video : ∃ acsmCap : AcsmCap, Inv (plainConfig acsmCap) videoStore ∧
    videoStore.entries 0 = some cachedVideo ∧
    ∃ t, storeCreateEntry (plainConfig acsmCap) videoAB {} methodGet videoStore = .ok (1, t) ∧ t.entries 0 = none := by
  obtain ⟨acsmCap, hurl⟩ := exists_youkuUrl
  refine ⟨acsmCap, inv_videoStore _, rfl, ?_⟩
  have hkeyw : searchQuery (plainConfig acsmCap).acsmCap.keywords (query videoAB) = .ok 100 := hurl.keyword
  have hkey : storeKeyPublic (plainConfig acsmCap).md5 (plainConfig acsmCap).acsmCap videoAB methodGet =
      .ok (1 :: ascii ['b', '.', 'f', 'l', 'v']) :=
    storeKeyPublic_video id _ (hurl.hasVideoID _ (by decide)) _
  rw [storeCreateEntry_keyword (by decide) hkeyw le_rfl hkey]
  exact ⟨_, rfl, rfl⟩

/-! ## Excluded URLs -/

/-- The same configuration with another keyword list. -/
def withKeywords (cfg : Config Key) (keywords : AcsmStruct) : Config Key :=
  { cfg with acsmCap := { cfg.acsmCap with keywords } }

-- only the public keys read the lists; the rest of the store does not

lemma unlockLast_withKeywords (keywords : AcsmStruct) : unlockLast (withKeywords cfg keywords) = unlockLast cfg := rfl

lemma unlockFuel_withKeywords (keywords : AcsmStruct) (fuel : ℕ) :
    unlockFuel (withKeywords cfg keywords) fuel = unlockFuel cfg fuel := by
  induction fuel with
  | zero => rfl
  | succ fuel ih =>
    funext e s
    rw [unlockFuel, unlockFuel, ih, unlockLast_withKeywords]

lemma evict_withKeywords (keywords : AcsmStruct) : evict (withKeywords cfg keywords) = evict cfg := by
  funext key s
  unfold evict storeRelease
  simp only [unlockFuel_withKeywords]
  rfl

section

omit [DecidableEq Key]

lemma Inv.withKeywords (h : Inv cfg s) (keywords : AcsmStruct) : Inv (withKeywords cfg keywords) s :=
  ⟨h.allocated, h.mem_table, h.nodup, h.distinct, fun e x he =>
    ⟨(h.typed e x he).isPrivate, (h.typed e x he).isPublic, (h.typed e x he).method⟩⟩

lemma storeKeyPublic_excluded (cfg : Config Key) {url : CString} (hlen : url.bytes.length < maxLen) {excl : ℤ}
    (hexcl : searchQuery cfg.acsmCap.exclusions (query url) = .ok excl) (hran : 0 < excl ∧ excl < 100)
    (method : Method) : storeKeyPublic cfg.md5 cfg.acsmCap url method = .ok (cfg.md5 (publicPreimage url method)) := by
  rw [storeKeyPublic_short _ _ hlen, hexcl, ok_bind, substituteVideo, if_pos hran]
  rfl

end

lemma setPublicKeyPlain_withKeywords {url : CString} (hlen : url.bytes.length < maxLen) {excl : ℤ}
    (hexcl : searchQuery cfg.acsmCap.exclusions (query url) = .ok excl) (hran : 0 < excl ∧ excl < 100)
    (method : Method) (keywords : AcsmStruct) {e : ℕ} (he : s.entries e = some (newStoreEntry url method)) :
    setPublicKeyPlain (withKeywords cfg keywords) e s = setPublicKeyPlain cfg e s := by
  have hkey : liftKey (storeKeyPublic cfg.md5 cfg.acsmCap url method) =
      .ok (cfg.md5 (publicPreimage url method)) := by
    rw [storeKeyPublic_excluded cfg hlen hexcl hran]
    rfl
  have hkey' : liftKey (storeKeyPublic (withKeywords cfg keywords).md5 (withKeywords cfg keywords).acsmCap
      url method) = .ok (cfg.md5 (publicPreimage url method)) := by
    rw [storeKeyPublic_excluded (withKeywords cfg keywords) hlen hexcl hran]
    rfl
  have hpub : ∀ t, publicKeyOf cfg { method, url } t = .ok (cfg.md5 (publicPreimage url method)) :=
    fun _ => hkey
  have hpub' : ∀ t, publicKeyOf (withKeywords cfg keywords) { method, url } t =
      .ok (cfg.md5 (publicPreimage url method)) := fun _ => hkey'
  rw [setPublicKeyPlain_new he, setPublicKeyPlain_new he, hkey, hkey', ok_bind, ok_bind, publish, publish,
    evict_withKeywords]
  simp [hpub, hpub']

/-- What a caller sees of a new entry and of the table: the keys and which of them are private. -/
def tableView (r : Result (ℕ × State Key)) : Result (ℕ × List ℕ × (ℕ → Option (Option Key × Bool))) :=
  r.map fun (e, t) => (e, t.table, fun i => (t.entries i).map fun x => (x.key, x.flags.keyPrivate))

omit [DecidableEq Key] in
lemma tableView_ok {e e' : ℕ} {t t' : State Key} (h : tableView (.ok (e, t)) = tableView (.ok (e', t'))) (i : ℕ) :
    (t.entries i).map (fun x => (x.key, x.flags.keyPrivate)) =
      (t'.entries i).map fun x => (x.key, x.flags.keyPrivate) :=
  congrFun (Prod.mk.inj (Prod.mk.inj (Except.ok.inj h)).2).2 i

lemma storeCreateEntry_withKeywords {url : CString} {flags : RequestFlags} {method : Method}
    (hlen : url.bytes.length < maxLen) {excl : ℤ}
    (hexcl : searchQuery cfg.acsmCap.exclusions (query url) = .ok excl) (hran : 0 < excl ∧ excl < 100)
    {ret : ℤ} (hret : searchQuery cfg.acsmCap.keywords (query url) = .ok ret) {keywords : AcsmStruct}
    (hnone : searchQuery keywords (query url) = .ok 0) (hpub : ¬ (cfg.neighborsDoPrivateKeys ∨ ¬ flags.hierarchical)) :
    storeCreateEntry (withKeywords cfg keywords) url flags method s = storeCreateEntry cfg url flags method s := by
  have hfir : setFirstKey cfg flags ret s.nextEntry (allocated url method s) =
      setPublicKeyPlain cfg s.nextEntry (allocated url method s) := by
    unfold setFirstKey
    split_ifs
    · rfl
    · rfl
  have hfir' : setFirstKey (withKeywords cfg keywords) flags 0 s.nextEntry (allocated url method s) =
      setPublicKeyPlain (withKeywords cfg keywords) s.nextEntry (allocated url method s) := by
    exact if_neg hpub
  rw [storeCreateEntry_eq hlen hret, storeCreateEntry_eq hlen hnone, hfir, hfir',
    setPublicKeyPlain_withKeywords hlen hexcl hran method _ allocated_self]
  rfl

section

variable {url : CString} {flags : RequestFlags} {method : Method} {ret : ℤ}
  (hlen : url.bytes.length < maxLen) (hret : searchQuery cfg.acsmCap.keywords (query url) = .ok ret)
  (hhigh : 100 ≤ ret)
  (hview : tableView (storeCreateEntry cfg url flags method s) =
    tableView (.ok (s.nextEntry, createdPrivate cfg url flags method s)))

include hlen hret hhigh hview

lemma not_cachable_of_tableView : ¬ flags.cachable := by
  intro hc
  cases hrun : storeCreateEntry cfg url flags method s with
  | error f =>
    rw [hrun] at hview
    cases hview
  | ok r =>
    obtain ⟨-, y, hy, hpub⟩ := (storeCreateEntry_published hlen hret hhigh hc).ok_of_eq hrun
    obtain ⟨z, hz, hzp⟩ := createdPrivate_self cfg url flags method s
    rw [hrun] at hview
    have hsame := tableView_ok hview s.nextEntry
    rw [hy, hz] at hsame
    exact hpub ((Prod.mk.inj (some.inj hsame)).2.trans hzp)

lemma free_of_tableView (h : Inv cfg s) (hmd5 : Injective cfg.md5) {key : Key}
    (hkey : storeKeyPublic cfg.md5 cfg.acsmCap url method = .ok key) : hashLookup key s = none := by
  cases hl : hashLookup key s with
  | none => rfl
  | some i =>
    obtain ⟨x, hx, -, hpub⟩ := h.public_of_hashLookup hmd5 (isPublicKey_storeKeyPublic hkey) hl
    have hne : i ≠ s.nextEntry := fun he => h.nextEntry_notMem (he ▸ (hashLookup_some hl).1)
    cases hrun : storeCreateEntry cfg url flags method s with
    | error f =>
      rw [hrun] at hview
      cases hview
    | ok r =>
      have hgone := (storeCreateEntry_taken h hlen hret hhigh hkey hl).ok_of_eq hrun
      rw [hrun] at hview
      have hsame := tableView_ok hview i
      rw [createdPrivate_of_ne hne, hx, map_some, map_eq_some_iff] at hsame
      obtain ⟨y, hy, hyx⟩ := hsame
      exact absurd ((Prod.mk.inj hyx).2 ▸ hgone y hy) hpub

end

/-- An excluded URL is handled like a URL without a keyword exactly if it has no keyword, or the
entry would be published anyway, or it is released at once and no entry has its key. -/
theorem storeCreateEntry_excluded_iff (h : Inv cfg s) (hmd5 : Injective cfg.md5)
    (hcount : s.keyCounter + 1 < 2 ^ 31) (url : CString) (hlen : url.bytes.length < maxLen)
    (flags : RequestFlags) (method : Method) (hm : method.toNat < 256) (excl ret : ℤ)
    (hexcl : searchQuery cfg.acsmCap.exclusions (query url) = .ok excl) (hrange : 0 < excl ∧ excl < 100)
    (hret : searchQuery cfg.acsmCap.keywords (query url) = .ok ret) (keywords : AcsmStruct)
    (hnone : searchQuery keywords (query url) = .ok 0) : tableView (storeCreateEntry cfg url flags method s) =
        tableView (storeCreateEntry (withKeywords cfg keywords) url flags method s) ↔
      ret < 100 ∨ (¬ cfg.neighborsDoPrivateKeys ∧ flags.hierarchical) ∨
        (¬ flags.cachable ∧ hashLookup (cfg.md5 (publicPreimage url method)) s = none) := by
  have hkey := storeKeyPublic_excluded cfg hlen hexcl hrange method
  by_cases hpriv : cfg.neighborsDoPrivateKeys ∨ ¬ flags.hierarchical
  · have hpla : storeCreateEntry (withKeywords cfg keywords) url flags method s =
        .ok (s.nextEntry, createdPrivate cfg url flags method s) :=
      storeCreateEntry_private (h.withKeywords _) hmd5 hm hcount hlen hnone (by decide) hpriv
    have hnot : ¬ (¬ cfg.neighborsDoPrivateKeys ∧ flags.hierarchical) :=
      fun hn => hpriv.elim hn.1 fun hh => hh hn.2
    rw [hpla]
    rcases lt_or_ge ret 100 with hlow | hhigh
    · rw [storeCreateEntry_private h hmd5 hm hcount hlen hret hlow hpriv]
      exact ⟨fun _ => Or.inl hlow, fun _ => rfl⟩
    · refine ⟨fun hview => Or.inr (Or.inr ⟨?_, ?_⟩), ?_⟩
      · exact not_cachable_of_tableView hlen hret hhigh hview
      · exact free_of_tableView hlen hret hhigh hview h hmd5 hkey
      · intro hcond
        obtain ⟨hc, hl⟩ := (hcond.resolve_left (by omega)).resolve_left hnot
        rw [storeCreateEntry_free h hmd5 hm hcount hlen hret hhigh hc hkey hl]
  · have hcond : ¬ cfg.neighborsDoPrivateKeys ∧ flags.hierarchical :=
      ⟨fun hn => hpriv (Or.inl hn), by_contra fun hh => hpriv (Or.inr hh)⟩
    rw [storeCreateEntry_withKeywords hlen hexcl hrange hret hnone hpriv]
    exact ⟨fun _ => Or.inr (Or.inl hcond), fun _ => rfl⟩

theorem storeCreateEntry_excluded_videoAB : ∃ acsm acsm' : AcsmStruct,
    tableView (storeCreateEntry (plainConfig ⟨acsm, acsm'⟩) videoAB {} methodGet videoStore) =
      tableView (storeCreateEntry (withKeywords (plainConfig ⟨acsm, acsm'⟩) acsm) videoAB {} methodGet videoStore) := by
  obtain ⟨acsm, hnone⟩ := exists_acsm_empty
  obtain ⟨acsm', hexcl⟩ := exists_acsm (p := dotFlv) 1 (by decide) (by decide +kernel) (by decide)
  have hnone := hnone videoAB (by decide) (by decide)
  refine ⟨acsm, acsm', ?_⟩
  exact (storeCreateEntry_excluded_iff (inv_videoStore ⟨acsm, acsm'⟩) injective_id (by decide)
    _ (by decide) {} _ (by decide) 1 0 (hexcl _ (by decide) (by decide) (by decide))
    (by decide) hnone acsm hnone).mpr (Or.inl (by decide))

/-- `/youku/a/b.flv` with the keyword `/youku/` and the exclusion `.flv`: the entry is public. -/
theorem storeCreateEntry_excluded_public : ∃ keywords exclusions noKeywords : AcsmStruct,
    searchQuery keywords (query videoAB) = .ok 100 ∧ searchQuery exclusions (query videoAB) = .ok 1 ∧
    searchQuery noKeywords (query videoAB) = .ok 0 ∧
    ∃ t x t' x', storeCreateEntry (plainConfig ⟨keywords, exclusions⟩) videoAB { cachable := true }
        methodGet videoStore = .ok (1, t) ∧ t.entries 1 = some x ∧ ¬ x.flags.keyPrivate ∧
      storeCreateEntry (plainConfig ⟨noKeywords, exclusions⟩) videoAB { cachable := true } methodGet
        videoStore = .ok (1, t') ∧ t'.entries 1 = some x' ∧ x'.flags.keyPrivate := by
  obtain ⟨noKeywords, hnone⟩ := exists_acsm_empty
  obtain ⟨exclusions, hexcl⟩ := exists_acsm (p := dotFlv) 1 (by decide) (by decide +kernel) (by decide)
  obtain ⟨keywords, hkeyw⟩ := exists_acsm (p := youkuMark) 100 (by decide) (by decide +kernel) (by decide)
  have hnone := hnone videoAB (by decide) (by decide)
  have hexcl := hexcl videoAB (by decide) (by decide) (by decide)
  have hkeyw := hkeyw videoAB (by decide) (by decide) (by decide)
  have hkey := storeKeyPublic_excluded (plainConfig ⟨keywords, exclusions⟩) (by decide) hexcl (by decide)
    methodGet
  have hpriv : storeCreateEntry (plainConfig ⟨noKeywords, exclusions⟩) videoAB { cachable := true }
      methodGet videoStore = .ok (1, createdPrivate _ videoAB { cachable := true } methodGet videoStore) :=
    storeCreateEntry_private (inv_videoStore _) injective_id (by decide) (by decide) (by decide)
      hnone (by decide) (Or.inl rfl)
  obtain ⟨x', hx', hp'⟩ := createdPrivate_self _ _
    _ _ _
  refine ⟨keywords, exclusions, noKeywords, hkeyw, hexcl, hnone, ?_⟩
  have hfree : hashLookup (publicPreimage videoAB methodGet) videoStore = none := by decide
  rw [hpriv, storeCreateEntry_eq (by decide) hkeyw,
    setFirstKey_free (inv_videoStore _) (by decide) (by decide) hkey hfree]
  exact ⟨_, _, _, x', rfl, setEntry_self, Bool.false_ne_true, rfl, hx', hp'⟩

end SquidVideoCache.Store
