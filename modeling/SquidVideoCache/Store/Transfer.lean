import SquidVideoCache.Store.OneEntry
import SquidVideoCache.Store.Publish

/-!
# New entries and completed transfers in a sound store

`storeCreateEntry`, `storeComplete` and `storeAddVary` keep the store sound.
-/

namespace SquidVideoCache.Store
open Lib StoreKey VideoReg Function

variable {Key : Type} {cfg : Config Key} {s t u : State Key} {e : ℕ} {x y : StoreEntry Key}
  {X Y : Set ℕ}

/-- Entry `e` was `x`, has a key and is otherwise like `x`; nothing else has changed. -/
structure Updates (cfg : Config Key) (X : Set ℕ) (e : ℕ) (x : StoreEntry Key) (s t : State Key) :
    Prop where
  touches : Touches cfg X e s t
  entry : ∃ y, t.entries e = some y ∧ y.key.isSome ∧ Alike x y

lemma Updates.trans (h : Updates cfg X e x s t) (hy : t.entries e = some y) (h' : Updates cfg Y e y t u) :
    Updates cfg Y e x s u := by
  obtain ⟨y', hy', -, hxy⟩ := h.entry
  obtain ⟨z, hz, hzk, hyz⟩ := h'.entry
  cases hy.symm.trans hy'
  exact ⟨h.touches.trans h'.touches, z, hz, hzk, hxy.trans hyz⟩

section

variable (h : Sound cfg X s) (he : s.entries e = some x) (hk : x.key.isSome)

include h he hk

lemma Updates.start : Updates cfg X e x s s := ⟨Touches.refl h, x, he, hk, rfl, rfl⟩

lemma Sound.updates_set
    (hm : MemOk y.memObj) (hkey : y.key = x.key) (hf : y.flags = x.flags) (hxy : Alike x y) :
    Updates cfg X e x s (Store.setEntry e y s) :=
  ⟨h.touches_set he hm hkey hf, y, setEntry_self, by rw [hkey]; exact hk, hxy⟩

lemma Sound.modifyMem
    {f : MemObject → MemObject} (hf : ∀ mem, (f mem).method = mem.method ∧ (f mem).imsEntry = mem.imsEntry ∧
      (f mem).oldEntry = mem.oldEntry) (hreq : ∀ mem, (f mem).request = mem.request) :
    Ends Allowed (Updates cfg X e x s) (modifyMem e f s) := by
  rw [Store.modifyMem, entryAt_eq he]
  exact h.updates_set he hk ((h.good e x he).memObj.map hf) rfl rfl
    ⟨rfl, requestOf_map rfl hreq⟩

end

variable [DecidableEq Key] (hmd5 : Injective cfg.md5)

include hmd5

lemma Updates.bears : Bears cfg Allowed (Updates cfg X e x s) e := by
  refine ⟨trivial, trivial, ?_, ?_⟩
  · intro t y z ht he hyz hali
    obtain ⟨y', hy', hk, hxy⟩ := ht.entry
    cases he.symm.trans hy'
    exact ⟨ht.touches.recedes he hyz, z, setEntry_self, by rw [hyz.key]; exact hk, hxy.trans hali⟩
  · intro t ht
    obtain ⟨y, hy, -, hxy⟩ := ht.entry
    refine (ht.touches.sound.storeReleaseRequest hmd5 hy).mono ?_
    rintro u ⟨hu, z, hz, hzk, hyz⟩
    exact ⟨ht.touches.trans (hu.mono Set.sdiff_subset), z, hz, hzk, hxy.trans hyz⟩

lemma Updates.starts : Starts cfg Allowed (Updates cfg X e x s) e := by
  intro t filen dirn ht _
  refine ((Updates.bears hmd5).storeLockObject ht).bind fun u hu => ?_
  obtain ⟨y, hy, hk, -⟩ := hu.entry
  rw [entryAt_eq hy]
  have hm := (hu.touches.sound.good e y hy).memObj.map (f := fun mem => { mem with sio := y.storeStatus == .pending })
    fun _ => ⟨rfl, rfl, rfl⟩
  exact hu.trans hy (hu.touches.sound.updates_set hy hk hm rfl rfl ⟨rfl, requestOf_map rfl fun _ => rfl⟩)

lemma Sound.storeComplete (h : Sound cfg X s) (he : s.entries e = some x) (hk : x.key.isSome) :
    Ends Allowed (Updates cfg X e { x with storeStatus := .ok } s) (storeComplete cfg e s) := by
  refine (Updates.bears hmd5).storeComplete (Updates.starts hmd5) (fun y hy hne => ?_) fun y mem hy hm => ?_
  · cases he.symm.trans hy
    refine ⟨Touches.refl h, x, he, hk, ?_, rfl⟩
    cases hs : x.storeStatus with
    | ok => rfl
    | pending => exact absurd hs hne
  · cases he.symm.trans hy
    obtain ⟨hmet, hims, hold⟩ := (h.good e x he).memObj mem hm
    refine ⟨⟨h.touches_set he ?_ rfl rfl, _, setEntry_self, hk, rfl, ?_⟩, fun o ho => by cases hold.symm.trans ho⟩
    · rintro mem' ⟨⟩
      exact ⟨hmet, hims, hold⟩
    · rw [hm]
      rfl

/-! ## storeCreateEntry -/

section

omit [DecidableEq Key] hmd5

lemma ends_liftKey {α β : Type} {Q : β → Prop} {r : Exec α} {f : α → Result β}
    (h : ∀ a, Ends Allowed Q (f a)) : Ends Allowed Q (liftKey r >>= f) := by
  cases r with
  | error f => trivial
  | ok a => exact h a

lemma Sound.allocated (h : Sound cfg ∅ s) (url : CString) {method : Method} (hm : method.toNat < 256) :
    Sound cfg {s.nextEntry} (allocated url method s) := by
  refine h.update (h.inv.allocateNew url hm) rfl rfl ?_ ?_ fun i _ hi => absurd hi (Set.notMem_empty i)
  · intro y hy
    cases hy
    refine .of_not_released Bool.false_ne_true ?_
    intro mem hmem
    cases hmem
    exact ⟨hm, rfl, rfl⟩
  · intro y _ hne
    exact absurd rfl hne

end

section

variable (h : Sound cfg X s) (he : s.entries e = some x)

include h he

lemma Sound.startPending (hk : x.key.isSome) :
    Ends Allowed (Updates cfg X e { x with storeStatus := .pending } s) (startPending e s) := by
  have hpend : Updates cfg X e { x with storeStatus := .pending } s (Store.setEntry e { x with storeStatus := .pending } s) :=
    ⟨h.touches_set he (h.good e x he).memObj rfl rfl, _, setEntry_self, hk, rfl, rfl⟩
  rw [Store.startPending, entryAt_eq he]
  refine ((Updates.bears hmd5).storeSetMemStatus _ hpend).bind fun t ht => ?_
  obtain ⟨y, hy, hyk, hxy⟩ := ht.entry
  have hgood := ht.touches.sound.good e y hy
  rw [entryAt_eq hy]
  exact ⟨ht.touches.trans ⟨ht.touches.sound.setEntry hy ⟨hgood.released, hgood.memObj⟩ rfl rfl,
    fun i hi => update_of_ne hi .., rfl⟩, _, setEntry_self, hyk, hxy.storeStatus, hxy.request⟩

lemma Sound.setCachable (hk : x.key.isSome)
    (flags : RequestFlags) : Ends Allowed (Updates cfg X e x s) (setCachable cfg flags e s) := by
  have hb : Bears cfg Allowed (Updates cfg X e x s) e := Updates.bears hmd5
  rw [Store.setCachable, entryAt_eq he]
  refine ends_ite (fun _ => ?_) fun _ => ?_
  · exact ⟨⟨h.setEntry he (.of_not_released Bool.false_ne_true (h.good e x he).memObj) rfl rfl,
      fun i hi => update_of_ne hi .., rfl⟩, _, setEntry_self, hk, rfl, rfl⟩
  · have hcle := hb.clearCachable (.start h he hk)
    rw [Store.clearCachable, entryAt_eq he] at hcle
    exact hb.releaseRequest hcle

lemma Sound.setFirstKey (hreq : requestOf x = none)
    (flags : RequestFlags) (ret : ℤ) : Ends Allowed (fun t => Keeps cfg (X \ {e}) {e} s t ∧
      ∃ y, t.entries e = some y ∧ y.key.isSome ∧ Alike x y) (setFirstKey cfg flags ret e s) := by
  refine ends_ite (fun _ => h.setPublicKeyPlain hmd5 he hreq) fun _ =>
    ends_ite (fun _ => ?_) fun _ => h.setPublicKeyPlain hmd5 he hreq
  refine (h.storeSetPrivateKey hmd5 he).mono ?_
  intro t ⟨ht, y, hy, hyk, _, hxy⟩
  exact ⟨ht.keeps, y, hy, hyk, hxy⟩

end

lemma Sound.storeCreateEntry (h : Sound cfg ∅ s) (url : CString) (flags : RequestFlags)
    {method : Method} (hm : method.toNat < 256) : Ends Allowed (fun r => r.1 = s.nextEntry ∧ Keeps cfg ∅ ∅ s r.2 ∧
      ∃ y, r.2.entries r.1 = some y ∧ y.key.isSome ∧ requestOf y = none) (storeCreateEntry cfg url flags method s) := by
  have hnew : ¬ Hidden s s.nextEntry := not_hidden_of_none (h.inv.allocated _ le_rfl)
  have hall : Keeps cfg {s.nextEntry} {s.nextEntry} s (Store.allocated url method s) :=
    Touches.keeps ⟨h.allocated url hm, fun i hi => update_of_ne hi .., rfl⟩
  refine ends_liftKey fun queryStr => ends_liftKey fun ret => ?_
  refine (hall.sound.setFirstKey hmd5 allocated_self rfl flags ret).bind ?_
  rintro t ⟨ht, y, hy, hyk, hxy⟩
  have hst : Keeps cfg ∅ {s.nextEntry} s t := hall.trans (ht.mono (by simp))
  refine (hst.sound.setCachable hmd5 hy hyk flags).bind ?_
  intro u hu
  obtain ⟨z, hz, hzk, hyz⟩ := hu.entry
  refine (hu.touches.sound.startPending hmd5 hz hzk).bind fun v hv => ?_
  obtain ⟨w, hw, hwk, hzw⟩ := hv.entry
  exact ⟨rfl, ((hst.trans hu.touches.keeps).trans hv.touches.keeps).of_not_hidden hnew, w, hw, hwk,
    hzw.request.trans (hyz.request.trans hxy.request)⟩

/-! ## storeAddVary -/

omit [DecidableEq Key] hmd5 in
lemma Sound.createMemObject (h : Sound cfg X s) (he : s.entries e = some x) (url : CString)
    {method : Method} (hm : method.toNat < 256) :
    Ends Allowed (Touches cfg X e s) (createMemObject e url method s) := by
  rw [Store.createMemObject, entryAt_eq he, ok_bind]
  refine ends_ite (fun _ => Touches.refl h) fun _ => h.touches_set he ?_ rfl rfl
  intro mem hmem
  cases hmem
  exact ⟨hm, rfl, rfl⟩

/-- The marker is complete when its only lock goes. -/
theorem Sound.finishMarker (h : Sound cfg X s) (he : s.entries e = some x) (hk : x.key.isSome) :
    Ends Allowed (Touches cfg X e s) (finishMarker cfg e s) := by
  refine ((Updates.bears hmd5).storeTimestampsSet (.start h he hk)).bind fun t ht => ?_
  obtain ⟨y, hy, hyk, -⟩ := ht.entry
  refine (ht.touches.sound.storeComplete hmd5 hy hyk).bind fun u hu => ?_
  refine ((Updates.bears hmd5).storeTimestampsSet hu).bind fun v hv => ?_
  refine ((Updates.bears hmd5).storeSwapOut (Updates.starts hmd5) hv).bind fun w hw => ?_
  obtain ⟨z, hz, hzk, hyz⟩ := hw.entry
  refine (hw.touches.sound.storeUnlockObject hmd5 hz hzk fun _ hpend => ?_).mono fun _ =>
    (ht.touches.trans hw.touches).trans
  cases hyz.storeStatus.symm.trans hpend

lemma Sound.registerFound (h : Sound cfg ∅ s) {mem : MemObject} (hm : mem.method.toNat < 256) (o e : ℕ) :
    Ends Allowed (Touches cfg ∅ o s) (finishAddVary cfg mem (some o) e s) := by
  cases ho : s.entries o with
  | none =>
    rw [finishAddVary, Store.createMemObject, entryAt, ho]
    trivial
  | some x =>
    refine (h.createMemObject ho _ hm).bind fun t ht => ?_
    cases hot : t.entries o with
    | none =>
      rw [storeClientRegister, entryAt, hot]
      trivial
    | some y =>
      have hk := ht.sound.keyed o y hot (Set.notMem_empty o)
      exact ((Updates.bears hmd5).storeClientRegister (.start ht.sound hot hk)).mono fun u hu => ht.trans hu.touches

lemma storeAddVary_ok : AddVaryOk cfg (storeAddVary cfg) := by
  intro mem key s hmem h
  have hmet := (hmem mem rfl).1
  refine (storeGetPublic_ends _ _ s).bind ?_
  intro found hfou
  have hlock : Ends Allowed (Keeps cfg ∅ ∅ s) (lockFound found s) := by
    cases found with
    | none => exact Keeps.refl h
    | some o =>
      obtain ⟨key', hkey, hl⟩ := hfou o rfl
      obtain ⟨x, hx, hk, hnot⟩ := h.inv.found_public hmd5 hkey hl
      exact ((Updates.bears hmd5).storeLockObject (.start h hx hk)).mono fun t ht => ht.touches.keeps.of_not_hidden hnot
  refine hlock.bind ?_
  intro t hst
  refine (hst.sound.storeCreateEntry hmd5 _ _ hmet).bind ?_
  intro ⟨e, u⟩ ⟨hnext, htu, y, hy, hyk, hreq⟩
  have hnew : ¬ Hidden t e := by
    rw [show e = t.nextEntry from hnext]
    exact not_hidden_of_none (hst.sound.inv.allocated _ le_rfl)
  have hmark := htu.sound.modifyMem hy hyk (f := markerObject mem.storeUrl mem.reply.vary u.curtime)
    (fun _ => ⟨rfl, rfl, rfl⟩) fun _ => rfl
  refine hmark.bind ?_
  intro v hv
  obtain ⟨z, hz, -, hyz⟩ := hv.entry
  refine (hv.touches.sound.setPublicKeyPlain hmd5 hz (hyz.request.trans hreq)).bind ?_
  intro w ⟨hw, z', hz', hzk', _⟩
  have htw : Keeps cfg ∅ {e} t w := (htu.exempt.trans hv.touches.keeps).trans (hw.mono Set.sdiff_subset)
  cases found with
  | none =>
    refine (htw.sound.finishMarker hmd5 hz' hzk').mono fun u' hu' => ?_
    exact hst.trans ((htw.trans hu'.keeps).of_not_hidden hnew)
  | some o =>
    obtain ⟨key', hkey, hl⟩ := hfou o rfl
    obtain ⟨-, -, -, hnot⟩ := h.inv.found_public hmd5 hkey hl
    have hsw : Keeps cfg ∅ {o} s w := (hst.trans (htw.of_not_hidden hnew)).exempt
    exact (hsw.sound.registerFound hmd5 hmet o e).mono fun u' hu' => (hsw.trans hu'.keeps).of_not_hidden hnot

lemma Sound.storeSetPublicKey (h : Sound cfg ∅ s) (he : s.entries e = some x) :
    Ends Allowed (Sound cfg ∅) (storeSetPublicKey cfg e s) :=
  h.setPublicKeyWith hmd5 (storeAddVary_ok hmd5) he

end SquidVideoCache.Store
