import SquidVideoCache.Dns.Model

/-!
# Whose answers a lookup receives

A lookup joins the query that is pending under its name, and the query may leave that name when it
goes on along its own search path.
-/

namespace SquidVideoCache.Dns
open Lib List Option

variable {R : Type} {cfg : Config} {es : List (Event R)} {s s' : State R} {p : ℕ} {q q' : Query} {m : Message R}
  {name : List UInt8} {random : UInt16} {before : UInt8} {data : ℕ} {d : Delivery R}

/-- The names that a lookup searches: the name itself, and the name in each domain unless it ends in a dot. -/
def searchNames (cfg : Config) (name : List UInt8) : List (List UInt8) :=
  name :: if cfg.resDefnames && name.getLast? ≠ some dot then cfg.searchpath.map (extend name) else []

lemma mem_searchNames_self (cfg : Config) (name : List UInt8) : name ∈ searchNames cfg name := mem_cons_self

lemma extend_mem_searchNames {domain : List UInt8} (hdef : cfg.resDefnames) (hlast : name.getLast? ≠ some dot)
    (h : domain ∈ cfg.searchpath) : extend name domain ∈ searchNames cfg name := by
  unfold searchNames
  rw [if_pos (by simp [hdef, hlast])]
  exact mem_cons_of_mem _ (mem_map_of_mem h)

def Message.AnswersTo (m : Message R) (name : List UInt8) : Prop :=
  m.query.qtype = typeA ∧ m.query.qclass = classIn ∧ (trimRoot m.query.name).map tolower = (trimRoot name).map tolower

/-! ## Names up to the case of their letters -/

lemma tolower_eq_dot (c : UInt8) : tolower c = dot ↔ c = dot :=
  forall_byte (P := fun c => tolower c = dot ↔ c = dot) (by decide +kernel) c

lemma map_tolower_trimRoot (name : List UInt8) : (trimRoot name).map tolower = trimRoot (name.map tolower) := by
  induction name using List.reverseRecOn with
  | nil => rfl
  | append_singleton name c ih =>
    unfold trimRoot at ih ⊢
    rw [map_append, map_singleton]
    by_cases hc : c = dot
    · rw [rdropWhile_concat_pos _ _ _ (by simp [hc]), rdropWhile_concat_pos _ _ _ (by simp [tolower_eq_dot, hc]), ih]
    · rw [rdropWhile_concat_neg _ _ _ (by simp [hc]), rdropWhile_concat_neg _ _ _ (by simp [tolower_eq_dot, hc]),
        map_append, map_singleton]

lemma answersTo_of_compare (h : rfc1035QueryCompare ⟨typeA, classIn, name⟩ m.query = true) : m.AnswersTo name := by
  simp only [rfc1035QueryCompare, Bool.and_eq_true, decide_eq_true_eq] at h
  obtain ⟨⟨htype, hcla⟩, hname⟩ := h
  refine ⟨htype.symm, hcla.symm, ?_⟩
  split_ifs at hname with hlen
  · have hmap := of_decide_eq_true hname
    rw [map_tolower_trimRoot, map_tolower_trimRoot, hmap]
  · exact (of_decide_eq_true hname).symm

/-! ## The condition on the steps -/

/-- A lookup that starts a query asks for a name that fits into the question. A query that goes on along its search
path takes a name that fits and that every lookup waiting on it searches as well. -/
def aligned (cfg : Config) (s : State R) : Event R → Bool
  | .lookup name before _ _ => (cachedQuery s name).isSome || (firstName cfg before name).length < maxHostnameSize
  | .reply m _ =>
    match addressed s m with
    | some (_, q) =>
      match q.answered cfg m with
      | .search q' => q'.name.length < maxHostnameSize && q.queue.all fun w => q'.name ∈ searchNames cfg w.asked
      | _ => true
    | none => true
  | _ => true

/-! ## Queries that their lookups search for -/

/-- A query asks for its name, and each lookup that waits on it searches that name. -/
structure Query.Sound (cfg : Config) (q : Query) : Prop where
  question : q.query = ⟨typeA, classIn, q.name⟩
  asked : q.lookup.asked = q.orig
  searches : q.doSearchpath → cfg.resDefnames ∧ q.orig.getLast? ≠ some dot
  own : q.name ∈ searchNames cfg q.orig
  waiting : ∀ w ∈ q.queue, q.name ∈ searchNames cfg w.asked

lemma buildAQuery_eq (h : name.length < maxHostnameSize) : rfc1035BuildAQuery name = ⟨typeA, classIn, name⟩ := by
  unfold rfc1035BuildAQuery
  rw [take_of_length_le (by omega)]

lemma getLast?_ne_of_doesSearch (h : doesSearch cfg before name) : cfg.resDefnames ∧ name.getLast? ≠ some dot := by
  simp only [doesSearch, Bool.and_eq_true, decide_eq_true_eq] at h
  refine ⟨h.1.1, fun hlast => h.2 ?_⟩
  rw [getLastD_eq_getLast?, hlast, getD_some]

lemma firstName_mem (cfg : Config) (before : UInt8) (name : List UInt8) :
    firstName cfg before name ∈ searchNames cfg name := by
  cases hpath : cfg.searchpath with
  | nil =>
    simp only [firstName, hpath]
    exact mem_searchNames_self cfg name
  | cons domain path =>
    simp only [firstName, hpath]
    split_ifs with h
    · rw [Bool.and_eq_true] at h
      obtain ⟨hdef, hlast⟩ := getLast?_ne_of_doesSearch h.1
      exact extend_mem_searchNames hdef hlast (by simp [hpath])
    · exact mem_searchNames_self cfg name

lemma newQuery_sound (h : (firstName cfg before name).length < maxHostnameSize) :
    (newQuery cfg s name before random data).Sound cfg where
  question := buildAQuery_eq h
  asked := rfl
  searches := getLast?_ne_of_doesSearch
  own := firstName_mem cfg before name
  waiting := fun _ hw => absurd hw not_mem_nil

lemma Query.Sound.nextName_mem (h : q.Sound cfg) (hsea : q.doSearchpath) :
    q.nextName cfg ∈ searchNames cfg q.orig := by
  unfold Query.nextName
  cases hdom : cfg.searchpath[q.domain.toNat]? with
  | none => exact mem_searchNames_self cfg q.orig
  | some domain =>
    obtain ⟨hdef, hlast⟩ := h.searches hsea
    exact extend_mem_searchNames hdef hlast (mem_of_getElem? hdom)

lemma Query.Sound.setError (h : q.Sound cfg) (m : Message R) : (q.setError m).Sound cfg := by
  unfold Query.setError
  split_ifs
  · exact ⟨h.question, h.asked, h.searches, h.own, h.waiting⟩
  · exact ⟨h.question, h.asked, h.searches, h.own, h.waiting⟩

@[simp] lemma setError_name (q : Query) (m : Message R) : (q.setError m).name = q.name := by
  unfold Query.setError
  split_ifs
  · rfl
  · rfl

@[simp] lemma setError_queue (q : Query) (m : Message R) : (q.setError m).queue = q.queue := by
  unfold Query.setError
  split_ifs
  · rfl
  · rfl

@[simp] lemma setError_doSearchpath (q : Query) (m : Message R) : (q.setError m).doSearchpath = q.doSearchpath := by
  unfold Query.setError
  split_ifs
  · rfl
  · rfl

/-- What a reply makes of a query that is sound: only the search path changes its name. -/
theorem Query.Sound.answered (h : q.Sound cfg) (m : Message R) : match q.answered cfg m with
    | .retryTcp => True
    | .resend q' => q'.Sound cfg ∧ q'.name = q.name
    | .search q' => q'.name ∈ searchNames cfg q'.orig ∧ q'.lookup.asked = q'.orig ∧ q'.queue = q.queue ∧
        (q'.doSearchpath → cfg.resDefnames ∧ q'.orig.getLast? ≠ some dot)
    | .callback q' => q'.Sound cfg ∧ q'.name = q.name := by
  have he := h.setError m
  unfold Query.answered
  split_ifs with htc hser hatt hname
  · trivial
  · exact ⟨⟨he.question, he.asked, he.searches, he.own, he.waiting⟩, setError_name q m⟩
  · exact ⟨⟨he.question, he.asked, he.searches, he.own, he.waiting⟩, setError_name q m⟩
  · simp only [Bool.and_eq_true] at hname
    exact ⟨he.nextName_mem (by simp [hname]), he.asked, setError_queue q m, he.searches⟩
  · exact ⟨he, setError_name q m⟩

/-! ## The invariant -/

/-- The records of a reply that came in and that answers a name. -/
def Answered (es : List (Event R)) (answers : List R) (name : List UInt8) : Prop :=
  ∃ m random, Event.reply m random ∈ es ∧ answers = m.records ∧ m.AnswersTo name

structure Inv (cfg : Config) (es : List (Event R)) (s : State R) : Prop where
  sound : ∀ p q, s.queries p = some q → q.Sound cfg
  fresh : ∀ p, s.next ≤ p → s.queries p = none
  delivered : ∀ d, s.delivery = some d →
    ∃ q, s.queries d.query = some q ∧ (d.answers ≠ [] → Answered es d.answers q.name)
  called : ∀ c ∈ s.called, c.answers ≠ [] → ∃ name ∈ searchNames cfg c.lookup.asked, Answered es c.answers name

lemma Inv.init : Inv cfg [] (State.init : State R) where
  sound := fun _ _ h => nomatch h
  fresh := fun _ _ => rfl
  delivered := fun _ h => nomatch h
  called := fun _ h => absurd h not_mem_nil

lemma Answered.mono {answers : List R} (e : Event R) (h : Answered es answers name) : Answered (es ++ [e]) answers name := by
  obtain ⟨m, random, hmem, heq, hans⟩ := h
  exact ⟨m, random, mem_append_left _ hmem, heq, hans⟩

lemma Inv.mono (h : Inv cfg es s) (e : Event R) : Inv cfg (es ++ [e]) s where
  sound := h.sound
  fresh := h.fresh
  delivered := by
    intro d hd
    obtain ⟨q, hq, hans⟩ := h.delivered d hd
    exact ⟨q, hq, fun hne => (hans hne).mono e⟩
  called := by
    intro c hc hne
    obtain ⟨name, hmem, hans⟩ := h.called c hc hne
    exact ⟨name, hmem, hans.mono e⟩

lemma Inv.put {r : Query} (h : Inv cfg es s) (hq : s.queries p = some q) (hr : r.Sound cfg)
    (hname : ∀ d, s.delivery = some d → r.name = q.name) : Inv cfg es (s.put p r) where
  sound := by
    intro p' q₀ hr
    by_cases hp : p' = p
    · subst hp
      rw [put_self, some.injEq] at hr
      rwa [← hr]
    · rw [put_of_ne s r hp] at hr
      exact h.sound p' q₀ hr
  fresh := by
    intro p' hp'
    have hne : p' ≠ p := by
      rintro rfl
      rw [h.fresh p' hp'] at hq
      cases hq
    rw [put_of_ne s r hne]
    exact h.fresh p' hp'
  delivered := by
    intro d hd
    obtain ⟨q₀, hr, hans⟩ := h.delivered d hd
    by_cases hp : d.query = p
    · subst hp
      rw [hq, some.injEq] at hr
      refine ⟨r, put_self s _ r, ?_⟩
      rwa [hname d hd, hr]
    · exact ⟨q₀, by rw [put_of_ne s r hp, hr], hans⟩
  called := h.called

lemma Inv.alloc (h : Inv cfg es s) (hq : q.Sound cfg) (hash : List ℕ) :
    Inv cfg es { s.put s.next q with next := s.next + 1, lookupHash := hash } where
  sound := by
    intro p r hr
    by_cases hp : p = s.next
    · subst hp
      rw [put_self, some.injEq] at hr
      rwa [← hr]
    · exact h.sound p r ((put_of_ne s q hp).symm.trans hr)
  fresh := by
    intro p hp
    have hp : s.next + 1 ≤ p := hp
    exact (put_of_ne s q (by omega)).trans (h.fresh p (by omega))
  delivered := by
    intro d hd
    obtain ⟨r, hr, hans⟩ := h.delivered d hd
    have hne : d.query ≠ s.next := by
      intro heq
      rw [heq, h.fresh s.next le_rfl] at hr
      cases hr
    exact ⟨r, (put_of_ne s q hne).trans hr, hans⟩
  called := h.called

lemma Inv.relink (h : Inv cfg es s) (lru hash : List ℕ) : Inv cfg es { s with lruList := lru, lookupHash := hash } :=
  ⟨h.sound, h.fresh, h.delivered, h.called⟩

lemma Inv.deliver (h : Inv cfg es s) (hq : s.queries d.query = some q)
    (hans : d.answers ≠ [] → Answered es d.answers q.name) : Inv cfg es { s with delivery := some d } where
  sound := h.sound
  fresh := h.fresh
  delivered := by
    intro d' hd'
    rw [some.injEq] at hd'
    subst hd'
    exact ⟨q, hq, hans⟩
  called := h.called

/-! ## The steps -/

lemma find_eq_some {ps : List ℕ} {test : Query → Bool} (h : s.find ps test = some (p, q)) :
    s.queries p = some q ∧ test q = true := by
  obtain ⟨p', _, hp'⟩ := exists_of_findSome?_eq_some h
  obtain ⟨r, hr, htest⟩ := bind_eq_some_iff.mp hp'
  split_ifs at htest with ht
  cases htest
  exact ⟨hr, ht⟩

lemma get_eq_ok (h : s.get p = .ok q) : s.queries p = some q := by
  unfold State.get at h
  cases hq : s.queries p with
  | none => simp [hq] at h
  | some r =>
    rw [hq] at h
    cases h
    rfl

lemma addressed_eq_some (h : addressed s m = some (p, q)) :
    s.queries p = some q ∧ rfc1035QueryCompare q.query m.query = true := by
  unfold addressed at h
  cases hfind : idnsFindQuery s m.id with
  | none => simp [hfind] at h
  | some found =>
    obtain ⟨p', r⟩ := found
    rw [hfind] at h
    simp only [ite_none_right_eq_some] at h
    obtain ⟨hcom, rfl, rfl⟩ := h
    exact ⟨(find_eq_some hfind).1, hcom⟩

section

variable (h : Inv cfg es s)

include h

lemma Inv.sendQuery (hstep : idnsSendQuery cfg s p = .ok s') : Inv cfg es s' := by
  unfold idnsSendQuery at hstep
  split_ifs at hstep
  · simp only [bind_eq_ok] at hstep
    obtain ⟨_, _, _, _, q, hq, heq⟩ := hstep
    cases heq
    have hsou := h.sound p q (get_eq_ok hq)
    have hput := h.put (r := { q with tcp := false }) (get_eq_ok hq)
      ⟨hsou.question, hsou.asked, hsou.searches, hsou.own, hsou.waiting⟩ fun _ _ => rfl
    exact hput.relink _ _
  · cases hstep
    exact h

lemma Inv.lookup (hc : aligned cfg s (.lookup name before random data))
    (hstep : idnsALookup cfg s name before random data = .ok s') : Inv cfg es s' := by
  unfold idnsALookup at hstep
  cases hcac : cachedQuery s name with
  | some found =>
    obtain ⟨p, q⟩ := found
    rw [hcac] at hstep
    cases hstep
    obtain ⟨hq, hkey⟩ := find_eq_some hcac
    have hsou := h.sound p q hq
    have hname : q.name = name := by
      have hkey := of_decide_eq_true hkey
      rwa [hsou.question] at hkey
    refine h.put hq ⟨hsou.question, hsou.asked, hsou.searches, hsou.own, ?_⟩ fun _ _ => rfl
    intro w hw
    rcases mem_cons.mp hw with rfl | hw
    · rw [hname]
      exact mem_searchNames_self cfg name
    · exact hsou.waiting w hw
  | none =>
    rw [hcac] at hstep
    simp only [bind_eq_ok] at hstep
    obtain ⟨_, _, _, _, hsend⟩ := hstep
    have hlen : (firstName cfg before name).length < maxHostnameSize := by simpa [aligned, hcac] using hc
    exact (h.alloc (newQuery_sound hlen) _).sendQuery hsend

lemma Inv.reply (hdel : s.delivery = none) (hc : aligned cfg s (.reply m random))
    (hmem : Event.reply m random ∈ es) (hstep : idnsGrokReply cfg s m random = .ok s') : Inv cfg es s' := by
  unfold idnsGrokReply at hstep
  cases haddr : addressed s m with
  | none =>
    rw [haddr] at hstep
    cases hstep
    exact h
  | some found =>
    obtain ⟨p, q⟩ := found
    obtain ⟨hq, hcom⟩ := addressed_eq_some haddr
    have hsou := h.sound p q hq
    have hnone : ∀ q' : Query, ∀ d, s.delivery = some d → q'.name = q.name := by
      intro q' d hd
      rw [hdel] at hd
      cases hd
    have hunl : Inv cfg es (s.unlink p) := h.relink _ _
    have hout := hsou.answered m
    simp only [haddr] at hstep
    cases hans : q.answered cfg m with
    | retryTcp =>
      rw [hans] at hstep
      cases hstep
      have hput := h.put (r := { q with tcp := true }) hq
        ⟨hsou.question, hsou.asked, hsou.searches, hsou.own, hsou.waiting⟩ (hnone _)
      exact hput.relink _ _
    | resend q' =>
      rw [hans] at hstep hout
      have hq' := hout.1
      exact (hunl.put (r := { q' with id := idnsQueryID _ random }) hq
        ⟨hq'.question, hq'.asked, hq'.searches, hq'.own, hq'.waiting⟩ (hnone _)).sendQuery hstep
    | search q' =>
      rw [hans] at hstep hout
      obtain ⟨hown, hask, hque, hsea⟩ := hout
      have hfits : q'.name.length < maxHostnameSize ∧ ∀ w ∈ q.queue, q'.name ∈ searchNames cfg w.asked := by
        simpa [aligned, haddr, hans] using hc
      simp only [sendSearched, bind_eq_ok] at hstep
      obtain ⟨_, _, hsend⟩ := hstep
      have hput := hunl.put
        (r := { q' with id := idnsQueryID (s.unlink p) random, query := rfc1035BuildAQuery _ }) hq
        ⟨buildAQuery_eq hfits.1, hask, hsea, hown, by simpa [hque] using hfits.2⟩ (hnone _)
      exact (hput.relink _ _).sendQuery hsend
    | callback q' =>
      rw [hans] at hstep hout
      cases hstep
      have hput := hunl.put hq hout.1 (hnone _)
      refine hput.deliver (put_self _ p q') fun _ => ⟨m, random, hmem, rfl, ?_⟩
      rw [hsou.question] at hcom
      rw [hout.2]
      exact answersTo_of_compare hcom

lemma Inv.check {timer : Timer} (hstep : idnsCheckQuery cfg s p timer = .ok s') : Inv cfg es s' := by
  have hunl : Inv cfg es (s.unlink p) := h.relink _ _
  cases timer with
  | waiting =>
    cases hstep
    exact h.relink _ _
  | retransmit => exact hunl.sendQuery hstep
  | expired =>
    simp only [idnsCheckQuery, bind_eq_ok] at hstep
    obtain ⟨q, hq, heq⟩ := hstep
    cases heq
    have hq := get_eq_ok hq
    split_ifs
    · exact hunl.deliver hq fun hne => absurd rfl hne
    · exact hunl.deliver hq fun hne => absurd rfl hne

lemma Inv.log {w : Lookup} (hq : s.queries d.query = some q)
    (hd : s.delivery = some d) (hw : q.name ∈ searchNames cfg w.asked) (valid : Bool) :
    ∀ c ∈ d.log w valid s.called, c.answers ≠ [] →
      ∃ name ∈ searchNames cfg c.lookup.asked, Answered es c.answers name := by
  intro c hc hne
  unfold Delivery.log at hc
  split_ifs at hc
  · rcases mem_append.mp hc with hc | hc
    · exact h.called c hc hne
    · rw [mem_singleton] at hc
      subst hc
      obtain ⟨r, hr, hans⟩ := h.delivered d hd
      rw [hq, some.injEq] at hr
      subst hr
      exact ⟨q.name, hw, hans hne⟩
  · exact h.called c hc hne

lemma Inv.callback {valid : Bool} (hd : s.delivery = some d)
    (hstep : idnsCallback s d valid = .ok s') : Inv cfg es s' := by
  simp only [idnsCallback, bind_eq_ok] at hstep
  obtain ⟨q, hget, hstep⟩ := hstep
  have hq := get_eq_ok hget
  have hsou := h.sound _ q hq
  split_ifs at hstep with hown
  · cases hstep
    obtain ⟨r, hr, hans⟩ := h.delivered d hd
    have hlog := h.log hq hd (by rw [hsou.asked]; exact hsou.own) valid
    exact ⟨h.sound, h.fresh, (h.deliver (d := { d with own := false }) hr hans).delivered, hlog⟩
  · cases hque : q.queue with
    | cons w queue =>
      rw [hque] at hstep
      cases hstep
      have hwait : ∀ w' ∈ w :: queue, q.name ∈ searchNames cfg w'.asked := by
        rw [← hque]
        exact hsou.waiting
      have hput := h.put (r := { q with queue := queue }) hq
        ⟨hsou.question, hsou.asked, hsou.searches, hsou.own, fun w' hw' => hwait w' (mem_cons_of_mem _ hw')⟩
        fun _ _ => rfl
      exact ⟨hput.sound, hput.fresh, hput.delivered, h.log hq hd (hwait w mem_cons_self) valid⟩
    | nil =>
      rw [hque] at hstep
      cases hstep
      refine ⟨fun p r hr => ?_, fun p hp => ?_, fun _ hd' => (nomatch hd'), h.called⟩
      · by_cases hp : p = d.query
        · simp [hp] at hr
        · simp only [Function.update_of_ne hp] at hr
          exact h.sound p r hr
      · by_cases hp' : p = d.query
        · simp [hp']
        · simp only [Function.update_of_ne hp']
          exact h.fresh p hp

lemma Inv.step {e : Event R} (he : enabled s e) (hc : aligned cfg s e)
    (hstep : Dns.step cfg s e = .ok s') : Inv cfg (es ++ [e]) s' := by
  have hmono := h.mono e
  cases e with
  | lookup name before random data => exact hmono.lookup hc hstep
  | reply m random =>
    have hdel : s.delivery = none := by simpa [enabled] using he
    exact hmono.reply hdel hc (by simp) hstep
  | check p timer => exact hmono.check hstep
  | callback valid =>
    cases hd : s.delivery with
    | none => simp [enabled, hd] at he
    | some d =>
      simp only [Dns.step, hd] at hstep
      exact hmono.callback hd hstep

end

lemma inv_of_reached (h : (machine cfg).Reached (aligned cfg) es s) : Inv cfg es s := by
  induction h with
  | init => exact .init
  | next e _ he hc hstep ih => exact ih.step he hc hstep

/-- In a run whose steps are aligned, a callback with records has those of a reply to a name that its lookup searches. -/
theorem answered_of_reached (h : (machine cfg).Reached (aligned cfg) es s) {c : Call R} (hc : c ∈ s.called) (hne : c.answers ≠ []) :
    ∃ m random, Event.reply m random ∈ es ∧ c.answers = m.records ∧
      ∃ name ∈ searchNames cfg c.lookup.asked, m.AnswersTo name := by
  obtain ⟨name, hname, m, random, hmem, heq, hans⟩ := (inv_of_reached h).called c hc hne
  exact ⟨m, random, hmem, heq, name, hname, hans⟩

/-! Names with fewer dots than `ndots` are first searched for in the first domain. -/

def searchConfig : Config := ⟨true, [[101], [111]], 1, 1, true⟩

def replyTo (name : List UInt8) (rcode : Fin 16) (answer : List ℕ) : Event ℕ := .reply ⟨0, false, rcode, ⟨1, 1, name⟩, answer⟩ 0

/-- A lookup of `f` is answered for `f.e`. -/
def plainRun : List (Event ℕ) := [.lookup [102] 0 0 1, replyTo [102, 46, 101] noError [7], .callback true]

theorem answered_plainRun : ∃ s : State ℕ, (machine searchConfig).Reached (aligned searchConfig) plainRun s ∧
    ⟨⟨1, [102]⟩, [7], 1, none⟩ ∈ s.called ∧ ∃ m random, Event.reply m random ∈ plainRun ∧ [7] = m.records ∧
      ∃ name ∈ searchNames searchConfig [102], m.AnswersTo name := by
  obtain ⟨s, hs, hc⟩ := (machine searchConfig).exists_reached (aligned searchConfig) plainRun
    (fun s => ⟨⟨1, [102]⟩, [7], 1, none⟩ ∈ s.called) (by decide)
  exact ⟨s, hs, hc, answered_of_reached hs hc (by simp)⟩

/-- A lookup of `f.e` joins the query for `f`, which goes on to `f.o` when there is no `f.e`. -/
def joinedRun : List (Event ℕ) :=
  [.lookup [102] 0 0 1, .lookup [102, 46, 101] 0 0 2, replyTo [102, 46, 101] nameError [], replyTo [102, 46, 101] nameError [],
    replyTo [102, 46, 111] noError [7], .callback true, .callback true]

theorem not_answered_joinedRun : ¬ ∀ (cfg : Config) (es : List (Event ℕ)) (s : State ℕ),
    (machine cfg).Reached (fun _ _ => true) es s → ∀ c ∈ s.called, c.answers ≠ [] →
      ∃ m random, Event.reply m random ∈ es ∧ c.answers = m.records ∧
        ∃ name ∈ searchNames cfg c.lookup.asked, m.AnswersTo name := by
  intro hall
  obtain ⟨s, hs, hc⟩ := (machine searchConfig).exists_reached (fun _ _ => true) joinedRun
    (fun s => ⟨⟨2, [102, 46, 101]⟩, [7], 1, none⟩ ∈ s.called) (by decide)
  obtain ⟨m, random, hmem, hrec, name, hname, hans⟩ := hall _ _ s hs _ hc (by simp)
  simp only [joinedRun, mem_cons, reduceCtorEq, not_mem_nil, false_or, or_false] at hmem
  obtain ⟨rfl, rfl⟩ | ⟨rfl, rfl⟩ | ⟨rfl, rfl⟩ := hmem
  · cases hrec
  · cases hrec
  · have hnam : ∀ name ∈ searchNames searchConfig [102, 46, 101],
        ¬ (trimRoot [102, 46, 111]).map tolower = (trimRoot name).map tolower := by decide
    exact hnam name hname hans.2.2

end SquidVideoCache.Dns
