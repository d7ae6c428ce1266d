import Runbound.Recursor.Descent
import Runbound.Recursor.SecureAnswer

/-!
# Iterative resolution among honest servers

`resolve_validated` over the descent: in any world of honest servers, after any run and within
the limits of the resolver, the answer to a question is the one of the world. The exception is
a question for CNAMEs at a name that has one: the chase follows every CNAME it meets,
whatever was asked for.

* `chase_answers`: the CNAME loop, by induction on the CNAMEs left.
* `resolveValidated_right_iff`: the answer is right exactly if no CNAME is asked for where
  there is one, and then also what the cache serves is.
* `cname_chased`: a CNAME query that gets the CNAME of the target as well.
-/

namespace Runbound.Recursor

open Wire Dnssec List Rtype Class Name

variable {ω : Type} {net : Net ω} {W : World} {cost : List Bytes → ℕ}

/-! ## The answer of a world -/

/-- What follows `records` in the answer is the answer of the world at `target`, up to order and
    the case of owners. -/
def Continues (W : World) (t : U16) (target : Name) (records : List Record) (v : Validated) :
    Prop :=
  ∃ chain rs as bs, Resolves W t target chain rs v.rcode ∧ v.records = records ++ as ++ bs ∧
    List.Forall₂ SameUpToCase as chain ∧ SameSet bs rs

/-- The answer is the one of the world. -/
def Right (W : World) (q : Name) (t : U16) (v : Validated) : Prop := Continues W t q [] v

/-- CNAMEs are not asked for at a name that has one. -/
def NoCnameAsked (W : World) (q : Name) (t : U16) : Prop := t = CNAME → W.rrsetAt q CNAME = []

variable {records : List Record} {n q : Name} {c : Record} {t : U16}

theorem rrset_congr {n' : Name} (h : n.key = n'.key) (t : U16) :
    rrset records n t = rrset records n' t := by
  refine filter_congr fun r _ => ?_
  congr 1
  rw [Bool.eq_iff_iff, eqIgnoreAsciiCase_iff, eqIgnoreAsciiCase_iff, h]

theorem Resolves.congr {n' : Name} {chain rs : List Record} {rc : U16}
    (hn : n.key = n'.key) (h : Resolves W t n chain rs rc) : Resolves W t n' chain rs rc := by
  have hrrset : ∀ t, W.rrsetAt n t = W.rrsetAt n' t := rrset_congr hn
  cases h with
  | answer h =>
    rw [hrrset] at h ⊢
    exact .answer h
  | nodata h hc he => exact .nodata (hrrset t ▸ h) (hrrset _ ▸ hc) (by rwa [World.Exists, ← hn])
  | nxdomain h hc he => exact .nxdomain (hrrset t ▸ h) (hrrset _ ▸ hc) (by rwa [World.Exists, ← hn])
  | follow h hc hnext hr => exact .follow (hrrset t ▸ h) (hrrset _ ▸ hc) hnext hr

theorem Right.congr {q' : Name} {v : Validated} (hq : q.key = q'.key)
    (h : Right W q t v) : Right W q' t v := by
  obtain ⟨chain, rs, as, bs, hr, h⟩ := h
  exact ⟨chain, rs, as, bs, hr.congr hq, h⟩

theorem NoCnameAsked.congr {q' : Name} (hq : q.key = q'.key)
    (h : NoCnameAsked W q t) : NoCnameAsked W q' t :=
  fun ht => (rrset_congr hq CNAME).symm.trans (h ht)

/-! ## One hop -/

theorem hopCname_cases (msg : Message) (n : Name) :
    (hopCname msg n = none ∧ ∀ r ∈ rrset msg.answers n CNAME, ∀ next, r.rdata ≠ .cname next) ∨
    ∃ cn next, hopCname msg n = some (cn, next) ∧ cn ∈ rrset msg.answers n CNAME ∧
      cn.rdata = .cname next := by
  cases h : hopCname msg n with
  | none =>
    refine Or.inl ⟨rfl, fun r hr next hnext => ?_⟩
    obtain ⟨hr, hkey⟩ := mem_rrset.mp hr
    have hnone := findSome?_eq_none_iff.mp h r hr
    rw [if_pos (by simpa using hkey), hnext] at hnone
    cases hnone
  | some p =>
    obtain ⟨cn, next⟩ := p
    refine Or.inr ⟨cn, next, rfl, hopCname_mem h, ?_⟩
    obtain ⟨r, -, hr⟩ := exists_of_findSome?_eq_some h
    split_ifs at hr
    split at hr
    · rename_i hrdata
      cases hr
      exact hrdata
    · cases hr

section

variable {n next : Name} {t : U16} {msg : Message} {cn : Record}

theorem World.cname_of_mem (h : c ∈ W.rrsetAt n CNAME) : ∃ next, c.rdata = .cname next :=
  W.cname_target c (mem_rrset.mp h).1 (mem_rrset.mp h).2.1

theorem World.cname_unique {c' : Record} (hc : c ∈ W.rrsetAt n CNAME)
    (hc' : c' ∈ W.rrsetAt n CNAME) : c = c' := by
  have hle : (W.rrsetAt n CNAME).length ≤ 1 := W.cname_le_one n
  obtain ⟨i, hi, rfl⟩ := getElem_of_mem hc
  obtain ⟨j, hj, rfl⟩ := getElem_of_mem hc'
  obtain rfl : i = j := by omega
  rfl

theorem rrset_eq_nil_of_names (h : ∀ r ∈ msg.answers, r.name.key ≠ n.key) (t : U16) :
    rrset msg.answers n t = [] := by
  refine filter_eq_nil_iff.mpr fun r hr hkey => h r hr ?_
  simp only [Bool.and_eq_true] at hkey
  exact eqIgnoreAsciiCase_iff.mp hkey.2

theorem isCompactNxdomain_mono {auth auth' : List Record} (hsub : ∀ r ∈ auth, r ∈ auth')
    (h : isCompactNxdomain auth' n = false) : isCompactNxdomain auth n = false := by
  rw [isCompactNxdomain, any_eq_false] at h ⊢
  exact fun r hr => h r (hsub r hr)

/-- A CNAME that is followed is the one of the world, if CNAMEs are not asked for. -/
theorem cname_of_hop (h : Tells W n t msg) (hask : NoCnameAsked W n t)
    (hcn : hopCname msg n = some (cn, next)) :
    W.rrsetAt n t = [] ∧ ∃ c ∈ W.rrsetAt n CNAME, c.rdata = .cname next ∧ SameUpToCase cn c := by
  obtain ⟨-, hmem, hnext⟩ : hopCname msg n = some (cn, next) ∧
      cn ∈ rrset msg.answers n CNAME ∧ cn.rdata = .cname next := by
    rcases hopCname_cases msg n with ⟨hnone, -⟩ | ⟨cn', next', hsome, hmem, hnext⟩
    · rw [hnone] at hcn
      cases hcn
    · rw [hsome] at hcn
      cases hcn
      exact ⟨hsome, hmem, hnext⟩
  cases h with
  | answer h _ _ hnone =>
    by_cases ht : t = CNAME
    · subst ht
      exact absurd (hask rfl) h
    · rw [hnone ht] at hmem
      cases hmem
  | cname h hc _ hcn' hsame =>
    rw [hcn', mem_singleton] at hmem
    subst hmem
    exact ⟨h, _, hc, hsame.2.2.2.2 ▸ hnext, hsame⟩
  | nodata _ _ _ _ ha _ =>
    rw [rrset_eq_nil_of_names ha] at hmem
    cases hmem
  | nxdomain _ _ _ _ ha =>
    rw [rrset_eq_nil_of_names ha] at hmem
    cases hmem

theorem continues_terminal {rrsigs auth : List Record} {verdict : Verdict}
    (h : Tells W n t msg) (hcn : hopCname msg n = none) (hauth : ∀ r ∈ auth, r ∈ msg.authority) :
    Continues W t n records (terminal msg n t records rrsigs auth verdict) := by
  have hrcode : (records ++ rrset msg.answers n t ≠ [] ∨ msg.header.rcodeLow ≠ Rcode.NOERROR ∨
      isCompactNxdomain auth n = false) →
      (terminal msg n t records rrsigs auth verdict).rcode = msg.header.rcodeLow := by
    intro hor
    refine if_neg fun hcompact => ?_
    rcases hor with h | h | h
    · exact h hcompact.2.2.1
    · exact h hcompact.2.1
    · rw [h] at hcompact
      exact absurd hcompact.2.2.2 (by decide)
  have hrecords : (terminal msg n t records rrsigs auth verdict).records =
      records ++ [] ++ rrset msg.answers n t := by
    rw [append_nil]
    rfl
  cases h with
  | answer h hrc hrs _ =>
    have hne : rrset msg.answers n t ≠ [] := by
      obtain ⟨cs, hperm, hsame⟩ := hrs
      intro hnil
      rw [hnil] at hsame
      cases hsame
      exact h (nil_perm.mp hperm)
    refine ⟨[], _, [], _, ?_, hrecords, .nil, hrs⟩
    rw [hrcode (Or.inl fun hnil => hne (append_eq_nil_iff.mp hnil).2), hrc]
    exact .answer h
  | cname _ hc _ hcn' hsame =>
    -- such a reply has a CNAME
    obtain ⟨next, hnext⟩ := World.cname_of_mem hc
    rcases hopCname_cases msg n with ⟨-, hno⟩ | ⟨cn, next', hsome, -⟩
    · exact absurd (hsame.2.2.2.2.trans hnext) (hno _ (by rw [hcn']; exact mem_singleton_self _) _)
    · rw [hsome] at hcn
      cases hcn
  | nodata h hc he hrc ha hx =>
    have hnil := rrset_eq_nil_of_names ha t
    refine ⟨[], [], [], [], ?_, hnil ▸ hrecords, .nil, [], .nil, .nil⟩
    rw [hrcode (Or.inr (Or.inr (isCompactNxdomain_mono hauth hx))), hrc]
    exact .nodata h hc he
  | nxdomain h hc he hrc ha =>
    have hnil := rrset_eq_nil_of_names ha t
    refine ⟨[], [], [], [], ?_, hnil ▸ hrecords, .nil, [], .nil, .nil⟩
    rw [hrcode (Or.inr (Or.inl (by rw [hrc]; decide))), hrc]
    exact .nxdomain h hc he

end

/-! ## The limits -/

section

variable {qmin : Bool} {k : ℕ} {n next : Name} {t : U16}

theorem Fits.withinBudget (h : Fits W cost qmin t k n) : WithinBudget W cost qmin n t := by
  cases h with
  | stop hb _ => exact hb
  | follow hb _ _ _ _ => exact hb

theorem Fits.of_cname (h : Fits W cost qmin t k n) (hnone : W.rrsetAt n t = [])
    (hc : c ∈ W.rrsetAt n CNAME) (hnext : c.rdata = .cname next) :
    ∃ m, k = m + 1 ∧ Fits W cost qmin t m next := by
  cases h with
  | stop _ hor =>
    rcases hor with h | h
    · exact absurd hnone h
    · rw [h] at hc
      cases hc
  | @follow m _ next' c' _ _ hc' hn' hf =>
    rw [World.cname_unique hc hc', hn'] at hnext
    cases hnext
    exact ⟨m, rfl, hf⟩

end

/-! ## The chase -/

section

variable {crypto : Crypto} {instant : ω → ℕ × ω} {t : U16}

theorem recursorEnv_keeps (hnet : net.Honest W) (crypto : Crypto) (instant : ω → ℕ × ω) :
    (recursorEnv net crypto instant).Keeps (Infra.CutsAll (CutOf W)) where
  fetch _ _ _ h := (resolveMessage_honest hnet h).1
  unixNow _ h := h
  instant _ h := h

/-- The chase ends with the answer of the world and offers it to the cache, or it leaves the cache
    alone and exceeded a limit. -/
theorem chase_answers (hnet : net.Honest W) (hspend : net.Spends W cost) (q : Name) (now : U32)
    (k : ℕ) :
    ∀ (target : Name) (records rrsigs : List Record) (verdict : Verdict)
      (s : Resolver (Infra ω)), s.chain.world.CutsAll (CutOf W) →
      let r := chase (recursorEnv net crypto instant) (q, t) now k target records rrsigs verdict s
      (∃ v i, r.1 = some v ∧ r.2.validated = cacheValidated s.validated (q, t) now i v ∧
        (NoCnameAsked W target t → Continues W t target records v ∧
          (t = CNAME → ∃ hop, r.2.log = hop :: s.log))) ∨
      (r.2.validated = s.validated ∧
        (NoCnameAsked W target t → ¬ Fits W cost net.qmin t k target)) := by
  induction k using Nat.strong_induction_on with
  | _ k ih =>
    intro target records rrsigs verdict s hcuts
    have hG := recursorEnv_keeps hnet crypto instant
    have hhonest := resolveMessage_honest (q := target) (t := t) hnet hcuts
    rcases chase_cases (recursorEnv net crypto instant) (q, t) now k target records rrsigs verdict s
      with ⟨hnone, hrun⟩ | ⟨hop, ⟨rfl, hqt, hnow⟩, hfetch, hcase⟩
    · rw [hrun]
      refine Or.inr ⟨rfl, fun _ hfits => ?_⟩
      obtain ⟨msg, hmsg⟩ := resolveMessage_returns hnet hspend hfits.withinBudget hcuts
      exact absurd (hmsg.symm.trans hnone) (by simp)
    · have hmsg : (resolveMessage net hop.target t s.chain.world).1 = some hop.msg :=
        congrArg Prod.fst hfetch
      have htells := hhonest.2 _ hmsg
      have hbefore : hop.before.world.CutsAll (CutOf W) := by
        have := hhonest.1
        have hworld : (resolveMessage net hop.target t s.chain.world).2 = hop.before.world :=
          congrArg (fun p => p.2.world) hfetch
        rwa [hworld] at this
      rcases hcase with ⟨cn, next, rfl, hcn, hrun⟩ | ⟨cn, next, m, rfl, hcn, hrun⟩ | ⟨hcn, hrun⟩
      · rw [hrun]
        refine Or.inr ⟨rfl, fun hask hfits => ?_⟩
        obtain ⟨hnil, c, hc, hnext, -⟩ := cname_of_hop htells hask hcn
        obtain ⟨m, hm, -⟩ := hfits.of_cname hnil hc hnext
        cases hm
      · rw [hrun]
        have hnext := ih m (by omega) next (records ++ [cn])
          (rrsigs ++ coveringRrsigs hop.msg.answers hop.target CNAME)
          (worstVerdict verdict (hop.judgement (recursorEnv net crypto instant)).1)
          { s with chain := hop.after (recursorEnv net crypto instant), log := hop :: s.log }
          (hG.after hbefore)
        -- a CNAME is followed only if another type was asked for
        have hfollow : NoCnameAsked W hop.target t → t ≠ CNAME ∧ W.rrsetAt hop.target t = [] ∧
            ∃ c ∈ W.rrsetAt hop.target CNAME, c.rdata = .cname next ∧ SameUpToCase cn c := by
          intro hask
          obtain ⟨hnil, c, hc, hrest⟩ := cname_of_hop htells hask hcn
          refine ⟨fun ht => ?_, hnil, c, hc, hrest⟩
          rw [hask ht] at hc
          cases hc
        rcases hnext with ⟨v, i, hv, hcache, hans⟩ | ⟨hcache, hnot⟩
        · refine Or.inl ⟨v, i, hv, hcache, fun hask => ?_⟩
          obtain ⟨hne, hnil, c, hc, hcnext, hsame⟩ := hfollow hask
          obtain ⟨⟨chain, rs, as, bs, hr, hrec, has, hbs⟩, -⟩ := hans fun ht => absurd ht hne
          refine ⟨⟨c :: chain, rs, cn :: as, bs, .follow hnil hc hcnext hr, ?_,
            .cons hsame has, hbs⟩, fun ht => absurd ht hne⟩
          simpa using hrec
        · refine Or.inr ⟨hcache, fun hask hfits => ?_⟩
          obtain ⟨hne, hnil, c, hc, hcnext, -⟩ := hfollow hask
          obtain ⟨m', hm', hfits'⟩ := hfits.of_cname hnil hc hcnext
          cases hm'
          exact hnot (fun ht => absurd ht hne) hfits'
      · rw [hrun]
        refine Or.inl ⟨_, _, rfl, rfl, fun _ => ⟨?_, fun _ => ⟨hop, rfl⟩⟩⟩
        exact continues_terminal htells hcn fun r hr => mem_authority_of_validateFull hr

/-! ## Every resolution -/

/-- No cached answer to the question is alive. -/
def Misses {σ : Type} (env : Env σ) (q : Name) (t : U16) (s : Resolver σ) : Prop :=
  ∀ hit, s.validated.find (q, t) = some hit → hit.expiresAt ≤ (env.instant s.chain.world).1

/-- Every cached answer is the one of the world, questions for CNAMEs at a CNAME apart. -/
def CacheRight (W : World) (cache : ValidatedCache) : Prop :=
  ∀ e ∈ cache, NoCnameAsked W e.1.1 e.1.2 → Right W e.1.1 e.1.2 e.2.validated

theorem chase_cacheRight (hnet : net.Honest W) (hspend : net.Spends W cost) (q : Name) (now : U32)
    {s : Resolver (Infra ω)} (hcuts : s.chain.world.CutsAll (CutOf W))
    (hright : CacheRight W s.validated) :
    CacheRight W (chase (recursorEnv net crypto instant) (q, t) now maxCname q [] [] .secure
      s).2.validated := by
  intro e he hask
  rcases chase_answers hnet hspend q now maxCname q [] [] .secure s hcuts with
    ⟨v, i, -, hcache, hans⟩ | ⟨hcache, -⟩
  · rw [hcache] at he
    rcases mem_cacheValidated he with he | ⟨hkey, hv⟩
    · exact hright e he hask
    · rw [hkey] at hask ⊢
      rw [hv]
      exact (hans hask).1
  · rw [hcache] at he
    exact hright e he hask

/-- What every run keeps: learned cuts are of the world, and cached answers right. -/
theorem run_right (hnet : net.Honest W) (hspend : net.Spends W cost) :
    ∀ (ops : List Op) {s : Resolver (Infra ω)}, s.chain.world.CutsAll (CutOf W) →
      CacheRight W s.validated →
      (run (recursorEnv net crypto instant) ops s).chain.world.CutsAll (CutOf W) ∧
        CacheRight W (run (recursorEnv net crypto instant) ops s).validated := by
  intro ops
  induction ops with
  | nil =>
    intro s hcuts hright
    exact ⟨hcuts, hright⟩
  | cons op ops ih =>
    intro s hcuts hright
    have hG := recursorEnv_keeps hnet crypto instant
    cases op with
    | flush => exact ih hcuts fun e he => by cases he
    | query qname qtype now =>
      refine ih (resolveValidated_keeps hG qname qtype now hcuts) ?_
      show CacheRight W
        (resolveValidated (recursorEnv net crypto instant) qname qtype now s).2.validated
      rcases resolveValidated_cases (recursorEnv net crypto instant) qname qtype now s with
        ⟨e, -, -, -, elapsed, v, -, hrun⟩ | ⟨chain, cache, hchain, hsub, hrun⟩
      · rw [hrun]
        exact hright
      · rw [hrun]
        refine chase_cacheRight hnet hspend qname now ?_ fun e he => hright e (hsub e he).1
        rcases hchain with rfl | rfl
        · exact hcuts
        · assumption

end

theorem hopCname_ne_none {msg : Message} (h : Tells W n CNAME msg)
    (hc : W.rrsetAt n CNAME ≠ []) : hopCname msg n ≠ none := by
  cases h with
  | answer _ _ hrs _ =>
    obtain ⟨cs, hperm, hsame⟩ := hrs
    rcases hopCname_cases msg n with ⟨-, hno⟩ | ⟨cn, next, hsome, -⟩
    · generalize rrset msg.answers n CNAME = rs at hsame hno
      cases hsame with
      | nil => exact absurd (nil_perm.mp hperm) hc
      | @cons a c as cs hac _ =>
        obtain ⟨next, hnext⟩ := World.cname_of_mem (hperm.subset mem_cons_self)
        exact absurd (hac.2.2.2.2.trans hnext) (hno a mem_cons_self next)
    · rw [hsome]
      exact Option.some_ne_none _
  | cname h _ _ _ _ => exact absurd h hc
  | nodata h _ _ _ _ _ => exact absurd h hc
  | nxdomain h _ _ _ _ => exact absurd h hc

/-- Where a CNAME is asked for and is there, the chase goes on to its target. -/
theorem chase_past_cname {crypto : Crypto} {instant : ω → ℕ × ω} (hnet : net.Honest W)
    {now : U32} {s : Resolver (Infra ω)} (hcuts : s.chain.world.CutsAll (CutOf W))
    (hc : W.rrsetAt q CNAME ≠ []) {v : Validated} {s' : Resolver (Infra ω)}
    (h : chase (recursorEnv net crypto instant) (q, CNAME) now maxCname q [] [] .secure s =
      (some v, s')) : s.log.length + 2 ≤ s'.log.length := by
  rcases chase_cases (recursorEnv net crypto instant) (q, CNAME) now maxCname q [] [] .secure s
    with ⟨-, hrun⟩ | ⟨hop, ⟨rfl, -, -⟩, hfetch, hcase⟩
  · rw [hrun] at h
    cases h
  · rcases hcase with ⟨-, -, hzero, -⟩ | ⟨cn, next, m, -, -, hrun⟩ | ⟨hcn, -⟩
    · cases hzero
    · rw [hrun] at h
      obtain ⟨last, hops, hlog, -⟩ := chase_ending _ _ _ _ _ _ _ _ h
      rw [hlog]
      simp only [length_cons, length_append]
      omega
    · have hmsg : (resolveMessage net hop.target CNAME s.chain.world).1 = some hop.msg :=
        congrArg Prod.fst hfetch
      exact absurd hcn (hopCname_ne_none ((resolveMessage_honest hnet hcuts).2 _ hmsg) hc)

/-- In every world of honest servers, for every run and every question whose resolution stays
    within the limits: an answer that does not come from the cache is the one of the world,
    found without chasing the target of a CNAME that was asked for, exactly if no CNAME is asked
    for where there is one; and then an answer from the cache is the one of the world too, up to
    its TTLs. -/
theorem resolveValidated_right_iff (hnet : net.Honest W) (hspend : net.Spends W cost)
    (crypto : Crypto) (instant : ω → ℕ × ω) (ops : List Op) (w : ω) (now : U32) {q : Name} {t : U16}
    (hfit : Fits W cost net.qmin t maxCname q) :
    let env := recursorEnv net crypto instant
    let s := run env ops { chain := { world := { world := w } } }
    (Misses env q t s →
      ((∃ v s', resolveValidated env q t now s = (some v, s') ∧ Right W q t v ∧
          (t = CNAME → ∃ hop, s'.log = hop :: s.log)) ↔
        NoCnameAsked W q t)) ∧
    (NoCnameAsked W q t → ∃ v v' s', resolveValidated env q t now s = (some v, s') ∧
      UpToTtl v v' ∧ Right W q t v') := by
  intro env s
  obtain ⟨hcuts, hright⟩ : s.chain.world.CutsAll (CutOf W) ∧ CacheRight W s.validated :=
    run_right hnet hspend ops (fun e he => by cases he) fun e he => by cases he
  have hworld : ∀ {chain : State (Infra ω)}, chain = s.chain ∨ chain = ticked env s →
      chain.world.CutsAll (CutOf W) := by
    rintro chain (rfl | rfl)
    · exact hcuts
    · exact hcuts
  have hchased : ∀ {chain : State (Infra ω)} {cache : ValidatedCache},
      chain = s.chain ∨ chain = ticked env s → NoCnameAsked W q t →
      ∃ v s', chase env (q, t) now maxCname q [] [] .secure
          { s with chain := chain, validated := cache } = (some v, s') ∧ Right W q t v ∧
        (t = CNAME → ∃ hop, s'.log = hop :: s.log) := by
    intro chain cache hchain hask
    rcases chase_answers hnet hspend q now maxCname q [] [] .secure
      { s with chain := chain, validated := cache } (hworld hchain) with
      ⟨v, i, hv, -, hans⟩ | ⟨-, hnot⟩
    · exact ⟨v, _, Prod.ext hv rfl, hans hask⟩
    · exact absurd hfit (hnot hask)
  rcases resolveValidated_cases env q t now s with
    ⟨e, he, hkey, ⟨hfind, hlive⟩, elapsed, v, hdec, hrun⟩ | ⟨chain, cache, hchain, hsub, hrun⟩
  · refine ⟨fun hmiss => absurd (hmiss _ hfind) (not_le.mpr hlive), fun hask => ?_⟩
    simp only [sameKey, Bool.and_eq_true, decide_eq_true_eq, eqIgnoreAsciiCase_iff] at hkey
    have hcached := hright e he (hkey.2 ▸ hask.congr hkey.1.symm)
    exact ⟨v, _, _, hrun, cloneDecremented_upToTtl hdec, (hkey.2 ▸ hcached).congr hkey.1⟩
  · rw [hrun]
    refine ⟨fun _ => ⟨?_, hchased hchain⟩, fun hask => ?_⟩
    · rintro ⟨v, s', hres, -, hlog⟩ rfl
      by_contra hc
      obtain ⟨hop, hlog⟩ := hlog rfl
      have hlen := chase_past_cname hnet (hworld hchain) hc hres
      rw [hlog] at hlen
      simp at hlen
    · obtain ⟨v, s', hres, hv, -⟩ := hchased hchain hask
      exact ⟨v, v, s', hres, .refl v, hv⟩

/-! ## A small world -/

section

variable (records : List Record) (n : Name) (t : U16)

/-- The reply of a server that knows all records. -/
def recordsReply : Message :=
  if rrset records n t ≠ [] then { answers := rrset records n t }
  else if rrset records n CNAME ≠ [] then { answers := rrset records n CNAME }
  else if records.any fun r => r.name.isInZone n then {}
  else { header := { flags := 3 } }

theorem recordsReply_authority : (recordsReply records n t).authority = [] := by
  unfold recordsReply
  split_ifs <;> rfl

theorem rrset_rrset : rrset (rrset records n t) n t = rrset records n t :=
  filter_eq_self.mpr fun _ hr => (mem_filter.mp hr).2

end

theorem rrset_rrset_ne {t' : U16} (h : t ≠ t') : rrset (rrset records n t) n t' = [] := by
  refine eq_nil_iff_forall_not_mem.mpr fun r hr => h ?_
  obtain ⟨hr, ht', -⟩ := mem_rrset.mp hr
  exact (mem_rrset.mp hr).2.1.symm.trans ht'

theorem SameUpToCase.refl (r : Record) : SameUpToCase r r := ⟨rfl, rfl, rfl, rfl, rfl⟩

theorem SameSet.refl (rs : List Record) : SameSet rs rs :=
  ⟨rs, .refl rs, forall₂_same.mpr fun r _ => .refl r⟩

theorem tells_recordsReply (W : World) (n : Name) (t : U16) :
    Tells W n t (recordsReply W.records n t) := by
  have hexists : (W.records.any fun r => r.name.isInZone n) = true ↔ W.Exists n := by
    simp only [any_eq_true, isInZone_iff, World.Exists]
  unfold recordsReply
  split_ifs with h hc he
  · refine .answer h rfl ?_ fun ht => rrset_rrset_ne ht
    rw [rrset_rrset]
    exact .refl _
  · obtain ⟨c, hmem⟩ := exists_mem_of_ne_nil _ hc
    refine .cname (not_not.mp h) hmem (Or.inl rfl) ?_ (.refl c)
    rw [rrset_rrset]
    obtain ⟨x, hx⟩ := length_eq_one_iff.mp
      (le_antisymm (W.cname_le_one n) (length_pos_of_ne_nil hc))
    rw [hx] at hmem ⊢
    rw [mem_singleton.mp hmem]
  · exact .nodata (not_not.mp h) (not_not.mp hc) (hexists.mp he) rfl nofun rfl
  · exact .nxdomain (not_not.mp h) (not_not.mp hc) (fun hx => he (hexists.mpr hx)) rfl nofun

/-- `z.` -/
def nameZ : Name := ⟨[[122]], by decide⟩

/-- `a.z.` -/
def nameAz : Name := ⟨[[97], [122]], by decide⟩

/-- `b.z.` -/
def nameBz : Name := ⟨[[98], [122]], by decide⟩

/-- `c.z.` -/
def nameCz : Name := ⟨[[99], [122]], by decide⟩

/-- `n.z.` -/
def nameNz : Name := ⟨[[110], [122]], by decide⟩

/-- The server of `z.`. -/
def serverZ : IpAddr := .v4 ![11, 0, 0, 1]

/-- `a.z. CNAME b.z.` -/
def aliasAz : Record := ⟨nameAz, CNAME, IN, 300, .cname nameBz, rfl⟩

/-- `b.z. CNAME c.z.` -/
def aliasBz : Record := ⟨nameBz, CNAME, IN, 300, .cname nameCz, rfl⟩

/-- `c.z. A 11.0.0.2` -/
def addressCz : Record := ⟨nameCz, Rtype.A, IN, 300, .a ![11, 0, 0, 2], rfl⟩

/-- The root and `z.`. -/
def worldZ : World where
  apexes := [[], nameZ.key]
  records := [aliasAz, aliasBz, addressCz]
  serves ip key := (ip ∈ rootHints ∧ key = []) ∨ (ip = serverZ ∧ key = nameZ.key)
  width _ := 13
  cname_le_one n := by
    unfold rrset
    by_cases ha : aliasAz.name.eqIgnoreAsciiCase n
    · have hb : ¬ aliasBz.name.eqIgnoreAsciiCase n := by
        rw [Name.eqIgnoreAsciiCase_iff] at ha ⊢
        rw [← ha]
        decide
      simp [List.filter_cons, hb, show addressCz.rtype ≠ CNAME by decide]
      split_ifs <;> simp
    · simp only [List.filter_cons, ha, show addressCz.rtype ≠ CNAME by decide]
      split_ifs <;> simp_all
  cname_target := by
    intro r hr ht
    simp only [List.mem_cons, List.not_mem_nil, or_false] at hr
    rcases hr with rfl | rfl | rfl
    · exact ⟨_, rfl⟩
    · exact ⟨_, rfl⟩
    · exact absurd ht (by decide)
  root_apex := by simp
  root_serves ip hip := Or.inl ⟨hip, rfl⟩
  root_width := by decide

/-- The root's referral to `z.`. -/
def referralZ : Message where
  authority := [⟨nameZ, NS, IN, 300, .ns nameNz, rfl⟩]
  additional := [⟨nameNz, Rtype.A, IN, 300, .a ![11, 0, 0, 1], rfl⟩]

/-- The replies of the servers: the root refers for everything in `z.` but its DS. -/
def replyZ (ip : IpAddr) (n : Name) (t : U16) : Message :=
  if ip ≠ serverZ ∧ n.isInZone nameZ ∧ ¬ (t = DS ∧ n.eqIgnoreAsciiCase nameZ) then referralZ
  else recordsReply worldZ.records n t

/-- The servers answer at once. -/
def netZ : Net Unit where
  qmin := true
  unixNow w := (1500, w)
  wake inflight n t w := (⟨false, 0, inflight.head?.map fun ip => replyZ ip n t, 1⟩, w)

theorem delegates_referralZ {zone : Name} (hzone : zone.key = [])
    (hn : n.isInZone nameZ = true) (hds : ¬ (t = DS ∧ n.eqIgnoreAsciiCase nameZ = true)) :
    Delegates worldZ zone n t referralZ nameZ where
  apex := by simp [worldZ]
  below := by
    rw [hzone]
    exact ⟨List.nil_prefix, by decide⟩
  encloses := isInZone_iff.mp hn
  parent_ds ht hkey := hds ⟨ht, eqIgnoreAsciiCase_iff.mpr hkey.symm⟩
  ns := ⟨_, mem_singleton_self _, rfl, rfl⟩
  glue := by decide
  serves ip hip := by
    obtain rfl : ip = serverZ := by
      exact mem_singleton.mp hip
    exact Or.inr ⟨rfl, rfl⟩
  width := by decide

theorem repliesWith_netZ {R : Name → Name → U16 → Message → Prop}
    (hrefer : ∀ {zone n t}, Delegates worldZ zone n t referralZ nameZ → R zone n t referralZ)
    (hdata : ∀ zone n t, R zone n t (recordsReply worldZ.records n t)) :
    netZ.RepliesWith worldZ R := by
  intro inflight n t w ip wake hip
  have hhead : inflight.head? = some ip := by
    rw [head?_eq_getElem?]
    simpa [wake, netZ] using hip
  refine ⟨replyZ ip n t, by simp [wake, netZ, hhead], fun zone hserves _ => ?_⟩
  unfold replyZ
  split_ifs with hif
  · rcases hserves with ⟨-, hzone⟩ | ⟨hip, -⟩
    · exact hrefer (delegates_referralZ hzone hif.2.1 hif.2.2)
    · exact absurd hip hif.1
  · exact hdata zone n t

theorem honest_netZ : netZ.Honest worldZ :=
  repliesWith_netZ
    (fun hd => ⟨fun _ hr _ => Or.inr (mem_singleton.mp hr ▸ hd), Or.inr ⟨rfl, rfl, nameZ, hd⟩⟩)
    fun _ n t => ⟨fun _ hr => absurd hr (by simp [recordsReply_authority]),
      Or.inl (tells_recordsReply worldZ n t)⟩

theorem withinBudget_worldZ (hq : q.labelCount = 2) : WithinBudget worldZ worldZ.width true q t :=
  withinBudget_of_labels (C := 13) (fun _ => le_rfl) (by rw [hq]; decide) (by rw [hq]; decide)

theorem fits_worldZ : Fits worldZ worldZ.width netZ.qmin Rtype.A maxCname nameAz := by
  refine .follow (c := aliasAz) (withinBudget_worldZ rfl) (by decide) (by decide) rfl ?_
  refine .follow (c := aliasBz) (withinBudget_worldZ rfl) (by decide) (by decide) rfl ?_
  exact .stop (withinBudget_worldZ rfl) (Or.inl (by decide))

/-- The resolver of this world. -/
def envZ : Env (Infra Unit) := recursorEnv netZ (idealCrypto [] []) fun w => (0, w)

/-- The question for the address of `a.z.`, in the general theorem. -/
theorem resolveValidated_right_az :
    netZ.Honest worldZ ∧ Fits worldZ worldZ.width netZ.qmin Rtype.A maxCname nameAz ∧
      ∃ v s', resolveValidated envZ nameAz Rtype.A 1500 { chain := { world := { world := () } } } =
        (some v, s') ∧ Right worldZ nameAz Rtype.A v := by
  refine ⟨honest_netZ, fits_worldZ, ?_⟩
  have hiff := (resolveValidated_right_iff honest_netZ (spends_width netZ worldZ)
    (idealCrypto [] [])
    (fun w => (0, w)) [] () 1500 fits_worldZ).1 nofun
  obtain ⟨v, s', hres, hv, -⟩ := hiff.mpr fun h => absurd h (by decide)
  exact ⟨v, s', hres, hv⟩

/-- Where the type is, the right answer has the records of that RRset. -/
theorem Right.length_records {v : Validated} (h : Right W q t v) (hne : W.rrsetAt q t ≠ []) :
    v.records.length = (W.rrsetAt q t).length := by
  obtain ⟨chain, rs, as, bs, hres, hrecords, has, cs, hperm, hbs⟩ := h
  generalize v.rcode = rc at hres
  cases hres with
  | answer _ =>
    rw [hrecords, forall₂_nil_right_iff.mp has, append_nil, nil_append, hbs.length_eq,
      hperm.length_eq]
  | nodata hnil => exact absurd hnil hne
  | nxdomain hnil => exact absurd hnil hne
  | follow hnil => exact absurd hnil hne

/-- The CNAME of `a.z.` is asked for. Its target is chased, and the answer has the CNAME of the
    target as well. -/
theorem cname_chased :
    let r := resolveValidated envZ nameAz CNAME 1500 { chain := { world := { world := () } } }
    (netZ.Honest worldZ ∧ Fits worldZ worldZ.width netZ.qmin CNAME maxCname nameAz) ∧
      r.1.map Validated.records = some [aliasAz, aliasBz] ∧
      r.2.log.map Hop.target = [nameCz, nameBz, nameAz] ∧
      ¬ ∃ v s', r = (some v, s') ∧ (Right worldZ nameAz CNAME v ∨ ∃ hop, s'.log = [hop]) := by
  intro r
  have hrecords : r.1.map Validated.records = some [aliasAz, aliasBz] := by decide +kernel
  have hlog : r.2.log.map Hop.target = [nameCz, nameBz, nameAz] := by decide +kernel
  refine ⟨⟨honest_netZ, .stop (withinBudget_worldZ rfl) (Or.inl (by decide))⟩, hrecords, hlog, ?_⟩
  rintro ⟨v, s', hr, hright | ⟨hop, hone⟩⟩
  · rw [hr] at hrecords
    have hlen := hright.length_records (by decide)
    rw [Option.some.inj hrecords] at hlen
    exact absurd hlen (by decide)
  · rw [hr, hone] at hlog
    exact absurd (congrArg List.length hlog) (by simp)

end Runbound.Recursor
