import Runbound.Recursor.Validated

/-!
# Runs of the validating resolver

`chase_cases` says once what a pass of the CNAME loop can do. From it comes one
rule for properties of served answers: a loop invariant on what was collected so
far, and a property of finished answers that survives a longer log and the decay
of TTLs (`Justifies`), hold of everything any run serves (`run_justified`).
-/

namespace Runbound.Recursor

open Wire Dnssec List Option

variable {σ : Type} {env : Env σ}

/-- The verdict and the authority of a hop. -/
def Hop.judgement (env : Env σ) (hop : Hop σ) : Verdict × List Record :=
  (validateFull env.toEnv hop.target hop.qtype hop.msg hop.now hop.before).1

/-- The state after a hop was judged. -/
def Hop.after (env : Env σ) (hop : Hop σ) : State σ :=
  (validateFull env.toEnv hop.target hop.qtype hop.msg hop.now hop.before).2

/-- One pass of the loop: no reply, a CNAME too many, a CNAME followed, or the end. -/
theorem chase_cases (env : Env σ) (key : Name × U16) (now : U32) (n : ℕ) (target : Name)
    (records rrsigs : List Record) (verdict : Verdict) (s : Resolver σ) :
    ((s.chain.fetch env.toEnv target key.2).1 = none ∧
      chase env key now n target records rrsigs verdict s =
        (none, { s with chain := (s.chain.fetch env.toEnv target key.2).2 })) ∨
    ∃ hop : Hop σ, (hop.target = target ∧ hop.qtype = key.2 ∧ hop.now = now) ∧
      s.chain.fetch env.toEnv target key.2 = (some hop.msg, hop.before) ∧
      ((∃ cn next, n = 0 ∧ hopCname hop.msg target = some (cn, next) ∧
          chase env key now n target records rrsigs verdict s =
            (some ⟨records ++ [cn], [], [], hop.msg.header.rcodeLow, .bogus⟩,
              { s with chain := hop.after env, log := hop :: s.log })) ∨
        (∃ cn next m, n = m + 1 ∧ hopCname hop.msg target = some (cn, next) ∧
          chase env key now n target records rrsigs verdict s =
            chase env key now m next (records ++ [cn])
              (rrsigs ++ coveringRrsigs hop.msg.answers target Rtype.CNAME)
              (worstVerdict verdict (hop.judgement env).1)
              { s with chain := hop.after env, log := hop :: s.log }) ∨
        (hopCname hop.msg target = none ∧
          let clock := env.instant (hop.after env).world
          let v := terminal hop.msg target key.2 records rrsigs (hop.judgement env).2
            (worstVerdict verdict (hop.judgement env).1)
          chase env key now n target records rrsigs verdict s =
            (some v, { s with
              chain := { hop.after env with world := clock.2 }, log := hop :: s.log,
              validated := cacheValidated s.validated key now clock.1 v }))) := by
  rw [chase.eq_def]
  cases hreply : (s.chain.fetch env.toEnv target key.2).1 with
  | none =>
    left
    exact ⟨rfl, by simp only [hreply]⟩
  | some msg =>
    right
    refine ⟨⟨target, key.2, now, msg, (s.chain.fetch env.toEnv target key.2).2⟩,
      ⟨rfl, rfl, rfl⟩, Prod.ext hreply rfl, ?_⟩
    simp only [hreply]
    cases hcn : hopCname msg target with
    | none => exact Or.inr (Or.inr ⟨rfl, rfl⟩)
    | some p =>
      obtain ⟨cn, next⟩ := p
      cases n with
      | zero => exact Or.inl ⟨cn, next, rfl, rfl, rfl⟩
      | succ m => exact Or.inr (Or.inl ⟨cn, next, m, rfl, rfl, rfl⟩)

variable {hop : Hop σ} {log : List (Hop σ)} {key : Name × U16} {v : Validated}

theorem not_sameKey_of_find_none {cache : ValidatedCache}
    (h : cache.find key = none) {e : (Name × U16) × CachedValidated} (he : e ∈ cache) :
    sameKey e.1 key = false := by
  have := find?_eq_none.mp (map_eq_none_iff.mp h) e he
  simpa using this

/-- The chain state once the instant clock was read. -/
def ticked (env : Env σ) (s : Resolver σ) : State σ :=
  { s.chain with world := (env.instant s.chain.world).2 }

/-- A query is served from the cache with its TTLs decayed, or chased with no answer to it
    left in the cache. -/
theorem resolveValidated_cases (env : Env σ) (qname : Name) (qtype : U16) (now : U32)
    (s : Resolver σ) :
    (∃ e ∈ s.validated, sameKey e.1 (qname, qtype) = true ∧
      (s.validated.find (qname, qtype) = some e.2 ∧
        (env.instant s.chain.world).1 < e.2.expiresAt) ∧ ∃ elapsed v,
      e.2.cloneDecremented elapsed = some v ∧
      resolveValidated env qname qtype now s = (some v, { s with chain := ticked env s })) ∨
    (∃ chain, ∃ cache : ValidatedCache, (chain = s.chain ∨ chain = ticked env s) ∧
      (∀ e ∈ cache, e ∈ s.validated ∧ sameKey e.1 (qname, qtype) = false) ∧
      resolveValidated env qname qtype now s =
        chase env (qname, qtype) now maxCname qname [] [] .secure
          { s with chain := chain, validated := cache }) := by
  rw [resolveValidated]
  cases hfind : s.validated.find (qname, qtype) with
  | none =>
    exact Or.inr ⟨s.chain, s.validated, Or.inl rfl,
      fun e he => ⟨he, not_sameKey_of_find_none hfind he⟩, rfl⟩
  | some hit =>
    simp only
    split
    · rename_i v hserved
      obtain ⟨e, he, rfl⟩ := map_eq_some_iff.mp hfind
      have hkey := find?_some he
      split_ifs at hserved with hlive
      exact Or.inl ⟨e, mem_of_find?_eq_some he, hkey, ⟨rfl, hlive⟩, _, v, hserved, rfl⟩
    · exact Or.inr ⟨_, _, Or.inr rfl, fun e he => by simpa using mem_filter.mp he, rfl⟩

/-! ## How a resolution ends -/

/-- The result `v` and the cache of validated answers after a chase that judged `hop` last: it
    refused to follow one CNAME more, or it made its answer of the last reply. -/
inductive Ending (env : Env σ) (key : Name × U16) (now : U32) (hop : Hop σ) (v : Validated)
    (cache : ValidatedCache) : ValidatedCache → Prop
  | refused (hcn : hopCname hop.msg hop.target ≠ none) (hv : v.verdict = .bogus) :
      Ending env key now hop v cache cache
  | finished {records rrsigs : List Record} {verdict : Verdict} (i : ℕ)
      (hcn : hopCname hop.msg hop.target = none)
      (hv : v = terminal hop.msg hop.target key.2 records rrsigs (hop.judgement env).2
        (worstVerdict verdict (hop.judgement env).1)) :
      Ending env key now hop v cache (cacheValidated cache key now i v)

theorem worstVerdict_bogus {a b : Verdict} :
    worstVerdict a b = .bogus ↔ a = .bogus ∨ b = .bogus := by
  cases a <;> cases b <;> simp [worstVerdict]

/-- The hops of a chase that returned an answer, the last one first. The answer is bogus if
    one of them was, or if the chase refused to go on. -/
theorem chase_ending (key : Name × U16) (now : U32) (n : ℕ) :
    ∀ (target : Name) (records rrsigs : List Record) (verdict : Verdict) (s : Resolver σ)
      {v : Validated} {s' : Resolver σ},
      chase env key now n target records rrsigs verdict s = (some v, s') →
      ∃ hop hops, s'.log = hop :: hops ++ s.log ∧
        Ending env key now hop v s.validated s'.validated ∧
        (v.verdict = .bogus ↔ verdict = .bogus ∨ hopCname hop.msg hop.target ≠ none ∨
          ∃ x ∈ hop :: hops, (x.judgement env).1 = .bogus) := by
  induction n using Nat.strong_induction_on with
  | _ n ih =>
    intro target records rrsigs verdict s v s' h
    rcases chase_cases env key now n target records rrsigs verdict s with
      ⟨-, hrun⟩ | ⟨hop, ⟨rfl, -, -⟩, -, hcase⟩
    · rw [hrun] at h
      simp at h
    · rcases hcase with ⟨cn, next, rfl, hcn, hrun⟩ | ⟨cn, next, m, rfl, hcn, hrun⟩ | ⟨hcn, hrun⟩
      · rw [hrun] at h
        cases h
        have hne : hopCname hop.msg hop.target ≠ none := by simp [hcn]
        exact ⟨hop, [], rfl, .refused hne rfl, by simp [hne]⟩
      · rw [hrun] at h
        obtain ⟨last, hops, hlog, hend, hv⟩ := ih m (by omega) _ _ _ _ _ h
        refine ⟨last, hops ++ [hop], by simpa using hlog, hend, ?_⟩
        rw [hv, worstVerdict_bogus]
        simp only [mem_cons, mem_append, not_mem_nil, or_false]
        constructor
        · rintro ((h | h) | h | ⟨x, hx, h⟩)
          · exact Or.inl h
          · exact Or.inr (Or.inr ⟨hop, by simp, h⟩)
          · exact Or.inr (Or.inl h)
          · exact Or.inr (Or.inr ⟨x, by tauto, h⟩)
        · rintro (h | h | ⟨x, hx | hx | hx, h⟩)
          · exact Or.inl (Or.inl h)
          · exact Or.inr (Or.inl h)
          · exact Or.inr (Or.inr ⟨x, Or.inl hx, h⟩)
          · exact Or.inr (Or.inr ⟨x, Or.inr hx, h⟩)
          · exact Or.inl (Or.inr (hx ▸ h))
      · rw [hrun] at h
        cases h
        refine ⟨hop, [], rfl, .finished _ hcn rfl, ?_⟩
        show worstVerdict verdict _ = .bogus ↔ _
        rw [worstVerdict_bogus]
        simp [hcn]

/-! ## What a run does to the world -/

/-- `G` survives what the resolver does to the world. -/
structure Env.Keeps (env : Env σ) (G : σ → Prop) : Prop extends Dnssec.Env.Keeps env.toEnv G where
  instant : ∀ w, G w → G (env.instant w).2

variable {s : Resolver σ}

section World

variable {G : σ → Prop}

theorem Env.Keeps.after (hG : env.Keeps G) (h : G hop.before.world) : G (hop.after env).world :=
  hG.toKeeps.validateFull hop.target hop.qtype hop.msg hop.now h

theorem chase_keeps (hG : env.Keeps G) (key : Name × U16) (now : U32) (n : ℕ) :
    ∀ (target : Name) (records rrsigs : List Record) (verdict : Verdict) (s : Resolver σ),
      G s.chain.world → G (chase env key now n target records rrsigs verdict s).2.chain.world := by
  induction n using Nat.strong_induction_on with
  | _ n ih =>
    intro target records rrsigs verdict s h
    have hreply : G (s.chain.fetch env.toEnv target key.2).2.world := hG.fetch _ _ _ h
    rcases chase_cases env key now n target records rrsigs verdict s with
      ⟨-, hrun⟩ | ⟨hop, -, hfetch, hcase⟩
    · rw [hrun]
      exact hreply
    · rw [hfetch] at hreply
      have hafter := hG.after hreply
      rcases hcase with ⟨cn, next, rfl, -, hrun⟩ | ⟨cn, next, m, rfl, -, hrun⟩ | ⟨-, hrun⟩
      · rw [hrun]
        exact hafter
      · rw [hrun]
        exact ih m (by omega) _ _ _ _ _ hafter
      · rw [hrun]
        exact hG.instant _ hafter

theorem resolveValidated_keeps (hG : env.Keeps G) (qname : Name) (qtype : U16) (now : U32)
    (h : G s.chain.world) :
    G (resolveValidated env qname qtype now s).2.chain.world := by
  have hticked : G (ticked env s).world := hG.instant _ h
  rcases resolveValidated_cases env qname qtype now s with
    ⟨e, -, -, -, elapsed, v, -, hrun⟩ | ⟨chain, cache, hchain, -, hrun⟩
  · rw [hrun]
    exact hticked
  · rw [hrun]
    refine chase_keeps hG _ _ _ _ _ _ _ _ ?_
    rcases hchain with rfl | rfl
    · exact h
    · exact hticked

end World

/-! ## The rule -/

/-- `target` is `qname`, up to case, or was reached from it along the CNAMEs of
    logged hops. -/
inductive Reached (log : List (Hop σ)) (qname : Name) : Name → Prop
  | here {target : Name} (h : target.key = qname.key) : Reached log qname target
  | follow {hop : Hop σ} {cn : Record} {next : Name} (hmem : hop ∈ log)
      (hhop : Reached log qname hop.target)
      (hcn : hopCname hop.msg hop.target = some (cn, next)) : Reached log qname next

theorem Reached.mono {log' : List (Hop σ)} {qname target : Name} (hsub : ∀ h ∈ log, h ∈ log')
    (h : Reached log qname target) : Reached log' qname target := by
  induction h with
  | here h => exact .here h
  | follow hmem _ hcn ih => exact .follow (hsub _ hmem) ih hcn

theorem Reached.congr {q q' target : Name} (hq : q.key = q'.key)
    (h : Reached log q target) : Reached log q' target := by
  induction h with
  | here h => exact .here (h.trans hq)
  | follow hmem _ hcn ih => exact .follow hmem ih hcn

/-- A hop of the chase for `key`. -/
structure HopOf (log : List (Hop σ)) (key : Name × U16) (hop : Hop σ) : Prop where
  mem : hop ∈ log
  reached : Reached log key.1 hop.target
  qtype : hop.qtype = key.2

theorem HopOf.mono {log' : List (Hop σ)}
    (hsub : ∀ h ∈ log, h ∈ log') (h : HopOf log key hop) : HopOf log' key hop :=
  ⟨hsub _ h.mem, h.reached.mono hsub, h.qtype⟩

theorem HopOf.congr {k k' : Name × U16}
    (hk : sameKey k k' = true) (h : HopOf log k hop) : HopOf log k' hop := by
  simp only [sameKey, Bool.and_eq_true, decide_eq_true_eq, Name.eqIgnoreAsciiCase_iff] at hk
  exact ⟨h.mem, h.reached.congr hk.1, h.qtype.trans hk.2⟩

/-- `K` is an invariant of the CNAME loop for `key`, over the log and what was
    collected so far, and `J` follows from it for the answers the loop ends with. -/
structure Justifies (env : Env σ)
    (K : Name × U16 → List (Hop σ) → List Record → Verdict → Prop)
    (J : Name × U16 → List (Hop σ) → Validated → Prop) : Prop where
  start : ∀ key log, K key log [] .secure
  follow : ∀ {key log records verdict} {hop : Hop σ} {cn next},
    HopOf (hop :: log) key hop → K key log records verdict →
    hopCname hop.msg hop.target = some (cn, next) →
    K key (hop :: log) (records ++ [cn]) (worstVerdict verdict (hop.judgement env).1)
  refuse : ∀ {key log records} {hop : Hop σ} {cn next},
    HopOf (hop :: log) key hop → hopCname hop.msg hop.target = some (cn, next) →
    J key (hop :: log) ⟨records ++ [cn], [], [], hop.msg.header.rcodeLow, .bogus⟩
  finish : ∀ {key log records rrsigs verdict} {hop : Hop σ},
    HopOf (hop :: log) key hop → K key log records verdict →
    hopCname hop.msg hop.target = none →
    J key (hop :: log) (terminal hop.msg hop.target hop.qtype records rrsigs (hop.judgement env).2
      (worstVerdict verdict (hop.judgement env).1))
  mono : ∀ {key log v} {hop : Hop σ}, J key log v → J key (hop :: log) v
  congr : ∀ {key key' log v}, sameKey key key' = true → J key log v → J key' log v
  decay : ∀ {key log v elapsed} {c : CachedValidated}, J key log c.validated →
    c.cloneDecremented elapsed = some v → J key log v

/-- Every cached answer satisfies `J`. -/
def CacheAll (J : Name × U16 → List (Hop σ) → Validated → Prop) (s : Resolver σ) : Prop :=
  ∀ e ∈ s.validated, J e.1 s.log e.2.validated

section Rule

variable {K : Name × U16 → List (Hop σ) → List Record → Verdict → Prop}
  {J : Name × U16 → List (Hop σ) → Validated → Prop}

theorem mem_cacheValidated {cache : ValidatedCache} {now : U32} {i : ℕ}
    {e : (Name × U16) × CachedValidated}
    (h : e ∈ cacheValidated cache key now i v) :
    e ∈ cache ∨ (e.1 = key ∧ e.2.validated = v) := by
  unfold cacheValidated at h
  split_ifs at h
  · exact Or.inl h
  · exact Or.inl h
  · exact Or.inl h
  · rcases mem_cons.mp h with rfl | h
    · simp
    · exact Or.inl (mem_of_mem_filter h)

theorem CacheAll.log_cons {chain : State σ} (hJ : Justifies env K J)
    (h : CacheAll J s) :
    CacheAll J { s with chain := chain, log := hop :: s.log } :=
  fun e he => hJ.mono (h e he)

section

variable (hJ : Justifies env K J)
include hJ

/-- What the loop returns satisfies `J`, and so does what it caches. -/
theorem chase_justified (key : Name × U16) (now : U32) (n : ℕ) :
    ∀ (target : Name) (records rrsigs : List Record) (verdict : Verdict) (s : Resolver σ),
      Reached s.log key.1 target → K key s.log records verdict → CacheAll J s →
      (∀ v, (chase env key now n target records rrsigs verdict s).1 = some v →
        J key (chase env key now n target records rrsigs verdict s).2.log v) ∧
      CacheAll J (chase env key now n target records rrsigs verdict s).2 := by
  induction n using Nat.strong_induction_on with
  | _ n ih =>
    intro target records rrsigs verdict s hR hK hC
    rcases chase_cases env key now n target records rrsigs verdict s with
      ⟨-, hrun⟩ | ⟨hop, ⟨rfl, hqt, -⟩, -, h⟩
    · rw [hrun]
      exact ⟨by simp, hC⟩
    · have hhop : HopOf (hop :: s.log) key hop :=
        ⟨mem_cons_self, hR.mono fun _ h => mem_cons_of_mem _ h, hqt⟩
      rcases h with ⟨cn, next, rfl, hcn, hrun⟩ | ⟨cn, next, m, rfl, hcn, hrun⟩ | ⟨hcn, hrun⟩
      · rw [hrun]
        refine ⟨fun v hv => ?_, hC.log_cons hJ⟩
        cases hv
        exact hJ.refuse hhop hcn
      · rw [hrun]
        exact ih m (by omega) next _ _ _ _ (.follow hhop.mem hhop.reached hcn)
          (hJ.follow hhop hK hcn) (hC.log_cons hJ)
      · have hfin : J key (hop :: s.log)
            (terminal hop.msg hop.target hop.qtype records rrsigs _ _) := hJ.finish hhop hK hcn
        rw [hqt] at hfin
        rw [hrun]
        refine ⟨fun v hv => ?_, fun e he => ?_⟩
        · cases hv
          exact hfin
        · rcases mem_cacheValidated he with he | ⟨hkey, he⟩
          · exact hJ.mono (hC e he)
          · rw [hkey, he]; exact hfin

theorem resolveValidated_justified (qname : Name) (qtype : U16) (now : U32)
    (hC : CacheAll J s) :
    (∀ v, (resolveValidated env qname qtype now s).1 = some v →
      J (qname, qtype) (resolveValidated env qname qtype now s).2.log v) ∧
    CacheAll J (resolveValidated env qname qtype now s).2 := by
  rcases resolveValidated_cases env qname qtype now s with
    ⟨e, he, hkey, -, elapsed, v, hdec, hrun⟩ | ⟨chain, cache, -, hsub, hrun⟩
  · rw [hrun]
    refine ⟨fun v' hv' => ?_, hC⟩
    cases hv'
    exact hJ.congr hkey (hJ.decay (hC e he) hdec)
  · rw [hrun]
    exact chase_justified hJ _ _ _ _ _ _ _ _ (.here rfl) (hJ.start _ _)
      fun e he => hC e (hsub e he).1

theorem run_justified : ∀ (ops : List Op) {s : Resolver σ},
    CacheAll J s → CacheAll J (run env ops s) := by
  intro ops
  induction ops with
  | nil => intro s h; exact h
  | cons op ops ih =>
    intro s h
    refine ih ?_
    cases op with
    | query qname qtype now => exact (resolveValidated_justified hJ qname qtype now h).2
    | flush => intro e he; cases he

/-- Whatever queries and flushes came before, starting from empty caches, an answer
    that is served satisfies `J`. -/
theorem served_justified (ops : List Op) (w : σ) {qname : Name}
    {qtype : U16} {now : U32}
    (h : resolveValidated env qname qtype now (run env ops { chain := { world := w } }) = (some v, s)) :
    J (qname, qtype) s.log v := by
  have hinit : CacheAll J ({ chain := { world := w } } : Resolver σ) := fun e he => by cases he
  have hserved := (resolveValidated_justified hJ qname qtype now (run_justified hJ ops hinit)).1
  rw [h] at hserved
  exact hserved v rfl

end

end Rule

/-! ## Decay -/

/-- Two records that differ at most in their TTL. -/
def SameButTtl (a b : Record) : Prop :=
  a.name = b.name ∧ a.rtype = b.rtype ∧ a.rclass = b.rclass ∧ a.rdata = b.rdata

theorem SameButTtl.refl (a : Record) : SameButTtl a a := ⟨rfl, rfl, rfl, rfl⟩

theorem SameButTtl.trans {a b c : Record} (h : SameButTtl a b) (h' : SameButTtl b c) :
    SameButTtl a c :=
  ⟨h.1.trans h'.1, h.2.1.trans h'.2.1, h.2.2.1.trans h'.2.2.1, h.2.2.2.trans h'.2.2.2⟩

/-- Two answers that differ at most in TTLs. -/
structure UpToTtl (v v' : Validated) : Prop where
  records : List.Forall₂ SameButTtl v.records v'.records
  authority : List.Forall₂ SameButTtl v.authority v'.authority
  rcode : v.rcode = v'.rcode
  verdict : v.verdict = v'.verdict

theorem UpToTtl.refl (v : Validated) : UpToTtl v v :=
  ⟨forall₂_same.mpr fun r _ => .refl r, forall₂_same.mpr fun r _ => .refl r, rfl, rfl⟩

theorem forall₂_sameButTtl_trans : ∀ {a b c : List Record}, List.Forall₂ SameButTtl a b →
    List.Forall₂ SameButTtl b c → List.Forall₂ SameButTtl a c := by
  intro a b c hab
  induction hab generalizing c with
  | nil => intro h; exact h
  | cons h _ ih =>
    intro hbc
    cases hbc with
    | cons h' ht => exact .cons (h.trans h') (ih ht)

theorem UpToTtl.trans {a b c : Validated} (h : UpToTtl a b) (h' : UpToTtl b c) : UpToTtl a c :=
  ⟨forall₂_sameButTtl_trans h.records h'.records,
    forall₂_sameButTtl_trans h.authority h'.authority, h.rcode.trans h'.rcode,
    h.verdict.trans h'.verdict⟩

theorem decTtls_sameButTtl {elapsed : U32} : ∀ {rs out : List Record},
    decTtls elapsed rs = some out → List.Forall₂ SameButTtl out rs := by
  intro rs
  induction rs with
  | nil => intro out h; cases h; exact .nil
  | cons a rs ih =>
    intro out h
    rw [decTtls] at h
    split_ifs at h with hlt
    obtain ⟨out, hout, rfl⟩ := map_eq_some_iff.mp h
    exact .cons ⟨rfl, rfl, rfl, rfl⟩ (ih hout)

theorem cloneDecremented_upToTtl {c : CachedValidated} {elapsed : U32}
    (h : c.cloneDecremented elapsed = some v) : UpToTtl v c.validated := by
  obtain ⟨r1, h1, h⟩ := bind_eq_some_iff.mp h
  obtain ⟨r2, h2, h⟩ := bind_eq_some_iff.mp h
  obtain ⟨r3, h3, h⟩ := bind_eq_some_iff.mp h
  cases h
  exact ⟨decTtls_sameButTtl h1, decTtls_sameButTtl h3, rfl, rfl⟩

/-! ## Where an answer comes from -/

/-- `v` is, up to TTLs, what the chase made of `hop`, the last one it judged. -/
def EndedBy (env : Env σ) (hop : Hop σ) (v : Validated) : Prop :=
  ∃ v', UpToTtl v v' ∧
    ((v'.verdict = .bogus ∧ v'.rcode = hop.msg.header.rcodeLow) ∨
      (hopCname hop.msg hop.target = none ∧ ∃ records rrsigs verdict,
        v' = terminal hop.msg hop.target hop.qtype records rrsigs (hop.judgement env).2
          (worstVerdict verdict (hop.judgement env).1)))

theorem endedBy_justifies : Justifies env (fun _ _ _ _ => True)
    (fun key log v => ∃ hop, HopOf log key hop ∧ EndedBy env hop v) where
  start _ _ := trivial
  follow _ _ _ := trivial
  refuse hhop _ := ⟨_, hhop, _, .refl _, Or.inl ⟨rfl, rfl⟩⟩
  finish hhop _ hcn := ⟨_, hhop, _, .refl _, Or.inr ⟨hcn, _, _, _, rfl⟩⟩
  mono := fun ⟨hop, hhop, h⟩ => ⟨hop, hhop.mono fun _ h => mem_cons_of_mem _ h, h⟩
  congr := fun hk ⟨hop, hhop, h⟩ => ⟨hop, hhop.congr hk, h⟩
  decay := fun ⟨hop, hhop, v', hv', h⟩ hdec =>
    ⟨hop, hhop, v', (cloneDecremented_upToTtl hdec).trans hv', h⟩

theorem worstVerdict_secure {a b : Verdict} (h : worstVerdict a b = .secure) :
    a = .secure ∧ b = .secure := by
  cases a <;> cases b <;> simp_all [worstVerdict]

end Runbound.Recursor
