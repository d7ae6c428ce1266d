import Runbound.Server.Failure

/-!
# How long negative results live

Two caches keep the negative results of full recursion. `cache_validated` takes the smallest
TTL of the records and of the authority, the time to the expiration of the signatures, and a
day; it does not read the MINIMUM field of the SOA, and without any TTL it takes the day.
`maybe_cache_negative` takes the smaller of TTL and MINIMUM of the first SOA and raises it to
`cache-min-ttl`.

* `cacheTtl_le_iff`: the lifetime `cache_validated` gives, as a condition on the records.
* `negativeLifetime_iff`: for every negative result of every run, both lifetimes stay within
  those that an enclosing SOA allows exactly under a condition on the SOAs and the settings.
* `minimum_ignored`: NXDOMAIN with MINIMUM 60 is kept for an hour, NODATA without SOA for a day.
-/

namespace Runbound.Server

open Wire Recursor FastPath Lib List Rtype Rcode
open Dnssec hiding Env

/-! ## The lifetime of a validated answer -/

/-- Something bounds the lifetime of `v` by `m` seconds: the cap of a day, the TTL of a record,
    or the expiration of a signature. -/
def LivesAtMost (now : U32) (v : Validated) (m : U32) : Prop :=
  validatedCacheTtlCap ≤ m ∨ (∃ r ∈ v.records ++ v.authority, r.ttl ≤ m) ∨
    ∃ r ∈ v.answerRrsigs ++ v.authority, r.rtype = RRSIG ∧
      ∃ data, r.rdata.data? = some data ∧ rrsigSecs now data ≤ m

theorem foldl_min_le_iff (ttls : List U32) (t m : U32) :
    ttls.foldl min t ≤ m ↔ t ≤ m ∨ ∃ x ∈ ttls, x ≤ m := by
  induction ttls generalizing t with
  | nil => simp
  | cons x ttls ih =>
    rw [foldl_cons, ih, min_le_iff]
    simp only [mem_cons, exists_eq_or_imp]
    tauto

variable {authority : List Record} {m : U32}

theorem min?_le_iff {xs : List U32} {x : U32} (h : xs.min? = some x) : x ≤ m ↔ ∃ y ∈ xs, y ≤ m := by
  obtain ⟨hx, hmin⟩ := min?_eq_some_iff.mp h
  constructor
  · intro hm
    exact ⟨x, hx, hm⟩
  · rintro ⟨y, hy, hym⟩
    exact (hmin y hy).trans hym

/-- What `nearest_rrsig_secs` takes the minimum of. -/
def signatureSecs (sigs authority : List Record) (now : U32) : List U32 :=
  ((sigs ++ authority).filter fun r => r.rtype = RRSIG).filterMap
    fun r => r.rdata.data?.map (rrsigSecs now)

theorem mem_signatureSecs {sigs : List Record} {now y : U32} :
    y ∈ signatureSecs sigs authority now ↔ ∃ r ∈ sigs ++ authority, r.rtype = RRSIG ∧
      ∃ data, r.rdata.data? = some data ∧ rrsigSecs now data = y := by
  simp only [signatureSecs, mem_filterMap, mem_filter, decide_eq_true_eq,
    Option.map_eq_some_iff, and_assoc]

theorem exists_signatureSecs_le {sigs : List Record} {now : U32} :
    (∃ y ∈ signatureSecs sigs authority now, y ≤ m) ↔
      ∃ r ∈ sigs ++ authority, r.rtype = RRSIG ∧
        ∃ data, r.rdata.data? = some data ∧ rrsigSecs now data ≤ m := by
  simp only [mem_signatureSecs]
  constructor
  · rintro ⟨y, ⟨r, hr, ht, data, hdata, rfl⟩, hm⟩
    exact ⟨r, hr, ht, data, hdata, hm⟩
  · rintro ⟨r, hr, ht, data, hdata, hm⟩
    exact ⟨_, ⟨r, hr, ht, data, hdata, rfl⟩, hm⟩

theorem le_of_u32Max_le (h : u32Max ≤ m) : validatedCacheTtlCap ≤ m :=
  (show validatedCacheTtlCap ≤ u32Max by decide).trans h

theorem min_cap_le_iff (t m : U32) :
    min (if t = u32Max then validatedCacheTtlCap else t) validatedCacheTtlCap ≤ m ↔
      validatedCacheTtlCap ≤ m ∨ t ≤ m := by
  split_ifs with h
  · rw [min_self]
    constructor
    · exact Or.inl
    · rintro (hm | hm)
      · exact hm
      · exact le_of_u32Max_le (h ▸ hm)
  · rw [min_le_iff, or_comm]

theorem cacheTtl_le_iff (now : U32) (v : Validated) (m : U32) :
    cacheTtl now v ≤ m ↔ LivesAtMost now v m := by
  have hfold : ((v.records ++ v.authority).map Record.ttl).foldl min u32Max ≤ m ↔
      u32Max ≤ m ∨ ∃ r ∈ v.records ++ v.authority, r.ttl ≤ m := by
    rw [foldl_min_le_iff]
    simp only [mem_map, exists_exists_and_eq_and]
  rw [LivesAtMost, ← exists_signatureSecs_le]
  unfold cacheTtl
  cases hsig : nearestRrsigSecs v.answerRrsigs v.authority now with
  | none =>
    have hnil : signatureSecs v.answerRrsigs v.authority now = [] := min?_eq_none_iff.mp hsig
    simp only [hnil, not_mem_nil, false_and, exists_false, or_false]
    rw [min_cap_le_iff, hfold]
    constructor
    · rintro (h | h | h)
      · exact Or.inl h
      · exact Or.inl (le_of_u32Max_le h)
      · exact Or.inr h
    · rintro (h | h)
      · exact Or.inl h
      · exact Or.inr (Or.inr h)
  | some x =>
    have hx : x ≤ m ↔ ∃ y ∈ signatureSecs v.answerRrsigs v.authority now, y ≤ m := min?_le_iff hsig
    rw [min_cap_le_iff, min_le_iff, hfold, hx]
    constructor
    · rintro (h | (h | h) | h)
      · exact Or.inl h
      · exact Or.inl (le_of_u32Max_le h)
      · exact Or.inr (Or.inl h)
      · exact Or.inr (Or.inr h)
    · rintro (h | h | h)
      · exact Or.inl h
      · exact Or.inr (Or.inl (Or.inr h))
      · exact Or.inr (Or.inr h)

/-! ## The SOA records -/

/-- How long a SOA record lets a negative answer live. -/
def soaBound (r : Record) : Option U32 :=
  match r.rdata with
  | .soa _ _ _ _ _ _ minimum => some (min minimum r.ttl)
  | _ => none

/-- The bounds of the SOA records of an authority section. -/
def soaBounds (authority : List Record) : List U32 := authority.filterMap soaBound

theorem negTtlFromSoa_eq (authority : List Record) :
    negTtlFromSoa authority = ((soaBounds authority).head?).getD 0 := by
  rw [soaBounds, head?_filterMap]
  rfl

/-- The SOA records of the authority are those of zones that enclose `n`. -/
def SoasEnclose (n : Name) (authority : List Record) : Prop :=
  ∀ r ∈ authority, ∀ m, soaBound r = some m → n.isInZone r.name = true

/-- Some SOA of a zone that encloses `n` allows a lifetime of `secs` seconds. -/
def Allowed (n : Name) (authority : List Record) (secs : ℕ) : Prop :=
  ∃ r ∈ authority, n.isInZone r.name = true ∧ ∃ m, soaBound r = some m ∧ secs ≤ m.val

theorem allowed_iff {n : Name} (h : SoasEnclose n authority) (t : U32) :
    Allowed n authority t.val ↔ ∃ m ∈ soaBounds authority, t ≤ m := by
  simp only [soaBounds, mem_filterMap]
  constructor
  · rintro ⟨r, hr, -, m, hm, ht⟩
    exact ⟨m, ⟨r, hr, hm⟩, ht⟩
  · rintro ⟨m, ⟨r, hr, hm⟩, ht⟩
    exact ⟨r, hr, h r hr m hm, m, hm, ht⟩

theorem rtype_of_soaBound {r : Record} (h : soaBound r = some m) : r.rtype = SOA := by
  have hp := r.parsed
  unfold soaBound at h
  cases hrd : r.rdata with
  | soa =>
    rw [hrd] at hp
    exact (of_decide_eq_true hp).symm
  | _ => rw [hrd] at h; cases h

variable {σ : Type} {env : Env σ}

theorem judgement_encloses (hop : Hop σ) : SoasEnclose hop.target (hop.judgement env).2 := by
  intro r hr m hm
  have hsoa := rtype_of_soaBound hm
  have hinsecure : r ∈ inbailiwickSoa hop.msg hop.target → hop.target.isInZone r.name = true := by
    intro h
    simp only [inbailiwickSoa, mem_filter, Bool.and_eq_true] at h
    exact h.2.2
  unfold Hop.judgement validateFull at hr
  cases hz : signingZone hop.msg hop.target with
  | none =>
    simp only [hz] at hr
    split at hr
    · exact hinsecure hr
    · cases hr
  | some zone =>
    simp only [hz] at hr
    split at hr
    · cases hr
    · exact hinsecure hr
    · unfold judge at hr
      split at hr
      · cases hr
      · split_ifs at hr
        · rcases mem_append.mp hr with h | h
          · split_ifs at h
            · have hname := Name.eqIgnoreAsciiCase_iff.mp (mem_rrset.mp h).2.2
              have hin := Name.isInZone_iff.mp (signingZone_isInZone hz)
              rw [← hname] at hin
              exact Name.isInZone_iff.mpr hin
            · cases h
          · simp [hsoa, SOA, NSEC, NSEC3, RRSIG] at h
        · cases hr

/-! ## The lifetimes -/

/-- Whatever the caches hold, what they keep of the result `v` about `n` lives no longer than
    some SOA of a zone that encloses `n` allows. -/
structure Obeys (cfg : CacheCfg) (now : U32) (n : Name) (v : Validated) : Prop where
  validated : ∀ (key : Name × U16) (cache : ValidatedCache) (i : ℕ) (e : CachedValidated),
    (key, e) ∈ cacheValidated cache key now i v → (key, e) ∉ cache →
      ∃ secs, e.expiresAt = e.insertedAt + secs * nanos ∧ Allowed n v.authority secs
  shared : ∀ (hw : Bool) (instant : ℕ) (msg : Message) (q : Question) (cache : CacheMap) (k : U64)
    (e : CacheEntry), (serveRecursion hw cfg instant msg q (some v) cache).2.lookup k = some e →
      cache.lookup k ≠ some e → ∃ secs, e.expiresAt = instant + secs ∧ Allowed n v.authority secs

section

variable {cfg : CacheCfg} {now : U32} {n : Name} {v : Validated}

/-- The entry that `cache_validated` makes, if it makes one. -/
theorem mem_cacheValidated_new {cache : ValidatedCache} {key : Name × U16} {i : ℕ}
    {e : CachedValidated} (h : (key, e) ∈ cacheValidated cache key now i v)
    (hnew : (key, e) ∉ cache) :
    v.verdict ≠ .bogus ∧ cacheTtl now v ≠ 0 ∧ e = ⟨v, i, i + (cacheTtl now v).val * nanos⟩ := by
  unfold cacheValidated at h
  split_ifs at h with hv hz hfull
  · exact absurd h hnew
  · exact absurd h hnew
  · exact absurd h hnew
  · rcases mem_cons.mp h with h | h
    · exact ⟨hv, hz, (Prod.mk.inj h).2⟩
    · exact absurd (mem_of_mem_filter h) hnew

theorem cacheValidated_nil (hv : v.verdict ≠ .bogus) (hz : cacheTtl now v ≠ 0)
    (key : Name × U16) :
    (key, ⟨v, 0, 0 + (cacheTtl now v).val * nanos⟩) ∈ cacheValidated [] key now 0 v := by
  rw [cacheValidated, if_neg hv, if_neg hz]
  exact mem_cons_self

theorem obeys_validated_iff (hv : v.verdict ≠ .bogus) :
    (∀ (key : Name × U16) (cache : ValidatedCache) (i : ℕ) (e : CachedValidated),
      (key, e) ∈ cacheValidated cache key now i v → (key, e) ∉ cache →
        ∃ secs, e.expiresAt = e.insertedAt + secs * nanos ∧ Allowed n v.authority secs) ↔
      cacheTtl now v = 0 ∨ Allowed n v.authority (cacheTtl now v).val := by
  constructor
  · intro h
    by_cases hz : cacheTtl now v = 0
    · exact Or.inl hz
    · have hmem := cacheValidated_nil hv hz (Name.root, 0)
      obtain ⟨secs, hsecs, hallowed⟩ := h _ _ _ _ hmem (by simp)
      have heq : (cacheTtl now v).val = secs := by
        simp only [nanos] at hsecs
        omega
      exact Or.inr (heq ▸ hallowed)
  · intro h key cache i e hmem hnew
    obtain ⟨-, hz, rfl⟩ := mem_cacheValidated_new hmem hnew
    exact ⟨_, rfl, h.resolve_left hz⟩

variable (cfg) in
/-- What `serve_wire` stores of a negative result. -/
theorem serveRecursion_negative (hv : v.verdict ≠ .bogus)
    (hneg : v.rcode = NXDOMAIN ∨ v.records = []) (hw : Bool) (instant : ℕ) (msg : Message)
    (q : Question) (cache : CacheMap) :
    ∃ resp, resp ≠ [] ∧ (serveRecursion hw cfg instant msg q (some v) cache).2 =
      maybeCacheNegative hw cfg instant q resp (negTtlFromSoa v.authority) cache := by
  have hstore : ∀ rc, (serveNegative hw cfg instant msg q rc v cache).2 =
      maybeCacheNegative hw cfg instant q (wireNegative msg rc v.authority false)
        (negTtlFromSoa v.authority) cache := fun rc => if_neg hv
  have hne : ∀ rc, wireNegative msg rc v.authority false ≠ [] := fun rc => encode_ne_nil _
  unfold serveRecursion
  simp only [hv]
  by_cases hrc : v.rcode = NXDOMAIN
  · rw [if_pos hrc]
    exact ⟨_, hne _, hstore _⟩
  · rw [if_neg hrc, if_pos (hneg.resolve_left hrc)]
    exact ⟨_, hne _, hstore _⟩

/-- A cache that has an older entry for the question takes the new one. -/
theorem exists_storeFor_new (cfg : CacheCfg) (ttl : U32) :
    ∃ (q : Question) (cache : CacheMap) (k : U64), ∀ resp, resp ≠ [] →
      ∃ e, (storeFor true cfg 0 q resp ttl cache).lookup k = some e ∧ cache.lookup k ≠ some e ∧
        e.expiresAt = ttl.val := by
  let q : Question := ⟨Name.root, 0, 0⟩
  let key := cacheKey true (normalizeQueryQname q.name.wire) q.qtype
  let cache : CacheMap := (∅ : CacheMap).insert key ⟨[], 0, []⟩
  have hmem : key ∈ cache := (AList.mem_insert _).mpr (Or.inl rfl)
  have hold : cache.lookup key = some ⟨[], 0, []⟩ := AList.lookup_insert _
  refine ⟨q, cache, key, fun resp hresp => ?_⟩
  refine ⟨⟨resp, 0 + ttl.val, normalizeQueryQname q.name.wire⟩, ?_, ?_, Nat.zero_add _⟩
  · rw [storeFor, cacheInsert, if_neg fun hfull => hfull.2 hmem, AList.lookup_insert]
  · rw [hold]
    intro heq
    exact hresp (congrArg CacheEntry.wirePayload (Option.some.inj heq)).symm

theorem obeys_shared_iff (hv : v.verdict ≠ .bogus)
    (hneg : v.rcode = NXDOMAIN ∨ v.records = []) :
    (∀ (hw : Bool) (instant : ℕ) (msg : Message) (q : Question) (cache : CacheMap) (k : U64)
      (e : CacheEntry), (serveRecursion hw cfg instant msg q (some v) cache).2.lookup k = some e →
        cache.lookup k ≠ some e →
          ∃ secs, e.expiresAt = instant + secs ∧ Allowed n v.authority secs) ↔
      negTtlFromSoa v.authority = 0 ∨
        Allowed n v.authority (negativeTtl cfg (negTtlFromSoa v.authority)).val := by
  constructor
  · intro h
    by_cases hz : negTtlFromSoa v.authority = 0
    · exact Or.inl hz
    · obtain ⟨q, cache, k, hnew⟩ :=
        exists_storeFor_new cfg (negativeTtl cfg (negTtlFromSoa v.authority))
      obtain ⟨resp, hresp, hstore⟩ := serveRecursion_negative cfg hv hneg true 0 {} q cache
      rw [maybeCacheNegative, if_neg (by simp [hz, hresp])] at hstore
      obtain ⟨e, hl, hother, hexpires⟩ := hnew resp hresp
      rw [← hstore] at hl
      obtain ⟨secs, hsecs, hallowed⟩ := h _ _ _ _ _ _ _ hl hother
      obtain rfl : (negativeTtl cfg (negTtlFromSoa v.authority)).val = secs := by
        omega
      exact Or.inr hallowed
  · intro h hw instant msg q cache k e hl hnew
    obtain ⟨resp, -, hstore⟩ := serveRecursion_negative cfg hv hneg hw instant msg q cache
    rw [hstore, maybeCacheNegative] at hl
    split_ifs at hl with hz
    · exact absurd hl hnew
    · rcases lookup_cacheInsert hl with ⟨-, rfl⟩ | hl
      · exact ⟨_, rfl, h.resolve_left fun h => hz (Or.inl h)⟩
      · exact absurd hl hnew

end

/-! ## Results of full recursion -/

/-- A bound of the validated answer is no longer than some SOA allows, or is zero. -/
def WithinSoas (now : U32) (v : Validated) : Prop :=
  LivesAtMost now v 0 ∨ ∃ m ∈ soaBounds v.authority, LivesAtMost now v m

/-- The first SOA allows nothing, or the settings and some SOA leave room for its bound. -/
def ClampWithinSoas (cfg : CacheCfg) (v : Validated) : Prop :=
  ∀ b, (soaBounds v.authority).head? = some b → b = 0 ∨
    ∃ m ∈ soaBounds v.authority, b ≤ m ∧ cfg.minTtl ≤ m ∨ cfg.maxTtl ≤ m ∨ negCacheMaxTtl ≤ m

section

variable {cfg : CacheCfg} {now : U32} {n : Name} {v : Validated}

theorem clampWithinSoas_iff (henc : SoasEnclose n v.authority) :
    ClampWithinSoas cfg v ↔ negTtlFromSoa v.authority = 0 ∨
      Allowed n v.authority (negativeTtl cfg (negTtlFromSoa v.authority)).val := by
  simp only [allowed_iff henc, negativeTtl_le_iff, negTtlFromSoa_eq, ClampWithinSoas]
  cases (soaBounds v.authority).head? with
  | none => simp
  | some b => simp

theorem serveRecursion_bogus_cache (hv : v.verdict = .bogus) (hw : Bool) (instant : ℕ)
    (msg : Message) (q : Question) (cache : CacheMap) :
    (serveRecursion hw cfg instant msg q (some v) cache).2 = cache := by
  unfold serveRecursion
  simp only
  split_ifs
  · rfl
  · exact if_pos hv
  · exact if_pos hv
  · exact if_pos hv

theorem obeys_iff (henc : v.verdict ≠ .bogus → SoasEnclose n v.authority)
    (hneg : v.rcode = NXDOMAIN ∨ v.records = []) :
    Obeys cfg now n v ↔ v.verdict = .bogus ∨ WithinSoas now v ∧ ClampWithinSoas cfg v := by
  by_cases hv : v.verdict = .bogus
  · refine iff_of_true ⟨fun key cache i e hmem hnew => ?_,
      fun hw instant msg q cache k e hl hnew => ?_⟩ (Or.inl hv)
    · exact absurd hv (mem_cacheValidated_new hmem hnew).1
    · rw [serveRecursion_bogus_cache hv] at hl
      exact absurd hl hnew
  · have henc := henc hv
    have hzero : cacheTtl now v = 0 ↔ LivesAtMost now v 0 := by
      rw [← cacheTtl_le_iff]
      exact Fin.le_zero_iff.symm
    have hwithin : WithinSoas now v ↔
        cacheTtl now v = 0 ∨ Allowed n v.authority (cacheTtl now v).val := by
      simp only [WithinSoas, allowed_iff henc, hzero, cacheTtl_le_iff]
    rw [hwithin, clampWithinSoas_iff henc, ← obeys_validated_iff hv, ← obeys_shared_iff hv hneg]
    constructor
    · intro h
      exact Or.inr ⟨h.validated, h.shared⟩
    · rintro (h | ⟨h1, h2⟩)
      · exact absurd h hv
      · exact ⟨h1, h2⟩

end

theorem endedBy_encloses {hop : Hop σ} {v : Validated} (h : EndedBy env hop v)
    (hv : v.verdict ≠ .bogus) : SoasEnclose hop.target v.authority := by
  obtain ⟨v', hup, ⟨hbogus, -⟩ | ⟨-, records, rrsigs, verdict, rfl⟩⟩ := h
  · exact absurd (hup.verdict.trans hbogus) hv
  · intro r hr m hm
    obtain ⟨r', hr', hname, -, -, hdata⟩ := exists_of_forall₂ hup.authority hr
    rw [hname]
    have hbound : ∃ m', soaBound r' = some m' := by
      unfold soaBound at hm ⊢
      rw [← hdata]
      cases hrd : r.rdata with
      | soa => exact ⟨_, rfl⟩
      | _ => rw [hrd] at hm; cases hm
    obtain ⟨m', hm'⟩ := hbound
    exact judgement_encloses hop r' hr' m' hm'

/-- After any run from empty caches, for every negative result: what the two caches keep of it
    lives no longer than a SOA that encloses the name it is about allows, exactly if the
    result is bogus, or the SOA records and the settings are such. -/
theorem negativeLifetime_iff (ops : List Op) (w : σ) (cfg : CacheCfg) {qname : Name} {qtype : U16}
    {now : U32} {v : Validated} {s : Resolver σ}
    (h : resolveValidated env qname qtype now (run env ops { chain := { world := w } }) =
      (some v, s)) (hneg : v.rcode = NXDOMAIN ∨ v.records = []) :
    ∃ hop, HopOf s.log (qname, qtype) hop ∧ EndedBy env hop v ∧
      (Obeys cfg now hop.target v ↔
        v.verdict = .bogus ∨ WithinSoas now v ∧ ClampWithinSoas cfg v) := by
  obtain ⟨hop, hhop, hend⟩ := served_justified endedBy_justifies ops w h
  exact ⟨hop, hhop, hend, obeys_iff (endedBy_encloses hend) hneg⟩

/-! ## MINIMUM and a missing SOA -/

/-- NOERROR without records -/
def emptyReply : Message where
  header := { flags := 0x8400 }

/-- NXDOMAIN with `a. 3600 SOA`, MINIMUM 60 -/
def minimumReply : Message where
  header := { flags := 0x8403 }
  authority := [⟨nameA, SOA, Class.IN, 3600, .soa nameB nameB 1 7200 3600 86400 60, by decide⟩]

/-- The resolution of `a. A` in an unsigned zone. -/
def unsignedResolution (reply : Message) : Option Validated × Resolver Unit :=
  resolveValidated (unsignedEnv reply) nameA Rtype.A 1500
    (run (unsignedEnv reply) [] { chain := { world := () } })

theorem negativeLifetime_empty :
    ∃ hop, HopOf (unsignedResolution emptyReply).2.log (nameA, Rtype.A) hop ∧
      EndedBy (unsignedEnv emptyReply) hop ⟨[], [], [], 0, .insecure⟩ ∧
      (Obeys plainHandler.cache 1500 hop.target ⟨[], [], [], 0, .insecure⟩ ↔
        (⟨[], [], [], 0, .insecure⟩ : Validated).verdict = .bogus ∨
          WithinSoas 1500 ⟨[], [], [], 0, .insecure⟩ ∧
            ClampWithinSoas plainHandler.cache ⟨[], [], [], 0, .insecure⟩) := by
  have hval : (unsignedResolution emptyReply).1 = some ⟨[], [], [], 0, .insecure⟩ := by
    decide +kernel
  exact negativeLifetime_iff [] () plainHandler.cache
    (show unsignedResolution emptyReply = (some _, _) from Prod.ext hval rfl) (Or.inr rfl)

/-- The SOA of `a.` allows a minute; `cache_validated` keeps the NXDOMAIN for an hour. It keeps
    the reply without SOA for a day. -/
theorem minimum_ignored :
    (unsignedResolution minimumReply).1 =
      some ⟨[], [], minimumReply.authority, NXDOMAIN, .insecure⟩ ∧
    minimumReply.authority.map soaBound = [some 60] ∧
    ((unsignedResolution minimumReply).2.validated.map fun e => (e.1, e.2.expiresAt)) =
      [((nameA, Rtype.A), 3600 * nanos)] ∧
    ((unsignedResolution emptyReply).2.validated.map fun e => (e.1, e.2.expiresAt)) =
      [((nameA, Rtype.A), 86400 * nanos)] ∧
    ¬ Obeys plainHandler.cache 1500 nameA
      ⟨[], [], minimumReply.authority, NXDOMAIN, .insecure⟩ := by
  refine ⟨by decide +kernel, by decide +kernel, by decide +kernel, by decide +kernel, fun h => ?_⟩
  obtain hz | ⟨r, hr, -, m, hm, hle⟩ := 
    (obeys_validated_iff (show Verdict.insecure ≠ .bogus by decide)).mp h.validated
  · contradiction
  · obtain rfl := mem_singleton.mp hr
    obtain rfl := Option.some.inj hm
    revert hle
    decide +kernel

end Runbound.Server
