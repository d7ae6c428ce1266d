import Runbound.Server.NegativeTtl

/-!
# Copies of an answer after its signatures expired

A secure answer of full recursion is kept twice. `cache_validated` counts the time to the
expiration of the signatures, but from the time the query began, and gives that much from
the time it is done. `maybe_cache_wire` and `maybe_cache_negative` do not look at the
signatures, and raise the lifetime to `cache-min-ttl`.

* `servedAt_eq_some_iff`: the answers `resolve_validated` serves from its cache.
* `rawDies_iff`: when what `serve_wire` stores is gone in time.
* `diesWithSignatures_iff`: when no copy of an answer outlives its signatures.
-/

namespace Runbound.Server

open Wire Recursor FastPath Lib List Rcode Class Option
open Dnssec hiding Env

/-! ## Copies in the cache of validated answers -/

/-- What a hit returns at an instant (recursor_wire.rs:861-868). -/
def servedAt (hit : CachedValidated) (instant : ℕ) : Option Validated :=
  if hit.expiresAt > instant then
    hit.cloneDecremented (Fin.ofNat _ (min ((instant - hit.insertedAt) / nanos) u32Max.val))
  else none

/-- The answer with its TTLs lowered. -/
def decremented (s : U32) (v : Validated) : Validated :=
  { v with
    records := v.records.map fun r => { r with ttl := r.ttl - s }
    answerRrsigs := v.answerRrsigs.map fun r => { r with ttl := r.ttl - s }
    authority := v.authority.map fun r => { r with ttl := r.ttl - s } }

/-- How long `cache_validated` lets the answer be served: its own bound, and the TTLs of the
    signatures. -/
def servedLife (now : U32) (v : Validated) : U32 :=
  (v.answerRrsigs.map Record.ttl).foldl min (cacheTtl now v)

theorem decTtls_eq (s : U32) (rs : List Record) :
    decTtls s rs = if ∀ r ∈ rs, s < r.ttl then
      some (rs.map fun r => { r with ttl := r.ttl - s }) else none := by
  induction rs with
  | nil => rfl
  | cons r rs ih =>
    rw [decTtls, ih]
    simp only [forall_mem_cons]
    split_ifs with h1 h2 h3 h3 h3
    · rfl
    · exact absurd ⟨h1, h2⟩ h3
    · exact absurd h3.2 h2
    · rfl
    · exact absurd h3.1 h1
    · rfl

theorem cloneDecremented_eq_some_iff {c : CachedValidated} {s : U32} {v' : Validated} :
    c.cloneDecremented s = some v' ↔
      (∀ r ∈ c.validated.records ++ c.validated.answerRrsigs ++ c.validated.authority, s < r.ttl) ∧
        v' = decremented s c.validated := by
  unfold CachedValidated.cloneDecremented
  rw [decTtls_eq, decTtls_eq, decTtls_eq]
  simp only [forall_mem_append]
  by_cases h1 : ∀ r ∈ c.validated.records, s < r.ttl
  · by_cases h2 : ∀ r ∈ c.validated.answerRrsigs, s < r.ttl
    · by_cases h3 : ∀ r ∈ c.validated.authority, s < r.ttl
      · rw [if_pos h1, if_pos h2, if_pos h3]
        constructor
        · intro h
          cases h
          exact ⟨⟨⟨h1, h2⟩, h3⟩, rfl⟩
        · rintro ⟨-, rfl⟩
          rfl
      · rw [if_pos h1, if_pos h2, if_neg h3]
        exact iff_of_false (some_ne_none v').symm fun h => h3 h.1.2
    · rw [if_pos h1, if_neg h2]
      exact iff_of_false (some_ne_none v').symm fun h => h2 h.1.1.2
  · rw [if_neg h1]
    exact iff_of_false (some_ne_none v').symm fun h => h1 h.1.1.1

variable {now : U32} {v : Validated}

theorem lt_servedLife_iff {s : U32} :
    s < servedLife now v ↔ s < cacheTtl now v ∧ ∀ r ∈ v.answerRrsigs, s < r.ttl := by
  rw [← not_le, servedLife, foldl_min_le_iff]
  simp

theorem cacheTtl_le_ttl {r : Record} (hr : r ∈ v.records ++ v.authority) : cacheTtl now v ≤ r.ttl :=
  (cacheTtl_le_iff now v r.ttl).mpr (Or.inr (Or.inl ⟨r, hr, le_rfl⟩))

/-- A copy is served as long as its lifetime lasts, with its TTLs lowered. -/
theorem servedAt_eq_some_iff {v' : Validated} {i j : ℕ} (hij : i ≤ j) :
    servedAt ⟨v, i, i + (cacheTtl now v).val * nanos⟩ j = some v' ↔
      ∃ s : U32, s.val = (j - i) / nanos ∧ s < servedLife now v ∧ v' = decremented s v := by
  have hnanos : 0 < nanos := by decide
  have hlive : i + (cacheTtl now v).val * nanos > j ↔ (j - i) / nanos < (cacheTtl now v).val := by
    rw [Nat.div_lt_iff_lt_mul hnanos]
    omega
  unfold servedAt
  simp only [hlive]
  by_cases hlt : (j - i) / nanos < (cacheTtl now v).val
  · rw [if_pos hlt]
    have hmax : (j - i) / nanos < 4294967296 := hlt.trans (cacheTtl now v).isLt
    have helapsed : (Fin.ofNat 4294967296 (min ((j - i) / nanos) u32Max.val)) =
        (⟨(j - i) / nanos, hmax⟩ : U32) := by
      have hu : u32Max.val = 4294967295 := rfl
      ext
      rw [Fin.val_ofNat, Nat.min_eq_left (by omega), Nat.mod_eq_of_lt hmax]
    rw [helapsed, cloneDecremented_eq_some_iff]
    have hbound : ∀ r ∈ v.records ++ v.authority, (⟨(j - i) / nanos, hmax⟩ : U32) < r.ttl :=
      fun r hr => lt_of_lt_of_le (show (⟨(j - i) / nanos, hmax⟩ : U32) < cacheTtl now v from hlt)
        (cacheTtl_le_ttl hr)
    constructor
    · rintro ⟨hall, rfl⟩
      refine ⟨⟨(j - i) / nanos, hmax⟩, rfl, lt_servedLife_iff.mpr ⟨hlt, fun r hr => ?_⟩, rfl⟩
      exact hall r (by simp [hr])
    · rintro ⟨s, hs, hlife, rfl⟩
      obtain rfl : s = ⟨(j - i) / nanos, hmax⟩ := Fin.ext hs
      refine ⟨fun r hr => ?_, rfl⟩
      rcases mem_append.mp hr with hr | hr
      · rcases mem_append.mp hr with hr | hr
        · exact hbound r (mem_append_left _ hr)
        · exact (lt_servedLife_iff.mp hlife).2 r hr
      · exact hbound r (mem_append_right _ hr)
  · rw [if_neg hlt]
    refine iff_of_false nofun ?_
    rintro ⟨s, hs, hlife, -⟩
    exact hlt (hs ▸ (lt_servedLife_iff.mp hlife).1)

/-! ## Copies in the shared cache -/

/-- The lifetime of what `serve_wire` stores of a result, if it stores it. -/
def rawLife (cfg : CacheCfg) (v : Validated) : Option U32 :=
  if v.rcode = NXDOMAIN ∨ v.records = [] then
    if negTtlFromSoa v.authority = 0 then none
    else some (negativeTtl cfg (negTtlFromSoa v.authority))
  else some (positiveTtl cfg (v.records.map (clampTtl cfg)))

theorem serveRecursion_stored (cfg : CacheCfg) (hv : v.verdict ≠ .bogus) (hw : Bool)
    (instant : ℕ) (msg : Message) (q : Question) (cache : CacheMap) :
    ∃ resp, resp ≠ [] ∧ (serveRecursion hw cfg instant msg q (some v) cache).2 =
      (rawLife cfg v).elim cache fun ttl => storeFor hw cfg instant q resp ttl cache := by
  unfold rawLife
  by_cases hneg : v.rcode = NXDOMAIN ∨ v.records = []
  · obtain ⟨resp, hresp, hstore⟩ := serveRecursion_negative cfg hv hneg hw instant msg q cache
    refine ⟨resp, hresp, hstore.trans ?_⟩
    rw [if_pos hneg, maybeCacheNegative]
    by_cases hz : negTtlFromSoa v.authority = 0
    · rw [if_pos (Or.inl hz), if_pos hz]
      rfl
    · rw [if_neg (by simp [hz, hresp]), if_neg hz]
      rfl
  · obtain ⟨hrc, hrec⟩ := not_or.mp hneg
    have hne : wireAnswer msg (v.records.map (clampTtl cfg)) NOERROR ≠ [] := encode_ne_nil _
    refine ⟨_, hne, ?_⟩
    rw [if_neg hneg]
    unfold serveRecursion
    simp only [hv, if_neg hrc, if_neg hrec]
    have hclamped : v.records.map (clampTtl cfg) ≠ [] := by simpa using hrec
    show (if v.verdict = .bogus then cache else
      maybeCacheWire hw cfg instant q _ (v.records.map (clampTtl cfg)) cache) = _
    rw [if_neg hv, maybeCacheWire, if_neg hclamped]
    rfl

/-- No copy in the shared cache is served later than `left` seconds after a time that is `w`
    seconds before it was stored. -/
def RawDies (cfg : CacheCfg) (w left : ℕ) (v : Validated) : Prop :=
  ∀ (hw : Bool) (instant : ℕ) (msg : Message) (q : Question) (cache : CacheMap) (k : U64)
    (e : CacheEntry) (u : ℕ),
    (serveRecursion hw cfg instant msg q (some v) cache).2.lookup k = some e →
    cache.lookup k ≠ some e → instant ≤ u → u < e.expiresAt → w + (u - instant) < left

/-- The lifetime leaves no time after that. -/
def RawFits (cfg : CacheCfg) (w left : ℕ) (v : Validated) : Prop :=
  ∀ ttl, rawLife cfg v = some ttl → ttl = 0 ∨ w + ttl.val ≤ left

theorem rawDies_iff {cfg : CacheCfg} (hv : v.verdict ≠ .bogus) (w left : ℕ) :
    RawDies cfg w left v ↔ RawFits cfg w left v := by
  constructor
  · intro h ttl hlife
    by_cases hz : ttl = 0
    · exact Or.inl hz
    · obtain ⟨q, cache, k, hnew⟩ := exists_storeFor_new cfg ttl
      obtain ⟨resp, hresp, hstore⟩ := serveRecursion_stored cfg hv true 0 {} q cache
      rw [hlife, elim_some] at hstore
      obtain ⟨e, hl, hother, hexpires⟩ := hnew resp hresp
      rw [← hstore] at hl
      -- the last second of its life
      have hpos : 0 < ttl.val := Nat.pos_of_ne_zero fun h => hz (Fin.ext h)
      have hlast := h true 0 {} q cache k e (ttl.val - 1) hl hother (Nat.zero_le _) (by omega)
      exact Or.inr (by omega)
  · intro h hw instant msg q cache k e u hl hnew hiu hu
    obtain ⟨resp, -, hstore⟩ := serveRecursion_stored cfg hv hw instant msg q cache
    rw [hstore] at hl
    cases hlife : rawLife cfg v with
    | none =>
      rw [hlife] at hl
      exact absurd hl hnew
    | some ttl =>
      rw [hlife] at hl
      rcases lookup_cacheInsert hl with ⟨-, rfl⟩ | hl
      · have hu : u < instant + ttl.val := hu
        rcases h ttl hlife with rfl | hfits
        · omega
        · omega
      · exact absurd hl hnew

/-! ## All copies -/

/-- No copy of the answer `v` to a query that began at wall-clock time `now` is served at or
    after the time its signatures expire, `left` seconds later. `cache_validated` is done
    `delay` nanoseconds after `now`, and `serve_wire` stores its copy then; so it does again
    when a later query is served from the cache of validated answers. -/
structure DiesWithSignatures (cfg : CacheCfg) (now : U32) (left delay : ℕ) (v : Validated) :
    Prop where
  validated : ∀ (key : Name × U16) (cache : ValidatedCache) (i j : ℕ) (e : CachedValidated)
    (v' : Validated), (key, e) ∈ cacheValidated cache key now i v → (key, e) ∉ cache → i ≤ j →
      servedAt e j = some v' → (delay + (j - i)) / nanos < left
  fresh : RawDies cfg (delay / nanos) left v
  again : ∀ (key : Name × U16) (cache : ValidatedCache) (i j : ℕ) (e : CachedValidated)
    (v' : Validated), (key, e) ∈ cacheValidated cache key now i v → (key, e) ∉ cache → i ≤ j →
      servedAt e j = some v' → RawDies cfg ((delay + (j - i)) / nanos) left v'

/-- The lifetimes leave no time after the signatures expire: the time that resolution took and
    the lifetime in the cache of validated answers, and the same for what `serve_wire` stores
    at once and at any later time it is served from there. -/
structure FitsSignatures (cfg : CacheCfg) (now : U32) (left delay : ℕ) (v : Validated) : Prop where
  validated : delay = 0 ∨ servedLife now v = 0 ∨
    delay + (servedLife now v).val * nanos ≤ left * nanos
  fresh : RawFits cfg (delay / nanos) left v
  again : ∀ s < servedLife now v,
    RawFits cfg (s.val + (delay + nanos - 1) / nanos) left (decremented s v)

section

variable {cfg : CacheCfg} {now : U32} {left delay : ℕ} {v : Validated}

theorem RawFits.mono {w w' : ℕ} (h : RawFits cfg w left v) (hw : w' ≤ w) :
    RawFits cfg w' left v := by
  intro ttl hlife
  rcases h ttl hlife with hz | hfits
  · exact Or.inl hz
  · omega

/-- Something of all served copies, in terms of the seconds since the answer was stored. -/
theorem forall_served_iff (hv : v.verdict ≠ .bogus) {P : ℕ → Validated → Prop} :
    (∀ (key : Name × U16) (cache : ValidatedCache) (i j : ℕ) (e : CachedValidated) (v' : Validated),
      (key, e) ∈ cacheValidated cache key now i v → (key, e) ∉ cache → i ≤ j →
        servedAt e j = some v' → P (j - i) v') ↔
      ∀ s < servedLife now v, ∀ d, d / nanos = s.val → P d (decremented s v) := by
  constructor
  · intro h s hs d hd
    have hz : cacheTtl now v ≠ 0 := by
      intro hzero
      have := (lt_servedLife_iff.mp hs).1
      rw [hzero] at this
      exact absurd this (Fin.not_lt_zero s)
    have hserved : servedAt ⟨v, 0, 0 + (cacheTtl now v).val * nanos⟩ d = some (decremented s v) :=
      (servedAt_eq_some_iff (Nat.zero_le d)).mpr ⟨s, hd.symm, hs, rfl⟩
    exact h (Name.root, 0) [] 0 d _ _ (cacheValidated_nil hv hz _) (by simp) (Nat.zero_le d) hserved
  · intro h key cache i j e v' hmem hnew hij hserved
    obtain ⟨-, -, rfl⟩ := mem_cacheValidated_new hmem hnew
    obtain ⟨s, hs, hlife, rfl⟩ := (servedAt_eq_some_iff hij).mp hserved
    exact h s hlife (j - i) hs.symm

theorem servedLife_le_left {secs : U32}
    (hleft : nearestRrsigSecs v.answerRrsigs v.authority now = some secs) :
    servedLife now v ≤ secs := by
  have hmem : secs ∈ signatureSecs v.answerRrsigs v.authority now := (min?_eq_some_iff.mp hleft).1
  obtain ⟨r, hr, htype, data, hdata, hsecs⟩ := mem_signatureSecs.mp hmem
  rw [servedLife, foldl_min_le_iff]
  exact Or.inl ((cacheTtl_le_iff now v secs).mpr
    (Or.inr (Or.inr ⟨r, hr, htype, data, hdata, hsecs.le⟩)))

theorem validated_dies_iff (hv : v.verdict ≠ .bogus) :
    (∀ (key : Name × U16) (cache : ValidatedCache) (i j : ℕ) (e : CachedValidated) (v' : Validated),
      (key, e) ∈ cacheValidated cache key now i v → (key, e) ∉ cache → i ≤ j →
        servedAt e j = some v' → (delay + (j - i)) / nanos < left) ↔
      servedLife now v = 0 ∨ delay + (servedLife now v).val * nanos ≤ left * nanos := by
  have hnanos : 0 < nanos := by decide
  rw [forall_served_iff (P := fun d _ => (delay + d) / nanos < left) hv]
  constructor
  · intro h
    by_cases hz : servedLife now v = 0
    · exact Or.inl hz
    -- the last nanosecond of its life
    have hpos : 0 < (servedLife now v).val := Nat.pos_of_ne_zero fun h => hz (Fin.ext h)
    have hlast := h ⟨(servedLife now v).val - 1, by omega⟩
      (show (servedLife now v).val - 1 < (servedLife now v).val by omega)
      ((servedLife now v).val * nanos - 1)
      (show _ = (servedLife now v).val - 1 by unfold nanos; omega)
    unfold nanos at hlast ⊢
    omega
  · intro h s hs d hd
    have hd' : d < (s.val + 1) * nanos := by
      rw [← hd]
      exact Nat.lt_mul_of_div_lt (Nat.lt_succ_self _) hnanos
    rcases h with hz | hfits
    · rw [hz] at hs
      exact absurd hs (Fin.not_lt_zero s)
    · rw [Nat.div_lt_iff_lt_mul hnanos]
      have : (s.val + 1) * nanos ≤ (servedLife now v).val * nanos := Nat.mul_le_mul_right _ hs
      omega

theorem again_dies_iff (hv : v.verdict ≠ .bogus) :
    (∀ (key : Name × U16) (cache : ValidatedCache) (i j : ℕ) (e : CachedValidated) (v' : Validated),
      (key, e) ∈ cacheValidated cache key now i v → (key, e) ∉ cache → i ≤ j →
        servedAt e j = some v' → RawDies cfg ((delay + (j - i)) / nanos) left v') ↔
      ∀ s < servedLife now v,
        RawFits cfg (s.val + (delay + nanos - 1) / nanos) left (decremented s v) := by
  rw [forall_served_iff (P := fun d v' => RawDies cfg ((delay + d) / nanos) left v') hv]
  refine forall_congr' fun s => forall_congr' fun _ => ?_
  have hv' : (decremented s v).verdict ≠ .bogus := hv
  constructor
  · intro h
    -- the last nanosecond of the second
    have hlast := h (s.val * nanos + (nanos - 1)) (by unfold nanos; omega)
    rw [rawDies_iff hv'] at hlast
    exact hlast.mono (by unfold nanos; omega)
  · intro h d hd
    rw [rawDies_iff hv']
    exact h.mono (by unfold nanos at hd ⊢; omega)

end

/-- For every secure answer and all settings: no copy outlives the signatures exactly if the
    lifetimes fit. -/
theorem diesWithSignatures_iff {v : Validated} {now secs : U32} (hv : v.verdict = .secure)
    (hleft : nearestRrsigSecs v.answerRrsigs v.authority now = some secs) (cfg : CacheCfg)
    (delay : ℕ) :
    DiesWithSignatures cfg now secs.val delay v ↔ FitsSignatures cfg now secs.val delay v := by
  have hnot : v.verdict ≠ .bogus := by
    rw [hv]
    decide
  have hle : (servedLife now v).val ≤ secs.val := servedLife_le_left hleft
  constructor
  · rintro ⟨h1, h2, h3⟩
    exact ⟨Or.inr ((validated_dies_iff hnot).mp h1), (rawDies_iff hnot _ _).mp h2,
      (again_dies_iff hnot).mp h3⟩
  · rintro ⟨h1, h2, h3⟩
    refine ⟨(validated_dies_iff hnot).mpr ?_, (rawDies_iff hnot _ _).mpr h2,
      (again_dies_iff hnot).mpr h3⟩
    rcases h1 with rfl | h1
    · refine Or.inr ?_
      rw [Nat.zero_add]
      exact Nat.mul_le_mul_right _ hle
    · exact h1

/-! ## A signature that expires in ten seconds -/

/-- The data of an RRSIG record that expires at 1010. -/
def rrsigData : Bytes := [0, 1, 8, 1, 0, 0, 14, 16, 0, 0, 3, 242, 0, 0, 0, 0, 0, 7, 0, 1]

/-- A secure answer `a. 3600 A 192.0.2.1` with that signature. -/
def expiringAnswer : Validated where
  records := [Record.address Local.nameA 3600 ![192, 0, 2, 1]]
  answerRrsigs := [⟨Local.nameA, Rtype.RRSIG, IN, 3600, .unknown Rtype.RRSIG rrsigData, by decide⟩]
  authority := []
  rcode := NOERROR
  verdict := .secure

theorem nearest_expiringAnswer :
    nearestRrsigSecs expiringAnswer.answerRrsigs expiringAnswer.authority 1000 = some 10 := by
  decide +kernel

theorem diesWithSignatures_iff_expiring :
    expiringAnswer.verdict = .secure ∧
      (DiesWithSignatures plainHandler.cache 1000 10 0 expiringAnswer ↔
        FitsSignatures plainHandler.cache 1000 10 0 expiringAnswer) :=
  ⟨rfl, diesWithSignatures_iff rfl nearest_expiringAnswer plainHandler.cache 0⟩

/-- What `serve_wire` leaves of it in the shared cache. -/
def expiringCache : CacheMap :=
  (serveRecursion true plainHandler.cache 0 {} ⟨Local.nameA, Rtype.A, IN⟩ (some expiringAnswer) ∅).2

theorem expiringCache_lookup :
    ((expiringCache.lookup (cacheKey true [1, 97, 0] Rtype.A)).any fun e => e.expiresAt = 3600) =
      true := by
  decide +kernel

/-- The copy of `serve_wire` is served for an hour, the signature expires after ten seconds. -/
theorem outlives_signature :
    nearestRrsigSecs expiringAnswer.answerRrsigs expiringAnswer.authority 1000 = some 10 ∧
      (∃ e, expiringCache.lookup (cacheKey true [1, 97, 0] Rtype.A) = some e ∧ e.expiresAt = 3600) ∧
      ¬ DiesWithSignatures plainHandler.cache 1000 10 0 expiringAnswer := by
  obtain ⟨e, he, hexpires⟩ := (any_eq_true _ _).mp expiringCache_lookup
  have hexpires : e.expiresAt = 3600 := of_decide_eq_true hexpires
  refine ⟨nearest_expiringAnswer, ⟨e, he, hexpires⟩, fun hdies => ?_⟩
  have hlate := hdies.fresh true 0 {} ⟨Local.nameA, Rtype.A, IN⟩ ∅ _ e 100 he nofun
    (Nat.zero_le 100) (by omega)
  exact absurd hlate (by decide)

end Runbound.Server
