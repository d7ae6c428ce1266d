import Runbound.Dnssec.Chain

/-!
# How long a validated DNSKEY set is trusted

A validated DNSKEY set is cached for what `dnskey_cache_ttl` (`dnssec_chain.rs`) makes of the
TTL of the RRset and of its signatures, put between a minute and 48 hours by `clamp_ttl` and
counted from the clock that `dnskey_learn` (`infra_cache.rs`) reads. The cache may then be used
in any way: looked up, for this zone and others, and taught the keys of other zones, which may
evict these.

Results:

* `expiry_le_iff`: the stored expiry respects every limit exactly if every limit is `Ample`.
* `trustedWhileSigned_iff`: the keys are handed out only within the TTL and before the first
  signature expires exactly if the TTL and every signature have a minute left, and the keys
  were learned in the second of their validation or at least 48 hours before the limit.
* `signature_outlived`: a set whose signature expires in ten seconds is trusted for a minute.

**Deviation.** The keys of the zone are not learned a second time after the validation looked
at: what is handed out from then on has the lifetime of the later one.
-/

namespace Runbound.Dnssec

open Wire List

/-! ## Specification -/

/-- The expirations of the signatures, as far as they have one. -/
def expirations (sigs : List Bytes) : List U32 :=
  sigs.filterMap fun d =>
    match d.drop 8 with
    | e0 :: e1 :: e2 :: e3 :: _ => some (u32OfBe e0 e1 e2 e3)
    | _ => none

theorem minRrsigExpiration_eq (sigs : List Bytes) :
    minRrsigExpiration sigs = (expirations sigs).min? := rfl

/-- One use of the cache of validated keys. -/
inductive KeyOp
  /-- `dnskey_get` of a zone. -/
  | get (zone : Name) (now : U32)
  /-- `dnskey_learn` of the keys of a zone. -/
  | learn (zone : Name) (keys : List Bytes) (ttl now : U32)

/-- The cache after one use. -/
def KeyOp.step (cache : Bounded (List Bytes)) : KeyOp → Bounded (List Bytes)
  | .get zone now => (dnskeyGet cache zone now).2
  | .learn zone keys ttl now => dnskeyLearn cache zone keys ttl now

/-- The use does not store keys for `zone`. -/
def KeyOp.Spares (zone : Name) : KeyOp → Prop
  | .get _ _ => True
  | .learn other _ _ _ => keyOf other ≠ keyOf zone

/-- The keys of an RRset validated at `now` and learned at `clock` are handed out only while the
    TTL of the RRset has not run out and none of its signatures has expired. -/
def TrustedWhileSigned (cache : Bounded (List Bytes)) (zone : Name) (keys : List Bytes)
    (rrsetTtl : U32) (sigs : List Bytes) (now clock : U32) : Prop :=
  ∀ (ops : List KeyOp) (time : U32), (∀ op ∈ ops, op.Spares zone) →
    (dnskeyGet (ops.foldl KeyOp.step
      (dnskeyLearn cache zone keys (dnskeyCacheTtl rrsetTtl sigs now) clock)) zone time).1
        = some keys →
    time.val < now.val + rrsetTtl.val ∧ ∀ e ∈ expirations sigs, time < e

/-- A limit on the trust in keys validated at `now` and learned at `clock` that the cache
    respects: the end of time, or a minute and more after they are learned, where they are
    learned without delay or 48 hours before. -/
def Ample (now clock : U32) (limit : ℕ) : Prop :=
  4294967295 ≤ limit ∨ clock.val + 60 ≤ limit ∧ (clock.val ≤ now.val ∨ clock.val + 172800 ≤ limit)

/-! ## The stored expiry -/

/-- The expiry `dnskey_learn` stores for a lifetime. -/
theorem expiry_val (clock ttl : U32) :
    (saturatingAdd clock (clampTtl ttl)).val
      = min (clock.val + max 60 (min ttl.val 172800)) 4294967295 := by
  have hclamp : (clampTtl ttl).val = max 60 (min ttl.val 172800) := by
    rfl
  show min _ 4294967295 % 4294967296 = _
  omega

theorem dnskeyCacheTtl_none {sigs : List Bytes} (h : (expirations sigs).min? = none)
    (rrsetTtl now : U32) : dnskeyCacheTtl rrsetTtl sigs now = rrsetTtl := by
  rw [dnskeyCacheTtl, minRrsigExpiration_eq, h]

theorem dnskeyCacheTtl_some {sigs : List Bytes} {e : U32} (h : (expirations sigs).min? = some e)
    (rrsetTtl now : U32) :
    (dnskeyCacheTtl rrsetTtl sigs now).val = min rrsetTtl.val (e.val - now.val) := by
  rw [dnskeyCacheTtl, minRrsigExpiration_eq, h]
  show (min rrsetTtl (if now ≤ e then e - now else 0)).val = _
  rw [Fin.coe_min]
  split_ifs with hle
  · rw [Fin.sub_val_of_le hle]
  · have hlt : e.val < now.val := not_le.mp hle
    rw [Nat.sub_eq_zero_of_le hlt.le]
    rfl

/-- The expiry that is stored respects the TTL and the signatures exactly if each of them
    leaves enough time. -/
theorem expiry_le_iff (rrsetTtl : U32) (sigs : List Bytes) (now clock : U32) :
    ((saturatingAdd clock (clampTtl (dnskeyCacheTtl rrsetTtl sigs now))).val
          ≤ now.val + rrsetTtl.val ∧
        ∀ e ∈ expirations sigs,
          (saturatingAdd clock (clampTtl (dnskeyCacheTtl rrsetTtl sigs now))).val ≤ e.val) ↔
      Ample now clock (now.val + rrsetTtl.val) ∧ ∀ e ∈ expirations sigs, Ample now clock e.val := by
  rw [expiry_val]
  cases hmin : (expirations sigs).min? with
  | none =>
    have hnil := min?_eq_none_iff.mp hmin
    rw [dnskeyCacheTtl_none hmin, hnil]
    simp only [not_mem_nil, false_implies, implies_true, and_true, Ample]
    omega
  | some e =>
    obtain ⟨hmem, hle⟩ := min?_eq_some_iff.mp hmin
    rw [dnskeyCacheTtl_some hmin]
    simp only [Ample]
    constructor
    · rintro ⟨hT, hE⟩
      have he := hE e hmem
      refine ⟨by omega, fun e' he' => ?_⟩
      have hee' : e.val ≤ e'.val := hle e' he'
      omega
    · rintro ⟨hT, hE⟩
      have he := hE e hmem
      refine ⟨by omega, fun e' he' => ?_⟩
      have hee' : e.val ≤ e'.val := hle e' he'
      omega

/-! ## The cache in use -/

/-- Nothing is stored under `key` beyond `limit`. -/
def Until (key : Bytes) (limit : U32) (b : Bounded (List Bytes)) : Prop :=
  ∀ p ∈ b.map, p.1 = key → p.2.expiry ≤ limit

variable {b : Bounded (List Bytes)} {key : Bytes} {limit : U32}

/-- What is stored under the key of an insertion is what was inserted. -/
theorem until_insert (val : List Bytes) (now : U32) :
    Until key limit (b.insert key val limit now) :=
  Bounded.Entries.insert (P := fun k _ e => k = key → e ≤ limit)
    (fun _ _ hne hkey => absurd hkey hne) fun _ => le_rfl

theorem Until.step {zone : Name} (h : Until (keyOf zone) limit b) {op : KeyOp}
    (hop : op.Spares zone) : Until (keyOf zone) limit (op.step b) := by
  cases op with
  | get other now => exact (Bounded.Entries.get (P := fun k _ e => k = keyOf zone → e ≤ limit) h).2
  | learn other keys ttl now =>
    show Until _ _ (dnskeyLearn b other keys ttl now)
    unfold dnskeyLearn
    split_ifs
    · exact h
    · exact Bounded.Entries.insert (P := fun k _ e => k = keyOf zone → e ≤ limit)
        (fun p hp _ => h p hp) fun hkey => absurd hkey hop

theorem Until.run {zone : Name} (ops : List KeyOp) (hops : ∀ op ∈ ops, op.Spares zone)
    (h : Until (keyOf zone) limit b) : Until (keyOf zone) limit (ops.foldl KeyOp.step b) := by
  induction ops generalizing b with
  | nil => exact h
  | cons op ops ih =>
    exact ih (fun o ho => hops o (mem_cons_of_mem _ ho)) (h.step (hops op mem_cons_self))

theorem Until.lt_of_get (h : Until key limit b) {now : U32} {keys : List Bytes}
    (hget : (b.get key now).1 = some keys) : now < limit := by
  obtain ⟨expiry, hlt, hle⟩ :=
    (Bounded.Entries.get (P := fun k _ e => k = key → e ≤ limit) h).1 keys hget
  exact lt_of_lt_of_le hlt (hle rfl)

theorem get_insert (val : List Bytes) {expiry now time : U32} (h : time < expiry) :
    ((b.insert key val expiry now).get key time).1 = some val := by
  have hfind : (b.insert key val expiry now).find key = some ⟨expiry, b.tick + 1, val⟩ :=
    lookup_cons_self
  rw [Bounded.get, hfind]
  show (if expiry > time then _ else _ : Option (List Bytes) × Bounded (List Bytes)).1 = _
  rw [if_pos h]

/-- Validated keys are trusted only within the TTL of their RRset and before the first of its
    signatures expires exactly if each of these limits leaves a minute from when they are
    learned, which is without delay or 48 hours before it. -/
theorem trustedWhileSigned_iff (cache : Bounded (List Bytes)) (zone : Name) (keys : List Bytes)
    (rrsetTtl : U32) (sigs : List Bytes) (now clock : U32) (hkeys : keys ≠ []) :
    TrustedWhileSigned cache zone keys rrsetTtl sigs now clock ↔
      Ample now clock (now.val + rrsetTtl.val) ∧ ∀ e ∈ expirations sigs, Ample now clock e.val := by
  rw [← expiry_le_iff]
  unfold TrustedWhileSigned
  rw [dnskeyLearn, if_neg hkeys]
  constructor
  · intro h
    -- the last second in which the keys are handed out, with the cache left alone
    by_cases hzero : (saturatingAdd clock (clampTtl (dnskeyCacheTtl rrsetTtl sigs now))).val = 0
    · exact ⟨by omega, fun e _ => by omega⟩
    · have hlast : Fin.ofNat 4294967296
            ((saturatingAdd clock (clampTtl (dnskeyCacheTtl rrsetTtl sigs now))).val - 1)
          < saturatingAdd clock (clampTtl (dnskeyCacheTtl rrsetTtl sigs now)) := by
        rw [Fin.lt_def, Fin.val_ofNat]
        omega
      obtain ⟨hT, hE⟩ := h [] _ (fun op hop => (by cases hop)) (get_insert keys hlast)
      rw [Fin.val_ofNat] at hT
      refine ⟨by omega, fun e he => ?_⟩
      have hlt := hE e he
      rw [Fin.lt_def, Fin.val_ofNat] at hlt
      omega
  · rintro ⟨hT, hE⟩ ops time hops hget
    have hlt : time < saturatingAdd clock (clampTtl (dnskeyCacheTtl rrsetTtl sigs now)) :=
      ((until_insert keys clock).run ops hops).lt_of_get hget
    rw [Fin.lt_def] at hlt
    refine ⟨by omega, fun e he => ?_⟩
    have hle := hE e he
    exact Fin.lt_def.mpr (by omega)

/-- Keys with an hour of TTL and a signature for an hour, learned at once. -/
theorem trustedWhileSigned_iff_hour :
    TrustedWhileSigned { cap := maxKeys } Name.root [[1]] 3600
        [[0, 48, 8, 0, 0, 0, 14, 16, 101, 83, 255, 16]] 1700000000 1700000000 ↔
      Ample 1700000000 1700000000 (1700000000 + 3600) ∧
        ∀ e ∈ expirations [[0, 48, 8, 0, 0, 0, 14, 16, 101, 83, 255, 16]],
          Ample 1700000000 1700000000 e.val :=
  trustedWhileSigned_iff _ _ _ _ _ _ _ (by decide)

/-- The signature of a DNSKEY set with an hour of TTL expires ten seconds after the validation:
    49 seconds later the keys are still handed out. -/
theorem signature_outlived :
    ¬ TrustedWhileSigned { cap := maxKeys } Name.root [[1]] 3600
        [[0, 48, 8, 0, 0, 0, 14, 16, 101, 83, 241, 10]] 1700000000 1700000000 := by
  intro h
  have hhit := h [] 1700000059 (fun op hop => (by cases hop)) (by decide +kernel)
  have hbefore := hhit.2 1700000010 (by decide +kernel)
  exact absurd hbefore (by decide)

end Runbound.Dnssec
