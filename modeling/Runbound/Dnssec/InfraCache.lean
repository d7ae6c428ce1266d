import Runbound.Wire.NameCodec

/-!
# The cache of validated DNSKEY sets (`infra_cache.rs`)

`Bounded` is the TTL-expiring map with sampled eviction. A `HashMap` is modelled
by the list of its entries; which entries the eviction samples depends on the
iteration order of the source's map, so nothing below depends on it.
-/

namespace Runbound.Dnssec

open Wire List

/-- `Entry` (infra_cache.rs:82). -/
structure Entry (V : Type) where
  expiry : U32
  used : ℕ
  val : V

/-- `Bounded` (infra_cache.rs:89). -/
structure Bounded (V : Type) where
  map : List (Bytes × Entry V) := []
  cap : ℕ
  tick : ℕ := 0

namespace Bounded

variable {V : Type}

section

variable (b : Bounded V) (key : Bytes)

/-- `HashMap::get`. -/
def find : Option (Entry V) := b.map.lookup key

/-- `HashMap::remove`. -/
def remove : Bounded V := { b with map := b.map.filter fun e => e.1 ≠ key }

/-- `Bounded::get` (infra_cache.rs:101): a hit is touched, an expired entry dropped. -/
def get (now : U32) : Option V × Bounded V :=
  let t := b.tick + 1
  match b.find key with
  | some e =>
    if e.expiry > now then
      (some e.val, { b with
        map := b.map.map fun p => if p.1 = key then (p.1, { p.2 with used := t }) else p
        tick := t })
    else (none, { b.remove key with tick := t })
  | none => (none, { b with tick := t })

end

/-- The victim of `Bounded::evict_one` among the sampled entries (infra_cache.rs:135-147). -/
def victim (now : U32) : List (Bytes × Entry V) → Option (ℕ × Bytes) → Option Bytes
  | [], lru => lru.map Prod.snd
  | (k, e) :: rest, lru =>
    if e.expiry ≤ now then some k
    else if lru.all fun (u, _) => e.used < u then victim now rest (some (e.used, k))
    else victim now rest lru

/-- `Bounded::evict_one` (infra_cache.rs:135), sampling `EVICT_SAMPLE` entries. -/
def evictOne (b : Bounded V) (now : U32) : Bounded V :=
  match victim now (b.map.take 16) none with
  | some k => b.remove k
  | none => b

/-- `Bounded::insert` (infra_cache.rs:117). -/
def insert (b : Bounded V) (key : Bytes) (val : V) (expiry now : U32) : Bounded V :=
  let t := b.tick + 1
  let b := { b with tick := t }
  let b := if b.map.length ≥ b.cap ∧ b.find key = none then b.evictOne now else b
  { b with map := (key, ⟨expiry, t, val⟩) :: (b.remove key).map }

/-! ## Entry invariants -/

/-- Every entry of the map satisfies `P`, with its expiry. -/
def Entries (P : Bytes → V → U32 → Prop) (b : Bounded V) : Prop :=
  ∀ p ∈ b.map, P p.1 p.2.val p.2.expiry

/-- Every entry of the map satisfies `P`. -/
def All (P : Bytes → V → Prop) (b : Bounded V) : Prop := ∀ p ∈ b.map, P p.1 p.2.val

section

variable {P : Bytes → V → U32 → Prop} {b : Bounded V} {key : Bytes}

theorem Entries.remove (h : b.Entries P) : (b.remove key).Entries P := fun p hp =>
  h p (mem_of_mem_filter hp)

/-- A hit is of an entry that has not expired, and a lookup keeps the invariant. -/
theorem Entries.get {now : U32} (h : b.Entries P) :
    (∀ v, (b.get key now).1 = some v → ∃ expiry, now < expiry ∧ P key v expiry) ∧
      (b.get key now).2.Entries P := by
  unfold Bounded.get
  cases hf : b.find key with
  | none => exact ⟨by simp, h⟩
  | some e =>
    simp only
    split_ifs with hexp
    · refine ⟨fun v hv => ?_, fun p hp => ?_⟩
      · cases hv
        obtain ⟨l₁, l₂, hmap, -⟩ := lookup_eq_some_iff.mp hf
        exact ⟨e.expiry, hexp, h (key, e) (by rw [hmap]; simp)⟩
      · obtain ⟨q, hq, rfl⟩ := mem_map.mp hp
        -- touching an entry changes only when it was used
        by_cases hk : q.1 = key
        · rw [if_pos hk]; exact h q hq
        · rw [if_neg hk]; exact h q hq
    · exact ⟨by simp, h.remove⟩

theorem mem_evictOne {now : U32} {p : Bytes × Entry V} (h : p ∈ (b.evictOne now).map) :
    p ∈ b.map := by
  unfold Bounded.evictOne at h
  split at h
  · exact mem_of_mem_filter h
  · exact h

/-- An insertion keeps what holds of the entries under other keys and of the new one. -/
theorem Entries.insert {val : V} {expiry now : U32}
    (h : ∀ p ∈ b.map, p.1 ≠ key → P p.1 p.2.val p.2.expiry) (hv : P key val expiry) :
    (b.insert key val expiry now).Entries P := by
  intro p hp
  simp only [Bounded.insert, mem_cons] at hp
  rcases hp with rfl | hp
  · exact hv
  · obtain ⟨hmem, hne⟩ := mem_filter.mp hp
    refine h p ?_ (by simpa using hne)
    split_ifs at hmem
    · exact mem_evictOne (b := { b with tick := b.tick + 1 }) hmem
    · exact hmem

end

variable {P : Bytes → V → Prop} {b : Bounded V} {key : Bytes}

theorem All.remove (h : b.All P) : (b.remove key).All P :=
  Entries.remove (P := fun k v _ => P k v) h

theorem All.get {now : U32} (h : b.All P) :
    (∀ v, (b.get key now).1 = some v → P key v) ∧ (b.get key now).2.All P := by
  obtain ⟨hhit, hkept⟩ := @Entries.get _ (fun k v _ => P k v) b key now h
  refine ⟨fun v hv => ?_, hkept⟩
  obtain ⟨-, -, hP⟩ := hhit v hv
  exact hP

theorem All.insert {val : V} {expiry now : U32} (h : b.All P) (hv : P key val) :
    (b.insert key val expiry now).All P :=
  Entries.insert (P := fun k v _ => P k v) (fun p hp _ => h p hp) hv

end Bounded

/-! ## The DNSKEY cache -/

/-- `MAX_KEYS` (infra_cache.rs:59). -/
def maxKeys : ℕ := 8192

/-- `TTL_CAP` (infra_cache.rs:62). -/
def ttlCap : U32 := 172800

/-- `TTL_FLOOR` (infra_cache.rs:64). -/
def ttlFloor : U32 := 60

/-- `key_of` (infra_cache.rs:73). -/
def keyOf (name : Name) : Bytes := lower name.toAscii

theorem key_eq_of_keyOf_eq {a b : Name} (h : keyOf a = keyOf b) : a.key = b.key := by
  rw [keyOf, keyOf, Name.lower_toAscii, Name.lower_toAscii] at h
  rw [← a.key_lowered, ← b.key_lowered, Name.toAscii_injective h]

/-- `clamp_ttl` (infra_cache.rs:77). -/
def clampTtl (ttl : U32) : U32 := max ttlFloor (min ttl ttlCap)

/-- `u32::saturating_add`. -/
def saturatingAdd (a b : U32) : U32 := Fin.ofNat _ (min (a.val + b.val) 4294967295)

/-- `dnskey_learn` (infra_cache.rs:202) at clock `now`. -/
def dnskeyLearn (cache : Bounded (List Bytes)) (zone : Name) (keys : List Bytes) (ttl now : U32) :
    Bounded (List Bytes) :=
  if keys = [] then cache
  else cache.insert (keyOf zone) keys (saturatingAdd now (clampTtl ttl)) now

/-- `dnskey_get` (infra_cache.rs:213) at clock `now`. -/
def dnskeyGet (cache : Bounded (List Bytes)) (zone : Name) (now : U32) :
    Option (List Bytes) × Bounded (List Bytes) :=
  cache.get (keyOf zone) now

end Runbound.Dnssec
