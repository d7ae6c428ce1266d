import Runbound.FastPath.RightQuestion
import Runbound.Lib.Cell

/-!
# Local data in the shared cache

Local data are stored in the shared cache with a lifetime of a hundred years, and `is_sentinel`
takes every entry with more than fifty years left for local data. The eviction keeps such entries;
`cache_insert` does not look at what stands under its key.

Main results:

* `eviction_exact`: `evict_oldest` removes as many entries as it should, the soonest to expire
  first, and no local data.
* `local_stays_iff`: local data stay, and are in every snapshot, exactly if no entry is stored
  under their key.
* `local_displaced`: two names with one hash.

**Deviation**: in `local_stays_iff` the selection of `evict_oldest` among entries that expire at one
instant is that of a stable sort; in `eviction_exact` it is any selection.
-/

namespace Runbound.FastPath

open Wire Lib Local List Map AList

/-! ## Exact eviction -/

abbrev Slot : Type := Σ _ : U64, CacheEntry

/-- What is documented of `select_nth_unstable_by_key(i, ..)`: the first `i + 1` of the reordered
candidates expire no later than the others. -/
def Selects (select : ℕ → List Slot → List Slot) : Prop :=
  ∀ i l, i < l.length → (select i l).Perm l ∧
    ∀ a ∈ (select i l).take (i + 1), ∀ b ∈ (select i l).drop (i + 1), a.2.expiresAt ≤ b.2.expiresAt

/-- The entries that may be evicted. -/
def candidates (now : ℕ) (m : CacheMap) : List Slot :=
  m.entries.filter fun kv => !isSentinel now kv.2

/-- One removal, counted if there was something to remove. -/
def removeCounted (s : CacheMap × ℕ) (kv : Slot) : CacheMap × ℕ :=
  if kv.1 ∈ s.1 then (s.1.erase kv.1, s.2 + 1) else s

/-- `evict_oldest` (dns/cache_snapshot.rs:227), whatever its selection does with entries that
expire at one instant, and the number it returns. -/
def evictOldestBy (select : ℕ → List Slot → List Slot) (now targetLen : ℕ) (m : CacheMap) :
    CacheMap × ℕ :=
  if m.keys.length ≤ targetLen then (m, 0)
  else if (candidates now m).isEmpty then (m, 0)
  else
    let n := min (m.keys.length - targetLen) (candidates now m).length
    let chosen := if n < (candidates now m).length then select (n - 1) (candidates now m)
      else candidates now m
    (chosen.take n).foldl removeCounted (m, 0)

/-- What an eviction must leave, and the number it must return. -/
structure EvictsExactly (now targetLen : ℕ) (m : CacheMap) (r : CacheMap × ℕ) : Prop where
  count : r.2 = min (m.keys.length - targetLen) (candidates now m).length
  length : r.1.keys.length + r.2 = m.keys.length
  unchanged : ∀ k e, r.1.lookup k = some e → m.lookup k = some e
  sentinel : ∀ k e, m.lookup k = some e → isSentinel now e = true → r.1.lookup k = some e
  oldest : ∀ k e k' e', m.lookup k = some e → k ∉ r.1 → r.1.lookup k' = some e' →
    isSentinel now e' = false → e.expiresAt ≤ e'.expiresAt

/-- The calls that change the number of entries. -/
inductive CacheCall
  | insert (now : ℕ) (key : U64) (entry : CacheEntry)
  | evict (now targetLen : ℕ)

/-- One call, with room for `cap` entries. -/
def CacheCall.step (select : ℕ → List Slot → List Slot) (cap : ℕ) (m : CacheMap) :
    CacheCall → CacheMap
  | insert now key entry => cacheInsert now key entry cap m
  | evict now targetLen => (evictOldestBy select now targetLen m).1

section Evict

variable {select : ℕ → List Slot → List Slot} {now targetLen cap : ℕ} {m : CacheMap} {k key : U64}
  {entry e : CacheEntry}

theorem mem_candidates {kv : Slot} :
    kv ∈ candidates now m ↔ m.lookup kv.1 = some kv.2 ∧ isSentinel now kv.2 = false := by
  rw [candidates, mem_filter, Map.lookup_eq_some_iff, Bool.not_eq_true']

theorem length_keys_insert (entry : CacheEntry) (hnew : key ∉ m) :
    (m.insert key entry).keys.length = m.keys.length + 1 := by
  rw [keys_insert, erase_of_not_mem fun h => hnew (mem_keys.mpr h), length_cons]

theorem lookup_cacheInsert_other {maxEntries : ℕ}
    (h : m.lookup k = some e) (hlive : now < e.expiresAt) (hne : key ≠ k) :
    (cacheInsert now key entry maxEntries m).lookup k = some e := by
  rw [cacheInsert]
  split_ifs
  · split
    · rename_i kv hfind
      have hvictim : kv.1 ≠ k := by
        rintro rfl
        have hlookup : m.lookup kv.1 = some kv.2 :=
          lookup_eq_some_iff.mpr (mem_of_find?_eq_some hfind)
        have hexpired := find?_some hfind
        rw [h] at hlookup
        simp [← Option.some.inj hlookup, hlive.not_ge] at hexpired
      rw [lookup_insert_eq, if_neg (Ne.symm hne), lookup_erase_eq, if_neg (Ne.symm hvictim)]
      exact h
    · exact h
  · rw [lookup_insert_eq, if_neg (Ne.symm hne)]
    exact h

theorem length_keys_erase (h : k ∈ m) : (m.erase k).keys.length + 1 = m.keys.length := by
  have hmem := AList.mem_keys.mp h
  have hpos := length_pos_of_mem hmem
  rw [AList.keys_erase, length_erase_of_mem hmem]
  omega

theorem foldl_removeCounted {kvs : List Slot} (hnodup : kvs.NodupKeys)
    (hmem : ∀ kv ∈ kvs, kv.1 ∈ m) (n : ℕ) :
    (kvs.foldl removeCounted (m, n)).2 = n + kvs.length ∧
      (kvs.foldl removeCounted (m, n)).1.keys.length + kvs.length = m.keys.length ∧
      ∀ k e, (kvs.foldl removeCounted (m, n)).1.lookup k = some e ↔
        k ∉ kvs.keys ∧ m.lookup k = some e := by
  induction kvs generalizing m n with
  | nil => simp
  | cons kv kvs ih =>
    obtain ⟨hkv, hkvs⟩ := forall_mem_cons.mp hmem
    obtain ⟨hnew, hnodup⟩ := nodupKeys_cons.mp hnodup
    have hleft : ∀ q ∈ kvs, q.1 ∈ m.erase kv.1 := fun q hq =>
      mem_erase.mpr ⟨fun heq => hnew (heq ▸ mem_keys_of_mem hq), hkvs q hq⟩
    have hstep : removeCounted (m, n) kv = (m.erase kv.1, n + 1) := if_pos hkv
    obtain ⟨hcount, hlen, hlookup⟩ := ih hnodup hleft (n + 1)
    have hone := length_keys_erase hkv
    rw [foldl_cons, hstep, length_cons]
    refine ⟨by omega, by omega, ?_⟩
    intro k e
    rw [hlookup, lookup_erase_eq, keys_cons]
    by_cases hk : k = kv.1 <;> simp [hk]

theorem evictsExactly_none (h : min (m.keys.length - targetLen) (candidates now m).length = 0) :
    EvictsExactly now targetLen m (m, 0) where
  count := h.symm
  length := rfl
  unchanged _ _ hk := hk
  sentinel _ _ hk _ := hk
  oldest _ e _ _ hk hnot _ _ := absurd (mem_iff_lookup.mpr ⟨e, hk⟩) hnot

theorem evictOldestBy_exact (hselect : Selects select) :
    EvictsExactly now targetLen m (evictOldestBy select now targetLen m) := by
  rw [evictOldestBy]
  split_ifs with hfits hnone
  · exact evictsExactly_none (by omega)
  · exact evictsExactly_none (by rw [isEmpty_iff.mp hnone]; exact Nat.min_zero _)
  · have hpos := length_pos_iff.mpr fun h => hnone (isEmpty_iff.mpr h)
    generalize hn : min (m.keys.length - targetLen) (candidates now m).length = n
    dsimp only
    generalize hchosen : (if n < (candidates now m).length then select (n - 1) (candidates now m)
      else candidates now m) = chosen
    have hsel : chosen.Perm (candidates now m) ∧
        ∀ a ∈ chosen.take n, ∀ b ∈ chosen.drop n, a.2.expiresAt ≤ b.2.expiresAt := by
      rw [← hchosen]
      split_ifs with hlt
      · have hsel := hselect (n - 1) (candidates now m) (by omega)
        rwa [Nat.sub_add_cancel (by omega)] at hsel
      · rw [drop_eq_nil_of_le (by omega)]
        exact ⟨.rfl, fun _ _ _ h => absurd h not_mem_nil⟩
    obtain ⟨hperm, hfirst⟩ := hsel
    have hcand : ∀ kv ∈ chosen.take n, m.lookup kv.1 = some kv.2 ∧ isSentinel now kv.2 = false :=
      fun kv hkv => mem_candidates.mp (hperm.mem_iff.mp (mem_of_mem_take hkv))
    have hnodup : (chosen.take n).NodupKeys :=
      ((perm_nodupKeys hperm).mpr (m.nodupKeys.sublist filter_sublist)).sublist (take_sublist _ _)
    obtain ⟨hcount, hlen, hlookup⟩ := foldl_removeCounted hnodup
      (fun kv hkv => mem_iff_lookup.mpr ⟨_, (hcand kv hkv).1⟩) 0
    have htaken : (chosen.take n).length = n := by
      rw [length_take, hperm.length_eq]
      omega
    refine ⟨by omega, by omega, fun k e hk => ((hlookup k e).mp hk).2, ?_, ?_⟩
    · intro k e hk hs
      refine (hlookup k e).mpr ⟨fun hin => ?_, hk⟩
      obtain ⟨e', hmem⟩ := exists_of_mem_keys hin
      obtain ⟨he', hs'⟩ := hcand _ hmem
      rw [hk, Option.some_inj] at he'
      rw [← he', hs] at hs'
      cases hs'
    · intro k e k' e' hk hgone hk' hs'
      obtain ⟨hout, hold⟩ := (hlookup k' e').mp hk'
      have hin : k ∈ (chosen.take n).keys := by
        by_contra hnot
        exact hgone (mem_iff_lookup.mpr ⟨e, (hlookup k e).mpr ⟨hnot, hk⟩⟩)
      obtain ⟨e1, hmem⟩ := exists_of_mem_keys hin
      have he1 := (hcand _ hmem).1
      rw [hk, Option.some_inj] at he1
      have hmem' : (⟨k', e'⟩ : Slot) ∈ chosen.take n ++ chosen.drop n := by
        rw [take_append_drop, hperm.mem_iff]
        exact mem_candidates.mpr ⟨hold, hs'⟩
      rcases mem_append.mp hmem' with htake | hdrop
      · exact absurd (mem_keys_of_mem htake) hout
      · rw [he1]
        exact hfirst _ hmem _ hdrop

theorem length_cacheInsert_le :
    (cacheInsert now key entry cap m).keys.length ≤ max cap m.keys.length := by
  rw [cacheInsert]
  split_ifs with hfull
  · split
    · rename_i kv hfind
      have hmem : kv.1 ∈ m := mem_keys_of_mem (mem_of_find?_eq_some hfind)
      have hone := length_keys_erase hmem
      rw [length_keys_insert entry fun h => hfull.2 (mem_erase.mp h).2]
      omega
    · omega
  · by_cases hmem : key ∈ m
    · have hle := length_insert_of_mem hmem entry
      simp only [AList.keys, List.keys, length_map]
      omega
    · rw [length_keys_insert entry hmem]
      have hroom : m.keys.length < cap := not_le.mp fun h => hfull ⟨h, hmem⟩
      omega

/-- **`evict_oldest` is exact, no run of calls makes the cache larger than its cap or than it was,
and a new entry takes the place of expired ones only.** -/
theorem eviction_exact (hselect : Selects select) (m : CacheMap) :
    (∀ now targetLen, EvictsExactly now targetLen m (evictOldestBy select now targetLen m)) ∧
      (∀ cap (calls : List CacheCall), (calls.foldl (CacheCall.step select cap) m).keys.length ≤
        max cap m.keys.length) ∧
      ∀ now key entry cap k e, key ∉ m → m.lookup k = some e → now < e.expiresAt →
        (cacheInsert now key entry cap m).lookup k = some e := by
  refine ⟨fun _ _ => evictOldestBy_exact hselect, ?_, ?_⟩
  · intro cap calls
    induction calls generalizing m with
    | nil => exact le_max_right _ _
    | cons call calls ih =>
      have hstep : (call.step select cap m).keys.length ≤ max cap m.keys.length := by
        cases call with
        | insert now key entry => exact length_cacheInsert_le
        | evict now targetLen =>
          have hexact : EvictsExactly now targetLen m (evictOldestBy select now targetLen m) :=
            evictOldestBy_exact hselect
          exact le_max_of_le_right (Nat.le.intro hexact.length)
      have hrest := ih (call.step select cap m)
      rw [foldl_cons]
      omega
  · rintro now key entry cap k e hnew hk hlive
    refine lookup_cacheInsert_other hk hlive ?_
    rintro rfl
    exact hnew (mem_iff_lookup.mpr ⟨e, hk⟩)

/-- The order of expiry. -/
def expiresLe (a b : Slot) : Prop := a.2.expiresAt ≤ b.2.expiresAt

instance : DecidableRel expiresLe := fun a b => Nat.decLe a.2.expiresAt b.2.expiresAt

instance : Std.Total expiresLe := ⟨fun a b => Nat.le_total a.2.expiresAt b.2.expiresAt⟩

instance : IsTrans Slot expiresLe := ⟨fun _ _ _ => Nat.le_trans⟩

/-- One of the choices a selection may make. -/
def sortSelect (_ : ℕ) (l : List Slot) : List Slot := l.insertionSort expiresLe

theorem selects_sortSelect : Selects sortSelect := by
  intro i l _
  refine ⟨perm_insertionSort expiresLe l, fun a ha b hb => ?_⟩
  have hsorted := pairwise_insertionSort expiresLe l
  rw [← take_append_drop (i + 1) (insertionSort expiresLe l), pairwise_append] at hsorted
  exact hsorted.2.2 a ha b hb

/-- The local entry of `dlpjrry. A`, stored at the start. -/
def localD : CacheEntry := ⟨responseD, sentinelExpires 0, nameD.wire⟩

/-- The local entry and two responses, one of which expires before the other. -/
def fullCache : CacheMap :=
  cacheInsertLocal (cacheKey true nameD.wire Rtype.A) localD
    ((∅ : CacheMap).insert 1 ⟨[0, 0], 200, [1, 98, 0]⟩ |>.insert 2 ⟨[0, 0], 100, [1, 99, 0]⟩)

/-- Of three entries two are to stay: the response that expires first goes. -/
theorem eviction_exact_sorted :
    (evictOldestBy sortSelect 10 2 fullCache).2 = 1 ∧
      2 ∉ (evictOldestBy sortSelect 10 2 fullCache).1 ∧
      1 ∈ (evictOldestBy sortSelect 10 2 fullCache).1 ∧
      EvictsExactly 10 2 fullCache (evictOldestBy sortSelect 10 2 fullCache) :=
  ⟨by decide +kernel, by decide +kernel, by decide +kernel,
    (eviction_exact selects_sortSelect fullCache).1 10 2⟩

/-- `evict_oldest` (dns/cache_snapshot.rs:227) with that selection. -/
def evictOldest (now targetLen : ℕ) (m : CacheMap) : CacheMap :=
  (evictOldestBy sortSelect now targetLen m).1

/-- `evict_oldest` never takes local data. -/
theorem lookup_evictOldest (h : m.lookup k = some e) (hs : isSentinel now e = true)
    (targetLen : ℕ) : (evictOldest now targetLen m).lookup k = some e :=
  (evictOldestBy_exact selects_sortSelect).sentinel k e h hs

end Evict

/-! ## Entries that stay -/

/-- What is done with the shared cache between two resyncs. -/
inductive SharedOp
  | insert (now : ℕ) (key : U64) (entry : CacheEntry) (maxEntries : ℕ)
  | insertLocal (now : ℕ) (key : U64) (entry : CacheEntry)
  | evictOldest (now targetLen : ℕ)
  | publish (now : ℕ) (evict : Bool)

/-- The clock of an operation. -/
def SharedOp.now : SharedOp → ℕ
  | insert now .. => now
  | insertLocal now .. => now
  | evictOldest now _ => now
  | publish now _ => now

/-- One operation. -/
def SharedOp.step (s : CacheState) : SharedOp → CacheState
  | insert now key entry maxEntries => { s with cache := cacheInsert now key entry maxEntries s.cache }
  | insertLocal _ key entry => { s with cache := cacheInsertLocal key entry s.cache }
  | evictOldest now targetLen => { s with cache := FastPath.evictOldest now targetLen s.cache }
  | publish now evict =>
    let cache := if evict then evictExpired now s.cache else s.cache
    { s with cache, snapshot := FastPath.publish now cache }

/-- The entry is there after the operation, and in the snapshot if the operation publishes one. -/
def SharedOp.Keeps (k : U64) (e : CacheEntry) (s : CacheState) (op : SharedOp) : Prop :=
  (op.step s).cache.lookup k = some e ∧
    ∀ now evict, op = .publish now evict → (op.step s).snapshot.lookup k = some e

/-- No other entry is stored under the key. -/
def SharedOp.Spares (k : U64) (e : CacheEntry) : SharedOp → Prop
  | insert _ key entry _ => key = k → entry = e
  | insertLocal _ key entry => key = k → entry = e
  | _ => True

section Stays

variable {k : U64} {e entry : CacheEntry} {m : CacheMap} {now : ℕ}

theorem lt_expiresAt (h : isSentinel now e = true) : now < e.expiresAt := by
  have hlt : now + 50 * yearSecs < e.expiresAt := of_decide_eq_true h
  omega

theorem lookup_cacheInsert_self {maxEntries : ℕ} (h : m.lookup k = some e) :
    (cacheInsert now k entry maxEntries m).lookup k = some entry := by
  have hmem : k ∈ m := mem_iff_lookup.mpr ⟨e, h⟩
  rw [cacheInsert, if_neg (fun hfull => hfull.2 hmem), lookup_insert_eq, if_pos rfl]

/-- One operation keeps the local entry exactly if it stores no other one under its key. -/
theorem SharedOp.keeps_iff {s : CacheState} {op : SharedOp} (h : s.cache.lookup k = some e)
    (hs : isSentinel op.now e = true) : op.Keeps k e s ↔ op.Spares k e := by
  cases op with
  | insert now key entry maxEntries =>
    have hcache : (cacheInsert now key entry maxEntries s.cache).lookup k = some e ↔
        (key = k → entry = e) := by
      by_cases hkey : key = k
      · subst hkey
        rw [lookup_cacheInsert_self h, Option.some_inj]
        exact ⟨fun heq _ => heq, fun heq => heq rfl⟩
      · exact ⟨fun _ heq => absurd heq hkey, fun _ => lookup_cacheInsert_other h (lt_expiresAt hs) hkey⟩
    exact ⟨fun hk => hcache.mp hk.1, fun hk => ⟨hcache.mpr hk, fun _ _ heq => (by cases heq)⟩⟩
  | insertLocal now key entry =>
    have hcache : (cacheInsertLocal key entry s.cache).lookup k = some e ↔
        (key = k → entry = e) := by
      rw [cacheInsertLocal, lookup_insert_eq]
      split_ifs with hkey
      · rw [Option.some_inj]
        exact ⟨fun heq _ => heq, fun heq => heq hkey.symm⟩
      · exact ⟨fun _ heq => absurd heq.symm hkey, fun _ => h⟩
    exact ⟨fun hk => hcache.mp hk.1, fun hk => ⟨hcache.mpr hk, fun _ _ heq => (by cases heq)⟩⟩
  | evictOldest now targetLen =>
    exact ⟨fun _ => trivial, fun _ => ⟨lookup_evictOldest h hs targetLen,
      fun _ _ heq => (by cases heq)⟩⟩
  | publish now evict =>
    have hlive : now < e.expiresAt := lt_expiresAt hs
    have hcache : (if evict then evictExpired now s.cache else s.cache).lookup k = some e := by
      split_ifs
      · rw [evictExpired, lookup_retain, h]
        simp [hlive]
      · exact h
    refine ⟨fun _ => trivial, fun _ => ⟨hcache, fun _ _ _ => ?_⟩⟩
    show (FastPath.publish now _).lookup k = some e
    rw [FastPath.publish, lookup_retain, hcache]
    simp [hlive]

/-- **Local data stay in the cache, unchanged and in every snapshot, exactly if no other entry is
stored under their key.** -/
theorem local_stays_iff {s : CacheState} {ops : List SharedOp} (h : s.cache.lookup k = some e)
    (hs : ∀ op ∈ ops, isSentinel op.now e = true) :
    Each SharedOp.step (SharedOp.Keeps k e) s ops ↔ ∀ op ∈ ops, op.Spares k e := by
  induction ops generalizing s with
  | nil => simp [Each]
  | cons op ops ih =>
    obtain ⟨hop, hops⟩ := forall_mem_cons.mp hs
    rw [Each, forall_mem_cons, SharedOp.keeps_iff h hop]
    refine and_congr_right fun hspares => ?_
    exact ih ((SharedOp.keeps_iff h hop).mpr hspares).1 hops

/-- The cache with the local entry of `dlpjrry. A`. -/
def stateD : CacheState := { cache := cacheInsertLocal (cacheKey true nameD.wire Rtype.A) localD ∅ }

theorem local_stays_iff_published :
    Each SharedOp.step (SharedOp.Keeps (cacheKey true nameD.wire Rtype.A) localD) stateD
        [.evictOldest 10 0, .publish 20 true] ↔
      ∀ op ∈ [SharedOp.evictOldest 10 0, .publish 20 true],
        op.Spares (cacheKey true nameD.wire Rtype.A) localD :=
  local_stays_iff (by decide +kernel) (by decide)

/-- A response from upstream for `aiyifwg. A`, a name with the same hash, takes its place. -/
theorem local_displaced :
    let upstream : CacheEntry := ⟨[0, 0], 320, nameI.wire⟩
    let op := SharedOp.insert 20 (cacheKey true nameI.wire Rtype.A) upstream 1000
    stateD.cache.lookup (cacheKey true nameD.wire Rtype.A) = some localD ∧
      (op.step stateD).cache.lookup (cacheKey true nameD.wire Rtype.A) = some upstream := by
  decide +kernel

end Stays

end Runbound.FastPath
