import Runbound.FastPath.Persist
import Runbound.Local.ZoneSet

/-!
# Cache hits and the question they answer

Runs of the cache: what the server stores, the preload of local data, saving to disk,
loading from disk, restarts and the publication of snapshots. The file keeps keys and
payloads but not the question names, so an entry that was restored from it would answer
every name of its hash; but nothing is ever restored (`load_saved`).

* `step_sound`, `run_sound`: every entry, in the map and in the snapshot, holds the name it
  was stored for, and the file is one that was saved.
* `hit_right`: a hit answers the question asked.
* `reload_local`: after a restart the cache holds the local data of the new zone set only.
-/

namespace Runbound.FastPath

open Wire Lib Local List Map

/-- The process and its disk. -/
structure CacheState where
  cache : CacheMap := ∅
  snapshot : CacheMap := ∅
  file : Option Bytes := none

/-- A zone set whose index is keyed by the hash of its names. -/
structure IndexedZones (hw : Bool) where
  zones : LocalZoneSet
  keyed : ∀ key e, zones.wireRecords.lookup key = some e →
    key = hashWireQname hw e.wireQname ∧ e.wireQname ≠ []

/-- The zone set of a configuration. -/
def IndexedZones.ofConfig (hw : Bool) (iter : IterOrder) (zs : List LocalZone)
    (data : List LocalData) : IndexedZones hw where
  zones := fromConfig hw iter zs data
  keyed := by
    intro key e h
    obtain ⟨hkey, recs, hrecs, -⟩ := fromConfig_indexed hw iter zs data key e h
    obtain ⟨n, hn⟩ := mem_configRecords (Map.mem_iff_lookup.mpr ⟨recs, hrecs⟩)
    exact ⟨hkey, by rw [hn]; exact wireNameKey_ne_nil n⟩

/-- What happens to the cache. A save may fail to write its file; a load reads into a buffer of the
    allocator. -/
inductive CacheOp (hw : Bool)
  | cacheWire (now : ℕ) (q : Question) (respWire : Bytes) (records : List Record)
  | cacheNegative (now : ℕ) (q : Question) (respWire : Bytes) (negTtl : U32)
  | preload (now : ℕ) (signing : Bool) (z : IndexedZones hw)
  | save (now nowUnix : ℕ) (written : Bool)
  | load (buf : HeapAddr) (now nowUnix : ℕ)
  | restart
  | publish (now : ℕ) (evict : Bool)

namespace CacheOp

variable {hw : Bool}

/-- The questions, as lowercased wire name and type, and the payloads an operation stores. -/
def stores : CacheOp hw → List (Bytes × U16 × Bytes)
  | cacheWire _ q respWire _ => [(lower q.name.wire, q.qtype, respWire)]
  | cacheNegative _ q respWire _ => [(lower q.name.wire, q.qtype, respWire)]
  | preload now _ z =>
    z.zones.wireRecords.entries.flatMap fun e => [Rtype.A, Rtype.AAAA].filterMap fun qtype =>
      (localZoneEntry (sentinelExpires now) e.1 e.2 qtype).map fun p =>
        (e.2.wireQname, qtype, p.2.wirePayload)
  | _ => []

/-- One operation. -/
def step (rkyv : Rkyv) (cfg : CacheCfg) (s : CacheState) : CacheOp hw → CacheState
  | cacheWire now q respWire records =>
    { s with cache := maybeCacheWire hw cfg now q respWire records s.cache }
  | cacheNegative now q respWire negTtl =>
    { s with cache := maybeCacheNegative hw cfg now q respWire negTtl s.cache }
  | preload now signing z => { s with cache := preloadIntoCache signing now z.zones s.cache }
  | save now nowUnix written =>
    -- the file is replaced by a rename, or stays
    match saveXdpCache rkyv now nowUnix s.cache with
    | some saved => if written then { s with file := some saved.2 } else s
    | none => s
  | load buf now nowUnix =>
    { s with cache := (loadXdpCache rkyv buf now nowUnix cfg.maxEntries s.file s.cache).1 }
  | restart => { s with cache := ∅, snapshot := ∅ }
  | publish now evict =>
    let cache := if evict then evictExpired now s.cache else s.cache
    { s with cache, snapshot := FastPath.publish now cache }

/-- A run from an empty process. -/
def run (rkyv : Rkyv) (cfg : CacheCfg) (ops : List (CacheOp hw)) : CacheState :=
  ops.foldl (step rkyv cfg) {}

end CacheOp

/-! ## Where entries come from -/

section Sound

variable {hw : Bool} {S : Bytes → U16 → Bytes → Prop}

section

variable (hw : Bool) (S : Bytes → U16 → Bytes → Prop)
include hw

/-- The payload was stored for the name the entry holds, under a key of that name. -/
def EntrySound (key : U64) (e : CacheEntry) : Prop :=
  ∃ t, S e.wireQname t e.wirePayload ∧ key = cacheKey hw e.wireQname t ∧ e.wireQname ≠ []

/-- Every entry of the map is sound. -/
def MapSound (m : CacheMap) : Prop := ∀ key e, m.lookup key = some e → EntrySound hw S key e

end

theorem mapSound_empty : MapSound hw S ∅ := by
  intro key e h
  cases h

variable {m : CacheMap}

section

variable (h : MapSound hw S m)
include h

theorem MapSound.cacheInsert {now maxEntries : ℕ} {key : U64}
    {entry : CacheEntry} (he : EntrySound hw S key entry) :
    MapSound hw S (cacheInsert now key entry maxEntries m) := by
  intro k e hl
  rcases lookup_cacheInsert hl with ⟨rfl, rfl⟩ | hl
  · exact he
  · exact h k e hl

theorem MapSound.retain (p : U64 → CacheEntry → Bool) : MapSound hw S (Map.retain p m) := by
  intro k e hl
  rw [lookup_retain, Option.filter_eq_some_iff] at hl
  exact h k e hl.1

theorem MapSound.storeFor {cfg : CacheCfg} {now : ℕ} {q : Question}
    {respWire : Bytes} {ttl : U32} (hs : S (lower q.name.wire) q.qtype respWire) :
    MapSound hw S (storeFor hw cfg now q respWire ttl m) :=
  h.cacheInsert ⟨_, hs, rfl, wireNameKey_ne_nil q.name⟩

theorem MapSound.insertAll {es : List (U64 × CacheEntry)}
    (hes : ∀ p ∈ es, EntrySound hw S p.1 p.2) : MapSound hw S (Map.insertAll es m) := by
  intro k e hl
  rcases lookup_insertAll hl with hmem | ⟨-, hl⟩
  · exact hes _ hmem
  · exact h k e hl

end

end Sound

/-! ## Runs -/

section Runs

variable {hw : Bool} {rkyv : Rkyv} {cfg : CacheCfg} {S : Bytes → U16 → Bytes → Prop}

/-- The state is sound: map, snapshot and file. -/
structure StateSound (hw : Bool) (rkyv : Rkyv) (S : Bytes → U16 → Bytes → Prop) (s : CacheState) :
    Prop where
  cache : MapSound hw S s.cache
  snapshot : MapSound hw S s.snapshot
  file : ∀ f ∈ s.file, ∃ now nowUnix m n, saveXdpCache rkyv now nowUnix m = some (n, f)

/-- Whatever file there is, it restores nothing. -/
theorem StateSound.load {s : CacheState} (h : StateSound hw rkyv S s) (buf : HeapAddr)
    (now nowUnix : ℕ) : (CacheOp.load buf now nowUnix : CacheOp hw).step rkyv cfg s = s := by
  have hload : loadXdpCache rkyv buf now nowUnix cfg.maxEntries s.file s.cache = (s.cache, 0) := by
    cases hf : s.file with
    | none => rfl
    | some f =>
      obtain ⟨now', nowUnix', m, n, hsave⟩ := h.file f hf
      exact load_saved hsave buf
  simp only [CacheOp.step, hload]

theorem step_sound {op : CacheOp hw} (hS : ∀ n t p, (n, t, p) ∈ op.stores → S n t p)
    {s : CacheState} (h : StateSound hw rkyv S s) : StateSound hw rkyv S (op.step rkyv cfg s) := by
  cases op with
  | cacheWire now q respWire records =>
    refine ⟨?_, h.snapshot, h.file⟩
    simp only [CacheOp.step, maybeCacheWire]
    split_ifs
    · exact h.cache
    · exact h.cache.storeFor (hS _ _ _ (by simp [CacheOp.stores]))
  | cacheNegative now q respWire negTtl =>
    refine ⟨?_, h.snapshot, h.file⟩
    simp only [CacheOp.step, maybeCacheNegative]
    split_ifs
    · exact h.cache
    · exact h.cache.storeFor (hS _ _ _ (by simp [CacheOp.stores]))
  | preload now signing z =>
    refine ⟨?_, h.snapshot, h.file⟩
    simp only [CacheOp.step, preloadIntoCache]
    split_ifs
    · exact h.cache
    refine h.cache.insertAll fun p hp => ?_
    obtain ⟨key, e, qtype, hl, ht, hp⟩ := mem_localZoneEntries.mp hp
    have hstored : (e.wireQname, qtype, p.2.wirePayload) ∈
        (CacheOp.preload now signing z).stores := by
      simp only [CacheOp.stores, mem_flatMap, mem_filterMap, Option.map_eq_some_iff]
      exact ⟨⟨key, e⟩, lookup_eq_some_iff.mp hl, qtype, by simpa using ht, p, hp, rfl⟩
    obtain ⟨hkey, hne⟩ := z.keyed key e hl
    obtain ⟨-, payload, -, rfl⟩ := localZoneEntry_eq_some_iff.mp hp
    exact ⟨qtype, hS _ _ _ hstored, by rw [cacheKey, ← hkey], hne⟩
  | save now nowUnix written =>
    simp only [CacheOp.step]
    cases hsave : saveXdpCache rkyv now nowUnix s.cache with
    | none => exact h
    | some saved =>
      cases written with
      | false => exact h
      | true =>
        refine ⟨h.cache, h.snapshot, fun f hf => ?_⟩
        cases hf
        exact ⟨now, nowUnix, s.cache, saved.1, hsave⟩
  | load buf now nowUnix => rwa [h.load]
  | restart => exact ⟨mapSound_empty, mapSound_empty, h.file⟩
  | publish now evict =>
    have hcache : MapSound hw S (if evict then evictExpired now s.cache else s.cache) := by
      split_ifs
      · exact h.cache.retain _
      · exact h.cache
    exact ⟨hcache, hcache.retain _, h.file⟩

/-- A question and payload were stored in the run. -/
def StoredFor (ops : List (CacheOp hw)) (n : Bytes) (t : U16) (payload : Bytes) : Prop :=
  ∃ op ∈ ops, (n, t, payload) ∈ op.stores

theorem run_sound (rkyv : Rkyv) (cfg : CacheCfg) (ops : List (CacheOp hw)) :
    StateSound hw rkyv (StoredFor ops) (CacheOp.run rkyv cfg ops) := by
  refine List.foldlRecOn ops _ ⟨mapSound_empty, mapSound_empty, by simp⟩ fun s hs op hop => ?_
  exact step_sound (fun n t p h => ⟨op, hop, h⟩) hs

/-- A hit in a sound table answers the question asked: the entry holds its name, and for one name
    the key tells the type. -/
theorem MapSound.hit {m : CacheMap} (h : MapSound hw S m) {Ip : Type} {acc : Access Ip}
    {src : Option Ip} {txLen now pos : ℕ} {b r n : Bytes} {t : U16}
    (hq : cacheQuestion b = some (n, t, pos))
    (hhit : answerFromCache hw acc src txLen now m b = some r) :
    ∃ payload, r = copyOut b payload ∧ S n t payload := by
  obtain ⟨n', t', pos', e, hq', -, -, hl, hname, -, -, -, hr⟩ := answerFromCache_eq_some_iff.mp hhit
  rw [hq] at hq'
  cases hq'
  refine ⟨e.wirePayload, hr, ?_⟩
  obtain ⟨t', hs, hkey, hne⟩ := h _ e hl
  obtain rfl := hname.resolve_left hne
  rwa [cacheKey_inj hkey]

/-- After any run, a hit hands out a payload that was stored for the name and type asked. -/
theorem hit_right (rkyv : Rkyv) (cfg : CacheCfg) (ops : List (CacheOp hw)) {Ip : Type}
    (acc : Access Ip) (src : Option Ip) (txLen now : ℕ) (b r n : Bytes) (t : U16) (pos : ℕ)
    (hq : cacheQuestion b = some (n, t, pos))
    (hhit : answerFromCache hw acc src txLen now (CacheOp.run rkyv cfg ops).snapshot b = some r) :
    ∃ payload, r = copyOut b payload ∧ StoredFor ops n t payload :=
  (run_sound rkyv cfg ops).snapshot.hit hq hhit

/-- What a restart, the load and the preload leave, whatever ran before. -/
theorem run_reload (ops : List (CacheOp hw)) (buf : HeapAddr) (now nowUnix t : ℕ) (signing : Bool)
    (z : IndexedZones hw) :
    (CacheOp.run rkyv cfg (ops ++ [.restart, .load buf now nowUnix, .preload t signing z])).cache =
      preloadIntoCache signing t z.zones ∅ := by
  have hrestart : StateSound hw rkyv (StoredFor ops)
      (CacheOp.restart.step rkyv cfg (CacheOp.run rkyv cfg ops)) :=
    step_sound (fun n t p h => by cases h) (run_sound rkyv cfg ops)
  rw [CacheOp.run, foldl_append]
  show preloadIntoCache signing t z.zones ((CacheOp.load buf now nowUnix).step rkyv cfg
    (CacheOp.restart.step rkyv cfg (CacheOp.run rkyv cfg ops))).cache = _
  rw [hrestart.load]
  rfl

/-- However the cache was filled and saved before: after a restart, the load and the preload of
    the new zone set, its entries are those of the new zone set; and once they are published a hit
    hands out a payload that the new zone set has for the name and type asked. -/
theorem reload_local (rkyv : Rkyv) (cfg : CacheCfg) (ops : List (CacheOp hw)) (buf : HeapAddr)
    (now nowUnix t : ℕ) (signing : Bool) (z : IndexedZones hw) :
    let cache := (CacheOp.run rkyv cfg
      (ops ++ [.restart, .load buf now nowUnix, .preload t signing z])).cache
    (∀ k e, cache.lookup k = some e → isSentinel t e = true →
      (k, e) ∈ localZoneEntries t z.zones) ∧
    ∀ (now' : ℕ) {Ip : Type} (acc : Access Ip) (src : Option Ip) (txLen : ℕ) (b r n : Bytes)
      (qtype : U16) (pos : ℕ), cacheQuestion b = some (n, qtype, pos) →
      answerFromCache hw acc src txLen now' (publish now' cache) b = some r →
      ∃ payload, r = copyOut b payload ∧
        (n, qtype, payload) ∈ (CacheOp.preload t signing z).stores := by
  intro cache
  have hcache : cache = preloadIntoCache signing t z.zones ∅ := run_reload ops buf now nowUnix t _ z
  constructor
  · intro k e hl _
    rw [hcache, preloadIntoCache] at hl
    split_ifs at hl
    · cases hl
    · rcases lookup_insertAll hl with hmem | ⟨-, hl⟩
      · exact hmem
      · cases hl
  · intro now' Ip acc src txLen b r n qtype pos hq hhit
    have hsound := run_sound rkyv cfg [CacheOp.preload t signing z]
    have hpublished : MapSound hw (StoredFor [CacheOp.preload t signing z]) (publish now' cache) := by
      rw [hcache]
      exact hsound.cache.retain _
    obtain ⟨payload, hr, op, hop, hstored⟩ := hpublished.hit hq hhit
    rw [mem_singleton.mp hop] at hstored
    exact ⟨payload, hr, hstored⟩

end Runs

/-! ## Two names of one hash -/

/-- `dlpjrry.` -/
def nameD : Name := ⟨[[100, 108, 112, 106, 114, 114, 121]], by decide⟩

/-- `aiyifwg.`, which has the CRC32c of `dlpjrry.` -/
def nameI : Name := ⟨[[97, 105, 121, 105, 102, 119, 103]], by decide⟩

/-- `name A` -/
def questionA (name : Name) : Question := ⟨name, Rtype.A, Class.IN⟩

theorem recordD_parsed : (Rdata.a ![10, 0, 0, 1]).parsedAs Rtype.A = true := rfl

/-- `dlpjrry. 300 A 10.0.0.1` -/
def recordD : Record := ⟨nameD, Rtype.A, Class.IN, 300, .a ![10, 0, 0, 1], recordD_parsed⟩

/-- The response to `dlpjrry. A`. -/
def responseD : Bytes :=
  Message.encode
    { header := { flags := 0x8180 }
      questions := [questionA nameD]
      answers := [recordD] }

/-- The query `name A`, RD. -/
def queryA (name : Name) : Bytes :=
  Message.encode
    { header := { id := 7, flags := 0x0100 }
      questions := [questionA name] }

/-- No lower bound on lifetimes, a day as the upper one. -/
def dayCfg : CacheCfg := ⟨0, 86400, 1000⟩

/-- Everyone may ask everything. -/
def openAccess : Access Unit := ⟨fun _ => .allow, fun _ _ => false⟩

/-- The response is stored and saved; the next process loads the file, stores the response again
    and publishes it. -/
def storeRun : List (CacheOp true) :=
  [.cacheWire 0 (questionA nameD) responseD [recordD], .save 10 1000 true, .restart,
    .load ⟨16, by decide⟩ 20 1010, .cacheWire 21 (questionA nameD) responseD [recordD],
    .publish 22 false]

theorem hit_right_storeRun :
    answerFromCache true openAccess none 4096 23 (CacheOp.run rkyvLayout dayCfg storeRun).snapshot
        (queryA nameD) = some (copyOut (queryA nameD) responseD) ∧
      ∃ payload, copyOut (queryA nameD) responseD = copyOut (queryA nameD) payload ∧
        StoredFor storeRun nameD.wire Rtype.A payload := by
  have hhit : answerFromCache true openAccess none 4096 23
      (CacheOp.run rkyvLayout dayCfg storeRun).snapshot (queryA nameD) =
        some (copyOut (queryA nameD) responseD) := by decide +kernel
  exact ⟨hhit, hit_right rkyvLayout dayCfg storeRun openAccess none 4096 23 (queryA nameD) _
    nameD.wire Rtype.A 25 (by decide +kernel) hhit⟩

/-- The zone set of one local record `name A 10.0.0.1`. -/
def zonesOf (name : Name) : IndexedZones true :=
  .ofConfig true listOrder [] [.address name 300 ![10, 0, 0, 1]]

/-- `dlpjrry.` is local data, preloaded and saved. -/
def savedRun : List (CacheOp true) :=
  [.preload 0 false (zonesOf nameD), .publish 1 false, .save 10 1000 true]

/-- `dlpjrry.` was removed and `aiyifwg.` added while the server was down: the one that was removed
    is not served, though the other has its key, and the one that was added is. -/
theorem reload_local_savedRun :
    let cache := (CacheOp.run rkyvLayout dayCfg (savedRun ++ [.restart, .load ⟨16, by decide⟩ 20 1010,
      .preload 21 false (zonesOf nameI)])).cache
    (CacheOp.run rkyvLayout dayCfg savedRun).file.isSome = true ∧
    (cache.lookup (cacheKey true nameI.wire Rtype.A)).any (isSentinel 21) = true ∧
    answerFromCache true openAccess none 4096 30 (publish 30 cache) (queryA nameD) = none ∧
    (∀ k e, cache.lookup k = some e → isSentinel 21 e = true →
      (k, e) ∈ localZoneEntries 21 (zonesOf nameI).zones) ∧
    ∃ payload, answerFromCache true openAccess none 4096 30 (publish 30 cache) (queryA nameI) =
        some (copyOut (queryA nameI) payload) ∧
      (nameI.wire, Rtype.A, payload) ∈ (CacheOp.preload 21 false (zonesOf nameI)).stores := by
  intro cache
  have hlocal := reload_local rkyvLayout dayCfg savedRun ⟨16, by decide⟩ 20 1010 21 false
    (zonesOf nameI)
  refine ⟨by decide +kernel, by decide +kernel, by decide +kernel, hlocal.1, ?_⟩
  have hhit : (answerFromCache true openAccess none 4096 30 (publish 30 cache)
      (queryA nameI)).isSome = true := by decide +kernel
  obtain ⟨r, hr⟩ := Option.isSome_iff_exists.mp hhit
  obtain ⟨payload, rfl, hstored⟩ := hlocal.2 30 openAccess none 4096 (queryA nameI) r nameI.wire
    Rtype.A 25 (by decide +kernel) hr
  exact ⟨payload, hr, hstored⟩

end Runbound.FastPath
