import Runbound.Local.Resync

/-!
# The writers of the zone set (`dns/ddns.rs`, `api/mod.rs`, `sync.rs`, `main.rs`)

Five kinds of writer publish a new zone set: the API handlers, dynamic updates, the
slave's synchronisation, the relay and the schedule loop. Only the API handlers (and
SIGHUP) resync the shared cache. A write that copies the current set keeps its index;
one that rebuilds the set from disk replaces it.

* `handleUpdateWire`: RFC 2136 updates.
* `step_coherent_iff`: when a write leaves the never-expiring entries of the cache and
  the local data of the published set the same.
* `run_coherent_iff`: the same for every sequence of writes.
-/

namespace Runbound.Local

open Wire FastPath Lib Rtype Rcode Class Map

/-! ## Dynamic updates -/

/-- The result of the TSIG check (dns/ddns.rs:40-62): no keys are configured, or
    `verify_request` fails with a format error, fails otherwise, or succeeds. -/
inductive TsigOutcome
  | noKeys
  | formErr
  | rejected
  | verified
  deriving DecidableEq

/-- `is_supported_add` (dns/ddns.rs:142). -/
def isSupportedAdd (rt : U16) : Bool := [Rtype.A, AAAA, CNAME, TXT, MX, SRV, NS, PTR].any (rt = ·)

/-- A change of the records of a name that has some (`get_mut`). -/
def LocalZoneSet.filterRecords (key : Bytes) (p : Record → Bool) (z : LocalZoneSet) :
    LocalZoneSet :=
  match z.recordsWire.lookup key with
  | some recs => { z with recordsWire := z.recordsWire.insert key (recs.filter p) }
  | none => z

/-- One record of the update section (dns/ddns.rs:93-134). -/
def applyRr (z : LocalZoneSet) (rr : Record) : LocalZoneSet :=
  let key := wireNameKey rr.name
  if rr.rclass = Class.ANY then
    if rr.rtype = Rtype.ANY then { z with recordsWire := z.recordsWire.erase key }
    else z.filterRecords key fun r => r.rtype ≠ rr.rtype
  else if rr.rclass = NONE then
    z.filterRecords key fun r => !(r.rtype = rr.rtype && r.rdata.eq rr.rdata)
  else if rr.rclass = IN ∧ isSupportedAdd rr.rtype then
    { z with
      zonesWire := Map.orInsert key .static z.zonesWire
      recordsWire := Map.modify key []
        (fun recs =>
          if recs.any fun r => r.rtype = rr.rtype && r.rdata.eq rr.rdata then recs
          else recs ++ [rr])
        z.recordsWire }
  else z

/-- A deletion at a statically configured name (dns/ddns.rs:77-86). -/
def deletesStatic (z : LocalZoneSet) (rr : Record) : Bool :=
  (rr.rclass = Class.ANY || rr.rclass = NONE) && wireNameKey rr.name ∈ z.staticNamesWire

/-- `handle_update_wire` (dns/ddns.rs:32): the rcode and the zone set afterwards. -/
def handleUpdateWire (tsig : TsigOutcome) (msg : Message) (z : LocalZoneSet) : U16 × LocalZoneSet :=
  match tsig with
  | .noKeys => (REFUSED, z)
  | .formErr => (FORMERR, z)
  | .rejected => (REFUSED, z)
  | .verified =>
    if msg.authority = [] then (NOERROR, z)
    else if msg.authority.any (deletesStatic z) then (REFUSED, z)
    else (NOERROR, msg.authority.foldl applyRr z)

@[simp] theorem applyRr_wireRecords (z : LocalZoneSet) (rr : Record) :
    (applyRr z rr).wireRecords = z.wireRecords := by
  unfold applyRr LocalZoneSet.filterRecords
  simp only
  split_ifs <;> first | rfl | (split <;> rfl)

theorem handleUpdateWire_wireRecords (tsig : TsigOutcome) (msg : Message) (z : LocalZoneSet) :
    (handleUpdateWire tsig msg z).2.wireRecords = z.wireRecords := by
  have hfold : ∀ (rrs : List Record) (z : LocalZoneSet),
      (rrs.foldl applyRr z).wireRecords = z.wireRecords := by
    intro rrs
    induction rrs with
    | nil => exact fun z => rfl
    | cons rr rrs ih =>
      intro z
      rw [List.foldl_cons, ih, applyRr_wireRecords]
  unfold handleUpdateWire
  cases tsig with
  | verified =>
    split_ifs
    · rfl
    · rfl
    · exact hfold _ z
  | _ => rfl

/-! ## Building the set from disk -/

/-- What `build_zone_set` reads: the configuration, the store, the blacklist entries that are
    active now and those of the feeds, and `block_page_redirect_ip`. A store entry without
    a line is one that does not parse. -/
structure Disk where
  localZones : List LocalZone := []
  localData : List LocalData := []
  entries : List LocalData := []
  blacklist : List (Bytes × ZoneAction) := []
  feeds : List (Bytes × ZoneAction) := []
  blockPageRedirectIp : Option (Fin 4 → Byte) := none

/-- The block-page record of a key (main.rs:2724-2731). -/
def blockPageRecord (ip : Fin 4 → Byte) (key : Bytes) : Option Record :=
  (Name.parse key 0).toOption.map fun p => ⟨p.1, Rtype.A, IN, 10, .a ip, rfl⟩

/-- The block-page records of all `BlockPage` zones (main.rs:2712-2735). -/
def LocalZoneSet.addBlockPages (ip : Fin 4 → Byte) (z : LocalZoneSet) : LocalZoneSet :=
  let keys := (z.zonesWire.entries.filter fun e => e.2 = .blockPage).map Sigma.fst
  { z with
    recordsWire := keys.foldl (fun m key =>
      match blockPageRecord ip key with
      | some r => Map.modify key [] (· ++ [r]) m
      | none => m) z.recordsWire }

/-- `build_zone_set` (main.rs:2667). -/
def buildZoneSet (hw : Bool) (iter : IterOrder) (disk : Disk) : LocalZoneSet :=
  let z := fromConfig hw iter disk.localZones (disk.localData ++ disk.entries)
  let z := (disk.blacklist ++ disk.feeds).foldl (fun z e => z.overrideZone e.1 e.2) z
  match disk.blockPageRedirectIp with
  | some ip => z.addBlockPages ip
  | none => z

/-! ## The writers -/

/-- The record part of `delete_dns_handler` (api/mod.rs:2047-2066): the first equal record
    goes, and the name with the last of its records. -/
def LocalZoneSet.deleteRecord (wr : Record) (z : LocalZoneSet) : LocalZoneSet :=
  let key := wireNameKey wr.name
  match z.recordsWire.lookup key with
  | none => z
  | some recs =>
    let left := recs.eraseP fun r => r.rtype = wr.rtype && r.rdata.eq wr.rdata
    if left = [] then
      { z with
        recordsWire := z.recordsWire.erase key
        zonesWire := z.zonesWire.erase key }
    else { z with recordsWire := z.recordsWire.insert key left }

/-- A completed write of the zone set. The constructors `sync…` are the events of the slave
    (sync.rs:1417, :1516) and the requests to the relay (sync.rs:1748), which do the same. -/
inductive Write
  /-- `persist_and_swap` (api/mod.rs:1908) -/
  | apiAddDns (line : LocalData)
  /-- `delete_dns_handler` (api/mod.rs:2004) -/
  | apiDeleteDns (line : LocalData)
  /-- Adding a blacklist entry, active now or not (api/mod.rs:2373-2381) -/
  | apiAddBlacklist (domain : Bytes) (action : ZoneAction) (active : Bool)
  /-- Deleting a blacklist entry (api/mod.rs:2460-2463) -/
  | apiDeleteBlacklist (domain : Bytes)
  /-- Reload, feed update and SIGHUP (api/mod.rs:1491, :2602, :2636, main.rs:1070) -/
  | apiRebuild (iter : IterOrder) (disk : Disk)
  /-- `handle_update_wire` (dns/ddns.rs:32) -/
  | dnsUpdate (tsig : TsigOutcome) (msg : Message)
  | syncAddDns (line : LocalData)
  | syncAddBlacklist (domain : Bytes) (action : ZoneAction)
  /-- `full_sync` and the deletions -/
  | syncRebuild (iter : IterOrder) (disk : Disk)
  /-- `schedule_enforce_loop` (main.rs:2641) -/
  | scheduleRebuild (iter : IterOrder) (disk : Disk)

namespace Write

/-- The set that the write publishes. -/
def publish (hw : Bool) (z : LocalZoneSet) : Write → LocalZoneSet
  | apiAddDns line => z.insertRecordStr line
  | apiDeleteDns line => line.rr.elim z fun wr => z.deleteRecord wr.val
  | apiAddBlacklist domain action active => if active then z.overrideZone domain action else z
  | apiDeleteBlacklist domain => z.removeZone domain
  | apiRebuild iter disk => buildZoneSet hw iter disk
  | dnsUpdate tsig msg => (handleUpdateWire tsig msg z).2
  | syncAddDns line => z.insertRecordStr line
  | syncAddBlacklist domain action => z.overrideZone domain action
  | syncRebuild iter disk => buildZoneSet hw iter disk
  | scheduleRebuild iter disk => buildZoneSet hw iter disk

/-- Does the writer call `resync_xdp_cache`? -/
def resyncs : Write → Bool
  | apiAddDns _ | apiAddBlacklist .. | apiDeleteBlacklist _ | apiRebuild .. => true
  | apiDeleteDns line => line.rr.isSome
  | dnsUpdate .. | syncAddDns _ | syncAddBlacklist .. | syncRebuild .. | scheduleRebuild .. => false

end Write

/-- The published zone set and the shared cache. -/
structure Store where
  zones : LocalZoneSet
  cache : CacheMap

/-- A write at time `w.1`, with local-zone signing off. -/
def Store.step (hw : Bool) (s : Store) (w : ℕ × Write) : Store :=
  let new := w.2.publish hw s.zones
  { zones := new
    cache := if w.2.resyncs then resyncXdpCacheInner false w.1 s.zones new s.cache else s.cache }

@[simp] theorem LocalZoneSet.deleteRecord_wireRecords (wr : Record) (z : LocalZoneSet) :
    (z.deleteRecord wr).wireRecords = z.wireRecords := by
  unfold deleteRecord
  simp only
  split
  · rfl
  · split_ifs <;> rfl

/-! ## Local data in the cache -/

/-- Key, payload and name of the entries `local_zone_entries` makes: all but their expiry. -/
def localEntries (z : LocalZoneSet) : Set (U64 × Bytes × Bytes) :=
  { x | ∃ now, ∃ p ∈ localZoneEntries now z, x = (p.1, p.2.wirePayload, p.2.wireQname) }

/-- The never-expiring entries of the cache. -/
def sentinels (now : ℕ) (m : CacheMap) : Set (U64 × Bytes × Bytes) :=
  { x | ∃ e, m.lookup x.1 = some e ∧ isSentinel now e = true ∧ x.2 = (e.wirePayload, e.wireQname) }

/-- The never-expiring entries are those of the published set. -/
def Coherent (now : ℕ) (s : Store) : Prop := sentinels now s.cache = localEntries s.zones

/-- One entry a key. -/
def Functional (x : Set (U64 × Bytes × Bytes)) : Prop :=
  ∀ k p q p' q', (k, p, q) ∈ x → (k, p', q') ∈ x → p = p' ∧ q = q'

/-- Does the write `w` to the set `z` keep cache and set together? A rebuild that resyncs does
    if each old entry is at a key of a zone or of a new entry, and the new entries are one a
    key; one that does not, if it makes the entries there were. All other writes copy the
    index. -/
def Write.Keeps (hw : Bool) (z : LocalZoneSet) : Write → Prop
  | apiRebuild iter disk =>
    (∀ k p q, (k, p, q) ∈ localEntries z → affected z (buildZoneSet hw iter disk) q = false →
      ∃ p' q', (k, p', q') ∈ localEntries (buildZoneSet hw iter disk)) ∧
    Functional (localEntries (buildZoneSet hw iter disk))
  | syncRebuild iter disk | scheduleRebuild iter disk =>
    localEntries (buildZoneSet hw iter disk) = localEntries z
  | _ => True

/-- The time of the process: within fifty years from `t`. -/
def InUptime (t now : ℕ) : Prop := t ≤ now ∧ now < t + 50 * yearSecs

/-- Every entry of the cache is of one kind for the uptime from `t`. -/
def Settled (t : ℕ) (m : CacheMap) : Prop :=
  ∀ k e, m.lookup k = some e → e.expiresAt ≤ t + 50 * yearSecs ∨ t + 100 * yearSecs ≤ e.expiresAt

section

variable {hw : Bool} {t now now' : ℕ} {s : Store} {z z' : LocalZoneSet} {m : CacheMap}
  {w : ℕ × Write}

theorem localEntries_congr (h : z'.wireRecords = z.wireRecords) :
    localEntries z' = localEntries z := by
  simp only [localEntries, localZoneEntries, h]

theorem mem_localEntries (now : ℕ) {k : U64} {p q : Bytes} :
    (k, p, q) ∈ localEntries z ↔ (k, ⟨p, sentinelExpires now, q⟩) ∈ localZoneEntries now z := by
  constructor
  · rintro ⟨now', x, hx, heq⟩
    obtain ⟨key, e, qtype, hl, ht, hx⟩ := mem_localZoneEntries.mp hx
    obtain ⟨hne, payload, hb, rfl⟩ := localZoneEntry_eq_some_iff.mp hx
    obtain ⟨rfl, rfl, rfl⟩ : k = mixType key qtype ∧ p = payload ∧ q = e.wireQname := by
      simpa using heq
    exact mem_localZoneEntries.mpr
      ⟨key, e, qtype, hl, ht, localZoneEntry_eq_some_iff.mpr ⟨hne, p, hb, rfl⟩⟩
  · intro h
    exact ⟨now, _, h, rfl⟩

theorem mem_localEntries_of_mem {k : U64} {e : CacheEntry} (h : (k, e) ∈ localZoneEntries now z) :
    (k, e.wirePayload, e.wireQname) ∈ localEntries z := ⟨now, _, h, rfl⟩

variable (now) in
theorem preloads_iff {k : U64} : preloads false now z k ↔ ∃ p q, (k, p, q) ∈ localEntries z := by
  constructor
  · rintro ⟨-, e, he⟩
    exact ⟨_, _, mem_localEntries_of_mem he⟩
  · rintro ⟨p, q, h⟩
    exact ⟨rfl, _, (mem_localEntries now).mp h⟩

theorem sentinels_functional (now : ℕ) (m : CacheMap) : Functional (sentinels now m) := by
  rintro k p q p' q' ⟨e, he, -, heq⟩ ⟨e', he', -, heq'⟩
  rw [he] at he'
  cases he'
  rw [← heq'] at heq
  simpa using heq

variable (now) in
theorem functional_of_nodup (h : ((localZoneEntries now z).map Prod.fst).Nodup) :
    Functional (localEntries z) := by
  intro k p q p' q' hp hp'
  have heq := List.inj_on_of_nodup_map h ((mem_localEntries now).mp hp)
    ((mem_localEntries now).mp hp') rfl
  simpa using heq

/-- At startup the local data are preloaded into a cache that has none. -/
theorem preload_coherent (hm : ∀ k e, m.lookup k = some e → e.expiresAt ≤ t + 50 * yearSecs)
    (hf : Functional (localEntries z)) :
    Settled t (preloadIntoCache false t z m) ∧ Coherent t ⟨z, preloadIntoCache false t z m⟩ := by
  constructor
  · intro k e he
    rcases lookup_insertAll he with hmem | ⟨-, hl⟩
    · exact Or.inr (expiresAt_of_mem hmem).ge
    · exact Or.inl (hm k e hl)
  · ext ⟨k, p, q⟩
    constructor
    · rintro ⟨e, he, hs, heq⟩
      cases heq
      rcases lookup_insertAll he with hmem | ⟨-, hl⟩
      · exact mem_localEntries_of_mem hmem
      · exact absurd (of_decide_eq_true hs) (hm k e hl).not_gt
    · intro h
      obtain ⟨e, he, hmem⟩ := exists_lookup_insertAll (m := m) ⟨_, (mem_localEntries t).mp h, rfl⟩
      obtain ⟨rfl, rfl⟩ := hf k p q _ _ h (mem_localEntries_of_mem hmem)
      exact ⟨e, he, isSentinel_of_mem hmem, rfl⟩

/-! ## One write -/

theorem Settled.isSentinel_eq (hm : Settled t m) {k : U64} {e : CacheEntry}
    (he : m.lookup k = some e) (hn : InUptime t now) (hn' : InUptime t now') :
    isSentinel now e = isSentinel now' e := by
  have := hm k e he
  unfold isSentinel
  unfold InUptime at hn hn'
  rw [decide_eq_decide]
  omega

theorem Settled.sentinels_eq (hm : Settled t m) (hn : InUptime t now) (hn' : InUptime t now') :
    sentinels now m = sentinels now' m := by
  ext x
  constructor
  · rintro ⟨e, he, hs, hx⟩
    exact ⟨e, he, by rwa [← hm.isSentinel_eq he hn hn'], hx⟩
  · rintro ⟨e, he, hs, hx⟩
    exact ⟨e, he, by rwa [hm.isSentinel_eq he hn hn'], hx⟩

theorem Settled.resync (hm : Settled t m) (hn : InUptime t now) :
    Settled t (resyncXdpCacheInner false now z z' m) := by
  intro k e he
  rcases lookup_resync he with ⟨-, hmem⟩ | ⟨-, hl, -⟩
  · right
    rw [expiresAt_of_mem hmem, sentinelExpires]
    have := hn.1
    omega
  · exact hm k e hl

theorem Settled.step (hm : Settled t s.cache) (hn : InUptime t w.1) :
    Settled t (s.step hw w).cache := by
  unfold Store.step
  split_ifs
  · exact hm.resync hn
  · exact hm

/-- A resync of a cache that held the entries of `z` leaves those of `z'` exactly if the old
    ones it does not drop are overwritten and the new ones do not overwrite each other. -/
theorem resync_coherent_iff (hm : Settled t m) (hn : InUptime t now) (hn' : InUptime t now')
    (hc : sentinels now m = localEntries z) :
    sentinels now' (resyncXdpCacheInner false now' z z' m) = localEntries z' ↔
      (∀ k p q, (k, p, q) ∈ localEntries z → affected z z' q = false →
        ∃ p' q', (k, p', q') ∈ localEntries z') ∧ Functional (localEntries z') := by
  constructor
  · intro h
    refine ⟨?_, h ▸ sentinels_functional now' _⟩
    intro k p q hold haff
    by_contra hnew
    rw [← preloads_iff now'] at hnew
    rw [← hc, hm.sentinels_eq hn hn'] at hold
    obtain ⟨e, he, hs, heq⟩ := hold
    have hq : q = e.wireQname := congrArg Prod.snd heq
    rw [hq] at haff
    have hkept := lookup_resync_of_kept he haff hnew
    have hmem : (k, p, q) ∈ localEntries z' := by
      rw [← h]
      exact ⟨e, hkept, hs, heq⟩
    exact hnew ((preloads_iff _).mpr ⟨p, q, hmem⟩)
  · rintro ⟨hkeys, hfun⟩
    ext ⟨k, p, q⟩
    constructor
    · rintro ⟨e, he, hs, heq⟩
      cases heq
      rcases lookup_resync he with ⟨-, hmem⟩ | ⟨hpre, hl, haff⟩
      · exact mem_localEntries_of_mem hmem
      · -- an old entry that survives under a key the new set does not use
        have hold : (k, e.wirePayload, e.wireQname) ∈ localEntries z := by
          rw [← hc, hm.sentinels_eq hn hn']
          exact ⟨e, hl, hs, rfl⟩
        exact absurd ((preloads_iff _).mpr (hkeys k _ _ hold haff)) hpre
    · intro h
      obtain ⟨e, he, hmem⟩ := exists_lookup_insertAll
        (m := Map.retain (fun _ e => !affected z z' e.wireQname) m)
        ⟨_, (mem_localEntries now').mp h, rfl⟩
      obtain ⟨rfl, rfl⟩ := hfun k p q _ _ h (mem_localEntries_of_mem hmem)
      exact ⟨e, he, isSentinel_of_mem hmem, rfl⟩

section

variable (hm : Settled t s.cache) (hn : InUptime t now) (hn' : InUptime t w.1) (hc : Coherent now s)
include hm hn hn' hc

/-- A write that copies the index keeps cache and set together, whether it resyncs or not. -/
theorem coherent_of_copied (hcopy : (w.2.publish hw s.zones).wireRecords = s.zones.wireRecords) :
    Coherent w.1 (s.step hw w) := by
  have hsame := localEntries_congr hcopy
  unfold Coherent Store.step at *
  split_ifs
  · refine (resync_coherent_iff hm hn hn' hc).mpr ⟨?_, ?_⟩
    · intro k p q h _
      exact ⟨p, q, by rwa [hsame]⟩
    · rw [hsame, ← hc]
      exact sentinels_functional now s.cache
  · rw [hsame, ← hc, hm.sentinels_eq hn' hn]

/-- A write that does not resync keeps them together exactly if it makes the same entries. -/
theorem coherent_of_silent_iff (hs : w.2.resyncs = false) :
    Coherent w.1 (s.step hw w) ↔ localEntries (w.2.publish hw s.zones) = localEntries s.zones := by
  unfold Coherent Store.step at *
  simp only [hs, Bool.false_eq_true, if_false]
  rw [hm.sentinels_eq hn' hn, hc]
  exact eq_comm

/-- After a write the never-expiring entries are those of the published set exactly if the
    write keeps them. -/
theorem step_coherent_iff : Coherent w.1 (s.step hw w) ↔ w.2.Keeps hw s.zones := by
  obtain ⟨at', w⟩ := w
  cases w with
  | apiRebuild iter disk => exact resync_coherent_iff hm hn hn' hc
  | syncRebuild iter disk => exact coherent_of_silent_iff hm hn hn' hc rfl
  | scheduleRebuild iter disk => exact coherent_of_silent_iff hm hn hn' hc rfl
  | apiAddDns line =>
    exact iff_of_true (coherent_of_copied hm hn hn' hc (by simp [Write.publish])) trivial
  | apiDeleteDns line =>
    refine iff_of_true (coherent_of_copied hm hn hn' hc ?_) trivial
    cases h : line.rr <;> simp [Write.publish, h]
  | apiAddBlacklist domain action active =>
    refine iff_of_true (coherent_of_copied hm hn hn' hc ?_) trivial
    cases active <;> simp [Write.publish]
  | apiDeleteBlacklist domain =>
    exact iff_of_true (coherent_of_copied hm hn hn' hc (by simp [Write.publish])) trivial
  | dnsUpdate tsig msg =>
    exact iff_of_true
      (coherent_of_copied hm hn hn' hc (handleUpdateWire_wireRecords tsig msg s.zones)) trivial
  | syncAddDns line =>
    exact iff_of_true (coherent_of_copied hm hn hn' hc (by simp [Write.publish])) trivial
  | syncAddBlacklist domain action =>
    exact iff_of_true (coherent_of_copied hm hn hn' hc (by simp [Write.publish])) trivial

end

end

/-! ## Sequences of writes -/

section

variable {hw : Bool} {t now : ℕ}

/-- Every write of the sequence keeps the entries of the set it finds. -/
def AllKeep (hw : Bool) : LocalZoneSet → List (ℕ × Write) → Prop
  | _, [] => True
  | z, w :: ws => w.2.Keeps hw z ∧ AllKeep hw (w.2.publish hw z) ws

/-- After each write of the sequence the never-expiring entries are those of the set. -/
def AllCoherent (hw : Bool) : Store → List (ℕ × Write) → Prop
  | _, [] => True
  | s, w :: ws => Coherent w.1 (s.step hw w) ∧ AllCoherent hw (s.step hw w) ws

/-- For every sequence of writes by all writers: after each of them the never-expiring entries
    of the cache are those that the published set makes, exactly if each write keeps them. -/
theorem run_coherent_iff (s : Store) (ws : List (ℕ × Write)) (hn : InUptime t now)
    (hm : Settled t s.cache) (hc : Coherent now s) (hws : ∀ w ∈ ws, InUptime t w.1) :
    AllCoherent hw s ws ↔ AllKeep hw s.zones ws := by
  induction ws generalizing s now with
  | nil => exact Iff.rfl
  | cons w ws ih =>
    have hw' := hws w (by simp)
    have hstep : Coherent w.1 (s.step hw w) ↔ w.2.Keeps hw s.zones := step_coherent_iff hm hn hw' hc
    unfold AllCoherent AllKeep
    rw [hstep]
    refine and_congr_right fun hk => ?_
    exact ih (s.step hw w) hw' (hm.step hw') (hstep.mpr hk)
      fun w' h => hws w' (List.mem_cons_of_mem _ h)

end

/-! ## A deletion on the slave -/

/-- The store at startup: one local record, preloaded. -/
def storeA : Store := ⟨zonesA, preloadIntoCache false 10 zonesA ∅⟩

theorem storeA_coherent : Settled 10 storeA.cache ∧ Coherent 10 storeA :=
  preload_coherent (fun _ _ h => nomatch h) (functional_of_nodup 10 (by decide +kernel))

theorem run_coherent_deleted :
    AllCoherent true storeA [(20, .syncRebuild listOrder {})] ↔
      AllKeep true storeA.zones [(20, .syncRebuild listOrder {})] :=
  run_coherent_iff _ _ (show InUptime 10 10 from ⟨le_rfl, by decide⟩) storeA_coherent.1
    storeA_coherent.2 (by simp [InUptime, yearSecs])

/-- The store after the record was deleted on the master and the slave rebuilt its set. -/
def storeDeleted : Store := storeA.step true (20, .syncRebuild listOrder {})

/-- The set makes no entry any more, and the cache still has the one of the record. -/
theorem deleted_kept :
    localZoneEntries 20 storeDeleted.zones = [] ∧
    (storeDeleted.cache.lookup (cacheKey true nameA.wire Rtype.A)).any (isSentinel 20) = true ∧
    ¬ AllCoherent true storeA [(20, .syncRebuild listOrder {})] := by
  have hnone : localZoneEntries 20 storeDeleted.zones = [] := by decide +kernel
  have hsome : (storeDeleted.cache.lookup (cacheKey true nameA.wire Rtype.A)).any
      (isSentinel 20) = true := by decide +kernel
  refine ⟨hnone, hsome, ?_⟩
  rintro ⟨hc, -⟩
  have hc : sentinels 20 storeDeleted.cache = localEntries storeDeleted.zones := hc
  obtain ⟨e, he, hs⟩ := (Option.any_eq_true _ _).mp hsome
  have hmem : (cacheKey true nameA.wire Rtype.A, e.wirePayload, e.wireQname) ∈
      localEntries storeDeleted.zones := by
    rw [← hc]
    exact ⟨e, he, hs, rfl⟩
  rw [mem_localEntries 20] at hmem
  cases hmem

end Runbound.Local
