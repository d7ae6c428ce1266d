import Runbound.Local.ZoneSet

/-!
# Zone writes and the shared cache (`api/mod.rs`)

`resync_xdp_cache_inner` drops the cache entries whose question name is a key of the
old or the new zone set and stores the local data of the new one. Zones act on all
names below them, and an entry restored from disk has no name.

* `lookup_resync`: what stands under a key afterwards.
* `resync_takesEffect_iff`: the fast path serves nothing from upstream for a name at or
  below a zone exactly if each live upstream entry of its key is named by a zone key or
  replaced.
-/

namespace Runbound.Local

open Wire FastPath Lib Class Map

/-- `affected` (api/mod.rs:1469-1476). -/
def affected (old new : LocalZoneSet) (qname : Bytes) : Bool :=
  qname ∈ old.zonesWire || qname ∈ new.zonesWire

/-- `resync_xdp_cache_inner` (api/mod.rs:1464). -/
def resyncXdpCacheInner (signing : Bool) (now : ℕ) (old new : LocalZoneSet) (cache : CacheMap) :
    CacheMap :=
  preloadIntoCache signing now new (Map.retain (fun _ e => !affected old new e.wireQname) cache)

/-- The keys `preload_into_cache` writes. -/
def preloads (signing : Bool) (now : ℕ) (z : LocalZoneSet) (key : U64) : Prop :=
  signing = false ∧ ∃ e, (key, e) ∈ localZoneEntries now z

variable {now : ℕ}

theorem expiresAt_of_mem {z : LocalZoneSet} {p : U64 × CacheEntry}
    (h : p ∈ localZoneEntries now z) : p.2.expiresAt = sentinelExpires now := by
  obtain ⟨key, e, qtype, -, -, h⟩ := mem_localZoneEntries.mp h
  obtain ⟨-, payload, -, rfl⟩ := localZoneEntry_eq_some_iff.mp h
  rfl

theorem isSentinel_of_mem {z : LocalZoneSet} {p : U64 × CacheEntry}
    (h : p ∈ localZoneEntries now z) : isSentinel now p.2 = true := by
  rw [isSentinel, expiresAt_of_mem h, sentinelExpires, yearSecs]
  exact decide_eq_true (by omega)

/-- What stands under a key after a resync: local data, or an old entry that is not affected
    and whose key the local data do not use. -/
theorem lookup_resync {signing : Bool} {old new : LocalZoneSet} {cache : CacheMap}
    {key : U64} {e : CacheEntry}
    (h : (resyncXdpCacheInner signing now old new cache).lookup key = some e) :
    (signing = false ∧ (key, e) ∈ localZoneEntries now new) ∨
      (¬ preloads signing now new key ∧ cache.lookup key = some e ∧
        affected old new e.wireQname = false) := by
  have hretain : ∀ e, (Map.retain (fun _ e => !affected old new e.wireQname) cache).lookup key =
      some e → cache.lookup key = some e ∧ affected old new e.wireQname = false := by
    intro e h
    rw [lookup_retain, Option.filter_eq_some_iff] at h
    exact ⟨h.1, by simpa using h.2⟩
  cases signing with
  | true => exact Or.inr ⟨by simp [preloads], hretain e h⟩
  | false =>
    rcases lookup_insertAll h with hmem | ⟨hne, hl⟩
    · exact Or.inl ⟨rfl, hmem⟩
    · refine Or.inr ⟨?_, hretain e hl⟩
      rintro ⟨-, e', he'⟩
      exact hne _ he' rfl

theorem lookup_resync_of_kept {signing : Bool} {old new : LocalZoneSet} {cache : CacheMap}
    {key : U64} {e : CacheEntry} (hl : cache.lookup key = some e)
    (haff : affected old new e.wireQname = false) (hnew : ¬ preloads signing now new key) :
    (resyncXdpCacheInner signing now old new cache).lookup key = some e := by
  have hretain : (Map.retain (fun _ e => !affected old new e.wireQname) cache).lookup key =
      some e := by
    rw [lookup_retain, hl]
    simp [haff]
  unfold resyncXdpCacheInner preloadIntoCache
  cases signing with
  | true => exact hretain
  | false =>
    rw [if_neg (by simp), lookup_insertAll_of_notMem, hretain]
    intro p hp hkey
    exact hnew ⟨rfl, p.2, by rw [← hkey]; exact hp⟩

/-- The response handed out for `b` is the entry of its question. -/
def Served {Ip : Type} (hw : Bool) (acc : Access Ip) (src : Option Ip) (txLen now : ℕ)
    (snap : CacheMap) (b : Bytes) (e : CacheEntry) : Prop :=
  ∃ n t pos, cacheQuestion b = some (n, t, pos) ∧ lookupQuestion hw now snap n t = some e ∧
    answerFromCache hw acc src txLen now snap b = some (copyOut b e.wirePayload)

/-- The datagram sets DO where the fast path looks for it. -/
def scanDo (b : Bytes) (pos : ℕ) : Bool := (parseOptRr b (be16 b 10).val pos).any EdnsInfo.doBit

section

variable (hw signing : Bool) (now later : ℕ) (old new : LocalZoneSet) (cache : CacheMap)
include hw

/-- No client is served an entry from upstream for `b` after the resync; local data are the
    entries that `is_sentinel` says are. -/
def NoUpstream (b : Bytes) : Prop :=
  ∀ (Ip : Type) (acc : Access Ip) (src : Option Ip) (txLen : ℕ) (e : CacheEntry),
    Served hw acc src txLen later (resyncXdpCacheInner signing now old new cache) b e →
      isSentinel now e = true

/-- Each live upstream entry under the key of the question, with its name or with none, is
    named by a key of the zone sets or replaced by local data. -/
def Shadowed (n : Bytes) (t : U16) : Prop :=
  ∀ e, cache.lookup (cacheKey hw n t) = some e → (e.wireQname = [] ∨ e.wireQname = n) →
    later < e.expiresAt → 2 ≤ e.wirePayload.length → isSentinel now e = false →
      affected old new e.wireQname = true ∨ preloads signing now new (cacheKey hw n t)

end

section

variable {hw signing : Bool} {now later : ℕ} {old new : LocalZoneSet} {cache : CacheMap}
  {b n : Bytes} {t : U16} {pos : ℕ}

theorem noUpstream_iff (hq : cacheQuestion b = some (n, t, pos)) :
    NoUpstream hw signing now later old new cache b ↔
      scanDo b pos = true ∨ Shadowed hw signing now later old new cache n t := by
  constructor
  · intro h
    by_contra hcon
    unfold Shadowed at hcon
    push Not at hcon
    obtain ⟨hdo, e, hl, hname, hlive, hlen, hup, haff, hpre⟩ := hcon
    -- the surviving entry is served to a client without access list, into a frame of its size
    have hkept := lookup_resync_of_kept (e := e) hl (by simpa using haff) hpre
    have hlook : lookupQuestion hw later (resyncXdpCacheInner signing now old new cache) n t =
        some e := by
      unfold lookupQuestion
      rw [hkept]
      simp only
      rw [if_neg (by tauto), if_pos ⟨hlive, hlen⟩]
    have hans : answerFromCache hw (⟨fun _ => .allow, fun _ _ => false⟩ : Access Unit) none
        e.wirePayload.length later (resyncXdpCacheInner signing now old new cache) b =
          some (copyOut b e.wirePayload) := by
      unfold answerFromCache
      unfold scanDo at hdo
      simp only [hq, hlook]
      rw [if_neg hdo, if_neg (by simp [Access.admits]), if_neg (lt_irrefl _)]
    have := h Unit _ none _ e ⟨n, t, pos, hq, hlook, hans⟩
    rw [hup] at this
    cases this
  · rintro hcond Ip acc src txLen e ⟨n', t', pos', hq', hlook, hans⟩
    rw [hq] at hq'
    cases hq'
    obtain ⟨hl, hname, hlive, hlen⟩ := lookupQuestion_eq_some_iff.mp hlook
    obtain ⟨_, _, _, _, hq', hdo, -⟩ := answerFromCache_eq_some_iff.mp hans
    rw [hq] at hq'
    cases hq'
    rcases lookup_resync hl with ⟨-, hmem⟩ | ⟨hpre, hold, haff⟩
    · exact isSentinel_of_mem hmem
    · by_contra hup
      rcases hcond with hdo' | hcond
      · rw [scanDo, hdo] at hdo'
        cases hdo'
      · rcases hcond e hold hname hlive hlen (by simpa using hup) with h | h
        · rw [haff] at h
          cases h
        · exact hpre h

/-- A new zone takes effect on the fast path: for every cache, old and new zone set and
    question, if the name is at or below a zone then nothing from upstream is served. It does
    exactly if there is no such zone, the query sets DO, or the entries are shadowed. -/
theorem resync_takesEffect_iff (hq : cacheQuestion b = some (n, t, pos)) :
    ((new.findWire n).isSome → NoUpstream hw signing now later old new cache b) ↔
      (new.findWire n = none ∨ scanDo b pos = true ∨
        Shadowed hw signing now later old new cache n t) := by
  rw [noUpstream_iff hq]
  cases hz : new.findWire n with
  | none => simp
  | some a => simp

end

/-! ## A name below a new zone -/

/-- `w.a.` -/
def nameBelow : Name := ⟨[[119], [97]], by decide⟩

/-- The query `w.a. A` -/
def queryBelow : Bytes :=
  Message.encode
    { header := { id := 7, flags := 0x0100 }
      questions := [⟨nameBelow, Rtype.A, IN⟩] }

/-- An answer of an upstream server for `w.a. A`, as it was cached for an hour. -/
def entryBelow : CacheEntry where
  wirePayload :=
    Message.encode
      { header := { flags := 0x8180 }
        questions := [⟨nameBelow, Rtype.A, IN⟩]
        answers := [⟨nameBelow, Rtype.A, IN, 3600, .a ![192, 0, 2, 1], by decide⟩] }
  expiresAt := 3600
  wireQname := nameBelow.wire

/-- The cache with this entry. -/
def cacheBelow : CacheMap := (∅ : CacheMap).insert (cacheKey true nameBelow.wire Rtype.A) entryBelow

/-- The zone set in which `a.` was blacklisted. -/
def zonesBlocked : LocalZoneSet := LocalZoneSet.overrideZone [97] .refuse {}

theorem resync_takesEffect_below :
    cacheQuestion queryBelow = some (nameBelow.wire, Rtype.A, 21) ∧
      (((zonesBlocked.findWire nameBelow.wire).isSome →
        NoUpstream true false 10 20 {} zonesBlocked cacheBelow queryBelow) ↔
      (zonesBlocked.findWire nameBelow.wire = none ∨ scanDo queryBelow 21 = true ∨
        Shadowed true false 10 20 {} zonesBlocked cacheBelow nameBelow.wire Rtype.A)) :=
  ⟨by decide +kernel, resync_takesEffect_iff (by decide +kernel)⟩

/-- `a.` is refused now, and `w.a. A` still gets the answer of the upstream server. -/
theorem below_served :
    zonesBlocked.findWire nameBelow.wire = some .refuse ∧
    Served true (⟨fun _ => .allow, fun _ _ => false⟩ : Access Unit) none 4096 20
      (resyncXdpCacheInner false 10 {} zonesBlocked cacheBelow) queryBelow entryBelow ∧
    isSentinel 10 entryBelow = false :=
  ⟨by decide +kernel, ⟨nameBelow.wire, Rtype.A, 21, by decide +kernel, by decide +kernel,
    by decide +kernel⟩, by decide⟩

end Runbound.Local
