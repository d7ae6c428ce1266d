import Runbound.FastPath.Cache

/-!
# Local zones (`dns/local.rs`, `dns/wire_builder.rs`)

A `LocalZoneSet` keeps the local records twice: `recordsWire` for the serving core,
and `wireRecords`, the index of the fast path, which is built when the configuration
is read and copied unchanged afterwards.

* `fromConfig_indexed`: an entry of the index holds the address records of its name.
* `overrideZone`, `removeZone`, `insertRecordStr` keep the index.
* `mem_localZoneEntries`: the cache entries made from an index.
-/

namespace Runbound.Local

open Wire FastPath Lib List Rtype Class Map

/-- `ZoneAction` (dns/local.rs:33). -/
inductive ZoneAction
  | refuse
  | nxDomain
  | static
  | redirect
  | blockPage
  deriving DecidableEq

/-- `"refuse"`, `"inform_deny"` and the other words of `From<&str> for ZoneAction`
    (dns/local.rs:46-52). -/
inductive ZoneType
  | refuse
  | informDeny
  | alwaysNxdomain
  | nxdomain
  | static
  | redirect
  | blockPage
  | other
  deriving DecidableEq

/-- `From<&str> for ZoneAction` (dns/local.rs:45). -/
def ZoneAction.ofType : ZoneType → ZoneAction
  | .refuse | .informDeny => .refuse
  | .alwaysNxdomain | .nxdomain => .nxDomain
  | .static | .redirect => .static
  | .blockPage => .blockPage
  | .other => .refuse

/-- `LocalZone` (config/parser.rs:36). -/
structure LocalZone where
  name : Bytes
  zoneType : ZoneType

/-- Data that the presentation parser builds: opaque octets for NAPTR, SSHFP and TLSA only
    (wire/present.rs:69-186). -/
def ofText : Rdata → Bool
  | .unknown t _ => t = 35 || t = 44 || t = 52
  | .svcb .. => false
  | _ => true

/-- A record that `parse_rr_line` returns (wire/present.rs:188-194). -/
abbrev TextRecord := { r : Record // r.rclass = IN ∧ ofText r.rdata = true }

/-- `LocalData` (config/parser.rs:42): the line as `parse_rr_line` (wire/present.rs:37) reads
    it, or `none` if it does not. -/
structure LocalData where
  rr : Option TextRecord

theorem address_ofText (n : Name) (ttl : U32) (octets : Fin 4 → Byte) :
    (Record.address n ttl octets).rclass = IN ∧
      ofText (Record.address n ttl octets).rdata = true := ⟨rfl, rfl⟩

/-- The line of an A record. -/
def LocalData.address (n : Name) (ttl : U32) (octets : Fin 4 → Byte) : LocalData :=
  ⟨some ⟨Record.address n ttl octets, address_ofText n ttl octets⟩⟩

/-- `WireRdata` (dns/local.rs:100). -/
structure WireRdata where
  ttl : U32
  rdata : Bytes
  deriving DecidableEq

/-- `WireRecordEntry` (dns/local.rs:108). -/
structure WireRecordEntry where
  wireQname : Bytes
  aRecords : List WireRdata := []
  aaaaRecords : List WireRdata := []
  deriving DecidableEq

/-- `WireRecordIndex` (dns/local.rs:119). -/
abbrev WireRecordIndex := Map U64 WireRecordEntry

/-- `LocalZoneSet` (dns/local.rs:61), the fields of the release build. -/
structure LocalZoneSet where
  wireRecords : WireRecordIndex := ∅
  recordsWire : Map Bytes (List Record) := ∅
  zonesWire : Map Bytes ZoneAction := ∅
  staticNamesWire : List Bytes := []

/-- `wire_name_key` (dns/local.rs:161). -/
def wireNameKey (n : Name) : Bytes := lower n.wire

/-- `name` with a final dot (dns/local.rs:218-222). -/
def fqdn (name : Bytes) : Bytes := if name.getLast? = some 46 then name else name ++ [46]

/-- The key of a name in presentation form, if it is one. -/
def textKey (name : Bytes) : Option Bytes := (Name.fromAscii (fqdn name)).toOption.map wireNameKey

/-! ## The index -/

/-- The octets of an A record for the index (dns/local.rs:258-263). -/
def aRdata (r : Record) : Option WireRdata :=
  match r.rdata with
  | .a octets => some ⟨r.ttl, List.ofFn octets⟩
  | _ => none

/-- The octets of an AAAA record for the index (dns/local.rs:264-269). -/
def aaaaRdata (r : Record) : Option WireRdata :=
  match r.rdata with
  | .aaaa octets => some ⟨r.ttl, List.ofFn octets⟩
  | _ => none

/-- The index entry of a name with records `recs`. -/
def indexEntry (name : Bytes) (recs : List Record) : WireRecordEntry :=
  ⟨name, recs.filterMap aRdata, recs.filterMap aaaaRdata⟩

/-- One name of the loop that builds the index (dns/local.rs:241-273): of two names with
    one hash the first one stays. -/
def indexName (hw : Bool) (idx : WireRecordIndex) (p : Bytes × List Record) : WireRecordIndex :=
  let key := hashWireQname hw p.1
  let entry := (idx.lookup key).getD ⟨p.1, [], []⟩
  if entry.wireQname ≠ p.1 then idx
  else
    idx.insert key
      { entry with
        aRecords := entry.aRecords ++ p.2.filterMap aRdata
        aaaaRecords := entry.aaaaRecords ++ p.2.filterMap aaaaRdata }

/-- An order in which a hash map is iterated. -/
structure IterOrder where
  run : List (Bytes × List Record) → List (Bytes × List Record)
  perm : ∀ l, (run l).Perm l

/-- The entries of the record store. -/
def recordPairs (m : Map Bytes (List Record)) : List (Bytes × List Record) :=
  m.entries.map fun e => (e.1, e.2)

/-- The index of a record store (dns/local.rs:240-273). -/
def buildIndex (hw : Bool) (iter : IterOrder) (records : Map Bytes (List Record)) :
    WireRecordIndex :=
  (iter.run (recordPairs records)).foldl (indexName hw) ∅

/-! ## Reading the configuration -/

/-- The record store (dns/local.rs:205-211). -/
def configRecords (data : List LocalData) : Map Bytes (List Record) :=
  data.foldl (fun m d =>
    match d.rr with
    | some wr => Map.modify (wireNameKey wr.val.name) [] (· ++ [wr.val]) m
    | none => m) ∅

/-- The keys and actions of the configured zones, in order (dns/local.rs:217-228). -/
def configZones (zones : List LocalZone) : List (Bytes × ZoneAction) :=
  zones.filterMap fun z => (textKey z.name).map fun key => (key, ZoneAction.ofType z.zoneType)

/-- `LocalZoneSet::from_config` (dns/local.rs:171). -/
def fromConfig (hw : Bool) (iter : IterOrder) (zones : List LocalZone) (data : List LocalData) :
    LocalZoneSet :=
  let records := configRecords data
  let zoneKeys := configZones zones
  { wireRecords := buildIndex hw iter records
    recordsWire := records
    zonesWire := records.keys.foldl (fun m key => Map.orInsert key .static m)
      (Map.insertAll zoneKeys ∅)
    staticNamesWire := zoneKeys.map Prod.fst ++ records.keys }

namespace LocalZoneSet

/-! ## Lookups -/

/-- `find_wire` (dns/local.rs:303). -/
def findWire (z : LocalZoneSet) (q : Bytes) : Option ZoneAction :=
  Name.walkUp (fun cur => z.zonesWire.lookup cur) (q.length + 1) q

/-- `local_records_wire` (dns/local.rs:320). -/
def localRecordsWire (z : LocalZoneSet) (q : Bytes) (qtype : U16) : List Record :=
  ((z.recordsWire.lookup q).getD []).filter fun r => r.rtype = qtype

/-- `name_has_records_wire` (dns/local.rs:328). -/
def nameHasRecordsWire (z : LocalZoneSet) (q : Bytes) : Bool := q ∈ z.recordsWire

/-! ## Changes -/

/-- `override_zone` (dns/local.rs:336). -/
def overrideZone (name : Bytes) (action : ZoneAction) (z : LocalZoneSet) : LocalZoneSet :=
  match textKey name with
  | some key => { z with zonesWire := z.zonesWire.insert key action }
  | none => z

/-- `remove_zone` (dns/local.rs:355). -/
def removeZone (name : Bytes) (z : LocalZoneSet) : LocalZoneSet :=
  match textKey name with
  | some key => { z with zonesWire := z.zonesWire.erase key }
  | none => z

/-- Put a record into the store and mark its owner static. -/
def addRecord (r : Record) (z : LocalZoneSet) : LocalZoneSet :=
  let key := wireNameKey r.name
  { z with
    zonesWire := Map.orInsert key .static z.zonesWire
    recordsWire := Map.modify key [] (· ++ [r]) z.recordsWire }

/-- `insert_record_str` (dns/local.rs:374). -/
def insertRecordStr (line : LocalData) (z : LocalZoneSet) : LocalZoneSet :=
  match line.rr with
  | some wr => z.addRecord wr.val
  | none => z

end LocalZoneSet

/-! ## The index as cache entries -/

/-- `write_opt_rr` (dns/wire_builder.rs:266). -/
def writeOptRr (udpPayload : U16) : Bytes :=
  [0] ++ u16Be OPT ++ u16Be udpPayload ++ u32Be 0 ++ u16Be 0

/-- `0x8480 | (rd << 8)`: QR, AA and RA (dns/wire_builder.rs:472). -/
def answerFlags (rd : Bool) : U16 := if rd then 0x8580 else 0x8480

/-- One answer record, its owner a pointer to the question (dns/wire_builder.rs:490-496). -/
def answerRr (qtype : U16) (r : WireRdata) : Bytes :=
  u16Be 0xC00C ++ u16Be qtype ++ u16Be 1 ++ u32Be r.ttl ++ u16Be (Fin.ofNat 65536 r.rdata.length) ++
    r.rdata

/-- `build_answer_a_aaaa_wire` (dns/wire_builder.rs:450) into a buffer of `outLen` octets. -/
def buildAnswerAAaaaWire (wq : WireQuery) (outLen : ℕ) (recs : List WireRdata)
    (edns : Option EdnsInfo) : Option Bytes :=
  let out :=
    u16Be wq.id ++ u16Be (answerFlags wq.rd) ++ u16Be 1 ++ u16Be (Fin.ofNat 65536 recs.length) ++
      u16Be 0 ++ u16Be (if edns.isSome then 1 else 0) ++
      (wq.qnameWire ++ u16Be wq.qtype ++ u16Be wq.qclass) ++
      recs.flatMap (answerRr wq.qtype) ++
      (edns.elim [] fun e => writeOptRr e.udpPayload)
  if outLen < out.length then none else some out

/-- The query of a cache entry template (dns/local.rs:478-486). -/
def templateQuery (qname : Bytes) (qtype : U16) : WireQuery :=
  { id := 0, qnameWire := qname, qtype, qclass := 1, rd := true, edns := none }

/-- The records of an index entry for one of the two address types. -/
def WireRecordEntry.recordsOf (e : WireRecordEntry) (qtype : U16) : List WireRdata :=
  if qtype = Rtype.A then e.aRecords else e.aaaaRecords

/-- The cache entry of one name and type (dns/local.rs:469-500). -/
def localZoneEntry (sentinel : ℕ) (keyRaw : U64) (entry : WireRecordEntry) (qtype : U16) :
    Option (U64 × CacheEntry) :=
  let recs := entry.recordsOf qtype
  if recs = [] then none
  else
    (buildAnswerAAaaaWire (templateQuery entry.wireQname qtype) 512 recs none).map fun payload =>
      (mixType keyRaw qtype,
        { wirePayload := payload, expiresAt := sentinel, wireQname := entry.wireQname })

/-- `local_zone_entries` (dns/local.rs:457). -/
def localZoneEntries (now : ℕ) (z : LocalZoneSet) : List (U64 × CacheEntry) :=
  z.wireRecords.entries.flatMap fun e =>
    [Rtype.A, AAAA].filterMap (localZoneEntry (sentinelExpires now) e.1 e.2)

/-- `preload_into_cache` (dns/local.rs:506); `signing` is `LOCAL_ZONE_DNSSEC`. -/
def preloadIntoCache (signing : Bool) (now : ℕ) (z : LocalZoneSet) (m : CacheMap) : CacheMap :=
  if signing then m else Map.insertAll (localZoneEntries now z) m

/-! ## What the index and its entries hold -/

/-- Every entry of the index is that of a name of the record store, under the hash of the
    name. -/
def Indexed (hw : Bool) (records : Bytes → Option (List Record)) (idx : WireRecordIndex) : Prop :=
  ∀ key e, idx.lookup key = some e →
    key = hashWireQname hw e.wireQname ∧
      ∃ recs, records e.wireQname = some recs ∧ e = indexEntry e.wireQname recs

theorem indexName_lookup {hw : Bool} {idx : WireRecordIndex} {p : Bytes × List Record}
    (hnew : ∀ key e, idx.lookup key = some e → e.wireQname ≠ p.1) {key : U64} {e : WireRecordEntry}
    (h : (indexName hw idx p).lookup key = some e) :
    idx.lookup key = some e ∨ (key = hashWireQname hw p.1 ∧ e = indexEntry p.1 p.2) := by
  unfold indexName at h
  simp only at h
  cases hl : idx.lookup (hashWireQname hw p.1) with
  | some e' =>
    rw [hl, Option.getD_some, if_pos (hnew _ _ hl)] at h
    exact Or.inl h
  | none =>
    rw [hl, if_neg (by simp), lookup_insert_eq] at h
    split_ifs at h with hk
    · exact Or.inr ⟨hk, by simpa [indexEntry] using (Option.some.inj h).symm⟩
    · exact Or.inl h

theorem foldl_indexName {hw : Bool} (l : List (Bytes × List Record)) (hl : (l.map Prod.fst).Nodup) :
    ∀ key e, (l.foldl (indexName hw) ∅).lookup key = some e →
      key = hashWireQname hw e.wireQname ∧ ∃ p ∈ l, e = indexEntry p.1 p.2 := by
  induction l using List.reverseRecOn with
  | nil =>
    simp
  | append_singleton l p ih =>
    rw [map_append, nodup_append] at hl
    have ih := ih hl.1
    rw [foldl_append]
    intro key e h
    have hnew : ∀ key e, (l.foldl (indexName hw) ∅).lookup key = some e → e.wireQname ≠ p.1 := by
      intro key e he
      obtain ⟨-, p', hp', rfl⟩ := ih key e he
      exact hl.2.2 p'.1 (mem_map_of_mem hp') p.1 (by simp)
    rcases indexName_lookup hnew h with h | ⟨rfl, rfl⟩
    · obtain ⟨h1, p', hp', h2⟩ := ih key e h
      exact ⟨h1, p', by simp [hp'], h2⟩
    · exact ⟨rfl, p, by simp, rfl⟩

/-- The index that is built from a record store is the index of that store. -/
theorem buildIndex_indexed (hw : Bool) (iter : IterOrder) (records : Map Bytes (List Record)) :
    Indexed hw records.lookup (buildIndex hw iter records) := by
  have hperm := iter.perm (recordPairs records)
  have hnodup : ((iter.run (recordPairs records)).map Prod.fst).Nodup := by
    rw [(hperm.map Prod.fst).nodup_iff, recordPairs, map_map]
    exact records.keys_nodup
  intro key e h
  obtain ⟨h1, p, hp, rfl⟩ := foldl_indexName _ hnodup key e h
  refine ⟨h1, p.2, ?_, rfl⟩
  have hmem : p ∈ recordPairs records := hperm.mem_iff.mp hp
  obtain ⟨e', he', rfl⟩ := mem_map.mp hmem
  exact lookup_eq_some_iff.mpr he'

theorem fromConfig_indexed (hw : Bool) (iter : IterOrder) (zones : List LocalZone)
    (data : List LocalData) :
    Indexed hw (fromConfig hw iter zones data).recordsWire.lookup
      (fromConfig hw iter zones data).wireRecords :=
  buildIndex_indexed hw iter (configRecords data)

theorem mem_configRecords {data : List LocalData} {key : Bytes} (h : key ∈ configRecords data) :
    ∃ n, key = wireNameKey n := by
  have hfold : ∀ key ∈ configRecords data, ∃ n, key = wireNameKey n := by
    refine List.foldlRecOn (motive := fun m : Map Bytes (List Record) =>
      ∀ key ∈ m, ∃ n, key = wireNameKey n) data _ ?_ ?_
    · simp
    intro m hm d _ key hkey
    cases hd : d.rr with
    | none =>
      simp only [hd] at hkey
      exact hm key hkey
    | some wr =>
      simp only [hd, Map.modify, AList.mem_insert] at hkey
      rcases hkey with rfl | hkey
      · exact ⟨_, rfl⟩
      · exact hm key hkey
  exact hfold key h

theorem wireNameKey_ne_nil (n : Name) : wireNameKey n ≠ [] := by
  rw [wireNameKey, ← length_pos_iff, lower_length, Name.wire_length]
  omega

section Keeps

variable (z : LocalZoneSet)

@[simp] theorem LocalZoneSet.overrideZone_wireRecords (name : Bytes) (action : ZoneAction) :
    (z.overrideZone name action).wireRecords = z.wireRecords := by
  unfold overrideZone
  split <;> rfl

@[simp] theorem LocalZoneSet.removeZone_wireRecords (name : Bytes) :
    (z.removeZone name).wireRecords = z.wireRecords := by
  unfold removeZone
  split <;> rfl

@[simp] theorem LocalZoneSet.insertRecordStr_wireRecords (line : LocalData) :
    (z.insertRecordStr line).wireRecords = z.wireRecords := by
  unfold insertRecordStr
  split <;> rfl

end Keeps

theorem localZoneEntry_eq_some_iff {sentinel : ℕ} {key : U64} {e : WireRecordEntry} {qtype : U16}
    {p : U64 × CacheEntry} :
    localZoneEntry sentinel key e qtype = some p ↔
      e.recordsOf qtype ≠ [] ∧
      ∃ payload,
        buildAnswerAAaaaWire (templateQuery e.wireQname qtype) 512 (e.recordsOf qtype) none =
        some payload ∧ p = (mixType key qtype, ⟨payload, sentinel, e.wireQname⟩) := by
  unfold localZoneEntry
  by_cases hne : e.recordsOf qtype = []
  · simp [hne]
  · simp only [hne, if_false, Option.map_eq_some_iff, ne_eq, not_false_eq_true, true_and]
    constructor
    · rintro ⟨payload, h1, h2⟩
      exact ⟨payload, h1, h2.symm⟩
    · rintro ⟨payload, h1, h2⟩
      exact ⟨payload, h1, h2.symm⟩

theorem mem_localZoneEntries {now : ℕ} {z : LocalZoneSet} {p : U64 × CacheEntry} :
    p ∈ localZoneEntries now z ↔
      ∃ key e qtype, z.wireRecords.lookup key = some e ∧ (qtype = Rtype.A ∨ qtype = AAAA) ∧
        localZoneEntry (sentinelExpires now) key e qtype = some p := by
  simp only [localZoneEntries, mem_flatMap, mem_filterMap, mem_cons, not_mem_nil, or_false]
  constructor
  · rintro ⟨e, he, qtype, ht, hp⟩
    exact ⟨e.1, e.2, qtype, lookup_eq_some_iff.mpr he, ht, hp⟩
  · rintro ⟨key, e, qtype, he, ht, hp⟩
    exact ⟨⟨key, e⟩, lookup_eq_some_iff.mp he, qtype, ht, hp⟩

/-! ## A set of one record -/

/-- The name `a.` -/
def nameA : Name := ⟨[[97]], by decide⟩

/-- `a. 300 A 10.0.0.1` -/
def lineA : LocalData := ⟨some ⟨⟨nameA, Rtype.A, IN, 300, .a ![10, 0, 0, 1], by decide⟩, by decide⟩⟩

/-- Iteration in the order of the list. -/
def listOrder : IterOrder := ⟨id, fun _ => .refl _⟩

/-- The zone set of one local record. -/
def zonesA : LocalZoneSet := fromConfig true listOrder [] [lineA]

end Runbound.Local
