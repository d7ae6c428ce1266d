import Runbound.Lib.Cell
import Runbound.Lib.Keyed
import Runbound.Local.Writers

/-!
# The writers of the zone set, step by step (`api/mod.rs`, `dns/ddns.rs`, `main.rs`)

The zone set is published in one cell. The API handlers for records and the blacklist hold
`zones_mutex` from before they read their store until they have stored the new set. Dynamic
updates take a copy and store the changed copy without it, and feed updates, reloads and
the schedule loop build a set from the files and store it without it. Here each
`load_full`, each `store` and each access to a file is one step, and the steps of any
number of writers come in any order.

Main result:

* `Change.actsOn`: a change of a copy concerns its own names only.
-/

namespace Runbound.Local

open Wire FastPath Lib Rcode Class Map

/-! ## The files -/

/-- `DnsEntry` (store.rs:51): the id, and the line that `to_rr_string` makes of the rest. -/
structure DnsEntry where
  id : ℕ
  line : LocalData

/-- `ScheduleWindow` (store.rs:227). -/
structure ScheduleWindow where
  days : List Byte := []
  start : Bytes
  stop : Bytes

/-- `parse::<u8>`: digits, perhaps after a plus sign. -/
def parseU8 (s : Bytes) : Option ℕ :=
  let digits := if s.head? = some 43 then s.tail else s
  if digits = [] ∨ digits.any (fun d => d < 48 || 57 < d) then none
  else
    let n := digits.foldl (fun n d => 10 * n + (d.val - 48)) 0
    if n < 256 then some n else none

/-- Two octets of a time as a number up to `max` (store.rs:256-259). -/
def timePart (s : Bytes) (pos max : ℕ) : Option ℕ :=
  if pos + 2 ≤ s.length then (parseU8 ((s.drop pos).take 2)).filter (· ≤ max) else none

/-- `HH:MM` in minutes (store.rs:256-262). -/
def minutesOf (s : Bytes) : Option ℕ := do
  let h ← timePart s 0 23
  let m ← timePart s 3 59
  return h * 60 + m

/-- `valid_hhmm` (api/mod.rs:2339). -/
def validHhmm (s : Bytes) : Bool :=
  s.length = 5 && s[2]? = some 58 && (timePart s 0 23).isSome && (timePart s 3 59).isSome

/-- `is_active_now` (store.rs:236) at Unix time `secs`. -/
def ScheduleWindow.isActiveNow (w : ScheduleWindow) (secs : ℕ) : Bool :=
  let daySecs := secs % 86400
  -- the epoch was a Thursday
  let dow := (secs / 86400 + 4) % 7
  if w.days ≠ [] ∧ ∀ d ∈ w.days, d.val ≠ dow then false
  else
    match minutesOf w.start, minutesOf w.stop with
    | some start, some stop =>
      let now := daySecs / 3600 * 60 + daySecs % 3600 / 60
      if start ≤ stop then start ≤ now && now < stop else start ≤ now || now < stop
    | _, _ => false

/-- `BlacklistEntry` (store.rs:275), its action as a `ZoneAction`. -/
structure BlacklistEntry where
  id : ℕ
  domain : Bytes
  action : ZoneAction
  schedule : Option ScheduleWindow := none

/-- Active without a schedule, or by it (main.rs:2692, api/mod.rs:2377). -/
def BlacklistEntry.isActive (e : BlacklistEntry) (now : ℕ) : Bool :=
  e.schedule.all fun w => w.isActiveNow now

/-- The fields of `UnboundConfig` that `build_zone_set` reads. -/
structure UnboundConfig where
  localZones : List LocalZone := []
  localData : List LocalData := []
  blockPageRedirectIp : Option (Fin 4 → Byte) := none

/-- The files: `none` for one that cannot be loaded. `feeds` is what `collect_feed_entries`
    (feeds/mod.rs:849) makes of the feed files. -/
structure Files where
  config : Option UnboundConfig := some {}
  entries : Option (List DnsEntry) := some []
  blacklist : Option (List BlacklistEntry) := some []
  feeds : List (Bytes × ZoneAction) := []

/-- The names of lines that parse. -/
def lineNames (lines : List LocalData) : List Bytes :=
  lines.filterMap fun d => d.rr.map fun wr => wireNameKey wr.val.name

/-- `build_zone_set` under way: what it has read, the names in that, those of inactive
    blacklist entries too, and how many writes had been published when it began. -/
structure Draft where
  disk : Disk
  names : List Bytes
  since : ℕ := 0

/-- The configuration (main.rs:2673). -/
def Draft.ofConfig (cfg : UnboundConfig) : Draft where
  disk :=
    { localZones := cfg.localZones
      localData := cfg.localData
      blockPageRedirectIp := cfg.blockPageRedirectIp }
  names := (configZones cfg.localZones).map Prod.fst ++ lineNames cfg.localData

namespace Files

/-- The store is read (main.rs:2674-2685). -/
def readEntries (f : Files) (since : ℕ) (d : Draft) : Draft where
  disk := { d.disk with entries := (f.entries.getD []).map DnsEntry.line }
  names := d.names ++ lineNames ((f.entries.getD []).map DnsEntry.line)
  since := since

/-- The blacklist is read at time `now` (main.rs:2690-2697). -/
def readBlacklist (f : Files) (now : ℕ) (d : Draft) : Draft :=
  let bl := f.blacklist.getD []
  { d with
    disk :=
      { d.disk with
        blacklist := (bl.filter (·.isActive now)).map fun e => (e.domain, e.action) }
    names := d.names ++ bl.filterMap fun e => textKey e.domain }

/-- The feeds are read (main.rs:2708). -/
def readFeeds (f : Files) (d : Draft) : Draft :=
  { d with
    disk := { d.disk with feeds := f.feeds }
    names := d.names ++ f.feeds.filterMap fun e => textKey e.1 }

end Files

/-! ## Changes of a copy -/

/-- What a writer does to its copy of the set. -/
inductive Change
  /-- api/mod.rs:1938-1948 -/
  | addDns (line : LocalData)
  /-- api/mod.rs:2044-2066 -/
  | deleteDns (line : LocalData)
  /-- api/mod.rs:2377-2379 -/
  | addBlacklist (domain : Bytes) (action : ZoneAction) (active : Bool)
  /-- api/mod.rs:2461 -/
  | deleteBlacklist (domain : Bytes)
  /-- dns/ddns.rs:93-134 -/
  | update (rrs : List Record)

/-- The records and the zone action of a name. -/
abbrev View := Option (List Record) × Option ZoneAction

/-- What a set has for a name. -/
def LocalZoneSet.view (z : LocalZoneSet) (n : Bytes) : View :=
  (z.recordsWire.lookup n, z.zonesWire.lookup n)

/-- The set that has `v` for the name `n` and nothing else. -/
def oneName (n : Bytes) (v : View) : LocalZoneSet where
  recordsWire := v.1.elim ∅ fun recs => (∅ : Map Bytes (List Record)).insert n recs
  zonesWire := v.2.elim ∅ fun action => (∅ : Map Bytes ZoneAction).insert n action

namespace Change

/-- The changed copy. -/
def apply (z : LocalZoneSet) : Change → LocalZoneSet
  | addDns line => z.insertRecordStr line
  | deleteDns line => line.rr.elim z fun wr => z.deleteRecord wr.val
  | addBlacklist domain action active => if active then z.overrideZone domain action else z
  | deleteBlacklist domain => z.removeZone domain
  | update rrs => rrs.foldl applyRr z

/-- The names that are written. -/
def names : Change → List Bytes
  | addDns line | deleteDns line => (line.rr.map fun wr => wireNameKey wr.val.name).toList
  | addBlacklist domain _ active => if active then (textKey domain).toList else []
  | deleteBlacklist domain => (textKey domain).toList
  | update rrs => rrs.map fun rr => wireNameKey rr.name

/-- What becomes of a name that has `v`. -/
def effect (c : Change) (n : Bytes) (v : View) : View := (c.apply (oneName n v)).view n

end Change

theorem view_oneName (n : Bytes) (v : View) : (oneName n v).view n = v := by
  obtain ⟨recs, action⟩ := v
  have hrecs : (oneName n (recs, action)).recordsWire.lookup n = recs := by
    cases recs with
    | none => rfl
    | some recs => exact AList.lookup_insert _
  have haction : (oneName n (recs, action)).zonesWire.lookup n = action := by
    cases action with
    | none => rfl
    | some action => exact AList.lookup_insert _
  rw [LocalZoneSet.view, hrecs, haction]

section

variable {key : Bytes}

/-- What an added record makes of its name. -/
def addEffect (r : Record) (v : View) : View := (some (v.1.getD [] ++ [r]), some (v.2.getD .static))

theorem actsAt_addRecord (r : Record) :
    Keyed.ActsAt LocalZoneSet.view (LocalZoneSet.addRecord r) (wireNameKey r.name)
      (addEffect r) := by
  intro z n
  simp only [LocalZoneSet.view, LocalZoneSet.addRecord, lookup_modify, lookup_orInsert]
  split_ifs with h
  · subst h
    rfl
  · rfl

/-- What a deleted record makes of its name. -/
def deleteEffect (wr : Record) (v : View) : View :=
  v.1.elim v fun recs =>
    let left := recs.eraseP fun r => r.rtype = wr.rtype && r.rdata.eq wr.rdata
    if left = [] then (none, none) else (some left, v.2)

theorem actsAt_deleteRecord (wr : Record) :
    Keyed.ActsAt LocalZoneSet.view (LocalZoneSet.deleteRecord wr) (wireNameKey wr.name)
      (deleteEffect wr) := by
  intro z n
  unfold LocalZoneSet.deleteRecord deleteEffect
  cases hl : z.recordsWire.lookup (wireNameKey wr.name) with
  | none =>
    split_ifs with h
    · subst h
      simp [LocalZoneSet.view, hl]
    · simp only [hl]
  | some recs =>
    by_cases hleft : (recs.eraseP fun r => r.rtype = wr.rtype && r.rdata.eq wr.rdata) = []
    · simp only [hl, hleft, if_true, LocalZoneSet.view, lookup_erase_eq]
      split_ifs with h
      · subst h
        simp [hl, hleft]
      · rfl
    · simp only [hl, hleft, if_false, LocalZoneSet.view, lookup_insert_eq]
      split_ifs with h
      · subst h
        simp [hl, hleft]
      · rfl

theorem actsAt_filterRecords (p : Record → Bool) :
    Keyed.ActsAt LocalZoneSet.view (LocalZoneSet.filterRecords key p) key
      fun v => (v.1.map (List.filter p), v.2) := by
  intro z n
  unfold LocalZoneSet.filterRecords
  cases hl : z.recordsWire.lookup key with
  | none =>
    split_ifs with h
    · subst h
      simp [LocalZoneSet.view, hl]
    · rfl
  | some recs =>
    simp only [LocalZoneSet.view, lookup_insert_eq]
    split_ifs with h
    · subst h
      simp [hl]
    · rfl

/-- What one record of an update makes of its name. -/
def rrEffect (v : View) (rr : Record) : View :=
  if rr.rclass = Class.ANY then
    if rr.rtype = Rtype.ANY then (none, v.2)
    else (v.1.map (List.filter fun r => r.rtype ≠ rr.rtype), v.2)
  else if rr.rclass = NONE then
    (v.1.map (List.filter fun r => !(r.rtype = rr.rtype && r.rdata.eq rr.rdata)), v.2)
  else if rr.rclass = IN ∧ isSupportedAdd rr.rtype then
    (some (if (v.1.getD []).any fun r => r.rtype = rr.rtype && r.rdata.eq rr.rdata then v.1.getD []
      else v.1.getD [] ++ [rr]), some (v.2.getD .static))
  else v

theorem actsAt_applyRr (rr : Record) :
    Keyed.ActsAt LocalZoneSet.view (applyRr · rr) (wireNameKey rr.name) (rrEffect · rr) := by
  intro z n
  unfold applyRr rrEffect
  by_cases hany : rr.rclass = Class.ANY
  · simp only [hany]
    by_cases htype : rr.rtype = Rtype.ANY
    · simp only [htype, if_true, LocalZoneSet.view, lookup_erase_eq]
      split_ifs <;> rfl
    · simp only [htype]
      exact actsAt_filterRecords _ z n
  simp only [hany]
  by_cases hnone : rr.rclass = NONE
  · simp only [hnone]
    exact actsAt_filterRecords _ z n
  simp only [hnone, if_false]
  by_cases hin : rr.rclass = IN ∧ isSupportedAdd rr.rtype = true
  · simp only [hin, and_self, if_true, LocalZoneSet.view, lookup_modify, lookup_orInsert]
    by_cases h : n = wireNameKey rr.name
    · subst h
      simp only [if_true]
      rfl
    · simp only [h, if_false]
  · simp only [hin, if_false, ite_self]

variable {domain : Bytes}

section

variable (h : textKey domain = some key)
include h

theorem actsAt_overrideZone (action : ZoneAction) :
    Keyed.ActsAt LocalZoneSet.view (LocalZoneSet.overrideZone domain action) key
      fun v => (v.1, some action) := by
  intro z n
  simp only [LocalZoneSet.overrideZone, h, LocalZoneSet.view, lookup_insert_eq]
  split_ifs <;> rfl

theorem actsAt_removeZone :
    Keyed.ActsAt LocalZoneSet.view (LocalZoneSet.removeZone domain) key fun v => (v.1, none) := by
  intro z n
  simp only [LocalZoneSet.removeZone, h, LocalZoneSet.view, lookup_erase_eq]
  split_ifs <;> rfl

end

end

/-- What a change of the one name `key` makes of it. -/
inductive Effect : (key : Bytes) → (View → View) → Prop
  | add (r : TextRecord) : Effect (wireNameKey r.val.name) (addEffect r.val)
  | delete (r : Record) : Effect (wireNameKey r.name) (deleteEffect r)
  | zone (key : Bytes) (action : Option ZoneAction) : Effect key fun v => (v.1, action)

theorem Change.cases_acts (c : Change) :
    (c.names = [] ∧ ∀ z, c.apply z = z) ∨
      (∃ key g, c.names = [key] ∧ Effect key g ∧ Keyed.ActsAt LocalZoneSet.view c.apply key g) ∨
      ∃ rrs, c = update rrs := by
  cases c with
  | addDns line =>
    obtain ⟨_ | wr⟩ := line
    · exact Or.inl ⟨rfl, fun _ => rfl⟩
    · exact Or.inr (Or.inl ⟨_, _, rfl, .add wr, actsAt_addRecord wr.val⟩)
  | deleteDns line =>
    obtain ⟨_ | wr⟩ := line
    · exact Or.inl ⟨rfl, fun _ => rfl⟩
    · exact Or.inr (Or.inl ⟨_, _, rfl, .delete wr.val, actsAt_deleteRecord wr.val⟩)
  | addBlacklist domain action active =>
    cases active with
    | false => exact Or.inl ⟨rfl, fun _ => rfl⟩
    | true =>
      cases h : textKey domain with
      | none =>
        exact Or.inl ⟨by simp [names, h], fun z => by simp [apply, LocalZoneSet.overrideZone, h]⟩
      | some key =>
        exact Or.inr (Or.inl ⟨key, _, by simp [names, h], .zone key action,
          actsAt_overrideZone h action⟩)
  | deleteBlacklist domain =>
    cases h : textKey domain with
    | none =>
      exact Or.inl ⟨by simp [names, h], fun z => by simp [apply, LocalZoneSet.removeZone, h]⟩
    | some key =>
      exact Or.inr (Or.inl ⟨key, _, by simp [names, h], .zone key none, actsAt_removeZone h⟩)
  | update rrs => exact Or.inr (Or.inr ⟨rrs, rfl⟩)

/-- What holds of every name, whatever its zone, still does after a change whose records keep it. -/
theorem Change.apply_keeps {Q : Bytes → View → Prop} (c : Change) {z : LocalZoneSet}
    (hadd : ∀ (r : TextRecord) v, Q (wireNameKey r.val.name) v →
      Q (wireNameKey r.val.name) (addEffect r.val v))
    (hdelete : ∀ r v, Q (wireNameKey r.name) v → Q (wireNameKey r.name) (deleteEffect r v))
    (hzone : ∀ n v a, Q n v → Q n (v.1, a))
    (hupdate : ∀ rrs, c = update rrs → ∀ n, Q n ((rrs.foldl applyRr z).view n))
    (hz : ∀ n, Q n (z.view n)) : ∀ n, Q n ((c.apply z).view n) := by
  rcases c.cases_acts with ⟨-, hid⟩ | ⟨key, g, -, heffect, hacts⟩ | ⟨rrs, rfl⟩
  · rwa [hid]
  · refine hacts.keeps (fun h => ?_) hz
    cases heffect with
    | add r => exact hadd r _ h
    | delete r => exact hdelete r _ h
    | zone key action => exact hzone key _ action h
  · exact hupdate rrs rfl

theorem Change.view_congr (c : Change) {n : Bytes} {z z' : LocalZoneSet}
    (hz : z.view n = z'.view n) : (c.apply z).view n = (c.apply z').view n := by
  rcases c.cases_acts with ⟨-, hid⟩ | ⟨key, g, -, -, hacts⟩ | ⟨rrs, rfl⟩
  · rw [hid, hid, hz]
  · rw [hacts, hacts, hz]
  · show (rrs.foldl applyRr z).view n = (rrs.foldl applyRr z').view n
    rw [Keyed.view_foldl actsAt_applyRr, Keyed.view_foldl actsAt_applyRr, hz]

theorem Change.view_of_notMem (c : Change) {n : Bytes} (hn : n ∉ c.names) (z : LocalZoneSet) :
    (c.apply z).view n = z.view n := by
  rcases c.cases_acts with ⟨-, hid⟩ | ⟨key, g, hnames, -, hacts⟩ | ⟨rrs, rfl⟩
  · rw [hid]
  · rw [hnames, List.mem_singleton] at hn
    exact hacts.other hn z
  · show (rrs.foldl applyRr z).view n = z.view n
    have hnone : rrs.filter (fun rr => wireNameKey rr.name = n) = [] := by
      simpa [names] using hn
    rw [Keyed.view_foldl actsAt_applyRr, hnone]
    rfl

theorem Change.actsOn (c : Change) : Ledger.ActsOn LocalZoneSet.view c.apply c.names c.effect where
  inside z n _ := c.view_congr (view_oneName n (z.view n)).symm
  outside z _ hn := c.view_of_notMem hn z

/-! ## The writers -/

/-- A status that reports an error. -/
abbrev ErrorStatus := { c : ℕ // 400 ≤ c }

/-- What a writer reports: an HTTP status, an rcode, or nothing. -/
inductive Reply
  | http (status : ℕ)
  | rcode (rc : U16)
  | silent

/-- Does the reply report success? -/
def Reply.acknowledged : Reply → Bool
  | http status => 200 ≤ status && status < 300
  | rcode rc => rc = NOERROR
  | silent => false

/-- The end of the part of a handler that works on its store: an error, or the files
    afterwards, and the change of the set by the time it is made, if there is one. -/
abbrev Prepared := Except ErrorStatus (Files × Option (ℕ → Change))

/-- `MAX_DNS_ENTRIES` (api/mod.rs:168). -/
def maxDnsEntries : ℕ := 10000

/-- `MAX_BLACKLIST_ENTRIES` (api/mod.rs:170). -/
def maxBlacklistEntries : ℕ := 100000

/-- The store part of `persist_and_swap` (api/mod.rs:1915-1934); `saves` is the outcome of
    `store::save`. -/
def persistAndSwap (entry : DnsEntry) (saves : Bool) (f : Files) : Prepared :=
  let st := f.entries.getD []
  if maxDnsEntries ≤ st.length then .error ⟨422, by decide⟩
  else if !saves then .error ⟨500, by decide⟩
  else .ok ({ f with entries := some (st ++ [entry]) }, some fun _ => .addDns entry.line)

/-- The store part of `delete_dns_handler` (api/mod.rs:2011-2042); `mayManage` is
    `may_manage_name` of the caller. -/
def deleteDnsHandler (id : ℕ) (mayManage : DnsEntry → Bool) (saves : Bool) (f : Files) : Prepared :=
  match f.entries with
  | none => .error ⟨500, by decide⟩
  | some st =>
    match st.find? (·.id = id) with
    | none => .error ⟨404, by decide⟩
    | some entry =>
      if !mayManage entry then .error ⟨403, by decide⟩
      else if !saves then .error ⟨500, by decide⟩
      else
        .ok ({ f with entries := some (st.eraseP (·.id = id)) },
          if entry.line.rr.isSome then some fun _ => .deleteDns entry.line else none)

/-- The store part of `add_blacklist_handler` (api/mod.rs:2327-2371). -/
def addBlacklistHandler (entry : BlacklistEntry) (saves : Bool) (f : Files) : Prepared :=
  let bl := f.blacklist.getD []
  if maxBlacklistEntries ≤ bl.length then .error ⟨422, by decide⟩
  else if entry.schedule.any fun w => !validHhmm w.start || !validHhmm w.stop then
    .error ⟨400, by decide⟩
  else if !saves then .error ⟨500, by decide⟩
  else
    .ok ({ f with blacklist := some (bl ++ [entry]) },
      some fun now => .addBlacklist entry.domain entry.action (entry.isActive now))

/-- The store part of `delete_blacklist_handler` (api/mod.rs:2429-2457); `mayDelete` is the
    check of the owner. -/
def deleteBlacklistHandler (id : ℕ) (mayDelete : BlacklistEntry → Bool) (saves : Bool) (f : Files) :
    Prepared :=
  match f.blacklist with
  | none => .error ⟨500, by decide⟩
  | some bl =>
    match bl.find? (·.id = id) with
    | none => .error ⟨404, by decide⟩
    | some entry =>
      if !mayDelete entry then .error ⟨403, by decide⟩
      else if !saves then .error ⟨500, by decide⟩
      else
        .ok ({ f with blacklist := some (bl.eraseP (·.id = id)) },
          some fun _ => .deleteBlacklist entry.domain)

/-- A handler that holds `zones_mutex`. -/
inductive Handler
  | addDns (entry : DnsEntry) (saves : Bool)
  | deleteDns (id : ℕ) (mayManage : DnsEntry → Bool) (saves : Bool)
  | addBlacklist (entry : BlacklistEntry) (saves : Bool)
  | deleteBlacklist (id : ℕ) (mayDelete : BlacklistEntry → Bool) (saves : Bool)

/-- The store part of the handler. -/
def Handler.prepare (f : Files) : Handler → Prepared
  | addDns entry saves => persistAndSwap entry saves f
  | deleteDns id mayManage saves => deleteDnsHandler id mayManage saves f
  | addBlacklist entry saves => addBlacklistHandler entry saves f
  | deleteBlacklist id mayDelete saves => deleteBlacklistHandler id mayDelete saves f

/-- `CREATED` for an addition, `OK` for a deletion. -/
def Handler.success : Handler → Reply
  | addDns .. | addBlacklist .. => .http 201
  | deleteDns .. | deleteBlacklist .. => .http 200

/-- A writer that builds the set from the files. -/
inductive Rebuild
  /-- `update_feeds_handler` and `update_one_feed_handler` (api/mod.rs:2602, :2627), with the
      feeds after the download; an error ends it, and `status` is reported after the set has
      been stored. -/
  | feedUpdate (feeds : List (Bytes × ZoneAction)) (err : Option ErrorStatus) (status : ℕ)
  /-- `apply_config_hot_reload` (api/mod.rs:1493), or SIGHUP (main.rs:1067) -/
  | reload (viaApi : Bool)
  /-- One round of `schedule_enforce_loop` (main.rs:2641) -/
  | schedule

/-- What a writer has to do. -/
inductive Job
  | api (h : Handler)
  | update (tsig : TsigOutcome) (msg : Message)
  | rebuild (r : Rebuild)

/-- Where a writer is. -/
inductive Phase
  | start
  /-- It holds the mutex. -/
  | locked (h : Handler)
  /-- It has saved its store. -/
  | saved (reply : Reply) (change : ℕ → Change)
  /-- It has a copy of the set. -/
  | loaded (reply : Reply) (change : Change)
  /-- The schedule loop has found scheduled entries. -/
  | due
  /-- `build_zone_set` begins. -/
  | building (reply : Reply) (d : Draft)
  | entriesRead (reply : Reply) (d : Draft)
  | blacklistRead (reply : Reply) (d : Draft)
  /-- `build_zone_set` has returned. -/
  | built (reply : Reply) (d : Draft) (z : LocalZoneSet)
  | done (reply : Reply)

/-! ## Steps -/

/-- The hash, the iteration order, the configuration at startup (`AppState::cfg`), and the
    writers. -/
structure Setup where
  hw : Bool
  iter : IterOrder
  startup : UnboundConfig
  jobs : ℕ → Job

/-- The cell with the mutex, the files, and where each writer is. The ledger says what the
    writes that were published and reported as successful make of their names; no writer
    reads it. -/
structure Sys where
  cell : Cell ℕ LocalZoneSet
  files : Files
  phase : ℕ → Phase
  ledger : Ledger Bytes View

/-- Writer `i` makes its next step at Unix time `now`, or the operator changes the
    configuration file. -/
inductive Event
  | run (i now : ℕ)
  | editConfig (config : Option UnboundConfig)

/-- Writer `i` is in phase `p` from now on. -/
def Sys.goto (s : Sys) (i : ℕ) (p : Phase) : Sys := { s with phase := Function.update s.phase i p }

/-- Writer `i` ends, and with it its guard. -/
def Sys.finish (s : Sys) (i : ℕ) (reply : Reply) : Sys :=
  { s with
    cell := s.cell.release i
    phase := Function.update s.phase i (.done reply) }

namespace Setup

/-- The first step of a writer. -/
def begin (w : Setup) (s : Sys) (i : ℕ) : Sys :=
  match w.jobs i with
  | .api h =>
    if s.cell.holder = none then { s with cell := s.cell.acquire i }.goto i (.locked h) else s
  | .update tsig msg =>
    let rc := (handleUpdateWire tsig msg s.cell.value).1
    if rc = NOERROR ∧ msg.authority ≠ [] then
      { s with cell := s.cell.load i }.goto i (.loaded (.rcode rc) (.update msg.authority))
    else s.finish i (.rcode rc)
  | .rebuild (.feedUpdate feeds err status) =>
    let s := { s with files := { s.files with feeds } }
    match err with
    | some e => s.finish i (.http e.val)
    | none => s.goto i (.building (.http status) (.ofConfig w.startup))
  | .rebuild (.reload viaApi) =>
    match s.files.config with
    | some cfg => s.goto i (.building (if viaApi then .http 200 else .silent) (.ofConfig cfg))
    | none => s.finish i (if viaApi then .http 500 else .silent)
  | .rebuild .schedule =>
    if (s.files.blacklist.getD []).all (·.schedule.isNone) then s.finish i .silent
    else s.goto i .due

/-- The next step of writer `i`. One that waits for the mutex, or has ended, makes none. -/
def advance (w : Setup) (s : Sys) (i now : ℕ) : Sys :=
  match s.phase i with
  | .start => w.begin s i
  | .locked h =>
    match h.prepare s.files with
    | .error e => s.finish i (.http e.val)
    | .ok (files, none) => { s with files }.finish i h.success
    | .ok (files, some change) => { s with files }.goto i (.saved h.success change)
  | .saved reply change => { s with cell := s.cell.load i }.goto i (.loaded reply (change now))
  | .loaded reply change =>
    match s.cell.copies i with
    | some z =>
      { s with
        cell := s.cell.store i (change.apply z)
        ledger := s.ledger.write change.names change.effect s.cell.value.view }.finish i reply
    | none => s
  | .due =>
    match s.files.config with
    | some cfg => s.goto i (.building .silent (.ofConfig cfg))
    | none => s.finish i .silent
  | .building reply d => s.goto i (.entriesRead reply (s.files.readEntries s.ledger.stamp d))
  | .entriesRead reply d => s.goto i (.blacklistRead reply (s.files.readBlacklist now d))
  | .blacklistRead reply d =>
    let d := s.files.readFeeds d
    s.goto i (.built reply d (buildZoneSet w.hw w.iter d.disk))
  | .built reply d z =>
    { s with
      cell := s.cell.store i z
      ledger := s.ledger.refresh d.names d.since z.view reply.acknowledged }.finish i reply
  | .done _ => s

/-- One step. -/
def step (w : Setup) (s : Sys) : Event → Sys
  | .run i now => w.advance s i now
  | .editConfig config => { s with files := { s.files with config } }

end Setup

/-- No writer has begun; the set `z` is published. -/
def Sys.init (z : LocalZoneSet) (files : Files) : Sys where
  cell := ⟨z, none, fun _ => none⟩
  files := files
  phase := fun _ => .start
  ledger := ⟨fun _ => none, 0⟩

end Runbound.Local
