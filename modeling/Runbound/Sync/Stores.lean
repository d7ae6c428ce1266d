import Runbound.Sync.Journal

/-!
# The stores of master and slave

Model of what the slave makes of the master's stores: `apply_event`, `sync_tick` and `full_sync`
in `sync.rs` (lines 1348–1619), under the loop of `run` (lines 1320–1346), against the handlers of
the master that write a store and push an event (`api/mod.rs`, lines 1926–1959, 2040–2079,
2362–2398, 2451–2475, 2548, 2584, 2645, 3152, 3247). A poll is one step, with no write of the
master during it; the interleavings inside a poll are those of `Sync.Journal`.

What the surroundings of the slave decide is an input of a poll: whether the requests go through,
and for each event whether the store can be read and saved, the id an upstream gets, and what the
download of a feed makes of its record. The DNS entries, blacklist entries and feeds are given by
their id and the text of their other fields.

`log` is not in the code: it has every pushed write since the last start of the master, with the
stores it was applied to.

Result: `equal_event`, an event that is applied takes the slave from one state of the master's
stores to the next.
-/

namespace Runbound.Sync.Converge

open Lib
open Upstreams

/-! ## Model -/

/-- The stores of a node that are replicated. -/
structure Stores where
  dns : List Entry
  blacklist : List Entry
  feeds : List Entry
  upstreams : List UpstreamStatus
  deriving DecidableEq

/-- What the surroundings decide about one event on the slave. -/
structure Outcome where
  loads : Bool
  saves : Bool
  uuid : Text
  fetched : Text
  deriving DecidableEq

/-- `retain(|e| e.id != id)` (sync.rs:1537, 1559, 1573). -/
def without (entries : List Entry) (id : Text) : List Entry := entries.filter (·.id ≠ id)

/-- The record of a feed after `update_one_feed` (feeds/mod.rs:792-831): the first one with the id
changes. -/
def refreshed (feeds : List Entry) (id body : Text) : List Entry :=
  match feeds with
  | [] => []
  | f :: feeds => if f.id = id then { f with body := body } :: feeds else f :: refreshed feeds id body

/-- A store changed by `f` and saved. A store that cannot be read counts as empty
(`load().unwrap_or_default()`), and one that cannot be saved stays. -/
def saved (o : Outcome) (entries : List Entry) (f : List Entry → List Entry) : List Entry :=
  if o.saves then f (if o.loads then entries else []) else entries

/-- An entry is added if its id is not there; only then is the store saved (sync.rs:1546-1549,
1566-1568). -/
def added (o : Outcome) (entries : List Entry) (e : Entry) : List Entry :=
  if (if o.loads then entries else []).any (·.id == e.id) then entries
  else saved o entries (· ++ [e])

/-- `apply_event` (sync.rs:1515-1619), on the stores. -/
def applyEvent (s : Stores) (op : SyncOp) (o : Outcome) : Stores :=
  match op with
  | .addDns entry => { s with dns := added o s.dns entry }
  | .deleteDns id => { s with dns := saved o s.dns (without · id) }
  | .addBlacklist entry => { s with blacklist := added o s.blacklist entry }
  | .deleteBlacklist id => { s with blacklist := saved o s.blacklist (without · id) }
  | .addFeed feed => { s with feeds := added o s.feeds feed }
  | .deleteFeed id => { s with feeds := saved o s.feeds (without · id) }
  -- `load_feeds()?` ends the update
  | .updateFeed id _ =>
    { s with feeds := if o.loads && o.saves then refreshed s.feeds id o.fetched else s.feeds }
  | .upstream event => { s with upstreams := Upstreams.applyEvent s.upstreams event o.uuid }
  | .addGlobalBan _ _ _ => s
  | .deleteGlobalBan _ => s

/-- A write on the master, after its checks. `loads`: `add_dns` and `add_blacklist` could read the
store (api/mod.rs:1915, 2327); they go on if not, where the other handlers return an error. -/
inductive Write where
  | addDns (entry : Entry) (loads : Bool)
  | deleteDns (id : Text)
  | addBlacklist (entry : Entry) (loads : Bool)
  | deleteBlacklist (id : Text)
  | addFeed (feed : Entry)
  | deleteFeed (id : Text)
  | updateFeed (id url body : Text)
  /-- `update_feeds_handler`, and an update of one feed that fails: records change, and nothing is
  pushed. -/
  | updateFeeds (feeds : List Entry)
  | upstream (request : Request) (uuid : Text)
  | addGlobalBan (ip rule : Text) (expiresSecs : Option ℕ)
  | deleteGlobalBan (ip : Text)
  deriving DecidableEq

/-- What a write makes of the stores. An entry is added to the store that was read
(`load().unwrap_or_default()`). An id stands once in a store (`Uuid::new_v4`), so that
`remove(pos)` is `without`. -/
def Write.apply (s : Stores) : Write → Stores
  | .addDns entry loads => { s with dns := (if loads then s.dns else []) ++ [entry] }
  | .deleteDns id => { s with dns := without s.dns id }
  | .addBlacklist entry loads =>
    { s with blacklist := (if loads then s.blacklist else []) ++ [entry] }
  | .deleteBlacklist id => { s with blacklist := without s.blacklist id }
  | .addFeed feed => { s with feeds := s.feeds ++ [feed] }
  | .deleteFeed id => { s with feeds := without s.feeds id }
  | .updateFeed id _ body => { s with feeds := refreshed s.feeds id body }
  | .updateFeeds feeds => { s with feeds := feeds }
  | .upstream request uuid => { s with upstreams := (handle s.upstreams request uuid).1 }
  | .addGlobalBan _ _ _ => s
  | .deleteGlobalBan _ => s

/-- The event a write pushes. -/
def Write.event (s : Stores) : Write → Option SyncOp
  | .addDns entry _ => some (.addDns entry)
  | .deleteDns id => some (.deleteDns id)
  | .addBlacklist entry _ => some (.addBlacklist entry)
  | .deleteBlacklist id => some (.deleteBlacklist id)
  | .addFeed feed => some (.addFeed feed)
  | .deleteFeed id => some (.deleteFeed id)
  | .updateFeed id url _ => some (.updateFeed id url)
  | .updateFeeds _ => none
  | .upstream request uuid => (handle s.upstreams request uuid).2.map .upstream
  | .addGlobalBan ip rule expiresSecs => some (.addGlobalBan ip rule expiresSecs)
  | .deleteGlobalBan ip => some (.deleteGlobalBan ip)

/-- A pushed write with the stores it was applied to, and its event. -/
structure Logged where
  write : Write
  before : Stores
  op : SyncOp
  deriving DecidableEq

/-- A master and a slave. The journal has the numbers of its events in `log`. -/
structure Pair where
  master : Stores
  log : List Logged
  queue : List ℕ
  slave : Stores
  lastSeq : ℕ
  deriving DecidableEq

/-- `SyncJournal::current_seq` (sync.rs:461-463). -/
def Pair.seq (p : Pair) : ℕ := p.log.length

/-- A write of the master, and the push of its event. -/
def Pair.write (p : Pair) (w : Write) : Pair :=
  match w.event p.master with
  | some op => { p with
      master := w.apply p.master
      log := p.log ++ [⟨w, p.master, op⟩]
      queue := appendEvent p.queue p.seq }
  | none => { p with master := w.apply p.master }

/-- The slave applies the event of a number. -/
def applyNumber (log : List Logged) (outs : ℕ → Outcome) (s : Stores) (n : ℕ) : Stores :=
  log[n]?.elim s fun e => applyEvent s e.op (outs n)

/-- How a tick ends (`SyncError`, sync.rs:2149-2152). -/
inductive Tick where
  | ok
  | tooFarBehind
  | requestFailed
  deriving DecidableEq

/-- `sync_tick` (sync.rs:1457-1513), and the number it moves the slave to. -/
def Pair.syncTick (p : Pair) (reached : Bool) (outs : ℕ → Outcome) : Pair × Tick :=
  if reached = false then (p, .requestFailed)
  else if p.seq ≤ p.lastSeq then (p, .ok)
  else
    match delta p.queue p.lastSeq with
    | some events =>
      ({ p with slave := events.foldl (applyNumber p.log outs) p.slave, lastSeq := p.seq }, .ok)
    | none => (p, .tooFarBehind)

/-- `full_sync` (sync.rs:1417-1455), of whose three stores the first `saves` can be saved. The
master can read its stores when it sends them. -/
def Pair.fullSync (p : Pair) (saves : ℕ) : Pair :=
  { p with
    slave := { p.slave with
      dns := if 1 ≤ saves then p.master.dns else p.slave.dns
      blacklist := if 2 ≤ saves then p.master.blacklist else p.slave.blacklist
      feeds := if 3 ≤ saves then p.master.feeds else p.slave.feeds }
    lastSeq := if 3 ≤ saves then p.seq else p.lastSeq }

/-- What happens. -/
inductive Happening where
  | write (w : Write)
  /-- The master starts again: journal and number are reset, the stores are kept. -/
  | restart
  /-- One turn of the loop of `run` (sync.rs:1316-1345). -/
  | poll (reached : Bool) (outs : ℕ → Outcome) (saves : ℕ)

/-- One step. -/
def Pair.step (p : Pair) : Happening → Pair
  | .write w => p.write w
  | .restart => { p with log := [], queue := [] }
  | .poll reached outs saves =>
    let r := p.syncTick reached outs
    if r.2 = .tooFarBehind then r.1.fullSync saves else r.1

/-- A history. -/
def Pair.run (p : Pair) (hs : List Happening) : Pair := hs.foldl Pair.step p

/-- The master starts with stores, handles writes, and a slave with stores of its own joins with
its initial full sync. -/
def Pair.joined (m s : Stores) (ws : List Write) : Pair :=
  (ws.foldl Pair.write ⟨m, [], [], s, 0⟩).fullSync 3

/-! ## Specification -/

/-- The stores of the slave are those of the master. The ids of upstreams are each node's own. -/
structure Equal (m s : Stores) : Prop where
  dns : m.dns = s.dns
  blacklist : m.blacklist = s.blacklist
  feeds : m.feeds = s.feeds
  upstreams : Same ⟨m.upstreams, s.upstreams⟩

/-- A new entry has a new id, and comes after the entries of the store: it could be read, or is
empty. -/
def Write.Fresh (s : Stores) : Write → Prop
  | .addDns entry loads => (loads = true ∨ s.dns = []) ∧ ∀ e ∈ s.dns, e.id ≠ entry.id
  | .addBlacklist entry loads =>
    (loads = true ∨ s.blacklist = []) ∧ ∀ e ∈ s.blacklist, e.id ≠ entry.id
  | .addFeed feed => ∀ e ∈ s.feeds, e.id ≠ feed.id
  | _ => True

/-- The event of a write can be applied on the slave: the store can be read and saved, a feed
downloads to the record the master has, and a deleted upstream has its id on the slave too. -/
def Applies (e : Logged) (o : Outcome) (s : Stores) : Prop :=
  match e.write with
  | .updateFeed _ _ body => o.loads = true ∧ o.saves = true ∧ o.fetched = body
  | .upstream request _ => Shared ⟨e.before.upstreams, s.upstreams⟩ request
  | .updateFeeds _ | .addGlobalBan _ _ _ | .deleteGlobalBan _ => True
  | _ => o.loads = true ∧ o.saves = true

/-- Every event of a list can be applied when its turn comes. -/
def AllApply (log : List Logged) (outs : ℕ → Outcome) (s : Stores) : List ℕ → Prop
  | [] => True
  | n :: ns => (∀ e, log[n]? = some e → Applies e (outs n) s) ∧
      AllApply log outs (applyNumber log outs s n) ns

/-- A write changes the upstreams. -/
def Write.isUpstream : Write → Bool
  | .upstream _ _ => true
  | _ => false

/-- A step keeps the slave within reach: a write that changes a store is pushed under a number the
slave has not passed, the master restarts only when the slave has every event, every event of a
delta can be applied, and a full sync passes over no change of the upstreams. -/
def Keeping (p : Pair) : Happening → Prop
  | .write w => w.Fresh p.master ∧
      (w.apply p.master = p.master ∨ ((w.event p.master).isSome = true ∧ p.lastSeq ≤ p.seq))
  | .restart => p.seq ≤ p.lastSeq
  | .poll reached outs saves => reached = true → p.lastSeq < p.seq →
      (∀ events, delta p.queue p.lastSeq = some events → AllApply p.log outs p.slave events) ∧
      (delta p.queue p.lastSeq = none → 3 ≤ saves →
        ∀ n e, p.lastSeq ≤ n → p.log[n]? = some e → e.write.isUpstream = false)

/-- Every step of a history is `Keeping`. -/
def KeepingRun (p : Pair) : List Happening → Prop
  | [] => True
  | h :: hs => Keeping p h ∧ KeepingRun (p.step h) hs

/-! ## One event -/

theorem added_fresh {o : Outcome} {entries : List Entry} {e : Entry} (hload : o.loads = true)
    (hsave : o.saves = true) (hfresh : ∀ x ∈ entries, x.id ≠ e.id) :
    added o entries e = entries ++ [e] := by
  have hnone : entries.any (·.id == e.id) = false := by
    rw [List.any_eq_false]
    intro x hx
    simpa using hfresh x hx
  simp [added, saved, hload, hsave, hnone]

theorem read_eq {entries : List Entry} {loads : Bool} (h : loads = true ∨ entries = []) :
    (if loads then entries else []) = entries := by
  rcases h with hload | hnil
  · exact if_pos hload
  · rw [hnil, ite_self]

theorem saved_eq {o : Outcome} {entries : List Entry} (hload : o.loads = true)
    (hsave : o.saves = true) (f : List Entry → List Entry) : saved o entries f = f entries := by
  simp [saved, hload, hsave]

theorem same_upstream {m s : List UpstreamStatus} (h : Same ⟨m, s⟩) {request : Request}
    {masterId slaveId : Text} {event : UpstreamEvent} (hshared : Shared ⟨m, s⟩ request)
    (hevent : (handle m request masterId).2 = some event) :
    Same ⟨(handle m request masterId).1, Upstreams.applyEvent s event slaveId⟩ := by
  have hturn := perm_turn (t := ⟨request, masterId, slaveId⟩) h hshared
  unfold turn at hturn
  dsimp only at hturn
  rw [hevent] at hturn
  exact hturn

/-- An event that is applied takes the slave from one state of the master's stores to the next. -/
theorem equal_event {e : Logged} {o : Outcome} {s : Stores} (h : Equal e.before s)
    (hop : e.write.event e.before = some e.op) (hfresh : e.write.Fresh e.before)
    (happly : Applies e o s) : Equal (e.write.apply e.before) (applyEvent s e.op o) := by
  obtain ⟨write, before, op⟩ := e
  obtain ⟨hdns, hblacklist, hfeeds, hupstreams⟩ := h
  cases write with
  | addDns entry loads =>
    cases hop
    obtain ⟨hread, hnew⟩ := hfresh
    refine ⟨?_, hblacklist, hfeeds, hupstreams⟩
    show (if loads then before.dns else []) ++ [entry] = added o s.dns entry
    rw [read_eq hread, ← hdns, added_fresh happly.1 happly.2 hnew]
  | deleteDns id =>
    cases hop
    refine ⟨?_, hblacklist, hfeeds, hupstreams⟩
    show without before.dns id = saved o s.dns (without · id)
    rw [← hdns, saved_eq happly.1 happly.2]
  | addBlacklist entry loads =>
    cases hop
    obtain ⟨hread, hnew⟩ := hfresh
    refine ⟨hdns, ?_, hfeeds, hupstreams⟩
    show (if loads then before.blacklist else []) ++ [entry] = added o s.blacklist entry
    rw [read_eq hread, ← hblacklist, added_fresh happly.1 happly.2 hnew]
  | deleteBlacklist id =>
    cases hop
    refine ⟨hdns, ?_, hfeeds, hupstreams⟩
    show without before.blacklist id = saved o s.blacklist (without · id)
    rw [← hblacklist, saved_eq happly.1 happly.2]
  | addFeed feed =>
    cases hop
    refine ⟨hdns, hblacklist, ?_, hupstreams⟩
    show before.feeds ++ [feed] = added o s.feeds feed
    rw [← hfeeds, added_fresh happly.1 happly.2 hfresh]
  | deleteFeed id =>
    cases hop
    refine ⟨hdns, hblacklist, ?_, hupstreams⟩
    show without before.feeds id = saved o s.feeds (without · id)
    rw [← hfeeds, saved_eq happly.1 happly.2]
  | updateFeed id url body =>
    cases hop
    obtain ⟨hload, hsave, hbody⟩ := happly
    refine ⟨hdns, hblacklist, ?_, hupstreams⟩
    show refreshed before.feeds id body =
      if o.loads && o.saves then refreshed s.feeds id o.fetched else s.feeds
    rw [hload, hsave, hbody, hfeeds]
    rfl
  | updateFeeds feeds => cases hop
  | upstream request uuid =>
    obtain ⟨event, hevent, rfl⟩ := Option.map_eq_some_iff.mp hop
    exact ⟨hdns, hblacklist, hfeeds, same_upstream hupstreams happly hevent⟩
  | addGlobalBan ip rule expiresSecs =>
    cases hop
    exact ⟨hdns, hblacklist, hfeeds, hupstreams⟩
  | deleteGlobalBan ip =>
    cases hop
    exact ⟨hdns, hblacklist, hfeeds, hupstreams⟩

end Runbound.Sync.Converge
