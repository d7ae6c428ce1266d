import Mathlib.Data.List.Perm.Basic
import Runbound.Upstreams.ForwardZones

/-!
# Replication of the upstream table

Model of `add_upstream` and `remove_upstream` in `upstreams.rs` (lines 380–440), of the handlers
of `POST` and `DELETE /api/upstreams` in `api/mod.rs` (lines 3028–3250) as far as they change the
table and push a journal event, and of the two events in `apply_event` of `sync.rs`
(lines 1582–1594).

A request is modelled after its checks: a request that is refused changes nothing and pushes
nothing. The id that `Uuid::new_v4` gives is an input of each call.

Results:
* `perm_turn`: one request keeps the tables of master and slave the same, if a deletion names an
  id under which both have the same upstream.
* `replicated_of_shared`: so does every sequence of such requests.

**Deviation.** `AddUpstream` does not carry the id of the upstream, and the slave draws one of
its own. `DeleteUpstream` has nothing but the id of the master. An upstream that was added over
the API is therefore never deleted on the slave (`deleted_upstream_stays`). Upstreams of a common
configuration file have the same id on both sides.
-/

namespace Runbound.Upstreams

open Wire List
open Lib

/-- The fields of an upstream in a request (api/mod.rs:2725-2735) and in an `AddUpstream` event
(api/mod.rs:3152-3158). -/
structure AddUpstream where
  addr : Text
  port : U16
  protocol : Protocol
  name : Option Text
  tlsHostname : Option Text
  deriving DecidableEq

/-- `MAX_UPSTREAMS` (upstreams.rs:421). -/
def maxUpstreams : ℕ := 128

/-- The entry `add_upstream` makes (upstreams.rs:388-408). -/
def newUpstream (req : AddUpstream) (uuid : Text) : UpstreamStatus :=
  { id := uuid
    addr := req.addr
    port := req.port
    name := req.name
    protocol := req.protocol
    source := .api
    zone := ['.']
    tlsHostname := req.tlsHostname
    temporary := false }

/-- What `add_upstream` takes for the same upstream (upstreams.rs:417). -/
def sameUpstream (req : AddUpstream) (u : UpstreamStatus) : Bool :=
  u.addr == req.addr && u.port == req.port && u.protocol == req.protocol

/-- `add_upstream` (upstreams.rs:380-429): the table, and the entry it returns. -/
def addUpstream (table : List UpstreamStatus) (req : AddUpstream) (uuid : Text) :
    List UpstreamStatus × UpstreamStatus :=
  match table.find? (sameUpstream req) with
  | some existing => (table, existing)
  | none =>
    if table.length ≥ maxUpstreams then (table, newUpstream req uuid)
    else (table ++ [newUpstream req uuid], newUpstream req uuid)

/-- `remove_upstream` (upstreams.rs:433-440): the first entry with the id goes. -/
def removeUpstream (table : List UpstreamStatus) (id : Text) : List UpstreamStatus :=
  table.eraseP fun u => u.id == id

/-- A request to the API of the master. -/
inductive Request where
  | add (req : AddUpstream)
  | delete (id : Text)
  deriving DecidableEq

/-- The journal events for upstreams (sync.rs:270-279). -/
inductive UpstreamEvent where
  | addUpstream (req : AddUpstream)
  | deleteUpstream (id : Text)
  deriving DecidableEq

section

variable (table : List UpstreamStatus)

/-- The upstream that has an id. -/
def upstreamOf (id : Text) : Option UpstreamStatus := table.find? fun u => u.id == id

/-- A deletion is carried out (api/mod.rs:3190-3232): the id is there, and it is not the last
upstream. -/
def deletes (id : Text) : Bool := (upstreamOf table id).isSome && table.length != 1

/-- The handlers of the master (api/mod.rs:3129-3158, 3184-3247): the table, and the event that is
pushed. -/
def handle (request : Request) (uuid : Text) : List UpstreamStatus × Option UpstreamEvent :=
  match request with
  | .add req =>
    let (table, entry) := addUpstream table req uuid
    (table, some (.addUpstream
      { addr := entry.addr
        port := entry.port
        protocol := entry.protocol
        name := entry.name
        tlsHostname := entry.tlsHostname }))
  | .delete id =>
    if deletes table id then (removeUpstream table id, some (.deleteUpstream id))
    else (table, none)

/-- `apply_event` of the slave, for the events of upstreams (sync.rs:1581-1592). -/
def applyEvent (event : UpstreamEvent) (uuid : Text) : List UpstreamStatus :=
  match event with
  | .addUpstream req => (addUpstream table req uuid).1
  | .deleteUpstream id => removeUpstream table id

end

/-- The tables of the master and of the slave. -/
structure Tables where
  master : List UpstreamStatus
  slave : List UpstreamStatus

/-- A request with the ids that the master and the slave draw for it. -/
structure Turn where
  request : Request
  masterId : Text
  slaveId : Text

/-- The master handles a request, and the slave applies the event. -/
def turn (st : Tables) (t : Turn) : Tables :=
  let (master, event) := handle st.master t.request t.masterId
  { master := master
    slave := event.elim st.slave fun event => applyEvent st.slave event t.slaveId }

/-- Any sequence of requests, whose events the slave applies in order. -/
def run (st : Tables) (ts : List Turn) : Tables := ts.foldl turn st

/-! ## Specification -/

/-- What is replicated of an upstream: address, port, protocol and zone. -/
def key (u : UpstreamStatus) : Text × U16 × Protocol × Text := (u.addr, u.port, u.protocol, u.zone)

/-- The replicated upstreams of a table. -/
def keys (table : List UpstreamStatus) : List (Text × U16 × Protocol × Text) := table.map key

/-- Both tables have the same upstreams, each as often. -/
def Same (st : Tables) : Prop := (keys st.master).Perm (keys st.slave)

/-- A deletion that the master carries out names an id under which the slave has the upstream
that the master has under it. -/
def Shared (st : Tables) : Request → Prop
  | .add _ => True
  | .delete id => deletes st.master id = true →
      (upstreamOf st.slave id).map key = (upstreamOf st.master id).map key

/-- Every deletion of a run that is carried out names a shared id. -/
def SharedRun (st : Tables) : List Turn → Prop
  | [] => True
  | t :: ts => Shared st t.request ∧ SharedRun (turn st t) ts

/-! ## Additions -/

/-- `sameUpstream` on what is replicated. -/
def sameKey (req : AddUpstream) (k : Text × U16 × Protocol × Text) : Bool :=
  k.1 == req.addr && k.2.1 == req.port && k.2.2.1 == req.protocol

/-- The upstream that an addition makes, as it is replicated. -/
def newKey (req : AddUpstream) : Text × U16 × Protocol × Text :=
  (req.addr, req.port, req.protocol, ['.'])

/-- An addition has no effect: the upstream is there, or the table is full. -/
def refused (ks : List (Text × U16 × Protocol × Text)) (req : AddUpstream) : Bool :=
  ks.any (sameKey req) || decide (ks.length ≥ maxUpstreams)

theorem keys_addUpstream (table : List UpstreamStatus) (req : AddUpstream) (uuid : Text) :
    keys (addUpstream table req uuid).1 =
      if refused (keys table) req then keys table else keys table ++ [newKey req] := by
  have hany : (keys table).any (sameKey req) = (table.find? (sameUpstream req)).isSome := by
    rw [keys, any_map, Bool.eq_iff_iff, any_eq_true, find?_isSome]
    rfl
  rw [addUpstream]
  cases hfind : table.find? (sameUpstream req) with
  | some existing =>
    rw [hfind] at hany
    rw [refused, hany]
    rfl
  | none =>
    rw [hfind] at hany
    have hlen : (keys table).length = table.length := length_map key
    by_cases hfull : table.length ≥ maxUpstreams
    · simp [refused, hlen, hfull]
    · have hadd : keys (table ++ [newUpstream req uuid]) = keys table ++ [newKey req] := map_append
      simp [refused, hany, hlen, hfull, hadd]

/-- What is refused depends on the upstreams, not on their order. -/
theorem refused_perm {ks ks' : List (Text × U16 × Protocol × Text)} (h : ks.Perm ks')
    (req : AddUpstream) : refused ks req = refused ks' req := by
  rw [refused, refused, h.length_eq, h.any_eq]

theorem perm_addUpstream {table table' : List UpstreamStatus}
    (h : (keys table).Perm (keys table')) (req : AddUpstream) (uuid uuid' : Text) :
    (keys (addUpstream table req uuid).1).Perm (keys (addUpstream table' req uuid').1) := by
  rw [keys_addUpstream, keys_addUpstream, refused_perm h]
  split_ifs
  · exact h
  · exact h.append_right [newKey req]

/-- The entry that `add_upstream` returns has the address, port and protocol of the request. -/
theorem addUpstream_entry (table : List UpstreamStatus) (req : AddUpstream) (uuid : Text) :
    (addUpstream table req uuid).2.addr = req.addr ∧
      (addUpstream table req uuid).2.port = req.port ∧
        (addUpstream table req uuid).2.protocol = req.protocol := by
  rw [addUpstream]
  cases hfind : table.find? (sameUpstream req) with
  | some existing =>
    have hsame := find?_some hfind
    simp only [sameUpstream, Bool.and_eq_true, beq_iff_eq] at hsame
    exact ⟨hsame.1.1, hsame.1.2, hsame.2⟩
  | none =>
    show _ ∧ _ ∧ _
    split_ifs <;> exact ⟨rfl, rfl, rfl⟩

/-! ## Deletions -/

theorem perm_removeUpstream {table : List UpstreamStatus} {id : Text} {u : UpstreamStatus}
    (h : upstreamOf table id = some u) :
    (keys table).Perm (key u :: keys (removeUpstream table id)) := by
  induction table with
  | nil => cases h
  | cons v table ih =>
    cases hv : v.id == id with
    | true =>
      simp only [upstreamOf, find?_cons, hv, Option.some.injEq] at h
      subst h
      simp only [removeUpstream, eraseP_cons, hv]
      exact List.Perm.refl _
    | false =>
      simp only [upstreamOf, find?_cons, hv] at h
      simp only [removeUpstream, eraseP_cons, hv]
      exact ((ih h).cons (key v)).trans (List.Perm.swap _ _ _)

/-! ## Runs -/

/-- One request keeps the tables the same, if a deletion names a shared id. -/
theorem perm_turn {st : Tables} (h : Same st) {t : Turn} (hshared : Shared st t.request) :
    Same (turn st t) := by
  obtain ⟨request, masterId, slaveId⟩ := t
  cases request with
  | add req =>
    -- the event asks for the same upstream as the request
    obtain ⟨haddr, hport, hprotocol⟩ := addUpstream_entry st.master req masterId
    have hkeys : ∀ req', req'.addr = req.addr → req'.port = req.port →
        req'.protocol = req.protocol →
          keys (addUpstream st.slave req' slaveId).1 =
            keys (addUpstream st.slave req slaveId).1 := by
      intro req' ha hp hpr
      have hsame : sameKey req' = sameKey req := by
        funext k
        rw [sameKey, sameKey, ha, hp, hpr]
      rw [keys_addUpstream, keys_addUpstream, refused, refused, hsame, newKey, newKey, ha, hp, hpr]
    show (keys (addUpstream st.master req masterId).1).Perm _
    refine (perm_addUpstream h req masterId slaveId).trans (List.Perm.of_eq ?_)
    exact (hkeys _ haddr hport hprotocol).symm
  | delete id =>
    by_cases hdel : deletes st.master id = true
    · have hmaster : (upstreamOf st.master id).isSome = true := by
        rw [deletes, Bool.and_eq_true] at hdel
        exact hdel.1
      obtain ⟨u, hu⟩ := Option.isSome_iff_exists.mp hmaster
      have hkey := hshared hdel
      rw [hu] at hkey
      obtain ⟨v, hv, hvu⟩ := Option.map_eq_some_iff.mp hkey
      have hturn : turn st ⟨.delete id, masterId, slaveId⟩ =
          ⟨removeUpstream st.master id, removeUpstream st.slave id⟩ := by
        simp only [turn, handle, hdel]
        rfl
      rw [hturn]
      have hcons : (key u :: keys (removeUpstream st.master id)).Perm
          (key u :: keys (removeUpstream st.slave id)) := by
        have hslave := perm_removeUpstream hv
        rw [hvu] at hslave
        exact ((perm_removeUpstream hu).symm.trans h).trans hslave
      exact hcons.cons_inv
    · have hturn : turn st ⟨.delete id, masterId, slaveId⟩ = st := by
        simp only [turn, handle, hdel]
        rfl
      rw [hturn]
      exact h

/-- In every run from tables with the same upstreams, in which every deletion that is carried out
names an id under which both have the same upstream, the slave has the upstreams of the master. -/
theorem replicated_of_shared {st : Tables} (h : Same st) {ts : List Turn} (hshared : SharedRun st ts)
    (k : Text × U16 × Protocol × Text) :
    k ∈ keys (run st ts).slave ↔ k ∈ keys (run st ts).master := by
  have hsame : Same (run st ts) := by
    induction ts generalizing st with
    | nil => exact h
    | cons t ts ih => exact ih (perm_turn h hshared.1) hshared.2
  exact hsame.symm.mem_iff

/-! ## Two runs -/

/-- Both sides start from a configuration with two addresses. -/
def twoAddresses : List UpstreamStatus :=
  initUpstreams (fun addr _ _ => addr)
    [{ name := ['.'], addrs := ["9.9.9.9".toList, "1.1.1.1".toList], tls := false,
       tlsHostname := none }]

def bothConfigured : Tables := ⟨twoAddresses, twoAddresses⟩

def addEight : AddUpstream :=
  { addr := "8.8.8.8".toList, port := 53, protocol := .udp, name := none, tlsHostname := none }

/-- An upstream is added, and one of the configuration is deleted. -/
def sharedTurns : List Turn :=
  [⟨.add addEight, "m".toList, "s".toList⟩, ⟨.delete "1.1.1.1".toList, "m2".toList, "s2".toList⟩]

theorem replicated_sharedTurns :
    keys (run bothConfigured sharedTurns).master =
        [("9.9.9.9".toList, 53, .udp, ['.']), ("8.8.8.8".toList, 53, .udp, ['.'])] ∧
      ∀ k, k ∈ keys (run bothConfigured sharedTurns).slave ↔
        k ∈ keys (run bothConfigured sharedTurns).master := by
  have hstart : Same bothConfigured := List.Perm.refl _
  have hshared : SharedRun bothConfigured sharedTurns :=
    ⟨trivial, fun _ => by decide +kernel, trivial⟩
  exact ⟨by decide +kernel, replicated_of_shared hstart hshared⟩

/-- The upstream that was added is deleted on the master. The id is not the one the slave drew,
and the upstream stays in its table. -/
theorem deleted_upstream_stays :
    let st := run bothConfigured
      [⟨.add addEight, "m".toList, "s".toList⟩, ⟨.delete "m".toList, "m2".toList, "s2".toList⟩]
    newKey addEight ∉ keys st.master ∧ newKey addEight ∈ keys st.slave := by
  decide +kernel

end Runbound.Upstreams
