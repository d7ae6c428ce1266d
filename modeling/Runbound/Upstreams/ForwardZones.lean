import Mathlib.Data.Set.Basic
import Runbound.Lib.OrderedMap
import Runbound.Lib.Text
import Runbound.Wire.Basic

/-!
# The upstream table and the forward zones

Model of `init_upstreams`, `rebuild_forward_zones` and `parse_addr_port` in `upstreams.rs`
(lines 288–362), with `ForwardZone` of `config/parser.rs` (lines 46–55). At the start every
address of every forward zone becomes an upstream; when the configuration is saved after an edit,
the forward zones are made again from the upstreams.

The groups of `rebuild_forward_zones` are a `BTreeMap`, a list in key order here. An id of the
configuration is a digest of its fields, a parameter. The fields of an upstream that only the
health checks use are left out.

A forward zone describes one forwarder for each of its addresses (`forwarders`).

Results:
* `mem_forwarders_rebuilt`: what the two passes make of the forwarders.
* `forwarders_rebuilt_iff`: they are the same exactly when no zone with an address has a TLS
  hostname or the empty name.

**Deviation.** `init_upstreams` sets `tls_hostname: None` in every upstream, so the name under
which a DoT server is authenticated is gone after the first save (`hostname_lost`), although the
upstreams have the field and `rebuild_forward_zones` reads it. A zone without a name comes back
as the root zone.
-/

namespace Runbound.Upstreams

open Wire List
open Lib

/-- `ForwardZone` (config/parser.rs:47-55). -/
structure ForwardZone where
  name : Text
  addrs : List Text
  tls : Bool
  tlsHostname : Option Text
  deriving DecidableEq

/-- The protocol of an upstream, `"udp"` or `"dot"`. -/
inductive Protocol where
  | udp
  | dot
  deriving DecidableEq

/-- Where an upstream comes from, `"config"` or `"api"`. -/
inductive Source where
  | config
  | api
  deriving DecidableEq

/-- `UpstreamStatus` (upstreams.rs:61-113), without the fields of the probes. -/
structure UpstreamStatus where
  id : Text
  addr : Text
  port : U16
  name : Option Text
  protocol : Protocol
  source : Source
  zone : Text
  tlsHostname : Option Text
  temporary : Bool
  deriving DecidableEq

/-- The port that a text gives (upstreams.rs:291). -/
def parsePort (s : Text) : Option U16 := (Text.parseNat 65536 s).map (Fin.ofNat 65536)

/-- `parse_addr_port` (upstreams.rs:289-296). -/
def parseAddrPort (addr : Text) (defaultPort : U16) : Text × U16 :=
  match Text.splitOnce '@' addr with
  | some (clean, port) => (clean, (parsePort port).getD defaultPort)
  | none => (addr, defaultPort)

/-- The port of a forward address that names none (upstreams.rs:332). -/
def defaultPort (tls : Bool) : U16 := if tls then 853 else 53

section Init

variable (configUpstreamId : Text → U16 → Protocol → Text)

/-- The upstream of one address of a forward zone (upstreams.rs:334-358). -/
def initUpstream (fz : ForwardZone) (addr : Text) : UpstreamStatus :=
  let (clean, port) := parseAddrPort addr (defaultPort fz.tls)
  let protocol := if fz.tls then Protocol.dot else Protocol.udp
  { id := configUpstreamId clean port protocol
    addr := clean
    port := port
    name := none
    protocol := protocol
    source := .config
    zone := fz.name
    tlsHostname := none
    temporary := false }

/-- `init_upstreams` (upstreams.rs:329-362). -/
def initUpstreams (zones : List ForwardZone) : List UpstreamStatus :=
  zones.flatMap fun fz => fz.addrs.map (initUpstream configUpstreamId fz)

end Init

/-- `format!("{}@{}", u.addr, u.port)` (upstreams.rs:321). -/
def forwardAddr (addr : Text) (port : U16) : Text := addr ++ '@' :: Text.decimal port.val

/-- The groups stand in the order of their zones, those without TLS first. -/
instance groupKeyOrd : Ord (Text × Bool) := lexOrd

/-- The zone and the TLS setting an upstream is grouped by (upstreams.rs:313-314). -/
def groupKey (u : UpstreamStatus) : Text × Bool :=
  (if u.zone.isEmpty then ['.'] else u.zone, decide (u.protocol = .dot))

/-- An upstream joins its group (upstreams.rs:321-324): its address is added, and its hostname if
the group has none. -/
def addToGroup (u : UpstreamStatus) (fz : ForwardZone) : ForwardZone :=
  { fz with
    addrs := fz.addrs ++ [forwardAddr u.addr u.port]
    tlsHostname := if fz.tlsHostname = none then u.tlsHostname else fz.tlsHostname }

/-- The group a key starts with (upstreams.rs:315-320). -/
def emptyGroup (key : Text × Bool) : ForwardZone :=
  { name := key.1, addrs := [], tls := key.2, tlsHostname := none }

/-- One turn of the loop of `rebuild_forward_zones` (upstreams.rs:311-325). -/
def regroup (groups : List ((Text × Bool) × ForwardZone)) (u : UpstreamStatus) :
    List ((Text × Bool) × ForwardZone) :=
  if u.temporary then groups
  else OrderedMap.upsert (groupKey u) (emptyGroup (groupKey u)) (addToGroup u) groups

/-- `rebuild_forward_zones` (upstreams.rs:304-327). -/
def rebuildForwardZones (upstreams : List UpstreamStatus) : List ForwardZone :=
  (upstreams.foldl regroup []).map Prod.snd

/-! ## Specification -/

/-- One forwarder of a configuration. -/
structure Forwarder where
  zone : Text
  addr : Text
  port : U16
  tls : Bool
  tlsHostname : Option Text
  deriving DecidableEq

/-- The forwarder of one address of a forward zone. -/
def forwarder (fz : ForwardZone) (addr : Text) : Forwarder :=
  { zone := fz.name
    addr := (parseAddrPort addr (defaultPort fz.tls)).1
    port := (parseAddrPort addr (defaultPort fz.tls)).2
    tls := fz.tls
    tlsHostname := fz.tlsHostname }

/-- The forwarders that forward zones describe. -/
def forwarders (zones : List ForwardZone) : Set Forwarder :=
  { x | ∃ fz ∈ zones, ∃ addr ∈ fz.addrs, x = forwarder fz addr }

/-- A forwarder as it comes back: without its TLS hostname, at the root if its zone is unnamed. -/
def Forwarder.rebuilt (x : Forwarder) : Forwarder :=
  { x with zone := if x.zone.isEmpty then ['.'] else x.zone, tlsHostname := none }

/-! ## Addresses -/

theorem parsePort_decimal (port : U16) : parsePort (Text.decimal port.val) = some port := by
  rw [parsePort, Text.parseNat_decimal port.isLt, Option.map_some, Fin.ofNat_val_eq_self]

/-- An address that is written with its port is read back, whatever the default. -/
theorem parseAddrPort_forwardAddr {addr : Text} (h : '@' ∉ addr) (port d : U16) :
    parseAddrPort (forwardAddr addr port) d = (addr, port) := by
  rw [parseAddrPort, forwardAddr, Text.splitOnce_append h]
  show (addr, (parsePort (Text.decimal port.val)).getD d) = (addr, port)
  rw [parsePort_decimal, Option.getD_some]

theorem not_mem_parseAddrPort (addr : Text) (d : U16) : '@' ∉ (parseAddrPort addr d).1 := by
  rw [parseAddrPort]
  cases hs : Text.splitOnce '@' addr with
  | some p => exact (Text.splitOnce_eq_some hs).1
  | none => exact Text.splitOnce_eq_none_iff.mp hs

/-! ## The two passes -/

theorem exists_mem_regroup (groups : List ((Text × Bool) × ForwardZone)) {u : UpstreamStatus}
    (htemp : u.temporary = false) (key : Text × Bool) (addr : Text) :
    (∃ e ∈ regroup groups u, e.1 = key ∧ addr ∈ e.2.addrs) ↔
      (∃ e ∈ groups, e.1 = key ∧ addr ∈ e.2.addrs) ∨
        groupKey u = key ∧ addr = forwardAddr u.addr u.port := by
  rw [regroup, if_neg (by simp [htemp])]
  have hinit : addr ∉ (emptyGroup (groupKey u)).addrs := by simp [emptyGroup]
  have hadd : ∀ fz, addr ∈ (addToGroup u fz).addrs ↔
      addr ∈ fz.addrs ∨ addr = forwardAddr u.addr u.port := by simp [addToGroup]
  exact OrderedMap.exists_mem_upsert (Q := fun fz => addr ∈ fz.addrs) hinit hadd groups key

/-- A group has the zone and the TLS setting of its key, and no TLS hostname. -/
def Plain (key : Text × Bool) (fz : ForwardZone) : Prop :=
  fz.name = key.1 ∧ fz.tls = key.2 ∧ fz.tlsHostname = none

theorem plain_regroup {groups : List ((Text × Bool) × ForwardZone)} {u : UpstreamStatus}
    (hu : u.tlsHostname = none) (h : ∀ e ∈ groups, Plain e.1 e.2) :
    ∀ e ∈ regroup groups u, Plain e.1 e.2 := by
  rw [regroup]
  split_ifs
  · exact h
  · apply OrderedMap.forall_upsert h
    · exact ⟨rfl, rfl, by simp [addToGroup, emptyGroup, hu]⟩
    · rintro fz ⟨hname, htls, hhost⟩
      exact ⟨hname, htls, by simp [addToGroup, hhost, hu]⟩

/-- What the loop makes of upstreams without TLS hostnames, none of them temporary. -/
theorem foldl_regroup {us : List UpstreamStatus}
    (hus : ∀ u ∈ us, u.temporary = false ∧ u.tlsHostname = none)
    {groups : List ((Text × Bool) × ForwardZone)} (h : ∀ e ∈ groups, Plain e.1 e.2) :
    (∀ e ∈ us.foldl regroup groups, Plain e.1 e.2) ∧
      ∀ key addr, (∃ e ∈ us.foldl regroup groups, e.1 = key ∧ addr ∈ e.2.addrs) ↔
        (∃ e ∈ groups, e.1 = key ∧ addr ∈ e.2.addrs) ∨
          ∃ u ∈ us, groupKey u = key ∧ addr = forwardAddr u.addr u.port := by
  induction us generalizing groups with
  | nil => exact ⟨h, by simp⟩
  | cons u us ih =>
    obtain ⟨htemp, hhost⟩ := hus u (by simp)
    obtain ⟨hplain, hmem⟩ := ih (fun u' hu' => hus u' (mem_cons_of_mem u hu'))
      (plain_regroup hhost h)
    refine ⟨hplain, fun key addr => ?_⟩
    rw [foldl_cons, hmem, exists_mem_regroup groups htemp, exists_mem_cons_iff, or_assoc]

variable (configUpstreamId : Text → U16 → Protocol → Text)

theorem groupKey_initUpstream (fz : ForwardZone) (addr : Text) :
    groupKey (initUpstream configUpstreamId fz addr) =
      (if fz.name.isEmpty then ['.'] else fz.name, fz.tls) := by
  cases htls : fz.tls <;> simp [groupKey, initUpstream, htls]

theorem forwarder_eq_of_plain {key : Text × Bool} {fz : ForwardZone} (h : Plain key fz)
    (addr : Text) : forwarder fz addr = forwarder (emptyGroup key) addr := by
  obtain ⟨hname, htls, hhost⟩ := h
  simp [forwarder, emptyGroup, hname, htls, hhost]

/-- An upstream of the configuration comes back as the forwarder it was made of, but for the
hostname and an empty name. -/
theorem forwarder_initUpstream (fz : ForwardZone) (addr : Text) :
    forwarder (emptyGroup (groupKey (initUpstream configUpstreamId fz addr)))
        (forwardAddr (initUpstream configUpstreamId fz addr).addr
          (initUpstream configUpstreamId fz addr).port) =
      (forwarder fz addr).rebuilt := by
  have hat := not_mem_parseAddrPort addr (defaultPort fz.tls)
  rw [groupKey_initUpstream]
  simp [forwarder, Forwarder.rebuilt, emptyGroup, initUpstream, parseAddrPort_forwardAddr hat]

/-- The forwarders of the rebuilt zones are the forwarders of the zones as they come back. -/
theorem mem_forwarders_rebuilt (zones : List ForwardZone) (x : Forwarder) :
    x ∈ forwarders (rebuildForwardZones (initUpstreams configUpstreamId zones)) ↔
      ∃ y ∈ forwarders zones, x = y.rebuilt := by
  have hinit : ∀ u ∈ initUpstreams configUpstreamId zones,
      u.temporary = false ∧ u.tlsHostname = none := by
    simp only [initUpstreams, mem_flatMap, mem_map]
    rintro u ⟨fz, -, addr, -, rfl⟩
    exact ⟨rfl, rfl⟩
  have hnone : ∀ e ∈ ([] : List ((Text × Bool) × ForwardZone)), Plain e.1 e.2 := by simp
  obtain ⟨hplain, hmem⟩ := foldl_regroup hinit hnone
  simp only [not_mem_nil, false_and, exists_false, false_or] at hmem
  constructor
  · rintro ⟨fz', hfz', addr', haddr', rfl⟩
    obtain ⟨e, he, rfl⟩ := mem_map.mp hfz'
    obtain ⟨u, hu, hkey, rfl⟩ := (hmem e.1 addr').mp ⟨e, he, rfl, haddr'⟩
    simp only [initUpstreams, mem_flatMap, mem_map] at hu
    obtain ⟨fz, hfz, addr, haddr, rfl⟩ := hu
    refine ⟨forwarder fz addr, ⟨fz, hfz, addr, haddr, rfl⟩, ?_⟩
    rw [forwarder_eq_of_plain (hplain e he), ← hkey, forwarder_initUpstream]
  · rintro ⟨y, ⟨fz, hfz, addr, haddr, rfl⟩, rfl⟩
    have hu : initUpstream configUpstreamId fz addr ∈ initUpstreams configUpstreamId zones :=
      mem_flatMap.mpr ⟨fz, hfz, mem_map.mpr ⟨addr, haddr, rfl⟩⟩
    obtain ⟨e, he, hkey, haddr'⟩ := (hmem _ _).mpr ⟨_, hu, rfl, rfl⟩
    refine ⟨e.2, mem_map.mpr ⟨e, he, rfl⟩, _, haddr', ?_⟩
    rw [forwarder_eq_of_plain (hplain e he), hkey, forwarder_initUpstream]

/-! ## When the forwarders survive -/

/-- A zone whose forwarders come back as they were. -/
def Kept (fz : ForwardZone) : Prop := fz.addrs ≠ [] → fz.tlsHostname = none ∧ fz.name ≠ []

/-- What comes back differs from what was there in the hostname and in an empty name only. -/
theorem Forwarder.rebuilt_eq_self_iff {x : Forwarder} :
    x.rebuilt = x ↔ x.tlsHostname = none ∧ x.zone ≠ [] := by
  obtain ⟨zone, addr, port, tls, host⟩ := x
  simp only [Forwarder.rebuilt, Forwarder.mk.injEq, true_and]
  constructor
  · rintro ⟨hzone, hhost⟩
    refine ⟨hhost.symm, ?_⟩
    rintro rfl
    simp at hzone
  · rintro ⟨hhost, hzone⟩
    exact ⟨if_neg (by simpa using hzone), hhost.symm⟩

theorem Forwarder.rebuilt_rebuilt (x : Forwarder) : x.rebuilt.rebuilt = x.rebuilt := by
  rw [Forwarder.rebuilt_eq_self_iff]
  simp only [Forwarder.rebuilt]
  split_ifs with h
  · simp
  · simpa using h

/-- The forward zones describe the same forwarders after the two passes exactly when no zone
with an address has a TLS hostname or the empty name. -/
theorem forwarders_rebuilt_iff (zones : List ForwardZone) :
    forwarders (rebuildForwardZones (initUpstreams configUpstreamId zones)) = forwarders zones ↔
      ∀ fz ∈ zones, Kept fz := by
  constructor
  · intro heq fz hfz hne
    obtain ⟨addr, haddr⟩ := exists_mem_of_ne_nil fz.addrs hne
    have hx : forwarder fz addr ∈ forwarders zones := ⟨fz, hfz, addr, haddr, rfl⟩
    rw [← heq] at hx
    obtain ⟨y, -, hy⟩ := (mem_forwarders_rebuilt configUpstreamId zones _).mp hx
    have hfix : (forwarder fz addr).rebuilt = forwarder fz addr := by
      rw [hy, Forwarder.rebuilt_rebuilt]
    exact Forwarder.rebuilt_eq_self_iff.mp hfix
  · intro hkept
    have hfix : ∀ y ∈ forwarders zones, y.rebuilt = y := by
      rintro y ⟨fz, hfz, addr, haddr, rfl⟩
      exact Forwarder.rebuilt_eq_self_iff.mpr (hkept fz hfz (ne_nil_of_mem haddr))
    ext x
    rw [mem_forwarders_rebuilt]
    constructor
    · rintro ⟨y, hy, rfl⟩
      rw [hfix y hy]
      exact hy
    · intro hx
      exact ⟨x, hx, (hfix x hx).symm⟩

/-- A DoT zone with an authentication name. -/
def dotZone : ForwardZone :=
  { name := ".".toList
    addrs := ["9.9.9.9@853".toList]
    tls := true
    tlsHostname := some "dns.quad9.net".toList }

/-- The authentication name is gone: the address comes back without it. -/
theorem hostname_lost :
    rebuildForwardZones (initUpstreams (fun _ _ _ => []) [dotZone]) =
        [{ dotZone with tlsHostname := none }] ∧
      forwarders (rebuildForwardZones (initUpstreams (fun _ _ _ => []) [dotZone])) ≠
        forwarders [dotZone] := by
  have hrebuilt : rebuildForwardZones (initUpstreams (fun _ _ _ => []) [dotZone]) =
      [{ dotZone with tlsHostname := none }] := by decide +kernel
  refine ⟨hrebuilt, ?_⟩
  intro heq
  have hx : forwarder dotZone "9.9.9.9@853".toList ∈ forwarders [dotZone] :=
    ⟨dotZone, by simp, "9.9.9.9@853".toList, by simp [dotZone], rfl⟩
  rw [← heq, hrebuilt] at hx
  obtain ⟨fz, hfz, addr, -, hhost⟩ := hx
  obtain rfl := mem_singleton.mp hfz
  have := congrArg Forwarder.tlsHostname hhost
  simp [forwarder, dotZone] at this

end Runbound.Upstreams
