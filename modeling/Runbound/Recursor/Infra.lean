import Runbound.Dnssec.Chain
import Runbound.Lib.Map

/-!
# Addresses and the infrastructure cache of the recursor (`ssrf.rs`, `infra_cache.rs`)

The addresses the recursor may query, the zone cuts it has learned from referrals, and the
round-trip times of the servers. Time, and what the network does while the recursor waits,
come from `Net`.

* `CutsAll`: an invariant of the learned cuts, kept by every operation on them.
-/

namespace Runbound.Recursor

open Wire Dnssec Lib

/-! ## Addresses -/

/-- `IpAddr`. -/
inductive IpAddr
  | v4 (octets : Fin 4 → Byte)
  | v6 (octets : Fin 16 → Byte)
  deriving DecidableEq

/-- `is_public_ip` on an IPv4 address (ssrf.rs:18-32). -/
def isPublicV4 (o : Fin 4 → Byte) : Bool :=
  let a := (o 0).val
  let b := (o 1).val
  let c := (o 2).val
  let d := (o 3).val
  !(a = 127 || (a = 10 || (a = 172 && 16 ≤ b && b ≤ 31) || (a = 192 && b = 168)) ||
    (a = 169 && b = 254) || (a = 255 && b = 255 && c = 255 && d = 255) ||
    ((a = 192 && b = 0 && c = 2) || (a = 198 && b = 51 && c = 100) ||
      (a = 203 && b = 0 && c = 113)) ||
    (a = 0 && b = 0 && c = 0 && d = 0) || (224 ≤ a && a ≤ 239) || a = 0 ||
    (a = 100 && b / 64 = 1) || (a = 192 && b = 0 && c = 0) || (a = 198 && b / 2 = 9) || a ≥ 240)

/-- A 16-bit segment of an IPv6 address. -/
def segment (o : Fin 16 → Byte) (i : Fin 8) : ℕ :=
  (o ⟨2 * i.val, by omega⟩).val * 256 + (o ⟨2 * i.val + 1, by omega⟩).val

/-- `is_public_ip` on an IPv6 address (ssrf.rs:33-48). -/
def isPublicV6 (o : Fin 16 → Byte) : Bool :=
  let s := segment o
  if s 0 = 0 && s 1 = 0 && s 2 = 0 && s 3 = 0 && s 4 = 0 && s 5 = 0xffff then
    isPublicV4 ![o 12, o 13, o 14, o 15]
  else
    !((s 0 = 0 && s 1 = 0 && s 2 = 0 && s 3 = 0 && s 4 = 0 && s 5 = 0 && s 6 = 0 && s 7 = 1) ||
      (s 0 = 0 && s 1 = 0 && s 2 = 0 && s 3 = 0 && s 4 = 0 && s 5 = 0 && s 6 = 0 && s 7 = 0) ||
      s 0 / 256 = 0xff || s 0 / 512 = 0x7e || s 0 / 64 = 0x3fa || (s 0 = 0x64 && s 1 = 0xff9b) ||
      (s 0 = 0x2001 && s 1 = 0x0db8) ||
      (s 0 = 0 && s 1 = 0 && s 2 = 0 && s 3 = 0 && s 4 = 0 && s 5 = 0))

/-- `is_public_ip` (ssrf.rs:16). -/
def isPublicIp : IpAddr → Bool
  | .v4 o => isPublicV4 o
  | .v6 o => isPublicV6 o

/-- `record_ip` (recursor_wire.rs:627). -/
def recordIp (r : Record) : Option IpAddr :=
  match r.rdata with
  | .a o => some (.v4 o)
  | .aaaa o => some (.v6 o)
  | _ => none

/-- `ROOT_HINTS_V4` (recursor_wire.rs:39) as addresses. -/
def rootHints : List IpAddr :=
  [.v4 ![198, 41, 0, 4], .v4 ![170, 247, 170, 2], .v4 ![192, 33, 4, 12], .v4 ![199, 7, 91, 13],
    .v4 ![192, 203, 230, 10], .v4 ![192, 5, 5, 241], .v4 ![192, 112, 36, 4],
    .v4 ![198, 97, 190, 53], .v4 ![192, 36, 148, 17], .v4 ![192, 58, 128, 30],
    .v4 ![193, 0, 14, 129], .v4 ![199, 7, 83, 42], .v4 ![202, 12, 27, 33]]

/-! ## The network -/

/-- What ends a wait of `query_ns_set` (recursor_wire.rs:597-608): the hedge timer, or the query
    to the server at `index` among those in flight, with its reply if there is one. -/
structure Wake where
  hedge : Bool
  index : ℕ
  reply : Option Message
  rtt : U32

/-- What the recursor sees of the outside: the clock, and how a wait for the servers in flight
    ends. `qmin` is `QMIN_ON`. -/
structure Net (ω : Type) where
  qmin : Bool
  unixNow : ω → U32 × ω
  wake : List IpAddr → Name → U16 → ω → Wake × ω

/-- `MAX_CUTS` (infra_cache.rs:57). -/
def maxCuts : ℕ := 16384

/-- `RTT_MAX_ENTRIES` (infra_cache.rs:38). -/
def rttMaxEntries : ℕ := 8192

/-- The state of the recursor apart from the DNSKEY cache. -/
structure Infra (ω : Type) where
  world : ω
  cuts : Bounded (List IpAddr) := { cap := maxCuts }
  rtt : Map IpAddr U32 := ∅

namespace Infra

variable {ω : Type}

/-- `record_rtt` (infra_cache.rs:41). -/
def recordRtt (ip : IpAddr) (sample : U32) (s : Infra ω) : Infra ω :=
  let m := if s.rtt.keys.length ≥ rttMaxEntries ∧ ip ∉ s.rtt then ∅ else s.rtt
  let value := match m.lookup ip with
    | some r => Fin.ofNat _ (min (min (r.val * 3) 4294967295 + sample.val) 4294967295 / 4)
    | none => sample
  { s with rtt := m.insert ip value }

/-- `rtt_of` (infra_cache.rs:52). -/
def rttOf (ip : IpAddr) (s : Infra ω) : Option U32 := s.rtt.lookup ip

variable (net : Net ω)

/-- `zone_cut_learn` (infra_cache.rs:167). -/
def zoneCutLearn (zone : Name) (ips : List IpAddr) (ttl : U32) (s : Infra ω) : Infra ω :=
  if ips = [] ∨ zone.isRoot then s
  else
    let clock := net.unixNow s.world
    { s with
      world := clock.2
      cuts := s.cuts.insert (keyOf zone) ips (saturatingAdd clock.1 (clampTtl ttl)) clock.1 }

/-- The loop of `zone_cut_start` (infra_cache.rs:183-188). -/
def cutSearch (now : U32) :
    List Name → Bounded (List IpAddr) → Option (Name × List IpAddr) × Bounded (List IpAddr)
  | [], b => (none, b)
  | cur :: rest, b =>
    let hit := b.get (keyOf cur) now
    match hit.1 with
    | some ips => (some (cur, ips), hit.2)
    | none => cutSearch now rest hit.2

/-- `zone_cut_start` (infra_cache.rs:179). -/
def zoneCutStart (qname : Name) (s : Infra ω) : Option (Name × List IpAddr) × Infra ω :=
  let clock := net.unixNow s.world
  let r := cutSearch clock.1 (qname.ancestors.takeWhile fun n => !n.isRoot) s.cuts
  (r.1, { s with world := clock.2, cuts := r.2 })

/-- `zone_cut_forget` (infra_cache.rs:193). -/
def zoneCutForget (zone : Name) (s : Infra ω) : Infra ω :=
  { s with cuts := s.cuts.remove (keyOf zone) }

/-- `cached_start` (recursor_wire.rs:69). -/
def cachedStart (qname : Name) (qtype : U16) (s : Infra ω) :
    Option (Name × List IpAddr) × Infra ω :=
  if qtype = Rtype.DS then
    match qname.parent with
    | some p => s.zoneCutStart net p
    | none => (none, s)
  else s.zoneCutStart net qname

/-! ## The learned cuts -/

/-- Every learned cut is `P` of its zone and its addresses. -/
def CutsAll (P : List Bytes → List IpAddr → Prop) (s : Infra ω) : Prop :=
  s.cuts.All fun key ips => ∃ zone : Name, keyOf zone = key ∧ P zone.key ips

variable {net} {P : List Bytes → List IpAddr → Prop} {s : Infra ω}

theorem CutsAll.forget (h : s.CutsAll P) (zone : Name) : (s.zoneCutForget zone).CutsAll P :=
  Bounded.All.remove h

theorem CutsAll.learn (h : s.CutsAll P) {zone : Name} {ips : List IpAddr} (hP : P zone.key ips)
    (ttl : U32) : (s.zoneCutLearn net zone ips ttl).CutsAll P := by
  unfold zoneCutLearn
  split_ifs
  · exact h
  · exact Bounded.All.insert h ⟨zone, rfl, hP⟩

theorem cutSearch_all {Q : Bytes → List IpAddr → Prop} (now : U32) :
    ∀ (names : List Name) {b : Bounded (List IpAddr)}, b.All Q →
      (∀ z ips, (cutSearch now names b).1 = some (z, ips) → z ∈ names ∧ Q (keyOf z) ips) ∧
        (cutSearch now names b).2.All Q := by
  intro names
  induction names with
  | nil =>
    intro b h
    exact ⟨nofun, h⟩
  | cons cur rest ih =>
    intro b h
    obtain ⟨hhit, hkept⟩ : (∀ ips, (b.get (keyOf cur) now).1 = some ips → Q (keyOf cur) ips) ∧
        (b.get (keyOf cur) now).2.All Q := h.get
    rw [cutSearch]
    cases hget : (b.get (keyOf cur) now).1 with
    | some ips =>
      refine ⟨fun z ips' heq => ?_, hkept⟩
      obtain ⟨rfl, rfl⟩ := heq
      exact ⟨List.mem_cons_self, hhit _ hget⟩
    | none =>
      obtain ⟨h1, h2⟩ := ih hkept
      exact ⟨fun z ips heq => ⟨List.mem_cons_of_mem _ (h1 z ips heq).1, (h1 z ips heq).2⟩, h2⟩

/-- The cut a descent starts from was learned, and encloses the name it is for. -/
theorem CutsAll.start (h : s.CutsAll P) (qname : Name) :
    (∀ z ips, (s.zoneCutStart net qname).1 = some (z, ips) → z.key <+: qname.key ∧ P z.key ips) ∧
      (s.zoneCutStart net qname).2.CutsAll P := by
  obtain ⟨h1, h2⟩ := cutSearch_all (net.unixNow s.world).1
    (qname.ancestors.takeWhile fun n => !n.isRoot) h
  refine ⟨fun z ips heq => ?_, h2⟩
  obtain ⟨hmem, zone, hkey, hP⟩ := h1 z ips heq
  exact ⟨Name.key_prefix_of_mem_ancestors ((List.takeWhile_sublist _).subset hmem),
    key_eq_of_keyOf_eq hkey ▸ hP⟩

end Infra

end Runbound.Recursor
