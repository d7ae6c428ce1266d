import Runbound.Recursor.Infra
import Runbound.Recursor.Validated

/-!
# The iterative descent (`recursor_wire.rs`)

`descend` walks referrals from the deepest learned cut, or the root, down to the servers that
answer. With QNAME minimisation on, the servers above are asked for one label more than
their zone. `query_ns_set` asks the servers of one zone, the next one whenever the hedge timer
fires; `Net.wake` decides how each of its waits ends.

`recursorEnv` is the world of `resolve_validated` made of this: its fetcher is
`resolve_message`.
-/

namespace Runbound.Recursor

open Wire Dnssec Rtype Rcode

/-- `MAX_QUERIES` (recursor_wire.rs:106). -/
def maxQueries : ℕ := 80

/-- `MAX_DEPTH` (recursor_wire.rs:108). -/
def maxDepth : ℕ := 24

/-- `MAX_MINIMISE` (recursor_wire.rs:142). -/
def maxMinimise : ℕ := 10

/-- `QMIN_PROBE_TYPE` (recursor_wire.rs:137). -/
def qminProbeType : U16 := Rtype.A

/-! ## The messages -/

/-- `parent` taken `k` times (recursor_wire.rs:158-161). -/
def dropLabels : ℕ → Name → Name
  | 0, n => n
  | k + 1, n =>
    match n.parent with
    | some p => dropLabels k p
    | none => n

/-- `minimised` (recursor_wire.rs:149). -/
def minimised (qname zone : Name) (extra : ℕ) : Name :=
  let want := zone.labelCount + 1 + extra
  let have_ := qname.labelCount
  if extra ≥ maxMinimise ∨ want ≥ have_ then qname else dropLabels (have_ - want) qname

section

variable (msg : Message)

/-- `has_answer` (recursor_wire.rs:398-401). -/
def hasAnswer (qname : Name) (qtype : U16) : Bool :=
  msg.answers.any fun r =>
    (r.rtype = qtype || r.rtype = CNAME) && r.name.eqIgnoreAsciiCase qname

/-- `referral_zone` (recursor_wire.rs:409-415). -/
def referralZone (qname zone : Name) : Option Name :=
  ((msg.authority.filter fun r => r.rtype = NS).map Record.name).find? fun nm =>
    qname.isInZone nm && nm.isInZone zone && !nm.eqIgnoreAsciiCase zone

/-- `ns_names` (recursor_wire.rs:418-426). -/
def nsNames (zone : Name) : List Name :=
  (msg.authority.filter fun r => r.rtype = NS && r.name.eqIgnoreAsciiCase zone).filterMap
    fun r => match r.rdata with
      | .ns n => some n
      | _ => none

/-- `next_ips` from the additional section (recursor_wire.rs:429-435). -/
def glue (names : List Name) : List IpAddr :=
  ((msg.additional.filter fun r => names.any fun ns => ns.eqIgnoreAsciiCase r.name).filterMap
    recordIp).filter isPublicIp

/-- `cut_ttl` (recursor_wire.rs:81). -/
def cutTtl (zone : Name) (names : List Name) : U32 :=
  let ttl := ((msg.authority.filter fun r =>
    r.rtype = NS && r.name.eqIgnoreAsciiCase zone).map Record.ttl).foldl min u32Max
  let ttl := ((msg.additional.filter fun r =>
    (recordIp r).isSome && names.any fun n => n.eqIgnoreAsciiCase r.name).map
      Record.ttl).foldl min ttl
  if ttl = u32Max then 3600 else ttl

end

/-! ## The servers of one zone -/

variable {ω : Type} (net : Net ω)

/-- The servers not yet asked, those in flight, and what is left of the budget. -/
structure Race where
  rest : List IpAddr
  inflight : List IpAddr := []
  budget : ℕ

/-- Ask the next server if the list and the budget allow (recursor_wire.rs:575-579). -/
def Race.launch (r : Race) : Race :=
  match r.rest with
  | [] => r
  | ip :: rest =>
    if r.budget > 0 then ⟨rest, r.inflight ++ [ip], r.budget - 1⟩ else r

/-- The servers asked in one pass (recursor_wire.rs:575-590): one, or at once `two` of them. -/
def Race.launches (r : Race) (two : Bool) : Race := if two then r.launch.launch else r.launch

/-- The `loop` of `query_ns_set` (recursor_wire.rs:573-608). Every pass asks a server or loses
    one, so `fuel` is at most twice the number of servers. -/
def raceLoop (cold : Bool) (qname : Name) (qtype : U16) :
    (fuel : ℕ) → (first : Bool) → Race → Infra ω → Option Message × ℕ × Infra ω
  | 0, _, r, s => (none, r.budget, s)
  | fuel + 1, first, r, s =>
    -- with no known round-trip time the second server is asked at once
    let r := r.launches (cold && first)
    if r.inflight = [] then (none, r.budget, s)
    else
      let w := net.wake r.inflight qname qtype s.world
      let s := { s with world := w.2 }
      if w.1.hedge ∧ r.rest ≠ [] ∧ r.budget > 0 then raceLoop cold qname qtype fuel false r s
      else
        let i := w.1.index % r.inflight.length
        match w.1.reply, r.inflight[i]? with
        | some msg, some ip => (some msg, r.budget, s.recordRtt ip w.1.rtt)
        | _, _ =>
          raceLoop cold qname qtype fuel false { r with inflight := r.inflight.eraseIdx i } s

/-- `query_ns_set` (recursor_wire.rs:554): the first reply, what is left of the budget, and the
    state afterwards. -/
def queryNsSet (ips : List IpAddr) (qname : Name) (qtype : U16) (budget : ℕ) (s : Infra ω) :
    Option Message × ℕ × Infra ω :=
  let rttKey := fun ip => (s.rttOf ip).getD u32Max
  let sorted := ips.insertionSort fun a b => rttKey a ≤ rttKey b
  let cold := sorted ≠ [] ∧ sorted.all fun ip => (s.rttOf ip).isNone
  raceLoop net cold qname qtype (2 * ips.length + 1) true { rest := sorted, budget } s

/-! ## The descent -/

/-- The loop variables of `descend` (recursor_wire.rs:336-354). -/
structure Descent where
  zone : Name
  ips : List IpAddr
  fromCache : Bool := false
  extra : ℕ := 0
  full : Bool := false
  delegations : ℕ := 0

/-- The minimised name, if it is what is sent (recursor_wire.rs:361-363). -/
def probeName (qmin : Bool) (qname : Name) (zone : Name) (extra : ℕ) (full : Bool) : Option Name :=
  let n := minimised qname zone extra
  if qmin && !full && !n.eqIgnoreAsciiCase qname then some n else none

/-- `send_name` and `send_type` (recursor_wire.rs:364-368). -/
def sentQuestion (qname : Name) (qtype : U16) : Option Name → Name × U16
  | some n => (n, qminProbeType)
  | none => (qname, qtype)

/-- What a reply means for the descent. -/
inductive Reaction
  /-- It is handed back. -/
  | terminal
  /-- The cut moves down. -/
  | referral (zone : Name)
  /-- The full question is asked at this cut. -/
  | fallback
  /-- One label more is asked for at this cut. -/
  | lengthen
  deriving DecidableEq

/-- The decision on a reply (recursor_wire.rs:393-494). -/
def react (qname : Name) (qtype : U16) (zone : Name) (probe : Option Name) (msg : Message) :
    Reaction :=
  let nxdomain := msg.header.rcodeLow = NXDOMAIN
  if probe = none ∧ (hasAnswer msg qname qtype ∨ nxdomain) then .terminal
  else
    match referralZone msg qname zone with
    | some next => .referral next
    | none =>
      match probe with
      | none => .terminal
      | some n =>
        if nxdomain ∨ msg.answers.any fun r => r.name.eqIgnoreAsciiCase n then .fallback
        else .lengthen

/-- The addresses of the first name that has public ones (recursor_wire.rs:439-449); `none` if
    there is none or the budget runs out. -/
def resolveGlueless (resolveNs : Name → ℕ → Infra ω → Option (List IpAddr) × ℕ × Infra ω) :
    List Name → ℕ → Infra ω → Option (List IpAddr) × ℕ × Infra ω
  | [], budget, s => (none, budget, s)
  | ns :: rest, budget, s =>
    if budget = 0 then (none, budget, s)
    else
      let r := resolveNs ns budget s
      match (r.1.getD []).filter isPublicIp with
      | [] => resolveGlueless resolveNs rest r.2.1 r.2.2
      | ip :: ips => (some (ip :: ips), r.2.1, r.2.2)

/-- The `for` loop of `descend` (recursor_wire.rs:359-496), `steps` passes before it gives up.
    `resolveNs` is `resolve_ns_addr`. -/
def descendLoop (resolveNs : Name → ℕ → Infra ω → Option (List IpAddr) × ℕ × Infra ω)
    (qname : Name) (qtype : U16) :
    (steps : ℕ) → Descent → ℕ → Infra ω → Option Message × ℕ × Infra ω
  | 0, _, budget, s => (none, budget, s)
  | steps + 1, d, budget, s =>
    let probe := probeName net.qmin qname d.zone d.extra d.full
    let sent := sentQuestion qname qtype probe
    let r := queryNsSet net d.ips sent.1 sent.2 budget s
    match r.1 with
    | none =>
      if probe.isSome then
        descendLoop resolveNs qname qtype steps { d with full := true } r.2.1 r.2.2
      else if d.fromCache then
        -- a dead cut is forgotten, and the descent starts over from the root
        descendLoop resolveNs qname qtype steps
          { zone := Name.root, ips := rootHints, delegations := d.delegations } r.2.1
          (r.2.2.zoneCutForget d.zone)
      else (none, r.2)
    | some msg =>
      match react qname qtype d.zone probe msg with
      | .terminal => (some msg, r.2)
      | .fallback =>
        descendLoop resolveNs qname qtype steps { d with fromCache := false, full := true } r.2.1
          r.2.2
      | .lengthen =>
        descendLoop resolveNs qname qtype steps
          { d with fromCache := false, extra := d.extra + 1 } r.2.1 r.2.2
      | .referral next =>
        let names := nsNames msg next
        let ips := glue msg names
        let found := if ips ≠ [] then (some ips, r.2)
          else resolveGlueless resolveNs names r.2.1 r.2.2
        match found.1 with
        | none => (none, found.2)
        | some ips =>
          let s := found.2.2.zoneCutLearn net next ips (cutTtl msg next names)
          if d.delegations + 1 ≥ maxDepth then (none, found.2.1, s)
          else
            descendLoop resolveNs qname qtype steps
              { zone := next, ips, delegations := d.delegations + 1 } found.2.1 s

/-- `descend` (recursor_wire.rs:331), with `resolve_ns_addr` given. -/
def descendWith (resolveNs : Name → ℕ → Infra ω → Option (List IpAddr) × ℕ × Infra ω)
    (qname : Name) (qtype : U16) (budget : ℕ) (s : Infra ω) : Option Message × ℕ × Infra ω :=
  let start := s.cachedStart net qname qtype
  let d : Descent := match start.1 with
    | some (zone, ips) => { zone, ips, fromCache := true }
    | none => { zone := Name.root, ips := rootHints }
  descendLoop net resolveNs qname qtype maxQueries d budget start.2

/-- `StepOutcome` (recursor_wire.rs:311). -/
inductive StepOutcome
  | answer (records : List Record)
  | cname (chain : List Record) (next : Name)
  | negative (rcode : U16)
  | failure

/-- `resolve_once` on the terminal message (recursor_wire.rs:507-535). -/
def stepOutcome (qname : Name) (qtype : U16) : Option Message → StepOutcome
  | none => .failure
  | some msg =>
    let direct := rrset msg.answers qname qtype
    match msg.answers.find? fun r => r.rtype = CNAME && r.name.eqIgnoreAsciiCase qname with
    | some ⟨n, t, c, ttl, .cname next, h⟩ => .cname [⟨n, t, c, ttl, .cname next, h⟩] next
    | _ =>
      if direct ≠ [] then .answer direct
      else if msg.header.rcodeLow = NXDOMAIN then .negative NXDOMAIN
      else .negative NOERROR

/-- `resolve_ns_addr` (recursor_wire.rs:612). It calls itself through `descend`, which spends a
    query before it does, so `depth` is at most the budget. -/
def resolveNsAddr : (depth : ℕ) → Name → ℕ → Infra ω → Option (List IpAddr) × ℕ × Infra ω
  | 0, _, budget, s => (none, budget, s)
  | depth + 1, ns, budget, s =>
    let r := descendWith net (resolveNsAddr depth) ns Rtype.A budget s
    match stepOutcome ns Rtype.A r.1 with
    | .answer records =>
      let ips := records.filterMap recordIp
      (if ips ≠ [] then some ips else none, r.2)
    | _ => (none, r.2)

/-- `descend` (recursor_wire.rs:331). -/
def descend (qname : Name) (qtype : U16) (budget : ℕ) (s : Infra ω) :
    Option Message × ℕ × Infra ω :=
  descendWith net (resolveNsAddr net budget) qname qtype budget s

/-- `resolve_message` (recursor_wire.rs:641). -/
def resolveMessage (qname : Name) (qtype : U16) (s : Infra ω) : Option Message × Infra ω :=
  let r := descend net qname qtype maxQueries s
  (r.1, r.2.2)

/-- The world of `resolve_validated`: `ResolverFetcher` (recursor_wire.rs:648) and the clocks. -/
def recursorEnv (crypto : Crypto) (instant : ω → ℕ × ω) : Env (Infra ω) where
  crypto := crypto
  fetch := resolveMessage net
  unixNow s := ((net.unixNow s.world).1, { s with world := (net.unixNow s.world).2 })
  instant s := ((instant s.world).1, { s with world := (instant s.world).2 })

end Runbound.Recursor
