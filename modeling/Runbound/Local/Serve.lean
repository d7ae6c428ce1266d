import Runbound.Local.ZoneSet

/-!
# Answers from local zones (`dns/wire_serve.rs`, `dns/xdp/worker.rs`)

The serving core `answerLocal` walks the zone actions and reads `recordsWire`; the fast
path `answerDnsWire` only looks up the index `wireRecords`.

* `answerDnsWire_eq_answered_iff`: what stands behind an answer of the fast path.
-/

namespace Runbound.Local

open Wire FastPath Lib Rtype Rcode

/-! ## The serving core -/

/-- The loop of `follow_cname` (dns/wire_serve.rs:145-163). -/
def followCnameLoop (z : LocalZoneSet) (qtype : U16) : ℕ → Bytes → List Record → List Record
  | 0, _, _ => []
  | fuel + 1, current, chain =>
    match (z.localRecordsWire current CNAME).head? with
    | none => []
    | some rec =>
      match rec.rdata with
      | .cname n =>
        let next := lower n.wire
        let chain := chain ++ [rec]
        let resolved := z.localRecordsWire next qtype
        if resolved ≠ [] then chain ++ resolved else followCnameLoop z qtype fuel next chain
      | _ => []

/-- `follow_cname` (dns/wire_serve.rs:141). -/
def followCname (z : LocalZoneSet) (start : Bytes) (qtype : U16) : List Record :=
  followCnameLoop z qtype 8 start []

/-- The AA bit, rcode and answers `answer_local` chooses for an action
    (dns/wire_serve.rs:70-112). -/
def localVerdict (z : LocalZoneSet) (key : Bytes) (qtype : U16) :
    ZoneAction → Bool × U16 × List Record
  | .refuse => (false, REFUSED, [])
  | .nxDomain => (true, NXDOMAIN, [])
  | .blockPage =>
    let recs := z.localRecordsWire key qtype
    if recs = [] then (true, NXDOMAIN, []) else (true, NOERROR, recs)
  | .static | .redirect =>
    let recs := z.localRecordsWire key qtype
    if recs ≠ [] then (true, NOERROR, recs)
    else
      let chain := if qtype ≠ CNAME then followCname z key qtype else []
      if chain ≠ [] then (true, NOERROR, chain)
      else if z.nameHasRecordsWire key then (true, NOERROR, [])
      else (true, NXDOMAIN, [])

theorem echoEdns_fits (payload : U16) (on : Bool) :
    (Edns.setDnssecOk on { udpPayload := payload }).optionData.length < 65536 := by
  show 0 < 65536
  decide

/-- An OPT record without options, with payload size `payload` and the DO bit `on`. -/
def echoEdns (payload : U16) (on : Bool) : Record :=
  (Edns.setDnssecOk on { udpPayload := payload }).toRecord (echoEdns_fits payload on)

/-- The OPT record of a response: the payload size of the client between 512 and 1232, and
    its DO bit (dns/wire_serve.rs:118-123). -/
def echoOf (query : Message) : List Record :=
  match query.edns with
  | .ok (some client) => [echoEdns (min (max client.udpPayload 512) 1232) client.dnssecOk]
  | _ => []

/-- `answer_local` (dns/wire_serve.rs:43). -/
def answerLocal (query : Message) (z : LocalZoneSet) : Option (Message × ZoneAction) :=
  match query.firstQuestion with
  | none => none
  | some question =>
    let key := lower question.name.wire
    match z.findWire key with
    | none => none
    | some action =>
      let (aa, rc, answers) := localVerdict z key question.qtype action
      let header := query.header |>.setQr true |>.setRa true |>.setTc false |>.setAd false
        |>.setAa aa |>.setRcodeLow rc
      some ({ header, questions := [question], answers, additional := echoOf query }, action)

/-! ## The fast path -/

/-- `WireResult` (dns/xdp/worker.rs:36); `answered` carries the octets written. -/
inductive WireResult
  | answered (out : Bytes)
  | fallback
  | drop
  deriving DecidableEq

/-- `build_refused` (dns/wire_builder.rs:542) into a buffer of `outLen` octets. -/
def buildRefused (wq : WireQuery) (outLen : ℕ) : Option Bytes :=
  let out :=
    u16Be wq.id ++ u16Be (if wq.rd then 0x8585 else 0x8485) ++ u16Be 1 ++ u16Be 0 ++ u16Be 0 ++
      u16Be (if wq.edns.isSome then 1 else 0) ++
      (wq.qnameWire ++ u16Be wq.qtype ++ u16Be wq.qclass) ++
      (wq.edns.elim [] fun e => writeOptRr e.udpPayload)
  if outLen < out.length then none else some out

/-- `answer_dns_wire` (dns/xdp/worker.rs:2000). -/
def answerDnsWire {Ip : Type} (hw : Bool) (acl : Ip → AclAction) (src : Option Ip) (outLen : ℕ)
    (z : LocalZoneSet) (b : Bytes) : WireResult :=
  match parseQuery b with
  | none => .fallback
  | some wq =>
    if wq.edns.any EdnsInfo.doBit then .fallback
    else if wq.qtype = Rtype.ANY then .fallback
    else
      match (src.map acl).getD .allow with
      | .deny => .drop
      | .refuse => (buildRefused wq outLen).elim .fallback .answered
      | .allow =>
        if wq.qclass = 1 ∧ (wq.qtype = Rtype.A ∨ wq.qtype = AAAA) then
          let qnameLc := normalizeQueryQname wq.qnameWire
          match z.wireRecords.lookup (hashWireQname hw qnameLc) with
          | none => .fallback
          | some entry =>
            if entry.wireQname = qnameLc ∧ entry.recordsOf wq.qtype ≠ [] then
              (buildAnswerAAaaaWire wq outLen (entry.recordsOf wq.qtype) wq.edns).elim .fallback
                .answered
            else .fallback
        else .fallback

section

variable {Ip : Type} {hw : Bool} {acl : Ip → AclAction} {src : Option Ip} {outLen : ℕ}
  {z : LocalZoneSet} {b : Bytes}

theorem elim_eq_answered_iff {o : Option Bytes} {out : Bytes} :
    o.elim .fallback .answered = WireResult.answered out ↔ o = some out := by
  cases o <;> simp

theorem elim_ne_drop (o : Option Bytes) : o.elim .fallback .answered ≠ WireResult.drop := by
  cases o <;> simp

/-- What stands behind an answer: a refusal, or the index entry of the name. -/
theorem answerDnsWire_eq_answered_iff {out : Bytes} :
    answerDnsWire hw acl src outLen z b = .answered out ↔
      ∃ wq, parseQuery b = some wq ∧ wq.edns.any EdnsInfo.doBit = false ∧ wq.qtype ≠ Rtype.ANY ∧
        (((src.map acl).getD .allow = .refuse ∧ buildRefused wq outLen = some out) ∨
          ((src.map acl).getD .allow = .allow ∧ wq.qclass = 1 ∧
            (wq.qtype = Rtype.A ∨ wq.qtype = AAAA) ∧
            ∃ entry, z.wireRecords.lookup (hashWireQname hw (lower wq.qnameWire)) = some entry ∧
              entry.wireQname = lower wq.qnameWire ∧ entry.recordsOf wq.qtype ≠ [] ∧
              buildAnswerAAaaaWire wq outLen (entry.recordsOf wq.qtype) wq.edns = some out)) := by
  unfold answerDnsWire normalizeQueryQname
  cases parseQuery b with
  | none => simp
  | some wq => cases (src.map acl).getD .allow <;> grind [elim_eq_answered_iff]

/-- Only a client that is denied is dropped. -/
theorem answerDnsWire_eq_drop_iff :
    answerDnsWire hw acl src outLen z b = .drop ↔
      ∃ wq, parseQuery b = some wq ∧ wq.edns.any EdnsInfo.doBit = false ∧ wq.qtype ≠ Rtype.ANY ∧
        (src.map acl).getD .allow = .deny := by
  unfold answerDnsWire
  cases parseQuery b with
  | none => simp
  | some wq => cases (src.map acl).getD .allow <;> grind [elim_ne_drop]

end

end Runbound.Local
