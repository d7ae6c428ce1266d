import Runbound.Server.Acl
import Runbound.Server.ServeSigned

/-!
# The stages of `serve_wire` before resolution (`dns/server.rs`)

A query passes the route-outs (updates, transfers, signed zones), the access stages, the
answers the server gives about itself, the view of the client and the local zones; the
first that returns ends it. Every reply is tagged with the stage it comes from.

* `frontStages`: the reply of these stages, and the zone set afterwards.
* `serveDns`: `serve_wire` as a whole.
-/

namespace Runbound.Server

open Wire FastPath Local Lib Recursor Rtype Rcode Class Runbound.Dnssec

/-! ## Configuration and surroundings -/

/-- `AbuseVerdict` (alerts.rs). -/
inductive AbuseVerdict
  | serve
  | block
  | tarpit
  deriving DecidableEq

/-- A cookie of eight zero octets. -/
def zeroCookie (_ : Bytes) (_ : IpAddr) : Bytes := List.replicate 8 0

theorem zeroCookie_length (c : Bytes) (ip : IpAddr) : (zeroCookie c ip).length = 8 := rfl

/-- What these stages read of the handler. The subnet policies are `blocks` on the name as text
    and `blocksWire`, for the fast path, on the octets of the name. -/
structure Front where
  acl : Acl := []
  allowUpdate : Bool := false
  axfrAllow : List TransferEntry := []
  signer : Option ZoneSigner := none
  dnsCookies : Bool := false
  serverCookie : Bytes → IpAddr → Bytes := zeroCookie
  rrlSlip : ℕ := 0
  alerts : Bool := false
  hideVersion : Bool := true
  hideIdentity : Bool := true
  versionString : Bytes := []
  identityString : Bytes := []
  blockHttpsRecord : Bool := false
  ddr : Option (List Record) := none
  splitHorizon : List (List CidrBlock × LocalZoneSet) := []
  blocks : IpAddr → Bytes → Bool := fun _ _ => false
  blocksWire : IpAddr → Bytes → Bool := fun _ _ => false
  serverCookie_length : ∀ c ip, (serverCookie c ip).length = 8 := by exact zeroCookie_length

/-- What the rest of the server says to one query: the TSIG check and the TSIG record of the
    response if it can be signed, the rate limiter and its counter, a permit, the abuse
    tracker, and the time. -/
structure Signals where
  tsig : TsigOutcome := .noKeys
  tsigRr : Option Bytes := none
  withinRate : Bool := true
  rrlCounter : ℕ := 0
  permit : Bool := true
  verdict : AbuseVerdict := .serve
  now : ℕ := 0

/-- Where a reply comes from. A `gate` sends no records; `own` are answers about the server
    itself. -/
inductive Source
  | gate
  | transfer
  | signed
  | own
  | view
  | globalZone
  | globalCache
  | upstream
  deriving DecidableEq

/-- What a stage returns: `none` is the `None` of `serve_wire`. -/
structure Early where
  source : Source
  reply : Option Bytes

/-! ## Updates -/

/-- The message of `wire_update_response` (dns/server.rs:1364). -/
def updateResponseOf (req : Message) (rc : U16) : Message where
  header := ({ id := req.header.id } : Header) |>.setQr true |>.setOpcode Opcode.UPDATE
    |>.setRcodeLow rc
  questions := req.questions

/-- `append_tsig_rr` (dns/tsig.rs:281): ARCOUNT grows by one and the record is appended. -/
def appendTsigRr (rr msg : Bytes) : Bytes :=
  msg.take 10 ++ u16Be (Fin.ofNat _ ((be16 msg 10).val + 1)) ++ msg.drop 12 ++ rr

/-- The UPDATE arm (dns/server.rs:518-559): the reply and the zone set afterwards. -/
def updateStage (f : Front) (sig : Signals) (msg : Message) (z : LocalZoneSet) :
    Bytes × LocalZoneSet :=
  if ¬ f.allowUpdate then ((updateResponseOf msg REFUSED).encode, z)
  else
    let r := handleUpdateWire sig.tsig msg z
    let resp := (updateResponseOf msg r.1).encode
    (match sig.tsig, sig.tsigRr with
      | .verified, some rr => appendTsigRr rr resp
      | _, _ => resp, r.2)

/-! ## Transfers -/

/-- `wire_name_in_zone` (dns/wire_serve.rs:173): each round drops a label. -/
def wireNameInZone (name zone : Bytes) : Bool :=
  (Name.walkUp (fun cur => if cur = zone then some () else none) (name.length + 1) name).isSome

/-- `ns1.runbound.local.` and `hostmaster.runbound.local.` below a first label. -/
def runboundLocal (label : Bytes) : List Bytes :=
  [label, [114, 117, 110, 98, 111, 117, 110, 100], [108, 111, 99, 97, 108]]

/-- `synthetic_soa` (dns/wire_serve.rs:190). -/
def syntheticSoa (zone : Name) (now : ℕ) : Record :=
  ⟨zone, SOA, IN, 3600,
    .soa ⟨runboundLocal [110, 115, 49], by decide⟩ ⟨runboundLocal ZoneSigner.hostmaster, by decide⟩
      (Fin.ofNat _ (now / 60)) 3600 900 86400 300, rfl⟩

/-- The message of `axfr_response` (dns/wire_serve.rs:220). -/
def axfrMessage (query : Message) (q : Question) (now : ℕ) (z : LocalZoneSet) : Option Message :=
  let records := (z.recordsWire.entries.filter fun e =>
      wireNameInZone e.1 (lower q.name.wire)).flatMap fun e =>
    e.2.map fun r => { r with rclass := IN }
  if records = [] then none
  else
    let soa := (records.find? fun r => r.rtype = SOA).getD (syntheticSoa q.name now)
    some
      { header := query.header |>.setQr true |>.setAa true |>.setRa false |>.setTc false
          |>.setAd false |>.setRcodeLow NOERROR
        questions := [q]
        answers := soa :: (records.filter fun r => r.rtype ≠ SOA) ++ [soa] }

/-- Does the question ask for a transfer? -/
def isTransfer (q : Question) : Bool := q.qtype = AXFR || q.qtype = IXFR

/-- The transfer arm (dns/server.rs:562-583). -/
def transferStage (f : Front) (sig : Signals) (peer : IpAddr) (msg : Message) (q : Question)
    (z : LocalZoneSet) : Early :=
  if ¬ isTransferAllowed peer f.axfrAllow then ⟨.gate, some (wireError msg REFUSED)⟩
  else
    match axfrMessage msg q sig.now z with
    | some m => ⟨.transfer, some m.encode⟩
    | none => ⟨.gate, some (wireError msg NXDOMAIN)⟩

/-! ## Signed zones -/

/-- The signer of the zone of a query with the DO bit (dns/server.rs:589-592). -/
def signerFor (f : Front) (msg : Message) (q : Question) : Option ZoneSigner :=
  f.signer.filter fun s => msg.doBit && (s.apexFor q.name).isSome

/-- The signed-zone arm (dns/server.rs:588-613). -/
def signedStage (crypto : Crypto) (f : Front) (sig : Signals) (peer : IpAddr) (msg : Message)
    (q : Question) (z : LocalZoneSet) : Option Early :=
  (signerFor f msg q).map fun s =>
    if f.acl.check peer ≠ .allow then ⟨.gate, none⟩
    else if ¬ sig.withinRate then ⟨.gate, some (wireError msg REFUSED)⟩
    else if ¬ sig.permit then ⟨.gate, some (wireError msg REFUSED)⟩
    else ⟨.signed, some (serveSigned crypto s sig.now z msg q)⟩

/-! ## Access -/

/-- The access list (dns/server.rs:617-629). -/
def aclStage (f : Front) (peer : IpAddr) (msg : Message) : Option Early :=
  match f.acl.check peer with
  | .allow => none
  | .deny => some ⟨.gate, some []⟩
  | .refuse => some ⟨.gate, some (wireError msg REFUSED)⟩

/-- The client's cookie option. -/
def clientCookie (msg : Message) : Option Bytes :=
  msg.edns?.bind fun e => (e.options.find? fun o => o.1 = 10).map Prod.snd

/-- The OPT data of `wire_badcookie` (dns/server.rs:1396-1402): extended rcode 23, so 1 in the
    high bits. -/
def badCookieEdns (payload : U16) (on : Bool) (cookie : Bytes) : Edns :=
  Edns.setDnssecOk on { udpPayload := payload, extRcode := 1, options := [(10, cookie)] }

theorem badCookie_fits (payload : U16) (on : Bool) {cookie : Bytes} (h : cookie.length = 16) :
    (badCookieEdns payload on cookie).optionData.length < 65536 := by
  simp [badCookieEdns, Edns.optionData, Edns.setDnssecOk, h]

/-- The message of `wire_badcookie` (dns/server.rs:1388). -/
def badCookieOf (req : Message) (cookie : Bytes) (h : cookie.length = 16) : Message where
  header := responseHeader req 7
  questions := req.questions
  additional :=
    match req.edns with
    | .ok (some client) =>
      [Edns.toRecord _ (badCookie_fits (min (max client.udpPayload 512) 1232) client.dnssecOk h)]
    | _ => [Edns.toRecord _ (badCookie_fits 1232 false h)]

theorem fullCookie_length (f : Front) (peer : IpAddr) {cc : Bytes} (h : 8 ≤ cc.length) :
    (cc.take 8 ++ f.serverCookie (cc.take 8) peer).length = 16 := by
  rw [List.length_append, f.serverCookie_length, List.length_take, Nat.min_eq_left h]

/-- DNS cookies (dns/server.rs:637-661). -/
def cookieStage (f : Front) (peer : IpAddr) (msg : Message) : Option Early :=
  if f.dnsCookies ∧ ¬ isLoopback peer then
    (clientCookie msg).bind fun cc =>
      if h : 8 ≤ cc.length then
        if 16 ≤ cc.length ∧ (cc.drop 8).take 8 = f.serverCookie (cc.take 8) peer then none
        else some ⟨.gate, some (badCookieOf msg _ (fullCookie_length f peer h)).encode⟩
      else none
  else none

section

variable (f : Front) (sig : Signals)

/-- The rate limit (dns/server.rs:667-678): one reply in `rrlSlip`, nothing for the rest. -/
def rateStage (msg : Message) : Option Early :=
  if sig.withinRate then none
  else if f.rrlSlip = 0 ∨ sig.rrlCounter % f.rrlSlip = 0 then
    some ⟨.gate, some (wireError msg REFUSED)⟩
  else some ⟨.gate, some []⟩

/-- The permit (dns/server.rs:679-682) and the abuse tracker (dns/server.rs:689-724). -/
def abuseStage (peer : IpAddr) (msg : Message) : Option Early :=
  if ¬ sig.permit ∨ (f.alerts ∧ ¬ isLoopback peer ∧ sig.verdict ≠ .serve) then
    some ⟨.gate, some (wireError msg REFUSED)⟩
  else none

/-- The access stages in their order (dns/server.rs:617-724). -/
def accessStage (peer : IpAddr) (msg : Message) : Option Early :=
  (aclStage f peer msg).or ((cookieStage f peer msg).or
    ((rateStage f sig msg).or (abuseStage f sig peer msg)))

end

/-! ## Answers about the server -/

/-- `"version.bind."` and `"version.server."` -/
def versionNames : List Bytes :=
  [[118, 101, 114, 115, 105, 111, 110, 46, 98, 105, 110, 100, 46],
    [118, 101, 114, 115, 105, 111, 110, 46, 115, 101, 114, 118, 101, 114, 46]]

/-- `"id.server."` and `"hostname.bind."` -/
def identityNames : List Bytes :=
  [[105, 100, 46, 115, 101, 114, 118, 101, 114, 46],
    [104, 111, 115, 116, 110, 97, 109, 101, 46, 98, 105, 110, 100, 46]]

/-- `"_dns.resolver.arpa."` -/
def resolverArpa : Bytes :=
  [95, 100, 110, 115, 46, 114, 101, 115, 111, 108, 118, 101, 114, 46, 97, 114, 112, 97, 46]

/-- The text of a CHAOS query (dns/server.rs:738-747). -/
def chaosTxt (f : Front) (q : Question) : Option Bytes :=
  let qnameLc := lower q.name.toAscii
  if q.qtype ≠ TXT then none
  else if qnameLc ∈ versionNames ∧ ¬ f.hideVersion then some f.versionString
  else if qnameLc ∈ identityNames ∧ ¬ f.hideIdentity then some f.identityString
  else none

/-- The SVCB records of resolver discovery, if they are asked for (dns/server.rs:786-794). -/
def ddrAnswer (f : Front) (q : Question) : Option (List Record) :=
  if q.qtype = SVCB ∧ lower q.name.toAscii = resolverArpa then f.ddr.filter (· ≠ []) else none

/-- Classes and types with an answer of their own (dns/server.rs:727-794). -/
def ownStage (f : Front) (msg : Message) (q : Question) : Option Early :=
  if q.qclass = CH then
    match chaosTxt f q with
    | some txt =>
      let rec' : Record := ⟨q.name, TXT, CH, 0, .txt (txt.toChunks 255), rfl⟩
      some ⟨.own, some (wireAnswer msg [rec'] NOERROR)⟩
    | none => some ⟨.gate, some (wireError msg REFUSED)⟩
  else if q.qclass ≠ IN then some ⟨.gate, some (wireError msg NOTIMP)⟩
  else if q.qtype = Rtype.ANY then some ⟨.gate, some (wireError msg REFUSED)⟩
  else if f.blockHttpsRecord ∧ q.qtype = HTTPS then
    some ⟨.gate, some (wireAnswer msg [] NOERROR)⟩
  else (ddrAnswer f q).map fun recs => ⟨.own, some (wireAnswer msg recs NOERROR)⟩

/-! ## Views and local zones -/

/-- `serve_datagram` (dns/wire_serve.rs:132). -/
def serveDatagram (raw : Bytes) (z : LocalZoneSet) : Option (Bytes × ZoneAction) :=
  match Message.parse raw with
  | .error _ => none
  | .ok msg => (answerLocal msg z).map fun r => (r.1.encode, r.2)

/-- The view of a client: the first with a subnet that holds its address
    (dns/server.rs:804-811). -/
def viewFor (f : Front) (peer : IpAddr) : Option LocalZoneSet :=
  (f.splitHorizon.find? fun v => v.1.any fun b => b.contains peer).map Prod.snd

/-- The view, the global zones and the subnet policies (dns/server.rs:803-841). -/
def localStage (f : Front) (peer : IpAddr) (raw : Bytes) (msg : Message) (q : Question)
    (z : LocalZoneSet) : Option Early :=
  (((viewFor f peer).bind (serveDatagram raw)).map fun r => ⟨.view, some r.1⟩).or
    (((serveDatagram raw z).map fun r => ⟨.globalZone, some r.1⟩).or
      (if f.blocks peer (lower q.name.toAscii) then
        some ⟨.gate, some (wireError msg REFUSED)⟩
      else none))

/-! ## All stages -/

section

variable (crypto : Crypto) (f : Front) (sig : Signals) (peer : IpAddr) (raw : Bytes)

/-- The stages of a standard query. -/
def queryStages (msg : Message) (q : Question) (z : LocalZoneSet) : Option Early :=
  if isTransfer q then some (transferStage f sig peer msg q z)
  else
    (signedStage crypto f sig peer msg q z).or ((accessStage f sig peer msg).or
      ((ownStage f msg q).or (localStage f peer raw msg q z)))

/-- The stages by opcode (dns/server.rs:515-841), and the zone set afterwards. -/
def frontStages (z : LocalZoneSet) : Option Early × LocalZoneSet :=
  match Message.parse raw with
  | .error _ => (some ⟨.gate, none⟩, z)
  | .ok msg =>
    match msg.firstQuestion with
    | none => (some ⟨.gate, none⟩, z)
    | some q =>
      if msg.header.opcode = Opcode.UPDATE then
        let r := updateStage f sig msg z
        (some ⟨.gate, some r.1⟩, r.2)
      else if msg.header.opcode ≠ Opcode.QUERY then
        (some ⟨.gate, some (wireError msg NOTIMP)⟩, z)
      else (queryStages crypto f sig peer raw msg q z, z)

/-- `serve_wire` (dns/server.rs:507): these stages, then resolution. -/
def serveDns (h : Handler) (instant : ℕ) (now : U32) (resolution : Resolution) (z : LocalZoneSet)
    (s : Caches) : Option Bytes × LocalZoneSet × Caches :=
  let early := frontStages crypto f sig peer raw z
  let r := serveWire h
    { query := raw, early := early.1.map Early.reply, instant, now, resolution } s
  (r.1, early.2, r.2)

end

end Runbound.Server
