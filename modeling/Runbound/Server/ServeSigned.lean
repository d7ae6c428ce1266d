import Runbound.Dnssec.SignerDenial
import Runbound.Local.FastSlow
import Runbound.Server.Serve

/-!
# Serving a signed local zone (`dns/server.rs`)

A query with the DO bit for a name inside a signed zone is answered by `serve_signed`,
which decides on its own between records, aliases and denial. Without the DO bit the
same query goes to the serving core, `answer_local`.

* `signedVerdict`, `signedReply`, `serveSigned`: the signed answer.
* `sameData_iff`: the zone actions under which both give the same data.
-/

namespace Runbound.Server

open Wire Local Lib Dnssec List Rtype Rcode

/-! ## The signed answer -/

/-- The owner names of the record store with their types (dns/server.rs:1343-1347). -/
def storeEntries (z : LocalZoneSet) : List (Name × List U16) :=
  z.recordsWire.entries.filterMap fun e =>
    e.2.head?.map fun r => (r.name, e.2.map Record.rtype)

/-- The message of `wire_signed_answer` (dns/server.rs:1230): AA, and an OPT record with the
    DO bit whether or not the request has one. -/
def signedAnswerOf (req : Message) (answers authority : List Record) (rc : U16) : Message where
  header := ({ id := req.header.id } : Header) |>.setQr true |>.setAa true
    |>.setRd req.header.rd |>.setRa false |>.setRcodeLow rc
  questions := req.questions
  answers
  authority
  additional :=
    match req.edns with
    | .ok (some client) => [echoEdns (min (max client.udpPayload 512) 1232) true]
    | _ => [echoEdns 1232 true]

/-- What `serve_signed` decides on. -/
inductive SignedVerdict
  | answer (records : List Record)
  | refused
  | negative (isNxdomain : Bool)

/-- The alias chain of a question, if it does not ask for the alias itself. -/
def aliasChain (z : LocalZoneSet) (q : Question) : List Record :=
  if q.qtype ≠ CNAME then followCname z (wireNameKey q.name) q.qtype else []

section

variable (crypto : Crypto) (s : ZoneSigner) (now : ℕ) (z : LocalZoneSet)

/-- The synthesised records of an apex (dns/server.rs:1283-1292). -/
def apexRecords (q : Question) : Option (List Record) :=
  (if q.qtype = DNSKEY ∧ s.isApex q.name then s.apexDnskey now q.name else none).or
    (if q.qtype = SOA ∧ s.isApex q.name then s.signedSoa now q.name else none)

/-- The decision of `serve_signed` (dns/server.rs:1280-1325). -/
def signedVerdict (q : Question) : SignedVerdict :=
  match apexRecords s now q with
  | some recs => .answer recs
  | none =>
    let key := wireNameKey q.name
    match z.findWire key with
    | some .refuse => .refused
    | some .nxDomain => .negative true
    | _ =>
      let recs := z.localRecordsWire key q.qtype
      if recs ≠ [] then .answer (recs ++ (s.signAnswer now q.qtype recs).toList)
      else
        let chain := aliasChain z q
        if chain ≠ [] then .answer (chain ++ s.signChain now chain)
        else .negative (!z.nameHasRecordsWire key)

/-- The denial a zone set gives for a name below `apex`. -/
def storeNegative (apex : Name) (isNxdomain : Bool) (name : Name) : Option (List Record) :=
  s.signedNegative now crypto isNxdomain name (zoneOwners (storeEntries z) apex)

section

variable (msg : Message) (q : Question)

/-- The message of `signed_negative_resp` (dns/server.rs:1329). -/
def signedNegativeOf (isNxdomain : Bool) : Message :=
  match s.apexFor q.name with
  | none => answerOf msg [] SERVFAIL
  | some apex =>
    match storeNegative crypto s now z apex isNxdomain q.name with
    | some authority =>
      signedAnswerOf msg [] authority (if isNxdomain then NXDOMAIN else NOERROR)
    | none => answerOf msg [] SERVFAIL

/-- The message of `serve_signed`. -/
def signedReply : Message :=
  match signedVerdict s now z q with
  | .answer records => signedAnswerOf msg records [] NOERROR
  | .refused => answerOf msg [] REFUSED
  | .negative isNxdomain => signedNegativeOf crypto s now z msg q isNxdomain

/-- `serve_signed` (dns/server.rs:1270). -/
def serveSigned : Bytes := (signedReply crypto s now z msg q).encode

end

end

/-! ## What the answer holds -/

/-- The rcode and the answer records other than signatures. -/
def dataOf (m : Message) : U16 × List Record :=
  (m.header.rcodeLow, m.answers.filter fun r => r.rtype ≠ RRSIG)

theorem rcodeLow_of_lt {h : Header} {rc : U16} (hrc : rc.val < 16) :
    (h.setRcodeLow rc).rcodeLow = rc :=
  Fin.ext (by rw [rcodeLow_setRcodeLow, Nat.mod_eq_of_lt hrc])

variable {records : List Record}

section

variable {crypto : Crypto} {s : ZoneSigner} {now : ℕ} {z : LocalZoneSet} {msg : Message}
  {q : Question} {apex : Name}

theorem rcodeLow_answerOf {rc : U16} (hrc : rc.val < 16) :
    (answerOf msg records rc).header.rcodeLow = rc := rcodeLow_of_lt hrc

theorem rcodeLow_signedAnswerOf {answers authority : List Record} {rc : U16} (hrc : rc.val < 16) :
    (signedAnswerOf msg answers authority rc).header.rcodeLow = rc := rcodeLow_of_lt hrc

theorem dataOf_signed {records sigs : List Record} (hsigs : ∀ r ∈ sigs, r.rtype = RRSIG) :
    dataOf (signedAnswerOf msg (records ++ sigs) [] NOERROR) =
      (NOERROR, records.filter fun r => r.rtype ≠ RRSIG) := by
  have hnil : (sigs.filter fun r => r.rtype ≠ RRSIG) = [] :=
    filter_eq_nil_iff.mpr fun r hr => by simp [hsigs r hr]
  refine Prod.ext (rcodeLow_signedAnswerOf (by decide)) ?_
  show (records ++ sigs).filter _ = _
  rw [filter_append, hnil, append_nil]

theorem rtype_signAnswer : ∀ r ∈ (s.signAnswer now q.qtype records).toList, r.rtype = RRSIG := by
  intro r hr
  cases records with
  | nil => cases hr
  | cons first rest =>
    obtain ⟨k, -, h⟩ := Option.bind_eq_some_iff.mp (Option.mem_toList.mp hr)
    exact rtype_rrsigRecord h

theorem rtype_signChain : ∀ r ∈ s.signChain now records, r.rtype = RRSIG := by
  intro r hr
  obtain ⟨g, -, h⟩ := mem_filterMap.mp hr
  obtain ⟨k, -, h⟩ := Option.bind_eq_some_iff.mp h
  exact rtype_rrsigRecord h

/-- Inside a signed zone a negative answer is the denial or SERVFAIL. -/
theorem signedNegativeOf_cases (crypto : Crypto) (now : ℕ) (z : LocalZoneSet) (msg : Message)
    (hzone : s.apexFor q.name = some apex) (isNxdomain : Bool) :
    (∃ authority, storeNegative crypto s now z apex isNxdomain q.name = some authority ∧
      signedNegativeOf crypto s now z msg q isNxdomain = signedAnswerOf msg [] authority
        (if isNxdomain then NXDOMAIN else NOERROR)) ∨
    (storeNegative crypto s now z apex isNxdomain q.name = none ∧
      signedNegativeOf crypto s now z msg q isNxdomain = answerOf msg [] SERVFAIL) := by
  unfold signedNegativeOf
  rw [hzone]
  cases h : storeNegative crypto s now z apex isNxdomain q.name with
  | none => exact Or.inr ⟨rfl, by simp [h]⟩
  | some authority => exact Or.inl ⟨authority, rfl, by simp [h]⟩

end

/-! ## The same data with and without the DO bit -/

section

variable (crypto : Crypto) (s : ZoneSigner) (now : ℕ) (z : LocalZoneSet) (apex : Name)

/-- No denial can be built and the reply is SERVFAIL. -/
def FailsClosed (q : Question) (reply : Message) : Prop :=
  reply.header.rcodeLow = SERVFAIL ∧
    ∃ isNxdomain, storeNegative crypto s now z apex isNxdomain q.name = none

/-- The reply has the given rcode and records, or fails closed. -/
def GivesData (q : Question) (reply : Message) (data : U16 × List Record) : Prop :=
  dataOf reply = data ∨ FailsClosed crypto s now z apex q reply

/-- The data of the serving core under an action. -/
def coreData (q : Question) (a : ZoneAction) : U16 × List Record :=
  ((localVerdict z (wireNameKey q.name) q.qtype a).2.1,
    (localVerdict z (wireNameKey q.name) q.qtype a).2.2.filter fun r => r.rtype ≠ RRSIG)

/-- The signed reply to `msg` has the data of the serving core's reply to `query`, or fails
    closed. -/
def SameData (msg query : Message) (q : Question) : Prop :=
  ∃ core action, answerLocal query z = some (core, action) ∧
    (dataOf (signedReply crypto s now z msg q) = dataOf core ∨
      FailsClosed crypto s now z apex q (signedReply crypto s now z msg q))

/-- A block page has a record of the type, or nothing at the name that `serve_signed` would
    answer instead. -/
def BlockPageBare (q : Question) : Prop :=
  z.localRecordsWire (wireNameKey q.name) q.qtype ≠ [] ∨
    (aliasChain z q = [] ∧
      (z.nameHasRecordsWire (wireNameKey q.name) = false ∨
        storeNegative crypto s now z apex false q.name = none))

end

section

variable {crypto : Crypto} {s : ZoneSigner} {now : ℕ} {z : LocalZoneSet} {msg query : Message}
  {q : Question} {apex : Name} {a : ZoneAction}

/-- The synthesised records are those of the types DNSKEY and SOA at an apex. -/
theorem apexRecords_eq_none (hkey : q.qtype ≠ DNSKEY)
    (hsoa : ¬ (q.qtype = SOA ∧ s.isApex q.name = true)) : apexRecords s now q = none := by
  unfold apexRecords
  rw [if_neg fun h => hkey h.1, if_neg hsoa]
  rfl

/-- Under an action other than the two that refuse data, the records decide, then the alias
    chain, then whether the name has records. -/
theorem signedReply_lookup (crypto : Crypto) (msg : Message) (hnone : apexRecords s now q = none)
    (ha : z.findWire (wireNameKey q.name) = some a) (href : a ≠ .refuse) (hnx : a ≠ .nxDomain) :
    (z.localRecordsWire (wireNameKey q.name) q.qtype ≠ [] →
      dataOf (signedReply crypto s now z msg q) = (NOERROR,
        (z.localRecordsWire (wireNameKey q.name) q.qtype).filter fun r => r.rtype ≠ RRSIG)) ∧
    (z.localRecordsWire (wireNameKey q.name) q.qtype = [] → aliasChain z q ≠ [] →
      dataOf (signedReply crypto s now z msg q) =
        (NOERROR, (aliasChain z q).filter fun r => r.rtype ≠ RRSIG)) ∧
    (z.localRecordsWire (wireNameKey q.name) q.qtype = [] → aliasChain z q = [] →
      signedReply crypto s now z msg q =
        signedNegativeOf crypto s now z msg q (!z.nameHasRecordsWire (wireNameKey q.name))) := by
  have hverdict : signedVerdict s now z q =
      if z.localRecordsWire (wireNameKey q.name) q.qtype ≠ [] then
        .answer (z.localRecordsWire (wireNameKey q.name) q.qtype ++
          (s.signAnswer now q.qtype (z.localRecordsWire (wireNameKey q.name) q.qtype)).toList)
      else if aliasChain z q ≠ [] then .answer (aliasChain z q ++ s.signChain now (aliasChain z q))
      else .negative (!z.nameHasRecordsWire (wireNameKey q.name)) := by
    unfold signedVerdict
    simp only [hnone, ha]
    cases a with
    | refuse => exact absurd rfl href
    | nxDomain => exact absurd rfl hnx
    | _ => rfl
  unfold signedReply
  rw [hverdict]
  refine ⟨fun hrec => ?_, fun hrec hchain => ?_, fun hrec hchain => ?_⟩
  · rw [if_pos hrec]
    exact dataOf_signed rtype_signAnswer
  · rw [if_neg (not_not.mpr hrec), if_pos hchain]
    exact dataOf_signed rtype_signChain
  · rw [if_neg (not_not.mpr hrec), if_neg (not_not.mpr hchain)]

/-- A negative reply has the data of a negative answer with its rcode, or fails closed. -/
theorem signedNegativeOf_data (crypto : Crypto) (now : ℕ) (z : LocalZoneSet) (msg : Message)
    (hzone : s.apexFor q.name = some apex) (isNxdomain : Bool) :
    dataOf (signedNegativeOf crypto s now z msg q isNxdomain) =
        (if isNxdomain then NXDOMAIN else NOERROR, []) ∧
      storeNegative crypto s now z apex isNxdomain q.name ≠ none ∨
    FailsClosed crypto s now z apex q (signedNegativeOf crypto s now z msg q isNxdomain) ∧
      storeNegative crypto s now z apex isNxdomain q.name = none := by
  rcases signedNegativeOf_cases crypto now z msg hzone isNxdomain with
    ⟨authority, hsome, heq⟩ | ⟨hnone, heq⟩
  · refine Or.inl ⟨?_, by rw [hsome]; simp⟩
    rw [heq]
    exact Prod.ext (rcodeLow_signedAnswerOf (by cases isNxdomain <;> decide)) rfl
  · rw [heq]
    exact Or.inr ⟨⟨rcodeLow_answerOf (by decide), isNxdomain, hnone⟩, hnone⟩

theorem dataOf_answerLocal {core : Message} (hq : query.firstQuestion = some q)
    (h : answerLocal query z = some (core, a)) : dataOf core = coreData z q a := by
  obtain ⟨-, hrc, hanswers⟩ := answerLocal_eq_some hq h
  have hsmall : (localVerdict z (wireNameKey q.name) q.qtype a).2.1.val < 16 := by
    have hmem : (localVerdict z (wireNameKey q.name) q.qtype a).2.1 ∈
        [REFUSED, NXDOMAIN, NOERROR] := by
      cases a with
      | refuse => exact mem_cons_self
      | nxDomain => exact mem_cons_of_mem _ mem_cons_self
      | _ =>
        unfold localVerdict
        simp only
        split_ifs <;> simp
    simp only [mem_cons, not_mem_nil, or_false] at hmem
    rcases hmem with h | h | h <;> rw [h] <;> decide
  refine Prod.ext (Fin.ext ?_) ?_
  · show core.header.rcodeLow.val = _
    rw [hrc]
    exact Nat.mod_eq_of_lt hsmall
  · show core.answers.filter _ = _
    rw [hanswers]
    rfl

theorem localVerdict_bare (ha : a = .static ∨ a = .redirect)
    (hrec : z.localRecordsWire (wireNameKey q.name) q.qtype = []) :
    localVerdict z (wireNameKey q.name) q.qtype a =
      if aliasChain z q ≠ [] then (true, NOERROR, aliasChain z q)
      else (true, if z.nameHasRecordsWire (wireNameKey q.name) then NOERROR
        else NXDOMAIN, []) := by
  unfold aliasChain
  rcases ha with rfl | rfl <;>
    · simp only [localVerdict, ne_eq]
      split_ifs <;> rfl

theorem not_givesData_of_noerror {reply : Message} (hreply : reply.header.rcodeLow = NOERROR) :
    ¬ GivesData crypto s now z apex q reply (NXDOMAIN, records) := by
  rintro (heq | ⟨hfail, -⟩)
  · have hrc : reply.header.rcodeLow = NXDOMAIN := congrArg Prod.fst heq
    rw [hreply] at hrc
    exact absurd hrc (by decide)
  · rw [hreply] at hfail
    exact absurd hfail (by decide)

theorem signedNegativeOf_givesData (hzone : s.apexFor q.name = some apex) (isNxdomain : Bool) :
    GivesData crypto s now z apex q (signedNegativeOf crypto s now z msg q isNxdomain)
      (if isNxdomain then NXDOMAIN else NOERROR, []) :=
  (signedNegativeOf_data crypto now z msg hzone isNxdomain).imp And.left And.left

theorem givesData_of_records (hnone : apexRecords s now q = none)
    (ha : z.findWire (wireNameKey q.name) = some a) (href : a ≠ .refuse) (hnx : a ≠ .nxDomain)
    (hrec : z.localRecordsWire (wireNameKey q.name) q.qtype ≠ []) :
    GivesData crypto s now z apex q (signedReply crypto s now z msg q) (coreData z q a) := by
  have hserves : servesRecords a = true := by
    cases a with
    | refuse => exact absurd rfl href
    | nxDomain => exact absurd rfl hnx
    | _ => rfl
  obtain ⟨hrecs, -, -⟩ := signedReply_lookup crypto msg hnone ha href hnx
  refine Or.inl ?_
  rw [hrecs hrec, coreData, localVerdict_of_records hserves hrec]

section

variable (hzone : s.apexFor q.name = some apex) (hnone : apexRecords s now q = none)
include hzone hnone

/-- A zone that serves data follows the alias or denies, as the serving core does. -/
theorem givesData_of_static (ha : z.findWire (wireNameKey q.name) = some a)
    (hstatic : a = .static ∨ a = .redirect) :
    GivesData crypto s now z apex q (signedReply crypto s now z msg q) (coreData z q a) := by
  have href : a ≠ .refuse := by rcases hstatic with rfl | rfl <;> decide
  have hnx : a ≠ .nxDomain := by rcases hstatic with rfl | rfl <;> decide
  by_cases hrec : z.localRecordsWire (wireNameKey q.name) q.qtype = []
  · obtain ⟨-, hchained, hbare⟩ := signedReply_lookup crypto msg hnone ha href hnx
    rw [coreData, localVerdict_bare hstatic hrec]
    by_cases hchain : aliasChain z q = []
    · rw [hbare hrec hchain, if_neg (not_not.mpr hchain)]
      cases z.nameHasRecordsWire (wireNameKey q.name) with
      | false => exact signedNegativeOf_givesData hzone true
      | true => exact signedNegativeOf_givesData hzone false
    · rw [if_pos hchain]
      exact Or.inl (hchained hrec hchain)
  · exact givesData_of_records hnone ha href hnx hrec

/-- A block page without a record of the type is a name error for the serving core;
    `serve_signed` follows an alias there, and denies the type if the name has records. -/
theorem givesData_blockPage_iff (ha : z.findWire (wireNameKey q.name) = some .blockPage) :
    GivesData crypto s now z apex q (signedReply crypto s now z msg q) (coreData z q .blockPage) ↔
      BlockPageBare crypto s now z apex q := by
  by_cases hrec : z.localRecordsWire (wireNameKey q.name) q.qtype = []
  · obtain ⟨-, hchained, hbare⟩ := signedReply_lookup crypto msg hnone ha (by decide) (by decide)
    have hcore : coreData z q .blockPage = (NXDOMAIN, []) := by
      simp [coreData, localVerdict, hrec]
    rw [hcore, BlockPageBare, or_iff_right (not_not.mpr hrec)]
    by_cases hchain : aliasChain z q = []
    · rw [hbare hrec hchain, and_iff_right hchain]
      cases z.nameHasRecordsWire (wireNameKey q.name) with
      | false => exact iff_of_true (signedNegativeOf_givesData hzone true) (Or.inl rfl)
      | true =>
        -- the type is denied, which is no name error, unless the denial cannot be built
        rcases signedNegativeOf_data crypto now z msg hzone false with
          ⟨hdata, hsome⟩ | ⟨hfails, hproof⟩
        · refine iff_of_false (not_givesData_of_noerror (congrArg Prod.fst hdata)) ?_
          exact not_or.mpr ⟨by decide, hsome⟩
        · exact iff_of_true (Or.inr hfails) (Or.inr hproof)
    · have hreply := congrArg Prod.fst (hchained hrec hchain)
      exact iff_of_false (not_givesData_of_noerror hreply) fun h => hchain h.1
  · exact iff_of_true (givesData_of_records hnone ha (by decide) (by decide) hrec) (Or.inl hrec)

/-- The actions under which the signed reply has the data of the serving core. -/
theorem givesData_iff (ha : z.findWire (wireNameKey q.name) = some a) :
    GivesData crypto s now z apex q (signedReply crypto s now z msg q) (coreData z q a) ↔
      (a = .blockPage → BlockPageBare crypto s now z apex q) := by
  cases a with
  | refuse =>
    have hreply : signedReply crypto s now z msg q = answerOf msg [] REFUSED := by
      simp [signedReply, signedVerdict, hnone, ha]
    rw [hreply]
    exact iff_of_true (Or.inl (Prod.ext (rcodeLow_answerOf (by decide)) rfl)) (by simp)
  | nxDomain =>
    have hreply : signedReply crypto s now z msg q =
        signedNegativeOf crypto s now z msg q true := by
      simp [signedReply, signedVerdict, hnone, ha]
    rw [hreply]
    exact iff_of_true (signedNegativeOf_givesData hzone true) (by simp)
  | static => exact iff_of_true (givesData_of_static hzone hnone ha (Or.inl rfl)) (by simp)
  | redirect => exact iff_of_true (givesData_of_static hzone hnone ha (Or.inr rfl)) (by simp)
  | blockPage => simpa using givesData_blockPage_iff hzone hnone ha

end

/-- The DO bit leaves the data alone exactly if the name has a zone action, and a block page
    without a record of the type has nothing else at the name. -/
theorem sameData_iff (hq : query.firstQuestion = some q) (hzone : s.apexFor q.name = some apex)
    (hkey : q.qtype ≠ DNSKEY) (hsoa : ¬ (q.qtype = SOA ∧ s.isApex q.name = true)) :
    SameData crypto s now z apex msg query q ↔
      ∃ a, z.findWire (wireNameKey q.name) = some a ∧
        (a = .blockPage → BlockPageBare crypto s now z apex q) := by
  have hnone : apexRecords s now q = none := apexRecords_eq_none hkey hsoa
  constructor
  · rintro ⟨core, a, hcore, hsame⟩
    obtain ⟨ha, -, -⟩ := answerLocal_eq_some hq hcore
    rw [dataOf_answerLocal hq hcore] at hsame
    exact ⟨a, ha, (givesData_iff hzone hnone ha).mp hsame⟩
  · rintro ⟨a, ha, hblock⟩
    obtain ⟨core, hcore⟩ := exists_answerLocal hq ha
    refine ⟨core, a, hcore, ?_⟩
    rw [dataOf_answerLocal hq hcore]
    exact (givesData_iff hzone hnone ha).mpr hblock

end

/-! ## A block page without an address of the other family -/

/-- A key that signs everything with zeros. -/
def signingKeyA : SigningKey where
  dnskeyRdata := List.replicate 68 0
  sign _ := some (List.replicate 64 0)
  dnskeyRdata_length := by simp
  sign_length := by
    rintro msg sig ⟨⟩
    simp

/-- A signer of the zone `a.` -/
def signerA : ZoneSigner where
  zones := AList.insert (wireKey Local.nameA) ⟨Local.nameA, signingKeyA, signingKeyA⟩ ∅
  sigValidity := 86400
  keyed := by
    intro k z h
    rw [Map.lookup_insert_eq] at h
    split_ifs at h with hk
    · cases h
      exact hk
    · cases h

/-- `a. IN t` -/
def questionA (t : U16) : Question := ⟨Local.nameA, t, Class.IN⟩

/-- A query for the name `a.` -/
def queryA (t : U16) : Message := { header := { id := 7 }, questions := [questionA t] }

/-- A static zone: the address is served with and without the DO bit. -/
theorem sameData_zonesA :
    SameData (idealCrypto [] []) signerA 0 zonesA Local.nameA (queryA Rtype.A) (queryA Rtype.A)
      (questionA Rtype.A) :=
  (sameData_iff rfl (by decide +kernel) (by decide) (by decide)).mpr
    ⟨.static, by decide +kernel, fun h => absurd h (by decide)⟩

/-- The zone `a.` with a block page of one IPv4 address. -/
def blockedA : LocalZoneSet := zonesA.overrideZone [97, 46] .blockPage

/-- Asked for an IPv6 address, the block page does not exist without the DO bit, and has no
    data with it. -/
theorem blockPage_differs :
    (answerLocal (queryA AAAA) blockedA).map (fun r => dataOf r.1) = some (NXDOMAIN, []) ∧
      dataOf (signedReply (idealCrypto [] []) signerA 0 blockedA (queryA AAAA)
        (questionA AAAA)) = (NOERROR, []) := by
  decide +kernel

end Runbound.Server
