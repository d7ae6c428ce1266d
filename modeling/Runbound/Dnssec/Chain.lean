import Runbound.Dnssec.Denial
import Runbound.Dnssec.InfraCache
import Runbound.Dnssec.Verify

/-!
# The chain walk (`dnssec_chain.rs`)

Two halves. What a message proves under a set of trusted keys is a pure function
of the message (`denialSecure`, `validateDenial`, `validatedNegativeAuthority`,
`judge`). How the trusted keys are found is a walk from the root that talks to a
fetcher and to the key cache.

The fetcher is `Env.fetch`, a function on an arbitrary world state: every reply
may depend on everything asked before. The concurrent prefetch of the source is a
sequence of fetches, since such a fetcher can give any replies in any order.
-/

namespace Runbound.Dnssec

open Wire Rtype Class

/-- `Verdict` (dnssec_chain.rs:24). -/
inductive Verdict
  | secure
  | insecure
  | bogus
  deriving DecidableEq, Repr

/-! ## Record selection -/

/-- The RRSIG RDATA of a section that covers `rtype` (dnssec_chain.rs:55-62). -/
def rrsigsCovering (rtype : U16) (records : List Record) : List Bytes :=
  (records.filter fun r => r.rtype = RRSIG).filterMap (fun r => r.rdata.data?)
    |>.filter (coversType rtype)

/-- `split` (dnssec_chain.rs:45). -/
def split (records : List Record) (rtype : U16) : List Bytes × List Bytes :=
  ((records.filter fun r => r.rtype = rtype).map fun r => r.rdata.emit,
    rrsigsCovering rtype records)

/-- The records of one RRset: type `rtype`, owner `owner`. -/
def rrset (records : List Record) (owner : Name) (rtype : U16) : List Record :=
  records.filter fun r => r.rtype = rtype && r.name.eqIgnoreAsciiCase owner

/-- `dnskey_ttl` (dnssec_chain.rs:67). -/
def dnskeyTtl (records : List Record) : U32 :=
  ((records.filter fun r => r.rtype = DNSKEY).map Record.ttl).min?.getD 3600

/-- `min_rrsig_expiration` (dnssec_chain.rs:78). -/
def minRrsigExpiration (sigs : List Bytes) : Option U32 :=
  (sigs.filterMap fun d =>
    match d.drop 8 with
    | e0 :: e1 :: e2 :: e3 :: _ => some (u32OfBe e0 e1 e2 e3)
    | _ => none).min?

/-- `dnskey_cache_ttl` (dnssec_chain.rs:88). -/
def dnskeyCacheTtl (rrsetTtl : U32) (sigs : List Bytes) (now : U32) : U32 :=
  match minRrsigExpiration sigs with
  | some exp => min rrsetTtl (if now ≤ exp then exp - now else 0)
  | none => rrsetTtl

/-- `delegation_path` (dnssec_chain.rs:105): the names below the root on the way
    down to `zone`. -/
def delegationPath (zone : Name) : List Name := (zone.ancestors.filter fun n => !n.isRoot).reverse

/-! ## Validated denial records -/

section Message

variable (crypto : Crypto) (msg : Message) (keys : List Bytes) (now : U32)

/-- `rrset_validated` (dnssec_chain.rs:325), over the authority section. -/
def rrsetValidated (owner : Name) (rtype : U16) : Bool :=
  validateRrset crypto owner IN rtype ((rrset msg.authority owner rtype).map Record.rdata)
    (rrsigsCovering rtype (msg.authority.filter fun r => r.name.eqIgnoreAsciiCase owner)) keys now

/-- `collect_validated_nsec` (dnssec_chain.rs:352). -/
def collectValidatedNsec : List Nsec :=
  (msg.authority.filter fun r =>
    r.rtype = NSEC && rrsetValidated crypto msg keys now r.name NSEC).filterMap
    fun r => r.rdata.data?.bind (Nsec.parse r.name)

/-- `collect_validated_nsec3` (dnssec_chain.rs:367). -/
def collectValidatedNsec3 : List Nsec3 :=
  (msg.authority.filter fun r =>
    r.rtype = NSEC3 && rrsetValidated crypto msg keys now r.name NSEC3).filterMap
    fun r => r.rdata.data?.bind (Nsec3.parse r.name)

/-- `denial_secure` (dnssec_chain.rs:315). -/
def denialSecure (name : Name) : Bool :=
  let nsecs := collectValidatedNsec crypto msg keys now
  if nsecs ≠ [] then nsecProvesNoDs nsecs name
  else
    let nsec3s := collectValidatedNsec3 crypto msg keys now
    nsec3s ≠ [] && nsec3ProvesNoDs crypto nsec3s name

/-- `proves_no_exact_match` (dnssec_chain.rs:424). -/
def provesNoExactMatch (qname zone : Name) : Bool :=
  nsecProvesNonexistence (collectValidatedNsec crypto msg keys now) qname ||
    nsec3ProvesNameNonexistent crypto (collectValidatedNsec3 crypto msg keys now) qname zone

/-- `validate_denial` (dnssec_chain.rs:441). -/
def validateDenial (qname : Name) (qtype : U16) (zone : Name) : Bool :=
  let nsecs := collectValidatedNsec crypto msg keys now
  let nsec3s := collectValidatedNsec3 crypto msg keys now
  if nsecs = [] ∧ nsec3s = [] then false
  else if msg.header.rcodeLow = Rcode.NXDOMAIN then
    nsecProvesNxdomain nsecs qname zone || nsec3ProvesNxdomain crypto nsec3s qname zone
  else
    nsecs.any (fun nz => nsecProvesNodata nz.owner nz.bitmap qname qtype) ||
      nsec3ProvesNodata crypto nsec3s qname qtype

/-- `validated_negative_authority` (dnssec_chain.rs:604). -/
def validatedNegativeAuthority (zone : Name) : List Record :=
  let soa := rrset msg.authority zone SOA
  (if soa ≠ [] ∧ validateRrset crypto zone IN SOA (soa.map Record.rdata)
      (split msg.authority SOA).2 keys now
    then soa else []) ++
  msg.authority.filter fun r =>
    ((r.rtype = NSEC || r.rtype = NSEC3) || r.rtype = RRSIG) && r.name.isInZone zone

end Message

/-! ## The zone of a message -/

section

variable (msg : Message)

/-- `zone_apex` (dnssec_chain.rs:382). -/
def zoneApex : Option Name :=
  (((msg.answers ++ msg.authority).filter fun r => r.rtype = RRSIG).filterMap
    fun r => r.rdata.data?.bind rrsigSigner).head?

/-- `answer_zone` (dnssec_chain.rs:398). -/
def answerZone (qname : Name) : Option Name :=
  ((msg.answers.filter fun r =>
      r.rtype = RRSIG && r.name.eqIgnoreAsciiCase qname).filterMap
    fun r => r.rdata.data?.bind rrsigSigner).find? fun z => qname.isInZone z

/-- `soa_owner` (dnssec_chain.rs:410). -/
def soaOwner : Option Name := (msg.authority.find? fun r => r.rtype = SOA).map Record.name

/-- `answer_zone(msg, qname).or_else(..)` (dnssec_chain.rs:504). -/
def signingZone (qname : Name) : Option Name :=
  (answerZone msg qname).or ((zoneApex msg).filter fun z => qname.isInZone z)

/-- `inbailiwick_soa` (dnssec_chain.rs:586). -/
def inbailiwickSoa (qname : Name) : List Record :=
  msg.authority.filter fun r => r.rtype = SOA && qname.isInZone r.name

/-- `ans_type` (dnssec_chain.rs:522-537): the queried type, or a CNAME. -/
def answerType (qname : Name) (qtype : U16) : Option U16 :=
  if msg.answers.any fun r => r.rtype = qtype && r.name.eqIgnoreAsciiCase qname then some qtype
  else if msg.answers.any fun r => r.rtype = CNAME && r.name.eqIgnoreAsciiCase qname then
    some CNAME
  else none

end

section

variable (crypto : Crypto) (msg : Message) (keys : List Bytes) (now : U32) (qname : Name)

/-- The verdict on the answer RRset of type `t` (dnssec_chain.rs:540-570). -/
def judgeAnswer (zone : Name) (t : U16) : Verdict :=
  match validateRrsetWc crypto qname IN t ((rrset msg.answers qname t).map Record.rdata)
      (split msg.answers t).2 keys now with
  | none => .bogus
  | some false => .secure
  | some true => if provesNoExactMatch crypto msg keys now qname zone then .secure else .bogus

/-- `validate_full` once the zone and its keys are known (dnssec_chain.rs:522-581). -/
def judge (qtype : U16) (zone : Name) : Verdict × List Record :=
  match answerType msg qname qtype with
  | some t => (judgeAnswer crypto msg keys now qname zone t, [])
  | none =>
    if validateDenial crypto msg keys now qname qtype zone then
      (.secure, validatedNegativeAuthority crypto msg keys now zone)
    else (.bogus, [])

end

/-! ## The walk -/

/-- What the walk talks to: the fetcher and the clock of `infra_cache`. -/
structure Env (σ : Type) where
  crypto : Crypto
  fetch : Name → U16 → σ → Option Message × σ
  unixNow : σ → U32 × σ

/-- The state the walk passes on. -/
structure State (σ : Type) where
  world : σ
  keys : Bounded (List Bytes) := { cap := maxKeys }

variable {σ : Type} (env : Env σ)

/-- `infra_cache::dnskey_get`. -/
def State.dnskeyGet (zone : Name) (s : State σ) : Option (List Bytes) × State σ :=
  let clock := env.unixNow s.world
  let hit := Dnssec.dnskeyGet s.keys zone clock.1
  (hit.1, { world := clock.2, keys := hit.2 })

/-- `infra_cache::dnskey_learn`; an empty set reads no clock. -/
def State.dnskeyLearn (zone : Name) (keys : List Bytes) (ttl : U32) (s : State σ) : State σ :=
  if keys = [] then s
  else
    let clock := env.unixNow s.world
    { world := clock.2, keys := Dnssec.dnskeyLearn s.keys zone keys ttl clock.1 }

/-- `fetcher.fetch`. -/
def State.fetch (name : Name) (qtype : U16) (s : State σ) : Option Message × State σ :=
  let reply := env.fetch name qtype s.world
  (reply.1, { s with world := reply.2 })

/-- `FetchMap` (dnssec_chain.rs:119). -/
abbrev FetchMap := List ((Name × U16) × Option Message)

/-- Equality of `FetchMap` keys: names compare without case. -/
def sameKey (a b : Name × U16) : Bool := a.1.eqIgnoreAsciiCase b.1 && a.2 = b.2

/-- `take_or_fetch` (dnssec_chain.rs:124). -/
def takeOrFetch (map : FetchMap) (name : Name) (qtype : U16) (s : State σ) :
    Option Message × FetchMap × State σ :=
  match map.find? fun e => sameKey e.1 (name, qtype) with
  | some e => (e.2, map.filter fun e => !sameKey e.1 (name, qtype), s)
  | none =>
    let reply := s.fetch env name qtype
    (reply.1, map, reply.2)

/-- `fetch_keys` for the names of the path (dnssec_chain.rs:168-173). -/
def fetchKeys : List Name → State σ → List (Name × U16) × State σ
  | [], s => ([], s)
  | child :: path, s =>
    let hit := s.dnskeyGet env child
    let rest := fetchKeys path hit.2
    (if hit.1.isNone then (child, DS) :: (child, DNSKEY) :: rest.1 else rest.1, rest.2)

/-- The prefetch (dnssec_chain.rs:174-181). -/
def prefetch : List (Name × U16) → State σ → FetchMap × State σ
  | [], s => ([], s)
  | k :: ks, s =>
    let reply := s.fetch env k.1 k.2
    let rest := prefetch ks reply.2
    ((k, reply.1) :: rest.1, rest.2)

/-- The root's trusted keys (dnssec_chain.rs:186-210). -/
def rootKeys (now : U32) (map : FetchMap) (s : State σ) :
    Option (List Bytes) × FetchMap × State σ :=
  let hit := s.dnskeyGet env Name.root
  match hit.1 with
  | some rk => (some rk, map, hit.2)
  | none =>
    let reply := takeOrFetch env map Name.root DNSKEY hit.2
    match reply.1 with
    | none => (none, reply.2)
    | some rootMsg =>
      let rkrs := split rootMsg.answers DNSKEY
      match validateDnskeyRrset env.crypto Name.root rkrs.1 rkrs.2 rootAnchors now with
      | none => (none, reply.2)
      | some owned =>
        let ttl := dnskeyCacheTtl (dnskeyTtl rootMsg.answers) rkrs.2 now
        (some owned, reply.2.1, reply.2.2.dnskeyLearn env Name.root owned ttl)

/-- What one label boundary of the path comes to. -/
inductive Cut
  /-- Its keys were cached or validated: they are the keys from here on. -/
  | adopt (keys : List Bytes)
  /-- `continue`: no cut here, the parent's keys stay. -/
  | skip
  /-- The walk returns. -/
  | stop (v : Verdict)
  deriving DecidableEq

/-- Is `child` a real cut, going by its own NS records (dnssec_chain.rs:247-254)? -/
def isRealCut (child : Name) (reply : Option Message) : Bool :=
  match reply with
  | none => false
  | some nsMsg => nsMsg.answers.any fun r => r.rtype = NS && r.name.eqIgnoreAsciiCase child

/-- The body of the descent once the DS reply is there (dnssec_chain.rs:226-307). -/
def crossDs (now : U32) (child : Name) (keys : List Bytes) (dsMsg : Message) (map : FetchMap)
    (s : State σ) : Cut × FetchMap × State σ :=
  let ds := split dsMsg.answers DS
  if ds.1 = [] then
    let reply := takeOrFetch env map child NS s
    if !isRealCut child reply.1 then (.skip, reply.2)
    else
      (.stop (if denialSecure env.crypto dsMsg keys now child then .insecure else .bogus), reply.2)
  else if !validateRrset env.crypto child IN DS (ds.1.map (Rdata.unknown DS)) ds.2
      keys now then (.stop .bogus, map, s)
  else
    let reply := takeOrFetch env map child DNSKEY s
    match reply.1 with
    | none => (.stop .bogus, reply.2)
    | some km =>
      let ckcs := split km.answers DNSKEY
      match validateDnskeyRrset env.crypto child ckcs.1 ckcs.2 (ds.1.filterMap parseDs) now with
      | none => (.stop .bogus, reply.2)
      | some childKeys =>
        let ttl := dnskeyCacheTtl (dnskeyTtl km.answers) ckcs.2 now
        (.adopt childKeys, reply.2.1, reply.2.2.dnskeyLearn env child childKeys ttl)

/-- The body of the descent (dnssec_chain.rs:213-307). -/
def crossCut (now : U32) (child : Name) (keys : List Bytes) (map : FetchMap) (s : State σ) :
    Cut × FetchMap × State σ :=
  let hit := s.dnskeyGet env child
  match hit.1 with
  | some ck => (.adopt ck, map, hit.2)
  | none =>
    let reply := takeOrFetch env map child DS hit.2
    match reply.1 with
    | none => (.stop .bogus, reply.2)
    | some dsMsg => crossDs env now child keys dsMsg reply.2.1 reply.2.2

/-- The descent (dnssec_chain.rs:213-308). `current` is the last adopted name. -/
def descend (now : U32) : List Name → Name → List Bytes → FetchMap → State σ →
    (Verdict × List Bytes) × State σ
  | [], _, keys, _, s => ((.secure, keys), s)
  | child :: path, current, keys, map, s =>
    if child.eqIgnoreAsciiCase current then descend now path current keys map s
    else
      let r := crossCut env now child keys map s
      match r.1 with
      | .adopt ck => descend now path child ck r.2.1 r.2.2
      | .skip => descend now path current keys r.2.1 r.2.2
      | .stop v => ((v, []), r.2.2)

/-- `trusted_keys_for` (dnssec_chain.rs:140). -/
def trustedKeysFor (zone : Name) (now : U32) (s : State σ) : (Verdict × List Bytes) × State σ :=
  let hit := s.dnskeyGet env zone
  match hit.1 with
  | some keys => ((.secure, keys), hit.2)
  | none =>
    let path := delegationPath zone
    let rootHit := hit.2.dnskeyGet env Name.root
    let ks := fetchKeys env path rootHit.2
    let fetched := prefetch env
      (if rootHit.1.isNone then (Name.root, DNSKEY) :: ks.1 else ks.1) ks.2
    let root := rootKeys env now fetched.1 fetched.2
    match root.1 with
    | none => ((.bogus, []), root.2.2)
    | some keys => descend env now path Name.root keys root.2.1 root.2.2

/-- `validate_full` (dnssec_chain.rs:487). -/
def validateFull (qname : Name) (qtype : U16) (msg : Message) (now : U32) (s : State σ) :
    (Verdict × List Record) × State σ :=
  match signingZone msg qname with
  | none =>
    let z := ((soaOwner msg).filter fun z => qname.isInZone z).getD qname
    let r := trustedKeysFor env z now s
    (match r.1.1 with
      | .insecure => (.insecure, inbailiwickSoa msg qname)
      | _ => (.bogus, []), r.2)
  | some zone =>
    let r := trustedKeysFor env zone now s
    (match r.1.1 with
      | .bogus => (.bogus, [])
      | .insecure => (.insecure, inbailiwickSoa msg qname)
      | .secure => judge env.crypto msg r.1.2 now qname qtype zone, r.2)

/-! ## What a verdict says -/

variable {env : Env σ} {qname : Name} {qtype : U16} {msg : Message} {now : U32} {s : State σ}

theorem mem_rrset {records : List Record} {owner : Name} {rtype : U16} {r : Record} :
    r ∈ rrset records owner rtype ↔
      r ∈ records ∧ r.rtype = rtype ∧ r.name.eqIgnoreAsciiCase owner = true := by
  simp [rrset]

/-- The zone a message is judged under is at or above the queried name. -/
theorem signingZone_isInZone {zone : Name} (h : signingZone msg qname = some zone) :
    qname.isInZone zone = true := by
  rcases Option.or_eq_some_iff.mp h with h | ⟨-, h⟩
  · exact List.find?_some h
  · exact (Option.filter_eq_some_iff.mp h).2

/-- A Secure verdict was given under the trusted keys of the signing zone. -/
theorem validateFull_secure {auth : List Record}
    (h : (validateFull env qname qtype msg now s).1 = (.secure, auth)) :
    ∃ zone keys, signingZone msg qname = some zone ∧
      (trustedKeysFor env zone now s).1 = (.secure, keys) ∧
      judge env.crypto msg keys now qname qtype zone = (.secure, auth) := by
  unfold validateFull at h
  cases hz : signingZone msg qname with
  | none =>
    simp only [hz] at h
    split at h <;> simp at h
  | some zone =>
    simp only [hz] at h
    rcases hr : (trustedKeysFor env zone now s).1 with ⟨verdict, keys⟩
    rw [hr] at h
    cases verdict with
    | secure => exact ⟨zone, keys, rfl, hr, h⟩
    | insecure => simp at h
    | bogus => simp at h

theorem judge_secure {keys : List Bytes} {zone : Name} {auth : List Record}
    (h : judge env.crypto msg keys now qname qtype zone = (.secure, auth)) :
    (∃ t, answerType msg qname qtype = some t ∧
      judgeAnswer env.crypto msg keys now qname zone t = .secure ∧ auth = []) ∨
    (answerType msg qname qtype = none ∧
      validateDenial env.crypto msg keys now qname qtype zone = true ∧
      auth = validatedNegativeAuthority env.crypto msg keys now zone) := by
  unfold judge at h
  cases ht : answerType msg qname qtype with
  | some t =>
    simp only [ht, Prod.mk.injEq] at h
    exact Or.inl ⟨t, rfl, h.1, h.2.symm⟩
  | none =>
    simp only [ht] at h
    split_ifs at h with hd
    · simp only [Prod.mk.injEq, true_and] at h
      exact Or.inr ⟨rfl, hd, h.symm⟩
    · simp at h

theorem judge_ne_insecure {keys : List Bytes} {zone : Name} :
    (judge env.crypto msg keys now qname qtype zone).1 ≠ .insecure := by
  unfold judge
  cases answerType msg qname qtype with
  | some t =>
    simp only [judgeAnswer]
    split
    · simp
    · simp
    · split_ifs <;> simp
  | none => simp only; split_ifs <;> simp

theorem mem_authority_of_validateFull {r : Record}
    (h : r ∈ (validateFull env qname qtype msg now s).1.2) : r ∈ msg.authority := by
  have hsoa : r ∈ inbailiwickSoa msg qname → r ∈ msg.authority := List.mem_of_mem_filter
  unfold validateFull at h
  cases hz : signingZone msg qname with
  | none =>
    simp only [hz] at h
    split at h
    · exact hsoa h
    · cases h
  | some zone =>
    simp only [hz] at h
    split at h
    · cases h
    · exact hsoa h
    · unfold judge at h
      split at h
      · cases h
      · split_ifs at h
        · rcases List.mem_append.mp h with h | h
          · split_ifs at h
            · exact (mem_rrset.mp h).1
            · cases h
          · exact List.mem_of_mem_filter h
        · cases h

/-! ## A rule for the walk -/

/-- An invariant of the walk: `I` holds of the state after every step, `T` of the keys it has for a
    zone and `V` of the verdicts it stops with. `B` holds of the zone whose keys are in hand and a
    name further down the path. -/
structure Env.Invariant (env : Env σ) (now : U32) (I : State σ → Prop) (B : Name → Name → Prop)
    (T : Name → List Bytes → Prop) (V : Verdict → Prop) : Prop where
  get : ∀ {s} zone, I s → (∀ ks, (s.dnskeyGet env zone).1 = some ks → T zone ks) ∧
    I (s.dnskeyGet env zone).2
  fetch : ∀ {s} name qtype, I s → I (s.fetch env name qtype).2
  learn : ∀ {s zone ks} ttl, I s → T zone ks → I (s.dnskeyLearn env zone ks ttl)
  anchored : ∀ {msg : Message} {ks}, validateDnskeyRrset env.crypto Name.root (split msg.answers DNSKEY).1
    (split msg.answers DNSKEY).2 rootAnchors now = some ks → T Name.root ks
  delegated : ∀ {zone child keys} {dsMsg msg : Message} {ks}, B zone child → T zone keys →
    validateRrset env.crypto child IN DS ((split dsMsg.answers DS).1.map (Rdata.unknown DS))
      (split dsMsg.answers DS).2 keys now = true →
    validateDnskeyRrset env.crypto child (split msg.answers DNSKEY).1 (split msg.answers DNSKEY).2
      ((split dsMsg.answers DS).1.filterMap parseDs) now = some ks → T child ks
  denied : ∀ {zone child keys dsMsg}, B zone child → T zone keys →
    denialSecure env.crypto dsMsg keys now child = true → V .insecure
  bogus : V .bogus

namespace Env.Invariant

variable {I : State σ → Prop} {B : Name → Name → Prop} {T : Name → List Bytes → Prop}
  {V : Verdict → Prop} {zone child : Name} {keys : List Bytes}

section

variable (hI : env.Invariant now I B T V)
include hI

theorem takeOrFetch (map : FetchMap) (name : Name) (t : U16) (h : I s) :
    I (takeOrFetch env map name t s).2.2 := by
  unfold Dnssec.takeOrFetch
  split
  · exact h
  · exact hI.fetch name t h

theorem fetchKeys : ∀ (path : List Name) {s : State σ}, I s → I (fetchKeys env path s).2 := by
  intro path
  induction path with
  | nil => exact fun h => h
  | cons child path ih => exact fun h => ih (hI.get child h).2

theorem prefetch : ∀ (ks : List (Name × U16)) {s : State σ}, I s → I (prefetch env ks s).2 := by
  intro ks
  induction ks with
  | nil => exact fun h => h
  | cons k ks ih => exact fun h => ih (hI.fetch k.1 k.2 h)

theorem rootKeys (map : FetchMap) (h : I s) :
    (∀ ks, (rootKeys env now map s).1 = some ks → T Name.root ks) ∧
      I (Dnssec.rootKeys env now map s).2.2 := by
  obtain ⟨hhit, hget⟩ := hI.get Name.root h
  unfold Dnssec.rootKeys
  simp only
  split
  · rename_i rk hrk
    refine ⟨fun ks hks => ?_, hget⟩
    cases hks
    exact hhit rk hrk
  · have hreply := hI.takeOrFetch map Name.root DNSKEY hget
    split
    · exact ⟨by simp, hreply⟩
    · split
      · exact ⟨by simp, hreply⟩
      · rename_i owned hv
        refine ⟨fun ks hks => ?_, hI.learn _ hreply (hI.anchored hv)⟩
        cases hks
        exact hI.anchored hv

end

/-- What one boundary can come to. -/
structure Crosses (I : State σ → Prop) (T : Name → List Bytes → Prop) (V : Verdict → Prop)
    (child : Name) (r : Cut × FetchMap × State σ) : Prop where
  adopt : ∀ ks, r.1 = .adopt ks → T child ks
  stop : ∀ v, r.1 = .stop v → V v
  keeps : I r.2.2

theorem crosses_adopt {r : FetchMap × State σ} (ht : T child keys) (h : I r.2) :
    Crosses I T V child (.adopt keys, r) :=
  ⟨fun ks hks => by cases hks; exact ht, by simp, h⟩

theorem crosses_stop {v : Verdict} {r : FetchMap × State σ} (hv : V v) (h : I r.2) :
    Crosses I T V child (.stop v, r) :=
  ⟨by simp, fun v' hv' => by cases hv'; exact hv, h⟩

variable (hI : env.Invariant now I B T V)
include hI

theorem crossDs (hB : B zone child) (ht : T zone keys) (dsMsg : Message) (map : FetchMap)
    (h : I s) : Crosses I T V child (crossDs env now child keys dsMsg map s) := by
  have hreply := fun t => hI.takeOrFetch map child t h
  unfold Dnssec.crossDs
  simp only
  split_ifs with hempty hcut hdenied hval
  · exact ⟨by simp, by simp, hreply NS⟩
  · exact crosses_stop (hI.denied hB ht hdenied) (hreply NS)
  · exact crosses_stop hI.bogus (hreply NS)
  · exact crosses_stop hI.bogus h
  · split
    · exact crosses_stop hI.bogus (hreply DNSKEY)
    · split
      · exact crosses_stop hI.bogus (hreply DNSKEY)
      · rename_i ks hv
        have ht' : T child ks := hI.delegated hB ht (by simpa using hval) hv
        exact crosses_adopt ht' (hI.learn _ (hreply DNSKEY) ht')

theorem crossCut (hB : B zone child) (ht : T zone keys) (map : FetchMap) (h : I s) :
    Crosses I T V child (crossCut env now child keys map s) := by
  obtain ⟨hhit, hget⟩ := hI.get child h
  unfold Dnssec.crossCut
  simp only
  split
  · rename_i ck hck
    exact crosses_adopt (hhit ck hck) hget
  · have hreply := hI.takeOrFetch map child DS hget
    split
    · exact crosses_stop hI.bogus hreply
    · exact hI.crossDs hB ht _ _ hreply

/-- The descent: the keys in hand are keys of `zone`, which is above the rest of the path. -/
theorem descend : ∀ {path : List Name} {zone : Name} {keys : List Bytes} (map : FetchMap)
    {s : State σ}, (zone :: path).Pairwise B → T zone keys → I s →
    ((∃ z ks, (descend env now path zone keys map s).1 = (.secure, ks) ∧ T z ks) ∨
      V (Dnssec.descend env now path zone keys map s).1.1) ∧
      I (Dnssec.descend env now path zone keys map s).2 := by
  intro path
  induction path with
  | nil =>
    intro zone keys map s _ ht h
    exact ⟨Or.inl ⟨zone, keys, rfl, ht⟩, h⟩
  | cons child path ih =>
    intro zone keys map s hpath ht h
    obtain ⟨hzone, hchild⟩ := List.pairwise_cons.mp hpath
    obtain ⟨hB, hrest⟩ := List.forall_mem_cons.mp hzone
    have hskip : (zone :: path).Pairwise B :=
      List.pairwise_cons.mpr ⟨hrest, (List.pairwise_cons.mp hchild).2⟩
    have hcut := hI.crossCut hB ht map h
    rw [Dnssec.descend]
    split_ifs
    · exact ih map hskip ht h
    · simp only
      split
      · rename_i ck hck
        exact ih _ hchild (hcut.adopt ck hck) hcut.keeps
      · exact ih _ hskip ht hcut.keeps
      · rename_i v hv
        exact ⟨Or.inr (hcut.stop v hv), hcut.keeps⟩

theorem trustedKeysFor (hB : (Name.root :: delegationPath zone).Pairwise B) (h : I s) :
    ((∃ z ks, (trustedKeysFor env zone now s).1 = (.secure, ks) ∧ T z ks) ∨
      V (Dnssec.trustedKeysFor env zone now s).1.1) ∧
      I (Dnssec.trustedKeysFor env zone now s).2 := by
  obtain ⟨hhit, hget⟩ := hI.get zone h
  have hfetched := fun ks =>
    hI.prefetch ks (hI.fetchKeys (delegationPath zone) (hI.get Name.root hget).2)
  unfold Dnssec.trustedKeysFor
  simp only
  split
  · rename_i ks hks
    exact ⟨Or.inl ⟨zone, ks, rfl, hhit ks hks⟩, hget⟩
  · have hroot := fun ks map => hI.rootKeys map (hfetched ks)
    split
    · exact ⟨Or.inr hI.bogus, (hroot _ _).2⟩
    · rename_i ks hks
      exact hI.descend _ hB ((hroot _ _).1 ks hks) (hroot _ _).2

end Env.Invariant

/-! ## What the walk does to the world -/

/-- `G` survives every fetch and every reading of the clock. -/
structure Env.Keeps (env : Env σ) (G : σ → Prop) : Prop where
  fetch : ∀ name qtype w, G w → G (env.fetch name qtype w).2
  unixNow : ∀ w, G w → G (env.unixNow w).2

theorem Env.Keeps.invariant {G : σ → Prop} (hG : env.Keeps G) (now : U32) :
    env.Invariant now (fun s => G s.world) (fun _ _ => True) (fun _ _ => True) fun _ => True where
  get _ h := ⟨fun _ _ => trivial, hG.unixNow _ h⟩
  fetch name qtype h := hG.fetch name qtype _ h
  learn _ h _ := by
    unfold State.dnskeyLearn
    split_ifs
    · exact h
    · exact hG.unixNow _ h
  anchored _ := trivial
  delegated _ _ _ _ := trivial
  denied _ _ _ := trivial
  bogus := trivial

/-- A property that fetches and the clock keep is kept by a validation. -/
theorem Env.Keeps.validateFull {G : σ → Prop} (hG : env.Keeps G) (qname : Name) (qtype : U16)
    (msg : Message) (now : U32) (h : G s.world) :
    G (validateFull env qname qtype msg now s).2.world := by
  have hwalk : ∀ zone, G (trustedKeysFor env zone now s).2.world := fun zone =>
    ((hG.invariant now).trustedKeysFor (List.pairwise_of_forall fun _ _ => trivial) h).2
  unfold Dnssec.validateFull
  split
  · exact hwalk _
  · exact hwalk _

/-! ## What the walk does to the cache -/

/-- Every key set in the cache satisfies `T`, with the key it is cached under. -/
def State.Holds (T : Bytes → List Bytes → Prop) (s : State σ) : Prop := s.keys.All T

theorem State.Holds.dnskeyGet {T : Bytes → List Bytes → Prop} (h : s.Holds T) (env : Env σ)
    (zone : Name) : (∀ ks, (s.dnskeyGet env zone).1 = some ks → T (keyOf zone) ks) ∧
      (s.dnskeyGet env zone).2.Holds T :=
  Bounded.All.get h

theorem State.Holds.dnskeyLearn {T : Bytes → List Bytes → Prop} {zone : Name} {keys : List Bytes}
    (h : s.Holds T) (ht : T (keyOf zone) keys) (ttl : U32) :
    (s.dnskeyLearn env zone keys ttl).Holds T := by
  unfold State.dnskeyLearn
  split_ifs with hne
  · exact h
  · show Bounded.All _ (Dnssec.dnskeyLearn s.keys zone keys ttl (env.unixNow s.world).1)
    rw [Dnssec.dnskeyLearn, if_neg hne]
    exact Bounded.All.insert h ht

end Runbound.Dnssec
