import Runbound.Server.Acl
import Runbound.Server.Isolation

/-!
# Private addresses in responses

`private-address` blocks are to keep addresses of the own network out of the responses of
others. Forwarded answers are checked before they are sent or stored, but as they stand: an
IPv4-mapped IPv6 address is not looked at as the IPv4 address it stands for. Answers of the
resolver are not checked at all.

* `serveWire_clean`: what one query sends and stores.
* `rebinding_blocked`: the supplies under which no response of any history, fresh or from a
  cache, holds such an address; for one query they are the only ones.
-/

namespace Runbound.Server

open Wire FastPath Local Lib Recursor List Rcode Map

/-! ## Addresses -/

/-- The address of an A or AAAA record (dns/server.rs:1026-1030). -/
def addressOf : Rdata → Option IpAddr
  | .a o => some (.v4 o)
  | .aaaa o => some (.v6 o)
  | _ => none

/-- The test of the forwarding path (dns/server.rs:1024-1039). -/
def isPrivate (s : PrivateAddressSet) (rd : Rdata) : Bool := (addressOf rd).any s.contains

/-- The handler with its private addresses. -/
def Handler.withPrivate (h : Handler) (s : PrivateAddressSet) : Handler :=
  { h with privateAddr := isPrivate s }

/-- An IPv4-mapped IPv6 address as its IPv4 address. -/
def canonicalIp : IpAddr → IpAddr
  | .v6 o =>
    let s := segment o
    if s 0 = 0 ∧ s 1 = 0 ∧ s 2 = 0 ∧ s 3 = 0 ∧ s 4 = 0 ∧ s 5 = 0xffff then
      .v4 ![o 12, o 13, o 14, o 15]
    else .v6 o
  | ip => ip

/-- The data hold an address of the blocks. -/
def forbidden (s : PrivateAddressSet) (rd : Rdata) : Bool :=
  (addressOf rd).any fun ip => s.contains (canonicalIp ip)

/-- Who reads the octets finds no such address among the answer and authority records. -/
def CleanOctets (s : PrivateAddressSet) (b : Bytes) : Prop :=
  ∀ m, Message.parse b = .ok m → ∀ r ∈ received m, forbidden s r.rdata = false

theorem rtype_of_forbidden {s : PrivateAddressSet} {r : Record} (h : forbidden s r.rdata = true) :
    r.rtype = Rtype.A ∨ r.rtype = Rtype.AAAA := by
  have hparsed := r.parsed
  cases hr : r.rdata with
  | a o =>
    rw [hr] at hparsed
    exact Or.inl (of_decide_eq_true hparsed).symm
  | aaaa o =>
    rw [hr] at hparsed
    exact Or.inr (of_decide_eq_true hparsed).symm
  | _ =>
    rw [hr] at h
    cases h

/-! ## Messages -/

/-- A record that may be sent. -/
structure Good (s : PrivateAddressSet) (r : Record) : Prop where
  allowed : forbidden s r.rdata = false
  wireOk : r.rdata.wireOk

/-- A response of such records. -/
structure GoodMessage (s : PrivateAddressSet) (m : Message) : Prop where
  records : ∀ r ∈ received m, Good s r
  echo : ∃ req, m.additional = echoOf req

variable {s : PrivateAddressSet}

theorem Good.of_rdata {r r' : Record} (h : Good s r) (heq : r'.rdata = r.rdata) : Good s r' :=
  ⟨by rw [heq]; exact h.allowed, by rw [heq]; exact h.wireOk⟩

variable {c : Caches} {h : Handler} {m : Message}

theorem GoodMessage.wireOk (h : GoodMessage s m) : m.WireOk := by
  intro r hr
  rcases mem_append.mp hr with hr | hr
  · exact (h.records r hr).wireOk
  · obtain ⟨req, hreq⟩ := h.echo
    rw [hreq] at hr
    rw [(echoOf_root hr).2.2]
    trivial

variable {records : List Record}

theorem good_answerOf (h : ∀ r ∈ records, Good s r) (req : Message) (rc : U16) :
    GoodMessage s (answerOf req records rc) := by
  refine ⟨fun r hr => h r ?_, req, rfl⟩
  simpa [received, answerOf] using hr

theorem good_negativeOf {authority : List Record} (h : ∀ r ∈ authority, r.rdata.wireOk)
    (req : Message) (rc : U16) (d : Bool) : GoodMessage s (negativeOf req rc authority d) := by
  refine ⟨fun r hr => ?_, req, rfl⟩
  simp only [received, negativeOf, nil_append, mem_filter] at hr
  obtain ⟨hmem, htype⟩ := hr
  refine ⟨?_, h r hmem⟩
  by_contra hbad
  rcases rtype_of_forbidden (Bool.not_eq_false _ ▸ hbad) with ht | ht <;>
  · rw [isDenial, ht] at htype
    revert htype
    cases d <;> decide

theorem markAd_encode (on : Bool) (m : Message) :
    ∃ header, markAd on m.encode = { m with header }.encode ∧
      { m with header }.encode.length = m.encode.length := by
  by_cases hon : on = true ∧ m.encode.length > 3
  · let header : Header := { m.header with
      flags := u16OfBe (octet m.encode 2) (Fin.ofNat 256 ((octet m.encode 3).val ||| 0x20)) }
    obtain ⟨body, h1, h2⟩ := Message.encode_eq_append m { m with header } rfl rfl rfl rfl
    have hflags : u16Be header.flags =
        [octet m.encode 2, Fin.ofNat 256 ((octet m.encode 3).val ||| 0x20)] := u16Be_u16OfBe _ _
    have hwire : { m with header }.countedHeader.wire =
        u16Be m.header.id ++ (u16Be header.flags ++ m.countedHeader.wire.drop 4) := rfl
    refine ⟨header, ?_, by rw [h1, h2]; rfl⟩
    rw [markAd, if_pos hon, h2, hwire, hflags, h1]
    rfl
  · exact ⟨m.header, by rw [markAd, if_neg hon], rfl⟩

theorem cleanOctets_markAd_iff (hw : m.WireOk) (hlen : m.encode.length < 65536)
    (on : Bool) :
    CleanOctets s (markAd on m.encode) ↔ ∀ r ∈ received m, forbidden s r.rdata = false := by
  obtain ⟨header, hmark, hsize⟩ := markAd_encode on m
  obtain ⟨m', hm', hsame, -⟩ := Message.parse_encode { m with header } hw
    (by rw [hsize]; exact hlen)
  have hrecords : (received m').map Record.rdata = (received m).map Record.rdata := by
    simp only [received, map_append]
    rw [Record.map_of_same (fun h => h.2.2.2.2) hsame.answers,
      Record.map_of_same (fun h => h.2.2.2.2) hsame.authority]
  have hiff : (∀ rd ∈ (received m').map Record.rdata, forbidden s rd = false) ↔
      ∀ rd ∈ (received m).map Record.rdata, forbidden s rd = false := by rw [hrecords]
  simp only [forall_mem_map] at hiff
  rw [← hiff, hmark]
  constructor
  · intro h
    exact h m' hm'
  · intro h m'' hm''
    obtain rfl := Except.ok.inj (hm'.symm.trans hm'')
    exact h

theorem cleanOctets_copyOut (h : GoodMessage s m) (hlen : m.encode.length < 65536)
    (b : Bytes) : CleanOctets s (copyOut b m.encode) := by
  intro resp hresp x hx
  obtain ⟨y, hy, hxy⟩ := received_copyOut h.wireOk hlen hresp x hx
  rw [hxy.2.2.2.2]
  exact (h.records y hy).allowed

/-- A response of such records, perhaps with the AD bit set. -/
def GoodReply (s : PrivateAddressSet) (b : Bytes) : Prop :=
  ∃ on m, b = markAd on m.encode ∧ GoodMessage s m

theorem GoodReply.cleanOctets {b : Bytes} (h : GoodReply s b) (hlen : b.length < 65536) :
    CleanOctets s b := by
  obtain ⟨on, m, rfl, hm⟩ := h
  obtain ⟨header, hmark, hsize⟩ := markAd_encode on m
  rw [hmark, hsize] at hlen
  exact (cleanOctets_markAd_iff hm.wireOk hlen on).mpr fun r hr => (hm.records r hr).allowed

theorem goodReply_encode (h : GoodMessage s m) : GoodReply s m.encode :=
  ⟨false, m, by simp [markAd], h⟩

theorem goodReply_error (msg : Message) (rc : U16) : GoodReply s (wireError msg rc) :=
  goodReply_encode (good_answerOf (by simp) msg rc)

/-! ## What is supplied -/

/-- Records that a resolver returned were parsed, signatures too. -/
def Resolution.AllParsed : Resolution → Prop
  | .recursion (some val) => ∀ r ∈ val.records ++ val.answerRrsigs ++ val.authority, r.rdata.wireOk
  | _ => True

/-- What the resolver returned for the client holds no private address, unless it is not
    served as an answer. -/
def CleanResolved (s : PrivateAddressSet) (msg : Message) (val : Validated) : Prop :=
  (val.verdict = .bogus ∧ msg.header.cd = false) ∨ val.rcode = NXDOMAIN ∨ val.records = [] ∨
    ∀ r ∈ val.records ++ (if msg.doBit then val.answerRrsigs else []), forbidden s r.rdata = false

/-- The answer of an upstream server holds no private address, or one that stands there as
    it is. -/
def CleanForwarded (s : PrivateAddressSet) (m : Message) : Prop :=
  m.header.rcodeLow = NOERROR →
    (∃ r ∈ m.answers, isPrivate s r.rdata = true) ∨ ∀ r ∈ m.answers, forbidden s r.rdata = false

/-- What is supplied for the query is clean in this sense, if it is asked for. -/
def CleanSupply (s : PrivateAddressSet) (a : Arrival) : Prop :=
  ∀ msg q, Message.parse a.query = .ok msg → msg.firstQuestion = some q → a.early = none →
    (∀ val, a.resolution = .recursion (some val) → CleanResolved s msg val) ∧
    (∀ wire authed m, a.resolution = .forward (some (wire, authed)) → Message.parse wire = .ok m →
      CleanForwarded s m)

/-! ## One query -/

/-- The shared cache holds clean responses only. -/
def CleanShared (s : PrivateAddressSet) (cache : CacheMap) : Prop :=
  ∀ k e, cache.lookup k = some e → ∃ m, e.wirePayload = m.encode ∧ GoodMessage s m

/-- All caches hold nothing else. -/
structure CleanCaches (s : PrivateAddressSet) (c : Caches) : Prop where
  shared : CleanShared s c.shared
  forwardDo : ∀ k hit, c.forwardDo.lookup k = some hit → ∀ r ∈ hit.records, Good s r
  stale : ∀ k hit, c.stale.lookup k = some hit → ∀ r ∈ hit.1, Good s r

/-- A clean reply, and what is kept is clean. -/
structure Cleans {σ : Type} (s : PrivateAddressSet) (Keeps : σ → Prop) (r : Bytes × σ) : Prop where
  reply : GoodReply s r.1
  kept : Keeps r.2

def CleanForwards (s : PrivateAddressSet) (c : ForwardDoCache) : Prop :=
  ∀ k hit, c.lookup k = some hit → ∀ r ∈ hit.records, Good s r

/-- What a lookup in that cache serves is clean, and what it leaves. -/
structure CleanHit (s : PrivateAddressSet) (r : Option (List Record × Bool) × ForwardDoCache) :
    Prop where
  served : ∀ p, r.1 = some p → ∀ r ∈ p.1, Good s r
  kept : CleanForwards s r.2

/-- An answer is refused or clean, and what proves that there is none can be encoded. -/
def CleanResult (s : PrivateAddressSet) : ResolveResult → Prop
  | .answer records _ => (∃ r ∈ records, isPrivate s r.rdata = true) ∨ ∀ r ∈ records, Good s r
  | .negative _ _ soa => ∀ r ∈ soa, r.rdata.wireOk
  | .servfail => True

section

variable {hw : Bool} {cfg : CacheCfg} {instant : ℕ} {now : U32} {msg : Message} {q : Question}
  {cache : CacheMap}

theorem good_clampTtl (h : ∀ r ∈ records, Good s r) :
    ∀ r ∈ records.map (clampTtl cfg), Good s r := by
  intro r hr
  obtain ⟨r', hr', rfl⟩ := mem_map.mp hr
  exact (h r' hr').of_rdata rfl

theorem shared_of_entry {resp : Message} {cache' : CacheMap} (hc : CleanShared s cache)
    (hresp : GoodMessage s resp) (hstep : ∀ k e, cache'.lookup k = some e →
      EntryOf hw q resp.encode k e ∨ cache.lookup k = some e) : CleanShared s cache' := by
  intro k e he
  rcases hstep k e he with hnew | hold
  · exact ⟨resp, hnew.payload, hresp⟩
  · exact hc k e hold

theorem serveNegative_clean {val : Validated} {rc : U16}
    (hauth : ∀ r ∈ val.authority, r.rdata.wireOk) (hc : CleanShared s cache) :
    Cleans s (CleanShared s) (serveNegative hw cfg instant msg q rc val cache) := by
  refine ⟨⟨_, _, rfl, good_negativeOf hauth msg rc msg.doBit⟩, ?_⟩
  unfold serveNegative
  split_ifs
  · exact hc
  · exact shared_of_entry hc (good_negativeOf hauth msg rc false)
      fun k e => lookup_maybeCacheNegative

theorem servePositive_clean {val : Validated} (hrec : ∀ r ∈ val.records, Good s r)
    (hsig : msg.doBit = true → ∀ r ∈ val.answerRrsigs, Good s r) (hc : CleanShared s cache) :
    Cleans s (CleanShared s) (servePositive hw cfg instant msg q val cache) := by
  have hclamped : ∀ r ∈ val.records.map (clampTtl cfg), Good s r := good_clampTtl hrec
  have hbase := good_answerOf hclamped msg NOERROR
  constructor <;> unfold servePositive <;> dsimp only
  · split_ifs with hdo
    · refine ⟨_, _, rfl, good_answerOf (fun r hr => ?_) msg NOERROR⟩
      rcases mem_append.mp hr with hr | hr
      · exact hclamped r hr
      · exact good_clampTtl (hsig hdo.1) r hr
    · exact ⟨_, _, rfl, hbase⟩
  · split_ifs
    · exact hc
    · exact shared_of_entry hc hbase fun k e => lookup_maybeCacheWire

theorem serveRecursion_clean {resolved : Option Validated}
    (hp : (Resolution.recursion resolved).AllParsed)
    (hok : ∀ val, resolved = some val → CleanResolved s msg val) (hc : CleanShared s cache) :
    Cleans s (CleanShared s) (serveRecursion hw cfg instant msg q resolved cache) := by
  cases resolved with
  | none => exact ⟨goodReply_error msg _, hc⟩
  | some val =>
    have hauth : ∀ r ∈ val.authority, r.rdata.wireOk := fun r hr => hp r (by simp [hr])
    unfold serveRecursion
    simp only
    split_ifs with hbogus hnx hempty
    · exact ⟨goodReply_error msg _, hc⟩
    · exact serveNegative_clean hauth hc
    · exact serveNegative_clean hauth hc
    · -- an answer
      have hrecords := (((hok val rfl).resolve_left hbogus).resolve_left hnx).resolve_left hempty
      refine servePositive_clean (fun r hr => ⟨hrecords r (by simp [hr]), hp r (by simp [hr])⟩)
        (fun hdo r hr => ⟨hrecords r (by simp [hr, hdo]), hp r (by simp [hr])⟩) hc

theorem good_decayed {elapsed remaining : U32} : ∀ {records served : List Record},
    decayed elapsed remaining records = some served → (∀ r ∈ records, Good s r) →
      ∀ r ∈ served, Good s r := by
  intro records
  induction records with
  | nil =>
    intro served h _
    cases h
    simp
  | cons r rs ih =>
    intro served h hgood
    obtain ⟨hr, hrs⟩ := forall_mem_cons.mp hgood
    unfold decayed at h
    simp only at h
    split_ifs at h
    obtain ⟨rest, hrest, rfl⟩ := Option.map_eq_some_iff.mp h
    exact forall_mem_cons.mpr ⟨hr.of_rdata rfl, ih hrest hrs⟩

theorem forwardDoCacheGet_clean {key : List Bytes × U16} {c : ForwardDoCache}
    (hc : CleanForwards s c) : CleanHit s (forwardDoCacheGet instant key c) := by
  unfold forwardDoCacheGet
  cases hl : c.lookup key with
  | none => exact ⟨by simp, hc⟩
  | some hit =>
    simp only
    split
    · rename_i records hserved
      refine ⟨fun p heq => ?_, hc⟩
      cases heq
      split_ifs at hserved
      exact good_decayed hserved (hc key hit hl)
    · exact ⟨by simp, forall_lookup_erase hc key⟩

theorem forwardDoCachePut_clean {key : List Bytes × U16} {authed : Bool} {c : ForwardDoCache}
    (hrec : ∀ r ∈ records, Good s r) (hc : CleanForwards s c) :
    CleanForwards s (forwardDoCachePut instant now key records authed c) := by
  unfold forwardDoCachePut
  split_ifs
  · exact hc
  · exact hc
  · exact forall_lookup_insert hc hrec

theorem storeStaleWire_clean {maxEntries : ℕ} {key : Bytes × U16} {c : StaleCache}
    (hrec : ∀ r ∈ records, Good s r) (hc : ∀ k hit, c.lookup k = some hit → ∀ r ∈ hit.1, Good s r) :
    ∀ k hit, (storeStaleWire maxEntries instant key records c).lookup k = some hit →
      ∀ r ∈ hit.1, Good s r := by
  unfold storeStaleWire
  split_ifs
  · exact hc
  · refine forall_lookup_insert ?_ hrec
    split
    · exact forall_lookup_erase hc _
    · exact hc
  · exact forall_lookup_insert hc hrec

theorem tryStaleWire_clean {stale : StaleCfg} {key : Bytes × U16} {c : StaleCache}
    (hc : ∀ k hit, c.lookup k = some hit → ∀ r ∈ hit.1, Good s r)
    (h : tryStaleWire stale instant key c = some records) : ∀ r ∈ records, Good s r := by
  unfold tryStaleWire at h
  cases hl : c.lookup key with
  | none => simp [hl] at h
  | some hit =>
    simp only [hl] at h
    split_ifs at h
    cases h
    intro r hr
    obtain ⟨r', hr', rfl⟩ := mem_map.mp hr
    exact (hc key _ hl r' hr').of_rdata rfl

theorem serveResult_clean {fwd : ResolveResult} (hc : CleanCaches s c) (hfwd : CleanResult s fwd) :
    Cleans s (CleanCaches s) (serveResult (h.withPrivate s) instant now msg q fwd c) := by
  cases fwd with
  | answer records authed =>
    show Cleans s _ (serveAnswer (h.withPrivate s) instant now msg q records authed c)
    unfold serveAnswer
    by_cases hprivate : (records.any fun r => (h.withPrivate s).privateAddr r.rdata) = true
    · rw [if_pos hprivate]
      exact ⟨goodReply_error msg _, hc⟩
    · rw [if_neg hprivate]
      have hgood : ∀ r ∈ records, Good s r := by
        refine hfwd.resolve_left ?_
        rintro ⟨r, hr, hbad⟩
        exact hprivate (any_eq_true.mpr ⟨r, hr, hbad⟩)
      have hclamped : ∀ r ∈ records.map (clampTtl h.cache), Good s r := good_clampTtl hgood
      have hbase := good_answerOf hclamped msg NOERROR
      refine ⟨⟨_, _, rfl, hbase⟩, ?_, ?_, ?_⟩
      · exact shared_of_entry hc.shared hbase fun k e => lookup_maybeCacheWire
      · simp only
        split_ifs
        · exact forwardDoCachePut_clean hclamped hc.forwardDo
        · exact hc.forwardDo
      · simp only
        split_ifs
        · exact storeStaleWire_clean hclamped hc.stale
        · exact hc.stale
  | negative rc negTtl soa =>
    have hbase : GoodMessage s _ := good_negativeOf hfwd msg rc false
    exact ⟨goodReply_encode hbase,
      shared_of_entry hc.shared hbase fun k e => lookup_maybeCacheNegative, hc.forwardDo, hc.stale⟩
  | servfail =>
    unfold serveResult
    simp only
    split
    · rename_i stale hstale
      obtain ⟨cfg, -, hstale⟩ := Option.bind_eq_some_iff.mp hstale
      exact ⟨goodReply_encode (good_answerOf (tryStaleWire_clean hc.stale hstale) msg _), hc⟩
    · exact ⟨goodReply_error msg _, hc⟩

theorem forwardReply_clean {reply : Option (Bytes × Bool)}
    (hok : ∀ wire authed m, reply = some (wire, authed) → Message.parse wire = .ok m →
      CleanForwarded s m) :
    CleanResult s (forwardReply reply) := by
  cases reply with
  | none => trivial
  | some w =>
    obtain ⟨wire, authed⟩ := w
    show CleanResult s (parseResponse wire authed)
    unfold parseResponse
    cases hm : Message.parse wire with
    | error err => trivial
    | ok m =>
      have hwire := wireOk_of_parse hm
      have hneg : ∀ r ∈ m.authority.filter (isZoneSoa m), r.rdata.wireOk := fun r hr =>
        hwire r (by simp [(mem_filter.mp hr).1])
      simp only
      split_ifs with hno hempty hnx
      · exact hneg
      · exact (hok wire authed m rfl hm hno).imp_right fun hgood r hr =>
          ⟨hgood r hr, hwire r (by simp [hr])⟩
      · exact hneg
      · trivial

theorem serveForward_clean {fwd : ResolveResult} (hc : CleanCaches s c) (hfwd : CleanResult s fwd) :
    Cleans s (CleanCaches s) (serveForward (h.withPrivate s) instant now msg q fwd c) := by
  unfold serveForward
  have hget : CleanHit s
      (if msg.doBit then forwardDoCacheGet (instant * nanos) (q.name.key, q.qtype) c.forwardDo
        else (none, c.forwardDo)) := by
    split_ifs
    · exact forwardDoCacheGet_clean hc.forwardDo
    · exact ⟨by simp, hc.forwardDo⟩
  generalize ite (msg.doBit = true) _ _ = hit at hget
  obtain ⟨served, after⟩ := hit
  have hc' : CleanCaches s { c with forwardDo := after } := ⟨hc.shared, hget.kept, hc.stale⟩
  cases served with
  | none => exact serveResult_clean hc' hfwd
  | some w => exact ⟨⟨_, _, rfl, good_answerOf (hget.served w rfl) msg NOERROR⟩, hc'⟩

/-- One query from clean caches with a clean supply: it leaves clean caches, and what it sends
    from upstream is clean. -/
theorem serveWire_clean {a : Arrival} (hc : CleanCaches s c)
    (hp : a.resolution.AllParsed) (hok : CleanSupply s a) :
    CleanCaches s (serveWire (h.withPrivate s) a c).2 ∧
      ∀ b, a.early = none → (serveWire (h.withPrivate s) a c).1 = some b → GoodReply s b := by
  unfold serveWire
  cases hm : Message.parse a.query with
  | error err => exact ⟨hc, nofun⟩
  | ok msg =>
    cases hq : msg.firstQuestion with
    | none => simp [hq, hc]
    | some q =>
      cases he : a.early with
      | some resp => simp [hq, hc]
      | none =>
        obtain ⟨hrec, hfwd⟩ := hok msg q hm hq he
        cases hr : a.resolution with
        | recursion resolved =>
          rw [hr] at hp
          obtain ⟨hreply, hshared⟩ : Cleans s (CleanShared s)
              (serveRecursion h.hw h.cache a.instant msg q resolved c.shared) :=
            serveRecursion_clean hp (fun val hval => hrec val (by rw [hr, hval])) hc.shared
          simp only [hq]
          refine ⟨⟨hshared, hc.forwardDo, hc.stale⟩, fun b _ hb => ?_⟩
          cases hb
          exact hreply
        | forward reply =>
          have hresult : CleanResult s (forwardReply reply) :=
            forwardReply_clean fun wire authed m hw => hfwd wire authed m (by rw [hr, hw])
          obtain ⟨hreply, hafter⟩ : Cleans s (CleanCaches s)
              (serveForward (h.withPrivate s) a.instant a.now msg q (forwardReply reply) c) :=
            serveForward_clean hc hresult
          simp only [hq]
          refine ⟨hafter, fun b _ hb => ?_⟩
          cases hb
          exact hreply

end

/-! ## Histories -/

/-- The caches after a history of queries, from empty ones. -/
def runCaches (h : Handler) (as : List Arrival) : Caches :=
  as.foldl (fun c a => (serveWire h a c).2) {}

/-- Throughout the history, no response that comes from upstream holds a private address:
    neither what a query is answered, nor what the fast path copies out of a snapshot of the
    shared cache. -/
structure RunClean (h : Handler) (s : PrivateAddressSet) (as : List Arrival) : Prop where
  fresh : ∀ before a after, as = before ++ a :: after → a.early = none →
    ∀ b, (serveWire (h.withPrivate s) a (runCaches (h.withPrivate s) before)).1 = some b →
      b.length < 65536 → CleanOctets s b
  cached : ∀ before after, as = before ++ after →
    ∀ (Ip : Type) (acc : Access Ip) (src : Option Ip) (txLen now : ℕ) (snap : CacheMap)
      (b r : Bytes), txLen < 65536 →
      (∀ k e, snap.lookup k = some e →
        (runCaches (h.withPrivate s) before).shared.lookup k = some e) →
      answerFromCache h.hw acc src txLen now snap b = some r → CleanOctets s r

theorem runCaches_clean {as : List Arrival}
    (hp : ∀ a ∈ as, a.resolution.AllParsed) (hok : ∀ a ∈ as, CleanSupply s a) :
    CleanCaches s (runCaches (h.withPrivate s) as) := by
  refine List.foldlRecOn (motive := CleanCaches s) as _ ⟨nofun, nofun, nofun⟩ ?_
  intro c hc a ha
  exact (serveWire_clean hc (hp a ha) (hok a ha)).1

theorem runClean_of_supply (h : Handler) {as : List Arrival}
    (hp : ∀ a ∈ as, a.resolution.AllParsed) (hok : ∀ a ∈ as, CleanSupply s a) :
    RunClean h s as := by
  have hclean : ∀ before after, as = before ++ after →
      CleanCaches s (runCaches (h.withPrivate s) before) := by
    intro before after heq
    exact runCaches_clean (fun a ha => hp a (by simp [heq, ha]))
      fun a ha => hok a (by simp [heq, ha])
  constructor
  · intro before a after heq he b hb hlen
    have ha : a ∈ as := by simp [heq]
    exact ((serveWire_clean (hclean before _ heq) (hp a ha) (hok a ha)).2 b he hb).cleanOctets hlen
  · intro before after heq Ip acc src txLen now snap b r htx hsnap hans
    obtain ⟨name, qtype, pos, e, -, -, -, hl, -, -, -, hle, rfl⟩ :=
      answerFromCache_eq_some_iff.mp hans
    obtain ⟨m, hm, hgood⟩ := (hclean before after heq).shared _ e (hsnap _ e hl)
    rw [hm] at hle ⊢
    exact cleanOctets_copyOut hgood (by omega) b

/-! ## One query alone -/

section

variable {h : Handler} {a : Arrival}

/-- A reply that is read back: its records are clean if its octets are. -/
theorem forbidden_of_cleanOctets {msg : Message} {on : Bool} (hw : ∀ r ∈ records, r.rdata.wireOk)
    (hlen : (markAd on (wireAnswer msg records NOERROR)).length < 65536)
    (hclean : CleanOctets s (markAd on (wireAnswer msg records NOERROR))) :
    ∀ r ∈ records, forbidden s r.rdata = false := by
  have hok : (answerOf msg records NOERROR).WireOk := by
    intro r hr
    simp only [answerOf, append_nil, mem_append] at hr
    rcases hr with hr | hr
    · exact hw r hr
    · rw [(echoOf_root hr).2.2]
      trivial
  obtain ⟨header, hmark, hsize⟩ := markAd_encode on (answerOf msg records NOERROR)
  rw [wireAnswer, hmark, hsize] at hlen
  intro r hr
  exact (cleanOctets_markAd_iff hok hlen on).mp hclean r (by simp [received, answerOf, hr])

theorem forbidden_clampTtl {cfg : CacheCfg}
    (h : ∀ r ∈ records.map (clampTtl cfg), forbidden s r.rdata = false) :
    ∀ r ∈ records, forbidden s r.rdata = false :=
  fun r hr => h (clampTtl cfg r) (mem_map_of_mem hr)

theorem supply_of_fresh (hp : a.resolution.AllParsed)
    (hfits : ∀ b, (serveWire (h.withPrivate s) a {}).1 = some b → b.length < 65536)
    (hclean : RunClean h s [a]) : CleanSupply s a := by
  intro msg q hm hq he
  have hfresh : ∀ b, (serveWire (h.withPrivate s) a {}).1 = some b →
      b.length < 65536 ∧ CleanOctets s b := fun b hb =>
    ⟨hfits b hb, hclean.fresh [] a [] rfl he b hb (hfits b hb)⟩
  constructor
  · intro val hval
    rw [hval] at hp
    by_cases hbogus : val.verdict = .bogus ∧ msg.header.cd = false
    · exact Or.inl hbogus
    by_cases hnx : val.rcode = NXDOMAIN
    · exact Or.inr (Or.inl hnx)
    by_cases hempty : val.records = []
    · exact Or.inr (Or.inr (Or.inl hempty))
    refine Or.inr (Or.inr (Or.inr ?_))
    have hserve : (serveWire (h.withPrivate s) a {}).1 =
        some (servePositive h.hw h.cache a.instant msg q val ∅).1 := by
      simp [serveWire, hm, hq, he, hval, serveRecursion, hbogus, hnx, hempty, Handler.withPrivate]
    obtain ⟨hlen, hoctets⟩ := hfresh _ hserve
    unfold servePositive at hlen hoctets
    by_cases hdo : msg.doBit = true ∧ val.answerRrsigs ≠ []
    · simp only [if_pos hdo, ← map_append] at hlen hoctets
      rw [if_pos hdo.1]
      refine forbidden_clampTtl (forbidden_of_cleanOctets ?_ hlen hoctets)
      exact forall_mem_map.mpr fun r hr => hp r (mem_append_left _ hr)
    · simp only [if_neg hdo] at hlen hoctets
      have hnone : (if msg.doBit then val.answerRrsigs else []) = [] := by
        by_cases hbit : msg.doBit = true
        · rw [if_pos hbit]
          exact not_not.mp fun hne => hdo ⟨hbit, hne⟩
        · rw [if_neg hbit]
      rw [hnone, append_nil]
      refine forbidden_clampTtl (forbidden_of_cleanOctets ?_ hlen hoctets)
      exact forall_mem_map.mpr fun r hr => hp r (by simp [hr])
  · intro wire authed m hwire hmw hno
    by_cases hprivate : ∃ r ∈ m.answers, isPrivate s r.rdata = true
    · exact Or.inl hprivate
    refine Or.inr ?_
    by_cases hempty : m.answers = []
    · simp [hempty]
    have hpass : (m.answers.any fun r => isPrivate s r.rdata) = false := by
      simpa using hprivate
    have hserve : (serveWire (h.withPrivate s) a {}).1 =
        some (markAd ((m.header.ad && authed) && (msg.header.ad || msg.doBit))
          (wireAnswer msg (m.answers.map (clampTtl h.cache)) NOERROR)) := by
      have hreply : forwardReply (some (wire, authed)) =
          .answer m.answers (m.header.ad && authed) := by
        simp [forwardReply, parseResponse, hmw, hno, hempty]
      have hmiss : forwardDoCacheGet (a.instant * nanos) (q.name.key, q.qtype) ∅ = (none, ∅) := rfl
      simp only [serveWire, hm, hq, he, hwire, hreply, serveForward, hmiss, ite_self, serveResult,
        serveAnswer]
      rw [if_neg (by simpa [Handler.withPrivate] using hpass)]
      rfl
    obtain ⟨hlen, hoctets⟩ := hfresh _ hserve
    refine forbidden_clampTtl (forbidden_of_cleanOctets ?_ hlen hoctets)
    exact forall_mem_map.mpr fun r hr => wireOk_of_parse hmw r (by simp [hr])

end

/-- No response of any history holds a private address if all supplies are clean; and one query
    alone is answered without one exactly if its supply is clean. -/
theorem rebinding_blocked (h : Handler) (s : PrivateAddressSet) :
    (∀ as : List Arrival, (∀ a ∈ as, a.resolution.AllParsed) → (∀ a ∈ as, CleanSupply s a) →
      RunClean h s as) ∧
    (∀ a : Arrival, a.resolution.AllParsed →
      (∀ b, (serveWire (h.withPrivate s) a {}).1 = some b → b.length < 65536) →
      (RunClean h s [a] ↔ CleanSupply s a)) := by
  refine ⟨fun as hp hok => runClean_of_supply h hp hok, fun a hp hfits => ?_⟩
  constructor
  · intro hclean
    exact supply_of_fresh hp hfits hclean
  · intro hok
    exact runClean_of_supply h (forall_mem_singleton.mpr hp) (forall_mem_singleton.mpr hok)

/-! ## Private addresses that pass -/

/-- The block 10.0.0.0/8. -/
def private10 : PrivateAddressSet := [⟨.v4 ![10, 0, 0, 0], 8, by decide⟩]

/-- The resolver returned `a. A 10.0.0.1`. -/
def resolved10 : Validated where
  records := [Record.address Local.nameA 300 ![10, 0, 0, 1]]
  answerRrsigs := []
  authority := []
  rcode := NOERROR
  verdict := .insecure

/-- The query `a. A`, resolved by the resolver. -/
def arrivalResolved : Arrival := { arrivalUpper with
  query := askLower
  resolution := .recursion (some resolved10) }

/-- The address `::ffff:10.0.0.1`. -/
def mapped10 : Fin 16 → Byte := ![0, 0, 0, 0, 0, 0, 0, 0, 0, 0, 255, 255, 10, 0, 0, 1]

/-- The reply `a. AAAA ::ffff:10.0.0.1`. -/
def replyMapped : Bytes :=
  [0, 7, 129, 128, 0, 1, 0, 1, 0, 0, 0, 0] ++ [1, 97, 0, 0, 28, 0, 1] ++
    [192, 12, 0, 28, 0, 1, 0, 0, 1, 44, 0, 16] ++ List.ofFn mapped10

/-- The query `a. AAAA`, forwarded. -/
def arrivalMapped : Arrival := { arrivalUpper with
  query := [0, 7, 1, 0, 0, 1, 0, 0, 0, 0, 0, 0] ++ [1, 97, 0, 0, 28, 0, 1]
  resolution := .forward (some (replyMapped, false)) }

/-- The public address of `arrivalUpper` is a clean supply. -/
theorem rebinding_blocked_upper :
    arrivalUpper.resolution.AllParsed ∧ CleanSupply private10 arrivalUpper ∧
      RunClean plainHandler private10 [arrivalUpper] := by
  have hsupply : CleanSupply private10 arrivalUpper := by
    intro msg q hm hq he
    refine ⟨nofun, fun wire authed m hwire hmw hno => Or.inr ?_⟩
    obtain ⟨rfl, rfl⟩ : replyUpper = wire ∧ false = authed := by
      simpa [arrivalUpper] using hwire
    obtain ⟨m', hm', hall⟩ := exists_parse_of_any (b := replyUpper)
      (p := fun m => m.answers.all fun r => !forbidden private10 r.rdata) (by decide +kernel)
    obtain rfl := Except.ok.inj (hm'.symm.trans hmw)
    simpa using hall
  exact ⟨trivial, hsupply, (rebinding_blocked plainHandler private10).1 [arrivalUpper]
    (forall_mem_singleton.mpr trivial) (forall_mem_singleton.mpr hsupply)⟩

/-- The first query is answered with a private address. -/
def servesPrivate (h : Handler) (s : PrivateAddressSet) (a : Arrival) : Bool :=
  (serveWire (h.withPrivate s) a {}).1.any fun b => b.length < 65536 &&
    (Message.parse b).toOption.any fun m => (received m).any fun r => forbidden s r.rdata

theorem not_runClean {a : Arrival} (he : a.early = none)
    (hserves : servesPrivate h s a = true) : ¬ RunClean h s [a] := by
  intro hclean
  obtain ⟨b, hb, hbad⟩ := (Option.any_eq_true _ _).mp hserves
  obtain ⟨hlen, hbad⟩ := Bool.and_eq_true_iff.mp hbad
  obtain ⟨m, hm, hbad⟩ := exists_parse_of_any hbad
  obtain ⟨r, hr, hbad⟩ := any_eq_true.mp hbad
  have hgood := hclean.fresh [] a [] rfl he b hb (of_decide_eq_true hlen) m hm r hr
  exact absurd (hbad.symm.trans hgood) nofun

/-- The resolver's 10.0.0.1 is served, and so is a forwarded `::ffff:10.0.0.1`. -/
theorem private_served :
    servesPrivate plainHandler private10 arrivalResolved = true ∧
      ¬ RunClean plainHandler private10 [arrivalResolved] ∧
      canonicalIp (.v6 mapped10) = .v4 ![10, 0, 0, 1] ∧
      servesPrivate plainHandler private10 arrivalMapped = true ∧
      ¬ RunClean plainHandler private10 [arrivalMapped] := by
  have hresolved : servesPrivate plainHandler private10 arrivalResolved = true := by
    decide +kernel
  have hmapped : servesPrivate plainHandler private10 arrivalMapped = true := by
    decide +kernel
  exact ⟨hresolved, not_runClean rfl hresolved, by decide, hmapped, not_runClean rfl hmapped⟩

end Runbound.Server
