import Runbound.Local.Serve
import Runbound.Recursor.Validated

/-!
# Serving a query (`dns/server.rs`, `dns/forward.rs`)

The last stages of `serve_wire`: what it answers once the query was not answered by an
earlier one (access, rate limits, local zones), in full recursion and in forwarding
mode, and what it stores. The earlier stages touch none of the caches modelled here.

* `serveRecursion`: from a result of the validating resolver.
* `parseResponse`, `forwardDoCacheGet`, `forwardDoCachePut`, `serveForward`: from the reply
  of an upstream server.
* `serveWire_stores`: what a query can leave in the shared cache.
-/

namespace Runbound.Server

open Wire FastPath Local Lib Recursor Rtype Rcode

/-! ## Responses -/

/-- The header of a response (dns/server.rs:1140-1151). -/
def responseHeader (req : Message) (rc : U16) : Header :=
  ({ id := req.header.id } : Header) |>.setQr true |>.setRd req.header.rd |>.setRa true
    |>.setRcodeLow rc

/-- The message of `wire_answer`; the OPT record is that of the serving core. -/
def answerOf (req : Message) (records : List Record) (rc : U16) : Message where
  header := responseHeader req rc
  questions := req.questions
  answers := records
  additional := echoOf req

/-- `wire_answer` (dns/server.rs:1133). -/
def wireAnswer (req : Message) (records : List Record) (rc : U16) : Bytes :=
  (answerOf req records rc).encode

/-- Is the record one of the denial of existence? -/
def isDenial (r : Record) : Bool := r.rtype = NSEC || r.rtype = NSEC3 || r.rtype = RRSIG

section

variable (req : Message) (rc : U16) (authority : List Record) (doBit : Bool)

/-- The message of `wire_negative`. -/
def negativeOf : Message where
  header := responseHeader req rc
  questions := req.questions
  authority := authority.filter fun r => r.rtype = SOA || (doBit && isDenial r)
  additional := echoOf req

/-- `wire_negative` (dns/server.rs:1175). -/
def wireNegative : Bytes := (negativeOf req rc authority doBit).encode

end

/-- `wire_error` (dns/server.rs:1224). -/
def wireError (req : Message) (rc : U16) : Bytes := wireAnswer req [] rc

/-- `resp[3] |= 0x20`, the AD bit. -/
def markAd (on : Bool) (resp : Bytes) : Bytes :=
  if on ∧ resp.length > 3 then resp.modify 3 fun x => Fin.ofNat 256 (x.val ||| 0x20) else resp

/-- `neg_ttl_from_soa` (dns/server.rs:41). -/
def negTtlFromSoa (authority : List Record) : U32 :=
  (authority.findSome? fun r =>
    match r.rdata with
    | .soa _ _ _ _ _ _ minimum => some (min minimum r.ttl)
    | _ => none).getD 0

/-- `r.ttl.max(cache_min_ttl).min(cache_max_ttl)`. -/
def clampTtl (cfg : CacheCfg) (r : Record) : Record :=
  { r with ttl := min (max r.ttl cfg.minTtl) cfg.maxTtl }

/-! ## Full recursion -/

section Recursion

variable (hw : Bool) (cfg : CacheCfg) (instant : ℕ) (msg : Message) (q : Question)

/-- A negative result: the response, and its form without DNSSEC records for the cache, unless
    the result is bogus (dns/server.rs:866-887, :891-903). -/
def serveNegative (rc : U16) (val : Validated) (cache : CacheMap) : Bytes × CacheMap :=
  (markAd (val.verdict = .secure && msg.doBit) (wireNegative msg rc val.authority msg.doBit),
    if val.verdict = .bogus then cache
    else maybeCacheNegative hw cfg instant q (wireNegative msg rc val.authority false)
      (negTtlFromSoa val.authority) cache)

/-- An answer: with its signatures if the client set DO, and without for the cache, unless the
    result is bogus (dns/server.rs:911-944). -/
def servePositive (val : Validated) (cache : CacheMap) : Bytes × CacheMap :=
  let records := val.records.map (clampTtl cfg)
  let base := wireAnswer msg records NOERROR
  let resp :=
    if msg.doBit ∧ val.answerRrsigs ≠ [] then
      wireAnswer msg (records ++ val.answerRrsigs.map (clampTtl cfg)) NOERROR
    else base
  (markAd (val.verdict = .secure && msg.doBit) resp,
    if val.verdict = .bogus then cache
    else maybeCacheWire hw cfg instant q base records cache)

/-- The full-recursion stage (dns/server.rs:828-963). `resolved` is the result of
    `resolve_validated`, or `none` after the deadline. -/
def serveRecursion (resolved : Option Validated) (cache : CacheMap) : Bytes × CacheMap :=
  match resolved with
  | none => (wireError msg SERVFAIL, cache)
  | some val =>
    if val.verdict = .bogus ∧ msg.header.cd = false then (wireError msg SERVFAIL, cache)
    else if val.rcode = NXDOMAIN then
      serveNegative hw cfg instant msg q NXDOMAIN val cache
    else if val.records = [] then serveNegative hw cfg instant msg q NOERROR val cache
    else servePositive hw cfg instant msg q val cache

end Recursion

/-! ## The reply of an upstream server -/

/-- `ResolveResult` (dns/forward.rs:43). -/
inductive ResolveResult
  | answer (records : List Record) (authenticated : Bool)
  | negative (rcode : U16) (negTtl : U32) (soa : List Record)
  | servfail

/-- A SOA record whose zone encloses the question (`zone_soas`, dns/forward.rs:666). -/
def isZoneSoa (msg : Message) (r : Record) : Bool :=
  match r.rdata, msg.questions.head? with
  | .soa .., some q => q.name.isInZone r.name
  | _, _ => false

/-- `soa_min_ttl` (dns/forward.rs:645), 0 if there is none. -/
def soaMinTtl (msg : Message) : U32 :=
  (msg.authority.findSome? fun r =>
    match r.rdata with
    | .soa _ _ _ _ _ _ minimum => if isZoneSoa msg r then some (min minimum r.ttl) else none
    | _ => none).getD 0

/-- `parse_response` (dns/forward.rs:600). -/
def parseResponse (wire : Bytes) (authedChannel : Bool) : ResolveResult :=
  match Message.parse wire with
  | .error _ => .servfail
  | .ok msg =>
    if msg.header.rcodeLow = NOERROR then
      if msg.answers = [] then
        .negative NOERROR (soaMinTtl msg) (msg.authority.filter (isZoneSoa msg))
      else .answer msg.answers (msg.header.ad && authedChannel)
    else if msg.header.rcodeLow = NXDOMAIN then
      .negative NXDOMAIN (soaMinTtl msg) (msg.authority.filter (isZoneSoa msg))
    else .servfail

/-! ## The cache of answers with signatures -/

/-- `CachedForward` (dns/forward.rs:738); instants in nanoseconds. -/
structure CachedForward where
  records : List Record
  authenticated : Bool
  insertedAt : ℕ
  expiresAt : ℕ

/-- `FORWARD_DO_CACHE`; names compare without case. -/
abbrev ForwardDoCache := Map (List Bytes × U16) CachedForward

/-- `FORWARD_DO_CACHE_TTL_CAP` (dns/forward.rs:729). -/
def forwardDoCacheTtlCap : U32 := 86400

/-- `FORWARD_DO_CACHE_MAX` (dns/forward.rs:733). -/
def forwardDoCacheMax : ℕ := 100000

/-- The records as they are served after `elapsed` seconds with `remaining` left, if none of
    them has expired (dns/forward.rs:802-823). -/
def decayed (elapsed remaining : U32) : List Record → Option (List Record)
  | [] => some []
  | r :: rs =>
    if elapsed < r.ttl then
      let ttl := min (r.ttl - elapsed) remaining
      if ttl = 0 then none else (decayed elapsed remaining rs).map ({ r with ttl } :: ·)
    else none

/-- `min(u64::from(u32::MAX)) as u32`. -/
def saturate (n : ℕ) : U32 := Fin.ofNat _ (min n u32Max.val)

/-- `forward_do_cache_get` (dns/forward.rs:790). -/
def forwardDoCacheGet (instant : ℕ) (key : List Bytes × U16) (c : ForwardDoCache) :
    Option (List Record × Bool) × ForwardDoCache :=
  match c.lookup key with
  | none => (none, c)
  | some hit =>
    let served :=
      if hit.expiresAt > instant then
        decayed (saturate ((instant - hit.insertedAt) / nanos))
          (saturate ((hit.expiresAt - instant) / nanos)) hit.records
      else none
    match served with
    | some records => (some (records, hit.authenticated), c)
    | none => (none, c.erase key)

/-- Lifetime of an entry, 0 if it must not be kept (dns/forward.rs:848-868). -/
def forwardDoTtl (records : List Record) (now : U32) : U32 :=
  let rrsigLeft := (nearestRrsigSecs records [] now).getD u32Max
  let ttl := min ((records.map Record.ttl).foldl min u32Max) rrsigLeft
  min (if ttl = u32Max then forwardDoCacheTtlCap else ttl) forwardDoCacheTtlCap

/-- `forward_do_cache_put` (dns/forward.rs:840). -/
def forwardDoCachePut (instant : ℕ) (now : U32) (key : List Bytes × U16) (records : List Record)
    (authenticated : Bool) (c : ForwardDoCache) : ForwardDoCache :=
  if forwardDoTtl records now = 0 then c
  else if c.keys.length ≥ forwardDoCacheMax ∧ key ∉ c then c
  else
    c.insert key ⟨records, authenticated, instant, instant + (forwardDoTtl records now).val * nanos⟩

/-! ## Stale answers -/

/-- `stale_cache_wire`: the last good answer of a name in lower case, and when it was stored. -/
abbrev StaleCache := Map (Bytes × U16) (List Record × ℕ)

/-- `store_stale_wire` (dns/server.rs:443): the oldest entry makes room. -/
def storeStaleWire (maxEntries instant : ℕ) (key : Bytes × U16) (records : List Record)
    (c : StaleCache) : StaleCache :=
  if records = [] then c
  else
    let c :=
      if c.keys.length ≥ maxEntries then
        match c.entries.argmin fun e => e.2.2 with
        | some old => c.erase old.1
        | none => c
      else c
    c.insert key (records, instant)

/-- `stale_max_age` and `stale_answer_ttl` of the handler. -/
structure StaleCfg where
  maxAge : ℕ
  answerTtl : U32

/-- `try_stale_wire` (dns/server.rs:463). -/
def tryStaleWire (cfg : StaleCfg) (instant : ℕ) (key : Bytes × U16) (c : StaleCache) :
    Option (List Record) :=
  match c.lookup key with
  | none => none
  | some (records, storedAt) =>
    if instant - storedAt > cfg.maxAge ∨ records = [] then none
    else some (records.map fun r => { r with ttl := cfg.answerTtl })

/-! ## Forwarding -/

/-- The settings of the handler. `privateAddr` is `private_addrs.contains`; `stale` is `none`
    without serve-stale. -/
structure Handler where
  hw : Bool
  cache : CacheCfg
  privateAddr : Rdata → Bool
  stale : Option StaleCfg

/-- The caches `serve_wire` reads and writes when it resolves a query. -/
structure Caches where
  shared : CacheMap := ∅
  forwardDo : ForwardDoCache := ∅
  stale : StaleCache := ∅

section Forwarding

variable (h : Handler) (instant : ℕ) (now : U32) (msg : Message) (q : Question)

/-- `ResolveResult::Answer` (dns/server.rs:1021-1087). -/
def serveAnswer (records : List Record) (authenticated : Bool) (s : Caches) : Bytes × Caches :=
  if records.any fun r => h.privateAddr r.rdata then (wireError msg SERVFAIL, s)
  else
    let records := records.map (clampTtl h.cache)
    let resp := wireAnswer msg records NOERROR
    (markAd (authenticated && (msg.header.ad || msg.doBit)) resp,
      { shared := maybeCacheWire h.hw h.cache instant q resp records s.shared
        stale := if h.stale.isSome then
            storeStaleWire h.cache.maxEntries instant (lower q.name.toAscii, q.qtype) records
              s.stale
          else s.stale
        forwardDo := if msg.doBit then
            forwardDoCachePut (instant * nanos) now (q.name.key, q.qtype) records authenticated
              s.forwardDo
          else s.forwardDo })

/-- What follows the reply of the upstream servers (dns/server.rs:1020-1128). -/
def serveResult (fwd : ResolveResult) (s : Caches) : Bytes × Caches :=
  match fwd with
  | .answer records authenticated => serveAnswer h instant now msg q records authenticated s
  | .negative rc negTtl soa =>
    let resp := wireNegative msg rc soa false
    (resp, { s with shared := maybeCacheNegative h.hw h.cache instant q resp negTtl s.shared })
  | .servfail =>
    match h.stale.bind fun cfg =>
        tryStaleWire cfg instant (lower q.name.toAscii, q.qtype) s.stale with
    | some stale => (wireAnswer msg stale NOERROR, s)
    | none => (wireError msg SERVFAIL, s)

/-- The forwarding stage (dns/server.rs:965-1128). `fwd` is what the pool returns if it is
    asked. -/
def serveForward (fwd : ResolveResult) (s : Caches) : Bytes × Caches :=
  let hit := if msg.doBit then forwardDoCacheGet (instant * nanos) (q.name.key, q.qtype) s.forwardDo
    else (none, s.forwardDo)
  let s := { s with forwardDo := hit.2 }
  match hit.1 with
  | some (records, authenticated) =>
    (markAd authenticated (wireAnswer msg records NOERROR), s)
  | none => serveResult h instant now msg q fwd s

end Forwarding

/-! ## A query -/

/-- What resolves a query that no earlier stage answered: the resolver, or the reply of the
    upstream server that was first, with whether its channel was authenticated. -/
inductive Resolution
  | recursion (resolved : Option Validated)
  | forward (reply : Option (Bytes × Bool))

/-- A query as it arrives. `early` is what the stages before resolution return, `none` if they
    let the query pass (dns/server.rs:515-826). -/
structure Arrival where
  query : Bytes
  early : Option (Option Bytes)
  instant : ℕ
  now : U32
  resolution : Resolution

/-- `ForwardPool::forward` (dns/forward.rs:396) on the first reply, if there is one. -/
def forwardReply (reply : Option (Bytes × Bool)) : ResolveResult :=
  reply.elim .servfail fun r => parseResponse r.1 r.2

/-- `serve_wire` (dns/server.rs:507). -/
def serveWire (h : Handler) (a : Arrival) (s : Caches) : Option Bytes × Caches :=
  match Message.parse a.query with
  | .error _ => (none, s)
  | .ok msg =>
    match msg.firstQuestion with
    | none => (none, s)
    | some q =>
      match a.early with
      | some resp => (resp, s)
      | none =>
        match a.resolution with
        | .recursion resolved =>
          let r := serveRecursion h.hw h.cache a.instant msg q resolved s.shared
          (some r.1, { s with shared := r.2 })
        | .forward reply =>
          let r := serveForward h a.instant a.now msg q (forwardReply reply) s
          (some r.1, r.2)

/-! ## What is stored -/

/-- The responses to `msg` that are stored for a resolution: an answer, or a negative one in
    the form without DNSSEC records, and nothing that is bogus or comes with an error. -/
inductive StoredFor (cfg : CacheCfg) (msg : Message) : Resolution → Message → Prop
  | recursion {val : Validated} (hv : val.verdict ≠ .bogus) :
      StoredFor cfg msg (.recursion (some val))
        (answerOf msg (val.records.map (clampTtl cfg)) NOERROR)
  | recursionNegative {val : Validated} {rc : U16} (hv : val.verdict ≠ .bogus)
      (hrc : val.rcode = NXDOMAIN ∨ val.records = []) :
      StoredFor cfg msg (.recursion (some val)) (negativeOf msg rc val.authority false)
  | forward {wire : Bytes} {authed : Bool} {m : Message} (hm : Message.parse wire = .ok m)
      (hrc : m.header.rcodeLow = NOERROR) :
      StoredFor cfg msg (.forward (some (wire, authed)))
        (answerOf msg (m.answers.map (clampTtl cfg)) NOERROR)
  | forwardNegative {wire : Bytes} {authed : Bool} {m : Message} {rc : U16}
      (hm : Message.parse wire = .ok m) :
      StoredFor cfg msg (.forward (some (wire, authed)))
        (negativeOf msg rc (m.authority.filter (isZoneSoa m)) false)

section Stores

variable {hw : Bool} {cfg : CacheCfg} {instant : ℕ} {q : Question} {resp : Bytes} {cache : CacheMap}
  {k : U64} {e : CacheEntry}

/-- The entry of a response to `q`. -/
structure EntryOf (hw : Bool) (q : Question) (resp : Bytes) (k : U64) (e : CacheEntry) : Prop where
  key : k = cacheKey hw (lower q.name.wire) q.qtype
  name : e.wireQname = lower q.name.wire
  payload : e.wirePayload = resp

theorem lookup_storeFor {ttl : U32}
    (h : (storeFor hw cfg instant q resp ttl cache).lookup k = some e) :
    EntryOf hw q resp k e ∨ cache.lookup k = some e := by
  rcases lookup_cacheInsert h with ⟨hk, rfl⟩ | h
  · exact Or.inl ⟨hk, rfl, rfl⟩
  · exact Or.inr h

theorem lookup_maybeCacheWire {records : List Record}
    (h : (maybeCacheWire hw cfg instant q resp records cache).lookup k = some e) :
    EntryOf hw q resp k e ∨ cache.lookup k = some e := by
  unfold maybeCacheWire at h
  split_ifs at h
  · exact Or.inr h
  · exact lookup_storeFor h

theorem lookup_maybeCacheNegative {negTtl : U32}
    (h : (maybeCacheNegative hw cfg instant q resp negTtl cache).lookup k = some e) :
    EntryOf hw q resp k e ∨ cache.lookup k = some e := by
  unfold maybeCacheNegative at h
  split_ifs at h
  · exact Or.inr h
  · exact lookup_storeFor h

variable {msg : Message}

theorem lookup_serveRecursion {resolved : Option Validated}
    (h : (serveRecursion hw cfg instant msg q resolved cache).2.lookup k = some e) :
    cache.lookup k = some e ∨
      ∃ m, StoredFor cfg msg (.recursion resolved) m ∧ EntryOf hw q m.encode k e := by
  unfold serveRecursion at h
  cases resolved with
  | none => exact Or.inl h
  | some val =>
    have hneg : ∀ rc, (val.rcode = NXDOMAIN ∨ val.records = []) →
        (serveNegative hw cfg instant msg q rc val cache).2.lookup k = some e →
        cache.lookup k = some e ∨
          ∃ m, StoredFor cfg msg (.recursion (some val)) m ∧ EntryOf hw q m.encode k e := by
      intro rc hrc h
      unfold serveNegative at h
      split_ifs at h with hv
      · exact Or.inl h
      · rcases lookup_maybeCacheNegative h with h | h
        · exact Or.inr ⟨_, .recursionNegative hv hrc, h⟩
        · exact Or.inl h
    simp only at h
    split_ifs at h with hbogus hnx hempty
    · exact Or.inl h
    · exact hneg _ (Or.inl hnx) h
    · exact hneg _ (Or.inr hempty) h
    · unfold servePositive at h
      simp only at h
      by_cases hv : val.verdict = .bogus
      · rw [if_pos hv] at h
        exact Or.inl h
      · rw [if_neg hv] at h
        rcases lookup_maybeCacheWire h with h | h
        · exact Or.inr ⟨_, .recursion hv, h⟩
        · exact Or.inl h

theorem lookup_serveResult {h : Handler} {now : U32} {reply : Option (Bytes × Bool)} {s : Caches}
    (hl : (serveResult h instant now msg q (forwardReply reply) s).2.shared.lookup k = some e) :
    s.shared.lookup k = some e ∨
      ∃ m, StoredFor h.cache msg (.forward reply) m ∧ EntryOf h.hw q m.encode k e := by
  cases reply with
  | none =>
    left
    unfold forwardReply serveResult at hl
    simp only [Option.elim_none] at hl
    split at hl <;> exact hl
  | some r =>
    obtain ⟨wire, authed⟩ := r
    unfold forwardReply parseResponse at hl
    simp only [Option.elim_some] at hl
    cases hm : Message.parse wire with
    | error err =>
      left
      simp only [hm, serveResult] at hl
      split at hl <;> exact hl
    | ok m =>
      have hneg : ∀ rc negTtl, (serveResult h instant now msg q
          (.negative rc negTtl (m.authority.filter (isZoneSoa m))) s).2.shared.lookup k = some e →
          s.shared.lookup k = some e ∨
            ∃ m, StoredFor h.cache msg (.forward (some (wire, authed))) m ∧
            EntryOf h.hw q m.encode k e := by
        intro rc negTtl hl
        rcases lookup_maybeCacheNegative hl with hl | hl
        · exact Or.inr ⟨_, .forwardNegative hm, hl⟩
        · exact Or.inl hl
      simp only [hm] at hl
      split_ifs at hl with hno hempty hnx
      · exact hneg _ _ hl
      · unfold serveResult serveAnswer at hl
        simp only at hl
        by_cases hprivate : (m.answers.any fun r => h.privateAddr r.rdata) = true
        · rw [if_pos hprivate] at hl
          exact Or.inl hl
        · rw [if_neg hprivate] at hl
          rcases lookup_maybeCacheWire hl with hl | hl
          · exact Or.inr ⟨_, .forward hm hno, hl⟩
          · exact Or.inl hl
      · exact hneg _ _ hl
      · left
        unfold serveResult at hl
        simp only at hl
        split at hl <;> exact hl

/-- What a query can leave in the shared cache: what was there, or a response to it. -/
theorem serveWire_stores {h : Handler} {a : Arrival} {s : Caches}
    (hl : (serveWire h a s).2.shared.lookup k = some e) :
    s.shared.lookup k = some e ∨
      ∃ msg q m, Message.parse a.query = .ok msg ∧ msg.firstQuestion = some q ∧
        StoredFor h.cache msg a.resolution m ∧ EntryOf h.hw q m.encode k e := by
  unfold serveWire at hl
  cases hp : Message.parse a.query with
  | error err =>
    simp only [hp] at hl
    exact Or.inl hl
  | ok msg =>
    simp only [hp] at hl
    cases hq : msg.firstQuestion with
    | none =>
      simp only [hq] at hl
      exact Or.inl hl
    | some q =>
      simp only [hq] at hl
      cases he : a.early with
      | some resp =>
        simp only [he] at hl
        exact Or.inl hl
      | none =>
        simp only [he] at hl
        cases hr : a.resolution with
        | recursion resolved =>
          simp only [hr] at hl
          rcases lookup_serveRecursion hl with hl | ⟨m, hm, hl⟩
          · exact Or.inl hl
          · exact Or.inr ⟨msg, q, m, rfl, hq, hm, hl⟩
        | forward reply =>
          simp only [hr, serveForward] at hl
          split at hl
          · exact Or.inl hl
          · rcases lookup_serveResult hl with hl | ⟨m, hm, hl⟩
            · exact Or.inl hl
            · exact Or.inr ⟨msg, q, m, rfl, hq, hm, hl⟩

end Stores

end Runbound.Server
