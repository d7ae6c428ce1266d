import Runbound.Dnssec.Chain

/-!
# The validating resolver (`recursor_wire.rs`)

`resolveValidated` answers a query from the cache of validated answers or by
chasing CNAMEs, each hop validated on its own. `resolve_message` is the fetcher
of the chain walk (`ResolverFetcher`), so both are `Env.fetch`.

`Resolver.log` is a history variable: the replies the chase has judged, with the
state they were judged in. No definition reads it.
-/

namespace Runbound.Recursor

open Wire Dnssec Rtype

/-- `Validated` (recursor_wire.rs:656). -/
structure Validated where
  records : List Record
  answerRrsigs : List Record
  authority : List Record
  rcode : U16
  verdict : Verdict
  deriving DecidableEq

/-! ## The cache of validated answers -/

/-- `VALIDATED_CACHE_TTL_CAP` (recursor_wire.rs:699). -/
def validatedCacheTtlCap : U32 := 86400

/-- `VALIDATED_CACHE_MAX` (recursor_wire.rs:704). -/
def validatedCacheMax : ℕ := 100000

/-- `u32::MAX`. -/
def u32Max : U32 := 4294967295

/-- Nanoseconds in a second: the unit of `Instant`. -/
def nanos : ℕ := 1000000000

/-- `CachedValidated` (recursor_wire.rs:708). -/
structure CachedValidated where
  validated : Validated
  insertedAt : ℕ
  expiresAt : ℕ

/-- `dec` of `clone_decremented` (recursor_wire.rs:723-732). -/
def decTtls (elapsed : U32) : List Record → Option (List Record)
  | [] => some []
  | r :: rs =>
    if elapsed < r.ttl then
      (decTtls elapsed rs).map fun out => { r with ttl := r.ttl - elapsed } :: out
    else none

/-- `CachedValidated::clone_decremented` (recursor_wire.rs:722). -/
def CachedValidated.cloneDecremented (c : CachedValidated) (elapsed : U32) : Option Validated := do
  let records ← decTtls elapsed c.validated.records
  let answerRrsigs ← decTtls elapsed c.validated.answerRrsigs
  let authority ← decTtls elapsed c.validated.authority
  return { c.validated with records, answerRrsigs, authority }

/-- Seconds until one RRSIG expires (recursor_wire.rs:768-778). -/
def rrsigSecs (now : U32) (data : Bytes) : U32 :=
  match data.drop 8 with
  | e0 :: e1 :: e2 :: e3 :: _ =>
    let left := u32OfBe e0 e1 e2 e3 - now
    if left.val ≥ 0x80000000 then 0 else left
  | _ => 0

/-- `nearest_rrsig_secs` (recursor_wire.rs:759). -/
def nearestRrsigSecs (answerRrsigs authority : List Record) (now : U32) : Option U32 :=
  (((answerRrsigs ++ authority).filter fun r => r.rtype = RRSIG).filterMap
    fun r => r.rdata.data?.map (rrsigSecs now)).min?

/-- The lifetime `cache_validated` computes (recursor_wire.rs:789-801). -/
def cacheTtl (now : U32) (v : Validated) : U32 :=
  let ttls := ((v.records ++ v.authority).map Record.ttl).foldl min u32Max
  let ttls := match nearestRrsigSecs v.answerRrsigs v.authority now with
    | some s => min ttls s
    | none => ttls
  min (if ttls = u32Max then validatedCacheTtlCap else ttls) validatedCacheTtlCap

/-- `VALIDATED_CACHE`; keys compare without case. -/
abbrev ValidatedCache := List ((Name × U16) × CachedValidated)

section

variable (cache : ValidatedCache) (key : Name × U16)

/-- `VALIDATED_CACHE.get`. -/
def ValidatedCache.find : Option CachedValidated :=
  (List.find? (fun e => sameKey e.1 key) cache).map Prod.snd

/-- `VALIDATED_CACHE.remove`. -/
def ValidatedCache.remove : ValidatedCache := List.filter (fun e => !sameKey e.1 key) cache

/-- `cache_validated` (recursor_wire.rs:784) at instant `i`. -/
def cacheValidated (now : U32) (i : ℕ) (v : Validated) : ValidatedCache :=
  if v.verdict = .bogus then cache
  else if cacheTtl now v = 0 then cache
  else if cache.length ≥ validatedCacheMax ∧ (cache.find key).isNone then cache
  else (key, ⟨v, i, i + (cacheTtl now v).val * nanos⟩) :: cache.remove key

end

/-! ## The resolver -/

/-- The world of the resolver: the fetcher, and both clocks. -/
structure Env (σ : Type) extends Dnssec.Env σ where
  instant : σ → ℕ × σ

/-- A reply the chase judged, and the state it was judged in. -/
structure Hop (σ : Type) where
  target : Name
  qtype : U16
  now : U32
  msg : Message
  before : State σ

/-- The state of the resolver. -/
structure Resolver (σ : Type) where
  chain : State σ
  validated : ValidatedCache := []
  log : List (Hop σ) := []

/-- `MAX_CNAME` (recursor_wire.rs:110). -/
def maxCname : ℕ := 12

/-- `worst_verdict` (recursor_wire.rs:976). -/
def worstVerdict : Verdict → Verdict → Verdict
  | .bogus, _ => .bogus
  | _, .bogus => .bogus
  | .insecure, _ => .insecure
  | _, .insecure => .insecure
  | .secure, .secure => .secure

/-- `is_compact_nxdomain` (recursor_wire.rs:964). -/
def isCompactNxdomain (authority : List Record) (qname : Name) : Bool :=
  authority.any fun r =>
    r.rtype = NSEC && r.name.eqIgnoreAsciiCase qname &&
      match r.rdata.data? with
      | some data => nsecBitmapHasNxname data
      | none => false

/-- `collect_covering_rrsigs` (recursor_wire.rs:836). -/
def coveringRrsigs (answers : List Record) (owner : Name) (covered : U16) : List Record :=
  answers.filter fun r =>
    r.rtype = RRSIG && r.name.eqIgnoreAsciiCase owner &&
      match r.rdata.data? with
      | some data => coversType covered data
      | none => false

/-- The CNAME a hop follows (recursor_wire.rs:902-909). -/
def hopCname (msg : Message) (target : Name) : Option (Record × Name) :=
  msg.answers.findSome? fun r =>
    if r.rtype = CNAME && r.name.eqIgnoreAsciiCase target then
      match r.rdata with
      | .cname next => some (r, next)
      | _ => none
    else none

/-- The response code of the terminal hop (recursor_wire.rs:944-951). -/
def terminalRcode (verdict : Verdict) (rcode : U16) (records hopAuthority : List Record)
    (target : Name) : U16 :=
  if verdict = .secure ∧ rcode = Rcode.NOERROR ∧ records = [] ∧
      isCompactNxdomain hopAuthority target then Rcode.NXDOMAIN
  else rcode

/-- What the terminal hop serves (recursor_wire.rs:929-953). `verdict` is the worst of
    the chain, this hop included. -/
def terminal (msg : Message) (target : Name) (qtype : U16)
    (records rrsigs hopAuthority : List Record) (verdict : Verdict) : Validated :=
  let records := records ++ rrset msg.answers target qtype
  ⟨records, rrsigs ++ coveringRrsigs msg.answers target qtype, hopAuthority,
    terminalRcode verdict msg.header.rcodeLow records hopAuthority target, verdict⟩

variable {σ : Type} (env : Env σ)

/-- The `loop` of `resolve_validated` (recursor_wire.rs:885-956), `cnameLeft` hops
    before it refuses to go on. -/
def chase (key : Name × U16) (now : U32) :
    (cnameLeft : ℕ) → (target : Name) → (records rrsigs : List Record) → Verdict →
    Resolver σ → Option Validated × Resolver σ
  | cnameLeft, target, records, rrsigs, verdict, s =>
    let reply := s.chain.fetch env.toEnv target key.2
    match reply.1 with
    | none => (none, { s with chain := reply.2 })
    | some msg =>
      let hop := validateFull env.toEnv target key.2 msg now reply.2
      let s := { s with chain := hop.2, log := ⟨target, key.2, now, msg, reply.2⟩ :: s.log }
      let verdict := worstVerdict verdict hop.1.1
      match hopCname msg target with
      | some (cn, next) =>
        let records := records ++ [cn]
        match cnameLeft with
        | 0 => (some ⟨records, [], [], msg.header.rcodeLow, .bogus⟩, s)
        | cnameLeft + 1 =>
          chase key now cnameLeft next records
            (rrsigs ++ coveringRrsigs msg.answers target CNAME) verdict s
      | none =>
        let validated := terminal msg target key.2 records rrsigs hop.1.2 verdict
        let clock := env.instant s.chain.world
        (some validated, { s with
          chain := { s.chain with world := clock.2 }
          validated := cacheValidated s.validated key now clock.1 validated })

/-- `resolve_validated` (recursor_wire.rs:853). -/
def resolveValidated (qname : Name) (qtype : U16) (now : U32) (s : Resolver σ) :
    Option Validated × Resolver σ :=
  let key := (qname, qtype)
  match s.validated.find key with
  | none => chase env key now maxCname qname [] [] .secure s
  | some hit =>
    let clock := env.instant s.chain.world
    let s := { s with chain := { s.chain with world := clock.2 } }
    let served :=
      if hit.expiresAt > clock.1 then
        hit.cloneDecremented (Fin.ofNat _ (min ((clock.1 - hit.insertedAt) / nanos) u32Max.val))
      else none
    match served with
    | some v => (some v, s)
    | none =>
      chase env key now maxCname qname [] [] .secure { s with validated := s.validated.remove key }

/-- What drives a resolver: queries, and the flush of the answer cache
    (`flush_validated_cache`, recursor_wire.rs:827). -/
inductive Op
  | query (qname : Name) (qtype : U16) (now : U32)
  | flush

/-- One operation. -/
def step (op : Op) (s : Resolver σ) : Resolver σ :=
  match op with
  | .query qname qtype now => (resolveValidated env qname qtype now s).2
  | .flush => { s with validated := [] }

/-- A run of operations. -/
def run : List Op → Resolver σ → Resolver σ
  | [], s => s
  | op :: ops, s => run ops (step env op s)

end Runbound.Recursor
