import Runbound.FastPath.Query
import Runbound.Lib.Map
import Runbound.Wire.Encode

/-!
# The shared response cache (`dns/cache_snapshot.rs`, `dns/hasher.rs`)

Responses are stored whole, under a 64-bit hash of the lowercased question name
mixed with the type. `answerFromCache` copies a stored response out and patches three
octets; `wireQname` is compared with the question to catch two names of one hash,
unless it is empty.

* `cacheKey_inj`: one name has a key of its own for each type.
* `answerFromCache_eq_some_iff`: what stands behind a hit.
* `lookup_cacheInsert`: what an insertion can leave under a key.
-/

namespace Runbound.FastPath

open Wire Lib

abbrev U64 := Fin 18446744073709551616

instance neZero_u64 : NeZero 18446744073709551616 := ⟨by decide⟩

/-! ## Hashing -/

/-- One bit of the CRC32c update, on the reflected polynomial. -/
def crc32cBit (c : ℕ) : ℕ := if c % 2 = 1 then c / 2 ^^^ 0x82F63B78 else c / 2

/-- The `crc32` instruction on one octet; on wider words it is this, octet by octet
    (dns/hasher.rs:70-112). -/
def crc32cByte (crc : ℕ) (b : Byte) : ℕ := crc32cBit^[8] (crc ^^^ b.val)

/-- `crc32c_hw` (dns/hasher.rs:138). -/
def crc32cHw (crc : ℕ) (bs : Bytes) : ℕ := bs.foldl crc32cByte crc

/-- `fnv1a_update` (dns/hasher.rs:157). -/
def fnv1aUpdate (h : ℕ) (bs : Bytes) : ℕ :=
  bs.foldl (fun h b => (h ^^^ b.val) * 0x100000001B3 % 18446744073709551616) h

/-- `hash_wire_qname` (dns/hasher.rs:515); `hw` is `HAS_HW_CRC32C`. -/
def hashWireQname (hw : Bool) (wireQname : Bytes) : U64 :=
  if hw then
    let c := crc32cHw 0 wireQname
    Fin.ofNat _ (c ^^^ c * 0x9e3779b97f4a7c15 % 18446744073709551616)
  else Fin.ofNat _ (fnv1aUpdate 0xcbf29ce484222325 wireQname)

/-- `raw_key ^ ((qtype as u64) << 48)`. -/
def mixType (rawKey : U64) (qtype : U16) : U64 := Fin.ofNat _ (rawKey.val ^^^ qtype.val * 2 ^ 48)

/-- The key of a question; `name` is the lowercased wire form. -/
def cacheKey (hw : Bool) (name : Bytes) (qtype : U16) : U64 := mixType (hashWireQname hw name) qtype

theorem mixType_inj {raw : U64} {t t' : U16} (h : mixType raw t = mixType raw t') : t = t' := by
  have hlt : ∀ x : U16, raw.val ^^^ x.val * 2 ^ 48 < 18446744073709551616 := fun x =>
    Nat.xor_lt_two_pow (n := 64) raw.isLt (by have := x.isLt; omega)
  have hval := congrArg Fin.val h
  simp only [mixType, Fin.val_ofNat] at hval
  rw [Nat.mod_eq_of_lt (hlt t), Nat.mod_eq_of_lt (hlt t')] at hval
  have hmul := Nat.xor_right_injective hval
  ext
  simpa using hmul

variable {hw : Bool} {now : ℕ}

theorem cacheKey_inj {name : Bytes} {t t' : U16}
    (h : cacheKey hw name t = cacheKey hw name t') : t = t' := mixType_inj h

/-! ## The cache -/

/-- `CacheEntry` (dns/cache_snapshot.rs:58); instants are counted in seconds. -/
structure CacheEntry where
  wirePayload : Bytes
  expiresAt : ℕ
  wireQname : Bytes
  deriving DecidableEq

/-- `MutableCacheMap` and `CacheSnapshot` (dns/cache_snapshot.rs:82). -/
abbrev CacheMap := Map U64 CacheEntry

/-- `365 * 24 * 3600`. -/
def yearSecs : ℕ := 31536000

/-- `sentinel_expires` (dns/cache_snapshot.rs:159). -/
def sentinelExpires (now : ℕ) : ℕ := now + 100 * yearSecs

/-- `is_sentinel` (dns/cache_snapshot.rs:166). -/
def isSentinel (now : ℕ) (e : CacheEntry) : Bool := e.expiresAt > now + 50 * yearSecs

/-- `cache_insert` (dns/cache_snapshot.rs:171). -/
def cacheInsert (now : ℕ) (key : U64) (entry : CacheEntry) (maxEntries : ℕ) (m : CacheMap) :
    CacheMap :=
  if m.keys.length ≥ maxEntries ∧ key ∉ m then
    match m.entries.find? fun kv => kv.2.expiresAt ≤ now && !isSentinel now kv.2 with
    | some kv => (m.erase kv.1).insert key entry
    | none => m
  else m.insert key entry

/-- What `cache_insert` can leave under a key. -/
theorem lookup_cacheInsert {key k : U64} {entry e : CacheEntry} {maxEntries : ℕ}
    {m : CacheMap} (h : (cacheInsert now key entry maxEntries m).lookup k = some e) :
    (k = key ∧ e = entry) ∨ m.lookup k = some e := by
  unfold cacheInsert at h
  split_ifs at h with hfull
  · split at h
    · rw [Map.lookup_insert_eq, Map.lookup_erase_eq] at h
      split_ifs at h with h1 h2
      · exact Or.inl ⟨h1, (Option.some.inj h).symm⟩
      · exact Or.inr h
    · exact Or.inr h
  · rw [Map.lookup_insert_eq] at h
    split_ifs at h with h1
    · exact Or.inl ⟨h1, (Option.some.inj h).symm⟩
    · exact Or.inr h

/-- `cache_insert_local` (dns/cache_snapshot.rs:198). -/
def cacheInsertLocal (key : U64) (entry : CacheEntry) (m : CacheMap) : CacheMap :=
  m.insert key entry

/-! ## Publication -/

/-- The snapshot `publish_loop` hands to the readers (dns/cache_snapshot.rs:447-451). -/
def publish (now : ℕ) (m : CacheMap) : CacheMap := Map.retain (fun _ e => e.expiresAt > now) m

/-- The forced eviction of `publish_loop` (dns/cache_snapshot.rs:444-446). -/
def evictExpired (now : ℕ) (m : CacheMap) : CacheMap :=
  Map.retain (fun _ e => e.expiresAt > now || isSentinel now e) m

/-! ## What the server stores -/

/-- `cache_min_ttl`, `cache_max_ttl` and `cache_max_entries` of the handler. -/
structure CacheCfg where
  minTtl : U32
  maxTtl : U32
  maxEntries : ℕ

/-- `NEG_CACHE_MAX_TTL` (dns/server.rs:37). -/
def negCacheMaxTtl : U32 := 900

section Store

variable (hw : Bool) (cfg : CacheCfg) (now : ℕ) (q : Question) (respWire : Bytes)

/-- The entry of a response to `q` that lives for `ttl` seconds, under the key of `q`. -/
def storeFor (ttl : U32) (m : CacheMap) : CacheMap :=
  let qnameLc := normalizeQueryQname q.name.wire
  cacheInsert now (cacheKey hw qnameLc q.qtype)
    { wirePayload := respWire, expiresAt := now + ttl.val, wireQname := qnameLc } cfg.maxEntries m

/-- Lifetime of a positive answer (dns/server.rs:1425-1431). -/
def positiveTtl (records : List Record) : U32 :=
  min (max ((records.map Record.ttl).min?.getD 60) cfg.minTtl) cfg.maxTtl

/-- `maybe_cache_wire` (dns/server.rs:1415). -/
def maybeCacheWire (records : List Record) (m : CacheMap) : CacheMap :=
  if records = [] then m else storeFor hw cfg now q respWire (positiveTtl cfg records) m

/-- Lifetime of a negative answer (dns/server.rs:1461-1464). -/
def negativeTtl (negTtl : U32) : U32 := min (min (max negTtl cfg.minTtl) cfg.maxTtl) negCacheMaxTtl

/-- `maybe_cache_negative` (dns/server.rs:1451). -/
def maybeCacheNegative (negTtl : U32) (m : CacheMap) : CacheMap :=
  if negTtl = 0 ∨ respWire = [] then m
  else storeFor hw cfg now q respWire (negativeTtl cfg negTtl) m

end Store

theorem negativeTtl_le_iff {cfg : CacheCfg} (negTtl m : U32) :
    negativeTtl cfg negTtl ≤ m ↔
      negTtl ≤ m ∧ cfg.minTtl ≤ m ∨ cfg.maxTtl ≤ m ∨ negCacheMaxTtl ≤ m := by
  rw [negativeTtl, min_le_iff, min_le_iff, max_le_iff, or_assoc]

/-! ## Serving from the cache -/

/-- `truncate_udp_response` (dns/server.rs:2109). -/
def truncateUdpResponse (resp query : Bytes) : Bytes :=
  let maxLen := match Message.parse query with
    | .ok m => match m.edns with
      | .ok (some e) => min (max e.udpPayload.val 512) 1232
      | _ => 512
    | .error _ => 512
  if resp.length ≤ maxLen then resp
  else
    match Message.parse resp with
    | .error _ => resp
    | .ok m =>
      let encoded := Message.encode
        { m with
          header := m.header.setTc true
          answers := []
          authority := []
          additional := m.additional.filter fun r => r.rtype = Rtype.OPT }
      encoded.take maxLen

/-- The identifier of the query and its RD bit in place of those of the stored response
    (dns/xdp/worker.rs:1715-1720). -/
def patch (query wire : Bytes) : Bytes :=
  (octet query 0 :: octet query 1 ::
    Fin.ofNat 256 ((octet wire 2).val / 2 * 2 + (octet query 2).val % 2) :: wire.drop 3).take
    wire.length

/-- What is sent for a stored response (dns/xdp/worker.rs:1713-1741). -/
def copyOut (query wire : Bytes) : Bytes :=
  if wire.length > 512 then truncateUdpResponse (patch query wire) query else patch query wire

/-- `AclAction` (dns/acl.rs:25). -/
inductive AclAction
  | allow
  | deny
  | refuse
  deriving DecidableEq

/-- What the fast path reads besides the datagram: the access list, and the subnet policies
    as the test `blocks(ip, name)` on the lowercased wire name. -/
structure Access (Ip : Type) where
  acl : Ip → AclAction
  blocks : Ip → Bytes → Bool

/-- No access list entry and no policy keeps the client from being served. -/
def Access.admits {Ip : Type} (acc : Access Ip) (src : Option Ip) (qnameLc : Bytes) : Bool :=
  match src with
  | none => true
  | some ip => acc.acl ip = .allow && !acc.blocks ip qnameLc

/-- The lookup of `answer_from_cache` (dns/xdp/worker.rs:1699-1744): the entry under the key,
    if its name is the one asked for or was not kept, and it is live. -/
def lookupQuestion (hw : Bool) (now : ℕ) (snap : CacheMap) (qnameLc : Bytes) (qtype : U16) :
    Option CacheEntry :=
  match snap.lookup (cacheKey hw qnameLc qtype) with
  | none => none
  | some e =>
    if e.wireQname ≠ [] ∧ e.wireQname ≠ qnameLc then none
    else if e.expiresAt > now ∧ 2 ≤ e.wirePayload.length then some e else none

/-- The question `answer_from_cache` reads (dns/xdp/worker.rs:1587-1663): a standard query
    with one question of class IN, not ANY. -/
def cacheQuestion (b : Bytes) : Option (Bytes × U16 × ℕ) :=
  if b.length < 13 then none
  else if (be16 b 2).val ≥ 32768 then none
  else if (be16 b 2).val / 2048 % 16 ≠ 0 then none
  else if be16 b 4 ≠ 1 then none
  else
    match findZero (b.drop 12) with
    | none => none
    | some z =>
      let pos := 12 + (z + 1)
      if pos + 4 > b.length then none
      else if be16 b (pos + 2) ≠ 1 then none
      else if be16 b pos = Rtype.ANY then none
      else some (normalizeQueryQname ((b.drop 12).take (z + 1)), be16 b pos, pos + 4)

/-- `answer_from_cache` (dns/xdp/worker.rs:1571); `txLen` is the size of the frame. -/
def answerFromCache {Ip : Type} (hw : Bool) (acc : Access Ip) (src : Option Ip) (txLen now : ℕ)
    (snap : CacheMap) (b : Bytes) : Option Bytes :=
  match cacheQuestion b with
  | none => none
  | some (qnameLc, qtype, pos) =>
    if (parseOptRr b (be16 b 10).val pos).any EdnsInfo.doBit then none
    else if ¬ acc.admits src qnameLc then none
    else
      match lookupQuestion hw now snap qnameLc qtype with
      | none => none
      | some e =>
        if txLen < e.wirePayload.length then none else some (copyOut b e.wirePayload)

theorem lookupQuestion_eq_some_iff {snap : CacheMap} {name : Bytes} {qtype : U16}
    {e : CacheEntry} :
    lookupQuestion hw now snap name qtype = some e ↔
      snap.lookup (cacheKey hw name qtype) = some e ∧ (e.wireQname = [] ∨ e.wireQname = name) ∧
        now < e.expiresAt ∧ 2 ≤ e.wirePayload.length := by
  unfold lookupQuestion
  cases snap.lookup (cacheKey hw name qtype) with
  | none => simp
  | some e' => grind

/-- What stands behind a hit: the entry under the key of the question. -/
theorem answerFromCache_eq_some_iff {Ip : Type} {acc : Access Ip} {src : Option Ip}
    {txLen : ℕ} {snap : CacheMap} {b r : Bytes} :
    answerFromCache hw acc src txLen now snap b = some r ↔
      ∃ name qtype pos e, cacheQuestion b = some (name, qtype, pos) ∧
        (parseOptRr b (be16 b 10).val pos).any EdnsInfo.doBit = false ∧
        acc.admits src name = true ∧
        snap.lookup (cacheKey hw name qtype) = some e ∧ (e.wireQname = [] ∨ e.wireQname = name) ∧
        now < e.expiresAt ∧ 2 ≤ e.wirePayload.length ∧ e.wirePayload.length ≤ txLen ∧
        r = copyOut b e.wirePayload := by
  unfold answerFromCache
  cases cacheQuestion b with
  | none => simp
  | some p =>
    cases hl : lookupQuestion hw now snap p.1 p.2.1 <;> grind [lookupQuestion_eq_some_iff]

end Runbound.FastPath
