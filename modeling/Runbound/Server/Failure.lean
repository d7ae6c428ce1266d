import Runbound.Dnssec.Ideal
import Runbound.Recursor.Runs
import Runbound.Server.CachedReply

/-!
# Failures of authoritative servers in full recursion

Neither `resolve_validated` nor `serve_wire` looks for a response code other than NXDOMAIN.
A terminal message with SERVFAIL, REFUSED or FORMERR ends as SERVFAIL only through its
verdict.

* `failure_served_iff`: when a resolution ends with such a message, the client gets SERVFAIL
  and nothing is stored exactly if validation rejects a message of the chain.
* `servfail_served_nodata`: in an insecure zone SERVFAIL is served as NOERROR without
  records, and stored for a day.
-/

namespace Runbound.Server

open Wire Recursor FastPath List Rtype Rcode Class
open Dnssec hiding Env

/-! ## The response code -/

/-- The response code in the header of a response. -/
def responseRcode (resp : Bytes) : ℕ := (octet resp 3).val % 16

theorem responseRcode_encode (m : Message) : responseRcode m.encode = m.header.flags.val % 16 := by
  obtain ⟨body, h, -⟩ := Message.encode_eq_append m m rfl rfl rfl rfl
  rw [h]
  show m.header.flags.val % 256 % 16 = _
  omega

theorem responseRcode_header (req : Message) (rc : U16) :
    (responseHeader req rc).flags.val % 16 = rc.val % 16 := by
  show (_ / 16 * 16 + rc.val % 16) % 16 = _
  omega

theorem responseRcode_wireAnswer (req : Message) (records : List Record) (rc : U16) :
    responseRcode (wireAnswer req records rc) = rc.val % 16 := by
  rw [wireAnswer, responseRcode_encode]
  exact responseRcode_header req rc

theorem responseRcode_wireNegative (req : Message) (rc : U16) (authority : List Record) (d : Bool) :
    responseRcode (wireNegative req rc authority d) = rc.val % 16 := by
  rw [wireNegative, responseRcode_encode]
  exact responseRcode_header req rc

theorem or_ad_mod (x : Byte) : (Fin.ofNat 256 (x.val ||| 0x20)).val % 16 = x.val % 16 := by
  revert x
  decide +kernel

theorem responseRcode_markAd (on : Bool) (resp : Bytes) :
    responseRcode (markAd on resp) = responseRcode resp := by
  unfold markAd
  split_ifs with h
  · unfold responseRcode octet
    rw [getD_eq_getElem?_getD, getElem?_modify, getD_eq_getElem?_getD, getElem?_eq_getElem h.2]
    exact or_ad_mod _
  · rfl

/-! ## Rejected messages -/

variable {σ : Type} {env : Env σ}

/-- Validation rejects the reply of the hop: there is no proof that its zone is insecure, and
    its records are not those that the trusted keys of the zone vouch for. -/
def Rejected (env : Env σ) (hop : Hop σ) : Prop :=
  match signingZone hop.msg hop.target with
  | none =>
    let z := ((soaOwner hop.msg).filter fun z => hop.target.isInZone z).getD hop.target
    (trustedKeysFor env.toEnv z hop.now hop.before).1.1 ≠ .insecure
  | some zone =>
    let r := (trustedKeysFor env.toEnv zone hop.now hop.before).1
    r.1 = .bogus ∨
      r.1 = .secure ∧ (judge env.crypto hop.msg r.2 hop.now hop.target hop.qtype zone).1 = .bogus

theorem rejected_iff (hop : Hop σ) : Rejected env hop ↔ (hop.judgement env).1 = .bogus := by
  unfold Rejected Hop.judgement validateFull
  cases signingZone hop.msg hop.target with
  | none =>
    simp only
    cases h : (trustedKeysFor env.toEnv
      (((soaOwner hop.msg).filter fun z => hop.target.isInZone z).getD hop.target)
      hop.now hop.before).1.1 <;> simp
  | some zone =>
    simp only
    cases h : (trustedKeysFor env.toEnv zone hop.now hop.before).1.1 <;> simp

/-! ## The end of a failed resolution -/

/-- The client gets SERVFAIL, and no cache holds anything new for the question. `before` is
    the state of the caches of the handler, `cache` that of the validated answers afterwards. -/
structure ServedAsFailure (out : Option Bytes × Caches) (before : Caches) (key : Name × U16)
    (cache : ValidatedCache) : Prop where
  rcode : ∃ resp, out.1 = some resp ∧ responseRcode resp = SERVFAIL.val
  shared : out.2.shared = before.shared
  validated : ∀ e ∈ cache, sameKey e.1 key = false

section

variable {hw : Bool} {cfg : CacheCfg} {instant : ℕ} {msg : Message} {q : Question} {v : Validated}

/-- A result that is neither bogus nor NXDOMAIN is served with NOERROR. -/
theorem responseRcode_serveRecursion (hv : v.verdict ≠ .bogus) (hrc : v.rcode ≠ NXDOMAIN)
    (cache : CacheMap) :
    responseRcode (serveRecursion hw cfg instant msg q (some v) cache).1 = 0 := by
  unfold serveRecursion
  simp only [hv, false_and, if_false, if_neg hrc]
  split_ifs
  · rw [serveNegative, responseRcode_markAd, responseRcode_wireNegative]
    rfl
  · rw [servePositive, responseRcode_markAd]
    split_ifs <;> rw [responseRcode_wireAnswer] <;> rfl

end

section

variable {key : Name × U16} {now : U32} {hop : Hop σ} {v : Validated}
  {cache cache' : ValidatedCache}

theorem rcode_of_ending (h : Ending env key now hop v cache cache') (hv : v.verdict ≠ .bogus)
    (hrc : hop.msg.header.rcodeLow ≠ NOERROR) : v.rcode = hop.msg.header.rcodeLow := by
  cases h with
  | refused _ hbogus => exact absurd hbogus hv
  | finished i _ heq =>
    rw [heq]
    exact if_neg fun h => hrc h.2.1

theorem cache_of_ending_bogus (h : Ending env key now hop v cache cache')
    (hv : v.verdict = .bogus) : cache' = cache := by
  cases h with
  | refused _ _ => rfl
  | finished i _ _ => exact if_pos hv

end

section

variable {h : Handler} {a : Arrival} {c : Caches} {now : U32} {s : Resolver σ} {msg : Message}
  {q : Question} {hop : Hop σ} {hops : List (Hop σ)}

theorem resolveValidated_ending {qname : Name} {qtype : U16} {v : Validated} {s' : Resolver σ}
    (hres : resolveValidated env qname qtype now s = (some v, s'))
    (hlog : s'.log = hop :: hops ++ s.log) :
    ∃ cache : ValidatedCache, (∀ e ∈ cache, sameKey e.1 (qname, qtype) = false) ∧
      Ending env (qname, qtype) now hop v cache s'.validated ∧
      (v.verdict = .bogus ↔ hopCname hop.msg hop.target ≠ none ∨
        ∃ x ∈ hop :: hops, (x.judgement env).1 = .bogus) := by
  rcases resolveValidated_cases env qname qtype now s with
    ⟨e, -, -, -, elapsed, v', -, hrun⟩ | ⟨chain, cache, -, hsub, hrun⟩
  · -- a hit judges no message
    rw [hrun] at hres
    cases hres
    exact absurd (congrArg List.length hlog) (by simp; omega)
  · rw [hrun] at hres
    obtain ⟨hop', hops', hlog', hend, hv⟩ := chase_ending _ _ _ _ _ _ _ _ hres
    rw [hlog] at hlog'
    obtain ⟨rfl, rfl⟩ := List.cons.inj (append_cancel_right hlog')
    exact ⟨cache, fun e he => (hsub e he).2, hend, by simpa using hv⟩

/-- For every behaviour of the servers and every state of the caches: if a resolution ends with
    a message whose response code is neither NOERROR nor NXDOMAIN, a client without CD gets
    SERVFAIL and nothing is stored exactly if the chain is too long or validation rejects one
    of its messages. -/
theorem failure_served_iff (hp : Message.parse a.query = .ok msg)
    (hq : msg.firstQuestion = some q) (hearly : a.early = none) (hcd : msg.header.cd = false)
    (hres : a.resolution = .recursion (resolveValidated env q.name q.qtype now s).1)
    (hdone : (resolveValidated env q.name q.qtype now s).1.isSome = true)
    (hlog : (resolveValidated env q.name q.qtype now s).2.log = hop :: hops ++ s.log)
    (hnoerror : hop.msg.header.rcodeLow ≠ NOERROR)
    (hnxdomain : hop.msg.header.rcodeLow ≠ NXDOMAIN) :
    ServedAsFailure (serveWire h a c) c (q.name, q.qtype)
        (resolveValidated env q.name q.qtype now s).2.validated ↔
      hopCname hop.msg hop.target ≠ none ∨ ∃ x ∈ hop :: hops, Rejected env x := by
  obtain ⟨v, hv⟩ := Option.isSome_iff_exists.mp hdone
  have hserve : serveWire h a c =
      (some (serveRecursion h.hw h.cache a.instant msg q (some v) c.shared).1, { c with
          shared := (serveRecursion h.hw h.cache a.instant msg q (some v) c.shared).2 }) := by
    rw [serveWire, hp]
    simp only [hq, hearly, hres, hv]
  obtain ⟨cache, hcache, hend, hverdict⟩ :=
    resolveValidated_ending (Prod.ext hv rfl : _ = (some v, _)) hlog
  simp only [rejected_iff]
  rw [← hverdict, hserve]
  constructor
  · rintro ⟨⟨resp, hresp, hrc⟩, -, -⟩
    by_contra hbogus
    have hrcode : v.rcode ≠ NXDOMAIN := by rwa [rcode_of_ending hend hbogus hnoerror]
    rw [← Option.some.inj hresp, responseRcode_serveRecursion hbogus hrcode] at hrc
    exact absurd hrc (by decide)
  · intro hbogus
    rw [serveRecursion, if_pos ⟨hbogus, hcd⟩]
    refine ⟨⟨_, rfl, responseRcode_wireAnswer _ _ _⟩, rfl, ?_⟩
    rw [cache_of_ending_bogus hend hbogus]
    exact hcache

end

/-! ## A lame server -/

/-- The root's proof that `a.` has no DS record. -/
def unsignedRrset : SignedRrset :=
  rootRrset nameA NSEC
    (.unknown NSEC (Name.root.wire ++ typeBitmap [NS, RRSIG, NSEC]))
    (by decide +kernel)

/-- The reply for the DS of `a.` -/
def unsignedReply : Message where
  authority :=
    [Record.ofData nameA NSEC 300
        (Name.root.wire ++ typeBitmap [NS, RRSIG, NSEC]) (by decide +kernel),
      Record.ofData nameA RRSIG 300 (unsignedRrset.rrsigRdata [0]) (by decide +kernel)]

/-- The name server of `a.` -/
def nsReply : Message where
  answers := [⟨nameA, NS, IN, 300, .ns nameB, by decide⟩]

/-- A world where `a.` is not signed and its server answers with `reply`. -/
def unsignedEnv (reply : Message) : Env Unit where
  toEnv := tableEnv
    (idealCrypto [rootDigest]
      [(rootModulus, rootDnskeyRrset.tbs), (rootModulus, unsignedRrset.tbs)])
    1500
    [((Name.root, DNSKEY), rootDnskeyReply), ((nameA, DS), unsignedReply),
      ((nameA, NS), nsReply), ((nameA, Rtype.A), reply)]
  instant _ := (0, ())

/-- A server that fails. -/
def lameReply : Message where
  header := { flags := 0x8002 }

/-- The resolution of `a. A`. -/
def lameResolution : Option Validated × Resolver Unit :=
  resolveValidated (unsignedEnv lameReply) nameA Rtype.A 1500 { chain := { world := () } }

/-- `a. A` in full recursion. -/
def arrivalLame : Arrival := { arrivalUpper with
  query := askLower
  resolution := .recursion lameResolution.1 }

theorem lame_log : ∃ hop, lameResolution.2.log = [hop] ∧ hop.msg = lameReply := by
  have hmap : lameResolution.2.log.map Hop.msg = [lameReply] := by decide +kernel
  exact map_eq_singleton_iff.mp hmap

theorem askLower_question : ∃ msg, Message.parse askLower = .ok msg ∧ msg.header.cd = false ∧
    msg.firstQuestion = some ⟨nameA, Rtype.A, IN⟩ := by
  obtain ⟨msg, hmsg, h⟩ := exists_parse_of_any (b := askLower)
    (p := fun m => !m.header.cd && decide (m.firstQuestion = some ⟨nameA, Rtype.A, IN⟩))
    (by decide +kernel)
  rw [Bool.and_eq_true, Bool.not_eq_true', decide_eq_true_eq] at h
  exact ⟨msg, hmsg, h⟩

theorem failure_served_lame :
    ∃ hop, lameResolution.2.log = [hop] ∧ hop.msg.header.rcodeLow = SERVFAIL ∧
      (ServedAsFailure (serveWire plainHandler arrivalLame {}) {} (nameA, Rtype.A)
          lameResolution.2.validated ↔
        hopCname hop.msg hop.target ≠ none ∨ ∃ x ∈ [hop], Rejected (unsignedEnv lameReply) x) := by
  obtain ⟨hop, hlog, hhop⟩ := lame_log
  obtain ⟨msg, hmsg, hcd, hq⟩ := askLower_question
  have hrc : hop.msg.header.rcodeLow = SERVFAIL := by rw [hhop]; decide
  exact ⟨hop, hlog, hrc, failure_served_iff (a := arrivalLame) hmsg hq rfl hcd rfl
    (show lameResolution.1.isSome = true by decide +kernel) hlog (by rw [hrc]; decide)
    (by rw [hrc]; decide)⟩

/-- The server of an insecure zone fails. The client gets NOERROR without records, and this
    answer is stored for a day. -/
theorem servfail_served_nodata :
    lameResolution.2.log.map Hop.msg = [lameReply] ∧ lameReply.header.rcodeLow = SERVFAIL ∧
    (serveWire plainHandler arrivalLame {}).1.map responseRcode = some NOERROR.val ∧
    (lameResolution.2.validated.map fun e => (e.1, e.2.expiresAt)) =
      [((nameA, Rtype.A), 86400 * nanos)] ∧
    ¬ ServedAsFailure (serveWire plainHandler arrivalLame {}) {} (nameA, Rtype.A)
      lameResolution.2.validated := by
  have hrc : (serveWire plainHandler arrivalLame {}).1.map responseRcode =
      some NOERROR.val := by decide +kernel
  refine ⟨by decide +kernel, by decide, hrc, by decide +kernel, ?_⟩
  rintro ⟨⟨resp, hresp, hfail⟩, -, -⟩
  rw [hresp, Option.map_some, hfail] at hrc
  revert hrc
  decide

end Runbound.Server
