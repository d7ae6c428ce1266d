import Runbound.Dnssec.Chain
import Runbound.Dnssec.Signed

/-!
# Ideal signatures

A `Crypto` that accepts exactly the streams that were signed, and fetchers that
answer from a table. They make concrete worlds in which the validator can be run.

* `onlySigns_ideal`: ideal signatures are an oracle for every key set.
-/

namespace Runbound.Dnssec

open Wire Rtype

/-! ## Signatures -/

/-- Signatures accept `(key, stream)` exactly if it is listed; an RSA key is named
    by its modulus. Digests are listed too, and all others are empty. SHA-1 pads to
    its length, so it is injective on short names. -/
def idealCrypto (digests signed : List (Bytes × Bytes)) : Crypto where
  sha1 x := (x ++ List.replicate 20 0).take 20
  sha256 x := (digests.lookup x).getD []
  sha384 _ := []
  rsaVerify _ n _ msg _ := (n, msg) ∈ signed
  publicKeyVerify _ key msg _ := (key, msg) ∈ signed
  sha1_length x := by simp

/-- The octets that name a key in `idealCrypto`. -/
def keyId (algorithm : Byte) (pubkey : Bytes) : Bytes :=
  if algorithm = 8 ∨ algorithm = 10 then ((rsaComponents pubkey).map Prod.fst).getD []
  else if algorithm = 13 ∨ algorithm = 14 then 4 :: pubkey
  else pubkey

theorem mem_of_verifySignature_ideal {digests signed : List (Bytes × Bytes)} {alg : Byte}
    {pubkey msg sig : Bytes}
    (h : verifySignature (idealCrypto digests signed) alg pubkey msg sig = true) :
    (keyId alg pubkey, msg) ∈ signed := by
  unfold verifySignature at h
  unfold keyId
  by_cases h1 : alg = 8 ∨ alg = 10
  · rw [if_pos h1] at h ⊢
    cases hc : rsaComponents pubkey with
    | none => simp [hc] at h
    | some p =>
      simp only [hc] at h
      exact of_decide_eq_true h
  · rw [if_neg h1] at h ⊢
    by_cases h2 : alg = 13 ∨ alg = 14
    · rw [if_pos h2] at h ⊢
      by_cases h3 : pubkey.length = if alg = 13 then 64 else 96
      · rw [if_neg (not_not.mpr h3)] at h
        exact of_decide_eq_true h
      · rw [if_pos h3] at h; cases h
    · rw [if_neg h2] at h ⊢
      split_ifs at h
      exact of_decide_eq_true h

theorem onlySigns_ideal {digests : List (Bytes × Bytes)} {keys : List Bytes}
    {signed : List (Bytes × SignedRrset)} {zone : SignedRrset → Prop}
    (hzone : ∀ p ∈ signed, (∃ key ∈ keys, ∃ alg, keyId alg (key.drop 4) = p.1) → zone p.2) :
    OnlySigns (idealCrypto digests (signed.map fun p => (p.1, p.2.tbs))) keys zone := by
  intro key hkey alg msg signature h
  obtain ⟨p, hp, heq⟩ := List.mem_map.mp (mem_of_verifySignature_ideal h)
  rw [Prod.mk.injEq] at heq
  exact ⟨p.2, hzone p hp ⟨key, hkey, alg, heq.1.symm⟩, heq.2.symm⟩

theorem mem_of_sha256_ideal {digests signed : List (Bytes × Bytes)} {x d : Bytes}
    (h : (idealCrypto digests signed).sha256 x = d) (hd : d ≠ []) : (x, d) ∈ digests := by
  have hx : (digests.lookup x).getD [] = d := h
  cases hl : digests.lookup x with
  | none => rw [hl] at hx; exact absurd hx.symm hd
  | some d' =>
    rw [hl, Option.getD_some] at hx
    obtain ⟨l₁, l₂, heq, -⟩ := List.lookup_eq_some_iff.mp hl
    rw [heq, hx]
    simp

/-! ## Records -/

/-- A record of a type the parser does not know. -/
def Record.ofData (name : Name) (rtype : U16) (ttl : U32) (data : Bytes)
    (h : (Rdata.unknown rtype data).parsedAs rtype = true) : Record :=
  ⟨name, rtype, Class.IN, ttl, .unknown rtype data, h⟩

/-- A fetcher that answers from a table, and a clock that stands still. -/
def tableEnv (crypto : Crypto) (clock : U32) (replies : List ((Name × U16) × Message)) :
    Env Unit where
  crypto := crypto
  fetch name qtype _ := ((replies.find? fun e => sameKey e.1 (name, qtype)).map Prod.snd, ())
  unixNow _ := (clock, ())

/-! ## A root zone -/

/-- A DNSKEY that the first root anchor names. -/
def rootKey : Bytes := [1, 1, 3, 8, 1, 3, 0x4A, 0x5A]

/-- The modulus of `rootKey`. -/
def rootModulus : Bytes := [0x4A, 0x5A]

/-- The digest that makes the first root anchor name `rootKey`. -/
def rootDigest : Bytes × Bytes := (0 :: rootKey, rootKsk2017)

theorem nameA_ok : LabelsOk [[97]] := by decide

/-- `a.` -/
def nameA : Name := ⟨[[97]], nameA_ok⟩

/-- `b.` -/
def nameB : Name := ⟨[[98]], by decide⟩

/-- The parameters the root signs with, for a type. -/
def rootParams (t : U16) : RrsigParams :=
  { typeCovered := t, algorithm := 8, originalTtl := 300, expiration := 2000, inception := 1000,
    keyTag := 20326, signerName := Name.root }

/-- An RRset of one record, as the root signs it. -/
def rootRrset (owner : Name) (t : U16) (rd : Rdata) (h : rd.emitCanonical.length < 65536) :
    SignedRrset where
  owner := owner
  params := rootParams t
  rdatas := [rd]
  nonempty := by simp
  short := by simpa using h
  nodup := by simp
  in_zone := owner.isInZone_root

/-- The signed key set of the root. -/
def rootDnskeyRrset : SignedRrset :=
  rootRrset Name.root DNSKEY (.unknown DNSKEY rootKey) (by decide)

/-- The hash of `a.` in the ring of the root. -/
def hashA : Bytes := (idealCrypto [] []).sha1 (canonicalNameWire nameA)

/-- The owner name of the NSEC3 of `a.`. -/
def nsec3OwnerA : Name := ⟨[base32hexEncode hashA], by decide +kernel⟩

/-- The reply to the query for the keys of the root. -/
def rootDnskeyReply : Message where
  answers :=
    [Record.ofData Name.root DNSKEY 300 rootKey (by decide),
      Record.ofData Name.root RRSIG 300 (rootDnskeyRrset.rrsigRdata [0]) (by decide +kernel)]

end Runbound.Dnssec
