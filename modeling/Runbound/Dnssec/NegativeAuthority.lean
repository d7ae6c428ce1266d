import Runbound.Dnssec.Collected
import Runbound.Dnssec.Ideal

/-!
# The authority section of a Secure denial

`validate_denial` decides on the NSEC and NSEC3 records whose RRsets validate.
`validated_negative_authority` then serves every NSEC, NSEC3 and RRSIG of the
zone, validated or not; only the SOA is checked again.

* `negativeAuthority_authentic_iff`: the served authority is authentic exactly if
  every in-zone NSEC and NSEC3 of the message is.
* `forgedNsec_served`: an unsigned NSEC rides along with a validated one.
-/

namespace Runbound.Dnssec

open Wire List Rtype

section Authentic

variable (crypto : Crypto) (msg : Message) (keys : List Bytes) (now : U32)

/-- Some RRSIG of the authority section verifies over the RRset that `r` belongs to. -/
def AuthorityAuthentic (r : Record) : Prop :=
  validateRrset crypto r.name Class.IN r.rtype
    ((rrset msg.authority r.name r.rtype).map Record.rdata)
    (rrsigsCovering r.rtype msg.authority) keys now = true

instance (r : Record) : Decidable (AuthorityAuthentic crypto msg keys now r) := by
  unfold AuthorityAuthentic; infer_instance

end Authentic

variable {σ : Type} {env : Env σ} {crypto : Crypto} {msg : Message} {keys : List Bytes} {now : U32}
  {zone : Name} {r : Record}

theorem authentic_of_soa (h : r ∈ validatedNegativeAuthority crypto msg keys now zone)
    (hsoa : r.rtype = SOA) : AuthorityAuthentic crypto msg keys now r := by
  rcases mem_append.mp h with h | h
  · split_ifs at h with hval
    · obtain ⟨-, ht, hname⟩ := mem_rrset.mp h
      have hkey : r.name.key = zone.key := Name.eqIgnoreAsciiCase_iff.mp hname
      rw [AuthorityAuthentic, ht, rrset_congr hkey]
      exact validateRrset_congr hkey.symm hval.2
    · cases h
  · simp [hsoa, SOA, NSEC, NSEC3, RRSIG] at h

/-- The NSEC and NSEC3 records that are served are those of the zone, whether or not
    their RRsets validate. -/
theorem mem_negativeAuthority_denial (ht : r.rtype = NSEC ∨ r.rtype = NSEC3) :
    r ∈ validatedNegativeAuthority crypto msg keys now zone ↔
      r ∈ msg.authority ∧ r.name.isInZone zone = true := by
  have hsoa : r.rtype ≠ SOA := by rcases ht with h | h <;> rw [h] <;> decide
  rw [validatedNegativeAuthority, mem_append]
  constructor
  · rintro (h | h)
    · split_ifs at h
      · exact absurd (mem_rrset.mp h).2.1 hsoa
      · cases h
    · simp only [mem_filter, Bool.and_eq_true] at h
      exact ⟨h.1, h.2.2⟩
  · rintro ⟨h1, h2⟩
    right
    simp only [mem_filter, Bool.and_eq_true, Bool.or_eq_true, decide_eq_true_eq]
    exact ⟨h1, Or.inl ht, h2⟩

/-- The SOA, NSEC and NSEC3 records served with a Secure denial all belong to RRsets
    that validate under the trusted keys of the zone, exactly if the in-zone NSEC and
    NSEC3 records of the message do. -/
theorem negativeAuthority_authentic_iff {qname : Name} {qtype : U16} {s : State σ}
    {auth : List Record} (hneg : answerType msg qname qtype = none)
    (h : (validateFull env qname qtype msg now s).1 = (.secure, auth)) :
    ∃ zone keys, signingZone msg qname = some zone ∧
      (trustedKeysFor env zone now s).1 = (.secure, keys) ∧
      ((∀ r ∈ auth, r.rtype ∈ [SOA, NSEC, NSEC3] → AuthorityAuthentic env.crypto msg keys now r) ↔
        ∀ r ∈ msg.authority, r.rtype ∈ [NSEC, NSEC3] →
          r.name.isInZone zone = true → AuthorityAuthentic env.crypto msg keys now r) := by
  obtain ⟨zone, keys, hz, hk, hj⟩ := validateFull_secure h
  rcases judge_secure hj with ⟨t, ht, -⟩ | ⟨-, -, rfl⟩
  · rw [hneg] at ht; cases ht
  · refine ⟨zone, keys, hz, hk, ?_, ?_⟩
    · intro hall r hr ht hin
      have hden : r.rtype = NSEC ∨ r.rtype = NSEC3 := by simpa using ht
      exact hall r ((mem_negativeAuthority_denial hden).mpr ⟨hr, hin⟩) (mem_cons_of_mem _ ht)
    · intro hall r hr ht
      rcases mem_cons.mp ht with hsoa | hden
      · exact authentic_of_soa hr hsoa
      · obtain ⟨hr, hin⟩ := (mem_negativeAuthority_denial (by simpa using hden)).mp hr
        exact hall r hr hden hin

/-! ## A forged NSEC beside a genuine one -/

/-- NSEC data of `a.`: no types but its own. -/
def nsecData : Bytes := Name.root.wire ++ typeBitmap [RRSIG, NSEC]

/-- The NSEC of `a.`, as the root signs it. -/
def nsecRrset : SignedRrset := rootRrset nameA NSEC (.unknown NSEC nsecData) (by decide +kernel)

/-- An NSEC at `b.` that nobody signed. -/
def forgedNsec : Record := Record.ofData nameB NSEC 300 nsecData (by decide +kernel)

/-- A NODATA reply for `a.`, with the forged NSEC added. -/
def forgedReply : Message where
  authority :=
    [Record.ofData nameA NSEC 300 nsecData (by decide +kernel),
      Record.ofData nameA RRSIG 300 (nsecRrset.rrsigRdata [0]) (by decide +kernel),
      forgedNsec]

/-- A world where the root has signed its keys and the NSEC of `a.`. -/
def forgedEnv : Env Unit :=
  tableEnv
    (idealCrypto [rootDigest] [(rootModulus, rootDnskeyRrset.tbs), (rootModulus, nsecRrset.tbs)])
    1500 [((Name.root, DNSKEY), rootDnskeyReply)]

/-- The denial is Secure, the forged NSEC is served with it, and it does not
    validate under the keys of the root. -/
theorem forgedNsec_served :
    answerType forgedReply nameA Rtype.A = none ∧
    (trustedKeysFor forgedEnv Name.root 1500 { world := () }).1 = (.secure, [rootKey]) ∧
    ∃ auth, (validateFull forgedEnv nameA Rtype.A forgedReply 1500 { world := () }).1 =
        (.secure, auth) ∧
      forgedNsec ∈ auth ∧
      ¬ AuthorityAuthentic forgedEnv.crypto forgedReply [rootKey] 1500 forgedNsec := by
  refine ⟨by decide +kernel, by decide +kernel, forgedReply.authority, ?_⟩
  decide +kernel

/-- The general theorem on the forged reply. -/
theorem negativeAuthority_authentic_forgedReply :
    ∃ auth, (validateFull forgedEnv nameA Rtype.A forgedReply 1500 { world := () }).1 =
        (.secure, auth) ∧
      ∃ zone keys, signingZone forgedReply nameA = some zone ∧
        (trustedKeysFor forgedEnv zone 1500 { world := () }).1 = (.secure, keys) ∧
        ((∀ r ∈ auth, r.rtype ∈ [SOA, NSEC, NSEC3] →
            AuthorityAuthentic forgedEnv.crypto forgedReply keys 1500 r) ↔
          ∀ r ∈ forgedReply.authority, r.rtype ∈ [NSEC, NSEC3] →
            r.name.isInZone zone = true →
            AuthorityAuthentic forgedEnv.crypto forgedReply keys 1500 r) := by
  have hsec : (validateFull forgedEnv nameA Rtype.A forgedReply 1500 { world := () }).1 =
      (.secure, forgedReply.authority) := by decide +kernel
  exact ⟨_, hsec, negativeAuthority_authentic_iff (by decide +kernel) hsec⟩

end Runbound.Dnssec
