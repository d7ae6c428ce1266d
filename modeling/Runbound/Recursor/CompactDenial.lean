import Runbound.Dnssec.NegativeAuthority
import Runbound.Recursor.Runs

/-!
# Compact denial of existence

`resolve_validated` turns NOERROR into NXDOMAIN when the authority it is about to
serve has an NSEC at the target whose bitmap carries NXNAME. That authority holds
every in-zone NSEC of the reply, so what decides is the unvalidated record.

A NODATA that NSEC records prove is proved by a validated one at the target, and then
the RRset that has the NXNAME is the validated one. So a forged NSEC gets through only
beside NSEC3 records that prove the NODATA.

* `exists_validated_nxname`: one Secure hop whose reply does not mix the two.
* `compactDenial_authenticated`: over any run without such replies, a rewritten
  response code rests on an authenticated NSEC.
* `forgedNxname_rewrites`: a NODATA proved by NSEC3, with a forged NSEC added, is
  served as NXDOMAIN.
-/

namespace Runbound.Recursor

open Wire Dnssec Rtype Rcode

variable {σ : Type} {env : Env σ}

/-- `r` is an NSEC of the reply at the target that carries NXNAME. -/
structure NxnameNsec (hop : Hop σ) (r : Record) : Prop where
  mem : r ∈ hop.msg.authority
  rtype : r.rtype = NSEC
  owner : r.name.eqIgnoreAsciiCase hop.target = true
  nxname : ∃ data, r.rdata.data? = some data ∧ nsecBitmapHasNxname data = true

/-- The response code changed: what the terminal hop had to look like. -/
theorem terminalRcode_cases (verdict : Verdict) (rcode : U16) (records auth : List Record)
    (target : Name) :
    terminalRcode verdict rcode records auth target = rcode ∨
    (terminalRcode verdict rcode records auth target = NXDOMAIN ∧ verdict = .secure ∧
      rcode = NOERROR ∧ isCompactNxdomain auth target = true) := by
  unfold terminalRcode
  split_ifs with h
  · exact Or.inr ⟨rfl, h.1, h.2.1, h.2.2.2⟩
  · exact Or.inl rfl

/-- The NSEC3 records of a reply, validated or not. -/
def nsec3sOf (msg : Message) : List Nsec3 :=
  (msg.authority.filter fun r => r.rtype = NSEC3).filterMap
    fun r => r.rdata.data?.bind (Nsec3.parse r.name)

/-- The reply has an NSEC at the target that carries NXNAME beside an NSEC3 for the target that
    denies the type. -/
def Hop.MixedDenial (env : Env σ) (hop : Hop σ) : Prop :=
  isCompactNxdomain hop.msg.authority hop.target = true ∧
    nsec3ProvesNodata env.crypto (nsec3sOf hop.msg) hop.target hop.qtype = true

instance (hop : Hop σ) : Decidable (hop.MixedDenial env) := instDecidableAnd

/-- `rcode` is that of the reply; or the reply said NOERROR, `rcode` is NXDOMAIN, and the reply has
    an NSEC at the target with NXNAME whose RRset validates under the trusted keys of the zone. -/
def Hop.Authentic (env : Env σ) (hop : Hop σ) (rcode : U16) : Prop :=
  rcode = hop.msg.header.rcodeLow ∨
    (hop.msg.header.rcodeLow = NOERROR ∧ rcode = NXDOMAIN ∧
      ∃ zone keys r, signingZone hop.msg hop.target = some zone ∧
        (trustedKeysFor env.toEnv zone hop.now hop.before).1 = (.secure, keys) ∧
        NxnameNsec hop r ∧ rrsetValidated env.crypto hop.msg keys hop.now r.name NSEC = true)

/-- A record of the served authority that makes it a compact denial is an NSEC of the reply. -/
theorem exists_nxnameNsec {hop : Hop σ} {keys : List Bytes} {zone : Name}
    (hc : isCompactNxdomain (validatedNegativeAuthority env.crypto hop.msg keys hop.now zone)
      hop.target = true) : ∃ r, NxnameNsec hop r := by
  obtain ⟨r, hr, hprop⟩ := List.any_eq_true.mp hc
  simp only [Bool.and_eq_true, decide_eq_true_eq] at hprop
  obtain ⟨⟨hrt, howner⟩, hnx⟩ := hprop
  obtain ⟨hr, -⟩ := (mem_negativeAuthority_denial (Or.inl hrt)).mp hr
  refine ⟨r, hr, hrt, howner, ?_⟩
  cases hd : r.rdata.data? with
  | none => simp [hd] at hnx
  | some data => exact ⟨data, rfl, by simpa [hd] using hnx⟩

theorem NxnameNsec.isCompactNxdomain {hop : Hop σ} {r : Record} (h : NxnameNsec hop r) :
    isCompactNxdomain hop.msg.authority hop.target = true := by
  obtain ⟨data, hdata, hnx⟩ := h.nxname
  refine List.any_eq_true.mpr ⟨r, h.mem, ?_⟩
  simp [h.rtype, h.owner, hdata, hnx]

/-- A NODATA that was accepted is proved by a validated NSEC at the name, or by NSEC3 records of
    the message. -/
theorem validateDenial_nodata {crypto : Crypto} {msg : Message} {keys : List Bytes} {now : U32}
    {qname zone : Name} {qtype : U16} (hno : msg.header.rcodeLow = NOERROR)
    (h : validateDenial crypto msg keys now qname qtype zone = true) :
    rrsetValidated crypto msg keys now qname NSEC = true ∨
      nsec3ProvesNodata crypto (nsec3sOf msg) qname qtype = true := by
  simp only [validateDenial, hno] at h
  split_ifs at h with hempty hrcode
  · exact absurd hrcode (by decide)
  · rcases (Bool.or_eq_true _ _).mp h with h | h
    · obtain ⟨n, hn, hproves⟩ := List.any_eq_true.mp h
      obtain ⟨r, d, hr, hparse⟩ := mem_collectValidatedNsec.mp hn
      obtain ⟨p, -, rfl⟩ := Option.map_eq_some_iff.mp hparse
      simp only [nsecProvesNodata, Bool.and_eq_true, Name.eqIgnoreAsciiCase_iff] at hproves
      exact Or.inl (rrsetValidated_congr hproves.1.1 hr.validated)
    · obtain ⟨n3, hn3, hproves⟩ := List.any_eq_true.mp h
      obtain ⟨r, d, hr, hparse⟩ := mem_collectValidatedNsec3.mp hn3
      refine Or.inr (List.any_eq_true.mpr ⟨n3, List.mem_filterMap.mpr ⟨r, ?_, ?_⟩, hproves⟩)
      · simp [hr.mem, hr.rtype]
      · rw [hr.data, Option.bind_some, hparse]

/-- A Secure hop whose served authority is a compact denial. -/
theorem exists_validated_nxname {hop : Hop σ} {auth : List Record}
    (hmixed : ¬ hop.MixedDenial env) (hno : hop.msg.header.rcodeLow = NOERROR)
    (hj : hop.judgement env = (.secure, auth)) (hc : isCompactNxdomain auth hop.target = true) :
    ∃ zone keys r, signingZone hop.msg hop.target = some zone ∧
      (trustedKeysFor env.toEnv zone hop.now hop.before).1 = (.secure, keys) ∧
      NxnameNsec hop r ∧ rrsetValidated env.crypto hop.msg keys hop.now r.name NSEC = true := by
  obtain ⟨zone, keys, hz, hk, hj⟩ := validateFull_secure hj
  rcases judge_secure hj with ⟨t, -, -, rfl⟩ | ⟨-, hdenial, rfl⟩
  · cases hc
  · obtain ⟨r, hr⟩ := exists_nxnameNsec hc
    refine ⟨zone, keys, r, hz, hk, hr, ?_⟩
    rcases validateDenial_nodata hno hdenial with hval | hnsec3
    · exact rrsetValidated_congr (Name.eqIgnoreAsciiCase_iff.mp hr.owner).symm hval
    · exact absurd ⟨hr.isCompactNxdomain, hnsec3⟩ hmixed

/-- After any run from empty caches in which no reply has both an NSEC at the target with NXNAME
    and an NSEC3 that denies the type there: the response code of an answer is that of the reply
    it ends with, or it was turned into NXDOMAIN on a validated NSEC. -/
theorem compactDenial_authenticated (ops : List Op) (w : σ) {qname : Name} {qtype : U16}
    {now : U32} {v : Validated} {s : Resolver σ}
    (h : resolveValidated env qname qtype now (run env ops { chain := { world := w } }) =
      (some v, s)) (hmixed : ∀ hop ∈ s.log, ¬ hop.MixedDenial env) :
    ∃ hop, HopOf s.log (qname, qtype) hop ∧ EndedBy env hop v ∧ hop.Authentic env v.rcode := by
  obtain ⟨hop, hhop, hend⟩ := served_justified endedBy_justifies ops w h
  refine ⟨hop, hhop, hend, ?_⟩
  obtain ⟨v', hv', ⟨-, hrc⟩ | ⟨-, records, rrsigs, verdict, rfl⟩⟩ := hend
  · exact Or.inl (hv'.rcode.trans hrc)
  · rw [hv'.rcode]
    rcases terminalRcode_cases (worstVerdict verdict (hop.judgement env).1)
      hop.msg.header.rcodeLow (records ++ rrset hop.msg.answers hop.target hop.qtype)
      (hop.judgement env).2 hop.target with hrc | ⟨hrc, hsec, hno, hcompact⟩
    · exact Or.inl hrc
    · have hj : hop.judgement env = (.secure, (hop.judgement env).2) :=
        Prod.ext (worstVerdict_secure hsec).2 rfl
      exact Or.inr ⟨hno, hrc, exists_validated_nxname (hmixed hop hhop.mem) hno hj hcompact⟩

/-! ## A signed NXNAME -/

/-- The name after `a.` in canonical order. -/
def nextOfA : Name := ⟨[[0], [97]], by decide⟩

/-- The NSEC of `a.` that denies the name: only RRSIG, NSEC and NXNAME exist there. -/
def compactNsec : Bytes := nextOfA.wire ++ typeBitmap [RRSIG, NSEC, NXNAME]

/-- That NSEC, as the root signs it. -/
def compactRrset : SignedRrset :=
  rootRrset nameA NSEC (.unknown NSEC compactNsec) (by decide +kernel)

/-- A compact denial of `a.` -/
def compactReply : Message where
  authority :=
    [Record.ofData nameA NSEC 300 compactNsec (by decide +kernel),
      Record.ofData nameA RRSIG 300 (compactRrset.rrsigRdata [0]) (by decide +kernel)]

/-- A world where the root has signed its keys and the compact denial. -/
def compactEnv : Env Unit where
  toEnv := tableEnv
    (idealCrypto [rootDigest]
      [(rootModulus, rootDnskeyRrset.tbs), (rootModulus, compactRrset.tbs)])
    1500 [((Name.root, DNSKEY), rootDnskeyReply), ((nameA, Rtype.A), compactReply)]
  instant _ := (0, ())

/-- The denial is served as NXDOMAIN, on its own NSEC; the second query is answered from the
    cache. -/
theorem compactDenial_authenticated_compactEnv :
    ∃ v s, resolveValidated compactEnv nameA Rtype.A 1500
        (run compactEnv [.query nameA Rtype.A 1500] { chain := { world := () } }) = (some v, s) ∧
      v.rcode = NXDOMAIN ∧
      ∃ hop, HopOf s.log (nameA, Rtype.A) hop ∧ EndedBy compactEnv hop v ∧
        hop.Authentic compactEnv v.rcode := by
  have hval : (resolveValidated compactEnv nameA Rtype.A 1500
      (run compactEnv [.query nameA Rtype.A 1500] { chain := { world := () } })).1 =
      some ⟨[], [], compactReply.authority, NXDOMAIN, .secure⟩ := by
    decide +kernel
  have hres : resolveValidated compactEnv nameA Rtype.A 1500
      (run compactEnv [.query nameA Rtype.A 1500] { chain := { world := () } }) = (some _, _) :=
    Prod.ext hval rfl
  have hpure : ∀ hop ∈ (resolveValidated compactEnv nameA Rtype.A 1500
      (run compactEnv [.query nameA Rtype.A 1500] { chain := { world := () } })).2.log,
      ¬ hop.MixedDenial compactEnv := by
    decide +kernel
  exact ⟨_, _, hres, rfl, compactDenial_authenticated [.query nameA Rtype.A 1500] () hres hpure⟩

/-! ## A forged NXNAME -/

/-- The NSEC3 of `a.` in a root zone with one name hashed. -/
def nsec3Data : Bytes := nsec3Rdata 0 0 [] (List.replicate 20 0) [RRSIG]

/-- The NSEC3 of `a.`, as the root signs it. -/
def nsec3Rrset : SignedRrset :=
  rootRrset nsec3OwnerA NSEC3 (.unknown NSEC3 nsec3Data) (by decide +kernel)

/-- An NSEC at `a.` with NXNAME that nobody signed. -/
def forgedNxname : Record :=
  Record.ofData nameA NSEC 300 (Name.root.wire ++ typeBitmap [NXNAME]) (by decide +kernel)

/-- A NOERROR reply that proves NODATA by NSEC3, with the forged NSEC added. -/
def nxnameReply : Message where
  authority :=
    [Record.ofData nsec3OwnerA NSEC3 300 nsec3Data (by decide +kernel),
      Record.ofData nsec3OwnerA RRSIG 300 (nsec3Rrset.rrsigRdata [0]) (by decide +kernel),
      forgedNxname]

/-- A world where the root has signed its keys and the NSEC3 of `a.` -/
def nxnameEnv : Env Unit where
  toEnv := tableEnv
    (idealCrypto [rootDigest] [(rootModulus, rootDnskeyRrset.tbs), (rootModulus, nsec3Rrset.tbs)])
    1500 [((Name.root, DNSKEY), rootDnskeyReply), ((nameA, Rtype.A), nxnameReply)]
  instant _ := (0, ())

/-- The reply says NOERROR, its only NSEC at `a.` is not signed, and the answer is
    NXDOMAIN, marked Secure. -/
theorem forgedNxname_rewrites :
    nxnameReply.header.rcodeLow = NOERROR ∧
    (trustedKeysFor nxnameEnv.toEnv Name.root 1500 { world := () }).1 = (.secure, [rootKey]) ∧
    rrsetValidated nxnameEnv.crypto nxnameReply [rootKey] 1500 nameA NSEC = false ∧
    ∃ v, (resolveValidated nxnameEnv nameA Rtype.A 1500 { chain := { world := () } }).1 = some v ∧
      v.verdict = .secure ∧ v.rcode = NXDOMAIN := by
  decide +kernel

end Runbound.Recursor
