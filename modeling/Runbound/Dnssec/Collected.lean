import Runbound.Dnssec.Chain
import Runbound.Dnssec.Signed

/-!
# The denial records a message yields

`collect_validated_nsec` and `collect_validated_nsec3` keep the records of the
authority section whose RRsets validate.

* `mem_collectValidatedNsec`, `mem_collectValidatedNsec3`: which values come out.
* `rrsetValidated_iff`: what validating takes.
* `exists_verifyRrsig`: records with the data of a signed RRset verify.
-/

namespace Runbound.Dnssec

open Wire List Rtype Name

theorem rrset_congr {records : List Record} {a b : Name} {t : U16} (h : a.key = b.key) :
    rrset records a t = rrset records b t := by
  unfold rrset
  congr 1
  funext r
  rw [eqIgnoreAsciiCase_eq_decide, eqIgnoreAsciiCase_eq_decide, h]

variable {crypto : Crypto} {msg : Message} {keys : List Bytes} {now : U32}

theorem mem_rrsigsCovering {t : U16} {records : List Record} {d : Bytes} :
    d ∈ rrsigsCovering t records ↔
      ∃ r ∈ records, r.rtype = RRSIG ∧ r.rdata.data? = some d ∧ coversType t d = true := by
  simp only [rrsigsCovering, mem_filter, mem_filterMap, decide_eq_true_eq]
  constructor
  · rintro ⟨⟨r, ⟨hr, ht⟩, hd⟩, hc⟩; exact ⟨r, hr, ht, hd, hc⟩
  · rintro ⟨r, hr, ht, hd, hc⟩; exact ⟨⟨r, ⟨hr, ht⟩, hd⟩, hc⟩

/-! ## Validated RRsets of the authority section -/

/-- The RRSIGs that `rrset_validated` tries. -/
def authorityRrsigs (msg : Message) (owner : Name) (t : U16) : List Bytes :=
  rrsigsCovering t (msg.authority.filter fun r => r.name.eqIgnoreAsciiCase owner)

theorem rrsetValidated_iff {owner : Name} {t : U16} :
    rrsetValidated crypto msg keys now owner t = true ↔
      ∃ rrsig ∈ authorityRrsigs msg owner t, ∃ key ∈ keys,
        verifyRrsig crypto owner Class.IN t ((rrset msg.authority owner t).map Record.rdata)
          rrsig key now = true := validateRrset_iff

theorem rrsetValidated_congr {a b : Name} {t : U16} (h : a.key = b.key)
    (hval : rrsetValidated crypto msg keys now a t = true) :
    rrsetValidated crypto msg keys now b t = true := by
  have hsigs : (msg.authority.filter fun r => r.name.eqIgnoreAsciiCase a) =
      msg.authority.filter fun r => r.name.eqIgnoreAsciiCase b := by
    congr 1
    funext r
    rw [eqIgnoreAsciiCase_eq_decide, eqIgnoreAsciiCase_eq_decide, h]
  unfold rrsetValidated at hval ⊢
  rw [← rrset_congr h, ← hsigs]
  exact validateRrset_congr h hval

/-- `r` is a denial record of type `t` whose RRset validates, and `d` is its data. -/
structure Yields (crypto : Crypto) (msg : Message) (keys : List Bytes) (now : U32) (t : U16)
    (r : Record) (d : Bytes) : Prop where
  mem : r ∈ msg.authority
  rtype : r.rtype = t
  validated : rrsetValidated crypto msg keys now r.name t = true
  data : r.rdata.data? = some d

theorem mem_collectValidatedNsec {n : Nsec} :
    n ∈ collectValidatedNsec crypto msg keys now ↔
      ∃ r d, Yields crypto msg keys now NSEC r d ∧ Nsec.parse r.name d = some n := by
  simp only [collectValidatedNsec, mem_filterMap, mem_filter, Bool.and_eq_true,
    decide_eq_true_eq, Option.bind_eq_some_iff]
  constructor
  · rintro ⟨r, ⟨hr, ht, hv⟩, d, hd, hn⟩; exact ⟨r, d, ⟨hr, ht, hv, hd⟩, hn⟩
  · rintro ⟨r, d, ⟨hr, ht, hv, hd⟩, hn⟩; exact ⟨r, ⟨hr, ht, hv⟩, d, hd, hn⟩

theorem mem_collectValidatedNsec3 {n3 : Nsec3} :
    n3 ∈ collectValidatedNsec3 crypto msg keys now ↔
      ∃ r d, Yields crypto msg keys now NSEC3 r d ∧ Nsec3.parse r.name d = some n3 := by
  simp only [collectValidatedNsec3, mem_filterMap, mem_filter, Bool.and_eq_true,
    decide_eq_true_eq, Option.bind_eq_some_iff]
  constructor
  · rintro ⟨r, ⟨hr, ht, hv⟩, d, hd, hn⟩; exact ⟨r, d, ⟨hr, ht, hv, hd⟩, hn⟩
  · rintro ⟨r, d, ⟨hr, ht, hv, hd⟩, hn⟩; exact ⟨r, ⟨hr, ht, hv⟩, d, hd, hn⟩

/-! ## RRsets the zone signed -/

/-- The zone's signature over an RRset verifies at this time under one of the keys. -/
def SignedBy (crypto : Crypto) (keys : List Bytes) (now : U32) (R : SignedRrset)
    (signature : Bytes) : Prop :=
  withinValidity R.params.inception R.params.expiration now = true ∧
    ∃ key ∈ keys, key[3]? = some R.params.algorithm ∧
      verifySignature crypto R.params.algorithm (key.drop 4) R.tbs signature = true

instance (crypto : Crypto) (keys : List Bytes) (now : U32) (R : SignedRrset) (signature : Bytes) :
    Decidable (SignedBy crypto keys now R signature) := by unfold SignedBy; infer_instance

theorem coversType_rrsigRdata (R : SignedRrset) (signature : Bytes) :
    coversType R.rtype (R.rrsigRdata signature) = true := by
  exact decide_eq_true (u16OfBe_u16Be _)

/-- Records with the data of a signed RRset, at the owner it was signed for or at a
    name its signature expands to, verify with its RRSIG. -/
theorem exists_verifyRrsig {R : SignedRrset} {signature : Bytes} {owner tbsOwner : Name}
    {rdatas : List Rdata} (hs : SignedBy crypto keys now R signature)
    (hzone : owner.isInZone R.params.signerName = true)
    (howner : rrsigOwnerName owner (rrsigLabels R.owner) = some tbsOwner)
    (htbs : tbsOwner.key = R.owner.key)
    (hset : ∀ x, x ∈ rdatas.map Rdata.emitCanonical ↔ x ∈ R.rdatas.map Rdata.emitCanonical) :
    ∃ key ∈ keys,
      verifyRrsig crypto owner Class.IN R.rtype rdatas (R.rrsigRdata signature) key now = true := by
  obtain ⟨hwin, key, hkey, halg, hver⟩ := hs
  exact ⟨key, hkey, verifyRrsig_rrsigRdata R hwin hzone halg howner htbs hset hver⟩

end Runbound.Dnssec
