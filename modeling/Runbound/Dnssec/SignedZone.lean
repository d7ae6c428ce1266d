import Runbound.Dnssec.Collected
import Runbound.Dnssec.Zone

/-!
# Signed zones and the messages made of their records

A zone denies with its NSEC chain or with its NSEC3 ring. What the validator
collects from a message that holds only records of the zone is part of that chain.

* `data_eq_of_owner`, `owner_eq_of_data`: one denial record for each owner, and its
  data is published nowhere else.
* `exists_yields_of_served`: a record that is served with its signature is collected.
* `Genuine.nsec`, `Genuine.nsec3`: nothing else is.
-/

namespace Runbound.Dnssec

open Wire Lib List Rtype Name

/-- A zone with its way of denying. -/
inductive SignedZone (crypto : Crypto)
  | nsec (z : Zone)
  | nsec3 (z : Nsec3Zone crypto)

namespace SignedZone

variable {crypto : Crypto}

/-- The names and types of the zone. -/
def zone : SignedZone crypto → Zone
  | nsec z => z
  | nsec3 z => z.toZone

/-- The type of the denial records. -/
def rtype : SignedZone crypto → U16
  | nsec _ => NSEC
  | nsec3 _ => NSEC3

/-- The denial records: owner and data. -/
def published : SignedZone crypto → List (Name × Bytes)
  | nsec z => (ring z.nodes).map fun a => (a.1.name, nsecRdata a.2.name a.1.types)
  | nsec3 z => (ring z.names).map fun a => (z.ownerName a.1.name, z.rdata a)

/-- The chain has a record for the name itself: it owns records, or, with NSEC3, it
    exists. -/
def HasRecordFor (Z : SignedZone crypto) (p : List Bytes) : Prop :=
  match Z with
  | nsec z => p ∈ z.owners
  | nsec3 z => z.Exists p

/-- `R` is the signed RRset of a denial record. -/
structure IsRrset (Z : SignedZone crypto) (R : SignedRrset) (p : Name × Bytes) : Prop where
  rtype : R.rtype = Z.rtype
  owner : R.owner.key = p.1.key
  rdatas : R.rdatas = [.unknown Z.rtype p.2]
  signer : R.params.signerName.key = Z.zone.apex.key

theorem rtype_cases (Z : SignedZone crypto) : Z.rtype = NSEC ∨ Z.rtype = NSEC3 := by
  cases Z with
  | nsec z => exact Or.inl rfl
  | nsec3 z => exact Or.inr rfl

end SignedZone

namespace Nsec3Zone

variable {crypto : Crypto} {z : Nsec3Zone crypto}

theorem key_ownerName (n : Name) :
    (z.ownerName n).key = z.apex.key ++ [lower (base32hexEncode (z.hash n))] :=
  key_mk_cons _ _ _

theorem hash_eq_of_ownerName {a b : Name} (h : (z.ownerName a).key = (z.ownerName b).key) :
    z.hash a = z.hash b := by
  have hdec : ∀ n, base32hexDecode (lower (base32hexEncode (z.hash n))) = some (z.hash n) :=
    fun n => base32hexDecode_lower_encode (n := 4) (z.param.hash_length crypto n)
  rw [key_ownerName, key_ownerName, append_cancel_left_eq] at h
  have hlabel : lower (base32hexEncode (z.hash a)) = lower (base32hexEncode (z.hash b)) :=
    (List.cons.inj h).1
  exact Option.some.inj ((hdec a).symm.trans (hlabel ▸ hdec b))

/-- Only the case of the letters of an owner name can differ. -/
theorem parse_congr {o o' : Name} (h : o.key = o'.key) (d : Bytes) :
    Nsec3.parse o d = Nsec3.parse o' d := by
  have hlow : o.labelsLower = o'.labelsLower := reverse_injective h
  unfold Nsec3.parse
  rw [hlow]

end Nsec3Zone

variable {p : Name × Bytes} {a : Node × Node} {z : Zone}

namespace SignedZone

variable {crypto : Crypto} {Z : SignedZone crypto}

theorem rtype_unstructured (Z : SignedZone crypto) : Z.rtype ∉ Rdata.structuredTypes := by
  rcases Z.rtype_cases with h | h <;> rw [h] <;> decide

theorem data_eq_of_owner {p' : Name × Bytes} (hp : p ∈ Z.published) (hp' : p' ∈ Z.published)
    (h : p.1.key = p'.1.key) : p.2 = p'.2 := by
  cases Z with
  | nsec z =>
    obtain ⟨a, ha, rfl⟩ := mem_map.mp hp
    obtain ⟨a', ha', rfl⟩ := mem_map.mp hp'
    rw [ring_functional z.sorted ha ha' h]
  | nsec3 z =>
    obtain ⟨a, ha, rfl⟩ := mem_map.mp hp
    obtain ⟨a', ha', rfl⟩ := mem_map.mp hp'
    rw [ring_functional z.hashed ha ha' (Nsec3Zone.hash_eq_of_ownerName h)]

/-- The data of a denial record names the next one, so it is published once. -/
theorem owner_eq_of_data {p' : Name × Bytes} (hp : p ∈ Z.published) (hp' : p' ∈ Z.published)
    (h : p.2 = p'.2) : p.1.key = p'.1.key := by
  cases Z with
  | nsec z =>
    obtain ⟨a, ha, rfl⟩ := mem_map.mp hp
    obtain ⟨a', ha', rfl⟩ := mem_map.mp hp'
    obtain ⟨hnext, -⟩ := wire_append_inj h
    have hnode : a.2 = a'.2 := eq_of_key_eq z.sorted (mem_of_mem_ring ha).2 (mem_of_mem_ring ha').2
      (by rw [hnext])
    exact ring_injective_right z.sorted ha (hnode ▸ ha')
  | nsec3 z =>
    obtain ⟨a, ha, rfl⟩ := mem_map.mp hp
    obtain ⟨a', ha', rfl⟩ := mem_map.mp hp'
    have hrest : z.hash a.2.name ++ typeBitmap a.1.types =
        z.hash a'.2.name ++ typeBitmap a'.1.types := by
      simpa [Nsec3Zone.rdata, nsec3Rdata, Nsec3Zone.hash, Nsec3Param.hash_length] using h
    have hnext : z.hash a.2.name = z.hash a'.2.name :=
      (append_inj hrest (by rw [Nsec3Zone.hash, Nsec3Zone.hash, Nsec3Param.hash_length,
        Nsec3Param.hash_length])).1
    have hnode : a.2 = a'.2 := eq_of_key_eq z.hashed (mem_of_mem_ring ha).2 (mem_of_mem_ring ha').2
      hnext
    have hown := ring_injective_right z.hashed (b := a.1) (c := a'.1) (d := a'.2) (hnode ▸ ha) ha'
    rw [Nsec3Zone.key_ownerName, Nsec3Zone.key_ownerName, Nsec3Zone.hash, Nsec3Zone.hash, hown]

end SignedZone

/-! ## Messages -/

section Messages

variable {crypto : Crypto} (Z : SignedZone crypto) (keys : List Bytes) (now : U32) (msg : Message)

/-- The denial records of the message are records of the zone. -/
def Genuine : Prop :=
  ∀ r ∈ msg.authority, r.rtype = NSEC ∨ r.rtype = NSEC3 →
    r.rtype = Z.rtype ∧ ∃ p ∈ Z.published, r.name.key = p.1.key ∧ r.rdata.data? = some p.2

instance : Decidable (Genuine Z msg) := by unfold Genuine; infer_instance

/-- A denial record of the zone is in the message, with its signature. -/
structure Served (p : Name × Bytes) : Prop where
  record : ∃ r ∈ msg.authority, r.rtype = Z.rtype ∧ r.name.key = p.1.key
  rrsig : ∃ s ∈ msg.authority, s.rtype = RRSIG ∧ s.name.key = p.1.key ∧
    ∃ R signature, s.rdata.data? = some (R.rrsigRdata signature) ∧ Z.IsRrset R p ∧
      SignedBy crypto keys now R signature

variable {Z keys now msg}

theorem Genuine.of_yields (hg : Genuine Z msg) {t : U16} (ht : t = NSEC ∨ t = NSEC3)
    {r : Record} {d : Bytes} (hy : Yields crypto msg keys now t r d) :
    t = Z.rtype ∧ ∃ p ∈ Z.published, r.name.key = p.1.key ∧ d = p.2 := by
  obtain ⟨hrt, p, hp, hkey, hdata⟩ := hg r hy.mem (hy.rtype.symm ▸ ht)
  refine ⟨hy.rtype.symm.trans hrt, p, hp, hkey, ?_⟩
  exact Option.some.inj (hy.data.symm.trans hdata)

theorem exists_yields_of_served (hg : Genuine Z msg) (hp : p ∈ Z.published)
    (hs : Served Z keys now msg p) :
    ∃ r, Yields crypto msg keys now Z.rtype r p.2 ∧ r.name.key = p.1.key := by
  obtain ⟨r, hr, hrt, hkey⟩ := hs.record
  obtain ⟨s, hsmem, hst, hskey, R, signature, hsd, hR, hsigned⟩ := hs.rrsig
  -- every record of the RRset has the data of this one
  have hdata : ∀ r' ∈ rrset msg.authority r.name Z.rtype, r'.rdata = .unknown Z.rtype p.2 := by
    intro r' hr'
    obtain ⟨hr'mem, hrt', hname⟩ := mem_rrset.mp hr'
    obtain ⟨-, p', hp', hkey', hd'⟩ := hg r' hr'mem (hrt'.symm ▸ Z.rtype_cases)
    have heq : p'.2 = p.2 := SignedZone.data_eq_of_owner hp' hp (by
      rw [← hkey', eqIgnoreAsciiCase_iff.mp hname, hkey])
    obtain ⟨d, hd, -⟩ := r'.rdata_eq_unknown (hrt'.symm ▸ Z.rtype_unstructured)
    rw [hd, Rdata.data?, Option.some.injEq] at hd'
    rw [hd, hrt', hd', heq]
  have hrmem : r ∈ rrset msg.authority r.name Z.rtype :=
    mem_rrset.mpr ⟨hr, hrt, eqIgnoreAsciiCase_refl _⟩
  refine ⟨r, ⟨hr, hrt, ?_, by rw [hdata r hrmem]; rfl⟩, hkey⟩
  have hset : ∀ x, x ∈ ((rrset msg.authority r.name Z.rtype).map Record.rdata).map
      Rdata.emitCanonical ↔ x ∈ R.rdatas.map Rdata.emitCanonical := by
    intro x
    rw [hR.rdatas]
    simp only [mem_map, exists_exists_and_eq_and, map_cons, map_nil,
      mem_singleton, Rdata.emitCanonical_unknown]
    constructor
    · rintro ⟨r', hr', rfl⟩; rw [hdata r' hr']; rfl
    · rintro rfl; exact ⟨r, hrmem, by rw [hdata r hrmem]; rfl⟩
  have hRkey : r.name.key = R.owner.key := hkey.trans hR.owner.symm
  obtain ⟨o, ho, hok⟩ : ∃ o, rrsigOwnerName r.name (rrsigLabels R.owner) = some o ∧
      o.key = R.owner.key := by
    have hmap := rrsigOwnerName_congr hRkey (rrsigLabels R.owner)
    rw [rrsigOwnerName_rrsigLabels] at hmap
    exact Option.map_eq_some_iff.mp hmap
  have hzone : r.name.isInZone R.params.signerName = true := by
    rw [isInZone_iff, hRkey]
    exact isInZone_iff.mp R.in_zone
  obtain ⟨key, hk, hver⟩ := exists_verifyRrsig hsigned hzone ho hok hset
  refine rrsetValidated_iff.mpr ⟨R.rrsigRdata signature, ?_, key, hk, hR.rtype ▸ hver⟩
  refine mem_rrsigsCovering.mpr ⟨s, mem_filter.mpr ⟨hsmem, ?_⟩, hst, hsd, ?_⟩
  · exact eqIgnoreAsciiCase_iff.mpr (hskey.trans hkey.symm)
  · exact hR.rtype ▸ coversType_rrsigRdata R signature

/-! ## Collected values -/

/-- The NSEC value stands for an arc of the chain; the owner may differ in case. -/
structure IsArc (n : Nsec) (a : Node × Node) : Prop where
  owner : n.owner.key = a.1.name.key
  next : n.next = a.2.name
  bitmap : n.bitmap = typeBitmap a.1.types

theorem isArc_of_parse {owner : Name} {n : Nsec} (h : owner.key = a.1.name.key)
    (hn : Nsec.parse owner (nsecRdata a.2.name a.1.types) = some n) : IsArc n a := by
  rw [parse_nsecRdata, Option.some.injEq] at hn
  subst hn
  exact ⟨h, rfl, rfl⟩

theorem Genuine.nsec (hg : Genuine (.nsec z : SignedZone crypto) msg) {n : Nsec}
    (hn : n ∈ collectValidatedNsec crypto msg keys now) : ∃ a ∈ ring z.nodes, IsArc n a := by
  obtain ⟨r, d, hy, hparse⟩ := mem_collectValidatedNsec.mp hn
  obtain ⟨-, p, hp, hkey, rfl⟩ := hg.of_yields (Or.inl rfl) hy
  obtain ⟨a, ha, rfl⟩ := mem_map.mp hp
  exact ⟨a, ha, isArc_of_parse hkey hparse⟩

theorem Genuine.nsec3 {z : Nsec3Zone crypto} (hg : Genuine (.nsec3 z) msg) :
    collectValidatedNsec3 crypto msg keys now ⊆ z.nsec3s := by
  intro n3 hn
  obtain ⟨r, d, hy, hparse⟩ := mem_collectValidatedNsec3.mp hn
  obtain ⟨-, p, hp, hkey, rfl⟩ := hg.of_yields (Or.inr rfl) hy
  obtain ⟨a, ha, rfl⟩ := mem_map.mp hp
  rw [Nsec3Zone.parse_congr hkey, Nsec3Zone.parse_nsec3Rdata, Option.some.injEq] at hparse
  exact hparse ▸ mem_map_of_mem ha

/-- A zone with NSEC has no NSEC3. -/
theorem Genuine.nsec_only (hg : Genuine (.nsec z : SignedZone crypto) msg) :
    collectValidatedNsec3 crypto msg keys now = [] := by
  refine eq_nil_iff_forall_not_mem.mpr fun n3 hn => ?_
  obtain ⟨r, d, hy, -⟩ := mem_collectValidatedNsec3.mp hn
  exact absurd (hg.of_yields (Or.inr rfl) hy).1 (show NSEC3 ≠ NSEC by decide)

/-- A zone with NSEC3 has no NSEC. -/
theorem Genuine.nsec3_only {z : Nsec3Zone crypto} (hg : Genuine (.nsec3 z) msg) :
    collectValidatedNsec crypto msg keys now = [] := by
  refine eq_nil_iff_forall_not_mem.mpr fun n hn => ?_
  obtain ⟨r, d, hy, -⟩ := mem_collectValidatedNsec.mp hn
  exact absurd (hg.of_yields (Or.inl rfl) hy).1 (show NSEC ≠ NSEC3 by decide)

theorem exists_nsec_of_served (hg : Genuine (.nsec z : SignedZone crypto) msg)
    (ha : a ∈ ring z.nodes)
    (hs : Served (.nsec z : SignedZone crypto) keys now msg
      (a.1.name, nsecRdata a.2.name a.1.types)) :
    ∃ n ∈ collectValidatedNsec crypto msg keys now, IsArc n a := by
  obtain ⟨r, hy, hkey⟩ := exists_yields_of_served hg (mem_map_of_mem ha) hs
  have hparse := parse_nsecRdata r.name a.2.name a.1.types
  exact ⟨_, mem_collectValidatedNsec.mpr ⟨r, _, hy, hparse⟩, isArc_of_parse hkey hparse⟩

theorem nsec3_of_served {z : Nsec3Zone crypto} (hg : Genuine (.nsec3 z) msg) (ha : a ∈ ring z.names)
    (hs : Served (.nsec3 z) keys now msg (z.ownerName a.1.name, z.rdata a)) :
    z.nsec3 a ∈ collectValidatedNsec3 crypto msg keys now := by
  obtain ⟨r, hy, hkey⟩ := exists_yields_of_served hg (mem_map_of_mem ha) hs
  refine mem_collectValidatedNsec3.mpr ⟨r, _, hy, ?_⟩
  rw [Nsec3Zone.parse_congr hkey, Nsec3Zone.parse_nsec3Rdata]

end Messages

end Runbound.Dnssec
