import Runbound.Dnssec.DenialComplete

/-!
# The zones on the way to a name

The world a walk from the root runs in: any set of zones in which every cut on the way
to a name is signed, whose keys verify only what they signed. The records they signed
may turn up in any message.

* `denialSecure_eq_false`: no message denies the DS of a name on the way, unless the
  zone has signed an opt-out NSEC3 that covers the name or a wildcard NSEC of an
  unsigned delegation that expands to it.
* `trusts_of_validateDnskeyRrset`: keys that a digest of the world names are keys of
  the zone.
* `delegated_of_validateRrset`: a DS RRset that validates names keys of the child.
-/

namespace Runbound.Dnssec

open Wire Lib List Rtype

/-! ## Worlds -/

/-- The zones on the way to `q`: their keys, what they sign and which types they have,
    indexed by the key of the apex. Signatures verify only what a zone signed, digests
    commit to its keys, bitmaps are honest, and every cut on the way is signed. -/
structure PathWorld (crypto : Crypto) (q : Name) where
  IsZone : List Bytes → Prop
  keys : List Bytes → List Bytes
  signed : List Bytes → SignedRrset → Prop
  types : List Bytes → List Bytes → U16 → Prop
  only_signs : ∀ p, IsZone p → OnlySigns crypto (keys p) (signed p)
  anchored : ∀ key, (∃ ds ∈ rootAnchors, dnskeyMatchesDs crypto Name.root key ds = true) →
    IsZone [] ∧ key ∈ keys []
  dnskeys : ∀ p R, IsZone p → signed p R → R.rtype = DNSKEY →
    ∀ rd ∈ R.rdatas, rd.emitCanonical ∈ keys p
  delegated : ∀ p R, IsZone p → signed p R → R.rtype = DS →
    ∀ rd ∈ R.rdatas, ∀ ds, parseDs rd.emitCanonical = some ds → ∀ n : Name, n.key <+: q.key →
    ∀ key, dnskeyMatchesDs crypto n key ds = true → IsZone n.key ∧ key ∈ keys n.key
  nsec3_owner : ∀ p R, IsZone p → signed p R → R.rtype = NSEC3 → ∀ w, R.owner.key ≠ star w
  nsec_types : ∀ p R, IsZone p → signed p R → R.rtype = NSEC →
    ∀ rd ∈ R.rdatas, ∀ next bitmap, parseNsec rd.emitCanonical = some (next, bitmap) →
    ∀ t, typeInBitmap bitmap t = true ↔ types p R.owner.key t
  nsec3_types : ∀ p R, IsZone p → signed p R → R.rtype = NSEC3 →
    ∀ rd ∈ R.rdatas, ∀ owner : Name, owner.key = R.owner.key →
    ∀ n3, Nsec3.parse owner rd.emitCanonical = some n3 →
    ∀ n : Name, n.key <+: q.key → n3.matchesName crypto n = true →
    ∀ t, typeInBitmap n3.bitmap t = true ↔ types p n.key t
  signed_cuts : ∀ p n, IsZone p → p <+: n → p ≠ n → n <+: q.key → types p n NS → types p n DS

namespace PathWorld

variable {crypto : Crypto} {q : Name} (W : PathWorld crypto q)

/-- A name on the way to `q`, strictly below the apex `p`. -/
def Below (q : Name) (p : List Bytes) (n : Name) : Prop := p <+: n.key ∧ p ≠ n.key ∧ n.key <+: q.key

/-- No zone on the way has signed an opt-out NSEC3 that covers a name below it on the
    way to `q`, nor a wildcard NSEC with NS and neither DS nor SOA that expands to one. -/
structure NoReplay : Prop where
  optOut : ∀ p, W.IsZone p → ∀ n, Below q p n → ∀ R, W.signed p R → R.rtype = NSEC3 →
    ∀ rd ∈ R.rdatas, ∀ owner : Name, owner.key = R.owner.key →
    ∀ n3, Nsec3.parse owner rd.emitCanonical = some n3 → n3.optOut = true →
    n3.covers crypto n = false
  wildcard : ∀ p, W.IsZone p → ∀ n, Below q p n → ∀ R, W.signed p R → R.rtype = NSEC →
    ∀ w, R.owner.key = star w → w <+: n.key → n.key ≠ star w →
    ∀ rd ∈ R.rdatas, ∀ next bitmap, parseNsec rd.emitCanonical = some (next, bitmap) →
    bitmapNoDs bitmap = false

/-- `ks` are keys of the zone `p`. -/
def Trusts (p : List Bytes) (ks : List Bytes) : Prop := W.IsZone p ∧ ks ⊆ W.keys p

end PathWorld

/-! ## Denials of a DS -/

theorem OnlySigns.mono {crypto : Crypto} {keys keys' : List Bytes} {signed : SignedRrset → Prop}
    (h : OnlySigns crypto keys signed) (hsub : keys' ⊆ keys) : OnlySigns crypto keys' signed :=
  fun key hkey => h key (hsub hkey)

/-- The name an RRSIG was made for is the owner or a wildcard above it. -/
theorem rrsigOwnerName_cases {owner o : Name} {labels : Byte}
    (h : rrsigOwnerName owner labels = some o) :
    o = owner ∨ ∃ w, o.key = star w ∧ w <+: owner.key := by
  rcases lt_trichotomy labels.val owner.labelCount with hlt | heq | hgt
  · rw [rrsigOwnerName_of_lt hlt] at h
    cases h
    exact Or.inr ⟨_, key_star_drop _, List.take_prefix _ _⟩
  · rw [rrsigOwnerName_of_eq heq] at h
    exact Or.inl (Option.some.inj h).symm
  · rw [rrsigOwnerName_of_gt hgt] at h
    cases h

theorem bitmapNoDs_iff {bitmap : Bytes} :
    bitmapNoDs bitmap = true ↔ typeInBitmap bitmap NS = true ∧
      typeInBitmap bitmap DS = false ∧ typeInBitmap bitmap SOA = false := by
  simp [bitmapNoDs, and_assoc]

section Denials

variable {crypto : Crypto} {q : Name} {W : PathWorld crypto q} {p : List Bytes} {ks : List Bytes}
  {now : U32} {msg : Message} {n : Name}

theorem PathWorld.bitmapNoDs_eq_false (hp : W.IsZone p) (hn : PathWorld.Below q p n)
    {bitmap : Bytes} (hb : ∀ t, typeInBitmap bitmap t = true ↔ W.types p n.key t) :
    bitmapNoDs bitmap = false := by
  refine Bool.eq_false_iff.mpr fun h => ?_
  obtain ⟨hns, hds, -⟩ := bitmapNoDs_iff.mp h
  have := (hb DS).mpr (W.signed_cuts p n.key hp hn.1 hn.2.1 hn.2.2 ((hb NS).mp hns))
  rw [hds] at this
  cases this

section

variable (hno : W.NoReplay) (ht : W.Trusts p ks) (hn : PathWorld.Below q p n)
include hno ht hn

theorem PathWorld.nsecProvesNoDs_eq_false :
    nsecProvesNoDs (collectValidatedNsec crypto msg ks now) n = false := by
  refine Bool.eq_false_iff.mpr fun h => ?_
  obtain ⟨nz, hnz, hprop⟩ := any_eq_true.mp h
  obtain ⟨howner, hbits⟩ := Bool.and_eq_true_iff.mp hprop
  obtain ⟨r, d, hy, hparse⟩ := mem_collectValidatedNsec.mp hnz
  obtain ⟨⟨next, bitmap⟩, hpn, rfl⟩ := Option.map_eq_some_iff.mp hparse
  have hkey : r.name.key = n.key := Name.eqIgnoreAsciiCase_iff.mp howner
  obtain ⟨R, o, hR, hrt, ⟨rd, hrd, rfl⟩, ho, hok⟩ :=
    signed_of_yields ((W.only_signs p ht.1).mono ht.2) (by decide) hy
  -- the NSEC of the name itself is honest; an expanded one is excluded
  have hself : R.owner.key = n.key → False := by
    intro heq
    have hb := W.nsec_types p R ht.1 hR hrt rd hrd next bitmap hpn
    rw [heq] at hb
    rw [PathWorld.bitmapNoDs_eq_false ht.1 hn hb] at hbits
    cases hbits
  rcases rrsigOwnerName_cases ho with rfl | ⟨w, hw, hpre⟩
  · exact hself (hok.symm.trans hkey)
  · by_cases hstar : n.key = star w
    · exact hself (hok.symm.trans (hw.trans hstar.symm))
    · have hfalse := hno.wildcard p ht.1 n hn R hR hrt w (hok.symm.trans hw) (hkey ▸ hpre) hstar rd
        hrd next bitmap hpn
      rw [hfalse] at hbits
      cases hbits

theorem PathWorld.nsec3ProvesNoDs_eq_false :
    nsec3ProvesNoDs crypto (collectValidatedNsec3 crypto msg ks now) n = false := by
  -- a collected NSEC3 is one the zone signed, at its own owner name
  have hsigned : ∀ n3 ∈ collectValidatedNsec3 crypto msg ks now,
      ∃ R, W.signed p R ∧ R.rtype = NSEC3 ∧ ∃ rd ∈ R.rdatas, ∃ owner : Name,
        owner.key = R.owner.key ∧ Nsec3.parse owner rd.emitCanonical = some n3 := by
    intro n3 hn3
    obtain ⟨r, d, hy, hparse⟩ := mem_collectValidatedNsec3.mp hn3
    obtain ⟨R, o, hR, hrt, ⟨rd, hrd, rfl⟩, ho, hok⟩ :=
      signed_of_yields ((W.only_signs p ht.1).mono ht.2) (by decide) hy
    refine ⟨R, hR, hrt, rd, hrd, r.name, ?_, hparse⟩
    rcases rrsigOwnerName_cases ho with rfl | ⟨w, hw, -⟩
    · exact hok
    · exact absurd (hok.symm.trans hw) (W.nsec3_owner p R ht.1 hR hrt w)
  refine Bool.eq_false_iff.mpr fun h => ?_
  rcases Bool.or_eq_true_iff.mp h with h | h
  · obtain ⟨n3, hn3, hprop⟩ := any_eq_true.mp h
    obtain ⟨hmatch, hbits⟩ := Bool.and_eq_true_iff.mp hprop
    obtain ⟨R, hR, hrt, rd, hrd, owner, howner, hparse⟩ := hsigned n3 hn3
    rw [PathWorld.bitmapNoDs_eq_false ht.1 hn
      (W.nsec3_types p R ht.1 hR hrt rd hrd owner howner n3 hparse n hn.2.2 hmatch)] at hbits
    cases hbits
  · obtain ⟨n3, hn3, hprop⟩ := any_eq_true.mp h
    obtain ⟨hopt, hcov⟩ := Bool.and_eq_true_iff.mp hprop
    obtain ⟨R, hR, hrt, rd, hrd, owner, howner, hparse⟩ := hsigned n3 hn3
    rw [hno.optOut p ht.1 n hn R hR hrt rd hrd owner howner n3 hparse hopt] at hcov
    cases hcov

/-- No message denies the DS of a name on the way, under the keys of any zone above
    it. -/
theorem PathWorld.denialSecure_eq_false : denialSecure crypto msg ks now n = false := by
  unfold denialSecure
  simp only
  split_ifs
  · exact PathWorld.nsecProvesNoDs_eq_false hno ht hn
  · rw [PathWorld.nsec3ProvesNoDs_eq_false hno ht hn, Bool.and_false]

end

end Denials

/-! ## Adopting keys -/

/-- The data that `split` returns for an unstructured type fits RDLENGTH. -/
theorem split_short {records : List Record} {t : U16} (ht : t ∉ Rdata.structuredTypes) :
    ∀ d ∈ (split records t).1, d.length < 65536 := by
  intro d hd
  obtain ⟨r, hr, rfl⟩ := mem_map.mp hd
  obtain ⟨d, hrd, hlen⟩ := r.rdata_eq_unknown (of_decide_eq_true (mem_filter.mp hr).2 ▸ ht)
  rw [hrd]
  exact hlen

section Adopt

variable {crypto : Crypto} {q : Name} {W : PathWorld crypto q} {now : U32}

/-- A key set that a trusted digest names belongs to the zone as a whole. -/
theorem PathWorld.trusts_of_validateDnskeyRrset {owner : Name} {dnskeys rrsigs ks : List Bytes}
    {trustedDs : List Ds} (hshort : ∀ d ∈ dnskeys, d.length < 65536)
    (hds : ∀ key, (∃ ds ∈ trustedDs, dnskeyMatchesDs crypto owner key ds = true) →
      W.IsZone owner.key ∧ key ∈ W.keys owner.key)
    (h : validateDnskeyRrset crypto owner dnskeys rrsigs trustedDs now = some ks) :
    W.Trusts owner.key ks := by
  unfold validateDnskeyRrset at h
  simp only at h
  split_ifs at h with hany
  obtain rfl := Option.some.inj h
  obtain ⟨key, hkey, hprop⟩ := any_eq_true.mp hany
  obtain ⟨hmatch, hsig⟩ := Bool.and_eq_true_iff.mp hprop
  obtain ⟨hzone, hmem⟩ := hds key (any_eq_true.mp hmatch)
  obtain ⟨rrsig, -, hver⟩ := any_eq_true.mp hsig
  have hne : dnskeys.map (Rdata.unknown DNSKEY) ≠ [] := ne_nil_of_mem (mem_map_of_mem hkey)
  obtain ⟨R, sig, o, hR, -, -, hrt, -, -, -, hdata⟩ :=
    signed_of_verifyRrsig (W.only_signs _ hzone) hmem hver hne
  refine ⟨hzone, fun k hk => ?_⟩
  obtain ⟨rd, hrd, heq⟩ := hdata (by
    intro rd hrd
    obtain ⟨d, hd, rfl⟩ := mem_map.mp hrd
    exact hshort d hd) (.unknown DNSKEY k) (mem_map_of_mem hk)
  have := W.dnskeys _ R hzone hR hrt rd hrd
  rwa [heq] at this

/-- A DS RRset that validates under the keys of a zone above was published by it, so the
    keys it names are those of the child. -/
theorem PathWorld.delegated_of_validateRrset {p : List Bytes} {ks : List Bytes} {n : Name}
    (ht : W.Trusts p ks) (hn : n.key <+: q.key) {dss rrsigs : List Bytes}
    (hshort : ∀ d ∈ dss, d.length < 65536)
    (h : validateRrset crypto n Class.IN DS (dss.map (Rdata.unknown DS)) rrsigs ks now =
      true) {key : Bytes}
    (hkey : ∃ ds ∈ dss.filterMap parseDs, dnskeyMatchesDs crypto n key ds = true) :
    W.IsZone n.key ∧ key ∈ W.keys n.key := by
  obtain ⟨ds, hds, hmatch⟩ := hkey
  obtain ⟨d, hd, hparse⟩ := mem_filterMap.mp hds
  obtain ⟨rrsig, -, k, hk, hver⟩ := validateRrset_iff.mp h
  have hmem : Rdata.unknown DS d ∈ dss.map (Rdata.unknown DS) := mem_map_of_mem hd
  obtain ⟨R, sig, o, hR, -, -, hrt, -, -, -, hdata⟩ :=
    signed_of_verifyRrsig ((W.only_signs p ht.1).mono ht.2) hk hver (ne_nil_of_mem hmem)
  obtain ⟨rd, hrd, heq⟩ := hdata (by
    intro rd hrd
    obtain ⟨d, hd, rfl⟩ := mem_map.mp hrd
    exact hshort d hd) _ hmem
  exact W.delegated p R ht.1 hR hrt rd hrd ds (heq ▸ hparse) n hn key hmatch

end Adopt

end Runbound.Dnssec
