import Runbound.Dnssec.Nxdomain
import Runbound.Dnssec.SignedZone

/-!
# Where collected denial records come from

A verified RRSIG fixes the owner only up to wildcard expansion: with a labels field
below the label count of the owner, what was signed is the wildcard. Nothing
excludes that for denial records.

* `signed_of_yields`: a collected record has the data of an RRset the zone signed,
  at its owner or at a name its owner expands to.
* `collected_published_iff`: all collected records are published by the zone exactly
  if no signature that verifies over one was expanded.
* `expandedNsec_collected`: the NSEC of a wildcard is taken for that of another name.
-/

namespace Runbound.Dnssec

open Wire Lib Rtype Class

/-- The zone publishes the data at the owner. -/
def SignedZone.Publishes {crypto : Crypto} (Z : SignedZone crypto) (t : U16) (owner : Name)
    (d : Bytes) : Prop :=
  t = Z.rtype ∧ ∃ p ∈ Z.published, p.1.key = owner.key ∧ p.2 = d

/-- Of the denial types, only the records of the zone were signed. -/
def SignedZone.SignsOnly {crypto : Crypto} (Z : SignedZone crypto) (signed : SignedRrset → Prop) :
    Prop :=
  ∀ R, signed R → R.rtype = NSEC ∨ R.rtype = NSEC3 → ∃ p ∈ Z.published, Z.IsRrset R p

/-- The RRSIG was made for the owner itself, not for a wildcard above it. -/
def Unexpanded (rrsig : Bytes) (owner : Name) : Prop :=
  ∃ sig o, parseRrsig rrsig = some sig ∧ rrsigOwnerName owner sig.labels = some o ∧
    o.key = owner.key

variable {d : Bytes} {r : Record}

section Sound

variable {crypto : Crypto} {msg : Message} {keys : List Bytes} {now : U32}
  {signed : SignedRrset → Prop}

variable {t : U16}

theorem unstructured_of_denial (ht : t = NSEC ∨ t = NSEC3) : t ∉ Rdata.structuredTypes := by
  rcases ht with rfl | rfl <;> decide

theorem canonical_of_mem_rrset (ht : t ∉ Rdata.structuredTypes) {owner : Name} {rd : Rdata}
    (h : rd ∈ (rrset msg.authority owner t).map Record.rdata) :
    ∃ d, rd = .unknown t d ∧ d.length < 65536 := by
  obtain ⟨r, hr, rfl⟩ := List.mem_map.mp h
  obtain ⟨-, hrt, -⟩ := mem_rrset.mp hr
  obtain ⟨d, hd, hlen⟩ := r.rdata_eq_unknown (hrt ▸ ht)
  exact ⟨d, hrt ▸ hd, hlen⟩

section

variable (hor : OnlySigns crypto keys signed) (ht : t ∉ Rdata.structuredTypes)
include hor ht

theorem signed_of_verify
    {rrsig key : Bytes} (hy : Yields crypto msg keys now t r d) (hkey : key ∈ keys)
    (hver : verifyRrsig crypto r.name IN t ((rrset msg.authority r.name t).map Record.rdata) rrsig key now = true) :
    ∃ R sig o, signed R ∧ R.rtype = t ∧ (∃ rd ∈ R.rdatas, rd.emitCanonical = d) ∧
      parseRrsig rrsig = some sig ∧ sig.labels = rrsigLabels R.owner ∧
      rrsigOwnerName r.name sig.labels = some o ∧ o.key = R.owner.key := by
  have hmem : r.rdata ∈ (rrset msg.authority r.name t).map Record.rdata :=
    List.mem_map_of_mem (mem_rrset.mpr ⟨hy.mem, hy.rtype, Name.eqIgnoreAsciiCase_refl _⟩)
  have hshort : ∀ rd ∈ (rrset msg.authority r.name t).map Record.rdata,
      rd.emitCanonical.length < 65536 := by
    intro rd hrd
    obtain ⟨d, rfl, hlen⟩ := canonical_of_mem_rrset ht hrd
    exact hlen
  obtain ⟨R, sig, o, hR, hsig, ho, hrt, hlab, hok, -, hdata⟩ :=
    signed_of_verifyRrsig hor hkey hver (List.ne_nil_of_mem hmem)
  refine ⟨R, sig, o, hR, hrt, ?_, hsig, hlab, ho, hok⟩
  obtain ⟨rd', hrd', heq⟩ := hdata hshort r.rdata hmem
  obtain ⟨d', hd', -⟩ := canonical_of_mem_rrset ht hmem
  have hdd : d' = d := by
    have := hy.data
    rw [hd'] at this
    exact Option.some.inj this
  exact ⟨rd', hrd', by rw [heq, hd', ← hdd]; rfl⟩

/-- A collected record has the data of a signed RRset, whose owner is that of the
    record or a wildcard that expands to it. -/
theorem signed_of_yields (hy : Yields crypto msg keys now t r d) :
    ∃ R o, signed R ∧ R.rtype = t ∧ (∃ rd ∈ R.rdatas, rd.emitCanonical = d) ∧
      rrsigOwnerName r.name (rrsigLabels R.owner) = some o ∧ o.key = R.owner.key := by
  obtain ⟨rrsig, -, key, hkey, hver⟩ := rrsetValidated_iff.mp hy.validated
  obtain ⟨R, sig, o, hR, hrt, hd, -, hlab, ho, hok⟩ := signed_of_verify hor ht hy hkey hver
  exact ⟨R, o, hR, hrt, hd, hlab ▸ ho, hok⟩

end

/-- `r` is a record that one of the two functions returns a value for. -/
def Returned (crypto : Crypto) (msg : Message) (keys : List Bytes) (now : U32) (t : U16)
    (r : Record) (d : Bytes) : Prop :=
  Yields crypto msg keys now t r d ∧
    ((t = NSEC ∧ ∃ n, Nsec.parse r.name d = some n ∧ n ∈ collectValidatedNsec crypto msg keys now) ∨
      (t = NSEC3 ∧ ∃ n3, Nsec3.parse r.name d = some n3 ∧
        n3 ∈ collectValidatedNsec3 crypto msg keys now))

/-- `r` is an NSEC or NSEC3 record of the authority section with readable data `d`. -/
def Readable (msg : Message) (t : U16) (r : Record) (d : Bytes) : Prop :=
  r ∈ msg.authority ∧ r.rtype = t ∧ r.rdata.data? = some d ∧
    ((t = NSEC ∧ (Nsec.parse r.name d).isSome) ∨ (t = NSEC3 ∧ (Nsec3.parse r.name d).isSome))

/-- A value is returned for each readable record whose RRset validates. -/
theorem returned_iff :
    Returned crypto msg keys now t r d ↔
      Readable msg t r d ∧ rrsetValidated crypto msg keys now r.name t = true := by
  constructor
  · rintro ⟨hy, ⟨ht, n, hn, -⟩ | ⟨ht, n3, hn3, -⟩⟩
    · exact ⟨⟨hy.mem, hy.rtype, hy.data, Or.inl ⟨ht, hn ▸ rfl⟩⟩, hy.validated⟩
    · exact ⟨⟨hy.mem, hy.rtype, hy.data, Or.inr ⟨ht, hn3 ▸ rfl⟩⟩, hy.validated⟩
  · rintro ⟨⟨hmem, hrt, hd, ⟨rfl, h⟩ | ⟨rfl, h⟩⟩, hval⟩
    · obtain ⟨n, hn⟩ := Option.isSome_iff_exists.mp h
      have hy : Yields crypto msg keys now NSEC r d := ⟨hmem, hrt, hval, hd⟩
      exact ⟨hy, Or.inl ⟨rfl, n, hn, mem_collectValidatedNsec.mpr ⟨r, d, hy, hn⟩⟩⟩
    · obtain ⟨n3, hn3⟩ := Option.isSome_iff_exists.mp h
      have hy : Yields crypto msg keys now NSEC3 r d := ⟨hmem, hrt, hval, hd⟩
      exact ⟨hy, Or.inr ⟨rfl, n3, hn3, mem_collectValidatedNsec3.mpr ⟨r, d, hy, hn3⟩⟩⟩

/-- The RRset behind a verified signature is a denial record of the zone, at the owner
    the signature was made for. -/
theorem published_of_verify {Z : SignedZone crypto} (hor : OnlySigns crypto keys signed)
    (hZ : Z.SignsOnly signed) {rrsig key : Bytes}
    (hret : Returned crypto msg keys now t r d) (hkey : key ∈ keys)
    (hver : verifyRrsig crypto r.name IN t ((rrset msg.authority r.name t).map Record.rdata) rrsig key now = true) :
    t = Z.rtype ∧ ∃ p ∈ Z.published, p.2 = d ∧ ∃ sig o, parseRrsig rrsig = some sig ∧
      rrsigOwnerName r.name sig.labels = some o ∧ o.key = p.1.key := by
  have htype : t = NSEC ∨ t = NSEC3 := hret.2.imp And.left And.left
  obtain ⟨R, sig, o, hR, hrt, ⟨rd, hrd, hd⟩, hsig, -, ho, hok⟩ :=
    signed_of_verify hor (unstructured_of_denial htype) hret.1 hkey hver
  obtain ⟨p, hp, hRp⟩ := hZ R hR (hrt.symm ▸ htype)
  refine ⟨hrt.symm.trans hRp.rtype, p, hp, ?_, sig, o, hsig, ho, hok.trans hRp.owner⟩
  rw [hRp.rdatas, List.mem_singleton] at hrd
  rw [← hd, hrd]
  rfl

/-- Under an oracle that accepts only what the zone signed, every record behind a
    returned value is published by the zone exactly if every signature in the message
    that verifies over a readable denial RRset was made for the owner itself. -/
theorem collected_published_iff {Z : SignedZone crypto} (hor : OnlySigns crypto keys signed)
    (hZ : Z.SignsOnly signed) (msg : Message) (now : U32) :
    (∀ t r d, Returned crypto msg keys now t r d → Z.Publishes t r.name d) ↔
      ∀ t r d, Readable msg t r d → ∀ rrsig ∈ authorityRrsigs msg r.name t, ∀ key ∈ keys,
        verifyRrsig crypto r.name IN t ((rrset msg.authority r.name t).map Record.rdata)
          rrsig key now = true → Unexpanded rrsig r.name := by
  constructor
  · intro hpub t r d hread rrsig hrrsig key hkey hver
    have hret : Returned crypto msg keys now t r d :=
      returned_iff.mpr ⟨hread, rrsetValidated_iff.mpr ⟨rrsig, hrrsig, key, hkey, hver⟩⟩
    obtain ⟨-, p, hp, hpd, sig, o, hsig, ho, hok⟩ := published_of_verify hor hZ hret hkey hver
    obtain ⟨-, p', hp', howner, hpd'⟩ := hpub t r d hret
    refine ⟨sig, o, hsig, ho, ?_⟩
    rw [hok, SignedZone.owner_eq_of_data hp hp' (hpd.trans hpd'.symm), howner]
  · intro hun t r d hret
    obtain ⟨hread, hval⟩ := returned_iff.mp hret
    obtain ⟨rrsig, hrrsig, key, hkey, hver⟩ := rrsetValidated_iff.mp hval
    obtain ⟨sig, o, hsig, ho, hok⟩ := hun t r d hread rrsig hrrsig key hkey hver
    obtain ⟨ht, p, hp, hpd, sig', o', hsig', ho', hok'⟩ := published_of_verify hor hZ hret hkey hver
    obtain rfl : sig = sig' := Option.some.inj (hsig.symm.trans hsig')
    obtain rfl : o = o' := Option.some.inj (ho.symm.trans ho')
    exact ⟨ht, p, hp, hok'.symm.trans hok, hpd⟩

end Sound

/-! ## The NSEC of a wildcard -/

/-- `*.` -/
def nameStar : Name := ⟨[[42]], by decide⟩

/-- The root zone with a wildcard, `*.`, as its only other name. -/
def starZone : Zone where
  apex := Name.root
  nodes := [⟨Name.root, [NS, SOA]⟩, ⟨nameStar, [Rtype.A, RRSIG, NSEC]⟩]
  sorted := by decide +kernel
  apex_mem := by decide +kernel
  in_zone := by decide +kernel

/-- NSEC data of `*.`: the next name is the apex. -/
def starNsecData : Bytes := nsecRdata Name.root [Rtype.A, RRSIG, NSEC]

/-- The NSEC of `*.`, as the root signs it. -/
def starNsecRrset : SignedRrset :=
  rootRrset nameStar NSEC (.unknown NSEC starNsecData) (by decide +kernel)

/-- Signatures of a root zone that has signed that NSEC. -/
def starCrypto : Crypto := idealCrypto [] [(rootModulus, starNsecRrset.tbs)]

theorem onlySigns_starCrypto : OnlySigns starCrypto [rootKey] (· = starNsecRrset) := by
  refine @onlySigns_ideal [] [rootKey] [(rootModulus, starNsecRrset)] _ ?_
  intro p hp _
  rw [List.mem_singleton.mp hp]

theorem signsOnly_starZone :
    (.nsec starZone : SignedZone starCrypto).SignsOnly (· = starNsecRrset) := by
  rintro R rfl -
  exact ⟨(nameStar, starNsecData), by decide +kernel, rfl, rfl, rfl, rfl⟩

/-- That NSEC and its signature, at an owner. -/
def starNsecRecords (owner : Name) : List Record :=
  [Record.ofData owner NSEC 300 starNsecData (by decide +kernel),
    Record.ofData owner RRSIG 300 (starNsecRrset.rrsigRdata [0]) (by decide +kernel)]

/-- The NSEC moved to `a.`. -/
def expandedReply : Message where
  authority := starNsecRecords nameA

/-- The validator returns an NSEC of `a.`, which the zone does not publish. -/
theorem expandedNsec_collected :
    collectValidatedNsec starCrypto expandedReply [rootKey] 1500 =
      [⟨nameA, Name.root, typeBitmap [Rtype.A, RRSIG, NSEC]⟩] ∧
    ¬ (.nsec starZone : SignedZone starCrypto).Publishes NSEC nameA starNsecData := by
  refine ⟨by decide +kernel, ?_⟩
  rintro ⟨-, h⟩
  exact absurd h (by decide +kernel)

/-- The general theorem on that reply. -/
theorem collected_published_iff_expandedReply :
    (∀ t r d, Returned starCrypto expandedReply [rootKey] 1500 t r d →
        (.nsec starZone : SignedZone starCrypto).Publishes t r.name d) ↔
      ∀ t r d, Readable expandedReply t r d → ∀ rrsig ∈ authorityRrsigs expandedReply r.name t,
        ∀ key ∈ [rootKey],
          verifyRrsig starCrypto r.name IN t
            ((rrset expandedReply.authority r.name t).map Record.rdata) rrsig key 1500 = true →
          Unexpanded rrsig r.name :=
  collected_published_iff onlySigns_starCrypto signsOnly_starZone expandedReply 1500

end Runbound.Dnssec
