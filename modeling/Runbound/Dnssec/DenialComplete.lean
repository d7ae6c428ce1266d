import Runbound.Dnssec.GenuineDenial

/-!
# Authoritative denials

What a server that follows the standard sends for a name or type that is not there,
and when the validator accepts it.

* `validateDenial_authoritative_iff`: it does exactly if the chain has a record for
  the queried name itself or the name does not exist at all. A NODATA answer for an
  empty non-terminal of an NSEC zone, or for a name that a wildcard matches, is
  refused.
* `wildcardNodata_refused`: such an answer.
-/

namespace Runbound.Dnssec

open Wire Lib Rtype Rcode Name

/-! ## The authoritative answer -/

/-- Neither the name nor a wildcard that would match it exists: NXDOMAIN. -/
def Zone.NameError (z : Zone) (q : List Bytes) : Prop :=
  ¬ z.Exists q ∧ ∀ ce, z.Encloser q ce → ¬ z.Exists (star ce)

/-- The name has neither the type nor a CNAME. -/
def Zone.NoData (z : Zone) (q : List Bytes) (t : U16) : Prop :=
  ∀ n ∈ z.nodes, n.name.key = q → t ∉ n.types ∧ CNAME ∉ n.types

/-- The NSECs a negative answer needs: the one at the name or covering it, and, if the
    name does not exist, the one at the wildcard of the closest encloser or covering
    it. -/
def Zone.Needed (z : Zone) (q : Name) (a : Node × Node) : Prop :=
  a.1.name.key = q.key ∨ Covers a.1.name.key a.2.name.key q.key ∨
    (¬ z.Exists q.key ∧ ∃ ce, z.Encloser q.key ce ∧
      (a.1.name.key = star ce ∨ Covers a.1.name.key a.2.name.key (star ce)))

/-- The NSEC3s a negative answer needs: the one that matches the name, or, if it does
    not exist, those that match the closest encloser, cover the next closer name, and
    match or cover the wildcard. -/
def Nsec3Zone.Needed {crypto : Crypto} (z : Nsec3Zone crypto) (q : Name) (a : Node × Node) : Prop :=
  a.1.name.key = q.key ∨
    (¬ z.Exists q.key ∧ ∃ ce, z.Encloser q.key ce ∧
      (a.1.name.key = ce ∨ a.1.name.key = star ce ∨
        ∃ n : Name, (n.key = star ce ∨ (n.key <+: q.key ∧ ∃ l, n.key = ce ++ [l])) ∧
          (z.nsec3 a).covers crypto n = true))

/-- The needed records are in the message, with their signatures. -/
def SignedZone.ServesNeeded {crypto : Crypto} (Z : SignedZone crypto) (keys : List Bytes)
    (now : U32) (q : Name) (msg : Message) : Prop :=
  match Z with
  | .nsec z => ∀ a ∈ ring z.nodes, z.Needed q a →
      Served (.nsec z : SignedZone crypto) keys now msg (a.1.name, nsecRdata a.2.name a.1.types)
  | .nsec3 z => ∀ a ∈ ring z.names, z.Needed q a →
      Served (.nsec3 z) keys now msg (z.ownerName a.1.name, z.rdata a)

/-- The negative answer of an authoritative server. -/
structure AuthoritativeDenial {crypto : Crypto} (Z : SignedZone crypto) (keys : List Bytes)
    (now : U32) (q : Name) (msg : Message) : Prop where
  genuine : Genuine Z msg
  needed : Z.ServesNeeded keys now q msg
  rcode : msg.header.rcodeLow = NXDOMAIN ↔ Z.zone.NameError q.key

/-- NSEC3 hashing is fit for the name: the iterations are within the cap, and neither
    the names above `q` nor their wildcards hash like another existing name. -/
def SignedZone.HashOk {crypto : Crypto} (Z : SignedZone crypto) (q : Name) : Prop :=
  match Z with
  | .nsec _ => True
  | .nsec3 z => z.param.iterations ≤ nsec3MaxIterations ∧
      ∀ p : Name, (p ∈ q.ancestors ∨ ∃ m ∈ q.ancestors, wildcardOf m = some p) →
        ∀ n ∈ z.names, z.hash n.name = z.hash p → n.name.key = p.key

/-! ## What the validator makes of it -/

section

variable {crypto : Crypto} {msg : Message} {keys : List Bytes} {now : U32} {q : Name} {t : U16}

/-- `validate_denial` without the shortcut for an empty set. -/
theorem validateDenial_iff {zone : Name} :
    validateDenial crypto msg keys now q t zone = true ↔
      (msg.header.rcodeLow = NXDOMAIN ∧
        (nsecProvesNxdomain (collectValidatedNsec crypto msg keys now) q zone = true ∨
          nsec3ProvesNxdomain crypto (collectValidatedNsec3 crypto msg keys now) q zone = true)) ∨
      (msg.header.rcodeLow ≠ NXDOMAIN ∧
        ((∃ n ∈ collectValidatedNsec crypto msg keys now,
            nsecProvesNodata n.owner n.bitmap q t = true) ∨
          nsec3ProvesNodata crypto (collectValidatedNsec3 crypto msg keys now) q t = true)) := by
  unfold validateDenial
  generalize collectValidatedNsec crypto msg keys now = nsecs
  generalize collectValidatedNsec3 crypto msg keys now = nsec3s
  have hnx : nsec3ProvesNxdomain crypto [] q zone = false := by
    refine Bool.eq_false_iff.mpr fun h => ?_
    obtain ⟨ce, nc, -, ⟨n3, hn, -⟩, -⟩ := nsec3ProvesNxdomain_iff.mp h
    cases hn
  simp only
  split_ifs with hempty hrc
  · obtain ⟨rfl, rfl⟩ := hempty
    simp [nsecProvesNxdomain, nsecProvesNonexistence, nsec3ProvesNodata, hnx]
  · simp [hrc]
  · simp [hrc]

theorem nsecProvesNodata_iff {owner : Name} {bitmap : Bytes} :
    nsecProvesNodata owner bitmap q t = true ↔
      owner.key = q.key ∧ typeInBitmap bitmap t = false ∧
        (t = CNAME ∨ typeInBitmap bitmap CNAME = false) := by
  simp [nsecProvesNodata, eqIgnoreAsciiCase_iff, and_assoc]

theorem nsec3ProvesNodata_iff {nsec3s : List Nsec3} :
    nsec3ProvesNodata crypto nsec3s q t = true ↔
      ∃ n3 ∈ nsec3s, n3.matchesName crypto q = true ∧ typeInBitmap n3.bitmap t = false ∧
        (t = CNAME ∨ typeInBitmap n3.bitmap CNAME = false) := by
  simp [nsec3ProvesNodata, and_assoc]

theorem typeInBitmap_eq_false {types : List U16} (h : t ∉ types) :
    typeInBitmap (typeBitmap types) t = false :=
  Bool.eq_false_iff.mpr fun e => h ((typeInBitmap_typeBitmap types t).mp e)

theorem Zone.NameError.exists_encloser {z : Zone} (h : z.NameError q.key)
    (hq : z.apex.key <+: q.key) : ∃ ce, z.Encloser q.key ce :=
  Zone.exists_encloser hq (Zone.apex_ne h.1)

/-! ### NSEC -/

theorem validateDenial_nsec_iff {z : Zone} (hq : z.apex.key <+: q.key) (hnd : z.NoData q.key t)
    (h : AuthoritativeDenial (.nsec z : SignedZone crypto) keys now q msg) :
    validateDenial crypto msg keys now q t z.apex = true ↔
      q.key ∈ z.owners ∨ z.NameError q.key := by
  have hrc : msg.header.rcodeLow = NXDOMAIN ↔ z.NameError q.key := h.rcode
  -- the arc that covers a name which owns nothing, if it is needed, is collected
  have hcovered : ∀ x, x ∉ z.owners → (∀ a, Covers a.1.name.key a.2.name.key x → z.Needed q a) →
      ∃ n ∈ collectValidatedNsec crypto msg keys now, Covers n.owner.key n.next.key x := by
    intro x hx hneed
    have hne : ∀ c ∈ z.nodes, c.name.key ≠ x := fun c hc e => hx (Zone.mem_owners.mpr ⟨c, hc, e⟩)
    obtain ⟨a, ha, hcov⟩ := exists_covers z.sorted Zone.nodes_ne_nil hne
    obtain ⟨n, hn, harc⟩ := exists_nsec_of_served h.genuine ha (h.needed a ha (hneed a hcov))
    exact ⟨n, hn, by rw [harc.owner, harc.next]; exact hcov⟩
  rw [validateDenial_iff, h.genuine.nsec_only]
  constructor
  · rintro (⟨hnx, -⟩ | ⟨-, ⟨n, hn, hproof⟩ | hproof⟩)
    · exact Or.inr (hrc.mp hnx)
    · obtain ⟨howner, -⟩ := nsecProvesNodata_iff.mp hproof
      obtain ⟨a, ha, harc⟩ := h.genuine.nsec hn
      exact Or.inl (Zone.mem_owners.mpr ⟨a.1, (mem_of_mem_ring ha).1, harc.owner.symm.trans howner⟩)
    · cases hproof
  · rintro (hown | herr)
    · have hno : ¬ z.NameError q.key := fun he => he.1 (Zone.exists_of_mem hown)
      obtain ⟨m, hm, hkey⟩ := Zone.mem_owners.mp hown
      obtain ⟨c, ha⟩ := exists_arc_of_mem hm
      obtain ⟨n, hn, harc⟩ := exists_nsec_of_served h.genuine ha (h.needed _ ha (Or.inl hkey))
      obtain ⟨ht, hc⟩ := hnd m hm hkey
      refine Or.inr ⟨fun e => hno (hrc.mp e), Or.inl ⟨n, hn, nsecProvesNodata_iff.mpr ?_⟩⟩
      rw [harc.owner, harc.bitmap]
      exact ⟨hkey, typeInBitmap_eq_false ht, Or.inr (typeInBitmap_eq_false hc)⟩
    · obtain ⟨ce, hce⟩ := herr.exists_encloser hq
      refine Or.inl ⟨hrc.mpr herr, Or.inl (nsecProvesNxdomain_iff.mpr
        ⟨?_, ce, hce.node.1, hce.above, hce.ne, ?_⟩)⟩
      · exact hcovered q.key (fun ho => herr.1 (Zone.exists_of_mem ho)) fun a hcov =>
          Or.inr (Or.inl hcov)
      · exact hcovered (star ce) (fun ho => herr.2 ce hce (Zone.exists_of_mem ho)) fun a hcov =>
          Or.inr (Or.inr ⟨herr.1, ce, hce, Or.inr hcov⟩)

/-! ### NSEC3 -/

/-- For a missing name, the needed records make the search end at the closest encloser
    and cover the next closer name. -/
theorem enclosure_of_needed {z : Nsec3Zone crypto} {zone : Name} (hzone : zone.key = z.apex.key)
    (hq : z.apex.key <+: q.key) (hok : (SignedZone.nsec3 z).HashOk q) (hmiss : ¬ z.Exists q.key)
    (hg : Genuine (.nsec3 z) msg) (hneed : (SignedZone.nsec3 z).ServesNeeded keys now q msg) :
    ∃ ce nc, enclosure crypto (collectValidatedNsec3 crypto msg keys now) q zone = some (ce, nc) ∧
      ce ∈ q.ancestors ∧ z.Encloser q.key ce.key ∧
      Covered crypto (collectValidatedNsec3 crypto msg keys now) nc := by
  obtain ⟨hit, hinj⟩ := hok
  have hcoll : ∀ a ∈ ring z.names, z.Needed q a →
      z.nsec3 a ∈ collectValidatedNsec3 crypto msg keys now :=
    fun a ha hn => nsec3_of_served hg ha (hneed a ha hn)
  obtain ⟨ce, hce⟩ := Zone.exists_encloser hq (Zone.apex_ne hmiss)
  obtain ⟨m, hm, rfl⟩ := exists_ancestor_of_isPrefix hce.above
  -- the closest encloser is matched, so the search ends there or below
  obtain ⟨a, ha, hakey, hamatch⟩ := Nsec3Zone.matched_of_exists hit hce.node
  have hmatched : Matched crypto (collectValidatedNsec3 crypto msg keys now) m :=
    ⟨_, hcoll a ha (Or.inr ⟨hmiss, m.key, hce, Or.inl hakey⟩), hamatch⟩
  obtain ⟨ce', nc, henc⟩ := exists_enclosure hm hce.ne (hzone ▸ hce.node.1) hmatched
  obtain ⟨-, hce', hnc, ⟨l, hl⟩, hmatch', hdeep⟩ := enclosure_some henc
  have hncpre : nc.key <+: q.key := key_prefix_of_mem_ancestors hnc
  have hne' : ce'.key ≠ q.key := by
    intro e
    have := hncpre.length_le
    rw [hl, e, List.length_append, List.length_singleton] at this
    omega
  -- what is matched exists, so it ends exactly there
  have hexists : z.Exists ce'.key :=
    Nsec3Zone.exists_of_matched hg.nsec3 (hinj ce' (Or.inl hce')) hmatch'
  have hkey : ce'.key = m.key := by
    have h1 := hdeep m hm hce.ne hmatched
    have h2 := hce.deepest _ (key_prefix_of_mem_ancestors hce') hne' hexists
    exact h2.eq_of_length (le_antisymm h2.length_le h1.length_le)
  rw [hkey] at hl
  have hnot : ¬ z.Exists nc.key := hl ▸ hce.not_isNode_next hmiss (hl ▸ hncpre)
  obtain ⟨b, hb, hcov⟩ := Nsec3Zone.covered_of_not_exists hit (hinj nc (Or.inl hnc)) hnot
  refine ⟨ce', nc, henc, hce', hkey ▸ hce, _, hcoll b hb (Or.inr ⟨hmiss, m.key, hce, ?_⟩), hcov⟩
  exact Or.inr (Or.inr ⟨nc, Or.inr ⟨hncpre, l, hl⟩, hcov⟩)

/-- The proof that a missing name and its wildcard do not exist, from the needed
    records. -/
theorem nsec3ProvesNxdomain_of_needed {z : Nsec3Zone crypto} (hq : z.apex.key <+: q.key)
    (hok : (SignedZone.nsec3 z).HashOk q) (herr : z.NameError q.key)
    (hg : Genuine (.nsec3 z) msg) (hneed : (SignedZone.nsec3 z).ServesNeeded keys now q msg) :
    nsec3ProvesNxdomain crypto (collectValidatedNsec3 crypto msg keys now) q z.apex = true := by
  obtain ⟨ce, nc, henc, hmem, hce, hnc⟩ := enclosure_of_needed rfl hq hok herr.1 hg hneed
  obtain ⟨w, hw⟩ := exists_wildcardOf hmem hce.ne
  have hwkey : w.key = star ce.key := wildcardOf_key hw
  refine nsec3ProvesNxdomain_iff.mpr ⟨ce, nc, henc, hnc, w, hw, ?_⟩
  have hnot : ¬ z.Exists w.key := hwkey ▸ herr.2 ce.key hce
  obtain ⟨b, hb, hcov⟩ :=
    Nsec3Zone.covered_of_not_exists hok.1 (hok.2 w (Or.inr ⟨ce, hmem, hw⟩)) hnot
  refine ⟨_, nsec3_of_served hg hb (hneed b hb (Or.inr ⟨herr.1, ce.key, hce, ?_⟩)), hcov⟩
  exact Or.inr (Or.inr ⟨w, Or.inl hwkey, hcov⟩)

theorem validateDenial_nsec3_iff {z : Nsec3Zone crypto} (hq : z.apex.key <+: q.key)
    (hnd : z.NoData q.key t) (hok : (SignedZone.nsec3 z).HashOk q)
    (h : AuthoritativeDenial (.nsec3 z) keys now q msg) :
    validateDenial crypto msg keys now q t z.apex = true ↔ z.Exists q.key ∨ z.NameError q.key := by
  have hrc : msg.header.rcodeLow = NXDOMAIN ↔ z.NameError q.key := h.rcode
  rw [validateDenial_iff, h.genuine.nsec3_only]
  constructor
  · rintro (⟨hnx, -⟩ | ⟨-, ⟨n, hn, -⟩ | hproof⟩)
    · exact Or.inr (hrc.mp hnx)
    · cases hn
    · obtain ⟨n3, hn, hmatch, -⟩ := nsec3ProvesNodata_iff.mp hproof
      refine Or.inl (Nsec3Zone.exists_of_matched h.genuine.nsec3
        (hok.2 q (Or.inl q.self_mem_ancestors)) ⟨n3, hn, hmatch⟩)
  · rintro (hex | herr)
    · obtain ⟨a, ha, hkey, hmatch⟩ := Nsec3Zone.matched_of_exists hok.1 hex
      have hcoll := nsec3_of_served h.genuine ha (h.needed a ha (Or.inl hkey))
      have htypes : ∀ t', (∀ n ∈ z.nodes, n.name.key = q.key → t' ∉ n.types) →
          typeInBitmap (z.nsec3 a).bitmap t' = false := by
        intro t' ht'
        refine typeInBitmap_eq_false fun hmem => ?_
        obtain ⟨n, hn, hnkey, hnt⟩ := (z.types_iff a.1 (mem_of_mem_ring ha).1 t').mp hmem
        exact ht' n hn (hnkey.trans hkey) hnt
      refine Or.inr ⟨fun e => (hrc.mp e).1 hex, Or.inr (nsec3ProvesNodata_iff.mpr
        ⟨_, hcoll, hmatch, htypes t fun n hn hk => (hnd n hn hk).1,
          Or.inr (htypes _ fun n hn hk => (hnd n hn hk).2)⟩)⟩
    · exact Or.inl ⟨hrc.mpr herr, Or.inr (nsec3ProvesNxdomain_of_needed hq hok herr h.genuine
        h.needed)⟩

end

/-- The validator accepts the authoritative denial of a name or type that is not there
    exactly if the chain has a record for the queried name itself, or the answer is
    NXDOMAIN. -/
theorem validateDenial_authoritative_iff {crypto : Crypto} (Z : SignedZone crypto) {q : Name}
    {t : U16} {keys : List Bytes} {now : U32} {msg : Message} (hq : Z.zone.apex.key <+: q.key)
    (hnd : Z.zone.NoData q.key t) (hok : Z.HashOk q) (h : AuthoritativeDenial Z keys now q msg) :
    validateDenial crypto msg keys now q t Z.zone.apex = true ↔
      Z.HasRecordFor q.key ∨ Z.zone.NameError q.key := by
  cases Z with
  | nsec z => exact validateDenial_nsec_iff hq hnd h
  | nsec3 z => exact validateDenial_nsec3_iff hq hnd hok h

/-! ## A wildcard without the type -/

/-- The authoritative answer for the TXT records of `a.` in `starZone`: the NSEC of the
    wildcard shows that `a.` does not exist and that the wildcard has no TXT. -/
def wildcardNodataReply : Message where
  authority := starNsecRecords nameStar

theorem starZone_encloser : starZone.Encloser nameA.key [] :=
  closestEncloser_of_next (a := [97]) (show starZone.Exists _ by decide +kernel)
    (by decide +kernel) (show ¬ starZone.Exists _ by decide +kernel)

theorem authoritativeDenial_star :
    AuthoritativeDenial (.nsec starZone : SignedZone starCrypto) [rootKey] 1500 nameA
      wildcardNodataReply where
  genuine := by decide +kernel
  needed := by
    intro a ha hneed
    have hring : a = (⟨Name.root, [NS, SOA]⟩,
        ⟨nameStar, [Rtype.A, RRSIG, NSEC]⟩) ∨
        a = (⟨nameStar, [Rtype.A, RRSIG, NSEC]⟩, ⟨Name.root, [NS, SOA]⟩) := by
      simpa [ring, arcsTo, starZone] using ha
    rcases hring with rfl | rfl
    · -- the NSEC of the root says nothing about `a.` or the wildcard
      rcases hneed with h | h | ⟨-, ce, hce, h⟩
      · exact absurd h (by decide +kernel)
      · exact absurd h (by decide +kernel)
      · rw [hce.unique starZone_encloser] at h
        exact absurd h (by decide +kernel)
    · refine ⟨⟨_, List.mem_cons_self, rfl, rfl⟩, ⟨_, List.mem_cons_of_mem _ List.mem_cons_self, rfl,
        rfl, starNsecRrset, [0], rfl, ⟨rfl, rfl, rfl, rfl⟩, by decide +kernel⟩⟩
  rcode := by
    refine ⟨fun h => absurd h (by decide +kernel), fun h => ?_⟩
    exact absurd (show starZone.Exists (star []) by decide +kernel) (h.2 [] starZone_encloser)

theorem starZone_types : ∀ n ∈ starZone.nodes, TXT ∉ n.types ∧ CNAME ∉ n.types := by
  decide +kernel

/-- No name of the zone has TXT or CNAME, the answer is the authoritative one, and the
    validator refuses it. -/
theorem wildcardNodata_refused :
    (∀ n ∈ starZone.nodes, TXT ∉ n.types ∧ CNAME ∉ n.types) ∧
    AuthoritativeDenial (.nsec starZone : SignedZone starCrypto) [rootKey] 1500 nameA
      wildcardNodataReply ∧
    validateDenial starCrypto wildcardNodataReply [rootKey] 1500 nameA TXT starZone.apex = false :=
  ⟨starZone_types, authoritativeDenial_star, by decide +kernel⟩

/-- The general theorem on that answer. -/
theorem validateDenial_authoritative_iff_star :
    validateDenial starCrypto wildcardNodataReply [rootKey] 1500 nameA TXT starZone.apex =
      true ↔ nameA.key ∈ starZone.owners ∨ starZone.NameError nameA.key :=
  validateDenial_authoritative_iff (.nsec starZone : SignedZone starCrypto)
    (show Name.root.key <+: nameA.key by decide +kernel)
    (fun n hn _ => starZone_types n hn) trivial authoritativeDenial_star

end Runbound.Dnssec
