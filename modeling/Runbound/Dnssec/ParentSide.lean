import Runbound.Dnssec.Nxdomain

/-!
# Denial records from the parent side of a cut

An NSEC or NSEC3 whose bitmap has NS without SOA belongs to the parent of a
delegation, and one with DNAME redirects everything below it; neither says
anything about the data below. The predicates of `dnssec_denial.rs` look at no bit
but those of the queried type and of CNAME.

* `not_carries_iff`: when a record cannot be what makes each of the four predicates
  true.
* `delegation_carries`: it happens for the records of a delegation.
-/

namespace Runbound.Dnssec

open Wire Lib List Rtype

/-- DNAME (39), which the validator does not know. -/
def dname : U16 := 39

/-- The bitmap of a delegation point, or of a DNAME. -/
def ParentSide (bitmap : Bytes) : Prop :=
  (typeInBitmap bitmap NS = true ∧ typeInBitmap bitmap SOA = false) ∨
    typeInBitmap bitmap dname = true

instance (bitmap : Bytes) : Decidable (ParentSide bitmap) := by unfold ParentSide; infer_instance

/-- Beside some other records, `r` is what makes the proof succeed. -/
def Carries {α : Type} (proves : List α → Bool) (r : α) : Prop :=
  ∃ others, proves (r :: others) = true ∧ proves others = false

/-- The test of `validate_denial` on the NSEC records of a NODATA answer. -/
def nsecsProveNodata (qname : Name) (qtype : U16) (nsecs : List Nsec) : Bool :=
  nsecs.any fun nz => nsecProvesNodata nz.owner nz.bitmap qname qtype

/-- The bitmap has the type or a CNAME that would have been answered instead. -/
def Answers (bitmap : Bytes) (qtype : U16) : Prop :=
  typeInBitmap bitmap qtype = true ∨ (qtype ≠ CNAME ∧ typeInBitmap bitmap CNAME = true)

/-! ## NODATA -/

theorem carries_any_iff {α : Type} {f : α → Bool} {r : α} :
    Carries (fun l => l.any f) r ↔ f r = true := by
  constructor
  · rintro ⟨l, h1, h2⟩
    simp only [any_cons] at h1 h2
    rwa [h2, Bool.or_false] at h1
  · intro h
    exact ⟨[], by simp [h], rfl⟩

theorem carries_nsecsProveNodata_iff {n : Nsec} {q : Name} {t : U16} (hn : n.owner.key = q.key) :
    Carries (nsecsProveNodata q t) n ↔ ¬ Answers n.bitmap t := by
  have hany : Carries (nsecsProveNodata q t) n ↔ nsecProvesNodata n.owner n.bitmap q t = true :=
    carries_any_iff
  rw [hany, nsecProvesNodata, Name.eqIgnoreAsciiCase_iff.mpr hn, Answers]
  cases typeInBitmap n.bitmap t <;> cases typeInBitmap n.bitmap CNAME <;> simp

theorem carries_nsec3ProvesNodata_iff {crypto : Crypto} {n3 : Nsec3} {q : Name} {t : U16}
    (hn : n3.matchesName crypto q = true) :
    Carries (fun l => nsec3ProvesNodata crypto l q t) n3 ↔ ¬ Answers n3.bitmap t := by
  have hany : Carries (fun l => nsec3ProvesNodata crypto l q t) n3 ↔ _ := carries_any_iff
  rw [hany, hn, Answers]
  cases typeInBitmap n3.bitmap t <;> cases typeInBitmap n3.bitmap CNAME <;> simp

/-! ## NXDOMAIN -/

/-- `p` is a proper ancestor of `q` inside the zone. -/
def ProperAncestor (zone q : Name) (p : List Bytes) : Prop :=
  zone.key <+: p ∧ p <+: q.key ∧ p ≠ q.key

section Nsec

variable {n : Nsec} {q zone : Name}

/-- Covering the queried name always counts: a record around all other names
    supplies the wildcard. -/
theorem carries_of_covers (hz : ProperAncestor zone q zone.key)
    (hcov : Covers n.owner.key n.next.key q.key) :
    Carries (fun l => nsecProvesNxdomain l q zone) n := by
  obtain ⟨h1, h2, h3⟩ := hz
  by_cases hstar : star zone.key = q.key
  · refine ⟨[], ?_, rfl⟩
    exact nsecProvesNxdomain_iff.mpr ⟨⟨n, by simp, hcov⟩, zone.key, h1, h2, h3, n, by simp,
      by rwa [hstar]⟩
  · refine ⟨[⟨q, q, []⟩], ?_, ?_⟩
    · refine nsecProvesNxdomain_iff.mpr ⟨⟨n, by simp, hcov⟩, zone.key, h1, h2, h3, ⟨q, q, []⟩,
        by simp, ?_⟩
      rw [Covers, if_neg (lt_irrefl _)]
      exact (lt_or_gt_of_ne hstar).symm
    · refine Bool.eq_false_iff.mpr fun h => ?_
      obtain ⟨⟨m, hm, hq⟩, -⟩ := nsecProvesNxdomain_iff.mp h
      rw [mem_singleton] at hm
      subst hm
      simp [Covers] at hq

/-- The wildcards of the proper ancestors of a name, and the root. -/
def wildcardsAbove (q : Name) : Finset (List Bytes) :=
  insert [] (((List.range q.key.length).map fun k => star (q.key.take k)).toFinset)

theorem star_mem_wildcardsAbove {p : List Bytes} (hp : p <+: q.key) (hne : p ≠ q.key) :
    star p ∈ wildcardsAbove q := by
  have hlt : p.length < q.key.length := lt_of_le_of_ne hp.length_le fun h => hne (hp.eq_of_length h)
  simp only [wildcardsAbove, Finset.mem_insert, mem_toFinset, mem_map, mem_range]
  exact Or.inr ⟨p.length, hlt, by rw [← prefix_iff_eq_take.mp hp]⟩

theorem exists_name_of_mem_wildcardsAbove {k : List Bytes} (hk : k ∈ wildcardsAbove q) :
    ∃ m : Name, m.key = k := by
  simp only [wildcardsAbove, Finset.mem_insert, mem_toFinset, mem_map, mem_range] at hk
  rcases hk with rfl | ⟨i, hi, rfl⟩
  · exact ⟨Name.root, rfl⟩
  · obtain ⟨p, hp, hkey⟩ := Name.exists_ancestor_of_isPrefix (List.take_prefix i q.key)
    have hne : p.key ≠ q.key := by
      intro h
      have := congrArg List.length (hkey.symm.trans h)
      rw [length_take] at this
      omega
    obtain ⟨w, hw⟩ := exists_wildcardOf hp hne
    exact ⟨w, by rw [wildcardOf_key hw, hkey]⟩

/-- Covering a wildcard counts unless the queried name is itself such a wildcard: a
    record drawn closely around the queried name supplies the rest. -/
theorem carries_of_covers_star {p : List Bytes} (hp : ProperAncestor zone q p)
    (hcov : Covers n.owner.key n.next.key (star p))
    (hq : ∀ p, ProperAncestor zone q p → star p ≠ q.key) :
    Carries (fun l => nsecProvesNxdomain l q zone) n := by
  obtain ⟨h1, h2, h3⟩ := hp
  have hnot : q.key ∉ wildcardsAbove q := by
    simp only [wildcardsAbove, Finset.mem_insert, mem_toFinset, mem_map, not_or, not_exists,
      not_and]
    refine ⟨fun h => h3 ?_, fun i hi hstar => ?_⟩
    · rw [h] at h2 ⊢; exact prefix_nil.mp h2
    · -- the wildcard is as deep as the queried name, so its parent is in the zone
      have hlen := congrArg List.length hstar
      rw [star, length_append, length_singleton, length_take] at hlen
      have hple : p.length < q.key.length :=
        lt_of_le_of_ne h2.length_le fun h => h3 (h2.eq_of_length h)
      have hpre : p <+: q.key.take i := by
        rw [prefix_iff_eq_take.mp h2]
        exact take_prefix_take_left (by omega)
      refine hq (q.key.take i) ⟨h1.trans hpre, List.take_prefix _ _, fun h => ?_⟩ hstar
      have := congrArg List.length h
      rw [length_take] at this
      omega
  obtain ⟨o, ho, nx, hnx, hcovq, hfree⟩ := exists_arc_around ⟨_, star_mem_wildcardsAbove h2 h3⟩ hnot
  obtain ⟨owner, rfl⟩ := exists_name_of_mem_wildcardsAbove ho
  obtain ⟨next, rfl⟩ := exists_name_of_mem_wildcardsAbove hnx
  refine ⟨[⟨owner, next, []⟩], ?_, ?_⟩
  · exact nsecProvesNxdomain_iff.mpr
      ⟨⟨⟨owner, next, []⟩, by simp, hcovq⟩, p, h1, h2, h3, n, by simp, hcov⟩
  · refine Bool.eq_false_iff.mpr fun h => ?_
    obtain ⟨-, p', -, h2', h3', m, hm, hstar⟩ := nsecProvesNxdomain_iff.mp h
    rw [mem_singleton] at hm
    subst hm
    exact hfree _ (star_mem_wildcardsAbove h2' h3') hstar

theorem carries_nsecProvesNxdomain_iff (hz : ProperAncestor zone q zone.key) :
    Carries (fun l => nsecProvesNxdomain l q zone) n ↔
      Covers n.owner.key n.next.key q.key ∨
        ((∃ p, ProperAncestor zone q p ∧ Covers n.owner.key n.next.key (star p)) ∧
          ∀ p, ProperAncestor zone q p → star p ≠ q.key) := by
  constructor
  · rintro ⟨others, h1, h2⟩
    obtain ⟨⟨m, hm, hq⟩, p, hp1, hp2, hp3, m', hm', hstar⟩ := nsecProvesNxdomain_iff.mp h1
    have hfail : ∀ m ∈ others, Covers m.owner.key m.next.key q.key →
        ∀ p, ProperAncestor zone q p → ∀ m' ∈ others,
          ¬ Covers m'.owner.key m'.next.key (star p) := by
      intro m hm hq p hp m' hm' hs
      have htrue : nsecProvesNxdomain others q zone = true :=
        nsecProvesNxdomain_iff.mpr ⟨⟨m, hm, hq⟩, p, hp.1, hp.2.1, hp.2.2, m', hm', hs⟩
      exact absurd (htrue.symm.trans h2) (by decide)
    by_cases hcov : Covers n.owner.key n.next.key q.key
    · exact Or.inl hcov
    · -- another record covers the queried name, so this one must cover the wildcard
      have hmem : m ∈ others := (mem_cons.mp hm).resolve_left fun e => hcov (e ▸ hq)
      refine Or.inr ⟨⟨p, ⟨hp1, hp2, hp3⟩, ?_⟩, fun p hp he => ?_⟩
      · rcases mem_cons.mp hm' with rfl | hm'
        · exact hstar
        · exact absurd hstar (hfail m hmem hq p ⟨hp1, hp2, hp3⟩ m' hm')
      · exact hfail m hmem hq p hp m hmem (he ▸ hq)
  · rintro (hcov | ⟨⟨p, hp, hcov⟩, hq⟩)
    · exact carries_of_covers hz hcov
    · exact carries_of_covers_star hp hcov hq

end Nsec

section Nsec3

variable {crypto : Crypto} {n3 : Nsec3} {q zone m : Name}

/-- A record that covers every name and matches none. -/
def everything : Nsec3 := ⟨1, 0, 0, [], [], [], []⟩

theorem everything_hash (name : Name) : ∃ h, everything.hash crypto name = some h ∧ h ≠ [] := by
  refine ⟨_, rfl, fun h => ?_⟩
  have hlen :=
    nsec3Hash_length crypto (canonicalNameWire name) everything.salt everything.iterations
  rw [h] at hlen
  cases hlen

theorem everything_covers (name : Name) : everything.covers crypto name = true := by
  obtain ⟨h, hh, hne⟩ := @everything_hash crypto name
  refine Nsec3.covers_iff.mpr ⟨h, hh, ?_⟩
  show Covers [] [] h
  cases h with
  | nil => exact absurd rfl hne
  | cons b h => exact Or.inl List.Lex.nil

theorem everything_not_matches (name : Name) : everything.matchesName crypto name = false := by
  obtain ⟨h, hh, hne⟩ := @everything_hash crypto name
  rw [Nsec3.matchesName, hh]
  exact decide_eq_false fun e => hne (Option.some.inj e)

/-- A record that matches an ancestor inside the zone can always stand in for the
    closest encloser. -/
theorem carries_nsec3ProvesNxdomain (hm : m ∈ q.ancestors) (hp : ProperAncestor zone q m.key)
    (hn : n3.matchesName crypto m = true) :
    Carries (fun l => nsec3ProvesNxdomain crypto l q zone) n3 := by
  have hcov : ∀ name, Covered crypto [n3, everything] name := fun name =>
    ⟨everything, by simp, everything_covers name⟩
  have hmatch : Matched crypto [n3, everything] m := ⟨n3, by simp, hn⟩
  refine ⟨[everything], ?_, ?_⟩
  · obtain ⟨ce, nc, henc⟩ := exists_enclosure hm hp.2.2 hp.1 hmatch
    obtain ⟨-, hce, hnc, ⟨l, hl⟩, -⟩ := enclosure_some henc
    have hne : ce.key ≠ q.key := by
      intro h
      have := (Name.key_prefix_of_mem_ancestors hnc).length_le
      rw [hl, h, length_append, length_singleton] at this
      omega
    obtain ⟨w, hw⟩ := exists_wildcardOf hce hne
    exact nsec3ProvesNxdomain_iff.mpr ⟨ce, nc, henc, hcov nc, w, hw, hcov w⟩
  · refine Bool.eq_false_iff.mpr fun h => ?_
    obtain ⟨ce, nc, henc, -⟩ := nsec3ProvesNxdomain_iff.mp h
    obtain ⟨-, -, -, -, ⟨n, hn, hmatch⟩, -⟩ := enclosure_some henc
    rw [mem_singleton] at hn
    rw [hn, everything_not_matches] at hmatch
    cases hmatch

end Nsec3

/-! ## The records of a delegation -/

/-- For the NSEC and the NSEC3 of a name `d` and a queried name `q` strictly below it:
    whether one of them can be what proves NODATA at `d` or NXDOMAIN at `q` does not
    depend on NS, SOA or DNAME in its bitmap. It cannot exactly if its bitmap has the
    queried type or CNAME, respectively if its arc holds nothing the search asks for;
    the NSEC3 always can for a name below. -/
theorem not_carries_iff {crypto : Crypto} {n : Nsec} {n3 : Nsec3} {d q zone : Name} {t : U16}
    (hn : n.owner.key = d.key) (hn3 : n3.matchesName crypto d = true) (hd : d ∈ q.ancestors)
    (hq : ProperAncestor zone q d.key) :
    (¬ Carries (nsecsProveNodata d t) n ↔ Answers n.bitmap t) ∧
    (¬ Carries (fun l => nsec3ProvesNodata crypto l d t) n3 ↔ Answers n3.bitmap t) ∧
    (¬ Carries (fun l => nsecProvesNxdomain l q zone) n ↔
      ¬ Covers n.owner.key n.next.key q.key ∧
        ((∀ p, ProperAncestor zone q p → ¬ Covers n.owner.key n.next.key (star p)) ∨
          ∃ p, ProperAncestor zone q p ∧ star p = q.key)) ∧
    Carries (fun l => nsec3ProvesNxdomain crypto l q zone) n3 := by
  have hzone : ProperAncestor zone q zone.key := by
    refine ⟨prefix_rfl, hq.1.trans hq.2.1, fun h => hq.2.2 ?_⟩
    exact hq.2.1.eq_of_length (le_antisymm hq.2.1.length_le (h ▸ hq.1.length_le))
  refine ⟨?_, ?_, ?_, carries_nsec3ProvesNxdomain hd hq hn3⟩
  · rw [carries_nsecsProveNodata_iff hn, not_not]
  · rw [carries_nsec3ProvesNodata_iff hn3, not_not]
  · rw [carries_nsecProvesNxdomain_iff hzone, not_or, not_and_or]
    refine and_congr_right fun _ => or_congr ?_ ?_
    · simp
    · simp

/-- The bitmap of a delegation. -/
def delegationBitmap : Bytes := typeBitmap [NS]

/-- The NSEC of the delegation `a.` in the root zone. -/
def delegationNsec : Nsec := ⟨nameA, nameB, delegationBitmap⟩

/-- Its NSEC3. -/
def delegationNsec3 : Nsec3 :=
  ⟨1, 0, 0, [], (idealCrypto [] []).sha1 (canonicalNameWire nameA), [], delegationBitmap⟩

/-- The records of the delegation `a.` prove that `a.` has no addresses and that
    `b.a.` does not exist, though both are for the child zone to say. -/
theorem delegation_carries :
    ParentSide delegationBitmap ∧ Rtype.A ≠ DS ∧
    Carries (nsecsProveNodata nameA Rtype.A) delegationNsec ∧
    Carries (fun l => nsec3ProvesNodata (idealCrypto [] []) l nameA Rtype.A) delegationNsec3 ∧
    Carries (fun l => nsecProvesNxdomain l nameBA Name.root) delegationNsec ∧
    Carries (fun l => nsec3ProvesNxdomain (idealCrypto [] []) l nameBA Name.root)
      delegationNsec3 := by
  refine ⟨by decide +kernel, by decide, ⟨[], ?_, rfl⟩, ⟨[], ?_, rfl⟩,
    ⟨[⟨Name.root, nameA, []⟩], ?_, ?_⟩, ⟨[everything], ?_, ?_⟩⟩ <;> decide +kernel

/-- The general theorem on the records of the delegation. -/
theorem not_carries_iff_delegation :
    (¬ Carries (nsecsProveNodata nameA Rtype.A) delegationNsec ↔
      Answers delegationNsec.bitmap Rtype.A) ∧
    (¬ Carries (fun l => nsec3ProvesNodata (idealCrypto [] []) l nameA Rtype.A) delegationNsec3 ↔
      Answers delegationNsec3.bitmap Rtype.A) ∧
    (¬ Carries (fun l => nsecProvesNxdomain l nameBA Name.root) delegationNsec ↔
      ¬ Covers delegationNsec.owner.key delegationNsec.next.key nameBA.key ∧
        ((∀ p, ProperAncestor Name.root nameBA p →
            ¬ Covers delegationNsec.owner.key delegationNsec.next.key (star p)) ∨
          ∃ p, ProperAncestor Name.root nameBA p ∧ star p = nameBA.key)) ∧
    Carries (fun l => nsec3ProvesNxdomain (idealCrypto [] []) l nameBA Name.root) delegationNsec3 :=
  not_carries_iff rfl (by decide +kernel) (by decide +kernel)
    ⟨by decide +kernel, by decide +kernel, by decide +kernel⟩

end Runbound.Dnssec
