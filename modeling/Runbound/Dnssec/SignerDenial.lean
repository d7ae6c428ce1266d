import Runbound.Dnssec.DenialComplete
import Runbound.Dnssec.ZoneSigner

/-!
# What the denial of the online signer proves

The signer builds a ring through the hashes of the owner names and sends one to three
of its arcs. The validator searches the records it received for the closest encloser;
the signer searched all owner names, and both end at the same name.

* `Chain`: the ring through the hashes of the owner names.
* `nxdomainArcs_proves_iff`: when the arcs of a name error prove it.
* `nodataArc_proves_iff`: when the arc at a name proves that it lacks a type.
-/

namespace Runbound.Dnssec

open Wire Lib List Rtype Name

/-! ## The ring -/

theorem map_hash_dedupAfter : ∀ (l : List Nsec3Node) (a : Nsec3Node),
    (dedupAfter a l).map Nsec3Node.hash = dedup (a.hash :: l.map Nsec3Node.hash) := by
  intro l
  induction l with
  | nil => intro a; rfl
  | cons b l ih =>
    intro a
    rw [dedupAfter, map_cons, dedup]
    split_ifs with h
    · rw [ih, h]
    · rw [map_cons, ih]

theorem map_hash_dedupByHash (l : List Nsec3Node) :
    (dedupByHash l).map Nsec3Node.hash = dedup (l.map Nsec3Node.hash) := by
  cases l with
  | nil => rfl
  | cons a l => exact map_hash_dedupAfter l a

theorem mem_of_mem_dedupAfter {x : Nsec3Node} : ∀ {l : List Nsec3Node} {a : Nsec3Node},
    x ∈ dedupAfter a l → x ∈ a :: l := by
  intro l
  induction l with
  | nil => intro a h; exact h
  | cons b l ih =>
    intro a h
    rw [dedupAfter] at h
    split_ifs at h
    · rcases mem_cons.mp (ih h) with rfl | h
      · exact mem_cons_self
      · exact mem_cons_of_mem _ (mem_cons_of_mem _ h)
    · rcases mem_cons.mp h with rfl | h
      · exact mem_cons_self
      · exact mem_cons_of_mem _ (ih h)

theorem mem_of_mem_dedupByHash {x : Nsec3Node} {l : List Nsec3Node} (h : x ∈ dedupByHash l) :
    x ∈ l := by
  cases l with
  | nil => exact h
  | cons a l => exact mem_of_mem_dedupAfter h

/-- The nodes stand in the order of their hashes, one or more owners behind each. -/
structure Chain (crypto : Crypto) (owners : List (Name × List U16)) (nodes : List Nsec3Node) :
    Prop where
  sorted : nodes.Pairwise fun a b => a.hash < b.hash
  owner : ∀ a ∈ nodes, ∃ o ∈ owners, a.hash = nsec3HashName crypto o.1 ∧ a.types = o.2 ++ [RRSIG]
  node : ∀ o ∈ owners, ∃ a ∈ nodes, a.hash = nsec3HashName crypto o.1

variable {owners : List (Name × List U16)}

theorem chain_buildNsec3Chain {crypto : Crypto} {nodes : List Nsec3Node}
    (h : buildNsec3Chain crypto owners = some nodes) :
    Chain crypto owners nodes := by
  unfold buildNsec3Chain at h
  simp only [Option.ite_none_left_eq_some, Option.some.injEq] at h
  obtain ⟨-, rfl⟩ := h
  set start := owners.map fun o =>
    (⟨nsec3HashName crypto o.1, o.2 ++ [RRSIG], nsec3HashName_length crypto o.1⟩ : Nsec3Node)
  set sorted := start.insertionSort fun a b => a.hash ≤ b.hash
  have hmem : ∀ {a}, a ∈ sorted ↔ a ∈ start := mem_insertionSort _
  have hle : sorted.Pairwise fun a b => a.hash ≤ b.hash := by
    exact pairwise_insertionSort _ start
  have hhash : ∀ {x}, x ∈ (dedupByHash sorted).map Nsec3Node.hash ↔
      x ∈ sorted.map Nsec3Node.hash := by
    intro x
    rw [map_hash_dedupByHash, mem_dedup]
  refine ⟨?_, fun a ha => ?_, fun o ho => ?_⟩
  · have hlt := dedup_pairwise (pairwise_map.mpr hle)
    rw [← map_hash_dedupByHash] at hlt
    exact pairwise_map.mp hlt
  · obtain ⟨o, ho, rfl⟩ := mem_map.mp (hmem.mp (mem_of_mem_dedupByHash ha))
    exact ⟨o, ho, rfl, rfl⟩
  · have hstart := hmem.mpr (mem_map_of_mem ho)
    exact mem_map.mp (hhash.mpr (mem_map_of_mem hstart))

/-- The NSEC3 of an arc of the ring. -/
def nsec3OfArc (a : Nsec3Node × Nsec3Node) : Nsec3 :=
  ⟨1, 0, 0, [], a.1.hash, a.2.hash, typeBitmap a.1.types⟩

section Arc

variable {crypto : Crypto} {a : Nsec3Node × Nsec3Node} {name : Name}

theorem hash_nsec3OfArc : (nsec3OfArc a).hash crypto name = some (nsec3HashName crypto name) := by
  rfl

theorem matchesName_nsec3OfArc :
    (nsec3OfArc a).matchesName crypto name = true ↔ a.1.hash = nsec3HashName crypto name := by
  rw [Nsec3.matchesName, hash_nsec3OfArc, decide_eq_true_eq, Option.some.injEq, eq_comm]
  rfl

theorem covers_nsec3OfArc :
    (nsec3OfArc a).covers crypto name = true ↔
      Covers a.1.hash a.2.hash (nsec3HashName crypto name) := by
  rw [Nsec3.covers_iff, hash_nsec3OfArc]
  simp only [Option.some.injEq, exists_eq_left']
  rfl

theorem arcCovers_iff {target : Bytes} :
    arcCovers target a = true ↔ Covers a.1.hash a.2.hash target := by
  unfold arcCovers Covers
  split_ifs <;> simp

theorem nsec3HashName_congr {m : Name} (h : name.key = m.key) :
    nsec3HashName crypto name = nsec3HashName crypto m := by
  rw [nsec3HashName, nsec3HashName, canonicalNameWire_congr h]

end Arc

/-! ## The records in the response -/

/-- The NSEC3 records of a section. -/
def nsec3sIn (records : List Record) : List Nsec3 :=
  (records.filter fun r => r.rtype = NSEC3).filterMap fun r =>
    r.rdata.data?.bind (Nsec3.parse r.name)

theorem nsec3sIn_append (l l' : List Record) : nsec3sIn (l ++ l') = nsec3sIn l ++ nsec3sIn l' := by
  simp [nsec3sIn]

section Signer

variable {s : ZoneSigner} {now : ℕ} {crypto : Crypto} {z : ZoneKeys}

theorem rtype_rrsigRecord {key : SigningKey} {apex owner : Name} {t : U16} {ttl : U32}
    {rdatas : List Rdata} {r : Record}
    (h : s.rrsigRecord now key apex owner t ttl rdatas = some r) :
    r.rtype = RRSIG := by
  unfold ZoneSigner.rrsigRecord at h
  split at h
  · cases h
  · cases h
    rfl

theorem nsec3sIn_signedSoa {apex : Name} {recs : List Record}
    (h : s.signedSoa now apex = some recs) : nsec3sIn recs = [] := by
  obtain ⟨k, -, hk⟩ := Option.bind_eq_some_iff.mp h
  obtain ⟨sig, hsig, rfl⟩ := Option.map_eq_some_iff.mp hk
  have ht := rtype_rrsigRecord hsig
  have hsoa : (ZoneSigner.synthSoa now k.apex).rtype = SOA := rfl
  rw [nsec3sIn, filter_cons_of_neg (by rw [hsoa]; decide), filter_cons_of_neg (by rw [ht]; decide)]
  rfl

theorem nsec3sIn_signedNsec3 {a : Nsec3Node × Nsec3Node} {recs : List Record}
    (h : s.signedNsec3 now z a = some recs) : nsec3sIn recs = [nsec3OfArc a] := by
  obtain ⟨owner, howner, ho⟩ := Option.bind_eq_some_iff.mp h
  obtain ⟨sig, hsig, rfl⟩ := Option.map_eq_some_iff.mp ho
  have ht := rtype_rrsigRecord hsig
  have hparse : Nsec3.parse owner (nsec3Rdata 0 0 [] a.2.hash a.1.types) = some (nsec3OfArc a) :=
    Nsec3.parse_prependLabel a.1.hash_length (by decide) (by rw [a.2.hash_length]; decide) howner
  rw [nsec3sIn, filter_cons_of_pos (by rfl), filter_cons_of_neg (by rw [ht]; decide)]
  exact filterMap_cons_some hparse

theorem nsec3sIn_flatten : ∀ {arcs : List (Nsec3Node × Nsec3Node)} {rss : List (List Record)},
    arcs.mapM (s.signedNsec3 now z) = some rss → nsec3sIn rss.flatten = arcs.map nsec3OfArc := by
  intro arcs
  induction arcs with
  | nil =>
    intro rss h
    cases h
    rfl
  | cons a arcs ih =>
    intro rss h
    rw [mapM_cons] at h
    obtain ⟨recs, hrecs, h⟩ := Option.bind_eq_some_iff.mp h
    obtain ⟨rss', hrss, h⟩ := Option.bind_eq_some_iff.mp h
    cases h
    rw [flatten_cons, nsec3sIn_append, nsec3sIn_signedNsec3 hrecs, ih hrss]
    rfl

theorem signedNegative_nxdomain {qname : Name} {authority : List Record}
    (h : s.signedNegative now crypto true qname owners = some authority) :
    ∃ arcs, nxdomainArcs crypto qname owners = some arcs ∧
      nsec3sIn authority = arcs.map nsec3OfArc := by
  obtain ⟨z, -, h⟩ := Option.bind_eq_some_iff.mp h
  obtain ⟨soa, hsoa, h⟩ := Option.bind_eq_some_iff.mp h
  obtain ⟨denial, hdenial, rfl⟩ := Option.map_eq_some_iff.mp h
  obtain ⟨arcs, harcs, h⟩ := Option.bind_eq_some_iff.mp hdenial
  obtain ⟨rss, hrss, rfl⟩ := Option.map_eq_some_iff.mp h
  refine ⟨arcs, harcs, ?_⟩
  rw [nsec3sIn_append, nsec3sIn_signedSoa hsoa, nsec3sIn_flatten hrss, nil_append]

theorem signedNegative_nodata {qname : Name} {authority : List Record}
    (h : s.signedNegative now crypto false qname owners = some authority) :
    ∃ nodes a, buildNsec3Chain crypto owners = some nodes ∧ a ∈ ring nodes ∧
      a.1.hash = nsec3HashName crypto qname ∧ nsec3sIn authority = [nsec3OfArc a] := by
  obtain ⟨z, -, h⟩ := Option.bind_eq_some_iff.mp h
  obtain ⟨soa, hsoa, h⟩ := Option.bind_eq_some_iff.mp h
  obtain ⟨denial, hdenial, rfl⟩ := Option.map_eq_some_iff.mp h
  obtain ⟨nodes, hnodes, h⟩ := Option.bind_eq_some_iff.mp hdenial
  obtain ⟨a, ha, h⟩ := Option.bind_eq_some_iff.mp h
  refine ⟨nodes, a, hnodes, mem_of_find?_eq_some ha, ?_, ?_⟩
  · have hfound := find?_some ha
    exact of_decide_eq_true hfound
  · rw [nsec3sIn_append, nsec3sIn_signedSoa hsoa, nsec3sIn_signedNsec3 h, nil_append]

end Signer

/-! ## The names of the zone -/

section

variable (entries : List (Name × List U16)) (apex : Name)

/-- The owner names of a zone, and those between them and its apex. -/
def ZoneNode (p : List Bytes) : Prop := IsNode apex.key (apex.key :: entries.map fun e => e.1.key) p

/-- The deepest name of the zone strictly above `q`. -/
def ZoneEncloser (q ce : List Bytes) : Prop :=
  ClosestEncloser apex.key (apex.key :: entries.map fun e => e.1.key) q ce

/-- The types of a name of the zone. -/
def ZoneType (p : List Bytes) (t : U16) : Prop :=
  (p = apex.key ∧ t ∈ [SOA, DNSKEY, NSEC3PARAM]) ∨
    ∃ e ∈ entries, apex.key <+: e.1.key ∧ e.1.key = p ∧ t ∈ e.2

end

/-- The names whose hashes a denial compares: the owners, the name in question with its
    ancestors, and the wildcards below those. -/
def namesInvolved (owners : List (Name × List U16)) (q : Name) : List Name :=
  owners.map Prod.fst ++ q.ancestors ++ q.ancestors.filterMap wildcardOf

/-- Two names among those involved have the same hash only if they are the same name. -/
def HashesApart (crypto : Crypto) (owners : List (Name × List U16)) (q : Name) : Prop :=
  ∀ a ∈ namesInvolved owners q, ∀ b ∈ namesInvolved owners q,
    nsec3HashName crypto a = nsec3HashName crypto b → a.key = b.key

instance (crypto : Crypto) (owners : List (Name × List U16)) (q : Name) :
    Decidable (HashesApart crypto owners q) := by unfold HashesApart; infer_instance

section Denial

variable {crypto : Crypto} {entries : List (Name × List U16)} {apex q name : Name}
  {nodes : List Nsec3Node} {arcs : List (Nsec3Node × Nsec3Node)}

theorem HashesApart.key_eq (h : HashesApart crypto owners q) {o : Name × List U16} (ho : o ∈ owners)
    (hname : name ∈ q.ancestors ∨ ∃ p ∈ q.ancestors, wildcardOf p = some name)
    (heq : nsec3HashName crypto o.1 = nsec3HashName crypto name) : o.1.key = name.key := by
  refine h o.1 ?_ name ?_ heq
  · rw [namesInvolved, append_assoc, mem_append]
    exact Or.inl (mem_map_of_mem ho)
  · rw [namesInvolved, append_assoc, mem_append, mem_append, mem_filterMap]
    exact Or.inr hname

variable (hapart : HashesApart crypto (zoneOwners entries apex) q)
  (hchain : Chain crypto (zoneOwners entries apex) nodes)

include hchain

theorem Chain.exists_node (h : ZoneNode entries apex name.key) :
    ∃ a ∈ nodes, a.hash = nsec3HashName crypto name := by
  obtain ⟨o, ho, hkey⟩ := exists_zoneOwner_iff.mpr h
  obtain ⟨a, ha, hhash⟩ := hchain.node o ho
  exact ⟨a, ha, hhash.trans (nsec3HashName_congr hkey)⟩

theorem Chain.not_zoneNode_of_covered (hsub : arcs ⊆ ring nodes)
    (h : Covered crypto (arcs.map nsec3OfArc) name) : ¬ ZoneNode entries apex name.key := by
  obtain ⟨n3, hn3, hcov⟩ := h
  obtain ⟨a, ha, rfl⟩ := mem_map.mp hn3
  intro hnode
  obtain ⟨b, hb, hhash⟩ := hchain.exists_node hnode
  exact not_mem_of_covers hchain.sorted (hsub ha) (covers_nsec3OfArc.mp hcov) b hb hhash

include hapart

variable (hname : name ∈ q.ancestors ∨ ∃ p ∈ q.ancestors, wildcardOf p = some name)

include hname

theorem Chain.zoneNode_of_hash {a : Nsec3Node} (ha : a ∈ nodes)
    (h : a.hash = nsec3HashName crypto name) : ZoneNode entries apex name.key := by
  obtain ⟨o, ho, hhash, -⟩ := hchain.owner a ha
  exact exists_zoneOwner_iff.mp ⟨o, ho, hapart.key_eq ho hname (hhash.symm.trans h)⟩

theorem Chain.zoneNode_of_matched (hsub : arcs ⊆ ring nodes)
    (h : Matched crypto (arcs.map nsec3OfArc) name) : ZoneNode entries apex name.key := by
  obtain ⟨n3, hn3, hm⟩ := h
  obtain ⟨a, ha, rfl⟩ := mem_map.mp hn3
  exact hchain.zoneNode_of_hash hapart hname (mem_of_mem_ring (hsub ha)).1
    (matchesName_nsec3OfArc.mp hm)

/-- The signer finds an arc around exactly those names that are not in the zone, and the
    validator accepts it. -/
theorem Chain.covered_iff (hsub : arcs ⊆ ring nodes)
    (hfound : ∀ a, (ring nodes).find? (arcCovers (nsec3HashName crypto name)) = some a → a ∈ arcs) :
    Covered crypto (arcs.map nsec3OfArc) name ↔ ¬ ZoneNode entries apex name.key := by
  refine ⟨hchain.not_zoneNode_of_covered hsub, fun hmiss => ?_⟩
  have hne : ∀ c ∈ nodes, c.hash ≠ nsec3HashName crypto name := fun c hc e =>
    hmiss (hchain.zoneNode_of_hash hapart hname hc e)
  have hnil : nodes ≠ [] := by
    obtain ⟨a, ha, -⟩ := hchain.exists_node (isNode_root mem_cons_self : ZoneNode _ apex apex.key)
    exact ne_nil_of_mem ha
  obtain ⟨b, hb, hcov⟩ := exists_covers hchain.sorted hnil hne
  have hsome := find?_isSome.mpr ⟨b, hb, arcCovers_iff.mpr hcov⟩
  obtain ⟨a, ha⟩ := Option.isSome_iff_exists.mp hsome
  exact ⟨_, mem_map_of_mem (hfound a ha), covers_nsec3OfArc.mpr (arcCovers_iff.mp (find?_some ha))⟩

omit hapart hchain hname

theorem chainTo_root : ∀ {ls : List Bytes} {h : LabelsOk ls},
    chainTo Name.root (Name.ancestorsFrom ls h) = some (Name.ancestorsFrom ls h) := by
  intro ls
  induction ls with
  | nil =>
    intro h
    have heq : (⟨[], h⟩ : Name).eqIgnoreAsciiCase Name.root = true :=
      eqIgnoreAsciiCase_refl Name.root
    rw [Name.ancestorsFrom, chainTo, if_pos heq]
  | cons l ls ih =>
    intro h
    have hne : (⟨l :: ls, h⟩ : Name).eqIgnoreAsciiCase Name.root = false := by
      rw [eqIgnoreAsciiCase_eq_decide, key_mk_cons]
      simp
    rw [Name.ancestorsFrom, chainTo, hne, ih]
    rfl

include hchain

/-- The signer looks for the closest encloser as the validator does, but among all owners. -/
theorem Chain.closestExisting_eq :
    closestExisting crypto ((zoneOwners entries apex).map fun o => nsec3HashName crypto o.1)
      q.ancestors = enclosure crypto ((ring nodes).map nsec3OfArc) q Name.root := by
  have hany : ∀ p : Name, (((ring nodes).map nsec3OfArc).any fun n3 => n3.matchesName crypto p) =
      decide (nsec3HashName crypto p ∈
        (zoneOwners entries apex).map fun o => nsec3HashName crypto o.1) := by
    intro p
    rw [Bool.eq_iff_iff, any_map, any_eq_true, decide_eq_true_eq, mem_map]
    constructor
    · rintro ⟨a, ha, hm⟩
      obtain ⟨o, ho, hhash, -⟩ := hchain.owner a.1 (mem_of_mem_ring ha).1
      exact ⟨o, ho, hhash.symm.trans (matchesName_nsec3OfArc.mp hm)⟩
    · rintro ⟨o, ho, hhash⟩
      obtain ⟨a, ha, hnode⟩ := hchain.node o ho
      obtain ⟨b, hb⟩ := exists_arc_of_mem ha
      exact ⟨_, hb, matchesName_nsec3OfArc.mpr (hnode.trans hhash)⟩
  have hloop : ∀ l : List Name,
      closestExisting crypto ((zoneOwners entries apex).map fun o => nsec3HashName crypto o.1) l =
        closestEncloser crypto ((ring nodes).map nsec3OfArc) l := by
    intro l
    induction l with
    | nil => rfl
    | cons child l ih =>
      cases l with
      | nil => rfl
      | cons parent up =>
        rw [closestExisting, closestEncloser, hany, ih]
        simp only [decide_eq_true_eq]
  rw [hloop, enclosure, Name.ancestors, chainTo_root, Option.bind_some]

include hapart

/-- The signer finds the closest encloser of the zone and the name below it. -/
theorem Chain.zoneEncloser {ce nc : Name}
    (h : enclosure crypto ((ring nodes).map nsec3OfArc) q Name.root = some (ce, nc)) :
    ZoneEncloser entries apex q.key ce.key ∧ ce ∈ q.ancestors ∧ nc ∈ q.ancestors ∧
      ∃ l, nc.key = ce.key ++ [l] := by
  obtain ⟨-, hce, hnc, ⟨l, hl⟩, hmatch, hdeep⟩ := enclosure_some h
  have hsub := List.Subset.refl (ring nodes)
  refine ⟨⟨key_prefix_of_mem_ancestors hce, ?_, ?_, ?_⟩, hce, hnc, l, hl⟩
  · intro e
    have := (key_prefix_of_mem_ancestors hnc).length_le
    rw [hl, e, length_append, length_singleton] at this
    omega
  · exact hchain.zoneNode_of_matched hapart (Or.inl hce) hsub hmatch
  · intro p hp hne hnode
    obtain ⟨m, hm, rfl⟩ := exists_ancestor_of_isPrefix hp
    obtain ⟨a, ha, hhash⟩ := hchain.exists_node hnode
    obtain ⟨b, hb⟩ := exists_arc_of_mem ha
    exact hdeep m hm hne ⟨_, mem_map_of_mem hb, matchesName_nsec3OfArc.mpr hhash⟩

/-- The validator ends at the same names as the signer. -/
theorem Chain.enclosure_of_arcs {ce nc : Name} (hce : ZoneEncloser entries apex q.key ce.key)
    (hmem : ce ∈ q.ancestors) (hnc : nc ∈ q.ancestors) {l : Bytes} (hl : nc.key = ce.key ++ [l])
    (hsub : arcs ⊆ ring nodes) (hmatch : Matched crypto (arcs.map nsec3OfArc) ce) :
    ∃ ce' nc', enclosure crypto (arcs.map nsec3OfArc) q apex = some (ce', nc') ∧
      ce'.key = ce.key ∧ nc'.key = nc.key ∧ ce' ∈ q.ancestors := by
  obtain ⟨ce', nc', henc⟩ := exists_enclosure hmem hce.ne hce.node.1 hmatch
  obtain ⟨-, hce', hnc', ⟨l', hl'⟩, hmatch', hdeep⟩ := enclosure_some henc
  have hpre := key_prefix_of_mem_ancestors hnc
  have hpre' := key_prefix_of_mem_ancestors hnc'
  have hne : ce'.key ≠ q.key := by
    intro e
    have := hpre'.length_le
    rw [hl', e, length_append, length_singleton] at this
    omega
  have hkey : ce'.key = ce.key := by
    have h1 := hdeep ce hmem hce.ne hmatch
    have h2 := hce.deepest _ (key_prefix_of_mem_ancestors hce') hne
      (hchain.zoneNode_of_matched hapart (Or.inl hce') hsub hmatch')
    exact h2.eq_of_length (le_antisymm h2.length_le h1.length_le)
  refine ⟨ce', nc', henc, hkey, ?_, hce'⟩
  -- both are the path to the name in question, one label below the encloser
  refine (prefix_of_prefix_length_le hpre' hpre ?_).eq_of_length ?_ <;>
    simp [hl, hl', hkey]

omit hapart hchain

theorem Covered.congr {nsec3s : List Nsec3} {a b : Name} (h : Covered crypto nsec3s a)
    (hkey : a.key = b.key) : Covered crypto nsec3s b := by
  obtain ⟨n3, hn, hcov⟩ := h
  exact ⟨n3, hn, by rwa [Nsec3.covers, ← Nsec3.hash_congr hkey]⟩

include hapart

/-- The arcs of a name error prove it exactly if neither the name nor the wildcard at its
    closest encloser is in the zone. -/
theorem nxdomainArcs_proves_iff (h : nxdomainArcs crypto q (zoneOwners entries apex) = some arcs) :
    nsec3ProvesNxdomain crypto (arcs.map nsec3OfArc) q apex = true ↔
      ¬ ZoneNode entries apex q.key ∧
        ∀ ce, ZoneEncloser entries apex q.key ce → ¬ ZoneNode entries apex (star ce) := by
  obtain ⟨nodes, hnodes, h⟩ := Option.bind_eq_some_iff.mp h
  obtain ⟨⟨ce, nc⟩, henc, h⟩ := Option.bind_eq_some_iff.mp h
  obtain ⟨wc, hwc, h⟩ := Option.bind_eq_some_iff.mp h
  obtain ⟨a, ha, harcs⟩ := Option.map_eq_some_iff.mp h
  have hchain := chain_buildNsec3Chain hnodes
  rw [hchain.closestExisting_eq] at henc
  obtain ⟨hce, hmem, hnc, l, hl⟩ := hchain.zoneEncloser hapart henc
  have hfound := find?_some ha
  rw [prependLabel_star] at hwc
  have hwckey := wildcardOf_key hwc
  have hin : ∀ x, x ∈ arcs ↔ x = a ∨
      (ring nodes).find? (arcCovers (nsec3HashName crypto nc)) = some x ∨
      (ring nodes).find? (arcCovers (nsec3HashName crypto wc)) = some x := by
    rw [← harcs]
    simp
  have hsub : arcs ⊆ ring nodes := by
    intro x hx
    rcases (hin x).mp hx with rfl | hx | hx
    · exact mem_of_find?_eq_some ha
    · exact mem_of_find?_eq_some hx
    · exact mem_of_find?_eq_some hx
  have hmatch : Matched crypto (arcs.map nsec3OfArc) ce :=
    ⟨_, mem_map_of_mem ((hin a).mpr (Or.inl rfl)),
      matchesName_nsec3OfArc.mpr (of_decide_eq_true hfound)⟩
  obtain ⟨ce', nc', henc', hcekey, hnckey, hmem'⟩ :=
    hchain.enclosure_of_arcs hapart hce hmem hnc hl hsub hmatch
  have hcovnc : Covered crypto (arcs.map nsec3OfArc) nc ↔ ¬ ZoneNode entries apex nc.key :=
    hchain.covered_iff hapart (Or.inl hnc) hsub fun x hx => (hin x).mpr (Or.inr (Or.inl hx))
  have hcovwc : Covered crypto (arcs.map nsec3OfArc) wc ↔ ¬ ZoneNode entries apex wc.key :=
    hchain.covered_iff hapart (Or.inr ⟨ce, hmem, hwc⟩) hsub
      fun x hx => (hin x).mpr (Or.inr (Or.inr hx))
  have hnext : ¬ ZoneNode entries apex nc.key ↔ ¬ ZoneNode entries apex q.key := by
    have hpre := hl ▸ key_prefix_of_mem_ancestors hnc
    rw [hl]
    exact ⟨not_isNode_of_next hce.node hpre, fun hq => hce.not_isNode_next hq hpre⟩
  have hwild : ¬ ZoneNode entries apex wc.key ↔
      ∀ ce, ZoneEncloser entries apex q.key ce → ¬ ZoneNode entries apex (star ce) := by
    rw [hwckey]
    exact ⟨fun hno x hx => hce.unique hx ▸ hno, fun hall => hall _ hce⟩
  rw [nsec3ProvesNxdomain_iff, ← hwild, ← hnext, ← hcovnc, ← hcovwc]
  constructor
  · rintro ⟨ce'', nc'', heq, hcov, w, hw, hcovw⟩
    obtain ⟨rfl, rfl⟩ : ce' = ce'' ∧ nc' = nc'' := by simpa using henc'.symm.trans heq
    refine ⟨hcov.congr hnckey, hcovw.congr ?_⟩
    rw [wildcardOf_key hw, hwckey, hcekey]
  · rintro ⟨hcov, hcovw⟩
    obtain ⟨w, hw⟩ := exists_wildcardOf hmem' (hcekey ▸ hce.ne)
    refine ⟨ce', nc', henc', hcov.congr hnckey.symm, w, hw, hcovw.congr ?_⟩
    rw [wildcardOf_key hw, hwckey, hcekey]

/-- The arc at a name proves that it lacks a type exactly if it has neither the type nor an
    alias; every name of the ring is signed. -/
theorem nodataArc_proves_iff {t : U16} {a : Nsec3Node × Nsec3Node}
    (hnodes : buildNsec3Chain crypto (zoneOwners entries apex) = some nodes) (ha : a ∈ ring nodes)
    (hhash : a.1.hash = nsec3HashName crypto q) :
    nsec3ProvesNodata crypto [nsec3OfArc a] q t = true ↔
      t ≠ RRSIG ∧ ¬ ZoneType entries apex q.key t ∧
        (t = CNAME ∨ ¬ ZoneType entries apex q.key CNAME) := by
  obtain ⟨o, ho, hnode, htypes⟩ := (chain_buildNsec3Chain hnodes).owner a.1 (mem_of_mem_ring ha).1
  have hkey : o.1.key = q.key :=
    hapart.key_eq ho (Or.inl q.self_mem_ancestors) (hnode.symm.trans hhash)
  have hbit : ∀ t, typeInBitmap (typeBitmap a.1.types) t = true ↔
      ZoneType entries apex q.key t ∨ t = RRSIG := by
    intro t
    rw [typeInBitmap_typeBitmap, htypes, mem_append, mem_singleton, types_zoneOwner ho, hkey]
    rfl
  have hmatch : (nsec3OfArc a).matchesName crypto q = true := matchesName_nsec3OfArc.mpr hhash
  have hmap : (nsec3OfArc a).bitmap = typeBitmap a.1.types := rfl
  rw [nsec3ProvesNodata]
  simp only [any_cons, Bool.and_eq_true, Bool.or_eq_true, Bool.not_eq_true', ← Bool.not_eq_true,
    decide_eq_true_eq, hmap, hbit]
  tauto

end Denial

end Runbound.Dnssec
