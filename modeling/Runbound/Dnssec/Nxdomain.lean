import Runbound.Dnssec.Ideal
import Runbound.Dnssec.Zone

/-!
# What an NXDOMAIN proof says about the zone

* `nsecProvesNxdomain_sound_iff`: over an NSEC chain the proof is sound for a name
  exactly if no existing name can be passed off as missing. The search accepts the
  wildcard of any ancestor, and a covered name may be an empty non-terminal.
* `nsec3ProvesNxdomain_sound`: over an NSEC3 ring the proof is always sound.
-/

namespace Runbound.Dnssec

open Wire Lib Rtype

/-! ## NSEC -/

/-- The chain as a whole denies a name exactly if the name and the wildcard of some
    ancestor own nothing; part of the chain denies no more. -/
theorem Zone.exists_nsecProvesNxdomain_iff {z : Zone} {q : Name} :
    (∃ nsecs ⊆ z.nsecs, nsecProvesNxdomain nsecs q z.apex = true) ↔
      q.key ∉ z.owners ∧ ∃ p, z.apex.key <+: p ∧ p <+: q.key ∧ p ≠ q.key ∧ star p ∉ z.owners := by
  constructor
  · rintro ⟨nsecs, hsub, h⟩
    obtain ⟨⟨n, hn, hcov⟩, p, h1, h2, h3, m, hm, hwild⟩ := nsecProvesNxdomain_iff.mp h
    exact ⟨not_mem_owners_of_covers (hsub hn) hcov, p, h1, h2, h3,
      not_mem_owners_of_covers (hsub hm) hwild⟩
  · rintro ⟨hq, p, h1, h2, h3, hstar⟩
    exact ⟨z.nsecs, List.Subset.refl _, nsecProvesNxdomain_iff.mpr
      ⟨exists_nsec_covers hq, p, h1, h2, h3, exists_nsec_covers hstar⟩⟩

/-- An NXDOMAIN proof from part of the NSEC chain shows that the name does not exist
    and that no wildcard at its closest encloser does, exactly if the name owns
    records, or neither exists, or every wildcard above the name owns records. -/
theorem nsecProvesNxdomain_sound_iff (z : Zone) (q : Name) :
    (∀ nsecs ⊆ z.nsecs, nsecProvesNxdomain nsecs q z.apex = true →
        ¬ z.Exists q.key ∧ ∀ ce, z.Encloser q.key ce → ¬ z.Exists (star ce)) ↔
      q.key ∈ z.owners ∨
      (¬ z.Exists q.key ∧ ∀ ce, z.Encloser q.key ce → ¬ z.Exists (star ce)) ∨
      ∀ p, z.apex.key <+: p → p <+: q.key → p ≠ q.key → star p ∈ z.owners := by
  have hany := Zone.exists_nsecProvesNxdomain_iff (z := z) (q := q)
  constructor
  · intro hsound
    by_cases hproof : ∃ nsecs ⊆ z.nsecs, nsecProvesNxdomain nsecs q z.apex = true
    · obtain ⟨nsecs, hsub, h⟩ := hproof
      exact Or.inr (Or.inl (hsound nsecs hsub h))
    · rw [hany] at hproof
      by_cases hq : q.key ∈ z.owners
      · exact Or.inl hq
      · refine Or.inr (Or.inr fun p h1 h2 h3 => ?_)
        by_contra hstar
        exact hproof ⟨hq, p, h1, h2, h3, hstar⟩
  · rintro h nsecs hsub hproof
    obtain ⟨hq, p, h1, h2, h3, hstar⟩ := hany.mp ⟨nsecs, hsub, hproof⟩
    rcases h with h | h | h
    · exact absurd h hq
    · exact h
    · exact absurd (h p h1 h2 h3) hstar

/-- `b.a.` -/
def nameBA : Name := ⟨[[98], [97]], by decide⟩

/-- `*.a.` -/
def nameStarA : Name := ⟨[[42], [97]], by decide⟩

/-- A zone whose only names are the root and `b.a.`, so that `a.` is an empty
    non-terminal. -/
def entZone : Zone where
  apex := Name.root
  nodes := [⟨Name.root, [NS, SOA]⟩, ⟨nameBA, [Rtype.A]⟩]
  sorted := by decide +kernel
  apex_mem := by decide +kernel
  in_zone := by decide +kernel

/-- A zone where `a.` has a wildcard below it and the root has none. -/
def wildcardZone : Zone where
  apex := Name.root
  nodes := [⟨Name.root, [NS, SOA]⟩, ⟨nameA, [Rtype.A]⟩, ⟨nameStarA, [Rtype.A]⟩]
  sorted := by decide +kernel
  apex_mem := by decide +kernel
  in_zone := by decide +kernel

/-- The empty non-terminal `a.` is denied, and so is `b.a.` where the wildcard `*.a.`
    at its closest encloser would answer. -/
theorem existing_names_denied :
    (nsecProvesNxdomain entZone.nsecs nameA entZone.apex = true ∧ entZone.Exists nameA.key) ∧
    nsecProvesNxdomain wildcardZone.nsecs nameBA wildcardZone.apex = true ∧
      wildcardZone.Encloser nameBA.key nameA.key ∧ wildcardZone.Exists (star nameA.key) := by
  refine ⟨⟨by decide +kernel, by decide +kernel⟩, by decide +kernel, ?_, by decide +kernel⟩
  exact closestEncloser_of_next (a := [98]) (show wildcardZone.Exists _ by decide +kernel)
    (by decide +kernel) (show ¬ wildcardZone.Exists _ by decide +kernel)

/-! ## NSEC3 -/

/-- What a found enclosure with a covered next closer name says about the zone. -/
theorem Nsec3Zone.encloser_of_enclosure {crypto : Crypto} {z : Nsec3Zone crypto}
    {q zone ce nc : Name} {nsec3s : List Nsec3} (hsub : nsec3s ⊆ z.nsec3s)
    (henc : enclosure crypto nsec3s q zone = some (ce, nc))
    (hinj : ∀ n ∈ z.names, z.hash n.name = z.hash ce → n.name.key = ce.key)
    (hnc : Covered crypto nsec3s nc) : ¬ z.Exists q.key ∧ z.Encloser q.key ce.key := by
  obtain ⟨-, -, hncq, ⟨l, hl⟩, hmatch, -⟩ := enclosure_some henc
  have hnode : z.Exists ce.key := exists_of_matched hsub hinj hmatch
  have hnext : ¬ z.Exists (ce.key ++ [l]) := hl ▸ not_exists_of_covered hsub hnc
  have hpre : ce.key ++ [l] <+: q.key := hl ▸ Name.key_prefix_of_mem_ancestors hncq
  exact ⟨not_isNode_of_next hnode hpre hnext, closestEncloser_of_next hnode hpre hnext⟩

/-- An NXDOMAIN proof from part of the NSEC3 ring shows that the name does not exist,
    nor the wildcard at its closest encloser, if no name between the apex and the
    queried one hashes like an existing name other than itself. -/
theorem nsec3ProvesNxdomain_sound {crypto : Crypto} (z : Nsec3Zone crypto) {q : Name}
    {nsec3s : List Nsec3}
    (hring : ∀ n3 ∈ nsec3s, ∃ a ∈ ring z.names,
      Nsec3.parse (z.ownerName a.1.name) (z.rdata a) = some n3)
    (hinj : ∀ p ∈ q.ancestors, z.apex.key <+: p.key →
      ∀ n ∈ z.names, z.hash n.name = z.hash p → n.name.key = p.key)
    (h : nsec3ProvesNxdomain crypto nsec3s q z.apex = true) :
    ¬ z.Exists q.key ∧ ∀ ce, z.Encloser q.key ce → ¬ z.Exists (star ce) := by
  have hsub : nsec3s ⊆ z.nsec3s := by
    intro n3 hn
    obtain ⟨a, ha, hparse⟩ := hring n3 hn
    rw [Nsec3Zone.parse_nsec3Rdata] at hparse
    exact Option.some.inj hparse ▸ List.mem_map_of_mem ha
  obtain ⟨ce, nc, henc, hnc, w, hw, hwild⟩ := nsec3ProvesNxdomain_iff.mp h
  obtain ⟨hzone, hmem, -⟩ := enclosure_some henc
  obtain ⟨hq, hce⟩ := Nsec3Zone.encloser_of_enclosure hsub henc (hinj ce hmem hzone) hnc
  refine ⟨hq, fun ce' hce' => ?_⟩
  rw [hce'.unique hce, ← wildcardOf_key hw]
  exact Nsec3Zone.not_exists_of_covered hsub hwild

/-- `c.a.` -/
def nameCA : Name := ⟨[[99], [97]], by decide⟩

/-- `d.` -/
def nameD : Name := ⟨[[100]], by decide⟩

theorem key_nameA : nameA.key = [[97]] := by decide

theorem key_nameBA : nameBA.key = [[97], [98]] := by decide

theorem key_nameD : nameD.key = [[100]] := by decide

/-- The ring of a zone with records at the root, `b.a.` and `d.`, of four names with the empty
    non-terminal `a.`. -/
def ringZone : Nsec3Zone (idealCrypto [] []) where
  apex := Name.root
  nodes := [⟨Name.root, [NS, SOA]⟩, ⟨nameBA, [Rtype.A]⟩, ⟨nameD, [Rtype.A]⟩]
  sorted := by decide +kernel
  apex_mem := by decide +kernel
  in_zone := by decide +kernel
  param := ⟨0, 0, [], by decide⟩
  names := [⟨Name.root, [NS, SOA]⟩, ⟨nameA, []⟩, ⟨nameBA, [Rtype.A]⟩, ⟨nameD, [Rtype.A]⟩]
  hashed := by decide +kernel
  complete p := by
    have hBA : p <+: [[97], [98]] ↔ p = [] ∨ p = [[97]] ∨ p = [[97], [98]] := by
      rw [← List.mem_inits]
      simp [-List.mem_inits]
    have hD : p <+: [[100]] ↔ p = [] ∨ p = [[100]] := by
      rw [← List.mem_inits]
      simp [-List.mem_inits]
    simp only [Zone.Exists, IsNode, Zone.owners, List.mem_map, List.exists_mem_cons_iff,
      Name.key_root, List.nil_prefix, key_nameA, key_nameBA, key_nameD]
    grind
  types_iff := by simp [key_nameA, key_nameBA, key_nameD]
  room := by decide +kernel

/-- `c.a.` is proved missing by three of the four records: those of `a.`, its closest encloser,
    of `b.a.`, which covers it, and of the root, which covers `*.a.`. -/
theorem nsec3ProvesNxdomain_ringZone :
    nsec3ProvesNxdomain (idealCrypto [] []) (ringZone.nsec3s.take 3) nameCA ringZone.apex = true ∧
      ringZone.nsec3s.length = 4 ∧ ringZone.Encloser nameCA.key nameA.key ∧
      ¬ ringZone.Exists nameCA.key ∧
      ∀ ce, ringZone.Encloser nameCA.key ce → ¬ ringZone.Exists (star ce) := by
  have hproof : nsec3ProvesNxdomain (idealCrypto [] []) (ringZone.nsec3s.take 3) nameCA
      ringZone.apex = true := by
    decide +kernel
  have hencloser : ringZone.Encloser nameCA.key nameA.key :=
    closestEncloser_of_next (a := [99]) (show ringZone.Exists _ by decide +kernel)
      (by decide +kernel) (show ¬ ringZone.Exists _ by decide +kernel)
  refine ⟨hproof, rfl, hencloser, nsec3ProvesNxdomain_sound ringZone ?_ (by decide +kernel) hproof⟩
  intro n3 hn
  obtain ⟨a, ha, rfl⟩ := List.mem_map.mp (List.mem_of_mem_take hn)
  exact ⟨a, ha, Nsec3Zone.parse_nsec3Rdata a⟩

end Runbound.Dnssec
