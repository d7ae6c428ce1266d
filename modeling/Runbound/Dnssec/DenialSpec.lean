import Runbound.Dnssec.Denial
import Runbound.Lib.Arc
import Runbound.Wire.NameCodec

/-!
# What the denial predicates compute

The predicates of `dnssec_denial.rs` in terms of keys and hashes.

* `nsecCovers_iff`, `coverHash_iff`: covering is lying inside an arc.
* `nsecProvesNxdomain_iff`: the name and the wildcard at *some* ancestor are covered.
* `enclosure_some`, `exists_enclosure`: the ancestor that the NSEC3 search settles on
  is the deepest matched one.
-/

namespace Runbound.Dnssec

open Wire Lib List Option Name

/-! ## Wildcards -/

/-- The key of the wildcard below `p`. -/
def star (p : List Bytes) : List Bytes := p ++ [[42]]

theorem wildcardOf_eq (n : Name) :
    wildcardOf n = if h : LabelsOk ([42] :: n.labels) then some ⟨[42] :: n.labels, h⟩ else none :=
  fromAscii_star n

theorem wildcardOf_key {n w : Name} (h : wildcardOf n = some w) : w.key = star n.key := by
  rw [wildcardOf_eq] at h
  split_ifs at h with hok
  cases h
  exact key_mk_cons _ _ hok

variable {name q zone : Name}

theorem exists_wildcardOf {p : Name} (hp : p ∈ q.ancestors) (hne : p.key ≠ q.key) :
    ∃ w, wildcardOf p = some w := by
  obtain ⟨t, ht⟩ := mem_ancestors.mp hp
  have hpos : 0 < t.length := by
    cases t with
    | nil => exact absurd (by rw [ext_labels ht]) hne
    | cons l t => simp
  have hok := q.labelsOk_star_drop hpos (by rw [Name.labelCount, ← ht, length_append]; omega)
  rw [← ht, drop_left] at hok
  exact ⟨_, by rw [wildcardOf_eq, dif_pos hok]⟩

/-! ## NSEC -/

theorem nsecCovers_iff {owner next : Name} :
    nsecCovers owner next name = true ↔ Covers owner.key next.key name.key := by
  unfold nsecCovers Covers
  simp only [canonicalCmp_lt_iff]
  split_ifs <;> simp

theorem Nsec.covers_iff {n : Nsec} :
    n.covers name = true ↔ Covers n.owner.key n.next.key name.key := nsecCovers_iff

variable {nsecs : List Nsec}

theorem nsecProvesNonexistence_iff :
    nsecProvesNonexistence nsecs q = true ↔ ∃ n ∈ nsecs, Covers n.owner.key n.next.key q.key := by
  simp [nsecProvesNonexistence, Nsec.covers_iff]

theorem wildcardCovered_cons {p : Name} {up : List Name} :
    wildcardCovered nsecs zone (p :: up) = true ↔
      (zone.key <+: p.key ∧ ∃ w, wildcardOf p = some w ∧ ∃ n ∈ nsecs, n.covers w = true) ∨
        (p.key ≠ zone.key ∧ wildcardCovered nsecs zone up = true) := by
  rw [wildcardCovered, Bool.or_eq_true, Bool.and_eq_true, isInZone_iff, eqIgnoreAsciiCase_eq_decide]
  cases wildcardOf p <;> simp

/-- The wildcard that the search finds is at any ancestor inside the zone. -/
theorem wildcardCovered_ancestors :
    ∀ {ls : List Bytes} {h : LabelsOk ls},
      wildcardCovered nsecs zone (Name.ancestorsFrom ls h) = true ↔
        ∃ p ∈ Name.ancestorsFrom ls h, zone.key <+: p.key ∧
          ∃ w, wildcardOf p = some w ∧ ∃ n ∈ nsecs, n.covers w = true := by
  intro ls
  induction ls with
  | nil =>
    intro h
    rw [Name.ancestorsFrom, wildcardCovered_cons]
    simp [wildcardCovered]
  | cons l ls ih =>
    intro h
    rw [Name.ancestorsFrom, wildcardCovered_cons, ih]
    simp only [mem_cons, exists_eq_or_imp]
    refine or_congr_right ⟨fun h => h.2, fun hup => ⟨fun heq => ?_, hup⟩⟩
    -- above the apex no ancestor is in the zone any more
    obtain ⟨p, hp, hzone, -⟩ := hup
    have h1 := (key_prefix_of_mem_ancestors (n := ⟨ls, h.tail⟩) hp).length_le
    have h2 := hzone.length_le
    rw [← heq, key_mk_cons, length_append, length_singleton] at h2
    omega

theorem nsecProvesNxdomain_iff :
    nsecProvesNxdomain nsecs q zone = true ↔
      (∃ n ∈ nsecs, Covers n.owner.key n.next.key q.key) ∧
      ∃ p, zone.key <+: p ∧ p <+: q.key ∧ p ≠ q.key ∧
        ∃ n ∈ nsecs, Covers n.owner.key n.next.key (star p) := by
  rw [nsecProvesNxdomain, Bool.and_eq_true, nsecProvesNonexistence_iff]
  refine and_congr_right fun _ => ?_
  constructor
  · intro h
    obtain ⟨ls, hok⟩ := q
    cases ls with
    | nil => simp [Name.ancestors, Name.ancestorsFrom, wildcardCovered] at h
    | cons l ls =>
      obtain ⟨p, hp, hzone, w, hw, n, hn, hcov⟩ := wildcardCovered_ancestors.mp h
      have hpre := key_prefix_of_mem_ancestors (n := ⟨ls, hok.tail⟩) hp
      rw [key_mk_cons]
      refine ⟨p.key, hzone, hpre.trans (prefix_append _ _), fun heq => ?_, n, hn, ?_⟩
      · have := hpre.length_le
        rw [heq, length_append, length_singleton] at this
        omega
      · rw [← wildcardOf_key hw]
        exact Nsec.covers_iff.mp hcov
  · rintro ⟨p, hzone, hpre, hne, n, hn, hcov⟩
    obtain ⟨m, hm, rfl⟩ := exists_ancestor_of_isPrefix hpre
    obtain ⟨w, hw⟩ := exists_wildcardOf hm hne
    obtain ⟨ls, hok⟩ := q
    have htail : m ∈ (⟨ls, hok⟩ : Name).ancestors.tail := by
      rw [ancestors_eq, mem_cons] at hm
      rw [ancestors_eq]
      exact hm.resolve_left fun h => hne (by rw [h])
    cases ls with
    | nil => simp [Name.ancestors, Name.ancestorsFrom] at htail
    | cons l ls =>
      refine wildcardCovered_ancestors.mpr ⟨m, htail, hzone, w, hw, n, hn, ?_⟩
      rw [Nsec.covers_iff, wildcardOf_key hw]
      exact hcov

/-! ## NSEC3 -/

section Nsec3

variable {crypto : Crypto} {nsec3s : List Nsec3} {q zone : Name}

theorem Nsec3.hash_congr {n3 : Nsec3} {a b : Name} (h : a.key = b.key) :
    n3.hash crypto a = n3.hash crypto b := by
  rw [Nsec3.hash, Nsec3.hash, canonicalNameWire_congr h]

theorem coverHash_iff {o nx h : Bytes} : Nsec3.coverHash o nx h = true ↔ Covers o nx h := by
  unfold Nsec3.coverHash Covers
  split_ifs <;> simp

theorem Nsec3.covers_iff {n3 : Nsec3} :
    n3.covers crypto name = true ↔
      ∃ h, n3.hash crypto name = some h ∧ Covers n3.ownerHash n3.nextHash h := by
  unfold Nsec3.covers
  cases n3.hash crypto name <;> simp [coverHash_iff]

/-- Some record of the set matches the name. -/
def Matched (crypto : Crypto) (nsec3s : List Nsec3) (name : Name) : Prop :=
  ∃ n3 ∈ nsec3s, n3.matchesName crypto name = true

/-- Some record of the set covers the name. -/
def Covered (crypto : Crypto) (nsec3s : List Nsec3) (name : Name) : Prop :=
  ∃ n3 ∈ nsec3s, n3.covers crypto name = true

theorem Matched.congr {a b : Name} (h : Matched crypto nsec3s a) (hkey : a.key = b.key) :
    Matched crypto nsec3s b := by
  obtain ⟨n3, hn, hm⟩ := h
  exact ⟨n3, hn, by rwa [Nsec3.matchesName, ← Nsec3.hash_congr hkey]⟩

/-- The closest encloser and the next closer name that the search settles on. -/
def enclosure (crypto : Crypto) (nsec3s : List Nsec3) (q zone : Name) : Option (Name × Name) :=
  (chainTo zone q.ancestors).bind (closestEncloser crypto nsec3s)

theorem nsec3ProvesNxdomain_iff :
    nsec3ProvesNxdomain crypto nsec3s q zone = true ↔
      ∃ ce nc, enclosure crypto nsec3s q zone = some (ce, nc) ∧ Covered crypto nsec3s nc ∧
        ∃ w, wildcardOf ce = some w ∧ Covered crypto nsec3s w := by
  unfold nsec3ProvesNxdomain enclosure
  cases chainTo zone q.ancestors with
  | none => simp
  | some chain =>
    simp only [bind_some]
    cases closestEncloser crypto nsec3s chain with
    | none => simp
    | some p =>
      obtain ⟨ce, nc⟩ := p
      cases hw : wildcardOf ce <;> simp [Covered, hw]

theorem nsec3ProvesNameNonexistent_iff :
    nsec3ProvesNameNonexistent crypto nsec3s q zone = true ↔
      ∃ ce nc, enclosure crypto nsec3s q zone = some (ce, nc) ∧ Covered crypto nsec3s nc := by
  unfold nsec3ProvesNameNonexistent enclosure
  cases chainTo zone q.ancestors with
  | none => simp
  | some chain =>
    simp only [bind_some]
    cases closestEncloser crypto nsec3s chain with
    | none => simp
    | some p =>
      obtain ⟨ce, nc⟩ := p
      simp [Covered]

/-- The chain starts at the name and exists for the names of the zone. -/
theorem chainTo_ancestors :
    ∀ {ls : List Bytes} {h : LabelsOk ls},
      (zone.key <+: (⟨ls, h⟩ : Name).key →
        ∃ t, chainTo zone (Name.ancestorsFrom ls h) = some (⟨ls, h⟩ :: t)) ∧
      (¬ zone.key <+: (⟨ls, h⟩ : Name).key → chainTo zone (Name.ancestorsFrom ls h) = none) := by
  intro ls
  induction ls with
  | nil =>
    intro h
    have hnil : (⟨[], h⟩ : Name).key = [] := rfl
    rw [Name.ancestorsFrom, chainTo, eqIgnoreAsciiCase_eq_decide, hnil, prefix_nil]
    refine ⟨fun hz => ⟨[], ?_⟩, fun hz => ?_⟩
    · rw [if_pos (decide_eq_true hz.symm)]
    · rw [if_neg (by simpa using fun e => hz (Eq.symm e))]
      rfl
  | cons l ls ih =>
    intro h
    rw [Name.ancestorsFrom, chainTo, eqIgnoreAsciiCase_eq_decide]
    obtain ⟨hin, hout⟩ := ih (h := h.tail)
    refine ⟨fun hz => ?_, fun hz => ?_⟩
    · by_cases heq : (⟨l :: ls, h⟩ : Name).key = zone.key
      · exact ⟨[], by rw [if_pos (decide_eq_true heq)]⟩
      · rw [key_mk_cons, prefix_concat_iff, ← key_mk_cons l ls h] at hz
        obtain ⟨t, ht⟩ := hin (hz.resolve_left fun e => heq e.symm)
        exact ⟨⟨ls, h.tail⟩ :: t, by rw [if_neg (by simpa using heq), ht]; rfl⟩
    · rw [if_neg (by simpa using fun e => hz (by rw [e])), hout, map_none]
      exact fun hup => hz (by rw [key_mk_cons]; exact hup.trans (prefix_append _ _))

/-- One step of the search: the parent, if it is matched, or else on from there. -/
theorem enclosure_cons {l : Bytes} {ls : List Bytes} {h : LabelsOk (l :: ls)} {r : Name × Name} :
    enclosure crypto nsec3s ⟨l :: ls, h⟩ zone = some r ↔
      zone.key <+: (⟨ls, h.tail⟩ : Name).key ∧
        ((Matched crypto nsec3s ⟨ls, h.tail⟩ ∧ r = (⟨ls, h.tail⟩, ⟨l :: ls, h⟩)) ∨
          (¬ Matched crypto nsec3s ⟨ls, h.tail⟩ ∧
            enclosure crypto nsec3s ⟨ls, h.tail⟩ zone = some r)) := by
  have hany : (nsec3s.any fun n3 => n3.matchesName crypto ⟨ls, h.tail⟩) = true ↔
      Matched crypto nsec3s ⟨ls, h.tail⟩ := by simp [Matched]
  rw [enclosure, enclosure, Name.ancestors, Name.ancestors, Name.ancestorsFrom, chainTo,
    eqIgnoreAsciiCase_eq_decide]
  obtain ⟨hin, hout⟩ := @chainTo_ancestors zone ls h.tail
  by_cases heq : (⟨l :: ls, h⟩ : Name).key = zone.key
  · -- at the apex the search is over
    have hnot : ¬ zone.key <+: (⟨ls, h.tail⟩ : Name).key := by
      intro hz
      have := hz.length_le
      rw [← heq, key_mk_cons, length_append, length_singleton] at this
      omega
    rw [if_pos (decide_eq_true heq)]
    simp [closestEncloser, hnot]
  · rw [if_neg (by simpa using heq)]
    by_cases hz : zone.key <+: (⟨ls, h.tail⟩ : Name).key
    · obtain ⟨t, ht⟩ := hin hz
      rw [ht, map_some, bind_some, closestEncloser]
      by_cases hm : Matched crypto nsec3s ⟨ls, h.tail⟩
      · rw [if_pos (hany.mpr hm)]
        simp [hz, hm, eq_comm]
      · rw [if_neg (fun e => hm (hany.mp e))]
        simp [hz, hm]
    · rw [hout hz]
      simp [hz]

theorem enclosure_root {h : LabelsOk []} : enclosure crypto nsec3s ⟨[], h⟩ zone = none := by
  rw [enclosure, Name.ancestors, Name.ancestorsFrom, chainTo]
  split_ifs <;> rfl

/-- The search ends at a matched ancestor inside the zone, and every other matched
    proper ancestor is above it. -/
theorem enclosure_some {ce nc : Name} (h : enclosure crypto nsec3s q zone = some (ce, nc)) :
    zone.key <+: ce.key ∧ ce ∈ q.ancestors ∧ nc ∈ q.ancestors ∧ (∃ l, nc.key = ce.key ++ [l]) ∧
      Matched crypto nsec3s ce ∧
      ∀ p ∈ q.ancestors, p.key ≠ q.key → Matched crypto nsec3s p → p.key <+: ce.key := by
  obtain ⟨ls, hok⟩ := q
  induction ls with
  | nil => rw [enclosure_root] at h; cases h
  | cons l ls ih =>
    have hkey := key_mk_cons l ls hok
    have hself := self_mem_ancestors (⟨ls, hok.tail⟩ : Name)
    have hanc : ∀ p, p ∈ (⟨l :: ls, hok⟩ : Name).ancestors ↔
        p = ⟨l :: ls, hok⟩ ∨ p ∈ (⟨ls, hok.tail⟩ : Name).ancestors := fun p => mem_cons
    obtain ⟨hz, ⟨hm, he⟩ | ⟨hm, he⟩⟩ := enclosure_cons.mp h
    · obtain ⟨rfl, rfl⟩ := Prod.mk.inj he
      refine ⟨hz, (hanc _).mpr (Or.inr hself), (hanc _).mpr (Or.inl rfl), ⟨_, hkey⟩, hm, ?_⟩
      intro p hp hne _
      rcases (hanc p).mp hp with rfl | hp
      · exact absurd rfl hne
      · exact key_prefix_of_mem_ancestors hp
    · obtain ⟨h1, h2, h3, h4, h5, h6⟩ := ih hok.tail he
      refine ⟨h1, (hanc _).mpr (Or.inr h2), (hanc _).mpr (Or.inr h3), h4, h5, ?_⟩
      intro p hp hne hpm
      rcases (hanc p).mp hp with rfl | hp
      · exact absurd rfl hne
      · -- the parent itself is not matched
        exact h6 p hp (fun e => hm (hpm.congr e)) hpm

/-- A matched proper ancestor inside the zone makes the search succeed. -/
theorem exists_enclosure {m : Name} (hm : m ∈ q.ancestors) (hne : m.key ≠ q.key)
    (hzone : zone.key <+: m.key) (hmatch : Matched crypto nsec3s m) :
    ∃ ce nc, enclosure crypto nsec3s q zone = some (ce, nc) := by
  obtain ⟨ls, hok⟩ := q
  induction ls with
  | nil =>
    rw [Name.ancestors, Name.ancestorsFrom, mem_singleton] at hm
    exact absurd (by rw [hm]) hne
  | cons l ls ih =>
    rcases mem_cons.mp hm with rfl | hm
    · exact absurd rfl hne
    · have hz : zone.key <+: (⟨ls, hok.tail⟩ : Name).key :=
        hzone.trans (key_prefix_of_mem_ancestors hm)
      by_cases hp : Matched crypto nsec3s ⟨ls, hok.tail⟩
      · exact ⟨_, _, enclosure_cons.mpr ⟨hz, Or.inl ⟨hp, rfl⟩⟩⟩
      · obtain ⟨ce, nc, he⟩ := ih hok.tail hm fun e => hp (hmatch.congr e)
        exact ⟨ce, nc, enclosure_cons.mpr ⟨hz, Or.inr ⟨hp, he⟩⟩⟩

end Nsec3

end Runbound.Dnssec
