import Runbound.Dnssec.Downgrade
import Runbound.Dnssec.ZoneSigner
import Runbound.Server.Transfer

/-!
# Zone membership

Five loops walk up from a name: `is_in_zone` over names, `zone_of` and `zone_for` of the signer,
`wire_name_in_zone` of transfers and `find_wire` over wire forms. By `membership_agrees` they
visit the same names, and the two that look up a zone find the longest.
-/

namespace Runbound.Server

open Wire Lib Local Dnssec Name List

/-- `eq_ignore_ascii_case_bytes` (zone_signer.rs:78). -/
def eqIgnoreAsciiCaseBytes (a b : Bytes) : Bool :=
  a.length == b.length && (a.zip b).all fun p => toAsciiLowercase p.1 == toAsciiLowercase p.2

/-- The loop of `zone_of` (zone_signer.rs:47). -/
def zoneOfLoop (apex : Bytes) : ℕ → Bytes → Bool
  | 0, _ => false
  | fuel + 1, cur =>
    if eqIgnoreAsciiCaseBytes cur apex then true
    else if cur.length ≤ 1 then false
    else
      let skip := 1 + (FastPath.octet cur 0).val
      if skip ≥ cur.length then false else zoneOfLoop apex fuel (cur.drop skip)

/-- `zone_of` (zone_signer.rs:44). -/
def zoneOf (apex name : Name) : Bool := zoneOfLoop apex.wire (name.wire.length + 1) name.wire

/-- `b` is stored for the longest zone that `n` is in. -/
def Longest {β : Type} (zones : Map Bytes β) (n : Name) (b : β) : Prop :=
  ∃ zone : Name, n.isInZone zone = true ∧ zones.lookup (wireNameKey zone) = some b ∧
    ∀ zone' : Name, n.isInZone zone' = true → wireNameKey zone' ∈ zones →
      zone'.labelCount ≤ zone.labelCount

variable {ls : List Bytes} (h : LabelsOk ls)

theorem zoneOfLoop_labels (apex : Name) {fuel : ℕ} (hfuel : ls.length < fuel) :
    zoneOfLoop apex.wire fuel (labelsKey ls) =
      (ancestorsFrom ls h).any (·.eqIgnoreAsciiCase apex) := by
  induction ls generalizing fuel with
  | nil =>
    obtain ⟨fuel, rfl⟩ : ∃ k, fuel = k + 1 := ⟨fuel - 1, by simp at hfuel; omega⟩
    simp [zoneOfLoop, ancestorsFrom, labelsKey]
    rfl
  | cons l ls ih =>
    obtain ⟨fuel, rfl⟩ : ∃ k, fuel = k + 1 := ⟨fuel - 1, by simp at hfuel; omega⟩
    obtain ⟨hoctet, hdrop, hlen, hpos⟩ := labelsKey_cons (h.label l (by simp)) ls
    simp only [zoneOfLoop, FastPath.octet, hoctet, hdrop, ih h.tail (Nat.lt_of_succ_lt_succ hfuel)]
    rw [if_neg (show ¬ (labelsKey (l :: ls)).length ≤ 1 by omega),
      if_neg (show ¬ 1 + l.length ≥ (labelsKey (l :: ls)).length by omega)]
    rw [Bool.if_true_left, Bool.decide_eq_true]
    rfl

theorem findSome?_ancestors {β : Type} (zones : Map Bytes β) (n : Name) (b : β) :
    n.ancestors.findSome? (fun m => zones.lookup (wireNameKey m)) = some b ↔ Longest zones n b := by
  have hzone : ∀ zone : Name, n.isInZone zone = true ↔ ∃ m ∈ n.ancestors, m.key = zone.key :=
    fun zone => by simp [isInZone, eqIgnoreAsciiCase_iff]
  have hsorted := ancestors_pairwise n
  simp only [Longest, hzone, ← key_length]
  rw [findSome?_eq_some_iff]
  constructor
  · rintro ⟨l₁, m, l₂, hl, hm, hbefore⟩
    rw [hl] at hsorted ⊢
    refine ⟨m, ⟨m, by simp, rfl⟩, hm, ?_⟩
    rintro zone' ⟨m', hm', heq⟩ hmem
    rw [wireNameKey, ← lower_wire_eq_iff.mpr heq] at hmem
    rw [← heq]
    rcases mem_append.mp hm' with hm' | hm'
    · exact absurd hmem (AList.lookup_eq_none.mp (hbefore m' hm'))
    · rcases mem_cons.mp hm' with rfl | hm'
      · exact le_rfl
      · exact (rel_of_pairwise_cons (pairwise_append.mp hsorted).2.1 hm').1.length_le
  · rintro ⟨zone, ⟨m, hm, heq⟩, hb, hmax⟩
    rw [wireNameKey, ← lower_wire_eq_iff.mpr heq] at hb
    obtain ⟨l₁, l₂, hl⟩ := append_of_mem hm
    refine ⟨l₁, m, l₂, hl, hb, fun m' hm' => AList.lookup_eq_none.mpr fun hmem => ?_⟩
    have hle := hmax m' ⟨m', by simp [hl, hm'], rfl⟩ hmem
    rw [hl] at hsorted
    have hbelow := (pairwise_append.mp hsorted).2.2 m' hm' m (by simp)
    exact hbelow.2 (hbelow.1.eq_of_length_le (heq ▸ hle))

theorem map_ancestorsFrom : (ancestorsFrom ls h).map labelsLower = (ls.map lower).tails := by
  induction ls with
  | nil => rfl
  | cons l ls ih =>
    rw [ancestorsFrom, map_cons, ih h.tail, map_cons, tails_cons]
    rfl

theorem findWire_eq (z : LocalZoneSet) (n : Name) : z.findWire (wireNameKey n) =
    n.ancestors.findSome? fun m => z.zonesWire.lookup (wireNameKey m) := by
  rw [wireNameKey, lower_wire]
  refine (walkUp_labels _ n.labelsLower_bound (length_lt_labelsKey _)).trans ?_
  rw [labelsLower, ← map_ancestorsFrom n.ok, findSome?_map]
  refine congrArg (findSome? · n.ancestors) (funext fun m => ?_)
  rw [wireNameKey, lower_wire]
  rfl

theorem membership_agrees (n z : Name) (a : ZoneAction) :
    (wireNameInZone (wireNameKey n) (wireNameKey z) = n.isInZone z ∧
      zoneOf z n = n.isInZone z ∧
      (LocalZoneSet.findWire { zonesWire := AList.insert (wireNameKey z) a ∅ }
        (wireNameKey n)).isSome = n.isInZone z) ∧
    (∀ (zs : LocalZoneSet) (b : ZoneAction),
      zs.findWire (wireNameKey n) = some b ↔ Longest zs.zonesWire n b) ∧
    ∀ (s : ZoneSigner) (k : ZoneKeys), s.zoneFor n = some k ↔ Longest s.zones n k := by
  refine ⟨⟨?_, ?_, ?_⟩, fun zs b => ?_, fun s k => ?_⟩
  · rw [Bool.eq_iff_iff, isInZone_iff]
    exact (congrArg (· = true) (wireNameInZone_eq n)).to_iff.trans (by simp [key, reverse_prefix])
  · exact zoneOfLoop_labels n.ok z (length_lt_labelsKey _)
  · rw [findWire_eq, Bool.eq_iff_iff]
    simp [-AList.insert_empty, isInZone, Map.lookup_insert_eq, eqIgnoreAsciiCase_iff, ← lower_wire_eq_iff, wireNameKey]
  · rw [findWire_eq]
    exact findSome?_ancestors zs.zonesWire n b
  · rw [ZoneSigner.zoneFor, walkUp_wire]
    exact findSome?_ancestors s.zones n k

end Runbound.Server
