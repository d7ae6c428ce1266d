import Runbound.Lib.Framing
import Runbound.Wire.Name

/-!
# Names as paths of the DNS tree

`Name.key` lists the lowercased labels from the root outward. The comparisons of
`wire/name.rs` are comparisons of keys:

* `eqIgnoreAsciiCase_iff`: equal names have equal keys.
* `isInZone_iff`: `is_in_zone` is the prefix order on keys.
* `canonicalCmp_eq`: `canonical_cmp` is the lexicographic order on keys.
* `canonicalCmp_order`: it is a total preorder in which every zone is an interval.
* `wire_append_inj`: a wire form followed by anything determines the name.
* `walkUp_wire`: the loops that drop label after label from a wire form visit the ancestors.
-/

namespace Runbound.Wire

open Lib List

variable {m n : Name}

namespace Name

/-- The lowercased labels, root first. -/
def key (n : Name) : List Bytes := n.labelsLower.reverse

@[simp] theorem key_root : root.key = [] := rfl

/-- The key has one entry per label. -/
theorem key_length (n : Name) : n.key.length = n.labelCount := by
  simp [key, labelsLower, labelCount]

theorem key_mk_cons (l : Bytes) (ls : List Bytes) (h : LabelsOk (l :: ls)) :
    (⟨l :: ls, h⟩ : Name).key = (⟨ls, h.tail⟩ : Name).key ++ [lower l] := by
  simp [key, labelsLower]

/-! ## The wire form -/

/-- The bounds on a label that make its length octet unambiguous. -/
def LabelBound (l : Bytes) : Prop := 0 < l.length ∧ l.length ≤ maxLabel

/-- A written label says where it ends. -/
theorem labelWire_selfDelimiting : SelfDelimiting LabelBound labelWire := by
  intro a b x y ha hb h
  simp only [labelWire, cons_append, List.cons.injEq] at h
  have hlen : a.length = b.length := by
    have := congrArg Fin.val h.1
    simp only [Fin.val_ofNat] at this
    have h1 := ha.2; have h2 := hb.2
    unfold maxLabel at h1 h2
    omega
  exact append_inj h.2 hlen

theorem labelWire_head {l : Bytes} (h : LabelBound l) :
    ∃ b t, labelWire l = b :: t ∧ b ≠ (0 : Byte) := by
  refine ⟨_, _, rfl, fun h0 => ?_⟩
  have := congrArg Fin.val h0
  simp only [Fin.val_ofNat] at this
  obtain ⟨h1, h2⟩ := h
  unfold maxLabel at h2
  omega

theorem labelsWire_selfDelimiting :
    SelfDelimiting (fun ls : List Bytes => ∀ l ∈ ls, LabelBound l)
      (fun ls => ls.flatMap labelWire ++ [0]) :=
  labelWire_selfDelimiting.terminated fun _ h => labelWire_head h

theorem label_bound (n : Name) : ∀ l ∈ n.labels, LabelBound l := n.ok.label

variable {a b : Name}

/-- The wire form of a name says where it ends. -/
theorem wire_append_inj {x y : Bytes} (h : a.wire ++ x = b.wire ++ y) : a = b ∧ x = y := by
  obtain ⟨h1, h2⟩ := labelsWire_selfDelimiting a.labels b.labels x y a.label_bound b.label_bound h
  exact ⟨ext_labels h1, h2⟩

/-! ## Case-insensitive equality -/

/-- Lower-casing leaves length octets alone: none of them is a letter. -/
theorem lower_labelWire {l : Bytes} (h : LabelBound l) :
    lower (labelWire l) = labelWire (lower l) := by
  have hlt : (Fin.ofNat 256 l.length : Byte).val < 65 := by
    have h2 := h.2; unfold maxLabel at h2; simp only [Fin.val_ofNat]; omega
  rw [labelWire, labelWire, lower_cons, toAsciiLowercase_of_lt hlt, lower_length]

theorem lower_flatMap_labelWire :
    ∀ ls : List Bytes, (∀ l ∈ ls, LabelBound l) →
      lower (ls.flatMap labelWire) = (ls.map lower).flatMap labelWire := by
  intro ls
  induction ls with
  | nil => intro _; rfl
  | cons l ls ih =>
    intro h
    rw [flatMap_cons, lower_append, lower_labelWire (h l (by simp)),
      ih fun x hx => h x (by simp [hx]), map_cons, flatMap_cons]

/-- Lowercasing a wire form lowercases its labels: length octets are below `A`. -/
theorem lower_wire (n : Name) : lower n.wire = n.labelsLower.flatMap labelWire ++ [0] := by
  rw [wire, lower_append, lower_flatMap_labelWire _ n.label_bound]
  rfl

theorem labelsLower_bound (n : Name) : ∀ l ∈ n.labelsLower, LabelBound l := by
  intro l hl
  obtain ⟨l', hl', rfl⟩ := mem_map.mp hl
  have := n.label_bound l' hl'
  exact ⟨by simpa using this.1, by simpa using this.2⟩

theorem labelsLen_lower (ls : List Bytes) : labelsLen (ls.map lower) = labelsLen ls := by
  simp [labelsLen, Function.comp_def]

/-- A name in lower case is a name. -/
theorem labelsOk_labelsLower (n : Name) : LabelsOk n.labelsLower := by
  refine ⟨n.labelsLower_bound, ?_⟩
  rw [labelsLower, labelsLen_lower]
  exact n.ok.len

/-- The name with every label lowercased. -/
def lowered (n : Name) : Name := ⟨n.labelsLower, n.labelsOk_labelsLower⟩

theorem wire_lowered (n : Name) : n.lowered.wire = lower n.wire := (lower_wire n).symm

@[simp] theorem key_lowered (n : Name) : n.lowered.key = n.key := by
  simp [lowered, key, labelsLower]

theorem lower_wire_append_inj {x y : Bytes} (h : lower a.wire ++ x = lower b.wire ++ y) :
    a.key = b.key ∧ x = y := by
  rw [lower_wire, lower_wire] at h
  obtain ⟨h1, h2⟩ := labelsWire_selfDelimiting _ _ x y a.labelsLower_bound b.labelsLower_bound h
  exact ⟨by rw [key, key, h1], h2⟩

/-- Lower-cased wire forms agree exactly where the keys do. -/
theorem lower_wire_eq_iff : lower a.wire = lower b.wire ↔ a.key = b.key := by
  constructor
  · intro h
    exact (lower_wire_append_inj (x := []) (y := []) (by rw [h])).1
  · intro h
    rw [lower_wire, lower_wire, reverse_injective h]

theorem eq_of_toAsciiLowercase_lt {c d : Byte} (h : toAsciiLowercase c = d) (hd : d.val < 65) :
    c = d := by
  unfold toAsciiLowercase at h
  split_ifs at h with hc
  · rw [← h] at hd
    simp only at hd
    omega
  · exact h

/-- A string that lower-cases to a lower-cased wire form is itself one. -/
theorem exists_labels_of_lower : ∀ (ls : List Bytes), (∀ l ∈ ls, LabelBound l) → ∀ bs : Bytes,
    lower bs = lower (ls.flatMap labelWire ++ [0]) →
      ∃ ls' : List Bytes, bs = ls'.flatMap labelWire ++ [0] ∧ ls'.map lower = ls.map lower := by
  intro ls
  induction ls with
  | nil =>
    intro _ bs h
    obtain ⟨c, rfl, hc⟩ := map_eq_singleton_iff.mp h
    have hc := eq_of_toAsciiLowercase_lt hc (by decide)
    exact ⟨[], by rw [hc]; rfl, rfl⟩
  | cons l ls ih =>
    intro hls bs h
    have hl := hls l (by simp)
    rw [flatMap_cons, append_assoc, lower_append, lower_labelWire hl] at h
    obtain ⟨x, y, rfl, hx, hy⟩ := map_eq_append_iff.mp h
    obtain ⟨ls', rfl, hmap⟩ := ih (fun l' h' => hls l' (by simp [h'])) y hy
    -- the length octet is below `A`, so it is the same in both
    obtain ⟨c, l', rfl, hc, hl'⟩ := map_eq_cons_iff.mp hx
    have hlen : l'.length = l.length := by simpa using congrArg List.length hl'
    have hbound : l.length ≤ maxLabel := hl.2
    unfold maxLabel at hbound
    rw [lower_length] at hc
    have hc := eq_of_toAsciiLowercase_lt hc (by simp only [Fin.val_ofNat]; omega)
    refine ⟨l' :: ls', ?_, by rw [map_cons, hmap]; exact congrArg (· :: _) hl'⟩
    rw [flatMap_cons, append_assoc, labelWire, hlen, hc]

/-- Octets that differ from a wire form in letter case only are one. -/
theorem exists_of_lower_eq {bs : Bytes} (h : lower bs = lower n.wire) :
    ∃ n' : Name, bs = n'.wire ∧ n'.key = n.key := by
  obtain ⟨ls', rfl, hmap⟩ := exists_labels_of_lower n.labels n.label_bound bs h
  have hok : LabelsOk ls' := by
    refine ⟨fun l hl => ?_, ?_⟩
    · have hmem : lower l ∈ n.labelsLower := by
        rw [labelsLower, ← hmap]
        exact mem_map_of_mem hl
      simpa [LabelBound] using n.labelsLower_bound _ hmem
    · have := congrArg labelsLen hmap
      rw [labelsLen_lower, labelsLen_lower] at this
      rw [this]
      exact n.ok.len
  exact ⟨⟨ls', hok⟩, rfl, by simp only [key, labelsLower, hmap]⟩

theorem zip_all_lower_iff : ∀ a b : Bytes, a.length = b.length →
    ((a.zip b).all (fun p => toAsciiLowercase p.1 == toAsciiLowercase p.2) = true ↔
      lower a = lower b) := by
  intro a
  induction a with
  | nil => intro b h; cases b <;> simp_all
  | cons x a ih =>
    intro b h
    cases b with
    | nil => simp at h
    | cons y b =>
      simp only [zip_cons_cons, all_cons, Bool.and_eq_true, beq_iff_eq, lower_cons,
        List.cons.injEq, ih b (by simpa using h)]

/-- `eq_ignore_ascii_case` compares keys. -/
theorem eqIgnoreAsciiCase_iff : a.eqIgnoreAsciiCase b = true ↔ a.key = b.key := by
  unfold eqIgnoreAsciiCase
  rw [Bool.and_eq_true, beq_iff_eq, ← lower_wire_eq_iff]
  constructor
  · rintro ⟨hlen, hall⟩; exact (zip_all_lower_iff _ _ hlen).mp hall
  · intro h
    have hlen : a.wire.length = b.wire.length := by simpa using congrArg List.length h
    exact ⟨hlen, (zip_all_lower_iff _ _ hlen).mpr h⟩

theorem eqIgnoreAsciiCase_eq_decide (a b : Name) :
    a.eqIgnoreAsciiCase b = decide (a.key = b.key) := by
  rw [Bool.eq_iff_iff, eqIgnoreAsciiCase_iff, decide_eq_true_iff]

@[simp] theorem eqIgnoreAsciiCase_refl (a : Name) : a.eqIgnoreAsciiCase a = true :=
  eqIgnoreAsciiCase_iff.mpr rfl

/-! ## Ancestors -/

theorem mem_ancestorsFrom :
    ∀ {ls : List Bytes} {h : LabelsOk ls}, m ∈ ancestorsFrom ls h ↔ m.labels <:+ ls := by
  intro ls
  induction ls with
  | nil =>
    simp only [ancestorsFrom, mem_singleton, suffix_nil]
    exact ⟨fun e => by rw [e], fun e => ext_labels e⟩
  | cons l ls ih =>
    simp only [ancestorsFrom, mem_cons, ih, suffix_cons_iff]
    exact or_congr ⟨fun e => by rw [e], fun e => ext_labels e⟩ Iff.rfl

/-- The ancestors of a name are the suffixes of its labels. -/
theorem mem_ancestors : m ∈ n.ancestors ↔ m.labels <:+ n.labels := mem_ancestorsFrom

theorem self_mem_ancestors (n : Name) : n ∈ n.ancestors := mem_ancestors.mpr suffix_rfl

theorem key_prefix_of_mem_ancestors (h : m ∈ n.ancestors) : m.key <+: n.key := by
  obtain ⟨t, ht⟩ := mem_ancestors.mp h
  exact ⟨(t.map lower).reverse, by simp [key, labelsLower, ← ht]⟩

/-- Every prefix of the key is the key of an ancestor. -/
theorem exists_ancestor_of_isPrefix {p : List Bytes} (h : p <+: n.key) :
    ∃ m ∈ n.ancestors, m.key = p := by
  obtain ⟨t, ht⟩ := h
  have hsuf : n.labels.drop t.length <:+ n.labels := drop_suffix _ _
  have hok : LabelsOk (n.labels.drop t.length) := by
    have hn := n.ok
    rw [← take_append_drop t.length n.labels] at hn
    exact hn.of_append_right
  refine ⟨⟨n.labels.drop t.length, hok⟩, mem_ancestors.mpr hsuf, ?_⟩
  have hp : p = n.key.take p.length := by rw [← ht]; simp
  have hpl : p.length = n.labels.length - t.length := by
    have := congrArg List.length ht
    simp only [length_append, key_length, labelCount] at this
    omega
  rw [hp, hpl]
  simp only [key, labelsLower, map_drop]
  rw [reverse_drop, length_map]

/-- `is_in_zone` tests whether the zone's key is a prefix. -/
theorem isInZone_iff {zone : Name} : n.isInZone zone = true ↔ zone.key <+: n.key := by
  simp only [isInZone, any_eq_true, eqIgnoreAsciiCase_iff]
  constructor
  · rintro ⟨m, hm, heq⟩
    rw [← heq]; exact key_prefix_of_mem_ancestors hm
  · exact exists_ancestor_of_isPrefix

theorem isInZone_root (n : Name) : n.isInZone root = true := isInZone_iff.mpr List.nil_prefix

/-! ## Walks over the octets of a name -/

/-- The octets of labels, with the root at the end. -/
def labelsKey (ls : List Bytes) : Bytes := ls.flatMap labelWire ++ [0]

/-- A step of a walk up: the first octet is the length of the label that is dropped. -/
theorem labelsKey_cons {l : Bytes} (h : LabelBound l) (ls : List Bytes) :
    ((labelsKey (l :: ls)).getD 0 0).val = l.length ∧
      (labelsKey (l :: ls)).drop (1 + l.length) = labelsKey ls ∧
      (labelsKey (l :: ls)).length = 1 + l.length + (labelsKey ls).length ∧
      0 < (labelsKey ls).length := by
  refine ⟨Nat.mod_eq_of_lt (lt_of_le_of_lt h.2 (by decide)), ?_, ?_, by simp [labelsKey]⟩
  · simp [labelsKey, labelWire, Nat.add_comm 1]
  · simp [labelsKey, labelWire]
    omega

/-- As many rounds as octets suffice for a walk up. -/
theorem length_lt_labelsKey (ls : List Bytes) : ls.length < (labelsKey ls).length + 1 := by
  have hsum := length_le_sum_of_one_le (ls.map fun l => (labelWire l).length)
    (by simp [labelWire])
  rw [length_map] at hsum
  simp only [labelsKey, length_append, length_flatMap]
  omega

variable {β : Type}

/-- The loop of `find_wire` (dns/local.rs:304-316), `zone_for` (zone_signer.rs:270-283) and
    `wire_name_in_zone` on what is left of a wire form: `f` is asked first, then a label is
    dropped. -/
def walkUp (f : Bytes → Option β) : ℕ → Bytes → Option β
  | 0, _ => none
  | fuel + 1, cur =>
    match f cur with
    | some b => some b
    | none =>
      if cur.length ≤ 1 then none
      else
        let skip := 1 + (cur.getD 0 0).val
        if skip ≥ cur.length then none else walkUp f fuel (cur.drop skip)

/-- The walk asks for the labels, then for all but the first, and so on. -/
theorem walkUp_labels (f : Bytes → Option β) {ls : List Bytes} (h : ∀ l ∈ ls, LabelBound l)
    {fuel : ℕ} (hfuel : ls.length < fuel) :
    walkUp f fuel (labelsKey ls) = ls.tails.findSome? fun t => f (labelsKey t) := by
  induction ls generalizing fuel with
  | nil =>
    obtain ⟨fuel, rfl⟩ : ∃ k, fuel = k + 1 := ⟨fuel - 1, by simp at hfuel; omega⟩
    rw [walkUp]
    cases hl : f (labelsKey []) with
    | some a => simp [hl]
    | none => simp [hl, show (labelsKey []).length ≤ 1 from le_rfl]
  | cons l ls ih =>
    obtain ⟨fuel, rfl⟩ : ∃ k, fuel = k + 1 := ⟨fuel - 1, by simp at hfuel; omega⟩
    obtain ⟨hoctet, hdrop, hlen, hpos⟩ := labelsKey_cons (h l (by simp)) ls
    rw [walkUp, tails_cons, findSome?_cons]
    cases hl : f (labelsKey (l :: ls)) with
    | some a => rfl
    | none =>
      rw [if_neg (by omega), if_neg (by omega), hoctet, hdrop]
      exact ih (fun l' hl' => h l' (by simp [hl'])) (by simp at hfuel; omega)

/-- The walk sees the octets it starts at and their ends. -/
theorem walkUp_congr {f g : Bytes → Option β} : ∀ {fuel : ℕ} {cur : Bytes},
    (∀ s, s <:+ cur → f s = g s) → walkUp f fuel cur = walkUp g fuel cur := by
  intro fuel
  induction fuel with
  | zero => exact fun _ => rfl
  | succ fuel ih =>
    intro cur h
    have hup : walkUp f fuel (cur.drop (1 + (cur.getD 0 0).val)) =
        walkUp g fuel (cur.drop (1 + (cur.getD 0 0).val)) :=
      ih fun s hs => h s (hs.trans (drop_suffix _ _))
    simp only [walkUp, h cur suffix_rfl, hup]

theorem map_labels_ancestorsFrom {ls : List Bytes} {h : LabelsOk ls} :
    (ancestorsFrom ls h).map labels = ls.tails := by
  induction ls with
  | nil => rfl
  | cons l ls ih => rw [ancestorsFrom, map_cons, ih, tails_cons]

/-- From the wire form of a name the walk asks for the name and its ancestors. -/
theorem walkUp_wire (f : Bytes → Option β) (n : Name) :
    walkUp f (n.wire.length + 1) n.wire = n.ancestors.findSome? fun m => f m.wire := by
  refine (walkUp_labels f n.label_bound (length_lt_labelsKey _)).trans ?_
  rw [← map_labels_ancestorsFrom (h := n.ok), findSome?_map]
  rfl

/-! ## Canonical order -/

/-- Comparing label by label, and then the lengths, is the order of lists. -/
theorem firstDiff_zip_eq_ordCmp : ∀ xs ys : List Bytes,
    (match firstDiff (xs.zip ys) with
      | some ord => ord
      | none => ordCmp xs.length ys.length) = ordCmp xs ys := by
  intro xs
  induction xs with
  | nil =>
    intro ys
    cases ys with
    | nil => rfl
    | cons y ys => exact ((cmp_eq_lt_iff [] (y :: ys)).mpr Lex.nil).symm
  | cons x xs ih =>
    intro ys
    cases ys with
    | nil => exact ((cmp_eq_gt_iff (x :: xs) []).mpr Lex.nil).symm
    | cons y ys =>
      rw [zip_cons_cons, firstDiff]
      rcases lt_trichotomy x y with h | rfl | h
      · simp [ordCmp, cons_lt_cons_iff, h]
      · -- equal labels: the rest of both names decides
        have hrest : ordCmp (x :: xs) (x :: ys) = ordCmp xs ys :=
          StrictMono.cmp_map_eq (f := (x :: ·)) (fun _ _ h => Lex.cons h) xs ys
        rw [hrest, ← ih ys]
        simp [ordCmp]
      · simp [ordCmp, cons_lt_cons_iff, h, h.not_gt, h.ne']

/-- `canonical_cmp` is the order of keys. -/
theorem canonicalCmp_eq (a b : Name) : a.canonicalCmp b = ordCmp a.key b.key := by
  have h := firstDiff_zip_eq_ordCmp a.key b.key
  simp only [key, length_reverse] at h
  exact h

theorem canonicalCmp_lt_iff : a.canonicalCmp b = .lt ↔ a.key < b.key := by
  rw [canonicalCmp_eq]
  exact cmp_eq_lt_iff _ _

theorem canonicalCmp_ne_gt_iff : a.canonicalCmp b ≠ .gt ↔ a.key ≤ b.key := by
  rw [canonicalCmp_eq]
  exact (cmp_eq_gt_iff _ _).not.trans not_lt

theorem le_of_isPrefix {p x : List Bytes} (h : p <+: x) : p ≤ x := by
  obtain ⟨t, rfl⟩ := h
  cases t with
  | nil => rw [append_nil]
  | cons l t =>
    have hlt : Lex (· < ·) (p ++ []) (p ++ l :: t) := Lex.append_left _ Lex.nil p
    rw [append_nil] at hlt
    exact le_of_lt hlt

/-- What lies between two names below `p` lies below `p`. -/
theorem isPrefix_of_between {p x y z : List Bytes} (hx : p <+: x) (hz : p <+: z) (hxy : x ≤ y)
    (hyz : y ≤ z) : p <+: y := by
  obtain ⟨x, rfl⟩ := hx
  obtain ⟨z, rfl⟩ := hz
  induction p generalizing y with
  | nil => exact nil_prefix
  | cons l p ih =>
    cases y with
    | nil => exact absurd hxy (not_le.mpr Lex.nil)
    | cons l' y =>
      obtain rfl : l = l' := le_antisymm (not_lt.mp fun h => hxy.not_gt (Lex.rel h))
        (not_lt.mp fun h => hyz.not_gt (Lex.rel h))
      have hy : p <+: y := ih (not_lt.mp fun h => hxy.not_gt (Lex.cons h))
        (not_lt.mp fun h => hyz.not_gt (Lex.cons h))
      exact (prefix_cons_inj l).mpr hy

/-- The octets that `Hash for Name` (wire/name.rs:401) hands to the hasher. -/
def hashed (n : Name) : Bytes := lower n.wire

/-- `canonical_cmp` is a total preorder that identifies the names that are equal up to letter case,
in which every zone is an interval that starts with its apex. -/
theorem canonicalCmp_order (a b c z : Name) :
    (a.canonicalCmp b).swap = b.canonicalCmp a ∧
    (a.canonicalCmp b ≠ .gt → b.canonicalCmp c ≠ .gt → a.canonicalCmp c ≠ .gt) ∧
    (a.canonicalCmp b = .eq ↔ a.eqIgnoreAsciiCase b = true) ∧
    (a.eqIgnoreAsciiCase b = true ↔ a.hashed = b.hashed) ∧
    (a.canonicalCmp b ≠ .gt → b.canonicalCmp c ≠ .gt → a.isInZone z = true →
      c.isInZone z = true → b.isInZone z = true) ∧
    z.isInZone z = true ∧ (a.isInZone z = true → z.canonicalCmp a ≠ .gt) := by
  simp only [canonicalCmp_ne_gt_iff, isInZone_iff, eqIgnoreAsciiCase_iff]
  refine ⟨?_, le_trans, ?_, lower_wire_eq_iff.symm, ?_, prefix_rfl, le_of_isPrefix⟩
  · rw [canonicalCmp_eq, canonicalCmp_eq]
    exact ordCmp_swap _ _
  · rw [canonicalCmp_eq]
    exact cmp_eq_eq_iff _ _
  · intro hab hbc ha hc
    exact isPrefix_of_between ha hc hab hbc

end Name

end Runbound.Wire
