import Mathlib.Data.List.Infix
import Mathlib.Tactic

/-!
# Trees given by their owners

A finite tree of paths below a root is given by the paths that own something. Its
nodes are the owners and everything between the root and an owner. The closest
encloser of a path is the deepest node strictly above it.

* `IsNode.of_isPrefix`: nodes are closed towards the root.
* `exists_closestEncloser`, `ClosestEncloser.unique`.
* `closestEncloser_of_next`: a node whose next edge leaves the tree is the closest
  encloser.
-/

namespace Runbound.Lib

open List

variable {α : Type*}

/-- `p` is at or below the root, and at or above an owner. -/
def IsNode (root : List α) (owners : List (List α)) (p : List α) : Prop :=
  root <+: p ∧ ∃ o ∈ owners, p <+: o

instance [DecidableEq α] (root : List α) (owners : List (List α)) (p : List α) :
    Decidable (IsNode root owners p) := by unfold IsNode; infer_instance

/-- `ce` is the deepest node strictly above `q`. -/
structure ClosestEncloser (root : List α) (owners : List (List α)) (q ce : List α) : Prop where
  above : ce <+: q
  ne : ce ≠ q
  node : IsNode root owners ce
  deepest : ∀ p, p <+: q → p ≠ q → IsNode root owners p → p <+: ce

variable {root : List α} {owners : List (List α)} {q ce : List α}

theorem IsNode.of_isPrefix {p p' : List α} (h : IsNode root owners p) (hroot : root <+: p')
    (hp : p' <+: p) : IsNode root owners p' := by
  obtain ⟨-, o, ho, hpo⟩ := h
  exact ⟨hroot, o, ho, hp.trans hpo⟩

/-- Every owner below the root is a node. -/
theorem isNode_of_mem {o : List α} (ho : o ∈ owners) (hroot : root <+: o) : IsNode root owners o :=
  ⟨hroot, o, ho, prefix_rfl⟩

theorem isNode_root (h : root ∈ owners) : IsNode root owners root := isNode_of_mem h prefix_rfl

theorem ClosestEncloser.unique {ce' : List α} (h : ClosestEncloser root owners q ce)
    (h' : ClosestEncloser root owners q ce') : ce = ce' := by
  have h1 := h'.deepest ce h.above h.ne h.node
  have h2 := h.deepest ce' h'.above h'.ne h'.node
  exact h1.eq_of_length (le_antisymm h1.length_le h2.length_le)

/-- Below a missing path there is no node. -/
theorem ClosestEncloser.not_isNode_next (h : ClosestEncloser root owners q ce)
    (hq : ¬ IsNode root owners q) {a : α} (ha : ce ++ [a] <+: q) :
    ¬ IsNode root owners (ce ++ [a]) := by
  intro hnode
  by_cases heq : ce ++ [a] = q
  · exact hq (heq ▸ hnode)
  · have := (h.deepest _ ha heq hnode).length_le
    simp at this

theorem closestEncloser_of_next {a : α} (hce : IsNode root owners ce) (ha : ce ++ [a] <+: q)
    (hnext : ¬ IsNode root owners (ce ++ [a])) : ClosestEncloser root owners q ce := by
  have habove : ce <+: ce ++ [a] := prefix_append _ _
  refine ⟨habove.trans ha, ?_, hce, ?_⟩
  · rintro rfl
    have := ha.length_le
    simp at this
  · intro p hp hne hnode
    rcases List.prefix_or_prefix_of_prefix hp ha with h | h
    · rcases prefix_concat_iff.mp h with h | h
      · exact absurd (h ▸ hnode) hnext
      · exact h
    · exact absurd (hnode.of_isPrefix (hce.1.trans habove) h) hnext

/-- A missing path below such a node is missing because its next edge is. -/
theorem not_isNode_of_next {a : α} (hce : IsNode root owners ce) (ha : ce ++ [a] <+: q)
    (hnext : ¬ IsNode root owners (ce ++ [a])) : ¬ IsNode root owners q := fun hq =>
  hnext (hq.of_isPrefix (hce.1.trans (prefix_append _ _)) ha)

/-- The deepest node above `q` is found by walking up from `q`. -/
theorem exists_closestEncloser (hroot : root ∈ owners) (hq : root <+: q) (hne : root ≠ q) :
    ∃ ce, ClosestEncloser root owners q ce := by
  classical
  have hlen : root.length < q.length := lt_of_le_of_ne hq.length_le fun h => hne (hq.eq_of_length h)
  let P : ℕ → Prop := fun k => IsNode root owners (q.take k)
  have hP : P root.length := by
    show IsNode root owners (q.take root.length)
    rw [← prefix_iff_eq_take.mp hq]
    exact isNode_root hroot
  refine ⟨q.take (Nat.findGreatest P (q.length - 1)), List.take_prefix _ _, ?_, ?_, ?_⟩
  · intro h
    have h1 := congrArg List.length h
    have h2 := Nat.findGreatest_le (P := P) (q.length - 1)
    rw [length_take] at h1
    omega
  · exact Nat.findGreatest_spec (P := P) (by omega) hP
  · intro p hp hpne hnode
    have hplen : p.length < q.length :=
      lt_of_le_of_ne hp.length_le fun h => hpne (hp.eq_of_length h)
    have hk : p.length ≤ Nat.findGreatest P (q.length - 1) := by
      refine Nat.le_findGreatest (by omega) ?_
      show IsNode root owners (q.take p.length)
      rwa [← prefix_iff_eq_take.mp hp]
    rw [prefix_iff_eq_take.mp hp]
    exact take_prefix_take_left hk

end Runbound.Lib
