import Mathlib.Data.List.Basic
import Mathlib.Tactic

/-!
# Maps in key order

A map as the list of its entries, in the order of their keys. `upsert` is the entry operation of
such maps: the value at a key is changed, after it was put there if the key was new.

Results:
* `forall_upsert`: what every entry satisfies.
* `exists_mem_upsert`: what is found in some value under a key.
-/

namespace Runbound.Lib.OrderedMap

open List

variable {κ ν : Type} [Ord κ]

/-- `f` applied to the value at `k`, which is `init` if there is none. -/
def upsert (k : κ) (init : ν) (f : ν → ν) : List (κ × ν) → List (κ × ν)
  | [] => [(k, f init)]
  | (k', v) :: m =>
    match compare k k' with
    | .lt => (k, f init) :: (k', v) :: m
    | .eq => (k', f v) :: m
    | .gt => (k', v) :: upsert k init f m

variable [Std.LawfulEqOrd κ]

theorem forall_upsert {P : κ → ν → Prop} {k : κ} {init : ν} {f : ν → ν} {m : List (κ × ν)}
    (hm : ∀ e ∈ m, P e.1 e.2) (hinit : P k (f init)) (hf : ∀ v, P k v → P k (f v)) :
    ∀ e ∈ upsert k init f m, P e.1 e.2 := by
  induction m with
  | nil => simpa [upsert] using hinit
  | cons entry m ih =>
    obtain ⟨k', v⟩ := entry
    have hv : P k' v := hm (k', v) (by simp)
    have hrest : ∀ e ∈ m, P e.1 e.2 := fun e he => hm e (mem_cons_of_mem _ he)
    cases hk : compare k k' with
    | lt =>
      simp only [upsert, hk, forall_mem_cons]
      exact ⟨hinit, hv, hrest⟩
    | eq =>
      obtain rfl := Std.LawfulEqOrd.eq_of_compare hk
      simp only [upsert, hk, forall_mem_cons]
      exact ⟨hf v hv, hrest⟩
    | gt =>
      simp only [upsert, hk, forall_mem_cons]
      exact ⟨hv, ih hrest⟩

/-- When `f` adds `R` to what is found in a value, and nothing is found in `init`, then exactly
`R` is found under `k` besides what was there. -/
theorem exists_mem_upsert {Q : ν → Prop} {R : Prop} {k : κ} {init : ν} {f : ν → ν}
    (hinit : ¬ Q init) (hf : ∀ v, Q (f v) ↔ Q v ∨ R) (m : List (κ × ν)) (k' : κ) :
    (∃ e ∈ upsert k init f m, e.1 = k' ∧ Q e.2) ↔ (∃ e ∈ m, e.1 = k' ∧ Q e.2) ∨ k = k' ∧ R := by
  induction m with
  | nil => simp [upsert, hf, hinit]
  | cons entry m ih =>
    obtain ⟨k₀, v⟩ := entry
    cases hk : compare k k₀ with
    | lt =>
      simp only [upsert, hk, exists_mem_cons_iff, hf, hinit, false_or]
      exact or_comm
    | eq =>
      obtain rfl := Std.LawfulEqOrd.eq_of_compare hk
      simp only [upsert, hk, exists_mem_cons_iff, hf]
      rw [and_or_left, or_right_comm]
    | gt =>
      simp only [upsert, hk, exists_mem_cons_iff, ih]
      rw [or_assoc]

end Runbound.Lib.OrderedMap
