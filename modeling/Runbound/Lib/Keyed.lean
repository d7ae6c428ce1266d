import Mathlib.Data.List.Basic
import Mathlib.Data.List.Lemmas

/-!
# Stores by name

A store is seen through what it has for each name. An operation at a name changes what stands
there and nothing else, so a list of operations makes of a name what those at the name make of
it one after another.

Results:
* `view_foldl`: what a list of operations makes of a name.
* `replay`: when a list of operations does nothing the second time.
-/

namespace Runbound.Lib.Keyed

open List

section View

variable {σ κ ν ι : Type} [DecidableEq κ] {view : σ → κ → ν}

/-- `f` makes `g v` of the `v` at `key`, and leaves every other name as it is. -/
def ActsAt (view : σ → κ → ν) (f : σ → σ) (key : κ) (g : ν → ν) : Prop :=
  ∀ s n, view (f s) n = if n = key then g (view s n) else view s n

theorem ActsAt.same {f : σ → σ} {key : κ} {g : ν → ν} (h : ActsAt view f key g) (s : σ) :
    view (f s) key = g (view s key) := by
  rw [h, if_pos rfl]

theorem ActsAt.other {f : σ → σ} {key n : κ} {g : ν → ν} (h : ActsAt view f key g) (hn : n ≠ key)
    (s : σ) : view (f s) n = view s n := by
  rw [h, if_neg hn]

/-- What holds of every name still does after an operation that keeps it at its own. -/
theorem ActsAt.keeps {f : σ → σ} {key : κ} {g : ν → ν} {Q : κ → ν → Prop}
    (h : ActsAt view f key g) {s : σ} (hg : Q key (view s key) → Q key (g (view s key)))
    (hs : ∀ n, Q n (view s n)) (n : κ) : Q n (view (f s) n) := by
  by_cases hn : n = key
  · rw [hn, h.same]
    exact hg (hs key)
  · rw [h.other hn]
    exact hs n

/-- What a list of operations makes of a name. -/
theorem view_foldl {f : σ → ι → σ} {key : ι → κ} {g : ν → ι → ν}
    (h : ∀ i, ActsAt view (f · i) (key i) (g · i)) (l : List ι) (s : σ) (n : κ) :
    view (l.foldl f s) n = (l.filter fun i => key i = n).foldl g (view s n) := by
  induction l generalizing s with
  | nil => rfl
  | cons i l ih =>
    rw [foldl_cons, ih]
    by_cases hi : key i = n
    · rw [filter_cons_of_pos (by simpa using hi), foldl_cons, ← hi, (h i).same]
    · rw [filter_cons_of_neg (by simpa using hi), (h i).other fun heq => hi heq.symm]

end View

section Replay

variable {α ι : Type} {f : α → ι → α}

/-- The operation changes nothing any more. -/
def Settled (f : α → ι → α) (a : α) (i : ι) : Prop := f a i = a

theorem foldl_of_settled {l : List ι} {a : α} (h : ∀ i ∈ l, Settled f a i) : l.foldl f a = a := by
  induction l with
  | nil => rfl
  | cons i l ih =>
    rw [foldl_cons, h i (by simp)]
    exact ih fun j hj => h j (mem_cons_of_mem i hj)

/-- What is settled stays so while operations are applied that keep it. -/
theorem Settled.foldl {l : List ι} {a : α} {i : ι} (hi : Settled f a i)
    (hkeep : ∀ j ∈ l, ∀ a, Settled f a i → Settled f (f a j) i) : Settled f (l.foldl f a) i := by
  induction l generalizing a with
  | nil => exact hi
  | cons j l ih =>
    exact ih (hkeep j (by simp) a hi) fun k hk => hkeep k (mem_cons_of_mem j hk)

/-- Operations that settle themselves and keep each other settled do nothing the second time. -/
theorem replay {l : List ι} (hself : ∀ i ∈ l, ∀ a, Settled f (f a i) i)
    (hkeep : ∀ i ∈ l, ∀ j ∈ l, ∀ a, Settled f a i → Settled f (f a j) i) (a : α) :
    l.foldl f (l.foldl f a) = l.foldl f a := by
  have hall : ∀ l' : List ι, (∀ i ∈ l', i ∈ l) → ∀ a, ∀ i ∈ l', Settled f (l'.foldl f a) i := by
    intro l' hsub
    induction l' with
    | nil => simp
    | cons j l' ih =>
      intro a i hi
      have hsub' : ∀ k ∈ l', k ∈ l := fun k hk => hsub k (mem_cons_of_mem j hk)
      rcases mem_cons.mp hi with rfl | hi
      · apply Settled.foldl (hself i (hsub i (by simp)) a)
        intro k hk
        exact hkeep i (hsub i (by simp)) k (hsub' k hk)
      · exact ih hsub' (f a j) i hi
  exact foldl_of_settled (hall l (fun i hi => hi) a)

/-- Idempotent operations that commute keep each other settled. -/
theorem Settled.of_comm {i j : ι} (hcomm : ∀ a, f (f a j) i = f (f a i) j) {a : α}
    (h : Settled f a i) : Settled f (f a j) i := by
  unfold Settled at h ⊢
  rw [hcomm, h]

end Replay

end Runbound.Lib.Keyed
