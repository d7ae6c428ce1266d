import Mathlib.Logic.Function.Basic
import Mathlib.Tactic

/-!
# Writers of one shared cell

A writer takes a copy of the value of a cell and later stores what it made of the copy;
some writers hold a lock from before the one to after the other. What the writers are
meant to achieve together is a `Ledger`: for each key what the last write to it made of it.

Main results:

* `Fresh.load`, `Fresh.store`: copies stay current while nobody stores past another's copy.
* `honors_write`, `honors_refresh_iff`: when the value that is stored has what the ledger
  asks for.
* `always_iff_each`, `always_iff_each_of_invariant`: a property that each step keeps under a
  condition holds along a run exactly if the condition holds at each step.
-/

namespace Runbound.Lib

/-! ## Copies of a cell -/

/-- A cell, the holder of its lock, and the copies that have been taken and not stored. -/
structure Cell (ι σ : Type) where
  value : σ
  holder : Option ι
  copies : ι → Option σ

namespace Cell

variable {ι σ : Type} [DecidableEq ι]

/-- `i` gets the lock. -/
def acquire (i : ι) (c : Cell ι σ) : Cell ι σ := { c with holder := some i }

/-- `i` gives the lock back, if it holds it. -/
def release (i : ι) (c : Cell ι σ) : Cell ι σ :=
  { c with holder := if c.holder = some i then none else c.holder }

/-- `i` takes a copy. -/
def load (i : ι) (c : Cell ι σ) : Cell ι σ :=
  { c with copies := Function.update c.copies i (some c.value) }

/-- `i` stores a value. -/
def store (i : ι) (z : σ) (c : Cell ι σ) : Cell ι σ :=
  { c with value := z, copies := Function.update c.copies i none }

/-- Every copy is what the cell holds. -/
def Fresh (c : Cell ι σ) : Prop := ∀ i z, c.copies i = some z → z = c.value

variable {c : Cell ι σ} {i : ι}

theorem holder_release {j : ι} : (c.release i).holder = some j ↔ c.holder = some j ∧ j ≠ i := by
  unfold release
  dsimp only
  split_ifs with h
  · simp [h, eq_comm]
  · exact ⟨fun hj => ⟨hj, fun hji => h (hj.trans (congrArg some hji))⟩, And.left⟩

theorem Fresh.load (h : c.Fresh) : (c.load i).Fresh :=
  (Function.forall_update_iff c.copies fun _ o => ∀ z, o = some z → z = c.value).mpr
    ⟨fun _ hz => (Option.some.inj hz).symm, fun j _ => h j⟩

/-- A value is stored while nobody else has a copy. -/
theorem Fresh.store (h : ∀ j ≠ i, c.copies j = none) (z : σ) : (c.store i z).Fresh := by
  refine (Function.forall_update_iff c.copies fun _ o => ∀ z', o = some z' → z' = z).mpr
    ⟨nofun, fun j hji z' hj => ?_⟩
  rw [h j hji] at hj
  cases hj

end Cell

/-! ## Ledgers -/

/-- What the last write to a key made of it; whether it was a write to single keys; and its
    place in the sequence of writes. -/
structure Entry (ν : Type) where
  value : ν
  single : Bool
  stamp : ℕ

/-- The entry of each key, and the number of writes so far. -/
structure Ledger (κ ν : Type) where
  entries : κ → Option (Entry ν)
  stamp : ℕ

namespace Ledger

variable {κ ν σ : Type} [DecidableEq κ]

/-- What stands at a key: its entry, or what was found there. -/
def value (l : Ledger κ ν) (found : κ → ν) (k : κ) : ν := (l.entries k).elim (found k) Entry.value

/-- The keys `ks` are written, each changed by `g`. -/
def write (ks : List κ) (g : κ → ν → ν) (found : κ → ν) (l : Ledger κ ν) : Ledger κ ν where
  entries k := if k ∈ ks then some ⟨g k (l.value found k), true, l.stamp⟩ else l.entries k
  stamp := l.stamp + 1

/-- A refresh with data from after the first `since` writes does not override later ones, nor
    writes to single keys that are not among its own keys `ks`. -/
def Outlasts (ks : List κ) (since : ℕ) (k : κ) (e : Entry ν) : Prop :=
  since ≤ e.stamp ∨ (k ∉ ks ∧ e.single = true)

instance (ks : List κ) (since : ℕ) (k : κ) (e : Entry ν) : Decidable (Outlasts ks since k e) :=
  inferInstanceAs (Decidable (_ ∨ _))

/-- All keys are written anew, with the values `new` at the keys `ks` and none at the others.
    A refresh that reports no success only overrides. -/
def refresh (ks : List κ) (since : ℕ) (new : κ → ν) (reported : Bool) (l : Ledger κ ν) :
    Ledger κ ν where
  entries k :=
    match (l.entries k).filter fun e => decide (Outlasts ks since k e) with
    | some e => some e
    | none => if reported ∧ k ∈ ks then some ⟨new k, false, l.stamp⟩ else none
  stamp := l.stamp + 1

/-- The value `z` has at each key what its entry asks for. -/
def Honors (at' : σ → κ → ν) (l : Ledger κ ν) (z : σ) : Prop :=
  ∀ k e, l.entries k = some e → at' z k = e.value

/-- `f` changes the keys `ks` only, each by `g`. -/
structure ActsOn (at' : σ → κ → ν) (f : σ → σ) (ks : List κ) (g : κ → ν → ν) : Prop where
  inside : ∀ z, ∀ k ∈ ks, at' (f z) k = g k (at' z k)
  outside : ∀ z, ∀ k ∉ ks, at' (f z) k = at' z k

variable {at' : σ → κ → ν} {l : Ledger κ ν} {z : σ}

omit [DecidableEq κ] in
theorem Honors.value_eq (h : Honors at' l z) (k : κ) : l.value (at' z) k = at' z k := by
  unfold value
  cases hk : l.entries k with
  | none => rfl
  | some e => exact (h k e hk).symm

/-- A change of what is published honors the ledger. -/
theorem honors_write {f : σ → σ} {ks : List κ} {g : κ → ν → ν} (h : Honors at' l z)
    (hf : ActsOn at' f ks g) : Honors at' (l.write ks g (at' z)) (f z) := by
  intro k e he
  by_cases hk : k ∈ ks
  · simp only [write, hk, if_true, Option.some.injEq] at he
    rw [← he, hf.inside z k hk, h.value_eq k]
  · simp only [write, hk, if_false] at he
    rw [hf.outside z k hk, h k e he]

/-- Every entry is of a write that has been made. -/
def Stamped (l : Ledger κ ν) : Prop := ∀ k e, l.entries k = some e → e.stamp < l.stamp

theorem Stamped.write (h : l.Stamped) (ks : List κ) (g : κ → ν → ν) (found : κ → ν) :
    (l.write ks g found).Stamped := by
  intro k e he
  show e.stamp < l.stamp + 1
  by_cases hk : k ∈ ks
  · simp only [Ledger.write, hk, if_true, Option.some.injEq] at he
    rw [← he]
    exact Nat.lt_succ_self _
  · simp only [Ledger.write, hk, if_false] at he
    exact Nat.lt_succ_of_lt (h k e he)

theorem refresh_eq_some {ks : List κ} {since : ℕ} {new : κ → ν} {reported : Bool} {k : κ}
    {e : Entry ν} (he : (l.refresh ks since new reported).entries k = some e) :
    (l.entries k = some e ∧ Outlasts ks since k e) ∨ e = ⟨new k, false, l.stamp⟩ := by
  unfold refresh at he
  cases hfilter : (l.entries k).filter fun e => decide (Outlasts ks since k e) with
  | some e' =>
    simp only [hfilter, Option.some.injEq] at he
    subst he
    obtain ⟨he', hlast⟩ := Option.filter_eq_some_iff.mp hfilter
    exact Or.inl ⟨he', of_decide_eq_true hlast⟩
  | none =>
    simp only [hfilter] at he
    split_ifs at he
    exact Or.inr (Option.some.inj he).symm

theorem Stamped.refresh (h : l.Stamped) (ks : List κ) (since : ℕ) (new : κ → ν) (reported : Bool) :
    (l.refresh ks since new reported).Stamped := by
  intro k e he
  show e.stamp < l.stamp + 1
  rcases refresh_eq_some he with ⟨hold, -⟩ | rfl
  · exact Nat.lt_succ_of_lt (h k e hold)
  · exact Nat.lt_succ_self _

/-- A refresh with data from after the last write honors the ledger exactly if it has, at the
    keys that it does not know, what the last writes to single keys made of them. -/
theorem honors_refresh_iff (at' : σ → κ → ν) (hs : l.Stamped) (ks : List κ) (reported : Bool)
    (new : σ) :
    Honors at' (l.refresh ks l.stamp (at' new) reported) new ↔
      ∀ k e, l.entries k = some e → k ∉ ks → e.single = true → at' new k = e.value := by
  constructor
  · intro hnew k e he hk hsingle
    have hlast : Outlasts ks l.stamp k e := Or.inr ⟨hk, hsingle⟩
    have hfilter : ((l.entries k).filter fun e => decide (Outlasts ks l.stamp k e)) = some e :=
      Option.filter_eq_some_iff.mpr ⟨he, decide_eq_true hlast⟩
    exact hnew k e (by simp only [refresh, hfilter])
  · intro hsingle k e he
    rcases refresh_eq_some he with ⟨hold, hlate | ⟨hk, hone⟩⟩ | rfl
    · have hlt := hs k e hold
      omega
    · exact hsingle k e hold hk hone
    · rfl

end Ledger

/-! ## Runs -/

section

variable {σ ε : Type} (step : σ → ε → σ)

/-- `P` holds after each step of the run. -/
def Always (P : σ → Prop) : σ → List ε → Prop
  | _, [] => True
  | s, e :: es => P (step s e) ∧ Always P (step s e) es

/-- `Q` holds before each step of the run. -/
def Each (Q : σ → ε → Prop) : σ → List ε → Prop
  | _, [] => True
  | s, e :: es => Q s e ∧ Each Q (step s e) es

variable {step}

variable {Q : σ → ε → Prop}

theorem each_of_invariant {I : σ → Prop} (hstep : ∀ s e, I s → Q s e ∧ I (step s e)) (es : List ε)
    {s : σ} (hs : I s) :
    Each step Q s es := by
  induction es generalizing s with
  | nil => trivial
  | cons e es ih =>
    obtain ⟨hq, hi⟩ := hstep s e hs
    exact ⟨hq, ih hi⟩

/-- A condition that holds after each part of the run. -/
theorem each_of_prefixes {es : List ε} {s : σ}
    (h : ∀ k (hk : k < es.length), Q ((es.take k).foldl step s) es[k]) : Each step Q s es := by
  induction es generalizing s with
  | nil => trivial
  | cons e es ih =>
    refine ⟨h 0 (by simp), ih fun k hk => ?_⟩
    exact h (k + 1) (by simpa using hk)

/-- Along runs that meet `R`, and so keep `I`. -/
theorem always_iff_each_of_invariant {I P : σ → Prop} {R : σ → ε → Prop}
    (hkeep : ∀ s e, I s → R s e → I (step s e))
    (hstep : ∀ s e, I s → R s e → P s → (P (step s e) ↔ Q s e)) (es : List ε) {s : σ} (hi : I s)
    (hs : P s) (hr : Each step R s es) : Always step P s es ↔ Each step Q s es := by
  induction es generalizing s with
  | nil => exact Iff.rfl
  | cons e es ih =>
    obtain ⟨hre, hr⟩ := hr
    have hiff := hstep s e hi hre hs
    unfold Always Each
    rw [hiff]
    exact and_congr_right fun hq => ih (hkeep s e hi hre) (hiff.mpr hq) hr

theorem always_iff_each {P : σ → Prop} (hstep : ∀ s e, P s → (P (step s e) ↔ Q s e)) (es : List ε)
    {s : σ} (hs : P s) : Always step P s es ↔ Each step Q s es := by
  have hall : Each step (fun _ _ => True) s es :=
    each_of_invariant (I := fun _ => True) (fun _ _ _ => ⟨trivial, trivial⟩) es trivial
  exact always_iff_each_of_invariant (I := fun _ => True) (fun _ _ _ _ => trivial)
    (fun s e _ _ => hstep s e) es trivial hs hall

theorem Always.last {P : σ → Prop} {es : List ε} {s : σ} (h : Always step P s es) (hs : P s) :
    P (es.foldl step s) := by
  induction es generalizing s with
  | nil => exact hs
  | cons e es ih => exact ih h.2 h.1

/-- What steps that meet `Q` keep holds after each of them. -/
theorem always_of_each {I P : σ → Prop} (hstep : ∀ s e, I s → Q s e → I (step s e))
    (hholds : ∀ s, I s → P s) {es : List ε} {s : σ} (hs : I s) (h : Each step Q s es) :
    Always step P s es := by
  induction es generalizing s with
  | nil => trivial
  | cons e es ih =>
    have hnext := hstep s e hs h.1
    exact ⟨hholds _ hnext, ih hnext h.2⟩

/-- Conditions that agree along the runs that keep `I` hold before each step of the same runs. -/
theorem each_iff_each {I : σ → Prop} {R : σ → ε → Prop} (hiff : ∀ s e, I s → (R s e ↔ Q s e))
    (hkeep : ∀ s e, I s → Q s e → I (step s e)) (es : List ε) {s : σ} (hs : I s) :
    Each step R s es ↔ Each step Q s es := by
  induction es generalizing s with
  | nil => exact Iff.rfl
  | cons e es ih =>
    unfold Each
    rw [hiff s e hs]
    exact and_congr_right fun hq => ih (hkeep s e hs hq)

end

end Runbound.Lib
