import Mathlib.Logic.Function.Basic
import Mathlib.Tactic

/-!
# Files and crashes

A file system is what each path holds. A program changes it by a sequence of operations, and a
crash leaves the file system as it is after some of them.

* `forall_crash_append`: the crash points of a sequence are those of its parts.
* `forall_crash_of_frame`: what does not look at the paths that are written does not notice.
* `forall_crash_replace`: a file that is written aside and renamed appears at once.
-/

namespace Runbound.Lib

open List Function

/-- What each path holds; `none` is a path without a file. -/
abbrev Files (π γ : Type) : Type := π → Option γ

/-- One operation: create an empty file or truncate one, write all of a file, flush it, replace
one file by another, or something that no content depends on (a directory, permissions). -/
inductive FileOp (π γ : Type)
  | create (p : π)
  | write (p : π) (content : γ)
  | sync (p : π)
  | rename (src dst : π)
  | other

namespace FileOp

variable {π γ : Type} [DecidableEq π]

/-- The file system after an operation. `empty` is the content of a file without octets. -/
def run (empty : γ) : FileOp π γ → Files π γ → Files π γ
  | create p, f => Function.update f p (some empty)
  | write p content, f => Function.update f p (some content)
  | sync _, f => f
  | rename src dst, f =>
    (f src).elim f fun content => Function.update (Function.update f dst (some content)) src none
  | other, f => f

/-- The paths whose content may change. -/
def targets : FileOp π γ → List π
  | create p => [p]
  | write p _ => [p]
  | sync _ => []
  | rename src dst => [src, dst]
  | other => []

/-- The file system after a sequence of operations. -/
def runAll (empty : γ) (ops : List (FileOp π γ)) (f : Files π γ) : Files π γ :=
  ops.foldl (fun f op => op.run empty f) f

/-- The file system that a crash after `k` of the operations leaves. -/
def crashed (empty : γ) (ops : List (FileOp π γ)) (k : ℕ) (f : Files π γ) : Files π γ :=
  runAll empty (ops.take k) f

variable {empty : γ} {f : Files π γ} {p : π} {P : Files π γ → Prop}

theorem run_of_not_target {op : FileOp π γ} (h : p ∉ op.targets) : op.run empty f p = f p := by
  cases op with
  | create q =>
    simp only [targets, mem_singleton] at h
    exact update_of_ne h _ _
  | write q content =>
    simp only [targets, mem_singleton] at h
    exact update_of_ne h _ _
  | sync q => rfl
  | rename src dst =>
    simp only [targets, mem_cons, not_mem_nil, or_false, not_or] at h
    show (f src).elim f (fun content =>
      Function.update (Function.update f dst (some content)) src none) p = f p
    cases f src with
    | none => rfl
    | some content =>
      show Function.update (Function.update f dst (some content)) src none p = f p
      rw [update_of_ne h.1, update_of_ne h.2]
  | other => rfl

theorem runAll_of_not_target {ops : List (FileOp π γ)} (h : ∀ op ∈ ops, p ∉ op.targets) :
    runAll empty ops f p = f p := by
  induction ops generalizing f with
  | nil => rfl
  | cons op ops ih =>
    obtain ⟨hop, hops⟩ := forall_mem_cons.mp h
    show runAll empty ops (op.run empty f) p = f p
    rw [ih hops, run_of_not_target hop]

/-! ## Crash points -/

theorem forall_crash_append (ops ops' : List (FileOp π γ)) :
    (∀ k, P (crashed empty (ops ++ ops') k f)) ↔
      (∀ k, P (crashed empty ops k f)) ∧ ∀ k, P (crashed empty ops' k (runAll empty ops f)) := by
  constructor
  · intro h
    refine ⟨?_, ?_⟩
    · intro k
      have hmin := h (min k ops.length)
      rw [crashed, take_append_of_le_length (by omega)] at hmin
      have htake : ops.take (min k ops.length) = ops.take k := by
        simp
      rw [htake] at hmin
      exact hmin
    · intro k
      have hlater := h (ops.length + k)
      rw [crashed, take_length_add_append, runAll, foldl_append] at hlater
      exact hlater
  · rintro ⟨hfirst, hsecond⟩ k
    rcases Nat.le_total k ops.length with hk | hk
    · rw [crashed, take_append_of_le_length hk]
      exact hfirst k
    · obtain ⟨j, rfl⟩ := Nat.exists_eq_add_of_le hk
      rw [crashed, take_length_add_append, runAll, foldl_append]
      exact hsecond j

/-- What only looks at paths that the operations do not change does not notice a crash. -/
theorem forall_crash_of_frame {ops : List (FileOp π γ)} {read : List π}
    (hP : ∀ f' : Files π γ, (∀ p ∈ read, f' p = f p) → (P f' ↔ P f))
    (hops : ∀ op ∈ ops, ∀ p ∈ read, p ∉ op.targets) :
    (∀ k, P (crashed empty ops k f)) ↔ P f := by
  have hsame : ∀ k, P (crashed empty ops k f) ↔ P f := by
    intro k
    apply hP
    intro p hp
    apply runAll_of_not_target
    intro op hop
    exact hops op (mem_of_mem_take hop) p hp
  constructor
  · intro h
    exact (hsame 0).mp (h 0)
  · intro h k
    exact (hsame k).mpr h

/-- A crash before or after a single operation. -/
theorem forall_crash_singleton (op : FileOp π γ) :
    (∀ k, P (crashed empty [op] k f)) ↔ P f ∧ P (op.run empty f) := by
  constructor
  · intro h
    exact ⟨h 0, h 1⟩
  · rintro ⟨hbefore, hafter⟩ k
    cases k with
    | zero => exact hbefore
    | succ k =>
      rw [crashed, take_of_length_le (by simp)]
      exact hafter

theorem run_rename {src dst : π} {content : γ} (h : f src = some content) :
    (rename src dst).run empty f =
      Function.update (Function.update f dst (some content)) src none := by
  show (f src).elim f _ = _
  rw [h]
  rfl

/-- A file is written aside and then put in place of another: what does not look at the file
aside sees either nothing of it or all of it. -/
theorem forall_crash_replace {pre : List (FileOp π γ)} {tmp dst : π} {content : γ} {read : List π}
    (hP : ∀ g g' : Files π γ, (∀ p ∈ read, g' p = g p) → (P g' ↔ P g)) (htmp : tmp ∉ read)
    (hpre : ∀ op ∈ pre, ∀ p, p ≠ tmp → p ∉ op.targets)
    (hlast : runAll empty pre f tmp = some content) :
    (∀ k, P (crashed empty (pre ++ [rename tmp dst]) k f)) ↔
      P f ∧ P (Function.update f dst (some content)) := by
  have hne : ∀ p ∈ read, p ≠ tmp := by
    rintro p hp rfl
    exact htmp hp
  have hread : ∀ p ∈ read, runAll empty pre f p = f p := by
    intro p hp
    exact runAll_of_not_target fun op hop => hpre op hop p (hne p hp)
  have hafter : P ((rename tmp dst).run empty (runAll empty pre f)) ↔
      P (Function.update f dst (some content)) := by
    apply hP
    intro p hp
    rw [run_rename hlast, update_of_ne (hne p hp)]
    by_cases hdst : p = dst
    · rw [hdst, update_self, update_self]
    · rw [update_of_ne hdst, update_of_ne hdst, hread p hp]
  rw [forall_crash_append, forall_crash_singleton, hafter, hP f (runAll empty pre f) hread,
    forall_crash_of_frame (hP f) fun op hop p hp => hpre op hop p (hne p hp)]
  constructor
  · simp
  · simp

/-- The file system after the replacement, where it is looked at. -/
theorem runAll_replace {pre : List (FileOp π γ)} {tmp dst : π} {content : γ}
    (hpre : ∀ op ∈ pre, ∀ p, p ≠ tmp → p ∉ op.targets)
    (hlast : runAll empty pre f tmp = some content) (hp : p ≠ tmp) :
    runAll empty (pre ++ [rename tmp dst]) f p = Function.update f dst (some content) p := by
  rw [runAll, foldl_append]
  show (rename tmp dst).run empty (runAll empty pre f) p = _
  rw [run_rename hlast, update_of_ne hp]
  by_cases hdst : p = dst
  · rw [hdst, update_self, update_self]
  · rw [update_of_ne hdst, update_of_ne hdst,
      runAll_of_not_target fun op hop => hpre op hop p hp]

end FileOp

end Runbound.Lib
