import Runbound.Lib.Cell
import Runbound.Lib.Text

/-!
# The sequence numbers of the audit log

`writer_task` (audit.rs) numbers the lines of the audit log. It starts at the number that
`load_seq` finds on disk, and `save_seq` brings that file up to date after every hundredth line and
when the channel is closed. A process that dies in between is started again at an old number.

Specification: along every run the numbers in the log are strictly increasing (`Increasing`).

Main results:

* `increasing_of_covered`: they are, if the process only ever goes down while the number on disk is
  above every number in the log; and a process that dies in any other state writes a number that is
  not above the earlier ones as soon as it is started again.
* `repeated_number`: the first line after a start, a crash and the first line after a restart.

**Deviation**: a line is written or it is not. What a failing `write_all` leaves of a line is not
counted. The checkpoints (`write_checkpoint`) are files of their own and are left out.
-/

namespace Runbound.Audit

open Lib List
open Lib.Text

/-! ## Model -/

/-- Where `writer_task` is. -/
inductive Writer
  /-- There is no process. -/
  | down
  /-- In `rx.recv()`, with `seq`. -/
  | ready (seq : ℕ)
  /-- After `write_all` of the line `seq`. -/
  | appended (seq : ℕ)
  /-- Before `save_seq`, in the loop or after it. -/
  | saving (seq : ℕ) (closed : Bool)
  deriving DecidableEq

/-- `audit-seq.dat`, the numbers of the lines in the log, and the process. -/
structure Log where
  seqFile : Option Text := none
  numbers : List ℕ := []
  writer : Writer := .down
  deriving DecidableEq

/-- What happens to the writer. -/
inductive Event
  /-- `init`; the log can be opened or not. -/
  | start (opened : Bool)
  /-- An event is received; its line is written or `write_all` fails. -/
  | append (written : Bool)
  /-- `seq += 1`, up to the test for a hundredth line. -/
  | count
  /-- `save_seq`: the file cannot be opened, or so many characters get into it. An error is
  ignored, and a crash inside `fs::write` is such an error with a crash after it. -/
  | save (kept : Option ℕ)
  /-- The channel is closed. -/
  | close
  | crash

/-- `load_seq` (audit.rs:161). -/
def loadSeq (file : Option Text) : ℕ := (file.bind fun s => parseNat (2 ^ 64) (trim s)).getD 0

/-- `save_seq` (audit.rs:168). -/
def saveSeq (kept : Option ℕ) (seq : ℕ) (file : Option Text) : Option Text :=
  kept.elim file fun k => some ((decimal seq).take k)

/-- `writer_task` (audit.rs:217), up to the next point where it can be interrupted. -/
def step (l : Log) : Event → Log
  | .crash => { l with writer := .down }
  | .start opened =>
    match l.writer with
    | .down => if opened then { l with writer := .ready (loadSeq l.seqFile) } else l
    | _ => l
  | .append written =>
    match l.writer with
    | .ready seq =>
      { l with numbers := if written then l.numbers ++ [seq] else l.numbers, writer := .appended seq }
    | _ => l
  | .count =>
    match l.writer with
    | .appended seq =>
      let next := (seq + 1) % 2 ^ 64
      { l with writer := if next % 100 = 0 then .saving next false else .ready next }
    | _ => l
  | .save kept =>
    match l.writer with
    | .saving seq closed =>
      { l with
        seqFile := saveSeq kept seq l.seqFile
        writer := if closed then .down else .ready seq }
    | _ => l
  | .close =>
    match l.writer with
    | .ready seq => { l with writer := .saving seq true }
    | _ => l

/-! ## Specification -/

/-- Each number is above those before it. -/
def Increasing (l : Log) : Prop := l.numbers.Pairwise (· < ·)

instance (l : Log) : Decidable (Increasing l) := inferInstanceAs (Decidable (List.Pairwise _ _))

/-- The number on disk is above every number in the log. -/
def Covered (l : Log) : Prop := ∀ n ∈ l.numbers, n < loadSeq l.seqFile

/-- The process goes down only with the log covered: it crashes in such a state, or its last
`save_seq` succeeds. It is down before the counter overflows. -/
def Allowed (l : Log) : Event → Prop
  | .crash => Covered l
  | .save kept => ∀ seq, l.writer = .saving seq true →
      kept.elim (Covered l) fun k => (decimal seq).length ≤ k
  | .count => ∀ seq, l.writer = .appended seq → seq + 1 < 2 ^ 64
  | _ => True

/-! ## Numbers on disk -/

theorem loadSeq_lt (file : Option Text) : loadSeq file < 2 ^ 64 := by
  rw [loadSeq]
  cases h : file.bind fun s => parseNat (2 ^ 64) (trim s) with
  | none => exact Nat.two_pow_pos 64
  | some n =>
    obtain ⟨s, -, hs⟩ := Option.bind_eq_some_iff.mp h
    exact lt_of_parseNat hs

variable {l : Log} {seq : ℕ}

theorem loadSeq_saveSeq {k : ℕ} {file : Option Text} (hk : (decimal seq).length ≤ k)
    (hseq : seq < 2 ^ 64) : loadSeq (saveSeq (some k) seq file) = seq := by
  show (parseNat (2 ^ 64) (trim ((decimal seq).take k))).getD 0 = seq
  rw [take_of_length_le hk, trim_decimal, parseNat_decimal hseq]
  rfl

/-! ## Runs -/

/-- What holds of the log along a run: the process is ahead of it, and so is the file when there is
no process. -/
structure Ahead (l : Log) : Prop where
  increasing : Increasing l
  down : l.writer = .down → Covered l
  ready : ∀ seq, l.writer = .ready seq → seq < 2 ^ 64 ∧ ∀ n ∈ l.numbers, n < seq
  appended : ∀ seq, l.writer = .appended seq → seq < 2 ^ 64 ∧ ∀ n ∈ l.numbers, n ≤ seq
  saving : ∀ seq closed, l.writer = .saving seq closed → seq < 2 ^ 64 ∧ ∀ n ∈ l.numbers, n < seq

theorem ahead_down (h : Increasing l) (hc : Covered l) : Ahead { l with writer := .down } where
  increasing := h
  down := fun _ => hc
  ready := fun seq heq => (by cases heq)
  appended := fun seq heq => (by cases heq)
  saving := fun seq closed heq => (by cases heq)

theorem ahead_ready (h : Increasing l) (hlt : seq < 2 ^ 64)
    (hn : ∀ n ∈ l.numbers, n < seq) : Ahead { l with writer := .ready seq } where
  increasing := h
  down := fun heq => (by cases heq)
  ready := fun s heq => (by cases heq; exact ⟨hlt, hn⟩)
  appended := fun s heq => (by cases heq)
  saving := fun s closed heq => (by cases heq)

theorem ahead_saving {closed : Bool} (h : Increasing l) (hlt : seq < 2 ^ 64)
    (hn : ∀ n ∈ l.numbers, n < seq) : Ahead { l with writer := .saving seq closed } where
  increasing := h
  down := fun heq => (by cases heq)
  ready := fun s heq => (by cases heq)
  appended := fun s heq => (by cases heq)
  saving := fun s c heq => (by cases heq; exact ⟨hlt, hn⟩)

theorem ahead_append (h : Ahead l) (hw : l.writer = .ready seq)
    (written : Bool) : Ahead (step l (.append written)) := by
  obtain ⟨hlt, hn⟩ := h.ready seq hw
  rw [step, hw]
  have hle : ∀ n ∈ (if written then l.numbers ++ [seq] else l.numbers), n ≤ seq := by
    intro n hmem
    split_ifs at hmem
    · rcases mem_append.mp hmem with hmem | hmem
      · exact (hn n hmem).le
      · exact (mem_singleton.mp hmem).le
    · exact (hn n hmem).le
  have hinc : (if written then l.numbers ++ [seq] else l.numbers).Pairwise (· < ·) := by
    split_ifs
    · refine pairwise_append.mpr ⟨h.increasing, pairwise_singleton _ _, ?_⟩
      intro a ha b hb
      rw [mem_singleton.mp hb]
      exact hn a ha
    · exact h.increasing
  exact ⟨hinc, fun heq => (by cases heq), fun s heq => (by cases heq),
    fun s heq => (by cases heq; exact ⟨hlt, hle⟩), fun s c heq => (by cases heq)⟩

/-- One step keeps the log behind the process and the file. -/
theorem ahead_step (l : Log) (e : Event) (h : Ahead l) (ha : Allowed l e) : Ahead (step l e) := by
  cases e with
  | crash => exact ahead_down h.increasing ha
  | start opened =>
    rw [step]
    split
    · split_ifs
      · exact ahead_ready h.increasing (loadSeq_lt _) (h.down (by assumption))
      · exact h
    · exact h
  | append written =>
    cases hw : l.writer with
    | ready seq => exact ahead_append h hw written
    | _ =>
      rw [step, hw]
      exact h
  | count =>
    cases hw : l.writer with
    | appended seq =>
      obtain ⟨hlt, hn⟩ := h.appended seq hw
      have hnext : (seq + 1) % 2 ^ 64 = seq + 1 := Nat.mod_eq_of_lt (ha seq hw)
      have hbelow : ∀ n ∈ l.numbers, n < seq + 1 := fun n hmem => Nat.lt_succ_of_le (hn n hmem)
      rw [step, hw]
      dsimp only
      rw [hnext]
      split_ifs
      · exact ahead_saving h.increasing (ha seq hw) hbelow
      · exact ahead_ready h.increasing (ha seq hw) hbelow
    | _ =>
      rw [step, hw]
      exact h
  | save kept =>
    cases hw : l.writer with
    | saving seq closed =>
      obtain ⟨hlt, hn⟩ := h.saving seq closed hw
      rw [step, hw]
      let saved : Log := { l with seqFile := saveSeq kept seq l.seqFile }
      cases closed with
      | false => exact ahead_ready (l := saved) h.increasing hlt hn
      | true =>
        apply ahead_down (l := saved) h.increasing
        have hkept := ha seq hw
        cases kept with
        | none => exact hkept
        | some k =>
          intro n hmem
          show n < loadSeq (saveSeq (some k) seq l.seqFile)
          rw [loadSeq_saveSeq hkept hlt]
          exact hn n hmem
    | _ =>
      rw [step, hw]
      exact h
  | close =>
    cases hw : l.writer with
    | ready seq =>
      obtain ⟨hlt, hn⟩ := h.ready seq hw
      rw [step, hw]
      exact ahead_saving h.increasing hlt hn
    | _ =>
      rw [step, hw]
      exact h

theorem ahead_init : Ahead {} where
  increasing := List.Pairwise.nil
  down := fun _ n hn => (by cases hn)
  ready := fun seq heq => (by cases heq)
  appended := fun seq heq => (by cases heq)
  saving := fun seq closed heq => (by cases heq)

/-- A process that dies with the log not covered writes a number again, or a smaller one. -/
theorem not_increasing_of_crash (h : ¬Covered l) :
    ¬Increasing ([Event.crash, .start true, .append true].foldl step l) := by
  intro hinc
  have hnumbers : (l.numbers ++ [loadSeq l.seqFile]).Pairwise (· < ·) := hinc
  apply h
  intro n hn
  exact (pairwise_append.mp hnumbers).2.2 n hn _ (mem_singleton_self _)

/-- **The numbers of the audit log increase as long as the process goes down only with the log
covered, and no longer than that.** -/
theorem increasing_of_covered (es : List Event) (l : Log) :
    (Each step Allowed {} es → Always step Increasing {} es) ∧
      (¬Covered l → ¬Increasing ([Event.crash, .start true, .append true].foldl step l)) :=
  ⟨fun hes => always_of_each ahead_step (fun _ h => h.increasing) ahead_init hes,
    not_increasing_of_crash⟩

/-- One line, an orderly stop, a restart that crashes before its first line, and a second line. -/
def coveredRun : List Event :=
  [.start true, .append true, .count, .close, .save (some 1), .start true, .crash, .start true,
    .append true]

theorem increasing_coveredRun :
    Each step Allowed {} coveredRun ∧ Always step Increasing {} coveredRun ∧
      (coveredRun.foldl step {}).numbers = [0, 1] := by
  have heach : Each step Allowed {} coveredRun := by
    refine ⟨trivial, trivial, ?_, trivial, ?_, trivial, ?_, trivial, trivial, trivial⟩
    · intro seq hseq
      cases hseq
      decide
    · intro seq hseq
      cases hseq
      show (decimal 1).length ≤ 1
      decide
    · show ∀ n ∈ [0], n < loadSeq (some ['1'])
      decide
  exact ⟨heach, (increasing_of_covered coveredRun {}).1 heach, by decide⟩

/-- A crash after the first line: the line after the restart has the same number. -/
theorem repeated_number :
    ([Event.start true, .append true, .count, .crash, .start true, .append true].foldl step
      {}).numbers = [0, 0] ∧
    ¬Increasing ([Event.start true, .append true, .count, .crash, .start true,
      .append true].foldl step {}) := by
  decide

end Runbound.Audit
