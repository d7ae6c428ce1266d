import Runbound.Store.Atomic

/-!
# Changes to a store that cannot be loaded

An API call that adds an entry (`persist_and_swap` and `add_blacklist_handler` of `api/mod.rs`)
and an event from the master (`apply_event` of `sync.rs`) load the store, change it and save it.
All of them go on with an empty store when `load` fails (`unwrap_or_default`).

Results:

* `run_of_failed`: what is saved then holds the new entry alone, or nothing.
* `spared_iff`: a store that cannot be loaded stays as it is, and an error is reported, exactly
  if the request is refused for its schedule or the save fails on its way.
* `store_wiped`: a store with a torn MAC is replaced by the one entry that is added.

**Deviation.** The DNS store and the blacklist differ in their paths and entries only, so that
`Disk` stands for the files of the one the change is about. The checks of a request before the
store is loaded, and what is done with the live zones and the journal afterwards, are left out.
-/

namespace Runbound.Store

open Wire Lib List

/-! ## Model -/

/-- `MAX_DNS_ENTRIES` (api/mod.rs:168). -/
def maxDnsEntries : ℕ := 10000

/-- `MAX_BLACKLIST_ENTRIES` (api/mod.rs:170). -/
def maxBlacklistEntries : ℕ := 100000

/-- `valid_hhmm` (api/mod.rs:2339). A text of five octets that has a `:` in the middle and two
    numbers beside it has five characters. -/
def validHhmm : Text → Bool
  | [h1, h2, ':', m1, m2] =>
    (Text.parseNat 256 [h1, h2]).any (· ≤ 23) && (Text.parseNat 256 [m1, m2]).any (· ≤ 59)
  | _ => false

/-- What a change reports. -/
inductive Response
  /-- `201 Created`, or `Ok(())` of an event. -/
  | done
  /-- `422`, `LIMIT_EXCEEDED`, with the maximum. -/
  | limitExceeded (max : ℕ)
  /-- `400`, `invalid schedule: use HH:MM format (00:00-23:59)`. -/
  | invalidSchedule
  /-- `500`, or the error of an event. -/
  | saveFailed
  deriving DecidableEq

/-- The response reports an error. -/
def Response.isError : Response → Bool
  | .done => false
  | .limitExceeded _ | .invalidSchedule | .saveFailed => true

section

variable {ε : Type} (i : Integrity) (fmt : Format (List ε)) (idOf : ε → Text)

/-- `load().unwrap_or_default()`, and the files afterwards. -/
def loadOrDefault (disk : Disk) : List ε × Disk :=
  match load i fmt disk with
  | (.ok entries, disk) => (entries, disk)
  | (.error _, disk) => ([], disk)

/-- `save`, of whose operations the one at `failing` fails. A failing `set_permissions`, the
    one at 5, is ignored; any other ends it. -/
def saving (failing : Option ℕ) (entries : List ε) (disk : Disk) : Response × Disk :=
  match failing with
  | none => (.done, FileOp.runAll emptyFile (save i fmt entries) disk)
  | some k =>
    if k = 5 ∨ (save i fmt entries).length ≤ k then
      (.done, FileOp.runAll emptyFile (save i fmt entries) disk)
    else (.saveFailed, FileOp.crashed emptyFile (save i fmt entries) k disk)

/-- The store of `persist_and_swap` (api/mod.rs:1908). -/
def persistAndSwap (entry : ε) (failing : Option ℕ) (disk : Disk) : Response × Disk :=
  let loaded := loadOrDefault i fmt disk
  if loaded.1.length ≥ maxDnsEntries then (.limitExceeded maxDnsEntries, loaded.2)
  else saving i fmt failing (loaded.1 ++ [entry]) loaded.2

/-- The store of `add_blacklist_handler` (api/mod.rs:2324); `schedule` has the start and the end
    of the window. -/
def addBlacklistHandler (entry : ε) (schedule : Option (Text × Text)) (failing : Option ℕ)
    (disk : Disk) : Response × Disk :=
  let loaded := loadOrDefault i fmt disk
  if loaded.1.length ≥ maxBlacklistEntries then (.limitExceeded maxBlacklistEntries, loaded.2)
  else if schedule.any fun s => !validHhmm s.1 || !validHhmm s.2 then (.invalidSchedule, loaded.2)
  else saving i fmt failing (loaded.1 ++ [entry]) loaded.2

/-- `apply_event` of `AddDns` (sync.rs:1517) and of `AddBlacklist` (sync.rs:1543). -/
def applyAdd (entry : ε) (failing : Option ℕ) (disk : Disk) : Response × Disk :=
  let loaded := loadOrDefault i fmt disk
  if loaded.1.any fun e => idOf e = idOf entry then (.done, loaded.2)
  else saving i fmt failing (loaded.1 ++ [entry]) loaded.2

/-- `apply_event` of `DeleteDns` (sync.rs:1534) and of `DeleteBlacklist` (sync.rs:1556). -/
def applyDelete (id : Text) (failing : Option ℕ) (disk : Disk) : Response × Disk :=
  let loaded := loadOrDefault i fmt disk
  saving i fmt failing (loaded.1.filter fun e => idOf e ≠ id) loaded.2

end

/-- A change to a store: an entry that the API adds, or an event. -/
inductive Change (ε : Type)
  | persistAndSwap (entry : ε)
  | addBlacklistHandler (entry : ε) (schedule : Option (Text × Text))
  | applyAdd (entry : ε)
  | applyDelete (id : Text)

namespace Change

variable {ε : Type}

/-- What a change reports, and the files afterwards. -/
def run (i : Integrity) (fmt : Format (List ε)) (idOf : ε → Text) (failing : Option ℕ)
    (disk : Disk) : Change ε → Response × Disk
  | persistAndSwap entry => Store.persistAndSwap i fmt entry failing disk
  | addBlacklistHandler entry schedule =>
    Store.addBlacklistHandler i fmt entry schedule failing disk
  | applyAdd entry => Store.applyAdd i fmt idOf entry failing disk
  | applyDelete id => Store.applyDelete i fmt idOf id failing disk

/-- The request has a schedule that is not one. -/
def refused : Change ε → Bool
  | addBlacklistHandler _ schedule => schedule.any fun s => !validHhmm s.1 || !validHhmm s.2
  | persistAndSwap _ | applyAdd _ | applyDelete _ => false

/-- What a change makes of an empty store. -/
def ofEmpty : Change ε → List ε
  | persistAndSwap entry | addBlacklistHandler entry _ | applyAdd entry => [entry]
  | applyDelete _ => []

end Change

/-! ## Without the store -/

section

variable {ε : Type} {i : Integrity} {fmt : Format (List ε)} {disk : Disk}

theorem writeMac_targets {content : Text} {op : FileOp StorePath Content}
    (h : op ∈ i.writeMac content) : StorePath.entries ∉ op.targets := by
  unfold Integrity.writeMac at h
  cases hkey : i.storeKey with
  | none => rw [hkey] at h; cases h
  | some key =>
    rw [hkey] at h
    simp only [Option.elim_some, mem_cons, not_mem_nil, or_false] at h
    rcases h with rfl | rfl | rfl <;> simp [FileOp.targets]

/-- `load` leaves the store as it is; a migration writes the MAC beside it. -/
theorem load_entries : (load i fmt disk).2 .entries = disk .entries := by
  have hverify : ∀ content, (i.verifyMac disk content).2 .entries = disk .entries := by
    intro content
    unfold Integrity.verifyMac
    cases hkey : i.storeKey with
    | none => rfl
    | some key =>
      cases disk .mac with
      | none =>
        simp only
        split_ifs
        · exact FileOp.runAll_of_not_target fun op hop => writeMac_targets hop
        · rfl
      | some stored =>
        simp only
        cases stored.readToString with
        | none => rfl
        | some text =>
          simp only
          split_ifs <;> rfl
  unfold load
  cases hentries : disk .entries with
  | none => exact hentries
  | some content =>
    simp only
    cases content.readToString with
    | none => exact hentries
    | some text =>
      have hsame := hverify text
      simp only
      rcases hv : i.verifyMac disk text with ⟨e | u, disk'⟩
      · rw [hv] at hsame
        exact hsame.trans hentries
      · rw [hv] at hsame
        simp only
        cases fmt.fromStr text with
        | none => exact hsame.trans hentries
        | some s => exact hsame.trans hentries

/-- The store after the first `k` operations of `save`: the fifth renames the new one over it. -/
theorem crashed_save_entries (entries : List ε) (k : ℕ) :
    FileOp.crashed emptyFile (save i fmt entries) k disk .entries =
      if k ≤ 4 then disk .entries else some (.text (fmt.toStringPretty entries)) := by
  split_ifs with hk
  · rw [FileOp.crashed, save, take_append_of_le_length hk]
    apply FileOp.runAll_of_not_target
    intro op hop
    have hmem := mem_of_mem_take hop
    simp only [writeEntries, mem_cons, not_mem_nil, or_false] at hmem
    rcases hmem with rfl | rfl | rfl | rfl <;> simp [FileOp.targets]
  · obtain ⟨m, rfl⟩ := Nat.exists_eq_add_of_le (not_le.mp hk)
    have htake : (save i fmt entries).take (4 + 1 + m) =
        writeEntries (fmt.toStringPretty entries) ++ [.rename .entriesTmp .entries] ++
          ([FileOp.other] ++ i.writeMac (fmt.toStringPretty entries)).take m := by
      have hlen : (writeEntries (fmt.toStringPretty entries) ++
          [FileOp.rename StorePath.entriesTmp .entries]).length = 4 + 1 := rfl
      rw [save, ← append_assoc, ← hlen, take_length_add_append]
    rw [FileOp.crashed, htake, FileOp.runAll, foldl_append]
    refine (FileOp.runAll_of_not_target fun op hop => ?_).trans ?_
    · rcases mem_append.mp (mem_of_mem_take hop) with h | h
      · rw [mem_singleton.mp h]
        simp [FileOp.targets]
      · exact writeMac_targets h
    · rfl

theorem length_save (entries : List ε) :
    (save i fmt entries).length = if i.storeKey.isSome then 9 else 6 := by
  unfold save Integrity.writeMac
  cases i.storeKey with
  | none => rfl
  | some key => rfl

/-- Saving reports an error and leaves the store exactly if it fails before the rename, or at the
    MAC where the store already had the text that is saved. -/
theorem saving_spares_iff (failing : Option ℕ) (entries : List ε) :
    ((saving i fmt failing entries disk).1.isError = true ∧
        (saving i fmt failing entries disk).2 .entries = disk .entries) ↔
      ∃ k, failing = some k ∧ (k ≤ 4 ∨ i.storeKey.isSome ∧ 6 ≤ k ∧ k ≤ 8 ∧
        disk .entries = some (.text (fmt.toStringPretty entries))) := by
  unfold saving
  cases failing with
  | none => simp [Response.isError]
  | some k =>
    simp only [length_save, Option.some.injEq, exists_eq_left']
    by_cases hkey : i.storeKey.isSome
    · simp only [hkey, if_true, true_and]
      split_ifs with hignored
      · simp only [Response.isError, Bool.false_eq_true, false_and, false_iff]
        omega
      · simp only [Response.isError, true_and, crashed_save_entries]
        split_ifs with hk
        · simp [hk]
        · have hrange : 6 ≤ k ∧ k ≤ 8 := by omega
          simp only [hk, hrange, true_and, false_or]
          exact eq_comm
    · simp only [hkey, Bool.false_eq_true, if_false, false_and, or_false]
      split_ifs with hignored
      · simp only [Response.isError, Bool.false_eq_true, false_and, false_iff]
        omega
      · have hk : k ≤ 4 := by omega
        simp [Response.isError, crashed_save_entries, hk]

theorem loadOrDefault_of_error {e : StoreError} (h : (load i fmt disk).1 = .error e) :
    loadOrDefault i fmt disk = ([], (load i fmt disk).2) := by
  unfold loadOrDefault
  rcases hl : load i fmt disk with ⟨r, disk'⟩
  rw [hl] at h
  obtain rfl : r = .error e := h
  rfl

/-- A change whose `load` fails is refused for its schedule, or saves what it makes of an empty
    store. -/
theorem run_of_failed {e : StoreError} (h : (load i fmt disk).1 = .error e) (c : Change ε)
    (idOf : ε → Text) (failing : Option ℕ) :
    c.run i fmt idOf failing disk =
      if c.refused then (.invalidSchedule, (load i fmt disk).2)
      else saving i fmt failing c.ofEmpty (load i fmt disk).2 := by
  cases c with
  | persistAndSwap entry =>
    simp only [Change.run, persistAndSwap, loadOrDefault_of_error h]
    rfl
  | addBlacklistHandler entry schedule =>
    simp only [Change.run, addBlacklistHandler, loadOrDefault_of_error h]
    rfl
  | applyAdd entry =>
    simp only [Change.run, applyAdd, loadOrDefault_of_error h]
    rfl
  | applyDelete id =>
    simp only [Change.run, applyDelete, loadOrDefault_of_error h]
    rfl

/-- A change leaves a store that cannot be loaded as it is, and reports an error, exactly if
    there is no such store, or its schedule is refused, or the save fails before it renames the
    new store over the old one or, where both have the same text, at the MAC. -/
theorem spared_iff (i : Integrity) (fmt : Format (List ε)) (idOf : ε → Text) (c : Change ε)
    (failing : Option ℕ) (disk : Disk) :
    (∀ e, (load i fmt disk).1 = .error e →
        (c.run i fmt idOf failing disk).1.isError = true ∧
          (c.run i fmt idOf failing disk).2 .entries = disk .entries) ↔
      (∃ entries, (load i fmt disk).1 = .ok entries) ∨ c.refused = true ∨
        ∃ k, failing = some k ∧ (k ≤ 4 ∨ i.storeKey.isSome ∧ 6 ≤ k ∧ k ≤ 8 ∧
          disk .entries = some (.text (fmt.toStringPretty c.ofEmpty))) := by
  cases hload : (load i fmt disk).1 with
  | ok entries => simp
  | error e =>
    have hsame : (load i fmt disk).2 .entries = disk .entries := load_entries
    simp only [Except.error.injEq, forall_eq', reduceCtorEq, exists_false]
    rw [run_of_failed hload]
    by_cases hrefused : c.refused = true
    · simp [hrefused, Response.isError, hsame]
    · simp only [hrefused, Bool.false_eq_true, false_or]
      rw [← hsame]
      exact saving_spares_iff failing c.ofEmpty

end

/-! ## A store that is lost -/

/-- Stores whose entries are single letters, written between brackets. -/
def letterFormat : Format (List Char) where
  toStringPretty entries := ('[' :: entries) ++ [']']
  fromStr t := if t.head? = some '[' ∧ t.getLast? = some ']' then some t.tail.dropLast else none
  empty := []
  fromStr_toStringPretty entries := by
    rw [if_pos ⟨rfl, List.getLast?_concat⟩]
    exact congrArg some List.dropLast_concat

/-- A store with two entries, beside a MAC that does not fit. -/
def tornStore : Disk
  | .entries => some (.text ['[', 'a', 'b', ']'])
  | .mac => some (.text ['0'])
  | .entriesTmp | .macTmp => none

/-- The MAC of the store does not fit, so `load` refuses it; `POST /dns` answers that the entry was
    added, and the store has this entry alone. -/
theorem store_wiped :
    (load sampleIntegrity letterFormat tornStore).1 = .error .mismatch ∧
      (Change.run sampleIntegrity letterFormat (fun c => [c]) none tornStore
        (.persistAndSwap 'c')).1 = .done ∧
      (Change.run sampleIntegrity letterFormat (fun c => [c]) none tornStore
        (.persistAndSwap 'c')).2 .entries = some (.text ['[', 'c', ']']) := by
  decide +kernel

end Runbound.Store
