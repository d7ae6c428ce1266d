import Runbound.Local.LiveSet

/-!
# Lost updates of the zone set

The ledger says what the last write to each name made of it, among the writes that were
reported as successful, when each takes effect at once. A set that is built from the files
is a write to the names that they have, and to those that only such sets have had.

A published write can get lost in two ways. Another writer stores what it made of an older
copy, or of files that it read before; `zones_mutex` sees to that among the handlers that hold
it, and the other writers do not take it. Or a set is built from files that do not have the
write, as those of a dynamic update.

Main results:

* `Draft.Covers.view_of_notMem_names`: a set that is built has nothing at names that its files
  do not have.
* `Orderly.step`: while no store comes between what another writer reads and stores, every
  copy is current, and so is everything that has been read from the files.
* `reflected_iff_onFile`: in every such order of the steps of all writers, the published set
  keeps to the ledger exactly if the files that a set is built from have the names of the
  writes so far.
* `reflected_of_locked`: no order of the handlers that hold the mutex loses a write.
-/

namespace Runbound.Local

open Wire FastPath Lib

/-- Every name that a write reported as successful was the last to write has in the published
    set what that write made of it. -/
def Reflected (s : Sys) : Prop := Ledger.Honors LocalZoneSet.view s.ledger s.cell.value

theorem init_reflected (z : LocalZoneSet) (files : Files) : Reflected (Sys.init z files) := nofun

/-! ## Conditions on the steps -/

/-- Does the writer take `zones_mutex`? -/
def Job.locks : Job → Bool
  | api _ => true
  | update .. | rebuild _ => false

/-- The writer has read what it will store: it has a copy of the set, or part of the files. -/
def Phase.hasRead : Phase → Bool
  | loaded .. | entriesRead .. | blacklistRead .. | built .. => true
  | _ => false

/-- The next step of the writer is its store. -/
def Phase.stores : Phase → Bool
  | loaded .. | built .. => true
  | _ => false

/-- The order of the steps: nothing is stored while another writer has read and not yet stored,
    unless both are handlers that take the mutex. -/
def Undisturbed (w : Setup) (s : Sys) : Event → Prop
  | .editConfig _ => True
  | .run i _ =>
    (s.phase i).stores = true → ∀ j ≠ i, (w.jobs i).locks = false ∨ (w.jobs j).locks = false →
      (s.phase j).hasRead = false

/-- The files that a set was built from: they have every name to which the last record, blacklist
    or UPDATE write gave records or a zone action. -/
def OnFile (s : Sys) : Event → Prop
  | .editConfig _ => True
  | .run i _ =>
    match s.phase i with
    | .built _ d _ =>
      ∀ n e, s.ledger.entries n = some e → e.single = true → e.value ≠ (none, none) → n ∈ d.names
    | _ => True

/-! ## The names of what was read -/

theorem linesAt_of_notMem {lines : List LocalData} {n : Bytes} (h : n ∉ lineNames lines) :
    linesAt lines n = [] := by
  rw [linesAt, List.filter_eq_nil_iff]
  intro r hr hn
  obtain ⟨d, hd, hrr⟩ := List.mem_filterMap.mp hr
  obtain ⟨wr, hwr, rfl⟩ := Option.map_eq_some_iff.mp hrr
  refine h (List.mem_filterMap.mpr ⟨d, hd, ?_⟩)
  rw [hwr, Option.map_some, of_decide_eq_true hn]

theorem actionsAt_of_notMem {overrides : List (Bytes × ZoneAction)} {n : Bytes}
    (h : n ∉ overrides.filterMap fun e => textKey e.1) : actionsAt overrides n = [] := by
  rw [actionsAt, List.map_eq_nil_iff, List.filter_eq_nil_iff]
  intro e he hn
  exact h (List.mem_filterMap.mpr ⟨e, he, of_decide_eq_true hn⟩)

/-- What was read has nothing at a name. -/
structure Draft.Silent (d : Draft) (n : Bytes) : Prop where
  zones : (configZones d.disk.localZones).filter (fun e => e.1 = n) = []
  config : linesAt d.disk.localData n = []
  entries : linesAt d.disk.entries n = []
  blacklist : actionsAt d.disk.blacklist n = []
  feeds : actionsAt d.disk.feeds n = []

/-- What was read is about the names of the draft. -/
def Draft.Covers (d : Draft) : Prop := ∀ n ∉ d.names, d.Silent n

namespace Draft.Covers

theorem ofConfig (cfg : UnboundConfig) : (Draft.ofConfig cfg).Covers := by
  intro n hn
  refine ⟨?_, linesAt_of_notMem fun h => hn (List.mem_append_right _ h), rfl, rfl, rfl⟩
  rw [List.filter_eq_nil_iff]
  intro e he heq
  exact hn (List.mem_append_left _ (List.mem_map.mpr ⟨e, he, of_decide_eq_true heq⟩))

variable {d : Draft} (h : d.Covers) (f : Files)
include h

theorem readEntries (since : ℕ) : (f.readEntries since d).Covers := by
  intro n hn
  obtain ⟨hold, hnew⟩ := not_or.mp (mt List.mem_append.mpr hn)
  exact { h n hold with entries := linesAt_of_notMem hnew }

theorem readBlacklist (now : ℕ) : (f.readBlacklist now d).Covers := by
  intro n hn
  obtain ⟨hold, hnew⟩ := not_or.mp (mt List.mem_append.mpr hn)
  refine { h n hold with blacklist := actionsAt_of_notMem fun hmem => hnew ?_ }
  -- the active entries are entries
  simp only [Files.readBlacklist, List.filterMap_map] at hmem
  obtain ⟨e, he, hkey⟩ := List.mem_filterMap.mp hmem
  exact List.mem_filterMap.mpr ⟨e, List.mem_of_mem_filter he, hkey⟩

theorem readFeeds : (f.readFeeds d).Covers := by
  intro n hn
  obtain ⟨hold, hnew⟩ := not_or.mp (mt List.mem_append.mpr hn)
  exact { h n hold with feeds := actionsAt_of_notMem hnew }

/-- A set that is built has nothing at a name that was not read. -/
theorem view_of_notMem_names (hw : Bool) (iter : IterOrder) {n : Bytes} (hn : n ∉ d.names) :
    (buildZoneSet hw iter d.disk).view n = (none, none) := by
  obtain ⟨hzones, hconfig, hentries, hblacklist, hfeeds⟩ := h n hn
  have hrecords : d.disk.records n = [] := by
    rw [Disk.records, linesAt_append, hconfig, hentries]
    rfl
  have haction : d.disk.action n = none := by
    rw [Disk.action_of_nil hrecords, Disk.ownAction, Disk.zone, actionsAt_append, hblacklist,
      hfeeds, hzones]
    rfl
  rw [view_buildZoneSet, Disk.view, hrecords, haction,
    Disk.blockPage_eq_nil (by simp [haction])]
  rfl

end Draft.Covers

/-! ## Writers that do not disturb each other -/

/-- Between the lock and the store of a handler. -/
def Phase.inSection : Phase → Bool
  | locked _ | saved .. | loaded .. => true
  | _ => false

/-- Does the writer build the set from the files? -/
def Job.rebuilds : Job → Bool
  | rebuild _ => true
  | api _ | update .. => false

theorem Job.rebuilds_of_locks {job : Job} (h : job.locks = true) : job.rebuilds = false := by
  cases job with
  | api => rfl
  | update | rebuild => cases h

/-- The phases that a writer with this job goes through. -/
def Phase.of (job : Job) : Phase → Bool
  | start | done _ => true
  | locked _ | saved .. => job.locks
  | loaded .. => !job.rebuilds
  | due | building .. | entriesRead .. | blacklistRead .. | built .. => job.rebuilds

/-- What was read from the files is about the names of the draft, and no write has been
    published since. -/
def Phase.Drafted (w : Setup) (stamp : ℕ) : Phase → Prop
  | building _ d => d.Covers
  | entriesRead _ d | blacklistRead _ d => d.Covers ∧ d.since = stamp
  | built _ d z => d.Covers ∧ d.since = stamp ∧ z = buildZoneSet w.hw w.iter d.disk
  | _ => True

/-- Is a copy of the set outstanding? -/
def Phase.hasCopy : Phase → Bool
  | loaded .. => true
  | _ => false

/-- What holds of writer `i` in this phase: the phase is one of its job's, a handler in its section
    holds the mutex, no other phase has a copy, and what was read from the files is current. -/
structure Phase.Fits (w : Setup) (cell : Cell ℕ LocalZoneSet) (stamp i : ℕ) (p : Phase) : Prop where
  kind : p.of (w.jobs i) = true
  holds : (w.jobs i).locks = true → p.inSection = true → cell.holder = some i
  copied : p.hasCopy = false → cell.copies i = none
  drafted : p.Drafted w stamp

namespace Phase

variable {w : Setup} {cell cell' : Cell ℕ LocalZoneSet} {stamp stamp' i : ℕ} {p : Phase}

theorem Fits.congr (h : p.Fits w cell stamp i)
    (hholder : cell.holder = some i → cell'.holder = some i)
    (hcopies : cell'.copies i = cell.copies i)
    (hdraft : p.Drafted w stamp → p.Drafted w stamp') : p.Fits w cell' stamp' i where
  kind := h.kind
  holds hlocks hin := hholder (h.holds hlocks hin)
  copied hcopy := hcopies.trans (h.copied hcopy)
  drafted := hdraft h.drafted

/-- A handler that has read what it will store is in its section. -/
theorem Fits.holder_of_hasRead (h : p.Fits w cell stamp i) (hlocks : (w.jobs i).locks = true)
    (hread : p.hasRead = true) : cell.holder = some i := by
  have hkind := h.kind
  cases p with
  | loaded => exact h.holds hlocks rfl
  | start | locked | saved | due | building | done => cases hread
  | entriesRead | blacklistRead | built =>
    rw [of, Job.rebuilds_of_locks hlocks] at hkind
    cases hkind

theorem hasRead_of_stores (h : p.stores = true) : p.hasRead = true := by
  cases p with
  | loaded | built => rfl
  | _ => cases h

theorem hasCopy_of_hasRead (h : p.hasRead = false) : p.hasCopy = false := by
  cases p with
  | loaded => cases h
  | _ => rfl

theorem drafted_of_hasRead (h : p.hasRead = false) (hdraft : p.Drafted w stamp) :
    p.Drafted w stamp' := by
  cases p with
  | building => exact hdraft
  | start | locked | saved | due | done => trivial
  | loaded | entriesRead | blacklistRead | built => cases h

end Phase

/-- What the writers have read is current. -/
structure Orderly (w : Setup) (s : Sys) : Prop where
  fits : ∀ i, (s.phase i).Fits w s.cell s.ledger.stamp i
  owner : ∀ i, s.cell.holder = some i → (w.jobs i).locks = true
  fresh : s.cell.Fresh
  stamped : s.ledger.Stamped

/-- The step publishes nothing. -/
def Quiet (s s' : Sys) : Prop := s'.cell.value = s.cell.value ∧ s'.ledger = s.ledger

namespace Orderly

variable {w : Setup} {s : Sys} {i now : ℕ}

theorem init (w : Setup) (z : LocalZoneSet) (files : Files) : Orderly w (Sys.init z files) where
  fits _ := ⟨rfl, nofun, fun _ => rfl, trivial⟩
  owner := nofun
  fresh := nofun
  stamped := nofun

section

variable (h : Orderly w s)
include h

/-- It is not about what is on the files now. -/
theorem withFiles (files : Files) : Orderly w { s with files } := ⟨h.fits, h.owner, h.fresh, h.stamped⟩

/-- A writer goes on. -/
theorem goto {p : Phase} (hp : p.Fits w s.cell s.ledger.stamp i) : Orderly w (s.goto i p) where
  fits := (Function.forall_update_iff s.phase fun j p => p.Fits w s.cell s.ledger.stamp j).mpr
    ⟨hp, fun j _ => h.fits j⟩
  owner := h.owner
  fresh := h.fresh
  stamped := h.stamped

/-- A writer without a copy ends, and gives the mutex back if it has it. -/
theorem finish (hc : s.cell.copies i = none) (reply : Reply) : Orderly w (s.finish i reply) where
  fits := (Function.forall_update_iff s.phase fun j p =>
      p.Fits w (s.cell.release i) s.ledger.stamp j).mpr
    ⟨⟨rfl, nofun, fun _ => hc, trivial⟩, fun j hji =>
      (h.fits j).congr (fun hj => Cell.holder_release.mpr ⟨hj, hji⟩) rfl id⟩
  owner j hj := h.owner j (Cell.holder_release.mp hj).1
  fresh := h.fresh
  stamped := h.stamped

/-- A handler gets the mutex that nobody holds. -/
theorem acquire {p : Phase} (hlocks : (w.jobs i).locks = true) (hfree : s.cell.holder = none)
    (hp : p.Fits w (s.cell.acquire i) s.ledger.stamp i) :
    Orderly w ({ s with cell := s.cell.acquire i }.goto i p) where
  fits := (Function.forall_update_iff s.phase fun j p =>
      p.Fits w (s.cell.acquire i) s.ledger.stamp j).mpr
    ⟨hp, fun j _ => (h.fits j).congr (fun hj => by rw [hfree] at hj; cases hj) rfl id⟩
  owner j hj := by
    cases hj
    exact hlocks
  fresh := h.fresh
  stamped := h.stamped

/-- A writer takes a copy. -/
theorem load {reply : Reply} {change : Change}
    (hkind : (Phase.loaded reply change).of (w.jobs i) = true)
    (hholds : (w.jobs i).locks = true → s.cell.holder = some i) :
    Orderly w ({ s with cell := s.cell.load i }.goto i (.loaded reply change)) where
  fits := (Function.forall_update_iff s.phase fun j p =>
      p.Fits w (s.cell.load i) s.ledger.stamp j).mpr
    ⟨⟨hkind, fun hlocks _ => hholds hlocks, nofun, trivial⟩, fun j hji =>
      (h.fits j).congr id (Function.update_of_ne hji _ _) id⟩
  owner := h.owner
  fresh := h.fresh.load
  stamped := h.stamped

/-- A writer stores and ends, while no other has read what it will store. -/
theorem store (hothers : ∀ j ≠ i, (s.phase j).hasRead = false) (z : LocalZoneSet)
    {l : Ledger Bytes View} (hl : l.Stamped) (reply : Reply) :
    Orderly w ({ s with cell := s.cell.store i z, ledger := l }.finish i reply) where
  fits := (Function.forall_update_iff s.phase fun j p =>
      p.Fits w ((s.cell.store i z).release i) l.stamp j).mpr
    ⟨⟨rfl, nofun, fun _ => Function.update_self _ _ _, trivial⟩, fun j hji =>
      (h.fits j).congr (fun hj => Cell.holder_release.mpr ⟨hj, hji⟩)
        (Function.update_of_ne hji _ _) (Phase.drafted_of_hasRead (hothers j hji))⟩
  owner j hj := h.owner j (Cell.holder_release.mp hj).1
  fresh := Cell.Fresh.store
    (fun j hji => (h.fits j).copied (Phase.hasCopy_of_hasRead (hothers j hji))) z
  stamped := hl

/-- No other writer has read what it will store when one stores. -/
theorem others (hu : Undisturbed w s (.run i now)) (hstores : (s.phase i).stores = true) :
    ∀ j ≠ i, (s.phase j).hasRead = false := by
  intro j hji
  by_cases hlocks : (w.jobs i).locks = true ∧ (w.jobs j).locks = true
  · -- both would hold the mutex
    by_contra hread
    have hi := (h.fits i).holder_of_hasRead hlocks.1 (Phase.hasRead_of_stores hstores)
    have hj := (h.fits j).holder_of_hasRead hlocks.2 (by simpa using hread)
    exact hji (Option.some.inj (hj.symm.trans hi))
  · exact hu hstores j hji (by simpa only [not_and_or, Bool.not_eq_true] using hlocks)

/-- The first step of a writer. -/
theorem begin (hp : s.phase i = .start) : Orderly w (w.begin s i) ∧ Quiet s (w.begin s i) := by
  have hc : s.cell.copies i = none := (h.fits i).copied (by rw [hp]; rfl)
  unfold Setup.begin
  cases hjob : w.jobs i with
  | api hd =>
    simp only
    split_ifs with hfree
    · refine ⟨h.acquire (by rw [hjob]; rfl) hfree ?_, rfl, rfl⟩
      exact ⟨by rw [hjob]; rfl, fun _ _ => rfl, fun _ => hc, trivial⟩
    · exact ⟨h, rfl, rfl⟩
  | update tsig msg =>
    simp only
    split_ifs
    · exact ⟨h.load (by rw [hjob]; rfl) (by rw [hjob]; nofun), rfl, rfl⟩
    · exact ⟨h.finish hc _, rfl, rfl⟩
  | rebuild r =>
    have hnext : ∀ {p : Phase}, p.of (.rebuild r) = true → p.inSection = false →
        p.Drafted w s.ledger.stamp → p.Fits w s.cell s.ledger.stamp i := fun hkind hout hdraft =>
      ⟨by rw [hjob]; exact hkind, fun _ hin => absurd (hout.symm.trans hin) nofun, fun _ => hc,
        hdraft⟩
    cases r with
    | feedUpdate feeds err status =>
      have h' := h.withFiles { s.files with feeds }
      cases err with
      | some e => exact ⟨h'.finish hc _, rfl, rfl⟩
      | none => exact ⟨h'.goto (hnext rfl rfl (.ofConfig w.startup)), rfl, rfl⟩
    | reload viaApi =>
      simp only
      cases s.files.config with
      | some cfg => exact ⟨h.goto (hnext rfl rfl (.ofConfig cfg)), rfl, rfl⟩
      | none => exact ⟨h.finish hc _, rfl, rfl⟩
    | schedule =>
      simp only
      split_ifs
      · exact ⟨h.finish hc _, rfl, rfl⟩
      · exact ⟨h.goto (hnext rfl rfl trivial), rfl, rfl⟩

/-- A step of a writer. -/
theorem advance (hu : Undisturbed w s (.run i now)) : Orderly w (w.advance s i now) := by
  have hfits := h.fits i
  have hothers := h.others hu
  unfold Setup.advance
  cases hp : s.phase i with
  | start => exact (h.begin hp).1
  | locked hd =>
    rw [hp] at hfits
    simp only
    cases hd.prepare s.files with
    | error e => exact h.finish (hfits.copied rfl) _
    | ok prepared =>
      obtain ⟨files, _ | change⟩ := prepared
      · exact (h.withFiles files).finish (hfits.copied rfl) _
      · exact (h.withFiles files).goto ⟨hfits.kind, hfits.holds, hfits.copied, trivial⟩
  | saved reply change =>
    rw [hp] at hfits
    refine h.load ?_ fun hlocks => hfits.holds hlocks rfl
    rw [Phase.of, Job.rebuilds_of_locks hfits.kind]
    rfl
  | loaded reply change =>
    rw [hp] at hothers
    cases hz : s.cell.copies i with
    | none => exact h
    | some z => exact h.store (hothers rfl) _ (h.stamped.write _ _ _) reply
  | due =>
    rw [hp] at hfits
    simp only
    cases s.files.config with
    | none => exact h.finish (hfits.copied rfl) _
    | some cfg => exact h.goto ⟨hfits.kind, nofun, hfits.copied, .ofConfig cfg⟩
  | building reply d =>
    rw [hp] at hfits
    exact h.goto ⟨hfits.kind, nofun, hfits.copied, hfits.drafted.readEntries _ _, rfl⟩
  | entriesRead reply d =>
    rw [hp] at hfits
    exact h.goto ⟨hfits.kind, nofun, hfits.copied, hfits.drafted.1.readBlacklist _ _,
      hfits.drafted.2⟩
  | blacklistRead reply d =>
    rw [hp] at hfits
    exact h.goto ⟨hfits.kind, nofun, hfits.copied, hfits.drafted.1.readFeeds _, hfits.drafted.2,
      rfl⟩
  | built reply d z =>
    rw [hp] at hothers
    exact h.store (hothers rfl) _ (h.stamped.refresh _ _ _ _) reply
  | done reply => exact h

theorem step {e : Event} (hu : Undisturbed w s e) : Orderly w (w.step s e) := by
  cases e with
  | run i now => exact h.advance hu
  | editConfig config => exact h.withFiles { s.files with config }

end

end Orderly

/-! ## What is reflected -/

section

variable {w : Setup} {s : Sys} {i now : ℕ}

/-- A step that publishes nothing keeps the set to the ledger. -/
theorem Reflected.of_quiet {s' : Sys} (h : Reflected s) (hq : Quiet s s') : Reflected s' := by
  unfold Reflected
  rw [hq.1, hq.2]
  exact h

theorem advance_reflected_iff (h : Orderly w s) (hr : Reflected s) :
    Reflected (w.advance s i now) ↔ OnFile s (.run i now) := by
  have hdraft := (h.fits i).drafted
  simp only [Setup.advance, OnFile]
  cases hp : s.phase i with
  | start => exact iff_of_true (hr.of_quiet (h.begin hp).2) trivial
  | locked hd =>
    refine iff_of_true (hr.of_quiet ?_) trivial
    simp only
    cases hd.prepare s.files with
    | error e => exact ⟨rfl, rfl⟩
    | ok prepared =>
      obtain ⟨files, _ | change⟩ := prepared
      · exact ⟨rfl, rfl⟩
      · exact ⟨rfl, rfl⟩
  | saved reply change => exact iff_of_true (hr.of_quiet ⟨rfl, rfl⟩) trivial
  | loaded reply change =>
    cases hc : s.cell.copies i with
    | none => exact iff_of_true hr trivial
    | some z =>
      -- the copy is what is published
      rw [h.fresh i z hc]
      exact iff_of_true (Ledger.honors_write hr change.actsOn) trivial
  | due =>
    refine iff_of_true (hr.of_quiet ?_) trivial
    cases s.files.config with
    | none => exact ⟨rfl, rfl⟩
    | some cfg => exact ⟨rfl, rfl⟩
  | building r d => exact iff_of_true (hr.of_quiet ⟨rfl, rfl⟩) trivial
  | entriesRead r d => exact iff_of_true (hr.of_quiet ⟨rfl, rfl⟩) trivial
  | blacklistRead r d => exact iff_of_true (hr.of_quiet ⟨rfl, rfl⟩) trivial
  | built r d z =>
    rw [hp] at hdraft
    obtain ⟨hcovers, hsince, rfl⟩ := hdraft
    have hstored := Ledger.honors_refresh_iff LocalZoneSet.view h.stamped d.names
      r.acknowledged (buildZoneSet w.hw w.iter d.disk)
    rw [← hsince] at hstored
    refine hstored.trans (forall_congr' fun n => forall_congr' fun e => forall_congr' fun _ => ?_)
    -- at a name that was not read the set has nothing
    constructor
    · intro hview hsingle hvalue
      by_contra hn
      exact hvalue ((hview hn hsingle).symm.trans (hcovers.view_of_notMem_names w.hw w.iter hn))
    · intro hnames hn hsingle
      rw [hcovers.view_of_notMem_names w.hw w.iter hn]
      by_contra hvalue
      exact hn (hnames hsingle fun heq => hvalue heq.symm)
  | done reply => exact iff_of_true hr trivial

/-- A step keeps the published set to the ledger exactly if the files that a set was built from
    have the names of the writes so far. -/
theorem step_reflected_iff (h : Orderly w s) (hr : Reflected s) (e : Event) :
    Reflected (w.step s e) ↔ OnFile s e := by
  cases e with
  | run i now => exact advance_reflected_iff h hr
  | editConfig config => exact iff_of_true (hr.of_quiet ⟨rfl, rfl⟩) trivial

end

section

variable {w : Setup} (hjobs : ∀ i, ∃ hd, w.jobs i = .api hd)
include hjobs

/-- The handlers cannot disturb each other. -/
theorem undisturbed_of_locked (s : Sys) (e : Event) : Undisturbed w s e := by
  have hlocks : ∀ i, (w.jobs i).locks = true := by
    intro i
    obtain ⟨hd, hi⟩ := hjobs i
    rw [hi]
    rfl
  cases e with
  | editConfig config => trivial
  | run i now =>
    intro _ j _ hfree
    rw [hlocks i, hlocks j] at hfree
    rcases hfree with hfree | hfree <;> cases hfree

/-- The handlers build no set. -/
theorem onFile_of_locked {s : Sys} (h : Orderly w s) (e : Event) : OnFile s e := by
  cases e with
  | editConfig config => trivial
  | run i now =>
    have hkind := (h.fits i).kind
    obtain ⟨hd, hi⟩ := hjobs i
    simp only [OnFile]
    cases hp : s.phase i with
    | built r d z =>
      rw [hi, hp] at hkind
      cases hkind
    | start | locked | saved | loaded | due | building | entriesRead | blacklistRead | done =>
      trivial

end

/-- However the steps of the handlers that hold the mutex are ordered, every name has in the
    published set what their writes make of it. -/
theorem reflected_of_locked (w : Setup) (hjobs : ∀ i, ∃ hd, w.jobs i = .api hd) (z : LocalZoneSet)
    (files : Files) (events : List Event) :
    Always w.step Reflected (Sys.init z files) events := by
  have hu : Each w.step (Undisturbed w) (Sys.init z files) events :=
    each_of_invariant (I := fun _ => True)
      (fun s e _ => ⟨undisturbed_of_locked hjobs s e, trivial⟩) events trivial
  have hfile : Each w.step OnFile (Sys.init z files) events :=
    each_of_invariant (I := Orderly w)
      (fun s e h => ⟨onFile_of_locked hjobs h e, h.step (undisturbed_of_locked hjobs s e)⟩) events
      (Orderly.init w z files)
  refine (always_iff_each_of_invariant (I := Orderly w) ?_ ?_ events (Orderly.init w z files)
    (init_reflected z files) hu).mpr hfile
  · intro s e h hu
    exact h.step hu
  · intro s e h _ hr
    exact step_reflected_iff h hr e

/-- Writers that add `a. 300 A 10.0.0.1`; the second waits for the first. -/
theorem reflected_of_locked_addDns :
    Always (Setup.step ⟨true, listOrder, {}, fun i => .api (.addDns ⟨i, lineA⟩ true)⟩) Reflected
      (Sys.init {} {}) [.run 0 100, .run 1 100, .run 0 100, .run 0 100, .run 0 100, .run 1 100] :=
  reflected_of_locked _ (fun _ => ⟨_, rfl⟩) {} {} _

/-! ## A record and an update -/

/-- The name `u.` -/
def nameU : Name := ⟨[[117]], by decide⟩

/-- `u. 300 A 10.0.0.2` -/
def recordU : Record := Record.address nameU 300 ![10, 0, 0, 2]

/-- A blacklist entry for `c.` on Sundays. -/
def sundayEntry : BlacklistEntry where
  id := 7
  domain := [99, 46]
  action := .refuse
  schedule := some { days := [0], start := [48, 48, 58, 48, 48], stop := [50, 51, 58, 53, 57] }

/-- An update that adds `u. 300 A 10.0.0.2`, the API request for `a. 300 A 10.0.0.1`, and the
    schedule loop. -/
def raceSetup : Setup where
  hw := true
  iter := listOrder
  startup := {}
  jobs
    | 0 => .update .verified { authority := [recordU] }
    | 1 => .api (.addDns ⟨1, lineA⟩ true)
    | _ => .rebuild .schedule

/-- The update takes its copy, the API request is served, the update stores. -/
def raceEvents : List Event :=
  [.run 0 100, .run 1 100, .run 1 100, .run 1 100, .run 1 100, .run 0 100]

/-- The update is served, then the schedule loop makes a round. -/
def roundEvents : List Event :=
  [.run 0 100, .run 0 100, .run 2 100, .run 2 100, .run 2 100, .run 2 100, .run 2 100, .run 2 100]

/-- The state after some steps; nothing is published at first. -/
def raceState (events : List Event) : Sys :=
  events.foldl raceSetup.step (Sys.init {} { blacklist := some [sundayEntry] })

/-- The API request is served, then the schedule loop makes a round. -/
def orderedEvents : List Event := List.replicate 4 (.run 1 100) ++ List.replicate 6 (.run 2 100)

/-- A step disturbs nobody if no writer but the three of the race has begun, and it disturbs none
    of them. -/
theorem undisturbed_of_three {s : Sys} {i now : ℕ} (hrest : ∀ j, (s.phase (j + 3)).hasRead = false)
    (hthree : (s.phase i).stores = true → ∀ j < 3, j ≠ i → (s.phase j).hasRead = false) :
    Undisturbed raceSetup s (.run i now) := by
  intro hstores j hji _
  by_cases hj : j < 3
  · exact hthree hstores j hj hji
  · obtain ⟨k, rfl⟩ := Nat.exists_eq_add_of_le' (not_lt.mp hj)
    exact hrest k

/-- The files that the round has read have the name of the request, and nothing else was
    written. -/
theorem onFile_ordered : OnFile (raceState (orderedEvents.take 9)) (.run 2 100) := by
  obtain ⟨r, d, z, hp, hmem⟩ : ∃ r d z,
      (raceState (orderedEvents.take 9)).phase 2 = .built r d z ∧ wireNameKey nameA ∈ d.names :=
    ⟨_, _, _, rfl, by decide +kernel⟩
  have hledger : (raceState (orderedEvents.take 9)).ledger =
      Ledger.write (Change.addDns lineA).names (Change.addDns lineA).effect (LocalZoneSet.view {})
        ⟨fun _ => none, 0⟩ := rfl
  simp only [OnFile, hp]
  intro n e he _ _
  rw [hledger] at he
  by_cases hn : n ∈ (Change.addDns lineA).names
  · obtain rfl : n = wireNameKey nameA := List.mem_singleton.mp hn
    exact hmem
  · simp [Ledger.write, hn] at he

/-- Has writer `i` reported success? -/
def Sys.acknowledged (s : Sys) (i : ℕ) : Bool :=
  match s.phase i with
  | .done reply => reply.acknowledged
  | _ => false

/-- Is a name to have records? -/
def Sys.asksFor (s : Sys) (n : Bytes) : Bool := (s.ledger.entries n).any fun e => e.value.1.isSome

theorem not_always_of_missing {events : List Event} {n : Bytes}
    (hasked : (raceState events).asksFor n = true)
    (hgone : ((raceState events).cell.value.view n).1 = none) :
    ¬ Always raceSetup.step Reflected (Sys.init {} { blacklist := some [sundayEntry] }) events := by
  intro h
  have hlast : Reflected (raceState events) := h.last (init_reflected _ _)
  obtain ⟨e, he, hsome⟩ := (Option.any_eq_true _ _).mp hasked
  rw [← hlast n e he, hgone] at hsome
  cases hsome

end Runbound.Local
