import Runbound.Local.CnameChain
import Runbound.Local.LostUpdates

/-!
# Which names exist (`dns/local.rs`, `dns/ddns.rs`, `api/mod.rs`)

A name exists for `answer_local` if the record store has an entry for it. The API removes an
entry with its last record; an update that deletes a record set or a record leaves it, empty.

Results:
* `existence_of_run`: while no update empties an entry, names exist by their records; and the
  answers follow where no name between a zone and a stored name is without records.
* `emptied_name_exists`: a name whose only record an update has deleted.
-/

namespace Runbound.Local

open Wire Lib Rcode Class

/-! ## Specification -/

/-- A name without records above one with records. -/
def EmptyNonTerminal (z : LocalZoneSet) (n : Bytes) : Prop :=
  z.recordsAt n = [] ∧ ∃ p m : Name, wireNameKey p = n ∧ z.recordsAt (wireNameKey m) ≠ [] ∧
    p.labels <:+ m.labels

/-- The zone answers from its records. -/
def ServesRecords (a : ZoneAction) : Prop := a = .static ∨ a = .redirect

/-- Existence follows records, in the store and in the answers. -/
structure ExistenceFollows (z : LocalZoneSet) : Prop where
  store : ∀ n, z.nameHasRecordsWire n = true ↔ z.recordsAt n ≠ []
  /-- A name without records and with none below is not answered NOERROR. -/
  absent : ∀ {m : Message} {q : Question} {core : Message} {a : ZoneAction},
    m.firstQuestion = some q → answerLocal m z = some (core, a) →
    z.recordsAt (lower q.name.wire) = [] → ¬ EmptyNonTerminal z (lower q.name.wire) →
    core.header.rcodeLow.val =
      if a = .refuse then REFUSED.val else NXDOMAIN.val
  /-- An empty non-terminal is. -/
  between : ∀ {m : Message} {q : Question} {core : Message} {a : ZoneAction},
    m.firstQuestion = some q → answerLocal m z = some (core, a) → ServesRecords a →
    EmptyNonTerminal z (lower q.name.wire) → core.header.rcodeLow.val = NOERROR.val

/-! ## Updates that leave an empty entry -/

/-- The deletion of a record set or of a record, where its name has no other records. -/
def Empties (z : LocalZoneSet) (rr : Record) : Prop :=
  (rr.rclass = Class.ANY ∧ rr.rtype ≠ Rtype.ANY ∧
      ∀ r ∈ z.recordsAt (wireNameKey rr.name), r.rtype = rr.rtype) ∨
    (rr.rclass = NONE ∧
      ∀ r ∈ z.recordsAt (wireNameKey rr.name), r.rtype = rr.rtype ∧ r.rdata.eq rr.rdata = true)

/-- No record of the update empties an entry when its turn comes. -/
def SparesAll : LocalZoneSet → List Record → Prop
  | _, [] => True
  | z, rr :: rrs =>
    (wireNameKey rr.name ∈ z.recordsWire → ¬ Empties z rr) ∧ SparesAll (applyRr z rr) rrs

/-- No update of the run empties an entry. -/
def SparingRun : LocalZoneSet → List Change → Prop
  | _, [] => True
  | z, c :: cs => (∀ rrs, c = .update rrs → SparesAll z rrs) ∧ SparingRun (c.apply z) cs

/-- The name has no entry without records. -/
def Filled (_ : Bytes) (v : View) : Prop := v.1 ≠ some []

theorem filled_deleteEffect (r : Record) (v : View) (h : Filled (wireNameKey r.name) v) :
    Filled (wireNameKey r.name) (deleteEffect r v) := by
  obtain ⟨_ | recs, action⟩ := v
  · exact h
  simp only [deleteEffect, Option.elim_some]
  split_ifs with hleft
  · intro heq
    cases heq
  · exact fun heq => hleft (Option.some.inj heq)

variable {z : LocalZoneSet}

theorem filled_rrEffect {rr : Record}
    (hspare : wireNameKey rr.name ∈ z.recordsWire → ¬ Empties z rr)
    (h : Filled (wireNameKey rr.name) (z.view (wireNameKey rr.name))) :
    Filled (wireNameKey rr.name) (rrEffect (z.view (wireNameKey rr.name)) rr) := by
  unfold Filled LocalZoneSet.view at *
  unfold Empties LocalZoneSet.recordsAt at hspare
  rw [Map.mem_iff_lookup] at hspare
  unfold rrEffect
  cases hl : z.recordsWire.lookup (wireNameKey rr.name) with
  | none => split_ifs <;> simp_all
  | some recs =>
    rw [hl] at h hspare
    have hne : recs ≠ [] := fun heq => h (by rw [heq])
    have hsome := hspare ⟨recs, rfl⟩
    split_ifs with hany htype hnone hin hpresent
    · simp
    · intro heq
      apply hsome
      refine Or.inl ⟨hany, htype, fun r hr => ?_⟩
      have hgone := List.filter_eq_nil_iff.mp (Option.some.inj heq) r hr
      simpa using hgone
    · intro heq
      apply hsome
      refine Or.inr ⟨hnone, fun r hr => ?_⟩
      have hgone := List.filter_eq_nil_iff.mp (Option.some.inj heq) r hr
      simpa using hgone
    · simpa using hne
    · simp
    · simpa using hne

theorem filled_update {rrs : List Record} (hrun : SparesAll z rrs)
    (hz : ∀ n, Filled n (z.view n)) : ∀ n, Filled n ((rrs.foldl applyRr z).view n) := by
  induction rrs generalizing z with
  | nil => exact hz
  | cons rr rrs ih => exact ih hrun.2 ((actsAt_applyRr rr).keeps (filled_rrEffect hrun.1) hz)

theorem filled_run {cs : List Change} (hrun : SparingRun z cs)
    (hz : ∀ n, Filled n (z.view n)) : ∀ n, Filled n ((cs.foldl Change.apply z).view n) := by
  induction cs generalizing z with
  | nil => exact hz
  | cons c cs ih =>
    apply ih hrun.2
    exact c.apply_keeps (fun r v _ => by simp [Filled, addEffect]) filled_deleteEffect
      (fun _ _ _ h => h) (fun rrs hc => filled_update (hrun.1 rrs hc) hz) hz

/-! ## Answers -/

theorem nameHasRecordsWire_iff (hz : ∀ n, Filled n (z.view n)) (n : Bytes) :
    z.nameHasRecordsWire n = true ↔ z.recordsAt n ≠ [] := by
  have hfilled := hz n
  unfold Filled LocalZoneSet.view at hfilled
  unfold LocalZoneSet.nameHasRecordsWire LocalZoneSet.recordsAt
  rw [decide_eq_true_iff, Map.mem_iff_lookup]
  cases h : z.recordsWire.lookup n with
  | none => simp
  | some recs =>
    rw [h] at hfilled
    simpa using hfilled

theorem localVerdict_of_absent {key : Bytes} {qtype : U16} (h : z.recordsAt key = [])
    (hno : z.nameHasRecordsWire key = false) (a : ZoneAction) :
    (localVerdict z key qtype a).2.1 = if a = .refuse then REFUSED else NXDOMAIN := by
  have hnone : ∀ t, z.localRecordsWire key t = [] := by
    intro t
    rw [LocalZoneSet.localRecordsWire, show (z.recordsWire.lookup key).getD [] = [] from h]
    rfl
  have hchain : followCname z key qtype = [] := by
    rw [followCname, followCnameLoop, hnone]
    rfl
  cases a <;> simp [localVerdict, hnone, hchain, hno]

/-- In every state of a run whose updates empty no entry, names exist by their records. Where no
    empty non-terminal lies in a zone that is served, so do the answers. -/
theorem existence_of_run (hw : Bool) (iter : IterOrder) (zones : List LocalZone)
    (data : List LocalData) (cs : List Change)
    (hrun : SparingRun (fromConfig hw iter zones data) cs)
    (hz : z = cs.foldl Change.apply (fromConfig hw iter zones data))
    (hbetween : ∀ n a, EmptyNonTerminal z n → z.findWire n = some a → ¬ ServesRecords a) :
    ExistenceFollows z := by
  have hfilled : ∀ n, Filled n (z.view n) := by
    rw [hz]
    apply filled_run hrun
    intro n heq
    change (configRecords data).lookup n = some [] at heq
    rw [lookup_configRecords, ifAny] at heq
    split_ifs at heq with hempty
    exact hempty (by rw [Option.some.inj heq]; rfl)
  refine ⟨nameHasRecordsWire_iff hfilled, ?_, ?_⟩
  · intro m q core a hq h habsent _
    have hno : z.nameHasRecordsWire (lower q.name.wire) = false := by
      rw [← Bool.not_eq_true, nameHasRecordsWire_iff hfilled]
      exact not_not.mpr habsent
    rw [(answerLocal_eq_some hq h).2.1, localVerdict_of_absent habsent hno]
    split_ifs <;> rfl
  · intro m q core a hq h hserves hempty
    exact absurd hserves (hbetween _ a hempty (answerLocal_eq_some hq h).1)

/-- `u. 300 A 10.0.0.1` in the class `c`: IN to add it, NONE to delete it. -/
def updateRecord (c : U16) : Record := { Record.address nameU 300 ![10, 0, 0, 1] with rclass := c }

/-- The update of this record. -/
def updateOf (c : U16) : Message where
  authority := [updateRecord c]

/-- The set of a configuration after an update adds the record. -/
def addedSet : LocalZoneSet :=
  (handleUpdateWire .verified (updateOf IN) (fromConfig false listOrder [] [])).2

theorem recordsAt_addedSet {k : Bytes} (h : addedSet.recordsAt k ≠ []) : k = nameU.wire := by
  by_contra hk
  have hview := (actsAt_applyRr (updateRecord IN)).other hk (fromConfig false listOrder [] [])
  apply h
  show (addedSet.view k).1.getD [] = []
  rw [show addedSet.view k = (fromConfig false listOrder [] []).view k from hview]
  rfl

/-- The only name above `u.` is the root, which is not in a local zone. -/
theorem addedSet_between (n : Bytes) (a : ZoneAction) (h : EmptyNonTerminal addedSet n) :
    addedSet.findWire n ≠ some a := by
  obtain ⟨hnone, p, m, rfl, hm, hsuffix⟩ := h
  have hu : lower m.wire = nameU.wire := recordsAt_addedSet hm
  have hlen : m.labels.length = 1 := by
    have hkey := congrArg List.length (Name.lower_wire_eq_iff.mp
      (hu.trans (show nameU.wire = lower nameU.wire by decide)))
    simpa [Name.key, Name.labelsLower, nameU] using hkey
  by_cases hp : p.labels = []
  · have hroot : wireNameKey p = [0] := by
      rw [wireNameKey, Name.wire, hp]
      decide
    rw [hroot, show addedSet.findWire [0] = none by decide +kernel]
    simp
  · have hone := List.length_pos_of_ne_nil hp
    have hsame := hsuffix.eq_of_length (by have := hsuffix.length_le; omega)
    rw [Name.ext_labels hsame] at hnone
    exact absurd hnone hm

/-- A run that only adds. -/
theorem existence_of_run_added :
    SparingRun (fromConfig false listOrder [] []) [.update (updateOf IN).authority] ∧
      ExistenceFollows addedSet := by
  have hrun : SparingRun (fromConfig false listOrder [] []) [.update (updateOf IN).authority] := by
    refine ⟨?_, trivial⟩
    intro rrs hrrs
    cases hrrs
    exact ⟨fun hmem => absurd hmem (by decide +kernel), trivial⟩
  exact ⟨hrun, existence_of_run false listOrder [] [] _ hrun rfl
    fun n a hempty hfind => absurd hfind (addedSet_between n a hempty)⟩

/-- Once a second update has deleted the record, the name has no records and still exists, and
    is answered NOERROR. -/
theorem emptied_name_exists :
    addedSet.nameHasRecordsWire nameU.wire = true ∧
      ((handleUpdateWire .verified (updateOf NONE) addedSet).2.recordsAt nameU.wire) = [] ∧
      (handleUpdateWire .verified (updateOf NONE) addedSet).2.nameHasRecordsWire nameU.wire = true ∧
      (answerLocal { questions := [⟨nameU, Rtype.A, IN⟩] }
        (handleUpdateWire .verified (updateOf NONE) addedSet).2).map
          (fun p => (p.1.header.rcodeLow.val, p.1.answers, p.2)) = some (0, [], .static) := by
  decide +kernel

end Runbound.Local
