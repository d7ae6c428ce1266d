import Runbound.Local.FastSlow
import Runbound.Local.Interleaving

/-!
# Dynamic updates (`dns/ddns.rs`)

`handle_update_wire` checks the signature and that no configured name is deleted, and then
applies the records of the update section one by one to a copy of the zone set. It reads
neither the zone section nor the prerequisites.

Results:
* `update_gated_iff`: when an update changes the set only if RFC 2136 lets it.
* `update_frame`: what an update leaves as it was.
-/

namespace Runbound.Local

open Wire FastPath Lib List Rcode Class

/-! ## Specification: RFC 2136, sections 2.4, 3.1 and 3.2 -/

/-- The records of a prerequisite section that speak of the same RRset as `rr`. -/
def sameRrset (rr : Record) (prereqs : List Record) : List Record :=
  prereqs.filter fun p =>
    wireNameKey p.name = wireNameKey rr.name && p.rtype = rr.rtype && p.rclass = rr.rclass

/-- Two lists of records have the same data. -/
def equalData (l l' : List Record) : Bool :=
  (l.all fun r => l'.any fun r' => r.rdata.eq r'.rdata) &&
    l'.all fun r' => l.any fun r => r.rdata.eq r'.rdata

/-- Does the prerequisite `rr` of the section `prereqs` hold in `z`? A record that has none of the
    five forms does not. -/
def prerequisiteHolds (z : LocalZoneSet) (zoneClass : U16) (prereqs : List Record) (rr : Record) :
    Bool :=
  let key := wireNameKey rr.name
  let rrset := z.localRecordsWire key rr.rtype
  if rr.ttl ≠ 0 then false
  else if rr.rclass = Class.ANY then
    -- the name is in use, or the RRset exists
    rr.rdata.emit = [] &&
      if rr.rtype = Rtype.ANY then z.recordsAt key ≠ [] else rrset ≠ []
  else if rr.rclass = NONE then
    -- the name is not in use, or the RRset does not exist
    rr.rdata.emit = [] &&
      if rr.rtype = Rtype.ANY then z.recordsAt key = [] else rrset = []
  else
    -- the RRset exists with these data
    rr.rclass = zoneClass && rrset ≠ [] && equalData rrset (sameRrset rr prereqs)

/-- Every prerequisite holds, and every record of the update section is in the zone. -/
def admissible (z : LocalZoneSet) (msg : Message) : Bool :=
  msg.firstQuestion.any fun zone =>
    (msg.answers.all (prerequisiteHolds z zone.qclass msg.answers)) &&
      msg.authority.all fun rr => rr.name.isInZone zone.name

/-! ## The gate -/

/-- What `handle_update_wire` does with a signed update. -/
theorem handleUpdateWire_verified (msg : Message) (z : LocalZoneSet) :
    handleUpdateWire .verified msg z =
      if msg.authority.any (deletesStatic z) then (REFUSED, z)
      else (NOERROR, msg.authority.foldl applyRr z) := by
  unfold handleUpdateWire
  by_cases hempty : msg.authority = []
  · rw [hempty]
    rfl
  · rw [if_neg hempty]

/-- A signed update changes the set only if it is admissible, and is refused otherwise, iff it is
    admissible or deletes a configured name. -/
theorem update_gated_iff (msg : Message) (z : LocalZoneSet) :
    (((handleUpdateWire .verified msg z).2 ≠ z → admissible z msg = true) ∧
      (admissible z msg = false →
        (handleUpdateWire .verified msg z).2 = z ∧
          (handleUpdateWire .verified msg z).1 ≠ NOERROR)) ↔
      admissible z msg = true ∨ ∃ rr ∈ msg.authority, deletesStatic z rr = true := by
  rw [handleUpdateWire_verified, ← any_eq_true]
  by_cases hstatic : msg.authority.any (deletesStatic z) = true
  · rw [if_pos hstatic]
    refine iff_of_true ⟨fun h => absurd rfl h, fun _ => ⟨rfl, ?_⟩⟩ (Or.inr hstatic)
    show REFUSED ≠ NOERROR
    decide
  · rw [if_neg hstatic]
    constructor
    · rintro ⟨-, hrefused⟩
      cases hok : admissible z msg with
      | true => exact Or.inl rfl
      | false => exact absurd rfl (hrefused hok).2
    · rintro (hok | h)
      · refine ⟨fun _ => hok, fun hno => ?_⟩
        rw [hok] at hno
        cases hno
      · contradiction

/-- An update of the zone `a.` that is to add `a. 300 A 10.0.0.2` if the name `a.` is not in
    use. -/
def guardedUpdate : Message where
  questions := [⟨nameA, Rtype.SOA, IN⟩]
  answers := [⟨nameA, Rtype.ANY, NONE, 0, .unknown Rtype.ANY [], by decide⟩]
  authority := [⟨nameA, Rtype.A, IN, 300, .a ![10, 0, 0, 2], rfl⟩]

/-- The name is in use, and the address is added. -/
theorem prerequisite_ignored :
    admissible zonesA guardedUpdate = false ∧
      (zonesA.recordsAt nameA.wire).length = 1 ∧
      ((handleUpdateWire .verified guardedUpdate zonesA).2.recordsAt nameA.wire).length = 2 ∧
      ¬ (((handleUpdateWire .verified guardedUpdate zonesA).2 ≠ zonesA →
          admissible zonesA guardedUpdate = true) ∧
        (admissible zonesA guardedUpdate = false →
          (handleUpdateWire .verified guardedUpdate zonesA).2 = zonesA ∧
            (handleUpdateWire .verified guardedUpdate zonesA).1 ≠ NOERROR)) := by
  have hno : admissible zonesA guardedUpdate = false := by decide +kernel
  have hrc : (handleUpdateWire .verified guardedUpdate zonesA).1 = NOERROR := by
    decide +kernel
  refine ⟨hno, by decide +kernel, by decide +kernel, ?_⟩
  rintro ⟨-, hrefused⟩
  exact (hrefused hno).2 hrc

/-! ## One record -/

@[simp] theorem rdata_eq_refl (rd : Rdata) : rd.eq rd = true := by
  cases rd <;> simp [Rdata.eq]

/-- Is the record a deletion? -/
def isDelete (rr : Record) : Bool := rr.rclass = Class.ANY || rr.rclass = NONE

/-- Records with the type and the data of `rr`. -/
def matchesRr (rr r : Record) : Bool := r.rtype = rr.rtype && r.rdata.eq rr.rdata

/-- `rr` after the records, unless its data are there. -/
def addData (rr : Record) (recs : List Record) : List Record :=
  if recs.any (matchesRr rr) then recs else recs ++ [rr]

theorem any_addData (rr : Record) (recs : List Record) :
    (addData rr recs).any (matchesRr rr) = true := by
  unfold addData
  split_ifs with h
  · exact h
  · simp [matchesRr]

theorem any_addData_of_any {p : Record → Bool} (rr : Record) {recs : List Record}
    (h : recs.any p = true) : (addData rr recs).any p = true := by
  unfold addData
  split_ifs
  · exact h
  · rw [any_append, h, Bool.true_or]

theorem addData_eq_self_iff {rr : Record} {recs : List Record} :
    addData rr recs = recs ↔ recs.any (matchesRr rr) = true := by
  constructor
  · intro h
    rw [← h]
    exact any_addData rr recs
  · intro h
    exact if_pos h

theorem rrEffect_cases (rr : Record) :
    (isDelete rr = true ∧ ((∀ v, rrEffect v rr = (none, v.2)) ∨
        ∃ p, ∀ v, rrEffect v rr = (v.1.map (List.filter p), v.2))) ∨
      (rr.rclass = IN ∧
        ∀ v, rrEffect v rr = (some (addData rr (v.1.getD [])), some (v.2.getD .static))) ∨
      ∀ v, rrEffect v rr = v := by
  unfold rrEffect isDelete
  by_cases hany : rr.rclass = Class.ANY
  · refine Or.inl ⟨by simp [hany], ?_⟩
    simp only [hany]
    by_cases htype : rr.rtype = Rtype.ANY
    · simp only [htype, if_true]
      exact Or.inl fun _ => trivial
    · simp only [htype]
      exact Or.inr ⟨_, fun _ => rfl⟩
  simp only [hany]
  by_cases hnone : rr.rclass = NONE
  · refine Or.inl ⟨by simp [hnone], ?_⟩
    simp only [hnone]
    exact Or.inr ⟨_, fun _ => rfl⟩
  simp only [hnone, if_false]
  by_cases hin : rr.rclass = IN ∧ isSupportedAdd rr.rtype = true
  · simp only [if_pos hin]
    exact Or.inr (Or.inl ⟨hin.1, fun _ => rfl⟩)
  · simp only [if_neg hin]
    exact Or.inr (Or.inr fun _ => trivial)

/-! ## The same update again -/

theorem replay_deletes {rrs : List Record} (h : ∀ rr ∈ rrs, rr.rclass ≠ IN) (v : View) :
    rrs.foldl rrEffect (rrs.foldl rrEffect v) = rrs.foldl rrEffect v := by
  apply Keyed.replay
  · intro rr hrr v
    unfold Keyed.Settled
    rcases rrEffect_cases rr with ⟨-, hd | ⟨p, hd⟩⟩ | ⟨hin, -⟩ | hid
    · rw [hd, hd]
    · simp [hd, Function.comp_def]
    · exact absurd hin (h rr hrr)
    · rw [hid]
  · intro i hi j hj v hv
    apply Keyed.Settled.of_comm _ hv
    intro v
    rcases rrEffect_cases i with ⟨-, hd | ⟨p, hd⟩⟩ | ⟨hin, -⟩ | hid
    · rcases rrEffect_cases j with ⟨-, hd' | ⟨q, hd'⟩⟩ | ⟨hin', -⟩ | hid'
      · simp [hd, hd']
      · simp [hd, hd']
      · exact absurd hin' (h j hj)
      · rw [hid', hid']
    · rcases rrEffect_cases j with ⟨-, hd' | ⟨q, hd'⟩⟩ | ⟨hin', -⟩ | hid'
      · simp [hd, hd']
      · simp only [hd, hd', Option.map_map, Function.comp_def, filter_filter]
        simp only [Bool.and_comm]
      · exact absurd hin' (h j hj)
      · rw [hid', hid']
    · exact absurd hin (h i hi)
    · rw [hid, hid]

theorem settled_add_iff {rr : Record} {v : View}
    (hadd : ∀ v, rrEffect v rr = (some (addData rr (v.1.getD [])), some (v.2.getD .static))) :
    Keyed.Settled rrEffect v rr ↔
      ∃ recs action, v = (some recs, some action) ∧ recs.any (matchesRr rr) = true := by
  unfold Keyed.Settled
  rw [hadd]
  obtain ⟨_ | recs, _ | action⟩ := v
  · simp
  · simp
  · simp
  · simp [addData_eq_self_iff]

/-- Additions settle themselves, and what has been added stays. -/
theorem replay_adds {rrs : List Record} (h : ∀ rr ∈ rrs, isDelete rr = false) (v : View) :
    rrs.foldl rrEffect (rrs.foldl rrEffect v) = rrs.foldl rrEffect v := by
  have hcases : ∀ rr ∈ rrs, (∀ v, rrEffect v rr = v) ∨
      ∀ v, rrEffect v rr = (some (addData rr (v.1.getD [])), some (v.2.getD .static)) := by
    intro rr hrr
    rcases rrEffect_cases rr with ⟨hdel, -⟩ | ⟨-, hadd⟩ | hid
    · rw [h rr hrr] at hdel
      cases hdel
    · exact Or.inr hadd
    · exact Or.inl hid
  apply Keyed.replay
  · intro rr hrr v
    rcases hcases rr hrr with hid | hadd
    · exact hid _
    · rw [settled_add_iff hadd, hadd]
      exact ⟨_, _, rfl, any_addData rr _⟩
  · intro i hi j hj v hv
    rcases hcases i hi with hid | hadd
    · exact hid _
    rcases hcases j hj with hid' | hadd'
    · rwa [hid']
    rw [settled_add_iff hadd] at hv ⊢
    obtain ⟨recs, action, rfl, hany⟩ := hv
    rw [hadd']
    exact ⟨_, _, rfl, any_addData_of_any j hany⟩

/-! ## The frame -/

theorem view_foldl_applyRr (rrs : List Record) (z : LocalZoneSet) (n : Bytes) :
    (rrs.foldl applyRr z).view n =
      (rrs.filter fun rr => wireNameKey rr.name = n).foldl rrEffect (z.view n) :=
  Keyed.view_foldl actsAt_applyRr rrs z n

/-- Two sets with the same index, the same configured names and the same at every name. -/
structure SameSet (z z' : LocalZoneSet) : Prop where
  index : z'.wireRecords = z.wireRecords
  static : z'.staticNamesWire = z.staticNamesWire
  view : ∀ n, z'.view n = z.view n

/-- `find_wire` sees the zone actions of the name and of those above it. -/
theorem findWire_congr {z z' : LocalZoneSet} {q : Bytes}
    (h : ∀ n, n <:+ q → z'.zonesWire.lookup n = z.zonesWire.lookup n) :
    z'.findWire q = z.findWire q :=
  Name.walkUp_congr h

/-- What an accepted update leaves as it was. -/
structure UpdateFrame (z : LocalZoneSet) (msg : Message) (z' : LocalZoneSet) : Prop where
  /-- the records of a configured name -/
  static : ∀ key ∈ z.staticNamesWire, ∀ r ∈ z.recordsAt key, r ∈ z'.recordsAt key
  /-- the records and the zone action of a name that is not mentioned -/
  others : ∀ n, (∀ rr ∈ msg.authority, wireNameKey rr.name ≠ n) → z'.view n = z.view n
  /-- what `find_wire` says of a name with no mentioned name at or above it -/
  above : ∀ q, (∀ rr ∈ msg.authority, ¬ wireNameKey rr.name <:+ q) → z'.findWire q = z.findWire q
  /-- the set, if the update only adds or only deletes and comes again -/
  again : (∀ rr ∈ msg.authority, isDelete rr = false) ∨ (∀ rr ∈ msg.authority, rr.rclass ≠ IN) →
    SameSet z' (handleUpdateWire .verified msg z').2

/-- A signed update that is not accepted leaves the set as it was; one that is keeps to its
    frame. -/
theorem update_frame (msg : Message) (z : LocalZoneSet) :
    ((handleUpdateWire .verified msg z).1 ≠ NOERROR → (handleUpdateWire .verified msg z).2 = z) ∧
      ((handleUpdateWire .verified msg z).1 = NOERROR →
        UpdateFrame z msg (handleUpdateWire .verified msg z).2) := by
  rw [handleUpdateWire_verified]
  by_cases hstatic : msg.authority.any (deletesStatic z) = true
  · rw [if_pos hstatic]
    refine ⟨fun _ => rfl, fun h => ?_⟩
    cases h
  rw [if_neg hstatic]
  refine ⟨fun h => absurd rfl h, fun _ => ?_⟩
  have hnone : ∀ rr ∈ msg.authority, deletesStatic z rr = false := by
    simpa using hstatic
  have hgrows := foldl_applyRr_grows msg.authority z hnone
  have hothers : ∀ n, (∀ rr ∈ msg.authority, wireNameKey rr.name ≠ n) →
      (msg.authority.foldl applyRr z).view n = z.view n := by
    intro n hn
    rw [view_foldl_applyRr, filter_eq_nil_iff.mpr (by simpa using hn)]
    rfl
  refine ⟨?_, hothers, ?_, ?_⟩
  · intro key hkey r hr
    exact (hgrows.records key hkey).subset hr
  · intro q hq
    apply findWire_congr
    intro n hn
    refine congrArg Prod.snd (hothers n ?_)
    rintro rr hrr rfl
    exact hq rr hrr hn
  · intro honly
    -- the second update is accepted as the first was, and does nothing at any name
    have hnone' : ∀ rr ∈ msg.authority, deletesStatic (msg.authority.foldl applyRr z) rr = false := by
      intro rr hrr
      rw [deletesStatic, hgrows.static]
      exact hnone rr hrr
    have hgrows' := foldl_applyRr_grows msg.authority _ hnone'
    rw [handleUpdateWire_verified, if_neg (by simpa using hnone')]
    refine ⟨hgrows'.index, hgrows'.static, ?_⟩
    intro n
    rw [view_foldl_applyRr, view_foldl_applyRr]
    rcases honly with hadds | hdeletes
    · exact replay_adds (fun rr hrr => hadds rr (mem_of_mem_filter hrr)) _
    · exact replay_deletes (fun rr hrr => hdeletes rr (mem_of_mem_filter hrr)) _

end Runbound.Local
