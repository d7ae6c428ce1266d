import Runbound.FastPath.Parsed
import Runbound.Local.Serve
import Runbound.Local.Writers
import Runbound.Wire.RoundTrip

/-!
# Local data on the two paths

The fast path answers address queries from the index that `from_config` built; the
serving core walks the zone actions and reads the record store. The changes to a zone
set that copy it keep the index, and let the records of a configured name only grow.

* `runOps_grows`: what every sequence of changes keeps.
* `parse_buildAnswer`: what the response of the fast path parses to.
* `fastSlow_agree_iff`: the two paths agree exactly if the datagram is a message with
  opcode QUERY, the zone action still serves records and no record of the type was added.
-/

namespace Runbound.Local

open Wire FastPath Lib Lib.Decoder List Rtype Rcode Class Name Map

/-! ## Changes since the configuration was read -/

/-- A change to the zone set; an update is one that passed the TSIG check. -/
inductive ZoneOp
  | overrideZone (name : Bytes) (action : ZoneAction)
  | removeZone (name : Bytes)
  | insertRecordStr (line : LocalData)
  | update (msg : Message)

/-- The set after one change. -/
def ZoneOp.apply (z : LocalZoneSet) : ZoneOp → LocalZoneSet
  | overrideZone name action => z.overrideZone name action
  | removeZone name => z.removeZone name
  | insertRecordStr line => z.insertRecordStr line
  | update msg => (handleUpdateWire .verified msg z).2

/-- The set after a sequence of changes. -/
def runOps (z : LocalZoneSet) (ops : List ZoneOp) : LocalZoneSet := ops.foldl ZoneOp.apply z

/-- The records of a name. -/
def LocalZoneSet.recordsAt (z : LocalZoneSet) (key : Bytes) : List Record :=
  (z.recordsWire.lookup key).getD []

/-- `z'` has the index and the static names of `z`, and at each of these names the records of
    `z` and perhaps more. -/
structure Grows (z z' : LocalZoneSet) : Prop where
  index : z'.wireRecords = z.wireRecords
  static : z'.staticNamesWire = z.staticNamesWire
  records : ∀ key ∈ z.staticNamesWire, z.recordsAt key <+: z'.recordsAt key

theorem Grows.refl (z : LocalZoneSet) : Grows z z := ⟨rfl, rfl, fun _ _ => prefix_rfl⟩

theorem Grows.trans {z z' z'' : LocalZoneSet} (h : Grows z z') (h' : Grows z' z'') :
    Grows z z'' where
  index := h'.index.trans h.index
  static := h'.static.trans h.static
  records key hkey := (h.records key hkey).trans (h'.records key (h.static ▸ hkey))

theorem recordsAt_modify (z : LocalZoneSet) (zones : Map Bytes ZoneAction) (key key' : Bytes)
    (f : List Record → List Record) :
    LocalZoneSet.recordsAt
      { z with zonesWire := zones, recordsWire := Map.modify key [] f z.recordsWire } key' =
        if key' = key then f (z.recordsAt key) else z.recordsAt key' := by
  simp only [LocalZoneSet.recordsAt, lookup_modify]
  split_ifs with h <;> simp

theorem addRecord_grows (r : Record) (z : LocalZoneSet) : Grows z (z.addRecord r) := by
  refine ⟨rfl, rfl, fun key _ => ?_⟩
  rw [LocalZoneSet.addRecord, recordsAt_modify]
  split_ifs with h
  · rw [h]
    exact prefix_append _ _
  · exact prefix_rfl

variable {z : LocalZoneSet}

variable {key : Bytes} {n : Name} {r : Record} {t : U16} {a : ZoneAction}

theorem filterRecords_recordsAt {key' : Bytes} {p : Record → Bool} (h : key' ≠ key) :
    (z.filterRecords key p).recordsAt key' = z.recordsAt key' := by
  unfold LocalZoneSet.filterRecords
  cases z.recordsWire.lookup key with
  | none => rfl
  | some recs =>
    simp only [LocalZoneSet.recordsAt, lookup_insert_eq]
    rw [if_neg h]

theorem filterRecords_grows {p : Record → Bool} (h : key ∉ z.staticNamesWire) :
    Grows z (z.filterRecords key p) := by
  refine ⟨?_, ?_, fun key' hkey' => ?_⟩
  · unfold LocalZoneSet.filterRecords
    split <;> rfl
  · unfold LocalZoneSet.filterRecords
    split <;> rfl
  · rw [filterRecords_recordsAt (by rintro rfl; exact h hkey')]

/-- A record of an update that deletes nothing at a static name. -/
theorem applyRr_grows {rr : Record} (h : deletesStatic z rr = false) : Grows z (applyRr z rr) := by
  have hstatic : (rr.rclass = Class.ANY ∨ rr.rclass = NONE) →
      wireNameKey rr.name ∉ z.staticNamesWire := by
    simpa [deletesStatic] using h
  unfold applyRr
  by_cases hany : rr.rclass = Class.ANY
  · rw [if_pos hany]
    have hkey := hstatic (Or.inl hany)
    split_ifs
    · refine ⟨rfl, rfl, fun key hk => ?_⟩
      simp only [LocalZoneSet.recordsAt, lookup_erase_eq]
      rw [if_neg (by rintro rfl; exact hkey hk)]
    · exact filterRecords_grows hkey
  rw [if_neg hany]
  by_cases hnone : rr.rclass = NONE
  · rw [if_pos hnone]
    exact filterRecords_grows (hstatic (Or.inr hnone))
  split_ifs
  · refine ⟨rfl, rfl, fun key _ => ?_⟩
    rw [recordsAt_modify]
    split_ifs with hkey hany
    · rw [hkey]
    · rw [hkey]
      exact prefix_append _ _
    · exact prefix_rfl
  · exact Grows.refl z

theorem foldl_applyRr_grows (rrs : List Record) : ∀ z : LocalZoneSet,
    (∀ rr ∈ rrs, deletesStatic z rr = false) → Grows z (rrs.foldl applyRr z) := by
  induction rrs with
  | nil =>
    intro z _
    exact Grows.refl z
  | cons rr rrs ih =>
    intro z h
    have hstep := applyRr_grows (h rr (by simp))
    refine hstep.trans (ih _ fun rr' hrr' => ?_)
    have := h rr' (by simp [hrr'])
    rwa [deletesStatic, hstep.static]

theorem apply_grows (z : LocalZoneSet) (op : ZoneOp) : Grows z (op.apply z) := by
  cases op with
  | overrideZone name action =>
    simp only [ZoneOp.apply, LocalZoneSet.overrideZone]
    split <;> exact ⟨rfl, rfl, fun _ _ => prefix_rfl⟩
  | removeZone name =>
    simp only [ZoneOp.apply, LocalZoneSet.removeZone]
    split <;> exact ⟨rfl, rfl, fun _ _ => prefix_rfl⟩
  | insertRecordStr line =>
    simp only [ZoneOp.apply, LocalZoneSet.insertRecordStr]
    split
    · exact addRecord_grows _ z
    · exact Grows.refl z
  | update msg =>
    simp only [ZoneOp.apply, handleUpdateWire]
    split_ifs with hempty hdel
    · exact Grows.refl z
    · exact Grows.refl z
    · refine foldl_applyRr_grows _ z fun rr hrr => ?_
      simp only [any_eq_true, not_exists, not_and, Bool.not_eq_true] at hdel
      exact hdel rr hrr

theorem runOps_grows (ops : List ZoneOp) (z : LocalZoneSet) : Grows z (runOps z ops) :=
  List.foldlRecOn (motive := fun z' => Grows z z') ops _ (Grows.refl z)
    fun z' hz' op _ => hz'.trans (apply_grows z' op)

/-! ## The index and the record store -/

variable {recs : List Record}

/-- The records of the store of a configuration are at their own name, and were text. -/
theorem mem_recordsAt_config {data : List LocalData}
    (h : (configRecords data).lookup key = some recs) :
    ∀ r ∈ recs, wireNameKey r.name = key ∧ r.rclass = IN ∧ ofText r.rdata = true := by
  have hfold : ∀ key recs, (configRecords data).lookup key = some recs →
      ∀ r ∈ recs, wireNameKey r.name = key ∧ r.rclass = IN ∧ ofText r.rdata = true := by
    refine List.foldlRecOn (motive := fun m : Map Bytes (List Record) => ∀ key recs,
      m.lookup key = some recs → ∀ r ∈ recs,
        wireNameKey r.name = key ∧ r.rclass = IN ∧ ofText r.rdata = true) data _ ?_ ?_
    · simp
    intro m hm d _ key recs h
    cases hd : d.rr with
    | none =>
      simp only [hd] at h
      exact hm key recs h
    | some wr =>
      simp only [hd, lookup_modify] at h
      split_ifs at h with hkey
      · cases h
        intro r hr
        rcases mem_append.mp hr with hr | hr
        · cases hl : m.lookup (wireNameKey wr.val.name) with
          | none => simp [hl] at hr
          | some old =>
            rw [hl] at hr
            exact hkey ▸ hm _ old hl r hr
        · obtain rfl := mem_singleton.mp hr
          exact ⟨hkey.symm, wr.property⟩
      · exact hm key recs h
  exact hfold key recs h

/-- What the index keeps of a record. -/
def wireRdata (r : Record) : WireRdata := ⟨r.ttl, r.rdata.emit⟩

theorem rdata_of_text (ht : ofText r.rdata = true) :
    aRdata r = (if r.rtype = Rtype.A then some (wireRdata r) else none) ∧
      aaaaRdata r = (if r.rtype = AAAA then some (wireRdata r) else none) := by
  have hp := r.parsed
  cases hr : r.rdata with
  | unknown t d =>
    rw [hr] at ht hp
    simp only [ofText, Rdata.parsedAs, Bool.and_eq_true, decide_eq_true_eq] at ht hp
    have h1 : r.rtype ≠ Rtype.A := by
      rw [← hp.1.1]
      rintro rfl
      revert ht
      decide
    have h2 : r.rtype ≠ AAAA := by
      rw [← hp.1.1]
      rintro rfl
      revert ht
      decide
    rw [if_neg h1, if_neg h2]
    exact ⟨by simp [aRdata, hr], by simp [aaaaRdata, hr]⟩
  | svcb p n ps =>
    rw [hr] at ht
    cases ht
  | _ =>
    rw [hr] at hp
    have hty := of_decide_eq_true hp
    rw [← hty]
    constructor
    · simp [aRdata, hr, wireRdata, Rdata.rtype, Rdata.emit, Rdata.emitWith, Rtype.A, AAAA,
        NS, CNAME, PTR, SOA, MX, TXT, SRV, CAA]
    · simp [aaaaRdata, hr, wireRdata, Rdata.rtype, Rdata.emit, Rdata.emitWith, Rtype.A, AAAA,
        NS, CNAME, PTR, SOA, MX, TXT, SRV, CAA]

theorem filterMap_ite {α β : Type} (p : α → Bool) (f : α → β) (l : List α) :
    (l.filterMap fun a => if p a then some (f a) else none) = (l.filter p).map f := by
  induction l with
  | nil => rfl
  | cons a l ih =>
    by_cases h : p a = true
    · simp [h, ih]
    · simp [h, ih]

theorem recordsOf_indexEntry (htext : ∀ r ∈ recs, ofText r.rdata = true)
    (ht : t = Rtype.A ∨ t = AAAA) (key : Bytes) :
    (indexEntry key recs).recordsOf t = (recs.filter fun r => r.rtype = t).map wireRdata := by
  rw [← filterMap_ite]
  rcases ht with rfl | rfl
  · refine filterMap_congr fun r hr => ?_
    simpa using (rdata_of_text (htext r hr)).1
  · refine filterMap_congr fun r hr => ?_
    simpa using (rdata_of_text (htext r hr)).2

theorem address_fits (htext : ofText r.rdata = true)
    (ht : r.rtype = Rtype.A ∨ r.rtype = AAAA) :
    r.rdata.wireOk ∧ r.rdata.emit.length < 65536 := by
  obtain ⟨ha, haaaa⟩ := rdata_of_text htext
  cases hr : r.rdata with
  | a octets => exact ⟨trivial, by simp [Rdata.emit, Rdata.emitWith]⟩
  | aaaa octets => exact ⟨trivial, by simp [Rdata.emit, Rdata.emitWith]⟩
  | _ =>
    rcases ht with h | h
    · simp [aRdata, hr, h] at ha
    · simp [aaaaRdata, hr, h] at haaaa

/-! ## The response of the fast path -/

/-- The OPT record `write_opt_rr` writes. -/
def optRecord (e : EdnsInfo) : Record :=
  ⟨Name.root, OPT, e.udpPayload, 0, .unknown OPT [], Edns.optRecord_parsed (by decide)⟩

/-- The message that `build_answer_a_aaaa_wire` writes for the records `recs` of the name. -/
def answerMessage (wq : WireQuery) (n : Name) (recs : List Record) (edns : Option EdnsInfo) :
    Message where
  header :=
    ⟨wq.id, answerFlags wq.rd, 1, Fin.ofNat 65536 recs.length, 0, if edns.isSome then 1 else 0⟩
  questions := [⟨n, wq.qtype, wq.qclass⟩]
  answers := recs.map (Record.withName n)
  additional := edns.toList.map optRecord

theorem answerRr_wireRdata (ht : r.rtype = t) (hc : r.rclass = IN) :
    answerRr t (wireRdata r) = pointerTo 12 ++ r.body := by
  have hptr : pointerTo 12 = u16Be 0xC00C := rfl
  rw [Record.body, ht, hc]
  rfl

theorem record_reads_pointer {buf pre : Bytes} (hw : r.rdata.wireOk)
    (hlen : r.rdata.emit.length < 65536) (hn : StandsAt n.wire buf 12) (hpre : 13 ≤ pre.length)
    (h : pre ++ (pointerTo 12 ++ r.body) <+: buf) :
    Record.parse.Reads buf pre.length (r.withName n)
      (pre.length + (pointerTo 12 ++ r.body).length) := by
  have hptr : StandsAt (pointerTo 12) buf pre.length := by
    obtain ⟨post, rfl⟩ := h
    exact ⟨pre, r.body ++ post, by simp, rfl⟩
  have hname := decode_pointer (by decide) (by omega) hptr hn
  rw [← append_assoc] at h
  have hbody := Record.parseBody_readsBack n r hw hlen buf _ h
  rw [length_append] at hbody
  rw [length_append, ← Nat.add_assoc]
  exact Reads.bind hname hbody

theorem opt_readsBack (e : EdnsInfo) :
    Record.parse.ReadsBack (optRecord e) (writeOptRr e.udpPayload) := by
  have hbody := Record.parseBody_readsBack Name.root (optRecord e) trivial
    (show 0 < 65536 by decide)
  have hwire : writeOptRr e.udpPayload = Name.root.wire ++ (optRecord e).body := by
    rfl
  rw [hwire]
  exact ReadsBack.bind (decode_readsBack Name.root) hbody

/-- The octets of the response: header, question, records behind pointers, OPT. -/
theorem buildAnswer_eq_some {wq : WireQuery} {outLen : ℕ} {edns : Option EdnsInfo}
    {out : Bytes} (hq : wq.qnameWire = n.wire)
    (hrecs : ∀ r ∈ recs, r.rtype = wq.qtype ∧ r.rclass = IN)
    (h : buildAnswerAAaaaWire wq outLen (recs.map wireRdata) edns = some out) :
    out = (answerMessage wq n recs edns).header.wire ++
      ([(⟨n, wq.qtype, wq.qclass⟩ : Question)].flatMap Question.wire ++
        ((recs.flatMap fun r => pointerTo 12 ++ r.body) ++
          edns.toList.flatMap fun e => writeOptRr e.udpPayload)) ∧ out.length ≤ outLen := by
  have hrrs : (recs.map wireRdata).flatMap (answerRr wq.qtype) =
      recs.flatMap fun r => pointerTo 12 ++ r.body := by
    rw [flatMap_map]
    refine flatMap_congr fun r hr => ?_
    exact answerRr_wireRdata (hrecs r hr).1 (hrecs r hr).2
  unfold buildAnswerAAaaaWire at h
  simp only [hrrs, hq] at h
  cases edns with
  | none =>
    split_ifs at h with h1 h2
    · cases h1
    · obtain rfl := Option.some.inj h
      exact ⟨by simp [answerMessage, Header.wire, Question.wire], by omega⟩
  | some e =>
    split_ifs at h with h1 h2
    · obtain rfl := Option.some.inj h
      exact ⟨by simp [answerMessage, Header.wire, Question.wire], by omega⟩
    · exact absurd rfl h1

theorem parse_buildAnswer {wq : WireQuery} {outLen : ℕ} {edns : Option EdnsInfo}
    {out : Bytes} (hq : wq.qnameWire = n.wire) (hout : outLen < 65536)
    (hrecs : ∀ r ∈ recs, r.rtype = wq.qtype ∧ r.rclass = IN ∧ r.rdata.wireOk ∧ r.rdata.emit.length < 65536)
    (h : buildAnswerAAaaaWire wq outLen (recs.map wireRdata) edns = some out) :
    Message.parse out = .ok (answerMessage wq n recs edns) := by
  obtain ⟨hwire, hlen⟩ := buildAnswer_eq_some hq (fun r hr => ⟨(hrecs r hr).1, (hrecs r hr).2.1⟩) h
  have hcount : recs.length < 65536 := by
    have hge := Rdata.flatMap_length_ge (fun r : Record => pointerTo 12 ++ r.body)
      (fun r => by simp [pointerTo, u16Be]) recs
    have hsum := congrArg List.length hwire
    simp only [length_append] at hsum
    omega
  have hstands : StandsAt n.wire out 12 := by
    refine ⟨(answerMessage wq n recs edns).header.wire,
      u16Be wq.qtype ++ u16Be wq.qclass ++ ((recs.flatMap fun r => pointerTo 12 ++ r.body) ++
        edns.toList.flatMap fun e => writeOptRr e.udpPayload), ?_, rfl⟩
    rw [hwire]
    simp [Question.wire]
  have hheader := Header.parse_readsBack (answerMessage wq n recs edns).header out []
    ⟨_, hwire.symm⟩
  have hquestion := reads_times (d := Question.parse) Question.wire id
    [(⟨n, wq.qtype, wq.qclass⟩ : Question)] (answerMessage wq n recs edns).header.wire 0
    (fun q _ pre _ hpre => q.parse_readsBack out pre hpre) (Nat.zero_le _)
    ⟨_, by rw [hwire, append_assoc]⟩
  rw [← length_append] at hquestion
  have hanswers := reads_times (d := Record.parse) (fun r : Record => pointerTo 12 ++ r.body)
    (Record.withName n) recs
    ((answerMessage wq n recs edns).header.wire ++
      [(⟨n, wq.qtype, wq.qclass⟩ : Question)].flatMap Question.wire) 13
    (fun r hr pre hpre hbuf => record_reads_pointer (hrecs r hr).2.2.1 (hrecs r hr).2.2.2
      hstands hpre hbuf)
    (by simp [Header.wire, Question.wire]; omega)
    ⟨_, by rw [hwire, append_assoc, append_assoc]⟩
  rw [← length_append] at hanswers
  have hopt := reads_times (d := Record.parse)
    (fun e : EdnsInfo => writeOptRr e.udpPayload) optRecord
    edns.toList
    ((answerMessage wq n recs edns).header.wire ++
      [(⟨n, wq.qtype, wq.qclass⟩ : Question)].flatMap Question.wire ++
      recs.flatMap fun r => pointerTo 12 ++ r.body) 0
    (fun e _ pre _ hpre => opt_readsBack e out pre hpre)
    (Nat.zero_le _) ⟨[], by rw [hwire]; simp only [append_assoc, append_nil]⟩
  have han : (answerMessage wq n recs edns).header.ancount.val = recs.length :=
    Nat.mod_eq_of_lt hcount
  have har : (answerMessage wq n recs edns).header.arcount.val = edns.toList.length := by
    cases edns <;> rfl
  exact parse_of_reads (h := (answerMessage wq n recs edns).header) hheader hquestion
    (by rw [han]; exact hanswers) (reads_pure []) (by rw [har]; exact hopt)

/-! ## Agreement -/

/-- Owner up to letter case, type, class, TTL and data of a record. -/
def content (r : Record) : List Bytes × U16 × U16 × U32 × Rdata :=
  (r.name.key, r.rtype, r.rclass, r.ttl, r.rdata)

/-- The datagram is a QUERY, and the response `out` has the rcode and the answer records that
    the serving core gives to it. -/
def Agrees (z : LocalZoneSet) (b out : Bytes) : Prop :=
  ∃ m resp core action, Message.parse b = .ok m ∧ m.header.opcode = 0 ∧
    Message.parse out = .ok resp ∧ answerLocal m z = some (core, action) ∧
    resp.header.rcodeLow = core.header.rcodeLow ∧
    (resp.answers.map content).Perm (core.answers.map content)

/-- The actions under which the serving core reads the records of the name. -/
def servesRecords (a : ZoneAction) : Bool := a = .static || a = .redirect || a = .blockPage

theorem localVerdict_of_records (ha : servesRecords a = true) (hr : z.localRecordsWire key t ≠ []) :
    localVerdict z key t a = (true, NOERROR, z.localRecordsWire key t) := by
  cases a with
  | refuse => cases ha
  | nxDomain => cases ha
  | _ => simp [localVerdict, hr]

theorem rcodeLow_setRcodeLow (h : Header) (rc : U16) :
    (h.setRcodeLow rc).rcodeLow.val = rc.val % 16 := by
  simp only [Header.rcodeLow, Header.setRcodeLow]
  omega

theorem answerLocal_eq_some {m core : Message} {q : Question}
    (hq : m.firstQuestion = some q) (h : answerLocal m z = some (core, a)) :
    z.findWire (lower q.name.wire) = some a ∧
      core.header.rcodeLow.val = (localVerdict z (lower q.name.wire) q.qtype a).2.1.val % 16 ∧
      core.answers = (localVerdict z (lower q.name.wire) q.qtype a).2.2 := by
  unfold answerLocal at h
  cases ha : z.findWire (lower q.name.wire) with
  | none => simp [hq, ha] at h
  | some a' =>
    simp only [hq, ha] at h
    obtain ⟨rfl, rfl⟩ := h
    exact ⟨rfl, rcodeLow_setRcodeLow _ _, rfl⟩

theorem exists_answerLocal {m : Message} {q : Question}
    (hq : m.firstQuestion = some q) (ha : z.findWire (lower q.name.wire) = some a) :
    ∃ core, answerLocal m z = some (core, a) := by
  unfold answerLocal
  simp only [hq, ha]
  exact ⟨_, rfl⟩

section

variable {Ip : Type} {hw : Bool} {iter : IterOrder} {zones : List LocalZone} {data : List LocalData}
  {ops : List ZoneOp} {acl : Ip → AclAction} {src : Option Ip} {outLen : ℕ} {b out : Bytes}
  {wq : WireQuery}

/-- An answer of the fast path: the records of the name at the time the configuration was
    read, which are at least a part of those it has now. -/
theorem answered_spec (hacl : (src.map acl).getD .allow = .allow) (hout : outLen < 65536)
    (hwq : parseQuery b = some wq)
    (h : answerDnsWire hw acl src outLen (runOps (fromConfig hw iter zones data) ops) b =
      .answered out) :
    ∃ n recs extra, wq.qnameWire = n.wire ∧ recs ≠ [] ∧ (∀ r ∈ recs, r.name.key = n.key) ∧
      (fromConfig hw iter zones data).localRecordsWire (lower wq.qnameWire) wq.qtype = recs ∧
      (runOps (fromConfig hw iter zones data) ops).localRecordsWire (lower wq.qnameWire) wq.qtype =
        recs ++ extra ∧
      Message.parse out = .ok (answerMessage wq n recs wq.edns) := by
  obtain ⟨wq', hwq', -, -, ⟨hrefuse, -⟩ | ⟨-, -, ht, entry, hl, hname, hne, hbuild⟩⟩ :=
    answerDnsWire_eq_answered_iff.mp h
  · cases hacl.symm.trans hrefuse
  obtain rfl : wq = wq' := Option.some.inj (hwq.symm.trans hwq')
  have hgrows := runOps_grows ops (fromConfig hw iter zones data)
  rw [hgrows.index] at hl
  obtain ⟨-, all, hall, hentry⟩ := fromConfig_indexed hw iter zones data _ _ hl
  have hmem := mem_recordsAt_config hall
  rw [hentry, recordsOf_indexEntry (fun r hr => (hmem r hr).2.2) ht] at hbuild hne
  rw [hname] at hall hmem
  -- the key of the index is that of a name, so the octets of the query are a name
  have hstored : lower wq.qnameWire ∈ configRecords data := mem_iff_lookup.mpr ⟨all, hall⟩
  obtain ⟨n', hn'⟩ := mem_configRecords hstored
  obtain ⟨n, hn, hkey⟩ := exists_of_lower_eq hn'
  have hstatic : lower wq.qnameWire ∈ (fromConfig hw iter zones data).staticNamesWire :=
    mem_append_right _ hstored
  have hat : (fromConfig hw iter zones data).recordsAt (lower wq.qnameWire) = all := by
    rw [LocalZoneSet.recordsAt, show AList.lookup _ _ = _ from hall]
    rfl
  obtain ⟨extra, hextra⟩ := hgrows.records _ hstatic
  rw [hat] at hextra
  refine ⟨n, all.filter fun r => r.rtype = wq.qtype, extra.filter fun r => r.rtype = wq.qtype, hn,
    ?_, ?_, ?_, ?_, ?_⟩
  · simpa using hne
  · intro r hr
    have hown := (hmem r (mem_filter.mp hr).1).1
    rw [hn] at hown
    exact lower_wire_eq_iff.mp hown
  · show ((fromConfig hw iter zones data).recordsAt _).filter _ = _
    rw [hat]
  · show ((runOps _ ops).recordsAt _).filter _ = _
    rw [← hextra, filter_append]
  · refine parse_buildAnswer hn hout (fun r hr => ?_) hbuild
    obtain ⟨hr, hrt⟩ := mem_filter.mp hr
    have hrt : r.rtype = wq.qtype := of_decide_eq_true hrt
    obtain ⟨-, hclass, htext⟩ := hmem r hr
    exact ⟨hrt, hclass, address_fits htext (by rwa [hrt])⟩

/-- For every configuration, sequence of changes and datagram that the fast path answers to an
    allowed client: it says what the serving core says exactly if `Message::parse` accepts the
    datagram with opcode QUERY, the action that governs the name serves its records, and these
    are the ones the configuration gave it. -/
theorem fastSlow_agree_iff (hacl : (src.map acl).getD .allow = .allow) (hout : outLen < 65536)
    (hwq : parseQuery b = some wq)
    (h : answerDnsWire hw acl src outLen (runOps (fromConfig hw iter zones data) ops) b =
      .answered out) :
    Agrees (runOps (fromConfig hw iter zones data) ops) b out ↔
      (∃ m, Message.parse b = .ok m ∧ m.header.opcode = 0) ∧
      ((runOps (fromConfig hw iter zones data) ops).findWire (lower wq.qnameWire)).any
        servesRecords = true ∧
      (runOps (fromConfig hw iter zones data) ops).localRecordsWire (lower wq.qnameWire) wq.qtype =
        (fromConfig hw iter zones data).localRecordsWire (lower wq.qnameWire) wq.qtype := by
  obtain ⟨n, recs, extra, hn, hne, hown, hthen, hnow, hparse⟩ := answered_spec hacl hout hwq h
  generalize hz : runOps (fromConfig hw iter zones data) ops = z at *
  have hsame : ((answerMessage wq n recs wq.edns).answers.map content) = recs.map content := by
    simp only [answerMessage, map_map]
    refine map_congr_left fun r hr => ?_
    simp [content, Record.withName, hown r hr]
  have hzero : (answerMessage wq n recs wq.edns).header.rcodeLow.val = 0 := by
    cases hrd : wq.rd <;> simp [answerMessage, answerFlags, hrd, Header.rcodeLow]
  have hnow' : z.localRecordsWire (lower wq.qnameWire) wq.qtype ≠ [] := by
    rw [hnow]
    exact append_ne_nil_of_left_ne_nil hne _
  have hfirst : ∀ m, Message.parse b = .ok m → m.firstQuestion = some ⟨n, wq.qtype, wq.qclass⟩ := by
    intro m hm
    rw [Message.firstQuestion, questions_of_parseQuery hm hwq hn]
    rfl
  rw [hn] at hnow hnow' hthen ⊢
  constructor
  · rintro ⟨m, resp, core, a, hm, hop, hresp, hcore, hrc, hperm⟩
    obtain rfl := Except.ok.inj (hparse.symm.trans hresp)
    obtain ⟨ha, hrc', hans⟩ := answerLocal_eq_some (hfirst m hm) hcore
    have hserves : servesRecords a = true := by
      -- the other two actions have an rcode of their own
      rw [← hrc, hzero] at hrc'
      cases a with
      | refuse => cases hrc'
      | nxDomain => cases hrc'
      | _ => rfl
    refine ⟨⟨m, hm, hop⟩, by rw [ha]; exact hserves, ?_⟩
    rw [localVerdict_of_records hserves hnow'] at hans
    rw [hsame, hans, hnow] at hperm
    have hlen := hperm.length_eq
    simp only [length_map, length_append] at hlen
    have : extra = [] := eq_nil_of_length_eq_zero (by omega)
    rw [hnow, hthen, this, append_nil]
  · rintro ⟨⟨m, hm, hop⟩, hserves, heq⟩
    obtain ⟨a, ha, hserves⟩ := (Option.any_eq_true _ _).mp hserves
    obtain ⟨core, hcore⟩ := exists_answerLocal (hfirst m hm) ha
    obtain ⟨-, hrc, hans⟩ := answerLocal_eq_some (hfirst m hm) hcore
    rw [localVerdict_of_records hserves hnow'] at hrc hans
    refine ⟨m, _, core, a, hm, hop, hparse, hcore, ?_, ?_⟩
    · ext
      rw [hzero, hrc]
      rfl
    · rw [hsame, hans, heq, hthen]

end

/-! ## A blocked name -/

/-- The query `a. A` -/
def queryNameA : Bytes := [0, 7, 1, 0, 0, 1, 0, 0, 0, 0, 0, 0] ++ [1, 97, 0, 0, 1, 0, 1]

/-- `a.` is refused after the configuration gave it an address. -/
def blockA : List ZoneOp := [.overrideZone [97] .refuse]

/-- The response of the fast path: `10.0.0.1`. -/
def answerNameA : Bytes :=
  [0, 7, 133, 128, 0, 1, 0, 1, 0, 0, 0, 0] ++ [1, 97, 0, 0, 1, 0, 1] ++
    [192, 12, 0, 1, 0, 1, 0, 0, 1, 44, 0, 4, 10, 0, 0, 1]

/-- The query as the fast path reads it. -/
def wireQueryA : WireQuery := ⟨7, [1, 97, 0], 1, 1, true, none⟩

theorem fastSlow_agree_iff_blocked :
    parseQuery queryNameA = some wireQueryA ∧
      answerDnsWire true (fun _ : Unit => .allow) none 512 (runOps zonesA blockA) queryNameA =
        .answered answerNameA ∧
      (Agrees (runOps zonesA blockA) queryNameA answerNameA ↔
        (∃ m, Message.parse queryNameA = .ok m ∧ m.header.opcode = 0) ∧
        ((runOps zonesA blockA).findWire (lower wireQueryA.qnameWire)).any servesRecords = true ∧
        (runOps zonesA blockA).localRecordsWire (lower wireQueryA.qnameWire) wireQueryA.qtype =
          zonesA.localRecordsWire (lower wireQueryA.qnameWire) wireQueryA.qtype) :=
  ⟨by decide +kernel, by decide +kernel,
    fastSlow_agree_iff rfl (show 512 < 65536 by decide) (by decide +kernel)
      (show answerDnsWire true (fun _ : Unit => .allow) none 512 (runOps zonesA blockA) queryNameA =
        .answered answerNameA by decide +kernel)⟩

/-- The serving core refuses the query; the fast path answers it with the address. -/
theorem blocked_answered :
    answerDnsWire true (fun _ : Unit => .allow) none 512 (runOps zonesA blockA) queryNameA =
      .answered answerNameA ∧
    (∃ m, Message.parse queryNameA = .ok m ∧
      ((answerLocal m (runOps zonesA blockA)).any fun r =>
        r.1.header.rcodeLow = REFUSED) = true) ∧
    (∃ resp, Message.parse answerNameA = .ok resp ∧ resp.header.rcodeLow = NOERROR) ∧
    ¬ Agrees (runOps zonesA blockA) queryNameA answerNameA := by
  obtain ⟨m, hm, hcore⟩ := exists_parse_of_any (b := queryNameA)
    (p := fun m => (answerLocal m (runOps zonesA blockA)).any fun r =>
      r.1.header.rcodeLow = REFUSED) (by decide +kernel)
  obtain ⟨resp, hresp, hrc⟩ := exists_parse_of_any (b := answerNameA)
    (p := fun resp => resp.header.rcodeLow = NOERROR) (by decide +kernel)
  have hrc := of_decide_eq_true hrc
  refine ⟨by decide +kernel, ⟨m, hm, hcore⟩, ⟨resp, hresp, hrc⟩, ?_⟩
  rintro ⟨m', resp', core, a, hm', -, hresp', hans, heq, -⟩
  obtain rfl := Except.ok.inj (hm.symm.trans hm')
  obtain rfl := Except.ok.inj (hresp.symm.trans hresp')
  rw [hans, Option.any_some, decide_eq_true_eq, ← heq, hrc] at hcore
  cases hcore

end Runbound.Local
