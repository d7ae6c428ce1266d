import Runbound.Server.SplitHorizon
import Runbound.Server.Truncation

/-!
# The size of what is sent over UDP (`dns/kernel_loop.rs`, `dns/xdp/worker.rs`)

A stored response that is too long for the client is cut down before it is sent. The responses
that the two loops build themselves, from the index and from the local zones, are only held
against the buffer or the frame they are written to: one that fits there is sent whatever the
client takes, and `process_packet` drops a local answer that does not.

Results:
* `length_buildAnswer`, `length_buildRefused`: what the wire builder writes.
* `copyOut_within_iff`: when a stored response is sent within the budget.
* `udpDiscipline_iff`: when both loops keep to the budget and drop no local answer.
-/

namespace Runbound.Server

open Wire FastPath Local Lib List Option

/-! ## What a client takes -/

/-- A payload within the budget, or a response with TC and no answers that is. -/
def WithinBudget (query b : Bytes) : Prop :=
  b.length ≤ budget query ∨
    ∃ m, Message.parse b = .ok m ∧ m.header.tc = true ∧ m.answers = [] ∧ b.length ≤ budget query

theorem withinBudget_iff {query b : Bytes} : WithinBudget query b ↔ b.length ≤ budget query := by
  constructor
  · rintro (h | ⟨-, -, -, -, h⟩)
    · exact h
    · exact h
  · exact Or.inl

theorem le_budget (query : Bytes) : 512 ≤ budget query := by
  unfold budget
  split
  · split
    · omega
    · exact le_rfl
  · exact le_rfl

/-! ## Stored responses -/

theorem length_patch (query wire : Bytes) : (patch query wire).length = wire.length := by
  unfold patch
  rw [length_take]
  simp only [length_cons, length_drop]
  omega

/-- A stored response is sent within the budget iff it fits or can be read and cut down. -/
theorem copyOut_within_iff (query wire : Bytes) :
    (copyOut query wire).length ≤ budget query ↔
      wire.length ≤ budget query ∨ ∃ m, Message.parse (patch query wire) = .ok m := by
  have hmin := le_budget query
  unfold copyOut
  by_cases hlong : wire.length > 512
  · rw [if_pos hlong, truncateUdpResponse_budget, length_patch]
    by_cases hfits : wire.length ≤ budget query
    · rw [if_pos hfits, length_patch]
      exact iff_of_true hfits (Or.inl hfits)
    · rw [if_neg hfits]
      cases hparse : Message.parse (patch query wire) with
      | error e => simp [length_patch]
      | ok m => simp
  · rw [if_neg hlong, length_patch]
    have hfits : wire.length ≤ budget query := by omega
    exact iff_of_true hfits (Or.inl hfits)

/-! ## Built responses -/

/-- The octets of a response of the wire builder: the header and the question, the records under
    pointers to it, and an OPT record if the query had one. -/
def answerSize (wq : WireQuery) (recs : List WireRdata) : ℕ :=
  16 + wq.qnameWire.length + (recs.map fun r => 12 + r.rdata.length).sum +
    if wq.edns.isSome then 11 else 0

theorem length_answerRrs (qtype : U16) (recs : List WireRdata) :
    (recs.flatMap (answerRr qtype)).length = (recs.map fun r => 12 + r.rdata.length).sum := by
  rw [length_flatMap]
  congr 1
  apply map_congr_left
  intro r _
  simp only [answerRr, length_append, u16Be_length, u32Be_length]

theorem length_opt (edns : Option EdnsInfo) :
    (edns.elim [] fun e => writeOptRr e.udpPayload).length = if edns.isSome then 11 else 0 := by
  cases edns with
  | none => rfl
  | some e => rfl

theorem written_iff {outLen size : ℕ} {out : Bytes} (hsize : out.length = size) :
    ((if outLen < out.length then none else some out).isSome ↔ size ≤ outLen) ∧
      ∀ b, (if outLen < out.length then none else some out) = some b → b.length = size := by
  rw [hsize]
  by_cases h : outLen < size
  · rw [if_pos h]
    simpa using h
  · rw [if_neg h]
    refine ⟨iff_of_true rfl (by omega), ?_⟩
    intro b hb
    rw [← Option.some.inj hb]
    exact hsize

theorem length_buildAnswer (wq : WireQuery) (outLen : ℕ) (recs : List WireRdata) :
    ((buildAnswerAAaaaWire wq outLen recs wq.edns).isSome ↔ answerSize wq recs ≤ outLen) ∧
      ∀ b, buildAnswerAAaaaWire wq outLen recs wq.edns = some b →
        b.length = answerSize wq recs := by
  apply written_iff
  rw [length_append, length_append, length_answerRrs, length_opt]
  simp only [length_append, u16Be_length, answerSize]
  omega

theorem length_buildRefused (wq : WireQuery) (outLen : ℕ) :
    ((buildRefused wq outLen).isSome ↔ answerSize wq [] ≤ outLen) ∧
      ∀ b, buildRefused wq outLen = some b → b.length = answerSize wq [] := by
  apply written_iff
  rw [length_append, length_opt]
  simp only [length_append, u16Be_length, answerSize, map_nil, sum_nil]
  omega

/-- The name of a query is at most 255 octets long, so every client takes a refusal. -/
theorem answerSize_nil_le {b : Bytes} {wq : WireQuery} (h : parseQuery b = some wq) :
    answerSize wq [] ≤ 282 := by
  obtain ⟨-, -, -, z, hz, -, rfl⟩ := parseQuery_eq_some h
  have hlt : z < 255 := by
    obtain ⟨hlt, -⟩ := findIdx?_eq_some_iff_getElem.mp hz
    exact lt_of_lt_of_le hlt (length_take_le _ _)
  have hname : ((b.drop 12).take (z + 1)).length ≤ z + 1 := length_take_le _ _
  simp only [answerSize, map_nil, sum_nil]
  split_ifs <;> omega

/-! ## The discipline -/

/-- The datagram with nobody to hand it on to: what the loops send for it is what they answer
    themselves. -/
def Datagram.alone (d : Datagram) : Datagram := { d with channelFull := true }

namespace Node

/-- Both loops keep to the budget of the client, and a local answer is not dropped. -/
structure UdpDiscipline (n : Node) (d : Datagram) : Prop where
  kernel : ∀ src b, n.kernelLoop d.alone = some (src, b) → WithinBudget d.raw b
  packet : ∀ src b, n.processPacket d.alone = some (src, b) → WithinBudget d.raw b
  sent : ∀ b, n.answerDns d = some (.globalZone, b) → n.processPacket d ≠ none

variable (n : Node) (d : Datagram)

/-- What the wire builder is asked for: a refusal, or the addresses the index has. -/
def Built (wq : WireQuery) (recs : List WireRdata) : Prop :=
  parseQuery d.raw = some wq ∧ wq.edns.any EdnsInfo.doBit = false ∧ wq.qtype ≠ Rtype.ANY ∧
    ((n.front.acl.check d.peer = .refuse ∧ recs = []) ∨
      (n.front.acl.check d.peer = .allow ∧ wq.qclass = 1 ∧
        (wq.qtype = Rtype.A ∨ wq.qtype = Rtype.AAAA) ∧
        ∃ entry, n.zones.wireRecords.lookup (hashWireQname n.hw (lower wq.qnameWire)) = some entry ∧
          entry.wireQname = lower wq.qnameWire ∧ entry.recordsOf wq.qtype ≠ [] ∧
          recs = entry.recordsOf wq.qtype))

/-- A snapshot has this live entry for the question. -/
def Stored (snap : CacheMap) (e : CacheEntry) : Prop :=
  ∃ name qtype pos, cacheQuestion d.raw = some (name, qtype, pos) ∧
    (parseOptRr d.raw (be16 d.raw 10).val pos).any EdnsInfo.doBit = false ∧
    n.access.admits (some d.peer) name = true ∧
    snap.lookup (cacheKey n.hw name qtype) = some e ∧ (e.wireQname = [] ∨ e.wireQname = name) ∧
    d.instant < e.expiresAt ∧ 2 ≤ e.wirePayload.length ∧ e.wirePayload.length ≤ n.frameLen

/-- What the shared cache has for the question is within the budget, or can be cut down. -/
def CacheFits : Prop :=
  ∀ snap e, n.snapshot = some snap → n.Stored d snap e →
    e.wirePayload.length ≤ budget d.raw ∨ ∃ m, Message.parse (patch d.raw e.wirePayload) = .ok m

/-- The addresses that the wire builder writes are within the budget; if it has nothing to write,
    the cache is asked. -/
def KernelFits : Prop :=
  d.dropped = true ∨
    ((∀ wq recs, n.Built d wq recs → recs ≠ [] → answerSize wq recs ≤ n.frameLen →
        answerSize wq recs ≤ budget d.raw) ∧
      ((∃ wq recs, n.Built d wq recs ∧ answerSize wq recs ≤ n.frameLen) ∨ n.CacheFits d))

/-- The answer of the local zones is within the budget and the frame. -/
def LocalFits : Prop :=
  ∀ msg q r, Message.parse d.raw = .ok msg → msg.firstQuestion = some q → n.ZoneHit d msg q →
    answerLocal msg n.zones = some r →
    r.1.encode.length ≤ budget d.raw ∧ r.1.encode.length ≤ n.frameLen

/-- The view answers, or what the cache has fits, or what the local zones have. -/
def PacketFits : Prop :=
  (∃ v, viewFor n.front d.peer = some v ∧ n.CacheHit d (n.viewSnapshot v)) ∨
    (n.CacheFits d ∧ ((∃ snap, n.snapshot = some snap ∧ n.CacheHit d snap) ∨ n.LocalFits d))

end Node

/-! ## The two loops -/

namespace Node

variable {n : Node} {d : Datagram}

theorem Built.unique {wq wq' : WireQuery} {recs recs' : List WireRdata} (h : n.Built d wq recs)
    (h' : n.Built d wq' recs') : wq = wq' ∧ recs = recs' := by
  obtain ⟨hwq, -, -, hcase⟩ := h
  obtain ⟨hwq', -, -, hcase'⟩ := h'
  obtain rfl : wq = wq' := Option.some.inj (hwq.symm.trans hwq')
  refine ⟨rfl, ?_⟩
  rcases hcase with ⟨hacl, rfl⟩ | ⟨hacl, -, -, entry, hl, -, -, rfl⟩
  · rcases hcase' with ⟨-, rfl⟩ | ⟨hacl', -⟩
    · rfl
    · rw [hacl] at hacl'
      cases hacl'
  · rcases hcase' with ⟨hacl', -⟩ | ⟨-, -, -, entry', hl', -, -, rfl⟩
    · rw [hacl] at hacl'
      cases hacl'
    · obtain rfl : entry = entry' := Option.some.inj (hl.symm.trans hl')
      rfl

/-- The fast path of the kernel loop answers with what the builder has written; else it drops the
    datagram of a client that is denied, or hands it on. -/
theorem answerDnsWire_cases (n : Node) (d : Datagram) :
    (∃ wq recs out, n.Built d wq recs ∧ answerSize wq recs ≤ n.frameLen ∧
        out.length = answerSize wq recs ∧
        answerDnsWire n.hw n.front.acl.check (some d.peer) n.frameLen n.zones d.raw =
          .answered out) ∨
      ((∀ wq recs, n.Built d wq recs → n.frameLen < answerSize wq recs) ∧
        (answerDnsWire n.hw n.front.acl.check (some d.peer) n.frameLen n.zones d.raw = .fallback ∨
          (n.front.acl.check d.peer = .deny ∧
            answerDnsWire n.hw n.front.acl.check (some d.peer) n.frameLen n.zones d.raw =
              .drop))) := by
  cases hout : answerDnsWire n.hw n.front.acl.check (some d.peer) n.frameLen n.zones d.raw with
  | answered out =>
    obtain ⟨wq, hwq, hdo, hany, ⟨href, hb⟩ | ⟨hacl, hclass, htype, entry, hl, hname, hne, hb⟩⟩ :=
      answerDnsWire_eq_answered_iff.mp hout
    · obtain ⟨hfits, hlen⟩ := length_buildRefused wq n.frameLen
      exact Or.inl ⟨wq, [], out, ⟨hwq, hdo, hany, Or.inl ⟨href, rfl⟩⟩,
        hfits.mp (by rw [hb]; rfl), hlen out hb, rfl⟩
    · obtain ⟨hfits, hlen⟩ := length_buildAnswer wq n.frameLen (entry.recordsOf wq.qtype)
      exact Or.inl ⟨wq, _, out,
        ⟨hwq, hdo, hany, Or.inr ⟨hacl, hclass, htype, entry, hl, hname, hne, rfl⟩⟩,
        hfits.mp (by rw [hb]; rfl), hlen out hb, rfl⟩
  | drop =>
    obtain ⟨-, -, -, -, hdeny⟩ := answerDnsWire_eq_drop_iff.mp hout
    replace hdeny : n.front.acl.check d.peer = .deny := hdeny
    refine Or.inr ⟨?_, Or.inr ⟨hdeny, rfl⟩⟩
    rintro wq recs ⟨-, -, -, ⟨h, -⟩ | ⟨h, -⟩⟩ <;> simp [hdeny] at h
  | fallback =>
    refine Or.inr ⟨fun wq recs hbuilt => ?_, Or.inl rfl⟩
    obtain ⟨hwq, hdo, hany, hcase⟩ := hbuilt
    -- what fits is written, and then the query is not handed on
    by_contra hle
    refine answerDnsWire_ne_fallback_iff.mpr ?_ hout
    rcases hcase with ⟨href, rfl⟩ | ⟨hacl, hclass, htype, entry, hl, hname, hne, rfl⟩
    · have hfits := (length_buildRefused wq n.frameLen).1.mpr (by omega)
      exact Or.inl ⟨wq, hwq, hdo, hany, Or.inr ⟨href, hfits⟩⟩
    · have hfits := (length_buildAnswer wq n.frameLen (entry.recordsOf wq.qtype)).1.mpr (by omega)
      exact Or.inr ⟨hacl, wq, entry, hwq, hdo, hclass, htype, hl, hname, hne, hfits⟩

theorem lookupIn_eq_some_iff {snap : CacheMap} {b : Bytes} :
    n.lookupIn d snap = some b ↔ ∃ e, n.Stored d snap e ∧ b = copyOut d.raw e.wirePayload := by
  rw [lookupIn, answerFromCache_eq_some_iff]
  constructor
  · rintro ⟨name, qtype, pos, e, h1, h2, h3, h4, h5, h6, h7, h8, rfl⟩
    exact ⟨e, ⟨name, qtype, pos, h1, h2, h3, h4, h5, h6, h7, h8⟩, rfl⟩
  · rintro ⟨e, ⟨name, qtype, pos, h1, h2, h3, h4, h5, h6, h7, h8⟩, rfl⟩
    exact ⟨name, qtype, pos, e, h1, h2, h3, h4, h5, h6, h7, h8, rfl⟩

/-- What the shared cache sends is within the budget iff what it has fits or can be cut down. -/
theorem cacheFits_iff :
    n.CacheFits d ↔ ∀ b, n.snapshot.bind (n.lookupIn d) = some b → WithinBudget d.raw b := by
  constructor
  · intro h b hb
    obtain ⟨snap, hsnap, hb⟩ := bind_eq_some_iff.mp hb
    obtain ⟨e, hstored, rfl⟩ := lookupIn_eq_some_iff.mp hb
    rw [withinBudget_iff, copyOut_within_iff]
    exact h snap e hsnap hstored
  · intro h snap e hsnap hstored
    rw [← copyOut_within_iff, ← withinBudget_iff]
    apply h
    rw [hsnap]
    exact lookupIn_eq_some_iff.mpr ⟨e, hstored, rfl⟩

theorem cacheFits_of_deny (h : n.front.acl.check d.peer = .deny) : n.CacheFits d := by
  rintro snap e - ⟨name, qtype, pos, -, -, hadm, -⟩
  simp [Access.admits, access, h] at hadm

theorem kernelLoop_fits_iff :
    (∀ src b, n.kernelLoop d.alone = some (src, b) → WithinBudget d.raw b) ↔ n.KernelFits d := by
  unfold kernelLoop KernelFits
  cases hdrop : d.dropped with
  | true => exact iff_of_true (by simp [Datagram.alone, hdrop]) (Or.inl rfl)
  | false =>
    simp only [show d.alone.dropped = false from hdrop, show d.alone.peer = d.peer from rfl,
      show d.alone.raw = d.raw from rfl, show n.lookupIn d.alone = n.lookupIn d from rfl,
      show n.fallback d.alone = none from rfl, Bool.false_eq_true, false_or]
    rcases answerDnsWire_cases n d with ⟨wq, recs, out, hb, hle, hlen, hout⟩ | ⟨hlong, hout⟩
    · rw [hout]
      constructor
      · intro h
        have hfits := withinBudget_iff.mp (h _ out rfl)
        refine ⟨?_, Or.inl ⟨wq, recs, hb, hle⟩⟩
        intro wq' recs' hb' _ _
        obtain ⟨rfl, rfl⟩ := hb.unique hb'
        omega
      · rintro ⟨hfits, -⟩ src b heq
        obtain ⟨-, rfl⟩ := Prod.mk.inj (Option.some.inj heq)
        rw [withinBudget_iff, hlen]
        by_cases hnil : recs = []
        · have hsmall := answerSize_nil_le hb.1
          have hmin := le_budget d.raw
          rw [hnil]
          omega
        · exact hfits wq recs hb hnil hle
    · have hnone : ¬ ∃ wq recs, n.Built d wq recs ∧ answerSize wq recs ≤ n.frameLen := by
        rintro ⟨wq, recs, hb, hle⟩
        have := hlong wq recs hb
        omega
      have hbuilt : ∀ wq recs, n.Built d wq recs → recs ≠ [] → answerSize wq recs ≤ n.frameLen →
          answerSize wq recs ≤ budget d.raw :=
        fun wq recs hb _ hle => absurd ⟨wq, recs, hb, hle⟩ hnone
      rw [and_iff_right hbuilt, or_iff_right hnone]
      rcases hout with hout | ⟨hdeny, hout⟩
      · rw [hout, cacheFits_iff]
        cases n.snapshot.bind (n.lookupIn d) with
        | none => simp
        | some out => simp
      · rw [hout]
        exact iff_of_true (fun _ _ h => by cases h) (cacheFits_of_deny hdeny)

theorem length_viewSnapshot {v : LocalZoneSet} {e : CacheEntry}
    (h : n.Stored d (n.viewSnapshot v) e) : e.wirePayload.length ≤ 512 := by
  obtain ⟨name, qtype, pos, -, -, -, hl, -⟩ := h
  rcases Map.lookup_insertAll hl with hmem | ⟨-, hl⟩
  · obtain ⟨key, entry, qtype', -, -, heq⟩ := mem_localZoneEntries.mp hmem
    obtain ⟨-, payload, hbuild, hpair⟩ := localZoneEntry_eq_some_iff.mp heq
    obtain ⟨-, rfl⟩ := Prod.mk.inj hpair
    obtain ⟨hfits, hlen⟩ := length_buildAnswer (templateQuery entry.wireQname qtype') 512
      (entry.recordsOf qtype')
    have hle := hfits.mp (by rw [show (templateQuery _ _).edns = none from rfl, hbuild]; rfl)
    rw [hlen payload hbuild]
    exact hle
  · cases hl

/-- An answer of `answer_dns` is one of the local zones, or a short refusal. -/
theorem answerDns_eq_some {src : Source} {b : Bytes} (h : n.answerDns d = some (src, b)) :
    b.length ≤ 271 ∧ src ≠ .globalZone ∨
      src = .globalZone ∧ ∃ msg q r, Message.parse d.raw = .ok msg ∧ msg.firstQuestion = some q ∧
        n.ZoneHit d msg q ∧ answerLocal msg n.zones = some r ∧ b = r.1.encode := by
  cases hp : Message.parse d.raw with
  | error e => simp [answerDns, hp] at h
  | ok msg =>
    cases hq : msg.firstQuestion with
    | none => simp [answerDns, hp, hq] at h
    | some q =>
      rcases (answerDns_eq_some_iff hp hq).mp h with ⟨-, rfl, rfl⟩ | ⟨hhit, r, hr, rfl, rfl⟩
      · exact Or.inl ⟨length_encode_le rfl rfl rfl (by simp [refusedOf]), by simp⟩
      · exact Or.inr ⟨rfl, msg, q, r, rfl, hq, hhit, hr, rfl⟩

/-- The local zones send what is within the budget, and drop nothing, iff their answer fits. -/
theorem zones_fit_iff :
    ((∀ src b, n.zonesOrFallback d.alone = some (src, b) → WithinBudget d.raw b) ∧
        ∀ b, n.answerDns d = some (.globalZone, b) → n.zonesOrFallback d ≠ none) ↔
      n.LocalFits d := by
  have hsame : n.answerDns d.alone = n.answerDns d := rfl
  constructor
  · rintro ⟨hwithin, hsent⟩ msg q r hp hq hhit hr
    have hans : n.answerDns d = some (.globalZone, r.1.encode) :=
      (answerDns_eq_some_iff hp hq).mpr (Or.inr ⟨hhit, r, hr, rfl, rfl⟩)
    have hframe : ¬ n.frameLen < r.1.encode.length := by
      intro hlt
      apply hsent _ hans
      simp only [zonesOrFallback, hans, if_pos hlt]
    refine ⟨?_, by omega⟩
    rw [← withinBudget_iff]
    apply hwithin .globalZone
    simp only [zonesOrFallback, hsame, hans, if_neg hframe]
  · intro hfits
    constructor
    · intro src b hb
      rw [withinBudget_iff]
      unfold zonesOrFallback at hb
      rw [hsame] at hb
      cases hans : n.answerDns d with
      | none =>
        rw [hans] at hb
        cases hb
      | some out =>
        simp only [hans, ite_none_left_eq_some, Option.some.injEq] at hb
        obtain ⟨-, rfl⟩ := hb
        rcases answerDns_eq_some hans with ⟨hlen, -⟩ | ⟨-, msg, q, r, hp, hq, hhit, hr, rfl⟩
        · have := le_budget d.raw
          omega
        · exact (hfits msg q r hp hq hhit hr).1
    · intro b hans
      rcases answerDns_eq_some hans with ⟨-, hne⟩ | ⟨-, msg, q, r, hp, hq, hhit, hr, rfl⟩
      · exact absurd rfl hne
      · have hframe := (hfits msg q r hp hq hhit hr).2
        simp only [zonesOrFallback, hans, if_neg (Nat.not_lt.mpr hframe)]
        exact some_ne_none _

theorem not_zoneHit_of_deny {msg : Message} {q : Question} (h : n.front.acl.check d.peer = .deny) :
    ¬ n.ZoneHit d msg q := by
  rintro ⟨-, -, hallow, -⟩
  rw [h] at hallow
  cases hallow

theorem isSome_bind_lookupIn_iff {α : Type} {o : Option α} (snapshotOf : α → CacheMap) :
    (o.bind fun a => n.lookupIn d (snapshotOf a)).isSome ↔
      ∃ a, o = some a ∧ n.CacheHit d (snapshotOf a) := by
  cases o <;> simp [isSome_lookupIn_iff]

/-- `process_packet` where the view has nothing: the cache, then the local zones. -/
theorem processPacket_of_noView
    (h : ((viewFor n.front d.peer).bind fun v => n.lookupIn d (n.viewSnapshot v)) = none) :
    n.processPacket d = (n.snapshot.bind (n.lookupIn d)).elim
      (if n.snapshot.isSome ∧ n.front.acl.check d.peer = .deny then none else n.zonesOrFallback d)
      fun out => some (.globalCache, out) := by
  unfold processPacket
  rw [h]
  cases n.snapshot with
  | none => simp
  | some snap => cases hl : n.lookupIn d snap <;> simp [hl]

/-- `process_packet` sends what is within the budget, and drops no local answer, iff what it
    comes to fits. -/
theorem processPacket_fits_iff :
    ((∀ src b, n.processPacket d.alone = some (src, b) → WithinBudget d.raw b) ∧
        ∀ b, n.answerDns d = some (.globalZone, b) → n.processPacket d ≠ none) ↔
      n.PacketFits d := by
  have hsnap : (n.snapshot.bind (n.lookupIn d)).isSome ↔
      ∃ snap, n.snapshot = some snap ∧ n.CacheHit d snap := isSome_bind_lookupIn_iff id
  rw [PacketFits, ← isSome_bind_lookupIn_iff n.viewSnapshot, ← hsnap]
  cases hview : (viewFor n.front d.peer).bind fun v => n.lookupIn d (n.viewSnapshot v) with
  | some out =>
    have hout : ∀ d', d' = d ∨ d' = d.alone → n.processPacket d' = some (.view, out) := by
      rintro d' (rfl | rfl)
      · simp only [processPacket, hview]
      · unfold processPacket
        rw [show ((viewFor n.front d.alone.peer).bind fun v =>
          n.lookupIn d.alone (n.viewSnapshot v)) = some out from hview]
    obtain ⟨v, -, hb⟩ := bind_eq_some_iff.mp hview
    obtain ⟨e, hstored, rfl⟩ := lookupIn_eq_some_iff.mp hb
    have hshort := length_viewSnapshot hstored
    have hmin := le_budget d.raw
    refine iff_of_true ⟨?_, ?_⟩ (Or.inl rfl)
    · intro src b h
      rw [hout _ (Or.inr rfl)] at h
      cases h
      rw [withinBudget_iff, copyOut_within_iff]
      exact Or.inl (by omega)
    · intro b _
      rw [hout _ (Or.inl rfl)]
      exact some_ne_none _
  | none =>
    rw [or_iff_right (by simp)]
    have halone := processPacket_of_noView (show ((viewFor n.front d.alone.peer).bind fun v =>
      n.lookupIn d.alone (n.viewSnapshot v)) = none from hview)
    rw [show n.lookupIn d.alone = n.lookupIn d from rfl] at halone
    rw [halone, processPacket_of_noView hview, cacheFits_iff]
    cases hcache : n.snapshot.bind (n.lookupIn d) with
    | some out => simp
    | none =>
      have hnothing : ∀ b, (none : Option Bytes) = some b → WithinBudget d.raw b := by
        simp
      rw [or_iff_right (by simp), and_iff_right hnothing]
      by_cases hdeny : n.snapshot.isSome ∧ n.front.acl.check d.peer = .deny
      · have hdeny' : n.snapshot.isSome ∧ n.front.acl.check d.alone.peer = .deny := hdeny
        rw [if_pos hdeny']
        have hlocal : n.LocalFits d := fun _ _ _ _ _ hhit => absurd hhit (not_zoneHit_of_deny hdeny.2)
        refine iff_of_true ⟨by simp, ?_⟩ hlocal
        intro b hans
        rcases answerDns_eq_some hans with ⟨-, hne⟩ | ⟨-, msg, q, r, -, -, hhit, -, -⟩
        · exact absurd rfl hne
        · exact absurd hhit (not_zoneHit_of_deny hdeny.2)
      · have hdeny' : ¬ (n.snapshot.isSome ∧ n.front.acl.check d.alone.peer = .deny) := hdeny
        rw [if_neg hdeny, if_neg hdeny']
        exact zones_fit_iff

/-- The loops keep to the budget of the client and drop no local answer iff what the index, the
    cache and the local zones have for the query fits it. Refusals and the answers of a view
    always do. -/
theorem udpDiscipline_iff (n : Node) (d : Datagram) :
    n.UdpDiscipline d ↔ n.KernelFits d ∧ n.PacketFits d := by
  rw [← kernelLoop_fits_iff, ← processPacket_fits_iff]
  constructor
  · intro h
    exact ⟨h.kernel, h.packet, h.sent⟩
  · rintro ⟨hkernel, hpacket, hsent⟩
    exact ⟨hkernel, hpacket, hsent⟩

end Node

/-! ## A name with many addresses -/

/-- `a. 300 A 10.0.0.i` -/
def lineOf (i : Byte) : LocalData :=
  ⟨some ⟨⟨nameA, Rtype.A, Class.IN, 300, .a ![10, 0, 0, i], rfl⟩, rfl, rfl⟩⟩

/-- A server with 32 addresses for `a.` -/
def crowdedNode : Node :=
  { nodeB with
    zones := fromConfig true listOrder [] ((List.range 32).map fun i => lineOf (Fin.ofNat 256 i)) }

/-- A client that takes 512 octets is sent 531. -/
theorem crowded_oversized :
    budget datagramB.raw = 512 ∧
      (∃ src b, crowdedNode.kernelLoop datagramB.alone = some (src, b) ∧ b.length = 531) ∧
      ¬ crowdedNode.UdpDiscipline datagramB := by
  have hbudget : budget datagramB.raw = 512 := by decide +kernel
  have hany : (crowdedNode.kernelLoop datagramB.alone).any (fun r => r.2.length = 531) = true := by
    decide +kernel
  obtain ⟨⟨src, b⟩, hsent, hlen⟩ := (any_eq_true _ _).mp hany
  have hlen : b.length = 531 := of_decide_eq_true hlen
  refine ⟨hbudget, ⟨src, b, hsent, hlen⟩, ?_⟩
  intro h
  have hwithin := withinBudget_iff.mp (h.kernel src b hsent)
  omega

end Runbound.Server
