import Runbound.Server.Mediation

/-!
# Views on the three datapaths (`dns/kernel_loop.rs`, `dns/xdp/worker.rs`, `dns/server.rs`)

A client whose address lies in a subnet of a view is to be answered from the view where
the view defines the name. Only `serve_wire` looks at the view before the global zones;
the kernel loop asks the global index and the global cache first, and `process_packet`
asks the addresses of the view, then the global cache and the global zones. Queries with
the DO bit into a signed zone are answered before the view on all of them.

* `serveTagged`, `kernelLoop`, `processPacket`: the datapaths.
* `splitHorizon_isolated_iff`: when each of them keeps to the view.
-/

namespace Runbound.Server

open Wire FastPath Local Lib Recursor Option Rtype Class Runbound.Dnssec

/-! ## The datapaths -/

/-- `SplitHorizonEntry` (config/parser.rs); a subnet that is no CIDR block is `none`. -/
structure SplitHorizonEntry where
  subnets : List (Option CidrBlock)
  localData : List LocalData

/-- `compile_split_horizon` (dns/server.rs:276). -/
def compileSplitHorizon (hw : Bool) (iter : IterOrder) (entries : List SplitHorizonEntry) :
    List (List CidrBlock × LocalZoneSet) :=
  entries.filterMap fun entry =>
    let subnets := entry.subnets.filterMap id
    if subnets = [] then none else some (subnets, fromConfig hw iter [] entry.localData)

/-- The state of the server. `snapshot` is the published copy of the shared cache, and
    `viewsBuilt` the time the snapshots of the views were built. -/
structure Node where
  crypto : Crypto
  hw : Bool
  iter : IterOrder
  entries : List SplitHorizonEntry
  front : Front
  compiled : front.splitHorizon = compileSplitHorizon hw iter entries
  handler : Handler
  zones : LocalZoneSet
  caches : Caches
  snapshot : Option CacheMap
  viewsBuilt : ℕ
  frameLen : ℕ

/-- A datagram and what happens around it: `dropped` if the fast loop drops it at once (a ban or
    its rate limit), `channelFull` if it cannot be handed on to `serve_wire`. -/
structure Datagram where
  raw : Bytes
  peer : IpAddr
  instant : ℕ
  now : U32
  resolution : Resolution
  signals : Signals
  dropped : Bool
  channelFull : Bool

namespace Node

variable (n : Node) (d : Datagram)

/-- `serve_wire` with the source of what it sends; an empty buffer is not sent. -/
def serveTagged : Option (Source × Bytes) :=
  match (frontStages n.crypto n.front d.signals d.peer d.raw n.zones).1 with
  | some e => (e.reply.filter (· ≠ [])).map fun b => (e.source, b)
  | none =>
    (serveDns n.crypto n.front d.signals d.peer d.raw n.handler d.instant d.now d.resolution
      n.zones n.caches).1.map fun b => (.upstream, b)

/-- What the fast path knows of access. -/
def access : Access IpAddr := ⟨n.front.acl.check, n.front.blocksWire⟩

/-- The lookup in a snapshot. -/
def lookupIn (snap : CacheMap) : Option Bytes :=
  answerFromCache n.hw n.access (some d.peer) n.frameLen d.instant snap d.raw

/-- The fallback of both loops: `serve_wire`, if the channel takes the datagram. -/
def fallback : Option (Source × Bytes) := if d.channelFull then none else n.serveTagged d

/-- One datagram of `kernel_loop` (dns/kernel_loop.rs:347-428). -/
def kernelLoop : Option (Source × Bytes) :=
  if d.dropped then none
  else
    match answerDnsWire n.hw n.front.acl.check (some d.peer) n.frameLen n.zones d.raw with
    | .answered out =>
      some (if n.front.acl.check d.peer = .allow then .globalZone else .gate, out)
    | .drop => none
    | .fallback =>
      match n.snapshot.bind (n.lookupIn d) with
      | some out => some (.globalCache, out)
      | none => n.fallback d

/-- The REFUSED response of `answer_dns` (dns/xdp/worker.rs:2146-2156). -/
def refusedOf (query : Message) (q : Question) : Message where
  header := query.header |>.setQr true |>.setAa false |>.setRa false |>.setRcodeLow Rcode.REFUSED
  questions := [q]

/-- `answer_dns` (dns/xdp/worker.rs:2118). -/
def answerDns : Option (Source × Bytes) :=
  match Message.parse d.raw with
  | .error _ => none
  | .ok query =>
    if query.header.qr ∨ query.header.opcode ≠ Opcode.QUERY then none
    else
      match query.firstQuestion with
      | none => none
      | some q =>
        match n.front.acl.check d.peer with
        | .deny => none
        | .refuse => some (.gate, (refusedOf query q).encode)
        | .allow =>
          if q.qtype = Rtype.ANY then none
          else (answerLocal query n.zones).map fun r => (.globalZone, r.1.encode)

/-- The local zones of `process_packet`, then its fallback (dns/xdp/worker.rs:1337-1372): what
    does not fit the frame is not sent. -/
def zonesOrFallback : Option (Source × Bytes) :=
  match n.answerDns d with
  | some r => if n.frameLen < r.2.length then none else some r
  | none => n.fallback d

/-- `build_view_snapshot` (dns/cache_snapshot.rs:102). -/
def viewSnapshot (v : LocalZoneSet) : CacheMap := Map.insertAll (localZoneEntries n.viewsBuilt v) ∅

/-- The DNS part of `process_packet` (dns/xdp/worker.rs:1306-1379). -/
def processPacket : Option (Source × Bytes) :=
  match (viewFor n.front d.peer).bind fun v => n.lookupIn d (n.viewSnapshot v) with
  | some out => some (.view, out)
  | none =>
    match n.snapshot with
    | some snap =>
      match n.lookupIn d snap with
      | some out => some (.globalCache, out)
      | none => if n.front.acl.check d.peer = .deny then none else n.zonesOrFallback d
    | none => n.zonesOrFallback d

end Node

/-! ## Keeping to the view -/

/-- What a view answers to a datagram: the reply of the serving core on it, or the address
    records of the name as its snapshot holds them. -/
def FromView (v : LocalZoneSet) (raw b : Bytes) : Prop :=
  (∃ action, serveDatagram raw v = some (b, action)) ∨
    ∃ name qtype pos payload, cacheQuestion raw = some (name, qtype, pos) ∧
      v.localRecordsWire name qtype ≠ [] ∧
      buildAnswerAAaaaWire (templateQuery name qtype) 512
        ((v.localRecordsWire name qtype).map wireRdata) none = some payload ∧
      b = copyOut raw payload

/-- What is sent, if anything, is the answer of the view, or a refusal without records. -/
def KeepsToView (v : LocalZoneSet) (raw : Bytes) (out : Option (Source × Bytes)) : Prop :=
  ∀ src b, out = some (src, b) → src = .gate ∨ (src = .view ∧ FromView v raw b)

/-- `serve_wire` comes to the view, or to nothing: no transfer of the global zones, no signed
    zone and no answer about the server. -/
def ServeKeeps (f : Front) (sig : Signals) (peer : IpAddr) (msg : Message) (q : Question)
    (z : LocalZoneSet) : Prop :=
  msg.header.opcode = Opcode.QUERY →
    (isTransfer q = true → isTransferAllowed peer f.axfrAllow = true →
      ∀ e ∈ z.recordsWire.entries, wireNameInZone e.1 (lower q.name.wire) = true → e.2 = []) ∧
    (isTransfer q = false →
      ((signerFor f msg q).isSome → f.acl.check peer = .allow → sig.withinRate = true →
        sig.permit = false) ∧
      (signerFor f msg q = none → accessStage f sig peer msg = none →
        (q.qclass = CH → chaosTxt f q = none) ∧
        (q.qclass = IN → ddrAnswer f q = none)))

namespace Node

variable (n : Node) (d : Datagram)

/-- The global index has the addresses of the name. -/
def IndexHit : Prop :=
  n.front.acl.check d.peer = .allow ∧
    ∃ wq entry, parseQuery d.raw = some wq ∧ wq.edns.any EdnsInfo.doBit = false ∧ wq.qclass = 1 ∧
      (wq.qtype = Rtype.A ∨ wq.qtype = AAAA) ∧
      n.zones.wireRecords.lookup (hashWireQname n.hw (lower wq.qnameWire)) = some entry ∧
      entry.wireQname = lower wq.qnameWire ∧ entry.recordsOf wq.qtype ≠ [] ∧
      (buildAnswerAAaaaWire wq n.frameLen (entry.recordsOf wq.qtype) wq.edns).isSome

/-- The access list keeps the client from the fast path. -/
def FastRefused : Prop :=
  ∃ wq, parseQuery d.raw = some wq ∧ wq.edns.any EdnsInfo.doBit = false ∧ wq.qtype ≠ Rtype.ANY ∧
    (n.front.acl.check d.peer = .deny ∨
      (n.front.acl.check d.peer = .refuse ∧ (buildRefused wq n.frameLen).isSome))

/-- A snapshot has a live entry for the question. -/
def CacheHit (snap : CacheMap) : Prop :=
  ∃ name qtype pos e, cacheQuestion d.raw = some (name, qtype, pos) ∧
    (parseOptRr d.raw (be16 d.raw 10).val pos).any EdnsInfo.doBit = false ∧
    n.access.admits (some d.peer) name = true ∧
    snap.lookup (cacheKey n.hw name qtype) = some e ∧ (e.wireQname = [] ∨ e.wireQname = name) ∧
    d.instant < e.expiresAt ∧ 2 ≤ e.wirePayload.length ∧ e.wirePayload.length ≤ n.frameLen

section

variable (msg : Message)

/-- The fallback keeps to the view. -/
def FallbackKeeps (q : Question) : Prop :=
  d.channelFull = true ∨ ServeKeeps n.front d.signals d.peer msg q n.zones

/-- When the kernel loop keeps to the view. -/
def KernelKeeps (q : Question) : Prop :=
  d.dropped = true ∨ n.FastRefused d ∨
    (¬ n.IndexHit d ∧ (∀ snap, n.snapshot = some snap → ¬ n.CacheHit d snap) ∧
      n.FallbackKeeps d msg q)

/-- `answer_dns` has an answer of the global zones. -/
def ZoneHit (q : Question) : Prop :=
  msg.header.qr = false ∧ msg.header.opcode = Opcode.QUERY ∧ n.front.acl.check d.peer = .allow ∧
    q.qtype ≠ Rtype.ANY ∧ (n.zones.findWire (lower q.name.wire)).isSome

/-- `answer_dns` refuses the client. -/
def ZoneRefused : Prop :=
  msg.header.qr = false ∧ msg.header.opcode = Opcode.QUERY ∧ n.front.acl.check d.peer = .refuse

/-- When the local zones of `process_packet` and its fallback keep to the view. -/
def ZonesKeep (q : Question) : Prop :=
  n.ZoneRefused d msg ∨
    (n.ZoneHit d msg q ∧ ∀ r, answerLocal msg n.zones = some r → n.frameLen < r.1.encode.length) ∨
    (¬ n.ZoneHit d msg q ∧ n.FallbackKeeps d msg q)

end

/-- When `process_packet` keeps to the view. -/
def PacketKeeps (v : LocalZoneSet) (msg : Message) (q : Question) : Prop :=
  n.CacheHit d (n.viewSnapshot v) ∨
    ((∀ snap, n.snapshot = some snap → ¬ n.CacheHit d snap) ∧
      ((n.snapshot.isSome ∧ n.front.acl.check d.peer = .deny) ∨ n.ZonesKeep d msg q))

end Node

/-! ## Outcomes -/

section

variable {v : LocalZoneSet} {raw : Bytes}

theorem keepsToView_none : KeepsToView v raw none := by
  intro src b h
  cases h

theorem keepsToView_some_iff {src : Source} {b : Bytes} :
    KeepsToView v raw (some (src, b)) ↔ src = .gate ∨ (src = .view ∧ FromView v raw b) := by
  constructor
  · intro h
    exact h src b rfl
  · rintro h src' b' heq
    cases heq
    exact h

theorem keepsToView_gate {b : Bytes} : KeepsToView v raw (some (.gate, b)) :=
  keepsToView_some_iff.mpr (Or.inl rfl)

theorem keepsToView_early_iff {e : Early} :
    KeepsToView v raw ((e.reply.filter (· ≠ [])).map fun b => (e.source, b)) ↔
      ∀ b, e.reply = some b → b ≠ [] →
        e.source = .gate ∨ (e.source = .view ∧ FromView v raw b) := by
  constructor
  · intro h b hb hne
    exact h e.source b (by simp [hb, hne])
  · intro h src b heq
    obtain ⟨b', hb', heq⟩ := map_eq_some_iff.mp heq
    cases heq
    obtain ⟨hb, hne⟩ := filter_eq_some_iff.mp hb'
    exact h b hb (by simpa using hne)

end

/-! ## `serve_wire` -/

section

variable {f : Front} {sig : Signals} {peer : IpAddr} {msg : Message} {q : Question}
  {z v : LocalZoneSet} {raw : Bytes} {a : ZoneAction}

/-- A transfer has records exactly if the store has some in the zone. -/
theorem axfrMessage_eq_none_iff {now : ℕ} :
    axfrMessage msg q now z = none ↔
      ∀ e ∈ z.recordsWire.entries, wireNameInZone e.1 (lower q.name.wire) = true → e.2 = [] := by
  unfold axfrMessage
  simp only [ite_eq_left_iff, reduceCtorEq, imp_false, not_not, List.flatMap_eq_nil_iff,
    List.mem_filter, List.map_eq_nil_iff, and_imp]

variable (z) in
theorem localStage_view (hp : Message.parse raw = .ok msg) (hq : msg.firstQuestion = some q)
    (hv : viewFor f peer = some v) (ha : v.findWire (lower q.name.wire) = some a) :
    ∃ b, localStage f peer raw msg q z = some ⟨.view, some b⟩ ∧ FromView v raw b := by
  obtain ⟨core, hcore⟩ := exists_answerLocal hq ha
  have hserve : serveDatagram raw v = some (core.encode, a) := by
    simp [serveDatagram, hp, hcore]
  exact ⟨core.encode, by simp [localStage, hv, hserve], Or.inl ⟨a, hserve⟩⟩

theorem source_accessStage {e : Early} (h : accessStage f sig peer msg = some e) :
    e.source = .gate := by
  simp only [accessStage, or_eq_some_iff] at h
  rcases h with h | ⟨-, h | ⟨-, h | ⟨-, h⟩⟩⟩
  · unfold aclStage at h
    cases hcheck : f.acl.check peer <;> rw [hcheck] at h <;> cases h <;> rfl
  · unfold cookieStage at h
    split_ifs at h
    obtain ⟨cc, -, h⟩ := bind_eq_some_iff.mp h
    split_ifs at h
    cases h
    rfl
  · unfold rateStage at h
    split_ifs at h <;> cases h <;> rfl
  · unfold abuseStage at h
    split_ifs at h
    cases h
    rfl

theorem ownStage_cases (f : Front) (msg : Message) (q : Question) :
    ((∃ b, ownStage f msg q = some ⟨.own, some b⟩ ∧ b ≠ []) ∧
        ¬ ((q.qclass = CH → chaosTxt f q = none) ∧ (q.qclass = IN → ddrAnswer f q = none))) ∨
      ((ownStage f msg q = none ∨ ∃ b, ownStage f msg q = some ⟨.gate, some b⟩) ∧
        (q.qclass = CH → chaosTxt f q = none) ∧
        (q.qclass = IN → ddrAnswer f q = none)) := by
  have hclasses : IN ≠ CH := by decide
  unfold ownStage
  by_cases hch : q.qclass = CH
  · rw [if_pos hch]
    cases htxt : chaosTxt f q with
    | some txt => exact Or.inl ⟨⟨_, rfl, encode_ne_nil _⟩, by simp [hch]⟩
    | none => exact Or.inr ⟨Or.inr ⟨_, rfl⟩, by simp, by simp [hch, hclasses.symm]⟩
  rw [if_neg hch]
  by_cases hin : q.qclass = IN
  · rw [if_neg (by simp [hin])]
    have hsvcb : q.qtype ≠ SVCB → ddrAnswer f q = none := by
      intro h
      simp [ddrAnswer, h]
    by_cases hany : q.qtype = Rtype.ANY
    · rw [if_pos hany]
      exact Or.inr ⟨Or.inr ⟨_, rfl⟩, by simp [hch], fun _ => hsvcb (by rw [hany]; decide)⟩
    rw [if_neg hany]
    by_cases hhttps : f.blockHttpsRecord = true ∧ q.qtype = HTTPS
    · rw [if_pos hhttps]
      exact Or.inr ⟨Or.inr ⟨_, rfl⟩, by simp [hch], fun _ => hsvcb (by rw [hhttps.2]; decide)⟩
    rw [if_neg hhttps]
    cases hddr : ddrAnswer f q with
    | some recs => exact Or.inl ⟨⟨_, rfl, encode_ne_nil _⟩, by simp [hin]⟩
    | none => exact Or.inr ⟨Or.inl rfl, by simp [hch], by simp⟩
  · rw [if_pos hin]
    exact Or.inr ⟨Or.inr ⟨_, rfl⟩, by simp [hch], by simp [hin]⟩

theorem transferStage_keeps_iff :
    KeepsToView v raw (((transferStage f sig peer msg q z).reply.filter (· ≠ [])).map
        fun b => ((transferStage f sig peer msg q z).source, b)) ↔
      (isTransferAllowed peer f.axfrAllow = true →
        ∀ e ∈ z.recordsWire.entries, wireNameInZone e.1 (lower q.name.wire) = true → e.2 = []) := by
  rw [keepsToView_early_iff, ← axfrMessage_eq_none_iff]
  unfold transferStage
  cases hallow : isTransferAllowed peer f.axfrAllow with
  | false => simp
  | true =>
    cases hm : axfrMessage msg q sig.now z with
    | none => simp
    | some m => simp [encode_ne_nil m]

variable (sig peer z v raw) in
/-- A query into a signed zone keeps to the view if the client is refused. -/
theorem signedStage_keeps_iff (crypto : Crypto) {s : ZoneSigner}
    (hs : signerFor f msg q = some s) :
    ∃ e, signedStage crypto f sig peer msg q z = some e ∧
      (KeepsToView v raw ((e.reply.filter (· ≠ [])).map fun b => (e.source, b)) ↔
        (f.acl.check peer = .allow → sig.withinRate = true → sig.permit = false)) := by
  refine ⟨_, by rw [signedStage, hs]; rfl, ?_⟩
  rw [keepsToView_early_iff]
  by_cases hacl : f.acl.check peer = .allow
  · cases hrate : sig.withinRate with
    | false => simp [hacl]
    | true =>
      cases hpermit : sig.permit with
      | false => simp [hacl]
      | true => simp [hacl, serveSigned, encode_ne_nil]
  · simp [hacl]

end

/-! ## The two loops -/

namespace Node

variable {n : Node} {d : Datagram} {msg : Message} {q : Question} {v : LocalZoneSet}
  {a : ZoneAction}

/-- The fast path turns a client away, answers from the index, or hands the query on. -/
theorem answerDnsWire_ne_fallback_iff :
    answerDnsWire n.hw n.front.acl.check (some d.peer) n.frameLen n.zones d.raw ≠ .fallback ↔
      n.FastRefused d ∨ n.IndexHit d := by
  constructor
  · intro h
    cases hout : answerDnsWire n.hw n.front.acl.check (some d.peer) n.frameLen n.zones d.raw with
    | fallback => exact absurd hout h
    | drop =>
      obtain ⟨wq, hwq, hdo, hany, hdeny⟩ := answerDnsWire_eq_drop_iff.mp hout
      exact Or.inl ⟨wq, hwq, hdo, hany, Or.inl hdeny⟩
    | answered out =>
      obtain ⟨wq, hwq, hdo, hany, ⟨href, hb⟩ | ⟨hacl, hclass, htype, entry, hl, hname, hne, hb⟩⟩ :=
        answerDnsWire_eq_answered_iff.mp hout
      · exact Or.inl ⟨wq, hwq, hdo, hany, Or.inr ⟨href, by rw [hb]; rfl⟩⟩
      · exact Or.inr ⟨hacl, wq, entry, hwq, hdo, hclass, htype, hl, hname, hne, by rw [hb]; rfl⟩
  · rintro (⟨wq, hwq, hdo, hany, hdeny | ⟨href, hb⟩⟩ |
      ⟨hacl, wq, entry, hwq, hdo, hclass, htype, hl, hname, hne, hb⟩) hout
    · cases hout.symm.trans (answerDnsWire_eq_drop_iff.mpr ⟨wq, hwq, hdo, hany, hdeny⟩)
    · obtain ⟨out, hb⟩ := isSome_iff_exists.mp hb
      cases hout.symm.trans
        (answerDnsWire_eq_answered_iff.mpr ⟨wq, hwq, hdo, hany, Or.inl ⟨href, hb⟩⟩)
    · obtain ⟨out, hb⟩ := isSome_iff_exists.mp hb
      have hany : wq.qtype ≠ Rtype.ANY := by
        rcases htype with h | h <;> rw [h] <;> decide
      cases hout.symm.trans (answerDnsWire_eq_answered_iff.mpr
        ⟨wq, hwq, hdo, hany, Or.inr ⟨hacl, hclass, htype, entry, hl, hname, hne, hb⟩⟩)

theorem isSome_lookupIn_iff {snap : CacheMap} : (n.lookupIn d snap).isSome ↔ n.CacheHit d snap := by
  rw [isSome_iff_exists]
  constructor
  · rintro ⟨b, hb⟩
    obtain ⟨name, qtype, pos, e, h1, h2, h3, h4, h5, h6, h7, h8, -⟩ :=
      answerFromCache_eq_some_iff.mp hb
    exact ⟨name, qtype, pos, e, h1, h2, h3, h4, h5, h6, h7, h8⟩
  · rintro ⟨name, qtype, pos, e, h1, h2, h3, h4, h5, h6, h7, h8⟩
    exact ⟨_, answerFromCache_eq_some_iff.mpr
      ⟨name, qtype, pos, e, h1, h2, h3, h4, h5, h6, h7, h8, rfl⟩⟩

/-- A lookup in the shared cache keeps to the view if it finds nothing. -/
theorem cached_keeps_iff (n : Node) (d : Datagram) (v : LocalZoneSet) (snap : CacheMap)
    (rest : Option (Source × Bytes)) :
    KeepsToView v d.raw
        (match n.lookupIn d snap with
          | some out => some (.globalCache, out)
          | none => rest) ↔
      ¬ n.CacheHit d snap ∧ KeepsToView v d.raw rest := by
  rw [← isSome_lookupIn_iff]
  cases n.lookupIn d snap with
  | some out => simp [keepsToView_some_iff]
  | none => simp

theorem fromView_of_lookupIn {b : Bytes} (hv : viewFor n.front d.peer = some v)
    (h : n.lookupIn d (n.viewSnapshot v) = some b) : FromView v d.raw b := by
  obtain ⟨data, rfl⟩ : ∃ data, v = fromConfig n.hw n.iter [] data := by
    obtain ⟨⟨subnets, v'⟩, hfind, rfl⟩ := map_eq_some_iff.mp hv
    have hmem := List.mem_of_find?_eq_some hfind
    rw [n.compiled, compileSplitHorizon, List.mem_filterMap] at hmem
    obtain ⟨entry, -, hentry⟩ := hmem
    simp only [ite_none_left_eq_some, Option.some.injEq, Prod.mk.injEq] at hentry
    exact ⟨entry.localData, hentry.2.2.symm⟩
  obtain ⟨name, qtype, pos, e, hq, -, -, hl, hname, -, -, -, rfl⟩ :=
    answerFromCache_eq_some_iff.mp h
  rcases Map.lookup_insertAll hl with hmem | ⟨-, hl⟩
  · obtain ⟨key, entry, qtype', hentry, htype, heq⟩ := mem_localZoneEntries.mp hmem
    obtain ⟨hne, payload, hbuild, hpair⟩ := localZoneEntry_eq_some_iff.mp heq
    obtain ⟨hkey, rfl⟩ := Prod.mk.inj hpair
    obtain ⟨hhash, recs, hrecs, hindex⟩ := fromConfig_indexed n.hw n.iter [] data _ _ hentry
    -- the entry has a name, so it is the one asked for, and then so is the type
    have hentryName : entry.wireQname = name := by
      refine hname.resolve_left fun hnil => ?_
      obtain ⟨owner, howner⟩ := mem_configRecords (Map.mem_iff_lookup.mpr ⟨recs, hrecs⟩)
      have := congrArg List.length (hnil.symm.trans howner)
      simp [wireNameKey] at this
    rw [hhash, hentryName] at hkey
    obtain rfl : qtype = qtype' := mixType_inj hkey
    rw [hentryName] at hrecs hbuild
    have hrecords : entry.recordsOf qtype =
        ((fromConfig n.hw n.iter [] data).localRecordsWire name qtype).map wireRdata := by
      rw [hindex, recordsOf_indexEntry (fun r hr => (mem_recordsAt_config hrecs r hr).2.2) htype,
        LocalZoneSet.localRecordsWire, show AList.lookup _ _ = _ from hrecs]
      rfl
    rw [hrecords] at hne hbuild
    exact Or.inr ⟨name, qtype, pos, payload, hq, by simpa using hne, hbuild, rfl⟩
  · cases hl

/-- What `answer_dns` does with a query. -/
theorem answerDns_eq_some_iff {src : Source} {b : Bytes} (hp : Message.parse d.raw = .ok msg)
    (hq : msg.firstQuestion = some q) :
    n.answerDns d = some (src, b) ↔
      (n.ZoneRefused d msg ∧ src = .gate ∧ b = (refusedOf msg q).encode) ∨
        (n.ZoneHit d msg q ∧ ∃ r, answerLocal msg n.zones = some r ∧ src = .globalZone ∧
          b = r.1.encode) := by
  have hlocal : ∀ r, answerLocal msg n.zones = some r →
      (n.zones.findWire (lower q.name.wire)).isSome := by
    intro r hr
    cases ha : n.zones.findWire (lower q.name.wire) with
    | none => simp [answerLocal, hq, ha] at hr
    | some a => rfl
  unfold ZoneRefused ZoneHit answerDns
  simp only [hp, hq]
  cases n.front.acl.check d.peer <;> cases hr : answerLocal msg n.zones <;> grind

variable (hp : Message.parse d.raw = .ok msg) (hq : msg.firstQuestion = some q)
  (hv : viewFor n.front d.peer = some v) (ha : v.findWire (lower q.name.wire) = some a)

include hp hq hv ha

/-- `serve_wire` keeps to a view that defines the name exactly under that condition. -/
theorem serveTagged_keeps_iff : KeepsToView v d.raw (n.serveTagged d) ↔
    ServeKeeps n.front d.signals d.peer msg q n.zones := by
  have hearly : ∀ e z', frontStages n.crypto n.front d.signals d.peer d.raw n.zones = (some e, z') →
      (KeepsToView v d.raw (n.serveTagged d) ↔
        KeepsToView v d.raw ((e.reply.filter (· ≠ [])).map fun b => (e.source, b))) := by
    intro e z' h
    rw [serveTagged, h]
  have hgate : ∀ e z', frontStages n.crypto n.front d.signals d.peer d.raw n.zones = (some e, z') →
      e.source = .gate → KeepsToView v d.raw (n.serveTagged d) := by
    intro e z' h hsrc
    rw [hearly e z' h, keepsToView_early_iff]
    exact fun b _ _ => Or.inl hsrc
  have hopcodes : Opcode.QUERY ≠ Opcode.UPDATE := by decide
  by_cases hquery : msg.header.opcode = Opcode.QUERY
  · have hstages : frontStages n.crypto n.front d.signals d.peer d.raw n.zones =
        (queryStages n.crypto n.front d.signals d.peer d.raw msg q n.zones, n.zones) := by
      simp [frontStages, hp, hq, hquery, hopcodes]
    cases ht : isTransfer q with
    | true =>
      rw [hearly (transferStage n.front d.signals d.peer msg q n.zones) n.zones
        (by rw [hstages, queryStages, if_pos ht]), transferStage_keeps_iff]
      simp [ServeKeeps, hquery, ht]
    | false =>
      have hrest : queryStages n.crypto n.front d.signals d.peer d.raw msg q n.zones =
          (signedStage n.crypto n.front d.signals d.peer msg q n.zones).or
            ((accessStage n.front d.signals d.peer msg).or
              ((ownStage n.front msg q).or (localStage n.front d.peer d.raw msg q n.zones))) := by
        simp [queryStages, ht]
      cases hs : signerFor n.front msg q with
      | some s =>
        -- a signed zone is served before the view
        obtain ⟨e, he, hiff⟩ := signedStage_keeps_iff d.signals d.peer n.zones v d.raw n.crypto hs
        rw [hearly e n.zones (by rw [hstages, hrest, he, some_or]), hiff]
        simp [ServeKeeps, hquery, ht, hs]
      | none =>
        have hunsigned : signedStage n.crypto n.front d.signals d.peer msg q n.zones = none := by
          simp [signedStage, hs]
        rw [hunsigned, none_or] at hrest
        cases hacc : accessStage n.front d.signals d.peer msg with
        | some e =>
          refine iff_of_true (hgate e n.zones ?_ (source_accessStage hacc)) ?_
          · rw [hstages, hrest, hacc, some_or]
          · simp [ServeKeeps, ht, hs, hacc]
        | none =>
          rw [hacc, none_or] at hrest
          have hcond : ServeKeeps n.front d.signals d.peer msg q n.zones ↔
              (q.qclass = CH → chaosTxt n.front q = none) ∧
              (q.qclass = IN → ddrAnswer n.front q = none) := by
            simp [ServeKeeps, hquery, ht, hs, hacc]
          rw [hcond]
          rcases ownStage_cases n.front msg q with
            ⟨⟨b, hown, hne⟩, hno⟩ | ⟨hown | ⟨b, hown⟩, hyes⟩
          · refine iff_of_false (fun hkeeps => ?_) hno
            rw [hearly _ n.zones (by rw [hstages, hrest, hown, some_or]),
              keepsToView_early_iff] at hkeeps
            exact absurd (hkeeps b rfl hne) (by simp)
          · obtain ⟨b, hlocal, hview⟩ := localStage_view n.zones hp hq hv ha
            refine iff_of_true ?_ hyes
            rw [hearly _ n.zones (by rw [hstages, hrest, hown, none_or, hlocal]),
              keepsToView_early_iff]
            intro b' hb' _
            cases hb'
            exact Or.inr ⟨rfl, hview⟩
          · exact iff_of_true (hgate _ n.zones (by rw [hstages, hrest, hown, some_or]) rfl) hyes
  · refine iff_of_true ?_ fun h => absurd h hquery
    by_cases hup : msg.header.opcode = Opcode.UPDATE
    · exact hgate ⟨.gate, some (updateStage n.front d.signals msg n.zones).1⟩
        (updateStage n.front d.signals msg n.zones).2
        (by simp [frontStages, hp, hq, hup]) rfl
    · exact hgate ⟨.gate, some (wireError msg Rcode.NOTIMP)⟩ n.zones
        (by simp [frontStages, hp, hq, hup, hquery]) rfl

theorem fallback_keeps_iff : KeepsToView v d.raw (n.fallback d) ↔ n.FallbackKeeps d msg q := by
  unfold fallback FallbackKeeps
  cases hfull : d.channelFull with
  | true => exact iff_of_true keepsToView_none (Or.inl rfl)
  | false => simpa using serveTagged_keeps_iff hp hq hv ha

theorem kernelLoop_keeps_iff : KeepsToView v d.raw (n.kernelLoop d) ↔ n.KernelKeeps d msg q := by
  unfold kernelLoop KernelKeeps
  cases hdrop : d.dropped with
  | true => exact iff_of_true keepsToView_none (Or.inl rfl)
  | false =>
    rw [if_neg (by simp)]
    -- after the index, the shared cache and the fallback
    have hrest : KeepsToView v d.raw
        (match n.snapshot.bind (n.lookupIn d) with
          | some out => some (.globalCache, out)
          | none => n.fallback d) ↔
        (∀ snap, n.snapshot = some snap → ¬ n.CacheHit d snap) ∧ n.FallbackKeeps d msg q := by
      rw [← fallback_keeps_iff hp hq hv ha]
      cases n.snapshot with
      | none => simp
      | some snap => simpa using cached_keeps_iff n d v snap (n.fallback d)
    have hfast := answerDnsWire_ne_fallback_iff (n := n) (d := d)
    cases hout : answerDnsWire n.hw n.front.acl.check (some d.peer) n.frameLen n.zones d.raw with
    | fallback =>
      obtain ⟨href, hmiss⟩ := not_or.mp fun h => hfast.mpr h hout
      simpa [href, hmiss] using hrest
    | drop =>
      obtain ⟨wq, hwq, hdo, hany, hdeny⟩ := answerDnsWire_eq_drop_iff.mp hout
      exact iff_of_true keepsToView_none (Or.inr (Or.inl ⟨wq, hwq, hdo, hany, Or.inl hdeny⟩))
    | answered out =>
      by_cases hacl : n.front.acl.check d.peer = .allow
      · have hno : ¬ n.FastRefused d := by
          rintro ⟨wq, -, -, -, h⟩
          simp [hacl] at h
        have hhit := (hfast.mp (by simp [hout])).resolve_left hno
        simp [keepsToView_some_iff, hacl, hno, hhit]
      · have href := (hfast.mp (by simp [hout])).resolve_right fun h => hacl h.1
        simp [hacl, href, keepsToView_gate]

theorem zonesOrFallback_keeps_iff :
    KeepsToView v d.raw (n.zonesOrFallback d) ↔ n.ZonesKeep d msg q := by
  unfold zonesOrFallback ZonesKeep
  cases hans : n.answerDns d with
  | some answer =>
    obtain ⟨src, b⟩ := answer
    rcases (answerDns_eq_some_iff hp hq).mp hans with ⟨href, rfl, -⟩ | ⟨hhit, r, hr, rfl, rfl⟩
    · refine iff_of_true ?_ (Or.inl href)
      by_cases hlong : n.frameLen < b.length
      · simp [hlong, keepsToView_none]
      · simp [hlong, keepsToView_gate]
    · have href : ¬ n.ZoneRefused d msg := fun h => by cases h.2.2.symm.trans hhit.2.2.1
      by_cases hlong : n.frameLen < r.1.encode.length
      · simp [hlong, hhit, hr, keepsToView_none]
      · simp [hlong, href, hhit, hr, keepsToView_some_iff]
  | none =>
    have hnone : ∀ src b, n.answerDns d ≠ some (src, b) := by simp [hans]
    have href : ¬ n.ZoneRefused d msg := fun h =>
      hnone _ _ ((answerDns_eq_some_iff hp hq).mpr (Or.inl ⟨h, rfl, rfl⟩))
    have hhit : ¬ n.ZoneHit d msg q := by
      intro h
      obtain ⟨a, ha⟩ := isSome_iff_exists.mp h.2.2.2.2
      obtain ⟨core, hcore⟩ := exists_answerLocal hq ha
      exact hnone _ _ ((answerDns_eq_some_iff hp hq).mpr (Or.inr ⟨h, _, hcore, rfl, rfl⟩))
    simpa [href, hhit] using fallback_keeps_iff hp hq hv ha

theorem processPacket_keeps_iff :
    KeepsToView v d.raw (n.processPacket d) ↔ n.PacketKeeps d v msg q := by
  have hzones := zonesOrFallback_keeps_iff hp hq hv ha
  unfold processPacket PacketKeeps
  rw [hv, bind_some, ← isSome_lookupIn_iff]
  cases hview : n.lookupIn d (n.viewSnapshot v) with
  | some out =>
    refine iff_of_true ?_ (Or.inl rfl)
    exact keepsToView_some_iff.mpr (Or.inr ⟨rfl, fromView_of_lookupIn hv hview⟩)
  | none =>
    cases n.snapshot with
    | none => simpa using hzones
    | some snap =>
      by_cases hdeny : n.front.acl.check d.peer = .deny
      · simpa [hdeny, keepsToView_none] using cached_keeps_iff n d v snap none
      · have hcached := cached_keeps_iff n d v snap (n.zonesOrFallback d)
        rw [hzones] at hcached
        simpa [hdeny] using hcached

end Node

/-! ## All datapaths -/

/-- For every set of views, client whose view defines the name, and query: when each of the
    datapaths keeps to the view. -/
theorem splitHorizon_isolated_iff (n : Node) (d : Datagram) {msg : Message} {q : Question}
    {v : LocalZoneSet} {a : ZoneAction} (hp : Message.parse d.raw = .ok msg)
    (hq : msg.firstQuestion = some q) (hv : viewFor n.front d.peer = some v)
    (ha : v.findWire (lower q.name.wire) = some a) :
    (KeepsToView v d.raw (n.serveTagged d) ↔ ServeKeeps n.front d.signals d.peer msg q n.zones) ∧
      (KeepsToView v d.raw (n.kernelLoop d) ↔ n.KernelKeeps d msg q) ∧
      (KeepsToView v d.raw (n.processPacket d) ↔ n.PacketKeeps d v msg q) :=
  ⟨Node.serveTagged_keeps_iff hp hq hv ha, Node.kernelLoop_keeps_iff hp hq hv ha,
    Node.processPacket_keeps_iff hp hq hv ha⟩

/-! ## A view that the kernel loop passes over -/

/-- `a. 300 A 10.0.0.2` -/
def lineB : LocalData := LocalData.address Local.nameA 300 ![10, 0, 0, 2]

/-- The view of 192.0.2.0/24: `a.` has the address 10.0.0.2. -/
def entryB : SplitHorizonEntry := ⟨[some ⟨.v4 ![192, 0, 2, 0], 24, by decide⟩], [lineB]⟩

/-- The zone set of that view. -/
def viewB : LocalZoneSet := fromConfig true listOrder [] [lineB]

/-- A server with the view, and the address 10.0.0.1 of `a.` for everyone else. -/
def nodeB : Node where
  crypto := idealCrypto [] []
  hw := true
  iter := listOrder
  entries := [entryB]
  front := { splitHorizon := compileSplitHorizon true listOrder [entryB] }
  compiled := rfl
  handler := ⟨true, ⟨0, 86400, 100⟩, fun _ => false, none⟩
  zones := zonesA
  caches := {}
  snapshot := none
  viewsBuilt := 0
  frameLen := 4096

/-- The query `a. A` of a client of the view. -/
def datagramB : Datagram where
  raw := queryNameA
  peer := peerA
  instant := 0
  now := 0
  resolution := .forward none
  signals := {}
  dropped := false
  channelFull := false

theorem splitHorizon_isolated_iff_nodeB :
    ∃ msg q, Message.parse datagramB.raw = .ok msg ∧ msg.firstQuestion = some q ∧
      viewFor nodeB.front datagramB.peer = some viewB ∧
      viewB.findWire (lower q.name.wire) = some .static ∧
      (KeepsToView viewB datagramB.raw (nodeB.serveTagged datagramB) ↔
        ServeKeeps nodeB.front datagramB.signals datagramB.peer msg q nodeB.zones) ∧
      (KeepsToView viewB datagramB.raw (nodeB.kernelLoop datagramB) ↔
        nodeB.KernelKeeps datagramB msg q) ∧
      (KeepsToView viewB datagramB.raw (nodeB.processPacket datagramB) ↔
        nodeB.PacketKeeps datagramB viewB msg q) := by
  obtain ⟨msg, hp, hq⟩ := exists_parse_of_any (b := queryNameA)
    (p := fun m => m.firstQuestion = some (questionA Rtype.A)) (by decide +kernel)
  have hq : msg.firstQuestion = some (questionA Rtype.A) := of_decide_eq_true hq
  have hv : viewFor nodeB.front datagramB.peer = some viewB := rfl
  have ha : viewB.findWire (lower (questionA Rtype.A).name.wire) = some .static := by
    decide +kernel
  exact ⟨msg, _, hp, hq, hv, ha, splitHorizon_isolated_iff nodeB datagramB hp hq hv ha⟩

/-- The client of the view gets the address of everyone else from the kernel loop. -/
theorem view_passed_over :
    viewFor nodeB.front datagramB.peer = some viewB ∧
      viewB.findWire [1, 97, 0] = some .static ∧
      nodeB.kernelLoop datagramB = some (.globalZone, answerNameA) ∧
      ¬ KeepsToView viewB datagramB.raw (nodeB.kernelLoop datagramB) := by
  have hloop : nodeB.kernelLoop datagramB = some (.globalZone, answerNameA) := by decide +kernel
  refine ⟨rfl, by decide +kernel, hloop, ?_⟩
  rw [hloop, keepsToView_some_iff]
  simp

end Runbound.Server
