import Runbound.Server.CachedReply

/-!
# Who gets a stored response

The key of the shared cache is the name and the type of the question, so a response that
was fetched for a query with DO or CD is handed to clients that set neither.

* `run_origin`: every entry of the shared cache was made for a query of the history.
* `run_isolated`: if no query that was answered from upstream set CD, and those with DO got no
  DNSSEC records, then no later client gets what was fetched for another kind of query.
-/

namespace Runbound.Server

open Wire FastPath Local Lib List

/-! ## Histories -/

/-- The caches, and for each key of the shared one the query that last changed what stands
    under it. -/
structure Traced where
  caches : Caches := {}
  origin : U64 → Option Arrival := fun _ => none

/-- One query. -/
def Traced.step (h : Handler) (t : Traced) (a : Arrival) : Traced :=
  let caches := (serveWire h a t.caches).2
  { caches
    origin := fun k =>
      if caches.shared.lookup k = t.caches.shared.lookup k then t.origin k else some a }

/-- A history of queries, from empty caches. -/
def runTraced (h : Handler) (as : List Arrival) : Traced := as.foldl (Traced.step h) {}

/-- The query `a` is on record as the origin of the entry `e` at `k`, and it was made for it. -/
structure OriginOf (h : Handler) (t : Traced) (k : U64) (e : CacheEntry) (a : Arrival)
    (msg m : Message) : Prop where
  origin : t.origin k = some a
  parsed : Message.parse a.query = .ok msg
  stored : StoredFor h.cache msg a.resolution m
  payload : e.wirePayload = m.encode

/-- Every entry has an origin among `as`. -/
def Traced.Recorded (h : Handler) (as : List Arrival) (t : Traced) : Prop :=
  ∀ k e, t.caches.shared.lookup k = some e → ∃ a ∈ as, ∃ msg m, OriginOf h t k e a msg m

variable {a : Arrival}

theorem origin_step {h : Handler} {t : Traced} {k : U64}
    (hnew : (serveWire h a t.caches).2.shared.lookup k ≠ t.caches.shared.lookup k) :
    (t.step h a).origin k = some a := if_neg hnew

theorem step_recorded {h : Handler} {as : List Arrival} {t : Traced} (ht : t.Recorded h as)
    (ha : a ∈ as) : (t.step h a).Recorded h as := by
  intro k e he
  by_cases hsame : (serveWire h a t.caches).2.shared.lookup k = t.caches.shared.lookup k
  · obtain ⟨a', ha', msg, m, horigin⟩ := ht k e (hsame ▸ he)
    exact ⟨a', ha', msg, m, { horigin with origin := (if_pos hsame).trans horigin.origin }⟩
  · rcases serveWire_stores he with hold | ⟨msg, q, m, hp, -, hst, hentry⟩
    · exact absurd (he.trans hold.symm) hsame
    · exact ⟨a, ha, msg, m, origin_step hsame, hp, hst, hentry.payload⟩

theorem run_origin (h : Handler) (as : List Arrival) : (runTraced h as).Recorded h as :=
  List.foldlRecOn (motive := Traced.Recorded h as) as _
    (fun _ _ he => by cases he)
    fun _ ht _ ha => step_recorded ht ha

/-! ## Isolation -/

/-- The records a client reads in a response. -/
def received (resp : Message) : List Record := resp.answers ++ resp.authority

/-- After the history, a client that did not set DO gets no RRSIG, NSEC or NSEC3 record that was
    fetched for one that did, and one that did not set CD gets nothing fetched for one that did.
    `snap` is a published snapshot of the shared cache. -/
def Isolated (h : Handler) (as : List Arrival) : Prop :=
  ∀ (Ip : Type) (acc : Access Ip) (src : Option Ip) (txLen now : ℕ) (snap : CacheMap)
    (b r n : Bytes) (t : U16) (pos : ℕ) (a : Arrival) (m1 m2 : Message),
    txLen < 65536 →
    (∀ k e, snap.lookup k = some e → (runTraced h as).caches.shared.lookup k = some e) →
    Message.parse b = .ok m2 → cacheQuestion b = some (n, t, pos) →
    answerFromCache h.hw acc src txLen now snap b = some r →
    (runTraced h as).origin (cacheKey h.hw n t) = some a → Message.parse a.query = .ok m1 →
      (m2.doBit = false → m1.doBit = true →
        ∀ resp, Message.parse r = .ok resp → ∀ x ∈ received resp, isDenial x = false) ∧
      (m2.header.cd = false → m1.header.cd = false)

/-- A query without CD, and without DNSSEC records in the answer if it has DO. -/
def Harmless (a : Arrival) : Prop :=
  ∀ msg wire authed m, Message.parse a.query = .ok msg →
    a.resolution = .forward (some (wire, authed)) → Message.parse wire = .ok m →
    msg.header.cd = false ∧ (msg.doBit = true → ∀ r ∈ m.answers, isDenial r = false)

/-- The mode of the handler. -/
def Arrival.Forwarded (a : Arrival) : Prop := ∃ reply, a.resolution = .forward reply

theorem stored_forwarded {cfg : CacheCfg} {msg m : Message} (ha : Harmless a) (hfwd : a.Forwarded)
    (hp : Message.parse a.query = .ok msg) (hst : StoredFor cfg msg a.resolution m) :
    msg.header.cd = false ∧ (msg.doBit = true → ∀ x ∈ received m, isDenial x = false) := by
  obtain ⟨reply, hreply⟩ := hfwd
  rw [hreply] at hst
  cases hst with
  | forward hm =>
    obtain ⟨hcd, hdenial⟩ := ha msg _ _ _ hp hreply hm
    refine ⟨hcd, fun hdo x hx => ?_⟩
    simp only [received, answerOf, append_nil, mem_map] at hx
    obtain ⟨r, hr, rfl⟩ := hx
    exact hdenial hdo r hr
  | forwardNegative hm =>
    refine ⟨(ha msg _ _ _ hp hreply hm).1, fun _ x hx => ?_⟩
    -- only the SOA is kept
    simp only [received, negativeOf, nil_append, mem_filter, Bool.false_and,
      Bool.or_false, decide_eq_true_eq] at hx
    rw [isDenial, hx.2]
    decide

theorem counts_encode (m : Message) :
    be16 m.encode 6 = Fin.ofNat 65536 m.answers.length ∧
      be16 m.encode 8 = Fin.ofNat 65536 m.authority.length := by
  obtain ⟨body, h, -⟩ := Message.encode_eq_append m m rfl rfl rfl rfl
  rw [h]
  exact ⟨u16OfBe_u16Be _, u16OfBe_u16Be _⟩

/-- The records a client reads are among those of the stored message. -/
theorem received_copyOut {b : Bytes} {m resp : Message} (hw : m.WireOk)
    (hlen : m.encode.length < 65536) (hresp : Message.parse (copyOut b m.encode) = .ok resp) :
    ∀ x ∈ received resp, ∃ y ∈ received m, Record.Same y x := by
  intro x hx
  rcases copyOut_encode b hw hlen with h | ⟨m', k, -, -, -, hk, h⟩
  · obtain ⟨m', hm', hsame, -⟩ :=
      (patched b m).parse_encode hw (by rw [length_encode_patched]; exact hlen)
    rw [h, hm'] at hresp
    obtain rfl := Except.ok.inj hresp
    rcases mem_append.mp hx with hx | hx
    · obtain ⟨y, hy, hxy⟩ := exists_of_forall₂ hsame.answers.flip hx
      exact ⟨y, mem_append_left _ hy, hxy⟩
    · obtain ⟨y, hy, hxy⟩ := exists_of_forall₂ hsame.authority.flip hx
      exact ⟨y, mem_append_right _ hy, hxy⟩
  · -- a message that was cut down says that it has no records
    obtain ⟨-, ha, hn, -⟩ := counts_of_parse hresp
    have hcounts := counts_encode (cutDown m')
    rw [h, be16_take _ (by omega), hcounts.1] at ha
    rw [h, be16_take _ (by omega), hcounts.2] at hn
    rw [received, eq_nil_of_length_eq_zero ha.symm, eq_nil_of_length_eq_zero hn.symm] at hx
    cases hx

theorem parsed_of_forwarded (ha : a.Forwarded) : a.resolution.Parsed := by
  obtain ⟨reply, hreply⟩ := ha
  rw [hreply]
  trivial

/-- For every history of harmless queries in forwarding mode. -/
theorem run_isolated (h : Handler) (as : List Arrival) (hfwd : ∀ a ∈ as, a.Forwarded)
    (hok : ∀ a ∈ as, Harmless a) : Isolated h as := by
  intro Ip acc src txLen now snap b r n t pos a m1 m2 htx hsnap hm2 hq hans horigin hm1
  -- the entry of the hit and the query it was made for
  obtain ⟨n', t', pos', e, hq', -, -, hl, -, -, -, hle, rfl⟩ := answerFromCache_eq_some_iff.mp hans
  obtain ⟨rfl, rfl, rfl⟩ : n = n' ∧ t = t' ∧ pos = pos' := by simpa using hq.symm.trans hq'
  obtain ⟨a', ha', msg, m, ho⟩ := run_origin h as _ _ (hsnap _ _ hl)
  obtain rfl := Option.some.inj (ho.origin.symm.trans horigin)
  obtain rfl := Except.ok.inj (ho.parsed.symm.trans hm1)
  refine ⟨fun _ hdo resp hresp x hx => ?_, fun _ => ?_⟩
  · rw [ho.payload] at hle hresp
    have hw := ho.stored.wireOk (parsed_of_forwarded (hfwd _ ha'))
    obtain ⟨y, hy, hxy⟩ := received_copyOut hw (by omega) hresp x hx
    have hplain := (stored_forwarded (hok _ ha') (hfwd _ ha') ho.parsed ho.stored).2 hdo y hy
    rwa [isDenial, hxy.2.1]
  · exact (stored_forwarded (hok _ ha') (hfwd _ ha') ho.parsed ho.stored).1

/-! ## A signed answer -/

/-- The query `a. A` with CD and DO -/
def askSigned : Bytes :=
  [0, 1, 1, 16, 0, 1, 0, 0, 0, 0, 0, 1] ++ [1, 97, 0, 0, 1, 0, 1] ++
    [0, 0, 41, 4, 208, 0, 0, 128, 0, 0, 0]

/-- The response to it: `192.0.2.1` and an RRSIG record -/
def replySigned : Bytes :=
  [0, 1, 129, 144, 0, 1, 0, 2, 0, 0, 0, 0] ++ [1, 97, 0, 0, 1, 0, 1] ++
    [192, 12, 0, 1, 0, 1, 0, 0, 1, 44, 0, 4, 192, 0, 2, 1] ++
    [192, 12, 0, 46, 0, 1, 0, 0, 1, 44, 0, 2, 7, 7]

/-- It is forwarded. -/
def arrivalSigned : Arrival := { arrivalUpper with
  query := askSigned
  resolution := .forward (some (replySigned, false)) }

theorem harmless_arrivalUpper : Harmless arrivalUpper := by
  intro msg wire authed m hmsg _ _
  obtain ⟨msg', hmsg', hflags⟩ := exists_parse_of_any (b := askUpper)
    (p := fun m => !m.header.cd && !m.doBit) (by decide +kernel)
  obtain rfl := Except.ok.inj (hmsg'.symm.trans hmsg)
  rw [Bool.and_eq_true, Bool.not_eq_true', Bool.not_eq_true'] at hflags
  exact ⟨hflags.1, fun hdo => absurd (hflags.2.symm.trans hdo) nofun⟩

theorem run_isolated_upper :
    arrivalUpper.Forwarded ∧ Harmless arrivalUpper ∧ Isolated plainHandler [arrivalUpper] :=
  ⟨⟨_, rfl⟩, harmless_arrivalUpper, run_isolated plainHandler [arrivalUpper]
    (forall_mem_singleton.mpr ⟨_, rfl⟩) (forall_mem_singleton.mpr harmless_arrivalUpper)⟩

theorem origin_signed :
    (runTraced plainHandler [arrivalSigned]).origin (cacheKey true [1, 97, 0] Rtype.A) =
      some arrivalSigned := by
  have hnew : (serveWire plainHandler arrivalSigned {}).2.shared.lookup
      (cacheKey true [1, 97, 0] Rtype.A) ≠ none := by decide +kernel
  exact origin_step (t := {}) hnew

theorem signed_sent :
    (answerFromCache true (⟨fun _ => .allow, fun _ _ => false⟩ : Access Unit) none 4096 1
      (runTraced plainHandler [arrivalSigned]).caches.shared askLower).any
      (fun r => (Message.parse r).toOption.any fun m =>
        (received m).any fun x => x.rtype = Rtype.RRSIG) = true := by decide +kernel

/-- A client that set neither CD nor DO gets the RRSIG record of one that set both. -/
theorem signed_leaks :
    ∃ r m1 m2 resp,
      answerFromCache true (⟨fun _ => .allow, fun _ _ => false⟩ : Access Unit) none 4096 1
        (runTraced plainHandler [arrivalSigned]).caches.shared askLower = some r ∧
      Message.parse askSigned = .ok m1 ∧ m1.header.cd = true ∧ m1.doBit = true ∧
      Message.parse askLower = .ok m2 ∧ m2.header.cd = false ∧ m2.doBit = false ∧
      Message.parse r = .ok resp ∧ (∃ x ∈ received resp, x.rtype = Rtype.RRSIG) ∧
      ¬ Isolated plainHandler [arrivalSigned] := by
  obtain ⟨m1, hm1, hflags1⟩ := exists_parse_of_any (b := askSigned)
    (p := fun m => m.header.cd && m.doBit) (by decide +kernel)
  obtain ⟨m2, hm2, hflags2⟩ := exists_parse_of_any (b := askLower)
    (p := fun m => !m.header.cd && !m.doBit) (by decide +kernel)
  rw [Bool.and_eq_true] at hflags1
  rw [Bool.and_eq_true, Bool.not_eq_true', Bool.not_eq_true'] at hflags2
  obtain ⟨r, hr, hresp⟩ := (Option.any_eq_true _ _).mp signed_sent
  obtain ⟨resp, hparse, hx⟩ := exists_parse_of_any hresp
  obtain ⟨x, hx, hrrsig⟩ := any_eq_true.mp hx
  rw [decide_eq_true_eq] at hrrsig
  refine ⟨r, m1, m2, resp, hr, hm1, hflags1.1, hflags1.2, hm2, hflags2.1, hflags2.2, hparse,
    ⟨x, hx, hrrsig⟩, fun hiso => ?_⟩
  have hcd := (hiso Unit _ none 4096 1 _ askLower r [1, 97, 0] Rtype.A 19 arrivalSigned m1 m2
    (by decide) (fun _ _ h => h) hm2 (by decide +kernel) hr origin_signed hm1).2 hflags2.1
  exact absurd (hflags1.1.symm.trans hcd) nofun

end Runbound.Server
