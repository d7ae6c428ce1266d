import Runbound.FastPath.Parsed
import Runbound.Server.Serve
import Runbound.Wire.RoundTrip

/-!
# A stored response and the client that gets it

A stored response was written for the query that caused it. On a hit its identifier and
RD bit are replaced, and it is truncated to what the new client can take.

* `patch_encode`, `copyOut_encode`: what is sent is again an encoded message.
* `cachedReply_fits_iff`: it fits the new client exactly if both asked in the same letters
  and either both sent an OPT record or none did.
-/

namespace Runbound.Server

open Wire FastPath Local Lib List Rtype

/-! ## The patched octets -/

/-- The RD bit of a datagram. -/
def rdOf (b : Bytes) : Bool := (octet b 2).val % 2 = 1

/-- A header with the identifier and the RD bit of the datagram `b`. -/
def patchHeader (b : Bytes) (h : Header) : Header := { h with id := be16 b 0 }.setRd (rdOf b)

theorem flags_setRd (h : Header) (v : Bool) :
    (h.setRd v).flags.val = h.flags.val / 512 * 512 + v.toNat * 256 + h.flags.val % 256 := rfl

theorem rd_eq (h : Header) : h.rd = decide (h.flags.val / 256 % 2 = 1) := rfl

theorem rd_setRd (h : Header) (v : Bool) : (h.setRd v).rd = v := by
  rw [rd_eq, flags_setRd]
  cases v with
  | false =>
    rw [Bool.toNat_false, decide_eq_false_iff_not]
    omega
  | true =>
    rw [Bool.toNat_true, decide_eq_true_eq]
    omega

@[simp] theorem patchHeader_rd (b : Bytes) (h : Header) : (patchHeader b h).rd = rdOf b :=
  rd_setRd _ _

theorem patch_wire (b body : Bytes) (h : Header) :
    patch b (h.wire ++ body) = (patchHeader b h).wire ++ body := by
  have hid : u16Be (be16 b 0) = [octet b 0, octet b 1] := u16Be_u16OfBe _ _
  have hflags : u16Be (patchHeader b h).flags =
      [Fin.ofNat 256 (h.flags.val / 256 / 2 * 2 + (octet b 2).val % 2),
        ⟨h.flags.val % 256, by omega⟩] := by
    have hval : (patchHeader b h).flags.val =
        h.flags.val / 512 * 512 + (octet b 2).val % 2 * 256 + h.flags.val % 256 := by
      rw [patchHeader, flags_setRd, rdOf]
      rcases Nat.mod_two_eq_zero_or_one (octet b 2).val with hbit | hbit <;> simp [hbit]
    simp only [u16Be, List.cons.injEq, Fin.ext_iff, Fin.val_ofNat, and_true]
    omega
  have hwire : (patchHeader b h).wire = u16Be (be16 b 0) ++ (u16Be (patchHeader b h).flags ++
      (h.wire.drop 4)) := rfl
  have hlen : h.wire.length = 12 := rfl
  rw [hwire, hid, hflags, patch, take_of_length_le]
  · rfl
  · rfl

/-- The message with its header patched. -/
def patched (b : Bytes) (m : Message) : Message := { m with header := patchHeader b m.header }

theorem patch_encode (b : Bytes) (m : Message) : patch b m.encode = (patched b m).encode := by
  obtain ⟨body, h1, h2⟩ := Message.encode_eq_append m (patched b m) rfl rfl rfl rfl
  rw [h1, h2, patch_wire]
  rfl

theorem length_encode_patched (b : Bytes) (m : Message) :
    (patched b m).encode.length = m.encode.length := by
  obtain ⟨body, h1, h2⟩ := Message.encode_eq_append m (patched b m) rfl rfl rfl rfl
  rw [h1, h2]
  rfl

/-! ## What is sent -/

/-- Does the message carry an OPT record? -/
def hasOpt (m : Message) : Prop := ∃ r ∈ m.additional, r.rtype = OPT

theorem hasOpt_iff (m : Message) :
    hasOpt m ↔ (m.additional.filter fun r => r.rtype = OPT) ≠ [] := by
  simp [hasOpt]

/-- Records that are the same up to letter case have the same types. -/
theorem rtypes_of_same {as bs : List Record} (h : List.Forall₂ Record.Same as bs) :
    bs.map Record.rtype = as.map Record.rtype :=
  Record.map_of_same (fun h => h.2.1) h

variable {b : Bytes} {m m' req : Message}

theorem hasOpt_congr (h : m'.additional.map Record.rtype = m.additional.map Record.rtype) :
    hasOpt m' ↔ hasOpt m := by
  have hmem : ∀ m : Message, hasOpt m ↔ OPT ∈ m.additional.map Record.rtype := by
    simp [hasOpt]
  rw [hmem, hmem, h]

/-- `m'` is a response like `m` for the client that sent `b`: its identifier and RD bit, the
    questions of `m`, the first of them in the same letters, and the OPT records of `m`. -/
structure Adapted (b : Bytes) (m m' : Message) : Prop where
  id : m'.header.id = be16 b 0
  rd : m'.header.rd = rdOf b
  count : m'.questions.length = m.questions.length
  first : m'.questions.head? = m.questions.head?
  opts : (m'.additional.filter fun r => r.rtype = OPT).map Record.rtype =
    (m.additional.filter fun r => r.rtype = OPT).map Record.rtype

theorem rd_setTc (h : Header) (v : Bool) : (h.setTc v).rd = h.rd := by
  have hflags : (h.setTc v).flags.val =
      h.flags.val / 1024 * 1024 + v.toNat * 512 + h.flags.val % 512 := rfl
  rw [rd_eq, rd_eq, hflags, decide_eq_decide]
  cases v <;> simp only [Bool.toNat_false, Bool.toNat_true] <;> omega

theorem filter_opt_rtypes {as bs : List Record}
    (h : bs.map Record.rtype = as.map Record.rtype) :
    (bs.filter fun r => r.rtype = OPT).map Record.rtype =
      (as.filter fun r => r.rtype = OPT).map Record.rtype := by
  have hmap : ∀ l : List Record, (l.filter fun r => r.rtype = OPT).map Record.rtype =
      (l.map Record.rtype).filter fun t => t = OPT := by
    intro l
    rw [filter_map]
    rfl
  rw [hmap, hmap, h]

/-- The form a message is cut down to. -/
def cutDown (m : Message) : Message :=
  { m with
    header := m.header.setTc true
    answers := []
    authority := []
    additional := m.additional.filter fun r => r.rtype = OPT }

theorem truncateUdpResponse_eq (resp query : Bytes) :
    ∃ k, 512 ≤ k ∧ truncateUdpResponse resp query =
      if resp.length ≤ k then resp
      else
        match Message.parse resp with
        | .error _ => resp
        | .ok m => (cutDown m).encode.take k := by
  refine ⟨_, ?_, rfl⟩
  split
  · split
    · simp
    · exact le_rfl
  · exact le_rfl

/-- What is sent for an encoded message: it is patched and, if it is too long for the client,
    cut down and clipped. -/
theorem copyOut_encode (b : Bytes) (hw : m.WireOk) (hlen : m.encode.length < 65536) :
    copyOut b m.encode = (patched b m).encode ∨
      ∃ m' k, Message.parse (patched b m).encode = .ok m' ∧ Message.Same (patched b m) m' ∧
        m'.questions.head? = m.questions.head? ∧ 512 ≤ k ∧
        copyOut b m.encode = (cutDown m').encode.take k := by
  obtain ⟨m', hm', hsame, hfirst⟩ :=
    (patched b m).parse_encode hw (by rw [length_encode_patched]; exact hlen)
  obtain ⟨k, hk, htrunc⟩ := truncateUdpResponse_eq (patched b m).encode b
  unfold copyOut
  rw [patch_encode, htrunc, hm']
  split_ifs
  · exact Or.inl rfl
  · exact Or.inr ⟨m', k, rfl, hsame, hfirst, hk, rfl⟩
  · exact Or.inl rfl

theorem adapted_patched (b : Bytes) (m : Message) : Adapted b m (patched b m) :=
  ⟨rfl, patchHeader_rd b m.header, rfl, rfl, rfl⟩

theorem adapted_cutDown (hsame : Message.Same (patched b m) m')
    (hfirst : m'.questions.head? = m.questions.head?) : Adapted b m (cutDown m') where
  id := by
    show (m'.header.setTc true).id = _
    rw [hsame.header]
    rfl
  rd := by
    show (m'.header.setTc true).rd = _
    rw [rd_setTc, hsame.header]
    exact patchHeader_rd b m.header
  count := hsame.questions.length_eq.symm
  first := hfirst
  opts := by
    rw [cutDown, filter_filter]
    simp only [Bool.and_self]
    exact filter_opt_rtypes (rtypes_of_same hsame.additional)

/-! ## The size of a message without answers -/

theorem len_emit_root {r : Record} (hn : r.name.labels = []) (hd : r.rdata.emit = [])
    (e : Encoder) :
    (r.emit e).len = e.len + 11 := by
  rw [Record.len_emit, hd, Name.emit, hn]
  simp [Name.emitLabels]

theorem len_foldl_emit_root (rs : List Record)
    (h : ∀ r ∈ rs, r.name.labels = [] ∧ r.rdata.emit = []) : ∀ e : Encoder,
      (rs.foldl (fun e r => r.emit e) e).len = e.len + 11 * rs.length := by
  induction rs with
  | nil => simp
  | cons r rs ih =>
    intro e
    obtain ⟨hn, hd⟩ := h r (by simp)
    rw [foldl_cons, ih fun x hx => h x (by simp [hx]), len_emit_root hn hd, length_cons]
    omega

theorem length_encode_le {q : Question} (hq : m.questions = [q]) (ha : m.answers = [])
    (hn : m.authority = []) (hr : ∀ r ∈ m.additional, r.name.labels = [] ∧ r.rdata.emit = []) :
    m.encode.length ≤ 271 + 11 * m.additional.length := by
  have hquestion : (q.emit (m.countedHeader.emit {})).len = 12 + q.wire.length := by
    rw [Encoder.len, q.emit_fresh (by rw [Header.emit_eq]; rfl), length_append]
    rfl
  have hname : q.wire.length ≤ 259 := by
    have := q.name.ok.len
    unfold maxNameWire at this
    simp only [Question.wire, length_append, Name.wire_length, u16Be_length]
    omega
  have hlen : m.encode.length = (m.additional.foldl (fun e r => r.emit e)
      (q.emit (m.countedHeader.emit {}))).len := by
    rw [Message.encode, Message.emit, hq, ha, hn]
    rfl
  rw [hlen, len_foldl_emit_root _ hr]
  omega

theorem labels_eq_nil_of_key {n : Name} (h : n.key = []) : n.labels = [] := by
  simpa [Name.key, Name.labelsLower] using h

theorem echoOf_root {r : Record} (h : r ∈ echoOf req) :
    r.name = Name.root ∧ r.rtype = OPT ∧ r.rdata = .unknown OPT [] := by
  unfold echoOf at h
  split at h
  · rw [mem_singleton] at h
    rw [h]
    exact ⟨rfl, rfl, rfl⟩
  · cases h

theorem echoOf_length_le (req : Message) : (echoOf req).length ≤ 1 := by
  unfold echoOf
  split <;> simp

/-! ## The client -/

/-- The message that `r` is for the client that sent `m2`: its identifier, its question in the
    same letters, an OPT record if it sent one, and its RD bit. -/
def FitsClient (m2 : Message) (r : Bytes) : Prop :=
  ∃ m, Message.parse r = .ok m ∧ m.header.id = m2.header.id ∧ m.questions = m2.questions ∧
    (hasOpt m ↔ hasOpt m2) ∧ m.header.rd = m2.header.rd

/-- Records that a resolver returned were parsed. -/
def Resolution.Parsed : Resolution → Prop
  | .recursion (some val) => ∀ r ∈ val.records ++ val.authority, r.rdata.wireOk
  | _ => True

theorem StoredFor.shape {cfg : CacheCfg} {res : Resolution}
    (h : StoredFor cfg req res m) : m.questions = req.questions ∧ m.additional = echoOf req := by
  cases h <;> exact ⟨rfl, rfl⟩

theorem StoredFor.wireOk {cfg : CacheCfg} {res : Resolution}
    (h : StoredFor cfg req res m) (hp : res.Parsed) : m.WireOk := by
  have hecho : ∀ r ∈ echoOf req, r.rdata.wireOk := by
    intro r hr
    rw [(echoOf_root hr).2.2]
    trivial
  have hclamp : ∀ (rs : List Record), (∀ r ∈ rs, r.rdata.wireOk) →
      ∀ r ∈ rs.map (clampTtl cfg), r.rdata.wireOk := by
    intro rs hrs r hr
    obtain ⟨r', hr', rfl⟩ := mem_map.mp hr
    exact hrs r' hr'
  intro r hr
  cases h with
  | recursion hv =>
    simp only [answerOf, append_nil, mem_append] at hr
    rcases hr with hr | hr
    · exact hclamp _ (fun r hr => hp r (by simp [hr])) r hr
    · exact hecho r hr
  | recursionNegative hv hrc =>
    simp only [negativeOf, nil_append, mem_append, mem_filter] at hr
    rcases hr with hr | hr
    · exact hp r (by simp [hr.1])
    · exact hecho r hr
  | forward hm hrc =>
    simp only [answerOf, append_nil, mem_append] at hr
    rcases hr with hr | hr
    · exact hclamp _ (fun r hr => wireOk_of_parse hm r (by simp [hr])) r hr
    · exact hecho r hr
  | forwardNegative hm =>
    simp only [negativeOf, nil_append, mem_append, mem_filter] at hr
    rcases hr with hr | hr
    · exact wireOk_of_parse hm r (by simp [hr.1.1])
    · exact hecho r hr

theorem Adapted.hasOpt_iff (h : Adapted b m m') : hasOpt m' ↔ hasOpt m := by
  rw [Server.hasOpt_iff, Server.hasOpt_iff, ← not_iff_not, not_not, not_not]
  have hlen := congrArg List.length h.opts
  rw [length_map, length_map] at hlen
  rw [← length_eq_zero_iff, ← length_eq_zero_iff, hlen]

theorem eq_of_head?_eq {α : Type} {as bs : List α} (hlen : as.length = 1) (hlen' : bs.length = 1)
    (h : as.head? = bs.head?) : as = bs := by
  obtain ⟨a, rfl⟩ := length_eq_one_iff.mp hlen
  obtain ⟨b, rfl⟩ := length_eq_one_iff.mp hlen'
  rw [Option.some.inj h]

theorem Adapted.parse (h : Adapted b m m') (hw : m'.WireOk)
    (hlen : m'.encode.length < 65536) (hone : m.questions.length = 1) :
    ∃ r, Message.parse m'.encode = .ok r ∧ r.header.id = be16 b 0 ∧ r.header.rd = rdOf b ∧
      r.questions = m.questions ∧ (hasOpt r ↔ hasOpt m) := by
  obtain ⟨r, hr, hsame, hfirst⟩ := m'.parse_encode hw hlen
  have hcount := hsame.questions.length_eq
  rw [h.count, hone] at hcount
  refine ⟨r, hr, ?_, ?_, ?_, ?_⟩
  · rw [hsame.header]
    exact h.id
  · rw [hsame.header]
    exact h.rd
  · exact eq_of_head?_eq hcount.symm hone (hfirst.trans h.first)
  · rw [hasOpt_congr (rtypes_of_same hsame.additional)]
    exact h.hasOpt_iff

theorem qdcount_encode (m : Message) :
    be16 m.encode 4 = Fin.ofNat 65536 m.questions.length ∧ 12 ≤ m.encode.length := by
  obtain ⟨body, h, -⟩ := Message.encode_eq_append m m rfl rfl rfl rfl
  rw [h]
  refine ⟨u16OfBe_u16Be _, ?_⟩
  rw [length_append]
  exact Nat.le_add_right 12 _

theorem encode_ne_nil (m : Message) : m.encode ≠ [] :=
  ne_nil_of_length_pos (Nat.lt_of_lt_of_le (by decide) (qdcount_encode m).2)

theorem be16_take (l : Bytes) {i k : ℕ} (h : i + 2 ≤ k) : be16 (l.take k) i = be16 l i := by
  simp only [be16, octet, getD_eq_getElem?_getD]
  rw [getElem?_take_of_lt (by omega), getElem?_take_of_lt (by omega)]

theorem qdcount_copyOut (b : Bytes) (hw : m.WireOk) (hlen : m.encode.length < 65536) :
    be16 (copyOut b m.encode) 4 = Fin.ofNat 65536 m.questions.length := by
  rcases copyOut_encode b hw hlen with h | ⟨m', k, -, hsame, hfirst, hk, h⟩
  · rw [h, (qdcount_encode _).1]
    rfl
  · rw [h, be16_take _ (by omega), (qdcount_encode _).1, (adapted_cutDown hsame hfirst).count]

section

variable {cfg : CacheCfg} {req m : Message} {res : Resolution} {b : Bytes}

theorem parse_copyOut (hst : StoredFor cfg req res m) (hp : res.Parsed)
    (hlen : m.encode.length < 65536) (hone : m.questions.length = 1) :
    ∃ r, Message.parse (copyOut b m.encode) = .ok r ∧ r.header.id = be16 b 0 ∧
      r.header.rd = rdOf b ∧ r.questions = m.questions ∧ (hasOpt r ↔ hasOpt m) := by
  have hw := hst.wireOk hp
  rcases copyOut_encode b hw hlen with h | ⟨m', k, hm', hsame, hfirst, hk, h⟩
  · rw [h]
    exact (adapted_patched b m).parse hw (by rw [length_encode_patched]; exact hlen) hone
  · -- without answers, one question and the OPT record fit the smallest budget
    have hadapted := adapted_cutDown hsame hfirst
    have hadd := hst.shape.2
    obtain ⟨q, hq⟩ := length_eq_one_iff.mp (hadapted.count.trans hone)
    have hroot : ∀ r ∈ m'.additional, r.name.labels = [] ∧ r.rdata.emit = [] := by
      intro r hr
      obtain ⟨r', hr', hsame'⟩ := exists_of_forall₂
        (List.Forall₂.flip (R := flip Record.Same) hsame.additional) hr
      obtain ⟨hn, -, hd⟩ := echoOf_root (show r' ∈ echoOf req by rw [← hadd]; exact hr')
      refine ⟨labels_eq_nil_of_key (by rw [hsame'.1, hn]; rfl), ?_⟩
      rw [hsame'.2.2.2.2, hd]
      rfl
    have hcount : (cutDown m').additional.length ≤ 1 := by
      refine (length_filter_le _ _).trans ?_
      rw [← hsame.additional.length_eq]
      show m.additional.length ≤ 1
      rw [hadd]
      exact echoOf_length_le req
    have hsize := length_encode_le hq rfl rfl fun r hr => hroot r (mem_filter.mp hr).1
    have hok : (cutDown m').WireOk := by
      intro r hr
      simp only [cutDown, nil_append, mem_filter] at hr
      exact wireOk_of_parse hm' r (by simp [hr.1])
    rw [h, take_of_length_le (by omega)]
    exact hadapted.parse hok (by omega) hone

theorem hasOpt_stored (hst : StoredFor cfg req res m) :
    hasOpt m ↔ ∃ ed, req.edns = .ok (some ed) := by
  rw [hasOpt, hst.shape.2]
  constructor
  · rintro ⟨r, hr, -⟩
    unfold echoOf at hr
    split at hr
    · rename_i client hc
      exact ⟨client, hc⟩
    · cases hr
  · rintro ⟨ed, hed⟩
    refine ⟨echoEdns (min (max ed.udpPayload 512) 1232) ed.dnssecOk, ?_, rfl⟩
    unfold echoOf
    simp [hed]

end

theorem qdcount_of_cacheQuestion {n : Bytes} {t : U16} {pos : ℕ}
    (h : cacheQuestion b = some (n, t, pos)) : be16 b 4 = 1 := by
  unfold cacheQuestion at h
  by_contra hne
  split_ifs at h

section

variable {h : Handler} {a : Arrival} {s : Caches} {k : U64} {e : CacheEntry} {Ip : Type}
  {acc : Access Ip} {src : Option Ip} {txLen now : ℕ} {snap : CacheMap} {b r n : Bytes} {t : U16}
  {pos : ℕ} {m1 m2 : Message}

/-- For every query `m1` whose response `serve_wire` stores and every later query `m2` that hits
    the entry: the octets it gets fit it exactly if both queries have the same questions, in the
    same letters, and `m1` had EDNS if and only if `m2` carries an OPT record. -/
theorem cachedReply_fits_iff (hm1 : Message.parse a.query = .ok m1)
    (hnew : (serveWire h a s).2.shared.lookup k = some e) (hold : s.shared.lookup k ≠ some e)
    (hparsed : a.resolution.Parsed) (hm2 : Message.parse b = .ok m2)
    (hq : cacheQuestion b = some (n, t, pos)) (hhit : lookupQuestion h.hw now snap n t = some e)
    (htx : txLen < 65536) (hans : answerFromCache h.hw acc src txLen now snap b = some r) :
    FitsClient m2 r ↔
      m1.questions = m2.questions ∧ ((∃ ed, m1.edns = .ok (some ed)) ↔ hasOpt m2) := by
  rcases serveWire_stores hnew with hcon | ⟨m, q, stored, hm, -, hst, hentry⟩
  · contradiction
  obtain rfl := Except.ok.inj (hm1.symm.trans hm)
  -- the octets of the hit are those of the entry
  obtain ⟨n', t', pos', e', hq', -, -, hl, -, -, -, hle, rfl⟩ := answerFromCache_eq_some_iff.mp hans
  obtain ⟨rfl, rfl, rfl⟩ : n = n' ∧ t = t' ∧ pos = pos' := by simpa using hq.symm.trans hq'
  obtain rfl : e = e' := Option.some.inj ((lookupQuestion_eq_some_iff.mp hhit).1.symm.trans hl)
  rw [hentry.payload] at hle ⊢
  have hlen : stored.encode.length < 65536 := by omega
  have hw := hst.wireOk hparsed
  have hone2 : m2.questions.length = 1 := by
    rw [← (counts_of_parse hm2).1, qdcount_of_cacheQuestion hq]
    rfl
  have hheader := header_of_parse hm2
  have hid : m2.header.id = be16 b 0 := by rw [hheader]
  have hrd : m2.header.rd = rdOf b := by
    rw [hheader, rd_eq, rdOf, decide_eq_decide]
    simp only [be16, u16OfBe]
    omega
  by_cases hone : stored.questions.length = 1
  · obtain ⟨resp, hresp, hrid, hrrd, hrq, hropt⟩ := parse_copyOut (b := b) hst hparsed hlen hone
    rw [hst.shape.1] at hrq
    rw [hasOpt_stored hst] at hropt
    constructor
    · rintro ⟨m, hm, -, hmq, hmopt, -⟩
      obtain rfl := Except.ok.inj (hresp.symm.trans hm)
      exact ⟨hrq.symm.trans hmq, hropt.symm.trans hmopt⟩
    · rintro ⟨hqs, hopt⟩
      exact ⟨resp, hresp, hrid.trans hid.symm, hrq.trans hqs, hropt.trans hopt, hrrd.trans hrd.symm⟩
  · -- with another number of questions no response to `m1` fits
    have hcount : stored.questions.length < 65536 := (stored.fits_of_encode hlen).questions
    constructor
    · rintro ⟨m, hm, -, hmq, -, -⟩
      have := (counts_of_parse hm).1
      rw [qdcount_copyOut b hw hlen, Fin.val_ofNat, Nat.mod_eq_of_lt hcount, hmq, hone2] at this
      exact absurd this hone
    · rintro ⟨hqs, -⟩
      rw [hst.shape.1, hqs] at hone
      exact absurd hone2 hone

end

/-! ## Two letters -/

/-- A handler that keeps answers for a day at most. -/
def plainHandler : Handler where
  hw := true
  cache := ⟨0, 86400, 1000⟩
  privateAddr := fun _ => false
  stale := none

/-- The query `A. A` -/
def askUpper : Bytes := [0, 1, 1, 0, 0, 1, 0, 0, 0, 0, 0, 0] ++ [1, 65, 0, 0, 1, 0, 1]

/-- The query `a. A` -/
def askLower : Bytes := [0, 7, 1, 0, 0, 1, 0, 0, 0, 0, 0, 0] ++ [1, 97, 0, 0, 1, 0, 1]

/-- The response `192.0.2.1` to `A. A` -/
def replyUpper : Bytes :=
  [0, 1, 129, 128, 0, 1, 0, 1, 0, 0, 0, 0] ++ [1, 65, 0, 0, 1, 0, 1] ++
    [192, 12, 0, 1, 0, 1, 0, 0, 1, 44, 0, 4, 192, 0, 2, 1]

/-- `A. A` is forwarded. -/
def arrivalUpper : Arrival where
  query := askUpper
  early := none
  instant := 0
  now := 0
  resolution := .forward (some (replyUpper, false))

/-- The entry it leaves. -/
def entryUpper : CacheEntry := ⟨replyUpper, 300, [1, 97, 0]⟩

/-- The shared cache afterwards. -/
def cacheUpper : CacheMap := (serveWire plainHandler arrivalUpper {}).2.shared

/-- What `a. A` gets from it. -/
def sentLower : Bytes :=
  [0, 7, 129, 128, 0, 1, 0, 1, 0, 0, 0, 0] ++ [1, 65, 0, 0, 1, 0, 1] ++
    [192, 12, 0, 1, 0, 1, 0, 0, 1, 44, 0, 4, 192, 0, 2, 1]

theorem cacheUpper_lookup :
    cacheUpper.lookup (cacheKey true [1, 97, 0] Rtype.A) = some entryUpper := by decide +kernel

theorem cachedReply_fits_lower :
    ∃ m1 m2, Message.parse askUpper = .ok m1 ∧ Message.parse askLower = .ok m2 ∧
      answerFromCache true (⟨fun _ => .allow, fun _ _ => false⟩ : Access Unit) none 4096 1
        cacheUpper
        askLower = some sentLower ∧
      (FitsClient m2 sentLower ↔
        m1.questions = m2.questions ∧ ((∃ ed, m1.edns = .ok (some ed)) ↔ hasOpt m2)) := by
  obtain ⟨m1, hm1, -⟩ := exists_parse_of_any (b := askUpper) (p := fun _ => true)
    (by decide +kernel)
  obtain ⟨m2, hm2, -⟩ := exists_parse_of_any (b := askLower) (p := fun _ => true)
    (by decide +kernel)
  have hans : answerFromCache true (⟨fun _ => .allow, fun _ _ => false⟩ : Access Unit) none 4096 1
      cacheUpper askLower = some sentLower := by decide +kernel
  exact ⟨m1, m2, hm1, hm2, hans,
    cachedReply_fits_iff (h := plainHandler) (a := arrivalUpper) (s := {})
    hm1 cacheUpper_lookup nofun trivial hm2
    (show cacheQuestion askLower = some ([1, 97, 0], Rtype.A, 19) by decide +kernel)
    (by decide +kernel) (by decide) hans⟩

/-- The client that asked for `a.` gets a response with the question `A.` -/
theorem lower_gets_upper :
    answerFromCache true (⟨fun _ => .allow, fun _ _ => false⟩ : Access Unit) none 4096 1 cacheUpper
      askLower = some sentLower ∧
    ∃ m2, Message.parse askLower = .ok m2 ∧ ¬ FitsClient m2 sentLower := by
  obtain ⟨m2, hm2, hq2⟩ := exists_parse_of_any (b := askLower)
    (p := fun m => (m.questions.map fun q => q.name.labels) = [[[97]]]) (by decide +kernel)
  obtain ⟨resp, hresp, hq⟩ := exists_parse_of_any (b := sentLower)
    (p := fun m => (m.questions.map fun q => q.name.labels) = [[[65]]]) (by decide +kernel)
  refine ⟨by decide +kernel, m2, hm2, ?_⟩
  rintro ⟨m, hm, -, hqs, -, -⟩
  obtain rfl := Except.ok.inj (hresp.symm.trans hm)
  rw [decide_eq_true_eq] at hq hq2
  rw [hqs, hq2] at hq
  revert hq
  decide

end Runbound.Server
