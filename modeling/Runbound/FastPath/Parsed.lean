import Runbound.FastPath.Query
import Runbound.Wire.RdataCodec

/-!
# One datagram, two parsers

What `Message::parse` accepting a datagram says about the octets that the fast path
reads.

* `header_of_parse`: the header fields are the first six words.
* `counts_of_parse`: the section counts of the header are those of the message.
* `question_of_normalized`: a name in the key of the fast path is the name in the question.
* `seventeen_le_of_parse`: a message with a question has seventeen octets.
-/

namespace Runbound.FastPath

open Wire Lib Lib.Decoder List Name

/-! ## Words -/

variable {b : Bytes} {pos stop : ℕ}

theorem u8_eq_ok {x : Byte} (h : Dec.u8 b pos = .ok (x, stop)) :
    x = octet b pos ∧ stop = pos + 1 ∧ pos < b.length := by
  unfold Dec.u8 Decoder.item at h
  cases hb : b[pos]? with
  | none => simp [hb] at h
  | some y =>
    simp only [hb] at h
    obtain ⟨rfl, rfl⟩ := h
    obtain ⟨hlt, -⟩ := List.getElem?_eq_some_iff.mp hb
    exact ⟨by rw [octet, List.getD_eq_getElem?_getD, hb]; rfl, rfl, hlt⟩

theorem u16_eq_ok {x : U16} (h : Dec.u16 b pos = .ok (x, stop)) :
    x = be16 b pos ∧ stop = pos + 2 ∧ pos + 2 ≤ b.length := by
  obtain ⟨hi, p1, h1, h⟩ := bind_eq_ok.mp h
  obtain ⟨lo, p2, h2, h⟩ := bind_eq_ok.mp h
  cases h
  obtain ⟨rfl, rfl, -⟩ := u8_eq_ok h1
  obtain ⟨rfl, rfl, hlt⟩ := u8_eq_ok h2
  exact ⟨rfl, rfl, hlt⟩

theorem u32_eq_ok {x : U32} (h : Dec.u32 b pos = .ok (x, stop)) :
    x = u32OfBe (octet b pos) (octet b (pos + 1)) (octet b (pos + 2)) (octet b (pos + 3)) ∧
      stop = pos + 4 := by
  obtain ⟨_, _, h1, h⟩ := bind_eq_ok.mp h
  obtain ⟨_, _, h2, h⟩ := bind_eq_ok.mp h
  obtain ⟨_, _, h3, h⟩ := bind_eq_ok.mp h
  obtain ⟨_, _, h4, h⟩ := bind_eq_ok.mp h
  cases h
  obtain ⟨rfl, rfl, -⟩ := u8_eq_ok h1
  obtain ⟨rfl, rfl, -⟩ := u8_eq_ok h2
  obtain ⟨rfl, rfl, -⟩ := u8_eq_ok h3
  obtain ⟨rfl, rfl, -⟩ := u8_eq_ok h4
  exact ⟨rfl, rfl⟩

/-! ## The header -/

theorem headerParse_eq_ok {h : Header} (hp : Header.parse b pos = .ok (h, stop)) :
    h = ⟨be16 b pos, be16 b (pos + 2), be16 b (pos + 4), be16 b (pos + 6), be16 b (pos + 8),
      be16 b (pos + 10)⟩ ∧ stop = pos + 12 ∧ pos + 12 ≤ b.length := by
  obtain ⟨id, _, h1, hp⟩ := bind_eq_ok.mp hp
  obtain ⟨flags, _, h2, hp⟩ := bind_eq_ok.mp hp
  obtain ⟨qd, _, h3, hp⟩ := bind_eq_ok.mp hp
  obtain ⟨an, _, h4, hp⟩ := bind_eq_ok.mp hp
  obtain ⟨ns, _, h5, hp⟩ := bind_eq_ok.mp hp
  obtain ⟨ar, _, h6, hp⟩ := bind_eq_ok.mp hp
  cases hp
  obtain ⟨rfl, rfl, -⟩ := u16_eq_ok h1
  obtain ⟨rfl, rfl, -⟩ := u16_eq_ok h2
  obtain ⟨rfl, rfl, -⟩ := u16_eq_ok h3
  obtain ⟨rfl, rfl, -⟩ := u16_eq_ok h4
  obtain ⟨rfl, rfl, -⟩ := u16_eq_ok h5
  obtain ⟨rfl, rfl, hlt⟩ := u16_eq_ok h6
  exact ⟨rfl, rfl, hlt⟩

variable {m : Message}

/-- The steps of a successful `Message::parse`. -/
theorem parse_eq_ok (h : Message.parse b = .ok m) :
    12 ≤ b.length ∧
    m.header = ⟨be16 b 0, be16 b 2, be16 b 4, be16 b 6, be16 b 8, be16 b 10⟩ ∧
    ∃ p1 p2 p3 p4, times Question.parse m.header.qdcount.val b 12 = .ok (m.questions, p1) ∧
      times Record.parse m.header.ancount.val b p1 = .ok (m.answers, p2) ∧
      times Record.parse m.header.nscount.val b p2 = .ok (m.authority, p3) ∧
      times Record.parse m.header.arcount.val b p3 = .ok (m.additional, p4) := by
  unfold Message.parse at h
  cases hd : Message.decode b 0 with
  | error e => simp [hd, Except.map] at h
  | ok r =>
    obtain ⟨m', stop⟩ := r
    obtain rfl : m' = m := by simpa [hd, Except.map] using h
    obtain ⟨hdr, _, hh, hd⟩ := bind_eq_ok.mp hd
    obtain ⟨qs, p1, hq, hd⟩ := bind_eq_ok.mp hd
    obtain ⟨as, p2, ha, hd⟩ := bind_eq_ok.mp hd
    obtain ⟨ns, p3, hn, hd⟩ := bind_eq_ok.mp hd
    obtain ⟨rs, p4, hr, hd⟩ := bind_eq_ok.mp hd
    cases hd
    obtain ⟨hhdr, rfl, hlen⟩ := headerParse_eq_ok hh
    exact ⟨hlen, hhdr, p1, p2, p3, _, hq, ha, hn, hr⟩

/-- A run of `Message::parse`, put together. -/
theorem parse_of_reads {h : Header} {qs : List Question} {as ns rs : List Record}
    {p0 p1 p2 p3 p4 : ℕ} (hh : Header.parse.Reads b 0 h p0)
    (hq : (times Question.parse h.qdcount.val).Reads b p0 qs p1)
    (ha : (times Record.parse h.ancount.val).Reads b p1 as p2)
    (hn : (times Record.parse h.nscount.val).Reads b p2 ns p3)
    (hr : (times Record.parse h.arcount.val).Reads b p3 rs p4) :
    Message.parse b = .ok ⟨h, qs, as, ns, rs⟩ := by
  have hd : Message.decode.Reads b 0 ⟨h, qs, as, ns, rs⟩ p4 :=
    hh.bind (hq.bind (ha.bind (hn.bind (hr.bind rfl))))
  rw [Message.parse, hd]
  rfl

/-- A test of the parsed message that can be evaluated. -/
theorem exists_parse_of_any {p : Message → Bool} (h : (Message.parse b).toOption.any p = true) :
    ∃ m, Message.parse b = .ok m ∧ p m = true := by
  cases hp : Message.parse b with
  | error e => simp [hp, Except.toOption] at h
  | ok m => exact ⟨m, rfl, by simpa [hp, Except.toOption] using h⟩

theorem header_of_parse (h : Message.parse b = .ok m) :
    m.header = ⟨be16 b 0, be16 b 2, be16 b 4, be16 b 6, be16 b 8, be16 b 10⟩ := (parse_eq_ok h).2.1

theorem counts_of_parse (h : Message.parse b = .ok m) :
    (be16 b 4).val = m.questions.length ∧ (be16 b 6).val = m.answers.length ∧
      (be16 b 8).val = m.authority.length ∧ (be16 b 10).val = m.additional.length := by
  obtain ⟨-, hh, p1, p2, p3, p4, hq, ha, hn, hr⟩ := parse_eq_ok h
  rw [hh] at hq ha hn hr
  exact ⟨(times_length hq).symm, (times_length ha).symm, (times_length hn).symm,
    (times_length hr).symm⟩

/-! ## The records -/

/-- The steps of a successful `Record::parse`, up to the data: the owner name ends at `mid`,
    and the ten octets after it are the fixed part. -/
theorem recordParse_eq_ok {r : Record} (h : Record.parse b pos = .ok (r, stop)) :
    ∃ mid, Name.decode b pos = .ok (r.name, mid) ∧ r.rtype = be16 b mid ∧
      r.ttl = u32OfBe (octet b (mid + 4)) (octet b (mid + 5)) (octet b (mid + 6))
        (octet b (mid + 7)) ∧
      Rdata.parse r.rtype (be16 b (mid + 8)) b (mid + 10) = .ok (r.rdata, stop) := by
  obtain ⟨n, mid, hn, h⟩ := bind_eq_ok.mp h
  obtain ⟨t, _, ht, h⟩ := bind_eq_ok.mp h
  obtain ⟨c, _, hc, h⟩ := bind_eq_ok.mp h
  obtain ⟨ttl, _, httl, h⟩ := bind_eq_ok.mp h
  obtain ⟨len, _, hlen, h⟩ := bind_eq_ok.mp h
  obtain ⟨rd, _, hrd, h⟩ := bind_eq_ok.mp h
  rw [dif_pos (Rdata.parse_ok hrd).1] at h
  cases h
  obtain ⟨rfl, rfl, -⟩ := u16_eq_ok ht
  obtain ⟨-, rfl, -⟩ := u16_eq_ok hc
  obtain ⟨rfl, rfl⟩ := u32_eq_ok httl
  obtain ⟨rfl, rfl, -⟩ := u16_eq_ok hlen
  exact ⟨mid, hn, rfl, rfl, hrd⟩

theorem recordParse_wireOk {r : Record} (h : Record.parse b pos = .ok (r, stop)) :
    r.rdata.wireOk := by
  obtain ⟨mid, -, -, -, hrdata⟩ := recordParse_eq_ok h
  exact (Rdata.parse_ok hrdata).2

theorem forall_of_times {α : Type} {d : Dec α} {P : α → Prop}
    (hd : ∀ pos a stop, d b pos = .ok (a, stop) → P a) {n pos stop : ℕ} {as : List α}
    (h : times d n b pos = .ok (as, stop)) : ∀ a ∈ as, P a := by
  induction n generalizing pos as with
  | zero =>
    obtain ⟨rfl, -⟩ := times_zero_eq_ok.mp h
    simp
  | succ n ih =>
    obtain ⟨a, mid, rest, h1, h2, rfl⟩ := times_succ_eq_ok.mp h
    exact forall_mem_cons.mpr ⟨hd _ _ _ h1, ih h2⟩

/-- Every record of a message that was read was read by `Record::parse`. -/
theorem forall_records_of_parse {P : Record → Prop} (h : Message.parse b = .ok m)
    (hP : ∀ pos r stop, Record.parse b pos = .ok (r, stop) → P r) :
    ∀ r ∈ m.answers ++ m.authority ++ m.additional, P r := by
  obtain ⟨-, -, p1, p2, p3, p4, -, ha, hn, hr⟩ := parse_eq_ok h
  intro r hmem
  rcases mem_append.mp hmem with hmem | hmem
  · rcases mem_append.mp hmem with hmem | hmem
    · exact forall_of_times hP ha r hmem
    · exact forall_of_times hP hn r hmem
  · exact forall_of_times hP hr r hmem

theorem wireOk_of_parse (h : Message.parse b = .ok m) :
    ∀ r ∈ m.answers ++ m.authority ++ m.additional, r.rdata.wireOk :=
  forall_records_of_parse h fun _ _ _ => recordParse_wireOk

/-! ## The question -/

theorem lt_of_nameDecode {n : Name} (h : Name.decode b pos = .ok (n, stop)) :
    pos < stop ∧ stop ≤ b.length := by
  obtain ⟨hloop, hle⟩ := decode_eq_ok h
  exact ⟨parseLoop_stop hloop, hle⟩

theorem questionParse_eq_ok {q : Question} (h : Question.parse b pos = .ok (q, stop)) :
    ∃ mid, Name.decode b pos = .ok (q.name, mid) ∧ q.qtype = be16 b mid ∧
      q.qclass = be16 b (mid + 2) ∧ stop = mid + 4 ∧ mid + 4 ≤ b.length := by
  obtain ⟨n, mid, hn, h⟩ := bind_eq_ok.mp h
  obtain ⟨t, _, ht, h⟩ := bind_eq_ok.mp h
  obtain ⟨c, _, hc, h⟩ := bind_eq_ok.mp h
  cases h
  obtain ⟨rfl, rfl, -⟩ := u16_eq_ok ht
  obtain ⟨rfl, rfl, hlt⟩ := u16_eq_ok hc
  exact ⟨mid, hn, rfl, rfl, rfl, hlt⟩

theorem first_of_parse {q : Question} {qs : List Question} (h : Message.parse b = .ok m)
    (hq : m.questions = q :: qs) :
    ∃ stop, Question.parse b 12 = .ok (q, stop) := by
  obtain ⟨-, -, p1, p2, p3, p4, hqs, -, -, -⟩ := parse_eq_ok h
  have hlen := times_length hqs
  rw [hq] at hlen hqs
  rw [← hlen] at hqs
  obtain ⟨q', mid, rest, hq', -, heq⟩ := times_succ_eq_ok.mp hqs
  cases heq
  exact ⟨mid, hq'⟩

/-- Both parsers read the same question where the fast path found a name. -/
theorem questions_of_parseQuery {wq : WireQuery} {n : Name} (h : Message.parse b = .ok m)
    (hwq : parseQuery b = some wq) (hn : wq.qnameWire = n.wire) :
    m.questions = [⟨n, wq.qtype, wq.qclass⟩] := by
  obtain ⟨hlen, -, hqd, z, -, hend, rfl⟩ := parseQuery_eq_some hwq
  have hsize : n.wire.length = z + 1 := by
    rw [← hn, length_take, length_drop]
    omega
  have hone : m.questions.length = 1 := by
    rw [← (counts_of_parse h).1, hqd]
    rfl
  obtain ⟨q, hq⟩ := length_eq_one_iff.mp hone
  obtain ⟨stop, hp⟩ := first_of_parse h hq
  obtain ⟨mid, hname, ht, hc, -, -⟩ := questionParse_eq_ok hp
  have hread := decode_readsBack n b (b.take 12)
    ⟨b.drop (12 + (z + 1)), by
      rw [← hn, append_assoc, ← drop_drop, take_append_drop, take_append_drop]⟩
  rw [length_take, Nat.min_eq_left (by omega), hsize] at hread
  obtain ⟨rfl, rfl⟩ : n = q.name ∧ 12 + (z + 1) = mid := by
    simpa using hread.symm.trans hname
  rw [hq, ← Nat.add_assoc] at *
  cases q
  simp only at ht hc
  rw [ht, hc]

/-- Where the normalised name is the lower-cased wire form of a name, both parsers read the same
    question, that name up to letter case, although `parse_query` checks no label. -/
theorem question_of_normalized {b : Bytes} {wq : WireQuery} {n : Name} {m : Message}
    (hwq : parseQuery b = some wq) (hn : normalizeQueryQname wq.qnameWire = lower n.wire)
    (h : Message.parse b = .ok m) :
    ∃ q, m.questions = [q] ∧ q.name.eqIgnoreAsciiCase n = true ∧ q.qtype = wq.qtype ∧
      q.qclass = wq.qclass := by
  obtain ⟨n', hwire, hkey⟩ := exists_of_lower_eq hn
  refine ⟨_, questions_of_parseQuery h hwq hwire, ?_, rfl, rfl⟩
  exact eqIgnoreAsciiCase_iff.mpr hkey

/-- A query for `A.` -/
def queryUpper : Bytes := [0, 7, 1, 0, 0, 1, 0, 0, 0, 0, 0, 0, 1, 65, 0, 0, 1, 0, 1]

theorem question_of_normalized_upper :
    ∃ m q, Message.parse queryUpper = .ok m ∧ m.questions = [q] ∧
      q.name.eqIgnoreAsciiCase ⟨[[97]], by decide⟩ = true ∧ q.qtype = Rtype.A := by
  obtain ⟨m, hm, -⟩ := exists_parse_of_any (b := queryUpper) (p := fun _ => true) (by decide +kernel)
  have hwq : parseQuery queryUpper = some ⟨7, [1, 65, 0], Rtype.A, 1, true, none⟩ := by
    decide +kernel
  obtain ⟨q, hq, hname, htype, -⟩ :=
    question_of_normalized (n := ⟨[[97]], by decide⟩) hwq (by decide) hm
  exact ⟨m, q, hm, hq, hname, htype⟩

end Runbound.FastPath
