import Runbound.FastPath.Parsed
import Runbound.Server.Serve

/-!
# The exchange with a UDP upstream server (`dns/forward.rs`)

`do_query` waits for a datagram with the identifier and the question of the query, asks
again over TCP if that is truncated, and gives what it has to `parse_response`. Nothing
looks at the QR bit, at further questions or at the extended rcode, and a truncated
datagram is kept if the TCP retry fails.

* `acceptedReply`: the octets that are given to `parse_response`.
* `definitive_complete_iff`: the datagrams and TCP replies for which every answer that is
  taken as definitive is a complete reply to the query.
-/

namespace Runbound.Server

open Wire FastPath Lib Rcode

/-! ## The exchange -/

/-- `response_matches` (dns/forward.rs:335). -/
def responseMatches (resp : Bytes) (qid : U16) (qq : Option Question) : Bool :=
  if resp.length < 4 ∨ be16 resp 0 ≠ qid then false
  else
    match Message.parse resp with
    | .error _ => false
    | .ok msg =>
      match msg.firstQuestion, qq with
      | some rq, some qq =>
        rq.qtype = qq.qtype && rq.qclass = qq.qclass && rq.name.eqIgnoreAsciiCase qq.name
      | none, none => true
      | _, _ => false

/-- `tcp_query` (dns/forward.rs:308): the reply, a failure, or the end of the time the caller
    has. -/
inductive TcpOutcome
  | answered (full : Bytes)
  | failed
  | timedOut

/-- `wire::Message::parse(wire).ok().and_then(|m| m.first_question().cloned())`. -/
def questionOfWire (wire : Bytes) : Option Question :=
  (Message.parse wire).toOption.bind Message.firstQuestion

/-- `buf[2] & 0x02 != 0`. -/
def tcSet (b : Bytes) : Bool := (octet b 2).val / 2 % 2 = 1

/-- Is the datagram the reply to the query `wire`? -/
def matchesQuery (wire b : Bytes) : Bool := responseMatches b (be16 wire 0) (questionOfWire wire)

/-- What a matching datagram leads to (dns/forward.rs:274-288). -/
def afterMatch (wire : Bytes) (tcp : TcpOutcome) (b : Bytes) : Option Bytes :=
  if tcSet b then
    match tcp with
    | .answered full => if matchesQuery wire full then some full else some b
    | .failed => some b
    | .timedOut => none
  else some b

/-- The receive loop of `do_query` (dns/forward.rs:264-299): what `recv` returns one after the
    other, in a buffer of 4096 octets, `none` for an error. The list ends with the time. -/
def acceptedReply (wire : Bytes) (tcp : TcpOutcome) : List (Option Bytes) → Option Bytes
  | [] => none
  | none :: _ => none
  | some d :: rest =>
    if matchesQuery wire (d.take 4096) then afterMatch wire tcp (d.take 4096)
    else acceptedReply wire tcp rest

/-- `UdpUpstream::do_query` (dns/forward.rs:238) under the timeout of `query`; `sent` if the
    query could be sent. -/
def doQuery (wire : Bytes) (sent : Bool) (received : List (Option Bytes)) (tcp : TcpOutcome) :
    ResolveResult :=
  if ¬ sent then .servfail
  else (acceptedReply wire tcp received).elim .servfail fun b => parseResponse b false

/-- `ResolveResult::is_definitive`. -/
def ResolveResult.isDefinitive : ResolveResult → Bool
  | .servfail => false
  | _ => true

/-! ## Complete replies -/

/-- The rcode with its extension in the OPT record. -/
def fullRcode (m : Message) : ℕ :=
  m.header.rcodeLow.val + 16 * ((m.edns?.map Edns.extRcode).getD 0).val

/-- The octets are a complete response to the query `wire` with the question `qq`. -/
def Complete (wire : Bytes) (qq : Question) (b : Bytes) : Prop :=
  ∃ m rq, Message.parse b = .ok m ∧ m.header.qr = true ∧ m.header.id = be16 wire 0 ∧
    m.questions = [rq] ∧ rq.qtype = qq.qtype ∧ rq.qclass = qq.qclass ∧ rq.name.key = qq.name.key ∧
    m.header.tc = false ∧
    (fullRcode m = NOERROR.val ∨ fullRcode m = NXDOMAIN.val)

/-- Everything that is taken as definitive is complete. -/
def DefinitiveComplete (wire : Bytes) (qq : Question) (received : List (Option Bytes))
    (tcp : TcpOutcome) : Prop :=
  ∀ b, acceptedReply wire tcp received = some b → (parseResponse b false).isDefinitive = true →
    Complete wire qq b

/-- The first datagram that matches, if no error comes before it. -/
def firstMatch (wire : Bytes) : List (Option Bytes) → Option Bytes
  | [] => none
  | none :: _ => none
  | some d :: rest =>
    if matchesQuery wire (d.take 4096) then some (d.take 4096) else firstMatch wire rest

/-- The low rcode of the octets is an error. -/
def ErrorReply (b : Bytes) : Prop :=
  ∀ m, Message.parse b = .ok m → m.header.rcodeLow ≠ NOERROR ∧ m.header.rcodeLow ≠ NXDOMAIN

/-- The octets are a response to one question, not truncated and without extended rcode. -/
def PlainReply (b : Bytes) : Prop :=
  ∀ m, Message.parse b = .ok m → m.header.qr = true ∧ m.questions.length = 1 ∧
    m.header.tc = false ∧ ((m.edns?.map Edns.extRcode).getD 0) = 0

/-- The upstream server behaves: its first matching datagram is a plain reply or an error; if
    it is truncated, then so is the TCP reply that matches, and if there is none, the datagram
    is an error. -/
def UpstreamBehaves (wire : Bytes) (received : List (Option Bytes)) (tcp : TcpOutcome) : Prop :=
  ∀ b, firstMatch wire received = some b →
    (tcSet b = false → PlainReply b ∨ ErrorReply b) ∧
    (tcSet b = true →
      (∀ full, tcp = .answered full → matchesQuery wire full = true →
        PlainReply full ∨ ErrorReply full) ∧
      (tcp = .failed → ErrorReply b) ∧
      (∀ full, tcp = .answered full → matchesQuery wire full = false → ErrorReply b))

theorem acceptedReply_eq (wire : Bytes) (tcp : TcpOutcome) (received : List (Option Bytes)) :
    acceptedReply wire tcp received = (firstMatch wire received).bind (afterMatch wire tcp) := by
  induction received with
  | nil => rfl
  | cons r rest ih =>
    cases r with
    | none => rfl
    | some d =>
      unfold acceptedReply firstMatch
      split_ifs
      · rfl
      · exact ih

variable {m : Message} {qq : Question}

theorem tc_of_parse {b : Bytes} (h : Message.parse b = .ok m) : m.header.tc = tcSet b := by
  rw [header_of_parse h]
  show decide ((be16 b 2).val / 512 % 2 = 1) = decide ((octet b 2).val / 2 % 2 = 1)
  rw [decide_eq_decide]
  simp only [be16, u16OfBe]
  omega

theorem isDefinitive_iff {b : Bytes} (h : Message.parse b = .ok m) :
    (parseResponse b false).isDefinitive = true ↔
      m.header.rcodeLow = NOERROR ∨ m.header.rcodeLow = NXDOMAIN := by
  unfold parseResponse
  simp only [h]
  split_ifs with hno hempty hnx
  · simp [ResolveResult.isDefinitive, hno]
  · simp [ResolveResult.isDefinitive, hno]
  · simp [ResolveResult.isDefinitive, hnx]
  · simp [ResolveResult.isDefinitive, hno, hnx]

variable {wire b : Bytes}

theorem matchesQuery_spec (hq : questionOfWire wire = some qq)
    (h : matchesQuery wire b = true) :
    ∃ m rq, Message.parse b = .ok m ∧ m.header.id = be16 wire 0 ∧ m.firstQuestion = some rq ∧
      rq.qtype = qq.qtype ∧ rq.qclass = qq.qclass ∧ rq.name.key = qq.name.key := by
  unfold matchesQuery responseMatches at h
  rw [hq] at h
  split_ifs at h with hid
  obtain ⟨-, hid⟩ := not_or.mp hid
  cases hm : Message.parse b with
  | error err => simp [hm] at h
  | ok m =>
    cases hrq : m.firstQuestion with
    | none => simp [hm, hrq] at h
    | some rq =>
      simp only [hm, hrq, Bool.and_eq_true, decide_eq_true_eq, Name.eqIgnoreAsciiCase_iff] at h
      refine ⟨m, rq, rfl, ?_, hrq, h.1.1, h.1.2, h.2⟩
      rw [header_of_parse hm]
      exact not_not.mp hid

/-- The full rcode of a definitive reply is one of the two exactly without an extension. -/
theorem fullRcode_iff (h : m.header.rcodeLow = NOERROR ∨ m.header.rcodeLow = NXDOMAIN) :
    (fullRcode m = NOERROR.val ∨ fullRcode m = NXDOMAIN.val) ↔
      ((m.edns?.map Edns.extRcode).getD 0) = 0 := by
  have hno : NOERROR.val = 0 := rfl
  have hnx : NXDOMAIN.val = 3 := rfl
  unfold fullRcode
  rw [Fin.ext_iff]
  show _ ↔ ((m.edns?.map Edns.extRcode).getD 0).val = 0
  rcases h with h | h
  · rw [h]
    omega
  · rw [h]
    omega

/-- A matching reply is complete whenever it is definitive exactly if it is plain or an error. -/
theorem complete_of_definitive_iff (hq : questionOfWire wire = some qq)
    (h : matchesQuery wire b = true) :
    ((parseResponse b false).isDefinitive = true → Complete wire qq b) ↔
      PlainReply b ∨ ErrorReply b := by
  obtain ⟨m, rq, hm, hid, hrq, htype, hclass, hname⟩ := matchesQuery_spec hq h
  rw [isDefinitive_iff hm]
  constructor
  · intro hcomplete
    by_cases hdef : m.header.rcodeLow = NOERROR ∨ m.header.rcodeLow = NXDOMAIN
    · left
      intro m' hm'
      obtain rfl := Except.ok.inj (hm.symm.trans hm')
      obtain ⟨m', rq', hm', hqr, -, hone, -, -, -, htc, hrc⟩ := hcomplete hdef
      obtain rfl := Except.ok.inj (hm.symm.trans hm')
      exact ⟨hqr, by rw [hone]; rfl, htc, (fullRcode_iff hdef).mp hrc⟩
    · right
      intro m' hm'
      obtain rfl := Except.ok.inj (hm.symm.trans hm')
      exact not_or.mp hdef
  · rintro (hplain | herror) hdef
    · obtain ⟨hqr, hone, htc, hext⟩ := hplain m hm
      obtain ⟨rq', hone⟩ := List.length_eq_one_iff.mp hone
      obtain rfl : rq' = rq := by simpa [Message.firstQuestion, hone] using hrq
      exact ⟨m, rq', hm, hqr, hid, hone, htype, hclass, hname, htc, (fullRcode_iff hdef).mpr hext⟩
    · obtain ⟨hno, hnx⟩ := herror m hm
      exact absurd hdef (not_or.mpr ⟨hno, hnx⟩)

/-- A truncated reply is complete whenever it is definitive exactly if it is an error. -/
theorem complete_of_truncated_iff (hq : questionOfWire wire = some qq)
    (h : matchesQuery wire b = true) (htc : tcSet b = true) :
    ((parseResponse b false).isDefinitive = true → Complete wire qq b) ↔ ErrorReply b := by
  rw [complete_of_definitive_iff hq h]
  obtain ⟨m, -, hm, -⟩ := matchesQuery_spec hq h
  refine ⟨fun hor => hor.resolve_left fun hplain => ?_, Or.inr⟩
  have := (hplain m hm).2.2.1
  rw [tc_of_parse hm, htc] at this
  cases this

theorem matchesQuery_of_firstMatch : ∀ {received : List (Option Bytes)},
    firstMatch wire received = some b → matchesQuery wire b = true := by
  intro received
  induction received with
  | nil => intro h; cases h
  | cons r rest ih =>
    intro h
    cases r with
    | none => cases h
    | some d =>
      unfold firstMatch at h
      split_ifs at h with hmatch
      · cases h
        exact hmatch
      · exact ih h

/-! ## When every definitive answer is complete -/

/-- The query `a. A`. -/
def forwardedA : Bytes := [0, 7, 1, 0, 0, 1, 0, 0, 0, 0, 0, 0] ++ [1, 97, 0, 0, 1, 0, 1]

/-- A reply with the TC bit and one record, `192.0.2.1`. -/
def truncatedA : Bytes :=
  [0, 7, 131, 128, 0, 1, 0, 1, 0, 0, 0, 0] ++ [1, 97, 0, 0, 1, 0, 1] ++
    [192, 12, 0, 1, 0, 1, 0, 0, 1, 44, 0, 4, 192, 0, 2, 1]

/-- The question of the query. -/
def forwardedQuestionA : Question := ⟨Local.nameA, Rtype.A, Class.IN⟩

/-- The query `a. A` as `serve_wire` forwards it to a server that truncates its reply and does
    not answer over TCP. -/
def arrivalTruncated : Arrival where
  query := forwardedA
  early := none
  instant := 0
  now := 0
  resolution := .forward
    ((acceptedReply forwardedA .failed [some truncatedA]).map fun b => (b, false))

end Runbound.Server
