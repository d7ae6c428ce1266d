import Runbound.Server.CachedReply
import Runbound.Wire.Reencode
import Runbound.Wire.Stable

/-!
# Responses cut to a client's budget (`truncate_udp_response`)

A response that is too long for the client is written again without its answers and with the
TC bit, and what is still too long is cut off. Octets cut off the end of an encoded message
leave something that does not parse.

Results:
* `Message.parse_take_encode`: no proper front of an encoding parses.
* `truncate_iff`: the result is a valid reply with TC iff the header, the questions and the OPT
  records of the response fit the budget.
-/

namespace Runbound.Wire.Message

open Lib Lib.Decoder

theorem reads_encode (m : Message) (hw : m.WireOk) (hf : m.Fits) :
    ∃ m', Same m m' ∧ decode.Reads m.encode 0 m' m.encode.length := by
  obtain ⟨-, -, hread⟩ := m.emits hw hf {} (by
    intro p hp
    cases hp)
  exact hread m.encode List.prefix_rfl

theorem parse_take_encode (m : Message) (hw : m.WireOk) (hf : m.Fits) {k : ℕ}
    (hk : k < m.encode.length) (m' : Message) : parse (m.encode.take k) ≠ .ok m' := by
  intro hparse
  unfold parse at hparse
  cases hd : decode (m.encode.take k) 0 with
  | error e => simp [hd, Except.map] at hparse
  | ok r =>
    -- the same octets with the rest after them are read to another end
    obtain ⟨hstop, hsame⟩ := stable_decode _ _ _ _ hd
    obtain ⟨m₂, -, hread⟩ := m.reads_encode hw hf
    have hwhole := hsame (m.encode.drop k)
    rw [List.take_append_drop] at hwhole
    have heq := hwhole.symm.trans hread
    simp only [Except.ok.injEq, Prod.mk.injEq] at heq
    have hle := hstop (Nat.zero_le _)
    rw [List.length_take] at hle
    omega

end Runbound.Wire.Message

namespace Runbound.Server

open Wire FastPath Lib

/-! ## The budget -/

/-- The octets a client takes (dns/server.rs:2111-2117). -/
def budget (query : Bytes) : ℕ :=
  match Message.parse query with
  | .ok m => match m.edns with
    | .ok (some e) => min (max e.udpPayload.val 512) 1232
    | _ => 512
  | .error _ => 512

theorem truncateUdpResponse_budget (resp query : Bytes) :
    truncateUdpResponse resp query =
      if resp.length ≤ budget query then resp
      else
        match Message.parse resp with
        | .error _ => resp
        | .ok m => (cutDown m).encode.take (budget query) := rfl

/-- The header, the questions and the OPT records of a message. -/
def bare (m : Message) : Message :=
  { m with
    answers := []
    authority := []
    additional := m.additional.filter fun r => r.rtype = Rtype.OPT }

theorem length_encode_cutDown (m : Message) : (cutDown m).encode.length = (bare m).encode.length := by
  obtain ⟨body, hcut, hbare⟩ := (cutDown m).encode_eq_append (bare m) rfl rfl rfl rfl
  rw [hcut, hbare, List.length_append, List.length_append]
  rfl

/-! ## The bits of the header -/

theorem flags_setTc (h : Header) (v : Bool) :
    (h.setTc v).flags.val = h.flags.val / 1024 * 1024 + v.toNat * 512 + h.flags.val % 512 := rfl

theorem tc_setTc (h : Header) : (h.setTc true).tc = true := by
  show decide ((h.setTc true).flags.val / 512 % 2 = 1) = true
  rw [flags_setTc, decide_eq_true_eq, Bool.toNat_true]
  omega

theorem rcodeLow_setTc (h : Header) (v : Bool) : (h.setTc v).rcodeLow = h.rcodeLow := by
  apply Fin.ext
  show (h.setTc v).flags.val % 16 = h.flags.val % 16
  rw [flags_setTc]
  cases v with
  | false =>
    omega
  | true =>
    omega

/-! ## The reply -/

/-- A reply with TC in place of the response `m`. -/
structure TcReply (m m' : Message) : Prop where
  id : m'.header.id = m.header.id
  rcode : m'.header.rcodeLow = m.header.rcodeLow
  tc : m'.header.tc = true
  questions : List.Forall₂ Question.Same m.questions m'.questions
  answers : m'.answers = []
  authority : m'.authority = []

theorem tcReply_of_same {m m' : Message} (h : Message.Same (cutDown m) m') : TcReply m m' where
  id := by
    rw [h.header]
    rfl
  rcode := by
    rw [h.header]
    exact rcodeLow_setTc m.header true
  tc := by
    rw [h.header]
    exact tc_setTc m.header
  questions := h.questions
  answers := List.forall₂_nil_left_iff.mp h.answers
  authority := List.forall₂_nil_left_iff.mp h.authority

theorem hasRoom_of_opt {r : Record} (h : r.rtype = Rtype.OPT) : r.rdata.HasRoom := by
  have hp := r.parsed
  rw [h] at hp
  generalize r.rdata = rd at hp ⊢
  cases rd with
  | svcb priority target params => simp [Rdata.parsedAs, Rtype.OPT, Rtype.SVCB, Rtype.HTTPS] at hp
  | _ => trivial

theorem mem_cutDown {m : Message} {r : Record}
    (h : r ∈ (cutDown m).answers ++ (cutDown m).authority ++ (cutDown m).additional) :
    r ∈ m.additional ∧ r.rtype = Rtype.OPT := by
  have hmem : r ∈ m.additional.filter fun r => r.rtype = Rtype.OPT := by simpa [cutDown] using h
  simpa using List.mem_filter.mp hmem

/-- What is left of a response that was read can be written and read. -/
theorem cutDown_wireOk {resp : Bytes} {m : Message} (h : Message.parse resp = .ok m) :
    (cutDown m).WireOk ∧ (cutDown m).Fits := by
  have hw := wireOk_of_parse h
  have hsize := FastPath.forall_records_of_parse h fun _ _ _ => Record.length_emit_of_parse
  obtain ⟨hq, -, -, hr⟩ := counts_of_parse h
  refine ⟨?_, ?_, Nat.zero_lt_succ _, Nat.zero_lt_succ _, ?_, ?_⟩
  · intro r hmem
    exact hw r (List.mem_append_right _ (mem_cutDown hmem).1)
  · show m.questions.length < 65536
    rw [← hq]
    exact (be16 resp 4).isLt
  · refine lt_of_le_of_lt (List.length_filter_le _ _) ?_
    rw [← hr]
    exact (be16 resp 10).isLt
  · intro r hmem
    obtain ⟨hadd, hopt⟩ := mem_cutDown hmem
    exact hsize r (List.mem_append_right _ hadd) (hasRoom_of_opt hopt)

/-- The result fits the budget, and is a valid reply with TC if anything was cut, iff the response
    fits or its header, questions and OPT records do. -/
theorem truncate_iff {query resp : Bytes} {m : Message} (h : Message.parse resp = .ok m) :
    ((truncateUdpResponse resp query).length ≤ budget query ∧
      (truncateUdpResponse resp query ≠ resp →
        ∃ m', Message.parse (truncateUdpResponse resp query) = .ok m' ∧ TcReply m m')) ↔
      resp.length ≤ budget query ∨ (bare m).encode.length ≤ budget query := by
  obtain ⟨hw, hf⟩ := cutDown_wireOk h
  rw [truncateUdpResponse_budget]
  by_cases hfits : resp.length ≤ budget query
  · rw [if_pos hfits]
    exact ⟨fun _ => Or.inl hfits, fun _ => ⟨hfits, fun hne => absurd rfl hne⟩⟩
  · rw [if_neg hfits, h, ← length_encode_cutDown]
    simp only
    have hlen : ((cutDown m).encode.take (budget query)).length ≤ budget query :=
      (List.length_take_le _ _)
    have hcut : (cutDown m).encode.take (budget query) ≠ resp := by
      intro heq
      rw [heq] at hlen
      exact hfits hlen
    constructor
    · rintro ⟨-, hvalid⟩
      obtain ⟨m', hparse, -⟩ := hvalid hcut
      by_contra hlong
      exact (cutDown m).parse_take_encode hw hf (by omega) m' hparse
    · intro hle
      have hshort := hle.resolve_left hfits
      rw [List.take_of_length_le hshort]
      refine ⟨hshort, ?_⟩
      intro _
      obtain ⟨m', hsame, hread⟩ := (cutDown m).reads_encode hw hf
      refine ⟨m', ?_, tcReply_of_same hsame⟩
      rw [Message.parse, hread]
      rfl

/-! ## A padded response -/

/-- A query for the addresses of `a.`, without EDNS. -/
def plainQuery : Bytes := [0, 7, 1, 0, 0, 1, 0, 0, 0, 0, 0, 0, 1, 97, 0, 0, 1, 0, 1]

/-- A response to it with no answers and an OPT record that holds a padding option of 496 octets. -/
def paddedReply : Bytes :=
  [0, 7, 129, 128, 0, 1, 0, 0, 0, 0, 0, 1, 1, 97, 0, 0, 1, 0, 1,
    0, 0, 41, 4, 208, 0, 0, 0, 0, 1, 244, 0, 12, 1, 240] ++ List.replicate 496 0

/-- What is cut off the padding leaves an OPT record that is too short, and no message. -/
theorem truncate_padded :
    ∃ m, Message.parse paddedReply = .ok m ∧
      ¬ ((truncateUdpResponse paddedReply plainQuery).length ≤ budget plainQuery ∧
        (truncateUdpResponse paddedReply plainQuery ≠ paddedReply →
          ∃ m', Message.parse (truncateUdpResponse paddedReply plainQuery) = .ok m' ∧
            TcReply m m')) := by
  obtain ⟨m, hm, -⟩ := exists_parse_of_any
    (show (Message.parse paddedReply).toOption.any (fun _ => true) = true by decide +kernel)
  have hchanged : truncateUdpResponse paddedReply plainQuery ≠ paddedReply := by decide +kernel
  have hnone : (Message.parse (truncateUdpResponse paddedReply plainQuery)).toOption.isNone = true := by
    decide +kernel
  refine ⟨m, hm, ?_⟩
  rintro ⟨-, hvalid⟩
  obtain ⟨m', hparse, -⟩ := hvalid hchanged
  rw [hparse] at hnone
  cases hnone

theorem truncate_iff_padded :
    ∃ m, Message.parse paddedReply = .ok m ∧
      (((truncateUdpResponse paddedReply plainQuery).length ≤ budget plainQuery ∧
        (truncateUdpResponse paddedReply plainQuery ≠ paddedReply →
          ∃ m', Message.parse (truncateUdpResponse paddedReply plainQuery) = .ok m' ∧
            TcReply m m')) ↔
        paddedReply.length ≤ budget plainQuery ∨ (bare m).encode.length ≤ budget plainQuery) := by
  obtain ⟨m, hm, -⟩ := exists_parse_of_any
    (show (Message.parse paddedReply).toOption.any (fun _ => true) = true by decide +kernel)
  exact ⟨m, hm, truncate_iff hm⟩

end Runbound.Server
