import Runbound.Server.Failure
import Runbound.Server.Front
import Runbound.Server.Isolation

/-!
# Who passes the access list

The access list is asked after the route-outs: updates, other opcodes and transfers are
answered without it. Queries into signed zones ask it first, all other queries next.

* `queryStages_denied`, `queryStages_refused`: a standard query that is no transfer.
* `mediated_iff`: the requests for which the access list decides.
-/

namespace Runbound.Server

open Wire FastPath Local Lib Recursor List Rcode Runbound.Dnssec

/-! ## Octets of a reply -/

/-- A REFUSED response without answer and authority records. -/
structure RefusedBare (b : Bytes) : Prop where
  rcode : responseRcode b = REFUSED.val
  answers : be16 b 6 = 0
  authority : be16 b 8 = 0

theorem refusedBare_encode_iff {m : Message} (ha : m.answers = []) (hn : m.authority = []) :
    RefusedBare m.encode ↔ m.header.flags.val % 16 = REFUSED.val := by
  obtain ⟨hac, hnc⟩ := counts_encode m
  rw [ha] at hac
  rw [hn] at hnc
  constructor
  · intro h
    rw [← responseRcode_encode]
    exact h.rcode
  · intro h
    exact ⟨(responseRcode_encode m).trans h, hac, hnc⟩

theorem refusedBare_wireError_iff {req : Message} {rc : U16} (hrc : rc.val < 16) :
    RefusedBare (wireError req rc) ↔ rc = REFUSED := by
  show RefusedBare (answerOf req [] rc).encode ↔ _
  rw [refusedBare_encode_iff rfl rfl]
  show (responseHeader req rc).flags.val % 16 = _ ↔ _
  rw [responseRcode_header, Nat.mod_eq_of_lt hrc, Fin.ext_iff]

theorem octet_appendTsigRr {rr msg : Bytes} {i : ℕ} (hi : i < 10) (hlen : 10 ≤ msg.length) :
    octet (appendTsigRr rr msg) i = octet msg i := by
  have htake : (msg.take 10).length = 10 := by rw [length_take]; omega
  simp only [octet, appendTsigRr, getD_eq_getElem?_getD, append_assoc]
  rw [getElem?_append_left (by omega), getElem?_take_of_lt hi]

theorem refusedBare_appendTsigRr_iff {rr msg : Bytes} (hlen : 10 ≤ msg.length) :
    RefusedBare (appendTsigRr rr msg) ↔ RefusedBare msg := by
  have hoct : ∀ i < 10, octet (appendTsigRr rr msg) i = octet msg i := fun i hi =>
    octet_appendTsigRr hi hlen
  have hrc : responseRcode (appendTsigRr rr msg) = responseRcode msg := by
    rw [responseRcode, responseRcode, hoct 3 (by omega)]
  have h6 : be16 (appendTsigRr rr msg) 6 = be16 msg 6 := by
    rw [be16, be16, hoct 6 (by omega), hoct 7 (by omega)]
  have h8 : be16 (appendTsigRr rr msg) 8 = be16 msg 8 := by
    rw [be16, be16, hoct 8 (by omega), hoct 9 (by omega)]
  constructor
  · rintro ⟨h1, h2, h3⟩
    exact ⟨hrc ▸ h1, h6 ▸ h2, h8 ▸ h3⟩
  · rintro ⟨h1, h2, h3⟩
    exact ⟨hrc.trans h1, h6.trans h2, h8.trans h3⟩

/-! ## The stages -/

variable {msg : Message} {q : Question}

section

variable {crypto : Crypto} {f : Front} {sig : Signals} {peer : IpAddr} {raw : Bytes}
  {msg : Message} {q : Question} {z : LocalZoneSet}

/-- The updates that the UPDATE arm refuses: they are not allowed, not signed by a known key,
    or delete at a configured name. -/
def updateRefused (f : Front) (sig : Signals) (msg : Message) (z : LocalZoneSet) : Bool :=
  !f.allowUpdate || sig.tsig = .noKeys || sig.tsig = .rejected ||
    (sig.tsig = .verified && msg.authority ≠ [] && msg.authority.any (deletesStatic z))

/-- The rcode of an update that gets to `handle_update_wire`. -/
theorem handleUpdateWire_refused (tsig : TsigOutcome) (msg : Message) (z : LocalZoneSet) :
    (handleUpdateWire tsig msg z).1.val < 16 ∧
      ((handleUpdateWire tsig msg z).1 = REFUSED ↔ tsig = .noKeys ∨ tsig = .rejected ∨
        (tsig = .verified ∧ msg.authority ≠ [] ∧ msg.authority.any (deletesStatic z) = true)) ∧
      ((handleUpdateWire tsig msg z).1 = REFUSED → (handleUpdateWire tsig msg z).2 = z) := by
  have hno : NOERROR ≠ REFUSED := by decide
  have hform : FORMERR ≠ REFUSED := by decide
  have hlt : NOERROR.val < 16 ∧ FORMERR.val < 16 ∧ REFUSED.val < 16 := by decide
  unfold handleUpdateWire
  cases tsig with
  | noKeys => exact ⟨hlt.2.2, by simp, fun _ => rfl⟩
  | formErr => exact ⟨hlt.2.1, by simp [hform], fun _ => rfl⟩
  | rejected => exact ⟨hlt.2.2, by simp, fun _ => rfl⟩
  | verified =>
    split_ifs with hempty hstatic
    · exact ⟨hlt.1, by simp [hno, hempty], fun _ => rfl⟩
    · exact ⟨hlt.2.2, by simp [hempty, hstatic], fun _ => rfl⟩
    · exact ⟨hlt.1, by simp [hno, hstatic], fun h => absurd h hno⟩

/-- An update is answered REFUSED exactly if it is refused, and then changes nothing. -/
theorem updateStage_spec (f : Front) (sig : Signals) (msg : Message) (z : LocalZoneSet) :
    (updateStage f sig msg z).1 ≠ [] ∧
      (RefusedBare (updateStage f sig msg z).1 ↔ updateRefused f sig msg z = true) ∧
      (updateRefused f sig msg z = true → (updateStage f sig msg z).2 = z) := by
  have hrefused : ∀ rc : U16, rc.val < 16 →
      (RefusedBare (updateResponseOf msg rc).encode ↔ rc = REFUSED) := by
    intro rc hrc
    rw [refusedBare_encode_iff rfl rfl, Fin.ext_iff]
    show (_ / 16 * 16 + rc.val % 16) % 16 = _ ↔ _
    omega
  cases hallow : f.allowUpdate with
  | false =>
    have hstage : updateStage f sig msg z = ((updateResponseOf msg REFUSED).encode, z) := by
      rw [updateStage, hallow]
      rfl
    rw [hstage, hrefused _ (by decide)]
    exact ⟨encode_ne_nil _, by simp [updateRefused, hallow], fun _ => rfl⟩
  | true =>
    obtain ⟨hsmall, hiff, hsame⟩ := handleUpdateWire_refused sig.tsig msg z
    have hcond : updateRefused f sig msg z = true ↔
        (handleUpdateWire sig.tsig msg z).1 = REFUSED := by
      rw [hiff]
      simp [updateRefused, hallow, or_assoc, and_assoc]
    set resp := (updateResponseOf msg (handleUpdateWire sig.tsig msg z).1).encode with hresp
    have hlong : 12 ≤ resp.length := by
      obtain ⟨body, h, -⟩ := Message.encode_eq_append
        (updateResponseOf msg (handleUpdateWire sig.tsig msg z).1) _ rfl rfl rfl rfl
      rw [hresp, h, length_append]
      simp [Header.wire]
    have hzones : (updateStage f sig msg z).2 = (handleUpdateWire sig.tsig msg z).2 := by
      rw [updateStage, hallow]
      rfl
    have hreply : (updateStage f sig msg z).1 = resp ∨
        ∃ rr, (updateStage f sig msg z).1 = appendTsigRr rr resp := by
      rw [updateStage, hallow]
      simp only [not_true_eq_false, if_false]
      split
      · exact Or.inr ⟨_, rfl⟩
      · exact Or.inl rfl
    refine ⟨?_, ?_, fun h => hzones.trans (hsame (hcond.mp h))⟩
    · rcases hreply with h | ⟨rr, h⟩ <;> rw [h]
      · exact encode_ne_nil _
      · intro hnil
        have := congrArg List.length hnil
        simp [appendTsigRr] at this
    · rw [hcond, ← hrefused _ hsmall]
      rcases hreply with h | ⟨rr, h⟩ <;> rw [h]
      exact refusedBare_appendTsigRr_iff (by omega)

theorem queryStages_denied (hacl : f.acl.check peer = .deny) (hq : isTransfer q = false) :
    ∃ e, queryStages crypto f sig peer raw msg q z = some e ∧
      (e.reply = none ∨ e.reply = some []) := by
  unfold queryStages
  rw [if_neg (by simp [hq])]
  cases hs : signerFor f msg q with
  | some s => exact ⟨⟨.gate, none⟩, by simp [signedStage, hs, hacl], Or.inl rfl⟩
  | none =>
    exact ⟨⟨.gate, some []⟩, by simp [signedStage, hs, accessStage, aclStage, hacl], Or.inr rfl⟩

theorem queryStages_refused (hacl : f.acl.check peer = .refuse) (hq : isTransfer q = false) :
    ∃ e, queryStages crypto f sig peer raw msg q z = some e ∧
      (e.reply = none ∨ e.reply = some (wireError msg REFUSED)) := by
  unfold queryStages
  rw [if_neg (by simp [hq])]
  cases hs : signerFor f msg q with
  | some s => exact ⟨⟨.gate, none⟩, by simp [signedStage, hs, hacl], Or.inl rfl⟩
  | none =>
    exact ⟨⟨.gate, some (wireError msg REFUSED)⟩,
      by simp [signedStage, hs, accessStage, aclStage, hacl], Or.inr rfl⟩

/-- A transfer is answered by `axfr-allow` alone, always with some octets. -/
theorem queryStages_transfer (crypto : Crypto) (f : Front) (sig : Signals) (peer : IpAddr)
    (raw : Bytes) (msg : Message) (z : LocalZoneSet) (hq : isTransfer q = true) :
    ∃ e b, queryStages crypto f sig peer raw msg q z = some e ∧ e.reply = some b ∧ b ≠ [] ∧
      (RefusedBare b ↔ isTransferAllowed peer f.axfrAllow = false) := by
  unfold queryStages
  rw [if_pos hq]
  cases hallow : isTransferAllowed peer f.axfrAllow with
  | false =>
    refine ⟨_, wireError msg REFUSED, rfl, by simp [transferStage, hallow], encode_ne_nil _, ?_⟩
    rw [refusedBare_wireError_iff (by decide)]
    simp
  | true =>
    cases hm : axfrMessage msg q sig.now z with
    | none =>
      refine ⟨_, wireError msg NXDOMAIN, rfl, by simp [transferStage, hallow, hm],
        encode_ne_nil _, ?_⟩
      rw [refusedBare_wireError_iff (by decide)]
      exact iff_of_false (by decide) (by decide)
    | some m =>
      refine ⟨_, m.encode, rfl, by simp [transferStage, hallow, hm], encode_ne_nil _, ?_⟩
      have hflags : m.header.flags.val % 16 = 0 := by
        unfold axfrMessage at hm
        simp only [Option.ite_none_left_eq_some, Option.some.injEq] at hm
        obtain ⟨-, rfl⟩ := hm
        show (_ / 16 * 16 + 0 % 16) % 16 = 0
        omega
      refine iff_of_false (fun h => ?_) (by decide)
      have hrc := h.rcode
      rw [responseRcode_encode, hflags] at hrc
      exact absurd hrc (by decide)

end

/-! ## Mediation -/

/-- The datagram is a standard query for a transfer by a client that may have one. -/
def TransferRequest (f : Front) (peer : IpAddr) (raw : Bytes) : Prop :=
  ∃ msg q, Message.parse raw = .ok msg ∧ msg.firstQuestion = some q ∧
    msg.header.opcode = Opcode.QUERY ∧ isTransfer q = true ∧
    isTransferAllowed peer f.axfrAllow = true

/-- The access list decides on a request: nothing for a denied client that asks for no
    transfer it may have, at most a bare REFUSED for a refused one, and no change for both. -/
structure Mediated (f : Front) (peer : IpAddr) (raw : Bytes) (z : LocalZoneSet)
    (reply : Option Bytes) (after : LocalZoneSet) : Prop where
  deny : f.acl.check peer = .deny → ¬ TransferRequest f peer raw →
    (reply = none ∨ reply = some []) ∧ after = z
  refuse : f.acl.check peer = .refuse → (∀ b, reply = some b → b = [] ∨ RefusedBare b) ∧ after = z

/-- A request of a denied client is a standard query, and no transfer unless it may have one.
    A request of a refused client is a standard query and no transfer that it may have, or an
    update that is refused. -/
def AclFirst (f : Front) (sig : Signals) (peer : IpAddr) (raw : Bytes) (z : LocalZoneSet) : Prop :=
  ∀ msg q, Message.parse raw = .ok msg → msg.firstQuestion = some q →
    (f.acl.check peer = .deny → msg.header.opcode = Opcode.QUERY ∧
      (isTransfer q = true → isTransferAllowed peer f.axfrAllow = true)) ∧
    (f.acl.check peer = .refuse →
      (msg.header.opcode = Opcode.QUERY ∧
        (isTransfer q = true → isTransferAllowed peer f.axfrAllow = false)) ∨
      (msg.header.opcode = Opcode.UPDATE ∧ updateRefused f sig msg z = true))

section

variable (crypto : Crypto) (f : Front) (sig : Signals) (peer : IpAddr) (raw : Bytes) (h : Handler)
  (instant : ℕ) (now : U32) (resolution : Resolution) (z : LocalZoneSet) (s : Caches)

/-- The reply of an early stage is the reply of `serve_wire`. -/
theorem serveDns_of_early {e : Early} {z' : LocalZoneSet}
    (hp : Message.parse raw = .ok msg) (hq : msg.firstQuestion = some q)
    (he : frontStages crypto f sig peer raw z = (some e, z')) :
    (serveDns crypto f sig peer raw h instant now resolution z s).1 = e.reply ∧
      (serveDns crypto f sig peer raw h instant now resolution z s).2.1 = z' := by
  unfold serveDns
  simp [he, serveWire, hp, hq]

theorem mediated_of_none {reply : Option Bytes} {after : LocalZoneSet} (hr : reply = none)
    (ha : after = z) : Mediated f peer raw z reply after := by
  subst hr ha
  exact ⟨fun _ _ => ⟨Or.inl rfl, rfl⟩, fun _ => ⟨fun b hb => (by cases hb), rfl⟩⟩

/-- A request that is answered with some octets and changes nothing. -/
theorem mediated_some_iff {b : Bytes} (hb : b ≠ []) :
    Mediated f peer raw z (some b) z ↔
      (f.acl.check peer = .deny → TransferRequest f peer raw) ∧
        (f.acl.check peer = .refuse → RefusedBare b) := by
  constructor
  · intro hmed
    refine ⟨fun hd => ?_, fun hr => ((hmed.refuse hr).1 b rfl).resolve_left hb⟩
    by_contra hno
    rcases (hmed.deny hd hno).1 with h | h
    · cases h
    · exact hb (Option.some.inj h)
  · rintro ⟨hd, hr⟩
    refine ⟨fun hdeny hno => absurd (hd hdeny) hno, fun href => ⟨fun b' hb' => ?_, rfl⟩⟩
    obtain rfl := Option.some.inj hb'
    exact Or.inr (hr href)

theorem transferRequest_iff (hp : Message.parse raw = .ok msg)
    (hq : msg.firstQuestion = some q) :
    TransferRequest f peer raw ↔ msg.header.opcode = Opcode.QUERY ∧ isTransfer q = true ∧
      isTransferAllowed peer f.axfrAllow = true := by
  simp [TransferRequest, hp, hq]

theorem mediated_message_iff (hp : Message.parse raw = .ok msg)
    (hq : msg.firstQuestion = some q) :
    Mediated f peer raw z (serveDns crypto f sig peer raw h instant now resolution z s).1
        (serveDns crypto f sig peer raw h instant now resolution z s).2.1 ↔
      AclFirst f sig peer raw z := by
  have hearly : ∀ e z', frontStages crypto f sig peer raw z = (some e, z') →
      (serveDns crypto f sig peer raw h instant now resolution z s).1 = e.reply ∧
        (serveDns crypto f sig peer raw h instant now resolution z s).2.1 = z' := fun e z' =>
    serveDns_of_early crypto f sig peer raw h instant now resolution z s hp hq
  have hopcodes : Opcode.QUERY ≠ Opcode.UPDATE := by decide
  have htransfer := transferRequest_iff f peer raw hp hq
  -- the datagram is one message with one question
  have hfirst := Iff.intro (fun hall : AclFirst f sig peer raw z => hall msg q hp hq)
    fun hone msg' q' hp' hq' => by
      cases hp.symm.trans hp'
      cases hq.symm.trans hq'
      exact hone
  rw [hfirst]
  by_cases hup : msg.header.opcode = Opcode.UPDATE
  · -- an update: answered without the access list
    obtain ⟨hne, hbare, hsame⟩ := updateStage_spec f sig msg z
    obtain ⟨hreply, hzones⟩ := hearly ⟨.gate, some (updateStage f sig msg z).1⟩
      (updateStage f sig msg z).2 (by simp [frontStages, hp, hq, hup])
    have hquery : msg.header.opcode ≠ Opcode.QUERY := by rw [hup]; decide
    rw [hreply, hzones]
    constructor
    · intro hmed
      refine ⟨fun hd => ?_, fun hr => ?_⟩
      · rcases (hmed.deny hd fun ht => hquery (htransfer.mp ht).1).1 with hnone | hnil
        · cases hnone
        · exact absurd (Option.some.inj hnil) hne
      · exact Or.inr ⟨hup, hbare.mp (((hmed.refuse hr).1 _ rfl).resolve_left hne)⟩
    · rintro ⟨hd, hr⟩
      refine ⟨fun hdeny => absurd (hd hdeny).1 hquery, fun href => ?_⟩
      have hrefused := ((hr href).resolve_left fun hcase => hquery hcase.1).2
      refine ⟨fun b hb => ?_, hsame hrefused⟩
      obtain rfl := Option.some.inj hb
      exact Or.inr (hbare.mpr hrefused)
  by_cases hquery : msg.header.opcode = Opcode.QUERY
  · have hstages : frontStages crypto f sig peer raw z =
        (queryStages crypto f sig peer raw msg q z, z) := by
      simp [frontStages, hp, hq, hquery, hopcodes]
    cases ht : isTransfer q with
    | true =>
      obtain ⟨e, b, he, hb, hne, hbare⟩ := queryStages_transfer crypto f sig peer raw msg z ht
      obtain ⟨hreply, hzones⟩ := hearly e z (by rw [hstages, he])
      rw [hreply, hzones, hb, mediated_some_iff f peer raw z hne, htransfer, hbare]
      simp [hquery, ht, hopcodes]
    | false =>
      -- the access list is asked before anything is served
      refine iff_of_true ?_ (by simp [hquery])
      refine ⟨fun hd _ => ?_, fun hr => ?_⟩
      · obtain ⟨e, he, hnothing⟩ := queryStages_denied hd ht
        obtain ⟨hreply, hzones⟩ := hearly e z (by rw [hstages, he])
        rw [hreply, hzones]
        exact ⟨hnothing, rfl⟩
      · obtain ⟨e, he, hnothing⟩ := queryStages_refused hr ht
        obtain ⟨hreply, hzones⟩ := hearly e z (by rw [hstages, he])
        rw [hreply, hzones]
        refine ⟨fun b hb => ?_, rfl⟩
        rcases hnothing with hnone | hrefused
        · rw [hnone] at hb
          cases hb
        · obtain rfl := Option.some.inj (hrefused.symm.trans hb)
          exact Or.inr ((refusedBare_wireError_iff (by decide)).mpr rfl)
  · -- any other opcode: NOTIMP for everyone
    obtain ⟨hreply, hzones⟩ := hearly ⟨.gate, some (wireError msg NOTIMP)⟩ z
      (by simp [frontStages, hp, hq, hup, hquery])
    have hne : wireError msg NOTIMP ≠ [] := encode_ne_nil _
    have hno : NOTIMP ≠ REFUSED := by decide
    rw [hreply, hzones]
    show Mediated f peer raw z (some (wireError msg NOTIMP)) z ↔ _
    rw [mediated_some_iff f peer raw z hne, htransfer, refusedBare_wireError_iff (by decide)]
    simp [hquery, hup, hno]

/-- The access list decides exactly on those requests. -/
theorem mediated_iff :
    Mediated f peer raw z (serveDns crypto f sig peer raw h instant now resolution z s).1
        (serveDns crypto f sig peer raw h instant now resolution z s).2.1 ↔
      AclFirst f sig peer raw z := by
  cases hp : Message.parse raw with
  | error err =>
    have hfirst : AclFirst f sig peer raw z := by
      intro msg q hmsg
      rw [hp] at hmsg
      cases hmsg
    refine iff_of_true ?_ hfirst
    refine mediated_of_none f peer raw z ?_ ?_ <;> simp [serveDns, serveWire, frontStages, hp]
  | ok msg =>
    cases hq : msg.firstQuestion with
    | none =>
      have hfirst : AclFirst f sig peer raw z := by
        intro msg' q hmsg hq'
        obtain rfl := Except.ok.inj (hp.symm.trans hmsg)
        rw [hq] at hq'
        cases hq'
      refine iff_of_true ?_ hfirst
      refine mediated_of_none f peer raw z ?_ ?_ <;> simp [serveDns, serveWire, frontStages, hp, hq]
    | some q =>
      exact mediated_message_iff crypto f sig peer raw h instant now resolution z s hp hq

end

/-! ## A denied client -/

/-- A handler that denies everyone. -/
def denyAll : Front := { acl := [⟨⟨.v4 0, 0, Nat.zero_le _⟩, .deny⟩] }

/-- The address 192.0.2.1. -/
def peerA : IpAddr := .v4 ![192, 0, 2, 1]

/-- A datagram with opcode STATUS and the question `a. A`. -/
def statusA : Bytes := [0, 7, 16, 0, 0, 1, 0, 0, 0, 0, 0, 0] ++ [1, 97, 0, 0, 1, 0, 1]

/-- What that client gets, from a server with empty caches and no local data. -/
def deniedReply : Option Bytes × LocalZoneSet × Caches :=
  serveDns (idealCrypto [] []) denyAll {} peerA statusA ⟨false, ⟨0, 0, 0⟩, fun _ => false, none⟩ 0 0
    (.forward none) {} {}

/-- A denied client gets NOTIMP for an opcode the server does not know. -/
theorem denied_gets_notimp :
    denyAll.acl.check peerA = .deny ∧ deniedReply.1.map responseRcode = some NOTIMP.val ∧
      ¬ Mediated denyAll peerA statusA {} deniedReply.1 deniedReply.2.1 := by
  have hdeny : denyAll.acl.check peerA = .deny := by decide +kernel
  have hrcode : deniedReply.1.map responseRcode = some NOTIMP.val := by decide +kernel
  have hopcode : (Message.parse statusA).toOption.any
      (fun msg => msg.header.opcode = Opcode.QUERY) = false := by decide +kernel
  have hother : ¬ TransferRequest denyAll peerA statusA := by
    rintro ⟨msg, q, hp, -, hquery, -⟩
    rw [hp] at hopcode
    exact of_decide_eq_false hopcode hquery
  refine ⟨hdeny, hrcode, fun hmed => ?_⟩
  rcases (hmed.deny hdeny hother).1 with hnone | hnil
  · rw [hnone] at hrcode
    cases hrcode
  · rw [hnil] at hrcode
    exact absurd hrcode (by decide)

end Runbound.Server
