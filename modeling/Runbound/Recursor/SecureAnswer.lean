import Runbound.Dnssec.Ideal
import Runbound.Recursor.Runs

/-!
# What a Secure answer consists of

`validate_full` verifies one RRset per hop: the queried type at the target if there
is one, else the CNAME. The chase follows a CNAME at the target whether or not the
queried type is there too. A reply with both is judged by the one and followed by
the other.

* `secureAnswer_validated`: over any run, each record of a Secure answer belongs to
  an RRset its hop validated, or is a CNAME from such a mixed reply.
* `unsignedCname_served`: a Secure answer that starts with an unsigned CNAME.
-/

namespace Runbound.Recursor

open Wire Dnssec List Rtype Class

variable {σ : Type} {env : Env σ}

/-- The RRset of type `t` at the target of a hop verified under the trusted keys of its
    zone, with a proof that the target has no exact match if it was expanded from a
    wildcard. -/
def Hop.RrsetSecure (env : Env σ) (hop : Hop σ) (t : U16) : Prop :=
  ∃ zone keys wildcard, signingZone hop.msg hop.target = some zone ∧
    (trustedKeysFor env.toEnv zone hop.now hop.before).1 = (.secure, keys) ∧
    validateRrsetWc env.crypto hop.target IN t
      ((rrset hop.msg.answers hop.target t).map Record.rdata) (split hop.msg.answers t).2 keys
      hop.now = some wildcard ∧
    (wildcard = true → provesNoExactMatch env.crypto hop.msg keys hop.now hop.target zone = true)

/-- The reply has both the queried type and a CNAME at the target. -/
def Hop.Mixed (hop : Hop σ) : Prop :=
  hop.qtype ≠ CNAME ∧ rrset hop.msg.answers hop.target hop.qtype ≠ [] ∧
    rrset hop.msg.answers hop.target CNAME ≠ []

/-- `r` came, up to its TTL, from an RRset of a hop that was validated, or is a CNAME
    from a mixed reply. -/
def FromHop (env : Env σ) (log : List (Hop σ)) (key : Name × U16) (r : Record) : Prop :=
  ∃ hop, HopOf log key hop ∧ (∃ r' ∈ rrset hop.msg.answers hop.target r.rtype, SameButTtl r r') ∧
    (hop.RrsetSecure env r.rtype ∨ (r.rtype = CNAME ∧ hop.Mixed))

variable {hop : Hop σ} {log : List (Hop σ)} {msg : Message} {key : Name × U16} {t : U16}

/-- The RRset that `validate_full` picks in a Secure answer was validated. -/
theorem rrsetSecure_of_answerType (hsec : (hop.judgement env).1 = .secure)
    (ht : answerType hop.msg hop.target hop.qtype = some t) : hop.RrsetSecure env t := by
  have hj : (validateFull env.toEnv hop.target hop.qtype hop.msg hop.now hop.before).1 =
      (.secure, (hop.judgement env).2) := Prod.ext hsec rfl
  obtain ⟨zone, keys, hz, hk, hj⟩ := validateFull_secure hj
  rcases judge_secure hj with ⟨t', ht', hans, -⟩ | ⟨hnone, -⟩
  · rw [ht] at ht'
    cases ht'
    unfold judgeAnswer at hans
    split at hans
    · cases hans
    · rename_i hwc; exact ⟨zone, keys, false, hz, hk, hwc, by simp⟩
    · rename_i hwc
      split_ifs at hans with hno
      exact ⟨zone, keys, true, hz, hk, hwc, fun _ => hno⟩
  · rw [ht] at hnone; cases hnone

theorem rrset_ne_nil_iff {records : List Record} {owner : Name} :
    rrset records owner t ≠ [] ↔
      (records.any fun r => r.rtype = t && r.name.eqIgnoreAsciiCase owner) = true := by
  simp [rrset]

theorem answerType_of_qtype {qname : Name} {qtype : U16}
    (h : rrset msg.answers qname qtype ≠ []) : answerType msg qname qtype = some qtype := by
  rw [answerType, if_pos (rrset_ne_nil_iff.mp h)]

theorem answerType_of_cname {qname : Name} {qtype : U16}
    (hq : rrset msg.answers qname qtype = []) (hc : rrset msg.answers qname CNAME ≠ []) :
    answerType msg qname qtype = some CNAME := by
  rw [answerType, if_neg (fun h => absurd hq (rrset_ne_nil_iff.mpr h)),
    if_pos (rrset_ne_nil_iff.mp hc)]

theorem hopCname_mem {target next : Name} {cn : Record}
    (h : hopCname msg target = some (cn, next)) : cn ∈ rrset msg.answers target CNAME := by
  obtain ⟨r, hr, hcn⟩ := exists_of_findSome?_eq_some h
  split_ifs at hcn with hcond
  split at hcn
  · cases hcn
    simp only [Bool.and_eq_true, decide_eq_true_eq] at hcond
    exact mem_rrset.mpr ⟨hr, hcond⟩
  · cases hcn

theorem fromHop_of_mem {r : Record}
    (hhop : HopOf log key hop) (hr : r ∈ rrset hop.msg.answers hop.target t)
    (h : hop.RrsetSecure env t ∨ (t = CNAME ∧ hop.Mixed)) : FromHop env log key r := by
  have ht : r.rtype = t := (mem_rrset.mp hr).2.1
  exact ⟨hop, hhop, ⟨r, ht ▸ hr, .refl r⟩, ht ▸ h⟩

theorem FromHop.mono {r : Record} (h : FromHop env log key r) : FromHop env (hop :: log) key r := by
  obtain ⟨hop', hhop, h⟩ := h
  exact ⟨hop', hhop.mono fun _ h => mem_cons_of_mem _ h, h⟩

/-- The CNAME of a Secure hop was validated, unless the reply is mixed. -/
theorem fromHop_cname {cn : Record}
    {next : Name} (hhop : HopOf log key hop) (hsec : (hop.judgement env).1 = .secure)
    (hcn : hopCname hop.msg hop.target = some (cn, next)) : FromHop env log key cn := by
  have hmem := hopCname_mem hcn
  have hne : rrset hop.msg.answers hop.target CNAME ≠ [] := ne_nil_of_mem hmem
  refine fromHop_of_mem hhop hmem ?_
  by_cases hq : rrset hop.msg.answers hop.target hop.qtype = []
  · exact Or.inl (rrsetSecure_of_answerType hsec (answerType_of_cname hq hne))
  · by_cases hc : hop.qtype = CNAME
    · exact Or.inl (hc ▸ rrsetSecure_of_answerType hsec (answerType_of_qtype hq))
    · exact Or.inr ⟨rfl, hc, hq, hne⟩

theorem fromHop_justifies : Justifies env
    (fun key log records verdict => verdict = .secure → ∀ r ∈ records, FromHop env log key r)
    (fun key log v => v.verdict = .secure → ∀ r ∈ v.records, FromHop env log key r) where
  start _ _ := by intro _ r hr; cases hr
  follow hhop hK hcn := by
    intro hsec r hr
    obtain ⟨hv, hj⟩ := worstVerdict_secure hsec
    rcases mem_append.mp hr with hr | hr
    · exact (hK hv r hr).mono
    · rw [mem_singleton.mp hr]
      exact fromHop_cname hhop hj hcn
  refuse _ _ := by intro hsec; cases hsec
  finish hhop hK _ := by
    intro hsec r hr
    obtain ⟨hv, hj⟩ := worstVerdict_secure hsec
    rcases mem_append.mp hr with hr | hr
    · exact (hK hv r hr).mono
    · exact fromHop_of_mem hhop hr
        (Or.inl (rrsetSecure_of_answerType hj (answerType_of_qtype (ne_nil_of_mem hr))))
  mono h := fun hsec r hr => (h hsec r hr).mono
  congr hk h := by
    intro hsec r hr
    obtain ⟨hop, hhop, h⟩ := h hsec r hr
    exact ⟨hop, hhop.congr hk, h⟩
  decay h hdec := by
    intro hsec r hr
    have hup := cloneDecremented_upToTtl hdec
    obtain ⟨r', hr', hsame⟩ := exists_of_forall₂ hup.records hr
    obtain ⟨hop, hhop, ⟨r'', hr'', hsame'⟩, h⟩ := h (hup.verdict.symm.trans hsec) r' hr'
    rw [← hsame.2.1] at hr'' h
    exact ⟨hop, hhop, ⟨r'', hr'', hsame.trans hsame'⟩, h⟩

/-- After any run from empty caches, every record of a Secure answer belongs to the
    RRset of a hop of its chase, and that RRset was validated under the trusted keys of
    its zone, unless the record is a CNAME and the reply of the hop has the queried type
    at the target too. -/
theorem secureAnswer_validated (ops : List Op) (w : σ) {qname : Name} {qtype : U16} {now : U32}
    {v : Validated} {s : Resolver σ}
    (h : resolveValidated env qname qtype now (run env ops { chain := { world := w } }) =
      (some v, s)) (hsec : v.verdict = .secure) :
    ∀ r ∈ v.records, ∃ hop, HopOf s.log (qname, qtype) hop ∧
      (∃ r' ∈ rrset hop.msg.answers hop.target r.rtype, SameButTtl r r') ∧
      (hop.RrsetSecure env r.rtype ∨ (r.rtype = CNAME ∧ hop.Mixed)) :=
  served_justified fromHop_justifies ops w h hsec

/-! ## An unsigned CNAME in a Secure answer -/

/-- The address RRset of a name, as the root signs it. -/
def addressRrset (n : Name) : SignedRrset := rootRrset n Rtype.A (.a ![192, 0, 2, 1]) (by decide)

theorem address_parsed : (Rdata.a ![192, 0, 2, 1]).parsedAs Rtype.A = true := rfl

/-- An address record. -/
def address (n : Name) : Record := ⟨n, Rtype.A, IN, 300, .a ![192, 0, 2, 1], address_parsed⟩

/-- A CNAME from `a.` to `b.` that nobody signed. -/
def forgedCname : Record := ⟨nameA, CNAME, IN, 300, .cname nameB, by decide⟩

/-- The signed address of `a.`, and the forged CNAME beside it. -/
def mixedReply : Message where
  answers :=
    [address nameA,
      Record.ofData nameA RRSIG 300 ((addressRrset nameA).rrsigRdata [0]) (by decide +kernel),
      forgedCname]

/-- The signed address of `b.` -/
def replyB : Message where
  answers :=
    [address nameB,
      Record.ofData nameB RRSIG 300 ((addressRrset nameB).rrsigRdata [0]) (by decide +kernel)]

/-- A world where the root has signed its keys and the addresses of `a.` and `b.` -/
def mixedEnv : Env Unit where
  toEnv := tableEnv
    (idealCrypto [rootDigest]
      [(rootModulus, rootDnskeyRrset.tbs),
        (rootModulus, (addressRrset nameA).tbs),
        (rootModulus, (addressRrset nameB).tbs)])
    1500
    [((Name.root, DNSKEY), rootDnskeyReply), ((nameA, Rtype.A), mixedReply),
      ((nameB, Rtype.A), replyB)]
  instant _ := (0, ())

/-- The answer for `a.` is Secure and starts with the forged CNAME, which no signature of
    the reply covers. -/
theorem unsignedCname_served :
    (trustedKeysFor mixedEnv.toEnv Name.root 1500 { world := () }).1 = (.secure, [rootKey]) ∧
    validateRrsetWc mixedEnv.crypto nameA IN CNAME
      ((rrset mixedReply.answers nameA CNAME).map Record.rdata)
      (split mixedReply.answers CNAME).2 [rootKey] 1500 = none ∧
    ∃ v, (resolveValidated mixedEnv nameA Rtype.A 1500 { chain := { world := () } }).1 = some v ∧
      v.verdict = .secure ∧ v.records = [forgedCname, address nameB] := by
  decide +kernel

/-- The general theorem on the second hop's query alone. -/
theorem secureAnswer_validated_nameB :
    ∃ v s, resolveValidated mixedEnv nameB Rtype.A 1500
        (run mixedEnv [.query nameA Rtype.A 1500] { chain := { world := () } }) = (some v, s) ∧
      v.records = [address nameB] ∧
      ∀ r ∈ v.records, ∃ hop, HopOf s.log (nameB, Rtype.A) hop ∧
        (∃ r' ∈ rrset hop.msg.answers hop.target r.rtype, SameButTtl r r') ∧
        (hop.RrsetSecure mixedEnv r.rtype ∨ (r.rtype = CNAME ∧ hop.Mixed)) := by
  have hval : (resolveValidated mixedEnv nameB Rtype.A 1500
      (run mixedEnv [.query nameA Rtype.A 1500] { chain := { world := () } })).1 =
      some ⟨[address nameB], [replyB.answers[1]], [], 0, .secure⟩ := by
    decide +kernel
  have hres : resolveValidated mixedEnv nameB Rtype.A 1500
      (run mixedEnv [.query nameA Rtype.A 1500] { chain := { world := () } }) = (some _, _) :=
    Prod.ext hval rfl
  exact ⟨_, _, hres, rfl, secureAnswer_validated [.query nameA Rtype.A 1500] () hres rfl⟩

end Runbound.Recursor
