import Runbound.Dnssec.DenialComplete

/-!
# Wildcard answers

`validate_full` accepts an answer that was expanded from a wildcard if some denial
shows that the queried name has no records of its own. Which wildcard it was, the
denial is not asked.

* `not_hasRecordFor_of_provesNoExactMatch`: that is all the denial shows.
* `expandedAnswer_sound_iff`: over all messages made of the records of a zone, the
  expansion is confined to where the wildcard applies exactly if the chain has a
  record for the queried name or the wildcard applies there.
* `expansion_past_existing_name`: the wildcard of the root answers below `a.`.
-/

namespace Runbound.Dnssec

open Wire Lib List Rtype Class Name

/-- The wildcard below `w` applies to `q`: nothing below `w` on the way to `q` exists,
    nor `q` itself, so that `w` is the closest encloser. -/
def Zone.Applies (z : Zone) (w q : List Bytes) : Prop :=
  ¬ z.Exists q ∧ ∀ p, w <+: p → p ≠ w → p <+: q → ¬ z.Exists p

section

variable {σ : Type}

/-- `validate_full` returned Secure for a positive answer, and the signature it took was
    made for the wildcard below `w`. -/
structure AcceptedExpansion (env : Env σ) (q : Name) (qtype : U16) (msg : Message) (now : U32)
    (s : State σ) (w : List Bytes) : Prop where
  secure : (validateFull env q qtype msg now s).1.1 = .secure
  expanded : ∃ zone keys t rrsig sig o, signingZone msg q = some zone ∧
    (trustedKeysFor env zone now s).1 = (.secure, keys) ∧ answerType msg q qtype = some t ∧
    ((split msg.answers t).2.find? fun rrsig => keys.any fun key =>
      verifyRrsig env.crypto q IN t ((rrset msg.answers q t).map Record.rdata) rrsig key
        now) = some rrsig ∧
    parseRrsig rrsig = some sig ∧ sig.labels.val < q.labelCount ∧
    rrsigOwnerName q sig.labels = some o ∧ o.key = star w

/-- The zone serves its chain and a wildcard RRset, signed under the trusted keys. -/
structure ServesWildcard (env : Env σ) (Z : SignedZone env.crypto) (keys : List Bytes) (now : U32)
    (s : State σ) (W : SignedRrset) (w : List Bytes) : Prop where
  trusted : (trustedKeysFor env W.params.signerName.lowered now s).1 = (.secure, keys)
  chain : ∀ p ∈ Z.published, ∃ R signature, Z.IsRrset R p ∧
    SignedBy env.crypto keys now R signature ∧ (R.rrsigRdata signature).length < 65536
  owner : W.owner.key = star w
  mem : star w ∈ Z.zone.owners
  below : Z.zone.apex.key <+: w
  signer : W.params.signerName.key = Z.zone.apex.key
  signed : ∃ signature, SignedBy env.crypto keys now W signature ∧
    (W.rrsigRdata signature).length < 65536
  parsed : ∀ rd ∈ W.rdatas, rd.parsedAs W.rtype = true
  rtype : W.rtype ≠ RRSIG

end

/-! ## What the denial shows -/

section

variable {crypto : Crypto} {msg : Message} {keys : List Bytes} {now : U32} {q zone : Name}

theorem provesNoExactMatch_iff :
    provesNoExactMatch crypto msg keys now q zone = true ↔
      (∃ n ∈ collectValidatedNsec crypto msg keys now, Covers n.owner.key n.next.key q.key) ∨
      ∃ ce nc, enclosure crypto (collectValidatedNsec3 crypto msg keys now) q zone = some (ce, nc) ∧
        Covered crypto (collectValidatedNsec3 crypto msg keys now) nc := by
  rw [provesNoExactMatch, Bool.or_eq_true, nsecProvesNonexistence_iff,
    nsec3ProvesNameNonexistent_iff]

/-- A denial of an exact match shows that the chain has no record for the name. -/
theorem not_hasRecordFor_of_provesNoExactMatch {Z : SignedZone crypto} (hg : Genuine Z msg)
    (hok : Z.HashOk q) (h : provesNoExactMatch crypto msg keys now q zone = true) :
    ¬ Z.HasRecordFor q.key := by
  rw [provesNoExactMatch_iff] at h
  cases Z with
  | nsec z =>
    rcases h with ⟨n, hn, hcov⟩ | ⟨ce, nc, -, n3, hn, -⟩
    · obtain ⟨a, ha, harc⟩ := hg.nsec hn
      rw [harc.owner, harc.next] at hcov
      intro ho
      obtain ⟨m, hm, hkey⟩ := Zone.mem_owners.mp ho
      exact not_mem_of_covers z.sorted ha hcov m hm hkey
    · rw [hg.nsec_only] at hn; cases hn
  | nsec3 z =>
    rcases h with ⟨n, hn, -⟩ | ⟨ce, nc, henc, hnc⟩
    · rw [hg.nsec3_only] at hn; cases hn
    · obtain ⟨-, hce, -⟩ := enclosure_some henc
      exact (Nsec3Zone.encloser_of_enclosure hg.nsec3 henc (hok.2 ce (Or.inl hce)) hnc).1

theorem provesNoExactMatch_of_served {Z : SignedZone crypto} (hg : Genuine Z msg) (hok : Z.HashOk q)
    (hserved : ∀ p ∈ Z.published, Served Z keys now msg p) (hzone : zone.key = Z.zone.apex.key)
    (hq : Z.zone.apex.key <+: q.key) (h : ¬ Z.HasRecordFor q.key) :
    provesNoExactMatch crypto msg keys now q zone = true := by
  rw [provesNoExactMatch_iff]
  cases Z with
  | nsec z =>
    have hne : ∀ c ∈ z.nodes, c.name.key ≠ q.key := fun c hc e =>
      h (Zone.mem_owners.mpr ⟨c, hc, e⟩)
    obtain ⟨a, ha, hcov⟩ := exists_covers z.sorted Zone.nodes_ne_nil hne
    obtain ⟨n, hn, harc⟩ := exists_nsec_of_served hg ha (hserved _ (mem_map_of_mem ha))
    exact Or.inl ⟨n, hn, by rw [harc.owner, harc.next]; exact hcov⟩
  | nsec3 z =>
    obtain ⟨ce, nc, henc, -, -, hcov⟩ := enclosure_of_needed hzone hq hok h hg
      fun a ha _ => hserved _ (mem_map_of_mem ha)
    exact Or.inr ⟨ce, nc, henc, hcov⟩

end

/-! ## A message that serves the chain and the wildcard -/

section

variable {crypto : Crypto} {Z : SignedZone crypto} {keys : List Bytes} {now : U32}

theorem Served.mono {msg msg' : Message} {p : Name × Bytes} (h : Served Z keys now msg p)
    (hsub : msg.authority ⊆ msg'.authority) : Served Z keys now msg' p := by
  obtain ⟨⟨r, hr, hr'⟩, ⟨s, hs, hs'⟩⟩ := h
  exact ⟨⟨r, hsub hr, hr'⟩, ⟨s, hsub hs, hs'⟩⟩

theorem parsedAs_unknown {t : U16} {d : Bytes} (ht : t ∉ Rdata.structuredTypes)
    (hd : d.length < 65536) : (Rdata.unknown t d).parsedAs t = true := by
  simp [Rdata.parsedAs, ht, hd]

/-- A zone whose chain is signed can serve any part of it. -/
theorem exists_authority
    (hchain : ∀ p ∈ Z.published, ∃ R signature, Z.IsRrset R p ∧
      SignedBy crypto keys now R signature ∧ (R.rrsigRdata signature).length < 65536)
    (answers : List Record) :
    ∀ l ⊆ Z.published, ∃ authority, Genuine Z { answers, authority } ∧
      ∀ p ∈ l, Served Z keys now { answers, authority } p := by
  intro l
  induction l with
  | nil => intro _; exact ⟨[], fun r hr => absurd hr (by simp), by simp⟩
  | cons p l ih =>
    intro hl
    have hp : p ∈ Z.published := hl mem_cons_self
    obtain ⟨authority, hg, hs⟩ := ih fun x hx => hl (mem_cons_of_mem _ hx)
    obtain ⟨R, signature, hR, hsigned, hlen⟩ := hchain p hp
    have hdlen : p.2.length < 65536 := by
      have := R.short (.unknown Z.rtype p.2) (by rw [hR.rdatas]; simp)
      exact this
    have hnot : RRSIG ∉ Rdata.structuredTypes := by decide
    let r : Record := Record.ofData p.1 Z.rtype 0 p.2 (parsedAs_unknown Z.rtype_unstructured hdlen)
    let s : Record := Record.ofData p.1 RRSIG 0 (R.rrsigRdata signature)
      (parsedAs_unknown hnot hlen)
    refine ⟨r :: s :: authority, ?_, ?_⟩
    · intro x hx ht
      rcases mem_cons.mp hx with rfl | hx
      · exact ⟨rfl, p, hp, rfl, rfl⟩
      · rcases mem_cons.mp hx with rfl | hx
        · exact absurd ht (show ¬ (RRSIG = NSEC ∨ RRSIG = NSEC3) by decide)
        · exact hg x hx ht
    · intro x hx
      rcases mem_cons.mp hx with rfl | hx
      · exact ⟨⟨r, by simp, rfl, rfl⟩, ⟨s, by simp, rfl, rfl, R, signature, rfl, hR, hsigned⟩⟩
      · exact (hs x hx).mono fun y hy => by simp [hy]

theorem labels_of_key_eq_star {n : Name} {w : List Bytes} (h : n.key = star w) :
    ∃ ls, n.labels = [42] :: ls ∧ ls.length = w.length := by
  obtain ⟨ls, hok⟩ := n
  have hlen := congrArg List.length h
  rw [key_length, Name.labelCount, star] at hlen
  cases ls with
  | nil => simp at hlen
  | cons l ls =>
    rw [key_mk_cons] at h
    obtain ⟨-, hl⟩ := append_inj' h rfl
    have hlow : lower l = [42] := (List.cons.inj hl).1
    refine ⟨ls, ?_, by simpa using hlen⟩
    -- an asterisk has no other case
    have hbyte : ∀ b : Byte, toAsciiLowercase b = 42 → b = 42 := by decide +kernel
    obtain ⟨b, rfl⟩ : ∃ b, l = [b] := length_eq_one_iff.mp (by
      have := congrArg List.length hlow
      rwa [lower_length] at this)
    show [b] :: ls = [42] :: ls
    rw [hbyte b (List.cons.inj hlow).1]

/-- At a name strictly below `w`, the labels field of the wildcard's signature names the
    wildcard again. -/
theorem rrsigOwnerName_star {n q : Name} {w : List Bytes} (hn : n.key = star w) (hw : w <+: q.key)
    (hne : w ≠ q.key) :
    (rrsigLabels n).val < q.labelCount ∧
      ∃ o, rrsigOwnerName q (rrsigLabels n) = some o ∧ o.key = star w := by
  obtain ⟨ls, hls, hlen⟩ := labels_of_key_eq_star hn
  have hlt : w.length < q.labelCount := by
    rw [← key_length]
    exact lt_of_le_of_ne hw.length_le fun h => hne (hw.eq_of_length h)
  have hval : (rrsigLabels n).val = w.length := by
    have := labelCount_lt_256 q
    rw [rrsigLabels, hls]
    simp only [Fin.val_ofNat]
    omega
  have hlabels : (rrsigLabels n).val < q.labelCount := hval ▸ hlt
  refine ⟨hlabels, _, rrsigOwnerName_of_lt hlabels, ?_⟩
  rw [key_star_drop, hval, Nat.sub_sub_self hlt.le, ← prefix_iff_eq_take.mp hw, star]

/-- The wildcard RRset as an answer for `q`, with its signature. -/
theorem exists_answers {W : SignedRrset} {signature : Bytes}
    (hparsed : ∀ rd ∈ W.rdatas, rd.parsedAs W.rtype = true) (hrt : W.rtype ≠ RRSIG)
    (hlen : (W.rrsigRdata signature).length < 65536) (q : Name) :
    ∃ answers : List Record,
      (rrset answers q W.rtype).map Record.rdata = W.rdatas ∧
      (split answers W.rtype).2 = [W.rrsigRdata signature] ∧
      (answers.filter fun r => r.rtype = RRSIG && r.name.eqIgnoreAsciiCase q).filterMap
        (fun r => r.rdata.data?.bind rrsigSigner) = [W.params.signerName.lowered] := by
  let recs : List Record := W.rdatas.pmap (fun rd h => ⟨q, W.rtype, IN, 0, rd, h⟩) hparsed
  let s : Record := Record.ofData q RRSIG 0 (W.rrsigRdata signature)
    (parsedAs_unknown (by decide) hlen)
  have hrecs : ∀ r ∈ recs, r.rtype = W.rtype ∧ r.name = q := by
    intro r hr
    obtain ⟨rd, hrd, rfl⟩ := mem_pmap.mp hr
    exact ⟨rfl, rfl⟩
  have hsigner : rrsigSigner (W.rrsigRdata signature) = some W.params.signerName.lowered := by
    rw [rrsigSigner, SignedRrset.rrsigRdata, parseRrsig_rrsigPrefix, Option.map_some]
  have hrrset : rrset (recs ++ [s]) q W.rtype = recs := by
    have h1 : rrset recs q W.rtype = recs := filter_eq_self.mpr fun r hr => by
      obtain ⟨ht, hname⟩ := hrecs r hr
      simp [ht, hname]
    have h2 : rrset [s] q W.rtype = [] := by
      simp [rrset, s, Record.ofData, hrt.symm]
    rw [rrset, filter_append]
    exact (congrArg₂ _ h1 h2).trans (append_nil _)
  have hsigs : (recs ++ [s]).filter (fun r => r.rtype = RRSIG) = [s] := by
    rw [filter_append, filter_eq_nil_iff.mpr fun r hr => by simp [(hrecs r hr).1, hrt]]
    simp [s, Record.ofData]
  refine ⟨recs ++ [s], ?_, ?_, ?_⟩
  · rw [hrrset, map_pmap]
    simp
  · rw [split, rrsigsCovering, hsigs]
    simp [s, Record.ofData, Rdata.data?, coversType_rrsigRdata]
  · have hfilter : (recs ++ [s]).filter
        (fun r => r.rtype = RRSIG && r.name.eqIgnoreAsciiCase q) = [s] := by
      rw [filter_append, filter_eq_nil_iff.mpr fun r hr => by simp [(hrecs r hr).1, hrt]]
      simp [s, Record.ofData]
    rw [hfilter]
    simp [s, Record.ofData, Rdata.data?, hsigner]

end

/-! ## Soundness -/

section

variable {σ : Type} {env : Env σ} {Z : SignedZone env.crypto} {keys : List Bytes} {now : U32}
  {s : State σ} {W : SignedRrset} {w : List Bytes} {q : Name}

/-- The wildcard answer is accepted for every name below `w` that the chain has no record
    for. -/
theorem exists_acceptedExpansion (h : ServesWildcard env Z keys now s W w) (hw : w <+: q.key)
    (hne : w ≠ q.key) (hok : Z.HashOk q) (hmiss : ¬ Z.HasRecordFor q.key) :
    ∃ msg, Genuine Z msg ∧ AcceptedExpansion env q W.rtype msg now s w := by
  obtain ⟨signature, hsigned, hlen⟩ := h.signed
  obtain ⟨answers, hrdatas, hsplit, hsigner⟩ := exists_answers h.parsed h.rtype hlen q
  obtain ⟨authority, hg, hserved⟩ :=
    exists_authority h.chain answers Z.published (List.Subset.refl _)
  have hzone : q.isInZone W.params.signerName.lowered = true := by
    rw [isInZone_iff, key_lowered, h.signer]
    exact h.below.trans hw
  have hz : signingZone { answers, authority } q = some W.params.signerName.lowered := by
    rw [signingZone, answerZone, hsigner]
    simp [hzone]
  have htype : answerType { answers, authority } q W.rtype = some W.rtype := by
    obtain ⟨rd, hrd⟩ := exists_mem_of_ne_nil _ W.nonempty
    rw [← hrdatas] at hrd
    obtain ⟨r, hr, -⟩ := mem_map.mp hrd
    obtain ⟨hmem, hrt, hname⟩ := mem_rrset.mp hr
    exact if_pos (any_eq_true.mpr ⟨r, hmem, by simp [hrt, hname]⟩)
  obtain ⟨hlt, o, ho, hokey⟩ := rrsigOwnerName_star h.owner hw hne
  have hzoneW : q.isInZone W.params.signerName = true := by
    rwa [isInZone_iff, ← key_lowered, ← isInZone_iff]
  obtain ⟨key, hkey, hver⟩ := exists_verifyRrsig hsigned hzoneW ho (hokey.trans h.owner.symm)
    fun x => Iff.rfl
  have hfind : ((split answers W.rtype).2.find? fun rrsig => keys.any fun key =>
      verifyRrsig env.crypto q IN W.rtype ((rrset answers q W.rtype).map Record.rdata) rrsig
        key now) = some (W.rrsigRdata signature) := by
    rw [hsplit, hrdatas]
    exact find?_cons_of_pos (any_eq_true.mpr ⟨key, hkey, hver⟩)
  have hparse : parseRrsig (W.rrsigRdata signature) = some _ := parseRrsig_rrsigPrefix _ _ _
  have hmatch : provesNoExactMatch env.crypto { answers, authority } keys now q
      W.params.signerName.lowered = true :=
    provesNoExactMatch_of_served hg hok hserved (by rw [key_lowered, h.signer])
      (h.below.trans hw) hmiss
  refine ⟨{ answers, authority }, hg, ?_, W.params.signerName.lowered, keys, W.rtype,
    W.rrsigRdata signature, _, o, hz, h.trusted, htype, hfind, hparse, hlt, ho, hokey⟩
  have hwc : validateRrsetWc env.crypto q IN W.rtype
      ((rrset answers q W.rtype).map Record.rdata) (split answers W.rtype).2 keys now =
        some true := by
    rw [validateRrsetWc, hfind, Option.map_some, rrsigLabelsField_of_parse hparse]
    simp [hlt]
  rw [validateFull, hz]
  simp only [h.trusted, judge, htype, judgeAnswer, hwc, hmatch, if_true]

/-- An accepted expansion was accompanied by a denial of an exact match. -/
theorem AcceptedExpansion.provesNoExactMatch {qtype : U16} {msg : Message}
    (h : AcceptedExpansion env q qtype msg now s w) :
    ∃ zone keys, provesNoExactMatch env.crypto msg keys now q zone = true := by
  obtain ⟨hsec, zone, keys, t, rrsig, sig, o, hz, hk, ht, hfind, hparse, hlt, -⟩ := h
  obtain ⟨zone', keys', hz', hk', hj⟩ := validateFull_secure (Prod.ext hsec rfl)
  obtain rfl : zone = zone' := Option.some.inj (hz.symm.trans hz')
  obtain rfl : keys = keys' := (Prod.mk.inj (hk.symm.trans hk')).2
  rcases judge_secure hj with ⟨t', ht', hj, -⟩ | ⟨ht', -⟩
  · obtain rfl : t = t' := Option.some.inj (ht.symm.trans ht')
    have hwc : validateRrsetWc env.crypto q IN t
        ((rrset msg.answers q t).map Record.rdata) (split msg.answers t).2 keys now =
          some true := by
      rw [validateRrsetWc, hfind, Option.map_some, rrsigLabelsField_of_parse hparse]
      simp [hlt]
    rw [judgeAnswer, hwc] at hj
    refine ⟨zone, keys, ?_⟩
    by_contra hno
    simp [hno] at hj
  · rw [ht] at ht'; cases ht'

/-- Over every message made of the records of the zone: an accepted answer expanded from
    the wildcard below `w` means that the wildcard applies to the queried name, exactly
    if the chain has a record for the queried name or the wildcard applies to it. -/
theorem expandedAnswer_sound_iff (h : ServesWildcard env Z keys now s W w) (hw : w <+: q.key)
    (hne : w ≠ q.key) (hok : Z.HashOk q) :
    (∀ msg, Genuine Z msg → AcceptedExpansion env q W.rtype msg now s w → Z.zone.Applies w q.key) ↔
      Z.HasRecordFor q.key ∨ Z.zone.Applies w q.key := by
  constructor
  · intro hall
    by_cases hrec : Z.HasRecordFor q.key
    · exact Or.inl hrec
    · obtain ⟨msg, hg, hacc⟩ := exists_acceptedExpansion h hw hne hok hrec
      exact Or.inr (hall msg hg hacc)
  · intro hcase msg hg hacc
    obtain ⟨zone, keys', hproof⟩ := hacc.provesNoExactMatch
    exact hcase.resolve_left (not_hasRecordFor_of_provesNoExactMatch hg hok hproof)

end

/-! ## The wildcard of the root, below `a.` -/

/-- The root zone with a wildcard and `b.a.`, so that `a.` exists. -/
def betweenZone : Zone where
  apex := Name.root
  nodes := [⟨Name.root, [NS, SOA]⟩, ⟨nameStar, [Rtype.A]⟩, ⟨nameBA, [Rtype.A]⟩]
  sorted := by decide +kernel
  apex_mem := by decide +kernel
  in_zone := by decide +kernel

/-- The NSEC of the root. -/
def apexNsec : SignedRrset :=
  rootRrset Name.root NSEC (.unknown NSEC (nsecRdata nameStar [NS, SOA])) (by decide +kernel)

/-- The NSEC of the wildcard. -/
def wildcardNsec : SignedRrset :=
  rootRrset nameStar NSEC (.unknown NSEC (nsecRdata nameBA [Rtype.A])) (by decide +kernel)

/-- The NSEC of `b.a.`, the last name. -/
def lastNsec : SignedRrset :=
  rootRrset nameBA NSEC (.unknown NSEC (nsecRdata Name.root [Rtype.A])) (by decide +kernel)

/-- The address of the wildcard. -/
def wildcardA : SignedRrset := rootRrset nameStar Rtype.A (.a fun _ => 1) (by decide +kernel)

/-- A world where the root has signed its keys, its chain and the wildcard. -/
def betweenEnv : Env Unit :=
  tableEnv
    (idealCrypto [rootDigest]
      ([rootDnskeyRrset, apexNsec, wildcardNsec, lastNsec, wildcardA].map fun R =>
        (rootModulus, R.tbs)))
    1500 [((Name.root, DNSKEY), rootDnskeyReply)]

/-- The wildcard's address as an answer for `c.a.`, and the NSEC that covers `c.a.`. -/
def betweenReply : Message where
  answers :=
    [⟨nameCA, Rtype.A, IN, 300, .a fun _ => 1, by decide⟩,
      Record.ofData nameCA RRSIG 300 (wildcardA.rrsigRdata [0]) (by decide +kernel)]
  authority :=
    [Record.ofData nameBA NSEC 300 (nsecRdata Name.root [Rtype.A]) (by decide +kernel),
      Record.ofData nameBA RRSIG 300 (lastNsec.rrsigRdata [0]) (by decide +kernel)]

/-- All records of the answer are records of the zone, the answer for `c.a.` is accepted
    as an expansion of `*.`, and `a.` exists. -/
theorem expansion_past_existing_name :
    Genuine (.nsec betweenZone : SignedZone betweenEnv.crypto) betweenReply ∧
    AcceptedExpansion betweenEnv nameCA Rtype.A betweenReply 1500 { world := () } [] ∧
    betweenZone.Exists nameA.key ∧ nameA.key <+: nameCA.key := by
  refine ⟨by decide +kernel, ⟨by decide +kernel, Name.root, [rootKey], Rtype.A,
    wildcardA.rrsigRdata [0], _, nameStar, by decide +kernel, by decide +kernel, by decide +kernel,
    by decide +kernel, parseRrsig_rrsigPrefix _ _ _, by decide +kernel, by decide +kernel,
    by decide +kernel⟩, by decide +kernel, by decide +kernel⟩

theorem servesWildcard_between :
    ServesWildcard betweenEnv (.nsec betweenZone) [rootKey] 1500 { world := () } wildcardA [] where
  trusted := by decide +kernel
  chain := by
    intro p hp
    simp only [SignedZone.published, betweenZone, ring, arcsTo, map_cons, map_nil,
      mem_cons, not_mem_nil, or_false] at hp
    rcases hp with rfl | rfl | rfl
    · exact ⟨apexNsec, [0], ⟨rfl, rfl, rfl, rfl⟩, by decide +kernel, by decide +kernel⟩
    · exact ⟨wildcardNsec, [0], ⟨rfl, rfl, rfl, rfl⟩, by decide +kernel, by decide +kernel⟩
    · exact ⟨lastNsec, [0], ⟨rfl, rfl, rfl, rfl⟩, by decide +kernel, by decide +kernel⟩
  owner := by decide +kernel
  mem := by decide +kernel
  below := by decide +kernel
  signer := by decide +kernel
  signed := ⟨[0], by decide +kernel, by decide +kernel⟩
  parsed := by decide +kernel
  rtype := by decide +kernel

/-- The general theorem on that zone. -/
theorem expandedAnswer_sound_iff_between :
    (∀ msg, Genuine (.nsec betweenZone : SignedZone betweenEnv.crypto) msg →
        AcceptedExpansion betweenEnv nameCA Rtype.A msg 1500 { world := () } [] →
        betweenZone.Applies [] nameCA.key) ↔
      nameCA.key ∈ betweenZone.owners ∨ betweenZone.Applies [] nameCA.key :=
  expandedAnswer_sound_iff servesWildcard_between List.nil_prefix (by decide +kernel) trivial

end Runbound.Dnssec
