import Runbound.Dnssec.Verify

/-!
# What a verified signature says

`SignedRrset` is an RRset as its zone signs it. The two directions of the signed
stream:

* `signedData_inj`: if the stream the verifier hashes is the stream of a signed
  RRset, then both have the same type, the same owner and the same data.
* `verifyRrsig_rrsigRdata`: the verifier accepts the RRSIG the signer made.
-/

namespace Runbound.Dnssec

open Wire Lib List Class Name

/-! ## RRSIG RDATA -/

/-- The fixed part of RRSIG RDATA. -/
def rrsigHead (typeCovered : U16) (algorithm labels : Byte) (originalTtl expiration inception : U32)
    (keyTag : U16) : Bytes :=
  u16Be typeCovered ++ ([algorithm, labels] ++ (u32Be originalTtl ++ (u32Be expiration ++
    (u32Be inception ++ u16Be keyTag))))

/-- The fixed part as it was received. -/
def Rrsig.head (sig : Rrsig) : Bytes :=
  rrsigHead sig.typeCovered sig.algorithm sig.labels sig.originalTtl sig.expiration sig.inception
    sig.keyTag

/-- The fixed part as it is signed. -/
def RrsigParams.head (p : RrsigParams) (labels : Byte) : Bytes :=
  rrsigHead p.typeCovered p.algorithm labels p.originalTtl p.expiration p.inception p.keyTag

theorem rrsigPrefix_eq (p : RrsigParams) (labels : Byte) :
    rrsigPrefix p labels = p.head labels ++ p.signerName.lowered.wire := by
  simp [rrsigPrefix, RrsigParams.head, rrsigHead, canonicalNameWire, wire_lowered]

variable {labels : Byte} {key rrsig : Bytes} {rdatas : List Rdata} {a b owner : Name} {sig : Rrsig}
  {rclass t : U16}

theorem rrsigHead_inj {t' : U16} {a a' l l' : Byte} {o o' e e' i i' : U32} {k k' : U16}
    (h : rrsigHead t a l o e i k = rrsigHead t' a' l' o' e' i' k') :
    t = t' ∧ a = a' ∧ l = l' ∧ o = o' ∧ e = e' ∧ i = i' ∧ k = k' := by
  obtain ⟨h1, h⟩ := append_inj h rfl
  obtain ⟨h2, h⟩ := append_inj h rfl
  obtain ⟨h3, h⟩ := append_inj h rfl
  obtain ⟨h4, h⟩ := append_inj h rfl
  obtain ⟨h5, h6⟩ := append_inj h rfl
  simp only [List.cons.injEq, and_true] at h2
  exact ⟨u16Be_injective h1, h2.1, h2.2, u32Be_injective h3, u32Be_injective h4,
    u32Be_injective h5, u16Be_injective h6⟩

/-- Received RRSIG RDATA: the fixed part, the octets of the signer name, the rest. -/
theorem parseRrsig_cases {rdata : Bytes} (h : parseRrsig rdata = some sig) :
    ∃ rest e, rdata = sig.head ++ rest ∧ Name.parse rest 0 = .ok (sig.signer, e) ∧
      sig.signer.wire.length ≤ rest.length ∧
      sig.pre = sig.head ++ rest.take sig.signer.wire.length ∧
      sig.signature = rest.drop sig.signer.wire.length := by
  unfold parseRrsig at h
  split at h
  · rename_i t0 t1 alg labels o0 o1 o2 o3 e0 e1 e2 e3 i0 i1 i2 i3 k0 k1 rest
    cases hp : Name.parse rest 0 with
    | error e => simp [hp] at h
    | ok r =>
      obtain ⟨signer, e⟩ := r
      simp only [hp] at h
      split_ifs at h with hlen
      cases h
      refine ⟨rest, e, ?_, hp, ?_, ?_, ?_⟩
      · simp [Rrsig.head, rrsigHead, u16Be_u16OfBe, u32Be_u32OfBe]
      · show signer.wire.length ≤ rest.length
        simp only [length_cons, Name.len] at hlen; omega
      · simp [Rrsig.head, rrsigHead, u16Be_u16OfBe, u32Be_u32OfBe, Name.len, Nat.add_comm 18]
      · simp [Name.len, Nat.add_comm 18]
  · cases h

theorem parseRrsig_rrsigPrefix (p : RrsigParams) (labels : Byte) (signature : Bytes) :
    parseRrsig (rrsigPrefix p labels ++ signature) = some {
      typeCovered := p.typeCovered, algorithm := p.algorithm, labels := labels,
      originalTtl := p.originalTtl, expiration := p.expiration, inception := p.inception,
      keyTag := p.keyTag, signer := p.signerName.lowered, pre := rrsigPrefix p labels,
      signature := signature } := by
  have hparse := parse_wire [] signature p.signerName.lowered
  rw [nil_append, length_nil] at hparse
  rw [rrsigPrefix_eq, RrsigParams.head, rrsigHead]
  simp only [u16Be, u32Be, cons_append, nil_append, parseRrsig, hparse, Name.len]
  split_ifs with hlen
  · simp only [length_cons, length_append] at hlen; omega
  · simp [u16OfBe_u16Be, u32OfBe_u32Be, Nat.add_comm 18]
    omega

/-! ## The records of the stream -/

theorem mem_dedup {x : Bytes} : ∀ {l : List Bytes}, x ∈ dedup l ↔ x ∈ l := by
  intro l
  induction l using dedup.induct with
  | case1 => simp [dedup]
  | case2 a => simp [dedup]
  | case3 a l ih => rw [dedup, if_pos rfl, ih]; simp
  | case4 a b l hne ih => rw [dedup, if_neg hne, mem_cons, ih, ← mem_cons]

/-- Collapsing a sorted list leaves a strictly sorted one. -/
theorem dedup_pairwise : ∀ {l : List Bytes}, l.Pairwise (· ≤ ·) → (dedup l).Pairwise (· < ·) := by
  intro l
  induction l using dedup.induct with
  | case1 => intro _; exact List.Pairwise.nil
  | case2 a => intro _; exact pairwise_singleton _ _
  | case3 a l ih => intro h; rw [dedup, if_pos rfl]; exact ih (pairwise_cons.mp h).2
  | case4 a b l hne ih =>
    intro h
    obtain ⟨ha, htail⟩ := pairwise_cons.mp h
    rw [dedup, if_neg hne]
    refine pairwise_cons.mpr ⟨fun x hx => lt_of_le_of_ne (ha x (mem_dedup.mp hx)) ?_, ih htail⟩
    rintro rfl
    -- `a` again after `b` would leave no room for `b`
    refine hne (le_antisymm (ha b (by simp)) ?_)
    rcases mem_cons.mp (mem_dedup.mp hx) with h | h
    · exact h.ge
    · exact (pairwise_cons.mp htail).1 _ h

/-- The canonical RDATA of a set of records, in the order the stream has them. -/
def canonicalRdatas (rdatas : List Rdata) : List Bytes :=
  (rdatas.map Rdata.emitCanonical).insertionSort (· ≤ ·)

theorem mem_canonicalRdatas {x : Bytes} :
    x ∈ canonicalRdatas rdatas ↔ ∃ rd ∈ rdatas, rd.emitCanonical = x := by
  rw [canonicalRdatas, mem_insertionSort, mem_map]

/-- The stream holds a set: neither order nor repetition of the records matters. -/
theorem dedup_canonicalRdatas {rdatas' : List Rdata}
    (hset : ∀ x, x ∈ rdatas.map Rdata.emitCanonical ↔ x ∈ rdatas'.map Rdata.emitCanonical)
    (hnodup : (rdatas'.map Rdata.emitCanonical).Nodup) :
    dedup (canonicalRdatas rdatas) = canonicalRdatas rdatas' := by
  have hsorted := dedup_pairwise (pairwise_insertionSort (· ≤ ·) (rdatas.map Rdata.emitCanonical))
  have hperm : (dedup (canonicalRdatas rdatas)).Perm (canonicalRdatas rdatas') := by
    refine (perm_ext_iff_of_nodup (hsorted.imp ne_of_lt)
      ((perm_insertionSort _ _).nodup_iff.mpr hnodup)).mpr fun x => ?_
    rw [mem_dedup]
    exact (mem_insertionSort _).trans ((hset x).trans (mem_insertionSort _).symm)
  exact hperm.eq_of_pairwise' (hsorted.imp le_of_lt) (pairwise_insertionSort _ _)

theorem u16Be_ofNat_selfDelimiting :
    SelfDelimiting (· < 65536) (fun n : ℕ => u16Be (Fin.ofNat 65536 n)) := by
  refine selfDelimiting_of_length (w := 2) (fun _ _ => rfl) fun a b ha hb h => ?_
  have := congrArg Fin.val (u16Be_injective h)
  simp only [Fin.val_ofNat] at this
  omega

/-- With the length of the data within RDLENGTH, a record of the stream ends where
    its length says. -/
theorem signedRecord_selfDelimiting (owner : Name) (t c : U16) (ttl : U32) :
    SelfDelimiting (fun rd : Bytes => rd.length < 65536) (signedRecord owner t c ttl) := by
  intro a b x y ha hb h
  simp only [signedRecord] at h
  exact u16Be_ofNat_selfDelimiting.lengthPrefixed a b x y ha hb (by simpa using h)

theorem signedRecord_ne_nil (owner : Name) (t c : U16) (ttl : U32) (rd : Bytes) :
    signedRecord owner t c ttl rd ≠ [] := by
  intro h
  have := congrArg List.length h
  simp [signedRecord] at this

/-- Two record streams that start a record each name the same owner. -/
theorem owner_of_stream_eq {owner' : Name} {t' c c' : U16} {ttl ttl' : U32}
    {xs ys : List Bytes} (hne : xs ≠ [])
    (h : xs.flatMap (signedRecord owner t c ttl) = ys.flatMap (signedRecord owner' t' c' ttl')) :
    owner.key = owner'.key := by
  obtain ⟨x, xs, rfl⟩ := exists_cons_of_ne_nil hne
  cases ys with
  | nil =>
    exact absurd (append_eq_nil_iff.mp h).1 (signedRecord_ne_nil _ _ _ _ _)
  | cons y ys =>
    simp only [flatMap_cons, signedRecord, append_assoc] at h
    exact (lower_wire_append_inj h).1

theorem rdatas_of_stream_eq {owner' : Name} {c : U16} {ttl : U32} {xs ys : List Bytes}
    (hne : xs ≠ []) (hx : ∀ x ∈ xs, x.length < 65536) (hy : ∀ y ∈ ys, y.length < 65536)
    (h : xs.flatMap (signedRecord owner t c ttl) = ys.flatMap (signedRecord owner' t c ttl)) :
    xs = ys := by
  have hfun : signedRecord owner t c ttl = signedRecord owner' t c ttl := by
    funext rd
    rw [signedRecord, signedRecord, canonicalNameWire_congr (owner_of_stream_eq hne h)]
  rw [hfun] at h
  exact (signedRecord_selfDelimiting owner' t c ttl).flatMap_injective
    (fun rd _ => signedRecord_ne_nil _ _ _ _ rd) xs ys hx hy h

/-! ## The owner an RRSIG is for -/

/-- A labels field below the label count names the wildcard that many labels deep. -/
theorem rrsigOwnerName_of_lt (h : labels.val < owner.labelCount) :
    rrsigOwnerName owner labels = some ⟨[42] :: owner.labels.drop (owner.labelCount - labels.val),
      owner.labelsOk_star_drop (by omega) (by omega)⟩ := by
  have hparse := parse_wire [] []
    ⟨[42] :: owner.labels.drop (owner.labelCount - labels.val),
      owner.labelsOk_star_drop (by omega) (by omega)⟩
  rw [nil_append, append_nil, length_nil, Name.wire, flatMap_cons] at hparse
  rw [rrsigOwnerName]
  simp only
  rw [if_neg (by omega), if_neg (by omega), ← append_assoc]
  rw [show ([1, 42] : Bytes) = Name.labelWire [42] from rfl, hparse]

theorem rrsigOwnerName_of_eq (h : labels.val = owner.labelCount) :
    rrsigOwnerName owner labels = some owner := by
  rw [rrsigOwnerName]
  rw [if_neg (by omega), if_pos h]

theorem rrsigOwnerName_of_gt (h : owner.labelCount < labels.val) :
    rrsigOwnerName owner labels = none := by
  rw [rrsigOwnerName]
  rw [if_pos h]

/-- The labels of a name, lowercased, with `k` of them dropped. -/
theorem key_star_drop {k : ℕ} (h : LabelsOk ([42] :: owner.labels.drop k)) :
    (⟨[42] :: owner.labels.drop k, h⟩ : Name).key =
      owner.key.take (owner.labelCount - k) ++ [[42]] := by
  rw [key_mk_cons, show lower [42] = ([42] : Bytes) from rfl]
  simp only [Name.key, Name.labelsLower, map_drop, reverse_drop, length_map, Name.labelCount]

/-- Only the case of the letters of the owner can differ. -/
theorem rrsigOwnerName_congr (h : a.key = b.key) (labels : Byte) :
    (rrsigOwnerName a labels).map Name.key = (rrsigOwnerName b labels).map Name.key := by
  have hcount : a.labelCount = b.labelCount := by
    rw [← key_length, ← key_length, h]
  rcases lt_trichotomy labels.val a.labelCount with hlt | heq | hgt
  · rw [rrsigOwnerName_of_lt hlt, rrsigOwnerName_of_lt (hcount ▸ hlt), Option.map_some,
      Option.map_some, key_star_drop, key_star_drop, h, hcount]
  · rw [rrsigOwnerName_of_eq heq, rrsigOwnerName_of_eq (hcount ▸ heq), Option.map_some,
      Option.map_some, h]
  · rw [rrsigOwnerName_of_gt hgt, rrsigOwnerName_of_gt (hcount ▸ hgt)]

theorem labelCount_lt_256 (owner : Name) : owner.labelCount < 256 := by
  have hle := owner.length_labels_le
  unfold maxPointers at hle
  unfold Name.labelCount
  omega

theorem rrsigOwnerName_rrsigLabels (owner : Name) :
    rrsigOwnerName owner (rrsigLabels owner) = some owner := by
  have hlt := labelCount_lt_256 owner
  unfold Name.labelCount at hlt
  by_cases hstar : ∃ ls, owner.labels = [42] :: ls
  · obtain ⟨ls, hls⟩ := hstar
    have hval : (rrsigLabels owner).val = ls.length := by
      rw [hls, length_cons] at hlt
      rw [rrsigLabels, hls]; simp only [Fin.val_ofNat]; omega
    have hcount : owner.labelCount = ls.length + 1 := by rw [Name.labelCount, hls]; rfl
    rw [rrsigOwnerName_of_lt (by omega)]
    refine congrArg some (ext_labels ?_)
    simp only [hval, hcount, hls, Nat.add_sub_cancel_left, drop_succ_cons, drop_zero]
  · refine rrsigOwnerName_of_eq ?_
    have hnot : rrsigLabels owner = Fin.ofNat 256 owner.labels.length := by
      unfold rrsigLabels
      split
      · rename_i ls hls; exact absurd ⟨ls, hls⟩ hstar
      · rfl
    rw [hnot, Fin.val_ofNat, Name.labelCount]; omega

/-! ## Signed RRsets -/

/-- An RRset as its zone signs it. -/
structure SignedRrset where
  owner : Name
  params : RrsigParams
  rdatas : List Rdata
  nonempty : rdatas ≠ []
  short : ∀ rd ∈ rdatas, rd.emitCanonical.length < 65536
  nodup : (rdatas.map Rdata.emitCanonical).Nodup
  in_zone : owner.isInZone params.signerName = true

namespace SignedRrset

/-- What the zone signs (`rrsig_tbs`). -/
def tbs (R : SignedRrset) : Bytes := rrsigTbs R.params R.owner IN R.rdatas

/-- The type of the RRset. -/
def rtype (R : SignedRrset) : U16 := R.params.typeCovered

/-- `sign_rrset` (dnssec_sign.rs:248) with the signature it got. -/
def rrsigRdata (R : SignedRrset) (signature : Bytes) : Bytes :=
  rrsigPrefix R.params (rrsigLabels R.owner) ++ signature

end SignedRrset

theorem signedData_rrsigPrefix (R : SignedRrset) (sig : Rrsig)
    (hpre : sig.pre = rrsigPrefix R.params (rrsigLabels R.owner))
    (htype : sig.typeCovered = R.params.typeCovered)
    (httl : sig.originalTtl = R.params.originalTtl) (hkey : owner.key = R.owner.key)
    (hset : ∀ x, x ∈ rdatas.map Rdata.emitCanonical ↔ x ∈ R.rdatas.map Rdata.emitCanonical) :
    signedData sig owner IN rdatas = R.tbs := by
  have hfun : signedRecord owner sig.typeCovered IN sig.originalTtl =
      signedRecord R.owner R.params.typeCovered IN R.params.originalTtl := by
    funext rd
    rw [signedRecord, signedRecord, canonicalNameWire_congr hkey, htype, httl]
  rw [signedData, hpre, hfun]
  show _ ++ (dedup (canonicalRdatas rdatas)).flatMap _ = _
  rw [dedup_canonicalRdatas hset R.nodup]
  rfl

/-- If the verifier hashes the stream of a signed RRset, the type, the labels field,
    the signer, the owner and the data are those of that RRset. -/
theorem signedData_inj {rdata : Bytes} {R : SignedRrset}
    (hsig : parseRrsig rdata = some sig)
    (h : signedData sig owner IN rdatas = R.tbs) :
    sig.typeCovered = R.rtype ∧ sig.labels = rrsigLabels R.owner ∧
      sig.signer.key = R.params.signerName.key ∧ sig.keyTag = R.params.keyTag ∧
      (rdatas ≠ [] → owner.key = R.owner.key ∧
        ((∀ rd ∈ rdatas, rd.emitCanonical.length < 65536) →
          ∀ rd ∈ rdatas, ∃ rd' ∈ R.rdatas, rd'.emitCanonical = rd.emitCanonical)) := by
  obtain ⟨rest, e, -, hparse, hlen, hpre, -⟩ := parseRrsig_cases hsig
  rw [signedData, hpre, SignedRrset.tbs, rrsigTbs, rrsigPrefix_eq, append_assoc, append_assoc] at h
  obtain ⟨hhead, htail⟩ := append_inj h rfl
  obtain ⟨h1, -, h3, h4, -, -, h7⟩ := rrsigHead_inj hhead
  -- the octets read as the signer name are those of the signed name
  have hsigner : sig.signer = R.params.signerName.lowered := by
    refine parse_take_wire (y := (canonicalRdatas R.rdatas).flatMap
      (signedRecord R.owner R.params.typeCovered IN R.params.originalTtl)) hparse ?_
    have htake := congrArg (List.take sig.signer.wire.length) htail
    rw [take_append_of_le_length (by rw [length_take]; omega), take_take, min_self] at htake
    exact htake
  have hname : rest.take sig.signer.wire.length = R.params.signerName.lowered.wire ∧ _ :=
    append_inj htail (by rw [length_take, ← hsigner]; omega)
  refine ⟨h1, h3, by rw [hsigner, key_lowered], h7, fun hne => ?_⟩
  have hstream := hname.2
  rw [h1, h4] at hstream
  have hne' : dedup (canonicalRdatas rdatas) ≠ [] := by
    obtain ⟨rd, rds, rfl⟩ := exists_cons_of_ne_nil hne
    exact ne_nil_of_mem (mem_dedup.mpr (mem_canonicalRdatas.mpr ⟨rd, mem_cons_self, rfl⟩))
  refine ⟨owner_of_stream_eq hne' hstream, fun hshort rd hrd => ?_⟩
  have heq : dedup (canonicalRdatas rdatas) = canonicalRdatas R.rdatas := by
    refine rdatas_of_stream_eq hne' (fun x hx => ?_) (fun y hy => ?_) hstream
    · obtain ⟨rd, hrd, rfl⟩ := mem_canonicalRdatas.mp (mem_dedup.mp hx)
      exact hshort rd hrd
    · obtain ⟨rd, hrd, rfl⟩ := mem_canonicalRdatas.mp hy
      exact R.short rd hrd
  have hmem : rd.emitCanonical ∈ dedup (canonicalRdatas rdatas) :=
    mem_dedup.mpr (mem_canonicalRdatas.mpr ⟨rd, hrd, rfl⟩)
  rw [heq] at hmem
  exact mem_canonicalRdatas.mp hmem

/-! ## Verification -/

section Verification

variable {crypto : Crypto} {owner : Name} {t : U16} {rdatas : List Rdata} {keys : List Bytes}
  {now : U32}

/-- Everything `verify_rrsig` checks. -/
theorem verifyRrsig_iff :
    verifyRrsig crypto owner rclass t rdatas rrsig key now = true ↔
      ∃ sig tbsOwner, parseRrsig rrsig = some sig ∧ sig.typeCovered = t ∧
        withinValidity sig.inception sig.expiration now = true ∧
        owner.isInZone sig.signer = true ∧ key[3]? = some sig.algorithm ∧
        rrsigOwnerName owner sig.labels = some tbsOwner ∧
        verifySignature crypto sig.algorithm (key.drop 4) (signedData sig tbsOwner rclass rdatas)
          sig.signature = true := by
  unfold verifyRrsig
  cases hp : parseRrsig rrsig with
  | none => simp
  | some sig =>
    simp only [Option.some.injEq, exists_and_left, exists_eq_left']
    split_ifs with h1 h2 h3 h4
    · simp [h1]
    · simp_all
    · simp_all
    · simp [h4]
    · cases ho : rrsigOwnerName owner sig.labels with
      | none => simp
      | some o => simp_all

theorem signedData_congr (sig : Rrsig) (h : a.key = b.key) (rclass : U16)
    (rdatas : List Rdata) : signedData sig a rclass rdatas = signedData sig b rclass rdatas := by
  have hfun : signedRecord a sig.typeCovered rclass sig.originalTtl =
      signedRecord b sig.typeCovered rclass sig.originalTtl := by
    funext rd
    rw [signedRecord, signedRecord, canonicalNameWire_congr h]
  rw [signedData, signedData, hfun]

theorem verifyRrsig_congr (h : a.key = b.key)
    (hver : verifyRrsig crypto a rclass t rdatas rrsig key now = true) :
    verifyRrsig crypto b rclass t rdatas rrsig key now = true := by
  obtain ⟨sig, o, hp, ht, hw, hz, hk, ho, hs⟩ := verifyRrsig_iff.mp hver
  have hmap := rrsigOwnerName_congr h sig.labels
  rw [ho] at hmap
  obtain ⟨o', ho', hkey⟩ := Option.map_eq_some_iff.mp hmap.symm
  refine verifyRrsig_iff.mpr ⟨sig, o', hp, ht, hw, ?_, hk, ho', ?_⟩
  · rw [isInZone_iff] at hz ⊢
    rwa [← h]
  · rwa [signedData_congr sig hkey]

theorem validateRrset_iff {rrsigs : List Bytes} :
    validateRrset crypto owner rclass t rdatas rrsigs keys now = true ↔
      ∃ rrsig ∈ rrsigs, ∃ key ∈ keys,
        verifyRrsig crypto owner rclass t rdatas rrsig key now = true := by
  simp [validateRrset, validateRrsetWc]

theorem validateRrset_congr (h : a.key = b.key) {rrsigs : List Bytes}
    (hval : validateRrset crypto a rclass t rdatas rrsigs keys now = true) :
    validateRrset crypto b rclass t rdatas rrsigs keys now = true := by
  obtain ⟨rrsig, hr, key, hk, hver⟩ := validateRrset_iff.mp hval
  exact validateRrset_iff.mpr ⟨rrsig, hr, key, hk, verifyRrsig_congr h hver⟩

theorem rrsigLabelsField_of_parse (h : parseRrsig rrsig = some sig) :
    rrsigLabelsField rrsig = some sig.labels := by
  obtain ⟨rest, e, hr, -⟩ := parseRrsig_cases h
  rw [hr]
  rfl

/-- An oracle for the keys of a zone: what verifies was signed. -/
def OnlySigns (crypto : Crypto) (keys : List Bytes) (signed : SignedRrset → Prop) : Prop :=
  ∀ key ∈ keys, ∀ alg msg signature,
    verifySignature crypto alg (key.drop 4) msg signature = true → ∃ R, signed R ∧ msg = R.tbs

theorem signed_of_verifyRrsig {signed : SignedRrset → Prop} (hor : OnlySigns crypto keys signed)
    (hkey : key ∈ keys)
    (h : verifyRrsig crypto owner IN t rdatas rrsig key now = true) (hne : rdatas ≠ []) :
    ∃ R sig tbsOwner, signed R ∧ parseRrsig rrsig = some sig ∧
      rrsigOwnerName owner sig.labels = some tbsOwner ∧ R.rtype = t ∧
      sig.labels = rrsigLabels R.owner ∧ tbsOwner.key = R.owner.key ∧
      sig.signer.key = R.params.signerName.key ∧
      ((∀ rd ∈ rdatas, rd.emitCanonical.length < 65536) →
        ∀ rd ∈ rdatas, ∃ rd' ∈ R.rdatas, rd'.emitCanonical = rd.emitCanonical) := by
  obtain ⟨sig, o, hp, ht, -, -, -, ho, hver⟩ := verifyRrsig_iff.mp h
  obtain ⟨R, hR, htbs⟩ := hor key hkey _ _ _ hver
  obtain ⟨h1, h2, h3, -, h4⟩ := signedData_inj hp htbs
  obtain ⟨h5, h6⟩ := h4 hne
  exact ⟨R, sig, o, hR, hp, ho, by rw [← h1, ht], h2, h5, h3, h6⟩

/-- The verifier accepts a signature of the zone over any owner whose name in the
    stream is the owner that was signed. -/
theorem verifyRrsig_rrsigRdata (R : SignedRrset) {signature : Bytes} {tbsOwner : Name}
    (hwin : withinValidity R.params.inception R.params.expiration now = true)
    (hzone : owner.isInZone R.params.signerName = true)
    (halg : key[3]? = some R.params.algorithm)
    (howner : rrsigOwnerName owner (rrsigLabels R.owner) = some tbsOwner)
    (htbs : tbsOwner.key = R.owner.key)
    (hset : ∀ x, x ∈ rdatas.map Rdata.emitCanonical ↔ x ∈ R.rdatas.map Rdata.emitCanonical)
    (hver : verifySignature crypto R.params.algorithm (key.drop 4) R.tbs signature = true) :
    verifyRrsig crypto owner IN R.rtype rdatas (R.rrsigRdata signature) key now = true := by
  refine verifyRrsig_iff.mpr ⟨_, tbsOwner, parseRrsig_rrsigPrefix _ _ _, rfl, hwin, ?_, halg,
    howner, ?_⟩
  · rw [isInZone_iff] at hzone ⊢
    rwa [key_lowered]
  · rw [signedData_rrsigPrefix R _ rfl rfl rfl htbs hset]
    exact hver

end Verification

end Runbound.Dnssec
