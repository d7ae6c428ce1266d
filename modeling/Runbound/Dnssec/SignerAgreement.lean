import Runbound.Dnssec.Ideal
import Runbound.Wire.RoundTrip

/-!
# The stream that is signed and the stream that is checked

`sign_rrset` sorts the canonical data of the records and signs all of them;
`signed_data` sorts them, drops repetitions and checks what is left. Between the
two stands the wire: the records and the RRSIG are encoded, sent and parsed.

* `signedStream_agrees_iff`: after the round trip the verifier checks the stream
  that was signed, and accepts an ideal signature inside its window, exactly if no
  two records of the RRset have the same canonical data. Order, letter case and a
  wildcard owner never matter.
* `duplicate_rejected`: an RRset with the same address twice, signed by the server,
  is refused.
-/

namespace Runbound.Dnssec

open Wire List Class Name

/-! ## The two streams -/

/-- The stream `verify_rrsig` hands to the signature check (dnssec_verify.rs:239, 258-261). -/
def checkedStream (owner : Name) (rclass : U16) (rdatas : List Rdata) (rrsigRdata : Bytes) :
    Option Bytes :=
  match parseRrsig rrsigRdata with
  | none => none
  | some sig => (rrsigOwnerName owner sig.labels).map fun o => signedData sig o rclass rdatas

/-- A stream that collapses to itself has no repetitions. -/
theorem dedup_eq_self_iff {l : List Bytes} (h : l.Pairwise (· ≤ ·)) : dedup l = l ↔ l.Nodup := by
  constructor
  · intro heq
    have hlt := dedup_pairwise h
    rw [heq] at hlt
    exact hlt.imp ne_of_lt
  · intro hnodup
    have hlt := dedup_pairwise h
    have hperm : (dedup l).Perm l :=
      (perm_ext_iff_of_nodup (hlt.imp ne_of_lt) hnodup).mpr fun x => mem_dedup
    exact hperm.eq_of_pairwise' (hlt.imp le_of_lt) h

theorem canonicalRdatas_perm {rdatas rdatas' : List Rdata} (h : rdatas'.Perm rdatas) :
    canonicalRdatas rdatas' = canonicalRdatas rdatas := by
  have hperm : (canonicalRdatas rdatas').Perm (canonicalRdatas rdatas) :=
    (perm_insertionSort _ _).trans ((h.map Rdata.emitCanonical).trans (perm_insertionSort _ _).symm)
  exact hperm.eq_of_pairwise' (pairwise_insertionSort _ _) (pairwise_insertionSort _ _)

section Streams

variable {p : RrsigParams} {owner owner' : Name} {rclass : U16} {rdatas rdatas' : List Rdata}

/-- The stream that is checked for the RRSIG of `sign_rrset`, whatever the letter
    case of the owner and the order of the records. -/
theorem checkedStream_rrsigPrefix (hkey : owner'.key = owner.key) (hperm : rdatas'.Perm rdatas)
    (signature : Bytes) :
    checkedStream owner' rclass rdatas' (rrsigPrefix p (rrsigLabels owner) ++ signature) =
      some (rrsigPrefix p (rrsigLabels owner) ++ (dedup (canonicalRdatas rdatas)).flatMap
        (signedRecord owner p.typeCovered rclass p.originalTtl)) := by
  rw [checkedStream, parseRrsig_rrsigPrefix]
  have hmap := rrsigOwnerName_congr hkey (rrsigLabels owner)
  rw [rrsigOwnerName_rrsigLabels] at hmap
  obtain ⟨o, ho, hokey⟩ := Option.map_eq_some_iff.mp hmap
  simp only [ho, Option.map_some, Option.some.injEq]
  rw [signedData_congr _ hokey]
  show _ ++ (dedup (canonicalRdatas rdatas')).flatMap _ = _
  rw [canonicalRdatas_perm hperm]

theorem checkedStream_eq_tbs_iff (hne : rdatas ≠ [])
    (hshort : ∀ rd ∈ rdatas, rd.emitCanonical.length < 65536) (hkey : owner'.key = owner.key)
    (hperm : rdatas'.Perm rdatas) (signature : Bytes) :
    checkedStream owner' rclass rdatas' (rrsigPrefix p (rrsigLabels owner) ++ signature) =
        some (rrsigTbs p owner rclass rdatas) ↔
      (rdatas.map Rdata.emitCanonical).Nodup := by
  have hsorted : (canonicalRdatas rdatas).Pairwise (· ≤ ·) := pairwise_insertionSort _ _
  have hmem : ∀ x ∈ canonicalRdatas rdatas, x.length < 65536 := by
    intro x hx
    obtain ⟨rd, hrd, rfl⟩ := mem_canonicalRdatas.mp hx
    exact hshort rd hrd
  have hnil : dedup (canonicalRdatas rdatas) ≠ [] := by
    obtain ⟨rd, hrd⟩ := exists_mem_of_ne_nil _ hne
    exact ne_nil_of_mem (mem_dedup.mpr (mem_canonicalRdatas.mpr ⟨rd, hrd, rfl⟩))
  have hnodup : (canonicalRdatas rdatas).Nodup ↔ (rdatas.map Rdata.emitCanonical).Nodup :=
    (perm_insertionSort _ _).nodup_iff
  rw [checkedStream_rrsigPrefix hkey hperm, Option.some.injEq, ← hnodup,
    ← dedup_eq_self_iff hsorted]
  constructor
  · intro h
    have hstream := append_cancel_left h
    exact rdatas_of_stream_eq hnil (fun x hx => hmem x (mem_dedup.mp hx)) hmem hstream
  · intro h
    rw [h]
    rfl

end Streams

/-- What `verify_rrsig` makes of the RRSIG of `sign_rrset`, in terms of the stream it
    checks. -/
theorem verifyRrsig_rrsigPrefix_iff {crypto : Crypto} {p : RrsigParams} {owner owner' : Name}
    {rclass : U16} {rdatas : List Rdata} {signature key : Bytes} {now : U32}
    (hwin : withinValidity p.inception p.expiration now = true)
    (hzone : owner'.isInZone p.signerName = true) (halg : key[3]? = some p.algorithm) :
    verifyRrsig crypto owner' rclass p.typeCovered rdatas
        (rrsigPrefix p (rrsigLabels owner) ++ signature) key now = true ↔
      ∃ stream, checkedStream owner' rclass rdatas
          (rrsigPrefix p (rrsigLabels owner) ++ signature) = some stream ∧
        verifySignature crypto p.algorithm (key.drop 4) stream signature = true := by
  have hzone' : owner'.isInZone p.signerName.lowered = true := by
    rw [isInZone_iff] at hzone ⊢
    rwa [key_lowered]
  rw [verifyRrsig_iff, checkedStream, parseRrsig_rrsigPrefix]
  constructor
  · simp
  · rintro ⟨stream, hstream, hver⟩
    obtain ⟨o, ho, rfl⟩ := Option.map_eq_some_iff.mp hstream
    exact ⟨_, o, rfl, rfl, hwin, hzone', halg, ho, hver⟩

/-! ## Over the wire -/

theorem length_emitCanonical (rd : Rdata) : rd.emitCanonical.length = rd.emit.length := by
  cases rd <;> simp [Rdata.emitCanonical, Rdata.emit, Rdata.emitWith]

/-- The answer section holds the records of an RRset, in some order, and then its
    RRSIG, as `serve_signed` sends them (server.rs:1316-1319). -/
structure CarriesRrset (m : Message) (owner : Name) (rtype rclass : U16) (rdatas : List Rdata)
    (rrsig : Bytes) : Prop where
  answers : ∃ rs s, m.answers = rs ++ [s] ∧ s.rdata = .unknown Rtype.RRSIG rrsig ∧
    (rs.map Record.rdata).Perm rdatas ∧
    ∀ r ∈ rs, r.name.key = owner.key ∧ r.rtype = rtype ∧ r.rclass = rclass
  wireOk : m.WireOk
  length : m.encode.length < 65536

/-- The records of the RRset, as they were received. -/
def rrsetOf (m : Message) : List Record := m.answers.dropLast

/-- The RRSIG data, as they were received. -/
def rrsigOf (m : Message) : Option Bytes := m.answers.getLast?.bind fun s => s.rdata.data?

theorem CarriesRrset.received {m m' : Message} {owner : Name} {rtype rclass : U16}
    {rdatas : List Rdata} {rrsig : Bytes} (h : CarriesRrset m owner rtype rclass rdatas rrsig)
    (hm : Message.parse m.encode = .ok m') :
    rrsigOf m' = some rrsig ∧ ((rrsetOf m').map Record.rdata).Perm rdatas ∧
      (∀ r ∈ rrsetOf m', r.name.key = owner.key) ∧
      ∀ rd ∈ rdatas, rd.emitCanonical.length < 65536 := by
  obtain ⟨rs, s, hans, hs, hperm, hrs⟩ := h.answers
  obtain ⟨m'', hm'', hsame, -⟩ := m.parse_encode h.wireOk h.length
  obtain rfl : m'' = m' := by
    have := hm''.symm.trans hm
    exact Except.ok.inj this
  -- the received section splits where the sent one does
  obtain ⟨rs', s', hans', hrs', hs'⟩ : ∃ rs' s', m''.answers = rs' ++ [s'] ∧
      List.Forall₂ Record.Same rs rs' ∧ Record.Same s s' := by
    have hall := hsame.answers.flip
    rw [hans] at hall
    have hdrop := forall₂_drop_append _ _ _ hall
    obtain ⟨s', l, hs', hl, heq⟩ := forall₂_cons_right_iff.mp hdrop
    rw [forall₂_nil_right_iff.mp hl] at heq
    refine ⟨m''.answers.take rs.length, s', ?_, (forall₂_take_append _ _ _ hall).flip, hs'⟩
    rw [← heq, take_append_drop]
  have hset : rrsetOf m'' = rs' := by rw [rrsetOf, hans', dropLast_concat]
  have hdatas : rs'.map Record.rdata = rs.map Record.rdata :=
    Record.map_of_same (fun h => h.2.2.2.2) hrs'
  have hkeys : rs'.map (·.name.key) = rs.map (·.name.key) := Record.map_of_same (fun h => h.1) hrs'
  rw [hset]
  refine ⟨?_, hdatas ▸ hperm, fun r hr => ?_, fun rd hrd => ?_⟩
  · rw [rrsigOf, hans', getLast?_concat, Option.bind_some, hs'.2.2.2.2, hs]
    rfl
  · have hmem : r.name.key ∈ rs.map (·.name.key) := hkeys ▸ mem_map_of_mem hr
    obtain ⟨r0, hr0, heq⟩ := mem_map.mp hmem
    rw [← heq, (hrs r0 hr0).1]
  · obtain ⟨r0, hr0, rfl⟩ := mem_map.mp (hperm.mem_iff.mpr hrd)
    rw [length_emitCanonical]
    exact (m.fits_of_encode h.length).data r0 (by simp [hans, hr0])

/-- Signatures of an ideal scheme: this one verifies the stream it was made for, and
    no other. -/
def SignatureOf (crypto : Crypto) (algorithm : Byte) (pubkey signature tbs : Bytes) : Prop :=
  ∀ msg, verifySignature crypto algorithm pubkey msg signature = true ↔ msg = tbs

/-- After the round trip the verifier checks the stream that was signed, and accepts
    an ideal signature inside its window. -/
def Agrees (sign : Bytes → Option Bytes) (p : RrsigParams) (owner : Name) (rclass : U16)
    (rdatas : List Rdata) (m' : Message) : Prop :=
  ∃ rrsig, rrsigOf m' = some rrsig ∧ ∀ r ∈ rrsetOf m',
    checkedStream r.name rclass ((rrsetOf m').map Record.rdata) rrsig =
      some (rrsigTbs p owner rclass rdatas) ∧
    ∀ (crypto : Crypto) (key signature : Bytes) (now : U32),
      sign (rrsigTbs p owner rclass rdatas) = some signature →
      SignatureOf crypto p.algorithm (key.drop 4) signature (rrsigTbs p owner rclass rdatas) →
      key[3]? = some p.algorithm → owner.isInZone p.signerName = true →
      withinValidity p.inception p.expiration now = true →
      verifyRrsig crypto r.name rclass p.typeCovered ((rrsetOf m').map Record.rdata) rrsig key
        now = true

/-- Signer and verifier agree exactly on the RRsets whose canonical data are distinct. -/
theorem signedStream_agrees_iff {sign : Bytes → Option Bytes} {p : RrsigParams} {owner : Name}
    {rclass : U16} {rdatas : List Rdata} {rrsig : Bytes} {m : Message} (hne : rdatas ≠ [])
    (hsign : signRrset sign p owner rclass rdatas = some rrsig)
    (hm : CarriesRrset m owner p.typeCovered rclass rdatas rrsig) :
    ∃ m', Message.parse m.encode = .ok m' ∧
      (Agrees sign p owner rclass rdatas m' ↔ (rdatas.map Rdata.emitCanonical).Nodup) := by
  obtain ⟨signature, hsig, rfl⟩ := Option.map_eq_some_iff.mp hsign
  obtain ⟨m', hm', -⟩ := m.parse_encode hm.wireOk hm.length
  obtain ⟨hrrsig, hperm, howner, hshort⟩ := hm.received hm'
  have hstream : ∀ r ∈ rrsetOf m', (checkedStream r.name rclass ((rrsetOf m').map Record.rdata)
      (rrsigPrefix p (rrsigLabels owner) ++ signature) = some (rrsigTbs p owner rclass rdatas) ↔
        (rdatas.map Rdata.emitCanonical).Nodup) :=
    fun r hr => checkedStream_eq_tbs_iff hne hshort (howner r hr) hperm signature
  refine ⟨m', hm', ?_, fun hnodup => ?_⟩
  · rintro ⟨rrsig', hrrsig', h⟩
    obtain rfl := Option.some.inj (hrrsig.symm.trans hrrsig')
    obtain ⟨r, hr⟩ : ∃ r, r ∈ rrsetOf m' := by
      refine exists_mem_of_ne_nil _ fun hnil => hne ?_
      rw [hnil] at hperm
      exact nil_perm.mp hperm
    exact (hstream r hr).mp (h r hr).1
  · refine ⟨_, hrrsig, fun r hr => ⟨(hstream r hr).mpr hnodup, ?_⟩⟩
    intro crypto key signature' now hsig' hideal halg hzone hwin
    obtain rfl := Option.some.inj (hsig.symm.trans hsig')
    have hzone' : r.name.isInZone p.signerName = true := by
      rw [isInZone_iff] at hzone ⊢
      rwa [howner r hr]
    exact (verifyRrsig_rrsigPrefix_iff hwin hzone' halg).mpr
      ⟨_, (hstream r hr).mpr hnodup, (hideal _).mpr rfl⟩

/-! ## Two RRsets -/

/-- The parameters of an RRSIG over addresses in the zone `a.`. -/
def paramsA : RrsigParams :=
  { typeCovered := Rtype.A, algorithm := 13, originalTtl := 300, expiration := 2000,
    inception := 1000, keyTag := 1, signerName := nameA }

/-- A zone key of algorithm 13. -/
def zskA : Bytes := [1, 0, 3, 13] ++ List.replicate 64 7

/-- The RRSIG data over addresses of `a.`; the ideal scheme below does not look at the
    signature itself. -/
def rrsigA : Bytes := rrsigPrefix paramsA (rrsigLabels nameA) ++ [0]

/-- A response with these addresses and the RRSIG. -/
def addresses (octets : List (Fin 4 → Byte)) : Message where
  answers := octets.map (Record.address nameA 300) ++
    [Record.ofData nameA Rtype.RRSIG 300 rrsigA (by decide +kernel)]

/-- A scheme in which the key of `a.` signed one stream. -/
def cryptoA (tbs : Bytes) : Crypto := idealCrypto [] [(4 :: zskA.drop 4, tbs)]

theorem signatureOf_cryptoA (tbs signature : Bytes) :
    SignatureOf (cryptoA tbs) 13 (zskA.drop 4) signature tbs := by
  intro msg
  have hlen : (zskA.drop 4).length = 64 := by decide
  simp [verifySignature, hlen, cryptoA, idealCrypto]

theorem carries_addresses {octets : List (Fin 4 → Byte)}
    (hlen : (addresses octets).encode.length < 65536) :
    CarriesRrset (addresses octets) nameA Rtype.A IN (octets.map .a) rrsigA where
  answers := by
    refine ⟨octets.map fun o => ⟨nameA, Rtype.A, IN, 300, .a o, rfl⟩, _, rfl, rfl, ?_, ?_⟩
    · rw [map_map]
      exact List.Perm.refl _
    · simp
  wireOk := by
    intro r hr
    simp only [addresses, append_nil, mem_append, mem_map, mem_singleton] at hr
    rcases hr with ⟨o, -, rfl⟩ | rfl <;> trivial
  length := hlen

/-- Two addresses, the smaller one last. -/
theorem signedStream_agrees_two :
    ∃ m', Message.parse (addresses [![10, 0, 0, 2], ![10, 0, 0, 1]]).encode = .ok m' ∧
      Agrees (fun _ => some [0]) paramsA nameA IN [.a ![10, 0, 0, 2], .a ![10, 0, 0, 1]] m' := by
  have hsign : signRrset (fun _ => some [0]) paramsA nameA IN
      [.a ![10, 0, 0, 2], .a ![10, 0, 0, 1]] = some rrsigA := rfl
  have hcarries : CarriesRrset (addresses [![10, 0, 0, 2], ![10, 0, 0, 1]]) nameA Rtype.A IN
      [.a ![10, 0, 0, 2], .a ![10, 0, 0, 1]] rrsigA := carries_addresses (by decide +kernel)
  obtain ⟨m', hm', hiff⟩ := signedStream_agrees_iff (by simp) hsign hcarries
  exact ⟨m', hm', hiff.mpr (by decide +kernel)⟩

/-- The same address twice: the verifier checks another stream than the one that was
    signed, and refuses the signature of an ideal scheme inside its window. -/
theorem duplicate_rejected :
    let rdatas := [Rdata.a ![10, 0, 0, 1], .a ![10, 0, 0, 1]]
    let tbs := rrsigTbs paramsA nameA IN rdatas
    signRrset (fun _ => some [0]) paramsA nameA IN rdatas = some rrsigA ∧
    SignatureOf (cryptoA tbs) 13 (zskA.drop 4) [0] tbs ∧
    withinValidity paramsA.inception paramsA.expiration 1500 = true ∧
    nameA.isInZone paramsA.signerName = true ∧
    ∃ m', Message.parse (addresses [![10, 0, 0, 1], ![10, 0, 0, 1]]).encode = .ok m' ∧
      rrsigOf m' = some rrsigA ∧ (rrsetOf m').map Record.rdata = rdatas ∧
      ∀ r ∈ rrsetOf m', checkedStream r.name IN rdatas rrsigA ≠ some tbs ∧
        verifyRrsig (cryptoA tbs) r.name IN Rtype.A rdatas rrsigA zskA 1500 = false := by
  intro rdatas tbs
  have hcarries : CarriesRrset (addresses [![10, 0, 0, 1], ![10, 0, 0, 1]]) nameA Rtype.A IN
      rdatas rrsigA := carries_addresses (by decide +kernel)
  obtain ⟨m', hm', -⟩ := Message.parse_encode _ hcarries.wireOk hcarries.length
  obtain ⟨hrrsig, hperm, howner, hshort⟩ := hcarries.received hm'
  have hset : (rrsetOf m').map Record.rdata = rdatas :=
    perm_replicate.mp (show List.Perm _ (List.replicate 2 (Rdata.a ![10, 0, 0, 1])) from hperm)
  refine ⟨rfl, signatureOf_cryptoA _ _, by decide, by decide, m', hm', hrrsig, hset, fun r hr => ?_⟩
  have hstream : checkedStream r.name IN rdatas rrsigA ≠ some tbs := fun h => by
    have hnodup := (checkedStream_eq_tbs_iff (by simp) hshort (howner r hr)
      (List.Perm.refl rdatas) [0]).mp h
    simp [rdatas] at hnodup
  refine ⟨hstream, Bool.eq_false_iff.mpr fun hver => ?_⟩
  have hzone : r.name.isInZone paramsA.signerName = true := by
    rw [isInZone_iff, howner r hr]
    exact prefix_rfl
  obtain ⟨stream, hs, hsig⟩ :=
    (verifyRrsig_rrsigPrefix_iff (p := paramsA) (by decide) hzone (by decide)).mp hver
  rw [(signatureOf_cryptoA tbs [0] stream).mp hsig] at hs
  exact hstream hs

end Runbound.Dnssec
