import Runbound.Dnssec.Zone
import Runbound.Dnssec.Ideal
import Runbound.Lib.Map

/-!
# The online signer of local zones (`zone_signer.rs`)

Signed answers, the synthesised apex records, and the NSEC3 denial that is built
anew for every negative answer. The owner names of the zone are recomputed from the
record store; names without records between an owner and the apex are owners too.

* `exists_zoneOwner_iff`, `types_zoneOwner`: the names and types the denial is built over.
-/

namespace Runbound.Dnssec

open Wire Lib List Rtype Class Name Map

/-! ## Names -/

/-- `prepend_label` (zone_signer.rs:63). -/
def prependLabel (label : Bytes) (name : Name) : Option Name :=
  let base := name.toAscii
  let full := if base = [46] then label ++ [46] else label ++ [46] ++ base
  (Name.fromAscii full).toOption

/-- `data_encoding::BASE32_DNSSEC`: the alphabet of base32hex in lower case, without padding. -/
structure Base32Dnssec where
  encode : Bytes → Bytes
  encode_eq : ∀ bs, bs.length = 20 → encode bs = lower (base32hexEncode bs)

/-- `nsec3_owner_label` (dnssec_sign.rs:319). -/
def nsec3OwnerLabel (base32 : Base32Dnssec) (hash : Bytes) : Bytes := base32.encode hash

/-- `wire_key` (zone_signer.rs:232). -/
def wireKey (n : Name) : Bytes := lower n.wire

/-! ## Keys -/

/-- `SigningKey` (dnssec_sign.rs:36): the DNSKEY data and the signatures of the key, both of
    the fixed lengths of algorithm 13. -/
structure SigningKey where
  dnskeyRdata : Bytes
  sign : Bytes → Option Bytes
  dnskeyRdata_length : dnskeyRdata.length = 68
  sign_length : ∀ msg sig, sign msg = some sig → sig.length = 64

/-- `ZoneKeys` (zone_signer.rs:214). -/
structure ZoneKeys where
  apex : Name
  ksk : SigningKey
  zsk : SigningKey

/-- An encoder as it is documented. -/
def Base32Dnssec.lowerHex : Base32Dnssec where
  encode bs := lower (base32hexEncode bs)
  encode_eq _ _ := rfl

/-- `ZoneSigner` (zone_signer.rs:222), with the validity of signatures in seconds, and the
    encoder that it calls for the owner names of NSEC3 records. -/
structure ZoneSigner where
  zones : Map Bytes ZoneKeys
  sigValidity : ℕ
  base32 : Base32Dnssec := .lowerHex
  keyed : ∀ k z, zones.lookup k = some z → k = wireKey z.apex

namespace ZoneSigner

section

variable (s : ZoneSigner)

/-- `zone_for` (zone_signer.rs:268). -/
def zoneFor (name : Name) : Option ZoneKeys :=
  walkUp (fun cur => s.zones.lookup (lower cur)) (name.wire.length + 1) name.wire

/-- `is_apex` (zone_signer.rs:287). -/
def isApex (name : Name) : Bool := wireKey name ∈ s.zones

/-- `apex_for` (zone_signer.rs:292). -/
def apexFor (name : Name) : Option Name := (s.zoneFor name).map ZoneKeys.apex

/-- `validity_window` (zone_signer.rs:296): inception and expiration. -/
def validityWindow (now : ℕ) : U32 × U32 :=
  (Fin.ofNat _ (now - 3600), Fin.ofNat _ (now + s.sigValidity))

/-- The parameters of a signature (zone_signer.rs:314-321). -/
def params (now : ℕ) (key : SigningKey) (apex : Name) (typeCovered : U16)
    (ttl : U32) : RrsigParams where
  typeCovered := typeCovered
  algorithm := 13
  originalTtl := ttl
  expiration := (s.validityWindow now).2
  inception := (s.validityWindow now).1
  keyTag := keyTag key.dnskeyRdata
  signerName := apex

end

end ZoneSigner

theorem rrsig_parsed {key : SigningKey} {p : RrsigParams} {owner : Name} {rclass : U16}
    {rdatas : List Rdata} {data : Bytes}
    (h : signRrset key.sign p owner rclass rdatas = some data) :
    (Rdata.unknown RRSIG data).parsedAs RRSIG = true := by
  obtain ⟨sig, hsig, rfl⟩ := Option.map_eq_some_iff.mp h
  have hlen := key.sign_length _ _ hsig
  have hname := p.signerName.ok.len
  have hpre : (rrsigPrefix p (rrsigLabels owner)).length = 18 + p.signerName.wire.length := by
    simp [rrsigPrefix, canonicalNameWire]
    omega
  have hshort : (rrsigPrefix p (rrsigLabels owner) ++ sig).length < 65536 := by
    unfold maxNameWire at hname
    rw [length_append, hpre, wire_length]
    omega
  exact Rdata.parsedAs_unknown hshort (by decide)

theorem dnskey_parsed (key : SigningKey) :
    (Rdata.unknown DNSKEY key.dnskeyRdata).parsedAs DNSKEY = true :=
  Rdata.parsedAs_unknown (by rw [key.dnskeyRdata_length]; decide) (by decide)

namespace ZoneSigner

variable (s : ZoneSigner) (now : ℕ)

/-- `rrsig_record` (zone_signer.rs:305). -/
def rrsigRecord (key : SigningKey) (apex owner : Name) (typeCovered : U16) (ttl : U32)
    (rdatas : List Rdata) : Option Record :=
  match h : signRrset key.sign (s.params now key apex typeCovered ttl) owner IN rdatas with
  | none => none
  | some data => some ⟨owner, RRSIG, IN, ttl, .unknown RRSIG data, rrsig_parsed h⟩

/-- `sign_answer` (zone_signer.rs:335). -/
def signAnswer (qtype : U16) (records : List Record) : Option Record :=
  match records with
  | [] => none
  | first :: _ =>
    (s.zoneFor first.name).bind fun z =>
      s.rrsigRecord now z.zsk z.apex first.name qtype first.ttl (records.map Record.rdata)

/-- The grouping loop of `sign_chain` (zone_signer.rs:345-355): owner and type of a group, and
    its records. -/
def group (groups : List (Name × U16 × List Record)) (r : Record) :
    List (Name × U16 × List Record) :=
  match groups with
  | [] => [(r.name, r.rtype, [r])]
  | g :: gs =>
    if g.1.eqIgnoreAsciiCase r.name && g.2.1 = r.rtype then (g.1, g.2.1, g.2.2 ++ [r]) :: gs
    else g :: group gs r

/-- `sign_chain` (zone_signer.rs:344). -/
def signChain (records : List Record) : List Record :=
  (records.foldl group []).filterMap fun g =>
    (s.zoneFor g.1).bind fun z =>
      s.rrsigRecord now z.zsk z.apex g.1 g.2.1 ((g.2.2.head?.map Record.ttl).getD 0)
        (g.2.2.map Record.rdata)

/-- `apex_dnskey` (zone_signer.rs:373). -/
def apexDnskey (apex : Name) : Option (List Record) :=
  (s.zones.lookup (wireKey apex)).bind fun z =>
    let mk := fun key : SigningKey =>
      (⟨z.apex, DNSKEY, IN, 3600, .unknown DNSKEY key.dnskeyRdata, dnskey_parsed key⟩ : Record)
    (s.rrsigRecord now z.ksk z.apex z.apex DNSKEY 3600
      [(mk z.ksk).rdata, (mk z.zsk).rdata]).map
      fun sig => [mk z.ksk, mk z.zsk, sig]

/-- `"hostmaster"`. -/
def hostmaster : Bytes := [104, 111, 115, 116, 109, 97, 115, 116, 101, 114]

/-- The synthesised apex SOA (zone_signer.rs:395-407, 414-420). -/
def synthSoa (apex : Name) : Record :=
  ⟨apex, SOA, IN, 300,
    .soa apex ((prependLabel hostmaster apex).getD apex) (Fin.ofNat _ (now / 60)) 3600 900 604800
      300, rfl⟩

/-- `signed_soa` (zone_signer.rs:410). -/
def signedSoa (apex : Name) : Option (List Record) :=
  (s.zones.lookup (wireKey apex)).bind fun z =>
    let soa := synthSoa now z.apex
    (s.rrsigRecord now z.zsk z.apex z.apex SOA 300 [soa.rdata]).map fun sig => [soa, sig]

end ZoneSigner

/-! ## The owner names of a zone -/

/-- The ancestors of an owner below the apex (zone_signer.rs:539-545): the apex itself has
    more labels than the root, so the loop ends before the root. -/
def addAncestors (apex name : Name) (map : Map Bytes (Name × List U16)) :
    Map Bytes (Name × List U16) :=
  (name.ancestors.takeWhile fun cur => cur.labelCount > apex.labelCount).foldl
    (fun m cur => Map.orInsert (wireKey cur) (cur, []) m) map

/-- One round of the loop of `zone_owners` (zone_signer.rs:534-552). -/
def addOwner (apex : Name) (map : Map Bytes (Name × List U16)) (e : Name × List U16) :
    Map Bytes (Name × List U16) :=
  if e.1.isInZone apex then
    Map.modify (wireKey e.1) (e.1, []) (fun o => (o.1, o.2 ++ e.2)) (addAncestors apex e.1 map)
  else map

/-- The map of `zone_owners` (zone_signer.rs:526-552). The sets of types are lists here: only
    membership is read. -/
def ownerMap (entries : List (Name × List U16)) (apex : Name) : Map Bytes (Name × List U16) :=
  entries.foldl (addOwner apex) (AList.insert (wireKey apex) (apex, [SOA, DNSKEY, NSEC3PARAM]) ∅)

/-- `zone_owners` (zone_signer.rs:521). -/
def zoneOwners (entries : List (Name × List U16)) (apex : Name) : List (Name × List U16) :=
  (ownerMap entries apex).entries.map Sigma.snd

/-! ## The NSEC3 ring -/

/-- `Nsec3Node` (zone_signer.rs:561). -/
structure Nsec3Node where
  hash : Bytes
  types : List U16
  hash_length : hash.length = 20
  deriving DecidableEq

/-- `nsec3_hash_name` (zone_signer.rs:566): no salt, no iterations. -/
def nsec3HashName (crypto : Crypto) (name : Name) : Bytes :=
  nsec3Hash crypto (canonicalNameWire name) [] 0

theorem nsec3HashName_length (crypto : Crypto) (name : Name) :
    (nsec3HashName crypto name).length = 20 := nsec3Hash_length _ _ _ _

/-- `a` and the nodes after it, of which those with the hash of their predecessor fall out. -/
def dedupAfter (a : Nsec3Node) : List Nsec3Node → List Nsec3Node
  | [] => [a]
  | b :: l => if a.hash = b.hash then dedupAfter a l else a :: dedupAfter b l

/-- `Vec::dedup_by` on the hashes. -/
def dedupByHash : List Nsec3Node → List Nsec3Node
  | [] => []
  | a :: l => dedupAfter a l

/-- `build_nsec3_chain` (zone_signer.rs:572). -/
def buildNsec3Chain (crypto : Crypto) (owners : List (Name × List U16)) : Option (List Nsec3Node) :=
  let nodes := owners.map fun o =>
    (⟨nsec3HashName crypto o.1, o.2 ++ [RRSIG], nsec3HashName_length crypto o.1⟩ : Nsec3Node)
  let nodes := dedupByHash (nodes.insertionSort fun a b => a.hash ≤ b.hash)
  if nodes = [] then none else some nodes

/-- `covers` (zone_signer.rs:590) on a node and the one after it. -/
def arcCovers (target : Bytes) (a : Nsec3Node × Nsec3Node) : Bool :=
  if a.1.hash < a.2.hash then a.1.hash < target && target < a.2.hash
  else a.1.hash < target || target < a.2.hash

/-- The loop that looks for the closest encloser (zone_signer.rs:490-497), over the name and
    its ancestors. -/
def closestExisting (crypto : Crypto) (existing : List Bytes) : List Name → Option (Name × Name)
  | child :: parent :: up =>
    if nsec3HashName crypto parent ∈ existing then some (parent, child)
    else closestExisting crypto existing (parent :: up)
  | _ => none

/-- The nodes of the NXDOMAIN proof (zone_signer.rs:499-514): the one at the closest encloser,
    and those around the next closer name and the wildcard, as far as there are any. -/
def nxdomainArcs (crypto : Crypto) (qname : Name) (owners : List (Name × List U16)) :
    Option (List (Nsec3Node × Nsec3Node)) :=
  (buildNsec3Chain crypto owners).bind fun nodes =>
    (closestExisting crypto (owners.map fun o => nsec3HashName crypto o.1)
        qname.ancestors).bind fun e =>
      (prependLabel [42] e.1).bind fun wc =>
        ((ring nodes).find? fun a => a.1.hash = nsec3HashName crypto e.1).map fun ce =>
          (ce :: ((ring nodes).find? (arcCovers (nsec3HashName crypto e.2))).toList ++
            ((ring nodes).find? (arcCovers (nsec3HashName crypto wc))).toList).eraseDups

theorem nsec3_parsed (a : Nsec3Node × Nsec3Node) :
    (Rdata.unknown NSEC3 (nsec3Rdata 0 0 [] a.2.hash a.1.types)).parsedAs NSEC3 = true := by
  have hmap := typeBitmap_length a.1.types
  have hshort : (nsec3Rdata 0 0 [] a.2.hash a.1.types).length < 65536 := by
    simp only [nsec3Rdata, u16Be, length_append, length_cons, length_nil, a.2.hash_length]
    omega
  exact Rdata.parsedAs_unknown hshort (by decide)

namespace ZoneSigner

variable (s : ZoneSigner) (now : ℕ)

/-- `signed_nsec3` (zone_signer.rs:456) for a node and the one after it. -/
def signedNsec3 (z : ZoneKeys) (a : Nsec3Node × Nsec3Node) : Option (List Record) :=
  (prependLabel (nsec3OwnerLabel s.base32 a.1.hash) z.apex).bind fun owner =>
    let rec' : Record := ⟨owner, NSEC3, IN, 300, _, nsec3_parsed a⟩
    (s.rrsigRecord now z.zsk z.apex owner NSEC3 300 [rec'.rdata]).map fun sig => [rec', sig]

section

variable (crypto : Crypto) (z : ZoneKeys) (qname : Name) (owners : List (Name × List U16))

/-- `nsec3_nodata` (zone_signer.rs:475). The `i`-th node and the one after it are the `i`-th
    element of `ring nodes`. -/
def nsec3Nodata : Option (List Record) :=
  (buildNsec3Chain crypto owners).bind fun nodes =>
    ((ring nodes).find? fun a => a.1.hash = nsec3HashName crypto qname).bind (s.signedNsec3 now z)

/-- `nsec3_nxdomain` (zone_signer.rs:484). -/
def nsec3Nxdomain : Option (List Record) :=
  (nxdomainArcs crypto qname owners).bind fun arcs =>
    (arcs.mapM (s.signedNsec3 now z)).map List.flatten

end

/-- `signed_negative` (zone_signer.rs:423). -/
def signedNegative (crypto : Crypto) (isNxdomain : Bool) (qname : Name)
    (owners : List (Name × List U16)) : Option (List Record) :=
  (s.zoneFor qname).bind fun z =>
    (s.signedSoa now z.apex).bind fun authority =>
      (if isNxdomain then s.nsec3Nxdomain now crypto z qname owners
        else s.nsec3Nodata now crypto z qname owners).map fun denial => authority ++ denial

end ZoneSigner

/-! ## What the names and the ring are -/

/-- A label of characters that are written as they are. -/
def PlainLabel (l : Bytes) : Prop := Name.LabelBound l ∧ ∀ b ∈ l, Name.escapeByte b = [b]

theorem prependLabel_eq {label : Bytes} (h : PlainLabel label) (name : Name) :
    prependLabel label name =
      if h : LabelsOk (label :: name.labels) then some ⟨label :: name.labels, h⟩ else none := by
  obtain ⟨ts, hts, hpieces⟩ := presents_toAscii name
  have hlabel : Presents label (label.map some) := by
    have hplain : label.flatMap Name.escapeByte = label := by
      rw [flatMap_congr h.2]
      simp
    have hpresents := presents_label label
    rwa [hplain] at hpresents
  have hpiece : pieces (label.map some) = [label] := by
    rw [pieces_octets, filter_cons_of_pos (by simpa using ne_nil_of_length_pos h.1.1), filter_nil]
  obtain ⟨ts', hfull, hpieces'⟩ : ∃ ts', Presents
      (if name.toAscii = [46] then label ++ [46] else label ++ [46] ++ name.toAscii) ts' ∧
        pieces ts' = label :: name.labels := by
    split_ifs with hroot
    · refine ⟨_, hlabel.append (.dot .nil), ?_⟩
      rw [pieces_dot, hpiece, toAscii_injective (b := Name.root) hroot]
      rfl
    · rw [append_assoc]
      exact ⟨_, hlabel.append (.dot hts), by rw [pieces_dot, hpiece, hpieces]; rfl⟩
  unfold prependLabel
  simp only
  rw [hfull.toOption_fromAscii]
  simp only [hpieces']

theorem prependLabel_star (name : Name) : prependLabel [42] name = wildcardOf name := by
  rw [prependLabel_eq ⟨⟨by decide, by decide⟩, by decide +kernel⟩, wildcardOf_eq]

theorem mem_base32hexEncodeLoop : ∀ {input : Bytes} {buf bits : ℕ} {out : Bytes} {c : Byte},
    c ∈ base32hexEncodeLoop input buf bits out → c ∈ out ∨ ∃ v < 32, c = base32hexChar v := by
  intro input
  induction input with
  | nil =>
    intro buf bits out c hc
    rw [base32hexEncodeLoop] at hc
    split_ifs at hc
    · rcases mem_append.mp hc with hc | hc
      · exact Or.inl hc
      · exact Or.inr ⟨_, Nat.mod_lt _ (by decide), mem_singleton.mp hc⟩
    · exact Or.inl hc
  | cons b rest ih =>
    intro buf bits out c hc
    rcases ih hc with hc | hc
    · rcases mem_append.mp hc with hc | hc
      · exact Or.inl hc
      · obtain ⟨i, -, rfl⟩ := mem_map.mp hc
        exact Or.inr ⟨_, Nat.mod_lt _ (by decide), rfl⟩
    · exact Or.inr hc

theorem plainLabel_nsec3OwnerLabel (base32 : Base32Dnssec) {hash : Bytes} (h : hash.length = 20) :
    PlainLabel (nsec3OwnerLabel base32 hash) := by
  have hchar : ∀ v < 32, Name.escapeByte (toAsciiLowercase (base32hexChar v)) =
      [toAsciiLowercase (base32hexChar v)] := by decide +kernel
  have hlen : (lower (base32hexEncode hash)).length = 32 := by
    rw [lower_length, base32hexEncode_length (n := 4) h]
  rw [nsec3OwnerLabel, base32.encode_eq hash h]
  refine ⟨⟨by omega, by rw [hlen]; decide⟩, fun b hb => ?_⟩
  obtain ⟨c, hc, rfl⟩ := mem_map.mp hb
  rcases mem_base32hexEncodeLoop hc with hc | ⟨v, hv, rfl⟩
  · cases hc
  · exact hchar v hv

/-- The parser reads back the record of a hash that was made an owner name below an apex. -/
theorem Nsec3.parse_prependLabel {hash salt next : Bytes} {apex owner : Name} {flags : Byte}
    {iterations : U16} {types : List U16} {base32 : Base32Dnssec} (hhash : hash.length = 20)
    (hsalt : salt.length < 256) (hnext : next.length < 256)
    (howner : prependLabel (nsec3OwnerLabel base32 hash) apex = some owner) :
    Nsec3.parse owner (nsec3Rdata flags iterations salt next types) =
      some ⟨1, flags, iterations, salt, hash, next, typeBitmap types⟩ := by
  rw [prependLabel_eq (plainLabel_nsec3OwnerLabel base32 hhash)] at howner
  split_ifs at howner with hok
  cases howner
  refine Nsec3.parse_rdata ?_ hhash hsalt hnext
  rw [Name.labelsLower, map_cons, head?_cons, nsec3OwnerLabel, base32.encode_eq hash hhash,
    lower_lower]

/-- What the signer encodes is what the validator reads: the hash of the owner, the parameters
    and, type by type, the bitmap. -/
theorem nsec3_roundTrip {hash : Bytes} {apex owner : Name} (base32 : Base32Dnssec) (flags : Byte)
    (iterations : U16) (salt next : Bytes) (types : List U16) (hhash : hash.length = 20)
    (hsalt : salt.length ≤ 255) (hnext : next.length ≤ 255)
    (howner : prependLabel (nsec3OwnerLabel base32 hash) apex = some owner) :
    ∃ bm, Nsec3.parse owner (nsec3Rdata flags iterations salt next types) =
        some ⟨1, flags, iterations, salt, hash, next, bm⟩ ∧
      ∀ t, typeInBitmap bm t = true ↔ t ∈ types :=
  ⟨typeBitmap types, Nsec3.parse_prependLabel hhash (by omega) (by omega) howner,
    typeInBitmap_typeBitmap types⟩

theorem nsec3_roundTrip_root :
    ∃ owner bm, prependLabel (nsec3OwnerLabel .lowerHex (replicate 20 7)) Name.root = some owner ∧
      Nsec3.parse owner (nsec3Rdata 1 5 [170] [1, 2] [NS, DS]) =
        some ⟨1, 1, 5, [170], replicate 20 7, [1, 2], bm⟩ ∧
      ∀ t, typeInBitmap bm t = true ↔ t ∈ [NS, DS] := by
  have howner : (prependLabel (nsec3OwnerLabel .lowerHex (replicate 20 7)) Name.root).isSome := by
    decide +kernel
  obtain ⟨owner, howner⟩ := Option.isSome_iff_exists.mp howner
  obtain ⟨bm, h⟩ := nsec3_roundTrip .lowerHex 1 5 [170] [1, 2] [NS, DS] (by decide) (by decide)
    (by decide) howner
  exact ⟨owner, bm, howner, h⟩

/-! ### Owner names -/

theorem wireKey_eq_iff {a b : Name} : wireKey a = wireKey b ↔ a.key = b.key := lower_wire_eq_iff

/-- The types a map of owners has for a name. -/
def typesAt (map : Map Bytes (Name × List U16)) (n : Name) : List U16 :=
  ((map.lookup (wireKey n)).map Prod.snd).getD []

/-- The names stand under their own keys. -/
def OwnersKeyed (map : Map Bytes (Name × List U16)) : Prop :=
  ∀ k v, map.lookup k = some v → k = wireKey v.1

theorem mem_takeWhile_ancestors {c : ℕ} {m : Name} : ∀ {ls : List Bytes} {h : LabelsOk ls},
    m ∈ (Name.ancestorsFrom ls h).takeWhile (fun cur => cur.labelCount > c) ↔
      m ∈ Name.ancestorsFrom ls h ∧ c < m.labelCount := by
  intro ls
  induction ls with
  | nil =>
    intro h
    rw [Name.ancestorsFrom]
    simp [Name.labelCount]
    rintro rfl
    simp
  | cons l ls ih =>
    intro h
    rw [Name.ancestorsFrom, takeWhile_cons]
    by_cases hc : c < (⟨l :: ls, h⟩ : Name).labelCount
    · rw [if_pos (decide_eq_true hc), mem_cons, mem_cons, ih]
      constructor
      · rintro (rfl | ⟨hm, hlt⟩)
        · exact ⟨Or.inl rfl, hc⟩
        · exact ⟨Or.inr hm, hlt⟩
      · rintro ⟨rfl | hm, hlt⟩
        · exact Or.inl rfl
        · exact Or.inr ⟨hm, hlt⟩
    · rw [if_neg (by simpa using hc)]
      refine ⟨fun hm => absurd hm not_mem_nil, fun h => absurd h.2 ?_⟩
      -- no ancestor has more labels than the name itself
      rcases mem_cons.mp h.1 with rfl | hm
      · exact hc
      · have := (mem_ancestorsFrom.mp hm).length_le
        simp only [Name.labelCount, length_cons] at hc ⊢
        omega

section Owners

variable {map : Map Bytes (Name × List U16)} {apex n : Name}

theorem typesAt_orInsert (cur : Name) :
    typesAt (Map.orInsert (wireKey cur) (cur, []) map) n = typesAt map n := by
  unfold typesAt
  rw [lookup_orInsert]
  split_ifs with h
  · rw [h]
    cases map.lookup (wireKey cur) <;> rfl
  · rfl

theorem mem_orInsert (cur : Name) :
    wireKey n ∈ Map.orInsert (wireKey cur) (cur, []) map ↔ n.key = cur.key ∨ wireKey n ∈ map := by
  rw [mem_iff_lookup, lookup_orInsert, mem_iff_lookup, ← wireKey_eq_iff]
  split_ifs with h <;> simp [h]

theorem keyed_orInsert (h : OwnersKeyed map) (cur : Name) :
    OwnersKeyed (Map.orInsert (wireKey cur) (cur, []) map) := by
  intro k v hv
  rw [lookup_orInsert] at hv
  split_ifs at hv with hk
  · cases hl : map.lookup (wireKey cur) with
    | none =>
      rw [hl] at hv
      cases hv
      exact hk
    | some w =>
      rw [hl] at hv
      cases hv
      exact hk.trans (h _ _ hl)
  · exact h k v hv

theorem addAncestors_spec (apex name n : Name) (h : OwnersKeyed map) :
    OwnersKeyed (addAncestors apex name map) ∧
      typesAt (addAncestors apex name map) n = typesAt map n ∧
      (wireKey n ∈ addAncestors apex name map ↔
        (n.key <+: name.key ∧ apex.labelCount < n.labelCount) ∨ wireKey n ∈ map) := by
  have hmem : ∀ {cur}, cur ∈
      name.ancestors.takeWhile (fun cur => cur.labelCount > apex.labelCount) ↔
      cur ∈ name.ancestors ∧ apex.labelCount < cur.labelCount := mem_takeWhile_ancestors
  have hfold : ∀ (cs : List Name) (map : Map Bytes (Name × List U16)), OwnersKeyed map →
      OwnersKeyed (cs.foldl (fun m cur => Map.orInsert (wireKey cur) (cur, []) m) map) ∧
      typesAt (cs.foldl (fun m cur => Map.orInsert (wireKey cur) (cur, []) m) map) n =
        typesAt map n ∧
      (wireKey n ∈ cs.foldl (fun m cur => Map.orInsert (wireKey cur) (cur, []) m) map ↔
        (∃ cur ∈ cs, n.key = cur.key) ∨ wireKey n ∈ map) := by
    intro cs
    induction cs with
    | nil => intro map h; exact ⟨h, rfl, by simp⟩
    | cons c cs ih =>
      intro map h
      obtain ⟨h1, h2, h3⟩ := ih _ (keyed_orInsert h c)
      refine ⟨h1, h2.trans (typesAt_orInsert c), h3.trans ?_⟩
      rw [mem_orInsert]
      simp only [mem_cons, exists_eq_or_imp]
      exact or_left_comm.trans or_assoc.symm
  obtain ⟨h1, h2, h3⟩ := hfold _ map h
  refine ⟨h1, h2, h3.trans (or_congr_left ?_)⟩
  constructor
  · rintro ⟨cur, hcur, hkey⟩
    obtain ⟨hanc, hlt⟩ := hmem.mp hcur
    have hcount : n.labelCount = cur.labelCount := by
      rw [← key_length, ← key_length, hkey]
    exact ⟨hkey ▸ key_prefix_of_mem_ancestors hanc, hcount ▸ hlt⟩
  · rintro ⟨hpre, hlt⟩
    obtain ⟨cur, hcur, hkey⟩ := exists_ancestor_of_isPrefix hpre
    have hcount : n.labelCount = cur.labelCount := by
      rw [← key_length, ← key_length, hkey]
    exact ⟨cur, hmem.mpr ⟨hcur, hcount ▸ hlt⟩, hkey.symm⟩

theorem addOwner_spec (h : OwnersKeyed map) (hapex : wireKey apex ∈ map) (e : Name × List U16) :
    OwnersKeyed (addOwner apex map e) ∧
      (∀ t, t ∈ typesAt (addOwner apex map e) n ↔
        t ∈ typesAt map n ∨ (apex.key <+: e.1.key ∧ e.1.key = n.key ∧ t ∈ e.2)) ∧
      (wireKey n ∈ addOwner apex map e ↔
        (apex.key <+: n.key ∧ n.key <+: e.1.key) ∨ wireKey n ∈ map) := by
  unfold addOwner
  by_cases hz : e.1.isInZone apex = true
  · rw [if_pos hz]
    rw [isInZone_iff] at hz
    obtain ⟨h1, h2, h3⟩ := addAncestors_spec apex e.1 n h
    refine ⟨fun k v hv => ?_, fun t => ?_, ?_⟩
    · rw [lookup_modify] at hv
      split_ifs at hv with hk
      · cases hl : (addAncestors apex e.1 map).lookup (wireKey e.1) with
        | none =>
          rw [hl] at hv
          cases hv
          exact hk
        | some w =>
          rw [hl] at hv
          cases hv
          exact hk.trans (h1 _ w hl)
      · exact h1 k v hv
    · rw [← h2, typesAt, typesAt, lookup_modify]
      by_cases hk : wireKey n = wireKey e.1
      · rw [hk]
        have hkey := wireKey_eq_iff.mp hk
        cases (addAncestors apex e.1 map).lookup (wireKey e.1) <;> simp [hz, hkey]
      · rw [if_neg hk]
        have hkey : e.1.key ≠ n.key := fun heq => hk (wireKey_eq_iff.mpr heq.symm)
        simp [hkey]
    · rw [Map.modify, AList.mem_insert, h3, wireKey_eq_iff]
      constructor
      · rintro (heq | ⟨hpre, hlt⟩ | hmem)
        · exact Or.inl ⟨heq ▸ hz, heq ▸ prefix_rfl⟩
        · refine Or.inl ⟨prefix_of_prefix_length_le hz hpre ?_, hpre⟩
          rw [key_length, key_length]
          exact hlt.le
        · exact Or.inr hmem
      · rintro (⟨hroot, hpre⟩ | hmem)
        · rcases hroot.length_le.eq_or_lt with heq | hlt
          · -- the apex was there from the start
            rw [wireKey_eq_iff.mpr (hroot.eq_of_length heq)] at hapex
            exact Or.inr (Or.inr hapex)
          · rw [key_length, key_length] at hlt
            exact Or.inr (Or.inl ⟨hpre, hlt⟩)
        · exact Or.inr (Or.inr hmem)
  · rw [if_neg hz]
    rw [isInZone_iff] at hz
    refine ⟨h, fun t => by simp [hz], ?_⟩
    exact ⟨Or.inr, fun hmem => hmem.resolve_left fun ⟨ha, hb⟩ => hz (ha.trans hb)⟩

theorem foldl_addOwner_spec : ∀ (es : List (Name × List U16)) {map : Map Bytes (Name × List U16)},
    OwnersKeyed map → wireKey apex ∈ map →
    OwnersKeyed (es.foldl (addOwner apex) map) ∧
      (∀ t, t ∈ typesAt (es.foldl (addOwner apex) map) n ↔ t ∈ typesAt map n ∨
        ∃ e ∈ es, apex.key <+: e.1.key ∧ e.1.key = n.key ∧ t ∈ e.2) ∧
      (wireKey n ∈ es.foldl (addOwner apex) map ↔
        (∃ e ∈ es, apex.key <+: n.key ∧ n.key <+: e.1.key) ∨ wireKey n ∈ map) := by
  intro es
  induction es with
  | nil => intro map h _; exact ⟨h, by simp, by simp⟩
  | cons e es ih =>
    intro map h hapex
    obtain ⟨h1, h2, h3⟩ := addOwner_spec (n := n) h hapex e
    have hapex' := ((addOwner_spec (n := apex) h hapex e).2.2).mpr (Or.inr hapex)
    obtain ⟨h4, h5, h6⟩ := ih h1 hapex'
    refine ⟨h4, fun t => (h5 t).trans ?_, h6.trans ?_⟩
    · rw [h2, or_assoc]
      simp only [mem_cons, exists_eq_or_imp]
    · rw [h3]
      simp only [mem_cons, exists_eq_or_imp]
      exact or_left_comm.trans or_assoc.symm

/-- The map holds the names between the apex and an entry, and their types. -/
theorem ownerMap_spec (entries : List (Name × List U16)) (apex n : Name) :
    OwnersKeyed (ownerMap entries apex) ∧
      (∀ t, t ∈ typesAt (ownerMap entries apex) n ↔
        (n.key = apex.key ∧ t ∈ [SOA, DNSKEY, NSEC3PARAM]) ∨
          ∃ e ∈ entries, apex.key <+: e.1.key ∧ e.1.key = n.key ∧ t ∈ e.2) ∧
      (wireKey n ∈ ownerMap entries apex ↔
        (∃ e ∈ entries, apex.key <+: n.key ∧ n.key <+: e.1.key) ∨ n.key = apex.key) := by
  set start : Map Bytes (Name × List U16) :=
    AList.insert (wireKey apex) (apex, [SOA, DNSKEY, NSEC3PARAM]) ∅ with hstart
  have hkeyed : OwnersKeyed start := by
    intro k v hv
    rw [lookup_insert_eq] at hv
    split_ifs at hv with hk
    · cases hv
      exact hk
    · cases hv
  have hmem : ∀ m : Name, wireKey m ∈ start ↔ m.key = apex.key := by
    intro m
    rw [AList.mem_insert, wireKey_eq_iff]
    simp
  have htypes : ∀ t, t ∈ typesAt start n ↔ n.key = apex.key ∧ t ∈ [SOA, DNSKEY, NSEC3PARAM] := by
    rw [typesAt, lookup_insert_eq, ← wireKey_eq_iff]
    split_ifs with h <;> simp [h]
  obtain ⟨h1, h2, h3⟩ := foldl_addOwner_spec (n := n) entries hkeyed ((hmem apex).mpr rfl)
  exact ⟨h1, fun t => (h2 t).trans (or_congr_left (htypes t)), h3.trans (or_congr_right (hmem n))⟩

variable {entries : List (Name × List U16)}

theorem mem_zoneOwners {apex : Name} {o : Name × List U16} :
    o ∈ zoneOwners entries apex ↔ (ownerMap entries apex).lookup (wireKey o.1) = some o := by
  rw [zoneOwners, mem_map]
  constructor
  · rintro ⟨⟨k, v⟩, he, rfl⟩
    have hl := lookup_eq_some_iff.mpr he
    rwa [← (ownerMap_spec entries apex apex).1 k v hl]
  · intro hl
    exact ⟨⟨_, o⟩, lookup_eq_some_iff.mp hl, rfl⟩

/-- The owner names of a zone are the nodes of the tree of its names below the apex. -/
theorem exists_zoneOwner_iff {apex n : Name} :
    (∃ o ∈ zoneOwners entries apex, o.1.key = n.key) ↔
      IsNode apex.key (apex.key :: entries.map fun e => e.1.key) n.key := by
  obtain ⟨hkeyed, -, hmem⟩ := ownerMap_spec entries apex n
  have hpresent : (∃ o ∈ zoneOwners entries apex, o.1.key = n.key) ↔
      wireKey n ∈ ownerMap entries apex := by
    rw [mem_iff_lookup]
    constructor
    · rintro ⟨o, ho, hkey⟩
      exact ⟨o, by rw [← wireKey_eq_iff.mpr hkey]; exact mem_zoneOwners.mp ho⟩
    · rintro ⟨o, ho⟩
      have hkey := hkeyed _ _ ho
      exact ⟨o, mem_zoneOwners.mpr (hkey ▸ ho), wireKey_eq_iff.mp hkey.symm⟩
  rw [hpresent, hmem]
  constructor
  · rintro (⟨e, he, hroot, hpre⟩ | heq)
    · exact ⟨hroot, _, mem_cons_of_mem _ (mem_map_of_mem he), hpre⟩
    · rw [heq]
      exact isNode_root mem_cons_self
  · rintro ⟨hroot, o, ho, hpre⟩
    rcases mem_cons.mp ho with rfl | ho
    · exact Or.inr (hpre.eq_of_length (le_antisymm hpre.length_le hroot.length_le))
    · obtain ⟨e, he, rfl⟩ := mem_map.mp ho
      exact Or.inl ⟨e, he, hroot, hpre⟩

/-- Each owner has the types of the records at it, the apex those of its own records too. -/
theorem types_zoneOwner {apex : Name} {o : Name × List U16} (ho : o ∈ zoneOwners entries apex)
    (t : U16) :
    t ∈ o.2 ↔ (o.1.key = apex.key ∧ t ∈ [SOA, DNSKEY, NSEC3PARAM]) ∨
      ∃ e ∈ entries, apex.key <+: e.1.key ∧ e.1.key = o.1.key ∧ t ∈ e.2 := by
  have htypes : typesAt (ownerMap entries apex) o.1 = o.2 := by
    rw [typesAt, mem_zoneOwners.mp ho]
    rfl
  rw [← htypes]
  exact (ownerMap_spec entries apex o.1).2.1 t

end Owners

end Runbound.Dnssec
