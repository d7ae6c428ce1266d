import Runbound.Dnssec.Sign
import Runbound.Wire.NameCodec

/-!
# RRSIG verification and the DS link (`dnssec_verify.rs`)

`validateRrsetWc` and `validateDnskeyRrset` are the two entry points the chain
walk uses. Everything unparsed or unsupported is `none` or `false`.
-/

namespace Runbound.Dnssec

open Wire

/-! ## RRSIG RDATA -/

/-- `Rrsig` (dnssec_verify.rs:36-51). -/
structure Rrsig where
  typeCovered : U16
  algorithm : Byte
  labels : Byte
  originalTtl : U32
  expiration : U32
  inception : U32
  keyTag : U16
  signer : Name
  pre : Bytes
  signature : Bytes
  deriving DecidableEq

/-- `parse_rrsig` (dnssec_verify.rs:53). -/
def parseRrsig (rdata : Bytes) : Option Rrsig :=
  match rdata with
  | t0 :: t1 :: alg :: labels :: o0 :: o1 :: o2 :: o3 :: e0 :: e1 :: e2 :: e3 ::
      i0 :: i1 :: i2 :: i3 :: k0 :: k1 :: rest =>
    match Name.parse rest 0 with
    | .error _ => none
    | .ok (signer, _) =>
      let prefixLen := 18 + signer.len
      if prefixLen > rdata.length then none
      else some {
        typeCovered := u16OfBe t0 t1
        algorithm := alg
        labels := labels
        originalTtl := u32OfBe o0 o1 o2 o3
        expiration := u32OfBe e0 e1 e2 e3
        inception := u32OfBe i0 i1 i2 i3
        keyTag := u16OfBe k0 k1
        signer := signer
        pre := rdata.take prefixLen
        signature := rdata.drop prefixLen }
  | _ => none

/-- `rrsig_signer` (dnssec_verify.rs:397). -/
def rrsigSigner (rdata : Bytes) : Option Name := (parseRrsig rdata).map Rrsig.signer

/-- `rrsig_labels` (dnssec_verify.rs:408). -/
def rrsigLabelsField (rdata : Bytes) : Option Byte := rdata[3]?

/-- `d.len() >= 2 && u16::from_be_bytes([d[0], d[1]]) == rtype`, the filter on RRSIG
    RDATA of `split` and `rrset_validated`. -/
def coversType (rtype : U16) (d : Bytes) : Bool :=
  match d with
  | t0 :: t1 :: _ => u16OfBe t0 t1 = rtype
  | _ => false

/-! ## The signed stream -/

/-- `Vec::dedup`: consecutive equal elements collapse. -/
def dedup : List Bytes → List Bytes
  | [] => []
  | [a] => [a]
  | a :: b :: l => if a = b then dedup (b :: l) else a :: dedup (b :: l)

/-- `signed_data` (dnssec_verify.rs:85). -/
def signedData (sig : Rrsig) (owner : Name) (rclass : U16) (rdatas : List Rdata) : Bytes :=
  sig.pre ++ (dedup ((rdatas.map Rdata.emitCanonical).insertionSort (· ≤ ·))).flatMap
    (signedRecord owner sig.typeCovered rclass sig.originalTtl)

/-! ## Signatures -/

/-- `rsa_components` (dnssec_verify.rs:112): `(n, e)`. -/
def rsaComponents (pubkey : Bytes) : Option (Bytes × Bytes) :=
  let split : Option (ℕ × Bytes) :=
    match pubkey with
    | [] => none
    | b :: rest =>
      if b ≠ 0 then some (b.val, rest)
      else
        match rest with
        | l0 :: l1 :: rest => some ((u16OfBe l0 l1).val, rest)
        | _ => none
  match split with
  | none => none
  | some (expLen, rest) =>
    if expLen = 0 ∨ rest.length ≤ expLen then none
    else some (rest.drop expLen, rest.take expLen)

/-- `within_validity` (dnssec_verify.rs:133), in serial-number arithmetic. -/
def withinValidity (inception expiration now : U32) : Bool :=
  (now - inception).val < 0x80000000 && (expiration - now).val < 0x80000000

/-- `verify_signature` (dnssec_verify.rs:142). -/
def verifySignature (crypto : Crypto) (algorithm : Byte) (pubkey msg sig : Bytes) : Bool :=
  if algorithm = 8 ∨ algorithm = 10 then
    match rsaComponents pubkey with
    | none => false
    | some (n, e) =>
      crypto.rsaVerify (if algorithm = 8 then .pkcs1Sha256 else .pkcs1Sha512) n e msg sig
  else if algorithm = 13 ∨ algorithm = 14 then
    if pubkey.length ≠ (if algorithm = 13 then 64 else 96) then false
    else
      crypto.publicKeyVerify
        (if algorithm = 13 then .ecdsaP256Sha256Fixed else .ecdsaP384Sha384Fixed)
        (4 :: pubkey) msg sig
  else if algorithm = 15 then
    if pubkey.length ≠ 32 then false else crypto.publicKeyVerify .ed25519 pubkey msg sig
  else false

/-- `rrsig_owner_name` (dnssec_verify.rs:197): the owner itself, or `*.` in front
    of its last `labels` labels. -/
def rrsigOwnerName (owner : Name) (labels : Byte) : Option Name :=
  let total := owner.labelCount
  let n := labels.val
  if n > total then none
  else if n = total then some owner
  else
    let wire := [1, 42] ++ ((owner.labels.drop (total - n)).flatMap Name.labelWire ++ [0])
    match Name.parse wire 0 with
    | .error _ => none
    | .ok (name, _) => some name

/-- `verify_rrsig` (dnssec_verify.rs:230). -/
def verifyRrsig (crypto : Crypto) (owner : Name) (rclass rrsetType : U16) (rdatas : List Rdata)
    (rrsigRdata dnskeyRdata : Bytes) (now : U32) : Bool :=
  match parseRrsig rrsigRdata with
  | none => false
  | some sig =>
    if sig.typeCovered ≠ rrsetType then false
    else if !withinValidity sig.inception sig.expiration now then false
    else if !owner.isInZone sig.signer then false
    else if dnskeyRdata[3]? ≠ some sig.algorithm then false
    else
      match rrsigOwnerName owner sig.labels with
      | none => false
      | some tbsOwner =>
        verifySignature crypto sig.algorithm (dnskeyRdata.drop 4)
          (signedData sig tbsOwner rclass rdatas) sig.signature

/-! ## RRsets -/

section

variable (crypto : Crypto) (owner : Name) (rclass rtype : U16) (rdatas : List Rdata) (rrsigs trustedKeys : List Bytes) (now : U32)

/-- `validate_rrset_wc` (dnssec_verify.rs:435): the first signature and key that
    verify, and whether the signature was a wildcard expansion. -/
def validateRrsetWc : Option Bool :=
  (rrsigs.find? fun sig =>
    trustedKeys.any fun key => verifyRrsig crypto owner rclass rtype rdatas sig key now).map
    fun sig =>
      match rrsigLabelsField sig with
      | some l => l.val < owner.labelCount
      | none => false

/-- `validate_rrset` (dnssec_verify.rs:418). -/
def validateRrset : Bool :=
  (validateRrsetWc crypto owner rclass rtype rdatas rrsigs trustedKeys now).isSome

end

/-! ## DS and DNSKEY -/

/-- `Ds` (dnssec_verify.rs:280). -/
structure Ds where
  keyTag : U16
  algorithm : Byte
  digestType : Byte
  digest : Bytes
  deriving DecidableEq

/-- `ROOT_KSK_2017` (dnssec_verify.rs:293). -/
def rootKsk2017 : Bytes :=
  [0xE0, 0x6D, 0x44, 0xB8, 0x0B, 0x8F, 0x1D, 0x39, 0xA9, 0x5C, 0x0B, 0x0D, 0x7C, 0x65, 0xD0, 0x84,
    0x58, 0xE8, 0x80, 0x40, 0x9B, 0xBC, 0x68, 0x34, 0x57, 0x10, 0x42, 0x37, 0xC7, 0xF8, 0xEC, 0x8D]

/-- `ROOT_KSK_2024` (dnssec_verify.rs:295). -/
def rootKsk2024 : Bytes :=
  [0x68, 0x3D, 0x2D, 0x0A, 0xCB, 0x8C, 0x9B, 0x71, 0x2A, 0x19, 0x48, 0xB2, 0x7F, 0x74, 0x12, 0x19,
    0x29, 0x8D, 0x0A, 0x45, 0x0D, 0x61, 0x2C, 0x48, 0x3A, 0xF4, 0x44, 0xA4, 0xC0, 0xFB, 0x2B, 0x16]

/-- `ROOT_ANCHORS` (dnssec_verify.rs:298). -/
def rootAnchors : List Ds := [⟨20326, 8, 2, rootKsk2017⟩, ⟨38696, 8, 2, rootKsk2024⟩]

section

variable (crypto : Crypto) (owner : Name)

/-- `compute_ds_digest` (dnssec_verify.rs:330). -/
def computeDsDigest (dnskeyRdata : Bytes) (digestType : Byte) : Option Bytes :=
  let input := canonicalNameWire owner ++ dnskeyRdata
  if digestType = 2 then some (crypto.sha256 input)
  else if digestType = 4 then some (crypto.sha384 input)
  else none

/-- `dnskey_matches_ds` (dnssec_verify.rs:342). -/
def dnskeyMatchesDs (dnskeyRdata : Bytes) (ds : Ds) : Bool :=
  if dnskeyRdata[3]? ≠ some ds.algorithm then false
  else if keyTag dnskeyRdata ≠ ds.keyTag then false
  else
    match computeDsDigest crypto owner dnskeyRdata ds.digestType with
    | some d => d = ds.digest
    | none => false

/-- `validate_dnskey_rrset` (dnssec_verify.rs:364). -/
def validateDnskeyRrset (dnskeys rrsigs : List Bytes)
    (trustedDs : List Ds) (now : U32) : Option (List Bytes) :=
  let rdatas := dnskeys.map (Rdata.unknown Rtype.DNSKEY)
  if dnskeys.any fun key =>
      trustedDs.any (fun ds => dnskeyMatchesDs crypto owner key ds) &&
        rrsigs.any fun sig =>
          verifyRrsig crypto owner Class.IN Rtype.DNSKEY rdatas sig key now
  then some dnskeys
  else none

end

/-- `parse_ds` (dnssec_verify.rs:413). -/
def parseDs (rdata : Bytes) : Option Ds :=
  match rdata with
  | k0 :: k1 :: alg :: dt :: d :: rest => some ⟨u16OfBe k0 k1, alg, dt, d :: rest⟩
  | _ => none

end Runbound.Dnssec
