import Runbound.Wire.Message
import Runbound.Wire.NameKey

/-!
# Canonical forms and signing (`dnssec_sign.rs`)

The byte strings a signer builds: canonical names, the stream an RRSIG signs,
NSEC3 hashes, type bitmaps and NSEC3 RDATA. The primitives of `ring` are the
fields of `Crypto`; nothing but the length of a SHA-1 digest is assumed of them.
-/

namespace Runbound.Dnssec

open Wire

/-- The RSA parameter sets handed to `ring` (dnssec_verify.rs:148-152). -/
inductive RsaParams
  | pkcs1Sha256
  | pkcs1Sha512
  deriving DecidableEq, Repr

/-- The `UnparsedPublicKey` algorithms handed to `ring` (dnssec_verify.rs:166-180). -/
inductive PublicKeyAlgorithm
  | ecdsaP256Sha256Fixed
  | ecdsaP384Sha384Fixed
  | ed25519
  deriving DecidableEq, Repr

/-- The primitives of `ring`. -/
structure Crypto where
  sha1 : Bytes → Bytes
  sha256 : Bytes → Bytes
  sha384 : Bytes → Bytes
  rsaVerify : RsaParams → (n e msg sig : Bytes) → Bool
  publicKeyVerify : PublicKeyAlgorithm → (key msg sig : Bytes) → Bool
  sha1_length : ∀ x, (sha1 x).length = 20

/-- `canonical_name_wire` (dnssec_sign.rs:159). -/
def canonicalNameWire (name : Name) : Bytes := lower name.wire

theorem canonicalNameWire_congr {a b : Name} (h : a.key = b.key) :
    canonicalNameWire a = canonicalNameWire b := Name.lower_wire_eq_iff.mpr h

/-- The sum of `key_tag`'s loop, from a byte at an even (`hi`) or odd offset. -/
def keyTagSum : (hi : Bool) → Bytes → ℕ
  | _, [] => 0
  | true, b :: rest => b.val * 256 + keyTagSum false rest
  | false, b :: rest => b.val + keyTagSum true rest

/-- `key_tag` (dnssec_sign.rs:143). RDATA has at most 65535 octets, so the `u32`
    accumulator of the source does not wrap. -/
def keyTag (rdata : Bytes) : U16 :=
  let ac := keyTagSum true rdata
  Fin.ofNat 65536 (ac + ac / 65536 % 65536)

/-! ## RRSIG -/

/-- `RrsigParams` (dnssec_sign.rs:169), with the algorithm the source fixes to 13. -/
structure RrsigParams where
  typeCovered : U16
  algorithm : Byte
  originalTtl : U32
  expiration : U32
  inception : U32
  keyTag : U16
  signerName : Name
  deriving DecidableEq

/-- `rrsig_labels` (dnssec_sign.rs:194): a leading `*` is not counted. -/
def rrsigLabels (owner : Name) : Byte :=
  Fin.ofNat 256 (match owner.labels with
    | [42] :: ls => ls.length
    | ls => ls.length)

/-- `rrsig_prefix` (dnssec_sign.rs:206). -/
def rrsigPrefix (p : RrsigParams) (labels : Byte) : Bytes :=
  u16Be p.typeCovered ++ [p.algorithm, labels] ++ u32Be p.originalTtl ++ u32Be p.expiration ++
    u32Be p.inception ++ u16Be p.keyTag ++ canonicalNameWire p.signerName

/-- One record of the signed stream: owner, type, class, original TTL, RDLENGTH,
    RDATA (dnssec_sign.rs:236-241, dnssec_verify.rs:101-106). -/
def signedRecord (owner : Name) (rtype rclass : U16) (ttl : U32) (rd : Bytes) : Bytes :=
  canonicalNameWire owner ++ u16Be rtype ++ u16Be rclass ++ u32Be ttl ++
    u16Be (Fin.ofNat 65536 rd.length) ++ rd

/-- `rrsig_tbs` (dnssec_sign.rs:224). -/
def rrsigTbs (p : RrsigParams) (owner : Name) (rclass : U16) (rdatas : List Rdata) : Bytes :=
  rrsigPrefix p (rrsigLabels owner) ++
    ((rdatas.map Rdata.emitCanonical).insertionSort (· ≤ ·)).flatMap
      (signedRecord owner p.typeCovered rclass p.originalTtl)

/-- `sign_rrset` (dnssec_sign.rs:235); `sign` is the key. -/
def signRrset (sign : Bytes → Option Bytes) (p : RrsigParams) (owner : Name) (rclass : U16)
    (rdatas : List Rdata) : Option Bytes :=
  (sign (rrsigTbs p owner rclass rdatas)).map fun sig => rrsigPrefix p (rrsigLabels owner) ++ sig

/-! ## NSEC3 -/

/-- The `for _ in 0..iterations` loop of `nsec3_hash`. -/
def nsec3Iterate (crypto : Crypto) (salt : Bytes) : ℕ → Bytes → Bytes
  | 0, h => h
  | k + 1, h => nsec3Iterate crypto salt k (crypto.sha1 (h ++ salt))

/-- `nsec3_hash` (dnssec_sign.rs:269). -/
def nsec3Hash (crypto : Crypto) (nameCanonicalWire salt : Bytes) (iterations : U16) : Bytes :=
  nsec3Iterate crypto salt iterations.val (crypto.sha1 (nameCanonicalWire ++ salt))

/-- `b | (0x80 >> k)`. -/
def orBit (b : Byte) (k : ℕ) : Byte :=
  ⟨b.val ||| 128 >>> k, Nat.or_lt_two_pow (n := 8) b.isLt
    (lt_of_le_of_lt (Nat.shiftRight_eq_div_pow 128 k ▸ Nat.div_le_self _ _) (by decide))⟩

/-- `bm[bit / 8] |= 0x80 >> (bit % 8)`. -/
def setBit (bm : Bytes) (bit : ℕ) : Bytes := bm.modify (bit / 8) fun b => orBit b (bit % 8)

/-- The 32-octet bitmap of one window (dnssec_sign.rs:293-296). -/
def windowBitmap (types : List U16) (win : ℕ) : Bytes :=
  ((types.filter fun t => t.val / 256 = win).map fun t => t.val % 256).foldl setBit
    (List.replicate 32 0)

/-- `type_bitmap` (dnssec_sign.rs:289): the windows in ascending order, each cut
    after its last nonzero octet. -/
def typeBitmap (types : List U16) : Bytes :=
  (List.range 256).flatMap fun win =>
    match (windowBitmap types win).rdropWhile (· = 0) with
    | [] => []
    | bits => Fin.ofNat 256 win :: Fin.ofNat 256 bits.length :: bits

/-- `nsec3_rdata` (dnssec_sign.rs:313). -/
def nsec3Rdata (flags : Byte) (iterations : U16) (salt nextHash : Bytes) (types : List U16) :
    Bytes :=
  [1, flags] ++ u16Be iterations ++ [Fin.ofNat 256 salt.length] ++ salt ++
    [Fin.ofNat 256 nextHash.length] ++ nextHash ++ typeBitmap types

end Runbound.Dnssec
