import Runbound.Dnssec.Sign

/-!
# Denial of existence (`dnssec_denial.rs`)

What a set of validated NSEC or NSEC3 records is taken to prove. The loops of
the source that walk `cur = cur.parent()` are recursions over `Name.ancestors`.
-/

namespace Runbound.Dnssec

open Wire Rtype

/-- `NSEC3_MAX_ITERATIONS` (dnssec_denial.rs:23). -/
def nsec3MaxIterations : U16 := 100

/-- The scan of `type_in_bitmap` for one window, block by block. -/
def bitmapScan (window : Byte) (offset : ℕ) : ℕ → Bytes → Bool
  | 0, _ => false
  | fuel + 1, w :: len :: rest =>
    if rest.length < len.val then false
    else if w = window then
      match (rest.take len.val)[offset / 8]? with
      | some b => b.val &&& 128 >>> (offset % 8) ≠ 0
      | none => false
    else bitmapScan window offset fuel (rest.drop len.val)
  | _ + 1, _ => false

/-- `type_in_bitmap` (dnssec_denial.rs:27). Every block takes two octets, so the
    length of the bitmap bounds the number of blocks. -/
def typeInBitmap (bm : Bytes) (rtype : U16) : Bool :=
  bitmapScan ⟨rtype.val / 256, u16_hi_lt rtype⟩ (rtype.val % 256) (bm.length + 1) bm

/-! ## NSEC -/

/-- `parse_nsec` (dnssec_denial.rs:47). -/
def parseNsec (rdata : Bytes) : Option (Name × Bytes) :=
  match Name.parse rdata 0 with
  | .error _ => none
  | .ok (next, consumed) =>
    if consumed > rdata.length then none else some (next, rdata.drop consumed)

/-- `nsec_covers` (dnssec_denial.rs:63). -/
def nsecCovers (owner next name : Name) : Bool :=
  if owner.canonicalCmp next = .lt then
    owner.canonicalCmp name = .lt && name.canonicalCmp next = .lt
  else
    owner.canonicalCmp name = .lt || name.canonicalCmp next = .lt

/-- `nsec_proves_nodata` (dnssec_denial.rs:77). -/
def nsecProvesNodata (owner : Name) (bitmap : Bytes) (qname : Name) (qtype : U16) : Bool :=
  owner.eqIgnoreAsciiCase qname && !typeInBitmap bitmap qtype &&
    (qtype = CNAME || !typeInBitmap bitmap CNAME)

/-- `NXNAME` (dnssec_denial.rs:87). -/
def NXNAME : U16 := 128

/-- `nsec_bitmap_has_nxname` (dnssec_denial.rs:92). -/
def nsecBitmapHasNxname (rdata : Bytes) : Bool :=
  match parseNsec rdata with
  | some (_, bitmap) => typeInBitmap bitmap NXNAME
  | none => false

/-- `Nsec` (dnssec_denial.rs:99). -/
structure Nsec where
  owner : Name
  next : Name
  bitmap : Bytes
  deriving DecidableEq

/-- `Nsec::parse` (dnssec_denial.rs:106). -/
def Nsec.parse (owner : Name) (rdata : Bytes) : Option Nsec :=
  (parseNsec rdata).map fun p => ⟨owner, p.1, p.2⟩

/-- `nsec_covers(&n.owner, &n.next, name)`. -/
def Nsec.covers (n : Nsec) (name : Name) : Bool := nsecCovers n.owner n.next name

/-- `nsec_proves_nonexistence` (dnssec_denial.rs:115). -/
def nsecProvesNonexistence (nsecs : List Nsec) (qname : Name) : Bool :=
  nsecs.any fun n => n.covers qname

/-! ## NSEC3 -/

/-- One digit of base32hex, either case (dnssec_denial.rs:130-134). -/
def base32hexDigit (c : Byte) : Option ℕ :=
  if 48 ≤ c.val ∧ c.val ≤ 57 then some (c.val - 48)
  else if 65 ≤ c.val ∧ c.val ≤ 86 then some (c.val - 65 + 10)
  else if 97 ≤ c.val ∧ c.val ≤ 118 then some (c.val - 97 + 10)
  else none

/-- The loop of `base32hex_decode`; `buf` is the `u64` shift register. -/
def base32hexLoop : Bytes → (buf bits : ℕ) → Bytes → Option Bytes
  | [], _, _, out => some out
  | c :: rest, buf, bits, out =>
    match base32hexDigit c with
    | none => none
    | some v =>
      let buf := (buf * 32 + v) % 2 ^ 64
      let bits := bits + 5
      if bits ≥ 8 then
        base32hexLoop rest buf (bits - 8) (out ++ [Fin.ofNat 256 (buf / 2 ^ (bits - 8))])
      else base32hexLoop rest buf bits out

/-- `base32hex_decode` (dnssec_denial.rs:125). -/
def base32hexDecode (input : Bytes) : Option Bytes := base32hexLoop input 0 0 []

/-- A character of `ALPHABET` (dnssec_denial.rs:149). -/
def base32hexChar (v : ℕ) : Byte :=
  if v < 10 then Fin.ofNat 256 (48 + v) else Fin.ofNat 256 (55 + v)

/-- The loop of `base32hex_encode`: the inner `while bits >= 5` writes `bits / 5`
    characters and leaves `bits % 5` bits. -/
def base32hexEncodeLoop : Bytes → (buf bits : ℕ) → Bytes → Bytes
  | [], buf, bits, out =>
    if bits > 0 then out ++ [base32hexChar (buf * 2 ^ (5 - bits) % 32)] else out
  | b :: rest, buf, bits, out =>
    let buf := (buf * 256 + b.val) % 2 ^ 64
    let bits := bits + 8
    base32hexEncodeLoop rest buf (bits % 5)
      (out ++ (List.range (bits / 5)).map fun i =>
        base32hexChar (buf / 2 ^ (bits - 5 * (i + 1)) % 32))

/-- `base32hex_encode` (dnssec_denial.rs:147). -/
def base32hexEncode (input : Bytes) : Bytes := base32hexEncodeLoop input 0 0 []

/-- `Nsec3` (dnssec_denial.rs:168). -/
structure Nsec3 where
  hashAlg : Byte
  flags : Byte
  iterations : U16
  salt : Bytes
  ownerHash : Bytes
  nextHash : Bytes
  bitmap : Bytes
  deriving DecidableEq

namespace Nsec3

/-- `Nsec3::parse` (dnssec_denial.rs:179). -/
def parse (owner : Name) (rdata : Bytes) : Option Nsec3 :=
  match rdata with
  | hashAlg :: flags :: i0 :: i1 :: saltLen :: rest =>
    if rest.length < saltLen.val + 1 then none
    else
      match rest.drop saltLen.val with
      | [] => none
      | hashLen :: tail =>
        if tail.length < hashLen.val then none
        else
          match owner.labelsLower with
          | [] => none
          | first :: _ =>
            match base32hexDecode first with
            | none => none
            | some ownerHash =>
              some ⟨hashAlg, flags, u16OfBe i0 i1, rest.take saltLen.val, ownerHash,
                tail.take hashLen.val, tail.drop hashLen.val⟩
  | _ => none

/-- `Nsec3::opt_out` (dnssec_denial.rs:208). -/
def optOut (n : Nsec3) : Bool := n.flags.val &&& 1 ≠ 0

/-- `Nsec3::hash` (dnssec_denial.rs:219). -/
def hash (crypto : Crypto) (n : Nsec3) (name : Name) : Option Bytes :=
  if n.hashAlg ≠ 1 ∨ n.iterations > nsec3MaxIterations then none
  else some (nsec3Hash crypto (canonicalNameWire name) n.salt n.iterations)

/-- `Nsec3::matches` (dnssec_denial.rs:228). -/
def matchesName (crypto : Crypto) (n : Nsec3) (name : Name) : Bool :=
  n.hash crypto name = some n.ownerHash

/-- `cover_hash` (dnssec_denial.rs:241). -/
def coverHash (owner next h : Bytes) : Bool :=
  if owner < next then owner < h && h < next else owner < h || h < next

/-- `Nsec3::covers` (dnssec_denial.rs:234). -/
def covers (crypto : Crypto) (n : Nsec3) (name : Name) : Bool :=
  match n.hash crypto name with
  | none => false
  | some h => coverHash n.ownerHash n.nextHash h

end Nsec3

/-- `nsec3_proves_nodata` (dnssec_denial.rs:251). -/
def nsec3ProvesNodata (crypto : Crypto) (nsec3s : List Nsec3) (qname : Name) (qtype : U16) : Bool :=
  nsec3s.any fun n3 =>
    n3.matchesName crypto qname && !typeInBitmap n3.bitmap qtype &&
      (qtype = CNAME || !typeInBitmap n3.bitmap CNAME)

/-- The bitmap of a delegation without DS: NS, but neither DS nor SOA. -/
def bitmapNoDs (bitmap : Bytes) : Bool :=
  typeInBitmap bitmap NS && !typeInBitmap bitmap DS && !typeInBitmap bitmap SOA

/-- `nsec3_proves_no_ds` (dnssec_denial.rs:263). -/
def nsec3ProvesNoDs (crypto : Crypto) (nsec3s : List Nsec3) (name : Name) : Bool :=
  (nsec3s.any fun n3 => n3.matchesName crypto name && bitmapNoDs n3.bitmap) ||
    nsec3s.any fun n3 => n3.optOut && n3.covers crypto name

/-- `nsec_proves_no_ds` (dnssec_denial.rs:275). -/
def nsecProvesNoDs (nsecs : List Nsec) (name : Name) : Bool :=
  nsecs.any fun nz => nz.owner.eqIgnoreAsciiCase name && bitmapNoDs nz.bitmap

/-- `wildcard_of` (dnssec_denial.rs:285). -/
def wildcardOf (name : Name) : Option Name := (Name.fromAscii ([42, 46] ++ name.toAscii)).toOption

/-! ## NXDOMAIN -/

/-- `qname` and its ancestors up to the zone apex, or `none` if the root is passed
    without meeting it (dnssec_denial.rs:295-305). -/
def chainTo (zone : Name) : List Name → Option (List Name)
  | [] => none
  | cur :: up =>
    if cur.eqIgnoreAsciiCase zone then some [cur]
    else (chainTo zone up).map (cur :: ·)

/-- The `for i in 1..chain.len()` loop: the first proper ancestor with a matching
    NSEC3, and the name one label below it. -/
def closestEncloser (crypto : Crypto) (nsec3s : List Nsec3) : List Name → Option (Name × Name)
  | nextCloser :: ce :: up =>
    if nsec3s.any fun n3 => n3.matchesName crypto ce then some (ce, nextCloser)
    else closestEncloser crypto nsec3s (ce :: up)
  | _ => none

/-- `nsec3_proves_nxdomain` (dnssec_denial.rs:293). -/
def nsec3ProvesNxdomain (crypto : Crypto) (nsec3s : List Nsec3) (qname zone : Name) : Bool :=
  match chainTo zone qname.ancestors with
  | none => false
  | some chain =>
    match closestEncloser crypto nsec3s chain with
    | none => false
    | some (ce, nextCloser) =>
      let ncCovered := nsec3s.any fun n3 => n3.covers crypto nextCloser
      match wildcardOf ce with
      | none => false
      | some wc => ncCovered && nsec3s.any fun n3 => n3.covers crypto wc

/-- `nsec3_proves_name_nonexistent` (dnssec_denial.rs:329). -/
def nsec3ProvesNameNonexistent (crypto : Crypto) (nsec3s : List Nsec3) (qname zone : Name) : Bool :=
  match chainTo zone qname.ancestors with
  | none => false
  | some chain =>
    match closestEncloser crypto nsec3s chain with
    | none => false
    | some (_, nextCloser) => nsec3s.any fun n3 => n3.covers crypto nextCloser

/-- The `while let Some(parent) = cur.parent()` loop of `nsec_proves_nxdomain`, over
    the proper ancestors of `qname`. -/
def wildcardCovered (nsecs : List Nsec) (zone : Name) : List Name → Bool
  | [] => false
  | parent :: up =>
    (parent.isInZone zone &&
      match wildcardOf parent with
      | some wc => nsecs.any fun nz => nz.covers wc
      | none => false) ||
    (!parent.eqIgnoreAsciiCase zone && wildcardCovered nsecs zone up)

/-- `nsec_proves_nxdomain` (dnssec_denial.rs:356). -/
def nsecProvesNxdomain (nsecs : List Nsec) (qname zone : Name) : Bool :=
  nsecProvesNonexistence nsecs qname && wildcardCovered nsecs zone qname.ancestors.tail

end Runbound.Dnssec
