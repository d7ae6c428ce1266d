import Runbound.Wire.Decode

/-!
# The query parser of the fast path (`dns/wire_builder.rs`, `dns/simd.rs`)

`parseQuery` reads a datagram without decoding it: the question name is everything
up to the first zero octet after the header, and the OPT record is looked for among
the `arcount` records that follow the question, wherever the additional section is.

* `parseQuery_eq_some`: what a datagram that `parseQuery` accepts looks like.
-/

namespace Runbound.FastPath

open Wire List Rtype

/-- `DNS_HDR` (dns/wire_builder.rs:29). -/
def dnsHdr : ℕ := 12

/-- The octet at `i`; callers check the bound. -/
def octet (b : Bytes) (i : ℕ) : Byte := b.getD i 0

/-- `u16::from_be_bytes([b[i], b[i + 1]])`. -/
def be16 (b : Bytes) (i : ℕ) : U16 := u16OfBe (octet b i) (octet b (i + 1))

/-- `find_zero` (dns/simd.rs:318): the first zero among the first 255 octets. -/
def findZero (b : Bytes) : Option ℕ := (b.take 255).findIdx? (· = 0)

/-- `normalize_query_qname` (dns/wire_builder.rs:228). -/
def normalizeQueryQname (wire : Bytes) : Bytes := lower wire

/-- `EdnsInfo` (dns/wire_builder.rs:57). -/
structure EdnsInfo where
  udpPayload : U16
  doBit : Bool
  deriving DecidableEq

/-- `WireQuery` (dns/wire_builder.rs:66). -/
structure WireQuery where
  id : U16
  qnameWire : Bytes
  qtype : U16
  qclass : U16
  rd : Bool
  edns : Option EdnsInfo
  deriving DecidableEq

/-- Octets taken by the owner name of a record if it is the root label or starts with a
    compression pointer (dns/wire_builder.rs:167-174). -/
def shortName (c : Byte) : Option ℕ :=
  if c.val = 0 then some 1 else if c.val / 64 = 3 then some 2 else none

/-- The scan of `parse_opt_rr` (dns/wire_builder.rs:156) over `n` records from `pos`. -/
def parseOptRr (b : Bytes) : ℕ → ℕ → Option EdnsInfo
  | 0, _ => none
  | n + 1, pos =>
    match b[pos]?.bind shortName with
    | none => none
    | some k =>
      let pos := pos + k
      if pos + 4 > b.length then none
      else if be16 b pos = OPT then
        if pos + 10 > b.length then none
        else some { udpPayload := be16 b (pos + 2), doBit := (octet b (pos + 6)).val ≥ 128 }
      else if pos + 10 > b.length then none
      else parseOptRr b n (pos + 10 + (be16 b (pos + 8)).val)

/-- `parse_query` (dns/wire_builder.rs:96). -/
def parseQuery (b : Bytes) : Option WireQuery :=
  if b.length < dnsHdr + 5 then none
  else
    let flags := be16 b 2
    if flags.val ≥ 32768 then none
    else if be16 b 4 ≠ 1 then none
    else
      match findZero (b.drop dnsHdr) with
      | none => none
      | some z =>
        let qnameEnd := dnsHdr + z + 1
        if b.length < qnameEnd + 4 then none
        else some
          { id := be16 b 0
            qnameWire := (b.drop dnsHdr).take (z + 1)
            qtype := be16 b qnameEnd
            qclass := be16 b (qnameEnd + 2)
            rd := flags.val / 256 % 2 = 1
            edns := parseOptRr b (be16 b 10).val (qnameEnd + 4) }

variable {b : Bytes}

theorem parseQuery_eq_some {wq : WireQuery} (h : parseQuery b = some wq) :
    17 ≤ b.length ∧ (be16 b 2).val < 32768 ∧ be16 b 4 = 1 ∧
      ∃ z, findZero (b.drop 12) = some z ∧ 12 + z + 5 ≤ b.length ∧
        wq = ⟨be16 b 0, (b.drop 12).take (z + 1), be16 b (12 + z + 1), be16 b (12 + z + 1 + 2),
          (be16 b 2).val / 256 % 2 = 1, parseOptRr b (be16 b 10).val (12 + z + 1 + 4)⟩ := by
  unfold parseQuery dnsHdr at h
  dsimp only at h
  split_ifs at h with h1 h2 h3
  cases hz : findZero (b.drop 12) with
  | none => simp [hz] at h
  | some z =>
    simp only [hz] at h
    split_ifs at h with h4
    exact ⟨by omega, by omega, by simpa using h3, z, rfl, by omega, (Option.some.inj h).symm⟩

end Runbound.FastPath
