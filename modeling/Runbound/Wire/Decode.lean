import Runbound.Lib.Decoder
import Runbound.Wire.Message

/-!
# Decoding messages (`wire/decoder.rs`, `wire/header.rs`, `wire/message.rs`, `wire/edns.rs`)

`Message.parse` is the single entry point for untrusted input. A decoder is a
`Lib.Decoder` over octets, so that each function reads as its source does; the
buffer stays whole because names may point back into it.
-/

namespace Runbound.Wire

open Lib Rtype

/-- `Decoder` (wire/decoder.rs:20), with `WireResult` as the result. -/
abbrev Dec := Decoder WireError Byte

namespace Dec

/-- `Decoder::u8` (wire/decoder.rs:71). -/
def u8 : Dec Byte := Decoder.item .unexpectedEof

/-- `Decoder::u16` (wire/decoder.rs:85). -/
def u16 : Dec U16 := do
  let hi ← u8
  let lo ← u8
  return u16OfBe hi lo

/-- `Decoder::u32` (wire/decoder.rs:93). -/
def u32 : Dec U32 := do
  let a ← u8
  let b ← u8
  let c ← u8
  let d ← u8
  return u32OfBe a b c d

/-- `Decoder::slice` (wire/decoder.rs:101). -/
def slice (n : ℕ) : Dec Bytes := Decoder.slice .unexpectedEof n

end Dec

/-- `Name::parse` as a decoder. -/
def Name.decode : Dec Name := Name.parse

/-- A name that is read is what the loop is left with, and ends within the buffer. -/
theorem Name.decode_eq_ok {buf : Bytes} {pos stop : ℕ} {n : Name}
    (h : Name.decode buf pos = .ok (n, stop)) :
    Name.parseLoop buf Name.parseFuel Name.root pos none 0 = some (.ok (n, stop)) ∧
      stop ≤ buf.length := by
  obtain ⟨r, hloop⟩ := Option.isSome_iff_exists.mp (Name.parseLoop_root_isSome buf pos)
  rw [Name.decode, Name.parse_eq hloop] at h
  cases r with
  | error e => cases h
  | ok r =>
    rw [Name.finish] at h
    split_ifs at h with hle
    cases h
    exact ⟨hloop, by omega⟩

/-! ## The header -/

namespace Header

/-- Bit `k` of the flag word (`flag_accessors!`, wire/header.rs:37-52). -/
def bit (k : ℕ) (h : Header) : Bool := h.flags.val / 2 ^ k % 2 = 1

theorem setBit_lt (f : U16) (k : ℕ) (v : Bool) (hk : k < 16) :
    f.val / 2 ^ (k + 1) * 2 ^ (k + 1) + v.toNat * 2 ^ k + f.val % 2 ^ k < 65536 := by
  interval_cases k <;> cases v <;> simp only [Bool.toNat_false, Bool.toNat_true] <;> omega

/-- The flag word with bit `k` replaced by `v`. -/
def setBit (k : ℕ) (hk : k < 16) (v : Bool) (h : Header) : Header :=
  { h with flags := ⟨_, setBit_lt h.flags k v hk⟩ }

/-- `Header::qr` (wire/header.rs:56). -/
def qr : Header → Bool := bit 15

/-- `Header::tc` (wire/header.rs:58). -/
def tc : Header → Bool := bit 9

/-- `Header::rd` (wire/header.rs:59). -/
def rd : Header → Bool := bit 8

/-- `Header::ad` (wire/header.rs:61). -/
def ad : Header → Bool := bit 5

/-- `Header::cd` (wire/header.rs:62). -/
def cd : Header → Bool := bit 4

/-- `Header::set_qr` (wire/header.rs:56). -/
def setQr : Bool → Header → Header := setBit 15 (by decide)

/-- `Header::set_aa` (wire/header.rs:57). -/
def setAa : Bool → Header → Header := setBit 10 (by decide)

/-- `Header::set_tc` (wire/header.rs:58). -/
def setTc : Bool → Header → Header := setBit 9 (by decide)

/-- `Header::set_rd` (wire/header.rs:59). -/
def setRd : Bool → Header → Header := setBit 8 (by decide)

/-- `Header::set_ra` (wire/header.rs:60). -/
def setRa : Bool → Header → Header := setBit 7 (by decide)

/-- `Header::set_ad` (wire/header.rs:61). -/
def setAd : Bool → Header → Header := setBit 5 (by decide)

/-- `Header::opcode` (wire/header.rs:66). -/
def opcode (h : Header) : ℕ := h.flags.val / 2048 % 16

theorem setOpcode_lt (f : U16) (op : ℕ) :
    f.val / 32768 * 32768 + op % 16 * 2048 + f.val % 2048 < 65536 := by omega

/-- `Header::set_opcode` (wire/header.rs:70). -/
def setOpcode (op : ℕ) (h : Header) : Header := { h with flags := ⟨_, setOpcode_lt h.flags op⟩ }

/-- `Header::set_rcode_low` (wire/header.rs:80). -/
def setRcodeLow (rc : U16) (h : Header) : Header :=
  { h with flags := ⟨h.flags.val / 16 * 16 + rc.val % 16, by omega⟩ }

/-- `Header::parse` (wire/header.rs:85). -/
def parse : Dec Header := do
  let id ← Dec.u16
  let flags ← Dec.u16
  let qdcount ← Dec.u16
  let ancount ← Dec.u16
  let nscount ← Dec.u16
  let arcount ← Dec.u16
  return { id, flags, qdcount, ancount, nscount, arcount }

end Header

/-! ## Questions and records -/

/-- `Question::parse` (wire/question.rs:31). -/
def Question.parse : Dec Question := do
  let name ← Name.decode
  let qtype ← Dec.u16
  let qclass ← Dec.u16
  return { name, qtype, qclass }

namespace Rdata

/-- One character-string of a TXT record that ends at `stop` (wire/rdata.rs:202-206). -/
def charString (stop : ℕ) : Dec Bytes := do
  let len ← Dec.u8
  let pos ← Decoder.position
  if pos + len.val > stop then Decoder.fail .badCharString else Dec.slice len.val

/-- One parameter of an SVCB record that ends at `stop` (wire/rdata.rs:231-237). -/
def svcParam (stop : ℕ) : Dec (U16 × Bytes) := do
  let key ← Dec.u16
  let vlen ← Dec.u16
  let pos ← Decoder.position
  if pos + vlen.val > stop then Decoder.fail .badRdataLength
  else
    let value ← Dec.slice vlen.val
    return (key, value)

/-- The `match` of `Rdata::parse` on the record type (wire/rdata.rs:174-248). -/
def parseBody (t : U16) (rdlength stop : ℕ) : Dec Rdata :=
  if t = Rtype.A then do
    let s ← Dec.slice 4
    return .a fun i => s.getD i 0
  else if t = AAAA then do
    let s ← Dec.slice 16
    return .aaaa fun i => s.getD i 0
  else if t = NS then do
    let n ← Name.decode
    return .ns n
  else if t = CNAME then do
    let n ← Name.decode
    return .cname n
  else if t = PTR then do
    let n ← Name.decode
    return .ptr n
  else if t = SOA then do
    let mname ← Name.decode
    let rname ← Name.decode
    let serial ← Dec.u32
    let refresh ← Dec.u32
    let retry ← Dec.u32
    let expire ← Dec.u32
    let minimum ← Dec.u32
    return .soa mname rname serial refresh retry expire minimum
  else if t = MX then do
    let preference ← Dec.u16
    let exchange ← Name.decode
    return .mx preference exchange
  else if t = TXT then do
    let strings ← Decoder.whileBefore stop (charString stop) rdlength
    return .txt strings
  else if t = SRV then do
    let priority ← Dec.u16
    let weight ← Dec.u16
    let port ← Dec.u16
    let target ← Name.decode
    return .srv priority weight port target
  else if t = CAA then do
    let flags ← Dec.u8
    let taglen ← Dec.u8
    let pos ← Decoder.position
    if pos + taglen.val > stop then Decoder.fail .badRdataLength
    else
      let tag ← Dec.slice taglen.val
      let value ← Dec.slice (stop - (pos + taglen.val))
      return .caa flags tag value
  else if t = SVCB ∨ t = HTTPS then do
    let priority ← Dec.u16
    let target ← Name.decode
    let params ← Decoder.whileBefore stop (svcParam stop) rdlength
    return .svcb priority target params
  else do
    let data ← Dec.slice rdlength
    return .unknown t data

/-- `Rdata::parse` (wire/rdata.rs:152). -/
def parse (t rdlength : U16) : Dec Rdata := fun buf start =>
  let stop := start + rdlength.val
  if stop > buf.length then .error .badRdataLength
  else if rdlength.val = 0 then .ok (.unknown t [], start)
  else
    match parseBody t rdlength.val stop buf start with
    | .error e => .error e
    | .ok (rd, pos) => if pos ≠ stop then .error .badRdataLength else .ok (rd, pos)

end Rdata

/-- `Record::parse` (wire/record.rs:27). -/
def Record.parse : Dec Record := do
  let name ← Name.decode
  let rtype ← Dec.u16
  let rclass ← Dec.u16
  let ttl ← Dec.u32
  let rdlength ← Dec.u16
  let rdata ← Rdata.parse rtype rdlength
  if parsed : rdata.parsedAs rtype = true then
    return { name, rtype, rclass, ttl, rdata, parsed }
  else Decoder.fail .badRdataLength

/-! ## Messages -/

namespace Message

/-- The sections of a message, in order (wire/message.rs:63-80). -/
def decode : Dec Message := do
  let header ← Header.parse
  let questions ← Decoder.times Question.parse header.qdcount.val
  let answers ← Decoder.times Record.parse header.ancount.val
  let authority ← Decoder.times Record.parse header.nscount.val
  let additional ← Decoder.times Record.parse header.arcount.val
  return { header, questions, answers, authority, additional }

/-- `Message::parse` (wire/message.rs:62): octets after the last record are ignored. -/
def parse (buf : Bytes) : Except WireError Message := (decode buf 0).map Prod.fst

/-- `Message::first_question` (wire/message.rs:122). -/
def firstQuestion (m : Message) : Option Question := m.questions.head?

end Message

/-! ## EDNS -/

/-- `Edns` (wire/edns.rs:24). -/
structure Edns where
  udpPayload : U16 := 1232
  extRcode : Byte := 0
  version : Byte := 0
  flags : U16 := 0
  options : List (U16 × Bytes) := []
  deriving DecidableEq

namespace Edns

/-- `Edns::dnssec_ok` (wire/edns.rs:52). -/
def dnssecOk (e : Edns) : Bool := e.flags.val / 32768 % 2 = 1

/-- `Edns::set_dnssec_ok` (wire/edns.rs:57). -/
def setDnssecOk (on : Bool) (e : Edns) : Edns :=
  { e with flags := ⟨on.toNat * 32768 + e.flags.val % 32768, by
      cases on <;> simp only [Bool.toNat_false, Bool.toNat_true] <;> omega⟩ }

/-- The options of an OPT record (wire/edns.rs:76-91). Each takes four octets at
    least, so as many iterations as octets suffice. -/
def parseOptions : ℕ → Bytes → Except WireError (List (U16 × Bytes))
  | fuel + 1, c0 :: c1 :: l0 :: l1 :: rest =>
    let len := (u16OfBe l0 l1).val
    if len > rest.length then .error .badOpt
    else (parseOptions fuel (rest.drop len)).map fun opts => (u16OfBe c0 c1, rest.take len) :: opts
  | _, [] => .ok []
  | _, _ => .error .badOpt

/-- `Edns::from_record` (wire/edns.rs:66). -/
def fromRecord (rec : Record) : Except WireError (Option Edns) :=
  if rec.rtype ≠ OPT then .ok none
  else
    let ttl := rec.ttl.val
    let options := match rec.rdata with
      | .unknown _ data => parseOptions data.length data
      | _ => .ok []
    options.map fun options => some
      { udpPayload := rec.rclass, extRcode := ⟨ttl / 16777216, rec.ttl_byte3_lt⟩,
        version := ⟨ttl / 65536 % 256, rec.ttl_byte2_lt⟩,
        flags := ⟨ttl % 65536, rec.ttl_low_lt⟩, options }

/-- The octets of the options (wire/edns.rs:104-109). -/
def optionData (e : Edns) : Bytes :=
  e.options.flatMap fun o => u16Be o.1 ++ u16Be (Fin.ofNat 65536 o.2.length) ++ o.2

/-- EDNS options fit the OPT record they are put in. -/
theorem optRecord_parsed {data : Bytes} (h : data.length < 65536) :
    (Rdata.unknown OPT data).parsedAs OPT = true :=
  Rdata.parsedAs_unknown h (by decide)

/-- `Edns::to_record` (wire/edns.rs:103). -/
def toRecord (e : Edns) (h : e.optionData.length < 65536) : Record where
  name := Name.root
  rtype := OPT
  rclass := max e.udpPayload 512
  ttl := ⟨e.extRcode.val * 16777216 + e.version.val * 65536 + e.flags.val, by omega⟩
  rdata := .unknown OPT e.optionData
  parsed := optRecord_parsed h

end Edns

namespace Message

/-- The loop of `Message::edns` (wire/message.rs:128-133). -/
def ednsOf : List Record → Except WireError (Option Edns)
  | [] => .ok none
  | rec :: rest =>
    match Edns.fromRecord rec with
    | .error e => .error e
    | .ok (some ed) => .ok (some ed)
    | .ok none => ednsOf rest

/-- `Message::edns` (wire/message.rs:127). -/
def edns (m : Message) : Except WireError (Option Edns) := ednsOf m.additional

/-- `msg.edns().ok().flatten()`. -/
def edns? (m : Message) : Option Edns := m.edns.toOption.join

/-- `msg.edns().ok().flatten().map(|e| e.dnssec_ok()).unwrap_or(false)`. -/
def doBit (m : Message) : Bool := (m.edns?.map Edns.dnssecOk).getD false

end Message

end Runbound.Wire
