import Runbound.Wire.Name

/-!
# Record data, records and messages (`wire/rdata.rs`, `wire/record.rs`, `wire/message.rs`)

A `Record` carries the fact that its data is what `Rdata::parse` builds for its
type: a structured value for the types it knows, opaque octets within the 16-bit
RDLENGTH for all others.
-/

namespace Runbound.Wire

open Rtype

/-- `Rdata` (wire/rdata.rs:25-75). -/
inductive Rdata
  | a (octets : Fin 4 → Byte)
  | aaaa (octets : Fin 16 → Byte)
  | ns (n : Name)
  | cname (n : Name)
  | ptr (n : Name)
  | soa (mname rname : Name) (serial refresh retry expire minimum : U32)
  | mx (preference : U16) (exchange : Name)
  | txt (strings : List Bytes)
  | srv (priority weight port : U16) (target : Name)
  | caa (flags : Byte) (tag value : Bytes)
  | svcb (priority : U16) (target : Name) (params : List (U16 × Bytes))
  | unknown (rtype : U16) (data : Bytes)
  deriving DecidableEq

namespace Rdata

/-- `Rdata::rtype` (wire/rdata.rs:79). -/
def rtype : Rdata → U16
  | a _ => Rtype.A
  | aaaa _ => AAAA
  | ns _ => NS
  | cname _ => CNAME
  | ptr _ => PTR
  | soa .. => SOA
  | mx .. => MX
  | txt _ => TXT
  | srv .. => SRV
  | caa .. => CAA
  | svcb .. => SVCB
  | unknown t _ => t

/-- `Rdata::emit` and `Rdata::emit_canonical` differ in how an embedded name is
    written (wire/rdata.rs:261-385); `nameWire` is that choice. -/
def emitWith (nameWire : Name → Bytes) : Rdata → Bytes
  | a octets => List.ofFn octets
  | aaaa octets => List.ofFn octets
  | ns n => nameWire n
  | cname n => nameWire n
  | ptr n => nameWire n
  | soa mname rname serial refresh retry expire minimum =>
    nameWire mname ++ nameWire rname ++ u32Be serial ++ u32Be refresh ++ u32Be retry ++
      u32Be expire ++ u32Be minimum
  | mx preference exchange => u16Be preference ++ nameWire exchange
  | txt strings => strings.flatMap fun s => Fin.ofNat 256 s.length :: s
  | srv priority weight port target =>
    u16Be priority ++ u16Be weight ++ u16Be port ++ nameWire target
  | caa flags tag value => [flags, Fin.ofNat 256 tag.length] ++ tag ++ value
  | svcb priority target params =>
    u16Be priority ++ nameWire target ++
      params.flatMap fun p => u16Be p.1 ++ u16Be (Fin.ofNat 65536 p.2.length) ++ p.2
  | unknown _ data => data

/-- `Rdata::emit` (wire/rdata.rs:261) into an uncompressed encoder. -/
def emit (rd : Rdata) : Bytes := rd.emitWith Name.wire

/-- `Rdata::emit_canonical` (wire/rdata.rs:331). -/
def emitCanonical (rd : Rdata) : Bytes := rd.emitWith fun n => lower n.wire

@[simp] theorem emitCanonical_unknown (t : U16) (d : Bytes) : (unknown t d).emitCanonical = d := rfl

/-- The types `Rdata::parse` reads into a structured value (wire/rdata.rs:174-248). -/
def structuredTypes : List U16 :=
  [Rtype.A, AAAA, NS, CNAME, PTR, SOA, MX, TXT, SRV, CAA, SVCB, HTTPS]

/-- What `Rdata::parse` can return for a record of type `t` (wire/rdata.rs:152-256):
    opaque data within RDLENGTH, empty if the type is a structured one. -/
def parsedAs (t : U16) : Rdata → Bool
  | unknown t' d => t' = t && d.length < 65536 && (d = [] || t ∉ structuredTypes)
  | svcb .. => t = SVCB || t = HTTPS
  | rd => rd.rtype = t

/-- Opaque data fit a type that has no parser of its own. -/
theorem parsedAs_unknown {t : U16} {d : Bytes} (hd : d.length < 65536) (ht : t ∉ structuredTypes) :
    (unknown t d).parsedAs t = true := by
  simp [parsedAs, hd, ht]

/-- `PartialEq for Rdata` (wire/rdata.rs:24): derived, so names are compared without regard to
    ASCII case (wire/name.rs:394). -/
def eq : Rdata → Rdata → Bool
  | a x, a y => x = y
  | aaaa x, aaaa y => x = y
  | ns x, ns y => x.eqIgnoreAsciiCase y
  | cname x, cname y => x.eqIgnoreAsciiCase y
  | ptr x, ptr y => x.eqIgnoreAsciiCase y
  | soa m r s f t e n, soa m' r' s' f' t' e' n' =>
    m.eqIgnoreAsciiCase m' && r.eqIgnoreAsciiCase r' && s = s' && f = f' && t = t' && e = e' &&
      n = n'
  | mx p x, mx p' y => p = p' && x.eqIgnoreAsciiCase y
  | txt x, txt y => x = y
  | srv p w o x, srv p' w' o' y => p = p' && w = w' && o = o' && x.eqIgnoreAsciiCase y
  | caa f t v, caa f' t' v' => f = f' && t = t' && v = v'
  | svcb p x ps, svcb p' y ps' => p = p' && x.eqIgnoreAsciiCase y && ps = ps'
  | unknown t d, unknown t' d' => t = t' && d = d'
  | _, _ => false

/-- The octets of opaque data (`if let Rdata::Unknown { data, .. }`). -/
def data? : Rdata → Option Bytes
  | unknown _ d => some d
  | _ => none

end Rdata

/-- `Record` (wire/record.rs:18). -/
structure Record where
  name : Name
  rtype : U16
  rclass : U16
  ttl : U32
  rdata : Rdata
  parsed : rdata.parsedAs rtype = true := by decide
  deriving DecidableEq

/-- An address fits the type A. -/
theorem Rdata.parsedAs_a (octets : Fin 4 → Byte) : (Rdata.a octets).parsedAs Rtype.A = true := rfl

/-- An A record. -/
def Record.address (n : Name) (ttl : U32) (octets : Fin 4 → Byte) : Record :=
  ⟨n, Rtype.A, Class.IN, ttl, .a octets, Rdata.parsedAs_a octets⟩

theorem Record.ttl_byte3_lt (r : Record) : r.ttl.val / 16777216 < 256 := u32_byte3_lt r.ttl

theorem Record.ttl_byte2_lt (r : Record) : r.ttl.val / 65536 % 256 < 256 := u32_byte2_lt r.ttl

theorem Record.ttl_low_lt (r : Record) : r.ttl.val % 65536 < 65536 := Nat.mod_lt _ (by decide)

/-- A record of a type `Rdata::parse` does not know holds opaque data. -/
theorem Record.rdata_eq_unknown (r : Record) (h : r.rtype ∉ Rdata.structuredTypes) :
    ∃ d : Bytes, r.rdata = .unknown r.rtype d ∧ d.length < 65536 := by
  have hp := r.parsed
  cases hr : r.rdata with
  | unknown t d =>
    rw [hr] at hp
    simp only [Rdata.parsedAs, Bool.and_eq_true, decide_eq_true_eq] at hp
    obtain ⟨⟨h1, h2⟩, -⟩ := hp
    exact ⟨d, by rw [h1], h2⟩
  | svcb p t ps =>
    rw [hr] at hp
    simp only [Rdata.parsedAs, Bool.or_eq_true, decide_eq_true_eq] at hp
    exact absurd (by rcases hp with h1 | h1 <;> rw [h1] <;> decide) h
  | _ =>
    rw [hr] at hp
    have ht := of_decide_eq_true hp
    rw [← ht] at h
    exact absurd (by simp [Rdata.rtype, Rdata.structuredTypes]) h

/-- `Header` (wire/header.rs:16): the raw flag word and the section counts. -/
structure Header where
  id : U16 := 0
  flags : U16 := 0
  qdcount : U16 := 0
  ancount : U16 := 0
  nscount : U16 := 0
  arcount : U16 := 0
  deriving DecidableEq, Repr

/-- `Header::rcode_low` (wire/header.rs:76). -/
def Header.rcodeLow (h : Header) : U16 := ⟨h.flags.val % 16, by omega⟩

/-- `Question` (wire/question.rs:15). -/
structure Question where
  name : Name
  qtype : U16
  qclass : U16
  deriving DecidableEq

/-- `Message` (wire/message.rs:22). -/
structure Message where
  header : Header := {}
  questions : List Question := []
  answers : List Record := []
  authority : List Record := []
  additional : List Record := []
  deriving DecidableEq

end Runbound.Wire
