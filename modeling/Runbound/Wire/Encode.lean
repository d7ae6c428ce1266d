import Runbound.Wire.Decode
import Runbound.Wire.NameKey

/-!
# Encoding messages (`wire/encoder.rs`, `wire/name.rs`, `wire/message.rs`)

`Encoder.names` is the compression table: the lowercased wire form of every name
suffix written so far, with the offset it was written at. A suffix found there,
whatever its letter case, becomes a pointer.
-/

namespace Runbound.Wire

/-- `MAX_COMPRESS_OFFSET` (wire/encoder.rs:17). -/
def maxCompressOffset : ℕ := 0x3FFF

/-- `Encoder` (wire/encoder.rs:20); `buf` is what was written. -/
structure Encoder where
  buf : Bytes := []
  names : List (Bytes × ℕ) := []
  compress : Bool := true

namespace Encoder

/-- `Encoder::len` (wire/encoder.rs:56). -/
def len (e : Encoder) : ℕ := e.buf.length

/-- `Encoder::bytes` (wire/encoder.rs:88); `u8`, `u16` and `u32` are it on one, two
    and four octets. -/
def bytes (s : Bytes) (e : Encoder) : Encoder := { e with buf := e.buf ++ s }

/-- `Encoder::lookup_name` (wire/encoder.rs:95). -/
def lookupName (lowerWire : Bytes) (e : Encoder) : Option ℕ :=
  if e.compress then (e.names.find? fun p => p.1 = lowerWire).map Prod.snd else none

/-- `Encoder::remember_name` (wire/encoder.rs:106): an entry that is there stays. -/
def rememberName (lowerWire : Bytes) (offset : ℕ) (e : Encoder) : Encoder :=
  if e.compress && offset ≤ maxCompressOffset && (e.names.find? fun p => p.1 = lowerWire).isNone
  then { e with names := e.names ++ [(lowerWire, offset)] }
  else e

/-- `Encoder::bytes` writes at the end. -/
@[simp] theorem bytes_buf (s : Bytes) (e : Encoder) : (e.bytes s).buf = e.buf ++ s := rfl

@[simp] theorem bytes_len (s : Bytes) (e : Encoder) : (e.bytes s).len = e.len + s.length := by
  simp [len]

/-- `Encoder::remember_name` writes nothing. -/
@[simp] theorem rememberName_buf (w : Bytes) (off : ℕ) (e : Encoder) :
    (e.rememberName w off).buf = e.buf := by
  unfold rememberName
  split <;> rfl

@[simp] theorem rememberName_len (w : Bytes) (off : ℕ) (e : Encoder) :
    (e.rememberName w off).len = e.len := by simp [len]

end Encoder

/-- Two octets that point to `off`: `0xC000 | off`, the top bits of an offset being
    clear. -/
def pointerTo (off : ℕ) : Bytes := u16Be (Fin.ofNat 65536 (0xC000 + off))

/-- The `loop` of `Name::emit` (wire/name.rs:242-256) on the labels still to be
    written; the lowercased rest of the wire form is the key of the table. -/
def Name.emitLabels : List Bytes → Encoder → Encoder
  | [], e => e.bytes [0]
  | l :: ls, e =>
    let rest := lower ((l :: ls).flatMap labelWire ++ [0])
    match e.lookupName rest with
    | some off => e.bytes (pointerTo off)
    | none => emitLabels ls ((e.rememberName rest e.len).bytes (labelWire l))

/-- `Name::emit` (wire/name.rs:239). -/
def Name.emit (n : Name) (e : Encoder) : Encoder := Name.emitLabels n.labels e

/-- `Header::emit` (wire/header.rs:97). -/
def Header.emit (h : Header) (e : Encoder) : Encoder :=
  e.bytes (u16Be h.id ++ u16Be h.flags ++ u16Be h.qdcount ++ u16Be h.ancount ++ u16Be h.nscount ++
    u16Be h.arcount)

/-- `Question::emit` (wire/question.rs:42). -/
def Question.emit (q : Question) (e : Encoder) : Encoder :=
  (q.name.emit e).bytes (u16Be q.qtype ++ u16Be q.qclass)

/-- `Record::emit` (wire/record.rs:43): the data are written without compression,
    after their length (`reserve_u16` and `patch_u16_len`). -/
def Record.emit (r : Record) (e : Encoder) : Encoder :=
  (r.name.emit e).bytes (u16Be r.rtype ++ u16Be r.rclass ++ u32Be r.ttl ++
    (u16Be (Fin.ofNat 65536 r.rdata.emit.length) ++ r.rdata.emit))

namespace Message

/-- The header with the section counts of the message (wire/message.rs:100-104). -/
def countedHeader (m : Message) : Header :=
  { m.header with
    qdcount := Fin.ofNat 65536 m.questions.length
    ancount := Fin.ofNat 65536 m.answers.length
    nscount := Fin.ofNat 65536 m.authority.length
    arcount := Fin.ofNat 65536 m.additional.length }

/-- `Message::encode_with` (wire/message.rs:94) into `e`. -/
def emit (m : Message) (e : Encoder) : Encoder :=
  let e := m.countedHeader.emit e
  let e := m.questions.foldl (fun e q => q.emit e) e
  let e := m.answers.foldl (fun e r => r.emit e) e
  let e := m.authority.foldl (fun e r => r.emit e) e
  m.additional.foldl (fun e r => r.emit e) e

/-- `Message::encode` (wire/message.rs:85). -/
def encode (m : Message) : Bytes := (m.emit {}).buf

end Message

end Runbound.Wire
