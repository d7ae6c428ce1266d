import Runbound.Wire.Basic

/-!
# Domain names (`wire/name.rs`)

`Name` stores the decompressed wire form `<len><label> … <len><label> 0`. Every
constructor of the source (`root`, `parse`, `from_ascii`, `parent`) keeps labels
of 1 to 63 octets and at most 255 octets in all, so the model stores the labels
together with these two bounds, and `Name.wire` is the stored byte string.

* `Name.parse`: decoding with compression pointers. The source's `loop` is run
  with fuel, and a run that uses it up has no result; `parseLoop_isSome` shows
  that the bounds of the source (255 octets, 127 pointers) end the loop before.
* `Name.toAscii`, `Name.fromAscii`: presentation format, on the bytes of the
  string.
* `Name.canonicalCmp`, `Name.isInZone`, `Name.eqIgnoreAsciiCase`.
-/

namespace Runbound.Wire

open List

/-- The decode failures of `wire/error.rs` that the modelled functions return. -/
inductive WireError
  | unexpectedEof
  | labelTooLong (len : Byte)
  | nameTooLong
  | badPointer
  | tooManyPointers
  | reservedLabelType
  | badRdataLength
  | badCharString
  | badOpt
  | badName
  deriving DecidableEq, Repr

/-- `MAX_NAME_WIRE` (wire/name.rs:32). -/
def maxNameWire : ℕ := 255

/-- `MAX_LABEL` (wire/name.rs:34). -/
def maxLabel : ℕ := 63

/-- `MAX_POINTERS` (wire/name.rs:36). -/
def maxPointers : ℕ := 127

/-- Octets taken by the labels of a name, length octets included, the root
    octet not. -/
def labelsLen (ls : List Bytes) : ℕ := (ls.map fun l => l.length + 1).sum

@[simp] theorem labelsLen_nil : labelsLen [] = 0 := rfl

@[simp] theorem labelsLen_cons (l : Bytes) (ls : List Bytes) :
    labelsLen (l :: ls) = l.length + 1 + labelsLen ls := by simp [labelsLen]

@[simp] theorem labelsLen_append (as bs : List Bytes) :
    labelsLen (as ++ bs) = labelsLen as + labelsLen bs := by simp [labelsLen]

/-- A list of labels that forms a name. -/
structure LabelsOk (ls : List Bytes) : Prop where
  label : ∀ l ∈ ls, 0 < l.length ∧ l.length ≤ maxLabel
  len : labelsLen ls + 1 ≤ maxNameWire

instance (ls : List Bytes) : Decidable (LabelsOk ls) :=
  decidable_of_iff ((∀ l ∈ ls, 0 < l.length ∧ l.length ≤ maxLabel) ∧ labelsLen ls + 1 ≤ maxNameWire)
    ⟨fun h => ⟨h.1, h.2⟩, fun h => ⟨h.label, h.len⟩⟩

theorem LabelsOk.nil : LabelsOk [] := ⟨by simp, by simp [maxNameWire]⟩

/-- A name stays one without its first label. -/
theorem LabelsOk.tail {l : Bytes} {ls : List Bytes} (h : LabelsOk (l :: ls)) : LabelsOk ls :=
  ⟨fun x hx => h.label x (mem_cons_of_mem _ hx), by
    have := h.len; simp only [labelsLen_cons] at this; omega⟩

theorem LabelsOk.of_append_left {as bs : List Bytes} (h : LabelsOk (as ++ bs)) : LabelsOk as := by
  refine ⟨fun l hl => h.label l (mem_append_left bs hl), ?_⟩
  have hlen := h.len
  rw [labelsLen_append] at hlen
  omega

theorem LabelsOk.of_append_right {as bs : List Bytes} (h : LabelsOk (as ++ bs)) : LabelsOk bs := by
  refine ⟨fun l hl => h.label l (mem_append_right as hl), ?_⟩
  have hlen := h.len
  rw [labelsLen_append] at hlen
  omega

/-- A DNS domain name (wire/name.rs:47-50). -/
structure Name where
  labels : List Bytes
  ok : LabelsOk labels
  deriving DecidableEq

namespace Name

/-- A name is its labels. -/
theorem ext_labels {a b : Name} (h : a.labels = b.labels) : a = b := by
  cases a; cases b; cases h; rfl

/-- A label with its length octet. -/
def labelWire (l : Bytes) : Bytes := Fin.ofNat 256 l.length :: l

/-- The stored wire form (wire/name.rs:70). -/
def wire (n : Name) : Bytes := n.labels.flatMap labelWire ++ [0]

/-- `Name::len` (wire/name.rs:76). -/
def len (n : Name) : ℕ := n.wire.length

/-- `labelsLen` counts the octets of the labels as they are written. -/
theorem flatMap_labelWire_length (ls : List Bytes) :
    (ls.flatMap labelWire).length = labelsLen ls := by
  induction ls with
  | nil => rfl
  | cons l ls ih => simp only [flatMap_cons, length_append, ih, labelWire,
      length_cons, labelsLen_cons]

@[simp] theorem wire_length (n : Name) : n.wire.length = labelsLen n.labels + 1 := by
  rw [wire, List.length_append, flatMap_labelWire_length]; rfl

/-- `Name::root` (wire/name.rs:55). -/
def root : Name := ⟨[], LabelsOk.nil⟩

/-- `Name::is_root` (wire/name.rs:63). -/
def isRoot (n : Name) : Bool := n.wire.length == 1

/-- Only the root takes a single octet. -/
theorem isRoot_iff (n : Name) : n.isRoot = true ↔ n.labels = [] := by
  simp only [isRoot, wire_length]
  cases n.labels with
  | nil => simp
  | cons l ls => simp

/-- `Name::label_count` (wire/name.rs:89). -/
def labelCount (n : Name) : ℕ := n.labels.length

/-- `Name::parent` (wire/name.rs:101). -/
def parent (n : Name) : Option Name :=
  match n with
  | ⟨[], _⟩ => none
  | ⟨_ :: ls, h⟩ => some ⟨ls, h.tail⟩

/-- `ancestors` on a list of labels. -/
def ancestorsFrom : (ls : List Bytes) → LabelsOk ls → List Name
  | [], h => [⟨[], h⟩]
  | l :: ls, h => ⟨l :: ls, h⟩ :: ancestorsFrom ls h.tail

/-- `n`, its parent, …, the root: the values `cur` takes in the source's loops
    that start at `n` and step with `cur = cur.parent()`. -/
def ancestors (n : Name) : List Name := ancestorsFrom n.labels n.ok

theorem ancestors_eq (n : Name) :
    n.ancestors = n :: match n.parent with
      | none => []
      | some p => p.ancestors := by
  obtain ⟨ls, h⟩ := n
  cases ls <;> rfl

/-- `Name::labels_lower` (wire/name.rs:113). -/
def labelsLower (n : Name) : List Bytes := n.labels.map lower

/-- The first non-`Equal` comparison of a `zip` loop. -/
def firstDiff : List (Bytes × Bytes) → Option Ordering
  | [] => none
  | (la, lb) :: rest =>
    match ordCmp la lb with
    | .eq => firstDiff rest
    | ord => some ord

/-- `Name::canonical_cmp` (wire/name.rs:127). -/
def canonicalCmp (a b : Name) : Ordering :=
  match firstDiff (a.labelsLower.reverse.zip b.labelsLower.reverse) with
  | some ord => ord
  | none => ordCmp a.labelsLower.length b.labelsLower.length

/-- `Name::eq_ignore_ascii_case` (wire/name.rs:386). -/
def eqIgnoreAsciiCase (a b : Name) : Bool :=
  a.wire.length == b.wire.length &&
    (a.wire.zip b.wire).all fun p => toAsciiLowercase p.1 == toAsciiLowercase p.2

/-- `Name::is_in_zone` (wire/name.rs:142): some value of `cur` equals `zone`. -/
def isInZone (n zone : Name) : Bool := n.ancestors.any fun cur => cur.eqIgnoreAsciiCase zone

/-! ## Decoding -/

/-- One more label at the end of a name, within the bounds. -/
def push (n : Name) (l : Bytes) : Option Name :=
  if h : LabelsOk (n.labels ++ [l]) then some ⟨n.labels ++ [l], h⟩ else none

/-- `push` adds the label last, and succeeds where the result is a name. -/
theorem push_eq_some {acc acc' : Name} {l : Bytes} :
    acc.push l = some acc' ↔ acc'.labels = acc.labels ++ [l] := by
  unfold push
  constructor
  · intro h
    split_ifs at h with hok
    cases h; rfl
  · intro h
    have hok : LabelsOk (acc.labels ++ [l]) := by rw [← h]; exact acc'.ok
    rw [dif_pos hok]
    exact congrArg some (ext_labels h.symm)

/-- The `loop` of `Name::parse` (wire/name.rs:183-230), for at most `fuel`
    iterations: the result the loop is left with, or `none` if it is still running.
    `acc` is `wire` without its root octet; the three cases are the two top bits of
    the length octet. -/
def parseLoop (buf : Bytes) :
    ℕ → Name → ℕ → Option ℕ → ℕ → Option (Except WireError (Name × ℕ))
  | 0, _, _, _, _ => none
  | fuel + 1, acc, pos, resume, pointers =>
    match buf[pos]? with
    | none => some (.error .unexpectedEof)
    | some len =>
      match len.val / 64 with
      | 0 =>
        if len.val = 0 then some (.ok (acc, resume.getD (pos + 1)))
        else if pos + 1 + len.val > buf.length then some (.error .unexpectedEof)
        else
          match acc.push ((buf.drop (pos + 1)).take len.val) with
          | none => some (.error .nameTooLong)
          | some acc => parseLoop buf fuel acc (pos + 1 + len.val) resume pointers
      | 3 =>
        match buf[pos + 1]? with
        | none => some (.error .unexpectedEof)
        | some b2 =>
          let target := len.val % 64 * 256 + b2.val
          if pointers + 1 > maxPointers then some (.error .tooManyPointers)
          else if target ≥ pos then some (.error .badPointer)
          else parseLoop buf fuel acc target (some (resume.getD (pos + 2))) (pointers + 1)
      | _ => some (.error .reservedLabelType)

/-- Iterations that suffice for `parseLoop`: each one adds an octet to the name
    or counts a pointer. -/
def parseFuel : ℕ := maxNameWire + maxPointers + 2

/-- The loop returns: each label takes octets from the 255 of a name, and each
    pointer one of the 127. -/
theorem parseLoop_isSome {buf : Bytes} :
    ∀ {fuel : ℕ} {acc : Name} {pos pointers : ℕ} {resume : Option ℕ},
      (maxNameWire - labelsLen acc.labels) + (maxPointers - pointers) < fuel →
      (parseLoop buf fuel acc pos resume pointers).isSome := by
  intro fuel
  induction fuel with
  | zero => intro _ _ _ _ h; omega
  | succ fuel ih =>
    intro acc pos pointers resume hfuel
    rw [parseLoop]
    cases hb : buf[pos]? with
    | none => rfl
    | some len =>
      simp only
      split
      · split_ifs with h0 hend
        · rfl
        · rfl
        · cases hp : acc.push ((buf.drop (pos + 1)).take len.val) with
          | none => rfl
          | some acc' =>
            have hl := push_eq_some.mp hp
            have hok := acc'.ok.len
            have hlen : labelsLen acc'.labels =
                labelsLen acc.labels + (((buf.drop (pos + 1)).take len.val).length + 1) := by
              rw [hl]; simp
            exact ih (by simp only [hlen] at *; omega)
      · cases hb2 : buf[pos + 1]? with
        | none => rfl
        | some b2 =>
          simp only
          split_ifs with hptr htgt
          · rfl
          · rfl
          · exact ih (by omega)
      · rfl

/-- The fuel of `parse` suffices, wherever it starts. -/
theorem parseLoop_root_isSome (buf : Bytes) (pos : ℕ) :
    (parseLoop buf parseFuel root pos none 0).isSome :=
  parseLoop_isSome (by simp [root, parseFuel])

/-- What `Name::parse` hands on of the loop's result: the error, or the name with the
    decoder moved by `Decoder::seek` (wire/name.rs:232, wire/decoder.rs:61). -/
def finish (buf : Bytes) : Except WireError (Name × ℕ) → Except WireError (Name × ℕ)
  | .error e => .error e
  | .ok (n, resume) => if resume > buf.length then .error .unexpectedEof else .ok (n, resume)

/-- `Name::parse` on a decoder over `buf` at offset `pos` (wire/name.rs:176-234):
    the name and the offset the decoder is left at. -/
def parse (buf : Bytes) (pos : ℕ) : Except WireError (Name × ℕ) :=
  finish buf
    ((parseLoop buf parseFuel root pos none 0).get (parseLoop_root_isSome buf pos))

/-- `Name::parse` hands on what its loop returned. -/
theorem parse_eq {buf : Bytes} {pos : ℕ} {r : Except WireError (Name × ℕ)}
    (h : parseLoop buf parseFuel root pos none 0 = some r) : parse buf pos = finish buf r := by
  simp only [parse, h, Option.get_some]

/-! ## Presentation format -/

/-- One octet of a label in `Name::to_ascii` (wire/name.rs:290-302). -/
def escapeByte (b : Byte) : Bytes :=
  if b = 46 ∨ b = 92 then [92, b]
  else if 0x21 ≤ b.val ∧ b.val ≤ 0x7E then [b]
  else [92, Fin.ofNat 256 (48 + b.val / 100), Fin.ofNat 256 (48 + b.val / 10 % 10),
    Fin.ofNat 256 (48 + b.val % 10)]

/-- `Name::to_ascii` (wire/name.rs:281). -/
def toAscii (n : Name) : Bytes :=
  if n.isRoot then [46] else n.labels.flatMap fun l => l.flatMap escapeByte ++ [46]

/-- `flush` of `Name::from_ascii` (wire/name.rs:321-340). -/
def flush (label : Bytes) (acc : Name) : Except WireError Name :=
  if label = [] then .ok acc
  else if label.length > maxLabel then .error (.labelTooLong (Fin.ofNat 256 label.length))
  else
    match acc.push label with
    | none => .error .nameTooLong
    | some acc => .ok acc

/-- `u8::is_ascii_digit`. -/
def isAsciiDigit (b : Byte) : Bool := 48 ≤ b.val && b.val ≤ 57

/-- The `while i < bytes.len()` loop of `Name::from_ascii` and its final `flush`
    (wire/name.rs:342-380), on the bytes not yet read, `label` and `wire`. -/
def fromAsciiLoop : Bytes → Bytes → Name → Except WireError Name
  | [], label, acc => flush label acc
  | c :: rest, label, acc =>
    if c = 46 then
      match flush label acc with
      | .error e => .error e
      | .ok acc => fromAsciiLoop rest [] acc
    else if c = 92 then
      match rest with
      | [] => .error .badName
      | d1 :: rest =>
        if isAsciiDigit d1 then
          match rest with
          | d2 :: d3 :: rest =>
            if isAsciiDigit d2 && isAsciiDigit d3 then
              let v := (d1.val - 48) * 100 + (d2.val - 48) * 10 + (d3.val - 48)
              if v > 255 then .error .badName
              else fromAsciiLoop rest (label ++ [Fin.ofNat 256 v]) acc
            else .error .badName
          | _ => .error .badName
        else fromAsciiLoop rest (label ++ [d1]) acc
    else fromAsciiLoop rest (label ++ [c]) acc

/-- `Name::from_ascii` (wire/name.rs:312). -/
def fromAscii (s : Bytes) : Except WireError Name :=
  if s = [] ∨ s = [46] then .ok root else fromAsciiLoop s [] root

end Name

end Runbound.Wire
