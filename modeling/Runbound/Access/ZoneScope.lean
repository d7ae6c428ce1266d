import Runbound.Lib.Text
import Runbound.Wire.NameCodec

/-!
# The zone scope of a user

Model of `RequestUser::may_manage_name` in `multiuser/mod.rs` (lines 342–352), and of
`ensure_dot` and `validate_dns_name` in `api/mod.rs` (lines 4359–4446), on the bytes of the
strings. The check compares strings: the name with a dot at its end is one of the user's
prefixes, or ends with a dot and the prefix. The record is stored under the labels that
`Name::from_ascii` reads, which knows escapes and skips empty labels.

Results:
* `fromAscii_pieces`: a text without a backslash is read as its non-empty pieces between dots.
* `mayManageName_confined`: what a user may manage is read as a name at or below one of the
  user's prefixes.

The names that `validate_dns_name` accepts have no backslash, so a suffix of the text that starts
after a dot is a suffix of the labels. They may end with several dots, which the check keeps and
`from_ascii` skips.
-/

namespace Runbound.Access

open Wire List

/-- `ensure_dot` (api/mod.rs:4359-4365). -/
def ensureDot (name : Bytes) : Bytes := if name.getLast? = some 46 then name else name ++ [46]

/-- The fields of `RequestUser` (multiuser/mod.rs:307-313) that the scope of a user depends on. -/
structure RequestUser where
  admin : Bool
  zonePrefixes : List Bytes

/-- `RequestUser::may_manage_name` (multiuser/mod.rs:342-352). -/
def RequestUser.mayManageName (user : RequestUser) (name : Bytes) : Bool :=
  user.admin || user.zonePrefixes.any fun pre =>
    ensureDot name == pre || (46 :: pre).isSuffixOf (ensureDot name)

/-- `u8::is_ascii_alphanumeric`. -/
def isAsciiAlphanumeric (b : Byte) : Bool :=
  (48 ≤ b.val && b.val ≤ 57) || (65 ≤ b.val && b.val ≤ 90) || (97 ≤ b.val && b.val ≤ 122)

/-- The loop of `validate_dns_name` over the labels (api/mod.rs:4427-4444). -/
def validateLabels : List Bytes → Except String Unit
  | [] => .ok ()
  | label :: labels =>
    if label.isEmpty then .error "Domain label cannot be empty (no consecutive or leading dots)"
    else if label.length > 63 then .error "Domain label exceeds 63 characters"
    else if label.head? = some 45 ∨ label.getLast? = some 45 then
      .error "Domain label cannot start or end with a hyphen"
    else if label.all (fun b => isAsciiAlphanumeric b || b == 45 || b == 95) then
      validateLabels labels
    else
      .error ("Domain label contains invalid characters " ++
        "(ASCII alphanumeric, hyphens, underscores only)")

/-- `validate_dns_name` (api/mod.rs:4419-4446). -/
def validateDnsName (name : Bytes) : Except String Unit :=
  let n := name.rdropWhile (· == 46)
  if n.isEmpty then .error "Domain name cannot be empty or the root zone"
  else if n.length > 253 then .error "Domain name exceeds 253 characters"
  else validateLabels (n.splitOn 46)

/-! ## The pieces of a text between dots -/

/-- The non-empty pieces of a text between its dots. -/
def pieces (s : Bytes) : List Bytes := (s.splitOn 46).filter fun l => !l.isEmpty

theorem pieces_append_dot (s t : Bytes) : pieces (s ++ 46 :: t) = pieces s ++ pieces t := by
  rw [pieces, splitOn_append_cons_self, filter_append]
  rfl

variable {s : Bytes}

@[simp] theorem pieces_nil : pieces [] = [] := rfl

theorem pieces_append_singleton (s : Bytes) : pieces (s ++ [46]) = pieces s := by
  rw [pieces_append_dot, pieces_nil, append_nil]

theorem pieces_rdropWhile (s : Bytes) : pieces (s.rdropWhile (· == 46)) = pieces s := by
  induction s using List.reverseRecOn with
  | nil => rfl
  | append_singleton s b ih =>
    by_cases hb : b = 46
    · rw [rdropWhile_concat_pos _ _ _ (by simpa using hb), ih, hb, pieces_append_singleton]
    · rw [rdropWhile_concat_neg _ _ _ (by simpa using hb)]

theorem pieces_ensureDot (s : Bytes) : pieces (ensureDot s) = pieces s := by
  rw [ensureDot]
  split_ifs
  · rfl
  · exact pieces_append_singleton s

/-- A text is as long as its labels with a length octet each, but for one. -/
theorem labelsLen_splitOn (s : Bytes) : labelsLen (s.splitOn 46) = s.length + 1 := by
  simpa [labelsLen] using congrArg length (Lib.Text.splitOn_flatMap 46 s)

theorem labelsLen_filter_le (p : Bytes → Bool) (ls : List Bytes) :
    labelsLen (ls.filter p) ≤ labelsLen ls := by
  induction ls with
  | nil => simp
  | cons l ls ih =>
    rw [filter_cons]
    split_ifs <;> simp only [labelsLen_cons] <;> omega

theorem mem_splitOn_of_mem {b : Byte} (h : b ∈ s) (hb : b ≠ 46) : ∃ l ∈ s.splitOn 46, b ∈ l := by
  have hmem : b ∈ (s.splitOn 46).flatMap fun l => l ++ [46] := by
    rw [Lib.Text.splitOn_flatMap]
    exact mem_append_left _ h
  obtain ⟨l, hl, hbl⟩ := mem_flatMap.mp hmem
  exact ⟨l, hl, by simpa [hb] using hbl⟩

/-! ## Reading a text without escapes -/

/-- A text without a backslash is read as its non-empty pieces, if they form a name. -/
theorem fromAscii_pieces (hs : (92 : Byte) ∉ s) (hok : LabelsOk (pieces s)) :
    ∃ n, Name.fromAscii s = .ok n ∧ n.labels = pieces s := by
  refine ⟨⟨pieces s, hok⟩, (Name.presents_plain hs).fromAscii_eq_ok_iff.mpr ?_, rfl⟩
  rw [Name.pieces, Name.parts_plain]
  exact filter_congr fun l _ => by cases l <;> rfl

/-! ## Accepted names -/

theorem validateLabels_eq_ok {labels : List Bytes} (h : validateLabels labels = .ok ()) :
    ∀ l ∈ labels, l.length ≤ 63 ∧ (92 : Byte) ∉ l := by
  induction labels with
  | nil => simp
  | cons l labels ih =>
    rw [validateLabels] at h
    split_ifs at h with hempty hlen hhyphen hall
    have hslash : (92 : Byte) ∉ l := by
      intro hmem
      have := all_eq_true.mp hall 92 hmem
      revert this
      decide
    intro l' hl'
    rcases mem_cons.mp hl' with rfl | hl'
    · exact ⟨by omega, hslash⟩
    · exact ih h l' hl'

theorem not_mem_ensureDot {b : Byte} (hb : b ≠ 46) (h : b ∉ s) : b ∉ ensureDot s := by
  rw [ensureDot]
  split_ifs
  · exact h
  · simp [h, hb]

theorem validateDnsName_eq_ok {name : Bytes} (h : validateDnsName name = .ok ()) :
    (92 : Byte) ∉ name ∧ LabelsOk (pieces name) := by
  simp only [validateDnsName] at h
  split_ifs at h with hempty hlen
  have hlabels := validateLabels_eq_ok h
  constructor
  · intro hmem
    have hbody : (92 : Byte) ∈ name.rdropWhile (· == 46) := by
      rw [← rdropWhile_append_rtakeWhile (p := (· == 46)) (l := name)] at hmem
      rcases mem_append.mp hmem with hmem | hmem
      · exact hmem
      · exact absurd (mem_rtakeWhile_imp hmem) (by decide)
    obtain ⟨l, hl, hbl⟩ := mem_splitOn_of_mem hbody (by decide)
    exact (hlabels l hl).2 hbl
  · rw [← pieces_rdropWhile]
    constructor
    · intro l hl
      obtain ⟨hl, hne⟩ := mem_filter.mp hl
      refine ⟨length_pos_iff.mpr (by simpa using hne), (hlabels l hl).1⟩
    · have hle := labelsLen_filter_le (fun l => !l.isEmpty) ((name.rdropWhile (· == 46)).splitOn 46)
      rw [labelsLen_splitOn] at hle
      have : maxNameWire = 255 := rfl
      show labelsLen (pieces _) + 1 ≤ _
      rw [pieces]
      omega

/-! ## The scope -/

/-- What a user may manage is a prefix of the user, or ends with a dot and one. -/
theorem mayManageName_cases {user : RequestUser} (hadmin : user.admin = false) {name : Bytes}
    (h : user.mayManageName name = true) :
    ∃ pre ∈ user.zonePrefixes,
      ensureDot name = pre ∨ ∃ front, ensureDot name = front ++ 46 :: pre := by
  rw [RequestUser.mayManageName, hadmin, Bool.false_or, any_eq_true] at h
  obtain ⟨pre, hpre, hmatch⟩ := h
  refine ⟨pre, hpre, ?_⟩
  rcases (Bool.or_eq_true _ _).mp hmatch with heq | hsuffix
  · exact Or.inl (by simpa using heq)
  · obtain ⟨front, hfront⟩ := isSuffixOf_iff_suffix.mp hsuffix
    exact Or.inr ⟨front, hfront.symm⟩

/-- The name under which an accepted record is stored is at or below one of the prefixes of the
user who may manage it. -/
theorem mayManageName_confined {user : RequestUser} (hadmin : user.admin = false) {name : Bytes}
    (hvalid : validateDnsName name = .ok ()) (hmay : user.mayManageName name = true) :
    ∃ stored, Name.fromAscii (ensureDot name) = .ok stored ∧
      ∃ pre ∈ user.zonePrefixes, ∃ zone, Name.fromAscii pre = .ok zone ∧
        zone.labels <:+ stored.labels := by
  obtain ⟨hslash, hok⟩ := validateDnsName_eq_ok hvalid
  have hslash' : (92 : Byte) ∉ ensureDot name := not_mem_ensureDot (by decide) hslash
  rw [← pieces_ensureDot] at hok
  obtain ⟨stored, hstored, hlabels⟩ := fromAscii_pieces hslash' hok
  refine ⟨stored, hstored, ?_⟩
  obtain ⟨pre, hpre, heq | ⟨front, hfront⟩⟩ := mayManageName_cases hadmin hmay
  · exact ⟨pre, hpre, stored, heq ▸ hstored, suffix_rfl⟩
  · -- the pieces of the prefix are the last pieces of the name
    rw [hfront] at hslash' hok hlabels
    rw [pieces_append_dot] at hok hlabels
    have hpreslash : (92 : Byte) ∉ pre := by
      intro hmem
      exact hslash' (mem_append_right front (mem_cons_of_mem 46 hmem))
    obtain ⟨zone, hzone, hzonelabels⟩ := fromAscii_pieces hpreslash hok.of_append_right
    refine ⟨pre, hpre, zone, hzone, ?_⟩
    rw [hlabels, hzonelabels]
    exact suffix_append _ _

/-- A user of `shop.example.` who writes a record at `www.shop.example`. -/
def shopUser : RequestUser :=
  { admin := false, zonePrefixes := [[115, 104, 111, 112, 46, 101, 120, 97, 109, 112, 108, 101, 46]] }

def shopName : Bytes :=
  [119, 119, 119, 46, 115, 104, 111, 112, 46, 101, 120, 97, 109, 112, 108, 101]

theorem mayManageName_shopUser :
    validateDnsName shopName = .ok () ∧ shopUser.mayManageName shopName = true ∧
      ∃ stored, Name.fromAscii (ensureDot shopName) = .ok stored ∧
        ∃ pre ∈ shopUser.zonePrefixes, ∃ zone, Name.fromAscii pre = .ok zone ∧
          zone.labels <:+ stored.labels :=
  ⟨by decide +kernel, by decide +kernel,
    mayManageName_confined rfl (by decide +kernel) (by decide +kernel)⟩

end Runbound.Access
