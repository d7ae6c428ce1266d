import Mathlib.Data.List.DropRight
import Mathlib.Data.List.Infix
import Mathlib.Data.List.Lex
import Mathlib.Data.List.Sort
import Mathlib.Data.Nat.Bitwise
import Mathlib.Tactic

/-!
# Octets, machine words and DNS constants

Types shared by the models of `src/dns/wire` and of the DNSSEC modules.

* A Rust `u8` is `Byte := Fin 256`; `Vec<u8>` and `&[u8]` are `Bytes := List Byte`.
* `u16` and `u32` are `Fin (2^16)` and `Fin (2^32)`. Subtraction on `Fin` is
  `wrapping_sub`; no modelled function adds or multiplies at these types.
* `Ord` for `[u8]` is the lexicographic order of `List Byte`.
-/

namespace Runbound.Wire

/-- An octet: Rust's `u8`. -/
abbrev Byte := Fin 256

/-- A string of octets: `Vec<u8>` and `&[u8]`. -/
abbrev Bytes := List Byte

/-- Rust's `u16`. -/
abbrev U16 := Fin 65536

/-- Rust's `u32`. -/
abbrev U32 := Fin 4294967296

instance neZero_byte : NeZero 256 := ⟨by decide⟩

instance neZero_u16 : NeZero 65536 := ⟨by decide⟩

instance neZero_u32 : NeZero 4294967296 := ⟨by decide⟩

instance neZero_four : NeZero 4 := ⟨by decide⟩

instance neZero_eight : NeZero 8 := ⟨by decide⟩

instance neZero_sixteen : NeZero 16 := ⟨by decide⟩

instance lawfulBEq_bytes : LawfulBEq Bytes := inferInstance

/-! ## Big-endian words -/

theorem u16_hi_lt (x : U16) : x.val / 256 < 256 := by omega

/-- `u16::from_be_bytes([hi, lo])`. -/
def u16OfBe (hi lo : Byte) : U16 := ⟨hi.val * 256 + lo.val, by omega⟩

/-- `u16::to_be_bytes`. -/
def u16Be (x : U16) : Bytes := [⟨x.val / 256, u16_hi_lt x⟩, ⟨x.val % 256, by omega⟩]

theorem u32_byte3_lt (x : U32) : x.val / 16777216 < 256 := by omega

theorem u32_byte2_lt (x : U32) : x.val / 65536 % 256 < 256 := by omega

/-- `u32::from_be_bytes([a, b, c, d])`. -/
def u32OfBe (a b c d : Byte) : U32 :=
  ⟨((a.val * 256 + b.val) * 256 + c.val) * 256 + d.val, by omega⟩

/-- `u32::to_be_bytes`. -/
def u32Be (x : U32) : Bytes :=
  [⟨x.val / 16777216, u32_byte3_lt x⟩, ⟨x.val / 65536 % 256, u32_byte2_lt x⟩,
    ⟨x.val / 256 % 256, by omega⟩, ⟨x.val % 256, by omega⟩]

@[simp] theorem u16Be_length (x : U16) : (u16Be x).length = 2 := rfl

@[simp] theorem u32Be_length (x : U32) : (u32Be x).length = 4 := rfl

/-- Big-endian octets determine the word. -/
theorem u16Be_injective {x y : U16} (h : u16Be x = u16Be y) : x = y := by
  simp only [u16Be, List.cons.injEq, Fin.mk.injEq] at h
  ext; omega

theorem u32Be_injective {x y : U32} (h : u32Be x = u32Be y) : x = y := by
  simp only [u32Be, List.cons.injEq, Fin.mk.injEq] at h
  ext; omega

/-- Two octets are those of the word they make. -/
theorem u16Be_u16OfBe (hi lo : Byte) : u16Be (u16OfBe hi lo) = [hi, lo] := by
  simp only [u16Be, u16OfBe, List.cons.injEq, and_true, Fin.ext_iff]
  omega

theorem u32Be_u32OfBe (a b c d : Byte) : u32Be (u32OfBe a b c d) = [a, b, c, d] := by
  simp only [u32Be, u32OfBe, List.cons.injEq, and_true, Fin.ext_iff]
  omega

theorem u32OfBe_u32Be (x : U32) :
    u32OfBe ⟨x.val / 16777216, by omega⟩ ⟨x.val / 65536 % 256, by omega⟩
      ⟨x.val / 256 % 256, by omega⟩ ⟨x.val % 256, by omega⟩ = x := by
  ext; simp only [u32OfBe]; omega

/-- A word is what its two octets make. -/
theorem u16OfBe_u16Be (x : U16) : u16OfBe ⟨x.val / 256, by omega⟩ ⟨x.val % 256, by omega⟩ = x := by
  ext; simp only [u16OfBe]; omega

/-! ## Lists -/

/-- In two lists related element by element, each member of the first has a relative. -/
theorem exists_of_forall₂ {α β : Type*} {R : α → β → Prop} {as : List α} {bs : List β}
    (h : List.Forall₂ R as bs) {a : α} (ha : a ∈ as) : ∃ b ∈ bs, R a b := by
  induction h with
  | nil => cases ha
  | cons h _ ih =>
    rcases List.mem_cons.mp ha with rfl | ha
    · exact ⟨_, List.mem_cons_self, h⟩
    · obtain ⟨b, hb, hab⟩ := ih ha
      exact ⟨b, List.mem_cons_of_mem _ hb, hab⟩

/-! ## Comparison -/

/-- `Ord::cmp`. -/
def ordCmp {α : Type*} [LinearOrder α] (a b : α) : Ordering :=
  if a < b then .lt else if b < a then .gt else .eq

theorem ordCmp_swap {α : Type*} [LinearOrder α] (a b : α) : (ordCmp a b).swap = ordCmp b a :=
  cmp_swap a b

/-! ## ASCII case -/

/-- `u8::to_ascii_lowercase`. -/
def toAsciiLowercase (b : Byte) : Byte :=
  if h : 65 ≤ b.val ∧ b.val ≤ 90 then ⟨b.val + 32, by omega⟩ else b

theorem toAsciiLowercase_of_lt {b : Byte} (h : b.val < 65) : toAsciiLowercase b = b := by
  unfold toAsciiLowercase; rw [dif_neg (by omega)]

/-- Lower-casing an octet twice changes nothing more. -/
@[simp] theorem toAsciiLowercase_idem (b : Byte) :
    toAsciiLowercase (toAsciiLowercase b) = toAsciiLowercase b := by
  by_cases h : 65 ≤ b.val ∧ b.val ≤ 90
  · have : toAsciiLowercase b = ⟨b.val + 32, by omega⟩ := by
      unfold toAsciiLowercase; rw [dif_pos h]
    rw [this, toAsciiLowercase, dif_neg (by simp only; omega)]
  · have : toAsciiLowercase b = b := by unfold toAsciiLowercase; rw [dif_neg h]
    rw [this, this]

/-- A byte string with every octet passed through `to_ascii_lowercase`. -/
def lower (bs : Bytes) : Bytes := bs.map toAsciiLowercase

@[simp] theorem lower_length (bs : Bytes) : (lower bs).length = bs.length := by simp [lower]

@[simp] theorem lower_nil : lower [] = [] := rfl

@[simp] theorem lower_cons (b : Byte) (bs : Bytes) :
    lower (b :: bs) = toAsciiLowercase b :: lower bs := rfl

@[simp] theorem lower_append (a b : Bytes) : lower (a ++ b) = lower a ++ lower b := by
  simp [lower]

/-- Lower-casing a string twice changes nothing more. -/
@[simp] theorem lower_lower (bs : Bytes) : lower (lower bs) = lower bs := by
  simp [lower, Function.comp_def]

/-! ## Record types, classes and response codes (`wire/consts.rs`) -/

namespace Rtype

/-- An IPv4 address (wire/consts.rs:14). -/
def A : U16 := 1

/-- A name server (wire/consts.rs:15). -/
def NS : U16 := 2

/-- An alias (wire/consts.rs:16). -/
def CNAME : U16 := 5

/-- The start of a zone (wire/consts.rs:17). -/
def SOA : U16 := 6

/-- A pointer to a name (wire/consts.rs:18). -/
def PTR : U16 := 12

/-- A mail exchange (wire/consts.rs:20). -/
def MX : U16 := 15

/-- Text (wire/consts.rs:21). -/
def TXT : U16 := 16

/-- An IPv6 address (wire/consts.rs:22). -/
def AAAA : U16 := 28

/-- A service location (wire/consts.rs:23). -/
def SRV : U16 := 33

/-- The EDNS pseudo-record (wire/consts.rs:25). -/
def OPT : U16 := 41

/-- A delegation signer (wire/consts.rs:26). -/
def DS : U16 := 43

/-- A signature (wire/consts.rs:28). -/
def RRSIG : U16 := 46

/-- A denial of existence (wire/consts.rs:29). -/
def NSEC : U16 := 47

/-- A zone key (wire/consts.rs:30). -/
def DNSKEY : U16 := 48

/-- A hashed denial of existence (wire/consts.rs:31). -/
def NSEC3 : U16 := 50

/-- The hash parameters of a zone (wire/consts.rs:32). -/
def NSEC3PARAM : U16 := 51

/-- A service binding (wire/consts.rs:34). -/
def SVCB : U16 := 64

/-- A service binding for HTTPS (wire/consts.rs:35). -/
def HTTPS : U16 := 65

/-- A transaction signature (wire/consts.rs:40). -/
def TSIG : U16 := 250

/-- The query for an incremental transfer (wire/consts.rs:39). -/
def IXFR : U16 := 251

/-- The query for a whole zone (wire/consts.rs:38). -/
def AXFR : U16 := 252

/-- The query for every type (wire/consts.rs:37). -/
def ANY : U16 := 255

/-- A certification authority authorization (wire/consts.rs:36). -/
def CAA : U16 := 257

end Rtype

namespace Class

/-- The Internet (wire/consts.rs:45). -/
def IN : U16 := 1

/-- Chaosnet, used for server identity (wire/consts.rs:46). -/
def CH : U16 := 3

/-- The class of deletions in an UPDATE (wire/consts.rs:48). -/
def NONE : U16 := 254

/-- Every class (wire/consts.rs:49). -/
def ANY : U16 := 255

end Class

namespace Rcode

/-- No error (wire/consts.rs:63). -/
def NOERROR : U16 := 0

/-- The query could not be read (wire/consts.rs:64). -/
def FORMERR : U16 := 1

/-- The server failed (wire/consts.rs:65). -/
def SERVFAIL : U16 := 2

/-- The name does not exist (wire/consts.rs:66). -/
def NXDOMAIN : U16 := 3

/-- The kind of query is not supported (wire/consts.rs:67). -/
def NOTIMP : U16 := 4

/-- The query is refused by policy (wire/consts.rs:68). -/
def REFUSED : U16 := 5

end Rcode

namespace Opcode

/-- A query (wire/consts.rs:54). -/
def QUERY : ℕ := 0

/-- A dynamic update (wire/consts.rs:58). -/
def UPDATE : ℕ := 5

end Opcode

end Runbound.Wire
