import Mathlib.Data.List.Basic
import Mathlib.Data.List.DropRight
import Mathlib.Tactic

/-!
# Text

Strings as lists of characters, with the operations on them that text formats are read and
written with: trimming, splitting at the first separator, and unsigned decimals.

Results:
* `trimBoth_eq_self`, `trim_eq_self`: what has nothing to trim at its ends stays.
* `splitOnce_append`, `splitOnce_eq_some`: the text before the first separator has none.
* `parseNat_decimal`: a number that is printed is read back.
-/

namespace Runbound.Lib

open List

/-- A string. -/
abbrev Text : Type := List Char

/-- `s` without the `c`s at its end. -/
def trimEndMatches {α : Type} [DecidableEq α] (c : α) (s : List α) : List α :=
  s.rdropWhile (· = c)

namespace Text

/-- The characters with the property White_Space. -/
def isWhitespace (c : Char) : Bool :=
  (9 ≤ c.toNat && c.toNat ≤ 13) || c.toNat = 0x20 || c.toNat = 0x85 || c.toNat = 0xA0 ||
    c.toNat = 0x1680 || (0x2000 ≤ c.toNat && c.toNat ≤ 0x200A) || c.toNat = 0x2028 ||
    c.toNat = 0x2029 || c.toNat = 0x202F || c.toNat = 0x205F || c.toNat = 0x3000

/-- `s` without the characters of `p` at its ends. -/
def trimBoth (p : Char → Bool) (s : Text) : Text := (s.dropWhile p).rdropWhile p

/-- `s` without white space at its ends. -/
def trim (s : Text) : Text := trimBoth isWhitespace s

/-- The texts before and after the first `c`. -/
def splitOnce (c : Char) : Text → Option (Text × Text)
  | [] => none
  | d :: s => if d = c then some ([], s) else (splitOnce c s).map fun p => (d :: p.1, p.2)

/-- The value of decimal digits that follow digits of value `acc`. -/
def digits (acc : ℕ) : Text → Option ℕ
  | [] => some acc
  | c :: s => if c.isDigit then digits (10 * acc + (c.toNat - 48)) s else none

/-- An unsigned decimal below `bound`: a sign `+` may stand before it, and there is a digit. -/
def parseNat (bound : ℕ) (s : Text) : Option ℕ :=
  let body := if s.head? = some '+' then s.tail else s
  if body = [] then none else (digits 0 body).filter (· < bound)

/-- The decimal digits of `n`. -/
def decimal (n : ℕ) : Text := Nat.toDigits 10 n

/-! ## Trimming -/

theorem trimBoth_eq_self {p : Char → Bool} {s : Text} (hfirst : ∀ c ∈ s.head?, p c = false)
    (hlast : ∀ c ∈ s.getLast?, p c = false) : trimBoth p s = s := by
  have hdrop : s.dropWhile p = s := by
    cases s with
    | nil => rfl
    | cons c s => exact dropWhile_cons_of_neg (by simp [hfirst c rfl])
  rw [trimBoth, hdrop, rdropWhile_eq_self_iff]
  intro hne
  have := hlast _ (getLast?_eq_getLast_of_ne_nil hne)
  simp [this]

theorem trim_eq_self {s : Text} (h : ∀ c ∈ s, isWhitespace c = false) : trim s = s :=
  trimBoth_eq_self (fun c hc => h c (mem_of_mem_head? hc)) fun c hc => h c (mem_of_mem_getLast? hc)

/-! ## Splitting -/

variable {c : Char}

theorem splitOnce_append {a : Text} (h : c ∉ a) (b : Text) :
    splitOnce c (a ++ c :: b) = some (a, b) := by
  induction a with
  | nil => simp [splitOnce]
  | cons d a ih =>
    have hd : d ≠ c := fun heq => h (by simp [heq])
    have ha : c ∉ a := fun hc => h (mem_cons_of_mem d hc)
    simp [splitOnce, hd, ih ha]

theorem splitOnce_eq_none_iff {s : Text} : splitOnce c s = none ↔ c ∉ s := by
  induction s with
  | nil => simp [splitOnce]
  | cons d s ih =>
    by_cases hd : d = c
    · simp [splitOnce, hd]
    · simp [splitOnce, hd, ih, Ne.symm hd]

theorem splitOnce_eq_some {s a b : Text} (h : splitOnce c s = some (a, b)) :
    c ∉ a ∧ s = a ++ c :: b := by
  induction s generalizing a b with
  | nil => cases h
  | cons d s ih =>
    rw [splitOnce] at h
    split_ifs at h with hd
    · cases h
      simp [hd]
    · obtain ⟨p, hp, heq⟩ := Option.map_eq_some_iff.mp h
      cases heq
      obtain ⟨hnot, rfl⟩ := ih hp
      refine ⟨?_, rfl⟩
      simp only [mem_cons, not_or]
      exact ⟨fun heq => hd heq.symm, hnot⟩

/-! ## Decimals -/

/-- Digits after others count tens of what those were worth. -/
theorem digits_append {s t : Text} {acc n : ℕ} (h : digits acc s = some n) :
    digits acc (s ++ t) = digits n t := by
  induction s generalizing acc with
  | nil =>
    cases h
    rfl
  | cons c s ih =>
    rw [digits] at h
    split_ifs at h with hc
    rw [cons_append, digits, if_pos hc]
    exact ih h

theorem digits_digitChar {d : ℕ} (hd : d < 10) (acc : ℕ) :
    digits acc [Nat.digitChar d] = some (10 * acc + d) := by
  have hdigit : (Nat.digitChar d).isDigit = true := by interval_cases d <;> decide
  have hval : (Nat.digitChar d).toNat - 48 = d := by interval_cases d <;> decide
  rw [digits, if_pos hdigit, digits, hval]

theorem digits_decimal (n : ℕ) : digits 0 (decimal n) = some n := by
  -- on the number without its last digit
  induction n using Nat.strong_induction_on with
  | _ n ih =>
    by_cases hn : n < 10
    · rw [decimal, Nat.toDigits_of_lt_base hn, digits_digitChar hn]
      simp
    · have hmod : n % 10 < 10 := Nat.mod_lt n (by decide)
      have hsplit : decimal n = decimal (n / 10) ++ [Nat.digitChar (n % 10)] := by
        have := Nat.toDigits_append_toDigits (b := 10) (n := n / 10) (d := n % 10) (by decide)
          (by omega) hmod
        rw [Nat.toDigits_of_lt_base hmod, Nat.div_add_mod] at this
        exact this.symm
      rw [hsplit, digits_append (ih (n / 10) (by omega)), digits_digitChar hmod]
      congr 1
      omega

theorem isDigit_of_mem_decimal {n : ℕ} (h : c ∈ decimal n) : c.isDigit = true :=
  Nat.isDigit_of_mem_toDigits (by decide) (by decide) h

theorem decimal_ne_nil (n : ℕ) : decimal n ≠ [] := by
  intro h
  have := digits_decimal n
  rw [h] at this
  cases this
  cases h

theorem head?_decimal_ne {n : ℕ} (h : c.isDigit = false) : (decimal n).head? ≠ some c := by
  intro heq
  have := isDigit_of_mem_decimal (mem_of_mem_head? heq)
  rw [h] at this
  cases this

/-- A number that is printed is read back. -/
theorem parseNat_decimal {bound n : ℕ} (h : n < bound) : parseNat bound (decimal n) = some n := by
  have hsign : ¬ (decimal n).head? = some '+' := head?_decimal_ne (by decide)
  rw [parseNat, if_neg hsign, if_neg (decimal_ne_nil n), digits_decimal]
  simp [h]

theorem lt_of_parseNat {bound n : ℕ} {s : Text} (h : parseNat bound s = some n) : n < bound := by
  rw [parseNat] at h
  split_ifs at h
  · exact of_decide_eq_true (Option.filter_eq_some_iff.mp h).2
  · exact of_decide_eq_true (Option.filter_eq_some_iff.mp h).2

theorem toNat_of_isDigit (h : c.isDigit = true) : 48 ≤ c.toNat ∧ c.toNat ≤ 57 := by
  simp only [Char.isDigit, Bool.and_eq_true, decide_eq_true_eq] at h
  exact ⟨h.1, h.2⟩

theorem isWhitespace_of_isDigit (h : c.isDigit = true) : isWhitespace c = false := by
  have hrange := toNat_of_isDigit h
  simp only [isWhitespace, Bool.or_eq_false_iff, Bool.and_eq_false_iff, decide_eq_false_iff_not]
  omega

theorem trim_decimal (n : ℕ) : trim (decimal n) = decimal n :=
  trim_eq_self fun _ hc => isWhitespace_of_isDigit (isDigit_of_mem_decimal hc)

/-- Parts that each end in a separator are the joined parts and a last separator. -/
theorem flatMap_append_separator {α : Type} (c : α) {parts : List (List α)} (h : parts ≠ []) :
    parts.flatMap (fun s => s ++ [c]) = [c].intercalate parts ++ [c] := by
  induction parts with
  | nil => exact absurd rfl h
  | cons s parts ih =>
    by_cases hnil : parts = []
    · simp [hnil]
    · rw [flatMap_cons, ih hnil, intercalate_cons_of_ne_nil hnil]
      simp

theorem splitOn_flatMap {α : Type} [DecidableEq α] (c : α) (s : List α) :
    (s.splitOn c).flatMap (fun l => l ++ [c]) = s ++ [c] := by
  rw [flatMap_append_separator c (splitOn_ne_nil c s), intercalate_splitOn]

end Text

end Runbound.Lib
