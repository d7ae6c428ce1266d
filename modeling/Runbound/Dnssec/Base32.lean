import Runbound.Dnssec.Denial

/-!
# NSEC3 owner labels

`base32hex_encode` writes the label and `base32hex_decode` reads it back, in
either case of letters. Both work on groups of five octets and eight characters;
hashes have four such groups.

* `base32hexDecode_lower_encode`: decoding undoes encoding on whole groups.
-/

namespace Runbound.Dnssec

open Wire List

theorem base32hexDigit_lower_char {v : ℕ} (h : v < 32) :
    base32hexDigit (toAsciiLowercase (base32hexChar v)) = some v := by
  revert v; decide +kernel

theorem base32hexEncodeLoop_group (b0 b1 b2 b3 b4 : Byte) (rest : Bytes) (buf : ℕ) (out : Bytes) :
    ∃ buf', base32hexEncodeLoop (b0 :: b1 :: b2 :: b3 :: b4 :: rest) buf 0 out =
      base32hexEncodeLoop rest buf' 0 (out ++
        [b0.val / 8, b0.val % 8 * 4 + b1.val / 64, b1.val / 2 % 32, b1.val % 2 * 16 + b2.val / 16,
          b2.val % 16 * 2 + b3.val / 128, b3.val / 4 % 32, b3.val % 4 * 8 + b4.val / 32,
          b4.val % 32].map base32hexChar) := by
  simp only [base32hexEncodeLoop, range_succ, range_zero, map_cons, map_nil, nil_append,
    append_assoc, cons_append, Nat.reduceAdd, Nat.reduceMod]
  refine ⟨_, congrArg (base32hexEncodeLoop rest _ 0) (congrArg (out ++ ·) ?_)⟩
  simp only [List.cons.injEq, and_true]
  -- what the shift register holds of older octets is above the bits a character takes
  refine ⟨?_, ?_, ?_, ?_, ?_, ?_, ?_, ?_⟩ <;> apply congrArg base32hexChar <;> omega

theorem base32hexLoop_group (v0 v1 v2 v3 v4 v5 v6 v7 : ℕ) (rest : Bytes) (buf : ℕ) (out : Bytes)
    (h0 : v0 < 32) (h1 : v1 < 32) (h2 : v2 < 32) (h3 : v3 < 32) (h4 : v4 < 32) (h5 : v5 < 32)
    (h6 : v6 < 32) (h7 : v7 < 32) :
    ∃ buf', base32hexLoop (lower ([v0, v1, v2, v3, v4, v5, v6, v7].map base32hexChar) ++ rest)
        buf 0 out =
      base32hexLoop rest buf' 0 (out ++
        [v0 * 8 + v1 / 4, v1 % 4 * 64 + v2 * 2 + v3 / 16, v3 % 16 * 16 + v4 / 2,
          v4 % 2 * 128 + v5 * 4 + v6 / 8, v6 % 8 * 32 + v7].map (Fin.ofNat 256)) := by
  simp only [map_cons, map_nil, lower_cons, cons_append, nil_append, base32hexLoop,
    base32hexDigit_lower_char, h0, h1, h2, h3, h4, h5, h6, h7, append_assoc]
  refine ⟨_, congrArg (base32hexLoop rest _ 0) (congrArg (out ++ ·) ?_)⟩
  simp only [List.cons.injEq, and_true]
  refine ⟨?_, ?_, ?_, ?_, ?_⟩ <;> apply Fin.ext <;> simp only [Fin.val_ofNat] <;> omega

/-- Groups are written and read back one by one; the shift registers may hold
    anything when a group starts. -/
theorem base32hexLoop_encodeLoop : ∀ (n : ℕ) {input : Bytes} (buf : ℕ) (out : Bytes),
    input.length = 5 * n →
    ∃ cs, base32hexEncodeLoop input buf 0 out = out ++ cs ∧ cs.length = 8 * n ∧
      ∀ buf' out', base32hexLoop (lower cs) buf' 0 out' = some (out' ++ input) := by
  intro n
  induction n with
  | zero =>
    intro input buf out h
    have hnil : input = [] := eq_nil_of_length_eq_zero h
    subst hnil
    exact ⟨[], by simp [base32hexEncodeLoop], rfl, by simp [base32hexLoop]⟩
  | succ n ih =>
    intro input buf out h
    obtain ⟨b0, b1, b2, b3, b4, rest, rfl⟩ :
        ∃ b0 b1 b2 b3 b4 rest, input = b0 :: b1 :: b2 :: b3 :: b4 :: rest := by
      match input, h with
      | b0 :: b1 :: b2 :: b3 :: b4 :: rest, _ => exact ⟨b0, b1, b2, b3, b4, rest, rfl⟩
    have hrest : rest.length = 5 * n := by simp only [length_cons] at h; omega
    obtain ⟨bufE, hE⟩ := base32hexEncodeLoop_group b0 b1 b2 b3 b4 rest buf out
    obtain ⟨cs, hcs, hlen, hdec⟩ := ih bufE _ hrest
    refine ⟨_, by rw [hE, hcs, append_assoc], by simp; omega, fun buf' out' => ?_⟩
    obtain ⟨bufD, hD⟩ := base32hexLoop_group (b0.val / 8) (b0.val % 8 * 4 + b1.val / 64)
      (b1.val / 2 % 32) (b1.val % 2 * 16 + b2.val / 16) (b2.val % 16 * 2 + b3.val / 128)
      (b3.val / 4 % 32) (b3.val % 4 * 8 + b4.val / 32) (b4.val % 32) (lower cs) buf' out'
      (by omega) (by omega) (by omega) (by omega) (by omega) (by omega) (by omega) (by omega)
    rw [lower_append, hD, hdec]
    simp only [map_cons, map_nil, append_assoc, cons_append, nil_append]
    congr 2
    simp only [List.cons.injEq, and_true]
    refine ⟨?_, ?_, ?_, ?_, ?_⟩ <;> apply Fin.ext <;> simp only [Fin.val_ofNat] <;> omega

theorem base32hexDecode_lower_encode {h : Bytes} {n : ℕ} (hlen : h.length = 5 * n) :
    base32hexDecode (lower (base32hexEncode h)) = some h := by
  obtain ⟨cs, hcs, -, hdec⟩ := base32hexLoop_encodeLoop n 0 [] hlen
  rw [base32hexEncode, hcs]
  exact hdec 0 []

theorem base32hexEncode_length {h : Bytes} {n : ℕ} (hlen : h.length = 5 * n) :
    (base32hexEncode h).length = 8 * n := by
  obtain ⟨cs, hcs, hlen, -⟩ := base32hexLoop_encodeLoop n 0 [] hlen
  rw [base32hexEncode, hcs, nil_append, hlen]

example : base32hexEncode [1, 2, 3, 4, 5] = [48, 52, 49, 48, 54, 49, 48, 53] := by decide +kernel

end Runbound.Dnssec
