import Runbound.Wire.Name
import Mathlib.Data.List.ReduceOption

/-!
# Which strings `Name::from_ascii` reads

`Presents` is the presentation format of RFC 1035 section 5.1 on its own: what the characters and
escapes of a string stand for. `from_ascii` reads a string exactly if all its escapes can be read
and the parts between the unescaped dots, without the empty ones, form a name.

* `fromAscii_eq_ok_iff`: the strings that are read, and the labels they are read to.
* `fromAscii_strict_iff`: the closure `flush` passes over an empty label wherever it stands,
  although its comment wants one only as the trailing root dot. A string with an empty label
  elsewhere is therefore refused only if something else is wrong with it.

**Deviation from the comment in `flush`**: `a..b` is the name `a.b.` (`empty_label_read`).
-/

namespace Runbound.Wire.Name

open List

/-! ## What a string spells -/

/-- The characters and escapes of a string stand for octets, and `none` is an unescaped dot. An
    escape of digits has three of them, which are a number up to 255. -/
inductive Presents : Bytes → List (Option Byte) → Prop
  | nil : Presents [] []
  | dot {s ts} (h : Presents s ts) : Presents (46 :: s) (none :: ts)
  | plain {c s ts} (h1 : c ≠ 46) (h2 : c ≠ 92) (h : Presents s ts) : Presents (c :: s) (some c :: ts)
  | escaped {c s ts} (h1 : isAsciiDigit c = false) (h : Presents s ts) :
      Presents (92 :: c :: s) (some c :: ts)
  | decimal {b d1 d2 d3 s ts} (h1 : isAsciiDigit d1 = true) (h2 : isAsciiDigit d2 = true)
      (h3 : isAsciiDigit d3 = true)
      (hb : b.val = (d1.val - 48) * 100 + (d2.val - 48) * 10 + (d3.val - 48)) (h : Presents s ts) :
      Presents (92 :: d1 :: d2 :: d3 :: s) (some b :: ts)

variable {acc n : Name} {s rest label : Bytes} {ts : List (Option Byte)}

/-- The parts between the unescaped dots, empty ones included. -/
def parts (ts : List (Option Byte)) : List Bytes := (ts.splitOn none).map reduceOption

/-- The parts that are not empty. -/
def pieces (ts : List (Option Byte)) : List Bytes := (parts ts).filter (· ≠ [])

theorem parts_octets (l : Bytes) : parts (l.map some) = [l] := by
  rw [parts, splitOn_eq_singleton (by simp)]
  simp [reduceOption]

theorem parts_dot (ts ts' : List (Option Byte)) : parts (ts ++ none :: ts') = parts ts ++ parts ts' := by
  rw [parts, splitOn_append_cons_self, map_append]
  rfl

theorem pieces_octets (l : Bytes) : pieces (l.map some) = [l].filter (· ≠ []) := by
  rw [pieces, parts_octets]

theorem pieces_dot (ts ts' : List (Option Byte)) :
    pieces (ts ++ none :: ts') = pieces ts ++ pieces ts' := by
  rw [pieces, parts_dot, filter_append]
  rfl

/-! ## Which strings are read -/

theorem fromAsciiLoop_plain {c : Byte} (h1 : c ≠ 46) (h2 : c ≠ 92) :
    fromAsciiLoop (c :: rest) label acc = fromAsciiLoop rest (label ++ [c]) acc := by
  rw [fromAsciiLoop.eq_def]
  exact (if_neg h1).trans (if_neg h2)

theorem fromAsciiLoop_escaped {c : Byte} (h : isAsciiDigit c = false) :
    fromAsciiLoop (92 :: c :: rest) label acc = fromAsciiLoop rest (label ++ [c]) acc := by
  rw [fromAsciiLoop.eq_def]
  simp [h]

theorem fromAsciiLoop_decimal {b d1 d2 d3 : Byte} (h1 : isAsciiDigit d1 = true)
    (h2 : isAsciiDigit d2 = true) (h3 : isAsciiDigit d3 = true)
    (hb : b.val = (d1.val - 48) * 100 + (d2.val - 48) * 10 + (d3.val - 48)) :
    fromAsciiLoop (92 :: d1 :: d2 :: d3 :: rest) label acc =
      fromAsciiLoop rest (label ++ [b]) acc := by
  have hle : ¬ b.val > 255 := by omega
  rw [fromAsciiLoop.eq_def]
  simp only [h1, h2, h3, ← hb, if_neg hle]
  simp

theorem fromAsciiLoop_dot :
    fromAsciiLoop (46 :: rest) label acc = match flush label acc with
      | .error e => .error e
      | .ok acc => fromAsciiLoop rest [] acc := by
  rw [fromAsciiLoop.eq_def]
  rfl

/-- `flush` adds the label, or nothing for an empty one; that it fits is part of the name. -/
theorem flush_eq_ok_iff : flush label acc = .ok n ↔ n.labels = acc.labels ++ pieces (label.map some) := by
  rw [pieces_octets, flush]
  split_ifs with hempty hlong
  · rw [hempty, filter_cons_of_neg (by simp), filter_nil, append_nil, Except.ok.injEq]
    exact ⟨fun h => by rw [h], fun h => ext_labels h.symm⟩
  · rw [filter_cons_of_pos (by simpa using hempty)]
    refine iff_of_false nofun fun h => ?_
    have hle := (n.ok.label label (by simp [h])).2
    omega
  · rw [filter_cons_of_pos (by simpa using hempty), filter_nil, ← push_eq_some]
    cases acc.push label <;> simp

/-- The loop reads a string to the parts that are not empty, if these fit; `label` has been read of
    the first. -/
theorem Presents.fromAsciiLoop_eq_ok_iff (h : Presents s ts) : fromAsciiLoop s label acc = .ok n ↔
    n.labels = acc.labels ++ pieces (label.map some ++ ts) := by
  have hoctet : ∀ (label : Bytes) b ts, (label ++ [b]).map some ++ ts =
      label.map some ++ some b :: ts := by simp
  induction h generalizing label acc with
  | nil => rw [fromAsciiLoop, flush_eq_ok_iff, append_nil]
  | dot _ ih =>
    rw [fromAsciiLoop_dot, pieces_dot, ← append_assoc]
    constructor
    · intro h
      cases hf : flush label acc with
      | error e => simp [hf] at h
      | ok acc' =>
        rw [hf] at h
        rw [ih.mp h, flush_eq_ok_iff.mp hf]
        rfl
    · intro hn
      -- the label before the dot fits, since it fits together with what follows
      have hok : LabelsOk (acc.labels ++ pieces (label.map some)) :=
        LabelsOk.of_append_left (hn ▸ n.ok)
      rw [flush_eq_ok_iff.mpr (show (⟨_, hok⟩ : Name).labels = _ from rfl)]
      exact ih.mpr hn
  | plain h1 h2 _ ih =>
    rw [fromAsciiLoop_plain h1 h2, ← hoctet]
    exact ih
  | escaped h1 _ ih =>
    rw [fromAsciiLoop_escaped h1, ← hoctet]
    exact ih
  | decimal h1 h2 h3 hb _ ih =>
    rw [fromAsciiLoop_decimal h1 h2 h3 hb, ← hoctet]
    exact ih

/-- What the loop reads spells something. -/
theorem exists_presents : fromAsciiLoop s label acc = .ok n → ∃ ts, Presents s ts := by
  fun_induction fromAsciiLoop s label acc with
  | case1 => exact fun _ => ⟨[], .nil⟩
  | case2 | case4 | case5 | case7 | case8 => exact nofun
  | case3 _ _ _ _ _ ih => exact fun h => (ih h).elim fun ts hts => ⟨_, .dot hts⟩
  | case6 label acc d1 h1 d2 d3 rest h23 v hle =>
    rename_i ih
    obtain ⟨h2, h3⟩ := Bool.and_eq_true_iff.mp h23
    have hv : (Fin.ofNat 256 v).val = v := Nat.mod_eq_of_lt (by omega)
    exact fun h => (ih h).elim fun ts hts => ⟨_, .decimal h1 h2 h3 hv hts⟩
  | case9 _ _ d1 _ h1 _ ih =>
    exact fun h => (ih h).elim fun ts hts => ⟨_, .escaped (by simpa using h1) hts⟩
  | case10 _ _ _ _ h1 h2 ih => exact fun h => (ih h).elim fun ts hts => ⟨_, .plain h1 h2 hts⟩

/-- The two strings that are answered before the loop are read by it in the same way. -/
theorem fromAscii_eq (s : Bytes) : fromAscii s = fromAsciiLoop s [] root := by
  rw [fromAscii]
  split_ifs with hs
  · rcases hs with rfl | rfl <;> rfl
  · rfl

theorem Presents.fromAscii_eq_ok_iff (h : Presents s ts) : fromAscii s = .ok n ↔ n.labels = pieces ts := by
  rw [fromAscii_eq]
  exact h.fromAsciiLoop_eq_ok_iff

/-- **The strings that are read**: those whose escapes can all be read and whose parts, without
    the empty ones, form a name, which is then the name they are read to. -/
theorem fromAscii_eq_ok_iff : fromAscii s = .ok n ↔ ∃ ts, Presents s ts ∧ n.labels = pieces ts := by
  constructor
  · intro h
    obtain ⟨ts, hts⟩ := exists_presents ((fromAscii_eq s).symm.trans h)
    exact ⟨ts, hts, hts.fromAscii_eq_ok_iff.mp h⟩
  · rintro ⟨ts, hts, hn⟩
    exact hts.fromAscii_eq_ok_iff.mpr hn

theorem Presents.toOption_fromAscii (h : Presents s ts) : (fromAscii s).toOption =
    if hok : LabelsOk (pieces ts) then some ⟨pieces ts, hok⟩ else none := by
  split_ifs with hok
  · rw [h.fromAscii_eq_ok_iff.mpr (show (⟨_, hok⟩ : Name).labels = _ from rfl)]
    rfl
  · cases hread : fromAscii s with
    | error e => rfl
    | ok n => exact absurd (h.fromAscii_eq_ok_iff.mp hread ▸ n.ok) hok

/-! ## What is written is read back -/

theorem Presents.append {s' : Bytes} {ts' : List (Option Byte)} (h : Presents s ts)
    (h' : Presents s' ts') : Presents (s ++ s') (ts ++ ts') := by
  induction h with
  | nil => exact h'
  | dot _ ih => exact .dot ih
  | plain h1 h2 _ ih => exact .plain h1 h2 ih
  | escaped h1 _ ih => exact .escaped h1 ih
  | decimal h1 h2 h3 hb _ ih => exact .decimal h1 h2 h3 hb ih

/-- What `to_ascii` writes for one octet. -/
theorem presents_escapeByte (b : Byte) : Presents (escapeByte b) [some b] := by
  unfold escapeByte
  split_ifs with h1 h2
  · exact .escaped (by rcases h1 with rfl | rfl <;> rfl) .nil
  · exact .plain (fun h => h1 (Or.inl h)) (fun h => h1 (Or.inr h)) .nil
  · have hd : ∀ k : ℕ, k ≤ 9 → (Fin.ofNat 256 (48 + k) : Byte).val = 48 + k := by
      intro k hk; rw [Fin.val_ofNat]; omega
    have hdig : ∀ k : ℕ, k ≤ 9 → isAsciiDigit (Fin.ofNat 256 (48 + k)) = true := by
      intro k hk
      simp only [isAsciiDigit, hd k hk, Bool.and_eq_true, decide_eq_true_eq]
      omega
    refine .decimal (hdig _ (by omega)) (hdig _ (by omega)) (hdig _ (by omega)) ?_ .nil
    rw [hd _ (by omega), hd _ (by omega), hd _ (by omega)]
    omega

theorem presents_label (l : Bytes) : Presents (l.flatMap escapeByte) (l.map some) := by
  induction l with
  | nil => exact .nil
  | cons b l ih => exact (presents_escapeByte b).append ih

/-- A text without a backslash spells its characters. -/
theorem presents_plain (h : (92 : Byte) ∉ s) :
    Presents s (s.map fun c => if c = 46 then none else some c) := by
  induction s with
  | nil => exact .nil
  | cons c s ih =>
    obtain ⟨hc, hs⟩ := not_or.mp (mt mem_cons.mpr h)
    rw [map_cons]
    split_ifs with hdot
    · exact hdot ▸ .dot (ih hs)
    · exact .plain hdot (Ne.symm hc) (ih hs)

theorem parts_plain (s : Bytes) :
    parts (s.map fun c => if c = 46 then none else some c) = s.splitOn 46 := by
  induction s with
  | nil => simp [parts]
  | cons c s ih =>
    simp only [splitOn_cons_eq_if_modifyHead, ← ih, map_cons, beq_iff_eq]
    split_ifs with hdot
    · exact parts_dot [] _
    · rw [parts, parts, splitOn_cons_eq_if_modifyHead, if_neg (by simp)]
      cases (s.map fun c => if c = 46 then none else some c).splitOn none <;> simp

/-- The labels of a name, each before a dot. -/
theorem presents_labels {ls : List Bytes} (h : ∀ l ∈ ls, l ≠ []) :
    ∃ ts, Presents (ls.flatMap fun l => l.flatMap escapeByte ++ [46]) ts ∧ pieces ts = ls := by
  induction ls with
  | nil => exact ⟨[], .nil, rfl⟩
  | cons l ls ih =>
    obtain ⟨hl, hls⟩ := forall_mem_cons.mp h
    obtain ⟨ts, hts, hpieces⟩ := ih hls
    refine ⟨l.map some ++ none :: ts, ?_, ?_⟩
    · rw [flatMap_cons, append_assoc]
      exact (presents_label l).append (.dot hts)
    · rw [pieces_dot, pieces_octets, filter_cons_of_pos (by simpa using hl), hpieces]
      rfl

theorem presents_toAscii (n : Name) : ∃ ts, Presents n.toAscii ts ∧ pieces ts = n.labels := by
  rw [toAscii]
  split_ifs with hroot
  · rw [(isRoot_iff n).mp hroot]
    exact ⟨[none], .dot .nil, rfl⟩
  · exact presents_labels fun l hl => ne_nil_of_length_pos (n.ok.label l hl).1

/-! ## Empty labels -/

/-- What is wanted of a string that is read to `n`: no part before a dot is empty, the root `.`
    apart, and there are as many labels as parts that are not. -/
def Strict (s : Bytes) (n : Name) : Prop :=
  ∀ ts, Presents s ts → (s = [46] ∨ ∀ p ∈ (parts ts).dropLast, p ≠ []) ∧
    n.labelCount = (parts ts).countP (· ≠ [])

/-- The parts without the empty ones are a name: none is longer than 63 octets, and together they
    fit into 255. -/
def Fits (ts : List (Option Byte)) : Prop :=
  (∀ p ∈ parts ts, p.length ≤ maxLabel) ∧ labelsLen (pieces ts) + 1 ≤ maxNameWire

/-- No unescaped dot stands first, and none right after another. -/
def DotsApart (ts : List (Option Byte)) : Prop :=
  (none :: ts).IsChain fun t t' => t = none → t' ≠ none

theorem fits_iff : Fits ts ↔ LabelsOk (pieces ts) := by
  constructor
  · rintro ⟨hlabel, hlen⟩
    refine ⟨fun l hl => ?_, hlen⟩
    obtain ⟨hmem, hne⟩ := mem_filter.mp hl
    exact ⟨length_pos_iff.mpr (by simpa using hne), hlabel l hmem⟩
  · intro hok
    refine ⟨fun p hp => ?_, hok.len⟩
    by_cases hne : p = []
    · simp [hne]
    · exact (hok.label p (mem_filter.mpr ⟨hp, by simpa using hne⟩)).2

/-- The parts before the dots are not empty exactly if the dots are apart; `label` has been read of
    the first part. -/
theorem forall_dropLast_parts_iff (label : Bytes) :
    (∀ p ∈ (parts (label.map some ++ ts)).dropLast, p ≠ []) ↔
      ((if label = [] then none else some 0) :: ts).IsChain fun t t' => t = none → t' ≠ none := by
  induction ts generalizing label with
  | nil => simp [parts_octets]
  | cons t ts ih =>
    cases t with
    | none =>
      have hne : parts ts ≠ [] := by simp [parts, splitOn_ne_nil]
      have hrest := ih []
      rw [map_nil, nil_append, if_pos rfl] at hrest
      rw [parts_dot, parts_octets, singleton_append, dropLast_cons_of_ne_nil hne, forall_mem_cons,
        hrest, isChain_cons_cons]
      simp
    | some b =>
      have hoctet := ih (label ++ [b])
      rw [map_append, append_assoc] at hoctet
      refine hoctet.trans ?_
      rw [if_neg (by simp), isChain_cons_cons]
      cases ts <;> simp

/-- **Which strings are read strictly**: exactly those that do not spell a name, and of those that
    do the root `.` and those in which no dot stands first or right after an unescaped dot. -/
theorem fromAscii_strict_iff (s : Bytes) : (∀ n, fromAscii s = .ok n → Strict s n) ↔
    ∀ ts, Presents s ts → Fits ts → s = [46] ∨ DotsApart ts := by
  have hdots : ∀ ts, (∀ p ∈ (parts ts).dropLast, p ≠ []) ↔ DotsApart ts := fun ts =>
    forall_dropLast_parts_iff []
  simp only [Strict, hdots, fits_iff]
  constructor
  · intro h ts hts hok
    have hread := hts.fromAscii_eq_ok_iff.mpr (show (⟨_, hok⟩ : Name).labels = _ from rfl)
    exact (h _ hread ts hts).1
  · intro h n hn ts hts
    have hlabels := hts.fromAscii_eq_ok_iff.mp hn
    refine ⟨h ts hts (hlabels ▸ n.ok), ?_⟩
    rw [labelCount, hlabels, pieces, countP_eq_length_filter]

/-- `a..b` is read as two labels, although a part between two dots is empty. -/
theorem empty_label_read :
    (fromAscii [97, 46, 46, 98]).toOption.map labels = some [[97], [98]] ∧
      ¬ ∀ n, fromAscii [97, 46, 46, 98] = .ok n → Strict [97, 46, 46, 98] n := by
  have hpresents : Presents [97, 46, 46, 98] [some 97, none, none, some 98] :=
    .plain (by decide) (by decide) (.dot (.dot (.plain (by decide) (by decide) .nil)))
  have hread : fromAscii [97, 46, 46, 98] = .ok ⟨[[97], [98]], by decide⟩ := by decide +kernel
  refine ⟨by rw [hread]; rfl, fun h => ?_⟩
  rcases (h _ hread _ hpresents).1 with hroot | hall
  · cases hroot
  · exact hall [] (by decide) rfl

end Runbound.Wire.Name
