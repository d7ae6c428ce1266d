import Runbound.Wire.Encode
import Runbound.Wire.Presentation

/-!
# Decoding and rendering names

* `parse_decompresses`: what `Name::parse` reads, compression pointers included.
* `parse_take_wire`: a decoded name whose first octets read as the wire form of
  another name is that name.
* `presentation_roundTrip`: a rendered name is read back.
-/

namespace Runbound.Wire

open Lib.Decoder List

/-! ## Strings in a buffer -/

/-- `s` stands at offset `pos`. -/
def StandsAt (s buf : Bytes) (pos : ℕ) : Prop :=
  ∃ pre post, buf = pre ++ (s ++ post) ∧ pre.length = pos

variable {buf l y : Bytes} {acc n s : Name} {fuel k pos stop : ℕ}

/-- What stands in a buffer stands there when the buffer grows. -/
theorem StandsAt.mono {s buf' : Bytes} (h : StandsAt s buf pos)
    (hb : buf <+: buf') : StandsAt s buf' pos := by
  obtain ⟨pre, post, rfl, rfl⟩ := h
  obtain ⟨rest, rfl⟩ := hb
  exact ⟨pre, post ++ rest, by simp, rfl⟩

theorem standsAt_append (buf s : Bytes) : StandsAt s (buf ++ s) buf.length :=
  ⟨buf, [], by simp, rfl⟩

theorem standsAt_of_drop {s buf : Bytes} {b : Byte} {pos : ℕ}
    (post : Bytes) (h : buf.drop pos = b :: s ++ post) : StandsAt (b :: s) buf pos := by
  refine ⟨buf.take pos, post, by rw [← h, take_append_drop], length_take_of_le ?_⟩
  by_contra hlt
  rw [drop_eq_nil_of_le (by omega)] at h
  cases h

theorem StandsAt.drop_eq {s buf : Bytes} {pos : ℕ} (h : StandsAt s buf pos) :
    ∃ post, buf.drop pos = s ++ post := by
  obtain ⟨pre, post, rfl, rfl⟩ := h
  exact ⟨post, drop_left⟩

namespace Name

/-! ## The decoding loop -/

section Loop

variable {buf : Bytes} {acc : Name} {pos pointers : ℕ} {resume : Option ℕ} {r : Name × ℕ}

/-- One iteration of a successful run: the root octet, a label, or a pointer. -/
theorem parseLoop_succ_eq_ok :
    parseLoop buf (fuel + 1) acc pos resume pointers = some (.ok r) ↔
      (buf[pos]? = some 0 ∧ r = (acc, resume.getD (pos + 1))) ∨
      (∃ len : Byte, ∃ acc' : Name, buf[pos]? = some len ∧ 0 < len.val ∧ len.val < 64 ∧
        pos + 1 + len.val ≤ buf.length ∧
        acc'.labels = acc.labels ++ [(buf.drop (pos + 1)).take len.val] ∧
        parseLoop buf fuel acc' (pos + 1 + len.val) resume pointers = some (.ok r)) ∨
      (∃ len b2 : Byte, buf[pos]? = some len ∧ 192 ≤ len.val ∧ buf[pos + 1]? = some b2 ∧
        pointers + 1 ≤ maxPointers ∧ len.val % 64 * 256 + b2.val < pos ∧
        parseLoop buf fuel acc (len.val % 64 * 256 + b2.val) (some (resume.getD (pos + 2)))
          (pointers + 1) = some (.ok r)) := by
  rw [parseLoop]
  constructor
  · intro h
    cases hb : buf[pos]? with
    | none => simp [hb] at h
    | some len =>
      simp only [hb] at h
      split at h
      · rename_i htop
        split_ifs at h with h0 hend
        · cases h
          exact Or.inl ⟨by rw [show len = 0 from Fin.ext h0], rfl⟩
        · cases h
        · cases hp : acc.push ((buf.drop (pos + 1)).take len.val) with
          | none => simp [hp] at h
          | some acc' =>
            simp only [hp] at h
            exact Or.inr (Or.inl ⟨len, acc', rfl, by omega, by omega, by omega,
              push_eq_some.mp hp, h⟩)
      · rename_i htop
        cases hb2 : buf[pos + 1]? with
        | none => simp [hb2] at h
        | some b2 =>
          simp only [hb2] at h
          split_ifs at h
          · cases h
          · cases h
          · exact Or.inr (Or.inr ⟨len, b2, rfl, by omega, rfl, by omega, by omega, h⟩)
      · cases h
  · rintro (⟨hb, rfl⟩ | ⟨len, acc', hb, h0, htop, hend, hl, h⟩ |
      ⟨len, b2, hb, htop, hb2, hp, hlt, h⟩)
    · simp [hb]
    · simp only [hb, show len.val / 64 = 0 by omega, push_eq_some.mpr hl]
      rw [if_neg (by omega), if_neg (by omega)]
      exact h
    · simp only [hb, show len.val / 64 = 3 by omega, hb2]
      rw [if_neg (by omega), if_neg (by omega)]
      exact h

/-- More fuel does not change what the loop is left with. -/
theorem parseLoop_mono {e : Except WireError (Name × ℕ)} (k : ℕ) :
    ∀ {fuel : ℕ} {acc : Name} {pos pointers : ℕ} {resume : Option ℕ},
      parseLoop buf fuel acc pos resume pointers = some e →
      parseLoop buf (fuel + k) acc pos resume pointers = some e := by
  intro fuel
  induction fuel with
  | zero => intro _ _ _ _ h; cases h
  | succ fuel ih =>
    intro acc pos pointers resume h
    rw [Nat.add_right_comm, parseLoop]
    rw [parseLoop] at h
    cases hb : buf[pos]? with
    | none => simpa only [hb] using h
    | some len =>
      simp only [hb] at h ⊢
      split at h
      · split_ifs at h ⊢
        · exact h
        · exact h
        · cases hp : acc.push ((buf.drop (pos + 1)).take len.val) with
          | none => simpa only [hp] using h
          | some acc' =>
            simp only [hp] at h ⊢
            exact ih h
      · cases hb2 : buf[pos + 1]? with
        | none => simpa only [hb2] using h
        | some b2 =>
          simp only [hb2] at h ⊢
          split_ifs at h ⊢
          · exact h
          · exact h
          · exact ih h
      · exact h

end Loop

/-! ## Names in a buffer -/

/-- At `pos` stands a name of labels `ls`, through `k` pointers; in place it ends at
    `stop`. -/
inductive NameAt (buf : Bytes) : ℕ → List Bytes → ℕ → ℕ → Prop
  | root {pos : ℕ} (h : StandsAt [0] buf pos) : NameAt buf pos [] 0 (pos + 1)
  | label {pos k stop : ℕ} {l : Bytes} {ls : List Bytes} (hl : LabelBound l)
      (h : StandsAt (labelWire l) buf pos)
      (rest : NameAt buf (pos + (labelWire l).length) ls k stop) : NameAt buf pos (l :: ls) k stop
  | pointer {pos target k stop : ℕ} {ls : List Bytes} (hmax : target ≤ maxCompressOffset)
      (hlt : target < pos) (h : StandsAt (pointerTo target) buf pos)
      (rest : NameAt buf target ls k stop) : NameAt buf pos ls (k + 1) (pos + 2)

variable {ls : List Bytes}

/-- A name in a buffer is there when the buffer grows. -/
theorem NameAt.mono {buf' : Bytes} (h : NameAt buf pos ls k stop)
    (hb : buf <+: buf') : NameAt buf' pos ls k stop := by
  induction h with
  | root h => exact .root (h.mono hb)
  | label hl h _ ih => exact .label hl (h.mono hb) ih
  | pointer hmax hlt h _ ih => exact .pointer hmax hlt (h.mono hb) ih

theorem NameAt.bound (h : NameAt buf pos ls k stop) : ∀ l ∈ ls, LabelBound l := by
  induction h with
  | root h => simp
  | label hl _ _ ih => exact forall_mem_cons.mpr ⟨hl, ih⟩
  | pointer _ _ _ _ ih => exact ih

/-- A name ends in place within the buffer, whatever its pointers lead to. -/
theorem NameAt.stop_le (h : NameAt buf pos ls k stop) : stop ≤ buf.length := by
  induction h with
  | root h =>
    obtain ⟨pre, post, rfl, rfl⟩ := h
    simp
  | label _ _ _ ih => exact ih
  | pointer _ _ h _ _ =>
    obtain ⟨pre, post, rfl, rfl⟩ := h
    simp [pointerTo]

theorem NameAt.pos_lt (h : NameAt buf pos ls k stop) : pos < stop := by
  induction h with
  | root h => omega
  | label _ _ _ ih => omega
  | pointer _ _ _ _ _ => omega

/-- The loop reads a name that stands at the cursor, if pointers and fuel last. -/
theorem parseLoop_nameAt (h : NameAt buf pos ls k stop) :
    ∀ {acc n : Name} {fuel pointers : ℕ} {resume : Option ℕ},
      acc.labels ++ ls = n.labels → pointers + k ≤ maxPointers → ls.length + k < fuel →
      parseLoop buf fuel acc pos resume pointers = some (.ok (n, resume.getD stop)) := by
  induction h with
  | root h =>
    intro acc n fuel pointers resume hn _ hfuel
    obtain ⟨fuel, rfl⟩ : ∃ f, fuel = f + 1 := ⟨fuel - 1, by omega⟩
    obtain rfl : acc = n := ext_labels (by simpa using hn)
    obtain ⟨pre, post, rfl, rfl⟩ := h
    exact parseLoop_succ_eq_ok.mpr (Or.inl ⟨by simp, rfl⟩)
  | @label pos k stop l ls hl h rest ih =>
    intro acc n fuel pointers resume hn hp hfuel
    obtain ⟨fuel, rfl⟩ : ∃ f, fuel = f + 1 := ⟨fuel - 1, by omega⟩
    obtain ⟨pre, post, rfl, rfl⟩ := h
    have hok : LabelsOk (acc.labels ++ [l]) := by
      have hn' := n.ok
      rw [← hn, ← singleton_append, ← append_assoc] at hn'
      exact hn'.of_append_left
    obtain ⟨h1, h2⟩ := hl
    unfold maxLabel at h2
    have hval : (Fin.ofNat 256 l.length : Byte).val = l.length := Nat.mod_eq_of_lt (by omega)
    refine parseLoop_succ_eq_ok.mpr (Or.inr (Or.inl ⟨Fin.ofNat 256 l.length, ⟨_, hok⟩, ?_⟩))
    rw [hval]
    refine ⟨by simp [labelWire], h1, by omega, by simp [labelWire]; omega, by simp [labelWire], ?_⟩
    rw [Nat.add_assoc, Nat.add_comm 1]
    exact ih (by simpa using hn) hp (by simp at hfuel; omega)
  | @pointer pos target k stop ls hmax hlt h rest ih =>
    intro acc n fuel pointers resume hn hp hfuel
    obtain ⟨fuel, rfl⟩ : ∃ f, fuel = f + 1 := ⟨fuel - 1, by omega⟩
    obtain ⟨b1, b2, hptr, h192, rfl⟩ : ∃ b1 b2 : Byte, pointerTo target = [b1, b2] ∧
        192 ≤ b1.val ∧ target = b1.val % 64 * 256 + b2.val := by
      unfold maxCompressOffset at hmax
      exact ⟨_, _, rfl, by simp; omega, by simp; omega⟩
    rw [hptr] at h
    obtain ⟨pre, post, rfl, rfl⟩ := h
    exact parseLoop_succ_eq_ok.mpr (Or.inr (Or.inr ⟨b1, b2, by simp, h192, by simp, by omega, hlt,
      ih hn (by omega) (by omega)⟩))

theorem length_le_labelsLen (ls : List Bytes) (h : ∀ l ∈ ls, LabelBound l) :
    2 * ls.length ≤ labelsLen ls := by
  induction ls with
  | nil => simp
  | cons l ls ih =>
    have h1 := (h l (by simp)).1
    have h2 := ih fun x hx => h x (by simp [hx])
    simp only [length_cons, labelsLen_cons]
    omega

/-- A name has no more labels than a run may follow pointers. -/
theorem length_labels_le (n : Name) : n.labels.length ≤ maxPointers := by
  have hlen := length_le_labelsLen n.labels n.label_bound
  have hmax := n.ok.len
  unfold maxNameWire at hmax
  unfold maxPointers
  omega

theorem decode_nameAt (h : NameAt buf pos n.labels k stop) (hk : k ≤ maxPointers) :
    Name.decode.Reads buf pos n stop := by
  have hlen := n.length_labels_le
  have hloop : parseLoop buf parseFuel root pos none 0 = some (.ok (n, stop)) :=
    parseLoop_nameAt h rfl (by omega)
      (by unfold parseFuel maxNameWire; unfold maxPointers at *; omega)
  have hstop := h.stop_le
  unfold Reads Name.decode
  rw [parse_eq hloop, finish, if_neg (by omega)]

/-- What the loop read stands in the buffer. -/
theorem nameAt_of_parseLoop : ∀ {fuel : ℕ} {acc : Name} {pos pointers : ℕ} {resume : Option ℕ},
    parseLoop buf fuel acc pos resume pointers = some (.ok (n, stop)) →
      ∃ ls k stop', NameAt buf pos ls k stop' ∧ n.labels = acc.labels ++ ls ∧
        (k = 0 ∨ pointers + k ≤ maxPointers) ∧ stop = resume.getD stop' := by
  intro fuel
  induction fuel with
  | zero => intro _ _ _ _ h; cases h
  | succ fuel ih =>
    intro acc pos pointers resume h
    have hdrop : ∀ {b : Byte} {i : ℕ}, buf[i]? = some b → buf.drop i = b :: buf.drop (i + 1) := by
      intro b i hb
      rw [drop_eq_getElem?_toList_append, hb]
      rfl
    rcases parseLoop_succ_eq_ok.mp h with ⟨hb, heq⟩ | ⟨len, acc', hb, h0, h64, hend, hl, h⟩ |
      ⟨len, b2, hb, h192, hb2, hp, hlt, h⟩
    · cases heq
      exact ⟨[], 0, pos + 1, .root (standsAt_of_drop _ (hdrop hb)), by simp, Or.inl rfl, rfl⟩
    · obtain ⟨ls, k, stop', hat, hn, hk, hstop⟩ := ih h
      have hlen : ((buf.drop (pos + 1)).take len.val).length = len.val := by simp; omega
      refine ⟨(buf.drop (pos + 1)).take len.val :: ls, k, stop', ?_, by simp [hn, hl], hk, hstop⟩
      refine .label ⟨by omega, by unfold maxLabel; omega⟩ (standsAt_of_drop ((buf.drop (pos + 1)).drop len.val) ?_) ?_
      · rw [hdrop hb, hlen, Fin.ofNat_val_eq_self, cons_append, take_append_drop]
      · rwa [labelWire, length_cons, hlen, Nat.add_comm len.val, ← Nat.add_assoc]
    · obtain ⟨ls, k, stop', hat, hn, hk, hstop⟩ := ih h
      have hoctets : pointerTo (len.val % 64 * 256 + b2.val) = [len, b2] := by
        simp only [pointerTo, u16Be, List.cons.injEq, Fin.ext_iff, Fin.val_ofNat, and_true]
        omega
      refine ⟨ls, k + 1, pos + 2, .pointer ?_ hlt ?_ hat, hn, Or.inr (by omega), hstop⟩
      · unfold maxCompressOffset; omega
      · rw [hoctets]
        exact standsAt_of_drop _ (by rw [hdrop hb, hdrop hb2]; rfl)

/-- The cursor after a name: where the first pointer said, or after the name. -/
theorem parseLoop_stop {pointers : ℕ} {resume : Option ℕ}
    (h : parseLoop buf fuel acc pos resume pointers = some (.ok (n, stop))) :
    resume.elim (pos < stop) (· = stop) := by
  obtain ⟨ls, k, stop', hat, -, -, rfl⟩ := nameAt_of_parseLoop h
  cases resume with
  | none => exact hat.pos_lt
  | some r => rfl

/-- `Name::parse` accepts exactly the names written with at most 127 pointers. -/
theorem parse_eq_ok_iff :
    parse buf pos = .ok (n, stop) ↔ ∃ k ≤ maxPointers, NameAt buf pos n.labels k stop := by
  constructor
  · intro h
    obtain ⟨hloop, -⟩ := decode_eq_ok h
    obtain ⟨ls, k, stop', hat, hn, hk, hstop⟩ := nameAt_of_parseLoop hloop
    exact ⟨k, by omega, by rwa [hn, hstop]⟩
  · rintro ⟨k, hk, hat⟩
    exact decode_nameAt hat hk

/-- A name written out stands in the buffer without a pointer. -/
theorem nameAt_wire : ∀ (ls : List Bytes), (∀ l ∈ ls, LabelBound l) → ∀ pos,
    StandsAt (ls.flatMap labelWire ++ [0]) buf pos →
      NameAt buf pos ls 0 (pos + labelsLen ls + 1) := by
  intro ls
  induction ls with
  | nil =>
    intro _ pos h
    exact .root h
  | cons l ls ih =>
    rintro hls pos ⟨pre, post, rfl, rfl⟩
    have hrest := ih (fun x hx => hls x (by simp [hx])) (pre.length + (labelWire l).length)
      ⟨pre ++ labelWire l, post, by simp, by simp⟩
    have hstop : pre.length + (labelWire l).length + labelsLen ls + 1 =
        pre.length + labelsLen (l :: ls) + 1 := by
      simp only [labelWire, length_cons, labelsLen_cons]
      omega
    rw [hstop] at hrest
    exact .label (hls l (by simp)) ⟨pre, ls.flatMap labelWire ++ ([0] ++ post), by simp, rfl⟩ hrest

/-- Decoding the wire form of a name, wherever it stands in the buffer. -/
theorem parse_wire (pre rest : Bytes) (n : Name) :
    parse (pre ++ (n.wire ++ rest)) pre.length = .ok (n, pre.length + n.wire.length) := by
  have hat := nameAt_wire n.labels n.label_bound pre.length ⟨pre, rest, rfl, rfl⟩
  have hread := decode_nameAt hat (by decide)
  rw [n.wire_length]
  exact hread

/-- A pointer to a name that was written out reads as that name. -/
theorem decode_pointer {target : ℕ} (hmax : target ≤ maxCompressOffset)
    (hlt : target < pos) (hp : StandsAt (pointerTo target) buf pos)
    (hn : StandsAt n.wire buf target) : Name.decode.Reads buf pos n (pos + 2) := by
  have hat := nameAt_wire n.labels n.label_bound target hn
  exact decode_nameAt (.pointer hmax hlt hp hat) (by decide)

/-! ## Compressed names -/

/-- A name whose octets, as far as it is long, start other labels in place has these labels: a
    pointer would stand where they have a length octet. -/
theorem NameAt.eq_of_take (h : NameAt buf pos ls k stop) : ∀ {ks : List Bytes},
    (∀ l ∈ ks, LabelBound l) → (buf.drop pos).take (labelsLen ls + 1) =
      (ks.flatMap labelWire ++ 0 :: y).take (labelsLen ls + 1) → ls = ks := by
  induction h with
  | root h =>
    intro ks hks heq
    obtain ⟨post, hpost⟩ := h.drop_eq
    cases ks with
    | nil => rfl
    | cons l ks =>
      obtain ⟨b, t, hb, hne⟩ := labelWire_head (hks l (by simp))
      simp [hpost, hb, hne.symm] at heq
  | @label pos k stop l ls hl h _ ih =>
    intro ks hks heq
    obtain ⟨post, hpost⟩ := h.drop_eq
    cases ks with
    | nil =>
      obtain ⟨b, t, hb, hne⟩ := labelWire_head hl
      simp [hpost, hb, hne] at heq
    | cons l' ks =>
      have hl' := hks l' (by simp)
      have hmax := hl.2
      have hmax' := hl'.2
      unfold maxLabel at hmax hmax'
      have hlen : l.length = l'.length := by
        have hhead := congrArg head? heq
        simp [hpost, labelWire, Fin.ext_iff] at hhead
        omega
      have hcut : ∀ {a : Bytes} (r : Bytes), a.length = l.length →
          (labelWire a ++ r).take (labelsLen (l :: ls) + 1) =
            labelWire a ++ r.take (labelsLen ls + 1) := by
        intro a r ha
        rw [labelsLen_cons, Nat.add_assoc, take_append, labelWire, length_cons, ha,
          Nat.add_sub_cancel_left, take_of_length_le (by simp [ha])]
      rw [hpost, flatMap_cons, append_assoc, hcut post rfl, hcut _ hlen.symm] at heq
      obtain ⟨rfl, hrest⟩ := labelWire_selfDelimiting _ _ _ _ hl hl' heq
      rw [← drop_drop, hpost, drop_left] at ih
      rw [ih (fun x hx => hks x (by simp [hx])) hrest]
  | pointer hmax hlt h _ _ =>
    intro ks hks heq
    obtain ⟨post, hpost⟩ := h.drop_eq
    have hhead := congrArg head? heq
    unfold maxCompressOffset at hmax
    cases ks with
    | nil =>
      simp [hpost, pointerTo, u16Be] at hhead
      omega
    | cons l' ks =>
      have h2 := (hks l' (by simp)).2
      unfold maxLabel at h2
      simp [hpost, pointerTo, u16Be, labelWire, Fin.ext_iff] at hhead
      omega

/-- A name decoded at the start of a buffer whose octets, as far as the name is
    long, start the wire form of `n`. -/
theorem parse_take_wire {e : ℕ} (hrun : parse buf 0 = .ok (s, e))
    (heq : buf.take s.wire.length = (n.wire ++ y).take s.wire.length) : s = n := by
  obtain ⟨k, -, hat⟩ := parse_eq_ok_iff.mp hrun
  refine ext_labels (hat.eq_of_take (y := y) n.label_bound ?_)
  rw [← wire_length, drop_zero, heq]
  simp [wire]

/-! ## Walks -/

/-- The octet at `p` sends a reader of names on to `q`: past a label, or where a pointer says. -/
def Hop (buf : Bytes) (p q : ℕ) : Prop :=
  ∃ len : Byte, buf[p]? = some len ∧
    (0 < len.val ∧ len.val < 64 ∧ q = p + 1 + len.val ∨
      192 ≤ len.val ∧ ∃ b2, buf[p + 1]? = some b2 ∧ q = len.val % 64 * 256 + b2.val)

/-- From where a run succeeds every walk ends, and its pointers go back. -/
theorem walks_of_parseLoop {r : Name × ℕ} : ∀ {fuel : ℕ} {acc : Name} {p pointers : ℕ}
    {resume : Option ℕ}, parseLoop buf fuel acc p resume pointers = some (.ok r) →
      Acc (flip (Hop buf)) p ∧ ∀ p' q, Relation.ReflTransGen (Hop buf) p p' → Hop buf p' q →
        buf[p']?.any (192 ≤ Fin.val ·) = true → q < p' := by
  intro fuel
  induction fuel with
  | zero => intro _ _ _ _ h; cases h
  | succ fuel ih =>
    intro acc p pointers resume h
    have hnext : ∀ q, Hop buf p q → (∃ acc pointers resume,
        parseLoop buf fuel acc q resume pointers = some (.ok r)) ∧
          (buf[p]?.any (192 ≤ Fin.val ·) = true → q < p) := by
      rintro q ⟨b, hb, hq⟩
      rcases parseLoop_succ_eq_ok.mp h with ⟨hb', -⟩ | ⟨b', _, hb', h0, h64, -, -, h⟩ |
        ⟨b', b2, hb', h192, hb2, -, hlt, h⟩ <;> cases hb.symm.trans hb'
      · simp at hq
      · obtain rfl : q = p + 1 + b.val := by omega
        exact ⟨⟨_, _, _, h⟩, by simp [hb]; omega⟩
      · rcases hq with hq | ⟨-, b2', hb2', rfl⟩
        · omega
        · cases hb2'.symm.trans hb2
          exact ⟨⟨_, _, _, h⟩, fun _ => hlt⟩
    refine ⟨⟨p, fun q hop => ?_⟩, fun p' q hops hop hptr => ?_⟩
    · obtain ⟨⟨_, _, _, h⟩, -⟩ := hnext q hop
      exact (ih h).1
    · rcases hops.cases_head with rfl | ⟨q', hop', hops⟩
      · exact (hnext q hop).2 hptr
      · obtain ⟨⟨_, _, _, h⟩, -⟩ := hnext q' hop'
        exact (ih h).2 p' q hops hop hptr

/-- Decompression: the loop returns, with any fuel that suffices the same result, which is what
    `parse` hands on; it succeeds exactly on what reads as a name through backward pointers, within
    the buffer; and from a loop of labels and pointers or from a pointer that does not go back it
    does not. -/
theorem parse_decompresses (buf : Bytes) (pos : ℕ) :
    (∃ r, (∀ fuel, parseFuel ≤ fuel → parseLoop buf fuel root pos none 0 = some r) ∧
      parse buf pos = finish buf r) ∧
    (∀ n stop, parse buf pos = .ok (n, stop) ↔ ∃ k ≤ maxPointers, NameAt buf pos n.labels k stop) ∧
    ∀ n stop, parse buf pos = .ok (n, stop) → stop ≤ buf.length ∧
      Acc (flip (Hop buf)) pos ∧ ∀ p q, Relation.ReflTransGen (Hop buf) pos p → Hop buf p q →
        buf[p]?.any (192 ≤ Fin.val ·) = true → q < p := by
  refine ⟨?_, fun n stop => parse_eq_ok_iff, ?_⟩
  · obtain ⟨r, hr⟩ := Option.isSome_iff_exists.mp (parseLoop_root_isSome buf pos)
    refine ⟨r, fun fuel hfuel => ?_, parse_eq hr⟩
    obtain ⟨k, rfl⟩ := Nat.exists_eq_add_of_le hfuel
    exact parseLoop_mono k hr
  · intro n stop h
    obtain ⟨hloop, hle⟩ := decode_eq_ok h
    exact ⟨hle, walks_of_parseLoop hloop⟩

/-! ## Presentation format -/

/-- Every name is read back from its presentation form. -/
theorem fromAscii_toAscii (n : Name) : fromAscii n.toAscii = .ok n := by
  obtain ⟨ts, hts, hpieces⟩ := presents_toAscii n
  exact hts.fromAscii_eq_ok_iff.mpr hpieces.symm

theorem toAscii_injective {a b : Name} (h : a.toAscii = b.toAscii) : a = b :=
  Except.ok.inj ((fromAscii_toAscii a).symm.trans (h ▸ fromAscii_toAscii b))

/-- What `to_ascii` writes is read back, so it tells names apart. -/
theorem presentation_roundTrip (a b : Name) :
    fromAscii a.toAscii = .ok a ∧ (a.toAscii = b.toAscii → a = b) :=
  ⟨fromAscii_toAscii a, toAscii_injective⟩

theorem lower_escapeByte (b : Byte) : lower (escapeByte b) = escapeByte (toAsciiLowercase b) := by
  revert b; decide +kernel

/-- Lower-casing commutes with the presentation form. -/
theorem lower_toAscii (n : Name) : lower n.toAscii = n.lowered.toAscii := by
  have hlabel : ∀ l : Bytes, lower (l.flatMap escapeByte) = (lower l).flatMap escapeByte := by
    intro l
    induction l with
    | nil => rfl
    | cons b l ih => rw [flatMap_cons, lower_append, lower_escapeByte, ih]; rfl
  have hlabels : ∀ ls : List Bytes, lower (ls.flatMap fun l => l.flatMap escapeByte ++ [46]) =
      (ls.map lower).flatMap fun l => l.flatMap escapeByte ++ [46] := by
    intro ls
    induction ls with
    | nil => rfl
    | cons l ls ih =>
      rw [flatMap_cons, lower_append, lower_append, hlabel, ih]; rfl
  have hroot : n.lowered.isRoot = n.isRoot := by
    simp only [isRoot, wire_lowered, lower_length]
  rw [toAscii, toAscii, hroot]
  split_ifs
  · rfl
  · exact hlabels n.labels

/-- Replacing the first labels of a name by an asterisk leaves a name. -/
theorem labelsOk_star_drop (owner : Name) (h0 : 0 < k) (hk : k ≤ owner.labelCount) :
    LabelsOk ([42] :: owner.labels.drop k) := by
  have hlen := owner.ok.len
  rw [← take_append_drop k owner.labels, labelsLen_append] at hlen
  -- the dropped labels leave room for the asterisk
  have htake : 2 ≤ labelsLen (owner.labels.take k) := by
    obtain ⟨l, ls, hl⟩ : ∃ l ls, owner.labels = l :: ls :=
      exists_cons_of_length_pos (by unfold labelCount at hk; omega)
    have hpos := (owner.ok.label l (by rw [hl]; simp)).1
    obtain ⟨k, rfl⟩ : ∃ m, k = m + 1 := ⟨k - 1, by omega⟩
    rw [hl, take_succ_cons, labelsLen_cons]
    omega
  refine ⟨fun l hl => ?_, by simp only [labelsLen_cons, length_singleton]; omega⟩
  rcases mem_cons.mp hl with rfl | hl
  · decide
  · exact owner.ok.label l (mem_of_mem_drop hl)

/-- `from_ascii(format!("*.{}", n.to_ascii()))`. -/
theorem fromAscii_star (n : Name) :
    (fromAscii ([42, 46] ++ n.toAscii)).toOption =
      if h : LabelsOk ([42] :: n.labels) then some ⟨[42] :: n.labels, h⟩ else none := by
  obtain ⟨ts, hts, hpieces⟩ := presents_toAscii n
  have hstar : Presents ([42, 46] ++ n.toAscii) ([some 42] ++ none :: ts) :=
    .plain (by decide) (by decide) (.dot hts)
  rw [hstar.toOption_fromAscii]
  simp only [pieces_dot, hpieces]
  rfl

end Name

end Runbound.Wire
