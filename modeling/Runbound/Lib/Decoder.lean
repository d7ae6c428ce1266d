import Mathlib.Data.List.Infix
import Mathlib.Tactic

/-!
# Positional decoders

A decoder reads a fixed buffer at a cursor and either fails or returns a value
with the new cursor. The whole buffer stays visible, so a format may refer back
to earlier offsets.

* `bind_eq_ok`, `times_succ_eq_ok`, `whileBefore_succ_eq_ok`: a successful run, taken
  apart.
* `Reads.bind`: successful runs, put together.
* `Stable`: what was read stays the same when the buffer goes on.
* `Locates`, `Determined`: where a decoder stops, or also what it reads, is the same in two
  buffers with the same front.
* `ReadsBack`: `d` reads `a` wherever the string `w` stands; `ReadsBack.bind` follows
  the sequence of a decoder.
-/

namespace Runbound.Lib

open List

/-- A decoder over symbols `β` with errors `ε`. -/
def Decoder (ε β α : Type) : Type := List β → ℕ → Except ε (α × ℕ)

namespace Decoder

variable {ε β α γ : Type}

instance : Monad (Decoder ε β) where
  pure a := fun _ pos => .ok (a, pos)
  bind d f := fun buf pos =>
    match d buf pos with
    | .ok (a, pos') => f a buf pos'
    | .error e => .error e

/-- Fail with `e`. -/
def fail (e : ε) : Decoder ε β α := fun _ _ => .error e

/-- The cursor. -/
def position : Decoder ε β ℕ := fun _ pos => .ok (pos, pos)

/-- One symbol. -/
def item (eof : ε) : Decoder ε β β := fun buf pos =>
  match buf[pos]? with
  | some b => .ok (b, pos + 1)
  | none => .error eof

/-- `n` symbols. -/
def slice (eof : ε) (n : ℕ) : Decoder ε β (List β) := fun buf pos =>
  if pos + n ≤ buf.length then .ok ((buf.drop pos).take n, pos + n) else .error eof

/-- `d`, `n` times. -/
def times (d : Decoder ε β α) : ℕ → Decoder ε β (List α)
  | 0 => pure []
  | n + 1 => do
    let a ← d
    let as ← times d n
    return a :: as

/-- `d` again and again as long as the cursor is before `stop`. A decoder that always
    moves the cursor needs no more than `stop` minus the cursor of fuel. -/
def whileBefore (stop : ℕ) (d : Decoder ε β α) : ℕ → Decoder ε β (List α)
  | 0 => pure []
  | fuel + 1 => do
    let pos ← position
    if pos < stop then
      let a ← d
      let as ← whileBefore stop d fuel
      return a :: as
    else return []

/-- `d` reads `a` at `pos` and leaves the cursor at `stop`. -/
def Reads (d : Decoder ε β α) (buf : List β) (pos : ℕ) (a : α) (stop : ℕ) : Prop :=
  d buf pos = .ok (a, stop)

variable {d : Decoder ε β α} {f : α → Decoder ε β γ} {buf : List β} {pos stop : ℕ}

theorem bind_eq_ok {c : γ} :
    (d >>= f) buf pos = .ok (c, stop) ↔
      ∃ a mid, d buf pos = .ok (a, mid) ∧ f a buf mid = .ok (c, stop) := by
  show (match d buf pos with | .ok (a, pos') => f a buf pos' | .error e => .error e) = _ ↔ _
  cases hd : d buf pos with
  | error e => simp
  | ok r =>
    obtain ⟨a, mid⟩ := r
    constructor
    · simp
    · simp

variable {d' : Decoder ε β α}

theorem ite_eq_ok {c : Prop} [Decidable c] {r : α × ℕ} :
    (if c then d else d') buf pos = .ok r ↔ c ∧ d buf pos = .ok r ∨ ¬ c ∧ d' buf pos = .ok r := by
  split_ifs with hc <;> simp [hc]

theorem Reads.bind {a : α} {c : γ} {mid : ℕ} (h1 : d.Reads buf pos a mid)
    (h2 : (f a).Reads buf mid c stop) : (d >>= f).Reads buf pos c stop :=
  bind_eq_ok.mpr ⟨a, mid, h1, h2⟩

theorem reads_pure (a : α) : (pure a : Decoder ε β α).Reads buf pos a pos := rfl

variable {as : List α}

theorem times_zero_eq_ok : times d 0 buf pos = .ok (as, stop) ↔ as = [] ∧ stop = pos := by
  constructor
  · intro h
    cases h
    exact ⟨rfl, rfl⟩
  · rintro ⟨rfl, rfl⟩
    rfl

theorem times_succ_eq_ok {n : ℕ} :
    times d (n + 1) buf pos = .ok (as, stop) ↔
      ∃ a mid rest, d buf pos = .ok (a, mid) ∧ times d n buf mid = .ok (rest, stop) ∧
        as = a :: rest := by
  rw [times, bind_eq_ok]
  constructor
  · rintro ⟨a, mid, h1, h2⟩
    obtain ⟨rest, mid', h3, h4⟩ := bind_eq_ok.mp h2
    cases h4
    exact ⟨a, mid, rest, h1, h3, rfl⟩
  · rintro ⟨a, mid, rest, h1, h2, rfl⟩
    exact ⟨a, mid, h1, bind_eq_ok.mpr ⟨rest, stop, h2, rfl⟩⟩

theorem times_length {n : ℕ} (h : times d n buf pos = .ok (as, stop)) : as.length = n := by
  induction n generalizing pos as with
  | zero =>
    obtain ⟨rfl, -⟩ := times_zero_eq_ok.mp h
    rfl
  | succ n ih =>
    obtain ⟨a, mid, rest, -, h2, rfl⟩ := times_succ_eq_ok.mp h
    rw [length_cons, ih h2]

/-- One pass of the loop: nothing left, or one more value. -/
theorem whileBefore_succ_eq_ok {limit fuel : ℕ} :
    whileBefore limit d (fuel + 1) buf pos = .ok (as, stop) ↔
      (limit ≤ pos ∧ as = [] ∧ stop = pos) ∨
      (pos < limit ∧ ∃ a mid rest, d buf pos = .ok (a, mid) ∧
        whileBefore limit d fuel buf mid = .ok (rest, stop) ∧ as = a :: rest) := by
  rw [whileBefore, bind_eq_ok]
  constructor
  · rintro ⟨_, _, hp, h⟩
    cases hp
    split_ifs at h with hlt
    · obtain ⟨a, mid, h1, h⟩ := bind_eq_ok.mp h
      obtain ⟨rest, _, h2, h⟩ := bind_eq_ok.mp h
      cases h
      exact Or.inr ⟨hlt, a, mid, rest, h1, h2, rfl⟩
    · cases h
      exact Or.inl ⟨by omega, rfl, rfl⟩
  · rintro (⟨hle, rfl, rfl⟩ | ⟨hlt, a, mid, rest, h1, h2, rfl⟩)
    · exact ⟨stop, stop, rfl, by rw [if_neg (by omega)]; rfl⟩
    · refine ⟨pos, pos, rfl, ?_⟩
      rw [if_pos hlt]
      exact bind_eq_ok.mpr ⟨a, mid, h1, bind_eq_ok.mpr ⟨rest, stop, h2, rfl⟩⟩

theorem forall_of_whileBefore {limit fuel : ℕ} {P : α → Prop}
    (hd : ∀ pos a mid, d buf pos = .ok (a, mid) → P a)
    (h : whileBefore limit d fuel buf pos = .ok (as, stop)) : ∀ a ∈ as, P a := by
  induction fuel generalizing pos as with
  | zero =>
    cases h
    simp
  | succ fuel ih =>
    rcases whileBefore_succ_eq_ok.mp h with ⟨-, rfl, -⟩ | ⟨-, a, mid, rest, h1, h2, rfl⟩
    · simp
    · intro x hx
      rcases mem_cons.mp hx with rfl | hx
      · exact hd _ _ _ h1
      · exact ih h2 x hx

/-- A loop over a decoder that moves the cursor by `size` moves it by their sum. -/
theorem stop_of_whileBefore {limit fuel : ℕ} {size : α → ℕ}
    (hd : ∀ pos a mid, d buf pos = .ok (a, mid) → mid = pos + size a)
    (h : whileBefore limit d fuel buf pos = .ok (as, stop)) :
    stop = pos + (as.map size).sum := by
  induction fuel generalizing pos as with
  | zero =>
    cases h
    rfl
  | succ fuel ih =>
    rcases whileBefore_succ_eq_ok.mp h with ⟨-, rfl, rfl⟩ | ⟨-, a, mid, rest, h1, h2, rfl⟩
    · rfl
    · have hmid := hd _ _ _ h1
      have hrest := ih h2
      rw [map_cons, sum_cons]
      omega

/-! ## Buffers that go on -/

/-- What `d` reads ends within the buffer, and is the same whatever follows the buffer. -/
def Stable (d : Decoder ε β α) : Prop :=
  ∀ buf pos a stop, d buf pos = .ok (a, stop) →
    (pos ≤ buf.length → stop ≤ buf.length) ∧ ∀ rest, d (buf ++ rest) pos = .ok (a, stop)

theorem stable_pure (a : α) : (pure a : Decoder ε β α).Stable := by
  intro buf pos a' stop h
  cases h
  exact ⟨id, fun _ => rfl⟩

theorem stable_fail (e : ε) : (fail e : Decoder ε β α).Stable := by
  intro buf pos a stop h
  cases h

theorem stable_position : (position : Decoder ε β ℕ).Stable := by
  intro buf pos a stop h
  cases h
  exact ⟨id, fun _ => rfl⟩

theorem Stable.bind (hd : d.Stable) (hf : ∀ a, (f a).Stable) : (d >>= f).Stable := by
  intro buf pos c stop h
  obtain ⟨a, mid, h1, h2⟩ := bind_eq_ok.mp h
  obtain ⟨hmid, hsame1⟩ := hd buf pos a mid h1
  obtain ⟨hstop, hsame2⟩ := hf a buf mid c stop h2
  exact ⟨fun hpos => hstop (hmid hpos),
    fun rest => bind_eq_ok.mpr ⟨a, mid, hsame1 rest, hsame2 rest⟩⟩

theorem Stable.ite {c : Prop} [Decidable c] (h : d.Stable) (h' : d'.Stable) :
    (if c then d else d').Stable := by
  split_ifs
  · exact h
  · exact h'

theorem stable_item (eof : ε) : (item eof : Decoder ε β β).Stable := by
  intro buf pos b stop h
  unfold item at h ⊢
  cases hb : buf[pos]? with
  | none => simp [hb] at h
  | some x =>
    simp only [hb] at h
    obtain ⟨rfl, rfl⟩ := h
    obtain ⟨hlt, -⟩ := List.getElem?_eq_some_iff.mp hb
    refine ⟨fun _ => hlt, ?_⟩
    intro rest
    rw [getElem?_append_left hlt, hb]

theorem stable_slice (eof : ε) (n : ℕ) : (slice eof n : Decoder ε β (List β)).Stable := by
  intro buf pos s stop h
  unfold slice at h ⊢
  split_ifs at h with hle
  cases h
  refine ⟨fun _ => hle, ?_⟩
  intro rest
  have htake : ((buf ++ rest).drop pos).take n = (buf.drop pos).take n := by
    rw [drop_append_of_le_length (by omega), take_append_of_le_length (by rw [length_drop]; omega)]
  rw [if_pos (by rw [length_append]; omega), htake]

theorem Stable.times (h : d.Stable) (n : ℕ) : (times d n).Stable := by
  induction n with
  | zero => exact stable_pure []
  | succ n ih => exact h.bind fun a => ih.bind fun as => stable_pure (a :: as)

theorem Stable.whileBefore (h : d.Stable) (limit fuel : ℕ) : (whileBefore limit d fuel).Stable := by
  induction fuel with
  | zero => exact stable_pure []
  | succ fuel ih =>
    refine stable_position.bind fun pos => Stable.ite ?_ (stable_pure [])
    exact h.bind fun a => ih.bind fun as => stable_pure (a :: as)

/-- `d` with other errors. -/
def mapError {ε' : Type} (g : ε → ε') (d : Decoder ε β α) : Decoder ε' β α := fun buf pos =>
  (d buf pos).mapError g

theorem mapError_eq_ok {ε' : Type} {g : ε → ε'} {r : α × ℕ} :
    d.mapError g buf pos = .ok r ↔ d buf pos = .ok r := by
  unfold mapError
  cases d buf pos <;> simp [Except.mapError]

/-! ## Two buffers with the same front -/

/-- The buffers have the same first `n` symbols. -/
def SameFront (n : ℕ) (buf buf' : List β) : Prop := ∀ i < n, buf[i]? = buf'[i]?

theorem SameFront.mono {n m : ℕ} {buf buf' : List β} (h : SameFront n buf buf') (hm : m ≤ n) :
    SameFront m buf buf' := fun i hi => h i (by omega)

/-- In two buffers with the same front `d` and `d'` stop at the same place, with values related
by `R`.  Only what `d` passes over has to be the same: a pointer may lead it elsewhere. -/
def Follows (R : α → α → Prop) (d d' : Decoder ε β α) : Prop :=
  ∀ buf pos a stop, d buf pos = .ok (a, stop) → pos ≤ stop ∧
    ∀ buf' a' stop', SameFront stop buf buf' → d' buf' pos = .ok (a', stop') → stop' = stop ∧ R a a'

/-- Where `d` stops is determined by what it passes over. -/
def Locates (d : Decoder ε β α) : Prop := Follows (fun _ _ => True) d d

/-- What `d` reads is determined by what it passes over. -/
def Determined (d : Decoder ε β α) : Prop := Follows Eq d d

theorem Follows.bind {R : α → α → Prop} {S : γ → γ → Prop} {f' : α → Decoder ε β γ}
    (hR : ∀ a, R a a) (hd : Follows R d d') (hf : ∀ a a', R a a' → Follows S (f a) (f' a')) :
    Follows S (d >>= f) (d' >>= f') := by
  intro buf pos c stop h
  obtain ⟨a, mid, h1, h2⟩ := bind_eq_ok.mp h
  obtain ⟨hmid, hsame1⟩ := hd buf pos a mid h1
  have hstop : mid ≤ stop := (hf a a (hR a) buf mid c stop h2).1
  refine ⟨hmid.trans hstop, ?_⟩
  intro buf' c' stop' hfront h'
  obtain ⟨a', mid', h1', h2'⟩ := bind_eq_ok.mp h'
  obtain ⟨rfl, haa⟩ := hsame1 buf' a' mid' (hfront.mono hstop) h1'
  exact (hf a a' haa buf mid' c stop h2).2 buf' c' stop' hfront h2'

theorem Follows.mapError {ε' : Type} {g : ε → ε'} {R : α → α → Prop} (h : Follows R d d') :
    Follows R (d.mapError g) (d'.mapError g) := by
  intro buf pos a stop hd
  obtain ⟨hle, hsame⟩ := h buf pos a stop (mapError_eq_ok.mp hd)
  refine ⟨hle, ?_⟩
  intro buf' a' stop' hfront hd'
  exact hsame buf' a' stop' hfront (mapError_eq_ok.mp hd')

theorem Determined.locates (h : d.Determined) : d.Locates := by
  intro buf pos a stop hd
  obtain ⟨hle, hsame⟩ := h buf pos a stop hd
  refine ⟨hle, ?_⟩
  intro buf' a' stop' hfront hd'
  exact ⟨(hsame buf' a' stop' hfront hd').1, trivial⟩

theorem follows_pure {R : α → α → Prop} {a a' : α} (haa : R a a') :
    Follows R (pure a : Decoder ε β α) (pure a') := by
  intro buf pos _ stop h
  cases h
  refine ⟨le_rfl, ?_⟩
  intro buf' _ stop' _ h'
  cases h'
  exact ⟨rfl, haa⟩

theorem determined_pure (a : α) : (pure a : Decoder ε β α).Determined := follows_pure rfl

theorem locates_fail (e : ε) : (fail e : Decoder ε β α).Locates := by
  intro buf pos a stop h
  cases h

theorem determined_item (eof : ε) : (item eof : Decoder ε β β).Determined := by
  intro buf pos b stop h
  unfold item at h
  cases hb : buf[pos]? with
  | none => simp [hb] at h
  | some x =>
    simp only [hb] at h
    obtain ⟨rfl, rfl⟩ := h
    refine ⟨by omega, ?_⟩
    intro buf' b' stop' hfront h'
    rw [item, ← hfront pos (by omega), hb] at h'
    cases h'
    exact ⟨rfl, rfl⟩

theorem locates_slice (eof : ε) (n : ℕ) : (slice eof n : Decoder ε β (List β)).Locates := by
  have hstop : ∀ (buf : List β) pos s stop, slice eof n buf pos = .ok (s, stop) → stop = pos + n := by
    intro buf pos s stop h
    unfold slice at h
    split_ifs at h
    cases h
    rfl
  intro buf pos s stop h
  have h1 := hstop buf pos s stop h
  refine ⟨by omega, ?_⟩
  intro buf' s' stop' _ h'
  have h2 := hstop buf' pos s' stop' h'
  exact ⟨by omega, trivial⟩

theorem Determined.bind (hd : d.Determined) (hf : ∀ a, (f a).Determined) :
    (d >>= f).Determined := by
  apply Follows.bind (fun a => rfl) hd
  rintro a _ rfl
  exact hf a

theorem Determined.bind_locates (hd : d.Determined) (hf : ∀ a, (f a).Locates) :
    (d >>= f).Locates := by
  apply Follows.bind (fun a => rfl) hd
  rintro a _ rfl
  exact hf a

/-- After a decoder of which only the end is determined, the rest may not use its value. -/
theorem Locates.then {e : Decoder ε β γ} (hd : d.Locates) (he : e.Locates) :
    (d >>= fun _ => e).Locates := by
  apply Follows.bind (fun _ => trivial) hd
  intro _ _ _
  exact he

theorem Locates.times (hd : d.Locates) (n : ℕ) : (times d n).Locates := by
  induction n with
  | zero => exact follows_pure trivial
  | succ n ih =>
    refine Follows.bind (fun _ => trivial) hd fun a a' _ => ?_
    exact Follows.bind (fun _ => trivial) ih fun as as' _ => follows_pure trivial

theorem Locates.ite {c : Prop} [Decidable c] (h : d.Locates) (h' : d'.Locates) :
    (if c then d else d').Locates := by
  split_ifs
  · exact h
  · exact h'

/-! ## Reading a string that is known to stand in the buffer -/

/-- Wherever `w` stands, `d` reads `a` and consumes `w`. -/
def ReadsBack (d : Decoder ε β α) (a : α) (w : List β) : Prop :=
  ∀ buf pre : List β, pre ++ w <+: buf → d.Reads buf pre.length a (pre.length + w.length)

theorem readsBack_pure (a : α) : (pure a : Decoder ε β α).ReadsBack a [] := by
  intro buf pre _
  exact reads_pure a

theorem ReadsBack.bind {a : α} {c : γ} {v w : List β} (h1 : d.ReadsBack a v)
    (h2 : (f a).ReadsBack c w) : (d >>= f).ReadsBack c (v ++ w) := by
  intro buf pre h
  rw [← append_assoc] at h
  have hv := h1 buf pre ((prefix_append _ _).trans h)
  have hw := h2 buf (pre ++ v) h
  rw [length_append] at hw
  rw [length_append, ← Nat.add_assoc]
  exact hv.bind hw

/-- The first decoder of a sequence reads the string at the cursor; the others go on after it. -/
theorem ReadsBack.reads_bind {a : α} {c : γ} {pre v w : List β} (h1 : d.ReadsBack a v)
    (h : pre ++ (v ++ w) <+: buf) (h2 : (f a).Reads buf (pre ++ v).length c stop) :
    (d >>= f).Reads buf pre.length c stop := by
  have hv := h1 buf pre ((prefix_append _ w).trans (by rwa [append_assoc]))
  rw [← length_append] at hv
  exact hv.bind h2

/-- A decoder that ends with what it read. -/
theorem ReadsBack.map {a : α} {w : List β} (h : d.ReadsBack a w) (g : α → γ) :
    (d >>= fun a => pure (g a)).ReadsBack (g a) w := by
  simpa using h.bind (f := fun a => pure (g a)) (readsBack_pure (g a))

/-- The loop reads back a sequence of strings, each of which `d` reads back before `limit`. -/
theorem reads_whileBefore {limit : ℕ} {enc : α → List β} {pre : List β} {fuel : ℕ}
    (hd : ∀ a ∈ as, enc a ≠ [] ∧ ∀ pre : List β, pre ++ enc a <+: buf → pre.length + (enc a).length ≤ limit → d.Reads buf pre.length a (pre.length + (enc a).length))
    (h : pre ++ as.flatMap enc <+: buf) (hlimit : limit = pre.length + (as.flatMap enc).length)
    (hfuel : as.length ≤ fuel) : (whileBefore limit d fuel).Reads buf pre.length as limit := by
  induction as generalizing pre fuel with
  | nil =>
    subst hlimit
    cases fuel with
    | zero => rfl
    | succ fuel => exact whileBefore_succ_eq_ok.mpr (Or.inl ⟨le_rfl, rfl, rfl⟩)
  | cons a as ih =>
    obtain ⟨fuel, rfl⟩ : ∃ k, fuel = k + 1 := ⟨fuel - 1, by simp at hfuel; omega⟩
    obtain ⟨hne, hread⟩ := hd a (by simp)
    have hpos := length_pos_of_ne_nil hne
    simp only [flatMap_cons, length_append] at h hlimit
    rw [← append_assoc] at h
    have h1 := hread pre ((prefix_append _ _).trans h) (by omega)
    have h2 : (whileBefore limit d fuel).Reads buf (pre ++ enc a).length as limit :=
      ih (fun x hx => hd x (by simp [hx])) h (by rw [length_append]; omega) (by simpa using hfuel)
    rw [length_append] at h2
    exact whileBefore_succ_eq_ok.mpr (Or.inr ⟨by omega, a, _, as, h1, h2, rfl⟩)

/-- `d` reads, at any cursor from `base` on, the string of each value in its own way. -/
theorem reads_times (enc : γ → List β) (g : γ → α) (as : List γ) (pre : List β) (base : ℕ)
    (hd : ∀ a ∈ as, ∀ pre : List β, base ≤ pre.length → pre ++ enc a <+: buf →
      d.Reads buf pre.length (g a) (pre.length + (enc a).length))
    (hbase : base ≤ pre.length) (h : pre ++ as.flatMap enc <+: buf) :
    (times d as.length).Reads buf pre.length (as.map g) (pre.length + (as.flatMap enc).length) := by
  induction as generalizing pre with
  | nil => rfl
  | cons a as ih =>
    rw [flatMap_cons, ← append_assoc] at h
    have h1 := hd a (by simp) pre hbase ((prefix_append _ _).trans h)
    have h2 := ih (pre ++ enc a) (fun x hx => hd x (by simp [hx])) (by rw [length_append]; omega) h
    rw [length_append, Nat.add_assoc] at h2
    rw [flatMap_cons, length_append]
    exact times_succ_eq_ok.mpr ⟨g a, _, as.map g, h1, h2, rfl⟩

theorem readsBack_item {eof : ε} (b : β) : (item eof).ReadsBack b [b] := by
  rintro _ pre ⟨rest, rfl⟩
  simp [Reads, item]

theorem readsBack_slice {eof : ε} (s : List β) : (slice eof s.length).ReadsBack s s := by
  rintro _ pre ⟨rest, rfl⟩
  simp [Reads, slice]

end Decoder

end Runbound.Lib
