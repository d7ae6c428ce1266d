import Mathlib.Data.List.Basic
import Mathlib.Tactic

/-!
# Self-delimiting encodings

A byte stream made by concatenating fields can be taken apart again when every
field is self-delimiting: an encoding followed by anything determines both the
value and what follows. The combinators below build such encodings from smaller
ones.

* `selfDelimiting_of_length`: fixed-width fields.
* `SelfDelimiting.lengthPrefixed`: a length field followed by that many items.
* `SelfDelimiting.terminated`: a sequence closed by a terminator no item starts
  with.
* `SelfDelimiting.flatMap_injective`: a sequence that runs to the end of the
  stream.
-/

namespace Runbound.Lib

open List

variable {α β : Type*}

/-- On the values satisfying `P`, an encoding followed by anything determines
    the value and what follows. -/
def SelfDelimiting (P : α → Prop) (enc : α → List β) : Prop :=
  ∀ a b x y, P a → P b → enc a ++ x = enc b ++ y → a = b ∧ x = y

/-- A fixed-width injective encoding is self-delimiting. -/
theorem selfDelimiting_of_length {P : α → Prop} {enc : α → List β} {w : ℕ}
    (hlen : ∀ a, P a → (enc a).length = w) (hinj : ∀ a b, P a → P b → enc a = enc b → a = b) :
    SelfDelimiting P enc := by
  intro a b x y ha hb h
  obtain ⟨h1, h2⟩ := append_inj h (by rw [hlen a ha, hlen b hb])
  exact ⟨hinj a b ha hb h1, h2⟩

namespace SelfDelimiting

theorem lengthPrefixed {N : ℕ} {lenEnc : ℕ → List β} (h : SelfDelimiting (· < N) lenEnc) :
    SelfDelimiting (fun l : List β => l.length < N) (fun l => lenEnc l.length ++ l) := by
  intro a b x y ha hb hab
  simp only [append_assoc] at hab
  obtain ⟨hlen, htail⟩ := h _ _ _ _ ha hb hab
  exact append_inj htail hlen

/-- A sequence of nonempty self-delimiting items that runs to the end of the
    stream determines its items. -/
theorem flatMap_injective {P : α → Prop} {enc : α → List β} (h : SelfDelimiting P enc)
    (hne : ∀ a, P a → enc a ≠ []) :
    ∀ as bs : List α, (∀ a ∈ as, P a) → (∀ b ∈ bs, P b) → as.flatMap enc = bs.flatMap enc →
      as = bs := by
  intro as
  induction as with
  | nil =>
    intro bs _ hbs hab
    cases bs with
    | nil => rfl
    | cons b bs =>
      exact absurd (append_eq_nil_iff.mp hab.symm).1 (hne b (hbs b (by simp)))
  | cons a as ih =>
    intro bs has hbs hab
    cases bs with
    | nil =>
      exact absurd (append_eq_nil_iff.mp hab).1 (hne a (has a (by simp)))
    | cons b bs =>
      obtain ⟨rfl, htail⟩ := h a b _ _ (has a (by simp)) (hbs b (by simp)) hab
      rw [ih bs (fun x hx => has x (by simp [hx])) (fun x hx => hbs x (by simp [hx])) htail]

/-- A sequence closed by a terminator that starts no item is self-delimiting. -/
theorem terminated {P : α → Prop} {enc : α → List β} (h : SelfDelimiting P enc) {t : β}
    (ht : ∀ a, P a → ∃ b l, enc a = b :: l ∧ b ≠ t) :
    SelfDelimiting (fun as : List α => ∀ a ∈ as, P a) (fun as => as.flatMap enc ++ [t]) := by
  intro as
  induction as with
  | nil =>
    intro bs x y _ hbs hab
    cases bs with
    | nil => simpa using hab
    | cons b bs =>
      -- an item cannot start where the terminator stands
      obtain ⟨c, l, hc, hne⟩ := ht b (hbs b (by simp))
      simp [hc] at hab
      exact absurd hab.1.symm hne
  | cons a as ih =>
    intro bs x y has hbs hab
    cases bs with
    | nil =>
      obtain ⟨c, l, hc, hne⟩ := ht a (has a (by simp))
      simp [hc] at hab
      exact absurd hab.1 hne
    | cons b bs =>
      simp only [flatMap_cons, append_assoc] at hab
      obtain ⟨rfl, htail⟩ := h a b _ _ (has a (by simp)) (hbs b (by simp)) hab
      obtain ⟨rfl, rfl⟩ := ih bs x y (fun z hz => has z (by simp [hz]))
        (fun z hz => hbs z (by simp [hz])) (by simpa using htail)
      exact ⟨rfl, rfl⟩

end SelfDelimiting

end Runbound.Lib
