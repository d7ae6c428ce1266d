import Mathlib.Data.List.AList
import Mathlib.Tactic

/-!
# Finite maps

Hash maps as Mathlib's association lists without duplicate keys, with the two
operations these lack: keeping the entries that pass a test, and changing the value
under one key.
-/

namespace Runbound.Lib

open List AList

/-- A finite map. The order of the entries stands for the iteration order. -/
abbrev Map (κ ν : Type) : Type := AList fun _ : κ => ν

namespace Map

variable {κ ν : Type} [DecidableEq κ]

/-- `retain`: the entries that pass `p`. -/
def retain (p : κ → ν → Bool) (m : Map κ ν) : Map κ ν where
  entries := m.entries.filter fun e => p e.1 e.2
  nodupKeys := m.nodupKeys.sublist List.filter_sublist

/-- The value under `k`, or `d`, changed by `f`. -/
def modify (k : κ) (d : ν) (f : ν → ν) (m : Map κ ν) : Map κ ν :=
  m.insert k (f ((m.lookup k).getD d))

/-- `entry(k).or_insert(v)`: an entry that is there stays. -/
def orInsert (k : κ) (v : ν) (m : Map κ ν) : Map κ ν := if k ∈ m then m else m.insert k v

variable {k : κ} {m : Map κ ν}

theorem lookup_eq_some_iff {v : ν} :
    m.lookup k = some v ↔ (⟨k, v⟩ : Σ _ : κ, ν) ∈ m.entries := mem_lookup_iff

theorem lookup_retain (p : κ → ν → Bool) (m : Map κ ν) (k : κ) :
    (m.retain p).lookup k = (m.lookup k).filter (p k) := by
  ext v
  rw [lookup_eq_some_iff, Option.filter_eq_some_iff, lookup_eq_some_iff]
  exact mem_filter

theorem lookup_insert_eq (m : Map κ ν) (k k' : κ) (v : ν) :
    (m.insert k v).lookup k' = if k' = k then some v else m.lookup k' := by
  split_ifs with h
  · rw [h, lookup_insert]
  · exact lookup_insert_ne h

theorem lookup_erase_eq (m : Map κ ν) (k k' : κ) :
    (m.erase k).lookup k' = if k' = k then none else m.lookup k' := by
  split_ifs with h
  · rw [h, lookup_erase]
  · exact lookup_erase_ne h

theorem lookup_insert_iff {k' : κ} {v x : ν} :
    (m.insert k v).lookup k' = some x ↔ k' = k ∧ v = x ∨ k' ≠ k ∧ m.lookup k' = some x := by
  rw [lookup_insert_eq]
  split_ifs with h <;> simp [h]

theorem lookup_erase_iff {k' : κ} {x : ν} :
    (m.erase k).lookup k' = some x ↔ k' ≠ k ∧ m.lookup k' = some x := by
  rw [lookup_erase_eq]
  split_ifs with h <;> simp [h]

section Forall

variable {P : κ → ν → Prop} (h : ∀ k v, m.lookup k = some v → P k v)
include h

theorem forall_lookup_insert {v : ν} (hv : P k v) :
    ∀ k' x, (m.insert k v).lookup k' = some x → P k' x := by
  intro k' x hx
  rcases lookup_insert_iff.mp hx with ⟨rfl, rfl⟩ | ⟨-, hx⟩
  · exact hv
  · exact h k' x hx

theorem forall_lookup_erase (k : κ) : ∀ k' x, (m.erase k).lookup k' = some x → P k' x :=
  fun k' x hx => h k' x (lookup_erase_iff.mp hx).2

end Forall

theorem erase_eq_self (h : m.lookup k = none) : m.erase k = m :=
  AList.ext (kerase_of_notMem_keys (lookup_eq_none.mp h))

theorem lookup_modify (m : Map κ ν) (k k' : κ) (d : ν) (f : ν → ν) :
    (m.modify k d f).lookup k' = if k' = k then some (f ((m.lookup k).getD d)) else m.lookup k' :=
  lookup_insert_eq m k k' _

theorem lookup_orInsert (m : Map κ ν) (k k' : κ) (v : ν) :
    (m.orInsert k v).lookup k' =
      if k' = k then some ((m.lookup k).getD v) else m.lookup k' := by
  unfold orInsert
  by_cases hk : k ∈ m
  · rw [if_pos hk]
    obtain ⟨w, hw⟩ := Option.isSome_iff_exists.mp (lookup_isSome.mpr hk)
    split_ifs with h
    · rw [h, hw]; rfl
    · rfl
  · rw [if_neg hk, lookup_insert_eq, lookup_eq_none.mpr hk]
    rfl

theorem mem_iff_lookup : k ∈ m ↔ ∃ v, m.lookup k = some v := by
  rw [← lookup_isSome, Option.isSome_iff_exists]

theorem isEmpty_entries {v : ν} (h : m.lookup k = some v) : m.entries.isEmpty = false := by
  rw [isEmpty_eq_false_iff]
  exact ne_nil_of_mem (lookup_eq_some_iff.mp h)

/-- Insert a list of entries, the later ones on top. -/
def insertAll (es : List (κ × ν)) (m : Map κ ν) : Map κ ν :=
  es.foldl (fun m e => m.insert e.1 e.2) m

theorem insertAll_cons (e : κ × ν) (es : List (κ × ν)) (m : Map κ ν) :
    insertAll (e :: es) m = insertAll es (m.insert e.1 e.2) := rfl

variable {es : List (κ × ν)}

/-- What stands under a key after a list of insertions: one of them, or the old value. -/
theorem lookup_insertAll {v : ν} (h : (insertAll es m).lookup k = some v) :
    (k, v) ∈ es ∨ ((∀ e ∈ es, e.1 ≠ k) ∧ m.lookup k = some v) := by
  induction es generalizing m with
  | nil => exact Or.inr ⟨by simp, h⟩
  | cons e es ih =>
    rcases ih h with hmem | ⟨hne, hl⟩
    · exact Or.inl (mem_cons_of_mem e hmem)
    · rw [lookup_insert_eq] at hl
      split_ifs at hl with hk
      · cases hl
        exact Or.inl (by simp [hk])
      · exact Or.inr ⟨forall_mem_cons.mpr ⟨fun h => hk h.symm, hne⟩, hl⟩

theorem lookup_insertAll_of_notMem (h : ∀ e ∈ es, e.1 ≠ k) :
    (insertAll es m).lookup k = m.lookup k := by
  induction es generalizing m with
  | nil => rfl
  | cons e es ih =>
    obtain ⟨h1, h2⟩ := forall_mem_cons.mp h
    rw [insertAll_cons, ih h2, lookup_insert_eq, if_neg fun h => h1 h.symm]

theorem mem_insertAll : k ∈ insertAll es m ↔ (∃ e ∈ es, e.1 = k) ∨ k ∈ m := by
  induction es generalizing m with
  | nil => simp [insertAll]
  | cons e es ih =>
    rw [insertAll_cons, ih, mem_insert]
    simp only [mem_cons, exists_eq_or_imp]
    constructor
    · rintro (h | rfl | h)
      · exact Or.inl (Or.inr h)
      · simp
      · exact Or.inr h
    · rintro ((rfl | h) | h)
      · simp
      · exact Or.inl h
      · exact Or.inr (Or.inr h)

theorem length_erase_le (m : Map κ ν) (k : κ) : (m.erase k).entries.length ≤ m.entries.length :=
  (kerase_sublist k m.entries).length_le

theorem length_insert_le (m : Map κ ν) (k : κ) (v : ν) :
    (m.insert k v).entries.length ≤ m.entries.length + 1 :=
  Nat.succ_le_succ (length_erase_le m k)

/-- A value put in the place of another does not make the map larger. -/
theorem length_insert_of_mem (h : k ∈ m) (v : ν) :
    (m.insert k v).entries.length ≤ m.entries.length := by
  have hkeys : (List.kerase k m.entries).keys.length = m.entries.keys.length - 1 := by
    rw [keys_kerase]
    exact length_erase_of_mem h
  have hpos : 0 < m.entries.keys.length := length_pos_of_mem h
  simp only [List.keys, length_map] at hkeys hpos
  show (List.kerase k m.entries).length + 1 ≤ m.entries.length
  omega

theorem length_insertAll_le (es : List (κ × ν)) (m : Map κ ν) :
    (insertAll es m).entries.length ≤ m.entries.length + es.length := by
  induction es generalizing m with
  | nil => exact Nat.le_refl _
  | cons e es ih =>
    have hrest := ih (m.insert e.1 e.2)
    have hone := length_insert_le m e.1 e.2
    rw [insertAll_cons, length_cons]
    omega

theorem exists_lookup_insertAll (h : ∃ e ∈ es, e.1 = k) :
    ∃ v, (insertAll es m).lookup k = some v ∧ (k, v) ∈ es := by
  have hsome : k ∈ insertAll es m := mem_insertAll.mpr (Or.inl h)
  obtain ⟨v, hv⟩ := mem_iff_lookup.mp hsome
  refine ⟨v, hv, ?_⟩
  rcases lookup_insertAll hv with hmem | ⟨hne, -⟩
  · exact hmem
  · obtain ⟨e, he, hk⟩ := h
    exact absurd hk (hne e he)

end Map

end Runbound.Lib
