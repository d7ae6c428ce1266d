import Mathlib.Data.List.Basic
import Mathlib.Order.Basic
import Mathlib.Tactic

/-!
# Cyclic chains and the arcs between their elements

A finite set of points of a linear order, listed in increasing order, is closed
into a ring by letting the last point be followed by the first. Each point and
its successor bound an open arc; the arc from the last point wraps around.

* `not_mem_of_covers`: a point inside an arc is not in the chain.
* `exists_covers`: every point outside the chain lies inside some arc.
* `ring_functional`, `ring_injective_right`: one successor, one predecessor.
* `exists_arc_around`: an arc can be drawn around any point outside a finite set.

The points are the keys `f b` of the elements `b` of a list.
-/

namespace Runbound.Lib

open List

variable {α β : Type*} [LinearOrder α]

/-- `x` lies strictly inside the arc from `o` to `nx`; an arc whose end does not
    come after its start wraps around. -/
def Covers (o nx x : α) : Prop := if o < nx then o < x ∧ x < nx else o < x ∨ x < nx

instance (o nx x : α) : Decidable (Covers o nx x) := by unfold Covers; infer_instance

/-- Consecutive elements, the last one followed by `first`. -/
def arcsTo (first : β) : List β → List (β × β)
  | [] => []
  | [b] => [(b, first)]
  | b :: c :: l => (b, c) :: arcsTo first (c :: l)

/-- The elements of a list with their successors around the ring. -/
def ring : List β → List (β × β)
  | [] => []
  | b :: l => arcsTo b (b :: l)

theorem mem_arcsTo {first : β} {p : β × β} :
    ∀ {l : List β}, p ∈ arcsTo first l ↔
      (∃ pre post, l = pre ++ p.1 :: p.2 :: post) ∨ (∃ pre, l = pre ++ [p.1] ∧ p.2 = first) := by
  intro l
  induction l with
  | nil => simp [arcsTo]
  | cons b l ih =>
    cases l with
    | nil =>
      simp only [arcsTo, mem_singleton]
      constructor
      · rintro rfl; exact Or.inr ⟨[], rfl, rfl⟩
      · rintro (⟨pre, post, h⟩ | ⟨pre, h, h2⟩)
        · have := congrArg List.length h; simp at this; omega
        · have hpre : pre = [] := by
            have := congrArg List.length h; simp at this; exact this
          subst hpre
          simp only [nil_append, List.cons.injEq, and_true] at h
          exact Prod.ext h.symm h2
    | cons c l =>
      simp only [arcsTo, mem_cons, ih]
      constructor
      · rintro (rfl | ⟨pre, post, h⟩ | ⟨pre, h, h2⟩)
        · exact Or.inl ⟨[], l, rfl⟩
        · exact Or.inl ⟨b :: pre, post, by rw [h]; rfl⟩
        · exact Or.inr ⟨b :: pre, by rw [h]; rfl, h2⟩
      · rintro (⟨pre, post, h⟩ | ⟨pre, h, h2⟩)
        · cases pre with
          | nil =>
            simp only [nil_append, List.cons.injEq] at h
            exact Or.inl (Prod.ext h.1.symm h.2.1.symm)
          | cons d pre =>
            simp only [cons_append, List.cons.injEq] at h
            exact Or.inr (Or.inl ⟨pre, post, h.2⟩)
        · cases pre with
          | nil => simp at h
          | cons d pre =>
            simp only [cons_append, List.cons.injEq] at h
            exact Or.inr (Or.inr ⟨pre, h.2, h2⟩)

/-- Both ends of an arc are in the chain. -/
theorem mem_of_mem_ring {l : List β} {p : β × β} (h : p ∈ ring l) : p.1 ∈ l ∧ p.2 ∈ l := by
  cases l with
  | nil => simp [ring] at h
  | cons b l =>
    rcases mem_arcsTo.mp h with ⟨pre, post, hl⟩ | ⟨pre, hl, h2⟩
    · rw [hl]; simp
    · rw [hl, h2]
      refine ⟨by simp, ?_⟩
      rw [← hl]; simp

/-- Every element of the chain starts an arc. -/
theorem exists_arc_of_mem {l : List β} {b : β} (hb : b ∈ l) : ∃ c, (b, c) ∈ ring l := by
  cases l with
  | nil => simp at hb
  | cons a l =>
    obtain ⟨pre, post, hl⟩ := append_of_mem hb
    cases post with
    | nil => exact ⟨a, mem_arcsTo.mpr (Or.inr ⟨pre, hl, rfl⟩)⟩
    | cons c post => exact ⟨c, mem_arcsTo.mpr (Or.inl ⟨pre, post, hl⟩)⟩

section Sorted

variable {f : β → α} {l : List β} (hl : l.Pairwise fun b c => f b < f c)

include hl

/-- The wrapping arc never looks like an ordinary one, and an ordinary one ends
    right after it starts. -/
theorem ring_cases {p : β × β} (hp : p ∈ ring l) :
    (f p.1 < f p.2 ∧ ∀ c ∈ l, f c ≤ f p.1 ∨ f p.2 ≤ f c) ∨
      (¬ f p.1 < f p.2 ∧ ∀ c ∈ l, f p.2 ≤ f c ∧ f c ≤ f p.1) := by
  cases l with
  | nil => simp [ring] at hp
  | cons a l =>
    rcases mem_arcsTo.mp hp with ⟨pre, post, h⟩ | ⟨pre, h, h2⟩
    · left
      rw [h] at hl ⊢
      obtain ⟨-, htail, hcross⟩ := pairwise_append.mp hl
      obtain ⟨h1, h3⟩ := pairwise_cons.mp htail
      obtain ⟨h4, -⟩ := pairwise_cons.mp h3
      refine ⟨h1 _ (by simp), fun c hc => ?_⟩
      rcases mem_append.mp hc with hc | hc
      · exact Or.inl (hcross c hc _ (by simp)).le
      · rcases mem_cons.mp hc with rfl | hc
        · exact Or.inl le_rfl
        · rcases mem_cons.mp hc with rfl | hc
          · exact Or.inr le_rfl
          · exact Or.inr (h4 c hc).le
    · right
      have hfirst : ∀ c ∈ a :: l, f p.2 ≤ f c := by
        intro c hc
        rw [h2]
        rcases mem_cons.mp hc with rfl | hc
        · exact le_rfl
        · exact ((pairwise_cons.mp hl).1 c hc).le
      have hlast : ∀ c ∈ a :: l, f c ≤ f p.1 := by
        intro c hc
        rw [h] at hl hc
        obtain ⟨-, -, hcross⟩ := pairwise_append.mp hl
        rcases mem_append.mp hc with hc | hc
        · exact (hcross c hc _ (by simp)).le
        · simp only [mem_singleton] at hc; rw [hc]
      have hmem : p.1 ∈ a :: l := by rw [h]; simp
      exact ⟨not_lt.mpr (hfirst _ hmem), fun c hc => ⟨hfirst c hc, hlast c hc⟩⟩

/-- A point inside an arc is not in the chain. -/
theorem not_mem_of_covers {p : β × β} {x : α} (hp : p ∈ ring l)
    (hx : Covers (f p.1) (f p.2) x) : ∀ c ∈ l, f c ≠ x := by
  intro c hc heq
  subst heq
  unfold Covers at hx
  rcases ring_cases hl hp with ⟨hlt, hall⟩ | ⟨hnlt, hall⟩
  · rw [if_pos hlt] at hx
    rcases hall c hc with h | h
    · exact absurd hx.1 (not_lt.mpr h)
    · exact absurd hx.2 (not_lt.mpr h)
  · rw [if_neg hnlt] at hx
    obtain ⟨h1, h2⟩ := hall c hc
    rcases hx with h | h
    · exact absurd h (not_lt.mpr h2)
    · exact absurd h (not_lt.mpr h1)

omit hl in
/-- Above the first element, the search for the covering arc walks the chain. -/
theorem exists_covers_above {first : β} {x : α} :
    ∀ (b : β) (t : List β), (b :: t).Pairwise (fun b c => f b < f c) →
      (∀ c ∈ b :: t, f first ≤ f c) → (∀ c ∈ b :: t, f c ≠ x) → f b < x →
      ∃ p ∈ arcsTo first (b :: t), Covers (f p.1) (f p.2) x := by
  intro b t
  induction t generalizing b with
  | nil =>
    intro _ hfirst _ hbx
    refine ⟨(b, first), by simp [arcsTo], ?_⟩
    rw [Covers, if_neg (not_lt.mpr (hfirst b (by simp)))]
    exact Or.inl hbx
  | cons c t ih =>
    intro hsort hfirst hne hbx
    rcases lt_trichotomy x (f c) with hxc | hxc | hxc
    · have hbc : f b < f c := (pairwise_cons.mp hsort).1 c (by simp)
      exact ⟨(b, c), by simp [arcsTo], by rw [Covers, if_pos hbc]; exact ⟨hbx, hxc⟩⟩
    · exact absurd hxc.symm (hne c (by simp))
    · obtain ⟨p, hp, hcov⟩ := ih c (pairwise_cons.mp hsort).2
        (fun d hd => hfirst d (mem_cons_of_mem _ hd))
        (fun d hd => hne d (mem_cons_of_mem _ hd)) hxc
      exact ⟨p, by simp only [arcsTo, mem_cons]; exact Or.inr hp, hcov⟩

/-- Every point outside a nonempty chain lies inside some arc. -/
theorem exists_covers (hne : l ≠ []) {x : α} (hx : ∀ c ∈ l, f c ≠ x) :
    ∃ p ∈ ring l, Covers (f p.1) (f p.2) x := by
  cases l with
  | nil => exact absurd rfl hne
  | cons a l =>
    have hfirst : ∀ c ∈ a :: l, f a ≤ f c := by
      intro c hc
      rcases mem_cons.mp hc with rfl | hc
      · exact le_rfl
      · exact ((pairwise_cons.mp hl).1 c hc).le
    rcases lt_trichotomy x (f a) with hxa | hxa | hxa
    · -- below the first element: the wrapping arc
      obtain ⟨pre, b, hb⟩ : ∃ pre b, a :: l = pre ++ [b] :=
        ⟨(a :: l).dropLast, (a :: l).getLast (by simp), (dropLast_append_getLast _).symm⟩
      refine ⟨(b, a), mem_arcsTo.mpr (Or.inr ⟨pre, hb, rfl⟩), ?_⟩
      have hmem : b ∈ a :: l := by rw [hb]; simp
      rw [Covers, if_neg (not_lt.mpr (hfirst b hmem))]
      exact Or.inr hxa
    · exact absurd hxa.symm (hx a (by simp))
    · exact exists_covers_above a l hl hfirst hx hxa

/-- An element has only one predecessor. -/
theorem ring_injective_right {b c d : β} (hb : (b, d) ∈ ring l) (hc : (c, d) ∈ ring l) :
    f b = f c := by
  obtain ⟨hbm, -⟩ := mem_of_mem_ring hb
  obtain ⟨hcm, -⟩ := mem_of_mem_ring hc
  by_contra hne
  rcases lt_or_gt_of_ne hne with hlt | hlt
  all_goals
    rcases ring_cases hl hb with ⟨h1, h2⟩ | ⟨h1, h2⟩ <;>
    rcases ring_cases hl hc with ⟨h3, h4⟩ | ⟨h3, h4⟩ <;>
    simp only at h1 h2 h3 h4
  · rcases h2 c hcm with h | h
    · exact absurd hlt (not_lt.mpr h)
    · exact absurd h3 (not_lt.mpr h)
  · exact absurd h1 (not_lt.mpr (h4 b hbm).1)
  · exact absurd hlt (not_lt.mpr (h2 c hcm).2)
  · exact absurd hlt (not_lt.mpr (h2 c hcm).2)
  · rcases h4 b hbm with h | h
    · exact absurd hlt (not_lt.mpr h)
    · exact absurd h1 (not_lt.mpr h)
  · exact absurd hlt (not_lt.mpr (h4 b hbm).2)
  · exact absurd h3 (not_lt.mpr (h2 c hcm).1)
  · exact absurd hlt (not_lt.mpr (h4 b hbm).2)

/-- Elements are told apart by their keys. -/
theorem eq_of_key_eq {b c : β} (hb : b ∈ l) (hc : c ∈ l) (h : f b = f c) : b = c := by
  have hnodup : (l.map f).Nodup := pairwise_map.mpr (hl.imp ne_of_lt)
  exact inj_on_of_nodup_map hnodup hb hc h

/-- An arc is determined by where it starts. -/
theorem ring_functional {p p' : β × β} (hp : p ∈ ring l) (hp' : p' ∈ ring l)
    (h : f p.1 = f p'.1) : p = p' := by
  obtain ⟨h1, h2⟩ := mem_of_mem_ring hp
  obtain ⟨h1', h2'⟩ := mem_of_mem_ring hp'
  refine Prod.ext (eq_of_key_eq hl h1 h1' h) (eq_of_key_eq hl h2 h2' ?_)
  rcases ring_cases hl hp with ⟨hlt, hall⟩ | ⟨hlt, hall⟩ <;>
    rcases ring_cases hl hp' with ⟨hlt', hall'⟩ | ⟨hlt', hall'⟩
  · refine le_antisymm ((hall _ h2').resolve_left ?_) ((hall' _ h2).resolve_left ?_)
    · exact not_le.mpr (h ▸ hlt')
    · exact not_le.mpr (h ▸ hlt)
  · exact absurd (h ▸ (hall' _ h2).2) (not_le.mpr hlt)
  · exact absurd (h ▸ (hall _ h2').2) (not_le.mpr hlt')
  · exact le_antisymm (hall _ h2').1 (hall' _ h2).1

end Sorted

/-- Around a point outside a finite set there is an arc between points of the set
    that meets no other point of it. -/
theorem exists_arc_around {s : Finset α} {x : α} (hs : s.Nonempty) (hx : x ∉ s) :
    ∃ o ∈ s, ∃ nx ∈ s, Covers o nx x ∧ ∀ y ∈ s, ¬ Covers o nx y := by
  have hsort : s.sort.Pairwise fun b c => id b < id c := (Finset.sortedLT_sort s).pairwise
  have hmem : ∀ {y}, y ∈ s.sort ↔ y ∈ s := Finset.mem_sort _
  have hne : s.sort ≠ [] := by
    obtain ⟨y, hy⟩ := hs
    exact ne_nil_of_mem (hmem.mpr hy)
  obtain ⟨p, hp, hcov⟩ := exists_covers hsort hne fun c hc (e : c = x) => hx (e ▸ hmem.mp hc)
  obtain ⟨h1, h2⟩ := mem_of_mem_ring hp
  exact ⟨p.1, hmem.mp h1, p.2, hmem.mp h2, hcov, fun y hy hc =>
    not_mem_of_covers hsort hp hc y (hmem.mpr hy) rfl⟩

end Runbound.Lib
