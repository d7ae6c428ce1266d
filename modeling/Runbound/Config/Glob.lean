import Runbound.Lib.Text

/-!
# Glob patterns of include directives

`glob_match` (config/parser.rs:623) decides whether a file name matches a pattern. It keeps one
position to fall back to, the last star, and tests whether the two characters are equal before it
tests for a star.

The index `pi` is the rest of the pattern, `ni` the rest of the name, and the pair `star`, `mark`
the rest of the pattern after the star and the rest of the name where its run ends.

* `globMatch_iff`: the patterns that match a name are the right ones exactly if the name has no `*`.
-/

namespace Runbound.Config

open Lib List

/-- The loop of `glob_match` (config/parser.rs:628-647), from the two positions and the last
star. -/
def globLoop (p n : Text) (saved : Option (Text × Text)) : Bool :=
  match n with
  | [] => p.all (· == '*')
  | c :: rest =>
    if p.head?.any fun x => x == '?' || x == c then globLoop p.tail rest saved
    else if p.head? = some '*' then globLoop p.tail (c :: rest) (some (p.tail, c :: rest))
    else
      match saved with
      | some (sp, _ :: m) => globLoop sp m (some (sp, m))
      | _ => false
termination_by (max p.length (saved.elim 0 (·.1.length)), saved.elim 0 (·.2.length), n.length)
decreasing_by
  all_goals cases p <;> simp_all [Prod.lex_def] <;> omega

/-- `glob_match` (config/parser.rs:623-648). -/
def globMatch (pat name : Text) : Bool := globLoop pat name none

/-- The language of a pattern: `?` is one character, `*` any run, and any other character itself. -/
def Matches : Text → Text → Prop
  | [], n => n = []
  | x :: p, n =>
    if x = '*' then ∃ t, t <:+ n ∧ Matches p t
    else ∃ c t, n = c :: t ∧ (x = '?' ∨ x = c) ∧ Matches p t

variable {p q n u v : Text} {saved : Option (Text × Text)}

/-! ## The language -/

theorem matches_nil_iff : Matches p [] ↔ ∀ x ∈ p, x = '*' := by
  induction p with
  | nil => simp [Matches]
  | cons x p ih => by_cases hx : x = '*' <;> simp [Matches, ih]

theorem matches_star_cons {c : Char} :
    Matches ('*' :: p) (c :: n) ↔ Matches p (c :: n) ∨ Matches ('*' :: p) n := by
  simp [Matches, suffix_cons_iff]

theorem matches_cons_iff {x c : Char} (hx : x ≠ '*') :
    Matches (x :: p) (c :: n) ↔ (x = '?' ∨ x = c) ∧ Matches p n := by
  simp [Matches, hx]

/-- A position that neither takes a character nor is a star does not match. -/
theorem not_matches {c : Char} (hx : ¬ (p.head?.any fun x => x == '?' || x == c) = true)
    (hstar : p.head? ≠ some '*') : ¬ Matches p (c :: n) := by
  cases p with
  | nil => simp [Matches]
  | cons x p =>
    have hx' : x ≠ '*' := by simpa using hstar
    simp_all [matches_cons_iff hx']

theorem matches_append (hu : '*' ∉ u) : Matches (u ++ p) n → Matches p (n.drop u.length) := by
  induction u generalizing n with
  | nil => exact id
  | cons x u ih =>
    obtain ⟨hx, hu⟩ := not_or.mp (mt mem_cons.mpr hu)
    simp only [cons_append, Matches, if_neg (Ne.symm hx)]
    rintro ⟨c, t, rfl, -, h⟩
    exact ih hu h

/-- If the last star can end its run later, so can a star at the present position. -/
theorem matches_later (hu : '*' ∉ u) (hlen : u.length = v.length)
    (h : Matches ('*' :: (u ++ p)) (v ++ n).tail) : ∃ t, t <:+ n ∧ Matches p t := by
  obtain ⟨t, ht, hmatch⟩ := h
  have hsuffix : t.drop u.length <:+ v ++ n := (drop_suffix _ _).trans (ht.trans (tail_suffix _))
  have hle : (t.drop u.length).length ≤ n.length := by
    have hle := ht.length_le
    simp only [length_tail, length_append, length_drop] at hle ⊢
    omega
  exact ⟨_, suffix_of_suffix_length_le hsuffix (suffix_append v n) hle, matches_append hu hmatch⟩

/-! ## The loop -/

theorem globLoop_take {x c : Char} (h : x = '?' ∨ x = c) :
    globLoop (x :: p) (c :: n) saved = globLoop p n saved := by
  rw [globLoop.eq_def (x :: p)]
  simp [h]

/-- The present position was reached from the saved one without a star. -/
def Reached (p n : Text) (s : Text × Text) : Prop :=
  '*' ∉ s.2 ∧ ∃ u v, s = (u ++ p, v ++ n) ∧ '*' ∉ u ∧ u.length = v.length

theorem reached_self (hn : '*' ∉ n) : ∀ s ∈ some (p, n), Reached p n s := by
  rintro _ ⟨⟩
  exact ⟨hn, [], [], rfl, not_mem_nil, rfl⟩

/-- The loop finds a match from the present position, or one where the last star has a longer
run. -/
theorem globLoop_iff (hn : '*' ∉ n) (hr : ∀ s ∈ saved, Reached p n s) :
    globLoop p n saved = true ↔ Matches p n ∨ ∃ s ∈ saved, Matches ('*' :: s.1) s.2.tail := by
  induction p, n, saved using globLoop.induct with
  | case1 p saved =>
    rw [globLoop, matches_nil_iff]
    simp only [all_eq_true, beq_iff_eq]
    refine ⟨Or.inl, fun h => h.elim id ?_⟩
    rintro ⟨s, hs, hlater⟩
    obtain ⟨-, u, v, rfl, hu, hlen⟩ := hr s hs
    obtain ⟨t, ht, hmatch⟩ := matches_later hu hlen hlater
    rw [suffix_nil.mp ht] at hmatch
    exact matches_nil_iff.mp hmatch
  | case2 p saved c rest hx ih =>
    obtain ⟨hc, hrest⟩ := not_or.mp (mt mem_cons.mpr hn)
    cases p with
    | nil => simp at hx
    | cons x p =>
      have hxc : x = '?' ∨ x = c := by simpa using hx
      have hstar : x ≠ '*' := by
        rintro rfl
        exact hxc.elim (by decide) hc
      rw [globLoop_take hxc, matches_cons_iff hstar, and_iff_right hxc]
      refine ih hrest fun s hs => ?_
      obtain ⟨hm, u, v, rfl, hu, hlen⟩ := hr s hs
      exact ⟨hm, u ++ [x], v ++ [c], by simp, by simp [hu, hstar.symm], by simp [hlen]⟩
  | case3 p saved c rest hx hstar ih =>
    obtain ⟨p, rfl⟩ := head?_eq_some_iff.mp hstar
    rw [globLoop.eq_def ('*' :: p)]
    dsimp only
    rw [if_neg hx, if_pos hstar, ih hn (reached_self hn)]
    simp only [Option.mem_some_iff, exists_eq_left', tail_cons, ← matches_star_cons]
    refine ⟨Or.inl, fun h => h.elim id ?_⟩
    rintro ⟨s, hs, hlater⟩
    obtain ⟨-, u, v, rfl, hu, hlen⟩ := hr s hs
    obtain ⟨t, ht, t', ht', hmatch⟩ := matches_later hu hlen hlater
    exact ⟨t', ht'.trans ht, hmatch⟩
  | case4 p c rest hx hstar sp d m ih =>
    have hm : '*' ∉ m := fun h => (hr _ rfl).1 (mem_cons_of_mem _ h)
    rw [globLoop.eq_def p, or_iff_right (not_matches hx hstar)]
    dsimp only
    rw [if_neg hx, if_neg hstar, ih hm (reached_self hm)]
    cases m with
    | nil => simp [Matches]
    | cons e m => simp [matches_star_cons]
  | case5 p saved c rest hx hstar hno =>
    rw [globLoop.eq_def p, or_iff_right (not_matches hx hstar)]
    dsimp only
    rw [if_neg hx, if_neg hstar]
    cases saved with
    | none => simp
    | some s =>
      obtain ⟨-, u, v, rfl, -⟩ := hr s rfl
      cases v with
      | nil => exact absurd rfl (hno _ _ _)
      | cons d v => exact absurd rfl (hno _ _ _)

/-! ## Names with a star -/

theorem globLoop_replicate (a r : Text) :
    globLoop (replicate a.length '?' ++ q) (a ++ r) saved = globLoop q r saved := by
  induction a with
  | nil => rfl
  | cons c a ih => exact (globLoop_take (Or.inl rfl)).trans ih

theorem matches_replicate (a r : Text) (h : Matches q r) :
    Matches (replicate a.length '?' ++ q) (a ++ r) := by
  induction a with
  | nil => exact h
  | cons c a ih => exact (matches_cons_iff (by decide)).mpr ⟨Or.inl rfl, ih⟩

/-- A star of the name is taken by a star of the pattern as if that were a plain character, so the
run of the pattern's star is lost. -/
theorem globMatch_iff (name : Text) :
    (∀ pat, globMatch pat name = true ↔ Matches pat name) ↔ '*' ∉ name := by
  constructor
  · intro h hmem
    obtain ⟨a, b, rfl⟩ := append_of_mem hmem
    -- one `?` more than there are characters after the star: its run must be empty
    have hright : Matches (replicate a.length '?' ++ '*' :: (replicate b.length '?' ++ ['?']))
        (a ++ '*' :: b) := by
      refine matches_replicate _ _ ⟨_, suffix_refl _, ?_⟩
      have := matches_replicate ('*' :: b) [] (q := []) rfl
      rwa [append_nil, append_nil, length_cons, replicate_succ'] at this
    have hwrong : globMatch (replicate a.length '?' ++ '*' :: (replicate b.length '?' ++ ['?']))
        (a ++ '*' :: b) = false := by
      rw [globMatch, globLoop_replicate, globLoop_take (Or.inr rfl)]
      have hrest : globLoop (replicate b.length '?' ++ ['?']) (b ++ []) none = globLoop ['?'] [] none :=
        globLoop_replicate b []
      rw [append_nil] at hrest
      rw [hrest, globLoop]
      decide
    rw [(h _).mpr hright] at hwrong
    exact absurd hwrong (by decide)
  · intro hn pat
    rw [globMatch, globLoop_iff hn (by simp)]
    simp

/-- A lone star does not match a name that starts with one. -/
theorem star_missed : globMatch ['*'] ['*', 'a'] = false ∧ Matches ['*'] ['*', 'a'] := by
  refine ⟨?_, [], nil_suffix, rfl⟩
  rw [globMatch]
  simp [globLoop]

end Runbound.Config
