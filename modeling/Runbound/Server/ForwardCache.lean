import Runbound.Server.NegativeTtl

/-!
# The cache of forwarded answers with signatures (`dns/forward.rs`)

Instants are in nanoseconds. The wall clock is `offset` ahead of them, and `put` is given its
second.

Results:
* `stored_of_run`: an entry was put, and lives as long as `forwardDoTtl` says.
* `forwardDoCacheGet_sound`: what a hit returns, and when there is none.
-/

namespace Runbound.Server

open Wire Lib Recursor List Rtype

/-- The key of an entry: a name without its case, and a type. -/
abbrev ForwardKey := List Bytes × U16

/-- What is done to the cache. -/
inductive ForwardOp
  | put (key : ForwardKey) (records : List Record) (authenticated : Bool)
  | get (key : ForwardKey)
  | flush

/-- The second of the wall clock at an instant, as the 32 bits that `put` is given. -/
def wallSecond (offset instant : ℕ) : U32 := Fin.ofNat _ ((instant + offset) / nanos)

/-- One operation at an instant. -/
def ForwardOp.apply (offset : ℕ) (c : ForwardDoCache) : ℕ × ForwardOp → ForwardDoCache
  | (instant, put key records authenticated) =>
    forwardDoCachePut instant (wallSecond offset instant) key records authenticated c
  | (instant, get key) => (forwardDoCacheGet instant key c).2
  | (_, flush) => ∅

/-- The cache after operations. -/
def runForward (offset : ℕ) (ops : List (ℕ × ForwardOp)) : ForwardDoCache :=
  ops.foldl (ForwardOp.apply offset) ∅

/-- The signature has not expired at the second `w` (RFC 4034, section 3.1.5). -/
def SignatureLive (w : U32) (data : Bytes) : Prop :=
  ∃ e0 e1 e2 e3 rest, data.drop 8 = e0 :: e1 :: e2 :: e3 :: rest ∧
    0 < (u32OfBe e0 e1 e2 e3 - w).val ∧ (u32OfBe e0 e1 e2 e3 - w).val < 2147483648

/-! ## Entries -/

/-- The entry that `put` makes at `instant`. -/
def forwardEntry (offset instant : ℕ) (records : List Record) (authenticated : Bool) :
    CachedForward :=
  ⟨records, authenticated, instant,
    instant + (forwardDoTtl records (wallSecond offset instant)).val * nanos⟩

theorem lookup_get {instant : ℕ} {key k : ForwardKey} {c : ForwardDoCache} {e : CachedForward}
    (h : (forwardDoCacheGet instant key c).2.lookup k = some e) : c.lookup k = some e := by
  unfold forwardDoCacheGet at h
  split at h
  · exact h
  · dsimp only at h
    split at h
    · exact h
    · exact (Map.lookup_erase_iff.mp h).2

theorem stored_of_run {offset : ℕ} {ops : List (ℕ × ForwardOp)} {key : ForwardKey}
    {e : CachedForward} (h : (runForward offset ops).lookup key = some e) :
    ∃ instant records authenticated, (instant, .put key records authenticated) ∈ ops ∧
      e = forwardEntry offset instant records authenticated := by
  induction ops using List.reverseRecOn with
  | nil => cases h
  | append_singleton ops p ih =>
    -- whatever the last operation left in place was there before it
    have hbefore : (runForward offset ops).lookup key = some e →
        ∃ instant records authenticated, (instant, .put key records authenticated) ∈ ops ++ [p] ∧
          e = forwardEntry offset instant records authenticated := by
      intro hold
      obtain ⟨instant, records, authenticated, hmem, heq⟩ := ih hold
      exact ⟨instant, records, authenticated, mem_append_left [p] hmem, heq⟩
    rw [runForward, foldl_append, foldl_cons] at h
    obtain ⟨instant, key' | key' | -⟩ := p
    · rename_i records authenticated
      simp only [ForwardOp.apply, forwardDoCachePut] at h
      split_ifs at h
      · exact hbefore h
      · exact hbefore h
      · rcases Map.lookup_insert_iff.mp h with ⟨rfl, rfl⟩ | ⟨-, h⟩
        · exact ⟨instant, records, authenticated, by simp, rfl⟩
        · exact hbefore h
    · exact hbefore (lookup_get h)
    · cases h

/-- The lifetime is bounded by the cap, the TTLs and the signatures. -/
theorem le_forwardDoTtl (records : List Record) (now : U32) :
    forwardDoTtl records now ≤ forwardDoCacheTtlCap ∧
      ∀ r ∈ records, forwardDoTtl records now ≤ r.ttl ∧
        (r.rtype = RRSIG → ∀ data, r.rdata.data? = some data →
          forwardDoTtl records now ≤ rrsigSecs now data) := by
  have heq : forwardDoTtl records now = cacheTtl now ⟨records, records, [], 0, .insecure⟩ := by
    have htop : ∀ x : U32, min x u32Max = x := fun x => min_eq_left (Nat.le_of_lt_succ x.isLt)
    simp only [forwardDoTtl, cacheTtl, append_nil]
    cases nearestRrsigSecs records [] now with
    | none =>
      rw [Option.getD_none, htop]
      rfl
    | some secs => rfl
  simp only [heq, cacheTtl_le_iff, LivesAtMost, append_nil]
  refine ⟨Or.inl le_rfl, fun r hr => ⟨Or.inr (Or.inl ⟨r, hr, le_rfl⟩), fun ht data hdata => ?_⟩⟩
  exact Or.inr (Or.inr ⟨r, hr, ht, data, hdata, le_rfl⟩)

/-! ## Hits -/

/-- The records of a hit are the stored ones, with TTLs above 0 and within what remains. -/
theorem decayed_eq_some {elapsed remaining : U32} {records out : List Record}
    (h : decayed elapsed remaining records = some out) :
    List.Forall₂ (fun r r' : Record => r' = { r with ttl := r'.ttl } ∧ 0 < r'.ttl.val ∧
      r'.ttl.val ≤ remaining.val) records out := by
  induction records generalizing out with
  | nil =>
    cases h
    exact .nil
  | cons r rs ih =>
    simp only [decayed] at h
    split_ifs at h with hlt hzero
    obtain ⟨rest, hrest, rfl⟩ := Option.map_eq_some_iff.mp h
    refine .cons ⟨rfl, Fin.pos_iff_ne_zero.mpr hzero, ?_⟩ (ih hrest)
    exact min_le_right (r.ttl - elapsed) remaining

theorem forwardDoCacheGet_eq_some {instant : ℕ} {key : ForwardKey} {c : ForwardDoCache}
    {out : List Record} {authenticated : Bool}
    (h : (forwardDoCacheGet instant key c).1 = some (out, authenticated)) :
    ∃ hit, c.lookup key = some hit ∧ authenticated = hit.authenticated ∧
      instant < hit.expiresAt ∧
      List.Forall₂ (fun r r' : Record => r' = { r with ttl := r'.ttl } ∧ 0 < r'.ttl.val ∧
        r'.ttl.val * nanos + instant ≤ hit.expiresAt) hit.records out := by
  unfold forwardDoCacheGet at h
  split at h
  · cases h
  rename_i hit hstored
  dsimp only at h
  split at h
  swap
  · cases h
  rename_i out' hserved
  cases h
  split_ifs at hserved with hlive
  refine ⟨hit, hstored, rfl, hlive, (decayed_eq_some hserved).imp ?_⟩
  rintro r r' ⟨hsame, hpos, hle⟩
  refine ⟨hsame, hpos, ?_⟩
  have hsat : (saturate ((hit.expiresAt - instant) / nanos)).val ≤
      (hit.expiresAt - instant) / nanos := (Nat.mod_le _ _).trans (min_le_left _ _)
  have hmul := (Nat.le_div_iff_mul_le (show 0 < nanos by decide)).mp (hle.trans hsat)
  omega

/-- A signature that outlives `life` seconds at one second is live at any second before. -/
theorem signatureLive_of_le {n w life : ℕ} {data : Bytes}
    (hlife : life ≤ (rrsigSecs (Fin.ofNat _ n) data).val) (hnw : n ≤ w) (hw : w < n + life) :
    SignatureLive (Fin.ofNat _ w) data := by
  unfold rrsigSecs at hlife
  split at hlife
  · rename_i e0 e1 e2 e3 rest hdata
    refine ⟨e0, e1, e2, e3, rest, hdata, ?_⟩
    simp only [Fin.sub_def, Fin.ofNat] at hlife ⊢
    split_ifs at hlife with hpast
    · omega
    · simp only at hlife
      omega
  · omega

/-- A hit of a later `get` returns the stored records, with TTLs above 0 that reach neither past
    those of the records nor past the end of the entry; it is within a day of the `put`, and
    before the expiration of every signature. Other keys keep what they have. -/
theorem forwardDoCacheGet_sound (offset : ℕ) (ops : List (ℕ × ForwardOp)) (instant : ℕ)
    (hlater : ∀ p ∈ ops, p.1 ≤ instant) (key : ForwardKey) :
    (∀ out authenticated,
      (forwardDoCacheGet instant key (runForward offset ops)).1 = some (out, authenticated) →
      ∃ start records, (start, .put key records authenticated) ∈ ops ∧
        (runForward offset ops).lookup key =
          some (forwardEntry offset start records authenticated) ∧
        List.Forall₂ (fun r r' : Record => r' = { r with ttl := r'.ttl } ∧ 0 < r'.ttl.val ∧
          r'.ttl.val * nanos + (instant - start) ≤ r.ttl.val * nanos ∧
          r'.ttl.val * nanos + instant ≤
            (forwardEntry offset start records authenticated).expiresAt) records out ∧
        instant < start + 86400 * nanos ∧
        ∀ r ∈ records, r.rtype = RRSIG → ∀ data, r.rdata.data? = some data →
          SignatureLive (wallSecond offset instant) data) ∧
      ∀ other, other ≠ key → (forwardDoCacheGet instant key (runForward offset ops)).2.lookup other =
        (runForward offset ops).lookup other := by
  constructor
  swap
  · intro other hother
    unfold forwardDoCacheGet
    split
    · rfl
    · dsimp only
      split
      · rfl
      · rw [Map.lookup_erase_eq, if_neg hother]
  intro out authenticated h
  obtain ⟨hit, hstored, rfl, hlive, hforall⟩ := forwardDoCacheGet_eq_some h
  obtain ⟨start, records, authenticated, hput, rfl⟩ := stored_of_run hstored
  have hstart : start ≤ instant := hlater _ hput
  obtain ⟨hcap, hbounds⟩ := le_forwardDoTtl records (wallSecond offset start)
  have hday : (forwardDoTtl records (wallSecond offset start)).val ≤ 86400 := hcap
  -- the lifetime of the entry in seconds, and its end
  generalize hlife : forwardDoTtl records (wallSecond offset start) = life at hbounds hday
  have hend : (forwardEntry offset start records authenticated).expiresAt =
      start + life.val * nanos := by rw [← hlife]; rfl
  rw [hend] at hlive hforall
  refine ⟨start, records, hput, hstored, ?_, ?_, ?_⟩
  · have hall := (forall₂_and_left _ _).mpr ⟨fun r hr => (hbounds r hr).1, hforall⟩
    refine hall.imp ?_
    rintro r r' ⟨httl, hsame, hpos, hle⟩
    have hmul := Nat.mul_le_mul_right nanos (Fin.le_def.mp httl)
    exact ⟨hsame, hpos, by omega, hend ▸ hle⟩
  · have hmul := Nat.mul_le_mul_right nanos hday
    omega
  · intro r hr ht data hdata
    -- a record was served, so at least one second of the entry is left
    have hleft : nanos + instant ≤ start + life.val * nanos := by
      obtain ⟨r0, rs, rfl⟩ := exists_cons_of_ne_nil (ne_nil_of_mem hr)
      obtain ⟨r', -, ⟨-, hpos, hle⟩, -⟩ := forall₂_cons_left_iff.mp hforall
      have hmul := Nat.mul_le_mul_right nanos hpos
      omega
    apply signatureLive_of_le ((hbounds r hr).2 ht data hdata)
    · exact Nat.div_le_div_right (by omega)
    · unfold nanos at hleft ⊢
      omega

theorem expiringRecord_parsed : (Rdata.unknown RRSIG
    [0, 0, 0, 0, 0, 0, 0, 0, 0, 0, 4, 16]).parsedAs RRSIG = true := by decide

/-- A signature of `a.` that expires at second 1040. -/
def expiringRecord : Record :=
  ⟨Local.nameA, RRSIG, Class.IN, 300, .unknown RRSIG
    [0, 0, 0, 0, 0, 0, 0, 0, 0, 0, 4, 16], expiringRecord_parsed⟩

/-- It is put at second 1000. -/
def expiringOps : List (ℕ × ForwardOp) :=
  [(1000 * nanos, .put (Local.nameA.key, Rtype.A) [expiringRecord] true)]

/-- Half a second later it is served for 39 seconds. -/
theorem forwardDoCacheGet_sound_half :
    ((forwardDoCacheGet (1000 * nanos + nanos / 2) (Local.nameA.key, Rtype.A)
      (runForward 0 expiringOps)).1.map fun hit => hit.1.map fun r => r.ttl.val) = some [39] ∧
      ∀ out authenticated, (forwardDoCacheGet (1000 * nanos + nanos / 2) (Local.nameA.key, Rtype.A)
        (runForward 0 expiringOps)).1 = some (out, authenticated) →
        1000 * nanos + nanos / 2 < 1000 * nanos + 86400 * nanos := by
  refine ⟨by decide +kernel, fun out authenticated h => ?_⟩
  obtain ⟨start, records, hput, -, -, hday, -⟩ := (forwardDoCacheGet_sound 0 expiringOps
    (1000 * nanos + nanos / 2) (by simp [expiringOps]) (Local.nameA.key, Rtype.A)).1 out
    authenticated h
  obtain ⟨rfl, -⟩ : start = 1000 * nanos ∧ _ := by simpa [expiringOps] using hput
  exact hday

end Runbound.Server
