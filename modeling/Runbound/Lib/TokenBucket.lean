import Mathlib.Algebra.Order.Floor.Div
import Mathlib.Tactic

/-!
# Token buckets

A bucket holds up to `burst` tokens and gains `rate` of them in each `window`. A call takes
one token or is refused. Elapsed time is measured in whole units since the last refill, a
refill that would give no token is put off, and a bucket that was not refilled for a whole
window is full again.

The calls of a system come with a time. If the system keeps one bucket for the calls that
count, and forgets it only after an idle window, then with `burst ≤ rate` no interval of `T`
units sees more than `burst + ⌈rate * T / window⌉` of them pass.

* `Covered`: what was taken is covered by the burst and the time since `base`.
* `passes_le`: the bound, for every chronological sequence of calls.
-/

namespace Runbound.Lib

/-- Tokens, and the time of the last refill. -/
structure Bucket where
  tokens : ℕ
  last : ℕ

/-- `rate` tokens in `window` units of time, and `burst` of them at most. -/
structure Meter where
  burst : ℕ
  rate : ℕ
  window : ℕ
  unit : ℕ
  window_pos : 0 < window
  unit_pos : 0 < unit

namespace Meter

variable (m : Meter)

/-- Whole units since the last refill. -/
def elapsed (now : ℕ) (b : Bucket) : ℕ := (now - b.last) / m.unit

/-- The bucket with what it has gained. -/
def refill (now : ℕ) (b : Bucket) : Bucket :=
  if m.window ≤ m.elapsed now b then ⟨m.burst, now⟩
  else
    let gain := m.rate * m.elapsed now b / m.window
    if 0 < gain then ⟨min (b.tokens + gain) m.burst, now⟩ else b

/-- One token, if there is one. -/
def take (b : Bucket) : Bool × Bucket :=
  if 0 < b.tokens then (true, { b with tokens := b.tokens - 1 }) else (false, b)

/-- A call; a bucket that is not there yet starts full. -/
def call (now : ℕ) (o : Option Bucket) : Bool × Bucket :=
  take (m.refill now (o.getD ⟨m.burst, now⟩))

/-- The bucket may be forgotten after an idle window. -/
def Forgets (now : ℕ) (o o' : Option Bucket) : Prop :=
  o' = o ∨ (o' = none ∧ ∀ b, o = some b → m.window ≤ m.elapsed now b)

/-- What a step at time `now` does to the bucket: a call that counts goes through it, or is
    refused without it. -/
inductive Step (now : ℕ) (counts : Bool) (o : Option Bucket) : Bool → Option Bucket → Prop
  | skip {pass : Bool} {o' : Option Bucket} (hforget : m.Forgets now o o')
      (hpass : counts = true → pass = false) : Step now counts o pass o'
  | call {o' : Option Bucket} (hforget : m.Forgets now o o') :
      Step now counts o (m.call now o').1 (some (m.call now o').2)

/-! ## One bucket -/

/-- The bucket is within its bounds at time `now`. -/
def Sound (now : ℕ) (b : Bucket) : Prop := b.tokens ≤ m.burst ∧ b.last ≤ now

/-- What was taken since `base`, and what is left, is covered by the burst and the time. -/
def Covered (base used : ℕ) (b : Bucket) : Prop :=
  base ≤ b.last ∧
    m.window * (used + b.tokens) ≤ m.window * m.burst + m.rate * ((b.last - base) / m.unit)

section

variable {m} {now base used : ℕ} {b : Bucket} {o o' : Option Bucket}

theorem Forgets.trans {o₁ o₂ o₃ : Option Bucket} (h : m.Forgets now o₁ o₂)
    (h' : m.Forgets now o₂ o₃) : m.Forgets now o₁ o₃ := by
  rcases h' with rfl | ⟨rfl, hidle⟩
  · exact h
  · rcases h with rfl | ⟨rfl, hidle'⟩
    · exact Or.inr ⟨rfl, hidle⟩
    · exact Or.inr ⟨rfl, hidle'⟩

/-- A bucket is either left alone, and little time has passed, or refilled now. -/
theorem refill_cases (now : ℕ) (b : Bucket) :
    (m.refill now b = b ∧ m.rate * m.elapsed now b < m.window) ∨
      (∃ gain, m.window * gain ≤ m.rate * m.elapsed now b ∧
        m.refill now b = ⟨min (b.tokens + gain) m.burst, now⟩) ∨
      (m.window ≤ m.elapsed now b ∧ m.refill now b = ⟨m.burst, now⟩) := by
  unfold refill
  by_cases hfull : m.window ≤ m.elapsed now b
  · exact Or.inr (Or.inr ⟨hfull, by rw [if_pos hfull]⟩)
  · rw [if_neg hfull]
    by_cases hgain : 0 < m.rate * m.elapsed now b / m.window
    · exact Or.inr (Or.inl ⟨_, Nat.mul_div_le _ _, by rw [if_pos hgain]⟩)
    · refine Or.inl ⟨by rw [if_neg hgain], ?_⟩
      have hzero : m.rate * m.elapsed now b / m.window = 0 := Nat.eq_zero_of_not_pos hgain
      exact (Nat.div_eq_zero_iff_lt m.window_pos).mp hzero

/-- Nothing is gained in no time. -/
theorem refill_now (now n : ℕ) : m.refill now ⟨n, now⟩ = ⟨n, now⟩ := by
  have hzero : m.elapsed now ⟨n, now⟩ = 0 := by simp [elapsed]
  have hwindow := m.window_pos
  unfold refill
  rw [hzero, if_neg (by omega)]
  simp

theorem sound_refill (h : m.Sound now b) : m.Sound now (m.refill now b) := by
  obtain ⟨htokens, hlast⟩ := h
  rcases refill_cases (m := m) now b with ⟨heq, -⟩ | ⟨gain, -, heq⟩ | ⟨-, heq⟩
  · rw [heq]
    exact ⟨htokens, hlast⟩
  · rw [heq]
    exact ⟨min_le_right _ _, le_rfl⟩
  · rw [heq]
    exact ⟨le_rfl, le_rfl⟩

theorem take_last (b : Bucket) : (take b).2.last = b.last := by
  unfold take
  split_ifs <;> rfl

theorem call_last (hlast : b.last ≤ now) : (m.call now (some b)).2.last ≤ now := by
  show (take (m.refill now b)).2.last ≤ now
  rw [take_last]
  rcases refill_cases (m := m) now b with ⟨heq, -⟩ | ⟨gain, -, heq⟩ | ⟨-, heq⟩ <;> rw [heq]
  exact hlast

theorem take_tokens (b : Bucket) : (take b).1.toNat + (take b).2.tokens = b.tokens := by
  unfold take
  split_ifs with h
  · show 1 + (b.tokens - 1) = b.tokens
    omega
  · simp

theorem sound_getD (h : ∀ b, o = some b → m.Sound now b) : m.Sound now (o.getD ⟨m.burst, now⟩) := by
  cases o with
  | none => exact ⟨le_rfl, le_rfl⟩
  | some b => exact h b rfl

theorem sound_call (h : ∀ b, o = some b → m.Sound now b) : m.Sound now (m.call now o).2 := by
  obtain ⟨htokens, hlast⟩ := sound_refill (sound_getD h)
  have htake := take_tokens (m.refill now (o.getD ⟨m.burst, now⟩))
  refine ⟨?_, ?_⟩
  · show (take _).2.tokens ≤ m.burst
    omega
  · show (take _).2.last ≤ now
    rw [take_last]
    exact hlast

/-- A call on a bucket that was forgotten after an idle window is one on the bucket itself. -/
theorem call_forgotten (hidle : m.window ≤ m.elapsed now b) :
    m.call now none = m.call now (some b) := by
  have hold : m.refill now b = ⟨m.burst, now⟩ := if_pos hidle
  show take (m.refill now ⟨m.burst, now⟩) = take (m.refill now b)
  rw [refill_now, hold]

/-- At the time of its refill a bucket gives a token. -/
theorem call_of_token (now n : ℕ) : m.call now (some ⟨n + 1, now⟩) = (true, ⟨n, now⟩) := by
  show take (m.refill now ⟨n + 1, now⟩) = _
  rw [refill_now]
  rfl

/-- A bucket that was idle for a window is full again. -/
theorem call_of_idle {n : ℕ} (hburst : m.burst = n + 1) (hidle : m.window ≤ m.elapsed now b) :
    m.call now (some b) = (true, ⟨n, now⟩) := by
  have hfull : m.refill now b = ⟨m.burst, now⟩ := if_pos hidle
  show take (m.refill now b) = _
  rw [hfull, hburst]
  rfl

/-- A new bucket is full. -/
theorem call_of_new {n : ℕ} (hburst : m.burst = n + 1) (now : ℕ) :
    m.call now none = (true, ⟨n, now⟩) := by
  rw [← call_of_token (m := m), ← hburst]
  rfl

/-! ## Covered calls -/

theorem Covered.take (h : m.Covered base used b) :
    m.Covered base (used + (take b).1.toNat) (take b).2 := by
  obtain ⟨hbase, hcover⟩ := h
  have htokens := take_tokens b
  have hlast := take_last b
  refine ⟨by omega, ?_⟩
  rw [hlast, Nat.add_assoc, htokens]
  exact hcover

/-- Time gained before and after the last refill adds up. -/
theorem units_add_le (hbase : base ≤ b.last) (hlast : b.last ≤ now) :
    (b.last - base) / m.unit + m.elapsed now b ≤ (now - base) / m.unit := by
  have hsum : now - base = (b.last - base) + (now - b.last) := by omega
  rw [hsum]
  exact Nat.div_add_div_le_add_div

section

variable (hburst : m.burst ≤ m.rate) (h : m.Covered base used b) (hlast : b.last ≤ now)
include hburst h hlast

theorem Covered.refill : m.Covered base used (m.refill now b) := by
  obtain ⟨hbase, hcover⟩ := h
  have hunits := Nat.mul_le_mul_left m.rate (units_add_le (m := m) hbase hlast)
  rw [Nat.mul_add] at hunits
  rcases refill_cases (m := m) now b with ⟨heq, -⟩ | ⟨gain, hgain, heq⟩ | ⟨hidle, heq⟩
  · rw [heq]
    exact ⟨hbase, hcover⟩
  · rw [heq]
    refine ⟨by show base ≤ now; omega, ?_⟩
    show m.window * (used + min (b.tokens + gain) m.burst) ≤ _ + m.rate * ((now - base) / m.unit)
    have hmin : m.window * (used + min (b.tokens + gain) m.burst) ≤
        m.window * (used + b.tokens) + m.window * gain := by
      rw [← Nat.mul_add]
      exact Nat.mul_le_mul_left _ (by omega)
    omega
  · -- the window pays for a full bucket
    rw [heq]
    refine ⟨by show base ≤ now; omega, ?_⟩
    show m.window * (used + m.burst) ≤ _ + m.rate * ((now - base) / m.unit)
    have hpaid : m.window * m.burst ≤ m.rate * m.elapsed now b := by
      calc m.window * m.burst = m.burst * m.window := Nat.mul_comm _ _
        _ ≤ m.rate * m.elapsed now b := Nat.mul_le_mul hburst hidle
    have hused : m.window * used ≤ m.window * (used + b.tokens) := Nat.mul_le_mul_left _ (by omega)
    rw [Nat.mul_add]
    omega

theorem Covered.call :
    m.Covered base (used + (m.call now (some b)).1.toNat) (m.call now (some b)).2 :=
  (h.refill hburst hlast).take

end

/-- The first call of an interval that starts at `start` opens an account. -/
theorem exists_covered {start : ℕ} (hstart : start ≤ now) (h : ∀ b, o = some b → m.Sound now b) :
    ∃ base, m.rate * ((start - base) / m.unit) < m.window ∧
      m.Covered base (m.call now o).1.toNat (m.call now o).2 := by
  have hopen : ∀ b : Bucket, m.Sound now b → m.rate * m.elapsed now b < m.window →
      ∃ base, m.rate * ((start - base) / m.unit) < m.window ∧
        m.Covered base (Meter.take b).1.toNat (Meter.take b).2 := by
    intro b hb hsmall
    refine ⟨b.last, ?_, ?_⟩
    · refine lt_of_le_of_lt ?_ hsmall
      exact Nat.mul_le_mul_left _ (Nat.div_le_div_right (by omega))
    · have hcover : m.Covered b.last 0 b := by
        refine ⟨le_rfl, ?_⟩
        rw [Nat.zero_add]
        exact (Nat.mul_le_mul_left _ hb.1).trans (Nat.le_add_right _ _)
      simpa using hcover.take
  have hnow : ∀ b : Bucket, b.last = now → m.rate * m.elapsed now b < m.window := by
    intro b hb
    simp [elapsed, hb, m.window_pos]
  have hrefilled := sound_refill (sound_getD h)
  show ∃ base, _ ∧ m.Covered base (Meter.take (m.refill now _)).1.toNat
    (Meter.take (m.refill now _)).2
  rcases refill_cases (m := m) now (o.getD ⟨m.burst, now⟩) with
    ⟨heq, hsmall⟩ | ⟨gain, -, heq⟩ | ⟨-, heq⟩
  · rw [heq] at hrefilled ⊢
    exact hopen _ hrefilled hsmall
  · exact hopen _ hrefilled (hnow _ (by rw [heq]))
  · exact hopen _ hrefilled (hnow _ (by rw [heq]))

/-- What a covered account has spent by the end of the interval. -/
theorem Covered.used_le {start span : ℕ} (h : m.Covered base used b)
    (hstart : m.rate * ((start - base) / m.unit) < m.window)
    (hend : b.last ≤ start + span * m.unit) :
    used ≤ m.burst + (m.rate * span) ⌈/⌉ m.window := by
  obtain ⟨hbase, hcover⟩ := h
  have hunits : (b.last - base) / m.unit ≤ (start - base) / m.unit + span := by
    rw [← Nat.add_mul_div_right _ _ m.unit_pos]
    exact Nat.div_le_div_right (by omega)
  have htime := Nat.mul_le_mul_left m.rate hunits
  rw [Nat.mul_add] at htime
  have hused : m.window * used ≤ m.window * (used + b.tokens) := Nat.mul_le_mul_left _ (by omega)
  have hceil : m.rate * span ≤ m.window * ((m.rate * span) ⌈/⌉ m.window) :=
    le_smul_ceilDiv m.window_pos
  have hlt : m.window * used < m.window * (m.burst + (m.rate * span) ⌈/⌉ m.window + 1) := by
    rw [Nat.mul_add, Nat.mul_add]
    omega
  have := Nat.lt_of_mul_lt_mul_left hlt
  omega

end

end Meter

/-! ## Systems with timed calls -/

section

variable {σ ι : Type} (step : σ → ℕ × ι → Bool × σ)

/-- The calls that meet `counts` and pass. -/
def passes (counts : ℕ × ι → Bool) : σ → List (ℕ × ι) → ℕ
  | _, [] => 0
  | s, c :: cs => ((step s c).1 && counts c).toNat + passes counts (step s c).2 cs

/-- The state after a sequence of calls. -/
def after (s : σ) (cs : List (ℕ × ι)) : σ := cs.foldl (fun s c => (step s c).2) s

/-- The calls come in the order of their times, from `t` on. -/
def Chronological (t : ℕ) : List (ℕ × ι) → Prop
  | [] => True
  | c :: cs => t ≤ c.1 ∧ Chronological c.1 cs

/-- The calls that meet `p` from time `start` to time `stop`. -/
def within (start stop : ℕ) (p : ι → Bool) (c : ℕ × ι) : Bool :=
  p c.2 && decide (start ≤ c.1) && decide (c.1 ≤ stop)

variable {step} {s : σ} {t : ℕ} {cs : List (ℕ × ι)}

/-- What each of the calls keeps, they keep together. -/
theorem after_of_forall {P : σ → Prop} (hs : P s) (h : ∀ s, ∀ c ∈ cs, P s → P (step s c).2) :
    P (after step s cs) := by
  induction cs generalizing s with
  | nil => exact hs
  | cons c cs ih =>
    exact ih (h s c List.mem_cons_self hs) fun s c hc => h s c (List.mem_cons_of_mem _ hc)

theorem after_concat (s : σ) (cs : List (ℕ × ι)) (c : ℕ × ι) :
    after step s (cs ++ [c]) = (step (after step s cs) c).2 := by
  simp [after]

theorem passes_append (counts : ℕ × ι → Bool) (s : σ) (cs ds : List (ℕ × ι)) :
    passes step counts s (cs ++ ds) =
      passes step counts s cs + passes step counts (after step s cs) ds := by
  induction cs generalizing s with
  | nil => simp [passes, after]
  | cons c cs ih =>
    rw [List.cons_append, passes, ih]
    exact (Nat.add_assoc _ _ _).symm

theorem passes_of_late {p : ι → Bool} {start stop : ℕ} (hlate : stop < t)
    (h : Chronological t cs) : passes step (within start stop p) s cs = 0 := by
  induction cs generalizing s t with
  | nil => rfl
  | cons c cs ih =>
    obtain ⟨hc, hcs⟩ := h
    have hout : within start stop p c = false := by
      have : ¬ c.1 ≤ stop := by omega
      simp [within, this]
    rw [passes, hout, Bool.and_false, ih (by omega) hcs]
    rfl

/-! ## A bucket in a system -/

variable {m : Meter} {bucketOf : σ → Option Bucket} {p : ι → Bool}

/-- What is forgotten after an idle window may as well have been kept. -/
def Meter.Stands (m : Meter) (now : ℕ) (o : Option Bucket) (b : Bucket) : Prop :=
  o = some b ∨ (o = none ∧ m.window ≤ m.elapsed now b)

theorem Meter.Stands.forgets {o o' : Option Bucket} {b : Bucket} {now : ℕ}
    (h : m.Stands t o b) (ht : t ≤ now) (hforget : m.Forgets now o o') : m.Stands now o' b := by
  have hlater : m.elapsed t b ≤ m.elapsed now b := Nat.div_le_div_right (by omega)
  rcases hforget with rfl | ⟨rfl, hidle⟩
  · rcases h with rfl | ⟨rfl, hold⟩
    · exact Or.inl rfl
    · exact Or.inr ⟨rfl, by omega⟩
  · rcases h with rfl | ⟨rfl, hold⟩
    · exact Or.inr ⟨rfl, hidle b rfl⟩
    · exact Or.inr ⟨rfl, by omega⟩

theorem Meter.Stands.call {o : Option Bucket} {b : Bucket} (h : m.Stands t o b) :
    m.call t o = m.call t (some b) := by
  rcases h with rfl | ⟨rfl, hidle⟩
  · rfl
  · exact call_forgotten hidle

/-- Fewer calls may count. -/
theorem Meter.Step.weaken {o o' : Option Bucket} {counts counts' pass : Bool} {now : ℕ}
    (hstep : m.Step now counts o pass o') (h : counts' = true → counts = true) :
    m.Step now counts' o pass o' := by
  cases hstep with
  | skip hforget hpass => exact .skip hforget fun hc => hpass (h hc)
  | call hforget => exact .call hforget

theorem Meter.Forgets.sound {o o' : Option Bucket} {now : ℕ} (hforget : m.Forgets now o o')
    (ht : t ≤ now) (h : ∀ b, o = some b → m.Sound t b) : ∀ b, o' = some b → m.Sound now b := by
  intro b hb
  rcases hforget with rfl | ⟨rfl, -⟩
  · obtain ⟨htokens, hlast⟩ := h b hb
    exact ⟨htokens, by omega⟩
  · cases hb

theorem Meter.Step.sound {o o' : Option Bucket} {counts pass : Bool} {now : ℕ}
    (hstep : m.Step now counts o pass o') (ht : t ≤ now)
    (h : ∀ b, o = some b → m.Sound t b) : ∀ b, o' = some b → m.Sound now b := by
  cases hstep with
  | skip hforget _ => exact hforget.sound ht h
  | call hforget =>
    intro b hb
    rw [← Option.some.inj hb]
    exact sound_call (hforget.sound ht h)

variable {Inv : σ → Prop} (hinv : ∀ s c, Inv s → Inv (step s c).2)
  (hstep : ∀ s c, Inv s → m.Step c.1 (p c.2) (bucketOf s) (step s c).1 (bucketOf (step s c).2))

include hinv hstep

/-- An account that is open at time `t` covers the rest of the interval. -/
theorem passes_le_of_covered (hburst : m.burst ≤ m.rate) {start span base used : ℕ} {b : Bucket}
    (hs : Inv s) (hbase : m.rate * ((start - base) / m.unit) < m.window) (hstart : start ≤ t)
    (hstands : m.Stands t (bucketOf s) b) (hcover : m.Covered base used b) (hlast : b.last ≤ t)
    (hend : b.last ≤ start + span * m.unit) (hcs : Chronological t cs) :
    used + passes step (within start (start + span * m.unit) p) s cs ≤
      m.burst + (m.rate * span) ⌈/⌉ m.window := by
  induction cs generalizing s t b used with
  | nil => exact hcover.used_le hbase hend
  | cons c cs ih =>
    obtain ⟨hc, hcs⟩ := hcs
    by_cases hlate : start + span * m.unit < c.1
    · have hzero : passes step (within start (start + span * m.unit) p) s (c :: cs) = 0 :=
        passes_of_late hlate ⟨le_rfl, hcs⟩
      rw [hzero]
      exact hcover.used_le hbase hend
    have hin : within start (start + span * m.unit) p c = p c.2 := by
      have h1 : start ≤ c.1 := by omega
      have h2 : c.1 ≤ start + span * m.unit := by omega
      simp [within, h1, h2]
    rw [passes, hin]
    have hcall := hstep s c hs
    generalize (step s c).1 = pass at hcall ⊢
    generalize hnext : bucketOf (step s c).2 = next at hcall
    cases hcall with
    | skip hforget hpass =>
      -- the bucket stays, or is forgotten; what counts does not pass
      have hzero : (pass && p c.2).toNat = 0 := by
        cases hp : p c.2 with
        | false => simp
        | true => simp [hpass hp]
      rw [hzero, Nat.zero_add]
      have hstays : m.Stands c.1 (bucketOf (step s c).2) b := by
        rw [hnext]
        exact hstands.forgets hc hforget
      exact ih (hinv s c hs) (by omega) hstays hcover (by omega) hend hcs
    | call hforget =>
      rw [(hstands.forgets hc hforget).call] at hnext ⊢
      have hsound : (m.call c.1 (some b)).2.last ≤ c.1 := Meter.call_last (by omega)
      have hcount := Bool.toNat_le_toNat (Bool.and_le_left (m.call c.1 (some b)).1 (p c.2))
      have hrest := ih (hinv s c hs) (by omega) (Or.inl hnext)
        (hcover.call hburst (by omega)) hsound (by omega) hcs
      omega

variable (bucketOf) in
/-- No interval of `span` units sees more calls pass than the burst and the rate allow. -/
theorem passes_le (hburst : m.burst ≤ m.rate) (start span : ℕ) (hs : Inv s)
    (hsound : ∀ b, bucketOf s = some b → m.Sound t b) (hcs : Chronological t cs) :
    passes step (within start (start + span * m.unit) p) s cs ≤
      m.burst + (m.rate * span) ⌈/⌉ m.window := by
  induction cs generalizing s t with
  | nil => exact Nat.zero_le _
  | cons c cs ih =>
    obtain ⟨hc, hcs⟩ := hcs
    have hcall := hstep s c hs
    have hnextSound := hcall.sound hc hsound
    by_cases hin : within start (start + span * m.unit) p c = true
    · simp only [within, Bool.and_eq_true, decide_eq_true_eq] at hin
      obtain ⟨⟨hp, hstart⟩, hstop⟩ := hin
      rw [passes]
      generalize (step s c).1 = pass at hcall ⊢
      generalize hnext : bucketOf (step s c).2 = next at hcall hnextSound
      cases hcall with
      | skip hforget hrefused =>
        rw [hrefused hp]
        have := ih (hinv s c hs) (by rw [hnext]; exact hnextSound) hcs
        simpa using this
      | @call o' hforget =>
        have hkept := hforget.sound hc hsound
        obtain ⟨base, hbase, hcover⟩ := Meter.exists_covered hstart hkept
        have hlast := (Meter.sound_call hkept).2
        have hrest := passes_le_of_covered hinv hstep hburst (hinv s c hs) hbase hstart
          (Or.inl hnext) hcover hlast (hlast.trans hstop) hcs
        have hcount := Bool.toNat_le_toNat
          (Bool.and_le_left (m.call c.1 o').1 (within start (start + span * m.unit) p c))
        omega
    · rw [passes, Bool.eq_false_iff.mpr hin]
      have := ih (hinv s c hs) hnextSound hcs
      simpa using this

end

end Runbound.Lib
