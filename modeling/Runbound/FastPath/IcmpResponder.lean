import Runbound.Lib.TokenBucket
import Runbound.Wire.Basic

/-!
# The rate limit of the ICMP responder (`ebpf/dns_xdp.c`)

The XDP program answers echo requests itself. A new source has `burst` replies at once; after
these it has `rate_pps` replies in a window of one second, and the next window starts with the
first request after it.

Main result: `replies_le`, the bound on the replies to one source in any interval.

**Deviation**: the entry of one source. In the source it stands in an LRU map, which may drop it.
-/

namespace Runbound.FastPath

open Wire Lib

/-- `struct icmp_cfg_entry` (ebpf/dns_xdp.c:82) of an enabled responder. -/
structure IcmpCfg where
  ratePps : U32
  burst : U32

/-- `struct icmp_rate_entry` (ebpf/dns_xdp.c:73). -/
structure RateEntry where
  count : ℕ
  windowNs : ℕ
  burstLeft : ℕ

namespace IcmpCfg

variable (cfg : IcmpCfg)

/-- The entry that a request leaves, or `none` if it is dropped (ebpf/dns_xdp.c:434). -/
def rateCheck (now : ℕ) : Option RateEntry → Option RateEntry
  | some r =>
    if 0 < r.burstLeft then some { r with burstLeft := r.burstLeft - 1 }
    -- the subtraction is one of `u64`
    else if (now + (18446744073709551616 - r.windowNs)) % 18446744073709551616 < 1000000000 then
      if cfg.ratePps.val ≤ r.count then none else some ⟨r.count + 1, r.windowNs, 0⟩
    else some ⟨1, now, 0⟩
  | none => some ⟨0, now, if 0 < cfg.burst.val then cfg.burst.val - 1 else 0⟩

variable {ι : Type}

/-- An echo request: is it answered? -/
def echo (o : Option RateEntry) (request : ℕ × ι) : Bool × Option RateEntry :=
  match cfg.rateCheck request.1 o with
  | none => (false, o)
  | some r => (true, some r)

/-- What holds of the entry at time `now`. -/
def Sound (now : ℕ) (o : Option RateEntry) : Prop :=
  ∀ r, o = some r → r.count ≤ cfg.ratePps.val ∧ r.windowNs ≤ now ∧ r.burstLeft ≤ cfg.burst.val

/-- The replies that are left in the `T` nanoseconds from `start` on. A window that began more
than a second before counts as one that began a second before. -/
def credit (start T : ℕ) : Option RateEntry → ℕ
  | none => cfg.burst.val + 1 + cfg.ratePps.val + cfg.ratePps.val * (T / 1000000000)
  | some r => r.burstLeft + (cfg.ratePps.val - r.count) + cfg.ratePps.val *
      ((start + T - max r.windowNs (start - 1000000000)) / 1000000000)

variable {cfg} {now t start T : ℕ} {o : Option RateEntry} {r : RateEntry}

theorem Sound.mono (h : cfg.Sound t o) (ht : t ≤ now) : cfg.Sound now o := by
  intro r hr
  obtain ⟨hcount, hwindow, hburst⟩ := h r hr
  exact ⟨hcount, hwindow.trans ht, hburst⟩

theorem sound_some : cfg.Sound now (some r) ↔
    r.count ≤ cfg.ratePps.val ∧ r.windowNs ≤ now ∧ r.burstLeft ≤ cfg.burst.val := by
  simp [Sound]

/-- A reply keeps the entry sound, and within the interval it costs one. -/
theorem rateCheck_step (hrate : 0 < cfg.ratePps) (hnow : now < 18446744073709551616)
    (ho : cfg.Sound now o) (h : cfg.rateCheck now o = some r) :
    cfg.Sound now (some r) ∧ ∀ start T, start ≤ now → now ≤ start + T →
      1 + cfg.credit start T (some r) ≤ cfg.credit start T o := by
  have hpos : 0 < cfg.ratePps.val := hrate
  rw [sound_some]
  cases o with
  | none =>
    obtain rfl := Option.some.inj h
    have hleft : (if 0 < cfg.burst.val then cfg.burst.val - 1 else 0) = cfg.burst.val - 1 := by
      split_ifs <;> omega
    simp only [credit]
    refine ⟨⟨by omega, le_rfl, by omega⟩, fun start T hstart hstop => ?_⟩
    have hmax : max now (start - 1000000000) = now := by omega
    have hle := Nat.mul_le_mul_left cfg.ratePps.val
      (show (start + T - now) / 1000000000 ≤ T / 1000000000 by omega)
    rw [hmax]
    omega
  | some r₀ =>
    obtain ⟨hcount, hwindow, hburst⟩ := sound_some.mp ho
    rw [rateCheck] at h
    split_ifs at h with htoken hwithin hfull
    · obtain rfl := Option.some.inj h
      simp only [credit]
      exact ⟨⟨hcount, hwindow, by omega⟩, fun start T _ _ => by omega⟩
    · obtain rfl := Option.some.inj h
      simp only [credit]
      exact ⟨⟨by omega, hwindow, by omega⟩, fun start T _ _ => by omega⟩
    · obtain rfl := Option.some.inj h
      simp only [credit]
      refine ⟨⟨hpos, le_rfl, by omega⟩, fun start T hstart hstop => ?_⟩
      have hmax : max now (start - 1000000000) = now := by omega
      -- the windows that are left start a second later
      have hle := Nat.mul_le_mul_left cfg.ratePps.val (show (start + T - now) / 1000000000 + 1 ≤
        (start + T - max r₀.windowNs (start - 1000000000)) / 1000000000 by omega)
      rw [Nat.mul_add] at hle
      rw [hmax]
      omega

theorem credit_le (ho : cfg.Sound t o) :
    cfg.credit start T o ≤ cfg.burst.val + 1 + cfg.ratePps.val * (T / 1000000000 + 2) := by
  rw [Nat.mul_add]
  cases o with
  | none =>
    simp only [credit]
    omega
  | some r =>
    obtain ⟨-, -, hburst⟩ := ho r rfl
    have hle := Nat.mul_le_mul_left cfg.ratePps.val
      (show (start + T - max r.windowNs (start - 1000000000)) / 1000000000 ≤ T / 1000000000 + 1 by
        omega)
    rw [Nat.mul_add] at hle
    simp only [credit]
    omega

/-- A request is dropped and changes nothing, or is answered. -/
theorem echo_step (hrate : 0 < cfg.ratePps) {request : ℕ × ι}
    (hnow : request.1 < 18446744073709551616) (ho : cfg.Sound request.1 o) :
    cfg.Sound request.1 (cfg.echo o request).2 ∧
      ∀ start T, start ≤ request.1 → request.1 ≤ start + T →
        (cfg.echo o request).1.toNat + cfg.credit start T (cfg.echo o request).2 ≤
          cfg.credit start T o := by
  unfold echo
  cases hcheck : cfg.rateCheck request.1 o with
  | none => exact ⟨ho, fun _ _ _ _ => (Nat.zero_add _).le⟩
  | some r => exact rateCheck_step hrate hnow ho hcheck

/-- From the start of the interval on, the replies keep to the credit. -/
theorem passes_le_credit (hrate : 0 < cfg.ratePps) {requests : List (ℕ × ι)} (hstart : start ≤ t)
    (ho : cfg.Sound t o) (hnow : ∀ c ∈ requests, c.1 < 18446744073709551616)
    (hcs : Chronological t requests) :
    passes cfg.echo (within start (start + T) fun _ => true) o requests ≤ cfg.credit start T o := by
  induction requests generalizing o t with
  | nil => exact Nat.zero_le _
  | cons c cs ih =>
    obtain ⟨hc, hcs⟩ := hcs
    obtain ⟨hnow, hnows⟩ := List.forall_mem_cons.mp hnow
    by_cases hlate : start + T < c.1
    · have hzero : passes cfg.echo (within start (start + T) fun _ => true) o (c :: cs) = 0 :=
        passes_of_late hlate ⟨le_rfl, hcs⟩
      omega
    · obtain ⟨hsound, hcost⟩ := echo_step hrate hnow (ho.mono hc)
      have hrest := ih (hstart.trans hc) hsound hnows hcs
      have hin : within start (start + T) (fun _ => true) c = true := by
        simp only [within, Bool.and_eq_true, decide_eq_true_eq, true_and]
        omega
      have hone := hcost start T (hstart.trans hc) (not_lt.mp hlate)
      rw [passes, hin, Bool.and_true]
      omega

/-- **In any interval of `T` nanoseconds a source has at most
`burst + 1 + rate_pps * (T / 10^9 + 2)` replies.** -/
theorem replies_le (cfg : IcmpCfg) (hrate : 0 < cfg.ratePps) (start T : ℕ)
    (requests : List (ℕ × ι)) (hnow : ∀ c ∈ requests, c.1 < 18446744073709551616)
    (hcs : Chronological 0 requests) :
    passes cfg.echo (within start (start + T) fun _ => true) none requests ≤
      cfg.burst.val + 1 + cfg.ratePps.val * (T / 1000000000 + 2) := by
  have ho : cfg.Sound 0 none := fun r hr => by cases hr
  generalize none = o at ho ⊢
  generalize 0 = t at ho hcs
  induction requests generalizing o t with
  | nil => exact Nat.zero_le _
  | cons c cs ih =>
    obtain ⟨hc, hcs⟩ := hcs
    by_cases hearly : c.1 < start
    · obtain ⟨hnow, hnows⟩ := List.forall_mem_cons.mp hnow
      have hout : within start (start + T) (fun _ => true) c = false := by
        have : ¬ start ≤ c.1 := by omega
        simp [within, this]
      rw [passes, hout, Bool.and_false, Bool.toNat_false, Nat.zero_add]
      exact ih hnows _ c.1 (echo_step hrate hnow (ho.mono hc)).1 hcs
    · exact (passes_le_credit hrate (not_lt.mp hearly) (ho.mono hc) hnow ⟨le_rfl, hcs⟩).trans
        (credit_le ho)

/-- Two requests at once. -/
theorem replies_le_two :
    passes (⟨1, 0⟩ : IcmpCfg).echo (within 0 (0 + 5) fun _ => true) none [(0, ()), (0, ())] ≤
      0 + 1 + 1 * (5 / 1000000000 + 2) :=
  replies_le ⟨1, 0⟩ (by decide) 0 5 [(0, ()), (0, ())] (by decide) ⟨le_rfl, le_rfl, trivial⟩

end IcmpCfg

end Runbound.FastPath
