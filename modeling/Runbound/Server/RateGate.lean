import Runbound.Server.RateLimit

/-!
# The gate before the datapaths (`rl_should_drop`)

Each worker thread keeps the limiter's last verdict on a source: 10 ms when it was accepted,
100 ms when it was not. The table is emptied when it has 1024 entries. While a verdict is
young the limiter is not asked, and takes no token.

Results:
* `gate_floods`: no bound on the packets holds, a flood at one instant passes whole.
* `passed_in_windows`: the packets that pass fall into windows of 10 ms, each opened by a packet
  the limiter accepted, and with `burst ≤ rps` the windows keep to the configured rate.
-/

namespace Runbound.Server

open Wire FastPath Recursor Lib List

/-! ## The gate -/

/-- The limiter, and `TL_RL` of one worker thread: the verdict on a source and the time it is
    good until. -/
structure Gate where
  limiter : RateLimiter
  shadow : Map IpAddr (Bool × ℕ)

/-- 10 ms and 100 ms (xdp/worker.rs:1506-1510). -/
def verdictTtl (ok : Bool) : ℕ := if ok then 10000000 else 100000000

theorem verdictTtl_true : verdictTtl true = 10000000 := rfl

namespace Gate

section

variable (g : Gate) (packet : ℕ × IpAddr)

/-- The young verdict on a source, if there is one (xdp/worker.rs:1498-1500). -/
def recalled : Option Bool :=
  (g.shadow.lookup packet.2).bind fun v => if packet.1 < v.2 then some v.1 else none

/-- The new verdict goes into the table (xdp/worker.rs:1503-1512). -/
def note (ok : Bool) : Map IpAddr (Bool × ℕ) :=
  AList.insert packet.2 (ok, packet.1 + verdictTtl ok)
    (if 1024 ≤ g.shadow.entries.length then ∅ else g.shadow)

/-- `rl_should_drop` (xdp/worker.rs:1488) at the time and for the source of `packet`. -/
def rlShouldDrop : Bool × Gate :=
  if !g.limiter.enabled then (false, g)
  else
    match g.recalled packet with
    | some ok => (!ok, g)
    | none =>
      let r := g.limiter.check packet
      (!r.1, { limiter := r.2, shadow := g.note packet r.1 })

end

/-- A new thread before a new limiter. -/
def fresh (rps : U64) (burst : Option U64) (prefixV4 prefixV6 : Byte) : Gate where
  limiter := RateLimiter.new rps burst prefixV4 prefixV6
  shadow := ∅

/-- The packet passes the gate. -/
def pass (g : Gate) (packet : ℕ × IpAddr) : Bool × Gate :=
  (!(g.rlShouldDrop packet).1, (g.rlShouldDrop packet).2)

/-- The packet is one the limiter is asked about and accepts. -/
def opens (g : Gate) (packet : ℕ × IpAddr) : Bool × Gate :=
  (g.limiter.enabled && (g.recalled packet).isNone && (g.limiter.check packet).1,
    (g.rlShouldDrop packet).2)

/-- The packets of `ip` that pass from `start`, for `T` milliseconds. -/
def passed (g : Gate) (ip : IpAddr) (start T : ℕ) (packets : List (ℕ × IpAddr)) : ℕ :=
  passes pass (within start (start + T * 1000000) fun i => decide (i = ip)) g packets

/-- The times at which a packet of `ip` gives `true` in a step of the gate. -/
def times (step : Gate → ℕ × IpAddr → Bool × Gate) (ip : IpAddr) : Gate → List (ℕ × IpAddr) → List ℕ
  | _, [] => []
  | g, packet :: packets =>
    (if (step g packet).1 = true ∧ packet.2 = ip then [packet.1] else []) ++
      times step ip (step g packet).2 packets

/-! ## Floods -/

variable {g : Gate} {packet : ℕ × IpAddr} {ip : IpAddr} {rps burst : U64} {prefixV4 prefixV6 : Byte}

/-- A packet that finds a young acceptance passes and changes nothing. -/
theorem pass_of_recalled (h : g.recalled packet = some true) : g.pass packet = (true, g) := by
  unfold pass rlShouldDrop
  cases hon : g.limiter.enabled with
  | false => simp
  | true => simp [h]

/-- An acceptance is recalled at the instant it is noted. -/
theorem recalled_note (g : Gate) (l : RateLimiter) :
    recalled { limiter := l, shadow := g.note packet true } packet = some true := by
  have hlookup : (g.note packet true).lookup packet.2 = some (true, packet.1 + 10000000) := by
    unfold note
    rw [AList.lookup_insert, verdictTtl_true]
  unfold recalled
  rw [hlookup, Option.bind_some, if_pos (by omega)]

theorem passes_of_recalled {counts : ℕ × IpAddr → Bool} (hcounts : counts packet = true)
    (h : g.recalled packet = some true) (n : ℕ) :
    passes pass counts g (List.replicate n packet) = n := by
  induction n with
  | zero => rfl
  | succ n ih =>
    rw [replicate_succ, passes, pass_of_recalled h, hcounts]
    show 1 + passes pass counts g (List.replicate n packet) = n + 1
    omega

theorem pass_cases (hon : g.limiter.enabled = true) (packet : ℕ × IpAddr) :
    (∃ ok, g.recalled packet = some ok ∧ g.pass packet = (ok, g) ∧ g.opens packet = (false, g)) ∨
      (g.recalled packet = none ∧
        g.pass packet = g.opens packet ∧
        g.opens packet = ((g.limiter.check packet).1,
          { limiter := (g.limiter.check packet).2,
            shadow := g.note packet (g.limiter.check packet).1 })) := by
  unfold pass opens rlShouldDrop
  cases hrecalled : g.recalled packet with
  | some ok =>
    simp [hon]
  | none =>
    simp [hon]

theorem enabled_of_setTo (h : g.limiter.SetTo rps burst prefixV4 prefixV6) (hrps : rps ≠ 0) :
    g.limiter.enabled = true := by
  unfold RateLimiter.enabled
  rw [h.1]
  exact decide_eq_true hrps

theorem setTo_opens (hrps : rps ≠ 0) (g : Gate) (packet : ℕ × IpAddr)
    (h : g.limiter.SetTo rps burst prefixV4 prefixV6) :
    (g.opens packet).2.limiter.SetTo rps burst prefixV4 prefixV6 := by
  rcases pass_cases (enabled_of_setTo h hrps) packet with ⟨ok, -, -, heq⟩ | ⟨-, -, heq⟩
  · rw [heq]
    exact h
  · rw [heq]
    exact RateLimiter.setTo_check _ _ h

theorem pass_snd (g : Gate) (packet : ℕ × IpAddr) : (g.pass packet).2 = (g.opens packet).2 := rfl

/-- Once the limiter has accepted a source, all it sends at that instant passes. -/
theorem passed_flood (hrps : rps ≠ 0) (hloop : isLoopback ip = false) {n : ℕ}
    (hburst : (meter rps burst).burst = n + 1) (packets : ℕ) :
    (fresh rps (some burst) prefixV4 prefixV6).passed ip 0 0
      (List.replicate (packets + 1) (0, ip)) = packets + 1 := by
  have hset : (fresh rps (some burst) prefixV4 prefixV6).limiter.SetTo rps burst prefixV4
      prefixV6 := RateLimiter.setTo_new (some burst)
  have hroom : (fresh rps (some burst) prefixV4 prefixV6).limiter.buckets.entries.length <
      maxRateLimitBuckets := by
    show 0 < 65536
    omega
  have hgc : 0 < (fresh rps (some burst) prefixV4 prefixV6).limiter.nextGcNs := by
    show 0 < 10000000000
    omega
  -- the first packet finds a full bucket
  have hfirst : ((fresh rps (some burst) prefixV4 prefixV6).limiter.check (0, ip)).1 = true := by
    rw [(RateLimiter.check_own hrps hloop 0 hset hgc (Or.inr hroom)).1]
    show ((meter rps burst).call 0 none).1 = true
    rw [Meter.call_of_new hburst]
  have hcounts : within 0 (0 + 0 * 1000000) (fun i => decide (i = ip)) (0, ip) = true := by
    simp [within]
  unfold passed
  rw [replicate_succ, passes]
  rcases pass_cases (enabled_of_setTo hset hrps) (0, ip) with ⟨ok, hsome, -⟩ | ⟨-, heq, hopens⟩
  · cases hsome
  · rw [heq, hopens, hfirst, hcounts, passes_of_recalled hcounts (recalled_note _ _)]
    show 1 + packets = packets + 1
    omega

/-! ## Windows -/

/-- For a source that is not loopback, the packets that open a window are calls of its bucket. -/
theorem opens_step (hrps : rps ≠ 0) (hloop : isLoopback ip = false) (g : Gate)
    (packet : ℕ × IpAddr) (h : g.limiter.SetTo rps burst prefixV4 prefixV6) :
    (meter rps burst).Step packet.1 (decide (packet.2 = ip))
      (g.limiter.accountOf (normalizeIp ip prefixV4 prefixV6)) (g.opens packet).1
      ((g.opens packet).2.limiter.accountOf (normalizeIp ip prefixV4 prefixV6)) := by
  rcases pass_cases (enabled_of_setTo h hrps) packet with ⟨ok, -, -, heq⟩ | ⟨-, -, heq⟩
  · rw [heq]
    exact Meter.Step.skip (Or.inl rfl) fun _ => rfl
  · rw [heq]
    refine (RateLimiter.check_step hrps _ g.limiter packet h).weaken ?_
    intro hip
    rw [of_decide_eq_true hip]
    simp [inBucket, hloop]

/-- Every acceptance in the table is backed by a window that was opened. -/
def Backed (ip : IpAddr) (past : List ℕ) (g : Gate) : Prop :=
  ∀ limit, g.shadow.lookup ip = some (true, limit) → ∃ t ∈ past, limit = t + 10000000

theorem Backed.mono {past past' : List ℕ} (h : Backed ip past g) (hsub : past ⊆ past') :
    Backed ip past' g := by
  intro limit hlookup
  obtain ⟨t, ht, heq⟩ := h limit hlookup
  exact ⟨t, hsub ht, heq⟩

theorem backed_note {past : List ℕ} {l : RateLimiter} {ok : Bool} (h : Backed ip past g)
    (hown : packet.2 = ip → ok = true → packet.1 ∈ past) :
    Backed ip past { limiter := l, shadow := g.note packet ok } := by
  intro limit hlookup
  have hold : (g.note packet ok).lookup ip = some (true, limit) := hlookup
  unfold note at hold
  rw [Map.lookup_insert_eq] at hold
  split_ifs at hold with hip hfull
  · obtain ⟨rfl, rfl⟩ := Prod.mk.inj (Option.some.inj hold)
    exact ⟨packet.1, hown hip.symm rfl, by rw [verdictTtl_true]⟩
  · cases hold
  · exact h limit hold

/-- A packet of `ip` that passes falls into a window that is open. -/
theorem exists_window (hrps : rps ≠ 0) {packets : List (ℕ × IpAddr)} :
    ∀ {g : Gate} {clock : ℕ} {past : List ℕ}, g.limiter.SetTo rps burst prefixV4 prefixV6 →
      Backed ip past g → (∀ t ∈ past, t ≤ clock) → Chronological clock packets →
      ∀ t ∈ times pass ip g packets,
        ∃ t₀ ∈ past ++ times opens ip g packets, t₀ ≤ t ∧ t < t₀ + 10000000 := by
  induction packets with
  | nil =>
    intro g clock past _ _ _ _ t ht
    cases ht
  | cons packet packets ih =>
    intro g clock past hset hback hpast hchron t ht
    obtain ⟨hclock, hchron⟩ := hchron
    have hset' := setTo_opens hrps g packet hset
    -- the windows known after this packet
    have hnext : ∀ past', Backed ip past' (g.opens packet).2 → (∀ t ∈ past', t ≤ packet.1) →
        t ∈ times pass ip (g.opens packet).2 packets →
        ∃ t₀ ∈ past' ++ times opens ip (g.opens packet).2 packets, t₀ ≤ t ∧ t < t₀ + 10000000 :=
      fun past' hback' hpast' ht' => ih hset' hback' hpast' hchron t ht'
    rw [times, pass_snd, mem_append] at ht
    rw [times]
    rcases pass_cases (enabled_of_setTo hset hrps) packet with
      ⟨ok, hsome, hpass, hopens⟩ | ⟨-, hpass, hopens⟩
    · rw [hopens] at ht hnext ⊢
      rcases ht with ht | ht
      · -- a recalled acceptance
        rw [hpass] at ht
        split_ifs at ht with hown
        · obtain ⟨rfl, hip⟩ := hown
          obtain rfl := mem_singleton.mp ht
          obtain ⟨⟨ok', limit⟩, hlookup, hyoung⟩ := Option.bind_eq_some_iff.mp hsome
          split_ifs at hyoung with hlt
          · obtain rfl := Option.some.inj hyoung
            rw [hip] at hlookup
            obtain ⟨t₀, ht₀, hlimit⟩ := hback limit hlookup
            have hbefore := hpast t₀ ht₀
            exact ⟨t₀, mem_append_left _ ht₀, by omega, by omega⟩
        · cases ht
      · exact hnext past hback (fun t ht => (hpast t ht).trans hclock) ht
    · rw [hpass] at ht
      rcases ht with ht | ht
      · -- the packet opens a window of its own
        refine ⟨t, mem_append_right _ (mem_append_left _ ht), le_rfl, by omega⟩
      · rw [← append_assoc]
        apply hnext _ _ _ ht
        · rw [hopens]
          apply backed_note (hback.mono (subset_append_left _ _))
          intro hip hok
          rw [if_pos ⟨hok, hip⟩]
          simp
        · intro t ht
          rcases mem_append.mp ht with ht | ht
          · exact (hpast t ht).trans hclock
          · split_ifs at ht
            · exact (mem_singleton.mp ht).le
            · cases ht

/-- The windows opened in an interval are counted by the token bucket. -/
theorem length_filter_times (ip : IpAddr) (start stop : ℕ) (packets : List (ℕ × IpAddr)) (g : Gate) :
    ((times opens ip g packets).filter fun t => decide (start ≤ t ∧ t ≤ stop)).length =
      passes opens (within start stop fun i => decide (i = ip)) g packets := by
  induction packets generalizing g with
  | nil => rfl
  | cons packet packets ih =>
    rw [times, passes, filter_append, length_append, ih]
    unfold within
    by_cases hopens : (g.opens packet).1 = true <;> by_cases hip : packet.2 = ip <;>
      by_cases hstart : start ≤ packet.1 <;> by_cases hstop : packet.1 ≤ stop <;>
      simp [hopens, hip, hstart, hstop]

/-- One time stands for all that are before `start`. -/
theorem exists_last_before (ts : List ℕ) (start : ℕ) :
    ∃ last : List ℕ, last.length ≤ 1 ∧ last ⊆ ts ∧
      ∀ t ∈ ts, t < start → ∃ t' ∈ last, t ≤ t' ∧ t' < start := by
  by_cases h : ((ts.filter fun t => decide (t < start)).toFinset).Nonempty
  · obtain ⟨m, hm, hmax⟩ := Finset.exists_max_image _ id h
    rw [mem_toFinset, mem_filter, decide_eq_true_eq] at hm
    refine ⟨[m], le_rfl, ?_, ?_⟩
    · intro t ht
      rw [mem_singleton.mp ht]
      exact hm.1
    · intro t ht hlt
      refine ⟨m, mem_singleton_self m, ?_, hm.2⟩
      exact hmax t (by simp [ht, hlt])
  · refine ⟨[], Nat.zero_le _, nil_subset _, ?_⟩
    intro t ht hlt
    exact absurd ⟨t, by simp [ht, hlt]⟩ h

/-- With `burst ≤ rps`, the packets of a source that pass within `T` milliseconds fall into
    `burst + ⌈rps * T / 1000⌉ + 1` windows of 10 ms, each opened by a packet the limiter
    accepted. The one more is a window that was open when the interval began. -/
theorem passed_in_windows (rps : U64) (hrps : 0 < rps) (burst : Option U64)
    (prefixV4 prefixV6 : Byte)
    (hburst : (fresh rps burst prefixV4 prefixV6).limiter.burst ≤ rps)
    (ip : IpAddr) (hloop : isLoopback ip = false) (packets : List (ℕ × IpAddr))
    (hpackets : Chronological 0 packets) (start T : ℕ) :
    ∃ opened : List ℕ,
      opened.length ≤
        (fresh rps burst prefixV4 prefixV6).limiter.burst.val + (rps.val * T) ⌈/⌉ 1000 + 1 ∧
      opened ⊆ times opens ip (fresh rps burst prefixV4 prefixV6) packets ∧
      ∀ t ∈ times pass ip (fresh rps burst prefixV4 prefixV6) packets,
        start ≤ t → t ≤ start + T * 1000000 → ∃ t₀ ∈ opened, t₀ ≤ t ∧ t < t₀ + 10000000 := by
  have hne : rps ≠ 0 := hrps.ne'
  have hset : (fresh rps burst prefixV4 prefixV6).limiter.SetTo rps
      (fresh rps burst prefixV4 prefixV6).limiter.burst prefixV4 prefixV6 :=
    RateLimiter.setTo_new burst
  have hsound : ∀ b, (fresh rps burst prefixV4 prefixV6).limiter.accountOf
      (normalizeIp ip prefixV4 prefixV6) = some b →
      (meter rps (fresh rps burst prefixV4 prefixV6).limiter.burst).Sound 0 b := by
    intro b hb
    cases hb
  have hcount := passes_le (fun g => g.limiter.accountOf (normalizeIp ip prefixV4 prefixV6))
    (p := fun i => decide (i = ip)) (setTo_opens hne) (opens_step hne hloop) hburst start T hset
    hsound hpackets
  have hempty : Backed ip [] (fresh rps burst prefixV4 prefixV6) := by
    intro limit hlimit
    cases hlimit
  generalize fresh rps burst prefixV4 prefixV6 = g at *
  obtain ⟨last, hlast, hsub, hbefore⟩ := exists_last_before (times opens ip g packets) start
  refine ⟨(times opens ip g packets).filter
    (fun t => decide (start ≤ t ∧ t ≤ start + T * 1000000)) ++ last, ?_, ?_, ?_⟩
  · rw [length_append, length_filter_times]
    exact Nat.add_le_add hcount hlast
  · intro t ht
    rcases mem_append.mp ht with ht | ht
    · exact mem_of_mem_filter ht
    · exact hsub ht
  · intro t ht hstart hstop
    obtain ⟨t₀, ht₀, hle, hlt⟩ := exists_window hne hset hempty (fun t ht => by cases ht) hpackets t ht
    by_cases hin : start ≤ t₀
    · refine ⟨t₀, mem_append_left _ (mem_filter.mpr ⟨ht₀, ?_⟩), hle, hlt⟩
      exact decide_eq_true ⟨hin, hle.trans hstop⟩
    · obtain ⟨t₁, ht₁, hle₁, hlt₁⟩ := hbefore t₀ ht₀ (by omega)
      exact ⟨t₁, mem_append_right _ ht₁, by omega, by omega⟩

theorem passed_in_windows_one_rps :
    ∃ opened : List ℕ,
      opened.length ≤ (fresh 1 (some 1) 32 64).limiter.burst.val + ((1 : U64).val * 5) ⌈/⌉ 1000 + 1 ∧
      opened ⊆ times opens RateLimiter.remote (fresh 1 (some 1) 32 64) [(0, RateLimiter.remote), (0, RateLimiter.remote)] ∧
      ∀ t ∈ times pass RateLimiter.remote (fresh 1 (some 1) 32 64) [(0, RateLimiter.remote), (0, RateLimiter.remote)],
        0 ≤ t → t ≤ 0 + 5 * 1000000 → ∃ t₀ ∈ opened, t₀ ≤ t ∧ t < t₀ + 10000000 :=
  passed_in_windows 1 (by decide) (some 1) 32 64 (by decide) RateLimiter.remote (by decide)
    [(0, RateLimiter.remote), (0, RateLimiter.remote)] ⟨le_rfl, le_rfl, trivial⟩ 0 5

/-- One query a second, and no constant bounds what one source gets through in an instant. -/
theorem gate_floods :
    ¬ ∃ c : ℕ, ∀ packets : List (ℕ × IpAddr), Chronological 0 packets →
      (∀ packet ∈ packets, packet.2 = RateLimiter.remote) → ∀ start T : ℕ,
        (fresh 1 (some 1) 32 64).passed RateLimiter.remote start T packets ≤
          1 + (1 * T) ⌈/⌉ 1000 + c := by
  rintro ⟨c, hc⟩
  have hchron : Chronological 0 (List.replicate (c + 2) (0, RateLimiter.remote)) := by
    rw [← append_nil (List.replicate _ _)]
    exact RateLimiter.chronological_replicate 0 (c + 2) RateLimiter.remote [] le_rfl trivial
  have hbound := hc _ hchron (fun packet hp => by rw [eq_of_mem_replicate hp]) 0 0
  rw [passed_flood (n := 0) (by decide) (by decide) rfl (c + 1)] at hbound
  have hzero : (1 * 0) ⌈/⌉ 1000 = 0 := by decide
  omega

end Gate

end Runbound.Server
