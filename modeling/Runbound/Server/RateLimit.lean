import Runbound.Lib.TokenBucket
import Runbound.Server.Acl

/-!
# The rate limiter (`dns/ratelimit.rs`)

Each source prefix has a bucket of up to `burst` tokens. A call adds what `rps` gives for the
whole milliseconds since the last refill, and a bucket that is a second old is filled up. Old
buckets are dropped every ten seconds, and when the table is full.

Times are nanoseconds since the start of the limiter. The casts of durations to `u64` lose
nothing within five hundred years and are left out.

Results:
* `check_step`: for any bucket, a call is a step of the token bucket; dropping old buckets does
  not show.
* `accepted_le_iff`: the accepted calls of every interval stay within `burst` and the rate iff
  `burst ≤ rps`: a bucket that is filled up once a second lets `burst` calls through each second.
-/

namespace Runbound.Server

open Wire FastPath Recursor Lib List

/-! ## Prefixes -/

/-- `normalize_ip` on an IPv4 address (ratelimit.rs:25-34). -/
def normalizeV4 (o : Fin 4 → Byte) (prefixV4 : Byte) : IpAddr :=
  let bits := ipValue (.v4 o)
  let mask :=
    if prefixV4.val = 0 then 0
    else if 32 ≤ prefixV4.val then 0xffffffff
    else (0xffffffff <<< (32 - prefixV4.val)) % 2 ^ 32
  .v4 fun i => Fin.ofNat _ ((bits &&& mask) / 256 ^ (3 - i.val))

/-- `normalize_ip` on an IPv6 address (ratelimit.rs:35-52). -/
def normalizeV6 (o : Fin 16 → Byte) (prefixV6 : Byte) : IpAddr :=
  let keepBytes := prefixV6.val / 8
  let keepBits := prefixV6.val % 8
  .v6 fun i =>
    if i.val < keepBytes then o i
    else if i.val = keepBytes ∧ 0 < keepBits then
      Fin.ofNat _ ((o i).val &&& (0xff <<< (8 - keepBits)) % 256)
    else 0

/-- `normalize_ip` (ratelimit.rs:22). -/
def normalizeIp (ip : IpAddr) (prefixV4 prefixV6 : Byte) : IpAddr :=
  match ip with
  | .v4 o => normalizeV4 o prefixV4
  | .v6 o => normalizeV6 o prefixV6

/-! ## The limiter -/

/-- `u64::MAX`. -/
def u64Max : ℕ := 18446744073709551615

/-- `IpBucket` (ratelimit.rs:56). -/
structure IpBucket where
  tokens : ℕ
  lastRefill : ℕ

/-- `RateLimiter` (ratelimit.rs:61). -/
structure RateLimiter where
  buckets : Map IpAddr IpBucket
  nextGcNs : ℕ
  rps : U64
  burst : U64
  prefixV4 : Byte
  prefixV6 : Byte

/-- `RATE_LIMIT_WINDOW_MS` (ratelimit.rs:13). -/
def rateLimitWindowMs : ℕ := 1000

/-- `MAX_RATE_LIMIT_BUCKETS` (ratelimit.rs:14). -/
def maxRateLimitBuckets : ℕ := 65536

namespace RateLimiter

/-- `RateLimiter::new` (ratelimit.rs:72); without a burst it is twice the rate. -/
def new (rps : U64) (burst : Option U64) (prefixV4 prefixV6 : Byte) : RateLimiter where
  buckets := ∅
  nextGcNs := 10000000000
  rps := rps
  burst := burst.getD (Fin.ofNat _ (min (rps.val * 2) u64Max))
  prefixV4 := prefixV4
  prefixV6 := prefixV6

section

variable (l : RateLimiter)

/-- `RateLimiter::enabled` (ratelimit.rs:86). -/
def enabled : Bool := l.rps ≠ 0

/-- `retain` of the buckets that are less than `secs` seconds old. -/
def retainYounger (now secs : ℕ) : RateLimiter :=
  { l with
    buckets := l.buckets.retain fun _ b => decide ((now - b.lastRefill) / 1000000000 < secs) }

/-- The collection every ten seconds (ratelimit.rs:121-139). -/
def collect (now : ℕ) : RateLimiter :=
  if l.nextGcNs ≤ now then
    retainYounger { l with nextGcNs := min (l.nextGcNs + 10000000000) u64Max } now 60
  else l

/-- The refill of a bucket (ratelimit.rs:159-172). -/
def refill (now : ℕ) (bucket : IpBucket) : IpBucket :=
  let elapsedMs := (now - bucket.lastRefill) / 1000000
  if rateLimitWindowMs ≤ elapsedMs then { tokens := l.burst.val, lastRefill := now }
  else
    let newTokens := (l.rps.val * elapsedMs / rateLimitWindowMs) % 18446744073709551616
    if 0 < newTokens then
      { tokens := min (min (bucket.tokens + newTokens) u64Max) l.burst.val, lastRefill := now }
    else bucket

/-- The entry of `ip`, refilled, gives a token or refuses (ratelimit.rs:154-180). -/
def spend (now : ℕ) (ip : IpAddr) : Bool × RateLimiter :=
  let bucket :=
    l.refill now ((l.buckets.lookup ip).getD { tokens := l.burst.val, lastRefill := now })
  if 0 < bucket.tokens then
    (true, { l with buckets := l.buckets.insert ip { bucket with tokens := bucket.tokens - 1 } })
  else (false, { l with buckets := l.buckets.insert ip bucket })

/-- From the table check on (ratelimit.rs:141-180). -/
def admitTo (now : ℕ) (ip : IpAddr) : Bool × RateLimiter :=
  if maxRateLimitBuckets ≤ l.buckets.entries.length ∧ ip ∉ l.buckets then
    let l := l.retainYounger now 10
    if maxRateLimitBuckets ≤ l.buckets.entries.length then (false, l) else l.spend now ip
  else l.spend now ip

/-- `RateLimiter::check` (ratelimit.rs:105) at time `call.1` for the source `call.2`. -/
def check (call : ℕ × IpAddr) : Bool × RateLimiter :=
  if l.rps = 0 then (true, l)
  else if isLoopback call.2 then (true, l)
  else
    (l.collect call.1).admitTo call.1 (normalizeIp call.2 l.prefixV4 l.prefixV6)

end

/-! ## The token bucket of a prefix -/

/-- What the limiter is set to. No call changes it. -/
def SetTo (l : RateLimiter) (rps burst : U64) (prefixV4 prefixV6 : Byte) : Prop :=
  l.rps = rps ∧ l.burst = burst ∧ l.prefixV4 = prefixV4 ∧ l.prefixV6 = prefixV6

end RateLimiter

/-- The token bucket of `rps` and `burst`, in milliseconds. -/
def meter (rps burst : U64) : Meter where
  burst := burst.val
  rate := rps.val
  window := rateLimitWindowMs
  unit := 1000000
  window_pos := by decide
  unit_pos := by decide

/-- The bucket as the token bucket sees it. -/
def IpBucket.account (b : IpBucket) : Bucket := ⟨b.tokens, b.lastRefill⟩

/-- Is the source counted in the bucket `key`? Loopback never is. -/
def inBucket (prefixV4 prefixV6 : Byte) (key ip : IpAddr) : Bool :=
  !isLoopback ip && decide (normalizeIp ip prefixV4 prefixV6 = key)

namespace RateLimiter

/-- The account of the bucket `key`. -/
def accountOf (key : IpAddr) (l : RateLimiter) : Option Bucket :=
  (l.buckets.lookup key).map IpBucket.account

variable {l : RateLimiter} {now : ℕ} {key ip : IpAddr} {rps burst : U64} {prefixV4 prefixV6 : Byte}

section

variable (l : RateLimiter)

/-- The `u64` arithmetic of a refill never wraps or saturates. -/
theorem refill_account (now : ℕ) (b : IpBucket) :
    (l.refill now b).account = (meter l.rps l.burst).refill now b.account := by
  show (l.refill now b).account =
    if 1000 ≤ (now - b.lastRefill) / 1000000 then ⟨l.burst.val, now⟩
    else if 0 < l.rps.val * ((now - b.lastRefill) / 1000000) / 1000 then
      ⟨min (b.tokens + l.rps.val * ((now - b.lastRefill) / 1000000) / 1000) l.burst.val, now⟩
    else ⟨b.tokens, b.lastRefill⟩
  unfold refill rateLimitWindowMs
  generalize (now - b.lastRefill) / 1000000 = elapsedMs
  by_cases hfull : 1000 ≤ elapsedMs
  · rw [if_pos hfull, if_pos hfull]
    rfl
  · rw [if_neg hfull, if_neg hfull]
    have hle : l.rps.val * elapsedMs / 1000 ≤ l.rps.val := by
      apply Nat.div_le_of_le_mul
      rw [Nat.mul_comm]
      exact Nat.mul_le_mul_right _ (by omega)
    rw [Nat.mod_eq_of_lt (by omega)]
    generalize l.rps.val * elapsedMs / 1000 = gain
    by_cases hgain : 0 < gain
    · have hmin : min (min (b.tokens + gain) u64Max) l.burst.val =
          min (b.tokens + gain) l.burst.val := by
        unfold u64Max
        omega
      simp only [if_pos hgain, IpBucket.account, hmin]
    · simp only [if_neg hgain, IpBucket.account]

theorem accountOf_insert (ip key : IpAddr) (b : IpBucket) :
    accountOf key { l with buckets := l.buckets.insert ip b } =
      if key = ip then some b.account else l.accountOf key := by
  unfold accountOf
  rw [Map.lookup_insert_eq]
  split_ifs <;> rfl

/-- What `spend` does to the table is a call of the token bucket. -/
theorem spend_eq (now : ℕ) (ip : IpAddr) :
    ∃ b : IpBucket,
      l.spend now ip =
        (((meter l.rps l.burst).call now (l.accountOf ip)).1,
          { l with buckets := l.buckets.insert ip b }) ∧
      b.account = ((meter l.rps l.burst).call now (l.accountOf ip)).2 := by
  have hstart : ((l.accountOf ip).getD ⟨l.burst.val, now⟩) =
      ((l.buckets.lookup ip).getD { tokens := l.burst.val, lastRefill := now }).account := by
    unfold accountOf
    cases l.buckets.lookup ip <;> rfl
  have hcall : (meter l.rps l.burst).call now (l.accountOf ip) =
      Meter.take (l.refill now ((l.buckets.lookup ip).getD
        { tokens := l.burst.val, lastRefill := now })).account := by
    rw [refill_account, ← hstart]
    rfl
  rw [hcall]
  unfold spend
  generalize l.refill now _ = b
  by_cases htokens : 0 < b.tokens
  · refine ⟨{ b with tokens := b.tokens - 1 }, ?_⟩
    have htake : Meter.take b.account = (true, ⟨b.tokens - 1, b.lastRefill⟩) := if_pos htokens
    simp only [htake, if_pos htokens, true_and]
    rfl
  · refine ⟨b, ?_⟩
    have htake : Meter.take b.account = (false, b.account) := if_neg htokens
    simp only [htake, if_neg htokens, true_and]

/-- A bucket that is dropped for its age is one the token bucket may forget. -/
theorem forgets_retainYounger (now : ℕ) (secs : ℕ) (hsecs : 1 ≤ secs) :
    (meter rps burst).Forgets now (l.accountOf key) ((l.retainYounger now secs).accountOf key) := by
  show (meter rps burst).Forgets now ((l.buckets.lookup key).map _)
    (((l.buckets.retain _).lookup key).map _)
  rw [Map.lookup_retain]
  cases hlookup : l.buckets.lookup key with
  | none => exact Or.inl rfl
  | some b =>
    by_cases hyoung : (now - b.lastRefill) / 1000000000 < secs
    · left
      rw [Option.filter_some_pos (by simpa using hyoung)]
    · right
      rw [Option.filter_some_neg (by simpa using hyoung)]
      refine ⟨rfl, ?_⟩
      intro b' hb'
      rw [← Option.some.inj hb']
      have holder : 1000 ≤ (now - b.lastRefill) / 1000000 := by omega
      exact holder

theorem accountOf_nextGcNs (key : IpAddr) (n : ℕ) :
    accountOf key { l with nextGcNs := n } = l.accountOf key := rfl

theorem forgets_collect (now : ℕ) :
    (meter rps burst).Forgets now (l.accountOf key) ((l.collect now).accountOf key) := by
  unfold collect
  split_ifs
  · rw [← accountOf_nextGcNs l key (min (l.nextGcNs + 10000000000) u64Max)]
    exact forgets_retainYounger _ now 60 (by omega)
  · exact Or.inl rfl

/-- A full table refuses a new bucket; otherwise the bucket is called, in the table or in what
    is left of it. -/
theorem admitTo_cases (now : ℕ) (ip : IpAddr) :
    l.admitTo now ip = (false, l.retainYounger now 10) ∨
      l.admitTo now ip = (l.retainYounger now 10).spend now ip ∨
      l.admitTo now ip = l.spend now ip := by
  unfold admitTo
  by_cases hfull : maxRateLimitBuckets ≤ l.buckets.entries.length ∧ ip ∉ l.buckets
  · rw [if_pos hfull]
    by_cases hstill : maxRateLimitBuckets ≤ (l.retainYounger now 10).buckets.entries.length
    · exact Or.inl (if_pos hstill)
    · exact Or.inr (Or.inl (if_neg hstill))
  · exact Or.inr (Or.inr (if_neg hfull))

theorem spend_step (now : ℕ) (ip key : IpAddr) :
    (key ≠ ip ∧ (l.spend now ip).2.accountOf key = l.accountOf key) ∨
      (key = ip ∧ (l.spend now ip).1 = ((meter l.rps l.burst).call now (l.accountOf key)).1 ∧
        (l.spend now ip).2.accountOf key =
          some ((meter l.rps l.burst).call now (l.accountOf key)).2) := by
  obtain ⟨b, heq, hb⟩ := l.spend_eq now ip
  rw [heq, accountOf_insert]
  by_cases hkey : key = ip
  · right
    rw [if_pos hkey, hb, hkey]
    exact ⟨rfl, rfl, rfl⟩
  · left
    rw [if_neg hkey]
    exact ⟨hkey, rfl⟩

/-- From the table check on, the bucket of `ip` is called or `ip` is refused. -/
theorem admitTo_step (now : ℕ) (ip key : IpAddr) :
    ∃ o, (meter l.rps l.burst).Forgets now (l.accountOf key) o ∧
      (((l.admitTo now ip).1 = false ∧ (l.admitTo now ip).2.accountOf key = o) ∨
        (key ≠ ip ∧ (l.admitTo now ip).2.accountOf key = o) ∨
        (key = ip ∧ (l.admitTo now ip).1 = ((meter l.rps l.burst).call now o).1 ∧
          (l.admitTo now ip).2.accountOf key = some ((meter l.rps l.burst).call now o).2)) := by
  have hforget : (meter l.rps l.burst).Forgets now (l.accountOf key) _ :=
    forgets_retainYounger l now 10 (by omega)
  rcases l.admitTo_cases now ip with heq | heq | heq
  · rw [heq]
    exact ⟨_, hforget, Or.inl ⟨rfl, rfl⟩⟩
  · rw [heq]
    exact ⟨_, hforget, Or.inr ((l.retainYounger now 10).spend_step now ip key)⟩
  · rw [heq]
    exact ⟨_, Or.inl rfl, Or.inr (l.spend_step now ip key)⟩

theorem spend_frame (now : ℕ) (ip : IpAddr) :
    (l.spend now ip).2 = { l with buckets := (l.spend now ip).2.buckets } := by
  obtain ⟨b, heq, -⟩ := l.spend_eq now ip
  rw [heq]

/-- A call changes the table only, and the time of the next collection. -/
theorem admitTo_frame (now : ℕ) (ip : IpAddr) :
    (l.admitTo now ip).2 = { l with buckets := (l.admitTo now ip).2.buckets } := by
  rcases l.admitTo_cases now ip with heq | heq | heq
  · rw [heq]
    rfl
  · rw [heq]
    exact (l.retainYounger now 10).spend_frame now ip
  · rw [heq]
    exact l.spend_frame now ip

end

theorem setTo_collect (now : ℕ) (h : l.SetTo rps burst prefixV4 prefixV6) :
    (l.collect now).SetTo rps burst prefixV4 prefixV6 := by
  obtain ⟨hrps, hburst, hv4, hv6⟩ := h
  unfold collect
  split_ifs
  · exact ⟨hrps, hburst, hv4, hv6⟩
  · exact ⟨hrps, hburst, hv4, hv6⟩

theorem setTo_check (l : RateLimiter) (call : ℕ × IpAddr)
    (h : l.SetTo rps burst prefixV4 prefixV6) :
    (l.check call).2.SetTo rps burst prefixV4 prefixV6 := by
  unfold check
  split_ifs
  · exact h
  · exact h
  · rw [admitTo_frame]
    obtain ⟨hrps, hburst, hv4, hv6⟩ := setTo_collect call.1 h
    exact ⟨hrps, hburst, hv4, hv6⟩

theorem setTo_new (burst : Option U64) :
    (new rps burst prefixV4 prefixV6).SetTo rps (new rps burst prefixV4 prefixV6).burst
      prefixV4 prefixV6 := ⟨rfl, rfl, rfl, rfl⟩

/-- For every bucket, a call of an enabled limiter is a step of the token bucket. -/
theorem check_step (hrps : rps ≠ 0) (key : IpAddr) (l : RateLimiter) (call : ℕ × IpAddr)
    (h : l.SetTo rps burst prefixV4 prefixV6) :
    (meter rps burst).Step call.1 (inBucket prefixV4 prefixV6 key call.2) (l.accountOf key)
      (l.check call).1 ((l.check call).2.accountOf key) := by
  obtain ⟨hl, hb, hv4, hv6⟩ := setTo_collect call.1 h
  unfold check
  rw [if_neg (h.1 ▸ hrps)]
  by_cases hloop : isLoopback call.2 = true
  · rw [if_pos hloop]
    refine Meter.Step.skip (Or.inl rfl) ?_
    intro hcounts
    simp [inBucket, hloop] at hcounts
  · rw [if_neg hloop, h.2.2.1, h.2.2.2]
    have hcollect : (meter rps burst).Forgets call.1 (l.accountOf key) _ := forgets_collect l call.1
    obtain ⟨o, hforget, hcases⟩ :=
      (l.collect call.1).admitTo_step call.1 (normalizeIp call.2 prefixV4 prefixV6) key
    rw [hl, hb] at hforget hcases
    have hboth : (meter rps burst).Forgets call.1 (l.accountOf key) o := hcollect.trans hforget
    rcases hcases with ⟨hrefused, ho⟩ | ⟨hother, ho⟩ | ⟨-, hpass, ho⟩
    · rw [hrefused, ho]
      exact Meter.Step.skip hboth fun _ => rfl
    · rw [ho]
      refine Meter.Step.skip hboth ?_
      intro hcounts
      simp only [inBucket, Bool.and_eq_true, decide_eq_true_eq] at hcounts
      exact absurd hcounts.2.symm hother
    · rw [hpass, ho]
      exact Meter.Step.call hboth

/-! ## The bound -/

section

variable (l : RateLimiter) (key : IpAddr) (start T : ℕ) (calls : List (ℕ × IpAddr))

/-- The accepted calls of the bucket `key` in the `T` milliseconds from `start`. -/
def accepted : ℕ :=
  passes check (within start (start + T * 1000000) (inBucket l.prefixV4 l.prefixV6 key)) l calls

/-- No call in these milliseconds drops the bucket. -/
def KeptWithin : Prop :=
  ∀ pre call post, calls = pre ++ call :: post → start ≤ call.1 → call.1 ≤ start + T * 1000000 →
    key ∈ (after check l pre).buckets → key ∈ (after check l (pre ++ [call])).buckets

end

/-- With `burst ≤ rps` every interval keeps to the bound, whatever is dropped. -/
theorem accepted_le (hrps : rps ≠ 0) (hburst : burst ≤ rps)
    (h : l.SetTo rps burst prefixV4 prefixV6) (hempty : l.buckets = ∅) (key : IpAddr)
    (start T : ℕ) {calls : List (ℕ × IpAddr)} (hcalls : Chronological 0 calls) :
    l.accepted key start T calls ≤ burst.val + (rps.val * T) ⌈/⌉ 1000 := by
  unfold accepted
  rw [h.2.2.1, h.2.2.2]
  have hnone : l.accountOf key = none := by
    unfold accountOf
    rw [hempty]
    rfl
  refine passes_le (accountOf key) setTo_check (check_step hrps key) hburst start T h ?_ hcalls
  intro b hb
  rw [hnone] at hb
  cases hb

theorem mem_buckets_iff : key ∈ l.buckets ↔ ∃ b, l.accountOf key = some b := by
  rw [Map.mem_iff_lookup]
  unfold accountOf
  constructor
  · simp
  · simp

/-- The bucket of `ip` holds `tokens`, refilled at `now`, and no collection is due. -/
structure Holds (l : RateLimiter) (rps burst : U64) (prefixV4 prefixV6 : Byte) (ip : IpAddr)
    (tokens now : ℕ) : Prop where
  setTo : l.SetTo rps burst prefixV4 prefixV6
  account : l.accountOf (normalizeIp ip prefixV4 prefixV6) = some ⟨tokens, now⟩
  gc : l.nextGcNs = 10000000000

variable {counts : ℕ × IpAddr → Bool}

theorem passes_replicate_succ {n : ℕ} (hpass : (l.check (now, ip)).1 = true)
    (hcounts : counts (now, ip) = true)
    (hrest : passes check counts (l.check (now, ip)).2 (List.replicate n (now, ip)) = n) :
    passes check counts l (List.replicate (n + 1) (now, ip)) = n + 1 := by
  rw [replicate_succ, passes, hpass, hcounts, hrest]
  show 1 + n = n + 1
  omega

/-- The bucket is there, or there is room for it. -/
def RoomFor (l : RateLimiter) (key : IpAddr) : Prop :=
  key ∈ l.buckets ∨ l.buckets.entries.length < maxRateLimitBuckets

section Source

variable (hrps : rps ≠ 0) (hloop : isLoopback ip = false)

include hrps hloop

/-- Before the next collection, a call whose bucket is there, or has room, is one of the token
    bucket. -/
theorem check_own (now : ℕ) (h : l.SetTo rps burst prefixV4 prefixV6) (hgc : now < l.nextGcNs)
    (hroom : l.RoomFor (normalizeIp ip prefixV4 prefixV6)) :
    (l.check (now, ip)).1 = ((meter rps burst).call now
        (l.accountOf (normalizeIp ip prefixV4 prefixV6))).1 ∧
      (l.check (now, ip)).2.accountOf (normalizeIp ip prefixV4 prefixV6) =
        some ((meter rps burst).call now (l.accountOf (normalizeIp ip prefixV4 prefixV6))).2 ∧
      (l.check (now, ip)).2.nextGcNs = l.nextGcNs := by
  obtain ⟨hl, hb, hv4, hv6⟩ := h
  have hcollect : l.collect now = l := if_neg (by omega)
  have hfull : ¬ (maxRateLimitBuckets ≤ l.buckets.entries.length ∧
      normalizeIp ip prefixV4 prefixV6 ∉ l.buckets) := by
    rintro ⟨hlen, hnot⟩
    rcases hroom with hmem | hlt
    · exact hnot hmem
    · omega
  have heq : l.check (now, ip) = l.spend now (normalizeIp ip prefixV4 prefixV6) := by
    unfold check
    rw [if_neg (hl ▸ hrps), if_neg (by simp [hloop]), hv4, hv6]
    show (l.collect now).admitTo now _ = _
    rw [hcollect]
    exact if_neg hfull
  rw [heq]
  rcases l.spend_step now (normalizeIp ip prefixV4 prefixV6) (normalizeIp ip prefixV4 prefixV6) with
    ⟨hne, -⟩ | ⟨-, hpass, haccount⟩
  · exact absurd rfl hne
  · rw [hl, hb] at hpass haccount
    refine ⟨hpass, haccount, ?_⟩
    rw [spend_frame]

/-- A call that finds a token, or finds a bucket that is full again. -/
theorem holds_check {tokens : ℕ} (h : l.SetTo rps burst prefixV4 prefixV6)
    (hnext : l.nextGcNs = 10000000000) (hnow : now < 10000000000)
    (hroom : l.RoomFor (normalizeIp ip prefixV4 prefixV6))
    (hcall : (meter rps burst).call now (l.accountOf (normalizeIp ip prefixV4 prefixV6)) =
      (true, ⟨tokens, now⟩)) :
    (l.check (now, ip)).1 = true ∧
      (l.check (now, ip)).2.Holds rps burst prefixV4 prefixV6 ip tokens now := by
  obtain ⟨hpass, haccount, hgc⟩ := check_own hrps hloop now h (by rw [hnext]; exact hnow) hroom
  rw [hcall] at hpass haccount
  exact ⟨hpass, ⟨setTo_check l _ h, haccount, hgc.trans hnext⟩⟩

/-- A full bucket lets `burst` calls through at one time. -/
theorem passes_burst (hnow : now < 10000000000) (hcounts : counts (now, ip) = true) (n : ℕ) :
    ∀ l : RateLimiter, l.SetTo rps burst prefixV4 prefixV6 → l.nextGcNs = 10000000000 →
      l.RoomFor (normalizeIp ip prefixV4 prefixV6) →
      (meter rps burst).call now (l.accountOf (normalizeIp ip prefixV4 prefixV6)) =
        (true, ⟨n, now⟩) →
      passes check counts l (List.replicate (n + 1) (now, ip)) = n + 1 ∧
        (after check l (List.replicate (n + 1) (now, ip))).Holds rps burst prefixV4 prefixV6 ip 0
          now := by
  induction n with
  | zero =>
    intro l h hnext hroom hcall
    obtain ⟨hpass, hholds⟩ := holds_check hrps hloop h hnext hnow hroom hcall
    exact ⟨passes_replicate_succ hpass hcounts rfl, hholds⟩
  | succ n ih =>
    intro l h hnext hroom hcall
    obtain ⟨hpass, hholds⟩ := holds_check hrps hloop h hnext hnow hroom hcall
    have hmem := mem_buckets_iff.mpr ⟨_, hholds.account⟩
    obtain ⟨hrest, hafter⟩ := ih _ hholds.setTo hholds.gc (Or.inl hmem) (by
      rw [hholds.account]
      exact Meter.call_of_token now n)
    exact ⟨passes_replicate_succ hpass hcounts hrest, hafter⟩

end Source

/-! ## Twice the burst in a second -/

/-- `n` calls at time 0 and `n` calls a second later. -/
def twice (n : ℕ) (ip : IpAddr) : List (ℕ × IpAddr) :=
  List.replicate n (0, ip) ++ List.replicate n (1000000000, ip)

theorem chronological_replicate (t n : ℕ) (ip : IpAddr) (calls : List (ℕ × IpAddr)) {s : ℕ}
    (hs : s ≤ t) (h : Chronological t calls) :
    Chronological s (List.replicate n (t, ip) ++ calls) := by
  induction n generalizing s with
  | zero =>
    cases calls with
    | nil => trivial
    | cons c cs => exact ⟨hs.trans h.1, h.2⟩
  | succ n ih => exact ⟨hs, ih le_rfl⟩

theorem chronological_twice (n : ℕ) (ip : IpAddr) : Chronological 0 (twice n ip) := by
  have hlater := chronological_replicate 1000000000 n ip [] (Nat.zero_le _) trivial
  rw [append_nil] at hlater
  exact chronological_replicate 0 n ip _ le_rfl hlater

theorem nextGcNs_check {call : ℕ × IpAddr} (h : call.1 < l.nextGcNs) :
    (l.check call).2.nextGcNs = l.nextGcNs := by
  have hcollect : l.collect call.1 = l := if_neg (by omega)
  unfold check
  split_ifs
  · rfl
  · rfl
  · rw [hcollect, admitTo_frame]

section

variable (hrps : rps ≠ 0) (hloop : isLoopback ip = false)
include hrps hloop

/-- Before the first collection no call of `ip` drops its bucket. -/
theorem keptWithin_of_early
    (h : l.SetTo rps burst prefixV4 prefixV6) (hnext : l.nextGcNs = 10000000000) (start T : ℕ)
    {calls : List (ℕ × IpAddr)} (hcalls : ∀ c ∈ calls, c.1 < 10000000000 ∧ c.2 = ip) :
    l.KeptWithin (normalizeIp ip prefixV4 prefixV6) start T calls := by
  intro pre call post heq _ _ hmem
  have hearly : ∀ c ∈ pre ++ [call], c.1 < 10000000000 ∧ c.2 = ip := by
    intro c hc
    apply hcalls
    rw [heq]
    simp only [mem_append, mem_cons] at hc ⊢
    tauto
  have hstate : (after check l pre).SetTo rps burst prefixV4 prefixV6 ∧
      (after check l pre).nextGcNs = 10000000000 := by
    refine after_of_forall (P := fun l : RateLimiter => l.SetTo rps burst prefixV4 prefixV6 ∧
      l.nextGcNs = 10000000000) ⟨h, hnext⟩ ?_
    rintro l c hc ⟨hset, hgc⟩
    have hearlier := (hearly c (mem_append_left _ hc)).1
    exact ⟨setTo_check l c hset, (nextGcNs_check (by rw [hgc]; exact hearlier)).trans hgc⟩
  obtain ⟨hnow, hip⟩ := hearly call (by simp)
  obtain ⟨t, ip'⟩ := call
  obtain rfl : ip' = ip := hip
  rw [after_concat]
  obtain ⟨-, haccount, -⟩ := check_own hrps hloop t hstate.1
    (by rw [hstate.2]; exact hnow) (Or.inl hmem)
  exact mem_buckets_iff.mpr ⟨_, haccount⟩

theorem keptWithin_twice (burst : Option U64)
    (n start T : ℕ) :
    (new rps burst prefixV4 prefixV6).KeptWithin (normalizeIp ip prefixV4 prefixV6) start T
      (twice n ip) := by
  refine keptWithin_of_early hrps hloop (setTo_new burst) rfl start T ?_
  intro c hc
  rcases mem_append.mp hc with hc | hc
  · rw [eq_of_mem_replicate hc]
    exact ⟨by omega, rfl⟩
  · rw [eq_of_mem_replicate hc]
    exact ⟨by omega, rfl⟩

theorem accepted_twice (burst : Option U64) :
    (new rps burst prefixV4 prefixV6).accepted (normalizeIp ip prefixV4 prefixV6) 0 1000
      (twice (new rps burst prefixV4 prefixV6).burst.val ip) =
      2 * (new rps burst prefixV4 prefixV6).burst.val := by
  have hset : (new rps burst prefixV4 prefixV6).SetTo rps _ prefixV4 prefixV6 := setTo_new burst
  generalize hb : (new rps burst prefixV4 prefixV6).burst = b at hset ⊢
  cases hn : b.val with
  | zero => rfl
  | succ n =>
    have hburst : (meter rps b).burst = n + 1 := hn
    have hcounts : ∀ t, t = 0 ∨ t = 1000000000 →
        within 0 (0 + 1000 * 1000000) (inBucket prefixV4 prefixV6
          (normalizeIp ip prefixV4 prefixV6)) (t, ip) = true := by
      rintro t (rfl | rfl) <;> simp [within, inBucket, hloop]
    have hempty : (new rps burst prefixV4 prefixV6).accountOf
        (normalizeIp ip prefixV4 prefixV6) = none := rfl
    have hroom : (new rps burst prefixV4 prefixV6).buckets.entries.length < maxRateLimitBuckets := by
      show 0 < 65536
      omega
    obtain ⟨hfirst, hholds⟩ := passes_burst hrps hloop (by omega) (hcounts 0 (Or.inl rfl)) n _ hset
      rfl (Or.inr hroom) (by rw [hempty]; exact Meter.call_of_new hburst 0)
    have hidle : (meter rps b).window ≤ (meter rps b).elapsed 1000000000 ⟨0, 0⟩ := by
      show 1000 ≤ (1000000000 - 0) / 1000000
      omega
    obtain ⟨hsecond, -⟩ := passes_burst hrps hloop (by omega) (hcounts 1000000000 (Or.inr rfl)) n _
      hholds.setTo hholds.gc (Or.inl (mem_buckets_iff.mpr ⟨_, hholds.account⟩))
      (by rw [hholds.account]; exact Meter.call_of_idle hburst hidle)
    unfold accepted twice
    rw [passes_append]
    show passes check (within 0 _ (inBucket prefixV4 prefixV6 _)) _ _ +
      passes check (within 0 _ (inBucket prefixV4 prefixV6 _)) _ _ = _
    omega

end

/-- A source that is not loopback: `10.0.0.1`. -/
def remote : IpAddr := .v4 ![10, 0, 0, 1]

/-- In every interval of `T` milliseconds a bucket accepts at most `burst + ⌈rps * T / 1000⌉`
    calls iff the burst is not above the rate. The default burst, twice the rate, is. -/
theorem accepted_le_iff (rps : U64) (hrps : 0 < rps) (burst : Option U64)
    (prefixV4 prefixV6 : Byte) :
    (∀ (key : IpAddr) (start T : ℕ) (calls : List (ℕ × IpAddr)), Chronological 0 calls →
      (new rps burst prefixV4 prefixV6).KeptWithin key start T calls →
      (new rps burst prefixV4 prefixV6).accepted key start T calls ≤
        (new rps burst prefixV4 prefixV6).burst.val + (rps.val * T) ⌈/⌉ 1000) ↔
      (new rps burst prefixV4 prefixV6).burst ≤ rps := by
  have hne : rps ≠ 0 := hrps.ne'
  have hloop : isLoopback remote = false := by decide
  constructor
  · intro hbound
    have htwice := hbound _ 0 1000 _
      (chronological_twice (new rps burst prefixV4 prefixV6).burst.val remote)
      (keptWithin_twice hne hloop burst _ 0 1000)
    rw [accepted_twice hne hloop burst] at htwice
    have hceil : (rps.val * 1000) ⌈/⌉ 1000 = rps.val := by
      rw [Nat.ceilDiv_eq_add_pred_div]
      omega
    have hle : (new rps burst prefixV4 prefixV6).burst.val ≤ rps.val := by omega
    exact hle
  · intro hburst key start T calls hcalls _
    exact accepted_le hne hburst (setTo_new burst) rfl key start T hcalls

/-- A rate of one with no burst configured: four calls pass within a second, the bound is three. -/
theorem accepted_default_burst :
    (new 1 none 32 64).KeptWithin (normalizeIp remote 32 64) 0 1000 (twice 2 remote) ∧
      (new 1 none 32 64).accepted (normalizeIp remote 32 64) 0 1000 (twice 2 remote) = 4 ∧
      (new 1 none 32 64).burst.val + (1 * 1000) ⌈/⌉ 1000 = 3 :=
  ⟨keptWithin_twice (by decide) (by decide) none 2 0 1000,
    accepted_twice (by decide) (by decide) none, by decide⟩

theorem accepted_le_iff_equal_burst :
    (∀ (key : IpAddr) (start T : ℕ) (calls : List (ℕ × IpAddr)), Chronological 0 calls →
      (new 100 (some 100) 32 64).KeptWithin key start T calls →
      (new 100 (some 100) 32 64).accepted key start T calls ≤
        (new 100 (some 100) 32 64).burst.val + ((100 : U64).val * T) ⌈/⌉ 1000) ↔
      (new 100 (some 100) 32 64).burst ≤ 100 :=
  accepted_le_iff 100 (by decide) (some 100) 32 64

end RateLimiter

end Runbound.Server
