import Runbound.Bans.Moves

/-!
# Temporary blocks

A rule with the action `block` enters a block of `block_duration_s` seconds in the table of
`AlertTracker`, sends it to the XDP map, and mirrors it into the table of `IcmpStats`, where it
lasts until the hourly sweep after 86400 s whatever the rule's duration is.

Results:

* `endsOnTime_iff`: the address is served again on every datapath one cleanup period after the
  duration, in every history on schedule in which nothing bans it again, exactly for a duration of
  at least 86400 s.
* `minute_block_outlived`: a rule of one minute does not end on time.

A history is on schedule when no task is late: `OnSchedule` bounds the time since each task's last
pass in every state. The invariant `Temporary` says what stands at the address in each table, in
the files and in the XDP map once the waiting commands are applied.
-/

namespace Runbound.Bans

open Lib List Map Option
open Recursor (IpAddr)

/-! ## Specification -/

/-- The period of `cleanup_expired_bans` (main.rs:1342). -/
def cleanupPeriod : ℕ := 3600

/-- The period of `evict_expired` (main.rs:2096). -/
def evictPeriod : ℕ := 60

/-- The period of the poll task, which sleeps twice without XDP. -/
def pollPeriod : ℕ := 2

/-- No task is late. -/
structure OnSchedule (n : Node) : Prop where
  cleanup : n.now ≤ n.lastCleanup + cleanupPeriod
  evict : n.now ≤ n.lastEvict + evictPeriod
  poll : n.now ≤ n.lastPoll + pollPeriod

/-- A history on schedule in which nothing bans the address. -/
def SparingRun (ip : IpAddr) (n : Node) : List Action → Prop
  | [] => OnSchedule n
  | act :: as => OnSchedule n ∧ Spares ip act ∧ SparingRun ip (n.step act) as

/-- The address is served on every datapath. -/
def Served (n : Node) (ip : IpAddr) : Prop :=
  n.alert.isBlocked n.now ip = false ∧ n.icmp.isBanned ip = false ∧ ip ∉ n.xdp

/-- No pass lies ahead of the clock, and the XDP map is empty without XDP. -/
structure Node.Timely (n : Node) : Prop where
  cleanup : n.lastCleanup ≤ n.now
  evict : n.lastEvict ≤ n.now
  poll : n.lastPoll ≤ n.now
  detached : n.attached = false → n.xdp = []

/-- The XDP map once the waiting commands are applied. -/
def Node.view (n : Node) : List IpAddr := n.commands.foldl IcmpBanCmd.apply n.xdp

/-- No table, file or XDP map names the address. -/
structure Clear (n : Node) (ip : IpAddr) : Prop where
  blocked : ip ∉ n.alert.blocked
  savedBlock : ∀ b ∈ n.alert.file, b.ip ≠ ip
  banned : ip ∉ n.icmp.banned
  xdp : ip ∉ n.xdp
  view : ip ∉ n.view

/-- Blocks of the duration end on time: a rule triggers for an address that is not on the permanent
blacklist, and one cleanup period after the duration the address is served again. A trigger for a
protected address or on a full table blocks nothing; there the address has to be free before. -/
def EndsOnTime (d : ℕ) : Prop :=
  ∀ (n : Node) (ip : IpAddr) (rule : AlertRule) (as : List Action),
    n.Timely → rule.action = .block → rule.blockDurationS = d → ip ∉ n.icmp.file →
    (isBanExempt ip = true ∨ n.alert.full ip → Clear n ip) →
    SparingRun ip (n.step (.trigger ip rule)) as →
    n.now + d + cleanupPeriod ≤ ((n.step (.trigger ip rule)).run as).now →
    Served ((n.step (.trigger ip rule)).run as) ip

variable {ip ip' : IpAddr} {a a' : AlertTracker} {s : IcmpStats} {now bound : ℕ}

/-! ## The block table at the address -/

/-- The block of the address, if there is one, ends at the bound, and so does the saved one or it
has ended. -/
structure AlertTemp (a : AlertTracker) (ip : IpAddr) (bound now : ℕ) : Prop where
  entry : ∀ e, a.blocked.lookup ip = some e → ∃ x, e.expires = some x ∧ x ≤ bound
  saved : ∀ b ∈ a.file, b.ip = ip → ∃ x, b.expiresEpoch = some x ∧ (x ≤ bound ∨ x ≤ now)

theorem AlertTemp.persist
    (h : ∀ e, a.blocked.lookup ip = some e → ∃ x, e.expires = some x ∧ x ≤ bound) :
    AlertTemp (a.persistBlocks now) ip bound now := by
  refine ⟨h, ?_⟩
  intro b hb hip
  obtain ⟨⟨k, e⟩, he, rfl⟩ := mem_map.mp hb
  have hk : k = ip := hip
  obtain ⟨x, hx, hle⟩ := h e (hk ▸ lookup_eq_some_iff.mpr he)
  refine ⟨now + (x - now), by simp [hx], ?_⟩
  omega

section

variable (h : AlertTemp a ip bound now)
include h

theorem AlertTemp.later {now' : ℕ} (hle : now ≤ now') : AlertTemp a ip bound now' := by
  refine ⟨h.entry, fun b hb hip => ?_⟩
  obtain ⟨x, hx, hor⟩ := h.saved b hb hip
  exact ⟨x, hx, by omega⟩

theorem AlertTemp.moves {a' : AlertTracker}
    (hm : AlertMoves a a' ip now) : AlertTemp a' ip bound now := by
  have hentry : ∀ e, a'.blocked.lookup ip = some e → ∃ x, e.expires = some x ∧ x ≤ bound :=
    fun e he => h.entry e (hm.lookup e he)
  rcases hm.saved with hfile | ⟨b, rfl⟩
  · exact ⟨hentry, by rw [hfile]; exact h.saved⟩
  · exact AlertTemp.persist hentry

theorem AlertTemp.isBlocked (hle : bound ≤ now) : a.isBlocked now ip = false := by
  unfold AlertTracker.isBlocked
  cases hl : a.blocked.lookup ip with
  | none => rfl
  | some e =>
    obtain ⟨x, hx, hxle⟩ := h.entry e hl
    simp only [any_some, BlockEntry.live, hx, all_some, decide_eq_false_iff_not]
    omega

end

/-! ## The ban table at the address -/

/-- The ban of the address, if there is one, is a temporary one of the time, and none is saved. -/
structure IcmpTemp (s : IcmpStats) (ip : IpAddr) (t : ℕ) : Prop where
  entry : ∀ e, s.banned.lookup ip = some e → e.ts = t ∧ e.permanent = false
  saved : ip ∉ s.file

theorem IcmpTemp.moves {t : ℕ} (h : IcmpTemp s ip t) {s' : IcmpStats} (hm : IcmpMoves s s' ip) :
    IcmpTemp s' ip t := by
  have hentry : ∀ e, s'.banned.lookup ip = some e → e.ts = t ∧ e.permanent = false :=
    fun e he => h.entry e (hm.lookup e he)
  refine ⟨hentry, fun hmem => ?_⟩
  rcases hm.saved hmem with hfile | ⟨e, he, hperm⟩
  · exact h.saved hfile
  · rw [(hentry e he).2] at hperm
    cases hperm

/-! ## The invariant -/

/-- What stands at an address that a rule blocked at time `t` for `d` seconds. -/
structure Temporary (n : Node) (ip : IpAddr) (t d : ℕ) : Prop where
  timely : n.Timely
  alert : AlertTemp n.alert ip (t + d) n.now
  icmp : IcmpTemp n.icmp ip t
  evicted : ip ∈ n.alert.blocked → n.lastEvict < t + d
  cleaned : ip ∈ n.icmp.banned → n.lastCleanup < t + banTtl
  view : n.attached = true → ip ∈ n.view → ip ∈ n.alert.blocked
  polled : ip ∈ n.xdp → ip ∈ n.alert.blocked ∨ n.lastPoll ≤ t + d + evictPeriod

variable {n : Node} {t d : ℕ}

/-- The bound read off the invariant in a state on schedule. -/
theorem Temporary.served (h : Temporary n ip t d) (hs : OnSchedule n) (hd : banTtl ≤ d)
    (hnow : t + d + cleanupPeriod ≤ n.now) : Served n ip := by
  have hcleanup := hs.cleanup
  have hevict := hs.evict
  have hpoll := hs.poll
  simp only [cleanupPeriod, evictPeriod, pollPeriod] at hcleanup hevict hpoll hnow
  refine ⟨h.alert.isBlocked (by omega), ?_, ?_⟩
  · have hout : ip ∉ n.icmp.banned := by
      intro hin
      have := h.cleaned hin
      omega
    simp [IcmpStats.isBanned, hout]
  · intro hxdp
    have hlate := h.polled hxdp
    simp only [evictPeriod] at hlate
    rcases hlate with hin | hle
    · have := h.evicted hin
      omega
    · omega

theorem temporary_moves {n n' : Node} (h : Temporary n ip t d) (hs : OnSchedule n)
    (hm : Moves n n' ip) : Temporary n' ip t d := by
  have hclock := hm.clock
  have hblocked : ip ∈ n'.alert.blocked → ip ∈ n.alert.blocked := by
    intro hin
    obtain ⟨e, he⟩ := mem_iff_lookup.mp hin
    exact mem_iff_lookup.mpr ⟨e, hm.alert.lookup e he⟩
  have hbanned : ip ∈ n'.icmp.banned → ip ∈ n.icmp.banned := by
    intro hin
    obtain ⟨e, he⟩ := mem_iff_lookup.mp hin
    exact mem_iff_lookup.mpr ⟨e, hm.icmp.lookup e he⟩
  have halert := h.alert.moves hm.alert
  have hicmp := h.icmp.moves hm.icmp
  refine ⟨⟨?_, ?_, ?_, ?_⟩, halert.later hclock, hicmp, ?_, ?_, ?_, ?_⟩
  · have := h.timely.cleanup
    have := hm.cleanup
    omega
  · have := h.timely.evict
    have := hm.evict
    omega
  · have := h.timely.poll
    have := hm.poll
    omega
  · rw [hm.attached, hm.xdp]
    exact h.timely.detached
  · -- an eviction pass leaves a block only before its end
    intro hin
    rcases hm.evict with heq | ⟨heq, hlive⟩
    · rw [heq]
      exact h.evicted (hblocked hin)
    · obtain ⟨e, he⟩ := mem_iff_lookup.mp hin
      obtain ⟨x, hx, hle⟩ := halert.entry e he
      have hbefore := hlive e he
      simp only [BlockEntry.live, hx, all_some, decide_eq_true_eq] at hbefore
      omega
  · -- a cleanup pass leaves a temporary ban only before the lifetime of the table
    intro hin
    rcases hm.cleanup with heq | ⟨heq, hstays⟩
    · rw [heq]
      exact h.cleaned (hbanned hin)
    · obtain ⟨e, he⟩ := mem_iff_lookup.mp hin
      obtain ⟨hts, hperm⟩ := hicmp.entry e he
      have hyoung := hstays e he
      simp only [BanEntry.stays, hperm, Bool.false_or, decide_eq_true_eq] at hyoung
      omega
  · intro hatt hview
    obtain ⟨sent, hcmds, hspare, hgone⟩ := hm.sends
    rw [hm.attached] at hatt
    unfold Node.view at hview
    rw [hcmds, foldl_append, hm.xdp] at hview
    obtain ⟨hold, hunnamed⟩ := mem_foldl_apply hspare hview
    have hin := h.view hatt hold
    by_contra hout
    obtain ⟨c, hc, hip⟩ := hgone hatt hin hout
    exact hunnamed c hc hip
  · rw [hm.xdp, hm.poll]
    intro hxdp
    rcases h.polled hxdp with hin | hle
    · by_cases hstill : ip ∈ n'.alert.blocked
      · exact Or.inl hstill
      · -- the block goes in this action, and the last poll was before it
        have h1 := h.timely.poll
        have h2 := hs.evict
        have h3 := h.evicted hin
        omega
    · exact Or.inr hle

theorem temporary_poll (h : Temporary n ip t d) : Temporary (n.step .poll) ip t d := by
  have hxdp : ip ∈ (n.step .poll).xdp → ip ∈ n.alert.blocked := by
    show ip ∈ (if n.attached then n.view else n.xdp) → _
    split_ifs with hatt
    · exact h.view hatt
    · rw [h.timely.detached (Bool.eq_false_iff.mpr hatt)]
      intro hin
      cases hin
  refine ⟨⟨h.timely.cleanup, h.timely.evict, le_rfl, ?_⟩, h.alert, h.icmp, h.evicted, h.cleaned,
    fun _ hview => hxdp hview, fun hin => Or.inl (hxdp hin)⟩
  intro hdet
  have hatt : n.attached = false := hdet
  show (if n.attached then _ else n.xdp) = []
  rw [hatt]
  exact h.timely.detached hatt

theorem temporary_restart (h : Temporary n ip t d) (attached : Bool) :
    Temporary (n.step (.restart attached)) ip t d := by
  have hout : ∀ e, (IcmpStats.loadBlacklist n.icmp.file n.now).1.banned.lookup ip ≠ some e :=
    fun e he => h.icmp.saved (IcmpStats.mem_of_lookup_loadBlacklist he)
  -- a saved block is loaded only before its end
  have hload : ∀ e, (AlertTracker.loadBlocks n.alert.file n.now).blocked.lookup ip = some e →
      ∃ x, e.expires = some x ∧ x ≤ t + d ∧ n.now < x := by
    intro e he
    rcases lookup_insertAll he with hmem | ⟨-, hnone⟩
    · obtain ⟨b, hb, heq⟩ := mem_map.mp hmem
      cases heq
      obtain ⟨hfile, hlive⟩ := mem_filter.mp hb
      obtain ⟨x, hx, hor⟩ := h.alert.saved b hfile rfl
      rw [hx] at hlive
      have hlt : n.now < x := by simpa using hlive
      exact ⟨n.now + (x - n.now), by simp [hx], by omega, by omega⟩
    · simp at hnone
  refine ⟨⟨le_rfl, le_rfl, le_rfl, fun _ => rfl⟩, ⟨?_, h.alert.saved⟩, ⟨?_, h.icmp.saved⟩, ?_, ?_, ?_,
    ?_⟩
  · intro e he
    obtain ⟨x, hx, hle, -⟩ := hload e he
    exact ⟨x, hx, hle⟩
  · intro e he
    exact absurd he (hout e)
  · intro hin
    obtain ⟨e, he⟩ := mem_iff_lookup.mp hin
    obtain ⟨x, -, hle, hlt⟩ := hload e he
    exact lt_of_lt_of_le hlt hle
  · intro hin
    obtain ⟨e, he⟩ := mem_iff_lookup.mp hin
    exact absurd he (hout e)
  · intro hatt hview
    have hatt' : attached = true := hatt
    have hnames : ip ∈ (List.map (IcmpBanCmd.mk true)
        ((IcmpStats.loadBlacklist n.icmp.file n.now).2 ++
          (AlertTracker.loadBlocks n.alert.file n.now).blocked.keys)).foldl IcmpBanCmd.apply [] := by
      rw [map_append]
      subst hatt'
      exact hview
    rw [mem_apply_bans] at hnames
    rcases hnames with hnil | hin
    · cases hnil
    · rcases mem_append.mp hin with hin | hin
      · exact absurd (mem_of_mem_take (mem_filter.mp hin).1) h.icmp.saved
      · exact hin
  · intro hin
    cases hin

theorem temporary_step {act : Action} (h : Temporary n ip t d) (hs : OnSchedule n)
    (hspare : Spares ip act) : Temporary (n.step act) ip t d := by
  by_cases hpoll : act = .poll
  · rw [hpoll]
    exact temporary_poll h
  · by_cases hrestart : ∃ attached, act = .restart attached
    · obtain ⟨attached, heq⟩ := hrestart
      rw [heq]
      exact temporary_restart h attached
    · exact temporary_moves h hs
        (moves_of_spares n hspare hpoll fun attached heq => hrestart ⟨attached, heq⟩)

theorem temporary_run (h : Temporary n ip t d) (as : List Action) (hrun : SparingRun ip n as) :
    Temporary (n.run as) ip t d ∧ OnSchedule (n.run as) := by
  induction as generalizing n with
  | nil => exact ⟨h, hrun⟩
  | cons act as ih => exact ih (temporary_step h hrun.1 hrun.2.1) hrun.2.2

variable {rule : AlertRule}

section

variable (hrule : rule.action = .block) (hexempt : isBanExempt ip = false)
include hrule hexempt

theorem AlertTracker.trigger_eq (hroom : ¬ a.full ip) :
    a.trigger now ip rule =
      (a.enter now ip ⟨expiresAfter now rule.blockDurationS, rule.name⟩, true) :=
  if_neg (by simp [hrule, hexempt, hroom])

theorem Node.icmp_trigger (hroom : ¬ n.alert.full ip) :
    (n.step (.trigger ip rule)).icmp = n.icmp.ban n.now ip .bot := by
  show (if (n.alert.trigger n.now ip rule).2 then _ else _) = _
  rw [AlertTracker.trigger_eq hrule hexempt hroom]
  rfl

end

theorem temporary_trigger {d : ℕ} (ht : n.Timely) (hrule : rule.action = .block)
    (hd : rule.blockDurationS = d) (hpos : 0 < d) (hexempt : isBanExempt ip = false)
    (hroom : ¬ n.alert.full ip) (hfile : ip ∉ n.icmp.file) :
    Temporary (n.step (.trigger ip rule)) ip n.now d := by
  have halert : (n.step (.trigger ip rule)).alert =
      n.alert.enter n.now ip ⟨expiresAfter n.now rule.blockDurationS, rule.name⟩ :=
    congrArg Prod.fst (AlertTracker.trigger_eq hrule hexempt hroom)
  have hicmp := Node.icmp_trigger hrule hexempt hroom
  have hin : ip ∈ (n.step (.trigger ip rule)).alert.blocked := by
    rw [halert]
    exact (AList.mem_insert (s := n.alert.blocked)).mpr (Or.inl rfl)
  have hevict := ht.evict
  have hcleanup := ht.cleanup
  refine ⟨⟨hcleanup, hevict, ht.poll, ht.detached⟩, ?_, ?_, ?_, ?_, fun _ _ => hin, fun _ => Or.inl hin⟩
  · rw [halert]
    apply AlertTemp.persist
    intro e he
    have hl : (n.alert.blocked.insert ip _).lookup ip = some e := he
    rw [lookup_insert_eq, if_pos rfl] at hl
    cases hl
    refine ⟨n.now + d, ?_, le_rfl⟩
    show expiresAfter n.now rule.blockDurationS = _
    rw [hd]
    exact if_neg (by omega)
  · rw [hicmp]
    unfold IcmpStats.ban IcmpStats.banWith
    split_ifs with hskip
    · -- the ban table is full and has no ban of the address
      have hfull := hskip.resolve_left (by simp [hexempt])
      refine ⟨fun e he => ?_, hfile⟩
      exact absurd (mem_iff_lookup.mpr ⟨e, he⟩) hfull.1
    · refine ⟨fun e he => ?_, hfile⟩
      rw [IcmpStats.lookup_enter, if_pos rfl] at he
      cases he
      exact ⟨rfl, rfl⟩
  · intro _
    show n.lastEvict < n.now + d
    omega
  · intro _
    show n.lastCleanup < n.now + banTtl
    unfold banTtl
    omega

theorem Node.trigger_skipped (hskip : isBanExempt ip = true ∨ n.alert.full ip) :
    n.step (.trigger ip rule) = n := by
  have hr : n.alert.trigger n.now ip rule = (n.alert, false) := if_pos (Or.inr hskip)
  unfold Node.step
  dsimp only
  rw [hr]
  rfl

theorem temporary_clear (ht : n.Timely) (hfile : ip ∉ n.icmp.file) (h : Clear n ip) (d : ℕ) :
    Temporary n ip n.now d where
  timely := ht
  alert := ⟨fun e he => absurd (mem_iff_lookup.mpr ⟨e, he⟩) h.blocked,
    fun b hb hip => absurd hip (h.savedBlock b hb)⟩
  icmp := ⟨fun e he => absurd (mem_iff_lookup.mpr ⟨e, he⟩) h.banned, hfile⟩
  evicted := fun hin => absurd hin h.blocked
  cleaned := fun hin => absurd hin h.banned
  view := fun _ hin => absurd hin h.view
  polled := fun hin => absurd hin h.xdp

/-! ## The schedule that shows the bound is needed -/

/-- One second: the clock, the poll and the eviction, and the cleanup up to the last second before
the lifetime of the ban table. -/
def tick (j : ℕ) : List Action :=
  [.wait 1, .poll, .evictExpired] ++ if j < banTtl then [.cleanupExpiredBans] else []

/-- The first seconds. -/
def ticks : ℕ → List Action
  | 0 => []
  | k + 1 => ticks k ++ tick (k + 1)

/-- The mirrored ban of time 0 is there after the seconds. -/
structure Mirrored (n : Node) (k : ℕ) : Prop where
  now : n.now = k
  entry : n.icmp.banned.lookup visitor = some ⟨0, .bot, false⟩
  present : n.icmp.bannedPresent = true
  poll : n.lastPoll = k
  evict : n.lastEvict = k
  cleanup : n.lastCleanup = min k (banTtl - 1)

theorem sparingRun_append {as bs : List Action} (has : SparingRun ip n as)
    (hbs : SparingRun ip (n.run as) bs) : SparingRun ip n (as ++ bs) := by
  induction as generalizing n with
  | nil => exact hbs
  | cons act as ih => exact ⟨has.1, has.2.1, ih has.2.2 hbs⟩

theorem Mirrored.onSchedule {k : ℕ} (h : Mirrored n k) (hk : k < banTtl + cleanupPeriod) :
    OnSchedule n := by
  obtain ⟨hnow, -, -, hpoll, hevict, hcleanup⟩ := h
  constructor
  · omega
  · omega
  · omega

theorem Mirrored.cleanup_step {k : ℕ} (hnow : n.now = k) (hk : k < banTtl)
    (hentry : n.icmp.banned.lookup visitor = some ⟨0, .bot, false⟩) :
    (n.step .cleanupExpiredBans).icmp.banned.lookup visitor = some ⟨0, .bot, false⟩ ∧
      (n.step .cleanupExpiredBans).icmp.bannedPresent = true := by
  have hkept : (n.icmp.cleanupExpiredBans n.now banTtl).1.banned.lookup visitor =
      some ⟨0, .bot, false⟩ := by
    rw [IcmpStats.lookup_cleanup, hentry, filter_some, if_pos]
    simp only [BanEntry.stays, Bool.false_or, decide_eq_true_eq]
    omega
  refine ⟨hkept, ?_⟩
  exact congrArg Bool.not (isEmpty_entries hkept)

theorem mirrored_tick {k : ℕ} (h : Mirrored n k) (hk : k + 1 < banTtl + cleanupPeriod) :
    Mirrored (n.run (tick (k + 1))) (k + 1) ∧ SparingRun visitor n (tick (k + 1)) := by
  have hsched := h.onSchedule (by omega)
  obtain ⟨hnow, hentry, hpresent, hpoll, hevict, hcleanup⟩ := h
  have hwait : OnSchedule (n.step (.wait 1)) := by
    constructor
    · show n.now + 1 ≤ n.lastCleanup + cleanupPeriod
      simp only [cleanupPeriod] at *
      omega
    · show n.now + 1 ≤ n.lastEvict + evictPeriod
      simp only [evictPeriod]
      omega
    · show n.now + 1 ≤ n.lastPoll + pollPeriod
      simp only [pollPeriod]
      omega
  have hpolled : OnSchedule ((n.step (.wait 1)).step .poll) :=
    ⟨hwait.cleanup, hwait.evict, Nat.le_add_right _ _⟩
  have hevicted : OnSchedule (((n.step (.wait 1)).step .poll).step .evictExpired) :=
    ⟨hwait.cleanup, Nat.le_add_right _ _, Nat.le_add_right _ _⟩
  unfold tick
  split_ifs with hbefore
  · have hclock : (((n.step (.wait 1)).step .poll).step .evictExpired).now = k + 1 :=
      congrArg (· + 1) hnow
    obtain ⟨hlookup, hflag⟩ := Mirrored.cleanup_step hclock hbefore hentry
    refine ⟨⟨hclock, hlookup, hflag, hclock, hclock, ?_⟩, hsched, trivial, hwait, trivial, hpolled,
      trivial, hevicted, trivial, Nat.le_add_right _ _, hevicted.evict, hevicted.poll⟩
    show n.now + 1 = _
    omega
  · refine ⟨⟨congrArg (· + 1) hnow, hentry, hpresent, congrArg (· + 1) hnow, congrArg (· + 1) hnow, ?_⟩,
      hsched, trivial, hwait, trivial, hpolled, trivial, hevicted⟩
    show n.lastCleanup = _
    omega

theorem mirrored_ticks (h : Mirrored n 0) (k : ℕ) (hk : k < banTtl + cleanupPeriod) :
    Mirrored (n.run (ticks k)) k ∧ SparingRun visitor n (ticks k) := by
  induction k with
  | zero => exact ⟨h, h.onSchedule hk⟩
  | succ k ih =>
    obtain ⟨hbefore, hrun⟩ := ih (by omega)
    obtain ⟨hafter, htick⟩ := mirrored_tick hbefore hk
    refine ⟨?_, sparingRun_append hrun htick⟩
    show Mirrored (n.run (ticks k ++ tick (k + 1))) (k + 1)
    rw [Node.run, foldl_append]
    exact hafter

/-- A rule that blocks for the duration. -/
def ruleFor (d : ℕ) : AlertRule := ⟨minuteRule.name, .block, d⟩

theorem visitor_not_exempt : isBanExempt visitor = false := by decide +kernel

theorem first_not_full : ¬ (Node.first 0 true).alert.full visitor := by decide +kernel

theorem mirrored_trigger (d : ℕ) :
    Mirrored ((Node.first 0 true).step (.trigger visitor (ruleFor d))) 0 := by
  have hicmp : ((Node.first 0 true).step (.trigger visitor (ruleFor d))).icmp = _ :=
    Node.icmp_trigger rfl visitor_not_exempt first_not_full
  refine ⟨rfl, ?_, ?_, rfl, rfl, rfl⟩
  · rfl
  · rfl

/-- The mirrored ban of a shorter block outlives it. -/
theorem not_endsOnTime {d : ℕ} (hshort : d < banTtl) : ¬ EndsOnTime d := by
  intro hends
  -- the number of seconds is a variable, so that the schedule is not unfolded
  obtain ⟨k, hk⟩ : ∃ k, k = d + cleanupPeriod := ⟨_, rfl⟩
  obtain ⟨hafter, hrun⟩ := mirrored_ticks (mirrored_trigger d) k (by omega)
  have hnow : (Node.first 0 true).now + d + cleanupPeriod ≤
      (((Node.first 0 true).step (.trigger visitor (ruleFor d))).run (ticks k)).now := by
    rw [hafter.now, hk]
    exact le_of_eq (congrArg (· + cleanupPeriod) (Nat.zero_add d))
  have hserved := hends (Node.first 0 true) visitor (ruleFor d) (ticks k)
    ⟨le_rfl, le_rfl, le_rfl, fun hdet => by cases hdet⟩ rfl rfl not_mem_nil
    (fun hskip => absurd hskip (by simp [visitor_not_exempt, first_not_full])) hrun hnow
  have hin := mem_iff_lookup.mpr ⟨_, hafter.entry⟩
  have hfree := hserved.2.1
  simp [IcmpStats.isBanned, hafter.present, hin] at hfree

/-- Blocks of a duration end on time exactly when the duration is at least the fixed lifetime of
the mirrored ban. -/
theorem endsOnTime_iff (d : ℕ) : EndsOnTime d ↔ banTtl ≤ d := by
  constructor
  · intro hends
    by_contra hshort
    exact not_endsOnTime (by omega) hends
  · intro hlong n ip rule as ht hrule hd hfile hclear hrun hnow
    have hpos : 0 < d := by
      unfold banTtl at hlong
      omega
    have hstart : Temporary (n.step (.trigger ip rule)) ip n.now d := by
      by_cases hskip : isBanExempt ip = true ∨ n.alert.full ip
      · rw [Node.trigger_skipped hskip]
        exact temporary_clear ht hfile (hclear hskip) d
      · obtain ⟨hexempt, hroom⟩ := not_or.mp hskip
        exact temporary_trigger ht hrule hd hpos (Bool.eq_false_iff.mpr hexempt) hroom hfile
    obtain ⟨hend, hsched⟩ := temporary_run hstart as hrun
    exact hend.served hsched hlong hnow

/-- A rule of one minute does not end on time. -/
theorem minute_block_outlived : ¬ EndsOnTime minuteRule.blockDurationS := not_endsOnTime (by decide)

end Runbound.Bans
