import Runbound.Lib.Text
import Runbound.Recursor.Infra

/-!
# The two ban tables

Models of the ban table of `IcmpStats` in `icmp.rs` (lines 117–245), which the kernel UDP path
asks and whose changes go to the XDP map, and of the block table of `AlertTracker` in `alerts.rs`
(lines 97–171, 274–346, 390–421, 451–560), which the other paths ask. Each has a file from which
it is loaded at the start.

Time is counted in seconds, and the wall clock and the monotonic clock advance together, so the
epoch in a saved block is the time at which it ends. Writing a file succeeds. The tarpit table,
the recent alerts and the webhooks are left out: no ban depends on them.

The second half says what each function leaves at one address (`lookup_*`); nothing after this
module unfolds them.
-/

namespace Runbound.Bans

open Lib List Map
open Recursor (IpAddr)

/-- `is_ban_exempt` (icmp.rs:14-16, alerts.rs:405-407): loopback and unspecified addresses. -/
def isBanExempt : IpAddr → Bool
  | .v4 o => o 0 == 127 || decide (∀ i, o i = 0)
  | .v6 o => decide (∀ i, i ≠ 15 → o i = 0) && (o 15 == 1 || o 15 == 0)

/-! ## `IcmpStats` -/

/-- `BanSource` (icmp.rs:44-50). -/
inductive BanSource where
  | icmpFlood
  | manual
  | relay
  | bot
  deriving DecidableEq

/-- `BanEntry` (icmp.rs:53-58). -/
structure BanEntry where
  ts : ℕ
  src : BanSource
  permanent : Bool
  deriving DecidableEq

/-- The bans of `IcmpStats` (icmp.rs:81-97), and the file `ip-blacklist.json`. -/
structure IcmpStats where
  banned : Map IpAddr BanEntry
  bannedPresent : Bool
  file : List IpAddr

/-- `MAX_BANNED` (icmp.rs:20), and the cap of the file (icmp.rs:199). -/
def maxBanned : ℕ := 100000

/-- `persist_blacklist` (icmp.rs:196-214). -/
def IcmpStats.persistBlacklist (s : IcmpStats) : IcmpStats :=
  { s with file := ((s.banned.entries.filter fun e => e.2.permanent).map Sigma.fst).take maxBanned }

/-- There is no room for a ban of the address (icmp.rs:123). -/
def IcmpStats.full (s : IcmpStats) (ip : IpAddr) : Prop :=
  ip ∉ s.banned ∧ s.banned.entries.length ≥ maxBanned

instance (s : IcmpStats) (ip : IpAddr) : Decidable (s.full ip) := inferInstanceAs (Decidable (_ ∧ _))

section

variable (s : IcmpStats)

/-- A ban is entered; a permanent one is saved (icmp.rs:127-131). -/
def IcmpStats.enter (ip : IpAddr) (e : BanEntry) : IcmpStats :=
  let s := { s with banned := s.banned.insert ip e, bannedPresent := true }
  if e.permanent then s.persistBlacklist else s

section

variable (now : ℕ) (ip : IpAddr) (src : BanSource)

/-- `ban_with` (icmp.rs:117-132). -/
def IcmpStats.banWith (permanent : Bool) : IcmpStats :=
  if isBanExempt ip ∨ s.full ip then s else s.enter ip ⟨now, src, permanent⟩

/-- `ban` (icmp.rs:134-136). -/
def IcmpStats.ban : IcmpStats := s.banWith now ip src false

/-- `ban_permanent_src` (icmp.rs:147-149), and `ban_permanent` (icmp.rs:140-142) with the source
`Manual`. -/
def IcmpStats.banPermanent : IcmpStats := s.banWith now ip src true

end

/-- `is_banned` (icmp.rs:154-156). -/
def IcmpStats.isBanned (ip : IpAddr) : Bool := s.bannedPresent && decide (ip ∈ s.banned)

/-- `unban` (icmp.rs:158-162). -/
def IcmpStats.unban (ip : IpAddr) : IcmpStats :=
  let banned := s.banned.erase ip
  { s with banned := banned, bannedPresent := !banned.entries.isEmpty }.persistBlacklist

end

/-- A ban stays in `cleanup_expired_bans` (icmp.rs:170). -/
def BanEntry.stays (now ttl : ℕ) (e : BanEntry) : Bool := e.permanent || decide (now - e.ts < ttl)

/-- `cleanup_expired_bans` (icmp.rs:166-188): the table, and the addresses that are unbanned in the
XDP map. -/
def IcmpStats.cleanupExpiredBans (s : IcmpStats) (now ttl : ℕ) : IcmpStats × List IpAddr :=
  let banned := s.banned.retain fun _ e => e.stays now ttl
  ({ s with banned := banned, bannedPresent := !banned.entries.isEmpty },
    (s.banned.entries.filter fun e => !e.2.stays now ttl).map Sigma.fst)

/-- `load_blacklist` (icmp.rs:217-245) of a new process: the table, and the addresses that are
banned in the XDP map. -/
def IcmpStats.loadBlacklist (file : List IpAddr) (now : ℕ) : IcmpStats × List IpAddr :=
  let ips := (file.take maxBanned).filter fun ip => !isBanExempt ip
  ({ banned := Map.insertAll (ips.map fun ip => (ip, ⟨now, .manual, true⟩)) ∅
     bannedPresent := !ips.isEmpty
     file := file }, ips)

/-! ## `AlertTracker` -/

/-- `BlockEntry` (alerts.rs:43-46). `none` is a permanent block. -/
structure BlockEntry where
  expires : Option ℕ
  rule : Text
  deriving DecidableEq

/-- An entry of the file `alert-blocks.json` (alerts.rs:115-119). -/
structure SavedBlock where
  ip : IpAddr
  rule : Text
  expiresEpoch : Option ℕ
  deriving DecidableEq

/-- The blocks of `AlertTracker` (alerts.rs:57-70), and their file. -/
structure AlertTracker where
  blocked : Map IpAddr BlockEntry
  file : List SavedBlock

/-- `MAX_BLOCKED_ENTRIES` (alerts.rs:20). -/
def maxBlockedEntries : ℕ := 50000

/-- A block has not expired (alerts.rs:160-162). -/
def BlockEntry.live (now : ℕ) (e : BlockEntry) : Bool := e.expires.all (now < ·)

section

variable (a : AlertTracker) (now : ℕ)

/-- The answer of `is_blocked` (alerts.rs:158-171). -/
def AlertTracker.isBlocked (ip : IpAddr) : Bool := (a.blocked.lookup ip).any (·.live now)

/-- The effect of `is_blocked` (alerts.rs:163-167): a block that has expired goes. -/
def AlertTracker.dropExpired (ip : IpAddr) : AlertTracker × List IpAddr :=
  match a.blocked.lookup ip with
  | some e => if e.live now then (a, []) else ({ a with blocked := a.blocked.erase ip }, [ip])
  | none => (a, [])

/-- `persist_blocks` (alerts.rs:97-125): `now_epoch + remaining` for a block that expires. -/
def AlertTracker.persistBlocks : AlertTracker :=
  { a with file := a.blocked.entries.map fun e =>
      ⟨e.1, e.2.rule, e.2.expires.map fun exp => now + (exp - now)⟩ }

end

/-- The table of `load_blocks` (alerts.rs:128-155) of a new process. -/
def AlertTracker.loadBlocks (file : List SavedBlock) (now : ℕ) : AlertTracker :=
  let live := file.filter fun b => b.expiresEpoch.all (now < ·)
  { blocked := Map.insertAll
      (live.map fun b => (b.ip, ⟨b.expiresEpoch.map fun epoch => now + (epoch - now), b.rule⟩)) ∅
    file := file }

/-- The action of an alert rule (alerts.rs:295-338). -/
inductive RuleAction where
  | block
  | tarpit
  | notify
  | log
  deriving DecidableEq

/-- What `trigger` reads of an `AlertRule` (config/parser.rs:99-113). -/
structure AlertRule where
  name : Text
  action : RuleAction
  blockDurationS : ℕ
  deriving DecidableEq

/-- The end of a block of a duration; 0 is permanent (alerts.rs:303-307, 495-499). -/
def expiresAfter (now duration : ℕ) : Option ℕ := if duration = 0 then none else some (now + duration)

/-- There is no room for a block of the address (alerts.rs:300, 491). -/
def AlertTracker.full (a : AlertTracker) (ip : IpAddr) : Prop :=
  ip ∉ a.blocked ∧ a.blocked.entries.length ≥ maxBlockedEntries

instance (a : AlertTracker) (ip : IpAddr) : Decidable (a.full ip) := inferInstanceAs (Decidable (_ ∧ _))

section

variable (a : AlertTracker) (now : ℕ) (ip : IpAddr)

/-- A block is entered and saved (alerts.rs:308-309, 463-464, 500-501). -/
def AlertTracker.enter (e : BlockEntry) : AlertTracker :=
  { a with blocked := a.blocked.insert ip e }.persistBlocks now

/-- `trigger` (alerts.rs:274-346) for a rule that blocks: the table, and whether the block was
entered. -/
def AlertTracker.trigger (rule : AlertRule) : AlertTracker × Bool :=
  if rule.action ≠ .block ∨ isBanExempt ip ∨ a.full ip then (a, false)
  else (a.enter now ip ⟨expiresAfter now rule.blockDurationS, rule.name⟩, true)

/-- `block_manual` (alerts.rs:451-483): the table, the addresses whose expired block was dropped,
and whether the block was entered. -/
def AlertTracker.blockManual (rule : Text) : AlertTracker × List IpAddr × Bool :=
  if isBanExempt ip then (a, [], false)
  else
    let checked := a.dropExpired now ip
    if a.isBlocked now ip ∨ checked.1.blocked.entries.length ≥ maxBlockedEntries then
      (checked.1, checked.2, false)
    else (checked.1.enter now ip ⟨none, rule⟩, checked.2, true)

/-- `block_bot` (alerts.rs:486-519). -/
def AlertTracker.blockBot (rule : Text) (durationSecs : ℕ) : AlertTracker :=
  if isBanExempt ip ∨ a.full ip then a
  else a.enter now ip ⟨expiresAfter now durationSecs, rule⟩

/-- `unblock` (alerts.rs:390-397): the table, and whether there was a block. -/
def AlertTracker.unblock : AlertTracker × Bool :=
  if ip ∈ a.blocked then ({ a with blocked := a.blocked.erase ip }.persistBlocks now, true)
  else (a, false)

end

/-- `evict_expired` (alerts.rs:522-538): the table, and the addresses whose block has expired. -/
def AlertTracker.evictExpired (a : AlertTracker) (now : ℕ) : AlertTracker × List IpAddr :=
  let expired := (a.blocked.entries.filter fun e => !e.2.live now).map Sigma.fst
  if expired.isEmpty then (a, [])
  else ({ a with blocked := a.blocked.retain fun _ e => e.live now }.persistBlocks now, expired)

/-! ## What the functions leave at an address -/

variable {s : IcmpStats} {a : AlertTracker} {now : ℕ} {ip ip' : IpAddr}

theorem IcmpStats.lookup_enter (s : IcmpStats) (ip ip' : IpAddr) (e : BanEntry) :
    (s.enter ip e).banned.lookup ip' = if ip' = ip then some e else s.banned.lookup ip' := by
  unfold IcmpStats.enter
  split_ifs <;> simp_all [IcmpStats.persistBlacklist, lookup_insert_eq]

theorem IcmpStats.lookup_cleanup (s : IcmpStats) (now ttl : ℕ) (ip : IpAddr) :
    (s.cleanupExpiredBans now ttl).1.banned.lookup ip =
      (s.banned.lookup ip).filter (·.stays now ttl) :=
  lookup_retain _ s.banned ip

/-- A file just written lists the addresses with a permanent ban, as long as the table keeps to
its cap. -/
theorem IcmpStats.mem_persistBlacklist (hlen : s.banned.entries.length ≤ maxBanned) :
    ip ∈ s.persistBlacklist.file ↔ ∃ e, s.banned.lookup ip = some e ∧ e.permanent = true := by
  have hle : ((s.banned.entries.filter fun e => e.2.permanent).map Sigma.fst).length ≤ maxBanned := by
    rw [length_map]
    exact (length_filter_le _ _).trans hlen
  show ip ∈ List.take maxBanned _ ↔ _
  rw [take_of_length_le hle]
  simp only [mem_map, mem_filter, Map.lookup_eq_some_iff]
  constructor
  · simp
  · simp

/-- After the start the table bans the addresses of the file, permanently. -/
theorem IcmpStats.lookup_loadBlacklist {file : List IpAddr}
    (hmem : ip ∈ file.take maxBanned) (hexempt : isBanExempt ip = false) :
    (IcmpStats.loadBlacklist file now).1.banned.lookup ip = some ⟨now, .manual, true⟩ := by
  have hkept : ip ∈ (file.take maxBanned).filter fun ip => !isBanExempt ip :=
    mem_filter.mpr ⟨hmem, by simp [hexempt]⟩
  have hentry : ∃ e ∈ ((file.take maxBanned).filter fun ip => !isBanExempt ip).map fun ip =>
      (ip, (⟨now, .manual, true⟩ : BanEntry)), e.1 = ip :=
    ⟨_, mem_map_of_mem hkept, rfl⟩
  obtain ⟨v, hv, hes⟩ := exists_lookup_insertAll (m := ∅) hentry
  obtain ⟨k, -, hk⟩ := mem_map.mp hes
  cases hk
  exact hv

theorem IcmpStats.mem_of_lookup_loadBlacklist {file : List IpAddr} {e : BanEntry}
    (h : (IcmpStats.loadBlacklist file now).1.banned.lookup ip = some e) : ip ∈ file := by
  rcases lookup_insertAll h with hmem | ⟨-, hnone⟩
  · obtain ⟨k, hk, heq⟩ := mem_map.mp hmem
    cases heq
    exact mem_of_mem_take (mem_filter.mp hk).1
  · simp at hnone

/-- Only a rule that blocks enters an address, and only while there is room. -/
theorem AlertTracker.of_trigger {a : AlertTracker} {rule : AlertRule}
    (h : (a.trigger now ip rule).2 = true) : rule.action = .block ∧ ¬ a.full ip := by
  unfold AlertTracker.trigger at h
  split_ifs at h with hskip
  push Not at hskip
  exact ⟨hskip.1, hskip.2.2⟩

section

variable (a : AlertTracker) (now : ℕ) (ip : IpAddr)

theorem AlertTracker.lookup_enter (ip' : IpAddr) (e : BlockEntry) :
    (a.enter now ip e).blocked.lookup ip' = if ip' = ip then some e else a.blocked.lookup ip' :=
  lookup_insert_eq a.blocked ip ip' e

theorem AlertTracker.lookup_dropExpired (ip' : IpAddr) :
    (a.dropExpired now ip).1.blocked.lookup ip' =
      if ip' = ip then (a.blocked.lookup ip).filter (·.live now) else a.blocked.lookup ip' := by
  unfold AlertTracker.dropExpired
  cases hl : a.blocked.lookup ip with
  | none =>
    split_ifs with h
    · rw [h]
      exact hl
    · rfl
  | some e =>
    dsimp only
    rw [Option.filter_some]
    by_cases hlive : e.live now = true
    · rw [if_pos hlive]
      split_ifs with h
      · rw [h]
        exact hl
      · rfl
    · rw [if_neg hlive, if_neg hlive]
      exact lookup_erase_eq a.blocked ip ip'

theorem AlertTracker.lookup_evictExpired :
    (a.evictExpired now).1.blocked.lookup ip = (a.blocked.lookup ip).filter (·.live now) := by
  unfold AlertTracker.evictExpired
  dsimp only
  split_ifs with hnone
  · -- nothing has expired, so the filter keeps what is there
    cases hl : a.blocked.lookup ip with
    | none => rfl
    | some e =>
      have hmem := lookup_eq_some_iff.mp hl
      simp only [List.isEmpty_iff, List.map_eq_nil_iff, List.filter_eq_nil_iff] at hnone
      have hlive : e.live now = true := by simpa using hnone _ hmem
      rw [Option.filter_some, if_pos hlive]
  · exact lookup_retain _ a.blocked ip

end

end Runbound.Bans
