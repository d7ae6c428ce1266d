import Runbound.Bans.Node

/-!
# Permanent bans

An administrator bans an address for good with `ban_permanent` in the table of `IcmpStats` and
with `block_manual` in that of `AlertTracker`. `Pins` records for a history which addresses were
banned so and not released since.

Results:

* `answers_of_lastingRun`: in every history from the first start whose actions are all `Lasting`,
  every pinned address is banned and blocked.
* `tables_of_run`: what holds of the tables after every history, whatever its actions.
* `pinned_lapses`: a rule that triggers before the administrator's block, or a temporary ban after
  the administrator's ban, ends it.

The two tables are apart: an action changes each of them in one of a few ways (`Held.*` for the
bans, `Pinned.*` for the blocks), and the invariant is the pair.
-/

namespace Runbound.Bans

open Lib List Map AlertTracker
open Recursor (IpAddr)

/-! ## Specification -/

/-- The addresses an administrator has banned and blocked for good. -/
structure Pins where
  banned : List IpAddr
  blocked : List IpAddr

/-- What an action asks for. A protected address is refused. -/
def Pins.step (p : Pins) : Action → Pins
  | .banPermanent ip _ => if isBanExempt ip then p else { p with banned := ip :: p.banned }
  | .blockManual ip _ => if isBanExempt ip then p else { p with blocked := ip :: p.blocked }
  | .unban ip => { p with banned := p.banned.filter (· ≠ ip) }
  | .unblock ip => { p with blocked := p.blocked.filter (· ≠ ip) }
  | _ => p

/-- The pins after a history. -/
def Pins.run (p : Pins) (as : List Action) : Pins := as.foldl Pins.step p

/-- The first start, with no files. -/
def Node.first (now : ℕ) (attached : Bool) : Node :=
  { now := now, icmp := ⟨∅, false, []⟩, alert := ⟨∅, []⟩, attached := attached, xdp := [],
    commands := [], lastCleanup := now, lastEvict := now, lastPoll := now }

/-- Every pinned address is refused. -/
def Refuses (n : Node) (p : Pins) : Prop :=
  (∀ ip ∈ p.banned, n.icmp.isBanned ip = true) ∧ ∀ ip ∈ p.blocked, n.alert.isBlocked n.now ip = true

/-- An action leaves permanent bans as they are: a temporary ban is of an address that has no
permanent one in the table it writes, and a permanent one finds room and no temporary block that
still runs. -/
def Lasting (n : Node) (p : Pins) : Action → Prop
  | .ban ip _ => ip ∉ p.banned
  | .banPermanent ip _ => isBanExempt ip = true ∨ ¬ n.icmp.full ip
  | .blockManual ip _ =>
    isBanExempt ip = true ∨ (∃ e, n.alert.blocked.lookup ip = some e ∧ e.expires = none) ∨
      (n.alert.isBlocked n.now ip = false ∧
        (n.alert.dropExpired n.now ip).1.blocked.entries.length < maxBlockedEntries)
  | .blockBot ip _ durationSecs => ip ∈ p.blocked → durationSecs = 0
  | .trigger ip rule =>
    rule.action = .block → ¬ n.alert.full ip →
      ip ∉ p.banned ∧ (ip ∈ p.blocked → rule.blockDurationS = 0)
  | _ => True

/-- Every action of a history is `Lasting`. -/
def LastingRun (n : Node) (p : Pins) : List Action → Prop
  | [] => True
  | act :: as => Lasting n p act ∧ LastingRun (n.step act) (p.step act) as

/-! ## The bans of `IcmpStats` -/

variable {s : IcmpStats} {a : AlertTracker} {now : ℕ} {ip ip' : IpAddr}

/-- The flag is up when there is a ban, and the table keeps to its cap. -/
structure IcmpStats.Sound (s : IcmpStats) : Prop where
  size : s.banned.entries.length ≤ maxBanned
  flag : s.banned.entries.isEmpty = false → s.bannedPresent = true

/-- The address has a permanent ban, in the table and in the file. -/
structure Held (s : IcmpStats) (ip : IpAddr) : Prop where
  entry : ∃ e, s.banned.lookup ip = some e ∧ e.permanent = true
  saved : ip ∈ s.file.take maxBanned
  notExempt : isBanExempt ip = false

theorem Held.persist (hsize : s.banned.entries.length ≤ maxBanned)
    (hentry : ∃ e, s.banned.lookup ip = some e ∧ e.permanent = true)
    (hexempt : isBanExempt ip = false) : Held s.persistBlacklist ip := by
  refine ⟨hentry, ?_, hexempt⟩
  have hlen : s.persistBlacklist.file.length ≤ maxBanned := length_take_le maxBanned _
  rw [take_of_length_le hlen]
  exact (IcmpStats.mem_persistBlacklist hsize).mpr hentry

variable {n : Node} {p : Pins}

section

variable (hs : s.Sound)
include hs

theorem Held.isBanned (h : Held s ip) : s.isBanned ip = true := by
  obtain ⟨e, he, -⟩ := h.entry
  have hflag : s.bannedPresent = true := hs.flag (isEmpty_entries he)
  have hin : ip ∈ s.banned := mem_iff_lookup.mpr ⟨e, he⟩
  simp [IcmpStats.isBanned, hflag, hin]

theorem IcmpStats.length_enter (hroom : ¬ s.full ip) (e : BanEntry) :
    (s.banned.insert ip e).entries.length ≤ maxBanned := by
  by_cases hmem : ip ∈ s.banned
  · exact (length_insert_of_mem hmem e).trans hs.size
  · have hlt : s.banned.entries.length < maxBanned := by
      by_contra hge
      exact hroom ⟨hmem, by omega⟩
    have hone := length_insert_le s.banned ip e
    omega

theorem IcmpStats.Sound.enter (hroom : ¬ s.full ip) (e : BanEntry) : (s.enter ip e).Sound := by
  have hsize := IcmpStats.length_enter hs hroom e
  unfold IcmpStats.enter
  split_ifs
  · exact ⟨hsize, fun _ => rfl⟩
  · exact ⟨hsize, fun _ => rfl⟩

theorem IcmpStats.Sound.banWith (src : BanSource) (permanent : Bool) :
    (s.banWith now ip src permanent).Sound := by
  unfold IcmpStats.banWith
  split_ifs with h
  · exact hs
  · exact hs.enter (fun hfull => h (Or.inr hfull)) _

/-- A ban that is entered keeps a permanent one, unless it is a temporary one of the same
address. -/
theorem Held.enter (hroom : ¬ s.full ip') (e : BanEntry)
    (hkeep : ip = ip' → e.permanent = true) (hexempt : isBanExempt ip = false)
    (h : ip ≠ ip' → Held s ip) : Held (s.enter ip' e) ip := by
  have hsize := IcmpStats.length_enter hs hroom e
  have hentry : ∃ x, (s.banned.insert ip' e).lookup ip = some x ∧ x.permanent = true := by
    rw [lookup_insert_eq]
    split_ifs with heq
    · exact ⟨e, rfl, hkeep heq⟩
    · exact (h heq).entry
  unfold IcmpStats.enter
  split_ifs with hperm
  · exact Held.persist hsize hentry hexempt
  · -- a temporary ban is not saved, so the file is the old one
    have hne : ip ≠ ip' := fun heq => hperm (hkeep heq)
    exact ⟨hentry, (h hne).saved, hexempt⟩

theorem Held.banWith (h : Held s ip) {src : BanSource} {permanent : Bool}
    (hkeep : ip = ip' → permanent = true) : Held (s.banWith now ip' src permanent) ip := by
  unfold IcmpStats.banWith
  split_ifs with hskip
  · exact h
  · exact Held.enter hs (fun hfull => hskip (Or.inr hfull)) _ hkeep h.notExempt fun _ => h

theorem Held.banPermanent (hexempt : isBanExempt ip = false) (hroom : ¬ s.full ip)
    (src : BanSource) : Held (s.banPermanent now ip src) ip := by
  unfold IcmpStats.banPermanent IcmpStats.banWith
  rw [if_neg (by simp [hexempt, hroom])]
  exact Held.enter hs hroom _ (fun _ => rfl) hexempt fun hne => absurd rfl hne

theorem IcmpStats.Sound.unban (ip : IpAddr) : (s.unban ip).Sound := by
  refine ⟨(length_erase_le s.banned ip).trans hs.size, ?_⟩
  intro hne
  show (!(s.banned.erase ip).entries.isEmpty) = true
  rw [show (s.banned.erase ip).entries.isEmpty = false from hne]
  rfl

theorem Held.unban (h : Held s ip) (hne : ip ≠ ip') : Held (s.unban ip') ip := by
  have hsize := (length_erase_le s.banned ip').trans hs.size
  apply Held.persist hsize
  · show ∃ e, (s.banned.erase ip').lookup ip = some e ∧ _
    rw [lookup_erase_eq, if_neg hne]
    exact h.entry
  · exact h.notExempt

theorem IcmpStats.Sound.cleanup (now ttl : ℕ) : (s.cleanupExpiredBans now ttl).1.Sound := by
  refine ⟨(length_filter_le _ _).trans hs.size, ?_⟩
  intro hne
  exact congrArg Bool.not hne

end

theorem Held.cleanup (h : Held s ip) (now ttl : ℕ) : Held (s.cleanupExpiredBans now ttl).1 ip := by
  obtain ⟨e, he, hperm⟩ := h.entry
  refine ⟨⟨e, ?_, hperm⟩, h.saved, h.notExempt⟩
  rw [IcmpStats.lookup_cleanup, he, Option.filter_some]
  simp [BanEntry.stays, hperm]

theorem IcmpStats.sound_loadBlacklist (file : List IpAddr) (now : ℕ) :
    (IcmpStats.loadBlacklist file now).1.Sound := by
  constructor
  · have hall := length_insertAll_le
      (((file.take maxBanned).filter fun ip => !isBanExempt ip).map fun ip =>
        (ip, (⟨now, .manual, true⟩ : BanEntry))) ∅
    have hfilter := length_filter_le (fun ip => !isBanExempt ip) (file.take maxBanned)
    have htake := length_take_le maxBanned file
    show (Map.insertAll _ ∅).entries.length ≤ maxBanned
    exact hall.trans (by simpa using hfilter.trans htake)
  · intro hne
    show (!List.isEmpty _) = true
    cases hips : (file.take maxBanned).filter fun ip => !isBanExempt ip with
    | nil =>
      unfold IcmpStats.loadBlacklist at hne
      rw [hips] at hne
      cases hne
    | cons _ _ => rfl

theorem Held.load (h : Held s ip) (now : ℕ) : Held (IcmpStats.loadBlacklist s.file now).1 ip :=
  ⟨⟨_, IcmpStats.lookup_loadBlacklist h.saved h.notExempt, rfl⟩, h.saved, h.notExempt⟩

/-! ## The blocks of `AlertTracker` -/

/-- The address has a permanent block, in the table and in the file. -/
structure Pinned (a : AlertTracker) (ip : IpAddr) : Prop where
  entry : ∃ e, a.blocked.lookup ip = some e ∧ e.expires = none
  saved : ∃ b ∈ a.file, b.ip = ip
  only : ∀ b ∈ a.file, b.ip = ip → b.expiresEpoch = none

theorem Pinned.isBlocked (h : Pinned a ip) (now : ℕ) : a.isBlocked now ip = true := by
  obtain ⟨e, he, hexp⟩ := h.entry
  simp [AlertTracker.isBlocked, he, BlockEntry.live, hexp]

theorem Pinned.persist (now : ℕ) (h : ∃ e, a.blocked.lookup ip = some e ∧ e.expires = none) :
    Pinned (a.persistBlocks now) ip := by
  obtain ⟨e, he, hexp⟩ := h
  refine ⟨⟨e, he, hexp⟩, ⟨_, mem_map_of_mem (lookup_eq_some_iff.mp he), rfl⟩, ?_⟩
  intro b hb hip
  obtain ⟨⟨k, x⟩, hx, rfl⟩ := mem_map.mp hb
  -- the keys of the table are distinct, so this is the entry of the address
  have hkey : a.blocked.lookup k = some x := lookup_eq_some_iff.mpr hx
  have hk : k = ip := hip
  rw [hk, he] at hkey
  cases hkey
  show e.expires.map _ = none
  rw [hexp]
  rfl

/-- A block that is entered keeps a permanent one, unless it is a temporary one of the same
address. -/
theorem Pinned.enter (now : ℕ) (e : BlockEntry) (hkeep : ip = ip' → e.expires = none)
    (h : ip ≠ ip' → Pinned a ip) : Pinned (a.enter now ip' e) ip := by
  apply Pinned.persist
  show ∃ x, (a.blocked.insert ip' e).lookup ip = some x ∧ _
  rw [lookup_insert_eq]
  split_ifs with heq
  · exact ⟨e, rfl, hkeep heq⟩
  · exact (h heq).entry

theorem AlertTracker.file_dropExpired (a : AlertTracker) (now : ℕ) (ip : IpAddr) :
    (a.dropExpired now ip).1.file = a.file := by
  unfold AlertTracker.dropExpired
  cases a.blocked.lookup ip with
  | none => rfl
  | some e =>
    dsimp only
    split_ifs
    · rfl
    · rfl

theorem filter_live_of_permanent {e : BlockEntry} (hexp : e.expires = none) (now : ℕ) :
    (some e).filter (·.live now) = some e := by
  simp [BlockEntry.live, hexp]

section

variable (h : Pinned a ip) (now : ℕ)
include h

theorem Pinned.dropExpired (ip' : IpAddr) : Pinned (a.dropExpired now ip').1 ip := by
  obtain ⟨e, he, hexp⟩ := h.entry
  have hfile := file_dropExpired a now ip'
  refine ⟨⟨e, ?_, hexp⟩, ?_, ?_⟩
  · rw [lookup_dropExpired]
    split_ifs with heq
    · rw [← heq, he, filter_live_of_permanent hexp]
    · exact he
  · rw [hfile]
    exact h.saved
  · rw [hfile]
    exact h.only

theorem Pinned.evict : Pinned (a.evictExpired now).1 ip := by
  obtain ⟨e, he, hexp⟩ := h.entry
  unfold AlertTracker.evictExpired
  dsimp only
  split_ifs
  · exact h
  · apply Pinned.persist
    refine ⟨e, ?_, hexp⟩
    show (a.blocked.retain _).lookup ip = _
    rw [lookup_retain, he]
    exact filter_live_of_permanent hexp now

theorem Pinned.unblock (hne : ip ≠ ip') : Pinned (a.unblock now ip').1 ip := by
  unfold AlertTracker.unblock
  split_ifs
  · apply Pinned.persist
    show ∃ e, (a.blocked.erase ip').lookup ip = some e ∧ _
    rw [lookup_erase_eq, if_neg hne]
    exact h.entry
  · exact h

/-- A later block never shortens a permanent one when it is itself without end. -/
theorem Pinned.blockBot {rule : Text} {durationSecs : ℕ}
    (hkeep : ip = ip' → durationSecs = 0) : Pinned (a.blockBot now ip' rule durationSecs) ip := by
  unfold AlertTracker.blockBot
  split_ifs
  · exact h
  · exact Pinned.enter now _ (fun heq => if_pos (hkeep heq)) fun _ => h

theorem Pinned.trigger {rule : AlertRule}
    (hkeep : rule.action = .block → ¬ a.full ip' → ip = ip' → rule.blockDurationS = 0) :
    Pinned (a.trigger now ip' rule).1 ip := by
  unfold AlertTracker.trigger
  split_ifs with hskip
  · exact h
  · push Not at hskip
    exact Pinned.enter now _ (fun heq => if_pos (hkeep hskip.1 hskip.2.2 heq)) fun _ => h

theorem Pinned.blockManual_other (ip' : IpAddr) (rule : Text) :
    Pinned (a.blockManual now ip' rule).1 ip := by
  unfold AlertTracker.blockManual
  dsimp only
  split_ifs
  · exact h
  · exact h.dropExpired now ip'
  · exact Pinned.enter now _ (fun _ => rfl) fun _ => h.dropExpired now ip'

theorem Pinned.load : Pinned (AlertTracker.loadBlocks a.file now) ip := by
  refine ⟨?_, h.saved, h.only⟩
  obtain ⟨b, hb, hip⟩ := h.saved
  have hlive : b ∈ a.file.filter fun b => b.expiresEpoch.all (now < ·) := by
    apply mem_filter.mpr
    exact ⟨hb, by simp [h.only b hb hip]⟩
  have hentry : ∃ e ∈ (a.file.filter fun b => b.expiresEpoch.all (now < ·)).map fun b =>
      (b.ip, (⟨b.expiresEpoch.map fun epoch => now + (epoch - now), b.rule⟩ : BlockEntry)),
      e.1 = ip := ⟨_, mem_map_of_mem hlive, hip⟩
  obtain ⟨v, hv, hes⟩ := exists_lookup_insertAll (m := ∅) hentry
  obtain ⟨c, hc, heq⟩ := mem_map.mp hes
  cases heq
  refine ⟨_, hv, ?_⟩
  rw [h.only c (mem_filter.mp hc).1 rfl]
  rfl

end

/-- Every permanent block of the table is in the file, which has one entry for an address. -/
structure AlertTracker.Synced (a : AlertTracker) : Prop where
  saved : ∀ ip, (∃ e, a.blocked.lookup ip = some e ∧ e.expires = none) → Pinned a ip
  unique : ∀ b ∈ a.file, ∀ b' ∈ a.file, b.ip = b'.ip → b = b'

theorem AlertTracker.synced_persist (a : AlertTracker) (now : ℕ) : (a.persistBlocks now).Synced := by
  refine ⟨fun ip h => Pinned.persist now h, ?_⟩
  intro b hb b' hb' hip
  obtain ⟨⟨k, x⟩, hx, rfl⟩ := mem_map.mp hb
  obtain ⟨⟨k', x'⟩, hx', rfl⟩ := mem_map.mp hb'
  have hk : k = k' := hip
  have hl := lookup_eq_some_iff.mpr hx
  have hl' := lookup_eq_some_iff.mpr hx'
  rw [hk, hl'] at hl
  cases hl
  rw [hk]

section

variable (hs : a.Synced) (now : ℕ)
include hs

theorem AlertTracker.Synced.dropExpired (ip' : IpAddr) : (a.dropExpired now ip').1.Synced := by
  constructor
  · rintro ip ⟨e, he, hexp⟩
    rw [lookup_dropExpired] at he
    apply Pinned.dropExpired
    apply hs.saved
    split_ifs at he with heq
    · rw [heq]
      exact ⟨e, (Option.filter_eq_some_iff.mp he).1, hexp⟩
    · exact ⟨e, he, hexp⟩
  · rw [file_dropExpired]
    exact hs.unique

theorem AlertTracker.Synced.evict : (a.evictExpired now).1.Synced := by
  unfold AlertTracker.evictExpired
  dsimp only
  split_ifs
  · exact hs
  · exact synced_persist _ now

theorem AlertTracker.Synced.unblock (ip : IpAddr) : (a.unblock now ip).1.Synced := by
  unfold AlertTracker.unblock
  split_ifs
  · exact synced_persist _ now
  · exact hs

theorem AlertTracker.Synced.blockBot (ip : IpAddr) (rule : Text)
    (durationSecs : ℕ) : (a.blockBot now ip rule durationSecs).Synced := by
  unfold AlertTracker.blockBot
  split_ifs
  · exact hs
  · exact synced_persist _ now

theorem AlertTracker.Synced.trigger (ip : IpAddr) (rule : AlertRule) :
    (a.trigger now ip rule).1.Synced := by
  unfold AlertTracker.trigger
  split_ifs
  · exact hs
  · exact synced_persist _ now

theorem AlertTracker.Synced.blockManual (ip : IpAddr) (rule : Text) :
    (a.blockManual now ip rule).1.Synced := by
  unfold AlertTracker.blockManual
  dsimp only
  split_ifs
  · exact hs
  · exact hs.dropExpired now ip
  · exact synced_persist _ now

theorem AlertTracker.Synced.load : (AlertTracker.loadBlocks a.file now).Synced := by
  refine ⟨?_, hs.unique⟩
  rintro ip ⟨e, he, hexp⟩
  rcases lookup_insertAll he with hmem | ⟨-, hnone⟩
  · obtain ⟨b, hb, heq⟩ := mem_map.mp hmem
    cases heq
    have hfile := (mem_filter.mp hb).1
    refine ⟨⟨_, he, hexp⟩, ⟨b, hfile, rfl⟩, ?_⟩
    intro c hc hip
    rw [hs.unique c hc b hfile hip]
    exact Option.map_eq_none_iff.mp hexp
  · simp at hnone

end

/-- The administrator's block: one without end is there already, or it is entered. -/
theorem Pinned.blockManual (hs : a.Synced) (hexempt : isBanExempt ip = false) (rule : Text)
    (h : (∃ e, a.blocked.lookup ip = some e ∧ e.expires = none) ∨
      (a.isBlocked now ip = false ∧
        (a.dropExpired now ip).1.blocked.entries.length < maxBlockedEntries)) :
    Pinned (a.blockManual now ip rule).1 ip := by
  rcases h with hthere | ⟨hfree, hroom⟩
  · exact (hs.saved ip hthere).blockManual_other now ip rule
  · unfold AlertTracker.blockManual
    rw [if_neg (by simp [hexempt]), if_neg (by simp [hfree, hroom])]
    exact Pinned.enter now _ (fun _ => rfl) fun hne => absurd rfl hne

/-! ## Histories -/

/-- What holds along a history of lasting actions. -/
structure Lasts (n : Node) (p : Pins) : Prop where
  sound : n.icmp.Sound
  synced : n.alert.Synced
  banned : ∀ ip ∈ p.banned, Held n.icmp ip
  blocked : ∀ ip ∈ p.blocked, Pinned n.alert ip

theorem lasts_first (now : ℕ) (attached : Bool) : Lasts (Node.first now attached) ⟨[], []⟩ where
  sound := ⟨Nat.zero_le _, by intro h; cases h⟩
  synced := by
    refine ⟨?_, by intro b hb; cases hb⟩
    rintro ip ⟨e, he, -⟩
    cases he
  banned := by intro ip hip; cases hip
  blocked := by intro ip hip; cases hip

theorem Lasts.refuses (h : Lasts n p) : Refuses n p :=
  ⟨fun ip hip => (h.banned ip hip).isBanned h.sound, fun ip hip => (h.blocked ip hip).isBlocked n.now⟩

/-- One lasting action keeps the invariant. -/
theorem lasts_step {act : Action} (h : Lasts n p) (hact : Lasting n p act) :
    Lasts (n.step act) (p.step act) := by
  obtain ⟨hsound, hsynced, hbanned, hblocked⟩ := h
  cases act with
  | ban ip src =>
    refine ⟨hsound.banWith src false, hsynced, ?_, hblocked⟩
    intro ip' hip'
    apply (hbanned ip' hip').banWith hsound
    intro heq
    exact absurd (heq ▸ hip') hact
  | banPermanent ip src =>
    have hother : ∀ ip' ∈ p.banned, Held (n.icmp.banPermanent n.now ip src) ip' := fun ip' hip' =>
      (hbanned ip' hip').banWith hsound fun _ => rfl
    unfold Pins.step
    dsimp only
    split_ifs with hexempt
    · exact ⟨hsound.banWith src true, hsynced, hother, hblocked⟩
    · refine ⟨hsound.banWith src true, hsynced, ?_, hblocked⟩
      have hroom := hact.resolve_left hexempt
      exact forall_mem_cons.mpr
        ⟨Held.banPermanent hsound (Bool.eq_false_iff.mpr hexempt) hroom src, hother⟩
  | unban ip =>
    refine ⟨hsound.unban ip, hsynced, ?_, hblocked⟩
    intro ip' hip'
    obtain ⟨hmem, hne⟩ := mem_filter.mp hip'
    exact (hbanned ip' hmem).unban hsound (of_decide_eq_true hne)
  | blockManual ip rule =>
    have hother : ∀ ip' ∈ p.blocked, Pinned (n.alert.blockManual n.now ip rule).1 ip' :=
      fun ip' hip' => (hblocked ip' hip').blockManual_other n.now ip rule
    unfold Pins.step
    dsimp only
    split_ifs with hexempt
    · exact ⟨hsound, hsynced.blockManual n.now ip rule, hbanned, hother⟩
    · refine ⟨hsound, hsynced.blockManual n.now ip rule, hbanned, ?_⟩
      exact forall_mem_cons.mpr ⟨Pinned.blockManual hsynced (Bool.eq_false_iff.mpr hexempt)
        rule (hact.resolve_left hexempt), hother⟩
  | blockBot ip rule durationSecs =>
    refine ⟨hsound, hsynced.blockBot n.now ip rule durationSecs, hbanned, ?_⟩
    intro ip' hip'
    exact (hblocked ip' hip').blockBot n.now fun heq => hact (heq ▸ hip')
  | trigger ip rule =>
    refine ⟨?_, hsynced.trigger n.now ip rule, ?_, ?_⟩
    · show (if _ then _ else _ : IcmpStats).Sound
      split_ifs
      · exact hsound.banWith .bot false
      · exact hsound
    · intro ip' hip'
      show Held (if _ then _ else _) ip'
      split_ifs with hentered
      · apply (hbanned ip' hip').banWith hsound
        intro heq
        have hrule := of_trigger hentered
        exact absurd (heq ▸ hip') (hact hrule.1 hrule.2).1
      · exact hbanned ip' hip'
    · intro ip' hip'
      apply (hblocked ip' hip').trigger n.now
      intro hrule hroom heq
      exact (hact hrule hroom).2 (heq ▸ hip')
  | unblock ip =>
    refine ⟨hsound, hsynced.unblock n.now ip, hbanned, ?_⟩
    intro ip' hip'
    obtain ⟨hmem, hne⟩ := mem_filter.mp hip'
    exact (hblocked ip' hmem).unblock n.now (of_decide_eq_true hne)
  | isBlocked ip =>
    exact ⟨hsound, hsynced.dropExpired n.now ip, hbanned,
      fun ip' hip' => (hblocked ip' hip').dropExpired n.now ip⟩
  | send cmd => exact ⟨hsound, hsynced, hbanned, hblocked⟩
  | cleanupExpiredBans =>
    exact ⟨hsound.cleanup n.now banTtl, hsynced, fun ip hip => (hbanned ip hip).cleanup n.now banTtl,
      hblocked⟩
  | evictExpired =>
    exact ⟨hsound, hsynced.evict n.now, hbanned, fun ip hip => (hblocked ip hip).evict n.now⟩
  | poll => exact ⟨hsound, hsynced, hbanned, hblocked⟩
  | restart attached =>
    exact ⟨IcmpStats.sound_loadBlacklist _ n.now, hsynced.load n.now,
      fun ip hip => (hbanned ip hip).load n.now, fun ip hip => (hblocked ip hip).load n.now⟩
  | wait seconds => exact ⟨hsound, hsynced, hbanned, hblocked⟩

theorem lasts_run (h : Lasts n p) (as : List Action)
    (hrun : LastingRun n p as) : Lasts (n.run as) (p.run as) := by
  induction as generalizing n p with
  | nil => exact h
  | cons act as ih => exact ih (lasts_step h hrun.1) hrun.2

/-- Permanent bans are permanent along every history of lasting actions. -/
theorem answers_of_lastingRun (now : ℕ) (attached : Bool) (as : List Action)
    (hrun : LastingRun (Node.first now attached) ⟨[], []⟩ as) :
    Refuses ((Node.first now attached).run as) (Pins.run ⟨[], []⟩ as) :=
  (lasts_run (lasts_first now attached) as hrun).refuses

/-- Whatever the action: without pins there is nothing it could end. -/
theorem lasts_step_nil (h : Lasts n ⟨[], []⟩) (act : Action) :
    Lasts (n.step act) ⟨[], []⟩ := by
  cases act with
  | banPermanent ip src =>
    exact ⟨h.sound.banWith src true, h.synced, forall_mem_nil _, forall_mem_nil _⟩
  | blockManual ip rule =>
    exact ⟨h.sound, h.synced.blockManual n.now ip rule, forall_mem_nil _, forall_mem_nil _⟩
  | _ => exact lasts_step h (by simp [Lasting])

/-- After every history the bans keep to their cap, an address is refused exactly if it has an
entry, and a restart keeps every permanent block. -/
theorem tables_of_run (now : ℕ) (attached : Bool) (as : List Action) :
    ((Node.first now attached).run as).icmp.banned.entries.length ≤ maxBanned ∧
    ∀ ip, (((Node.first now attached).run as).icmp.isBanned ip = true ↔
        ip ∈ ((Node.first now attached).run as).icmp.banned) ∧
      ∀ e, ((Node.first now attached).run as).alert.blocked.lookup ip = some e → e.expires = none →
        ∀ xdp t, (((Node.first now attached).run as).step (.restart xdp)).alert.isBlocked t ip := by
  have h : Lasts ((Node.first now attached).run as) ⟨[], []⟩ :=
    foldlRecOn (motive := fun n => Lasts n ⟨[], []⟩) as Node.step (lasts_first now attached)
      fun _ h act _ => lasts_step_nil h act
  refine ⟨h.sound.size, fun ip => ⟨?_, fun e he hexp xdp t => ?_⟩⟩
  · rw [IcmpStats.isBanned, Bool.and_eq_true, decide_eq_true_eq]
    refine and_iff_right_of_imp fun hin => ?_
    obtain ⟨e, he⟩ := mem_iff_lookup.mp hin
    exact h.sound.flag (isEmpty_entries he)
  · exact ((h.synced.saved ip ⟨e, he, hexp⟩).load _).isBlocked t

/-- 203.0.113.7. -/
def visitor : IpAddr := .v4 ![203, 0, 113, 7]

/-- A rule that blocks for a minute. -/
def minuteRule : AlertRule := ⟨['q', 'p', 's'], .block, 60⟩

/-- The administrator bans and blocks the visitor in both tables; two days with the sweeps and a
restart follow, and a rule triggers for another address. -/
def lastingHistory : List Action :=
  [.banPermanent visitor .manual, .blockManual visitor ['a', 'p', 'i'],
    .trigger (.v4 ![203, 0, 113, 8]) minuteRule, .wait 172800, .cleanupExpiredBans, .evictExpired,
    .restart true]

theorem answers_lastingHistory :
    LastingRun (Node.first 0 true) ⟨[], []⟩ lastingHistory ∧
      (Pins.run ⟨[], []⟩ lastingHistory).banned = [visitor] ∧
      (Pins.run ⟨[], []⟩ lastingHistory).blocked = [visitor] ∧
      Refuses ((Node.first 0 true).run lastingHistory) (Pins.run ⟨[], []⟩ lastingHistory) := by
  have hrun : LastingRun (Node.first 0 true) ⟨[], []⟩ lastingHistory := by
    refine ⟨Or.inr (by decide +kernel), Or.inr (Or.inr ⟨by decide +kernel, by decide +kernel⟩), ?_,
      trivial, trivial, trivial, trivial, trivial⟩
    intro _ _
    exact ⟨by decide +kernel, fun _ => by exact absurd ‹_› (by decide +kernel)⟩
  exact ⟨hrun, by decide +kernel, by decide +kernel,
    answers_of_lastingRun 0 true lastingHistory hrun⟩

/-- A rule triggers for the visitor and the administrator blocks the visitor while that block
runs: `block_manual` returns early, and the block ends with the rule's minute. The administrator
bans the visitor and the master relays a ban of the visitor (`AddGlobalBan`, sync.rs:1590–1605):
the temporary ban takes the place of the permanent one, and the sweep of the next day removes
it. -/
theorem pinned_lapses :
    (visitor ∈ (Pins.run ⟨[], []⟩
        [.trigger visitor minuteRule, .blockManual visitor ['a', 'p', 'i'], .wait 60]).blocked ∧
      ((Node.first 0 true).run
        [.trigger visitor minuteRule, .blockManual visitor ['a', 'p', 'i'],
          .wait 60]).alert.isBlocked 60 visitor = false) ∧
    visitor ∈ (Pins.run ⟨[], []⟩
        [.banPermanent visitor .manual, .ban visitor .relay, .wait 86400,
          .cleanupExpiredBans]).banned ∧
      ((Node.first 0 true).run
        [.banPermanent visitor .manual, .ban visitor .relay, .wait 86400,
          .cleanupExpiredBans]).icmp.isBanned visitor = false := by
  decide +kernel

end Runbound.Bans
