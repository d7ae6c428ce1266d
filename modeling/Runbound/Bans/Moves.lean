import Runbound.Bans.Permanent

/-!
# Actions that spare an address

What an action that does not ban an address can do to it, said once: in the table of
`AlertTracker` (`AlertMoves`), in that of `IcmpStats` (`IcmpMoves`), in the commands for the XDP
map (`Sends`), and on the node (`moves_of_spares`). The poll, which applies the commands, and the
restart, which loads the files, are apart.
-/

namespace Runbound.Bans

open Lib List Map AlertTracker
open Recursor (IpAddr)

variable {ip ip' : IpAddr} {a a' : AlertTracker} {s : IcmpStats} {now : ℕ}

/-- The action does not ban the address. -/
def Spares (ip : IpAddr) : Action → Prop
  | .ban ip' _ => ip' ≠ ip
  | .banPermanent ip' _ => ip' ≠ ip
  | .blockManual ip' _ => ip' ≠ ip
  | .blockBot ip' _ _ => ip' ≠ ip
  | .trigger ip' rule => rule.action = .block → ip' ≠ ip
  | .send cmd => cmd.ban = true → cmd.ip ≠ ip
  | _ => True

/-! ## The XDP map -/

/-- Commands that do not ban an address leave it out or as it was; one that names it takes it
out. -/
theorem mem_foldl_apply {cmds : List IcmpBanCmd} {xdp : List IpAddr}
    (hspare : ∀ c ∈ cmds, c.ban = true → c.ip ≠ ip) (h : ip ∈ cmds.foldl IcmpBanCmd.apply xdp) :
    ip ∈ xdp ∧ ∀ c ∈ cmds, c.ip ≠ ip := by
  induction cmds generalizing xdp with
  | nil => exact ⟨h, by simp⟩
  | cons c cmds ih =>
    obtain ⟨hhead, htail⟩ := forall_mem_cons.mp hspare
    obtain ⟨hmem, hrest⟩ := ih htail h
    unfold IcmpBanCmd.apply at hmem
    split_ifs at hmem with hban
    · have hne := hhead hban
      rcases mem_cons.mp hmem with heq | hin
      · exact absurd heq.symm hne
      · exact ⟨hin, forall_mem_cons.mpr ⟨hne, hrest⟩⟩
    · obtain ⟨hin, hne⟩ := mem_filter.mp hmem
      have hne' : ip ≠ c.ip := of_decide_eq_true hne
      exact ⟨hin, forall_mem_cons.mpr ⟨hne'.symm, hrest⟩⟩

theorem mem_apply_bans (xdp ips : List IpAddr) :
    ip ∈ (ips.map (IcmpBanCmd.mk true)).foldl IcmpBanCmd.apply xdp ↔ ip ∈ xdp ∨ ip ∈ ips := by
  induction ips generalizing xdp with
  | nil => simp
  | cons k ips ih =>
    rw [map_cons, foldl_cons, ih]
    show ip ∈ k :: xdp ∨ ip ∈ ips ↔ _
    simp only [mem_cons]
    rw [or_assoc, or_left_comm]

/-! ## The block table -/

/-- What a function of the table that does not block the address does to it: the block of the
address stays or goes, and the file is the old one or has just been written. -/
structure AlertMoves (a a' : AlertTracker) (ip : IpAddr) (now : ℕ) : Prop where
  lookup : ∀ e, a'.blocked.lookup ip = some e → a.blocked.lookup ip = some e
  saved : a'.file = a.file ∨ ∃ b : AlertTracker, a' = b.persistBlocks now

theorem AlertMoves.refl (a : AlertTracker) (ip : IpAddr) (now : ℕ) : AlertMoves a a ip now :=
  ⟨fun _ h => h, Or.inl rfl⟩

theorem AlertMoves.dropExpired (a : AlertTracker) (now : ℕ) (ip ip' : IpAddr) :
    AlertMoves a (a.dropExpired now ip').1 ip now := by
  refine ⟨?_, Or.inl (file_dropExpired a now ip')⟩
  intro e he
  rw [lookup_dropExpired] at he
  split_ifs at he with heq
  · rw [heq]
    exact (Option.filter_eq_some_iff.mp he).1
  · exact he

/-- A function that blocks another address also leaves the block there. -/
structure AlertSpares (a a' : AlertTracker) (ip : IpAddr) (now : ℕ) : Prop
    extends AlertMoves a a' ip now where
  stays : ip ∈ a.blocked → ip ∈ a'.blocked

theorem AlertSpares.refl (a : AlertTracker) (ip : IpAddr) (now : ℕ) : AlertSpares a a ip now :=
  ⟨AlertMoves.refl a ip now, fun h => h⟩

theorem AlertSpares.dropExpired (a : AlertTracker) (now : ℕ) (hne : ip ≠ ip') :
    AlertSpares a (a.dropExpired now ip').1 ip now := by
  refine ⟨AlertMoves.dropExpired a now ip ip', fun hin => ?_⟩
  rw [mem_iff_lookup, lookup_dropExpired, if_neg hne]
  exact mem_iff_lookup.mp hin

theorem AlertSpares.enter (hm : AlertSpares a a' ip now) (hne : ip ≠ ip') (e : BlockEntry) :
    AlertSpares a (a'.enter now ip' e) ip now := by
  refine ⟨⟨?_, Or.inr ⟨_, rfl⟩⟩, fun hin => AList.mem_insert (s := a'.blocked).mpr (Or.inr (hm.stays hin))⟩
  intro x hx
  rw [lookup_enter, if_neg hne] at hx
  exact hm.lookup x hx

section

variable (a : AlertTracker) (now : ℕ)

theorem AlertSpares.blockManual (hne : ip ≠ ip') (rule : Text) :
    AlertSpares a (a.blockManual now ip' rule).1 ip now := by
  unfold AlertTracker.blockManual
  dsimp only
  split_ifs
  · exact AlertSpares.refl a ip now
  · exact AlertSpares.dropExpired a now hne
  · exact (AlertSpares.dropExpired a now hne).enter hne _

theorem AlertSpares.blockBot (hne : ip ≠ ip') (rule : Text)
    (durationSecs : ℕ) : AlertSpares a (a.blockBot now ip' rule durationSecs) ip now := by
  unfold AlertTracker.blockBot
  split_ifs
  · exact AlertSpares.refl a ip now
  · exact (AlertSpares.refl a ip now).enter hne _

theorem AlertSpares.trigger {rule : AlertRule}
    (hne : rule.action = .block → ip ≠ ip') : AlertSpares a (a.trigger now ip' rule).1 ip now := by
  unfold AlertTracker.trigger
  split_ifs with hskip
  · exact AlertSpares.refl a ip now
  · push Not at hskip
    exact (AlertSpares.refl a ip now).enter (hne hskip.1) _

theorem AlertMoves.unblock (ip ip' : IpAddr) : AlertMoves a (a.unblock now ip').1 ip now := by
  unfold AlertTracker.unblock
  split_ifs
  · refine ⟨?_, Or.inr ⟨_, rfl⟩⟩
    intro e he
    exact (lookup_erase_iff.mp he).2
  · exact AlertMoves.refl a ip now

theorem AlertMoves.evict (ip : IpAddr) : AlertMoves a (a.evictExpired now).1 ip now := by
  refine ⟨?_, ?_⟩
  · intro e he
    rw [lookup_evictExpired] at he
    exact (Option.filter_eq_some_iff.mp he).1
  · unfold AlertTracker.evictExpired
    dsimp only
    split_ifs
    · exact Or.inl rfl
    · exact Or.inr ⟨_, rfl⟩

end

/-- A block that `is_blocked` drops is sent to the XDP map. -/
theorem AlertTracker.mem_dropped (hin : ip ∈ a.blocked)
    (hout : ip ∉ (a.dropExpired now ip').1.blocked) : ip ∈ (a.dropExpired now ip').2 := by
  unfold AlertTracker.dropExpired at hout ⊢
  cases hl : a.blocked.lookup ip' with
  | none =>
    rw [hl] at hout
    exact absurd hin hout
  | some e =>
    rw [hl] at hout
    dsimp only at hout ⊢
    split_ifs at hout ⊢ with hlive
    · exact absurd hin hout
    · have heq : ip = ip' := by
        by_contra hne
        exact hout (AList.mem_erase.mpr ⟨hne, hin⟩)
      simp [heq]

/-- A block that `evict_expired` removes is among the addresses it returns. -/
theorem AlertTracker.mem_evicted (hin : ip ∈ a.blocked)
    (hout : ip ∉ (a.evictExpired now).1.blocked) : ip ∈ (a.evictExpired now).2 := by
  obtain ⟨e, he⟩ := mem_iff_lookup.mp hin
  have hdead : e.live now = false := by
    by_contra hlive
    apply hout
    apply mem_iff_lookup.mpr
    refine ⟨e, ?_⟩
    rw [lookup_evictExpired, he, Option.filter_some, if_pos (by simpa using hlive)]
  have hmem : ip ∈ (a.blocked.entries.filter fun e => !e.2.live now).map Sigma.fst :=
    mem_map.mpr ⟨⟨ip, e⟩, mem_filter.mpr ⟨lookup_eq_some_iff.mp he, by simp [hdead]⟩, rfl⟩
  unfold AlertTracker.evictExpired
  dsimp only
  split_ifs with hnone
  · rw [isEmpty_iff.mp hnone] at hmem
    cases hmem
  · exact hmem

/-! ## The ban table -/

/-- What a function of the table that does not ban the address does to it. -/
structure IcmpMoves (s s' : IcmpStats) (ip : IpAddr) : Prop where
  lookup : ∀ e, s'.banned.lookup ip = some e → s.banned.lookup ip = some e
  saved : ip ∈ s'.file → ip ∈ s.file ∨ ∃ e, s'.banned.lookup ip = some e ∧ e.permanent = true

theorem IcmpMoves.refl (s : IcmpStats) (ip : IpAddr) : IcmpMoves s s ip := ⟨fun _ h => h, Or.inl⟩

theorem IcmpStats.permanent_of_mem_persist (h : ip ∈ s.persistBlacklist.file) :
    ∃ e, s.banned.lookup ip = some e ∧ e.permanent = true := by
  obtain ⟨⟨k, e⟩, he, rfl⟩ := mem_map.mp (mem_of_mem_take h)
  obtain ⟨hmem, hperm⟩ := mem_filter.mp he
  exact ⟨e, lookup_eq_some_iff.mpr hmem, hperm⟩

theorem IcmpMoves.banWith (s : IcmpStats) (now : ℕ) (hne : ip ≠ ip') (src : BanSource)
    (permanent : Bool) : IcmpMoves s (s.banWith now ip' src permanent) ip := by
  unfold IcmpStats.banWith
  split_ifs
  · exact IcmpMoves.refl s ip
  · refine ⟨?_, ?_⟩
    · intro e he
      rw [IcmpStats.lookup_enter, if_neg hne] at he
      exact he
    · unfold IcmpStats.enter
      split_ifs
      · exact fun hmem => Or.inr (IcmpStats.permanent_of_mem_persist hmem)
      · exact Or.inl

theorem IcmpMoves.unban (s : IcmpStats) (ip ip' : IpAddr) : IcmpMoves s (s.unban ip') ip := by
  refine ⟨?_, fun hmem => Or.inr (IcmpStats.permanent_of_mem_persist hmem)⟩
  intro e he
  exact (lookup_erase_iff.mp he).2

theorem IcmpMoves.cleanup (s : IcmpStats) (now ttl : ℕ) (ip : IpAddr) :
    IcmpMoves s (s.cleanupExpiredBans now ttl).1 ip := by
  refine ⟨?_, Or.inl⟩
  intro e he
  rw [IcmpStats.lookup_cleanup] at he
  exact (Option.filter_eq_some_iff.mp he).1

/-! ## One action -/

/-- The commands an action sends: none bans the address, and one unbans it if its block goes. -/
def Sends (n n' : Node) (ip : IpAddr) : Prop :=
  ∃ sent, n'.commands = n.commands ++ sent ∧ (∀ c ∈ sent, c.ban = true → c.ip ≠ ip) ∧
    (n.attached = true → ip ∈ n.alert.blocked → ip ∉ n'.alert.blocked → ∃ c ∈ sent, c.ip = ip)

/-- What an action that spares the address does to it, the poll and the restart apart. -/
structure Moves (n n' : Node) (ip : IpAddr) : Prop where
  alert : AlertMoves n.alert n'.alert ip n.now
  icmp : IcmpMoves n.icmp n'.icmp ip
  sends : Sends n n' ip
  attached : n'.attached = n.attached
  xdp : n'.xdp = n.xdp
  clock : n.now ≤ n'.now
  poll : n'.lastPoll = n.lastPoll
  evict : n'.lastEvict = n.lastEvict ∨
    (n'.lastEvict = n.now ∧ ∀ e, n'.alert.blocked.lookup ip = some e → e.live n.now = true)
  cleanup : n'.lastCleanup = n.lastCleanup ∨
    (n'.lastCleanup = n.now ∧ ∀ e, n'.icmp.banned.lookup ip = some e → e.stays n.now banTtl = true)

theorem Sends.none {n n' : Node} (hcmds : n'.commands = n.commands)
    (hstays : ip ∈ n.alert.blocked → ip ∈ n'.alert.blocked) : Sends n n' ip :=
  ⟨[], by simp [hcmds], by simp, fun _ hin hout => absurd (hstays hin) hout⟩

theorem Node.xdpPush_eq (n : Node) (ban : Bool) (ips : List IpAddr) :
    n.xdpPush ban ips = n.commands ++ if n.attached then ips.map (IcmpBanCmd.mk ban) else [] := by
  unfold Node.xdpPush
  split_ifs
  · rfl
  · simp

theorem Sends.push {n n' : Node} {ban : Bool} {ips : List IpAddr}
    (hcmds : n'.commands = n.xdpPush ban ips) (hspare : ban = true → ∀ k ∈ ips, k ≠ ip)
    (hgone : ip ∈ n.alert.blocked → ip ∉ n'.alert.blocked → ip ∈ ips) : Sends n n' ip := by
  rw [Node.xdpPush_eq] at hcmds
  refine ⟨_, hcmds, ?_, ?_⟩
  · intro c hc hban
    split_ifs at hc
    · obtain ⟨k, hk, rfl⟩ := mem_map.mp hc
      exact hspare hban k hk
    · cases hc
  · intro hatt hin hout
    rw [if_pos hatt]
    exact ⟨⟨ban, ip⟩, mem_map_of_mem (hgone hin hout), rfl⟩

theorem Sends.unbans {n n' : Node} {ips : List IpAddr}
    (hcmds : n'.commands = n.commands ++ ips.map (IcmpBanCmd.mk false))
    (hgone : ip ∈ n.alert.blocked → ip ∉ n'.alert.blocked → ip ∈ ips) : Sends n n' ip := by
  refine ⟨_, hcmds, ?_, ?_⟩
  · simp
  · intro _ hin hout
    exact ⟨⟨false, ip⟩, mem_map_of_mem (hgone hin hout), rfl⟩

theorem Sends.blockManual (n : Node) (hne : ip ≠ ip') (rule : Text) :
    Sends n (n.step (.blockManual ip' rule)) ip := by
  have hstays : ip ∈ n.alert.blocked → ip ∈ (n.step (.blockManual ip' rule)).alert.blocked :=
    (AlertSpares.blockManual n.alert n.now hne rule).stays
  -- the unban of a block that had expired, then the ban of the new one
  have hcmds : ∃ sent, (n.step (.blockManual ip' rule)).commands = n.commands ++ sent ∧
      ∀ c ∈ sent, c.ban = true → c.ip = ip' := by
    unfold Node.step
    dsimp only
    split_ifs
    · rw [Node.xdpPush_eq]
      rw [Node.xdpPush_eq, append_assoc]
      refine ⟨_, rfl, ?_⟩
      intro c hc hban
      rcases mem_append.mp hc with hc | hc
      · split_ifs at hc
        · obtain ⟨k, -, rfl⟩ := mem_map.mp hc
          cases hban
        · cases hc
      · split_ifs at hc
        · rw [mem_singleton.mp hc]
        · cases hc
    · rw [Node.xdpPush_eq]
      refine ⟨_, rfl, ?_⟩
      intro c hc hban
      split_ifs at hc
      · obtain ⟨k, -, rfl⟩ := mem_map.mp hc
        cases hban
      · cases hc
  obtain ⟨sent, heq, hbans⟩ := hcmds
  refine ⟨sent, heq, ?_, fun _ hin hout => absurd (hstays hin) hout⟩
  intro c hc hban hip
  exact hne (hip.symm.trans (hbans c hc hban))

theorem Sends.trigger (n : Node) {rule : AlertRule} (hne : rule.action = .block → ip ≠ ip') :
    Sends n (n.step (.trigger ip' rule)) ip := by
  have hstays : ip ∈ n.alert.blocked → ip ∈ (n.step (.trigger ip' rule)).alert.blocked :=
    (AlertSpares.trigger n.alert n.now hne).stays
  by_cases hentered : (n.alert.trigger n.now ip' rule).2 = true
  · have hcmds : (n.step (.trigger ip' rule)).commands = n.xdpPush true [ip'] := if_pos hentered
    apply Sends.push hcmds
    · intro _ k hk heq
      exact hne (of_trigger hentered).1 (heq.symm.trans (mem_singleton.mp hk))
    · exact fun hin hout => absurd (hstays hin) hout
  · exact Sends.none (if_neg hentered) hstays

theorem Sends.unblock (n : Node) (ip ip' : IpAddr) : Sends n (n.step (.unblock ip')) ip := by
  by_cases hin' : ip' ∈ n.alert.blocked
  · simp only [Node.step, AlertTracker.unblock, if_pos hin']
    apply Sends.push rfl (by intro h; cases h)
    intro hin hout
    by_contra hne
    exact hout (AList.mem_erase.mpr ⟨fun heq => hne (mem_singleton.mpr heq), hin⟩)
  · simp only [Node.step, AlertTracker.unblock, if_neg hin']
    exact Sends.none rfl fun hin => hin

/-- Every action that spares the address moves it so, the poll and the restart apart. -/
theorem moves_of_spares (n : Node) {act : Action} (hspare : Spares ip act)
    (hpoll : act ≠ .poll) (hrestart : ∀ attached, act ≠ .restart attached) :
    Moves n (n.step act) ip := by
  have hno : ip ∈ n.alert.blocked → ip ∈ n.alert.blocked := fun h => h
  have hquiet := AlertMoves.refl n.alert ip n.now
  have hstill := IcmpMoves.refl n.icmp ip
  cases act with
  | ban ip' src =>
    exact ⟨hquiet, IcmpMoves.banWith n.icmp n.now (Ne.symm hspare) src false, Sends.none rfl hno,
      rfl, rfl, le_rfl, rfl, Or.inl rfl, Or.inl rfl⟩
  | banPermanent ip' src =>
    exact ⟨hquiet, IcmpMoves.banWith n.icmp n.now (Ne.symm hspare) src true, Sends.none rfl hno,
      rfl, rfl, le_rfl, rfl, Or.inl rfl, Or.inl rfl⟩
  | unban ip' =>
    exact ⟨hquiet, IcmpMoves.unban n.icmp ip ip', Sends.none rfl hno, rfl, rfl, le_rfl, rfl,
      Or.inl rfl, Or.inl rfl⟩
  | blockManual ip' rule =>
    exact ⟨(AlertSpares.blockManual n.alert n.now (Ne.symm hspare) rule).toAlertMoves, hstill,
      Sends.blockManual n (Ne.symm hspare) rule, rfl, rfl, le_rfl, rfl, Or.inl rfl, Or.inl rfl⟩
  | blockBot ip' rule durationSecs =>
    have hbot := AlertSpares.blockBot n.alert n.now (Ne.symm hspare) rule durationSecs
    exact ⟨hbot.toAlertMoves, hstill, Sends.none rfl hbot.stays, rfl, rfl, le_rfl, rfl, Or.inl rfl,
      Or.inl rfl⟩
  | trigger ip' rule =>
    have hne : rule.action = .block → ip ≠ ip' := fun hrule => Ne.symm (hspare hrule)
    refine ⟨(AlertSpares.trigger n.alert n.now hne).toAlertMoves, ?_, Sends.trigger n hne, rfl, rfl, le_rfl, rfl,
      Or.inl rfl, Or.inl rfl⟩
    show IcmpMoves n.icmp (if _ then _ else _) ip
    split_ifs with hentered
    · exact IcmpMoves.banWith n.icmp n.now (hne (of_trigger hentered).1) .bot false
    · exact hstill
  | unblock ip' =>
    exact ⟨AlertMoves.unblock n.alert n.now ip ip', hstill, Sends.unblock n ip ip', rfl, rfl, le_rfl,
      rfl, Or.inl rfl, Or.inl rfl⟩
  | isBlocked ip' =>
    refine ⟨AlertMoves.dropExpired n.alert n.now ip ip', hstill, ?_, rfl, rfl, le_rfl, rfl,
      Or.inl rfl, Or.inl rfl⟩
    have hcmds : (n.step (.isBlocked ip')).commands =
        n.xdpPush false (n.alert.dropExpired n.now ip').2 := rfl
    exact Sends.push hcmds (by intro h; cases h) mem_dropped
  | send cmd =>
    refine ⟨hquiet, hstill, ⟨[cmd], rfl, ?_, fun _ hin hout => absurd hin hout⟩, rfl, rfl, le_rfl,
      rfl, Or.inl rfl, Or.inl rfl⟩
    intro c hc hban
    rw [mem_singleton.mp hc] at hban ⊢
    exact hspare hban
  | cleanupExpiredBans =>
    have hcmds : (n.step .cleanupExpiredBans).commands =
        n.commands ++ (n.icmp.cleanupExpiredBans n.now banTtl).2.map (IcmpBanCmd.mk false) := rfl
    refine ⟨hquiet, IcmpMoves.cleanup n.icmp n.now banTtl ip,
      Sends.unbans hcmds fun hin hout => absurd hin hout, rfl, rfl, le_rfl, rfl, Or.inl rfl,
      Or.inr ⟨rfl, ?_⟩⟩
    intro e he
    have hl : (n.icmp.cleanupExpiredBans n.now banTtl).1.banned.lookup ip = some e := he
    rw [IcmpStats.lookup_cleanup] at hl
    exact (Option.filter_eq_some_iff.mp hl).2
  | evictExpired =>
    have hcmds : (n.step .evictExpired).commands =
        n.commands ++ (n.alert.evictExpired n.now).2.map (IcmpBanCmd.mk false) := rfl
    refine ⟨AlertMoves.evict n.alert n.now ip, hstill, Sends.unbans hcmds mem_evicted,
      rfl, rfl, le_rfl, rfl, Or.inr ⟨rfl, ?_⟩, Or.inl rfl⟩
    intro e he
    have hl : (n.alert.evictExpired n.now).1.blocked.lookup ip = some e := he
    rw [lookup_evictExpired] at hl
    exact (Option.filter_eq_some_iff.mp hl).2
  | poll => exact absurd rfl hpoll
  | restart attached => exact absurd rfl (hrestart attached)
  | wait seconds =>
    exact ⟨hquiet, hstill, Sends.none rfl hno, rfl, rfl, Nat.le_add_right _ _, rfl, Or.inl rfl,
      Or.inl rfl⟩

end Runbound.Bans
