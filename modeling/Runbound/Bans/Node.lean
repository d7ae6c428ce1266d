import Runbound.Bans.Tables

/-!
# A node with its bans

The two ban tables, the XDP map and the tasks that sweep them. The handlers that ban an address
(`put_blocked_ip`, `blacklist_ip_handler`, `delete_blocked_ip` of the API, the bot ban of the web
interface, `AddGlobalBan` of the synchronisation, the flood detector of the poll task) call the
functions of the tables one after the other and send a command to the XDP map themselves, so a
history of them is a list of `Action`s.

The tasks of `main.rs`: `cleanup_expired_bans(86_400)` every 3600 s (lines 1338–1348),
`evict_expired` every 60 s (lines 2090–2116), and the poll task, every second, which applies the
commands to the XDP map in the order they were sent, or drops them without XDP (lines 505–552).

**Deviation.** The XDP map is a list without the bound of the BPF map. A map that is full drops
its oldest entry, which only ends a ban sooner there.
-/

namespace Runbound.Bans

open Lib
open Recursor (IpAddr)

/-- `IcmpBanCmd` (icmp.rs:65-70): a ban (`true`) or an unban of an address in the XDP map. -/
structure IcmpBanCmd where
  ban : Bool
  ip : IpAddr
  deriving DecidableEq

/-- The poll task applies a command (main.rs:524-552). -/
def IcmpBanCmd.apply (xdp : List IpAddr) (cmd : IcmpBanCmd) : List IpAddr :=
  if cmd.ban then cmd.ip :: xdp else xdp.filter (· ≠ cmd.ip)

/-- A running node, with the time of the last pass of each task. -/
structure Node where
  now : ℕ
  icmp : IcmpStats
  alert : AlertTracker
  attached : Bool
  xdp : List IpAddr
  commands : List IcmpBanCmd
  lastCleanup : ℕ
  lastEvict : ℕ
  lastPoll : ℕ

/-- What happens on a node. -/
inductive Action where
  | ban (ip : IpAddr) (src : BanSource)
  | banPermanent (ip : IpAddr) (src : BanSource)
  | unban (ip : IpAddr)
  | blockManual (ip : IpAddr) (rule : Text)
  | blockBot (ip : IpAddr) (rule : Text) (durationSecs : ℕ)
  | trigger (ip : IpAddr) (rule : AlertRule)
  | unblock (ip : IpAddr)
  | isBlocked (ip : IpAddr)
  | send (cmd : IcmpBanCmd)
  | cleanupExpiredBans
  | evictExpired
  | poll
  | restart (attached : Bool)
  | wait (seconds : ℕ)
  deriving DecidableEq

/-- The lifetime of a temporary ban, `cleanup_expired_bans(86_400)` (main.rs:1345). -/
def banTtl : ℕ := 86400

/-- `xdp_push` (alerts.rs:413-421): the channel is wired only when XDP is attached. -/
def Node.xdpPush (n : Node) (ban : Bool) (ips : List IpAddr) : List IcmpBanCmd :=
  if n.attached then n.commands ++ ips.map (⟨ban, ·⟩) else n.commands

/-- The node after a new start (main.rs:1327-1333, 474): the files are kept, the XDP map is empty,
and the commands of `load_blacklist` and `set_ban_tx` wait for the poll task. -/
def Node.restart (n : Node) (attached : Bool) : Node :=
  let icmp := IcmpStats.loadBlacklist n.icmp.file n.now
  let alert := AlertTracker.loadBlocks n.alert.file n.now
  { now := n.now
    icmp := icmp.1
    alert := alert
    attached := attached
    xdp := []
    commands := icmp.2.map (⟨true, ·⟩) ++
      (if attached then alert.blocked.keys.map (⟨true, ·⟩) else [])
    lastCleanup := n.now
    lastEvict := n.now
    lastPoll := n.now }

/-- One action. A rule that triggers mirrors its block into the bans (alerts.rs:310-317), the tasks
send the unbans of what has ended (icmp.rs:178-187, main.rs:2099-2108), and without XDP the poll
task drops the commands (main.rs:514-517). -/
def Node.step (n : Node) : Action → Node
  | .ban ip src => { n with icmp := n.icmp.ban n.now ip src }
  | .banPermanent ip src => { n with icmp := n.icmp.banPermanent n.now ip src }
  | .unban ip => { n with icmp := n.icmp.unban ip }
  | .blockManual ip rule =>
    let r := n.alert.blockManual n.now ip rule
    let n' := { n with commands := n.xdpPush false r.2.1 }
    { n' with alert := r.1, commands := if r.2.2 then n'.xdpPush true [ip] else n'.commands }
  | .blockBot ip rule durationSecs =>
    { n with alert := n.alert.blockBot n.now ip rule durationSecs }
  | .trigger ip rule =>
    let r := n.alert.trigger n.now ip rule
    { n with
      alert := r.1
      commands := if r.2 then n.xdpPush true [ip] else n.commands
      icmp := if r.2 then n.icmp.ban n.now ip .bot else n.icmp }
  | .unblock ip =>
    let r := n.alert.unblock n.now ip
    { n with alert := r.1, commands := if r.2 then n.xdpPush false [ip] else n.commands }
  | .isBlocked ip =>
    let r := n.alert.dropExpired n.now ip
    { n with alert := r.1, commands := n.xdpPush false r.2 }
  | .send cmd => { n with commands := n.commands ++ [cmd] }
  | .cleanupExpiredBans =>
    let r := n.icmp.cleanupExpiredBans n.now banTtl
    { n with icmp := r.1, commands := n.commands ++ r.2.map (⟨false, ·⟩), lastCleanup := n.now }
  | .evictExpired =>
    let r := n.alert.evictExpired n.now
    { n with alert := r.1, commands := n.commands ++ r.2.map (⟨false, ·⟩), lastEvict := n.now }
  | .poll =>
    { n with
      xdp := if n.attached then n.commands.foldl IcmpBanCmd.apply n.xdp else n.xdp
      commands := []
      lastPoll := n.now }
  | .restart attached => n.restart attached
  | .wait seconds => { n with now := n.now + seconds }

/-- A history. -/
def Node.run (n : Node) (as : List Action) : Node := as.foldl Node.step n

end Runbound.Bans
