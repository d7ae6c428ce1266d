import Runbound.FastPath.Cache
import Runbound.Recursor.Infra

/-!
# Addresses and access (`dns/acl.rs`, `dns/axfr.rs`)

CIDR blocks, the access list, the private addresses and the addresses a zone may be
transferred to. The access list and the private addresses share the blocks; transfers
have a test of their own. Only the access list looks at an IPv4-mapped IPv6 address as
the IPv4 address it stands for.
-/

namespace Runbound.Server

open Wire FastPath Recursor

/-! ## Blocks -/

/-- The number of bits of an address. -/
def width : IpAddr → ℕ
  | .v4 _ => 32
  | .v6 _ => 128

/-- `u32::from` and `u128::from`: the octets as a number. -/
def ipValue : IpAddr → ℕ
  | .v4 o => (List.ofFn o).foldl (fun n b => n * 256 + b.val) 0
  | .v6 o => (List.ofFn o).foldl (fun n b => n * 256 + b.val) 0

/-- `CidrBlock` (dns/acl.rs:34). `CidrBlock::parse` refuses a longer prefix than the address. -/
structure CidrBlock where
  network : IpAddr
  prefixLen : ℕ
  fits : prefixLen ≤ width network

/-- Are both addresses of the same family? -/
def sameFamily : IpAddr → IpAddr → Bool
  | .v4 _, .v4 _ => true
  | .v6 _, .v6 _ => true
  | _, _ => false

/-- `CidrBlock::contains` (dns/acl.rs:67). The mask `!0 << shift` clears the last `shift` bits
    of both sides. -/
def CidrBlock.contains (b : CidrBlock) (ip : IpAddr) : Bool :=
  sameFamily b.network ip &&
    (b.prefixLen = 0 ||
      ipValue b.network / 2 ^ (width b.network - b.prefixLen) =
        ipValue ip / 2 ^ (width b.network - b.prefixLen))

/-! ## The access list -/

/-- `Ipv6Addr::is_loopback`. -/
def isLoopbackV6 (o : Fin 16 → Byte) : Bool := ipValue (.v6 o) = 1

/-- `IpAddr::is_loopback`. -/
def isLoopback : IpAddr → Bool
  | .v4 o => o 0 = 127
  | .v6 o => isLoopbackV6 o

/-- `Ipv6Addr::to_ipv4`: the mapped `::ffff:a.b.c.d` and the compatible `::a.b.c.d`. -/
def toIpv4 (o : Fin 16 → Byte) : Option IpAddr :=
  let s := segment o
  if s 0 = 0 ∧ s 1 = 0 ∧ s 2 = 0 ∧ s 3 = 0 ∧ s 4 = 0 ∧ (s 5 = 0 ∨ s 5 = 0xffff) then
    some (.v4 ![o 12, o 13, o 14, o 15])
  else none

/-- The address as the access list looks at it (dns/acl.rs:183-194). -/
def normalise : IpAddr → IpAddr
  | .v6 o => if isLoopbackV6 o then .v6 o else (toIpv4 o).getD (.v6 o)
  | ip => ip

/-- `AclEntry` (dns/acl.rs:119). -/
structure AclEntry where
  cidr : CidrBlock
  action : AclAction

/-- `Acl` (dns/acl.rs:149). -/
abbrev Acl := List AclEntry

/-- `Acl::check` (dns/acl.rs:178). -/
def Acl.check (acl : Acl) (ip : IpAddr) : AclAction :=
  if acl = [] then .allow
  else ((acl.find? fun e => e.cidr.contains (normalise ip)).map AclEntry.action).getD .refuse

/-- `PrivateAddressSet` (dns/acl.rs:93). -/
abbrev PrivateAddressSet := List CidrBlock

/-- `PrivateAddressSet::contains` (dns/acl.rs:114). -/
def PrivateAddressSet.contains (s : PrivateAddressSet) (ip : IpAddr) : Bool :=
  s.any fun b => b.contains ip

/-! ## Transfers -/

/-- An entry of `axfr-allow` as `cidr_matches` reads it: with a `/`, without one, or neither
    an address nor a block. -/
inductive TransferEntry
  | block (network : IpAddr) (prefixLen : Byte)
  | address (ip : IpAddr)
  | malformed

/-- `cidr_matches` (dns/axfr.rs:22). -/
def cidrMatches (ip : IpAddr) : TransferEntry → Bool
  | .block (.v4 net) len =>
    match ip with
    | .v4 client =>
      if len.val = 0 then true
      else
        ipValue (.v4 client) / 2 ^ (32 - len.val) = ipValue (.v4 net) / 2 ^ (32 - len.val)
    | .v6 _ => false
  | .block (.v6 net) len =>
    match ip with
    | .v4 _ => false
    | .v6 client =>
      let full := len.val / 8
      let rem := len.val % 8
      if (List.ofFn client).take (min full 16) ≠ (List.ofFn net).take (min full 16) then false
      else if rem > 0 ∧ full < 16 then
        (octet (List.ofFn client) full).val / 2 ^ (8 - rem) =
          (octet (List.ofFn net) full).val / 2 ^ (8 - rem)
      else true
  | .address n => n = ip
  | .malformed => false

/-- `is_transfer_allowed` (dns/axfr.rs:15). -/
def isTransferAllowed (ip : IpAddr) (allow : List TransferEntry) : Bool :=
  allow ≠ [] && allow.any (cidrMatches ip)

end Runbound.Server
