import Runbound.Recursor.CompactDenial
import Runbound.Dnssec.ParentSide
import Runbound.Dnssec.Downgrade
import Runbound.Dnssec.WildcardAnswer
import Runbound.Dnssec.SignerAgreement
import Runbound.Server.SignedDenial
import Runbound.Server.Rebinding
import Runbound.Server.Upstream
import Runbound.Server.Ageing
import Runbound.Server.SignatureExpiry
import Runbound.Server.RateGate
import Runbound.Server.Tsig
import Runbound.Server.UdpBudget
import Runbound.Access.ZoneScope
import Runbound.Access.Registry
import Runbound.Bans.Temporary
import Runbound.Sync.Converge
import Runbound.Audit.Sequence
import Runbound.Sync.Replay
import Runbound.FastPath.Sentinels
import Runbound.Dnssec.KeyLifetime
import Runbound.FastPath.KernelBlacklist
import Runbound.Recursor.WorkBound
import Runbound.Store.FailedLoad
import Runbound.Recursor.Minimisation
import Runbound.Local.Schedule
import Runbound.Local.Existence
import Runbound.Server.ForwardCache
import Runbound.Server.SubnetPolicy
import Runbound.Server.Membership
import Runbound.FastPath.IcmpResponder
import Runbound.Config.Glob
import Runbound.Server.Sessions
import Runbound.Server.WebUiLogin
import Runbound.Wire.EdnsCodec
import Runbound.Server.Connections
