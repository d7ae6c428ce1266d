import Runbound.Recursor.Descend
import Runbound.Recursor.Runs

/-!
# Worlds of honest servers

A world is a finite set of zones and of records, with the addresses that serve each zone. A
server that is asked for a name of its zone either says what the world holds there, or
refers to a zone of the world below its own that encloses the name, with public glue. It may
serve other zones as well and answer from these, and it may add what a resolver ignores.

* `Resolves`: the answer of a world to a question after RFC 1034, 3.6.2 and 4.3.2.
* `Net.Honest`: every wait ends with the reply of an honest server.
* `Fits`: the resolver stays within its limits, whatever honest servers answer.
-/

namespace Runbound.Recursor

open Wire Dnssec Rtype Rcode

/-! ## Zones and records -/

/-- A world: the keys of its zones, its records, and the addresses that serve a zone, at most
    `width` of them in a referral. A name has at most one CNAME, and a CNAME has a target. -/
structure World where
  apexes : List (List Bytes)
  records : List Record
  serves : IpAddr → List Bytes → Prop
  width : List Bytes → ℕ
  cname_le_one : ∀ n, (rrset records n CNAME).length ≤ 1
  cname_target : ∀ r ∈ records, r.rtype = CNAME → ∃ next, r.rdata = .cname next
  root_apex : [] ∈ apexes
  root_serves : ∀ ip ∈ rootHints, serves ip []
  root_width : rootHints.length ≤ width []

namespace World

variable (W : World)

/-- The RRset at a name. -/
def rrsetAt (n : Name) (t : U16) : List Record := rrset W.records n t

/-- The name exists: it or a name below it owns a record. -/
def Exists (n : Name) : Prop := ∃ r ∈ W.records, n.key <+: r.name.key

/-- The number of zones that enclose the name and have more than `above` labels. -/
def cutsBelow (above : ℕ) (n : Name) : ℕ :=
  ((Finset.range n.key.length).filter fun k =>
    above ≤ k ∧ n.key.take (k + 1) ∈ W.apexes).card

end World

/-- The same record, up to the case of its owner. -/
def SameUpToCase (a b : Record) : Prop :=
  a.name.key = b.name.key ∧ a.rtype = b.rtype ∧ a.rclass = b.rclass ∧ a.ttl = b.ttl ∧
    a.rdata = b.rdata

/-- The same RRset, up to order and the case of owners. -/
def SameSet (as bs : List Record) : Prop := ∃ cs, cs.Perm bs ∧ List.Forall₂ SameUpToCase as cs

/-- The answer of a world: the CNAMEs that are followed, the RRset at the end, and the response
    code. A name that has the type is not followed further, so neither is a CNAME if CNAMEs
    are asked for. -/
inductive Resolves (W : World) (t : U16) : Name → List Record → List Record → U16 → Prop
  | answer {n : Name} (h : W.rrsetAt n t ≠ []) : Resolves W t n [] (W.rrsetAt n t) NOERROR
  | nodata {n : Name} (h : W.rrsetAt n t = []) (hc : W.rrsetAt n CNAME = [])
      (he : W.Exists n) : Resolves W t n [] [] NOERROR
  | nxdomain {n : Name} (h : W.rrsetAt n t = []) (hc : W.rrsetAt n CNAME = [])
      (he : ¬ W.Exists n) : Resolves W t n [] [] NXDOMAIN
  | follow {n next : Name} {c : Record} {chain rs : List Record} {rc : U16}
      (h : W.rrsetAt n t = []) (hc : c ∈ W.rrsetAt n CNAME) (hn : c.rdata = .cname next)
      (hr : Resolves W t next chain rs rc) : Resolves W t n (c :: chain) rs rc

/-! ## Honest replies -/

/-- The reply says what the world holds at `n`. The server may follow a CNAME itself, so the code
    that comes with one may be that of its end. -/
inductive Tells (W : World) (n : Name) (t : U16) (msg : Message) : Prop
  | answer (h : W.rrsetAt n t ≠ []) (hrc : msg.header.rcodeLow = NOERROR)
      (hrs : SameSet (rrset msg.answers n t) (W.rrsetAt n t))
      (hcn : t ≠ CNAME → rrset msg.answers n CNAME = [])
  | cname {c c' : Record} (h : W.rrsetAt n t = []) (hc : c ∈ W.rrsetAt n CNAME)
      (hrc : msg.header.rcodeLow = NOERROR ∨ msg.header.rcodeLow = NXDOMAIN)
      (hcn : rrset msg.answers n CNAME = [c']) (hsame : SameUpToCase c' c)
  | nodata (h : W.rrsetAt n t = []) (hc : W.rrsetAt n CNAME = []) (he : W.Exists n)
      (hrc : msg.header.rcodeLow = NOERROR) (ha : ∀ r ∈ msg.answers, r.name.key ≠ n.key)
      (hx : isCompactNxdomain msg.authority n = false)
  | nxdomain (h : W.rrsetAt n t = []) (hc : W.rrsetAt n CNAME = []) (he : ¬ W.Exists n)
      (hrc : msg.header.rcodeLow = NXDOMAIN) (ha : ∀ r ∈ msg.answers, r.name.key ≠ n.key)

/-- The reply names `d`, a zone below `zone` that encloses the name asked for. The DS records of a
    zone are its parent's. -/
structure Refers (W : World) (zone : Name) (n : Name) (t : U16) (msg : Message) (d : Name) :
    Prop where
  apex : d.key ∈ W.apexes
  below : zone.key <+: d.key ∧ zone.key ≠ d.key
  encloses : d.key <+: n.key
  parent_ds : t = DS → d.key ≠ n.key
  ns : ∃ r ∈ msg.authority, r.rtype = NS ∧ r.name.key = d.key

/-- The reply delegates `d` with public glue. -/
structure Delegates (W : World) (zone : Name) (n : Name) (t : U16) (msg : Message) (d : Name) : Prop
    extends Refers W zone n t msg d where
  glue : glue msg (nsNames msg d) ≠ []
  serves : ∀ ip ∈ Recursor.glue msg (nsNames msg d), W.serves ip d.key
  width : (Recursor.glue msg (nsNames msg d)).length ≤ W.width d.key

/-- A reply of a server of `zone` to a question for a name of the zone. NS records that are not
    those of `zone` itself delegate. -/
structure HonestReply (W : World) (zone n : Name) (t : U16) (msg : Message) : Prop where
  ns : ∀ r ∈ msg.authority, r.rtype = NS → r.name.key = zone.key ∨ Delegates W zone n t msg r.name
  content : Tells W n t msg ∨ msg.answers = [] ∧ msg.header.rcodeLow = NOERROR ∧
    ∃ d, Delegates W zone n t msg d

/-- A server of the zone may be asked: it encloses the name, and for DS records it is not the
    zone they are about. -/
def MayAsk (zone n : Name) (t : U16) : Prop :=
  zone.key <+: n.key ∧ (t = DS → zone.key = n.key → n.key = [])

/-- Every server answers, and honestly: whenever some server in flight replies, its reply is that
    of a server of each zone it serves. -/
def Net.Honest {ω : Type} (net : Net ω) (W : World) : Prop :=
  ∀ (inflight : List IpAddr) (n : Name) (t : U16) (w : ω) (ip : IpAddr),
    let wake := (net.wake inflight n t w).1
    inflight[wake.index % inflight.length]? = some ip →
    ∃ msg, wake.reply = some msg ∧ ∀ zone, W.serves ip zone.key → MayAsk zone n t →
      HonestReply W zone n t msg

/-- Every server answers. -/
def Net.Answers {ω : Type} (net : Net ω) : Prop :=
  ∀ (inflight : List IpAddr) (n : Name) (t : U16) (w : ω) (ip : IpAddr),
    let wake := (net.wake inflight n t w).1
    inflight[wake.index % inflight.length]? = some ip → ∃ msg, wake.reply = some msg

/-- Every server answers, and `R` holds of the reply as one of a server of each zone it serves. -/
def Net.RepliesWith {ω : Type} (net : Net ω) (W : World)
    (R : Name → Name → U16 → Message → Prop) : Prop :=
  ∀ (inflight : List IpAddr) (n : Name) (t : U16) (w : ω) (ip : IpAddr),
    let wake := (net.wake inflight n t w).1
    inflight[wake.index % inflight.length]? = some ip →
    ∃ msg, wake.reply = some msg ∧ ∀ zone, W.serves ip zone.key → MayAsk zone n t → R zone n t msg

theorem Net.RepliesWith.answers {ω : Type} {net : Net ω} {W : World}
    {R : Name → Name → U16 → Message → Prop} (h : net.RepliesWith W R) : net.Answers := by
  intro inflight n t w ip wake hip
  obtain ⟨msg, hmsg, -⟩ := h inflight n t w ip hip
  exact ⟨msg, hmsg⟩

theorem Net.RepliesWith.imp {ω : Type} {net : Net ω} {W : World}
    {R R' : Name → Name → U16 → Message → Prop} (h : net.RepliesWith W R)
    (himp : ∀ {zone n t msg}, R zone n t msg → R' zone n t msg) : net.RepliesWith W R' := by
  intro inflight n t w ip wake hip
  obtain ⟨msg, hmsg, hR⟩ := h inflight n t w ip hip
  exact ⟨msg, hmsg, fun zone hserves hask => himp (hR zone hserves hask)⟩

/-! ## The limits -/

/-- The queries that one question to the servers of a zone takes: at most `cost`. -/
def Net.Spends {ω : Type} (net : Net ω) (W : World) (cost : List Bytes → ℕ) : Prop :=
  ∀ (zone n : Name) (t : U16) (ips : List IpAddr) (budget : ℕ) (s : Infra ω),
    (∀ ip ∈ ips, W.serves ip zone.key) → ips.length ≤ W.width zone.key →
      budget ≤ (queryNsSet net ips n t budget s).2.1 + cost zone.key

/-- The states of a descent for `(q, t)` among honest servers: the cut, the labels added, whether
    the full question is asked, the queries spent at most, and the delegations followed. -/
inductive Path (W : World) (cost : List Bytes → ℕ) (qmin : Bool) (q : Name) (t : U16) :
    Name → ℕ → Bool → ℕ → ℕ → Prop
  | start {zone : Name} (hz : zone.key ∈ W.apexes) (hask : MayAsk zone q t) :
      Path W cost qmin q t zone 0 false 0 0
  | referral {zone next : Name} {extra spent depth : ℕ} {full : Bool} {msg : Message}
      (h : Path W cost qmin q t zone extra full spent depth)
      (hm : HonestReply W zone (sentQuestion q t (probeName qmin q zone extra full)).1
        (sentQuestion q t (probeName qmin q zone extra full)).2 msg)
      (hr : react q t zone (probeName qmin q zone extra full) msg = .referral next) :
      Path W cost qmin q t next 0 false (spent + cost zone.key) (depth + 1)
  | fallback {zone : Name} {extra spent depth : ℕ} {full : Bool} {msg : Message}
      (h : Path W cost qmin q t zone extra full spent depth)
      (hm : HonestReply W zone (sentQuestion q t (probeName qmin q zone extra full)).1
        (sentQuestion q t (probeName qmin q zone extra full)).2 msg)
      (hr : react q t zone (probeName qmin q zone extra full) msg = .fallback) :
      Path W cost qmin q t zone extra true (spent + cost zone.key) depth
  | lengthen {zone : Name} {extra spent depth : ℕ} {full : Bool} {msg : Message}
      (h : Path W cost qmin q t zone extra full spent depth)
      (hm : HonestReply W zone (sentQuestion q t (probeName qmin q zone extra full)).1
        (sentQuestion q t (probeName qmin q zone extra full)).2 msg)
      (hr : react q t zone (probeName qmin q zone extra full) msg = .lengthen) :
      Path W cost qmin q t zone (extra + 1) full (spent + cost zone.key) depth

/-- A descent stays within the budget of queries and the limit of delegations. -/
def WithinBudget (W : World) (cost : List Bytes → ℕ) (qmin : Bool) (q : Name) (t : U16) : Prop :=
  ∀ {zone extra full spent depth}, Path W cost qmin q t zone extra full spent depth →
    spent + cost zone.key ≤ maxQueries ∧ depth < maxDepth

/-- Every descent of a resolution is within its budget, and at most `k` CNAMEs are followed. -/
inductive Fits (W : World) (cost : List Bytes → ℕ) (qmin : Bool) (t : U16) : ℕ → Name → Prop
  | stop {k : ℕ} {n : Name} (hb : WithinBudget W cost qmin n t)
      (h : W.rrsetAt n t ≠ [] ∨ W.rrsetAt n CNAME = []) : Fits W cost qmin t k n
  | follow {k : ℕ} {n next : Name} {c : Record} (hb : WithinBudget W cost qmin n t)
      (h : W.rrsetAt n t = []) (hc : c ∈ W.rrsetAt n CNAME) (hn : c.rdata = .cname next)
      (hf : Fits W cost qmin t k next) : Fits W cost qmin t (k + 1) n

end Runbound.Recursor
