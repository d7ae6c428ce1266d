import Runbound.Lib.Cell
import Runbound.Lib.Map
import Runbound.Server.Acl

/-!
# The cap on connections (`dns/server.rs`, `dns/doq.rs`)

TCP, DoT, DoH and DoQ share `TcpConnTracker`, which counts the open connections of an IPv4
address or an IPv6 /48. Loopback clients are exempt. A connection that ends lowers its counter,
and in a second step removes the entry if that is zero.

An IPv4 client of a listener that takes both families comes as `::ffff:a.b.c.d`, and the /48 of all
those is `::`.

Main result: `accounted_iff`, when the counters are the open connections in every interleaving and
IPv4 clients have counters of their own.

**Deviation**: only connections that passed the access list and the alert rules are accepted
here. The times of the last warnings are left out.
-/

namespace Runbound.Server

open Wire Lib Recursor List Map

/-! ## Model -/

/-- `normalize_tcp_ip` (dns/server.rs:2152). -/
def normalizeTcpIp : IpAddr → IpAddr
  | .v4 o => .v4 o
  | .v6 o => .v6 fun i => if i.val < 6 then o i else 0

/-- `TCP_CONN_PER_IP_MAX` (dns/server.rs:2149). -/
def tcpConnPerIpMax : ℕ := 20

/-- `TcpConnTracker::try_acquire` (dns/server.rs:2179), with the entry locked throughout. -/
def tryAcquire (counts : Map IpAddr U16) (ip : IpAddr) : Map IpAddr U16 × Bool :=
  if isLoopback ip then (counts, true)
  else
    let prev := (counts.lookup ip).getD 0
    if tcpConnPerIpMax ≤ prev.val then (counts.insert ip (prev + 1 - 1), false)
    else (counts.insert ip (prev + 1), true)

/-- The first step of `TcpConnTracker::release` (dns/server.rs:2211): the counters, and whether
    this one has just reached zero. -/
def release (counts : Map IpAddr U16) (ip : IpAddr) : Map IpAddr U16 × Bool :=
  match counts.lookup ip with
  | some c => (counts.insert ip (c - 1), c = 1)
  | none => (counts, false)

/-- The second step of `release`, `remove_if` (dns/server.rs:2231). -/
def removeIfZero (counts : Map IpAddr U16) (ip : IpAddr) : Map IpAddr U16 :=
  if counts.lookup ip = some 0 then counts.erase ip else counts

/-- The acceptors `run_tcp_with_limit` and `serve_connection`. -/
inductive Acceptor
  | tcp
  | doq
  deriving DecidableEq

structure Conn where
  acceptor : Acceptor
  ip : IpAddr

namespace Conn

/-- The key that is released at the end (dns/server.rs:2288, dns/doq.rs:131). -/
def key (c : Conn) : IpAddr :=
  match c.acceptor with
  | .tcp => if isLoopback c.ip then c.ip else normalizeTcpIp c.ip
  | .doq => normalizeTcpIp c.ip

/-- The call of `try_acquire`, which `serve_connection` leaves out for loopback clients. -/
def acquire (c : Conn) (counts : Map IpAddr U16) : Map IpAddr U16 × Bool :=
  if c.acceptor = .doq ∧ isLoopback c.ip then (counts, true) else tryAcquire counts c.key

/-- The connection counts under the key. -/
def holds (c : Conn) (key : IpAddr) : Bool := !isLoopback c.ip && c.key = key

end Conn

/-- The counters, the open connections, and the keys of the removals that are due. -/
structure Conns where
  counts : Map IpAddr U16 := ∅
  opened : List Conn := []
  due : List IpAddr := []

inductive ConnAct
  | accept (c : Conn)
  | close (i : ℕ)
  | remove (i : ℕ)

namespace Conns

def step (s : Conns) : ConnAct → Conns
  | .accept c =>
    let (counts, admitted) := c.acquire s.counts
    { s with counts := counts, opened := if admitted then c :: s.opened else s.opened }
  | .close i =>
    match s.opened[i]? with
    | some c =>
      let (counts, zero) := release s.counts c.key
      ⟨counts, s.opened.eraseIdx i, if zero then c.key :: s.due else s.due⟩
    | none => s
  | .remove i =>
    match s.due[i]? with
    | some ip => { s with counts := removeIfZero s.counts ip, due := s.due.eraseIdx i }
    | none => s

/-! ## Specification -/

/-- The counter of a key. -/
def tally (counts : Map IpAddr U16) (key : IpAddr) : ℕ := ((counts.lookup key).getD 0).val

/-- The connections with a slot under the key. -/
def openAt (opened : List Conn) (key : IpAddr) : ℕ := opened.countP (·.holds key)

/-- Every counter is the number of the open connections, which keep to the cap. -/
structure Accounted (s : Conns) : Prop where
  count : ∀ key, tally s.counts key = openAt s.opened key
  cap : ∀ key, openAt s.opened key ≤ tcpConnPerIpMax
  exempt : ∀ key n, s.counts.lookup key = some n → isLoopback key = false

/-- A connection that is closed frees its own slot and no other. -/
def Frees (s : Conns) : ConnAct → Prop
  | .close i => ∀ c ∈ s.opened[i]?, ∀ key, tally s.counts key =
      tally (s.step (.close i)).counts key + if c.holds key then 1 else 0
  | _ => True

/-- The address of an IPv4 client on an IPv6 socket, `::ffff:a.b.c.d`. -/
def mappedV4 (a : Fin 4 → Byte) : IpAddr :=
  .v6 ![0, 0, 0, 0, 0, 0, 0, 0, 0, 0, 255, 255, a 0, a 1, a 2, a 3]

/-- The connection comes from the IPv4 client `a`. -/
def FromV4 (c : Conn) (a : Fin 4 → Byte) : Prop := c.ip = .v4 a ∨ c.ip = mappedV4 a

/-- The connections that come in. -/
def clients (acts : List ConnAct) : List Conn :=
  acts.filterMap fun
    | .accept c => some c
    | _ => none

/-- Clients with different IPv4 addresses have different keys. -/
def V4Apart (acts : List ConnAct) : Prop :=
  ∀ c ∈ clients acts, ∀ c' ∈ clients acts, ∀ a b, FromV4 c a → FromV4 c' b → a ≠ b → c.key ≠ c'.key

/-- At most one IPv4 client comes in over IPv6 sockets. -/
def OneMapped (acts : List ConnAct) : Prop :=
  ∀ c ∈ clients acts, ∀ c' ∈ clients acts, ∀ a b, c.ip = mappedV4 a → c'.ip = mappedV4 b → a = b

/-- A DoQ connection of a loopback client is closed only while its key has no entry. -/
def Steady (s : Conns) : ConnAct → Prop
  | .close i => ∀ c ∈ s.opened[i]?, c.acceptor = .doq → isLoopback c.ip = true → c.key ∉ s.counts
  | _ => True

/-! ## The steps -/

theorem isLoopback_normalizeTcpIp {ip : IpAddr} (h : isLoopback ip = false) :
    isLoopback (normalizeTcpIp ip) = false := by
  cases ip with
  | v4 o => exact h
  | v6 o =>
    show decide (ipValue _ = 1) = false
    rw [decide_eq_false_iff_not]
    show ¬ (ofFn _).foldl _ 0 = 1
    -- the last octet is zero
    show ¬ _ * 256 + 0 = 1
    omega

variable {s : Conns} {c : Conn} {key ip : IpAddr} {i : ℕ}

theorem isLoopback_key (h : isLoopback c.ip = false) : isLoopback c.key = false := by
  have hkey : c.key = normalizeTcpIp c.ip := by
    unfold Conn.key
    cases c.acceptor <;> simp [h]
  rw [hkey]
  exact isLoopback_normalizeTcpIp h

theorem openAt_eraseIdx {opened : List Conn} (h : opened[i]? = some c) (key : IpAddr) :
    openAt opened key = openAt (opened.eraseIdx i) key + if c.holds key then 1 else 0 := by
  obtain ⟨hi, rfl⟩ := List.getElem?_eq_some_iff.mp h
  rw [openAt, ← (getElem_cons_eraseIdx_perm hi).countP_eq, countP_cons]
  rfl

theorem tally_insert (counts : Map IpAddr U16) (ip : IpAddr) (n : U16) (key : IpAddr) :
    tally (counts.insert ip n) key = if key = ip then n.val else tally counts key := by
  unfold tally
  rw [lookup_insert_eq]
  split_ifs <;> rfl

/-- A counter that is set to the number of the connections under its key. -/
theorem Accounted.insert {n : U16} {opened : List Conn} {due : List IpAddr} (h : s.Accounted)
    (hip : isLoopback ip = false) (hcap : n.val ≤ tcpConnPerIpMax)
    (hopen : ∀ key, openAt opened key = if key = ip then n.val else openAt s.opened key) :
    Accounted ⟨s.counts.insert ip n, opened, due⟩ := by
  refine ⟨fun key => ?_, fun key => ?_, forall_lookup_insert h.exempt hip⟩
  · rw [tally_insert, hopen, h.count]
  · rw [hopen]
    split_ifs
    · exact hcap
    · exact h.cap key

theorem Accounted.accept (h : s.Accounted) (c : Conn) : (s.step (.accept c)).Accounted := by
  cases hloop : isLoopback c.ip with
  | true =>
    have hstep : s.step (.accept c) = { s with opened := c :: s.opened } := by
      obtain ⟨acceptor, ip⟩ := c
      cases acceptor <;> simp [step, Conn.acquire, Conn.key, tryAcquire, hloop]
    have hopen : ∀ key, openAt (c :: s.opened) key = openAt s.opened key := fun key =>
      countP_cons_of_neg (by simp [Conn.holds, hloop])
    rw [hstep]
    exact ⟨fun key => (h.count key).trans (hopen key).symm,
      fun key => (hopen key).trans_le (h.cap key), h.exempt⟩
  | false =>
    have hkey := isLoopback_key hloop
    have hcount : ((s.counts.lookup c.key).getD 0).val = _ := h.count c.key
    have hcap := h.cap c.key
    simp only [step, Conn.acquire, tryAcquire, hloop, hkey, Bool.false_eq_true, and_false, if_false]
    generalize (s.counts.lookup c.key).getD 0 = prev at hcount
    by_cases hfull : tcpConnPerIpMax ≤ prev.val
    · simp only [if_pos hfull, add_sub_cancel_right, Bool.false_eq_true, if_false]
      refine h.insert hkey (hcount.trans_le hcap) fun key => ?_
      split_ifs with heq
      · rw [heq, hcount]
      · rfl
    · have hnext : (prev + 1).val = prev.val + 1 :=
        Fin.val_add_one_of_lt' (by unfold tcpConnPerIpMax at hfull; omega)
      simp only [if_neg hfull, if_true]
      refine h.insert hkey (by omega) fun key => ?_
      split_ifs with heq
      · rw [heq, hnext, hcount]
        simp [openAt, Conn.holds, hloop]
      · simp [openAt, Conn.holds, Ne.symm heq]

theorem Accounted.remove (h : s.Accounted) (i : ℕ) : (s.step (.remove i)).Accounted := by
  cases hdue : s.due[i]? with
  | none =>
    simp only [step, hdue]
    exact h
  | some ip =>
    simp only [step, hdue, removeIfZero]
    split_ifs with hzero
    · refine ⟨fun key => ?_, h.cap, forall_lookup_erase h.exempt ip⟩
      rw [← h.count, tally, tally, lookup_erase_eq]
      split_ifs with heq
      · rw [heq, hzero]
        rfl
      · rfl
    · exact ⟨h.count, h.cap, h.exempt⟩

theorem step_close (h : s.opened[i]? = some c) : ∃ due, s.step (.close i) =
    ⟨if c.key ∈ s.counts then s.counts.insert c.key ((s.counts.lookup c.key).getD 0 - 1)
      else s.counts, s.opened.eraseIdx i, due⟩ := by
  cases hl : s.counts.lookup c.key with
  | none => simp [step, release, h, hl, AList.lookup_eq_none.mp hl]
  | some n => simp [step, release, h, hl, mem_iff_lookup.mpr ⟨n, hl⟩]

theorem accounted_close_iff (h : s.Accounted) (hc : s.opened[i]? = some c) :
    (s.step (.close i)).Accounted ↔ s.Steady (.close i) := by
  obtain ⟨due, hstep⟩ := step_close hc
  have hopen := openAt_eraseIdx hc
  have hcap := h.cap c.key
  have hcount : ((s.counts.lookup c.key).getD 0).val = _ := h.count c.key
  rw [hopen] at hcount hcap
  have hexempt : c.key ∈ s.counts → isLoopback c.key = false := fun hin =>
    (mem_iff_lookup.mp hin).elim fun n hn => h.exempt c.key n hn
  rw [hstep]
  cases hloop : isLoopback c.ip with
  | true =>
    simp only [Conn.holds, hloop, Bool.not_true, Bool.false_and, Bool.false_eq_true, if_false,
      add_zero] at hopen hcount
    by_cases hin : c.key ∈ s.counts
    · -- the counter changes, the number of the connections under it does not
      refine iff_of_false (fun hafter => ?_) fun hsteady => ?_
      · have hkey := hafter.count c.key
        simp only [if_pos hin] at hkey
        exact absurd (Fin.ext (hkey.trans hcount.symm)) (by simp)
      · cases hacc : c.acceptor with
        | tcp =>
          have hkey : c.key = c.ip := by simp [Conn.key, hacc, hloop]
          have hno := hexempt hin
          rw [hkey, hloop] at hno
          cases hno
        | doq => exact hsteady c hc hacc hloop hin
    · rw [if_neg hin]
      refine iff_of_true ⟨fun key => ?_, fun key => ?_, h.exempt⟩ (by simp [Steady, hc, hin])
      · rw [h.count, hopen]
      · rw [← hopen]
        exact h.cap key
  | false =>
    have hholds : c.holds c.key = true := by simp [Conn.holds, hloop]
    rw [hholds, if_pos rfl] at hcount hcap
    have hin : c.key ∈ s.counts := by
      by_contra hout
      rw [AList.lookup_eq_none.mpr hout] at hcount
      cases hcount
    rw [if_pos hin]
    generalize (s.counts.lookup c.key).getD 0 = n at hcount
    have hne : n ≠ 0 := by
      rintro rfl
      cases hcount
    have hprev : (n - 1).val = n.val - 1 := Fin.val_sub_one_of_ne_zero hne
    refine iff_of_true (h.insert (hexempt hin) (by omega) fun key => ?_) (by simp [Steady, hc, hloop])
    split_ifs with heq
    · rw [heq, hprev, hcount, Nat.add_sub_cancel]
    · simp [hopen key, Conn.holds, Ne.symm heq]

theorem accounted_step_iff (h : s.Accounted) (act : ConnAct) :
    (s.step act).Accounted ↔ s.Steady act := by
  cases act with
  | accept c => exact iff_of_true (h.accept c) trivial
  | remove i => exact iff_of_true (h.remove i) trivial
  | close i =>
    cases hc : s.opened[i]? with
    | none =>
      have hstep : s.step (.close i) = s := by simp [step, hc]
      rw [hstep]
      exact iff_of_true h (by simp [Steady, hc])
    | some c => exact accounted_close_iff h hc

theorem Accounted.frees {act : ConnAct} (h : s.Accounted) (h' : (s.step act).Accounted) :
    s.Frees act := by
  cases act with
  | accept c => trivial
  | remove i => trivial
  | close i =>
    intro c hc key
    obtain ⟨due, hstep⟩ := step_close hc
    rw [h.count, h'.count, hstep]
    exact openAt_eraseIdx hc key

theorem key_v4 {a : Fin 4 → Byte} (h : c.ip = .v4 a) : c.key = .v4 a := by
  unfold Conn.key
  cases c.acceptor <;> simp [h, normalizeTcpIp]

theorem isLoopback_mappedV4 (a : Fin 4 → Byte) : isLoopback (mappedV4 a) = false := by
  have hvalue : ipValue (mappedV4 a) ≠ 1 := by
    have hoctets : List.ofFn ![0, 0, 0, 0, 0, 0, 0, 0, 0, 0, 255, 255, a 0, a 1, a 2, a 3] =
        [0, 0, 0, 0, 0, 0, 0, 0, 0, 0, 255, 255, a 0, a 1, a 2, a 3] := rfl
    simp only [mappedV4, ipValue, hoctets, foldl_cons, foldl_nil]
    -- the octets `255, 255` stand above the last one
    simp only [Fin.val_zero, Nat.zero_mul, Nat.zero_add, show (255 : Byte).val = 255 from rfl]
    omega
  exact decide_eq_false hvalue

/-- All IPv4 clients on IPv6 sockets have the key `::`. -/
theorem key_mappedV4 {a : Fin 4 → Byte} (h : c.ip = mappedV4 a) : c.key = .v6 0 := by
  have hnorm : normalizeTcpIp (mappedV4 a) = .v6 0 := by
    refine congrArg IpAddr.v6 (funext fun i => ?_)
    fin_cases i <;> rfl
  unfold Conn.key
  cases c.acceptor <;> simp [h, isLoopback_mappedV4, hnorm]

theorem v4Apart_iff (acts : List ConnAct) : V4Apart acts ↔ OneMapped acts := by
  constructor
  · intro h c hc c' hc' a b ha hb
    by_contra hne
    exact h c hc c' hc' a b (.inr ha) (.inr hb) hne ((key_mappedV4 ha).trans (key_mappedV4 hb).symm)
  · intro h c hc c' hc' a b ha hb hne hkey
    rcases ha with ha | ha <;> rcases hb with hb | hb
    · rw [key_v4 ha, key_v4 hb] at hkey
      exact hne (IpAddr.v4.inj hkey)
    · rw [key_v4 ha, key_mappedV4 hb] at hkey
      cases hkey
    · rw [key_mappedV4 ha, key_v4 hb] at hkey
      cases hkey
    · exact hne (h c hc c' hc' a b ha hb)

/-- The counters are the open connections after every action, closing frees one slot, and clients
    with different IPv4 addresses share no key, exactly if each action is steady and no two
    different IPv4 clients come in over IPv6 sockets. -/
theorem accounted_iff (acts : List ConnAct) :
    (Each step (fun s act => (s.step act).Accounted ∧ s.Frees act) {} acts ∧ V4Apart acts) ↔
      Each step Steady {} acts ∧ OneMapped acts := by
  have hempty : Accounted {} := ⟨fun _ => rfl, fun _ => Nat.zero_le _, fun _ _ h => by cases h⟩
  rw [v4Apart_iff, each_iff_each (I := Accounted) (fun s act h => ?_)
    (fun s act h => (accounted_step_iff h act).mpr) acts hempty]
  rw [← accounted_step_iff h act]
  exact and_iff_left_of_imp h.frees

/-- The address `::n`. -/
def lowV6 (n : Byte) : IpAddr := .v6 fun i => if i.val = 15 then n else 0

/-- A client in `::/48` has a TCP connection while a DoQ connection from `::1` comes and goes:
    the connection is open, and its counter is at zero. And the clients 10.0.0.1 and 10.0.0.2 of an
    IPv6 socket have one key. -/
theorem loopback_frees_other :
    let s := [.accept ⟨.tcp, lowV6 2⟩, .accept ⟨.doq, lowV6 1⟩, .close 0].foldl step {}
    (tally s.counts (lowV6 0) = 0 ∧ openAt s.opened (lowV6 0) = 1) ∧
      ¬ V4Apart [.accept ⟨.tcp, mappedV4 ![10, 0, 0, 1]⟩,
        .accept ⟨.tcp, mappedV4 ![10, 0, 0, 2]⟩] := by
  have hnorm : ∀ n, normalizeTcpIp (lowV6 n) = lowV6 0 := fun n =>
    congrArg IpAddr.v6 (funext fun i => by dsimp only; split_ifs <;> first | rfl | omega)
  have hzero : isLoopback (lowV6 0) = false := by decide +kernel
  have hone : isLoopback (lowV6 1) = true := by decide +kernel
  have htwo : isLoopback (lowV6 2) = false := by decide +kernel
  have htcp : (⟨.tcp, lowV6 2⟩ : Conn).key = lowV6 0 := by simp [Conn.key, htwo, hnorm]
  have hdoq : (⟨.doq, lowV6 1⟩ : Conn).key = lowV6 0 := hnorm 1
  have hlookup : ∀ n, (AList.singleton (lowV6 0) n : Map IpAddr U16).lookup (lowV6 0) = some n := by
    intro n
    rw [← AList.insert_empty, AList.lookup_insert]
  have hrelease : release (AList.singleton (lowV6 0) 1) (lowV6 0) =
      (AList.singleton (lowV6 0) 0, true) := by
    simp [release, hlookup]
  refine ⟨by simp [step, Conn.acquire, tryAcquire, tcpConnPerIpMax, tally, openAt, Conn.holds, htcp,
    hdoq, hrelease, hlookup, hzero, hone, htwo], fun h => ?_⟩
  have happart := h _ mem_cons_self _ (mem_cons_of_mem _ mem_cons_self) ![10, 0, 0, 1] ![10, 0, 0, 2]
    (.inr rfl) (.inr rfl) (by decide)
  exact happart ((key_mappedV4 rfl).trans (key_mappedV4 rfl).symm)

end Conns

end Runbound.Server
