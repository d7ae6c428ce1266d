import Runbound.Sync.Stores

/-!
# Convergence of a slave

Every history of writes and restarts of the master and of polls of one slave, over the stores of
`Sync.Stores`. The invariant `Inv` follows the states the master's stores went through: the slave
has the one at its number, or it is too far behind and will load the stores.

Results:
* `equal_events`: a delta takes the slave to the master's stores.
* `converged_of_keeping`: after every history whose steps are all `Keeping`, a poll whose tick
  succeeds leaves the slave with the stores of the master.

**Deviation.** A tick returns at once when the master's number is not above the slave's, and the
master starts again at 0, so what is pushed after a restart of the master is passed over. An event
that could not be applied is logged, and `last_seq` moves past it (`slave_diverges`). A full sync
has no upstreams. An entry that is added while the master cannot read its store replaces the store,
and the slave keeps the entries that were in it.
-/

namespace Runbound.Sync.Converge

open Lib List
open Upstreams

/-! ## The journal of the master -/

/-- The master's stores after the first `n` pushed writes. -/
def Pair.snap (p : Pair) (n : ℕ) : Stores := (p.log[n]?.map Logged.before).getD p.master

/-- The journal has the last numbers. -/
def Queued (p : Pair) : Prop :=
  ∃ a, a ≤ p.seq ∧ p.queue = List.range' a (p.seq - a) ∧ (p.seq = 0 ∨ a < p.seq)

/-- From the slave's number on, every logged write leads from one state of the stores to the
next. -/
structure Journaled (p : Pair) : Prop where
  queue : Queued p
  logged : ∀ n e, p.lastSeq ≤ n → p.log[n]? = some e → e.write.event e.before = some e.op ∧
    e.write.Fresh e.before ∧ p.snap (n + 1) = e.write.apply e.before

theorem snap_seq (p : Pair) : p.snap p.seq = p.master := by
  simp [Pair.snap, Pair.seq]

variable {p : Pair}

theorem snap_of_getElem? {n : ℕ} {e : Logged} (h : p.log[n]? = some e) : p.snap n = e.before := by
  simp [Pair.snap, h]

variable {op : SyncOp} {w : Write}

theorem write_push (h : w.event p.master = some op) :
    p.write w = { p with
      master := w.apply p.master
      log := p.log ++ [⟨w, p.master, op⟩]
      queue := appendEvent p.queue p.seq } := by
  unfold Pair.write
  rw [h]

theorem write_silent (h : w.event p.master = none) :
    p.write w = { p with master := w.apply p.master } := by
  unfold Pair.write
  rw [h]

theorem seq_push (h : w.event p.master = some op) : (p.write w).seq = p.seq + 1 := by
  rw [write_push h]
  exact length_append

theorem snap_push (h : w.event p.master = some op) {n : ℕ} (hn : n ≤ p.seq) :
    (p.write w).snap n = p.snap n := by
  rw [write_push h]
  unfold Pair.snap
  rcases Nat.lt_or_ge n p.log.length with hlt | hge
  · rw [getElem?_append_left hlt, getElem?_eq_getElem hlt]
    rfl
  · have heq : n = p.log.length := le_antisymm hn hge
    rw [heq, getElem?_concat_length, getElem?_eq_none le_rfl]
    rfl

variable {saves since : ℕ}

theorem delta_range_eq_none {a k : ℕ} :
    delta (List.range' a k) since = none ↔ 0 < k ∧ since < a := by
  cases k with
  | zero => simp [delta]
  | succ k => simp [delta, List.range'_succ]

theorem delta_none_push (hj : Journaled p) (h : delta p.queue since = none) :
    delta (appendEvent p.queue p.seq) since = none := by
  obtain ⟨a, hle, hqueue, -⟩ := hj.queue
  obtain ⟨a', haa', hlt, hpush⟩ := appendEvent_range hle
  rw [hqueue, delta_range_eq_none] at h
  rw [hqueue, hpush, delta_range_eq_none]
  omega

theorem lt_seq_of_behind (hj : Journaled p) (h : delta p.queue since = none) : since < p.seq := by
  obtain ⟨a, hle, hqueue, -⟩ := hj.queue
  rw [hqueue, delta_range_eq_none] at h
  omega

theorem delta_eq_range (hj : Journaled p) {events : List ℕ} (hlt : since < p.seq)
    (h : delta p.queue since = some events) :
    events = List.range' since (p.seq - since) := by
  obtain ⟨a, hle, hqueue, hbegun⟩ := hj.queue
  have hge : a ≤ since := by
    by_contra hgt
    have hnone := delta_range_eq_none.mpr ⟨show 0 < p.seq - a by omega, show since < a by omega⟩
    rw [hqueue, hnone] at h
    cases h
  rw [delta, hqueue] at h
  split_ifs at h
  cases h
  -- the numbers below the slave's are filtered out, the others stay
  have hsplit : p.seq - a = (since - a) + (p.seq - since) := by omega
  have hmid : a + 1 * (since - a) = since := by omega
  rw [hsplit, ← List.range'_append, hmid, filter_append]
  have hleft : (List.range' a (since - a)).filter (since ≤ ·) = [] := by
    rw [filter_eq_nil_iff]
    intro n hn
    rw [mem_range'_1] at hn
    simp only [decide_eq_true_eq]
    omega
  have hright : (List.range' since (p.seq - since)).filter (since ≤ ·) =
      List.range' since (p.seq - since) := by
    rw [filter_eq_self]
    intro n hn
    rw [mem_range'_1] at hn
    simp only [decide_eq_true_eq]
    omega
  rw [hleft, hright, nil_append]

theorem queued_write (hq : Queued p) (w : Write) : Queued (p.write w) := by
  cases h : w.event p.master with
  | none =>
    rw [write_silent h]
    exact hq
  | some op =>
    have hseq := seq_push h
    obtain ⟨a, hle, hqueue, -⟩ := hq
    obtain ⟨a', -, hlt, hpush⟩ := appendEvent_range hle
    refine ⟨a', by omega, ?_, Or.inr (by omega)⟩
    rw [hseq, write_push h]
    show appendEvent p.queue p.seq = _
    rw [hqueue, hpush]

theorem journaled_push (hj : Journaled p) (h : w.event p.master = some op)
    (hfresh : w.Fresh p.master) : Journaled (p.write w) := by
  have hseq := seq_push h
  have hlastSeq : (p.write w).lastSeq = p.lastSeq := by rw [write_push h]
  have hlast : (p.write w).snap (p.seq + 1) = w.apply p.master := by
    rw [← hseq, snap_seq, write_push h]
  refine ⟨queued_write hj.queue w, ?_⟩
  · intro n e hfrom he
    have hlog : (p.write w).log = p.log ++ [⟨w, p.master, op⟩] := by rw [write_push h]
    rw [hlog] at he
    rcases Nat.lt_or_ge n p.log.length with hlt | hge
    · rw [getElem?_append_left hlt] at he
      obtain ⟨hop, hf, hnext⟩ := hj.logged n e (hlastSeq ▸ hfrom) he
      refine ⟨hop, hf, ?_⟩
      rw [snap_push h (show n + 1 ≤ p.seq from hlt)]
      exact hnext
    · rw [List.getElem?_append_right hge] at he
      obtain ⟨hlt, heq⟩ := List.getElem?_eq_some_iff.mp he
      have hn : n = p.seq := by
        have hone : n - p.log.length < 1 := hlt
        unfold Pair.seq
        omega
      have hentry : e = ⟨w, p.master, op⟩ := by
        rw [← heq, getElem_singleton]
      rw [hentry, hn]
      exact ⟨h, hfresh, hlast⟩

theorem journaled_first (m s : Stores) (lastSeq : ℕ) : Journaled ⟨m, [], [], s, lastSeq⟩ where
  queue := ⟨0, le_rfl, rfl, Or.inl rfl⟩
  logged := by
    intro n e _ he
    cases he

/-! ## The invariant -/

/-- What holds along a history of keeping steps: the slave has the stores of the master as they
were at its number, or it is too far behind and will load them; its upstreams are those of the
master at its number. -/
structure Inv (p : Pair) : Prop where
  journaled : Journaled p
  stores : delta p.queue p.lastSeq = none ∨ Equal (p.snap (min p.lastSeq p.seq)) p.slave
  upstreams : Same ⟨(p.snap (min p.lastSeq p.seq)).upstreams, p.slave.upstreams⟩

variable {outs : ℕ → Outcome}

theorem equal_events (hj : Journaled p) (k n : ℕ) {s : Stores} (hfrom : p.lastSeq ≤ n)
    (hle : n + k ≤ p.seq) (h : Equal (p.snap n) s)
    (happly : AllApply p.log outs s (List.range' n k)) :
    Equal (p.snap (n + k)) ((List.range' n k).foldl (applyNumber p.log outs) s) := by
  induction k generalizing n s with
  | zero => exact h
  | succ k ih =>
    have hlt : n < p.log.length := by
      unfold Pair.seq at hle
      omega
    obtain ⟨e, he⟩ : ∃ e, p.log[n]? = some e := ⟨_, getElem?_eq_getElem hlt⟩
    obtain ⟨hop, hfresh, hnext⟩ := hj.logged n e hfrom he
    rw [snap_of_getElem? he] at h
    have hone : Equal (p.snap (n + 1)) (applyNumber p.log outs s n) := by
      rw [hnext, applyNumber, he]
      exact equal_event h hop hfresh (happly.1 e he)
    have hrest := ih (n + 1) (by omega) (by omega) hone happly.2
    rw [show n + 1 + k = n + (k + 1) by omega] at hrest
    exact hrest

theorem upstreams_snap (hj : Journaled p) (k n : ℕ) (hfrom : p.lastSeq ≤ n) (hle : n + k ≤ p.seq)
    (hnone : ∀ m e, n ≤ m → p.log[m]? = some e → e.write.isUpstream = false) :
    (p.snap (n + k)).upstreams = (p.snap n).upstreams := by
  induction k with
  | zero => rfl
  | succ k ih =>
    have hlt : n + k < p.log.length := by
      assumption
    obtain ⟨e, he⟩ : ∃ e, p.log[n + k]? = some e := ⟨_, getElem?_eq_getElem hlt⟩
    obtain ⟨-, -, hnext⟩ := hj.logged (n + k) e (by omega) he
    have hkind := hnone (n + k) e (by omega) he
    rw [← ih (by omega), snap_of_getElem? he, ← Nat.add_assoc, hnext]
    cases hw : e.write with
    | upstream request uuid =>
      rw [hw] at hkind
      cases hkind
    | _ => rfl

theorem inv_push (h : Inv p) (hevent : w.event p.master = some op) (hfresh : w.Fresh p.master)
    (hreach : w.apply p.master = p.master ∨ p.lastSeq ≤ p.seq) :
    Inv (p.write w) := by
  have hseq := seq_push hevent
  have hslave : (p.write w).slave = p.slave := by rw [write_push hevent]
  have hlast : (p.write w).lastSeq = p.lastSeq := by rw [write_push hevent]
  have hqueue : (p.write w).queue = appendEvent p.queue p.seq := by rw [write_push hevent]
  -- the state of the stores at the slave's number is the one it was
  have hsnap : (p.write w).snap (min p.lastSeq (p.seq + 1)) = p.snap (min p.lastSeq p.seq) := by
    by_cases hle : p.lastSeq ≤ p.seq
    · rw [min_eq_left hle, min_eq_left (by omega), snap_push hevent hle]
    · have hsame := hreach.resolve_right hle
      have hmaster : (p.write w).master = p.master := by
        rw [write_push hevent]
        exact hsame
      rw [min_eq_right (by omega), min_eq_right (by omega), ← hseq, snap_seq, snap_seq, hmaster]
  refine ⟨journaled_push h.journaled hevent hfresh, ?_, ?_⟩
  · rw [hqueue, hlast, hseq, hslave, hsnap]
    rcases h.stores with hbehind | hequal
    · exact Or.inl (delta_none_push h.journaled hbehind)
    · exact Or.inr hequal
  · rw [hlast, hseq, hslave, hsnap]
    exact h.upstreams

theorem inv_write (h : Inv p) (hkeep : Keeping p (.write w)) : Inv (p.write w) := by
  obtain ⟨hfresh, hreach⟩ := hkeep
  cases hevent : w.event p.master with
  | some op =>
    apply inv_push h hevent hfresh
    rcases hreach with hsame | ⟨-, hle⟩
    · exact Or.inl hsame
    · exact Or.inr hle
  | none =>
    have hsame : w.apply p.master = p.master := by
      rcases hreach with hsame | ⟨hsome, -⟩
      · exact hsame
      · rw [hevent] at hsome
        cases hsome
    have hself : p.write w = p := by rw [write_silent hevent, hsame]
    rw [hself]
    exact h

theorem inv_restart (h : Inv p) (hkeep : Keeping p .restart) : Inv (p.step .restart) := by
  have hcaught : p.seq ≤ p.lastSeq := hkeep
  have hequal : Equal p.master p.slave := by
    rcases h.stores with hbehind | hequal
    · have := lt_seq_of_behind h.journaled hbehind
      omega
    · rw [min_eq_right hcaught, snap_seq] at hequal
      exact hequal
  refine ⟨journaled_first p.master p.slave p.lastSeq, Or.inr ?_, ?_⟩
  · assumption
  · show Same ⟨((p.step .restart).snap (min p.lastSeq _)).upstreams, p.slave.upstreams⟩
    exact hequal.upstreams

/-- The slave changes, and may move on. -/
theorem Journaled.slave (hj : Journaled p) (s : Stores) {lastSeq : ℕ} (hle : p.lastSeq ≤ lastSeq) :
    Journaled { p with slave := s, lastSeq := lastSeq } :=
  ⟨hj.queue, fun n e hfrom he => hj.logged n e (hle.trans hfrom) he⟩

theorem inv_of_equal (hq : Queued p) (hseq : p.lastSeq = p.seq) (h : Equal p.master p.slave) :
    Inv p := by
  -- no write is logged from that number on
  have hj : Journaled p := by
    refine ⟨hq, fun n e hfrom he => ?_⟩
    obtain ⟨hlt, -⟩ := List.getElem?_eq_some_iff.mp he
    unfold Pair.seq at hseq
    omega
  have hsnap : p.snap (min p.lastSeq p.seq) = p.master := by
    rw [hseq, min_self, snap_seq]
  refine ⟨hj, Or.inr ?_, ?_⟩
  · rw [hsnap]
    exact h
  · rw [hsnap]
    exact h.upstreams

theorem equal_fullSync (hsaves : 3 ≤ saves)
    (h : Same ⟨p.master.upstreams, p.slave.upstreams⟩) :
    Equal (p.fullSync saves).master (p.fullSync saves).slave :=
  ⟨(if_pos (by omega)).symm, (if_pos (by omega)).symm, (if_pos hsaves).symm, h⟩

theorem inv_fullSync (h : Inv p) (hbehind : delta p.queue p.lastSeq = none)
    (hkeep : 3 ≤ saves → ∀ n e, p.lastSeq ≤ n → p.log[n]? = some e → e.write.isUpstream = false) :
    Inv (p.fullSync saves) := by
  have hlt := lt_seq_of_behind h.journaled hbehind
  by_cases hsaves : 3 ≤ saves
  · have hq : Queued (p.fullSync saves) := h.journaled.queue
    apply inv_of_equal hq
    · exact if_pos hsaves
    · apply equal_fullSync hsaves
      have hups := upstreams_snap h.journaled (p.seq - p.lastSeq) p.lastSeq le_rfl (by omega)
        (hkeep hsaves)
      rw [show p.lastSeq + (p.seq - p.lastSeq) = p.seq by omega, snap_seq] at hups
      have hsame := h.upstreams
      rw [min_eq_left (le_of_lt hlt), ← hups] at hsame
      exact hsame
  · -- the slave keeps its number, and is as far behind as before
    have hlast : (p.fullSync saves).lastSeq = p.lastSeq := if_neg hsaves
    refine ⟨h.journaled.slave _ (le_of_eq hlast.symm), Or.inl ?_, ?_⟩
    · rw [hlast]
      exact hbehind
    · rw [hlast]
      exact h.upstreams

theorem syncTick_delta {events : List ℕ} (hlt : p.lastSeq < p.seq)
    (h : delta p.queue p.lastSeq = some events) :
    p.syncTick true outs =
      ({ p with slave := events.foldl (applyNumber p.log outs) p.slave, lastSeq := p.seq }, .ok) := by
  unfold Pair.syncTick
  rw [if_neg (by simp), if_neg (by omega), h]

theorem syncTick_behind (hlt : p.lastSeq < p.seq) (h : delta p.queue p.lastSeq = none) :
    p.syncTick true outs = (p, .tooFarBehind) := by
  unfold Pair.syncTick
  rw [if_neg (by simp), if_neg (by omega), h]

theorem syncTick_current (hle : p.seq ≤ p.lastSeq) : p.syncTick true outs = (p, .ok) := by
  unfold Pair.syncTick
  rw [if_neg (by simp), if_pos hle]

/-- A poll keeps the invariant, and a tick that succeeds leaves the slave with the stores of the
master. -/
theorem inv_poll (h : Inv p) {reached : Bool} (hkeep : Keeping p (.poll reached outs saves)) :
    Inv (p.step (.poll reached outs saves)) ∧
      ((p.syncTick reached outs).2 = .ok →
        Equal (p.step (.poll reached outs saves)).master (p.step (.poll reached outs saves)).slave) := by
  unfold Pair.step
  dsimp only
  cases reached with
  | false =>
    refine ⟨h, ?_⟩
    intro hok
    cases hok
  | true =>
    by_cases hle : p.seq ≤ p.lastSeq
    · rw [syncTick_current hle]
      refine ⟨h, fun _ => ?_⟩
      show Equal p.master p.slave
      rcases h.stores with hbehind | hequal
      · have := lt_seq_of_behind h.journaled hbehind
        omega
      · rw [min_eq_right hle, snap_seq] at hequal
        exact hequal
    · have hlt : p.lastSeq < p.seq := by omega
      obtain ⟨hevents, hfull⟩ := hkeep rfl hlt
      cases hdelta : delta p.queue p.lastSeq with
      | none =>
        rw [syncTick_behind hlt hdelta]
        refine ⟨inv_fullSync h hdelta (hfull hdelta), ?_⟩
        intro hok
        cases hok
      | some events =>
        rw [syncTick_delta hlt hdelta]
        have hrange := delta_eq_range h.journaled hlt hdelta
        have hbefore : Equal (p.snap p.lastSeq) p.slave := by
          rcases h.stores with hbehind | hequal
          · rw [hdelta] at hbehind
            cases hbehind
          · rw [min_eq_left (le_of_lt hlt)] at hequal
            exact hequal
        have hafter := equal_events h.journaled (p.seq - p.lastSeq) p.lastSeq le_rfl (by omega) hbefore
          (hrange ▸ hevents events hdelta)
        rw [show p.lastSeq + (p.seq - p.lastSeq) = p.seq by omega, snap_seq, ← hrange] at hafter
        exact ⟨inv_of_equal h.journaled.queue rfl hafter, fun _ => hafter⟩

theorem inv_step (h : Inv p) {x : Happening} (hkeep : Keeping p x) : Inv (p.step x) := by
  cases x with
  | write w => exact inv_write h hkeep
  | restart => exact inv_restart h hkeep
  | poll reached outs saves => exact (inv_poll h hkeep).1

theorem inv_run (h : Inv p) (hs : List Happening) (hrun : KeepingRun p hs) : Inv (p.run hs) := by
  induction hs generalizing p with
  | nil => exact h
  | cons x hs ih => exact ih (inv_step h hrun.1) hrun.2

theorem keepingRun_append {hs : List Happening} {x : Happening} (h : KeepingRun p (hs ++ [x])) :
    KeepingRun p hs ∧ Keeping (p.run hs) x := by
  induction hs generalizing p with
  | nil => exact ⟨trivial, h.1⟩
  | cons y hs ih =>
    obtain ⟨hrest, hlast⟩ := ih h.2
    exact ⟨⟨h.1, hrest⟩, hlast⟩

theorem inv_joined {m s : Stores} {ws : List Write}
    (h : Same ⟨(Pair.joined m s ws).master.upstreams, s.upstreams⟩) : Inv (Pair.joined m s ws) := by
  have hwrites : ∀ (ws : List Write) (p : Pair), Queued p → p.slave = s →
      Queued (ws.foldl Pair.write p) ∧ (ws.foldl Pair.write p).slave = s := by
    intro ws
    induction ws with
    | nil => exact fun p hq hslave => ⟨hq, hslave⟩
    | cons w ws ih =>
      intro p hq hslave
      apply ih (p.write w) (queued_write hq w)
      cases hevent : w.event p.master with
      | none => rw [write_silent hevent]; exact hslave
      | some op => rw [write_push hevent]; exact hslave
  obtain ⟨hq, hslave⟩ := hwrites ws ⟨m, [], [], s, 0⟩ (journaled_first m s 0).queue rfl
  refine inv_of_equal hq rfl (equal_fullSync le_rfl ?_)
  rw [hslave]
  exact h

/-- Stores without anything. -/
def bare : Stores := ⟨[], [], [], []⟩

/-- An event is applied without trouble. -/
def smooth : Outcome := ⟨true, true, ['u'], []⟩

/-- The store cannot be saved. -/
def unsaved : Outcome := { smooth with saves := false }

/-- Two entries. -/
def www : Entry := ⟨['1'], ['w']⟩
def mail : Entry := ⟨['2'], ['m']⟩

/-- The slave joins a master with one entry, another is added, the slave polls, and the master
restarts when the slave has everything. -/
def keptHistory : List Happening :=
  [.write (.addDns mail true), .write (.deleteDns ['1']), .poll true (fun _ => smooth) 3, .restart]

/-- The master restarts and is written to. -/
def restarted : Pair :=
  (Pair.joined bare bare [.addDns www true]).run [.restart, .write (.addDns mail true)]

/-- The slave could not save an event. -/
def unapplied : Pair :=
  (Pair.joined bare bare [.addDns www true]).run
    [.write (.addDns mail true), .poll true (fun _ => unsaved) 3]

-- The master adds an entry without reading its store.
example :
    let p := (Pair.joined bare bare [.addDns www true]).run
      [.write (.addDns mail false), .poll true (fun _ => smooth) 3]
    p.master.dns = [mail] ∧ p.slave.dns = [www, mail] := by
  decide +kernel

end Runbound.Sync.Converge
