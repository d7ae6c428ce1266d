import Mathlib.Data.List.Range
import Runbound.Upstreams.Replication

/-!
# The journal and its readers

Model of `SyncJournal::push`, `delta` and `current_seq` in `sync.rs` (lines 427–463), of the
handlers of `/sync/state`, `/sync/delta` and `/sync/config` (lines 1187–1221), and of the polling
of one slave (`run`, `full_sync`, `sync_tick`, lines 1276–1513). Every atomic access is a step of
its own, so that a run is any interleaving of several pushers and the slave:

* `take`: a pusher takes a number (`seq.fetch_add`). Every handler of the API has written its
  store before it pushes.
* `append`: the pusher appends its event under the lock, after the oldest one went if the journal
  is full.
* `pollState`: the slave reads the sequence number, and is done if it is not above its own.
* `sampleDelta`, `readDelta`: the handler of `/sync/delta` reads the sequence number, then the
  events under the lock. The slave applies them and moves to that number, or asks for a full sync.
* `sampleConfig`, `loadStores`: the handler of `/sync/config` reads the sequence number, then the
  stores. The slave moves to that number.
* `fail`: a request of the slave fails.

Numbers are natural numbers: 2^64 pushes do not occur. `history` and `received` are not in the
code; they say what each number stands for and which events the slave has.

Results:
* `readDelta_covers`: what a delta holds when pushes append in order.
* `received_of_quiet`: when every push appends in order, no delta is read past a number that is
  in flight, and no full sync passes over an event that is in none of its stores, the slave has
  every event below its own number, in every interleaving.

**Deviation.** `push` takes its number before it appends, and `/sync/delta` answers with the
number it read and not with the number of the last event in the answer. A slave that polls between
the two steps of a push moves past the event (`event_lost`), and later deltas start above it.
-/

namespace Runbound.Sync

open Lib List
open Upstreams

/-- A DNS entry, a blacklist entry or a feed: its id, and the other fields, which are only
copied. -/
structure Entry where
  id : Text
  body : Text
  deriving DecidableEq

/-- `SyncOp` (sync.rs:246-289). -/
inductive SyncOp where
  | addDns (entry : Entry)
  | deleteDns (id : Text)
  | addBlacklist (entry : Entry)
  | deleteBlacklist (id : Text)
  | addFeed (feed : Entry)
  | deleteFeed (id : Text)
  | updateFeed (id url : Text)
  | upstream (event : UpstreamEvent)
  | addGlobalBan (ip rule : Text) (expiresSecs : Option ℕ)
  | deleteGlobalBan (ip : Text)
  deriving DecidableEq

/-- The effect of an operation is in a store that `/sync/config` sends: DNS entries, blacklist
and feeds, but not upstreams and bans. -/
def SyncOp.inStores : SyncOp → Bool
  | .addDns _ | .deleteDns _ | .addBlacklist _ | .deleteBlacklist _ => true
  | .addFeed _ | .deleteFeed _ | .updateFeed _ _ => true
  | .upstream _ | .addGlobalBan _ _ _ | .deleteGlobalBan _ => false

/-- `JOURNAL_CAPACITY` (sync.rs:55). -/
def journalCapacity : ℕ := 1000

/-- Where the slave is in its poll. -/
inductive Phase where
  | idle
  | wantDelta
  | deltaSampled (seq : ℕ)
  | wantConfig
  | configSampled (seq : ℕ)
  deriving DecidableEq

/-- `SyncJournal`, with the numbers of the pushes between their two steps. An event is given by
its number. -/
structure Journal where
  history : List SyncOp
  queue : List ℕ
  inFlight : List ℕ
  deriving DecidableEq

/-- `SyncJournal::current_seq` (sync.rs:461-463). -/
def Journal.currentSeq (j : Journal) : ℕ := j.history.length

/-- The master's journal and the slave. -/
structure State where
  journal : Journal
  lastSeq : ℕ
  phase : Phase
  received : List ℕ
  deriving DecidableEq

/-- A new journal, and a slave that starts with a full sync. -/
def State.initial : State :=
  { journal := ⟨[], [], []⟩, lastSeq := 0, phase := .wantConfig, received := [] }

/-- The queue after an event is appended (sync.rs:439-442). -/
def appendEvent (queue : List ℕ) (n : ℕ) : List ℕ :=
  (if queue.length ≥ journalCapacity then queue.tail else queue) ++ [n]

/-- `SyncJournal::delta` (sync.rs:448-459). -/
def delta (queue : List ℕ) (since : ℕ) : Option (List ℕ) :=
  if queue.head?.any (since < ·) then none else some (queue.filter (since ≤ ·))

/-- The events below `seq` whose effect is in the stores that a full sync sends. -/
def Journal.storedBelow (j : Journal) (seq : ℕ) : List ℕ :=
  (List.range seq).filter fun n => j.history[n]?.any SyncOp.inStores

/-- The first step of `SyncJournal::push` (sync.rs:430). -/
def Journal.take (j : Journal) (op : SyncOp) : Journal :=
  { j with history := j.history ++ [op], inFlight := j.inFlight ++ [j.currentSeq] }

/-- The second step of `SyncJournal::push` (sync.rs:435-442). -/
def Journal.append (j : Journal) (n : ℕ) : Journal :=
  { j with queue := appendEvent j.queue n, inFlight := j.inFlight.erase n }

/-- The atomic accesses of the pushers and of the slave. -/
inductive Action where
  | take (op : SyncOp)
  | append (n : ℕ)
  | pollState
  | sampleDelta
  | readDelta
  | sampleConfig
  | loadStores
  | fail
  deriving DecidableEq

/-- One step of a pusher or of the slave, if it is possible. -/
def step (st : State) : Action → Option State
  | .take op => some { st with journal := st.journal.take op }
  | .append n =>
    if n ∈ st.journal.inFlight then some { st with journal := st.journal.append n } else none
  | .pollState =>
    match st.phase with
    | .idle => some { st with phase := if st.journal.currentSeq ≤ st.lastSeq then .idle else .wantDelta }
    | _ => none
  | .sampleDelta =>
    match st.phase with
    | .wantDelta => some { st with phase := .deltaSampled st.journal.currentSeq }
    | _ => none
  | .readDelta =>
    match st.phase with
    | .deltaSampled seq =>
      match delta st.journal.queue st.lastSeq with
      | some events => some { st with
          lastSeq := if seq > st.lastSeq then seq else st.lastSeq
          phase := .idle
          received := st.received ++ events }
      | none => some { st with phase := .wantConfig }
    | _ => none
  | .sampleConfig =>
    match st.phase with
    | .wantConfig => some { st with phase := .configSampled st.journal.currentSeq }
    | _ => none
  | .loadStores =>
    match st.phase with
    | .configSampled seq => some { st with
        lastSeq := seq
        phase := .idle
        received := st.received ++ st.journal.storedBelow st.journal.currentSeq }
    | _ => none
  | .fail =>
    match st.phase with
    | .idle => none
    | _ => some { st with phase := .idle }

/-- A run: any list of steps. -/
def run (st : State) : List Action → Option State
  | [] => some st
  | a :: as => (step st a).bind fun st => run st as

/-! ## Specification -/

/-- The slave has every event below its own number. -/
def Received (st : State) : Prop := ∀ n < st.lastSeq, n ∈ st.received

/-- When a step keeps the slave from moving past an event: pushes append in the order of their
numbers, a delta is read when no number below the sampled one is in flight that the slave does not
have, and a full sync is answered when the stores have every event below the sampled number that
the slave does not have. -/
def Quiet (st : State) : Action → Prop
  | .append n => ∀ m ∈ st.journal.inFlight, n ≤ m
  | .readDelta => ∀ seq, st.phase = .deltaSampled seq →
      ∀ m ∈ st.journal.inFlight, seq ≤ m ∨ m ∈ st.received
  | .loadStores => ∀ seq, st.phase = .configSampled seq →
      ∀ n < seq, n ∈ st.received ∨ st.journal.history[n]?.any SyncOp.inStores = true
  | _ => True

/-- Every step of a run is quiet. -/
def QuietRun (st : State) : List Action → Prop
  | [] => True
  | a :: as => Quiet st a ∧ (step st a).elim True fun st' => QuietRun st' as

/-! ## The order of the journal -/

/-- The journal has the numbers from `a` to `b`, and those from `b` on are in flight. -/
structure InOrder (j : Journal) (a b : ℕ) : Prop where
  le : a ≤ b
  le_seq : b ≤ j.currentSeq
  queue : j.queue = List.range' a (b - a)
  inFlight : j.inFlight = List.range' b (j.currentSeq - b)
  begun : b = 0 ∨ a < b

variable {j : Journal} {st : State} {a b seq : ℕ}

theorem InOrder.take (h : InOrder j a b) (op : SyncOp) : InOrder (j.take op) a b := by
  have hseq : (j.history ++ [op]).length = j.currentSeq + 1 := by simp [Journal.currentSeq]
  have hle := h.le_seq
  refine ⟨h.le, ?_, h.queue, ?_, h.begun⟩
  · show b ≤ (j.history ++ [op]).length
    omega
  · show j.inFlight ++ [j.currentSeq] = List.range' b ((j.history ++ [op]).length - b)
    have hsucc : (j.history ++ [op]).length - b = (j.currentSeq - b) + 1 := by omega
    have hlast : b + 1 * (j.currentSeq - b) = j.currentSeq := by omega
    rw [hsucc, List.range'_concat, hlast, h.inFlight]

/-- The next event to be appended in order is the least one in flight. -/
theorem InOrder.eq_of_least {n : ℕ} (h : InOrder j a b) (hn : n ∈ j.inFlight)
    (hleast : ∀ m ∈ j.inFlight, n ≤ m) : n = b ∧ b < j.currentSeq := by
  rw [h.inFlight, mem_range'_1] at hn
  have hb : b ∈ j.inFlight := by
    rw [h.inFlight, mem_range'_1]
    omega
  have := hleast b hb
  omega

theorem appendEvent_range (hle : a ≤ b) :
    ∃ a', a ≤ a' ∧ a' < b + 1 ∧
      appendEvent (List.range' a (b - a)) b = List.range' a' (b + 1 - a') := by
  rw [appendEvent, length_range']
  split_ifs with hfull
  · have hpos : 0 < journalCapacity := by decide
    obtain ⟨k, hk⟩ : ∃ k, b - a = k + 1 := ⟨b - a - 1, by omega⟩
    refine ⟨a + 1, by omega, by omega, ?_⟩
    have hlen : b + 1 - (a + 1) = k + 1 := by omega
    have hlast : a + 1 + 1 * k = b := by omega
    rw [hk, List.range'_succ, tail_cons, hlen, List.range'_concat, hlast]
  · refine ⟨a, le_rfl, by omega, ?_⟩
    have hlen : b + 1 - a = (b - a) + 1 := by omega
    have hlast : a + 1 * (b - a) = b := by omega
    rw [hlen, List.range'_concat, hlast]

theorem InOrder.append (h : InOrder j a b) (hb : b < j.currentSeq) :
    ∃ a', InOrder (j.append b) a' (b + 1) := by
  obtain ⟨a', -, ha', hqueue⟩ := appendEvent_range h.le
  refine ⟨a', by omega, hb, ?_, ?_, Or.inr ha'⟩
  · show appendEvent j.queue b = _
    rw [h.queue, hqueue]
  · show j.inFlight.erase b = List.range' (b + 1) (j.currentSeq - (b + 1))
    obtain ⟨k, hk⟩ : ∃ k, j.currentSeq - b = k + 1 := ⟨j.currentSeq - b - 1, by omega⟩
    have hlen : j.currentSeq - (b + 1) = k := by omega
    rw [h.inFlight, hk, List.range'_succ, erase_cons_head, hlen]

/-- A delta from `since` has every number from `since` on that was appended. -/
theorem readDelta_covers {since n : ℕ} {events : List ℕ} (h : InOrder j a b)
    (hdelta : delta j.queue since = some events) (hn : since ≤ n) (hb : n < b) : n ∈ events := by
  have ha : a < b := by
    have := h.begun
    omega
  obtain ⟨k, hk⟩ : ∃ k, b - a = k + 1 := ⟨b - a - 1, by omega⟩
  have hqueue := h.queue
  rw [hk, List.range'_succ] at hqueue
  rw [delta, hqueue] at hdelta
  simp only [head?_cons, Option.any_some, decide_eq_true_eq] at hdelta
  split_ifs at hdelta with hfront
  cases hdelta
  rw [← List.range'_succ, mem_filter, mem_range'_1]
  simp only [decide_eq_true_eq]
  omega

/-! ## Runs -/

/-- The numbers that the slave works with have been taken. -/
def Phase.Below (seq : ℕ) : Phase → Prop
  | .deltaSampled s | .configSampled s => s ≤ seq
  | _ => True

theorem Phase.Below.mono {seq' : ℕ} {phase : Phase} (h : phase.Below seq) (hle : seq ≤ seq') :
    phase.Below seq' := by
  cases phase with
  | deltaSampled s => exact le_trans h hle
  | configSampled s => exact le_trans h hle
  | idle | wantDelta | wantConfig => trivial

/-- What holds in every state of a quiet run. -/
structure Inv (st : State) : Prop where
  order : ∃ a b, InOrder st.journal a b
  below : st.phase.Below st.journal.currentSeq
  received : Received st

theorem inv_initial : Inv State.initial :=
  ⟨⟨0, 0, le_rfl, le_rfl, rfl, rfl, Or.inl rfl⟩, trivial, fun n hn => absurd hn (Nat.not_lt_zero n)⟩

theorem received_readDelta (h : Inv st) (hphase : st.phase = .deltaSampled seq)
    (hquiet : Quiet st .readDelta) {events : List ℕ} (hdelta : delta st.journal.queue st.lastSeq = some events) :
    ∀ n < (if seq > st.lastSeq then seq else st.lastSeq), n ∈ st.received ++ events := by
  intro n hn
  obtain ⟨a, b, horder⟩ := h.order
  have hseq : seq ≤ st.journal.currentSeq := by
    have := h.below
    rw [hphase] at this
    exact this
  rw [mem_append]
  by_cases hold : n < st.lastSeq
  · exact Or.inl (h.received n hold)
  · have hnseq : n < seq := by
      split_ifs at hn
      · exact hn
      · omega
    by_cases hb : n < b
    · exact Or.inr (readDelta_covers horder hdelta (by omega) hb)
    · -- the number is in flight
      have hmem : n ∈ st.journal.inFlight := by
        rw [horder.inFlight, mem_range'_1]
        omega
      rcases hquiet seq hphase n hmem with hle | hrec
      · omega
      · exact Or.inl hrec

theorem received_loadStores (h : Inv st)
    (hphase : st.phase = .configSampled seq) (hquiet : Quiet st .loadStores) :
    ∀ n < seq, n ∈ st.received ++ st.journal.storedBelow st.journal.currentSeq := by
  intro n hn
  have hseq : seq ≤ st.journal.currentSeq := by
    have := h.below
    rw [hphase] at this
    exact this
  rw [mem_append]
  rcases hquiet seq hphase n hn with hrec | hstored
  · exact Or.inl hrec
  · refine Or.inr (mem_filter.mpr ⟨mem_range.mpr (by omega), hstored⟩)

theorem inv_step {st' : State} {a : Action} (h : Inv st) (hquiet : Quiet st a)
    (hstep : step st a = some st') : Inv st' := by
  cases a with
  | take op =>
    cases hstep
    obtain ⟨a, b, horder⟩ := h.order
    refine ⟨⟨a, b, horder.take op⟩, h.below.mono ?_, h.received⟩
    simp [Journal.take, Journal.currentSeq]
  | append n =>
    simp only [step] at hstep
    split_ifs at hstep with hmem
    cases hstep
    obtain ⟨a, b, horder⟩ := h.order
    obtain ⟨rfl, hlt⟩ := horder.eq_of_least hmem hquiet
    obtain ⟨a', horder'⟩ := horder.append hlt
    exact ⟨⟨a', n + 1, horder'⟩, h.below, h.received⟩
  | pollState =>
    cases hphase : st.phase <;> simp only [step, hphase] at hstep <;> cases hstep
    refine ⟨h.order, ?_, h.received⟩
    show Phase.Below _ (if st.journal.currentSeq ≤ st.lastSeq then _ else _)
    split_ifs <;> trivial
  | sampleDelta =>
    cases hphase : st.phase <;> simp only [step, hphase] at hstep <;> cases hstep
    exact ⟨h.order, le_refl st.journal.currentSeq, h.received⟩
  | readDelta =>
    cases hphase : st.phase <;> simp only [step, hphase] at hstep <;> try cases hstep
    cases hdelta : delta st.journal.queue st.lastSeq with
    | none =>
      rw [hdelta] at hstep
      cases hstep
      exact ⟨h.order, trivial, h.received⟩
    | some events =>
      rw [hdelta] at hstep
      cases hstep
      exact ⟨h.order, trivial, received_readDelta h hphase hquiet hdelta⟩
  | sampleConfig =>
    cases hphase : st.phase <;> simp only [step, hphase] at hstep <;> cases hstep
    exact ⟨h.order, le_refl st.journal.currentSeq, h.received⟩
  | loadStores =>
    cases hphase : st.phase <;> simp only [step, hphase] at hstep <;> cases hstep
    exact ⟨h.order, trivial, received_loadStores h hphase hquiet⟩
  | fail =>
    cases hphase : st.phase <;> simp only [step, hphase] at hstep <;> cases hstep <;>
      exact ⟨h.order, trivial, h.received⟩

theorem inv_run {st' : State} {as : List Action} (h : Inv st) (hquiet : QuietRun st as)
    (hrun : run st as = some st') : Inv st' := by
  induction as generalizing st with
  | nil =>
    cases hrun
    exact h
  | cons a as ih =>
    obtain ⟨mid, hstep, hrest⟩ := Option.bind_eq_some_iff.mp hrun
    obtain ⟨hnow, hlater⟩ := hquiet
    rw [hstep] at hlater
    exact ih (inv_step h hnow hstep) hlater hrest

/-- In every interleaving whose steps are quiet, the slave has every event below its number. -/
theorem received_of_quiet {as : List Action} {st : State} (hquiet : QuietRun State.initial as)
    (hrun : run State.initial as = some st) : ∀ n < st.lastSeq, n ∈ st.received :=
  (inv_run inv_initial hquiet hrun).received

/-! ## Two interleavings -/

/-- A record is added while the slave is idle, and is in the next delta. -/
def quietPoll : List Action :=
  [.sampleConfig, .loadStores, .take (.deleteDns []), .append 0, .pollState, .sampleDelta,
    .readDelta]

/-- The slave after it. -/
def afterQuietPoll : State :=
  { journal := ⟨[.deleteDns []], [0], []⟩, lastSeq := 1, phase := .idle, received := [0] }

theorem received_quietPoll :
    run State.initial quietPoll = some afterQuietPoll ∧
      ∀ n < afterQuietPoll.lastSeq, n ∈ afterQuietPoll.received := by
  have hrun : run State.initial quietPoll = some afterQuietPoll := by decide +kernel
  have hempty : Quiet (State.mk ⟨[], [], []⟩ 0 (.configSampled 0) []) .loadStores := by
    intro seq hseq n hn
    cases hseq
    omega
  have hread : Quiet (State.mk ⟨[.deleteDns []], [0], []⟩ 0 (.deltaSampled 1) []) .readDelta := by
    intro seq _ m hm
    cases hm
  have hquiet : QuietRun State.initial quietPoll :=
    And.intro trivial <| And.intro hempty <| And.intro trivial <|
      And.intro (fun m _ => Nat.zero_le m) <| And.intro trivial <| And.intro trivial <|
        And.intro hread trivial
  exact ⟨hrun, received_of_quiet hquiet hrun⟩

/-- The slave polls between the two steps of a push: it moves to the number after the event, and
does not have it. The event is in the journal from then on, below every later delta. -/
theorem event_lost :
    ∃ st, run State.initial
        [.sampleConfig, .loadStores, .take (.deleteDns []), .pollState, .sampleDelta, .readDelta,
          .append 0, .pollState] = some st ∧
      st.journal.inFlight = [] ∧ st.phase = .idle ∧ 0 < st.lastSeq ∧ 0 ∉ st.received := by
  refine ⟨{ journal := ⟨[.deleteDns []], [0], []⟩, lastSeq := 1, phase := .idle, received := [] }, by decide +kernel, rfl, rfl, by decide, by decide⟩

end Runbound.Sync
