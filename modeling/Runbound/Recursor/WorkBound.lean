import Runbound.Dnssec.Ideal
import Runbound.Recursor.Descent

/-!
# How many queries one resolution sends

`MAX_QUERIES` (`recursor_wire.rs`) is meant to bound the upstream queries for one user query.
`resolve_message` starts every descent with a budget of its own, though, and `resolve_validated`
makes one for each name of a CNAME chain and several more for each validation.

`countingEnv` is the world of `resolve_validated` with the number of queries that have been sent:
`query_ns_set` takes one from the budget for each.

Results:

* `descend_looping_root`: where every server but the last of a zone is slow and every answer is a
  CNAME for the root, a descent to the root asks all its servers.
* `sent_le_iff`: no behaviour of the servers makes a resolution send more than `MAX_QUERIES`
  queries exactly if the answer is in the cache.
* `looping_exceeds`: the resolution of a single name.
-/

namespace Runbound.Recursor

open Wire Dnssec List Name Option

variable {ω : Type} (net : Net ω) (crypto : Crypto) (instant : ω → ℕ × ω)

/-! ## Counting -/

/-- `recursorEnv` with the number of queries sent. -/
def countingEnv : Env (Infra ω × ℕ) where
  crypto := crypto
  fetch qname qtype s :=
    let r := descend net qname qtype maxQueries s.1
    (r.1, (r.2.2, s.2 + (maxQueries - r.2.1)))
  unixNow s := ((net.unixNow s.1.world).1, ({ s.1 with world := (net.unixNow s.1.world).2 }, s.2))
  instant s := ((instant s.1.world).1, ({ s.1 with world := (instant s.1.world).2 }, s.2))

section

variable (qname : Name) (qtype : U16)

/-- The queries that a resolution sends. -/
def sent (now : U32) (s : Resolver (Infra ω × ℕ)) : ℕ :=
  (resolveValidated (countingEnv net crypto instant) qname qtype now s).2.chain.world.2 -
    s.chain.world.2

/-- The answer is in the cache of validated answers, it has not expired, and none of its TTLs has
    run down. -/
def InCache (s : Resolver (Infra ω × ℕ)) : Prop :=
  ∃ hit, s.validated.find (qname, qtype) = some hit ∧
    (instant s.chain.world.1.world).1 < hit.expiresAt ∧
    (hit.cloneDecremented (Fin.ofNat _
      (min (((instant s.chain.world.1.world).1 - hit.insertedAt) / nanos) u32Max.val))).isSome

end

theorem keeps_sent (m : ℕ) : (countingEnv net crypto instant).Keeps fun s => m ≤ s.2 where
  fetch _ _ _ h := Nat.le_add_right_of_le h
  unixNow _ h := h
  instant _ h := h

/-! ## Servers that keep the resolver going -/

/-- A CNAME for the root. -/
def cnameReply (n : Name) : Message :=
  { answers := [⟨n, Rtype.CNAME, Class.IN, 0, .cname Name.root, rfl⟩] }

/-- Every question is answered with a CNAME for the root; for the root itself only when no server
    is left to ask. -/
def Net.looping : Net ω :=
  { net with wake := fun _ n _ w => (⟨n.isRoot, 0, some (cnameReply n), 0⟩, w) }

variable {net} {n : Name} {t : U16} {s : Infra ω}

/-- One question: the reply comes, after all servers were asked if it is for the root, and after
    two at most if it is not. -/
theorem raceLoop_looping {cold : Bool} (fuel : ℕ) : ∀ (first : Bool) (r : Race) (s : Infra ω),
    r.rest.length < fuel → (r.inflight ≠ [] ∨ r.rest ≠ [] ∧ r.budget > 0) →
    (raceLoop net.looping cold n t fuel first r s).1 = some (cnameReply n) ∧
    (n.isRoot = true → r.rest.length ≤ r.budget →
      (raceLoop net.looping cold n t fuel first r s).2.1 + r.rest.length ≤ r.budget) ∧
    (n.isRoot = false → r.budget ≤ (raceLoop net.looping cold n t fuel first r s).2.1 + 2) := by
  induction fuel with
  | zero =>
    omega
  | succ fuel ih =>
    intro first r s hfuel hask
    have hne := Race.launches_inflight_ne_nil (cold && first) hask
    obtain ⟨hbalance, -, hspend⟩ := r.launches_spec (cold && first)
    have hlt : (r.launches (cold && first)).rest ≠ [] → (r.launches (cold && first)).budget > 0 →
        (r.launches (cold && first)).rest.length < r.rest.length := Race.launches_lt
    rw [raceLoop]
    generalize r.launches (cold && first) = r' at hne hbalance hspend hlt
    simp only
    rw [if_neg hne]
    split_ifs with hhedge
    · have hshort := hlt hhedge.2.1 hhedge.2.2
      obtain ⟨hreply, hall, -⟩ := ih false r' s (by omega) (Or.inl hne)
      refine ⟨hreply, fun hroot hle => ?_, fun hroot => ?_⟩
      · have hrest : (raceLoop net.looping cold n t fuel false r' s).2.1 + r'.rest.length
            ≤ r'.budget := hall hroot (by omega)
        show (raceLoop net.looping cold n t fuel false r' s).2.1 + _ ≤ _
        omega
      · have hasked : n.isRoot = true := hhedge.1
        rw [hroot] at hasked
        cases hasked
    · obtain ⟨ip, ips, hinflight⟩ := exists_cons_of_ne_nil hne
      simp only [Net.looping, hinflight, Nat.zero_mod, getElem?_cons_zero]
      refine ⟨trivial, fun hroot hle => ?_, fun _ => hspend⟩
      -- no server is left, or no budget, which was enough for all of them
      have hend : r'.rest.length = 0 ∨ r'.budget = 0 := by
        by_contra hno
        exact hhedge ⟨hroot, ne_nil_of_length_pos (by omega), by omega⟩
      show r'.budget + _ ≤ _
      omega

theorem queryNsSet_looping (net : Net ω) (n : Name) (t : U16) (s : Infra ω) {ips : List IpAddr}
    {budget : ℕ} (hips : ips ≠ []) (hb : 0 < budget) :
    (queryNsSet net.looping ips n t budget s).1 = some (cnameReply n) ∧
    (n.isRoot = true → ips.length ≤ budget →
      (queryNsSet net.looping ips n t budget s).2.1 + ips.length ≤ budget) ∧
    (n.isRoot = false → budget ≤ (queryNsSet net.looping ips n t budget s).2.1 + 2) := by
  unfold queryNsSet
  simp only
  generalize hsorted : ips.insertionSort (fun a b =>
    (s.rttOf a).getD u32Max ≤ (s.rttOf b).getD u32Max) = sorted
  have hlen : ips.length = sorted.length := by
    rw [← hsorted, length_insertionSort]
  have hne : sorted ≠ [] := by
    rw [← length_pos_iff, ← hlen]
    exact length_pos_of_ne_nil hips
  rw [hlen]
  exact raceLoop_looping _ true ⟨sorted, [], budget⟩ s
    (by show sorted.length < _; omega) (Or.inr ⟨hne, hb⟩)

theorem queryNsSet_nil (net : Net ω) (n : Name) (t : U16) (s : Infra ω) (budget : ℕ) :
    (queryNsSet net [] n t budget s).1 = none ∧
    (queryNsSet net [] n t budget s).2.1 = budget := by
  unfold queryNsSet
  simp [raceLoop, Race.launches, Race.launch]

/-! ## A descent -/

theorem react_cnameReply (q zone : Name) : react q t zone none (cnameReply q) = .terminal := by
  have hanswer : hasAnswer (cnameReply q) q t = true := by
    simp [hasAnswer, cnameReply]
  unfold react
  simp only
  rw [if_pos ⟨trivial, Or.inl hanswer⟩]

theorem react_probe (q zone n : Name) : react q t zone (some n) (cnameReply n) = .fallback := by
  simp [react, referralZone, cnameReply]

theorem isRoot_of_probe {qmin full : Bool} {q zone p : Name} {extra : ℕ}
    (h : probeName qmin q zone extra full = some p) : p.isRoot = false := by
  obtain ⟨-, hlt, hkey⟩ := probeName_eq_some h
  rw [Bool.eq_false_iff]
  intro hroot
  have hlen := congrArg List.length hkey
  rw [key_length, length_take, key_length, Name.labelCount,
    (isRoot_iff p).mp hroot, length_nil] at hlen
  omega

variable {resolveNs : Name → ℕ → Infra ω → Option (List IpAddr) × ℕ × Infra ω} {q : Name}
  {budget : ℕ}

theorem descendLoop_full {d : Descent} (hips : d.ips ≠ []) (hb : 0 < budget) (k : ℕ)
    (hprobe : probeName net.qmin q d.zone d.extra d.full = none) :
    descendLoop net.looping resolveNs q t (k + 1) d budget s =
      (some (cnameReply q), (queryNsSet net.looping d.ips q t budget s).2) := by
  have hreply := (queryNsSet_looping net q t s hips hb).1
  have hprobe' : probeName net.looping.qmin q d.zone d.extra d.full = none := hprobe
  rw [descendLoop]
  simp only [hprobe', sentQuestion, hreply, react_cnameReply]

/-- At a cut with servers the question is answered, after a probe perhaps. -/
theorem descendLoop_looping {d : Descent} (hips : d.ips ≠ []) (hb : 3 ≤ budget) (k : ℕ) :
    (descendLoop net.looping resolveNs q t (k + 2) d budget s).1 = some (cnameReply q) := by
  cases hprobe : probeName net.qmin q d.zone d.extra d.full with
  | none => rw [descendLoop_full hips (by omega) (k + 1) hprobe]
  | some p =>
    obtain ⟨hreply, -, hspend⟩ :=
      queryNsSet_looping net p qminProbeType s hips (show 0 < budget by omega)
    have hleft := hspend (isRoot_of_probe hprobe)
    have hprobe' : probeName net.looping.qmin q d.zone d.extra d.full = some p := hprobe
    rw [descendLoop]
    simp only [hprobe', sentQuestion, hreply, react_probe]
    rw [descendLoop_full (d := { d with fromCache := false, full := true }) hips (by omega) k
      (by simp [probeName])]

theorem rootHints_ne_nil : rootHints ≠ [] := cons_ne_nil _ _

theorem descendWith_looping (s : Infra ω) :
    (descendWith net.looping resolveNs q t maxQueries s).1 = some (cnameReply q) := by
  -- a cut without servers is given up, and the descent starts again from the root
  have hdead : ∀ (d : Descent) (k : ℕ) (s : Infra ω), d.ips = [] → d.fromCache = true →
      probeName net.qmin q d.zone d.extra d.full = none →
      (descendLoop net.looping resolveNs q t (k + 3) d maxQueries s).1 = some (cnameReply q) := by
    intro d k s hips hcache hprobe
    have hprobe' : probeName net.looping.qmin q d.zone d.extra d.full = none := hprobe
    obtain ⟨hnone, hbudget⟩ := queryNsSet_nil net.looping q t s maxQueries
    rw [descendLoop]
    simp only [hprobe', sentQuestion, hips, hcache, hbudget, isSome_none,
      Bool.false_eq_true, if_false, if_true]
    exact descendLoop_looping rootHints_ne_nil (by decide) k
  unfold descendWith
  simp only
  cases (s.cachedStart net.looping q t).1 with
  | none => exact descendLoop_looping rootHints_ne_nil (by decide) 78
  | some start =>
    obtain ⟨zone, ips⟩ := start
    by_cases hips : ips = []
    · subst hips
      cases hprobe : probeName net.qmin q zone 0 false with
      | none => exact hdead _ 77 _ rfl rfl hprobe
      | some p =>
        have hprobe' : probeName net.looping.qmin q zone 0 false = some p := hprobe
        show (descendLoop net.looping resolveNs q t (79 + 1) _ maxQueries _).1 = _
        rw [descendLoop]
        simp only [hprobe', isSome_some, if_true]
        exact hdead _ 76 _ rfl rfl (by simp [probeName])
    · exact descendLoop_looping hips (by decide) 78

theorem queryNsSet_root (s : Infra ω) (hb : 13 ≤ budget) :
    (queryNsSet net.looping rootHints Name.root t budget s).2.1 + 13 ≤ budget := by
  have hask := (queryNsSet_looping net Name.root t s rootHints_ne_nil
    (show 0 < budget by omega)).2.1 rfl
  exact hask hb

theorem cachedStart_root (s : Infra ω) : (s.cachedStart net Name.root t).1 = none := by
  unfold Infra.cachedStart
  split_ifs
  · rfl
  · rfl

theorem probeName_root (qmin : Bool) : probeName qmin Name.root Name.root 0 false = none := by
  simp [probeName, minimised]

theorem descendLoop_root (k : ℕ) (s : Infra ω) (hb : 13 ≤ budget) :
    (descendLoop net.looping resolveNs Name.root t (k + 1) { zone := Name.root, ips := rootHints }
      budget s).2.1 + 13 ≤ budget := by
  have hfull : descendLoop net.looping resolveNs Name.root t (k + 1)
      { zone := Name.root, ips := rootHints } budget s =
        (some (cnameReply Name.root), (queryNsSet net.looping rootHints Name.root t budget s).2) :=
    descendLoop_full rootHints_ne_nil (show 0 < budget by omega) k (probeName_root net.qmin)
  have hroot : (queryNsSet net.looping rootHints Name.root t budget s).2.1 + 13 ≤ budget :=
    queryNsSet_root s hb
  rw [hfull]
  -- the pair is reduced first, or the whole race is unfolded to compare the two sides
  dsimp only
  exact hroot

theorem descend_looping_root (net : Net ω) (t : U16) (s : Infra ω) :
    (descend net.looping Name.root t maxQueries s).2.1 + 13 ≤ maxQueries := by
  have hroom : 13 ≤ maxQueries := by decide
  unfold descend descendWith
  simp only [cachedStart_root]
  -- the number of passes is not evaluated
  generalize maxQueries = m at hroom ⊢
  cases m with
  | zero => omega
  | succ k => exact descendLoop_root k _ hroom

/-! ## A resolution -/

theorem hopCname_cnameReply (q : Name) :
    ∃ cn, hopCname (cnameReply q) q = some (cn, Name.root) := by
  simp [hopCname, cnameReply]

variable (net)

theorem fetch_looping (q : Name) (t : U16) (s : State (Infra ω × ℕ)) :
    (s.fetch (countingEnv net.looping crypto instant).toEnv q t).1 = some (cnameReply q) ∧
      s.world.2 ≤ (s.fetch (countingEnv net.looping crypto instant).toEnv q t).2.world.2 ∧
      (q = Name.root → s.world.2 + 13 ≤
        (s.fetch (countingEnv net.looping crypto instant).toEnv q t).2.world.2) := by
  refine ⟨descendWith_looping s.world.1, Nat.le_add_right _ _, ?_⟩
  rintro rfl
  have hcost := descend_looping_root net t s.world.1
  show s.world.2 + 13 ≤ s.world.2 + (maxQueries - _)
  omega

section

variable (key : Name × U16) (now : U32)

/-- One hop: the chase ends, or it goes on with the root. -/
theorem chase_looping (k : ℕ) (q : Name)
    (records rrsigs : List Record) (verdict : Verdict) (s : Resolver (Infra ω × ℕ)) :
    ∃ s' : Resolver (Infra ω × ℕ), s.chain.world.2 ≤ s'.chain.world.2 ∧
      (q = Name.root → s.chain.world.2 + 13 ≤ s'.chain.world.2) ∧
      (k = 0 ∧ (chase (countingEnv net.looping crypto instant) key now k q records rrsigs verdict
          s).2 = s' ∨
        ∃ m records' rrsigs' verdict', k = m + 1 ∧
          chase (countingEnv net.looping crypto instant) key now k q records rrsigs verdict s =
            chase (countingEnv net.looping crypto instant) key now m Name.root records' rrsigs'
              verdict' s') := by
  obtain ⟨hreply, hmore, hcost⟩ := fetch_looping net crypto instant q key.2 s.chain
  rcases chase_cases (countingEnv net.looping crypto instant) key now k q records rrsigs verdict s
    with ⟨hnone, -⟩ | ⟨hop, -, hfetch, hcase⟩
  · rw [hreply] at hnone
    cases hnone
  · rw [hfetch] at hreply hmore hcost
    obtain ⟨cn, hcn⟩ := hopCname_cnameReply q
    rw [← Option.some.inj hreply] at hcn
    refine ⟨{ s with chain := hop.after (countingEnv net.looping crypto instant),
                     log := hop :: s.log }, (keeps_sent net.looping crypto instant _).after hmore,
      fun hroot => (keeps_sent net.looping crypto instant _).after (hcost hroot), ?_⟩
    rcases hcase with ⟨_, _, hzero, -, hrun⟩ | ⟨_, next, m, hm, hnext, hrun⟩ | ⟨hnone, -⟩
    · exact Or.inl ⟨hzero, congrArg Prod.snd hrun⟩
    · rw [hcn] at hnext
      obtain ⟨rfl, rfl⟩ := Prod.mk.inj (Option.some.inj hnext)
      exact Or.inr ⟨m, _, _, _, hm, hrun⟩
    · rw [hcn] at hnone
      cases hnone

/-- A chase that has come to the root asks all servers of the root for every CNAME it may still
    follow. -/
theorem chase_looping_root (k : ℕ) :
    ∀ (records rrsigs : List Record) (verdict : Verdict) (s : Resolver (Infra ω × ℕ)),
      s.chain.world.2 + 13 * (k + 1) ≤
        (chase (countingEnv net.looping crypto instant) key now k Name.root records rrsigs verdict
          s).2.chain.world.2 := by
  induction k with
  | zero =>
    intro records rrsigs verdict s
    obtain ⟨s', -, hcost, ⟨-, hend⟩ | ⟨m, _, _, _, hm, -⟩⟩ :=
      chase_looping net crypto instant key now 0 Name.root records rrsigs verdict s
    · rw [hend]
      exact hcost rfl
    · cases hm
  | succ k ih =>
    intro records rrsigs verdict s
    obtain ⟨s', -, hcost, ⟨hzero, -⟩ | ⟨m, records', rrsigs', verdict', hm, hrun⟩⟩ :=
      chase_looping net crypto instant key now (k + 1) Name.root records rrsigs verdict s
    · cases hzero
    · obtain rfl : k = m := Nat.succ.inj hm
      rw [hrun]
      have hcost := hcost rfl
      have hrest := ih records' rrsigs' verdict' s'
      omega

/-- Whatever was asked for, the chase sends more than `MAX_QUERIES` queries. -/
theorem chase_looping_exceeds (q : Name)
    (s : Resolver (Infra ω × ℕ)) :
    s.chain.world.2 + maxQueries <
      (chase (countingEnv net.looping crypto instant) key now maxCname q [] [] .secure
        s).2.chain.world.2 := by
  have hcname : maxCname = 12 := rfl
  have hmax : maxQueries = 80 := rfl
  obtain ⟨s', hmore, -, ⟨hzero, -⟩ | ⟨m, records, rrsigs, verdict, hm, hrun⟩⟩ :=
    chase_looping net crypto instant key now maxCname q [] [] .secure s
  · omega
  · have hrest := chase_looping_root net crypto instant key now m records rrsigs verdict s'
    rw [hrun]
    omega

end

/-- No behaviour of the servers makes the resolution of a query send more than `MAX_QUERIES`
    queries exactly if its answer is in the cache, and none is sent. -/
theorem sent_le_iff (q : Name) (t : U16) (now : U32) (s : Resolver (Infra ω × ℕ)) :
    (∀ wake, sent { net with wake } crypto instant q t now s ≤ maxQueries) ↔
      InCache instant q t s := by
  constructor
  · intro h
    have hle : sent net.looping crypto instant q t now s ≤ maxQueries := h _
    by_contra hmiss
    rw [sent, resolveValidated] at hle
    cases hfind : s.validated.find (q, t) with
    | none =>
      simp only [hfind] at hle
      have hmore := chase_looping_exceeds net crypto instant (q, t) now q s
      omega
    | some hit =>
      simp only [hfind] at hle
      split at hle
      · rename_i v hserved
        split_ifs at hserved with hlive
        exact hmiss ⟨hit, hfind, hlive, isSome_iff_exists.mpr ⟨v, hserved⟩⟩
      · have hmore := chase_looping_exceeds net crypto instant (q, t) now q
          { s with
            chain := { s.chain with
              world := ((countingEnv net.looping crypto instant).instant s.chain.world).2 }
            validated := s.validated.remove (q, t) }
        have hclock : ((countingEnv net.looping crypto instant).instant s.chain.world).2.2 =
            s.chain.world.2 := rfl
        simp only [hclock] at hmore
        omega
  · rintro ⟨hit, hfind, hlive, hserved⟩ wake
    obtain ⟨v, hv⟩ := isSome_iff_exists.mp hserved
    rw [sent, resolveValidated]
    simp only [hfind]
    split
    · show s.chain.world.2 - s.chain.world.2 ≤ maxQueries
      omega
    · rename_i hnone
      split_ifs at hnone with hexpired
      · exact absurd (hv.symm.trans hnone) (some_ne_none v)
      · contradiction

/-- A world without replies, to which `Net.looping` gives those of its own. -/
def muteNet : Net Unit :=
  { qmin := true, unixNow := fun w => (0, w), wake := fun _ _ _ w => (⟨true, 0, none, 0⟩, w) }

/-- A resolver that knows nothing, asked for `a. A`: the servers of the root answer with a CNAME
    for the root, slowly. -/
theorem looping_exceeds :
    maxQueries < sent muteNet.looping (idealCrypto [] []) (fun w => (0, w)) nameA Rtype.A 0
      { chain := { world := ({ world := () }, 0) } } := by
  have hmore := chase_looping_exceeds muteNet (idealCrypto [] []) (fun w => (0, w))
    (nameA, Rtype.A) 0 nameA { chain := { world := ({ world := () }, 0) } }
  exact hmore

end Runbound.Recursor
