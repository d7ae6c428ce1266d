import Runbound.Recursor.World

/-!
# The descent among honest servers

Whatever the network does, a descent among honest servers keeps its cut on the way to the
name, learns only cuts of the world, and, within its limits, hands back a message that says
what the world holds at the name.

* `queryNsSet_replies`: one question to the servers of a zone.
* `descendWith_does`: a whole descent, whatever its replies are good for.
* `resolveMessage_honest`, `resolveMessage_returns`: a fetch.
-/

namespace Runbound.Recursor

open Wire Dnssec List Rtype Rcode Name

variable {ω : Type} {net : Net ω} {W : World}
  {resolveNs : Name → ℕ → Infra ω → Option (List IpAddr) × ℕ × Infra ω}

/-! ## One question -/

namespace Race

variable {r : Race}

theorem mem_launch {ip : IpAddr} (h : ip ∈ r.launch.rest ∨ ip ∈ r.launch.inflight) :
    ip ∈ r.rest ∨ ip ∈ r.inflight := by
  unfold launch at h
  grind

/-- A launch takes a query for the server it asks, and it asks one if it can. -/
theorem launch_spec (r : Race) :
    r.budget + r.launch.rest.length = r.launch.budget + r.rest.length ∧
      r.launch.budget ≤ r.budget ∧ r.budget ≤ r.launch.budget + 1 ∧
      (r.inflight ≠ [] → r.launch.inflight ≠ []) ∧
      (r.rest ≠ [] → 0 < r.budget → r.launch.inflight ≠ [] ∧ r.launch.budget < r.budget) := by
  unfold launch
  split
  · rename_i hrest
    simp [hrest]
  · rename_i ip rest hrest
    split_ifs <;> simp [hrest] <;> omega

theorem launches_spec (r : Race) (two : Bool) :
    r.budget + (r.launches two).rest.length = (r.launches two).budget + r.rest.length ∧
      (r.launches two).budget ≤ r.launch.budget ∧ r.budget ≤ (r.launches two).budget + 2 := by
  have h := r.launch_spec
  have h' := r.launch.launch_spec
  unfold launches
  split_ifs <;> omega

theorem mem_launches {two : Bool} {ip : IpAddr}
    (h : ip ∈ (r.launches two).rest ∨ ip ∈ (r.launches two).inflight) :
    ip ∈ r.rest ∨ ip ∈ r.inflight := by
  unfold launches at h
  split_ifs at h
  · exact mem_launch (mem_launch h)
  · exact mem_launch h

theorem launches_inflight_ne_nil (two : Bool) (h : r.inflight ≠ [] ∨ r.rest ≠ [] ∧ r.budget > 0) :
    (r.launches two).inflight ≠ [] := by
  obtain ⟨-, -, -, hkept, hasked⟩ := r.launch_spec
  have hone : r.launch.inflight ≠ [] := h.elim hkept fun h => (hasked h.1 h.2).1
  unfold launches
  split_ifs
  · exact r.launch.launch_spec.2.2.2.1 hone
  · exact hone

theorem launches_lt {two : Bool} (hr : (r.launches two).rest ≠ [])
    (hb : (r.launches two).budget > 0) :
    (r.launches two).rest.length < r.rest.length := by
  have h := r.launches_spec two
  have hlen := length_pos_of_ne_nil hr
  have hrest : r.rest ≠ [] := ne_nil_of_length_pos (by have := r.launch_spec; omega)
  have := (r.launch_spec.2.2.2.2 hrest (by have := r.launch_spec; omega)).2
  omega

end Race

section

variable {zone n : Name} {t : U16} {cold : Bool}

/-- The loop touches no cut, keeps of the outside what every wait for its servers keeps, and
    what it returns is the reply of one of them. -/
theorem raceLoop_keeps {P : IpAddr → Prop} {L : ω → Prop} {Q : Message → Prop}
    (hwake : ∀ (inflight : List IpAddr) (w : ω), (∀ ip ∈ inflight, P ip) → L w →
      L (net.wake inflight n t w).2 ∧ ∀ ip msg,
        inflight[(net.wake inflight n t w).1.index % inflight.length]? = some ip →
        (net.wake inflight n t w).1.reply = some msg → Q msg) :
    ∀ (fuel : ℕ) (first : Bool) (r : Race) (s : Infra ω),
      (∀ ip, ip ∈ r.rest ∨ ip ∈ r.inflight → P ip) → L s.world →
      (raceLoop net cold n t fuel first r s).2.2.cuts = s.cuts ∧
      L (raceLoop net cold n t fuel first r s).2.2.world ∧
      ∀ msg, (raceLoop net cold n t fuel first r s).1 = some msg → Q msg := by
  intro fuel
  induction fuel with
  | zero =>
    intro first r s _ hs
    exact ⟨rfl, hs, nofun⟩
  | succ fuel ih =>
    intro first r s hP hs
    have hP' : ∀ ip, ip ∈ (r.launches (cold && first)).rest ∨
        ip ∈ (r.launches (cold && first)).inflight → P ip :=
      fun ip hip => hP ip (Race.mem_launches hip)
    rw [raceLoop]
    generalize r.launches (cold && first) = r' at hP' ⊢
    obtain ⟨hs', hQ⟩ := hwake r'.inflight s.world (fun ip hip => hP' ip (Or.inr hip)) hs
    simp only
    split_ifs
    · exact ⟨rfl, hs, nofun⟩
    · exact ih false r' _ hP' hs'
    · split
      · rename_i msg ip hreply hip
        refine ⟨rfl, hs', fun msg' hmsg' => ?_⟩
        obtain rfl : msg = msg' := Option.some.inj hmsg'
        exact hQ ip msg hip hreply
      · refine ih false _ _ (fun ip hip => hP' ip ?_) hs'
        exact hip.imp_right fun h => mem_of_mem_eraseIdx h

/-- While servers are left that the budget allows to ask, or are in flight, the loop returns a
    reply. -/
theorem raceLoop_returns (hnet : net.Answers) :
    ∀ (fuel : ℕ) (first : Bool) (r : Race) (s : Infra ω), r.rest.length < fuel →
      (r.inflight ≠ [] ∨ r.rest ≠ [] ∧ r.budget > 0) →
      ∃ msg, (raceLoop net cold n t fuel first r s).1 = some msg := by
  intro fuel
  induction fuel with
  | zero =>
    omega
  | succ fuel ih =>
    intro first r s hfuel hleft
    have hne := Race.launches_inflight_ne_nil (cold && first) hleft
    have hlt := @Race.launches_lt r (cold && first)
    rw [raceLoop]
    generalize r.launches (cold && first) = r' at hne hlt ⊢
    simp only
    rw [if_neg hne]
    split_ifs with hedge
    · have := hlt hedge.2.1 hedge.2.2
      exact ih false r' _ (by omega) (Or.inr hedge.2)
    · have hindex := Nat.mod_lt (net.wake r'.inflight n t s.world).1.index
        (length_pos_of_ne_nil hne)
      obtain ⟨msg, hmsg⟩ := hnet r'.inflight n t s.world _ (getElem?_eq_getElem hindex)
      rw [hmsg, getElem?_eq_getElem hindex]
      exact ⟨msg, rfl⟩

/-- What the loop spends of the budget: at most a query for each server, and at least one if it
    runs and there is one to ask. -/
theorem raceLoop_budget :
    ∀ (fuel : ℕ) (first : Bool) (r : Race) (s : Infra ω),
      ((raceLoop net cold n t fuel first r s).2.1 ≤ r.budget ∧
        r.budget ≤ (raceLoop net cold n t fuel first r s).2.1 + r.rest.length) ∧
      (0 < fuel → (raceLoop net cold n t fuel first r s).2.1 ≤ r.launch.budget) := by
  intro fuel
  induction fuel with
  | zero =>
    intro first r s
    exact ⟨⟨le_rfl, Nat.le_add_right _ _⟩, fun h => absurd h (lt_irrefl 0)⟩
  | succ fuel ih =>
    intro first r s
    have hlaunches := r.launches_spec (cold && first)
    have hone := r.launch_spec.2.1
    suffices h : (raceLoop net cold n t (fuel + 1) first r s).2.1 ≤
          (r.launches (cold && first)).budget ∧
        (r.launches (cold && first)).budget ≤ (raceLoop net cold n t (fuel + 1) first r s).2.1 +
          (r.launches (cold && first)).rest.length by omega
    rw [raceLoop]
    generalize r.launches (cold && first) = r'
    simp only
    split_ifs
    · simp
    · exact (ih false r' _).1
    · split
      · simp
      · exact (ih false { r' with inflight := r'.inflight.eraseIdx _ } _).1

variable {ips : List IpAddr} {budget : ℕ} {s : Infra ω}

theorem queryNsSet_keeps {P : IpAddr → Prop} {L : ω → Prop} {Q : Message → Prop}
    (hwake : ∀ (inflight : List IpAddr) (w : ω), (∀ ip ∈ inflight, P ip) → L w →
      L (net.wake inflight n t w).2 ∧ ∀ ip msg,
        inflight[(net.wake inflight n t w).1.index % inflight.length]? = some ip →
        (net.wake inflight n t w).1.reply = some msg → Q msg)
    (hP : ∀ ip ∈ ips, P ip) (hs : L s.world) :
    (queryNsSet net ips n t budget s).2.2.cuts = s.cuts ∧
      L (queryNsSet net ips n t budget s).2.2.world ∧
      ∀ msg, (queryNsSet net ips n t budget s).1 = some msg → Q msg := by
  refine raceLoop_keeps hwake _ _ _ _ (fun ip hip => ?_) hs
  rcases hip with hip | hip
  · exact hP ip ((mem_insertionSort _).mp hip)
  · cases hip

theorem queryNsSet_budget_le : (queryNsSet net ips n t budget s).2.1 ≤ budget :=
  (raceLoop_budget _ _ _ _).1.1

theorem queryNsSet_returns (hnet : net.Answers) (hne : ips ≠ []) (hb : 0 < budget) :
    (∃ msg, (queryNsSet net ips n t budget s).1 = some msg) ∧
      (queryNsSet net ips n t budget s).2.1 < budget := by
  have hrest : ips.insertionSort (fun a b => (s.rttOf a).getD u32Max ≤ (s.rttOf b).getD u32Max) ≠
      [] := by
    rw [← length_pos_iff, length_insertionSort]
    exact length_pos_of_ne_nil hne
  constructor
  · exact raceLoop_returns hnet _ _ _ _ (by rw [length_insertionSort]; omega) (Or.inr ⟨hrest, hb⟩)
  · refine lt_of_le_of_lt ((raceLoop_budget _ _ _ _).2 (Nat.succ_pos _)) ?_
    exact ((Race.launch_spec _).2.2.2.2 hrest hb).2

/-- Whatever the network does, a question costs at most a query for each server. -/
theorem spends_width (net : Net ω) (W : World) : net.Spends W W.width := by
  intro zone n t ips budget s _ hwidth
  have hsorted : ∀ (cold : Bool) (fuel : ℕ) (sorted : List IpAddr), sorted.length = ips.length →
      budget ≤ (raceLoop net cold n t fuel true { rest := sorted, budget } s).2.1 +
        W.width zone.key := by
    intro cold fuel sorted hlen
    have h := (@raceLoop_budget ω net n t cold fuel true { rest := sorted, budget } s).1.2
    dsimp only at h
    omega
  exact hsorted _ _ _ (length_insertionSort _ _)

end

/-! ## The names that are sent -/

theorem labels_dropLabels : ∀ (k : ℕ) (n : Name), (dropLabels k n).labels = n.labels.drop k := by
  intro k
  induction k with
  | zero =>
    intro n
    rfl
  | succ k ih =>
    rintro ⟨ls, hls⟩
    cases ls with
    | nil => rfl
    | cons l ls => exact ih ⟨ls, hls.tail⟩

theorem key_dropLabels (k : ℕ) (n : Name) :
    (dropLabels k n).key = n.key.take (n.labelCount - k) := by
  have hlen : n.labelsLower.length = n.labelCount := by
    rw [Name.labelsLower, length_map]
    rfl
  rw [Name.key, Name.key, Name.labelsLower, labels_dropLabels, map_drop, ← Name.labelsLower,
    ← hlen, reverse_drop]

theorem minimised_cases (q zone : Name) (extra : ℕ) :
    minimised q zone extra = q ∨ zone.labelCount + 1 + extra < q.labelCount ∧
      (minimised q zone extra).key = q.key.take (zone.labelCount + 1 + extra) := by
  unfold minimised
  simp only
  split_ifs with h
  · exact Or.inl rfl
  · have hlt := not_le.mp (not_or.mp h).2
    refine Or.inr ⟨hlt, ?_⟩
    rw [key_dropLabels, Nat.sub_sub_self hlt.le]

theorem probeName_eq_some {qmin full : Bool} {q zone p : Name} {extra : ℕ}
    (h : probeName qmin q zone extra full = some p) :
    full = false ∧ zone.labelCount + 1 + extra < q.labelCount ∧
      p.key = q.key.take (zone.labelCount + 1 + extra) := by
  unfold probeName at h
  simp only at h
  split_ifs at h with hp
  obtain rfl := Option.some.inj h
  simp only [Bool.and_eq_true, Bool.not_eq_true'] at hp
  rcases minimised_cases q zone extra with heq | hlt
  · rw [heq, eqIgnoreAsciiCase_refl] at hp
    exact absurd hp.2 (by decide)
  · exact ⟨hp.1.2, hlt⟩

/-- What is sent at a cut may be asked there, and is for the name in question or above it. -/
theorem mayAsk_sent {q zone : Name} {t : U16} (qmin : Bool) (extra : ℕ) (full : Bool)
    (h : MayAsk zone q t) :
    MayAsk zone (sentQuestion q t (probeName qmin q zone extra full)).1
        (sentQuestion q t (probeName qmin q zone extra full)).2 ∧
      (sentQuestion q t (probeName qmin q zone extra full)).1.key <+: q.key := by
  cases hp : probeName qmin q zone extra full with
  | none => exact ⟨h, prefix_rfl⟩
  | some p =>
    obtain ⟨-, hlt, hkey⟩ := probeName_eq_some hp
    have hzone : zone.key = q.key.take zone.labelCount := by
      rw [← key_length]
      exact prefix_iff_eq_take.mp h.1
    refine ⟨⟨?_, fun hds => absurd hds (show qminProbeType ≠ DS by decide)⟩, ?_⟩
    · show zone.key <+: p.key
      rw [hkey, hzone]
      exact take_prefix_take_left (by omega)
    · show p.key <+: q.key
      rw [hkey]
      exact List.take_prefix _ _

/-! ## The reaction to an honest reply -/

section

variable {q zone next n : Name} {t t' : U16} {probe : Option Name} {msg : Message}

theorem react_spec (q : Name) (t : U16) (zone : Name) (probe : Option Name) (msg : Message) :
    match react q t zone probe msg with
    | .terminal => probe = none ∧ (hasAnswer msg q t = true ∨
        msg.header.rcodeLow = NXDOMAIN ∨ referralZone msg q zone = none)
    | .referral next => referralZone msg q zone = some next
    | .fallback => probe ≠ none
    | .lengthen => probe ≠ none := by
  unfold react
  simp only
  split_ifs with hdone
  · exact ⟨hdone.1, hdone.2.imp_right Or.inl⟩
  · cases referralZone msg q zone with
    | some z => rfl
    | none =>
      cases probe with
      | none => exact ⟨rfl, Or.inr (Or.inr rfl)⟩
      | some p =>
        dsimp only
        split_ifs <;> exact Option.some_ne_none p

theorem referralZone_of_react (h : react q t zone probe msg = .referral next) :
    referralZone msg q zone = some next := by
  have hspec := react_spec q t zone probe msg
  rw [h] at hspec
  exact hspec

theorem react_terminal_cases (h : react q t zone probe msg = .terminal) :
    probe = none ∧ (hasAnswer msg q t = true ∨ msg.header.rcodeLow = NXDOMAIN ∨
      referralZone msg q zone = none) := by
  have hspec := react_spec q t zone probe msg
  rw [h] at hspec
  exact hspec

/-- A referral that is followed is one of the reply's NS records, and not of the zone itself. -/
theorem of_referralZone {D : Name → Prop}
    (hns : ∀ r ∈ msg.authority, r.rtype = NS → r.name.key = zone.key ∨ D r.name)
    (h : referralZone msg q zone = some next) : D next := by
  have hmem := mem_of_find?_eq_some h
  have hp := find?_some h
  obtain ⟨r, hr, rfl⟩ := mem_map.mp hmem
  rw [mem_filter, decide_eq_true_eq] at hr
  simp only [Bool.and_eq_true] at hp
  refine (hns r hr.1 hr.2).resolve_left fun heq => ?_
  rw [eqIgnoreAsciiCase_iff.mpr heq] at hp
  exact absurd hp.2 (by decide)

theorem referralZone_ne_none {d : Name} (hd : Refers W zone n t' msg d) (hn : n.key <+: q.key) :
    referralZone msg q zone ≠ none := by
  obtain ⟨r, hr, ht, hkey⟩ := hd.ns
  intro hnone
  have hmem : r.name ∈ (msg.authority.filter fun r => r.rtype = NS).map Record.name :=
    mem_map_of_mem (mem_filter.mpr ⟨hr, by simpa using ht⟩)
  have hfalse := find?_eq_none.mp hnone _ hmem
  have hin : q.isInZone r.name = true := by
    rw [isInZone_iff, hkey]
    exact hd.encloses.trans hn
  have hbelow : r.name.isInZone zone = true := by
    rw [isInZone_iff, hkey]
    exact hd.below.1
  have hne : r.name.eqIgnoreAsciiCase zone = false := by
    rw [← Bool.not_eq_true, eqIgnoreAsciiCase_iff, hkey]
    exact hd.below.2.symm
  exact hfalse (by rw [hin, hbelow, hne]; rfl)

theorem of_react_terminal {C : Prop}
    (hm : C ∨ msg.answers = [] ∧ msg.header.rcodeLow = NOERROR ∧ ∃ d, Refers W zone q t msg d)
    (h : react q t zone none msg = .terminal) : C := by
  refine hm.resolve_right ?_
  rintro ⟨hanswers, hrc, d, hd⟩
  rcases (react_terminal_cases h).2 with hans | hnx | hnone
  · rw [hasAnswer, hanswers] at hans
    cases hans
  · rw [hrc] at hnx
    exact absurd hnx (by decide)
  · exact referralZone_ne_none hd prefix_rfl hnone

theorem mayAsk_of_refers {qmin full : Bool} {extra : ℕ} (hask : MayAsk zone q t)
    (hd : Refers W zone (sentQuestion q t (probeName qmin q zone extra full)).1
      (sentQuestion q t (probeName qmin q zone extra full)).2 msg next) : MayAsk next q t := by
  refine ⟨hd.encloses.trans (mayAsk_sent _ _ _ hask).2, fun ht heq => ?_⟩
  cases hp : probeName qmin q zone extra full with
  | none =>
    rw [hp] at hd
    exact absurd heq (hd.parent_ds ht)
  | some p =>
    -- a probe is for a name above, and so is what it is referred to
    rw [hp] at hd
    obtain ⟨-, hlt, hkey⟩ := probeName_eq_some hp
    have hlen := hd.encloses.length_le
    rw [heq] at hlen
    change q.key.length ≤ p.key.length at hlen
    rw [hkey, length_take, key_length] at hlen
    omega

end

/-! ## The cuts of the world -/

/-- Addresses of servers of a zone of the world. -/
structure CutOf (W : World) (key : List Bytes) (ips : List IpAddr) : Prop where
  apex : key ∈ W.apexes
  ne_nil : ips ≠ []
  serves : ∀ ip ∈ ips, W.serves ip key
  width : ips.length ≤ W.width key

theorem cutOf_root (W : World) : CutOf W Name.root.key rootHints :=
  ⟨W.root_apex, by decide, W.root_serves, W.root_width⟩

theorem Delegates.cutOf {zone n d : Name} {t : U16} {msg : Message}
    (h : Delegates W zone n t msg d) : CutOf W d.key (Recursor.glue msg (nsNames msg d)) :=
  ⟨h.apex, h.glue, h.serves, h.width⟩

theorem mayAsk_root (q : Name) (t : U16) : MayAsk Name.root q t :=
  ⟨List.nil_prefix, fun _ h => h.symm⟩

theorem World.cutsBelow_le (above : ℕ) (n : Name) : W.cutsBelow above n ≤ W.cutsBelow 0 n := by
  refine Finset.card_le_card (Finset.monotone_filter_right _ fun k _ hk => ?_)
  exact ⟨Nat.zero_le k, hk.2⟩

theorem World.cutsBelow_lt {above : ℕ} {n d : Name} (hd : d.key ∈ W.apexes)
    (hn : d.key <+: n.key) (h : above < d.key.length) :
    W.cutsBelow d.key.length n < W.cutsBelow above n := by
  have hle := hn.length_le
  refine Finset.card_lt_card (Finset.ssubset_iff_of_subset ?_ |>.mpr ⟨d.key.length - 1, ?_, ?_⟩)
  · refine Finset.monotone_filter_right _ fun k _ hk => ?_
    exact ⟨h.le.trans hk.1, hk.2⟩
  · rw [Finset.mem_filter, Finset.mem_range, Nat.sub_add_cancel (by omega),
      ← prefix_iff_eq_take.mp hn]
    exact ⟨by omega, by omega, hd⟩
  · rw [Finset.mem_filter]
    omega

/-! ## What a run keeps -/

/-- `L` survives the clock, and every wait for servers of a zone that encloses the name they are
    asked for. -/
structure Watches (net : Net ω) (W : World) (L : ω → Prop) : Prop where
  wake : ∀ zone ∈ W.apexes, ∀ (inflight : List IpAddr) (n : Name) (t : U16) (w : ω),
    zone <+: n.key → (∀ ip ∈ inflight, W.serves ip zone) → L w → L (net.wake inflight n t w).2
  clock : ∀ w, L w → L (net.unixNow w).2

theorem watches_true (net : Net ω) (W : World) : Watches net W fun _ => True :=
  ⟨fun _ _ _ _ _ _ _ _ _ => trivial, fun _ _ => trivial⟩

/-- The learned cuts are those of the world, and `L` holds. -/
structure Kept (W : World) (L : ω → Prop) (s : Infra ω) : Prop where
  cuts : s.CutsAll (CutOf W)
  world : L s.world

/-- What a computation with a budget does: it keeps the state, spends from the budget, returns
    only what is `good`, and if `sure` holds and something of the budget is left, returns. -/
structure Does {α : Type} (W : World) (L : ω → Prop) (budget : ℕ) (good : α → Prop) (sure : Prop)
    (out : Option α × ℕ × Infra ω) : Prop where
  kept : Kept W L out.2.2
  spent : out.2.1 ≤ budget
  good : ∀ a, out.1 = some a → good a
  returns : sure → out.2.1 ≠ 0 → out.1 ≠ none

section

variable {L : ω → Prop} {s : Infra ω} {budget depth : ℕ} {zone n q : Name} {t : U16}

theorem Does.none {α : Type} {good : α → Prop} {b : ℕ} {sure : Prop} (hs : Kept W L s)
    (hb : b ≤ budget) (h : sure → b = 0) : Does W L budget good sure (none, b, s) :=
  ⟨hs, hb, fun _ ha => (by cases ha), fun hsure hleft => absurd (h hsure) hleft⟩

theorem Does.mono {α : Type} {good : α → Prop} {b : ℕ} {sure sure' : Prop}
    {out : Option α × ℕ × Infra ω} (h : Does W L b good sure out) (hb : b ≤ budget)
    (hsure : sure' → out.2.1 ≠ 0 → sure) : Does W L budget good sure' out :=
  ⟨h.kept, h.spent.trans hb, h.good, fun h' hleft => h.returns (hsure h' hleft) hleft⟩

theorem Kept.learn (hL : Watches net W L) (hs : Kept W L s) {ips : List IpAddr}
    (hcut : CutOf W zone.key ips) (ttl : U32) : Kept W L (s.zoneCutLearn net zone ips ttl) := by
  refine ⟨hs.cuts.learn hcut ttl, ?_⟩
  unfold Infra.zoneCutLearn
  split_ifs
  · exact hs.world
  · exact hL.clock _ hs.world

/-- One question to servers of a zone touches no cut, and the reply is that of such a server. -/
theorem queryNsSet_replies {R : Name → Name → U16 → Message → Prop} (hnet : net.RepliesWith W R)
    (hL : Watches net W L) {ips : List IpAddr} (hask : MayAsk zone n t)
    (hcut : CutOf W zone.key ips) (hs : L s.world) :
    (queryNsSet net ips n t budget s).2.2.cuts = s.cuts ∧
      L (queryNsSet net ips n t budget s).2.2.world ∧
      ∀ msg, (queryNsSet net ips n t budget s).1 = some msg → R zone n t msg := by
  refine @queryNsSet_keeps ω net n t ips budget s (fun ip => W.serves ip zone.key) L (R zone n t)
    (fun inflight w hin hw => ⟨hL.wake _ hcut.apex _ _ _ _ hask.1 hin hw, ?_⟩) hcut.serves hs
  intro ip msg hip hmsg
  obtain ⟨m, hm, hzone⟩ := hnet inflight n t w ip hip
  obtain rfl : m = msg := Option.some.inj (hm.symm.trans hmsg)
  exact hzone zone (hin ip (mem_of_getElem? hip)) hask

/-! ## The loop -/

/-- The servers of `next`, to which the reply refers, are found with a budget of at most
    `depth`. -/
def Finds (W : World) (L : ω → Prop)
    (resolveNs : Name → ℕ → Infra ω → Option (List IpAddr) × ℕ × Infra ω) (depth : ℕ)
    (msg : Message) (next : Name) : Prop :=
  ∀ (budget : ℕ) (s : Infra ω), budget ≤ depth → budget ≤ maxQueries → Kept W L s →
    Does W L budget (CutOf W next.key) True
      (if glue msg (nsNames msg next) ≠ [] then (some (glue msg (nsNames msg next)), budget, s)
        else resolveGlueless resolveNs (nsNames msg next) budget s)

theorem finds_of_glue {msg : Message} {next : Name}
    (hglue : glue msg (nsNames msg next) ≠ [] →
      CutOf W next.key (glue msg (nsNames msg next)))
    (hless : glue msg (nsNames msg next) = [] → ∀ (budget : ℕ) (s : Infra ω), budget ≤ depth →
      budget ≤ maxQueries → Kept W L s → Does W L budget (CutOf W next.key) True
        (resolveGlueless resolveNs (nsNames msg next) budget s)) :
    Finds W L resolveNs depth msg next := by
  intro budget s hdepth hmax hs
  split_ifs with hne
  · refine ⟨hs, le_rfl, fun a ha => ?_, fun _ _ => Option.some_ne_none _⟩
    obtain rfl := Option.some.inj ha
    exact hglue hne
  · exact hless (not_not.mp hne) budget s hdepth hmax hs

/-- A reply of a server of `zone` that a descent gets on with: it is `good`, or it refers to zones
    whose servers are found. -/
structure Leads (W : World) (L : ω → Prop)
    (resolveNs : Name → ℕ → Infra ω → Option (List IpAddr) × ℕ × Infra ω) (depth : ℕ)
    (good : Name → U16 → Message → Prop) (zone n : Name) (t : U16) (msg : Message) : Prop where
  ns : ∀ r ∈ msg.authority, r.rtype = NS → r.name.key = zone.key ∨
    Refers W zone n t msg r.name ∧ Finds W L resolveNs depth msg r.name
  content : good n t msg ∨ msg.answers = [] ∧ msg.header.rcodeLow = NOERROR ∧
    ∃ d, Refers W zone n t msg d

/-- Every pass spends a query, so with passes for its budget a descent ends with the answer, or
    with nothing left. -/
theorem descendLoop_does {good : Name → U16 → Message → Prop}
    (hnet : net.RepliesWith W (Leads W L resolveNs depth good)) (hL : Watches net W L) :
    ∀ (steps : ℕ) (d : Descent) (budget : ℕ) (s : Infra ω), CutOf W d.zone.key d.ips →
      MayAsk d.zone q t → budget ≤ steps → budget ≤ depth + 1 → budget ≤ maxQueries →
      Kept W L s →
      Does W L budget (good q t)
        (d.delegations + W.cutsBelow d.zone.key.length q < maxDepth)
        (descendLoop net resolveNs q t steps d budget s) := by
  intro steps
  induction steps with
  | zero =>
    intro d budget s _ _ hsteps _ _ hs
    exact .none hs le_rfl fun _ => Nat.le_zero.mp hsteps
  | succ steps ih =>
    intro d budget s hcut hask hsteps hdepth hmax hs
    have hsent := mayAsk_sent net.qmin d.extra d.full hask
    have hdel := fun msg next => @mayAsk_of_refers W q d.zone next t msg net.qmin d.full d.extra
      hask
    rw [descendLoop]
    generalize probeName net.qmin q d.zone d.extra d.full = probe at hsent hdel ⊢
    obtain ⟨hcuts, hworld, hreply⟩ : (queryNsSet net d.ips (sentQuestion q t probe).1
        (sentQuestion q t probe).2 budget s).2.2.cuts = s.cuts ∧ _ :=
      queryNsSet_replies hnet hL hsent.1 hcut hs.world
    have hle := @queryNsSet_budget_le ω net (sentQuestion q t probe).1 (sentQuestion q t probe).2
      d.ips budget s
    have hreturns := fun hpos => @queryNsSet_returns ω net (sentQuestion q t probe).1
      (sentQuestion q t probe).2 d.ips budget s hnet.answers hcut.ne_nil hpos
    generalize queryNsSet net d.ips (sentQuestion q t probe).1 (sentQuestion q t probe).2 budget s =
      r at hcuts hworld hreply hle hreturns ⊢
    obtain ⟨reply, b, s'⟩ := r
    simp only at hcuts hworld hreply hle hreturns
    have hs' : Kept W L s' := by
      refine ⟨?_, hworld⟩
      unfold Infra.CutsAll
      rw [hcuts]
      exact hs.cuts
    -- a pass spends, or there is nothing to spend
    have hb : b ≤ steps ∧ b ≤ depth := by
      omega
    have hstay : ∀ (fromCache : Bool) (extra : ℕ) (full : Bool), Does W L budget
        (good q t) (d.delegations + W.cutsBelow d.zone.key.length q < maxDepth)
        (descendLoop net resolveNs q t steps { d with fromCache, extra, full } b s') :=
      fun fromCache extra full => (ih { d with fromCache, extra, full } b s' hcut hask hb.1
        (by omega) (by omega) hs').mono hle fun h _ => h
    cases reply with
    | none =>
      have hzero : budget = 0 := by
        by_contra hpos
        obtain ⟨msg, hmsg⟩ := (hreturns (Nat.pos_of_ne_zero hpos)).1
        cases hmsg
      simp only
      split_ifs
      · exact hstay _ _ _
      · have hroot := ih { zone := Name.root, ips := rootHints, delegations := d.delegations } b
          (s'.zoneCutForget d.zone) (cutOf_root W) (mayAsk_root q t) hb.1 (by omega) (by omega)
          ⟨hs'.cuts.forget _, hs'.world⟩
        have hspent := hroot.spent
        exact hroot.mono hle fun _ hleft => absurd hleft (by omega)
      · exact .none hs' hle fun _ => by omega
    | some msg =>
      have hm := hreply msg rfl
      cases hreact : react q t d.zone probe msg with
      | terminal =>
        obtain ⟨rfl, -⟩ := react_terminal_cases hreact
        simp only [hreact]
        refine ⟨hs', hle, fun m hm' => ?_, fun _ _ => Option.some_ne_none _⟩
        obtain rfl := Option.some.inj hm'
        exact of_react_terminal hm.content hreact
      | fallback =>
        simp only [hreact]
        exact hstay _ _ _
      | lengthen =>
        simp only [hreact]
        exact hstay _ _ _
      | referral next =>
        obtain ⟨hnext, hfinds⟩ := of_referralZone (D := fun next => Refers W d.zone _ _ msg next ∧
          Finds W L resolveNs depth msg next) hm.ns (referralZone_of_react hreact)
        have hbelow : d.zone.key.length < next.key.length :=
          lt_of_le_of_ne hnext.below.1.length_le fun h =>
            hnext.below.2 (hnext.below.1.eq_of_length h)
        have hcuts := W.cutsBelow_lt hnext.apex (hdel msg next hnext).1 hbelow
        have hfound := hfinds b s' hb.2 (hle.trans hmax) hs'
        simp only [hreact]
        generalize (if glue msg (nsNames msg next) ≠ [] then
          (some (glue msg (nsNames msg next)), b, s') else _) = found at hfound ⊢
        obtain ⟨servers, b', s''⟩ := found
        have hb' : b' ≤ b := hfound.spent
        cases servers with
        | none =>
          refine .none hfound.kept (hb'.trans hle) fun _ => ?_
          by_contra hleft
          exact hfound.returns trivial hleft rfl
        | some ips =>
          have hcut' := hfound.good ips rfl
          have hlearn := hfound.kept.learn hL hcut' (cutTtl msg next (nsNames msg next))
          simp only
          split_ifs with hlimit
          · exact .none hlearn (hb'.trans hle) fun hsure => by omega
          · refine (ih _ b' _ hcut' (hdel msg next hnext) (by omega) (by omega)
              (by omega) hlearn).mono (hb'.trans hle) fun hsure _ => ?_
            show d.delegations + 1 + W.cutsBelow next.key.length q < maxDepth
            omega

end

section

variable {q : Name} {t : U16} {cost : List Bytes → ℕ}

theorem Net.Spends.cost_pos (hnet : net.Honest W) (hspend : net.Spends W cost) {zone : Name}
    {ips : List IpAddr} (hcut : CutOf W zone.key ips) (w : ω) : 0 < cost zone.key := by
  have hle := hspend zone zone Rtype.A ips 1 { world := w } hcut.serves hcut.width
  have hlt : (queryNsSet net ips zone Rtype.A 1 { world := w }).2.1 < 1 :=
    (queryNsSet_returns (Net.RepliesWith.answers hnet) hcut.ne_nil Nat.one_pos).2
  omega

theorem descendLoop_returns (hnet : net.Honest W) (hspend : net.Spends W cost)
    (hfit : WithinBudget W cost net.qmin q t) :
    ∀ (steps : ℕ) (d : Descent) (budget : ℕ) (s : Infra ω) (spent : ℕ),
      Path W cost net.qmin q t d.zone d.extra d.full spent d.delegations →
      CutOf W d.zone.key d.ips → MayAsk d.zone q t →
      maxQueries ≤ budget + spent → maxQueries ≤ steps + spent →
      ∃ msg, (descendLoop net resolveNs q t steps d budget s).1 = some msg := by
  intro steps
  induction steps with
  | zero =>
    intro d budget s spent hpath hcut _ _ hsteps
    have hpos := hspend.cost_pos hnet hcut s.world
    have := (hfit hpath).1
    omega
  | succ steps ih =>
    intro d budget s spent hpath hcut hask hbudget hsteps
    have hpos := hspend.cost_pos hnet hcut s.world
    have hleft := (hfit hpath).1
    have hsent := mayAsk_sent net.qmin d.extra d.full hask
    have hdel := fun msg next => @mayAsk_of_refers W q d.zone next t msg net.qmin d.full d.extra
      hask
    have hreferral := fun msg next => @Path.referral W cost net.qmin q t d.zone next d.extra spent
      d.delegations d.full msg hpath
    have hfallback := fun msg => @Path.fallback W cost net.qmin q t d.zone d.extra spent
      d.delegations d.full msg hpath
    have hlengthen := fun msg => @Path.lengthen W cost net.qmin q t d.zone d.extra spent
      d.delegations d.full msg hpath
    rw [descendLoop]
    generalize probeName net.qmin q d.zone d.extra d.full = probe
      at hsent hdel hreferral hfallback hlengthen ⊢
    obtain ⟨msg, hmsg⟩ := (@queryNsSet_returns ω net (sentQuestion q t probe).1
      (sentQuestion q t probe).2 d.ips budget s (Net.RepliesWith.answers hnet) hcut.ne_nil (by omega)).1
    have hm := (queryNsSet_replies hnet (watches_true net W) hsent.1 hcut trivial).2.2 msg hmsg
    have hb := hspend d.zone (sentQuestion q t probe).1 (sentQuestion q t probe).2 d.ips budget s
      hcut.serves hcut.width
    generalize queryNsSet net d.ips (sentQuestion q t probe).1 (sentQuestion q t probe).2 budget s =
      r at hmsg hb ⊢
    obtain ⟨reply, b, s'⟩ := r
    obtain rfl : reply = some msg := hmsg
    have hb : budget ≤ b + cost d.zone.key := hb
    cases hreact : react q t d.zone probe msg with
    | terminal =>
      simp only [hreact]
      exact ⟨msg, rfl⟩
    | fallback =>
      simp only [hreact]
      exact ih _ _ _ _ (hfallback msg hm hreact) hcut hask (by omega) (by omega)
    | lengthen =>
      simp only [hreact]
      exact ih _ _ _ _ (hlengthen msg hm hreact) hcut hask (by omega) (by omega)
    | referral next =>
      have hnext := of_referralZone hm.ns (referralZone_of_react hreact)
      have hpath' := hreferral msg next hm hreact
      have hdepth := (hfit hpath').2
      simp only [hreact, if_pos hnext.glue]
      rw [if_neg (by omega)]
      exact ih _ _ _ _ hpath' hnext.cutOf (hdel msg next hnext.toRefers) (by omega) (by omega)

end

/-! ## A whole descent -/

section

variable {q : Name} {t : U16} {s : Infra ω}

theorem key_of_parent {n p : Name} (h : n.parent = some p) : ∃ l, n.key = p.key ++ [l] := by
  obtain ⟨ls, hls⟩ := n
  cases ls with
  | nil => cases h
  | cons l ls =>
    obtain rfl := Option.some.inj h
    exact ⟨lower l, reverse_cons⟩

/-- A learned cut that a descent starts from is one of the world, on the way to the name. -/
theorem cachedStart_ok (hs : s.CutsAll (CutOf W)) :
    (∀ z ips, (s.cachedStart net q t).1 = some (z, ips) → CutOf W z.key ips ∧ MayAsk z q t) ∧
      (s.cachedStart net q t).2.CutsAll (CutOf W) ∧
      ((s.cachedStart net q t).2.world = s.world ∨
        (s.cachedStart net q t).2.world = (net.unixNow s.world).2) := by
  unfold Infra.cachedStart
  split_ifs with hds
  · cases hp : q.parent with
    | none => exact ⟨nofun, hs, Or.inl rfl⟩
    | some p =>
      obtain ⟨hstart, hkept⟩ : _ ∧ (s.zoneCutStart net p).2.CutsAll (CutOf W) := hs.start p
      refine ⟨fun z ips hz => ?_, hkept, Or.inr rfl⟩
      obtain ⟨hin, hcut⟩ := hstart z ips hz
      obtain ⟨l, hl⟩ := key_of_parent hp
      refine ⟨hcut, hl ▸ hin.trans (prefix_append _ _), fun _ heq => ?_⟩
      have hlen := hin.length_le
      rw [heq, hl] at hlen
      exact absurd hlen (by simp)
  · obtain ⟨hstart, hkept⟩ : _ ∧ (s.zoneCutStart net q).2.CutsAll (CutOf W) := hs.start q
    refine ⟨fun z ips hz => ?_, hkept, Or.inr rfl⟩
    obtain ⟨hin, hcut⟩ := hstart z ips hz
    exact ⟨hcut, hin, fun h => absurd h hds⟩

variable (net q t resolveNs) in
/-- What a descent starts with. -/
theorem descendWith_start (hs : s.CutsAll (CutOf W)) (budget : ℕ) :
    ∃ d s', descendWith net resolveNs q t budget s =
        descendLoop net resolveNs q t maxQueries d budget s' ∧
      (s'.world = s.world ∨ s'.world = (net.unixNow s.world).2) ∧
      s'.CutsAll (CutOf W) ∧ CutOf W d.zone.key d.ips ∧ MayAsk d.zone q t ∧
      d.extra = 0 ∧ d.full = false ∧ d.delegations = 0 := by
  obtain ⟨hstart, hkept, hworld⟩ : _ ∧ (s.cachedStart net q t).2.CutsAll (CutOf W) ∧ _ :=
    cachedStart_ok hs
  unfold descendWith
  generalize s.cachedStart net q t = start at hstart hkept hworld ⊢
  obtain ⟨found, s'⟩ := start
  cases found with
  | none => exact ⟨_, s', rfl, hworld, hkept, cutOf_root W, mayAsk_root q t, rfl, rfl, rfl⟩
  | some cut =>
    obtain ⟨hcut, hask⟩ := hstart cut.1 cut.2 rfl
    exact ⟨_, s', rfl, hworld, hkept, hcut, hask, rfl, rfl, rfl⟩

theorem descendWith_does {L : ω → Prop} {good : Name → U16 → Message → Prop} {depth budget : ℕ}
    (hnet : net.RepliesWith W (Leads W L resolveNs depth good)) (hL : Watches net W L)
    (hdepth : budget ≤ depth + 1) (hmax : budget ≤ maxQueries) (hs : Kept W L s) :
    Does W L budget (good q t) (W.cutsBelow 0 q < maxDepth)
      (descendWith net resolveNs q t budget s) := by
  obtain ⟨d, s', hrun, hworld, hcuts, hcut, hask, -, -, hdel⟩ :=
    descendWith_start net resolveNs q t hs.cuts budget
  have hs' : L s'.world := by
    rcases hworld with h | h
    · rw [h]
      exact hs.world
    · rw [h]
      exact hL.clock _ hs.world
  rw [hrun]
  refine (descendLoop_does hnet hL _ d _ s' hcut hask hmax hdepth hmax
    ⟨hcuts, hs'⟩).mono le_rfl fun hsure _ => ?_
  have hle := W.cutsBelow_le d.zone.key.length q
  omega

/-- A fetch among honest servers learns only cuts of the world, and what it returns says what
    the world holds at the name. -/
theorem resolveMessage_honest (hnet : net.Honest W) (hs : s.CutsAll (CutOf W)) :
    (resolveMessage net q t s).2.CutsAll (CutOf W) ∧
      ∀ msg, (resolveMessage net q t s).1 = some msg → Tells W q t msg := by
  have hleads : net.RepliesWith W (Leads W (fun _ => True) (resolveNsAddr net maxQueries)
      maxQueries (Tells W)) := Net.RepliesWith.imp hnet fun h =>
    ⟨fun r hr ht => (h.ns r hr ht).imp_right fun hd => ⟨hd.toRefers, finds_of_glue
      (fun _ => hd.cutOf) fun hnil => absurd hnil hd.glue⟩, h.content.imp_right fun hr =>
      ⟨hr.1, hr.2.1, hr.2.2.imp fun _ => Delegates.toRefers⟩⟩
  have hdoes := descendWith_does (q := q) (t := t) hleads (watches_true net W) (Nat.le_succ _)
    le_rfl ⟨hs, trivial⟩
  exact ⟨hdoes.kept.cuts, hdoes.good⟩

theorem resolveMessage_returns {cost : List Bytes → ℕ} (hnet : net.Honest W)
    (hspend : net.Spends W cost) (hfit : WithinBudget W cost net.qmin q t)
    (hs : s.CutsAll (CutOf W)) : ∃ msg, (resolveMessage net q t s).1 = some msg := by
  obtain ⟨d, s', hrun, -, -, hcut, hask, hextra, hfull, hdepth⟩ :=
    descendWith_start net (resolveNsAddr net maxQueries) q t hs maxQueries
  unfold resolveMessage descend
  rw [hrun]
  refine descendLoop_returns hnet hspend hfit _ d _ s' 0 ?_ hcut hask le_rfl le_rfl
  rw [hextra, hfull, hdepth]
  exact .start hcut.apex hask

end

/-! ## Names within the limits -/

section

variable {q zone : Name} {t : U16} {qmin : Bool} {cost : List Bytes → ℕ}

/-- The questions a descent asks at most at cuts less than `k` labels above the name: one for
    each label between, or one. -/
def questions : ℕ → ℕ
  | 0 => 0
  | k + 1 => max k 1 + questions k

theorem questions_mono {j k : ℕ} (h : j ≤ k) : questions j ≤ questions k := by
  induction h with
  | refl => exact le_rfl
  | step _ ih => exact ih.trans (Nat.le_add_left _ _)

/-- The questions left at a cut `k` labels above the name, and at the cuts below it. -/
def questionsLeft (k extra : ℕ) (full : Bool) : ℕ :=
  (if full then 1 else max (k - extra) 1) + questions k

theorem questionsLeft_pos (k extra : ℕ) (full : Bool) :
    questions k < questionsLeft k extra full := by
  unfold questionsLeft
  split_ifs <;> omega

/-- A reply that neither ends the descent nor refers was one to a probe. -/
theorem probe_of_react {extra : ℕ} {full : Bool} {msg : Message}
    (h : react q t zone (probeName qmin q zone extra full) msg = .fallback ∨
      react q t zone (probeName qmin q zone extra full) msg = .lengthen) :
    full = false ∧ zone.labelCount + 1 + extra < q.labelCount := by
  cases hp : probeName qmin q zone extra full with
  | some p =>
    obtain ⟨hfull, hlt, -⟩ := probeName_eq_some hp
    exact ⟨hfull, hlt⟩
  | none =>
    have hspec := react_spec q t zone none msg
    rw [hp] at h
    rcases h with h | h <;> rw [h] at hspec <;> exact absurd rfl hspec

theorem labelCount_le (h : zone.key <+: q.key) : zone.labelCount ≤ q.labelCount := by
  rw [← key_length, ← key_length]
  exact h.length_le

variable {C : ℕ} (hC : ∀ key, cost key ≤ C)
include hC

theorem spend_le {spent asked : ℕ} (h : spent ≤ C * asked) (key : List Bytes) :
    spent + cost key ≤ C * (asked + 1) := by
  exact Nat.add_le_add h (hC key)

/-- Along a path the cut stays on the way to the name, and every question is paid for. -/
theorem path_bound {extra spent depth : ℕ} {full : Bool}
    (h : Path W cost qmin q t zone extra full spent depth) :
    MayAsk zone q t ∧ depth ≤ zone.labelCount ∧
      ∃ asked, spent ≤ C * asked ∧
        asked + questionsLeft (q.labelCount - zone.labelCount) extra full ≤
          questions (q.labelCount + 1) := by
  induction h with
  | @start zone _ hask =>
    refine ⟨hask, Nat.zero_le _, 0, Nat.zero_le _, ?_⟩
    have hmono : questions (q.labelCount - zone.labelCount + 1) ≤ questions (q.labelCount + 1) :=
      questions_mono (by omega)
    simpa [questionsLeft, questions] using hmono
  | @referral zone next extra spent depth full msg _ hm hr ih =>
    obtain ⟨hask, hdepth, asked, hspent, hleft⟩ := ih
    have hd := of_referralZone hm.ns (referralZone_of_react hr)
    have hnext := mayAsk_of_refers hask hd.toRefers
    have hbelow : zone.labelCount < next.labelCount := by
      rw [← key_length, ← key_length]
      exact lt_of_le_of_ne hd.below.1.length_le fun h => hd.below.2 (hd.below.1.eq_of_length h)
    have hle := labelCount_le hnext.1
    refine ⟨hnext, by omega, asked + 1, spend_le hC hspent _, ?_⟩
    have hpos := questionsLeft_pos (q.labelCount - zone.labelCount) extra full
    have hmono : questions (q.labelCount - next.labelCount + 1) ≤
        questions (q.labelCount - zone.labelCount) := questions_mono (by omega)
    have hfresh : questionsLeft (q.labelCount - next.labelCount) 0 false =
        questions (q.labelCount - next.labelCount + 1) := rfl
    omega
  | @fallback zone extra spent depth full msg _ hm hr ih =>
    obtain ⟨hask, hdepth, asked, hspent, hleft⟩ := ih
    obtain ⟨rfl, hlt⟩ := probe_of_react (Or.inl hr)
    refine ⟨hask, hdepth, asked + 1, spend_le hC hspent _, ?_⟩
    simp only [questionsLeft, Bool.false_eq_true, if_false, if_true] at hleft ⊢
    omega
  | @lengthen zone extra spent depth full msg _ hm hr ih =>
    obtain ⟨hask, hdepth, asked, hspent, hleft⟩ := ih
    obtain ⟨rfl, hlt⟩ := probe_of_react (Or.inr hr)
    refine ⟨hask, hdepth, asked + 1, spend_le hC hspent _, ?_⟩
    simp only [questionsLeft, Bool.false_eq_true, if_false] at hleft ⊢
    omega

/-- A name with few enough labels is within the limits, whatever its world. -/
theorem withinBudget_of_labels (hq : C * questions (q.labelCount + 1) ≤ maxQueries) (hd : q.labelCount < maxDepth) :
    WithinBudget W cost qmin q t := by
  intro zone extra full spent depth h
  obtain ⟨hask, hdepth, asked, hspent, hleft⟩ := path_bound hC h
  have hpos := questionsLeft_pos (q.labelCount - zone.labelCount) extra full
  have hle := labelCount_le hask.1
  refine ⟨?_, by omega⟩
  calc spent + cost zone.key ≤ C * (asked + 1) := spend_le hC hspent _
    _ ≤ C * questions (q.labelCount + 1) := Nat.mul_le_mul_left _ (by omega)
    _ ≤ maxQueries := hq

end

end Runbound.Recursor
