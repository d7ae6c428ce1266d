import Runbound.Recursor.Iterative

/-!
# QNAME minimisation is transparent

In a world of authoritative servers every question has one answer, that of the deepest zone
responsible for it; a server of a zone above may refer instead. `descend` hands back the answer
with minimisation on as well as off, unless its budget is used up on the way, and sends every
question only to servers of zones that enclose the name it is for.

Results:
* `descend_does`: what a descent keeps, sends and returns, whether or not it minimises.
* `minimisation_transparent`: the replies with minimisation on and off agree, and the full
  question is seen only by servers of zones at or above the deepest one.

**Deviation.** Unlike in `World`, a delegation may come without glue; its name servers are then
looked up, for A records only, as the code does.
-/

namespace Runbound.Recursor

open Wire Dnssec List Rtype

/-! ## Specification -/

/-- The same rcode, answers and authority. -/
structure SameContent (a b : Message) : Prop where
  rcode : a.header.rcodeLow = b.header.rcodeLow
  answers : a.answers = b.answers
  authority : a.authority = b.authority

namespace World

variable (W : World)

/-- The public IPv4 addresses of a host. -/
def addresses (host : Name) : List IpAddr :=
  ((W.rrsetAt host Rtype.A).filterMap recordIp).filter isPublicIp

/-- `zone` is the deepest zone that encloses the name. -/
def Deepest (n : Name) (zone : List Bytes) : Prop :=
  zone ∈ W.apexes ∧ zone <+: n.key ∧ ∀ e ∈ W.apexes, e <+: n.key → e.length ≤ zone.length

end World

/-- The reply delegates `d`. Its glue and the addresses of its name servers are servers of `d`,
    and one is to be found: there is public glue, or the address of a name server less than
    `MAX_DEPTH` cuts below the root. -/
structure Delegation (W : World) (zone n : Name) (t : U16) (msg : Message) (d : Name) : Prop
    extends Refers W zone n t msg d where
  glue : ∀ ip ∈ Recursor.glue msg (nsNames msg d), W.serves ip d.key
  glue_width : (Recursor.glue msg (nsNames msg d)).length ≤ W.width d.key
  hosts : ∀ ns ∈ nsNames msg d, ∀ ip ∈ W.addresses ns, W.serves ip d.key
  hosts_width : ∀ ns ∈ nsNames msg d, (W.addresses ns).length ≤ W.width d.key
  found : Recursor.glue msg (nsNames msg d) ≠ [] ∨
    ∃ ns ∈ nsNames msg d, W.addresses ns ≠ [] ∧ W.cutsBelow 0 ns < maxDepth

/-- A reply of a server of `zone`, where `answer` is the answer of the world to the question: that
    answer, or a referral to a zone below. -/
structure ZoneReply (W : World) (answer : Message) (zone n : Name) (t : U16) (msg : Message) :
    Prop where
  ns : ∀ r ∈ msg.authority, r.rtype = NS → r.name.key = zone.key ∨ Delegation W zone n t msg r.name
  content : SameContent msg answer ∨ msg.answers = [] ∧
    msg.header.rcodeLow = Rcode.NOERROR ∧ ∃ d, Delegation W zone n t msg d

/-- Every server answers, from the zones it serves. -/
def Net.Authoritative {ω : Type} (net : Net ω) (W : World) (answer : Name → U16 → Message) : Prop :=
  ∀ (inflight : List IpAddr) (n : Name) (t : U16) (w : ω) (ip : IpAddr),
    let wake := (net.wake inflight n t w).1
    inflight[wake.index % inflight.length]? = some ip →
    ∃ msg, wake.reply = some msg ∧ ∀ zone, W.serves ip zone.key → MayAsk zone n t →
      ZoneReply W (answer n t) zone n t msg

/-- A question that servers have been sent. -/
structure Asked where
  servers : List IpAddr
  name : Name
  rtype : U16

/-- The network with a record of the questions in flight at each wait. -/
def Net.recording {ω : Type} (net : Net ω) : Net (ω × List Asked) where
  qmin := net.qmin
  unixNow w := ((net.unixNow w.1).1, ((net.unixNow w.1).2, w.2))
  wake inflight n t w :=
    ((net.wake inflight n t w.1).1, ((net.wake inflight n t w.1).2, ⟨inflight, n, t⟩ :: w.2))

/-! ## The addresses of a name server -/

variable {ω : Type} {net : Net ω} {W : World} {answer : Name → U16 → Message} {msg : Message}
  {n zone : Name}


theorem filterMap_recordIp {as bs : List Record} (h : List.Forall₂ SameUpToCase as bs) :
    as.filterMap recordIp = bs.filterMap recordIp := by
  induction h with
  | nil => rfl
  | @cons a b _ _ hab _ ih =>
    have hip : recordIp a = recordIp b := by
      unfold recordIp
      rw [hab.2.2.2.2]
    rw [filterMap_cons, filterMap_cons, hip, ih]

theorem stepOutcome_congr {a b : Message} (h : SameContent a b) (n : Name) (t : U16) :
    stepOutcome n t (some a) = stepOutcome n t (some b) := by
  simp only [stepOutcome, h.rcode, h.answers]

theorem stepOutcome_of_no_cname {t : U16}
    (h : rrset msg.answers n CNAME = []) {rs : List Record} :
    stepOutcome n t (some msg) = .answer rs ↔ rrset msg.answers n t = rs ∧ rs ≠ [] := by
  have hfind : (msg.answers.find? fun r => r.rtype = CNAME && r.name.eqIgnoreAsciiCase n) =
      none := by
    rw [← head?_filter]
    exact head?_eq_none_iff.mpr h
  unfold stepOutcome
  simp only [hfind]
  split_ifs with hne
  · constructor
    · intro heq
      cases heq
      exact ⟨rfl, hne⟩
    · rintro ⟨rfl, -⟩
      rfl
  · exact ⟨fun heq => (by cases heq), fun h' => absurd (h'.1 ▸ h'.2) hne⟩
  · exact ⟨fun heq => (by cases heq), fun h' => absurd (h'.1 ▸ h'.2) hne⟩

theorem stepOutcome_address (h : Tells W n Rtype.A msg) :
    (∃ rs, stepOutcome n Rtype.A (some msg) = .answer rs ∧ SameSet rs (W.rrsetAt n Rtype.A)) ∨
      W.rrsetAt n Rtype.A = [] ∧ ∀ rs, stepOutcome n Rtype.A (some msg) ≠ .answer rs := by
  cases h with
  | answer h _ hrs hcn =>
    refine Or.inl ⟨_, (stepOutcome_of_no_cname (hcn (by decide))).mpr ⟨rfl, ?_⟩, hrs⟩
    obtain ⟨cs, hperm, hall⟩ := hrs
    rw [← length_pos_iff, hall.length_eq, hperm.length_eq]
    exact length_pos_of_ne_nil h
  | @cname c c' h hc _ hcn hsame =>
    refine Or.inr ⟨h, fun rs => ?_⟩
    obtain ⟨next, hnext⟩ := World.cname_of_mem hc
    have hfind : (msg.answers.find? fun r =>
        r.rtype = CNAME && r.name.eqIgnoreAsciiCase n) = some c' := by
      rw [← head?_filter]
      exact congrArg List.head? hcn
    have hrdata : c'.rdata = .cname next := hsame.2.2.2.2.trans hnext
    obtain ⟨nm, ty, cl, ttl, rd, hrd⟩ := c'
    obtain rfl : rd = .cname next := hrdata
    unfold stepOutcome
    simp only [hfind]
    intro heq
    cases heq
  | nodata h _ _ _ ha _ =>
    refine Or.inr ⟨h, fun rs heq => ?_⟩
    obtain ⟨rfl, hne⟩ := (stepOutcome_of_no_cname (rrset_eq_nil_of_names ha _)).mp heq
    exact hne (rrset_eq_nil_of_names ha _)
  | nxdomain h _ _ _ ha =>
    refine Or.inr ⟨h, fun rs heq => ?_⟩
    obtain ⟨rfl, hne⟩ := (stepOutcome_of_no_cname (rrset_eq_nil_of_names ha _)).mp heq
    exact hne (rrset_eq_nil_of_names ha _)

/-! ## The servers of a delegation -/

section

variable {L : ω → Prop} {s : Infra ω} {budget depth : ℕ} {resolveNs : Name → ℕ → Infra ω → Option (List IpAddr) × ℕ × Infra ω}

/-- `resolveNs` looks up addresses in the world, with a budget of at most `depth`. -/
def LooksUp (W : World) (L : ω → Prop) (depth : ℕ)
    (resolveNs : Name → ℕ → Infra ω → Option (List IpAddr) × ℕ × Infra ω) : Prop :=
  ∀ (ns : Name) (budget : ℕ) (s : Infra ω), budget ≤ depth → budget ≤ maxQueries → Kept W L s →
    Does W L budget (fun ips => (ips.filter isPublicIp).Perm (W.addresses ns))
      (W.addresses ns ≠ [] ∧ W.cutsBelow 0 ns < maxDepth) (resolveNs ns budget s)

theorem resolveGlueless_does (hlook : LooksUp W L depth resolveNs) {key : List Bytes}
    (hapex : key ∈ W.apexes) :
    ∀ (names : List Name) (budget : ℕ) (s : Infra ω), budget ≤ depth → budget ≤ maxQueries →
      (∀ ns ∈ names, ∀ ip ∈ W.addresses ns, W.serves ip key) →
      (∀ ns ∈ names, (W.addresses ns).length ≤ W.width key) → Kept W L s →
      Does W L budget (CutOf W key)
        (∃ ns ∈ names, W.addresses ns ≠ [] ∧ W.cutsBelow 0 ns < maxDepth)
        (resolveGlueless resolveNs names budget s) := by
  intro names
  induction names with
  | nil =>
    intro budget s _ _ _ _ hs
    refine .none hs le_rfl ?_
    rintro ⟨ns, hns, -⟩
    cases hns
  | cons ns rest ih =>
    intro budget s hdepth hmax hserves hwidth hs
    rw [resolveGlueless]
    split_ifs with hzero
    · exact .none hs le_rfl fun _ => hzero
    · have hr := hlook ns budget s hdepth hmax hs
      generalize resolveNs ns budget s = r at hr ⊢
      obtain ⟨found, b, s'⟩ := r
      have hb : b ≤ budget := hr.spent
      have hgood : (found.getD []).filter isPublicIp ≠ [] →
          ((found.getD []).filter isPublicIp).Perm (W.addresses ns) := by
        cases found with
        | none => exact fun h => absurd rfl h
        | some ips => exact fun _ => hr.good ips rfl
      have hfound : W.addresses ns ≠ [] ∧ W.cutsBelow 0 ns < maxDepth → b ≠ 0 →
          (found.getD []).filter isPublicIp ≠ [] := by
        intro hsure hleft hnil
        obtain ⟨ips, rfl⟩ := Option.ne_none_iff_exists'.mp (hr.returns hsure hleft)
        exact hsure.1 (nil_perm.mp (hnil ▸ hr.good ips rfl))
      cases hfilter : (found.getD []).filter isPublicIp with
      | nil =>
        have hrest := ih b s' (hb.trans hdepth) (hb.trans hmax)
          (fun n hn => hserves n (mem_cons_of_mem _ hn))
          (fun n hn => hwidth n (mem_cons_of_mem _ hn)) hr.kept
        simp only [hfilter]
        refine hrest.mono hb ?_
        rintro ⟨n, hn, hsure⟩ hleft
        rcases mem_cons.mp hn with rfl | hn
        · have hspent : _ ≤ b := hrest.spent
          exact absurd hfilter (hfound hsure (by omega))
        · exact ⟨n, hn, hsure⟩
      | cons ip ips =>
        have hperm := hgood (by rw [hfilter]; exact cons_ne_nil _ _)
        rw [hfilter] at hperm
        simp only [hfilter]
        refine ⟨hr.kept, hb, fun a ha => ?_, fun _ _ => Option.some_ne_none _⟩
        obtain rfl := Option.some.inj ha
        exact ⟨hapex, cons_ne_nil _ _, fun i hi => hserves ns mem_cons_self i (hperm.subset hi),
          hperm.length_eq ▸ hwidth ns mem_cons_self⟩

/-! ## The descent -/

theorem Net.Authoritative.leads (hnet : net.Authoritative W answer)
    (hlook : LooksUp W L depth resolveNs) : net.RepliesWith W
      (Leads W L resolveNs depth fun n t msg => SameContent msg (answer n t)) := by
  refine Net.RepliesWith.imp hnet fun h => ⟨fun r hr ht => (h.ns r hr ht).imp_right fun hd =>
    ⟨hd.toRefers, finds_of_glue (fun hne => ⟨hd.apex, hne, hd.glue, hd.glue_width⟩) ?_⟩,
    h.content.imp_right fun hr => ⟨hr.1, hr.2.1, hr.2.2.imp fun _ => Delegation.toRefers⟩⟩
  intro hnil budget s hdepth hmax hs
  exact (resolveGlueless_does hlook hd.apex _ budget s hdepth hmax hd.hosts hd.hosts_width hs).mono
    le_rfl fun _ _ => hd.found.resolve_left (not_not.mpr hnil)

section

variable (hanswer : ∀ n t, Tells W n t (answer n t)) (hnet : net.Authoritative W answer) (hL : Watches net W L)
include hanswer hnet hL

/-- A lookup spends a query before it looks up another name, so `depth` covers its budget. -/
theorem resolveNsAddr_looksUp : ∀ depth, LooksUp W L depth (resolveNsAddr net depth) := by
  intro depth
  induction depth with
  | zero =>
    intro ns budget s hdepth _ hs
    exact .none hs le_rfl fun _ => Nat.le_zero.mp hdepth
  | succ depth ih =>
    intro ns budget s hdepth hmax hs
    have hdoes := descendWith_does (q := ns) (t := Rtype.A) (hnet.leads ih) hL hdepth hmax hs
    rw [resolveNsAddr]
    generalize descendWith net (resolveNsAddr net depth) ns Rtype.A budget s = r at hdoes ⊢
    obtain ⟨reply, b, s'⟩ := r
    cases reply with
    | none =>
      refine .none hdoes.kept hdoes.spent fun hsure => ?_
      by_contra hleft
      exact hdoes.returns hsure.2 hleft rfl
    | some msg =>
      simp only [stepOutcome_congr (hdoes.good msg rfl)]
      rcases stepOutcome_address (hanswer ns Rtype.A) with ⟨rs, hrs, cs, hperm, hall⟩ | ⟨hnone, hno⟩
      · have haddr : ((rs.filterMap recordIp).filter isPublicIp).Perm (W.addresses ns) := by
          rw [filterMap_recordIp hall]
          exact (hperm.filterMap _).filter _
        simp only [hrs]
        refine ⟨hdoes.kept, hdoes.spent, fun ips hips => ?_, fun hsure _ => ?_⟩
        · split_ifs at hips
          obtain rfl := Option.some.inj hips
          exact haddr
        · rw [if_pos]
          · simp
          · intro hnil
            rw [hnil] at haddr
            exact hsure.1 (nil_perm.mp haddr)
      · cases hout : stepOutcome ns Rtype.A (some (answer ns Rtype.A)) with
        | answer rs => exact absurd hout (hno rs)
        | cname _ _ | negative _ | failure =>
          refine .none hdoes.kept hdoes.spent fun hsure => absurd ?_ hsure.1
          unfold World.addresses
          rw [hnone]
          rfl

theorem descend_does (q : Name) (t : U16)
    (hs : Kept W L s) :
    Does W L maxQueries (SameContent · (answer q t)) (W.cutsBelow 0 q < maxDepth)
      (descend net q t maxQueries s) :=
  descendWith_does (hnet.leads (resolveNsAddr_looksUp hanswer hnet hL maxQueries)) hL
    (Nat.le_succ _) le_rfl hs

end

end

/-! ## On and off -/

theorem World.exists_deepest (W : World) (n : Name) : ∃ zone, W.Deepest n zone := by
  have hne : (W.apexes.toFinset.filter (· <+: n.key)).Nonempty :=
    ⟨[], Finset.mem_filter.mpr ⟨mem_toFinset.mpr W.root_apex, List.nil_prefix⟩⟩
  obtain ⟨zone, hzone, hmax⟩ := Finset.exists_max_image _ List.length hne
  simp only [Finset.mem_filter, mem_toFinset] at hzone hmax
  exact ⟨zone, hzone.1, hzone.2, fun e he hn => hmax e ⟨he, hn⟩⟩

/-- The recorded questions went to servers of zones that enclose the names they are for. -/
def Enclosing (W : World) (w : ω × List Asked) : Prop :=
  ∀ a ∈ w.2, ∃ zone ∈ W.apexes, zone <+: a.name.key ∧ ∀ ip ∈ a.servers, W.serves ip zone

theorem watches_recording (net : Net ω) (W : World) (qmin : Bool) :
    Watches { net.recording with qmin } W (Enclosing W) where
  wake := by
    intro zone hapex inflight n t w hn hserves hw a ha
    rcases mem_cons.mp ha with rfl | ha
    · exact ⟨zone, hapex, hn, hserves⟩
    · exact hw a ha
  clock w hw := hw

/-- For every world of authoritative servers, and every two states whose learned cuts are those of
    the world, as every descent leaves them: unless the budget is used up, a descent with
    minimisation on and one with it off return messages of the same content. The full question is
    only sent to servers of zones at or above the deepest zone of the name. -/
theorem minimisation_transparent (hanswer : ∀ n t, Tells W n t (answer n t))
    (hnet : net.Authoritative W answer) {q : Name} {t : U16} (hdepth : W.cutsBelow 0 q < maxDepth)
    {s s' : Infra ω} (hs : s.CutsAll (CutOf W)) (hs' : s'.CutsAll (CutOf W))
    (hon : (descend { net with qmin := true } q t maxQueries s).2.1 ≠ 0)
    (hoff : (descend { net with qmin := false } q t maxQueries s').2.1 ≠ 0) :
    (∃ on off, (descend { net with qmin := true } q t maxQueries s).1 = some on ∧
      (descend { net with qmin := false } q t maxQueries s').1 = some off ∧ SameContent on off) ∧
    ∃ deepest, W.Deepest q deepest ∧ ∀ qmin,
      ∀ a ∈ (descend { net.recording with qmin } q t maxQueries
        { s with world := (s.world, []) }).2.2.world.2,
      a.name = q → a.rtype = t → ∀ ip ∈ a.servers,
        ∃ zone ∈ W.apexes, W.serves ip zone ∧ zone <+: deepest := by
  have hdoes : ∀ qmin {s : Infra ω}, s.CutsAll (CutOf W) → Does W (fun _ => True) maxQueries
      (SameContent · (answer q t)) (W.cutsBelow 0 q < maxDepth)
      (descend { net with qmin } q t maxQueries s) :=
    fun qmin s hs => @descend_does _ { net with qmin } W answer _ s hanswer hnet
      (watches_true _ W) q t ⟨hs, trivial⟩
  constructor
  · obtain ⟨on, hon'⟩ := Option.ne_none_iff_exists'.mp ((hdoes true hs).returns hdepth hon)
    obtain ⟨off, hoff'⟩ := Option.ne_none_iff_exists'.mp ((hdoes false hs').returns hdepth hoff)
    have hsame := (hdoes true hs).good on hon'
    have hsame' := (hdoes false hs').good off hoff'
    exact ⟨on, off, hon', hoff', hsame.rcode.trans hsame'.rcode.symm,
      hsame.answers.trans hsame'.answers.symm, hsame.authority.trans hsame'.authority.symm⟩
  · obtain ⟨deepest, hdeepest⟩ := W.exists_deepest q
    refine ⟨deepest, hdeepest, fun qmin a ha hname _ ip hip => ?_⟩
    have hkept := (@descend_does _ { net.recording with qmin } W answer (Enclosing W)
      { s with world := (s.world, []) } hanswer
      (fun inflight n t w => hnet inflight n t w.1) (watches_recording net W qmin) q t
      ⟨hs, fun a ha => by cases ha⟩).kept
    obtain ⟨zone, hapex, hzone, hserves⟩ := hkept.world a ha
    rw [hname] at hzone
    exact ⟨zone, hapex, hserves ip hip,
      prefix_of_prefix_length_le hzone hdeepest.2.1 (hdeepest.2.2 zone hapex hzone)⟩

/-- The servers of the small world are authoritative. -/
theorem authoritative_netZ : netZ.Authoritative worldZ (recordsReply worldZ.records) := by
  have hhost : ∀ ns ∈ nsNames referralZ nameZ, worldZ.addresses ns = [] := by decide
  refine repliesWith_netZ (@fun zone n t hdel => ?_) fun _ _ _ =>
    ⟨fun _ hr => absurd hr (by simp [recordsReply_authority]), Or.inl ⟨rfl, rfl, rfl⟩⟩
  have hd : Delegation worldZ zone n t referralZ nameZ := by
    refine ⟨hdel.toRefers, hdel.serves, hdel.width, fun ns hns ip hip => ?_, fun ns hns => ?_,
      Or.inl hdel.glue⟩
    · rw [hhost ns hns] at hip
      cases hip
    · rw [hhost ns hns]
      exact Nat.zero_le _
  exact ⟨fun _ hr _ => Or.inr (mem_singleton.mp hr ▸ hd), Or.inr ⟨rfl, rfl, nameZ, hd⟩⟩

/-- The question for the address of `c.z.` in it. -/
theorem minimisation_transparent_cz :
    netZ.Authoritative worldZ (recordsReply worldZ.records) ∧
      ∃ on off, (descend { netZ with qmin := true } nameCz Rtype.A maxQueries { world := () }).1 =
          some on ∧
        (descend { netZ with qmin := false } nameCz Rtype.A maxQueries { world := () }).1 =
          some off ∧ SameContent on off :=
  ⟨authoritative_netZ, (minimisation_transparent (tells_recordsReply worldZ) authoritative_netZ
    (by decide) (fun e he => by cases he) (fun e he => by cases he) (by decide +kernel)
    (by decide +kernel)).1⟩

end Runbound.Recursor
