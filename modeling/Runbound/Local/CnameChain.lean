import Runbound.Local.LiveSet

/-!
# CNAME chains in local zones (`dns/wire_serve.rs`)

`follow_cname` follows at most eight CNAMEs and gives up, with nothing to return, unless one of
their targets has records of the type asked for.

Results:
* `owned_foldl`: in every set the server can have, the records of a name are owned by it and of
  class IN.
* `answerLocal_chain_iff`: the answer is a chain of CNAMEs exactly where the zone is served from
  its records and the chain reaches a local record set in time.
* `foreign_target_dropped`: a CNAME whose target is not local is not returned.
-/

namespace Runbound.Local

open Wire Lib List Rtype Class Option

/-! ## Specification -/

/-- CNAMEs of the set, each owned by the target of the one before, that lead to `target`. -/
def Leads (z : LocalZoneSet) : Bytes → List Record → Bytes → Prop
  | key, [], target => key = target
  | key, c :: cs, target =>
    c ∈ z.localRecordsWire key CNAME ∧ wireNameKey c.name = key ∧
      ∃ n, c.rdata = .cname n ∧ Leads z (lower n.wire) cs target

/-- An answer for a name that owns a CNAME: a chain of CNAMEs from that name, then the records
    the last target has, no record twice. -/
def ChainAnswer (z : LocalZoneSet) (key : Bytes) (qtype : U16) (answers : List Record) : Prop :=
  ∃ cs target, cs ≠ [] ∧ Leads z key cs target ∧
    answers = cs ++ z.localRecordsWire target qtype ∧
    (∀ r ∈ z.localRecordsWire target qtype, wireNameKey r.name = target) ∧ answers.Nodup

/-- The target of the first CNAME of a name. -/
def LocalZoneSet.aliasOf (z : LocalZoneSet) (key : Bytes) : Option Bytes :=
  (z.localRecordsWire key CNAME).head?.bind fun r =>
    match r.rdata with
    | .cname n => some (lower n.wire)
    | _ => none

/-- The first target with records of type `qtype` is `target`, after `k` targets without. -/
inductive ReachesLocal (z : LocalZoneSet) (qtype : U16) : ℕ → Bytes → Bytes → Prop
  | here {key target : Bytes} : z.aliasOf key = some target →
      z.localRecordsWire target qtype ≠ [] → ReachesLocal z qtype 0 key target
  | next {k : ℕ} {key mid target : Bytes} : z.aliasOf key = some mid →
      z.localRecordsWire mid qtype = [] → ReachesLocal z qtype k mid target →
      ReachesLocal z qtype (k + 1) key target

/-! ## Owners -/

/-- The records of a name are owned by it, and of class IN. -/
def OwnedAt (n : Bytes) (v : View) : Prop :=
  ∀ r ∈ v.1.getD [], wireNameKey r.name = n ∧ r.rclass = IN

theorem ownedAt_addEffect {r : Record} (hr : r.rclass = IN) (v : View)
    (h : OwnedAt (wireNameKey r.name) v) :
    OwnedAt (wireNameKey r.name) (addEffect r v) := by
  intro r' hr'
  rcases mem_append.mp hr' with hr' | hr'
  · exact h r' hr'
  · rw [mem_singleton.mp hr']
    exact ⟨rfl, hr⟩

theorem ownedAt_deleteEffect (wr : Record) (n : Bytes) (v : View) (h : OwnedAt n v) :
    OwnedAt n (deleteEffect wr v) := by
  obtain ⟨_ | recs, action⟩ := v
  · exact h
  intro r hr
  simp only [deleteEffect, elim_some] at hr
  split_ifs at hr
  · cases hr
  · exact h r (mem_of_mem_eraseP hr)

theorem ownedAt_rrEffect (rr : Record) (v : View) (h : OwnedAt (wireNameKey rr.name) v) :
    OwnedAt (wireNameKey rr.name) (rrEffect v rr) := by
  have hfilter : ∀ p : Record → Bool,
      OwnedAt (wireNameKey rr.name) (v.1.map (List.filter p), v.2) := by
    intro p r hr
    obtain ⟨_ | recs, action⟩ := v
    · cases hr
    · exact h r (mem_of_mem_filter hr)
  unfold rrEffect
  split_ifs with hany htype hnone hin hpresent
  · intro r hr
    cases hr
  · exact hfilter _
  · exact hfilter _
  · exact h
  · exact ownedAt_addEffect hin.1 v h
  · exact h

theorem owned_update (rrs : List Record) {z : LocalZoneSet} (hz : ∀ n, OwnedAt n (z.view n)) :
    ∀ n, OwnedAt n ((rrs.foldl applyRr z).view n) := by
  induction rrs generalizing z with
  | nil => exact hz
  | cons rr rrs ih => exact ih ((actsAt_applyRr rr).keeps (ownedAt_rrEffect rr _) hz)

/-- Every set that changes make of a configuration keeps its records at their owners. -/
theorem owned_foldl (hw : Bool) (iter : IterOrder) (zones : List LocalZone) (data : List LocalData)
    (cs : List Change) (n : Bytes) :
    OwnedAt n ((cs.foldl Change.apply (fromConfig hw iter zones data)).view n) := by
  refine List.foldlRecOn (motive := fun z : LocalZoneSet => ∀ n, OwnedAt n (z.view n)) cs _ ?_
    (fun z hz c _ => c.apply_keeps (fun r => ownedAt_addEffect r.prop.1)
      (fun r v => ownedAt_deleteEffect r _ v) (fun _ _ _ h => h)
      (fun rrs _ => owned_update rrs hz) hz) n
  intro n r hr
  change r ∈ ((configRecords data).lookup n).getD [] at hr
  rw [lookup_configRecords, getD_ifAny] at hr
  obtain ⟨hline, hname⟩ := mem_filter.mp hr
  obtain ⟨d, -, hd⟩ := mem_filterMap.mp hline
  obtain ⟨wr, -, rfl⟩ := map_eq_some_iff.mp hd
  exact ⟨by simpa using hname, wr.prop.1⟩

/-! ## The chase -/

variable {z : LocalZoneSet} {qtype : U16}

/-- Where a chain arrives, and after how many CNAMEs, is determined by the name. -/
theorem ReachesLocal.unique {k k' : ℕ} {key target target' : Bytes}
    (h : ReachesLocal z qtype k key target) (h' : ReachesLocal z qtype k' key target') :
    k = k' ∧ target = target' := by
  induction h generalizing k' with
  | here halias hlocal =>
    cases h' with
    | here halias' => exact ⟨rfl, Option.some.inj (halias.symm.trans halias')⟩
    | next halias' hnone =>
      obtain rfl := Option.some.inj (halias.symm.trans halias')
      exact absurd hnone hlocal
  | next halias hnone _ ih =>
    cases h' with
    | here halias' hlocal =>
      obtain rfl := Option.some.inj (halias.symm.trans halias')
      exact absurd hnone hlocal
    | next halias' _ hrest =>
      obtain rfl := Option.some.inj (halias.symm.trans halias')
      obtain ⟨rfl, htarget⟩ := ih hrest
      exact ⟨rfl, htarget⟩

/-- A name with a target has a CNAME with that target, the first of its CNAMEs. -/
theorem aliasOf_eq_some {key next : Bytes} (h : z.aliasOf key = some next) :
    ∃ c n, (z.localRecordsWire key CNAME).head? = some c ∧ c.rdata = .cname n ∧
      lower n.wire = next := by
  obtain ⟨c, hc, htarget⟩ := bind_eq_some_iff.mp h
  split at htarget
  · rename_i n hn
    exact ⟨c, n, hc, hn, Option.some.inj htarget⟩
  · cases htarget

theorem followCnameLoop_succ (fuel : ℕ) (current : Bytes) (chain : List Record) :
    followCnameLoop z qtype (fuel + 1) current chain = [] ∧ z.aliasOf current = none ∨
      ∃ c n, (z.localRecordsWire current CNAME).head? = some c ∧ c.rdata = .cname n ∧
        z.aliasOf current = some (lower n.wire) ∧
        followCnameLoop z qtype (fuel + 1) current chain =
          if z.localRecordsWire (lower n.wire) qtype ≠ [] then
            chain ++ [c] ++ z.localRecordsWire (lower n.wire) qtype
          else followCnameLoop z qtype fuel (lower n.wire) (chain ++ [c]) := by
  cases ha : z.aliasOf current with
  | some next =>
    obtain ⟨c, n, hc, hn, rfl⟩ := aliasOf_eq_some ha
    refine Or.inr ⟨c, n, hc, hn, rfl, ?_⟩
    rw [followCnameLoop, hc]
    simp only [hn]
  | none =>
    refine Or.inl ⟨?_, rfl⟩
    rw [followCnameLoop]
    cases hc : (z.localRecordsWire current CNAME).head? with
    | none => rfl
    | some c =>
      simp only [LocalZoneSet.aliasOf, hc, bind_some] at ha
      split at ha
      · cases ha
      · simp

theorem followCnameLoop_eq_nil {fuel : ℕ} {current : Bytes} (chain : List Record)
    (h : ∀ k < fuel, ∀ t, ¬ ReachesLocal z qtype k current t) :
    followCnameLoop z qtype fuel current chain = [] := by
  induction fuel generalizing current chain with
  | zero => rfl
  | succ fuel ih =>
    rcases @followCnameLoop_succ z qtype fuel current chain with
      ⟨hnil, -⟩ | ⟨c, n, -, -, ha, hloop⟩
    · exact hnil
    by_cases hlocal : z.localRecordsWire (lower n.wire) qtype = []
    · rw [hloop, if_neg (not_not.mpr hlocal)]
      apply ih
      intro k hk t ht
      exact h (k + 1) (by omega) t (.next ha hlocal ht)
    · exact absurd (.here ha hlocal) (h 0 (by omega) _)

theorem mem_localRecordsWire (hz : ∀ n, OwnedAt n (z.view n)) {key : Bytes} {t : U16} {r : Record}
    (hr : r ∈ z.localRecordsWire key t) : wireNameKey r.name = key ∧ r.rtype = t := by
  obtain ⟨hmem, ht⟩ := mem_filter.mp hr
  exact ⟨(hz key r hmem).1, by simpa using ht⟩

/-- A chain that arrives in time: its CNAMEs, none with more left than the first, and the
    records it arrives at. -/
theorem followCnameLoop_of_reaches (hz : ∀ n, OwnedAt n (z.view n)) {k fuel : ℕ}
    {current target : Bytes} (h : ReachesLocal z qtype k current target) (hk : k < fuel)
    (chain : List Record) :
    ∃ cs, followCnameLoop z qtype fuel current chain =
        chain ++ cs ++ z.localRecordsWire target qtype ∧
      cs ≠ [] ∧ Leads z current cs target ∧ cs.Nodup ∧
      ∀ c ∈ cs, c.rtype = CNAME ∧ ∃ j ≤ k, ReachesLocal z qtype j (wireNameKey c.name) target := by
  obtain ⟨fuel, rfl⟩ : ∃ m, fuel = m + 1 := ⟨fuel - 1, by omega⟩
  induction h generalizing fuel chain with
  | @here key target halias hlocal =>
    rcases @followCnameLoop_succ z qtype fuel key chain with
      ⟨-, hnone⟩ | ⟨c, n, hc, hn, ha, hloop⟩
    · cases halias.symm.trans hnone
    obtain rfl := Option.some.inj (halias.symm.trans ha)
    have hmem := mem_of_mem_head? hc
    obtain ⟨hown, htype⟩ := mem_localRecordsWire hz hmem
    refine ⟨[c], by rw [hloop, if_pos hlocal], by simp, ⟨hmem, hown, n, hn, rfl⟩, by simp, ?_⟩
    intro c' hc'
    rw [mem_singleton.mp hc', hown]
    exact ⟨htype, 0, le_rfl, .here halias hlocal⟩
  | @next k key mid target halias hnone hrest ih =>
    rcases @followCnameLoop_succ z qtype fuel key chain with
      ⟨-, hnil⟩ | ⟨c, n, hc, hn, ha, hloop⟩
    · cases halias.symm.trans hnil
    obtain rfl := Option.some.inj (halias.symm.trans ha)
    have hmem := mem_of_mem_head? hc
    obtain ⟨hown, htype⟩ := mem_localRecordsWire hz hmem
    have hall := ReachesLocal.next halias hnone hrest
    obtain ⟨fuel, rfl⟩ : ∃ m, fuel = m + 1 := ⟨fuel - 1, by omega⟩
    obtain ⟨cs, heq, -, hleads, hnodup, hleft⟩ := ih (chain ++ [c]) fuel (by omega)
    refine ⟨c :: cs, ?_, by simp, ⟨hmem, hown, n, hn, hleads⟩, nodup_cons.mpr ⟨?_, hnodup⟩, ?_⟩
    · rw [hloop, if_neg (not_not.mpr hnone), heq]
      simp
    · -- a record that came again would have two numbers of CNAMEs left
      intro hagain
      obtain ⟨-, j, hj, hreach⟩ := hleft c hagain
      rw [hown] at hreach
      have hsame := (hreach.unique hall).1
      omega
    · intro c' hc'
      rcases mem_cons.mp hc' with rfl | hc'
      · exact ⟨htype, k + 1, le_rfl, hown ▸ hall⟩
      · obtain ⟨ht, j, hj, hreach⟩ := hleft c' hc'
        exact ⟨ht, j, by omega, hreach⟩

/-! ## The answer -/

theorem localVerdict_answers {key : Bytes} (ht : qtype ≠ CNAME)
    (hnone : z.localRecordsWire key qtype = []) (a : ZoneAction) :
    (localVerdict z key qtype a).2.2 =
      if a = .static ∨ a = .redirect then followCname z key qtype else [] := by
  have hserved : ∀ b : ZoneAction, b = .static ∨ b = .redirect →
      (localVerdict z key qtype b).2.2 = followCname z key qtype := by
    · simp only [localVerdict]
      split_ifs with hempty <;> simp_all
  by_cases ha : a = .static ∨ a = .redirect
  · rw [if_pos ha, hserved a ha]
  · rw [if_neg ha]
    cases a <;> simp_all [localVerdict]

/-- A query for a name without records of the type asked for is answered with a chain of CNAMEs
    exactly if the zone is served from its records and, after at most eight CNAMEs, there are
    records of the type, none of them twice. -/
theorem answerLocal_chain_iff (hw : Bool) (iter : IterOrder) (zones : List LocalZone)
    (data : List LocalData) (cs : List Change) {m : Message} {q : Question} {a : ZoneAction}
    (hz : z = cs.foldl Change.apply (fromConfig hw iter zones data))
    (hq : m.firstQuestion = some q) (ht : q.qtype ≠ CNAME)
    (hnone : z.localRecordsWire (lower q.name.wire) q.qtype = [])
    (ha : z.findWire (lower q.name.wire) = some a) :
    ∃ core, answerLocal m z = some (core, a) ∧
      (ChainAnswer z (lower q.name.wire) q.qtype core.answers ↔
        (a = .static ∨ a = .redirect) ∧
          ∃ k < 8, ∃ target, ReachesLocal z q.qtype k (lower q.name.wire) target ∧
            (z.localRecordsWire target q.qtype).Nodup) := by
  have howned : ∀ n, OwnedAt n (z.view n) := hz ▸ owned_foldl hw iter zones data cs
  obtain ⟨core, hcore⟩ := exists_answerLocal hq ha
  refine ⟨core, hcore, ?_⟩
  rw [(answerLocal_eq_some hq hcore).2.2, localVerdict_answers ht hnone]
  by_cases hserved : a = .static ∨ a = .redirect
  swap
  · rw [if_neg hserved]
    refine iff_of_false ?_ fun h => hserved h.1
    rintro ⟨cs, target, hne, -, heq, -⟩
    exact hne (append_eq_nil_iff.mp heq.symm).1
  rw [if_pos hserved]
  by_cases hreach : ∃ k < 8, ∃ target, ReachesLocal z q.qtype k (lower q.name.wire) target
  swap
  · have hnil : followCname z (lower q.name.wire) q.qtype = [] :=
      followCnameLoop_eq_nil [] fun k hk t h => hreach ⟨k, hk, t, h⟩
    rw [hnil]
    refine iff_of_false ?_ ?_
    · rintro ⟨cs, target, hne, -, heq, -⟩
      exact hne (append_eq_nil_iff.mp heq.symm).1
    · rintro ⟨-, k, hk, target, h, -⟩
      exact hreach ⟨k, hk, target, h⟩
  obtain ⟨k, hk, target, h⟩ := hreach
  obtain ⟨cs, heq, hne, hleads, hnodup, hleft⟩ := followCnameLoop_of_reaches howned h hk []
  have hchain : followCname z (lower q.name.wire) q.qtype =
      cs ++ z.localRecordsWire target q.qtype := heq
  rw [hchain]
  have hdisjoint : List.Disjoint cs (z.localRecordsWire target q.qtype) := fun c hc hr =>
    ht ((mem_localRecordsWire howned hr).2.symm.trans (hleft c hc).1)
  constructor
  · rintro ⟨-, -, -, -, -, -, hall⟩
    exact ⟨hserved, k, hk, target, h, (nodup_append'.mp hall).2.1⟩
  · rintro ⟨-, k', -, target', h', hrrset⟩
    obtain rfl := (h.unique h').2
    exact ⟨cs, target, hne, hleads, rfl, fun r hr => (mem_localRecordsWire howned hr).1,
      nodup_append'.mpr ⟨hnodup, hrrset, hdisjoint⟩⟩

theorem aliasRecord_parsed : (Rdata.cname nameA).parsedAs CNAME = true := rfl

/-- `w.a. 300 IN CNAME a.` -/
def aliasRecord : Record := ⟨nameBelow, CNAME, IN, 300, .cname nameA, aliasRecord_parsed⟩

theorem aliasRecord_ofText : aliasRecord.rclass = IN ∧ ofText aliasRecord.rdata = true := ⟨rfl, rfl⟩

/-- The set of a configuration with the alias and `lines`. -/
def aliasZones (lines : List LocalData) : LocalZoneSet :=
  fromConfig false listOrder [] (⟨some ⟨aliasRecord, aliasRecord_ofText⟩⟩ :: lines)

/-- The query for the A records of the alias. -/
def aliasQuery : Message where
  questions := [⟨nameBelow, Rtype.A, IN⟩]

/-- With `a.` configured too, the alias is answered with a chain. -/
theorem answerLocal_chain_iff_alias :
    ∃ core, answerLocal aliasQuery (aliasZones [lineA]) = some (core, .static) ∧
      (ChainAnswer (aliasZones [lineA]) (lower nameBelow.wire) Rtype.A core.answers ↔
        (ZoneAction.static = .static ∨ ZoneAction.static = .redirect) ∧
          ∃ k < 8, ∃ target,
            ReachesLocal (aliasZones [lineA]) Rtype.A k (lower nameBelow.wire) target ∧
            ((aliasZones [lineA]).localRecordsWire target Rtype.A).Nodup) :=
  answerLocal_chain_iff (z := aliasZones [lineA]) (q := ⟨nameBelow, Rtype.A, IN⟩) false
    listOrder [] [⟨some ⟨aliasRecord, aliasRecord_ofText⟩⟩, lineA] []
    rfl rfl (by decide) (by decide +kernel) (by decide +kernel)

/-- Alone, the CNAME is stored and its name is local, but the answer is empty. -/
theorem foreign_target_dropped :
    (aliasZones []).localRecordsWire (lower nameBelow.wire) CNAME = [aliasRecord] ∧
      (answerLocal aliasQuery (aliasZones [])).map (fun p => (p.1.answers, p.2)) =
        some ([], .static) ∧
      ¬ ChainAnswer (aliasZones []) (lower nameBelow.wire) Rtype.A [] := by
  refine ⟨by decide +kernel, by decide +kernel, ?_⟩
  rintro ⟨cs, target, hne, -, heq, -⟩
  exact hne (append_eq_nil_iff.mp heq.symm).1

end Runbound.Local
