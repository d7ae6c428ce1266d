import Runbound.Local.Update

/-!
# The live zone set and a rebuilt one (`api/mod.rs`, `main.rs`)

The API handlers change a copy of the live set and their file; `build_zone_set` makes a set of
the configuration, the files and the feeds. What it makes of a name has a closed form: the
records of the lines, and the last override, the last configured zone or an implicit static
zone, in this order.

Results:
* `view_buildZoneSet`: what a rebuilt set has for a name.
* `live_asRebuilt`: for every sequence of requests that keep to conditions on the files, the live
  set answers as a rebuilt one.
-/

namespace Runbound.Local

open Wire FastPath Lib List Option Map

/-! ## What a rebuilt set has for a name -/

/-- A list that has something. -/
def ifAny {α : Type} (l : List α) : Option (List α) := if l.isEmpty then none else some l

@[simp] theorem getD_ifAny {α : Type} (l : List α) : (ifAny l).getD [] = l := by
  cases l <;> rfl

/-- The records that the lines give a name. -/
def linesAt (lines : List LocalData) (n : Bytes) : List Record :=
  (lines.filterMap fun d => d.rr.map Subtype.val).filter fun r => wireNameKey r.name = n

/-- The actions that overrides give a name. -/
def actionsAt (overrides : List (Bytes × ZoneAction)) (n : Bytes) : List ZoneAction :=
  (overrides.filter fun e => textKey e.1 = some n).map Prod.snd

theorem linesAt_append (l l' : List LocalData) (n : Bytes) :
    linesAt (l ++ l') n = linesAt l n ++ linesAt l' n := by
  simp only [linesAt, filterMap_append, filter_append]

theorem linesAt_singleton (line : LocalData) (n : Bytes) :
    linesAt [line] n =
      line.rr.elim [] fun wr => if wireNameKey wr.val.name = n then [wr.val] else [] := by
  unfold linesAt
  cases h : line.rr with
  | none => simp [h]
  | some wr => by_cases hn : wireNameKey wr.val.name = n <;> simp [h, hn]

theorem actionsAt_append (l l' : List (Bytes × ZoneAction)) (n : Bytes) :
    actionsAt (l ++ l') n = actionsAt l n ++ actionsAt l' n := by
  simp only [actionsAt, filter_append, map_append]

theorem actionsAt_singleton (e : Bytes × ZoneAction) (n : Bytes) :
    actionsAt [e] n = if textKey e.1 = some n then [e.2] else [] := by
  unfold actionsAt
  by_cases h : textKey e.1 = some n <;> simp [h]

namespace Disk

variable (d : Disk) (n : Bytes)

/-- The records of the configuration and the store. -/
def records : List Record := linesAt (d.localData ++ d.entries) n

/-- The last configured zone. -/
def zone : Option ZoneAction :=
  (((configZones d.localZones).filter fun e => e.1 = n).map Prod.snd).getLast?

/-- The last override, or the last configured zone. -/
def ownAction : Option ZoneAction := (actionsAt (d.blacklist ++ d.feeds) n).getLast?.or (d.zone n)

/-- The zone action: names with records are static zones of themselves. -/
def action : Option ZoneAction :=
  (d.ownAction n).or (if (d.records n).isEmpty then none else some .static)

/-- The block-page record. -/
def blockPage : List Record :=
  if d.action n = some .blockPage then
    (d.blockPageRedirectIp.bind fun ip => blockPageRecord ip n).toList
  else []

/-- What a set built from these files has for a name. -/
def view : View := (ifAny (d.records n ++ d.blockPage n), d.action n)

end Disk

variable {α : Type} {id : ℕ}

theorem foldl_push (l : List α) (v : Option (List α)) :
    l.foldl (fun v x => some (v.getD [] ++ [x])) v = if l.isEmpty then v else some (v.getD [] ++ l) := by
  induction l generalizing v with
  | nil => rfl
  | cons x l ih =>
    rw [foldl_cons, ih]
    cases l <;> simp

theorem foldl_last {β : Type} (f : α → β) (l : List α) (v : Option β) :
    l.foldl (fun _ x => some (f x)) v = (l.map f).getLast?.or v := by
  induction l using List.reverseRecOn with
  | nil => rfl
  | append_singleton l x ih => simp

theorem lookup_configRecords (data : List LocalData) (n : Bytes) :
    (configRecords data).lookup n = ifAny (linesAt data n) := by
  have hfold : configRecords data = (data.filterMap fun d => d.rr.map Subtype.val).foldl
      (fun m r => Map.modify (wireNameKey r.name) [] (· ++ [r]) m) ∅ := by
    rw [foldl_filterMap]
    unfold configRecords
    congr 1
    funext m d
    cases d.rr <;> rfl
  have hat : ∀ r : Record, Keyed.ActsAt (fun (m : Map Bytes (List Record)) n => m.lookup n)
      (fun m => Map.modify (wireNameKey r.name) [] (· ++ [r]) m) (wireNameKey r.name)
      fun v => some (v.getD [] ++ [r]) := by
    intro r m n
    simp only [lookup_modify]
    split_ifs with h
    · rw [h]
    · rfl
  rw [hfold]
  refine (Keyed.view_foldl hat _ _ n).trans ?_
  rw [foldl_push]
  rfl

theorem lookup_insertAll_last (es : List (Bytes × ZoneAction)) (m : Map Bytes ZoneAction)
    (n : Bytes) :
    (Map.insertAll es m).lookup n =
      ((es.filter fun e => e.1 = n).map Prod.snd).getLast?.or (m.lookup n) := by
  have hat : ∀ e : Bytes × ZoneAction, Keyed.ActsAt (fun (m : Map Bytes ZoneAction) n => m.lookup n)
      (fun m => m.insert e.1 e.2) e.1 fun _ => some e.2 := by
    intro e m n
    exact lookup_insert_eq m e.1 n e.2
  refine (Keyed.view_foldl hat es m n).trans ?_
  exact foldl_last Prod.snd _ _

theorem lookup_orInserts (keys : List Bytes) (m : Map Bytes ZoneAction) (n : Bytes) :
    (keys.foldl (fun m key => Map.orInsert key .static m) m).lookup n =
      if n ∈ keys then some ((m.lookup n).getD .static) else m.lookup n := by
  induction keys generalizing m with
  | nil => simp
  | cons key keys ih =>
    rw [foldl_cons, ih, lookup_orInsert]
    by_cases hkey : n = key
    · subst hkey
      simp
    · simp [hkey]

theorem view_fromConfig (hw : Bool) (iter : IterOrder) (zones : List LocalZone)
    (data : List LocalData) (n : Bytes) :
    (fromConfig hw iter zones data).view n =
      (ifAny (linesAt data n),
        (((configZones zones).filter fun e => e.1 = n).map Prod.snd).getLast?.or
          (if (linesAt data n).isEmpty then none else some .static)) := by
  have hkeys : n ∈ (configRecords data).keys ↔ ¬ (linesAt data n).isEmpty := by
    rw [← AList.mem_keys, ← AList.lookup_isSome, lookup_configRecords]
    unfold ifAny
    split_ifs with h <;> simp [h]
  unfold LocalZoneSet.view fromConfig
  rw [lookup_configRecords, lookup_orInserts, lookup_insertAll_last]
  by_cases hempty : (linesAt data n).isEmpty = true
  · rw [if_neg fun h => hkeys.mp h hempty, if_pos hempty]
    rfl
  · rw [if_pos (hkeys.mpr hempty), if_neg hempty]
    cases (((configZones zones).filter fun e => e.1 = n).map Prod.snd).getLast? <;> rfl

theorem view_overrides (l : List (Bytes × ZoneAction)) (z : LocalZoneSet) (n : Bytes) :
    (l.foldl (fun z e => z.overrideZone e.1 e.2) z).view n =
      ((z.view n).1, (actionsAt l n).getLast?.or (z.view n).2) := by
  induction l using List.reverseRecOn with
  | nil => rfl
  | append_singleton l e ih =>
    rw [foldl_append, foldl_cons, foldl_nil, actionsAt_append, actionsAt_singleton]
    cases hkey : textKey e.1 with
    | none =>
      rw [LocalZoneSet.overrideZone, hkey]
      simp [ih]
    | some key =>
      rw [actsAt_overrideZone hkey, ih]
      by_cases hn : n = key
      · rw [hn]
        simp
      · have hne : ¬ some key = some n := fun h => hn (Option.some.inj h).symm
        rw [if_neg hn, if_neg hne, append_nil]

theorem view_addBlockPages (ip : Fin 4 → Byte) (z : LocalZoneSet) (n : Bytes) :
    (z.addBlockPages ip).view n =
      (if (z.view n).2 = some .blockPage then
        (blockPageRecord ip n).elim (z.view n).1 fun r => some ((z.view n).1.getD [] ++ [r])
        else (z.view n).1, (z.view n).2) := by
  refine Prod.ext ?_ rfl
  have hat : ∀ key : Bytes, Keyed.ActsAt (fun (m : Map Bytes (List Record)) n => m.lookup n)
      (fun m => (blockPageRecord ip key).elim m fun r => Map.modify key [] (· ++ [r]) m) key
      fun v => (blockPageRecord ip key).elim v fun r => some (v.getD [] ++ [r]) := by
    intro key m n
    cases blockPageRecord ip key with
    | none => simp
    | some r =>
      simp only [lookup_modify, elim_some]
      split_ifs with h
      · rw [h]
      · rfl
  -- the keys are those of the block-page zones, each once
  generalize hkeys : (z.zonesWire.entries.filter fun e => e.2 = .blockPage).map Sigma.fst = keys
  have hmem : n ∈ keys ↔ z.zonesWire.lookup n = some .blockPage := by
    rw [← hkeys, Map.lookup_eq_some_iff]
    constructor
    · simp
    · simp
  have hnodup : keys.Nodup := by
    rw [← hkeys]
    exact List.Nodup.sublist (filter_sublist.map _) z.zonesWire.nodupKeys
  have hfold := Keyed.view_foldl hat keys z.recordsWire n
  have honce : (keys.filter fun key => key = n) = if n ∈ keys then [n] else [] := by
    rw [filter_eq]
    split_ifs with h
    · rw [count_eq_one_of_mem hnodup h]
      rfl
    · rw [count_eq_zero_of_not_mem h]
      rfl
  show (LocalZoneSet.addBlockPages ip z).recordsWire.lookup n = _
  unfold LocalZoneSet.addBlockPages
  simp only [hkeys]
  refine (congrArg (AList.lookup n) (foldl_ext _ (fun m key =>
    (blockPageRecord ip key).elim m fun r => Map.modify key [] (· ++ [r]) m) _ ?_)).trans
      (hfold.trans ?_)
  · intro m key _
    cases blockPageRecord ip key with
    | none => rfl
    | some r => rfl
  rw [honce]
  show _ = if z.zonesWire.lookup n = some .blockPage then _ else _
  by_cases hb : z.zonesWire.lookup n = some .blockPage
  · rw [if_pos hb, if_pos (hmem.mpr hb)]
    rfl
  · rw [if_neg hb, if_neg fun h => hb (hmem.mp h)]
    rfl

/-- What `build_zone_set` makes of a name. -/
theorem view_buildZoneSet (hw : Bool) (iter : IterOrder) (d : Disk) (n : Bytes) :
    (buildZoneSet hw iter d).view n = d.view n := by
  have hzones : ((d.blacklist ++ d.feeds).foldl (fun z e => z.overrideZone e.1 e.2)
      (fromConfig hw iter d.localZones (d.localData ++ d.entries))).view n =
      (ifAny (d.records n), d.action n) := by
    rw [view_overrides, view_fromConfig, ← Option.or_assoc]
    rfl
  unfold buildZoneSet Disk.view Disk.blockPage
  cases d.blockPageRedirectIp with
  | none =>
    simp only [hzones, bind_none, toList_none, ite_self, append_nil]
  | some ip =>
    simp only [view_addBlockPages, hzones]
    split_ifs with hb
    · rw [bind_some]
      generalize blockPageRecord ip n = page
      cases page with
      | none => simp
      | some r =>
        rw [getD_ifAny]
        simp [ifAny]
    · simp

/-! ## The live set -/

/-- What `build_zone_set` reads at time `now`. -/
def Files.disk (f : Files) (cfg : UnboundConfig) (now : ℕ) : Disk :=
  (f.readFeeds (f.readBlacklist now (f.readEntries 0 (.ofConfig cfg)))).disk

/-- The files, the published set and the time. -/
structure Live where
  files : Files
  zones : LocalZoneSet
  now : ℕ

namespace Live

/-- A start, or a restart: the set is built. -/
def start (hw : Bool) (iter : IterOrder) (cfg : UnboundConfig) (files : Files) (now : ℕ) : Live where
  files := files
  zones := buildZoneSet hw iter (files.disk cfg now)
  now := now

/-- A request at time `op.1`. -/
def step (s : Live) (op : ℕ × Handler) : Live :=
  match op.2.prepare s.files with
  | .error _ => { s with now := op.1 }
  | .ok (files, none) => ⟨files, s.zones, op.1⟩
  | .ok (files, some change) => ⟨files, (change op.1).apply s.zones, op.1⟩

/-- The live set answers as one that is built from the files now. -/
def AsRebuilt (cfg : UnboundConfig) (s : Live) : Prop :=
  ∀ hw iter,
    (∀ q, s.zones.findWire q = (buildZoneSet hw iter (s.files.disk cfg s.now)).findWire q) ∧
      ∀ q qtype, s.zones.localRecordsWire q qtype =
        (buildZoneSet hw iter (s.files.disk cfg s.now)).localRecordsWire q qtype

end Live

/-! ## Views that answer alike -/

/-- The same zone action, and the same records of each type. -/
structure AnswersAs (v w : View) : Prop where
  action : v.2 = w.2
  records : ∀ qtype, (v.1.getD []).filter (fun r => r.rtype = qtype) =
    (w.1.getD []).filter (fun r => r.rtype = qtype)

theorem AnswersAs.refl (v : View) : AnswersAs v v := ⟨rfl, fun _ => rfl⟩

theorem asRebuilt_of_answersAs {cfg : UnboundConfig} {s : Live}
    (h : ∀ n, AnswersAs (s.zones.view n) ((s.files.disk cfg s.now).view n)) : s.AsRebuilt cfg := by
  intro hw iter
  constructor
  · intro q
    apply findWire_congr
    intro n _
    have hbuilt := congrArg Prod.snd (view_buildZoneSet hw iter (s.files.disk cfg s.now) n)
    exact (h n).action.trans hbuilt.symm
  · intro q qtype
    have hbuilt := congrArg Prod.fst (view_buildZoneSet hw iter (s.files.disk cfg s.now) q)
    have hrecords := (h q).records qtype
    rw [← hbuilt] at hrecords
    exact hrecords

/-! ## When a request keeps them alike -/

/-- Conditions on the files before a request.
    - A rebuilt set has the block-page record of a name after all others, the live set where it
      was when the set was built.
    - The live set loses the first record with the data of a deleted entry, the rebuilt set that of
      the entry; and the live set forgets the zone action of a name with its last record.
    - A rebuilt set applies the feeds after the blacklist, and block-page records are made by a
      build only.
    - The live set forgets the zone action of a deleted blacklist entry, whatever else gives the
      name one. -/
def Handler.Keeps (cfg : UnboundConfig) (f : Files) (now : ℕ) : Handler → Prop
  | addDns entry _ =>
    ∀ wr, entry.line.rr = some wr →
      (f.disk cfg now).blockPage (wireNameKey wr.val.name) = [] ∨ wr.val.rtype ≠ Rtype.A
  | deleteDns id _ _ =>
    ∀ entry wr, (f.entries.getD []).find? (·.id = id) = some entry → entry.line.rr = some wr →
      (∀ r ∈ linesAt (cfg.localData ++
          ((f.entries.getD []).takeWhile (·.id ≠ id)).map DnsEntry.line) (wireNameKey wr.val.name),
        matchesRr wr.val r = false) ∧
      ((f.disk cfg now).records (wireNameKey wr.val.name) = [wr.val] →
        (f.disk cfg now).blockPage (wireNameKey wr.val.name) = [] →
        (f.disk cfg now).ownAction (wireNameKey wr.val.name) = none)
  | addBlacklist entry _ =>
    ∀ key, textKey entry.domain = some key → entry.isActive now = true →
      (∀ a, (actionsAt f.feeds key).getLast? = some a → a = entry.action) ∧
      (cfg.blockPageRedirectIp = none ∨
        ((f.disk cfg now).action key = some .blockPage ↔ entry.action = .blockPage))
  | deleteBlacklist id _ _ =>
    ∀ entry key, (f.blacklist.getD []).find? (·.id = id) = some entry →
      textKey entry.domain = some key →
      ({ f with blacklist := some ((f.blacklist.getD []).eraseP (·.id = id)) }.disk cfg now).action
        key = none ∧
      (f.disk cfg now).blockPage key = []

/-- No scheduled entry starts or ends in between, and the request, if it succeeds, keeps the live
    set and a rebuilt one alike. -/
def Live.Keeps (cfg : UnboundConfig) (s : Live) (op : ℕ × Handler) : Prop :=
  (∀ e ∈ s.files.blacklist.getD [], e.isActive op.1 = e.isActive s.now) ∧
    ((∃ out, op.2.prepare s.files = .ok out) → op.2.Keeps cfg s.files op.1)

section

variable {v w : View} {r : Record}

theorem AnswersAs.trans {u : View} (h : AnswersAs u v) (h' : AnswersAs v w) : AnswersAs u w where
  action := h.action.trans h'.action
  records qtype := (h.records qtype).trans (h'.records qtype)

theorem AnswersAs.add (h : AnswersAs v w) (r : Record) :
    AnswersAs (addEffect r v) (addEffect r w) where
  action := by
    simp only [addEffect, h.action]
  records qtype := by
    simp only [addEffect, getD_some, filter_append, h.records qtype]

theorem AnswersAs.setAction (h : AnswersAs v w) (a : Option ZoneAction) :
    AnswersAs (v.1, a) (w.1, a) := ⟨rfl, h.records⟩

/-- Taking out the first record with the data of `wr` leaves the other types alone. -/
theorem filter_eraseP_matches (wr : Record) (recs : List Record) (qtype : U16) :
    (recs.eraseP (matchesRr wr)).filter (fun r => r.rtype = qtype) =
      if qtype = wr.rtype then (recs.filter fun r => r.rtype = qtype).eraseP (matchesRr wr)
      else recs.filter fun r => r.rtype = qtype := by
  induction recs with
  | nil => simp
  | cons x recs ih =>
    cases hm : matchesRr wr x with
    | true =>
      have htype : x.rtype = wr.rtype := by
        simp only [matchesRr, Bool.and_eq_true, decide_eq_true_eq] at hm
        exact hm.1
      rw [eraseP_cons_of_pos hm]
      by_cases hq : qtype = wr.rtype
      · rw [if_pos hq, filter_cons_of_pos (by simp [htype, hq]), eraseP_cons_of_pos hm]
      · rw [if_neg hq, filter_cons_of_neg (by simpa [htype] using Ne.symm hq)]
    | false =>
      have hm' : ¬ matchesRr wr x = true := by simp [hm]
      rw [eraseP_cons_of_neg hm']
      by_cases hx : x.rtype = qtype
      · rw [filter_cons_of_pos (by simpa using hx), filter_cons_of_pos (by simpa using hx),
          eraseP_cons_of_neg hm', ih]
        split_ifs <;> rfl
      · rw [filter_cons_of_neg (by simpa using hx), filter_cons_of_neg (by simpa using hx), ih]

theorem eq_nil_iff_types {recs : List Record} :
    recs = [] ↔ ∀ qtype, (recs.filter fun r => r.rtype = qtype) = [] := by
  constructor
  · rintro rfl qtype
    rfl
  · intro h
    cases recs with
    | nil => rfl
    | cons r recs =>
      have := h r.rtype
      simp at this

theorem AnswersAs.delete (h : AnswersAs v w) (hne : w.1.getD [] ≠ []) (wr : Record) :
    AnswersAs (deleteEffect wr v) (deleteEffect wr w) := by
  have hne' : v.1.getD [] ≠ [] := by
    intro h'
    apply hne
    rw [eq_nil_iff_types] at h' ⊢
    intro qtype
    rw [← h.records, h']
  obtain ⟨_ | recs, action⟩ := v
  · exact absurd rfl hne'
  obtain ⟨_ | recs', action'⟩ := w
  · exact absurd rfl hne
  have hrecords : ∀ qtype, (recs.filter fun r => r.rtype = qtype) =
      recs'.filter fun r => r.rtype = qtype := h.records
  have hleft : ∀ qtype, (recs.eraseP (matchesRr wr)).filter (fun r => r.rtype = qtype) =
      (recs'.eraseP (matchesRr wr)).filter fun r => r.rtype = qtype := by
    intro qtype
    rw [filter_eraseP_matches, filter_eraseP_matches, hrecords]
  have hnil : recs.eraseP (matchesRr wr) = [] ↔ recs'.eraseP (matchesRr wr) = [] := by
    rw [eq_nil_iff_types, eq_nil_iff_types]
    simp only [hleft]
  show AnswersAs
    (if recs.eraseP (matchesRr wr) = [] then (none, none)
      else (some (recs.eraseP (matchesRr wr)), action))
    (if recs'.eraseP (matchesRr wr) = [] then (none, none)
      else (some (recs'.eraseP (matchesRr wr)), action'))
  by_cases hlast : recs.eraseP (matchesRr wr) = []
  · rw [if_pos hlast, if_pos (hnil.mp hlast)]
    exact AnswersAs.refl _
  · rw [if_neg hlast, if_neg fun h' => hlast (hnil.mpr h')]
    exact ⟨h.action, hleft⟩

end

/-! ## The files after a request -/

section

variable {d d' : Disk} {n key : Bytes} {wr : Record}

theorem Disk.blockPage_congr (hip : d'.blockPageRedirectIp = d.blockPageRedirectIp)
    (haction : d'.action n = d.action n) : d'.blockPage n = d.blockPage n := by
  unfold blockPage
  rw [haction, hip]

theorem Disk.rtype_blockPage (d : Disk) (n : Bytes) : ∀ r ∈ d.blockPage n, r.rtype = Rtype.A := by
  intro r hr
  unfold blockPage at hr
  split_ifs at hr with h
  · obtain ⟨ip, -, hpage⟩ := bind_eq_some_iff.mp (mem_toList.mp hr)
    obtain ⟨p, -, rfl⟩ := map_eq_some_iff.mp hpage
    rfl
  · cases hr

theorem Disk.blockPage_eq_nil (h : d.action n ≠ some .blockPage) : d.blockPage n = [] := if_neg h

theorem Disk.blockPage_of_noIp (h : d.blockPageRedirectIp = none) : d.blockPage n = [] := by
  unfold blockPage
  rw [h]
  exact ite_self []

theorem Disk.action_of_ne_nil (h : d.records n ≠ []) :
    d.action n = some ((d.ownAction n).getD .static) := by
  unfold action
  rw [isEmpty_eq_false_iff.mpr h]
  cases d.ownAction n <;> rfl

theorem Disk.action_of_nil (h : d.records n = []) : d.action n = d.ownAction n := by
  unfold action
  rw [h]
  cases d.ownAction n <;> rfl

/-- What a rebuilt set has for a name comes from the lines, the overrides and the zones there. -/
theorem Disk.view_congr (hip : d'.blockPageRedirectIp = d.blockPageRedirectIp)
    (hrecords : d'.records n = d.records n) (hown : d'.ownAction n = d.ownAction n) :
    d'.view n = d.view n := by
  have haction : d'.action n = d.action n := by
    unfold action
    rw [hrecords, hown]
  rw [view, view, hrecords, haction, blockPage_congr hip haction]

theorem Disk.answersAs_add (hip : d'.blockPageRedirectIp = d.blockPageRedirectIp)
    (hrecords : d'.records n = d.records n ++ [wr]) (hown : d'.ownAction n = d.ownAction n)
    (hpage : d.blockPage n = [] ∨ wr.rtype ≠ Rtype.A) :
    AnswersAs (addEffect wr (d.view n)) (d'.view n) := by
  have haction' : d'.action n = some ((d.ownAction n).getD .static) := by
    rw [action_of_ne_nil (by simp [hrecords]), hown]
  have haction : some ((d.action n).getD .static) = d'.action n := by
    by_cases hnil : d.records n = []
    · rw [haction', action_of_nil hnil]
    · rw [haction', action_of_ne_nil hnil, getD_some]
  have hpage' : d'.blockPage n = d.blockPage n := by
    unfold blockPage
    rw [← haction, hip]
    cases d.action n <;> simp
  refine ⟨haction, ?_⟩
  intro qtype
  rw [addEffect, view, view, getD_some, getD_ifAny, getD_ifAny, hrecords, hpage']
  simp only [filter_append, append_assoc]
  -- the record and the block page are of different types, or there is no block page
  rcases hpage with hnone | htype
  · simp [hnone]
  · by_cases hq : qtype = Rtype.A
    · have hwr : [wr].filter (fun r => r.rtype = qtype) = [] := by simp [hq, htype]
      rw [hwr, append_nil, nil_append]
    · have hnone : (d.blockPage n).filter (fun r => r.rtype = qtype) = [] := by
        rw [filter_eq_nil_iff]
        intro r hr
        rw [d.rtype_blockPage n r hr]
        simpa using Ne.symm hq
      rw [hnone, append_nil, nil_append]

/-- One line less: the first record with its data, and the last reason for a zone action if it was
    the last record. -/
theorem Disk.answersAs_delete {before after : List Record}
    (hip : d'.blockPageRedirectIp = d.blockPageRedirectIp)
    (hrecords : d.records n = before ++ wr :: after) (hrecords' : d'.records n = before ++ after)
    (hown : d'.ownAction n = d.ownAction n) (hfirst : ∀ r ∈ before, matchesRr wr r = false)
    (hlast : d.records n = [wr] → d.blockPage n = [] → d.ownAction n = none) :
    AnswersAs (deleteEffect wr (d.view n)) (d'.view n) := by
  have hne : d.records n ≠ [] := by simp [hrecords]
  have hmatch : matchesRr wr wr = true := by simp [matchesRr]
  have hleft : (d.records n ++ d.blockPage n).eraseP (matchesRr wr) =
      before ++ after ++ d.blockPage n := by
    rw [hrecords, append_assoc, eraseP_append_right _ (by simpa using hfirst),
      cons_append, eraseP_cons_of_pos hmatch, append_assoc]
  have heffect : deleteEffect wr (d.view n) =
      if before ++ after ++ d.blockPage n = [] then (none, none)
      else (some (before ++ after ++ d.blockPage n), d.action n) := by
    have hsome : (d.view n).1 = some (d.records n ++ d.blockPage n) := by
      show ifAny _ = _
      simp [ifAny, hne]
    rw [← hleft]
    unfold deleteEffect
    rw [hsome]
    rfl
  rw [heffect]
  by_cases hnil : before ++ after ++ d.blockPage n = []
  · rw [if_pos hnil]
    obtain ⟨rfl, rfl, hpage⟩ : before = [] ∧ after = [] ∧ d.blockPage n = [] := by
      simpa using hnil
    have haction : d'.action n = none := by
      rw [action_of_nil hrecords', hown, hlast hrecords hpage]
    have hpage' : d'.blockPage n = [] := blockPage_eq_nil (by simp [haction])
    rw [view, hrecords', haction, hpage']
    exact AnswersAs.refl _
  · rw [if_neg hnil]
    have haction : d'.action n = d.action n := by
      by_cases hrest : d'.records n = []
      · -- the block page is left, so the action is one of its own
        have hblock : d.action n = some .blockPage := by
          by_contra h
          apply hnil
          rw [← hrecords', hrest, blockPage_eq_nil h]
          rfl
        rw [action_of_nil hrest, hown, hblock]
        rw [action_of_ne_nil hne] at hblock
        cases hact : d.ownAction n with
        | none => simp [hact] at hblock
        | some a => simpa [hact] using hblock
      · rw [action_of_ne_nil hrest, action_of_ne_nil hne, hown]
    rw [view, haction, hrecords', blockPage_congr hip haction, ifAny, if_neg (by simpa using hnil)]
    exact AnswersAs.refl _

theorem Disk.answersAs_override {a : ZoneAction}
    (hip : d'.blockPageRedirectIp = d.blockPageRedirectIp)
    (hrecords : d'.records n = d.records n) (hown : d'.ownAction n = some a)
    (hpage : d.blockPageRedirectIp = none ∨ (d.action n = some .blockPage ↔ a = .blockPage)) :
    AnswersAs ((d.view n).1, some a) (d'.view n) := by
  have haction : d'.action n = some a := by
    unfold action
    rw [hown]
    rfl
  have hpage' : d'.blockPage n = d.blockPage n := by
    unfold blockPage
    rw [haction, hip]
    rcases hpage with hnone | hiff
    · simp [hnone]
    · simp [hiff]
  rw [view, view, haction, hrecords, hpage']
  exact AnswersAs.refl _

theorem Disk.answersAs_remove (hrecords : d'.records n = d.records n)
    (haction : d'.action n = none) (hpage : d.blockPage n = []) :
    AnswersAs ((d.view n).1, none) (d'.view n) := by
  have hpage' : d'.blockPage n = [] := blockPage_eq_nil (by simp [haction])
  rw [view, view, haction, hrecords, hpage, hpage']
  exact AnswersAs.refl _

end

/-! ## One request -/

section

variable {cfg : UnboundConfig} {f : Files} {z : LocalZoneSet} {now : ℕ}

theorem Files.records_disk (f : Files) (cfg : UnboundConfig) (now : ℕ) (n : Bytes) :
    (f.disk cfg now).records n =
      linesAt (cfg.localData ++ (f.entries.getD []).map DnsEntry.line) n := rfl

variable {saves : Bool}

theorem split_of_find {l : List α} {p : α → Bool} {x : α} (h : l.find? p = some x) :
    ∃ before after, l = before ++ x :: after ∧ l.takeWhile (fun y => !p y) = before ∧
      l.eraseP p = before ++ after := by
  obtain ⟨hx, before, after, rfl, hbefore⟩ := find?_eq_some_iff_append.mp h
  refine ⟨before, after, rfl, ?_, ?_⟩
  · rw [takeWhile_append_of_pos hbefore, takeWhile_cons_of_neg (by simp [hx]), append_nil]
  · rw [eraseP_append_right _ (by simpa using hbefore), eraseP_cons_of_pos hx]

section Alike

variable (h : ∀ n, AnswersAs (z.view n) ((f.disk cfg now).view n))

include h

theorem answersAs_addDns {entry : DnsEntry} (hkeep : (Handler.addDns entry saves).Keeps cfg f now)
    (n : Bytes) :
    AnswersAs ((z.insertRecordStr entry.line).view n)
      (({ f with entries := some (f.entries.getD [] ++ [entry]) }.disk cfg now).view n) := by
  have hrecords : ({ f with entries := some (f.entries.getD [] ++ [entry]) }.disk cfg now).records n =
      (f.disk cfg now).records n ++ linesAt [entry.line] n := by
    rw [Files.records_disk, Files.records_disk, ← linesAt_append]
    simp
  unfold LocalZoneSet.insertRecordStr
  rw [linesAt_singleton] at hrecords
  cases hline : entry.line.rr with
  | none =>
    rw [hline, elim_none, append_nil] at hrecords
    rw [Disk.view_congr (by rfl) hrecords (by rfl)]
    exact h n
  | some wr =>
    rw [hline, elim_some] at hrecords
    rw [actsAt_addRecord wr.val z n]
    by_cases hn : n = wireNameKey wr.val.name
    · rw [if_pos hn.symm] at hrecords
      rw [if_pos hn]
      have hpage := hkeep wr hline
      rw [← hn] at hpage
      exact ((h n).add wr.val).trans (Disk.answersAs_add rfl hrecords rfl hpage)
    · rw [if_neg fun heq => hn heq.symm, append_nil] at hrecords
      rw [if_neg hn, Disk.view_congr (by rfl) hrecords (by rfl)]
      exact h n

theorem answersAs_deleteDns {mayManage : DnsEntry → Bool} {entry : DnsEntry}
    (hfind : (f.entries.getD []).find? (·.id = id) = some entry)
    (hkeep : (Handler.deleteDns id mayManage saves).Keeps cfg f now) (n : Bytes) :
    AnswersAs ((entry.line.rr.elim z fun wr => z.deleteRecord wr.val).view n)
      (({ f with entries := some ((f.entries.getD []).eraseP (·.id = id)) }.disk cfg now).view n) := by
  obtain ⟨before, after, hsplit, htake, herase⟩ := split_of_find hfind
  -- the records of the name, around those of the entry
  have hrecords : (f.disk cfg now).records n =
      linesAt (cfg.localData ++ before.map DnsEntry.line) n ++ linesAt [entry.line] n ++
        linesAt (after.map DnsEntry.line) n := by
    rw [Files.records_disk, hsplit, ← linesAt_append, ← linesAt_append]
    simp
  have hrecords' :
      ({ f with entries := some ((f.entries.getD []).eraseP (·.id = id)) }.disk cfg now).records n =
      linesAt (cfg.localData ++ before.map DnsEntry.line) n ++ linesAt (after.map DnsEntry.line) n := by
    rw [Files.records_disk, herase, ← linesAt_append]
    simp
  rw [linesAt_singleton] at hrecords
  cases hline : entry.line.rr with
  | none =>
    rw [hline, elim_none, append_nil, ← hrecords'] at hrecords
    rw [Disk.view_congr (by rfl) hrecords.symm (by rfl)]
    exact h n
  | some wr =>
    rw [hline, elim_some] at hrecords
    rw [elim_some, actsAt_deleteRecord wr.val z n]
    by_cases hn : n = wireNameKey wr.val.name
    · obtain ⟨hfirst, hlast⟩ := hkeep entry wr hfind hline
      rw [if_pos hn.symm, append_assoc] at hrecords
      have htake' : (f.entries.getD []).takeWhile (fun e => decide (e.id ≠ id)) = before := by
        rw [← htake]
        simp
      rw [← hn, htake'] at hfirst
      rw [← hn] at hlast
      rw [if_pos hn]
      have hne : ((f.disk cfg now).view n).1.getD [] ≠ [] := by
        rw [Disk.view, hrecords]
        simp
      exact ((h n).delete hne wr.val).trans
        (Disk.answersAs_delete rfl hrecords hrecords' rfl hfirst hlast)
    · rw [if_neg fun heq => hn heq.symm, append_nil, ← hrecords'] at hrecords
      rw [if_neg hn, Disk.view_congr (by rfl) hrecords.symm (by rfl)]
      exact h n

omit h

/-- The overrides that the active entries of a blacklist make at a name. -/
def blacklistAt (bl : List BlacklistEntry) (now : ℕ) (n : Bytes) : List ZoneAction :=
  actionsAt ((bl.filter (·.isActive now)).map fun e => (e.domain, e.action)) n

theorem blacklistAt_append (l l' : List BlacklistEntry) (now : ℕ) (n : Bytes) :
    blacklistAt (l ++ l') now n = blacklistAt l now n ++ blacklistAt l' now n := by
  simp only [blacklistAt, filter_append, map_append, actionsAt_append]

theorem blacklistAt_singleton (e : BlacklistEntry) (now : ℕ) (n : Bytes) :
    blacklistAt [e] now n =
      if e.isActive now = true ∧ textKey e.domain = some n then [e.action] else [] := by
  unfold blacklistAt
  cases hactive : e.isActive now with
  | false => simp [hactive, actionsAt]
  | true => simp [hactive, actionsAt_singleton]

theorem Files.ownAction_eq (f : Files) (cfg : UnboundConfig) (now : ℕ) (n : Bytes) :
    (f.disk cfg now).ownAction n =
      ((actionsAt f.feeds n).getLast?.or (blacklistAt (f.blacklist.getD []) now n).getLast?).or
        ((f.disk cfg now).zone n) := by
  rw [← getLast?_append, blacklistAt, ← actionsAt_append]
  rfl

include h

theorem answersAs_addBlacklist {entry : BlacklistEntry} (hkeep : (Handler.addBlacklist entry saves).Keeps cfg f now)
    (n : Bytes) :
    AnswersAs ((if entry.isActive now then z.overrideZone entry.domain entry.action else z).view n)
      (({ f with blacklist := some (f.blacklist.getD [] ++ [entry]) }.disk cfg now).view n) := by
  have hown : ({ f with blacklist := some (f.blacklist.getD [] ++ [entry]) }.disk cfg now).ownAction
      n = ((actionsAt f.feeds n).getLast?.or ((blacklistAt [entry] now n).getLast?.or
        (blacklistAt (f.blacklist.getD []) now n).getLast?)).or ((f.disk cfg now).zone n) := by
    rw [Files.ownAction_eq, getD_some, blacklistAt_append, getLast?_append]
    rfl
  rw [blacklistAt_singleton] at hown
  by_cases hhere : entry.isActive now = true ∧ textKey entry.domain = some n
  · obtain ⟨hfeeds, hpage⟩ := hkeep n hhere.2 hhere.1
    rw [if_pos hhere] at hown
    rw [if_pos hhere.1, actsAt_overrideZone hhere.2, if_pos rfl]
    refine ((h n).setAction (some entry.action)).trans (Disk.answersAs_override rfl rfl ?_ hpage)
    rw [hown]
    cases hfeed : (actionsAt f.feeds n).getLast? with
    | none => rfl
    | some a => rw [hfeeds a hfeed]; rfl
  · rw [if_neg hhere, getLast?_nil, none_or, ← Files.ownAction_eq] at hown
    rw [Disk.view_congr (by rfl) (by rfl) hown]
    refine (?_ : (if entry.isActive now then z.overrideZone entry.domain entry.action
      else z).view n = z.view n) ▸ h n
    split_ifs with hactive
    · cases hkey : textKey entry.domain with
      | none => rw [LocalZoneSet.overrideZone, hkey]
      | some key =>
        rw [actsAt_overrideZone hkey, if_neg]
        rintro rfl
        exact hhere ⟨hactive, hkey⟩
    · rfl

theorem answersAs_deleteBlacklist {mayDelete : BlacklistEntry → Bool}
    {entry : BlacklistEntry}
    (hfind : (f.blacklist.getD []).find? (·.id = id) = some entry)
    (hkeep : (Handler.deleteBlacklist id mayDelete saves).Keeps cfg f now) (n : Bytes) :
    AnswersAs ((z.removeZone entry.domain).view n)
      (({ f with blacklist := some ((f.blacklist.getD []).eraseP (·.id = id)) }.disk cfg now).view
        n) := by
  by_cases hhere : textKey entry.domain = some n
  · obtain ⟨haction, hpage⟩ := hkeep entry n hfind hhere
    rw [actsAt_removeZone hhere, if_pos rfl]
    exact ((h n).setAction none).trans (Disk.answersAs_remove rfl haction hpage)
  · have hown : ({ f with blacklist := some ((f.blacklist.getD []).eraseP (·.id = id)) }.disk cfg
        now).ownAction n = (f.disk cfg now).ownAction n := by
      obtain ⟨before, after, hsplit, -, herase⟩ := split_of_find hfind
      rw [Files.ownAction_eq, Files.ownAction_eq, getD_some, herase, hsplit,
        ← singleton_append (l := after), blacklistAt_append, blacklistAt_append,
        blacklistAt_append, blacklistAt_singleton, if_neg fun hboth => hhere hboth.2]
      rfl
    rw [Disk.view_congr (by rfl) (by rfl) hown]
    refine (?_ : (z.removeZone entry.domain).view n = z.view n) ▸ h n
    cases hkey : textKey entry.domain with
    | none => rw [LocalZoneSet.removeZone, hkey]
    | some key =>
      rw [actsAt_removeZone hkey, if_neg]
      rintro rfl
      exact hhere hkey

end Alike

/-- The files are read alike as long as no scheduled entry starts or ends. -/
theorem Files.disk_congr {t : ℕ} (h : ∀ e ∈ f.blacklist.getD [], e.isActive t = e.isActive now) :
    f.disk cfg t = f.disk cfg now := by
  have hactive : (f.blacklist.getD []).filter (·.isActive t) =
      (f.blacklist.getD []).filter (·.isActive now) := filter_congr h
  simp only [disk, readBlacklist, hactive]

theorem deleteDnsHandler_eq_ok {mayManage : DnsEntry → Bool}
    {out : Files × Option (ℕ → Change)} (h : deleteDnsHandler id mayManage saves f = .ok out) :
    ∃ entry, (f.entries.getD []).find? (·.id = id) = some entry ∧
      out = ({ f with entries := some ((f.entries.getD []).eraseP (·.id = id)) },
        if entry.line.rr.isSome then some fun _ => .deleteDns entry.line else none) := by
  unfold deleteDnsHandler at h
  split at h
  · cases h
  · rename_i st hst
    split at h
    · cases h
    · rename_i entry hfind
      rw [hst]
      split_ifs at h <;> cases h <;> exact ⟨entry, hfind, by simp [*]⟩

theorem deleteBlacklistHandler_eq_ok {mayDelete : BlacklistEntry → Bool}
    {out : Files × Option (ℕ → Change)} (h : deleteBlacklistHandler id mayDelete saves f = .ok out) :
    ∃ entry, (f.blacklist.getD []).find? (·.id = id) = some entry ∧
      out = ({ f with blacklist := some ((f.blacklist.getD []).eraseP (·.id = id)) },
        some fun _ => .deleteBlacklist entry.domain) := by
  unfold deleteBlacklistHandler at h
  split at h
  · cases h
  · rename_i bl hbl
    split at h
    · cases h
    · rename_i entry hfind
      rw [hbl]
      split_ifs at h
      cases h
      exact ⟨entry, hfind, rfl⟩

theorem Live.answersAs_step {s : Live} {op : ℕ × Handler}
    (h : ∀ n, AnswersAs (s.zones.view n) ((s.files.disk cfg s.now).view n))
    (hkeep : s.Keeps cfg op) (n : Bytes) :
    AnswersAs ((s.step op).zones.view n) (((s.step op).files.disk cfg (s.step op).now).view n) := by
  obtain ⟨t, handler⟩ := op
  obtain ⟨hsteady, hok⟩ := hkeep
  rw [← Files.disk_congr hsteady] at h
  cases hp : handler.prepare s.files with
  | error e =>
    rw [step, hp]
    exact h n
  | ok out =>
    have hkeep := hok ⟨out, hp⟩
    simp only [step, hp]
    cases handler with
    | addDns entry saves =>
      simp only [Handler.prepare, persistAndSwap] at hp
      split_ifs at hp
      cases hp
      exact answersAs_addDns h hkeep n
    | deleteDns id mayManage saves =>
      obtain ⟨entry, hfind, rfl⟩ := deleteDnsHandler_eq_ok hp
      have hlive := answersAs_deleteDns h hfind hkeep n
      cases hline : entry.line.rr with
      | none => simpa [hline] using hlive
      | some wr => simpa [Change.apply] using hlive
    | addBlacklist entry saves =>
      simp only [Handler.prepare, addBlacklistHandler] at hp
      split_ifs at hp
      cases hp
      exact answersAs_addBlacklist h hkeep n
    | deleteBlacklist id mayDelete saves =>
      obtain ⟨entry, hfind, rfl⟩ := deleteBlacklistHandler_eq_ok hp
      exact answersAs_deleteBlacklist h hfind hkeep n

end

/-! ## Every sequence of requests -/

/-- The live set has for every name what a rebuilt one has, up to the order of records of different
    types. -/
def Live.Agrees (cfg : UnboundConfig) (s : Live) : Prop :=
  ∀ n, AnswersAs (s.zones.view n) ((s.files.disk cfg s.now).view n)

theorem Live.agrees_start (hw : Bool) (iter : IterOrder) (cfg : UnboundConfig) (files : Files)
    (now : ℕ) : (Live.start hw iter cfg files now).Agrees cfg := by
  intro n
  rw [show (Live.start hw iter cfg files now).zones = buildZoneSet hw iter (files.disk cfg now)
    from rfl, view_buildZoneSet]
  exact AnswersAs.refl _

/-- After each request of a sequence that keeps them alike, the live set answers as a set that is
    built from the files then, as at a restart. -/
theorem live_asRebuilt (hw : Bool) (iter : IterOrder) (cfg : UnboundConfig) (files : Files) (now : ℕ)
    (ops : List (ℕ × Handler))
    (hkeep : Each Live.step (Live.Keeps cfg) (Live.start hw iter cfg files now) ops) :
    Always Live.step (Live.AsRebuilt cfg) (Live.start hw iter cfg files now) ops := by
  apply always_of_each (I := Live.Agrees cfg) _ _ (Live.agrees_start hw iter cfg files now) hkeep
  · intro s op hs hop
    exact s.answersAs_step hs hop
  · intro s hs
    exact asRebuilt_of_answersAs hs

/-- `a.` gets its address and loses it again. -/
def opsA : List (ℕ × Handler) :=
  [(0, .addDns ⟨1, lineA⟩ true), (60, .deleteDns 1 (fun _ => true) true)]

theorem live_asRebuilt_opsA :
    Always Live.step (Live.AsRebuilt {}) (Live.start true listOrder {} {} 0) opsA := by
  apply live_asRebuilt
  refine ⟨⟨by simp [Live.start], ?_⟩, ⟨?_, ?_⟩, trivial⟩
  · intro _ wr _
    exact Or.inl (Disk.blockPage_of_noIp rfl)
  · intro e he
    cases he
  · intro _ entry wr hfind hline
    obtain rfl : (⟨1, lineA⟩ : DnsEntry) = entry := Option.some.inj hfind
    obtain rfl := Option.some.inj hline
    refine ⟨?_, fun _ _ => by decide +kernel⟩
    intro r hr
    cases hr

/-! ## Two entries for one domain -/

/-- Two blacklist entries for `a.` -/
def filesTwice : Files where
  blacklist := some [⟨1, [97], .refuse, none⟩, ⟨2, [97], .refuse, none⟩]

/-- The first entry is deleted. -/
def deleteFirst : Handler := .deleteBlacklist 1 (fun _ => true) true

/-- The live set forgets the name, which the second entry still blocks after a restart. -/
theorem deleted_twin :
    ((Live.start true listOrder {} filesTwice 0).step (0, deleteFirst)).zones.findWire nameA.wire =
        none ∧
      (Live.start true listOrder {}
        ((Live.start true listOrder {} filesTwice 0).step (0, deleteFirst)).files 0).zones.findWire
          nameA.wire = some .refuse ∧
      ¬ Always Live.step (Live.AsRebuilt {}) (Live.start true listOrder {} filesTwice 0)
        [(0, deleteFirst)] := by
  have hlive : ((Live.start true listOrder {} filesTwice 0).step
      (0, deleteFirst)).zones.findWire nameA.wire = none := by decide +kernel
  have hbuilt : (Live.start true listOrder {}
      ((Live.start true listOrder {} filesTwice 0).step (0, deleteFirst)).files 0).zones.findWire
        nameA.wire = some .refuse := by decide +kernel
  refine ⟨hlive, hbuilt, ?_⟩
  rintro ⟨hsame, -⟩
  have heq := (hsame true listOrder).1 nameA.wire
  rw [hlive] at heq
  exact absurd (heq.trans hbuilt) (by simp)

end Runbound.Local
