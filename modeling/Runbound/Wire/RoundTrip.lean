import Runbound.Wire.RdataCodec

/-!
# Messages read back

`Message::encode` compresses names: a suffix that was written before, in whatever
letter case, becomes a pointer to it. Read back, a name is therefore the name that
was written up to letter case.

* `Name.emitLabels_spec`: the invariant of the compression table, and what a name
  written with it reads as.
* `Message.parse_encode`: a message that was encoded parses, to the same header,
  questions and records, the names up to case and the first question exactly.
-/

namespace Runbound.Wire

open Lib Lib.Decoder List Name Dec

variable {S : List Bytes → Prop}

variable {p : Bytes × ℕ} {e : Encoder}

namespace Name

/-! ## The compression table -/

/-- The key of the table for the labels still to be written. -/
def suffixKey (ls : List Bytes) : Bytes := lower (ls.flatMap labelWire ++ [0])

theorem suffixKey_length (ls : List Bytes) : (suffixKey ls).length = labelsLen ls + 1 := by
  rw [suffixKey, lower_length, length_append, flatMap_labelWire_length]
  rfl

/-- The table's key determines a suffix up to letter case. -/
theorem suffixKey_inj {as bs : List Bytes} (ha : ∀ l ∈ as, LabelBound l)
    (hb : ∀ l ∈ bs, LabelBound l) (h : suffixKey as = suffixKey bs) :
    as.map lower = bs.map lower := by
  have hlow : ∀ ls : List Bytes, (∀ l ∈ ls, LabelBound l) → ∀ l ∈ ls.map lower, LabelBound l := by
    intro ls hls l hl
    obtain ⟨l', hl', rfl⟩ := mem_map.mp hl
    exact ⟨by simpa using (hls l' hl').1, by simpa using (hls l' hl').2⟩
  rw [suffixKey, suffixKey, lower_append, lower_append, lower_flatMap_labelWire _ ha,
    lower_flatMap_labelWire _ hb] at h
  exact (labelsWire_selfDelimiting _ _ [] [] (hlow as ha) (hlow bs hb) (by simpa using h)).1

/-- An entry of the table that can be pointed to: the name is there. -/
def Known (buf : Bytes) (p : Bytes × ℕ) : Prop :=
  ∃ ls k stop, p.1 = suffixKey ls ∧ NameAt buf p.2 ls k stop ∧ k < ls.length ∧
    p.2 ≤ maxCompressOffset ∧ p.2 < buf.length

/-- The same, with labels in `S`. -/
def KnownAs (S : List Bytes → Prop) (buf : Bytes) (p : Bytes × ℕ) : Prop :=
  ∃ ls k stop, S ls ∧ p.1 = suffixKey ls ∧ NameAt buf p.2 ls k stop ∧ k < ls.length ∧
    p.2 ≤ maxCompressOffset ∧ p.2 < buf.length

theorem knownAs_true {buf : Bytes} : KnownAs (fun _ => True) buf p ↔ Known buf p := by
  simp only [KnownAs, Known, true_and]

theorem KnownAs.mono {buf buf' : Bytes} (h : KnownAs S buf p) (hb : buf <+: buf') :
    KnownAs S buf' p := by
  obtain ⟨ls, k, stop, hS, h1, h2, h3, h4, h5⟩ := h
  exact ⟨ls, k, stop, hS, h1, h2.mono hb, h3, h4, h5.trans_le hb.length_le⟩

/-- A label of `ls` may stand before any spelling in `S` of the labels after it. -/
def Spells (S : List Bytes → Prop) (ls : List Bytes) : Prop :=
  S [] ∧ ∀ l rest rest', (l :: rest) <:+ ls → rest'.map lower = rest.map lower → S rest' →
    S (l :: rest')

theorem Spells.tail {l : Bytes} {ls : List Bytes} (h : Spells S (l :: ls)) : Spells S ls :=
  ⟨h.1, fun x rest rest' hx => h.2 x rest rest' (hx.trans (suffix_cons l ls))⟩

/-- `lookup_name` returns an offset of the table. -/
theorem mem_of_lookupName {key : Bytes} {off : ℕ} (h : e.lookupName key = some off) :
    (key, off) ∈ e.names := by
  unfold Encoder.lookupName at h
  split_ifs at h
  obtain ⟨p, hp, rfl⟩ := Option.map_eq_some_iff.mp h
  have hkey := find?_some hp
  have hmem := mem_of_find?_eq_some hp
  rw [← of_decide_eq_true hkey]
  exact hmem

/-- `remember_name` adds at most one entry, and only below the pointer's bound. -/
theorem mem_rememberName {key : Bytes} {off : ℕ}
    (h : p ∈ (e.rememberName key off).names) :
    p ∈ e.names ∨ (p = (key, off) ∧ off ≤ maxCompressOffset) := by
  unfold Encoder.rememberName at h
  split_ifs at h with hc
  · simp only [Bool.and_eq_true, decide_eq_true_eq] at hc
    rcases mem_append.mp h with h | h
    · exact Or.inl h
    · exact Or.inr ⟨by simpa using h, hc.1.2⟩
  · exact Or.inl h

/-- Writing a name keeps what was written, leaves every entry of the table readable and
    reads back as the labels up to case, in a spelling of `S`. An entry longer than what is left to write belongs
    to a suffix that is being written: it is not readable yet, and not looked up. -/
theorem emitLabels_spec (ls : List Bytes) (hb : ∀ l ∈ ls, LabelBound l) (hS : Spells S ls) :
    ∀ e : Encoder,
    (∀ p ∈ e.names, KnownAs S e.buf p ∨ labelsLen ls + 1 < p.1.length) →
    e.buf <+: (emitLabels ls e).buf ∧
    (∀ p ∈ (emitLabels ls e).names, p ∈ e.names ∨ KnownAs S (emitLabels ls e).buf p) ∧
    ∃ ls' k, S ls' ∧ ls'.map lower = ls.map lower ∧ k ≤ ls.length ∧
      NameAt (emitLabels ls e).buf e.len ls' k (emitLabels ls e).len := by
  induction ls with
  | nil =>
    intro e _
    have hat : StandsAt [0] (e.bytes [0]).buf e.len := standsAt_append e.buf [0]
    refine ⟨prefix_append _ _, fun p hp => Or.inl hp, [], 0, hS.1, rfl, le_rfl, ?_⟩
    rw [emitLabels, Encoder.bytes_len]
    exact NameAt.root hat
  | cons l ls ih =>
    intro e he
    have hl : LabelBound l := hb l (by simp)
    have hls : ∀ x ∈ ls, LabelBound x := fun x hx => hb x (by simp [hx])
    cases hlook : e.lookupName (suffixKey (l :: ls)) with
    | some off =>
      have hemit : emitLabels (l :: ls) e = e.bytes (pointerTo off) := by
        rw [emitLabels]
        simp only [suffixKey] at hlook
        simp only [hlook]
      have hmem := mem_of_lookupName hlook
      rcases he _ hmem with hknown | hlong
      · obtain ⟨ls', k, stop, hspell, hkey, hat, hk, hmax, hoff⟩ := hknown
        have hlow := suffixKey_inj hb hat.bound hkey
        have hpre : e.buf <+: (e.bytes (pointerTo off)).buf := prefix_append _ _
        rw [hemit]
        refine ⟨hpre, fun p hp => Or.inl hp, ls', k + 1, hspell, hlow.symm, ?_, ?_⟩
        · have := congrArg List.length hlow
          simp only [length_map] at this
          omega
        · rw [Encoder.bytes_len]
          exact NameAt.pointer hmax hoff (standsAt_append e.buf _) (hat.mono hpre)
      · rw [suffixKey_length] at hlong
        omega
    | none =>
      set e1 := (e.rememberName (suffixKey (l :: ls)) e.len).bytes (labelWire l) with he1
      have hemit : emitLabels (l :: ls) e = emitLabels ls e1 := by
        rw [emitLabels]
        simp only [suffixKey] at hlook
        simp only [hlook]
        rfl
      have hbuf : e1.buf = e.buf ++ labelWire l := by rw [he1]; simp
      have hpre1 : e.buf <+: e1.buf := by rw [hbuf]; exact prefix_append _ _
      have hnames : ∀ p ∈ e1.names,
          p ∈ e.names ∨ (p = (suffixKey (l :: ls), e.len) ∧ e.len ≤ maxCompressOffset) :=
        fun p hp => mem_rememberName hp
      obtain ⟨hpre, htable, ls', k, hspell, hlow, hk, hat⟩ := ih hls hS.tail e1 (by
        intro p hp
        rcases hnames p hp with hp | ⟨rfl, -⟩
        · rcases he p hp with h | h
          · exact Or.inl (h.mono hpre1)
          · rw [labelsLen_cons] at h
            exact Or.inr (by omega)
        · rw [suffixKey_length, labelsLen_cons]
          exact Or.inr (by have := hl.1; omega))
      rw [hemit]
      have hlen1 : e1.len = e.len + (labelWire l).length := by
        simp only [Encoder.len, hbuf, length_append]
      have hstands : StandsAt (labelWire l) (emitLabels ls e1).buf e.len := by
        refine StandsAt.mono ?_ hpre
        rw [hbuf]
        exact standsAt_append e.buf _
      rw [hlen1] at hat
      have hat' : NameAt (emitLabels ls e1).buf e.len (l :: ls') k (emitLabels ls e1).len :=
        NameAt.label hl hstands hat
      have hspell' : S (l :: ls') := hS.2 l ls ls' suffix_rfl hlow hspell
      have hlenls : ls'.length = ls.length := by
        simpa using congrArg List.length hlow
      refine ⟨hpre1.trans hpre, ?_, l :: ls', k, hspell', by simp [hlow], by simp; omega, hat'⟩
      intro p hp
      rcases htable p hp with hp | hp
      · rcases hnames p hp with hp | ⟨rfl, hmax⟩
        · exact Or.inl hp
        · refine Or.inr ⟨l :: ls', k, _, hspell', ?_, hat', by simp; omega, hmax, ?_⟩
          · have hb' : ∀ x ∈ l :: ls', LabelBound x := hat'.bound
            simp only [suffixKey, lower_append, lower_flatMap_labelWire _ hb,
              lower_flatMap_labelWire _ hb', map_cons, hlow]
          · have hle := (hpre1.trans hpre).length_le
            have := hpre.length_le
            simp only [Encoder.len] at hlen1 ⊢
            simp only [labelWire, length_cons] at hlen1
            omega
      · exact Or.inr hp

/-- A name no suffix of which is in the table is written in full. -/
theorem emitLabels_fresh (ls : List Bytes) (hb : ∀ l ∈ ls, LabelBound l) : ∀ e : Encoder,
    (∀ p ∈ e.names, labelsLen ls + 1 < p.1.length) →
    (emitLabels ls e).buf = e.buf ++ (ls.flatMap labelWire ++ [0]) := by
  induction ls with
  | nil =>
    intro e _
    rfl
  | cons l ls ih =>
    intro e he
    have hlook : e.lookupName (suffixKey (l :: ls)) = none := by
      cases hlook : e.lookupName (suffixKey (l :: ls)) with
      | none => rfl
      | some off =>
        have := he _ (mem_of_lookupName hlook)
        rw [suffixKey_length] at this
        omega
    rw [emitLabels]
    simp only [suffixKey] at hlook
    simp only [hlook]
    rw [ih fun x hx => hb x (by simp [hx])]
    · simp
    · intro p hp
      rcases mem_rememberName hp with hp | ⟨rfl, -⟩
      · have := he p hp
        rw [labelsLen_cons] at this
        omega
      · have := suffixKey_length (l :: ls)
        rw [suffixKey, labelsLen_cons] at this
        rw [this]
        omega

end Name

/-! ## What an encoder writes, read back -/

/-- Every entry of the compression table can be pointed to. -/
def Encoder.Ok (e : Encoder) : Prop := ∀ p ∈ e.names, Name.Known e.buf p

/-- `f` writes something that `d` reads as a value that meets `R`, whatever is written
    after it. -/
def Emits {α : Type} (f : Encoder → Encoder) (d : Dec α) (R : α → Prop) : Prop :=
  ∀ e : Encoder, e.Ok → (f e).Ok ∧ e.buf <+: (f e).buf ∧
    ∀ buf, (f e).buf <+: buf → ∃ a, R a ∧ d.Reads buf e.len a (f e).len

/-- Every entry of the table can be pointed to, for a spelling in `S`. -/
def Encoder.OkAs (S : List Bytes → Prop) (e : Encoder) : Prop :=
  ∀ p ∈ e.names, Name.KnownAs S e.buf p

/-- `Emits` for a table with spellings in `S`. -/
def EmitsAs {α : Type} (S : List Bytes → Prop) (f : Encoder → Encoder) (d : Dec α)
    (R : α → Prop) : Prop :=
  ∀ e : Encoder, e.OkAs S → (f e).OkAs S ∧ e.buf <+: (f e).buf ∧
    ∀ buf, (f e).buf <+: buf → ∃ a, R a ∧ d.Reads buf e.len a (f e).len

variable {α : Type} {emit : α → Encoder → Encoder}

section Emits

variable {β : Type} {f g : Encoder → Encoder} {d : Dec α} {k : α → Dec β} {R : α → Prop}
  {T : β → Prop}

theorem emitsAs_true : EmitsAs (fun _ => True) f d R ↔ Emits f d R := by
  simp only [EmitsAs, Emits, Encoder.OkAs, Encoder.Ok, knownAs_true]

/-- Writers in sequence are read by decoders in sequence. -/
theorem EmitsAs.bind (h1 : EmitsAs S f d R) (h2 : ∀ a, R a → EmitsAs S g (k a) T)
    (hne : ∃ a, R a) : EmitsAs S (fun e => g (f e)) (d >>= k) T := by
  intro e he
  obtain ⟨hok1, hpre1, hread1⟩ := h1 e he
  obtain ⟨a0, ha0⟩ := hne
  obtain ⟨hok2, hpre2, -⟩ := h2 a0 ha0 (f e) hok1
  refine ⟨hok2, hpre1.trans hpre2, fun buf hbuf => ?_⟩
  obtain ⟨a, ha, hra⟩ := hread1 buf (hpre2.trans hbuf)
  obtain ⟨b, hb, hrb⟩ := (h2 a ha (f e) hok1).2.2 buf hbuf
  exact ⟨b, hb, hra.bind hrb⟩

theorem emitsAs_bytes {a : α} {w : Bytes} (h : d.ReadsBack a w) (ha : R a) :
    EmitsAs S (fun e => e.bytes w) d R := by
  intro e he
  have hpre : e.buf <+: (e.bytes w).buf := prefix_append _ _
  refine ⟨fun p hp => (he p hp).mono hpre, hpre, fun buf hbuf => ⟨a, ha, ?_⟩⟩
  rw [Encoder.bytes_len]
  exact h buf e.buf hbuf

/-- A section that is written item by item is read item by item. -/
theorem emitsAs_times {Same : α → α → Prop} (as : List α)
    (h : ∀ a ∈ as, EmitsAs S (emit a) d (Same a)) :
    EmitsAs S (fun e => as.foldl (fun e a => emit a e) e) (times d as.length)
      (List.Forall₂ Same as) := by
  induction as with
  | nil =>
    intro e he
    exact ⟨he, prefix_rfl, fun buf _ => ⟨[], .nil, rfl⟩⟩
  | cons a as ih =>
    intro e he
    obtain ⟨hok1, hpre1, hread1⟩ := h a (by simp) e he
    obtain ⟨hok2, hpre2, hread2⟩ := ih (fun x hx => h x (by simp [hx])) (emit a e) hok1
    refine ⟨hok2, hpre1.trans hpre2, fun buf hbuf => ?_⟩
    obtain ⟨a', ha', hra⟩ := hread1 buf (hpre2.trans hbuf)
    obtain ⟨as', has', hras⟩ := hread2 buf hbuf
    exact ⟨a' :: as', .cons ha' has', times_succ_eq_ok.mpr ⟨a', _, as', hra, hras, rfl⟩⟩

end Emits

/-- An emitted name reads back up to letter case, compressed or not. -/
theorem Name.emitsAs (n : Name) (hS : Name.Spells S n.labels) :
    EmitsAs S n.emit Name.decode fun n' => n'.key = n.key ∧ S n'.labels := by
  intro e he
  obtain ⟨hpre, htable, ls, k, hspell, hlow, hk, hat⟩ :=
    emitLabels_spec n.labels n.label_bound hS e fun p hp => Or.inl (he p hp)
  refine ⟨fun p hp => ?_, hpre, fun buf hbuf => ?_⟩
  · rcases htable p hp with hp | hp
    · exact (he p hp).mono hpre
    · exact hp
  · have hlen : labelsLen ls = labelsLen n.labels := by
      rw [← labelsLen_lower, hlow, labelsLen_lower]
    have hok : LabelsOk ls := ⟨hat.bound, by rw [hlen]; exact n.ok.len⟩
    refine ⟨⟨ls, hok⟩, ⟨by simp only [key, labelsLower, hlow], hspell⟩, ?_⟩
    refine decode_nameAt (n := ⟨ls, hok⟩) (hat.mono hbuf) ?_
    have hsame := congrArg List.length hlow
    simp only [length_map] at hsame
    exact hk.trans (hsame ▸ n.length_labels_le)

namespace Question

/-- The same question up to the letter case of the name. -/
def Same (q q' : Question) : Prop :=
  q'.name.key = q.name.key ∧ q'.qtype = q.qtype ∧ q'.qclass = q.qclass

theorem emitsAs (q : Question) (hS : Name.Spells S q.name.labels) (hself : S q.name.labels) :
    EmitsAs S q.emit Question.parse fun q' => Same q q' ∧ S q'.name.labels := by
  refine EmitsAs.bind (g := fun e => e.bytes (u16Be q.qtype ++ u16Be q.qclass)) (q.name.emitsAs hS)
    ?_ ⟨q.name, rfl, hself⟩
  rintro n ⟨hn, hspell⟩
  refine emitsAs_bytes (a := ⟨n, q.qtype, q.qclass⟩) ?_ ⟨⟨hn, rfl, rfl⟩, hspell⟩
  apply ReadsBack.bind (u16_readsBack q.qtype)
  exact (u16_readsBack q.qclass).map _

/-- The wire form without compression. -/
def wire (q : Question) : Bytes := q.name.wire ++ (u16Be q.qtype ++ u16Be q.qclass)

/-- A question written out reads back. -/
theorem parse_readsBack (q : Question) : Question.parse.ReadsBack q q.wire := by
  apply ReadsBack.bind (decode_readsBack q.name)
  apply ReadsBack.bind (u16_readsBack q.qtype)
  exact (u16_readsBack q.qclass).map _

theorem emit_fresh (q : Question) (h : e.names = []) : (q.emit e).buf = e.buf ++ q.wire := by
  have := emitLabels_fresh q.name.labels q.name.label_bound e (by simp [h])
  rw [emit, Encoder.bytes_buf, Name.emit, this, wire, Name.wire]
  simp

end Question

namespace Record

/-- The same record up to the letter case of the owner. -/
def Same (r r' : Record) : Prop :=
  r'.name.key = r.name.key ∧ r'.rtype = r.rtype ∧ r'.rclass = r.rclass ∧ r'.ttl = r.ttl ∧
    r'.rdata = r.rdata

theorem Same.refl (r : Record) : Same r r := ⟨rfl, rfl, rfl, rfl, rfl⟩

/-- What does not depend on letter case is the same along two sections. -/
theorem map_of_same {α : Type} {f : Record → α} (hf : ∀ {r r'}, Same r r' → f r' = f r)
    {as bs : List Record} (h : List.Forall₂ Same as bs) : bs.map f = as.map f := by
  induction h with
  | nil => rfl
  | cons h _ ih => rw [map_cons, map_cons, ih, hf h]

/-- The record with another owner. -/
def withName (n : Name) (r : Record) : Record := { r with name := n }

/-- The octets of a record after its owner. -/
def body (r : Record) : Bytes :=
  u16Be r.rtype ++ u16Be r.rclass ++ u32Be r.ttl ++
    (u16Be (Fin.ofNat 65536 r.rdata.emit.length) ++ r.rdata.emit)

/-- What `Record::parse` does after the owner. -/
def parseBody (name : Name) : Dec Record := do
  let rtype ← Dec.u16
  let rclass ← Dec.u16
  let ttl ← Dec.u32
  let rdlength ← Dec.u16
  let rdata ← Rdata.parse rtype rdlength
  if parsed : rdata.parsedAs rtype = true then
    return { name, rtype, rclass, ttl, rdata, parsed }
  else Decoder.fail .badRdataLength

theorem parseBody_readsBack (n : Name) (r : Record) (hw : r.rdata.wireOk)
    (hlen : r.rdata.emit.length < 65536) : (parseBody n).ReadsBack (r.withName n) r.body := by
  apply ReadsBack.bind (u16_readsBack r.rtype)
  apply ReadsBack.bind (u16_readsBack r.rclass)
  apply ReadsBack.bind (u32_readsBack r.ttl)
  apply ReadsBack.bind (u16_readsBack _)
  intro buf pre hbuf
  refine Reads.bind (Rdata.parse_reads r.parsed hw hlen hbuf) ?_
  rw [dif_pos r.parsed]
  exact reads_pure _

theorem emitsAs (r : Record) (hw : r.rdata.wireOk) (hlen : r.rdata.emit.length < 65536)
    (hS : Name.Spells S r.name.labels) (hself : S r.name.labels) :
    EmitsAs S r.emit Record.parse fun r' => Same r r' ∧ S r'.name.labels := by
  refine EmitsAs.bind (g := fun e => e.bytes r.body) (r.name.emitsAs hS) ?_ ⟨r.name, rfl, hself⟩
  rintro n ⟨hn, hspell⟩
  exact emitsAs_bytes (parseBody_readsBack n r hw hlen) ⟨⟨hn, rfl, rfl, rfl, rfl⟩, hspell⟩

/-- A record takes its name, ten octets and its data. -/
theorem len_emit (r : Record) (e : Encoder) :
    (r.emit e).len = (r.name.emit e).len + 10 + r.rdata.emit.length := by
  simp only [emit, Encoder.bytes_len, length_append, u16Be_length, u32Be_length]
  omega

end Record

/-! ## What is appended depends on the table and the offset only -/

/-- Encoders at the same offset, with the same table. -/
def Encoder.Alike (e e' : Encoder) : Prop :=
  e.len = e'.len ∧ e.names = e'.names ∧ e.compress = e'.compress

/-- `f` appends the same octets to encoders that are alike. -/
def Uniform (f : Encoder → Encoder) : Prop :=
  ∀ e e' : Encoder, e.Alike e' → ∃ s, (f e).buf = e.buf ++ s ∧ (f e').buf = e'.buf ++ s ∧
    (f e).Alike (f e')

section Uniform

variable {f g : Encoder → Encoder}

theorem Uniform.isPrefix (h : Uniform f) (e : Encoder) : e.buf <+: (f e).buf := by
  obtain ⟨s, hs, -⟩ := h e e ⟨rfl, rfl, rfl⟩
  exact ⟨s, hs.symm⟩

/-- Writers in sequence are uniform if each is. -/
theorem Uniform.comp (hf : Uniform f) (hg : Uniform g) : Uniform fun e => g (f e) := by
  intro e e' he
  obtain ⟨s, h1, h2, h3⟩ := hf e e' he
  obtain ⟨t, h4, h5, h6⟩ := hg _ _ h3
  refine ⟨s ++ t, ?_, ?_, h6⟩
  · rw [h4, h1, append_assoc]
  · rw [h5, h2, append_assoc]

theorem uniform_bytes (s : Bytes) : Uniform fun e => e.bytes s := by
  rintro e e' ⟨h1, h2, h3⟩
  exact ⟨s, rfl, rfl, by simp [h1], h2, h3⟩

theorem uniform_foldl (h : ∀ a, Uniform (emit a)) (as : List α) :
    Uniform fun e => as.foldl (fun e a => emit a e) e := by
  induction as with
  | nil => exact fun e e' he => ⟨[], by simp, by simp, he⟩
  | cons a as ih => exact (h a).comp ih

/-- Whether a suffix is compressed depends on the table, not on the octets. -/
theorem Name.uniform_emitLabels (ls : List Bytes) : Uniform (Name.emitLabels ls) := by
  induction ls with
  | nil => exact uniform_bytes [0]
  | cons l ls ih =>
    rintro e e' ⟨h1, h2, h3⟩
    set key := lower ((l :: ls).flatMap labelWire ++ [0]) with hkey
    have hlook : e'.lookupName key = e.lookupName key := by
      simp only [Encoder.lookupName, h2, h3]
    cases hl : e.lookupName key with
    | some off =>
      have h := uniform_bytes (pointerTo off) e e' ⟨h1, h2, h3⟩
      simpa only [emitLabels, ← hkey, hlook, hl] using h
    | none =>
      have hremember : (e.rememberName key e.len).Alike (e'.rememberName key e'.len) := by
        refine ⟨by simpa using h1, ?_, ?_⟩ <;> unfold Encoder.rememberName <;>
          rw [h1, h2, h3] <;> split <;> simp [h2, h3]
      obtain ⟨s, hs, hs', hn⟩ := (uniform_bytes (labelWire l)).comp ih _ _ hremember
      refine ⟨s, ?_, ?_, ?_⟩
      · simpa only [emitLabels, ← hkey, hl, Encoder.rememberName_buf] using hs
      · simpa only [emitLabels, ← hkey, hlook, hl, Encoder.rememberName_buf] using hs'
      · simpa only [emitLabels, ← hkey, hlook, hl] using hn

theorem Question.uniform_emit (q : Question) : Uniform q.emit :=
  (uniform_emitLabels q.name.labels).comp (uniform_bytes _)

theorem Record.uniform_emit (r : Record) : Uniform r.emit :=
  (uniform_emitLabels r.name.labels).comp (uniform_bytes _)

end Uniform

/-! ## Lengths -/

theorem Name.len_lt_emitLabels (ls : List Bytes) :
    ∀ e : Encoder, e.len < (Name.emitLabels ls e).len := by
  induction ls with
  | nil =>
    simp [emitLabels]
  | cons l ls ih =>
    intro e
    rw [emitLabels]
    cases e.lookupName (lower ((l :: ls).flatMap labelWire ++ [0])) with
    | some off => simp [pointerTo]
    | none =>
      refine lt_trans ?_ (ih _)
      simp [labelWire]

theorem len_foldl_emit {size : α → ℕ} (h : ∀ a e, e.len + size a ≤ (emit a e).len)
    (as : List α) : ∀ e : Encoder,
      e.len + (as.map size).sum ≤ (as.foldl (fun e a => emit a e) e).len := by
  induction as with
  | nil => simp
  | cons a as ih =>
    intro e
    have h1 := h a e
    have h2 := ih (emit a e)
    simp only [map_cons, sum_cons, foldl_cons]
    omega

theorem Question.len_emit (q : Question) (e : Encoder) : e.len + 1 ≤ (q.emit e).len := by
  have := len_lt_emitLabels q.name.labels e
  simp only [emit, Encoder.bytes_len, Name.emit]
  omega

/-- Octets a record takes at least. -/
def Record.minSize (r : Record) : ℕ := 1 + r.rdata.emit.length

/-- A record takes at least an octet and its data. -/
theorem Record.len_add_minSize (r : Record) (e : Encoder) : e.len + r.minSize ≤ (r.emit e).len := by
  have := len_lt_emitLabels r.name.labels e
  rw [r.len_emit, minSize, Name.emit]
  omega

theorem length_le_sum_minSize (rs : List Record) : rs.length ≤ (rs.map Record.minSize).sum := by
  induction rs with
  | nil => simp
  | cons r rs ih =>
    simp only [length_cons, map_cons, sum_cons, Record.minSize]
    omega

theorem forall_of_forall₂ {α : Type} {P : α → α → Prop} {Q : α → Prop} {as bs : List α}
    (h : List.Forall₂ (fun a b => P a b ∧ Q b) as bs) : ∀ b ∈ bs, Q b := by
  induction h with
  | nil => simp
  | cons h _ ih => exact forall_mem_cons.mpr ⟨h.2, ih⟩

/-! ## Messages -/

/-- The twelve octets of a header. -/
def Header.wire (h : Header) : Bytes :=
  u16Be h.id ++ (u16Be h.flags ++ (u16Be h.qdcount ++ (u16Be h.ancount ++ (u16Be h.nscount ++
    u16Be h.arcount))))

theorem Header.emit_eq (h : Header) (e : Encoder) : h.emit e = e.bytes h.wire := by
  simp [emit, wire]

theorem Header.parse_readsBack (h : Header) : Header.parse.ReadsBack h h.wire := by
  apply ReadsBack.bind (u16_readsBack h.id)
  apply ReadsBack.bind (u16_readsBack h.flags)
  apply ReadsBack.bind (u16_readsBack h.qdcount)
  apply ReadsBack.bind (u16_readsBack h.ancount)
  apply ReadsBack.bind (u16_readsBack h.nscount)
  exact (u16_readsBack h.arcount).map _

namespace Message

/-- The same message up to the letter case of names; the header counts the sections. -/
structure Same (m m' : Message) : Prop where
  header : m'.header = m.countedHeader
  questions : List.Forall₂ Question.Same m.questions m'.questions
  answers : List.Forall₂ Record.Same m.answers m'.answers
  authority : List.Forall₂ Record.Same m.authority m'.authority
  additional : List.Forall₂ Record.Same m.additional m'.additional

/-- The data of every record fit their length octets. -/
def WireOk (m : Message) : Prop := ∀ r ∈ m.answers ++ m.authority ++ m.additional, r.rdata.wireOk

/-- Counts and data fit their sixteen bits. -/
structure Fits (m : Message) : Prop where
  questions : m.questions.length < 65536
  answers : m.answers.length < 65536
  authority : m.authority.length < 65536
  additional : m.additional.length < 65536
  data : ∀ r ∈ m.answers ++ m.authority ++ m.additional, r.rdata.emit.length < 65536

/-- A message of less than 65536 octets has counts and data that fit their fields. -/
theorem fits_of_encode (m : Message) (h : m.encode.length < 65536) : m.Fits := by
  set e0 := m.countedHeader.emit {}
  set e1 := m.questions.foldl (fun e q => q.emit e) e0
  set e2 := m.answers.foldl (fun e r => r.emit e) e1
  set e3 := m.authority.foldl (fun e r => r.emit e) e2
  set e4 := m.additional.foldl (fun e r => r.emit e) e3
  have hend : m.encode.length = e4.len := rfl
  have hq : e0.len + (m.questions.map fun _ => 1).sum ≤ e1.len :=
    len_foldl_emit Question.len_emit m.questions e0
  have ha : e1.len + (m.answers.map Record.minSize).sum ≤ e2.len :=
    len_foldl_emit Record.len_add_minSize m.answers e1
  have hn : e2.len + (m.authority.map Record.minSize).sum ≤ e3.len :=
    len_foldl_emit Record.len_add_minSize m.authority e2
  have hr : e3.len + (m.additional.map Record.minSize).sum ≤ e4.len :=
    len_foldl_emit Record.len_add_minSize m.additional e3
  simp only [map_const', sum_replicate, smul_eq_mul] at hq
  have ha' := length_le_sum_minSize m.answers
  have hn' := length_le_sum_minSize m.authority
  have hr' := length_le_sum_minSize m.additional
  refine ⟨by omega, by omega, by omega, by omega, fun r hmem => ?_⟩
  have hsize : ∀ rs : List Record, r ∈ rs → 1 + r.rdata.emit.length ≤ (rs.map Record.minSize).sum :=
    fun rs hrs => single_le_sum (by simp) _ (mem_map_of_mem (f := Record.minSize) hrs)
  rcases mem_append.mp hmem with hmem | hmem
  · rcases mem_append.mp hmem with hmem | hmem
    · have := hsize _ hmem
      omega
    · have := hsize _ hmem
      omega
  · have := hsize _ hmem
    omega

/-- The names that may be compressed: those of the questions and the owners of the records. -/
def names (m : Message) : List Name :=
  m.questions.map Question.name ++ (m.answers ++ m.authority ++ m.additional).map Record.name

theorem emitsAs (m : Message) (hw : m.WireOk) (hf : m.Fits)
    (hS : ∀ n ∈ m.names, Name.Spells S n.labels ∧ S n.labels) :
    EmitsAs S m.emit decode fun m' => Same m m' ∧ ∀ n ∈ m'.names, S n.labels := by
  have hrec : ∀ r ∈ m.answers ++ m.authority ++ m.additional,
      EmitsAs S r.emit Record.parse fun r' => Record.Same r r' ∧ S r'.name.labels := by
    intro r hr
    obtain ⟨hspell, hself⟩ := hS r.name (mem_append_right _ (mem_map_of_mem hr))
    exact r.emitsAs (hw r hr) (hf.data r hr) hspell hself
  have hquestion : ∀ q ∈ m.questions,
      EmitsAs S q.emit Question.parse fun q' => Question.Same q q' ∧ S q'.name.labels := by
    intro q hq
    obtain ⟨hspell, hself⟩ := hS q.name (mem_append_left _ (mem_map_of_mem hq))
    exact q.emitsAs hspell hself
  have hsames : ∀ r ∈ m.answers ++ m.authority ++ m.additional, S r.name.labels := fun r hr =>
    (hS r.name (mem_append_right _ (mem_map_of_mem hr))).2
  have hq := emitsAs_times m.questions hquestion
  have ha := emitsAs_times m.answers fun r hr => hrec r (by simp [hr])
  have hn := emitsAs_times m.authority fun r hr => hrec r (by simp [hr])
  have hr := emitsAs_times m.additional fun r hr => hrec r (by simp [hr])
  have hh : EmitsAs S (fun e => m.countedHeader.emit e) Header.parse (· = m.countedHeader) := by
    exact emitsAs_bytes m.countedHeader.parse_readsBack rfl
  let fr := fun e : Encoder => m.additional.foldl (fun e r => r.emit e) e
  let fn := fun e : Encoder => fr (m.authority.foldl (fun e r => r.emit e) e)
  let fa := fun e : Encoder => fn (m.answers.foldl (fun e r => r.emit e) e)
  let fq := fun e : Encoder => fa (m.questions.foldl (fun e q => q.emit e) e)
  refine EmitsAs.bind (g := fq) hh ?_ ⟨_, rfl⟩
  rintro _ rfl
  have hlen1 : m.countedHeader.qdcount.val = m.questions.length := Nat.mod_eq_of_lt hf.questions
  have hlen2 : m.countedHeader.ancount.val = m.answers.length := Nat.mod_eq_of_lt hf.answers
  have hlen3 : m.countedHeader.nscount.val = m.authority.length := Nat.mod_eq_of_lt hf.authority
  have hlen4 : m.countedHeader.arcount.val = m.additional.length := Nat.mod_eq_of_lt hf.additional
  rw [hlen1, hlen2, hlen3, hlen4]
  refine EmitsAs.bind (g := fa) hq (fun qs hqs => ?_) ⟨_, forall₂_same.mpr fun q hq =>
    ⟨⟨rfl, rfl, rfl⟩, (hS q.name (mem_append_left _ (mem_map_of_mem hq))).2⟩⟩
  refine EmitsAs.bind (g := fn) ha (fun as has => ?_)
    ⟨_, forall₂_same.mpr fun r hr => ⟨.refl r, hsames r (by simp [hr])⟩⟩
  refine EmitsAs.bind (g := fr) hn (fun ns hns => ?_)
    ⟨_, forall₂_same.mpr fun r hr => ⟨.refl r, hsames r (by simp [hr])⟩⟩
  intro e he
  obtain ⟨hok, hpre, hread⟩ := hr e he
  refine ⟨hok, hpre, fun buf hbuf => ?_⟩
  obtain ⟨rs, hrs, hreads⟩ := hread buf hbuf
  refine ⟨⟨m.countedHeader, qs, as, ns, rs⟩, ⟨⟨rfl, ?_, ?_, ?_, ?_⟩, ?_⟩, hreads.bind (reads_pure _)⟩
  · exact hqs.imp fun _ _ h => h.1
  · exact has.imp fun _ _ h => h.1
  · exact hns.imp fun _ _ h => h.1
  · exact hrs.imp fun _ _ h => h.1
  · intro n hn
    simp only [names, mem_append, mem_map] at hn
    rcases hn with ⟨q, hq, rfl⟩ | ⟨r, (hr | hr) | hr, rfl⟩
    · exact forall_of_forall₂ hqs q hq
    · exact forall_of_forall₂ has r hr
    · exact forall_of_forall₂ hns r hr
    · exact forall_of_forall₂ hrs r hr

theorem emits (m : Message) (hw : m.WireOk) (hf : m.Fits) : Emits m.emit decode (Same m) := by
  rw [← emitsAs_true]
  intro e he
  have hall : ∀ n ∈ m.names, Name.Spells (fun _ => True) n.labels ∧ True :=
    fun _ _ => ⟨⟨trivial, fun _ _ _ _ _ _ => trivial⟩, trivial⟩
  obtain ⟨hok, hpre, hread⟩ := m.emitsAs hw hf hall e he
  refine ⟨hok, hpre, fun buf hbuf => ?_⟩
  obtain ⟨m', ⟨hsame, -⟩, hreads⟩ := hread buf hbuf
  exact ⟨m', hsame, hreads⟩

/-- The first question of an encoded message stands, in full, right after the header. -/
theorem wire_first_prefix_encode {m : Message} {q : Question} {qs : List Question}
    (h : m.questions = q :: qs) : m.countedHeader.wire ++ q.wire <+: m.encode := by
  have hfirst : (q.emit (m.countedHeader.emit {})).buf = m.countedHeader.wire ++ q.wire := by
    rw [q.emit_fresh (by rw [Header.emit_eq]; rfl)]
    rfl
  have hrec := fun rs : List Record => uniform_foldl Record.uniform_emit rs
  rw [← hfirst]
  unfold encode emit
  simp only [h]
  exact ((uniform_foldl Question.uniform_emit qs).isPrefix _).trans (((hrec _).isPrefix _).trans
    (((hrec _).isPrefix _).trans ((hrec _).isPrefix _)))

/-- What `encode` wrote in less than 65536 octets, `parse` reads back. -/
theorem parse_encode (m : Message) (hw : m.WireOk) (hlen : m.encode.length < 65536) :
    ∃ m', parse m.encode = .ok m' ∧ Same m m' ∧ m'.questions.head? = m.questions.head? := by
  obtain ⟨-, -, hread⟩ := m.emits hw (m.fits_of_encode hlen) {} (by intro p hp; cases hp)
  obtain ⟨m', hsame, hm'⟩ := hread m.encode prefix_rfl
  refine ⟨m', ?_, hsame, ?_⟩
  · unfold Reads at hm'
    unfold parse
    rw [show (0 : ℕ) = Encoder.len {} from rfl, hm']
    rfl
  cases hq : m.questions with
  | nil =>
    have hnil := hsame.questions
    rw [hq] at hnil
    rw [forall₂_nil_left_iff.mp hnil]
  | cons q qs =>
    -- the first question was written in full, so it is read as it is
    have hfirst := wire_first_prefix_encode hq
    have hh := m.countedHeader.parse_readsBack m.encode [] ((prefix_append _ _).trans hfirst)
    have hqr := q.parse_readsBack m.encode _ hfirst
    obtain ⟨h', mid, hh', hm'⟩ := bind_eq_ok.mp hm'
    obtain ⟨rfl, rfl⟩ : m.countedHeader = h' ∧ m.countedHeader.wire.length = mid := by
      have := hh.symm.trans hh'
      simpa using this
    obtain ⟨qs', mid, hqs, hm'⟩ := bind_eq_ok.mp hm'
    have hcount : m.countedHeader.qdcount.val = qs.length + 1 := by
      have := (m.fits_of_encode hlen).questions
      simp [countedHeader, hq] at this ⊢
      omega
    rw [hcount] at hqs
    obtain ⟨q', mid, rest, hq', -, rfl⟩ := times_succ_eq_ok.mp hqs
    obtain rfl : q = q' := by
      have := hqr.symm.trans hq'
      simp at this
      exact this.1
    obtain ⟨as, mid, -, hm'⟩ := bind_eq_ok.mp hm'
    obtain ⟨ns, mid, -, hm'⟩ := bind_eq_ok.mp hm'
    obtain ⟨rs, mid, -, hm'⟩ := bind_eq_ok.mp hm'
    cases hm'
    rfl

/-- Two messages with the same sections differ in their twelve first octets only. -/
theorem encode_eq_append (m m' : Message) (hq : m'.questions = m.questions)
    (ha : m'.answers = m.answers) (hn : m'.authority = m.authority)
    (hr : m'.additional = m.additional) :
    ∃ body, m.encode = m.countedHeader.wire ++ body ∧
      m'.encode = m'.countedHeader.wire ++ body := by
  have hrec := fun rs : List Record => uniform_foldl Record.uniform_emit rs
  have hall : Uniform fun e : Encoder =>
      let e := m.questions.foldl (fun e q => q.emit e) e
      let e := m.answers.foldl (fun e r => r.emit e) e
      let e := m.authority.foldl (fun e r => r.emit e) e
      m.additional.foldl (fun e r => r.emit e) e :=
    (uniform_foldl Question.uniform_emit m.questions).comp
      ((hrec m.answers).comp ((hrec m.authority).comp (hrec m.additional)))
  obtain ⟨body, h1, h2, -⟩ := hall (m.countedHeader.emit {}) (m'.countedHeader.emit {})
    (by rw [Header.emit_eq]; exact ⟨rfl, rfl, rfl⟩)
  refine ⟨body, ?_, ?_⟩
  · assumption
  · rw [Header.emit_eq] at h2
    unfold encode emit
    rw [hq, ha, hn, hr]
    exact h2

end Message

end Runbound.Wire
