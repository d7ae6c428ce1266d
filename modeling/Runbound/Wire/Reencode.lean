import Runbound.FastPath.Parsed
import Runbound.Wire.RoundTrip

/-!
# Messages encoded and encoded again

Names in record data are written in full, so a message that was read may take more octets
when it is written again. The length of record data has sixteen bits and is cut to them
(`patch_u16_len`). Only the data of SVCB and HTTPS records can pass them: their target name
may have been compressed, and their parameters may fill the rest.

Results:
* `Message.parse_encode_spelling`: an encoded message reads back, and the names keep their
  letter case where the message has one spelling of them.
* `Message.readsBack_iff`: a message reads back iff its counts and data fit their fields.
* `Message.reencode_iff`: what was read survives being written again iff every SVCB record has
  room for its target name in full.
-/

namespace Runbound.Wire

open Lib Lib.Decoder FastPath List Rtype Name

/-! ## Spellings -/

variable {b : Bytes} {m : Message} {n stop : ℕ}

namespace Message

/-- No suffix of a name in `m` spells a suffix of `n` in another letter case. -/
def OneSpelling (m : Message) (n : Name) : Prop :=
  ∀ k ∈ m.names, ∀ s t : List Bytes, s <:+ n.labels → t <:+ k.labels →
    t.map lower = s.map lower → t = s

/-- The labels that spell no suffix of `n` in another way. -/
def SpelledAs (n : Name) (ls : List Bytes) : Prop :=
  ∀ s, s <:+ n.labels → ls.map lower = s.map lower → ls = s

variable {m : Message} {n : Name}

/-- With one spelling in the message, every suffix found again is spelled alike. -/
theorem OneSpelling.spelledAs (h : m.OneSpelling n) {k : Name} (hk : k ∈ m.names) {t : List Bytes}
    (ht : t <:+ k.labels) : SpelledAs n t := by
  intro s hs hlow
  exact h k hk s t hs ht hlow

/-- A label before a spelling of `n` stays one: what it starts is a suffix of a name. -/
theorem OneSpelling.spells (h : m.OneSpelling n) {k : Name} (hk : k ∈ m.names) :
    Name.Spells (SpelledAs n) k.labels := by
  refine ⟨h.spelledAs hk (nil_suffix), ?_⟩
  intro l rest rest' hsuffix hlow hspelled s hs hs'
  cases s with
  | nil => simp at hs'
  | cons x s =>
    obtain ⟨hl, hrest⟩ := List.cons.inj hs'
    have heq : rest' = s := hspelled s ((suffix_cons x s).trans hs) hrest
    have hself : l :: rest = x :: s := h.spelledAs hk hsuffix (x :: s) hs (by
      rw [map_cons, map_cons, hl, ← hlow, hrest])
    rw [heq, (List.cons.inj hself).1]

theorem Same.names {m' : Message} (h : Same m m') :
    List.Forall₂ (fun n n' : Name => n'.key = n.key) m.names m'.names := by
  have hrecords : ∀ {as bs : List Record}, List.Forall₂ Record.Same as bs →
      List.Forall₂ (fun n n' : Name => n'.key = n.key) (as.map Record.name)
        (bs.map Record.name) := by
    intro as bs h
    rw [forall₂_map_left_iff, forall₂_map_right_iff]
    exact h.imp fun _ _ h => h.1
  have hquestions : List.Forall₂ (fun n n' : Name => n'.key = n.key)
      (m.questions.map Question.name) (m'.questions.map Question.name) := by
    rw [forall₂_map_left_iff, forall₂_map_right_iff]
    exact h.questions.imp fun _ _ h => h.1
  refine rel_append hquestions (hrecords ?_)
  exact rel_append (rel_append h.answers h.authority) h.additional

/-- An encoded message reads back as the same message. Names are the same up to letter case,
    and exactly so where the message has one spelling of them. -/
theorem parse_encode_spelling (m : Message) (hw : m.WireOk) (hlen : m.encode.length ≤ 65535) :
    ∃ m', parse m.encode = .ok m' ∧ Same m m' ∧
      ∀ (i : ℕ) (n n' : Name), m.names[i]? = some n → m'.names[i]? = some n' →
        m.OneSpelling n → n' = n := by
  obtain ⟨m', hparse, hsame, -⟩ := m.parse_encode hw (by omega)
  refine ⟨m', hparse, hsame, ?_⟩
  intro i n n' hn hn' hone
  -- the same run, with the table restricted to the spelling of `n`
  have hspells : ∀ k ∈ m.names, Name.Spells (SpelledAs n) k.labels ∧ SpelledAs n k.labels :=
    fun k hk => ⟨hone.spells hk, hone.spelledAs hk suffix_rfl⟩
  obtain ⟨-, -, hread⟩ := m.emitsAs hw (m.fits_of_encode (by omega)) hspells {} (by
    intro p hp
    cases hp)
  obtain ⟨m'', ⟨-, hspelled⟩, hm''⟩ := hread m.encode prefix_rfl
  have hm' : m'' = m' := by
    unfold parse at hparse
    rw [show (0 : ℕ) = Encoder.len {} from rfl, hm''] at hparse
    exact Except.ok.inj hparse
  subst hm'
  have hkey : n'.key = n.key := by
    obtain ⟨hi, rfl⟩ := List.getElem?_eq_some_iff.mp hn
    obtain ⟨hi', rfl⟩ := List.getElem?_eq_some_iff.mp hn'
    exact List.Forall₂.get hsame.names hi hi'
  have hlabels : n'.labels = n.labels :=
    hspelled n' (mem_of_getElem? hn') n.labels suffix_rfl (reverse_injective hkey)
  exact ext_labels hlabels

/-- A question for `Ww.c.` and an answer whose owner is spelled `wW.c.` -/
def mixedCase : Message where
  header := { id := 1, flags := 0, qdcount := 1, ancount := 1, nscount := 0, arcount := 0 }
  questions := [⟨⟨[[87, 119], [99]], by decide⟩, Rtype.A, 1⟩]
  answers := [{ name := ⟨[[119, 87], [99]], by decide⟩, rtype := Rtype.A, rclass := 1, ttl := 60,
                rdata := .a ![1, 2, 3, 4], parsed := rfl }]
  authority := []
  additional := []

theorem wireOk_mixedCase : mixedCase.WireOk := by
  intro r hr
  obtain rfl := mem_singleton.mp hr
  trivial

theorem length_mixedCase : mixedCase.encode.length = 38 := by decide +kernel

theorem parse_encode_spelling_mixedCase :
    mixedCase.WireOk ∧ mixedCase.encode.length ≤ 65535 ∧
      ∃ m', parse mixedCase.encode = .ok m' ∧ Same mixedCase m' ∧
        ∀ (i : ℕ) (n n' : Name), mixedCase.names[i]? = some n → m'.names[i]? = some n' →
          mixedCase.OneSpelling n → n' = n := by
  have hlen : mixedCase.encode.length ≤ 65535 := by
    rw [length_mixedCase]
    omega
  exact ⟨wireOk_mixedCase, hlen, parse_encode_spelling mixedCase wireOk_mixedCase hlen⟩

end Message

/-! ## The size of record data -/

namespace Rdata

/-- The octets of a parameter: key, length and value. -/
def paramSize (p : U16 × Bytes) : ℕ := p.2.length + 4

/-- The data have room for the target name in full. Only SVCB data may be without. -/
def HasRoom : Rdata → Prop
  | svcb _ target params => 2 + target.wire.length + (params.map paramSize).sum ≤ 65535
  | _ => True

variable {t rdlength : U16} {buf : Bytes} {start pos : ℕ} {rd : Rdata}

theorem paramSize_of_length {value : Bytes} (h : value.length = n) (key : U16) :
    paramSize (key, value) = n + 4 := by
  rw [paramSize, h]

theorem length_params (params : List (U16 × Bytes)) :
    (params.flatMap svcParamWire).length = (params.map paramSize).sum := by
  induction params with
  | nil => rfl
  | cons p params ih =>
    rw [flatMap_cons, length_append, ih]
    rfl

/-- The length of an SVCB record's data: the target name is written in full. -/
theorem length_emit_svcb (priority : U16) (target : Name) (params : List (U16 × Bytes)) :
    (svcb priority target params).emit.length =
      2 + target.wire.length + (params.map paramSize).sum := by
  rw [emit_svcb, length_append, length_append, length_params, u16Be_length]
  omega

theorem charString_stop {s : Bytes} (h : charString stop buf start = .ok (s, pos)) :
    pos = start + (s.length + 1) := by
  obtain ⟨len, _, hlen, h⟩ := bind_eq_ok.mp h
  obtain ⟨_, _, hp, h⟩ := bind_eq_ok.mp h
  obtain ⟨-, rfl, -⟩ := u8_eq_ok hlen
  cases hp
  split_ifs at h
  · cases h
  · obtain ⟨hs, -, rfl⟩ := length_of_slice h
    omega

theorem svcParam_stop {p : U16 × Bytes} (h : svcParam stop buf start = .ok (p, pos)) :
    pos = start + paramSize p := by
  obtain ⟨key, _, hkey, h⟩ := bind_eq_ok.mp h
  obtain ⟨vlen, _, hvlen, h⟩ := bind_eq_ok.mp h
  obtain ⟨_, _, hp, h⟩ := bind_eq_ok.mp h
  obtain ⟨-, rfl, -⟩ := u16_eq_ok hkey
  obtain ⟨-, rfl, -⟩ := u16_eq_ok hvlen
  cases hp
  split_ifs at h
  · cases h
  · obtain ⟨value, _, hv, h⟩ := bind_eq_ok.mp h
    cases h
    obtain ⟨hs, -, rfl⟩ := length_of_slice hv
    show start + 2 + 2 + vlen.val = start + (value.length + 4)
    omega

theorem reads_oneParam {pre value len : Bytes} {key : U16} {limit fuel : ℕ}
    (hn : value.length = n) (hlt : n < 65536) (hlen : u16Be (Fin.ofNat 65536 n) = len)
    (h : pre ++ (u16Be key ++ (len ++ value)) <+: buf) (hlimit : limit = pre.length + (n + 4))
    (hfuel : 1 ≤ fuel) :
    (whileBefore limit (svcParam limit) fuel).Reads buf pre.length [(key, value)] limit := by
  have hwire : [(key, value)].flatMap svcParamWire = u16Be key ++ (len ++ value) := by
    rw [flatMap_singleton, svcParamWire, hn, hlen]
  have hsize : ([(key, value)].flatMap svcParamWire).length = n + 4 := by
    rw [length_params, map_singleton, sum_singleton, paramSize_of_length hn]
  rw [← hwire] at h
  refine reads_whileBefore ?_ h (by rw [hsize, hlimit]) hfuel
  intro p hp
  obtain rfl := mem_singleton.mp hp
  refine ⟨by simp [svcParamWire, u16Be], ?_⟩
  intro pre h hle
  exact svcParam_reads (by rw [hn]; exact hlt) h hle

/-- Where the data of an SVCB record that was read end. -/
theorem svcb_eq_ok {priority : U16} {target : Name} {params : List (U16 × Bytes)}
    (ht : t = SVCB ∨ t = HTTPS)
    (h : parseBody t n stop buf start = .ok (svcb priority target params, pos)) :
    ∃ mid, Name.decode buf (start + 2) = .ok (target, mid) ∧
      pos = mid + (params.map paramSize).sum := by
  have hbody : parseBody t n stop = parseBody SVCB n stop := by
    rcases ht with rfl | rfl <;> rfl
  rw [hbody] at h
  obtain ⟨priority', _, hpriority, h⟩ := bind_eq_ok.mp h
  obtain ⟨target', mid, htarget, h⟩ := bind_eq_ok.mp h
  obtain ⟨params', _, hparams, h⟩ := bind_eq_ok.mp h
  cases h
  obtain ⟨-, rfl, -⟩ := u16_eq_ok hpriority
  exact ⟨mid, htarget, stop_of_whileBefore (fun _ _ _ => svcParam_stop) hparams⟩

/-- Data that were read, SVCB apart, take at most 65535 octets when they are written. -/
theorem length_emit_of_parse (h : parse t rdlength buf start = .ok (rd, pos)) (hroom : rd.HasRoom) :
    rd.emit.length < 65536 := by
  obtain ⟨hp, -⟩ := parse_ok h
  have hname : ∀ n : Name, n.wire.length ≤ 255 := fun n => by
    rw [wire_length]
    exact n.ok.len
  obtain ⟨-, hpos, hcases⟩ := parse_cases h
  cases rd with
  | a octets => simp [emit, emitWith]
  | aaaa octets => simp [emit, emitWith]
  | ns n => exact (hname n).trans_lt (by omega)
  | cname n => exact (hname n).trans_lt (by omega)
  | ptr n => exact (hname n).trans_lt (by omega)
  | soa mname rname serial refresh retry expire minimum =>
    have := hname mname
    have := hname rname
    simp only [emit, emitWith, length_append, u32Be_length]
    omega
  | mx preference exchange =>
    have := hname exchange
    simp only [emit, emitWith, length_append, u16Be_length]
    omega
  | srv priority weight port target =>
    have := hname target
    simp only [emit, emitWith, length_append, u16Be_length]
    omega
  | txt strings =>
    obtain rfl : TXT = t := of_decide_eq_true hp
    rcases hcases with ⟨-, heq⟩ | ⟨-, hbody⟩
    · cases heq
    · obtain ⟨strings', _, hstrings, hbody⟩ := bind_eq_ok.mp hbody
      cases hbody
      have hstop := stop_of_whileBefore (fun _ _ _ => charString_stop) hstrings
      have hsum : (txt strings).emit.length = (strings.map fun s => s.length + 1).sum := by
        simp [emit, emitWith]
      omega
  | caa flags tag value =>
    obtain rfl : CAA = t := of_decide_eq_true hp
    rcases hcases with ⟨-, heq⟩ | ⟨-, hbody⟩
    · cases heq
    · obtain ⟨flags', _, hflags, hbody⟩ := bind_eq_ok.mp hbody
      obtain ⟨taglen, _, htaglen, hbody⟩ := bind_eq_ok.mp hbody
      obtain ⟨_, _, hp, hbody⟩ := bind_eq_ok.mp hbody
      obtain ⟨-, rfl, -⟩ := u8_eq_ok hflags
      obtain ⟨-, rfl, -⟩ := u8_eq_ok htaglen
      cases hp
      split_ifs at hbody
      · cases hbody
      · obtain ⟨tag', _, htag, hbody⟩ := bind_eq_ok.mp hbody
        obtain ⟨value', _, hvalue, hbody⟩ := bind_eq_ok.mp hbody
        cases hbody
        obtain ⟨htag', -, -⟩ := length_of_slice htag
        obtain ⟨hvalue', -, -⟩ := length_of_slice hvalue
        have hsum : (caa flags tag value).emit.length = 2 + tag.length + value.length := by
          simp [emit, emitWith]
          omega
        omega
  | svcb priority target params =>
    rw [length_emit_svcb]
    have hfits : 2 + target.wire.length + (params.map paramSize).sum ≤ 65535 := hroom
    omega
  | unknown t' data =>
    simp only [parsedAs, Bool.and_eq_true, decide_eq_true_eq] at hp
    exact hp.1.2

/-- Where data stand in full, they are read only at their own length. -/
theorem hasRoom_of_parse_inPlace {pre : Bytes} (h : parse t rdlength buf pre.length = .ok (rd, pos))
    (hplace : pre ++ rd.emit <+: buf) : rd.HasRoom := by
  obtain ⟨hp, -⟩ := parse_ok h
  obtain ⟨-, hpos, hcases⟩ := parse_cases h
  cases rd with
  | svcb priority target params =>
    rcases hcases with ⟨-, heq⟩ | ⟨-, hbody⟩
    · cases heq
    · obtain ⟨mid, htarget, hsum⟩ := svcb_eq_ok (by simpa [parsedAs] using hp) hbody
      rw [emit_svcb, ← append_assoc, ← append_assoc] at hplace
      have hread := decode_readsBack target buf (pre ++ u16Be priority)
        ((prefix_append _ _).trans hplace)
      rw [length_append] at hread
      have hmid : mid = pre.length + 2 + target.wire.length := by
        have hsame := hread.symm.trans htarget
        simp only [Except.ok.injEq, Prod.mk.injEq, true_and] at hsame
        exact hsame.symm
      show 2 + target.wire.length + (params.map paramSize).sum ≤ 65535
      omega
  | _ => trivial

end Rdata

/-! ## What a faithful reading shows of the data -/

/-- If `d` reads what `f` wrote as a value that meets `R`, then `P`, and it read all of it. -/
def Forces {α : Type} (f : Encoder → Encoder) (d : Dec α) (R : α → Prop) (P : Prop) : Prop :=
  ∀ e : Encoder, e.Ok → (f e).Ok ∧ e.buf <+: (f e).buf ∧
    ∀ buf a pos, (f e).buf <+: buf → d buf e.len = .ok (a, pos) → R a → P ∧ pos = (f e).len

section Forces

variable {α : Type} {f : Encoder → Encoder} {d : Dec α} {R : α → Prop}

theorem Emits.stop_eq (h : Emits f d R) {e : Encoder} (he : e.Ok) {buf : Bytes} {a : α} {pos : ℕ}
    (hbuf : (f e).buf <+: buf) (hd : d buf e.len = .ok (a, pos)) : pos = (f e).len := by
  obtain ⟨a', -, hread⟩ := (h e he).2.2 buf hbuf
  have hsame := hd.symm.trans hread
  simp only [Except.ok.injEq, Prod.mk.injEq] at hsame
  exact hsame.2

/-- A section that reads back forces the bounds of each of its items. -/
theorem forces_times {emit : α → Encoder → Encoder} {Same : α → α → Prop} {P : α → Prop}
    (as : List α) (h : ∀ a ∈ as, Forces (emit a) d (Same a) (P a)) :
    Forces (fun e => as.foldl (fun e a => emit a e) e) (times d as.length)
      (List.Forall₂ Same as) (∀ a ∈ as, P a) := by
  induction as with
  | nil =>
    intro e he
    refine ⟨he, prefix_rfl, ?_⟩
    intro buf as' pos _ hread _
    obtain ⟨-, rfl⟩ := times_zero_eq_ok.mp hread
    exact ⟨by simp, rfl⟩
  | cons a as ih =>
    intro e he
    obtain ⟨hok1, hpre1, hforce1⟩ := h a (by simp) e he
    obtain ⟨hok2, hpre2, hforce2⟩ := ih (fun x hx => h x (by simp [hx])) (emit a e) hok1
    refine ⟨hok2, hpre1.trans hpre2, ?_⟩
    intro buf as' pos hbuf hread hsame
    obtain ⟨a', mid, rest, hread1, hread2, rfl⟩ := times_succ_eq_ok.mp hread
    obtain ⟨hsame1, hsame2⟩ := forall₂_cons.mp hsame
    obtain ⟨hP, rfl⟩ := hforce1 buf a' mid (hpre2.trans hbuf) hread1 hsame1
    obtain ⟨hPs, hpos⟩ := hforce2 buf rest pos hbuf hread2 hsame2
    exact ⟨forall_mem_cons.mpr ⟨hP, hPs⟩, hpos⟩

end Forces

/-- An emitted name reads back up to letter case. -/
theorem Name.emits (n : Name) : Emits n.emit Name.decode fun n' => n'.key = n.key := by
  rw [← emitsAs_true]
  intro e he
  obtain ⟨hok, hpre, hread⟩ := n.emitsAs ⟨trivial, fun _ _ _ _ _ _ => trivial⟩ e he
  refine ⟨hok, hpre, ?_⟩
  intro buf hbuf
  obtain ⟨n', ⟨hkey, -⟩, hn'⟩ := hread buf hbuf
  exact ⟨n', hkey, hn'⟩

namespace Record

/-- A record whose data are read as they were written has room for them. -/
theorem forces (r : Record) (hw : r.rdata.wireOk)
    (hsize : r.rdata.HasRoom → r.rdata.emit.length < 65536) :
    Forces r.emit Record.parse (Same r) r.rdata.HasRoom := by
  intro e he
  obtain ⟨hok, hpre, -⟩ := r.name.emits e he
  have hbody : (r.name.emit e).buf <+: (r.emit e).buf := prefix_append _ _
  refine ⟨fun p hp => knownAs_true.mp ((knownAs_true.mpr (hok p hp)).mono hbody),
    hpre.trans hbody, ?_⟩
  intro buf r' pos hbuf hread hsame
  obtain ⟨mid, hname, -, -, hrdata⟩ := recordParse_eq_ok hread
  have hmid : mid = (r.name.emit e).len := r.name.emits.stop_eq he (hbody.trans hbuf) hname
  have hroom : r.rdata.HasRoom := by
    rw [hsame.2.2.2.2] at hrdata
    -- the data stand after the name and ten octets
    have hplace : (r.name.emit e).buf ++ (u16Be r.rtype ++ u16Be r.rclass ++ u32Be r.ttl ++
        u16Be (Fin.ofNat 65536 r.rdata.emit.length)) ++ r.rdata.emit <+: buf := by
      refine List.IsPrefix.trans ?_ hbuf
      simp only [append_assoc]
      exact prefix_rfl
    have hstart : ((r.name.emit e).buf ++ (u16Be r.rtype ++ u16Be r.rclass ++ u32Be r.ttl ++
        u16Be (Fin.ofNat 65536 r.rdata.emit.length))).length = mid + 10 := by
      rw [hmid]
      simp only [length_append]
      rfl
    rw [← hstart] at hrdata
    exact Rdata.hasRoom_of_parse_inPlace hrdata hplace
  refine ⟨hroom, ?_⟩
  have hemits : Emits r.emit Record.parse (fun r' => Same r r' ∧ True) :=
    emitsAs_true.mp (r.emitsAs hw (hsize hroom) ⟨trivial, fun _ _ _ _ _ _ => trivial⟩ trivial)
  exact hemits.stop_eq he hbuf hread

theorem length_emit_of_parse {pos : ℕ} {r : Record}
    (h : Record.parse b pos = .ok (r, stop)) :
    r.rdata.HasRoom → r.rdata.emit.length < 65536 := by
  obtain ⟨mid, -, -, -, hrdata⟩ := recordParse_eq_ok h
  exact Rdata.length_emit_of_parse hrdata

end Record

namespace Message

/-- The counts of a message that was read are those of its header. -/
theorem countedHeader_of_parse (h : parse b = .ok m) : m.countedHeader = m.header := by
  obtain ⟨hq, ha, hn, hr⟩ := counts_of_parse h
  rw [countedHeader, header_of_parse h, ← hq, ← ha, ← hn, ← hr]
  simp

/-- A message that was read fits again if the data of its records do. -/
theorem fits_of_parse (h : parse b = .ok m)
    (hdata : ∀ r ∈ m.answers ++ m.authority ++ m.additional, r.rdata.emit.length < 65536) :
    m.Fits := by
  obtain ⟨hq, ha, hn, hr⟩ := counts_of_parse h
  refine ⟨?_, ?_, ?_, ?_, hdata⟩
  · omega
  · omega
  · omega
  · omega

/-- A message that reads back has room for its data, if the data of a record that has room fit. -/
theorem hasRoom_of_same {m' : Message} (hw : m.WireOk)
    (hsize : ∀ r ∈ m.answers ++ m.authority ++ m.additional,
      r.rdata.HasRoom → r.rdata.emit.length < 65536)
    (hparse : parse m.encode = .ok m') (hsame : Same m m') :
    ∀ r ∈ m.answers ++ m.authority ++ m.additional, r.rdata.HasRoom := by
  have hforces : ∀ r ∈ m.answers ++ m.authority ++ m.additional,
      Forces r.emit Record.parse (Record.Same r) r.rdata.HasRoom :=
    fun r hr => r.forces (hw r hr) (hsize r hr)
  obtain ⟨-, -, p1, p2, p3, p4, hq, ha, hn, hr⟩ := FastPath.parse_eq_ok hparse
  obtain ⟨hcq, hca, hcn, hcr⟩ := counts_of_parse hparse
  rw [header_of_parse hparse] at hq ha hn hr
  simp only [hcq, hca, hcn, hcr, ← hsame.questions.length_eq, ← hsame.answers.length_eq,
    ← hsame.authority.length_eq, ← hsame.additional.length_eq] at hq ha hn hr
  -- the encoder after each section
  set e0 := m.countedHeader.emit {} with he0
  set e1 := m.questions.foldl (fun e q => q.emit e) e0 with he1
  set e2 := m.answers.foldl (fun e r => r.emit e) e1 with he2
  set e3 := m.authority.foldl (fun e r => r.emit e) e2 with he3
  have hend : m.encode = (m.additional.foldl (fun e r => r.emit e) e3).buf := rfl
  have hok0 : e0.Ok := by
    intro p hp
    cases hp
  have hqs : Emits (fun e => m.questions.foldl (fun e q => q.emit e) e)
      (times Question.parse m.questions.length)
      (List.Forall₂ (fun q q' => Question.Same q q' ∧ True) m.questions) :=
    emitsAs_true.mp (emitsAs_times m.questions fun q _ =>
      q.emitsAs ⟨trivial, fun _ _ _ _ _ _ => trivial⟩ trivial)
  obtain ⟨hok1, -, -⟩ := hqs e0 hok0
  obtain ⟨hok2, hpre2, hforce2⟩ :=
    forces_times m.answers (fun r hr => hforces r (by simp [hr])) e1 hok1
  obtain ⟨hok3, hpre3, hforce3⟩ :=
    forces_times m.authority (fun r hr => hforces r (by simp [hr])) e2 hok2
  obtain ⟨-, hpre4, hforce4⟩ :=
    forces_times m.additional (fun r hr => hforces r (by simp [hr])) e3 hok3
  obtain rfl : p1 = e1.len := hqs.stop_eq hok0 (hpre2.trans (hpre3.trans (hend ▸ hpre4))) hq
  obtain ⟨hanswers, rfl⟩ := hforce2 _ _ _ (hpre3.trans (hend ▸ hpre4)) ha hsame.answers
  obtain ⟨hauthority, rfl⟩ := hforce3 _ _ _ (hend ▸ hpre4) hn hsame.authority
  obtain ⟨hadditional, -⟩ := hforce4 _ _ _ (hend ▸ prefix_rfl) hr hsame.additional
  intro r hmem
  rcases mem_append.mp hmem with hmem | hmem
  · rcases mem_append.mp hmem with hmem | hmem
    · exact hanswers r hmem
    · exact hauthority r hmem
  · exact hadditional r hmem

/-- What an encoded message reads back as has data that fit their length octets, and so has the
    message. -/
theorem wireOk_of_same {m' : Message} (hparse : parse m.encode = .ok m') (hsame : Same m m') :
    m.WireOk ∧ ∀ r ∈ m.answers ++ m.authority ++ m.additional,
      r.rdata.HasRoom → r.rdata.emit.length < 65536 := by
  have hsections : List.Forall₂ Record.Same (m.answers ++ m.authority ++ m.additional)
      (m'.answers ++ m'.authority ++ m'.additional) :=
    rel_append (rel_append hsame.answers hsame.authority) hsame.additional
  refine ⟨fun r hr => ?_, fun r hr => ?_⟩
  · obtain ⟨r', hr', hsame'⟩ := exists_of_forall₂ hsections hr
    rw [← hsame'.2.2.2.2]
    exact wireOk_of_parse hparse r' hr'
  · obtain ⟨r', hr', hsame'⟩ := exists_of_forall₂ hsections hr
    rw [← hsame'.2.2.2.2]
    exact forall_records_of_parse hparse (fun _ _ _ => Record.length_emit_of_parse) r' hr'

/-- A message reads back exactly if its counts and the data of its records fit their fields. -/
theorem readsBack_iff (m : Message) :
    (∃ m', parse m.encode = .ok m' ∧ Same m m') ↔ m.WireOk ∧ m.Fits := by
  constructor
  · rintro ⟨m', hparse, hsame⟩
    obtain ⟨hw, hsize⟩ := wireOk_of_same hparse hsame
    have hroom := hasRoom_of_same hw hsize hparse hsame
    obtain ⟨hcq, hca, hcn, hcr⟩ := counts_of_parse hparse
    refine ⟨hw, ?_, ?_, ?_, ?_, fun r hr => hsize r hr (hroom r hr)⟩
    · rw [hsame.questions.length_eq]
      omega
    · rw [hsame.answers.length_eq]
      omega
    · rw [hsame.authority.length_eq]
      omega
    · rw [hsame.additional.length_eq]
      omega
  · rintro ⟨hw, hfits⟩
    obtain ⟨-, -, hread⟩ := m.emits hw hfits {} (by
      intro p hp
      cases hp)
    obtain ⟨m', hsame, hm'⟩ := hread m.encode prefix_rfl
    exact ⟨m', congrArg (Except.map Prod.fst) hm', hsame⟩

/-- A message that was read, written and read again is the same iff each SVCB or HTTPS record
    has room for its target name in full. -/
theorem reencode_iff {b : Bytes} {m : Message} (h : parse b = .ok m) :
    (∃ m', parse m.encode = .ok m' ∧ m'.header = m.header ∧ Same m m') ↔
      ∀ r ∈ m.answers ++ m.authority ++ m.additional, r.rdata.HasRoom := by
  constructor
  · rintro ⟨m', hparse, -, hsame⟩
    obtain ⟨hw, hsize⟩ := wireOk_of_same hparse hsame
    exact hasRoom_of_same hw hsize hparse hsame
  · intro hroom
    have hsize := forall_records_of_parse h fun _ _ _ => Record.length_emit_of_parse
    have hfits := fits_of_parse h fun r hr => hsize r hr (hroom r hr)
    obtain ⟨m', hparse, hsame⟩ := m.readsBack_iff.mpr ⟨wireOk_of_parse h, hfits⟩
    exact ⟨m', hparse, by rw [hsame.header, countedHeader_of_parse h], hsame⟩

theorem reencode_iff_mixedCase :
    ∃ m, parse mixedCase.encode = .ok m ∧
      ((∃ m', parse m.encode = .ok m' ∧ m'.header = m.header ∧ Same m m') ↔
        ∀ r ∈ m.answers ++ m.authority ++ m.additional, r.rdata.HasRoom) := by
  obtain ⟨m, hm, -⟩ := mixedCase.parse_encode wireOk_mixedCase (by
    rw [length_mixedCase]
    omega)
  exact ⟨m, hm, reencode_iff hm⟩

/-! ## A name that lies over its message

The header and the first record of `overlapping`, and four octets inside the value of its one
parameter, are also the labels of a name of 255 octets, from offset 0. The target of the record
is a pointer to it, so that data of 65512 octets hold 65765. -/

/-- The first 31 octets: a header whose identifier starts with 63, and an SVCB record up to the
    value of its parameter. -/
def overlappingHead : Bytes :=
  [63, 0, 0, 0, 0, 0, 0, 1, 0, 0, 0, 0, 0, 0, 64, 0, 1, 0, 0, 0, 0, 255, 232, 0, 0, 192, 0, 0, 0,
    255, 224]

/-- The labels from offset 0. -/
def overlappingLabels : List Bytes :=
  [overlappingHead.tail ++ List.replicate 33 0, List.replicate 63 0, List.replicate 63 0,
    List.replicate 61 0]

/-- The name from offset 0. -/
def overlappingTarget : Name := ⟨overlappingLabels, by decide⟩

/-- The message, of 65535 octets. -/
def overlapping : Bytes := overlappingTarget.wire ++ List.replicate 65280 0

/-- The value of the parameter. -/
def overlappingValue : Bytes := overlapping.drop 31

/-- The record of the message. -/
def overlappingRecord : Record where
  name := Name.root
  rtype := SVCB
  rclass := 1
  ttl := 0
  rdata := .svcb 0 overlappingTarget [(0, overlappingValue)]
  parsed := rfl

theorem length_overlappingTarget : overlappingTarget.wire.length = 255 := by decide +kernel

theorem length_overlapping : overlapping.length = 65535 := by
  rw [overlapping, length_append, length_overlappingTarget, length_replicate]

theorem length_overlappingValue : overlappingValue.length = 65504 := by
  rw [overlappingValue, length_drop, length_overlapping]

theorem prefix_overlapping {w : Bytes} (h : w <+: overlappingHead) : w <+: overlapping := by
  exact h.trans (prefix_append _ _)

/-- The target's pointer leads into the record's own front. -/
theorem reads_overlappingTarget : Name.decode.Reads overlapping 25 overlappingTarget 27 := by
  have hpointer : StandsAt (pointerTo 0) overlapping 25 := by
    refine ⟨overlappingHead.take 25, overlappingHead.drop 27 ++ overlappingValue, ?_, rfl⟩
    rfl
  have hname : StandsAt overlappingTarget.wire overlapping 0 :=
    ⟨[], List.replicate 65280 0, by rw [overlapping, nil_append], rfl⟩
  exact decode_pointer (Nat.zero_le _) (by omega) hpointer hname

theorem reads_overlappingParams :
    (whileBefore 65535 (Rdata.svcParam 65535) 65512).Reads overlapping 27 [(0, overlappingValue)]
      65535 := by
  have hwire : overlappingHead.take 27 ++ (u16Be (0 : U16) ++ ([255, 224] ++ overlappingValue)) <+:
      overlapping := by
    exact prefix_rfl
  have hlength : u16Be (Fin.ofNat 65536 65504) = [255, 224] := by decide
  have hstart : (overlappingHead.take 27).length = 27 := rfl
  have hlimit : 65535 = (overlappingHead.take 27).length + (65504 + 4) := by rw [hstart]
  have hread := Rdata.reads_oneParam length_overlappingValue (by omega) hlength hwire hlimit
    (show 1 ≤ 65512 by omega)
  exact hread

theorem reads_overlappingRdata :
    (Rdata.parse SVCB 65512).Reads overlapping 23 overlappingRecord.rdata 65535 := by
  have hpriority : Dec.u16.Reads overlapping 23 0 25 :=
    Dec.u16_readsBack 0 overlapping (overlappingHead.take 23) (prefix_overlapping (by decide))
  have hbody : (Rdata.parseBody SVCB 65512 65535).Reads overlapping 23
      overlappingRecord.rdata 65535 :=
    hpriority.bind (reads_overlappingTarget.bind (reads_overlappingParams.bind (reads_pure _)))
  unfold Reads at hbody ⊢
  have hlength : (65512 : U16).val = 65512 := rfl
  unfold Rdata.parse
  simp only [length_overlapping, hlength, hbody]
  rfl

/-- The datagram is read as one answer. -/
theorem parse_overlapping :
    parse overlapping = .ok
      { header := ⟨16128, 0, 0, 1, 0, 0⟩, questions := [], answers := [overlappingRecord],
        authority := [], additional := [] } := by
  have hheader : Header.parse.Reads overlapping 0 ⟨16128, 0, 0, 1, 0, 0⟩ 12 :=
    Header.parse_readsBack ⟨16128, 0, 0, 1, 0, 0⟩ overlapping [] (prefix_overlapping (by decide))
  have hname : Name.decode.Reads overlapping 12 Name.root 13 :=
    decode_readsBack Name.root overlapping (overlappingHead.take 12)
      (prefix_overlapping (by decide))
  have htype : Dec.u16.Reads overlapping 13 SVCB 15 :=
    Dec.u16_readsBack _ overlapping (overlappingHead.take 13) (prefix_overlapping (by decide))
  have hclass : Dec.u16.Reads overlapping 15 1 17 :=
    Dec.u16_readsBack _ overlapping (overlappingHead.take 15) (prefix_overlapping (by decide))
  have httl : Dec.u32.Reads overlapping 17 0 21 :=
    Dec.u32_readsBack _ overlapping (overlappingHead.take 17) (prefix_overlapping (by decide))
  have hlength : Dec.u16.Reads overlapping 21 65512 23 :=
    Dec.u16_readsBack _ overlapping (overlappingHead.take 21) (prefix_overlapping (by decide))
  have hrecord : Record.parse.Reads overlapping 12 overlappingRecord 65535 := by
    refine hname.bind (htype.bind (hclass.bind (httl.bind (hlength.bind
      (reads_overlappingRdata.bind ?_)))))
    exact reads_pure _
  have hquestions : (times Question.parse 0).Reads overlapping 12 [] 12 := rfl
  have hanswers : (times Record.parse 1).Reads overlapping 12 [overlappingRecord] 65535 :=
    times_succ_eq_ok.mpr ⟨overlappingRecord, _, [], hrecord, rfl, rfl⟩
  exact parse_of_reads hheader hquestions hanswers rfl rfl

/-- A message of 65535 octets that parses, and does not read back once it is written again. -/
theorem reencode_overlapping :
    overlapping.length ≤ 65535 ∧ ∃ m, parse overlapping = .ok m ∧
      ¬ ∃ m', parse m.encode = .ok m' ∧ Same m m' := by
  refine ⟨length_overlapping.le, _, parse_overlapping, ?_⟩
  rintro ⟨m', hparse, hsame⟩
  obtain ⟨hw, hsize⟩ := wireOk_of_same hparse hsame
  have hroom := hasRoom_of_same hw hsize hparse hsame overlappingRecord (by simp)
  have hle : 2 + overlappingTarget.wire.length +
      ([((0 : U16), overlappingValue)].map Rdata.paramSize).sum ≤ 65535 := hroom
  have hsum : ([((0 : U16), overlappingValue)].map Rdata.paramSize).sum = 65508 := by
    rw [map_singleton, sum_singleton]
    exact Rdata.paramSize_of_length length_overlappingValue 0
  rw [length_overlappingTarget] at hle
  omega

end Message

end Runbound.Wire
