import Runbound.Wire.NameCodec

/-!
# Record data on the wire

* `Rdata.parse_ok`: what `Rdata::parse` returns fits the type of its record, and its
  strings fit their length octets.
* `Rdata.readsBack`: such data, written by `Rdata::emit`, are read back as they are.
-/

namespace Runbound.Wire

open Lib Lib.Decoder List Rtype Name Dec

/-! ## Words, strings and names -/

namespace Dec

theorem u8_readsBack (b : Byte) : u8.ReadsBack b [b] := readsBack_item b

theorem slice_readsBack (s : Bytes) : (slice s.length).ReadsBack s s := readsBack_slice s

/-- A word reads back from its two octets. -/
theorem u16_readsBack (x : U16) : u16.ReadsBack x (u16Be x) := by
  have h : ∀ hi lo : Byte, u16.ReadsBack (u16OfBe hi lo) [hi, lo] := by
    intro hi lo
    apply ReadsBack.bind (w := [lo]) (u8_readsBack hi)
    exact (u8_readsBack lo).map (u16OfBe hi)
  rw [← u16OfBe_u16Be x, u16Be_u16OfBe]
  exact h _ _

theorem u32_readsBack (x : U32) : u32.ReadsBack x (u32Be x) := by
  have h : ∀ a b c d : Byte, u32.ReadsBack (u32OfBe a b c d) [a, b, c, d] := by
    intro a b c d
    apply ReadsBack.bind (w := [b, c, d]) (u8_readsBack a)
    apply ReadsBack.bind (w := [c, d]) (u8_readsBack b)
    apply ReadsBack.bind (w := [d]) (u8_readsBack c)
    exact (u8_readsBack d).map (u32OfBe a b c)
  rw [← u32OfBe_u32Be x, u32Be_u32OfBe]
  exact h _ _ _ _

end Dec

/-- A name written out reads back. -/
theorem Name.decode_readsBack (n : Name) : Name.decode.ReadsBack n n.wire := by
  rintro _ pre ⟨rest, rfl⟩
  have h := parse_wire pre rest n
  simpa [Reads, Name.decode] using h

variable {s : Bytes} {rd : Rdata} {t : U16} {n stop : ℕ}

namespace Rdata

/-- Strings and values fit their length octets, and there is a string at least. -/
def wireOk : Rdata → Prop
  | txt strings => strings ≠ [] ∧ ∀ s ∈ strings, s.length < 256
  | caa _ tag _ => tag.length < 256
  | svcb _ _ params => ∀ p ∈ params, p.2.length < 65536
  | _ => True

/-! ## What `Rdata::parse` returns -/

section Parsed

variable {t rdlength : U16} {buf : Bytes} {start pos : ℕ} {rd : Rdata}

/-- A slice has the length asked for, and the cursor moves by it. -/
theorem length_of_slice (h : Dec.slice n buf start = .ok (s, pos)) :
    s.length = n ∧ start + n ≤ buf.length ∧ pos = start + n := by
  unfold Dec.slice Decoder.slice at h
  split_ifs at h with hle
  cases h
  rw [length_take, length_drop]
  omega

theorem charString_length (h : charString stop buf start = .ok (s, pos)) : s.length < 256 := by
  obtain ⟨len, _, -, h⟩ := bind_eq_ok.mp h
  obtain ⟨_, _, hp, h⟩ := bind_eq_ok.mp h
  split_ifs at h
  · cases h
  · have := (length_of_slice h).1
    omega

theorem svcParam_length {p : U16 × Bytes}
    (h : svcParam stop buf start = .ok (p, pos)) : p.2.length < 65536 := by
  obtain ⟨key, _, -, h⟩ := bind_eq_ok.mp h
  obtain ⟨vlen, _, -, h⟩ := bind_eq_ok.mp h
  obtain ⟨_, _, hp, h⟩ := bind_eq_ok.mp h
  split_ifs at h
  · cases h
  · obtain ⟨value, _, hv, h⟩ := bind_eq_ok.mp h
    cases h
    have := (length_of_slice hv).1
    simp only
    omega

/-- A run that found a value: the empty one, or one the body of `t` returned. -/
theorem parse_cases (h : parse t rdlength buf start = .ok (rd, pos)) :
    start + rdlength.val ≤ buf.length ∧ pos = start + rdlength.val ∧
      ((rdlength.val = 0 ∧ rd = .unknown t []) ∨
        (rdlength.val ≠ 0 ∧ parseBody t rdlength.val pos buf start = .ok (rd, pos))) := by
  unfold parse at h
  simp only at h
  split_ifs at h with h1 h2
  · cases h
    exact ⟨by omega, by omega, Or.inl ⟨h2, rfl⟩⟩
  · cases hb : parseBody t rdlength.val (start + rdlength.val) buf start with
    | error e => rw [hb] at h; cases h
    | ok r =>
      obtain ⟨rd', pos'⟩ := r
      rw [hb] at h
      simp only [ne_eq, ite_not] at h
      split_ifs at h with h3
      cases h
      subst h3
      exact ⟨by omega, rfl, Or.inr ⟨h2, hb⟩⟩

/-- What the body of a type returns: data of that type, its strings within bounds. -/
theorem parseBody_ok (hn : n ≠ 0) (hn' : n < 65536) (hstop : stop = start + n)
    (h : parseBody t n stop buf start = .ok (rd, pos)) : rd.parsedAs t = true ∧ rd.wireOk := by
  -- one branch for each type, in the order of the source
  rcases ite_eq_ok.mp h with ⟨h1, h⟩ | ⟨h1, h⟩
  · obtain ⟨s, _, -, h⟩ := bind_eq_ok.mp h
    cases h
    exact ⟨by subst h1; rfl, trivial⟩
  rcases ite_eq_ok.mp h with ⟨h2, h⟩ | ⟨h2, h⟩
  · obtain ⟨s, _, -, h⟩ := bind_eq_ok.mp h
    cases h
    exact ⟨by subst h2; rfl, trivial⟩
  rcases ite_eq_ok.mp h with ⟨h3, h⟩ | ⟨h3, h⟩
  · obtain ⟨n, _, -, h⟩ := bind_eq_ok.mp h
    cases h
    exact ⟨by subst h3; rfl, trivial⟩
  rcases ite_eq_ok.mp h with ⟨h4, h⟩ | ⟨h4, h⟩
  · obtain ⟨n, _, -, h⟩ := bind_eq_ok.mp h
    cases h
    exact ⟨by subst h4; rfl, trivial⟩
  rcases ite_eq_ok.mp h with ⟨h5, h⟩ | ⟨h5, h⟩
  · obtain ⟨n, _, -, h⟩ := bind_eq_ok.mp h
    cases h
    exact ⟨by subst h5; rfl, trivial⟩
  rcases ite_eq_ok.mp h with ⟨h6, h⟩ | ⟨h6, h⟩
  · obtain ⟨mname, _, -, h⟩ := bind_eq_ok.mp h
    obtain ⟨rname, _, -, h⟩ := bind_eq_ok.mp h
    obtain ⟨serial, _, -, h⟩ := bind_eq_ok.mp h
    obtain ⟨refresh, _, -, h⟩ := bind_eq_ok.mp h
    obtain ⟨retry, _, -, h⟩ := bind_eq_ok.mp h
    obtain ⟨expire, _, -, h⟩ := bind_eq_ok.mp h
    obtain ⟨minimum, _, -, h⟩ := bind_eq_ok.mp h
    cases h
    exact ⟨by subst h6; rfl, trivial⟩
  rcases ite_eq_ok.mp h with ⟨h7, h⟩ | ⟨h7, h⟩
  · obtain ⟨preference, _, -, h⟩ := bind_eq_ok.mp h
    obtain ⟨exchange, _, -, h⟩ := bind_eq_ok.mp h
    cases h
    exact ⟨by subst h7; rfl, trivial⟩
  rcases ite_eq_ok.mp h with ⟨h8, h⟩ | ⟨h8, h⟩
  · obtain ⟨strings, _, hs, h⟩ := bind_eq_ok.mp h
    cases h
    obtain ⟨n, rfl⟩ : ∃ k, n = k + 1 := ⟨n - 1, by omega⟩
    refine ⟨by subst h8; rfl, ?_, forall_of_whileBefore (fun _ _ _ => charString_length) hs⟩
    rcases whileBefore_succ_eq_ok.mp hs with ⟨hle, -, -⟩ | ⟨-, a, mid, rest, -, -, rfl⟩
    · omega
    · simp
  rcases ite_eq_ok.mp h with ⟨h9, h⟩ | ⟨h9, h⟩
  · obtain ⟨priority, _, -, h⟩ := bind_eq_ok.mp h
    obtain ⟨weight, _, -, h⟩ := bind_eq_ok.mp h
    obtain ⟨port, _, -, h⟩ := bind_eq_ok.mp h
    obtain ⟨target, _, -, h⟩ := bind_eq_ok.mp h
    cases h
    exact ⟨by subst h9; rfl, trivial⟩
  rcases ite_eq_ok.mp h with ⟨h10, h⟩ | ⟨h10, h⟩
  · obtain ⟨flags, _, -, h⟩ := bind_eq_ok.mp h
    obtain ⟨taglen, _, -, h⟩ := bind_eq_ok.mp h
    obtain ⟨_, _, -, h⟩ := bind_eq_ok.mp h
    split_ifs at h
    · cases h
    · obtain ⟨tag, _, htag, h⟩ := bind_eq_ok.mp h
      obtain ⟨value, _, -, h⟩ := bind_eq_ok.mp h
      cases h
      have := (length_of_slice htag).1
      exact ⟨by subst h10; rfl, by simp only [wireOk]; omega⟩
  rcases ite_eq_ok.mp h with ⟨h11, h⟩ | ⟨h11, h⟩
  · obtain ⟨priority, _, -, h⟩ := bind_eq_ok.mp h
    obtain ⟨target, _, -, h⟩ := bind_eq_ok.mp h
    obtain ⟨params, _, hp, h⟩ := bind_eq_ok.mp h
    cases h
    refine ⟨by rcases h11 with rfl | rfl <;> rfl, ?_⟩
    exact forall_of_whileBefore (fun _ _ _ => svcParam_length) hp
  obtain ⟨data, _, hd, h⟩ := bind_eq_ok.mp h
  cases h
  have hlen := (length_of_slice hd).1
  refine ⟨?_, trivial⟩
  have ht : t ∉ structuredTypes := by
    simp only [structuredTypes, mem_cons]
    tauto
  simp [parsedAs, ht, hlen, hn']

/-- What `Rdata::parse` returns fits the type, and its strings fit their length octets. -/
theorem parse_ok (h : parse t rdlength buf start = .ok (rd, pos)) :
    rd.parsedAs t = true ∧ rd.wireOk := by
  obtain ⟨-, hpos, ⟨-, rfl⟩ | ⟨hne, hb⟩⟩ := parse_cases h
  · exact ⟨by simp [parsedAs], trivial⟩
  · exact parseBody_ok hne rdlength.isLt hpos hb

end Parsed

/-! ## Reading back what `Rdata::emit` wrote -/

section ReadBack

variable {buf pre : Bytes}

theorem getD_ofFn (f : Fin n → Byte) : (fun i : Fin n => (List.ofFn f).getD i 0) = f := by
  funext i
  simp

theorem val_ofNat_length [NeZero n] (h : s.length < n) :
    (Fin.ofNat n s.length).val = s.length := Nat.mod_eq_of_lt h

theorem charString_reads (hs : s.length < 256)
    (h : pre ++ Fin.ofNat 256 s.length :: s <+: buf)
    (hstop : pre.length + (s.length + 1) ≤ stop) :
    (charString stop).Reads buf pre.length s (pre.length + (s.length + 1)) := by
  refine (u8_readsBack _).reads_bind (w := s) h (Reads.bind rfl ?_)
  rw [val_ofNat_length hs, if_neg (by simp; omega)]
  have h2 := slice_readsBack s buf (pre ++ [Fin.ofNat 256 s.length]) (by simpa using h)
  rw [show pre.length + (s.length + 1) = (pre ++ [Fin.ofNat 256 s.length]).length + s.length by
    simp; omega]
  exact h2

/-- One parameter of an SVCB record as `Rdata::emit` writes it. -/
def svcParamWire (p : U16 × Bytes) : Bytes :=
  u16Be p.1 ++ (u16Be (Fin.ofNat 65536 p.2.length) ++ p.2)

theorem svcParamWire_length (p : U16 × Bytes) : (svcParamWire p).length = p.2.length + 4 := by
  simp [svcParamWire]; omega

theorem emit_svcb (priority : U16) (target : Name) (params : List (U16 × Bytes)) :
    (svcb priority target params).emit =
      u16Be priority ++ (target.wire ++ params.flatMap svcParamWire) := by
  rfl

theorem svcParam_reads {p : U16 × Bytes} (hp : p.2.length < 65536)
    (h : pre ++ svcParamWire p <+: buf) (hstop : pre.length + (svcParamWire p).length ≤ stop) :
    (svcParam stop).Reads buf pre.length p (pre.length + (svcParamWire p).length) := by
  rw [svcParamWire_length] at hstop ⊢
  rw [svcParamWire] at h
  refine (u16_readsBack _).reads_bind h ?_
  rw [← append_assoc] at h
  refine (u16_readsBack _).reads_bind h (Reads.bind rfl ?_)
  rw [← append_assoc] at h
  rw [val_ofNat_length hp, if_neg (by simp; omega)]
  have hval := (slice_readsBack p.2).map (fun value => (p.1, value)) buf _ h
  rw [show pre.length + (p.2.length + 4) = (pre ++ u16Be p.1 ++
    u16Be (Fin.ofNat 65536 p.2.length)).length + p.2.length by simp; omega]
  exact hval

theorem flatMap_length_ge {α : Type} (enc : α → Bytes) (h : ∀ a, enc a ≠ []) (as : List α) :
    as.length ≤ (as.flatMap enc).length := by
  induction as with
  | nil => simp
  | cons a as ih =>
    have := length_pos_of_ne_nil (h a)
    simp only [flatMap_cons, length_cons, length_append]
    omega

/-- The data of a CAA record read back. -/
theorem caa_reads {flags : Byte} {tag value : Bytes} (htag : tag.length < 256)
    (h : pre ++ (caa flags tag value).emit <+: buf) :
    (parseBody CAA (caa flags tag value).emit.length
      (pre.length + (caa flags tag value).emit.length)).Reads buf pre.length (caa flags tag value)
      (pre.length + (caa flags tag value).emit.length) := by
  have hlen : (caa flags tag value).emit.length = 2 + tag.length + value.length := by
    simp [emit, emitWith]; omega
  have h' : pre ++ ([flags] ++ ([Fin.ofNat 256 tag.length] ++ (tag ++ value))) <+: buf := by
    assumption
  rw [hlen]
  refine (u8_readsBack flags).reads_bind h' ?_
  rw [← append_assoc] at h'
  refine (u8_readsBack _).reads_bind h' (Reads.bind rfl ?_)
  rw [← append_assoc] at h'
  rw [val_ofNat_length htag, if_neg (by simp; omega)]
  refine (slice_readsBack tag).reads_bind h' ?_
  rw [← append_assoc] at h'
  have hv := (slice_readsBack value).map (caa flags tag) buf _ h'
  have hrest : pre.length + (2 + tag.length + value.length) -
      ((pre ++ [flags] ++ [Fin.ofNat 256 tag.length]).length + tag.length) = value.length := by
    simp; omega
  rw [hrest]
  rw [show pre.length + (2 + tag.length + value.length) =
    (pre ++ [flags] ++ [Fin.ofNat 256 tag.length] ++ tag).length + value.length by simp; omega]
  exact hv

/-- The data of an SVCB or HTTPS record read back, parameters in order. -/
theorem svcb_reads {priority : U16} {target : Name} {params : List (U16 × Bytes)}
    (ht : t = SVCB ∨ t = HTTPS) (hw : ∀ p ∈ params, p.2.length < 65536)
    (h : pre ++ (svcb priority target params).emit <+: buf) :
    (parseBody t (svcb priority target params).emit.length
      (pre.length + (svcb priority target params).emit.length)).Reads buf pre.length
      (svcb priority target params) (pre.length + (svcb priority target params).emit.length) := by
  have hfuel : params.length ≤ (svcb priority target params).emit.length := by
    have := flatMap_length_ge svcParamWire (by simp [svcParamWire, u16Be]) params
    rw [emit_svcb]
    simp only [length_append]
    omega
  have hstop : pre.length + (svcb priority target params).emit.length =
      (pre ++ u16Be priority ++ target.wire).length + (params.flatMap svcParamWire).length := by
    rw [emit_svcb]
    simp only [length_append]
    omega
  rw [hstop]
  rw [emit_svcb] at h
  have hbody : ∀ n stop, parseBody t n stop = parseBody SVCB n stop := by
    rcases ht with rfl | rfl <;> intro n stop <;> rfl
  rw [hbody]
  refine (u16_readsBack priority).reads_bind h ?_
  rw [← append_assoc] at h
  refine (decode_readsBack target).reads_bind h ?_
  rw [← append_assoc] at h
  refine Reads.bind (reads_whileBefore ?_ h rfl hfuel) (reads_pure _)
  intro p hp
  refine ⟨by simp [svcParamWire, u16Be], fun pre h hle => ?_⟩
  exact svcParam_reads (hw p hp) h hle

/-- A type without a parser keeps its data opaque. -/
theorem parseBody_unknown (ht : t ∉ structuredTypes) :
    parseBody t n stop = do
      let data ← Dec.slice n
      return .unknown t data := by
  simp only [structuredTypes, mem_cons, not_or] at ht
  obtain ⟨h1, h2, h3, h4, h5, h6, h7, h8, h9, h10, h11, h12⟩ := ht
  rw [parseBody, if_neg h1, if_neg h2, if_neg h3, if_neg h4, if_neg h5, if_neg h6, if_neg h7,
    if_neg h8, if_neg h9, if_neg h10, if_neg (by tauto)]

theorem eq_unknown_of_emit_eq_nil (hw : rd.wireOk) (h : rd.emit = []) :
    ∃ t, rd = .unknown t [] := by
  cases rd with
  | unknown t data => exact ⟨t, by rw [show data = [] from h]⟩
  | txt strings =>
    cases strings with
    | nil => exact absurd rfl hw.1
    | cons s rest => simp [emit, emitWith] at h
  | _ => simp [emit, emitWith, Name.wire] at h

/-- Data that are written read back through the branch of their type. -/
theorem parseBody_reads (hp : rd.parsedAs t = true) (hw : rd.wireOk)
    (hne : rd.emit ≠ []) (h : pre ++ rd.emit <+: buf) :
    (parseBody t rd.emit.length (pre.length + rd.emit.length)).Reads buf pre.length rd
      (pre.length + rd.emit.length) := by
  cases rd with
  | a octets =>
    obtain rfl : Rtype.A = t := of_decide_eq_true hp
    have := (slice_readsBack (List.ofFn octets)).map (fun s => a fun i => s.getD i 0) buf pre h
    rwa [getD_ofFn] at this
  | aaaa octets =>
    obtain rfl : AAAA = t := of_decide_eq_true hp
    have := (slice_readsBack (List.ofFn octets)).map (fun s => aaaa fun i => s.getD i 0)
      buf pre h
    rwa [getD_ofFn] at this
  | ns n =>
    obtain rfl : NS = t := of_decide_eq_true hp
    exact (decode_readsBack n).map ns buf pre h
  | cname n =>
    obtain rfl : CNAME = t := of_decide_eq_true hp
    exact (decode_readsBack n).map cname buf pre h
  | ptr n =>
    obtain rfl : PTR = t := of_decide_eq_true hp
    exact (decode_readsBack n).map ptr buf pre h
  | soa mname rname serial refresh retry expire minimum =>
    obtain rfl : SOA = t := of_decide_eq_true hp
    simp only [emit, emitWith, append_assoc] at h ⊢
    apply ReadsBack.bind (decode_readsBack mname) _ _ _ h
    apply ReadsBack.bind (decode_readsBack rname)
    apply ReadsBack.bind (u32_readsBack serial)
    apply ReadsBack.bind (u32_readsBack refresh)
    apply ReadsBack.bind (u32_readsBack retry)
    apply ReadsBack.bind (u32_readsBack expire)
    exact (u32_readsBack minimum).map _
  | mx preference exchange =>
    obtain rfl : MX = t := of_decide_eq_true hp
    apply ReadsBack.bind (u16_readsBack preference) _ _ _ h
    exact (decode_readsBack exchange).map _
  | txt strings =>
    obtain rfl : TXT = t := of_decide_eq_true hp
    refine Reads.bind (reads_whileBefore ?_ h rfl (flatMap_length_ge _ (by simp) _)) (reads_pure _)
    intro s hs
    refine ⟨by simp, fun pre h hle => ?_⟩
    exact charString_reads (hw.2 s hs) h hle
  | srv priority weight port target =>
    obtain rfl : SRV = t := of_decide_eq_true hp
    apply ReadsBack.bind (u16_readsBack priority) _ _ _ h
    apply ReadsBack.bind (u16_readsBack weight)
    apply ReadsBack.bind (u16_readsBack port)
    exact (decode_readsBack target).map _
  | caa flags tag value =>
    obtain rfl : CAA = t := of_decide_eq_true hp
    exact caa_reads hw h
  | svcb priority target params =>
    exact svcb_reads (by simpa [parsedAs] using hp) hw h
  | unknown t' data =>
    simp only [parsedAs, Bool.and_eq_true, decide_eq_true_eq, Bool.or_eq_true] at hp
    obtain ⟨⟨rfl, -⟩, ht⟩ := hp
    rw [parseBody_unknown (ht.resolve_left hne)]
    exact (slice_readsBack data).map (unknown t') buf pre h

/-- Data that fit their record and their length octets, read back at the type they were
    written for. -/
theorem parse_reads (hp : rd.parsedAs t = true) (hw : rd.wireOk)
    (hlen : rd.emit.length < 65536) (h : pre ++ rd.emit <+: buf) :
    (parse t (Fin.ofNat 65536 rd.emit.length)).Reads buf pre.length rd
      (pre.length + rd.emit.length) := by
  have hle := h.length_le
  rw [length_append] at hle
  unfold Reads parse
  simp only [val_ofNat_length hlen]
  rw [if_neg (by omega)]
  by_cases hne : rd.emit = []
  · rw [hne]
    obtain ⟨t', rfl⟩ := eq_unknown_of_emit_eq_nil hw hne
    simp only [parsedAs, Bool.and_eq_true, decide_eq_true_eq] at hp
    rw [hp.1.1]
    rfl
  · have hpos := length_pos_of_ne_nil hne
    have hb := parseBody_reads hp hw hne h
    rw [if_neg (by omega), hb]
    simp

end ReadBack

end Rdata

end Runbound.Wire
