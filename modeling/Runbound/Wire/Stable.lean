import Runbound.Wire.RdataCodec

/-!
# Messages at the front of a buffer

A decoder that succeeds does not see what follows the octets it may read: the same buffer with
more octets after it gives the same value and the same offset.

* `Message.stable_decode`: so does `Message::parse`, names behind pointers included.
* `Name.locates_decode`: where a name ends is determined by the octets it takes in place; the
  labels behind a pointer are not, since a pointer may lead to any earlier offset and the labels
  read there may run past the name.
-/

namespace Runbound.Wire

open Lib Lib.Decoder List Name Dec

namespace Name

/-- A name is read alike when octets are added behind the buffer. -/
theorem stable_decode : Name.decode.Stable := by
  intro buf pos n stop h
  obtain ⟨k, hk, hat⟩ := parse_eq_ok_iff.mp h
  refine ⟨fun _ => hat.stop_le, fun rest => ?_⟩
  exact parse_eq_ok_iff.mpr ⟨k, hk, hat.mono (prefix_append buf rest)⟩

/-- One iteration before the first pointer: the root octet ends the name, a label is passed, or a
pointer ends it two octets on. -/
theorem parseLoop_inPlace {buf : Bytes} {fuel : ℕ} {acc n : Name} {pos pointers stop : ℕ}
    (h : parseLoop buf (fuel + 1) acc pos none pointers = some (.ok (n, stop))) :
    ∃ len : Byte, buf[pos]? = some len ∧
      ((len.val = 0 ∧ stop = pos + 1) ∨
        (0 < len.val ∧ len.val < 64 ∧
          ∃ acc', parseLoop buf fuel acc' (pos + 1 + len.val) none pointers = some (.ok (n, stop))) ∨
        (64 ≤ len.val ∧ stop = pos + 2)) := by
  rcases parseLoop_succ_eq_ok.mp h with ⟨hb, heq⟩ | ⟨len, acc', hb, h0, htop, -, -, h⟩ |
    ⟨len, b2, hb, htop, -, -, -, h⟩
  · exact ⟨0, hb, Or.inl ⟨rfl, (Prod.ext_iff.mp heq).2⟩⟩
  · exact ⟨len, hb, Or.inr (Or.inl ⟨h0, htop, acc', h⟩)⟩
  · have hstop : pos + 2 = stop := parseLoop_stop h
    exact ⟨len, hb, Or.inr (Or.inr ⟨by omega, hstop.symm⟩)⟩

/-- Two buffers alike up to the end of a name agree where it ends. -/
theorem parseLoop_locates {buf buf' : Bytes} {n n' : Name} {stop stop' : ℕ}
    (hfront : SameFront stop buf buf') : ∀ {fuel fuel' : ℕ} {acc acc' : Name}
      {pos pointers pointers' : ℕ}, parseLoop buf fuel acc pos none pointers = some (.ok (n, stop)) →
        parseLoop buf' fuel' acc' pos none pointers' = some (.ok (n', stop')) → stop' = stop := by
  intro fuel
  induction fuel with
  | zero =>
    intro _ _ _ _ _ _ h
    cases h
  | succ fuel ih =>
    intro fuel' acc acc' pos pointers pointers' h h'
    cases fuel' with
    | zero => cases h'
    | succ fuel' =>
      have hpos : pos < stop := parseLoop_stop h
      obtain ⟨len, hb, hcases⟩ := parseLoop_inPlace h
      obtain ⟨len', hb', hcases'⟩ := parseLoop_inPlace h'
      -- both runs see the same octet, so they take the same branch
      obtain rfl : len = len' := by
        rw [hfront pos hpos, hb'] at hb
        exact (Option.some.inj hb).symm
      rcases hcases with ⟨h0, rfl⟩ | ⟨hlo, hhi, next, hnext⟩ | ⟨hptr, rfl⟩
      · omega
      · rcases hcases' with ⟨h0, -⟩ | ⟨-, -, next', hnext'⟩ | ⟨hptr, -⟩
        · omega
        · exact ih hnext hnext'
        · omega
      · omega

theorem locates_decode : Name.decode.Locates := by
  intro buf pos n stop h
  obtain ⟨hloop, -⟩ := decode_eq_ok h
  have hpos : pos < stop := parseLoop_stop hloop
  refine ⟨by omega, ?_⟩
  intro buf' n' stop' hfront h'
  obtain ⟨hloop', -⟩ := decode_eq_ok h'
  exact ⟨parseLoop_locates hfront hloop hloop', trivial⟩

end Name

namespace Dec

theorem determined_u16 : u16.Determined :=
  (determined_item _).bind fun _ => (determined_item _).bind fun _ => determined_pure _

theorem determined_u32 : u32.Determined :=
  (determined_item _).bind fun _ => (determined_item _).bind fun _ =>
    (determined_item _).bind fun _ => (determined_item _).bind fun _ => determined_pure _

theorem stable_u8 : u8.Stable := stable_item _

theorem stable_u16 : u16.Stable := stable_u8.bind fun _ => stable_u8.bind fun _ => stable_pure _

theorem stable_u32 : u32.Stable :=
  stable_u8.bind fun _ => stable_u8.bind fun _ => stable_u8.bind fun _ => stable_u8.bind fun _ =>
    stable_pure _

theorem stable_slice (n : ℕ) : (slice n).Stable := Decoder.stable_slice _ n

end Dec

theorem Header.stable_parse : Header.parse.Stable := by
  refine stable_u16.bind fun _ => stable_u16.bind fun _ => stable_u16.bind fun _ => ?_
  exact stable_u16.bind fun _ => stable_u16.bind fun _ => stable_u16.bind fun _ =>
    stable_pure _

theorem Question.stable_parse : Question.parse.Stable :=
  stable_decode.bind fun _ => stable_u16.bind fun _ => stable_u16.bind fun _ =>
    stable_pure _

namespace Rdata

theorem stable_charString (stop : ℕ) : (charString stop).Stable :=
  stable_u8.bind fun _ => stable_position.bind fun _ =>
    (stable_fail _).ite (stable_slice _)

theorem stable_svcParam (stop : ℕ) : (svcParam stop).Stable :=
  Dec.stable_u16.bind fun _ => Dec.stable_u16.bind fun _ => stable_position.bind fun _ =>
    (stable_fail _).ite ((Dec.stable_slice _).bind fun _ => stable_pure _)

/-- Each branch of `Rdata::parse` is stable, since each of its readers is. -/
theorem stable_parseBody (t : U16) (rdlength stop : ℕ) : (parseBody t rdlength stop).Stable := by
  -- one branch for each type, in the order of the source
  refine Stable.ite ((Dec.stable_slice 4).bind fun _ => stable_pure _) ?_
  refine Stable.ite ((Dec.stable_slice 16).bind fun _ => stable_pure _) ?_
  refine Stable.ite (stable_decode.bind fun _ => stable_pure _) ?_
  refine Stable.ite (stable_decode.bind fun _ => stable_pure _) ?_
  refine Stable.ite (stable_decode.bind fun _ => stable_pure _) ?_
  refine Stable.ite ?_ ?_
  · refine stable_decode.bind fun _ => stable_decode.bind fun _ => ?_
    refine stable_u32.bind fun _ => stable_u32.bind fun _ => ?_
    refine stable_u32.bind fun _ => stable_u32.bind fun _ => ?_
    exact stable_u32.bind fun _ => stable_pure _
  refine Stable.ite (stable_u16.bind fun _ => stable_decode.bind fun _ => stable_pure _) ?_
  refine Stable.ite (((stable_charString stop).whileBefore stop rdlength).bind fun _ =>
    stable_pure _) ?_
  refine Stable.ite (stable_u16.bind fun _ => stable_u16.bind fun _ =>
    stable_u16.bind fun _ => stable_decode.bind fun _ => stable_pure _) ?_
  refine Stable.ite ?_ ?_
  · refine Dec.stable_u8.bind fun _ => Dec.stable_u8.bind fun _ => stable_position.bind fun _ => ?_
    refine (stable_fail _).ite ((Dec.stable_slice _).bind fun _ => ?_)
    exact (Dec.stable_slice _).bind fun _ => stable_pure _
  refine Stable.ite ?_ ((Dec.stable_slice _).bind fun _ => stable_pure _)
  refine Dec.stable_u16.bind fun _ => stable_decode.bind fun _ => ?_
  exact ((stable_svcParam stop).whileBefore stop rdlength).bind fun _ => stable_pure _

/-- `Rdata::parse` checks its end against the buffer, which only grows. -/
theorem stable_parse (t rdlength : U16) : (parse t rdlength).Stable := by
  intro buf start rd pos h
  obtain ⟨hend, hpos, hcases⟩ := parse_cases h
  refine ⟨fun _ => by omega, ?_⟩
  intro rest
  have hlen : ¬ start + rdlength.val > (buf ++ rest).length := by
    rw [length_append]
    omega
  unfold parse
  simp only [if_neg hlen]
  rcases hcases with ⟨hzero, rfl⟩ | ⟨hne, hbody⟩
  · rw [hpos, hzero]
    rfl
  · rw [if_neg hne]
    have hsame := ((stable_parseBody t rdlength.val pos) buf start rd pos hbody).2 rest
    rw [← hpos, hsame]
    simp

end Rdata

/-- A record is read alike when octets are added behind the buffer. -/
theorem Record.stable_parse : Record.parse.Stable := by
  refine stable_decode.bind fun _ => stable_u16.bind fun t => ?_
  refine stable_u16.bind fun _ => stable_u32.bind fun _ => stable_u16.bind fun len => ?_
  refine (Rdata.stable_parse t len).bind fun rd => ?_
  split_ifs
  · exact stable_pure _
  · exact stable_fail _

/-- So is a whole message: octets after the last record are ignored. -/
theorem Message.stable_decode : Message.decode.Stable := by
  refine Header.stable_parse.bind fun header => ?_
  refine (Question.stable_parse.times _).bind fun _ => ?_
  refine (Record.stable_parse.times _).bind fun _ => ?_
  refine (Record.stable_parse.times _).bind fun _ => ?_
  exact (Record.stable_parse.times _).bind fun _ => stable_pure _

end Runbound.Wire
