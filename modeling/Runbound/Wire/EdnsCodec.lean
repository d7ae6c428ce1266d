import Runbound.Wire.RoundTrip

/-!
# EDNS records read back (`wire/edns.rs`)

* `edns_roundTrip`: an EDNS state and its OPT record determine each other.
-/

namespace Runbound.Wire

open List Rtype Edns

/-- Options are read back as they were written. -/
theorem parseOptions_flatMap {fuel : ℕ} {opts : List (U16 × Bytes)}
    (h : ∀ o ∈ opts, o.2.length < 65536)
    (hfuel : (optionData { options := opts }).length ≤ fuel) :
    parseOptions fuel (optionData { options := opts }) = .ok opts := by
  induction opts generalizing fuel with
  | nil => cases fuel <;> rfl
  | cons o opts ih =>
    obtain ⟨ho, hopts⟩ := forall_mem_cons.mp h
    have hcons : optionData { options := o :: opts } = _ ++ optionData { options := opts } :=
      flatMap_cons
    rw [hcons] at hfuel ⊢
    simp only [length_append, u16Be_length] at hfuel
    obtain ⟨fuel, rfl⟩ : ∃ f, fuel = f + 1 := ⟨fuel - 1, by omega⟩
    simp only [u16Be, cons_append, nil_append, parseOptions, u16OfBe_u16Be]
    rw [Rdata.val_ofNat_length ho, if_neg (by simp), drop_left, take_left, ih hopts (by omega)]
    rfl

/-- No octet is left over or read twice. -/
theorem optionData_of_parseOptions {fuel : ℕ} {data : Bytes} {opts : List (U16 × Bytes)}
    (h : parseOptions fuel data = .ok opts) : optionData { options := opts } = data := by
  fun_induction parseOptions fuel data generalizing opts with
  | case1 => cases h
  | case2 fuel c0 c1 l0 l1 rest len hlen =>
    rename_i ih
    cases hread : parseOptions fuel (rest.drop len) with
    | error e =>
      rw [hread] at h
      cases h
    | ok opts' =>
      rw [hread] at h
      cases h
      have htake : (rest.take len).length = len := by
        rw [length_take]
        omega
      refine flatMap_cons.trans ((congrArg (_ ++ ·) (ih hread)).trans ?_)
      rw [htake, Fin.ofNat_val_eq_self, u16Be_u16OfBe, u16Be_u16OfBe, append_assoc,
        take_append_drop]
      rfl
  | case3 =>
    cases h
    rfl
  | case4 => cases h

/-- A record is rebuilt from what was read of it. -/
theorem toRecord_of_fromRecord {r : Record} {e : Edns} (h : fromRecord r = .ok (some e))
    (hc : 512 ≤ r.rclass) : ∃ h, (e.toRecord h).rclass = r.rclass ∧ (e.toRecord h).ttl = r.ttl ∧
      (e.toRecord h).rdata = r.rdata := by
  unfold fromRecord at h
  split_ifs at h with ht
  · cases h
  · have ht := not_not.mp ht
    obtain ⟨d, hd, hlen⟩ := r.rdata_eq_unknown (by rw [ht]; decide)
    rw [hd, ht] at h
    cases hread : parseOptions d.length d with
    | error => simp only [hread] at h; cases h
    | ok opts =>
      obtain rfl := optionData_of_parseOptions hread
      simp only [hread] at h
      cases h
      refine ⟨hlen, max_eq_left hc, ?_, by rw [hd, ht]; rfl⟩
      ext
      simp only [toRecord]
      omega

/-- An EDNS state of 512 octets or more is read back from its record, also out of a message
    that was encoded and parsed, and a record is rebuilt from what was read of it. -/
theorem edns_roundTrip (e : Edns) (hp : 512 ≤ e.udpPayload)
    (hfit : ∀ o ∈ e.options, o.2.length < 65536) :
    parseOptions e.optionData.length e.optionData = .ok e.options ∧
      (∀ h : e.optionData.length < 65536, fromRecord (e.toRecord h) = .ok (some e) ∧
        ∀ (m : Message) (i : ℕ), m.WireOk → m.encode.length < 65536 →
          m.additional[i]? = some (e.toRecord h) → ∃ m' r', Message.parse m.encode = .ok m' ∧
            m'.additional[i]? = some r' ∧ fromRecord r' = .ok (some e)) ∧
      ∀ (r : Record) (e' : Edns), 512 ≤ r.rclass → fromRecord r = .ok (some e') →
        ∃ h, (e'.toRecord h).rclass = r.rclass ∧ (e'.toRecord h).ttl = r.ttl ∧
          (e'.toRecord h).rdata = r.rdata := by
  have hread : parseOptions e.optionData.length e.optionData = .ok e.options :=
    parseOptions_flatMap hfit le_rfl
  refine ⟨hread, fun h => ?_, fun r e' hr hf => toRecord_of_fromRecord hf hr⟩
  have hback : fromRecord (e.toRecord h) = .ok (some e) := by
    have hmax : max e.udpPayload 512 = e.udpPayload := max_eq_left hp
    simp only [fromRecord, toRecord, hread, hmax, Except.map, ne_eq, not_true, if_false]
    congr 3 <;> ext <;> simp only <;> omega
  refine ⟨hback, fun m i hw hlen hi => ?_⟩
  obtain ⟨m', hm', hsame, -⟩ := m.parse_encode hw hlen
  have hmap : m'.additional.map fromRecord = m.additional.map fromRecord := by
    refine Record.map_of_same ?_ hsame.additional
    rintro r r' ⟨-, ht, hc, httl, hd⟩
    simp only [fromRecord, ht, hc, httl, hd]
  have hi' := congrArg (·[i]?) hmap
  simp only [getElem?_map, hi, Option.map_some, hback] at hi'
  obtain ⟨r', hr', hf⟩ := Option.map_eq_some_iff.mp hi'
  exact ⟨m', r', hm', hr', hf⟩

theorem edns_roundTrip_cookie : parseOptions 5 [0, 10, 0, 1, 7] = .ok [(10, [7])] :=
  (edns_roundTrip { options := [(10, [7])] } (by decide) (by decide)).1

end Runbound.Wire
