import Runbound.FastPath.Parsed
import Runbound.Lib.Text
import Runbound.Wire.Stable

/-!
# Signed requests

`verify_request` (dns/tsig.rs) finds the TSIG record of a request, rebuilds the octets that its MAC
was computed over and compares the MACs.  The MAC function is a parameter.

| source                | here                                     |
|-----------------------|------------------------------------------|
| `TsigRr`              | `TsigRr`, the time with its 48-bit bound |
| `parse_for_tsig`      | `locateTsig`, then `tsigRr`              |
| `request_digest_data` | `requestDigestData`                      |
| `verify_request`      | `verifyRequest`                          |

* `locates_locateTsig`: the offset of the TSIG record is determined by the octets before it.
* `requestDigestData_inj`: what is signed determines these octets and the TSIG variables.
* `verifyRequest_binds`: two requests accepted with one key and MAC agree on both, and on the
  sections that can be read from the octets before the TSIG record.
* `unsigned_owner`: a name behind a pointer may run into the TSIG record, whose class and TTL are
  not signed as received; two accepted requests then differ in a record of the update section.
-/

namespace Runbound.Server

open Wire Lib Lib.Decoder Class Name Dec

/-! ## Model -/

/-- `TsigAlg` (dns/tsig.rs:25). -/
inductive TsigAlg
  | sha1
  | sha256
  | sha384
  | sha512
  deriving DecidableEq

/-- `TsigAlg::wire_name` (dns/tsig.rs:56): `hmac-sha256.` and so on. -/
def TsigAlg.wireName : TsigAlg → Bytes
  | .sha1 => [104, 109, 97, 99, 45, 115, 104, 97, 49, 46]
  | .sha256 => [104, 109, 97, 99, 45, 115, 104, 97, 50, 53, 54, 46]
  | .sha384 => [104, 109, 97, 99, 45, 115, 104, 97, 51, 56, 52, 46]
  | .sha512 => [104, 109, 97, 99, 45, 115, 104, 97, 53, 49, 50, 46]

/-- `TsigError` (dns/tsig.rs:78). -/
inductive TsigError
  | missing
  | formErr
  | unknownKey
  | algMismatch
  | badTime
  | badSig
  deriving DecidableEq

/-- `TsigRr` (dns/tsig.rs:95). -/
structure TsigRr where
  keyName : Name
  algorithm : Name
  timeSigned : ℕ
  time48 : timeSigned < 281474976710656
  fudge : U16
  mac : Bytes
  originalId : U16
  error : U16
  other : Bytes
  other16 : other.length < 65536

/-- A decoder of the wire module; all of its errors become `FormErr`. -/
def orFormErr {α : Type} (d : Dec α) : Decoder TsigError Byte α := d.mapError fun _ => .formErr

/-- A question, passed over (dns/tsig.rs:136-138). -/
def skipQuestion : Dec Unit := do
  let _ ← Name.decode
  let _ ← Dec.u16
  let _ ← Dec.u16
  return ()

/-- `skip_record` (dns/tsig.rs:108). -/
def skipRecord : Dec Unit := do
  let _ ← Name.decode
  let _ ← Dec.u16
  let _ ← Dec.u16
  let _ ← Dec.u32
  let rdlen ← Dec.u16
  let _ ← Dec.slice rdlen.val
  return ()

/-- `parse_for_tsig` up to `tsig_start` (dns/tsig.rs:123-147): the ARCOUNT. -/
def locateTsig : Decoder TsigError Byte U16 := do
  let _ ← orFormErr Dec.u16
  let _ ← orFormErr Dec.u16
  let qd ← orFormErr Dec.u16
  let an ← orFormErr Dec.u16
  let ns ← orFormErr Dec.u16
  let ar ← orFormErr Dec.u16
  if ar.val = 0 then fail .missing
  else do
    let _ ← times (orFormErr skipQuestion) qd.val
    let _ ← times (orFormErr skipRecord) (an.val + ns.val)
    let _ ← times (orFormErr skipRecord) (ar.val - 1)
    return ar

/-- `d.slice(n)`; the slice has the length that was asked for. -/
def sized (n : U16) : Decoder TsigError Byte { s : Bytes // s.length < 65536 } := fun buf pos =>
  if h : pos + n.val ≤ buf.length then
    .ok (⟨(buf.drop pos).take n.val, by
      rw [List.length_take]
      omega⟩, pos + n.val)
  else .error .formErr

/-- `parse_for_tsig` from `tsig_start` on (dns/tsig.rs:148-173). -/
def tsigRr : Decoder TsigError Byte TsigRr := do
  let keyName ← orFormErr Name.decode
  let rtype ← orFormErr Dec.u16
  let _ ← orFormErr Dec.u16
  let _ ← orFormErr Dec.u32
  let rdlen ← orFormErr Dec.u16
  if rtype ≠ Rtype.TSIG then fail .missing
  else do
    let here ← position
    let algorithm ← orFormErr Name.decode
    let hi ← orFormErr Dec.u16
    let lo ← orFormErr Dec.u32
    let fudge ← orFormErr Dec.u16
    let macSize ← orFormErr Dec.u16
    let mac ← sized macSize
    let originalId ← orFormErr Dec.u16
    let error ← orFormErr Dec.u16
    let otherLen ← orFormErr Dec.u16
    let other ← sized otherLen
    let stop ← position
    if stop ≠ here + rdlen.val then fail .formErr
    else return {
      keyName, algorithm
      timeSigned := hi.val * 4294967296 + lo.val
      time48 := by omega
      fudge
      mac := mac.val
      originalId, error
      other := other.val
      other16 := other.property }

/-- `parse_for_tsig` (dns/tsig.rs:122): the record, the offset of its owner name and the ARCOUNT. -/
def parseForTsig (raw : Bytes) : Except TsigError (TsigRr × ℕ × U16) :=
  match locateTsig raw 0 with
  | .error e => .error e
  | .ok (ar, start) =>
    match tsigRr raw start with
    | .error e => .error e
    | .ok (tsig, _) => .ok (tsig, start, ar)

theorem u16_lo_lt (x : U16) : x.val % 256 < 256 := by omega

/-- The header's ARCOUNT replaced (dns/tsig.rs:198-200). -/
def setArcount (msg : Bytes) (n : U16) : Bytes :=
  (msg.set 10 ⟨n.val / 256, u16_hi_lt n⟩).set 11 ⟨n.val % 256, u16_lo_lt n⟩

/-- The TSIG variables of RFC 8945 §4.3.3 (dns/tsig.rs:203-213). -/
def tsigVariables (t : TsigRr) : Bytes :=
  lower t.keyName.wire ++ (u16Be Class.ANY ++ (u32Be 0 ++ (lower t.algorithm.wire ++
    (u16Be ⟨t.timeSigned / 4294967296, by have := t.time48; omega⟩ ++
    (u32Be ⟨t.timeSigned % 4294967296, by omega⟩ ++
    (u16Be t.fudge ++ (u16Be t.error ++ (u16Be ⟨t.other.length, t.other16⟩ ++ t.other))))))))

/-- `request_digest_data` (dns/tsig.rs:193). -/
def requestDigestData (raw : Bytes) (start : ℕ) (arcount : U16) (tsig : TsigRr) : Bytes :=
  setArcount (raw.take start) ⟨arcount.val - 1, by omega⟩ ++ tsigVariables tsig

/-- `Verified` (dns/tsig.rs:221). -/
structure Verified where
  keyName : Bytes
  requestMac : Bytes
  deriving DecidableEq

/-- A configured key: name, algorithm and secret. -/
abbrev TsigKey : Type := Bytes × TsigAlg × Bytes

/-- The lookup without an early exit: the last key of the name (dns/tsig.rs:249-258). -/
def lookupKey (keys : List TsigKey) (name : Bytes) : Option (TsigAlg × Bytes) :=
  keys.foldl (fun matched k => if k.1 = name then some k.2 else matched) none

/-- `u64::abs_diff`. -/
def absDiff (a b : ℕ) : ℕ := max a b - min a b

variable {raw : Bytes} {m : Message}

section

variable (hmac : TsigAlg → Bytes → Bytes → Bytes) (raw : Bytes) (keys : List TsigKey) (nowSecs : ℕ)
include hmac

/-- `verify_request` (dns/tsig.rs:234). -/
def verifyRequest (windowSecs : ℕ) : Except TsigError Verified :=
  match parseForTsig raw with
  | .error e => .error e
  | .ok (tsig, start, arcount) =>
    let keyName := trimEndMatches 46 (lower tsig.keyName.toAscii)
    match lookupKey keys keyName with
    | none => .error .unknownKey
    | some (alg, secret) =>
      if trimEndMatches 46 (lower tsig.algorithm.toAscii) ≠ trimEndMatches 46 alg.wireName then
        .error .algMismatch
      else if absDiff nowSecs tsig.timeSigned > windowSecs then .error .badTime
      else if hmac alg secret (requestDigestData raw start arcount tsig) ≠ tsig.mac then
        .error .badSig
      else .ok ⟨keyName, tsig.mac⟩

end

/-- `verify_request` inverted: the TSIG record, the key and the MAC. -/
theorem verifyRequest_eq_ok {hmac : TsigAlg → Bytes → Bytes → Bytes}
    {keys : List TsigKey} {now window : ℕ} {v : Verified}
    (h : verifyRequest hmac raw keys now window = .ok v) :
    ∃ tsig start ar alg secret, parseForTsig raw = .ok (tsig, start, ar) ∧
      lookupKey keys v.keyName = some (alg, secret) ∧
      hmac alg secret (requestDigestData raw start ar tsig) = v.requestMac := by
  unfold verifyRequest at h
  cases hp : parseForTsig raw with
  | error e => simp [hp] at h
  | ok r =>
    obtain ⟨tsig, start, ar⟩ := r
    simp only [hp] at h
    cases hk : lookupKey keys (trimEndMatches 46 (lower tsig.keyName.toAscii)) with
    | none => simp [hk] at h
    | some k =>
      obtain ⟨alg, secret⟩ := k
      simp only [hk] at h
      split_ifs at h with halg htime hmac
      cases h
      exact ⟨tsig, start, ar, alg, secret, rfl, hk, not_not.mp hmac⟩

/-! ## Where the TSIG record starts -/

theorem locates_skipQuestion : skipQuestion.Locates := by
  apply locates_decode.then
  apply determined_u16.bind_locates
  intro _
  apply determined_u16.bind_locates
  intro _
  exact (determined_pure _).locates

theorem locates_skipRecord : skipRecord.Locates := by
  apply locates_decode.then
  apply determined_u16.bind_locates
  intro _
  apply determined_u16.bind_locates
  intro _
  apply determined_u32.bind_locates
  intro _
  apply determined_u16.bind_locates
  intro rdlen
  exact (locates_slice _ rdlen.val).then (determined_pure _).locates

theorem determined_word : (orFormErr Dec.u16).Determined := Follows.mapError determined_u16

/-- `locateTsig` after the header. -/
theorem locates_sections (qd an ns ar : U16) :
    (do
      let _ ← times (orFormErr skipQuestion) qd.val
      let _ ← times (orFormErr skipRecord) (an.val + ns.val)
      let _ ← times (orFormErr skipRecord) (ar.val - 1)
      return ar : Decoder TsigError Byte U16).Locates := by
  have hq : (orFormErr skipQuestion).Locates := Follows.mapError locates_skipQuestion
  have hr : (orFormErr skipRecord).Locates := Follows.mapError locates_skipRecord
  apply (hq.times _).then
  apply (hr.times _).then
  exact (hr.times _).then (determined_pure ar).locates

theorem locates_locateTsig : locateTsig.Locates := by
  apply determined_word.bind_locates
  intro _
  apply determined_word.bind_locates
  intro _
  apply determined_word.bind_locates
  intro qd
  apply determined_word.bind_locates
  intro an
  apply determined_word.bind_locates
  intro ns
  apply determined_word.bind_locates
  intro ar
  exact (locates_fail _).ite (locates_sections qd an ns ar)

/-- What `parse_for_tsig` has established when it returns. -/
structure Found (raw : Bytes) (start : ℕ) (ar : U16) : Prop where
  located : locateTsig raw 0 = .ok (ar, start)
  arcount : ar = FastPath.be16 raw 10
  ar_pos : 0 < ar.val
  header : 12 ≤ start
  inside : start < raw.length

theorem arcount_of_locateTsig {ar : U16} {start : ℕ}
    (h : locateTsig raw 0 = .ok (ar, start)) :
    ar = FastPath.be16 raw 10 ∧ 0 < ar.val ∧ 12 ≤ start := by
  obtain ⟨_, _, h1, h⟩ := bind_eq_ok.mp h
  obtain ⟨_, _, h2, h⟩ := bind_eq_ok.mp h
  obtain ⟨qd, _, h3, h⟩ := bind_eq_ok.mp h
  obtain ⟨an, _, h4, h⟩ := bind_eq_ok.mp h
  obtain ⟨ns, _, h5, h⟩ := bind_eq_ok.mp h
  obtain ⟨ar', _, h6, h⟩ := bind_eq_ok.mp h
  obtain ⟨-, rfl, -⟩ := FastPath.u16_eq_ok (mapError_eq_ok.mp h1)
  obtain ⟨-, rfl, -⟩ := FastPath.u16_eq_ok (mapError_eq_ok.mp h2)
  obtain ⟨-, rfl, -⟩ := FastPath.u16_eq_ok (mapError_eq_ok.mp h3)
  obtain ⟨-, rfl, -⟩ := FastPath.u16_eq_ok (mapError_eq_ok.mp h4)
  obtain ⟨-, rfl, -⟩ := FastPath.u16_eq_ok (mapError_eq_ok.mp h5)
  obtain ⟨har, rfl, -⟩ := FastPath.u16_eq_ok (mapError_eq_ok.mp h6)
  split_ifs at h with h0
  · cases h
  · have hle := (locates_sections qd an ns ar' _ _ _ _ h).1
    obtain ⟨_, _, -, h⟩ := bind_eq_ok.mp h
    obtain ⟨_, _, -, h⟩ := bind_eq_ok.mp h
    obtain ⟨_, _, -, h⟩ := bind_eq_ok.mp h
    cases h
    exact ⟨har, by omega, hle⟩

theorem found_of_parseForTsig {tsig : TsigRr} {start : ℕ} {ar : U16}
    (h : parseForTsig raw = .ok (tsig, start, ar)) : Found raw start ar := by
  unfold parseForTsig at h
  cases hloc : locateTsig raw 0 with
  | error e => simp [hloc] at h
  | ok r =>
    obtain ⟨ar', start'⟩ := r
    simp only [hloc] at h
    cases hrr : tsigRr raw start' with
    | error e => simp [hrr] at h
    | ok r =>
      simp only [hrr] at h
      cases h
      obtain ⟨har, hpos, hheader⟩ := arcount_of_locateTsig hloc
      obtain ⟨_, _, hname, -⟩ := bind_eq_ok.mp hrr
      obtain ⟨hlt, hle⟩ := FastPath.lt_of_nameDecode (mapError_eq_ok.mp hname)
      exact ⟨hloc, har, hpos, hheader, by omega⟩

/-! ## What is signed -/

@[simp] theorem length_setArcount (msg : Bytes) (n : U16) :
    (setArcount msg n).length = msg.length := by simp [setArcount]

theorem getElem?_setArcount {msg : Bytes} {n : U16} {i : ℕ} (h10 : i ≠ 10) (h11 : i ≠ 11) :
    (setArcount msg n)[i]? = msg[i]? := by
  rw [setArcount, List.getElem?_set_ne (Ne.symm h11), List.getElem?_set_ne (Ne.symm h10)]

theorem setArcount_inj {msg msg' : Bytes} {n n' : U16} (hlen : 12 ≤ msg.length)
    (hlen' : 12 ≤ msg'.length)
    (h10 : (setArcount msg n)[10]? = (setArcount msg' n')[10]?)
    (h11 : (setArcount msg n)[11]? = (setArcount msg' n')[11]?) : n = n' := by
  have hi : ∀ {m : Bytes} (k : U16), 12 ≤ m.length →
      (setArcount m k)[10]? = some ⟨k.val / 256, u16_hi_lt k⟩ := by
    intro m k hm
    rw [setArcount, List.getElem?_set_ne (by omega), List.getElem?_set_self (by omega)]
  have lo : ∀ {m : Bytes} (k : U16), 12 ≤ m.length →
      (setArcount m k)[11]? = some ⟨k.val % 256, u16_lo_lt k⟩ := by
    intro m k hm
    rw [setArcount, List.getElem?_set_self (by rw [List.length_set]; omega)]
  rw [hi n hlen, hi n' hlen', Option.some.injEq, Fin.mk.injEq] at h10
  rw [lo n hlen, lo n' hlen', Option.some.injEq, Fin.mk.injEq] at h11
  ext
  omega

section Digest

variable {raw raw' : Bytes} {tsig tsig' : TsigRr} {start start' : ℕ} {ar ar' : U16}

section

variable (h : Found raw start ar)
include h

theorem Found.length_take : (raw.take start).length = start := by
  have := h.inside
  rw [List.length_take]
  omega

theorem Found.getElem?_arcount : [raw[10]?, raw[11]?] = (u16Be ar).map some := by
  have h1 := h.header
  have h2 := h.inside
  rw [h.arcount, FastPath.be16, u16Be_u16OfBe]
  simp only [FastPath.octet, List.getD_eq_getElem?_getD]
  rw [List.getElem?_eq_getElem (by omega : 10 < raw.length),
    List.getElem?_eq_getElem (by omega : 11 < raw.length)]
  rfl

section

variable (h' : Found raw' start' ar')
include h'

/-- Where both messages are before their TSIG records, equal signed data means equal octets. -/
theorem sameFront_of_digest (hle : start ≤ start')
    (heq : requestDigestData raw start ar tsig = requestDigestData raw' start' ar' tsig') :
    ar = ar' ∧ SameFront start raw raw' := by
  have hheader := h.header
  have hpatched : ∀ i < start, (setArcount (raw.take start) ⟨ar.val - 1, by omega⟩)[i]? =
      (setArcount (raw'.take start') ⟨ar'.val - 1, by omega⟩)[i]? := by
    intro i hi
    have hoctet := congrArg (fun l => l[i]?) heq
    simp only [requestDigestData] at hoctet
    rw [List.getElem?_append_left (by rw [length_setArcount, h.length_take]; exact hi),
      List.getElem?_append_left (by rw [length_setArcount, h'.length_take]; omega)] at hoctet
    exact hoctet
  have har : ar = ar' := by
    have hpred := setArcount_inj (by rw [h.length_take]; exact hheader)
      (by rw [h'.length_take]; exact h'.header) (hpatched 10 (by omega)) (hpatched 11 (by omega))
    have hval : ar.val - 1 = ar'.val - 1 := congrArg Fin.val hpred
    have hpos := h.ar_pos
    have hpos' := h'.ar_pos
    ext
    omega
  refine ⟨har, ?_⟩
  intro i hi
  by_cases h10 : i = 10 ∨ i = 11
  · -- these two are overwritten in the signed copy, but both stand for the same count
    have hoctets := h.getElem?_arcount
    rw [har, ← h'.getElem?_arcount] at hoctets
    simp only [List.cons.injEq, and_true] at hoctets
    rcases h10 with rfl | rfl
    · exact hoctets.1
    · exact hoctets.2
  · have hoctet := hpatched i hi
    rw [getElem?_setArcount (by omega) (by omega), getElem?_setArcount (by omega) (by omega),
      List.getElem?_take_of_lt hi, List.getElem?_take_of_lt (by omega)] at hoctet
    exact hoctet

theorem Found.start_eq (hfront : SameFront start raw raw') : start' = start :=
  ((locates_locateTsig _ _ _ _ h.located).2 _ _ _ hfront h'.located).1

/-- What is signed determines the octets before the TSIG record and the TSIG variables. -/
theorem requestDigestData_inj
    (heq : requestDigestData raw start ar tsig = requestDigestData raw' start' ar' tsig') :
    start' = start ∧ ar' = ar ∧ raw'.take start = raw.take start ∧
      tsigVariables tsig' = tsigVariables tsig := by
  -- the record that starts first locates the other one
  have hboth : start' = start ∧ ar' = ar ∧ SameFront start raw raw' := by
    rcases Nat.le_total start start' with hle | hle
    · obtain ⟨har, hfront⟩ := sameFront_of_digest h h' hle heq
      exact ⟨h.start_eq h' hfront, har.symm, hfront⟩
    · obtain ⟨har, hfront⟩ := sameFront_of_digest h' h hle heq.symm
      have hstart := h'.start_eq h hfront
      refine ⟨hstart.symm, har, ?_⟩
      intro i hi
      exact (hfront i (by omega)).symm
  obtain ⟨rfl, rfl, hfront⟩ := hboth
  refine ⟨rfl, rfl, ?_, ?_⟩
  · apply List.ext_getElem?
    intro i
    by_cases hi : i < start'
    · rw [List.getElem?_take_of_lt hi, List.getElem?_take_of_lt hi, hfront i hi]
    · rw [List.getElem?_eq_none (by rw [h'.length_take]; omega),
        List.getElem?_eq_none (by rw [h.length_take]; omega)]
  · apply (List.append_inj heq ?_).2.symm
    rw [length_setArcount, length_setArcount, h.length_take, h'.length_take]

end

end

end Digest

/-- The TSIG variables determine what they are made of, the names up to letter case. -/
theorem tsigVariables_inj {t t' : TsigRr} (h : tsigVariables t = tsigVariables t') :
    t.keyName.key = t'.keyName.key ∧ t.algorithm.key = t'.algorithm.key ∧
      t.timeSigned = t'.timeSigned ∧ t.fudge = t'.fudge ∧ t.error = t'.error ∧
      t.other = t'.other := by
  obtain ⟨hkey, h⟩ := lower_wire_append_inj h
  obtain ⟨-, h⟩ := List.append_inj h rfl
  obtain ⟨-, h⟩ := List.append_inj h rfl
  obtain ⟨halg, h⟩ := lower_wire_append_inj h
  obtain ⟨hhi, h⟩ := List.append_inj h rfl
  obtain ⟨hlo, h⟩ := List.append_inj h rfl
  obtain ⟨hfudge, h⟩ := List.append_inj h rfl
  obtain ⟨herror, h⟩ := List.append_inj h rfl
  obtain ⟨-, hother⟩ := List.append_inj h rfl
  have hhi := congrArg Fin.val (u16Be_injective hhi)
  have hlo := congrArg Fin.val (u32Be_injective hlo)
  simp only at hhi hlo
  exact ⟨hkey, halg, by omega, u16Be_injective hfudge, u16Be_injective herror, hother⟩

/-! ## The sections of the request -/

/-- The zone, prerequisite and update sections, as `Message::parse` reads them. -/
def updateSections : Dec (List Question × List Record × List Record) := do
  let header ← Header.parse
  let zone ← times Question.parse header.qdcount.val
  let prerequisites ← times Record.parse header.ancount.val
  let updates ← times Record.parse header.nscount.val
  return (zone, prerequisites, updates)

theorem stable_updateSections : updateSections.Stable := by
  refine Header.stable_parse.bind fun header => ?_
  refine (Question.stable_parse.times _).bind fun _ => ?_
  refine (Record.stable_parse.times _).bind fun _ => ?_
  exact (Record.stable_parse.times _).bind fun _ => stable_pure _

theorem updateSections_of_parse (h : Message.parse raw = .ok m) :
    ∃ stop, updateSections raw 0 = .ok ((m.questions, m.answers, m.authority), stop) := by
  unfold Message.parse at h
  cases hd : Message.decode raw 0 with
  | error e => simp [hd, Except.map] at h
  | ok r =>
    obtain ⟨m', stop⟩ := r
    simp only [hd, Except.map, Except.ok.injEq] at h
    subst h
    obtain ⟨header, p1, h1, hd⟩ := bind_eq_ok.mp hd
    obtain ⟨questions, p2, h2, hd⟩ := bind_eq_ok.mp hd
    obtain ⟨answers, p3, h3, hd⟩ := bind_eq_ok.mp hd
    obtain ⟨authority, p4, h4, hd⟩ := bind_eq_ok.mp hd
    obtain ⟨additional, p5, -, hd⟩ := bind_eq_ok.mp hd
    cases hd
    refine ⟨p4, bind_eq_ok.mpr ⟨header, p1, h1, ?_⟩⟩
    refine bind_eq_ok.mpr ⟨questions, p2, h2, ?_⟩
    refine bind_eq_ok.mpr ⟨answers, p3, h3, ?_⟩
    exact bind_eq_ok.mpr ⟨authority, p4, h4, rfl⟩

/-- Sections that can be read from the front of a message are those of the message. -/
theorem sections_of_front {n : ℕ} {s : List Question × List Record × List Record}
    {stop : ℕ} (hs : updateSections (raw.take n) 0 = .ok (s, stop))
    (hm : Message.parse raw = .ok m) : (m.questions, m.answers, m.authority) = s := by
  obtain ⟨stop', hsections⟩ := updateSections_of_parse hm
  have hwhole := (stable_updateSections _ _ _ _ hs).2 (raw.drop n)
  rw [List.take_append_drop, hsections] at hwhole
  exact congrArg Prod.fst (Except.ok.inj hwhole)

theorem sections_eq_of_front {raw' : Bytes} {n : ℕ} {m' : Message}
    (hfront : raw.take n = raw'.take n) (hm : Message.parse raw = .ok m)
    (hm' : Message.parse raw' = .ok m') (hs : ∃ s, updateSections (raw.take n) 0 = .ok s) :
    m.questions = m'.questions ∧ m.answers = m'.answers ∧ m.authority = m'.authority := by
  obtain ⟨⟨s, stop⟩, hs⟩ := hs
  have hleft := sections_of_front hs hm
  rw [hfront] at hs
  have hright := sections_of_front hs hm'
  have hsame := hleft.trans hright.symm
  simp only [Prod.mk.injEq] at hsame
  exact hsame

/-! ## Binding -/

section Binding

variable {hmac : TsigAlg → Bytes → Bytes → Bytes} {raw raw' : Bytes} {keys keys' : List TsigKey}
  {now now' window window' : ℕ} {v : Verified}
  (hkey : lookupKey keys v.keyName = lookupKey keys' v.keyName)
  (hinj : ∀ alg secret, lookupKey keys v.keyName = some (alg, secret) →
    Function.Injective (hmac alg secret))
  (h : verifyRequest hmac raw keys now window = .ok v)
  (h' : verifyRequest hmac raw' keys' now' window' = .ok v)

include hkey hinj h h'

theorem front_of_verified :
    ∃ tsig tsig' start ar, parseForTsig raw = .ok (tsig, start, ar) ∧
      parseForTsig raw' = .ok (tsig', start, ar) ∧ raw.take start = raw'.take start ∧
      tsigVariables tsig = tsigVariables tsig' := by
  obtain ⟨tsig, start, ar, alg, secret, hparse, hlookup, hmac1⟩ := verifyRequest_eq_ok h
  obtain ⟨tsig', start', ar', alg', secret', hparse', hlookup', hmac2⟩ := verifyRequest_eq_ok h'
  rw [← hkey, hlookup, Option.some.injEq] at hlookup'
  obtain ⟨rfl, rfl⟩ := hlookup'
  have hdigest := hinj alg secret hlookup (hmac1.trans hmac2.symm)
  obtain ⟨rfl, rfl, hfront, hvars⟩ := requestDigestData_inj (found_of_parseForTsig hparse)
    (found_of_parseForTsig hparse') hdigest
  exact ⟨tsig, tsig', start', ar', hparse, hparse', hfront.symm, hvars.symm⟩

/-- Two requests accepted with the same key and MAC agree on every octet before the TSIG record
and on the TSIG variables, and on the sections that these octets hold. -/
theorem verifyRequest_binds :
    ∃ tsig tsig' start ar, parseForTsig raw = .ok (tsig, start, ar) ∧
      parseForTsig raw' = .ok (tsig', start, ar) ∧ raw.take start = raw'.take start ∧
      tsig.keyName.eqIgnoreAsciiCase tsig'.keyName = true ∧
      tsig.algorithm.eqIgnoreAsciiCase tsig'.algorithm = true ∧
      tsig.timeSigned = tsig'.timeSigned ∧ tsig.fudge = tsig'.fudge ∧
      tsig.error = tsig'.error ∧ tsig.other = tsig'.other ∧
      ∀ m m', Message.parse raw = .ok m → Message.parse raw' = .ok m' →
        (∃ s, updateSections (raw.take start) 0 = .ok s) →
          m.questions = m'.questions ∧ m.answers = m'.answers ∧ m.authority = m'.authority := by
  obtain ⟨tsig, tsig', start, ar, hparse, hparse', hfront, hvars⟩ :=
    front_of_verified hkey hinj h h'
  obtain ⟨hname, halg, htime, hfudge, herror, hother⟩ := tsigVariables_inj hvars
  refine ⟨tsig, tsig', start, ar, hparse, hparse', hfront, eqIgnoreAsciiCase_iff.mpr hname,
    eqIgnoreAsciiCase_iff.mpr halg, htime, hfudge, herror, hother, ?_⟩
  intro m m' hm hm' hs
  exact sections_eq_of_front hfront hm hm' hs

end Binding

/-! ## Requests whose MAC is what they sign -/

/-- A MAC function that is injective: the signed data itself. -/
def echo : TsigAlg → Bytes → Bytes → Bytes := fun _ _ data => data

/-- The key `k`; `echo` does not use its secret. -/
def keysK : List TsigKey := [([107], .sha256, [])]

/-- The algorithm name, on the wire. -/
def algorithmWire : Bytes := 11 :: (TsigAlg.sha256.wireName.take 11 ++ [0])

/-- What a request with the octets `front` before its TSIG record signs: time 1000, fudge 300. -/
def signedData (front : Bytes) : Bytes :=
  setArcount front 0 ++ ([1, 107, 0] ++ (u16Be Class.ANY ++ (u32Be 0 ++
    (algorithmWire ++ [0, 0, 0, 0, 3, 232, 1, 44, 0, 0, 0, 0]))))

/-- The request with a TSIG record of class `cls`, whose MAC is the signed data. -/
def signedBy (front : Bytes) (cls : U16) : Bytes :=
  let mac := signedData front
  front ++ [1, 107, 0] ++ u16Be Rtype.TSIG ++ u16Be cls ++ u32Be 0 ++
    u16Be (Fin.ofNat 65536 (29 + mac.length)) ++ algorithmWire ++ [0, 0, 0, 0, 3, 232, 1, 44] ++
    u16Be (Fin.ofNat 65536 mac.length) ++ mac ++ [0, 0, 0, 0, 0, 0]

/-- An update of the zone `a` with one address record, whose owner is a pointer to `target`; the
first octet of the message is `id`. -/
def updateFront (id target : Byte) : Bytes :=
  [id, 0, 40, 0, 0, 1, 0, 0, 0, 1, 0, 1, 1, 97, 0, 0, 6, 0, 1] ++
    [192, target, 0, 1, 0, 1, 0, 0, 0, 60, 0, 4, 10, 0, 0, 1]

theorem echo_injective (alg : TsigAlg) (secret : Bytes) : Function.Injective (echo alg secret) :=
  fun _ _ h => h

/-- An owner that points to the zone name: the class of the TSIG record does not matter. -/
theorem verifyRequest_binds_zoneOwner :
    ∃ m m' : Message, Message.parse (signedBy (updateFront 0 12) Class.ANY) = .ok m ∧
      Message.parse (signedBy (updateFront 0 12) IN) = .ok m' ∧
      m.additional ≠ m'.additional ∧ m.authority = m'.authority := by
  have h : verifyRequest echo (signedBy (updateFront 0 12) Class.ANY) keysK 1000 300 =
      .ok ⟨[107], signedData (updateFront 0 12)⟩ := by decide +kernel
  have h' : verifyRequest echo (signedBy (updateFront 0 12) IN) keysK 1000 300 =
      .ok ⟨[107], signedData (updateFront 0 12)⟩ := by decide +kernel
  obtain ⟨tsig, tsig', start, ar, hparse, -, -, -, -, -, -, -, -, hsections⟩ :=
    verifyRequest_binds rfl (fun alg secret _ => echo_injective alg secret) h h'
  have hstart : start = 35 := by
    have h35 : (parseForTsig (signedBy (updateFront 0 12) Class.ANY)).toOption.map
        (fun r => r.2.1) = some 35 := by decide +kernel
    rw [hparse] at h35
    exact Option.some.inj h35
  obtain ⟨m, hm, hclass⟩ := FastPath.exists_parse_of_any
    (show (Message.parse (signedBy (updateFront 0 12) Class.ANY)).toOption.any
      (fun m => m.additional.any fun r => r.rclass = Class.ANY) = true by decide +kernel)
  obtain ⟨m', hm', hclass'⟩ := FastPath.exists_parse_of_any
    (show (Message.parse (signedBy (updateFront 0 12) IN)).toOption.any
      (fun m => !m.additional.any fun r => r.rclass = Class.ANY) = true by decide +kernel)
  refine ⟨m, m', hm, hm', ?_, (hsections m m' hm hm' ?_).2.2⟩
  · intro hsame
    rw [hsame] at hclass
    simp only [hclass, Bool.not_true, Bool.false_eq_true] at hclass'
  · rw [hstart]
    have hok : (updateSections ((signedBy (updateFront 0 12) Class.ANY).take 35) 0).toOption.isSome =
        true := by decide +kernel
    cases hs : updateSections ((signedBy (updateFront 0 12) Class.ANY).take 35) 0 with
    | error e => simp [hs, Except.toOption] at hok
    | ok s => exact ⟨s, rfl⟩

/-- The owner points to offset 0, where the identifier reads as the length of a label of 41 octets.
The label ends with the class of the TSIG record, which is signed as ANY whatever was received. -/
theorem unsigned_owner :
    (∀ alg secret, Function.Injective (echo alg secret)) ∧
      ∃ (v : Verified) (m m' : Message),
        verifyRequest echo (signedBy (updateFront 41 0) Class.ANY) keysK 1000 300 = .ok v ∧
        verifyRequest echo (signedBy (updateFront 41 0) IN) keysK 1000 300 = .ok v ∧
        Message.parse (signedBy (updateFront 41 0) Class.ANY) = .ok m ∧
        Message.parse (signedBy (updateFront 41 0) IN) = .ok m' ∧
        m.authority ≠ m'.authority := by
  refine ⟨echo_injective, ⟨[107], signedData (updateFront 41 0)⟩, ?_⟩
  obtain ⟨m, hm, hlast⟩ := FastPath.exists_parse_of_any
    (show (Message.parse (signedBy (updateFront 41 0) Class.ANY)).toOption.any
      (fun m => m.authority.any fun r => r.name.wire.getD 41 0 = 255) = true by decide +kernel)
  obtain ⟨m', hm', hlast'⟩ := FastPath.exists_parse_of_any
    (show (Message.parse (signedBy (updateFront 41 0) IN)).toOption.any
      (fun m => !m.authority.any fun r => r.name.wire.getD 41 0 = 255) = true by decide +kernel)
  refine ⟨m, m', by decide +kernel, by decide +kernel, hm, hm', ?_⟩
  intro hsame
  rw [hsame] at hlast
  simp only [hlast, Bool.not_true, Bool.false_eq_true] at hlast'

end Runbound.Server
