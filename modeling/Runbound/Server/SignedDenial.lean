import Runbound.Server.ServeSigned

/-!
# The denials of a signed local zone

`serve_signed` decides between a name error and an answer without data by the record
store, or by the zone action; the NSEC3 ring is built over the names of the store and the
names between them and the apex. Where the two disagree, the denial proves nothing.

* `signedReply_negative`: what a negative reply was made from.
* `signedDenial_validates_iff`: the negative replies that a validator accepts.
-/

namespace Runbound.Server

open Wire Local Lib Dnssec Rtype Rcode Option

section

variable {crypto : Crypto} {s : ZoneSigner} {now : ℕ} {z : LocalZoneSet} {msg : Message}
  {q : Question} {apex : Name}

theorem signedVerdict_answer_ne_nil {records : List Record}
    (h : signedVerdict s now z q = .answer records) : records ≠ [] := by
  unfold signedVerdict at h
  cases hapex : apexRecords s now q with
  | some recs =>
    simp only [hapex, SignedVerdict.answer.injEq] at h
    subst h
    rcases or_eq_some_iff.mp hapex with h | ⟨-, h⟩
    · split_ifs at h
      obtain ⟨k, -, h⟩ := bind_eq_some_iff.mp h
      obtain ⟨sig, -, rfl⟩ := map_eq_some_iff.mp h
      simp
    · split_ifs at h
      obtain ⟨k, -, h⟩ := bind_eq_some_iff.mp h
      obtain ⟨sig, -, rfl⟩ := map_eq_some_iff.mp h
      simp
  | none =>
    simp only [hapex] at h
    split at h
    · cases h
    · cases h
    · split_ifs at h with hrec hchain
      · cases h
        exact List.append_ne_nil_of_left_ne_nil hrec _
      · cases h
        exact List.append_ne_nil_of_left_ne_nil hchain _

theorem signedReply_negative (hzone : s.apexFor q.name = some apex)
    (h : (signedReply crypto s now z msg q).header.rcodeLow = NXDOMAIN ∨
      (signedReply crypto s now z msg q).header.rcodeLow = NOERROR ∧
        (signedReply crypto s now z msg q).answers = []) :
    ∃ isNxdomain authority, storeNegative crypto s now z apex isNxdomain q.name = some authority ∧
      signedReply crypto s now z msg q = signedAnswerOf msg [] authority
        (if isNxdomain then NXDOMAIN else NOERROR) := by
  unfold signedReply at h ⊢
  cases hv : signedVerdict s now z q with
  | answer records =>
    simp only [hv] at h
    rw [rcodeLow_signedAnswerOf (by decide)] at h
    rcases h with h | ⟨-, h⟩
    · contradiction
    · exact absurd h (signedVerdict_answer_ne_nil hv)
  | refused =>
    simp only [hv] at h
    rw [rcodeLow_answerOf (by decide)] at h
    rcases h with h | ⟨h, -⟩ <;> exact absurd h (by decide)
  | negative isNxdomain =>
    simp only [hv] at h ⊢
    rcases signedNegativeOf_cases crypto now z msg hzone isNxdomain with
      ⟨authority, hsome, heq⟩ | ⟨-, heq⟩
    · exact ⟨isNxdomain, authority, hsome, heq⟩
    · rw [heq, rcodeLow_answerOf (by decide)] at h
      rcases h with h | ⟨h, -⟩ <;> exact absurd h (by decide)

/-- A name error validates exactly if neither the name nor the wildcard at its closest encloser
    is a name of the zone, empty non-terminals included. An answer without data validates exactly
    if the name has neither the type nor an alias, and the type is not RRSIG. -/
theorem signedDenial_validates_iff (crypto : Crypto) (s : ZoneSigner) (now : ℕ)
    (z : LocalZoneSet) (msg : Message) (q : Question) (hzone : s.apexFor q.name = some apex)
    (hapart : HashesApart crypto (zoneOwners (storeEntries z) apex) q.name) :
    ((signedReply crypto s now z msg q).header.rcodeLow = NXDOMAIN →
      (nsec3ProvesNxdomain crypto (nsec3sIn (signedReply crypto s now z msg q).authority) q.name
          apex = true ↔
        ¬ ZoneNode (storeEntries z) apex q.name.key ∧
          ∀ ce, ZoneEncloser (storeEntries z) apex q.name.key ce →
            ¬ ZoneNode (storeEntries z) apex (star ce))) ∧
    ((signedReply crypto s now z msg q).header.rcodeLow = NOERROR →
      (signedReply crypto s now z msg q).answers = [] →
      (nsec3ProvesNodata crypto (nsec3sIn (signedReply crypto s now z msg q).authority) q.name
          q.qtype = true ↔
        q.qtype ≠ RRSIG ∧ ¬ ZoneType (storeEntries z) apex q.name.key q.qtype ∧
          (q.qtype = CNAME ∨ ¬ ZoneType (storeEntries z) apex q.name.key CNAME))) := by
  constructor
  · intro hrc
    obtain ⟨isNxdomain, authority, hsome, heq⟩ := signedReply_negative hzone (Or.inl hrc)
    rw [heq, rcodeLow_signedAnswerOf (by cases isNxdomain <;> decide)] at hrc
    cases isNxdomain with
    | false => exact absurd hrc (by decide)
    | true =>
      obtain ⟨arcs, harcs, hread⟩ := signedNegative_nxdomain hsome
      have hauthority : nsec3sIn (signedReply crypto s now z msg q).authority =
          arcs.map nsec3OfArc := by
        rw [heq]
        exact hread
      rw [hauthority]
      exact nxdomainArcs_proves_iff hapart harcs
  · intro hrc hanswers
    obtain ⟨isNxdomain, authority, hsome, heq⟩ :=
      signedReply_negative hzone (Or.inr ⟨hrc, hanswers⟩)
    rw [heq, rcodeLow_signedAnswerOf (by cases isNxdomain <;> decide)] at hrc
    cases isNxdomain with
    | true => exact absurd hrc (by decide)
    | false =>
      obtain ⟨nodes, a, hnodes, ha, hhash, hread⟩ := signedNegative_nodata hsome
      have hauthority : nsec3sIn (signedReply crypto s now z msg q).authority = [nsec3OfArc a] := by
        rw [heq]
        exact hread
      rw [hauthority]
      exact nodataArc_proves_iff hapart hnodes ha hhash

end

/-! ## An empty non-terminal -/

/-- `x.b.a.` -/
def deepName : Name := ⟨[[120], [98], [97]], by decide⟩

/-- `x.b.a. 300 A 10.0.0.1` -/
def deepLine : LocalData := LocalData.address deepName 300 ![10, 0, 0, 1]

/-- The static zone `a.` with one record at `x.b.a.` -/
def deepZones : LocalZoneSet := fromConfig true listOrder [⟨[97, 46], .static⟩] [deepLine]

/-- `b.a.`, between the record and the apex. -/
def emptyName : Name := Dnssec.nameBA

theorem missingName_ok : LabelsOk [[99], [97]] := by decide

/-- `c.a.`, not in the zone. -/
def missingName : Name := ⟨[[99], [97]], missingName_ok⟩

/-- A question for the address of a name. -/
def questionOf (n : Name) : Question := ⟨n, Rtype.A, Class.IN⟩

/-- A query with it. -/
def askOf (n : Name) : Message := { header := { id := 7 }, questions := [questionOf n] }

/-- The signed reply to it. -/
def deepReply (n : Name) : Message :=
  signedReply (idealCrypto [] []) signerA 0 deepZones (askOf n) (questionOf n)

/-- The denial of a missing name validates, so neither it nor the wildcard is in the zone. -/
theorem signedDenial_validates_missing :
    HashesApart (idealCrypto [] []) (zoneOwners (storeEntries deepZones) Local.nameA) missingName ∧
      (deepReply missingName).header.rcodeLow = NXDOMAIN ∧
      ¬ ZoneNode (storeEntries deepZones) Local.nameA missingName.key ∧
      ∀ ce, ZoneEncloser (storeEntries deepZones) Local.nameA missingName.key ce →
        ¬ ZoneNode (storeEntries deepZones) Local.nameA (star ce) :=
  ⟨by decide +kernel, by decide +kernel,
    ((signedDenial_validates_iff (idealCrypto [] []) signerA 0 deepZones (askOf missingName)
      (questionOf missingName) (by decide +kernel) (by decide +kernel)).1
      (by decide +kernel)).mp (by decide +kernel)⟩

/-- An empty non-terminal is answered with a name error that proves nothing. -/
theorem emptyName_unproved :
    (deepReply emptyName).header.rcodeLow = NXDOMAIN ∧
      nsec3ProvesNxdomain (idealCrypto [] []) (nsec3sIn (deepReply emptyName).authority) emptyName
        Local.nameA = false := by
  decide +kernel

end Runbound.Server
