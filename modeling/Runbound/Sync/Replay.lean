import Mathlib.Data.List.MinMax
import Runbound.Lib.Framing
import Runbound.Lib.Map
import Runbound.Store.Atomic

/-!
# Signed requests of the sync channel

Model of `hmac_sign`, `replay_check_and_record`, `hmac_verify_with_ts` and `ct_eq_hex` (sync.rs,
lines 91–180). A request carries a timestamp and an HMAC; it is accepted within 30 s of its
timestamp and once. The signatures that were accepted are kept in a map until their timestamps are
out of the window; a full map loses its oldest entry.

A string is its octets. HMAC-SHA256 and `hex::encode` are parameters. A run is a list of requests
with the clock that each of them is verified at.

Main results:

* `message_injective`: what is signed determines method, path, timestamp and body, if method and
  path have no line feed.
* `accepted_once`: with a clock that does not go back, and fewer accepted requests than the map
  holds at any time within the window, no timestamp and signature are accepted twice.

**Deviation**: the mutex is not poisoned: nothing panics while it is held. The iteration order of
the map, which decides between entries of one age, is that of insertion.
-/

namespace Runbound.Sync

open Wire Lib List Map
open Lib.Text

/-! ## Model -/

/-- The octets of a string of ASCII characters. -/
def ascii (s : Text) : Bytes := s.map fun c => Fin.ofNat 256 c.toNat

/-- `msg` with the body after it (sync.rs:96-99). -/
def message (method path : Bytes) (ts : ℕ) (body : Bytes) : Bytes :=
  (method ++ [10]) ++ ((path ++ [10]) ++ ((ascii (decimal ts) ++ [10]) ++ body))

/-- HMAC-SHA-256 and `hex::encode`. -/
structure Hmac where
  mac : Bytes → Bytes → Bytes
  hexEncode : Bytes → Text

/-- `hmac_sign` (sync.rs:91-101). -/
def hmacSign (hmac : Hmac) (key method path : Bytes) (ts : ℕ) (body : Bytes) :
    Bytes :=
  ascii (hmac.hexEncode (hmac.mac key (message method path ts body)))

/-- `ct_eq_hex` (sync.rs:170-179). -/
def ctEqHex (expected sig : Bytes) : Bool :=
  let lenOk : Byte := if expected.length = sig.length then 1 else 0
  let byteDiff := (sig.zip expected).foldl (fun acc p => acc ||| (p.1 ^^^ p.2)) 0
  byteDiff ||| (1 - lenOk) == 0

/-- `REPLAY_WINDOW_SECS` (sync.rs:109). -/
def replayWindowSecs : ℕ := 30

/-- `REPLAY_CACHE_CAP` (sync.rs:110). -/
def replayCacheCap : ℕ := 16384

/-- The age of a timestamp, in both directions (sync.rs:125, 154). -/
def age (now ts : ℕ) : ℕ := if now ≥ ts then now - ts else ts - now

/-- `REPLAY_SEEN` (sync.rs:111-112). -/
abbrev Seen : Type := Map Bytes ℕ

/-- The key that `min_by_key` finds (sync.rs:134). -/
def oldest (seen : Seen) : Option Bytes := (seen.entries.argmin fun e => e.2).map fun e => e.1

/-- `replay_check_and_record` (sync.rs:117-140). -/
def replayCheckAndRecord (sig : Bytes) (ts now : ℕ) (seen : Seen) : Bool × Seen :=
  let seen := seen.retain fun _ t => age now t ≤ replayWindowSecs
  if sig ∈ seen then (false, seen)
  else
    let seen :=
      if seen.entries.length ≥ replayCacheCap then (oldest seen).elim seen seen.erase else seen
    (true, seen.insert sig ts)

/-- The arguments of `hmac_verify_with_ts` (sync.rs:145-152). -/
structure SignedRequest where
  key : Bytes
  method : Bytes
  path : Bytes
  ts : ℕ
  body : Bytes
  sig : Bytes
  deriving DecidableEq

/-- `hmac_verify_with_ts` (sync.rs:145-167), at the time `now`. -/
def hmacVerifyWithTs (hmac : Hmac) (now : ℕ) (r : SignedRequest) (seen : Seen) :
    Bool × Seen :=
  if age now r.ts > replayWindowSecs then (false, seen)
  else if !ctEqHex (hmacSign hmac r.key r.method r.path r.ts r.body) r.sig then (false, seen)
  else replayCheckAndRecord r.sig r.ts now seen

/-- The requests of a run that are accepted, with the clock. -/
def accepted (hmac : Hmac) (seen : Seen) :
    List (ℕ × SignedRequest) → List (ℕ × SignedRequest)
  | [] => []
  | a :: run =>
    let (ok, seen) := hmacVerifyWithTs hmac a.1 a.2 seen
    if ok then a :: accepted hmac seen run else accepted hmac seen run

/-! ## What is signed -/

theorem ascii_inj {s t : Text} (hs : ∀ c ∈ s, c.toNat < 256) (ht : ∀ c ∈ t, c.toNat < 256)
    (h : ascii s = ascii t) : s = t := by
  induction s generalizing t with
  | nil =>
    cases t with
    | nil => rfl
    | cons d t => cases h
  | cons c s ih =>
    cases t with
    | nil => cases h
    | cons d t =>
      obtain ⟨hc, hs⟩ := forall_mem_cons.mp hs
      obtain ⟨hd, ht⟩ := forall_mem_cons.mp ht
      obtain ⟨hhead, htail⟩ := List.cons.inj h
      have hval : c.toNat % 256 = d.toNat % 256 := congrArg Fin.val hhead
      have hcd : c.toNat = d.toNat := by omega
      rw [ih hs ht htail, Char.toNat_inj.mp hcd]

theorem newline_notMem_ascii_decimal (n : ℕ) : (10 : Byte) ∉ ascii (decimal n) := by
  intro hmem
  obtain ⟨c, hc, hten⟩ := mem_map.mp hmem
  have hdigit := toNat_of_isDigit (isDigit_of_mem_decimal hc)
  have hval : c.toNat % 256 = 10 := congrArg Fin.val hten
  omega

theorem decimal_inj {m n : ℕ} (h : ascii (decimal m) = ascii (decimal n)) : m = n := by
  have hsmall : ∀ k, ∀ c ∈ decimal k, c.toNat < 256 := by
    intro k c hc
    have := toNat_of_isDigit (isDigit_of_mem_decimal hc)
    omega
  have hdigits := congrArg (digits 0) (ascii_inj (hsmall m) (hsmall n) h)
  rw [digits_decimal, digits_decimal] at hdigits
  exact Option.some.inj hdigits

theorem selfDelimiting_line :
    SelfDelimiting (fun s : Bytes => ∀ b ∈ s, b ≠ 10) (fun s => s ++ [10]) := by
  have hone : SelfDelimiting (fun b : Byte => b ≠ 10) (fun b => [b]) :=
    selfDelimiting_of_length (fun _ _ => rfl) (fun a b _ _ h => (List.cons.inj h).1)
  have hlines := hone.terminated (t := 10) fun a ha => ⟨a, [], rfl, ha⟩
  have hflat : ∀ s : Bytes, s.flatMap (fun b => [b]) = s := fun s => by simp
  simpa only [hflat] using hlines

/-- **What is signed determines the four parts of the request.** -/
theorem message_injective {m m' p p' b b' : Bytes} {t t' : ℕ} (hm : (10 : Byte) ∉ m)
    (hm' : (10 : Byte) ∉ m') (hp : (10 : Byte) ∉ p) (hp' : (10 : Byte) ∉ p')
    (h : message m p t b = message m' p' t' b') : m = m' ∧ p = p' ∧ t = t' ∧ b = b' := by
  have hline : ∀ {s : Bytes}, (10 : Byte) ∉ s → ∀ x ∈ s, x ≠ 10 := fun hs x hx heq => hs (heq ▸ hx)
  obtain ⟨rfl, hrest⟩ := selfDelimiting_line _ _ _ _ (hline hm) (hline hm') h
  obtain ⟨rfl, hlast⟩ := selfDelimiting_line _ _ _ _ (hline hp) (hline hp') hrest
  obtain ⟨hts, rfl⟩ := selfDelimiting_line _ _ _ _ (hline (newline_notMem_ascii_decimal t))
    (hline (newline_notMem_ascii_decimal t')) hlast
  exact ⟨rfl, rfl, decimal_inj hts, rfl⟩

/-! ## The comparison -/

theorem byte_or_eq_zero {a b : Byte} : a ||| b = 0 ↔ a = 0 ∧ b = 0 := by
  have hor : (a ||| b).val = a.val ||| b.val :=
    Nat.mod_eq_of_lt (Nat.or_lt_two_pow (n := 8) a.isLt b.isLt)
  rw [Fin.ext_iff, Fin.ext_iff, Fin.ext_iff, hor]
  exact Nat.or_eq_zero_iff

theorem byte_xor_eq_zero {a b : Byte} : a ^^^ b = 0 ↔ a = b := by
  have hxor : (a ^^^ b).val = a.val ^^^ b.val :=
    Nat.mod_eq_of_lt (Nat.xor_lt_two_pow (n := 8) a.isLt b.isLt)
  rw [Fin.ext_iff, Fin.ext_iff, hxor]
  exact Nat.xor_eq_zero_iff

theorem foldl_diff_eq_zero (ps : List (Byte × Byte)) (acc : Byte) :
    ps.foldl (fun acc p => acc ||| (p.1 ^^^ p.2)) acc = 0 ↔ acc = 0 ∧ ∀ p ∈ ps, p.1 = p.2 := by
  induction ps generalizing acc with
  | nil => simp
  | cons p ps ih =>
    rw [foldl_cons, ih, byte_or_eq_zero, byte_xor_eq_zero, forall_mem_cons, and_assoc]

theorem eq_of_zip {s t : Bytes} (hlen : t.length = s.length) (h : ∀ p ∈ s.zip t, p.1 = p.2) :
    t = s := by
  induction s generalizing t with
  | nil => exact length_eq_zero_iff.mp hlen
  | cons a s ih =>
    cases t with
    | nil => cases hlen
    | cons b t =>
      rw [zip_cons_cons, forall_mem_cons] at h
      rw [ih (Nat.succ.inj hlen) h.2]
      exact congrArg (· :: s) h.1.symm

theorem ctEqHex_iff (expected sig : Bytes) : ctEqHex expected sig = true ↔ expected = sig := by
  rw [ctEqHex, beq_iff_eq, byte_or_eq_zero, foldl_diff_eq_zero]
  constructor
  · rintro ⟨⟨-, hzip⟩, hlen⟩
    split_ifs at hlen with h
    · exact eq_of_zip h hzip
    · cases hlen
  · rintro rfl
    refine ⟨⟨rfl, fun p hp => ?_⟩, by simp⟩
    rw [zip_eq_zipWith, zipWith_self] at hp
    obtain ⟨x, -, rfl⟩ := mem_map.mp hp
    rfl

/-! ## Runs -/

variable {hmac : Hmac} {now c : ℕ} {r : SignedRequest} {seen : Seen}

/-- What is left of the map when a request is verified. -/
def pruned (now : ℕ) (seen : Seen) : Seen := seen.retain fun _ t => age now t ≤ replayWindowSecs

theorem lookup_pruned (sig : Bytes) : (pruned now seen).lookup sig =
    (seen.lookup sig).filter fun t => age now t ≤ replayWindowSecs :=
  lookup_retain _ _ _

/-- What a request that is accepted meets, and what it leaves if the map is not full. -/
theorem hmacVerifyWithTs_accepted (h : (hmacVerifyWithTs hmac now r seen).1 = true) :
    age now r.ts ≤ replayWindowSecs ∧
      r.sig = hmacSign hmac r.key r.method r.path r.ts r.body ∧ r.sig ∉ pruned now seen ∧
      ((pruned now seen).entries.length < replayCacheCap →
        (hmacVerifyWithTs hmac now r seen).2 = (pruned now seen).insert r.sig r.ts) := by
  rw [hmacVerifyWithTs] at h ⊢
  by_cases hage : age now r.ts > replayWindowSecs
  · rw [if_pos hage] at h
    cases h
  rw [if_neg hage] at h ⊢
  by_cases hct : ctEqHex (hmacSign hmac r.key r.method r.path r.ts r.body) r.sig = true
  · rw [hct] at h ⊢
    have hsig := (ctEqHex_iff _ _).mp hct
    rw [replayCheckAndRecord, ← pruned] at h
    have hnot : r.sig ∉ pruned now seen := by
      intro hmem
      rw [if_pos hmem] at h
      cases h
    refine ⟨Nat.not_lt.mp hage, hsig.symm, hnot, fun hroom => ?_⟩
    show (replayCheckAndRecord r.sig r.ts now seen).2 = _
    rw [replayCheckAndRecord, ← pruned, if_neg hnot]
    rw [if_neg (Nat.not_le.mpr hroom)]
  · rw [Bool.not_eq_true] at hct
    rw [hct] at h
    cases h

/-- A request that is not accepted leaves the map as it is, or pruned. -/
theorem hmacVerifyWithTs_rejected (h : (hmacVerifyWithTs hmac now r seen).1 = false) :
    (hmacVerifyWithTs hmac now r seen).2 = seen ∨
      (hmacVerifyWithTs hmac now r seen).2 = pruned now seen := by
  rw [hmacVerifyWithTs] at h ⊢
  split_ifs at h ⊢
  · exact Or.inl rfl
  · exact Or.inl rfl
  · rw [replayCheckAndRecord] at h ⊢
    split_ifs at h ⊢
    exact Or.inr rfl

/-- The map holds the accepted requests whose timestamps can still be in the window at `c` or
later, and nothing that was not accepted. -/
structure Remembers (c : ℕ) (done : List (ℕ × SignedRequest)) (seen : Seen) : Prop where
  kept : ∀ a ∈ done, c ≤ a.2.ts + replayWindowSecs → seen.lookup a.2.sig = some a.2.ts
  early : ∀ a ∈ done, a.2.ts ≤ c + replayWindowSecs
  source : ∀ sig ts, seen.lookup sig = some ts → ∃ a ∈ done, a.2.sig = sig ∧ a.2.ts = ts

variable {done : List (ℕ × SignedRequest)}

theorem age_le_iff {now ts : ℕ} : age now ts ≤ replayWindowSecs ↔
    now ≤ ts + replayWindowSecs ∧ ts ≤ now + replayWindowSecs := by
  rw [age]
  split_ifs <;> omega

theorem Remembers.later (h : Remembers c done seen) (hnow : c ≤ now) : Remembers now done seen where
  kept := fun a ha hle => h.kept a ha (by omega)
  early := fun a ha => by
    have := h.early a ha
    omega
  source := h.source

section

variable (h : Remembers now done seen)
include h

theorem Remembers.pruned : Remembers now done (pruned now seen) where
  kept := fun a ha hle => by
    rw [lookup_pruned, h.kept a ha hle, Option.filter_some, if_pos]
    exact decide_eq_true (age_le_iff.mpr ⟨hle, h.early a ha⟩)
  early := h.early
  source := fun sig ts hlookup => by
    rw [lookup_pruned] at hlookup
    exact h.source sig ts (Option.filter_eq_some_iff.mp hlookup).1

/-- The map is no larger than the accepted requests within the window. -/
theorem Remembers.length_le :
    (Sync.pruned now seen).entries.length ≤
      (done.filter fun a => age now a.2.ts ≤ replayWindowSecs).length := by
  have hsub : (Sync.pruned now seen).keys ⊆
      (done.filter fun a => age now a.2.ts ≤ replayWindowSecs).map fun a => a.2.sig := by
    intro sig hsig
    obtain ⟨ts, hts⟩ := mem_iff_lookup.mp (AList.mem_keys.mpr hsig)
    rw [lookup_pruned] at hts
    obtain ⟨hlookup, hage⟩ := Option.filter_eq_some_iff.mp hts
    obtain ⟨a, ha, hasig, hats⟩ := h.source sig ts hlookup
    exact mem_map.mpr ⟨a, mem_filter.mpr ⟨ha, hats ▸ hage⟩, hasig⟩
  have hlen := ((Sync.pruned now seen).keys_nodup.subperm hsub).length_le
  rw [length_map] at hlen
  have hkeys : (Sync.pruned now seen).keys.length = (Sync.pruned now seen).entries.length :=
    length_map _
  omega

theorem Remembers.insert (hage : age now r.ts ≤ replayWindowSecs)
    (hnot : r.sig ∉ seen) : Remembers now (done ++ [(now, r)]) (seen.insert r.sig r.ts) where
  kept := fun a ha hle => by
    rw [lookup_insert_eq]
    rcases mem_append.mp ha with ha | ha
    · have hold := h.kept a ha hle
      rw [if_neg fun heq => hnot (mem_iff_lookup.mpr ⟨_, heq ▸ hold⟩)]
      exact hold
    · rw [mem_singleton.mp ha, if_pos rfl]
  early := fun a ha => by
    rcases mem_append.mp ha with ha | ha
    · exact h.early a ha
    · rw [mem_singleton.mp ha]
      exact (age_le_iff.mp hage).2
  source := fun sig ts hlookup => by
    rw [lookup_insert_eq] at hlookup
    split_ifs at hlookup with heq
    · exact ⟨(now, r), by simp, heq.symm, Option.some.inj hlookup⟩
    · obtain ⟨a, ha, hrest⟩ := h.source sig ts hlookup
      exact ⟨a, mem_append_left _ ha, hrest⟩

end

/-- The timestamp and the signature of a request. -/
def stamp (a : ℕ × SignedRequest) : ℕ × Bytes := (a.2.ts, a.2.sig)

/-- Fewer accepted requests than the map holds have, at any time, timestamps within the window. -/
def Bounded (as : List (ℕ × SignedRequest)) : Prop :=
  ∀ now, (as.filter fun a => age now a.2.ts ≤ replayWindowSecs).length < replayCacheCap

theorem nodup_accepted {run : List (ℕ × SignedRequest)} (h : Remembers c done seen)
    (hclock : (c :: run.map Prod.fst).Pairwise (· ≤ ·))
    (hbound : Bounded (done ++ accepted hmac seen run)) (hdone : (done.map stamp).Nodup) :
    ((done ++ accepted hmac seen run).map stamp).Nodup := by
  induction run generalizing c done seen with
  | nil => simpa [accepted] using hdone
  | cons a run ih =>
    obtain ⟨hfirst, hclock⟩ := pairwise_cons.mp hclock
    have hnow := h.later (hfirst a.1 mem_cons_self)
    rw [accepted] at hbound ⊢
    cases hok : (hmacVerifyWithTs hmac a.1 a.2 seen).1 with
    | false =>
      simp only [hok] at hbound ⊢
      apply ih _ hclock hbound hdone
      rcases hmacVerifyWithTs_rejected hok with hseen | hseen
      · rw [hseen]
        exact hnow
      · rw [hseen]
        exact hnow.pruned
    | true =>
      simp only [hok, if_true] at hbound ⊢
      obtain ⟨hage, -, hnot, hinsert⟩ := hmacVerifyWithTs_accepted hok
      -- the map has room, so that nothing is evicted
      have hroom : (pruned a.1 seen).entries.length < replayCacheCap := by
        have hle := hnow.length_le
        have hlt := hbound a.1
        rw [filter_append, length_append] at hlt
        omega
      have hnew : stamp a ∉ done.map stamp := by
        intro hmem
        obtain ⟨b, hb, heq⟩ := mem_map.mp hmem
        obtain ⟨hts, hsig⟩ := Prod.ext_iff.mp heq
        replace hts : b.2.ts = a.2.ts := hts
        replace hsig : b.2.sig = a.2.sig := hsig
        have hkept := hnow.pruned.kept b hb (by
          rw [hts]
          exact (age_le_iff.mp hage).1)
        rw [hsig] at hkept
        exact hnot (mem_iff_lookup.mpr ⟨_, hkept⟩)
      have hseen := hinsert hroom
      have hnext := hnow.pruned.insert hage hnot
      rw [← hseen] at hnext
      rw [append_cons] at hbound ⊢
      apply ih hnext hclock hbound
      rw [map_append, nodup_append]
      refine ⟨hdone, nodup_singleton _, fun x hx y hy heq => hnew ?_⟩
      rw [← mem_singleton.mp hy, ← heq]
      exact hx

theorem mem_accepted {run : List (ℕ × SignedRequest)} {a : ℕ × SignedRequest}
    (h : a ∈ accepted hmac seen run) : age a.1 a.2.ts ≤ replayWindowSecs ∧
      a.2.sig = hmacSign hmac a.2.key a.2.method a.2.path a.2.ts a.2.body := by
  induction run generalizing seen with
  | nil => cases h
  | cons b run ih =>
    rw [accepted] at h
    cases hok : (hmacVerifyWithTs hmac b.1 b.2 seen).1 with
    | false =>
      simp only [hok] at h
      exact ih h
    | true =>
      simp only [hok] at h
      rcases mem_cons.mp h with rfl | h
      · exact ⟨(hmacVerifyWithTs_accepted hok).1, (hmacVerifyWithTs_accepted hok).2.1⟩
      · exact ih h

/-- **The sync channel accepts a timestamp and signature once, only within the window, and only
with a MAC over method, path, timestamp and body, which what is signed determines.** -/
theorem accepted_once (hmac : Hmac) (run : List (ℕ × SignedRequest)) :
    ((run.map Prod.fst).Pairwise (· ≤ ·) → Bounded (accepted hmac ∅ run) →
      ((accepted hmac ∅ run).map stamp).Nodup) ∧
    (∀ a ∈ accepted hmac ∅ run, age a.1 a.2.ts ≤ replayWindowSecs ∧
      a.2.sig = hmacSign hmac a.2.key a.2.method a.2.path a.2.ts a.2.body) ∧
    ∀ (m m' p p' b b' : Bytes) (t t' : ℕ), (10 : Byte) ∉ m → (10 : Byte) ∉ m' → (10 : Byte) ∉ p →
      (10 : Byte) ∉ p' → message m p t b = message m' p' t' b' →
        m = m' ∧ p = p' ∧ t = t' ∧ b = b' := by
  refine ⟨fun hclock hbound => ?_, fun a ha => mem_accepted ha, ?_⟩
  · have hempty : Remembers 0 [] ∅ :=
      ⟨fun a ha => (by cases ha), fun a ha => (by cases ha), fun sig ts h => (by cases h)⟩
    have hzero : (0 :: run.map Prod.fst).Pairwise (· ≤ ·) :=
      pairwise_cons.mpr ⟨fun _ _ => Nat.zero_le _, hclock⟩
    exact nodup_accepted hempty hzero hbound nodup_nil
  · intro m m' p p' b b' t t' hm hm' hp hp' h
    exact message_injective hm hm' hp hp' h

/-- A MAC that is the end of the message, in hexadecimal digits. -/
def tailHmac : Hmac := ⟨fun _ m => m.drop 8, Store.lowerHex⟩

/-- A request that is sent twice: the first one is accepted. -/
theorem accepted_once_twice :
    let r : SignedRequest := ⟨[], [80], [47], 100, [1], ascii (Store.lowerHex [1])⟩
    accepted tailHmac ∅ [(100, r), (101, r)] = [(100, r)] ∧
      ([(100, r)].map stamp).Nodup := by
  intro r
  have hone : accepted tailHmac ∅ [(100, r), (101, r)] = [(100, r)] := by decide +kernel
  refine ⟨hone, ?_⟩
  have hbound : Bounded (accepted tailHmac ∅ [(100, r), (101, r)]) := by
    intro now
    refine lt_of_le_of_lt (length_filter_le _ _) ?_
    decide
  have h := (accepted_once tailHmac [(100, r), (101, r)]).1 (by decide) hbound
  rwa [hone] at h

end Runbound.Sync
