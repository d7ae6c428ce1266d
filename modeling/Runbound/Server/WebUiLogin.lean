import Runbound.Lib.Cell

/-!
# Logins of the web interface (`webui/mod.rs`)

`handle_login` counts the logins of an address in one table before it checks the credentials, and
in another one after a check that failed. The first lets five in a minute through, so that the
second never counts ten in five seconds: by `banned_iff` a burst of wrong logins leads to a ban
only by a honeypot field.
-/

namespace Runbound.Server

open Lib List

/-- The rules for which `handle_login` calls `ban_bot`. -/
inductive BotRule where
  | honeypot
  | burst
  deriving DecidableEq

/-- What the two tables have for one address, a count and since when. The time is in nanoseconds.
    The cleanup task drops entries that are older than their windows. -/
structure LoginLimits where
  now : ℕ := 0
  loginRl : Option (ℕ × ℕ) := none
  burstTracker : Option (ℕ × ℕ) := none

/-- The limit of five logins in a minute: the entry, and whether the request passes. -/
def loginRate (now : ℕ) (entry : Option (ℕ × ℕ)) : (ℕ × ℕ) × Bool :=
  let e := entry.getD (0, now)
  let e := if (now - e.2) / 1000000000 ≥ 60 then (0, now) else e
  if e.1 ≥ 5 then (e, false) else ((e.1 + 1, e.2), true)

/-- `track_bad_request`: the entry, and whether the threshold is reached. -/
def trackBadRequest (now : ℕ) (entry : Option (ℕ × ℕ)) : (ℕ × ℕ) × Bool :=
  let e := entry.getD (0, now)
  if now - e.2 > 5000000000 then ((1, now), false) else ((e.1 + 1, e.2), 10 ≤ e.1 + 1)

/-- A login with wrong credentials: the time since the one before, and whether a honeypot field is
    filled. -/
structure WrongLogin where
  delay : ℕ
  filled : Bool

/-- `handle_login` for wrong credentials: the tables, and the call of `ban_bot`. -/
def handleLogin (botHoneypotEnabled : Bool) (s : LoginLimits) (r : WrongLogin) :
    LoginLimits × Option BotRule :=
  let now := s.now + r.delay
  let rate := loginRate now s.loginRl
  let s := { s with now := now, loginRl := some rate.1 }
  if !rate.2 then (s, none)
  else if botHoneypotEnabled && r.filled then (s, some .honeypot)
  else
    let bad := trackBadRequest now s.burstTracker
    ({ s with burstTracker := some bad.1 }, if bad.2 then some .burst else none)

/-- The minute of the login table began at `w` with the first of `c` logins, the window of the burst
    table at `t` with the first of `b`. A burst that began in the minute before had at most four
    logins there, since the first of that minute is too long ago. -/
def Fits (now c w b t : ℕ) : Prop :=
  t ≤ now ∧ t < w + 60000000000 ∧
    (now ≤ t + 5000000000 → b ≤ c + 4 ∧ (w ≤ t → b ≤ c) ∧ (w < t → b < c))

/-- What the tables have for an address fits together. -/
structure LoginLimits.Sound (s : LoginLimits) : Prop where
  login : ∀ e ∈ s.loginRl, 1 ≤ e.1 ∧ e.1 ≤ 5 ∧ e.2 ≤ s.now
  burst : ∀ e ∈ s.burstTracker, ∃ l ∈ s.loginRl, Fits s.now l.1 l.2 e.1 e.2

/-- A request that passes the limit of the minute and fills a honeypot field. -/
def Trapped (botHoneypotEnabled : Bool) (s : LoginLimits) (r : WrongLogin) : Prop :=
  (loginRate (s.now + r.delay) s.loginRl).2 = true ∧ botHoneypotEnabled = true ∧ r.filled = true

variable {hp : Bool} {s : LoginLimits} {now : ℕ}

/-- Counting a login keeps the tables fitting; after one that passes, with a failure more too. -/
theorem LoginLimits.Sound.rate (h : s.Sound) (hnow : s.now ≤ now) {l : ℕ × ℕ} {pass : Bool}
    (hrate : loginRate now s.loginRl = (l, pass)) :
    (1 ≤ l.1 ∧ l.1 ≤ 5 ∧ l.2 ≤ now) ∧ Fits now l.1 l.2 1 now ∧
      ∀ e ∈ s.burstTracker, Fits now l.1 l.2 e.1 e.2 ∧
        (pass = true → now ≤ e.2 + 5000000000 → Fits now l.1 l.2 (e.1 + 1) e.2) := by
  obtain ⟨hlogin, hburst⟩ := h
  unfold Fits at hburst ⊢
  cases hl : s.loginRl with
  | none =>
    simp [hl, loginRate] at hrate hburst
    obtain ⟨rfl, -⟩ := hrate
    exact ⟨by simp, by simp, fun e he => absurd he (hburst e.1 e.2)⟩
  | some e =>
    have hle := hlogin e hl
    have hfits : ∀ b ∈ s.burstTracker, _ := fun b hb => by simpa [hl] using hburst b hb
    simp only [hl, loginRate, Option.getD_some] at hrate
    split_ifs at hrate with hold hfull hfull <;> cases hrate
    · cases hfull
    · exact ⟨by omega, by omega, fun b hb => by have := hfits b hb; omega⟩
    · refine ⟨by omega, by omega, fun b hb => ⟨?_, fun hpass => by cases hpass⟩⟩
      have := hfits b hb
      omega
    · exact ⟨by omega, by omega, fun b hb => by have := hfits b hb; omega⟩

/-- The threshold of ten is never reached: only a honeypot field leads to a call. -/
theorem LoginLimits.Sound.step (h : s.Sound) (r : WrongLogin) :
    (handleLogin hp s r).1.Sound ∧ ((handleLogin hp s r).2 = none ↔ ¬ Trapped hp s r) := by
  unfold handleLogin Trapped
  generalize hnow : s.now + r.delay = now
  obtain ⟨⟨l, pass⟩, hrate⟩ : ∃ rate, loginRate now s.loginRl = rate := ⟨_, rfl⟩
  obtain ⟨hl, hfirst, hmore⟩ := h.rate (by omega) hrate
  have hlogin : ∀ e ∈ some l, 1 ≤ e.1 ∧ e.1 ≤ 5 ∧ e.2 ≤ now := by
    rintro _ ⟨⟩
    exact hl
  simp only [hrate]
  cases pass with
  | false => exact ⟨⟨hlogin, fun b hb => ⟨l, rfl, (hmore b hb).1⟩⟩, by simp⟩
  | true =>
    cases htrap : hp && r.filled with
    | true =>
      refine ⟨⟨hlogin, fun b hb => ⟨l, rfl, (hmore b hb).1⟩⟩, ?_⟩
      simpa using Bool.and_eq_true_iff.mp htrap
    | false =>
      have hfits : Fits now l.1 l.2 (trackBadRequest now s.burstTracker).1.1
          (trackBadRequest now s.burstTracker).1.2 ∧
          (trackBadRequest now s.burstTracker).2 = false := by
        cases hb : s.burstTracker with
        | none => simpa [trackBadRequest] using hfirst
        | some b =>
          by_cases hold : now - b.2 > 5000000000
          · simpa [trackBadRequest, hold] using hfirst
          · have hnext := (hmore b hb).2 rfl (by omega)
            have hten := hnext.2.2 (by omega)
            simp only [trackBadRequest, Option.getD_some, if_neg hold]
            exact ⟨hnext, decide_eq_false (by omega)⟩
      refine ⟨⟨hlogin, ?_⟩, ?_⟩
      · rintro _ ⟨⟩
        exact ⟨l, rfl, hfits.1⟩
      · simpa [hfits.2] using htrap

/-- The last ten of the requests came within five seconds. -/
def EndsInBurst (reqs : List WrongLogin) : Prop :=
  ∃ before r burst, reqs = before ++ r :: burst ∧ burst.length = 9 ∧
    (burst.map WrongLogin.delay).sum ≤ 5000000000

/-- None of the requests leads to a call of `ban_bot`. -/
def Unbanned (botHoneypotEnabled : Bool) (reqs : List WrongLogin) : Prop :=
  Each (fun s r => (handleLogin botHoneypotEnabled s r).1)
    (fun s r => (handleLogin botHoneypotEnabled s r).2 = none) {} reqs

/-- A burst has led to a ban by its end exactly if a honeypot field of a request that passed the
    limit of the minute was filled: the limit lets at most nine of ten requests through. -/
theorem banned_iff (botHoneypotEnabled : Bool) (reqs : List WrongLogin) :
    (∀ l, l <+: reqs → EndsInBurst l → ¬ Unbanned botHoneypotEnabled l) ↔
      ∀ l, l <+: reqs → EndsInBurst l →
        ¬ Each (fun s r => (handleLogin botHoneypotEnabled s r).1)
          (fun s r => ¬ Trapped botHoneypotEnabled s r) {} l := by
  have hinit : LoginLimits.Sound {} := ⟨by simp, by simp⟩
  refine forall₃_congr fun l _ _ => not_congr ?_
  exact each_iff_each (fun s r hs => (hs.step r).2) (fun s r hs _ => (hs.step r).1) l hinit

theorem guesses_unbanned :
    EndsInBurst (replicate 10 ⟨0, false⟩) ∧ Unbanned true (replicate 10 ⟨0, false⟩) :=
  ⟨⟨[], _, replicate 9 ⟨0, false⟩, rfl, rfl, by decide⟩,
    rfl, rfl, rfl, rfl, rfl, rfl, rfl, rfl, rfl, rfl, trivial⟩

end Runbound.Server
