import Runbound.Lib.Cell
import Runbound.Lib.Map
import Runbound.Lib.Text

/-!
# Sessions of the web interface (`webui/mod.rs`)

`handle_login` checks the credentials under their lock and enters the session later;
`change_password` replaces the credentials and then clears the sessions. The handlers run at the same
time, so any other step can come between the two of one.

* `revoked_iff`: no session that is accepted after a change comes from a check before it, exactly if
  no login enters its session after a change has completed that replaced what it was checked against.

Credentials have a version, the number of replacements so far. It is there for the statement only.
-/

namespace Runbound.Server

open Lib Map

/-- `WebUiCred`. -/
structure WebUiCred where
  username : Text
  hash : Text
  deriving DecidableEq

/-- A session: its end, and the version of the credentials that were checked. -/
structure Session where
  expires : ℕ
  version : ℕ
  deriving DecidableEq

/-- `WebUiState`, with the handlers that stand between their two steps: a login that was checked
    against a version, and a change that has made one. `completed` is the last version whose change
    has completed. -/
structure WebUiState where
  now : ℕ := 0
  creds : WebUiCred
  version : ℕ := 0
  sessions : Map Text Session := ∅
  logins : ℕ → Option ℕ := fun _ => none
  changes : ℕ → Option ℕ := fun _ => none
  completed : ℕ := 0

/-- `SESSION_TTL`, in seconds. -/
def sessionTtl : ℕ := 8 * 3600

/-- `is_authenticated` (line 246). -/
def WebUiState.isAuthenticated (s : WebUiState) (token : Text) : Bool :=
  (s.sessions.lookup token).any (s.now < ·.expires)

/-- A step of a handler. -/
inductive WebUiAct where
  | wait (secs : ℕ)
  | check (login : ℕ) (user pass : Text)
  | enter (login : ℕ) (token : Text)
  | replace (change : ℕ) (creds : WebUiCred)
  | clear (change : ℕ)
  | remove (token : Text)

/-- The steps of `handle_login` (lines 546-576), of `change_password` (lines 684-689) and of what
    takes a session out. `verify` is the check of a password against a hash. -/
def WebUiState.step (verify : Text → Text → Bool) (s : WebUiState) : WebUiAct → WebUiState
  | .wait secs => { s with now := s.now + secs }
  | .check i user pass =>
    if s.creds.username == user && verify s.creds.hash pass then
      { s with logins := Function.update s.logins i (some s.version) }
    else s
  | .enter i token =>
    match s.logins i with
    | none => s
    | some v =>
      { s with
        sessions := (s.sessions.retain fun _ e => s.now < e.expires).insert token
          ⟨s.now + sessionTtl, v⟩
        logins := Function.update s.logins i none }
  | .replace j creds =>
    { s with
      creds := creds
      version := s.version + 1
      changes := Function.update s.changes j (some (s.version + 1)) }
  | .clear j =>
    match s.changes j with
    | none => s
    | some v =>
      { s with
        sessions := ∅
        changes := Function.update s.changes j none
        completed := max s.completed v }
  | .remove token => { s with sessions := s.sessions.erase token }

/-- Every session that is accepted was checked against credentials at least as new as those of the
    last change that has completed. -/
def WebUiState.Revoked (s : WebUiState) : Prop :=
  ∀ token e, s.sessions.lookup token = some e → s.now < e.expires → s.completed ≤ e.version

/-- The step does not enter the session of a login whose check is older than that. -/
def WebUiState.Timely (s : WebUiState) : WebUiAct → Prop
  | .enter i _ => ∀ v, s.logins i = some v → s.completed ≤ v
  | _ => True

theorem WebUiState.revoked_step_iff (verify : Text → Text → Bool) {s : WebUiState} (h : s.Revoked)
    (act : WebUiAct) : (s.step verify act).Revoked ↔ s.Timely act := by
  cases act with
  | wait secs =>
    refine iff_of_true (fun token e he hlt => h token e he ?_) trivial
    exact lt_of_le_of_lt (Nat.le_add_right _ _) hlt
  | check i user pass =>
    refine iff_of_true ?_ trivial
    simp only [step]
    split_ifs <;> exact h
  | enter i token =>
    simp only [Timely, step]
    cases hi : s.logins i with
    | none => exact iff_of_true h (by simp)
    | some v =>
      simp only [Option.some.injEq, forall_eq']
      constructor
      · intro hrev
        exact hrev token ⟨_, v⟩ (AList.lookup_insert _) (Nat.lt_add_of_pos_right (by decide))
      · intro ht
        refine forall_lookup_insert (fun k e he => ?_) fun _ => ht
        rw [lookup_retain, Option.filter_eq_some_iff] at he
        exact h k e he.1
  | replace j creds => exact iff_of_true h trivial
  | clear j =>
    refine iff_of_true ?_ trivial
    simp only [step]
    cases s.changes j with
    | none => exact h
    | some v =>
      intro token e he
      simp at he
  | remove token => exact iff_of_true (forall_lookup_erase h token) trivial

/-- From the start on, a completed change leaves no session of older credentials exactly if no login
    enters its session after a change that came between its two steps. -/
theorem WebUiState.revoked_iff (verify : Text → Text → Bool) (creds : WebUiCred)
    (acts : List WebUiAct) :
    Always (step verify) Revoked { creds } acts ↔ Each (step verify) Timely { creds } acts := by
  refine always_iff_each (fun s act hs => s.revoked_step_iff verify hs act) acts ?_
  intro token e he
  simp at he

/-- The credentials are changed between the two steps of a login. -/
def changedBetween : List WebUiAct :=
  [.check 0 ['a'] ['b'], .replace 1 ⟨['a'], ['c']⟩, .clear 1, .enter 0 ['t']]

theorem WebUiState.stale_accepted :
    let s := changedBetween.foldl (step fun hash pass => hash == pass) { creds := ⟨['a'], ['b']⟩ }
    s.isAuthenticated ['t'] = true ∧ ¬ s.Revoked := by
  refine ⟨by decide +kernel, fun h => ?_⟩
  have hold := h ['t'] ⟨sessionTtl, 0⟩ (by decide +kernel) (by decide +kernel)
  exact absurd hold (by decide +kernel)

end Runbound.Server
