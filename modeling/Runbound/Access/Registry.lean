import Runbound.Lib.Map
import Runbound.Lib.Text

/-!
# The API key registry

Model of `UserRegistry` in `multiuser/mod.rs` (lines 120–301): two maps in memory, by id and by
key, and the file `users.json`. At the start the registry is loaded from the file and the keys of
the `api-key-extra` blocks are injected (`main.rs`, lines 1618–1630).

The ids and keys that `Uuid::new_v4` gives, and whether a write of the file succeeds, are inputs
of each operation. Beside the registry, `World` has what should be true: the key of every user
that was created and not deleted (`accounts`), and the static keys that are configured
(`configured`).

Results:
* `Consistent`: the registry answers for exactly the keys of `accounts` and `configured`, and the
  file has the users of `accounts` and nothing else. Each operation keeps it under its own
  condition (`consistent_create`, `consistent_delete`, `consistent_rotate`, `consistent_inject`,
  `consistent_reload`, `consistent_restart`).
* `authenticates_of_orderly`: so does every sequence of operations.

**Deviation.** The injected accounts stand in the same map as the users, and every change of a
user writes the whole map to the file. A static key is then a user of the file, and still
authenticates after it was taken out of the configuration (`static_key_survives`). Reading the
file again drops the static keys that are configured.
-/

namespace Runbound.Access

open Lib List Map AList

/-- `Role` (multiuser/mod.rs:28-38). -/
inductive Role where
  | read
  | dns
  | operator
  | admin
  deriving DecidableEq

/-- `UserAccount` (multiuser/mod.rs:64-81). -/
structure UserAccount where
  id : Text
  username : Text
  apiKey : Text
  zonePrefixes : List Text
  enabled : Bool
  admin : Bool
  role : Role
  deriving DecidableEq

/-- `UserRegistry` (multiuser/mod.rs:119-123), with the content of the file at its path. -/
structure UserRegistry where
  file : Option (List UserAccount)
  byId : Map Text UserAccount
  byKey : Map Text UserAccount

/-- The trailing dot of a zone prefix (multiuser/mod.rs:147, 230). -/
def withDot (zone : Text) : Text := if zone.getLast? = some '.' then zone else zone ++ ['.']

/-- An account as it is loaded (multiuser/mod.rs:146-148). -/
def normalised (u : UserAccount) : UserAccount :=
  { u with zonePrefixes := u.zonePrefixes.map withDot }

section

variable (reg : UserRegistry)

/-- `reload_from_disk` (multiuser/mod.rs:136-154), and `reload` (156-158). -/
def UserRegistry.reloadFromDisk : UserRegistry :=
  let users := (reg.file.getD []).map normalised
  { reg with
    byId := Map.insertAll (users.map fun u => (u.id, u)) ∅
    byKey := Map.insertAll (users.map fun u => (u.apiKey, u)) ∅ }

/-- `by_api_key` (multiuser/mod.rs:160-172). The scan finds the one entry that has the key. -/
def UserRegistry.byApiKey (key : Text) : Option UserAccount := reg.byKey.lookup key

/-- `current_store` (multiuser/mod.rs:211-216). -/
def UserRegistry.currentStore : List UserAccount := reg.byId.entries.map fun e => e.2

/-- `save_store` (multiuser/mod.rs:186-209): the file has the new content if the write succeeds. -/
def UserRegistry.saveStore (users : List UserAccount) (saved : Bool) : UserRegistry :=
  { reg with file := if saved then some users else reg.file }

end

/-- The account `create_user` makes (multiuser/mod.rs:229-241). -/
def newUser (username : Text) (zonePrefixes : List Text) (admin : Bool) (role : Role)
    (id key : Text) : UserAccount :=
  { id := id
    username := username
    apiKey := key
    zonePrefixes := zonePrefixes.map withDot
    enabled := true
    admin := admin
    role := role }

/-- An account under its id and under its key (multiuser/mod.rs:243-244, 267-268). -/
def UserRegistry.insert (reg : UserRegistry) (u : UserAccount) : UserRegistry :=
  { reg with byId := reg.byId.insert u.id u, byKey := reg.byKey.insert u.apiKey u }

/-- The username is taken (multiuser/mod.rs:226). -/
def UserRegistry.taken (reg : UserRegistry) (username : Text) : Bool :=
  reg.currentStore.any fun u => u.username == username

/-- `create_user` (multiuser/mod.rs:218-252), from the account that is made for the request: the
registry, and whether it answers `Ok`. -/
def UserRegistry.createUser (reg : UserRegistry) (u : UserAccount) (saved : Bool) :
    UserRegistry × Bool :=
  if reg.taken u.username then (reg, false)
  else
    let reg := reg.insert u
    (reg.saveStore reg.currentStore saved, saved)

/-- The account of an `api-key-extra` block (multiuser/mod.rs:258-266). -/
def staticUser (label key : Text) (role : Role) : UserAccount :=
  { id := "static:".toList ++ label
    username := label
    apiKey := key
    zonePrefixes := []
    enabled := true
    admin := decide (role = .admin)
    role := role }

/-- `inject_static_key` (multiuser/mod.rs:257-269). -/
def UserRegistry.injectStaticKey (reg : UserRegistry) (label key : Text) (role : Role) :
    UserRegistry :=
  reg.insert (staticUser label key role)

/-- `delete_user` (multiuser/mod.rs:270-277). -/
def UserRegistry.deleteUser (reg : UserRegistry) (id : Text) (saved : Bool) : UserRegistry :=
  match reg.byId.lookup id with
  | none => reg
  | some u =>
    let reg := { reg with byId := reg.byId.erase id, byKey := reg.byKey.erase u.apiKey }
    reg.saveStore (reg.currentStore.filter fun u => u.id != id) saved

/-- `rotate_key` (multiuser/mod.rs:279-301). -/
def UserRegistry.rotateKey (reg : UserRegistry) (id newKey : Text) (saved : Bool) : UserRegistry :=
  match reg.byId.lookup id with
  | none => reg
  | some u =>
    let reg := { reg with byKey := reg.byKey.erase u.apiKey }.insert { u with apiKey := newKey }
    reg.saveStore (reg.currentStore.map fun v => if v.id = u.id then { v with apiKey := newKey } else v)
      saved

/-- `ExtraApiKey` (config/parser.rs:500-504). -/
structure ExtraApiKey where
  label : Text
  key : Text
  role : Role

/-- The start of the process (main.rs:1620-1629): the file is loaded, and the configured keys are
injected. -/
def UserRegistry.restart (reg : UserRegistry) (extra : List ExtraApiKey) : UserRegistry :=
  (extra.filter fun ek => !ek.key.isEmpty).foldl
    (fun reg ek => reg.injectStaticKey ek.label ek.key ek.role) reg.reloadFromDisk

/-! ## Specification -/

/-- The registry, the keys of the users that exist, and the static keys that are configured. -/
structure World where
  registry : UserRegistry
  accounts : Map Text Text
  configured : List Text

/-- The calls of the API, a configured key, a reload and a start of the process. -/
inductive Op where
  | create (username : Text) (zonePrefixes : List Text) (admin : Bool) (role : Role)
      (id key : Text) (saved : Bool)
  | delete (id : Text) (saved : Bool)
  | rotate (id newKey : Text) (saved : Bool)
  | inject (label key : Text) (role : Role)
  | reload
  | restart (extra : List ExtraApiKey)

/-- One operation. A user exists from an `Ok` of `create_user` until it is deleted. -/
def step (w : World) : Op → World
  | .create username zonePrefixes admin role id key saved =>
    let (registry, ok) :=
      w.registry.createUser (newUser username zonePrefixes admin role id key) saved
    { w with
      registry := registry
      accounts := if ok then w.accounts.insert id key else w.accounts }
  | .delete id saved =>
    { w with registry := w.registry.deleteUser id saved, accounts := w.accounts.erase id }
  | .rotate id newKey saved =>
    { w with
      registry := w.registry.rotateKey id newKey saved
      accounts := if id ∈ w.accounts then w.accounts.insert id newKey else w.accounts }
  | .inject label key role =>
    { w with
      registry := w.registry.injectStaticKey label key role
      configured := w.configured ++ [key] }
  | .reload => { w with registry := w.registry.reloadFromDisk }
  | .restart extra =>
    { w with
      registry := w.registry.restart extra
      configured := (extra.filter fun ek => !ek.key.isEmpty).map ExtraApiKey.key }

/-- Any sequence of operations. -/
def run (w : World) (ops : List Op) : World := ops.foldl step w

/-- A new installation, before the first start. -/
def World.initial : World := ⟨⟨none, ∅, ∅⟩, ∅, []⟩

/-- The key is the key of a user. -/
def HasKey (accounts : Map Text Text) (key : Text) : Prop := ∃ id, accounts.lookup id = some key

/-- A key authenticates exactly when it is the key of a user or a configured static key. -/
def Authenticates (w : World) : Prop :=
  ∀ key, (w.registry.byApiKey key).isSome = true ↔ HasKey w.accounts key ∨ key ∈ w.configured

/-- Everything in the file is a user with its key, and no static account. -/
def OnlyUsersStored (w : World) : Prop :=
  ∀ u ∈ w.registry.file.getD [], w.accounts.lookup u.id = some u.apiKey

/-- The id of an injected account. -/
def isStatic (id : Text) : Bool := "static:".toList.isPrefixOf id

/-- The id and the key that are drawn for a user are new, and the id is none of an injected
account. -/
def Fresh (w : World) (id key : Text) : Prop :=
  id ∉ w.registry.byId ∧ isStatic id = false ∧ key ∉ w.registry.byKey

/-- When an operation is safe: users are only changed while no static key is configured, with
new ids and keys, and with a write of the file that succeeds; the file is only read again while
no static key is configured. -/
def Orderly (w : World) : Op → Prop
  | .create username _ _ _ id key saved => w.registry.taken username = false →
      w.configured = [] ∧ saved = true ∧ Fresh w id key
  | .delete id saved => id ∈ w.registry.byId → w.configured = [] ∧ saved = true
  | .rotate id newKey saved => id ∈ w.registry.byId →
      w.configured = [] ∧ saved = true ∧ newKey ∉ w.registry.byKey
  | .inject _ _ _ => True
  | .reload => w.configured = []
  | .restart _ => True

/-- Every operation of a sequence is safe. -/
def OrderlyRun (w : World) : List Op → Prop
  | [] => True
  | op :: ops => Orderly w op ∧ OrderlyRun (step w op) ops

/-! ## Keys of users -/

/-- No two users have the same key. -/
def Distinct (accounts : Map Text Text) : Prop :=
  ∀ id id' key, accounts.lookup id = some key → accounts.lookup id' = some key → id = id'

variable {accounts : Map Text Text} {id key old : Text}

theorem hasKey_insert (k : Text) :
    HasKey (accounts.insert id key) k ↔ k = key ∨ HasKey (accounts.erase id) k := by
  simp only [HasKey, lookup_insert_iff, lookup_erase_iff, exists_or, exists_eq_left]
  exact or_congr_left eq_comm

theorem hasKey_erase_of_some (hdistinct : Distinct accounts) (h : accounts.lookup id = some old)
    (k : Text) : HasKey (accounts.erase id) k ↔ k ≠ old ∧ HasKey accounts k := by
  simp only [HasKey, lookup_erase_iff]
  constructor
  · rintro ⟨id', hne, hid'⟩
    refine ⟨?_, id', hid'⟩
    rintro rfl
    exact hne (hdistinct id' id k hid' h)
  · rintro ⟨hne, id', hid'⟩
    refine ⟨id', ?_, hid'⟩
    rintro rfl
    exact hne (Option.some.inj (hid'.symm.trans h))

theorem Distinct.erase (h : Distinct accounts) (id : Text) : Distinct (accounts.erase id) := by
  intro id₁ id₂ key h₁ h₂
  exact h id₁ id₂ key (lookup_erase_iff.mp h₁).2 (lookup_erase_iff.mp h₂).2

theorem Distinct.insert (h : Distinct accounts) (hkey : ¬ HasKey accounts key) (id : Text) :
    Distinct (accounts.insert id key) := by
  intro id₁ id₂ key' h₁ h₂
  rw [lookup_insert_iff] at h₁ h₂
  rcases h₁ with ⟨rfl, rfl⟩ | ⟨-, h₁⟩ <;> rcases h₂ with ⟨rfl, hk⟩ | ⟨-, h₂⟩
  · rfl
  · exact absurd ⟨id₂, h₂⟩ hkey
  · exact absurd ⟨id₁, hk ▸ h₁⟩ hkey
  · exact h id₁ id₂ key' h₁ h₂

/-! ## The file and the two maps -/

/-- A list of accounts is what `accounts` says, each once. -/
structure Stored (accounts : Map Text Text) (users : List UserAccount) : Prop where
  distinct : (users.map UserAccount.id).Nodup
  mem_iff : ∀ id key, accounts.lookup id = some key ↔ ∃ u ∈ users, u.id = id ∧ u.apiKey = key

/-- A map by id is what `accounts` says. -/
structure Mirrors (accounts : Map Text Text) (byId : Map Text UserAccount) : Prop where
  id_eq : ∀ id u, byId.lookup id = some u → u.id = id
  key_eq : ∀ id, (byId.lookup id).map UserAccount.apiKey = accounts.lookup id

variable {byId : Map Text UserAccount} {u : UserAccount}

theorem Mirrors.insert (h : Mirrors accounts byId) (u : UserAccount) :
    Mirrors (accounts.insert u.id u.apiKey) (byId.insert u.id u) := by
  refine ⟨forall_lookup_insert h.id_eq rfl, fun id => ?_⟩
  rw [lookup_insert_eq, lookup_insert_eq]
  split_ifs
  · rfl
  · exact h.key_eq id

theorem Mirrors.erase (h : Mirrors accounts byId) (id : Text) :
    Mirrors (accounts.erase id) (byId.erase id) := by
  refine ⟨forall_lookup_erase h.id_eq id, fun id' => ?_⟩
  rw [lookup_erase_eq, lookup_erase_eq]
  split_ifs
  · rfl
  · exact h.key_eq id'

theorem Mirrors.lookup (h : Mirrors accounts byId) (hid : byId.lookup id = some u) :
    accounts.lookup id = some u.apiKey := by
  rw [← h.key_eq, hid, Option.map_some]

variable {reg : UserRegistry}

theorem Mirrors.stored (h : Mirrors accounts reg.byId) : Stored accounts reg.currentStore := by
  have hmem : ∀ u, u ∈ reg.currentStore ↔ reg.byId.lookup u.id = some u := by
    intro u
    rw [UserRegistry.currentStore, mem_map]
    constructor
    · rintro ⟨e, he, rfl⟩
      have hlookup : reg.byId.lookup e.1 = some e.2 := lookup_eq_some_iff.mpr he
      rw [h.id_eq e.1 e.2 hlookup]
      exact hlookup
    · intro hu
      exact ⟨⟨u.id, u⟩, lookup_eq_some_iff.mp hu, rfl⟩
  constructor
  · have hkeys : reg.currentStore.map UserAccount.id = reg.byId.entries.map Sigma.fst := by
      rw [UserRegistry.currentStore, map_map]
      apply map_congr_left
      intro e he
      exact h.id_eq e.1 e.2 (lookup_eq_some_iff.mpr he)
    rw [hkeys]
    exact reg.byId.nodupKeys
  · intro id key
    rw [← h.key_eq, Option.map_eq_some_iff]
    constructor
    · rintro ⟨u, hu, hkey⟩
      have huid := h.id_eq id u hu
      exact ⟨u, (hmem u).mpr (huid.symm ▸ hu), huid, hkey⟩
    · rintro ⟨u, hu, rfl, hkey⟩
      exact ⟨u, (hmem u).mp hu, hkey⟩

theorem mem_loaded {users : List UserAccount} {f : UserAccount → Text} {k : Text}
    (h : (k, u) ∈ (users.map normalised).map fun u => (f u, u)) :
    ∃ v ∈ users, u = normalised v ∧ k = f (normalised v) := by
  obtain ⟨u', hu', heq⟩ := mem_map.mp h
  obtain ⟨v, hv, rfl⟩ := mem_map.mp hu'
  cases heq
  exact ⟨v, hv, rfl, rfl⟩

theorem lookup_loaded {users : List UserAccount} {f : UserAccount → Text} {k : Text}
    (h : (Map.insertAll ((users.map normalised).map fun u => (f u, u)) ∅).lookup k = some u) :
    ∃ v ∈ users, u = normalised v ∧ k = f (normalised v) := by
  rcases lookup_insertAll h with hmem | ⟨-, hnone⟩
  · exact mem_loaded hmem
  · contradiction

theorem byId_reload (h : Stored accounts (reg.file.getD [])) :
    Mirrors accounts reg.reloadFromDisk.byId := by
  constructor
  · intro id u hu
    obtain ⟨v, -, rfl, rfl⟩ := lookup_loaded hu
    rfl
  · intro id
    ext key
    rw [Option.map_eq_some_iff, h.mem_iff]
    constructor
    · rintro ⟨u, hu, rfl⟩
      obtain ⟨v, hv, rfl, rfl⟩ := lookup_loaded hu
      exact ⟨v, hv, rfl, rfl⟩
    · rintro ⟨u, hu, rfl, rfl⟩
      have hentry : ∃ e ∈ ((reg.file.getD []).map normalised).map fun u => (u.id, u), e.1 = u.id :=
        ⟨(u.id, normalised u), mem_map.mpr ⟨normalised u, mem_map_of_mem hu, rfl⟩, rfl⟩
      obtain ⟨v, hv, hmem⟩ := exists_lookup_insertAll (m := ∅) hentry
      obtain ⟨w, hw, rfl, hid⟩ := mem_loaded hmem
      -- ids are distinct in the file, so the entry is that of the same account
      have hwu : w = u := inj_on_of_nodup_map h.distinct hw hu hid.symm
      subst hwu
      exact ⟨normalised w, hv, rfl⟩

theorem byKey_reload (h : Stored accounts (reg.file.getD [])) (key : Text) :
    key ∈ reg.reloadFromDisk.byKey ↔ HasKey accounts key := by
  rw [UserRegistry.reloadFromDisk, mem_insertAll]
  constructor
  · rintro (⟨e, he, rfl⟩ | hempty)
    · obtain ⟨v, hv, -, hkey⟩ := mem_loaded (k := e.1) (u := e.2) he
      exact ⟨v.id, (h.mem_iff v.id e.1).mpr ⟨v, hv, rfl, hkey.symm⟩⟩
    · contradiction
  · rintro ⟨id, hid⟩
    obtain ⟨u, hu, -, rfl⟩ := (h.mem_iff id key).mp hid
    exact Or.inl ⟨(u.apiKey, normalised u), mem_map.mpr ⟨normalised u, mem_map_of_mem hu, rfl⟩, rfl⟩

/-! ## The invariant -/

/-- What every operation keeps. The map by id may have static accounts beside the users. -/
structure Consistent (w : World) : Prop where
  id_eq : ∀ id u, w.registry.byId.lookup id = some u → u.id = id
  users : ∀ id, isStatic id = false →
    (w.registry.byId.lookup id).map UserAccount.apiKey = w.accounts.lookup id
  plain : ∀ id, isStatic id = true → w.accounts.lookup id = none
  clean : w.configured = [] → ∀ id, isStatic id = true → w.registry.byId.lookup id = none
  auth : ∀ key, key ∈ w.registry.byKey ↔ HasKey w.accounts key ∨ key ∈ w.configured
  distinct : Distinct w.accounts
  stored : Stored w.accounts (w.registry.file.getD [])

variable {w : World}

/-- While no static key is configured, the map by id has the users and nothing else. -/
theorem Consistent.mirrors (h : Consistent w) (hconf : w.configured = []) :
    Mirrors w.accounts w.registry.byId := by
  refine ⟨h.id_eq, fun id => ?_⟩
  cases hstatic : isStatic id with
  | false => exact h.users id hstatic
  | true => rw [h.clean hconf id hstatic, h.plain id hstatic, Option.map_none]

theorem Consistent.auth_clean (h : Consistent w) (hconf : w.configured = []) (key : Text) :
    key ∈ w.registry.byKey ↔ HasKey w.accounts key := by
  rw [h.auth, hconf]
  simp

theorem consistent_of_mirrors (hmirrors : Mirrors accounts reg.byId)
    (hplain : ∀ id, isStatic id = true → accounts.lookup id = none)
    (hauth : ∀ key, key ∈ reg.byKey ↔ HasKey accounts key) (hdistinct : Distinct accounts)
    (hstored : Stored accounts (reg.file.getD [])) : Consistent ⟨reg, accounts, []⟩ where
  id_eq := hmirrors.id_eq
  users id _ := hmirrors.key_eq id
  plain := hplain
  clean := by
    intro _ id hstatic
    have hnone := hmirrors.key_eq id
    rw [hplain id hstatic, Option.map_eq_none_iff] at hnone
    exact hnone
  auth key := by simpa using hauth key
  distinct := hdistinct
  stored := hstored

/-! ## The operations -/

theorem lookup_ne_static (hid : isStatic id = false)
    (hplain : ∀ id, isStatic id = true → accounts.lookup id = none) :
    ∀ id', isStatic id' = true → (accounts.insert id key).lookup id' = none := by
  intro id' hstatic
  have hne : id' ≠ id := by
    rintro rfl
    rw [hid] at hstatic
    cases hstatic
  rw [lookup_insert_eq, if_neg hne]
  exact hplain id' hstatic

theorem consistent_create (h : Consistent ⟨reg, accounts, []⟩)
    (hid : u.id ∉ reg.byId) (hstatic : isStatic u.id = false) (hkey : u.apiKey ∉ reg.byKey) :
    Consistent ⟨(reg.insert u).saveStore (reg.insert u).currentStore true,
      accounts.insert u.id u.apiKey, []⟩ := by
  have hmirrors := h.mirrors rfl
  have hnew : accounts.lookup u.id = none := by
    rw [← hmirrors.key_eq, lookup_eq_none.mpr hid, Option.map_none]
  have hnokey : ¬ HasKey accounts u.apiKey := fun hex => hkey ((h.auth_clean rfl _).mpr hex)
  have hmirrors' : Mirrors (accounts.insert u.id u.apiKey) (reg.insert u).byId := hmirrors.insert u
  refine consistent_of_mirrors hmirrors' (lookup_ne_static hstatic h.plain) ?_
    (h.distinct.insert hnokey u.id) hmirrors'.stored
  intro key
  show key ∈ reg.byKey.insert u.apiKey u ↔ _
  rw [mem_insert, hasKey_insert, erase_eq_self hnew]
  exact or_congr_right (h.auth_clean rfl key)

theorem consistent_delete (h : Consistent ⟨reg, accounts, []⟩) (hid : reg.byId.lookup id = some u) :
    Consistent ⟨reg.deleteUser id true, accounts.erase id, []⟩ := by
  have hmirrors := h.mirrors rfl
  let reg' : UserRegistry :=
    { reg with byId := reg.byId.erase id, byKey := reg.byKey.erase u.apiKey }
  have hmirrors' : Mirrors (accounts.erase id) reg'.byId := hmirrors.erase id
  have hstored := hmirrors'.stored
  have hplain : ∀ id', isStatic id' = true → (accounts.erase id).lookup id' = none := by
    intro id' hstatic
    rw [lookup_erase_eq]
    split_ifs
    · rfl
    · exact h.plain id' hstatic
  -- nothing in the map has the deleted id, so `retain` takes nothing away
  have hretain : reg'.currentStore.filter (fun v => v.id != id) = reg'.currentStore := by
    rw [filter_eq_self]
    intro v hv
    have hv' := (hstored.mem_iff v.id v.apiKey).mpr ⟨v, hv, rfl, rfl⟩
    simpa using (lookup_erase_iff.mp hv').1
  have hdelete : reg.deleteUser id true = reg'.saveStore reg'.currentStore true := by
    rw [UserRegistry.deleteUser, hid]
    show reg'.saveStore (reg'.currentStore.filter fun v => v.id != id) true = _
    rw [hretain]
  rw [hdelete]
  refine consistent_of_mirrors hmirrors' hplain ?_ (h.distinct.erase id) hstored
  intro key
  show key ∈ reg.byKey.erase u.apiKey ↔ _
  rw [mem_erase, hasKey_erase_of_some h.distinct (hmirrors.lookup hid)]
  exact and_congr_right fun _ => h.auth_clean rfl key

theorem consistent_rotate {newKey : Text} (h : Consistent ⟨reg, accounts, []⟩)
    (hid : reg.byId.lookup id = some u) (hkey : newKey ∉ reg.byKey) :
    Consistent ⟨reg.rotateKey id newKey true, accounts.insert id newKey, []⟩ := by
  have hmirrors := h.mirrors rfl
  obtain rfl : u.id = id := hmirrors.id_eq id u hid
  have hold := hmirrors.lookup hid
  have hnostatic : isStatic u.id = false := by
    cases hstatic : isStatic u.id with
    | false => rfl
    | true =>
      rw [h.plain u.id hstatic] at hold
      cases hold
  have hnokey : ¬ HasKey accounts newKey := fun hex => hkey ((h.auth_clean rfl _).mpr hex)
  let reg' : UserRegistry :=
    { reg with byKey := reg.byKey.erase u.apiKey }.insert { u with apiKey := newKey }
  have hmirrors' : Mirrors (accounts.insert u.id newKey) reg'.byId :=
    hmirrors.insert { u with apiKey := newKey }
  have hstored := hmirrors'.stored
  -- the entry in the map has the new key already
  have hmap : reg'.currentStore.map
      (fun v => if v.id = u.id then { v with apiKey := newKey } else v) = reg'.currentStore := by
    refine (map_congr_left ?_).trans (map_id _)
    intro v hv
    split_ifs with heq
    · have hv' := (hstored.mem_iff v.id v.apiKey).mpr ⟨v, hv, rfl, rfl⟩
      rw [lookup_insert_eq, if_pos heq] at hv'
      cases hv'
      rfl
    · rfl
  have hrotate : reg.rotateKey u.id newKey true = reg'.saveStore reg'.currentStore true := by
    rw [UserRegistry.rotateKey, hid]
    show reg'.saveStore (reg'.currentStore.map _) true = _
    rw [hmap]
  rw [hrotate]
  refine consistent_of_mirrors hmirrors' (lookup_ne_static hnostatic h.plain) ?_
    (h.distinct.insert hnokey u.id) hstored
  intro key
  show key ∈ (reg.byKey.erase u.apiKey).insert newKey _ ↔ _
  rw [mem_insert, mem_erase, hasKey_insert, hasKey_erase_of_some h.distinct hold]
  exact or_congr_right (and_congr_right fun _ => h.auth_clean rfl key)

theorem consistent_reload (h : Consistent w) :
    Consistent ⟨w.registry.reloadFromDisk, w.accounts, []⟩ :=
  consistent_of_mirrors (byId_reload h.stored) h.plain (byKey_reload h.stored) h.distinct h.stored

theorem consistent_inject {configured : List Text} (h : Consistent ⟨reg, accounts, configured⟩)
    (label key : Text) (role : Role) :
    Consistent ⟨reg.injectStaticKey label key role, accounts, configured ++ [key]⟩ := by
  refine ⟨forall_lookup_insert h.id_eq rfl, ?_, h.plain, ?_, ?_, h.distinct, h.stored⟩
  · intro id hid
    have hne : id ≠ (staticUser label key role).id := by
      rintro rfl
      cases hid
    rw [UserRegistry.injectStaticKey, UserRegistry.insert, lookup_insert_eq, if_neg hne]
    exact h.users id hid
  · simp
  · intro key'
    show key' ∈ reg.byKey.insert key _ ↔ _
    rw [mem_insert, h.auth, mem_append, mem_singleton]
    tauto

theorem consistent_restart (h : Consistent w) (extra : List ExtraApiKey) :
    Consistent (step w (.restart extra)) := by
  have hfold : ∀ (keys : List ExtraApiKey) (reg : UserRegistry) (configured : List Text),
      Consistent ⟨reg, w.accounts, configured⟩ →
        Consistent ⟨keys.foldl (fun reg ek => reg.injectStaticKey ek.label ek.key ek.role) reg,
          w.accounts, configured ++ keys.map ExtraApiKey.key⟩ := by
    intro keys
    induction keys with
    | nil =>
      intro reg configured hreg
      simpa using hreg
    | cons ek keys ih =>
      intro reg configured hreg
      have := ih _ _ (consistent_inject hreg ek.label ek.key ek.role)
      simpa using this
  exact hfold _ _ [] (consistent_reload h)

/-! ## Sequences of operations -/

theorem Consistent.lookup_of_not_mem (h : Consistent w) (hid : id ∉ w.registry.byId) :
    w.accounts.lookup id = none := by
  cases hstatic : isStatic id with
  | true => exact h.plain id hstatic
  | false => rw [← h.users id hstatic, lookup_eq_none.mpr hid, Option.map_none]

theorem consistent_step {op : Op} (h : Consistent w) (hok : Orderly w op) :
    Consistent (step w op) := by
  cases op with
  | create username zonePrefixes admin role id key saved =>
    cases htaken : w.registry.taken username with
    | true =>
      have hsame : step w (.create username zonePrefixes admin role id key saved) = w := by
        simp [step, UserRegistry.createUser, newUser, htaken]
      rw [hsame]
      exact h
    | false =>
      obtain ⟨hconf, rfl, hid, hstatic, hkey⟩ := hok htaken
      obtain ⟨reg, accounts, configured⟩ := w
      subst hconf
      have hcreate := consistent_create (u := newUser username zonePrefixes admin role id key) h
        hid hstatic hkey
      simpa [step, UserRegistry.createUser, newUser, htaken] using hcreate
  | delete id saved =>
    obtain ⟨reg, accounts, configured⟩ := w
    cases hid : reg.byId.lookup id with
    | none =>
      have hnone := h.lookup_of_not_mem (lookup_eq_none.mp hid)
      simpa [step, UserRegistry.deleteUser, hid, erase_eq_self hnone] using h
    | some u =>
      obtain ⟨hconf, rfl⟩ := hok (mem_iff_lookup.mpr ⟨u, hid⟩)
      subst hconf
      exact consistent_delete h hid
  | rotate id newKey saved =>
    obtain ⟨reg, accounts, configured⟩ := w
    cases hid : reg.byId.lookup id with
    | none =>
      have hnone := h.lookup_of_not_mem (lookup_eq_none.mp hid)
      have hmem : id ∉ accounts := lookup_eq_none.mp hnone
      simpa [step, UserRegistry.rotateKey, hid, hmem] using h
    | some u =>
      obtain ⟨hconf, rfl, hkey⟩ := hok (mem_iff_lookup.mpr ⟨u, hid⟩)
      subst hconf
      have hmem : id ∈ accounts := mem_iff_lookup.mpr ⟨_, (h.mirrors rfl).lookup hid⟩
      have hrotate := consistent_rotate h hid hkey
      simpa [step, hmem] using hrotate
  | inject label key role => exact consistent_inject h label key role
  | reload =>
    obtain ⟨reg, accounts, configured⟩ := w
    obtain rfl : configured = [] := hok
    exact consistent_reload h
  | restart extra => exact consistent_restart h extra

theorem consistent_initial : Consistent World.initial := by
  have hnone : ∀ id, (∅ : Map Text Text).lookup id = none := lookup_empty
  refine consistent_of_mirrors ⟨?_, ?_⟩ (fun id _ => hnone id) ?_ ?_ ⟨nodup_nil, ?_⟩
  · simp
  · intro id
    rfl
  · simp [HasKey]
  · simp [Distinct]
  · simp

theorem consistent_run {ops : List Op} (h : Consistent w) (hok : OrderlyRun w ops) :
    Consistent (run w ops) := by
  induction ops generalizing w with
  | nil => exact h
  | cons op ops ih => exact ih (consistent_step h hok.1) hok.2

/-- After every sequence of safe operations a key authenticates exactly when it is the key of a
user or a configured static key, and the file has users only. -/
theorem authenticates_of_orderly {ops : List Op} (hok : OrderlyRun World.initial ops) :
    Authenticates (run World.initial ops) ∧ OnlyUsersStored (run World.initial ops) := by
  have h := consistent_run consistent_initial hok
  constructor
  · intro key
    rw [UserRegistry.byApiKey, lookup_isSome]
    exact h.auth key
  · intro u hu
    exact (h.stored.mem_iff u.id u.apiKey).mpr ⟨u, hu, rfl, rfl⟩

/-! ## Two histories -/

/-- A user is created, the process is started with a static key, then without it, and the user
gets a new key. -/
def orderlyHistory : List Op :=
  [.restart [], .create "eve".toList [] false .dns "1".toList "k1".toList true,
    .restart [⟨"ci".toList, "s".toList, .operator⟩], .restart [],
    .rotate "1".toList "k2".toList true]

theorem authenticates_orderlyHistory :
    Authenticates (run World.initial orderlyHistory) ∧
      OnlyUsersStored (run World.initial orderlyHistory) := by
  have hcreate : Fresh (step World.initial (.restart [])) "1".toList "k1".toList :=
    ⟨notMem_empty _, by decide, notMem_empty _⟩
  have hok : OrderlyRun World.initial orderlyHistory :=
    And.intro trivial <| And.intro (fun _ => ⟨rfl, rfl, hcreate⟩) <| And.intro trivial <|
      And.intro trivial <| And.intro (fun _ => ⟨rfl, rfl, by decide +kernel⟩) trivial
  exact authenticates_of_orderly hok

/-- A static key is configured, a user is created, and the process is started without the static
key. -/
def leakyHistory : List Op :=
  [.restart [⟨"ci".toList, "s".toList, .operator⟩],
    .create "eve".toList [] false .dns "1".toList "k1".toList true, .restart []]

/-- The static key was written to the file, and authenticates although it is not configured. -/
theorem static_key_survives :
    ((run World.initial leakyHistory).registry.byApiKey "s".toList).isSome = true ∧
      (run World.initial leakyHistory).configured = [] ∧
      ¬ HasKey (run World.initial leakyHistory).accounts "s".toList ∧
      ¬ OnlyUsersStored (run World.initial leakyHistory) := by
  have haccounts : (run World.initial leakyHistory).accounts =
      (∅ : Map Text Text).insert "1".toList "k1".toList :=
    AList.ext (by decide +kernel)
  refine ⟨by decide +kernel, rfl, ?_, ?_⟩
  · rintro ⟨id, hid⟩
    rw [haccounts, lookup_insert_eq] at hid
    split_ifs at hid
    · contradiction
    · cases hid
  · intro h
    have hstored : staticUser "ci".toList "s".toList .operator ∈
        (run World.initial leakyHistory).registry.file.getD [] := by decide +kernel
    have huser := h _ hstored
    cases huser

end Runbound.Access
