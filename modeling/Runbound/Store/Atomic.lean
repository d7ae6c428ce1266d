import Runbound.Lib.Files
import Runbound.Lib.Text
import Runbound.Wire.Basic

/-!
# Saving the store

`save` (store.rs) writes the new content beside the store, flushes it and renames it over the
store; `write_mac` (integrity.rs) then does the same for the MAC in a file of its own. `load`
refuses a content that the MAC beside it does not fit. The two renames are two operations, and a
crash between them leaves the new content beside the old MAC.

The serialisation of a store, the HMAC and `hex::encode` are parameters.

* `crashed_save_iff`: after every crash point `load` returns the old store or the new one, exactly
  if the MAC on disk already fits the new content, or there is none and the migration is enabled.
* `torn_save`: two stores with different MACs and a crash between the renames.
-/

namespace Runbound.Store

open Wire Lib Function

/-! ## Model -/

/-- What a file holds: a text, or octets that are not UTF-8. -/
inductive Content
  | text (s : Text)
  | binary
  deriving DecidableEq

/-- `fs::read_to_string` on what is in the file. -/
def Content.readToString : Content → Option Text
  | .text s => some s
  | .binary => none

/-- `store_path()`, its `json.tmp`, its `mac` and its `mac.tmp`. -/
inductive StorePath
  | entries
  | entriesTmp
  | mac
  | macTmp
  deriving DecidableEq

/-- The files of the store. -/
abbrev Disk : Type := Files StorePath Content

/-- The errors of `load`. -/
inductive StoreError
  | readStore
  | missingMac
  | readMac
  | mismatch
  | parseStore
  deriving DecidableEq

/-- How a store is written as text and read back (`serde_json`). -/
structure Format (σ : Type) where
  toStringPretty : σ → Text
  fromStr : Text → Option σ
  empty : σ
  fromStr_toStringPretty : ∀ s, fromStr (toStringPretty s) = some s

/-- What the process runs with: the HMAC, `hex::encode`, whose texts have no white space, the
    store key and `RUNBOUND_STORE_MAC_MIGRATE`. -/
structure Integrity where
  hmac : Bytes → Text → Bytes
  hexEncode : Bytes → Text
  noSpace_hexEncode : ∀ bs, ∀ c ∈ hexEncode bs, Text.isWhitespace c = false
  storeKey : Option Bytes
  migrate : Bool

/-- `compute_mac` (integrity.rs:43). -/
def Integrity.computeMac (i : Integrity) (content : Text) (key : Bytes) : Text :=
  i.hexEncode (i.hmac key content)

/-- The operations of `write_mac` (integrity.rs:52). -/
def Integrity.writeMac (i : Integrity) (content : Text) : List (FileOp StorePath Content) :=
  i.storeKey.elim [] fun key =>
    [.create .macTmp, .write .macTmp (.text (i.computeMac content key)), .rename .macTmp .mac]

/-- A file without octets. -/
def emptyFile : Content := .text []

/-- `verify_mac` (integrity.rs:72), and the files afterwards: the migration writes the MAC. -/
def Integrity.verifyMac (i : Integrity) (disk : Disk) (content : Text) :
    Except StoreError Unit × Disk :=
  match i.storeKey, disk .mac with
  | none, _ => (.ok (), disk)
  | some _, none =>
    if i.migrate then (.ok (), FileOp.runAll emptyFile (i.writeMac content) disk)
    else (.error .missingMac, disk)
  | some key, some stored =>
    match stored.readToString with
    | none => (.error .readMac, disk)
    | some stored =>
      if stored.trim = i.computeMac content key then (.ok (), disk) else (.error .mismatch, disk)

section

variable {σ : Type} (i : Integrity) (fmt : Format σ)

/-- `load` (store.rs:175). -/
def load (disk : Disk) : Except StoreError σ × Disk :=
  match disk .entries with
  | none => (.ok fmt.empty, disk)
  | some content =>
    match content.readToString with
    | none => (.error .readStore, disk)
    | some content =>
      match i.verifyMac disk content with
      | (.error e, disk) => (.error e, disk)
      | (.ok (), disk) =>
        match fmt.fromStr content with
        | none => (.error .parseStore, disk)
        | some s => (.ok s, disk)

/-- The operations of `save` up to the rename of the store (store.rs:187-206). -/
def writeEntries (content : Text) : List (FileOp StorePath Content) :=
  [.other, .create .entriesTmp, .write .entriesTmp (.text content), .sync .entriesTmp]

/-- The operations of `save` (store.rs:186). -/
def save (s : σ) : List (FileOp StorePath Content) :=
  writeEntries (fmt.toStringPretty s) ++ ([.rename .entriesTmp .entries] ++
    ([.other] ++ i.writeMac (fmt.toStringPretty s)))

end

/-! ## What `load` looks at -/

/-- The MAC on disk fits the content, or there is none and the migration is enabled. -/
def Integrity.Accepts (i : Integrity) (key : Bytes) (disk : Disk) (content : Text) : Prop :=
  (disk .mac).elim (i.migrate = true) fun stored =>
    stored.readToString.map Text.trim = some (i.computeMac content key)

section

variable {σ : Type} {i : Integrity} {fmt : Format σ} {key : Bytes} {disk disk' : Disk}
  {content : Text} {s s' : σ}

theorem verifyMac_ok_iff (hkey : i.storeKey = some key) :
    (i.verifyMac disk content).1 = .ok () ↔ i.Accepts key disk content := by
  unfold Integrity.verifyMac Integrity.Accepts
  rw [hkey]
  cases hmac : disk .mac with
  | none =>
    cases hm : i.migrate with
    | true => simp
    | false => simp
  | some stored =>
    cases hread : stored.readToString with
    | none => simp [hread]
    | some text =>
      simp only [Option.elim_some, hread]
      split_ifs with hfits
      · simp [hfits]
      · simp [hfits]

/-- `load` of a text: what `verify_mac` says of it, then what it stands for. -/
theorem load_text (h : disk .entries = some (.text (fmt.toStringPretty s))) :
    (load i fmt disk).1 = .ok s ↔ (i.verifyMac disk (fmt.toStringPretty s)).1 = .ok () := by
  unfold load
  simp only [h, Content.readToString]
  rcases hv : i.verifyMac disk (fmt.toStringPretty s) with ⟨_ | _, disk'⟩
  · simp
  · simp [fmt.fromStr_toStringPretty]

theorem load_error_of_refused (h : disk .entries = some (.text (fmt.toStringPretty s)))
    (hmac : (i.verifyMac disk (fmt.toStringPretty s)).1 ≠ .ok ()) (t : σ) :
    (load i fmt disk).1 ≠ .ok t := by
  unfold load
  simp only [h, Content.readToString]
  rcases hv : i.verifyMac disk (fmt.toStringPretty s) with ⟨_ | _, disk'⟩
  · simp
  · rw [hv] at hmac
    exact absurd rfl hmac

theorem verifyMac_congr (hmac : disk' .mac = disk .mac) :
    (i.verifyMac disk' content).1 = (i.verifyMac disk content).1 := by
  unfold Integrity.verifyMac
  rw [hmac]
  cases i.storeKey with
  | none => rfl
  | some key =>
    cases disk .mac with
    | none =>
      split_ifs
      · rfl
      · rfl
    | some stored =>
      simp only
      cases stored.readToString with
      | none => rfl
      | some text =>
        simp only
        split_ifs
        · rfl
        · rfl

theorem load_congr (hentries : disk' .entries = disk .entries) (hmac : disk' .mac = disk .mac) :
    (load i fmt disk').1 = (load i fmt disk).1 := by
  unfold load
  rw [hentries]
  cases disk .entries with
  | none => rfl
  | some c =>
    simp only
    cases c.readToString with
    | none => rfl
    | some content =>
      have hsame : (i.verifyMac disk' content).1 = (i.verifyMac disk content).1 :=
        verifyMac_congr hmac
      rcases hv' : i.verifyMac disk' content with ⟨r', d'⟩
      rcases hv : i.verifyMac disk content with ⟨r, d⟩
      rw [hv', hv] at hsame
      obtain rfl : r' = r := hsame
      cases r' with
      | error e => simp [hv', hv]
      | ok u =>
        simp only [hv', hv]
        cases fmt.fromStr content with
        | none => rfl
        | some t => rfl

/-! ## Crash points of `save` -/

/-- `load` returns the old store or the new one. -/
def Survives (i : Integrity) (fmt : Format σ) (s s' : σ) (disk : Disk) : Prop :=
  ∃ t, (load i fmt disk).1 = .ok t ∧ (t = s ∨ t = s')

theorem survives_congr (hentries : disk' .entries = disk .entries) (hmac : disk' .mac = disk .mac) :
    Survives i fmt s s' disk' ↔ Survives i fmt s s' disk := by
  unfold Survives
  rw [load_congr hentries hmac]

/-- `load` looks at the store and its MAC only. -/
theorem survives_of_read (g g' : Disk) (h : ∀ p ∈ [StorePath.entries, .mac], g' p = g p) :
    Survives i fmt s s' g' ↔ Survives i fmt s s' g :=
  survives_congr (h .entries (by simp)) (h .mac (by simp))

theorem survives_new_iff (hkey : i.storeKey = some key)
    (h : disk .entries = some (.text (fmt.toStringPretty s'))) :
    Survives i fmt s s' disk ↔ i.Accepts key disk (fmt.toStringPretty s') := by
  rw [← verifyMac_ok_iff hkey]
  constructor
  · rintro ⟨t, ht, -⟩
    by_contra hrefused
    exact load_error_of_refused h hrefused t ht
  · intro hok
    exact ⟨s', (load_text h).mpr hok, Or.inr rfl⟩

/-- Once the new content is in place with the MAC that belongs to it, it loads. -/
theorem accepts_computeMac (h : disk .mac = some (.text (i.computeMac content key))) :
    i.Accepts key disk content := by
  unfold Integrity.Accepts
  rw [h]
  exact congrArg some (Text.trim_eq_self (i.noSpace_hexEncode _))

/-- The crash points of `write_mac`, when the new content is in place. -/
theorem forall_crash_writeMac (hkey : i.storeKey = some key)
    (h : disk .entries = some (.text (fmt.toStringPretty s'))) :
    (∀ k, Survives i fmt s s' (FileOp.crashed emptyFile
        ([FileOp.other] ++ i.writeMac (fmt.toStringPretty s')) k disk)) ↔
      Survives i fmt s s' disk := by
  have hops : [FileOp.other] ++ i.writeMac (fmt.toStringPretty s') =
      [FileOp.other, FileOp.create StorePath.macTmp, FileOp.write StorePath.macTmp
        (Content.text (i.computeMac (fmt.toStringPretty s') key))] ++
        [FileOp.rename StorePath.macTmp StorePath.mac] := by
    rw [Integrity.writeMac, hkey]
    rfl
  have hnew : Survives i fmt s s' (Function.update disk .mac
      (some (.text (i.computeMac (fmt.toStringPretty s') key)))) := by
    apply (survives_new_iff hkey _).mpr
    · exact accepts_computeMac (update_self _ _ _)
    · assumption
  rw [hops, FileOp.forall_crash_replace survives_of_read (by decide) (by simp [FileOp.targets]) rfl]
  exact and_iff_left hnew

/-- From a store that loads, every crash point of `save` leaves the old store or the new one
exactly if the MAC that is on disk before already fits the new content, or there is no MAC and
the migration is enabled. -/
theorem crashed_save_iff (hkey : i.storeKey = some key) (hload : (load i fmt disk).1 = .ok s) :
    (∀ k, ∃ t, (load i fmt (FileOp.crashed emptyFile (save i fmt s') k disk)).1 = .ok t ∧
        (t = s ∨ t = s')) ↔
      i.Accepts key disk (fmt.toStringPretty s') := by
  show (∀ k, Survives i fmt s s' (FileOp.crashed emptyFile (save i fmt s') k disk)) ↔ _
  have hold : Survives i fmt s s' disk := ⟨s, hload, Or.inl rfl⟩
  have hpre : ∀ op ∈ writeEntries (fmt.toStringPretty s'), ∀ p, p ≠ StorePath.entriesTmp →
      p ∉ op.targets := by
    simp [writeEntries, FileOp.targets]
  have hlast : FileOp.runAll emptyFile (writeEntries (fmt.toStringPretty s')) disk .entriesTmp =
      some (.text (fmt.toStringPretty s')) := rfl
  rw [save, ← List.append_assoc, FileOp.forall_crash_append,
    FileOp.forall_crash_replace survives_of_read (by decide) hpre hlast]
  -- between the renames the new content stands beside the MAC that was there before
  have hsplit : Survives i fmt s s' (Function.update disk .entries
      (some (.text (fmt.toStringPretty s')))) ↔ i.Accepts key disk (fmt.toStringPretty s') := by
    rw [survives_new_iff hkey (update_self _ _ _)]
    unfold Integrity.Accepts
    rw [update_of_ne (by decide)]
  generalize hd : FileOp.runAll emptyFile
    (writeEntries (fmt.toStringPretty s') ++
      [FileOp.rename StorePath.entriesTmp StorePath.entries]) disk = disk1
  have hdisk1 : ∀ p ∈ [StorePath.entries, .mac], disk1 p =
      Function.update disk .entries (some (.text (fmt.toStringPretty s'))) p := by
    intro p hp
    rw [← hd]
    exact FileOp.runAll_replace hpre hlast (by rintro rfl; simp at hp)
  have hentries1 : disk1 .entries = some (.text (fmt.toStringPretty s')) :=
    (hdisk1 .entries (by simp)).trans (update_self _ _ _)
  rw [forall_crash_writeMac hkey hentries1, survives_of_read _ _ hdisk1, hsplit]
  constructor
  · simp
  · intro haccepts
    exact ⟨⟨hold, haccepts⟩, haccepts⟩

end

/-! ## Two stores -/

/-- The empty store, and one with the entry `a. 60 A 10.0.0.1`. -/
inductive Sample
  | nothing
  | address
  deriving DecidableEq

/-- The texts of the two stores. -/
def Sample.json : Sample → Text
  | .nothing => "\x7b\n  \"entries\": []\n\x7d".toList
  | .address =>
    ("\x7b\n  \"entries\": [\n    \x7b\n      \"id\": \"1\",\n      \"name\": \"a.\",\n" ++
      "      \"type\": \"A\",\n      \"ttl\": 60,\n      \"value\": \"10.0.0.1\"\n    \x7d\n" ++
      "  ]\n\x7d").toList

def sampleFormat : Format Sample where
  toStringPretty := Sample.json
  fromStr t := [Sample.nothing, .address].find? fun s => s.json = t
  empty := .nothing
  fromStr_toStringPretty s := by
    cases s with
    | nothing => decide +kernel
    | address => decide +kernel

/-- A lower-case hexadecimal digit. -/
def hexDigit (n : Fin 16) : Char := Char.ofNat (if n.val < 10 then 48 + n.val else 87 + n.val)

/-- Two digits for each octet. -/
def lowerHex (bs : Bytes) : Text :=
  bs.flatMap fun b => [hexDigit ⟨b.val / 16, by omega⟩, hexDigit ⟨b.val % 16, by omega⟩]

theorem isWhitespace_hexDigit (n : Fin 16) : Text.isWhitespace (hexDigit n) = false := by
  revert n
  decide

theorem noSpace_lowerHex (bs : Bytes) : ∀ c ∈ lowerHex bs, Text.isWhitespace c = false := by
  intro c hc
  obtain ⟨b, -, hb⟩ := List.mem_flatMap.mp hc
  rcases List.mem_cons.mp hb with rfl | hb
  · exact isWhitespace_hexDigit _
  · rw [List.mem_singleton.mp hb]
    exact isWhitespace_hexDigit _

/-- A key is set, and the MAC of the two texts differs. -/
def sampleIntegrity : Integrity where
  hmac _ content := List.replicate 32 (Fin.ofNat 256 content.length)
  hexEncode := lowerHex
  noSpace_hexEncode := noSpace_lowerHex
  storeKey := some [1]
  migrate := false

/-- The files after the empty store was saved. -/
def savedNothing : Disk :=
  FileOp.runAll emptyFile (save sampleIntegrity sampleFormat .nothing) fun _ => none

theorem load_savedNothing : (load sampleIntegrity sampleFormat savedNothing).1 = .ok .nothing := by
  decide +kernel

/-- The same with the migration enabled. -/
def migratingIntegrity : Integrity := { sampleIntegrity with migrate := true }

/-- A store with the entry, from before MACs were written. -/
def unsignedAddress : Disk
  | .entries => some (.text Sample.address.json)
  | .mac | .entriesTmp | .macTmp => none

theorem load_unsignedAddress :
    (load migratingIntegrity sampleFormat unsignedAddress).1 = .ok .address := by
  decide +kernel

/-- During the migration the entry can be removed: every crash leaves the store with it or the
    empty one. -/
theorem crashed_save_iff_migrating :
    (load migratingIntegrity sampleFormat unsignedAddress).1 = .ok .address ∧
      ∀ k, ∃ t, (load migratingIntegrity sampleFormat (FileOp.crashed emptyFile
        (save migratingIntegrity sampleFormat .nothing) k unsignedAddress)).1 = .ok t ∧
          (t = .address ∨ t = .nothing) := by
  refine ⟨load_unsignedAddress, ?_⟩
  apply (crashed_save_iff rfl load_unsignedAddress).mpr
  show migratingIntegrity.migrate = true
  rfl

/-- A crash between the renames: neither store can be loaded. -/
theorem torn_save :
    (load sampleIntegrity sampleFormat savedNothing).1 = .ok .nothing ∧
      (load sampleIntegrity sampleFormat (FileOp.crashed emptyFile
        (save sampleIntegrity sampleFormat .address) 5 savedNothing)).1 = .error .mismatch ∧
      ¬ ∀ k, ∃ t, (load sampleIntegrity sampleFormat (FileOp.crashed emptyFile
        (save sampleIntegrity sampleFormat .address) k savedNothing)).1 = .ok t ∧
          (t = .nothing ∨ t = .address) := by
  have htorn : (load sampleIntegrity sampleFormat (FileOp.crashed emptyFile
      (save sampleIntegrity sampleFormat .address) 5 savedNothing)).1 = .error .mismatch := by
    decide +kernel
  refine ⟨load_savedNothing, htorn, ?_⟩
  intro h
  obtain ⟨t, ht, -⟩ := h 5
  rw [htorn] at ht
  cases ht

end Runbound.Store
