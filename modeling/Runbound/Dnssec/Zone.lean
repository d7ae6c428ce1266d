import Runbound.Dnssec.Base32
import Runbound.Dnssec.Bitmap
import Runbound.Dnssec.DenialSpec
import Runbound.Lib.Tree

/-!
# Zones and their denial chains

A zone is its apex and the owner names it is authoritative for, in canonical
order. This is what the denial records of the zone speak about; nothing here is
taken from the validator.

* `Zone.nsecs`: the NSEC chain, a ring through the owner names.
* `Nsec3Zone.nsec3s`: the NSEC3 ring, through the hashes of all existing names,
  empty non-terminals included.
* `parse_nsecRdata`, `parse_nsec3Rdata`: the validator reads back what the zone
  publishes.
-/

namespace Runbound.Dnssec

open Wire Lib List

/-- A name of a zone with the types it has. -/
structure Node where
  name : Name
  types : List U16
  deriving DecidableEq

/-- A zone: its apex and its authoritative owner names in canonical order. -/
structure Zone where
  apex : Name
  nodes : List Node
  sorted : nodes.Pairwise fun a b => a.name.key < b.name.key
  apex_mem : apex.key ∈ nodes.map fun n => n.name.key
  in_zone : ∀ n ∈ nodes, apex.key <+: n.name.key

namespace Zone

variable (z : Zone)

/-- The keys of the owner names. -/
def owners : List (List Bytes) := z.nodes.map fun n => n.name.key

/-- The name owns records or is an empty non-terminal. -/
def Exists (p : List Bytes) : Prop := IsNode z.apex.key z.owners p

instance (p : List Bytes) : Decidable (z.Exists p) := by unfold Exists; infer_instance

/-- `ce` is the closest encloser of `q`: the deepest existing name above it. -/
def Encloser (q ce : List Bytes) : Prop := ClosestEncloser z.apex.key z.owners q ce

variable {z}

theorem mem_owners {p : List Bytes} : p ∈ z.owners ↔ ∃ n ∈ z.nodes, n.name.key = p := mem_map

theorem exists_of_mem {p : List Bytes} (h : p ∈ z.owners) : z.Exists p := by
  obtain ⟨n, hn, rfl⟩ := mem_owners.mp h
  exact isNode_of_mem h (z.in_zone n hn)

theorem exists_apex : z.Exists z.apex.key := isNode_root z.apex_mem

theorem nodes_ne_nil : z.nodes ≠ [] := by
  obtain ⟨n, hn, -⟩ := mem_owners.mp z.apex_mem
  exact ne_nil_of_mem hn

theorem exists_encloser {q : List Bytes} (hq : z.apex.key <+: q) (hne : z.apex.key ≠ q) :
    ∃ ce, z.Encloser q ce := exists_closestEncloser z.apex_mem hq hne

theorem apex_ne {q : List Bytes} (h : ¬ z.Exists q) : z.apex.key ≠ q := fun e => h (e ▸ exists_apex)

/-! ## The NSEC chain -/

variable (z) in
/-- The NSEC chain: each owner name with the next one, the last with the apex. -/
def nsecs : List Nsec := (ring z.nodes).map fun a => ⟨a.1.name, a.2.name, typeBitmap a.1.types⟩

theorem not_mem_owners_of_covers {n : Nsec} {x : List Bytes} (hn : n ∈ z.nsecs)
    (h : Covers n.owner.key n.next.key x) : x ∉ z.owners := by
  obtain ⟨a, ha, rfl⟩ := mem_map.mp hn
  intro hx
  obtain ⟨m, hm, hkey⟩ := mem_owners.mp hx
  exact not_mem_of_covers z.sorted ha h m hm hkey

theorem exists_nsec_covers {x : List Bytes} (hx : x ∉ z.owners) :
    ∃ n ∈ z.nsecs, Covers n.owner.key n.next.key x := by
  have hne : ∀ c ∈ z.nodes, c.name.key ≠ x := fun c hc e => hx (mem_owners.mpr ⟨c, hc, e⟩)
  obtain ⟨a, ha, hcov⟩ := exists_covers z.sorted nodes_ne_nil hne
  exact ⟨_, mem_map_of_mem ha, hcov⟩

end Zone

/-- NSEC RDATA: the next owner name and the types. -/
def nsecRdata (next : Name) (types : List U16) : Bytes := next.wire ++ typeBitmap types

theorem parse_nsecRdata (owner next : Name) (types : List U16) :
    Nsec.parse owner (nsecRdata next types) = some ⟨owner, next, typeBitmap types⟩ := by
  have hparse := Name.parse_wire [] (typeBitmap types) next
  rw [nil_append, length_nil, Nat.zero_add] at hparse
  rw [Nsec.parse, nsecRdata, parseNsec, hparse]
  simp only
  rw [if_neg (by rw [length_append]; omega), drop_left, Option.map_some]

/-! ## The NSEC3 ring -/

/-- The parameters of an NSEC3 ring. -/
structure Nsec3Param where
  flags : Byte
  iterations : U16
  salt : Bytes
  salt_length : salt.length < 256

/-- The hash of a name. -/
def Nsec3Param.hash (p : Nsec3Param) (crypto : Crypto) (name : Name) : Bytes :=
  nsec3Hash crypto (canonicalNameWire name) p.salt p.iterations

theorem nsec3Iterate_length (crypto : Crypto) (salt : Bytes) :
    ∀ (k : ℕ) (h : Bytes), h.length = 20 → (nsec3Iterate crypto salt k h).length = 20 := by
  intro k
  induction k with
  | zero => intro h hlen; exact hlen
  | succ k ih => intro h _; exact ih _ (crypto.sha1_length _)

theorem nsec3Hash_length (crypto : Crypto) (wire salt : Bytes) (iterations : U16) :
    (nsec3Hash crypto wire salt iterations).length = 20 :=
  nsec3Iterate_length _ _ _ _ (crypto.sha1_length _)

theorem Nsec3Param.hash_length (p : Nsec3Param) (crypto : Crypto) (name : Name) :
    (p.hash crypto name).length = 20 := nsec3Hash_length _ _ _ _

theorem Nsec3Param.hash_congr (p : Nsec3Param) (crypto : Crypto) {a b : Name} (h : a.key = b.key) :
    p.hash crypto a = p.hash crypto b := by
  rw [Nsec3Param.hash, Nsec3Param.hash, canonicalNameWire_congr h]

/-- The parser reads back NSEC3 RDATA under an owner name that starts with an encoded hash. -/
theorem Nsec3.parse_rdata {owner : Name} {flags : Byte} {iterations : U16}
    {salt hash next : Bytes} {types : List U16}
    (howner : owner.labelsLower.head? = some (lower (base32hexEncode hash)))
    (hhash : hash.length = 20) (hsalt : salt.length < 256) (hnext : next.length < 256) :
    Nsec3.parse owner (nsec3Rdata flags iterations salt next types) =
      some ⟨1, flags, iterations, salt, hash, next, typeBitmap types⟩ := by
  have hsalt' : (Fin.ofNat 256 salt.length : Byte).val = salt.length := Nat.mod_eq_of_lt hsalt
  have hnext' : (Fin.ofNat 256 next.length : Byte).val = next.length := Nat.mod_eq_of_lt hnext
  have hlabel : base32hexDecode (lower (base32hexEncode hash)) = some hash :=
    base32hexDecode_lower_encode (n := 4) hhash
  obtain ⟨up, hlabels⟩ : ∃ up, owner.labelsLower = lower (base32hexEncode hash) :: up :=
    head?_eq_some_iff.mp howner
  rw [nsec3Rdata]
  simp only [u16Be, cons_append, nil_append, append_assoc, Nsec3.parse, hsalt', hlabels, hlabel]
  rw [if_neg (by simp only [length_append, length_cons]; omega)]
  simp only [drop_left, take_left, hnext']
  rw [if_neg (by rw [length_append]; omega)]
  rw [show u16OfBe _ _ = iterations from u16OfBe_u16Be _]

/-- A zone with its NSEC3 ring: every existing name, ordered by hash. -/
structure Nsec3Zone (crypto : Crypto) extends Zone where
  param : Nsec3Param
  names : List Node
  hashed : names.Pairwise fun a b => param.hash crypto a.name < param.hash crypto b.name
  complete : ∀ p, toZone.Exists p ↔ ∃ n ∈ names, n.name.key = p
  types_iff : ∀ n ∈ names, ∀ t, t ∈ n.types ↔ ∃ m ∈ nodes, m.name.key = n.name.key ∧ t ∈ m.types
  room : LabelsOk (List.replicate 32 48 :: apex.labels)

namespace Nsec3Zone

variable {crypto : Crypto} (z : Nsec3Zone crypto)

/-- The hash of a name under the parameters of the ring. -/
def hash (name : Name) : Bytes := z.param.hash crypto name

/-- The NSEC3 of an arc of the ring. -/
def nsec3 (a : Node × Node) : Nsec3 :=
  ⟨1, z.param.flags, z.param.iterations, z.param.salt, z.hash a.1.name, z.hash a.2.name,
    typeBitmap a.1.types⟩

/-- The NSEC3 ring. -/
def nsec3s : List Nsec3 := (ring z.names).map z.nsec3

variable {z}

theorem names_ne_nil : z.names ≠ [] := by
  obtain ⟨n, hn, -⟩ := (z.complete _).mp Zone.exists_apex
  exact ne_nil_of_mem hn

variable {name : Name}

theorem hash_eq {n3 : Nsec3} (hn : n3 ∈ z.nsec3s) {h : Bytes} (hh : n3.hash crypto name = some h) :
    h = z.hash name := by
  obtain ⟨a, -, rfl⟩ := mem_map.mp hn
  unfold Nsec3.hash at hh
  split_ifs at hh
  exact (Option.some.inj hh).symm

theorem hash_of_iterations (hit : z.param.iterations ≤ nsec3MaxIterations) (a : Node × Node)
    (name : Name) : (z.nsec3 a).hash crypto name = some (z.hash name) :=
  if_neg (by rintro (h | h)
             · exact h rfl
             · exact absurd hit (not_le.mpr h))

theorem not_exists_of_covered {nsec3s : List Nsec3} (hsub : nsec3s ⊆ z.nsec3s)
    (h : Covered crypto nsec3s name) : ¬ z.Exists name.key := by
  obtain ⟨n3, hn, hcov⟩ := h
  obtain ⟨x, hx, hc⟩ := Nsec3.covers_iff.mp hcov
  obtain rfl := hash_eq (hsub hn) hx
  obtain ⟨a, ha, rfl⟩ := mem_map.mp (hsub hn)
  intro hex
  obtain ⟨m, hm, hkey⟩ := (z.complete _).mp hex
  exact not_mem_of_covers z.hashed ha hc m hm (z.param.hash_congr crypto hkey)

theorem exists_of_matched {nsec3s : List Nsec3} (hsub : nsec3s ⊆ z.nsec3s)
    (hinj : ∀ n ∈ z.names, z.hash n.name = z.hash name → n.name.key = name.key)
    (h : Matched crypto nsec3s name) : z.Exists name.key := by
  obtain ⟨n3, hn, hm⟩ := h
  have hhash := hash_eq (hsub hn) (of_decide_eq_true hm)
  obtain ⟨a, ha, rfl⟩ := mem_map.mp (hsub hn)
  have hmem := (mem_of_mem_ring ha).1
  exact (z.complete _).mpr ⟨a.1, hmem, hinj a.1 hmem hhash⟩

theorem matched_of_exists (hit : z.param.iterations ≤ nsec3MaxIterations) (h : z.Exists name.key) :
    ∃ a ∈ ring z.names, a.1.name.key = name.key ∧ (z.nsec3 a).matchesName crypto name = true := by
  obtain ⟨n, hn, hkey⟩ := (z.complete _).mp h
  obtain ⟨m, hm⟩ := exists_arc_of_mem hn
  refine ⟨_, hm, hkey, decide_eq_true ?_⟩
  rw [hash_of_iterations hit]
  exact congrArg some (z.param.hash_congr crypto hkey.symm)

/-- The whole ring covers every missing name that collides with none. -/
theorem covered_of_not_exists (hit : z.param.iterations ≤ nsec3MaxIterations)
    (hinj : ∀ n ∈ z.names, z.hash n.name = z.hash name → n.name.key = name.key)
    (h : ¬ z.Exists name.key) : ∃ a ∈ ring z.names, (z.nsec3 a).covers crypto name = true := by
  have hne : ∀ c ∈ z.names, z.param.hash crypto c.name ≠ z.hash name := fun c hc e =>
    h ((z.complete _).mpr ⟨c, hc, hinj c hc e⟩)
  obtain ⟨a, ha, hcov⟩ := exists_covers z.hashed names_ne_nil hne
  exact ⟨a, ha, Nsec3.covers_iff.mpr ⟨_, hash_of_iterations hit a name, hcov⟩⟩

variable (z) in
/-- The owner name of an NSEC3 record: the hash of the name below the apex. -/
def ownerName (name : Name) : Name :=
  ⟨base32hexEncode (z.hash name) :: z.apex.labels, by
    have hlen := base32hexEncode_length (n := 4) (z.param.hash_length crypto name)
    have hroom := z.room
    refine ⟨fun l hl => ?_, ?_⟩
    · rcases List.mem_cons.mp hl with rfl | hl
      · rw [hash, hlen]; decide
      · exact z.apex.ok.label l hl
    · have := hroom.len
      rw [labelsLen_cons, List.length_replicate] at this
      rw [labelsLen_cons, hash, hlen]
      exact this⟩

variable (z) in
/-- NSEC3 RDATA of an arc of the ring (`nsec3_rdata`). -/
def rdata (a : Node × Node) : Bytes :=
  nsec3Rdata z.param.flags z.param.iterations z.param.salt (z.hash a.2.name) a.1.types

theorem parse_nsec3Rdata (a : Node × Node) :
    Nsec3.parse (z.ownerName a.1.name) (z.rdata a) = some (z.nsec3 a) :=
  Nsec3.parse_rdata rfl (z.param.hash_length crypto a.1.name) z.param.salt_length
    (by rw [hash, z.param.hash_length]; decide)

end Nsec3Zone

end Runbound.Dnssec
