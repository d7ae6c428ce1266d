import Runbound.FastPath.Cache

/-!
# The cache on disk (`dns/cache_snapshot.rs`)

`save_xdp_cache` writes four magic octets and then the archive `rkyv` makes of the entries;
`load_xdp_cache` reads the file into a buffer and has `rkyv` check and read what follows the magic.
An archived entry holds a `u64`, so `rkyv` places the entries at a multiple of eight from the
start of the archive, and on reading refuses entries that do not lie at a multiple of eight in
memory. The archive starts four octets into a buffer from the allocator, which is aligned to eight:
what `save_xdp_cache` wrote is never accepted, and `load_xdp_cache` restores nothing.

* `Rkyv`: what is used of `rkyv` 0.8 with `bytecheck` and without `unaligned`.
* `load_saved`: loading a saved file leaves the cache as it is.
* `rkyvLayout`: the archives of `rkyv` for these entries.
-/

namespace Runbound.FastPath

open Wire Lib List

/-! ## Numbers in the archive -/

/-- `n` octets of `x`, the least significant first. -/
def leBytes : ℕ → ℕ → Bytes
  | 0, _ => []
  | n + 1, x => Fin.ofNat 256 x :: leBytes n (x / 256)

/-- The number whose octets are `bs`, the least significant first. -/
def ofLeBytes : Bytes → ℕ
  | [] => 0
  | b :: bs => b.val + 256 * ofLeBytes bs

/-- `u64::to_le_bytes`. -/
def u64Le (x : U64) : Bytes := leBytes 8 x.val

/-- `u64::from_le_bytes` on the first eight octets. -/
def u64OfLe (bs : Bytes) : U64 := Fin.ofNat _ (ofLeBytes (bs.take 8))

@[simp] theorem leBytes_length (n x : ℕ) : (leBytes n x).length = n := by
  induction n generalizing x with
  | zero => rfl
  | succ n ih => rw [leBytes, List.length_cons, ih]

theorem ofLeBytes_leBytes (n x : ℕ) : ofLeBytes (leBytes n x) = x % 256 ^ n := by
  induction n generalizing x with
  | zero => simp [leBytes, ofLeBytes, Nat.mod_one]
  | succ n ih =>
    rw [leBytes, ofLeBytes, ih, Fin.val_ofNat, pow_succ', Nat.mod_mul]

/-! ## What is saved -/

/-- `PersistKey` (dns/cache_snapshot.rs:280). -/
structure PersistKey where
  name : Bytes
  qtype : U16
  qclass : U16
  deriving DecidableEq

/-- `PersistEntry` (dns/cache_snapshot.rs:287). -/
structure PersistEntry where
  wirePayload : Bytes
  expiresSecs : U64
  deriving DecidableEq

abbrev PersistItem := PersistKey × PersistEntry

/-- The alignment of an archived `(PersistKey, PersistEntry)`: that of its `u64`. -/
def itemAlign : ℕ := 8

/-- `rkyv::to_bytes` and `rkyv::from_bytes` for the entries. `fromBytes` gets the address of the
    octets; `itemsAt` is where the root of an archive says that the entries are. -/
structure Rkyv where
  toBytes : List PersistItem → Option Bytes
  fromBytes : ℕ → Bytes → Option (List PersistItem)
  itemsAt : Bytes → ℕ
  /-- The serializer pads up to the alignment of what it writes. -/
  padded : ∀ items bytes, toBytes items = some bytes → itemAlign ∣ itemsAt bytes
  /-- Validation refuses entries at an address that is not a multiple of their alignment. -/
  checked : ∀ addr bytes items, fromBytes addr bytes = some items →
    items = [] ∨ itemAlign ∣ addr + itemsAt bytes

/-- `CACHE_MAGIC`, `RBv1` (dns/cache_snapshot.rs:277). -/
def cacheMagic : Bytes := [82, 66, 118, 49]

/-- The address of a buffer of `std::fs::read`: the size classes of the allocator (main.rs:63) are
    multiples of eight octets on aligned pages. -/
abbrev HeapAddr := { a : ℕ // 8 ∣ a }

section

variable (rkyv : Rkyv)

/-- `snapshot` (dns/cache_snapshot.rs:303-331); the names of the questions are not kept. -/
def persistSnapshot (now nowUnix : ℕ) (m : CacheMap) : List PersistItem :=
  (m.entries.filter fun kv => kv.2.expiresAt > now).map fun kv =>
    (⟨u64Le kv.1, 0, 0⟩, ⟨kv.2.wirePayload, Fin.ofNat _ (nowUnix + (kv.2.expiresAt - now))⟩)

/-- `save_xdp_cache` (dns/cache_snapshot.rs:296): the number of entries and the file, or an
    error. -/
def saveXdpCache (now nowUnix : ℕ) (m : CacheMap) : Option (ℕ × Bytes) :=
  let snapshot := persistSnapshot now nowUnix m
  (rkyv.toBytes snapshot).map fun bytes => (snapshot.length, cacheMagic ++ bytes)

/-- One entry of the loop of `load_xdp_cache` (dns/cache_snapshot.rs:388-414), with the count.
    `checked_add` fails beyond the signed 64-bit seconds of an `Instant`. -/
def loadEntry (now nowUnix maxEntries : ℕ) (s : CacheMap × ℕ) (p : PersistItem) : CacheMap × ℕ :=
  if p.2.expiresSecs.val ≤ nowUnix then s
  else if p.1.name.length < 8 then s
  else if now + (p.2.expiresSecs.val - nowUnix) ≥ 9223372036854775808 then s
  else
    (cacheInsert now (u64OfLe p.1.name)
      { wirePayload := p.2.wirePayload
        expiresAt := now + (p.2.expiresSecs.val - nowUnix)
        wireQname := [] } maxEntries s.1, s.2 + 1)

/-- `load_xdp_cache` (dns/cache_snapshot.rs:353) on what `std::fs::read` gave, with the number of
    entries loaded. -/
def loadXdpCache (buf : HeapAddr) (now nowUnix maxEntries : ℕ) (file : Option Bytes)
    (m : CacheMap) : CacheMap × ℕ :=
  match file with
  | none => (m, 0)
  | some data =>
    if data.length < 4 ∨ data.take 4 ≠ cacheMagic then (m, 0)
    else
      match rkyv.fromBytes (buf.val + 4) (data.drop 4) with
      | none => (m, 0)
      | some snapshot => snapshot.foldl (loadEntry now nowUnix maxEntries) (m, 0)

end

variable {rkyv : Rkyv} {now nowUnix now' nowUnix' maxEntries n : ℕ} {m m' : CacheMap} {file : Bytes}

/-- Four octets into an aligned buffer no archive is aligned. -/
theorem fromBytes_shifted {items : List PersistItem} {bytes : Bytes} (buf : HeapAddr)
    (h : rkyv.toBytes items = some bytes) :
    ∀ read, rkyv.fromBytes (buf.val + 4) bytes = some read → read = [] := by
  intro read hread
  rcases rkyv.checked _ _ _ hread with hnil | haligned
  · exact hnil
  · have hpad : 8 ∣ rkyv.itemsAt bytes := rkyv.padded _ _ h
    have haddr : 8 ∣ buf.val + 4 + rkyv.itemsAt bytes := haligned
    have hbuf := buf.property
    omega

/-- A saved file restores nothing. -/
theorem load_saved (hsave : saveXdpCache rkyv now nowUnix m = some (n, file)) (buf : HeapAddr) :
    loadXdpCache rkyv buf now' nowUnix' maxEntries (some file) m' = (m', 0) := by
  obtain ⟨bytes, hbytes, heq⟩ := Option.map_eq_some_iff.mp hsave
  obtain ⟨-, rfl⟩ := Prod.mk.inj heq
  have hdrop : (cacheMagic ++ bytes).drop 4 = bytes := rfl
  have htake : (cacheMagic ++ bytes).take 4 = cacheMagic := rfl
  have hlen : ¬(cacheMagic ++ bytes).length < 4 := by simp [cacheMagic]
  simp only [loadXdpCache, hdrop, htake, hlen, ne_eq, not_true_eq_false, or_self, if_false]
  cases hread : rkyv.fromBytes (buf.val + 4) bytes with
  | none => rfl
  | some read =>
    rw [fromBytes_shifted buf hbytes read hread]
    rfl

/-! ## The layout of an archive -/

/-- `n` octets from `pos` on. -/
def slice (bs : Bytes) (pos n : ℕ) : Bytes := (bs.drop pos).take n

/-- The number in `n` octets at `pos`. -/
def readLe (bs : Bytes) (pos n : ℕ) : ℕ := ofLeBytes (slice bs pos n)

/-- A relative pointer at `pos`: the signed 32-bit distance to what it points to. -/
def relPtr (pos target : ℕ) : Bytes := leBytes 4 (target + 4294967296 - pos)

/-- Where the relative pointer at `pos` points to. -/
def follow (bs : Bytes) (pos : ℕ) : ℕ := (pos + readLe bs pos 4) % 4294967296

/-- `ArchivedVec` at `pos`: a relative pointer and a length. -/
def archivedVec (pos target len : ℕ) : Bytes := relPtr pos target ++ leBytes 4 len

/-- The octets an `ArchivedVec` at `pos` stands for. -/
def readVec (bs : Bytes) (pos : ℕ) : Option Bytes :=
  if follow bs pos + readLe bs (pos + 4) 4 ≤ bs.length then
    some (slice bs (follow bs pos) (readLe bs (pos + 4) 4))
  else none

/-- An archived entry: the key in twelve octets, four of padding, the entry in sixteen. -/
def archivedItem (pos nameAt payloadAt : ℕ) (p : PersistItem) : Bytes :=
  archivedVec pos nameAt p.1.name.length ++ (leBytes 2 p.1.qtype.val ++ (leBytes 2 p.1.qclass.val ++
    (leBytes 4 0 ++ (archivedVec (pos + 16) payloadAt p.2.wirePayload.length ++
      leBytes 8 p.2.expiresSecs.val))))

/-- The entry archived at `pos`. -/
def readItem (bs : Bytes) (pos : ℕ) : Option PersistItem := do
  let name ← readVec bs pos
  let payload ← readVec bs (pos + 16)
  return (⟨name, Fin.ofNat _ (readLe bs (pos + 8) 2), Fin.ofNat _ (readLe bs (pos + 10) 2)⟩,
    ⟨payload, Fin.ofNat _ (readLe bs (pos + 24) 8)⟩)

/-- The archived entries from `pos` on; their octets lie from `heapAt` on. -/
def archivedItems : (pos heapAt : ℕ) → List PersistItem → Bytes
  | _, _, [] => []
  | pos, heapAt, p :: ps =>
    archivedItem pos heapAt (heapAt + p.1.name.length) p ++
      archivedItems (pos + 32) (heapAt + p.1.name.length + p.2.wirePayload.length) ps

/-- `n` entries from `pos` on. -/
def readItems (bs : Bytes) : (pos n : ℕ) → Option (List PersistItem)
  | _, 0 => some []
  | pos, n + 1 => do
    let p ← readItem bs pos
    let ps ← readItems bs (pos + 32) n
    return p :: ps

/-- The octets of names and payloads, which come first. -/
def archivedHeap (items : List PersistItem) : Bytes :=
  items.flatMap fun p => p.1.name ++ p.2.wirePayload

/-- Where the entries begin: after the octets, at the next multiple of eight. -/
def itemsPos (items : List PersistItem) : ℕ := ((archivedHeap items).length + 7) / 8 * 8

/-- The octets, padding, and the entries. -/
def archiveFront (items : List PersistItem) : Bytes :=
  archivedHeap items ++ (replicate (itemsPos items - (archivedHeap items).length) 0 ++
    archivedItems (itemsPos items) 0 items)

/-- The root stands at the end, and points to the entries. -/
def archive (items : List PersistItem) : Bytes :=
  archiveFront items ++
    archivedVec (itemsPos items + 32 * items.length) (itemsPos items) items.length

/-- Where the root says that the entries are. -/
def rootItems (bs : Bytes) : ℕ := follow bs (bs.length - 8)

/-- The entries of an archive at `addr`: root and entries have to be aligned and inside. -/
def readArchive (addr : ℕ) (bs : Bytes) : Option (List PersistItem) :=
  let n := readLe bs (bs.length - 4) 4
  if bs.length < 8 then none
  else if ¬ 4 ∣ addr + (bs.length - 8) ∨ ¬ 8 ∣ addr + rootItems bs then none
  else if rootItems bs + 32 * n > bs.length - 8 then none
  else readItems bs (rootItems bs) n

section Layout

variable {items : List PersistItem}

theorem archivedItems_length : ∀ {items : List PersistItem} {pos heapAt : ℕ},
    (archivedItems pos heapAt items).length = 32 * items.length := by
  intro items
  induction items with
  | nil => intro pos heapAt; rfl
  | cons p ps ih =>
    intro pos heapAt
    rw [archivedItems, length_append, ih, length_cons]
    simp only [archivedItem, archivedVec, relPtr, length_append, leBytes_length]
    omega

theorem archiveFront_length (items : List PersistItem) :
    (archiveFront items).length = itemsPos items + 32 * items.length := by
  rw [archiveFront, length_append, length_append, length_replicate, archivedItems_length]
  unfold itemsPos
  omega

/-- The root of an archive says where the entries are. -/
theorem rootItems_archive (h : (archive items).length < 2147483648) :
    rootItems (archive items) = itemsPos items := by
  have hfront := archiveFront_length items
  have hlen : (archive items).length = itemsPos items + 32 * items.length + 8 := by
    simp [archive, hfront, archivedVec, relPtr]
  have hroot : (archive items).length - 8 = (archiveFront items).length := by omega
  have hptr : slice (archive items) (archiveFront items).length 4 =
      relPtr (archiveFront items).length (itemsPos items) := by
    rw [slice, archive, drop_left, hfront, archivedVec]
    exact take_left' (leBytes_length 4 _)
  rw [rootItems, hroot, follow, readLe, hptr, relPtr, ofLeBytes_leBytes]
  omega

-- one entry, at an aligned address and four octets further
example :
    let item : PersistItem := (⟨[1, 2, 3, 4, 5, 6, 7, 8], 0, 0⟩, ⟨[9], 300⟩)
    readArchive 16 (archive [item]) = some [item] ∧ readArchive 20 (archive [item]) = none := by
  decide +kernel

end Layout

/-- The archives of `rkyv` for these entries. One that a relative pointer cannot span is an
    error. -/
def rkyvLayout : Rkyv where
  toBytes items := if (archive items).length < 2147483648 then some (archive items) else none
  fromBytes := readArchive
  itemsAt := rootItems
  padded items bytes h := by
    split_ifs at h with hlen
    cases h
    rw [rootItems_archive hlen]
    exact Dvd.intro_left _ rfl
  checked addr bytes items h := by
    unfold readArchive at h
    simp only at h
    split_ifs at h with hshort haligned
    exact Or.inr (not_not.mp (not_or.mp haligned).2)

end Runbound.FastPath
