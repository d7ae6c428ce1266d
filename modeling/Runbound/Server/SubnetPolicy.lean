import Runbound.Lib.Text
import Runbound.Server.Acl

/-!
# Subnet policies (`subnet_policy.rs`, `dns/xdp/worker.rs`)

A policy lists domains that are blocked, with all below them, for the clients of a subnet. The
slow path asks with the name as `to_ascii` writes it, the fast path with the octets of the
labels between dots.

**Deviation.** The counters of the policies are left out. The text of a listed domain is taken
as labels between dots, as `blocks` takes it: it has no escapes.

Results:
* `nameOrParentIn_iff`: the walk over the parents of a dotted text.
* `policy_agrees_iff`: both paths are right for every policy and client exactly for names
  without octets that `to_ascii` escapes.
-/

namespace Runbound.Server

open Wire Lib Recursor List

/-! ## The code -/

/-- `SubnetPolicy` (subnet_policy.rs:36) with its CIDR parsed. -/
structure SubnetPolicy where
  cidr : CidrBlock
  blacklistExtra : List Text

/-- The domains of a compiled policy (subnet_policy.rs:129-134). -/
def SubnetPolicy.domains (p : SubnetPolicy) : List Text :=
  (p.blacklistExtra.map fun d =>
    (trimEndMatches '.' (Text.trim d)).map Char.toLower).filter (· ≠ [])

/-- The loop of `name_or_parent_in` (subnet_policy.rs:81-87). -/
def parentIn (set : List Text) : Text → Bool
  | [] => false
  | c :: rest => (c = '.' && !rest.isEmpty && rest ∈ set) || parentIn set rest

/-- `name_or_parent_in` (subnet_policy.rs:77). -/
def nameOrParentIn (set : List Text) (name : Text) : Bool := name ∈ set || parentIn set name

/-- `CompiledPolicies::blocks` (subnet_policy.rs:64). -/
def blocks (policies : List SubnetPolicy) (ip : IpAddr) (qname : Text) : Bool :=
  policies.any fun p => p.cidr.contains ip && nameOrParentIn p.domains (trimEndMatches '.' qname)

/-- `b as char`. -/
def latin (bs : Bytes) : Text := bs.map fun b => Char.ofNat b.val

/-- `wire_qname_to_presentation` (dns/xdp/worker.rs:1531) of a lower-cased name. -/
def wireQnameToPresentation (n : Name) : Option Text :=
  if n.labels = [] then none else some (['.'].intercalate (n.labelsLower.map latin))

/-- The name as the slow path has it (dns/server.rs:714). -/
def slowQname (n : Name) : Text := latin (lower n.toAscii)

/-- The verdict of the fast path (dns/xdp/worker.rs:1686-1687). -/
def fastBlocks (policies : List SubnetPolicy) (ip : IpAddr) (n : Name) : Bool :=
  (wireQnameToPresentation n).elim false (blocks policies ip)

/-! ## Specification -/

/-- Some policy for the client lists the name or one above it. -/
def PolicyLists (policies : List SubnetPolicy) (ip : IpAddr) (n : Name) : Prop :=
  ∃ p ∈ policies, p.cidr.contains ip = true ∧
    ∃ d ∈ p.domains, d.splitOn '.' <:+ n.labelsLower.map latin

/-- An octet that `to_ascii` writes as it is. -/
def PlainByte (b : Byte) : Prop := 0x21 ≤ b.val ∧ b.val ≤ 0x7E ∧ b ≠ 46 ∧ b ≠ 92

/-! ## Dotted texts -/

theorem parentIn_iff {set : List Text} {s : Text} :
    parentIn set s = true ↔ ∃ a b, s = a ++ '.' :: b ∧ b ≠ [] ∧ b ∈ set := by
  induction s with
  | nil => simp [parentIn]
  | cons c rest ih =>
    rw [parentIn, Bool.or_eq_true, ih]
    constructor
    · rintro (h | ⟨a, b, rfl, hb⟩)
      · simp only [Bool.and_eq_true, decide_eq_true_eq, Bool.not_eq_true',
          isEmpty_eq_false_iff] at h
        obtain ⟨⟨rfl, hne⟩, hmem⟩ := h
        exact ⟨[], rest, rfl, hne, hmem⟩
      · exact ⟨c :: a, b, rfl, hb⟩
    · rintro ⟨_ | ⟨c', a⟩, b, heq, hne, hmem⟩
      · obtain ⟨rfl, rfl⟩ := List.cons.inj heq
        exact Or.inl (by simp [hne, hmem])
      · exact Or.inr ⟨a, b, (List.cons.inj heq).2, hne, hmem⟩

theorem intercalate_append_ne_nil {front ls : List Text} (hfront : front ≠ []) (hls : ls ≠ []) :
    ['.'].intercalate (front ++ ls) = ['.'].intercalate front ++ '.' :: ['.'].intercalate ls := by
  induction front with
  | nil => exact absurd rfl hfront
  | cons x front ih =>
    rw [cons_append, intercalate_cons_of_ne_nil (by simp [hls])]
    by_cases hnil : front = []
    · simp [hnil]
    · rw [ih hnil, intercalate_cons_of_ne_nil hnil]
      simp

/-- The labels of `d` are the last ones of `s`. -/
theorem splitOn_suffix_iff {d s : Text} :
    d.splitOn '.' <:+ s.splitOn '.' ↔ s = d ∨ ∃ a, s = a ++ '.' :: d := by
  constructor
  · rintro ⟨front, hfront⟩
    have hjoin : s = ['.'].intercalate (front ++ d.splitOn '.') := by
      rw [hfront, intercalate_splitOn]
    by_cases hnil : front = []
    · left
      rw [hjoin, hnil, nil_append, intercalate_splitOn]
    · right
      refine ⟨['.'].intercalate front, ?_⟩
      rw [hjoin, intercalate_append_ne_nil hnil (splitOn_ne_nil '.' d), intercalate_splitOn]
  · rintro (rfl | ⟨a, rfl⟩)
    · exact suffix_rfl
    · rw [splitOn_append_cons_self]
      exact suffix_append _ _

/-- The walk finds the domains whose labels are the last ones of the name. -/
theorem nameOrParentIn_iff {set : List Text} (hset : [] ∉ set) {s : Text} :
    nameOrParentIn set s = true ↔ ∃ d ∈ set, d.splitOn '.' <:+ s.splitOn '.' := by
  simp only [nameOrParentIn, Bool.or_eq_true, decide_eq_true_eq, parentIn_iff, splitOn_suffix_iff]
  constructor
  · rintro (h | ⟨a, b, heq, -, hb⟩)
    · exact ⟨s, h, Or.inl rfl⟩
    · exact ⟨b, hb, Or.inr ⟨a, heq⟩⟩
  · rintro ⟨d, hd, rfl | ⟨a, heq⟩⟩
    · exact Or.inl hd
    · exact Or.inr ⟨a, d, heq, fun hnil => hset (hnil ▸ hd), hd⟩

/-! ## The two strings -/

theorem plain_label {l : Bytes} (h : ∀ b ∈ l, PlainByte b) :
    '.' ∉ latin l ∧ l.flatMap Name.escapeByte = l := by
  have hbyte : ∀ b : Byte, PlainByte b → Char.ofNat b.val ≠ '.' ∧ Name.escapeByte b = [b] := by
    unfold PlainByte
    decide +kernel
  constructor
  · intro hmem
    obtain ⟨b, hb, heq⟩ := mem_map.mp hmem
    exact (hbyte b (h b hb)).1 heq
  · calc l.flatMap Name.escapeByte = l.flatMap fun b => [b] :=
        flatMap_congr fun b hb => (hbyte b (h b hb)).2
      _ = l := by simp

theorem count_escapeByte (b : Byte) :
    List.count 92 [b] ≤ List.count 92 (Name.escapeByte b) ∧
      (¬ PlainByte b → List.count 92 [b] < List.count 92 (Name.escapeByte b)) := by
  revert b
  unfold PlainByte
  decide +kernel

theorem count_escaped (l : Bytes) :
    l.count 92 ≤ (l.flatMap Name.escapeByte).count 92 ∧
      ((∃ b ∈ l, ¬ PlainByte b) → l.count 92 < (l.flatMap Name.escapeByte).count 92) := by
  induction l with
  | nil => simp
  | cons b l ih =>
    obtain ⟨hle, hlt⟩ := count_escapeByte b
    rw [flatMap_cons, count_append, ← singleton_append, count_append]
    refine ⟨Nat.add_le_add hle ih.1, ?_⟩
    rintro ⟨b', hb', hplain⟩
    rcases mem_append.mp hb' with hb' | hb'
    · rw [mem_singleton.mp hb'] at hplain
      exact Nat.add_lt_add_of_lt_of_le (hlt hplain) ih.1
    · exact Nat.add_lt_add_of_le_of_lt hle (ih.2 ⟨b', hb', hplain⟩)

theorem count_latin (bs : Bytes) : (latin bs).count '\\' = bs.count 92 := by
  have hbyte : ∀ b : Byte, (Char.ofNat b.val == '\\') = (b == 92) := by decide +kernel
  rw [latin, List.count, countP_map]
  congr 1
  funext b
  exact hbyte b

theorem count_intercalate (ls : List Bytes) :
    (['.'].intercalate (ls.map latin)).count '\\' = ls.flatten.count 92 := by
  induction ls with
  | nil => rfl
  | cons l ls ih =>
    by_cases hnil : ls = []
    · simp [hnil, count_latin]
    · rw [map_cons, intercalate_cons_of_ne_nil (by simpa using hnil)]
      simp only [count_append, ih, count_latin]
      simp

/-- What `trim_end_matches` takes away holds no backslash. -/
theorem count_trimEndMatches (s : Text) : (trimEndMatches '.' s).count '\\' = s.count '\\' := by
  unfold trimEndMatches
  induction s using List.reverseRecOn with
  | nil => rfl
  | append_singleton s c ih =>
    by_cases hc : c = '.'
    · rw [rdropWhile_concat_pos _ _ _ (by simpa using hc), ih, hc]
      simp
    · rw [rdropWhile_concat_neg _ _ _ (by simpa using hc)]

variable {n : Name}

section

variable (h : n.labels ≠ [])
include h

theorem slowQname_eq :
    slowQname n = latin (n.labelsLower.flatMap fun l => l.flatMap Name.escapeByte ++ [46]) := by
  rw [slowQname, Name.lower_toAscii, Name.toAscii, if_neg]
  · rfl
  · rw [Name.isRoot_iff]
    simpa [Name.lowered, Name.labelsLower] using h

/-- The slow path's string has more backslashes once an octet is escaped. -/
theorem count_slowQname (hplain : ¬ ∀ l ∈ n.labelsLower, ∀ b ∈ l, PlainByte b) :
    (['.'].intercalate (n.labelsLower.map latin)).count '\\' < (slowQname n).count '\\' := by
  have hflat : ∀ ls : List Bytes,
      (ls.flatMap fun l => l.flatMap Name.escapeByte ++ [46]).count 92 =
        (ls.flatten.flatMap Name.escapeByte).count 92 := by
    intro ls
    induction ls with
    | nil => rfl
    | cons l ls ih => simp [ih]
  rw [slowQname_eq h, count_latin, count_intercalate, hflat]
  push Not at hplain
  obtain ⟨l, hl, b, hb, hno⟩ := hplain
  exact (count_escaped _).2 ⟨b, mem_flatten.mpr ⟨l, hl, hb⟩, hno⟩

section

variable (hplain : ∀ l ∈ n.labelsLower, ∀ b ∈ l, PlainByte b)
include hplain

theorem strings_of_plain :
    trimEndMatches '.' (['.'].intercalate (n.labelsLower.map latin)) =
        ['.'].intercalate (n.labelsLower.map latin) ∧
      slowQname n = ['.'].intercalate (n.labelsLower.map latin) ++ ['.'] ∧
      (['.'].intercalate (n.labelsLower.map latin)).splitOn '.' = n.labelsLower.map latin := by
  have hne : n.labelsLower.map latin ≠ [] := by simpa [Name.labelsLower] using h
  have hsplit : (['.'].intercalate (n.labelsLower.map latin)).splitOn '.' =
      n.labelsLower.map latin := by
    refine splitOn_intercalate _ (fun t ht => ?_) hne
    obtain ⟨l, hl, rfl⟩ := mem_map.mp ht
    exact (plain_label (hplain l hl)).1
  refine ⟨rdropWhile_eq_self_iff.mpr fun hF hdot => ?_, ?_, hsplit⟩
  · -- a dot at the end would make the last label empty
    have hchar : (['.'].intercalate (n.labelsLower.map latin)).getLast hF = '.' := by
      simpa using hdot
    have hlast := dropLast_append_getLast hF
    rw [hchar] at hlast
    rw [← hlast, splitOn_append_cons_self] at hsplit
    have hempty : [] ∈ n.labelsLower.map latin := by
      rw [← hsplit]
      simp
    obtain ⟨l, hl, hnil⟩ := mem_map.mp hempty
    have hpos := (n.labelsLower_bound l hl).1
    rw [map_eq_nil_iff.mp hnil] at hpos
    exact absurd hpos (by decide)
  · rw [slowQname_eq h, ← Text.flatMap_append_separator '.' hne, flatMap_map, latin, map_flatMap]
    refine flatMap_congr fun l hl => ?_
    rw [(plain_label (hplain l hl)).2, map_append]
    rfl

theorem blocks_of_plain (policies : List SubnetPolicy) (ip : IpAddr) :
    blocks policies ip (['.'].intercalate (n.labelsLower.map latin)) = true ↔
      PolicyLists policies ip n := by
  obtain ⟨htrim, -, hsplit⟩ := strings_of_plain h hplain
  have hdomains : ∀ p : SubnetPolicy, [] ∉ p.domains := by
    intro p hmem
    simpa using (mem_filter.mp hmem).2
  simp only [blocks, htrim, any_eq_true, Bool.and_eq_true, nameOrParentIn_iff (hdomains _), hsplit]
  rfl

end

end

theorem anyClient_fits : 0 ≤ width (.v4 0) := Nat.zero_le _

/-- `0.0.0.0/0` -/
def anyClient : CidrBlock := ⟨.v4 0, 0, anyClient_fits⟩

/-- The policy for every IPv4 client that lists the slow path's string of the name. -/
def slowPolicy (n : Name) : SubnetPolicy where
  cidr := anyClient
  blacklistExtra := [slowQname n]

theorem printable_char (b : Byte) (h : 0x21 ≤ b.val ∧ b.val ≤ 0x7E) :
    Text.isWhitespace (Char.ofNat (toAsciiLowercase b).val) = false ∧
      (Char.ofNat (toAsciiLowercase b).val).toLower = Char.ofNat (toAsciiLowercase b).val := by
  revert b
  decide +kernel

theorem printable_escapeByte (b : Byte) : ∀ c ∈ Name.escapeByte b, 0x21 ≤ c.val ∧ c.val ≤ 0x7E := by
  have hdigit : ∀ k, k < 10 → 0x21 ≤ (Fin.ofNat 256 (48 + k)).val ∧
      (Fin.ofNat 256 (48 + k)).val ≤ 0x7E := by
    intro k hk
    rw [Fin.val_ofNat]
    omega
  have hbackslash : 0x21 ≤ (92 : Byte).val ∧ (92 : Byte).val ≤ 0x7E := by decide
  unfold Name.escapeByte
  split_ifs with hdot hprintable
  · have hval : 0x21 ≤ b.val ∧ b.val ≤ 0x7E := by rcases hdot with rfl | rfl <;> decide
    simp only [forall_mem_cons, not_mem_nil, false_implies, implies_true, and_true]
    exact ⟨hbackslash, hval⟩
  · simpa using hprintable
  · simp only [forall_mem_cons, not_mem_nil, false_implies, implies_true, and_true]
    exact ⟨hbackslash, hdigit _ (by omega), hdigit _ (by omega), hdigit _ (by omega)⟩

theorem printable_toAscii {b : Byte} (h : b ∈ n.toAscii) : 0x21 ≤ b.val ∧ b.val ≤ 0x7E := by
  have hdot : ∀ {b : Byte}, b ∈ ([46] : Bytes) → 0x21 ≤ b.val ∧ b.val ≤ 0x7E := by
    simp
  unfold Name.toAscii at h
  split_ifs at h
  · exact hdot h
  · obtain ⟨l, -, h⟩ := mem_flatMap.mp h
    rcases mem_append.mp h with h | h
    · obtain ⟨b', -, h⟩ := mem_flatMap.mp h
      exact printable_escapeByte b' b h
    · exact hdot h

theorem slowQname_chars {c : Char} (h : c ∈ slowQname n) :
    Text.isWhitespace c = false ∧ c.toLower = c := by
  obtain ⟨b, hb, hc⟩ := mem_map.mp h
  obtain ⟨b', hb', hlower⟩ := mem_map.mp hb
  rw [← hc, ← hlower]
  exact printable_char b' (printable_toAscii hb')

/-- `compile_with` keeps that string, but for the final dots. -/
theorem domains_slowPolicy (h : trimEndMatches '.' (slowQname n) ≠ []) :
    (slowPolicy n).domains = [trimEndMatches '.' (slowQname n)] := by
  have htrim : Text.trim (slowQname n) = slowQname n :=
    Text.trim_eq_self fun c hc => (slowQname_chars hc).1
  have hlower : (trimEndMatches '.' (slowQname n)).map Char.toLower =
      trimEndMatches '.' (slowQname n) := by
    refine (map_congr_left fun c hc => ?_).trans (map_id _)
    exact (slowQname_chars ((List.rdropWhile_prefix _ _).subset hc)).2
  simp only [SubnetPolicy.domains, slowPolicy, map_cons, map_nil, htrim, hlower]
  rw [filter_cons_of_pos (by simpa using h), filter_nil]

/-- On both paths every policy set gives every client the right verdict exactly if `to_ascii`
    escapes no octet of the name. -/
theorem policy_agrees_iff (n : Name) :
    (∀ policies ip, (fastBlocks policies ip n = true ↔ PolicyLists policies ip n) ∧
      (blocks policies ip (slowQname n) = true ↔ PolicyLists policies ip n)) ↔
        ∀ l ∈ n.labelsLower, ∀ b ∈ l, PlainByte b := by
  by_cases hroot : n.labels = []
  · -- the root is never listed and never blocked
    have hlower : n.labelsLower = [] := by simp [Name.labelsLower, hroot]
    have hlisted : ∀ policies ip, ¬ PolicyLists policies ip n := by
      rintro policies ip ⟨p, -, -, d, -, hsuffix⟩
      rw [hlower] at hsuffix
      exact splitOn_ne_nil '.' d (suffix_nil.mp hsuffix)
    have hslow : trimEndMatches '.' (slowQname n) = [] := by
      rw [Name.ext_labels (a := n) (b := Name.root) hroot]
      decide +kernel
    refine iff_of_true (fun policies ip => ?_) (by simp [hlower])
    refine ⟨iff_of_false ?_ (hlisted _ _), iff_of_false ?_ (hlisted _ _)⟩
    · simp [fastBlocks, wireQnameToPresentation, hroot]
    · simp [blocks, hslow, nameOrParentIn, parentIn, SubnetPolicy.domains]
  have hfast : ∀ policies ip, fastBlocks policies ip n =
      blocks policies ip (['.'].intercalate (n.labelsLower.map latin)) := by
    intro policies ip
    rw [fastBlocks, wireQnameToPresentation, if_neg hroot]
    rfl
  constructor
  · intro h
    by_contra hplain
    -- the slow path blocks its own string, which is not part of the shorter one of the fast path
    have hcount := count_slowQname hroot hplain
    have hne : trimEndMatches '.' (slowQname n) ≠ [] := by
      intro hnil
      rw [← count_trimEndMatches (slowQname n), hnil] at hcount
      exact absurd hcount (by simp)
    have hdomains := domains_slowPolicy hne
    have hslow : blocks [slowPolicy n] (.v4 0) (slowQname n) = true := by
      simp [blocks, hdomains, nameOrParentIn,
        show (slowPolicy n).cidr.contains (.v4 0) = true from rfl]
    have hboth := ((h [slowPolicy n] (.v4 0)).1.trans (h [slowPolicy n] (.v4 0)).2.symm).mpr hslow
    rw [hfast] at hboth
    simp only [blocks, any_cons, any_nil, Bool.or_false, Bool.and_eq_true, hdomains,
      nameOrParentIn, Bool.or_eq_true, decide_eq_true_eq, mem_singleton, parentIn_iff] at hboth
    rw [← count_trimEndMatches, ← count_trimEndMatches (slowQname n)] at hcount
    rcases hboth.2 with heq | ⟨a, b, heq, -, rfl⟩
    · rw [heq] at hcount
      exact lt_irrefl _ hcount
    · rw [heq, count_append, count_cons] at hcount
      omega
  · intro hplain policies ip
    have hblocks := blocks_of_plain hroot hplain policies ip
    obtain ⟨-, hslow, -⟩ := strings_of_plain hroot hplain
    refine ⟨by rw [hfast]; exact hblocks, ?_⟩
    rw [← hblocks, hslow, blocks, blocks, trimEndMatches, rdropWhile_concat_pos _ _ _ (by decide)]
    rfl

theorem dottedName_ok : LabelsOk [[98, 46, 97]] := by decide

/-- The name of the one label `b.a`. -/
def dottedName : Name := ⟨[[98, 46, 97]], dottedName_ok⟩

/-- One label `b.a`, and a policy that lists `a`: it is not listed, and blocked on both paths. -/
theorem dotted_label_blocked :
    let n : Name := dottedName
    let policies : List SubnetPolicy := [⟨anyClient, [['a']]⟩]
    ¬ PolicyLists policies (.v4 0) n ∧ fastBlocks policies (.v4 0) n = true ∧
      blocks policies (.v4 0) (slowQname n) = true := by
  refine ⟨?_, by decide +kernel, by decide +kernel⟩
  rintro ⟨p, hp, -, d, hd, hsuffix⟩
  rw [mem_singleton.mp hp] at hd
  rw [mem_singleton.mp (show d ∈ [['a']] from hd)] at hsuffix
  exact absurd hsuffix (by decide +kernel)

end Runbound.Server
