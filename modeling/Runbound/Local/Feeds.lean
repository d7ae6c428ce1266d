import Runbound.Lib.Text
import Runbound.Local.Update

/-!
# Feed entries (`feeds/mod.rs`)

A feed is a text in one of three formats. The three parsers return what passes one check, and
each domain becomes a zone.

Results:
* `fromAscii_of_valid`: a domain that passes the check is a name, with or without a final dot.
* `findWire_overrideZone`: a zone speaks for its name and those below without a zone between.
* `feed_blocks_subtree`: so does every domain of a feed.
-/

namespace Runbound.Local

open Wire Lib Lib.Text List Name Function

/-! ## The parsers -/

/-- `FeedFormat` (feeds/mod.rs:45). -/
inductive FeedFormat
  | hosts
  | domains
  | adblock

/-- `str::lines`. -/
def textLines (s : Text) : List Text :=
  let parts := s.splitOn '\n'
  let parts := if parts.getLast? = some [] then parts.dropLast else parts
  parts.map fun l => if l.getLast? = some '\r' then l.dropLast else l

/-- The characters of a label (feeds/mod.rs:583). -/
def domainChar (c : Char) : Bool :=
  (48 ≤ c.toNat && c.toNat ≤ 57) || (65 ≤ c.toNat && c.toNat ≤ 90) ||
    (97 ≤ c.toNat && c.toNat ≤ 122) || c.toNat = 45 || c.toNat = 95

/-- One label (feeds/mod.rs:570-587). -/
def validLabel (label : Text) : Bool :=
  label ≠ [] && label.length ≤ 63 && label.head? ≠ some '-' && label.getLast? ≠ some '-' &&
    label.all domainChar

/-- `strip_suffix('.')`. -/
def stripDot (s : Text) : Text := if s.getLast? = some '.' then s.dropLast else s

/-- `is_valid_domain` (feeds/mod.rs:559). A text with a character beyond ASCII fails whatever
    its length in octets, so that the length is counted in characters. -/
def isValidDomain (s : Text) : Bool :=
  let s := stripDot s
  s ≠ [] && s.length ≤ 253 && '.' ∈ s && (s.splitOn '.').all validLabel

/-- `to_lowercase` of a valid domain. -/
def checkedDomain (s : Text) : Option Text :=
  if isValidDomain s then some (s.map Char.toLower) else none

/-- The names of a hosts file that are skipped (feeds/mod.rs:497-502). -/
def localNames : List Text :=
  ["localhost".toList, "localhost.localdomain".toList, "local".toList, "broadcasthost".toList,
    "ip6-localhost".toList, "ip6-loopback".toList]

/-- A line of `parse_hosts` (feeds/mod.rs:485-510). -/
def parseHostsLine (line : Text) : Option Text :=
  let line := trim line
  if line = [] ∨ line.head? = some '#' then none
  else
    let parts :=
      (List.splitOnP isWhitespace (trim (line.takeWhile (· ≠ '#')))).filter fun w => !w.isEmpty
    let address := parts.getD 0 []
    if 2 ≤ parts.length ∧ (address = "0.0.0.0".toList ∨ address = "127.0.0.1".toList) then
      let domain := parts.getD 1 []
      if localNames.contains domain then none else checkedDomain domain
    else none

/-- A line of `parse_domains` (feeds/mod.rs:519-527). -/
def parseDomainsLine (line : Text) : Option Text :=
  let line := trim ((trim line).takeWhile (· ≠ '#'))
  if line = [] then none else checkedDomain line

/-- A line of `parse_adblock` (feeds/mod.rs:536-554); one that starts with `!` or `[` does not
    start with `||`. -/
def parseAdblockLine (line : Text) : Option Text :=
  let line := trim line
  if line.take 2 = ['|', '|'] then
    checkedDomain (trim (((line.drop 2).takeWhile (· ≠ '^')).takeWhile (· ≠ '$')))
  else none

/-- The parser of a line. -/
def FeedFormat.parseLine : FeedFormat → Text → Option Text
  | hosts => parseHostsLine
  | domains => parseDomainsLine
  | adblock => parseAdblockLine

/-- The order of strings. -/
def textLe : Text → Text → Bool
  | [], _ => true
  | _ :: _, [] => false
  | a :: s, b :: t => a.toNat < b.toNat || (a.toNat = b.toNat && textLe s t)

/-- The list without what equals its predecessor, the first of which is `prev`. -/
def dedupFrom (prev : Text) : List Text → List Text
  | [] => []
  | s :: rest => if s = prev then dedupFrom prev rest else s :: dedupFrom s rest

/-- `Vec::dedup`. -/
def dedupNeighbours : List Text → List Text
  | [] => []
  | s :: rest => s :: dedupFrom s rest

/-- `parse_feed_content` (feeds/mod.rs:591). -/
def parseFeedContent (content : Text) (format : FeedFormat) : List Text :=
  dedupNeighbours (((textLines content).filterMap format.parseLine).mergeSort textLe)

/-- The octets of an ASCII text. -/
def asciiBytes (s : Text) : Bytes := s.map fun c => Fin.ofNat 256 c.toNat

/-! ## Valid domains -/

theorem mem_of_mem_dedupNeighbours {d : Text} {l : List Text} (h : d ∈ dedupNeighbours l) :
    d ∈ l := by
  have hfrom : ∀ (l : List Text) (prev : Text), d ∈ dedupFrom prev l → d ∈ l := by
    intro l
    induction l with
    | nil => exact fun _ h => h
    | cons s l ih =>
      intro prev h
      unfold dedupFrom at h
      split_ifs at h
      · exact mem_cons_of_mem s (ih prev h)
      · rcases mem_cons.mp h with rfl | h
        · exact mem_cons_self
        · exact mem_cons_of_mem s (ih s h)
  cases l with
  | nil => exact h
  | cons s l =>
    rcases mem_cons.mp h with rfl | h
    · exact mem_cons_self
    · exact mem_cons_of_mem s (hfrom l s h)

theorem mem_parseFeedContent {content : Text} {format : FeedFormat} {d : Text}
    (h : d ∈ parseFeedContent content format) :
    ∃ s, isValidDomain s = true ∧ d = s.map Char.toLower := by
  have hchecked : ∀ {s : Text}, checkedDomain s = some d →
      ∃ s, isValidDomain s = true ∧ d = s.map Char.toLower := by
    intro s hs
    unfold checkedDomain at hs
    split_ifs at hs with hvalid
    exact ⟨s, hvalid, (Option.some.inj hs).symm⟩
  have hsorted := mem_mergeSort.mp (mem_of_mem_dedupNeighbours h)
  obtain ⟨line, -, hline⟩ := mem_filterMap.mp hsorted
  cases format with
  | hosts =>
    unfold FeedFormat.parseLine parseHostsLine at hline
    dsimp only at hline
    split_ifs at hline
    exact hchecked hline
  | domains =>
    unfold FeedFormat.parseLine parseDomainsLine at hline
    dsimp only at hline
    split_ifs at hline
    exact hchecked hline
  | adblock =>
    unfold FeedFormat.parseLine parseAdblockLine at hline
    dsimp only at hline
    split_ifs at hline
    exact hchecked hline

theorem escapeByte_domainChar {c : Char} (h : domainChar c = true) :
    Name.escapeByte (Fin.ofNat 256 c.toLower.toNat) = [Fin.ofNat 256 c.toLower.toNat] ∧
      (Fin.ofNat 256 c.toLower.toNat : Byte) ≠ 92 := by
  have hascii : c.toNat < 128 := by
    simp only [domainChar, Bool.or_eq_true, Bool.and_eq_true, decide_eq_true_eq] at h
    omega
  have hall : ∀ n : Fin 128, domainChar (Char.ofNat n) = true →
      Name.escapeByte (Fin.ofNat 256 (Char.ofNat n).toLower.toNat) =
          [Fin.ofNat 256 (Char.ofNat n).toLower.toNat] ∧
        (Fin.ofNat 256 (Char.ofNat n).toLower.toNat : Byte) ≠ 92 := by
    decide +kernel
  have hc := hall ⟨c.toNat, hascii⟩
  rw [show Char.ofNat c.toNat = c from Char.ofNat_toNat c] at hc
  exact hc h

theorem fromAscii_append_dot {x : Bytes} (h : (92 : Byte) ∉ x) :
    (Name.fromAscii (x ++ [46])).toOption = (Name.fromAscii x).toOption := by
  have hpresents := presents_plain h
  rw [hpresents.toOption_fromAscii, (hpresents.append (.dot .nil)).toOption_fromAscii]
  simp only [pieces_dot, show pieces [] = [] from rfl, append_nil]

theorem textKey_of_plain {x : Bytes} (h : (92 : Byte) ∉ x) :
    textKey x = (Name.fromAscii x).toOption.map wireNameKey := by
  unfold textKey fqdn
  split_ifs
  · rfl
  · rw [fromAscii_append_dot h]

/-- A label in lower case, as octets. -/
def labelBytes (l : Text) : Bytes := asciiBytes (l.map Char.toLower)

/-- The octets of a label are written as they are, and none of them starts an escape. -/
theorem escape_labelBytes {l : Text} (h : ∀ c ∈ l, domainChar c = true) :
    (labelBytes l).flatMap Name.escapeByte = labelBytes l ∧ (92 : Byte) ∉ labelBytes l := by
  induction l with
  | nil => exact ⟨rfl, not_mem_nil⟩
  | cons c l ih =>
    obtain ⟨hescape, hbackslash⟩ := escapeByte_domainChar (h c (by simp))
    obtain ⟨hrest, hnone⟩ := ih fun c' hc' => h c' (by simp [hc'])
    refine ⟨?_, ?_⟩
    · show Name.escapeByte _ ++ (labelBytes l).flatMap Name.escapeByte = _
      rw [hescape, hrest]
      rfl
    · exact not_mem_cons_of_ne_of_not_mem (fun heq => hbackslash heq.symm) hnone

theorem fromAscii_of_valid {s : Text} (h : isValidDomain s = true) :
    ∃ n : Name, (Name.fromAscii (asciiBytes (s.map Char.toLower))).toOption = some n ∧
      textKey (asciiBytes (s.map Char.toLower)) = some (wireNameKey n) := by
  simp only [isValidDomain, Bool.and_eq_true, decide_eq_true_eq, all_eq_true] at h
  obtain ⟨⟨⟨-, hlen⟩, -⟩, hlabels⟩ := h
  have hlabel : ∀ l ∈ (stripDot s).splitOn '.', 0 < l.length ∧ l.length ≤ 63 ∧
      ∀ c ∈ l, domainChar c = true := by
    intro l hl
    have hvalid := hlabels l hl
    simp only [validLabel, Bool.and_eq_true, decide_eq_true_eq, all_eq_true] at hvalid
    exact ⟨length_pos_of_ne_nil hvalid.1.1.1.1, hvalid.1.1.1.2, hvalid.2⟩
  generalize stripDot_eq : stripDot s = base at hlen hlabel
  -- the labels of the name, each before a dot
  have hdots : ((base.splitOn '.').map labelBytes).flatMap (fun l => l ++ [46]) =
      labelBytes base ++ [46] := by
    simpa [labelBytes, asciiBytes, map_flatMap, flatMap_map] using
      congrArg labelBytes (splitOn_flatMap '.' base)
  have hok : LabelsOk ((base.splitOn '.').map labelBytes) := by
    refine ⟨?_, ?_⟩
    · intro l hl
      obtain ⟨t, ht, rfl⟩ := mem_map.mp hl
      obtain ⟨hpos, hmax, -⟩ := hlabel t ht
      rw [labelBytes, asciiBytes, length_map, length_map]
      exact ⟨hpos, hmax⟩
    · have hlength : labelsLen ((base.splitOn '.').map labelBytes) = base.length + 1 := by
        simpa [labelsLen, labelBytes, asciiBytes] using congrArg length hdots
      show labelsLen ((base.splitOn '.').map labelBytes) + 1 ≤ 255
      omega
  have hplain : ∀ l ∈ (base.splitOn '.').map labelBytes,
      l.flatMap Name.escapeByte = l ∧ (92 : Byte) ∉ l := by
    intro l hl
    obtain ⟨t, ht, rfl⟩ := mem_map.mp hl
    exact escape_labelBytes (hlabel t ht).2.2
  have hbackslash : (92 : Byte) ∉ labelBytes base := by
    intro hmem
    have hdotted := mem_append_left [46] hmem
    rw [← hdots, mem_flatMap] at hdotted
    obtain ⟨l, hl, hmem⟩ := hdotted
    exact (hplain l hl).2 (by simpa using hmem)
  have hbase : (Name.fromAscii (labelBytes base)).toOption = some ⟨_, hok⟩ := by
    obtain ⟨ts, hts, hpieces⟩ := presents_labels fun l hl => ne_nil_of_length_pos (hok.label l hl).1
    rw [flatMap_congr fun l hl => by rw [(hplain l hl).1], hdots] at hts
    rw [← fromAscii_append_dot hbackslash,
      hts.fromAscii_eq_ok_iff.mpr (show Name.labels ⟨_, hok⟩ = _ from hpieces.symm)]
    rfl
  -- the domain is its base, or its base with a dot
  have hs : (92 : Byte) ∉ labelBytes s ∧
      (Name.fromAscii (labelBytes s)).toOption = some ⟨_, hok⟩ := by
    unfold stripDot at stripDot_eq
    split_ifs at stripDot_eq with hlast
    · have hdot : labelBytes s = labelBytes base ++ [46] := by
        rw [← dropLast_append_getLast? '.' hlast, stripDot_eq]
        simp [labelBytes, asciiBytes]
      rw [hdot, fromAscii_append_dot hbackslash]
      exact ⟨by simpa using hbackslash, hbase⟩
    · rw [stripDot_eq]
      exact ⟨hbackslash, hbase⟩
  exact ⟨_, hs.2, (textKey_of_plain hs.1).trans (by rw [hs.2]; rfl)⟩

/-! ## Zones -/

/-- No zone between `k` and the name `ls` below it. -/
def NoneBetween {β γ : Type} (f : List β → Option γ) (k ls : List β) : Prop :=
  ∀ t, t <:+ ls → k <:+ t → t ≠ k → f t = none

/-- What a new value for one list changes on the way up from another. -/
theorem findSome?_tails_update {β γ : Type} [DecidableEq β] (f : List β → Option γ) (k : List β)
    (a : γ) (ls : List β) :
    (k <:+ ls ∧ NoneBetween f k ls → ls.tails.findSome? (Function.update f k (some a)) = some a) ∧
      (¬ (k <:+ ls ∧ NoneBetween f k ls) →
        ls.tails.findSome? (Function.update f k (some a)) = ls.tails.findSome? f) := by
  induction ls with
  | nil =>
    have hnil : ∀ g : List β → Option γ, ([] : List β).tails.findSome? g = g [] := by
      simp
    rw [hnil, hnil, suffix_nil]
    by_cases hk : k = []
    · subst hk
      refine ⟨fun _ => update_self .., fun h => absurd ⟨rfl, ?_⟩ h⟩
      intro t ht _ hne
      exact absurd (suffix_nil.mp ht) hne
    · exact ⟨fun h => absurd h.1 hk, fun _ => update_of_ne (fun heq => hk heq.symm) ..⟩
  | cons b ls ih =>
    rw [tails_cons, findSome?_cons, findSome?_cons]
    by_cases hk : k = b :: ls
    · rw [← hk, update_self]
      refine ⟨fun _ => rfl, fun h => absurd ⟨suffix_rfl, ?_⟩ h⟩
      intro t ht hkt hne
      exact absurd (ht.eq_of_length (ht.length_le.antisymm hkt.length_le)) hne
    rw [update_of_ne fun heq => hk heq.symm]
    have hsuffix : k <:+ b :: ls ↔ k <:+ ls := by
      rw [suffix_cons_iff]
      exact or_iff_right hk
    cases hf : f (b :: ls) with
    | some c =>
      refine ⟨fun h => ?_, fun _ => rfl⟩
      have hnone := h.2 _ suffix_rfl h.1 fun heq => hk heq.symm
      cases hf.symm.trans hnone
    | none =>
      have hbetween : NoneBetween f k (b :: ls) ↔ NoneBetween f k ls := by
        refine ⟨fun h t ht => h t (ht.trans (suffix_cons b ls)), fun h t ht hkt hne => ?_⟩
        rcases suffix_cons_iff.mp ht with rfl | ht
        · exact hf
        · exact h t ht hkt hne
      rw [hsuffix, hbetween]
      exact ih

/-- `m` is `n` or below it, without regard to case, and no zone is more specific for it. -/
def Under (z : LocalZoneSet) (n m : Name) : Prop :=
  n.labelsLower <:+ m.labelsLower ∧
    NoneBetween (fun t => z.zonesWire.lookup (labelsKey t)) n.labelsLower m.labelsLower

/-- A new zone speaks for its name and for those below without a zone between; every other
    name keeps its own. -/
theorem findWire_overrideZone (z : LocalZoneSet) {text : Bytes} {n : Name} (a : ZoneAction)
    (h : textKey text = some (wireNameKey n)) (m : Name) :
    (Under z n m → (z.overrideZone text a).findWire (wireNameKey m) = some a) ∧
      (¬ Under z n m →
        (z.overrideZone text a).findWire (wireNameKey m) = z.findWire (wireNameKey m)) := by
  have hfind : ∀ z : LocalZoneSet, z.findWire (wireNameKey m) =
      m.labelsLower.tails.findSome? fun t => z.zonesWire.lookup (labelsKey t) := by
    intro z
    rw [wireNameKey, lower_wire]
    exact walkUp_labels _ m.labelsLower_bound (length_lt_labelsKey _)
  have hmap : m.labelsLower.tails.findSome?
        (fun t => (z.overrideZone text a).zonesWire.lookup (labelsKey t)) =
      m.labelsLower.tails.findSome? (Function.update
        (fun t => z.zonesWire.lookup (labelsKey t)) n.labelsLower (some a)) := by
    rw [← head?_filterMap, ← head?_filterMap]
    congr 1
    apply filterMap_congr
    intro t ht
    have hbound : ∀ l ∈ t, Name.LabelBound l := fun l hl =>
      m.labelsLower_bound l (((mem_tails _ _).mp ht).subset hl)
    simp only [LocalZoneSet.overrideZone, h, Map.lookup_insert_eq, update_apply]
    rw [wireNameKey, lower_wire]
    have hinj : labelsKey t = n.labelsLower.flatMap Name.labelWire ++ [0] ↔ t = n.labelsLower :=
      ⟨fun heq => (labelsWire_selfDelimiting t n.labelsLower [] [] hbound n.labelsLower_bound
        (by simpa [labelsKey] using heq)).1, fun heq => by rw [heq, labelsKey]⟩
    simp only [hinj]
  rw [hfind, hfind, hmap]
  exact findSome?_tails_update _ _ a _

/-- Every domain of a feed is a name, and its zone speaks for the name and what is below. -/
theorem feed_blocks_subtree (content : Text) (format : FeedFormat) {d : Text}
    (hd : d ∈ parseFeedContent content format) :
    ∃ n : Name, (Name.fromAscii (asciiBytes d)).toOption = some n ∧
      ∀ (z : LocalZoneSet) (a : ZoneAction) (m : Name),
        (Under z n m → (z.overrideZone (asciiBytes d) a).findWire (wireNameKey m) = some a) ∧
          (¬ Under z n m → (z.overrideZone (asciiBytes d) a).findWire (wireNameKey m) =
            z.findWire (wireNameKey m)) := by
  obtain ⟨s, hvalid, rfl⟩ := mem_parseFeedContent hd
  obtain ⟨n, hparse, hkey⟩ := fromAscii_of_valid hvalid
  exact ⟨n, hparse, fun z a m => findWire_overrideZone z a hkey m⟩

/-- The feed `||b.a^` blocks `c.b.a.` in a set that has `a.`, and leaves `a.` as it is. -/
theorem feed_blocks_subtree_adblock :
    let blocked := zonesA.overrideZone (asciiBytes "b.a".toList) .nxDomain
    "b.a".toList ∈ parseFeedContent "||b.a^".toList .adblock ∧
      blocked.findWire (wireNameKey ⟨[[99], [98], [97]], by decide⟩) = some .nxDomain ∧
      blocked.findWire (wireNameKey nameA) = zonesA.findWire (wireNameKey nameA) ∧
      zonesA.findWire (wireNameKey nameA) = some .static := by
  have hmem : "b.a".toList ∈ parseFeedContent "||b.a^".toList .adblock := by decide +kernel
  obtain ⟨n, hn, hsubtree⟩ := feed_blocks_subtree "||b.a^".toList .adblock hmem
  have hname : (Name.fromAscii (asciiBytes "b.a".toList)).toOption =
      some ⟨[[98], [97]], by decide⟩ := by decide +kernel
  obtain rfl := Option.some.inj (hn.symm.trans hname)
  refine ⟨hmem, (hsubtree zonesA .nxDomain _).1 ⟨?_, ?_⟩, (hsubtree zonesA .nxDomain _).2 ?_, ?_⟩
  · decide
  · have htails : ∀ t ∈ [[99], [98], [97]].tails, [[98], [97]] <:+ t → t ≠ [[98], [97]] →
        zonesA.zonesWire.lookup (labelsKey t) = none := by decide +kernel
    exact fun t ht => htails t ((mem_tails t _).mpr ht)
  · rintro ⟨hsuffix, -⟩
    exact absurd hsuffix (by decide)
  · decide +kernel

end Runbound.Local
