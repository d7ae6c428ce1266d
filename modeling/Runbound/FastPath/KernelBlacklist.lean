import Runbound.Wire.NameKey

/-!
# The blacklist in the kernel

`blacklist_reload` (`xdp/loader.rs`) fills a BPF map with a key of 256 octets for each domain: its
wire form, padded with zeros (`domain_to_key` of `xdp/blacklist.rs`). The XDP program
(`dns_xdp.c`) looks up the first 128 octets that stand where the QNAME of an IPv4 query starts,
padded in the same way, and answers NXDOMAIN where it finds them.

Results:

* `domainToKey_eq_some_iff`: which domains have a key, and which.
* `key_eq_iff`: for a QNAME of at most 129 octets the two keys agree exactly if the labels do,
  letter case included, and what follows the QNAME within the 128 octets is zero.
* `refines_iff`: when exactly the program answers the listed names and no others.
* `listed_not_found`: the query for the A record of a listed name is not answered.

**Deviation.** The program is followed for untagged IPv4 frames that are not ICMP. Redirections to
a CPU and to the AF_XDP socket are one verdict, and the counters are left out.
-/

namespace Runbound.FastPath

open Wire Wire.Name List

/-! ## The keys -/

/-- `BLACKLIST_MAX` (xdp/blacklist.rs:11). -/
def blacklistMax : ℕ := 500000

/-- A key of `BLACKLIST_KEY_LEN` octets that starts with `bs`. -/
def padded (bs : Bytes) : Bytes := bs ++ List.replicate (256 - bs.length) 0

/-- The loop of `domain_to_key` over the labels; `buf` is what has been written. -/
def writeLabels : List Bytes → Bytes → Option Bytes
  | [], buf => some buf
  | label :: rest, buf =>
    if label.length = 0 ∨ label.length > 63 then none
    else if buf.length + 1 + label.length + 1 > 256 then none
    else writeLabels rest (buf ++ labelWire label)

/-- `domain_to_key` (xdp/blacklist.rs:18) of the octets of a domain. -/
def domainToKey (domain : Bytes) : Option Bytes :=
  let domain := domain.rdropWhile (· = 46)
  if domain.isEmpty then none
  else
    (writeLabels (domain.splitOn 46) []).bind fun buf =>
      if buf.length ≥ 256 then none else some (padded buf)

/-- `blacklist_reload` (xdp/loader.rs:482): the keys in the map, from which all others have been
    removed. Its capacity is that of the list. -/
def blacklistReload (domains : List Bytes) : List Bytes :=
  (domains.take blacklistMax).filterMap domainToKey

/-- `extract_qname_key` (dns_xdp.c:256) on the octets from the QNAME to the end of the frame. -/
def extractQnameKey (qname : Bytes) : Bytes := padded (qname.take 128)

/-! ## The program -/

/-- What becomes of a frame. -/
inductive Verdict
  | pass
  | drop
  | redirect
  | tx (reply : Bytes)
  deriving DecidableEq

/-- The maps `bans_active` and `icmp_banned`. -/
structure Bans where
  active : Bool
  banned : Bytes → Bool

/-- So many octets of a frame from an offset on. -/
def octets (frame : Bytes) (offset width : ℕ) : Bytes := (frame.drop offset).take width

/-- `forge_nxdomain_ipv4` (dns_xdp.c:271): MAC addresses, IP addresses and ports are swapped, the
    UDP checksum and the three counts cleared, and the flags QR, RA, NXDOMAIN set beside RD. -/
def forgeNxdomainIpv4 (frame : Bytes) : Bytes :=
  octets frame 6 6 ++ octets frame 0 6 ++ octets frame 12 14 ++ octets frame 30 4 ++
    octets frame 26 4 ++ octets frame 36 2 ++ octets frame 34 2 ++ octets frame 38 2 ++ [0, 0] ++
    octets frame 42 2 ++ (octets frame 44 1).map (fun b => Fin.ofNat 256 (0x80 + b.val % 2)) ++
    [0x83] ++ octets frame 46 2 ++ [0, 0, 0, 0, 0, 0] ++ frame.drop 54

/-- `dns_xdp` (dns_xdp.c:311) on an untagged IPv4 frame that is not ICMP; `none` for others. -/
def dnsXdp (blacklist : List Bytes) (bans : Bans) (frame : Bytes) : Option Verdict :=
  if frame.length < 14 then some .pass
  else if octets frame 12 2 ≠ [8, 0] then none
  else if frame.length < 34 then some .pass
  else if octets frame 23 1 = [1] then none
  else if octets frame 23 1 ≠ [17] then some .pass
  else if (octets frame 14 1).map (fun b => b.val % 16) ≠ [5] then some .pass
  else if frame.length < 42 then some .pass
  else if octets frame 36 2 ≠ [0, 53] then some .pass
  else if bans.active && bans.banned (octets frame 26 4) then some .drop
  else if extractQnameKey (frame.drop 54) ∈ blacklist ∧ 54 ≤ frame.length then
    some (.tx (forgeNxdomainIpv4 frame))
  else some .redirect

/-! ## Specification -/

/-- A domain as labels. -/
def labelsOf (domain : Bytes) : List Bytes :=
  let domain := domain.rdropWhile (· = 46)
  if domain.isEmpty then [] else domain.splitOn 46

/-- The name is one of the domains, without regard to letter case. -/
def Listed (domains : List Bytes) (qname : Name) : Prop :=
  ∃ d ∈ domains, (labelsOf d).map lower = qname.labels.map lower

instance decidableListed (domains : List Bytes) (qname : Name) : Decidable (Listed domains qname) :=
  inferInstanceAs (Decidable (∃ d ∈ domains, (labelsOf d).map lower = qname.labels.map lower))

/-- An IPv4 frame to UDP port 53 that carries a query with one question, and whatever comes after
    the question. -/
structure Frame where
  link : Bytes
  versionIhl : Byte
  ipStart : Bytes
  ipChecksum : Bytes
  src : Bytes
  dst : Bytes
  options : Bytes
  sport : Bytes
  udpEnd : Bytes
  id : Bytes
  flags : Bytes
  counts : Bytes
  qname : Name
  qtype : U16
  qclass : U16
  rest : Bytes
  link_length : link.length = 12
  ipStart_length : ipStart.length = 8
  ipChecksum_length : ipChecksum.length = 2
  src_length : src.length = 4
  dst_length : dst.length = 4
  options_length : options.length + 20 = 4 * (versionIhl.val % 16)
  sport_length : sport.length = 2
  udpEnd_length : udpEnd.length = 4
  id_length : id.length = 2
  flags_length : flags.length = 2
  query : ∀ b ∈ flags.head?, b.val < 128
  counts_length : counts.length = 6

namespace Frame

variable (f : Frame)

/-- What stands after the QNAME. -/
def after : Bytes := u16Be f.qtype ++ (u16Be f.qclass ++ f.rest)

/-- The IPv4 header, without options. -/
def ipHeader : Bytes := f.versionIhl :: f.ipStart ++ (17 :: f.ipChecksum ++ (f.src ++ f.dst))

/-- The UDP header and that of the message. -/
def headers : Bytes :=
  f.sport ++ ([0, 53] ++ f.udpEnd) ++ (f.id ++ (f.flags ++ ([0, 1] ++ f.counts)))

def bytes : Bytes :=
  (f.link ++ [8, 0]) ++ (f.ipHeader ++ (f.options ++ (f.headers ++ (f.qname.wire ++ f.after))))

end Frame

/-- The program gets as far as the blacklist: there are no IP options, and the source is not
    banned. -/
def Reaches (bans : Bans) (f : Frame) : Prop :=
  f.versionIhl.val % 16 = 5 ∧ (bans.active && bans.banned f.src) = false

/-- The queries for listed names of at most 128 octets are answered with NXDOMAIN, and none for
    other names. -/
def Refines (domains : List Bytes) (bans : Bans) (f : Frame) : Prop :=
  (Listed domains f.qname → f.qname.len ≤ 128 →
    dnsXdp (blacklistReload domains) bans f.bytes = some (.tx (forgeNxdomainIpv4 f.bytes))) ∧
  (¬ Listed domains f.qname →
    ∀ reply, dnsXdp (blacklistReload domains) bans f.bytes ≠ some (.tx reply))

/-! ## When the keys agree -/

theorem writeLabels_eq_some_iff (labels : List Bytes) (buf out : Bytes) :
    writeLabels labels buf = some out ↔
      (∀ l ∈ labels, LabelBound l) ∧ (labels ≠ [] → buf.length + labelsLen labels ≤ 255) ∧
        out = buf ++ labels.flatMap labelWire := by
  induction labels generalizing buf with
  | nil => simp [writeLabels, eq_comm]
  | cons l ls ih =>
    rw [writeLabels]
    by_cases hbound : LabelBound l
    · have hlabel : ¬ (l.length = 0 ∨ l.length > 63) := by
        obtain ⟨hpos, hmax⟩ := hbound
        unfold maxLabel at hmax
        omega
      have hlength : (buf ++ labelWire l).length = buf.length + 1 + l.length := by
        simp [labelWire]
        omega
      simp only [forall_mem_cons, hbound]
      split_ifs with hroom
      · have hover : ¬ buf.length + (l.length + 1 + labelsLen ls) ≤ 255 := by omega
        simp [hover]
      · rw [ih, hlength]
        cases ls with
        | nil => simp; omega
        | cons => simp; omega
    · have hlabel : l.length = 0 ∨ l.length > 63 := by
        unfold LabelBound maxLabel at hbound
        omega
      rw [if_pos hlabel]
      simp [hbound]

/-- A domain has a key if it has labels and all of them fit; the key is its wire form. -/
theorem domainToKey_eq_some_iff (d key : Bytes) :
    domainToKey d = some key ↔
      labelsOf d ≠ [] ∧ (∀ l ∈ labelsOf d, LabelBound l) ∧ labelsLen (labelsOf d) ≤ 255 ∧
        key = padded ((labelsOf d).flatMap labelWire) := by
  unfold domainToKey labelsOf
  simp only
  split_ifs with hempty
  · simp
  · have hne : (d.rdropWhile (· = 46)).splitOn 46 ≠ [] := splitOn_ne_nil _ _
    simp only [Option.bind_eq_some_iff, writeLabels_eq_some_iff, length_nil, Nat.zero_add,
      nil_append, ne_eq, hne, not_false_eq_true, true_implies, true_and]
    constructor
    · rintro ⟨buf, ⟨hbound, hlen, rfl⟩, hkey⟩
      split_ifs at hkey
      · exact ⟨hbound, hlen, (Option.some.inj hkey).symm⟩
    · rintro ⟨hbound, hlen, rfl⟩
      refine ⟨_, ⟨hbound, hlen, rfl⟩, if_neg ?_⟩
      rw [flatMap_labelWire_length]
      omega

theorem padded_labels {ls : List Bytes} (h : labelsLen ls ≤ 255) :
    padded (ls.flatMap labelWire) =
      (ls.flatMap labelWire ++ [0]) ++ List.replicate (255 - labelsLen ls) 0 := by
  have hcount : 256 - labelsLen ls = (255 - labelsLen ls) + 1 := by omega
  rw [padded, flatMap_labelWire_length, hcount, append_assoc]
  rfl

/-- What is looked up for a name that fits: the name, what follows it, and zeros. -/
theorem extractQnameKey_eq {q : Name} (h : q.len ≤ 129) (after : Bytes) :
    ∃ n, extractQnameKey (q.wire ++ after) =
        q.wire ++ (after.take (128 - q.len) ++ List.replicate n 0) ∧
      q.len + (after.take (128 - q.len)).length + n = 256 := by
  have hlen : q.wire.length = q.len := rfl
  rcases Nat.lt_or_ge 128 q.len with hlong | hshort
  · -- the octet of the root is the first that is not read, and the first of the padding
    have hlast : q.len = 129 := by omega
    have hlabels : labelsLen q.labels = 128 := by
      rw [← hlen, wire_length] at hlast
      omega
    have htake : (q.wire ++ after).take 128 = q.labels.flatMap labelWire := by
      rw [wire, append_assoc]
      exact take_left' (by rw [flatMap_labelWire_length, hlabels])
    refine ⟨127, ?_, by rw [hlast]; simp⟩
    rw [extractQnameKey, htake, padded_labels (by omega), hlabels, hlast]
    simp [wire]
  · refine ⟨256 - (q.len + (after.take (128 - q.len)).length), ?_, ?_⟩
    · rw [extractQnameKey, take_append, take_of_length_le (by rw [hlen]; omega), padded,
      length_append, hlen, append_assoc]
    · have hle : (after.take (128 - q.len)).length ≤ 128 - q.len := length_take_le _ _
      omega

/-- The key of a domain is the one looked up for a QNAME of at most 129 octets exactly if the
    labels are the same and the octets after the QNAME that are read are zero. -/
theorem key_eq_iff {q : Name} (h : q.len ≤ 129) (after d : Bytes) :
    domainToKey d = some (extractQnameKey (q.wire ++ after)) ↔
      labelsOf d = q.labels ∧ q.labels ≠ [] ∧ ∀ b ∈ after.take (128 - q.len), b = 0 := by
  obtain ⟨n, hkey, hcount⟩ := extractQnameKey_eq h after
  rw [domainToKey_eq_some_iff, hkey]
  constructor
  · rintro ⟨hne, hbound, hlen, heq⟩
    rw [padded_labels hlen] at heq
    obtain ⟨hlabels, htail⟩ :=
      labelsWire_selfDelimiting q.labels (labelsOf d) _ _ q.label_bound hbound heq
    refine ⟨hlabels.symm, hlabels ▸ hne, fun b hb => ?_⟩
    apply eq_of_mem_replicate
    rw [← htail]
    exact mem_append_left _ hb
  · rintro ⟨hlabels, hne, hzero⟩
    have hlen : labelsLen q.labels + 1 = q.len := (wire_length q).symm
    rw [hlabels, padded_labels (by omega)]
    refine ⟨hne, q.label_bound, by omega, ?_⟩
    show q.wire ++ _ = q.wire ++ _
    rw [eq_replicate_of_mem hzero, ← replicate_add]
    congr 2
    omega

/-! ## What the program reads -/

theorem octets_append {a b : Bytes} (c : Bytes) {o w : ℕ} (ha : a.length = o)
    (hb : b.length = w) : octets (a ++ (b ++ c)) o w = b := by
  rw [octets, drop_left' ha, take_left' hb]

theorem dnsXdp_bytes (blacklist : List Bytes) (bans : Bans) (f : Frame) :
    dnsXdp blacklist bans f.bytes =
      if f.versionIhl.val % 16 ≠ 5 then some .pass
      else if bans.active && bans.banned f.src then some .drop
      else if extractQnameKey (f.qname.wire ++ f.after) ∈ blacklist then
        some (.tx (forgeNxdomainIpv4 f.bytes))
      else some .redirect := by
  have hip : f.ipHeader.length = 20 := by
    simp [Frame.ipHeader, f.ipStart_length, f.ipChecksum_length, f.src_length, f.dst_length]
  have hheaders : f.headers.length = 20 := by
    simp [Frame.headers, f.sport_length, f.udpEnd_length, f.id_length, f.flags_length,
      f.counts_length]
  have hlength : 54 ≤ f.bytes.length := by
    simp [Frame.bytes, f.link_length]
    omega
  have htype : octets f.bytes 12 2 = [8, 0] := by
    rw [Frame.bytes, append_assoc]
    exact octets_append _ f.link_length rfl
  have hfirst : octets f.bytes 14 1 = [f.versionIhl] :=
    octets_append (a := f.link ++ [8, 0]) (b := [f.versionIhl]) _ (by simp [f.link_length]) rfl
  have hprotocol : octets f.bytes 23 1 = [17] := by
    have hsplit : f.bytes = (f.link ++ [8, 0] ++ (f.versionIhl :: f.ipStart)) ++ ([17] ++
        (f.ipChecksum ++ (f.src ++ f.dst) ++
          (f.options ++ (f.headers ++ (f.qname.wire ++ f.after))))) := by
      simp [Frame.bytes, Frame.ipHeader]
    rw [hsplit]
    exact octets_append _ (by simp [f.link_length, f.ipStart_length]) rfl
  have hsrc : octets f.bytes 26 4 = f.src := by
    have hsplit : f.bytes = (f.link ++ [8, 0] ++ (f.versionIhl :: f.ipStart ++ (17 ::
        f.ipChecksum))) ++ (f.src ++
          (f.dst ++ (f.options ++ (f.headers ++ (f.qname.wire ++ f.after))))) := by
      simp [Frame.bytes, Frame.ipHeader]
    rw [hsplit]
    exact octets_append _ (by simp [f.link_length, f.ipStart_length, f.ipChecksum_length])
      f.src_length
  rw [dnsXdp, if_neg (by omega), htype, if_neg (by simp), if_neg (by omega), hprotocol, hfirst,
    hsrc]
  have hports : ¬ f.bytes.length < 42 := by omega
  by_cases hihl : f.versionIhl.val % 16 = 5
  · -- without options the ports and the name are where the program looks for them
    have hoptions : f.options = [] := by
      have h := f.options_length
      exact eq_nil_of_length_eq_zero (by omega)
    have hport : octets f.bytes 36 2 = [0, 53] := by
      have hsplit : f.bytes = (f.link ++ [8, 0] ++ (f.ipHeader ++ f.sport)) ++ ([0, 53] ++
          (f.udpEnd ++ (f.id ++ (f.flags ++ ([0, 1] ++ f.counts))) ++
            (f.qname.wire ++ f.after))) := by
        simp [Frame.bytes, Frame.headers, hoptions]
      rw [hsplit]
      exact octets_append _ (by simp [f.link_length, hip, f.sport_length]) rfl
    have hname : f.bytes.drop 54 = f.qname.wire ++ f.after := by
      have hsplit : f.bytes = (f.link ++ [8, 0] ++ (f.ipHeader ++ f.headers)) ++
          (f.qname.wire ++ f.after) := by
        simp [Frame.bytes, hoptions]
      rw [hsplit]
      exact drop_left' (by simp [f.link_length, hip, hheaders])
    simp [hports, hport, hname, hlength]
  · simp [hihl]

theorem mem_blacklistReload {domains : List Bytes} {key : Bytes} :
    key ∈ blacklistReload domains ↔ ∃ d ∈ domains.take blacklistMax, domainToKey d = some key := by
  simp [blacklistReload]

theorem tx_iff (blacklist : List Bytes) (bans : Bans) (f : Frame) :
    dnsXdp blacklist bans f.bytes = some (.tx (forgeNxdomainIpv4 f.bytes)) ↔
      Reaches bans f ∧ extractQnameKey (f.qname.wire ++ f.after) ∈ blacklist := by
  rw [dnsXdp_bytes, Reaches]
  split_ifs with hihl hban hhit
  · simp [hihl]
  · simp [hban]
  · simpa [hban, hhit] using hihl
  · simp [hhit]

/-- The program answers queries for the listed names and no others exactly if, where the name is
    listed and has at most 128 octets, the frame gets as far as the blacklist, the name is among
    the domains that are loaded in the same letter case, and nothing but zeros follows it within
    128 octets; and, where it is not listed and has more than 129, its first 128 octets are no
    key. -/
theorem refines_iff (domains : List Bytes) (bans : Bans) (f : Frame) :
    Refines domains bans f ↔
      (Listed domains f.qname → f.qname.len ≤ 128 →
        Reaches bans f ∧ (∃ d ∈ domains.take blacklistMax, labelsOf d = f.qname.labels) ∧
          f.qname.labels ≠ [] ∧ ∀ b ∈ f.after.take (128 - f.qname.len), b = 0) ∧
      (¬ Listed domains f.qname → Reaches bans f → 129 < f.qname.len →
        ∀ d ∈ domains.take blacklistMax, domainToKey d ≠ some (padded (f.qname.wire.take 128))) := by
  refine and_congr ?_ ?_
  · refine imp_congr_right fun _ => imp_congr_right fun hlen => ?_
    have hshort : f.qname.len ≤ 129 := by omega
    rw [tx_iff, mem_blacklistReload]
    simp only [key_eq_iff hshort]
    refine and_congr_right fun _ => ?_
    constructor
    · rintro ⟨d, hd, hlabels, hzero⟩
      exact ⟨⟨d, hd, hlabels⟩, hzero⟩
    · rintro ⟨⟨d, hd, hlabels⟩, hzero⟩
      exact ⟨d, hd, hlabels, hzero⟩
  · refine imp_congr_right fun hnot => ?_
    have hreply : (∀ reply, dnsXdp (blacklistReload domains) bans f.bytes ≠ some (.tx reply)) ↔
        ¬ (Reaches bans f ∧
          extractQnameKey (f.qname.wire ++ f.after) ∈ blacklistReload domains) := by
      rw [← tx_iff, dnsXdp_bytes]
      split_ifs <;> simp
    rw [hreply, not_and, mem_blacklistReload]
    refine imp_congr_right fun _ => ?_
    constructor
    · intro hno hlen d hd hkey
      have htake : (f.qname.wire ++ f.after).take 128 = f.qname.wire.take 128 :=
        take_append_of_le_length (by show 128 ≤ f.qname.len; omega)
      exact hno ⟨d, hd, by rw [extractQnameKey, htake, hkey]⟩
    · rintro hlong ⟨d, hd, hkey⟩
      rcases Nat.lt_or_ge 129 f.qname.len with hlen | hlen
      · have htake : (f.qname.wire ++ f.after).take 128 = f.qname.wire.take 128 :=
          take_append_of_le_length (by show 128 ≤ f.qname.len; omega)
        exact hlong hlen d hd (by rw [hkey, extractQnameKey, htake])
      · -- a name that fits is found only if it is listed
        have hlabels := ((key_eq_iff hlen _ _).mp hkey).1
        exact hnot ⟨d, mem_of_mem_take hd, by rw [hlabels]⟩

/-! ## A listed name -/

/-- The query for the A record of `ads.example.`, without EDNS. -/
def adsQuery : Frame where
  link := [2, 0, 0, 0, 0, 1, 2, 0, 0, 0, 0, 2]
  versionIhl := 0x45
  ipStart := [0, 0, 57, 0, 0, 0, 0, 64]
  ipChecksum := [0, 0]
  src := [192, 0, 2, 1]
  dst := [192, 0, 2, 53]
  options := []
  sport := [0xC0, 0]
  udpEnd := [0, 37, 0, 0]
  id := [0x12, 0x34]
  flags := [1, 0]
  counts := [0, 0, 0, 0, 0, 0]
  qname := ⟨[[97, 100, 115], [101, 120, 97, 109, 112, 108, 101]], by decide⟩
  qtype := 1
  qclass := 1
  rest := []
  link_length := rfl
  ipStart_length := rfl
  ipChecksum_length := rfl
  src_length := rfl
  dst_length := rfl
  options_length := rfl
  sport_length := rfl
  udpEnd_length := rfl
  id_length := rfl
  flags_length := rfl
  query := by
    intro b hb
    cases hb
    decide
  counts_length := rfl

/-- `ads.example` is loaded, and the query for it is not answered: type and class are part of what
    is looked up. -/
theorem listed_not_found :
    let domains : List Bytes := [[97, 100, 115, 46, 101, 120, 97, 109, 112, 108, 101]]
    Listed domains adsQuery.qname ∧ adsQuery.qname.len ≤ 128 ∧
      dnsXdp (blacklistReload domains) ⟨false, fun _ => false⟩ adsQuery.bytes = some .redirect := by
  decide +kernel

end Runbound.FastPath
