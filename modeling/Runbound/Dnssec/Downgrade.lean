import Runbound.Dnssec.PathWorld

/-!
# Downgrades to Insecure

`trusted_keys_for` walks from the root to a name and gives up as Insecure at a cut
whose parent denies a DS. The fetcher may answer anything.

The walk keeps the keys of the last zone it adopted across boundaries that look like
no cut, and an attacker decides what looks like one. So a denial is tried against every
name below that zone, not only against its own delegations.

* `CacheOk`: what the walk keeps from one boundary to the next.
* `trustedKeysFor_not_insecure`: the walk, from any such cache.
* `noDowngrade`: where no zone has signed a denial that can be replayed against a name
  below it, no fetcher makes the walk Insecure.
* `optOut_downgrades`: where one has, a fetcher does.
-/

namespace Runbound.Dnssec

open Wire Lib List Rtype Name

/-! ## The cache -/

variable {ks p : List Bytes} {n : Name}

section Walk

variable {σ : Type} {env : Env σ} {q : Name} {W : PathWorld env.crypto q} {now : U32}
  {s : State σ}

/-- What the cache holds for a name on the way are keys of a zone with that apex. -/
def CacheOk (W : PathWorld env.crypto q) (s : State σ) : Prop :=
  s.Holds fun k ks => ∀ n : Name, keyOf n = k → n.key <+: q.key → W.Trusts n.key ks

theorem cacheOk_empty (w : σ) : CacheOk W { world := w } := fun e he => by cases he

/-! ## The walk -/

/-- The keys the walk has for a name on the way are keys of a zone with that apex, and such keys
    sign no denial that could end it. -/
theorem invariant_cacheOk (hno : W.NoReplay) (now : U32) :
    env.Invariant now (CacheOk W) (fun a b => PathWorld.Below q a.key b)
      (fun n ks => n.key <+: q.key → W.Trusts n.key ks) (· ≠ .insecure) where
  get n h := by
    obtain ⟨hhit, hall⟩ := State.Holds.dnskeyGet h env n
    exact ⟨fun ks hks hn => hhit ks hks n rfl hn, hall⟩
  fetch _ _ h := h
  learn ttl h ht := by
    refine State.Holds.dnskeyLearn h (fun n hn hpre => ?_) ttl
    rw [key_eq_of_keyOf_eq hn] at hpre ⊢
    exact ht hpre
  anchored hv _ := PathWorld.trusts_of_validateDnskeyRrset (split_short (by decide)) W.anchored hv
  delegated hB ht hds hv _ :=
    PathWorld.trusts_of_validateDnskeyRrset (split_short (by decide))
      (fun _ hkey => PathWorld.delegated_of_validateRrset (ht (hB.1.trans hB.2.2)) hB.2.2
        (split_short (by decide)) hds hkey) hv
  denied hB ht hdenied := by
    rw [PathWorld.denialSecure_eq_false hno (ht (hB.1.trans hB.2.2)) hB] at hdenied
    cases hdenied
  bogus := by simp

/-- The ancestors of a name are listed from the deepest up. -/
theorem ancestors_pairwise (z : Name) :
    z.ancestors.Pairwise fun a b => b.key <+: a.key ∧ b.key ≠ a.key := by
  obtain ⟨ls, hok⟩ := z
  induction ls with
  | nil => exact pairwise_singleton _ _
  | cons l ls ih =>
    refine pairwise_cons.mpr ⟨fun b hb => ?_, ih hok.tail⟩
    have hpre : b.key <+: (⟨ls, hok.tail⟩ : Name).key := key_prefix_of_mem_ancestors hb
    rw [key_mk_cons]
    refine ⟨hpre.trans (prefix_append _ _), fun h => ?_⟩
    have := hpre.length_le
    rw [h, length_append, length_singleton] at this
    omega

theorem mem_delegationPath {z c : Name} (h : c ∈ delegationPath z) :
    c.key ≠ [] ∧ c.key <+: z.key := by
  simp only [delegationPath, mem_reverse, mem_filter] at h
  refine ⟨fun hnil => ?_, key_prefix_of_mem_ancestors h.1⟩
  have hroot : c.isRoot = true := by
    rw [isRoot_iff]
    simpa [Name.key, Name.labelsLower] using hnil
  rw [hroot] at h
  cases h.2

/-- From any cache that holds only keys of the world's zones. -/
theorem trustedKeysFor_not_insecure (hno : W.NoReplay) {z : Name} (hz : z.key <+: q.key)
    (h : CacheOk W s) : (trustedKeysFor env z now s).1.1 ≠ .insecure := by
  have hpath : (Name.root :: delegationPath z).Pairwise
      fun a b => PathWorld.Below q a.key b := by
    refine pairwise_cons.mpr ⟨fun c hc => ?_, ?_⟩
    · obtain ⟨hne, hpre⟩ := mem_delegationPath hc
      exact ⟨List.nil_prefix, hne.symm, hpre.trans hz⟩
    · refine (pairwise_reverse.mpr ((ancestors_pairwise z).filter _)).imp_of_mem ?_
      intro a b _ hb hab
      exact ⟨hab.1, hab.2, (mem_delegationPath hb).2.trans hz⟩
  rcases ((invariant_cacheOk hno now).trustedKeysFor hpath h).1 with ⟨-, ks, hsecure, -⟩ | hne
  · simp [hsecure]
  · exact hne

end Walk

/-- In a world where every cut on the way to `q` is signed and no zone on the way has
    signed a denial that can be replayed against a name below it, no fetcher makes the
    walk to a name at or above `q` Insecure, nor the verdict on any message for `q`. -/
theorem noDowngrade {σ : Type} (env : Env σ) {q : Name} (W : PathWorld env.crypto q)
    (hno : W.NoReplay) (now : U32) (w : σ) :
    (∀ z : Name, z.key <+: q.key → (trustedKeysFor env z now { world := w }).1.1 ≠ .insecure) ∧
    ∀ qtype msg, (validateFull env q qtype msg now { world := w }).1.1 ≠ .insecure := by
  have hwalk : ∀ z : Name, z.key <+: q.key →
      (trustedKeysFor env z now { world := w }).1.1 ≠ .insecure := fun z hz =>
    trustedKeysFor_not_insecure hno hz (cacheOk_empty w)
  refine ⟨hwalk, fun qtype msg => ?_⟩
  unfold validateFull
  cases hz : signingZone msg q with
  | none =>
    have hin : (((soaOwner msg).filter fun z => q.isInZone z).getD q).key <+: q.key := by
      cases hs : (soaOwner msg).filter fun z => q.isInZone z with
      | none => exact prefix_rfl
      | some z => exact isInZone_iff.mp (Option.filter_eq_some_iff.mp hs).2
    simp [hwalk _ hin]
  | some zone =>
    have hne := hwalk zone (isInZone_iff.mp (signingZone_isInZone hz))
    simp only
    split
    · simp
    · contradiction
    · exact judge_ne_insecure

/-! ## A signed cut and an opt-out NSEC3 above it -/

/-- A DNSKEY of the zone `a.`. -/
def keyA : Bytes := [1, 1, 3, 8, 1, 3, 0x4B, 0x5B]

/-- The modulus of `keyA`. -/
def modulusA : Bytes := [0x4B, 0x5B]

/-- The digest by which the root delegates to `keyA`. -/
def digestA : Bytes := List.replicate 32 7

/-- The DS of `a.`, as the root signs it. -/
def dsA : SignedRrset :=
  rootRrset nameA DS (.unknown DS (u16Be (keyTag keyA) ++ [8, 2] ++ digestA)) (by decide +kernel)

/-- The keys of `a.`, as `a.` signs them. -/
def dnskeyA : SignedRrset where
  owner := nameA
  params := { rootParams DNSKEY with keyTag := keyTag keyA, signerName := nameA }
  rdatas := [.unknown DNSKEY keyA]
  nonempty := by decide
  short := by decide
  nodup := by decide
  in_zone := by decide +kernel

section

variable (optOut : Bool)

/-- The data of the NSEC3 of `a.`: a signed delegation, the next hash is that of the
    root. -/
def nsec3DataA : Bytes :=
  nsec3Rdata (if optOut then 1 else 0) 0 [] ((idealCrypto [] []).sha1 (canonicalNameWire Name.root))
    [NS, DS]

/-- The NSEC3 of `a.`, as the root signs it. -/
def nsec3A : SignedRrset :=
  rootRrset nsec3OwnerA NSEC3 (.unknown NSEC3 (nsec3DataA optOut))
    (by cases optOut <;> decide +kernel)

/-- What the root and `a.` have signed. -/
def cutSigned : List (Bytes × SignedRrset) :=
  [(rootModulus, rootDnskeyRrset), (rootModulus, dsA), (rootModulus, nsec3A optOut),
    (modulusA, dnskeyA)]

/-- Their digests and signatures. -/
def cutCrypto : Crypto :=
  idealCrypto [rootDigest, (canonicalNameWire nameA ++ keyA, digestA)]
    ((cutSigned optOut).map fun p => (p.1, p.2.tbs))

/-- The value the validator reads from the NSEC3 of `a.`. -/
def nsec3ValueA : Nsec3 :=
  ⟨1, if optOut then 1 else 0, 0, [], hashA,
    (idealCrypto [] []).sha1 (canonicalNameWire Name.root), typeBitmap [NS, DS]⟩

theorem parse_nsec3A : Nsec3.parse nsec3OwnerA (nsec3DataA optOut) = some (nsec3ValueA optOut) := by
  cases optOut <;> decide +kernel

end

theorem eq_nsec3ValueA {optOut : Bool} {rd : Rdata} {owner : Name} {n3 : Nsec3}
    (hrd : rd ∈ (nsec3A optOut).rdatas) (howner : owner.key = (nsec3A optOut).owner.key)
    (hparse : Nsec3.parse owner rd.emitCanonical = some n3) : n3 = nsec3ValueA optOut := by
  rw [mem_singleton.mp hrd, Nsec3Zone.parse_congr howner] at hparse
  exact Option.some.inj (hparse.symm.trans (parse_nsec3A optOut))

/-- The names on the way to `b.a.`. -/
theorem key_cases_nameBA (hn : n.key <+: nameBA.key) :
    n.key = Name.root.key ∨ n.key = nameA.key ∨ n.key = nameBA.key := by
  have hpre : n.key <+: [[97], [98]] := hn
  rcases prefix_concat_iff.mp (show n.key <+: [[97]] ++ [[98]] from hpre) with h | h
  · exact Or.inr (Or.inr h)
  · rcases prefix_concat_iff.mp (show n.key <+: [] ++ [[97]] from h) with h | h
    · exact Or.inr (Or.inl h)
    · exact Or.inl (prefix_nil.mp h)

/-- Of these names, only `a.` with `keyA` has the digest that the root publishes. -/
theorem key_of_digest {key : Bytes} (hn : n.key <+: nameBA.key)
    (h : canonicalNameWire n ++ key = canonicalNameWire nameA ++ keyA) :
    n.key = nameA.key ∧ key = keyA := by
  rcases key_cases_nameBA hn with hk | hk | hk
  · rw [canonicalNameWire_congr hk] at h
    cases h
  · rw [canonicalNameWire_congr hk] at h
    exact ⟨hk, append_cancel_left h⟩
  · rw [canonicalNameWire_congr hk] at h
    cases h

/-- Of these names, it matches only `a.`. -/
theorem matches_nsec3A {optOut : Bool} (hn : n.key <+: nameBA.key)
    (h : (nsec3ValueA optOut).matchesName (cutCrypto optOut) n = true) : n.key = nameA.key := by
  have hcongr : ∀ m : Name, n.key = m.key →
      (nsec3ValueA optOut).matchesName (cutCrypto optOut) m = true := by
    intro m hm
    rwa [Nsec3.matchesName, ← Nsec3.hash_congr hm]
  rcases key_cases_nameBA hn with hk | hk | hk
  · exact absurd (hcongr _ hk) (by cases optOut <;> decide +kernel)
  · exact hk
  · exact absurd (hcongr _ hk) (by cases optOut <;> decide +kernel)

theorem keyId_rootKey (alg : Byte) : keyId alg (rootKey.drop 4) ≠ modulusA := by
  unfold keyId
  split_ifs <;> decide

theorem keyId_keyA (alg : Byte) : keyId alg (keyA.drop 4) ≠ rootModulus := by
  unfold keyId
  split_ifs <;> decide

/-- The two zones. -/
inductive CutZone : List Bytes → Prop
  | root : CutZone []
  | a : CutZone [[97]]

/-- What they signed. -/
inductive CutSigned (optOut : Bool) : List Bytes → SignedRrset → Prop
  | rootDnskey : CutSigned optOut [] rootDnskeyRrset
  | ds : CutSigned optOut [] dsA
  | nsec3 : CutSigned optOut [] (nsec3A optOut)
  | dnskey : CutSigned optOut [[97]] dnskeyA

theorem CutSigned.eq_nsec3 {optOut : Bool} {R : SignedRrset} (h : CutSigned optOut p R)
    (ht : R.rtype = NSEC3) : p = [] ∧ R = nsec3A optOut := by
  cases h with
  | nsec3 => exact ⟨rfl, rfl⟩
  | _ => exact absurd ht (by decide)

/-- The types they have. -/
inductive CutTypes : List Bytes → List Bytes → U16 → Prop
  | rootApex (t : U16) : t ∈ [NS, SOA] → CutTypes [] [] t
  | delegation (t : U16) : t ∈ [NS, DS] → CutTypes [] [[97]] t
  | apex (t : U16) : t ∈ [NS, SOA] → CutTypes [[97]] [[97]] t

/-- Their keys. -/
def cutKeys (p : List Bytes) : List Bytes := if p = [] then [rootKey] else [keyA]

theorem onlySigns_cut {optOut : Bool} (hp : CutZone p) :
    OnlySigns (cutCrypto optOut) (cutKeys p) (CutSigned optOut p) := by
  refine onlySigns_ideal fun x hx hkey => ?_
  obtain ⟨key, hkey, alg, hid⟩ := hkey
  simp only [cutSigned, mem_cons, not_mem_nil, or_false] at hx
  cases hp with
  | root =>
    obtain rfl : key = rootKey := mem_singleton.mp hkey
    rcases hx with rfl | rfl | rfl | rfl
    · exact .rootDnskey
    · exact .ds
    · exact .nsec3
    · exact absurd hid (keyId_rootKey alg)
  | a =>
    obtain rfl : key = keyA := mem_singleton.mp hkey
    rcases hx with rfl | rfl | rfl | rfl
    · exact absurd hid (keyId_keyA alg)
    · exact absurd hid (keyId_keyA alg)
    · exact absurd hid (keyId_keyA alg)
    · exact .dnskey

theorem mem_digests_of_matches {digests signed : List (Bytes × Bytes)} {key : Bytes}
    {ds : Ds} (hds : ds.digestType = 2) (hne : ds.digest ≠ [])
    (h : dnskeyMatchesDs (idealCrypto digests signed) n key ds = true) :
    (canonicalNameWire n ++ key, ds.digest) ∈ digests := by
  unfold dnskeyMatchesDs at h
  rw [computeDsDigest] at h
  split_ifs at h
  exact mem_of_sha256_ideal (of_decide_eq_true h) hne

theorem rootAnchors_digest :
    ∀ ds ∈ rootAnchors, ds.digestType = 2 ∧ ds.digest ≠ [] ∧ ds.digest ≠ digestA := by
  decide +kernel

/-- The root with its signed delegation `a.` and the NSEC3 of that delegation. -/
def cutWorld (optOut : Bool) : PathWorld (cutCrypto optOut) nameBA where
  IsZone := CutZone
  keys := cutKeys
  signed := CutSigned optOut
  types := CutTypes
  only_signs _ hp := onlySigns_cut hp
  anchored := by
    rintro key ⟨ds, hds, hmatch⟩
    refine ⟨.root, List.mem_singleton.mpr ?_⟩
    have hprop := rootAnchors_digest ds hds
    have hmem := mem_digests_of_matches hprop.1 hprop.2.1 hmatch
    simp only [List.mem_cons, List.not_mem_nil, or_false, Prod.mk.injEq] at hmem
    rcases hmem with h | ⟨-, h⟩
    · have hx := (Prod.mk.inj h).1
      exact (List.cons.inj hx).2
    · exact absurd h hprop.2.2
  dnskeys := by
    intro p R _ hR hrt rd hrd
    cases hR with
    | rootDnskey => rw [List.mem_singleton.mp hrd]; decide
    | dnskey => rw [List.mem_singleton.mp hrd]; decide
    | _ => exact absurd hrt (by cases optOut <;> decide)
  delegated := by
    intro p R _ hR hrt rd hrd ds hds n hn key hmatch
    cases hR with
    | ds =>
      rw [List.mem_singleton.mp hrd] at hds
      have hval : ds = ⟨keyTag keyA, 8, 2, digestA⟩ := by
        have : parseDs (Rdata.emitCanonical (.unknown DS
          (u16Be (keyTag keyA) ++ [8, 2] ++ digestA))) = some ⟨keyTag keyA, 8, 2, digestA⟩ := by
          decide +kernel
        exact Option.some.inj (hds.symm.trans this)
      subst hval
      have hmem := mem_digests_of_matches rfl (by decide) hmatch
      simp only [List.mem_cons, List.not_mem_nil, or_false] at hmem
      rcases hmem with h | h
      · exact absurd (Prod.mk.inj h).2 (by decide)
      · obtain ⟨hkey, rfl⟩ := key_of_digest hn (Prod.mk.inj h).1
        rw [hkey]
        exact ⟨.a, by decide⟩
    | _ => exact absurd hrt (by cases optOut <;> decide)
  nsec3_owner := by
    intro p R _ hR hrt w hw
    have hlast := congrArg List.getLast? hw
    rw [star, List.getLast?_concat] at hlast
    obtain ⟨-, rfl⟩ := hR.eq_nsec3 hrt
    exact absurd hlast (by cases optOut <;> decide +kernel)
  nsec_types := by
    intro p R _ hR hrt
    cases hR <;> exact absurd hrt (by cases optOut <;> decide)
  nsec3_types := by
    intro p R _ hR hrt rd hrd owner howner n3 hparse n hn hmatch t
    obtain ⟨rfl, rfl⟩ := hR.eq_nsec3 hrt
    obtain rfl := eq_nsec3ValueA hrd howner hparse
    have hkey : n.key = [[97]] := matches_nsec3A hn hmatch
    have hbit := typeInBitmap_typeBitmap [NS, DS] t
    rw [hkey]
    refine Iff.trans hbit ⟨.delegation t, fun h => ?_⟩
    cases h with
    | delegation _ h => exact h
  signed_cuts := by
    intro p n _ _ hne _ htypes
    cases htypes with
    | rootApex => exact absurd rfl hne
    | delegation => exact .delegation _ (by decide)
    | apex => exact absurd rfl hne

/-- A fetcher that hides the cut at `a.` and replays the NSEC3 of `a.` below it. -/
def cutEnv (optOut : Bool) : Env Unit :=
  tableEnv (cutCrypto optOut) 1500
    [((Name.root, DNSKEY), rootDnskeyReply), ((nameA, DS), {}), ((nameA, NS), {}),
      ((nameBA, DS), { authority :=
        [Record.ofData nsec3OwnerA NSEC3 300 (nsec3DataA optOut)
            (by cases optOut <;> decide +kernel),
          Record.ofData nsec3OwnerA RRSIG 300 ((nsec3A optOut).rrsigRdata [0])
            (by cases optOut <;> decide +kernel)] }),
      ((nameBA, NS), { answers := [⟨nameBA, NS, Class.IN, 300, .ns Name.root, by decide⟩] })]

/-- In a world where the only cut on the way to `b.a.` is signed, the walk ends Insecure,
    and so does the verdict on an empty answer for `b.a.`. -/
theorem optOut_downgrades :
    (∀ p n, (cutWorld true).IsZone p → p <+: n → p ≠ n → n <+: nameBA.key →
      (cutWorld true).types p n NS → (cutWorld true).types p n DS) ∧
    (trustedKeysFor (cutEnv true) nameBA 1500 { world := () }).1.1 = .insecure ∧
    (validateFull (cutEnv true) nameBA Rtype.A {} 1500 { world := () }).1.1 = .insecure :=
  ⟨(cutWorld true).signed_cuts, by decide +kernel, by decide +kernel⟩

theorem noReplay_cut : (cutWorld false).NoReplay where
  optOut := by
    intro p _ n _ R hR hrt rd hrd owner howner n3 hparse hopt
    obtain ⟨-, rfl⟩ := hR.eq_nsec3 hrt
    obtain rfl := eq_nsec3ValueA hrd howner hparse
    exact absurd hopt (by decide)
  wildcard := by
    intro p _ n _ R hR hrt
    cases hR <;> exact absurd hrt (by decide)

/-- The general theorem on that world: the same fetcher does not succeed. -/
theorem noDowngrade_cut :
    (∀ z : Name, z.key <+: nameBA.key →
      (trustedKeysFor (cutEnv false) z 1500 { world := () }).1.1 ≠ .insecure) ∧
    ∀ qtype msg,
      (validateFull (cutEnv false) nameBA qtype msg 1500 { world := () }).1.1 ≠ .insecure :=
  noDowngrade (cutEnv false) (cutWorld false) noReplay_cut 1500 ()

end Runbound.Dnssec
