import Runbound.Server.Isolation

/-!
# The age of stored responses

A stored response is sent as it was stored: `answer_from_cache` changes the identifier and
the RD bit only, so the TTLs of its records do not fall with time. The entry itself
expires after the smallest TTL, but not before `cache_min_ttl`.

* `Insertion.life_le_iff`: when an entry is gone once a record of it has expired.
* `aged_iff`: the hits whose TTLs are what is left of them.
-/

namespace Runbound.Server

open Wire FastPath Lib List Option

/-! ## What is stored, and for how long -/

/-- The two ways a response gets into the shared cache. -/
inductive Insertion
  | positive
  | negative (negTtl : U32)

variable {b : Bytes} {m : Message}

namespace Insertion

/-- The shape of the responses that are stored in this way. -/
def Shape (m : Message) : Insertion → Prop
  | positive => m.authority = []
  | negative _ => m.answers = []

/-- The cache after the response `m` to `q` was stored at `t0`. -/
def store (hw : Bool) (cfg : CacheCfg) (t0 : ℕ) (q : Question) (m : Message) (cache : CacheMap) :
    Insertion → CacheMap
  | positive => maybeCacheWire hw cfg t0 q m.encode m.answers cache
  | negative negTtl => maybeCacheNegative hw cfg t0 q m.encode negTtl cache

/-- The lifetime of the entry. -/
def life (cfg : CacheCfg) (m : Message) : Insertion → U32
  | positive => positiveTtl cfg m.answers
  | negative negTtl => negativeTtl cfg negTtl

/-- The bounds of the cache leave the lifetime below the TTL of each record. -/
def KeepsTtl (cfg : CacheCfg) (m : Message) : Insertion → Prop
  | positive => ∀ x ∈ m.answers, cfg.minTtl ≤ x.ttl ∨ cfg.maxTtl ≤ x.ttl
  | negative negTtl => ∀ x ∈ m.authority,
      (negTtl ≤ x.ttl ∧ cfg.minTtl ≤ x.ttl) ∨ cfg.maxTtl ≤ x.ttl ∨ negCacheMaxTtl ≤ x.ttl

section

variable {hw : Bool} {cfg : CacheCfg} {t0 : ℕ} {q : Question} {m : Message} {cache : CacheMap}
  {i : Insertion} {k : U64} {e : CacheEntry}

/-- The new entry of an insertion. -/
theorem entry (hnew : (i.store hw cfg t0 q m cache).lookup k = some e)
    (hold : cache.lookup k ≠ some e) :
    e.wirePayload = m.encode ∧ e.expiresAt = t0 + (i.life cfg m).val ∧
      (i = .positive → m.answers ≠ []) := by
  have hstore : ∀ ttl, (storeFor hw cfg t0 q m.encode ttl cache).lookup k = some e →
      e.wirePayload = m.encode ∧ e.expiresAt = t0 + ttl.val := by
    intro ttl hl
    rcases lookup_cacheInsert hl with ⟨-, rfl⟩ | hl
    · exact ⟨rfl, rfl⟩
    · exact absurd hl hold
  cases i with
  | positive =>
    simp only [store, maybeCacheWire] at hnew
    split_ifs at hnew with hempty
    · contradiction
    · exact ⟨(hstore _ hnew).1, (hstore _ hnew).2, fun _ => hempty⟩
  | negative negTtl =>
    simp only [store, maybeCacheNegative] at hnew
    split_ifs at hnew
    · contradiction
    · exact ⟨(hstore _ hnew).1, (hstore _ hnew).2, nofun⟩

/-- The smallest TTL bounds the lifetime of an answer before the bounds of the cache do. -/
theorem positiveTtl_le_iff {records : List Record} (hne : records ≠ []) :
    (∀ x ∈ records, positiveTtl cfg records ≤ x.ttl) ↔
      ∀ x ∈ records, cfg.minTtl ≤ x.ttl ∨ cfg.maxTtl ≤ x.ttl := by
  obtain ⟨least, hleast⟩ : ∃ y, (records.map Record.ttl).min? = some y := by
    rw [← isSome_iff_exists]
    simpa using hne
  obtain ⟨hmem, hbound⟩ := min?_eq_some_iff.mp hleast
  obtain ⟨x0, hx0, rfl⟩ := mem_map.mp hmem
  have hlife : positiveTtl cfg records = min (max x0.ttl cfg.minTtl) cfg.maxTtl := by
    rw [positiveTtl, hleast, getD_some]
  have hle : ∀ x ∈ records, x0.ttl ≤ x.ttl := fun x hx => hbound _ (mem_map_of_mem hx)
  rw [hlife]
  constructor
  · intro h x hx
    rcases min_le_iff.mp (h x0 hx0) with hmax | hmax
    · exact Or.inl ((max_le_iff.mp hmax).2.trans (hle x hx))
    · exact Or.inr (hmax.trans (hle x hx))
  · intro h x hx
    rw [min_le_iff, max_le_iff]
    rcases h x hx with hmin | hmax
    · exact Or.inl ⟨hle x hx, hmin⟩
    · exact Or.inr hmax

theorem life_le_iff (hshape : i.Shape m) (hne : i = .positive → m.answers ≠ []) :
    (∀ x ∈ received m, (i.life cfg m).val ≤ x.ttl.val) ↔ i.KeepsTtl cfg m := by
  cases i with
  | positive =>
    have hauth : m.authority = [] := hshape
    simp only [received, hauth, append_nil]
    exact positiveTtl_le_iff (hne rfl)
  | negative negTtl =>
    have hans : m.answers = [] := hshape
    simp only [received, hans]
    refine forall_congr' fun x => forall_congr' fun _ => ?_
    exact negativeTtl_le_iff negTtl x.ttl

end

end Insertion

/-! ## What is sent -/

/-- The octets a client takes over UDP (dns/server.rs:2110-2118). -/
def udpBudget (query : Bytes) : ℕ :=
  match Message.parse query with
  | .ok m =>
    match m.edns with
    | .ok (some e) => min (max e.udpPayload.val 512) 1232
    | _ => 512
  | .error _ => 512

theorem le_udpBudget (query : Bytes) : 512 ≤ udpBudget query := by
  unfold udpBudget
  split
  · split
    · omega
    · exact le_rfl
  · exact le_rfl

theorem copyOut_of_fits (h : m.encode.length ≤ udpBudget b) :
    copyOut b m.encode = (patched b m).encode := by
  have hfits : (patched b m).encode.length ≤ udpBudget b := by
    rw [length_encode_patched]
    exact h
  unfold copyOut
  rw [patch_encode]
  split_ifs
  · exact if_pos hfits
  · rfl

theorem answers_of_long {resp : Message} (hw : m.WireOk)
    (hlen : m.encode.length < 65536) (hlong : udpBudget b < m.encode.length)
    (hresp : Message.parse (copyOut b m.encode) = .ok resp) : resp.answers = [] := by
  have hbudget := le_udpBudget b
  obtain ⟨m', hm', -, -⟩ :=
    (patched b m).parse_encode hw (by rw [length_encode_patched]; exact hlen)
  have hcut : copyOut b m.encode = (cutDown m').encode.take (udpBudget b) := by
    unfold copyOut
    rw [patch_encode, if_pos (by omega)]
    show (if (patched b m).encode.length ≤ udpBudget b then _ else _) = _
    rw [if_neg (by rw [length_encode_patched]; omega), hm']
    rfl
  obtain ⟨-, hcount, -⟩ := counts_of_parse hresp
  rw [hcut, be16_take _ (by omega), (counts_encode _).1] at hcount
  exact eq_nil_of_length_eq_zero hcount.symm

theorem ttls_of_fits (hw : m.WireOk)
    (hlen : m.encode.length < 65536) (hfits : m.encode.length ≤ udpBudget b) :
    ∃ resp, Message.parse (copyOut b m.encode) = .ok resp ∧
      ∀ j : ℕ, resp.answers[j]?.map Record.ttl = m.answers[j]?.map Record.ttl := by
  obtain ⟨resp, hresp, hsame, -⟩ :=
    (patched b m).parse_encode hw (by rw [length_encode_patched]; exact hlen)
  have hmap : resp.answers.map Record.ttl = m.answers.map Record.ttl :=
    Record.map_of_same (fun h => h.2.2.2.1) hsame.answers
  refine ⟨resp, by rw [copyOut_of_fits hfits, hresp], fun j => ?_⟩
  rw [← getElem?_map, ← getElem?_map, hmap]

/-! ## Ageing -/

/-- At `t`, what was stored at `t0` is sent with TTLs of what is left of them at most, and no
    record of it has expired. -/
structure Aged (t0 t : ℕ) (m : Message) (sent : Bytes) : Prop where
  ttl : ∀ resp, Message.parse sent = .ok resp → ∀ (j : ℕ) (o x : Record),
    m.answers[j]? = some o → resp.answers[j]? = some x → x.ttl.val ≤ o.ttl.val - (t - t0)
  live : ∀ x ∈ received m, t ≤ t0 + x.ttl.val

section

variable {hw : Bool} {cfg : CacheCfg} {t0 t : ℕ} {q : Question} {m : Message}
  {cache snap : CacheMap}
  {i : Insertion} {k : U64} {e : CacheEntry} {Ip : Type} {acc : Access Ip} {src : Option Ip}
  {txLen : ℕ} {b r n : Bytes} {qtype : U16} {pos : ℕ}

/-- For every response that is stored, and every later hit of its entry: it has aged exactly if
    no time has passed or no answers are sent, and all records are live. And the entry expires
    before its records do exactly if the bounds of the cache allow it. -/
theorem aged_iff (hshape : i.Shape m) (hwire : m.WireOk)
    (hnew : (i.store hw cfg t0 q m cache).lookup k = some e) (hold : cache.lookup k ≠ some e)
    (ht : t0 ≤ t) (hq : cacheQuestion b = some (n, qtype, pos))
    (hhit : lookupQuestion hw t snap n qtype = some e) (htx : txLen < 65536)
    (hans : answerFromCache hw acc src txLen t snap b = some r) :
    (Aged t0 t m r ↔
      (t = t0 ∨ m.answers = [] ∨ udpBudget b < m.encode.length) ∧
        ∀ x ∈ received m, t ≤ t0 + x.ttl.val) ∧
    ((∀ x ∈ received m, e.expiresAt ≤ t0 + x.ttl.val) ↔ i.KeepsTtl cfg m) := by
  obtain ⟨hpayload, hexpires, hne⟩ := Insertion.entry hnew hold
  -- the octets of the hit are those of the entry
  obtain ⟨n', t', pos', e', hq', -, -, hl, -, -, -, hle, rfl⟩ := answerFromCache_eq_some_iff.mp hans
  obtain ⟨rfl, rfl, rfl⟩ : n = n' ∧ qtype = t' ∧ pos = pos' := by simpa using hq.symm.trans hq'
  obtain rfl : e = e' := Option.some.inj ((lookupQuestion_eq_some_iff.mp hhit).1.symm.trans hl)
  rw [hpayload] at hle ⊢
  have hlen : m.encode.length < 65536 := by omega
  constructor
  · constructor
    · intro haged
      refine ⟨?_, haged.live⟩
      by_contra hwhen
      obtain ⟨hlater, hanswers, hfits⟩ : t ≠ t0 ∧ m.answers ≠ [] ∧
          ¬ udpBudget b < m.encode.length := by simpa using hwhen
      obtain ⟨o, rest, hcons⟩ := exists_cons_of_ne_nil hanswers
      obtain ⟨resp, hresp, httls⟩ := ttls_of_fits hwire hlen (not_lt.mp hfits)
      have hfirst : m.answers[0]? = some o := by simp [hcons]
      obtain ⟨x, hx, hxo⟩ := map_eq_some_iff.mp ((httls 0).trans (by rw [hfirst, map_some]))
      -- the first record is sent with its whole TTL, which is not zero as the record is live
      have hsent := haged.ttl resp hresp 0 o x hfirst hx
      have hlive := haged.live o (by simp [received, hcons])
      rw [hxo] at hsent
      omega
    · rintro ⟨hwhen, hlive⟩
      refine ⟨fun resp hresp j o x ho hx => ?_, hlive⟩
      by_cases hlong : udpBudget b < m.encode.length
      · rw [answers_of_long hwire hlen hlong hresp] at hx
        cases hx
      · have hnow : t = t0 := by
          rcases hwhen with h | h | h
          · exact h
          · rw [h] at ho
            cases ho
          · exact absurd h hlong
        obtain ⟨resp', hresp', httls⟩ := ttls_of_fits hwire hlen (not_lt.mp hlong)
        obtain rfl := Except.ok.inj (hresp'.symm.trans hresp)
        have hsame := httls j
        rw [ho, hx, map_some, map_some, Option.some.injEq] at hsame
        rw [hsame, hnow, Nat.sub_self]
        exact le_rfl
  · rw [hexpires]
    simp only [Nat.add_le_add_iff_left]
    exact Insertion.life_le_iff hshape hne

end

/-! ## An answer after 200 seconds -/

/-- The question `a. A`. -/
def agedQuestion : Question := ⟨Local.nameA, Rtype.A, Class.IN⟩

/-- The response `a. 300 A 192.0.2.1`. -/
def agedResponse : Message where
  header := { id := 7, flags := 0x8180 }
  questions := [agedQuestion]
  answers := [Record.address Local.nameA 300 ![192, 0, 2, 1]]

/-- The cache after it was stored at 0. -/
def agedCache : CacheMap :=
  Insertion.positive.store true plainHandler.cache 0 agedQuestion agedResponse ∅

/-- Its entry. -/
def agedEntry : CacheEntry := ⟨agedResponse.encode, 300, [1, 97, 0]⟩

/-- Everyone may ask. -/
def openAccess : Access Unit := ⟨fun _ => .allow, fun _ _ => false⟩

/-- What a client gets of it after 200 seconds. -/
def agedHit : Option Bytes := answerFromCache true openAccess none 4096 200 agedCache askLower

theorem agedHit_parse :
    (agedHit.any fun r => (Message.parse r).toOption.any fun m =>
      m.answers[0]?.any fun x => x.ttl = 300) = true := by
  decide +kernel

theorem aged_iff_stored :
    ∃ r, agedHit = some r ∧
      (Aged 0 200 agedResponse r ↔
        (200 = 0 ∨ agedResponse.answers = [] ∨ udpBudget askLower < agedResponse.encode.length) ∧
          ∀ x ∈ received agedResponse, 200 ≤ 0 + x.ttl.val) := by
  obtain ⟨r, hr, -⟩ := (any_eq_true _ _).mp agedHit_parse
  have hwire : agedResponse.WireOk := by
    intro x hx
    obtain rfl := mem_singleton.mp (show x ∈ [_] from hx)
    trivial
  have hnew : agedCache.lookup (cacheKey true [1, 97, 0] Rtype.A) = some agedEntry := by
    decide +kernel
  have hquestion : cacheQuestion askLower = some ([1, 97, 0], Rtype.A, 19) := by decide +kernel
  have hhit : lookupQuestion true 200 agedCache [1, 97, 0] Rtype.A = some agedEntry := by
    decide +kernel
  exact ⟨r, hr, (aged_iff (i := .positive) (show agedResponse.authority = [] from rfl) hwire hnew
    (by simp) (Nat.zero_le 200) hquestion hhit (by decide) hr).1⟩

/-- After 200 of its 300 seconds the record is sent with a TTL of 300. -/
theorem ttl_not_aged : ∃ r, agedHit = some r ∧ ¬ Aged 0 200 agedResponse r := by
  obtain ⟨r, hr, hany⟩ := (any_eq_true _ _).mp agedHit_parse
  refine ⟨r, hr, fun haged => ?_⟩
  obtain ⟨resp, hresp, hfirst⟩ := exists_parse_of_any hany
  obtain ⟨x, hx, httl⟩ := (any_eq_true _ _).mp hfirst
  have hsent := haged.ttl resp hresp 0 _ x rfl hx
  rw [of_decide_eq_true httl] at hsent
  exact absurd hsent (by decide)

end Runbound.Server
