import CryptoFlex.Header.Canonical

namespace CryptoFlex.CryptoflexHeader

open Lib Lib.Scanner

theorem componentToBytes_eq_ok {c : PyStr × Bytes} {b : Bytes}
    (h : componentToBytes c = .ok b) :
    ∃ alg, c.1.encode = .ok alg ∧ alg.length < 256 ∧ c.2.length < 65536 ∧
      b = beEncode 1 alg.length ++ (alg ++ (beEncode 2 c.2.length ++ c.2)) := by
  obtain ⟨alg, ha, h⟩ := bind_eq_ok.mp h
  split_ifs at h with h1 h2
  obtain ⟨al, hal, h⟩ := bind_eq_ok.mp h
  obtain ⟨cl, hcl, h⟩ := bind_eq_ok.mp h
  obtain ⟨-, rfl⟩ := pack_eq_ok hal
  obtain ⟨-, rfl⟩ := pack_eq_ok hcl
  cases h
  exact ⟨alg, ha, by omega, by omega, by simp⟩

theorem nonceToBytes_eq_ok {v : Int} {nonce : Option Bytes} {b : Bytes}
    (h : nonceToBytes v nonce = .ok b) :
    (v < 2 ∧ b = []) ∨ (2 ≤ v ∧ nonce = some b ∧ b.length = nonceLen) := by
  unfold nonceToBytes at h
  split_ifs at h with hv
  · cases h
    exact Or.inl ⟨hv, rfl⟩
  · right
    cases nonce with
    | none => cases h
    | some n =>
      simp only at h
      split_ifs at h with h0 hn
      cases h
      exact ⟨by omega, rfl, not_not.mp hn⟩

theorem toBytes_eq_ok {h : CryptoflexHeader} {b : Bytes} (hb : h.toBytes = .ok b) :
    ∃ v profile cb nb, h.version = (v : Nat) ∧ (v = 1 ∨ v = 2) ∧
      h.profileId.encode = .ok profile ∧ profile.length < 256 ∧ h.components.length < 256 ∧
      componentsToBytes h.components = .ok cb ∧ nonceToBytes h.version h.nonce = .ok nb ∧
      b = (magic ++ beEncode 1 v ++ beEncode 1 profile.length) ++
        (profile ++ (beEncode 1 h.components.length ++ (cb ++ nb))) := by
  unfold toBytes at hb
  by_cases hv : h.version ∈ supportedVersions
  swap
  · rw [if_pos hv] at hb
    cases hb
  rw [if_neg (not_not.mpr hv)] at hb
  obtain ⟨vb, hvb, hb⟩ := bind_eq_ok.mp hb
  obtain ⟨profile, hp, hb⟩ := bind_eq_ok.mp hb
  by_cases hpl : 255 < profile.length
  · rw [if_pos hpl] at hb
    cases hb
  rw [if_neg hpl] at hb
  obtain ⟨pl, hplb, hb⟩ := bind_eq_ok.mp hb
  by_cases hcl : 255 < h.components.length
  · rw [if_pos hcl] at hb
    cases hb
  rw [if_neg hcl] at hb
  obtain ⟨nc, hnc, hb⟩ := bind_eq_ok.mp hb
  obtain ⟨cb, hcb, hb⟩ := bind_eq_ok.mp hb
  obtain ⟨nb, hnb, hb⟩ := bind_eq_ok.mp hb
  obtain ⟨-, rfl⟩ := pack_eq_ok hplb
  obtain ⟨-, rfl⟩ := pack_eq_ok hnc
  have hv' : h.version = 1 ∨ h.version = 2 := by simpa [supportedVersions] using hv
  have hv2 : h.version = (h.version.toNat : Nat) := by omega
  rw [hv2] at hvb
  obtain ⟨-, rfl⟩ := pack_eq_ok hvb
  cases hb
  exact ⟨h.version.toNat, profile, cb, nb, hv2, by omega, hp, by omega, by omega, hcb, hnb,
    by simp⟩

theorem componentsToBytes_length (cs : List (PyStr × Bytes)) {b : Bytes}
    (h : componentsToBytes cs = .ok b) : b.length ≤ cs.length * 65793 := by
  induction cs generalizing b with
  | nil =>
    cases h
    simp
  | cons c cs ih =>
    obtain ⟨out, hout, h⟩ := bind_eq_ok.mp h
    obtain ⟨tail, htail, h⟩ := bind_eq_ok.mp h
    cases h
    obtain ⟨alg, -, halg, hct, rfl⟩ := componentToBytes_eq_ok hout
    have hrest := ih htail
    simp only [List.length_append, List.length_cons, beEncode_length]
    omega

/-- No header takes more than some 16 million bytes. -/
theorem toBytes_length_lt {h : CryptoflexHeader} {b : Bytes} (hb : h.toBytes = .ok b) :
    b.length < 2 ^ 25 := by
  obtain ⟨v, profile, cb, nb, -, -, -, hprofile, hcount, hcb, hnb, rfl⟩ := toBytes_eq_ok hb
  have hcomponents := componentsToBytes_length _ hcb
  have hnonce : nb.length ≤ 12 := by
    rcases nonceToBytes_eq_ok hnb with ⟨-, rfl⟩ | ⟨-, -, hlen⟩
    · simp
    · exact le_of_eq hlen
  have hmagic : magic.length = 4 := rfl
  simp only [List.length_append, beEncode_length]
  omega

/-- The ids of `cs` are non-empty, pairwise distinct and not among `seen`. -/
def GoodIds (seen : List PyStr) (cs : List (PyStr × Bytes)) : Prop :=
  (∀ c ∈ cs, c.1 ≠ .text "" ∧ c.1 ∉ seen) ∧ (cs.map Prod.fst).Nodup

theorem goodIds_cons {seen : List PyStr} {c : PyStr × Bytes} {cs : List (PyStr × Bytes)} :
    GoodIds seen (c :: cs) ↔
      (c.1 ≠ .text "" ∧ c.1 ∉ seen) ∧ GoodIds (seen ++ [c.1]) cs := by
  simp only [GoodIds, List.forall_mem_cons, List.map_cons, List.nodup_cons, List.mem_map,
    List.mem_append, List.mem_singleton, not_or, not_exists, not_and]
  constructor
  · rintro ⟨⟨hc, hcs⟩, hne, hnd⟩
    exact ⟨hc, fun d hd => ⟨(hcs d hd).1, (hcs d hd).2, hne d hd⟩, hnd⟩
  · rintro ⟨hc, hcs, hnd⟩
    exact ⟨⟨hc, fun d hd => ⟨(hcs d hd).1, (hcs d hd).2.1⟩⟩, fun d hd => (hcs d hd).2.2, hnd⟩

theorem scanComponent_of_bytes {c : PyStr × Bytes} {b : Bytes}
    (hb : componentToBytes c = .ok b) (seen : List PyStr) (t : Bytes) :
    (c.1 ≠ .text "" ∧ c.1 ∉ seen → (scanComponent seen).run (b ++ t) = .ok (c, t)) ∧
    (¬(c.1 ≠ .text "" ∧ c.1 ∉ seen) →
      ∃ m, (scanComponent seen).run (b ++ t) = .error (.headerParseError m)) := by
  obtain ⟨alg, ha, hal, hct, rfl⟩ := componentToBytes_eq_ok hb
  have h1 := beDecode_encode 1 alg.length (by omega)
  have h2 := beDecode_encode 2 c.2.length (by omega)
  have hrun : (scanComponent seen).run
      (beEncode 1 alg.length ++ (alg ++ (beEncode 2 c.2.length ++ c.2)) ++ t) =
      if c.1.isEmpty then .error (.headerParseError "empty algorithm_id in header component")
      else if c.1 ∈ seen then
        .error (.headerParseError s!"duplicate algorithm_id '{c.1}' in header")
      else .ok (c, t) := by
    simp only [scanComponent, List.append_assoc]
    rw [(Reads.take (beEncode_length 1 _) _).run_bind, h1, (Reads.take rfl _).run_bind,
      PyStr.decode_of_encode ha, Scanner.run_bind, run_ofExcept_ok]
    dsimp only
    split_ifs with he hs
    · rfl
    · rfl
    · rw [(Reads.take (beEncode_length 2 _) _).run_bind, h2, (Reads.take rfl _).run_bind]
      rfl
  rw [hrun]
  constructor
  · rintro ⟨hne, hns⟩
    rw [if_neg (by rwa [PyStr.isEmpty_iff]), if_neg hns]
  · intro hbad
    by_cases he : c.1.isEmpty
    · exact ⟨_, if_pos he⟩
    · rw [if_neg he]
      by_cases hs : c.1 ∈ seen
      · exact ⟨_, if_pos hs⟩
      · rw [PyStr.isEmpty_iff] at he
        exact absurd ⟨he, hs⟩ hbad

theorem scanComponents_of_bytes (cs : List (PyStr × Bytes)) {b : Bytes}
    (hb : componentsToBytes cs = .ok b) (seen : List PyStr) (t : Bytes) :
    (GoodIds seen cs → (scanComponents cs.length seen).run (b ++ t) = .ok (cs, t)) ∧
    (¬GoodIds seen cs →
      ∃ m, (scanComponents cs.length seen).run (b ++ t) = .error (.headerParseError m)) := by
  induction cs generalizing b seen with
  | nil =>
    cases hb
    exact ⟨fun _ => rfl, fun h => absurd (by simp [GoodIds]) h⟩
  | cons c cs ih =>
    obtain ⟨cb, hcb, hb⟩ := bind_eq_ok.mp hb
    obtain ⟨rb, hrb, hb⟩ := bind_eq_ok.mp hb
    cases hb
    have hc := scanComponent_of_bytes hcb seen (rb ++ t)
    have hr := ih hrb (seen ++ [c.1])
    rw [goodIds_cons, List.append_assoc, List.length_cons, scanComponents, Scanner.run_bind]
    by_cases hgood : c.1 ≠ .text "" ∧ c.1 ∉ seen
    · rw [hc.1 hgood]
      dsimp only
      rw [Scanner.run_bind]
      constructor
      · rintro ⟨-, hrest⟩
        rw [hr.1 hrest]
        rfl
      · intro hbad
        obtain ⟨m, hm⟩ := hr.2 fun hrest => hbad ⟨hgood, hrest⟩
        rw [hm]
        exact ⟨m, rfl⟩
    · obtain ⟨m, hm⟩ := hc.2 hgood
      rw [hm]
      exact ⟨fun h => absurd h.1 hgood, fun _ => ⟨m, rfl⟩⟩

/-- Version 1 headers are written without their nonce. -/
def stripped (h : CryptoflexHeader) : CryptoflexHeader :=
  if h.version = 1 then { h with nonce := none } else h

theorem scanNonce_of_bytes {v : Nat} {nonce : Option Bytes} {b : Bytes}
    (hb : nonceToBytes v nonce = .ok b) (t : Bytes) :
    (scanNonce v).run (b ++ t) = .ok (if v < 2 then none else nonce, t) := by
  unfold scanNonce
  rcases nonceToBytes_eq_ok hb with ⟨hv, rfl⟩ | ⟨hv, rfl, hlen⟩
  · rw [if_pos (by omega), if_pos (by omega)]
    rfl
  · rw [if_neg (by omega), if_neg (by omega), (Reads.take hlen _).run_bind]
    rfl

/-- The semantic checks of the decoder that the encoder does not make. -/
def Decodable (h : CryptoflexHeader) : Prop :=
  h.profileId ≠ .text "" ∧ h.components ≠ [] ∧ GoodIds [] h.components

theorem scanHeader_of_bytes {h : CryptoflexHeader} {b : Bytes} (hb : h.toBytes = .ok b)
    (t : Bytes) :
    (Decodable h → scanHeader.run (b ++ t) = .ok (stripped h, t)) ∧
    (¬Decodable h → ∃ m, scanHeader.run (b ++ t) = .error (.headerParseError m)) := by
  obtain ⟨v, profile, cb, nb, hv, hv12, hp, hpl, hcl, hcb, hnb, rfl⟩ := toBytes_eq_ok hb
  have hfront : (magic ++ beEncode 1 v ++ beEncode 1 profile.length).length = 6 := by
    simp [magic]
  have hvb : beEncode 1 v = [UInt8.ofNat v] := rfl
  have hplb : beEncode 1 profile.length = [UInt8.ofNat profile.length] := rfl
  have hcount := beDecode_encode 1 h.components.length (by omega)
  have hslice : slice (magic ++ beEncode 1 v ++ beEncode 1 profile.length) 0 4 = magic := by
    simp [slice, magic]
  have hi4 : index (magic ++ beEncode 1 v ++ beEncode 1 profile.length) 4 = .ok v := by
    rw [hvb, hplb]
    simp only [index, magic, List.cons_append, List.nil_append, List.getElem?_cons_succ,
      List.getElem?_cons_zero, UInt8.toNat_ofNat']
    rw [Nat.mod_eq_of_lt (by omega)]
  have hi5 : index (magic ++ beEncode 1 v ++ beEncode 1 profile.length) 5 =
      .ok profile.length := by
    rw [hvb, hplb]
    simp only [index, magic, List.cons_append, List.nil_append, List.getElem?_cons_succ,
      List.getElem?_cons_zero, UInt8.toNat_ofNat']
    rw [Nat.mod_eq_of_lt (by omega)]
  have hsup : ¬((v : Nat) : Int) ∉ supportedVersions := by
    rcases hv12 with rfl | rfl <;> decide
  have hrun : scanHeader.run ((magic ++ beEncode 1 v ++ beEncode 1 profile.length) ++
      (profile ++ (beEncode 1 h.components.length ++ (cb ++ nb))) ++ t) =
      (scanBody v profile.length).run
        (profile ++ (beEncode 1 h.components.length ++ (cb ++ (nb ++ t)))) := by
    rw [scanHeader, List.append_assoc _ _ t, (Reads.take hfront _).run_bind,
      if_neg (not_not.mpr hslice), hi4, Scanner.run_bind, run_ofExcept_ok]
    dsimp only
    rw [if_neg hsup, hi5, Scanner.run_bind, run_ofExcept_ok]
    simp only [List.append_assoc]
  rw [hrun, scanBody, (Reads.take rfl _).run_bind, PyStr.decode_of_encode hp, Scanner.run_bind,
    run_ofExcept_ok]
  dsimp only
  by_cases he : h.profileId.isEmpty
  · rw [if_pos he]
    exact ⟨fun hd => absurd (PyStr.isEmpty_iff.mp he) hd.1, fun _ => ⟨_, rfl⟩⟩
  rw [if_neg he, (Reads.take (beEncode_length 1 _) _).run_bind, hcount]
  by_cases hz : h.components.length = 0
  · rw [if_pos hz]
    exact ⟨fun hd => absurd (List.length_eq_zero_iff.mp hz) hd.2.1, fun _ => ⟨_, rfl⟩⟩
  rw [if_neg hz, Scanner.run_bind]
  have hc := scanComponents_of_bytes h.components hcb [] (nb ++ t)
  by_cases hgood : GoodIds [] h.components
  · rw [hc.1 hgood]
    dsimp only
    rw [Scanner.run_bind, scanNonce_of_bytes (hv ▸ hnb) t]
    refine ⟨fun _ => ?_, fun hbad => absurd ⟨?_, ?_, hgood⟩ hbad⟩
    · dsimp only
      rw [run_pure, stripped, hv]
      rcases hv12 with rfl | rfl
      · simp
      · rw [if_neg (by omega), if_neg (by decide), ← hv]
    · rwa [PyStr.isEmpty_iff] at he
    · intro h0
      simp [h0] at hz
  · obtain ⟨m, hm⟩ := hc.2 hgood
    rw [hm]
    exact ⟨fun hd => absurd hd.2.2 hgood, fun _ => ⟨m, rfl⟩⟩

theorem reads_toBytes {h : CryptoflexHeader} {b : Bytes} (hb : h.toBytes = .ok b)
    (hd : Decodable h) : Reads scanHeader b (stripped h) :=
  fun t => (scanHeader_of_bytes hb t).1 hd

theorem reads_ne_nil {c : Bytes} {h : CryptoflexHeader} (hr : scanHeader.Reads c h) (t : Bytes) :
    c ++ t ≠ [] := by
  intro hnil
  have hrun := hr t
  rw [hnil] at hrun
  cases hrun

/-- A component fits its length fields. -/
def ComponentWritable (c : PyStr × Bytes) : Prop :=
  ∃ algBytes, c.1.encode = .ok algBytes ∧ algBytes.length ≤ 255 ∧ c.2.length ≤ 65535

theorem componentToBytes_of_writable {c : PyStr × Bytes} (h : ComponentWritable c) :
    ∃ b, componentToBytes c = .ok b := by
  obtain ⟨algBytes, henc, halg, hct⟩ := h
  have halg' : pack 1 algBytes.length = .ok (beEncode 1 algBytes.length) := pack_nat (by omega)
  have hct' : pack 2 c.2.length = .ok (beEncode 2 c.2.length) := pack_nat (by omega)
  unfold componentToBytes
  rw [henc, ok_bind, if_neg (by omega), if_neg (by omega), halg', ok_bind, hct']
  exact ⟨_, rfl⟩

theorem componentsToBytes_of_writable {cs : List (PyStr × Bytes)}
    (h : ∀ c ∈ cs, ComponentWritable c) : ∃ b, componentsToBytes cs = .ok b := by
  induction cs with
  | nil => exact ⟨[], rfl⟩
  | cons c cs ih =>
    obtain ⟨out, hout⟩ := componentToBytes_of_writable (h c List.mem_cons_self)
    obtain ⟨tail, htail⟩ := ih fun d hd => h d (List.mem_cons_of_mem c hd)
    rw [componentsToBytes, hout, ok_bind, htail]
    exact ⟨_, rfl⟩

/-- A version 2 header whose parts fit their length fields is serialized. -/
theorem toBytes_of_writable {h : CryptoflexHeader} (hv : h.version = 2) {profileBytes : Bytes}
    (hp : h.profileId.encode = .ok profileBytes) (hpl : profileBytes.length ≤ 255)
    (hcount : h.components.length ≤ 255) (hcs : ∀ c ∈ h.components, ComponentWritable c)
    {nonce : Bytes} (hn : h.nonce = some nonce) (hnl : nonce.length = nonceLen) :
    ∃ b, h.toBytes = .ok b := by
  have hplen : pack 1 profileBytes.length = .ok (beEncode 1 profileBytes.length) :=
    pack_nat (by omega)
  have hclen : pack 1 h.components.length = .ok (beEncode 1 h.components.length) :=
    pack_nat (by omega)
  have hnonce : nonceToBytes 2 (some nonce) = .ok nonce := by
    have hne : nonce ≠ [] := by
      rintro rfl
      cases hnl
    unfold nonceToBytes
    rw [if_neg (by decide)]
    dsimp only
    rw [if_neg hne, if_neg (not_not.mpr hnl)]
  obtain ⟨out, hout⟩ := componentsToBytes_of_writable hcs
  unfold toBytes
  have hversion : pack 1 2 = .ok (beEncode 1 2) := rfl
  rw [hv, hn, if_neg (by decide), hversion, ok_bind, hp, ok_bind, if_neg (by omega), hplen, ok_bind,
    if_neg (by omega), hclen, ok_bind, hout, ok_bind, hnonce]
  exact ⟨_, rfl⟩

theorem goodIds_nil {cs : List (PyStr × Bytes)} :
    GoodIds [] cs ↔ (∀ c ∈ cs, c.1 ≠ .text "") ∧ (cs.map Prod.fst).Nodup := by
  simp [GoodIds]

/-- Encoding and decoding agree on everything the encoder accepts: a decodable header comes back
unchanged, except that a version 1 header loses its nonce; every other one is refused. -/
theorem fromBytes_toBytes (h : CryptoflexHeader) (b t : Bytes) (hb : h.toBytes = .ok b) :
    (h.profileId ≠ .text "" → h.components ≠ [] → (∀ c ∈ h.components, c.1 ≠ .text "") →
      (h.components.map Prod.fst).Nodup →
      ((h.version = 1 → h.nonce = none) → fromBytes (b ++ t) = .ok (h, b.length)) ∧
      (h.version = 1 → h.nonce ≠ none →
        fromBytes (b ++ t) = .ok ({ h with nonce := none }, b.length))) ∧
    (h.profileId = .text "" ∨ h.components = [] ∨ (∃ c ∈ h.components, c.1 = .text "") ∨
      ¬(h.components.map Prod.fst).Nodup →
      ∃ m, fromBytes (b ++ t) = .error (.headerParseError m)) := by
  refine ⟨fun hp hc hids hnd => ?_, fun hbad => ?_⟩
  · have hr := fromBytes_of_reads (reads_toBytes hb ⟨hp, hc, goodIds_nil.mpr ⟨hids, hnd⟩⟩) t
    rw [hr, stripped]
    refine ⟨fun hnone => ?_, fun hv _ => by rw [if_pos hv]⟩
    by_cases hv : h.version = 1
    · rw [if_pos hv, ← hnone hv]
    · rw [if_neg hv]
  · have hnd : ¬Decodable h := by
      rintro ⟨hp, hc, hgood⟩
      obtain ⟨hids, hnodup⟩ := goodIds_nil.mp hgood
      rcases hbad with h0 | h0 | ⟨c, hcm, h0⟩ | h0
      · exact hp h0
      · exact hc h0
      · exact hids c hcm h0
      · exact h0 hnodup
    obtain ⟨m, hm⟩ := (scanHeader_of_bytes hb t).2 hnd
    exact ⟨m, by rw [fromBytes, parse_of_scan_error hm]⟩

/-- A one-component version 1 header that carries a nonce. -/
def sampleHeader : CryptoflexHeader :=
  { profileId := "p", components := [(.text "x", [7])], nonce := some [1], version := 1 }

def sampleBytes : Bytes := [0x43, 0x46, 0x4C, 0x58, 1, 1, 0x70, 1, 1, 0x78, 0, 1, 7]

theorem sampleHeader_toBytes : sampleHeader.toBytes = .ok sampleBytes := by decide +kernel

theorem fromBytes_toBytes_sample :
    fromBytes (sampleBytes ++ [9]) = .ok ({ sampleHeader with nonce := none }, 13) :=
  ((fromBytes_toBytes sampleHeader sampleBytes [9] sampleHeader_toBytes).1 (by decide)
    (by decide) (by decide) (by decide)).2 rfl (by decide)

end CryptoFlex.CryptoflexHeader
