import CryptoFlex.Combiner

namespace CryptoFlex

open Lib

/-- The id and the ciphertext of a component fit their length fields. -/
def ComponentFits (component : PyStr × Bytes) : Prop :=
  ∃ algBytes, component.1.encode = .ok algBytes ∧ algBytes.length < 2 ^ 32 ∧
    component.2.length < 2 ^ 32

/-- Every field of the HKDF info fits its width. -/
structure InfoFits (context : Bytes) (components : List (PyStr × Bytes)) (specVersion : Int) :
    Prop where
  version : 0 ≤ specVersion ∧ specVersion < 2 ^ 16
  context : context.length < 2 ^ 32
  count : components.length < 2 ^ 16
  components : ∀ c ∈ components, ComponentFits c

/-- A component in the info, behind the lengths of its two parts. -/
def componentInfo (algBytes ciphertext : Bytes) : Bytes :=
  beEncode 4 algBytes.length ++ (algBytes ++ (beEncode 4 ciphertext.length ++ ciphertext))

theorem pack_eq_ok_int {w : Nat} {v : Int} {b : Bytes} (h : pack w v = .ok b) :
    (0 ≤ v ∧ v < 256 ^ w) ∧ b = beEncode w v.toNat := by
  unfold pack at h
  split at h
  · next hv =>
    cases h
    exact ⟨hv, rfl⟩
  · cases h

theorem encodeComponents_cons {c : PyStr × Bytes} {cs : List (PyStr × Bytes)} {out : Bytes} :
    encodeComponents (c :: cs) = .ok out ↔ ∃ algBytes tail, c.1.encode = .ok algBytes ∧
      algBytes.length < 2 ^ 32 ∧ c.2.length < 2 ^ 32 ∧ encodeComponents cs = .ok tail ∧
      out = componentInfo algBytes c.2 ++ tail := by
  obtain ⟨algId, ciphertext⟩ := c
  constructor
  · intro h
    unfold encodeComponents at h
    obtain ⟨algBytes, halg, h⟩ := bind_eq_ok.mp h
    obtain ⟨algLen, hlen, h⟩ := bind_eq_ok.mp h
    obtain ⟨ctLen, hct, h⟩ := bind_eq_ok.mp h
    obtain ⟨tail, htail, h⟩ := bind_eq_ok.mp h
    cases h
    obtain ⟨halg', rfl⟩ := pack_eq_ok hlen
    obtain ⟨hct', rfl⟩ := pack_eq_ok hct
    exact ⟨algBytes, tail, halg, by omega, by omega, htail, by simp [componentInfo]⟩
  · rintro ⟨algBytes, tail, halg, hlen, hct, htail, rfl⟩
    dsimp only at halg hct
    have hlen' : pack 4 algBytes.length = .ok (beEncode 4 algBytes.length) :=
      pack_nat (by omega)
    have hct' : pack 4 ciphertext.length = .ok (beEncode 4 ciphertext.length) :=
      pack_nat (by omega)
    rw [encodeComponents, halg, ok_bind, hlen', ok_bind, hct', ok_bind, htail]
    simp [componentInfo]

theorem encodeComponents_isOk (components : List (PyStr × Bytes)) :
    (∃ out, encodeComponents components = .ok out) ↔ ∀ c ∈ components, ComponentFits c := by
  induction components with
  | nil => simp [encodeComponents]
  | cons c cs ih =>
    simp only [List.forall_mem_cons, ← ih]
    constructor
    · rintro ⟨out, h⟩
      obtain ⟨algBytes, tail, halg, hlen, hct, htail, -⟩ := encodeComponents_cons.mp h
      exact ⟨⟨algBytes, halg, hlen, hct⟩, tail, htail⟩
    · rintro ⟨⟨algBytes, halg, hlen, hct⟩, tail, htail⟩
      exact ⟨_, encodeComponents_cons.mpr ⟨algBytes, tail, halg, hlen, hct, htail, rfl⟩⟩

theorem encodeInfo_eq_ok {context : Bytes} {components : List (PyStr × Bytes)} {specVersion : Int}
    {info : Bytes} : encodeInfo context components specVersion = .ok info ↔
      (0 ≤ specVersion ∧ specVersion < 2 ^ 16) ∧ context.length < 2 ^ 32 ∧
      components.length < 2 ^ 16 ∧ ∃ out, encodeComponents components = .ok out ∧
        info = beEncode 2 specVersion.toNat ++ (beEncode 4 context.length ++ (context ++
          (beEncode 2 components.length ++ out))) := by
  constructor
  · intro h
    unfold encodeInfo at h
    obtain ⟨version, hversion, h⟩ := bind_eq_ok.mp h
    obtain ⟨contextLen, hcontext, h⟩ := bind_eq_ok.mp h
    obtain ⟨numComponents, hcount, h⟩ := bind_eq_ok.mp h
    obtain ⟨out, hout, h⟩ := bind_eq_ok.mp h
    cases h
    obtain ⟨hversion', rfl⟩ := pack_eq_ok_int hversion
    obtain ⟨hcontext', rfl⟩ := pack_eq_ok hcontext
    obtain ⟨hcount', rfl⟩ := pack_eq_ok hcount
    exact ⟨⟨hversion'.1, by omega⟩, by omega, by omega, out, hout, by simp⟩
  · rintro ⟨hversion, hcontext, hcount, out, hout, rfl⟩
    have hversion' : pack 2 specVersion = .ok (beEncode 2 specVersion.toNat) :=
      if_pos ⟨hversion.1, by omega⟩
    have hcontext' : pack 4 context.length = .ok (beEncode 4 context.length) :=
      pack_nat (by omega)
    have hcount' : pack 2 components.length = .ok (beEncode 2 components.length) :=
      pack_nat (by omega)
    rw [encodeInfo, hversion', ok_bind, hcontext', ok_bind, hcount', ok_bind, hout]
    simp

/-- The info exists just when all of its fields fit; otherwise `_encode_info` raises. -/
theorem encodeInfo_isOk (context : Bytes) (components : List (PyStr × Bytes)) (specVersion : Int) :
    (∃ info, encodeInfo context components specVersion = .ok info) ↔
      InfoFits context components specVersion := by
  simp only [encodeInfo_eq_ok]
  constructor
  · rintro ⟨info, hversion, hcontext, hcount, out, hout, -⟩
    exact ⟨hversion, hcontext, hcount, (encodeComponents_isOk components).mp ⟨out, hout⟩⟩
  · intro h
    obtain ⟨out, hout⟩ := (encodeComponents_isOk components).mpr h.components
    exact ⟨_, h.version, h.context, h.count, out, hout, rfl⟩

theorem componentInfo_append_inj {a b c d s t : Bytes} (ha : a.length < 2 ^ 32)
    (hb : b.length < 2 ^ 32) (hc : c.length < 2 ^ 32) (hd : d.length < 2 ^ 32)
    (h : componentInfo a c ++ s = componentInfo b d ++ t) : a = b ∧ c = d ∧ s = t := by
  simp only [componentInfo, List.append_assoc] at h
  obtain ⟨halg, h⟩ := prefixed_append_inj (w := 4) (by omega) (by omega) h
  obtain ⟨hct, hrest⟩ := prefixed_append_inj (w := 4) (by omega) (by omega) h
  exact ⟨halg, hct, hrest⟩

theorem encodeComponents_inj {cs ds : List (PyStr × Bytes)} (hlen : cs.length = ds.length)
    {out : Bytes} (hc : encodeComponents cs = .ok out) (hd : encodeComponents ds = .ok out) :
    cs = ds := by
  induction cs generalizing ds out with
  | nil => exact (List.length_eq_zero_iff.mp hlen.symm).symm
  | cons c cs ih =>
    cases ds with
    | nil => cases hlen
    | cons d ds =>
      obtain ⟨a, s, ha, halen, hclen, hs, rfl⟩ := encodeComponents_cons.mp hc
      obtain ⟨b, t, hb, hblen, hdlen, ht, heq⟩ := encodeComponents_cons.mp hd
      obtain ⟨hab, hct, hst⟩ := componentInfo_append_inj halen hblen hclen hdlen heq
      subst hst
      have hid : c.1 = d.1 := by
        have hdec := PyStr.decode_of_encode ha
        rw [hab, PyStr.decode_of_encode hb] at hdec
        exact (Except.ok.inj hdec).symm
      have hrest := ih (by simpa using hlen) hs ht
      rw [hrest, Prod.ext hid hct]

theorem encodeInfo_inj {context context' : Bytes} {cs ds : List (PyStr × Bytes)}
    {specVersion specVersion' : Int} {info : Bytes}
    (h : encodeInfo context cs specVersion = .ok info)
    (h' : encodeInfo context' ds specVersion' = .ok info) :
    specVersion = specVersion' ∧ context = context' ∧ cs = ds := by
  obtain ⟨hv, hx, hn, out, hout, rfl⟩ := encodeInfo_eq_ok.mp h
  obtain ⟨hv', hx', hn', out', hout', heq⟩ := encodeInfo_eq_ok.mp h'
  obtain ⟨hversion, heq⟩ := beEncode_append_inj (by omega) (by omega) heq
  obtain ⟨hcontext, heq⟩ := prefixed_append_inj (w := 4) (by omega) (by omega) heq
  obtain ⟨hcount, heq⟩ := beEncode_append_inj (w := 2) (by omega) (by omega) heq
  subst heq
  exact ⟨by omega, hcontext, encodeComponents_inj hcount hout hout'⟩

/-- The inputs of one key combination. -/
structure CombinerInput where
  specVersion : Int
  context : Bytes
  parts : List (PyStr × Encapsulation)

namespace CombinerInput

def components (x : CombinerInput) : List (PyStr × Bytes) :=
  x.parts.map fun p => (p.1, p.2.ciphertext)

def secrets (x : CombinerInput) : List (PyStr × Bytes) :=
  x.parts.map fun p => (p.1, p.2.sharedSecret)

/-- The secrets behind each other, with nothing between them. -/
def ikm (x : CombinerInput) : Bytes := (x.parts.map fun p => p.2.sharedSecret).flatten

def info (x : CombinerInput) : Except Exc Bytes :=
  encodeInfo x.context x.components x.specVersion

/-- How long a shared secret is depends on its algorithm only. -/
def SecretLengths (secretLen : PyStr → Nat) (x : CombinerInput) : Prop :=
  ∀ p ∈ x.parts, p.2.sharedSecret.length = secretLen p.1

theorem SecretLengths.lengths {secretLen : PyStr → Nat} {x : CombinerInput}
    (h : x.SecretLengths secretLen) :
    (x.parts.map fun p => p.2.sharedSecret).map List.length =
      (x.components.map Prod.fst).map secretLen := by
  simp only [components, List.map_map]
  apply List.map_congr_left
  intro p hp
  exact h p hp

theorem parts_ext {x y : CombinerInput} (hc : x.components = y.components)
    (hs : (x.parts.map fun p => p.2.sharedSecret) = y.parts.map fun p => p.2.sharedSecret) :
    x.parts = y.parts := by
  unfold components at hc
  generalize x.parts = ps at hc hs ⊢
  generalize y.parts = qs at hc hs ⊢
  induction ps generalizing qs with
  | nil =>
    have hlen := congrArg List.length hc
    rw [List.map_nil, List.length_nil, List.length_map] at hlen
    exact (List.length_eq_zero_iff.mp hlen.symm).symm
  | cons p ps ih =>
    cases qs with
    | nil => cases hc
    | cons q qs =>
      obtain ⟨algId, ⟨ct, secret⟩⟩ := p
      obtain ⟨algId', ⟨ct', secret'⟩⟩ := q
      simp only [List.map_cons, List.cons.injEq, Prod.mk.injEq] at hc hs
      obtain ⟨⟨rfl, rfl⟩, hc⟩ := hc
      obtain ⟨rfl, hs⟩ := hs
      rw [ih qs hc hs]

/-- The ids in the info fix where each secret ends in the key material. -/
theorem eq_of_info_ikm {secretLen : PyStr → Nat} {x y : CombinerInput}
    (hx : x.SecretLengths secretLen) (hy : y.SecretLengths secretLen) {info : Bytes}
    (hxinfo : x.info = .ok info) (hyinfo : y.info = .ok info) (hikm : x.ikm = y.ikm) : x = y := by
  obtain ⟨hversion, hcontext, hcomponents⟩ := encodeInfo_inj hxinfo hyinfo
  have hlengths := hx.lengths
  rw [hcomponents, ← hy.lengths] at hlengths
  have hsecrets := List.eq_iff_flatten_eq.mpr ⟨hikm, hlengths⟩
  have hparts := parts_ext hcomponents hsecrets
  cases x
  cases y
  dsimp only at hversion hcontext hparts
  rw [hversion, hcontext, hparts]

/-- The key that HKDF derives of the info and the key material. -/
def combined (hkdf : Hkdf) (x : CombinerInput) : Except Exc CombinedKeyMaterial :=
  x.info.map fun info => { rootKey := (hkdf info x.ikm).val, components := x.components }

theorem combine_eq (hkdf : Hkdf) {parts : List (PyStr × Encapsulation)} (hne : parts ≠ [])
    (context : Bytes) :
    combine hkdf parts context = combined hkdf ⟨combinerSpecVersion, context, parts⟩ := by
  have hinfo : info ⟨combinerSpecVersion, context, parts⟩ =
    encodeInfo context (parts.map fun p => (p.1, p.2.ciphertext)) := rfl
  unfold combine combined
  dsimp only
  rw [if_neg hne, hinfo]
  cases encodeInfo context (parts.map fun p => (p.1, p.2.ciphertext)) with
  | error e => simp [Except.map]
  | ok b => simp [Except.map, ikm, components]

theorem combineFromSecrets_eq (hkdf : Hkdf) (parts : List (PyStr × Encapsulation))
    (context : Bytes) :
    combineFromSecrets hkdf (parts.map fun p => (p.1, p.2.sharedSecret))
        (parts.map fun p => (p.1, p.2.ciphertext)) context =
      combined hkdf ⟨combinerSpecVersion, context, parts⟩ := by
  have hids : (parts.map fun p => (p.1, p.2.sharedSecret)).map Prod.fst =
      (parts.map fun p => (p.1, p.2.ciphertext)).map Prod.fst := by simp
  have hikm : (parts.map fun p => (p.1, p.2.sharedSecret)).map Prod.snd =
      parts.map fun p => p.2.sharedSecret := by simp
  have hinfo : info ⟨combinerSpecVersion, context, parts⟩ =
    encodeInfo context (parts.map fun p => (p.1, p.2.ciphertext)) := rfl
  unfold combineFromSecrets combined
  dsimp only
  rw [if_neg (not_not.mpr hids), hikm, hinfo]
  cases encodeInfo context (parts.map fun p => (p.1, p.2.ciphertext)) with
  | error e => simp [Except.map]
  | ok b => simp [Except.map, ikm, components]

end CombinerInput

/-- The combiner binds all of its inputs, both sides derive from the same ones, and a field that is
too wide is refused. -/
theorem combiner_binds :
    (∀ (secretLen : PyStr → Nat) (x y : CombinerInput), x.SecretLengths secretLen →
      y.SecretLengths secretLen → ∀ info, x.info = .ok info → y.info = .ok info →
      x.ikm = y.ikm → x = y) ∧
    (∀ (hkdf : Hkdf) (parts : List (PyStr × Encapsulation)) (context : Bytes), parts ≠ [] →
      combine hkdf parts context =
          CombinerInput.combined hkdf ⟨combinerSpecVersion, context, parts⟩ ∧
        combineFromSecrets hkdf (parts.map fun p => (p.1, p.2.sharedSecret))
          (parts.map fun p => (p.1, p.2.ciphertext)) context =
            CombinerInput.combined hkdf ⟨combinerSpecVersion, context, parts⟩) ∧
    ∀ x : CombinerInput, (∃ info, x.info = .ok info) ↔
      InfoFits x.context x.components x.specVersion := by
  refine ⟨?_, ?_, ?_⟩
  · intro secretLen x y hx hy info hxinfo hyinfo hikm
    exact CombinerInput.eq_of_info_ikm hx hy hxinfo hyinfo hikm
  · intro hkdf parts context hne
    exact ⟨CombinerInput.combine_eq hkdf hne context,
      CombinerInput.combineFromSecrets_eq hkdf parts context⟩
  · intro x
    exact encodeInfo_isOk x.context x.components x.specVersion

/-- A classical and a post-quantum component with these secrets. -/
def twoSecrets (classical pqc : Bytes) : CombinerInput :=
  ⟨combinerSpecVersion, defaultContext,
    [("x25519", ⟨[1], classical⟩), ("mlkem768", ⟨[2, 3], pqc⟩)]⟩

theorem combiner_binds_twoSecrets : ∃ info, (twoSecrets [1] [2, 3]).info = .ok info ∧
    (twoSecrets [1] [2, 4]).info = .ok info ∧
    (twoSecrets [1] [2, 3]).ikm ≠ (twoSecrets [1] [2, 4]).ikm := by
  let components : List (PyStr × Bytes) := [("x25519", [1]), ("mlkem768", [2, 3])]
  have hinfo : ∀ pqc, (twoSecrets [1] pqc).info =
      encodeInfo defaultContext components combinerSpecVersion := fun _ => rfl
  have hfits : InfoFits defaultContext components combinerSpecVersion := by
    refine ⟨by decide, by decide +kernel, by decide, ?_⟩
    simp only [components, List.forall_mem_cons]
    exact ⟨⟨_, rfl, by decide +kernel, by decide⟩, ⟨_, rfl, by decide +kernel, by decide⟩,
      List.forall_mem_nil _⟩
  have hlengths : ∀ a b, (twoSecrets [1] [a, b]).SecretLengths
      fun id => if id = "x25519" then 1 else 2 := by
    intro a b
    simp [CombinerInput.SecretLengths, twoSecrets]
  obtain ⟨info, hok⟩ := (combiner_binds.2.2 (twoSecrets [1] [2, 3])).mpr hfits
  refine ⟨info, hok, hok, ?_⟩
  intro hikm
  have heq := combiner_binds.1 _ _ _ (hlengths 2 3) (hlengths 2 4) info hok hok hikm
  simp [twoSecrets] at heq

end CryptoFlex
