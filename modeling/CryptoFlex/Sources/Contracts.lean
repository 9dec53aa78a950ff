import CryptoFlex.Keystore.Reloading
import CryptoFlex.Streaming.MigrationChain

namespace CryptoFlex

open Lib

/-- The keys of the `cryptography` package: generated, or read from raw bytes. -/
inductive X25519.Made {K : Type} (x : X25519 K) : K → Prop
  | generated {pool pool' : Entropy} {key : K} (run : x.generate.run pool = (.ok key, pool')) :
    Made x key
  | read {b : Bytes} {key : K} (run : x.fromPrivateBytes b = .ok key) : Made x key

/-- X25519 on raw keys of 32 bytes: both sides of an exchange get one secret, and a key is read back
from its raw bytes. -/
structure X25519.Documented {K : Type} (x : X25519 K) : Prop where
  generates : ∀ pool, ∃ key pool', x.generate.run pool = (.ok key, pool')
  publicLength : ∀ key, x.Made key → (x.publicBytesRaw key).length = 32
  readsPublic : ∀ key, x.Made key →
    x.fromPublicBytes (x.publicBytesRaw key) = .ok (x.publicBytesRaw key)
  agrees : ∀ key key', x.Made key → x.Made key' → ∃ secret,
    x.exchange key (x.publicBytesRaw key') = .ok secret ∧
      x.exchange key' (x.publicBytesRaw key) = .ok secret
  privateLength : ∀ key, x.Made key → (x.privateBytesRaw key).length = 32
  readsPrivate : ∀ key, x.Made key → ∃ key', x.fromPrivateBytes (x.privateBytesRaw key) = .ok key' ∧
    x.privateBytesRaw key' = x.privateBytesRaw key ∧ x.publicBytesRaw key' = x.publicBytesRaw key

/-- The objects of a mechanism: made with a key pair, or for a secret key of the right length. -/
inductive Oqs.Made {K : Type} (o : Oqs K) (kemName : String) : K → Prop
  | generated {pool pool' : Entropy} {pub : Bytes} {kem : K}
    (run : (o.generateKeypair kemName).run pool = (.ok (pub, kem), pool')) : Made o kemName kem
  | read {b : Bytes} {kem : K} (size : ∀ n, o.lengthSecretKey kemName = some n → b.length = n)
    (run : o.fromSecretKey kemName b = .ok kem) : Made o kemName kem

/-- Two objects with one secret key. -/
structure Oqs.SameKey {K : Type} (o : Oqs K) (kem kem' : K) : Prop where
  lengthCiphertext : o.lengthCiphertext kem' = o.lengthCiphertext kem
  decapSecret : ∀ ct, o.decapSecret kem' ct = o.decapSecret kem ct
  exportSecretKey : o.exportSecretKey kem' = o.exportSecretKey kem

/-- An ML-KEM mechanism of `oqs`: what is encapsulated to a generated key has the length that the
details say and is recovered, and an object for an exported key works like the exported one. No
ciphertext of an ML-KEM has more than 1568 bytes and no key more than 3168. -/
structure Oqs.Documented {K : Type} (o : Oqs K) (kemName : String) : Prop where
  generates : ∀ pool, ∃ pub kem pool', (o.generateKeypair kemName).run pool = (.ok (pub, kem), pool')
  publicLength : ∀ pool pool' pub kem,
    (o.generateKeypair kemName).run pool = (.ok (pub, kem), pool') → pub.length ≤ 3168
  ciphertextLength : ∀ pub coins coins' ct secret,
    (o.encapSecret kemName pub).run coins = (.ok (ct, secret), coins') → ct.length ≤ 1568
  encapsulates : ∀ pool pool' pub kem,
    (o.generateKeypair kemName).run pool = (.ok (pub, kem), pool') →
      ∀ coins, ∃ ct secret coins', (o.encapSecret kemName pub).run coins = (.ok (ct, secret), coins')
  decapsulates : ∀ pool pool' pub kem,
    (o.generateKeypair kemName).run pool = (.ok (pub, kem), pool') →
      ∀ coins coins' ct secret, (o.encapSecret kemName pub).run coins = (.ok (ct, secret), coins') →
        (∀ n, o.lengthCiphertext kem = some n → ct.length = n) ∧ o.decapSecret kem ct = .ok secret
  exports : ∀ kem, o.Made kemName kem → ∃ b, o.exportSecretKey kem = .ok b ∧ b.length ≤ 3168 ∧
    ∀ n, o.lengthSecretKey kemName = some n → b.length = n
  reads : ∀ kem b, o.Made kemName kem → o.exportSecretKey kem = .ok b →
    ∃ kem', o.fromSecretKey kemName b = .ok kem' ∧ o.SameKey kem kem'

/-- A handle of a key pair: the generated one, or one that was saved and read back. -/
inductive Source.Handle {H : Type} (s : Source H) (pub : Bytes) : H → Prop
  | generated {pool pool' : Entropy} {priv : H}
    (run : s.generateKeypair.run pool = (.ok (pub, priv), pool')) : Handle s pub priv
  | reloaded {handle handle' : H} {b : Bytes} (old : Handle s pub handle)
    (saved : s.serializePrivate handle = .ok b) (read : s.deserializePrivate b = .ok handle') :
    Handle s pub handle'

/-- A KEM that generates keys wherever it is available, whose handles can be saved and read back
again and again, and keep opening what is encapsulated to their public key. Neither its ciphertexts
nor its keys are large. -/
structure Source.Lasting {H : Type} (s : Source H) : Prop where
  generates : s.isAvailable = true →
    ∀ pool, ∃ pub priv pool', s.generateKeypair.run pool = (.ok (pub, priv), pool')
  kem : s.Kem
  compact : s.Compact
  publicLength : ∀ pub handle, s.Handle pub handle → pub.length ≤ 16384
  opens : ∀ pub handle, s.Handle pub handle → s.Opens handle pub
  saves : ∀ pub handle, s.Handle pub handle → ∃ b, s.serializePrivate handle = .ok b ∧
    b.length ≤ 16384
  reads : ∀ pub handle b, s.Handle pub handle → s.serializePrivate handle = .ok b →
    ∃ handle', s.deserializePrivate b = .ok handle' ∧ s.serializePrivate handle' = .ok b

theorem Source.Lasting.reloads {H : Type} {s : Source H} (hs : s.Lasting) : s.Reloads := by
  intro pool pool' pub priv hgen b hb
  have hhandle : s.Handle pub priv := Handle.generated hgen
  obtain ⟨handle, hread, -⟩ := hs.reads pub priv b hhandle hb
  exact ⟨handle, hread, hs.opens pub handle (hhandle.reloaded hb hread)⟩

section Classical

variable {K₁ K₂ : Type} {x : X25519 K₁}

/-- Its handles are keys with the one public key. -/
theorem classicalSource_handle (hx : x.Documented) {pub : Bytes} {handle : PrivateHandle K₁ K₂}
    (h : (classicalSource x).Handle pub handle) :
    ∃ key, handle = .x25519 key ∧ x.Made key ∧ x.publicBytesRaw key = pub := by
  induction h with
  | generated run =>
    obtain ⟨key, pool₁, hkey, hret⟩ := Eff.bind_eq_ok.mp run
    cases hret
    exact ⟨key, rfl, .generated hkey, rfl⟩
  | reloaded old saved read ih =>
    obtain ⟨key, rfl, hmade, hpub⟩ := ih
    obtain ⟨key', hkey', -, hpub'⟩ := hx.readsPrivate key hmade
    cases saved
    simp only [classicalSource, hkey', ok_bind] at read
    cases read
    exact ⟨key', rfl, .read hkey', hpub'.trans hpub⟩

theorem classicalSource_encapsulate (hx : x.Documented) {key : K₁} (hmade : x.Made key)
    (coins : Entropy) : ∃ eph secret coins', x.Made eph ∧
      x.exchange key (x.publicBytesRaw eph) = .ok secret ∧
      ((classicalSource x : Source (PrivateHandle K₁ K₂)).encapsulate
        (x.publicBytesRaw key)).run coins = (.ok ⟨x.publicBytesRaw eph, secret⟩, coins') := by
  obtain ⟨eph, coins', heph⟩ := hx.generates coins
  have hmade' : x.Made eph := .generated heph
  obtain ⟨secret, hsecret, hsecret'⟩ := hx.agrees key eph hmade hmade'
  refine ⟨eph, secret, coins', hmade', hsecret, ?_⟩
  simp only [classicalSource]
  rw [Eff.bind_ok heph, hx.readsPublic key hmade, Eff.run_lift_ok_bind, hsecret',
    Eff.run_lift_ok_bind]
  rfl

theorem classicalSource_opens (hx : x.Documented) {pub : Bytes} {handle : PrivateHandle K₁ K₂}
    (h : (classicalSource x).Handle pub handle) : (classicalSource x).Opens handle pub := by
  obtain ⟨key, rfl, hmade, rfl⟩ := classicalSource_handle hx h
  intro coins coins' enc henc
  obtain ⟨eph, secret, coins₁, hmade', hsecret, hrun⟩ :=
    @classicalSource_encapsulate K₁ K₂ x hx key hmade coins
  rw [hrun] at henc
  cases henc
  simp only [classicalSource, PrivateHandle.asX25519, ok_bind, hx.readsPublic eph hmade', hsecret]

theorem classicalSource_lasting (hx : x.Documented) :
    (classicalSource x : Source (PrivateHandle K₁ K₂)).Lasting where
  generates := by
    intro _ pool
    obtain ⟨key, pool', hkey⟩ := hx.generates pool
    refine ⟨x.publicBytesRaw key, .x25519 key, pool', ?_⟩
    simp only [classicalSource]
    rw [Eff.bind_ok hkey]
    rfl
  kem := by
    refine ⟨fun pool pool' pub priv hgen => classicalSource_opens hx (.generated hgen), ?_⟩
    intro pool pool' pub priv hgen coins
    obtain ⟨key, -, hmade, rfl⟩ := classicalSource_handle hx (.generated hgen)
    obtain ⟨eph, secret, coins', hmade', -, hrun⟩ := classicalSource_encapsulate hx hmade coins
    have hlen := hx.publicLength eph hmade'
    refine ⟨_, coins', hrun, ?_⟩
    dsimp only
    omega
  compact := by
    intro pub coins coins' enc henc
    obtain ⟨eph, coins₁, heph, henc⟩ := Eff.bind_eq_ok.mp henc
    obtain ⟨peer, coins₂, -, henc⟩ := Eff.bind_eq_ok.mp henc
    obtain ⟨secret, coins₃, -, henc⟩ := Eff.bind_eq_ok.mp henc
    cases henc
    have hlen := hx.publicLength eph (.generated heph)
    dsimp only
    omega
  publicLength := by
    intro pub handle h
    obtain ⟨key, -, hmade, rfl⟩ := classicalSource_handle hx h
    have hlen := hx.publicLength key hmade
    omega
  opens _ _ := classicalSource_opens hx
  saves := by
    intro pub handle h
    obtain ⟨key, rfl, hmade, -⟩ := classicalSource_handle hx h
    have hlen := hx.privateLength key hmade
    exact ⟨x.privateBytesRaw key, rfl, by omega⟩
  reads := by
    intro pub handle b h hb
    obtain ⟨key, rfl, hmade, -⟩ := classicalSource_handle hx h
    obtain ⟨key', hkey', hsame, -⟩ := hx.readsPrivate key hmade
    cases hb
    refine ⟨.x25519 key', ?_, ?_⟩
    · simp only [classicalSource, hkey', ok_bind]
      rfl
    · simp only [classicalSource, PrivateHandle.asX25519, ok_bind, hsame]
      rfl

end Classical

section Pqc

variable {K₁ K₂ : Type} {o : Oqs K₂} {kemName : String}

theorem pqcRequireAvailable_eq_ok : pqcRequireAvailable o kemName = .ok () ↔ kemName ∈ o.enabled := by
  unfold pqcRequireAvailable
  split
  · next h => simp [h]
  · next h => simp [h]

/-- Without the mechanism there is no key pair, and with it the object has its secret key. -/
theorem pqcSource_generated {pool pool' : Entropy} {pub : Bytes} {handle : PrivateHandle K₁ K₂}
    (h : (pqcSource o kemName).generateKeypair.run pool = (.ok (pub, handle), pool')) :
    kemName ∈ o.enabled ∧ ∃ kem pool₁ pool₂, handle = .oqs kem ∧
      (o.generateKeypair kemName).run pool₁ = (.ok (pub, kem), pool₂) := by
  obtain ⟨⟨⟩, pool₁, havail, hgen⟩ := Eff.bind_eq_ok.mp h
  rw [Eff.run_lift] at havail
  obtain ⟨⟨pub', kem⟩, pool₂, hpair, hret⟩ := Eff.bind_eq_ok.mp hgen
  cases hret
  exact ⟨pqcRequireAvailable_eq_ok.mp (Prod.mk.inj havail).1, kem, pool₁, _, rfl, hpair⟩

theorem pqcSource_deserializePrivate (havail : kemName ∈ o.enabled) {b : Bytes}
    (hsize : ∀ n, o.lengthSecretKey kemName = some n → b.length = n) :
    (pqcSource o kemName : Source (PrivateHandle K₁ K₂)).deserializePrivate b =
      (o.fromSecretKey kemName b).map .oqs := by
  simp only [pqcSource, pqcRequireAvailable_eq_ok.mpr havail, ok_bind]
  split
  · next n hn => rw [if_neg (not_not.mpr (hsize n hn))]
  · rfl

theorem pqcSource_serializePrivate (havail : kemName ∈ o.enabled) (kem : K₂) :
    (pqcSource o kemName : Source (PrivateHandle K₁ K₂)).serializePrivate (.oqs kem) =
      o.exportSecretKey kem := by
  simp only [pqcSource, pqcRequireAvailable_eq_ok.mpr havail, ok_bind, PrivateHandle.asOqs]

/-- Its handles are objects with the secret key that was generated. -/
theorem pqcSource_handle (ho : kemName ∈ o.enabled → o.Documented kemName) {pub : Bytes}
    {handle : PrivateHandle K₁ K₂} (h : (pqcSource o kemName).Handle pub handle) :
    kemName ∈ o.enabled ∧ ∃ kem, handle = .oqs kem ∧ o.Made kemName kem ∧
      ∃ kem₀ pool pool', (o.generateKeypair kemName).run pool = (.ok (pub, kem₀), pool') ∧
        o.SameKey kem₀ kem := by
  induction h with
  | generated run =>
    obtain ⟨havail, kem, pool₁, pool₂, rfl, hpair⟩ := pqcSource_generated run
    exact ⟨havail, kem, rfl, .generated hpair, kem, pool₁, pool₂, hpair, rfl, fun _ => rfl, rfl⟩
  | reloaded old saved read ih =>
    obtain ⟨havail, kem, rfl, hmade, kem₀, pool, pool', hpair, hsame⟩ := ih
    have hdoc := ho havail
    rw [pqcSource_serializePrivate havail] at saved
    obtain ⟨b, hb, -, hsize⟩ := hdoc.exports kem hmade
    rw [hb] at saved
    cases saved
    obtain ⟨kem', hread, hsame'⟩ := hdoc.reads kem _ hmade hb
    rw [pqcSource_deserializePrivate havail hsize, hread] at read
    cases read
    refine ⟨havail, kem', rfl, .read hsize hread, kem₀, pool, pool', hpair, ?_, ?_, ?_⟩
    · rw [hsame'.lengthCiphertext, hsame.lengthCiphertext]
    · intro ct
      rw [hsame'.decapSecret, hsame.decapSecret]
    · rw [hsame'.exportSecretKey, hsame.exportSecretKey]

theorem pqcSource_encapsulate {pub : Bytes} {coins coins' : Entropy} {enc : Encapsulation}
    (h : ((pqcSource o kemName : Source (PrivateHandle K₁ K₂)).encapsulate pub).run coins =
      (.ok enc, coins')) : ∃ coins₁,
      (o.encapSecret kemName pub).run coins₁ = (.ok (enc.ciphertext, enc.sharedSecret), coins') := by
  obtain ⟨⟨⟩, coins₁, -, henc⟩ := Eff.bind_eq_ok.mp h
  obtain ⟨⟨ct, secret⟩, coins₂, hpair, hret⟩ := Eff.bind_eq_ok.mp henc
  cases hret
  exact ⟨coins₁, hpair⟩

theorem pqcSource_opens (ho : kemName ∈ o.enabled → o.Documented kemName) {pub : Bytes}
    {handle : PrivateHandle K₁ K₂} (h : (pqcSource o kemName).Handle pub handle) :
    (pqcSource o kemName).Opens handle pub := by
  obtain ⟨havail, kem, rfl, -, kem₀, pool, pool', hpair, hsame⟩ := pqcSource_handle ho h
  intro coins coins' enc henc
  obtain ⟨coins₁, hct⟩ := pqcSource_encapsulate henc
  obtain ⟨hlen, hsecret⟩ := (ho havail).decapsulates _ _ _ _ hpair _ _ _ _ hct
  simp only [pqcSource, pqcRequireAvailable_eq_ok.mpr havail, ok_bind, PrivateHandle.asOqs,
    hsame.lengthCiphertext, hsame.decapSecret, hsecret]
  split
  · next n hn => rw [if_neg (not_not.mpr (hlen n hn))]
  · rfl

/-- Where the mechanism is not enabled there is nothing to keep. -/
theorem pqcSource_lasting (ho : kemName ∈ o.enabled → o.Documented kemName) :
    (pqcSource o kemName : Source (PrivateHandle K₁ K₂)).Lasting where
  generates := by
    intro havail pool
    have henabled : kemName ∈ o.enabled := of_decide_eq_true havail
    obtain ⟨pub, kem, pool', hpair⟩ := (ho henabled).generates pool
    refine ⟨pub, .oqs kem, pool', ?_⟩
    simp only [pqcSource, pqcRequireAvailable_eq_ok.mpr henabled, Eff.run_lift_ok_bind]
    rw [Eff.bind_ok hpair]
    rfl
  kem := by
    refine ⟨fun pool pool' pub priv hgen => pqcSource_opens ho (.generated hgen), ?_⟩
    intro pool pool' pub priv hgen coins
    obtain ⟨havail, kem, pool₁, pool₂, -, hpair⟩ := pqcSource_generated hgen
    obtain ⟨ct, secret, coins', hrun⟩ := (ho havail).encapsulates _ _ _ _ hpair coins
    have hlen := (ho havail).ciphertextLength _ _ _ _ _ hrun
    refine ⟨⟨ct, secret⟩, coins', ?_, by dsimp only; omega⟩
    simp only [pqcSource, pqcRequireAvailable_eq_ok.mpr havail, Eff.run_lift_ok_bind]
    rw [Eff.bind_ok hrun]
    rfl
  compact := by
    intro pub coins coins' enc henc
    obtain ⟨⟨⟩, coins₁, havail, -⟩ := Eff.bind_eq_ok.mp henc
    rw [Eff.run_lift] at havail
    have hdoc := ho (pqcRequireAvailable_eq_ok.mp (Prod.mk.inj havail).1)
    obtain ⟨coins₂, hct⟩ := pqcSource_encapsulate henc
    have hlen := hdoc.ciphertextLength _ _ _ _ _ hct
    omega
  publicLength := by
    intro pub handle h
    obtain ⟨havail, -, -, -, kem₀, pool, pool', hpair, -⟩ := pqcSource_handle ho h
    have hlen := (ho havail).publicLength _ _ _ _ hpair
    omega
  opens _ _ := pqcSource_opens ho
  saves := by
    intro pub handle h
    obtain ⟨havail, kem, rfl, hmade, -⟩ := pqcSource_handle ho h
    obtain ⟨b, hb, hlen, -⟩ := (ho havail).exports kem hmade
    exact ⟨b, (pqcSource_serializePrivate havail kem).trans hb, by omega⟩
  reads := by
    intro pub handle b h hb
    obtain ⟨havail, kem, rfl, hmade, -⟩ := pqcSource_handle ho h
    rw [pqcSource_serializePrivate havail] at hb
    obtain ⟨b', hb', -, hsize⟩ := (ho havail).exports kem hmade
    rw [hb] at hb'
    cases hb'
    obtain ⟨kem', hread, hsame⟩ := (ho havail).reads kem b hmade hb
    refine ⟨.oqs kem', ?_, ?_⟩
    · rw [pqcSource_deserializePrivate havail hsize, hread]
      rfl
    · rw [pqcSource_serializePrivate havail, hsame.exportSecretKey, hb]

end Pqc

/-- The sources of the shipped profiles last, on what the packages document. -/
theorem profileRegistry_lasting {K₁ K₂ : Type} {x : X25519 K₁} {o : Oqs K₂} (hx : x.Documented)
    (ho : ∀ kemName ∈ ["ML-KEM-768", "ML-KEM-1024"], kemName ∈ o.enabled → o.Documented kemName)
    {id : PyStr} {p : SecurityProfile (PrivateHandle K₁ K₂)}
    (h : (profileRegistry x o).lookup id = some p) : ∀ s ∈ p.sources, s.Lasting :=
  profileRegistry_sources (classicalSource_lasting hx)
    (fun kemName hk => pqcSource_lasting (ho kemName hk)) h

theorem xorX25519_made {key : Bytes} (h : xorX25519.Made key) : key.length = 32 := by
  cases h with
  | generated run =>
    cases run
    simp
  | @read b _ run =>
    simp only [xorX25519] at run
    split at run
    · next hlen =>
      cases run
      exact hlen
    · cases run

theorem xorX25519_documented : xorX25519.Documented where
  generates pool := ⟨_, _, rfl⟩
  publicLength _ h := xorX25519_made h
  readsPublic _ h := if_pos (xorX25519_made h)
  agrees key key' _ _ := by
    refine ⟨List.zipWith (· ^^^ ·) key key', rfl, ?_⟩
    simp only [xorX25519]
    rw [List.zipWith_comm_of_comm]
    exact UInt8.xor_comm
  privateLength _ h := xorX25519_made h
  readsPrivate key h := ⟨key, if_pos (xorX25519_made h), rfl, rfl⟩

theorem xorOqs_made {kemName : String} {key : Bytes} (h : xorOqs.Made kemName key) :
    key.length = 32 := by
  cases h with
  | generated run =>
    cases run
    simp
  | read size run =>
    cases run
    exact size 32 rfl

theorem xorOqs_documented (kemName : String) : xorOqs.Documented kemName where
  generates pool := ⟨_, _, _, rfl⟩
  publicLength := by
    intro pool pool' pub kem h
    cases h
    simp
  ciphertextLength := by
    intro pub coins coins' ct secret h
    cases h
    simp only [List.length_zipWith, List.length_map, List.length_range]
    omega
  encapsulates := by
    intro pool pool' pub kem _ coins
    exact ⟨_, _, _, rfl⟩
  decapsulates := by
    intro pool pool' pub kem hgen coins coins' ct secret henc
    cases hgen
    cases henc
    refine ⟨?_, ?_⟩
    · intro n hn
      cases hn
      simp
    · simp only [xorOqs]
      rw [zipWith_xor_cancel _ _ (by simp)]
  exports := by
    intro kem h
    have hlen := xorOqs_made h
    refine ⟨kem, rfl, by omega, ?_⟩
    intro n hn
    cases hn
    exact hlen
  reads := by
    intro kem b _ hb
    cases hb
    exact ⟨kem, rfl, rfl, fun _ => rfl, rfl⟩

end CryptoFlex
