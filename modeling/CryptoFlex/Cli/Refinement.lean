import CryptoFlex.Api.Returned
import CryptoFlex.Cli.Bundles
import CryptoFlex.Cli.Vault
import CryptoFlex.Keystore.Reloading
import Mathlib.Data.List.Forall2

namespace CryptoFlex

open Lib

variable {H : Type}

/-- The bytes of a document, where `keys` are the key sets generated so far. -/
def Means (inst : Installation H) (keys : List (KeySet H)) : Doc → Bytes → Prop
  | .raw b, content => content = b
  | .bundle pair, content => ∃ k, keys[pair]? = some k ∧
      (serializePublicBundle k.publicBundle).encode = .ok content
  | .key pair password, content => ∃ k useArgon2 rt rt', keys[pair]? = some k ∧
      (exportKeysetBytes inst.env inst.kdf k (.str password) useArgon2).run rt = (.ok content, rt')
  | .sealed pair false inner, content => ∃ k plaintext, keys[pair]? = some k ∧
      Means inst keys inner plaintext ∧
      BlobFor inst.env k.publicBundle k.profile plaintext content
  | .sealed pair true inner, content => ∃ k chunks, keys[pair]? = some k ∧
      Means inst keys inner chunks.flatten ∧ StreamFor inst.env k.publicBundle chunks content

theorem Means.append {inst : Installation H} {keys : List (KeySet H)} (new : List (KeySet H))
    {doc : Doc} {content : Bytes} (h : Means inst keys doc content) :
    Means inst (keys ++ new) doc content := by
  have hget : ∀ {pair : Nat} {k : KeySet H}, keys[pair]? = some k →
      (keys ++ new)[pair]? = some k := by
    intro pair k hk
    exact (List.getElem?_append_left (List.getElem?_eq_some_iff.mp hk).1).trans hk
  induction doc generalizing content with
  | raw b => exact h
  | bundle pair =>
    obtain ⟨k, hk, h⟩ := h
    exact ⟨k, hget hk, h⟩
  | key pair password =>
    obtain ⟨k, useArgon2, rt, rt', hk, h⟩ := h
    exact ⟨k, useArgon2, rt, rt', hget hk, h⟩
  | «sealed» pair stream inner ih =>
    cases stream with
    | false =>
      obtain ⟨k, plaintext, hk, hinner, h⟩ := h
      exact ⟨k, plaintext, hget hk, ih hinner, h⟩
    | true =>
      obtain ⟨k, chunks, hk, hinner, h⟩ := h
      exact ⟨k, chunks, hget hk, ih hinner, h⟩

/-- Every known file is there and holds what it is known to be. -/
def Holding (inst : Installation H) (keys : List (KeySet H)) (docs : Path → Option Doc)
    (files : Contents) : Prop :=
  ∀ q doc, docs q = some doc → ∃ content, files q = some content ∧ Means inst keys doc content

namespace Holding

variable {inst : Installation H} {keys : List (KeySet H)} {docs : Path → Option Doc}
  {files files' : Contents}

theorem update (h : Holding inst keys docs files) (p : Path) {doc : Option Doc}
    {content : Option Bytes} (hd : ∀ d, doc = some d → ∃ c, content = some c ∧ Means inst keys d c) :
    Holding inst keys (Function.update docs p doc) (Function.update files p content) := by
  intro q d hq
  by_cases heq : q = p
  · subst heq
    rw [Function.update_self] at hq ⊢
    exact hd d hq
  · rw [Function.update_of_ne heq] at hq ⊢
    exact h q d hq

/-- A new file of an unknown name. -/
theorem littered {dests : List Destination} (h : Holding inst keys docs files)
    (hl : Littered dests files files') : Holding inst keys docs files' := by
  cases hl with
  | clean same =>
    rw [same]
    exact h
  | @litter dest temp output name fresh others =>
    intro q doc hq
    obtain ⟨content, hfile, hmeans⟩ := h q doc hq
    have hne : q ≠ temp := by
      rintro rfl
      rw [fresh] at hfile
      cases hfile
    exact ⟨content, (others q hne).trans hfile, hmeans⟩

theorem append (h : Holding inst keys docs files) (new : List (KeySet H)) :
    Holding inst (keys ++ new) docs files := by
  intro q doc hq
  obtain ⟨content, hfile, hmeans⟩ := h q doc hq
  exact ⟨content, hfile, hmeans.append new⟩

end Holding

/-- An output with what it is known to be. -/
def Meant (inst : Installation H) (keys : List (KeySet H)) (o : Destination × Bytes)
    (d : Destination × Option Doc) : Prop :=
  o.1 = d.1 ∧ ∀ doc, d.2 = some doc → Means inst keys doc o.2

theorem Holding.put {inst : Installation H} {keys : List (KeySet H)} {docs : Path → Option Doc}
    {files : Contents} (h : Holding inst keys docs files) {outputs : List (Destination × Bytes)}
    {known : List (Destination × Option Doc)} (ho : List.Forall₂ (Meant inst keys) outputs known) :
    Holding inst keys (Vault.put docs known) (store files outputs) := by
  induction ho generalizing docs files with
  | nil => exact h
  | @cons o d _ _ head _ ih =>
    obtain ⟨dest, content⟩ := o
    obtain ⟨dest', doc⟩ := d
    obtain ⟨hdest, hmeans⟩ := head
    dsimp only at hdest hmeans
    subst hdest
    exact ih (h.update dest.path fun d hd => ⟨content, rfl, hmeans d hd⟩)

/-- The abstract state of files, under the key sets that were generated. -/
structure Models (inst : Installation H) (keys : List (KeySet H)) (v : Vault) (files : Contents) :
    Prop where
  counted : keys.length = v.pairs
  established : ∀ k ∈ keys, Established inst.env k
  holding : Holding inst keys v.docs files

section Outputs

variable {inst : Installation H} {keys : List (KeySet H)} {v : Vault} {files : Contents}
  {rt rt' : Runtime}

theorem fileBytes_means (hm : Models inst keys v files) {path : Destination} {doc : Doc}
    (hdoc : v.docs path.path = some doc) {content : Bytes}
    (h : fileBytes files path = .ok content) : Means inst keys doc content := by
  obtain ⟨content', hfile, hmeans⟩ := hm.holding _ _ hdoc
  rw [fileBytes_eq_ok.mp h] at hfile
  cases hfile
  exact hmeans

theorem bundleAt_means (he : inst.env.Durable) (hm : Models inst keys v files)
    {path : Destination} {pair : Nat} (hdoc : v.docs path.path = some (.bundle pair))
    {bundle : PublicBundle} (h : bundleAt files path = .ok bundle) :
    ∃ k, keys[pair]? = some k ∧ Established inst.env k ∧ bundle = k.publicBundle := by
  obtain ⟨content, hfile, hread⟩ := bind_eq_ok.mp h
  obtain ⟨k, hk, hencode⟩ := fileBytes_means hm hdoc hfile
  have hest := hm.established k (List.mem_of_getElem? hk)
  rw [readBundle_serialize hencode, hest.joined he] at hread
  cases hread
  exact ⟨k, hk, hest, rfl⟩

/-- The imported key set can do what the generated one can. -/
theorem keysetAt_means (he : inst.env.Durable) (hm : Models inst keys v files)
    {args : DecryptArgs} {pair : Nat}
    (hdoc : v.docs args.key.path =
      some (.key pair (chosenPassword args.environ args.password args.typed)))
    {k' : KeySet H} (h : (keysetAt inst files args).run rt = (.ok k', rt')) :
    ∃ k, keys[pair]? = some k ∧ Established inst.env k ∧
      KeysMatch k.profile.sources k.publicBundle.publicKeys k'.privateHandles := by
  obtain ⟨keyBytes, rt₁, hfile, himport⟩ := Eff.bind_eq_ok.mp h
  obtain ⟨k, useArgon2, rt₂, rt₂', hk, hexport⟩ :=
    fileBytes_means hm hdoc (Prod.mk.inj hfile).1
  have hest := hm.established k (List.mem_of_getElem? hk)
  obtain ⟨-, -, hmatch⟩ := hest.reimported he rfl hexport himport
  exact ⟨k, hk, hest, hmatch⟩

theorem encrypted_means {k : KeySet H} {pair : Nat} (he : inst.env.Durable)
    (hm : Models inst keys v files) (hk : keys[pair]? = some k) {inputPath : Destination}
    {doc : Doc} (hdoc : v.docs inputPath.path = some doc) {stream : Bool} {content : Bytes}
    (h : (transformed files inputPath stream (encryptStream inst.env k.publicBundle)
      fun plaintext => encrypt inst.env k.publicBundle plaintext).run rt = (.ok content, rt')) :
    Means inst keys (.sealed pair stream doc) content := by
  have hest := hm.established k (List.mem_of_getElem? hk)
  obtain ⟨hreach, -⟩ := hest.usable he.toSound
  obtain ⟨input, rt₁, hfile, h⟩ := Eff.bind_eq_ok.mp h
  have hmeans := fileBytes_means hm hdoc (Prod.mk.inj hfile).1
  cases stream with
  | false => exact ⟨k, input, hk, hmeans, encrypt_blobFor hreach.registered h⟩
  | true =>
    rw [if_pos rfl] at h
    obtain ⟨w, hrun, rfl, -⟩ := inMemory_eq_ok.mp h
    obtain ⟨chunks, rfl, hs⟩ := encryptStream_streamFor (memoryStream_fills input).delivers hrun
    exact ⟨k, chunks, hk, hmeans, hs⟩

theorem decrypted_means {k k' : KeySet H} {pair : Nat} (he : inst.env.Durable)
    (hm : Models inst keys v files) (hk : keys[pair]? = some k)
    (hmatch : KeysMatch k.profile.sources k.publicBundle.publicKeys k'.privateHandles)
    {inputPath : Destination} {stream : Bool} {doc : Doc}
    (hdoc : v.docs inputPath.path = some (.sealed pair stream doc)) {minProfile : Option PyStr}
    {content : Bytes}
    (h : (transformed files inputPath stream
      (decryptStream inst.env k'.privateHandles minProfile)
      fun blob => decrypt inst.env k'.privateHandles blob minProfile).run rt =
        (.ok content, rt')) : Means inst keys doc content := by
  have hest := hm.established k (List.mem_of_getElem? hk)
  obtain ⟨hreach, -⟩ := hest.usable he.toSound
  obtain ⟨input, rt₁, hfile, h⟩ := Eff.bind_eq_ok.mp h
  have hmeans := fileBytes_means hm hdoc (Prod.mk.inj hfile).1
  cases stream with
  | false =>
    obtain ⟨k₁, plaintext, hk₁, hinner, hb⟩ := hmeans
    rw [hk] at hk₁
    cases hk₁
    rw [hb.decrypted he.wellFormed he.aead hmatch h]
    exact hinner
  | true =>
    obtain ⟨k₁, chunks, hk₁, hinner, hs⟩ := hmeans
    rw [hk] at hk₁
    cases hk₁
    rw [if_pos rfl] at h
    obtain ⟨w, hrun, rfl, -⟩ := inMemory_eq_ok.mp h
    rw [hs.decrypted he.wellFormed he.aead hreach.registered hmatch (memoryStream_fills input)
      bytesSink_reliable hrun]
    exact hinner

theorem migrated_means {k k' newKeys : KeySet H} {pair newPair : Nat} (he : inst.env.Durable)
    (hm : Models inst keys v files) (hk : keys[pair]? = some k)
    (hmatch : KeysMatch k.profile.sources k.publicBundle.publicKeys k'.privateHandles)
    (hnew : keys[newPair]? = some newKeys) {inputPath : Destination} {stream : Bool} {doc : Doc}
    (hdoc : v.docs inputPath.path = some (.sealed pair stream doc)) {minProfile : Option PyStr}
    {content : Bytes}
    (h : (transformed files inputPath stream
      (migrateStream inst.env k'.privateHandles newKeys.publicBundle minProfile)
      fun blob => migrate inst.env k'.privateHandles blob newKeys.publicBundle minProfile).run rt =
        (.ok content, rt')) : Means inst keys (.sealed newPair stream doc) content := by
  have hest := hm.established k (List.mem_of_getElem? hk)
  obtain ⟨hreach, -⟩ := hest.usable he.toSound
  have hest' := hm.established newKeys (List.mem_of_getElem? hnew)
  obtain ⟨hreach', -⟩ := hest'.usable he.toSound
  obtain ⟨input, rt₁, hfile, h⟩ := Eff.bind_eq_ok.mp h
  have hmeans := fileBytes_means hm hdoc (Prod.mk.inj hfile).1
  cases stream with
  | false =>
    obtain ⟨k₁, plaintext, hk₁, hinner, hb⟩ := hmeans
    rw [hk] at hk₁
    cases hk₁
    exact ⟨newKeys, plaintext, hnew, hinner,
      hb.migrated he.wellFormed he.aead hmatch hreach'.registered h⟩
  | true =>
    obtain ⟨k₁, chunks, hk₁, hinner, hs⟩ := hmeans
    rw [hk] at hk₁
    cases hk₁
    rw [if_pos rfl] at h
    obtain ⟨w, hrun, rfl, -⟩ := inMemory_eq_ok.mp h
    exact ⟨newKeys, chunks, hnew, hinner, hs.migrated he.wellFormed he.aead hreach.registered
      hmatch (memoryStream_fills input) bytesSink_reliable hreach' hrun⟩

/-- What a command computes is what the vault says, where it says something. A new key pair comes
with its key set. -/
theorem outputs_meant (he : inst.env.Durable) (hm : Models inst keys v files) (command : Command)
    {outputs : List (Destination × Bytes)}
    (h : (command.outputs inst files).run rt = (.ok outputs, rt')) : ∃ new,
      (keys ++ new).length = (v.after command (v.outputs command).length).pairs ∧
      (∀ k ∈ new, Established inst.env k) ∧
      List.Forall₂ (Meant inst (keys ++ new)) outputs (v.outputs command) := by
  cases command with
  | keygen args =>
    obtain ⟨pair, rt₁, hpair, h⟩ := Eff.bind_eq_ok.mp h
    cases h
    obtain ⟨engine, rt₂, -, hpair⟩ := Eff.bind_eq_ok.mp hpair
    obtain ⟨k, rt₃, hkeys, hpair⟩ := Eff.bind_eq_ok.mp hpair
    obtain ⟨keysetBytes, rt₄, hexport, hpair⟩ := Eff.bind_eq_ok.mp hpair
    obtain ⟨bundleBytes, rt₅, hbundle, hpair⟩ := Eff.bind_eq_ok.mp hpair
    cases hpair
    have hget : (keys ++ [k])[v.pairs]? = some k := by
      rw [← hm.counted]
      simp
    have hbundleMeans : Means inst (keys ++ [k]) (.bundle v.pairs) bundleBytes :=
      ⟨k, hget, (Prod.mk.inj hbundle).1⟩
    have hkeyMeans : Means inst (keys ++ [k])
        (.key v.pairs (chosenPassword args.environ args.password args.typed)) keysetBytes :=
      ⟨k, _, _, _, hget, hexport⟩
    refine ⟨[k], ?_, ?_, ?_⟩
    · simp [Vault.after, hm.counted]
    · simp only [List.forall_mem_singleton]
      exact ⟨engine, args.constraint, false, rt₂, rt₃, hkeys⟩
    · refine List.Forall₂.cons ⟨rfl, ?_⟩ (List.Forall₂.cons ⟨rfl, ?_⟩ List.Forall₂.nil)
      · intro doc hdoc
        cases hdoc
        exact hbundleMeans
      · intro doc hdoc
        cases hdoc
        exact hkeyMeans
  | encrypt args =>
    obtain ⟨content, rt₁, hcontent, h⟩ := Eff.bind_eq_ok.mp h
    cases h
    obtain ⟨_, rt₂, -, hcontent⟩ := Eff.bind_eq_ok.mp hcontent
    obtain ⟨bundle, rt₃, hbundle, hcontent⟩ := Eff.bind_eq_ok.mp hcontent
    refine ⟨[], ?_, by simp, List.Forall₂.cons ⟨rfl, ?_⟩ List.Forall₂.nil⟩
    · simp [Vault.after, hm.counted]
    · intro doc hdoc
      obtain ⟨pair, inner, hb, hinput, rfl⟩ := Doc.encrypted_eq_some.mp hdoc
      obtain ⟨k, hk, -, rfl⟩ := bundleAt_means he hm hb (Prod.mk.inj hbundle).1
      exact (encrypted_means he hm hk hinput hcontent).append []
  | decrypt args =>
    obtain ⟨content, rt₁, hcontent, h⟩ := Eff.bind_eq_ok.mp h
    cases h
    obtain ⟨_, rt₂, -, hcontent⟩ := Eff.bind_eq_ok.mp hcontent
    obtain ⟨k', rt₃, hkeyset, hcontent⟩ := Eff.bind_eq_ok.mp hcontent
    refine ⟨[], ?_, by simp, List.Forall₂.cons ⟨rfl, ?_⟩ List.Forall₂.nil⟩
    · simp [Vault.after, hm.counted]
    · intro doc hdoc
      obtain ⟨pair, hkey, hinput⟩ := Doc.decrypted_eq_some.mp hdoc
      obtain ⟨k, hk, -, hmatch⟩ := keysetAt_means he hm hkey hkeyset
      exact (decrypted_means he hm hk hmatch hinput hcontent).append []
  | migrate args =>
    obtain ⟨content, rt₁, hcontent, h⟩ := Eff.bind_eq_ok.mp h
    cases h
    obtain ⟨_, rt₂, -, hcontent⟩ := Eff.bind_eq_ok.mp hcontent
    obtain ⟨k', rt₃, hkeyset, hcontent⟩ := Eff.bind_eq_ok.mp hcontent
    obtain ⟨newBundle, rt₄, hbundle, hcontent⟩ := Eff.bind_eq_ok.mp hcontent
    refine ⟨[], ?_, by simp, List.Forall₂.cons ⟨rfl, ?_⟩ List.Forall₂.nil⟩
    · simp [Vault.after, hm.counted]
    · intro doc hdoc
      obtain ⟨newPair, inner, hb, hinner, rfl⟩ := Doc.encrypted_eq_some.mp hdoc
      obtain ⟨pair, hkey, hinput⟩ := Doc.decrypted_eq_some.mp hinner
      obtain ⟨k, hk, -, hmatch⟩ := keysetAt_means he hm hkey hkeyset
      obtain ⟨newKeys, hnew, -, rfl⟩ := bundleAt_means he hm hb (Prod.mk.inj hbundle).1
      exact (migrated_means he hm hk hmatch hnew hinput hcontent).append []
  | info file =>
    obtain ⟨content, rt₁, -, h⟩ := Eff.bind_eq_ok.mp h
    obtain ⟨parsed, rt₂, -, h⟩ := Eff.bind_eq_ok.mp h
    cases h
    exact ⟨[], by simp [Vault.after, hm.counted], by simp, List.Forall₂.nil⟩

end Outputs

section Sessions

variable {inst : Installation H} {keys : List (KeySet H)} {v : Vault} {files files' : Contents}

theorem Models.refused (hm : Models inst keys v files) {dests : List Destination}
    (hl : Littered dests files files') : Models inst keys v files' :=
  ⟨hm.counted, hm.established, hm.holding.littered hl⟩

theorem Models.after (he : inst.env.Durable) (hm : Models inst keys v files) (command : Command)
    {outputs : List (Destination × Bytes)} {rt rt' : Runtime}
    (h : (command.outputs inst files).run rt = (.ok outputs, rt')) : ∃ new,
      ∀ n, Models inst (keys ++ new) (v.after command n) (store files (outputs.take n)) := by
  obtain ⟨new, hcounted, hnew, hmeant⟩ := outputs_meant he hm command h
  refine ⟨new, fun n => ⟨hcounted, ?_, ?_⟩⟩
  · intro k hk
    rcases List.mem_append.mp hk with hk | hk
    · exact hm.established k hk
    · exact hnew k hk
  · exact (hm.holding.append new).put (List.forall₂_take n hmeant)

/-- A command does to the files what the vault allows. -/
theorem Models.command (he : inst.env.Durable) (hm : Models inst keys v files)
    {command : Command} {succeeded : Bool}
    (h : Happens inst files (.command command succeeded) files') :
    ∃ v', Vault.Step v (.command command succeeded) v' ∧
      ∃ keys', Models inst keys' v' files' := by
  cases h with
  | @command _ _ s s' r run exitCode =>
  have hfailed : ¬r = .ok 0 → succeeded = false := by
    intro hr
    cases succeeded with
    | true => exact absurd (exitCode.mp rfl) hr
    | false => rfl
  have hend := (command.main_ends inst s).elim run
  cases hend with
  | @complete outputs whole new =>
    obtain ⟨rt', hrun⟩ := whole
    obtain ⟨more, hafter⟩ := hm.after he command hrun
    obtain ⟨_, -, -, hmeant⟩ := outputs_meant he hm command hrun
    have hlen := hmeant.length_eq
    have hfinal := hafter (v.outputs command).length
    rw [← hlen, List.take_length, ← new, hlen] at hfinal
    cases succeeded with
    | true => exact ⟨_, Vault.Step.succeeded, _, hfinal⟩
    | false => exact ⟨_, Vault.Step.failed _, _, hfinal⟩
  | @partway outputs n failed whole some =>
    obtain rfl := hfailed failed
    obtain ⟨rt', hrun⟩ := whole
    obtain ⟨more, hafter⟩ := hm.after he command hrun
    exact ⟨_, Vault.Step.failed n, _, (hafter n).refused some⟩
  | refused failed none =>
    obtain rfl := hfailed failed
    exact ⟨_, Vault.Step.refused, _, hm.refused none⟩

theorem Models.step (he : inst.env.Durable) {e : FileEvent}
    (hm : ∃ keys, Models inst keys v files) (h : Happens inst files e files') :
    ∃ v', Vault.Step v e v' ∧ ∃ keys, Models inst keys v' files' := by
  obtain ⟨keys, hm⟩ := hm
  cases e with
  | command command succeeded => exact hm.command he h
  | write path content =>
    cases h
    refine ⟨_, Vault.Step.write, keys, hm.counted, hm.established, hm.holding.update path ?_⟩
    intro d hd
    cases hd
    exact ⟨content, rfl, rfl⟩
  | copy source target =>
    cases h
    exact ⟨_, Vault.Step.copy, keys, hm.counted, hm.established,
      hm.holding.update target fun d hd => hm.holding source d hd⟩
  | remove path =>
    cases h
    refine ⟨_, Vault.Step.remove, keys, hm.counted, hm.established, hm.holding.update path ?_⟩
    intro d hd
    cases hd

theorem Models.start (inst : Installation H) (files : Contents) :
    Models inst [] (Vault.start files) files := by
  refine ⟨rfl, by simp, ?_⟩
  intro q doc hq
  obtain ⟨content, hfile, rfl⟩ := Option.map_eq_some_iff.mp hq
  exact ⟨content, hfile, rfl⟩

theorem Models.runs (he : inst.env.Durable) {es : List FileEvent}
    (h : Runs (Happens inst) files es files') :
    ∃ v, Runs Vault.Step (Vault.start files) es v ∧ ∃ keys, Models inst keys v files' := by
  apply h.simulates (R := fun files v => ∃ keys, Models inst keys v files)
  · exact ⟨[], Models.start inst files⟩
  · intro files v e files' hm hstep
    exact Models.step he hm hstep

end Sessions

section Opening

variable {inst : Installation H} {keys : List (KeySet H)} {v : Vault} {files : Contents}

theorem fileBytes_known (hm : Models inst keys v files) {path : Destination} {doc : Doc}
    (hdoc : v.docs path.path = some doc) : ∃ content, fileBytes files path = .ok content ∧
      Means inst keys doc content := by
  obtain ⟨content, hfile, hmeans⟩ := hm.holding _ _ hdoc
  exact ⟨content, fileBytes_eq_ok.mpr hfile, hmeans⟩

theorem bundleAt_known (he : inst.env.Durable) (hm : Models inst keys v files)
    {path : Destination} {pair : Nat} (hdoc : v.docs path.path = some (.bundle pair)) :
    ∃ k, keys[pair]? = some k ∧ Established inst.env k ∧
      bundleAt files path = .ok k.publicBundle := by
  obtain ⟨content, hfile, k, hk, hencode⟩ := fileBytes_known hm hdoc
  have hest := hm.established k (List.mem_of_getElem? hk)
  have hread := readBundle_serialize hencode
  rw [hest.joined he] at hread
  refine ⟨k, hk, hest, ?_⟩
  rw [bundleAt, hfile, ok_bind, hread]

/-- The key file of a known pair is opened, with handles that belong to the pair. -/
theorem keysetAt_known (he : inst.env.Durable) (hm : Models inst keys v files)
    {args : DecryptArgs} {pair : Nat}
    (hdoc : v.docs args.key.path =
      some (.key pair (chosenPassword args.environ args.password args.typed)))
    (hsize : ∀ content, files args.key.path = some content → content.length ≤ maxKeystoreSize)
    {rt : Runtime} (hp : rt.kdfPermits ≠ 0) :
    ∃ k k' rt', keys[pair]? = some k ∧ Established inst.env k ∧
      (keysetAt inst files args).run rt = (.ok k', rt') ∧
      KeysMatch k.profile.sources k.publicBundle.publicKeys k'.privateHandles := by
  obtain ⟨content, hfile, k, useArgon2, rt₀, rt₀', hk, hexport⟩ := fileBytes_known hm hdoc
  have hest := hm.established k (List.mem_of_getElem? hk)
  obtain ⟨k', rt', himport⟩ :=
    hest.imports he hexport (hsize content (fileBytes_eq_ok.mp hfile)) hp
  obtain ⟨-, -, hmatch⟩ := hest.reimported he rfl hexport himport
  refine ⟨k, k', rt', hk, hest, ?_, hmatch⟩
  rw [keysetAt, hfile, Eff.run_lift_ok_bind]
  exact himport

theorem refuseAlias_of_ne {inputPath outputPath : Destination}
    (h : inputPath.path ≠ outputPath.path) : refuseAlias inputPath outputPath = .ok () := if_neg h

theorem transformed_of_file {path : Destination} {input content : Bytes}
    (hfile : fileBytes files path = .ok input)
    {y : Eff Exc (World MemoryStream BytesSink) Unit} {f : Bytes → Eff Exc Runtime Bytes}
    {stream : Bool} {rt rt' : Runtime}
    (h : (if stream then inMemory y input else f input).run rt = (.ok content, rt')) :
    (transformed files path stream y f).run rt = (.ok content, rt') := by
  rw [transformed, hfile, Eff.run_lift_ok_bind]
  exact h

/-- Any known file is encrypted with a known bundle. -/
theorem Models.encrypts (he : inst.env.Durable) (hm : Models inst keys v files)
    {args : EncryptArgs} {pair : Nat} {doc : Doc}
    (hbundle : v.docs args.bundle.path = some (.bundle pair))
    (hinput : v.docs args.inputPath.path = some doc)
    (halias : args.inputPath.path ≠ args.outputPath.path) (hmode : args.stream = false)
    (haccepts : ∀ plaintext, Means inst keys doc plaintext → inst.env.aead.Accepts plaintext)
    (rt : Runtime) : ∃ content rt',
      (encryptContent inst files args).run rt = (.ok content, rt') := by
  obtain ⟨k, hk, hest, hb⟩ := bundleAt_known he hm hbundle
  obtain ⟨hreach, -⟩ := hest.usable he.toSound
  obtain ⟨input, hfile, hmeans⟩ := fileBytes_known hm hinput
  obtain ⟨content, rt', hencrypt, -⟩ :=
    encrypt_returns he.aead.toDocumented hreach (haccepts input hmeans) rt
  refine ⟨content, rt', ?_⟩
  rw [encryptContent, refuseAlias_of_ne halias, Eff.run_lift_ok_bind, hb, Eff.run_lift_ok_bind]
  apply transformed_of_file hfile
  rw [hmode]
  exact hencrypt

/-- The owner of a pair opens every file that is sealed for it, with any of the pair's key files and
the password that the key file was written under. -/
theorem Models.decrypts (he : inst.env.Durable) (hfit : inst.env.HeadersFit)
    (hm : Models inst keys v files) {args : DecryptArgs} {pair : Nat} {doc : Doc}
    (hkey : v.docs args.key.path =
      some (.key pair (chosenPassword args.environ args.password args.typed)))
    (hinput : v.docs args.inputPath.path = some (.sealed pair args.stream doc))
    (halias : args.inputPath.path ≠ args.outputPath.path)
    (hsize : ∀ content, files args.key.path = some content → content.length ≤ maxKeystoreSize)
    (hmin : ∀ k, keys[pair]? = some k → NotStronger inst.env args.minProfile k.profile)
    {rt : Runtime} (hp : rt.kdfPermits ≠ 0) : ∃ content rt',
      (decryptContent inst files args).run rt = (.ok content, rt') ∧ Means inst keys doc content := by
  obtain ⟨k, k', rt₁, hk, hest, hkeyset, hmatch⟩ := keysetAt_known he hm hkey hsize hp
  obtain ⟨hreach, -⟩ := hest.usable he.toSound
  obtain ⟨input, hfile, hmeans⟩ := fileBytes_known hm hinput
  have hrun : ∃ content rt', (if args.stream then
      inMemory (decryptStream inst.env k'.privateHandles args.minProfile) input
      else decrypt inst.env k'.privateHandles input args.minProfile).run rt₁ =
        (.ok content, rt') ∧ Means inst keys doc content := by
    cases hmode : args.stream with
    | false =>
      rw [hmode] at hmeans
      obtain ⟨k₁, plaintext, hk₁, hinner, hb⟩ := hmeans
      rw [hk] at hk₁
      cases hk₁
      obtain ⟨rt', hdecrypt⟩ :=
        decrypt_returns he.wellFormed he.aead hmatch (hmin k hk) hb rt₁
      exact ⟨plaintext, rt', hdecrypt, hinner⟩
    | true =>
      rw [hmode] at hmeans
      obtain ⟨k₁, chunks, hk₁, hinner, hs⟩ := hmeans
      rw [hk] at hk₁
      cases hk₁
      obtain ⟨w, hdecrypt, hout⟩ := hs.decryptStream he.wellFormed he.aead (hfit _ _ _ hs)
        hreach.registered hmatch (hmin k hk) (memoryStream_fills input) bytesSink_reliable rt₁
        BytesSink.mk
      exact ⟨chunks.flatten, w.rt, inMemory_eq_ok.mpr ⟨w, hdecrypt, hout, rfl⟩, hinner⟩
  obtain ⟨content, rt', hcontent, hdoc⟩ := hrun
  refine ⟨content, rt', ?_, hdoc⟩
  rw [decryptContent, refuseAlias_of_ne halias, Eff.run_lift_ok_bind, Eff.bind_ok hkeyset]
  exact transformed_of_file hfile hcontent

end Opening

end CryptoFlex
