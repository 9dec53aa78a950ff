import CryptoFlex.Json.RoundTrip
import CryptoFlex.Keystore

namespace CryptoFlex

open Lib

/-- Base64 text has nothing that JSON would change. -/
@[simp] theorem b64encode_joined (b : Bytes) : (b64encode b).joined = b64encode b := by
  apply PyStr.joined_of_plain
  intro c hc hhigh
  obtain ⟨-, hlt, -⟩ := Base64.encode_plain b c hc
  simp only [CodePoint.IsHigh] at hhigh
  omega

/-- Keys under their algorithm ids, after a JSON round trip. -/
def joinedIds (keys : List (PyStr × Bytes)) : List (PyStr × Bytes) :=
  keys.map fun (algId, key) => (algId.joined, key)

theorem joinedIds_joinedIds (keys : List (PyStr × Bytes)) :
    joinedIds (joinedIds keys) = joinedIds keys := by
  simp [joinedIds, PyStr.joined_joined, Function.comp_def]

/-- A bundle as it is after a JSON round trip. -/
def PublicBundle.joined (bundle : PublicBundle) : PublicBundle where
  profileId := bundle.profileId.joined
  publicKeys := joinedIds bundle.publicKeys

theorem PublicBundle.joined_joined (bundle : PublicBundle) :
    bundle.joined.joined = bundle.joined := by
  simp only [joined, PyStr.joined_joined, joinedIds_joinedIds]

namespace Json

theorem joinedItems_map {α : Type} (f : α → Json) (l : List α) :
    joinedItems (l.map f) = l.map fun a => (f a).joined := by
  induction l with
  | nil => rfl
  | cons a l ih => rw [List.map_cons, joinedItems, ih, List.map_cons]

theorem textualItems_iff {items : List Json} : TextualItems items ↔ ∀ j ∈ items, j.Textual := by
  induction items with
  | nil => simp [TextualItems]
  | cons item items ih => rw [TextualItems, ih, List.forall_mem_cons]

end Json

/-- A dictionary of two strings. -/
def pairJson (k₁ k₂ : String) (v₁ v₂ : PyStr) : Json :=
  .obj [(.text k₁, .str v₁), (.text k₂, .str v₂)]

theorem pairJson_textual {k₁ k₂ : String} (h : k₁ ≠ k₂) (v₁ v₂ : PyStr) :
    (pairJson k₁ k₂ v₁ v₂).Textual := by
  simp [pairJson, Json.Textual, Json.TextualMembers, Json.joinedMembers, h]

theorem pairJson_joined (k₁ k₂ : String) (v₁ v₂ : PyStr) :
    (pairJson k₁ k₂ v₁ v₂).joined = pairJson k₁ k₂ v₁.joined v₂.joined := by
  simp [pairJson, Json.joined, Json.joinedMembers]

theorem bundleJson_textual (bundle : PublicBundle) : (bundleJson bundle).Textual := by
  have hentries : ∀ j ∈ bundle.publicKeys.map (fun e : PyStr × Bytes =>
      pairJson "alg_id" "key_b64" e.1 (b64encode e.2)), j.Textual := by
    intro j hj
    obtain ⟨e, -, rfl⟩ := List.mem_map.mp hj
    exact pairJson_textual (by decide) _ _
  have hkeys : Json.Textual (.arr (bundle.publicKeys.map fun e : PyStr × Bytes =>
      pairJson "alg_id" "key_b64" e.1 (b64encode e.2))) := Json.textualItems_iff.mpr hentries
  refine ⟨⟨trivial, hkeys, trivial⟩, ?_⟩
  simp [Json.joinedMembers]

theorem bundleJson_joined (bundle : PublicBundle) :
    (bundleJson bundle).joined = bundleJson bundle.joined := by
  have hentries := Json.joinedItems_map (fun e : PyStr × Bytes =>
    pairJson "alg_id" "key_b64" e.1 (b64encode e.2)) bundle.publicKeys
  simp only [pairJson_joined, b64encode_joined] at hentries
  simp only [pairJson] at hentries
  simp [bundleJson, Json.joined, Json.joinedMembers, hentries, PublicBundle.joined, joinedIds,
    Function.comp_def]

/-- Reading the entries of a bundle undoes writing them. -/
theorem publicKeyEntries_map (keys : List (PyStr × Bytes)) :
    publicKeyEntries (keys.map fun e => pairJson "alg_id" "key_b64" e.1 (b64encode e.2)) =
      .ok keys := by
  induction keys with
  | nil => rfl
  | cons e keys ih =>
    have hentry : publicKeyEntry (pairJson "alg_id" "key_b64" e.1 (b64encode e.2)) = .ok e := by
      show (b64decode (b64encode e.2) >>= fun key => .ok (e.1, key)) = .ok e
      rw [b64decode_b64encode]
      rfl
    rw [List.map_cons, publicKeyEntries, hentry, ok_bind, ih]
    rfl

theorem bundleOfJson_bundleJson (bundle : PublicBundle) :
    bundleOfJson (bundleJson bundle) = .ok bundle := by
  show (publicKeyEntries (bundle.publicKeys.map fun e =>
    pairJson "alg_id" "key_b64" e.1 (b64encode e.2)) >>= fun publicKeys =>
      .ok { profileId := bundle.profileId, publicKeys }) = .ok bundle
  rw [publicKeyEntries_map]
  rfl

/-- `json.loads(serialize_public_bundle(bundle))`. -/
theorem loads_serializePublicBundle (bundle : PublicBundle) :
    Json.loads (serializePublicBundle bundle) = .ok (bundleJson bundle.joined) := by
  rw [serializePublicBundle, Json.loads_dumps (bundleJson_textual bundle), bundleJson_joined]

/-- A dumped bundle is read back, but for surrogate pairs in its ids. -/
theorem deserializePublicBundle_dumps (bundle : PublicBundle) (indent : Option Nat) :
    deserializePublicBundle ((bundleJson bundle).dumps indent) = .ok bundle.joined := by
  rw [deserializePublicBundle, Json.loads_dumps (bundleJson_textual bundle), bundleJson_joined,
    ok_bind, bundleOfJson_bundleJson]
  rfl

end CryptoFlex
