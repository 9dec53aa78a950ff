import CryptoFlex.Cli.Commands

namespace CryptoFlex

open CodePoint JsonText

namespace JsonText

theorem whitespace_noReturn {indent : Option Nat} {level : Nat} :
    ∀ c ∈ newline indent level, c.val ≠ 0x0D := by
  intro c hc
  cases indent with
  | none => cases hc
  | some width =>
    simp only [newline, List.mem_cons, List.mem_replicate] at hc
    rcases hc with rfl | ⟨-, rfl⟩ <;> decide

theorem comma_noReturn (indent : Option Nat) (level : Nat) :
    ∀ c ∈ comma indent level, c.val ≠ 0x0D := by
  cases indent with
  | none =>
    simp only [comma, List.forall_mem_cons, List.not_mem_nil, false_implies, implies_true, and_true]
    exact ⟨by decide, by decide⟩
  | some width =>
    simp only [comma, List.forall_mem_cons]
    exact ⟨by decide, whitespace_noReturn⟩

theorem escapeU_noReturn (n : Nat) : ∀ c ∈ escapeU n, c.val ≠ 0x0D := by
  have hdigit : ∀ v < 16, (hexDigit v).val ≠ 0x0D := by decide
  simp only [escapeU, List.forall_mem_cons, List.not_mem_nil, false_implies, implies_true, and_true]
  exact ⟨by decide, by decide, hdigit _ (Nat.mod_lt _ (by decide)),
    hdigit _ (Nat.mod_lt _ (by decide)), hdigit _ (Nat.mod_lt _ (by decide)),
    hdigit _ (Nat.mod_lt _ (by decide))⟩

/-- A carriage return in a string is escaped. -/
theorem escape_noReturn (c : CodePoint) : ∀ d ∈ escape c, d.val ≠ 0x0D := by
  intro d hd
  unfold escape at hd
  split at hd
  · next letter hl =>
    have hletter : ∀ e ∈ shortEscapes, e.2.val ≠ 0x0D := forall_mem_of_all (by decide)
    simp only [List.mem_cons, List.not_mem_nil, or_false] at hd
    rcases hd with rfl | rfl
    · decide
    · exact hletter _ (lookup_mem hl)
  · split at hd
    · next hplain =>
      simp only [List.mem_cons, List.not_mem_nil, or_false] at hd
      subst hd
      omega
    · split at hd
      · exact escapeU_noReturn _ d hd
      · rcases List.mem_append.mp hd with h | h
        · exact escapeU_noReturn _ d h
        · exact escapeU_noReturn _ d h

theorem quoted_noReturn (s : PyStr) : ∀ c ∈ quoted s, c.val ≠ 0x0D := by
  intro c hc
  simp only [quoted, List.mem_cons, List.mem_append, List.mem_flatMap, List.not_mem_nil,
    or_false] at hc
  rcases hc with rfl | ⟨d, -, hd⟩ | rfl
  · decide
  · exact escape_noReturn d c hd
  · decide

end JsonText

namespace Json

variable {indent : Option Nat}

mutual

theorem dump_noReturn : ∀ (level : Nat) (j : Json), j.Textual →
    ∀ c ∈ j.dump indent level, c.val ≠ 0x0D
  | _, null, _ => by
    have hnull : ∀ c ∈ codesOf "null", c.val ≠ 0x0D := forall_mem_of_all (by decide)
    exact hnull
  | _, bool b, _ => by
    have htrue : ∀ c ∈ codesOf "true", c.val ≠ 0x0D := forall_mem_of_all (by decide)
    have hfalse : ∀ c ∈ codesOf "false", c.val ≠ 0x0D := forall_mem_of_all (by decide)
    cases b with
    | true => exact htrue
    | false => exact hfalse
  | _, num _, h => absurd h (by simp [Textual])
  | _, str s, _ => quoted_noReturn s
  | _, arr [], _ => by
    simp only [dump, List.forall_mem_cons]
    exact ⟨by decide, by decide, by simp⟩
  | level, arr (item :: items), h => by
    have hitem := dump_noReturn (level + 1) item h.1
    have hitems := dumpItems_noReturn (level + 1) items h.2
    simp only [dump, List.forall_mem_cons, List.forall_mem_append]
    exact ⟨by decide, whitespace_noReturn, hitem, hitems, whitespace_noReturn, by decide,
      by simp⟩
  | _, obj [], _ => by
    simp only [dump, List.forall_mem_cons]
    exact ⟨by decide, by decide, by simp⟩
  | level, obj ((key, value) :: members), h => by
    have hvalue := dump_noReturn (level + 1) value h.1.1
    have hmembers := dumpMembers_noReturn (level + 1) members h.1.2
    have hcolon : ∀ c ∈ colon, c.val ≠ 0x0D := forall_mem_of_all (by decide)
    simp only [dump, List.forall_mem_cons, List.forall_mem_append]
    exact ⟨by decide, whitespace_noReturn, quoted_noReturn key, hcolon, hvalue, hmembers,
      whitespace_noReturn, by decide, by simp⟩

theorem dumpItems_noReturn : ∀ (level : Nat) (items : List Json), TextualItems items →
    ∀ c ∈ dumpItems indent level items, c.val ≠ 0x0D
  | _, [], _ => by simp [dumpItems]
  | level, item :: items, h => by
    have hitem := dump_noReturn level item h.1
    have hitems := dumpItems_noReturn level items h.2
    simp only [dumpItems, List.forall_mem_append]
    exact ⟨comma_noReturn indent level, hitem, hitems⟩

theorem dumpMembers_noReturn : ∀ (level : Nat) (members : List (PyStr × Json)),
    TextualMembers members → ∀ c ∈ dumpMembers indent level members, c.val ≠ 0x0D
  | _, [], _ => by simp [dumpMembers]
  | level, (key, value) :: members, h => by
    have hvalue := dump_noReturn level value h.1
    have hmembers := dumpMembers_noReturn level members h.2
    have hcolon : ∀ c ∈ colon, c.val ≠ 0x0D := forall_mem_of_all (by decide)
    simp only [dumpMembers, List.forall_mem_append]
    exact ⟨comma_noReturn indent level, quoted_noReturn key, hcolon, hvalue, hmembers⟩

end

end Json

theorem universalNewlines_of_noReturn {cs : List Char} (h : ∀ c ∈ cs, c ≠ '\r') :
    universalNewlines cs = cs := by
  induction cs with
  | nil => rfl
  | cons c cs ih =>
    obtain ⟨hc, hcs⟩ := List.forall_mem_cons.mp h
    rw [universalNewlines, ih hcs]
    · intro cs' hcr _
      exact hc hcr
    · exact hc

/-- The file of a serialized bundle is read as the bundle. -/
theorem readBundle_serialize {bundle : PublicBundle} {content : Bytes}
    (h : (serializePublicBundle bundle).encode = .ok content) :
    readBundle content = .ok bundle.joined := by
  have hdecode := PyStr.decode_of_encode h
  have hcodes : (serializePublicBundle bundle).codes = (bundleJson bundle).dump (some 2) 0 :=
    PyStr.codes_ofCodes _
  have hdumped := deserializePublicBundle_dumps bundle (some 2)
  change deserializePublicBundle (serializePublicBundle bundle) = _ at hdumped
  cases htext : serializePublicBundle bundle with
  | surrogates codes =>
    rw [htext] at h
    cases h
  | text t =>
    rw [htext] at hcodes hdecode hdumped
    have hplain : ∀ c ∈ t.toList, c ≠ '\r' := by
      intro c hc
      have hmem : ofChar c ∈ (bundleJson bundle).dump (some 2) 0 := by
        rw [← hcodes]
        exact List.mem_map_of_mem hc
      have hval := Json.dump_noReturn 0 _ (bundleJson_textual bundle) _ hmem
      rintro rfl
      exact hval rfl
    rw [readBundle, readText, hdecode, ok_bind]
    dsimp only
    rw [universalNewlines_of_noReturn hplain, String.ofList_toList]
    exact hdumped

end CryptoFlex
