import CryptoFlex.Json.Strings

namespace CryptoFlex

open Lib CodePoint JsonText

namespace Json

mutual

/-- A value as it is after `json.dumps` and `json.loads`. -/
def joined : Json → Json
  | null => null
  | bool b => bool b
  | num token => num token
  | str s => str s.joined
  | arr items => arr (joinedItems items)
  | obj members => obj (joinedMembers members)

def joinedItems : List Json → List Json
  | [] => []
  | item :: items => item.joined :: joinedItems items

def joinedMembers : List (PyStr × Json) → List (PyStr × Json)
  | [] => []
  | (key, value) :: members => (key.joined, value.joined) :: joinedMembers members

end

mutual

/-- A value without numbers, in whose objects no two keys are read back as one. -/
def Textual : Json → Prop
  | null => True
  | bool _ => True
  | num _ => False
  | str _ => True
  | arr items => TextualItems items
  | obj members => TextualMembers members ∧ ((joinedMembers members).map Prod.fst).Nodup

def TextualItems : List Json → Prop
  | [] => True
  | item :: items => item.Textual ∧ TextualItems items

def TextualMembers : List (PyStr × Json) → Prop
  | [] => True
  | (_, value) :: members => value.Textual ∧ TextualMembers members

end

mutual

/-- The fuel that reading a value takes. -/
def size : Json → Nat
  | arr items => sizeItems items + 1
  | obj members => sizeMembers members + 1
  | _ => 1

def sizeItems : List Json → Nat
  | [] => 0
  | item :: items => item.size + sizeItems items + 1

def sizeMembers : List (PyStr × Json) → Nat
  | [] => 0
  | (_, value) :: members => value.size + sizeMembers members + 1

end

end Json

namespace JsonText

variable {indent : Option Nat}

theorem newline_whitespace (indent : Option Nat) (level : Nat) :
    ∀ c ∈ newline indent level, isWhitespace c = true := by
  intro c hc
  cases indent with
  | none => cases hc
  | some width =>
    simp only [newline, List.mem_cons, List.mem_replicate] at hc
    rcases hc with rfl | ⟨-, rfl⟩ <;> decide

theorem skipWhitespace_newline (indent : Option Nat) (level : Nat) {c : CodePoint}
    (h : isWhitespace c = false) (t : List CodePoint) :
    skipWhitespace.run (newline indent level ++ c :: t) = .ok ((), c :: t) :=
  Scanner.run_skipWhile (newline_whitespace indent level) h

theorem skipWhitespace_none {c : CodePoint} (h : isWhitespace c = false) (t : List CodePoint) :
    skipWhitespace.run (c :: t) = .ok ((), c :: t) :=
  skipWhitespace_newline none 0 h t

/-- A value begins with a character that is neither white space nor a closing bracket. -/
abbrev Begins (c : CodePoint) : Prop :=
  isWhitespace c = false ∧ c ≠ ofChar ']' ∧ c ≠ ofChar '}' ∧ c ≠ ofChar '\uFEFF'

theorem dump_begins (indent : Option Nat) (level : Nat) {j : Json} (h : j.Textual) :
    ∃ c rest, j.dump indent level = c :: rest ∧ Begins c := by
  cases j with
  | null => exact ⟨ofChar 'n', _, rfl, by decide⟩
  | bool b =>
    cases b with
    | true => exact ⟨ofChar 't', _, rfl, by decide⟩
    | false => exact ⟨ofChar 'f', _, rfl, by decide⟩
  | num token => exact absurd h (by simp [Json.Textual])
  | str s => exact ⟨ofChar '"', _, rfl, by decide⟩
  | arr items => cases items <;> exact ⟨ofChar '[', _, rfl, by decide⟩
  | obj members => cases members <;> exact ⟨ofChar '{', _, rfl, by decide⟩

theorem skipWhitespace_dump (level level' : Nat) {j : Json} (h : j.Textual) (t : List CodePoint) :
    skipWhitespace.run (newline indent level' ++ (j.dump indent level ++ t)) =
      .ok ((), j.dump indent level ++ t) := by
  obtain ⟨c, rest, hdump, hws, -⟩ := dump_begins indent level h
  rw [hdump, List.cons_append]
  exact skipWhitespace_newline indent level' hws (rest ++ t)

theorem accept_dump {closing : CodePoint} (hc : closing = ofChar ']' ∨ closing = ofChar '}')
    (level : Nat) {j : Json} (h : j.Textual) (t : List CodePoint) :
    (Scanner.accept closing : Scanner Exc CodePoint Bool).run (j.dump indent level ++ t) =
      .ok (false, j.dump indent level ++ t) := by
  obtain ⟨c, rest, hdump, -, harr, hobj, -⟩ := dump_begins indent level h
  rw [hdump, List.cons_append]
  apply Scanner.run_accept_ne
  rcases hc with rfl | rfl
  · exact harr
  · exact hobj

theorem comma_eq (indent : Option Nat) (level : Nat) :
    ∃ ws, comma indent level = ofChar ',' :: ws ∧ ∀ c ∈ ws, isWhitespace c = true := by
  cases indent with
  | none =>
    refine ⟨[ofChar ' '], rfl, ?_⟩
    intro c hc
    rw [List.mem_singleton.mp hc]
    decide
  | some width => exact ⟨_, rfl, newline_whitespace (some width) level⟩

theorem whitespace_ascii {ws : List CodePoint} (h : ∀ c ∈ ws, isWhitespace c = true) :
    ∀ c ∈ ws, c.val < 0x80 := by
  intro c hc
  have hws := h c hc
  simp only [isWhitespace, Bool.or_eq_true, beq_iff_eq] at hws
  omega

theorem codesOf_ascii {s : String} (h : ∀ c ∈ s.toList, c.toNat < 0x80) :
    ∀ c ∈ codesOf s, c.val < 0x80 := by
  intro c hc
  obtain ⟨ch, hch, rfl⟩ := List.mem_map.mp hc
  exact h ch hch

theorem newline_ascii (indent : Option Nat) (level : Nat) :
    ∀ c ∈ newline indent level, c.val < 0x80 := by
  exact whitespace_ascii (newline_whitespace indent level)

theorem comma_ascii (indent : Option Nat) (level : Nat) :
    ∀ c ∈ comma indent level, c.val < 0x80 := by
  obtain ⟨ws, hcomma, hws⟩ := comma_eq indent level
  rw [hcomma, List.forall_mem_cons]
  exact ⟨by decide, whitespace_ascii hws⟩

theorem colon_ascii : ∀ c ∈ colon, c.val < 0x80 := by
  simp only [colon, List.forall_mem_cons]
  exact ⟨by decide, by decide, nofun⟩

theorem setItem_new {o : JsonObject} {member : PyStr × Json} (h : member.1 ∉ o.map Prod.fst) :
    setItem o member = o ++ [member] := if_neg h

theorem foldl_setItem {o : JsonObject} {members : List (PyStr × Json)}
    (h : ((o ++ members).map Prod.fst).Nodup) : members.foldl setItem o = o ++ members := by
  induction members generalizing o with
  | nil => simp
  | cons member members ih =>
    have hnew : member.1 ∉ o.map Prod.fst := by
      rw [List.map_append, List.map_cons, List.nodup_append] at h
      intro hmem
      exact h.2.2 _ hmem _ List.mem_cons_self rfl
    rw [List.foldl_cons, setItem_new hnew, ih (by simpa using h), List.append_assoc]
    rfl

theorem dictOf_nodup {members : List (PyStr × Json)} (h : (members.map Prod.fst).Nodup) :
    dictOf members = members := foldl_setItem (o := []) h

/-- With enough fuel a dumped value is read back, whatever follows it. -/
def ReadsValues (indent : Option Nat) (fuel : Nat) : Prop :=
  ∀ (j : Json) level t, j.Textual → j.size ≤ fuel →
    (scanOnce fuel).run (j.dump indent level ++ t) = .ok (j.joined, t)

def ReadsItems (indent : Option Nat) (fuel : Nat) : Prop :=
  ∀ (item : Json) items level level' t, Json.TextualItems (item :: items) →
    Json.sizeItems (item :: items) ≤ fuel →
    (scanItems fuel).run (item.dump indent level ++ (Json.dumpItems indent level items ++
      (newline indent level' ++ ofChar ']' :: t))) = .ok (Json.joinedItems (item :: items), t)

def ReadsMembers (indent : Option Nat) (fuel : Nat) : Prop :=
  ∀ key (value : Json) members level level' t, Json.TextualMembers ((key, value) :: members) →
    Json.sizeMembers ((key, value) :: members) ≤ fuel →
    (scanMembers fuel).run (quoted key ++ (colon ++ (value.dump indent level ++
      (Json.dumpMembers indent level members ++ (newline indent level' ++ ofChar '}' :: t))))) =
      .ok (Json.joinedMembers ((key, value) :: members), t)

theorem readsItems_succ {fuel : Nat} (hvalues : ReadsValues indent fuel)
    (hitems : ReadsItems indent fuel) : ReadsItems indent (fuel + 1) := by
  intro item items level level' t htext hsize
  obtain ⟨hitem, hrest⟩ := htext
  simp only [Json.sizeItems] at hsize
  rw [scanItems, Scanner.run_bind, hvalues item level _ hitem (by omega)]
  dsimp only
  cases items with
  | nil =>
    simp only [Json.dumpItems, List.nil_append]
    rw [Scanner.run_bind, skipWhitespace_newline indent level' (by decide)]
    dsimp only
    rw [Scanner.run_bind, Scanner.run_accept]
    rfl
  | cons next items =>
    obtain ⟨ws, hcomma, hws⟩ := comma_eq indent level
    obtain ⟨c, rest, hdump, hc, -⟩ := dump_begins indent level hrest.1
    have hmore := hitems next items level level' t hrest (by omega)
    rw [hdump] at hmore
    simp only [Json.dumpItems, hcomma, hdump, List.cons_append, List.append_assoc] at hmore ⊢
    rw [Scanner.run_bind, skipWhitespace_none (by decide)]
    dsimp only
    rw [Scanner.run_bind, Scanner.run_accept_ne (by decide)]
    dsimp only
    rw [if_neg (by decide), Scanner.run_bind, Scanner.run_expect]
    dsimp only
    rw [Scanner.run_bind, skipWhitespace, Scanner.run_skipWhile hws hc]
    dsimp only
    rw [Scanner.run_bind, hmore]
    rfl

theorem quoted_append (s : PyStr) (t : List CodePoint) :
    quoted s ++ t = ofChar '"' :: (s.codes.flatMap escape ++ ofChar '"' :: t) := by
  simp [quoted]

theorem readsMembers_succ {fuel : Nat} (hvalues : ReadsValues indent fuel)
    (hmembers : ReadsMembers indent fuel) : ReadsMembers indent (fuel + 1) := by
  intro key value members level level' t htext hsize
  obtain ⟨hvalue, hrest⟩ := htext
  simp only [Json.sizeMembers] at hsize
  obtain ⟨c, rest, hdump, hc, -⟩ := dump_begins indent level hvalue
  have hread := hvalues value level (Json.dumpMembers indent level members ++
    (newline indent level' ++ ofChar '}' :: t)) hvalue (by omega)
  rw [hdump, List.cons_append] at hread
  rw [scanMembers, quoted_append, Scanner.run_bind, Scanner.run_expect]
  dsimp only
  rw [Scanner.run_bind, scanString_quoted]
  dsimp only
  simp only [colon, List.cons_append, List.nil_append, hdump]
  rw [Scanner.run_bind, skipWhitespace_none (by decide)]
  dsimp only
  rw [Scanner.run_bind, Scanner.run_expect]
  dsimp only
  have hspace : ∀ x ∈ [ofChar ' '], isWhitespace x = true := by
    intro x hx
    rw [List.mem_singleton.mp hx]
    decide
  rw [Scanner.run_bind, skipWhitespace,
    show ∀ r, ofChar ' ' :: c :: r = [ofChar ' '] ++ c :: r from fun _ => rfl,
    Scanner.run_skipWhile hspace hc]
  dsimp only
  rw [Scanner.run_bind, hread]
  dsimp only
  cases members with
  | nil =>
    simp only [Json.dumpMembers, List.nil_append]
    rw [Scanner.run_bind, ← skipWhitespace, skipWhitespace_newline indent level' (by decide)]
    dsimp only
    rw [Scanner.run_bind, Scanner.run_accept]
    rfl
  | cons next members =>
    obtain ⟨key', value'⟩ := next
    obtain ⟨ws, hcomma, hws⟩ := comma_eq indent level
    have hmore := hmembers key' value' members level level' t hrest (by omega)
    rw [quoted_append] at hmore
    simp only [Json.dumpMembers, hcomma, List.cons_append, List.append_assoc]
    rw [Scanner.run_bind, ← skipWhitespace, skipWhitespace_none (by decide)]
    dsimp only
    rw [Scanner.run_bind, Scanner.run_accept_ne (by decide)]
    dsimp only
    rw [if_neg (by decide), Scanner.run_bind, Scanner.run_expect]
    dsimp only
    rw [quoted_append, Scanner.run_bind, skipWhitespace, Scanner.run_skipWhile hws (by decide)]
    dsimp only
    rw [Scanner.run_bind, hmore]
    rfl

theorem readsValues_succ {fuel : Nat} (hitems : ReadsItems indent fuel)
    (hmembers : ReadsMembers indent fuel) : ReadsValues indent (fuel + 1) := by
  intro j level t htext hsize
  rw [scanOnce]
  cases j with
  | num token => exact absurd htext (by simp [Json.Textual])
  | null => rfl
  | bool b => cases b <;> rfl
  | str s =>
    rw [Json.dump, quoted_append, Scanner.run_bind, Scanner.run_accept]
    dsimp only
    rw [if_pos rfl, Scanner.run_bind, scanString_quoted]
    rfl
  | arr items =>
    cases items with
    | nil => rfl
    | cons item items =>
      simp only [Json.size] at hsize
      have hread := hitems item items (level + 1) level t htext (by omega)
      obtain ⟨hitem, -⟩ := htext
      simp only [Json.dump, List.cons_append, List.append_assoc]
      rw [Scanner.run_bind, Scanner.run_accept_ne (by decide)]
      dsimp only
      rw [if_neg (by decide), Scanner.run_bind, Scanner.run_accept_ne (by decide)]
      dsimp only
      rw [if_neg (by decide), Scanner.run_bind, Scanner.run_accept]
      dsimp only
      rw [if_pos rfl, Scanner.run_bind, skipWhitespace_dump _ _ hitem]
      dsimp only
      rw [Scanner.run_bind, accept_dump (Or.inl rfl) _ hitem]
      dsimp only
      rw [if_neg (by decide), Scanner.run_bind]
      simp only [List.nil_append]
      rw [hread]
      rfl
  | obj members =>
    cases members with
    | nil => rfl
    | cons member members =>
      obtain ⟨key, value⟩ := member
      simp only [Json.size] at hsize
      have hread := hmembers key value members (level + 1) level t htext.1 (by omega)
      simp only [Json.dump, List.cons_append, List.append_assoc]
      rw [quoted_append] at hread ⊢
      rw [Scanner.run_bind, Scanner.run_accept_ne (by decide)]
      dsimp only
      rw [if_neg (by decide), Scanner.run_bind, Scanner.run_accept]
      dsimp only
      rw [if_pos rfl, Scanner.run_bind, skipWhitespace_newline _ _ (by decide)]
      dsimp only
      rw [Scanner.run_bind, Scanner.run_accept_ne (by decide)]
      dsimp only
      rw [if_neg (by decide), Scanner.run_bind]
      simp only [List.nil_append]
      rw [hread]
      dsimp only
      rw [dictOf_nodup htext.2]
      rfl

theorem reads_all (indent : Option Nat) (fuel : Nat) :
    ReadsValues indent fuel ∧ ReadsItems indent fuel ∧ ReadsMembers indent fuel := by
  induction fuel with
  | zero =>
    refine ⟨?_, ?_, ?_⟩
    · intro j level t _ hsize
      cases j <;> simp [Json.size] at hsize
    · intro item items level level' t _ hsize
      simp [Json.sizeItems] at hsize
    · intro key value members level level' t _ hsize
      simp [Json.sizeMembers] at hsize
  | succ fuel ih =>
    obtain ⟨hvalues, hitems, hmembers⟩ := ih
    exact ⟨readsValues_succ hitems hmembers, readsItems_succ hvalues hitems,
      readsMembers_succ hvalues hmembers⟩

end JsonText

namespace Json

variable {indent : Option Nat}

mutual

theorem size_le_dump : ∀ (level : Nat) (j : Json), j.Textual →
    j.size ≤ (j.dump indent level).length
  | _, null, _ => by simp [size, dump, codesOf]
  | _, bool b, _ => by cases b <;> simp [size, dump, codesOf]
  | _, num _, h => absurd h (by simp [Textual])
  | _, str s, _ => by simp [size, dump, quoted]
  | _, arr [], _ => by simp [size, sizeItems, dump]
  | level, arr (item :: items), h => by
    have hitem := size_le_dump (level + 1) item h.1
    have hitems := sizeItems_le_dump (level + 1) items h.2
    simp only [size, sizeItems, dump, List.length_cons, List.length_append, List.length_nil]
    omega
  | _, obj [], _ => by simp [size, sizeMembers, dump]
  | level, obj ((key, value) :: members), h => by
    have hvalue := size_le_dump (level + 1) value h.1.1
    have hmembers := sizeMembers_le_dump (level + 1) members h.1.2
    simp only [size, sizeMembers, dump, List.length_cons, List.length_append, List.length_nil]
    omega

theorem sizeItems_le_dump : ∀ (level : Nat) (items : List Json), TextualItems items →
    sizeItems items ≤ (dumpItems indent level items).length
  | _, [], _ => by simp [sizeItems]
  | level, item :: items, h => by
    have hitem := size_le_dump level item h.1
    have hitems := sizeItems_le_dump level items h.2
    obtain ⟨ws, hcomma, -⟩ := comma_eq indent level
    simp only [sizeItems, dumpItems, hcomma, List.length_cons, List.length_append]
    omega

theorem sizeMembers_le_dump : ∀ (level : Nat) (members : List (PyStr × Json)),
    TextualMembers members → sizeMembers members ≤ (dumpMembers indent level members).length
  | _, [], _ => by simp [sizeMembers]
  | level, (key, value) :: members, h => by
    have hvalue := size_le_dump level value h.1
    have hmembers := sizeMembers_le_dump level members h.2
    obtain ⟨ws, hcomma, -⟩ := comma_eq indent level
    simp only [sizeMembers, dumpMembers, hcomma, List.length_cons, List.length_append]
    omega

end

mutual

theorem dump_ascii : ∀ (level : Nat) (j : Json), j.Textual →
    ∀ c ∈ j.dump indent level, c.val < 0x80
  | _, null, _ => codesOf_ascii (forall_mem_of_all (by decide))
  | _, bool b, _ => by cases b <;> exact codesOf_ascii (forall_mem_of_all (by decide))
  | _, num _, h => absurd h (by simp [Textual])
  | _, str s, _ => quoted_ascii s
  | _, arr [], _ => by
    simp only [dump, List.forall_mem_cons]
    exact ⟨by decide, by decide, nofun⟩
  | level, arr (item :: items), h => by
    have hitem := dump_ascii (level + 1) item h.1
    have hitems := dumpItems_ascii (level + 1) items h.2
    have hin := newline_ascii indent (level + 1)
    have hout := newline_ascii indent level
    simp only [dump, List.forall_mem_cons, List.forall_mem_append]
    exact ⟨by decide, hin, hitem, hitems, hout, by decide, nofun⟩
  | _, obj [], _ => by
    simp only [dump, List.forall_mem_cons]
    exact ⟨by decide, by decide, nofun⟩
  | level, obj ((key, value) :: members), h => by
    have hvalue := dump_ascii (level + 1) value h.1.1
    have hmembers := dumpMembers_ascii (level + 1) members h.1.2
    have hin := newline_ascii indent (level + 1)
    have hout := newline_ascii indent level
    simp only [dump, List.forall_mem_cons, List.forall_mem_append]
    exact ⟨by decide, hin, quoted_ascii key, colon_ascii, hvalue, hmembers, hout,
      by decide, nofun⟩

theorem dumpItems_ascii : ∀ (level : Nat) (items : List Json), TextualItems items →
    ∀ c ∈ dumpItems indent level items, c.val < 0x80
  | _, [], _ => by simp [dumpItems]
  | level, item :: items, h => by
    have hitem := dump_ascii level item h.1
    have hitems := dumpItems_ascii level items h.2
    simp only [dumpItems, List.forall_mem_append]
    exact ⟨comma_ascii indent level, hitem, hitems⟩

theorem dumpMembers_ascii : ∀ (level : Nat) (members : List (PyStr × Json)),
    TextualMembers members → ∀ c ∈ dumpMembers indent level members, c.val < 0x80
  | _, [], _ => by simp [dumpMembers]
  | level, (key, value) :: members, h => by
    have hvalue := dump_ascii level value h.1
    have hmembers := dumpMembers_ascii level members h.2
    simp only [dumpMembers, List.forall_mem_append]
    exact ⟨comma_ascii indent level, quoted_ascii key, colon_ascii, hvalue, hmembers⟩

end

/-- A document without numbers is encoded in as many bytes as it has characters. -/
theorem encode_dumps {j : Json} (h : j.Textual) (indent : Option Nat) : ∃ b,
    (dumps j indent).encode = .ok b ∧ b.length = (j.dump indent 0).length := by
  have hascii : ∀ c ∈ j.dump indent 0, c.val < 0x80 := dump_ascii 0 j h
  have hnone : ¬∃ c ∈ j.dump indent 0, c.IsSurrogate := by
    rintro ⟨c, hc, hs⟩
    have hlt := hascii c hc
    simp only [IsSurrogate] at hs
    omega
  have hchars : ∀ c ∈ (String.ofList ((j.dump indent 0).map toChar)).toList, c.toNat < 0x80 := by
    rw [String.toList_ofList]
    intro c hc
    obtain ⟨d, hd, rfl⟩ := List.mem_map.mp hc
    have hval : d.toChar.toNat = d.val :=
      congrArg Fin.val (ofChar_toChar fun hs => hnone ⟨d, hd, hs⟩)
    rw [hval]
    exact hascii d hd
  have hdumps : dumps j indent = .text (String.ofList ((j.dump indent 0).map toChar)) := by
    rw [dumps, PyStr.ofCodes, dif_neg hnone]
  refine ⟨_, by rw [hdumps]; rfl, ?_⟩
  rw [PyStr.encode_length_of_ascii hchars rfl, String.toList_ofList, List.length_map]

/-- A document is one value with nothing behind it. -/
theorem loads_of_read {s : PyStr} {v : Json} (hbom : ¬s.codes.head? = some (ofChar '\uFEFF'))
    (hskip : skipWhitespace.run s.codes = .ok ((), s.codes))
    (hread : (scanOnce (2 * s.codes.length + 2)).run s.codes = .ok (v, [])) : loads s = .ok v := by
  have hend : skipWhitespace.run [] = .ok ((), []) := by
    simp [skipWhitespace, Scanner.skipWhile]
  rw [loads, if_neg hbom]
  dsimp only
  simp only [Scanner.run_bind, hskip, hread, hend]
  simp [pure, Scanner.ret]

/-- `json.loads` undoes `json.dumps`, but for surrogate pairs in strings. -/
theorem loads_dumps {j : Json} (h : j.Textual) (indent : Option Nat) :
    loads (dumps j indent) = .ok j.joined := by
  obtain ⟨c, rest, hdump, hws, -, -, hc⟩ := dump_begins indent 0 h
  have hcodes : (dumps j indent).codes = j.dump indent 0 := PyStr.codes_ofCodes _
  apply loads_of_read
  · rw [hcodes, hdump, List.head?_cons]
    exact fun heq => hc (Option.some.inj heq)
  · rw [hcodes, hdump]
    exact skipWhitespace_none hws rest
  · rw [hcodes]
    have hfuel : j.size ≤ 2 * (j.dump indent 0).length + 2 := by
      have hsize : j.size ≤ (j.dump indent 0).length := size_le_dump 0 j h
      omega
    have hread := (reads_all indent _).1 j 0 [] h hfuel
    rw [List.append_nil] at hread
    exact hread

end Json

end CryptoFlex
