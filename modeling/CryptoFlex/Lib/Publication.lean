import CryptoFlex.Lib.Disk
import CryptoFlex.Lib.Pool
import CryptoFlex.Lib.Resumption

namespace CryptoFlex.Lib

variable {P ε ι : Type} [DecidableEq P]

abbrev FileMap (P : Type) := P → Option (List UInt8)

/-- What a writer has of its own: the draft that it works on, and what it has published. -/
structure Stage (P : Type) where
  draft : Option P
  published : List (P × List UInt8)

/-- What a writer may do in one step. Drafts have private `names`, which no published file has. -/
inductive Move (names : P → Prop) (allowed : List (P × List UInt8) → Prop) (files : FileMap P) :
    Stage P → FileMap P → Stage P → Prop
  | stay {g : Stage P} {files' : FileMap P} (same : files' = files) :
    Move names allowed files g files' g
  | create {temp : P} {published : List (P × List UInt8)} {files' : FileMap P} (name : names temp)
    (fresh : files temp = none) (there : (files' temp).isSome)
    (others : ∀ q, q ≠ temp → files' q = files q) :
    Move names allowed files ⟨none, published⟩ files' ⟨some temp, published⟩
  | fill {temp : P} {published : List (P × List UInt8)} {files' : FileMap P}
    (there : (files' temp).isSome) (others : ∀ q, q ≠ temp → files' q = files q) :
    Move names allowed files ⟨some temp, published⟩ files' ⟨some temp, published⟩
  /-- The draft is removed or left behind. -/
  | drop {temp : P} {published : List (P × List UInt8)} {files' : FileMap P}
    (others : ∀ q, q ≠ temp → files' q = files q) :
    Move names allowed files ⟨some temp, published⟩ files' ⟨none, published⟩
  | publish {temp dest : P} {content : List UInt8} {published : List (P × List UInt8)}
    {files' : FileMap P} (isPublic : ¬names dest) (whole : files temp = some content)
    (agreed : allowed (published ++ [(dest, content)]))
    (moved : files' = Function.update (Function.update files temp none) dest (some content)) :
    Move names allowed files ⟨some temp, published⟩ files' ⟨none, published ++ [(dest, content)]⟩

/-- The files after what was published. -/
def replay : List (P × List UInt8) → FileMap P → FileMap P
  | [], files => files
  | (dest, content) :: log, files => replay log (Function.update files dest (some content))

theorem replay_append (log more : List (P × List UInt8)) (files : FileMap P) :
    replay (log ++ more) files = replay more (replay log files) := by
  induction log generalizing files with
  | nil => rfl
  | cons e log ih => exact ih _

/-- Replaying tells of a file by what it held before, and nothing else. -/
theorem replay_congr {log : List (P × List UInt8)} {files files' : FileMap P} {q : P}
    (h : files q = files' q) : replay log files q = replay log files' q := by
  induction log generalizing files files' with
  | nil => exact h
  | cons e log ih =>
    apply ih
    by_cases hq : q = e.1
    · rw [hq, Function.update_self, Function.update_self]
    · rw [Function.update_of_ne hq, Function.update_of_ne hq, h]

/-- The draft of a writer is a private file. -/
def Stage.Private (names : P → Prop) (files : FileMap P) (g : Stage P) : Prop :=
  ∀ temp, g.draft = some temp → names temp ∧ (files temp).isSome

/-- What others can tell of a move: public files change as by what was published, and of the private
ones only the draft, which is the old one or new. -/
theorem Move.effect {names : P → Prop} {allowed : List (P × List UInt8) → Prop}
    {files files' : FileMap P} {g g' : Stage P} (h : Move names allowed files g files' g')
    (hg : g.Private names files) : ∃ new, g'.published = g.published ++ new ∧
      (∀ q, ¬names q → files' q = replay new files q) ∧
      (allowed g.published → allowed g'.published) ∧
      (∀ q, names q → g.draft ≠ some q → (files q).isSome → files' q = files q) ∧
      g'.Private names files' ∧
      ∀ temp, g'.draft = some temp → g.draft = some temp ∨ files temp = none := by
  cases h with
  | stay same =>
    subst same
    exact ⟨[], (List.append_nil _).symm, fun _ _ => rfl, id, fun _ _ _ _ => rfl, hg,
      fun _ => Or.inl⟩
  | @create temp _ _ name fresh there others =>
    refine ⟨[], (List.append_nil _).symm, ?_, id, ?_, ?_, ?_⟩
    · intro q hq
      apply others
      rintro rfl
      exact hq name
    · intro q _ _ hthere
      apply others
      rintro rfl
      rw [fresh] at hthere
      cases hthere
    · intro temp' htemp
      cases htemp
      exact ⟨name, there⟩
    · intro temp' htemp
      cases htemp
      exact Or.inr fresh
  | @fill temp _ _ there others =>
    obtain ⟨name, -⟩ := hg temp rfl
    refine ⟨[], (List.append_nil _).symm, ?_, id, ?_, ?_, fun _ => Or.inl⟩
    · intro q hq
      apply others
      rintro rfl
      exact hq name
    · intro q _ hne _
      apply others
      rintro rfl
      exact hne rfl
    · intro temp' htemp
      cases htemp
      exact ⟨name, there⟩
  | @drop temp _ _ others =>
    obtain ⟨name, -⟩ := hg temp rfl
    refine ⟨[], (List.append_nil _).symm, ?_, id, ?_, ?_, ?_⟩
    · intro q hq
      apply others
      rintro rfl
      exact hq name
    · intro q _ hne _
      apply others
      rintro rfl
      exact hne rfl
    · intro temp' htemp
      cases htemp
    · intro temp' htemp
      cases htemp
  | @publish temp dest content _ _ isPublic whole agreed moved =>
    obtain ⟨name, -⟩ := hg temp rfl
    subst moved
    refine ⟨[(dest, content)], rfl, ?_, fun _ => agreed, ?_, ?_, ?_⟩
    · intro q hq
      have hne : q ≠ temp := by
        rintro rfl
        exact hq name
      by_cases hdest : q = dest
      · simp [replay, hdest]
      · simp [replay, hdest, hne]
    · intro q hq hne _
      have hdest : q ≠ dest := by
        rintro rfl
        exact isPublic hq
      have htemp : q ≠ temp := by
        rintro rfl
        exact hne rfl
      rw [Function.update_of_ne hdest, Function.update_of_ne htemp]
    · intro temp' htemp
      cases htemp
    · intro temp' htemp
      cases htemp

section Programs

variable {α β : Type} {names : P → Prop} {allowed : List (P × List UInt8) → Prop}

/-- What others cannot have changed for a writer: its descriptors, how its calls will go, and its
draft. -/
structure Undisturbed (g : Stage P) (d d' : Disk P ε) : Prop where
  handles : d'.handles = d.handles
  plan : d'.plan = d.plan
  draft : ∀ temp, g.draft = some temp → d'.files temp = d.files temp

omit [DecidableEq P] in
theorem Undisturbed.refl (g : Stage P) (d : Disk P ε) : Undisturbed g d d :=
  ⟨rfl, rfl, fun _ _ => rfl⟩

omit [DecidableEq P] in
theorem Undisturbed.trans {g : Stage P} {d d' d'' : Disk P ε} (h : Undisturbed g d d')
    (h' : Undisturbed g d' d'') : Undisturbed g d d'' where
  handles := h'.handles.trans h.handles
  plan := h'.plan.trans h.plan
  draft temp htemp := (h'.draft temp htemp).trans (h.draft temp htemp)

/-- From the stage `g`, with the disk `d` or what others make of it: every step is a move, and the
program ends as `Q` says. -/
def Publishes (names : P → Prop) (allowed : List (P × List UInt8) → Prop)
    (Q : Except ε α → Stage P → Disk P ε → Prop) :
    Resumption ε (Disk P ε) α → Stage P → Disk P ε → Prop
  | .done r, g, d => Q r g d
  | .step next effect, g, d => ∀ d', Undisturbed g d d' →
    ∃ g', Move names allowed d'.files g (effect d').files g' ∧
      Publishes names allowed Q (next d') g' (effect d')

namespace Publishes

variable {Q Q' : Except ε α → Stage P → Disk P ε → Prop} {x : Resumption ε (Disk P ε) α}
  {g : Stage P} {d d' : Disk P ε}

theorem mono (h : Publishes names allowed Q x g d) (imp : ∀ r g d, Q r g d → Q' r g d) :
    Publishes names allowed Q' x g d := by
  induction x generalizing g d with
  | done r => exact imp _ _ _ h
  | step next effect ih =>
    intro d' hd
    obtain ⟨g', hmove, hrest⟩ := h d' hd
    exact ⟨g', hmove, ih d' hrest⟩

/-- What others do meanwhile does not matter. -/
theorem stable (hQ : ∀ r g d d', Undisturbed g d d' → Q r g d → Q r g d')
    (hd : Undisturbed g d d') (h : Publishes names allowed Q x g d) :
    Publishes names allowed Q x g d' := by
  cases x with
  | done r => exact hQ _ _ _ _ hd h
  | step next effect => exact fun d'' hd' => h d'' (hd.trans hd')

theorem bind {Q : Except ε β → Stage P → Disk P ε → Prop} {f : α → Resumption ε (Disk P ε) β}
    (h : Publishes names allowed (fun r g d => match r with
      | .ok a => Publishes names allowed Q (f a) g d
      | .error e => Q (.error e) g d) x g d) : Publishes names allowed Q (x >>= f) g d := by
  induction x generalizing g d with
  | done r => cases r <;> exact h
  | step next effect ih =>
    intro d' hd
    obtain ⟨g', hmove, hrest⟩ := h d' hd
    exact ⟨g', hmove, ih d' hrest⟩

theorem tryCatch {k : ε → Resumption ε (Disk P ε) α}
    (h : Publishes names allowed (fun r g d => match r with
      | .ok a => Q (.ok a) g d
      | .error e => Publishes names allowed Q (k e) g d) x g d) :
    Publishes names allowed Q (x.tryCatch k) g d := by
  induction x generalizing g d with
  | done r => cases r <;> exact h
  | step next effect ih =>
    intro d' hd
    obtain ⟨g', hmove, hrest⟩ := h d' hd
    exact ⟨g', hmove, ih d' hrest⟩

theorem tryFinally {fin : Resumption ε (Disk P ε) Unit}
    (h : Publishes names allowed (fun r g d => Publishes names allowed (fun r' g d => match r' with
      | .ok _ => Q r g d
      | .error e => Q (.error e) g d) fin g d) x g d) :
    Publishes names allowed Q (x.tryFinally fin) g d := by
  induction x generalizing g d with
  | done r =>
    have hfin : Publishes names allowed Q (fin >>= fun _ => Resumption.done r) g d := by
      apply bind
      apply mono (x := fin) h
      intro r' g d hq
      cases r' <;> exact hq
    exact hfin
  | step next effect ih =>
    intro d' hd
    obtain ⟨g', hmove, hrest⟩ := h d' hd
    exact ⟨g', hmove, ih d' hrest⟩

theorem atomic {y : Eff ε (Disk P ε) α}
    (h : ∀ d', Undisturbed g d d' → Eff.Post y d' fun r d'' =>
      ∃ g', Move names allowed d'.files g d''.files g' ∧ Q r g' d'') :
    Publishes names allowed Q (.atomic y) g d := h

end Publishes

section Rules

variable {os : OsErrors ε} {published : List (P × List UInt8)} {temp : P} {fd : Nat}
  {c : List UInt8} {d : Disk P ε}

/-- `mkstemp` starts a draft, or nothing. -/
theorem Publishes.mkstemp (name : Nat → P) (hname : ∀ n, names (name n)) :
    Publishes names allowed (fun r g d => match r with
      | .ok made => g = ⟨some made.2, published⟩ ∧ d.Drafts made.1 made.2 []
      | .error _ => g = ⟨none, published⟩) (.atomic (Disk.mkstemp os name)) ⟨none, published⟩ d := by
  apply Publishes.atomic
  intro d' _
  by_cases hnew : (d'.plan 0).raised = none ∧ d'.files (name (d'.plan 0).suffix) = none
  · obtain ⟨hraised, hfresh⟩ := hnew
    apply Eff.Post.of_eq (Disk.mkstemp_run os name hraised hfresh)
    refine ⟨_, Move.create (hname _) hfresh ?_ ?_, rfl, [], [], ?_, ?_, rfl⟩
    · simp [Disk.drafting]
    · intro q hq
      exact Function.update_of_ne hq _ _
    · simp [Disk.drafting]
    · simp [Disk.drafting]
  · obtain ⟨e, hrun⟩ := Disk.mkstemp_error os name hnew
    apply Eff.Post.of_eq hrun
    exact ⟨_, Move.stay rfl, rfl⟩

/-- A call on the draft only. -/
theorem Publishes.fill {α : Type} {y : Eff ε (Disk P ε) α} {R : Except ε α → Disk P ε → Prop}
    (hy : Eff.Keeps (Disk.Confined fd temp) y)
    (hpost : ∀ d : Disk P ε, d.Drafts fd temp c → Eff.Post y d R) (h : d.Drafts fd temp c) :
    Publishes names allowed (fun r g d => g = ⟨some temp, published⟩ ∧ (d.files temp).isSome ∧ R r d)
      (.atomic y) ⟨some temp, published⟩ d := by
  apply Publishes.atomic
  intro d' hd
  have hdrafts : d'.Drafts fd temp c :=
    h.of_eq (hd.draft temp rfl) (congrArg (fun l => l[fd]?) hd.handles)
  obtain ⟨⟨hthere, -⟩, htouches, -⟩ := hy d' hdrafts.owns
  exact ⟨_, Move.fill hthere htouches, rfl, hthere, hpost d' hdrafts⟩

/-- Renaming a draft publishes it. -/
theorem Publishes.replace {dest : P} (hdest : ¬names dest)
    (hallowed : allowed (published ++ [(dest, c)])) (h : d.files temp = some c) :
    Publishes names allowed (fun r g d => match r with
      | .ok _ => g = ⟨none, published ++ [(dest, c)]⟩
      | .error _ => g = ⟨some temp, published⟩ ∧ (d.files temp).isSome)
      (.atomic (Disk.replace os temp dest)) ⟨some temp, published⟩ d := by
  apply Publishes.atomic
  intro d' hd
  have hfile : d'.files temp = some c := (hd.draft temp rfl).trans h
  cases hraised : (d'.plan 0).raised with
  | some e =>
    apply Eff.Post.of_eq (Disk.replace_raised os hraised)
    exact ⟨_, Move.stay rfl, rfl, by simp [hfile]⟩
  | none =>
    have hrun : (Disk.replace os temp dest).run d' = (.ok (), {
        files := Function.update (Function.update d'.files temp none) dest (some c)
        handles := d'.handles
        plan := Disk.after d'.plan 1 }) := by
      simp [Disk.replace, Disk.next, Outcome.result, Eff.run_bind, hraised, hfile]
    apply Eff.Post.of_eq hrun
    exact ⟨_, Move.publish hdest hfile hallowed rfl, rfl⟩

/-- What touches no file but the draft may remove it. -/
theorem Publishes.drop {α : Type} {y : Eff ε (Disk P ε) α}
    (hy : Eff.Keeps (Disk.OnlyTouches temp) y) :
    Publishes names allowed (fun _ g _ => g = ⟨none, published⟩) (.atomic y)
      ⟨some temp, published⟩ d := by
  apply Publishes.atomic
  intro d' _
  exact ⟨_, Move.drop (hy d'), rfl⟩

end Rules

end Programs

/-- A writer in the middle of its job, with what its process has for itself. -/
structure Writer (ι P ε : Type) where
  job : ι
  program : Resumption ε (Disk P ε) Unit
  handles : List (Option (Handle P))
  plan : Nat → Outcome ε

namespace Writer

/-- The disk as the writer sees it. -/
def disk (t : Writer ι P ε) (files : FileMap P) : Disk P ε where
  files := files
  handles := t.handles
  plan := t.plan

def next (t : Writer ι P ε) (files : FileMap P) : Writer ι P ε × FileMap P :=
  match t.program with
  | .done _ => (t, files)
  | .step next effect =>
    let d' := effect (t.disk files)
    (⟨t.job, next (t.disk files), d'.handles, d'.plan⟩, d'.files)

end Writer

/-- Writers on the same files, each in a process of its own; nobody else changes the files. -/
def writers (program : ι → Resumption ε (Disk P ε) Unit) :
    ThreadSystem (Writer ι P ε) (FileMap P) where
  next := Writer.next
  Finished t := ∃ r, t.program = .done r
  Fresh t := t.program = program t.job
  Outside _ _ := False

/-- What the writer `i` published. -/
def publishedBy (i : Nat) (log : List (Nat × P × List UInt8)) : List (P × List UInt8) :=
  (log.filter fun e => e.1 = i).map Prod.snd

/-- The log tells what the files hold: the public ones are what they were, but for what the log
replays, and each writer has published what its job allows, and in the end what `ends` says. -/
structure Explains (names : P → Prop) (allowed : ι → List (P × List UInt8) → Prop)
    (ends : ι → Except ε Unit → List (P × List UInt8) → Prop) (files : FileMap P)
    (log : List (Nat × P × List UInt8)) (p : Pool (Writer ι P ε) (FileMap P)) : Prop where
  files : ∀ q, ¬names q → p.shared q = replay (log.map Prod.snd) files q
  writers : ∀ e ∈ log, e.1 < p.threads.length
  published : ∀ i t, p.threads[i]? = some t → allowed t.job (publishedBy i log)
  ended : ∀ i t r, p.threads[i]? = some t → t.program = .done r → ends t.job r (publishedBy i log)

/-- The same, with the stage of each writer. -/
structure Staged (names : P → Prop) (allowed : ι → List (P × List UInt8) → Prop)
    (ends : ι → Except ε Unit → List (P × List UInt8) → Prop) (files : FileMap P)
    (stage : Nat → Stage P) (log : List (Nat × P × List UInt8))
    (p : Pool (Writer ι P ε) (FileMap P)) : Prop where
  files : ∀ q, ¬names q → p.shared q = replay (log.map Prod.snd) files q
  writers : ∀ e ∈ log, e.1 < p.threads.length
  published : ∀ i, (stage i).published = publishedBy i log
  idle : ∀ i, p.threads.length ≤ i → (stage i).draft = none
  drafts : ∀ i, (stage i).Private names p.shared
  distinct : ∀ i j temp, (stage i).draft = some temp → (stage j).draft = some temp → i = j
  programs : ∀ i t, p.threads[i]? = some t → allowed t.job (stage i).published ∧
    Publishes names (allowed t.job) (fun r g _ => ends t.job r g.published) t.program (stage i)
      (t.disk p.shared)

section Pools

variable {names : P → Prop} {allowed : ι → List (P × List UInt8) → Prop}
  {ends : ι → Except ε Unit → List (P × List UInt8) → Prop} {files : FileMap P}
  {stage : Nat → Stage P} {log : List (Nat × P × List UInt8)} {p p' : Pool (Writer ι P ε) (FileMap P)}
  {program : ι → Resumption ε (Disk P ε) Unit}

omit [DecidableEq P] in
theorem publishedBy_append (i : Nat) (log more : List (Nat × P × List UInt8)) :
    publishedBy i (log ++ more) = publishedBy i log ++ publishedBy i more := by
  simp [publishedBy]

omit [DecidableEq P] in
theorem publishedBy_self (i : Nat) (new : List (P × List UInt8)) :
    publishedBy i (new.map fun e => (i, e)) = new := by
  simp [publishedBy, List.filter_map, Function.comp_def]

omit [DecidableEq P] in
theorem publishedBy_other {i j : Nat} (h : j ≠ i) (new : List (P × List UInt8)) :
    publishedBy j (new.map fun e => (i, e)) = [] := by
  simp [publishedBy, List.filter_map, Function.comp_def, Ne.symm h]

omit [DecidableEq P] in
theorem publishedBy_unknown {i : Nat} (h : ∀ e ∈ log, e.1 < i) : publishedBy i log = [] := by
  rw [publishedBy, List.map_eq_nil_iff, List.filter_eq_nil_iff]
  intro e he
  have hlt := h e he
  simp only [decide_eq_true_eq]
  omega

theorem Staged.explains (h : Staged names allowed ends files stage log p) :
    Explains names allowed ends files log p where
  files := h.files
  writers := h.writers
  published i t ht := by
    rw [← h.published]
    exact (h.programs i t ht).1
  ended i t r ht hr := by
    have hends := (h.programs i t ht).2
    rw [hr, Publishes, h.published] at hends
    exact hends

/-- A new writer has no draft, and has published nothing. -/
theorem Staged.spawn (hallowed : ∀ job, allowed job [])
    (hprogram : ∀ job d, Publishes names (allowed job) (fun r g _ => ends job r g.published)
      (program job) ⟨none, []⟩ d)
    (h : Staged names allowed ends files stage log p) {t : Writer ι P ε}
    (hfresh : t.program = program t.job) :
    Staged names allowed ends files stage log { p with threads := p.threads ++ [t] } where
  files := h.files
  writers e he := by
    have hlt := h.writers e he
    simp only [List.length_append, List.length_singleton]
    omega
  published := h.published
  idle i hi := by
    simp only [List.length_append, List.length_singleton] at hi
    exact h.idle i (by omega)
  drafts := h.drafts
  distinct := h.distinct
  programs i t' ht' := by
    rcases Nat.lt_or_ge i p.threads.length with hi | hi
    · rw [List.getElem?_append_left hi] at ht'
      exact h.programs i t' ht'
    · rw [List.getElem?_append_right hi, List.getElem?_singleton] at ht'
      split at ht'
      · next hzero =>
        cases ht'
        have hlen : i = p.threads.length := by omega
        have hstage : stage i = ⟨none, []⟩ := by
          have hdraft := h.idle i hi
          have hpublished := h.published i
          rw [publishedBy_unknown (hlen ▸ h.writers)] at hpublished
          cases hs : stage i with
          | mk draft published =>
            rw [hs] at hdraft hpublished
            dsimp only at hdraft hpublished
            rw [hdraft, hpublished]
        rw [hstage, hfresh]
        exact ⟨hallowed _, hprogram _ _⟩
      · cases ht'

/-- A step of one writer. The others have their drafts elsewhere. -/
theorem Staged.run (h : Staged names allowed ends files stage log p) {i : Nat} {t : Writer ι P ε}
    (ht : p.threads[i]? = some t) (hf : ¬∃ r, t.program = .done r) : ∃ stage' more,
      Staged names allowed ends files stage' (log ++ more)
        (p.advance (Lib.writers program) i t) := by
  obtain ⟨job, prog, handles, plan⟩ := t
  cases prog with
  | done r => exact absurd ⟨r, rfl⟩ hf
  | step next effect =>
  obtain ⟨hallowed, hprogram⟩ := h.programs i _ ht
  let d := (Writer.mk job (Resumption.step next effect) handles plan).disk p.shared
  obtain ⟨g', hmove, hrest⟩ := hprogram d (Undisturbed.refl _ _)
  obtain ⟨new, hpublished, hpublic, hagreed, hothers, hprivate, hdraft⟩ := hmove.effect (h.drafts i)
  refine ⟨Function.update stage i g', new.map fun e => (i, e), ?_⟩
  have hother : ∀ j, j ≠ i → ∀ temp, (stage j).draft = some temp →
      (effect d).files temp = p.shared temp := by
    intro j hj temp htemp
    obtain ⟨hname, hthere⟩ := h.drafts j temp htemp
    exact hothers temp hname (fun hi => hj (h.distinct j i temp htemp hi)) hthere
  have hclash : ∀ j, j ≠ i → ∀ temp, g'.draft = some temp → (stage j).draft ≠ some temp := by
    intro j hj temp hnew hold
    rcases hdraft temp hnew with hsame | hfresh
    · exact hj (h.distinct j i temp hold hsame)
    · have hthere := (h.drafts j temp hold).2
      have hnone : p.shared temp = none := hfresh
      rw [hnone] at hthere
      cases hthere
  have hlen : (p.advance (Lib.writers program) i
      ⟨job, .step next effect, handles, plan⟩).threads.length = p.threads.length := List.length_set
  have hi : i < p.threads.length := (List.getElem?_eq_some_iff.mp ht).1
  refine ⟨?_, ?_, ?_, ?_, ?_, ?_, ?_⟩
  · intro q hq
    have hnew : (new.map fun e => (i, e)).map Prod.snd = new := by
      simp [Function.comp_def]
    rw [List.map_append, replay_append, hnew]
    exact (hpublic q hq).trans (replay_congr (h.files q hq))
  · intro e he
    rw [hlen]
    rcases List.mem_append.mp he with he | he
    · exact h.writers e he
    · obtain ⟨e', -, rfl⟩ := List.mem_map.mp he
      exact hi
  · intro j
    by_cases hj : j = i
    · rw [hj, Function.update_self, hpublished, h.published, publishedBy_append, publishedBy_self]
    · rw [Function.update_of_ne hj, h.published, publishedBy_append, publishedBy_other hj,
        List.append_nil]
  · intro j hj
    have hne : j ≠ i := by omega
    rw [Function.update_of_ne hne]
    exact h.idle j (hlen ▸ hj)
  · intro j
    by_cases hj : j = i
    · rw [hj, Function.update_self]
      exact hprivate
    · rw [Function.update_of_ne hj]
      intro temp htemp
      obtain ⟨hname, hthere⟩ := h.drafts j temp htemp
      have hsame := hother j hj temp htemp
      exact ⟨hname, (congrArg Option.isSome hsame).trans hthere⟩
  · intro j k temp hdj hdk
    by_cases hj : j = i
    · by_cases hk : k = i
      · exact hj.trans hk.symm
      · rw [hj, Function.update_self] at hdj
        rw [Function.update_of_ne hk] at hdk
        exact absurd hdk (hclash k hk temp hdj)
    · rw [Function.update_of_ne hj] at hdj
      by_cases hk : k = i
      · rw [hk, Function.update_self] at hdk
        exact absurd hdj (hclash j hj temp hdk)
      · rw [Function.update_of_ne hk] at hdk
        exact h.distinct j k temp hdj hdk
  · intro j t' ht'
    by_cases hj : j = i
    · subst hj
      have hset : (p.threads.set j
          ⟨job, next d, (effect d).handles, (effect d).plan⟩)[j]? = some t' := ht'
      rw [List.getElem?_set_self hi] at hset
      cases hset
      rw [Function.update_self]
      exact ⟨hagreed hallowed, hrest⟩
    · have hset : p.threads[j]? = some t' := by
        rw [← ht']
        exact (List.getElem?_set_ne (Ne.symm hj)).symm
      obtain ⟨hallowed', hprogram'⟩ := h.programs j t' hset
      rw [Function.update_of_ne hj]
      refine ⟨hallowed', Publishes.stable ?_ ?_ hprogram'⟩
      · intro r g d d' _ hends
        exact hends
      · exact ⟨rfl, rfl, hother j hj⟩

/-- Each step of the writers adds to the log what it publishes. -/
theorem Staged.step (hallowed : ∀ job, allowed job [])
    (hprogram : ∀ job d, Publishes names (allowed job) (fun r g _ => ends job r g.published)
      (program job) ⟨none, []⟩ d)
    (h : Staged names allowed ends files stage log p) {e : PoolEvent (Writer ι P ε)}
    (hstep : Pool.Step (Lib.writers program) p e p') : ∃ stage' more,
      Staged names allowed ends files stage' (log ++ more) p' := by
  cases hstep with
  | spawn fresh =>
    refine ⟨stage, [], ?_⟩
    rw [List.append_nil]
    exact h.spawn hallowed hprogram fresh
  | run thread unfinished => exact h.run thread unfinished
  | outside outside => exact outside.elim

theorem Staged.steps (hallowed : ∀ job, allowed job [])
    (hprogram : ∀ job d, Publishes names (allowed job) (fun r g _ => ends job r g.published)
      (program job) ⟨none, []⟩ d)
    (h : Staged names allowed ends files stage log p) {es : List (PoolEvent (Writer ι P ε))}
    (hruns : Runs (Pool.Step (Lib.writers program)) p es p') : ∃ stage' more,
      Staged names allowed ends files stage' (log ++ more) p' := by
  induction hruns generalizing stage log with
  | nil => exact ⟨stage, [], by rw [List.append_nil]; exact h⟩
  | cons first _ ih =>
    obtain ⟨stage₁, more, h₁⟩ := h.step hallowed hprogram first
    obtain ⟨stage₂, more', h₂⟩ := ih h₁
    refine ⟨stage₂, more ++ more', ?_⟩
    rw [← List.append_assoc]
    exact h₂

theorem Staged.start (files : FileMap P) :
    Staged names allowed ends files (fun _ => ⟨none, []⟩) []
      (⟨[], files⟩ : Pool (Writer ι P ε) (FileMap P)) where
  files _ _ := rfl
  writers e he := absurd he List.not_mem_nil
  published _ := rfl
  idle _ _ := rfl
  drafts i temp htemp := nomatch htemp
  distinct i j temp htemp := nomatch htemp
  programs i t ht := by simp at ht

/-- However the steps of the writers are interleaved, and wherever each of them stands: there is one
order of all that was published, which grows with every step, and by it the public files are as if
each piece had been written at once. -/
theorem Pool.linearizes (hallowed : ∀ job, allowed job [])
    (hprogram : ∀ job d, Publishes names (allowed job) (fun r g _ => ends job r g.published)
      (program job) ⟨none, []⟩ d)
    {es : List (PoolEvent (Writer ι P ε))}
    (hruns : Runs (Pool.Step (Lib.writers program)) ⟨[], files⟩ es p) : ∃ log,
      Explains names allowed ends files log p ∧
      ∀ es' p', Runs (Pool.Step (Lib.writers program)) p es' p' →
        ∃ more, Explains names allowed ends files (log ++ more) p' := by
  obtain ⟨stage, log, h⟩ := (Staged.start files).steps hallowed hprogram hruns
  refine ⟨log, h.explains, ?_⟩
  intro es' p' hruns'
  obtain ⟨stage', more, h'⟩ := h.steps hallowed hprogram hruns'
  exact ⟨more, h'.explains⟩

omit [DecidableEq P] in
/-- No writer has to wait for another: from wherever it stands it can run to its end, which is that
of its program on the files as it finds them. -/
theorem Pool.ends_alone {i : Nat} {t : Writer ι P ε} (ht : p.threads[i]? = some t) :
    ∃ n p', Runs (Pool.Step (Lib.writers program)) p (List.replicate n (.run i)) p' ∧
      p'.shared = (t.program.toEff.run (t.disk p.shared)).2.files ∧
      (∃ t', p'.threads[i]? = some t' ∧ t'.job = t.job ∧
        t'.program = .done (t.program.toEff.run (t.disk p.shared)).1) ∧
      ∀ j, j ≠ i → p'.threads[j]? = p.threads[j]? := by
  obtain ⟨job, prog, handles, plan⟩ := t
  induction prog generalizing p handles plan with
  | done r => exact ⟨0, p, Runs.nil, rfl, ⟨_, ht, rfl, rfl⟩, fun _ _ => rfl⟩
  | step next effect ih =>
    let d : Disk P ε := ⟨p.shared, handles, plan⟩
    have hunfinished : ¬(Lib.writers program).Finished ⟨job, .step next effect, handles, plan⟩ := by
      rintro ⟨r, hr⟩
      cases hr
    have hi := (List.getElem?_eq_some_iff.mp ht).1
    have hset : (p.advance (Lib.writers program) i
        ⟨job, .step next effect, handles, plan⟩).threads[i]? =
          some ⟨job, next d, (effect d).handles, (effect d).plan⟩ := List.getElem?_set_self hi
    obtain ⟨n, p', hruns, hshared, hended, hothers⟩ := ih d _ _ hset
    refine ⟨n + 1, p', Runs.cons (Pool.Step.run ht hunfinished) hruns, hshared, hended, ?_⟩
    intro j hj
    exact (hothers j hj).trans (List.getElem?_set_ne (Ne.symm hj))

end Pools

end CryptoFlex.Lib
