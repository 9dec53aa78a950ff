import CryptoFlex.Lib.Effect
import Mathlib.Logic.Function.Basic

namespace CryptoFlex.Lib

/-- How one system call goes: what it raises, how many buffered bytes reach the file on the way,
and the number in the name of the file that `mkstemp` tries. -/
structure Outcome (ε : Type) where
  raised : Option ε := none
  moved : Nat := 0
  suffix : Nat := 0

def Outcome.result {ε : Type} (o : Outcome ε) : Except ε Unit :=
  match o.raised with
  | some e => .error e
  | none => .ok ()

theorem Outcome.result_of_none {ε : Type} {o : Outcome ε} (h : o.raised = none) :
    o.result = .ok () := by
  rw [result, h]

theorem Outcome.result_of_some {ε : Type} {o : Outcome ε} {e : ε} (h : o.raised = some e) :
    o.result = .error e := by
  rw [result, h]

/-- The exceptions of calls that the state of the disk rules out. -/
structure OsErrors (ε : Type) where
  fileExists : ε
  noEntry : ε
  closedFile : ε

/-- An open file: its path, and the bytes written to it that are still in memory. -/
structure Handle (P : Type) where
  path : P
  buffer : List UInt8 := []

/-- The files by their paths, the file descriptors in the order of their opening, and how the
coming system calls will go. -/
structure Disk (P ε : Type) where
  files : P → Option (List UInt8)
  handles : List (Option (Handle P)) := []
  plan : Nat → Outcome ε

namespace Disk

variable {P ε : Type}

/-- How the calls after the first `n` go. -/
def after (plan : Nat → Outcome ε) (n : Nat) : Nat → Outcome ε := fun k => plan (n + k)

theorem after_after (plan : Nat → Outcome ε) (n m : Nat) :
    after (after plan n) m = after plan (n + m) := by
  funext k
  rw [after, after, after, Nat.add_assoc]

theorem after_zero (plan : Nat → Outcome ε) : after plan 0 = plan := by
  funext k
  rw [after, Nat.zero_add]

/-- The outcome of the next system call. -/
def next : Eff ε (Disk P ε) (Outcome ε) := ⟨fun d =>
  (.ok (d.plan 0), { d with plan := after d.plan 1 })⟩

/-- A system call that leaves names and contents as they are. -/
def call : Eff ε (Disk P ε) Unit := do
  let o ← next
  Eff.lift o.result

variable [DecidableEq P] (os : OsErrors ε)

/-- A new empty file under a name that no file has, open for writing. -/
def mkstemp (name : Nat → P) : Eff ε (Disk P ε) (Nat × P) := do
  let o ← next
  Eff.lift o.result
  let d ← Eff.get
  let path := name o.suffix
  if (d.files path).isSome then Eff.raise os.fileExists else
  Eff.modify fun d => { d with
    files := Function.update d.files path (some [])
    handles := d.handles ++ [some { path }] }
  return (d.handles.length, path)

/-- The first `k` buffered bytes reach the file. -/
def spill (fd k : Nat) (h : Handle P) : Eff ε (Disk P ε) Unit := Eff.modify fun d => { d with
  files := Function.update d.files h.path ((d.files h.path).map (· ++ h.buffer.take k))
  handles := d.handles.set fd (some { h with buffer := h.buffer.drop k }) }

def handle (fd : Nat) : Eff ε (Disk P ε) (Handle P) := do
  let d ← Eff.get
  match d.handles[fd]? with
  | some (some h) => return h
  | _ => Eff.raise os.closedFile

/-- `f.write(data)`: the bytes are buffered, and some may reach the file at once. -/
def write (fd : Nat) (data : List UInt8) : Eff ε (Disk P ε) Unit := do
  let o ← next
  let h ← handle os fd
  spill fd o.moved { h with buffer := h.buffer ++ data }
  Eff.lift o.result

/-- The bytes that a flush moves: all, unless it raises. -/
def Outcome.flushed (o : Outcome ε) (h : Handle P) : Nat :=
  if o.raised.isSome then o.moved else h.buffer.length

def flush (fd : Nat) : Eff ε (Disk P ε) Unit := do
  let o ← next
  let h ← handle os fd
  spill fd (Outcome.flushed o h) h
  Eff.lift o.result

/-- Closing flushes, and gives the descriptor back even if that raises. A closed file stays as it
is. -/
def close (fd : Nat) : Eff ε (Disk P ε) Unit := do
  let d ← Eff.get
  match d.handles[fd]? with
  | some (some h) =>
    let o ← next
    spill fd (Outcome.flushed o h) h
    Eff.modify fun d => { d with handles := d.handles.set fd none }
    Eff.lift o.result
  | _ => return ()

/-- `os.replace(src, dst)`, in one step. -/
def replace (src dst : P) : Eff ε (Disk P ε) Unit := do
  let o ← next
  Eff.lift o.result
  let d ← Eff.get
  match d.files src with
  | none => Eff.raise os.noEntry
  | some b => Eff.modify fun d => { d with
      files := Function.update (Function.update d.files src none) dst (some b) }

def unlink (path : P) : Eff ε (Disk P ε) Unit := do
  let o ← next
  Eff.lift o.result
  let d ← Eff.get
  match d.files path with
  | none => Eff.raise os.noEntry
  | some _ => Eff.modify fun d => { d with files := Function.update d.files path none }

/-- `open(path, "rb")`. -/
def openRead (path : P) : Eff ε (Disk P ε) Nat := do
  let o ← next
  Eff.lift o.result
  let d ← Eff.get
  if (d.files path).isNone then Eff.raise os.noEntry else
  Eff.modify fun d => { d with handles := d.handles ++ [some { path }] }
  return d.handles.length

/-- `f.read()` of the whole file. -/
def read (fd : Nat) : Eff ε (Disk P ε) (List UInt8) := do
  let o ← next
  let h ← handle os fd
  Eff.lift o.result
  let d ← Eff.get
  match d.files h.path with
  | none => Eff.raise os.noEntry
  | some b => return b

/-- `open(path, "wb")`: the file is created, or emptied. -/
def openWrite (path : P) : Eff ε (Disk P ε) Nat := do
  let o ← next
  Eff.lift o.result
  let d ← Eff.get
  Eff.modify fun d => { d with
    files := Function.update d.files path (some [])
    handles := d.handles ++ [some { path }] }
  return d.handles.length

omit [DecidableEq P] in
theorem call_run (d : Disk P ε) :
    call.run d = ((d.plan 0).result, { d with plan := after d.plan 1 }) := rfl

/-- The disk `d` after `n` more calls, with the new file `path` open. -/
def drafting (d : Disk P ε) (n : Nat) (path : P) (content buffer : List UInt8) : Disk P ε where
  files := Function.update d.files path (some content)
  handles := d.handles ++ [some { path, buffer }]
  plan := after d.plan n

/-- The disk `d` after `n` more calls, with the new file `path` closed. -/
def drafted (d : Disk P ε) (n : Nat) (path : P) (content : List UInt8) : Disk P ε where
  files := Function.update d.files path (some content)
  handles := d.handles ++ [none]
  plan := after d.plan n

theorem mkstemp_run (name : Nat → P) {d : Disk P ε} (hr : (d.plan 0).raised = none)
    (hfresh : d.files (name (d.plan 0).suffix) = none) :
    (mkstemp os name).run d = (.ok (d.handles.length, name (d.plan 0).suffix),
      d.drafting 1 (name (d.plan 0).suffix) [] []) := by
  simp only [mkstemp, next, Outcome.result, Eff.run_bind, hr, Eff.run_lift, Eff.run_get, hfresh]
  rfl

theorem mkstemp_error (name : Nat → P) {d : Disk P ε}
    (h : ¬((d.plan 0).raised = none ∧ d.files (name (d.plan 0).suffix) = none)) :
    ∃ e, (mkstemp os name).run d = (.error e, { d with plan := after d.plan 1 }) := by
  cases hr : (d.plan 0).raised with
  | some e =>
    refine ⟨e, ?_⟩
    simp only [mkstemp, next, Outcome.result, Eff.run_bind, hr, Eff.run_lift]
  | none =>
    obtain ⟨b, hb⟩ := Option.ne_none_iff_exists'.mp fun hfresh => h ⟨hr, hfresh⟩
    refine ⟨os.fileExists, ?_⟩
    simp only [mkstemp, next, Outcome.result, Eff.run_bind, hr, Eff.run_lift, Eff.run_get, hb]
    rfl

theorem call_drafting (d : Disk P ε) (n : Nat) (path : P) (content buffer : List UInt8) :
    call.run (d.drafting n path content buffer) =
      ((d.plan n).result, d.drafting (n + 1) path content buffer) := by
  rw [call_run]
  simp only [drafting, after_after]
  rfl

theorem handle_drafting (d : Disk P ε) (n : Nat) (path : P) (content buffer : List UInt8) :
    (handle os d.handles.length).run (d.drafting n path content buffer) =
      (.ok { path, buffer }, d.drafting n path content buffer) := by
  simp [handle, drafting]

theorem spill_drafting (d : Disk P ε) (n k : Nat) (path : P) (content buffer buffer' : List UInt8) :
    (spill d.handles.length k { path, buffer := buffer' }).run
        (d.drafting n path content buffer) =
      (.ok (), d.drafting n path (content ++ buffer'.take k) (buffer'.drop k)) := by
  simp [spill, drafting]

theorem next_drafting (d : Disk P ε) (n : Nat) (path : P) (content buffer : List UInt8) :
    next.run (d.drafting n path content buffer) =
      (.ok (d.plan n), d.drafting (n + 1) path content buffer) := by
  simp only [next, drafting, after_after]
  rfl

theorem write_drafting (d : Disk P ε) (n : Nat) (path : P) (content buffer data : List UInt8) :
    (write os d.handles.length data).run (d.drafting n path content buffer) =
      ((d.plan n).result, d.drafting (n + 1) path
        (content ++ (buffer ++ data).take (d.plan n).moved)
        ((buffer ++ data).drop (d.plan n).moved)) := by
  unfold write
  rw [Eff.bind_ok (next_drafting d n path content buffer), Eff.bind_ok (handle_drafting os _ _ _ _ _),
    Eff.bind_ok (spill_drafting _ _ _ _ _ _ _)]
  rfl

theorem flush_drafting (d : Disk P ε) (n : Nat) (path : P) (content buffer : List UInt8) :
    (flush os d.handles.length).run (d.drafting n path content buffer) =
      ((d.plan n).result, d.drafting (n + 1) path
        (content ++ buffer.take (Outcome.flushed (d.plan n) { path, buffer }))
        (buffer.drop (Outcome.flushed (d.plan n) { path, buffer }))) := by
  unfold flush
  rw [Eff.bind_ok (next_drafting d n path content buffer), Eff.bind_ok (handle_drafting os _ _ _ _ _),
    Eff.bind_ok (spill_drafting _ _ _ _ _ _ _)]
  rfl

theorem close_drafting (d : Disk P ε) (n : Nat) (path : P) (content buffer : List UInt8) :
    (close d.handles.length).run (d.drafting n path content buffer) =
      ((d.plan n).result, d.drafted (n + 1) path
        (content ++ buffer.take (Outcome.flushed (d.plan n) { path, buffer }))) := by
  have hfd : (d.drafting n path content buffer).handles[d.handles.length]? =
      some (some { path, buffer }) := by
    simp [drafting]
  unfold close
  rw [Eff.run_get_bind, hfd]
  simp only
  rw [Eff.bind_ok (next_drafting d n path content buffer), Eff.bind_ok (spill_drafting _ _ _ _ _ _ _)]
  simp [drafting, drafted]

omit [DecidableEq P] in
/-- A flush that does not raise empties the buffer. -/
theorem flushed_of_none {o : Outcome ε} (h : o.raised = none) (f : Handle P) :
    Outcome.flushed o f = f.buffer.length := by
  simp [Outcome.flushed, h]

theorem replace_drafted {d : Disk P ε} {path : P} (hfresh : d.files path = none) (n : Nat)
    (content : List UInt8) (dst : P) (hr : (d.plan n).raised = none) :
    (replace os path dst).run (d.drafted n path content) = (.ok (), {
      files := Function.update d.files dst (some content)
      handles := d.handles ++ [none]
      plan := after d.plan (n + 1) }) := by
  have hback : Function.update (Function.update d.files path (some content)) path none = d.files := by
    rw [Function.update_idem, ← hfresh, Function.update_eq_self]
  simp [replace, next, Outcome.result, Eff.run_bind, drafted, after_after, after, hr, hback]

/-- A replacement that raises has not replaced anything. -/
theorem replace_raised {src dst : P} {d : Disk P ε} {e : ε} (h : (d.plan 0).raised = some e) :
    (replace os src dst).run d = (.error e, { d with plan := after d.plan 1 }) := by
  simp only [replace, next, Outcome.result, Eff.run_bind, h, Eff.run_lift]

omit [DecidableEq P] in
/-- A frame condition: at most `path` has another content. -/
def OnlyTouches (path : P) (d d' : Disk P ε) : Prop := ∀ q, q ≠ path → d'.files q = d.files q

namespace OnlyTouches

variable {path : P}

omit [DecidableEq P]

theorem refl (d : Disk P ε) : OnlyTouches path d d := fun _ _ => rfl

theorem trans (d d' d'' : Disk P ε) (h : OnlyTouches path d d') (h' : OnlyTouches path d' d'') :
    OnlyTouches path d d'' := fun q hq => (h' q hq).trans (h q hq)

theorem of_update [DecidableEq P] {d d' : Disk P ε} {content : Option (List UInt8)}
    (h : d'.files = Function.update d.files path content) : OnlyTouches path d d' := by
  intro q hq
  rw [h, Function.update_of_ne hq]

theorem unlink [DecidableEq P] (os : OsErrors ε) :
    Eff.Keeps (OnlyTouches path) (unlink os path : Eff ε (Disk P ε) Unit) := by
  apply Eff.Keeps.bind trans (fun _ _ _ => rfl)
  intro o
  apply Eff.Keeps.bind trans (Eff.Keeps.lift refl _)
  intro _ d
  rw [Eff.run_get_bind]
  split
  · exact refl d
  · exact of_update rfl

end OnlyTouches

section Open

variable {d : Disk P ε} {fd : Nat} {path : P} {c : List UInt8}

/-- The disk after a call that moved the first `k` buffered bytes of the open file `h`. -/
def spilled (d : Disk P ε) (fd k : Nat) (h : Handle P) : Disk P ε where
  files := Function.update d.files h.path ((d.files h.path).map (· ++ h.buffer.take k))
  handles := d.handles.set fd (some { h with buffer := h.buffer.drop k })
  plan := after d.plan 1

omit [DecidableEq P] in
theorem handle_open {h : Handle P} (hfd : d.handles[fd]? = some (some h)) :
    (handle os fd).run d = (.ok h, d) := by
  simp [handle, hfd]

omit [DecidableEq P] in
theorem handle_closed (hfd : ∀ h, d.handles[fd]? ≠ some (some h)) :
    (handle os fd).run d = (.error os.closedFile, d) := by
  rcases hat : d.handles[fd]? with _ | (_ | h)
  · simp [handle, hat]
  · simp [handle, hat]
  · exact absurd hat (hfd h)

omit [DecidableEq P] in
/-- The calls on a descriptor look it up first. -/
theorem onHandle_open {α : Type} {h : Handle P} (hfd : d.handles[fd]? = some (some h))
    (f : Outcome ε → Handle P → Eff ε (Disk P ε) α) :
    (next >>= fun o => handle os fd >>= f o).run d =
      (f (d.plan 0) h).run { d with plan := after d.plan 1 } := by
  have hhandle : (handle os fd).run { d with plan := after d.plan 1 } =
      (.ok h, { d with plan := after d.plan 1 }) := handle_open os hfd
  rw [Eff.bind_ok (rfl : next.run d = _), Eff.bind_ok hhandle]

omit [DecidableEq P] in
/-- What uses a file that is not open raises. -/
theorem onHandle_closed {α : Type} (hfd : d.handles[fd]? = some none)
    (f : Outcome ε → Handle P → Eff ε (Disk P ε) α) :
    (next >>= fun o => handle os fd >>= f o).run d =
      (.error os.closedFile, { d with plan := after d.plan 1 }) := by
  have hhandle : (handle os fd).run { d with plan := after d.plan 1 } =
      (.error os.closedFile, { d with plan := after d.plan 1 }) := by
    apply handle_closed
    simp [hfd]
  rw [Eff.bind_ok (rfl : next.run d = _), Eff.bind_error hhandle]

theorem write_run {h : Handle P} (hfd : d.handles[fd]? = some (some h)) (data : List UInt8) :
    (write os fd data).run d = ((d.plan 0).result,
      d.spilled fd (d.plan 0).moved { h with buffer := h.buffer ++ data }) := by
  unfold write
  rw [onHandle_open os hfd]
  rfl

theorem flush_run {h : Handle P} (hfd : d.handles[fd]? = some (some h)) :
    (flush os fd).run d = ((d.plan 0).result,
      d.spilled fd (Outcome.flushed (d.plan 0) h) h) := by
  unfold flush
  rw [onHandle_open os hfd]
  rfl

theorem close_run {h : Handle P} (hfd : d.handles[fd]? = some (some h)) :
    (close fd).run d = ((d.plan 0).result,
      { d.spilled fd (Outcome.flushed (d.plan 0) h) h with
        handles := d.handles.set fd none }) := by
  have hset : (d.spilled fd (Outcome.flushed (d.plan 0) h) h).handles.set fd none =
      d.handles.set fd none := by
    simp [spilled]
  unfold close
  rw [Eff.run_get_bind, hfd, ← hset]
  rfl

/-- Closing a file that has nothing buffered leaves the files as they are. -/
theorem close_unbuffered (hfd : d.handles[fd]? = some (some { path })) :
    (close fd).run d = ((d.plan 0).result,
      { d with handles := d.handles.set fd none, plan := after d.plan 1 }) := by
  rw [close_run hfd]
  simp [spilled]

theorem flush_closed (hfd : d.handles[fd]? = some none) :
    (flush os fd).run d = (.error os.closedFile, { d with plan := after d.plan 1 }) :=
  onHandle_closed os hfd _

theorem write_closed (hfd : d.handles[fd]? = some none) (data : List UInt8) :
    (write os fd data).run d = (.error os.closedFile, { d with plan := after d.plan 1 }) :=
  onHandle_closed os hfd _

theorem close_closed (hfd : d.handles[fd]? = some none) :
    (close fd).run d = (.ok (), d) := by
  unfold close
  rw [Eff.run_get_bind, hfd]
  rfl

omit [DecidableEq P] in
theorem openRead_post (d : Disk P ε) (path : P) :
    Eff.Post (openRead os path) d fun r d' => match r with
      | .ok fd => fd = d.handles.length ∧ (d.plan 0).raised = none ∧ (d.files path).isSome ∧
        d' = { d with handles := d.handles ++ [some { path }], plan := after d.plan 1 }
      | .error _ => ((d.plan 0).raised.isSome ∨ d.files path = none) ∧
        d' = { d with plan := after d.plan 1 } := by
  unfold Eff.Post openRead
  cases hr : (d.plan 0).raised with
  | some e => simp [next, Outcome.result, Eff.run_bind, hr]
  | none =>
    cases hfile : d.files path with
    | none => simp [next, Outcome.result, Eff.run_bind, hr, hfile]
    | some b => simp [next, Outcome.result, Eff.run_bind, hr, hfile]

theorem openWrite_post (d : Disk P ε) (path : P) :
    Eff.Post (openWrite path) d fun r d' => match r with
      | .ok fd => fd = d.handles.length ∧ d' = {
          files := Function.update d.files path (some [])
          handles := d.handles ++ [some { path }]
          plan := after d.plan 1 }
      | .error _ => d' = { d with plan := after d.plan 1 } := by
  unfold Eff.Post openWrite
  cases hr : (d.plan 0).raised with
  | some e => simp [next, Outcome.result, Eff.run_bind, hr]
  | none => simp [next, Outcome.result, Eff.run_bind, hr]

omit [DecidableEq P] in
theorem read_post {h : Handle P} (hfd : d.handles[fd]? = some (some h)) :
    Eff.Post (read os fd) d fun r d' => d' = { d with plan := after d.plan 1 } ∧
      ∀ b, r = .ok b → d.files h.path = some b := by
  unfold Eff.Post read
  rw [onHandle_open os hfd]
  cases hr : (d.plan 0).raised with
  | some e => simp [Outcome.result, hr]
  | none =>
    cases hfile : d.files h.path with
    | none => simp [Outcome.result, hr, hfile]
    | some b => simp [Outcome.result, hr, hfile]

/-- The file `path` is open as `fd`; with what is still buffered it holds `c`. -/
def Drafts (d : Disk P ε) (fd : Nat) (path : P) (c : List UInt8) : Prop :=
  ∃ content buffer, d.files path = some content ∧
    d.handles[fd]? = some (some { path, buffer }) ∧ content ++ buffer = c

theorem Drafts.spilled {content buffer : List UInt8} (hfile : d.files path = some content)
    {h : Option (Handle P)} (hfd : d.handles[fd]? = some h) (k : Nat) :
    (d.spilled fd k { path, buffer }).Drafts fd path (content ++ buffer) := by
  have hlt := (List.getElem?_eq_some_iff.mp hfd).1
  refine ⟨content ++ buffer.take k, buffer.drop k, ?_, ?_, ?_⟩
  · simp [Disk.spilled, hfile]
  · simp [Disk.spilled, hlt]
  · rw [List.append_assoc, List.take_append_drop]

theorem Drafts.write (h : d.Drafts fd path c) (data : List UInt8) :
    Eff.Post (write os fd data) d fun _ d' => d'.Drafts fd path (c ++ data) := by
  obtain ⟨content, buffer, hfile, hfd, rfl⟩ := h
  apply Eff.Post.of_eq (write_run os hfd data)
  rw [List.append_assoc]
  exact Drafts.spilled hfile hfd _

theorem Drafts.flush (h : d.Drafts fd path c) :
    Eff.Post (flush os fd) d fun _ d' => d'.Drafts fd path c := by
  obtain ⟨content, buffer, hfile, hfd, rfl⟩ := h
  apply Eff.Post.of_eq (flush_run os hfd)
  exact Drafts.spilled hfile hfd _

/-- A close that returns leaves the whole content in the file. -/
theorem Drafts.close (h : d.Drafts fd path c) :
    Eff.Post (close fd) d fun r d' => r = .ok () → d'.files path = some c := by
  obtain ⟨content, buffer, hfile, hfd, rfl⟩ := h
  apply Eff.Post.of_eq (close_run hfd)
  intro hr
  have hnone : (d.plan 0).raised = none := by
    cases hraised : (d.plan 0).raised with
    | none => rfl
    | some e =>
      rw [Outcome.result_of_some hraised] at hr
      cases hr
  simp [Disk.spilled, hfile, flushed_of_none hnone]

omit [DecidableEq P] in
theorem Drafts.unique {c' : List UInt8} (h : d.Drafts fd path c) (h' : d.Drafts fd path c') :
    c = c' := by
  obtain ⟨content, buffer, hfile, hfd, rfl⟩ := h
  obtain ⟨content', buffer', hfile', hfd', rfl⟩ := h'
  rw [hfile] at hfile'
  rw [hfd] at hfd'
  cases hfile'
  cases hfd'
  rfl

omit [DecidableEq P] in
/-- Only the state of `fd` and the outcomes of coming calls may change. -/
theorem Drafts.of_eq {d' : Disk P ε} (h : d.Drafts fd path c) (hfiles : d'.files path = d.files path)
    (hfd : d'.handles[fd]? = d.handles[fd]?) : d'.Drafts fd path c := by
  obtain ⟨content, buffer, hfile, hhandle, hc⟩ := h
  exact ⟨content, buffer, hfiles.trans hfile, hfd.trans hhandle, hc⟩

/-- The file `path` was opened as `fd`, which may be closed by now. -/
def Owns (d : Disk P ε) (fd : Nat) (path : P) : Prop :=
  (d.files path).isSome ∧ ∃ h, d.handles[fd]? = some h ∧ ∀ f, h = some f → f.path = path

omit [DecidableEq P] in
theorem Drafts.owns (h : d.Drafts fd path c) : d.Owns fd path := by
  obtain ⟨content, buffer, hfile, hfd, -⟩ := h
  refine ⟨by rw [hfile]; rfl, _, hfd, ?_⟩
  rintro f hf
  cases hf
  rfl

/-- A frame condition: who was given the open file `fd` of `path` touches no other file and no
other descriptor. -/
def Confined (fd : Nat) (path : P) (d d' : Disk P ε) : Prop :=
  d.Owns fd path → d'.Owns fd path ∧ OnlyTouches path d d' ∧
    ∃ h, d'.handles = d.handles.set fd h

namespace Confined

omit [DecidableEq P] in
theorem refl (d : Disk P ε) : Confined fd path d d := by
  intro howns
  obtain ⟨-, h, hfd, -⟩ := id howns
  refine ⟨howns, OnlyTouches.refl d, h, ?_⟩
  obtain ⟨hlt, hget⟩ := List.getElem?_eq_some_iff.mp hfd
  rw [← hget, List.set_getElem_self]

omit [DecidableEq P] in
theorem trans (d d' d'' : Disk P ε) (h : Confined fd path d d') (h' : Confined fd path d' d'') :
    Confined fd path d d'' := by
  intro howns
  obtain ⟨howns', htouch, f, hf⟩ := h howns
  obtain ⟨howns'', htouch', f', hf'⟩ := h' howns'
  refine ⟨howns'', OnlyTouches.trans _ _ _ htouch htouch', f', ?_⟩
  rw [hf', hf, List.set_set]

omit [DecidableEq P] in
theorem plan (d : Disk P ε) (plan : Nat → Outcome ε) : Confined fd path d { d with plan } :=
  refl d

omit [DecidableEq P] in
theorem call : Eff.Keeps (Confined fd path) (call : Eff ε (Disk P ε) Unit) :=
  fun d => plan d _

/-- What a call does to its own file and its own descriptor. -/
theorem of_update {d' : Disk P ε} {g : Option (List UInt8) → Option (List UInt8)}
    {h : Option (Handle P)} (hg : ∀ b, b.isSome → (g b).isSome) (hh : ∀ f, h = some f → f.path = path)
    (hfiles : d'.files = Function.update d.files path (g (d.files path)))
    (hhandles : d'.handles = d.handles.set fd h) : Confined fd path d d' := by
  rintro ⟨hfile, h', hfd, -⟩
  have hlt := (List.getElem?_eq_some_iff.mp hfd).1
  refine ⟨⟨?_, h, ?_, hh⟩, OnlyTouches.of_update hfiles, h, hhandles⟩
  · rw [hfiles, Function.update_self]
    exact hg _ hfile
  · rw [hhandles]
    simp [hlt]

theorem spilled {h : Handle P} (hpath : h.path = path) (k : Nat) :
    Confined fd path d (d.spilled fd k h) := by
  subst hpath
  apply of_update (g := fun b => b.map (· ++ h.buffer.take k)) _ _ rfl rfl
  · intro b hb
    rw [Option.isSome_map]
    exact hb
  · rintro f hf
    cases hf
    rfl

theorem write (data : List UInt8) : Eff.Keeps (Confined fd path) (write os fd data) := by
  intro d howns
  obtain ⟨-, h, hfd, hpath⟩ := id howns
  cases h with
  | none =>
    rw [write_closed os hfd data]
    exact plan d _ howns
  | some f =>
    rw [write_run os hfd data]
    exact spilled (h := { f with buffer := f.buffer ++ data }) (hpath f rfl) _ howns

theorem flush : Eff.Keeps (Confined fd path) (flush os fd) := by
  intro d howns
  obtain ⟨-, h, hfd, hpath⟩ := id howns
  cases h with
  | none =>
    rw [flush_closed os hfd]
    exact plan d _ howns
  | some f =>
    rw [flush_run os hfd]
    exact spilled (hpath f rfl) _ howns

theorem close : Eff.Keeps (Confined fd path) (close fd : Eff ε (Disk P ε) Unit) := by
  intro d howns
  obtain ⟨-, h, hfd, hpath⟩ := id howns
  cases h with
  | none =>
    rw [close_closed hfd]
    exact refl d howns
  | some f =>
    have hf := hpath f rfl
    rw [close_run hfd]
    subst hf
    refine of_update (g := fun b => b.map (· ++ f.buffer.take (Outcome.flushed (d.plan 0) f)))
      (h := none) ?_ nofun rfl rfl howns
    intro b hb
    rw [Option.isSome_map]
    exact hb

end Confined

end Open

section Descriptors

variable {d : Disk P ε} {fd : Nat}

def IsOpen (d : Disk P ε) (fd : Nat) : Prop := ∃ h, d.handles[fd]? = some (some h)

/-- Which descriptors are open, in the order of their opening. -/
def table (d : Disk P ε) : List Bool := d.handles.map Option.isSome

omit [DecidableEq P] in
theorem isOpen_iff : d.IsOpen fd ↔ d.table[fd]? = some true := by
  unfold IsOpen table
  rw [List.getElem?_map]
  constructor
  · rintro ⟨h, hfd⟩
    rw [hfd]
    rfl
  · intro htable
    rcases hfd : d.handles[fd]? with _ | (_ | h)
    · rw [hfd] at htable
      cases htable
    · rw [hfd] at htable
      cases htable
    · exact ⟨h, rfl⟩

/-- A frame condition: no descriptor is opened or closed. -/
def SameTable (d d' : Disk P ε) : Prop := d'.table = d.table

namespace SameTable

omit [DecidableEq P]

theorem refl (d : Disk P ε) : SameTable d d := rfl

theorem trans (d d' d'' : Disk P ε) (h : SameTable d d') (h' : SameTable d' d'') :
    SameTable d d'' := Eq.trans h' h

theorem next : Eff.Keeps SameTable (next : Eff ε (Disk P ε) (Outcome ε)) := fun _ => rfl

variable [DecidableEq P]

/-- Moving buffered bytes leaves an open file open. -/
theorem spill {h : Handle P} (hopen : d.IsOpen fd) (k : Nat) :
    SameTable d ((spill fd k h).run d).2 := by
  obtain ⟨h', hfd⟩ := hopen
  obtain ⟨hlt, hget⟩ := List.getElem?_eq_some_iff.mp hfd
  change (d.handles.set fd _).map Option.isSome = d.handles.map Option.isSome
  rw [List.map_set]
  apply List.ext_getElem?
  intro i
  by_cases hi : fd = i
  · subst hi
    simp [hlt, hget]
  · rw [List.getElem?_set_ne hi]

omit [DecidableEq P] in
/-- The calls that look a descriptor up go on only when it is open. -/
theorem ofHandle {α : Type} {f : Handle P → Eff ε (Disk P ε) α}
    (hf : ∀ d h, d.IsOpen fd → SameTable d ((f h).run d).2) :
    Eff.Keeps SameTable (handle os fd >>= f) := by
  intro d
  by_cases hopen : d.IsOpen fd
  · obtain ⟨h, hfd⟩ := id hopen
    rw [Eff.bind_ok (handle_open os hfd)]
    exact hf d h hopen
  · have hclosed : ∀ h, d.handles[fd]? ≠ some (some h) := fun h hfd => hopen ⟨h, hfd⟩
    rw [Eff.bind_error (handle_closed os hclosed)]
    rfl

omit [DecidableEq P] in
theorem handle : Eff.Keeps SameTable (handle os fd : Eff ε (Disk P ε) (Handle P)) := by
  intro d
  unfold Disk.handle
  rw [Eff.run_get_bind]
  split
  · rfl
  · rfl

theorem write (data : List UInt8) : Eff.Keeps SameTable (write os fd data : Eff ε (Disk P ε) Unit) := by
  apply Eff.Keeps.bind trans next
  intro o
  apply ofHandle
  intro d h hopen
  exact spill hopen _

theorem flush : Eff.Keeps SameTable (flush os fd : Eff ε (Disk P ε) Unit) := by
  apply Eff.Keeps.bind trans next
  intro o
  apply ofHandle
  intro d h hopen
  exact spill hopen _

omit [DecidableEq P] in
theorem read : Eff.Keeps SameTable (read os fd : Eff ε (Disk P ε) (List UInt8)) := by
  apply Eff.Keeps.bind trans next
  intro o
  apply ofHandle
  intro d h _
  refine Eff.Keeps.bind trans (Eff.Keeps.lift refl _) ?_ d
  intro _ d
  rw [Eff.run_get_bind]
  split
  · rfl
  · rfl

theorem replace (src dst : P) : Eff.Keeps SameTable (replace os src dst : Eff ε (Disk P ε) Unit) := by
  apply Eff.Keeps.bind trans next
  intro o
  apply Eff.Keeps.bind trans (Eff.Keeps.lift refl _)
  intro _ d
  rw [Eff.run_get_bind]
  split
  · rfl
  · rfl

theorem unlink (path : P) : Eff.Keeps SameTable (unlink os path : Eff ε (Disk P ε) Unit) := by
  apply Eff.Keeps.bind trans next
  intro o
  apply Eff.Keeps.bind trans (Eff.Keeps.lift refl _)
  intro _ d
  rw [Eff.run_get_bind]
  split
  · rfl
  · rfl

end SameTable

/-- Closing an open file closes its descriptor and no other, whether it raises or not. -/
theorem close_table (hopen : d.table[fd]? = some true) :
    ((close fd).run d).2.table = d.table.set fd false := by
  obtain ⟨h, hfd⟩ := isOpen_iff.mpr hopen
  rw [close_run hfd]
  change (d.handles.set fd none).map Option.isSome = (d.handles.map Option.isSome).set fd false
  rw [List.map_set]
  rfl

/-- A frame condition: what stands at the descriptor `fd` stays there. -/
def Spares (fd : Nat) (d d' : Disk P ε) : Prop :=
  ∀ h, d.handles[fd]? = some h → d'.handles[fd]? = some h

namespace Spares

omit [DecidableEq P]

theorem refl (d : Disk P ε) : Spares fd d d := fun _ h => h

theorem trans (d d' d'' : Disk P ε) (h : Spares fd d d') (h' : Spares fd d' d'') :
    Spares fd d d'' := fun handle hfd => h' handle (h handle hfd)

theorem call : Eff.Keeps (Spares fd) (call : Eff ε (Disk P ε) Unit) := fun _ _ h => h

theorem next : Eff.Keeps (Spares fd) (next : Eff ε (Disk P ε) (Outcome ε)) := fun _ _ h => h

variable [DecidableEq P]

theorem mkstemp (name : Nat → P) :
    Eff.Keeps (Spares fd) (mkstemp os name : Eff ε (Disk P ε) (Nat × P)) := by
  apply Eff.Keeps.bind trans next
  intro o
  apply Eff.Keeps.bind trans (Eff.Keeps.lift refl _)
  intro _ d h hfd
  rw [Eff.run_get_bind]
  dsimp only
  split
  · exact hfd
  · have hlt := (List.getElem?_eq_some_iff.mp hfd).1
    exact (List.getElem?_append_left hlt).trans hfd

theorem replace (src dst : P) :
    Eff.Keeps (Spares fd) (replace os src dst : Eff ε (Disk P ε) Unit) := by
  apply Eff.Keeps.bind trans next
  intro o
  apply Eff.Keeps.bind trans (Eff.Keeps.lift refl _)
  intro _ d h hfd
  rw [Eff.run_get_bind]
  split
  · exact hfd
  · exact hfd

theorem unlink (path : P) :
    Eff.Keeps (Spares fd) (unlink os path : Eff ε (Disk P ε) Unit) := by
  apply Eff.Keeps.bind trans next
  intro o
  apply Eff.Keeps.bind trans (Eff.Keeps.lift refl _)
  intro _ d h hfd
  rw [Eff.run_get_bind]
  split
  · exact hfd
  · exact hfd

end Spares

end Descriptors

/-- Only the first `k` calls go as planned; none after them does anything. -/
def interrupt (k : Nat) (e : ε) (d : Disk P ε) : Disk P ε :=
  { d with plan := fun n => if n < k then d.plan n else { raised := some e } }

omit [DecidableEq P] in
theorem interrupt_files (k : Nat) (e : ε) (d : Disk P ε) : (interrupt k e d).files = d.files := rfl

end Disk

end CryptoFlex.Lib
