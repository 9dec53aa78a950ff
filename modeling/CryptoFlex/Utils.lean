import CryptoFlex.Runtime
import Mathlib.Algebra.BigOperators.Group.List.Basic

namespace CryptoFlex

open Lib

/-- The bytes of the process, by address. -/
abbrev Memory := Nat → UInt8

/-- The two behaviours of `len()` on a memoryview without dimensions. -/
inductive PythonVersion
  | upTo311
  | from312
  deriving DecidableEq

/-- A memoryview; `shape` counts items, in the order of the dimensions. -/
structure MemoryView where
  start : Nat
  itemsize : Nat
  shape : List Nat
  readonly : Bool
  cContiguous : Bool
  deriving DecidableEq

namespace MemoryView

/-- `view.nbytes`. -/
def nbytes (v : MemoryView) : Nat := v.shape.prod * v.itemsize

/-- `len(view)`. -/
def len (py : PythonVersion) (v : MemoryView) : Except Exc Nat :=
  match v.shape with
  | n :: _ => .ok n
  | [] =>
    match py with
    | .upTo311 => .ok 1
    | .from312 => .error .typeError

end MemoryView

/-- The arguments of `zeroize`: a bytearray's bytes are those of the memory from `start` on. -/
inductive Buffer
  | bytearray (start length : Nat)
  | memoryview (view : MemoryView)
  | other

namespace Ctypes

/-- `T.from_buffer(view)` for a type of `size` bytes: the address of the object. -/
def fromBuffer (size : Nat) (v : MemoryView) : Except Exc Nat :=
  if v.readonly then .error .typeError
  else if ¬v.cContiguous then .error .typeError
  else if v.nbytes < size then
    .error (.valueError
      s!"Buffer size too small ({v.nbytes} instead of at least {size} bytes)")
  else .ok v.start

/-- `ctypes.memset(address, value, count)`. -/
def memset (address : Nat) (value : UInt8) (count : Nat) : Eff Exc Memory Unit :=
  Eff.modify fun mem a => if address ≤ a ∧ a < address + count then value else mem a

end Ctypes

/-- The view that the buffer protocol gives of a bytearray. -/
def bytearrayView (start length : Nat) : MemoryView where
  start := start
  itemsize := 1
  shape := [length]
  readonly := false
  cContiguous := true

def zeroize (py : PythonVersion) (buffer : Buffer) : Eff Exc Memory Unit :=
  match buffer with
  | .bytearray start length => do
    let cBuf ← Eff.lift (Ctypes.fromBuffer length (bytearrayView start length))
    Ctypes.memset cBuf 0 length
  | .memoryview v =>
    if ¬v.readonly then do
      let address ← Eff.lift (Ctypes.fromBuffer 1 v)
      -- the count is in items, where the memory is wiped in bytes
      let count ← Eff.lift (v.len py)
      Ctypes.memset address 0 count
    else return ()
  | .other => return ()

/-- The region is zero, and the rest of the memory is as it was. -/
structure WipedRegion (start nbytes : Nat) (mem mem' : Memory) : Prop where
  zero : ∀ a, start ≤ a → a < start + nbytes → mem' a = 0
  same : ∀ a, a < start ∨ start + nbytes ≤ a → mem' a = mem a

/-- `zeroize` returns, and the region it was given is wiped. -/
def Zeroizes (py : PythonVersion) (buffer : Buffer) (start nbytes : Nat) (mem : Memory) : Prop :=
  ∃ mem', (zeroize py buffer).run mem = (.ok (), mem') ∧ WipedRegion start nbytes mem mem'

/-- A fill of the first `count` bytes wipes the region when the others are zero already. -/
theorem wipedRegion_memset {start nbytes count : Nat} (hcount : count ≤ nbytes) {mem : Memory} :
    WipedRegion start nbytes mem
        (fun a => if start ≤ a ∧ a < start + count then 0 else mem a) ↔
      ∀ a, start + count ≤ a → a < start + nbytes → mem a = 0 := by
  constructor
  · intro h a hlow hhigh
    have hzero := h.zero a (by omega) hhigh
    rw [if_neg (by omega)] at hzero
    exact hzero
  · intro h
    constructor
    · intro a hlow hhigh
      by_cases hfill : a < start + count
      · exact if_pos ⟨hlow, hfill⟩
      · rw [if_neg (by omega)]
        exact h a (by omega) hhigh
    · intro a hout
      exact if_neg (by omega)

theorem zeroize_bytearray (py : PythonVersion) (start length : Nat) (mem : Memory) :
    Zeroizes py (.bytearray start length) start length mem := by
  have hfrom : Ctypes.fromBuffer length (bytearrayView start length) = .ok start := by
    simp [Ctypes.fromBuffer, bytearrayView, MemoryView.nbytes]
  refine ⟨fun a => if start ≤ a ∧ a < start + length then 0 else mem a, ?_, ?_⟩
  · rw [zeroize, hfrom]
    rfl
  · rw [wipedRegion_memset le_rfl]
    intro a hlow hhigh
    omega

/-- The bytes of a bytearray. -/
def Memory.read (mem : Memory) (start length : Nat) : Bytes :=
  (List.range length).map fun i => mem (start + i)

/-- What `Runtime.zeroize` does to the contents of a bytearray. -/
theorem zeroize_bytearray_read (py : PythonVersion) (start length : Nat) (mem : Memory) :
    ∃ mem', (zeroize py (.bytearray start length)).run mem = (.ok (), mem') ∧
      Memory.read mem' start length =
        List.replicate (Memory.read mem start length).length 0 := by
  obtain ⟨mem', hrun, hregion⟩ := zeroize_bytearray py start length mem
  refine ⟨mem', hrun, ?_⟩
  have hlen : (Memory.read mem start length).length = length := by simp [Memory.read]
  rw [hlen, List.eq_replicate_iff]
  constructor
  · simp [Memory.read]
  · intro x hx
    obtain ⟨i, hi, hval⟩ := List.mem_map.mp hx
    have hlt := List.mem_range.mp hi
    rw [← hval]
    exact hregion.zero (start + i) (by omega) (by omega)

section View

variable {py : PythonVersion} {v : MemoryView}

theorem MemoryView.fromBuffer_ok (hw : v.readonly = false) (hc : v.cContiguous = true)
    (hn : 1 ≤ v.nbytes) : Ctypes.fromBuffer 1 v = .ok v.start := by
  have hsize : ¬v.nbytes < 1 := by omega
  simp [Ctypes.fromBuffer, hw, hc, hsize]

theorem MemoryView.fromBuffer_empty (hw : v.readonly = false) (hc : v.cContiguous = true)
    (hn : v.nbytes = 0) : ∃ m, Ctypes.fromBuffer 1 v = .error (.valueError m) := by
  simp [Ctypes.fromBuffer, hw, hc, hn]

/-- A view of at least one byte has no more items along its first dimension than bytes. -/
theorem MemoryView.len_le (hn : 1 ≤ v.nbytes) {n : Nat} (h : v.len py = .ok n) :
    n ≤ v.nbytes := by
  unfold len at h
  split at h
  · next first rest hshape =>
    cases h
    have hrow : 1 ≤ rest.prod * v.itemsize := by
      by_contra hzero
      have hnone : rest.prod * v.itemsize = 0 := by omega
      rw [nbytes, hshape, List.prod_cons, Nat.mul_assoc, hnone, Nat.mul_zero] at hn
      omega
    rw [nbytes, hshape, List.prod_cons, Nat.mul_assoc]
    exact Nat.le_mul_of_pos_right n hrow
  · split at h
    · cases h
      exact hn
    · cases h

theorem zeroize_view (hw : v.readonly = false) (hc : v.cContiguous = true) (mem : Memory) :
    Zeroizes py (.memoryview v) v.start v.nbytes mem ↔
      1 ≤ v.nbytes ∧ ∃ n, v.len py = .ok n ∧
        ∀ a, v.start + n ≤ a → a < v.start + v.nbytes → mem a = 0 := by
  have hbody : zeroize py (.memoryview v) = (do
      let address ← Eff.lift (Ctypes.fromBuffer 1 v)
      let count ← Eff.lift (v.len py)
      Ctypes.memset address 0 count) := by
    rw [zeroize, if_pos (by simp [hw])]
  by_cases hn : 1 ≤ v.nbytes
  · cases hlen : v.len py with
    | error e =>
      constructor
      · rintro ⟨mem', hrun, -⟩
        rw [hbody, MemoryView.fromBuffer_ok hw hc hn, hlen] at hrun
        cases hrun
      · rintro ⟨-, n, hn', -⟩
        cases hn'
    | ok n =>
      have hrun : (zeroize py (.memoryview v)).run mem =
          (.ok (), fun a => if v.start ≤ a ∧ a < v.start + n then 0 else mem a) := by
        rw [hbody, MemoryView.fromBuffer_ok hw hc hn, hlen]
        rfl
      have hwiped := @wipedRegion_memset v.start v.nbytes n (MemoryView.len_le hn hlen) mem
      constructor
      · rintro ⟨mem', hrun', hregion⟩
        rw [hrun] at hrun'
        obtain ⟨-, rfl⟩ := Prod.mk.inj hrun'
        exact ⟨hn, n, rfl, hwiped.mp hregion⟩
      · rintro ⟨-, n', hn', hrest⟩
        cases hn'
        exact ⟨_, hrun, hwiped.mpr hrest⟩
  · constructor
    · rintro ⟨mem', hrun, -⟩
      obtain ⟨m, hraise⟩ := MemoryView.fromBuffer_empty hw hc (by omega)
      rw [hbody, hraise] at hrun
      cases hrun
    · rintro ⟨hn', -⟩
      exact absurd hn' hn

/-- There is an item along the first dimension, and each is a single byte. -/
def MemoryView.RowsOfOneByte (py : PythonVersion) (v : MemoryView) : Prop :=
  match v.shape with
  | n :: rest => 1 ≤ n ∧ rest.prod * v.itemsize = 1
  | [] => py = .upTo311 ∧ v.itemsize = 1

theorem MemoryView.rowsOfOneByte_iff :
    v.RowsOfOneByte py ↔ 1 ≤ v.nbytes ∧ v.len py = .ok v.nbytes := by
  unfold RowsOfOneByte len nbytes
  cases v.shape with
  | nil =>
    cases py with
    | upTo311 =>
      simp only [List.prod_nil, Nat.one_mul, true_and, Except.ok.injEq]
      omega
    | from312 => simp
  | cons n rest =>
    simp only [List.prod_cons, Nat.mul_assoc, Except.ok.injEq]
    constructor
    · rintro ⟨hn, hrow⟩
      rw [hrow, Nat.mul_one]
      exact ⟨hn, rfl⟩
    · rintro ⟨hpos, hlen⟩
      have hn : 1 ≤ n := by omega
      refine ⟨hn, ?_⟩
      have hmul : n * (rest.prod * v.itemsize) = n * 1 := by omega
      exact Nat.eq_of_mul_eq_mul_left (by omega) hmul

/-- Whatever the view holds, it is wiped exactly when `len` counts its bytes. -/
theorem zeroize_view_always (hw : v.readonly = false) (hc : v.cContiguous = true) :
    (∀ mem, Zeroizes py (.memoryview v) v.start v.nbytes mem) ↔ v.RowsOfOneByte py := by
  rw [MemoryView.rowsOfOneByte_iff]
  constructor
  · intro h
    obtain ⟨hn, n, hlen, hrest⟩ := (zeroize_view hw hc _).mp (h fun _ => 1)
    have hle := MemoryView.len_le hn hlen
    by_cases hlt : n < v.nbytes
    · have hone := hrest (v.start + n) le_rfl (by omega)
      cases hone
    · have heq : n = v.nbytes := by omega
      exact ⟨hn, by rw [hlen, heq]⟩
  · rintro ⟨hn, hlen⟩ mem
    exact (zeroize_view hw hc mem).mpr ⟨hn, v.nbytes, hlen, fun a hlow hhigh => by omega⟩

end View

/-- Every bytearray is wiped. A writable view in C order is wiped exactly when it has a byte and
what lies behind as many bytes as it has items along its first dimension is zero already; so it is
wiped whatever it holds exactly when these items are single bytes. -/
theorem zeroize_wipes_iff (py : PythonVersion) :
    (∀ start length mem, Zeroizes py (.bytearray start length) start length mem) ∧
    ∀ v : MemoryView, v.readonly = false → v.cContiguous = true →
      (∀ mem, Zeroizes py (.memoryview v) v.start v.nbytes mem ↔
        1 ≤ v.nbytes ∧ ∃ n, v.len py = .ok n ∧
          ∀ a, v.start + n ≤ a → a < v.start + v.nbytes → mem a = 0) ∧
      ((∀ mem, Zeroizes py (.memoryview v) v.start v.nbytes mem) ↔ v.RowsOfOneByte py) :=
  ⟨zeroize_bytearray py, fun _ hw hc => ⟨zeroize_view hw hc, zeroize_view_always hw hc⟩⟩

/-- `memoryview(bytearray(3))`. -/
def byteView : MemoryView where
  start := 0
  itemsize := 1
  shape := [3]
  readonly := false
  cContiguous := true

theorem zeroize_wipes_iff_byteView :
    Zeroizes .from312 (.memoryview byteView) 0 3 fun _ => 1 :=
  (((zeroize_wipes_iff .from312).2 byteView rfl rfl).2.mpr ⟨by decide, rfl⟩) fun _ => 1

/-- `memoryview(bytearray(8)).cast("I")`. -/
def wordView : MemoryView where
  start := 0
  itemsize := 4
  shape := [2]
  readonly := false
  cContiguous := true

/-- `memoryview(bytearray())`. -/
def emptyView : MemoryView where
  start := 0
  itemsize := 1
  shape := [0]
  readonly := false
  cContiguous := true

/-- Two of eight bytes are wiped in the one; the other, without a byte, raises. -/
theorem zeroize_wordView :
    (∃ mem', (zeroize .from312 (.memoryview wordView)).run (fun _ => 1) = (.ok (), mem') ∧
      mem' 1 = 0 ∧ mem' 2 = 1) ∧
    ¬Zeroizes .from312 (.memoryview wordView) 0 8 (fun _ => 1) ∧
    (∃ m mem', (zeroize .from312 (.memoryview emptyView)).run (fun _ => 1) =
      (.error (.valueError m), mem')) ∧
    ¬Zeroizes .from312 (.memoryview emptyView) 0 0 (fun _ => 1) := by
  refine ⟨⟨_, rfl, rfl, rfl⟩, ?_, ⟨_, _, rfl⟩, ?_⟩
  · rintro ⟨mem', hrun, hregion⟩
    have hzero := hregion.zero 2 (by decide) (by decide)
    cases hrun
    cases hzero
  · rintro ⟨mem', hrun, -⟩
    cases hrun

end CryptoFlex
