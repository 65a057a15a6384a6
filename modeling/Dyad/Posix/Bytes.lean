import Mathlib.Algebra.GroupWithZero.Nat

/-!
# The contents of a file

A file's content is its size and the byte at each position. Past the end
every position reads as zero, and the structure carries that as a field:
growing a file with `ftruncate`, or writing past its end, then needs no
special case, because the bytes that come into the file were zero all along.

Contents are functions rather than lists, so a file of any size costs only
the positions that are looked at.
-/

namespace Dyad.Posix

/-- The content of a regular file over the bytes `β`. -/
structure Bytes (β : Type) [Zero β] where
  size : Nat
  get : Nat → β
  tail : ∀ i, size ≤ i → get i = 0

namespace Bytes

variable {β : Type} [Zero β]

@[ext]
theorem ext {a b : Bytes β} (hs : a.size = b.size)
    (hg : ∀ i, i < a.size → a.get i = b.get i) : a = b := by
  obtain ⟨m, f, hf⟩ := a
  obtain ⟨n, g, hg'⟩ := b
  obtain rfl : m = n := hs
  obtain rfl : f = g := by
    funext i
    rcases Nat.lt_or_ge i m with hi | hi
    · exact hg i hi
    · rw [hf i hi, hg' i hi]
  rfl

/-- The first `n` values of `f`. -/
def ofFn (n : Nat) (f : Nat → β) : Bytes β where
  size := n
  get i := if i < n then f i else 0
  tail _ hi := if_neg (Nat.not_lt.2 hi)

/-- The empty file. -/
def empty : Bytes β := ofFn 0 fun _ => 0

/-- `n` zero bytes, as `calloc` gives them. -/
def zeros (n : Nat) : Bytes β := ofFn n fun _ => 0

def ofList (l : List β) : Bytes β := ofFn l.length fun i => l.getD i 0

/-- What a read of `len` bytes at `off` can return: what there is. -/
def slice (b : Bytes β) (off len : Nat) : Bytes β :=
  ofFn (min len (b.size - off)) fun i => b.get (off + i)

/-- `ftruncate`: cut at `n`, or grow to `n` with zeros. -/
def truncate (b : Bytes β) (n : Nat) : Bytes β := ofFn n b.get

/-- `d` over `b` at `off`, growing the file as far as `d` reaches. -/
def splice (b : Bytes β) (off : Nat) (d : Bytes β) : Bytes β where
  size := if d.size = 0 then b.size else max b.size (off + d.size)
  get i := if off ≤ i ∧ i < off + d.size then d.get (i - off) else b.get i
  tail i hi := by
    split at hi
    · next h0 =>
      rw [if_neg (by omega)]
      exact b.tail i hi
    · rw [if_neg (by omega)]
      exact b.tail i (by omega)

/-- The byte at `i` replaced; past the end there is nothing to replace. -/
def set (b : Bytes β) (i : Nat) (v : β) : Bytes β :=
  ofFn b.size fun j => if j = i then v else b.get j

/-- `a` followed by `b`. -/
def append (a b : Bytes β) : Bytes β := a.splice a.size b

@[simp] theorem size_ofFn (n : Nat) (f : Nat → β) : (ofFn n f).size = n := rfl

theorem get_ofFn (n : Nat) (f : Nat → β) (i : Nat) :
    (ofFn n f).get i = if i < n then f i else 0 := rfl

@[simp] theorem size_empty : (empty : Bytes β).size = 0 := rfl

@[simp] theorem get_empty (i : Nat) : (empty : Bytes β).get i = 0 :=
  empty.tail i (Nat.zero_le i)

@[simp] theorem size_zeros (n : Nat) : (zeros n : Bytes β).size = n := rfl

@[simp] theorem get_zeros (n i : Nat) : (zeros n : Bytes β).get i = 0 := by
  simp [zeros, get_ofFn]

@[simp] theorem size_slice (b : Bytes β) (off len : Nat) :
    (b.slice off len).size = min len (b.size - off) := rfl

theorem get_slice (b : Bytes β) (off len i : Nat) :
    (b.slice off len).get i =
      if i < min len (b.size - off) then b.get (off + i) else 0 := rfl

theorem get_slice_of_lt (b : Bytes β) {off len i : Nat} (hi : i < len) :
    (b.slice off len).get i = b.get (off + i) := by
  rw [get_slice]
  split
  · rfl
  · exact (b.tail _ (by omega)).symm

@[simp] theorem size_truncate (b : Bytes β) (n : Nat) :
    (b.truncate n).size = n := rfl

theorem get_truncate (b : Bytes β) (n i : Nat) :
    (b.truncate n).get i = if i < n then b.get i else 0 := rfl

theorem get_truncate_of_lt (b : Bytes β) {n i : Nat} (hi : i < n) :
    (b.truncate n).get i = b.get i := if_pos hi

theorem truncate_self (b : Bytes β) : b.truncate b.size = b :=
  ext rfl fun _ hi => get_truncate_of_lt b hi

theorem size_splice (b : Bytes β) (off : Nat) (d : Bytes β) :
    (b.splice off d).size =
      if d.size = 0 then b.size else max b.size (off + d.size) := rfl

theorem get_splice (b : Bytes β) (off : Nat) (d : Bytes β) (i : Nat) :
    (b.splice off d).get i =
      if off ≤ i ∧ i < off + d.size then d.get (i - off) else b.get i := rfl

@[simp] theorem size_set (b : Bytes β) (i : Nat) (v : β) :
    (b.set i v).size = b.size := rfl

theorem get_set (b : Bytes β) {i j : Nat} {v : β} (hi : i < b.size) :
    (b.set i v).get j = if j = i then v else b.get j := by
  rw [set, get_ofFn]
  split
  · rfl
  · next hj =>
    rw [if_neg (by omega)]
    exact (b.tail j (by omega)).symm

theorem le_size_splice (b : Bytes β) (off : Nat) (d : Bytes β) :
    b.size ≤ (b.splice off d).size := by
  rw [size_splice]
  split <;> omega

theorem eq_empty_of_size {b : Bytes β} (h : b.size = 0) : b = empty :=
  Bytes.ext h fun i hi => absurd hi (by omega)

/-- Reading a whole file gives its content. -/
theorem slice_zero_size {b : Bytes β} {n : Nat} (h : b.size ≤ n) :
    b.slice 0 n = b := by
  refine Bytes.ext (by rw [size_slice]; omega) fun i hi => ?_
  rw [size_slice] at hi
  rw [get_slice, if_pos hi, Nat.zero_add]

theorem size_append (a b : Bytes β) : (a.append b).size = a.size + b.size := by
  rw [append, size_splice]
  split <;> omega

theorem get_append (a b : Bytes β) (i : Nat) :
    (a.append b).get i =
      if a.size ≤ i ∧ i < a.size + b.size then b.get (i - a.size)
      else a.get i := rfl

/-- Writing nothing changes nothing. -/
theorem splice_nothing (b : Bytes β) (off : Nat) : b.splice off empty = b := by
  refine Bytes.ext ?_ fun i _ => ?_
  · rw [size_splice, size_empty, if_pos rfl]
  · rw [get_splice, size_empty, if_neg (by omega)]

/-- Writing the whole of `d` over nothing leaves `d`. -/
theorem splice_empty (d : Bytes β) : empty.splice 0 d = d := by
  refine Bytes.ext ?_ fun i hi => ?_
  · rw [size_splice, size_empty]
    split <;> omega
  · rw [get_splice]
    split
    · rw [Nat.sub_zero]
    · next h =>
      rw [get_empty, d.tail i (by omega)]

/-- A read followed by the read of what comes next is one read. -/
theorem slice_append (b : Bytes β) {off m n : Nat} (h : off + m ≤ b.size) :
    (b.slice off m).append (b.slice (off + m) n) = b.slice off (m + n) := by
  have hm : (b.slice off m).size = m := by
    rw [size_slice]
    omega
  refine Bytes.ext ?_ fun i hi => ?_
  · simp only [size_append, size_slice]
    omega
  · rw [get_append, hm]
    simp only [size_append, size_slice] at hi
    split
    · rw [get_slice, get_slice, if_pos (by omega), if_pos (by omega)]
      congr 1
      omega
    · next h' =>
      rw [size_slice] at h'
      rw [get_slice, get_slice, if_pos (by omega), if_pos (by omega)]

end Bytes

end Dyad.Posix
