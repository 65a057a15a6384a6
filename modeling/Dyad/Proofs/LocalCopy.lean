import Dyad.System
import Dyad.Proofs.BitmapBounds

/-!
# What a local copy holds of the origin

A local copy is filled in pieces, by whole-file transfers and by the range
cache, and a piece is never taken back: a write puts the origin's bytes where
the origin has them, and resizing to the origin's size keeps the bytes that
are there. `Has` says it of one byte, and every other notion here is that one
over some set of positions: the whole file (`Full`), a block of the range
cache clipped at the end of the origin (`BlockOk`), the blocks a bitmap marks
(`BitsOk`).

The lemmas say what each write, each change of size and each update of a
bitmap leaves of these.
-/

namespace Dyad

open Conc Posix

variable {orig f d : Bytes Byte}

/-- The byte at `i` is there, and is the origin's. -/
def Has (orig f : Bytes Byte) (i : Nat) : Prop :=
  i < f.size ∧ f.get i = orig.get i

/-- Every byte of the origin is there. -/
def Full (orig f : Bytes Byte) : Prop := ∀ i, i < orig.size → Has orig f i

/-- Block `b` is there, as far as the origin reaches. -/
def BlockOk (orig f : Bytes Byte) (b : Nat) : Prop :=
  ∀ i, i / rangeCacheBlockSize = b → i < orig.size → Has orig f i

/-- The bytes of `d` are the origin's at `off`. -/
def Agrees (orig : Bytes Byte) (off : Nat) (d : Bytes Byte) : Prop :=
  ∀ j, j < d.size → off + j < orig.size ∧ d.get j = orig.get (off + j)

theorem full_self : Full orig orig := fun _ hi => ⟨hi, rfl⟩

/-- A copy that has every byte and no others is the origin. -/
theorem Full.eq (h : Full orig f) (hs : f.size ≤ orig.size) : f = orig := by
  have hle : orig.size ≤ f.size := by
    rcases Nat.eq_zero_or_pos orig.size with h0 | hpos
    · omega
    · have := (h (orig.size - 1) (by omega)).1
      omega
  exact Bytes.ext (by omega) fun i hi => (h i (by omega)).2

/-- A copy that has every block has every byte. -/
theorem full_of_blocks
    (h : ∀ b, b < rangeCacheNumBlocks orig.size → BlockOk orig f b)
    (hs : orig.size < 2 ^ 63) : Full orig f := by
  intro i hi
  refine h (i / rangeCacheBlockSize) ?_ i rfl hi
  rw [numBlocks_eq hs, rangeCacheBlockSize_eq]
  omega

theorem agrees_slice (off len : Nat) :
    Agrees orig off (orig.slice off len) := by
  intro j hj
  rw [Bytes.size_slice] at hj
  refine ⟨by omega, ?_⟩
  rw [Bytes.get_slice, if_pos (by omega)]

theorem Agrees.take {off : Nat} (h : Agrees orig off d) (k : Nat) :
    Agrees orig off (d.slice 0 k) := by
  intro j hj
  rw [Bytes.size_slice] at hj
  rw [Bytes.get_slice, if_pos (by omega), Nat.zero_add]
  exact h j (by omega)

/-- A write of the origin's bytes takes none away. -/
theorem Has.splice {off i : Nat} (h : Has orig f i) (ha : Agrees orig off d) :
    Has orig (f.splice off d) i := by
  refine ⟨Nat.lt_of_lt_of_le h.1 (Bytes.le_size_splice ..), ?_⟩
  rw [Bytes.get_splice]
  split
  · next hi =>
    rw [(ha (i - off) (by omega)).2, show off + (i - off) = i by omega]
  · exact h.2

/-- A write of the origin's bytes puts them there. -/
theorem has_splice {off i : Nat} (ha : Agrees orig off d) (hi : off ≤ i)
    (hlt : i < off + d.size) : Has orig (f.splice off d) i := by
  constructor
  · rw [Bytes.size_splice, if_neg (by omega)]
    omega
  · rw [Bytes.get_splice, if_pos ⟨hi, hlt⟩, (ha (i - off) (by omega)).2,
      show off + (i - off) = i by omega]

theorem size_splice_le {off : Nat} (ha : Agrees orig off d)
    (hf : f.size ≤ orig.size) : (f.splice off d).size ≤ orig.size := by
  rw [Bytes.size_splice]
  split
  · exact hf
  · next h0 =>
    have := (ha (d.size - 1) (by omega)).1
    omega

/-- Resizing to the origin's size takes none of its bytes away. -/
theorem Has.truncate {i : Nat} (h : Has orig f i) (hi : i < orig.size) :
    Has orig (f.truncate orig.size) i :=
  ⟨hi, by rw [Bytes.get_truncate_of_lt f hi]; exact h.2⟩

/-- A write of the origin's bytes over the whole of it changes nothing. -/
theorem splice_self {off : Nat} (ha : Agrees orig off d) :
    orig.splice off d = orig :=
  Full.eq (fun _ hi => (full_self _ hi).splice ha)
    (size_splice_le ha (Nat.le_refl _))

/-! ## Bitmaps -/

theorem bit_splice {bitmap new : Bytes Byte} {b : Nat}
    (h : Bit (bitmap.splice 0 new) b) : Bit bitmap b ∨ Bit new b := by
  rw [Bit, Bytes.get_splice] at h
  split at h
  · exact Or.inr h
  · exact Or.inl h

theorem bit_slice {bitmap : Bytes Byte} {k b : Nat}
    (h : Bit (bitmap.slice 0 k) b) : Bit bitmap b := by
  rw [Bit, Bytes.get_slice, Nat.zero_add] at h
  split at h
  · exact h
  · simp at h

theorem bit_truncate {bitmap : Bytes Byte} {n b : Nat}
    (h : Bit (bitmap.truncate n) b) : Bit bitmap b := by
  rw [Bit, Bytes.get_truncate] at h
  split at h
  · exact h
  · simp at h

theorem not_bit_empty (b : Nat) : ¬ Bit Bytes.empty b :=
  not_bit_of_size (Nat.zero_le _)

/-! ## The files of a node -/

/-- The local copy has block `b`. -/
def LocalBlock (orig : Bytes Byte) (w : Node) (b : Nat) : Prop :=
  ∃ d, w.os.dir .data = some d ∧ BlockOk orig (w.os.file d) b

/-- Every block marked in the bitmap is local. -/
def BitsOk (orig : Bytes Byte) (w : Node) (bitmap : Bytes Byte) : Prop :=
  ∀ b, Bit bitmap b → LocalBlock orig w b

/-- The local copy is the whole of the origin. -/
def Complete (orig : Bytes Byte) (w : Node) : Prop :=
  ∃ d, w.os.dir .data = some d ∧ w.os.file d = orig

theorem bitsOk_zeros {w : Node} {n : Nat} : BitsOk orig w (Bytes.zeros n) :=
  fun b h => absurd h (not_bit_zeros n b)

theorem bitsOk_empty {w : Node} : BitsOk orig w Bytes.empty :=
  fun b h => absurd h (not_bit_empty b)

theorem BitsOk.splice {w : Node} {bitmap new : Bytes Byte}
    (h : BitsOk orig w bitmap) (hn : BitsOk orig w new) :
    BitsOk orig w (bitmap.splice 0 new) := by
  intro b hb
  rcases bit_splice hb with hb | hb
  · exact h b hb
  · exact hn b hb

theorem BitsOk.slice {w : Node} {bitmap : Bytes Byte} (k : Nat)
    (h : BitsOk orig w bitmap) : BitsOk orig w (bitmap.slice 0 k) :=
  fun b hb => h b (bit_slice hb)

theorem BitsOk.truncate {w : Node} {bitmap : Bytes Byte} (n : Nat)
    (h : BitsOk orig w bitmap) : BitsOk orig w (bitmap.truncate n) :=
  fun b hb => h b (bit_truncate hb)

end Dyad
