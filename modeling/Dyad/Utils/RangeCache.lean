import Dyad.Node

/-!
# The range cache (`utils/range_cache.c`)

`dyad_range_cache_ensure` makes a byte range of the local copy present,
fetching the missing blocks from the origin. Which blocks are present is
recorded in a bitmap kept in a companion file. The functions here are those
of the source under their own names; what the source writes as one function
is cut where its comments cut it, into the fast path, the first touch, the
recheck, the fetch and the recording.

Sizes and offsets are 64-bit: the products and sums that can wrap are taken
modulo `2 ^ 64` where the source takes them. A block index whose byte lies
outside the buffer answers `none`, and the program that asked goes to `ub`.
-/

namespace Dyad

open Conc Posix

/-! ## The helpers of `utils/utils.c` -/

/-- `get_file_size`: an `fstat` that fails reads as size zero. -/
def getFileSize (fd : Nat) : Program Nat := do
  match ← sys (.fstat fd) with
  | .ok size => return size
  | .error _ => return 0

/-- `dyad_excl_flock`. -/
def dyadExclFlock (fd : Nat) : Program Rc := do
  match ← sys (.setlkw fd .excl) with
  | .ok _ => return .ok
  | .error _ => return .badfio

/-- `dyad_shared_flock`. -/
def dyadSharedFlock (fd : Nat) : Program Rc := do
  match ← sys (.setlkw fd .shared) with
  | .ok _ => return .ok
  | .error _ => return .badfio

/-- `dyad_try_excl_flock`. -/
def dyadTryExclFlock (fd : Nat) : Program Rc := do
  match ← sys (.setlk fd .excl) with
  | .ok _ => return .ok
  | .error e => return if e = Errno.EAGAIN then .busy else .badfio

/-- `dyad_release_flock`. -/
def dyadReleaseFlock (fd : Nat) : Program Rc := do
  match ← sys (.unlock fd) with
  | .ok _ => return .ok
  | .error _ => return .badfio

/-! ## The bitmap -/

/-- `range_cache_num_blocks`. -/
def rangeCacheNumBlocks (fileSize : Nat) : Nat :=
  (fileSize + rangeCacheBlockSize - 1) % 2 ^ 64 / rangeCacheBlockSize

/-- `range_cache_bitmap_bytes`. -/
def rangeCacheBitmapBytes (numBlocks : Nat) : Nat := (numBlocks + 7) % 2 ^ 64 / 8

/-- The loop of `range_cache_blocks_set` over the `n` blocks from `b`. -/
def blocksSetFrom (bitmap : Bytes Byte) : (n b : Nat) → Option Bool
  | 0, _ => some true
  | n + 1, b =>
    if b / 8 < bitmap.size then
      if bitmap.get (b / 8) &&& 1#8 <<< (b % 8) = 0#8 then some false
      else blocksSetFrom bitmap n (b + 1)
    else none

/-- `range_cache_blocks_set`: whether every bit of the span is set, or `none`
when the loop reads past the buffer. -/
def rangeCacheBlocksSet (bitmap : Bytes Byte) (blockStart blockEnd : Nat) :
    Option Bool :=
  blocksSetFrom bitmap (blockEnd + 1 - blockStart) blockStart

/-- The loop of `range_cache_set_blocks` over the `n` blocks from `b`. -/
def setBlocksFrom (bitmap : Bytes Byte) : (n b : Nat) → Option (Bytes Byte)
  | 0, _ => some bitmap
  | n + 1, b =>
    if b / 8 < bitmap.size then
      setBlocksFrom
        (bitmap.set (b / 8) (bitmap.get (b / 8) ||| 1#8 <<< (b % 8))) n (b + 1)
    else none

/-- `range_cache_set_blocks`, or `none` when the loop writes past the
buffer. -/
def rangeCacheSetBlocks (bitmap : Bytes Byte) (blockStart blockEnd : Nat) :
    Option (Bytes Byte) :=
  setBlocksFrom bitmap (blockEnd + 1 - blockStart) blockStart

/-- Bit `b` of a bitmap is set. -/
def Bit (bitmap : Bytes Byte) (b : Nat) : Prop :=
  (bitmap.get (b / 8)).getLsbD (b % 8) = true

instance (bitmap : Bytes Byte) (b : Nat) : Decidable (Bit bitmap b) :=
  inferInstanceAs (Decidable (_ = true))

theorem not_bit_of_size {bitmap : Bytes Byte} {b : Nat}
    (h : bitmap.size ≤ b / 8) : ¬ Bit bitmap b := by
  rw [Bit, bitmap.tail _ h]
  simp

theorem not_bit_zeros (n b : Nat) : ¬ Bit (Bytes.zeros n) b := by
  simp [Bit]

/-- The mask test of the source is the test of one bit. -/
theorem mask_eq_zero {x : Byte} {k : Nat} (hk : k < 8) :
    x &&& 1#8 <<< k = 0#8 ↔ x.getLsbD k = false := by
  constructor
  · intro h
    have := congrArg (fun y : Byte => y.getLsbD k) h
    simpa [hk] using this
  · intro h
    apply BitVec.eq_of_getLsbD_eq
    intro i hi
    simp only [BitVec.getLsbD_and, BitVec.getLsbD_shiftLeft, BitVec.getLsbD_one]
    by_cases hik : i = k
    · subst hik
      simp [h]
    · simp only [BitVec.getLsbD_zero, Bool.and_eq_false_iff]
      simp
      omega

theorem getLsbD_or_mask {x : Byte} {j k : Nat} (hj : j < 8) :
    (x ||| 1#8 <<< k).getLsbD j = (x.getLsbD j || decide (j = k)) := by
  simp only [BitVec.getLsbD_or, BitVec.getLsbD_shiftLeft, BitVec.getLsbD_one]
  congr 1
  rw [Bool.eq_iff_iff]
  simp only [Bool.and_eq_true, decide_eq_true_eq, Bool.not_eq_true',
    decide_eq_false_iff_not]
  omega

/-- The loop stays in the buffer when its last block does. -/
theorem blocksSetFrom_isSome {bitmap : Bytes Byte} {n b : Nat}
    (h : n = 0 ∨ (b + n - 1) / 8 < bitmap.size) :
    ∃ hit, blocksSetFrom bitmap n b = some hit := by
  induction n generalizing b with
  | zero => exact ⟨true, rfl⟩
  | succ n ih =>
    have hb : b / 8 < bitmap.size := by omega
    rw [blocksSetFrom, if_pos hb]
    split
    · exact ⟨false, rfl⟩
    · refine ih ?_
      rcases Nat.eq_zero_or_pos n with hn | hn
      · exact Or.inl hn
      · exact Or.inr (by omega)

theorem blocksSetFrom_true {bitmap : Bytes Byte} {n b : Nat}
    (h : blocksSetFrom bitmap n b = some true) :
    ∀ j, b ≤ j → j < b + n → Bit bitmap j := by
  induction n generalizing b with
  | zero =>
    intro j hj hlt
    omega
  | succ n ih =>
    rw [blocksSetFrom] at h
    split at h
    · split at h
      · exact absurd h (by simp)
      · next hm =>
        intro j hj hlt
        rcases Nat.eq_or_lt_of_le hj with rfl | hlt'
        · rw [mask_eq_zero (Nat.mod_lt _ (by omega))] at hm
          simpa [Bit] using hm
        · exact ih h j hlt' (by omega)
    · exact absurd h (by simp)

/-- Over a span whose bits are all set, the loop runs on to the last block:
past the buffer, when that lies past it. -/
theorem blocksSetFrom_none {bitmap : Bytes Byte} {n b : Nat}
    (hbits : ∀ j, b ≤ j → j / 8 < bitmap.size → Bit bitmap j)
    (hn : 0 < n) (hout : bitmap.size ≤ (b + n - 1) / 8) :
    blocksSetFrom bitmap n b = none := by
  induction n generalizing b with
  | zero => omega
  | succ n ih =>
    rw [blocksSetFrom]
    split
    · next hb =>
      have hbit := hbits b (Nat.le_refl b) hb
      rw [if_neg]
      · have : 0 < n := by
          rcases Nat.eq_zero_or_pos n with rfl | hpos
          · simp only [Nat.zero_add, Nat.add_sub_cancel] at hout
            omega
          · exact hpos
        exact ih (fun j hj => hbits j (by omega)) this (by
          rw [show b + 1 + n - 1 = b + (n + 1) - 1 by omega]
          exact hout)
      · rw [mask_eq_zero (Nat.mod_lt _ (by omega))]
        simpa [Bit] using hbit
    · rfl

/-- What the recording loop leaves: the bits that were set, and the span's. -/
theorem setBlocksFrom_some {bitmap : Bytes Byte} {n b : Nat}
    (h : n = 0 ∨ (b + n - 1) / 8 < bitmap.size) :
    ∃ bitmap', setBlocksFrom bitmap n b = some bitmap' ∧
      bitmap'.size = bitmap.size ∧
      ∀ j, Bit bitmap' j ↔ Bit bitmap j ∨ (b ≤ j ∧ j < b + n) := by
  induction n generalizing bitmap b with
  | zero =>
    refine ⟨bitmap, rfl, rfl, fun j => ?_⟩
    rw [Nat.add_zero]
    exact ⟨Or.inl, fun h => h.elim id fun hj => by omega⟩
  | succ n ih =>
    have hb : b / 8 < bitmap.size := by omega
    obtain ⟨bitmap', heq, hsize, hbit⟩ :=
      @ih (bitmap.set (b / 8) (bitmap.get (b / 8) ||| 1#8 <<< (b % 8))) (b + 1)
        (by
          rw [Bytes.size_set]
          rcases Nat.eq_zero_or_pos n with hn | hn
          · exact Or.inl hn
          · exact Or.inr (by omega))
    refine ⟨bitmap', ?_, hsize, fun j => ?_⟩
    · rw [setBlocksFrom, if_pos hb]
      exact heq
    · rw [hbit j]
      have hset : Bit (bitmap.set (b / 8)
          (bitmap.get (b / 8) ||| 1#8 <<< (b % 8))) j ↔ Bit bitmap j ∨ j = b := by
        rw [Bit, Bit, Bytes.get_set bitmap hb]
        split
        · next hj =>
          rw [getLsbD_or_mask (Nat.mod_lt _ (by omega)), ← hj, Bool.or_eq_true,
            decide_eq_true_eq]
          constructor
          · rintro (h' | h')
            · exact Or.inl h'
            · exact Or.inr (by omega)
          · rintro (h' | h')
            · exact Or.inl h'
            · exact Or.inr (by omega)
        · next hj =>
          constructor
          · exact Or.inl
          · rintro (h' | h')
            · exact h'
            · exact absurd (by omega) hj
      rw [hset]
      constructor
      · rintro ((h' | h') | h')
        · exact Or.inl h'
        · exact Or.inr (by omega)
        · exact Or.inr (by omega)
      · rintro (h' | h')
        · exact Or.inl (Or.inl h')
        · rcases Nat.eq_or_lt_of_le h'.1 with he | hl
          · exact Or.inl (Or.inr he.symm)
          · exact Or.inr (by omega)

theorem rangeCacheBlocksSet_isSome {bitmap : Bytes Byte} {bs be : Nat}
    (h : be < bs ∨ be / 8 < bitmap.size) :
    ∃ hit, rangeCacheBlocksSet bitmap bs be = some hit := by
  refine blocksSetFrom_isSome ?_
  rcases Nat.lt_or_ge be bs with hlt | hge
  · exact Or.inl (by omega)
  · exact Or.inr (by
      rw [show bs + (be + 1 - bs) - 1 = be by omega]
      omega)

theorem rangeCacheBlocksSet_true {bitmap : Bytes Byte} {bs be : Nat}
    (h : rangeCacheBlocksSet bitmap bs be = some true) :
    ∀ b, bs ≤ b → b ≤ be → Bit bitmap b :=
  fun b hb hbe => blocksSetFrom_true h b hb (by omega)

theorem rangeCacheSetBlocks_some {bitmap : Bytes Byte} {bs be : Nat}
    (h : be < bs ∨ be / 8 < bitmap.size) :
    ∃ bitmap', rangeCacheSetBlocks bitmap bs be = some bitmap' ∧
      bitmap'.size = bitmap.size ∧
      ∀ b, Bit bitmap' b ↔ Bit bitmap b ∨ (bs ≤ b ∧ b ≤ be) := by
  obtain ⟨bitmap', heq, hsize, hbit⟩ :=
    @setBlocksFrom_some bitmap (be + 1 - bs) bs (by
      rcases Nat.lt_or_ge be bs with hlt | hge
      · exact Or.inl (by omega)
      · exact Or.inr (by
          rw [show bs + (be + 1 - bs) - 1 = be by omega]
          omega))
  refine ⟨bitmap', heq, hsize, fun b => (hbit b).trans ?_⟩
  constructor
  · rintro (h' | h')
    · exact Or.inl h'
    · exact Or.inr (by omega)
  · rintro (h' | h')
    · exact Or.inl h'
    · exact Or.inr (by omega)

/-- The recording loop leaves the buffer when its last block lies past it. -/
theorem setBlocksFrom_none {bitmap : Bytes Byte} {n b : Nat} (hn : 0 < n)
    (hout : bitmap.size ≤ (b + n - 1) / 8) : setBlocksFrom bitmap n b = none := by
  induction n generalizing bitmap b with
  | zero => omega
  | succ n ih =>
    rw [setBlocksFrom]
    split
    · next hb =>
      rcases Nat.eq_zero_or_pos n with rfl | hpos
      · omega
      · refine ih hpos ?_
        rw [Bytes.size_set, show b + 1 + n - 1 = b + (n + 1) - 1 by omega]
        exact hout
    · rfl

theorem rangeCacheSetBlocks_none {bitmap : Bytes Byte} {bs be : Nat}
    (hspan : bs ≤ be) (hout : bitmap.size ≤ be / 8) :
    rangeCacheSetBlocks bitmap bs be = none := by
  refine setBlocksFrom_none (by omega) ?_
  rw [show bs + (be + 1 - bs) - 1 = be by omega]
  exact hout

/-! ## `dyad_range_cache_ensure` -/

/-- Close the descriptors that were opened. -/
def closeOpened : List Nat → Program Unit
  | [] => return ()
  | fd :: fds => do
    let _ ← sys (.close fd)
    closeOpened fds

/-- The reads and writes of `range_cache_fetch_span`, on the span of
`spanLen` bytes at `spanOff`. -/
def fetchSpanAt (spanOff spanLen : Nat) : Program Rc := do
  match ← sys (.open .origin false false) with
  | .error _ => return .badfio
  | .ok originFd =>
    match ← sys (.pread originFd spanOff spanLen) with
    | .error _ =>
      closeOpened [originFd]
      return .badfio
    | .ok spanBuf =>
      if spanBuf.size ≠ spanLen then
        closeOpened [originFd]
        return .badfio
      else
        match ← sys (.open .data false false) with
        | .error _ =>
          closeOpened [originFd]
          return .badfio
        | .ok localFd =>
          match ← sys (.pwrite localFd spanOff spanBuf) with
          | .error _ =>
            closeOpened [originFd, localFd]
            return .badfio
          | .ok written =>
            closeOpened [originFd, localFd]
            return if written = spanLen then .ok else .badfio

/-- `range_cache_fetch_span`. -/
def rangeCacheFetchSpan (blockStart blockEnd originSize : Nat) :
    Program Rc := do
  let spanOff := blockStart * rangeCacheBlockSize % 2 ^ 64
  let spanEnd := min ((blockEnd + 1) * rangeCacheBlockSize % 2 ^ 64) originSize
  if spanEnd ≤ spanOff then
    return .badfio
  else
    let spanLen := spanEnd - spanOff
    if ← sys (.malloc spanLen) then
      fetchSpanAt spanOff spanLen
    else
      return .sysfail

/-- The way out of a critical section: drop the record lock and the mutex,
close the bitmap, return `rc`. -/
def ensureLeave (bitmapFd : Nat) (rc : Rc) : Program Rc := do
  let _ ← dyadReleaseFlock bitmapFd
  sys .mutexUnlock
  let _ ← sys (.close bitmapFd)
  return rc

/-- The way out where the record lock was not obtained. -/
def ensureLeaveUnlocked (bitmapFd : Nat) (rc : Rc) : Program Rc := do
  sys .mutexUnlock
  let _ ← sys (.close bitmapFd)
  return rc

/-- Whether the bits of the span are set in the buffer. -/
def checkBlocks (bitmap : Bytes Byte) (blockStart blockEnd : Nat) :
    Program Bool :=
  match rangeCacheBlocksSet bitmap blockStart blockEnd with
  | some hit => return hit
  | none => ub

/-- The fast path, under the shared lock. -/
def rangeCacheFastPath (bitmapFd blockStart blockEnd : Nat) :
    Program Bool := do
  let bitmapBytes ← getFileSize bitmapFd
  if bitmapBytes > blockEnd / 8 then
    if ← sys (.malloc bitmapBytes) then
      match ← sys (.pread bitmapFd 0 bitmapBytes) with
      | .ok bitmap =>
        if bitmap.size = bitmapBytes then
          checkBlocks bitmap blockStart blockEnd
        else
          return false
      | .error _ => return false
    else
      return false
  else
    return false

/-- First touch: size the local file and the bitmap, once. -/
def rangeCacheSize (bitmapFd originSize bitmapBytes : Nat) : Program Rc := do
  if (← getFileSize bitmapFd) < bitmapBytes then
    match ← sys (.open .data true false) with
    | .error _ => return .badfio
    | .ok sizeFd =>
      match ← sys (.ftruncate sizeFd originSize) with
      | .error _ =>
        closeOpened [sizeFd]
        return .badfio
      | .ok _ =>
        match ← sys (.ftruncate bitmapFd bitmapBytes) with
        | .error _ =>
          closeOpened [sizeFd]
          return .badfio
        | .ok _ =>
          closeOpened [sizeFd]
          return .ok
  else
    return .ok

/-- The bitmap as read into a zeroed buffer: a short read, or none, leaves
the rest of the buffer zero. -/
def preadBitmap (bitmapFd bitmapBytes : Nat) : Program (Bytes Byte) := do
  match ← sys (.pread bitmapFd 0 bitmapBytes) with
  | .ok d => return (Bytes.zeros bitmapBytes).splice 0 d
  | .error _ => return Bytes.zeros bitmapBytes

/-- Recording: merge the span's bits into what the bitmap holds now. -/
def rangeCacheRecord (bitmapFd blockStart blockEnd bitmapBytes : Nat) :
    Program Rc := do
  sys .mutexLock
  let rc ← dyadExclFlock bitmapFd
  if rc.isError then
    ensureLeaveUnlocked bitmapFd rc
  else if ← sys (.malloc bitmapBytes) then
    let bitmap ← preadBitmap bitmapFd bitmapBytes
    match rangeCacheSetBlocks bitmap blockStart blockEnd with
    | none => ub
    | some bitmap =>
      match ← sys (.pwrite bitmapFd 0 bitmap) with
      | .ok written =>
        ensureLeave bitmapFd (if written = bitmapBytes then .ok else .badfio)
      | .error _ => ensureLeave bitmapFd .badfio
  else
    ensureLeave bitmapFd .sysfail

/-- After a miss: with no lock held, fetch the span, then record it. -/
def rangeCacheFill (bitmapFd blockStart blockEnd originSize bitmapBytes : Nat) :
    Program Rc := do
  let rc ← rangeCacheFetchSpan blockStart blockEnd originSize
  if rc.isError then
    let _ ← sys (.close bitmapFd)
    return rc
  else
    rangeCacheRecord bitmapFd blockStart blockEnd bitmapBytes

/-- Under the exclusive lock: size the files, check the span again, and go on
to fill it if it is still missing. -/
def rangeCacheMiss (bitmapFd blockStart blockEnd : Nat) : Program Rc := do
  match ← sys (.stat .origin) with
  | .error _ => ensureLeave bitmapFd .badfio
  | .ok originSize =>
    if originSize = 0 then
      ensureLeave bitmapFd .badfio
    else
      let bitmapBytes := rangeCacheBitmapBytes (rangeCacheNumBlocks originSize)
      let rc ← rangeCacheSize bitmapFd originSize bitmapBytes
      if rc.isError then
        ensureLeave bitmapFd rc
      else if ← sys (.malloc bitmapBytes) then
        let bitmap ← preadBitmap bitmapFd bitmapBytes
        let alreadyCached ← checkBlocks bitmap blockStart blockEnd
        let _ ← dyadReleaseFlock bitmapFd
        sys .mutexUnlock
        if alreadyCached then
          let _ ← sys (.close bitmapFd)
          return .ok
        else
          rangeCacheFill bitmapFd blockStart blockEnd originSize bitmapBytes
      else
        ensureLeave bitmapFd .sysfail

/-- The locked part of `dyad_range_cache_ensure`, once the bitmap is open. -/
def rangeCacheOpened (bitmapFd blockStart blockEnd : Nat) : Program Rc := do
  sys .mutexLock
  let rc ← dyadSharedFlock bitmapFd
  if rc.isError then
    ensureLeaveUnlocked bitmapFd rc
  else
    let hit ← rangeCacheFastPath bitmapFd blockStart blockEnd
    if hit then
      ensureLeave bitmapFd .ok
    else
      let _ ← dyadReleaseFlock bitmapFd
      let rc ← dyadExclFlock bitmapFd
      if rc.isError then
        ensureLeaveUnlocked bitmapFd rc
      else
        rangeCacheMiss bitmapFd blockStart blockEnd

/-- The first block of a span. -/
def blockStart (offset : UInt64) : Nat := offset.toNat / rangeCacheBlockSize

/-- The last block of a span, as the source computes it: the sum wraps. -/
def blockEnd (offset length : UInt64) : Nat :=
  (offset + length - 1).toNat / rangeCacheBlockSize

/-- `dyad_range_cache_ensure`. -/
def dyadRangeCacheEnsure (ctx : Ctx) (offset length : UInt64) :
    Program Rc := do
  if ctx.originPath = false ∨ length = 0 then
    return .ok
  else if ctx.pathFits = false then
    return .badbuf
  else
    match ← sys (.open .bitmap true false) with
    | .error _ => return .badfio
    | .ok bitmapFd =>
      rangeCacheOpened bitmapFd (blockStart offset) (blockEnd offset length)

end Dyad
