import Dyad.Proofs.BitmapBounds
import Dyad.Proofs.RangePaths
import Dyad.Locality

/-!
# A range from the local copy and from its owner

Each side makes the range present, where there is a range cache, and reads it.
The local call reads once, and takes no less than it asked for. The service
clamps the range against the size of the file and reads what is left of it, in
as many turns as that takes. What the range cache does comes to one of three:
the blocks are present, they cannot be, or the block numbers lead out of the
bitmap.

From there the two calls are compared. Where both succeed they return the same
bytes; what differs is when they succeed.
-/

namespace Dyad

open Conc Posix

/-- What a program that ends in a return code comes to, told in advance: it
does not end, it fails, or it succeeds in `Q`. -/
def Comes {σ : Type} (Q : σ → Prop) : Option Bool → Option (σ × Rc) → Prop
  | none, o => o = none
  | some false, o => ∃ s rc, o = some (s, rc) ∧ rc.isError = true
  | some true, o => ∃ s, o = some (s, .ok) ∧ Q s

theorem Comes.imp {σ : Type} {Q Q' : σ → Prop} {b : Option Bool}
    {o : Option (σ × Rc)} (h : Comes Q b o) (hQ : ∀ s, Q s → Q' s) :
    Comes Q' b o := by
  match b with
  | none => exact h
  | some false => exact h
  | some true =>
    obtain ⟨s, ho, hs⟩ := h
    exact ⟨s, ho, hQ s hs⟩

namespace Disk

variable {most : Nat} {d : Disk} {published : Bytes Byte}

/-! ## What the range cache makes of a span -/

/-- The bitmap as it is read, once it has its size of `n` bytes. -/
def seenBitmap (most n : Nat) (bitmap : Bytes Byte) : Bytes Byte :=
  (Bytes.zeros n).splice 0 ((bitmap.truncate n).slice 0 (min most n))

/-- The fast path takes the span to be present. -/
def FastHit (most : Nat) (d : Disk) (bs be : Nat) : Prop :=
  be / 8 < d.bitmap.size ∧ d.bitmap.size ≤ most ∧
    rangeCacheBlocksSet d.bitmap bs be = some true

instance (bs be : Nat) : Decidable (FastHit most d bs be) :=
  inferInstanceAs (Decidable (_ ∧ _ ∧ _))

/-- Whether the blocks from `bs` to `be` can be present: they are recorded, or
lie in the origin in a span that one call reads. `none` where a block number
leads out of the bitmap. -/
def blocksPresent (most : Nat) (d : Disk) (bs be : Nat) : Option Bool :=
  let n := rangeCacheBitmapBytes (rangeCacheNumBlocks d.origin.size)
  let spanOff := bs * rangeCacheBlockSize % 2 ^ 64
  let spanEnd := min ((be + 1) * rangeCacheBlockSize % 2 ^ 64) d.origin.size
  if FastHit most d bs be then some true
  else if d.origin.size = 0 then some false
  else
    match rangeCacheBlocksSet (seenBitmap most n d.bitmap) bs be with
    | none => none
    | some true => some true
    | some false =>
      if spanEnd ≤ spanOff ∨ most < spanEnd - spanOff then some false
      else if n ≤ be / 8 then none
      else some (decide (n ≤ most))

/-- Whether the range cache can make a range present. -/
def ensured (most : Nat) (ctx : Ctx) (d : Disk) (offset length : UInt64) :
    Option Bool :=
  if ctx.originPath = false ∨ length = 0 then some true
  else if ctx.pathFits = false then some false
  else d.blocksPresent most (blockStart offset) (blockEnd offset length)

/-- Whether there is a data file once the range cache is through. -/
def openable (ctx : Ctx) (d : Disk) (length : UInt64) : Bool :=
  d.created || (ctx.originPath && decide (length ≠ 0))

/-- Whether a range can be made present, and the file then be opened. -/
def present (most : Nat) (ctx : Ctx) (d : Disk) (offset length : UInt64) :
    Option Bool :=
  (d.ensured most ctx offset length).map (· && d.openable ctx length)

theorem bitmapBytes_lt (n : Nat) : rangeCacheBitmapBytes n < 2 ^ 61 := by
  rw [rangeCacheBitmapBytes]
  omega

theorem closeOpened_exec (fds : List Nat) :
    (closeOpened fds).exec (step most) d = some (d, ()) := by
  induction fds with
  | nil => rfl
  | cons fd fds ih => exact ih

theorem checkBlocks_some {bitmap : Bytes Byte} {bs be : Nat} {hit : Bool}
    (h : rangeCacheBlocksSet bitmap bs be = some hit) :
    (checkBlocks bitmap bs be).exec (step most) d = some (d, hit) := by
  rw [checkBlocks, h]
  rfl

theorem checkBlocks_none {bitmap : Bytes Byte} {bs be : Nat}
    (h : rangeCacheBlocksSet bitmap bs be = none) :
    (checkBlocks bitmap bs be).exec (step most) d = none := by
  rw [checkBlocks, h]
  rfl

theorem malloc_exec {n : Nat} (hn : n < 2 ^ 63) :
    step most d (.sys (.malloc n)) = some (d, true) := by
  show some (d, decide (n < 2 ^ 63)) = _
  rw [decide_eq_true hn]

theorem pread_exec {i off len : Nat} (hoff : off < 2 ^ 63) :
    step most d (.sys (.pread i off len)) =
      some (d, .ok ((d.get i).slice off (min most len))) := by
  show some (d.exec most (.pread i off len)) = _
  rw [exec, if_pos hoff]

theorem fastPath_exec {bs be : Nat} (hsize : d.bitmap.size < 2 ^ 63) :
    (rangeCacheFastPath 4 bs be).exec (step most) d =
      some (d, decide (FastHit most d bs be)) := by
  unfold rangeCacheFastPath
  refine (Prog.exec_seq rfl).trans ?_
  show Prog.exec (step most) (if d.bitmap.size > be / 8 then _ else _) d = _
  by_cases hin : be / 8 < d.bitmap.size
  · rw [if_pos hin]
    refine (Prog.exec_step (malloc_exec hsize)).trans ?_
    refine (Prog.exec_step (pread_exec (by omega))).trans ?_
    let read := d.bitmap.slice 0 (min most d.bitmap.size)
    show Prog.exec (step most) (if read.size = d.bitmap.size then
      checkBlocks read bs be else Prog.pure false) d = _
    by_cases hmost : d.bitmap.size ≤ most
    · obtain ⟨hit, hhit⟩ := @rangeCacheBlocksSet_isSome d.bitmap bs be
        (Or.inr hin)
      have hread : read = d.bitmap := Bytes.slice_zero_size (by omega)
      rw [hread, if_pos rfl, checkBlocks_some hhit]
      cases hit with
      | true => rw [decide_eq_true ⟨hin, hmost, hhit⟩]
      | false =>
        rw [decide_eq_false fun h => absurd (hhit.symm.trans h.2.2) (by simp)]
    · rw [if_neg (by rw [Bytes.size_slice]; omega),
        decide_eq_false fun h => hmost h.2.1]
      rfl
  · rw [if_neg hin, decide_eq_false fun h => hin h.1]
    rfl

theorem open_data (hc : d.created = true) {trunc : Bool} :
    step most d (.sys (.open .data false trunc)) = some (d, .ok 3) := by
  show some (d.exec most (.open .data false trunc)) = _
  rw [exec, touched, fd, if_pos hc]
  simp

theorem open_absent (hc : d.created = false) {trunc : Bool} :
    step most d (.sys (.open .data false trunc)) =
      some (d, .error Errno.ENOENT) := by
  show some (d.exec most (.open .data false trunc)) = _
  rw [exec, touched, fd, if_neg (by rw [hc]; decide)]
  simp

/-- The files once they have their sizes. -/
def sized (d : Disk) (n : Nat) : Disk :=
  if d.bitmap.size < n then
    { d with
      created := true
      data := d.data.truncate d.origin.size
      bitmap := d.bitmap.truncate n }
  else d

theorem rangeCacheSize_exec (n : Nat) :
    (rangeCacheSize 4 d.origin.size n).exec (step most) d =
      some (d.sized n, .ok) := by
  unfold rangeCacheSize sized
  refine (Prog.exec_seq rfl).trans ?_
  show Prog.exec (step most) (if d.bitmap.size < n then _ else _) d = _
  split <;> rfl

theorem origin_sized (n : Nat) : (d.sized n).origin = d.origin := by
  rw [sized]
  split <;> rfl

theorem bitmap_sized {n : Nat} (h : d.bitmap.size = 0 ∨ d.bitmap.size = n) :
    (d.sized n).bitmap = d.bitmap.truncate n := by
  rw [sized]
  split
  · rfl
  · obtain rfl : d.bitmap.size = n := by omega
    exact (Bytes.truncate_self _).symm

theorem preadBitmap_exec {n : Nat} {bitmap : Bytes Byte}
    (hb : d.bitmap = bitmap.truncate n) :
    (preadBitmap 4 n).exec (step most) d =
      some (d, seenBitmap most n bitmap) := by
  refine (Prog.exec_step (pread_exec (by omega))).trans ?_
  show some (d, (Bytes.zeros n).splice 0 (d.bitmap.slice 0 (min most n))) = _
  rw [hb]
  rfl

/-- The files once a span has been fetched. -/
def fetched (d : Disk) (spanOff spanLen : Nat) : Disk :=
  { d with data := d.data.splice spanOff (d.origin.slice spanOff spanLen) }

theorem fetchSpanAt_exec {spanOff spanLen : Nat} (hc : d.created = true)
    (hin : spanOff + spanLen ≤ d.origin.size) (hs : d.origin.size < 2 ^ 63) :
    (fetchSpanAt spanOff spanLen).exec (step most) d =
      some (if most < spanLen then (d, .badfio)
        else (d.fetched spanOff spanLen, .ok)) := by
  unfold fetchSpanAt
  refine (Prog.exec_step rfl).trans ?_
  refine (Prog.exec_step (pread_exec (by omega))).trans ?_
  let buf := d.origin.slice spanOff (min most spanLen)
  show Prog.exec (step most) (if buf.size ≠ spanLen then _ else _) d = _
  have hsize : buf.size = min (min most spanLen) (d.origin.size - spanOff) :=
    rfl
  by_cases hshort : most < spanLen
  · rw [if_pos (by omega), if_pos hshort]
    rfl
  · rw [if_neg (by omega), if_neg hshort]
    refine (Prog.exec_step (open_data hc)).trans ?_
    refine (Prog.exec_step rfl).trans ?_
    refine (Prog.exec_seq (closeOpened_exec _)).trans ?_
    have hbuf : buf.slice 0 most = buf := Bytes.slice_zero_size (by omega)
    have hlen : buf = d.origin.slice spanOff spanLen := by
      show d.origin.slice spanOff (min most spanLen) = _
      rw [Nat.min_eq_right (by omega)]
    show some ({ d with data := d.data.splice spanOff (buf.slice 0 most) },
      if min most buf.size = spanLen then Rc.ok else Rc.badfio) = _
    rw [hbuf, if_pos (by omega), hlen]
    rfl

theorem rangeCacheFetchSpan_exec {bs be : Nat} (hc : d.created = true)
    (hs : d.origin.size < 2 ^ 63) :
    (rangeCacheFetchSpan bs be d.origin.size).exec (step most) d =
      (let spanOff := bs * rangeCacheBlockSize % 2 ^ 64
       let spanEnd :=
        min ((be + 1) * rangeCacheBlockSize % 2 ^ 64) d.origin.size
       some (if spanEnd ≤ spanOff ∨ most < spanEnd - spanOff then (d, .badfio)
        else (d.fetched spanOff (spanEnd - spanOff), .ok))) := by
  unfold rangeCacheFetchSpan
  dsimp only
  generalize bs * rangeCacheBlockSize % 2 ^ 64 = spanOff
  generalize (be + 1) * rangeCacheBlockSize % 2 ^ 64 = e
  by_cases hempty : min e d.origin.size ≤ spanOff
  · rw [if_pos hempty, if_pos (Or.inl hempty)]
    rfl
  · rw [if_neg hempty]
    refine (Prog.exec_step (malloc_exec (by omega))).trans ?_
    refine (fetchSpanAt_exec hc (by omega) hs).trans ?_
    simp only [hempty, false_or]

theorem size_seenBitmap (n : Nat) (bitmap : Bytes Byte) :
    (seenBitmap most n bitmap).size = n := by
  rw [seenBitmap, Bytes.size_splice]
  split
  · rfl
  · rw [Bytes.size_slice, Bytes.size_truncate, Bytes.size_zeros]
    omega

/-- The recording, once the bitmap has been read. -/
theorem rangeCacheRecord_exec {bs be n : Nat} {bitmap : Bytes Byte}
    (hb : d.bitmap = bitmap.truncate n) (hn : n < 2 ^ 63) (hspan : bs ≤ be) :
    if n ≤ be / 8 then
      (rangeCacheRecord 4 bs be n).exec (step most) d = none
    else ∃ b, (rangeCacheRecord 4 bs be n).exec (step most) d =
      some ({ d with bitmap := b }, if n ≤ most then .ok else .badfio) := by
  have hsize := @size_seenBitmap most n bitmap
  have hrec : (rangeCacheRecord 4 bs be n).exec (step most) d =
      (rangeCacheSetBlocks (seenBitmap most n bitmap) bs be).map fun b =>
        ({ d with bitmap := d.bitmap.splice 0 (b.slice 0 most) },
          if min most b.size = n then Rc.ok else Rc.badfio) := by
    unfold rangeCacheRecord
    refine (Prog.exec_step rfl).trans ?_
    refine (Prog.exec_seq rfl).trans ?_
    refine (Prog.exec_step (malloc_exec hn)).trans ?_
    refine (Prog.exec_seq (preadBitmap_exec hb)).trans ?_
    cases rangeCacheSetBlocks (seenBitmap most n bitmap) bs be <;> rfl
  split
  · next hout =>
    rw [hrec, rangeCacheSetBlocks_none hspan (by omega), Option.map_none]
  · next hin =>
    obtain ⟨b, hset, hbsize, -⟩ := @rangeCacheSetBlocks_some
      (seenBitmap most n bitmap) bs be (Or.inr (by omega))
    refine ⟨d.bitmap.splice 0 (b.slice 0 most), ?_⟩
    rw [hrec, hset, Option.map_some, hbsize, hsize]
    by_cases hle : n ≤ most
    · rw [if_pos (Nat.min_eq_right hle), if_pos hle]
    · rw [if_neg (by omega), if_neg hle]

/-! ## What `dyad_range_cache_ensure` leaves -/

/-- The file has its size, and the blocks from `bs` to `be` are there. -/
structure HasBlocks (published : Bytes Byte) (bs be : Nat) (d : Disk) :
    Prop where
  created : d.created = true
  size : d.data.size = published.size
  get : ∀ i, i < published.size → bs ≤ i / rangeCacheBlockSize →
    i / rangeCacheBlockSize ≤ be → d.data.get i = published.get i

theorem bit_of_seen {n b : Nat} {bitmap : Bytes Byte}
    (h : Bit (seenBitmap most n bitmap) b) : Bit bitmap b := by
  have hget : (seenBitmap most n bitmap).get (b / 8) = bitmap.get (b / 8) ∨
      (seenBitmap most n bitmap).get (b / 8) = 0 := by
    rw [seenBitmap, Bytes.get_splice]
    split
    · rw [Nat.sub_zero, Bytes.get_slice, Nat.zero_add, Bytes.get_truncate]
      split
      · split
        · exact Or.inl rfl
        · exact Or.inr rfl
      · exact Or.inr rfl
    · exact Or.inr (Bytes.get_zeros _ _)
  rcases hget with hget | hget
  · rwa [Bit, hget] at h
  · rw [Bit, hget] at h
    exact absurd h (by simp)

/-- A bitmap that holds something has its data file. -/
theorem Holds.created {hasOrigin : Bool} (hd : d.Holds hasOrigin published)
    (hpos : 0 < d.bitmap.size) : d.created = true := by
  by_contra hc
  rw [(hd.absent (by simpa using hc)).2] at hpos
  exact absurd hpos (Nat.lt_irrefl 0)

/-- Where the bits of the span are set there is nothing to fetch. -/
theorem hasBlocks_of_bits {bs be : Nat} (hd : d.Holds true published)
    (hpos : 0 < d.bitmap.size) (hsize : d.data.size = published.size)
    (hbits : ∀ b, bs ≤ b → b ≤ be → Bit d.bitmap b) :
    HasBlocks published bs be d :=
  ⟨hd.created hpos, hsize, fun i hi hbs hbe => hd.cached rfl i hi (hbits _ hbs hbe)⟩

theorem bitmapBytes_pos {size : Nat} (hpos : 0 < size) (hs : size < 2 ^ 63) :
    0 < rangeCacheBitmapBytes (rangeCacheNumBlocks size) := by
  rw [bitmapBytes_eq hs]
  omega

/-- Where there is something to fetch, the ends of a span have not wrapped. -/
theorem span_of_some {bs be size : Nat} (hbe : be < 2 ^ 48) (hspan : bs ≤ be)
    (hsome : ¬ min ((be + 1) * 65536 % 2 ^ 64) size ≤ bs * 65536 % 2 ^ 64) :
    bs * 65536 % 2 ^ 64 = bs * 65536 ∧
      (be + 1) * 65536 % 2 ^ 64 = (be + 1) * 65536 := by
  have hend : (be + 1) * 65536 ≠ 2 ^ 64 := by
    intro hwrap
    rw [hwrap, Nat.mod_self, Nat.zero_min] at hsome
    exact hsome (Nat.zero_le _)
  clear hsome
  exact ⟨Nat.mod_eq_of_lt (by omega), Nat.mod_eq_of_lt (by omega)⟩

/-- A byte of a block of a span lies in the span. -/
theorem mem_span {bs be size i : Nat} (hbs : bs ≤ i / 65536)
    (hbe : i / 65536 ≤ be) (hi : i < size) :
    bs * 65536 ≤ i ∧
      i < bs * 65536 + (min ((be + 1) * 65536) size - bs * 65536) := by
  omega

section Miss

variable {bs be n : Nat} (hd : d.Holds true published)
  (hpos : 0 < published.size) (hs : published.size < 2 ^ 63)
  (hn : n = rangeCacheBitmapBytes (rangeCacheNumBlocks published.size))

include hd hpos hs hn

theorem size_sized : (d.sized n).data.size = published.size := by
  have := bitmapBytes_pos hpos hs
  rw [sized]
  split
  · show (d.data.truncate d.origin.size).size = _
    rw [Bytes.size_truncate, hd.origin rfl]
  · obtain hzero | ⟨-, hsize⟩ := hd.sized rfl
    · omega
    · exact hsize

theorem created_sized : (d.sized n).created = true := by
  have := bitmapBytes_pos hpos hs
  rw [sized]
  split
  · rfl
  · exact hd.created (by omega)

/-- Setting the sizes leaves alone what is recorded. -/
theorem hasBlocks_sized
    (hset : rangeCacheBlocksSet (seenBitmap most n d.bitmap) bs be =
      some true) : HasBlocks published bs be (d.sized n) := by
  have hbits : ∀ b, bs ≤ b → b ≤ be → Bit d.bitmap b := fun b hb hbe =>
    bit_of_seen (rangeCacheBlocksSet_true hset b hb hbe)
  refine ⟨created_sized hd hpos hs hn, size_sized hd hpos hs hn,
    fun i hi hbs hbe => ?_⟩
  have hbit := hbits _ hbs hbe
  rw [sized]
  split
  · -- a bitmap without its size records nothing
    obtain hzero | ⟨hfull, -⟩ := hd.sized rfl
    · exact absurd hbit (not_bit_of_size (by omega))
    · omega
  · exact hd.cached rfl i hi hbit

/-- What has been fetched is there, and what was there stays. -/
theorem hasBlocks_fetchedAt {b : Bytes Byte} {off len : Nat}
    (hlen : off + len ≤ published.size)
    (hin : ∀ i < published.size, bs ≤ i / rangeCacheBlockSize →
      i / rangeCacheBlockSize ≤ be → off ≤ i ∧ i < off + len) :
    HasBlocks published bs be
      { (d.sized n).fetched off len with bitmap := b } := by
  have horigin : (d.sized n).origin = published :=
    (origin_sized n).trans (hd.origin rfl)
  have hsize := size_sized hd hpos hs hn
  refine ⟨created_sized hd hpos hs hn, ?_, fun i hi hbs hbe => ?_⟩
  · show ((d.sized n).data.splice _ _).size = _
    rw [Bytes.size_splice, Bytes.size_slice, horigin, hsize]
    split <;> omega
  · obtain ⟨hfrom, hto⟩ := hin i hi hbs hbe
    show ((d.sized n).data.splice _ _).get i = _
    rw [Bytes.get_splice, Bytes.size_slice, horigin,
      if_pos ⟨hfrom, by omega⟩, Bytes.get_slice_of_lt _ (by omega),
      Nat.add_sub_cancel' hfrom]

/-- A span that has been fetched is there. -/
theorem hasBlocks_fetched {b : Bytes Byte} (hbe : be < 2 ^ 48)
    (hsome : ¬ min ((be + 1) * rangeCacheBlockSize % 2 ^ 64) published.size ≤
      bs * rangeCacheBlockSize % 2 ^ 64) :
    HasBlocks published bs be
      { (d.sized n).fetched (bs * rangeCacheBlockSize % 2 ^ 64)
          (min ((be + 1) * rangeCacheBlockSize % 2 ^ 64) published.size -
            bs * rangeCacheBlockSize % 2 ^ 64) with bitmap := b } := by
  refine hasBlocks_fetchedAt hd hpos hs hn ?_ fun i hi hbs hbe' => ?_
  · rw [Nat.add_sub_of_le (Nat.le_of_not_le hsome)]
    exact Nat.min_le_right _ _
  · rw [rangeCacheBlockSize_eq] at hsome hbs hbe' ⊢
    obtain ⟨hoff, hend⟩ := span_of_some hbe (hbs.trans hbe') hsome
    rw [hoff, hend]
    exact mem_span hbs hbe' hi

theorem rangeCacheFill_comes (hbe : be < 2 ^ 48) (hspan : bs ≤ be) :
    Comes (HasBlocks published bs be)
      (let spanOff := bs * rangeCacheBlockSize % 2 ^ 64
       let spanEnd :=
        min ((be + 1) * rangeCacheBlockSize % 2 ^ 64) published.size
       if spanEnd ≤ spanOff ∨ most < spanEnd - spanOff then some false
       else if n ≤ be / 8 then none
       else some (decide (n ≤ most)))
      ((rangeCacheFill 4 bs be published.size n).exec (step most)
        (d.sized n)) := by
  have horigin : (d.sized n).origin = published :=
    (origin_sized n).trans (hd.origin rfl)
  have hbitmap : (d.sized n).bitmap = d.bitmap.truncate n :=
    bitmap_sized ((hd.sized rfl).imp id fun h => h.1.trans hn.symm)
  have hlt := bitmapBytes_lt (rangeCacheNumBlocks published.size)
  have hfetch := @rangeCacheFetchSpan_exec most (d.sized n) bs be
    (created_sized hd hpos hs hn) (by rw [horigin]; exact hs)
  rw [horigin] at hfetch
  dsimp only at hfetch ⊢
  unfold rangeCacheFill
  split
  · next hno =>
    rw [if_pos hno] at hfetch
    exact ⟨_, _, (Prog.exec_seq hfetch).trans rfl, rfl⟩
  · next hyes =>
    rw [if_neg hyes] at hfetch
    have hrec := fun off len => @rangeCacheRecord_exec most
      ((d.sized n).fetched off len) bs be n d.bitmap hbitmap (by omega) hspan
    split
    · next hout =>
      simp only [if_pos hout] at hrec
      exact (Prog.exec_seq hfetch).trans (hrec _ _)
    · next hin =>
      simp only [if_neg hin] at hrec
      obtain ⟨b, hb⟩ := hrec _ _
      by_cases hmost : n ≤ most
      · rw [if_pos hmost] at hb
        rw [decide_eq_true hmost]
        exact ⟨_, (Prog.exec_seq hfetch).trans hb,
          hasBlocks_fetched hd hpos hs hn hbe fun h => hyes (Or.inl h)⟩
      · rw [if_neg hmost] at hb
        rw [decide_eq_false hmost]
        exact ⟨_, _, (Prog.exec_seq hfetch).trans hb, rfl⟩

end Miss

theorem rangeCacheBlocksSet_empty {bitmap : Bytes Byte} {bs be : Nat}
    (h : be < bs) : rangeCacheBlocksSet bitmap bs be = some true := by
  rw [rangeCacheBlocksSet, show be + 1 - bs = 0 by omega]
  rfl

/-- The rest of a miss, from the recheck of the span on. -/
def missRest (bs be originSize n : Nat) (alreadyCached : Bool) :
    Program Rc := do
  let _ ← dyadReleaseFlock 4
  sys .mutexUnlock
  if alreadyCached then
    let _ ← sys (.close 4)
    return .ok
  else
    rangeCacheFill 4 bs be originSize n

theorem rangeCacheMiss_exec {bs be n : Nat} (hd : d.Holds true published)
    (hzero : published.size ≠ 0)
    (hn : n = rangeCacheBitmapBytes (rangeCacheNumBlocks published.size)) :
    (rangeCacheMiss 4 bs be).exec (step most) d =
      ((checkBlocks (seenBitmap most n d.bitmap) bs be).bind
        (missRest bs be published.size n)).exec (step most) (d.sized n) := by
  have horigin := hd.origin rfl
  have hlt := bitmapBytes_lt (rangeCacheNumBlocks published.size)
  have hbitmap : (d.sized n).bitmap = d.bitmap.truncate n :=
    bitmap_sized ((hd.sized rfl).imp id fun h => h.1.trans hn.symm)
  have hsize := @rangeCacheSize_exec most d n
  unfold rangeCacheMiss missRest
  refine (Prog.exec_step rfl).trans ?_
  have hget : d.get 5 = published := horigin
  rw [hget]
  dsimp only
  rw [if_neg hzero, ← hn]
  rw [horigin] at hsize
  refine (Prog.exec_seq hsize).trans ?_
  have hmalloc := @malloc_exec most (d.sized n) n (by omega)
  refine (Prog.exec_step hmalloc).trans ?_
  refine (Prog.exec_seq (preadBitmap_exec hbitmap)).trans ?_
  rw [Prog.bind_eq]

theorem rangeCacheMiss_comes {bs be : Nat} (hd : d.Holds true published)
    (hs : published.size < 2 ^ 63) (hbe : be < 2 ^ 48)
    (hmiss : ¬ FastHit most d bs be) :
    Comes (HasBlocks published bs be) (d.blocksPresent most bs be)
      ((rangeCacheMiss 4 bs be).exec (step most) d) := by
  have horigin := hd.origin rfl
  rw [blocksPresent, if_neg hmiss, horigin]
  by_cases hzero : published.size = 0
  · rw [if_pos hzero]
    refine ⟨d, .badfio, ?_, rfl⟩
    unfold rangeCacheMiss
    refine (Prog.exec_step rfl).trans ?_
    show Prog.exec (step most) (if d.origin.size = 0 then _ else _) d = _
    rw [horigin, if_pos hzero]
    rfl
  have hpos : 0 < published.size := Nat.pos_of_ne_zero hzero
  rw [if_neg hzero, rangeCacheMiss_exec hd hzero rfl]
  cases hcheck : rangeCacheBlocksSet (seenBitmap most
      (rangeCacheBitmapBytes (rangeCacheNumBlocks published.size)) d.bitmap)
      bs be with
  | none => exact Prog.exec_none (checkBlocks_none hcheck)
  | some hit =>
    rw [Prog.exec_seq (checkBlocks_some hcheck)]
    cases hit with
    | true => exact ⟨_, rfl, hasBlocks_sized hd hpos hs rfl hcheck⟩
    | false =>
      refine rangeCacheFill_comes hd hpos hs rfl hbe ?_
      by_contra hempty
      rw [rangeCacheBlocksSet_empty (by omega)] at hcheck
      exact absurd hcheck (by simp)

theorem rangeCacheOpened_comes {bs be : Nat} (hd : d.Holds true published)
    (hs : published.size < 2 ^ 63) (hbe : be < 2 ^ 48) :
    Comes (HasBlocks published bs be) (d.blocksPresent most bs be)
      ((rangeCacheOpened 4 bs be).exec (step most) d) := by
  have hlt := bitmapBytes_lt (rangeCacheNumBlocks published.size)
  have hsize : d.bitmap.size < 2 ^ 63 := by
    rcases hd.sized rfl with hzero | ⟨hfull, -⟩ <;> omega
  have hopened : (rangeCacheOpened 4 bs be).exec (step most) d =
      (if FastHit most d bs be then some (d, .ok)
        else (rangeCacheMiss 4 bs be).exec (step most) d) := by
    unfold rangeCacheOpened
    refine (Prog.exec_step rfl).trans ?_
    refine (Prog.exec_seq rfl).trans ?_
    refine (Prog.exec_seq (fastPath_exec hsize)).trans ?_
    by_cases hhit : FastHit most d bs be
    · rw [decide_eq_true hhit, if_pos hhit]
      rfl
    · rw [decide_eq_false hhit, if_neg hhit]
      rfl
  rw [hopened]
  split
  · next hhit =>
    rw [blocksPresent, if_pos hhit]
    refine ⟨d, rfl, hasBlocks_of_bits hd (Nat.zero_lt_of_lt hhit.1) ?_ (rangeCacheBlocksSet_true hhit.2.2)⟩
    rcases hd.sized rfl with hzero | ⟨-, hfull⟩
    · exact absurd hhit.1 (by omega)
    · exact hfull
  · next hmiss => exact rangeCacheMiss_comes hd hs hbe hmiss

/-- What a side has when it reads a range of some length: a file of the right
size, with the bytes of the range if that lies in the file. -/
structure Fit (published : Bytes Byte) (offset length : UInt64) (d : Disk) :
    Prop where
  off_t : d.data.size < 2 ^ 63
  size : length ≠ 0 → d.data.size = published.size
  range : length ≠ 0 → offset.toNat + length.toNat ≤ published.size →
    d.data.slice offset.toNat length.toNat =
      published.slice offset.toNat length.toNat

theorem HasBlocks.fit {offset length : UInt64}
    (hs : published.size < 2 ^ 63)
    (h : HasBlocks published (blockStart offset) (blockEnd offset length) d) :
    Fit published offset length d := by
  refine ⟨by rw [h.size]; exact hs, fun _ => h.size, fun hlen hin => ?_⟩
  have hlast := toNat_last hs hlen hin
  refine Bytes.ext ?_ fun i hi => ?_
  · rw [Bytes.size_slice, Bytes.size_slice, h.size]
  · rw [Bytes.size_slice] at hi
    rw [Bytes.get_slice_of_lt _ (by omega), Bytes.get_slice_of_lt _ (by omega)]
    refine h.get _ (by rw [← h.size]; omega) ?_ ?_
    · exact Nat.div_le_div_right (Nat.le_add_right _ _)
    · rw [blockEnd, hlast]
      exact Nat.div_le_div_right (by omega)

theorem rangeEnsured_comes {ctx : Ctx} (offset length : UInt64)
    (hd : d.Holds ctx.originPath published) (hs : published.size < 2 ^ 63) :
    Comes (fun d' => Fit published offset length d' ∧
        d'.created = d.openable ctx length) (d.ensured most ctx offset length)
      ((rangeEnsured ctx offset length).exec (step most) d) := by
  rw [ensured, rangeEnsured, openable]
  cases horigin : ctx.originPath with
  | false =>
    rw [horigin] at hd
    obtain ⟨hc, hdata⟩ := hd.whole rfl
    rw [if_pos (Or.inl rfl), if_neg (by simp), hc]
    exact ⟨d, rfl, ⟨hd.off_t, fun _ => by rw [hdata],
      fun _ _ => by rw [hdata]⟩, hc⟩
  | true =>
    rw [horigin] at hd
    rw [if_pos rfl, dyadRangeCacheEnsure, horigin]
    by_cases hlen : length = 0
    · rw [if_pos (Or.inr hlen), if_pos (Or.inr hlen)]
      refine ⟨d, rfl, ⟨hd.off_t, fun h => absurd hlen h,
        fun h => absurd hlen h⟩, ?_⟩
      rw [decide_eq_false fun h => h hlen, Bool.and_false, Bool.or_false]
    have hcond : ¬ (true = false ∨ length = 0) := by simp [hlen]
    rw [if_neg hcond, if_neg hcond]
    by_cases hfits : ctx.pathFits = false
    · rw [if_pos hfits, if_pos hfits]
      exact ⟨d, .badbuf, rfl, rfl⟩
    · rw [if_neg hfits, if_neg hfits]
      refine (rangeCacheOpened_comes hd hs (blockEnd_lt offset length)).imp
        fun d' h => ⟨h.fit hs, h.created.trans ?_⟩
      rw [decide_eq_true hlen, Bool.and_true, Bool.or_true]

/-! ## The local read -/

/-- One read takes the whole range out of a file of `size` bytes. -/
def ReadsWhole (most size : Nat) (offset length : UInt64) : Prop :=
  offset.toNat < 2 ^ 63 ∧ length.toNat < 2 ^ 63 ∧ length.toNat ≤ most ∧
    length.toNat ≤ size - offset.toNat

/-- On the files alone, a step of the consumer is a step of the files. -/
theorem client_exec {rank : Nat} {remote : Option (Except Rc (Bytes Byte))}
    {α : Type} {p : Program α} (hp : Request.FilesOnly p) :
    p.exec (client most rank remote) d = p.exec (step most) d := by
  have hstep : ∀ s c, c.ofFile = true → client most rank remote (id s) c =
      (step most s c).map fun x => (id x.1, x.2) := by
    intro s c hc
    cases c with
    | sys c => rfl
    | ub => rfl
    | _ => exact absurd hc (by simp [Call.ofFile])
  refine (Prog.exec_map hstep hp).trans ?_
  exact congrFun Option.map_id _

theorem consumeRangeRead_filesOnly (offset length : Nat) :
    Request.FilesOnly (consumeRangeRead offset length) := by
  refine Request.sys_filesOnly fun r => ?_
  cases r with
  | error e => exact True.intro
  | ok fd =>
    refine (Request.dyadSharedFlock_filesOnly fd).bind fun rc => ?_
    split
    · exact Request.sys_filesOnly fun _ => True.intro
    · refine Request.sys_filesOnly fun got => ?_
      split
      · refine Request.sys_filesOnly fun nread => ?_
        refine (Request.dyadReleaseFlock_filesOnly fd).bind fun _ => ?_
        refine Request.sys_filesOnly fun _ => ?_
        cases nread with
        | error e => exact True.intro
        | ok data =>
          dsimp only
          split <;> exact True.intro
      · refine (Request.dyadReleaseFlock_filesOnly fd).bind fun _ => ?_
        exact Request.sys_filesOnly fun _ => True.intro

theorem consumeRangeRead_reads {offset length : UInt64}
    (hc : d.created = true) (h : ReadsWhole most d.data.size offset length) :
    (consumeRangeRead offset.toNat length.toNat).exec
      (step most) d =
      some (d, .ok, some (d.data.slice offset.toNat length.toNat)) := by
  obtain ⟨hoff, hlen, hmost, hin⟩ := h
  unfold consumeRangeRead
  refine (Prog.exec_step (open_data hc)).trans ?_
  refine (Prog.exec_seq rfl).trans ?_
  refine (Prog.exec_step (malloc_exec hlen)).trans ?_
  refine (Prog.exec_step (pread_exec hoff)).trans ?_
  refine (Prog.exec_seq rfl).trans ?_
  refine (Prog.exec_step rfl).trans ?_
  let buf := d.data.slice offset.toNat (min most length.toNat)
  show Prog.exec (step most) (if buf.size ≠ length.toNat then
    Prog.pure (Rc.badfio, none) else Prog.pure (Rc.ok, some buf)) d = _
  have hbuf : buf = d.data.slice offset.toNat length.toNat := by
    show d.data.slice offset.toNat (min most length.toNat) = _
    rw [Nat.min_eq_right hmost]
  rw [hbuf, if_neg (by rw [Bytes.size_slice]; omega)]
  rfl

theorem consumeRangeRead_absent {offset length : Nat}
    (hc : d.created = false) :
    (consumeRangeRead offset length).exec (step most) d =
      some (d, .badfio, none) := by
  unfold consumeRangeRead
  exact (Prog.exec_step (open_absent hc)).trans rfl

theorem consumeRangeRead_fails {offset length : UInt64}
    (hc : d.created = true) (h : ¬ ReadsWhole most d.data.size offset length) :
    ∃ rc, (consumeRangeRead offset.toNat length.toNat).exec
      (step most) d = some (d, rc, none) ∧ rc ≠ .ok := by
  unfold consumeRangeRead
  by_cases hlen : length.toNat < 2 ^ 63
  · refine ⟨.badfio, ?_, by decide⟩
    refine (Prog.exec_step (open_data hc)).trans ?_
    refine (Prog.exec_seq rfl).trans ?_
    refine (Prog.exec_step (malloc_exec hlen)).trans ?_
    by_cases hoff : offset.toNat < 2 ^ 63
    · refine (Prog.exec_step (pread_exec hoff)).trans ?_
      refine (Prog.exec_seq rfl).trans ?_
      refine (Prog.exec_step rfl).trans ?_
      let buf := d.data.slice offset.toNat (min most length.toNat)
      show Prog.exec (step most) (if buf.size ≠ length.toNat then
        Prog.pure (Rc.badfio, none) else Prog.pure (Rc.ok, some buf)) d = _
      have hsize : buf.size =
          min (min most length.toNat) (d.data.size - offset.toNat) := rfl
      have hshort : buf.size ≠ length.toNat := by
        intro hfull
        exact h ⟨hoff, hlen, by omega, by omega⟩
      rw [if_pos hshort]
      rfl
    · have hread : step most d
          (.sys (.pread 3 offset.toNat length.toNat)) =
          some (d, .error Errno.EINVAL) := by
        show some (d.exec most (.pread 3 offset.toNat length.toNat)) = _
        rw [exec, if_neg hoff]
      exact (Prog.exec_step hread).trans rfl
  · refine ⟨.sysfail, ?_, by decide⟩
    have hmalloc : step most d (.sys (.malloc length.toNat)) =
        some (d, false) := by
      show some (d, decide (length.toNat < 2 ^ 63)) = _
      rw [decide_eq_false hlen]
    refine (Prog.exec_step (open_data hc)).trans ?_
    refine (Prog.exec_seq rfl).trans ?_
    exact (Prog.exec_step hmalloc).trans rfl

end Disk

/-! ## What is returned -/

/-- What `dyad_consume_range` returns, told in advance: it does not, it fails,
or it returns these bytes. -/
def Returning (o : Option (Rc × Option (Bytes Byte))) :
    Option (Option (Bytes Byte)) → Prop
  | none => o = none
  | some none => ∃ rc, o = some (rc, none) ∧ rc ≠ .ok
  | some (some b) => o = some (.ok, some b)

/-- The checks `dyad_consume_range` opens with are passed. -/
structure Ctx.Rangeable (ctx : Ctx) : Prop where
  h : ctx.h = true
  consManagedPath : ctx.consManagedPath = true
  dtlMode : ctx.dtlMode ≠ .ucx
  tracked : ctx.tracked = true

namespace Disk

instance (most size : Nat) (offset length : UInt64) :
    Decidable (ReadsWhole most size offset length) :=
  inferInstanceAs (Decidable (_ ∧ _ ∧ _ ∧ _))

theorem readsWhole_zero {most size size' : Nat} {offset length : UInt64}
    (hlen : length = 0) (h : ReadsWhole most size offset length) :
    ReadsWhole most size' offset length := by
  subst hlen
  exact ⟨h.1, h.2.1, Nat.zero_le _, Nat.zero_le _⟩

/-- A file that is fit for the range is read like the published one. -/
theorem Fit.readsWhole {most : Nat} {d : Disk} {published : Bytes Byte}
    {offset length : UInt64} (h : Fit published offset length d) :
    ReadsWhole most d.data.size offset length ↔
      ReadsWhole most published.size offset length := by
  by_cases hlen : length = 0
  · exact ⟨readsWhole_zero hlen, readsWhole_zero hlen⟩
  · rw [h.size hlen]

theorem Fit.slice {most : Nat} {d : Disk} {published : Bytes Byte}
    {offset length : UInt64} (h : Fit published offset length d)
    (hr : ReadsWhole most published.size offset length) :
    d.data.slice offset.toNat length.toNat =
      published.slice offset.toNat length.toNat := by
  by_cases hlen : length = 0
  · subst hlen
    exact Bytes.ext rfl fun i hi => absurd hi (by simp)
  · have hpos : 0 < length.toNat := by
      by_contra hzero
      exact hlen (UInt64.toNat_inj.1 (by simpa using hzero))
    obtain ⟨-, -, -, hin⟩ := hr
    exact h.range hlen (by omega)

end Disk

namespace RangeSetting

variable (S : RangeSetting) (offset length : UInt64)

/-- The local call: it returns the range if that can be made present and one
read takes all of it. -/
def nearAnswer : Option (Option (Bytes Byte)) :=
  (S.here.present S.most S.ctx offset length).map fun ok =>
    if ok = true ∧
        Disk.ReadsWhole S.most S.published.size offset length then
      some (S.published.slice offset.toNat length.toNat)
    else none

theorem consumeRangeLocal_eq (ctx : Ctx) :
    consumeRangeLocal ctx offset length =
      (rangeEnsured ctx offset length).bind fun rc =>
        if rc.isError then Prog.pure (rc, none)
        else consumeRangeRead offset.toNat length.toNat := by
  unfold consumeRangeLocal rangeEnsured
  cases ctx.originPath <;> rfl

theorem rangeEnsured_filesOnly (ctx : Ctx) :
    Request.FilesOnly (rangeEnsured ctx offset length) := by
  unfold rangeEnsured
  split
  · exact Request.dyadRangeCacheEnsure_filesOnly ctx offset length
  · exact True.intro

theorem consumeRangeLocal_filesOnly (ctx : Ctx) :
    Request.FilesOnly (consumeRangeLocal ctx offset length) := by
  rw [consumeRangeLocal_eq]
  refine (rangeEnsured_filesOnly offset length ctx).bind fun rc => ?_
  split
  · exact True.intro
  · exact Disk.consumeRangeRead_filesOnly _ _

/-- The call up to where it knows whose the file is. -/
theorem dyadConsumeRange_exec {ctx : Ctx} (hctx : ctx.Rangeable)
    {most rank : Nat} {fetched : Option (Except Rc (Bytes Byte))} {d : Disk} :
    (dyadConsumeRange ctx offset length).exec
        (Disk.client most rank fetched) d =
      (if rank / ctx.serviceMux = ctx.nodeIdx then
        consumeRangeLocal ctx offset length
      else
        (perform (.getDataRange offset.toNat length.toNat)).bind fun r =>
          match r with
          | .error rc => Prog.pure (rc, none)
          | .ok data => Prog.pure (.ok, some data)).exec
        (Disk.client most rank fetched) d := by
  rw [dyadConsumeRange, if_neg (by rw [hctx.h]; decide),
    if_neg (by rw [hctx.consManagedPath]; decide), if_neg hctx.dtlMode,
    if_neg (by rw [hctx.tracked]; decide)]
  have hmeta : (dyadFetchMetadata ctx).exec
      (Disk.client most rank fetched) d =
      some (d, .ok (if rank / ctx.serviceMux = ctx.nodeIdx then none
        else some rank)) := by
    refine (Prog.exec_step rfl).trans ?_
    dsimp only
    split <;> rfl
  by_cases hown : rank / ctx.serviceMux = ctx.nodeIdx
  · rw [if_pos hown] at hmeta ⊢
    exact (Prog.exec_seq hmeta).trans rfl
  · rw [if_neg hown] at hmeta ⊢
    exact (Prog.exec_seq hmeta).trans rfl

theorem consumeNear_answers (hctx : S.ctx.Rangeable) :
    Returning (S.consumeNear offset length) (S.nearAnswer offset length) := by
  have hens := @Disk.rangeEnsured_comes S.most S.here S.published S.ctx offset
    length S.here_holds S.off_t
  rw [consumeNear, dyadConsumeRange_exec offset length hctx,
    if_pos S.near_local, Disk.client_exec
      (consumeRangeLocal_filesOnly offset length S.ctx),
    consumeRangeLocal_eq, nearAnswer, Disk.present]
  match hp : S.here.ensured S.most S.ctx offset length with
  | none =>
    rw [hp] at hens
    rw [Prog.exec_none hens]
    rfl
  | some false =>
    rw [hp] at hens
    obtain ⟨d, rc, hev, herr⟩ := hens
    rw [Prog.exec_seq hev, if_pos herr]
    exact ⟨rc, rfl, (Rc.isError_iff rc).1 herr⟩
  | some true =>
    rw [hp] at hens
    obtain ⟨d, hev, hfit, hc⟩ := hens
    rw [Prog.exec_seq hev]
    show Returning (Option.map Prod.snd (Prog.exec (Disk.step S.most)
      (consumeRangeRead offset.toNat length.toNat) d))
      (some (if (true && S.here.openable S.ctx length) = true ∧
        Disk.ReadsWhole S.most S.published.size offset length then
        some (S.published.slice offset.toNat length.toNat) else none))
    rw [Bool.true_and, ← hc]
    cases hcreated : d.created with
    | false =>
      rw [if_neg (by simp), Disk.consumeRangeRead_absent hcreated]
      exact ⟨.badfio, rfl, by decide⟩
    | true =>
      by_cases hr : Disk.ReadsWhole S.most S.published.size offset length
      · rw [if_pos ⟨rfl, hr⟩,
          Disk.consumeRangeRead_reads hcreated (hfit.readsWhole.2 hr),
          hfit.slice hr]
        rfl
      · obtain ⟨rc, hev', hrc⟩ := Disk.consumeRangeRead_fails hcreated
          fun h => hr (hfit.readsWhole.1 h)
        rw [if_neg fun h => hr h.2, hev']
        exact ⟨rc, rfl, hrc⟩

end RangeSetting

/-! ## The owner -/

/-- The stream is ended with an error. -/
def Link.ended (l : Link) (e : Errno) : Link :=
  { l with stream := l.stream ++ [.error e] }

namespace Owner

variable {most : Nat} {mode : DtlMode} {offset length : UInt64} {s : Owner}
  {α : Type}

theorem disk_step (s : Owner) (c : Call) (hc : c.ofFile = true) :
    Disk.step most s.disk c =
      (step most mode offset length s c).map fun x => (x.1.disk, x.2) := by
  cases c with
  | sys c => rfl
  | ub => rfl
  | _ => exact absurd hc (by simp [Call.ofFile])

theorem link_step {s s' : Owner} {c : Call} {r : c.Res}
    (hc : c.silent = true ∨ c.ofFile = true)
    (h : step most mode offset length s c = some (s', r)) :
    s'.link = s.link := by
  cases c with
  | ub => exact r.elim
  | sys c =>
    obtain ⟨rfl, -⟩ := Prod.mk.inj (Option.some.inj h)
    rfl
  | errno =>
    obtain ⟨rfl, -⟩ := Prod.mk.inj (Option.some.inj h)
    rfl
  | setErrno e =>
    obtain ⟨rfl, -⟩ := Prod.mk.inj (Option.some.inj h)
    rfl
  | _ => exact absurd hc (by simp [Call.silent, Call.ofFile])

/-- A silent program sends nothing. -/
theorem link_silent {p : Program α} (hp : Silent p) {s s' : Owner} {a : α}
    (h : p.exec (step most mode offset length) s = some (s', a)) :
    s'.link = s.link :=
  Prog.exec_keeps (P := fun s' => s'.link = s.link)
    (fun _ _ _ hc hs h => (link_step (Or.inl hc) h).trans hs) hp rfl h

/-- What the files come to, they come to at the owner. -/
theorem exec_comes {p : Program Rc} (hp : Request.FilesOnly p)
    {Q : Disk → Prop} {b : Option Bool}
    (h : Comes Q b (p.exec (Disk.step most) s.disk)) :
    Comes (fun s' => Q s'.disk ∧ s'.link = s.link) b
      (p.exec (step most mode offset length) s) := by
  rw [@Prog.exec_map _ _ _ _ _ _ (step most mode offset length) _ _ disk_step
    _ hp s] at h
  match b with
  | none => exact Option.map_eq_none_iff.1 h
  | some false =>
    obtain ⟨d, rc, hev, herr⟩ := h
    obtain ⟨⟨s', rc'⟩, hev', heq⟩ := Option.map_eq_some_iff.1 hev
    obtain ⟨-, rfl⟩ := Prod.mk.inj heq
    exact ⟨s', _, hev', herr⟩
  | some true =>
    obtain ⟨d, hev, hQ⟩ := h
    obtain ⟨⟨s', rc'⟩, hev', heq⟩ := Option.map_eq_some_iff.1 hev
    obtain ⟨rfl, rfl⟩ := Prod.mk.inj heq
    refine ⟨s', hev', hQ, ?_⟩
    exact Prog.exec_keeps (P := fun s' => s'.link = s.link)
      (fun _ _ _ hc hs h => (link_step (Or.inr hc) h).trans hs) hp rfl hev'

/-! ## Its reads -/

theorem preadAt_reads {off : UInt64} {len : Nat} (hneg : ¬ toSsize off < 0) :
    (preadAt 3 off len).exec (step most mode offset length) s =
      some (s, some (s.disk.data.slice off.toNat (min most len))) := by
  have hread : step most mode offset length s (.sys (.pread 3 off.toNat len)) =
      some (s, .ok (s.disk.data.slice off.toNat (min most len))) := by
    have hexec : s.disk.exec most (.pread 3 off.toNat len) =
        (s.disk, .ok (s.disk.data.slice off.toNat (min most len))) := by
      rw [Disk.exec, if_pos (lt_of_toSsize hneg)]
      rfl
    rw [step, hexec]
    rfl
  rw [preadAt, if_neg hneg]
  exact (Prog.exec_step hread).trans rfl

theorem preadAt_negative {off : UInt64} {len : Nat} (hneg : toSsize off < 0) :
    (preadAt 3 off len).exec (step most mode offset length) s =
      some ({ s with errno := Errno.EINVAL }, none) := by
  rw [preadAt, if_pos hneg]
  rfl

attribute [local irreducible] toSsize clampRange

section Loop

variable {off : UInt64} {len : Nat} (hgran : transferGranularity ≤ most)
  (hs : s.disk.data.size < 2 ^ 63)

include hgran hs

/-- A turn of the loop inside the file. -/
theorem readLoop_turn {fuel : Nat} {content : Bytes Byte}
    (hmore : content.size < len)
    (hin : off.toNat + content.size ≤ s.disk.data.size) :
    let n := min (len - content.size) transferGranularity
    let d := s.disk.data.slice (off.toNat + content.size) n
    (rangeReadLoop 3 off len (fuel + 1) content).exec
        (step most mode offset length) s =
      (if d.size = 0 then Prog.pure none
        else rangeReadLoop 3 off len fuel (content.append d)).exec
        (step most mode offset length) s := by
  have hoff : (off + UInt64.ofNat content.size).toNat =
      off.toNat + content.size := toNat_addOfNat (by omega)
  have hneg : ¬ toSsize (off + UInt64.ofNat content.size) < 0 := by
    rw [toSsize_of_lt (by omega)]
    omega
  have hread := @preadAt_reads most mode offset length s _
    (min (len - content.size) transferGranularity) hneg
  have hmost : min (len - content.size) transferGranularity ≤ most :=
    (Nat.min_le_right _ _).trans hgran
  rw [hoff, Nat.min_eq_right hmost] at hread
  rw [rangeReadLoop, if_pos hmore]
  exact Prog.exec_seq hread

/-- A range inside the file is read to its end. -/
theorem readLoop_reads (hin : off.toNat + len ≤ s.disk.data.size)
    {fuel : Nat} {content : Bytes Byte} (hle : content.size ≤ len)
    (hc : content = s.disk.data.slice off.toNat content.size)
    (hfuel : len ≤ content.size + fuel) :
    (rangeReadLoop 3 off len fuel content).exec
        (step most mode offset length) s =
      some (s, some (s.disk.data.slice off.toNat len)) := by
  induction fuel generalizing content with
  | zero =>
    rw [show len = content.size by omega, ← hc]
    rfl
  | succ fuel ih =>
    by_cases hmore : content.size < len
    · rw [@readLoop_turn most mode offset length s off len hgran hs _ _ hmore
        (by omega)]
      generalize hn : min (len - content.size) transferGranularity = n
      have hpos : 0 < transferGranularity := by decide
      have hd := Bytes.size_slice s.disk.data (off.toNat + content.size) n
      have happ := Bytes.size_append content
        (s.disk.data.slice (off.toNat + content.size) n)
      have hfull : (content.append
          (s.disk.data.slice (off.toNat + content.size) n)).size =
          content.size + n := by omega
      rw [if_neg (by omega)]
      refine ih (by omega) ?_ (by omega)
      calc content.append (s.disk.data.slice (off.toNat + content.size) n)
          = (s.disk.data.slice off.toNat content.size).append
              (s.disk.data.slice (off.toNat + content.size) n) := by rw [← hc]
        _ = s.disk.data.slice off.toNat (content.size + n) :=
            Bytes.slice_append _ (by omega)
        _ = _ := by rw [hfull]
    · rw [rangeReadLoop, if_neg hmore, show len = content.size by omega, ← hc]
      rfl

/-- A range past the end of the file is not. -/
theorem readLoop_stuck (hout : s.disk.data.size < off.toNat + len)
    {fuel : Nat} {content : Bytes Byte}
    (hc : off.toNat + content.size ≤ s.disk.data.size)
    (hfuel : len ≤ content.size + fuel) :
    (rangeReadLoop 3 off len fuel content).exec
      (step most mode offset length) s = some (s, none) := by
  induction fuel generalizing content with
  | zero => omega
  | succ fuel ih =>
    rw [@readLoop_turn most mode offset length s off len hgran hs _ _
      (by omega) hc]
    have hd := Bytes.size_slice s.disk.data (off.toNat + content.size)
      (min (len - content.size) transferGranularity)
    split
    · rfl
    · have happ := Bytes.size_append content (s.disk.data.slice
        (off.toNat + content.size)
        (min (len - content.size) transferGranularity))
      exact ih (by omega) (by omega)

end Loop

/-! ## The ranges it serves -/

/-- The range does not start past the largest offset, and does not end there
either, unless it starts past the end of the file; or it is empty. -/
def Servable (size : Nat) (offset length : UInt64) : Prop :=
  length = 0 ∨ (offset.toNat < 2 ^ 63 ∧
    (size ≤ offset.toNat ∨ offset.toNat + length.toNat < 2 ^ 63))

instance (size : Nat) (offset length : UInt64) :
    Decidable (Servable size offset length) :=
  inferInstanceAs (Decidable (_ ∨ _ ∧ (_ ∨ _)))

theorem length_eq_zero_iff (length : UInt64) : length = 0 ↔ length.toNat = 0 :=
  UInt64.toNat_inj.symm

/-- What the clamp makes of a range that is served is in the file, and the
other way round. -/
theorem servable_iff {size : Nat} (hs : size < 2 ^ 63) :
    Servable size offset length ↔
      0 ≤ clampRange offset length size ∧
        InFile offset (clampRange offset length size) size := by
  have hsum : (offset + length).toNat =
      (offset.toNat + length.toNat) % 2 ^ 64 := UInt64.toNat_add ..
  have ho := toSsize_cases offset
  have hl := toSsize_cases length
  have hw := toSsize_cases (offset + length)
  have hlt := length.toNat_lt
  have hlt' := offset.toNat_lt
  rw [Servable, length_eq_zero_iff, InFile, clampRange]
  generalize toSsize offset = so at *
  generalize toSsize length = sl at *
  generalize toSsize (offset + length) = sw at *
  generalize (offset + length).toNat = w at *
  generalize offset.toNat = o at *
  generalize length.toNat = l at *
  split
  · omega
  · split <;> omega

/-- A range that is read whole is not clamped. -/
theorem clampRange_whole {size : Nat} (hs : size < 2 ^ 63)
    (h : Disk.ReadsWhole most size offset length) :
    clampRange offset length size = length.toNat := by
  obtain ⟨hoff, hlen, -, hin⟩ := h
  have hsum : (offset + length).toNat =
      (offset.toNat + length.toNat) % 2 ^ 64 := UInt64.toNat_add ..
  have ho := toSsize_cases offset
  have hl := toSsize_cases length
  have hw := toSsize_cases (offset + length)
  rw [clampRange]
  generalize toSsize offset = so at *
  generalize toSsize length = sl at *
  generalize toSsize (offset + length) = sw at *
  generalize (offset + length).toNat = w at *
  generalize offset.toNat = o at *
  generalize length.toNat = l at *
  split
  · omega
  · split <;> omega

theorem servable_whole {size : Nat} (hs : size < 2 ^ 63)
    (h : Disk.ReadsWhole most size offset length) :
    Servable size offset length := by
  obtain ⟨hoff, hlen, -, hin⟩ := h
  rw [Servable, length_eq_zero_iff]
  generalize offset.toNat = o at *
  generalize length.toNat = l at *
  omega

theorem readLoop_negative {off : UInt64} {len : Nat} (hneg : toSsize off < 0)
    (hlen : 0 < len) :
    (rangeReadLoop 3 off len len Bytes.empty).exec
        (step most mode offset length) s =
      some ({ s with errno := Errno.EINVAL }, none) := by
  obtain ⟨fuel, rfl⟩ := Nat.exists_eq_succ_of_ne_zero (Nat.ne_of_gt hlen)
  have hempty : (Bytes.empty : Bytes Byte).size = 0 := rfl
  have hoff : off + UInt64.ofNat 0 = off := by simp
  rw [rangeReadLoop, hempty, if_pos hlen, hoff]
  exact Prog.exec_seq (preadAt_negative hneg)

section Reads

variable (hgran : transferGranularity ≤ most)
  (hs : s.disk.data.size < 2 ^ 63)

include hgran hs

/-- The loop reads what the clamp left of a range that lies in the file. -/
theorem loop_reads {off : UInt64} {n : Nat} {len : Int} (hn : len.toNat = n)
    (hin : InFile off len s.disk.data.size) :
    (rangeReadLoop 3 off n n Bytes.empty).exec
        (step most mode offset length) s =
      some (s, some (s.disk.data.slice off.toNat n)) := by
  have hzero : Bytes.empty = s.disk.data.slice off.toNat 0 :=
    Bytes.ext (by rw [Bytes.size_slice, Nat.zero_min]; rfl)
      fun i hi => absurd hi (Nat.not_lt_zero i)
  by_cases hpos : 0 < len
  · obtain hle | ⟨hneg, hend⟩ := hin
    · omega
    have hoff := toSsize_of_lt (lt_of_toSsize (by omega : ¬ toSsize off < 0))
    exact readLoop_reads hgran hs (by omega) (Nat.zero_le _) hzero
      (Nat.le_add_left _ _)
  · obtain rfl : n = 0 := by omega
    rw [← hzero]
    rfl

/-- It does not get to the end of one that does not. -/
theorem loop_fails {off : UInt64} {n : Nat} {len : Int} (hn : len.toNat = n)
    (hstart : 0 < len → toSsize off < s.disk.data.size)
    (hout : ¬ InFile off len s.disk.data.size) :
    ∃ s', (rangeReadLoop 3 off n n Bytes.empty).exec
      (step most mode offset length) s = some (s', none) := by
  have hpos : 0 < len := by
    by_contra hle
    exact hout (Or.inl (by omega))
  by_cases hneg : toSsize off < 0
  · exact ⟨_, readLoop_negative hneg (by omega)⟩
  · have hoff := toSsize_of_lt (lt_of_toSsize hneg)
    have hpast : (s.disk.data.size : Int) < toSsize off + len := by
      by_contra hle
      exact hout (Or.inr ⟨by omega, by omega⟩)
    have hempty : (Bytes.empty : Bytes Byte).size = 0 := rfl
    have := hstart hpos
    exact ⟨s, readLoop_stuck hgran hs (by omega) (by omega) (by omega)⟩

/-- The synchronous path reads the same, in one piece below a gibibyte. -/
theorem rangeRead_reads {off : UInt64} {len : Int}
    (hin : InFile off len s.disk.data.size) :
    (rangeRead 3 off len).exec (step most mode offset length) s =
      some (s, some (s.disk.data.slice off.toNat len.toNat)) := by
  rw [rangeRead]
  split
  · next hpos =>
    split
    · next hlt =>
      obtain hle | ⟨hneg, hend⟩ := hin
      · omega
      rw [preadAt_reads (by omega), Nat.min_eq_right (by omega)]
    · exact loop_reads hgran hs rfl hin
  · next hle =>
    rw [Int.toNat_eq_zero.2 (by omega)]
    congr 3

/-- Otherwise it has nothing it would send. -/
theorem rangeRead_fails {off : UInt64} {len : Int}
    (hstart : 0 < len → toSsize off < s.disk.data.size)
    (hout : ¬ InFile off len s.disk.data.size) :
    ∃ s' r, (rangeRead 3 off len).exec (step most mode offset length) s =
        some (s', r) ∧
      ∀ c, r = some c → len > 0 ∧ (c.size : Int) ≠ len := by
  have hpos : 0 < len := by
    by_contra hle
    exact hout (Or.inl (by omega))
  rw [rangeRead, if_pos hpos]
  split
  · next hlt =>
    by_cases hneg : toSsize off < 0
    · exact ⟨_, none, preadAt_negative hneg, by simp⟩
    · refine ⟨s, _, preadAt_reads hneg, fun c hc => ⟨hpos, fun hfull => ?_⟩⟩
      obtain rfl := Option.some.inj hc
      have hoff := toSsize_of_lt (lt_of_toSsize hneg)
      rw [Bytes.size_slice] at hfull
      exact hout (Or.inr ⟨by omega, by omega⟩)
  · obtain ⟨s', hev⟩ := @loop_fails most mode offset length s hgran hs off
      len.toNat len rfl hstart hout
    exact ⟨s', none, hev, by simp⟩

end Reads

/-! ## How it ends -/

/-- The service comes to an end, and has put `l` on the link. -/
def Leaves (l : Link) (o : Option (Owner × α)) : Prop :=
  ∃ s a, o = some (s, a) ∧ s.link = l

/-- The request was refused: the stream on `l` is ended with an error. -/
def Refused (l : Link) (o : Option (Owner × α)) : Prop :=
  ∃ e, Leaves (l.ended e) o

/-- It was served with `payload`. -/
def Served (mode : DtlMode) (l : Link) (payload : Bytes Byte)
    (o : Option (Owner × α)) : Prop :=
  Leaves ((l.send mode payload).ended Errno.ENODATA) o

theorem fetchError_refused (fd : Nat) :
    Refused s.link ((fetchError fd).exec (step most mode offset length) s) :=
  ⟨_, _, _, rfl, rfl⟩

theorem fetchSend_served (payload : Bytes Byte) :
    Served mode s.link payload
      ((fetchSend payload).exec (step most mode offset length) s) :=
  ⟨_, _, rfl, rfl⟩

theorem getBuffer_step {n : Nat} (hn : n < 2 ^ 63) :
    step most mode offset length s (.getBuffer n) = some (s, .ok ()) := by
  rw [step, if_pos hn]

theorem getBuffer_refuses {n : Nat} (hn : ¬ n < 2 ^ 63) :
    step most mode offset length s (.getBuffer n) =
      some (s, .error .sysfail) := by
  rw [step, if_neg hn]

section Tails

variable (hgran : transferGranularity ≤ most)
  (hs : s.disk.data.size < 2 ^ 63)

include hgran hs

omit hgran in
/-- What a served range comes to. -/
theorem servable_slice (h : Servable s.disk.data.size offset length) :
    let len := clampRange offset length s.disk.data.size
    0 ≤ len ∧ len < 2 ^ 63 ∧ InFile offset len s.disk.data.size ∧
      ((s.disk.data.slice offset.toNat len.toNat).size : Int) = len := by
  obtain ⟨hnonneg, hin⟩ := (servable_iff hs).1 h
  refine ⟨hnonneg, ?_, hin, ?_⟩
  · rcases hin with hle | ⟨hneg, hend⟩ <;> omega
  · rw [Bytes.size_slice]
    rcases hin with hle | ⟨hneg, hend⟩
    · omega
    · have hoff := toSsize_of_lt
        (lt_of_toSsize (by omega : ¬ toSsize offset < 0))
      omega

theorem rangeClamped_serves
    (h : Servable s.disk.data.size offset length) :
    Served mode s.link
      (s.disk.data.slice offset.toNat
        (clampRange offset length s.disk.data.size).toNat)
      ((rangeClamped 3 offset
        (clampRange offset length s.disk.data.size)).exec
        (step most mode offset length) s) := by
  obtain ⟨hnonneg, hlt, hin, hsize⟩ := servable_slice hs h
  generalize clampRange offset length s.disk.data.size = len at *
  have hread := @rangeRead_reads most mode offset length s hgran hs _ _ hin
  have hpay := @Request.rangePayload_eq _ _ hsize (by omega)
  unfold rangeClamped
  rw [Prog.bind_eq, Prog.exec_step (getBuffer_step (by omega)), Prog.bind_eq,
    Prog.exec_seq hread]
  dsimp only
  rw [if_neg (by omega), hpay]
  exact @fetchSend_served most mode offset length s _

theorem rangeClamped_refuses
    (h : ¬ Servable s.disk.data.size offset length) :
    Refused s.link ((rangeClamped 3 offset
        (clampRange offset length s.disk.data.size)).exec
        (step most mode offset length) s) := by
  have hno : ¬ (0 ≤ clampRange offset length s.disk.data.size ∧ _) :=
    fun h' => h ((servable_iff hs).2 h')
  have hbounds := @Request.clampRange_bounds offset length _ hs
  have hstart := @clampRange_pos s.disk.data.size offset length
  generalize clampRange offset length s.disk.data.size = len at *
  unfold rangeClamped
  by_cases hbuf : (len % 2 ^ 64).toNat < 2 ^ 63
  · have hnonneg : 0 ≤ len := by omega
    obtain ⟨s', r, hev, hr⟩ := @rangeRead_fails most mode offset length s hgran
      hs offset len hstart fun hin => hno ⟨hnonneg, hin⟩
    have hlink := link_silent (rangeRead_silent 3 offset len) hev
    rw [Prog.bind_eq, Prog.exec_step (getBuffer_step hbuf), Prog.bind_eq,
      Prog.exec_seq hev, ← hlink]
    cases r with
    | none => exact fetchError_refused 3
    | some c =>
      dsimp only
      rw [if_pos (hr c rfl)]
      exact fetchError_refused 3
  · rw [Prog.bind_eq, Prog.exec_step (getBuffer_refuses hbuf)]
    exact fetchError_refused 3

omit hgran hs in
/-- A worker's item that came out well is sent, by the worker or by the
completion. -/
theorem finish_served {item : WorkItem} (hrc : item.rc = .ok)
    (hreq : item.reqState = true) :
    Served mode s.link (rangePayload item.content item.rangeLen)
      (((dyadFetchWorkerFinish item).bind dyadFetchComplete).exec
        (step most mode offset length) s) := by
  obtain ⟨hasOrigin, off, len, threadSafe, reqState, rc, e, rangeLen, content⟩ :=
    item
  obtain rfl : rc = .ok := hrc
  obtain rfl : reqState = true := hreq
  cases threadSafe <;> exact ⟨_, _, rfl, rfl⟩

omit hgran hs in
/-- One that did not is given up, and the error answered. -/
theorem workerError_refused {item : WorkItem} (hreq : item.reqState = true)
    (e : Errno) :
    Refused s.link (((workerError item e).bind dyadFetchComplete).exec
      (step most mode offset length) s) := by
  obtain ⟨hasOrigin, off, len, threadSafe, reqState, rc, e', rangeLen, content⟩ :=
    item
  obtain rfl : reqState = true := hreq
  cases threadSafe <;> exact ⟨e, _, _, rfl, rfl⟩

variable {item : WorkItem} (hoff : item.offset = offset)
  (hlen : item.length = length) (hreq : item.reqState = true)

include hoff hlen hreq

theorem workerRead_serves (h : Servable s.disk.data.size offset length) :
    Served mode s.link
      (s.disk.data.slice offset.toNat
        (clampRange offset length s.disk.data.size).toNat)
      (((workerRead item 3 s.disk.data.size).bind dyadFetchComplete).exec
        (step most mode offset length) s) := by
  subst hoff hlen
  obtain ⟨hnonneg, hlt, hin, hsize⟩ := servable_slice hs h
  unfold workerRead
  generalize clampRange item.offset item.length s.disk.data.size = len at *
  have hread := @loop_reads most mode item.offset item.length s hgran hs
    item.offset
    len.toNat len rfl hin
  have hpay := @Request.rangePayload_eq _ _ hsize (by omega)
  rw [Prog.bind_eq, Prog.bind_assoc, Prog.exec_seq hread]
  have hserved := @finish_served most mode item.offset item.length s
    { item with
      rc := .ok, rangeLen := len,
      content := s.disk.data.slice item.offset.toNat len.toNat } rfl hreq
  rw [hpay] at hserved
  exact hserved

theorem workerRead_refuses (hl : length.toNat < 2 ^ 63)
    (h : ¬ Servable s.disk.data.size offset length) :
    Refused s.link
      (((workerRead item 3 s.disk.data.size).bind dyadFetchComplete).exec
        (step most mode offset length) s) := by
  have hno : ¬ (0 ≤ clampRange offset length s.disk.data.size ∧ _) :=
    fun h' => h ((servable_iff hs).2 h')
  have hnonneg := @Request.clampRange_nonneg offset length hl s.disk.data.size
  have hstart := @clampRange_pos s.disk.data.size offset length
  unfold workerRead
  rw [hoff, hlen]
  generalize clampRange offset length s.disk.data.size = len at *
  obtain ⟨s', hev⟩ := @loop_fails most mode offset length s hgran hs offset
    len.toNat len rfl hstart fun hin => hno ⟨hnonneg, hin⟩
  have hlink := link_silent (rangeReadLoop_silent 3 offset _ _ _) hev
  rw [Prog.bind_eq, Prog.bind_assoc, Prog.exec_seq hev, ← hlink]
  exact workerError_refused hreq _

end Tails

/-! ## The request -/

/-- How the preparation of a read ends, told in advance. -/
def Prepares (l : Link) (Q : Disk → Prop) :
    Option Bool → Option (Owner × Prepared) → Prop
  | none, o => o = none
  | some false, o => ∃ s prep, o = some (s, prep) ∧ s.link = l ∧
    (prep = .absent ∨ prep = .unopened)
  | some true, o => ∃ s, o = some (s, .locked 3) ∧ s.link = l ∧ Q s.disk

theorem rangePrepare_prepares {ctx : Ctx} {published : Bytes Byte}
    (hd : s.disk.Holds ctx.originPath published)
    (hs : published.size < 2 ^ 63) :
    Prepares s.link (Disk.Fit published offset length)
      (s.disk.present most ctx offset length)
      ((rangePrepare ctx offset length).exec
        (step most mode offset length) s) := by
  have hfiles := RangeSetting.rangeEnsured_filesOnly offset length ctx
  have hens := @exec_comes most mode offset length s _ hfiles _ _
    (@Disk.rangeEnsured_comes most s.disk published ctx offset length hd hs)
  unfold rangePrepare
  rw [Disk.present]
  match hp : s.disk.ensured most ctx offset length with
  | none =>
    rw [hp] at hens
    exact Prog.exec_none hens
  | some false =>
    rw [hp] at hens
    obtain ⟨s', rc, hev, herr⟩ := hens
    refine ⟨s', .absent, ?_, ?_, Or.inl rfl⟩
    · rw [Prog.bind_eq, Prog.exec_seq hev, if_pos herr]
      rfl
    · exact Prog.exec_keeps (P := fun s' => s'.link = s.link)
        (fun _ _ _ hc hs h => (link_step (Or.inr hc) h).trans hs) hfiles rfl hev
  | some true =>
    rw [hp] at hens
    obtain ⟨s', hev, ⟨hfit, hc⟩, hlink⟩ := hens
    rw [Option.map_some, Bool.true_and, ← hc]
    cases hcreated : s'.disk.created with
    | false =>
      have hopen : step most mode offset length s'
          (.sys (.open .data false false)) =
          some ({ s' with errno := Errno.ENOENT }, .error Errno.ENOENT) := by
        have hdisk := @Disk.open_absent most _ hcreated false
        rw [step, Option.some.inj hdisk]
        rfl
      exact ⟨_, .unopened, (Prog.exec_seq hev).trans
        ((Prog.exec_step hopen).trans rfl), hlink, Or.inr rfl⟩
    | true =>
      have hopen : step most mode offset length s'
          (.sys (.open .data false false)) = some (s', .ok 3) := by
        have hdisk := @Disk.open_data most _ hcreated false
        rw [step, Option.some.inj hdisk]
        rfl
      exact ⟨s', (Prog.exec_seq hev).trans
        ((Prog.exec_step hopen).trans rfl), hlink, hfit⟩

/-- How a request ends, told in advance: it does not, it is refused, or it is
served with these bytes. -/
def Ended (mode : DtlMode) (l : Link) :
    Option (Option (Bytes Byte)) → Option (Owner × Unit) → Prop
  | none, o => o = none
  | some none, o => Refused l o
  | some (some payload), o => Served mode l payload o

/-- What is made of a range that has been prepared, or not. -/
def answer (size : Nat) (offset length : UInt64) (payload : Bytes Byte)
    (ok : Bool) : Option (Bytes Byte) :=
  if ok = true ∧ Servable size offset length then some payload else none

theorem slice_lt {b : Bytes Byte} (hb : b.size < 2 ^ 63) (off len : Nat) :
    (b.slice off len).size < 2 ^ 63 := by
  rw [Bytes.size_slice]
  omega

theorem servable_fit {published : Bytes Byte} {d : Disk}
    (h : d.Fit published offset length) :
    Servable d.data.size offset length ↔
      Servable published.size offset length := by
  by_cases hlen : length = 0
  · exact iff_of_true (Or.inl hlen) (Or.inl hlen)
  · rw [h.size hlen]

/-- A range that one read takes whole is what the payload holds. -/
theorem payload_fit {published : Bytes Byte} {d : Disk}
    (h : d.Fit published offset length)
    (hr : Disk.ReadsWhole most published.size offset length) :
    d.data.slice offset.toNat
        (clampRange offset length d.data.size).toNat =
      published.slice offset.toNat length.toNat := by
  rw [clampRange_whole h.off_t (h.readsWhole.2 hr), Int.toNat_natCast,
    h.slice hr]

section Request

variable {cfg : RangeConfig} {published : Bytes Byte}
  (hd : s.disk.Holds cfg.ctx.originPath published)
  (hs : published.size < 2 ^ 63)

include hd hs

/-- The rest of a request, once the range has been prepared. -/
theorem prepared_ends {rest : Prepared → Program Unit}
    (habsent : ∀ s prep, prep = .absent ∨ prep = .unopened → Refused s.link
      ((rest prep).exec (step most mode offset length) s))
    (hserves : ∀ s, s.disk.data.size < 2 ^ 63 →
      Servable s.disk.data.size offset length → Served mode s.link
        (s.disk.data.slice offset.toNat
          (clampRange offset length s.disk.data.size).toNat)
        ((rest (.locked 3)).exec (step most mode offset length) s))
    (hrefuses : ∀ s, s.disk.data.size < 2 ^ 63 →
      ¬ Servable s.disk.data.size offset length → Refused s.link
        ((rest (.locked 3)).exec (step most mode offset length) s)) :
    ∃ payload, payload.size < 2 ^ 63 ∧
      (Disk.ReadsWhole most published.size offset length →
        payload = published.slice offset.toNat length.toNat) ∧
      Ended mode s.link
        ((s.disk.present most cfg.ctx offset length).map
          (answer published.size offset length payload))
        (((rangePrepare cfg.ctx offset length).bind rest).exec
          (step most mode offset length) s) := by
  have hprep := @rangePrepare_prepares most mode offset length s _ _ hd hs
  have hslice := slice_lt hs offset.toNat length.toNat
  match hp : s.disk.present most cfg.ctx offset length with
  | none =>
    rw [hp] at hprep
    exact ⟨_, hslice, fun _ => rfl, Prog.exec_none hprep⟩
  | some false =>
    rw [hp] at hprep
    obtain ⟨s', prep, hev, hlink, habs⟩ := hprep
    refine ⟨_, hslice, fun _ => rfl, ?_⟩
    rw [Prog.exec_seq hev, ← hlink]
    exact habsent s' prep habs
  | some true =>
    rw [hp] at hprep
    obtain ⟨s', hev, hlink, hfit⟩ := hprep
    refine ⟨_, slice_lt hfit.off_t _ _, fun hr => payload_fit hfit hr, ?_⟩
    rw [Prog.exec_seq hev, ← hlink]
    by_cases hserv : Servable published.size offset length
    · have hyes : answer published.size offset length (s'.disk.data.slice
          offset.toNat (clampRange offset length s'.disk.data.size).toNat)
          true = some _ :=
        if_pos ⟨rfl, hserv⟩
      rw [Option.map_some, hyes]
      exact hserves s' hfit.off_t ((servable_fit hfit).2 hserv)
    · have hno : answer published.size offset length (s'.disk.data.slice
          offset.toNat (clampRange offset length s'.disk.data.size).toNat)
          true = none := if_neg fun h => hserv h.2
      rw [Option.map_some, hno]
      exact hrefuses s' hfit.off_t fun h => hserv ((servable_fit hfit).1 h)

variable (hgran : transferGranularity ≤ most)

include hgran

omit hd hs hgran in
theorem getFileSize_exec :
    (getFileSize 3).exec (step most mode offset length) s =
      some (s, s.disk.data.size) := rfl

theorem rangeSync_ends :
    ∃ payload, payload.size < 2 ^ 63 ∧
      (Disk.ReadsWhole most published.size offset length →
        payload = published.slice offset.toNat length.toNat) ∧
      Ended mode s.link
        ((s.disk.present most cfg.ctx offset length).map
          (answer published.size offset length payload))
        ((rangeSync cfg offset length).exec
          (step most mode offset length) s) := by
  rw [rangeSync_eq]
  have hlocked : syncRest offset length (.locked 3) =
      (getFileSize 3).bind fun fileSize =>
        rangeClamped 3 offset (clampRange offset length fileSize) := rfl
  refine prepared_ends hd hs (fun s prep habs => ?_) ?_ ?_
  · rcases habs with rfl | rfl <;> exact ⟨_, _, _, rfl, rfl⟩
  · intro s hsize hserv
    rw [hlocked, Prog.exec_seq getFileSize_exec]
    exact rangeClamped_serves hgran hsize hserv
  · intro s hsize hno
    rw [hlocked, Prog.exec_seq getFileSize_exec]
    exact rangeClamped_refuses hgran hsize hno

theorem worker_ends (hl : length.toNat < 2 ^ 63) (threadSafe : Bool) :
    ∃ payload, payload.size < 2 ^ 63 ∧
      (Disk.ReadsWhole most published.size offset length →
        payload = published.slice offset.toNat length.toNat) ∧
      Ended mode s.link
        ((s.disk.present most cfg.ctx offset length).map
          (answer published.size offset length payload))
        (((dyadFetchWorkerProcess cfg.ctx
          (requestItem cfg.ctx threadSafe offset length)).bind
            dyadFetchComplete).exec (step most mode offset length) s) := by
  rw [dyadFetchWorkerProcess_eq _ _ rfl, Prog.bind_assoc]
  generalize hitem : requestItem cfg.ctx threadSafe offset length = item
  have hoff : item.offset = offset := by rw [← hitem, requestItem]
  have hlen : item.length = length := by rw [← hitem, requestItem]
  have hreq : item.reqState = true := by rw [← hitem, requestItem]
  have hlocked : workerRest item (.locked 3) =
      (getFileSize 3).bind fun fileSize => workerRead item 3 fileSize := rfl
  rw [hoff, hlen]
  refine prepared_ends hd hs (fun s prep habs => ?_) ?_ ?_
  · rcases habs with rfl | rfl
    · exact workerError_refused hreq _
    · exact workerError_refused (s := s) hreq s.errno
  · intro s hsize hserv
    rw [hlocked, Prog.bind_assoc, Prog.exec_seq getFileSize_exec]
    exact workerRead_serves hgran hsize hoff hlen hreq hserv
  · intro s hsize hno
    rw [hlocked, Prog.bind_assoc, Prog.exec_seq getFileSize_exec]
    exact workerRead_refuses hgran hsize hoff hlen hreq hl hno

omit hd hs hgran in
/-- The handler, up to where it knows the range. -/
theorem handler_exec (hmode : cfg.ctx.dtlMode ≠ .ucx) :
    (dyadFetchRangeRequestCb cfg).exec (step most mode offset length) s =
      (if cfg.workers then rangeEnqueue cfg offset length
        else (rangeSync cfg offset length).bind fun _ => Prog.pure none).exec
        (step most mode offset length) s := by
  unfold dyadFetchRangeRequestCb
  refine (Prog.exec_step rfl).trans ?_
  refine (Prog.exec_step rfl).trans ?_
  dsimp only
  rw [if_neg hmode]
  refine (Prog.exec_step rfl).trans ?_
  refine (Prog.exec_step rfl).trans ?_
  rfl

omit hd hs hgran in
/-- The handler of a pool with workers, which asks for the buffer first. -/
theorem rangeEnqueue_exec :
    if length.toNat < 2 ^ 63 then
      (rangeEnqueue cfg offset length).exec (step most mode offset length) s =
        some (s, some (requestItem cfg.ctx cfg.sendDetachedIsThreadSafe offset
          length))
    else ∃ s' e, (rangeEnqueue cfg offset length).exec
        (step most mode offset length) s = some (s', none) ∧
      s'.link = s.link.ended e := by
  unfold rangeEnqueue
  split
  · next hl =>
    refine (Prog.exec_step rfl).trans ?_
    refine (Prog.exec_step rfl).trans ?_
    exact (Prog.exec_step (getBuffer_step hl)).trans rfl
  · next hl =>
    let s' : Owner :=
      { s with link := s.link.ended Errno.ENOMEM, errno := Errno.ENOMEM }
    refine ⟨s', Errno.ENOMEM, ?_, rfl⟩
    refine (Prog.exec_step rfl).trans ?_
    refine (Prog.exec_step rfl).trans ?_
    exact (Prog.exec_step (getBuffer_refuses hl)).trans rfl

/-- A request from its handler to its end. With workers, the handler asks for
a buffer of the length that was asked for. -/
theorem serve_ends (hmode : cfg.ctx.dtlMode ≠ .ucx) :
    ∃ payload, payload.size < 2 ^ 63 ∧
      (Disk.ReadsWhole most published.size offset length →
        payload = published.slice offset.toNat length.toNat) ∧
      Ended mode s.link
        (if cfg.workers = true ∧ ¬ length.toNat < 2 ^ 63 then some none
          else (s.disk.present most cfg.ctx offset length).map
            (answer published.size offset length payload))
        ((Request.range cfg).serve.exec (step most mode offset length) s) := by
  obtain ⟨rest, hnone, hsome, hserve⟩ :
      ∃ rest : Option WorkItem → Program Unit, rest none = Prog.pure () ∧
        (∀ item, rest (some item) =
          (dyadFetchWorkerProcess cfg.ctx item).bind dyadFetchComplete) ∧
        (Request.range cfg).serve = (dyadFetchRangeRequestCb cfg).bind rest :=
    ⟨_, rfl, fun _ => rfl, rfl⟩
  rw [hserve, Prog.exec_bind, handler_exec hmode, ← Prog.exec_bind]
  cases hworkers : cfg.workers with
  | false =>
    obtain ⟨payload, hlt, hpay, hends⟩ :=
      @rangeSync_ends most mode offset length s cfg published hd hs hgran
    refine ⟨payload, hlt, hpay, ?_⟩
    rw [if_neg (by simp), if_neg (by simp), Prog.bind_assoc]
    simp only [Prog.pure_bind, hnone]
    rw [show (rangeSync cfg offset length).bind (fun _ => Prog.pure ()) =
      rangeSync cfg offset length from Prog.bind_pure _]
    exact hends
  | true =>
    have hitem := @rangeEnqueue_exec most mode offset length s cfg
    rw [if_pos rfl]
    split at hitem
    · next hl =>
      obtain ⟨payload, hlt, hpay, hends⟩ :=
        @worker_ends most mode offset length s cfg published hd hs hgran hl
          cfg.sendDetachedIsThreadSafe
      refine ⟨payload, hlt, hpay, ?_⟩
      rw [if_neg fun h => h.2 hl, Prog.exec_seq hitem, hsome]
      exact hends
    · next hl =>
      obtain ⟨s', e, hev, hlink⟩ := hitem
      refine ⟨_, slice_lt hs _ _, fun _ => rfl, ?_⟩
      rw [if_pos ⟨rfl, hl⟩, Prog.exec_seq hev, hnone]
      exact ⟨e, s', (), rfl, hlink⟩

end Request

end Owner

/-! ## The call for a range that is elsewhere -/

namespace RangeSetting

variable (S : RangeSetting) (offset length : UInt64)

/-- The consumer takes what it was sent. -/
theorem receive_served {payload : Bytes Byte} (hlt : payload.size < 2 ^ 63)
    (hmode : S.dtl.mode ≠ .ucx) :
    S.receive ((link.send S.dtl.mode payload).ended Errno.ENODATA) =
      some ⟨.ok, payload, payload.size⟩ := by
  unfold receive
  generalize S.dtl = dtl at hmode ⊢
  obtain ⟨ucxBuild, mode, hsel⟩ := dtl
  unfold dyadGetDataRange
  cases mode with
  | ucx => exact absurd rfl hmode
  | fluxRpc =>
    have hbuf : ∀ l : Link, l.exec .fluxRpc (.getBuffer payload.size)
        (GetCall.smooth (.getBuffer payload.size)) = some (l, .ok ()) := by
      intro l
      rw [GetCall.smooth, if_pos hlt]
      rfl
    refine (congrArg (Option.map Prod.snd) (Prog.exec_step rfl)).trans ?_
    refine (congrArg (Option.map Prod.snd) (Prog.exec_step rfl)).trans ?_
    refine (congrArg (Option.map Prod.snd) (Prog.exec_step rfl)).trans ?_
    exact (congrArg (Option.map Prod.snd) (Prog.exec_step (hbuf _))).trans rfl
  | margo =>
    have hbuf : ∀ l : Link, l.exec .margo (.malloc payload.size)
        (GetCall.smooth (.malloc payload.size)) = some (l, true) := by
      intro l
      rw [GetCall.smooth, decide_eq_true hlt]
      rfl
    refine (congrArg (Option.map Prod.snd) (Prog.exec_step rfl)).trans ?_
    refine (congrArg (Option.map Prod.snd) (Prog.exec_step rfl)).trans ?_
    refine (congrArg (Option.map Prod.snd) (Prog.exec_step rfl)).trans ?_
    exact (congrArg (Option.map Prod.snd) (Prog.exec_step (hbuf _))).trans rfl

theorem receive_refused (e : Errno) (hmode : S.dtl.mode ≠ .ucx) :
    if S.dtl.mode = .margo then S.receive (link.ended e) = none
    else ∃ rc, S.receive (link.ended e) = some (.failed rc) ∧
      rc.isError = true := by
  unfold receive
  generalize S.dtl = dtl at hmode ⊢
  obtain ⟨ucxBuild, mode, hsel⟩ := dtl
  unfold dyadGetDataRange
  cases mode with
  | ucx => exact absurd rfl hmode
  | fluxRpc =>
    rw [if_neg (by simp)]
    by_cases he : e = Errno.ENODATA
    · subst he
      exact ⟨.rpcFinished, rfl, rfl⟩
    · refine ⟨.badrpc, ?_, rfl⟩
      refine (congrArg (Option.map Prod.snd) (Prog.exec_step rfl)).trans ?_
      refine (congrArg (Option.map Prod.snd) (Prog.exec_step rfl)).trans ?_
      refine (congrArg (Option.map Prod.snd) (Prog.exec_step rfl)).trans ?_
      show Option.map Prod.snd (Prog.exec _ (getRangeDone true (.failed
        (if e = Errno.ENODATA then Rc.rpcFinished else Rc.badrpc))) _) = _
      rw [if_neg he]
      rfl
  | margo =>
    rw [if_pos rfl]
    rfl

/-- How the owner's service ends, told in advance. -/
def served (payload : Bytes Byte) : Option (Option (Bytes Byte)) :=
  if S.cfg.workers = true ∧ ¬ length.toNat < 2 ^ 63 then some none
  else (S.there.present S.most S.cfg.ctx offset length).map
    (Owner.answer S.published.size offset length payload)

/-- The remote call: over Margo it does not return from a request that was
refused. -/
def farAnswer (payload : Bytes Byte) : Option (Option (Bytes Byte)) :=
  match S.served offset length payload with
  | none => none
  | some none => if S.dtl.mode = .margo then none else some none
  | some (some payload) => some (some payload)

theorem served_payload {payload payload' : Bytes Byte}
    (h : S.served offset length payload = some (some payload')) :
    payload' = payload := by
  rw [served] at h
  split at h
  · exact absurd h (by simp)
  · obtain ⟨ok, -, hok⟩ := Option.map_eq_some_iff.1 h
    rw [Owner.answer] at hok
    split at hok
    · exact (Option.some.inj hok).symm
    · exact absurd hok (by simp)

/-- What the call for the range returns is what the consumer returns. -/
theorem consumeFar_eq (hctx : S.ctx.Rangeable) :
    S.consumeFar offset length = (S.fetched offset length).map fun r =>
      match r with
      | .error rc => (rc, none)
      | .ok data => (.ok, some data) := by
  rw [consumeFar, dyadConsumeRange_exec offset length hctx,
    if_neg S.far_remote]
  cases hf : S.fetched offset length with
  | none =>
    rw [Prog.exec_stuck]
    · rfl
    · rfl
  | some r => cases r <;> rfl

theorem consumeFar_answers (hctx : S.ctx.Rangeable) :
    ∃ payload,
      (Disk.ReadsWhole S.most S.published.size offset length →
        payload = S.published.slice offset.toNat length.toNat) ∧
      Returning (S.consumeFar offset length)
        (S.farAnswer offset length payload) := by
  have hmode : S.dtl.mode ≠ .ucx := by
    rw [S.dtl_mode]
    exact hctx.dtlMode
  obtain ⟨payload, hlt, hpay, hends⟩ :=
    @Owner.serve_ends S.most S.dtl.mode offset length
      ⟨S.there, link, S.errno⟩ S.cfg S.published S.there_holds S.off_t
      S.granularity (by rw [S.cfg_mode]; exact hctx.dtlMode)
  refine ⟨payload, hpay, ?_⟩
  have hended : Owner.Ended S.dtl.mode link (S.served offset length payload)
      ((Request.range S.cfg).serve.exec
        (Owner.step S.most S.dtl.mode offset length)
        ⟨S.there, link, S.errno⟩) := hends
  rw [consumeFar_eq S offset length hctx, farAnswer, fetched, serve]
  match hs : S.served offset length payload with
  | none =>
    rw [hs] at hended
    rw [show Prog.exec _ _ _ = none from hended]
    rfl
  | some none =>
    rw [hs] at hended
    obtain ⟨e, s', a, hev, hlink⟩ := hended
    have hrecv := S.receive_refused e hmode
    rw [hev]
    show Returning (Option.map _ ((S.receive s'.link).map _)) _
    rw [hlink]
    split at hrecv
    · next hm =>
      rw [hrecv]
      simp only [if_pos hm]
      rfl
    · next hm =>
      obtain ⟨rc, hrecv, herr⟩ := hrecv
      rw [hrecv]
      simp only [if_neg hm]
      refine ⟨rc, ?_, (Rc.isError_iff rc).1 herr⟩
      show some (match (if rc.isError = true then Except.error rc
        else Except.ok _ : Except Rc (Bytes Byte)) with
        | .error rc => (rc, none)
        | .ok data => (Rc.ok, some data)) = _
      rw [if_pos herr]
  | some (some payload') =>
    obtain rfl := S.served_payload offset length hs
    rw [hs] at hended
    obtain ⟨s', a, hev, hlink⟩ := hended
    rw [hev]
    show Returning (Option.map _ ((S.receive s'.link).map _)) _
    rw [hlink, S.receive_served hlt hmode]
    show some (Rc.ok, some (payload'.truncate payload'.size)) = _
    rw [Bytes.truncate_self]

/-! ## When the two agree -/

/-- The local call fails: the range cannot be made present, or one read does
not take all of it. -/
def NearRefuses : Prop :=
  S.here.present S.most S.ctx offset length = some false ∨
    (S.here.present S.most S.ctx offset length = some true ∧
      ¬ Disk.ReadsWhole S.most S.published.size offset length)

/-- The service refuses the request: its workers have no buffer for it, or the
range cannot be made present, or is not one it serves. -/
def FarRefuses : Prop :=
  (S.cfg.workers = true ∧ ¬ length.toNat < 2 ^ 63) ∨
    ((S.cfg.workers = true → length.toNat < 2 ^ 63) ∧
      (S.there.present S.most S.cfg.ctx offset length = some false ∨
        (S.there.present S.most S.cfg.ctx offset length = some true ∧
          ¬ Owner.Servable S.published.size offset length)))

/-- The condition: the call is turned away by its own checks; or both copies
can have the range and one read takes all of it; or both sides refuse it, over
a transport that tells the consumer so. -/
def SameAnswer : Prop :=
  ¬ S.ctx.Rangeable ∨
  (S.here.present S.most S.ctx offset length = some true ∧
    S.there.present S.most S.cfg.ctx offset length = some true ∧
    Disk.ReadsWhole S.most S.published.size offset length) ∨
  (S.dtl.mode ≠ .margo ∧ S.NearRefuses offset length ∧
    S.FarRefuses offset length)

theorem nearAnswer_some {b : Bytes Byte} :
    S.nearAnswer offset length = some (some b) ↔
      S.here.present S.most S.ctx offset length = some true ∧
        Disk.ReadsWhole S.most S.published.size offset length ∧
        b = S.published.slice offset.toNat length.toNat := by
  rw [nearAnswer]
  rcases S.here.present S.most S.ctx offset length with _ | _ | _
  · simp
  · simp
  · by_cases hr : Disk.ReadsWhole S.most S.published.size offset length
    · simp [hr, eq_comm]
    · simp [hr]

theorem nearAnswer_none :
    S.nearAnswer offset length = some none ↔ S.NearRefuses offset length := by
  rw [nearAnswer, NearRefuses]
  rcases S.here.present S.most S.ctx offset length with _ | _ | _ <;> simp

section Far

variable {payload : Bytes Byte}

/-- What the service comes to, case by case. -/
theorem served_cases :
    (S.served offset length payload = none ∧
      ¬ (S.cfg.workers = true ∧ ¬ length.toNat < 2 ^ 63) ∧
      S.there.present S.most S.cfg.ctx offset length = none) ∨
    (S.served offset length payload = some none ∧
      S.FarRefuses offset length) ∨
    (S.served offset length payload = some (some payload) ∧
      ¬ (S.cfg.workers = true ∧ ¬ length.toNat < 2 ^ 63) ∧
      S.there.present S.most S.cfg.ctx offset length = some true ∧
      Owner.Servable S.published.size offset length) := by
  rw [served, FarRefuses]
  by_cases hbuf : S.cfg.workers = true ∧ ¬ length.toNat < 2 ^ 63
  · rw [if_pos hbuf]
    exact Or.inr (Or.inl ⟨rfl, Or.inl hbuf⟩)
  rw [if_neg hbuf]
  have hroom : S.cfg.workers = true → length.toNat < 2 ^ 63 := fun hw =>
    Classical.not_not.1 fun hl => hbuf ⟨hw, hl⟩
  match hp : S.there.present S.most S.cfg.ctx offset length with
  | none => exact Or.inl ⟨rfl, hbuf, rfl⟩
  | some false => exact Or.inr (Or.inl ⟨rfl, Or.inr ⟨hroom, Or.inl rfl⟩⟩)
  | some true =>
    by_cases hserv : Owner.Servable S.published.size offset length
    · refine Or.inr (Or.inr ⟨?_, hbuf, rfl, hserv⟩)
      rw [Option.map_some, Owner.answer, if_pos ⟨rfl, hserv⟩]
    · refine Or.inr (Or.inl ⟨?_, Or.inr ⟨hroom, Or.inr ⟨rfl, hserv⟩⟩⟩)
      rw [Option.map_some, Owner.answer, if_neg fun h => hserv h.2]

/-- A request that is refused is not one that cannot end, and not one that is
served. -/
theorem served_of_refused (h : S.FarRefuses offset length) :
    S.served offset length payload = some none := by
  obtain ⟨hw, hl⟩ | ⟨hroom, hno⟩ := h
  · rw [served, if_pos ⟨hw, hl⟩]
  · rw [served, if_neg fun h => h.2 (hroom h.1)]
    obtain hno | ⟨hok, hno⟩ := hno
    · rw [hno]
      rfl
    · rw [hok, Option.map_some, Owner.answer, if_neg fun h => hno h.2]

end Far

theorem served_of_whole {payload : Bytes Byte}
    (hp : S.there.present S.most S.cfg.ctx offset length = some true)
    (hr : Disk.ReadsWhole S.most S.published.size offset length) :
    S.served offset length payload = some (some payload) := by
  rw [served, if_neg fun h => h.2 hr.2.1, hp, Option.map_some, Owner.answer,
    if_pos ⟨rfl, Owner.servable_whole S.off_t hr⟩]

/-- Two calls agree when both return the same, as told in advance. -/
theorem agree_iff_answers {a b : Option (Option (Bytes Byte))}
    (hn : Returning (S.consumeNear offset length) a)
    (hf : Returning (S.consumeFar offset length) b) :
    S.Agree offset length ↔ ∃ x, a = some x ∧ b = some x := by
  constructor
  · rintro ⟨r, r', hr, hr', hrc, hdata⟩
    match a, b with
    | none, _ => exact absurd (hn.symm.trans hr) (by simp)
    | some _, none => exact absurd (hf.symm.trans hr') (by simp)
    | some none, some none => exact ⟨none, rfl, rfl⟩
    | some none, some (some d) =>
      obtain ⟨rc, hn, hne⟩ := hn
      obtain rfl := Option.some.inj (hr.symm.trans hn)
      obtain rfl := Option.some.inj (hr'.symm.trans hf)
      exact absurd (hrc.2 rfl) hne
    | some (some d), some none =>
      obtain ⟨rc, hf, hne⟩ := hf
      obtain rfl := Option.some.inj (hr.symm.trans hn)
      obtain rfl := Option.some.inj (hr'.symm.trans hf)
      exact absurd (hrc.1 rfl) hne
    | some (some d), some (some d') =>
      obtain rfl := Option.some.inj (hr.symm.trans hn)
      obtain rfl := Option.some.inj (hr'.symm.trans hf)
      obtain rfl := Option.some.inj hdata
      exact ⟨some d, rfl, rfl⟩
  · rintro ⟨x, rfl, rfl⟩
    cases x with
    | none =>
      obtain ⟨rc, hn, hne⟩ := hn
      obtain ⟨rc', hf, hne'⟩ := hf
      exact ⟨_, _, hn, hf, iff_of_false hne hne', rfl⟩
    | some d => exact ⟨_, _, hn, hf, iff_of_true rfl rfl, rfl⟩

/-- A call that its own checks turn away does not depend on where the file
is. -/
theorem agree_of_not_rangeable (h : ¬ S.ctx.Rangeable) :
    S.Agree offset length := by
  have haway : ∃ rc, ∀ most rank fetched d, (dyadConsumeRange S.ctx offset
      length).exec (Disk.client most rank fetched) d = some (d, rc, none) := by
    by_cases hh : S.ctx.h = false
    · refine ⟨.noctx, fun _ _ _ _ => ?_⟩
      rw [dyadConsumeRange, if_pos hh]
      rfl
    by_cases hp : S.ctx.consManagedPath = false
    · refine ⟨.badmanagedpath, fun _ _ _ _ => ?_⟩
      rw [dyadConsumeRange, if_neg hh, if_pos hp]
      rfl
    by_cases hm : S.ctx.dtlMode = .ucx
    · refine ⟨.baddtlmode, fun _ _ _ _ => ?_⟩
      rw [dyadConsumeRange, if_neg hh, if_neg hp, if_pos hm]
      rfl
    by_cases ht : S.ctx.tracked = false
    · refine ⟨.badmanagedpath, fun _ _ _ _ => ?_⟩
      rw [dyadConsumeRange, if_neg hh, if_neg hp, if_neg hm, if_pos ht]
      rfl
    · exact absurd ⟨by simpa using hh, by simpa using hp, hm,
        by simpa using ht⟩ h
  obtain ⟨rc, haway⟩ := haway
  refine ⟨(rc, none), (rc, none), ?_, ?_, Iff.rfl, rfl⟩
  · rw [consumeNear, haway]
    rfl
  · rw [consumeFar, haway]
    rfl

end RangeSetting

/-- `dyad_consume_range` gives the same answer from the local copy and from
the owner exactly under the condition. -/
theorem range_agrees_iff (S : RangeSetting) (offset length : UInt64) :
    S.Agree offset length ↔ S.SameAnswer offset length := by
  by_cases hctx : S.ctx.Rangeable
  · have hnear := S.consumeNear_answers offset length hctx
    obtain ⟨payload, hpay, hfar⟩ := S.consumeFar_answers offset length hctx
    rw [S.agree_iff_answers offset length hnear hfar]
    constructor
    · rintro ⟨x, hn, hf⟩
      rw [RangeSetting.farAnswer] at hf
      cases x with
      | none =>
        refine Or.inr (Or.inr ?_)
        have hrefuses := (S.nearAnswer_none offset length).1 hn
        obtain ⟨hs, -⟩ | ⟨hs, hno⟩ | ⟨hs, -⟩ :=
          @RangeSetting.served_cases S offset length payload
        · rw [hs] at hf
          exact absurd hf (by simp)
        · rw [hs] at hf
          refine ⟨fun hm => ?_, hrefuses, hno⟩
          simp only [if_pos hm] at hf
          exact absurd hf (by simp)
        · rw [hs] at hf
          exact absurd hf (by simp)
      | some b =>
        obtain ⟨hhere, hr, -⟩ := (S.nearAnswer_some offset length).1 hn
        obtain ⟨hs, -⟩ | ⟨hs, -⟩ | ⟨hs, -, hthere, -⟩ :=
          @RangeSetting.served_cases S offset length payload
        · rw [hs] at hf
          exact absurd hf (by simp)
        · rw [hs] at hf
          dsimp only at hf
          split at hf <;> exact absurd hf (by simp)
        · exact Or.inr (Or.inl ⟨hhere, hthere, hr⟩)
    · rintro (hno | ⟨hhere, hthere, hr⟩ | ⟨hm, hn, hf⟩)
      · exact absurd hctx hno
      · refine ⟨some payload, ?_, ?_⟩
        · exact (S.nearAnswer_some offset length).2 ⟨hhere, hr, hpay hr⟩
        · rw [RangeSetting.farAnswer, S.served_of_whole offset length hthere hr]
      · refine ⟨none, (S.nearAnswer_none offset length).2 hn, ?_⟩
        rw [RangeSetting.farAnswer, S.served_of_refused offset length hf]
        exact if_neg hm
  · exact iff_of_true (S.agree_of_not_rangeable offset length hctx)
      (Or.inl hctx)

/-! ## A file of four bytes -/

/-- A file of four bytes, in full on either side, and no origin. -/
def RangeSetting.four : RangeSetting where
  ctx := Ctx.originless
  near := 0
  far := 1
  cfg := ⟨Ctx.originless, true, false⟩
  dtl := Dtl.plain
  published := Bytes.ofFn 4 fun i => BitVec.ofNat 8 i
  here := ⟨true, Bytes.ofFn 4 fun i => BitVec.ofNat 8 i, Bytes.empty, Bytes.empty⟩
  there := ⟨true, Bytes.ofFn 4 fun i => BitVec.ofNat 8 i, Bytes.empty, Bytes.empty⟩
  most := 0x7ffff000
  errno := 0
  near_local := by decide
  far_remote := by decide
  dtl_mode := rfl
  cfg_mode := rfl
  off_t := by decide
  granularity := by decide
  here_holds := ⟨by decide, fun h => absurd h (by decide),
    fun _ => ⟨rfl, rfl⟩, fun h => absurd h (by decide),
    fun h => absurd h (by decide), fun h => absurd h (by decide)⟩
  there_holds := ⟨by decide, fun h => absurd h (by decide),
    fun _ => ⟨rfl, rfl⟩, fun h => absurd h (by decide),
    fun h => absurd h (by decide), fun h => absurd h (by decide)⟩

/-- Of a range that reaches past its end, the local call returns nothing and
the remote call what there is. -/
theorem range_differs : ¬ RangeSetting.four.Agree 2 4 := by
  rintro ⟨near, far, hnear, hfar, hrc, -⟩
  have hn : (RangeSetting.four.consumeNear 2 4).map Prod.fst =
      some .badfio := by decide +kernel
  have hf : (RangeSetting.four.consumeFar 2 4).map Prod.fst =
      some .ok := by decide +kernel
  rw [hnear] at hn
  rw [hfar] at hf
  have hbad : near.1 = .badfio := Option.some.inj hn
  have hok : far.1 = .ok := Option.some.inj hf
  exact absurd (hbad.symm.trans (hrc.2 hok)) (by decide)

end Dyad
