import Dyad.Utils.RangeCache

/-!
# Which spans keep the range cache inside its bitmap

`dyad_range_cache_ensure` allocates a bitmap for the origin's blocks and then
indexes it by the blocks of the span it was asked for. The fast path checks
that the span's last block has a byte in the buffer; the recheck and the
recording do not. The span is the caller's, an offset and a length that
nothing has compared with the size of the origin, and their sum wraps.

The environment here answers the calls in every way they can be answered,
for a given origin size: any of them may fail, a read may be short and the
bitmap file may hold anything. `EnsureInBounds` asks that no path reach `ub`,
which is where the two loops leave the buffer, and that the bitmap written
back have no bit past the last block that the bitmap read had not.

That holds exactly for the spans of `SpanInBounds`: those that end before the
end of the origin's last block, and those that are turned away before the
loops run or run them over nothing. A span that starts past the last block is
turned away too, by the fetch, but only after the recheck has read the bitmap
at its blocks, so it must still have bytes there.
-/

namespace Dyad

open Conc Posix Prog

/-- A file size, of type `off_t`. -/
abbrev OffT := Fin (2 ^ 63)

/-- The answers the range cache can get when the origin has the size
`originSize`. -/
def EnsureAnswers (originSize : Nat) : (c : Call) → c.Res → Prop
  | .sys (.stat .origin), r => ∀ size, r = .ok size → size = originSize
  | .sys (.pread _ _ len), r => ∀ d, r = .ok d → d.size ≤ len
  | .sys (.pwrite _ _ d), r => ∀ n, r = .ok n → n ≤ d.size
  | .sys (.malloc size), r => r = true → size < 2 ^ 63
  | _, _ => True

/-- A bitmap written back right after it was read has no new bit from
`numBlocks` on. -/
def MergesBelow (numBlocks : Nat) (d : Bytes Byte) :
    List (Event Call.Res) → Prop
  | ⟨.sys (.pread ..), .ok bitmap⟩ :: _ =>
    ∀ b, numBlocks ≤ b → Bit d b → Bit bitmap b
  | ⟨.sys (.pread ..), .error _⟩ :: _ => ∀ b, numBlocks ≤ b → ¬ Bit d b
  | _ => True

/-- What a call may be: not an access outside the buffer, and not a write
that marks a block the origin does not have. -/
def BitmapCall (numBlocks : Nat) (h : List (Event Call.Res)) : Call → Prop
  | .ub => False
  | .sys (.pwrite _ _ d) => MergesBelow numBlocks d h
  | _ => True

/-- Every bitmap access of `dyad_range_cache_ensure` is in bounds. -/
def EnsureInBounds (ctx : Ctx) (offset length : UInt64) (originSize : OffT) :
    Prop :=
  Along (EnsureAnswers originSize)
    (BitmapCall (rangeCacheNumBlocks originSize)) []
    (dyadRangeCacheEnsure ctx offset length)

/-- The spans for which it is. -/
def SpanInBounds (ctx : Ctx) (offset length : UInt64) (originSize : OffT) :
    Prop :=
  let numBlocks := rangeCacheNumBlocks originSize
  ctx.originPath = false ∨ length = 0 ∨ ctx.pathFits = false ∨
  originSize = 0 ∨
  blockEnd offset length < blockStart offset ∨
  blockEnd offset length < numBlocks ∨
  (numBlocks ≤ blockStart offset ∧
    blockEnd offset length / 8 < rangeCacheBitmapBytes numBlocks)

/-! ## The arithmetic of blocks -/

theorem rangeCacheBlockSize_eq : rangeCacheBlockSize = 65536 := rfl

theorem blockStart_lt (offset : UInt64) : blockStart offset < 2 ^ 48 := by
  have := offset.toNat_lt
  rw [blockStart, rangeCacheBlockSize_eq]
  omega

theorem blockEnd_lt (offset length : UInt64) :
    blockEnd offset length < 2 ^ 48 := by
  have := (offset + length - 1).toNat_lt
  rw [blockEnd, rangeCacheBlockSize_eq]
  omega

theorem numBlocks_eq {size : Nat} (h : size < 2 ^ 63) :
    rangeCacheNumBlocks size = (size + 65535) / 65536 := by
  rw [rangeCacheNumBlocks, rangeCacheBlockSize_eq]
  omega

theorem bitmapBytes_eq {size : Nat} (h : size < 2 ^ 63) :
    rangeCacheBitmapBytes (rangeCacheNumBlocks size) =
      ((size + 65535) / 65536 + 7) / 8 := by
  rw [rangeCacheBitmapBytes, numBlocks_eq h]
  omega

/-- A block of the origin has its byte in the bitmap. -/
theorem byte_lt_of_block_lt {size b : Nat} (h : size < 2 ^ 63)
    (hb : b < rangeCacheNumBlocks size) :
    b / 8 < rangeCacheBitmapBytes (rangeCacheNumBlocks size) := by
  rw [bitmapBytes_eq h]
  rw [numBlocks_eq h] at hb
  omega

/-- A sum that stays inside the origin does not wrap. -/
theorem toNat_last {offset length : UInt64} {size : Nat} (hs : size < 2 ^ 63)
    (hlen : length ≠ 0) (h : offset.toNat + length.toNat ≤ size) :
    (offset + length - 1).toNat = offset.toNat + length.toNat - 1 := by
  have hpos : 0 < length.toNat := by
    rcases Nat.eq_zero_or_pos length.toNat with h0 | hpos
    · exact absurd (UInt64.toNat_inj.1 h0) hlen
    · exact hpos
  rw [UInt64.toNat_sub_of_le, UInt64.toNat_add]
  · simp only [UInt64.toNat_one]
    omega
  · rw [UInt64.le_iff_toNat_le, UInt64.toNat_add]
    simp only [UInt64.toNat_one]
    omega

/-- A span inside the origin stays inside the bitmap. -/
theorem spanInBounds_of_le {ctx : Ctx} {offset length : UInt64}
    {orig : Bytes Byte} (hs : orig.size < 2 ^ 63)
    (h : offset.toNat + length.toNat ≤ orig.size) :
    SpanInBounds ctx offset length ⟨orig.size, hs⟩ := by
  by_cases hlen : length = 0
  · exact Or.inr (Or.inl hlen)
  · have hpos : 0 < length.toNat := by
      rcases Nat.eq_zero_or_pos length.toNat with h0 | hpos
      · exact absurd (UInt64.toNat_inj.1 h0) hlen
      · exact hpos
    refine Or.inr (Or.inr (Or.inr (Or.inr (Or.inr (Or.inl ?_)))))
    rw [blockEnd, toNat_last hs hlen h, numBlocks_eq hs,
      rangeCacheBlockSize_eq]
    show _ < (orig.size + 65535) / 65536
    omega

/-! ## Spans that are in bounds

Every helper but the ones that touch the bitmap is harmless whatever came
before. -/

section

variable {size numBlocks fd bs be : Nat} {h : List (Event Call.Res)} {rc : Rc}

theorem along_getFileSize :
    Along (EnsureAnswers size) (BitmapCall numBlocks) h (getFileSize fd) := by
  refine Along.step True.intro fun r _ => ?_
  cases r <;> exact True.intro

theorem along_exclFlock :
    Along (EnsureAnswers size) (BitmapCall numBlocks) h (dyadExclFlock fd) := by
  refine Along.step True.intro fun r _ => ?_
  cases r <;> exact True.intro

theorem along_sharedFlock :
    Along (EnsureAnswers size) (BitmapCall numBlocks) h
      (dyadSharedFlock fd) := by
  refine Along.step True.intro fun r _ => ?_
  cases r <;> exact True.intro

theorem along_releaseFlock :
    Along (EnsureAnswers size) (BitmapCall numBlocks) h
      (dyadReleaseFlock fd) := by
  refine Along.step True.intro fun r _ => ?_
  cases r <;> exact True.intro

theorem along_closeOpened {fds : List Nat} :
    Along (EnsureAnswers size) (BitmapCall numBlocks) h (closeOpened fds) := by
  induction fds generalizing h with
  | nil => exact True.intro
  | cons fd fds ih => exact Along.step True.intro fun _ _ => ih

theorem along_leaveUnlocked :
    Along (EnsureAnswers size) (BitmapCall numBlocks) h
      (ensureLeaveUnlocked fd rc) :=
  Along.step True.intro fun _ _ => Along.step True.intro fun _ _ => True.intro

theorem along_leave :
    Along (EnsureAnswers size) (BitmapCall numBlocks) h (ensureLeave fd rc) :=
  along_releaseFlock.bind fun _ _ _ => along_leaveUnlocked

theorem along_closing {fds : List Nat} :
    Along (EnsureAnswers size) (BitmapCall numBlocks) h
      (closeOpened fds >>= fun _ => Pure.pure rc) :=
  along_closeOpened.bind fun _ _ _ => True.intro

/-- The only read before the write of the fetch is of the origin, and the
local file is opened in between. -/
theorem along_fetchSpanAt {spanOff spanLen : Nat} :
    Along (EnsureAnswers size) (BitmapCall numBlocks) h
      (fetchSpanAt spanOff spanLen) := by
  refine Along.step True.intro fun r _ => ?_
  cases r with
  | error e => exact True.intro
  | ok originFd =>
    refine Along.step True.intro fun r _ => ?_
    cases r with
    | error e => exact along_closing
    | ok spanBuf =>
      dsimp only
      split
      · exact along_closing
      · refine Along.step True.intro fun r _ => ?_
        cases r with
        | error e => exact along_closing
        | ok localFd =>
          refine Along.step True.intro fun r _ => ?_
          cases r with
          | error e => exact along_closing
          | ok n => exact along_closing

theorem along_fetchSpan {originSize : Nat} :
    Along (EnsureAnswers size) (BitmapCall numBlocks) h
      (rangeCacheFetchSpan bs be originSize) := by
  unfold rangeCacheFetchSpan
  simp only [bind_eq, pure_eq]
  split
  · exact True.intro
  · refine Along.step True.intro fun r _ => ?_
    cases r with
    | false => exact True.intro
    | true => exact along_fetchSpanAt

theorem along_size {originSize bitmapBytes : Nat} :
    Along (EnsureAnswers size) (BitmapCall numBlocks) h
      (rangeCacheSize fd originSize bitmapBytes) := by
  refine along_getFileSize.bind fun _ n _ => ?_
  split
  · refine Along.step True.intro fun r _ => ?_
    cases r with
    | error e => exact True.intro
    | ok sizeFd =>
      refine Along.step True.intro fun r _ => ?_
      cases r with
      | error e => exact along_closing
      | ok _ =>
        refine Along.step True.intro fun r _ => ?_
        cases r with
        | error e => exact along_closing
        | ok _ => exact along_closing
  · exact True.intro

/-- The loop of the check stays in the buffer when it has nothing to do, or
when the last block has a byte there. -/
theorem along_checkBlocks {bitmap : Bytes Byte}
    (hin : be < bs ∨ be / 8 < bitmap.size) :
    Along (EnsureAnswers size) (BitmapCall numBlocks) h
      (checkBlocks bitmap bs be) := by
  obtain ⟨hit, heq⟩ := rangeCacheBlocksSet_isSome hin
  rw [checkBlocks, heq]
  exact True.intro

/-- The fast path looks before it indexes. -/
theorem along_fastPath :
    Along (EnsureAnswers size) (BitmapCall numBlocks) h
      (rangeCacheFastPath fd bs be) := by
  refine along_getFileSize.bind fun _ n _ => ?_
  split
  · next hn =>
    refine Along.step True.intro fun r _ => ?_
    cases r with
    | false => exact True.intro
    | true =>
      refine Along.step True.intro fun r _ => ?_
      cases r with
      | error e => exact True.intro
      | ok bitmap =>
        dsimp only
        split
        · next hsize => exact along_checkBlocks (Or.inr (by omega))
        · exact True.intro
  · exact True.intro

/-- What `preadBitmap` leaves in the buffer: its size, and the bits read. -/
theorem runs_preadBitmap {bitmapBytes : Nat} {tr : List (Event Call.Res)}
    {bitmap : Bytes Byte}
    (hr : Runs (EnsureAnswers size) (preadBitmap fd bitmapBytes) tr bitmap) :
    bitmap.size = bitmapBytes ∧
      ∃ r, tr = [⟨.sys (.pread fd 0 bitmapBytes), r⟩] ∧
        (∀ d, r = .ok d → ∀ b, Bit bitmap b → Bit d b) ∧
        (∀ e, r = .error e → ∀ b, ¬ Bit bitmap b) := by
  obtain ⟨r, tr', hm, hk, rfl⟩ := runs_call.1 hr
  cases r with
  | error e =>
    obtain ⟨rfl, rfl⟩ := runs_pure.1 hk
    exact ⟨rfl, _, rfl, fun d hd => absurd hd (by simp),
      fun _ _ b => not_bit_zeros _ b⟩
  | ok d =>
    obtain ⟨rfl, rfl⟩ := runs_pure.1 hk
    have hd : d.size ≤ bitmapBytes := hm d rfl
    refine ⟨?_, _, rfl, ?_, fun e he => absurd he (by simp)⟩
    · rw [Bytes.size_splice, Bytes.size_zeros]
      split <;> omega
    · rintro _ ⟨rfl⟩ b hb
      rw [Bit, Bytes.get_splice] at hb
      split at hb
      · exact hb
      · rw [Bytes.get_zeros] at hb
        exact absurd hb (by simp)

theorem along_preadBitmap {bitmapBytes : Nat} :
    Along (EnsureAnswers size) (BitmapCall numBlocks) h
      (preadBitmap fd bitmapBytes) := by
  refine Along.step True.intro fun r _ => ?_
  cases r <;> exact True.intro

/-- Recording a span of the origin's blocks marks none of the others. -/
theorem along_record {bitmapBytes : Nat}
    (hin : be < bs ∨ be / 8 < bitmapBytes)
    (hbelow : be < bs ∨ be < numBlocks) :
    Along (EnsureAnswers size) (BitmapCall numBlocks) h
      (rangeCacheRecord fd bs be bitmapBytes) := by
  refine Along.step True.intro fun _ _ =>
    along_exclFlock.bind fun _ rc _ => ?_
  split
  · exact along_leaveUnlocked
  · refine Along.step True.intro fun r _ => ?_
    cases r with
    | false => exact along_leave
    | true =>
      refine along_preadBitmap.bind fun tr bitmap hr => ?_
      obtain ⟨hsize, r, rfl, hok, herr⟩ := runs_preadBitmap hr
      obtain ⟨bitmap', heq, _, hbits⟩ :=
        @rangeCacheSetBlocks_some bitmap bs be (by rwa [hsize])
      simp only [heq]
      have hold : ∀ b, numBlocks ≤ b → Bit bitmap' b → Bit bitmap b := by
        intro b hb hbit
        rcases (hbits b).1 hbit with h' | h'
        · exact h'
        · omega
      refine ⟨?_, fun r' _ => ?_⟩
      · cases r with
        | ok d => exact fun b hb hbit => hok d rfl b (hold b hb hbit)
        | error e => exact fun b hb hbit => herr e rfl b (hold b hb hbit)
      · cases r' with
        | ok n => exact along_leave
        | error e => exact along_leave

theorem along_fill {originSize bitmapBytes : Nat}
    (hrec : ∀ tr, Runs (EnsureAnswers size)
        (rangeCacheFetchSpan bs be originSize) tr .ok →
      (be < bs ∨ be / 8 < bitmapBytes) ∧ (be < bs ∨ be < numBlocks)) :
    Along (EnsureAnswers size) (BitmapCall numBlocks) h
      (rangeCacheFill fd bs be originSize bitmapBytes) := by
  refine along_fetchSpan.bind fun tr rc hr => ?_
  split
  · exact Along.step True.intro fun _ _ => True.intro
  · next hrc =>
    obtain rfl : rc = .ok := by
      by_contra hne
      exact hrc ((Rc.isError_iff rc).2 hne)
    exact along_record (hrec tr hr).1 (hrec tr hr).2

/-- A span that starts past the origin's last block is not fetched. -/
theorem fetchSpan_past {originSize : Nat} {tr : List (Event Call.Res)}
    (hsize : originSize < 2 ^ 63) (hbs : bs < 2 ^ 48)
    (hpast : rangeCacheNumBlocks originSize ≤ bs)
    (hr : Runs (EnsureAnswers size)
      (rangeCacheFetchSpan bs be originSize) tr .ok) : False := by
  rw [numBlocks_eq hsize] at hpast
  have hle : min ((be + 1) * rangeCacheBlockSize % 2 ^ 64) originSize ≤
      bs * rangeCacheBlockSize % 2 ^ 64 := by
    rw [rangeCacheBlockSize_eq]
    omega
  unfold rangeCacheFetchSpan at hr
  simp only [bind_eq, pure_eq] at hr
  rw [if_pos hle] at hr
  exact absurd (runs_pure.1 hr).2 (by simp)

theorem along_miss {originSize : OffT}
    (hin : originSize = 0 ∨ be < bs ∨
      be / 8 < rangeCacheBitmapBytes (rangeCacheNumBlocks originSize))
    (hrec : be < bs ∨ be < rangeCacheNumBlocks originSize ∨
      rangeCacheNumBlocks originSize ≤ bs) (hbs : bs < 2 ^ 48) :
    Along (EnsureAnswers originSize)
      (BitmapCall (rangeCacheNumBlocks originSize)) h
      (rangeCacheMiss fd bs be) := by
  refine Along.step True.intro fun r hr => ?_
  cases r with
  | error e => exact along_leave
  | ok n =>
    obtain rfl : n = originSize.val := hr n rfl
    dsimp only
    split
    · exact along_leave
    · next hne =>
      have hin' : be < bs ∨
          be / 8 < rangeCacheBitmapBytes (rangeCacheNumBlocks originSize) :=
        hin.resolve_left fun h0 => hne (congrArg Fin.val h0)
      refine along_size.bind fun _ rc _ => ?_
      split
      · exact along_leave
      · refine Along.step True.intro fun r _ => ?_
        cases r with
        | false => exact along_leave
        | true =>
          refine along_preadBitmap.bind fun tr bitmap hr => ?_
          obtain ⟨hsize, -⟩ := runs_preadBitmap hr
          refine (along_checkBlocks (by rwa [hsize])).bind fun _ hit _ =>
            along_releaseFlock.bind fun _ _ _ =>
              Along.step True.intro fun _ _ => ?_
          cases hit with
          | true => exact Along.step True.intro fun _ _ => True.intro
          | false =>
            rw [if_neg Bool.false_ne_true]
            refine along_fill fun tr hr => ⟨hin', ?_⟩
            rcases hrec with hlt | hlt | hge
            · exact Or.inl hlt
            · exact Or.inr hlt
            · exact (fetchSpan_past originSize.isLt hbs hge hr).elim

theorem along_opened {originSize : OffT}
    (hin : originSize = 0 ∨ be < bs ∨
      be / 8 < rangeCacheBitmapBytes (rangeCacheNumBlocks originSize))
    (hrec : be < bs ∨ be < rangeCacheNumBlocks originSize ∨
      rangeCacheNumBlocks originSize ≤ bs) (hbs : bs < 2 ^ 48) :
    Along (EnsureAnswers originSize)
      (BitmapCall (rangeCacheNumBlocks originSize)) h
      (rangeCacheOpened fd bs be) := by
  refine Along.step True.intro fun _ _ =>
    along_sharedFlock.bind fun _ rc _ => ?_
  split
  · exact along_leaveUnlocked
  · refine along_fastPath.bind fun _ hit _ => ?_
    cases hit with
    | true => exact along_leave
    | false =>
      refine along_releaseFlock.bind fun _ _ _ =>
        along_exclFlock.bind fun _ rc _ => ?_
      split
      · exact along_leaveUnlocked
      · exact along_miss hin hrec hbs

/-! ## Spans that are not

Both ways out of bounds are reached by a miss on a bitmap that is already
sized. What the bitmap then holds decides which: all bits set takes the
recheck past the buffer, none set lets the fetch go through and the recording
mark the blocks past the last. -/

theorem getFileSize_returns (n : Nat) :
    Returns (EnsureAnswers size) (getFileSize fd) n :=
  .step (.ok n) True.intro (.pure n)

theorem exclFlock_returns :
    Returns (EnsureAnswers size) (dyadExclFlock fd) .ok :=
  .step (.ok ()) True.intro (.pure _)

theorem sharedFlock_returns :
    Returns (EnsureAnswers size) (dyadSharedFlock fd) .ok :=
  .step (.ok ()) True.intro (.pure _)

theorem releaseFlock_returns :
    Returns (EnsureAnswers size) (dyadReleaseFlock fd) .ok :=
  .step (.ok ()) True.intro (.pure _)

/-- An empty bitmap file is not looked into. -/
theorem fastPath_returns :
    Returns (EnsureAnswers size) (rangeCacheFastPath fd bs be) false := by
  refine (getFileSize_returns 0).bind ?_
  rw [if_neg (Nat.not_lt_zero _)]
  exact .pure _

/-- A bitmap that another caller has sized is left as it is. -/
theorem size_returns {originSize bitmapBytes : Nat} :
    Returns (EnsureAnswers size)
      (rangeCacheSize fd originSize bitmapBytes) .ok := by
  refine (getFileSize_returns bitmapBytes).bind ?_
  rw [if_neg (Nat.lt_irrefl _)]
  exact .pure _

theorem runs_preadBitmap_ok {bitmapBytes : Nat} {d : Bytes Byte}
    (hd : d.size ≤ bitmapBytes) :
    Runs (EnsureAnswers size) (preadBitmap fd bitmapBytes)
      [⟨.sys (.pread fd 0 bitmapBytes), .ok d⟩]
      ((Bytes.zeros bitmapBytes).splice 0 d) := by
  refine .call (fun _ h => ?_) (.pure _)
  obtain rfl := Except.ok.inj h
  exact hd

/-- A span that starts inside the origin can be fetched. -/
theorem fetchSpan_returns {originSize : Nat} (hsize : originSize < 2 ^ 63)
    (hbs : bs * rangeCacheBlockSize < originSize) (hle : bs ≤ be)
    (hbe : be + 1 < 2 ^ 48) :
    Returns (EnsureAnswers size)
      (rangeCacheFetchSpan bs be originSize) .ok := by
  rw [rangeCacheBlockSize_eq] at hbs
  have hgt : ¬ min ((be + 1) * rangeCacheBlockSize % 2 ^ 64) originSize ≤
      bs * rangeCacheBlockSize % 2 ^ 64 := by
    rw [rangeCacheBlockSize_eq]
    omega
  unfold rangeCacheFetchSpan
  simp only [bind_eq, pure_eq]
  rw [if_neg hgt]
  generalize hlen : min ((be + 1) * rangeCacheBlockSize % 2 ^ 64) originSize -
    bs * rangeCacheBlockSize % 2 ^ 64 = spanLen
  have hlt : spanLen < 2 ^ 63 := by omega
  refine .step true (fun _ => hlt) ?_
  rw [if_pos rfl]
  refine .step (.ok 0) True.intro (.step (.ok (Bytes.zeros spanLen))
    (fun d h => ?_) ?_)
  · obtain rfl := Except.ok.inj h
    exact Nat.le_refl _
  dsimp only
  rw [if_neg (by simp)]
  refine .step (.ok 0) True.intro (.step (.ok spanLen) (fun n h => ?_) ?_)
  · obtain rfl := Except.ok.inj h
    exact Nat.le_refl _
  refine .step (.ok ()) True.intro (.step (.ok ()) True.intro ?_)
  rw [if_pos rfl]
  exact .pure _

/-- A miss comes to the recheck with anything in the bitmap. -/
theorem along_recheck {originSize : OffT} (hne : originSize ≠ 0)
    (ha : Along (EnsureAnswers originSize)
      (BitmapCall (rangeCacheNumBlocks originSize)) h
      (rangeCacheOpened fd bs be))
    {d : Bytes Byte}
    (hd : d.size ≤ rangeCacheBitmapBytes (rangeCacheNumBlocks originSize)) :
    ∃ h', Along (EnsureAnswers originSize)
      (BitmapCall (rangeCacheNumBlocks originSize)) h' (do
        let alreadyCached ← checkBlocks
          ((Bytes.zeros (rangeCacheBitmapBytes
            (rangeCacheNumBlocks originSize))).splice 0 d) bs be
        let _ ← dyadReleaseFlock fd
        sys .mutexUnlock
        if alreadyCached then
          let _ ← sys (.close fd)
          return .ok
        else
          rangeCacheFill fd bs be originSize
            (rangeCacheBitmapBytes (rangeCacheNumBlocks originSize))) := by
  obtain ⟨_, ha⟩ := (ha.answer () True.intro).of_returns sharedFlock_returns
  rw [if_neg (by decide)] at ha
  obtain ⟨_, ha⟩ := ha.of_returns fastPath_returns
  obtain ⟨_, ha⟩ := ha.of_returns releaseFlock_returns
  obtain ⟨_, ha⟩ := ha.of_returns exclFlock_returns
  rw [if_neg (by decide)] at ha
  have ha := ha.answer (.ok originSize.val) fun _ h =>
    (Except.ok.inj h).symm
  dsimp only at ha
  have hne' : ¬ originSize.val = 0 := fun h0 => hne (Fin.ext h0)
  rw [if_neg hne'] at ha
  obtain ⟨_, ha⟩ := ha.of_returns size_returns
  rw [if_neg (by decide)] at ha
  have hlt : rangeCacheBitmapBytes (rangeCacheNumBlocks originSize) <
      2 ^ 63 := by
    have := originSize.isLt
    rw [bitmapBytes_eq this]
    omega
  have ha := ha.answer true fun _ => hlt
  rw [if_pos rfl] at ha
  exact ⟨_, ha.of_bind (runs_preadBitmap_ok hd)⟩

/-- A bitmap with every bit set takes the recheck past the buffer. -/
theorem recheck_out {bitmapBytes : Nat} (hle : bs ≤ be)
    (hout : bitmapBytes ≤ be / 8) :
    checkBlocks ((Bytes.zeros bitmapBytes).splice 0
      (Bytes.ofFn bitmapBytes fun _ => BitVec.allOnes 8)) bs be = ub := by
  have hnone : rangeCacheBlocksSet ((Bytes.zeros bitmapBytes).splice 0
      (Bytes.ofFn bitmapBytes fun _ => BitVec.allOnes 8)) bs be = none := by
    have hsize : ((Bytes.zeros bitmapBytes).splice 0
        (Bytes.ofFn bitmapBytes fun _ => BitVec.allOnes 8)).size =
          bitmapBytes := by
      rw [Bytes.size_splice, Bytes.size_zeros, Bytes.size_ofFn]
      split <;> omega
    refine blocksSetFrom_none (fun j _ hj => ?_) (by omega) ?_
    · rw [hsize] at hj
      rw [Bit, Bytes.get_splice, if_pos (by simpa using hj), Nat.sub_zero,
        Bytes.get_ofFn, if_pos hj, BitVec.getLsbD_allOnes]
      exact decide_eq_true (Nat.mod_lt _ (by omega))
    · rw [hsize, show bs + (be + 1 - bs) - 1 = be by omega]
      exact hout
  rw [checkBlocks, hnone]

/-- A bitmap with no bit set is a miss. -/
theorem recheck_miss {bitmap : Bytes Byte} (hle : bs ≤ be)
    (hin : bs / 8 < bitmap.size) (hbit : ¬ Bit bitmap bs) :
    checkBlocks bitmap bs be = Prog.pure false := by
  have hfalse : rangeCacheBlocksSet bitmap bs be = some false := by
    obtain ⟨n, hn⟩ : ∃ n, be + 1 - bs = n + 1 := ⟨be - bs, by omega⟩
    rw [rangeCacheBlocksSet, hn, blocksSetFrom, if_pos hin, if_pos]
    rw [mask_eq_zero (Nat.mod_lt _ (by omega))]
    simpa [Bit] using hbit
  rw [checkBlocks, hfalse]
  rfl

/-- What is recorded over an empty bitmap was not there before. -/
theorem record_new {bitmapBytes : Nat} (hle : bs ≤ be)
    (hin : be / 8 < bitmapBytes) (hlt : bitmapBytes < 2 ^ 63)
    (hnew : numBlocks ≤ be) :
    ¬ Along (EnsureAnswers size) (BitmapCall numBlocks) h
      (rangeCacheRecord fd bs be bitmapBytes) := by
  intro ha
  obtain ⟨_, ha⟩ := (ha.answer () True.intro).of_returns exclFlock_returns
  rw [if_neg (by decide)] at ha
  have ha := ha.answer true fun _ => hlt
  rw [if_pos rfl] at ha
  have ha := ha.of_bind
    (runs_preadBitmap_ok (d := Bytes.empty) (Nat.zero_le bitmapBytes))
  obtain ⟨bitmap', heq, _, hbits⟩ :=
    @rangeCacheSetBlocks_some ((Bytes.zeros bitmapBytes).splice 0 Bytes.empty)
      bs be (Or.inr hin)
  simp only [heq] at ha
  have hbit : Bit Bytes.empty be :=
    ha.issued be hnew ((hbits be).2 (Or.inr ⟨hle, Nat.le_refl _⟩))
  exact not_bit_of_size (Nat.zero_le _) hbit

/-- A span that is in bounds is one of those the condition lists. -/
theorem span_of_along {originSize : OffT} (hne : originSize ≠ 0)
    (hbe : be < 2 ^ 48)
    (ha : Along (EnsureAnswers originSize)
      (BitmapCall (rangeCacheNumBlocks originSize)) h
      (rangeCacheOpened fd bs be)) :
    be < bs ∨ be < rangeCacheNumBlocks originSize ∨
      (rangeCacheNumBlocks originSize ≤ bs ∧
        be / 8 < rangeCacheBitmapBytes (rangeCacheNumBlocks originSize)) := by
  by_contra hn
  simp only [not_or, not_and_or, Nat.not_lt, Nat.not_le] at hn
  obtain ⟨hle, hge, hor⟩ := hn
  have hsize := originSize.isLt
  rcases Nat.lt_or_ge (be / 8)
    (rangeCacheBitmapBytes (rangeCacheNumBlocks originSize)) with hin | hout
  · -- the recording marks block `be`, which the origin does not have
    have hbs : bs < rangeCacheNumBlocks originSize := by omega
    obtain ⟨_, ha⟩ := along_recheck (d := Bytes.empty) hne ha (Nat.zero_le _)
    have hmiss : checkBlocks (Bytes.zeros (rangeCacheBitmapBytes
        (rangeCacheNumBlocks originSize))) bs be = Prog.pure false := by
      refine recheck_miss hle ?_ (not_bit_zeros _ bs)
      rw [Bytes.size_zeros]
      exact byte_lt_of_block_lt hsize hbs
    rw [Bytes.splice_nothing, hmiss] at ha
    simp only [bind_eq, pure_bind] at ha
    obtain ⟨_, ha⟩ := ha.of_returns releaseFlock_returns
    have ha := ha.answer () True.intro
    rw [if_neg Bool.false_ne_true] at ha
    rw [bitmapBytes_eq hsize] at hin
    rw [numBlocks_eq hsize] at hbs
    obtain ⟨_, ha⟩ := ha.of_returns
      (@fetchSpan_returns originSize bs be originSize hsize
        (by rw [rangeCacheBlockSize_eq]; omega) hle (by omega))
    rw [if_neg (by decide)] at ha
    refine record_new hle ?_ ?_ hge ha
    · rw [bitmapBytes_eq hsize]
      exact hin
    · rw [bitmapBytes_eq hsize]
      omega
  · -- the recheck reads on to block `be`, which has no byte
    obtain ⟨_, ha⟩ := along_recheck hne ha (d := Bytes.ofFn
      (rangeCacheBitmapBytes (rangeCacheNumBlocks originSize))
      fun _ => BitVec.allOnes 8) (by simp)
    rw [recheck_out hle hout] at ha
    exact ha.1

end

/-- `dyad_range_cache_ensure` stays inside its bitmap exactly on the spans of
`SpanInBounds`. -/
theorem ensure_inBounds_iff (ctx : Ctx) (offset length : UInt64)
    (originSize : OffT) :
    EnsureInBounds ctx offset length originSize ↔
      SpanInBounds ctx offset length originSize := by
  unfold EnsureInBounds dyadRangeCacheEnsure
  simp only [bind_eq, pure_eq]
  split
  · next h0 =>
    exact ⟨fun _ => h0.elim Or.inl fun h => Or.inr (Or.inl h),
      fun _ => True.intro⟩
  · next h0 =>
    split
    · next h1 =>
      exact ⟨fun _ => Or.inr (Or.inr (Or.inl h1)), fun _ => True.intro⟩
    · next h1 =>
      rw [not_or] at h0
      constructor
      · intro ha
        refine Or.inr (Or.inr (Or.inr ?_))
        by_cases hne : originSize = 0
        · exact Or.inl hne
        · exact Or.inr (span_of_along hne (blockEnd_lt offset length)
            (ha.answer (.ok 0) True.intro))
      · intro hs
        have hs := ((hs.resolve_left h0.1).resolve_left h0.2).resolve_left h1
        refine Along.step True.intro fun r _ => ?_
        cases r with
        | error e => exact True.intro
        | ok fd =>
          refine along_opened ?_ ?_ (blockStart_lt offset)
          · rcases hs with h | h | h | h
            · exact Or.inl h
            · exact Or.inr (Or.inl h)
            · exact Or.inr (Or.inr (byte_lt_of_block_lt originSize.isLt h))
            · exact Or.inr (Or.inr h.2)
          · rcases hs with rfl | h | h | h
            · exact Or.inr (Or.inr (Nat.zero_le _))
            · exact Or.inl h
            · exact Or.inr (Or.inl h)
            · exact Or.inr (Or.inr h.1)

/-- One byte, asked of an origin of one byte at the start of its ninth block:
the bitmap has one byte, and the recheck reads a second. -/
theorem ensure_reads_past_bitmap :
    ¬ EnsureInBounds Ctx.consumer (8 * 65536) 1 1 := by
  intro ha
  unfold EnsureInBounds dyadRangeCacheEnsure at ha
  rw [if_neg (by decide), if_neg (by decide)] at ha
  have hs := span_of_along (by decide) (blockEnd_lt _ _)
    (ha.answer (.ok 0) True.intro)
  exact absurd hs (by decide)

end Dyad
