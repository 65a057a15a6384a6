import Dyad.Proofs.Unanswered

/-!
# The range cache of a request

What `dyad_range_cache_ensure` leaves of what a request has seen (`Left`): the
range and whether the request is detached, and the mutex dropped. How often the
mutex has been taken and dropped tells the critical sections apart, and the
sizes and reads that are looked at between are of the bitmap. It comes to
undefined behaviour where the bitmap that was read has no byte for a block of
the span, in the recheck and in the recording; the fast path has looked at the
size before.
-/

namespace Dyad.Request

open Conc Posix

/-- What a part leaves that takes or drops the mutex `n` times. -/
structure Kept (n : Nat) (o o' : Seen) : Prop where
  asked : o'.asked = o.asked
  detached : o'.detached = o.detached
  turns : o'.turns = o.turns + n

/-- What the range cache leaves. -/
structure Left (o o' : Seen) : Prop where
  asked : o'.asked = o.asked
  detached : o'.detached = o.detached
  unlocked : o'.turns % 2 = 0

section Parts

variable {α β : Type} {req : Request} {o o' o'' : Seen} {n : Nat}

theorem Kept.refl (o : Seen) : Kept 0 o o := ⟨rfl, rfl, rfl⟩

theorem Kept.trans (h : Kept 0 o o') (h' : Kept n o' o'') : Kept n o o'' where
  asked := h'.asked.trans h.asked
  detached := h'.detached.trans h.detached
  turns := by rw [h'.turns, h.turns, Nat.add_zero]

theorem Left.refl (ho : o.turns % 2 = 0) : Left o o := ⟨rfl, rfl, ho⟩

theorem Kept.trans_left (h : Kept n o o') (h' : Left o' o'') : Left o o'' where
  asked := h'.asked.trans h.asked
  detached := h'.detached.trans h.detached
  unlocked := h'.unlocked

/-- The part `p` does nothing undefined and takes or drops the mutex `n`
times. -/
abbrev Keeps (req : Request) (n : Nat) (o : Seen) (p : Program α) : Prop :=
  Does req o p fun o' _ => Kept n o o'

/-- What the part `p` leaves of what was seen is what the range cache leaves. -/
abbrev Leaves (req : Request) (o : Seen) (p : Program α) : Prop :=
  Does req o p fun o' _ => Left o o'

theorem kept_after_fstat (o : Seen) (fd : Nat) (r : Except Errno Nat) :
    Kept 0 o (o.after (.sys (.fstat fd)) r) := ⟨rfl, rfl, rfl⟩

theorem kept_after_pread (o : Seen) (fd off len : Nat)
    (r : Except Errno (Bytes Byte)) :
    Kept 0 o (o.after (.sys (.pread fd off len)) r) := by
  cases r <;> exact ⟨rfl, rfl, rfl⟩

theorem Keeps.bind {p : Program α} {f : α → Program β}
    (hp : Keeps req 0 o p)
    (hf : ∀ o' a, Kept 0 o o' → Keeps req n o' (f a)) :
    Keeps req n o (p.bind f) :=
  Does.bind hp fun o' a hk => (hf o' a hk).imp fun _ _ => hk.trans

theorem Keeps.leaves {p : Program α} {f : α → Program β}
    (hp : Keeps req n o p)
    (hf : ∀ o' a, Kept n o o' → Leaves req o' (f a)) :
    Leaves req o (p.bind f) :=
  Does.bind hp fun o' a hk => (hf o' a hk).imp fun _ _ => hk.trans_left

theorem mutexLock_keeps (o : Seen) : Keeps req 1 o (sys .mutexLock) :=
  From.call rfl fun _ r _ =>
    ⟨permits_of_harmless rfl r, Does.pure ⟨rfl, rfl, rfl⟩⟩

theorem mutexUnlock_keeps (o : Seen) : Keeps req 1 o (sys .mutexUnlock) :=
  From.call rfl fun _ r _ =>
    ⟨permits_of_harmless rfl r, Does.pure ⟨rfl, rfl, rfl⟩⟩

end Parts

/-! ## Locks and files -/

section Files

variable {req : Request} {o : Seen}

theorem getFileSize_keeps (fd : Nat) : Keeps req 0 o (getFileSize fd) := by
  refine From.call rfl fun h r _ => ⟨permits_of_harmless rfl r, ?_⟩
  cases r <;> exact Does.pure (kept_after_fstat o fd _)

theorem dyadExclFlock_keeps (fd : Nat) : Keeps req 0 o (dyadExclFlock fd) :=
  From.skip rfl (fun _ => rfl) fun r => by
    cases r <;> exact Does.pure (.refl o)

theorem dyadSharedFlock_keeps (fd : Nat) :
    Keeps req 0 o (dyadSharedFlock fd) :=
  From.skip rfl (fun _ => rfl) fun r => by
    cases r <;> exact Does.pure (.refl o)

theorem dyadReleaseFlock_keeps (fd : Nat) :
    Keeps req 0 o (dyadReleaseFlock fd) :=
  From.skip rfl (fun _ => rfl) fun r => by
    cases r <;> exact Does.pure (.refl o)

theorem closeOpened_keeps (fds : List Nat) :
    Keeps req 0 o (closeOpened fds) := by
  induction fds with
  | nil => exact Does.pure (.refl o)
  | cons fd fds ih => exact From.skip rfl (fun _ => rfl) fun _ => ih

/-- The way out of a part that has opened files. -/
theorem closing_keeps (fds : List Nat) (rc : Rc) :
    Keeps req 0 o ((closeOpened fds).bind fun _ => .pure rc) :=
  (closeOpened_keeps fds).bind fun o' _ _ => Does.pure (.refl o')

/-- Outside the critical sections what is read is no bitmap. -/
theorem pread_keeps (he : o.turns % 2 = 0) (fd off len : Nat) :
    Keeps req 0 o (sys (.pread fd off len)) :=
  From.call rfl fun _ r _ =>
    ⟨permits_pread he r, Does.pure (kept_after_pread o fd off len r)⟩

theorem fetchSpanAt_keeps (he : o.turns % 2 = 0) (spanOff spanLen : Nat) :
    Keeps req 0 o (fetchSpanAt spanOff spanLen) := by
  refine From.skip rfl (fun _ => rfl) fun originFd => ?_
  cases originFd with
  | error e => exact Does.pure (.refl o)
  | ok originFd =>
    refine (pread_keeps he originFd spanOff spanLen).bind fun o' spanBuf _ => ?_
    cases spanBuf with
    | error e => exact closing_keeps _ _
    | ok spanBuf =>
      dsimp only
      split
      · exact closing_keeps _ _
      · refine From.skip rfl (fun _ => rfl) fun localFd => ?_
        cases localFd with
        | error e => exact closing_keeps _ _
        | ok localFd =>
          refine From.skip rfl (fun _ => rfl) fun written => ?_
          cases written <;> exact closing_keeps _ _

theorem rangeCacheFetchSpan_keeps (he : o.turns % 2 = 0)
    (bs be originSize : Nat) :
    Keeps req 0 o (rangeCacheFetchSpan bs be originSize) := by
  rw [rangeCacheFetchSpan]
  split
  · exact Does.pure (.refl o)
  · refine From.skip rfl (fun _ => rfl) fun b => ?_
    cases b with
    | true => exact fetchSpanAt_keeps he _ _
    | false => exact Does.pure (.refl o)

theorem rangeCacheSize_keeps (fd originSize bitmapBytes : Nat) :
    Keeps req 0 o (rangeCacheSize fd originSize bitmapBytes) := by
  refine (getFileSize_keeps fd).bind fun o' size _ => ?_
  split
  · refine From.skip rfl (fun _ => rfl) fun sizeFd => ?_
    cases sizeFd with
    | error e => exact Does.pure (.refl o')
    | ok sizeFd =>
      refine From.skip rfl (fun _ => rfl) fun r => ?_
      cases r with
      | error e => exact closing_keeps _ _
      | ok u =>
        refine From.skip rfl (fun _ => rfl) fun r => ?_
        cases r <;> exact closing_keeps _ _
  · exact Does.pure (.refl o')

theorem ensureLeaveUnlocked_leaves (ht : o.turns % 2 = 1) (fd : Nat)
    (rc : Rc) : Leaves req o (ensureLeaveUnlocked fd rc) := by
  refine (mutexUnlock_keeps o).leaves fun o' _ hk => ?_
  refine From.skip rfl (fun _ => rfl) fun _ => Does.pure (.refl ?_)
  have := hk.turns
  omega

theorem ensureLeave_leaves (ht : o.turns % 2 = 1) (fd : Nat) (rc : Rc) :
    Leaves req o (ensureLeave fd rc) := by
  refine (dyadReleaseFlock_keeps fd).leaves fun o' _ hk => ?_
  exact ensureLeaveUnlocked_leaves (hk.turns ▸ ht) fd rc

end Files

/-! ## The bitmap -/

section Bitmap

variable {α : Type} {req : Request} {o : Seen} {offset length : UInt64}
  {R : ServiceHistory → α → Prop}

theorem size_readBuffer {len : Nat} {r : Except Errno (Bytes Byte)} :
    len ≤ (readBuffer len r).size := by
  cases r with
  | error e => exact Nat.le_refl len
  | ok d => exact Bytes.le_size_splice (Bytes.zeros len) 0 d

/-- In the critical sections the bitmap that is read is looked at: what follows
is undefined where it is too short. -/
theorem preadBitmap_from (ha : o.asked = some (offset, length))
    (fd bitmapBytes : Nat) {f : Bytes Byte → Program α}
    (hshort : ∀ bitmap, pastBitmap (blockStart offset)
      (blockEnd offset length) o.turns bitmap = true →
      ∃ k, f bitmap = .call .ub k)
    (hlong : ∀ bitmap, pastBitmap (blockStart offset)
      (blockEnd offset length) o.turns bitmap = false →
      ∀ o', Kept 0 o o' → From req o' (f bitmap) R) :
    From req o ((preadBitmap fd bitmapBytes).bind f) R := by
  intro h hat
  refine Prog.wp_step True.intro fun r hr => ?_
  have hgo : Prog.wp Sane (Faults req) R (f (readBuffer bitmapBytes r))
      (⟨.sys (.pread fd 0 bitmapBytes), r⟩ :: h) := by
    cases hb : pastBitmap (blockStart offset) (blockEnd offset length) o.turns
        (readBuffer bitmapBytes r) with
    | true =>
      obtain ⟨k, hk⟩ := hshort _ hb
      rw [hk]
      refine ⟨faults_bitmap (hat.asked.trans ha) ?_, fun r => r.elim⟩
      rwa [hat.turns]
    | false =>
      have hp : Permits req o (.sys (.pread fd 0 bitmapBytes)) r :=
        fun offset' length' ha' => by
          obtain ⟨rfl, rfl⟩ := Prod.mk.inj
            (Option.some.inj (ha.symm.trans ha'))
          exact hb
      exact hlong _ hb _ (kept_after_pread o fd 0 bitmapBytes r) _
        (hat.step rfl hp hr)
  cases r <;> exact hgo

/-- The fast path has looked at the size of the bitmap. -/
theorem rangeCacheFastPath_keeps (ha : o.asked = some (offset, length))
    (ht : o.turns = 1) (fd : Nat) :
    Keeps req 0 o (rangeCacheFastPath fd (blockStart offset)
      (blockEnd offset length)) := by
  refine (getFileSize_keeps fd).bind fun o' bitmapBytes hk => ?_
  split
  · next hlarge =>
    refine From.skip rfl (fun _ => rfl) fun b => ?_
    cases b with
    | false => exact Does.pure (.refl o')
    | true =>
      have hset : ∀ bitmap : Bytes Byte, bitmapBytes ≤ bitmap.size →
          ∃ hit, rangeCacheBlocksSet bitmap (blockStart offset)
            (blockEnd offset length) = some hit := fun bitmap hsize =>
        rangeCacheBlocksSet_isSome (Or.inr (by omega))
      refine From.call rfl fun h r _ => ⟨fun offset' length' ha' => ?_, ?_⟩
      · obtain ⟨rfl, rfl⟩ := Prod.mk.inj
          (Option.some.inj ((hk.asked.trans ha).symm.trans ha'))
        obtain ⟨hit, hhit⟩ := hset _ (@size_readBuffer bitmapBytes r)
        rw [hk.turns, ht, pastBitmap, hhit]
        rfl
      · have hk' := kept_after_pread o' fd 0 bitmapBytes r
        cases r with
        | error e => exact Does.pure hk'
        | ok bitmap =>
          dsimp only
          split
          · next hsize =>
            obtain ⟨hit, hhit⟩ := hset bitmap (Nat.le_of_eq hsize.symm)
            rw [checkBlocks, hhit]
            exact Does.pure hk'
          · exact Does.pure hk'
  · exact Does.pure (.refl o')

theorem rangeCacheRecord_leaves (ha : o.asked = some (offset, length))
    (ht : o.turns = 2) (fd bitmapBytes : Nat) :
    Leaves req o (rangeCacheRecord fd (blockStart offset)
      (blockEnd offset length) bitmapBytes) := by
  refine (mutexLock_keeps o).leaves fun o' _ hk => ?_
  have ht' : o'.turns = 3 := by rw [hk.turns, ht]
  refine (dyadExclFlock_keeps fd).leaves fun o'' rc hk' => ?_
  have ht'' : o''.turns = 3 := by rw [hk'.turns, ht']
  have hodd : o''.turns % 2 = 1 := by rw [ht'']
  split
  · exact ensureLeaveUnlocked_leaves hodd _ _
  · refine From.skip rfl (fun _ => rfl) fun b => ?_
    cases b with
    | false => exact ensureLeave_leaves hodd _ _
    | true =>
      have hask : o''.asked = some (offset, length) :=
        hk'.asked.trans (hk.asked.trans ha)
      refine preadBitmap_from hask fd bitmapBytes (fun bitmap hb => ?_)
        fun bitmap hb o₃ hk₃ => ?_
      · rw [ht'', pastBitmap, Option.isNone_iff_eq_none] at hb
        rw [hb]
        exact ⟨_, rfl⟩
      · rw [ht'', pastBitmap, Option.isNone_eq_false_iff,
          Option.isSome_iff_exists] at hb
        obtain ⟨bitmap', hb'⟩ := hb
        rw [hb']
        refine From.skip rfl (fun _ => rfl) fun r => ?_
        cases r <;> exact
          (ensureLeave_leaves (hk₃.turns ▸ hodd) _ _).imp fun _ _ =>
            hk₃.trans_left

theorem rangeCacheFill_leaves (ha : o.asked = some (offset, length))
    (ht : o.turns = 2) (fd originSize bitmapBytes : Nat) :
    Leaves req o (rangeCacheFill fd (blockStart offset)
      (blockEnd offset length) originSize bitmapBytes) := by
  have heven : o.turns % 2 = 0 := by rw [ht]
  refine (rangeCacheFetchSpan_keeps heven _ _ _).leaves fun o' rc hk => ?_
  have ht' : o'.turns = 2 := by rw [hk.turns, ht]
  split
  · exact From.skip rfl (fun _ => rfl) fun _ => Does.pure (.refl (by rw [ht']))
  · exact rangeCacheRecord_leaves (hk.asked.trans ha) ht' fd bitmapBytes

/-- The recheck, and what follows it. -/
theorem rangeCacheRecheck_leaves (ha : o.asked = some (offset, length))
    (ht : o.turns = 1) (fd originSize bitmapBytes : Nat) :
    Leaves req o (do
      let bitmap ← preadBitmap fd bitmapBytes
      let alreadyCached ← checkBlocks bitmap (blockStart offset)
        (blockEnd offset length)
      let _ ← dyadReleaseFlock fd
      sys .mutexUnlock
      if alreadyCached then
        let _ ← sys (.close fd)
        return .ok
      else
        rangeCacheFill fd (blockStart offset) (blockEnd offset length)
          originSize bitmapBytes) := by
  refine preadBitmap_from ha fd bitmapBytes (fun bitmap hb => ?_)
    fun bitmap hb o' hk => ?_
  · rw [ht, pastBitmap, Option.isNone_iff_eq_none] at hb
    rw [checkBlocks, hb]
    exact ⟨_, rfl⟩
  · rw [ht, pastBitmap, Option.isNone_eq_false_iff,
      Option.isSome_iff_exists] at hb
    obtain ⟨alreadyCached, hb⟩ := hb
    rw [checkBlocks, hb]
    refine Does.imp (Q := fun o'' _ => Left o' o'') ?_ fun _ _ => hk.trans_left
    refine (dyadReleaseFlock_keeps fd).leaves fun o₁ _ hk₁ => ?_
    refine (mutexUnlock_keeps o₁).leaves fun o₂ _ hk₂ => ?_
    have ht₂ : o₂.turns = 2 := by rw [hk₂.turns, hk₁.turns, hk.turns, ht]
    split
    · exact From.skip rfl (fun _ => rfl) fun _ =>
        Does.pure (.refl (by rw [ht₂]))
    · refine rangeCacheFill_leaves ?_ ht₂ fd originSize bitmapBytes
      rw [hk₂.asked, hk₁.asked, hk.asked, ha]

theorem rangeCacheMiss_leaves (ha : o.asked = some (offset, length))
    (ht : o.turns = 1) (fd : Nat) :
    Leaves req o (rangeCacheMiss fd (blockStart offset)
      (blockEnd offset length)) := by
  have hodd : o.turns % 2 = 1 := by rw [ht]
  refine From.skip rfl (fun _ => rfl) fun originSize => ?_
  cases originSize with
  | error e => exact ensureLeave_leaves hodd _ _
  | ok originSize =>
    dsimp only
    split
    · exact ensureLeave_leaves hodd _ _
    · refine (rangeCacheSize_keeps _ _ _).leaves fun o' rc hk => ?_
      split
      · exact ensureLeave_leaves (hk.turns ▸ hodd) _ _
      · refine From.skip rfl (fun _ => rfl) fun b => ?_
        cases b with
        | false => exact ensureLeave_leaves (hk.turns ▸ hodd) _ _
        | true =>
          exact rangeCacheRecheck_leaves (hk.asked.trans ha)
            (hk.turns.trans ht) fd originSize _

theorem rangeCacheOpened_leaves (ha : o.asked = some (offset, length))
    (ht : o.turns = 0) (fd : Nat) :
    Leaves req o (rangeCacheOpened fd (blockStart offset)
      (blockEnd offset length)) := by
  refine (mutexLock_keeps o).leaves fun o₁ _ hk₁ => ?_
  refine (dyadSharedFlock_keeps fd).leaves fun o₂ rc hk₂ => ?_
  have ht₂ : o₂.turns = 1 := by rw [hk₂.turns, hk₁.turns, ht]
  have ha₂ : o₂.asked = some (offset, length) := by
    rw [hk₂.asked, hk₁.asked, ha]
  split
  · exact ensureLeaveUnlocked_leaves (by rw [ht₂]) _ _
  · refine (rangeCacheFastPath_keeps ha₂ ht₂ fd).leaves fun o₃ hit hk₃ => ?_
    have ht₃ : o₃.turns = 1 := by rw [hk₃.turns, ht₂]
    split
    · exact ensureLeave_leaves (by rw [ht₃]) _ _
    · refine (dyadReleaseFlock_keeps fd).leaves fun o₄ _ hk₄ => ?_
      refine (dyadExclFlock_keeps fd).leaves fun o₅ rc hk₅ => ?_
      have ht₅ : o₅.turns = 1 := by rw [hk₅.turns, hk₄.turns, ht₃]
      split
      · exact ensureLeaveUnlocked_leaves (by rw [ht₅]) _ _
      · refine rangeCacheMiss_leaves ?_ ht₅ fd
        rw [hk₅.asked, hk₄.asked, hk₃.asked, ha₂]

theorem dyadRangeCacheEnsure_leaves (ctx : Ctx)
    (ha : o.asked = some (offset, length)) (ht : o.turns = 0) :
    Leaves req o (dyadRangeCacheEnsure ctx offset length) := by
  have heven : o.turns % 2 = 0 := by rw [ht]
  rw [dyadRangeCacheEnsure]
  split
  · exact Does.pure (.refl heven)
  · split
    · exact Does.pure (.refl heven)
    · refine From.skip rfl (fun _ => rfl) fun bitmapFd => ?_
      cases bitmapFd with
      | error e => exact Does.pure (.refl heven)
      | ok bitmapFd => exact rangeCacheOpened_leaves ha ht bitmapFd

end Bitmap

end Dyad.Request
