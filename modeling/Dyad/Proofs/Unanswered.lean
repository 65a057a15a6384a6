import Dyad.Service.Request

/-!
# A request before its exits

The calls a request makes before an exit leave it unanswered, with what it has
seen of the file recorded in the history (`At`). `From` and `Does` carry that
through a program: `From req o p R` starts where the request has seen `o` and
ends in `R`, and `Does req o p Q` is the case in which it is still unanswered
at the end. A part may also come to undefined behaviour, where the history is
one that leads there (`Faults`).

The range cache only calls the operating system (`FilesOnly`).
-/

namespace Dyad.Request

open Conc Posix

/-- What a request has seen. -/
structure Seen where
  size : Option Nat
  data : Bytes Byte
  asked : Option (UInt64 × UInt64)
  detached : Bool
  turns : Nat

/-- What it has seen after one more call. -/
def Seen.after (o : Seen) : (c : Call) → c.Res → Seen
  | .sys (.fstat _), r => { o with size := r.toOption, data := Bytes.empty }
  | .sys (.pread ..), .ok d => { o with data := o.data.append d }
  | .sys .mutexLock, _ => { o with turns := o.turns + 1 }
  | .sys .mutexUnlock, _ => { o with turns := o.turns + 1 }
  | .rpcUnpackRange, .ok asked => { o with asked := some asked }
  | .rpcDetachRequest, .ok _ => { o with detached := true }
  | _, _ => o

/-- The request is unanswered, has seen `o` and done nothing undefined, and
every errno that was read had been set. -/
structure At (req : Request) (o : Seen) (h : ServiceHistory) : Prop where
  unanswered : h.filterMap terminal = []
  unsent : h.filterMap handedOver = []
  unlost : h.any sendLost = false
  fresh : stale h = []
  errno : ∀ e, pinned h = some e → e ≠ 0 ∧ e ≠ Errno.ENODATA
  size : sizeSeen h = o.size
  data : dataRead h = o.data
  asked : rangeAsked h = o.asked
  detached : detached h = o.detached
  turns : mutexTurns h = o.turns
  legal : req.Legal h

/-! ## Undefined behaviour -/

/-- A bitmap read outside the critical sections is not looked at. -/
theorem pastBitmap_even {bs be turns : Nat} {bitmap : Bytes Byte}
    (h : turns % 2 = 0) : pastBitmap bs be turns bitmap = false := by
  unfold pastBitmap
  split
  · omega
  · omega
  · rfl

theorem overruns_of_turns {bs be : Nat} {h : ServiceHistory}
    (ht : mutexTurns h = 0) : overruns bs be h = false := by
  induction h with
  | nil => rfl
  | cons e h ih =>
    obtain ⟨c, r⟩ := e
    cases c with
    | sys c =>
      cases c with
      | mutexLock => exact absurd ht (Nat.succ_ne_zero _)
      | mutexUnlock => exact absurd ht (Nat.succ_ne_zero _)
      | pread fd off len =>
        have ht : mutexTurns h = 0 := ht
        rw [overruns, ih ht, ht]
        rfl
      | _ => exact ih ht
    | _ => exact ih ht

/-- After the call nothing undefined comes: it leaves no null pointer to
follow, and no bitmap that is too short. -/
def Permits (req : Request) (o : Seen) : (c : Call) → c.Res → Prop
  | .sys (.pread _ _ len), r => ∀ offset length,
      o.asked = some (offset, length) →
        pastBitmap (blockStart offset) (blockEnd offset length) o.turns
          (readBuffer len r) = false
  | .rpcUnpackRange, _ => o.turns = 0
  | c, r => req.followsNull ⟨c, r⟩ = false

theorem permits_of_harmless {req : Request} {o : Seen} {c : Call}
    (hc : c.harmless = true) (r : c.Res) : Permits req o c r := by
  cases c with
  | sys c =>
    cases c with
    | pread fd off len => exact absurd hc (by simp [Call.harmless])
    | _ => exact rfl
  | msgGetUserid => exact absurd hc (by simp [Call.harmless])
  | rpcUnpack => exact absurd hc (by simp [Call.harmless])
  | rpcUnpackRange => exact absurd hc (by simp [Call.harmless])
  | getBuffer size => exact absurd hc (by simp [Call.harmless])
  | _ => exact rfl

/-- Data that is read is no bitmap. -/
theorem permits_pread {req : Request} {o : Seen} (he : o.turns % 2 = 0)
    {fd off len : Nat} (r : Except Errno (Bytes Byte)) :
    Permits req o (.sys (.pread fd off len)) r :=
  fun _ _ _ => pastBitmap_even he

theorem Legal.step {req : Request} {h : ServiceHistory} (hl : req.Legal h)
    {o : Seen} (ha : rangeAsked h = o.asked) (ht : mutexTurns h = o.turns)
    {c : Call} {r : c.Res} (hp : Permits req o c r) :
    req.Legal (⟨c, r⟩ :: h) := by
  obtain ⟨hpointers, hbitmap⟩ := hl
  have hcons : req.followsNull ⟨c, r⟩ = false →
      (⟨c, r⟩ :: h).any req.followsNull = false := fun hn => by
    rw [List.any_cons, hn, hpointers]
    rfl
  cases c with
  | sys c =>
    refine ⟨hcons rfl, ?_⟩
    cases c with
    | pread fd off len =>
      intro offset length hasked
      have hpast := hp offset length (ha ▸ hasked)
      rw [overruns, ht, hpast, hbitmap offset length hasked]
      rfl
    | _ => exact hbitmap
  | rpcUnpackRange =>
    exact ⟨hcons rfl, fun _ _ _ => overruns_of_turns (ht.trans hp)⟩
  | _ => exact ⟨hcons hp, hbitmap⟩

/-- Where there was undefined behaviour, the history led to it. -/
def Faults (req : Request) (h : ServiceHistory) : Call → Prop
  | .ub => ¬ req.Legal h
  | _ => True

theorem faults_of_plain {req : Request} {h : ServiceHistory} {c : Call}
    (hc : c.plain = true) : Faults req h c := by
  cases c with
  | ub => exact absurd hc (by simp [Call.plain])
  | _ => exact True.intro

theorem faults_null {req : Request} {h : ServiceHistory}
    {e : Prog.Event Call.Res} (he : req.followsNull e = true) :
    ¬ req.Legal (e :: h) := by
  rintro ⟨hpointers, -⟩
  rw [List.any_cons, he] at hpointers
  exact absurd hpointers (by simp)

theorem faults_bitmap {req : Request} {h : ServiceHistory}
    {offset length : UInt64} (ha : rangeAsked h = some (offset, length))
    {fd off len : Nat} {r : Except Errno (Bytes Byte)}
    (hpast : pastBitmap (blockStart offset) (blockEnd offset length)
      (mutexTurns h) (readBuffer len r) = true) :
    ¬ req.Legal (⟨.sys (.pread fd off len), r⟩ :: h) := by
  rintro ⟨-, hbitmap⟩
  have := hbitmap offset length ha
  rw [overruns, hpast] at this
  exact absurd this (by simp)

/-! ## One call -/

theorem pinned_of_plain {h : ServiceHistory} {c : Call} {r : c.Res}
    (hc : c.plain = true) : pinned (⟨c, r⟩ :: h) =
      (failedWith ⟨c, r⟩).or (if c.leavesErrno then pinned h else none) := by
  cases c with
  | setErrno e => exact absurd hc (by simp [Call.plain])
  | _ =>
    rw [pinned]
    · cases failedWith ⟨_, r⟩ <;> rfl
    · simp

theorem pinned_cons {h : ServiceHistory} {c : Call} {r : c.Res}
    (hc : c.plain = true) {e : Errno} (hp : pinned (⟨c, r⟩ :: h) = some e) :
    failedWith ⟨c, r⟩ = some e ∨ pinned h = some e := by
  rw [pinned_of_plain hc] at hp
  cases hf : failedWith ⟨c, r⟩ with
  | some errno =>
    rw [hf] at hp
    exact Or.inl hp
  | none =>
    rw [hf, Option.none_or] at hp
    split at hp
    · exact Or.inr hp
    · exact absurd hp (by simp)

/-- A plain call leaves the request unanswered. -/
theorem At.step {req : Request} {o : Seen} {h : ServiceHistory}
    (ha : At req o h) {c : Call} {r : c.Res} (hc : c.plain = true)
    (hp : Permits req o c r) (hr : Sane h c r) :
    At req (o.after c r) (⟨c, r⟩ :: h) := by
  have hpinned : ∀ e, pinned (⟨c, r⟩ :: h) = some e →
      e ≠ 0 ∧ e ≠ Errno.ENODATA := fun e he =>
    (pinned_cons hc he).elim (hr.1 e) (ha.errno e)
  have hl := Legal.step ha.legal ha.asked ha.turns hp
  obtain ⟨h1, h2, h3, h4, -, h6, h7, h8, h9, ht, -⟩ := ha
  cases c with
  | sys c =>
    cases c with
    | fstat i => exact ⟨h1, h2, h3, h4, hpinned, rfl, rfl, h8, h9, ht, hl⟩
    | pread i off len =>
      cases r with
      | error e => exact ⟨h1, h2, h3, h4, hpinned, h6, h7, h8, h9, ht, hl⟩
      | ok d =>
        exact ⟨h1, h2, h3, h4, hpinned, h6,
          congrArg (fun b : Bytes Byte => b.append d) h7, h8, h9, ht, hl⟩
    | mutexLock =>
      exact ⟨h1, h2, h3, h4, hpinned, h6, h7, h8, h9, congrArg (· + 1) ht, hl⟩
    | mutexUnlock =>
      exact ⟨h1, h2, h3, h4, hpinned, h6, h7, h8, h9, congrArg (· + 1) ht, hl⟩
    | _ => exact ⟨h1, h2, h3, h4, hpinned, h6, h7, h8, h9, ht, hl⟩
  | rpcUnpackRange =>
    cases r with
    | error rc => exact ⟨h1, h2, h3, h4, hpinned, h6, h7, h8, h9, ht, hl⟩
    | ok asked => exact ⟨h1, h2, h3, h4, hpinned, h6, h7, rfl, h9, ht, hl⟩
  | rpcDetachRequest =>
    cases r with
    | error rc => exact ⟨h1, h2, h3, h4, hpinned, h6, h7, h8, h9, ht, hl⟩
    | ok u => exact ⟨h1, h2, h3, h4, hpinned, h6, h7, h8, rfl, ht, hl⟩
  | respondError e => exact absurd hc (by simp [Call.plain])
  | send payload => exact absurd hc (by simp [Call.plain])
  | rpcSendDetached payload => exact absurd hc (by simp [Call.plain])
  | errno => exact absurd hc (by simp [Call.plain])
  | setErrno e => exact absurd hc (by simp [Call.plain])
  | _ => exact ⟨h1, h2, h3, h4, hpinned, h6, h7, h8, h9, ht, hl⟩

theorem At.setErrno {req : Request} {o : Seen} {h : ServiceHistory}
    (ha : At req o h) {e : Errno} (he : e ≠ 0 ∧ e ≠ Errno.ENODATA) :
    At req o (⟨.setErrno e, ()⟩ :: h) := by
  refine ⟨ha.unanswered, ha.unsent, ha.unlost, ha.fresh, fun e' he' => ?_,
    ha.size, ha.data, ha.asked, ha.detached, ha.turns,
    Legal.step ha.legal ha.asked ha.turns (permits_of_harmless rfl _)⟩
  obtain rfl := Option.some.inj he'
  exact he

/-! ## Parts of a request -/

/-- Where a request has seen `o`, its part `p` ends in `R`. -/
def From {α : Type} (req : Request) (o : Seen) (p : Program α)
    (R : ServiceHistory → α → Prop) : Prop :=
  ∀ h, At req o h → Prog.wp Sane (Faults req) R p h

/-- The part `p` leaves the request unanswered, and what it then has seen and
the result satisfy `Q`. -/
def Does {α : Type} (req : Request) (o : Seen) (p : Program α)
    (Q : Seen → α → Prop) : Prop :=
  From req o p fun h a => ∃ o', At req o' h ∧ Q o' a

section Parts

variable {α β : Type} {req : Request} {o : Seen}
  {R : ServiceHistory → α → Prop} {Q : Seen → α → Prop}

theorem Does.pure {a : α} (hq : Q o a) : Does req o (.pure a) Q :=
  fun _ ha => ⟨o, ha, hq⟩

theorem From.call {c : Call} {f : c.Res → Program α} (hc : c.plain = true)
    (hf : ∀ h r, Sane h c r →
      Permits req o c r ∧ From req (o.after c r) (f r) R) :
    From req o ((perform c).bind f) R :=
  fun h ha => Prog.wp_step (faults_of_plain hc) fun r hr =>
    (hf h r hr).2 _ (ha.step hc (hf h r hr).1 hr)

/-- A call whose answer may be any and that shows nothing of the file. -/
theorem From.skip {c : Call} {f : c.Res → Program α} (hc : c.calm = true)
    (ho : ∀ r, o.after c r = o) (hf : ∀ r, From req o (f r) R) :
    From req o ((perform c).bind f) R := by
  obtain ⟨hplain, hharmless⟩ := (Bool.and_eq_true _ _).mp hc
  refine From.call hplain fun _ r _ => ⟨permits_of_harmless hharmless r, ?_⟩
  rw [ho r]
  exact hf r

theorem From.setErrno {e : Errno} {f : Unit → Program α}
    (he : e ≠ 0 ∧ e ≠ Errno.ENODATA) (hf : From req o (f ()) R) :
    From req o ((perform (.setErrno e)).bind f) R :=
  fun _ ha => Prog.wp_step True.intro fun _ _ => hf _ (ha.setErrno he)

theorem Does.bind {p : Program α} {f : α → Program β}
    {R : ServiceHistory → β → Prop} (hp : Does req o p Q)
    (hf : ∀ o' a, Q o' a → From req o' (f a) R) : From req o (p.bind f) R :=
  fun h ha => Prog.wp_bind.2 (Prog.wp_imp (hp h ha)
    fun h a ⟨o', ha', hq⟩ => hf o' a hq h ha')

theorem Does.imp {p : Program α} {Q' : Seen → α → Prop} (hp : Does req o p Q)
    (hq : ∀ o' a, Q o' a → Q' o' a) : Does req o p Q' :=
  fun h ha => Prog.wp_imp (hp h ha)
    fun _ a ⟨o', ha', h'⟩ => ⟨o', ha', hq o' a h'⟩

end Parts

/-! ## The range cache -/

section

/-- Only the operating system is called. -/
abbrev FilesOnly {α : Type} (p : Program α) : Prop :=
  p.All fun c => c.ofFile = true

theorem sys_filesOnly {α : Type} {c : Sys Name Byte} {f : c.Res → Program α}
    (hf : ∀ r, FilesOnly (f r)) : FilesOnly ((sys c).bind f) :=
  .step rfl hf

theorem getFileSize_filesOnly (fd : Nat) : FilesOnly (getFileSize fd) :=
  sys_filesOnly fun r => by cases r <;> exact True.intro

theorem dyadExclFlock_filesOnly (fd : Nat) : FilesOnly (dyadExclFlock fd) :=
  sys_filesOnly fun r => by cases r <;> exact True.intro

theorem dyadSharedFlock_filesOnly (fd : Nat) : FilesOnly (dyadSharedFlock fd) :=
  sys_filesOnly fun r => by cases r <;> exact True.intro

theorem dyadReleaseFlock_filesOnly (fd : Nat) :
    FilesOnly (dyadReleaseFlock fd) :=
  sys_filesOnly fun r => by cases r <;> exact True.intro

theorem closeOpened_filesOnly (fds : List Nat) :
    FilesOnly (closeOpened fds) := by
  induction fds with
  | nil => exact True.intro
  | cons fd fds ih => exact sys_filesOnly fun _ => ih

theorem fetchSpanAt_filesOnly (spanOff spanLen : Nat) :
    FilesOnly (fetchSpanAt spanOff spanLen) := by
  refine sys_filesOnly fun originFd => ?_
  cases originFd with
  | error e => exact True.intro
  | ok originFd =>
    refine sys_filesOnly fun spanBuf => ?_
    cases spanBuf with
    | error e => exact (closeOpened_filesOnly _).bind fun _ => True.intro
    | ok spanBuf =>
      dsimp only
      split
      · exact (closeOpened_filesOnly _).bind fun _ => True.intro
      · refine sys_filesOnly fun localFd => ?_
        cases localFd with
        | error e => exact (closeOpened_filesOnly _).bind fun _ => True.intro
        | ok localFd =>
          refine sys_filesOnly fun written => ?_
          cases written <;>
            exact (closeOpened_filesOnly _).bind fun _ => True.intro

theorem rangeCacheFetchSpan_filesOnly (bs be originSize : Nat) :
    FilesOnly (rangeCacheFetchSpan bs be originSize) := by
  rw [rangeCacheFetchSpan]
  split
  · exact True.intro
  · refine sys_filesOnly fun b => ?_
    cases b with
    | true => exact fetchSpanAt_filesOnly _ _
    | false => exact True.intro

theorem ensureLeave_filesOnly (fd : Nat) (rc : Rc) :
    FilesOnly (ensureLeave fd rc) :=
  (dyadReleaseFlock_filesOnly fd).bind fun _ =>
    sys_filesOnly fun _ => sys_filesOnly fun _ => True.intro

theorem ensureLeaveUnlocked_filesOnly (fd : Nat) (rc : Rc) :
    FilesOnly (ensureLeaveUnlocked fd rc) :=
  sys_filesOnly fun _ => sys_filesOnly fun _ => True.intro

theorem checkBlocks_filesOnly (bitmap : Bytes Byte) (bs be : Nat) :
    FilesOnly (checkBlocks bitmap bs be) := by
  rw [checkBlocks]
  split
  · exact True.intro
  · exact ⟨rfl, fun r => r.elim⟩

theorem rangeCacheFastPath_filesOnly (fd bs be : Nat) :
    FilesOnly (rangeCacheFastPath fd bs be) := by
  refine (getFileSize_filesOnly fd).bind fun bitmapBytes => ?_
  split
  · refine sys_filesOnly fun b => ?_
    cases b with
    | false => exact True.intro
    | true =>
      refine sys_filesOnly fun bitmap => ?_
      cases bitmap with
      | error e => exact True.intro
      | ok bitmap =>
        dsimp only
        split
        · exact checkBlocks_filesOnly _ _ _
        · exact True.intro
  · exact True.intro

theorem rangeCacheSize_filesOnly (fd originSize bitmapBytes : Nat) :
    FilesOnly (rangeCacheSize fd originSize bitmapBytes) := by
  refine (getFileSize_filesOnly fd).bind fun size => ?_
  split
  · refine sys_filesOnly fun sizeFd => ?_
    cases sizeFd with
    | error e => exact True.intro
    | ok sizeFd =>
      refine sys_filesOnly fun r => ?_
      cases r with
      | error e => exact (closeOpened_filesOnly _).bind fun _ => True.intro
      | ok u =>
        refine sys_filesOnly fun r => ?_
        cases r <;> exact (closeOpened_filesOnly _).bind fun _ => True.intro
  · exact True.intro

theorem preadBitmap_filesOnly (fd bitmapBytes : Nat) :
    FilesOnly (preadBitmap fd bitmapBytes) :=
  sys_filesOnly fun r => by cases r <;> exact True.intro

theorem rangeCacheRecord_filesOnly (fd bs be bitmapBytes : Nat) :
    FilesOnly (rangeCacheRecord fd bs be bitmapBytes) := by
  refine sys_filesOnly fun _ => (dyadExclFlock_filesOnly fd).bind fun rc => ?_
  split
  · exact ensureLeaveUnlocked_filesOnly _ _
  · refine sys_filesOnly fun b => ?_
    cases b with
    | false => exact ensureLeave_filesOnly _ _
    | true =>
      refine (preadBitmap_filesOnly _ _).bind fun bitmap => ?_
      split
      · exact ⟨rfl, fun r => r.elim⟩
      · refine sys_filesOnly fun r => ?_
        cases r <;> exact ensureLeave_filesOnly _ _

theorem rangeCacheFill_filesOnly (fd bs be originSize bitmapBytes : Nat) :
    FilesOnly (rangeCacheFill fd bs be originSize bitmapBytes) := by
  refine (rangeCacheFetchSpan_filesOnly _ _ _).bind fun rc => ?_
  split
  · exact sys_filesOnly fun _ => True.intro
  · exact rangeCacheRecord_filesOnly _ _ _ _

theorem rangeCacheMiss_filesOnly (fd bs be : Nat) :
    FilesOnly (rangeCacheMiss fd bs be) := by
  refine sys_filesOnly fun originSize => ?_
  cases originSize with
  | error e => exact ensureLeave_filesOnly _ _
  | ok originSize =>
    dsimp only
    split
    · exact ensureLeave_filesOnly _ _
    · refine (rangeCacheSize_filesOnly _ _ _).bind fun rc => ?_
      split
      · exact ensureLeave_filesOnly _ _
      · refine sys_filesOnly fun b => ?_
        cases b with
        | false => exact ensureLeave_filesOnly _ _
        | true =>
          refine (preadBitmap_filesOnly _ _).bind fun bitmap => ?_
          refine (checkBlocks_filesOnly _ _ _).bind fun alreadyCached => ?_
          refine (dyadReleaseFlock_filesOnly _).bind fun _ => ?_
          refine sys_filesOnly fun _ => ?_
          split
          · exact sys_filesOnly fun _ => True.intro
          · exact rangeCacheFill_filesOnly _ _ _ _ _

theorem rangeCacheOpened_filesOnly (fd bs be : Nat) :
    FilesOnly (rangeCacheOpened fd bs be) := by
  refine sys_filesOnly fun _ => (dyadSharedFlock_filesOnly fd).bind fun rc => ?_
  split
  · exact ensureLeaveUnlocked_filesOnly _ _
  · refine (rangeCacheFastPath_filesOnly _ _ _).bind fun hit => ?_
    split
    · exact ensureLeave_filesOnly _ _
    · refine (dyadReleaseFlock_filesOnly fd).bind fun _ => ?_
      refine (dyadExclFlock_filesOnly fd).bind fun rc => ?_
      split
      · exact ensureLeaveUnlocked_filesOnly _ _
      · exact rangeCacheMiss_filesOnly _ _ _

theorem dyadRangeCacheEnsure_filesOnly (ctx : Ctx) (offset length : UInt64) :
    FilesOnly (dyadRangeCacheEnsure ctx offset length) := by
  rw [dyadRangeCacheEnsure]
  split
  · exact True.intro
  · split
    · exact True.intro
    · refine sys_filesOnly fun bitmapFd => ?_
      cases bitmapFd with
      | error e => exact True.intro
      | ok bitmapFd => exact rangeCacheOpened_filesOnly _ _ _

end

end Dyad.Request
