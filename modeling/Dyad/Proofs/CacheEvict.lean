import Dyad.Proofs.CacheLocks

/-!
# The evictor stays in the outline

`dyad_cache_maybe_evict` runs where no whole-file results are claimed, so it
minds no locks; nor is anything known of the entries it was given to unlink.
Whatever a thread that calls it knows firmly it still knows afterwards.
-/

namespace Dyad

open Conc Posix

namespace Setting

variable {C : Setting} {t : Tid} {P : Node → Prop} {α : Type}
  {R : α → Node → Prop}

section

variable (ht : C.files t) (he : C.evict) (hP : C.Firm t P)

theorem tame_lock (ht : C.files t) (he : C.evict) {w : Node} (hi : C.Inv w)
    {i : Nat} {l : LockTable Nat}
    (others : ∀ q m, q ≠ t.1 → (l.Holds q m ↔ (w.os.locks i).Holds q m)) :
    C.Tame t w { w with os := w.os.setLocks i l } :=
  Tame.setLocks hi i l others (fun _ _ _ h => absurd ht h)
    fun hw => absurd he (C.calm hw)

include ht he hP

theorem evicts_acquire {c : Call} {f : c.Res → Program α} {i : Nat}
    {m : LockMode} (hc : c = .sys (.setlkw i m) ∨ c = .sys (.setlk i m))
    (hk : ∀ r, C.Works t P (f r) R) :
    C.Works t P ((perform c).bind f) R := by
  refine firm_skip hP (fun w => ?_) (fun w x w' r hi _ hex _ => ?_) hk
  · rcases hc with rfl | rfl <;> exact True.intro
  · have hgot : w' = w ∨ ∃ l, (w.os.locks i).acquire t.1 m = some l ∧
        w' = { w with os := w.os.setLocks i l } := by
      rcases hc with rfl | rfl
      · obtain ⟨o, os', rfl, hos, rfl⟩ := Node.exec_sys hex
        rcases Os.exec_setlkw hos with ⟨e, -, rfl⟩ | ⟨l, hl, -, rfl⟩
        · exact Or.inl rfl
        · exact Or.inr ⟨l, hl, rfl⟩
      · obtain ⟨o, os', rfl, hos, rfl⟩ := Node.exec_sys hex
        rcases Os.exec_setlk hos with ⟨e, -, rfl⟩ | ⟨l, hl, -, rfl⟩
        · exact Or.inl rfl
        · exact Or.inr ⟨l, hl, rfl⟩
    rcases hgot with rfl | ⟨l, hl, rfl⟩
    · exact Tame.stay hi
    · exact tame_lock ht he hi fun q m hq => by
        rw [LockTable.holds_acquire hl]
        simp [hq]

theorem evicts_release {c : Call} {f : c.Res → Program α} {i : Nat}
    (hc : c = .sys (.unlock i) ∨ c = .sys (.close i))
    (hk : ∀ r, C.Works t P (f r) R) :
    C.Works t P ((perform c).bind f) R := by
  refine firm_skip hP (fun w => ?_) (fun w x w' r hi _ hex _ => ?_) hk
  · rcases hc with rfl | rfl <;> exact True.intro
  · have hgone : w' = w ∨ w' =
        { w with os := w.os.setLocks i ((w.os.locks i).release t.1) } := by
      rcases hc with rfl | rfl
      · obtain ⟨o, os', rfl, hos, rfl⟩ := Node.exec_sys hex
        rcases Os.exec_unlock hos with ⟨e, -, rfl⟩ | ⟨-, rfl⟩
        · exact Or.inl rfl
        · exact Or.inr rfl
      · obtain ⟨o, os', rfl, hos, rfl⟩ := Node.exec_sys hex
        exact Or.inr (by rw [Os.exec_close hos])
    rcases hgone with rfl | rfl
    · exact Tame.stay hi
    · exact tame_lock ht he hi fun q m hq => by simp [hq]

theorem evicts_releaseFlock (fd : Nat) :
    C.Works t P (dyadReleaseFlock fd) fun _ => P := by
  refine evicts_release ht he hP (Or.inl rfl) fun r => ?_
  cases r <;> exact Works.done hP

/-- The unlink itself: of any name but the local copy's it is tame, and of
the local copy's it comes when nobody on a range relies on it. -/
theorem evicts_unlink (n : Name) {f : Except Errno Unit → Program α}
    (hk : ∀ r, C.Works t P (f r) R) :
    C.Works t P ((sys (.unlink n)).bind f) R := by
  refine triple_step hP.stable (fun _ => he)
    (A := fun _ => At t P) (fun w x w' r hi hp hex hok => ?_) hk
  obtain ⟨o, os', rfl, hos, rfl⟩ := Node.exec_sys hex
  rcases Os.exec_unlink hos with ⟨e, -, rfl⟩ | ⟨rfl, -, rfl⟩
  · exact ⟨Spec.Moves.stay hi, hp⟩
  by_cases hn : n = .data
  · subst hn
    refine ⟨moves_removeCopy hi he (hok he rfl), hp.1, hP w _ ?_ hp.1 hp.2⟩
    refine ⟨⟨Nat.le_refl _, fun _ _ => rfl, fun _ _ _ _ _ hh => hh,
      fun d hd _ => ?_, fun hne => absurd he hne⟩, rfl,
      fun ha => absurd ht (ha he).1⟩
    rw [Os.remove_dir, Function.update_self] at hd
    exact absurd hd (by simp)
  · have htame := Tame.remove (t := t) hi hn he
    exact ⟨htame.moves, hp.1, hP w _ htame.mild hp.1 hp.2⟩

omit ht he in
theorem evicts_open {n : Name} {creat : Bool} {f : Except Errno Nat → Program α}
    (hn : creat = true → n = .cacheLock) (hk : ∀ r, C.Works t P (f r) R) :
    C.Works t P ((sys (.open n creat false)).bind f) R :=
  works_open hP (F := fun _ _ => True)
    (fun h => by simp [hn h])
    (fun h h' => absurd ((hn h).symm.trans h') (by simp))
    (fun _ _ _ _ => True.intro) (fun _ => hk _)
    fun _ => (hk _).pre fun _ _ hp => hp.2

omit ht he in
theorem evicts_growEntries (nEntries capacity : Nat) :
    C.Works t P (growEntries nEntries capacity) fun _ => P := by
  unfold growEntries
  dsimp only
  split
  · refine works_read hP rfl (fun _ => True.intro) fun ok => ?_
    split <;> exact Works.done hP
  · exact Works.done hP

omit ht he in
theorem evicts_scanEntry {left : Nat}
    (ih : ∀ (capacity : Nat) (entries : List CacheEntry) (totalSize : Nat),
      C.Works t P (scanEntries left capacity entries totalSize) fun _ => P)
    (path : Name) (capacity : Nat) (entries : List CacheEntry)
    (totalSize : Nat) :
    C.Works t P (do
      match ← sys (.stat path) with
      | .error _ => scanEntries left capacity entries totalSize
      | .ok size =>
        let st ← perform (.entryStamp path)
        match st.regular, st.recencyKey with
        | true, some recencyKey =>
          match ← growEntries entries.length capacity with
          | none => return none
          | some newCapacity =>
            scanEntries left newCapacity
              (entries ++ [⟨path, size, st.atime, recencyKey⟩])
              ((totalSize + size) % 2 ^ 64)
        | _, _ => scanEntries left capacity entries totalSize) fun _ => P := by
  refine works_read hP rfl (fun _ => True.intro) fun r => ?_
  cases r with
  | error e => exact ih _ _ _
  | ok size =>
    refine works_read hP rfl (fun _ => True.intro) fun st => ?_
    split
    · refine Works.bind (evicts_growEntries hP _ _) fun r => ?_
      cases r with
      | none => exact Works.done hP
      | some newCapacity => exact ih _ _ _
    · exact ih _ _ _

omit ht he in
theorem evicts_scanEntries (left capacity : Nat) (entries : List CacheEntry)
    (totalSize : Nat) :
    C.Works t P (scanEntries left capacity entries totalSize) fun _ => P := by
  induction left generalizing capacity entries totalSize with
  | zero => exact Works.done hP
  | succ left ih =>
    rw [scanEntries]
    refine works_read hP rfl (fun _ => True.intro) fun d => ?_
    cases d with
    | dot => exact ih _ _ _
    | dotdot => exact ih _ _ _
    | name n =>
      cases n with
      | cacheLock => exact ih _ _ _
      | data => exact evicts_scanEntry hP ih _ _ _ _
      | bitmap => exact evicts_scanEntry hP ih _ _ _ _
      | origin => exact evicts_scanEntry hP ih _ _ _ _
      | other k => exact evicts_scanEntry hP ih _ _ _ _

omit ht he in
theorem evicts_scanDir : C.Works t P dyadCacheScanDir fun _ => P := by
  refine works_read hP rfl (fun _ => True.intro) fun r => ?_
  cases r with
  | error e => exact Works.done hP
  | ok n => exact evicts_scanEntries hP _ _ _ _

theorem evicts_entry (entry : CacheEntry) (totalSize : Nat) :
    C.Works t P (evictEntry entry totalSize) fun _ => P := by
  refine evicts_open hP (fun h => absurd h (by simp)) fun r => ?_
  cases r with
  | error e => exact Works.done hP
  | ok fd =>
    have htry : C.Works t P (dyadTryExclFlock fd) fun _ => P := by
      refine evicts_acquire ht he hP (Or.inr rfl) fun r => ?_
      cases r <;> exact Works.done hP
    refine Works.bind htry fun rc => ?_
    split
    · exact evicts_release ht he hP (Or.inr rfl) fun _ => Works.done hP
    · refine evicts_unlink ht he hP _ fun unlinked => ?_
      refine Works.bind (evicts_releaseFlock ht he hP fd) fun _ => ?_
      refine evicts_release ht he hP (Or.inr rfl) fun _ => ?_
      cases unlinked <;> exact Works.done hP

theorem evicts_entries (now grace : Int) (low : Nat)
    (entries : List CacheEntry) (totalSize : Nat) :
    C.Works t P (evictEntries now grace low entries totalSize) fun _ => P := by
  induction entries generalizing totalSize with
  | nil => exact Works.done hP
  | cons entry entries ih =>
    rw [evictEntries]
    split
    · split
      · exact ih _
      · exact Works.bind (evicts_entry ht he hP entry totalSize) fun _ => ih _
    · exact Works.done hP

theorem evicts_leave (fd : Nat) : C.Works t P (evictLeave fd) fun _ => P :=
  Works.bind (evicts_releaseFlock ht he hP fd) fun _ =>
    evicts_release ht he hP (Or.inr rfl) fun _ => Works.done hP

theorem evicts_maybeEvict :
    C.Works t P (dyadCacheMaybeEvict C.ctx) fun _ => P := by
  unfold dyadCacheMaybeEvict
  split
  · exact Works.done hP
  refine Works.bind (evicts_scanDir hP) fun r => ?_
  rcases r with _ | ⟨entries, totalSize⟩
  · exact Works.done hP
  dsimp only
  split
  · exact Works.done hP
  refine evicts_open hP (fun _ => rfl) fun r => ?_
  cases r with
  | error e => exact Works.done hP
  | ok lockFd =>
    have hlock : C.Works t P (dyadExclFlock lockFd) fun _ => P := by
      refine evicts_acquire ht he hP (Or.inl rfl) fun r => ?_
      cases r <;> exact Works.done hP
    refine Works.bind hlock fun rc => ?_
    split
    · exact evicts_release ht he hP (Or.inr rfl) fun _ => Works.done hP
    refine Works.bind (evicts_scanDir hP) fun r => ?_
    rcases r with _ | ⟨entries, totalSize⟩
    · exact evicts_leave ht he hP lockFd
    dsimp only
    split
    · exact evicts_leave ht he hP lockFd
    · refine works_read hP rfl (fun _ => True.intro) fun now => ?_
      exact Works.bind (evicts_entries ht he hP _ _ _ _ _) fun _ =>
        evicts_leave ht he hP lockFd

end

/-- The chance a consume call gives the evictor. -/
theorem quits_maybeEvict (ht : C.files t) (hP : C.Firm t P)
    (hctx : C.evict ∨ C.ctx.cacheCapacityBytes = 0 ∨
      C.ctx.cachePolicyMode = .none) :
    C.Works t (fun w => C.Quit t w ∧ P w) (dyadCacheMaybeEvict C.ctx)
      fun _ w => C.Quit t w ∧ P w := by
  rcases hctx with he | hoff
  · exact ((evicts_maybeEvict ht he hP).pre fun _ _ hp => hp.2).post
      fun _ _ _ hp => ⟨quit_of_evict he, hp⟩
  · rw [dyadCacheMaybeEvict, if_pos hoff]
    exact Works.pureSteady (steady_quit.and hP.steady) fun _ _ hp => hp

end Setting

end Dyad
