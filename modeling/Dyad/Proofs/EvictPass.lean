import Dyad.Cache.Evict

/-!
# An eviction pass in any outline

A pass makes the same calls whatever else goes on in the directory: it reads,
it opens and locks the lock file, and under that lock it opens its victims one
after the other, tries their locks and unlinks them. `PassRules` is what an
outline has to say of these calls, with an assertion for each place the pass
can stand at; `PassRules.maybeEvict` is the pass.
-/

namespace Dyad

open Conc Posix

/-- The calls with which a pass only looks. -/
def Call.scans : Call → Bool
  | .opendir => true
  | .readdir => true
  | .entryStamp _ => true
  | .time => true
  | .sys (.stat _) => true
  | .sys (.malloc _) => true
  | _ => false

variable {ω J : Type} {res : J → Type} {M : Machine ω Tid Nat Choice Call.Res res}

/-- The places of a pass: outside, with the lock file open, with its lock,
with a victim open, with the victim's lock, and with a victim that may have
been unlinked. -/
structure PassRules (S : Spec M) (t : Tid) (out : ω → Prop)
    (opened locked : Nat → ω → Prop) (victim mine : Nat → Name → Nat → ω → Prop)
    (spent : Nat → Nat → ω → Prop) : Prop where
  stable_out : S.Stable t out
  stable_opened : ∀ c, S.Stable t (opened c)
  stable_locked : ∀ c, S.Stable t (locked c)
  stable_victim : ∀ c n i, S.Stable t (victim c n i)
  stable_mine : ∀ c n i, S.Stable t (mine c n i)
  stable_spent : ∀ c i, S.Stable t (spent c i)
  scan_out : ∀ c : Call, c.scans = true → S.Atomic t out c fun _ => out
  scan_locked : ∀ k (c : Call), c.scans = true →
    S.Atomic t (locked k) c fun _ => locked k
  openLock : S.Atomic t out (.sys (.open .cacheLock true false)) fun r w =>
    (∀ k, r = .ok k → opened k w) ∧ ∀ e, r = .error e → out w
  lock : ∀ k, S.Atomic t (opened k) (.sys (.setlkw k .excl)) fun r w =>
    opened k w ∧ (r = .ok () → locked k w)
  unlockLock : ∀ k, S.Atomic t (locked k) (.sys (.unlock k)) fun _ => opened k
  closeLock : ∀ k, S.Atomic t (opened k) (.sys (.close k)) fun _ => out
  openVictim : ∀ k n, n ≠ .cacheLock →
    S.Atomic t (locked k) (.sys (.open n false false)) fun r w =>
      locked k w ∧ ∀ i, r = .ok i → victim k n i w
  tryLock : ∀ k n i, S.Atomic t (victim k n i) (.sys (.setlk i .excl))
    fun r w => spent k i w ∧ (r = .ok () → mine k n i w)
  unlink : ∀ k n i, S.Atomic t (mine k n i) (.sys (.unlink n)) fun _ =>
    spent k i
  unlockVictim : ∀ k i, S.Atomic t (spent k i) (.sys (.unlock i)) fun _ =>
    spent k i
  closeVictim : ∀ k i, S.Atomic t (spent k i) (.sys (.close i)) fun _ =>
    locked k

namespace PassRules

variable {S : Spec M} {t : Tid} {out : ω → Prop} {opened locked : Nat → ω → Prop}
  {victim mine : Nat → Name → Nat → ω → Prop} {spent : Nat → Nat → ω → Prop}

/-- A part of a pass that only looks, from `P`. -/
abbrev Looks (S : Spec M) (t : Tid) (P : ω → Prop) {α : Type} (p : Program α)
    (φ : α → Prop) : Prop :=
  S.Triple t P p fun a w => φ a ∧ P w

section

variable {P : ω → Prop} (hP : S.Stable t P)
  (hscan : ∀ c : Call, c.scans = true → S.Atomic t P c fun _ => P)

include hP

theorem looks_pure {α : Type} {φ : α → Prop} {a : α} (ha : φ a) :
    Looks S t P (.pure a) φ :=
  Spec.Triple.pure hP fun _ _ hp => ⟨ha, hp⟩

include hscan

theorem looks_growEntries (nEntries capacity : Nat) :
    Looks S t P (growEntries nEntries capacity) fun _ => True := by
  rw [growEntries]
  split
  · refine Spec.Triple.step hP (hscan _ rfl) fun grown => ?_
    cases grown <;> exact looks_pure hP True.intro
  · exact looks_pure hP True.intro

/-- An entry of any other name, before the rest of the scan. -/
theorem looks_scanEntry {left : Nat}
    (ih : ∀ (capacity : Nat) (entries : List CacheEntry) (totalSize : Nat),
      (∀ e ∈ entries, e.path ≠ .cacheLock) →
      Looks S t P (scanEntries left capacity entries totalSize) fun r =>
        ∀ es size, r = some (es, size) → ∀ e ∈ es, e.path ≠ .cacheLock)
    {path : Name} (hpath : path ≠ .cacheLock) (capacity : Nat)
    (entries : List CacheEntry) (totalSize : Nat)
    (he : ∀ e ∈ entries, e.path ≠ .cacheLock) :
    Looks S t P (do
      match ← sys (.stat path) with
      | .error _ => scanEntries left capacity entries totalSize
      | .ok size =>
        let st ← perform (.entryStamp path)
        match st.regular, st.recencyKey with
        | true, some recencyKey =>
          match ← growEntries entries.length capacity with
          | none => return none
          | some newCapacity =>
            scanEntries left newCapacity
              (entries ++ [⟨path, size, st.atime, recencyKey⟩])
              ((totalSize + size) % 2 ^ 64)
        | _, _ => scanEntries left capacity entries totalSize) fun r =>
      ∀ es size, r = some (es, size) → ∀ e ∈ es, e.path ≠ .cacheLock := by
  refine Spec.Triple.step hP (hscan _ rfl) fun size => ?_
  cases size with
  | error e => exact ih capacity entries totalSize he
  | ok size =>
    refine Spec.Triple.step hP (hscan _ rfl) fun st => ?_
    dsimp only
    split
    · refine Spec.Triple.bind
        (looks_growEntries hP hscan entries.length capacity) fun grown => ?_
      refine Spec.Triple.assume fun _ => ?_
      cases grown with
      | none => exact looks_pure hP fun _ _ heq => absurd heq (by simp)
      | some newCapacity =>
        refine ih newCapacity _ _ fun e hmem => ?_
        rcases List.mem_append.1 hmem with h | h
        · exact he e h
        · rw [List.mem_singleton.1 h]
          exact hpath
    · exact ih capacity entries totalSize he

/-- The lock file is not among the entries. -/
theorem looks_scanEntries (left capacity : Nat) (entries : List CacheEntry)
    (totalSize : Nat) (he : ∀ e ∈ entries, e.path ≠ .cacheLock) :
    Looks S t P (scanEntries left capacity entries totalSize) fun r =>
      ∀ es size, r = some (es, size) → ∀ e ∈ es, e.path ≠ .cacheLock := by
  induction left generalizing capacity entries totalSize with
  | zero =>
    refine looks_pure hP fun es size heq => ?_
    obtain ⟨rfl, -⟩ := Prod.mk.inj (Option.some.inj heq)
    exact he
  | succ left ih =>
    rw [scanEntries]
    refine Spec.Triple.step hP (hscan _ rfl) fun dirent => ?_
    cases dirent with
    | dot => exact ih capacity entries totalSize he
    | dotdot => exact ih capacity entries totalSize he
    | name n =>
      cases n with
      | cacheLock => exact ih capacity entries totalSize he
      | data => exact looks_scanEntry hP hscan ih (by simp) _ _ _ he
      | bitmap => exact looks_scanEntry hP hscan ih (by simp) _ _ _ he
      | origin => exact looks_scanEntry hP hscan ih (by simp) _ _ _ he
      | other k => exact looks_scanEntry hP hscan ih (by simp) _ _ _ he

theorem looks_scanDir :
    Looks S t P dyadCacheScanDir fun r =>
      ∀ es size, r = some (es, size) → ∀ e ∈ es, e.path ≠ .cacheLock := by
  refine Spec.Triple.step hP (hscan _ rfl) fun n => ?_
  cases n with
  | error e => exact looks_pure hP fun _ _ heq => absurd heq (by simp)
  | ok n => exact looks_scanEntries hP hscan n 0 [] 0 (by simp)

end

section

variable (R : PassRules S t out opened locked victim mine spent)

include R

theorem releaseFlock_spent (k i : Nat) :
    S.Triple t (spent k i) (dyadReleaseFlock i) fun _ => spent k i := by
  refine Spec.Triple.step (R.stable_spent k i) (R.unlockVictim k i) fun r => ?_
  cases r <;> exact Spec.Triple.pure (R.stable_spent k i) fun _ _ h => h

theorem evictEntry {k : Nat} {entry : CacheEntry} (totalSize : Nat)
    (hn : entry.path ≠ .cacheLock) :
    S.Triple t (locked k) (evictEntry entry totalSize) fun _ => locked k := by
  have hlocked := R.stable_locked k
  refine Spec.Triple.step hlocked (R.openVictim k _ hn) fun r => ?_
  cases r with
  | error e =>
    exact (Spec.Triple.pure hlocked fun _ _ h => h).pre fun _ _ h => h.1
  | ok i =>
    have hvictim := R.stable_victim k entry.path i
    refine Spec.Triple.pre (R := victim k entry.path i) ?_
      fun _ _ h => h.2 i rfl
    have htry : S.Triple t (victim k entry.path i) (dyadTryExclFlock i)
        fun rc w => spent k i w ∧ (rc = .ok → mine k entry.path i w) := by
      refine Spec.Triple.step hvictim (R.tryLock k _ i) fun r => ?_
      cases r with
      | error e =>
        refine (Spec.Triple.pure (R.stable_spent k i) fun _ _ h => ⟨h, ?_⟩).pre
          fun _ _ h => h.1
        intro hrc
        split at hrc <;> exact absurd hrc (by simp)
      | ok u =>
        refine (Spec.Triple.pure ((R.stable_spent k i).and
          (R.stable_mine k _ i)) fun _ _ h => ⟨h.1, fun _ => h.2⟩).pre
          fun _ _ h => ⟨h.1, h.2 rfl⟩
    refine htry.bind fun rc => ?_
    split
    · refine Spec.Triple.pre (R := spent k i) ?_ fun _ _ h => h.1
      exact Spec.Triple.step (R.stable_spent k i) (R.closeVictim k i) fun _ =>
        Spec.Triple.pure hlocked fun _ _ h => h
    · next hrc =>
      refine Spec.Triple.pre (R := mine k entry.path i) ?_
        fun _ _ h => h.2 (not_not.1 hrc)
      refine Spec.Triple.step (R.stable_mine k _ i) (R.unlink k _ i)
        fun unlinked => ?_
      refine (R.releaseFlock_spent k i).bind fun _ => ?_
      refine Spec.Triple.step (R.stable_spent k i) (R.closeVictim k i)
        fun _ => ?_
      cases unlinked <;> exact Spec.Triple.pure hlocked fun _ _ h => h

theorem evictEntries {k : Nat} (now grace : Int) (low : Nat)
    (entries : List CacheEntry) (totalSize : Nat)
    (he : ∀ e ∈ entries, e.path ≠ .cacheLock) :
    S.Triple t (locked k) (evictEntries now grace low entries totalSize)
      fun _ => locked k := by
  have hlocked := R.stable_locked k
  induction entries generalizing totalSize with
  | nil => exact Spec.Triple.pure hlocked fun _ _ h => h
  | cons entry entries ih =>
    have hrest := fun size => ih size fun e hmem =>
      he e (List.mem_cons_of_mem _ hmem)
    rw [Dyad.evictEntries]
    split
    · split
      · exact hrest totalSize
      · exact (R.evictEntry totalSize (he entry List.mem_cons_self)).bind
          fun left => hrest left
    · exact Spec.Triple.pure hlocked fun _ _ h => h

theorem evictLeave (k : Nat) :
    S.Triple t (locked k) (evictLeave k) fun _ => out := by
  have hrelease : S.Triple t (locked k) (dyadReleaseFlock k)
      fun _ => opened k := by
    refine Spec.Triple.step (R.stable_locked k) (R.unlockLock k) fun r => ?_
    cases r <;> exact Spec.Triple.pure (R.stable_opened k) fun _ _ h => h
  refine hrelease.bind fun _ => ?_
  exact Spec.Triple.step (R.stable_opened k) (R.closeLock k) fun _ =>
    Spec.Triple.pure R.stable_out fun _ _ h => h

theorem evictLocked (ctx : Ctx) (k : Nat) :
    S.Triple t (locked k) (evictLocked ctx k) fun _ => out := by
  refine Spec.Triple.bind (looks_scanDir (R.stable_locked k)
    (R.scan_locked k)) fun r => ?_
  refine Spec.Triple.assume fun hentries => ?_
  rcases r with _ | ⟨entries, totalSize⟩
  · exact R.evictLeave k
  · dsimp only
    split
    · exact R.evictLeave k
    · refine Spec.Triple.step (R.stable_locked k) (R.scan_locked k _ rfl)
        fun now => ?_
      refine Spec.Triple.bind (R.evictEntries now _ _ _ totalSize
        fun e hmem => ?_) fun _ => R.evictLeave k
      exact hentries entries totalSize rfl e
        ((List.mem_insertionSort _).1 hmem)

/-- The pass. -/
theorem maybeEvict (ctx : Ctx) :
    S.Triple t out (dyadCacheMaybeEvict ctx) fun _ => out := by
  have hout := R.stable_out
  rw [dyadCacheMaybeEvict]
  split
  · exact Spec.Triple.pure hout fun _ _ h => h
  refine Spec.Triple.bind (looks_scanDir hout R.scan_out) fun r => ?_
  refine Spec.Triple.assume fun _ => ?_
  rcases r with _ | ⟨entries, totalSize⟩
  · exact Spec.Triple.pure hout fun _ _ h => h
  dsimp only
  split
  · exact Spec.Triple.pure hout fun _ _ h => h
  refine Spec.Triple.step hout R.openLock fun r => ?_
  cases r with
  | error e =>
    exact (Spec.Triple.pure hout fun _ _ h => h).pre fun _ _ h => h.2 e rfl
  | ok k =>
    refine Spec.Triple.pre (R := opened k) ?_ fun _ _ h => h.1 k rfl
    have hlock : S.Triple t (opened k) (dyadExclFlock k)
        fun rc w => opened k w ∧ (rc = .ok → locked k w) := by
      refine Spec.Triple.step (R.stable_opened k) (R.lock k) fun r => ?_
      cases r with
      | error e =>
        exact (Spec.Triple.pure (R.stable_opened k)
          fun _ _ h => ⟨h, fun hrc => absurd hrc (by simp)⟩).pre
            fun _ _ h => h.1
      | ok u =>
        exact (Spec.Triple.pure ((R.stable_opened k).and (R.stable_locked k))
          fun _ _ h => ⟨h.1, fun _ => h.2⟩).pre fun _ _ h => ⟨h.1, h.2 rfl⟩
    refine hlock.bind fun rc => ?_
    split
    · refine Spec.Triple.pre (R := opened k) ?_ fun _ _ h => h.1
      exact Spec.Triple.step (R.stable_opened k) (R.closeLock k) fun _ =>
        Spec.Triple.pure hout fun _ _ h => h
    · next hrc =>
      refine Spec.Triple.pre (R.evictLocked ctx k) fun _ _ h => h.2 ?_
      have hok := mt (Rc.isError_iff rc).2 hrc
      exact not_not.1 hok

end

end PassRules

end Dyad
