import Dyad.Proofs.CacheFetch

/-!
# The outline is sound

Every job is safe where it starts, so every state a run reaches is one the
outline covers. What starts and ends a job changes no file, and a process that
dies takes its locks with it.
-/

namespace Dyad

open Conc Posix

namespace Setting

variable {C : Setting} {t : Tid} {w : Node}

/-- A thread takes up work, or puts it down on a settled copy. -/
theorem moves_setBusy (hi : C.Inv w) (b : Bool)
    (hq : b = false → C.Quit t w) : C.spec.Moves t w (w.setBusy t b) where
  inv := by
    refine ⟨hi.published, hi.origin, hi.bits, hi.noBitmap, hi.size, ?_⟩
    intro hw hn d hd
    rcases hi.settled hw hn d hd with hs | ⟨u, hu, hl, hb⟩
    · exact Or.inl hs
    by_cases hut : u = t
    · subst hut
      cases b with
      | true => exact Or.inr ⟨u, hu, hl, Function.update_self ..⟩
      | false => exact Or.inl (hq rfl hw hu hn d hd hl)
    · exact Or.inr ⟨u, hu, hl, (Function.update_of_ne hut ..).trans hb⟩
  guar := True.intro
  rely u hu := {
    frame := ⟨Nat.le_refl _, fun _ _ => rfl, fun _ _ _ _ _ hh => hh,
      fun _ hd _ => hd, fun _ _ hi => hi⟩
    busy := Function.update_of_ne hu ..
    kept := fun _ => ⟨fun _ hd => hd, fun _ _ _ hok => hok⟩
    own := fun _ _ _ => ⟨fun _ hd _ hh => ⟨hd, hh⟩, fun _ _ _ _ _ hh => hh,
      fun _ _ _ _ => rfl⟩ }

/-- Every job keeps to the outline and returns what it promises. -/
theorem works_job (j : Job) (hs : C.Starts t j) :
    C.Works t (C.Quit t) (j.program C.ctx) fun a w =>
      C.Quit t w ∧ C.Result w j a := by
  have hrange : ∀ {α : Type} {p : Program α} {Q : α → Node → Prop},
      ¬ C.files t → C.Works t (fun _ => True) p Q →
        C.Works t (C.Quit t) p fun a w => C.Quit t w ∧ Q a w := by
    intro α p Q ht h
    exact (h.pre fun _ _ _ => True.intro).post fun _ _ _ hq =>
      ⟨fun _ hf => absurd hf ht, hq⟩
  cases j with
  | consume fuel => exact quits_consume hs.1 hs.2.1 fuel hs.2.2
  | consumeWMetadata mdata fuel =>
    exact quits_consumeWMetadata hs.1 hs.2.1 mdata fuel hs.2.2
  | evict =>
    refine Works.pre (Works.post (quits_maybeEvict (P := fun _ => True) hs.2
      Firm.true (Or.inl hs.1)) fun _ _ _ h => h) fun _ _ h => ⟨h, True.intro⟩
  | fetch ucxBuild =>
    exact (quits_fetchRequest hs.1 hs.2).post fun _ _ _ h =>
      ⟨h, True.intro⟩
  | ensure offset length =>
    exact hrange hs.2.1 (works_ensure hs.2.1 hs.1 hs.2.2)
  | consumeRange offset length =>
    exact hrange hs.2.1 (works_consumeRange hs.2.1 hs.1 hs.2.2)
  | fetchRange workers detached =>
    exact hrange hs.2.1 (calm_fetchRange hs.2.1 hs.1 hs.2.2 workers detached)
  | worker item =>
    exact hrange hs.2.1 (calm_workerProcess hs.2.1 hs.1 hs.2.2)

/-- The locks of a process that dies are on settled copies. -/
theorem inv_crash (hi : C.Inv w) {p : Nat} (hg : C.Dies w p) :
    C.Inv (w.crash p) := by
  refine ⟨hi.published, hi.origin, hi.bits, hi.noBitmap, hi.size, ?_⟩
  intro hw hn d hd
  rcases hi.settled hw hn d hd with hs | ⟨u, hu, hl, hb⟩
  · exact Or.inl hs
  by_cases hup : u.1 = p
  · subst hup
    exact Or.inl (hg hw hn d hd hl)
  · refine Or.inr ⟨u, hu, LockTable.holds_release.2 ⟨hup, hl⟩, ?_⟩
    exact (if_neg hup).trans hb

theorem sound : C.spec.Sound where
  idle_stable t w w' _ _ hr h := ⟨hr.busy.trans h.1, hr.quit h.2⟩
  start w t j p hi hidle hs hj := by
    obtain rfl := Option.some.inj hj
    have hm := moves_setBusy (t := t) hi true fun h => absurd h (by simp)
    refine ⟨hm, ?_⟩
    exact (works_job j hs _ hm.inv ⟨Function.update_self .., hidle.2⟩).imp
      fun a w' _ h => h.2
  finish w t j a hi hpost :=
    ⟨moves_setBusy hi false fun _ => hpost.1, Function.update_self ..,
      hpost.1⟩
  crash w p hi hg := by
    refine ⟨inv_crash hi hg, True.intro, fun u => ?_⟩
    split
    · next hup =>
      refine ⟨if_pos hup, fun _ _ _ d _ hl => ?_⟩
      exact absurd hup (LockTable.holds_release.1 hl).1
    · next hup =>
      refine ⟨⟨Nat.le_refl _, fun _ _ => rfl, fun _ _ _ _ _ hh => hh,
        fun _ hd _ => hd, fun _ _ hi => hi⟩, if_neg hup,
        fun _ => ⟨fun _ hd => hd, fun _ _ _ hok => hok⟩, fun _ _ _ => ?_⟩
      exact ⟨fun _ hd _ hh => ⟨hd, (LockTable.holds_release.1 hh).2⟩,
        fun _ _ _ _ _ hh => LockTable.holds_release.2 ⟨hup, hh⟩,
        fun _ _ _ _ => rfl⟩

/-- A node before anything ran, as far as the outline looks at it. -/
structure Starting (C : Setting) (w : Node) : Prop where
  published : w.published = C.orig
  origin : ∀ i, i < w.os.next → w.os.born i = .origin → w.os.file i = C.orig
  noBitmap : w.os.dir .bitmap = none
  size : C.sized → ∀ d, d < w.os.next → w.os.born d = .data →
    (w.os.file d).size ≤ C.orig.size
  settled : C.whole → ∀ d, w.os.dir .data = some d → C.Settled (w.os.file d)
  idle : ∀ t, w.busy t = false

theorem Starting.inv (h : C.Starting w) : C.Inv w where
  published := h.published
  origin := h.origin
  bits i hi := absurd (h.noBitmap.symm.trans hi) (by simp)
  noBitmap _ := h.noBitmap
  size := h.size
  settled hw _ d hd := Or.inl (h.settled hw d hd)

/-- Every state of every run that meets the condition is covered. -/
theorem reach {s : NodeCfg}
    (h : ((node C.ctx).lts C.Starting).Reach C.guard.Allows s) :
    C.spec.Good s :=
  sound.reach (fun _ hw => ⟨hw.inv, fun t => ⟨hw.idle t,
    fun hwh _ _ d hd _ => hw.settled hwh d hd⟩⟩) h

end Setting

end Dyad
