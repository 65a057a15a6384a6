import Dyad.Proofs.CacheSpec

/-!
# What each change of the files does to the outline

One lemma for each kind of update a call makes: the locks of a file, a mutex,
the content of a copy or of a bitmap, a new file, a name taken away. All but
the last keep everything (`Tame`), the thread's own assertions included.
-/

namespace Dyad

open Conc Posix

namespace Setting

variable {C : Setting} {w w' : Node} {t : Tid}

variable (C) in
/-- A step of `t` that stays in the outline and keeps what every thread relies
on. -/
structure Tame (t : Tid) (w w' : Node) : Prop where
  inv : C.Inv w'
  frame : C.Frame w w'
  kept : C.Kept w w'
  busy : w'.busy = w.busy
  own : C.whole → w'.os.dir .bitmap = none →
    ∀ u, u ≠ t → C.files u → Own u w w'

theorem Tame.moves (h : C.Tame t w w') : C.spec.Moves t w w' where
  inv := h.inv
  guar := True.intro
  rely u hu := {
    frame := h.frame
    busy := congrFun h.busy u
    kept := fun _ => h.kept
    own := fun hw hu0 hn => h.own hw hn u hu hu0 }

theorem Tame.stay (h : C.Inv w) : C.Tame t w w where
  inv := h
  frame := Frame.rfl w
  kept := ⟨fun _ hd => hd, fun _ _ _ hok => hok⟩
  busy := rfl
  own hw hn u _ hu := (Rely.rfl u w).own hw hu hn

/-- Only the mutexes change. -/
theorem Tame.setMutex (h : C.Inv w) (p : Nat) (m : Option Tid) :
    C.Tame t w { w with os := w.os.setMutex p m } where
  inv := ⟨h.published, h.origin, h.bits, h.noBitmap, h.size, h.settled⟩
  frame := ⟨Nat.le_refl _, fun _ _ => rfl, fun _ _ _ _ _ hh => hh,
    fun _ hd _ => hd, fun _ _ hi => hi⟩
  kept := ⟨fun _ hd => hd, fun _ _ _ hok => hok⟩
  busy := rfl
  own _ _ _ _ _ := ⟨fun _ hd _ hh => ⟨hd, hh⟩, fun _ _ _ _ _ hh => hh,
    fun _ _ _ _ => rfl⟩

theorem locks_of_ne {os : Os Name Byte Nat Tid} {i d : Nat}
    {l : LockTable Nat} (h : d ≠ i) : (os.setLocks i l).locks d = os.locks d :=
  Function.update_of_ne h ..

theorem locks_self {os : Os Name Byte Nat Tid} {i : Nat} {l : LockTable Nat} :
    (os.setLocks i l).locks i = l :=
  Function.update_self ..

/-- Only the locks of one file change, and there only those of the thread's
own process. On a copy without a bitmap a range thread neither disturbs its
process's whole-file thread nor gains an exclusive lock, and a whole-file
thread gives an exclusive lock up only on a settled copy. -/
theorem Tame.setLocks (h : C.Inv w) (i : Nat) (l : LockTable Nat)
    (others : ∀ q m, q ≠ t.1 → (l.Holds q m ↔ (w.os.locks i).Holds q m))
    (range : C.whole → w.os.dir .bitmap = none → w.os.born i = .data →
      ¬ C.files t → (∀ u, C.files u → u.1 = t.1 → w.busy u = false) ∧
        (l.Holds t.1 .excl → (w.os.locks i).Holds t.1 .excl))
    (leave : C.whole → w.os.dir .bitmap = none → w.os.dir .data = some i →
      C.files t → (w.os.locks i).Holds t.1 .excl →
        l.Holds t.1 .excl ∨ C.Settled (w.os.file i)) :
    C.Tame t w { w with os := w.os.setLocks i l } where
  inv := by
    refine ⟨h.published, h.origin, h.bits, h.noBitmap, h.size, ?_⟩
    intro hw hn d hd
    rcases h.settled hw hn d hd with hs | ⟨u, hu, hp, hb⟩
    · exact Or.inl hs
    by_cases hdi : d = i
    · subst hdi
      have hborn := (w.os.linked _ _ hd).2
      rw [show ({ w with os := w.os.setLocks d l } : Node).os.locks d = l from
        locks_self]
      by_cases hut : u.1 = t.1
      · by_cases ht : C.files t
        · obtain rfl := C.one hw u t hu ht hut
          rcases leave hw hn hd ht hp with hl | hs
          · exact Or.inr ⟨u, hu, hl, hb⟩
          · exact Or.inl hs
        · have := (range hw hn hborn ht).1 u hu hut
          rw [hb] at this
          exact absurd this (by simp)
      · exact Or.inr ⟨u, hu, (others u.1 .excl hut).2 hp, hb⟩
    · exact Or.inr ⟨u, hu, by rwa [locks_of_ne hdi], hb⟩
  frame := ⟨Nat.le_refl _, fun _ _ => rfl, fun _ _ _ _ _ hh => hh,
    fun _ hd _ => hd, fun _ _ hi => hi⟩
  kept := ⟨fun _ hd => hd, fun _ _ _ hok => hok⟩
  busy := rfl
  own hw hn u hu hu0 := by
    by_cases hut : u.1 = t.1
    · -- the whole-file thread of the process of a range thread
      have ht : ¬ C.files t := fun ht => hu (C.one hw u t hu0 ht hut)
      refine ⟨fun d hd hb hh => ?_, fun hbusy d m hd hb hh => ?_,
        fun _ _ _ _ => rfl⟩
      · by_cases hdi : d = i
        · subst hdi
          rw [locks_self, hut] at hh
          rw [hut]
          exact ⟨hd, (range hw hn hb ht).2 hh⟩
        · rw [locks_of_ne hdi] at hh
          exact ⟨hd, hh⟩
      · by_cases hdi : d = i
        · subst hdi
          have := (range hw hn hb ht).1 u hu0 hut
          rw [hbusy] at this
          exact absurd this (by simp)
        · rwa [locks_of_ne hdi]
    · refine ⟨fun d hd _ hh => ⟨hd, ?_⟩, fun _ d m _ _ hh => ?_,
        fun _ _ _ _ => rfl⟩
      · by_cases hdi : d = i
        · subst hdi
          rw [locks_self] at hh
          exact (others _ _ hut).1 hh
        · rwa [locks_of_ne hdi] at hh
      · by_cases hdi : d = i
        · subst hdi
          rw [locks_self]
          exact (others _ _ hut).2 hh
        · rwa [locks_of_ne hdi]

theorem file_of_ne {os : Os Name Byte Nat Tid} {i d : Nat} {f : Bytes Byte}
    (h : d ≠ i) : (os.setFile i f).file d = os.file d :=
  Function.update_of_ne h ..

theorem file_self {os : Os Name Byte Nat Tid} {i : Nat} {f : Bytes Byte} :
    (os.setFile i f).file i = f :=
  Function.update_self ..

/-- The content of a local copy changes, and loses none of the origin's bytes.
While there is no bitmap, only the whole-file thread that has the exclusive
lock changes it. -/
theorem Tame.setCopy (h : C.Inv w) {d : Nat} (hd : d < w.os.next)
    (hborn : w.os.born d = .data) (f : Bytes Byte)
    (has : ∀ i, i < C.orig.size → Has C.orig (w.os.file d) i →
      Has C.orig f i)
    (size : C.sized → f.size ≤ C.orig.size)
    (owner : C.whole → w.os.dir .bitmap = none → f = w.os.file d ∨
      (C.files t ∧ (w.os.locks d).Holds t.1 .excl ∧ w.busy t = true)) :
    C.Tame t w { w with os := w.os.setFile d f } := by
  have hframe : C.Frame w { w with os := w.os.setFile d f } := by
    refine ⟨Nat.le_refl _, fun _ _ => rfl, fun e i _ _ hi hh => ?_,
      fun _ hd _ => hd, fun _ _ hi => hi⟩
    by_cases hed : e = d
    · subst hed
      rw [show ({ w with os := w.os.setFile e f } : Node).os.file e = f from
        file_self]
      exact has i hi hh
    · rwa [show ({ w with os := w.os.setFile d f } : Node).os.file e =
        w.os.file e from file_of_ne hed]
  refine ⟨⟨h.published, fun i hi hb => ?_, fun i hi => ?_, h.noBitmap,
    fun hs e he hb => ?_, fun hw hn e he => ?_⟩, hframe,
    ⟨fun _ hd => hd, fun i hi hb hok => ?_⟩, rfl, fun hw hn u hu hu0 => ?_⟩
  · rw [show ({ w with os := w.os.setFile d f } : Node).os.file i =
      w.os.file i from file_of_ne fun hid => by
        subst hid
        exact absurd (hb.symm.trans hborn) (by simp)]
    exact h.origin i hi hb
  · have hb := (w.os.linked _ _ hi).2
    rw [show ({ w with os := w.os.setFile d f } : Node).os.file i =
      w.os.file i from file_of_ne fun hid => by
        subst hid
        exact absurd (hb.symm.trans hborn) (by simp)]
    exact hframe.bitsOk (fun _ hd => hd) (h.bits i hi)
  · by_cases hed : e = d
    · subst hed
      rw [show ({ w with os := w.os.setFile e f } : Node).os.file e = f from
        file_self]
      exact size hs
    · rw [show ({ w with os := w.os.setFile d f } : Node).os.file e =
        w.os.file e from file_of_ne hed]
      exact h.size hs e he hb
  · by_cases hed : e = d
    · subst hed
      rcases owner hw hn with hf | ⟨ht, hl, hbusy⟩
      · rw [show ({ w with os := w.os.setFile e f } : Node).os.file e = f from
          file_self, hf]
        exact h.settled hw hn e he
      · exact Or.inr ⟨t, ht, hl, hbusy⟩
    · rw [show ({ w with os := w.os.setFile d f } : Node).os.file e =
        w.os.file e from file_of_ne hed]
      exact h.settled hw hn e he
  · rw [show ({ w with os := w.os.setFile d f } : Node).os.file i =
      w.os.file i from file_of_ne fun hid => by
        subst hid
        exact absurd (hb.symm.trans hborn) (by simp)]
    exact hframe.bitsOk (fun _ hd => hd) hok
  · refine ⟨fun _ hd _ hh => ⟨hd, hh⟩, fun _ _ _ _ _ hh => hh,
      fun e _ _ hh => ?_⟩
    by_cases hed : e = d
    · subst hed
      rcases owner hw hn with hf | ⟨ht, hl, -⟩
      · rw [show ({ w with os := w.os.setFile e f } : Node).os.file e = f from
          file_self, hf]
      · have : u.1 = t.1 := hl.excl_unique hh
        exact absurd (C.one hw u t hu0 ht this) hu
    · exact file_of_ne hed

/-- A bitmap changes, and marks only local blocks. -/
theorem Tame.setBitmap (h : C.Inv w) {bi : Nat} (hbi : bi < w.os.next)
    (hborn : w.os.born bi = .bitmap) (f : Bytes Byte)
    (bits : BitsOk C.orig w f) :
    C.Tame t w { w with os := w.os.setFile bi f } := by
  have hne : ∀ d, w.os.born d ≠ .bitmap →
      ({ w with os := w.os.setFile bi f } : Node).os.file d = w.os.file d := by
    intro d hd
    exact file_of_ne fun hdb => by
      subst hdb
      exact hd hborn
  have hframe : C.Frame w { w with os := w.os.setFile bi f } := by
    refine ⟨Nat.le_refl _, fun _ _ => rfl, fun e i _ hb _ hh => ?_,
      fun _ hd _ => hd, fun _ _ hi => hi⟩
    rwa [hne e (by rw [hb]; simp)]
  have hbits : ∀ i, BitsOk C.orig w (w.os.file i) →
      BitsOk C.orig { w with os := w.os.setFile bi f }
        (({ w with os := w.os.setFile bi f } : Node).os.file i) := by
    intro i hok
    refine hframe.bitsOk (fun _ hd => hd) ?_
    by_cases hib : i = bi
    · subst hib
      rw [show ({ w with os := w.os.setFile i f } : Node).os.file i = f from
        file_self]
      exact bits
    · rwa [show ({ w with os := w.os.setFile bi f } : Node).os.file i =
        w.os.file i from file_of_ne hib]
  refine ⟨⟨h.published, fun i hi hb => ?_, fun i hi => hbits i (h.bits i hi),
    h.noBitmap, fun hs e he hb => ?_, fun hw hn e he => ?_⟩, hframe,
    ⟨fun _ hd => hd, fun i _ _ hok => hbits i hok⟩, rfl,
    fun hw hn u hu hu0 => ?_⟩
  · rw [hne i (by rw [show w.os.born i = .origin from hb]; simp)]
    exact h.origin i hi hb
  · rw [hne e (by rw [show w.os.born e = .data from hb]; simp)]
    exact h.size hs e he hb
  · rw [hne e (by rw [(w.os.linked _ _ he).2]; simp)]
    exact h.settled hw hn e he
  · exact ⟨fun _ hd _ hh => ⟨hd, hh⟩, fun _ _ _ _ _ hh => hh,
      fun e _ hb _ => hne e (by rw [hb]; simp)⟩

/-- A new file, of a name that was not there. -/
theorem Tame.create (h : C.Inv w) {n : Name} (hn : w.os.dir n = none)
    (horigin : n ≠ .origin) (hlazy : n = .bitmap → C.lazy) :
    C.Tame t w { w with os := w.os.create n } := by
  have hold : ∀ i, i < w.os.next →
      (w.os.create n).file i = w.os.file i ∧
      (w.os.create n).locks i = w.os.locks i ∧
      (w.os.create n).born i = w.os.born i := fun i hi =>
    ⟨Function.update_of_ne (by omega) .., Function.update_of_ne (by omega) ..,
      Function.update_of_ne (by omega) ..⟩
  have hborn : (w.os.create n).born w.os.next = n := Function.update_self ..
  have hfile : (w.os.create n).file w.os.next = Bytes.empty :=
    Function.update_self ..
  have hlocks : (w.os.create n).locks w.os.next = LockTable.free :=
    Function.update_self ..
  have hdir : ∀ m i, w.os.dir m = some i →
      (w.os.create n).dir m = some i := by
    intro m i hm
    exact (Function.update_of_ne (fun hmn => by
      subst hmn
      rw [hn] at hm
      exact absurd hm (by simp)) ..).trans hm
  have hdir' : ∀ m i, (w.os.create n).dir m = some i →
      i < w.os.next ∧ w.os.dir m = some i ∨ i = w.os.next ∧ m = n := by
    intro m i hm
    by_cases hmn : m = n
    · subst hmn
      rw [Os.create_dir, Function.update_self] at hm
      exact Or.inr ⟨(Option.some.inj hm).symm, rfl⟩
    · rw [Os.create_dir, Function.update_of_ne hmn] at hm
      exact Or.inl ⟨(w.os.linked m i hm).1, hm⟩
  have hframe : C.Frame w { w with os := w.os.create n } := by
    refine ⟨Nat.le_succ _, fun i hi => (hold i hi).2.2,
      fun d i hd _ _ hh => ?_, fun d hd hlt => ?_, fun _ i hi => hdir _ i hi⟩
    · show Has C.orig ((w.os.create n).file d) i
      rwa [(hold d hd).1]
    · rcases hdir' _ d hd with ⟨-, hd'⟩ | ⟨rfl, -⟩
      · exact hd'
      · exact absurd hlt (Nat.lt_irrefl _)
  refine ⟨⟨h.published, fun i hi hb => ?_, fun i hi => ?_, fun hl => ?_,
    fun hs d hd hb => ?_, fun hw hb d hd => ?_⟩, hframe,
    ⟨fun d hd => hdir _ d hd, fun i hi _ hok => ?_⟩, rfl,
    fun hw hnb u hu hu0 => ⟨fun d hd hb hh => ?_, fun _ d m hd _ hh => ?_,
      fun d hd _ _ => (hold d hd).1⟩⟩
  · rcases Nat.lt_succ_iff_lt_or_eq.1 hi with hlt | rfl
    · rw [show ({ w with os := w.os.create n } : Node).os.born i = _ from
        (hold i hlt).2.2] at hb
      exact ((hold i hlt).1).trans (h.origin i hlt hb)
    · exact absurd (hborn.symm.trans hb) horigin
  · show BitsOk C.orig _ ((w.os.create n).file i)
    rcases hdir' _ i hi with ⟨hlt, hi'⟩ | ⟨rfl, -⟩
    · rw [(hold i hlt).1]
      exact hframe.bitsOk (fun d hd => hdir _ d hd) (h.bits i hi')
    · rw [hfile]
      exact bitsOk_empty
  · have hnb : n ≠ .bitmap := fun hnb => hl (hlazy hnb)
    exact (Function.update_of_ne (Ne.symm hnb) ..).trans (h.noBitmap hl)
  · show ((w.os.create n).file d).size ≤ _
    rcases Nat.lt_succ_iff_lt_or_eq.1 hd with hlt | rfl
    · rw [(hold d hlt).1]
      exact h.size hs d hlt ((hold d hlt).2.2.symm.trans hb)
    · rw [hfile]
      exact Nat.zero_le _
  · have hb' := hframe.noBitmap (C.calm hw) hb
    show C.Settled ((w.os.create n).file d) ∨
      ∃ u, C.files u ∧ ((w.os.create n).locks d).Holds u.1 .excl ∧ _
    rcases hdir' _ d hd with ⟨hlt, hd'⟩ | ⟨rfl, -⟩
    · rw [(hold d hlt).1, (hold d hlt).2.1]
      exact h.settled hw hb' d hd'
    · rw [hfile]
      exact Or.inl (Or.inl rfl)
  · show BitsOk C.orig _ ((w.os.create n).file i)
    rw [(hold i hi).1]
    exact hframe.bitsOk (fun d hd => hdir _ d hd) hok
  · have hh' : ((w.os.create n).locks d).Holds u.1 .excl := hh
    rcases Nat.lt_succ_iff_lt_or_eq.1 hd with hlt | rfl
    · rw [(hold d hlt).2.1] at hh'
      exact ⟨hlt, hh'⟩
    · rw [hlocks] at hh'
      simp at hh'
  · show ((w.os.create n).locks d).Holds u.1 m
    rwa [(hold d hd).2.1]

/-- A name other than the local copy's is taken away. -/
theorem Tame.remove (h : C.Inv w) {n : Name} (hn : n ≠ .data)
    (he : C.evict) : C.Tame t w { w with os := w.os.remove n } := by
  have hw : ¬ C.whole := fun hw => C.calm hw he
  have hdata : (w.os.remove n).dir .data = w.os.dir .data :=
    Function.update_of_ne (Ne.symm hn) ..
  have hdir : ∀ m i, (w.os.remove n).dir m = some i →
      w.os.dir m = some i := by
    intro m i hm
    by_cases hmn : m = n
    · subst hmn
      rw [Os.remove_dir, Function.update_self] at hm
      exact absurd hm (by simp)
    · rwa [Os.remove_dir, Function.update_of_ne hmn] at hm
  have hframe : C.Frame w { w with os := w.os.remove n } :=
    ⟨Nat.le_refl _, fun _ _ => rfl, fun _ _ _ _ _ hh => hh,
      fun d hd _ => hdir _ d hd, fun hne => absurd he hne⟩
  have hkeep : ∀ d, w.os.dir .data = some d →
      (w.os.remove n).dir .data = some d := fun d hd => hdata.trans hd
  refine ⟨⟨h.published, h.origin,
    fun i hi => hframe.bitsOk hkeep (h.bits i (hdir _ i hi)), fun hl => ?_,
    h.size, fun hw' => absurd hw' hw⟩, hframe,
    ⟨hkeep, fun i _ _ hok => hframe.bitsOk hkeep hok⟩, rfl,
    fun hw' => absurd hw' hw⟩
  show (w.os.remove n).dir .bitmap = none
  cases hb : (w.os.remove n).dir .bitmap with
  | none => rfl
  | some i =>
    have := hdir _ i hb
    rw [h.noBitmap hl] at this
    exact absurd this (by simp)

/-- The local copy is taken away. -/
theorem moves_removeCopy (h : C.Inv w) (he : C.evict) (hev : C.Evicts w) :
    C.spec.Moves t w { w with os := w.os.remove .data } := by
  have hw : ¬ C.whole := fun hw => C.calm hw he
  have hdir : ∀ m, m ≠ .data → (w.os.remove .data).dir m = w.os.dir m :=
    fun m hm => Function.update_of_ne hm ..
  refine ⟨⟨h.published, h.origin, fun i hi b hb => ?_,
    fun hl => (hdir _ (by simp)).trans (h.noBitmap hl), h.size,
    fun hw' => absurd hw' hw⟩, True.intro, fun u hu => ?_⟩
  · exact absurd hb (hev.1 i ((hdir _ (by simp)).symm.trans hi) b)
  · refine ⟨⟨Nat.le_refl _, fun _ _ => rfl, fun _ _ _ _ _ hh => hh,
      fun d hd _ => ?_, fun hne => absurd he hne⟩, rfl, fun ha => ?_,
      fun hw' => absurd hw' hw⟩
    · rw [Os.remove_dir, Function.update_self] at hd
      exact absurd hd (by simp)
    · have := hev.2 u (ha he).1
      rw [(ha he).2] at this
      exact absurd this (by simp)

end Setting

end Dyad
