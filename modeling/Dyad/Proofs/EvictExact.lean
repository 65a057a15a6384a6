import Dyad.Cache.Pass

/-!
# What an eviction pass leaves

Three facts are put together. The scan's total is the sum of the sizes it has
found, in a `uint64_t` (`runs_scanEntries`). A turn that comes to the entry
takes its size off the total if and only if it has unlinked it, and it has its
lock then (`runs_evictEntry`). And from a total that is what the entries to
come and some more make up, the loop keeps it so, and leaves when it is at the
watermark or there are no more (`runs_evictVisits`).

So a pass is correct as far as the sum of the sizes fits. Where it does not,
the total the pass starts from is already not that sum.
-/

namespace Dyad

open Conc Conc.Prog Posix

variable {may : (c : Call) → c.Res → Prop} {tr : List (Event Call.Res)}
variable {now grace : Int} {lowWatermark : Nat}

/-! ## The record changes nothing -/

theorem evictVisits_bind {β : Type} (f : Program β) (entries : List CacheEntry)
    (totalSize : Nat) :
    ((evictVisits now grace lowWatermark entries totalSize).bind fun _ => f) =
      (evictEntries now grace lowWatermark entries totalSize).bind fun _ => f := by
  induction entries generalizing totalSize with
  | nil => rfl
  | cons entry entries ih =>
    rw [evictVisits, evictEntries]
    by_cases hlow : totalSize > lowWatermark
    · rw [if_pos hlow, if_pos hlow]
      by_cases hgrace : now - entry.atime < grace
      · rw [if_pos hgrace, if_pos hgrace, ← ih]
        simp only [bind_eq, Prog.bind_assoc, pure_eq, Prog.pure_bind]
      · rw [if_neg hgrace, if_neg hgrace]
        simp only [bind_eq, Prog.bind_assoc, pure_eq, Prog.pure_bind, ih]
        exact logged_bind (evictEntry entry totalSize) fun left =>
          (evictEntries now grace lowWatermark entries left).bind fun _ => f
    · rw [if_neg hlow, if_neg hlow]
      rfl

theorem evictLeave_bind (lockFd : Nat) :
    ((evictLeave lockFd).bind fun _ => Prog.pure .ok) = evictLeave lockFd := by
  unfold evictLeave
  simp only [bind_eq, Prog.bind_assoc, pure_eq, Prog.pure_bind]

theorem evictLocked_eq (ctx : Ctx) (lockFd : Nat) :
    evictLocked ctx lockFd =
      (evictLockedPass ctx lockFd).bind fun _ => Prog.pure .ok := by
  unfold evictLocked evictLockedPass
  simp only [bind_eq, pure_eq, Prog.bind_assoc]
  refine congrArg _ (funext fun o => ?_)
  cases o with
  | none =>
    dsimp only
    rw [Prog.bind_assoc]
    exact (evictLeave_bind lockFd).symm
  | some x =>
    obtain ⟨entries, totalSize⟩ := x
    dsimp only
    split
    · rw [Prog.bind_assoc]
      exact (evictLeave_bind lockFd).symm
    · simp only [Prog.bind_assoc, Prog.pure_bind, evictVisits_bind, evictLeave_bind]

/-- A pass is `dyad_cache_maybe_evict`, but for what it returns. -/
theorem dyadCacheMaybeEvict_eq (ctx : Ctx) :
    dyadCacheMaybeEvict ctx = (evictPass ctx).bind fun _ => Prog.pure .ok := by
  unfold dyadCacheMaybeEvict evictPass
  split
  · rfl
  · simp only [bind_eq, pure_eq, Prog.bind_assoc]
    refine congrArg _ (funext fun o => ?_)
    cases o with
    | none => rfl
    | some x =>
      obtain ⟨entries, totalSize⟩ := x
      dsimp only
      split
      · rfl
      · refine congrArg (Prog.call _) (funext fun r => ?_)
        cases r with
        | error e => rfl
        | ok lockFd =>
          show (dyadExclFlock lockFd).bind _ = ((dyadExclFlock lockFd).bind _).bind _
          rw [Prog.bind_assoc]
          refine congrArg (Prog.bind _) (funext fun rc => ?_)
          split
          · rfl
          · exact evictLocked_eq ctx lockFd

/-! ## The total of a scan -/

theorem runs_scanEntries {left capacity totalSize totalSize' : Nat}
    {entries entries' : List CacheEntry}
    (h : Runs may (scanEntries left capacity entries totalSize) tr
      (some (entries', totalSize')))
    (hsum : totalSize = cachedBytes entries % 2 ^ 64) :
    totalSize' = cachedBytes entries' % 2 ^ 64 := by
  induction left generalizing tr capacity totalSize entries with
  | zero =>
    obtain ⟨-, heq⟩ := runs_pure.1 h
    cases heq
    exact hsum
  | succ left ih =>
    obtain ⟨dent, tr', -, h, -⟩ := runs_step.1 h
    split at h
    · exact ih h hsum
    · exact ih h hsum
    · exact ih h hsum
    · next path _ =>
      obtain ⟨r, tr', -, h, -⟩ := runs_step.1 h
      cases r with
      | error e => exact ih h hsum
      | ok size =>
        obtain ⟨st, tr', -, h, -⟩ := runs_step.1 h
        split at h
        · obtain ⟨o, tr₁, tr₂, -, h, -⟩ := runs_bind.1 h
          cases o with
          | none =>
            obtain ⟨-, heq⟩ := runs_pure.1 h
            cases heq
          | some newCapacity =>
            refine ih h ?_
            rw [hsum]
            simp only [cachedBytes, List.map_append, List.sum_append, List.map_cons,
              List.map_nil, List.sum_cons, List.sum_nil]
            omega
        · exact ih h hsum

theorem runs_scanDir {entries : List CacheEntry} {totalSize : Nat}
    (h : Runs may dyadCacheScanDir tr (some (entries, totalSize))) :
    totalSize = cachedBytes entries % 2 ^ 64 := by
  obtain ⟨r, tr', -, h, -⟩ := runs_step.1 h
  cases r with
  | error e => cases (runs_pure.1 h).2
  | ok n => exact runs_scanEntries h rfl

/-! ## A turn -/

/-- What a turn takes off the total. -/
def Visit.freed (v : Visit) : Nat := if v.removed then v.entry.size else 0

/-- What a turn is, whichever way it went. -/
structure Visit.Sound (now grace : Int) (v : Visit) : Prop where
  removed : v.removed = true → v.Locked ∧ grace ≤ now - v.entry.atime
  after : v.after = if v.removed then (v.before + (2 ^ 64 - v.entry.size)) % 2 ^ 64
    else v.before

theorem Visit.freed_le (v : Visit) : v.freed ≤ v.entry.size := by
  unfold Visit.freed
  split <;> omega

/-- Where the total covers the entry, the subtraction does not wrap. -/
theorem Visit.Sound.freed {v : Visit} (h : v.Sound now grace)
    (hle : v.entry.size ≤ v.before) (hT : v.before < 2 ^ 64) :
    v.after + v.freed = v.before := by
  rw [h.after, Visit.freed]
  by_cases hr : v.removed = true
  · rw [if_pos hr, if_pos hr]
    omega
  · rw [if_neg hr, if_neg hr]
    omega

theorem runs_tryExclFlock {fd : Nat} {rc : Rc}
    (h : Runs may (dyadTryExclFlock fd) tr rc) :
    ∃ r, tr = [⟨.sys (.setlk fd .excl), r⟩] ∧ (rc = .ok → r = .ok ()) := by
  obtain ⟨r, tr', -, hk, rfl⟩ := runs_step.1 h
  cases r with
  | error e =>
    obtain ⟨rfl, rfl⟩ := runs_pure.1 hk
    refine ⟨_, rfl, fun hrc => ?_⟩
    split at hrc <;> cases hrc
  | ok u =>
    obtain ⟨rfl, rfl⟩ := runs_pure.1 hk
    exact ⟨_, rfl, fun _ => rfl⟩

theorem runs_releaseFlock {fd : Nat} {rc : Rc}
    (h : Runs may (dyadReleaseFlock fd) tr rc) :
    ∃ r, tr = [⟨.sys (.unlock fd), r⟩] := by
  obtain ⟨r, tr', -, hk, rfl⟩ := runs_step.1 h
  cases r <;> exact ⟨_, by rw [(runs_pure.1 hk).1]⟩

theorem runs_evictEntry {entry : CacheEntry} {totalSize left : Nat}
    (h : Runs may (evictEntry entry totalSize) tr left)
    (hgrace : ¬ now - entry.atime < grace) :
    Visit.Sound now grace ⟨entry, totalSize, tr, left⟩ := by
  obtain ⟨r, tr₁, -, h₁, rfl⟩ := runs_step.1 h
  cases r with
  | error e =>
    obtain ⟨rfl, rfl⟩ := runs_pure.1 h₁
    exact ⟨fun h => (by cases h), rfl⟩
  | ok victimFd =>
    obtain ⟨rc, tr₂, tr₃, hlock, h₂, rfl⟩ := runs_bind.1 h₁
    obtain ⟨r, rfl, hr⟩ := runs_tryExclFlock hlock
    split at h₂
    · obtain ⟨_, tr₄, -, h₃, rfl⟩ := runs_step.1 h₂
      obtain ⟨rfl, rfl⟩ := runs_pure.1 h₃
      exact ⟨fun h => (by cases h), rfl⟩
    · next hrc =>
      obtain rfl := hr (not_not.mp hrc)
      obtain ⟨unlinked, tr₄, -, h₃, rfl⟩ := runs_step.1 h₂
      obtain ⟨_, tr₅, tr₆, hrel, h₄, rfl⟩ := runs_bind.1 h₃
      obtain ⟨_, rfl⟩ := runs_releaseFlock hrel
      obtain ⟨_, tr₇, -, h₅, rfl⟩ := runs_step.1 h₄
      cases unlinked with
      | error e =>
        obtain ⟨rfl, rfl⟩ := runs_pure.1 h₅
        exact ⟨fun h => (by cases h), rfl⟩
      | ok u =>
        obtain ⟨rfl, rfl⟩ := runs_pure.1 h₅
        refine ⟨fun _ => ⟨⟨victimFd, ?_, ?_⟩, by dsimp only; omega⟩, ?_⟩
        · exact List.mem_cons_self ..
        · exact List.mem_cons_of_mem _ (List.mem_cons_self ..)
        · simp [Visit.removed, unlinks]

/-! ## The loop -/

/-- What a loop from a total over some candidates is. -/
structure LoopSound (now grace : Int) (lowWatermark : Nat)
    (entries : List CacheEntry) (totalSize : Nat) (visits : List Visit) : Prop where
  running : ∀ pre v post, visits = pre ++ v :: post →
    v.before + removedBytes pre = totalSize ∧
      v.after + removedBytes (pre ++ [v]) = totalSize
  above : ∀ v ∈ visits, lowWatermark < v.before
  removed : ∀ v ∈ visits, v.removed = true →
    v.Locked ∧ grace ≤ now - v.entry.atime
  rest : ∃ rest, entries = visits.map (·.entry) ++ rest ∧
    (totalSize ≤ lowWatermark + removedBytes visits ∨ rest = [])

theorem removedBytes_cons (v : Visit) (visits : List Visit) :
    removedBytes (v :: visits) = v.freed + removedBytes visits := by
  unfold removedBytes Visit.freed
  rw [List.filter_cons]
  split
  · rw [List.map_cons, cachedBytes, List.map_cons, List.sum_cons]
    rfl
  · rw [Nat.zero_add]

/-- No turn: at the watermark, or past the candidates. -/
theorem LoopSound.nil {entries : List CacheEntry} {totalSize : Nat}
    (h : totalSize ≤ lowWatermark ∨ entries = []) :
    LoopSound now grace lowWatermark entries totalSize [] where
  running pre v post h := by
    cases pre <;> cases h
  above v hv := by cases hv
  removed v hv := by cases hv
  rest := ⟨entries, rfl, h⟩

/-- One more turn in front. -/
theorem LoopSound.cons {entries : List CacheEntry} {visits : List Visit} {v : Visit}
    (h : LoopSound now grace lowWatermark entries v.after visits)
    (hfreed : v.after + v.freed = v.before) (hlow : lowWatermark < v.before)
    (hremoved : v.removed = true → v.Locked ∧ grace ≤ now - v.entry.atime) :
    LoopSound now grace lowWatermark (v.entry :: entries) v.before (v :: visits) where
  running pre w post heq := by
    cases pre with
    | nil =>
      obtain ⟨rfl, -⟩ := List.cons.inj heq
      rw [List.nil_append, removedBytes_cons]
      exact ⟨rfl, hfreed⟩
    | cons v' pre =>
      obtain ⟨rfl, htail⟩ := List.cons.inj heq
      have := h.running pre w post htail
      rw [List.cons_append, removedBytes_cons, removedBytes_cons]
      omega
  above w hw := by
    rcases List.mem_cons.1 hw with rfl | hw
    · exact hlow
    · exact h.above w hw
  removed w hw := by
    rcases List.mem_cons.1 hw with rfl | hw
    · exact hremoved
    · exact h.removed w hw
  rest := by
    obtain ⟨rest, rfl, hend⟩ := h.rest
    refine ⟨rest, rfl, hend.imp_left fun hle => ?_⟩
    rw [removedBytes_cons]
    omega

theorem runs_evictVisits {entries : List CacheEntry} {totalSize : Nat}
    {visits : List Visit}
    (h : Runs may (evictVisits now grace lowWatermark entries totalSize) tr visits)
    (hle : cachedBytes entries ≤ totalSize) (hT : totalSize < 2 ^ 64) :
    LoopSound now grace lowWatermark entries totalSize visits := by
  induction entries generalizing tr totalSize visits with
  | nil =>
    obtain ⟨-, rfl⟩ := runs_pure.1 h
    exact .nil (.inr rfl)
  | cons entry entries ih =>
    have hsize : cachedBytes (entry :: entries) = entry.size + cachedBytes entries := rfl
    rw [evictVisits] at h
    split at h
    · next hlow =>
      split at h
      · obtain ⟨visits', tr₁, tr₂, h₁, h₂, rfl⟩ := runs_bind.1 h
        obtain ⟨-, rfl⟩ := runs_pure.1 h₂
        exact (ih h₁ (by omega) hT).cons (v := ⟨entry, totalSize, [], totalSize⟩) rfl
          hlow (fun h => by cases h)
      · next hgrace =>
        obtain ⟨⟨calls, left⟩, tr₁, tr₂, hturn, h₁, rfl⟩ := runs_bind.1 h
        obtain ⟨rfl, hturn⟩ := runs_logged.1 hturn
        obtain ⟨visits', tr₃, tr₄, h₂, h₃, rfl⟩ := runs_bind.1 h₁
        obtain ⟨-, rfl⟩ := runs_pure.1 h₃
        have hv := runs_evictEntry hturn hgrace
        have hfreed : left + Visit.freed ⟨entry, totalSize, calls, left⟩ = totalSize :=
          hv.freed (by dsimp only; omega) hT
        have hle' : Visit.freed ⟨entry, totalSize, calls, left⟩ ≤ entry.size :=
          Visit.freed_le _
        exact (ih h₂ (by omega) (by omega)).cons (v := ⟨entry, totalSize, calls, left⟩)
          hfreed hlow hv.removed
    · next hlow =>
      obtain ⟨-, rfl⟩ := runs_pure.1 h
      exact .nil (.inl (by omega))

/-- The calls of the turns are the calls of the loop. -/
theorem calls_evictVisits {entries : List CacheEntry} {totalSize : Nat}
    {visits : List Visit}
    (h : Runs may (evictVisits now grace lowWatermark entries totalSize) tr visits) :
    tr = visits.flatMap (·.calls) := by
  induction entries generalizing tr totalSize visits with
  | nil =>
    obtain ⟨rfl, rfl⟩ := runs_pure.1 h
    rfl
  | cons entry entries ih =>
    rw [evictVisits] at h
    split at h
    · split at h
      · obtain ⟨visits', tr₁, tr₂, h₁, h₂, rfl⟩ := runs_bind.1 h
        obtain ⟨rfl, rfl⟩ := runs_pure.1 h₂
        rw [List.append_nil, ih h₁]
        rfl
      · obtain ⟨⟨calls, left⟩, tr₁, tr₂, hturn, h₁, rfl⟩ := runs_bind.1 h
        obtain ⟨rfl, -⟩ := runs_logged.1 hturn
        obtain ⟨visits', tr₃, tr₄, h₂, h₃, rfl⟩ := runs_bind.1 h₁
        obtain ⟨rfl, rfl⟩ := runs_pure.1 h₃
        rw [List.append_nil, ih h₂]
        rfl
    · obtain ⟨rfl, rfl⟩ := runs_pure.1 h
      rfl

/-! ## The pass -/

instance : Std.Total dyadCacheEntryLe := ⟨fun a b => Int.le_total a.recencyKey b.recencyKey⟩

instance : IsTrans CacheEntry dyadCacheEntryLe := ⟨fun _ _ _ => Int.le_trans⟩

variable {ctx : Ctx} {entries : List CacheEntry} {totalSize : Nat}

/-- A scan whose sum has wrapped is where a pass goes wrong. -/
theorem sum_lt_of_scanned (hsum : totalSize = cachedBytes entries % 2 ^ 64)
    (h : totalSize = cachedBytes entries) : cachedBytes entries < 2 ^ 64 := by
  omega

/-- A pass that finds the capacity kept. -/
theorem idle_correct_iff (hsum : totalSize = cachedBytes entries % 2 ^ 64)
    (hcap : totalSize ≤ ctx.cacheCapacityBytes) :
    Pass.Correct ctx ⟨entries, totalSize, none, []⟩ ↔ cachedBytes entries < 2 ^ 64 := by
  constructor
  · exact fun h => sum_lt_of_scanned hsum h.scanned
  · intro hlt
    have htotal : totalSize = cachedBytes entries := by omega
    exact {
      scanned := htotal
      entered := iff_of_false Bool.noConfusion (Nat.not_lt.mpr (htotal ▸ hcap))
      running := fun pre v post h => by cases pre <;> cases h
      above := fun v hv => by cases hv
      removed := fun v hv => by cases hv
      visited := ⟨entries.insertionSort dyadCacheEntryLe,
        List.perm_insertionSort _ _, List.pairwise_insertionSort _ _,
        fun h => by cases h⟩ }

/-- A pass that has entered its loop. -/
theorem entered_correct_iff {now : Int} {visits : List Visit}
    (hsum : totalSize = cachedBytes entries % 2 ^ 64)
    (hcap : ¬ totalSize ≤ ctx.cacheCapacityBytes)
    (h : Runs may (evictVisits now ctx.cacheGracePeriodSec ctx.cacheLowWatermark
      (entries.insertionSort dyadCacheEntryLe) totalSize) tr visits) :
    Pass.Correct ctx ⟨entries, totalSize, some now, visits⟩ ↔
      cachedBytes entries < 2 ^ 64 := by
  constructor
  · exact fun h => sum_lt_of_scanned hsum h.scanned
  · intro hlt
    have htotal : totalSize = cachedBytes entries := by omega
    have hperm := List.perm_insertionSort dyadCacheEntryLe entries
    have hsize : cachedBytes (entries.insertionSort dyadCacheEntryLe) =
      cachedBytes entries := (hperm.map _).sum_nat
    have hloop := runs_evictVisits h (by omega) (by omega)
    obtain ⟨rest, hrest, hend⟩ := hloop.rest
    exact {
      scanned := htotal
      entered := iff_of_true rfl (htotal ▸ Nat.not_le.mp hcap)
      running := fun pre v post heq => htotal ▸ hloop.running pre v post heq
      above := hloop.above
      removed := fun v hv hr =>
        ⟨(hloop.removed v hv hr).1, now, rfl, (hloop.removed v hv hr).2⟩
      visited := ⟨rest, hrest ▸ hperm, hrest ▸ List.pairwise_insertionSort _ _,
        fun _ => htotal ▸ hend⟩ }

theorem evictLockedPass_correct_iff {lockFd : Nat} {p : Pass}
    (h : Runs may (evictLockedPass ctx lockFd) tr (some p)) :
    p.visits.flatMap (·.calls) <:+: tr ∧
      (p.Correct ctx ↔ cachedBytes p.entries < 2 ^ 64) := by
  obtain ⟨scan, tr₁, tr₂, hscan, h₁, rfl⟩ := runs_bind.1 h
  cases scan with
  | none =>
    obtain ⟨_, tr₃, tr₄, -, h₂, -⟩ := runs_bind.1 h₁
    cases (runs_pure.1 h₂).2
  | some x =>
    obtain ⟨entries, totalSize⟩ := x
    have hsum := runs_scanDir hscan
    dsimp only at h₁
    split at h₁
    · next hcap =>
      obtain ⟨_, tr₃, tr₄, -, h₂, -⟩ := runs_bind.1 h₁
      cases (runs_pure.1 h₂).2
      exact ⟨List.nil_infix, idle_correct_iff hsum hcap⟩
    · next hcap =>
      obtain ⟨now, tr₃, -, h₂, rfl⟩ := runs_step.1 h₁
      obtain ⟨visits, tr₄, tr₅, hloop, h₃, rfl⟩ := runs_bind.1 h₂
      obtain ⟨_, tr₆, tr₇, -, h₄, -⟩ := runs_bind.1 h₃
      cases (runs_pure.1 h₄).2
      refine ⟨?_, entered_correct_iff hsum hcap hloop⟩
      rw [← calls_evictVisits hloop]
      exact ⟨tr₁ ++ [⟨.time, now⟩], tr₅, by simp⟩

/-- The turns a pass of `dyad_cache_maybe_evict` takes are in its run, and it is
correct if and only if the sizes it has found add up to less than `2 ^ 64`. -/
theorem maybe_evict_correct_iff {rc : Rc}
    (h : Runs may (dyadCacheMaybeEvict ctx) tr rc) :
    ∃ o, Runs may (evictPass ctx) tr o ∧
      ∀ p, o = some p → p.visits.flatMap (·.calls) <:+: tr ∧
        (p.Correct ctx ↔ cachedBytes p.entries < 2 ^ 64) := by
  rw [dyadCacheMaybeEvict_eq] at h
  obtain ⟨o, tr₁, tr₂, hpass, hret, rfl⟩ := runs_bind.1 h
  obtain ⟨rfl, -⟩ := runs_pure.1 hret
  rw [List.append_nil]
  refine ⟨o, hpass, fun p hp => ?_⟩
  subst hp
  unfold evictPass at hpass
  split at hpass
  · cases (runs_pure.1 hpass).2
  · obtain ⟨scan, tr₂, tr₃, hscan, h₁, rfl⟩ := runs_bind.1 hpass
    cases scan with
    | none => cases (runs_pure.1 h₁).2
    | some x =>
      obtain ⟨entries, totalSize⟩ := x
      dsimp only at h₁
      split at h₁
      · next hcap =>
        cases (runs_pure.1 h₁).2
        exact ⟨List.nil_infix, idle_correct_iff (runs_scanDir hscan) hcap⟩
      · obtain ⟨r, tr₄, -, h₂, rfl⟩ := runs_step.1 h₁
        cases r with
        | error e => cases (runs_pure.1 h₂).2
        | ok lockFd =>
          obtain ⟨lockRc, tr₅, tr₆, -, h₃, rfl⟩ := runs_bind.1 h₂
          split at h₃
          · obtain ⟨_, tr₇, -, h₄, -⟩ := runs_step.1 h₃
            cases (runs_pure.1 h₄).2
          · obtain ⟨hin, hcorrect⟩ := evictLockedPass_correct_iff h₃
            refine ⟨hin.trans ?_, hcorrect⟩
            exact ⟨tr₂ ++ ⟨.sys (.open .cacheLock true false), .ok lockFd⟩ :: tr₅, [],
              by simp⟩

/-! ## Three sparse files -/

/-- Room for `2 ^ 62` bytes, and no grace. -/
def Ctx.roomy : Ctx :=
  { Ctx.consumer with
    cachePolicyMode := .lru
    cacheCapacityBytes := 2 ^ 62
    cacheLowWatermark := 2 ^ 61 }

/-- A directory of three files of `size` bytes, of which `left` are still to be
read from the stream. -/
def threeFiles (size left : Nat) : (c : Call) → Option (Nat × c.Res)
  | .opendir => some (3, .ok 3)
  | .readdir => some (left - 1, .name (.other left))
  | .entryStamp (.other n) => some (left, ⟨true, 0, some n⟩)
  | .time => some (left, 1)
  | .sys (.stat _) => some (left, .ok size)
  | .sys (.malloc _) => some (left, true)
  | .sys (.open ..) => some (left, .ok 3)
  | .sys (.setlkw ..) => some (left, .ok ())
  | .sys (.setlk ..) => some (left, .ok ())
  | .sys (.unlink _) => some (left, .ok ())
  | .sys (.unlock _) => some (left, .ok ())
  | .sys (.close _) => some (left, .ok ())
  | _ => none

/-- The pass over them, in numbers: the total of the scan, the bytes there were,
and the total after each turn. -/
theorem threeFiles_runs {size totalSize bytes : Nat} {after : List Nat}
    (h : ((evictPass Ctx.roomy).exec (threeFiles size) 0).map
      (fun x => x.2.map fun p => (p.totalSize, cachedBytes p.entries,
        p.visits.map (·.after))) = some (some (totalSize, bytes, after))) :
    ∃ tr p, Runs (fun _ _ => True) (dyadCacheMaybeEvict Ctx.roomy) tr .ok ∧
      Runs (fun _ _ => True) (evictPass Ctx.roomy) tr (some p) ∧
      p.totalSize = totalSize ∧ cachedBytes p.entries = bytes ∧
      p.visits.map (·.after) = after := by
  obtain ⟨⟨left, o⟩, hrun, ho⟩ := Option.map_eq_some_iff.1 h
  obtain ⟨p, rfl, hp⟩ := Option.map_eq_some_iff.1 ho
  obtain ⟨tr, htr⟩ := runs_exec hrun
  refine ⟨tr, p, ?_, htr, ?_⟩
  · rw [dyadCacheMaybeEvict_eq]
    exact runs_bind.2 ⟨_, tr, [], htr, .pure _, (List.append_nil _).symm⟩
  · simpa only [Prod.mk.injEq] using hp

theorem large_files_evicted :
    ∃ tr p, Runs (fun _ _ => True) (evictPass Ctx.roomy) tr (some p) ∧
      p.visits.map (·.after) = [2 ^ 63, 2 ^ 62, 0] ∧ p.Correct Ctx.roomy := by
  obtain ⟨tr, p, hevict, hpass, -, hbytes, hafter⟩ :=
    @threeFiles_runs (2 ^ 62) (3 * 2 ^ 62) (3 * 2 ^ 62) [2 ^ 63, 2 ^ 62, 0]
      (by decide +kernel)
  obtain ⟨o, ho, hcorrect⟩ := maybe_evict_correct_iff hevict
  have := (hcorrect p (ho.unique hpass)).2
  exact ⟨tr, p, hpass, hafter, this.2 (by omega)⟩

/-- The sizes of three of the largest files wrap, so that the removal of the
first takes the total below zero. -/
theorem total_underflows :
    ∃ tr p, Runs (fun _ _ => True) (dyadCacheMaybeEvict Ctx.roomy) tr .ok ∧
      Runs (fun _ _ => True) (evictPass Ctx.roomy) tr (some p) ∧
      p.totalSize = 2 ^ 63 - 3 ∧ cachedBytes p.entries = 3 * (2 ^ 63 - 1) ∧
      p.visits.map (·.after) = [2 ^ 64 - 2, 2 ^ 63 - 1, 0] ∧
      ¬ p.Correct Ctx.roomy := by
  obtain ⟨tr, p, hevict, hpass, htotal, hbytes, hafter⟩ :=
    @threeFiles_runs (2 ^ 63 - 1) (2 ^ 63 - 3) (3 * (2 ^ 63 - 1))
      [2 ^ 64 - 2, 2 ^ 63 - 1, 0] (by decide +kernel)
  refine ⟨tr, p, hevict, hpass, htotal, hbytes, hafter, fun hc => ?_⟩
  have := hc.scanned
  omega

end Dyad
