import Dyad.Client.Reenter
import Dyad.Proofs.EvictExact

/-!
# When the re-entrancy guard covers a call

While the flag is false every open and close goes straight, so a function that
keeps it false around all it does is covered as long as it was true before:
every exit sets it. `dyad_produce` clears it around the publication only. Its
eviction pass runs with the flag set again, and opening a victim, which needs
no permission bits, then starts a `dyad_consume` of the victim.
-/

namespace Dyad

open Conc Posix

variable {s : GuardedProcess} {b : Bool} {access : Option AccMode}
  {tr tr' : List (Prog.Event GuardCall.Res)} {α : Type}

/-! ## What goes straight -/

/-- An open that fetches asks for reading, in a context that is set up, with
the flag up, for a file of the consumer's. -/
theorem fetched_mem_open {ctx : WrapperCtx} {path p : CString}
    {readMode writeMode opened : Bool} {x : OpenAnswers}
    (h : .fetched p ∈ acts ctx
      (openWrapper ctx path readMode writeMode opened x)) :
    readMode = true ∧ ctx.h = true ∧ ctx.reenter = true ∧
      (ctx.consManagedPath && ctx.consTest path) = true := by
  rw [openWrapper] at h
  split at h
  · rw [acts, List.filterMap_append, List.filterMap_append, List.mem_append,
      List.mem_append] at h
    rcases h with (h | h) | h
    · split at h
      · next hread =>
        simp only [Bool.and_eq_true] at hread
        simp only [List.filterMap_cons, WrapperEvent.act, hread.1.2,
          Bool.true_and] at h
        split at h
        · exact absurd h List.not_mem_nil
        · next hact =>
          rw [Option.ite_none_right_eq_some] at hact
          exact ⟨hread.1.1.1, hread.1.2, hread.2, hact.1⟩
      · exact absurd h List.not_mem_nil
    · exact absurd h (by simp [WrapperEvent.act])
    · split at h
      · cases hl : x.lock.isError <;>
          exact absurd h (by simp [List.filterMap_cons, WrapperEvent.act, hl])
      · exact absurd h List.not_mem_nil
  · exact absurd h List.not_mem_nil

/-- A close that publishes is that of a write-only descriptor, with the flag
up. -/
theorem published_mem_close {ctx : WrapperCtx} {p : CString} {stream : Bool}
    {fd : Int} {x : CloseAnswers}
    (h : .published p ∈ acts ctx (closeWrapper ctx stream fd x)) :
    ctx.reenter = true ∧ x.getfl = some .wronly := by
  rw [closeWrapper] at h
  split at h
  · split at h
    · split at h
      · next hsync =>
        simp only [Bool.and_eq_true, decide_eq_true_eq] at hsync
        exact ⟨hsync.1.1.2, hsync.2⟩
      · exact absurd h (by simp [acts, WrapperEvent.act])
    · exact absurd h (by simp [acts, WrapperEvent.act])
  · exact absurd h List.not_mem_nil

/-- A process the wrappers are at work in, all of whose files are the
consumer's. -/
def allConsumed : WrapperCtx where
  h := true
  reenter := true
  relativeToManagedPath := false
  fsyncWrite := false
  prodManagedPath := true
  consManagedPath := true
  isPathDir _ := false
  prodPrefix _ := true
  consPrefix _ := true

/-- An open starts nothing where it has permission bits, the flag is down, or
what it opens is not the consumer's. -/
theorem straight_open_iff {n : Name} {creat trunc : Bool} :
    s.Straight b (.issue access (.sys (.open n creat trunc))) ↔
      creat = true ∨ s.ctx.h = false ∨ b = false ∨
        s.consumed n = false := by
  constructor
  · intro h
    by_contra hne
    simp only [not_or, Bool.not_eq_true, Bool.not_eq_false] at hne
    obtain ⟨rfl, hh, rfl, hv⟩ := hne
    have hseen : (allConsumed.consManagedPath && allConsumed.consTest []) =
        s.consumed n := hv.symm
    exact h allConsumed [] ⟨true, -1, .ok⟩ [] ⟨hh.symm, rfl⟩ hseen (by decide)
  · intro h w path x p hs hvictim hp
    obtain ⟨hread, hh, hreenter, hconsumed⟩ := fetched_mem_open hp
    rcases h with rfl | h | rfl | h
    · exact absurd hread (by decide)
    · exact absurd (hs.h.symm.trans hh) (by rw [h]; decide)
    · exact absurd (hs.reenter.symm.trans hreenter) (by decide)
    · exact absurd (hvictim.symm.trans hconsumed) (by rw [h]; decide)

/-- A close publishes nothing where the flag is down or the descriptor is not
write-only. -/
theorem straight_close {i : Nat}
    (h : b = false ∨ ∃ m, access = some m ∧ m ≠ .wronly) :
    s.Straight b (.issue access (.sys (.close i))) := by
  intro w fd x p hs haccess hp
  obtain ⟨hreenter, hgetfl⟩ := published_mem_close hp
  rcases h with rfl | ⟨m, hm, hne⟩
  · exact absurd (hs.reenter.symm.trans hreenter) (by decide)
  · exact hne (Option.some.inj ((haccess m hm).symm.trans hgetfl))

theorem straight_of_down (c : Call) : s.Straight false (.issue access c) := by
  cases c with
  | sys c =>
    cases c with
    | «open» n creat trunc =>
      exact straight_open_iff.2 (Or.inr (Or.inr (Or.inl rfl)))
    | close i => exact straight_close (Or.inl rfl)
    | _ => exact True.intro
  | _ => exact True.intro

/-! ## Runs -/

theorem allStraight_append :
    s.AllStraight b (tr ++ tr') ↔
      s.AllStraight b tr ∧ s.AllStraight (reenterAfter b tr) tr' := by
  induction tr generalizing b with
  | nil => exact ⟨fun h => ⟨True.intro, h⟩, fun h => h.2⟩
  | cons e tr ih =>
    obtain ⟨c, r⟩ := e
    cases c with
    | reenter b' => exact ih
    | issue access c =>
      show _ ∧ s.AllStraight b (tr ++ tr') ↔ _
      rw [ih, ← and_assoc]
      rfl

theorem reenterAfter_append :
    reenterAfter b (tr ++ tr') = reenterAfter (reenterAfter b tr) tr' := by
  induction tr generalizing b with
  | nil => rfl
  | cons e tr ih =>
    obtain ⟨c, r⟩ := e
    cases c with
    | reenter b' => exact ih
    | issue access c => exact ih

/-! ## Programs that do not touch the flag -/

/-- The calls of a run, as those of a program that opens its files with
`access`. -/
def issued (access : Option AccMode) (tr : List (Prog.Event Call.Res)) :
    List (Prog.Event GuardCall.Res) :=
  tr.map fun e => ⟨.issue access e.1, e.2⟩

theorem issues_bind {β : Type} (p : Program α) (f : α → Program β) :
    issues access (p.bind f) =
      (issues access p).bind fun a => issues access (f a) := by
  induction p with
  | pure a => rfl
  | call c k ih => exact congrArg (Prog.call _) (funext ih)

theorem runs_issues {p : Program α} {a : α}
    (h : Prog.Runs (fun _ _ => True) (issues access p) tr a) :
    ∃ calls, Prog.Runs (fun _ _ => True) p calls a ∧
      tr = issued access calls := by
  induction p generalizing tr with
  | pure a' =>
    obtain ⟨rfl, rfl⟩ := Prog.runs_pure.1 h
    exact ⟨[], .pure _, rfl⟩
  | call c k ih =>
    obtain ⟨r, tr₁, -, hk, rfl⟩ := Prog.runs_call.1 h
    obtain ⟨calls, hrun, rfl⟩ := ih r hk
    exact ⟨⟨c, r⟩ :: calls, .call True.intro hrun, rfl⟩

variable {calls : List (Prog.Event Call.Res)}

theorem reenterAfter_issued : reenterAfter b (issued access calls) = b := by
  induction calls with
  | nil => rfl
  | cons e calls ih => exact ih

theorem allStraight_down : s.AllStraight false (issued access calls) := by
  induction calls with
  | nil => exact True.intro
  | cons e calls ih => exact ⟨straight_of_down e.1, ih⟩

/-- The file a call opens without permission bits. -/
def Call.opensPlain : Call → Option Name
  | .sys (.open n false _) => some n
  | _ => none

/-- The files a run opens so. -/
def plainOpens (calls : List (Prog.Event Call.Res)) : List Name :=
  calls.filterMap (·.1.opensPlain)

theorem plainOpens_cons {e : Prog.Event Call.Res} :
    plainOpens (e :: calls) = e.1.opensPlain.toList ++ plainOpens calls := by
  unfold plainOpens
  rw [List.filterMap_cons]
  cases e.1.opensPlain <;> rfl

/-- With the flag up, a call of a program that opens no file write-only goes
straight unless it opens a file of the consumer's without permission bits. -/
theorem straight_up_iff {m : AccMode} (hm : m ≠ .wronly) (c : Call) :
    s.Straight true (.issue (some m) c) ↔
      s.ctx.h = false ∨ ∀ n ∈ c.opensPlain, s.consumed n = false := by
  cases c with
  | sys c =>
    cases c with
    | «open» n creat trunc =>
      rw [straight_open_iff]
      cases creat <;> simp [Call.opensPlain]
    | close i =>
      exact iff_of_true (straight_close (Or.inr ⟨m, rfl, hm⟩))
        (Or.inr fun n hn => by cases hn)
    | _ => exact iff_of_true True.intro (Or.inr fun n hn => by cases hn)
  | _ => exact iff_of_true True.intro (Or.inr fun n hn => by cases hn)

theorem allStraight_up_iff {m : AccMode} (hm : m ≠ .wronly) :
    s.AllStraight true (issued (some m) calls) ↔
      s.ctx.h = false ∨ ∀ n ∈ plainOpens calls, s.consumed n = false := by
  induction calls with
  | nil => exact iff_of_true True.intro (Or.inr fun n hn => by cases hn)
  | cons e calls ih =>
    show s.Straight true _ ∧ s.AllStraight true (issued (some m) calls) ↔ _
    rw [straight_up_iff hm, ih, ← or_and_left]
    refine or_congr_right ?_
    rw [plainOpens_cons]
    simp only [List.mem_append, Option.mem_toList, Option.mem_def, or_imp,
      forall_and]

/-! ## What an eviction pass opens -/

/-- A program opens nothing without permission bits. -/
abbrev OpensNone (p : Program α) : Prop :=
  p.All fun c => c.opensPlain = none

theorem OpensNone.runs {may : (c : Call) → c.Res → Prop} {p : Program α} {a : α}
    (hp : OpensNone p) (h : Prog.Runs may p calls a) : plainOpens calls = [] :=
  List.filterMap_eq_nil_iff.2 (h.all hp)

theorem plainOpens_append {calls' : List (Prog.Event Call.Res)} :
    plainOpens (calls ++ calls') = plainOpens calls ++ plainOpens calls' :=
  List.filterMap_append

theorem opensNone_growEntries (nEntries capacity : Nat) :
    OpensNone (growEntries nEntries capacity) := by
  rw [growEntries]
  split
  · refine Prog.All.step rfl fun grown => ?_
    cases grown <;> exact True.intro
  · exact True.intro

theorem opensNone_scanEntries (left capacity : Nat) (entries : List CacheEntry)
    (totalSize : Nat) :
    OpensNone (scanEntries left capacity entries totalSize) := by
  induction left generalizing capacity entries totalSize with
  | zero => exact True.intro
  | succ left ih =>
    refine Prog.All.step rfl fun dirent => ?_
    split
    · exact ih ..
    · exact ih ..
    · exact ih ..
    · refine Prog.All.step rfl fun size => ?_
      cases size with
      | error e => exact ih ..
      | ok size =>
        refine Prog.All.step rfl fun st => ?_
        split
        · refine Prog.All.bind (opensNone_growEntries _ _) fun grown => ?_
          cases grown with
          | none => exact True.intro
          | some newCapacity => exact ih ..
        · exact ih ..

theorem opensNone_scanDir : OpensNone dyadCacheScanDir := by
  refine Prog.All.step rfl fun n => ?_
  cases n with
  | error e => exact True.intro
  | ok n => exact opensNone_scanEntries n 0 [] 0

theorem opensNone_releaseFlock (fd : Nat) : OpensNone (dyadReleaseFlock fd) := by
  refine Prog.All.step rfl fun r => ?_
  cases r <;> exact True.intro

theorem opensNone_tryExclFlock (fd : Nat) : OpensNone (dyadTryExclFlock fd) := by
  refine Prog.All.step rfl fun r => ?_
  cases r <;> exact True.intro

theorem opensNone_exclFlock (fd : Nat) : OpensNone (dyadExclFlock fd) := by
  refine Prog.All.step rfl fun r => ?_
  cases r <;> exact True.intro

theorem opensNone_evictLeave (lockFd : Nat) : OpensNone (evictLeave lockFd) :=
  Prog.All.bind (opensNone_releaseFlock lockFd) fun _ =>
    Prog.All.step rfl fun _ => True.intro

variable {may : (c : Call) → c.Res → Prop} {now grace : Int}
  {lowWatermark : Nat}

/-- A turn that comes to the entry opens it, and nothing else. -/
theorem opens_evictEntry {entry : CacheEntry} {totalSize left : Nat}
    (h : Prog.Runs may (evictEntry entry totalSize) calls left) :
    plainOpens calls = [entry.path] := by
  obtain ⟨r, calls', -, hrest, rfl⟩ := Prog.runs_step.1 h
  show entry.path :: plainOpens calls' = _
  refine congrArg _ (OpensNone.runs ?_ hrest)
  cases r with
  | error e => exact True.intro
  | ok victimFd =>
    refine Prog.All.bind (opensNone_tryExclFlock victimFd) fun rc => ?_
    split
    · exact Prog.All.step rfl fun _ => True.intro
    · refine Prog.All.step rfl fun unlinked => ?_
      refine Prog.All.bind (opensNone_releaseFlock victimFd) fun _ => ?_
      refine Prog.All.step rfl fun _ => ?_
      cases unlinked <;> exact True.intro

theorem unlinkedOf_fresh {v : Visit} {visits : List Visit}
    (h : now - v.entry.atime < grace) :
    unlinkedOf now grace (v :: visits) = unlinkedOf now grace visits := by
  rw [unlinkedOf, List.filter_cons_of_neg (by simpa using h)]
  rfl

theorem unlinkedOf_past {v : Visit} {visits : List Visit}
    (h : ¬ now - v.entry.atime < grace) :
    unlinkedOf now grace (v :: visits) =
      v.removed :: unlinkedOf now grace visits := by
  rw [unlinkedOf, List.filter_cons_of_pos (by simpa using h)]
  rfl

/-- The loop opens the candidates it comes to, in their order. -/
theorem opens_evictVisits {entries : List CacheEntry} {totalSize : Nat}
    {visits : List Visit}
    (h : Prog.Runs may (evictVisits now grace lowWatermark entries totalSize)
      calls visits) :
    plainOpens calls = (victims now grace lowWatermark entries
      (unlinkedOf now grace visits) totalSize).map (·.path) := by
  induction entries generalizing calls totalSize visits with
  | nil =>
    obtain ⟨rfl, rfl⟩ := Prog.runs_pure.1 h
    rfl
  | cons entry entries ih =>
    rw [evictVisits] at h
    rw [victims]
    split at h
    · next hlow =>
      rw [if_pos hlow]
      split at h
      · next hgrace =>
        obtain ⟨visits', tr₁, tr₂, h₁, h₂, rfl⟩ := Prog.runs_bind.1 h
        obtain ⟨rfl, rfl⟩ := Prog.runs_pure.1 h₂
        rw [if_pos hgrace, List.append_nil, ih h₁, unlinkedOf_fresh hgrace]
      · next hgrace =>
        obtain ⟨⟨turn, left⟩, tr₁, tr₂, hturn, h₁, rfl⟩ := Prog.runs_bind.1 h
        obtain ⟨rfl, hturn⟩ := Prog.runs_logged.1 hturn
        obtain ⟨visits', tr₃, tr₄, h₂, h₃, rfl⟩ := Prog.runs_bind.1 h₁
        obtain ⟨rfl, rfl⟩ := Prog.runs_pure.1 h₃
        have hafter := (runs_evictEntry hturn hgrace).after
        dsimp only at hafter
        rw [if_neg hgrace, List.append_nil, plainOpens_append,
          opens_evictEntry hturn, ih h₂, unlinkedOf_past hgrace,
          List.headD_cons, List.tail_cons, ← hafter]
        rfl
    · next hlow =>
      obtain ⟨rfl, rfl⟩ := Prog.runs_pure.1 h
      rw [if_neg hlow]
      rfl

/-- The candidates a pass comes to, where there was one. -/
def passVictims (ctx : Ctx) (pass : Option Pass) : List CacheEntry :=
  pass.elim [] (Pass.victims ctx)

theorem runs_evictLeave {lockFd : Nat} {x a : α}
    (h : Prog.Runs may ((evictLeave lockFd).bind fun _ => .pure x) calls a) :
    a = x ∧ plainOpens calls = [] := by
  obtain ⟨_, tr₁, tr₂, hleave, hret, rfl⟩ := Prog.runs_bind.1 h
  obtain ⟨rfl, rfl⟩ := Prog.runs_pure.1 hret
  rw [List.append_nil]
  exact ⟨rfl, (opensNone_evictLeave lockFd).runs hleave⟩

theorem opens_evictLockedPass {ctx : Ctx} {lockFd : Nat} {pass : Option Pass}
    (h : Prog.Runs may (evictLockedPass ctx lockFd) calls pass) :
    plainOpens calls = (passVictims ctx pass).map (·.path) := by
  obtain ⟨scan, tr₁, tr₂, hscan, h₁, rfl⟩ := Prog.runs_bind.1 h
  rw [plainOpens_append, opensNone_scanDir.runs hscan, List.nil_append]
  cases scan with
  | none =>
    obtain ⟨rfl, hopens⟩ := runs_evictLeave h₁
    exact hopens
  | some x =>
    obtain ⟨entries, totalSize⟩ := x
    dsimp only at h₁
    split at h₁
    · obtain ⟨rfl, hopens⟩ := runs_evictLeave h₁
      exact hopens
    · obtain ⟨now, tr₃, -, h₂, rfl⟩ := Prog.runs_step.1 h₁
      obtain ⟨visits, tr₄, tr₅, hloop, h₃, rfl⟩ := Prog.runs_bind.1 h₂
      obtain ⟨rfl, hopens⟩ := runs_evictLeave h₃
      show plainOpens (tr₄ ++ tr₅) = _
      rw [plainOpens_append, hopens, List.append_nil]
      exact opens_evictVisits hloop

theorem opens_evictPass {ctx : Ctx} {pass : Option Pass}
    (h : Prog.Runs may (evictPass ctx) calls pass) :
    plainOpens calls = (passVictims ctx pass).map (·.path) := by
  unfold evictPass at h
  split at h
  · obtain ⟨rfl, rfl⟩ := Prog.runs_pure.1 h
    rfl
  · obtain ⟨scan, tr₁, tr₂, hscan, h₁, rfl⟩ := Prog.runs_bind.1 h
    rw [plainOpens_append, opensNone_scanDir.runs hscan, List.nil_append]
    cases scan with
    | none =>
      obtain ⟨rfl, rfl⟩ := Prog.runs_pure.1 h₁
      rfl
    | some x =>
      obtain ⟨entries, totalSize⟩ := x
      dsimp only at h₁
      split at h₁
      · obtain ⟨rfl, rfl⟩ := Prog.runs_pure.1 h₁
        rfl
      · obtain ⟨r, tr₃, -, h₂, rfl⟩ := Prog.runs_step.1 h₁
        show plainOpens tr₃ = _
        cases r with
        | error e =>
          obtain ⟨rfl, rfl⟩ := Prog.runs_pure.1 h₂
          rfl
        | ok lockFd =>
          obtain ⟨rc, tr₄, tr₅, hlock, h₃, rfl⟩ := Prog.runs_bind.1 h₂
          rw [plainOpens_append, (opensNone_exclFlock lockFd).runs hlock,
            List.nil_append]
          split at h₃
          · obtain ⟨r, tr₆, -, h₄, rfl⟩ := Prog.runs_step.1 h₃
            obtain ⟨rfl, rfl⟩ := Prog.runs_pure.1 h₄
            rfl
          · exact opens_evictLockedPass h₃

/-! ## The five functions -/

/-- The runs of a function that keeps the flag down around all it does. -/
theorem fenced_covered {passed : Bool} {p : Program α} {a : α}
    (hp : passed = false → ∃ a, p = .pure a)
    (h : Prog.Runs (fun _ _ => True) (fenced passed p) tr a) :
    s.Covered b tr ↔ b = true := by
  cases passed with
  | true =>
    obtain ⟨r, tr₁, -, h₁, rfl⟩ := Prog.runs_step.1 h
    obtain ⟨a', tr₂, tr₃, hrun, h₂, rfl⟩ := Prog.runs_bind.1 h₁
    obtain ⟨r', tr₄, -, h₃, rfl⟩ := Prog.runs_step.1 h₂
    obtain ⟨rfl, -⟩ := Prog.runs_pure.1 h₃
    obtain ⟨calls, -, rfl⟩ := runs_issues hrun
    constructor
    · intro ⟨_, hafter⟩
      rw [reenterAfter, reenterAfter_append] at hafter
      exact hafter.symm
    · rintro rfl
      refine ⟨?_, ?_⟩
      · rw [GuardedProcess.AllStraight, allStraight_append]
        exact ⟨allStraight_down, True.intro⟩
      · rw [reenterAfter, reenterAfter_append]
        rfl
  | false =>
    obtain ⟨a', rfl⟩ := hp rfl
    obtain ⟨r, tr₁, -, h₁, rfl⟩ := Prog.runs_step.1 h
    obtain ⟨rfl, -⟩ := Prog.runs_pure.1 h₁
    constructor
    · exact fun h => h.2.symm
    · rintro rfl
      exact ⟨True.intro, rfl⟩

/-- The condition under which a call is covered, from a flag of `b`: the flag
is up, and where the eviction pass of `dyad_produce` runs with it up none of
the candidates it comes to is the consumer's. -/
def GuardedProcess.Clear (s : GuardedProcess) (b : Bool) (pass : Option Pass) :
    ClientCall → Prop
  | .produce prodManagedPath =>
    s.ctx.h = false ∨ prodManagedPath = false ∨
      (s.ctx.tracked = true → b = true) ∧
      (b = true → ∀ entry ∈ passVictims s.ctx pass,
        s.consumed entry.path = false)
  | _ => b = true

/-- What the commit leaves the eviction pass: the flag as it was, where it did
nothing, or up. -/
theorem commit_runs {ctx : Ctx} {rc : Rc}
    (h : Prog.Runs (fun _ _ => True) (guardedCommit ctx) tr rc) :
    reenterAfter b tr = (ctx.tracked || b) ∧ s.AllStraight b tr := by
  rw [guardedCommit] at h
  split at h
  · next hctx =>
    obtain ⟨rfl, rfl⟩ := Prog.runs_pure.1 h
    rw [hctx]
    exact ⟨rfl, True.intro⟩
  · next hctx =>
    rw [Bool.not_eq_false] at hctx
    obtain ⟨r, tr₁, -, h₁, rfl⟩ := Prog.runs_step.1 h
    obtain ⟨r₁, tr₂, -, h₂, rfl⟩ := Prog.runs_call.1 h₁
    obtain ⟨r₂, tr₃, -, h₃, rfl⟩ := Prog.runs_step.1 h₂
    have htr : tr₃ = [] := by
      cases r₁ <;> exact (Prog.runs_pure.1 h₃).1
    subst htr
    rw [hctx]
    exact ⟨rfl, True.intro, True.intro⟩

/-- The record of the pass changes nothing about `dyad_produce`. -/
theorem guardedProduce_eq (ctx : Ctx) (prodManagedPath : Bool) :
    guardedProduce ctx prodManagedPath =
      (guardedProducePass ctx prodManagedPath).bind fun x => .pure x.1 := by
  unfold guardedProduce guardedProducePass
  split
  · rfl
  split
  · rfl
  simp only [Prog.bind_eq, Prog.pure_eq, Prog.bind_assoc]
  refine congrArg _ (funext fun rc => ?_)
  split
  · rfl
  · rw [dyadCacheMaybeEvict_eq, issues_bind, Prog.bind_assoc, Prog.bind_assoc]
    rfl

/-- A `dyad_produce` and its eviction pass. -/
theorem producePass_covered {prodManagedPath : Bool} {rc : Rc}
    {pass : Option Pass}
    (h : Prog.Runs (fun _ _ => True)
      (guardedProducePass s.ctx prodManagedPath) tr (rc, pass)) :
    s.Covered b tr ↔ s.Clear b pass (.produce prodManagedPath) := by
  rw [guardedProducePass] at h
  split at h
  · next hh =>
    obtain ⟨rfl, -⟩ := Prog.runs_pure.1 h
    exact ⟨fun _ => Or.inl hh, fun _ => ⟨True.intro, rfl⟩⟩
  split at h
  · next hm =>
    obtain ⟨rfl, -⟩ := Prog.runs_pure.1 h
    exact ⟨fun _ => Or.inr (Or.inl hm), fun _ => ⟨True.intro, rfl⟩⟩
  next hh hm =>
  obtain ⟨rc', tr₁, tr₂, hcommit, hrest, rfl⟩ := Prog.runs_bind.1 h
  obtain ⟨hflag, hstraight⟩ := commit_runs (s := s) (b := b) hcommit
  have hclear : s.Clear b pass (.produce prodManagedPath) ↔
      (s.ctx.tracked = true → b = true) ∧
        (b = true → ∀ entry ∈ passVictims s.ctx pass,
          s.consumed entry.path = false) := by
    rw [GuardedProcess.Clear]
    simp [hh, hm]
  rw [hclear, GuardedProcess.Covered, allStraight_append, reenterAfter_append,
    hflag]
  have hflag' : (s.ctx.tracked || b) = b ↔ (s.ctx.tracked = true → b = true) := by
    cases s.ctx.tracked <;> cases b <;> simp
  split at hrest
  · obtain ⟨rfl, heq⟩ := Prog.runs_pure.1 hrest
    obtain ⟨-, rfl⟩ := Prod.mk.inj heq
    rw [reenterAfter, hflag']
    exact ⟨fun h => ⟨h.2, fun _ entry he => absurd he List.not_mem_nil⟩,
      fun h => ⟨⟨hstraight, True.intro⟩, h.1⟩⟩
  · obtain ⟨pass', tr₃, tr₄, hevict, hret, rfl⟩ := Prog.runs_bind.1 hrest
    obtain ⟨rfl, heq⟩ := Prog.runs_pure.1 hret
    obtain ⟨-, rfl⟩ := Prod.mk.inj heq
    obtain ⟨calls, hpass, rfl⟩ := runs_issues hevict
    have hh' : s.ctx.h = true := by simpa using hh
    have hup : s.AllStraight true (issued (some .rdwr) calls) ↔ _ :=
      allStraight_up_iff (by decide)
    rw [opens_evictPass hpass, hh'] at hup
    simp only [Bool.true_eq_false, false_or, List.mem_map,
      forall_exists_index, and_imp, forall_apply_eq_imp_iff₂] at hup
    rw [List.append_nil, reenterAfter_issued, hflag']
    constructor
    · rintro ⟨⟨-, hall⟩, hb⟩
      refine ⟨hb, fun hbt => hup.1 ?_⟩
      rwa [hbt, Bool.or_true] at hall
    · rintro ⟨hb, hvictim⟩
      refine ⟨⟨hstraight, ?_⟩, hb⟩
      cases hbt : b with
      | true =>
        rw [Bool.or_true]
        exact hup.2 (hvictim hbt)
      | false =>
        have ht : s.ctx.tracked = false := by
          by_contra ht
          rw [Bool.not_eq_false] at ht
          exact absurd (hb ht) (by rw [hbt]; decide)
        rw [ht]
        exact allStraight_down

/-- A call is covered exactly where it is clear: the flag was up before, and
no eviction pass that runs with it up comes to a file of the consumer's. -/
theorem reenter_covers {c : ClientCall} {a : c.Res}
    (h : Prog.Runs (fun _ _ => True) (c.program s.ctx) tr a) :
    ∃ pass, c.Meets s.ctx tr a pass ∧
      (s.Covered b tr ↔ s.Clear b pass c) := by
  cases c with
  | produce prodManagedPath =>
    rw [ClientCall.program, guardedProduce_eq] at h
    obtain ⟨⟨rc, pass⟩, tr₁, tr₂, hrun, hret, rfl⟩ := Prog.runs_bind.1 h
    obtain ⟨rfl, rfl⟩ := Prog.runs_pure.1 hret
    rw [List.append_nil]
    exact ⟨pass, hrun, producePass_covered hrun⟩
  | consume fuel =>
    refine ⟨none, rfl, fenced_covered (fun hp => ?_) h⟩
    rw [dyadConsume]
    cases hh : s.ctx.h <;> cases hm : s.ctx.consManagedPath <;>
      cases ht : s.ctx.tracked <;> simp_all
  | consumeWMetadata mdata fuel =>
    refine ⟨none, rfl, fenced_covered (fun hp => ?_) h⟩
    rw [dyadConsumeWMetadata]
    cases hh : s.ctx.h <;> cases hm : s.ctx.consManagedPath <;>
      cases mdata <;> simp_all
  | getMetadata fnameEmpty mdata =>
    refine ⟨none, rfl, fenced_covered (fun hp => ?_) h⟩
    unfold dyadGetMetadata
    cases ht : s.ctx.tracked <;> cases fnameEmpty <;> simp_all
  | consumeRange offset length =>
    refine ⟨none, rfl, fenced_covered (fun hp => ?_) h⟩
    rw [dyadConsumeRange]
    cases hh : s.ctx.h <;> cases hm : s.ctx.consManagedPath <;>
      cases ht : s.ctx.tracked <;> by_cases hu : s.ctx.dtlMode = .ucx <;>
      simp_all

/-! ## Where the pass of `dyad_produce` is no trouble -/

theorem mem_victims {entries : List CacheEntry} {gone : List Bool}
    {totalSize : Nat} {entry : CacheEntry}
    (h : entry ∈ victims now grace lowWatermark entries gone totalSize) :
    entry ∈ entries ∧ ¬ now - entry.atime < grace := by
  induction entries generalizing gone totalSize with
  | nil => exact absurd h List.not_mem_nil
  | cons e entries ih =>
    rw [victims] at h
    split at h
    · split at h
      · exact (ih h).imp_left (List.mem_cons_of_mem e)
      · next hgrace =>
        rcases List.mem_cons.1 h with rfl | h
        · exact ⟨List.mem_cons_self .., hgrace⟩
        · exact (ih h).imp_left (List.mem_cons_of_mem e)
    · exact absurd h List.not_mem_nil

/-- What a pass comes to was found by its scan and is past its grace. -/
theorem mem_passVictims {ctx : Ctx} {p : Pass} {entry : CacheEntry}
    (h : entry ∈ p.victims ctx) :
    entry ∈ p.entries ∧
      ∃ now ∈ p.now, ¬ now - entry.atime < ctx.cacheGracePeriodSec := by
  unfold Pass.victims at h
  split at h
  · exact absurd h List.not_mem_nil
  · next now hnow =>
    obtain ⟨hmem, hgrace⟩ := mem_victims h
    exact ⟨(List.perm_insertionSort _ _).mem_iff.1 hmem, now, hnow, hgrace⟩

/-- Within the capacity a pass does not enter its loop. -/
theorem evictLockedPass_within {ctx : Ctx} {lockFd : Nat} {p : Pass}
    (h : Prog.Runs may (evictLockedPass ctx lockFd) calls (some p))
    (hcap : p.totalSize ≤ ctx.cacheCapacityBytes) : p.now = none := by
  obtain ⟨scan, tr₁, tr₂, -, h₁, rfl⟩ := Prog.runs_bind.1 h
  cases scan with
  | none => cases (runs_evictLeave h₁).1
  | some x =>
    obtain ⟨entries, totalSize⟩ := x
    dsimp only at h₁
    split at h₁
    · cases (runs_evictLeave h₁).1
      rfl
    · next hover =>
      obtain ⟨now, tr₃, -, h₂, rfl⟩ := Prog.runs_step.1 h₁
      obtain ⟨visits, tr₄, tr₅, -, h₃, rfl⟩ := Prog.runs_bind.1 h₂
      cases (runs_evictLeave h₃).1
      exact absurd hcap hover

theorem evictPass_within {ctx : Ctx} {p : Pass}
    (h : Prog.Runs may (evictPass ctx) calls (some p))
    (hcap : p.totalSize ≤ ctx.cacheCapacityBytes) : p.now = none := by
  unfold evictPass at h
  split at h
  · cases (Prog.runs_pure.1 h).2
  obtain ⟨scan, tr₁, tr₂, -, h₁, rfl⟩ := Prog.runs_bind.1 h
  cases scan with
  | none => cases (Prog.runs_pure.1 h₁).2
  | some x =>
    obtain ⟨entries, totalSize⟩ := x
    dsimp only at h₁
    split at h₁
    · cases (Prog.runs_pure.1 h₁).2
      rfl
    · obtain ⟨r, tr₃, -, h₂, rfl⟩ := Prog.runs_step.1 h₁
      cases r with
      | error e => cases (Prog.runs_pure.1 h₂).2
      | ok lockFd =>
        obtain ⟨rc, tr₄, tr₅, -, h₃, rfl⟩ := Prog.runs_bind.1 h₂
        split at h₃
        · obtain ⟨_, tr₆, -, h₄, rfl⟩ := Prog.runs_step.1 h₃
          cases (Prog.runs_pure.1 h₄).2
        · exact evictLockedPass_within h₃ hcap

/-- The pass a `dyad_produce` meets, if any, is one of the evictor's. -/
theorem evictPass_of_meets {ctx : Ctx} {prodManagedPath : Bool} {rc : Rc}
    {p : Pass}
    (h : ClientCall.Meets ctx tr (.produce prodManagedPath) rc (some p)) :
    ∃ calls, Prog.Runs (fun _ _ => True) (evictPass ctx) calls (some p) := by
  change Prog.Runs _ (guardedProducePass ctx prodManagedPath) tr _ at h
  rw [guardedProducePass] at h
  split at h
  · cases (Prog.runs_pure.1 h).2
  split at h
  · cases (Prog.runs_pure.1 h).2
  obtain ⟨rc', tr₁, tr₂, -, hrest, rfl⟩ := Prog.runs_bind.1 h
  split at hrest
  · cases (Prog.runs_pure.1 hrest).2
  · obtain ⟨pass', tr₃, tr₄, hevict, hret, rfl⟩ := Prog.runs_bind.1 hrest
    cases (Prog.runs_pure.1 hret).2
    obtain ⟨calls, hpass, -⟩ := runs_issues hevict
    exact ⟨calls, hpass⟩

/-- With the flag up, `dyad_produce` is covered where eviction is off, where
the directory is within its capacity, and where every file of it is within its
grace or not the consumer's. -/
theorem produce_clear {prodManagedPath : Bool} {rc : Rc} {pass : Option Pass}
    (h : ClientCall.Meets s.ctx tr (.produce prodManagedPath) rc pass)
    (hpass : (s.ctx.cacheCapacityBytes = 0 ∨ s.ctx.cachePolicyMode = .none) ∨
      ∀ p ∈ pass, p.totalSize ≤ s.ctx.cacheCapacityBytes ∨
        ∀ entry ∈ p.entries,
          (∀ now ∈ p.now, now - entry.atime < s.ctx.cacheGracePeriodSec) ∨
            s.consumed entry.path = false) :
    s.Clear true pass (.produce prodManagedPath) := by
  refine Or.inr (Or.inr ⟨fun _ => rfl, fun _ entry hentry => ?_⟩)
  cases pass with
  | none => exact absurd hentry List.not_mem_nil
  | some p =>
    obtain ⟨hmem, now, hnow, hpast⟩ := mem_passVictims hentry
    obtain ⟨calls, hrun⟩ := evictPass_of_meets h
    rcases hpass with hoff | hpass
    · rw [evictPass, if_pos hoff] at hrun
      cases (Prog.runs_pure.1 hrun).2
    · rcases hpass p rfl with hcap | hentries
      · rw [evictPass_within hrun hcap] at hnow
        cases hnow
      · exact (hentries entry hmem).resolve_left fun h => hpast (h now hnow)

/-! ## Two runs -/

/-- A context whose managed directory may hold one byte. -/
def Ctx.smallCache : Ctx :=
  { Ctx.consumer with
    cachePolicyMode := .lru
    cacheCapacityBytes := 1
    cacheLowWatermark := 1 }

/-- What its calls meet while the directory holds one file of two bytes, that
cannot be opened. -/
def directoryOfOne : (c : GuardCall) → Option c.Res
  | .reenter _ => some ()
  | .issue _ .kvsCommit => some (.ok ())
  | .issue _ .opendir => some (.ok 1)
  | .issue _ .readdir => some (.name (.other 0))
  | .issue _ (.sys (.stat _)) => some (.ok 2)
  | .issue _ (.entryStamp _) => some ⟨true, 0, some 0⟩
  | .issue _ (.sys (.malloc _)) => some true
  | .issue _ (.sys (.open _ creat _)) =>
    some (if creat then .ok 0 else .error Errno.ENOENT)
  | .issue _ (.sys (.setlkw ..)) => some (.ok ())
  | .issue _ (.sys (.unlock _)) => some (.ok ())
  | .issue _ (.sys (.close _)) => some (.ok ())
  | .issue _ .time => some 0
  | _ => none

/-- What it does then when it produces a file. -/
def producesOverOne : Option (List (Prog.Event GuardCall.Res) × Rc) :=
  ((ClientCall.produce true).program Ctx.smallCache).play directoryOfOne

/-- The pass it makes tries that file. -/
theorem passOverOne : ∃ tr pass,
    (guardedProducePass Ctx.smallCache true).play directoryOfOne =
      some (tr, .ok, pass) ∧
    producesOverOne = some (tr, .ok) ∧
    passVictims Ctx.smallCache pass = [⟨.other 0, 2, 0, 0⟩] :=
  ⟨_, _, rfl, rfl, by decide⟩

/-- Where the file is not the consumer's, trying it starts nothing. -/
theorem reenter_covers_othersFile : ∃ tr, producesOverOne = some (tr, .ok) ∧
    GuardedProcess.Covered ⟨Ctx.smallCache, fun n => n = .data⟩ true tr := by
  obtain ⟨tr, pass, hpass, hplay, hvictims⟩ := passOverOne
  refine ⟨tr, hplay, ?_⟩
  obtain ⟨pass', hmeets, hiff⟩ := reenter_covers
    (s := ⟨Ctx.smallCache, fun n => n = .data⟩) (b := true) (c := .produce true)
    (Prog.runs_play (fun _ _ _ => True.intro) hplay)
  obtain ⟨-, rfl⟩ := Prod.mk.inj
    (hmeets.unique (Prog.runs_play (fun _ _ _ => True.intro) hpass))
  refine hiff.2 (Or.inr (Or.inr ⟨fun _ => rfl, fun _ entry hentry => ?_⟩))
  rw [hvictims, List.mem_singleton] at hentry
  rw [hentry]
  decide

/-- Where it is the consumer's as well, the pass consumes it. -/
theorem reenter_uncovered : ∃ tr, producesOverOne = some (tr, .ok) ∧
    ¬ GuardedProcess.Covered ⟨Ctx.smallCache, fun _ => true⟩ true tr := by
  obtain ⟨tr, pass, hpass, hplay, hvictims⟩ := passOverOne
  refine ⟨tr, hplay, fun h => ?_⟩
  have hclear := (producePass_covered (s := ⟨Ctx.smallCache, fun _ => true⟩)
    (Prog.runs_play (fun _ _ _ => True.intro) hpass)).1 h
  rcases hclear with hh | hm | ⟨-, hvictim⟩
  · exact absurd hh (by decide)
  · exact absurd hm (by decide)
  · rw [hvictims] at hvictim
    exact absurd (hvictim rfl _ (List.mem_cons_self ..)) (by decide)

end Dyad
