import Dyad.Utils.Mkdir

/-!
# What creating a directory leaves behind

`mkdir_as_needed` puts the umask back behind its last line only. A creation
that fails, or that another process was faster with, leaves through one of the
returns before it and the process with an empty umask. A file that comes up at
the path between the first `stat` and that of `mkpath` is returned 0 for. And
the climb of `mkpath` ends only where a `stat` succeeds.
-/

namespace Dyad.Dirs

open Conc

variable {host : Host} {syncDir : Bool} {m : Mode} {path dir : CString}
  {n t fuel : Nat} {h : History}

/-! ## The climb -/

theorem Host.Climbs.unique {n' : Nat} (hc : host.Climbs t dir n)
    (hc' : host.Climbs t dir n') : n = n' := by
  rcases Nat.lt_trichotomy n n' with hlt | heq | hgt
  · exact absurd (hc'.missing n hlt) hc.found
  · exact heq
  · exact absurd (hc.missing n' hgt) hc'.found

theorem climbs_zero_iff : host.Climbs t dir 0 ↔ host.stat t dir ≠ none := by
  constructor
  · exact fun hc => hc.found
  · exact fun hf => ⟨hf, fun k hk => absurd hk (Nat.not_lt_zero k)⟩

/-- One step up. -/
theorem climbs_succ_iff : host.Climbs t dir (n + 1) ↔
    host.stat t dir = none ∧ host.Climbs (t + 1) (dirname dir) n := by
  constructor
  · intro hc
    refine ⟨hc.missing 0 (Nat.succ_pos n), ?_, fun k hk => ?_⟩
    · have := hc.found
      rwa [Function.iterate_succ_apply, ← Nat.add_assoc,
        Nat.add_right_comm] at this
    · have := hc.missing (k + 1) (by omega)
      rwa [Function.iterate_succ_apply, ← Nat.add_assoc,
        Nat.add_right_comm] at this
  · rintro ⟨hnone, hc⟩
    constructor
    · have := hc.found
      rwa [Function.iterate_succ_apply, ← Nat.add_assoc, Nat.add_right_comm]
    · intro k hk
      cases k with
      | zero => exact hnone
      | succ k =>
        have := hc.missing k (by omega)
        rwa [Function.iterate_succ_apply, ← Nat.add_assoc, Nat.add_right_comm]

theorem eval_stat {α : Type} {f : Option Stat → DirProgram α} :
    ((perform (.stat path)).bind f).eval host.answer h =
      (f (host.stat h.length path)).eval host.answer
        (⟨.stat path, host.stat h.length path⟩ :: h) :=
  Prog.eval_step rfl

theorem eval_mkdir {α : Type} {f : Bool → DirProgram α} :
    ((perform (.mkdir path m)).bind f).eval host.answer h =
      (f (host.mkdir h.length path m)).eval host.answer
        (⟨.mkdir path m, host.mkdir h.length path m⟩ :: h) :=
  Prog.eval_step rfl

/-- A directory that is there is left at that. -/
theorem mkpathFrom_found {sb : Stat} (hs : host.stat h.length dir = some sb) :
    (mkpathFrom (fuel + 1) dir m).eval host.answer h =
      some (⟨.stat dir, some sb⟩ :: h, 0) := by
  rw [mkpathFrom, Prog.bind_eq, eval_stat, hs]
  rfl

/-- One that is not is created once its ancestors have been seen to. -/
theorem mkpathFrom_missing (hc : host.Climbs h.length dir (n + 1))
    (hf : n + 1 < fuel) :
    ∃ h₁, (mkpathFrom fuel dir m).eval host.answer h =
        some (⟨.mkdir dir m, host.mkdir h₁.length dir m⟩ :: h₁,
          if host.mkdir h₁.length dir m then 0 else -1) ∧
      h₁.length = h.length + 2 * n + 2 ∧
      host.umaskAfter h₁ = host.umaskAfter h := by
  induction n generalizing dir h fuel with
  | zero =>
    obtain ⟨hnone, hc⟩ := climbs_succ_iff.1 hc
    obtain ⟨fuel, rfl⟩ : ∃ k, fuel = k + 1 + 1 := ⟨fuel - 2, by omega⟩
    obtain ⟨sb, hsb⟩ := Option.ne_none_iff_exists'.1 (climbs_zero_iff.1 hc)
    rw [mkpathFrom, Prog.bind_eq, eval_stat, hnone]
    dsimp only
    rw [Prog.bind_eq, Prog.eval_seq (mkpathFrom_found hsb), Prog.bind_eq,
      eval_mkdir]
    exact ⟨_, rfl, rfl, rfl⟩
  | succ n ih =>
    obtain ⟨hnone, hc⟩ := climbs_succ_iff.1 hc
    obtain ⟨fuel, rfl⟩ : ∃ k, fuel = k + 1 := ⟨fuel - 1, by omega⟩
    obtain ⟨h₁, hev, hlen, hmask⟩ :=
      @ih (dirname dir) fuel (⟨.stat dir, none⟩ :: h) hc (by omega)
    rw [mkpathFrom, Prog.bind_eq, eval_stat, hnone]
    dsimp only
    rw [Prog.bind_eq, Prog.eval_seq hev, Prog.bind_eq, eval_mkdir]
    refine ⟨_, rfl, ?_, hmask⟩
    rw [List.length_cons, hlen, List.length_cons]
    omega

/-- A climb that comes to an end has found something. -/
theorem climbs_of_eval {r : History × Int}
    (hev : (mkpathFrom fuel dir m).eval host.answer h = some r) :
    ∃ n < fuel, host.Climbs h.length dir n := by
  induction fuel generalizing dir h r with
  | zero => cases hev
  | succ fuel ih =>
    cases hs : host.stat h.length dir with
    | some sb =>
      exact ⟨0, Nat.succ_pos fuel, climbs_zero_iff.2 (by rw [hs]; simp)⟩
    | none =>
      rw [mkpathFrom, Prog.bind_eq, eval_stat, hs] at hev
      dsimp only at hev
      rw [Prog.bind_eq, Prog.eval_bind] at hev
      obtain ⟨x, hx, -⟩ := Option.bind_eq_some_iff.1 hev
      obtain ⟨n, hn, hc⟩ := ih hx
      exact ⟨n + 1, Nat.succ_lt_succ hn, climbs_succ_iff.2 ⟨hs, hc⟩⟩

/-! ## The ends of `mkdir_as_needed` -/

/-- Where `mkpath` begins. -/
def begun (host : Host) (path : CString) : History :=
  [⟨.umask 0, host.umask⟩, ⟨.stat path, none⟩]

/-- Where `mkpath` ends, what comes after it decides. -/
theorem mkdirAsNeeded_made (hne : path ≠ []) (hs : host.stat 0 path = none)
    {r : History × Int}
    (hev : (mkpathFrom fuel path m).eval host.answer (begun host path) =
      some r) :
    (mkdirAsNeeded syncDir fuel (some path) m).eval host.answer [] =
      (mkdirMade syncDir path m host.umask r.2).eval host.answer r.1 := by
  have hlen : ¬ path.length = 0 := fun h => hne (List.length_eq_zero_iff.1 h)
  rw [mkdirAsNeeded, if_neg hlen, Prog.bind_eq, eval_stat,
    show host.stat ([] : History).length path = none from hs]
  exact (Prog.eval_step rfl).trans (Prog.eval_seq hev)

/-- It ends only after `mkpath` has. -/
theorem mkpath_of_eval (hne : path ≠ []) (hs : host.stat 0 path = none)
    {r : History × Int}
    (hev : (mkdirAsNeeded syncDir fuel (some path) m).eval host.answer [] =
      some r) :
    ∃ n < fuel, host.Climbs 2 path n := by
  have hlen : ¬ path.length = 0 := fun h => hne (List.length_eq_zero_iff.1 h)
  rw [mkdirAsNeeded, if_neg hlen, Prog.bind_eq, eval_stat,
    show host.stat ([] : History).length path = none from hs] at hev
  have hseq : ((mkpathFrom fuel path m).bind
      (mkdirMade syncDir path m host.umask)).eval host.answer
      (begun host path) = some r := hev
  rw [Prog.eval_bind] at hseq
  obtain ⟨x, hx, -⟩ := Option.bind_eq_some_iff.1 hseq
  exact climbs_of_eval hx

/-- After a `mkpath` that returned 0 the umask is put back. -/
theorem mkdirMade_zero : ∃ h', (mkdirMade syncDir path m host.umask 0).eval
      host.answer h = some (h', 0) ∧
    host.umaskAfter h' = host.umask ∧
    (WasDirectory path h' ↔ WasDirectory path h) := by
  rw [mkdirMade, if_neg (by decide)]
  cases syncDir with
  | false =>
    exact ⟨⟨.umask host.umask, host.umaskAfter h⟩ :: h, rfl, host.masked,
      Iff.rfl⟩
  | true =>
    exact ⟨⟨.syncContainingDir path, ()⟩ ::
      ⟨.umask host.umask, host.umaskAfter h⟩ :: h, rfl, host.masked, Iff.rfl⟩

theorem existing_dir {sb : Stat} {taken : Int} (h5 : taken < 0)
    (h : existing sb m taken = 0 ∨ existing sb m taken = 1 ∨
      existing sb m taken = 5) : sb.isDir = true := by
  unfold existing at h
  cases hd : sb.isDir with
  | true => rfl
  | false =>
    rw [if_pos hd] at h
    omega

/-- After one that failed it is left as it was, and what is returned is what
the last look at the path shows. -/
theorem mkdirMade_failed : ∃ h' ret,
    (mkdirMade syncDir path m host.umask (-1)).eval host.answer h =
      some (h', ret) ∧ host.umaskAfter h' = host.umaskAfter h ∧
    (ret = 0 ∨ ret = 1 ∨ ret = 5 → WasDirectory path h') := by
  rw [mkdirMade, if_pos (by decide), Prog.bind_eq, eval_stat]
  cases hs : host.stat h.length path with
  | none => exact ⟨_, -1, rfl, rfl, by omega⟩
  | some sb =>
    refine ⟨_, existing sb m (-4), rfl, rfl, fun hret => ?_⟩
    have hdir := existing_dir (by decide) hret
    simp [WasDirectory, shown, hdir]

/-! ## When it is clean -/

/-- A path that is there is not touched. -/
theorem mkdirAsNeeded_there (hne : path ≠ []) {sb : Stat}
    (hs : host.stat 0 path = some sb) :
    (mkdirAsNeeded syncDir fuel (some path) m).eval host.answer [] =
      some ([⟨.stat path, some sb⟩], existing sb m (-2)) := by
  have hlen : ¬ path.length = 0 := fun h => hne (List.length_eq_zero_iff.1 h)
  rw [mkdirAsNeeded, if_neg hlen, Prog.bind_eq, eval_stat,
    show host.stat ([] : History).length path = some sb from hs]
  rfl

theorem mkdirAsNeeded_nameless {path : Option CString}
    (hp : path = none ∨ path = some []) :
    (mkdirAsNeeded syncDir fuel path m).eval host.answer [] =
      some ([], -3) := by
  rcases hp with rfl | rfl <;> rfl

/-- What is asked of one run. -/
def Left (host : Host) (path : CString) (r : History × Int) : Prop :=
  host.umaskAfter r.1 = host.umask ∧
    (r.2 = 0 ∨ r.2 = 1 ∨ r.2 = 5 → WasDirectory path r.1)

theorem there_left (hne : path ≠ []) {sb : Stat}
    (hs : host.stat 0 path = some sb) :
    ∃ r, (mkdirAsNeeded syncDir fuel (some path) m).eval host.answer [] =
      some r ∧ Left host path r := by
  refine ⟨_, mkdirAsNeeded_there hne hs, rfl, fun hret => ?_⟩
  have hdir := existing_dir (by decide) hret
  simp [WasDirectory, shown, hdir]

/-- The path has come up in the meantime: 0 is returned, whatever it is. -/
theorem found_left_iff (hne : path ≠ []) (hs : host.stat 0 path = none)
    {sb : Stat} (hsb : host.stat 2 path = some sb) (hf : 0 < fuel) :
    ∃ r, (mkdirAsNeeded syncDir fuel (some path) m).eval host.answer [] =
      some r ∧ (Left host path r ↔ sb.isDir = true) := by
  obtain ⟨fuel, rfl⟩ : ∃ k, fuel = k + 1 := ⟨fuel - 1, by omega⟩
  have hev : (mkpathFrom (fuel + 1) path m).eval host.answer
      (begun host path) = some (⟨.stat path, some sb⟩ :: begun host path, 0) :=
    mkpathFrom_found hsb
  obtain ⟨h', hend, hmask, hdir⟩ := @mkdirMade_zero host syncDir m path
    (⟨.stat path, some sb⟩ :: begun host path)
  refine ⟨(h', 0), (mkdirAsNeeded_made hne hs hev).trans hend, ?_⟩
  have hshown : WasDirectory path (⟨.stat path, some sb⟩ :: begun host path) ↔
      sb.isDir = true := by
    simp [WasDirectory, shown]
  constructor
  · exact fun hl => hshown.1 (hdir.1 (hl.2 (Or.inl rfl)))
  · exact fun h => ⟨hmask, fun _ => hdir.2 (hshown.2 h)⟩

/-- The path was created, or the umask is lost. -/
theorem climbed_left_iff (hne : path ≠ []) (hs : host.stat 0 path = none)
    (hc : host.Climbs 2 path (n + 1)) (hf : n + 1 < fuel) :
    ∃ r, (mkdirAsNeeded syncDir fuel (some path) m).eval host.answer [] =
      some r ∧ (Left host path r ↔
        host.mkdir (2 * (n + 1) + 2) path m = true ∨ host.umask = 0) := by
  obtain ⟨h₁, hev, hlen, hmask₁⟩ := @mkpathFrom_missing host m path n fuel
    (begun host path) hc hf
  have htime : h₁.length = 2 * (n + 1) + 2 := by
    rw [hlen, begun, List.length_cons, List.length_cons, List.length_nil]
    omega
  rw [htime] at hev
  have hfrom := @mkdirAsNeeded_made host syncDir m path fuel hne hs _ hev
  cases hmade : host.mkdir (2 * (n + 1) + 2) path m with
  | true =>
    rw [hmade] at hfrom
    obtain ⟨h', hend, hmask, hdir⟩ := @mkdirMade_zero host syncDir m path
      (⟨.mkdir path m, true⟩ :: h₁)
    refine ⟨(h', 0), hfrom.trans hend, ?_⟩
    refine iff_of_true ⟨hmask, fun _ => hdir.2 ?_⟩ (Or.inl rfl)
    simp [WasDirectory, shown]
  | false =>
    rw [hmade] at hfrom
    obtain ⟨h', ret, hend, hmask, hdir⟩ := @mkdirMade_failed host syncDir m path
      (⟨.mkdir path m, false⟩ :: h₁)
    refine ⟨(h', ret), hfrom.trans hend, ?_⟩
    have hzero : host.umaskAfter h' = 0 := hmask.trans hmask₁
    constructor
    · exact fun hl => Or.inr (hl.1.symm.trans hzero)
    · exact fun h => ⟨hzero.trans (h.resolve_left (by simp)).symm, hdir⟩

/-- What a run leaves where the climb ends after `n` steps. -/
theorem missing_left_iff (hne : path ≠ []) (hs : host.stat 0 path = none)
    (hc : host.Climbs 2 path n) (hf : n < fuel) :
    ∃ r, (mkdirAsNeeded syncDir fuel (some path) m).eval host.answer [] =
      some r ∧ (Left host path r ↔
        (n = 0 → ∀ sb, host.stat 2 path = some sb → sb.isDir = true) ∧
        (n ≠ 0 → host.mkdir (2 * n + 2) path m = true ∨ host.umask = 0)) := by
  cases n with
  | zero =>
    obtain ⟨sb, hsb⟩ := Option.ne_none_iff_exists'.1 (climbs_zero_iff.1 hc)
    obtain ⟨r, hev, hleft⟩ := @found_left_iff host syncDir m path fuel hne hs
      sb hsb hf
    refine ⟨r, hev, hleft.trans ?_⟩
    simp [hsb]
  | succ n =>
    obtain ⟨r, hev, hleft⟩ := @climbed_left_iff host syncDir m path n fuel
      hne hs hc hf
    refine ⟨r, hev, hleft.trans ?_⟩
    simp

theorem left_of_clean (hc : Clean host syncDir (some path) m)
    {r : History × Int}
    (hev : (mkdirAsNeeded syncDir fuel (some path) m).eval host.answer [] =
      some r) : Left host path r := by
  refine ⟨hc.umask _ _ _ hev, fun hret => ?_⟩
  obtain ⟨p, hp, hdir⟩ := hc.truthful _ _ _ hev hret
  obtain rfl := Option.some.inj hp
  exact hdir

theorem clean_of_left
    (hend : ∃ fuel r, (mkdirAsNeeded syncDir fuel (some path) m).eval
      host.answer [] = some r)
    (hall : ∀ fuel r, (mkdirAsNeeded syncDir fuel (some path) m).eval
      host.answer [] = some r → Left host path r) :
    Clean host syncDir (some path) m where
  terminates := hend
  umask _ _ _ hev := (hall _ _ hev).1
  truthful _ _ _ hev hret := ⟨path, rfl, (hall _ _ hev).2 hret⟩

theorem missing_clean_iff (hne : path ≠ []) (hs : host.stat 0 path = none) :
    Clean host syncDir (some path) m ↔ host.Makes path m := by
  constructor
  · intro hclean
    obtain ⟨fuel, r, hev⟩ := hclean.terminates
    obtain ⟨n, hn, hc⟩ := mkpath_of_eval hne hs hev
    obtain ⟨r', hev', hleft⟩ := @missing_left_iff host syncDir m path n fuel
      hne hs hc hn
    exact ⟨n, hc, hleft.1 (left_of_clean hclean hev')⟩
  · rintro ⟨n, hc, hends⟩
    refine clean_of_left ⟨n + 1, ?_⟩ fun fuel r hev => ?_
    · obtain ⟨r, hev, -⟩ := @missing_left_iff host syncDir m path n (n + 1)
        hne hs hc (Nat.lt_succ_self n)
      exact ⟨r, hev⟩
    · obtain ⟨n', hn', hc'⟩ := mkpath_of_eval hne hs hev
      obtain rfl := hc.unique hc'
      obtain ⟨r', hev', hleft⟩ := @missing_left_iff host syncDir m path n
        fuel hne hs hc hn'
      obtain rfl := Option.some.inj (hev.symm.trans hev')
      exact hleft.2 hends

/-- For every path, mode and file system, however it changes meanwhile. -/
theorem clean_iff (host : Host) (syncDir : Bool) (path : Option CString)
    (m : Mode) : Clean host syncDir path m ↔ host.Ready path m := by
  by_cases hname : path = none ∨ path = some []
  · have hev (fuel : Nat) : (mkdirAsNeeded syncDir fuel path m).eval
        host.answer [] = some ([], -3) := mkdirAsNeeded_nameless hname
    refine iff_of_true ⟨⟨0, _, hev 0⟩, fun k h r hr => ?_, fun k h r hr => ?_⟩
      fun p hp hne => ?_
    · obtain ⟨rfl, -⟩ := Prod.mk.inj (Option.some.inj (hr.symm.trans (hev k)))
      rfl
    · obtain ⟨-, rfl⟩ := Prod.mk.inj (Option.some.inj (hr.symm.trans (hev k)))
      omega
    · rcases hname with rfl | rfl
      · cases hp
      · exact absurd (Option.some.inj hp).symm hne
  · obtain ⟨p, rfl⟩ : ∃ p, path = some p := by
      cases path with
      | none => exact absurd (Or.inl rfl) hname
      | some p => exact ⟨p, rfl⟩
    have hne : p ≠ [] := by
      rintro rfl
      exact hname (Or.inr rfl)
    cases hs : host.stat 0 p with
    | none =>
      rw [missing_clean_iff hne hs]
      constructor
      · intro h q hq _ _
        obtain rfl := Option.some.inj hq
        exact h
      · exact fun h => h p rfl hne hs
    | some sb =>
      refine iff_of_true (clean_of_left ?_ fun fuel r hev => ?_) ?_
      · obtain ⟨r, hev, -⟩ := @there_left host syncDir m p 0 hne sb hs
        exact ⟨0, r, hev⟩
      · obtain ⟨r', hev', hleft⟩ := @there_left host syncDir m p fuel hne sb
          hs
        obtain rfl := Option.some.inj (hev.symm.trans hev')
        exact hleft
      · intro q hq _ hnone
        obtain rfl := Option.some.inj hq
        rw [hs] at hnone
        cases hnone

/-- Someone else creates the directory between the two looks at it. -/
def overtaken : Host where
  stat k p :=
    if p = ['a', '/', 'b'] ∧ k < 5 then none else some ⟨true, 0o755⟩
  mkdir _ _ _ := false
  umask := 0o022
  masked := by decide

/-- The directory is there, with the mode that was asked for, and the process
is left with an empty umask. -/
theorem overtaken_umask :
    ¬ Clean overtaken false (some ['a', '/', 'b']) 0o755 := by
  intro h
  have hev : (mkdirAsNeeded false 2 (some ['a', '/', 'b']) 0o755).eval
      overtaken.answer [] = some ([⟨.stat ['a', '/', 'b'], some ⟨true, 0o755⟩⟩,
        ⟨.mkdir ['a', '/', 'b'] 0o755, false⟩, ⟨.stat ['a'], some ⟨true, 0o755⟩⟩,
        ⟨.stat ['a', '/', 'b'], none⟩, ⟨.umask 0, 0o022⟩,
        ⟨.stat ['a', '/', 'b'], none⟩], 1) := rfl
  exact absurd (h.umask _ _ _ hev) (by decide)

end Dyad.Dirs
