import Dyad.Proofs.BothSpellings
import Mathlib.Data.Set.Insert

/-!
# Names and the files they name

A system gives every path that leads somewhere the name of the file it leads
to, whether that file exists yet or not: the one spelling without `.`, `..`,
repeated delimiters or links. `cmp_canonical_path_prefix` is to recognise
exactly the names of the files under the managed directory, and to find the
same user path under all names of one file. It looks at the spelling of a path
before it resolves it, so both hangs on how a path is spelled.
-/

namespace Dyad

/-! ## What paths name -/

/-- What the paths of a system name. A name of a file names itself, exists where
any other name of the file does, and lies below the name of each directory that
it is spelled below. -/
structure Naming where
  names : CString → Option CString
  existing : CString → Bool
  names_ne : ∀ {path c}, names path = some c → c ≠ []
  names_self : ∀ {path c}, names path = some c → names c = some c
  existing_iff : ∀ {path c}, names path = some c → existing c = existing path
  names_dir : ∀ {dir u}, dir ≠ [] → u ≠ [] →
    names (join dir u) = some (join dir u) →
    ∃ r, names dir = some r ∧ join r u = join dir u

/-- `realpath`, into a buffer of `PATH_MAX`. -/
def Naming.realpath (N : Naming) (path : CString) : Option CString :=
  if N.existing path then (N.names path).filter (·.length < pathMax) else none

/-- The path names a file under the directory. -/
def Naming.Beneath (N : Naming) (dir path : CString) : Prop :=
  ∃ r c, N.names dir = some r ∧ N.names path = some c ∧ Below r c

/-- The paths in a set are recognised where they name a file under the directory,
and nowhere else, with one user path for each file. -/
structure Canonical (b : Build) (N : Naming) (m : ManagedPath) (p : CString)
    (S : Set CString) : Prop where
  recognised_iff : ∀ path ∈ S,
    (∃ u, Recognised b N.realpath m path u) ↔ N.Beneath p path
  agree : ∀ path ∈ S, ∀ path' ∈ S, ∀ c u u', N.names path = some c →
    N.names path' = some c → Recognised b N.realpath m path u →
    Recognised b N.realpath m path' u' → u = u'

/-- What is spelled below the directory, or the resolved form that is kept of
it, is spelled as the file is named; any other name of a file under it exists
and is not too long; and where there is such a file, the name of the directory
is how it is spelled, or is kept. -/
structure Plain (N : Naming) (p : CString) (real : Option CString)
    (path : CString) : Prop where
  spelled : ∀ u, spelling p real path = some u →
    ∃ r, N.names p = some r ∧ N.names path = some (join r u)
  resolved : ∀ r c, N.names p = some r → N.names path = some c → Below r c →
    spelling p real path = none → N.existing path = true ∧ c.length < pathMax
  kept : ∀ r c, N.names p = some r → N.names path = some c → Below r c →
    join p [] = join r [] ∨ real = some r

variable {N N₀ : Naming} {p r path c u : CString} {real : Option CString}

theorem realpath_eq_some : N.realpath path = some c ↔
    N.names path = some c ∧ N.existing path = true ∧ c.length < pathMax := by
  unfold Naming.realpath
  split
  · next h => simp [Option.filter_eq_some_iff, h]
  · next h => simp [h]

theorem join_nil_append (dir u : CString) : join dir u = join dir [] ++ u := by
  unfold join
  rw [List.append_nil]

theorem join_dirs (h : join p [] = join r []) (u : CString) :
    join p u = join r u := by
  rw [join_nil_append, h, ← join_nil_append]

theorem join_dirs_of (h : join p u = join r u) : join p [] = join r [] := by
  rw [join_nil_append p, join_nil_append r] at h
  exact List.append_cancel_right h

/-! ## The spelling of a name -/

theorem spelling_ne_nil (h : spelling p real path = some u) : u ≠ [] := by
  unfold spelling at h
  rcases Option.or_eq_some_iff.1 h with h | ⟨-, h⟩
  · exact (extract_eq_some.1 h).2.1
  · obtain ⟨r, -, h⟩ := Option.bind_eq_some_iff.1 h
    exact (extract_eq_some.1 h).2.1

/-- The name of a file is only spelled below the directory where the file is
under it. -/
theorem spelling_name (hreal : ∀ r, real = some r → N.names p = some r)
    (hpne : p ≠ []) (hc : N.names c = some c)
    (h : spelling p real c = some u) :
    ∃ r, N.names p = some r ∧ c = join r u := by
  unfold spelling at h
  rcases Option.or_eq_some_iff.1 h with h | ⟨-, h⟩
  · obtain ⟨hpath, hu, -⟩ := extract_eq_some.1 h
    rw [hpath] at hc
    obtain ⟨r, hr, heq⟩ := N.names_dir hpne hu hc
    exact ⟨r, hr, hpath.trans heq.symm⟩
  · obtain ⟨r, hr, h⟩ := Option.bind_eq_some_iff.1 h
    exact ⟨r, hreal r hr, (extract_eq_some.1 h).1⟩

/-- Where the name of the directory is kept, or is how it is spelled, the name
of a file under it is spelled below it. -/
theorem spelling_of_kept (hkept : join p [] = join r [] ∨ real = some r)
    (hu : u ≠ []) (hlen : (join r u).length ≤ pathMax) :
    spelling p real (join r u) ≠ none := by
  intro hnone
  unfold spelling at hnone
  obtain ⟨hfirst, hsecond⟩ := Option.or_eq_none_iff.1 hnone
  rcases hkept with heq | rfl
  · rw [← join_dirs heq u] at hfirst hlen
    rw [extract_join hu hlen] at hfirst
    cases hfirst
  · rw [Option.bind_some, extract_join hu hlen] at hsecond
    cases hsecond

theorem kept_of_spelling (hreal : ∀ r, real = some r → N.names p = some r)
    (hpne : p ≠ []) (hp : N.names p = some r) (hc : N.names c = some c)
    (h : spelling p real c = some u) :
    join p [] = join r [] ∨ real = some r := by
  obtain ⟨r', hr', hname⟩ := spelling_name hreal hpne hc h
  obtain rfl := Option.some.inj (hp.symm.trans hr')
  unfold spelling at h
  rcases Option.or_eq_some_iff.1 h with h | ⟨-, h⟩
  · exact Or.inl (join_dirs_of ((extract_eq_some.1 h).1.symm.trans hname))
  · obtain ⟨r', hr', -⟩ := Option.bind_eq_some_iff.1 h
    obtain rfl := Option.some.inj (hp.symm.trans (hreal r' hr'))
    exact Or.inr hr'

/-! ## Recognition -/

/-- What is kept of a directory when it is set is its name then. -/
theorem storedReal_names (h : storedReal N₀.realpath p = some r) :
    N₀.names p = some r :=
  (realpath_eq_some.1 (Option.filter_eq_some_iff.1 h).1).1

section

variable {b : Build} {host : PathHost} {m : ManagedPath} {S : Set CString}
  (hset : setManagedPath b N₀.realpath host (some p) = (.ok, m))

include hset

theorem recognised_of_spelling
    (h : spelling p (storedReal N₀.realpath p) path = some u) :
    Recognised b N.realpath m path u :=
  (recognised_iff hset).2 (Or.inl h)

theorem ne_nil_of_recognised (h : Recognised b N.realpath m path u) :
    u ≠ [] := by
  rcases (recognised_iff hset).1 h with hs | ⟨-, c, -, hs⟩
  · exact spelling_ne_nil hs
  · exact spelling_ne_nil hs

variable (hreal : ∀ r, storedReal N₀.realpath p = some r → N.names p = some r)
  (hpne : p ≠ [])

include hreal hpne

/-- Where all paths are plain, what is recognised is the file's place under the
directory. -/
theorem names_of_recognised
    (hplain : Plain N p (storedReal N₀.realpath p) path)
    (h : Recognised b N.realpath m path u) :
    ∃ r, N.names p = some r ∧ N.names path = some (join r u) := by
  rcases (recognised_iff hset).1 h with hs | ⟨-, c, hc, hs⟩
  · exact hplain.spelled u hs
  · obtain ⟨hname, -, -⟩ := realpath_eq_some.1 hc
    obtain ⟨r, hr, rfl⟩ := spelling_name hreal hpne (N.names_self hname) hs
    exact ⟨r, hr, hname⟩

omit hreal hpne in
/-- Every name of a file under the directory is recognised where all paths are
plain. -/
theorem recognised_of_beneath
    (hplain : Plain N p (storedReal N₀.realpath p) path)
    (h : N.Beneath p path) : ∃ u, Recognised b N.realpath m path u := by
  obtain ⟨r, c, hr, hc, hbelow⟩ := h
  cases hs : spelling p (storedReal N₀.realpath p) path with
  | some u => exact ⟨u, recognised_of_spelling hset hs⟩
  | none =>
    obtain ⟨hexists, hlen⟩ := hplain.resolved r c hr hc hbelow hs
    have hkept := hplain.kept r c hr hc hbelow
    obtain ⟨u, hu, rfl⟩ := hbelow
    obtain ⟨v, hv⟩ := Option.ne_none_iff_exists'.1
      (spelling_of_kept hkept hu (Nat.le_of_lt hlen))
    exact ⟨v, (recognised_iff hset).2
      (Or.inr ⟨hs, _, realpath_eq_some.2 ⟨hc, hexists, hlen⟩, hv⟩)⟩

/-- Recognised by its spelling, if the name of the file is in the set and is
recognised at all. -/
theorem spelling_of_canonical (hcan : Canonical b N m p S)
    (hp : N.names p = some r) (hmem : c ∈ S) (hc : N.names c = some c)
    (hbelow : Below r c) :
    ∃ u, spelling p (storedReal N₀.realpath p) c = some u ∧ c = join r u := by
  obtain ⟨u, hu⟩ := (hcan.recognised_iff c hmem).2 ⟨r, c, hp, hc, hbelow⟩
  have hs : spelling p (storedReal N₀.realpath p) c = some u := by
    rcases (recognised_iff hset).1 hu with hs | ⟨-, c', hc', hs⟩
    · exact hs
    · have hname := (realpath_eq_some.1 hc').1
      rw [hc] at hname
      rwa [← Option.some.inj hname] at hs
  obtain ⟨r', hr', heq⟩ := spelling_name hreal hpne hc hs
  obtain rfl := Option.some.inj (hp.symm.trans hr')
  exact ⟨u, hs, heq⟩

end

/-- In a set with the name of every file that a path in it names, recognition
is canonical exactly where all paths are plain. The directory was set in a
system where it may not have existed yet, but leads where it leads now. -/
theorem canonical_iff_plain (b : Build) (N N₀ : Naming) (host : PathHost)
    (p : CString) (m : ManagedPath) (S : Set CString)
    (hset : setManagedPath b N₀.realpath host (some p) = (.ok, m))
    (hsame : N₀.names p = N.names p)
    (hS : ∀ path ∈ S, ∀ c, N.names path = some c → c ∈ S) :
    Canonical b N m p S ↔
      ∀ path ∈ S, Plain N p (storedReal N₀.realpath p) path := by
  have hpne : p ≠ [] := (setManagedPath_eq_ok.1 hset).1 p rfl |>.1
  have hreal : ∀ r, storedReal N₀.realpath p = some r → N.names p = some r :=
    fun r h => hsame.symm.trans (storedReal_names h)
  constructor
  · intro hcan
    refine fun path hmem => ⟨fun u hs => ?_, fun r c hr hc hbelow hs => ?_,
      fun r c hr hc hbelow => ?_⟩
    · -- the name of the file is recognised too, so with the same user path
      have hu := recognised_of_spelling (N := N) hset hs
      obtain ⟨r, c, hr, hc, hbelow⟩ := (hcan.recognised_iff path hmem).1 ⟨u, hu⟩
      obtain ⟨v, hv, heq⟩ := spelling_of_canonical hset hreal hpne hcan hr
        (hS path hmem c hc) (N.names_self hc) hbelow
      have huv := hcan.agree path hmem c (hS path hmem c hc) c u v hc
        (N.names_self hc) hu (recognised_of_spelling hset hv)
      exact ⟨r, hr, by rw [hc, huv, ← heq]⟩
    · obtain ⟨u, hu⟩ := (hcan.recognised_iff path hmem).2
        ⟨r, c, hr, hc, hbelow⟩
      rcases (recognised_iff hset).1 hu with hs' | ⟨-, c', hc', -⟩
      · rw [hs] at hs'
        cases hs'
      · obtain ⟨hname, hexists, hlen⟩ := realpath_eq_some.1 hc'
        rw [hc] at hname
        obtain rfl := Option.some.inj hname
        exact ⟨hexists, hlen⟩
    · obtain ⟨v, hv, -⟩ := spelling_of_canonical hset hreal hpne hcan hr
        (hS path hmem c hc) (N.names_self hc) hbelow
      exact kept_of_spelling hreal hpne hr (N.names_self hc) hv
  · intro hplain
    refine ⟨fun path hmem => ⟨?_, ?_⟩, ?_⟩
    · rintro ⟨u, hu⟩
      obtain ⟨r, hr, hname⟩ :=
        names_of_recognised hset hreal hpne (hplain path hmem) hu
      exact ⟨r, _, hr, hname, u, ne_nil_of_recognised hset hu, rfl⟩
    · exact recognised_of_beneath hset (hplain path hmem)
    · intro path hmem path' hmem' c u u' hc hc' hu hu'
      obtain ⟨r, hr, h⟩ :=
        names_of_recognised hset hreal hpne (hplain path hmem) hu
      obtain ⟨r', hr', h'⟩ :=
        names_of_recognised hset hreal hpne (hplain path' hmem') hu'
      obtain rfl := Option.some.inj (hr.symm.trans hr')
      rw [hc] at h
      rw [hc'] at h'
      exact join_inj (Option.some.inj (h.symm.trans h'))

/-! ## A directory with one file -/

/-- A system with the directory `/p`, a file in it and a file beside it, and a
link `/l` to the directory. -/
def smallNames : CString → Option CString
  | ['/'] => some ['/']
  | ['/', 'p'] => some ['/', 'p']
  | ['/', 'p', '/'] => some ['/', 'p']
  | ['/', 'p', '/', 'f'] => some ['/', 'p', '/', 'f']
  | ['/', 'l'] => some ['/', 'p']
  | ['/', 'l', '/', 'f'] => some ['/', 'p', '/', 'f']
  | ['/', 'x'] => some ['/', 'x']
  | ['/', 'p', '/', '.', '.', '/', 'x'] => some ['/', 'x']
  | _ => none

/-- The files that are named by themselves. -/
theorem smallNames_self {c : CString} (h : smallNames c = some c) :
    c = ['/'] ∨ c = ['/', 'p'] ∨ c = ['/', 'p', '/', 'f'] ∨ c = ['/', 'x'] := by
  unfold smallNames at h
  split at h <;> simp_all

/-- A path below a directory is that of the directory, which may have a
delimiter at its end, a delimiter and the rest. -/
theorem join_split (dir u : CString) :
    ∃ base, join dir u = base ++ '/' :: u ∧
      (dir = base ∨ dir = base ++ ['/']) := by
  unfold join
  split
  · next h =>
    obtain ⟨base, rfl⟩ := h
    exact ⟨base, by simp [pathDelim], Or.inr rfl⟩
  · exact ⟨dir, by simp [pathDelim], Or.inl rfl⟩

theorem smallNames_dir {dir u : CString} (hdir : dir ≠ []) (hu : u ≠ [])
    (h : smallNames (join dir u) = some (join dir u)) :
    ∃ r, smallNames dir = some r ∧ join r u = join dir u := by
  obtain ⟨base, hjoin, hbase⟩ := join_split dir u
  rw [hjoin] at h ⊢
  rcases smallNames_self h with hc | hc | hc | hc
  all_goals
    rcases base with _ | ⟨a, _ | ⟨b, _ | ⟨c, _ | ⟨d, base⟩⟩⟩⟩ <;>
    simp_all <;>
    rcases hbase with rfl | rfl <;>
    first
      | contradiction
      | exact ⟨_, rfl, by decide⟩

/-- All of it, or none of it, is there. -/
def smallSystem (there : Bool) : Naming where
  names := smallNames
  existing path := there && (smallNames path).isSome
  names_ne := by
    rintro path c h rfl
    unfold smallNames at h
    split at h <;> simp_all
  names_self := by
    intro path c h
    unfold smallNames at h
    split at h <;> cases h <;> rfl
  existing_iff := by
    intro path c h
    rw [h]
    unfold smallNames at h
    split at h <;> cases h <;> rfl
  names_dir := smallNames_dir

/-- The file in the directory is recognised canonically under its name and
under `/l/f`, though the directory was set before it was created. -/
theorem small_plain :
    Canonical .fluxOnly (smallSystem true)
      (storedPath .fluxOnly (smallSystem false).realpath (some ['/', 'p']))
      ['/', 'p'] {['/', 'p', '/', 'f'], ['/', 'l', '/', 'f']} := by
  refine (canonical_iff_plain .fluxOnly (smallSystem true) (smallSystem false)
    ⟨true, true⟩ ['/', 'p'] _ _ rfl rfl ?_).2 ?_
  · rintro path (rfl | rfl) c hc <;> cases hc <;> exact Or.inl rfl
  · rintro path (rfl | rfl)
    · refine ⟨fun u hu => ?_, fun r c _ _ _ hs => ?_, fun r c hr _ _ => ?_⟩
      · cases hu
        exact ⟨['/', 'p'], rfl, rfl⟩
      · cases hs
      · cases hr
        exact Or.inl rfl
    · refine ⟨fun u hu => ?_, fun r c hr hc _ _ => ?_, fun r c hr _ _ => ?_⟩
      · cases hu
      · cases hc
        exact ⟨rfl, by decide⟩
      · cases hr
        exact Or.inl rfl

/-- The name `/p/../x` of a file beside the directory is recognised, with the
user path `../x`. -/
theorem dots_recognised :
    setManagedPath .fluxOnly (smallSystem true).realpath ⟨true, true⟩ (some ['/', 'p']) =
      (.ok, storedPath .fluxOnly (smallSystem true).realpath (some ['/', 'p'])) ∧
    ¬ (smallSystem true).Beneath ['/', 'p'] ['/', 'p', '/', '.', '.', '/', 'x'] ∧
    ¬ Canonical .fluxOnly (smallSystem true)
      (storedPath .fluxOnly (smallSystem true).realpath (some ['/', 'p'])) ['/', 'p']
      Set.univ := by
  have hnot : ¬ (smallSystem true).Beneath ['/', 'p'] ['/', 'p', '/', '.', '.', '/', 'x'] := by
    rintro ⟨r, c, hr, hc, u, -, hu⟩
    cases hr
    cases hc
    exact absurd (List.cons.inj (List.cons.inj hu).2).1 (by decide)
  refine ⟨rfl, hnot, fun hcan => hnot ?_⟩
  refine (hcan.recognised_iff _ (Set.mem_univ _)).1 ⟨['.', '.', '/', 'x'], ?_⟩
  unfold Recognised
  decide

end Dyad
