import Dyad.Proofs.HashFilter
import Dyad.Utils.PathBuffer

/-!
# The two spellings of a managed directory

A managed directory `p` may resolve to another path `r`, and a file below it
may come under either name. `dyad_set_prod_path` and `dyad_set_cons_path` keep
`r` unless `p` is a string prefix of it, and each comparison is first made with
`p`. So a file's name under `r` can be lost, where `p` is a prefix of `r`, or
be taken for the name of another, where it happens to lie below `p`. A name
that is too long to be compared is found under the other, if `realpath` still
resolves it to that.
-/

namespace Dyad

variable {p r u path : CString} {realpath₀ realpath : CString → Option CString}
  {b : Build}

/-- The path is found to be that of `u`. -/
def Recognised (b : Build) (realpath : CString → Option CString)
    (m : ManagedPath) (path u : CString) : Prop :=
  cmpCanonicalPathPrefix b.hash realpath m path pathMax = some (some u)

/-- The path is that of some file under the directory. -/
def Below (dir path : CString) : Prop := ∃ u, u ≠ [] ∧ path = join dir u

/-- The user path that a path is spelled with, below the directory `p` or the
resolved form that is kept of it. -/
def spelling (p : CString) (real : Option CString) (path : CString) :
    Option CString :=
  (extractUserPath p path pathDelim pathMax).or
    (real.bind fun r => extractUserPath r path pathDelim pathMax)

/-- The name of the file under `r` is recognised as it is spelled: it is short
enough and does not lie below `p`, and `p` is no string prefix of `r`. -/
structure OwnSpelling (p r u : CString) : Prop where
  short : (join r u).length ≤ pathMax
  apart : ¬ Below p (join r u)
  kept : ¬ p <+: r

/-- Both names of the file lead to its user path: each as it is spelled, or, too
long or not spelled below either form, as the other name, which it resolves
to. -/
structure BothFound (realpath : CString → Option CString) (p r u : CString) :
    Prop where
  managed : (join p u).length ≤ pathMax ∨
    realpath (join p u) = some (join r u) ∧ OwnSpelling p r u
  real : (join r u = join p u ∧ (join p u).length ≤ pathMax ∨
      OwnSpelling p r u) ∨
    realpath (join r u) = some (join p u) ∧ (join p u).length ≤ pathMax ∧
      ((join r u).length ≤ pathMax → ¬ Below p (join r u))

theorem join_eq_joinWith (dir u : CString) :
    join dir u = joinWith pathDelim dir u := by
  unfold join joinWith
  rw [List.dropLast_eq_take]
  rfl

theorem join_inj {dir u v : CString} (h : join dir u = join dir v) : u = v :=
  List.append_cancel_left h

/-- A comparison finds exactly the files below the directory, by their user
path. -/
theorem extract_eq_some {dir : CString} :
    extractUserPath dir path pathDelim pathMax = some u ↔
      path = join dir u ∧ u ≠ [] ∧ path.length ≤ pathMax := by
  have hdelim : pathDelim ≠ [] := by decide
  rw [extractUserPath_eq_some hdelim, join_eq_joinWith]
  constructor
  · rintro ⟨hpath, hne, -, hmax⟩
    exact ⟨hpath, hne, hmax⟩
  · rintro ⟨hpath, hne, hmax⟩
    refine ⟨hpath, hne, ?_, hmax⟩
    rw [hpath, joinWith_length] at hmax
    have hlen : pathDelim.length = 1 := rfl
    split at hmax
    · next hend =>
      have := hend.length_le
      omega
    · omega

theorem extract_join {dir : CString} (hne : u ≠ [])
    (hmax : (join dir u).length ≤ pathMax) :
    extractUserPath dir (join dir u) pathDelim pathMax = some u :=
  extract_eq_some.2 ⟨rfl, hne, hmax⟩

theorem extract_eq_none {dir : CString} (h : ¬ Below dir path) :
    extractUserPath dir path pathDelim pathMax = none := by
  rw [Option.eq_none_iff_forall_ne_some]
  intro u hu
  obtain ⟨hpath, hne, -⟩ := extract_eq_some.1 hu
  exact h ⟨u, hne, hpath⟩

theorem below_join {dir : CString} (hne : u ≠ []) : Below dir (join dir u) :=
  ⟨u, hne, rfl⟩

/-- No name that is too long is found. -/
theorem extract_long {dir : CString} (h : pathMax < path.length) :
    extractUserPath dir path pathDelim pathMax = none := by
  rw [Option.eq_none_iff_forall_ne_some]
  intro u hu
  have := (extract_eq_some.1 hu).2.2
  omega

theorem length_le_of_extract {dir : CString}
    (h : extractUserPath dir path pathDelim pathMax = some u) :
    dir.length ≤ pathMax := by
  obtain ⟨hpath, -, hmax⟩ := extract_eq_some.1 h
  rw [hpath, join_eq_joinWith] at hmax
  exact Nat.le_trans prefix_joinWith.length_le hmax

/-! ## What is stored of the directory -/

theorem storedReal_ne (h : storedReal realpath₀ p = some r) : r ≠ [] := by
  unfold storedReal at h
  have := (Option.filter_eq_some_iff.1 h).2
  rintro rfl
  simp at this

theorem storedReal_eq (hr : realpath₀ p = some r) (hne : r ≠ []) :
    storedReal realpath₀ p = if p <+: r then none else some r := by
  have hlen : r.length ≠ 0 := fun h => hne (List.length_eq_zero_iff.1 h)
  rw [storedReal, hr, Option.filter_some]
  by_cases h : p <+: r <;> simp [h, hlen]

/-- The two comparisons of one form of a path. -/
theorem comparePrefixesPlain_stored :
    comparePrefixesPlain (storedPath b realpath₀ (some p)) path pathMax =
      some (spelling p (storedReal realpath₀ p) path) := by
  have hmanaged : (storedPath b realpath₀ (some p)).managedPath = some p := rfl
  have hform : (storedPath b realpath₀ (some p)).realPath =
      storedReal realpath₀ p := rfl
  have hlen : (storedPath b realpath₀ (some p)).realLen =
      (storedReal realpath₀ p).elim 0 fun r => UInt32.ofNat r.length := rfl
  unfold comparePrefixesPlain comparePrefixPlain spelling
  rw [hform, hmanaged, Option.map_some]
  dsimp only [Option.bind_eq_bind, Option.bind_some]
  cases extractUserPath p path pathDelim pathMax with
  | some v => rfl
  | none =>
    rw [Option.none_or]
    cases hreal : storedReal realpath₀ p with
    | none =>
      rw [hreal, Option.elim_none] at hlen
      rw [if_neg (by rw [hlen]; decide)]
      rfl
    | some r =>
      rw [hreal, Option.elim_some] at hlen
      rw [Option.bind_some, Option.map_some]
      by_cases hpos : UInt32.ofNat r.length > 0
      · rw [if_pos (by rwa [hlen])]
      · rw [if_neg (by rwa [hlen])]
        -- a length of zero in 32 bits is that of no path that is found
        cases hext : extractUserPath r path pathDelim pathMax with
        | none => rfl
        | some v =>
          have hle := length_le_of_extract hext
          have hne : 0 < r.length := List.length_pos_iff.2 (storedReal_ne hreal)
          refine absurd ?_ hpos
          rw [gt_iff_lt, UInt32.lt_iff_toNat_lt,
            UInt32.toNat_ofNat_of_lt' (Nat.lt_of_le_of_lt hle (by decide))]
          exact hne

/-- What is asked of a path that comes to the context. -/
theorem recognised_iff {host : PathHost} {m : ManagedPath}
    (hset : setManagedPath b realpath₀ host (some p) = (.ok, m)) :
    Recognised b realpath m path u ↔
      spelling p (storedReal realpath₀ p) path = some u ∨
        spelling p (storedReal realpath₀ p) path = none ∧
          ∃ c, realpath path = some c ∧
            spelling p (storedReal realpath₀ p) c = some u := by
  obtain ⟨hmanaged, hreal⟩ := setManagedPath_kept hset
  obtain ⟨-, hm⟩ := setManagedPath_eq_ok.1 hset
  unfold Recognised
  rw [cmp_eq_plain hmanaged hreal, hm]
  unfold cmpCanonicalPathPrefixPlain
  rw [comparePrefixesPlain_stored]
  dsimp only [Option.bind_eq_bind, Option.bind_some]
  cases spelling p (storedReal realpath₀ p) path with
  | some v => simp
  | none =>
    cases realpath path with
    | none => simp
    | some c =>
      dsimp only
      rw [comparePrefixesPlain_stored]
      simp

/-! ## Both spellings -/

/-- The resolved form of `p`, where that is `r`, is kept if `p` is no string
prefix of it. -/
def keptReal (p r : CString) : Option CString :=
  if p <+: r then none else some r

/-- A path is spelled below `p`, or, where it is not, below the resolved form
that is kept. -/
theorem spelling_eq_some (hu : u ≠ []) :
    spelling p (keptReal p r) path = some u ↔ path.length ≤ pathMax ∧
      (path = join p u ∨
        ¬ Below p path ∧ ¬ p <+: r ∧ path = join r u) := by
  by_cases hmax : path.length ≤ pathMax
  · unfold spelling keptReal
    rw [and_iff_right hmax]
    by_cases hbelow : Below p path
    · obtain ⟨v, hv, rfl⟩ := hbelow
      rw [extract_join hv hmax, Option.some_or, Option.some_inj]
      constructor
      · rintro rfl
        exact Or.inl rfl
      · rintro (h | h)
        · exact join_inj h
        · exact absurd (below_join hv) h.1
    · have hneq : path ≠ join p u := fun h => hbelow ⟨u, hu, h⟩
      rw [extract_eq_none hbelow, Option.none_or]
      by_cases hpre : p <+: r
      · simp [hpre, hneq]
      · rw [if_neg hpre, Option.bind_some, extract_eq_some]
        simp [hpre, hneq, hbelow, hu, hmax]
  · rw [iff_false_right fun h => hmax h.1]
    unfold spelling keptReal
    rw [extract_long (by omega), Option.none_or]
    split
    · simp
    · rw [Option.bind_some, extract_long (by omega)]
      exact nofun

/-- What is too long has no spelling. -/
theorem spelling_long (h : ¬ path.length ≤ pathMax) :
    spelling p (keptReal p r) path = none := by
  rw [Option.eq_none_iff_forall_ne_some]
  intro v hv
  unfold spelling at hv
  rcases Option.or_eq_some_iff.1 hv with hv | ⟨-, hv⟩
  · exact h (extract_eq_some.1 hv).2.2
  · obtain ⟨r', -, hv⟩ := Option.bind_eq_some_iff.1 hv
    exact h (extract_eq_some.1 hv).2.2

/-- What lies below neither form has none either. -/
theorem spelling_dropped (hbelow : ¬ Below p path) (hpre : p <+: r) :
    spelling p (keptReal p r) path = none := by
  unfold spelling keptReal
  rw [extract_eq_none hbelow, if_pos hpre]
  rfl

section

variable {host : PathHost} {m : ManagedPath}
  (hset : setManagedPath b realpath₀ host (some p) = (.ok, m))
  (hr : realpath₀ p = some r) (hne : r ≠ []) (hu : u ≠ [])

include hset hr hne hu

/-- When a name under `p` is found. -/
theorem recognised_managed_iff :
    Recognised b realpath m (join p u) u ↔ (join p u).length ≤ pathMax ∨
      realpath (join p u) = some (join r u) ∧ OwnSpelling p r u := by
  rw [recognised_iff hset, storedReal_eq hr hne]
  change spelling p (keptReal p r) _ = _ ∨ spelling p (keptReal p r) _ = _ ∧ _ ↔ _
  by_cases hmax : (join p u).length ≤ pathMax
  · exact iff_of_true (Or.inl ((spelling_eq_some hu).2 ⟨hmax, Or.inl rfl⟩))
      (Or.inl hmax)
  · rw [spelling_long hmax, or_iff_right nofun, or_iff_right hmax,
      and_iff_right rfl]
    constructor
    · rintro ⟨c, hc, hs⟩
      obtain ⟨hlen, rfl | ⟨hbelow, hpre, rfl⟩⟩ := (spelling_eq_some hu).1 hs
      · exact absurd hlen hmax
      · exact ⟨hc, hlen, hbelow, hpre⟩
    · rintro ⟨hc, hown⟩
      exact ⟨_, hc, (spelling_eq_some hu).2
        ⟨hown.short, Or.inr ⟨hown.apart, hown.kept, rfl⟩⟩⟩

/-- When a name under `r` is found. -/
theorem recognised_real_iff :
    Recognised b realpath m (join r u) u ↔
      (join r u = join p u ∧ (join p u).length ≤ pathMax ∨
        OwnSpelling p r u) ∨
      realpath (join r u) = some (join p u) ∧ (join p u).length ≤ pathMax ∧
        ((join r u).length ≤ pathMax → ¬ Below p (join r u)) := by
  rw [recognised_iff hset, storedReal_eq hr hne]
  change spelling p (keptReal p r) _ = _ ∨ spelling p (keptReal p r) _ = _ ∧ _ ↔ _
  have hown : spelling p (keptReal p r) (join r u) = some u ↔
      join r u = join p u ∧ (join p u).length ≤ pathMax ∨
        OwnSpelling p r u := by
    rw [spelling_eq_some hu]
    constructor
    · rintro ⟨hlen, heq | ⟨hbelow, hpre, -⟩⟩
      · exact Or.inl ⟨heq, heq ▸ hlen⟩
      · exact Or.inr ⟨hlen, hbelow, hpre⟩
    · rintro (⟨heq, hlen⟩ | hown)
      · exact ⟨heq ▸ hlen, Or.inl heq⟩
      · exact ⟨hown.short, Or.inr ⟨hown.apart, hown.kept, rfl⟩⟩
  rw [hown]
  constructor
  · rintro (h | ⟨hnone, c, hc, hs⟩)
    · exact Or.inl h
    have hapart : (join r u).length ≤ pathMax → ¬ Below p (join r u) := by
      rintro hlen ⟨v, hv, heq⟩
      rw [(spelling_eq_some hv).2 ⟨hlen, Or.inl heq⟩] at hnone
      cases hnone
    obtain ⟨hlen, rfl | ⟨hbelow, hpre, rfl⟩⟩ := (spelling_eq_some hu).1 hs
    · exact Or.inr ⟨hc, hlen, hapart⟩
    · exact Or.inl (Or.inr ⟨hlen, hbelow, hpre⟩)
  · rintro (h | ⟨hc, hlen, hapart⟩)
    · exact Or.inl h
    by_cases hmax : (join r u).length ≤ pathMax
    · by_cases hpre : p <+: r
      · exact Or.inr ⟨spelling_dropped (hapart hmax) hpre, _, hc,
          (spelling_eq_some hu).2 ⟨hlen, Or.inl rfl⟩⟩
      · exact Or.inl (Or.inr ⟨hmax, hapart hmax, hpre⟩)
    · exact Or.inr ⟨spelling_long hmax, _, hc,
        (spelling_eq_some hu).2 ⟨hlen, Or.inl rfl⟩⟩

end

/-- For every directory that is accepted and resolves to a path of another
spelling, and every user path: both names of the file are recognised with that
user path exactly where they are found. -/
theorem both_spellings_iff (b : Build)
    (realpath₀ realpath : CString → Option CString) (host : PathHost)
    (p r u : CString) (m : ManagedPath)
    (hset : setManagedPath b realpath₀ host (some p) = (.ok, m))
    (hr : realpath₀ p = some r) (hne : r ≠ []) (hu : u ≠ []) :
    Recognised b realpath m (join p u) u ∧ Recognised b realpath m (join r u) u ↔
      BothFound realpath p r u := by
  rw [recognised_managed_iff hset hr hne hu,
    recognised_real_iff hset hr hne hu]
  exact ⟨fun h => ⟨h.1, h.2⟩, fun h => ⟨h.managed, h.real⟩⟩

/-! ## Two directories that share the start of their names -/

/-- A system where `/d` is a link to `/e`, and `/a` a link to `/ab`. -/
def linked : CString → Option CString
  | ['/', 'd'] => some ['/', 'e']
  | ['/', 'a'] => some ['/', 'a', 'b']
  | ['/', 'a', 'b', '/', 'f'] => some ['/', 'a', 'b', '/', 'f']
  | _ => none

/-- Under `/d` and `/e` a file is found by both its names. -/
theorem linked_found :
    Recognised .fluxOnly linked (storedPath .fluxOnly linked (some ['/', 'd']))
      (join ['/', 'd'] ['f']) ['f'] ∧
    Recognised .fluxOnly linked (storedPath .fluxOnly linked (some ['/', 'd']))
      (join ['/', 'e'] ['f']) ['f'] :=
  (both_spellings_iff .fluxOnly linked linked ⟨true, true⟩ ['/', 'd'] ['/', 'e']
    ['f'] _ rfl rfl nofun nofun).2
    ⟨Or.inl (by decide), Or.inl (Or.inr ⟨by decide, by
      rintro ⟨v, -, hv⟩
      exact absurd (List.cons.inj (List.cons.inj hv).2).1 (by decide),
      by decide⟩)⟩

/-- `/ab` is not kept for the managed path `/a`, so the file `/ab/f` is not
found below it. -/
theorem shared_start_lost :
    setManagedPath .fluxOnly linked ⟨true, true⟩ (some ['/', 'a']) =
      (.ok, storedPath .fluxOnly linked (some ['/', 'a'])) ∧
    linked ['/', 'a'] = some ['/', 'a', 'b'] ∧
    ¬ Recognised .fluxOnly linked (storedPath .fluxOnly linked (some ['/', 'a']))
      (join ['/', 'a', 'b'] ['f']) ['f'] :=
  ⟨rfl, rfl, by unfold Recognised; decide⟩

end Dyad
