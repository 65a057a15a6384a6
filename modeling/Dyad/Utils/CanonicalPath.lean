import Dyad.Utils.Paths

/-!
# Whether a path is managed, and joining paths (`utils/utils.c`)

`cmp_canonical_path_prefix` looks for the managed directory in front of a path
twice, in the path as it is given and in its resolved form, and each time under
the two forms the context keeps of the directory. The forms are pointers: a
pass that comes to the comparison follows its own, and in a context without the
directory the length and the hash of both are zero, which is also the hash of
the first zero bytes of any path.

`concat_str` appends to the string in a buffer if the result fits the capacity,
and else leaves the buffer as it is and returns null. `realpath` is a
parameter.
-/

namespace Dyad

section

variable (hash : CString → UInt32 → UInt32)

/-- One comparison, with one form of the directory: the user path where there
is one, or `none` where a null pointer is followed. -/
def comparePrefix (form : Option CString) (len hashed : UInt32)
    (path : CString) (capacity : Nat) : Option (Option CString) :=
  if hashPathPrefix hash path dyadSeed len.toNat = hashed then
    form.map fun pfx => extractUserPath pfx path pathDelim capacity
  else some none

/-- The two comparisons made of one form of the path. -/
def comparePrefixes (m : ManagedPath) (path : CString) (capacity : Nat) :
    Option (Option CString) := do
  match ← comparePrefix hash m.managedPath m.managedLen m.managedHash path
      capacity with
  | some upath => return some upath
  | none =>
    if m.realLen > 0 then
      comparePrefix hash m.realPath m.realLen m.realHash path capacity
    else return none

/-- `cmp_canonical_path_prefix`, for the directory of the role it is asked
about: the user path it leaves in the buffer where it returns true, or `none`
where it follows a null pointer. -/
def cmpCanonicalPathPrefix (realpath : CString → Option CString)
    (m : ManagedPath) (path : CString) (capacity : Nat) :
    Option (Option CString) := do
  match ← comparePrefixes hash m path capacity with
  | some upath => return some upath
  | none =>
    match realpath path with
    | none => return none
    | some canPath => comparePrefixes hash m canPath capacity

end

/-! ## Joining -/

/-- `strncpy` into a buffer that is all zeros, one byte larger at least. -/
def strncpy (src : CString) (n : Nat) : CString := src.take n

/-- `concat_str` with a connector, over buffers that do not overlap: the string
in the buffer after it, where it does not return null. A connector the string
ends with is not repeated. -/
def concatStr (str toAppend connector : CString) (capacity : Nat) :
    Option CString :=
  let allLen := str.length + connector.length + toAppend.length
  if allLen + 1 > capacity then none
  else
    let conEnd := str.length ≥ connector.length ∧ connector <:+ str
    let strLen := if conEnd then str.length - connector.length else str.length
    some (str.take strLen ++ connector ++ toAppend)

/-- A path without the delimiters at its end. -/
def stripDelims (path : CString) : CString :=
  (path.reverse.dropWhile (· == '/')).reverse

/-- The directory that a path of nothing but delimiters names. Exactly two of
them are kept. -/
def rootDir (delims : CString) : CString :=
  if delims = ['/', '/'] then delims else ['/']

/-- `dirname`. -/
def dirname (path : CString) : CString :=
  if path = [] then ['.']
  else if stripDelims path = [] then rootDir path
  else
    -- the last component, and the delimiters in front of it
    let parent := ((stripDelims path).reverse.dropWhile (· != '/')).reverse
    if parent = [] then ['.']
    else if stripDelims parent = [] then rootDir parent
    else stripDelims parent

/-- The complete join of a directory and a user path. -/
def join (base upath : CString) : CString :=
  (if pathDelim <:+ base then base.dropLast else base) ++ pathDelim ++ upath

/-- The join fits a buffer of `PATH_MAX`, as `concat_str` counts its bytes. -/
def JoinFits (base upath : CString) : Prop :=
  base.length + 1 + upath.length + 1 ≤ pathMax

/-! ## What the functions come to -/

/-- The directory is set, as `dyad_set_prod_path` and `dyad_set_cons_path` leave
one: there is a resolved form where its length is not zero. -/
structure ManagedPath.Set (m : ManagedPath) : Prop where
  managed : m.managedPath ≠ none
  real : m.realLen > 0 → m.realPath ≠ none

theorem extractUserPath_length {pfx full delim u : CString} {capacity : Nat}
    (h : extractUserPath pfx full delim capacity = some u) :
    u.length + 1 ≤ capacity := by
  unfold extractUserPath at h
  split at h
  · cases h
  · split at h
    · cases h
    · dsimp only at h
      generalize (if pfx.length ≥ delim.length ∧ delim <:+ pfx
        then pfx.length - delim.length else pfx.length) = prefixLen at h
      split at h
      · cases h
      · split at h
        · cases h
        · split at h
          · cases h
          · next hfits =>
            obtain rfl := Option.some.inj h
            rw [List.length_drop]
            omega

section

variable {hash : CString → UInt32 → UInt32} {m : ManagedPath} {path : CString}
  {capacity : Nat} {realpath : CString → Option CString}

theorem comparePrefix_set {form : Option CString} {len hashed : UInt32}
    (h : form ≠ none) :
    ∃ o, comparePrefix hash form len hashed path capacity = some o ∧
      ∀ u ∈ o, u.length + 1 ≤ capacity := by
  obtain ⟨pfx, rfl⟩ := Option.ne_none_iff_exists'.1 h
  unfold comparePrefix
  split
  · exact ⟨_, rfl, fun u hu => extractUserPath_length hu⟩
  · exact ⟨none, rfl, nofun⟩

theorem comparePrefixes_set (h : m.Set) :
    ∃ o, comparePrefixes hash m path capacity = some o ∧
      ∀ u ∈ o, u.length + 1 ≤ capacity := by
  obtain ⟨o, ho, hlen⟩ : ∃ o, comparePrefix hash m.managedPath m.managedLen
      m.managedHash path capacity = some o ∧ ∀ u ∈ o, u.length + 1 ≤ capacity :=
    comparePrefix_set h.managed
  unfold comparePrefixes
  rw [ho]
  cases o with
  | some u => exact ⟨some u, rfl, hlen⟩
  | none =>
    dsimp only [Option.bind_eq_bind, Option.bind_some]
    split
    · next hreal => exact comparePrefix_set (h.real hreal)
    · exact ⟨none, rfl, nofun⟩

/-- With the directory set, no null pointer is followed, and what is found fits
the buffer. -/
theorem cmpCanonicalPathPrefix_set (h : m.Set) :
    ∃ o, cmpCanonicalPathPrefix hash realpath m path capacity = some o ∧
      ∀ u ∈ o, u.length + 1 ≤ capacity := by
  obtain ⟨o, ho, hlen⟩ : ∃ o, comparePrefixes hash m path capacity = some o ∧
      ∀ u ∈ o, u.length + 1 ≤ capacity := comparePrefixes_set h
  unfold cmpCanonicalPathPrefix
  rw [ho]
  cases o with
  | some u => exact ⟨some u, rfl, hlen⟩
  | none =>
    dsimp only [Option.bind_eq_bind, Option.bind_some]
    cases realpath path with
    | none => exact ⟨none, rfl, nofun⟩
    | some canPath => exact comparePrefixes_set h

/-- With the directory unset, a null pointer is always followed. -/
theorem cmpCanonicalPathPrefix_unset :
    cmpCanonicalPathPrefix hash realpath .unset path capacity = none := rfl

end

theorem concatStr_of_fits {base upath : CString} (h : JoinFits base upath) :
    concatStr base upath pathDelim pathMax = some (join base upath) := by
  unfold JoinFits at h
  have hlen : pathDelim.length = 1 := rfl
  unfold concatStr join
  rw [if_neg (by omega)]
  dsimp only
  split
  · next hend =>
    rw [if_pos hend.2, hlen, List.dropLast_eq_take]
  · next hend =>
    have hnot : ¬ pathDelim <:+ base := by
      intro hsuffix
      exact hend ⟨hsuffix.length_le, hsuffix⟩
    rw [if_neg hnot, List.take_length]

theorem concatStr_of_not_fits {base upath : CString}
    (h : ¬ JoinFits base upath) :
    concatStr (strncpy base (pathMax - 1)) upath pathDelim pathMax = none := by
  unfold JoinFits at h
  have hlen : pathDelim.length = 1 := rfl
  unfold concatStr strncpy
  rw [if_pos]
  rw [List.length_take, hlen]
  unfold pathMax at *
  omega

/-- A join that fits is of the whole of both. -/
theorem strncpy_of_fits {base upath : CString} (h : JoinFits base upath) :
    strncpy base (pathMax - 1) = base := by
  unfold JoinFits at h
  exact List.take_of_length_le (by omega)

end Dyad
