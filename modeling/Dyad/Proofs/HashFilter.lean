import Dyad.Proofs.SetUp
import Dyad.Utils.CanonicalPath

/-!
# The hash in front of a comparison

`cmp_canonical_path_prefix` compares a path with a prefix only where the hash
of the path's first bytes is the hash kept of the prefix. A path the prefix is
in front of has the same first bytes, as many as the length kept says, so the
hash never keeps a comparison from succeeding. The lengths are kept in 32 bits;
a prefix they cannot hold is longer than any `extract_user_path` accepts.
-/

namespace Dyad

/-! ## Without the hashes -/

/-- One comparison, whatever the hash. -/
def comparePrefixPlain (form : Option CString) (path : CString)
    (capacity : Nat) : Option (Option CString) :=
  form.map fun pfx => extractUserPath pfx path pathDelim capacity

/-- The two comparisons of one form of the path. -/
def comparePrefixesPlain (m : ManagedPath) (path : CString) (capacity : Nat) :
    Option (Option CString) := do
  match ← comparePrefixPlain m.managedPath path capacity with
  | some upath => return some upath
  | none =>
    if m.realLen > 0 then comparePrefixPlain m.realPath path capacity
    else return none

/-- `cmp_canonical_path_prefix` with its hash tests removed. -/
def cmpCanonicalPathPrefixPlain (realpath : CString → Option CString)
    (m : ManagedPath) (path : CString) (capacity : Nat) :
    Option (Option CString) := do
  match ← comparePrefixesPlain m path capacity with
  | some upath => return some upath
  | none =>
    match realpath path with
    | none => return none
    | some canPath => comparePrefixesPlain m canPath capacity

/-! ## The same answers -/

variable {hash : CString → UInt32 → UInt32} {path : CString} {capacity : Nat}

/-- A form of the directory, kept with its length and its hash. -/
def StoredForm (hash : CString → UInt32 → UInt32) (form : Option CString)
    (len hashed : UInt32) : Prop :=
  ∃ pfx, form = some pfx ∧ pfx ≠ [] ∧ len = UInt32.ofNat pfx.length ∧
    hashed = hashStr hash pfx dyadSeed

/-- The first bytes of a path, where they are the prefix, hash as it does. -/
theorem hashPathPrefix_of_leads {pfx : CString} (hne : pfx ≠ [])
    (hmax : pfx.length ≤ pathMax) (h : pfx <+: path) :
    hashPathPrefix hash path dyadSeed (UInt32.ofNat pfx.length).toNat =
      hashStr hash pfx dyadSeed := by
  have hpos : pfx.length ≠ 0 := fun h => hne (List.length_eq_zero_iff.1 h)
  have hlen : (UInt32.ofNat pfx.length).toNat = pfx.length := by
    apply UInt32.toNat_ofNat_of_lt'
    exact Nat.lt_of_le_of_lt hmax (by decide)
  have hle := h.length_le
  have htake : path.take pfx.length = pfx := (List.prefix_iff_eq_take.1 h).symm
  unfold hashPathPrefix hashStr
  rw [hlen, if_neg hpos, if_neg (by omega), if_neg hpos, htake]

theorem comparePrefix_eq {form : Option CString} {len hashed : UInt32}
    (hkept : StoredForm hash form len hashed) :
    comparePrefix hash form len hashed path capacity =
      comparePrefixPlain form path capacity := by
  obtain ⟨pfx, rfl, hne, rfl, rfl⟩ := hkept
  unfold comparePrefix comparePrefixPlain
  split
  · rfl
  · next hhash =>
    -- the hashes differ, so the prefix is too long or not in front
    have hnone : extractUserPath pfx path pathDelim capacity = none := by
      unfold extractUserPath
      by_cases h : pfx <+: path
      · have hmax : ¬ pfx.length ≤ pathMax := fun hmax =>
          hhash (hashPathPrefix_of_leads hne hmax h)
        rw [if_neg (not_not_intro h), if_pos (by omega)]
      · rw [if_pos h]
    rw [Option.map_some, hnone]

theorem comparePrefixes_eq {m : ManagedPath}
    (hmanaged : StoredForm hash m.managedPath m.managedLen m.managedHash)
    (hreal : m.realLen > 0 → StoredForm hash m.realPath m.realLen m.realHash) :
    comparePrefixes hash m path capacity =
      comparePrefixesPlain m path capacity := by
  unfold comparePrefixes comparePrefixesPlain
  rw [comparePrefix_eq hmanaged]
  rcases comparePrefixPlain m.managedPath path capacity with _ | _ | upath
  · rfl
  · dsimp only [Option.bind_eq_bind, Option.bind_some]
    by_cases hlen : m.realLen > 0
    · rw [if_pos hlen, if_pos hlen, comparePrefix_eq (hreal hlen)]
    · rw [if_neg hlen, if_neg hlen]
  · rfl

/-- A directory that is accepted is kept with its own lengths and hashes. -/
theorem setManagedPath_kept {b : Build} {realpath : CString → Option CString}
    {host : PathHost} {pfx : CString} {m : ManagedPath}
    (h : setManagedPath b realpath host (some pfx) = (.ok, m)) :
    StoredForm b.hash m.managedPath m.managedLen m.managedHash ∧
      (m.realLen > 0 → StoredForm b.hash m.realPath m.realLen m.realHash) := by
  obtain ⟨hprovided, rfl⟩ := setManagedPath_eq_ok.1 h
  obtain ⟨hne, -, -, -⟩ := hprovided pfx rfl
  refine ⟨⟨pfx, rfl, hne, rfl, rfl⟩, fun hlen => ?_⟩
  unfold storedPath at hlen ⊢
  dsimp only at hlen ⊢
  cases hreal : storedReal realpath pfx with
  | none =>
    rw [hreal] at hlen
    exact absurd hlen (by decide)
  | some real =>
    refine ⟨real, rfl, ?_, rfl, rfl⟩
    rintro rfl
    rw [hreal] at hlen
    exact absurd hlen (by decide)

theorem cmp_eq_plain {realpath : CString → Option CString} {m : ManagedPath}
    (hmanaged : StoredForm hash m.managedPath m.managedLen m.managedHash)
    (hreal : m.realLen > 0 → StoredForm hash m.realPath m.realLen m.realHash) :
    cmpCanonicalPathPrefix hash realpath m path capacity =
      cmpCanonicalPathPrefixPlain realpath m path capacity := by
  unfold cmpCanonicalPathPrefix cmpCanonicalPathPrefixPlain
  rw [comparePrefixes_eq hmanaged hreal]
  rcases comparePrefixesPlain m path capacity with _ | _ | upath
  · rfl
  · cases realpath path with
    | none => rfl
    | some canPath => exact comparePrefixes_eq hmanaged hreal
  · rfl

/-- For every hash and every directory that `dyad_set_prod_path` or
`dyad_set_cons_path` accepts, whatever paths resolve to then and later, each
path gets the answer and the user path it would get with no hash looked at. -/
theorem cmp_hash_free (b : Build) (realpath₀ realpath : CString → Option CString)
    (host : PathHost) (pfx : CString) (m : ManagedPath)
    (h : setManagedPath b realpath₀ host (some pfx) = (.ok, m))
    (path : CString) (capacity : Nat) :
    cmpCanonicalPathPrefix b.hash realpath m path capacity =
      cmpCanonicalPathPrefixPlain realpath m path capacity := by
  obtain ⟨hmanaged, hreal⟩ := setManagedPath_kept h
  exact cmp_eq_plain hmanaged hreal

/-- A directory with a trailing delimiter, and another name for it. -/
theorem cmp_hash_free_slash :
    cmpCanonicalPathPrefix Build.fluxOnly.hash (fun _ => none)
      (storedPath Build.fluxOnly (fun _ => some ['/', 'r']) (some ['/', 'p', '/']))
      ['/', 'r', '/', 'f'] 4096 = some (some ['f']) :=
  (cmp_hash_free .fluxOnly (fun _ => some ['/', 'r']) (fun _ => none)
    ⟨true, true⟩ ['/', 'p', '/'] _ rfl _ _).trans (by decide)

end Dyad
