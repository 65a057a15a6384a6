import Dyad.Client.PathKey

/-!
# Managed paths (`utils/utils.c`)

A managed directory is kept in the context as the string it was given with,
its resolved form where that differs, and a length and a hash of each. Whether
a path lies under it is decided on the strings: `extract_user_path` compares a
path with a prefix, and `cmp_canonical_path_prefix` tries the path and its
resolved form against both forms of the directory, a hash of the path's first
bytes before each comparison.

The hash is a parameter, as it is for the keys.
-/

namespace Dyad

/-- `DYAD_PATH_DELIM`. -/
def pathDelim : CString := ['/']

/-- `DYAD_SEED`. -/
def dyadSeed : UInt32 := 104723

/-- `hash_str`, over the four words of the hash folded by `^`. -/
def hashStr (hash : CString → UInt32 → UInt32) (str : CString)
    (seed : UInt32) : UInt32 :=
  if str.length = 0 then 0 else hash (strLong str) seed + 1

/-- `hash_path_prefix`: the hash of the first `len` bytes. -/
def hashPathPrefix (hash : CString → UInt32 → UInt32) (str : CString)
    (seed : UInt32) (len : Nat) : UInt32 :=
  if len = 0 then 0
  else if str.length < len then 0
  else hash (strLong (str.take len)) seed + 1

/-- What the context keeps of a managed directory. -/
structure ManagedPath where
  managedPath : Option CString
  realPath : Option CString
  managedLen : UInt32
  realLen : UInt32
  managedHash : UInt32
  realHash : UInt32
deriving DecidableEq

/-- No managed directory. -/
def ManagedPath.unset : ManagedPath where
  managedPath := none
  realPath := none
  managedLen := 0
  realLen := 0
  managedHash := 0
  realHash := 0

/-- `extract_user_path`, over buffers that do not overlap: the user path, where
it returns true. -/
def extractUserPath (pfx full delim : CString) (capacity : Nat) :
    Option CString :=
  if ¬ pfx <+: full then none
  else if full.length > pathMax ∨ delim.length > pathMax ∨
      pfx.length > pathMax then none
  else
    -- a delimiter the prefix ends with is not part of it
    let prefixLen :=
      if pfx.length ≥ delim.length ∧ delim <:+ pfx
      then pfx.length - delim.length else pfx.length
    if full.length ≤ prefixLen + delim.length then none
    else if ¬ delim <+: full.drop prefixLen then none
    else
      let uLen := full.length - prefixLen - delim.length
      if uLen + 1 > capacity then none
      else some (full.drop (full.length - uLen))

end Dyad
