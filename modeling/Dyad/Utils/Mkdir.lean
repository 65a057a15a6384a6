import Dyad.Conc.Prog
import Dyad.Utils.CanonicalPath

/-!
# Creating a directory (`utils/utils.c`, `mkpath` and `mkdir_as_needed`)

`mkpath` climbs from the directory to an ancestor that is there and creates
what is missing on the way back. The ancestor of `/` is `/`, that of `//` is
`//` and that of `.` is `.`, so the climb ends where a `stat` succeeds and
nowhere else; the recursion is on fuel here, and the call `spin`, which has no
answer, is where the fuel is used up. `mkdir_as_needed` makes the path under an
empty umask.

The file system answers a call by when it comes, so that others can create and
remove anything between two calls.
-/

namespace Dyad.Dirs

open Conc

/-- `mode_t`. -/
abbrev Mode := UInt32

/-- `S_IRWXU | S_IRWXG | S_IRWXO`. -/
def rwxUgo : Mode := 0o777

/-- What `stat` fills in: `S_ISDIR` and the mode bits. -/
structure Stat where
  isDir : Bool
  mode : Mode
deriving DecidableEq

/-- What the two functions call. -/
inductive Call
  | stat (path : CString)
  | mkdir (path : CString) (m : Mode)
  | umask (mask : Mode)
  | syncContainingDir (path : CString)
  | spin
deriving DecidableEq

/-- What each call answers; `mkdir` says whether it succeeds. -/
abbrev Call.Res : Call → Type
  | .stat _ => Option Stat
  | .mkdir .. => Bool
  | .umask _ => Mode
  | .syncContainingDir _ => Unit
  | .spin => Empty

/-- A program over these calls. -/
abbrev DirProgram (α : Type) := Prog Call.Res α

/-- One call. -/
abbrev perform (c : Call) : DirProgram c.Res := Prog.perform c

/-- The calls that were made, each with its answer, newest first. -/
abbrev History := List (Prog.Event Call.Res)

/-- The recursion of `mkpath`, for a directory that is not null. -/
def mkpathFrom : (fuel : Nat) → (dir : CString) → (m : Mode) → DirProgram Int
  | 0, _, _ => .call .spin Empty.elim
  | fuel + 1, dir, m => do
    match ← perform (.stat dir) with
    | some _ => return 0
    | none =>
      let _ ← mkpathFrom fuel (dirname dir) m
      return if ← perform (.mkdir dir m) then 0 else -1

/-- `mkpath`. -/
def mkpath (fuel : Nat) (dir : Option CString) (m : Mode) : DirProgram Int :=
  match dir with
  | none => return 1
  | some dir => mkpathFrom fuel dir m

/-- What `mkdir_as_needed` returns for a path that is there: `taken` for one
that is no directory. -/
def existing (sb : Stat) (m : Mode) (taken : Int) : Int :=
  if sb.isDir = false then taken
  else if (sb.mode &&& rwxUgo) ^^^ (m &&& rwxUgo) ≠ 0 then 5
  else 1

/-- `mkdir_as_needed` from what `mkpath` returned on. -/
def mkdirMade (syncDir : Bool) (path : CString) (m oldMask : Mode)
    (made : Int) : DirProgram Int := do
  if made ≠ 0 then
    match ← perform (.stat path) with
    | some sb => return existing sb m (-4)
    | none => return -1
  else
    let _ ← perform (.umask oldMask)
    if syncDir then
      perform (.syncContainingDir path)
      return 0
    else
      return 0

/-- `mkdir_as_needed` for a path that is not there. -/
def mkdirMissing (syncDir : Bool) (fuel : Nat) (path : CString) (m : Mode) :
    DirProgram Int := do
  let oldMask ← perform (.umask 0)
  let made ← mkpath fuel (some path) m
  mkdirMade syncDir path m oldMask made

/-- `mkdir_as_needed`; `syncDir` is whether it is built with
`DYAD_SYNC_DIR`. -/
def mkdirAsNeeded (syncDir : Bool) (fuel : Nat) (path : Option CString)
    (m : Mode) : DirProgram Int :=
  match path with
  | none => return -3
  | some path => do
    if path.length = 0 then
      return -3
    else
      match ← perform (.stat path) with
      | some sb => return existing sb m (-2)
      | none => mkdirMissing syncDir fuel path m

/-! ## Where it runs -/

/-- The file system as each call finds it, by the number of calls before, and
the umask of the process, which has permission bits only. -/
structure Host where
  stat : Nat → CString → Option Stat
  mkdir : Nat → CString → Mode → Bool
  umask : Mode
  masked : umask &&& rwxUgo = umask

/-- The umask after the calls. -/
def Host.umaskAfter (host : Host) : History → Mode
  | [] => host.umask
  | ⟨.umask mask, _⟩ :: _ => mask &&& rwxUgo
  | _ :: h => host.umaskAfter h

/-- What a call is answered. -/
def Host.answer (host : Host) (h : History) : (c : Call) → Option c.Res
  | .stat path => some (host.stat h.length path)
  | .mkdir path m => some (host.mkdir h.length path m)
  | .umask _ => some (host.umaskAfter h)
  | .syncContainingDir _ => some ()
  | .spin => none

/-- Whether the call showed the path to be a directory, if it looked at it or
created it. -/
def shown (path : CString) : Prog.Event Call.Res → Option Bool
  | ⟨.stat p, sb⟩ => if p = path then some (sb.any (·.isDir)) else none
  | ⟨.mkdir p _, made⟩ => if p = path ∧ made = true then some true else none
  | _ => none

/-- The path was a directory when it was last looked at or created. -/
def WasDirectory (path : CString) (h : History) : Prop :=
  h.findSome? (shown path) = some true

/-- `mkdir_as_needed` comes to its end, with the umask it began with, and
returns 0, 1 or 5 for a directory. -/
structure Clean (host : Host) (syncDir : Bool) (path : Option CString)
    (m : Mode) : Prop where
  terminates : ∃ fuel r,
    (mkdirAsNeeded syncDir fuel path m).eval host.answer [] = some r
  umask : ∀ fuel h ret,
    (mkdirAsNeeded syncDir fuel path m).eval host.answer [] = some (h, ret) →
    host.umaskAfter h = host.umask
  truthful : ∀ fuel h ret,
    (mkdirAsNeeded syncDir fuel path m).eval host.answer [] = some (h, ret) →
    ret = 0 ∨ ret = 1 ∨ ret = 5 → ∃ p, path = some p ∧ WasDirectory p h

/-- The climb from `dir`, begun after `t` calls, finds its first ancestor that
is there in `n` steps. -/
structure Host.Climbs (host : Host) (t : Nat) (dir : CString) (n : Nat) :
    Prop where
  found : host.stat (t + n) (dirname^[n] dir) ≠ none
  missing : ∀ k < n, host.stat (t + k) (dirname^[k] dir) = none

/-- The climb from the path ends: at the path itself if that has become a
directory by then, and further up if the path can be created after that or the
umask was empty. -/
def Host.Makes (host : Host) (path : CString) (m : Mode) : Prop :=
  ∃ n, host.Climbs 2 path n ∧
    (n = 0 → ∀ sb, host.stat 2 path = some sb → sb.isDir = true) ∧
    (n ≠ 0 → host.mkdir (2 * n + 2) path m = true ∨ host.umask = 0)

/-- A path that is given and is not found at once can be made. -/
def Host.Ready (host : Host) (path : Option CString) (m : Mode) : Prop :=
  ∀ p ∈ path, p ≠ [] → host.stat 0 p = none → host.Makes p m

end Dyad.Dirs
