import Mathlib.Data.List.Sort
import Dyad.Utils.RangeCache

/-!
# The evictor (`cache/dyad_cache.c`)

`dyad_cache_maybe_evict` scans the managed directory, and when its regular
files exceed the capacity it takes the directory's lock file, scans again and
unlinks the least recent files until the total is at the low watermark. Every
entry of the directory but the lock file is a candidate, each on its own.

`opendir` answers how many entries the stream will give, so that the scan is
a loop over that count. `qsort` is an insertion sort; what it does with equal
keys is not specified, and any order of them is reached here from some order
of the stream.
-/

namespace Dyad

open Conc Posix

/-- `struct dyad_cache_entry`. -/
structure CacheEntry where
  path : Name
  size : Nat
  atime : Int
  recencyKey : Int
deriving DecidableEq

/-- `sizeof (struct dyad_cache_entry)`. -/
def cacheEntrySize : Nat := 4128

/-- The capacity of the array after one more entry, or the failure to grow
it. -/
def growEntries (nEntries capacity : Nat) : Program (Option Nat) := do
  if nEntries = capacity then
    let newCapacity := if capacity = 0 then 16 else capacity * 2
    if ← sys (.malloc (newCapacity * cacheEntrySize)) then
      return some newCapacity
    else
      return none
  else
    return some capacity

/-- The read loop of `dyad_cache_scan_dir` over what is left of the stream.
`none` is the failure to grow the array of entries. -/
def scanEntries : (left capacity : Nat) → List CacheEntry → (totalSize : Nat) →
    Program (Option (List CacheEntry × Nat))
  | 0, _, entries, totalSize => return some (entries, totalSize)
  | left + 1, capacity, entries, totalSize => do
    match ← perform .readdir with
    | .dot => scanEntries left capacity entries totalSize
    | .dotdot => scanEntries left capacity entries totalSize
    | .name .cacheLock => scanEntries left capacity entries totalSize
    | .name path =>
      match ← sys (.stat path) with
      | .error _ => scanEntries left capacity entries totalSize
      | .ok size =>
        let st ← perform (.entryStamp path)
        match st.regular, st.recencyKey with
        | true, some recencyKey =>
          match ← growEntries entries.length capacity with
          | none => return none
          | some newCapacity =>
            scanEntries left newCapacity
              (entries ++ [⟨path, size, st.atime, recencyKey⟩])
              ((totalSize + size) % 2 ^ 64)
        | _, _ => scanEntries left capacity entries totalSize

/-- `dyad_cache_scan_dir`: the entries and their total size, or a failure. -/
def dyadCacheScanDir : Program (Option (List CacheEntry × Nat)) := do
  match ← perform .opendir with
  | .error _ => return none
  | .ok n => scanEntries n 0 [] 0

/-- `dyad_cache_entry_cmp`, as an order. -/
def dyadCacheEntryLe (a b : CacheEntry) : Prop := a.recencyKey ≤ b.recencyKey

instance : DecidableRel dyadCacheEntryLe := fun a b =>
  inferInstanceAs (Decidable (a.recencyKey ≤ b.recencyKey))

/-- One victim: try its lock, unlink it, drop the lock. The total left. -/
def evictEntry (entry : CacheEntry) (totalSize : Nat) : Program Nat := do
  match ← sys (.open entry.path false false) with
  | .error _ => return totalSize
  | .ok victimFd =>
    let rc ← dyadTryExclFlock victimFd
    if rc ≠ .ok then
      let _ ← sys (.close victimFd)
      return totalSize
    else
      let unlinked ← sys (.unlink entry.path)
      let _ ← dyadReleaseFlock victimFd
      let _ ← sys (.close victimFd)
      match unlinked with
      | .ok _ => return (totalSize + (2 ^ 64 - entry.size)) % 2 ^ 64
      | .error _ => return totalSize

/-- The eviction loop, over the candidates in order. -/
def evictEntries (now grace : Int) (lowWatermark : Nat) :
    List CacheEntry → (totalSize : Nat) → Program Unit
  | [], _ => return ()
  | entry :: entries, totalSize =>
    if totalSize > lowWatermark then
      if now - entry.atime < grace then
        evictEntries now grace lowWatermark entries totalSize
      else do
        let left ← evictEntry entry totalSize
        evictEntries now grace lowWatermark entries left
    else
      return ()

/-- The way out that drops the lock file. -/
def evictLeave (lockFd : Nat) : Program Rc := do
  let _ ← dyadReleaseFlock lockFd
  let _ ← sys (.close lockFd)
  return .ok

/-- The second scan and the eviction, under the lock file. -/
def evictLocked (ctx : Ctx) (lockFd : Nat) : Program Rc := do
  match ← dyadCacheScanDir with
  | none => evictLeave lockFd
  | some (entries, totalSize) =>
    if totalSize ≤ ctx.cacheCapacityBytes then
      evictLeave lockFd
    else
      let now ← perform .time
      evictEntries now ctx.cacheGracePeriodSec ctx.cacheLowWatermark
        (entries.insertionSort dyadCacheEntryLe) totalSize
      evictLeave lockFd

/-- `dyad_cache_maybe_evict`. -/
def dyadCacheMaybeEvict (ctx : Ctx) : Program Rc := do
  if ctx.cacheCapacityBytes = 0 ∨ ctx.cachePolicyMode = .none then
    return .ok
  else
    match ← dyadCacheScanDir with
    | none => return .ok
    | some (_, totalSize) =>
      if totalSize ≤ ctx.cacheCapacityBytes then
        return .ok
      else
        match ← sys (.open .cacheLock true false) with
        | .error _ => return .ok
        | .ok lockFd =>
          let rc ← dyadExclFlock lockFd
          if rc.isError then
            let _ ← sys (.close lockFd)
            return .ok
          else
            evictLocked ctx lockFd

end Dyad
