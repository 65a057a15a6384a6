import Dyad.Cache.Evict

/-!
# What an eviction pass does

`evictPass` is `dyad_cache_maybe_evict` with a record of its own doings: what
the scan it decides on has found, and each turn of its loop, with the running
total before and after and the calls the turn has made. Nothing else about it
is different, which is `dyadCacheMaybeEvict_eq` in `Proofs/EvictExact.lean`.
-/

namespace Dyad

open Conc Posix

/-- One turn of the eviction loop. -/
structure Visit where
  entry : CacheEntry
  before : Nat
  calls : List (Prog.Event Call.Res)
  after : Nat

/-- A pass: the entries and the total of its last scan, the time the loop was
entered, if it was, and its turns. -/
structure Pass where
  entries : List CacheEntry
  totalSize : Nat
  now : Option Int
  visits : List Visit

/-- `evictEntries`, with its turns. -/
def evictVisits (now grace : Int) (lowWatermark : Nat) :
    List CacheEntry → (totalSize : Nat) → Program (List Visit)
  | [], _ => return []
  | entry :: entries, totalSize =>
    if totalSize > lowWatermark then
      if now - entry.atime < grace then do
        let visits ← evictVisits now grace lowWatermark entries totalSize
        return ⟨entry, totalSize, [], totalSize⟩ :: visits
      else do
        let (calls, left) ← (evictEntry entry totalSize).logged
        let visits ← evictVisits now grace lowWatermark entries left
        return ⟨entry, totalSize, calls, left⟩ :: visits
    else
      return []

/-- `evictLocked`, with the pass. -/
def evictLockedPass (ctx : Ctx) (lockFd : Nat) : Program (Option Pass) := do
  match ← dyadCacheScanDir with
  | none =>
    let _ ← evictLeave lockFd
    return none
  | some (entries, totalSize) =>
    if totalSize ≤ ctx.cacheCapacityBytes then
      let _ ← evictLeave lockFd
      return some ⟨entries, totalSize, none, []⟩
    else
      let now ← perform .time
      let visits ← evictVisits now ctx.cacheGracePeriodSec ctx.cacheLowWatermark
        (entries.insertionSort dyadCacheEntryLe) totalSize
      let _ ← evictLeave lockFd
      return some ⟨entries, totalSize, some now, visits⟩

/-- `dyadCacheMaybeEvict`, with the pass, where it gets as far as a scan. -/
def evictPass (ctx : Ctx) : Program (Option Pass) := do
  if ctx.cacheCapacityBytes = 0 ∨ ctx.cachePolicyMode = .none then
    return none
  else
    match ← dyadCacheScanDir with
    | none => return none
    | some (entries, totalSize) =>
      if totalSize ≤ ctx.cacheCapacityBytes then
        return some ⟨entries, totalSize, none, []⟩
      else
        match ← sys (.open .cacheLock true false) with
        | .error _ => return none
        | .ok lockFd =>
          let rc ← dyadExclFlock lockFd
          if rc.isError then
            let _ ← sys (.close lockFd)
            return none
          else
            evictLockedPass ctx lockFd

/-! ## What the turns have done -/

/-- Bytes of cached files. -/
def cachedBytes (entries : List CacheEntry) : Nat := (entries.map (·.size)).sum

/-- The call unlinked that file. -/
def unlinks (path : Name) : Prog.Event Call.Res → Bool
  | ⟨.sys (.unlink n), .ok _⟩ => n = path
  | _ => false

/-- The turn removed its entry. -/
def Visit.removed (v : Visit) : Bool := v.calls.any (unlinks v.entry.path)

/-- The turn opened its entry and took its lock. -/
def Visit.Locked (v : Visit) : Prop :=
  ∃ fd, ⟨.sys (.open v.entry.path false false), .ok fd⟩ ∈ v.calls ∧
    ⟨.sys (.setlk fd .excl), .ok ()⟩ ∈ v.calls

/-- Bytes of the entries the turns removed. -/
def removedBytes (visits : List Visit) : Nat :=
  cachedBytes ((visits.filter (·.removed)).map (·.entry))

/-! ## Which candidates a pass comes to -/

/-- The candidates a loop tries from a running total: not those within the
grace, and none once the total is at the watermark. `gone` says of each of them
in turn whether it could be unlinked. -/
def victims (now grace : Int) (lowWatermark : Nat) :
    List CacheEntry → (gone : List Bool) → (totalSize : Nat) → List CacheEntry
  | [], _, _ => []
  | entry :: entries, gone, totalSize =>
    if totalSize > lowWatermark then
      if now - entry.atime < grace then
        victims now grace lowWatermark entries gone totalSize
      else
        entry :: victims now grace lowWatermark entries gone.tail
          (if gone.headD false then (totalSize + (2 ^ 64 - entry.size)) % 2 ^ 64
          else totalSize)
    else
      []

/-- Which of the candidates past their grace could be unlinked. -/
def unlinkedOf (now grace : Int) (visits : List Visit) : List Bool :=
  (visits.filter fun v => ¬ now - v.entry.atime < grace).map (·.removed)

/-- The candidates a pass tries: none where the scan it decided on was within
the capacity. -/
def Pass.victims (ctx : Ctx) (p : Pass) : List CacheEntry :=
  match p.now with
  | none => []
  | some now =>
    Dyad.victims now ctx.cacheGracePeriodSec ctx.cacheLowWatermark
      (p.entries.insertionSort dyadCacheEntryLe)
      (unlinkedOf now ctx.cacheGracePeriodSec p.visits) p.totalSize

/-! ## A correct pass -/

/-- A correct pass. `rest` are the entries it did not come to. The running
total and what was removed always make up what there was, which is to say that
the total is what is left and has not wrapped. -/
structure Pass.Correct (ctx : Ctx) (p : Pass) : Prop where
  scanned : p.totalSize = cachedBytes p.entries
  entered : p.now.isSome = true ↔ ctx.cacheCapacityBytes < cachedBytes p.entries
  running : ∀ pre v post, p.visits = pre ++ v :: post →
    v.before + removedBytes pre = cachedBytes p.entries ∧
      v.after + removedBytes (pre ++ [v]) = cachedBytes p.entries
  above : ∀ v ∈ p.visits, ctx.cacheLowWatermark < v.before
  removed : ∀ v ∈ p.visits, v.removed = true →
    v.Locked ∧ ∃ now, p.now = some now ∧ ctx.cacheGracePeriodSec ≤ now - v.entry.atime
  visited : ∃ rest,
    (p.visits.map (·.entry) ++ rest).Perm p.entries ∧
      (p.visits.map (·.entry) ++ rest).Pairwise dyadCacheEntryLe ∧
      (p.now.isSome = true →
        cachedBytes p.entries ≤ ctx.cacheLowWatermark + removedBytes p.visits ∨
          rest = [])

end Dyad
