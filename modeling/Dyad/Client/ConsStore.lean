import Dyad.Service.FetchRange

/-!
# Storing a fetched file, byte by byte (`client/dyad_client.c`)

`dyad_cons_store` once more, in the machine words the source computes with.
`written_data` is a `ssize_t` and `written_len` a `size_t`, so a `write` that
fails comes back as the largest `size_t`, the test for `written_len <= 0` only
sees a zero, and the sum goes back by one.

Here a `write` is the range of the received buffer it was passed, which may
start before the buffer, and what it answered. What the range is written to
does not matter; `Tracks` ties this to the program that does the writing
through a descriptor.
-/

namespace Dyad.Store

open Conc Posix

/-- The calls of `dyad_cons_store`. A `write` is passed the `count` bytes from
`file_data + start`. -/
inductive Call
  | mkdirAsNeeded
  | write (start : Int) (count : Nat)

/-- What each call answers. -/
abbrev Call.Res : Call → Type
  | .mkdirAsNeeded => Except Errno Unit
  | .write .. => Except Errno Nat

/-- The result of a `write`, in the `size_t` it is put into. -/
def writtenLen : Except Errno Nat → UInt64
  | .ok n => UInt64.ofNat n
  | .error _ => -1

/-- How the chunked loop ends: it is still running when the unrolling stops,
it goes to `pull_done` with the code still `DYAD_RC_OK`, or its condition
fails. -/
inductive Exit
  | running
  | pullDone
  | done (writtenData : UInt64)

/-- What the chunked loop passes to `write` next. -/
def writtenSize (dataLen writtenData : UInt64) : Nat :=
  let left := toSsize (dataLen - writtenData)
  let size : Int :=
    if left > transferGranularity then transferGranularity else left
  (size % 2 ^ 64).toNat

/-- The chunked loop. -/
def consStoreLoop (dataLen : UInt64) :
    (fuel : Nat) → (writtenData : UInt64) → Prog Call.Res Exit
  | 0, _ => return .running
  | fuel + 1, writtenData => do
    if toSsize writtenData < toSsize dataLen then
      let r ← Prog.perform (.write (toSsize writtenData)
        (writtenSize dataLen writtenData))
      if writtenLen r = 0 then
        return .pullDone
      else
        consStoreLoop dataLen fuel (writtenData + writtenLen r)
    else
      return .done writtenData

/-- The code for what was written. -/
def writtenRc (writtenLen dataLen : UInt64) : Rc :=
  if writtenLen ≠ dataLen then .badfio else .ok

/-- The write, at one go or in chunks; `none` while it is running. -/
def consStoreWrite (dataLen : UInt64) (fuel : Nat) :
    Prog Call.Res (Option Rc) := do
  if dataLen.toNat < transferGranularity then
    let r ← Prog.perform (.write 0 dataLen.toNat)
    return some (writtenRc (writtenLen r) dataLen)
  else
    match ← consStoreLoop dataLen fuel 0 with
    | .running => return none
    | .pullDone => return some .ok
    | .done writtenData => return some (writtenRc writtenData dataLen)

/-- `dyad_cons_store`; `dotPath` is whether the directory of the file starts
with a dot, and is then taken to be there. -/
def dyadConsStore (dotPath : Bool) (dataLen : UInt64) (fuel : Nat) :
    Prog Call.Res (Option Rc) := do
  if dotPath then
    consStoreWrite dataLen fuel
  else
    match ← Prog.perform Call.mkdirAsNeeded with
    | .error _ => return some .badfio
    | .ok _ => consStoreWrite dataLen fuel

/-! ## A run -/

/-- What the system answers: to the making of the directory, and to the `i`th
`write`, which takes at most the bytes it is offered. -/
structure Answers where
  mkdir : Except Errno Unit
  write : Nat → (count : Nat) → Except Errno (Fin (count + 1))

/-- A `write` that was made. -/
structure Write where
  start : Int
  count : Nat
  result : Except Errno Nat
deriving DecidableEq

/-- The answer to a call after the writes so far, and the writes after it. -/
def Answers.step (a : Answers) (ws : List Write) :
    (c : Call) → Option (List Write × c.Res)
  | .mkdirAsNeeded => some (ws, a.mkdir)
  | .write start count =>
    let r := (a.write ws.length count).map (·.val)
    some (ws ++ [⟨start, count, r⟩], r)

/-- The places of the buffer a write took its bytes from, in order. -/
def Write.took (w : Write) : List Int :=
  match w.result with
  | .ok n => (List.range n).map fun k : Nat => w.start + k
  | .error _ => []

/-- The places all the writes took their bytes from. -/
def taken (ws : List Write) : List Int := ws.flatMap Write.took

/-- The places of a buffer of `n` bytes. -/
def places (n : Nat) : List Int := (List.range n).map fun k : Nat => (k : Int)

/-- A write stays inside a buffer of `n` bytes. -/
def Write.Within (w : Write) (n : Nat) : Prop :=
  0 ≤ w.start ∧ w.start + w.count ≤ n

/-- Storing `dataLen` bytes is exact: it comes to an end, it offers no byte
outside the buffer, and it reports success if and only if each byte of the
buffer was written once and in order. -/
structure Exact (dotPath : Bool) (a : Answers) (dataLen : UInt64) : Prop where
  ends : ∃ fuel ws rc, (dyadConsStore dotPath dataLen fuel).exec a.step [] =
    some (ws, some rc)
  within : ∀ fuel ws o, (dyadConsStore dotPath dataLen fuel).exec a.step [] =
    some (ws, o) → ∀ w ∈ ws, w.Within dataLen.toNat
  ok_iff : ∀ fuel ws rc, (dyadConsStore dotPath dataLen fuel).exec a.step [] =
    some (ws, some rc) → (rc = .ok ↔ taken ws = places dataLen.toNat)

/-- Offered what is left of the buffer, a chunk at a time, the system takes
at least a byte each time until it has taken the last; the first of these
offers is the `i`th. -/
inductive Drains (write : Nat → (count : Nat) → Except Errno (Fin (count + 1))) :
    (i left : Nat) → Prop
  | nothing (i : Nat) : Drains write i 0
  | chunk {i left : Nat} {n : Fin (min left transferGranularity + 1)} :
      0 < left → write i (min left transferGranularity) = .ok n → 0 < n.val →
      Drains write (i + 1) (left - n.val) → Drains write i left

/-- When storing is exact: the directory is missing and there is something to
store; else an empty buffer's write does not fail, and a buffer of more than
one chunk, unless it is larger than a `ssize_t` can say, is taken without a
write that takes nothing or fails. -/
def Holds (dotPath : Bool) (a : Answers) (dataLen : UInt64) : Prop :=
  if dotPath = false ∧ a.mkdir ≠ .ok () then
    dataLen ≠ 0
  else if dataLen.toNat < transferGranularity then
    dataLen = 0 → ∃ n, a.write 0 0 = .ok n
  else
    2 ^ 63 ≤ dataLen.toNat ∨ Drains a.write 0 dataLen.toNat

/-! ## Through a descriptor -/

/-- The program `q` does what `p` says about the buffer `data`, through the
descriptor `fd` at `pos`. A range before the buffer is undefined, and no
`write` answers with more than it was offered. -/
def Tracks (fd : Nat) (data : Bytes Byte) :
    Prog Call.Res (Option Rc) → (pos : Nat) → Program Rc → Prop
  | .pure (some rc), _, q => q = Prog.pure rc
  | .pure none, _, q => q = spin
  | .call .mkdirAsNeeded k, pos, q =>
    ∃ k', q = .call .mkdirAsNeeded k' ∧ ∀ r, Tracks fd data (k r) pos (k' r)
  | .call (.write start count) k, pos, q =>
    if start < 0 then
      q = ub
    else
      ∃ k', q = .call (.sys (.pwrite fd pos (data.slice start.toNat count))) k' ∧
        (∀ n, n ≤ count → Tracks fd data (k (.ok n)) (pos + n) (k' (.ok n))) ∧
        ∀ e, Tracks fd data (k (.error e)) pos (k' (.error e))

end Dyad.Store
