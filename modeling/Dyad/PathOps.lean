import Dyad.Conc.Prog
import Dyad.Core.Init
import Dyad.Utils.CanonicalPath

/-!
# The operations, with their paths spelled out (`client/`, `service/`)

What the client's functions and the service's two handlers do with names: the
copy of a relative name, the test for a managed one, the joins of a directory
with a user path, and the calls that open or create what came of these. A call
that names no path is its outcome here.

A path buffer has `PATH_MAX + 1` bytes. Filling it past its end, and reading a
string in it that has no terminator left, is the call `overflow`; following a
null pointer to the context or to a managed path is the call `nullDeref`.
Neither answers. `joining` is no call of the source: it marks the place where
two strings are about to be joined.
-/

namespace Dyad.PathOps

open Conc

/-- What the operations call. -/
inductive Call
  | nullDeref
  | overflow
  | joining (base upath : CString)
  -- `open` of the name the operation was given
  | openName (path : CString)
  -- `open` of a path the operation has made
  | openPath (path : CString)
  | mkdirAsNeeded (path : CString)
  | rangeCacheEnsure (fullpath originFullpath : CString)
  | close
  | exclFlock
  | sharedFlock
  | releaseFlock
  | getFileSize
  | malloc
  -- whether `pread` read as much as it was asked to
  | pread
  | publishViaFlux (upath : CString)
  -- whether there is metadata, where there is no error
  | fetchMetadata (upath : CString)
  | kvsRead (upath : CString)
  | fillMetadata
  | getData
  | getDataRange
  -- the writing in `dyad_cons_store`, through the descriptor
  | consStoreWrite
  | cacheMaybeEvict (dir : CString)
  | isStreaming
  | getUserid
  | rpcUnpack
  | rpcRespond
  | rpcDetachRequest
  | getBuffer
  -- whether the open file was read and sent
  | serve

/-- What each call answers. -/
abbrev Call.Res : Call → Type
  | .nullDeref => Empty
  | .overflow => Empty
  | .joining .. => Unit
  | .openName _ => Bool
  | .openPath _ => Bool
  | .mkdirAsNeeded _ => Int
  | .rangeCacheEnsure .. => Rc
  | .close => Bool
  | .exclFlock => Rc
  | .sharedFlock => Rc
  | .releaseFlock => Unit
  | .getFileSize => Int
  | .malloc => Bool
  | .pread => Bool
  | .publishViaFlux _ => Rc
  | .fetchMetadata _ => Except Rc Bool
  | .kvsRead _ => Rc
  | .fillMetadata => Rc
  | .getData => Rc
  | .getDataRange => Rc
  | .consStoreWrite => Rc
  | .cacheMaybeEvict _ => Unit
  | .isStreaming => Bool
  | .getUserid => Bool
  | .rpcUnpack => Rc
  | .rpcRespond => Rc
  | .rpcDetachRequest => Rc
  | .getBuffer => Rc
  | .serve => Bool

/-- A program over these calls. -/
abbrev PathProgram (α : Type) := Prog Call.Res α

/-- One call. -/
abbrev perform (c : Call) : PathProgram c.Res := Prog.perform c

/-- What a pointer points to. -/
def follow {α : Type} : Option α → PathProgram α
  | some a => return a
  | none => .call .nullDeref Empty.elim

/-! ## Buffers -/

/-- Write the first `n` bytes of a path buffer. -/
def fill (n : Nat) : PathProgram Unit :=
  if n ≤ pathMax + 1 then return () else .call .overflow Empty.elim

/-- Read the string in a path buffer. -/
def cstr (buf : CString) : PathProgram CString :=
  if buf.length ≤ pathMax then return buf else .call .overflow Empty.elim

/-- `strncpy` of a directory and `concat_str` of a user path behind it. What
`concat_str` returns is not looked at. -/
def joinPath (base : Option CString) (upath : CString) :
    PathProgram CString := do
  let base ← follow base
  perform (.joining base upath)
  fill (pathMax - 1)
  let buf := strncpy base (pathMax - 1)
  match concatStr buf upath pathDelim pathMax with
  | some path =>
    fill (buf.length + pathDelim.length + upath.length + 1)
    return path
  | none => return buf

/-! ## Names -/

/-- `strncmp (fname, DYAD_PATH_DELIM, ctx->delim_len) == 0`. -/
def startsWithDelim (ctx : DyadCtx) (fname : CString) : Bool :=
  fname.take ctx.delimLen = pathDelim.take ctx.delimLen

/-- The name is relative to the managed path. -/
def isRelative (ctx : DyadCtx) (fname : CString) : Bool :=
  ctx.relativeToManagedPath && !startsWithDelim ctx fname

/-- The same test in `dyad_consume` and `dyad_consume_range`, which take no
empty name for a relative one. -/
def isRelativeName (ctx : DyadCtx) (fname : CString) : Bool :=
  ctx.relativeToManagedPath && fname.length > 0 && !startsWithDelim ctx fname

variable (hash : CString → UInt32 → UInt32)
  (realpath : CString → Option CString)

/-- The user path: the name itself where it is a relative one, else what
`cmp_canonical_path_prefix` makes of it. -/
def userPath (m : ManagedPath) (relative : Bool) (fname : CString) :
    PathProgram (Option CString) := do
  if relative then
    fill fname.length
    return some fname
  else
    match ← follow (cmpCanonicalPathPrefix hash realpath m fname pathMax) with
    | some upath =>
      fill upath.length
      return some upath
    | none => return none

/-! ## The client -/

/-- `dyad_commit`. -/
def dyadCommit (ctx : DyadCtx) (fname : CString) : PathProgram Rc := do
  match ← userPath hash realpath ctx.prod (isRelative ctx fname) fname with
  | none => return .ok
  | some upath =>
    let upath ← cstr upath
    perform (.publishViaFlux upath)

/-- `dyad_produce`. -/
def dyadProduce (ctx : Option DyadCtx) (fname : CString) : PathProgram Rc := do
  -- `ctx->fname = fname`
  let ctx ← follow ctx
  if ctx.h.isNone then
    return .noctx
  else if ctx.prod.managedPath.isNone then
    return .badmanagedpath
  else
    let rc ← dyadCommit hash realpath ctx fname
    if rc.isError then
      return rc
    else
      let dir ← follow ctx.prod.managedPath
      perform (.cacheMaybeEvict dir)
      return rc

/-- `dyad_get_metadata`. -/
def dyadGetMetadata (ctx : DyadCtx) (fname : CString) : PathProgram Rc := do
  if fname.length = 0 then
    return .badfio
  else
    match ← userPath hash realpath ctx.cons (isRelative ctx fname) fname with
    | none => return .untracked
    | some upath =>
      if ← perform (.openName fname) then
        let _ ← perform .close
        perform .fillMetadata
      else
        let upath ← cstr upath
        perform (.kvsRead upath)

/-- `dyad_fetch_metadata`. -/
def dyadFetchMetadata (upath : CString) : PathProgram (Except Rc Bool) := do
  let upath ← cstr upath
  perform (.fetchMetadata upath)

/-- `dyad_cons_store` for a file of that path in its metadata. -/
def dyadConsStore (ctx : DyadCtx) (fpath : CString) : PathProgram Rc := do
  let filePath ← joinPath ctx.cons.managedPath fpath
  fill pathMax
  let odir := dirname filePath
  if ['.'] <+: odir then
    perform .consStoreWrite
  else
    let made ← perform (.mkdirAsNeeded odir)
    if made < 0 then
      return .badfio
    else
      perform .consStoreWrite

/-- The `consume_done` of `dyad_consume`. -/
def consumeDone (rc : Rc) : PathProgram Rc := do
  if ← perform .close then return rc else return .badfio

/-- The lock given back before `consume_done`. -/
def consumeUnlock (rc : Rc) : PathProgram Rc := do
  perform .releaseFlock
  consumeDone rc

/-- The end of a consume from node-local storage. -/
def consumeStored (ctx : DyadCtx) (rc : Rc) : PathProgram Rc := do
  perform .releaseFlock
  let dir ← follow ctx.cons.managedPath
  perform (.cacheMaybeEvict dir)
  consumeDone rc

/-- The file has not been fetched yet, for all that its size says. -/
def unfetched (ctx : DyadCtx) (fileSize : Int) : Bool :=
  !ctx.useFsLocks || fileSize ≤ 0

/-- `dyad_consume` of a file on shared storage, under the lock. -/
def consumeShared (ctx : DyadCtx) (upath : CString) (fileSize : Int) :
    PathProgram Rc := do
  perform .releaseFlock
  if unfetched ctx fileSize then
    match ← dyadFetchMetadata upath with
    | .error rc => consumeDone rc
    | .ok _ => consumeDone .ok
  else
    consumeDone .ok

/-- The data fetched and stored through a second descriptor. The metadata
holds a copy of the user path. -/
def consumeFetch (ctx : DyadCtx) (fname upath : CString) : PathProgram Rc := do
  let rc ← perform .getData
  if rc.isError then
    consumeUnlock rc
  else if ← perform (.openName fname) then
    let rc ← dyadConsStore ctx upath
    if ← perform .close then
      if rc.isError then
        consumeUnlock rc
      else
        consumeStored ctx rc
    else
      consumeUnlock .badfio
  else
    return .badfio

/-- `dyad_consume` of a file on node-local storage, under the lock. -/
def consumeLocal (ctx : DyadCtx) (fname upath : CString) (fileSize : Int) :
    PathProgram Rc := do
  if unfetched ctx fileSize then
    match ← dyadFetchMetadata upath with
    | .error rc => consumeUnlock rc
    | .ok false => consumeUnlock .ok
    | .ok true => consumeFetch ctx fname upath
  else
    consumeStored ctx .ok

/-- `dyad_consume` from the lock on. -/
def consumeLocked (ctx : DyadCtx) (fname upath : CString) :
    PathProgram Rc := do
  let rc ← perform .exclFlock
  if rc.isError then
    consumeUnlock rc
  else
    let fileSize ← perform .getFileSize
    if ctx.sharedStorage then
      consumeShared ctx upath fileSize
    else
      consumeLocal ctx fname upath fileSize

/-- `dyad_consume` before `consume_close`. -/
def consumeBody (ctx : Option DyadCtx) (fname : CString) : PathProgram Rc :=
  match ctx with
  | none => return .noctx
  | some ctx => do
    if ctx.h.isNone then
      return .noctx
    else if ctx.cons.managedPath.isNone then
      return .badmanagedpath
    else
      match ← userPath hash realpath ctx.cons (isRelativeName ctx fname)
          fname with
      | none => return .ok
      | some upath =>
        if ← perform (.openName fname) then
          consumeLocked ctx fname upath
        else
          return .badfio

/-- The label `consume_close`, or its like: `ctx->reenter = true`. -/
def consumeClose (ctx : Option DyadCtx) (rc : Rc) : PathProgram Rc := do
  let _ ← follow ctx
  return rc

/-- `dyad_consume`. -/
def dyadConsume (ctx : Option DyadCtx) (fname : CString) : PathProgram Rc := do
  let rc ← consumeBody hash realpath ctx fname
  consumeClose ctx rc

/-- The lock given back before the exits of `dyad_consume_w_metadata` that
leave the descriptor open. -/
def consumeGiveUp (rc : Rc) : PathProgram Rc := do
  perform .releaseFlock
  return rc

/-- `dyad_consume_w_metadata` from the lock on. -/
def consumeWMetadataLocked (ctx : DyadCtx) (fname fpath : CString) :
    PathProgram Rc := do
  let rc ← perform .exclFlock
  if rc.isError then
    consumeGiveUp rc
  else
    let fileSize ← perform .getFileSize
    if fileSize ≤ 0 then
      let rc ← perform .getData
      if rc.isError then
        consumeGiveUp rc
      else if ← perform (.openName fname) then
        let rc ← dyadConsStore ctx fpath
        if ← perform .close then
          if rc.isError then
            consumeGiveUp rc
          else
            consumeStored ctx .ok
        else
          consumeGiveUp .badfio
      else
        return .badfio
    else
      consumeStored ctx .ok

/-- `dyad_consume_w_metadata` before `consume_close`; `mdata` is the path in
the metadata, if there is any. -/
def consumeWMetadataBody (ctx : Option DyadCtx) (fname : CString)
    (mdata : Option CString) : PathProgram Rc :=
  match ctx with
  | none => return .noctx
  | some ctx => do
    if ctx.h.isNone then
      return .noctx
    else
      match mdata with
      | none => return .ok
      | some fpath =>
        if ctx.cons.managedPath.isNone then
          return .badmanagedpath
        else if ← perform (.openName fname) then
          consumeWMetadataLocked ctx fname fpath
        else
          return .badfio

/-- `dyad_consume_w_metadata`. -/
def dyadConsumeWMetadata (ctx : Option DyadCtx) (fname : CString)
    (mdata : Option CString) : PathProgram Rc := do
  let rc ← consumeWMetadataBody ctx fname mdata
  consumeClose ctx rc

/-- The join with the origin, where there is one. -/
def joinOrigin (ctx : DyadCtx) (upath : CString) :
    PathProgram (Option CString) := do
  match ctx.originPath with
  | none => return none
  | some originPath =>
    let originFullpath ← joinPath (some originPath) upath
    return some originFullpath

/-- `dyad_range_cache_ensure`, where there is an origin. -/
def ensureRange (fullpath : CString) : Option CString → PathProgram Rc
  | none => return .ok
  | some originFullpath => perform (.rangeCacheEnsure fullpath originFullpath)

/-- The read of the range, from the lock to the close. -/
def consumeRangeRead : PathProgram Rc := do
  let rc ← perform .sharedFlock
  if rc.isError then
    let _ ← perform .close
    return rc
  else if ← perform .malloc then
    let complete ← perform .pread
    perform .releaseFlock
    let _ ← perform .close
    return if complete then .ok else .badfio
  else
    perform .releaseFlock
    let _ ← perform .close
    return .sysfail

/-- The range of a file that is local, read from where it lies. -/
def consumeRangeLocal (ctx : DyadCtx) (upath : CString) : PathProgram Rc := do
  let fullpath ← joinPath ctx.cons.managedPath upath
  let originFullpath ← joinOrigin ctx upath
  let rc ← ensureRange fullpath originFullpath
  if rc.isError then
    return rc
  else if ← perform (.openPath fullpath) then
    consumeRangeRead
  else
    return .badfio

/-- `dyad_consume_range` before `consume_range_close`. -/
def consumeRangeBody (ctx : Option DyadCtx) (fname : CString) :
    PathProgram Rc :=
  match ctx with
  | none => return .noctx
  | some ctx => do
    if ctx.h.isNone then
      return .noctx
    else if ctx.cons.managedPath.isNone then
      return .badmanagedpath
    else if ctx.dtlHandle.all (·.mode = .ucx) then
      return .baddtlmode
    else
      match ← userPath hash realpath ctx.cons (isRelativeName ctx fname)
          fname with
      | none => return .badmanagedpath
      | some upath =>
        match ← dyadFetchMetadata upath with
        | .error rc => return rc
        | .ok false => consumeRangeLocal ctx upath
        | .ok true => perform .getDataRange

/-- `dyad_consume_range`. -/
def dyadConsumeRange (ctx : Option DyadCtx) (fname : CString) :
    PathProgram Rc := do
  let rc ← consumeRangeBody hash realpath ctx fname
  consumeClose ctx rc

/-! ## The service

A handler reports success by ending the stream, and an error by the errno it
responds with: its value here is whether it responded with one. -/

/-- What the two handlers open with, up to the first response. -/
def requestPrologue : PathProgram Bool := do
  if ← perform .isStreaming then
    if ← perform .getUserid then
      let rc ← perform .rpcUnpack
      if rc.isError then
        return false
      else
        let rc ← perform .rpcRespond
        return !rc.isError
    else
      return false
  else
    return false

/-- `dyad_fetch_request_cb`, built without the spin wait. -/
def dyadFetchRequestCb (ctx : DyadCtx) (upath : CString) :
    PathProgram Bool := do
  if ← requestPrologue then
    let fullpath ← joinPath ctx.prod.managedPath upath
    if ← perform (.openPath fullpath) then
      let served ← perform .serve
      return !served
    else
      return true
  else
    return true

/-- What a worker does with an item, and what the handler does where there is
no worker. -/
def serveRange (fullpath : CString) (originFullpath : Option CString) :
    PathProgram Bool := do
  let rc ← ensureRange fullpath originFullpath
  if rc.isError then
    return true
  else if ← perform (.openPath fullpath) then
    let served ← perform .serve
    return !served
  else
    return true

/-- The threaded path of the handler: the item has its own copy of the path,
with room for all of it, and a worker takes it from there. -/
def fetchRangeThreaded (ctx : DyadCtx) (fullpath upath : CString) :
    PathProgram Bool := do
  if ← perform .malloc then
    let itemPath := snprintf (pathMax + 1) fullpath
    fill (itemPath.length + 1)
    let originFullpath ← joinOrigin ctx upath
    let rc ← perform .rpcDetachRequest
    if rc.isError then
      return true
    else
      let rc ← perform .getBuffer
      if rc.isError then
        return true
      else
        serveRange itemPath originFullpath
  else
    return true

/-- The fallback path of the handler. -/
def fetchRangeFallback (ctx : DyadCtx) (fullpath upath : CString) :
    PathProgram Bool := do
  let originFullpath ← joinOrigin ctx upath
  serveRange fullpath originFullpath

/-- `dyad_fetch_range_request_cb`; `threaded` is whether there are workers and
the transport can detach a request. -/
def dyadFetchRangeRequestCb (ctx : DyadCtx) (threaded : Bool)
    (upath : CString) : PathProgram Bool := do
  if ← requestPrologue then
    let fullpath ← joinPath ctx.prod.managedPath upath
    if threaded then
      fetchRangeThreaded ctx fullpath upath
    else
      fetchRangeFallback ctx fullpath upath
  else
    return true

/-! ## Paths that are whole -/

/-- The operations that make paths of names. -/
inductive Op
  | commit (fname : CString)
  | getMetadata (fname : CString)
  | consume (fname : CString)
  | consStore (fpath : CString)
  | consumeRange (fname : CString)
  | fetchRequest (upath : CString)
  | fetchRangeRequest (threaded : Bool) (upath : CString)

/-- The operation, and whether it ends with an error. -/
def Op.run (ctx : DyadCtx) : Op → PathProgram Bool
  | .commit fname => Rc.isError <$> dyadCommit hash realpath ctx fname
  | .getMetadata fname => Rc.isError <$> dyadGetMetadata hash realpath ctx fname
  | .consume fname => Rc.isError <$> dyadConsume hash realpath (some ctx) fname
  | .consStore fpath => Rc.isError <$> dyadConsStore ctx fpath
  | .consumeRange fname =>
    Rc.isError <$> dyadConsumeRange hash realpath (some ctx) fname
  | .fetchRequest upath => dyadFetchRequestCb ctx upath
  | .fetchRangeRequest threaded upath =>
    dyadFetchRangeRequestCb ctx threaded upath

/-- The pairs of strings that have been joined. -/
def joinings (h : List (Prog.Event Call.Res)) : List (CString × CString) :=
  h.filterMap fun e =>
    match e.1 with
    | .joining base upath => some (base, upath)
    | _ => none

/-- All of them fit. -/
def AllFit (h : List (Prog.Event Call.Res)) : Prop :=
  ∀ j ∈ joinings h, JoinFits j.1 j.2

/-- The path is the complete join of a pair that has been joined, and no join
before was too long. -/
def Whole (h : List (Prog.Event Call.Res)) (path : CString) : Prop :=
  AllFit h ∧ ∃ j ∈ joinings h, path = join j.1 j.2

/-- A call that stays inside the buffers, and opens and creates what is joined
completely and nothing else. A directory made is that of such a path. -/
def Fine (h : List (Prog.Event Call.Res)) : Call → Prop
  | .nullDeref => False
  | .overflow => False
  | .openPath path => Whole h path
  | .rangeCacheEnsure fullpath originFullpath =>
    Whole h fullpath ∧ Whole h originFullpath
  | .mkdirAsNeeded dir => ∃ path, Whole h path ∧ dir = dirname path
  | _ => True

/-- An operation that came to a join that does not fit ends with an error. -/
def Ends (h : List (Prog.Event Call.Res)) (failed : Bool) : Prop :=
  AllFit h ∨ failed = true

/-- On every path through the operation, whatever its calls answer, each call
is fine where it is made, and the operation ends as it should. -/
def Op.OnWholePaths (ctx : DyadCtx) (op : Op) : Prop :=
  (op.run hash realpath ctx).wp (fun _ _ _ => True) Fine Ends []

/-! ## When they are -/

/-- The user path of a name, if it has one. -/
def userPathOf (m : ManagedPath) (relative : Bool) (fname : CString) :
    Option CString :=
  if relative then some fname
  else (cmpCanonicalPathPrefix hash realpath m fname pathMax).join

/-- `dyad_consume_range` passes its checks. -/
def servesRanges (ctx : DyadCtx) : Bool :=
  ctx.h.isSome && !ctx.dtlHandle.all (·.mode = .ucx)

/-- The name the operation copies, if it copies one. -/
def Op.copied (ctx : DyadCtx) : Op → Option CString
  | .commit fname => if isRelative ctx fname then some fname else none
  | .getMetadata fname => if isRelative ctx fname then some fname else none
  | .consume fname =>
    if ctx.h.isSome && isRelativeName ctx fname then some fname else none
  | .consumeRange fname =>
    if servesRanges ctx && isRelativeName ctx fname then some fname else none
  | _ => none

/-- The directories that are set, each with the user path. -/
def pairsOf (dirs : List (Option CString)) (upath : Option CString) :
    List (CString × CString) :=
  dirs.flatMap fun dir => (dir.bind fun d => upath.map (d, ·)).toList

/-- The pairs of strings the operation can come to join. -/
def Op.joins (ctx : DyadCtx) : Op → List (CString × CString)
  | .commit _ => []
  | .getMetadata _ => []
  | .consume fname =>
    if ctx.h.isSome && !ctx.sharedStorage then
      pairsOf [ctx.cons.managedPath]
        (userPathOf hash realpath ctx.cons (isRelativeName ctx fname) fname)
    else []
  | .consStore fpath => pairsOf [ctx.cons.managedPath] (some fpath)
  | .consumeRange fname =>
    if servesRanges ctx then
      pairsOf [ctx.cons.managedPath, ctx.originPath]
        (userPathOf hash realpath ctx.cons (isRelativeName ctx fname) fname)
    else []
  | .fetchRequest upath => pairsOf [ctx.prod.managedPath] (some upath)
  | .fetchRangeRequest _ upath =>
    pairsOf [ctx.prod.managedPath, ctx.originPath] (some upath)

/-- A name that is copied has at most `PATH_MAX` bytes, and whatever the
operation can come to join fits. -/
structure Op.Fits (ctx : DyadCtx) (op : Op) : Prop where
  copied : ∀ fname ∈ op.copied ctx, fname.length ≤ pathMax
  joins : ∀ j ∈ op.joins hash realpath ctx, JoinFits j.1 j.2

/-- Both managed paths are set. -/
structure PathsSet (ctx : DyadCtx) : Prop where
  prod : ctx.prod.Set
  cons : ctx.cons.Set

end Dyad.PathOps
