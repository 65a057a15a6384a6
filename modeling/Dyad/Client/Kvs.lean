import Dyad.Common
import Dyad.Conc.Lts
import Dyad.Client.PathKey

/-!
# Publishing and looking up (`client/dyad_client.c`)

The path from `dyad_produce` to the commit of a file's key, and back from the
key to the rank of the producer. The Flux KVS is a namespace of JSON integers.
A commit is submitted, and its future is fulfilled with the commit applied or
with an error; a lookup answers from the namespace, or waits for the key to
appear there when it is asked to.

A history is a sequence of publications, each at the moment the KVS decides
its commit. Publishing is synchronous, so that a publication has returned
before the same process goes on.
-/

namespace Dyad

open Conc

/-- The namespace: the integer each key is bound to. -/
abbrev Kvs := CString → Option Int

/-- The fields of a context that publishing and looking up read. `dyad_init`
leaves no multiplexing factor of zero behind. -/
structure KvsCtx where
  h : Bool
  prodManagedPath : Bool
  rank : UInt32
  serviceMux : UInt32
  nodeIdx : UInt32
  serviceMux_ne_zero : serviceMux ≠ 0

/-- What the varargs of `flux_kvs_txn_pack` make of a rank under `"i"`. -/
def packRank (rank : UInt32) : Int := rank.toInt32.toInt

/-- What `flux_kvs_lookup_get_unpack` stores under `"i"`. -/
def unpackRank (v : Int) : UInt32 := (Int32.ofInt v).toUInt32

@[simp]
theorem unpackRank_packRank (rank : UInt32) :
    unpackRank (packRank rank) = rank := by
  rw [unpackRank, packRank, Int32.ofInt_toInt, UInt32.toUInt32_toInt32]

/-- What becomes of a commit: it is not submitted, its future is fulfilled
with an error, or it is applied. -/
inductive Commit
  | refused
  | failed
  | applied
deriving DecidableEq

/-- What Flux decides about a publication: whether the transaction is created,
whether it is packed, and what becomes of its commit. -/
structure PublishChoice where
  txnCreate : Bool
  txnPack : Bool
  commit : Commit

namespace Kvs

/-- `dyad_kvs_commit` of a transaction that binds `key` to `v`, synchronous. -/
def dyadKvsCommit (kvs : Kvs) (key : CString) (v : Int) : Commit → Kvs × Rc
  | .refused => (kvs, .badcommit)
  -- neither the wait nor the future is asked how it went
  | .failed => (kvs, .ok)
  | .applied => (Function.update kvs key (some v), .ok)

/-- `publish_via_flux`, or `none` where the key takes a remainder by zero. -/
def publishViaFlux (cfg : KeyConfig) (ctx : KvsCtx) (kvs : Kvs)
    (upath : CString) (x : PublishChoice) : Option (Kvs × Rc) :=
  -- whether the key could be generated is not looked at
  (genPathKey cfg upath pathMax).map fun (_, topic) =>
    if x.txnCreate = false then (kvs, .fluxfail)
    else if x.txnPack = false then (kvs, .fluxfail)
    else
      let (kvs, rc) := dyadKvsCommit kvs topic (packRank ctx.rank) x.commit
      if rc.isError then (kvs, rc) else (kvs, .ok)

/-- `dyad_commit` of a file whose path below the managed directory is `upath`,
if it has one. -/
def dyadCommit (cfg : KeyConfig) (ctx : KvsCtx) (kvs : Kvs) :
    Option CString → PublishChoice → Option (Kvs × Rc)
  | none, _ => some (kvs, .ok)
  | some upath, x => publishViaFlux cfg ctx kvs upath x

/-- `dyad_produce`, but for the eviction behind it, which changes neither the
KVS nor the return code. -/
def dyadProduce (cfg : KeyConfig) (ctx : KvsCtx) (kvs : Kvs)
    (upath : Option CString) (x : PublishChoice) : Option (Kvs × Rc) :=
  if ctx.h = false then some (kvs, .noctx)
  else if ctx.prodManagedPath = false then some (kvs, .badmanagedpath)
  else dyadCommit cfg ctx kvs upath x

/-- `dyad_metadata_t`. -/
structure Metadata where
  fpath : CString
  ownerRank : UInt32
deriving DecidableEq

/-- What Flux and the allocator decide about a lookup. -/
structure LookupChoice where
  lookup : Bool
  mallocMdata : Bool
  mallocFpath : Bool
  response : Bool

/-- `dyad_kvs_read`: the return code and what `*mdata` is afterwards, or `none`
while it waits. `mdata` is the double pointer. -/
def dyadKvsRead (kvs : Kvs) (topic upath : CString) (shouldWait : Bool)
    (mdata : Option (Option Metadata)) (x : LookupChoice) :
    Option (Rc × Option Metadata) :=
  match mdata with
  | none => some (.notfound, none)
  | some old =>
    -- on every error the metadata is freed
    if x.lookup = false then some (.notfound, none)
    else if old = none ∧ x.mallocMdata = false then some (.sysfail, none)
    else if x.mallocFpath = false then some (.sysfail, none)
    else if x.response = false then some (.badmetadata, none)
    else
      match kvs topic with
      | some v => some (.ok, some ⟨upath, unpackRank v⟩)
      | none => if shouldWait then none else some (.badmetadata, none)

/-- `dyad_fetch_metadata`: the outer `none` where the key takes a remainder by
zero or the lookup waits. -/
def dyadFetchMetadata (cfg : KeyConfig) (ctx : KvsCtx) (kvs : Kvs)
    (upath : CString) (x : LookupChoice) : Option (Rc × Option Metadata) :=
  (genPathKey cfg upath pathMax).bind fun (_, topic) =>
    (dyadKvsRead kvs topic upath true (some none) x).map fun (rc, mdata) =>
      if rc.isError then (rc, mdata)
      else
        match mdata with
        | some m =>
          if m.ownerRank / ctx.serviceMux = ctx.nodeIdx then (.ok, none)
          else (.ok, some m)
        | none => (rc, none)

end Kvs

/-- The KVS, and the publications that returned `DYAD_RC_OK`, the last one
first. -/
structure Published where
  kvs : Kvs
  okay : List (CString × UInt32)

/-- The rank of the last producer whose publication of a path returned
`DYAD_RC_OK`. -/
def Published.lastProducer (s : Published) (upath : CString) : Option UInt32 :=
  (s.okay.find? fun p => p.1 = upath).map Prod.snd

/-- A call of `dyad_produce`. -/
structure Publication where
  ctx : KvsCtx
  upath : Option CString
  choice : PublishChoice

/-- What a publication adds to the history. -/
def Publication.okay (p : Publication) (rc : Rc) : List (CString × UInt32) :=
  match p.upath with
  | some upath => if rc = .ok then [(upath, p.ctx.rank)] else []
  | none => []

/-- The histories of publications. -/
def publications (cfg : KeyConfig) : Lts Published Publication where
  init s := s = ⟨fun _ => none, []⟩
  next s p :=
    (Kvs.dyadProduce cfg p.ctx s.kvs p.upath p.choice).map fun (kvs, rc) =>
      ⟨kvs, p.okay rc ++ s.okay⟩

end Dyad
