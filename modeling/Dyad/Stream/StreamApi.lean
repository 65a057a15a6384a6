import Dyad.Conc.Lts
import Dyad.Stream.StreamCore

/-!
# The output streams (`stream/dyad_stream_api.hpp`)

`basic_ofstream_dyad` and `basic_fstream_dyad` own a standard stream through a
pointer, a core, and the name they last opened. A move hands the pointer over
and copies the core, a swap exchanges what the two standard streams hold, and
neither touches the name. `close` and the destructor close the standard stream
and then pass the name to `close_sync`.

A file that is opened is given an identity of its own for as long as it stays
open, so that the log of a run can say which opening a publication ended.
-/

namespace Dyad

open Conc

/-- The two classes of streams that write. -/
inductive StreamKind
  | ofstream
  | fstream
deriving DecidableEq

/-- One opening of a file, until it is closed: its name, whether it was opened
for writing, whether its name lies under the producer's managed directory, and
whether the core it was opened by is a producer's. -/
structure Opening where
  id : Nat
  name : CString
  write : Bool
  managed : Bool
  producer : Bool
deriving DecidableEq

/-- A standard file stream: what it has open. -/
structure FileStream where
  file : Option Opening
deriving DecidableEq

/-- `basic_ofstream_dyad` or `basic_fstream_dyad`. `stream` is `none` where
`m_stream` is `nullptr`. -/
structure StreamObj where
  kind : StreamKind
  core : StreamCore
  stream : Option FileStream
  filename : CString
deriving DecidableEq

/-- What happens to the files: one is opened, an opening is closed and flushed,
or `close_sync` publishes a name, in the operation that closed this opening, if
it closed one. -/
inductive StreamEvent
  | opened (file : Opening)
  | closed (file : Opening)
  | published (name : CString) (closing : Option Opening)
deriving DecidableEq

/-- The objects of a process, the next identity, and the log, newest event
first. -/
structure Streams where
  objs : Nat → Option StreamObj
  nextId : Nat
  log : List StreamEvent

/-- No object yet. -/
def Streams.fresh : Streams where
  objs _ := none
  nextId := 0
  log := []

/-- What the operations depend on: whether the build has the descriptors, and
what `cmp_canonical_path_prefix` answers for the producer's directory. -/
structure StreamBuild where
  hasStdFstreamFd : Bool
  managed : CString → Bool

/-- The operations of a program on its stream objects. A constructor with a
file name constructs and opens. `ok` is whether the file can be opened. -/
inductive StreamOp
  | construct (x : Nat) (kind : StreamKind) (core : StreamCore)
  | open (x : Nat) (name : CString) (write ok : Bool)
  | close (x : Nat)
  | moveConstruct (x y : Nat)
  | moveAssign (x y : Nat)
  | swap (x y : Nat)
  | destroy (x : Nat)

variable (b : StreamBuild)

/-- The file an object has open. -/
def StreamObj.file (o : StreamObj) : Option Opening := o.stream.bind (·.file)

/-- `open` remembers the name. -/
def StreamObj.remembers (o : StreamObj) (name : CString) : Bool :=
  match o.kind with
  | .ofstream => !b.hasStdFstreamFd || b.managed name
  | .fstream => true

/-- `open` opens a file: a standard stream that has one open refuses another,
and the empty path names none. -/
def StreamObj.opens (o : StreamObj) (name : CString) (ok : Bool) : Bool :=
  o.stream = some ⟨none⟩ && ok && name.length ≠ 0

/-- The opening it makes. -/
def StreamObj.opening (o : StreamObj) (id : Nat) (name : CString)
    (write : Bool) : Opening where
  id := id
  name := name
  write := o.kind = .ofstream || write
  managed := b.managed name
  producer := (o.core.closeSync name).isSome

/-- The object with a file open. -/
def StreamObj.opened (o : StreamObj) (file : Opening) : StreamObj :=
  { o with
    stream := some ⟨some file⟩
    filename := if o.remembers b file.name then file.name else o.filename }

/-- `close` and the destructor ask the core for `fsync_write`, the one class
always and the other where it is a producer's. -/
def StreamObj.asksContext (o : StreamObj) : Bool :=
  match o.kind with
  | .ofstream => true
  | .fstream => o.core.isProd

/-- The end of `close` and of the destructor: the standard stream is closed,
then the name goes to `close_sync`. -/
def StreamObj.finish (o : StreamObj) (log : List StreamEvent) :
    List StreamEvent :=
  let log :=
    match o.file with
    | some file => .closed file :: log
    | none => log
  match o.core.closeSync o.filename with
  | some name => .published name o.file :: log
  | none => log

/-- An object changes. -/
def Streams.set (s : Streams) (x : Nat) (o : Option StreamObj) : Streams :=
  { s with objs := fun z => if z = x then o else s.objs z }

/-- A standard stream is destroyed: a file it has open is closed. -/
def dropFile (file : Option Opening) (log : List StreamEvent) :
    List StreamEvent :=
  match file with
  | some file => .closed file :: log
  | none => log

/-- One operation. It is not enabled where the object does not exist, where one
would be constructed twice, where the classes differ, and where the code
follows a null pointer. -/
def Streams.next (s : Streams) : StreamOp → Option Streams
  | .construct x kind core =>
    match s.objs x with
    | none => some (s.set x (some
        { kind := kind, core := core, stream := some ⟨none⟩, filename := [] }))
    | some _ => none
  | .open x name write ok =>
    match s.objs x with
    | some o =>
      if o.opens name ok then
        let file := o.opening b s.nextId name write
        some { s.set x (some (o.opened b file)) with
          nextId := s.nextId + 1
          log := .opened file :: s.log }
      else some s
    | none => none
  | .close x =>
    match s.objs x with
    | some o =>
      match o.stream with
      | none => some s
      | some _ =>
        if o.asksContext && !o.core.ctx then none
        else some { s.set x (some { o with stream := some ⟨none⟩ }) with
          log := o.finish s.log }
    | none => none
  | .moveConstruct x y =>
    match s.objs x, s.objs y with
    | none, some o =>
      some ((s.set y (some { o with stream := none })).set x
        (some { o with filename := [] }))
    | _, _ => none
  | .moveAssign x y =>
    match s.objs x, s.objs y with
    | some o, some o' =>
      if o.kind ≠ o'.kind then none
      else if x = y then some s
      else some { (s.set y (some { o' with stream := none })).set x
          (some { o with stream := o'.stream, core := o'.core }) with
        log := dropFile o.file s.log }
    | _, _ => none
  | .swap x y =>
    match s.objs x, s.objs y with
    | some o, some o' =>
      if o.kind ≠ o'.kind then none
      else
        match o.stream, o'.stream with
        | none, _ => some s
        | some _, none => none
        | some f, some f' =>
          if x = y then some s
          else some ((s.set x (some { o with stream := some f' })).set y
            (some { o' with stream := some f }))
    | _, _ => none
  | .destroy x =>
    match s.objs x with
    | some o =>
      match o.file with
      | none => some (s.set x none)
      | some _ =>
        if o.asksContext && !o.core.ctx then none
        else some { s.set x none with log := o.finish s.log }
    | none => none

/-- A process that works on its stream objects. -/
def streamProgram : Lts Streams StreamOp where
  init s := s = Streams.fresh
  next := Streams.next b

end Dyad
