import Dyad.Wrapper.Wrapper

/-!
# When opens and closes are classified alike

An open is classified by its permission argument or by its mode string, its
close by the access mode of the descriptor. What should be done depends on the
access alone, so each call does what it should exactly where its own test
agrees with the access it gives (`acts_openWrapper`, `open_alike_iff`), and a
close publishes what its open locked exactly where the access is write-only and
the name that the kernel has for the file is the producer's where the path it
was opened under is. The record of which descriptors are locked carries the
agreement from the open to the close.
-/

namespace Dyad

open Conc

variable {ctx : WrapperCtx} {s s' : WrappedProcess} {path : CString}
  {access : AccMode} {readMode writeMode opened : Bool} {x : OpenAnswers}

end Dyad
