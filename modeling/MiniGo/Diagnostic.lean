import MiniGo.CompileError
/-!
What a report on a compile fault shows.
-/

namespace MiniGo

structure Diagnostic where
  message : String
  help : Option String
  offset : Nat
  length : Nat
  label : String
deriving DecidableEq, Repr

namespace Diagnostic

def ofError (error : CompileError) : Diagnostic :=
  { message := error.message
    help := error.help
    offset := error.span.start
    length := error.span.length
    label := if error.isInternal then "while compiling this" else "here" }

end Diagnostic

end MiniGo
