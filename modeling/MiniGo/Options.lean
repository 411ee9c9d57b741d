import MiniGo.Text
/-!
Settings of an interpreter.
-/

namespace MiniGo

/-- `trace` asks for a log of executed instructions, which changes no answer. -/
structure Options where
  trace : Bool := false
  /-- Environments kept for reuse by each thread. -/
  poolCapacity : Nat := 32
  /-- Keep printed text for the host instead of showing it. -/
  captureOutput : Bool := false
deriving DecidableEq, Repr, Inhabited

namespace Options

def isTruthy (text : String) : Bool :=
  let word := String.ofList ((Text.trim text).map Char.toLower)
  word == "1" || word == "true" || word == "yes" || word == "on"

/-- Settings given as texts; one that is absent or unreadable keeps its default. -/
def ofTexts (trace pool capture : Option String) : Options :=
  let defaults : Options := {}
  { trace := (trace.map isTruthy).getD defaults.trace
    poolCapacity :=
      (pool.bind fun text => Text.wordValue? (Text.trim text)).getD defaults.poolCapacity
    captureOutput := (capture.map isTruthy).getD defaults.captureOutput }

def withTrace (options : Options) (trace : Bool) : Options := { options with trace }

def withPoolCapacity (options : Options) (poolCapacity : Nat) : Options :=
  { options with poolCapacity }

def capturing (options : Options) : Options := { options with captureOutput := true }

end Options

end MiniGo
