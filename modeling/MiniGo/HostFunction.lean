import MiniGo.Machine
/-!
Functions that a host can offer to programs.
-/

namespace MiniGo.HostFunction

def echo : HostFunction := fun _ _ args => pure args

/-- Gives the same values whatever it is called with. -/
def values (results : List Value) : HostFunction := fun _ _ _ => pure results

def failing (error : RuntimeError) : HostFunction := fun _ _ _ => Run.fail error

def double : HostFunction := fun _ _ args =>
  match args with
  | [] => pure [.int 0]
  | value :: _ => do
    let number ← Run.asInt value
    pure [.int (number + number)]

/-- Prints its arguments one after the other, each between angle brackets. -/
def log : HostFunction := fun _ _ args => do
  Run.modify fun world =>
    args.foldl (fun world value => world.write ("<" ++ world.text value ++ ">")) world
  pure []

def callFirst (spread : Bool) : HostFunction := fun call thread args =>
  call thread ⟨args.headD .nil, args.tail, spread⟩

end MiniGo.HostFunction
