/-! Coroutines: bodies that suspend with a value and go on with what they are resumed with.
A body is the tree of everything it may do, so a fact about all its runs is an induction
over the body.
-/

namespace Coroutine

variable {Yielded Resumed Error Result Other : Type}

/-- What the body of a coroutine does from here on. -/
inductive Body (Yielded Resumed Error Result : Type) where
  | returns (result : Result)
  | raises (error : Error)
  | yields (value : Yielded) (next : Resumed → Body Yielded Resumed Error Result)

namespace Body

/-- Go on with another body after the result of this one. -/
def bind (next : Result → Body Yielded Resumed Error Other)
    : Body Yielded Resumed Error Result → Body Yielded Resumed Error Other
  | .returns result => next result
  | .raises error => .raises error
  | .yields value later => .yields value (fun resumed => bind next (later resumed))

instance : Monad (Body Yielded Resumed Error) where
  pure := .returns
  bind body next := body.bind next

/-- Suspend with a value; the result is what the coroutine is resumed with. -/
def yield (value : Yielded) : Body Yielded Resumed Error Resumed :=
  .yields value .returns

/-- A protected call: an error becomes a result. -/
def pcall
    : Body Yielded Resumed Error Result → Body Yielded Resumed Error (Except Error Result)
  | .returns result => .returns (.ok result)
  | .raises error => .returns (.error error)
  | .yields value later => .yields value (fun resumed => pcall (later resumed))

/-- However it is resumed, the body ends only in ways that meet the two conditions. -/
inductive Ends (returned : Result → Prop) (raised : Error → Prop)
    : Body Yielded Resumed Error Result → Prop
  | returns {result} (holds : returned result) : Ends returned raised (.returns result)
  | raises {error} (holds : raised error) : Ends returned raised (.raises error)
  | yields {value next} (later : ∀ resumed, Ends returned raised (next resumed))
    : Ends returned raised (.yields value next)

/-- Sequencing: where the first body returns, the second one has to end well.
Witness: induction on the ways the first body ends.
-/
theorem Ends.bind {middle : Result → Prop} {returned : Other → Prop} {raised : Error → Prop}
    {body : Body Yielded Resumed Error Result}
    {next : Result → Body Yielded Resumed Error Other}
    (first : body.Ends middle raised)
    (second : ∀ result, middle result → (next result).Ends returned raised)
    : (body >>= next).Ends returned raised := by
  induction first with
  | returns holds => exact second _ holds
  | raises holds => exact .raises holds
  | yields later ih => exact .yields ih

/-- A protected call never raises, by induction on the body. -/
theorem Ends.pcall (raised : Error → Prop) (body : Body Yielded Resumed Error Result)
    : body.pcall.Ends (fun _ => True) raised := by
  induction body with
  | returns result => exact .returns trivial
  | raises error => exact .returns trivial
  | yields value next ih => exact .yields ih

end Body

/-- A coroutine, with the rest of its body while it is suspended. -/
inductive State (Yielded Resumed Error Result : Type) where
  | suspended (next : Resumed → Body Yielded Resumed Error Result)
  | running
  | dead

/-- Why a coroutine cannot be resumed. -/
inductive Refusal where
  | notSuspended
  | dead

/-- Resuming a coroutine: the body that runs now, if it can be resumed at all. -/
def State.resume (co : State Yielded Resumed Error Result) (resumed : Resumed)
    : Except Refusal (Body Yielded Resumed Error Result) :=
  match co with
  | .suspended next => .ok (next resumed)
  | .running => .error .notSuspended
  | .dead => .error .dead

end Coroutine
