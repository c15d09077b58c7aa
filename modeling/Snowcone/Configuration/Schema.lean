import Snowcone.Foundations.LuaPatternText
import Snowcone.Foundations.LuaValue

/-! Checking a value against a schema, which is itself a Lua value, and what a schema says
about the values that are accepted.
-/

namespace Snowcone.Configuration

open Bytes Lua

/-- The path to the value at hand, and the statuses that were shown. -/
structure State where
  path : List Key
  statuses : List Bytes

/-- A part of a check: it may raise an error, which leaves the path as it is by then. -/
abbrev Check := EStateM Bytes State

/-- `table.concat(path, '.')`; keys without a text make it raise an error. -/
def pathText : Check Bytes := do
  match (← get).path.mapM Key.text with
  | some texts => return (texts.intersperse (lit ".")).flatten
  | none => throw (lit "invalid value in table for 'concat'")

/-- The path of a state, replaced. -/
def setPath (path : List Key) : Check Unit := modify ({ · with path })

/-- Go on below a key, and back. -/
def below (key : Key) (action : Check Unit) : Check Unit := do
  modify (fun state => { state with path := state.path ++ [key] })
  action
  modify (fun state => { state with path := state.path.dropLast })

/-- `pcall`: the error, where there is one. -/
def attempt (action : Check Unit) : Check (Option Bytes) := fun state =>
  match action state with
  | .ok _ state => .ok none state
  | .error failure state => .ok (some failure) state

/-- The statuses about the entries of a table that were not validated. -/
def showUnexpected (validated : List Key) (entries : List (Key × Value)) : Check Unit :=
  entries.forM (fun (k, _) =>
    if k ∈ validated then pure ()
    else below k do
      let text ← pathText
      modify (fun state =>
        { state with statuses := state.statuses ++ [lit "Unexpected field " ++ text] }))

section Check

variable (heap : Heap)

/-- A field of a schema, where it counts as true in a condition. -/
def setting (schema : Value) (name : String) : Except Bytes (Option Value) :=
  (index heap schema (key name)).map (fun field => if truthy field then field else none)

/-- `value:find(schema.pattern)`; numbers are taken by their text. -/
def findPattern (text : Bytes) : Value → Except Bytes Bool
  | .string pattern => LuaPattern.stringFind text pattern
  | .integer n => LuaPattern.stringFind text (lit (toString n))
  | .float pattern => LuaPattern.stringFind text pattern
  | pattern =>
      .error (lit "bad argument #1 to 'find' (string expected, got "
        ++ typeName (some pattern) ++ lit ")")

/-- `%s` for a type in a schema. -/
def shownType : Value → Bytes
  | .string text | .float text => text
  | .integer n => lit (toString n)
  | .boolean b => lit (toString b)
  | value => typeName (some value)

variable (recurse : Value → Option Value → Check Unit)

/-- The alternatives behind the first one: each gets a copy of the path, and what the first
one left in the path of the caller stays there.
-/
def checkLater (value : Value) (path callers : List Key) (message : Bytes)
    : List Value → Check Unit
  | [] => do
      setPath callers
      throw message
  | alternative :: alternatives => do
      setPath path
      match ← attempt (recurse alternative (some value)) with
      | none => setPath callers
      | some failure =>
          checkLater value path callers (message ++ lit "; " ++ failure) alternatives

/-- The branch for `oneOf`. -/
def checkOneOf (value offered : Value) : Check Unit := do
  let text ← pathText
  match ← ofExcept (ipairs heap offered) with
  | [] => throw (lit "No alternatives available: " ++ text)
  | alternative :: alternatives => do
      let path := (← get).path
      match ← attempt (recurse alternative (some value)) with
      | none => pure ()
      | some failure =>
          checkLater recurse value path (← get).path
            (lit "All alternatives failed in " ++ text ++ lit ": " ++ failure) alternatives

/-- The branch for `type == 'table'`. -/
def checkTable (schema : Value) (entries : List (Key × Value)) : Check Unit := do
  match ← ofExcept (setting heap schema "elements") with
  | some elements =>
      let elts := (sequence entries).zipIdx 1
      elts.forM (fun (elt, i) => below (.integer i) (recurse elements (some elt)))
      showUnexpected (elts.map (fun (_, i) => .integer i)) entries
  | none =>
      match ← ofExcept (setting heap schema "fields") with
      | some fields =>
          let declared ← ofExcept (pairs heap fields)
          declared.forM (fun (k, v) => below k (recurse v (Lua.get entries k)))
          showUnexpected (declared.map (·.1)) entries
      | none =>
          match ← ofExcept (setting heap schema "assocs") with
          | some _ => entries.forM (fun (k, v) => below k (recurse v (Lua.get entries k)))
          | none => pure ()

/-- The branch for `type == 'string'`. -/
def checkString (schema : Value) (text : Bytes) : Check Unit := do
  match ← ofExcept (setting heap schema "pattern") with
  | some pattern =>
      unless ← ofExcept (findPattern text pattern) do
        throw (lit "Pattern failure in " ++ (← pathText))
  | none => pure ()

/-- The branches for the types, of which the value has the one of the schema. -/
def checkTyped (schema value : Value) : Check Unit :=
  match entries? heap value, value with
  | some entries, _ => checkTable heap recurse schema entries
  | none, .string text => checkString heap schema text
  | none, _ => pure ()

/-- The branch for `type`. -/
def checkType (schema value type : Value) : Check Unit :=
  match type with
  | .string name =>
      if name = typeName (some value) then checkTyped heap recurse schema value else mismatch
  | _ => mismatch
where
  mismatch : Check Unit := do
    throw (lit "Type mismatch in " ++ (← pathText) ++ lit " expected: " ++ shownType type
      ++ lit " got: " ++ typeName (some value))

/-- `M.check`, at a depth that Lua's stack allows for. -/
def check : Nat → Value → Option Value → Check Unit
  | 0, _, _ => throw (lit "stack overflow")
  | _ + 1, schema, none => do
      if (← ofExcept (setting heap schema "required")).isSome then
        throw (lit "Missing field: " ++ (← pathText))
  | depth + 1, schema, some value => do
      match ← ofExcept (setting heap schema "oneOf") with
      | some offered => checkOneOf heap (check depth) value offered
      | none =>
          match ← ofExcept (setting heap schema "type") with
          | some type => checkType heap (check depth) schema value type
          | none => pure ()

end Check

end Snowcone.Configuration
