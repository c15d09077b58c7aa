import Snowcone.Foundations.Action
import Snowcone.Foundations.LuaValue

/-! Overrides of settings on the command line: a text of the form `(key '.')* key '=' value` is
recognized, and the value is stored in the configuration.
-/

namespace Snowcone.Configuration.Override

open Bytes

/-- What the lexer makes of a part of the text; a floating-point number is known by its text. -/
inductive Lexeme where
  | string (text : Bytes)
  | integer (n : Int)
  | float (text : Bytes)

/-- The text of a lexeme in a concatenation. -/
def Lexeme.text : Lexeme → Bytes
  | .string text => text
  | .integer n => lit (toString n)
  | .float text => text

/-- The kinds of tokens that the recognizer knows, and others by their names. -/
inductive Kind where
  | iden
  | string
  | number
  | dot
  | equals
  | other (name : Bytes)
deriving DecidableEq

/-- The name of a kind. -/
def Kind.name : Kind → Bytes
  | .iden => lit "iden"
  | .string => lit "string"
  | .number => lit "number"
  | .dot => lit "."
  | .equals => lit "="
  | .other name => name

/-- The kinds of keys and values. -/
def Kind.isName (kind : Kind) : Bool := kind = .iden || kind = .string || kind = .number

/-- What `lexer.scan` yields at a time. -/
structure Token where
  kind : Kind
  lexeme : Lexeme

/-- `want` -/
inductive Want where
  | key
  | separator
  | value
  | eol
deriving DecidableEq

/-- The text of `want`. -/
def Want.text : Want → Bytes
  | .key => lit "key"
  | .separator => lit "separator"
  | .value => lit "value"
  | .eol => lit "eol"

/-- The local variables of the recognizer. -/
structure Reading where
  keys : List Lexeme
  key : Option Lexeme
  value : Option Lexeme
  want : Want

/-- The loop of the recognizer, for one token. -/
def read (src : Bytes) (reading : Reading) (token : Token) : Except Bytes Reading :=
  if reading.want = .key ∧ token.kind.isName then
    .ok { reading with key := some token.lexeme, want := .separator }
  else if reading.want = .separator ∧ token.kind = .dot then
    .ok { reading with keys := reading.keys ++ reading.key.toList, want := .key }
  else if reading.want = .separator ∧ token.kind = .equals then
    .ok { reading with want := .value }
  else if reading.want = .value ∧ token.kind.isName then
    .ok { reading with value := some token.lexeme, want := .eol }
  else
    .error (lit "syntax error at \x1f" ++ token.lexeme.text
      ++ lit "\x1f got \x02" ++ token.kind.name
      ++ lit "\x02 expected \x02" ++ reading.want.text
      ++ lit "\x02 in \x1f" ++ src)

/-- The loop of the recognizer. -/
def readTokens (src : Bytes) : List Token → Reading → Except Bytes Reading
  | [], reading => .ok reading
  | token :: tokens, reading => do readTokens src tokens (← read src reading token)

-----------------------------------------------------------------------------------------
-- Tables
-----------------------------------------------------------------------------------------

/-- A value other than `nil`; tables have no metatables. -/
inductive Value where
  | lexeme (lexeme : Lexeme)
  | boolean (b : Bool)
  | table (address : Nat)
  | function
  | userdata
  | thread

/-- `type`; an absent value is `nil`. -/
def typeName : Option Value → Bytes
  | none => lit "nil"
  | some (.lexeme (.string _)) => lit "string"
  | some (.lexeme _) => lit "number"
  | some (.boolean _) => lit "boolean"
  | some (.table _) => lit "table"
  | some .function => lit "function"
  | some .userdata => lit "userdata"
  | some .thread => lit "thread"

/-- What counts as true in a condition. -/
def truthy : Option Value → Bool
  | none => false
  | some (.boolean b) => b
  | some _ => true

/-- The tables, and the address of the next one. -/
structure Memory where
  tables : Nat → Lua.Key → Option Value
  next : Nat

namespace Memory

/-- An entry of a table written. -/
def set (memory : Memory) (address : Nat) (key : Lua.Key) (value : Option Value) : Memory :=
  { memory with tables := fun a k =>
      if a = address ∧ k = key then value else memory.tables a k }

/-- A new table. -/
def create (memory : Memory) : Memory where
  tables := fun a => if a = memory.next then fun _ => none else memory.tables a
  next := memory.next + 1

/-- A new table in an entry of a table. -/
def createAt (memory : Memory) (address : Nat) (key : Lua.Key) : Memory :=
  memory.create.set address key (some (.table memory.next))

end Memory

section Overriding

-- What key a floating-point number is, and which keys are methods of strings.
variable (floatKey : Bytes → Lua.Key) (isMethod : Lua.Key → Bool)

/-- The key that a lexeme is. -/
def Lexeme.key : Lexeme → Lua.Key
  | .string text => .string text
  | .integer n => .integer n
  | .float text => floatKey text

/-- `tab[x]` -/
def index (tab : Option Value) (x : Lexeme) : EStateM Bytes Memory (Option Value) := do
  match tab with
  | some (.table address) => return (← get).tables address (x.key floatKey)
  | some (.lexeme (.string _)) => return if isMethod (x.key floatKey) then some .function else none
  | _ => throw (lit "attempt to index a " ++ typeName tab ++ lit " value")

/-- `tab[key] = value` -/
def assign (tab : Option Value) (key : Option Lexeme) (value : Option Value)
    : EStateM Bytes Memory Unit := do
  match tab, key with
  | some (.table address), some key =>
      modify (fun memory => memory.set address (key.key floatKey) value)
  | some (.table _), none => throw (lit "index is nil")
  | _, _ => throw (lit "attempt to index a " ++ typeName tab ++ lit " value")

/-- `{}` -/
def newTable : EStateM Bytes Memory Value := do
  let memory ← get
  set memory.create
  return .table memory.next

/-- The loop that goes down to the last table. -/
def walk (tab : Option Value) : List Lexeme → EStateM Bytes Memory (Option Value)
  | [] => return tab
  | x :: keys => do
      if !truthy (← index floatKey isMethod tab x) then
        assign floatKey tab (some x) (some (← newTable))
      walk (← index floatKey isMethod tab x) keys

/-- `apply_override`; the configuration is a table, and the tokens are those of the text. -/
def applyOverride (tab : Nat) (src : Bytes) (tokens : List Token) : EStateM Bytes Memory Unit := do
  match readTokens src tokens { keys := [], key := none, value := none, want := .key } with
  | .error message => throw message
  | .ok reading =>
      let tab ← walk floatKey isMethod (some (.table tab)) reading.keys
      assign floatKey tab reading.key (reading.value.map .lexeme)

-----------------------------------------------------------------------------------------
-- What overrides are for
-----------------------------------------------------------------------------------------

/-- Tokens of the form `(key '.')* key '=' value`, the path of the keys, and the value. -/
inductive Forms : List Token → List Lexeme → Lexeme → Prop
  | last {key equals value : Token} (isKey : key.kind.isName = true)
    (isEquals : equals.kind = .equals) (isValue : value.kind.isName = true)
    : Forms [key, equals, value] [key.lexeme] value.lexeme
  | dotted {key dot : Token} {rest : List Token} {path : List Lexeme} {value : Lexeme}
    (isKey : key.kind.isName = true) (isDot : dot.kind = .dot) (goesOn : Forms rest path value)
    : Forms (key :: dot :: rest) (key.lexeme :: path) value

/-- A value is stored at a path that starts at a table: at the last key, behind the tables that
are there or, where none is there, new ones; and nothing else is changed.
-/
inductive Stored (value : Lexeme) : Memory → Nat → List Lexeme → Memory → Prop
  | here {memory : Memory} {address : Nat} {key : Lexeme}
    : Stored value memory address [key]
        (memory.set address (key.key floatKey) (some (.lexeme value)))
  | existing {memory after : Memory} {address inner : Nat} {x : Lexeme} {path : List Lexeme}
    (isTable : memory.tables address (x.key floatKey) = some (.table inner))
    (within : Stored value memory inner path after)
    : Stored value memory address (x :: path) after
  | missing {memory after : Memory} {address : Nat} {x : Lexeme} {path : List Lexeme}
    (isMissing : memory.tables address (x.key floatKey) = none)
    (within : Stored value (memory.createAt address (x.key floatKey)) memory.next path after)
    : Stored value memory address (x :: path) after

/-- The settings of a configuration: its table and those in it have been created. -/
structure Settings where
  memory : Memory
  root : Nat
  isTable : root < memory.next
  closed : ∀ address < memory.next, ∀ key inner,
    memory.tables address key = some (.table inner) → inner < memory.next

/-- The tables that were there are as they were. -/
def Unchanged (memory after : Memory) : Prop :=
  ∀ address < memory.next, after.tables address = memory.tables address

/-- What an override should do: raise an error and change nothing, or store the value at the path
that the tokens form.
-/
def Meets (config : Settings) (src : Bytes) (tokens : List Token) : Prop :=
  match applyOverride floatKey isMethod config.root src tokens config.memory with
  | .error _ after => Unchanged config.memory after
  | .ok _ after => ∃ path value, Forms tokens path value
      ∧ Stored floatKey value config.memory config.root path after

/-- The keys with a dot behind them, up to the first without. -/
def dotted : List Token → List Lexeme
  | key :: next :: rest => if next.kind = .dot then key.lexeme :: dotted rest else []
  | _ => []

/-- The first value on a path that is no table; there is none where the path ends or a table is
missing before.
-/
def obstacle (memory : Memory) : Nat → List Lexeme → Option Value
  | _, [] => none
  | address, x :: path =>
      match memory.tables address (x.key floatKey) with
      | some (.table inner) => obstacle memory inner path
      | value => value

/-- Where overrides do what they are for: there is an unexpected token, or no token at all, or a
value that is no table and not `false` is in the way, or nothing is in the way and the tokens are
complete.
-/
def Applies (config : Settings) (tokens : List Token) : Prop :=
  (∀ more path value, ¬Forms (tokens ++ more) path value)
  ∨ tokens = []
  ∨ truthy (obstacle floatKey config.memory config.root (dotted tokens)) = true
  ∨ obstacle floatKey config.memory config.root (dotted tokens) = none
    ∧ ∃ path value, Forms tokens path value

end Overriding

-----------------------------------------------------------------------------------------
-- The recognizer
-----------------------------------------------------------------------------------------

section Recognizer

variable {src : Bytes} {key next : Token} {rest more tokens : List Token} {path : List Lexeme}
  {value : Lexeme}

/-- One key does not form an override. -/
theorem not_forms_one : ¬Forms [key] path value := nofun

/-- An override begins with a key. -/
theorem isName_of_forms (forms : Forms (key :: rest) path value) : key.kind.isName = true := by
  cases forms with
  | last isKey => exact isKey
  | dotted isKey => exact isKey

/-- Behind a key and a dot, an override goes on. -/
theorem forms_dotted_iff (isKey : key.kind.isName = true) (isDot : next.kind = .dot)
    : Forms (key :: next :: rest) path value
      ↔ ∃ behind, path = key.lexeme :: behind ∧ Forms rest behind value := by
  constructor
  · intro forms
    cases forms with
    | last _ isEquals => cases isDot.symm.trans isEquals
    | dotted _ _ goesOn => exact ⟨_, rfl, goesOn⟩
  · rintro ⟨behind, rfl, goesOn⟩
    exact .dotted isKey isDot goesOn

/-- Behind a key and anything but a dot, there is a value. -/
theorem forms_last_iff (isKey : key.kind.isName = true) (notDot : next.kind ≠ .dot)
    : Forms (key :: next :: rest) path value
      ↔ next.kind = .equals ∧ path = [key.lexeme]
        ∧ ∃ last : Token, rest = [last] ∧ last.kind.isName = true ∧ value = last.lexeme := by
  constructor
  · intro forms
    cases forms with
    | last _ isEquals isValue => exact ⟨isEquals, rfl, _, rfl, isValue, rfl⟩
    | dotted _ isDot _ => exact (notDot isDot).elim
  · rintro ⟨isEquals, rfl, last, rfl, isValue, rfl⟩
    exact .last isKey isEquals isValue

/-- The keys behind which an override has dots are all but the last one of its path, by induction
on the form.
-/
theorem path_of_forms (forms : Forms tokens path value)
    : ∃ last, path = dotted tokens ++ [last] := by
  induction forms with
  | @last key _ _ _ isEquals _ =>
      refine ⟨key.lexeme, ?_⟩
      rw [dotted, if_neg (by rw [isEquals]; decide)]
      rfl
  | dotted _ isDot _ ih =>
      obtain ⟨last, rfl⟩ := ih
      exact ⟨last, by rw [dotted, if_pos isDot]; rfl⟩

/-- What the recognizer makes of tokens from a key on: all of an override; the beginning of one,
with a key unless there is no token; or an error.
-/
inductive Recognizes (src : Bytes) (tokens : List Token) (keys : List Lexeme)
    (before : Option Lexeme) (result : Except Bytes Reading) : Prop
  | complete (last value : Lexeme) (forms : Forms tokens (dotted tokens ++ [last]) value)
    (reads : result = .ok ⟨keys ++ dotted tokens, some last, some value, .eol⟩)
  | incomplete (key : Option Lexeme) (want : Want) (isNot : ∀ path value, ¬Forms tokens path value)
    (canGoOn : ∃ more path value, Forms (tokens ++ more) path value)
    (isKey : if tokens = [] then key = before else key.isSome)
    (reads : result = .ok ⟨keys ++ dotted tokens, key, none, want⟩)
  | unexpected (isNot : ∀ more path value, ¬Forms (tokens ++ more) path value)
    (stops : ∃ message, result = .error message)

/-- A token that fits no case is unexpected. -/
theorem readTokens_unexpected {reading : Reading}
    (notKey : ¬(reading.want = .key ∧ key.kind.isName = true))
    (notDot : ¬(reading.want = .separator ∧ key.kind = .dot))
    (notEquals : ¬(reading.want = .separator ∧ key.kind = .equals))
    (notValue : ¬(reading.want = .value ∧ key.kind.isName = true))
    : ∃ message, readTokens src (key :: tokens) reading = .error message := by
  rw [readTokens, read, if_neg notKey, if_neg notDot, if_neg notEquals, if_neg notValue]
  exact ⟨_, rfl⟩

/-- Behind a key and a dot, the recognizer goes on from the next key. -/
theorem readTokens_dot {keys : List Lexeme} {before : Option Lexeme} (src : Bytes)
    (rest : List Token) (isKey : key.kind.isName = true) (isDot : next.kind = .dot)
    (behind : Recognizes src rest (keys ++ [key.lexeme]) (some key.lexeme)
      (readTokens src rest ⟨keys ++ [key.lexeme], some key.lexeme, none, .key⟩))
    : Recognizes src (key :: next :: rest) keys before
        (readTokens src (next :: rest) ⟨keys, some key.lexeme, none, .separator⟩) := by
  have goesOn : readTokens src (next :: rest) ⟨keys, some key.lexeme, none, .separator⟩
      = readTokens src rest ⟨keys ++ [key.lexeme], some key.lexeme, none, .key⟩ := by
    rw [readTokens, read, if_neg (by simp), if_pos ⟨rfl, isDot⟩]
    rfl
  have isDotted : dotted (key :: next :: rest) = key.lexeme :: dotted rest := if_pos isDot
  rw [goesOn]
  cases behind with
  | complete last value forms reads =>
      refine .complete last value ?_ ?_
      · rw [isDotted]
        exact .dotted isKey isDot forms
      · rw [reads, isDotted, List.append_assoc]
        rfl
  | incomplete last want isNot canGoOn isLast reads =>
      refine .incomplete last want ?_ ?_ ?_ ?_
      · intro path value forms
        obtain ⟨_, -, later⟩ := (forms_dotted_iff isKey isDot).mp forms
        exact isNot _ _ later
      · obtain ⟨more, path, value, forms⟩ := canGoOn
        exact ⟨more, _, value, .dotted isKey isDot forms⟩
      · rw [if_neg (by simp)]
        split at isLast
        · rw [isLast]
          rfl
        · exact isLast
      · rw [reads, isDotted, List.append_assoc]
        rfl
  | unexpected isNot stops =>
      refine .unexpected (fun more path value forms => ?_) stops
      obtain ⟨_, -, later⟩ := (forms_dotted_iff isKey isDot).mp forms
      exact isNot _ _ _ later

/-- Behind a key without a dot, the recognizer wants a value and the end. -/
theorem readTokens_last {keys : List Lexeme} {before : Option Lexeme} (src : Bytes)
    (rest : List Token) (isKey : key.kind.isName = true) (notDot : next.kind ≠ .dot)
    : Recognizes src (key :: next :: rest) keys before
        (readTokens src (next :: rest) ⟨keys, some key.lexeme, none, .separator⟩) := by
  have noneDotted : dotted (key :: next :: rest) = [] := if_neg notDot
  by_cases isEquals : next.kind = .equals
  · have goesOn : readTokens src (next :: rest) ⟨keys, some key.lexeme, none, .separator⟩
        = readTokens src rest ⟨keys, some key.lexeme, none, .value⟩ := by
      rw [readTokens, read, if_neg (by simp), if_neg (by simp [notDot]), if_pos ⟨rfl, isEquals⟩]
      rfl
    rw [goesOn]
    cases rest with
    | nil =>
        refine .incomplete (some key.lexeme) .value ?_ ?_ rfl ?_
        · intro path value forms
          obtain ⟨-, -, _, isLast, -⟩ := (forms_last_iff isKey notDot).mp forms
          cases isLast
        · exact ⟨[⟨.iden, .string []⟩], _, _, .last isKey isEquals rfl⟩
        · rw [readTokens, noneDotted, List.append_nil]
    | cons last rest =>
        by_cases isValue : last.kind.isName = true
        · have ends : readTokens src (last :: rest) ⟨keys, some key.lexeme, none, .value⟩
              = readTokens src rest ⟨keys, some key.lexeme, some last.lexeme, .eol⟩ := by
            rw [readTokens, read, if_neg (by simp), if_neg (by simp), if_neg (by simp),
              if_pos ⟨rfl, isValue⟩]
            rfl
          rw [ends]
          cases rest with
          | nil =>
              refine .complete key.lexeme last.lexeme ?_ ?_
              · rw [noneDotted]
                exact .last isKey isEquals isValue
              · rw [readTokens, noneDotted, List.append_nil]
          | cons token rest =>
              refine .unexpected (fun more path value forms => ?_)
                (readTokens_unexpected nofun nofun nofun nofun)
              obtain ⟨-, -, _, isLast, -⟩ := (forms_last_iff isKey notDot).mp forms
              simp at isLast
        · refine .unexpected (fun more path value forms => ?_)
            (readTokens_unexpected nofun nofun nofun fun both => isValue both.2)
          obtain ⟨-, -, _, isLast, isName, -⟩ := (forms_last_iff isKey notDot).mp forms
          obtain ⟨rfl, -⟩ := List.cons.inj isLast
          exact isValue isName
  · exact .unexpected (fun _ _ _ forms => isEquals ((forms_last_iff isKey notDot).mp forms).1)
      (readTokens_unexpected nofun (fun both => notDot both.2) (fun both => isEquals both.2) nofun)

/-- The recognizer tells the overrides and their beginnings, by recursion from one key to the
next.
-/
theorem readTokens_recognizes (src : Bytes) (tokens : List Token) (keys : List Lexeme)
    (before : Option Lexeme)
    : Recognizes src tokens keys before (readTokens src tokens ⟨keys, before, none, .key⟩) := by
  let name : Token := ⟨.iden, .string []⟩
  let equals : Token := ⟨.equals, .string []⟩
  match tokens with
  | [] =>
      refine .incomplete before .key nofun ⟨[name, equals, name], _, _, .last rfl rfl rfl⟩ ?_ ?_
      · rfl
      · rw [dotted, List.append_nil]
        · rfl
        · nofun
  | [key] =>
      by_cases isKey : key.kind.isName = true
      · refine .incomplete (some key.lexeme) .separator (fun _ _ => not_forms_one)
          ⟨[equals, name], _, _, .last isKey rfl rfl⟩ rfl ?_
        rw [readTokens, read, if_pos ⟨rfl, isKey⟩, dotted, List.append_nil]
        · rfl
        · nofun
      · exact .unexpected (fun _ _ _ forms => isKey (isName_of_forms forms))
          (readTokens_unexpected (fun both => isKey both.2) nofun nofun nofun)
  | key :: next :: rest =>
      by_cases isKey : key.kind.isName = true
      · have first : readTokens src (key :: next :: rest) ⟨keys, before, none, .key⟩
            = readTokens src (next :: rest) ⟨keys, some key.lexeme, none, .separator⟩ := by
          rw [readTokens, read, if_pos ⟨rfl, isKey⟩]
          rfl
        rw [first]
        by_cases isDot : next.kind = .dot
        · exact readTokens_dot src rest isKey isDot
            (readTokens_recognizes src rest (keys ++ [key.lexeme]) (some key.lexeme))
        · exact readTokens_last src rest isKey isDot
      · exact .unexpected (fun _ _ _ forms => isKey (isName_of_forms forms))
          (readTokens_unexpected (fun both => isKey both.2) nofun nofun nofun)
termination_by tokens.length

end Recognizer

-----------------------------------------------------------------------------------------
-- The walk
-----------------------------------------------------------------------------------------

section Walk

variable {floatKey : Bytes → Lua.Key} {isMethod : Lua.Key → Bool} {memory : Memory}
  {x : Lexeme} {keys : List Lexeme} {key value : Option Lexeme}

/-- The part of `apply_override` that changes tables. -/
def store (floatKey : Bytes → Lua.Key) (isMethod : Lua.Key → Bool) (tab : Option Value)
    (keys : List Lexeme) (key value : Option Lexeme) : EStateM Bytes Memory Unit := do
  let tab ← walk floatKey isMethod tab keys
  assign floatKey tab key (value.map .lexeme)

/-- What is found in a table. -/
theorem index_table (address : Nat) (x : Lexeme) (memory : Memory)
    : index floatKey isMethod (some (.table address)) x memory
      = .ok (memory.tables address (x.key floatKey)) memory :=
  rfl

/-- Two walks that are the same lead to the same change. -/
theorem store_congr {tab tab' : Option Value} {keys keys' : List Lexeme} {memory' : Memory}
    (walks : walk floatKey isMethod tab keys memory
      = walk floatKey isMethod tab' keys' memory')
    : store floatKey isMethod tab keys key value memory
      = store floatKey isMethod tab' keys' key value memory' := by
  simp only [store]
  cases goesOn : walk floatKey isMethod tab' keys' memory' with
  | ok last after => rw [Action.bind_of_ok (walks.trans goesOn), Action.bind_of_ok goesOn]
  | error message after =>
      rw [Action.bind_of_error (walks.trans goesOn), Action.bind_of_error goesOn]

/-- The walk goes on with a value that counts as true. -/
theorem store_of_truthy {tab here : Option Value}
    (isHere : index floatKey isMethod tab x memory = .ok here memory)
    (isTrue : truthy here = true)
    : store floatKey isMethod tab (x :: keys) key value memory
      = store floatKey isMethod here keys key value memory := by
  refine store_congr ?_
  rw [walk, Action.bind_of_ok isHere, isTrue]
  exact Action.bind_of_ok isHere

/-- Otherwise it goes on with a new table. -/
theorem store_of_falsy {address : Nat}
    (isFalse : truthy (memory.tables address (x.key floatKey)) = false)
    : store floatKey isMethod (some (.table address)) (x :: keys) key value memory
      = store floatKey isMethod (some (.table memory.next)) keys key value
          (memory.createAt address (x.key floatKey)) := by
  have isThere : (memory.createAt address (x.key floatKey)).tables address (x.key floatKey)
      = some (.table memory.next) := if_pos ⟨rfl, rfl⟩
  have created : newTable memory = .ok (.table memory.next) memory.create := rfl
  have assigned : assign floatKey (some (.table address)) (some x) (some (.table memory.next))
      memory.create = .ok ⟨⟩ (memory.createAt address (x.key floatKey)) := rfl
  refine store_congr ?_
  rw [walk, Action.bind_of_ok (index_table address x memory), isFalse, if_pos Bool.not_false,
    Action.bind_of_ok created, Action.bind_of_ok assigned]
  exact Action.bind_of_ok
    ((index_table address x _).trans (congrArg (EStateM.Result.ok · _) isThere))

/-- An entry that is written is in the table, and a new table holds nothing else. -/
theorem createAt_tables {address : Nat} {key : Lua.Key} (isOld : address < memory.next)
    : (∀ k, (memory.createAt address key).tables memory.next k = none)
      ∧ memory.next < (memory.createAt address key).next := by
  refine ⟨fun k => ?_, Nat.lt_succ_self _⟩
  have apart : ¬(memory.next = address ∧ k = key) := fun both => absurd both.1 (by omega)
  exact (if_neg apart).trans (congrFun (if_pos rfl) k)

/-- Behind a value that is no table there is an error, and nothing is changed. By induction on
the keys.
-/
theorem store_blocked {v : Value} (notTable : ∀ address, v ≠ .table address)
    : ∃ message after, store floatKey isMethod (some v) keys key value memory = .error message after
      ∧ Unchanged memory after := by
  induction keys generalizing v with
  | nil =>
      have refused : ∃ message, assign floatKey (some v) key (value.map .lexeme) memory
          = .error message memory := by
        cases v with
        | table address => exact (notTable address rfl).elim
        | _ => exact ⟨_, rfl⟩
      obtain ⟨message, stops⟩ := refused
      exact ⟨message, memory, stops, fun _ _ => rfl⟩
  | cons x keys ih =>
      have cannot {message : Bytes}
          (stops : index floatKey isMethod (some v) x memory = .error message memory)
          : ∃ message after, store floatKey isMethod (some v) (x :: keys) key value memory
              = .error message after ∧ Unchanged memory after := by
        refine ⟨message, memory, ?_, fun _ _ => rfl⟩
        have walks : walk floatKey isMethod (some v) (x :: keys) memory
            = .error message memory := by
          rw [walk, Action.bind_of_error stops]
        rw [store, Action.bind_of_error walks]
      cases v with
      | table address => exact (notTable address rfl).elim
      | lexeme lexeme =>
          cases lexeme with
          | string text =>
              by_cases hasMethod : isMethod (x.key floatKey) = true
              · have isHere : index floatKey isMethod (some (.lexeme (.string text))) x memory
                    = .ok (some .function) memory := by
                  simp only [index, hasMethod, if_true]
                  rfl
                rw [store_of_truthy isHere rfl]
                exact ih nofun
              · have isHere : index floatKey isMethod (some (.lexeme (.string text))) x memory
                    = .ok none memory := by
                  simp only [index, hasMethod]
                  rfl
                have created : newTable memory = .ok (.table memory.next) memory.create := rfl
                have walks : ∃ message, walk floatKey isMethod (some (.lexeme (.string text)))
                    (x :: keys) memory = .error message memory.create := by
                  rw [walk, Action.bind_of_ok isHere, truthy, if_pos Bool.not_false,
                    Action.bind_of_ok created]
                  exact ⟨_, Action.bind_of_error rfl⟩
                obtain ⟨message, walks⟩ := walks
                refine ⟨message, memory.create, ?_, fun address isOld => ?_⟩
                · rw [store, Action.bind_of_error walks]
                · exact if_neg (Nat.ne_of_lt isOld)
          | integer n => exact cannot rfl
          | float text => exact cannot rfl
      | boolean b => exact cannot rfl
      | function => exact cannot rfl
      | userdata => exact cannot rfl
      | thread => exact cannot rfl

/-- From a table without entries on, there is no error, and a value is stored in new tables. By
induction on the keys.
-/
theorem store_fresh {address : Nat} (isOld : address < memory.next)
    (isEmpty : ∀ k, memory.tables address k = none) (keys : List Lexeme) (last : Lexeme)
    : ∃ after, store floatKey isMethod (some (.table address)) keys (some last) value memory
        = .ok ⟨⟩ after
      ∧ ∀ stored, value = some stored
        → Stored floatKey stored memory address (keys ++ [last]) after := by
  induction keys generalizing memory address with
  | nil => exact ⟨_, rfl, by rintro stored rfl; exact .here⟩
  | cons x keys ih =>
      have isMissing := isEmpty (x.key floatKey)
      obtain ⟨holdsNothing, isNew⟩ := @createAt_tables _ _ (x.key floatKey) isOld
      obtain ⟨after, stores, within⟩ := ih isNew holdsNothing
      refine ⟨after, ?_, fun stored isStored => .missing isMissing (within stored isStored)⟩
      rw [store_of_falsy (by rw [isMissing]; rfl), stores]

/-- Where a value that counts as true is in the way, there is an error, and nothing is changed.
By induction on the keys.
-/
theorem store_of_obstacle {address : Nat}
    (isBlocked : truthy (obstacle floatKey memory address keys) = true)
    : ∃ message after, store floatKey isMethod (some (.table address)) keys key value memory
        = .error message after ∧ Unchanged memory after := by
  induction keys generalizing address with
  | nil => cases isBlocked
  | cons x keys ih =>
      rw [obstacle] at isBlocked
      split at isBlocked
      · next inner isTable =>
          rw [store_of_truthy (index_table address x memory) (by rw [isTable]; rfl), isTable]
          exact ih isBlocked
      · next notTable =>
          obtain ⟨v, isV⟩ : ∃ v, memory.tables address (x.key floatKey) = some v :=
            Option.ne_none_iff_exists'.mp fun isNone => by
              rw [isNone] at isBlocked
              cases isBlocked
          rw [store_of_truthy (index_table address x memory) isBlocked, isV]
          exact store_blocked fun inner isTable => notTable inner (isV.trans (congrArg _ isTable))

/-- Where nothing that counts as true is in the way, there is no error, and where nothing at all
is in the way, a value is stored. By induction on the keys up to the first new table.
-/
theorem store_ok {address : Nat} (isOld : address < memory.next)
    (closed : ∀ address < memory.next, ∀ key inner,
      memory.tables address key = some (.table inner) → inner < memory.next)
    (notBlocked : truthy (obstacle floatKey memory address keys) = false) (last : Lexeme)
    : ∃ after, store floatKey isMethod (some (.table address)) keys (some last) value memory
        = .ok ⟨⟩ after
      ∧ ∀ stored, value = some stored → obstacle floatKey memory address keys = none
        → Stored floatKey stored memory address (keys ++ [last]) after := by
  induction keys generalizing address with
  | nil => exact ⟨_, rfl, by rintro stored rfl -; exact .here⟩
  | cons x keys ih =>
      rw [obstacle] at notBlocked ⊢
      split at notBlocked
      · next inner isTable =>
          obtain ⟨after, stores, within⟩ := ih (closed address isOld _ _ isTable) notBlocked
          refine ⟨after, ?_, fun stored isStored isFree => ?_⟩
          · rw [store_of_truthy (index_table address x memory) (by rw [isTable]; rfl), isTable,
              stores]
          · exact .existing isTable (within stored isStored isFree)
      · obtain ⟨holdsNothing, isNew⟩ := @createAt_tables _ _ (x.key floatKey) isOld
        obtain ⟨after, stores, within⟩ := store_fresh isNew holdsNothing keys last
        refine ⟨after, ?_, fun stored isStored isFree => ?_⟩
        · rw [store_of_falsy notBlocked, stores]
        · exact .missing isFree (within stored isStored)

/-- A value is stored only where nothing is in the way, by induction on the keys. -/
theorem free_of_stored {address : Nat} {last stored : Lexeme} {after : Memory}
    (isStored : Stored floatKey stored memory address (keys ++ [last]) after)
    : obstacle floatKey memory address keys = none := by
  induction keys generalizing address memory with
  | nil => rfl
  | cons x keys ih =>
      rw [List.cons_append] at isStored
      rw [obstacle]
      generalize isPath : x :: (keys ++ [last]) = path at isStored
      cases isStored with
      | here => simp at isPath
      | existing isTable within =>
          obtain ⟨rfl, rfl⟩ := List.cons.inj isPath
          rw [isTable]
          exact ih within
      | missing isMissing within =>
          obtain ⟨rfl, rfl⟩ := List.cons.inj isPath
          rw [isMissing]

end Walk

-----------------------------------------------------------------------------------------
-- Where overrides do what they are for
-----------------------------------------------------------------------------------------

section Meeting

variable {floatKey : Bytes → Lua.Key} {isMethod : Lua.Key → Bool}

/-- What an override does with tokens that the recognizer reads. -/
theorem applyOverride_of_reads {tab : Nat} {src : Bytes} {tokens : List Token} {reading : Reading}
    (reads : readTokens src tokens ⟨[], none, none, .key⟩ = .ok reading)
    : applyOverride floatKey isMethod tab src tokens
      = store floatKey isMethod (some (.table tab)) reading.keys reading.key reading.value := by
  rw [applyOverride, reads]
  rfl

/-- An override does what it is for if and only if it contains an unexpected token or no token at
all, or a value that is no table and not `false` is in the way, or it is complete and nothing is
in the way.
-/
theorem applyOverride_meets_iff (floatKey : Bytes → Lua.Key) (isMethod : Lua.Key → Bool)
    (config : Settings) (src : Bytes) (tokens : List Token)
    : Meets floatKey isMethod config src tokens ↔ Applies floatKey config tokens := by
  rw [Meets, Applies]
  cases readTokens_recognizes src tokens [] none with
  | unexpected isNot stops =>
      obtain ⟨message, stops⟩ := stops
      have raises : applyOverride floatKey isMethod config.root src tokens config.memory
          = .error message config.memory := by
        rw [applyOverride, stops]
        rfl
      rw [raises]
      exact iff_of_true (fun _ _ => rfl) (.inl isNot)
  | complete last value forms reads =>
      rw [applyOverride_of_reads reads, List.nil_append]
      cases isBlocked : truthy (obstacle floatKey config.memory config.root (dotted tokens)) with
      | true =>
          obtain ⟨message, after, stops, unchanged⟩ := store_of_obstacle isBlocked
          rw [stops]
          exact iff_of_true unchanged (.inr (.inr (.inl rfl)))
      | false =>
          obtain ⟨after, stores, within⟩ :=
            store_ok config.isTable config.closed isBlocked last
          rw [stores]
          constructor
          · rintro ⟨path, stored, forms', isStored⟩
            obtain ⟨last', rfl⟩ := path_of_forms forms'
            exact .inr (.inr (.inr ⟨free_of_stored isStored, _, _, forms⟩))
          · rintro (isNot | rfl | isTrue | ⟨isFree, -⟩)
            · exact (isNot [] _ _ (by rwa [List.append_nil])).elim
            · cases forms
            · cases isTrue
            · exact ⟨_, value, forms, within value rfl isFree⟩
  | incomplete key want isNot canGoOn isKey reads =>
      rw [applyOverride_of_reads reads, List.nil_append]
      by_cases isEmpty : tokens = []
      · subst isEmpty
        obtain rfl : key = none := isKey
        exact iff_of_true (fun _ _ => rfl) (.inr (.inl rfl))
      · rw [if_neg isEmpty] at isKey
        obtain ⟨last, rfl⟩ := Option.isSome_iff_exists.mp isKey
        cases isBlocked :
          truthy (obstacle floatKey config.memory config.root (dotted tokens)) with
        | true =>
            obtain ⟨message, after, stops, unchanged⟩ := store_of_obstacle isBlocked
            rw [stops]
            exact iff_of_true unchanged (.inr (.inr (.inl rfl)))
        | false =>
            obtain ⟨after, stores, -⟩ := store_ok config.isTable config.closed isBlocked last
            rw [stores]
            refine iff_of_false ?_ ?_
            · rintro ⟨path, value, forms, -⟩
              exact isNot path value forms
            · rintro (isNever | isNone | isTrue | ⟨-, path, value, forms⟩)
              · obtain ⟨more, path, value, forms⟩ := canGoOn
                exact isNever more path value forms
              · exact isEmpty isNone
              · cases isTrue
              · exact isNot path value forms

/-- A configuration with a nick. -/
def withNick : Settings where
  memory := {
    tables := fun _ key =>
      if key = Lua.key "nick" then some (.lexeme (.string (lit "me"))) else none
    next := 1 }
  root := 0
  isTable := Nat.zero_lt_one
  closed := by
    intro address _ key inner isTable
    dsimp only at isTable
    split at isTable <;> cases isTable

/-- A key without a value is accepted and removes the setting. -/
theorem applyOverride_counterexample
    : (∃ after, applyOverride (fun text => .other (some text) 0) (fun _ => false) 0 (lit "nick")
          [⟨.iden, .string (lit "nick")⟩] withNick.memory = .ok ⟨⟩ after
        ∧ after.tables 0 (Lua.key "nick") = none)
      ∧ ¬Meets (fun text => .other (some text) 0) (fun _ => false) withNick (lit "nick")
        [⟨.iden, .string (lit "nick")⟩] := by
  refine ⟨⟨_, rfl, rfl⟩, fun meets => ?_⟩
  have accepted : ∃ path value, Forms [⟨.iden, .string (lit "nick")⟩] path value
      ∧ Stored (fun text => .other (some text) 0) value withNick.memory 0 path _ := meets
  obtain ⟨_, _, forms, -⟩ := accepted
  exact not_forms_one forms

end Meeting

end Snowcone.Configuration.Override
