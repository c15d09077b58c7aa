import Snowcone.Foundations.Bytes

/-! The parser for filters of the dashboard: it turns the tokens of a filter into a predicate
on entries.
-/

namespace Snowcone.Dashboard

open Bytes

/-- A token with its lexeme; regular expressions are compiled by the lexer. -/
inductive Token (Regex : Type) where
  | word (lexeme : Bytes)
  | regex (lexeme : Regex)
  | badRegex (lexeme : Bytes)
  | string (lexeme : Bytes)
  | opening
  | closing
  | error (lexeme : Bytes)

/-- The fields of an entry that can be filtered for. -/
inductive Field where
  | account
  | asn
  | class_
  | gecos
  | host
  | ip
  | mask
  | nick
  | org
  | reason
  | server
  | user
deriving DecidableEq

/-- What a field has: a text, or a number, which is known by its text. -/
inductive FieldValue where
  | string (text : Bytes)
  | number (text : Bytes)
deriving DecidableEq

/-- An entry: fields may be missing. -/
abbrev Entry := Field → Option FieldValue

/-- The text of a field, as a subject of a regular expression. -/
def FieldValue.text : FieldValue → Bytes
  | .string text | .number text => text

/-- `x[field] or ''` -/
def Entry.field (entry : Entry) (field : Field) : FieldValue :=
  (entry field).getD (.string [])

/-- `clicon_fields` -/
def cliconFields : List (Bytes × Field) := [
  (lit "account", .account),
  (lit "asn", .asn),
  (lit "class", .class_),
  (lit "gecos", .gecos),
  (lit "host", .host),
  (lit "ip", .ip),
  (lit "mask", .mask),
  (lit "nick", .nick),
  (lit "org", .org),
  (lit "reason", .reason),
  (lit "server", .server),
  (lit "user", .user)]

/-- An error: what was found and what was expected in place of it, or that a compiled regular
expression is no text for such a message.
-/
inductive Failure where
  | expected (got expected : Bytes)
  | concatenation

section Parser

variable {Regex : Type}

/-- `Parser:failure`, at the tokens from the current one on. -/
def failure {Result : Type} (expected : Bytes) : List (Token Regex) → Except Failure Result
  | [] => .error (.expected (lit "\x60end-of-input\x60") expected)
  | .regex _ :: _ => .error .concatenation
  | .word lexeme :: _ | .badRegex lexeme :: _ | .string lexeme :: _ | .error lexeme :: _ =>
      .error (.expected lexeme expected)
  | .opening :: _ => .error (.expected (lit "(") expected)
  | .closing :: _ => .error (.expected (lit ")") expected)

/-- What a method of the parser returns: a predicate, and the tokens from the current one on,
which are fewer than before.
-/
structure Parsed (tokens : List (Token Regex)) where
  predicate : Entry → Bool
  rest : List (Token Regex)
  shorter : rest.length < tokens.length

/-- Behind the current token there are still fewer. -/
theorem Parsed.fewer {tokens rest : List (Token Regex)} {token : Token Regex}
    (parsed : Parsed tokens) (isRest : parsed.rest = token :: rest)
    : rest.length < tokens.length := by
  have shorter := parsed.shorter
  rw [isRest, List.length_cons] at shorter
  exact Nat.lt_of_succ_lt shorter

/-- The tokens behind the current one, if that is some word. -/
def behind (word : String) : List (Token Regex) → Option (List (Token Regex))
  | .word lexeme :: rest => if lexeme = lit word then some rest else none
  | _ => none

/-- Tokens behind a word have the word in front of them. -/
theorem eq_of_behind {word : String} {tokens rest : List (Token Regex)}
    (isKeyword : behind word tokens = some rest)
    : tokens = .word (lit word) :: rest := by
  rw [behind.eq_def] at isKeyword
  split at isKeyword
  · split at isKeyword
    · next isWord =>
        obtain rfl := Option.some.inj isKeyword
        rw [isWord]
    · cases isKeyword
  · cases isKeyword

/-- A word and another operand behind an operand, where the word is there: the common part of
`conjunct` and `disjunct`.
-/
def chained {tokens : List (Token Regex)} (word : String) (operator : Bool → Bool → Bool)
    (lhs : Parsed tokens)
    (operand : (rest : List (Token Regex)) → rest.length < tokens.length
      → Except Failure (Parsed rest))
    : Except Failure (Parsed tokens) :=
  match isWord : behind word lhs.rest with
  | some rest => do
      have fewer := lhs.fewer (eq_of_behind isWord)
      let rhs ← operand rest fewer
      return ⟨fun x => operator (lhs.predicate x) (rhs.predicate x), rhs.rest,
        Nat.lt_trans rhs.shorter fewer⟩
  | none => return lhs

-- `r:exec(text) ~= nil`
variable (exec : Regex → Bytes → Bool)

mutual

/-- `Parser:atom` -/
def atom (tokens : List (Token Regex)) : Except Failure (Parsed tokens) :=
  match tokens with
  | .opening :: tokens => do
      let body ← disjunct tokens
      match isRest : body.rest with
      | .closing :: rest =>
          return ⟨body.predicate, rest, Nat.lt_succ_of_lt (body.fewer isRest)⟩
      | rest => failure (lit "\x60)\x60") rest
  | .word lexeme :: tokens =>
      if lexeme = lit "not" then do
        let body ← atom tokens
        return ⟨fun x => !body.predicate x, body.rest, Nat.lt_succ_of_lt body.shorter⟩
      else
        match cliconFields.lookup lexeme with
        | none => failure (lit "a pattern") (.word lexeme :: tokens)
        | some field =>
            match tokens with
            | .regex r :: rest =>
                .ok ⟨fun x => exec r (x.field field).text, rest, by grind⟩
            | .string s :: rest =>
                .ok ⟨fun x => x.field field == .string s, rest, by grind⟩
            | tokens => failure (lit "a pattern") tokens
  | tokens => failure (lit "a pattern") tokens
termination_by (tokens.length, 0)

/-- `Parser:conjunct` -/
def conjunct (tokens : List (Token Regex)) : Except Failure (Parsed tokens) := do
  let lhs ← atom tokens
  chained "and" Bool.and lhs (fun rest _ => conjunct rest)
termination_by (tokens.length, 1)

/-- `Parser:disjunct` -/
def disjunct (tokens : List (Token Regex)) : Except Failure (Parsed tokens) := do
  let lhs ← conjunct tokens
  chained "or" Bool.or lhs (fun rest _ => disjunct rest)
termination_by (tokens.length, 2)

end

/-- `Parser:top` -/
def top (tokens : List (Token Regex)) : Except Failure (Entry → Bool) := do
  let result ← disjunct exec tokens
  match result.rest with
  | [] => return result.predicate
  | rest => failure (lit "\x60end-of-input\x60") rest

end Parser

end Snowcone.Dashboard
