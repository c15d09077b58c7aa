import Snowcone.Foundations.Decimal
import Snowcone.IrcParsing.Correctness

/-! The table a parsed message is kept as, and the line `/dump` writes for it. -/

namespace Snowcone.IrcParsing

open Bytes CMemory Decimal

/-- The command of a kept message: a number, if the text of the command is one. -/
inductive CommandValue where
  | number (code : Int)
  | name (text : Bytes)
  deriving DecidableEq, Repr

/-- The command as `pushircmsg` sets it. -/
def pushCommand (command : Bytes) : CommandValue :=
  match fromChars command with
  | some (code, []) => .number code
  | _ => .name command

/-- `pushtags`: a key that comes again replaces its value. -/
def pushTags (tags : List (IrcTag Bytes)) : Bytes → Option Bytes :=
  tags.foldl (fun table tag => Function.update table tag.key (some tag.val)) (fun _ => none)

/-- The table of a message; it has no source field if the source is empty. -/
structure Pushed where
  tags : Bytes → Option Bytes
  source : Option Bytes
  command : CommandValue
  args : List Bytes

/-- `pushircmsg` -/
def pushIrcMsg (msg : IrcMsg Bytes) : Pushed where
  tags := pushTags msg.tags
  source := if msg.source = [] then none else some msg.source
  command := pushCommand msg.command
  args := msg.args

/-- An order in which `pairs` may go through a table: every entry once. -/
structure Visits (table : Bytes → Option Bytes) (entries : List (Bytes × Bytes)) : Prop where
  once : (entries.map Prod.fst).Nodup
  all : ∀ key val, (key, val) ∈ entries ↔ table key = some val

/-- What `escapeval` writes for a character. -/
def escapeChar (c : Byte) : Bytes :=
  if c = chr '\\' then lit "\\"
  else if c = chr ' ' then lit "\\s"
  else if c = chr ';' then lit "\\:"
  else if c = 10 then lit "\\n"
  else if c = 13 then lit "\\r"
  else [c]

/-- `escapeval` -/
def escapeVal (val : Bytes) : Bytes := val.flatMap escapeChar

/-- An entry of the tags without the separator in front of it. -/
def dumpEntry (entry : Bytes × Bytes) : Bytes :=
  entry.1 ++ (if entry.2 ≠ [] then chr '=' :: escapeVal entry.2 else [])

/-- The tags: the first entry stands behind an at sign, the others behind semicolons. -/
def dumpTags : List (Bytes × Bytes) → Bytes
  | [] => []
  | first :: others =>
      chr '@' :: (dumpEntry first
        ++ (others.flatMap (fun entry => chr ';' :: dumpEntry entry) ++ lit " "))

/-- The source, unless the client sent the message itself. -/
def dumpSource (source : Option Bytes) : Bytes :=
  match source with
  | some source => if source ≠ lit ">>>" then chr ':' :: (source ++ lit " ") else []
  | none => []

/-- The command; a number has at least three digits. -/
def dumpCommand : CommandValue → Bytes
  | .number code => formatPadded 3 code
  | .name text => text

/-- The arguments: the last one always stands behind a colon. -/
def dumpArgs : List Bytes → Bytes
  | [] => []
  | [last] => lit " :" ++ last
  | arg :: args => chr ' ' :: (arg ++ dumpArgs args)

/-- What follows the direction of a message on its line. -/
def dumpText (pushed : Pushed) (entries : List (Bytes × Bytes)) : Bytes :=
  dumpTags entries
    ++ (dumpSource pushed.source ++ (dumpCommand pushed.command ++ dumpArgs pushed.args))

/-- The line `/dump` writes for a message whose tags it goes through in some order. -/
def dumpLine (pushed : Pushed) (entries : List (Bytes × Bytes)) : Bytes :=
  (if pushed.source = some (lit ">>>") then lit "C: " else lit "S: ")
    ++ (dumpText pushed entries ++ lit "\n")

/-- What a reader of the dump needs: behind the mark of a received message stands a text that
is parsed, and the parsed message is kept as the same table.
-/
def ReadsBack (pushed : Pushed) (entries : List (Bytes × Bytes)) : Prop :=
  ∃ text,
    dumpLine pushed entries = lit "S: " ++ (text ++ lit "\n")
    ∧ 0 ∉ text
    ∧ ∀ mem start,
        CString mem start text
        → ∃ msg,
            readBack (parseIrcMessage mem start) = some (.ok msg) ∧ pushIrcMsg msg = pushed

/-- When a message can be read back: no tag value has a backslash, which is not escaped, the
source is not the mark of the client's own messages, and a command behind an empty source does
not look like a source or, without tags, like tags.
-/
structure Dumpable (pushed : Pushed) : Prop where
  values : ∀ key val, pushed.tags key = some val → chr '\\' ∉ val
  received : pushed.source ≠ some (lit ">>>")
  notSource : pushed.source = none
    → ∀ text, pushed.command = .name text → text.head? ≠ some (chr ':')
  notTags : pushed.source = none → (∀ key, pushed.tags key = none)
    → ∀ text, pushed.command = .name text → text.head? ≠ some (chr '@')

end Snowcone.IrcParsing
