import Snowcone.Foundations.CMemory
import Snowcone.Foundations.Loops

/-! The in-place IRC message parser.
Every function works on one allocation, which it overwrites, and returns views into it.
-/

namespace Snowcone.IrcParsing

open Bytes CMemory WhileLoop

/-- A message tag over some kind of string: views for the parser, contents for a reader. -/
structure IrcTag (Str : Type) where
  key : Str
  val : Str
  deriving DecidableEq, Repr

/-- A parsed message over some kind of string. -/
structure IrcMsg (Str : Type) where
  tags : List (IrcTag Str)
  source : Str
  command : Str
  args : List Str
  deriving DecidableEq, Repr

inductive IrcErrorCode where
  | missingTag
  | missingCommand
  deriving DecidableEq, Repr

/-- A computation that may throw an `irc_parse_error`, and that has no result at all if
one of its loops does not end.
-/
abbrev Throws := ExceptT IrcErrorCode Option

/-- `std::string_view{}`. -/
def nullView : View := { data := 0, size := 0 }

/-- The tokenizer: the allocation it borrows and the remaining unparsed string in it. -/
structure Parser where
  mem : CMemory
  msg : Nat

/-- Drop leading spaces. -/
def Parser.trim (p : Parser) : Parser :=
  { p with msg := advance (· == chr ' ') p.mem p.msg }

/-- The constructor, for a string that is not null. -/
def Parser.new (mem : CMemory) (msg : Nat) : Parser := ({ mem, msg } : Parser).trim

/-- Consume and return the next space-separated token. -/
def Parser.word (p : Parser) : Nat × Parser :=
  let start := p.msg
  let stop := advance (fun b => b != 0 && b != chr ' ') p.mem p.msg
  if load p.mem stop ≠ 0 then
    (start, ({ mem := store p.mem stop 0, msg := stop + 1 } : Parser).trim)
  else
    (start, { p with msg := stop })

/-- Match and consume the specified character. -/
def Parser.matchChar (p : Parser) (c : Byte) : Bool × Parser :=
  if c = load p.mem p.msg then (true, { p with msg := p.msg + 1 }) else (false, p)

/-- Whether the parse target is at its end. -/
def Parser.isempty (p : Parser) : Bool := load p.mem p.msg == 0

/-- The remaining unparsed string. -/
def Parser.peek (p : Parser) : Nat := p.msg

/-- What an escaped character stands for. -/
def unescapeChar (c : Byte) : Byte :=
  if c = chr ':' then chr ';'
  else if c = chr 's' then chr ' '
  else if c = chr 'r' then 13
  else if c = chr 'n' then 10
  else c

/-- The locals of the copying loop of `unescapeTagValue`. -/
structure Copying where
  mem : CMemory
  cursor : Nat
  write : Nat

/-- One round of the copying loop: one plain character or one escape. An escape at the end
of the value leaves the loop from its middle.
-/
def copyRound (s : Copying) : Round Copying (CMemory × Nat) :=
  if load s.mem s.cursor = 0 then .leave (s.mem, s.write)
  else if load s.mem s.cursor = chr '\\' then
    let cursor := s.cursor + 1
    if load s.mem cursor = 0 then .leave (s.mem, s.write)
    else
      .again {
        mem := store s.mem s.write (unescapeChar (load s.mem cursor))
        cursor := cursor + 1
        write := s.write + 1
      }
  else
    .again {
      mem := store s.mem s.write (load s.mem s.cursor)
      cursor := s.cursor + 1
      write := s.write + 1
    }

/-- The view of a tag value after unescaping it in place. -/
def unescapeTagValue (mem : CMemory) (val : Nat) : Throws (View × CMemory) :=
  match strchr mem val (chr '\\') with
  | none => pure (viewOf mem val, mem)
  | some cursor => do
      let (mem, write) ← ExceptT.lift (run copyRound mem.length { mem, cursor, write := cursor })
      pure ({ data := val, size := write - val }, mem)

/-- One entry of the tag list, once it has been cut off: its key, then its value. -/
def parseTag (mem : CMemory) (key : Nat) : Throws (IrcTag View × CMemory) :=
  let (mem, val) := strsep mem key (chr '=')
  if load mem key = 0 then throw .missingTag
  else
    match val with
    | none => pure ({ key := viewOf mem key, val := nullView }, mem)
    | some val => do
        let (value, mem) ← unescapeTagValue mem val
        pure ({ key := viewOf mem key, val := value }, mem)

/-- The locals of the loop over the tags. -/
structure Tagging where
  mem : CMemory
  str : Nat
  tags : List (IrcTag View)

/-- One round of the loop over the tags. A round that throws leaves the loop. -/
def tagRound (s : Tagging) : Round Tagging (Throws (List (IrcTag View) × CMemory)) :=
  let (mem, str) := strsep s.mem s.str (chr ';')
  match parseTag mem s.str, str with
  | some (.ok (tag, mem)), some str => .again { mem, str, tags := s.tags ++ [tag] }
  | some (.ok (tag, mem)), none => .leave (pure (s.tags ++ [tag], mem))
  | some (.error code), _ => .leave (throw code)
  | none, _ => .leave none

/-- Parse an IRC tags string in place. -/
def parseIrcTags (mem : CMemory) (str : Nat) : Throws (List (IrcTag View) × CMemory) :=
  (run tagRound mem.length { mem, str, tags := [] }).getD none

/-- One round of the loop over the arguments. -/
def argRound (s : Parser × List View) : Round (Parser × List View) (List View × CMemory) :=
  let (p, args) := s
  if p.isempty then .leave (args, p.mem)
  else
    let (colon, p) := p.matchChar (chr ':')
    if colon then .leave (args ++ [viewOf p.mem p.peek], p.mem)
    else
      let (start, p) := p.word
      .again (p, args ++ [viewOf p.mem start])

/-- The command and argument sections of `parseIrcMessage`. -/
def parseCommand (p : Parser) (tags : List (IrcTag View)) (source : View)
    : Throws (IrcMsg View × CMemory) :=
  let (start, p) := p.word
  let command := viewOf p.mem start
  if command.size = 0 then throw .missingCommand
  else
    match run argRound p.mem.length (p, []) with
    | none => none
    | some (args, mem) => pure ({ tags, source, command, args }, mem)

/-- The source section of `parseIrcMessage` and what follows it. -/
def parseSource (p : Parser) (tags : List (IrcTag View)) : Throws (IrcMsg View × CMemory) :=
  let (sourced, p) := p.matchChar (chr ':')
  if sourced then
    let (start, p) := p.word
    parseCommand p tags (viewOf p.mem start)
  else parseCommand p tags nullView

/-- Parse an IRC message in place. -/
def parseIrcMessage (mem : CMemory) (msg : Nat) : Throws (IrcMsg View × CMemory) :=
  let p := Parser.new mem msg
  let (tagged, p) := p.matchChar (chr '@')
  if tagged then
    let (start, p) := p.word
    match parseIrcTags p.mem start with
    | some (.ok (tags, mem)) => parseSource { p with mem } tags
    | some (.error code) => throw code
    | none => none
  else parseSource p []

end Snowcone.IrcParsing
