import Snowcone.Drawing.IrcFormatting
import Snowcone.Foundations.LuaPatternText
import Snowcone.Sending.Send

/-! The log server: a page for each buffer, pages for the status messages and for all messages, and
an index that links to them.
-/

namespace Snowcone.Chat.LogServer

open Bytes LuaPattern
open Drawing (scrub)
open Sending (irccase)

/-- A message as the pages read it; the command is what a concatenation makes of it. -/
structure Message where
  command : Bytes
  params : List Bytes
  nick : Option Bytes
  time : Bytes

/-- A status message. -/
structure Status where
  time : Bytes
  category : Bytes
  text : Bytes

/-- What the pages show: the buffers with their keys, the status messages and all messages, as
`reveach` lists them.
-/
structure Logs where
  buffers : List (Bytes × List Message)
  statusMessages : List Status
  messages : List Message

/-- `html` -/
def html (body : Bytes) : Bytes :=
  lit "<!DOCTYPE html>\n<html lang=\"en\"><head><meta charset=\"utf-8\">"
    ++ lit "<title>Snowcone</title></head><body>" ++ body ++ lit "</body></html>\n"

/-- `[a-zA-Z0-9]` -/
def isPlainChar (c : Byte) : Bool := isAlpha c || isDigitChar c

/-- A digit of `%02x`. -/
def hexDigit (n : Byte) : Byte := if n < 10 then 0x30 + n else 0x57 + n

/-- `urlencode` -/
def urlencode (str : Bytes) : Bytes :=
  Id.run (gsub [.single (fun c => !isPlainChar c) .once] str fun captures =>
    pure (match captures with
    | [[c]] => [chr '%', hexDigit (c / 16), hexDigit (c % 16)]
    | _ => captures.flatten))

/-- `%x` -/
def isHexChar (c : Byte) : Bool := isDigitChar c || between 0x41 0x46 c || between 0x61 0x66 c

/-- The value of a hexadecimal digit. -/
def hexDigitValue (c : Byte) : Byte :=
  if isDigitChar c then c - 0x30 else if between 0x41 0x46 c then c - 0x37 else c - 0x57

/-- The pattern `%%(%x%x)`. -/
def escapePattern : List (Item Byte) :=
  [
    .single (· == chr '%') .once, .openCapture, .single isHexChar .once, .single isHexChar .once,
    .closeCapture
  ]

/-- `urldecode` -/
def urldecode (str : Bytes) : Bytes :=
  Id.run (gsub escapePattern str fun captures =>
    pure (match captures with
    | [[a, b]] => [hexDigitValue a * 16 + hexDigitValue b]
    | _ => captures.flatten))

/-- `htmlencode` -/
def htmlencode (str : Bytes) : Bytes :=
  Id.run (gsub [.single (fun c => c == chr '<' || c == chr '>') .once] str fun captures =>
    pure (if captures = [[chr '<']] then lit "&lt;"
    else if captures = [[chr '>']] then lit "&gt;"
    else captures.flatten))

/-- What a page function returns: a content type and a body, or an error that it raises. -/
abbrev Reply := Except Bytes (Bytes × Bytes)

/-- The link back to the index. -/
def backLink : Bytes := lit "<p><a href=\"/\">Index</a></p>"

/-- The path of the page of a buffer. -/
def bufferPath (key : Bytes) : Bytes := lit "/buffer/" ++ urlencode key ++ lit ".txt"

/-- The link to the page of a buffer. -/
def bufferLink (key : Bytes) : Bytes :=
  lit "<li><a href=\"" ++ bufferPath key ++ lit "\">" ++ htmlencode key ++ lit "</a>"

/-- The index; `le` compares strings. -/
def indexPage (le : Bytes → Bytes → Bool) (logs : Logs) : Reply :=
  .ok (lit "text/html",
    html (lit "<ul><li><a href=\"/status.html\">Status</a>"
      ++ lit "<li><a href=\"/console.html\">Console</a>"
      ++ ((logs.buffers.map Prod.fst).mergeSort le).flatMap bufferLink ++ lit "</ul>"))

/-- A row of the page of status messages. -/
def statusRow (entry : Status) : Bytes :=
  lit "<tr><td>" ++ entry.time ++ lit "</td><td>" ++ htmlencode entry.category
    ++ lit "</td><td>" ++ htmlencode entry.text ++ lit "</td></tr>"

/-- The page of status messages. -/
def statusPage (logs : Logs) : Reply :=
  .ok (lit "text/html; charset=utf-8",
    html (backLink ++ lit "<table>" ++ logs.statusMessages.flatMap statusRow ++ lit "</table>"))

/-- `table.concat(irc, ' ')`, each behind a space. -/
def spaced (params : List Bytes) : Bytes := params.flatMap (chr ' ' :: ·)

/-- The text of a message on the console page. -/
def raw (irc : Message) : Bytes :=
  match irc.params.getLast? with
  | none => irc.command
  | some last =>
      if ¬ (last.head? = some (chr ':') ∨ chr ' ' ∈ last) then irc.command ++ spaced irc.params
      else irc.command ++ spaced irc.params.dropLast ++ lit " :" ++ last

/-- A row of the console page. -/
def consoleRow (irc : Message) : Bytes :=
  lit "<tr><td>" ++ irc.time ++ lit "</td><td>" ++ htmlencode (scrub (raw irc)) ++ lit "</td></tr>"

/-- The page of all messages. -/
def consolePage (logs : Logs) : Reply :=
  .ok (lit "text/html; charset=utf-8",
    html (backLink ++ lit "<table>" ++ logs.messages.flatMap consoleRow ++ lit "</table>"))

/-- The line of a chat message. -/
def chatLine (irc : Message) : Except Bytes Bytes :=
  match irc.params[1]?, irc.nick with
  | none, _ => .error (lit "bad argument #1 to 'gsub' (string expected, got nil)")
  | some _, none => .error (lit "attempt to concatenate a nil value (field 'nick')")
  | some text, some nick =>
      .ok (htmlencode (lit "<" ++ nick ++ lit "> " ++ scrub text ++ lit "\n"))

/-- A message that the page of a buffer shows. -/
def isChat (irc : Message) : Bool := irc.command == lit "PRIVMSG" || irc.command == lit "NOTICE"

/-- The page of a buffer with some messages. -/
def messagesPage (messages : List Message) : Reply := do
  let lines ← (messages.filter isChat).mapM chatLine
  pure (lit "text/html; charset=utf-8",
    html (backLink ++ lit "<pre>" ++ lines.flatten ++ lit "</pre>"))

/-- The page of a buffer. -/
def bufferPage (logs : Logs) (name : Bytes) : Reply :=
  let name := urldecode name
  match logs.buffers.lookup (irccase name) with
  | none => .error (lit "no such buffer: " ++ name)
  | some messages => messagesPage messages

/-- `routes` -/
inductive Route where
  | index
  | status
  | console
  | buffer

/-- The pattern of a route. -/
def Route.pattern : Route → List (Item Byte)
  | .index => literal (lit "/") ++ [.endOfSubject]
  | .status =>
      literal (lit "/status") ++ .single (fun _ => true) .once
        :: (literal (lit "html") ++ [.endOfSubject])
  | .console =>
      literal (lit "/console") ++ .single (fun _ => true) .once
        :: (literal (lit "html") ++ [.endOfSubject])
  | .buffer =>
      literal (lit "/buffer/") ++ .openCapture :: .single (fun _ => true) .many :: .closeCapture
        :: (literal (lit ".txt") ++ [.endOfSubject])

/-- The function of a route, for what its pattern captures. -/
def Route.page (le : Bytes → Bytes → Bool) (logs : Logs) : Route → List Bytes → Reply
  | .index, _ => indexPage le logs
  | .status, _ => statusPage logs
  | .console, _ => consolePage logs
  | .buffer, captures => bufferPage logs (captures.headD [])

/-- `handler`, for a request that was read; `pairs` lists the routes in some order. -/
def handler (order : List Route) (le : Bytes → Bytes → Bool) (logs : Logs) (method path : Bytes)
    : Reply :=
  if method ≠ lit "GET" then .error (lit "bad method")
  else
    match order.findSome? fun route =>
      (matchWhole route.pattern path).map fun found => route.page le logs found.2 with
    | some reply => reply
    | none => .error (lit "no such route")

end Snowcone.Chat.LogServer
