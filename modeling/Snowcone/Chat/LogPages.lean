import Mathlib.Data.List.Forall2
import Snowcone.Chat.LogServer

/-! The links of the index lead to the pages that they name, and what the pages show adds no markup
to them.
-/

namespace Snowcone.Chat.LogServer

open Bytes LuaPattern
open Drawing (scrub)
open Sending (irccase)

-----------------------------------------------------------------------------------------
-- Names in paths
-----------------------------------------------------------------------------------------

/-- What holds of all bytes by their numbers holds of every byte. -/
theorem forall_byte {holds : Byte → Prop} (all : ∀ n : Fin 256, holds (UInt8.ofNat n)) (c : Byte)
    : holds c := by
  have this_ := all ⟨c.toNat, c.toNat_lt⟩
  rwa [UInt8.ofNat_toNat] at this_

/-- An escape names its byte. -/
theorem escape_value (c : Byte)
    : hexDigitValue (hexDigit (c / 16)) * 16 + hexDigitValue (hexDigit (c % 16)) = c :=
  @forall_byte
    (fun c => hexDigitValue (hexDigit (c / 16)) * 16 + hexDigitValue (hexDigit (c % 16)) = c)
    (by decide +kernel) c

/-- An escape has two digits. -/
theorem escape_digits (c : Byte)
    : isHexChar (hexDigit (c / 16)) = true ∧ isHexChar (hexDigit (c % 16)) = true :=
  @forall_byte
    (fun c => isHexChar (hexDigit (c / 16)) = true ∧ isHexChar (hexDigit (c % 16)) = true)
    (by decide +kernel) c

/-- A byte in a path. -/
def escaped (c : Byte) : Bytes :=
  if isPlainChar c then [c] else [chr '%', hexDigit (c / 16), hexDigit (c % 16)]

/-- A name is escaped byte by byte. -/
theorem urlencode_eq (str : Bytes) : urlencode str = str.flatMap escaped := by
  rw [urlencode, gsub_once]
  refine List.flatMap_congr fun c _ => ?_
  rw [escaped]
  cases isPlainChar c <;> rfl

/-- A percent sign with two digits is matched. -/
theorem matchWhole_escape {a b : Byte} (first : isHexChar a = true) (second : isHexChar b = true)
    (rest : Bytes)
    : matchWhole escapePattern (chr '%' :: a :: b :: rest) = some ([chr '%', a, b], [[a, b]]) := by
  simp [matchWhole, stringMatch, escapePattern, matchHere, first, second, extend, finishLast]

/-- Other bytes are not matched. -/
theorem matchWhole_plain {c : Byte} (isPlain : isPlainChar c = true) (rest : Bytes)
    : matchWhole escapePattern (c :: rest) = none := by
  have differs : (c == chr '%') = false := by
    revert isPlain
    exact @forall_byte (fun c => isPlainChar c = true → (c == chr '%') = false)
      (by decide +kernel) c
  simp [matchWhole, stringMatch, escapePattern, matchHere, differs]

/-- What was escaped is read back, by induction on it. -/
theorem urldecode_urlencode (str : Bytes) : urldecode (urlencode str) = str := by
  rw [urldecode, gsub, pieces, urlencode_eq]
  generalize true = fresh
  induction str generalizing fresh with
  | nil => rfl
  | cons c str ih =>
      rw [List.flatMap_cons, escaped]
      cases isPlain : isPlainChar c with
      | true =>
          rw [if_pos rfl, List.singleton_append, piecesFrom_skip (matchWhole_plain isPlain _)]
          exact congrArg (c :: ·) (ih true)
      | false =>
          obtain ⟨first, second⟩ := escape_digits c
          rw [if_neg Bool.false_ne_true]
          have taken := @piecesFrom_take _ escapePattern (str.flatMap escaped)
            [chr '%', hexDigit (c / 16), hexDigit (c % 16)] _ fresh (List.cons_ne_nil _ _)
            (matchWhole_escape first second _)
          rw [taken]
          have value := escape_value c
          exact congrArg₂ (· :: ·) value (ih false)

-----------------------------------------------------------------------------------------
-- Routes
-----------------------------------------------------------------------------------------

section Routes

variable {order : List Route} {le : Bytes → Bytes → Bool} {logs : Logs}

/-- The pattern of buffers captures what is between its ends. -/
theorem fits_buffer_iff (name : Bytes) {result : List Bytes}
    : Fits (.openCapture :: (Route.buffer.pattern ++ [.closeCapture]))
        (lit "/buffer/" ++ (name ++ lit ".txt")) [] result
      ↔ result = [lit "/buffer/" ++ (name ++ lit ".txt"), name] := by
  rw [fits_openCapture_iff, Route.pattern, List.append_assoc, fits_literal_iff]
  simp only [List.cons_append, fits_openCapture_iff, fits_single_iff, fits_closeCapture_iff,
    List.append_assoc, fits_literal_iff, fits_endOfSubject_iff, List.nil_append, fits_nil_iff]
  constructor
  · rintro ⟨_, isRest, taken, _, rfl, -, -, rest, rfl, rfl, rfl⟩
    have same := List.append_cancel_left isRest
    rw [List.append_nil] at same
    obtain rfl := List.append_cancel_right same
    simp [extend, finishLast]
  · rintro rfl
    refine ⟨_, rfl, name, _, rfl, fun _ _ => trivial, trivial, [], ?_, rfl, ?_⟩
    · rw [List.append_nil]
    simp [extend, finishLast]

/-- The path of a buffer is found by its route. -/
theorem matchWhole_buffer (name : Bytes)
    : matchWhole Route.buffer.pattern (lit "/buffer/" ++ (name ++ lit ".txt"))
      = some (lit "/buffer/" ++ (name ++ lit ".txt"), [name]) := by
  have found : stringMatch (.openCapture :: Route.buffer.pattern ++ [.closeCapture])
      (lit "/buffer/" ++ (name ++ lit ".txt"))
      = some [lit "/buffer/" ++ (name ++ lit ".txt"), name] :=
    stringMatch_eq_some ((fits_buffer_iff name).mpr rfl)
      fun _ fits => (fits_buffer_iff name).mp fits
  rw [matchWhole, found]
  rfl

/-- No other route finds the path of a buffer. -/
theorem matchWhole_other {route : Route} (differs : route ≠ .buffer) (rest : Bytes)
    : matchWhole route.pattern (lit "/buffer/" ++ rest) = none := by
  cases found : matchWhole route.pattern (lit "/buffer/" ++ rest) with
  | none => rfl
  | some whole =>
      obtain ⟨inner, fits, -⟩ := fits_of_matchWhole found
      cases route with
      | buffer => exact absurd rfl differs
      | index =>
          rw [fits_openCapture_iff, Route.pattern, List.append_assoc, fits_literal_iff] at fits
          obtain ⟨_, same, ends⟩ := fits
          obtain ⟨rfl, -⟩ := fits_endOfSubject_iff.mp ends
          exact absurd (List.cons.inj same).2 (List.cons_ne_nil _ _)
      | _ =>
          rw [fits_openCapture_iff, Route.pattern, List.append_assoc, fits_literal_iff] at fits
          obtain ⟨_, same, -⟩ := fits
          exact absurd (List.cons.inj (List.cons.inj same).2).1 (by decide)

/-- A request is answered by the one route that finds its path, in whatever order the routes are
tried. By induction on the order.
-/
theorem handler_route {route : Route} {path text : Bytes} {captures : List Bytes}
    (listed : route ∈ order) (found : matchWhole route.pattern path = some (text, captures))
    (others : ∀ other, other ≠ route → matchWhole other.pattern path = none)
    : handler order le logs (lit "GET") path = route.page le logs captures := by
  have first : order.findSome? (fun route =>
        (matchWhole route.pattern path).map fun found => route.page le logs found.2)
      = some (route.page le logs captures) := by
    induction order with
    | nil => exact absurd listed List.not_mem_nil
    | cons next order ih =>
        rw [List.findSome?_cons]
        by_cases same : next = route
        · rw [same, found]
          rfl
        · rw [others next same]
          exact ih ((List.mem_cons.mp listed).resolve_left (Ne.symm same))
  rw [handler, if_neg (fun differs => differs rfl), first]

/-- The page of a buffer is found by its name. -/
theorem handler_bufferPath (listed : Route.buffer ∈ order) (key : Bytes)
    : handler order le logs (lit "GET") (bufferPath key) = bufferPage logs (urlencode key) := by
  rw [bufferPath, List.append_assoc]
  exact handler_route listed (matchWhole_buffer _)
    fun other differs => matchWhole_other differs _

/-- The index is found at the root. -/
theorem handler_root (listed : Route.index ∈ order)
    : handler order le logs (lit "GET") (lit "/") = indexPage le logs := by
  refine @handler_route _ _ _ .index _ (lit "/") [lit "/"] listed (by decide +kernel) ?_
  intro other differs
  cases other with
  | index => exact absurd rfl differs
  | status => decide +kernel
  | console => decide +kernel
  | buffer => decide +kernel

/-- A buffer is found under its key, which no other has. -/
theorem lookup_of_mem {buffers : List (Bytes × List Message)} {key : Bytes}
    {messages : List Message} (once : (buffers.map Prod.fst).Nodup)
    (isBuffer : (key, messages) ∈ buffers)
    : buffers.lookup key = some messages := by
  obtain ⟨before, after, rfl⟩ := List.append_of_mem isBuffer
  refine List.lookup_eq_some_iff.mpr ⟨before, after, rfl, fun other isBefore => bne_iff_ne.mpr ?_⟩
  rw [List.map_append, List.map_cons] at once
  obtain ⟨-, -, apart⟩ := List.nodup_append.mp once
  exact (apart other.1 (List.mem_map_of_mem isBefore) key List.mem_cons_self).symm

/-- What is done to every entry of a list ends if it ends for each of them, by induction on the
list.
-/
theorem mapM_eq_ok_iff {α β Failure : Type} {f : α → Except Failure β} {entries : List α}
    {results : List β}
    : entries.mapM f = .ok results
      ↔ List.Forall₂ (fun entry result => f entry = .ok result) entries results := by
  induction entries generalizing results with
  | nil =>
      rw [List.mapM_nil, List.forall₂_nil_left_iff]
      exact ⟨fun ends => (Except.ok.inj ends).symm, fun isEmpty => congrArg Except.ok isEmpty.symm⟩
  | cons entry entries ih =>
      rw [List.mapM_cons, List.forall₂_cons_left_iff]
      constructor
      · intro ends
        cases isFirst : f entry with
        | error failure =>
            rw [isFirst] at ends
            cases ends
        | ok first =>
            cases areLater : entries.mapM f with
            | error failure =>
                rw [isFirst, areLater] at ends
                cases ends
            | ok later =>
                rw [isFirst, areLater] at ends
                exact ⟨first, later, rfl, ih.mp areLater, (Except.ok.inj ends).symm⟩
      · rintro ⟨first, later, isFirst, areLater, rfl⟩
        rw [isFirst, ih.mpr areLater]
        rfl

/-- A message that has a nick and a text. -/
def Message.Complete (irc : Message) : Prop := irc.nick.isSome ∧ irc.params[1]?.isSome

/-- A message can be shown if it has a nick and a text. -/
theorem exists_chatLine_iff {irc : Message} : (∃ line, chatLine irc = .ok line) ↔ irc.Complete := by
  rw [chatLine, Message.Complete]
  cases irc.params[1]? <;> cases irc.nick <;> simp

/-- Messages have lines if they can all be shown, by induction on them. -/
theorem exists_chatLines_iff {messages : List Message}
    : (∃ lines, List.Forall₂ (fun irc line => chatLine irc = .ok line) messages lines)
      ↔ ∀ irc ∈ messages, irc.Complete := by
  induction messages with
  | nil => exact ⟨fun _ _ isIn => absurd isIn List.not_mem_nil, fun _ => ⟨[], .nil⟩⟩
  | cons irc messages ih =>
      rw [List.forall_mem_cons, ← ih, ← exists_chatLine_iff]
      constructor
      · rintro ⟨_, shown⟩
        cases shown with
        | cons isLine areLines => exact ⟨⟨_, isLine⟩, ⟨_, areLines⟩⟩
      · rintro ⟨⟨line, isLine⟩, ⟨lines, areLines⟩⟩
        exact ⟨line :: lines, .cons isLine areLines⟩

/-- The page of a buffer whose chat messages can all be shown holds their lines in order. -/
theorem messagesPage_complete {messages : List Message}
    (complete : ∀ irc ∈ messages, isChat irc = true → irc.Complete)
    : ∃ lines, List.Forall₂ (fun irc line => chatLine irc = .ok line) (messages.filter isChat) lines
      ∧ messagesPage messages = .ok (lit "text/html; charset=utf-8",
        html (backLink ++ lit "<pre>" ++ lines.flatten ++ lit "</pre>")) := by
  obtain ⟨lines, areLines⟩ := exists_chatLines_iff.mpr fun irc isShown =>
    complete irc (List.mem_of_mem_filter isShown) (List.of_mem_filter isShown)
  refine ⟨lines, areLines, ?_⟩
  rw [messagesPage, mapM_eq_ok_iff.mpr areLines]
  rfl

/-- The page of a buffer with a chat message that cannot be shown fails. -/
theorem messagesPage_incomplete {messages : List Message} {irc : Message} (isIn : irc ∈ messages)
    (chat : isChat irc = true) (incomplete : ¬ irc.Complete)
    : ∃ failure, messagesPage messages = .error failure := by
  rw [messagesPage]
  cases shown : (messages.filter isChat).mapM chatLine with
  | error failure => exact ⟨failure, rfl⟩
  | ok lines =>
      have complete := exists_chatLines_iff.mp ⟨lines, mapM_eq_ok_iff.mp shown⟩
      exact absurd (complete irc (List.mem_filter.mpr ⟨isIn, chat⟩)) incomplete

/-- The index links to every buffer, and every link leads to the page of its buffer, in whatever
order the routes are tried. The page holds the lines of the chat messages of the buffer if each of
them has a nick and a text; otherwise the handler fails.
-/
theorem index_leads_to_pages (le : Bytes → Bytes → Bool) (logs : Logs) (order : List Route)
    (listed : ∀ route, route ∈ order)
    (keyed : ∀ buffer ∈ logs.buffers, irccase buffer.1 = buffer.1)
    (once : (logs.buffers.map Prod.fst).Nodup)
    {key : Bytes} {messages : List Message} (isBuffer : (key, messages) ∈ logs.buffers)
    : (∃ body, handler order le logs (lit "GET") (lit "/") = .ok (lit "text/html", body)
        ∧ bufferLink key <:+: body)
      ∧ handler order le logs (lit "GET") (bufferPath key) = messagesPage messages
      ∧ ((∀ irc ∈ messages, isChat irc = true → irc.Complete)
        → ∃ lines,
          List.Forall₂ (fun irc line => chatLine irc = .ok line) (messages.filter isChat) lines
          ∧ handler order le logs (lit "GET") (bufferPath key)
            = .ok (lit "text/html; charset=utf-8",
              html (backLink ++ lit "<pre>" ++ lines.flatten ++ lit "</pre>")))
      ∧ ((∃ irc ∈ messages, isChat irc = true ∧ ¬ irc.Complete)
        → ∃ failure, handler order le logs (lit "GET") (bufferPath key) = .error failure) := by
  have leads : handler order le logs (lit "GET") (bufferPath key) = messagesPage messages := by
    have found : logs.buffers.lookup key = some messages := lookup_of_mem once isBuffer
    rw [handler_bufferPath (listed .buffer), bufferPage]
    simp only [urldecode_urlencode, keyed _ isBuffer, found]
  refine ⟨⟨_, handler_root (listed .index), ?_⟩, leads, ?_, ?_⟩
  · have isKey : key ∈ (logs.buffers.map Prod.fst).mergeSort le :=
      List.mem_mergeSort.mpr (List.mem_map_of_mem isBuffer)
    obtain ⟨before, after, isSplit⟩ := List.append_of_mem isKey
    have inList : bufferLink key
        <:+: ((logs.buffers.map Prod.fst).mergeSort le).flatMap bufferLink := by
      rw [isSplit, List.flatMap_append, List.flatMap_cons, ← List.append_assoc]
      exact List.infix_append _ _ _
    exact inList.trans ((List.infix_append _ _ _).trans (List.infix_append _ _ _))
  · rw [leads]
    exact messagesPage_complete
  · rw [leads]
    rintro ⟨irc, isIn, chat, incomplete⟩
    exact messagesPage_incomplete isIn chat incomplete

/-- A message of a channel. -/
def channelMessage : Message :=
  ⟨lit "PRIVMSG", [lit "#c", lit "a < b"], some (lit "al"), lit "12:00:00"⟩

/-- The logs of a channel and of a query in which the client has spoken itself. -/
def twoBuffers : Logs where
  buffers :=
    [
      (lit "#C", [channelMessage]),
      (lit "AL", [⟨lit "PRIVMSG", [lit "al", lit "hi"], none, lit "12:00:01"⟩])
    ]
  statusMessages := [⟨lit "12:00:02", lit "<b>", lit "a > b"⟩]
  messages := [channelMessage]

/-- Witness: the page of a channel, with the routes in some order. -/
theorem index_leads_to_pages_witness
    : (∃ body, handler [.buffer, .index, .console, .status] (fun _ _ => true) twoBuffers
          (lit "GET") (lit "/")
        = .ok (lit "text/html", body)
        ∧ bufferLink (lit "#C") <:+: body)
      ∧ ∃ lines, List.Forall₂ (fun irc line => chatLine irc = .ok line) [channelMessage] lines
        ∧ handler [.buffer, .index, .console, .status] (fun _ _ => true) twoBuffers (lit "GET")
            (bufferPath (lit "#C"))
          = .ok (lit "text/html; charset=utf-8",
            html (backLink ++ lit "<pre>" ++ lines.flatten ++ lit "</pre>")) := by
  have leads := @index_leads_to_pages (fun _ _ => true) twoBuffers
    [.buffer, .index, .console, .status] (fun route => by cases route <;> simp)
    (by
      intro buffer isBuffer
      rcases List.mem_cons.mp isBuffer with rfl | isLast
      · decide
      · rw [List.mem_singleton.mp isLast]
        decide)
    (by decide) (lit "#C") [channelMessage] List.mem_cons_self
  refine ⟨leads.1, leads.2.2.1 ?_⟩
  intro irc isIn _
  rw [List.mem_singleton.mp isIn]
  exact ⟨rfl, rfl⟩

end Routes

-----------------------------------------------------------------------------------------
-- Markup
-----------------------------------------------------------------------------------------

/-- What stands for a character of a text. -/
def entity (c : Byte) : Bytes :=
  if c = chr '<' then lit "&lt;" else if c = chr '>' then lit "&gt;" else [c]

/-- Texts are encoded byte by byte. -/
theorem htmlencode_eq (str : Bytes) : htmlencode str = str.flatMap entity := by
  rw [htmlencode, gsub_once]
  refine List.flatMap_congr fun c _ => ?_
  rw [entity]
  by_cases isOpen : c = chr '<'
  · rw [isOpen]
    rfl
  by_cases isClose : c = chr '>'
  · rw [isClose]
    rfl
  rw [if_neg isOpen, if_neg isClose, if_neg (by simp [isOpen, isClose])]

/-- A text that has no markup. -/
def Unmarked (text : Bytes) : Prop := chr '<' ∉ text ∧ chr '>' ∉ text

/-- An encoded text has no markup. -/
theorem unmarked_htmlencode (str : Bytes) : Unmarked (htmlencode str) := by
  have all (c : Byte) : Unmarked (entity c) := by
    rw [entity]
    split
    · exact ⟨by decide, by decide⟩
    · split
      · exact ⟨by decide, by decide⟩
      · next notOpen notClose =>
          exact ⟨fun isIn => notOpen (List.mem_singleton.mp isIn).symm,
            fun isIn => notClose (List.mem_singleton.mp isIn).symm⟩
  rw [htmlencode_eq]
  constructor <;> intro isIn
  · obtain ⟨c, -, inEntity⟩ := List.mem_flatMap.mp isIn
    exact (all c).1 inEntity
  · obtain ⟨c, -, inEntity⟩ := List.mem_flatMap.mp isIn
    exact (all c).2 inEntity

/-- A path has no markup, and no quotation mark ends it. -/
theorem unmarked_bufferPath (key : Bytes)
    : Unmarked (bufferPath key) ∧ chr '"' ∉ bufferPath key := by
  have all (c : Byte) : chr '<' ∉ escaped c ∧ chr '>' ∉ escaped c ∧ chr '"' ∉ escaped c :=
    @forall_byte (fun c => chr '<' ∉ escaped c ∧ chr '>' ∉ escaped c ∧ chr '"' ∉ escaped c)
      (by decide +kernel) c
  have inPath {c : Byte} (other : c ∉ lit "/buffer/") (notEnd : c ∉ lit ".txt")
      (notEscaped : ∀ d, c ∉ escaped d)
      : c ∉ bufferPath key := by
    rw [bufferPath, urlencode_eq]
    intro isIn
    rcases List.mem_append.mp isIn with before | isEnd
    · rcases List.mem_append.mp before with isStart | inName
      · exact other isStart
      · obtain ⟨d, -, inEscape⟩ := List.mem_flatMap.mp inName
        exact notEscaped d inEscape
    · exact notEnd isEnd
  exact ⟨⟨inPath (by decide) (by decide) fun d => (all d).1,
    inPath (by decide) (by decide) fun d => (all d).2.1⟩,
    inPath (by decide) (by decide) fun d => (all d).2.2⟩

/-- The markup of the pages. -/
def tags : List Bytes :=
  [
    lit "<!DOCTYPE html>\n<html lang=\"en\"><head><meta charset=\"utf-8\">",
    lit "<title>Snowcone</title></head><body>", lit "</body></html>\n",
    lit "<p><a href=\"/\">Index</a></p>", lit "<ul><li><a href=\"/status.html\">Status</a>",
    lit "<li><a href=\"/console.html\">Console</a>", lit "</a>", lit "</ul>", lit "<table>",
    lit "</table>", lit "<tr><td>", lit "</td><td>", lit "</td></tr>", lit "<pre>", lit "</pre>"
  ]

/-- A page is made of its own markup, of links to paths, and of texts without markup. -/
inductive Marked : Bytes → Prop
  | nil : Marked []
  | tag {piece rest : Bytes} (isTag : piece ∈ tags) (more : Marked rest) : Marked (piece ++ rest)
  | link {path rest : Bytes} (unmarked : Unmarked path) (unquoted : chr '"' ∉ path)
    (more : Marked rest) : Marked (lit "<li><a href=\"" ++ path ++ lit "\">" ++ rest)
  | text {text rest : Bytes} (unmarked : Unmarked text) (more : Marked rest)
    : Marked (text ++ rest)

/-- Two parts of a page make one, by induction on the first. -/
theorem Marked.append {first second : Bytes} (marked : Marked first) (also : Marked second)
    : Marked (first ++ second) := by
  induction marked with
  | nil => exact also
  | tag isTag _ ih =>
      rw [List.append_assoc]
      exact .tag isTag ih
  | link unmarked unquoted _ ih =>
      rw [List.append_assoc]
      exact .link unmarked unquoted ih
  | text unmarked _ ih =>
      rw [List.append_assoc]
      exact .text unmarked ih

/-- A piece of markup is part of a page. -/
theorem marked_tag {piece : Bytes} (isTag : piece ∈ tags) : Marked piece := by
  have marked := Marked.tag isTag .nil
  rwa [List.append_nil] at marked

/-- A text without markup is part of a page. -/
theorem marked_text {text : Bytes} (unmarked : Unmarked text) : Marked text := by
  have marked := Marked.text unmarked .nil
  rwa [List.append_nil] at marked

/-- Rows of a page, one after the other, by induction on them. -/
theorem marked_flatMap {α : Type} {row : α → Bytes} {entries : List α}
    (rows : ∀ entry ∈ entries, Marked (row entry))
    : Marked (entries.flatMap row) := by
  induction entries with
  | nil => exact .nil
  | cons entry entries ih =>
      rw [List.flatMap_cons]
      exact (rows entry List.mem_cons_self).append
        (ih fun later isIn => rows later (List.mem_cons_of_mem _ isIn))

/-- The frame of a page. -/
theorem marked_html {body : Bytes} (marked : Marked body) : Marked (html body) :=
  (((marked_tag (by simp [tags])).append (marked_tag (by simp [tags]))).append marked).append
    (marked_tag (by simp [tags]))

/-- The link of a buffer. -/
theorem marked_bufferLink (key : Bytes) : Marked (bufferLink key) := by
  obtain ⟨unmarked, unquoted⟩ := unmarked_bufferPath key
  rw [bufferLink, List.append_assoc _ (htmlencode key)]
  exact .link unmarked unquoted
    ((marked_text (unmarked_htmlencode key)).append (marked_tag (by simp [tags])))

/-- A chat message shown adds no markup. -/
theorem unmarked_chatLine {irc : Message} {line : Bytes} (shown : chatLine irc = .ok line)
    : Unmarked line := by
  rw [chatLine] at shown
  split at shown
  · cases shown
  · cases shown
  · obtain rfl := Except.ok.inj shown
    exact unmarked_htmlencode _

section Pages

variable {order : List Route} {le : Bytes → Bytes → Bool} {logs : Logs} {type body : Bytes}

/-- The times of what the pages show have no markup. -/
structure Logs.TimesUnmarked (logs : Logs) : Prop where
  statusMessages : ∀ entry ∈ logs.statusMessages, Unmarked entry.time
  messages : ∀ irc ∈ logs.messages, Unmarked irc.time

/-- The index adds no markup. -/
theorem marked_indexPage (shown : indexPage le logs = .ok (type, body)) : Marked body := by
  obtain ⟨-, rfl⟩ := Prod.mk.inj (Except.ok.inj shown)
  have links : Marked (((logs.buffers.map Prod.fst).mergeSort le).flatMap bufferLink) :=
    marked_flatMap fun key _ => marked_bufferLink key
  exact marked_html ((((marked_tag (by simp [tags])).append (marked_tag (by simp [tags]))).append
    links).append (marked_tag (by simp [tags])))

/-- A table adds no markup to that of its rows. -/
theorem marked_table {α : Type} {row : α → Bytes} {entries : List α}
    (rows : ∀ entry ∈ entries, Marked (row entry))
    : Marked (html (backLink ++ lit "<table>" ++ entries.flatMap row ++ lit "</table>")) :=
  marked_html ((((marked_tag (by simp [tags, backLink])).append
    (marked_tag (by simp [tags]))).append (marked_flatMap rows)).append
    (marked_tag (by simp [tags])))

/-- A row of status messages. -/
theorem marked_statusRow {entry : Status} (unmarked : Unmarked entry.time)
    : Marked (statusRow entry) := by
  have start : Marked (lit "<tr><td>" ++ entry.time ++ lit "</td><td>") :=
    ((marked_tag (by simp [tags])).append (marked_text unmarked)).append
      (marked_tag (by simp [tags]))
  have middle := start.append (marked_text (unmarked_htmlencode entry.category))
  exact ((middle.append (marked_tag (by simp [tags]))).append
    (marked_text (unmarked_htmlencode entry.text))).append (marked_tag (by simp [tags]))

/-- A row of the console. -/
theorem marked_consoleRow {irc : Message} (unmarked : Unmarked irc.time)
    : Marked (consoleRow irc) :=
  ((((marked_tag (by simp [tags])).append (marked_text unmarked)).append
    (marked_tag (by simp [tags]))).append (marked_text (unmarked_htmlencode _))).append
    (marked_tag (by simp [tags]))

/-- Lines of a conversation add no markup, by induction on them. -/
theorem marked_chatLines {messages : List Message} {lines : List Bytes}
    (shown : List.Forall₂ (fun irc line => chatLine irc = .ok line) messages lines)
    : Marked lines.flatten := by
  induction shown with
  | nil => exact .nil
  | cons isLine _ ih => exact .text (unmarked_chatLine isLine) ih

/-- The page of a buffer adds no markup. -/
theorem marked_messagesPage {messages : List Message}
    (shown : messagesPage messages = .ok (type, body))
    : Marked body := by
  rw [messagesPage] at shown
  cases areLines : (messages.filter isChat).mapM chatLine with
  | error reason =>
      rw [areLines] at shown
      cases shown
  | ok lines =>
      rw [areLines] at shown
      obtain ⟨-, rfl⟩ := Prod.mk.inj (Except.ok.inj shown)
      have marked := marked_chatLines (mapM_eq_ok_iff.mp areLines)
      exact marked_html ((((marked_tag (by simp [tags, backLink])).append
        (marked_tag (by simp [tags]))).append marked).append (marked_tag (by simp [tags])))

/-- Whatever the names of buffers, the status messages and the messages of the server are, a page
that is served has no markup but its own.
-/
theorem pages_add_no_markup (order : List Route) (le : Bytes → Bytes → Bool) (logs : Logs)
    (times : logs.TimesUnmarked) {method path type body : Bytes}
    (served : handler order le logs method path = .ok (type, body))
    : Marked body := by
  rw [handler] at served
  split at served
  · cases served
  · split at served
    · next reply isReply =>
        obtain ⟨route, -, isFound⟩ := List.exists_of_findSome?_eq_some isReply
        obtain ⟨found, -, rfl⟩ := Option.map_eq_some_iff.mp isFound
        cases route with
        | index => exact marked_indexPage served
        | status =>
            obtain ⟨-, rfl⟩ := Prod.mk.inj (Except.ok.inj served)
            exact marked_table fun entry isIn => marked_statusRow (times.statusMessages entry isIn)
        | console =>
            obtain ⟨-, rfl⟩ := Prod.mk.inj (Except.ok.inj served)
            exact marked_table fun irc isIn => marked_consoleRow (times.messages irc isIn)
        | buffer =>
            change bufferPage logs _ = _ at served
            rw [bufferPage] at served
            split at served
            · cases served
            · exact marked_messagesPage served
    · cases served

/-- Witness: a status message and a message of the console, both with markup in them. -/
theorem pages_add_no_markup_witness
    : ∃ type statusBody consoleBody,
      handler [.console, .status] (fun _ _ => true) twoBuffers (lit "GET") (lit "/status.html")
        = .ok (type, statusBody)
      ∧ handler [.console, .status] (fun _ _ => true) twoBuffers (lit "GET") (lit "/console.html")
        = .ok (type, consoleBody)
      ∧ Marked statusBody ∧ Marked consoleBody := by
  have times : twoBuffers.TimesUnmarked :=
    ⟨fun entry isIn => by
        rw [List.mem_singleton.mp isIn]
        exact ⟨by decide, by decide⟩,
      fun irc isIn => by
        rw [List.mem_singleton.mp isIn]
        exact ⟨by decide, by decide⟩⟩
  have isStatus : handler [.console, .status] (fun _ _ => true) twoBuffers (lit "GET")
      (lit "/status.html") = statusPage twoBuffers := by
    rfl
  have isConsole : handler [.console, .status] (fun _ _ => true) twoBuffers (lit "GET")
      (lit "/console.html") = consolePage twoBuffers := by
    rfl
  exact ⟨_, _, _, isStatus, isConsole, pages_add_no_markup _ _ _ times isStatus,
    pages_add_no_markup _ _ _ times isConsole⟩

end Pages

end Snowcone.Chat.LogServer
