import Snowcone.IrcParsing.DumpReadsBack
import Snowcone.Sending.SendCorrectness

/-! The `/quote` command: a line is parsed and sent again, and when the line that goes out
repeats what was typed.
-/

namespace Snowcone.Sending

open Bytes CMemory Decimal IrcParsing

/-- `l_parse_irc`, for the message whose table it pushes; where the text is rejected, the
result is `nil`.
-/
def lParseIrc (txt : Bytes) : Option (IrcMsg Bytes) :=
  match readBack (parseIrcMessage (strcpy txt) 0) with
  | some (.ok msg) => some msg
  | _ => none

/-- `next(irc.tags) == nil`, for the table of these tags. -/
def noTags (tags : List (IrcTag Bytes)) : Bool := tags.isEmpty

/-- The command as it stands on the wire: `table.concat` writes a number in decimal. -/
def commandText : CommandValue → Bytes
  | .number code => formatPadded 0 code
  | .name text => text

/-- The arguments that `table.unpack` makes of a message. -/
def unpack (args : List Bytes) : List (Argument Int) := args.map fun arg => .plain (.string arg)

/-- The command `quote`. -/
def quote (client : Client) (txt : Bytes) : Client × Ended :=
  match lParseIrc txt with
  | none => (client, .raises "failed to parse IRC command")
  | some msg =>
      let irc := pushIrcMsg msg
      if irc.source ≠ none then (client, .raises "source not supported")
      else if ¬ noTags msg.tags then (client, .raises "tags not supported")
      -- a number is recorded as a number, and it is neither `PRIVMSG` nor `NOTICE`
      else send (formatPadded 0) client (commandText irc.command) (unpack irc.args)

/-- A command that stands on the wire as it was typed and is read there as a command: a number
is written like one, and nothing makes it a source, tags or the end of the line.
-/
structure PlainCommand (command : Bytes) : Prop where
  canonical : ∀ code, pushCommand command = .number code → formatPadded 0 code = command
  unsourced : command.head? ≠ some (chr ':')
  untagged : command.head? ≠ some (chr '@')
  unbroken : chr '\n' ∉ command

/-- The line is read as the command and the arguments of the message. -/
def Repeats (raw : Bytes) (typed : IrcMsg Bytes) : Prop :=
  ∃ msg, Decodes raw msg ∧ msg.command = typed.command ∧ msg.args = typed.args

/-- The text is parsed as the grammar derives it. -/
theorem lParseIrc_eq_some_iff {txt : Bytes} {msg : IrcMsg Bytes}
    : lParseIrc txt = some msg ↔ Message (before 0 txt) msg := by
  rw [← messageOf_eq_ok_iff, lParseIrc, (parseIrcMessage_refines (cString_strcpy txt)).readBack_eq]
  cases messageOf (before 0 txt) with
  | error code => exact iff_of_false nofun nofun
  | ok other => exact ⟨fun same => congrArg _ (Option.some.inj same),
      fun same => congrArg _ (Except.ok.inj same)⟩

-----------------------------------------------------------------------------------------
-- The room a message needs
-----------------------------------------------------------------------------------------

/-- The arguments of the wire, each behind a space. -/
def wireArgs (args : List Bytes) : Bytes :=
  (wireParts args).flatMap (fun next => chr ' ' :: next)

/-- The line is the command with its arguments behind it. -/
theorem bodyOf_eq (cmd : Bytes) (args : List Bytes) : bodyOf cmd args = cmd ++ wireArgs args := by
  rw [bodyOf, concat_cons]
  rfl

/-- An argument in front of others stands on the wire as it is. -/
theorem wireArgs_cons (arg next : Bytes) (args : List Bytes)
    : wireArgs (arg :: next :: args) = chr ' ' :: (arg ++ wireArgs (next :: args)) := by
  rw [wireArgs, wireParts, List.flatMap_cons]
  rfl

/-- A word stands on the wire as it is, in front of others or alone. -/
theorem wireArgs_word {word : Bytes} (nonempty : word ≠ []) (plain : chr ' ' ∉ word)
    (uncoloned : word.head? ≠ some (chr ':')) (args : List Bytes)
    : wireArgs (word :: args) = chr ' ' :: (word ++ wireArgs args) := by
  cases args with
  | cons next args => exact wireArgs_cons word next args
  | nil =>
      have isWord : isPlain word = true :=
        (isPlain_iff word).mpr (not_or.mpr ⟨nonempty, not_or.mpr ⟨plain, uncoloned⟩⟩)
      simp only [wireArgs, wireParts, isWord, if_true, List.flatMap_cons, List.flatMap_nil,
        List.append_nil]

/-- No text that arguments are derived from is shorter than the arguments on the wire, by
induction on the derivation.
-/
theorem wireArgs_le_of_arguments {rest : Bytes} {args : List Bytes} (derived : Arguments rest args)
    : (wireArgs args).length ≤ rest.length := by
  induction derived with
  | done count => exact Nat.zero_le _
  | @word count word rest args nonempty plain uncoloned more ih =>
      rw [wireArgs_word nonempty plain uncoloned]
      simp only [List.length_append, List.length_cons, spaces, List.length_replicate]
      omega
  | last count text =>
      have most : (wireArgs [text]).length ≤ text.length + 2 := by
        simp only [wireArgs, wireParts, List.flatMap_singleton, List.length_cons]
        split
        · omega
        · simp
      simp only [List.length_append, List.length_cons, spaces, List.length_replicate]
      omega

/-- No text that a command is derived from is shorter than the line of the command. -/
theorem bodyOf_le_of_command {tags : List (IrcTag Bytes)} {source text : Bytes} {msg : IrcMsg Bytes}
    (derived : Command tags source text msg)
    : (bodyOf msg.command msg.args).length ≤ text.length := by
  cases derived with
  | mk nonempty plain arguments =>
      rw [bodyOf_eq, List.length_append, List.length_append]
      exact Nat.add_le_add_left (wireArgs_le_of_arguments arguments) _

/-- The same behind a source. -/
theorem bodyOf_le_of_sourced {tags : List (IrcTag Bytes)} {text : Bytes} {msg : IrcMsg Bytes}
    (derived : Sourced tags text msg)
    : (bodyOf msg.command msg.args).length ≤ text.length := by
  cases derived with
  | bare uncoloned command => exact bodyOf_le_of_command command
  | sourced plain count command =>
      have room := bodyOf_le_of_command command
      simp only [List.length_append, List.length_cons]
      omega

/-- What has a source or tags is longer than the line of its command.
Witness: the colon or the at sign itself, if there are no spaces in front of it.
-/
theorem bodyOf_lt_of_message {line : Bytes} {msg : IrcMsg Bytes} (derived : Message line msg)
    (starts : line.head? = some (chr ':') ∨ line.head? = some (chr '@'))
    : (bodyOf msg.command msg.args).length < line.length := by
  cases derived with
  | tagged lead count plain tagList sourced =>
      have room := bodyOf_le_of_sourced sourced
      simp only [List.length_append, List.length_cons]
      omega
  | @bare lead text msg untagged sourced =>
      cases lead with
      | succ lead =>
          have room := bodyOf_le_of_sourced sourced
          simp only [List.length_append, spaces, List.length_replicate]
          omega
      | zero =>
          cases sourced with
          | bare uncoloned command => exact absurd starts (not_or.mpr ⟨uncoloned, untagged⟩)
          | sourced plain count command =>
              have room := bodyOf_le_of_command command
              simp only [List.length_append, List.length_cons]
              omega

-----------------------------------------------------------------------------------------
-- The line that goes out
-----------------------------------------------------------------------------------------

/-- The texts of the arguments are the arguments. -/
theorem textsOf_unpack (args : List Bytes) : textsOf (formatPadded 0) (unpack args) = args := by
  rw [textsOf, unpack, List.map_map]
  exact List.map_id _

/-- What is accepted is a message without source and tags, and its line goes out. -/
theorem quote_accepted {client : Client} {txt : Bytes}
    (accepted : ∀ text, (quote client txt).2 ≠ .raises text)
    : ∃ typed irc irc',
        lParseIrc txt = some typed
        ∧ client.ircState = some irc
        ∧ (quote client txt).1.ircState = some irc'
        ∧ irc'.sent = irc.sent ++ [lineOf (commandText (pushCommand typed.command)) typed.args]
        ∧ ¬ BadTexts typed.args := by
  cases parsed : lParseIrc txt with
  | none =>
      simp only [quote, parsed] at accepted
      exact absurd rfl (accepted _)
  | some typed =>
      simp only [quote, parsed] at accepted ⊢
      split_ifs at accepted ⊢ with sourced untagged
      · exact absurd rfl (accepted _)
      · cases connected : client.ircState with
        | none =>
            simp only [send, connected] at accepted
            exact absurd rfl (accepted _)
        | some irc =>
            have fine : ¬ Refused (commandText (pushIrcMsg typed).command)
                (textsOf (formatPadded 0) (unpack (pushIrcMsg typed).args)) := by
              intro refused
              obtain ⟨text, raises⟩ := send_of_refused _ connected refused
              exact accepted text (congrArg Prod.snd raises)
            obtain ⟨client', ended, sends, state, _⟩ := send_of_not_refused _ connected fine
            rw [textsOf_unpack] at state fine
            rw [sends]
            exact ⟨typed, irc, _, rfl, rfl, state, rfl, fun bad => fine (Or.inl bad)⟩
      · exact absurd rfl (accepted _)

/-- A number on the wire is made of digits and a sign. -/
theorem commandText_of_char {command : Bytes} {c : Byte} (notDigit : isNumeral c = false)
    (notSign : c ≠ chr '-') (isIn : c ∈ commandText (pushCommand command))
    : commandText (pushCommand command) = command := by
  cases kept : pushCommand command with
  | name text => exact (eq_of_pushCommand kept).symm
  | number code =>
      rw [kept] at isIn
      rcases formatPadded_chars isIn with digit | sign
      · rw [digit] at notDigit
        cases notDigit
      · exact absurd sign notSign

/-- The command stands on the wire as it was typed exactly if it is canonical. -/
theorem commandText_eq_iff (command : Bytes)
    : commandText (pushCommand command) = command
      ↔ ∀ code, pushCommand command = .number code → formatPadded 0 code = command := by
  cases kept : pushCommand command with
  | name text =>
      refine iff_of_true (eq_of_pushCommand kept).symm ?_
      rintro code ⟨⟩
  | number code =>
      constructor
      · rintro same other ⟨⟩
        exact same
      · intro canonical
        exact canonical code rfl

/-- The command on the wire is a word. -/
theorem commandText_word {msg : IrcMsg Bytes} (wellFormed : WellFormed msg)
    : commandText (pushCommand msg.command) ≠ []
      ∧ chr ' ' ∉ commandText (pushCommand msg.command)
      ∧ 0 ∉ commandText (pushCommand msg.command) := by
  refine ⟨?_, fun space => ?_, fun zero => ?_⟩
  · cases kept : pushCommand msg.command with
    | name text =>
        rw [commandText, ← eq_of_pushCommand kept]
        exact wellFormed.nonempty
    | number code => exact formatPadded_ne_nil 0 code
  · rw [commandText_of_char rfl (by decide) space] at space
    exact wellFormed.command.1 space
  · rw [commandText_of_char rfl (by decide) zero] at zero
    exact wellFormed.command.2 zero

/-- The arguments on the wire neither end a string nor the line. -/
theorem wireArgs_unbroken {args : List Bytes} (good : ¬ BadTexts args) {c : Byte}
    (breaks : Breaks c)
    : c ∉ wireArgs args := by
  intro isIn
  obtain ⟨part, among, inPart⟩ := List.mem_flatMap.mp isIn
  rcases List.mem_cons.mp inPart with rfl | inside
  · exact absurd breaks (by unfold Breaks; decide)
  · exact wireParts_unbroken args good part among ⟨c, inside, breaks⟩

/-- A command that is read as it was typed did not look like a source or like tags: there would
not have been room for it.
-/
theorem commandText_head_ne {typed msg : IrcMsg Bytes}
    (nonempty : commandText (pushCommand typed.command) ≠ [])
    (derived : Message (bodyOf (commandText (pushCommand typed.command)) typed.args) msg)
    (sameCommand : msg.command = typed.command) (sameArgs : msg.args = typed.args) {c : Byte}
    (special : c = chr ':' ∨ c = chr '@')
    : (commandText (pushCommand typed.command)).head? ≠ some c := by
  intro starts
  have same : commandText (pushCommand typed.command) = typed.command := by
    refine commandText_of_char ?_ ?_ (List.mem_of_head? starts)
    · rcases special with rfl | rfl <;> rfl
    · rcases special with rfl | rfl <;> decide
  have lineStarts := head_append_of_ne_nil nonempty (wireArgs typed.args)
  rw [starts, ← bodyOf_eq] at lineStarts
  have longer := bodyOf_lt_of_message derived
    (special.imp (lineStarts.trans <| congrArg some ·) (lineStarts.trans <| congrArg some ·))
  rw [sameCommand, sameArgs, same] at longer
  exact Nat.lt_irrefl _ longer

/-- The line of a message repeats it exactly if its command is plain. -/
theorem repeats_lineOf_iff {typed : IrcMsg Bytes} (wellFormed : WellFormed typed)
    (good : ¬ BadTexts typed.args)
    : Repeats (lineOf (commandText (pushCommand typed.command)) typed.args) typed
      ↔ PlainCommand typed.command := by
  obtain ⟨nonempty, plain, clean⟩ := commandText_word wellFormed
  have cleanLine : 0 ∉ bodyOf (commandText (pushCommand typed.command)) typed.args := by
    rw [bodyOf_eq, List.mem_append, not_or]
    exact ⟨clean, wireArgs_unbroken good (Or.inl rfl)⟩
  constructor
  · rintro ⟨msg, decodes, sameCommand, sameArgs⟩
    obtain ⟨unbroken, reads⟩ := (decodes_iff cleanLine msg).mp decodes
    have derived := messageOf_eq_ok_iff.mp reads
    have unsourced := commandText_head_ne nonempty derived sameCommand sameArgs (Or.inl rfl)
    have untagged := commandText_head_ne nonempty derived sameCommand sameArgs (Or.inr rfl)
    have asked := messageOf_eq_ok_iff.mpr
      (bodyOf_message nonempty plain unsourced untagged good)
    have same : commandText (pushCommand typed.command) = typed.command := by
      rw [reads] at asked
      exact (congrArg IrcMsg.command (Except.ok.inj asked)).symm.trans sameCommand
    rw [same] at unsourced untagged unbroken
    rw [bodyOf_eq, List.mem_append, not_or] at unbroken
    exact ⟨(commandText_eq_iff _).mp same, unsourced, untagged, unbroken.1⟩
  · intro plainCommand
    have same := (commandText_eq_iff _).mpr plainCommand.canonical
    rw [same] at cleanLine ⊢
    have asked := messageOf_eq_ok_iff.mpr (bodyOf_message wellFormed.nonempty
      wellFormed.command.1 plainCommand.unsourced plainCommand.untagged good)
    refine ⟨_, (decodes_iff cleanLine _).mpr ⟨?_, asked⟩, rfl, rfl⟩
    rw [bodyOf_eq, List.mem_append, not_or]
    exact ⟨plainCommand.unbroken, wireArgs_unbroken good (Or.inr (Or.inr rfl))⟩

-----------------------------------------------------------------------------------------
-- What was typed
-----------------------------------------------------------------------------------------

/-- One line goes out for a text that is accepted, and it repeats what was typed exactly if
the command that was typed is plain.
-/
theorem quote_repeats_iff {client : Client} {txt : Bytes}
    (accepted : ∀ text, (quote client txt).2 ≠ .raises text)
    : ∃ typed irc irc' raw,
        readBack (parseIrcMessage (strcpy txt) 0) = some (.ok typed)
        ∧ client.ircState = some irc
        ∧ (quote client txt).1.ircState = some irc'
        ∧ irc'.sent = irc.sent ++ [raw]
        ∧ (Repeats raw typed ↔ PlainCommand typed.command) := by
  obtain ⟨typed, irc, irc', parsed, connected, state, sent, good⟩ := quote_accepted accepted
  have derived := lParseIrc_eq_some_iff.mp parsed
  have wellFormed := derived.wellFormed (not_mem_before 0 txt)
  refine ⟨typed, irc, irc', _, ?_, connected, state, sent, repeats_lineOf_iff wellFormed good⟩
  exact (readBack_eq_ok_iff (cString_strcpy txt) typed).mpr (messageOf_eq_ok_iff.mpr derived)

/-- A message in words of its own, with a last argument that has spaces. -/
theorem quote_repeats_iff_witness
    : ∃ typed irc irc' raw,
        readBack (parseIrcMessage (strcpy (lit "TOPIC  #a  :b c")) 0) = some (.ok typed)
        ∧ freshClient.ircState = some irc
        ∧ (quote freshClient (lit "TOPIC  #a  :b c")).1.ircState = some irc'
        ∧ irc'.sent = irc.sent ++ [raw]
        ∧ (Repeats raw typed ↔ PlainCommand typed.command) :=
  quote_repeats_iff (fun text raises => absurd
    (show Ended.returns = .raises text from raises) nofun)

/-- The number `001` goes out as the number one. -/
theorem quote_repeats_counterexample
    : (quote freshClient (lit "001 x")).2 = .returns
      ∧ ¬ ∃ typed irc irc' raw,
          readBack (parseIrcMessage (strcpy (lit "001 x")) 0) = some (.ok typed)
          ∧ freshClient.ircState = some irc
          ∧ (quote freshClient (lit "001 x")).1.ircState = some irc'
          ∧ irc'.sent = irc.sent ++ [raw]
          ∧ Repeats raw typed := by
  have returns : (quote freshClient (lit "001 x")).2 = .returns := by decide +kernel
  refine ⟨returns, ?_⟩
  rintro ⟨typed, irc, irc', raw, parsed, connected, state, sent, again⟩
  have derived : Message (before 0 (lit "001 x")) {
      tags := []
      source := []
      command := lit "001"
      args := [lit "x"]
    } := lParseIrc_eq_some_iff.mp rfl
  have reads := (readBack_eq_ok_iff (cString_strcpy _) typed).mp parsed
  rw [messageOf_eq_ok_iff.mpr derived] at reads
  obtain rfl := Except.ok.inj reads
  have nothing : irc.sent = [] := (congrArg IrcState.sent (Option.some.inj connected)).symm
  have line : irc'.sent = [lineOf (commandText (pushCommand (lit "001"))) [lit "x"]] :=
    (congrArg IrcState.sent (Option.some.inj state)).symm
  rw [nothing, line] at sent
  obtain rfl := (List.cons.inj sent).1
  have good : ¬ BadTexts [lit "x"] := by
    rw [badTexts_singleton]
    unfold Breaks
    decide
  have plain := (repeats_lineOf_iff (derived.wellFormed (not_mem_before 0 _)) good).mp again
  exact absurd (plain.canonical 1 (by decide)) (by decide)

end Snowcone.Sending
