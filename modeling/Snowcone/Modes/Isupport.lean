import Snowcone.Foundations.Action
import Snowcone.Foundations.LuaPatternText
import Snowcone.Membership.NamesReply
import Snowcone.Modes.ModeMessages

/-! The handlers of `RPL_ISUPPORT` of the client and of its dashboard: which tokens they process
in full.
-/

namespace Snowcone.Modes

open Bytes Action LuaPattern
open Sending (TokenValue)
open Snowcone.Membership (prefixPattern prefixTable stripPrefixes fits_prefixPattern_iff)

variable {Num : Type}

/-- What is done to `irc_state`; it may raise an error. -/
abbrev Act (Num : Type) := EStateM String (IrcState Num)

/-- What the handlers need to know of numbers: `tonumber` of a string, and `n > 0`. -/
structure Numbers (Num : Type) where
  tonumber : Bytes → Option Num
  positive : Num → Bool

/-- `isupport_logic.CHANTYPES`. -/
def isupportChantypes (arg : Option TokenValue) : Act Num PUnit :=
  modify fun irc => { irc with chantypes := arg.getD (.text (lit "&#")) }

/-- `isupport_logic.STATUSMSG`. -/
def isupportStatusmsg (arg : Option TokenValue) : Act Num PUnit :=
  modify fun irc => { irc with statusmsg := arg.getD (.text []) }

/-- `isupport_logic.MONITOR`. -/
def isupportMonitor (arg : Option TokenValue) : Act Num PUnit :=
  modify fun irc => { irc with monitor := if arg.isSome then some fun _ => none else none }

/-- A value, with a letter where the token came without one. -/
def orLetter (letter : Bytes) : Option TokenValue → Option TokenValue
  | some .flag => some (.text letter)
  | arg => arg

/-- `isupport_logic.INVEX`. -/
def isupportInvex (arg : Option TokenValue) : Act Num PUnit :=
  modify fun irc => { irc with invex := orLetter (lit "I") arg }

/-- `isupport_logic.EXCEPTS`. -/
def isupportExcepts (arg : Option TokenValue) : Act Num PUnit :=
  modify fun irc => { irc with excepts := orLetter (lit "e") arg }

/-- `arg:match`, for an argument that has to be a string. -/
def matchArg (arg : Option TokenValue) (items : List (Item Byte))
    : Act Num (Option (List Bytes)) :=
  match arg with
  | none => throw "attempt to index a nil value (local 'arg')"
  | some .flag => throw "attempt to index a boolean value (local 'arg')"
  | some (.text text) => pure (stringMatch items text)

/-- The other table of the loop over the modes of a `PREFIX` token. -/
def modeTable : Bytes → Bytes → (Bytes → Option Bytes) → Bytes → Option Bytes
  | [], _, table => table
  | mode :: modes, prefixes, table =>
      modeTable modes prefixes.tail (Function.update table [mode] (some (prefixes.take 1)))

/-- `isupport_logic.PREFIX`. -/
def isupportPrefix (arg : Option TokenValue) : Act Num PUnit := do
  match ← matchArg arg prefixPattern with
  | some [modes, prefixes] =>
      modify fun irc => {
        irc with
        prefixToMode := prefixTable modes prefixes fun _ => none
        modeToPrefix := modeTable modes prefixes fun _ => none }
  | _ => throw "attempt to get length of a nil value (local 'modes')"

/-- A class of characters that does not have the comma, in a capture. -/
def field : List (Item Byte) := [.openCapture, .single (· != chr ',') .many, .closeCapture]

/-- The pattern `^([^,]*),([^,]*),([^,]*),([^,]*)`. -/
def chanmodesPattern : List (Item Byte) :=
  field ++ literal (lit ",") ++ field ++ literal (lit ",") ++ field ++ literal (lit ",") ++ field

/-- `isupport_logic.CHANMODES`. -/
def isupportChanmodes (arg : Option TokenValue) : Act Num PUnit := do
  match ← matchArg arg chanmodesPattern with
  | some [a, b, c, d] =>
      modify fun irc => {
        irc with modesA := some a, modesB := some b, modesC := some c, modesD := some d }
  | _ => modify fun irc => {
      irc with modesA := none, modesB := none, modesC := none, modesD := none }

/-- `isupport_logic.CHATHISTORY`; only strings have a number. -/
def isupportChathistory (numbers : Numbers Num) (arg : Option TokenValue) : Act Num PUnit :=
  match arg with
  | some (.text text) =>
      match numbers.tonumber text with
      -- 0 indicates "no limit"
      | some n =>
          if numbers.positive n then modify fun irc => { irc with maxChatHistory := some n }
          else pure ⟨⟩
      | none => pure ⟨⟩
  | _ => pure ⟨⟩

/-- `isupport_logic`. -/
def isupportLogic (numbers : Numbers Num) : List (Bytes × (Option TokenValue → Act Num PUnit)) :=
  [
    (lit "CHANTYPES", isupportChantypes),
    (lit "STATUSMSG", isupportStatusmsg),
    (lit "MONITOR", isupportMonitor),
    (lit "INVEX", isupportInvex),
    (lit "EXCEPTS", isupportExcepts),
    (lit "PREFIX", isupportPrefix),
    (lit "CHANMODES", isupportChanmodes),
    (lit "CHATHISTORY", isupportChathistory numbers)
  ]

/-- `Irc:set_isupport(key, val)`. -/
def setIsupport (numbers : Numbers Num) (key : Bytes) (val : Option TokenValue)
    : Act Num PUnit := do
  modify fun irc => { irc with isupport := Function.update irc.isupport key val }
  match (isupportLogic numbers).lookup key with
  | none => pure ⟨⟩
  | some f => f val

/-- The programs with a handler of `RPL_ISUPPORT`. -/
inductive Program where
  | client
  | dashboard

/-- The characters of a key: `[^=]` for the client, `[%u%d_]` for the dashboard. -/
def Program.keyChar : Program → Byte → Bool
  | client, c => c != chr '='
  | dashboard, c => between (chr 'A') (chr 'Z') c || isDigitChar c || c == chr '_'

/-- The patterns `^(%-?)([^=]+)(=?)(.*)$` and `^(%-?)([%u%d_]+)(=?)(.*)$`. -/
def tokenPattern (keyChar : Byte → Bool) : List (Item Byte) :=
  [
    .openCapture, .single (· == chr '-') .optional, .closeCapture,
    .openCapture, .single keyChar .plus, .closeCapture,
    .openCapture, .single (· == chr '=') .optional, .closeCapture,
    .openCapture, .single (fun _ => true) .many, .closeCapture, .endOfSubject
  ]

/-- The body of the loop over the tokens. -/
def isupportToken (program : Program) (numbers : Numbers Num) (token : Bytes) : Act Num PUnit :=
  match stringMatch (tokenPattern program.keyChar) token with
  | some [minus, key, equals, val] =>
      let val :=
        if minus = lit "-" then none
        else if equals = [] then some .flag
        else some (.text val)
      setIsupport numbers key val
  -- Nothing is captured, and `nil` is no key.
  | _ => throw "index is nil"

/-- `M[N.RPL_ISUPPORT]`. -/
def rplIsupport (program : Program) (numbers : Numbers Num) (irc : Message) : Act Num PUnit :=
  (irc.args.drop 1).dropLast.forM (isupportToken program numbers)

/-- A message is handled; an error is reported, and what was done before it stays. -/
def handleIsupport (program : Program) (numbers : Numbers Num) (state : IrcState Num)
    (irc : Message)
    : IrcState Num :=
  match rplIsupport program numbers irc state with
  | .ok _ after => after
  | .error _ after => after

-----------------------------------------------------------------------------------------
-- Tokens
-----------------------------------------------------------------------------------------

/-- The forms of a token: `KEY`, `-KEY`, and `KEY=value`, where the value may be empty. -/
inductive Form where
  | bare
  | negated
  | value (text : Bytes)

/-- A token. -/
structure Token where
  key : Bytes
  form : Form

/-- The text of a token. -/
def Token.text (token : Token) : Bytes :=
  match token.form with
  | .bare => token.key
  | .negated => chr '-' :: token.key
  | .value text => token.key ++ chr '=' :: text

/-- What a token gives for its key. -/
def Form.val : Form → Option TokenValue
  | bare => some .flag
  | negated => none
  | value text => some (.text text)

/-- A key: it is not empty, has the characters of keys only, and does not start with the sign
of negation.
-/
structure IsKey (program : Program) (key : Bytes) : Prop where
  notEmpty : key ≠ []
  keyChars : ∀ c ∈ key, program.keyChar c
  notMinus : key.head? ≠ some (chr '-')

/-- A message with some tokens. -/
def isupportMessage (source : Option Bytes) (client : Bytes) (tokens : List Token)
    (trailing : Bytes)
    : Message :=
  { source, args := client :: (tokens.map Token.text ++ [trailing]) }

/-- What is derived from the token with a key is usable: names can be looked up among the types
of channels, status characters are characters, the loop of `NAMES` ends, and `MODE` finds four
classes.
-/
structure DerivedUsable (key : Bytes) (state : IrcState Num) : Prop where
  chantypes : key = lit "CHANTYPES" → ∃ chars, state.chantypes = .text chars
  statusmsg : key = lit "STATUSMSG" → ∃ chars, state.statusmsg = .text chars
  prefixes : key = lit "PREFIX" →
    ∀ entry modes, (stripPrefixes state.prefixToMode entry modes).isSome
  classes : key = lit "CHANMODES" → state.HasClasses

/-- All that is derived is usable. -/
def Usable (state : IrcState Num) : Prop := ∀ key, DerivedUsable key state

/-- A token that is processed in full. -/
structure Token.Good (token : Token) : Prop where
  texts : token.key = lit "CHANTYPES" ∨ token.key = lit "STATUSMSG" → token.form ≠ .bare
  prefixes : token.key = lit "PREFIX" →
    ∃ modes prefixes, token.form = .value (lit "(" ++ modes ++ lit ")" ++ prefixes)
      ∧ chr ')' ∉ prefixes ∧ modes.length ≤ prefixes.length
  classes : token.key = lit "CHANMODES" →
    ∃ text, token.form = .value text ∧ 3 ≤ text.count (chr ',')

-----------------------------------------------------------------------------------------
-- One token
-----------------------------------------------------------------------------------------

variable {program : Program} {numbers : Numbers Num} {state : IrcState Num} {token : Token}

/-- The sign that separates key and value is in no key. -/
theorem keyChar_equals : program.keyChar (chr '=') = false := by
  cases program <;> decide

/-- The pattern takes a key with what follows it. -/
theorem matchHere_key (isKey : IsKey program token.key) (minus : Bytes) {rest : Bytes}
    {equals val : Bytes}
    (behind : rest = [] ∧ equals = [] ∧ val = [] ∨ rest = chr '=' :: val ∧ equals = lit "=")
    : matchHere ((tokenPattern program.keyChar).drop 3) (token.key ++ rest)
        [{ text := minus, finished := true }]
      = some [minus, token.key, equals, val] := by
  have finished (texts : List Bytes) : ∀ capture ∈ texts.map fun text =>
      ({ text, finished := true } : Capture Byte), capture.finished = true := by
    simp
  have stops : ∀ c ∈ rest.head?, program.keyChar c = false := by
    rcases behind with ⟨rfl, -, -⟩ | ⟨rfl, -⟩
    · rintro _ ⟨⟩
    · rintro _ ⟨⟩
      exact keyChar_equals
  refine matchHere_capture_longest (finished [minus]) isKey.keyChars isKey.notEmpty stops ?_
  rcases behind with ⟨rfl, rfl, rfl⟩ | ⟨rfl, rfl⟩
  · rw [matchHere_capture_skipped nofun]
    exact matchHere_capture_rest (finished [minus, token.key, []]) fun _ => rfl
  · refine matchHere_capture_taken (finished [minus, token.key]) (by decide) ?_
    exact matchHere_capture_rest (finished [minus, token.key, lit "="]) fun _ => rfl

/-- A key that is not negated is taken without a sign. -/
theorem stringMatch_key (isKey : IsKey program token.key) {rest : Bytes} {equals val : Bytes}
    (behind : rest = [] ∧ equals = [] ∧ val = [] ∨ rest = chr '=' :: val ∧ equals = lit "=")
    : stringMatch (tokenPattern program.keyChar) (token.key ++ rest)
      = some [[], token.key, equals, val] := by
  have noSign : ∀ c ∈ (token.key ++ rest).head?, (c == chr '-') = false := by
    intro c isHead
    obtain ⟨first, others, isCons⟩ := List.exists_cons_of_ne_nil isKey.notEmpty
    have notMinus := isKey.notMinus
    rw [isCons] at isHead notMinus
    obtain rfl : first = c := by simpa using isHead
    simpa using notMinus
  exact (matchHere_capture_skipped noSign).trans (matchHere_key isKey [] behind)

/-- A token is read as what it says. -/
theorem isupportToken_text (isKey : IsKey program token.key)
    : isupportToken program numbers token.text
      = setIsupport numbers token.key token.form.val := by
  cases isForm : token.form with
  | bare =>
      have found := stringMatch_key isKey (.inl ⟨rfl, rfl, rfl⟩)
      rw [List.append_nil] at found
      rw [isupportToken, Token.text, isForm]
      simp only [found]
      rfl
  | negated =>
      have found : stringMatch (tokenPattern program.keyChar) (chr '-' :: token.key)
          = some [lit "-", token.key, [], []] := by
        refine matchHere_capture_taken nofun (by decide) ?_
        have key := matchHere_key isKey (lit "-") (.inl ⟨rfl, rfl, rfl⟩)
        rwa [List.append_nil] at key
      rw [isupportToken, Token.text, isForm]
      simp only [found]
      rfl
  | value text =>
      have found : stringMatch (tokenPattern program.keyChar) (token.key ++ chr '=' :: text)
          = some [[], token.key, lit "=", text] := stringMatch_key isKey (.inr ⟨rfl, rfl⟩)
      rw [isupportToken, Token.text, isForm]
      simp only [found]
      rfl

/-- A text is taken apart at its last closing parenthesis in one way only. -/
theorem split_at_last_parenthesis {modes prefixes modes' prefixes' : Bytes}
    (notIn : chr ')' ∉ prefixes) (notIn' : chr ')' ∉ prefixes')
    (same : modes ++ chr ')' :: prefixes = modes' ++ chr ')' :: prefixes')
    : modes' = modes ∧ prefixes' = prefixes := by
  rcases List.append_eq_append_iff.mp same with ⟨more, rfl, rest⟩ | ⟨more, rfl, rest⟩
  · cases more with
    | nil => exact ⟨List.append_nil _, (List.cons.inj rest).2.symm⟩
    | cons c more => exact absurd (by simp [(List.cons.inj rest).2]) notIn
  · cases more with
    | nil => exact ⟨(List.append_nil _).symm, (List.cons.inj rest).2⟩
    | cons c more => exact absurd (by simp [(List.cons.inj rest).2]) notIn'

/-- What the pattern of a `PREFIX` token takes behind the modes. -/
theorem fits_behind_modes {subject modes : Bytes} {result : List Bytes}
    : Fits (literal (lit ")") ++ [.openCapture, .single (fun _ => true) .many, .closeCapture,
          .endOfSubject]) subject [{ text := modes, finished := true }] result
      ↔ ∃ prefixes, subject = lit ")" ++ prefixes ∧ result = [modes, prefixes] := by
  have one : ∀ capture ∈ [({ text := modes, finished := true } : Capture Byte)],
      capture.finished = true := by
    simp
  simp only [fits_literal_iff, extend_finished one, fits_capture_iff one, fits_endOfSubject_iff,
    fits_nil_iff, Repeat.Allows, true_and, implies_true]
  constructor
  · rintro ⟨_, rfl, prefixes, _, rfl, rfl, rfl⟩
    exact ⟨prefixes, by simp, rfl⟩
  · rintro ⟨prefixes, rfl, rfl⟩
    exact ⟨prefixes, rfl, prefixes, [], by simp, rfl, rfl⟩

/-- The modes of a `PREFIX` token go up to its last closing parenthesis. -/
theorem prefixPattern_sound {text : Bytes} {result : List Bytes}
    (found : stringMatch prefixPattern text = some result)
    : ∃ modes prefixes, result = [modes, prefixes]
      ∧ text = lit "(" ++ modes ++ lit ")" ++ prefixes ∧ chr ')' ∉ prefixes := by
  obtain ⟨modes, prefixes, rfl, rfl⟩ := fits_prefixPattern_iff.mp (fits_of_matchHere found)
  refine ⟨modes, prefixes, rfl, rfl, fun isIn => ?_⟩
  obtain ⟨before, behind, rfl⟩ := List.append_of_mem isIn
  rw [stringMatch, prefixPattern, List.append_assoc, List.append_assoc, List.append_assoc,
    List.append_assoc, matchHere_literal, extend_finished (by simp)] at found
  obtain ⟨taken, rest, -, fits, longest⟩ := matchHere_capture_greedy (by simp) found
  obtain ⟨_, -, isResult⟩ := fits_behind_modes.mp fits
  obtain rfl : modes = taken := (List.cons.inj isResult).1
  -- The modes could go on up to the parenthesis in front of `behind`.
  have longer := longest (modes ++ chr ')' :: before) (chr ')' :: behind) _ (by simp [lit])
    (fun _ _ => rfl) (fits_behind_modes.mpr ⟨behind, rfl, rfl⟩)
  rw [List.length_append, List.length_cons] at longer
  omega

/-- The modes and the prefixes of a `PREFIX` token. -/
theorem prefixPattern_iff {text modes prefixes : Bytes}
    : stringMatch prefixPattern text = some [modes, prefixes]
      ↔ text = lit "(" ++ modes ++ lit ")" ++ prefixes ∧ chr ')' ∉ prefixes := by
  constructor
  · intro found
    obtain ⟨modes', prefixes', same, isText, notIn⟩ := prefixPattern_sound found
    obtain ⟨rfl, rfl⟩ : modes = modes' ∧ prefixes = prefixes' := by simpa using same
    exact ⟨isText, notIn⟩
  · rintro ⟨rfl, notIn⟩
    obtain ⟨result, found⟩ :=
      matchHere_of_fits (fits_prefixPattern_iff.mpr ⟨modes, prefixes, rfl, rfl⟩)
    obtain ⟨modes', prefixes', rfl, isText, notIn'⟩ := prefixPattern_sound found
    obtain ⟨rfl, rfl⟩ := split_at_last_parenthesis notIn notIn' (by simpa [lit] using isText)
    exact found

/-- The loop over the modes gives the empty prefix a mode if there are more modes than prefixes,
by induction on the modes.
-/
theorem prefixTable_nil {modes prefixes : Bytes} {table : Bytes → Option Bytes}
    : (prefixTable modes prefixes table []).isSome
      ↔ prefixes.length < modes.length ∨ (table []).isSome := by
  induction modes generalizing prefixes table with
  | nil => simp [prefixTable]
  | cons mode modes ih =>
      rw [prefixTable, ih]
      cases prefixes with
      | nil => simp
      | cons first prefixes => simp

/-- The loop of `NAMES` ends for every entry if the empty prefix has no mode. -/
theorem stripPrefixes_isSome {prefixToMode : Bytes → Option Bytes}
    : (∀ entry modes, (stripPrefixes prefixToMode entry modes).isSome)
      ↔ prefixToMode [] = none := by
  constructor
  · intro ends
    have here := ends [] fun _ => false
    rw [stripPrefixes] at here
    by_contra isSome
    rw [if_pos (Option.isSome_iff_ne_none.mpr isSome)] at here
    cases here
  · intro noEmpty entry
    induction entry with
    | nil =>
        intro modes
        rw [stripPrefixes, noEmpty]
        rfl
    | cons c entry ih =>
        intro modes
        rw [stripPrefixes]
        cases prefixToMode [c] with
        | none => rfl
        | some mode => exact ih _

/-- A field of `CHANMODES`, behind others. -/
theorem fits_field_iff {items : List (Item Byte)} {subject : Bytes} {texts result : List Bytes}
    : Fits (field ++ items) subject (texts.map fun text => { text, finished := true }) result
      ↔ ∃ text rest, subject = text ++ rest ∧ chr ',' ∉ text
        ∧ Fits items rest ((texts ++ [text]).map fun text => { text, finished := true })
          result := by
  have finished : ∀ capture ∈ texts.map fun text => ({ text, finished := true } : Capture Byte),
      capture.finished = true := by
    simp
  have noComma (text : Bytes) : (∀ c ∈ text, (c != chr ',') = true) ↔ chr ',' ∉ text := by
    simp only [bne_iff_ne]
    exact ⟨fun other isIn => other _ isIn rfl, fun notIn c isIn same => notIn (same ▸ isIn)⟩
  simp only [field, List.cons_append, List.nil_append, fits_capture_iff finished, Repeat.Allows,
    true_and, noComma, List.map_append, List.map_cons, List.map_nil]

/-- The last field of `CHANMODES`. -/
theorem fits_last_field_iff {subject : Bytes} {texts result : List Bytes}
    : Fits field subject (texts.map fun text => { text, finished := true }) result
      ↔ ∃ text rest, subject = text ++ rest ∧ chr ',' ∉ text ∧ result = texts ++ [text] := by
  have behind := @fits_field_iff [] subject texts result
  have same (texts : List Bytes) : (texts.map fun text =>
      ({ text, finished := true } : Capture Byte)).map (·.text) = texts := by
    rw [List.map_map]
    exact List.map_id texts
  rw [List.append_nil] at behind
  simp only [behind, fits_nil_iff, same]

/-- The comma behind a field of `CHANMODES`. -/
theorem fits_comma_iff {items : List (Item Byte)} {subject : Bytes} {texts result : List Bytes}
    : Fits (literal (lit ",") ++ items) subject
        (texts.map fun text => { text, finished := true }) result
      ↔ ∃ rest, subject = chr ',' :: rest
        ∧ Fits items rest (texts.map fun text => { text, finished := true }) result := by
  rw [fits_literal_iff]
  have same : extend (texts.map fun text => ({ text, finished := true } : Capture Byte))
      (lit ",") = texts.map fun text => { text, finished := true } :=
    extend_finished (by simp) _
  rw [same]
  rfl

/-- The pattern of a `CHANMODES` token. -/
theorem fits_chanmodesPattern_iff {text : Bytes} {result : List Bytes}
    : Fits chanmodesPattern text [] result
      ↔ ∃ a b c d rest, text = a ++ chr ',' :: (b ++ chr ',' :: (c ++ chr ',' :: (d ++ rest)))
        ∧ chr ',' ∉ a ++ b ++ c ++ d ∧ result = [a, b, c, d] := by
  have start : ([] : List (Capture Byte))
      = ([] : List Bytes).map fun text => { text, finished := true } := rfl
  rw [chanmodesPattern, start]
  simp only [List.append_assoc, fits_field_iff, fits_comma_iff, fits_last_field_iff,
    List.nil_append, List.mem_append, not_or]
  constructor
  · rintro ⟨a, _, rfl, notInA, _, rfl, b, _, rfl, notInB, _, rfl, c, _, rfl, notInC, _, rfl,
      d, rest, rfl, notInD, rfl⟩
    exact ⟨a, b, c, d, rest, rfl, ⟨notInA, notInB, notInC, notInD⟩, rfl⟩
  · rintro ⟨a, b, c, d, rest, rfl, ⟨notInA, notInB, notInC, notInD⟩, rfl⟩
    exact ⟨a, _, rfl, notInA, _, rfl, b, _, rfl, notInB, _, rfl, c, _, rfl, notInC, _, rfl,
      d, rest, rfl, notInD, rfl⟩

/-- The classes are taken from a text exactly if it has three commas. -/
theorem chanmodesPattern_iff {text : Bytes}
    : (∃ a b c d, stringMatch chanmodesPattern text = some [a, b, c, d])
      ↔ 3 ≤ text.count (chr ',') := by
  constructor
  · rintro ⟨a, b, c, d, found⟩
    obtain ⟨_, _, _, _, _, rfl, -⟩ := fits_chanmodesPattern_iff.mp (fits_of_matchHere found)
    simp only [List.count_append, List.count_cons_self]
    omega
  · intro three
    have split {text : Bytes} (some : 1 ≤ text.count (chr ',')) : ∃ field rest,
        text = field ++ chr ',' :: rest ∧ chr ',' ∉ field
          ∧ rest.count (chr ',') + 1 = text.count (chr ',') := by
      obtain ⟨field, rest, rfl, notIn⟩ :=
        List.eq_append_cons_of_mem (List.count_pos_iff.mp some)
      refine ⟨field, rest, rfl, notIn, ?_⟩
      rw [List.count_append, List.count_eq_zero_of_not_mem notIn, List.count_cons_self]
      omega
    obtain ⟨a, rest, rfl, notInA, counts⟩ := split (by omega : 1 ≤ text.count (chr ','))
    obtain ⟨b, rest, rfl, notInB, counts'⟩ := split (by omega : 1 ≤ rest.count (chr ','))
    obtain ⟨c, rest, rfl, notInC, -⟩ := split (by omega : 1 ≤ rest.count (chr ','))
    have fits := fits_chanmodesPattern_iff.mpr ⟨a, b, c, [], rest, rfl, by simp [*], rfl⟩
    obtain ⟨result, found⟩ := matchHere_of_fits fits
    obtain ⟨a, b, c, d, _, _, _, rfl⟩ := fits_chanmodesPattern_iff.mp (fits_of_matchHere found)
    exact ⟨a, b, c, d, found⟩

/-- What setting a token may leave different: only what is derived from its key. -/
structure Kept (key : Bytes) (before after : IrcState Num) : Prop where
  chantypes : key ≠ lit "CHANTYPES" → after.chantypes = before.chantypes
  statusmsg : key ≠ lit "STATUSMSG" → after.statusmsg = before.statusmsg
  prefixes : key ≠ lit "PREFIX" → after.prefixToMode = before.prefixToMode
  classes : key ≠ lit "CHANMODES" → after.modesA = before.modesA ∧ after.modesB = before.modesB
    ∧ after.modesC = before.modesC ∧ after.modesD = before.modesD

/-- The logic of a key with a value is what is left of setting a token. -/
theorem setIsupport_of_lookup {key : Bytes} {f : Option TokenValue → Act Num PUnit}
    (found : (isupportLogic numbers).lookup key = some f) (val : Option TokenValue)
    : setIsupport numbers key val state
      = f val { state with isupport := Function.update state.isupport key val } := by
  rw [setIsupport, modify_bind, found]

/-- A key with logic is one of eight. -/
theorem mem_isupportLogic {key : Bytes} {f : Option TokenValue → Act Num PUnit}
    (found : (isupportLogic numbers).lookup key = some f)
    : (key, f) ∈ isupportLogic numbers := by
  obtain ⟨before, behind, whole, -⟩ := List.lookup_eq_some_iff.mp found
  rw [whole]
  simp

/-- Taking a value apart succeeds exactly for strings. -/
theorem matchArg_bind_ok_iff {val : Option TokenValue} {items : List (Item Byte)}
    {next : Option (List Bytes) → Act Num PUnit} {after : IrcState Num}
    : (matchArg val items >>= next) state = .ok ⟨⟩ after
      ↔ ∃ text, val = some (.text text) ∧ next (stringMatch items text) state = .ok ⟨⟩ after := by
  constructor
  · intro ends
    obtain ⟨captures, between, isMatch, ends⟩ := bind_ok_iff.mp ends
    cases val with
    | none => cases isMatch
    | some val =>
        cases val with
        | flag => cases isMatch
        | text text =>
            cases isMatch
            exact ⟨text, rfl, ends⟩
  · rintro ⟨text, rfl, ends⟩
    exact ends

/-- Setting a `PREFIX` token succeeds exactly if its value can be taken apart. -/
theorem isupportPrefix_ok_iff {val : Option TokenValue} {after : IrcState Num}
    : isupportPrefix val state = .ok ⟨⟩ after
      ↔ ∃ modes prefixes, val = some (.text (lit "(" ++ modes ++ lit ")" ++ prefixes))
        ∧ chr ')' ∉ prefixes
        ∧ after = {
          state with
          prefixToMode := prefixTable modes prefixes fun _ => none
          modeToPrefix := modeTable modes prefixes fun _ => none } := by
  rw [isupportPrefix, matchArg_bind_ok_iff]
  constructor
  · rintro ⟨text, rfl, ends⟩
    cases found : stringMatch prefixPattern text with
    | none =>
        rw [found] at ends
        cases ends
    | some captures =>
        obtain ⟨modes, prefixes, rfl, rfl, notIn⟩ := prefixPattern_sound found
        rw [found] at ends
        cases ends
        exact ⟨modes, prefixes, rfl, notIn, rfl⟩
  · rintro ⟨modes, prefixes, rfl, notIn, rfl⟩
    refine ⟨_, rfl, ?_⟩
    rw [prefixPattern_iff.mpr ⟨rfl, notIn⟩]
    rfl

/-- Setting a `CHANMODES` token that is a string succeeds, and gives four classes exactly if there
are three commas.
-/
theorem isupportChanmodes_text (state : IrcState Num) (text : Bytes)
    : ∃ modesA modesB modesC modesD,
        isupportChanmodes (some (.text text)) state
            = .ok ⟨⟩ { state with modesA, modesB, modesC, modesD }
          ∧ (IrcState.HasClasses { state with modesA, modesB, modesC, modesD }
            ↔ 3 ≤ text.count (chr ',')) := by
  by_cases three : 3 ≤ text.count (chr ',')
  · obtain ⟨a, b, c, d, found⟩ := chanmodesPattern_iff.mpr three
    refine ⟨some a, some b, some c, some d, ?_, fun _ => three, fun _ => ⟨rfl, rfl, rfl, rfl⟩⟩
    refine matchArg_bind_ok_iff.mpr ⟨text, rfl, ?_⟩
    rw [found]
    rfl
  · refine ⟨none, none, none, none, ?_, fun classes => absurd classes.1 nofun,
      (absurd · three)⟩
    refine matchArg_bind_ok_iff.mpr ⟨text, rfl, ?_⟩
    cases found : stringMatch chanmodesPattern text with
    | none => rfl
    | some captures =>
        obtain ⟨a, b, c, d, _, _, _, rfl⟩ :=
          fits_chanmodesPattern_iff.mp (fits_of_matchHere found)
        exact absurd (chanmodesPattern_iff.mp ⟨a, b, c, d, found⟩) three

/-- Setting a `CHATHISTORY` token succeeds. -/
theorem isupportChathistory_ok (val : Option TokenValue) (state : IrcState Num)
    : ∃ maxChatHistory,
        isupportChathistory numbers val state = .ok ⟨⟩ { state with maxChatHistory } := by
  rcases val with _ | _ | text
  · exact ⟨state.maxChatHistory, rfl⟩
  · exact ⟨state.maxChatHistory, rfl⟩
  rw [isupportChathistory]
  cases numbers.tonumber text with
  | none => exact ⟨state.maxChatHistory, rfl⟩
  | some n =>
      by_cases isPositive : numbers.positive n
      · exact ⟨some n, by simp only [isPositive]; rfl⟩
      · exact ⟨state.maxChatHistory, by simp only [isPositive]; rfl⟩

/-- Setting a token changes only what is derived from its key. -/
theorem setIsupport_kept {key : Bytes} {val : Option TokenValue} {after : IrcState Num}
    (ends : setIsupport numbers key val state = .ok ⟨⟩ after)
    : Kept key state after := by
  cases found : (isupportLogic numbers).lookup key with
  | none =>
      rw [setIsupport, modify_bind, found] at ends
      cases ends
      exact ⟨fun _ => rfl, fun _ => rfl, fun _ => rfl, fun _ => ⟨rfl, rfl, rfl, rfl⟩⟩
  | some f =>
      rw [setIsupport_of_lookup found] at ends
      have isIn := mem_isupportLogic found
      simp only [isupportLogic, List.mem_cons, Prod.mk.injEq, List.not_mem_nil, or_false] at isIn
      rcases isIn with ⟨rfl, rfl⟩ | ⟨rfl, rfl⟩ | ⟨rfl, rfl⟩ | ⟨rfl, rfl⟩ | ⟨rfl, rfl⟩ | ⟨rfl, rfl⟩
        | ⟨rfl, rfl⟩ | ⟨rfl, rfl⟩
      · cases ends
        exact ⟨(absurd rfl ·), fun _ => rfl, fun _ => rfl, fun _ => ⟨rfl, rfl, rfl, rfl⟩⟩
      · cases ends
        exact ⟨fun _ => rfl, (absurd rfl ·), fun _ => rfl, fun _ => ⟨rfl, rfl, rfl, rfl⟩⟩
      · cases ends
        exact ⟨fun _ => rfl, fun _ => rfl, fun _ => rfl, fun _ => ⟨rfl, rfl, rfl, rfl⟩⟩
      · cases ends
        exact ⟨fun _ => rfl, fun _ => rfl, fun _ => rfl, fun _ => ⟨rfl, rfl, rfl, rfl⟩⟩
      · cases ends
        exact ⟨fun _ => rfl, fun _ => rfl, fun _ => rfl, fun _ => ⟨rfl, rfl, rfl, rfl⟩⟩
      · obtain ⟨modes, prefixes, -, -, rfl⟩ := isupportPrefix_ok_iff.mp ends
        exact ⟨fun _ => rfl, fun _ => rfl, (absurd rfl ·), fun _ => ⟨rfl, rfl, rfl, rfl⟩⟩
      · obtain ⟨text, rfl, -⟩ := matchArg_bind_ok_iff.mp ends
        obtain ⟨_, _, _, _, ends', -⟩ := isupportChanmodes_text
          { state with isupport := Function.update state.isupport (lit "CHANMODES") _ } text
        cases ends'.symm.trans ends
        exact ⟨fun _ => rfl, fun _ => rfl, fun _ => rfl, (absurd rfl ·)⟩
      · obtain ⟨_, ends'⟩ := isupportChathistory_ok val
          { state with isupport := Function.update state.isupport (lit "CHATHISTORY") val }
        cases ends'.symm.trans ends
        exact ⟨fun _ => rfl, fun _ => rfl, fun _ => rfl, fun _ => ⟨rfl, rfl, rfl, rfl⟩⟩

/-- Setting a token other than `PREFIX` and `CHANMODES` succeeds. -/
theorem setIsupport_ok {key : Bytes} (notPrefix : key ≠ lit "PREFIX")
    (notChanmodes : key ≠ lit "CHANMODES") (val : Option TokenValue) (state : IrcState Num)
    : ∃ after, setIsupport numbers key val state = .ok ⟨⟩ after := by
  cases found : (isupportLogic numbers).lookup key with
  | none =>
      rw [setIsupport, modify_bind, found]
      exact ⟨_, rfl⟩
  | some f =>
      rw [setIsupport_of_lookup found]
      have isIn := mem_isupportLogic found
      simp only [isupportLogic, List.mem_cons, Prod.mk.injEq, List.not_mem_nil, or_false] at isIn
      rcases isIn with ⟨-, rfl⟩ | ⟨-, rfl⟩ | ⟨-, rfl⟩ | ⟨-, rfl⟩ | ⟨-, rfl⟩ | ⟨isPrefix, -⟩
        | ⟨isChanmodes, -⟩ | ⟨-, rfl⟩
      · exact ⟨_, rfl⟩
      · exact ⟨_, rfl⟩
      · exact ⟨_, rfl⟩
      · exact ⟨_, rfl⟩
      · exact ⟨_, rfl⟩
      · exact absurd isPrefix notPrefix
      · exact absurd isChanmodes notChanmodes
      · exact ⟨_, (isupportChathistory_ok val _).choose_spec⟩

/-- The form of a token with a value. -/
theorem val_eq_text_iff {form : Form} {text : Bytes}
    : form.val = some (.text text) ↔ form = .value text := by
  cases form with
  | bare => exact ⟨nofun, nofun⟩
  | negated => exact ⟨nofun, nofun⟩
  | value other =>
      constructor
      · rintro ⟨⟩
        rfl
      · rintro ⟨⟩
        rfl

/-- With a default, only a token without a value gives no string. -/
theorem getD_text_iff {form : Form} {default : Bytes}
    : (∃ chars, form.val.getD (.text default) = .text chars) ↔ form ≠ .bare := by
  cases form with
  | bare => exact ⟨nofun, fun notBare => absurd rfl notBare⟩
  | negated => exact ⟨fun _ => nofun, fun _ => ⟨default, rfl⟩⟩
  | value text => exact ⟨fun _ => nofun, fun _ => ⟨text, rfl⟩⟩

/-- A `PREFIX` token is processed in full exactly if it is good. -/
theorem good_iff_of_prefix (isPrefix : token.key = lit "PREFIX") (numbers : Numbers Num)
    (state : IrcState Num)
    : token.Good
      ↔ ∃ after, setIsupport numbers token.key token.form.val state = .ok ⟨⟩ after
        ∧ DerivedUsable token.key after := by
  have found : (isupportLogic numbers).lookup (lit "PREFIX") = some isupportPrefix := rfl
  constructor
  · intro good
    obtain ⟨modes, prefixes, isForm, notIn, enough⟩ := good.prefixes isPrefix
    rw [isPrefix, setIsupport_of_lookup found]
    refine ⟨_, isupportPrefix_ok_iff.mpr ⟨modes, prefixes, val_eq_text_iff.mpr isForm, notIn, rfl⟩,
      ⟨(absurd · (by decide)), (absurd · (by decide)), fun _ => ?_, (absurd · (by decide))⟩⟩
    refine stripPrefixes_isSome.mpr (Option.not_isSome_iff_eq_none.mp fun isSome => ?_)
    rcases prefixTable_nil.mp isSome with fewer | impossible
    · exact absurd enough (Nat.not_le_of_gt fewer)
    · cases impossible
  · rintro ⟨after, ends, usable⟩
    rw [isPrefix, setIsupport_of_lookup found] at ends
    obtain ⟨modes, prefixes, isVal, notIn, rfl⟩ := isupportPrefix_ok_iff.mp ends
    have isNone := stripPrefixes_isSome.mp (usable.prefixes isPrefix)
    refine ⟨fun impossible => ?_, fun _ => ⟨modes, prefixes, val_eq_text_iff.mp isVal, notIn, ?_⟩,
      fun impossible => ?_⟩
    · rw [isPrefix] at impossible
      exact absurd impossible (by decide)
    · refine Nat.le_of_not_lt fun fewer => ?_
      have isSome := (@prefixTable_nil modes prefixes fun _ => none).mpr (.inl fewer)
      exact absurd isNone (Option.isSome_iff_ne_none.mp isSome)
    · rw [isPrefix] at impossible
      exact absurd impossible (by decide)

/-- A `CHANMODES` token is processed in full exactly if it is good. -/
theorem good_iff_of_chanmodes (isChanmodes : token.key = lit "CHANMODES") (numbers : Numbers Num)
    (state : IrcState Num)
    : token.Good
      ↔ ∃ after, setIsupport numbers token.key token.form.val state = .ok ⟨⟩ after
        ∧ DerivedUsable token.key after := by
  have found : (isupportLogic numbers).lookup (lit "CHANMODES") = some isupportChanmodes := rfl
  constructor
  · intro good
    obtain ⟨text, isForm, three⟩ := good.classes isChanmodes
    rw [isChanmodes, setIsupport_of_lookup found, val_eq_text_iff.mpr isForm]
    let noted := {
      state with isupport := Function.update state.isupport (lit "CHANMODES") (some (.text text)) }
    obtain ⟨_, _, _, _, ends, classes⟩ := isupportChanmodes_text noted text
    exact ⟨_, ends, (absurd · (by decide)), (absurd · (by decide)), (absurd · (by decide)),
      fun _ => classes.mpr three⟩
  · rintro ⟨after, ends, usable⟩
    rw [isChanmodes, setIsupport_of_lookup found] at ends
    obtain ⟨text, isVal, -⟩ := matchArg_bind_ok_iff.mp ends
    rw [isVal] at ends
    let noted := {
      state with isupport := Function.update state.isupport (lit "CHANMODES") (some (.text text)) }
    obtain ⟨_, _, _, _, ends', classes⟩ := isupportChanmodes_text noted text
    cases ends'.symm.trans ends
    refine ⟨fun impossible => ?_, fun impossible => ?_,
      fun _ => ⟨text, val_eq_text_iff.mp isVal, classes.mp (usable.classes isChanmodes)⟩⟩
    · rw [isChanmodes] at impossible
      exact absurd impossible (by decide)
    · rw [isChanmodes] at impossible
      exact absurd impossible (by decide)

/-- A token is processed in full exactly if it is good: it raises no error, and what is derived
from it is usable.
-/
theorem good_iff (numbers : Numbers Num) (state : IrcState Num) (token : Token)
    : token.Good
      ↔ ∃ after, setIsupport numbers token.key token.form.val state = .ok ⟨⟩ after
        ∧ DerivedUsable token.key after := by
  by_cases isPrefix : token.key = lit "PREFIX"
  · exact good_iff_of_prefix isPrefix numbers state
  by_cases isChanmodes : token.key = lit "CHANMODES"
  · exact good_iff_of_chanmodes isChanmodes numbers state
  by_cases isChantypes : token.key = lit "CHANTYPES"
  · have ends : setIsupport numbers token.key token.form.val state = .ok ⟨⟩ {
        state with
        isupport := Function.update state.isupport token.key token.form.val
        chantypes := token.form.val.getD (.text (lit "&#")) } := by
      rw [isChantypes]
      rfl
    constructor
    · intro good
      exact ⟨_, ends, fun _ => getD_text_iff.mpr (good.texts (.inl isChantypes)),
        fun isStatusmsg => by rw [isChantypes] at isStatusmsg; exact absurd isStatusmsg (by decide),
        (absurd · isPrefix), (absurd · isChanmodes)⟩
    · rintro ⟨after, ends', usable⟩
      cases ends.symm.trans ends'
      exact ⟨fun _ => getD_text_iff.mp (usable.chantypes isChantypes), (absurd · isPrefix),
        (absurd · isChanmodes)⟩
  by_cases isStatusmsg : token.key = lit "STATUSMSG"
  · have ends : setIsupport numbers token.key token.form.val state = .ok ⟨⟩ {
        state with
        isupport := Function.update state.isupport token.key token.form.val
        statusmsg := token.form.val.getD (.text []) } := by
      rw [isStatusmsg]
      rfl
    constructor
    · intro good
      exact ⟨_, ends, (absurd · isChantypes),
        fun _ => getD_text_iff.mpr (good.texts (.inr isStatusmsg)), (absurd · isPrefix),
        (absurd · isChanmodes)⟩
    · rintro ⟨after, ends', usable⟩
      cases ends.symm.trans ends'
      exact ⟨fun _ => getD_text_iff.mp (usable.statusmsg isStatusmsg), (absurd · isPrefix),
        (absurd · isChanmodes)⟩
  obtain ⟨after, ends⟩ := @setIsupport_ok _ numbers _ isPrefix isChanmodes token.form.val
    state
  exact ⟨fun _ => ⟨after, ends, (absurd · isChantypes), (absurd · isStatusmsg),
      (absurd · isPrefix), (absurd · isChanmodes)⟩,
    fun _ => ⟨fun special => (special.elim isChantypes isStatusmsg).elim, (absurd · isPrefix),
      (absurd · isChanmodes)⟩⟩

-----------------------------------------------------------------------------------------
-- Whole messages
-----------------------------------------------------------------------------------------

/-- The update of a single token: a message with this token only is handled. -/
def updated (program : Program) (numbers : Numbers Num) (state : IrcState Num) (token : Token)
    : IrcState Num :=
  handleIsupport program numbers state (isupportMessage none [] [token] [])

/-- Directly behind each of some tokens what is derived from it is usable. -/
def UsableAlong (program : Program) (numbers : Numbers Num) (state : IrcState Num)
    : List Token → Prop
  | [] => True
  | token :: tokens =>
      DerivedUsable token.key (updated program numbers state token)
        ∧ UsableAlong program numbers (updated program numbers state token) tokens

/-- A message is processed: no token raises an error, the result is that of the single tokens one
after the other, each of them gives something usable, and what was usable stays so.
-/
structure Processed (program : Program) (numbers : Numbers Num) (state : IrcState Num)
    (message : Message) (tokens : List Token)
    : Prop where
  folds : rplIsupport program numbers message state
    = .ok ⟨⟩ (tokens.foldl (updated program numbers) state)
  usable : UsableAlong program numbers state tokens
  stays : Usable state → Usable (tokens.foldl (updated program numbers) state)

/-- The tokens of a message are handled one after the other. -/
theorem rplIsupport_message (source : Option Bytes) (client : Bytes) (tokens : List Token)
    (trailing : Bytes)
    : rplIsupport program numbers (isupportMessage source client tokens trailing)
      = (tokens.map Token.text).forM (isupportToken program numbers) := by
  rw [rplIsupport, isupportMessage, List.drop_succ_cons, List.drop_zero, List.dropLast_concat]

/-- What is usable stays usable behind a token that gives something usable. -/
theorem usable_of_kept {key : Bytes} {after : IrcState Num} (usable : Usable state)
    (derived : DerivedUsable key after) (kept : Kept key state after)
    : Usable after := by
  intro other
  constructor
  · intro isKey
    by_cases same : key = lit "CHANTYPES"
    · exact derived.chantypes same
    · rw [kept.chantypes same]
      exact (usable other).chantypes isKey
  · intro isKey
    by_cases same : key = lit "STATUSMSG"
    · exact derived.statusmsg same
    · rw [kept.statusmsg same]
      exact (usable other).statusmsg isKey
  · intro isKey
    by_cases same : key = lit "PREFIX"
    · exact derived.prefixes same
    · rw [kept.prefixes same]
      exact (usable other).prefixes isKey
  · intro isKey
    by_cases same : key = lit "CHANMODES"
    · exact derived.classes same
    · obtain ⟨sameA, sameB, sameC, sameD⟩ := kept.classes same
      rw [IrcState.HasClasses, sameA, sameB, sameC, sameD]
      exact (usable other).classes isKey

/-- A token that succeeds gives its single update. -/
theorem updated_of_ok (isKey : IsKey program token.key) {after : IrcState Num}
    (ends : setIsupport numbers token.key token.form.val state = .ok ⟨⟩ after)
    : updated program numbers state token = after := by
  have alone : rplIsupport program numbers (isupportMessage none [] [token] []) state
      = .ok ⟨⟩ after := by
    rw [rplIsupport_message]
    change (isupportToken program numbers token.text >>= fun _ => (pure ⟨⟩ : Act Num PUnit)) state
      = _
    rw [isupportToken_text isKey, bind_of_ok ends]
    rfl
  rw [updated, handleIsupport, alone]

/-- A run over tokens that succeeds with usable results is one over good tokens, by induction on
the tokens.
-/
theorem good_of_run {tokens : List Token} (areKeys : ∀ token ∈ tokens, IsKey program token.key)
    {after : IrcState Num}
    (ends : (tokens.map Token.text).forM (isupportToken program numbers) state = .ok ⟨⟩ after)
    (usable : UsableAlong program numbers state tokens)
    : ∀ token ∈ tokens, token.Good := by
  induction tokens generalizing state with
  | nil => nofun
  | cons token tokens ih =>
      obtain ⟨isKey, areKeys⟩ := List.forall_mem_cons.mp areKeys
      obtain ⟨_, between, first, later⟩ := bind_ok_iff.mp ends
      rw [isupportToken_text isKey] at first
      obtain ⟨here, rest⟩ := usable
      rw [updated_of_ok isKey first] at here rest
      exact List.forall_mem_cons.mpr
        ⟨(good_iff numbers state token).mpr ⟨between, first, here⟩, ih areKeys later rest⟩

/-- A run over good tokens succeeds, with usable results, by induction on the tokens. -/
theorem run_of_good {tokens : List Token} (areKeys : ∀ token ∈ tokens, IsKey program token.key)
    (good : ∀ token ∈ tokens, token.Good)
    : (tokens.map Token.text).forM (isupportToken program numbers) state
        = .ok ⟨⟩ (tokens.foldl (updated program numbers) state)
      ∧ UsableAlong program numbers state tokens
      ∧ (Usable state → Usable (tokens.foldl (updated program numbers) state)) := by
  induction tokens generalizing state with
  | nil => exact ⟨rfl, trivial, id⟩
  | cons token tokens ih =>
      obtain ⟨isKey, areKeys⟩ := List.forall_mem_cons.mp areKeys
      obtain ⟨goodFirst, goodRest⟩ := List.forall_mem_cons.mp good
      obtain ⟨after, ends, derived⟩ := (good_iff numbers state token).mp goodFirst
      obtain ⟨folds, along, stays⟩ := @ih after areKeys goodRest
      have isUpdate := updated_of_ok isKey ends
      rw [List.foldl_cons, UsableAlong, isUpdate]
      refine ⟨?_, ⟨derived, along⟩, fun usable => ?_⟩
      · change (isupportToken program numbers token.text >>= fun _ =>
          (tokens.map Token.text).forM (isupportToken program numbers)) state = _
        rw [isupportToken_text isKey, bind_of_ok ends]
        exact folds
      · exact stays (usable_of_kept usable derived (setIsupport_kept ends))

/-- What is derived is usable from the start. -/
theorem usable_new : Usable (IrcState.new : IrcState Num) := by
  intro key
  refine ⟨fun _ => ⟨_, rfl⟩, fun _ => ⟨_, rfl⟩, fun _ => ?_, fun _ => ⟨rfl, rfl, rfl, rfl⟩⟩
  exact stripPrefixes_isSome.mpr rfl

/-- Numbers that are never given. -/
def noNumbers : Numbers Nat := { tonumber := fun _ => none, positive := fun _ => false }

end Snowcone.Modes
