import Snowcone.IrcParsing.Correctness
import Snowcone.Sending.Send
import Snowcone.Session.LineBuffer

/-! What `send` puts on the wire is read back by the line splitter and the parser.
The checks on the parts are exactly what the grammar asks of the arguments.
-/

namespace Snowcone.Sending

open Bytes CMemory IrcParsing Session

/-- Bytes that end a line early, for the server or for the parser. -/
def Breaks (byte : Byte) : Prop := byte = 0 ∨ byte = chr '\r' ∨ byte = chr '\n'

/-- A part that only the last argument can be. -/
def Trailing (text : Bytes) : Prop :=
  text = [] ∨ chr ' ' ∈ text ∨ text.head? = some (chr ':')

/-- The parts that make the line: the last one behind a colon if it needs one. -/
def wireParts : List Bytes → List Bytes
  | [] => []
  | [last] => [if isPlain last then last else chr ':' :: last]
  | part :: next :: more => part :: wireParts (next :: more)

/-- The line for a command with these arguments, before its end of line. -/
def bodyOf (cmd : Bytes) (texts : List Bytes) : Bytes := concat (cmd :: wireParts texts)

/-- The line for a command with these arguments. -/
def lineOf (cmd : Bytes) (texts : List Bytes) : Bytes :=
  bodyOf cmd texts ++ [chr '\r', chr '\n']

/-- The pattern accepts exactly the parts that may stand anywhere. -/
theorem isPlain_iff (text : Bytes) : isPlain text = true ↔ ¬ Trailing text := by
  cases text with
  | nil => simp [isPlain, Trailing]
  | cons c rest =>
      simp only [isPlain, Trailing, Bool.and_eq_true, bne_iff_ne, ne_eq, List.all_eq_true,
        List.mem_cons, reduceCtorEq, List.head?_cons, Option.some.injEq, false_or, not_or]
      constructor
      · rintro ⟨⟨space, colon⟩, others⟩
        exact ⟨⟨Ne.symm space, fun member => others _ member rfl⟩, colon⟩
      · rintro ⟨⟨space, others⟩, colon⟩
        exact ⟨⟨Ne.symm space, colon⟩, fun byte member same => others (same ▸ member)⟩

/-- An argument is refused where it stands. -/
def BadTexts (texts : List Bytes) : Prop :=
  (∃ text ∈ texts, ∃ byte ∈ text, Breaks byte) ∨ ∃ text ∈ texts.dropLast, Trailing text

/-- A single argument is refused only for a byte that ends the line. -/
theorem badTexts_singleton (last : Bytes) : BadTexts [last] ↔ ∃ byte ∈ last, Breaks byte := by
  simp [BadTexts]

/-- An argument in front of others is refused as one in the middle. -/
theorem badTexts_cons (part next : Bytes) (more : List Bytes)
    : BadTexts (part :: next :: more)
      ↔ (∃ byte ∈ part, Breaks byte) ∨ Trailing part ∨ BadTexts (next :: more) := by
  simp only [BadTexts, List.mem_cons, exists_eq_or_imp, List.dropLast_cons_cons]
  constructor
  · rintro ((here | later) | (here | later))
    · exact Or.inl here
    · exact Or.inr (Or.inr (Or.inl later))
    · exact Or.inr (Or.inl here)
    · exact Or.inr (Or.inr (Or.inr later))
  · rintro (here | here | later | later)
    · exact Or.inl (Or.inl here)
    · exact Or.inr (Or.inl here)
    · exact Or.inl (Or.inr later)
    · exact Or.inr (Or.inr later)

/-- The search for prohibited characters finds the bytes that end a line. -/
theorem any_iff_breaks (part : Bytes)
    : part.any (fun b => b == 0 || b == chr '\r' || b == chr '\n') = true
      ↔ ∃ byte ∈ part, Breaks byte := by
  simp [Breaks, or_assoc]

/-- Which parts pass where, and as what. -/
inductive Checked (last : Bool) (part : Bytes) : Except String Bytes → Prop
  | breaks (bad : ∃ byte ∈ part, Breaks byte) (text : String) : Checked last part (.error text)
  | misplaced (middle : last = false) (trailing : Trailing part) (text : String)
    : Checked last part (.error text)
  | passes (clean : ¬ ∃ byte ∈ part, Breaks byte) (placed : last = false → ¬ Trailing part)
    : Checked last part (.ok (if isPlain part then part else chr ':' :: part))

/-- One round of the loop checks one part. -/
theorem partFor_checked (n i : Nat) (part : Bytes)
    : Checked (decide (i = n)) part (partFor n i part) := by
  rw [partFor]
  by_cases breaks : ∃ byte ∈ part, Breaks byte
  · rw [if_pos ((any_iff_breaks part).mpr breaks)]
    exact .breaks breaks _
  rw [if_neg (mt (any_iff_breaks part).mp breaks)]
  by_cases plain : isPlain part = true
  · have passed : Checked (decide (i = n)) part _ :=
      .passes breaks fun _ => (isPlain_iff part).mp plain
    simpa only [plain, Bool.not_true, Bool.false_eq_true, if_false, if_true] using passed
  · have trailing := Classical.not_not.mp (mt (isPlain_iff part).mpr plain)
    simp only [Bool.not_eq_true] at plain
    simp only [plain, Bool.not_false, if_true]
    by_cases last : i = n
    · have passed : Checked (decide (i = n)) part _ :=
        .passes breaks fun middle => absurd last (of_decide_eq_false middle)
      simpa only [plain, last, ne_eq, not_true_eq_false, Bool.false_eq_true, if_false]
        using passed
    · rw [if_pos last]
      exact .misplaced (decide_eq_false last) trailing _

/-- The loop over the arguments makes the parts of the line, or fails on a bad argument, by
induction on the arguments.
-/
theorem partsFrom_eq (n i : Nat) (texts : List Bytes) (counted : i + texts.length = n + 1)
    : (BadTexts texts → ∃ text, partsFrom n i texts = .error text)
      ∧ (¬ BadTexts texts → partsFrom n i texts = .ok (wireParts texts)) := by
  fun_induction wireParts texts generalizing i with
  | case1 => exact ⟨fun bad => by simp [BadTexts] at bad, fun _ => rfl⟩
  | case2 last =>
      have checked := partFor_checked n i last
      have ends : i = n := by simpa using counted
      rw [badTexts_singleton, partsFrom]
      generalize partFor n i last = result at checked
      cases checked with
      | breaks bad text => exact ⟨fun _ => ⟨text, rfl⟩, fun good => absurd bad good⟩
      | misplaced middle => exact absurd ends (of_decide_eq_false middle)
      | passes clean => exact ⟨fun bad => absurd bad clean, fun _ => rfl⟩
  | case3 part next more ih =>
      have checked := partFor_checked n i part
      have inner : i ≠ n := by
        simp only [List.length_cons] at counted
        omega
      have later := ih (i + 1) (by simp only [List.length_cons] at counted ⊢; omega)
      rw [badTexts_cons, partsFrom]
      generalize partFor n i part = result at checked
      cases checked with
      | breaks bad text =>
          exact ⟨fun _ => ⟨text, rfl⟩, fun good => absurd (Or.inl bad) good⟩
      | misplaced _ trailing text =>
          exact ⟨fun _ => ⟨text, rfl⟩, fun good => absurd (Or.inr (Or.inl trailing)) good⟩
      | passes clean placed =>
          have untrailing := placed (decide_eq_false inner)
          have plain := (isPlain_iff part).mpr untrailing
          simp only [plain, if_true]
          constructor
          · intro bad
            obtain ⟨text, fails⟩ :=
              later.1 ((bad.resolve_left clean).resolve_left untrailing)
            exact ⟨text, by rw [fails]; rfl⟩
          · intro good
            rw [later.2 fun bad => good (Or.inr (Or.inr bad))]
            rfl

-----------------------------------------------------------------------------------------
-- Reading the line back
-----------------------------------------------------------------------------------------

/-- A word that can be a command: it is not empty, ends no line early and is not read as a
source or as tags.
-/
structure CommandWord (cmd : Bytes) : Prop where
  nonempty : cmd ≠ []
  plain : chr ' ' ∉ cmd
  unbroken : ¬ ∃ byte ∈ cmd, Breaks byte
  unsourced : cmd.head? ≠ some (chr ':')
  untagged : cmd.head? ≠ some (chr '@')

/-- What the line splitter and the parser make of the bytes, wherever they stand in a
buffer: one line, nothing left, and the message that is read once it has been parsed.
-/
def Decodes (raw : Bytes) (msg : IrcMsg Bytes) : Prop :=
  ∀ b : LineBuffer, b.Valid → b.pending = raw →
    ∃ b',
      b.nextLine = (some b.start, b')
      ∧ b'.pending = []
      ∧ readBack (parseIrcMessage b'.buffer b.start) = some (.ok msg)

/-- The words of a line, with a space before each but the first. -/
theorem concat_cons (part : Bytes) (parts : List Bytes)
    : concat (part :: parts) = part ++ parts.flatMap (fun next => chr ' ' :: next) := by
  induction parts generalizing part with
  | nil => simp [concat]
  | cons next more ih =>
      have later := ih next
      simp only [concat, List.intercalate, List.intersperse_cons_cons, List.flatten_cons,
        List.singleton_append, List.flatMap_cons] at later ⊢
      rw [later]
      rfl

/-- The parts of the line are derived as arguments, by induction on them. -/
theorem wireParts_arguments (texts : List Bytes) (good : ¬ BadTexts texts)
    : Arguments ((wireParts texts).flatMap (fun next => chr ' ' :: next)) texts := by
  fun_induction wireParts texts with
  | case1 => exact .done 0
  | case2 last =>
      rw [List.flatMap_singleton]
      split
      · next plain =>
        have untrailing := (isPlain_iff last).mp plain
        simp only [Trailing, not_or] at untrailing
        have derived := Arguments.word 0 untrailing.1 untrailing.2.1 untrailing.2.2 (.done 0)
        rwa [show last ++ spaces 0 = last from List.append_nil last] at derived
      · exact .last 0 last
  | case3 part next more ih =>
      rw [badTexts_cons] at good
      simp only [Trailing, not_or] at good
      obtain ⟨_, ⟨nonempty, plain, uncoloned⟩, later⟩ := good
      exact .word 0 nonempty plain uncoloned (ih later)

/-- The line without its end is derived as the message that was asked for. -/
theorem bodyOf_message {cmd : Bytes} (nonempty : cmd ≠ []) (plain : chr ' ' ∉ cmd)
    (unsourced : cmd.head? ≠ some (chr ':')) (untagged : cmd.head? ≠ some (chr '@'))
    {texts : List Bytes} (good : ¬ BadTexts texts)
    : Message (bodyOf cmd texts) { tags := [], source := [], command := cmd, args := texts } := by
  have arguments := wireParts_arguments texts good
  have starts := head_append_of_ne_nil nonempty
    ((wireParts texts).flatMap (fun next => chr ' ' :: next))
  rw [bodyOf, concat_cons]
  refine .bare 0 (starts ▸ untagged) (.bare (starts ▸ unsourced) ?_)
  exact .mk nonempty plain arguments

/-- No part of the line ends it early, by induction on the parts. -/
theorem wireParts_unbroken (texts : List Bytes) (good : ¬ BadTexts texts)
    : ∀ part ∈ wireParts texts, ¬ ∃ byte ∈ part, Breaks byte := by
  fun_induction wireParts texts with
  | case1 => simp
  | case2 last =>
      rw [badTexts_singleton] at good
      intro part member
      obtain rfl := List.mem_singleton.mp member
      split
      · exact good
      · rintro ⟨byte, member, breaks⟩
        rcases List.mem_cons.mp member with rfl | inside
        · exact absurd breaks (by unfold Breaks; decide)
        · exact good ⟨byte, inside, breaks⟩
  | case3 part next more ih =>
      rw [badTexts_cons] at good
      simp only [not_or] at good
      intro other member
      rcases List.mem_cons.mp member with rfl | later
      · exact good.1
      · exact ih good.2.2 other later

/-- Nothing in the line ends it early. -/
theorem bodyOf_unbroken {cmd : Bytes} (word : CommandWord cmd) {texts : List Bytes}
    (good : ¬ BadTexts texts)
    : ¬ ∃ byte ∈ bodyOf cmd texts, Breaks byte := by
  rintro ⟨byte, member, breaks⟩
  rw [bodyOf, concat_cons, List.mem_append, List.mem_flatMap] at member
  rcases member with inside | ⟨part, among, member⟩
  · exact word.unbroken ⟨byte, inside, breaks⟩
  · rcases List.mem_cons.mp member with rfl | inside
    · exact absurd breaks (by unfold Breaks; decide)
    · exact wireParts_unbroken texts good part among ⟨byte, inside, breaks⟩

/-- A carriage return behind a text without NUL is all that is dropped. -/
theorem lineText_append {body : Bytes} (clean : 0 ∉ body)
    : lineText (body ++ [chr '\r']) = body := by
  simp [lineText, chopReturn, before_of_not_mem clean]

/-- Some buffer holds just these bytes. -/
theorem exists_pending (raw : Bytes) : ∃ b : LineBuffer, b.Valid ∧ b.pending = raw := by
  have fits : raw.length ≤ (LineBuffer.new raw.length).prepare := by
    simp [LineBuffer.new, LineBuffer.prepare]
  obtain ⟨valid, pending, _⟩ := (LineBuffer.new_valid raw.length).receive fits
  refine ⟨(LineBuffer.new raw.length).receive raw, valid, ?_⟩
  rw [pending]
  simp [LineBuffer.new, LineBuffer.pending, View.read]

/-- A text with an end of line behind it is cut there, if there is no line feed in it. -/
theorem nextLine_body {body : Bytes} (clean : 0 ∉ body) (unbroken : chr '\n' ∉ body)
    {b : LineBuffer} (valid : b.Valid) (pending : b.pending = body ++ [chr '\r', chr '\n'])
    : ∃ b',
        b.nextLine = (some b.start, b')
        ∧ b'.pending = []
        ∧ readBack (parseIrcMessage b'.buffer b.start) = some (messageOf body) := by
  have absent : chr '\n' ∉ body ++ [chr '\r'] := by
    rw [List.mem_append, List.mem_singleton, not_or]
    exact ⟨unbroken, by decide⟩
  have split : b.pending = (body ++ [chr '\r']) ++ chr '\n' :: [] := by
    rw [pending, List.append_assoc]
    rfl
  obtain ⟨b', cuts, cut⟩ := valid.nextLine_of_append split absent
  have text := cut.text
  rw [lineText_append clean] at text
  exact ⟨b', cuts, cut.pending, (parseIrcMessage_refines text).readBack_eq⟩

/-- A text that is read whole has no line feed before its end. -/
theorem Decodes.unbroken {body : Bytes} {msg : IrcMsg Bytes}
    (decodes : Decodes (body ++ [chr '\r', chr '\n']) msg)
    : chr '\n' ∉ body := by
  intro lineFeed
  obtain ⟨b, valid, pending⟩ := exists_pending (body ++ [chr '\r', chr '\n'])
  obtain ⟨b', line, nothing, _⟩ := decodes b valid pending
  rcases onwards_cases (chr '\n') body with ⟨_, absent⟩ | ⟨tail, _, split⟩
  · exact absent lineFeed
  · have early : b.pending
        = before (chr '\n') body ++ chr '\n' :: (tail ++ [chr '\r', chr '\n']) := by
      rw [pending, ← List.cons_append, ← List.append_assoc, ← split]
    obtain ⟨b'', line', cut⟩ := valid.nextLine_of_append early (not_mem_before _ _)
    obtain rfl : b' = b'' := congrArg Prod.snd (line.symm.trans line')
    have left := cut.pending
    rw [nothing] at left
    exact List.append_ne_nil_of_right_ne_nil tail (List.cons_ne_nil _ _) left.symm

/-- A text with an end of line behind it is read as what the parser makes of the text, as long
as there is no line feed in it.
-/
theorem decodes_iff {body : Bytes} (clean : 0 ∉ body) (msg : IrcMsg Bytes)
    : Decodes (body ++ [chr '\r', chr '\n']) msg
      ↔ chr '\n' ∉ body ∧ messageOf body = .ok msg := by
  constructor
  · intro decodes
    have unbroken := decodes.unbroken
    obtain ⟨b, valid, pending⟩ := exists_pending (body ++ [chr '\r', chr '\n'])
    obtain ⟨b', line, _, read⟩ := decodes b valid pending
    obtain ⟨b'', line', _, reads⟩ := nextLine_body clean unbroken valid pending
    obtain rfl : b' = b'' := congrArg Prod.snd (line.symm.trans line')
    exact ⟨unbroken, Option.some.inj (reads.symm.trans read)⟩
  · rintro ⟨unbroken, derived⟩ b valid pending
    obtain ⟨b', line, nothing, reads⟩ := nextLine_body clean unbroken valid pending
    exact ⟨b', line, nothing, derived ▸ reads⟩

/-- The line is read back as the message that was asked for. -/
theorem lineOf_decodes {cmd : Bytes} (word : CommandWord cmd) {texts : List Bytes}
    (good : ¬ BadTexts texts)
    : Decodes (lineOf cmd texts)
        { tags := [], source := [], command := cmd, args := texts } := by
  have unbroken := bodyOf_unbroken word good
  refine (decodes_iff (fun member => unbroken ⟨0, member, Or.inl rfl⟩) _).mpr ⟨?_, ?_⟩
  · exact fun member => unbroken ⟨_, member, Or.inr (Or.inr rfl)⟩
  · exact messageOf_eq_ok_iff.mpr
      (bodyOf_message word.nonempty word.plain word.unsourced word.untagged good)

-----------------------------------------------------------------------------------------
-- send
-----------------------------------------------------------------------------------------

section Send

variable {Num : Type} (numeral : Num → Bytes)

/-- The texts of the arguments. -/
def textsOf (args : List (Argument Num)) : List Bytes := args.map (Argument.part numeral)

/-- What `send` must not put on the wire: a bad argument, or a line that is too long. -/
def Refused (cmd : Bytes) (texts : List Bytes) : Prop :=
  BadTexts texts ∨ 512 < (lineOf cmd texts).length

/-- What raises behind the send: the targets of a chat message are looked for in a first
argument that is not there, or their status prefixes in a `statusmsg` that is no string.
-/
def RaisesLate (irc : IrcState) (cmd : Bytes) (args : List (Argument Num)) : Prop :=
  (cmd = lit "PRIVMSG" ∨ cmd = lit "NOTICE")
  ∧ match args with
    | [] => True
    | first :: _ => targets (first.shown numeral) ≠ [] ∧ irc.statusmsg = .flag

/-- One line of at most 512 bytes was handed over, and it is read back as the message. -/
def HandedOver (client client' : Client) (cmd : Bytes) (texts : List Bytes) : Prop :=
  ∃ irc irc' raw body,
    client.ircState = some irc
    ∧ client'.ircState = some irc'
    ∧ irc'.sent = irc.sent ++ [raw]
    ∧ raw = body ++ [chr '\r', chr '\n']
    ∧ (¬ ∃ byte ∈ body, Breaks byte)
    ∧ raw.length ≤ 512
    ∧ Decodes raw { tags := [], source := [], command := cmd, args := texts }

/-- All or nothing: `send` raises and changes nothing, or hands over the line that says what
was asked for; and it raises exactly for what must not be sent.
-/
def SendsFaithfully (client : Client) (cmd : Bytes) (args : List (Argument Num)) : Prop :=
  let (client', ended) := send numeral client cmd args
  (((∃ text, ended = .raises text) ∧ client' = client)
    ∨ HandedOver client client' cmd (textsOf numeral args))
  ∧ ((∃ text, ended = .raises text) ↔ Refused cmd (textsOf numeral args))

/-- The loop over the targets raises only if `statusmsg` is no string, by induction on the
targets.
-/
theorem record_raises_iff (statusmsg : TokenValue) (msg : SentMsg) (names : List Bytes)
    (buffers : Buffers)
    : (∃ text, (record statusmsg msg names buffers).2 = .raises text)
      ↔ names ≠ [] ∧ statusmsg = .flag := by
  induction names generalizing buffers with
  | nil => simp [record]
  | cons x more ih =>
      cases statusmsg with
      | flag => simp [record]
      | text chars =>
          simp only [reduceCtorEq, and_false, iff_false] at ih ⊢
          simp only [record]
          split
          · simp
          · split <;> exact ih _

/-- What must not be sent is refused before anything changes. -/
theorem send_of_refused {client : Client} {irc : IrcState}
    (connected : client.ircState = some irc) {cmd : Bytes} {args : List (Argument Num)}
    (refused : Refused cmd (textsOf numeral args))
    : ∃ text, send numeral client cmd args = (client, .raises text) := by
  have counted : 1 + (textsOf numeral args).length = args.length + 1 := by
    rw [textsOf, List.length_map]
    omega
  have checks := partsFrom_eq args.length 1 (textsOf numeral args) counted
  by_cases bad : BadTexts (textsOf numeral args)
  · obtain ⟨text, fails⟩ := checks.1 bad
    rw [textsOf] at fails
    exact ⟨text, by simp only [send, connected, fails]⟩
  · have long : 512 < (lineOf cmd (textsOf numeral args)).length := refused.resolve_left bad
    have parts := checks.2 bad
    simp only [textsOf] at parts long
    simp only [send, connected, parts]
    exact ⟨_, if_pos long⟩

/-- Everything else is handed over, whatever happens to the histories afterwards. -/
theorem send_of_not_refused {client : Client} {irc : IrcState}
    (connected : client.ircState = some irc) {cmd : Bytes} {args : List (Argument Num)}
    (accepted : ¬ Refused cmd (textsOf numeral args))
    : ∃ client' ended,
        send numeral client cmd args = (client', ended)
        ∧ client'.ircState = some (irc.rawsend (lineOf cmd (textsOf numeral args)))
        ∧ ((∃ text, ended = .raises text) ↔ RaisesLate numeral irc cmd args) := by
  have counted : 1 + (textsOf numeral args).length = args.length + 1 := by
    rw [textsOf, List.length_map]
    omega
  have checks := partsFrom_eq args.length 1 (textsOf numeral args) counted
  simp only [Refused, not_or] at accepted
  have short : ¬ (concat (cmd :: wireParts (args.map (Argument.part numeral)))
      ++ [chr '\r', chr '\n']).length > 512 := accepted.2
  have parts := checks.2 accepted.1
  simp only [textsOf] at parts
  simp only [send, connected, parts, short, if_false, RaisesLate]
  split
  · next chat =>
    cases args with
    | nil => exact ⟨_, _, rfl, rfl, by simp [chat]⟩
    | cons first rest =>
        refine ⟨_, _, rfl, rfl, ?_⟩
        simp only [chat, true_and]
        exact record_raises_iff _ _ _ _
  · next other => exact ⟨_, _, rfl, rfl, by simp [other]⟩

/-- `send` is all or nothing exactly when nothing raises behind the send: what must not be
sent is refused first; else the line goes out, and is right, before the histories are
changed, and only the search for the targets can still raise.
-/
theorem send_faithful_iff {client : Client} {irc : IrcState}
    (connected : client.ircState = some irc) {cmd : Bytes} (word : CommandWord cmd)
    (args : List (Argument Num))
    : SendsFaithfully numeral client cmd args
      ↔ Refused cmd (textsOf numeral args) ∨ ¬ RaisesLate numeral irc cmd args := by
  by_cases refused : Refused cmd (textsOf numeral args)
  · obtain ⟨text, sends⟩ := send_of_refused numeral connected refused
    refine iff_of_true ?_ (Or.inl refused)
    simp only [SendsFaithfully, sends]
    exact ⟨Or.inl ⟨⟨text, rfl⟩, trivial⟩, fun _ => refused, fun _ => ⟨text, rfl⟩⟩
  · obtain ⟨client', ended, sends, state, raises⟩ :=
      send_of_not_refused numeral connected refused
    have handed : HandedOver client client' cmd (textsOf numeral args) := by
      have good := fun bad => refused (Or.inl bad)
      have short := Nat.le_of_not_lt fun long => refused (Or.inr long)
      exact ⟨irc, _, lineOf cmd _, bodyOf cmd _, connected, state, rfl, rfl,
        bodyOf_unbroken word good, short, lineOf_decodes word good⟩
    simp only [SendsFaithfully, sends, refused, false_or, iff_false, raises]
    exact ⟨fun faithful => faithful.2, fun quiet => ⟨Or.inr handed, quiet⟩⟩

end Send

/-- A client that is connected, before it has sent anything. -/
def freshClient : Client where
  uptime := 0
  date := lit "00:00:00"
  ircState := some { statusmsg := .text (lit "@+"), sent := [] }
  messages := .new 1000 none none
  buffers := fun _ => none

/-- A chat message with a number and a last argument with a space. -/
theorem send_faithful_iff_witness
    : SendsFaithfully (fun n : Nat => List.replicate n (chr '1')) freshClient (lit "PRIVMSG")
        [.plain (.string (lit "#a")), .plain (.number 3), .table (.string (lit "b c")) false] :=
  have word : CommandWord (lit "PRIVMSG") := {
    nonempty := by decide
    plain := by decide
    unbroken := by unfold Breaks; decide
    unsourced := by decide
    untagged := by decide
  }
  (send_faithful_iff _ rfl word _).mpr (Or.inr fun late => by cases late.2.2)

/-- A chat command without arguments goes out and then raises. -/
theorem send_faithful_counterexample
    : ¬ SendsFaithfully (fun _ : Nat => []) freshClient (lit "PRIVMSG") [] := by
  intro faithful
  have raises : (send (fun _ : Nat => []) freshClient (lit "PRIVMSG") []).2
      = .raises "attempt to index a nil value (field '?')" := rfl
  rcases faithful.2.mp ⟨_, raises⟩ with (⟨_, member, _⟩ | ⟨_, member, _⟩) | long
  · cases member
  · cases member
  · exact absurd long (by decide)

end Snowcone.Sending
