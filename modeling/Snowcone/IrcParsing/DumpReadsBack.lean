import Mathlib.Data.List.Induction
import Snowcone.IrcParsing.Dump

/-! Which messages `/dump` writes so that they can be read back: the escaping is undone for
values without a backslash, and everything else but a few sources and commands is inverted.
-/

namespace Snowcone.IrcParsing

open Bytes CMemory Decimal

-----------------------------------------------------------------------------------------
-- Tag values
-----------------------------------------------------------------------------------------

/-- How a character may be escaped: a backslash not at all, and every other character so that
it can be read back.
-/
inductive Escaped : Byte → Bytes → Prop
  | backslash : Escaped (chr '\\') [chr '\\']
  | letter {c d} (plain : c ≠ chr '\\') (other : d ≠ chr '\\') (stands : unescapeChar d = c)
    (moved : d ≠ c)
    : Escaped c [chr '\\', d]
  | plain {c} (plain : c ≠ chr '\\') : Escaped c [c]

/-- The table of `escapeval` escapes characters in these ways. -/
theorem escaped_escapeChar (c : Byte) : Escaped c (escapeChar c) := by
  simp only [escapeChar]
  split_ifs with backslash space semicolon lineFeed carriageReturn
  · exact backslash ▸ .backslash
  · exact space ▸ @Escaped.letter (chr ' ') (chr 's') (by decide) (by decide) rfl (by decide)
  · exact semicolon ▸ @Escaped.letter (chr ';') (chr ':') (by decide) (by decide) rfl (by decide)
  · exact lineFeed ▸ @Escaped.letter 10 (chr 'n') (by decide) (by decide) rfl (by decide)
  · exact carriageReturn ▸ @Escaped.letter 13 (chr 'r') (by decide) (by decide) rfl (by decide)
  · exact .plain backslash

/-- An escape is read as the character it stands for. -/
theorem unescape_pair (d : Byte) (rest : Bytes)
    : unescape (chr '\\' :: d :: rest) = unescapeChar d :: unescape rest := by
  simp [unescape]

/-- Only the backslash stands for a backslash. -/
theorem eq_backslash_of_unescapeChar {d : Byte} (stands : unescapeChar d = chr '\\')
    : d = chr '\\' := by
  simp only [unescapeChar] at stands
  split_ifs at stands
  all_goals first | exact stands | cases stands

/-- Values do not grow on the way, even behind another backslash, by induction on the value. -/
theorem unescape_escapeVal_length (val : Bytes)
    : (unescape (escapeVal val)).length ≤ val.length
      ∧ (unescape (chr '\\' :: escapeVal val)).length ≤ val.length + 1 := by
  induction val with
  | nil => exact ⟨Nat.le_refl 0, Nat.zero_le 1⟩
  | cons c val ih =>
      rw [escapeVal, List.flatMap_cons, ← escapeVal]
      have escaped := escaped_escapeChar c
      generalize escapeChar c = written at escaped ⊢
      cases escaped with
      | backslash =>
          rw [List.singleton_append, unescape_pair]
          exact ⟨ih.2, Nat.succ_le_succ (Nat.le_succ_of_le ih.1)⟩
      | @letter _ d plain other stands moved =>
          rw [List.cons_append, List.singleton_append, unescape_pair, unescape_pair,
            unescape_cons_plain other]
          exact ⟨Nat.succ_le_succ ih.1, Nat.succ_le_succ (Nat.succ_le_succ ih.1)⟩
      | plain plain =>
          rw [List.singleton_append, unescape_cons_plain plain, unescape_pair]
          exact ⟨Nat.succ_le_succ ih.1, Nat.succ_le_succ (Nat.le_succ_of_le ih.1)⟩

/-- A value that starts with a backslash is not read back: what follows it is taken for an
escape.
-/
theorem unescape_escapeVal_backslash (val : Bytes)
    : unescape (chr '\\' :: escapeVal val) ≠ chr '\\' :: val := by
  cases val with
  | nil => simp [escapeVal, unescape]
  | cons c val =>
      intro same
      rw [escapeVal, List.flatMap_cons, ← escapeVal] at same
      have escaped := escaped_escapeChar c
      generalize escapeChar c = written at escaped same
      cases escaped with
      | backslash =>
          rw [List.singleton_append, unescape_pair] at same
          have shorter := (unescape_escapeVal_length val).1
          rw [(List.cons.inj same).2, List.length_cons] at shorter
          exact Nat.not_succ_le_self _ shorter
      | @letter _ d plain other stands moved =>
          rw [List.cons_append, List.singleton_append, unescape_pair,
            unescape_cons_plain other] at same
          exact moved (List.cons.inj (List.cons.inj same).2).1
      | plain plain =>
          rw [List.singleton_append, unescape_pair] at same
          exact plain (eq_backslash_of_unescapeChar (List.cons.inj same).1)

/-- A value is read back exactly when it has no backslash, by induction on the value. -/
theorem unescape_escapeVal_iff (val : Bytes)
    : unescape (escapeVal val) = val ↔ chr '\\' ∉ val := by
  induction val with
  | nil => simp [escapeVal, unescape]
  | cons c val ih =>
      rw [escapeVal, List.flatMap_cons, ← escapeVal]
      have escaped := escaped_escapeChar c
      generalize escapeChar c = written at escaped ⊢
      cases escaped with
      | backslash =>
          rw [List.singleton_append]
          exact iff_of_false (unescape_escapeVal_backslash val) (not_not.mpr List.mem_cons_self)
      | @letter _ d plain other stands moved =>
          rw [List.cons_append, List.singleton_append, unescape_pair, stands, List.cons_inj_right,
            ih, List.mem_cons, not_or]
          exact (and_iff_right plain.symm).symm
      | plain plain =>
          rw [List.singleton_append, unescape_cons_plain plain, List.cons_inj_right, ih,
            List.mem_cons, not_or]
          exact (and_iff_right plain.symm).symm

/-- An escaped value has neither separators nor bytes that end a string. -/
theorem escapeVal_plain {val : Bytes} (clean : 0 ∉ val)
    : chr ';' ∉ escapeVal val ∧ chr ' ' ∉ escapeVal val ∧ 0 ∉ escapeVal val := by
  have each : ∀ c ∈ val, ∀ d ∈ escapeChar c, d ≠ chr ';' ∧ d ≠ chr ' ' ∧ d ≠ 0 := by
    intro c isIn d written
    have other : c ≠ 0 := ne_of_mem_of_not_mem isIn clean
    simp only [escapeChar] at written
    split_ifs at written with backslash space semicolon lineFeed carriageReturn
    case neg =>
      rw [List.mem_singleton] at written
      exact written ▸ ⟨semicolon, space, other⟩
    all_goals
      revert d
      decide +kernel
  have all : ∀ d ∈ escapeVal val, d ≠ chr ';' ∧ d ≠ chr ' ' ∧ d ≠ 0 := by
    intro d isIn
    obtain ⟨c, charIsIn, written⟩ := List.mem_flatMap.mp isIn
    exact each c charIsIn d written
  exact ⟨fun isIn => (all _ isIn).1 rfl, fun isIn => (all _ isIn).2.1 rfl,
    fun isIn => (all _ isIn).2.2 rfl⟩

-----------------------------------------------------------------------------------------
-- Tables of tags
-----------------------------------------------------------------------------------------

/-- One more tag sets its key. -/
theorem pushTags_append (tags : List (IrcTag Bytes)) (tag : IrcTag Bytes)
    : pushTags (tags ++ [tag]) = Function.update (pushTags tags) tag.key (some tag.val) := by
  rw [pushTags, List.foldl_append]
  rfl

/-- What is in the table comes from a tag, by induction from the last tag. -/
theorem mem_of_pushTags {tags : List (IrcTag Bytes)} {key val : Bytes}
    (found : pushTags tags key = some val)
    : { key, val : IrcTag Bytes } ∈ tags := by
  induction tags using List.reverseRecOn with
  | nil => cases found
  | append_singleton tags tag ih =>
      rw [pushTags_append, Function.update_apply] at found
      rw [List.mem_append, List.mem_singleton]
      split at found
      · next same => exact Or.inr (by rw [same, ← Option.some.inj found])
      · exact Or.inl (ih found)

/-- Tags with different keys are all in the table, by induction from the last tag. -/
theorem pushTags_of_mem {tags : List (IrcTag Bytes)} (once : (tags.map IrcTag.key).Nodup)
    {tag : IrcTag Bytes} (isIn : tag ∈ tags)
    : pushTags tags tag.key = some tag.val := by
  induction tags using List.reverseRecOn with
  | nil => cases isIn
  | append_singleton tags last ih =>
      rw [List.map_append, List.nodup_append] at once
      obtain ⟨before, _, apart⟩ := once
      rw [pushTags_append, Function.update_apply]
      rcases List.mem_append.mp isIn with earlier | here
      · have different : tag.key ≠ last.key :=
          apart _ (List.mem_map_of_mem earlier) _ (List.mem_singleton.mpr rfl)
        rw [if_neg different, ih before earlier]
      · rw [List.mem_singleton.mp here, if_pos rfl]

/-- Tags make a table that is not empty. -/
theorem pushTags_nonempty {tags : List (IrcTag Bytes)} (nonempty : tags ≠ [])
    : ∃ key val, pushTags tags key = some val := by
  rw [← List.dropLast_append_getLast nonempty, pushTags_append]
  exact ⟨(tags.getLast nonempty).key, (tags.getLast nonempty).val, Function.update_self _ _ _⟩

/-- One tag makes a table with one entry. -/
theorem visits_single (key val : Bytes) : Visits (pushTags [{ key, val }]) [(key, val)] := by
  have once : [key].Nodup := List.nodup_cons.mpr ⟨List.not_mem_nil, List.nodup_nil⟩
  refine ⟨once, fun other otherVal => ?_⟩
  constructor
  · intro isIn
    cases List.mem_singleton.mp isIn
    rw [pushTags, List.foldl_cons, List.foldl_nil, Function.update_self]
  · intro found
    cases List.mem_singleton.mp (mem_of_pushTags found)
    exact List.mem_singleton.mpr rfl

/-- The tag that is read back for an entry. -/
def dumpedTag (entry : Bytes × Bytes) : IrcTag Bytes where
  key := entry.1
  val := unescape (escapeVal entry.2)

/-- The tags that are read back make the same table exactly when every value is read back. -/
theorem pushTags_dumped_iff {table : Bytes → Option Bytes} {entries : List (Bytes × Bytes)}
    (visits : Visits table entries)
    : pushTags (entries.map dumpedTag) = table
      ↔ ∀ key val, table key = some val → chr '\\' ∉ val := by
  have once : ((entries.map dumpedTag).map IrcTag.key).Nodup := by
    rw [List.map_map]
    exact visits.once
  have dumped : ∀ key val,
      table key = some val
      → pushTags (entries.map dumpedTag) key = some (unescape (escapeVal val)) := by
    intro key val found
    exact pushTags_of_mem once
      (List.mem_map_of_mem ((visits.all key val).mpr found) : dumpedTag (key, val) ∈ _)
  constructor
  · intro same key val found
    have read := dumped key val found
    rw [same, found] at read
    exact (unescape_escapeVal_iff val).mp (Option.some.inj read).symm
  · intro plain
    funext key
    cases found : table key with
    | some val => rw [dumped key val found, (unescape_escapeVal_iff val).mpr (plain key val found)]
    | none =>
        cases read : pushTags (entries.map dumpedTag) key with
        | none => rfl
        | some val =>
            obtain ⟨entry, isIn, same⟩ := List.mem_map.mp (mem_of_pushTags read)
            have there := (visits.all entry.1 entry.2).mp isIn
            rw [show entry.1 = key from congrArg IrcTag.key same, found] at there
            cases there

/-- A table without entries is empty. -/
theorem Visits.eq_nil_iff {table : Bytes → Option Bytes} {entries : List (Bytes × Bytes)}
    (visits : Visits table entries)
    : entries = [] ↔ ∀ key, table key = none := by
  constructor
  · rintro rfl key
    cases found : table key with
    | none => rfl
    | some val => cases (visits.all key val).mpr found
  · intro empty
    refine List.eq_nil_iff_forall_not_mem.mpr (fun entry isIn => ?_)
    rw [(visits.all entry.1 entry.2), empty] at isIn
    cases isIn

-----------------------------------------------------------------------------------------
-- Messages that were parsed
-----------------------------------------------------------------------------------------

/-- Unescaping makes no byte that ends a string. -/
theorem unescape_clean {text : Bytes} (clean : 0 ∉ text) : 0 ∉ unescape text := by
  fun_induction unescape text with
  | case1 => exact clean
  | case2 => exact List.not_mem_nil
  | case3 => exact clean
  | case4 rest d ih =>
      simp only [List.mem_cons, not_or] at clean
      rw [List.mem_cons, not_or]
      refine ⟨?_, ih clean.2.2⟩
      simp only [unescapeChar]
      split_ifs
      all_goals first | exact clean.2.1 | decide
  | case5 c d rest _ ih =>
      rw [List.mem_cons, not_or] at clean ⊢
      exact ⟨clean.1, ih clean.2⟩

/-- The key of a tag that was parsed. -/
structure PlainKey (key : Bytes) : Prop where
  nonempty : key ≠ []
  noValue : chr '=' ∉ key
  noEntry : chr ';' ∉ key
  noSpace : chr ' ' ∉ key
  clean : 0 ∉ key

/-- A message that was parsed from a string without NUL. -/
structure WellFormed (msg : IrcMsg Bytes) : Prop where
  keys : ∀ tag ∈ msg.tags, PlainKey tag.key ∧ 0 ∉ tag.val
  source : chr ' ' ∉ msg.source ∧ 0 ∉ msg.source
  nonempty : msg.command ≠ []
  command : chr ' ' ∉ msg.command ∧ 0 ∉ msg.command
  args : Arguments (dumpArgs msg.args) msg.args ∧ 0 ∉ dumpArgs msg.args

/-- The arguments are written as the grammar derives them, by induction on the derivation. -/
theorem Arguments.dumpArgs {rest : Bytes} {args : List Bytes} (derived : Arguments rest args)
    (clean : 0 ∉ rest)
    : Arguments (dumpArgs args) args ∧ 0 ∉ IrcParsing.dumpArgs args := by
  induction derived with
  | done count => exact ⟨.done 0, List.not_mem_nil⟩
  | @word count word rest args nonempty plain uncoloned more ih =>
      simp only [List.mem_append, not_or] at clean
      obtain ⟨written, cleanArgs⟩ := ih clean.2.2
      cases args with
      | nil =>
          refine ⟨.last 0 word, ?_⟩
          rw [IrcParsing.dumpArgs, List.mem_append, not_or]
          exact ⟨by decide, clean.2.1⟩
      | cons next args =>
          refine ⟨.word 0 nonempty plain uncoloned written, ?_⟩
          rw [IrcParsing.dumpArgs, List.mem_cons, List.mem_append]
          · exact not_or.mpr ⟨by decide, not_or.mpr ⟨clean.2.1, cleanArgs⟩⟩
          · exact List.cons_ne_nil _ _
  | last count text =>
      rw [List.mem_append, List.mem_cons, not_or, not_or] at clean
      refine ⟨.last 0 text, ?_⟩
      rw [IrcParsing.dumpArgs, List.mem_append, not_or]
      exact ⟨by decide, clean.2.2⟩

/-- The parts of a tag that was parsed. -/
theorem TagEntry.plain {entry : Bytes} {tag : IrcTag Bytes} (derived : TagEntry entry tag)
    (noEntry : chr ';' ∉ entry) (noSpace : chr ' ' ∉ entry) (clean : 0 ∉ entry)
    : PlainKey tag.key ∧ 0 ∉ tag.val := by
  cases derived with
  | bare nonempty plain => exact ⟨⟨nonempty, plain, noEntry, noSpace, clean⟩, List.not_mem_nil⟩
  | valued nonempty plain val =>
      simp only [List.mem_append, List.mem_cons, not_or] at noEntry noSpace clean
      exact ⟨⟨nonempty, plain, noEntry.1, noSpace.1, clean.1⟩, unescape_clean clean.2.2⟩

/-- The parts of the tags that were parsed. -/
theorem TagList.plain {list : Bytes} {tags : List (IrcTag Bytes)} (derived : TagList list tags)
    (noSpace : chr ' ' ∉ list) (clean : 0 ∉ list)
    : ∀ tag ∈ tags, PlainKey tag.key ∧ 0 ∉ tag.val := by
  have entries : ∀ entry ∈ list.splitOn (chr ';'),
      chr ';' ∉ entry ∧ chr ' ' ∉ entry ∧ 0 ∉ entry := by
    intro entry isIn
    obtain ⟨noEntry, subset⟩ := of_mem_splitOn isIn
    exact ⟨noEntry, fun space => noSpace (subset space), fun zero => clean (subset zero)⟩
  have each := ((List.forall₂_and_left _ _).mpr ⟨entries, derived⟩).imp
    (S := flip fun tag _ => (PlainKey tag.key ∧ 0 ∉ tag.val) ∧ True)
    (fun entry tag both => ⟨both.2.plain both.1.1 both.1.2.1 both.1.2.2, trivial⟩)
  exact ((List.forall₂_and_left _ _).mp each.flip).1

/-- The command and its arguments, by cases on the derivation. -/
theorem Command.wellFormed {tags : List (IrcTag Bytes)} {source text : Bytes}
    {msg : IrcMsg Bytes} (derived : Command tags source text msg) (clean : 0 ∉ text)
    (keys : ∀ tag ∈ tags, PlainKey tag.key ∧ 0 ∉ tag.val)
    (sourcePlain : chr ' ' ∉ source ∧ 0 ∉ source)
    : WellFormed msg := by
  cases derived with
  | mk nonempty plain arguments =>
      rw [List.mem_append, not_or] at clean
      exact {
        keys
        source := sourcePlain
        nonempty
        command := ⟨plain, clean.1⟩
        args := arguments.dumpArgs clean.2
      }

/-- The source and what follows it, by cases on the derivation. -/
theorem Sourced.wellFormed {tags : List (IrcTag Bytes)} {text : Bytes} {msg : IrcMsg Bytes}
    (derived : Sourced tags text msg) (clean : 0 ∉ text)
    (keys : ∀ tag ∈ tags, PlainKey tag.key ∧ 0 ∉ tag.val)
    : WellFormed msg := by
  cases derived with
  | bare uncoloned command =>
      exact command.wellFormed clean keys ⟨List.not_mem_nil, List.not_mem_nil⟩
  | sourced plain count command =>
      simp only [List.mem_cons, List.mem_append, not_or] at clean
      exact command.wellFormed clean.2.2.2 keys ⟨plain, clean.2.1⟩

/-- Every message of the grammar is well formed, by cases on the derivation. -/
theorem Message.wellFormed {line : Bytes} {msg : IrcMsg Bytes} (derived : Message line msg)
    (clean : 0 ∉ line)
    : WellFormed msg := by
  cases derived with
  | bare lead untagged sourced =>
      rw [List.mem_append, not_or] at clean
      exact sourced.wellFormed clean.2 (List.forall_mem_nil _)
  | tagged lead count plain tagList sourced =>
      simp only [List.mem_append, List.mem_cons, not_or] at clean
      exact sourced.wellFormed clean.2.2.2.2 (tagList.plain plain clean.2.2.1)

-----------------------------------------------------------------------------------------
-- Commands
-----------------------------------------------------------------------------------------

/-- A command that is kept as a name is that name. -/
theorem eq_of_pushCommand {command text : Bytes} (named : pushCommand command = .name text)
    : command = text := by
  rw [pushCommand] at named
  split at named
  · cases named
  · exact CommandValue.name.inj named

/-- A command is written as a name it is kept as, or as a number in the range of numbers. -/
theorem dumpCommand_cases (command : Bytes)
    : dumpCommand (pushCommand command) = command
      ∨ ∃ code,
          InLongLong code
          ∧ pushCommand command = .number code
          ∧ dumpCommand (pushCommand command) = formatPadded 3 code := by
  rw [pushCommand]
  split
  · next code read => exact Or.inr ⟨code, inLongLong_of_fromChars read, rfl, rfl⟩
  · exact Or.inl rfl

/-- The command that is written is kept as the same command. -/
theorem pushCommand_dumpCommand (command : Bytes)
    : pushCommand (dumpCommand (pushCommand command)) = pushCommand command := by
  rcases dumpCommand_cases command with name | ⟨code, inRange, number, written⟩
  · rw [name]
  · rw [written, number, pushCommand, fromChars_formatPadded 3 inRange]

/-- The command that is written is a word. -/
theorem dumpCommand_word {msg : IrcMsg Bytes} (wellFormed : WellFormed msg)
    : dumpCommand (pushCommand msg.command) ≠ []
      ∧ chr ' ' ∉ dumpCommand (pushCommand msg.command)
      ∧ 0 ∉ dumpCommand (pushCommand msg.command) := by
  rcases dumpCommand_cases msg.command with name | ⟨code, _, _, written⟩
  · rw [name]
    exact ⟨wellFormed.nonempty, wellFormed.command⟩
  · rw [written]
    refine ⟨formatPadded_ne_nil 3 code, fun space => ?_, fun zero => ?_⟩
    · rcases formatPadded_chars space with digit | sign
      · cases digit
      · cases sign
    · rcases formatPadded_chars zero with digit | sign
      · cases digit
      · cases sign

/-- Only a name can start with anything but a digit or a sign. -/
theorem dumpCommand_head {command : Bytes} {c : Byte} (notDigit : isNumeral c = false)
    (notSign : c ≠ chr '-') (starts : (dumpCommand (pushCommand command)).head? = some c)
    : pushCommand command = .name command ∧ command.head? = some c := by
  cases kept : pushCommand command with
  | name text =>
      rw [kept] at starts
      rw [eq_of_pushCommand kept]
      exact ⟨rfl, starts⟩
  | number code =>
      rw [kept] at starts
      rcases formatPadded_chars (List.mem_of_head? starts) with digit | sign
      · rw [digit] at notDigit
        cases notDigit
      · exact absurd sign notSign

-----------------------------------------------------------------------------------------
-- The text that is written
-----------------------------------------------------------------------------------------

/-- An entry of the tags is written as the grammar derives it. -/
theorem dumpEntry_entry {entry : Bytes × Bytes} (key : PlainKey entry.1)
    : TagEntry (dumpEntry entry) (dumpedTag entry) := by
  obtain ⟨key', val⟩ := entry
  rw [dumpEntry, dumpedTag]
  split
  · exact .valued key.nonempty key.noValue _
  · next empty =>
    rw [not_not.mp empty, List.append_nil]
    exact .bare key.nonempty key.noValue

/-- An entry of the tags is written without separators and NUL. -/
theorem dumpEntry_plain {entry : Bytes × Bytes} (key : PlainKey entry.1) (clean : 0 ∉ entry.2)
    : chr ';' ∉ dumpEntry entry ∧ chr ' ' ∉ dumpEntry entry ∧ 0 ∉ dumpEntry entry := by
  obtain ⟨noEntry, noSpace, noZero⟩ := escapeVal_plain clean
  rw [dumpEntry]
  split
  · simp only [List.mem_append, List.mem_cons, not_or]
    exact ⟨⟨key.noEntry, by decide, noEntry⟩, ⟨key.noSpace, by decide, noSpace⟩,
      ⟨key.clean, by decide, noZero⟩⟩
  · rw [List.append_nil]
    exact ⟨key.noEntry, key.noSpace, key.clean⟩

/-- The tag list that is written is read entry by entry, by induction on the entries. -/
theorem dumpEntries_tagList {first : Bytes × Bytes} {others : List (Bytes × Bytes)}
    (keys : ∀ entry ∈ first :: others, PlainKey entry.1 ∧ 0 ∉ entry.2)
    : TagList (dumpEntry first ++ others.flatMap (fun entry => chr ';' :: dumpEntry entry))
        ((first :: others).map dumpedTag) := by
  induction others generalizing first with
  | nil =>
      obtain ⟨key, clean⟩ := keys first List.mem_cons_self
      rw [List.flatMap_nil, List.append_nil, TagList,
        List.splitOn_eq_singleton (dumpEntry_plain key clean).1]
      exact .cons (dumpEntry_entry key) .nil
  | cons next others ih =>
      obtain ⟨key, clean⟩ := keys first List.mem_cons_self
      rw [List.flatMap_cons, List.cons_append, TagList,
        List.splitOn_append_cons_self_of_not_mem (dumpEntry_plain key clean).1]
      exact .cons (dumpEntry_entry key)
        (ih (fun entry isIn => keys entry (List.mem_cons_of_mem first isIn)))

/-- The tag list that is written has neither spaces nor NUL. -/
theorem dumpEntries_plain {first : Bytes × Bytes} {others : List (Bytes × Bytes)}
    (keys : ∀ entry ∈ first :: others, PlainKey entry.1 ∧ 0 ∉ entry.2)
    {c : Byte} (special : c = chr ' ' ∨ c = 0)
    : c ∉ dumpEntry first ++ others.flatMap (fun entry => chr ';' :: dumpEntry entry) := by
  have each : ∀ entry ∈ first :: others, c ∉ dumpEntry entry := by
    intro entry isIn
    obtain ⟨_, noSpace, noZero⟩ := dumpEntry_plain (keys entry isIn).1 (keys entry isIn).2
    rcases special with rfl | rfl
    · exact noSpace
    · exact noZero
  have notSeparator : c ≠ chr ';' := by
    rcases special with rfl | rfl <;> decide
  simp only [List.mem_append, List.mem_flatMap, List.mem_cons, not_or, not_exists, not_and]
  exact ⟨each first List.mem_cons_self,
    fun entry isIn => ⟨notSeparator, each entry (List.mem_cons_of_mem first isIn)⟩⟩

/-- The tags that are written are read back in front of everything but a space and, if there
are none, an at sign.
-/
theorem messageOf_dumpTags {entries : List (Bytes × Bytes)} {text : Bytes}
    (keys : ∀ entry ∈ entries, PlainKey entry.1 ∧ 0 ∉ entry.2)
    (noSpace : text.head? ≠ some (chr ' '))
    (untagged : entries = [] → text.head? ≠ some (chr '@'))
    : messageOf (dumpTags entries ++ text) = sourcedOf (entries.map dumpedTag) text := by
  cases entries with
  | nil =>
      simp only [dumpTags, List.nil_append, messageOf, dropLeading_of_head_ne noSpace,
        untagged rfl, if_false]
      rfl
  | cons first others =>
      have plain := dumpEntries_plain keys (Or.inl rfl)
      have list := tagsOf_eq_ok_iff.mpr (dumpEntries_tagList keys)
      have shape : dumpTags (first :: others) ++ text
          = chr '@' :: ((dumpEntry first
            ++ others.flatMap (fun entry => chr ';' :: dumpEntry entry))
              ++ (spaces (0 + 1) ++ text)) := by
        rw [dumpTags, List.cons_append]
        simp only [List.append_assoc]
        rfl
      rw [shape, messageOf, dropLeading_of_head_ne (by rw [List.head?_cons]; decide)]
      simp only [List.head?_cons, if_true, List.tail_cons,
        before_append_boundary plain (boundary_spaces 0 text), nextWord_append plain 0 noSpace,
        list]
      rfl

/-- The source that is written is read back in front of a command. -/
theorem sourcedOf_dumpSource {tags : List (IrcTag Bytes)} {source text : Bytes}
    (plain : chr ' ' ∉ source) (received : source ≠ lit ">>>")
    (noSpace : text.head? ≠ some (chr ' '))
    (notSource : source = [] → text.head? ≠ some (chr ':'))
    : sourcedOf tags (dumpSource (if source = [] then none else some source) ++ text)
      = commandOf tags source text := by
  by_cases empty : source = []
  · simp only [empty, if_true, dumpSource, List.nil_append, sourcedOf, notSource empty, if_false]
  · have shape : dumpSource (some source) ++ text
        = chr ':' :: (source ++ (spaces (0 + 1) ++ text)) := by
      simp only [dumpSource, ne_eq, received, not_false_eq_true, if_true, List.cons_append,
        List.append_assoc]
      rfl
    simp only [empty, if_false, shape, sourcedOf, List.head?_cons, if_true, List.tail_cons,
      before_append_boundary plain (boundary_spaces 0 text), nextWord_append plain 0 noSpace]

/-- The command and the arguments that are written are read back. -/
theorem commandOf_dump {msg : IrcMsg Bytes} (wellFormed : WellFormed msg)
    (tags : List (IrcTag Bytes)) (source : Bytes)
    : commandOf tags source (dumpCommand (pushCommand msg.command) ++ dumpArgs msg.args)
      = .ok {
          tags, source
          command := dumpCommand (pushCommand msg.command)
          args := msg.args
        } := by
  obtain ⟨nonempty, plain, _⟩ := dumpCommand_word wellFormed
  exact commandOf_eq_ok_iff.mpr (.mk nonempty plain wellFormed.args.1)

/-- What is written behind the tags. -/
def dumpRest (msg : IrcMsg Bytes) : Bytes :=
  dumpSource (pushIrcMsg msg).source
    ++ (dumpCommand (pushCommand msg.command) ++ dumpArgs msg.args)

/-- Without a source the command is next. -/
theorem dumpRest_sourceless {msg : IrcMsg Bytes} (sourceless : msg.source = [])
    : dumpRest msg = dumpCommand (pushCommand msg.command) ++ dumpArgs msg.args := by
  simp only [dumpRest, pushIrcMsg, sourceless, if_true, dumpSource, List.nil_append]

/-- With a source that is written a colon is next. -/
theorem dumpRest_sourced {msg : IrcMsg Bytes} (sourced : msg.source ≠ [])
    (received : msg.source ≠ lit ">>>")
    : (dumpRest msg).head? = some (chr ':') := by
  simp only [dumpRest, pushIrcMsg, sourced, if_false, dumpSource, ne_eq, received,
    not_false_eq_true, if_true, List.cons_append, List.head?_cons]

/-- What is written behind the tags does not start with a space. -/
theorem dumpRest_head_ne_space {msg : IrcMsg Bytes} (wellFormed : WellFormed msg)
    (received : msg.source ≠ lit ">>>")
    : (dumpRest msg).head? ≠ some (chr ' ') := by
  obtain ⟨nonempty, plain, _⟩ := dumpCommand_word wellFormed
  by_cases sourceless : msg.source = []
  · rw [dumpRest_sourceless sourceless, head_append_of_ne_nil nonempty]
    exact head_ne_space plain
  · rw [dumpRest_sourced sourceless received]
    decide

/-- A message that is written is parsed, with the tags as they are unescaped. -/
theorem messageOf_dumpText {msg : IrcMsg Bytes} {entries : List (Bytes × Bytes)}
    (wellFormed : WellFormed msg) (keys : ∀ entry ∈ entries, PlainKey entry.1 ∧ 0 ∉ entry.2)
    (received : msg.source ≠ lit ">>>")
    (notSource : msg.source = []
      → (dumpCommand (pushCommand msg.command)).head? ≠ some (chr ':'))
    (notTags : msg.source = [] → entries = []
      → (dumpCommand (pushCommand msg.command)).head? ≠ some (chr '@'))
    : messageOf (dumpText (pushIrcMsg msg) entries)
      = .ok {
          tags := entries.map dumpedTag
          source := msg.source
          command := dumpCommand (pushCommand msg.command)
          args := msg.args
        } := by
  obtain ⟨nonempty, plain, _⟩ := dumpCommand_word wellFormed
  have head := head_append_of_ne_nil nonempty (dumpArgs msg.args)
  have untagged : entries = [] → (dumpRest msg).head? ≠ some (chr '@') := by
    intro noEntries
    by_cases sourceless : msg.source = []
    · rw [dumpRest_sourceless sourceless, head]
      exact notTags sourceless noEntries
    · rw [dumpRest_sourced sourceless received]
      decide
  have tagged := messageOf_dumpTags keys (dumpRest_head_ne_space wellFormed received) untagged
  refine tagged.trans (Eq.trans ?_ (commandOf_dump wellFormed _ _))
  exact sourcedOf_dumpSource wellFormed.source.1 received (head ▸ head_ne_space plain)
    (fun sourceless => head ▸ notSource sourceless)

-----------------------------------------------------------------------------------------
-- Texts that are not read back
-----------------------------------------------------------------------------------------

/-- How much room arguments need. -/
def room : List Bytes → Nat
  | [] => 0
  | arg :: args => arg.length + 1 + room args

/-- Arguments have the room they need, by induction on the derivation. -/
theorem Arguments.room_le {rest : Bytes} {args : List Bytes} (derived : Arguments rest args)
    : room args ≤ rest.length := by
  induction derived with
  | done count => exact Nat.zero_le _
  | word count nonempty plain uncoloned more ih =>
      simp only [room, List.length_append, spaces, List.length_replicate] at ih ⊢
      omega
  | last count text =>
      simp only [room, List.length_append, spaces, List.length_replicate, List.length_cons]
      omega

/-- A command and its arguments have the room they need. -/
theorem Command.room_le {tags : List (IrcTag Bytes)} {source text : Bytes} {msg : IrcMsg Bytes}
    (derived : Command tags source text msg)
    : msg.command.length + room msg.args ≤ text.length := by
  cases derived with
  | mk nonempty plain arguments =>
      rw [List.length_append]
      exact Nat.add_le_add_left arguments.room_le _

/-- Arguments are written in the room they need, behind one space, by induction. -/
theorem dumpArgs_room {args : List Bytes} (nonempty : args ≠ [])
    : ∃ rest, dumpArgs args = chr ' ' :: rest ∧ rest.length = room args := by
  induction args with
  | nil => exact absurd rfl nonempty
  | cons arg args ih =>
      cases args with
      | nil => exact ⟨chr ':' :: arg, rfl, rfl⟩
      | cons next args =>
          obtain ⟨rest, written, size⟩ := ih (List.cons_ne_nil _ _)
          refine ⟨arg ++ dumpArgs (next :: args), rfl, ?_⟩
          rw [List.length_append, written, List.length_cons, size]
          simp only [room]
          omega

/-- Behind the spaces the written arguments have no more room than they need. -/
theorem dropLeading_dumpArgs_length (args : List Bytes)
    : (dropLeading (chr ' ') (dumpArgs args)).length ≤ room args := by
  cases args with
  | nil => exact Nat.le_refl 0
  | cons arg args =>
      obtain ⟨rest, written, size⟩ := dumpArgs_room (List.cons_ne_nil arg args)
      have gone : dropLeading (chr ' ') (chr ' ' :: rest) = dropLeading (chr ' ') rest := by
        simp [dropLeading]
      rw [written, gone, ← size]
      exact (dropLeading_suffix (chr ' ') rest).length_le

/-- A command that looks like a source leaves no room for itself. -/
theorem sourcedOf_dump_colon {msg other : IrcMsg Bytes} {tags : List (IrcTag Bytes)}
    (wellFormed : WellFormed msg)
    (colon : (dumpCommand (pushCommand msg.command)).head? = some (chr ':'))
    (reads : sourcedOf tags (dumpCommand (pushCommand msg.command) ++ dumpArgs msg.args)
      = .ok other)
    : ¬ (pushCommand other.command = pushCommand msg.command ∧ other.args = msg.args) := by
  rintro ⟨sameCommand, sameArgs⟩
  obtain ⟨kept, starts⟩ := dumpCommand_head rfl (by decide) colon
  obtain ⟨word, command⟩ := List.head?_eq_some_iff.mp starts
  have plain : chr ' ' ∉ word := by
    intro space
    exact wellFormed.command.1 (command ▸ List.mem_cons_of_mem _ space)
  have same : other.command = chr ':' :: word := by
    rw [kept] at sameCommand
    exact (eq_of_pushCommand sameCommand).trans command
  rw [kept, dumpCommand, command, List.cons_append] at reads
  simp only [sourcedOf, List.head?_cons, if_true, List.tail_cons, nextWord,
    onwards_append_boundary plain wellFormed.args.1.boundary] at reads
  have needed := (commandOf_eq_ok_iff.mp reads).room_le
  rw [same, sameArgs, List.length_cons] at needed
  have given := dropLeading_dumpArgs_length msg.args
  omega

/-- The tags of a message are those read in front of it, by cases on the derivation. -/
theorem Sourced.tags_eq {tags : List (IrcTag Bytes)} {text : Bytes} {msg : IrcMsg Bytes}
    (derived : Sourced tags text msg)
    : msg.tags = tags := by
  cases derived with
  | bare uncoloned command =>
      cases command with
      | mk nonempty plain arguments => rfl
  | sourced plain count command =>
      cases command with
      | mk nonempty plain arguments => rfl

/-- A command that looks like tags is read as some. -/
theorem messageOf_at {msg : IrcMsg Bytes} {text : Bytes} (at_sign : text.head? = some (chr '@'))
    (reads : messageOf text = .ok msg)
    : msg.tags ≠ [] := by
  obtain ⟨rest, rfl⟩ := List.head?_eq_some_iff.mp at_sign
  rw [messageOf, dropLeading_of_head_ne (by rw [List.head?_cons]; decide)] at reads
  simp only [List.head?_cons, if_true, List.tail_cons] at reads
  cases list : tagsOf (before (chr ' ') rest) with
  | error code => simp [list, bind, Except.bind] at reads
  | ok tags =>
      simp only [list, bind, Except.bind] at reads
      have tagList : TagList _ tags := tagsOf_eq_ok_iff.mp list
      have sameTags := (sourcedOf_eq_ok_iff.mp reads).tags_eq
      intro noTags
      rw [← sameTags, noTags] at tagList
      exact List.splitOn_ne_nil _ _ (List.forall₂_nil_right_iff.mp tagList)

-----------------------------------------------------------------------------------------
-- Messages that are read back
-----------------------------------------------------------------------------------------

/-- What is written for a message has no NUL. -/
theorem dumpText_clean {msg : IrcMsg Bytes} {entries : List (Bytes × Bytes)}
    (wellFormed : WellFormed msg) (keys : ∀ entry ∈ entries, PlainKey entry.1 ∧ 0 ∉ entry.2)
    : 0 ∉ dumpText (pushIrcMsg msg) entries := by
  have tags : 0 ∉ dumpTags entries := by
    cases entries with
    | nil => exact List.not_mem_nil
    | cons first others =>
        have plain := dumpEntries_plain keys (Or.inr rfl)
        rw [dumpTags, ← List.append_assoc, List.mem_cons, List.mem_append]
        exact not_or.mpr ⟨by decide, not_or.mpr ⟨plain, by decide⟩⟩
  have source : 0 ∉ dumpSource (pushIrcMsg msg).source := by
    simp only [pushIrcMsg, dumpSource]
    split
    · next source kept =>
      split_ifs at kept
      cases kept
      split
      · rw [List.mem_cons, List.mem_append]
        exact not_or.mpr ⟨by decide, not_or.mpr ⟨wellFormed.source.2, by decide⟩⟩
      · exact List.not_mem_nil
    · exact List.not_mem_nil
  obtain ⟨_, _, command⟩ := dumpCommand_word wellFormed
  simp only [dumpText, List.mem_append, not_or]
  exact ⟨tags, source, command, wellFormed.args.2⟩

/-- Reading a text back means that the reference reads it. -/
theorem readBack_eq_ok_iff {mem : CMemory} {start : Nat} {line : Bytes}
    (here : CString mem start line) (msg : IrcMsg Bytes)
    : readBack (parseIrcMessage mem start) = some (.ok msg) ↔ messageOf line = .ok msg := by
  rw [(parseIrcMessage_refines here).readBack_eq, Option.some.injEq]

/-- What is kept of a message whose text is read back is kept of the message that is read. -/
theorem pushIrcMsg_eq_iff {msg : IrcMsg Bytes} {entries : List (Bytes × Bytes)}
    (visits : Visits (pushIrcMsg msg).tags entries)
    : pushIrcMsg {
          tags := entries.map dumpedTag
          source := msg.source
          command := dumpCommand (pushCommand msg.command)
          args := msg.args
        } = pushIrcMsg msg
      ↔ ∀ key val, (pushIrcMsg msg).tags key = some val → chr '\\' ∉ val := by
  rw [← pushTags_dumped_iff visits]
  simp only [pushIrcMsg, Pushed.mk.injEq, pushCommand_dumpCommand, and_true]

/-- The entries of a kept table have plain keys. -/
theorem Visits.plain {msg : IrcMsg Bytes} {entries : List (Bytes × Bytes)}
    (visits : Visits (pushIrcMsg msg).tags entries) (wellFormed : WellFormed msg)
    : ∀ entry ∈ entries, PlainKey entry.1 ∧ 0 ∉ entry.2 := by
  intro entry isIn
  exact wellFormed.keys _ (mem_of_pushTags ((visits.all entry.1 entry.2).mp isIn))

/-- A kept message has no source exactly when the message has an empty one. -/
theorem pushIrcMsg_source_eq_none {msg : IrcMsg Bytes}
    : (pushIrcMsg msg).source = none ↔ msg.source = [] := by
  simp [pushIrcMsg]

/-- A name that is kept starts as the command that is written. -/
theorem head_ne_of_named {msg : IrcMsg Bytes} {c : Byte} (notDigit : isNumeral c = false)
    (notSign : c ≠ chr '-')
    : (dumpCommand (pushCommand msg.command)).head? ≠ some c
      ↔ ∀ text, (pushIrcMsg msg).command = .name text → text.head? ≠ some c := by
  constructor
  · intro other text named starts
    rw [show pushCommand msg.command = .name text from named] at other
    exact other starts
  · intro others starts
    obtain ⟨named, here⟩ := dumpCommand_head notDigit notSign starts
    exact others msg.command named here

/-- A message that meets the conditions is read back from its line. -/
theorem readsBack_of_dumpable {msg : IrcMsg Bytes} {entries : List (Bytes × Bytes)}
    (wellFormed : WellFormed msg) (visits : Visits (pushIrcMsg msg).tags entries)
    (dumpable : Dumpable (pushIrcMsg msg))
    : ReadsBack (pushIrcMsg msg) entries := by
  have keys := visits.plain wellFormed
  have received : msg.source ≠ lit ">>>" := by
    intro own
    refine dumpable.received ?_
    rw [pushIrcMsg, own]
    rfl
  have read := messageOf_dumpText wellFormed keys received
    (fun sourceless => (head_ne_of_named rfl (by decide)).mpr
      (dumpable.notSource (pushIrcMsg_source_eq_none.mpr sourceless)))
    (fun sourceless noEntries => (head_ne_of_named rfl (by decide)).mpr
      (dumpable.notTags (pushIrcMsg_source_eq_none.mpr sourceless)
        (visits.eq_nil_iff.mp noEntries)))
  refine ⟨dumpText (pushIrcMsg msg) entries, ?_, dumpText_clean wellFormed keys, ?_⟩
  · rw [dumpLine, if_neg dumpable.received]
  · intro mem start here
    exact ⟨_, (readBack_eq_ok_iff here _).mpr read,
      (pushIrcMsg_eq_iff visits).mpr dumpable.values⟩

/-- A message that is read back from its line meets the conditions.
Witness: the line of the client's own messages has another mark; a command that looks like a
source or like tags is taken for one; and the tags that are read are the unescaped ones.
-/
theorem dumpable_of_readsBack {msg : IrcMsg Bytes} {entries : List (Bytes × Bytes)}
    (wellFormed : WellFormed msg) (visits : Visits (pushIrcMsg msg).tags entries)
    (readsBack : ReadsBack (pushIrcMsg msg) entries)
    : Dumpable (pushIrcMsg msg) := by
  obtain ⟨text, written, clean, reads⟩ := readsBack
  have keys := visits.plain wellFormed
  have received : (pushIrcMsg msg).source ≠ some (lit ">>>") := by
    intro own
    rw [dumpLine, if_pos own] at written
    cases written
  have notOwn : msg.source ≠ lit ">>>" := by
    intro own
    refine received ?_
    rw [pushIrcMsg, own]
    rfl
  rw [dumpLine, if_neg received, List.append_cancel_left_eq, List.append_cancel_right_eq]
    at written
  subst written
  have here : CString (dumpText (pushIrcMsg msg) entries ++ [0]) 0
      (dumpText (pushIrcMsg msg) entries) := by
    refine ⟨?_, clean⟩
    rw [View.read, List.drop_zero]
    exact List.take_of_length_le (by rw [List.length_append, List.length_singleton])
  obtain ⟨other, parsed, same⟩ := reads _ 0 here
  have read := (readBack_eq_ok_iff here other).mp parsed
  have notSource : msg.source = []
      → (dumpCommand (pushCommand msg.command)).head? ≠ some (chr ':') := by
    intro sourceless colon
    have rest := dumpRest_sourceless sourceless
    have starts : (dumpRest msg).head? = some (chr ':') := by
      rw [rest, head_append_of_ne_nil (dumpCommand_word wellFormed).1, colon]
    have noSpace : (dumpRest msg).head? ≠ some (chr ' ') := starts ▸ by decide
    have untagged : entries = [] → (dumpRest msg).head? ≠ some (chr '@') :=
      fun _ => starts ▸ by decide
    have tagged := messageOf_dumpTags keys noSpace untagged
    rw [rest] at tagged
    refine sourcedOf_dump_colon wellFormed colon (tagged.symm.trans ?_)
      ⟨congrArg Pushed.command same, congrArg Pushed.args same⟩
    rw [← rest]
    exact read
  have notTags : msg.source = [] → entries = []
      → (dumpCommand (pushCommand msg.command)).head? ≠ some (chr '@') := by
    intro sourceless noEntries at_sign
    have starts : (dumpText (pushIrcMsg msg) entries).head? = some (chr '@') := by
      rw [noEntries]
      change (dumpRest msg).head? = _
      rw [dumpRest_sourceless sourceless,
        head_append_of_ne_nil (dumpCommand_word wellFormed).1, at_sign]
    obtain ⟨key, val, found⟩ := pushTags_nonempty (messageOf_at starts read)
    have there : (pushIrcMsg msg).tags key = some val := by
      rw [← same]
      exact found
    rw [visits.eq_nil_iff.mp noEntries key] at there
    cases there
  have whole := Except.ok.inj
    (read.symm.trans (messageOf_dumpText wellFormed keys notOwn notSource notTags))
  exact {
    values := (pushIrcMsg_eq_iff visits).mp (whole ▸ same)
    received
    notSource := fun sourceless => (head_ne_of_named rfl (by decide)).mp
      (notSource (pushIrcMsg_source_eq_none.mp sourceless))
    notTags := fun sourceless noTags => (head_ne_of_named rfl (by decide)).mp
      (notTags (pushIrcMsg_source_eq_none.mp sourceless) (visits.eq_nil_iff.mpr noTags))
  }

/-- Whatever message was parsed and kept, in whatever order its tags are written: the text that
is written for it behind the mark is parsed to a message that is kept as the same table exactly
when the message meets the conditions.
-/
theorem readsBack_iff {mem : CMemory} {start : Nat} {line : Bytes} {msg : IrcMsg Bytes}
    {entries : List (Bytes × Bytes)} (here : CString mem start line)
    (parsed : readBack (parseIrcMessage mem start) = some (.ok msg))
    (visits : Visits (pushIrcMsg msg).tags entries)
    : ReadsBack (pushIrcMsg msg) entries ↔ Dumpable (pushIrcMsg msg) := by
  have derived := messageOf_eq_ok_iff.mp ((readBack_eq_ok_iff here msg).mp parsed)
  have wellFormed := derived.wellFormed here.2
  exact ⟨dumpable_of_readsBack wellFormed visits, readsBack_of_dumpable wellFormed visits⟩

/-- The numeric reply `@k=a\\sb :server 005 me :are supported` is read back. -/
theorem readsBack_iff_witness
    : ReadsBack
        (pushIrcMsg {
          tags := [{ key := lit "k", val := lit "a b" }]
          source := lit "server"
          command := lit "005"
          args := [lit "me", lit "are supported"]
        })
        [(lit "k", lit "a b")] := by
  have here : CString (lit "@k=a\\sb :server 005 me :are supported" ++ [0]) 0
      (lit "@k=a\\sb :server 005 me :are supported") := by
    decide
  have values : ∀ key val, pushTags [{ key := lit "k", val := lit "a b" }] key = some val
      → chr '\\' ∉ val := by
    intro key val found
    cases List.mem_singleton.mp (mem_of_pushTags found)
    decide
  exact (readsBack_iff here rfl (visits_single (lit "k") (lit "a b"))).mpr
    ⟨values, by decide, by rintro ⟨⟩, by rintro ⟨⟩⟩

/-- In the message `@k=\\\\ PING` the value of a tag is one backslash: it is parsed and kept, but
its line is not read back.
-/
theorem backslash_not_readBack
    : ∃ mem start line msg entries,
        CString mem start line
        ∧ readBack (parseIrcMessage mem start) = some (.ok msg)
        ∧ Visits (pushIrcMsg msg).tags entries
        ∧ ¬ ReadsBack (pushIrcMsg msg) entries := by
  have here : CString (lit "@k=\\\\ PING" ++ [0]) 0 (lit "@k=\\\\ PING") := by decide
  have parsed : readBack (parseIrcMessage (lit "@k=\\\\ PING" ++ [0]) 0)
      = some (.ok {
          tags := [{ key := lit "k", val := lit "\\" }]
          source := []
          command := lit "PING"
          args := []
        }) := rfl
  have visits := visits_single (lit "k") (lit "\\")
  refine ⟨_, 0, _, _, [(lit "k", lit "\\")], here, parsed, visits, fun readsBack => ?_⟩
  have derived := messageOf_eq_ok_iff.mp ((readBack_eq_ok_iff here _).mp parsed)
  have dumpable := dumpable_of_readsBack (derived.wellFormed here.2) visits readsBack
  exact dumpable.values (lit "k") (lit "\\") rfl (by decide)

end Snowcone.IrcParsing
