import Mathlib.Data.List.Forall2
import Snowcone.IrcParsing.Reference

/-! The grammar of IRC messages, and that the reference parser accepts exactly it.
A text is derived from its parts in the order they stand in it; the texts without a
derivation are divided between the two errors.
-/

namespace Snowcone.IrcParsing

open Bytes

/-- A run of spaces. -/
def spaces (count : Nat) : Bytes := List.replicate count (chr ' ')

/-- What may stand directly behind a word: nothing, or a space and more. -/
def Boundary (rest : Bytes) : Prop := rest = [] ∨ rest.head? = some (chr ' ')

/-- One entry of a tag list: a non-empty key, alone or with an escaped value. -/
inductive TagEntry : Bytes → IrcTag Bytes → Prop
  | bare {key} (nonempty : key ≠ []) (plain : chr '=' ∉ key)
    : TagEntry key { key, val := [] }
  | valued {key} (nonempty : key ≠ []) (plain : chr '=' ∉ key) (val : Bytes)
    : TagEntry (key ++ chr '=' :: val) { key, val := unescape val }

/-- A tag list: entries separated by semicolons. -/
def TagList (list : Bytes) (tags : List (IrcTag Bytes)) : Prop :=
  List.Forall₂ TagEntry (list.splitOn (chr ';')) tags

/-- What may follow a command: words, and perhaps a last argument behind a colon that
may hold anything.
-/
inductive Arguments : Bytes → List Bytes → Prop
  | done (count : Nat) : Arguments (spaces count) []
  | word (count : Nat) {word rest args} (nonempty : word ≠ []) (plain : chr ' ' ∉ word)
    (uncoloned : word.head? ≠ some (chr ':')) (more : Arguments rest args)
    : Arguments (spaces (count + 1) ++ (word ++ rest)) (word :: args)
  | last (count : Nat) (text : Bytes)
    : Arguments (spaces (count + 1) ++ chr ':' :: text) [text]

/-- A non-empty command word and its arguments. -/
inductive Command (tags : List (IrcTag Bytes)) (source : Bytes)
    : Bytes → IrcMsg Bytes → Prop
  | mk {command rest args} (nonempty : command ≠ []) (plain : chr ' ' ∉ command)
    (arguments : Arguments rest args)
    : Command tags source (command ++ rest) { tags, source, command, args }

/-- An optional source word behind a colon, and a command. -/
inductive Sourced (tags : List (IrcTag Bytes)) : Bytes → IrcMsg Bytes → Prop
  | bare {text msg} (uncoloned : text.head? ≠ some (chr ':'))
    (command : Command tags [] text msg)
    : Sourced tags text msg
  | sourced {source text msg} (plain : chr ' ' ∉ source) (count : Nat)
    (command : Command tags source text msg)
    : Sourced tags (chr ':' :: (source ++ (spaces (count + 1) ++ text))) msg

/-- Spaces, an optional tag list behind an at sign, and what follows it. -/
inductive Message : Bytes → IrcMsg Bytes → Prop
  | bare (lead : Nat) {text msg} (untagged : text.head? ≠ some (chr '@'))
    (sourced : Sourced [] text msg)
    : Message (spaces lead ++ text) msg
  | tagged (lead count : Nat) {list tags text msg} (plain : chr ' ' ∉ list)
    (tagList : TagList list tags) (sourced : Sourced tags text msg)
    : Message (spaces lead ++ chr '@' :: (list ++ (spaces (count + 1) ++ text))) msg

/-- Spaces and an at sign, then a word with an entry that has no key. -/
def BadTags (line : Bytes) : Prop :=
  ∃ lead list rest,
    line = spaces lead ++ chr '@' :: (list ++ rest)
    ∧ chr ' ' ∉ list
    ∧ Boundary rest
    ∧ ∃ entry ∈ list.splitOn (chr ';'), before (chr '=') entry = []

-----------------------------------------------------------------------------------------
-- Words and spaces
-----------------------------------------------------------------------------------------

/-- A word ends at a boundary. -/
theorem before_append_boundary {word rest : Bytes} (plain : chr ' ' ∉ word)
    (boundary : Boundary rest)
    : before (chr ' ') (word ++ rest) = word := by
  rcases boundary with rfl | starts
  · rw [List.append_nil, before_of_not_mem plain]
  · obtain ⟨tail, rfl⟩ := List.head?_eq_some_iff.mp starts
    exact before_append_cons plain tail

/-- Behind a word stands its boundary. -/
theorem onwards_append_boundary {word rest : Bytes} (plain : chr ' ' ∉ word)
    (boundary : Boundary rest)
    : onwards (chr ' ') (word ++ rest) = rest := by
  rcases boundary with rfl | starts
  · rw [List.append_nil, onwards_of_not_mem plain]
  · obtain ⟨tail, rfl⟩ := List.head?_eq_some_iff.mp starts
    exact onwards_append_cons plain tail

/-- What is left behind the first word is a boundary. -/
theorem boundary_onwards (text : Bytes) : Boundary (onwards (chr ' ') text) := by
  rcases onwards_cases (chr ' ') text with ⟨last, _⟩ | ⟨tail, more, _⟩
  · exact Or.inl last
  · exact Or.inr (by rw [more]; rfl)

/-- A run of spaces in front of anything is a boundary. -/
theorem boundary_spaces (count : Nat) (rest : Bytes)
    : Boundary (spaces (count + 1) ++ rest) :=
  Or.inr rfl

/-- Spaces alone are a boundary. -/
theorem boundary_only_spaces (count : Nat) : Boundary (spaces count) := by
  cases count with
  | zero => exact Or.inl rfl
  | succ count => exact Or.inr rfl

/-- Spaces in front of a text that does not start with one are dropped. -/
theorem dropLeading_spaces (count : Nat) {text : Bytes}
    (starts : text.head? ≠ some (chr ' '))
    : dropLeading (chr ' ') (spaces count ++ text) = text := by
  rw [spaces, dropLeading_replicate_append, dropLeading_of_head_ne starts]

/-- A word, spaces and a text that does not start with one: the text is next. -/
theorem nextWord_append {word : Bytes} (plain : chr ' ' ∉ word) (count : Nat)
    {text : Bytes} (starts : text.head? ≠ some (chr ' '))
    : nextWord (word ++ (spaces (count + 1) ++ text)) = text := by
  rw [nextWord, onwards_append_boundary plain (boundary_spaces count text),
    dropLeading_spaces _ starts]

/-- A text is its first word, spaces and the text behind them, if there is one. -/
theorem split_nextWord {text : Bytes} (more : nextWord text ≠ [])
    : ∃ count, text = before (chr ' ') text ++ (spaces (count + 1) ++ nextWord text) := by
  obtain ⟨count, split⟩ :=
    eq_replicate_append_dropLeading (chr ' ') (onwards (chr ' ') text)
  have starts := dropLeading_head_ne (chr ' ') (onwards (chr ' ') text)
  have whole := before_append_onwards (chr ' ') text
  cases count with
  | zero =>
      rw [List.replicate_zero, List.nil_append] at split
      rw [← split] at starts
      rcases boundary_onwards text with last | space
      · exact absurd (by simp [nextWord, last, dropLeading]) more
      · exact absurd space starts
  | succ count => exact ⟨count, (split ▸ whole).symm⟩

/-- A non-empty word keeps its own first byte in front of anything. -/
theorem head_append_of_ne_nil {word : Bytes} (nonempty : word ≠ []) (rest : Bytes)
    : (word ++ rest).head? = word.head? := by
  cases word with
  | nil => exact absurd rfl nonempty
  | cons _ _ => rfl

/-- A word does not start with a space. -/
theorem head_ne_space {word : Bytes} (plain : chr ' ' ∉ word)
    : word.head? ≠ some (chr ' ') := by
  intro starts
  exact plain (List.mem_of_head? starts)

-----------------------------------------------------------------------------------------
-- Tags
-----------------------------------------------------------------------------------------

/-- The reference reads an entry as the grammar derives it. -/
theorem tagOf_eq_ok_iff {entry : Bytes} {tag : IrcTag Bytes}
    : tagOf entry = .ok tag ↔ TagEntry entry tag := by
  constructor
  · intro reads
    simp only [tagOf] at reads
    split at reads
    · cases reads
    · next nonempty =>
      obtain rfl := Except.ok.inj reads
      rcases onwards_cases (chr '=') entry with ⟨last, absent⟩ | ⟨val, more, split⟩
      · rw [before_of_not_mem absent] at nonempty ⊢
        rw [last]
        exact .bare nonempty absent
      · have derived := TagEntry.valued nonempty (not_mem_before (chr '=') entry) val
        rw [more]
        rwa [← split] at derived
  · intro derived
    cases derived with
    | bare nonempty plain =>
        simp only [tagOf, before_of_not_mem plain, onwards_of_not_mem plain, nonempty,
          if_false]
        rfl
    | valued nonempty plain val =>
        simp only [tagOf, before_append_cons plain, onwards_append_cons plain, nonempty,
          if_false, List.tail_cons]

/-- An entry is rejected exactly when it has no key. -/
theorem tagOf_eq_error_iff {entry : Bytes} {code : IrcErrorCode}
    : tagOf entry = .error code ↔ code = .missingTag ∧ before (chr '=') entry = [] := by
  simp only [tagOf]
  split
  · next empty => simp [empty, eq_comm]
  · next nonempty => simp [nonempty]

/-- Collecting results succeeds exactly when every element does. -/
theorem mapM_eq_ok_iff {α β ε : Type} {f : α → Except ε β} {list : List α}
    {values : List β}
    : list.mapM f = .ok values ↔ List.Forall₂ (fun a b => f a = .ok b) list values := by
  induction list generalizing values with
  | nil => simp [pure, Except.pure, eq_comm]
  | cons head tail ih =>
      simp only [List.mapM_cons, List.forall₂_cons_left_iff, ← ih]
      cases f head with
      | error code => simp [bind, Except.bind]
      | ok value =>
          cases tail.mapM f with
          | error code => simp [bind, Except.bind]
          | ok rest => simp [bind, Except.bind, pure, Except.pure, eq_comm]

/-- Collecting results fails with an error of one of the elements. -/
theorem mapM_eq_error {α β ε : Type} {f : α → Except ε β} {list : List α} {code : ε}
    (fails : list.mapM f = .error code)
    : ∃ a ∈ list, f a = .error code := by
  induction list with
  | nil => simp [pure, Except.pure] at fails
  | cons head tail ih =>
      rw [List.mapM_cons] at fails
      cases first : f head with
      | error other =>
          simp only [first, bind, Except.bind, Except.error.injEq] at fails
          exact ⟨head, by simp, fails ▸ first⟩
      | ok value =>
          cases others : tail.mapM f with
          | error other =>
              simp only [first, others, bind, Except.bind, Except.error.injEq] at fails
              obtain ⟨a, member, same⟩ := ih (fails ▸ others)
              exact ⟨a, List.mem_cons_of_mem head member, same⟩
          | ok rest => simp [first, others, bind, Except.bind, pure, Except.pure] at fails

/-- The reference reads a tag list as the grammar derives it. -/
theorem tagsOf_eq_ok_iff {list : Bytes} {tags : List (IrcTag Bytes)}
    : tagsOf list = .ok tags ↔ TagList list tags := by
  simp only [tagsOf, TagList, mapM_eq_ok_iff, tagOf_eq_ok_iff]

/-- A tag list is rejected exactly when one of its entries has no key. -/
theorem tagsOf_eq_error_iff {list : Bytes} {code : IrcErrorCode}
    : tagsOf list = .error code
      ↔ code = .missingTag
        ∧ ∃ entry ∈ list.splitOn (chr ';'), before (chr '=') entry = [] := by
  constructor
  · intro fails
    obtain ⟨entry, member, rejected⟩ := mapM_eq_error fails
    obtain ⟨rfl, empty⟩ := tagOf_eq_error_iff.mp rejected
    exact ⟨rfl, entry, member, empty⟩
  · rintro ⟨rfl, entry, member, empty⟩
    cases reads : tagsOf list with
    | error other =>
        obtain ⟨_, _, rejected⟩ := mapM_eq_error reads
        rw [(tagOf_eq_error_iff.mp rejected).1]
    | ok tags =>
        have each : ∀ entry tag, tagOf entry = .ok tag → before (chr '=') entry ≠ []
            ∧ tagOf entry = .ok tag := by
          intro entry tag accepted
          refine ⟨fun empty => ?_, accepted⟩
          rw [tagOf_eq_error_iff.mpr ⟨rfl, empty⟩] at accepted
          cases accepted
        have keyed := ((List.forall₂_and_left _ _).mp
          ((mapM_eq_ok_iff.mp reads).imp each)).1
        exact absurd empty (keyed entry member)

-----------------------------------------------------------------------------------------
-- Arguments
-----------------------------------------------------------------------------------------

/-- Arguments only follow a word at a boundary. -/
theorem Arguments.boundary {rest : Bytes} {args : List Bytes} (derived : Arguments rest args)
    : Boundary rest := by
  cases derived with
  | done count => exact boundary_only_spaces count
  | word count => exact boundary_spaces count _
  | last count text => exact boundary_spaces count _

/-- The reference reads the arguments that are derived, by induction on the derivation. -/
theorem Arguments.argsOf_eq {rest : Bytes} {args : List Bytes}
    (derived : Arguments rest args)
    : argsOf (dropLeading (chr ' ') rest) = args := by
  induction derived with
  | done count =>
      have gone : dropLeading (chr ' ') (spaces count ++ []) = [] :=
        dropLeading_spaces count (by simp)
      rw [List.append_nil] at gone
      rw [gone, argsOf_nil]
  | @word count word rest args nonempty plain uncoloned more ih =>
      have starts := head_append_of_ne_nil nonempty rest
      have longer : word ++ rest ≠ [] := by simp [nonempty]
      rw [dropLeading_spaces _ (starts ▸ head_ne_space plain),
        argsOf_word longer (starts ▸ uncoloned),
        before_append_boundary plain more.boundary, nextWord,
        onwards_append_boundary plain more.boundary, ih]
  | last count text =>
      rw [dropLeading_spaces _ (by simp; decide), argsOf_colon]

/-- At a boundary the arguments the reference reads are derived.
Witness: strong induction on the length; spaces, then nothing, a colon or a word.
-/
theorem arguments_of_boundary (rest : Bytes) (boundary : Boundary rest)
    : Arguments rest (argsOf (dropLeading (chr ' ') rest)) := by
  induction size : rest.length using Nat.strong_induction_on generalizing rest with
  | _ size ih =>
      obtain ⟨count, split⟩ := eq_replicate_append_dropLeading (chr ' ') rest
      have starts := dropLeading_head_ne (chr ' ') rest
      generalize dropLeading (chr ' ') rest = text at split starts ⊢
      subst split
      by_cases empty : text = []
      · subst empty
        rw [List.append_nil, argsOf_nil]
        exact .done count
      obtain ⟨count, rfl⟩ : ∃ less, count = less + 1 := by
        cases count with
        | zero =>
            rcases boundary with nothing | space
            · exact absurd (by simpa using nothing) empty
            · exact absurd (by simpa using space) starts
        | succ less => exact ⟨less, rfl⟩
      by_cases colon : text.head? = some (chr ':')
      · obtain ⟨last, rfl⟩ := List.head?_eq_some_iff.mp colon
        rw [argsOf_colon]
        exact .last count last
      · rw [argsOf_word empty colon]
        have plain := not_mem_before (chr ' ') text
        have whole := before_append_onwards (chr ' ') text
        have nonempty : before (chr ' ') text ≠ [] := by
          intro nothing
          rcases onwards_cases (chr ' ') text with ⟨last, _⟩ | ⟨tail, _, split⟩
          · exact empty (by rw [← whole, nothing, last, List.append_nil])
          · exact starts (by rw [split, nothing]; rfl)
        have lengths := congrArg List.length whole
        have positive := List.length_pos_iff.mpr nonempty
        simp only [List.length_append, List.length_replicate] at lengths size
        have more := ih (onwards (chr ' ') text).length (by omega) _
          (boundary_onwards text) rfl
        have derived := Arguments.word count nonempty plain ?_ more
        · rwa [whole] at derived
        · rw [← head_append_of_ne_nil nonempty (onwards (chr ' ') text), whole]
          exact colon

-----------------------------------------------------------------------------------------
-- Messages
-----------------------------------------------------------------------------------------

/-- The reference reads a command as the grammar derives it. -/
theorem commandOf_eq_ok_iff {tags : List (IrcTag Bytes)} {source text : Bytes}
    {msg : IrcMsg Bytes}
    : commandOf tags source text = .ok msg ↔ Command tags source text msg := by
  constructor
  · intro reads
    simp only [commandOf] at reads
    split at reads
    · cases reads
    · next nonempty =>
      obtain rfl := Except.ok.inj reads
      have derived : Command tags source (before (chr ' ') text ++ onwards (chr ' ') text) _ :=
        .mk nonempty (not_mem_before _ _) (arguments_of_boundary _ (boundary_onwards text))
      rwa [before_append_onwards] at derived
  · intro derived
    cases derived with
    | mk nonempty plain arguments =>
        simp only [commandOf, before_append_boundary plain arguments.boundary, nonempty,
          if_false, nextWord, onwards_append_boundary plain arguments.boundary,
          arguments.argsOf_eq]

/-- The only error behind the tags is a missing command. -/
theorem commandOf_eq_error {tags : List (IrcTag Bytes)} {source text : Bytes}
    {code : IrcErrorCode} (fails : commandOf tags source text = .error code)
    : code = .missingCommand := by
  simp only [commandOf] at fails
  split at fails
  · exact (Except.error.inj fails).symm
  · cases fails

/-- A command does not start with a space. -/
theorem Command.head_ne_space {tags : List (IrcTag Bytes)} {source text : Bytes}
    {msg : IrcMsg Bytes} (derived : Command tags source text msg)
    : text.head? ≠ some (chr ' ') := by
  cases derived with
  | mk nonempty plain _ =>
      rw [head_append_of_ne_nil nonempty]
      exact IrcParsing.head_ne_space plain

/-- A command is not empty. -/
theorem Command.ne_nil {tags : List (IrcTag Bytes)} {source text : Bytes}
    {msg : IrcMsg Bytes} (derived : Command tags source text msg)
    : text ≠ [] := by
  cases derived with
  | mk nonempty plain _ => simp [nonempty]

/-- The reference reads what follows the tags as the grammar derives it. -/
theorem sourcedOf_eq_ok_iff {tags : List (IrcTag Bytes)} {text : Bytes} {msg : IrcMsg Bytes}
    : sourcedOf tags text = .ok msg ↔ Sourced tags text msg := by
  constructor
  · intro reads
    simp only [sourcedOf] at reads
    split at reads
    · next colon =>
      obtain ⟨rest, rfl⟩ := List.head?_eq_some_iff.mp colon
      have command := commandOf_eq_ok_iff.mp reads
      obtain ⟨count, split⟩ := split_nextWord command.ne_nil
      have derived := Sourced.sourced (not_mem_before _ _) count command
      simp only [List.tail_cons] at derived split
      rwa [← split] at derived
    · next uncoloned => exact .bare uncoloned (commandOf_eq_ok_iff.mp reads)
  · intro derived
    cases derived with
    | bare uncoloned command =>
        simp only [sourcedOf, uncoloned, if_false]
        exact commandOf_eq_ok_iff.mpr command
    | sourced plain count command =>
        simp only [sourcedOf, List.head?_cons, if_true, List.tail_cons,
          before_append_boundary plain (boundary_spaces count _),
          nextWord_append plain count command.head_ne_space]
        exact commandOf_eq_ok_iff.mpr command

/-- The only error behind the tags is a missing command, with or without a source. -/
theorem sourcedOf_eq_error {tags : List (IrcTag Bytes)} {text : Bytes}
    {code : IrcErrorCode} (fails : sourcedOf tags text = .error code)
    : code = .missingCommand := by
  simp only [sourcedOf] at fails
  split at fails <;> exact commandOf_eq_error fails

/-- What follows the tags does not start with a space. -/
theorem Sourced.head_ne_space {tags : List (IrcTag Bytes)} {text : Bytes}
    {msg : IrcMsg Bytes} (derived : Sourced tags text msg)
    : text.head? ≠ some (chr ' ') := by
  cases derived with
  | bare uncoloned command => exact command.head_ne_space
  | sourced plain count command => simp only [List.head?_cons]; decide

/-- What follows the tags is not empty. -/
theorem Sourced.ne_nil {tags : List (IrcTag Bytes)} {text : Bytes} {msg : IrcMsg Bytes}
    (derived : Sourced tags text msg)
    : text ≠ [] := by
  cases derived with
  | bare uncoloned command => exact command.ne_nil
  | sourced plain count command => exact List.cons_ne_nil _ _

/-- The reference reads a message as the grammar derives it. -/
theorem messageOf_eq_ok_iff {line : Bytes} {msg : IrcMsg Bytes}
    : messageOf line = .ok msg ↔ Message line msg := by
  constructor
  · intro reads
    obtain ⟨lead, split⟩ := eq_replicate_append_dropLeading (chr ' ') line
    simp only [messageOf] at reads
    generalize dropLeading (chr ' ') line = text at reads split
    subst split
    split at reads
    · next tagged =>
      obtain ⟨rest, rfl⟩ := List.head?_eq_some_iff.mp tagged
      simp only [List.tail_cons] at reads
      cases list : tagsOf (before (chr ' ') rest) with
      | error code => simp [list, bind, Except.bind] at reads
      | ok tags =>
          simp only [list, bind, Except.bind] at reads
          have sourced := sourcedOf_eq_ok_iff.mp reads
          obtain ⟨count, split⟩ := split_nextWord sourced.ne_nil
          have derived := Message.tagged lead count (not_mem_before _ _)
            (tagsOf_eq_ok_iff.mp list) sourced
          rwa [← split] at derived
    · next untagged => exact .bare lead untagged (sourcedOf_eq_ok_iff.mp reads)
  · intro derived
    cases derived with
    | bare lead untagged sourced =>
        simp only [messageOf, dropLeading_spaces lead sourced.head_ne_space, untagged,
          if_false]
        exact sourcedOf_eq_ok_iff.mpr sourced
    | tagged lead count plain tagList sourced =>
        rw [messageOf, dropLeading_spaces lead (by simp only [List.head?_cons]; decide)]
        simp only [List.head?_cons, if_true, List.tail_cons,
          before_append_boundary plain (boundary_spaces count _),
          nextWord_append plain count sourced.head_ne_space,
          tagsOf_eq_ok_iff.mpr tagList]
        exact sourcedOf_eq_ok_iff.mpr sourced

/-- A message has bad tags exactly when the reference says so. -/
theorem messageOf_eq_missingTag_iff {line : Bytes}
    : messageOf line = .error .missingTag ↔ BadTags line := by
  constructor
  · intro fails
    obtain ⟨lead, split⟩ := eq_replicate_append_dropLeading (chr ' ') line
    simp only [messageOf] at fails
    generalize dropLeading (chr ' ') line = text at fails split
    subst split
    split at fails
    · next tagged =>
      obtain ⟨rest, rfl⟩ := List.head?_eq_some_iff.mp tagged
      simp only [List.tail_cons] at fails
      refine ⟨lead, before (chr ' ') rest, onwards (chr ' ') rest, ?_,
        not_mem_before _ _, boundary_onwards rest, ?_⟩
      · rw [before_append_onwards]
        rfl
      · cases list : tagsOf (before (chr ' ') rest) with
        | error code => exact (tagsOf_eq_error_iff.mp list).2
        | ok tags =>
            simp only [list, bind, Except.bind] at fails
            cases sourcedOf_eq_error fails
    · cases sourcedOf_eq_error fails
  · rintro ⟨lead, list, rest, rfl, plain, boundary, bad⟩
    rw [messageOf, dropLeading_spaces lead (by simp only [List.head?_cons]; decide)]
    simp only [List.head?_cons, if_true, List.tail_cons,
      before_append_boundary plain boundary, tagsOf_eq_error_iff.mpr ⟨rfl, bad⟩]
    rfl

end Snowcone.IrcParsing
