import Snowcone.IrcParsing.Parser

/-! What an IRC message means: a parser of byte strings that writes nothing.
The in-place parser is compared with it.
-/

namespace Snowcone.IrcParsing

open Bytes

/-- A tag value without its escapes. An escape at the end is dropped; an unknown one loses
only its backslash.
-/
def unescape : Bytes → Bytes
  | [] => []
  | [c] => if c = chr '\\' then [] else [c]
  | c :: d :: rest =>
      if c = chr '\\' then unescapeChar d :: unescape rest else c :: unescape (d :: rest)

/-- One entry of a tag list: a non-empty key, then perhaps `=` and a value. -/
def tagOf (entry : Bytes) : Except IrcErrorCode (IrcTag Bytes) :=
  if before (chr '=') entry = [] then .error .missingTag
  else .ok {
    key := before (chr '=') entry
    val := unescape (onwards (chr '=') entry).tail
  }

/-- A whole tag list, or the error of its first bad entry. -/
def tagsOf (list : Bytes) : Except IrcErrorCode (List (IrcTag Bytes)) :=
  (list.splitOn (chr ';')).mapM tagOf

/-- What follows the first word and the spaces behind it. -/
def nextWord (text : Bytes) : Bytes := dropLeading (chr ' ') (onwards (chr ' ') text)

/-- The next word starts later, whenever there is a word. -/
theorem nextWord_length_lt {text : Bytes} (nonempty : text ≠ [])
    : (nextWord text).length < text.length := by
  have shorter := (dropLeading_suffix (chr ' ') (onwards (chr ' ') text)).length_le
  rcases onwards_cases (chr ' ') text with ⟨last, _⟩ | ⟨tail, more, split⟩
  · have positive := List.length_pos_iff.mpr nonempty
    simp only [nextWord, last]
    simpa [dropLeading] using positive
  · have gone : dropLeading (chr ' ') (chr ' ' :: tail) = dropLeading (chr ' ') tail := by
      simp [dropLeading]
    have suffix := (dropLeading_suffix (chr ' ') tail).length_le
    have whole := congrArg List.length split
    simp only [List.length_append, List.length_cons] at whole
    simp only [nextWord, more, gone]
    omega

/-- The arguments: the words up to the first that starts with a colon, whose remainder,
spaces included, is the last one.
-/
def argsOf (text : Bytes) : List Bytes :=
  if _ : text = [] then []
  else if text.head? = some (chr ':') then [text.tail]
  else before (chr ' ') text :: argsOf (nextWord text)
termination_by text.length
decreasing_by exact nextWord_length_lt ‹_›

/-- The command and its arguments, given the tags and the source before them. -/
def commandOf (tags : List (IrcTag Bytes)) (source text : Bytes)
    : Except IrcErrorCode (IrcMsg Bytes) :=
  if before (chr ' ') text = [] then .error .missingCommand
  else .ok {
    tags, source
    command := before (chr ' ') text
    args := argsOf (nextWord text)
  }

/-- The source, if there is one, and what follows it. -/
def sourcedOf (tags : List (IrcTag Bytes)) (text : Bytes)
    : Except IrcErrorCode (IrcMsg Bytes) :=
  if text.head? = some (chr ':') then
    commandOf tags (before (chr ' ') text.tail) (nextWord text.tail)
  else commandOf tags [] text

/-- A whole message: the tags, if there are any, and what follows them. -/
def messageOf (line : Bytes) : Except IrcErrorCode (IrcMsg Bytes) :=
  let text := dropLeading (chr ' ') line
  if text.head? = some (chr '@') then do
    let tags ← tagsOf (before (chr ' ') text.tail)
    sourcedOf tags (nextWord text.tail)
  else sourcedOf [] text

/-- A plain character stands for itself. -/
theorem unescape_cons_plain {c : Byte} (plain : c ≠ chr '\\') (rest : Bytes)
    : unescape (c :: rest) = c :: unescape rest := by
  cases rest <;> simp [unescape, plain]

/-- Characters before the first backslash stand for themselves. -/
theorem unescape_append {head : Bytes} (plain : chr '\\' ∉ head) (rest : Bytes)
    : unescape (head ++ rest) = head ++ unescape rest := by
  induction head with
  | nil => rfl
  | cons c tail ih =>
      simp only [List.mem_cons, not_or] at plain
      rw [List.cons_append, unescape_cons_plain (Ne.symm plain.1), ih plain.2]
      rfl

/-- Unescaping never makes a value longer. -/
theorem unescape_length_le (text : Bytes) : (unescape text).length ≤ text.length := by
  fun_induction unescape text with
  | case1 => exact Nat.le_refl _
  | case2 => exact Nat.zero_le _
  | case3 => exact Nat.le_refl _
  | case4 rest d ih =>
      simp only [List.length_cons]
      omega
  | case5 c d rest _ ih =>
      simp only [List.length_cons] at ih ⊢
      omega

/-- A tag list with one entry. -/
theorem tagsOf_of_not_mem {entry : Bytes} (absent : chr ';' ∉ entry)
    : tagsOf entry = (tagOf entry).map (fun tag => [tag]) := by
  simp only [tagsOf, List.splitOn_eq_singleton absent, List.mapM_cons, List.mapM_nil]
  cases tagOf entry <;> rfl

/-- A tag list is its first entry and the list behind the separator. -/
theorem tagsOf_append {entry : Bytes} (absent : chr ';' ∉ entry) (list : Bytes)
    : tagsOf (entry ++ chr ';' :: list)
      = (tagOf entry).bind (fun tag => (tagsOf list).map (List.cons tag)) := by
  simp only [tagsOf, List.splitOn_append_cons_self_of_not_mem absent, List.mapM_cons]
  cases tagOf entry with
  | error code => rfl
  | ok tag => cases (list.splitOn (chr ';')).mapM tagOf <;> rfl

/-- Nothing left means no more arguments. -/
theorem argsOf_nil : argsOf [] = [] := by
  rw [argsOf]
  rfl

/-- A colon starts the last argument. -/
theorem argsOf_colon (text : Bytes) : argsOf (chr ':' :: text) = [text] := by
  rw [argsOf]
  simp

/-- Any other word is an argument of its own. -/
theorem argsOf_word {text : Bytes} (nonempty : text ≠ [])
    (plain : text.head? ≠ some (chr ':'))
    : argsOf text = before (chr ' ') text :: argsOf (nextWord text) := by
  rw [argsOf]
  simp [nonempty, plain]

end Snowcone.IrcParsing
