import Mathlib.Data.List.Forall2
import Snowcone.IrcParsing.Reference

/-! The in-place parser computes what the reference parser computes.
Each function writes only inside the string it is given, and the views it returns keep
showing their text while later writes stay behind them.
-/

namespace Snowcone.IrcParsing

open Bytes CMemory WhileLoop

/-- What the copying loop has left to do: the escaped rest of the value stands at the
cursor, and the copy is not ahead of it.
-/
private def Copying.Ready (s : Copying) : Prop :=
  s.write ≤ s.cursor ∧ ∃ rest, CString s.mem s.cursor rest

/-- What the copying loop achieves: the unescaped rest, written from the write position. -/
private def Copying.Done (s : Copying) (result : CMemory × Nat) : Prop :=
  ∀ rest, CString s.mem s.cursor rest →
    Frame s.write (s.cursor + rest.length) s.mem result.1
    ∧ result.2 = s.write + (unescape rest).length
    ∧ View.read ⟨s.write, (unescape rest).length⟩ result.1 = unescape rest

/-- Copying one character for the `consumed` ones it stands for leaves the rest in place.
Witness: the store is behind the cursor, and the byte stored heads the copied text.
-/
private theorem copy_step {s : Copying} (consumed : Bytes) {rest : Bytes} {byte : Byte}
    {cursor : Nat} (behind : s.write ≤ s.cursor) (nonempty : consumed ≠ [])
    (here : CString s.mem s.cursor (consumed ++ rest))
    (moved : cursor = s.cursor + consumed.length)
    (unescapes : unescape (consumed ++ rest) = byte :: unescape rest)
    : Round.Meets Copying.Ready Copying.Done (fun s => s.mem.length - (s.cursor + 1)) s
        (.again { mem := store s.mem s.write byte, cursor, write := s.write + 1 }) := by
  subst moved
  have positive : 0 < consumed.length := List.length_pos_iff.mpr nonempty
  have bound := here.end_lt
  simp only [List.length_append] at bound
  have stored := frame_store s.mem s.write byte
  have left : CString (store s.mem s.write byte) (s.cursor + consumed.length) rest :=
    stored.cString here.tail (Or.inr (by omega))
  have same := stored.1
  refine .again ⟨by simp only; omega, rest, left⟩ (by simp only; omega) ?_
  intro result done text again
  obtain rfl := here.unique again
  obtain ⟨frame, size, reads⟩ := done rest left
  dsimp only at frame size reads
  rw [List.length_append]
  refine ⟨(stored.mono (Nat.le_refl _) (by omega)).trans
    (frame.mono (by omega) (by omega)), ?_, ?_⟩
  · rw [size, unescapes, List.length_cons]
    omega
  · have kept : result.1[s.write]? = some byte :=
      (frame.2 s.write (by omega)).trans (getElem?_store (by omega) byte)
    rw [unescapes, List.length_cons, read_cons kept, reads]

/-- Every round of the copying loop copies one character, or leaves at the end.
Witness: the rest is empty, a lone backslash, an escape, or a plain character.
-/
private theorem copyRound_meets (s : Copying) (ready : s.Ready)
    : (copyRound s).Meets Copying.Ready Copying.Done
        (fun s => s.mem.length - (s.cursor + 1)) s := by
  obtain ⟨behind, rest, here⟩ := ready
  have leaves (nothing : unescape rest = []) : s.Done (s.mem, s.write) := by
    intro text again
    obtain rfl := here.unique again
    exact ⟨.refl _ _ _, by simp [nothing], by simp [nothing, View.read]⟩
  have first := here.load_eq
  cases rest with
  | nil =>
      simp only [copyRound, first]
      exact .leave (leaves rfl)
  | cons c rest =>
      have nonzero : c ≠ 0 := fun same => here.2 (by simp [same])
      have second := here.cons_tail.load_eq
      simp only [List.head?_cons, Option.getD_some] at first second
      simp only [copyRound, first, nonzero, if_false]
      by_cases escape : c = chr '\\'
      · cases rest with
        | nil =>
            simp only [escape, second, if_true]
            exact .leave (leaves (by simp [unescape, escape]))
        | cons d rest =>
            have nonzero : d ≠ 0 := fun same => here.2 (by simp [same])
            simp only [escape, second, List.head?_cons, Option.getD_some, nonzero, if_true,
              if_false]
            exact copy_step [c, d] behind (by simp) here rfl
              (by simp [unescape, escape])
      · simp only [escape, if_false]
        exact copy_step [c] behind (by simp) here rfl
          (unescape_cons_plain escape rest)

/-- Unescaping in place returns a view of the unescaped value and writes only inside it.
Witness: the text before the first backslash is not touched, the loop copies the rest.
-/
theorem unescapeTagValue_refines {mem : CMemory} {val : Nat} {text : Bytes}
    (here : CString mem val text)
    : ∃ view mem',
        unescapeTagValue mem val = some (.ok (view, mem'))
        ∧ view.Holds val (val + text.length) mem' (unescape text)
        ∧ Frame val (val + text.length) mem mem' := by
  rcases onwards_cases (chr '\\') text with ⟨_, plain⟩ | ⟨tail, _, split⟩
  · have same : unescape text = text := by
      simpa [unescape] using unescape_append plain []
    refine ⟨viewOf mem val, mem, ?_, same.symm ▸ here.holds, .refl _ _ _⟩
    simp only [unescapeTagValue, here.strchr_of_not_mem plain (by decide)]
    rfl
  · have absent := not_mem_before (chr '\\') text
    generalize before (chr '\\') text = head at split absent
    subst split
    have rest := here.tail
    have bound := here.end_lt
    obtain ⟨⟨mem', write⟩, runs, done⟩ :=
      run_total copyRound_meets mem.length
        { mem, cursor := val + head.length, write := val + head.length }
        ⟨Nat.le_refl _, _, rest⟩ (by simp only; omega)
    obtain ⟨frame, size, reads⟩ := done _ rest
    dsimp only at frame size reads
    have untouched : View.read ⟨val, head.length⟩ mem' = head :=
      (frame.read (Or.inl (Nat.le_refl _))).trans here.read
    have shorter := unescape_length_le (chr '\\' :: tail)
    refine ⟨⟨val, write - val⟩, mem', ?_, ⟨?_, Or.inr ⟨Nat.le_refl _, ?_⟩⟩, ?_⟩
    · simp only [unescapeTagValue, here.strchr_of_append absent, runs]
      rfl
    · rw [show write - val = head.length + (unescape (chr '\\' :: tail)).length by omega,
        read_add, untouched, reads, unescape_append absent]
    · simp only [List.length_append]
      omega
    · exact frame.mono (by omega) (by rw [List.length_append]; omega)

-----------------------------------------------------------------------------------------
-- Tags
-----------------------------------------------------------------------------------------

/-- A computation agrees with the reference: it throws the same error, or returns a
result that is good for the reference's value.
-/
inductive Agrees {α β : Type} (good : β → α → Prop)
    : Throws α → Except IrcErrorCode β → Prop
  | throws (code : IrcErrorCode) : Agrees good (some (.error code)) (.error code)
  | returns {value : β} {result : α} (holds : good value result)
    : Agrees good (some (.ok result)) (.ok value)

/-- Agreement may be weakened to what a caller needs. -/
theorem Agrees.imp {α β : Type} {good weaker : β → α → Prop} {result : Throws α}
    {reference : Except IrcErrorCode β} (agrees : Agrees good result reference)
    (weaken : ∀ value result, good value result → weaker value result)
    : Agrees weaker result reference := by
  cases agrees with
  | throws code => exact .throws code
  | returns holds => exact .returns (weaken _ _ holds)

/-- The views of a tag show its key and its value, inside `[lo, hi)`. -/
def IrcTag.Holds (lo hi : Nat) (mem : CMemory) (views : IrcTag View) (tag : IrcTag Bytes)
    : Prop :=
  views.key.Holds lo hi mem tag.key ∧ views.val.Holds lo hi mem tag.val

/-- Tag views keep showing their tags while writes stay outside their range. -/
theorem tags_frame {lo hi lo' hi' a b : Nat} {mem mem' : CMemory}
    {views : List (IrcTag View)} {tags : List (IrcTag Bytes)}
    (holds : List.Forall₂ (IrcTag.Holds lo hi mem) views tags)
    (frame : Frame a b mem mem') (apart : hi ≤ a ∨ b ≤ lo) (below : lo' ≤ lo)
    (above : hi ≤ hi')
    : List.Forall₂ (IrcTag.Holds lo' hi' mem') views tags :=
  holds.imp fun _ _ both =>
    ⟨(frame.holds both.1 apart).mono below above, (frame.holds both.2 apart).mono below above⟩

/-- The null view shows the empty string, anywhere. -/
theorem nullView_holds (lo hi : Nat) (mem : CMemory) : nullView.Holds lo hi mem [] :=
  ⟨by simp [View.read, nullView], Or.inl rfl⟩

/-- One tag: its key is cut off in place and its value unescaped behind the key.
Witness: the entry has no `=`, or splits at the first one.
-/
theorem parseTag_refines {mem : CMemory} {p : Nat} {entry : Bytes}
    (here : CString mem p entry)
    : Agrees
        (fun tag result =>
          IrcTag.Holds p (p + entry.length) result.2 result.1 tag
          ∧ Frame p (p + entry.length) mem result.2)
        (parseTag mem p) (tagOf entry) := by
  rcases onwards_cases (chr '=') entry with ⟨last, absent⟩ | ⟨value, more, split⟩
  · simp only [tagOf, before_of_not_mem absent, last, parseTag,
      here.strsep_of_not_mem absent, here.load_eq_zero_iff]
    split
    · exact .throws _
    · exact .returns ⟨⟨here.holds, nullView_holds _ _ _⟩, .refl _ _ _⟩
  · have absent := not_mem_before (chr '=') entry
    generalize keyed : before (chr '=') entry = key at split absent
    subst split
    have length : (key ++ chr '=' :: value).length = key.length + 1 + value.length := by
      simp only [List.length_append, List.length_cons]
      omega
    obtain ⟨mem₁, cut, frame₁, keyHere, valueHere⟩ := here.strsep_of_append absent
    simp only [tagOf, keyed, more, List.tail_cons, parseTag, cut,
      keyHere.load_eq_zero_iff]
    split
    · exact .throws _
    · obtain ⟨view, mem₂, unescapes, holds, frame₂⟩ := unescapeTagValue_refines valueHere
      have keyLater := frame₂.cString keyHere (Or.inl (by omega))
      rw [unescapes]
      refine .returns ⟨⟨?_, ?_⟩, ?_⟩
      · exact keyLater.holds.mono (Nat.le_refl _) (by omega)
      · exact holds.mono (by omega) (by omega)
      · exact (frame₁.mono (by omega) (by omega)).trans (frame₂.mono (by omega) (by omega))

/-- What the loop over the tags achieves from one of its states. -/
private def Tagging.Done (s : Tagging) (result : Throws (List (IrcTag View) × CMemory))
    : Prop :=
  ∀ list, CString s.mem s.str list →
    Agrees
      (fun tags result =>
        ∃ views,
          result.1 = s.tags ++ views
          ∧ List.Forall₂ (IrcTag.Holds s.str (s.str + list.length) result.2) views tags
          ∧ Frame s.str (s.str + list.length) s.mem result.2)
      result (tagsOf list)

/-- The round that parses the last entry of a tag list leaves the loop. -/
private theorem tagRound_last {s : Tagging} {entry : Bytes}
    (here : CString s.mem s.str entry) (absent : chr ';' ∉ entry)
    : ∃ result, tagRound s = .leave result ∧ s.Done result := by
  have agrees := parseTag_refines here
  simp only [tagRound, here.strsep_of_not_mem absent]
  generalize parseTag s.mem s.str = tag at agrees ⊢
  generalize parsed : tagOf entry = reference at agrees
  cases agrees with
  | throws code =>
      refine ⟨_, rfl, fun text again => ?_⟩
      obtain rfl := here.unique again
      rw [tagsOf_of_not_mem absent, parsed]
      exact .throws code
  | @returns tag result holds =>
      refine ⟨_, rfl, fun text again => ?_⟩
      obtain rfl := here.unique again
      rw [tagsOf_of_not_mem absent, parsed]
      exact .returns ⟨[result.1], rfl, .cons holds.1 .nil, holds.2⟩

/-- The round that parses an entry with a separator behind it goes on with the list behind
the separator, or throws what the reference throws.
-/
private theorem tagRound_more {s : Tagging} {entry rest : Bytes}
    (here : CString s.mem s.str (entry ++ chr ';' :: rest)) (absent : chr ';' ∉ entry)
    : (∃ result, tagRound s = .leave result ∧ s.Done result)
      ∨ ∃ next,
          tagRound s = .again next
          ∧ next.mem.length = s.mem.length
          ∧ s.str < next.str
          ∧ CString next.mem next.str rest
          ∧ ∀ result, next.Done result → s.Done result := by
  have length : (entry ++ chr ';' :: rest).length = entry.length + 1 + rest.length := by
    simp only [List.length_append, List.length_cons]
    omega
  obtain ⟨mem₁, cut, frame₁, entryHere, restHere⟩ := here.strsep_of_append absent
  have agrees := parseTag_refines entryHere
  simp only [tagRound, cut]
  generalize parseTag mem₁ s.str = tag at agrees ⊢
  generalize parsed : tagOf entry = reference at agrees
  cases agrees with
  | throws code =>
      refine Or.inl ⟨_, rfl, fun text again => ?_⟩
      obtain rfl := here.unique again
      rw [tagsOf_append absent, parsed]
      exact .throws code
  | @returns tag result holds =>
      obtain ⟨view, mem₂⟩ := result
      obtain ⟨holds, frame₂⟩ := holds
      have restLater := frame₂.cString restHere (Or.inr (by omega))
      refine Or.inr ⟨_, rfl, frame₂.1.trans frame₁.1, by simp only; omega, restLater, ?_⟩
      intro result done text again
      obtain rfl := here.unique again
      have later := done rest restLater
      rw [tagsOf_append absent, parsed]
      generalize tagsOf rest = others at later
      cases later with
      | throws code => exact .throws code
      | @returns tags final good =>
          obtain ⟨views, split, theirs, frame₃⟩ := good
          dsimp only at split theirs frame₃
          refine .returns ⟨view :: views, by simpa using split, .cons ?_ ?_, ?_⟩
          · have kept : List.Forall₂ (IrcTag.Holds s.str
                (s.str + (entry ++ chr ';' :: rest).length) final.2) [view] [tag] :=
              tags_frame (.cons holds .nil) frame₃ (Or.inl (by omega)) (Nat.le_refl _)
                (by omega)
            exact (List.forall₂_cons.mp kept).1
          · exact tags_frame theirs (.refl 0 0 _) (Or.inr (Nat.zero_le _)) (by omega)
              (by omega)
          · exact (frame₁.mono (by omega) (by omega)).trans
              ((frame₂.mono (by omega) (by omega)).trans
                (frame₃.mono (by omega) (by omega)))

/-- Every round of the loop over the tags parses one entry of the list.
Witness: the list is one entry, or an entry, a separator and a shorter list.
-/
private theorem tagRound_meets (s : Tagging) (ready : ∃ list, CString s.mem s.str list)
    : (tagRound s).Meets (fun s => ∃ list, CString s.mem s.str list) Tagging.Done
        (fun s => s.mem.length - (s.str + 1)) s := by
  obtain ⟨list, here⟩ := ready
  rcases onwards_cases (chr ';') list with ⟨_, absent⟩ | ⟨rest, _, split⟩
  · obtain ⟨result, turn, done⟩ := tagRound_last here absent
    rw [turn]
    exact .leave done
  · have absent := not_mem_before (chr ';') list
    rw [split] at here
    have bound := here.end_lt
    simp only [List.length_append, List.length_cons] at bound
    rcases tagRound_more here absent
      with ⟨result, turn, done⟩ | ⟨next, turn, same, later, left, back⟩
    · rw [turn]
      exact .leave done
    · rw [turn]
      exact .again ⟨rest, left⟩ (by omega) back

/-- Parsing a tag list in place agrees with the reference and writes only inside it. -/
theorem parseIrcTags_refines {mem : CMemory} {p : Nat} {list : Bytes}
    (here : CString mem p list)
    : Agrees
        (fun tags result =>
          List.Forall₂ (IrcTag.Holds p (p + list.length) result.2) result.1 tags
          ∧ Frame p (p + list.length) mem result.2)
        (parseIrcTags mem p) (tagsOf list) := by
  have bound := here.end_lt
  obtain ⟨result, runs, done⟩ :=
    run_total tagRound_meets mem.length { mem, str := p, tags := [] } ⟨list, here⟩
      (by simp only; omega)
  have agrees := done list here
  simp only [parseIrcTags, runs, Option.getD_some]
  generalize tagsOf list = reference at agrees
  cases agrees with
  | throws code => exact .throws code
  | returns good =>
      obtain ⟨views, split, holds, frame⟩ := good
      rw [List.nil_append] at split
      exact .returns ⟨split ▸ holds, frame⟩

-----------------------------------------------------------------------------------------
-- Words
-----------------------------------------------------------------------------------------

/-- Trimming moves over the leading spaces and keeps the end of the string. -/
theorem trim_refines {p : Parser} {text : Bytes} (here : CString p.mem p.msg text)
    : CString p.trim.mem p.trim.msg (dropLeading (chr ' ') text)
      ∧ p.trim.msg + (dropLeading (chr ' ') text).length = p.msg + text.length
      ∧ p.msg ≤ p.trim.msg := by
  have whole : text.takeWhile (· == chr ' ') ++ dropLeading (chr ' ') text = text :=
    List.takeWhile_append_dropWhile
  have moved : p.trim.msg = p.msg + (text.takeWhile (· == chr ' ')).length :=
    here.advance_eq (by decide)
  have lengths := congrArg List.length whole
  rw [List.length_append] at lengths
  rw [← whole] at here
  exact ⟨moved ▸ here.tail, by omega, by omega⟩

/-- Taking a word ends it in place and leaves the next word at the new position.
Witness: the word is the last one and nothing is written, or the space behind it is
overwritten and the spaces after that are skipped.
-/
theorem word_refines {p : Parser} {text : Bytes} (here : CString p.mem p.msg text)
    : p.word.1 = p.msg
      ∧ CString p.word.2.mem p.msg (before (chr ' ') text)
      ∧ CString p.word.2.mem p.word.2.msg (nextWord text)
      ∧ Frame p.msg (p.msg + text.length) p.mem p.word.2.mem
      ∧ p.msg + (before (chr ' ') text).length ≤ p.word.2.msg
      ∧ p.word.2.msg + (nextWord text).length = p.msg + text.length := by
  have stop := here.advance_before (chr ' ')
  rcases onwards_cases (chr ' ') text with ⟨last, absent⟩ | ⟨rest, more, split⟩
  · have ends := here.ends
    have none_left : nextWord text = [] := by simp [nextWord, last, dropLeading]
    rw [before_of_not_mem absent] at stop ⊢
    have taken : p.word = (p.msg, { p with msg := p.msg + text.length }) := by
      simp [Parser.word, stop, ends.load_eq]
    rw [taken, none_left]
    exact ⟨rfl, here, ends, .refl _ _ _, Nat.le_refl _, rfl⟩
  · have absent := not_mem_before (chr ' ') text
    have skips : nextWord text = dropLeading (chr ' ') rest := by
      simp [nextWord, more, dropLeading]
    generalize before (chr ' ') text = word at split absent stop ⊢
    subst split
    rw [skips]
    have space : load p.mem (p.msg + word.length) = chr ' ' := here.tail.load_eq
    have found : load p.mem (p.msg + word.length) ≠ 0 := by
      rw [space]
      decide
    obtain ⟨mem', cut, frame, wordHere, restHere⟩ := here.strsep_of_append absent
    have stored : mem' = store p.mem (p.msg + word.length) 0 := by
      simp only [strsep, stop, found, if_false, Prod.mk.injEq] at cut
      exact cut.1.symm
    have taken
        : p.word
          = (p.msg, ({ mem := mem', msg := p.msg + word.length + 1 } : Parser).trim) := by
      simp [Parser.word, stop, found, stored]
    obtain ⟨restLater, ending, later⟩ :=
      trim_refines (p := { mem := mem', msg := p.msg + word.length + 1 }) restHere
    rw [taken]
    simp only [List.length_append, List.length_cons]
    refine ⟨trivial, wordHere, restLater, frame.mono (by omega) (by omega), ?_, ?_⟩
    · simp only at later
      omega
    · simp only at ending
      omega

/-- Matching a character that starts the text moves over it. -/
theorem matchChar_cons {p : Parser} {c : Byte} {text : Bytes}
    (here : CString p.mem p.msg (c :: text))
    : p.matchChar c = (true, { p with msg := p.msg + 1 })
      ∧ CString p.mem (p.msg + 1) text := by
  refine ⟨?_, here.cons_tail⟩
  simp [Parser.matchChar, here.load_eq]

/-- Matching a character that does not start the text changes nothing. -/
theorem matchChar_of_ne {p : Parser} {c : Byte} {text : Bytes}
    (here : CString p.mem p.msg text) (differs : text.head? ≠ some c) (nonzero : c ≠ 0)
    : p.matchChar c = (false, p) := by
  have apart : c ≠ text.head?.getD 0 := by
    cases text with
    | nil => simpa using nonzero
    | cons d rest => simpa using fun same : c = d => differs (by simp [same])
  simp [Parser.matchChar, here.load_eq, apart]

-----------------------------------------------------------------------------------------
-- Arguments
-----------------------------------------------------------------------------------------

/-- Views keep showing their texts while writes stay outside their range. -/
theorem views_frame {lo hi lo' hi' a b : Nat} {mem mem' : CMemory}
    {views : List View} {texts : List Bytes}
    (holds : List.Forall₂ (fun view text => view.Holds lo hi mem text) views texts)
    (frame : Frame a b mem mem') (apart : hi ≤ a ∨ b ≤ lo) (below : lo' ≤ lo)
    (above : hi ≤ hi')
    : List.Forall₂ (fun view text => view.Holds lo' hi' mem' text) views texts :=
  holds.imp fun _ _ holds => (frame.holds holds apart).mono below above

/-- What the loop over the arguments achieves from one of its states. -/
private def ArgsDone (s : Parser × List View) (result : List View × CMemory) : Prop :=
  ∀ text, CString s.1.mem s.1.msg text →
    ∃ views,
      result.1 = s.2 ++ views
      ∧ List.Forall₂
          (fun view text' => view.Holds s.1.msg (s.1.msg + text.length) result.2 text')
          views (argsOf text)
      ∧ Frame s.1.msg (s.1.msg + text.length) s.1.mem result.2

/-- Every round of the loop over the arguments takes one word, or leaves with the last
argument. Witness: the text is empty, starts with a colon, or starts with a word.
-/
private theorem argRound_meets (s : Parser × List View)
    (ready : ∃ text, CString s.1.mem s.1.msg text)
    : (argRound s).Meets (fun s => ∃ text, CString s.1.mem s.1.msg text) ArgsDone
        (fun s => s.1.mem.length - (s.1.msg + 1)) s := by
  obtain ⟨p, args⟩ := s
  obtain ⟨text, here⟩ := ready
  dsimp only at here
  by_cases empty : text = []
  · subst empty
    simp only [argRound, Parser.isempty, here.load_eq, List.head?_nil, Option.getD_none,
      beq_self_eq_true, if_true]
    refine .leave fun again there => ?_
    obtain rfl := here.unique there
    exact ⟨[], by simp, by simp [argsOf_nil], .refl _ _ _⟩
  have goes : p.isempty = false := by
    simp [Parser.isempty, here.load_eq_zero_iff, empty]
  by_cases colon : text.head? = some (chr ':')
  · obtain ⟨last, rfl⟩ := List.head?_eq_some_iff.mp colon
    obtain ⟨matched, rest⟩ := matchChar_cons here
    simp only [argRound, goes, matched, Bool.false_eq_true, if_false, if_true, Parser.peek]
    refine .leave fun again there => ?_
    obtain rfl := here.unique there
    refine ⟨[viewOf p.mem (p.msg + 1)], rfl, ?_, .refl _ _ _⟩
    rw [argsOf_colon, List.length_cons]
    exact .cons (rest.holds.mono (by simp only; omega) (by simp only; omega)) .nil
  · have unmatched := matchChar_of_ne here colon (by decide)
    obtain ⟨start, wordHere, restHere, frame, after, ending⟩ := word_refines here
    have shorter := nextWord_length_lt empty
    have bound := here.end_lt
    have word := congrArg List.length (before_append_onwards (chr ' ') text)
    rw [List.length_append] at word
    simp only [argRound, goes, unmatched, Bool.false_eq_true, if_false, start]
    refine .again ⟨nextWord text, restHere⟩ (by simp only [frame.1]; omega) ?_
    intro result done again there
    obtain rfl := here.unique there
    obtain ⟨views, split, holds, later⟩ := done (nextWord text) restHere
    dsimp only at split holds later
    refine ⟨viewOf p.word.2.mem p.msg :: views, by simpa using split, ?_, ?_⟩
    · rw [argsOf_word empty colon]
      refine .cons ?_ ?_
      · exact (later.holds wordHere.holds (Or.inl after)).mono (Nat.le_refl _)
          (by simp only; omega)
      · exact views_frame holds (.refl 0 0 _) (Or.inr (Nat.zero_le _)) (by simp only; omega)
          (by simp only; omega)
    · exact frame.trans (later.mono (by omega) (by omega))

-----------------------------------------------------------------------------------------
-- Messages
-----------------------------------------------------------------------------------------

/-- The views of a message show its parts, inside `[lo, hi)`. -/
structure IrcMsg.Holds (lo hi : Nat) (mem : CMemory) (views : IrcMsg View)
    (msg : IrcMsg Bytes)
    : Prop where
  tags : List.Forall₂ (IrcTag.Holds lo hi mem) views.tags msg.tags
  source : views.source.Holds lo hi mem msg.source
  command : views.command.Holds lo hi mem msg.command
  args : List.Forall₂ (fun view text => view.Holds lo hi mem text) views.args msg.args

/-- The range of a message's views may be widened. -/
theorem IrcMsg.Holds.mono {lo hi lo' hi' : Nat} {mem : CMemory} {views : IrcMsg View}
    {msg : IrcMsg Bytes} (holds : views.Holds lo hi mem msg) (below : lo' ≤ lo)
    (above : hi ≤ hi')
    : views.Holds lo' hi' mem msg where
  tags := tags_frame holds.tags (.refl 0 0 _) (Or.inr (Nat.zero_le _)) below above
  source := holds.source.mono below above
  command := holds.command.mono below above
  args := views_frame holds.args (.refl 0 0 _) (Or.inr (Nat.zero_le _)) below above

/-- The command and the arguments, behind tags and a source that already show their
texts: these keep showing them, because all later writes are behind them.
-/
theorem parseCommand_refines {p : Parser} {text source : Bytes} {lo : Nat} {view : View}
    {views : List (IrcTag View)} {tags : List (IrcTag Bytes)}
    (here : CString p.mem p.msg text) (behind : lo ≤ p.msg)
    (tagged : List.Forall₂ (IrcTag.Holds lo p.msg p.mem) views tags)
    (sourced : view.Holds lo p.msg p.mem source)
    : Agrees
        (fun msg result =>
          result.1.Holds lo (p.msg + text.length) result.2 msg
          ∧ Frame p.msg (p.msg + text.length) p.mem result.2)
        (parseCommand p views view) (commandOf tags source text) := by
  obtain ⟨start, wordHere, restHere, frame, after, ending⟩ := word_refines here
  have bound := restHere.end_lt
  simp only [parseCommand, commandOf, start, wordHere.viewOf_eq, List.length_eq_zero_iff]
  split
  · exact .throws _
  · obtain ⟨⟨args, mem'⟩, runs, done⟩ :=
      run_total argRound_meets p.word.2.mem.length (p.word.2, [])
        ⟨_, restHere⟩ (by simp only; omega)
    obtain ⟨more, split, holds, later⟩ := done _ restHere
    dsimp only [List.nil_append] at split holds later
    subst split
    rw [runs]
    have whole := frame.trans (later.mono (by omega) (by omega))
    have commandHolds := later.holds wordHere.holds (Or.inl after)
    rw [wordHere.viewOf_eq] at commandHolds
    refine .returns ⟨{ tags := ?_, source := ?_, command := ?_, args := ?_ }, whole⟩
    · exact tags_frame tagged whole (Or.inl (Nat.le_refl _)) (Nat.le_refl _) (by omega)
    · exact (whole.holds sourced (Or.inl (Nat.le_refl _))).mono (Nat.le_refl _) (by omega)
    · exact commandHolds.mono behind (by omega)
    · exact views_frame holds (.refl 0 0 _) (Or.inr (Nat.zero_le _)) (by omega) (by omega)

/-- The source and what follows it, behind tags that already show their texts. -/
theorem parseSource_refines {p : Parser} {text : Bytes} {lo : Nat}
    {views : List (IrcTag View)} {tags : List (IrcTag Bytes)}
    (here : CString p.mem p.msg text) (behind : lo ≤ p.msg)
    (tagged : List.Forall₂ (IrcTag.Holds lo p.msg p.mem) views tags)
    : Agrees
        (fun msg result =>
          result.1.Holds lo (p.msg + text.length) result.2 msg
          ∧ Frame p.msg (p.msg + text.length) p.mem result.2)
        (parseSource p views) (sourcedOf tags text) := by
  by_cases colon : text.head? = some (chr ':')
  · obtain ⟨rest, rfl⟩ := List.head?_eq_some_iff.mp colon
    obtain ⟨matched, sourceHere⟩ := matchChar_cons here
    obtain ⟨start, wordHere, restHere, frame, after, ending⟩ :=
      word_refines (p := { p with msg := p.msg + 1 }) sourceHere
    dsimp only at start wordHere restHere frame after ending
    simp only [parseSource, sourcedOf, matched, if_true, start, List.head?_cons,
      List.tail_cons, List.length_cons]
    have agrees := parseCommand_refines restHere (by omega)
      (tags_frame tagged frame (Or.inl (by omega)) (Nat.le_refl _) (by omega))
      (wordHere.holds.mono (by omega) after)
    refine agrees.imp fun msg result good => ?_
    rw [ending, show p.msg + 1 + rest.length = p.msg + (rest.length + 1) by omega] at good
    exact ⟨good.1,
      (frame.mono (by omega) (by omega)).trans (good.2.mono (by omega) (Nat.le_refl _))⟩
  · have unmatched := matchChar_of_ne here colon (by decide)
    simp only [parseSource, sourcedOf, unmatched, colon, Bool.false_eq_true, if_false]
    exact parseCommand_refines here behind tagged (nullView_holds _ _ _)

/-- Parsing a message in place agrees with the reference: the same error, or views that
show the parts of the reference's message once everything is parsed; only the message's
own bytes are written.
-/
theorem parseIrcMessage_refines {mem : CMemory} {start : Nat} {line : Bytes}
    (here : CString mem start line)
    : Agrees
        (fun msg result =>
          result.1.Holds start (start + line.length) result.2 msg
          ∧ Frame start (start + line.length) mem result.2)
        (parseIrcMessage mem start) (messageOf line) := by
  obtain ⟨textHere, ending, later⟩ := trim_refines (p := { mem, msg := start }) here
  change CString (Parser.new mem start).mem (Parser.new mem start).msg _ at textHere
  change (Parser.new mem start).msg + _ = _ at ending
  change _ ≤ (Parser.new mem start).msg at later
  have memory : (Parser.new mem start).mem = mem := rfl
  simp only [messageOf, parseIrcMessage]
  generalize Parser.new mem start = p at textHere ending later memory ⊢
  generalize dropLeading (chr ' ') line = text at textHere ending ⊢
  subst memory
  dsimp only at ending later
  by_cases at_sign : text.head? = some (chr '@')
  · obtain ⟨rest, rfl⟩ := List.head?_eq_some_iff.mp at_sign
    obtain ⟨matched, tagsHere⟩ := matchChar_cons textHere
    obtain ⟨begins, wordHere, restHere, frame, after, ending'⟩ :=
      word_refines (p := { p with msg := p.msg + 1 }) tagsHere
    rw [List.length_cons] at ending
    dsimp only at begins wordHere restHere frame after ending'
    simp only [matched, if_true, begins, List.head?_cons, List.tail_cons]
    generalize Parser.word _ = next at wordHere restHere frame after ending' ⊢
    have agrees := parseIrcTags_refines wordHere
    generalize parseIrcTags _ _ = result at agrees ⊢
    generalize tagsOf _ = reference at agrees ⊢
    cases agrees with
    | throws code => exact .throws code
    | @returns tags result good =>
        obtain ⟨views, mem'⟩ := result
        obtain ⟨holds, frame'⟩ := good
        dsimp only at holds frame'
        have behind : p.msg + 1 ≤ next.2.msg := by omega
        have agrees := parseSource_refines (p := { next.2 with mem := mem' })
          (frame'.cString restHere (Or.inr after)) behind
          (tags_frame holds (.refl 0 0 _) (Or.inr (Nat.zero_le _)) (Nat.le_refl _) after)
        refine agrees.imp fun msg result good => ?_
        dsimp only at good
        rw [ending', show p.msg + 1 + rest.length = start + line.length by omega] at good
        refine ⟨good.1.mono (by omega) (Nat.le_refl _), ?_⟩
        exact (frame.mono (by omega) (by omega)).trans
          ((frame'.mono (by omega) (by omega)).trans (good.2.mono (by omega) (Nat.le_refl _)))
  · have unmatched := matchChar_of_ne textHere at_sign (by decide)
    simp only [unmatched, at_sign, Bool.false_eq_true, if_false]
    have agrees := parseSource_refines textHere later .nil
    rw [ending] at agrees
    exact agrees.imp fun msg result good => ⟨good.1, good.2.mono later (Nat.le_refl _)⟩

end Snowcone.IrcParsing
