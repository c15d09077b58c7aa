import Snowcone.Membership.NamesReply

/-! Status prefixes in a names reply. The pattern of the handler takes `!` and `@` for the end
of a nick, so it does not read them as prefixes.
-/

namespace Snowcone.Membership

open Bytes LuaPattern
open Sending (irccase)

/-- An entry of a names reply: the status prefixes of a member, its nick, and with
`userhost-in-names` its user and host.
-/
structure PrefixedEntry where
  prefixes : Bytes
  nick : Bytes
  userhost : Bytes

/-- An entry as it is sent. -/
def PrefixedEntry.text (entry : PrefixedEntry) : Bytes :=
  entry.prefixes ++ entry.nick ++ entry.userhost

/-- An entry that a server with these status prefixes writes. -/
structure PrefixedEntry.WellFormed (prefixToMode : Bytes → Option Bytes) (entry : PrefixedEntry)
    : Prop where
  prefixes : ∀ c ∈ entry.prefixes, (prefixToMode [c]).isSome ∧ c ≠ chr ' '
  nonempty : entry.nick ≠ []
  plain : ∀ c ∈ entry.nick, c ≠ chr '!' ∧ c ≠ chr '@' ∧ c ≠ chr ' '
  unmarked : ∀ c ∈ entry.nick.head?, prefixToMode [c] = none
  userhost : entry.userhost = [] ∨ ∃ user host,
    entry.userhost = chr '!' :: user ++ chr '@' :: host ∧ chr ' ' ∉ user ∧ chr ' ' ∉ host

/-- A text is a list of words with spaces between them. -/
inductive Spaced : Bytes → List Bytes → Prop
  | nil : Spaced [] []
  | space {text words} (later : Spaced text words) : Spaced (chr ' ' :: text) words
  | word {word text words} (ends : ∀ c ∈ text.head?, c = chr ' ') (later : Spaced text words)
    : Spaced (word ++ text) (word :: words)

/-- The characters that end a nick for the pattern, and that are skipped in front of one. -/
def endsNick (c : Byte) : Bool := c == chr '!' || c == chr '@'

/-- What the pattern takes of a word. -/
def takenOf (word : Bytes) : Bytes := (word.dropWhile endsNick).takeWhile (! endsNick ·)

/-- The prefixes of an entry that the pattern does not skip. -/
def PrefixedEntry.kept (entry : PrefixedEntry) : Bytes := entry.prefixes.dropWhile endsNick

/-- Whether the pattern gets as far as the nick. -/
def PrefixedEntry.found (entry : PrefixedEntry) : Bool := entry.kept.all (! endsNick ·)

/-- The last entry of a nick that the pattern finds. -/
def lastFound (entries : List PrefixedEntry) (key : Bytes) : Option PrefixedEntry :=
  entries.reverse.find? (fun entry => entry.found && irccase entry.nick == key)

/-- The modes that status prefixes stand for. -/
def modesOf (prefixToMode : Bytes → Option Bytes) (prefixes : Bytes) : Set Bytes :=
  { mode | ∃ c ∈ prefixes, prefixToMode [c] = some mode }

/-- The prefixes of every entry are read: what is found last of its nick stands for the same
modes. An entry whose nick is not found leaves the empty string, which must not be a prefix.
-/
structure PrefixesRead (prefixToMode : Bytes → Option Bytes) (entries : List PrefixedEntry)
    : Prop where
  reads : ∀ entry ∈ entries, ∃ last, lastFound entries (irccase entry.nick) = some last
    ∧ modesOf prefixToMode last.kept = modesOf prefixToMode entry.prefixes
  ends : ∀ entry ∈ entries, entry.found = false → prefixToMode [] = none

/-- The status modes of the member under a key. -/
def IrcState.modesAt (state : IrcState) (name key : Bytes) : Option (Bytes → Bool) := do
  let channel ← state.channels (irccase name)
  let member ← channel.members key
  some member.modes

/-- A member is found under the nick of an entry, and it has exactly the modes of the entry's
prefixes.
-/
def HasModes (prefixToMode : Bytes → Option Bytes) (state : IrcState) (name : Bytes)
    (entry : PrefixedEntry) : Prop :=
  ∃ modes, state.modesAt name (irccase entry.nick) = some modes
    ∧ { mode | modes mode = true } = modesOf prefixToMode entry.prefixes

section Matches

/-- A word up to where the nick ends, and the rest of it, are one match. -/
theorem gmatch_run (run more : Bytes) {rest : Bytes} (fresh : Bool)
    (plain : ∀ c ∈ run, endsNick c = false) (nonempty : run ≠ [])
    (behind : ∀ c ∈ more.head?, endsNick c = true) (noSpace : ∀ c ∈ run ++ more, c ≠ chr ' ')
    (spaced : ∀ c ∈ rest.head?, c = chr ' ')
    : gmatchFrom entryPattern (run ++ more ++ rest) fresh
      = [run] :: gmatchFrom entryPattern rest false := by
  refine gmatchFrom_take ?_ (matchWhole_word ?_ nonempty ?_ ?_ ?_)
  · simp [nonempty]
  · intro c isIn
    have isPlain := plain c isIn
    have notSpace := noSpace c (List.mem_append_left more isIn)
    simp_all [endsNick]
  · intro c isHead
    cases more with
    | nil => simp [spaced c isHead]
    | cons d more =>
        obtain rfl : d = c := by simpa using isHead
        have isEnd := behind d rfl
        simp only [endsNick, Bool.or_eq_true, beq_iff_eq] at isEnd
        rcases isEnd with rfl | rfl <;> rfl
  · intro c isIn
    simpa using noSpace c (List.mem_append_right run isIn)
  · intro c isHead
    simp [spaced c isHead]

/-- What ends a nick is skipped in front of one. -/
theorem gmatch_endsNick {c : Byte} (isEnd : endsNick c = true) (rest : Bytes) (fresh : Bool)
    : gmatchFrom entryPattern (c :: rest) fresh = gmatchFrom entryPattern rest true := by
  refine gmatchFrom_skip (matchWhole_word_none ?_)
  intro d isHead
  obtain rfl : c = d := by simpa using isHead
  simp only [endsNick, Bool.or_eq_true, beq_iff_eq] at isEnd
  rcases isEnd with rfl | rfl <;> rfl

/-- A word that has something to find is one match, by induction on what is skipped. -/
theorem gmatch_taken {word rest : Bytes} {fresh : Bool}
    (findable : ∃ c ∈ word, endsNick c = false) (noSpace : ∀ c ∈ word, c ≠ chr ' ')
    (spaced : ∀ c ∈ rest.head?, c = chr ' ')
    : gmatchFrom entryPattern (word ++ rest) fresh
      = [takenOf word] :: gmatchFrom entryPattern rest false := by
  induction word generalizing fresh with
  | nil =>
      obtain ⟨_, isIn, _⟩ := findable
      cases isIn
  | cons c word ih =>
      cases isEnd : endsNick c with
      | true =>
          have same : takenOf (c :: word) = takenOf word := by
            rw [takenOf, List.dropWhile_cons_of_pos isEnd, takenOf]
          rw [List.cons_append, gmatch_endsNick isEnd, same]
          refine ih ?_ (fun d isIn => noSpace d (List.mem_cons_of_mem c isIn))
          obtain ⟨d, isIn, notEnd⟩ := findable
          rcases List.mem_cons.mp isIn with rfl | later
          · rw [isEnd] at notEnd
            cases notEnd
          · exact ⟨d, later, notEnd⟩
      | false =>
          have taken : takenOf (c :: word) = (c :: word).takeWhile (! endsNick ·) := by
            rw [takenOf, List.dropWhile_cons_of_neg (by simp [isEnd])]
          have head : (c :: word).takeWhile (! endsNick ·) ≠ [] := by
            rw [List.takeWhile_cons_of_pos (by simp [isEnd])]
            exact List.cons_ne_nil _ _
          have whole := gmatch_run ((c :: word).takeWhile (! endsNick ·))
            ((c :: word).dropWhile (! endsNick ·)) fresh
            (fun d isIn => by simpa using List.mem_takeWhile_imp isIn) head ?_ ?_ spaced
          · rwa [List.takeWhile_append_dropWhile, ← taken] at whole
          · intro d isHead
            have notPlain := List.head?_dropWhile_not (! endsNick ·) (c :: word)
            rw [Option.mem_def.mp isHead] at notPlain
            simpa using notPlain
          · rwa [List.takeWhile_append_dropWhile]

/-- The matches in a list of words are found in each of them, by induction on the list. -/
theorem gmatch_spaced {text : Bytes} {words : List Bytes} (listed : Spaced text words)
    (findable : ∀ word ∈ words, (∃ c ∈ word, endsNick c = false) ∧ ∀ c ∈ word, c ≠ chr ' ')
    (fresh : Bool)
    : gmatchFrom entryPattern text fresh = words.map (fun word => [takenOf word]) := by
  induction listed generalizing fresh with
  | nil => exact gmatchFrom_nil (matchWhole_word_none (by simp))
  | space _ ih => rw [gmatch_space, ih findable]
  | word ends _ ih =>
      obtain ⟨here, later⟩ := List.forall_mem_cons.mp findable
      rw [gmatch_taken here.1 here.2 ends, ih later, List.map_cons]

/-- What is found in an entry. -/
theorem takenOf_text {prefixToMode : Bytes → Option Bytes} {entry : PrefixedEntry}
    (wellFormed : entry.WellFormed prefixToMode)
    : takenOf entry.text
      = if entry.found then entry.kept ++ entry.nick else entry.kept.takeWhile (! endsNick ·) := by
  obtain ⟨prefixes, nick, userhost⟩ := entry
  have plain : ∀ c ∈ nick, endsNick c = false := by
    intro c isIn
    obtain ⟨notBang, notAt, _⟩ := wellFormed.plain c isIn
    simp [endsNick, notBang, notAt]
  have fromNick : (nick ++ userhost).dropWhile endsNick = nick ++ userhost := by
    cases nick with
    | nil => exact absurd rfl wellFormed.nonempty
    | cons c nick =>
        rw [List.cons_append, List.dropWhile_cons_of_neg]
        simp [plain c]
  have nickAlone : (nick ++ userhost).takeWhile (! endsNick ·) = nick := by
    rw [List.takeWhile_append_of_pos (by simpa using plain)]
    rcases wellFormed.userhost with empty | ⟨user, host, text, _⟩
    · rw [show userhost = [] from empty, List.takeWhile_nil, List.append_nil]
    · rw [show userhost = _ from text, List.cons_append, List.takeWhile_cons_of_neg (by decide),
        List.append_nil]
  have skipped : (PrefixedEntry.text { prefixes, nick, userhost }).dropWhile endsNick
      = prefixes.dropWhile endsNick ++ (nick ++ userhost) := by
    rw [PrefixedEntry.text, List.append_assoc, List.dropWhile_append]
    split
    · rename_i nothing
      rw [List.isEmpty_iff.mp nothing, fromNick, List.nil_append]
    · rfl
  rw [takenOf, skipped, PrefixedEntry.found, PrefixedEntry.kept]
  split
  · rename_i found
    rw [List.takeWhile_append_of_pos (List.all_eq_true.mp found), nickAlone]
  · rename_i notFound
    rw [List.takeWhile_append, if_neg]
    intro sameLength
    have whole := (List.takeWhile_prefix (! endsNick ·)).eq_of_length sameLength
    apply notFound
    rw [← whole]
    exact List.all_takeWhile

end Matches

-----------------------------------------------------------------------------------------
-- The loop over the entries
-----------------------------------------------------------------------------------------

section Entries

variable {prefixToMode : Bytes → Option Bytes} {state state' : IrcState} {name : Bytes}
  {entry : PrefixedEntry} {entries : List PrefixedEntry}

/-- Status prefixes are taken off one by one, by induction on them. -/
theorem stripPrefixes_append {prefixes : Bytes}
    (marked : ∀ c ∈ prefixes, (prefixToMode [c]).isSome) (rest : Bytes)
    (modes : Bytes → Bool)
    : ∃ modes', stripPrefixes prefixToMode (prefixes ++ rest) modes
          = stripPrefixes prefixToMode rest modes'
        ∧ { mode | modes' mode = true }
          = modesOf prefixToMode prefixes ∪ { mode | modes mode = true } := by
  induction prefixes generalizing modes with
  | nil => exact ⟨modes, rfl, by simp [modesOf]⟩
  | cons c prefixes ih =>
      obtain ⟨mode, isMode⟩ := Option.isSome_iff_exists.mp (marked c List.mem_cons_self)
      obtain ⟨modes', stripped, same⟩ :=
        ih (fun d isIn => marked d (List.mem_cons_of_mem c isIn))
          (Function.update modes mode true)
      refine ⟨modes', ?_, ?_⟩
      · rw [List.cons_append, stripPrefixes, isMode]
        exact stripped
      · ext other
        rw [same]
        by_cases isHere : other = mode
        · simp [modesOf, isMode, isHere]
        · simp [modesOf, isMode, isHere, Ne.symm isHere]

/-- The loop ends at the nick. -/
theorem stripPrefixes_nick (wellFormed : entry.WellFormed prefixToMode) (modes : Bytes → Bool)
    : stripPrefixes prefixToMode entry.nick modes = some (entry.nick, modes) := by
  have unmarked := wellFormed.unmarked
  cases nick : entry.nick with
  | nil => exact absurd nick wellFormed.nonempty
  | cons c rest => rw [stripPrefixes, unmarked c (by rw [nick]; rfl)]

/-- An entry that is found is stripped of the prefixes that are kept. -/
theorem strip_found (wellFormed : entry.WellFormed prefixToMode) (found : entry.found = true)
    : ∃ modes, stripPrefixes prefixToMode (takenOf entry.text) (fun _ => false)
          = some (entry.nick, modes)
        ∧ { mode | modes mode = true } = modesOf prefixToMode entry.kept := by
  have marked : ∀ c ∈ entry.kept, (prefixToMode [c]).isSome := fun c isIn =>
    (wellFormed.prefixes c ((List.dropWhile_suffix endsNick).mem isIn)).1
  obtain ⟨modes, stripped, same⟩ := stripPrefixes_append marked entry.nick (fun _ => false)
  refine ⟨modes, ?_, by simpa using same⟩
  rw [takenOf_text wellFormed, if_pos found, stripped, stripPrefixes_nick wellFormed]

/-- Of an entry that is not found nothing is left, and the loop goes on if the empty string is
a prefix.
-/
theorem strip_not_found (wellFormed : entry.WellFormed prefixToMode)
    (notFound : entry.found = false)
    : ∃ modes, stripPrefixes prefixToMode (takenOf entry.text) (fun _ => false)
        = if (prefixToMode []).isSome then none else some ([], modes) := by
  have marked : ∀ c ∈ entry.kept.takeWhile (! endsNick ·), (prefixToMode [c]).isSome :=
    fun c isIn => (wellFormed.prefixes c ((List.dropWhile_suffix endsNick).mem
      ((List.takeWhile_prefix _).mem isIn))).1
  obtain ⟨modes, stripped, -⟩ := stripPrefixes_append marked [] (fun _ => false)
  refine ⟨modes, ?_⟩
  rw [takenOf_text wellFormed, if_neg (by simp [notFound])]
  rw [List.append_nil] at stripped
  rw [stripped, stripPrefixes]

/-- A member that is written has its modes, and the others keep theirs. -/
theorem modesAt_editMembers (isChannel : (state.channels (irccase name)).isSome) (who : Bytes)
    (member : Member)
    : ∃ state', state.editMembers name (fun members =>
          Function.update members who (some member)) = some state'
        ∧ (state'.channels (irccase name)).isSome ∧ state'.prefixToMode = state.prefixToMode
        ∧ ∀ key, state'.modesAt name key
          = if key = who then some member.modes else state.modesAt name key := by
  obtain ⟨channel, isHere⟩ := Option.isSome_iff_exists.mp isChannel
  refine ⟨_, congrArg (Option.map _) isHere, by simp, rfl, ?_⟩
  intro key
  by_cases same : key = who
  · simp [IrcState.modesAt, same]
  · simp [IrcState.modesAt, same, isHere]

/-- What an entry writes when it has been stripped. -/
theorem nameEntry_of_strip {taken nick : Bytes} {modes : Bytes → Bool}
    (isChannel : (state.channels (irccase name)).isSome)
    (stripped : stripPrefixes state.prefixToMode taken (fun _ => false) = some (nick, modes))
    : ∃ state', nameEntry name state taken = some state'
        ∧ (state'.channels (irccase name)).isSome ∧ state'.prefixToMode = state.prefixToMode
        ∧ ∀ key, state'.modesAt name key
          = if key = irccase nick then some modes else state.modesAt name key := by
  have writes : nameEntry name state taken
      = (state.getUser nick).1.editMembers name (fun members =>
          Function.update members (irccase nick)
            (some { user := (state.getUser nick).2, modes })) := by
    rw [nameEntry, stripped]
    rfl
  have isThere : ((state.getUser nick).1.channels (irccase name)).isSome := isChannel
  rw [writes]
  exact modesAt_editMembers isThere (irccase nick) { user := (state.getUser nick).2, modes }

/-- One entry: if its nick is found, the member has the modes of the prefixes that are kept.
Otherwise only the member under the empty string changes.
-/
theorem nameEntry_ok (isChannel : (state.channels (irccase name)).isSome)
    (table : state.prefixToMode = prefixToMode) (wellFormed : entry.WellFormed prefixToMode)
    (ends : entry.found = false → prefixToMode [] = none)
    : ∃ state', nameEntry name state (takenOf entry.text) = some state'
        ∧ (state'.channels (irccase name)).isSome ∧ state'.prefixToMode = prefixToMode
        ∧ ∀ key, key ≠ [] →
          if entry.found && irccase entry.nick == key then
            ∃ modes, state'.modesAt name key = some modes
              ∧ { mode | modes mode = true } = modesOf prefixToMode entry.kept
          else state'.modesAt name key = state.modesAt name key := by
  subst table
  cases found : entry.found with
  | true =>
      obtain ⟨modes, stripped, same⟩ := strip_found wellFormed found
      obtain ⟨state', named, channel, table, modesAt⟩ := nameEntry_of_strip isChannel stripped
      refine ⟨state', named, channel, table, fun key _ => ?_⟩
      rw [modesAt, Bool.true_and]
      split
      · rename_i isHere
        rw [if_pos (beq_iff_eq.mp isHere).symm]
        exact ⟨modes, rfl, same⟩
      · rename_i isOther
        rw [if_neg (fun isHere => isOther (beq_iff_eq.mpr isHere.symm))]
  | false =>
      obtain ⟨modes, stripped⟩ := strip_not_found wellFormed found
      rw [ends found] at stripped
      obtain ⟨state', named, channel, table, modesAt⟩ := nameEntry_of_strip isChannel stripped
      refine ⟨state', named, channel, table, fun key nonempty => ?_⟩
      have other : key ≠ irccase [] := nonempty
      rw [modesAt, Bool.false_and, if_neg Bool.false_ne_true, if_neg other]

/-- An entry that ends has a nick that is found, or the empty string is no prefix. -/
theorem ends_of_nameEntry (table : state.prefixToMode = prefixToMode)
    (wellFormed : entry.WellFormed prefixToMode)
    (named : nameEntry name state (takenOf entry.text) = some state')
    : entry.found = false → prefixToMode [] = none := by
  intro notFound
  subst table
  obtain ⟨modes, stripped⟩ := strip_not_found wellFormed notFound
  rw [← Option.not_isSome_iff_eq_none]
  intro isPrefix
  rw [if_pos isPrefix] at stripped
  rw [nameEntry, stripped] at named
  cases named

/-- The last entry of a nick among some more entries. -/
theorem lastFound_cons (entry : PrefixedEntry) (entries : List PrefixedEntry) (key : Bytes)
    : lastFound (entry :: entries) key
      = (lastFound entries key).or
        (if entry.found && irccase entry.nick == key then some entry else none) := by
  rw [lastFound, List.reverse_cons, List.find?_append, List.find?_singleton, lastFound]

/-- The loop ends if the empty string is no prefix or every nick is found. Then each nick has
the modes of its last entry that is found. By induction on the entries.
-/
theorem nameEntries_ok (isChannel : (state.channels (irccase name)).isSome)
    (table : state.prefixToMode = prefixToMode)
    (wellFormed : ∀ entry ∈ entries, entry.WellFormed prefixToMode)
    (ends : ∀ entry ∈ entries, entry.found = false → prefixToMode [] = none)
    : ∃ state', (entries.map (takenOf ·.text)).foldlM (nameEntry name) state = some state'
        ∧ ∀ key, key ≠ [] →
          match lastFound entries key with
          | some last => ∃ modes, state'.modesAt name key = some modes
              ∧ { mode | modes mode = true } = modesOf prefixToMode last.kept
          | none => state'.modesAt name key = state.modesAt name key := by
  induction entries generalizing state with
  | nil => exact ⟨state, rfl, fun key _ => rfl⟩
  | cons entry entries ih =>
      obtain ⟨isEntry, areEntries⟩ := List.forall_mem_cons.mp wellFormed
      obtain ⟨here, later⟩ := List.forall_mem_cons.mp ends
      obtain ⟨middle, named, channel, middleTable, first⟩ :=
        nameEntry_ok isChannel table isEntry here
      obtain ⟨state', loop, rest⟩ := ih channel middleTable areEntries later
      refine ⟨state', ?_, fun key nonempty => ?_⟩
      · rw [List.map_cons, List.foldlM_cons, named]
        exact loop
      · have atRest := rest key nonempty
        have atFirst := first key nonempty
        rw [lastFound_cons]
        cases last : lastFound entries key with
        | some found =>
            rw [last] at atRest
            exact atRest
        | none =>
            rw [last] at atRest
            rw [Option.none_or]
            split at atFirst
            · rename_i isHere
              rw [if_pos isHere]
              exact atRest ▸ atFirst
            · rename_i isOther
              rw [if_neg isOther]
              exact atRest.trans atFirst

/-- If the loop ends then every nick is found or the empty string is no prefix, by induction on
the entries.
-/
theorem ends_of_nameEntries (isChannel : (state.channels (irccase name)).isSome)
    (table : state.prefixToMode = prefixToMode)
    (wellFormed : ∀ entry ∈ entries, entry.WellFormed prefixToMode)
    (loop : (entries.map (takenOf ·.text)).foldlM (nameEntry name) state = some state')
    : ∀ entry ∈ entries, entry.found = false → prefixToMode [] = none := by
  induction entries generalizing state with
  | nil => exact List.forall_mem_nil _
  | cons entry entries ih =>
      obtain ⟨isEntry, areEntries⟩ := List.forall_mem_cons.mp wellFormed
      obtain ⟨middle, named, later⟩ := Option.bind_eq_some_iff.mp loop
      have here := ends_of_nameEntry table isEntry named
      obtain ⟨same, named', channel, middleTable, -⟩ :=
        nameEntry_ok isChannel table isEntry here
      obtain rfl := Option.some.inj (named.symm.trans named')
      exact List.forall_mem_cons.mpr ⟨here, ih channel middleTable areEntries later⟩

-----------------------------------------------------------------------------------------
-- The handler
-----------------------------------------------------------------------------------------

/-- A nick that is not empty has a key that is not empty. -/
theorem irccase_ne_nil {nick : Bytes} (nonempty : nick ≠ []) : irccase nick ≠ [] := by
  rw [irccase, ne_eq, List.map_eq_nil_iff]
  exact nonempty

/-- The handler goes through what the pattern takes of the entries. -/
theorem rplNamreply_eq {irc : Message} {text : Bytes} (isName : irc.arg 3 = some name)
    (isList : irc.arg 4 = some text)
    (listed : Spaced text (entries.map PrefixedEntry.text))
    (wellFormed : ∀ entry ∈ entries, entry.WellFormed prefixToMode)
    : rplNamreply state irc
      = (entries.map (takenOf ·.text)).foldlM (nameEntry name) state := by
  have findable : ∀ word ∈ entries.map PrefixedEntry.text,
      (∃ c ∈ word, endsNick c = false) ∧ ∀ c ∈ word, c ≠ chr ' ' := by
    intro word isIn
    obtain ⟨entry, isEntry, rfl⟩ := List.mem_map.mp isIn
    have isWellFormed := wellFormed entry isEntry
    refine ⟨?_, ?_⟩
    · obtain ⟨c, isIn⟩ := List.exists_mem_of_ne_nil _ isWellFormed.nonempty
      obtain ⟨notBang, notAt, _⟩ := isWellFormed.plain c isIn
      refine ⟨c, ?_, by simp [endsNick, notBang, notAt]⟩
      exact List.mem_append_left _ (List.mem_append_right _ isIn)
    · intro c isIn
      rcases List.mem_append.mp isIn with front | back
      · rcases List.mem_append.mp front with inPrefixes | inNick
        · exact (isWellFormed.prefixes c inPrefixes).2
        · exact (isWellFormed.plain c inNick).2.2
      · rintro rfl
        rcases isWellFormed.userhost with empty | ⟨user, host, isText, inUser, inHost⟩
        · rw [empty] at back
          cases back
        · rw [isText] at back
          rcases List.mem_append.mp back with front | last
          · rcases List.mem_cons.mp front with isBang | later
            · exact absurd isBang (by decide)
            · exact inUser later
          · rcases List.mem_cons.mp last with isAt | later
            · exact absurd isAt (by decide)
            · exact inHost later
  rw [rplNamreply, isName, isList]
  change (gmatch entryPattern text).flatten.foldlM (nameEntry name) state = _
  rw [gmatch, gmatch_spaced listed findable, List.map_map, ← List.flatMap_def]
  exact congrArg (List.foldlM _ state) (List.map_eq_flatMap ..).symm

end Entries

/-- Whatever status prefixes a `PREFIX` token installed: behind a names reply the members have
the modes that it gives them, whatever the client knew of the channel before, exactly if the
prefixes of all its entries are read.
-/
theorem names_modes_iff {prefixToMode : Bytes → Option Bytes} {text : Bytes}
    {entries : List PrefixedEntry} (listed : Spaced text (entries.map PrefixedEntry.text))
    (wellFormed : ∀ entry ∈ entries, entry.WellFormed prefixToMode)
    : (∀ state name irc, state.prefixToMode = prefixToMode →
        (state.channels (irccase name)).isSome → irc.arg 3 = some name →
        irc.arg 4 = some text → ∃ state', rplNamreply state irc = some state'
          ∧ ∀ entry ∈ entries, HasModes prefixToMode state' name entry)
      ↔ PrefixesRead prefixToMode entries := by
  constructor
  · intro holds
    let fresh : IrcState :=
      { IrcState.new [] with prefixToMode, channels := fun _ => some (Channel.new []) }
    have table : fresh.prefixToMode = prefixToMode := rfl
    have isChannel : (fresh.channels (irccase [])).isSome := rfl
    let irc : Message := { nick := none, args := [[], [], [], text] }
    obtain ⟨state', handled, hasModes⟩ := holds fresh [] irc table isChannel rfl rfl
    rw [rplNamreply_eq rfl rfl listed wellFormed] at handled
    have ends := ends_of_nameEntries isChannel table wellFormed handled
    obtain ⟨same, handled', modesAt⟩ := nameEntries_ok isChannel table wellFormed ends
    obtain rfl := Option.some.inj (handled.symm.trans handled')
    refine ⟨fun entry isIn => ?_, ends⟩
    obtain ⟨modes, isMember, areModes⟩ := hasModes entry isIn
    have atNick := modesAt _ (irccase_ne_nil (wellFormed entry isIn).nonempty)
    cases last : lastFound entries (irccase entry.nick) with
    | none =>
        rw [last, isMember] at atNick
        cases atNick
    | some found =>
        rw [last] at atNick
        obtain ⟨modes', isMember', areKept⟩ := atNick
        obtain rfl := Option.some.inj (isMember.symm.trans isMember')
        exact ⟨found, rfl, areKept.symm.trans areModes⟩
  · intro read state name irc table isChannel isName isList
    obtain ⟨state', loop, modesAt⟩ := nameEntries_ok isChannel table wellFormed read.ends
    refine ⟨state', (rplNamreply_eq isName isList listed wellFormed).trans loop, ?_⟩
    intro entry isIn
    obtain ⟨last, isLast, same⟩ := read.reads entry isIn
    have atNick := modesAt _ (irccase_ne_nil (wellFormed entry isIn).nonempty)
    rw [isLast] at atNick
    obtain ⟨modes, isMember, areKept⟩ := atNick
    exact ⟨modes, isMember, areKept.trans same⟩

/-- A client with one channel, whose server announced operators and voices. -/
def prefixedClient : Option IrcState :=
  isupportPrefix
    { IrcState.new (lit "me") with channels := fun _ => some (Channel.new (lit "#c")) }
    (some (.text (lit "(ov)@+")))

/-- A voice and a member without status. -/
def voicedEntries : List PrefixedEntry :=
  [{ prefixes := lit "+", nick := lit "al", userhost := [] },
    { prefixes := [], nick := lit "bo", userhost := lit "!b@host" }]

/-- The voice in a names reply is read. -/
theorem names_modes_iff_witness
    : ∃ client, prefixedClient = some client
      ∧ ∃ state', rplNamreply client {
          nick := none
          args := [lit "me", lit "=", lit "#c", lit "+al bo!b@host"]
        } = some state'
      ∧ ∀ entry ∈ voicedEntries, HasModes client.prefixToMode state' (lit "#c") entry := by
  refine ⟨_, rfl, ?_⟩
  have listed : Spaced (lit "+al" ++ chr ' ' :: (lit "bo!b@host" ++ []))
      (voicedEntries.map PrefixedEntry.text) :=
    .word (by rintro c ⟨⟩; rfl) (.space (.word (by rintro c ⟨⟩) .nil))
  refine (names_modes_iff listed ?_).mpr ?_ _ (lit "#c") _ rfl rfl rfl rfl
  · refine List.forall_mem_cons.mpr ⟨?_, List.forall_mem_singleton.mpr ?_⟩
    · exact ⟨by decide +kernel, by decide, by decide +kernel, by rintro c ⟨⟩; rfl, Or.inl rfl⟩
    · exact ⟨by decide +kernel, by decide, by decide +kernel, by rintro c ⟨⟩; rfl,
        Or.inr ⟨lit "b", lit "host", rfl, by decide, by decide⟩⟩
  · refine ⟨?_, by decide⟩
    exact List.forall_mem_cons.mpr ⟨⟨_, rfl, rfl⟩,
      List.forall_mem_singleton.mpr ⟨_, rfl, rfl⟩⟩

/-- The operator in a names reply is not read, and a nick behind two prefixes is not found. -/
theorem operator_not_read
    : ∃ client, prefixedClient = some client
      ∧ ∃ state', rplNamreply client {
          nick := none
          args := [lit "me", lit "=", lit "#c", lit "@al +@bo"]
        } = some state'
      ∧ ¬ HasModes client.prefixToMode state' (lit "#c")
          { prefixes := lit "@", nick := lit "al", userhost := [] }
      ∧ ¬ HasModes client.prefixToMode state' (lit "#c")
          { prefixes := lit "+@", nick := lit "bo", userhost := [] } := by
  refine ⟨_, rfl, _, rfl, ?_, ?_⟩
  · rintro ⟨modes, isMember, same⟩
    have isOperator : lit "o" ∈ { mode | modes mode = true } := by
      rw [same]
      exact ⟨chr '@', List.mem_singleton_self _, rfl⟩
    obtain rfl := Option.some.inj isMember
    cases isOperator
  · rintro ⟨modes, isMember, _⟩
    cases isMember

end Snowcone.Membership
