import Snowcone.Dashboard.MatchGrammar

/-! The parser for filters accepts what the grammar derives, and with the meaning it has. -/

namespace Snowcone.Dashboard

open Bytes

section Methods

variable {Regex : Type} {exec : Regex → Bytes → Bool} {tokens rest : List (Token Regex)}
  {predicate : Entry → Bool}

/-- A method returns a predicate, with some tokens left. -/
def Yields (outcome : Except Failure (Parsed tokens)) (predicate : Entry → Bool)
    (rest : List (Token Regex))
    : Prop :=
  ∃ shorter, outcome = .ok ⟨predicate, rest, shorter⟩

/-- A failure yields nothing. -/
theorem not_yields_failure {expected : Bytes} {found : List (Token Regex)}
    : ¬ Yields (failure expected found : Except Failure (Parsed tokens)) predicate rest := by
  rintro ⟨shorter, raised⟩
  rcases found with _ | ⟨_ | _ | _ | _ | _ | _ | _, found⟩ <;> cases raised

/-- `Parser:atom` at an opening parenthesis. -/
theorem yields_opening_iff
    : Yields (atom exec (.opening :: tokens)) predicate rest
      ↔ Yields (disjunct exec tokens) predicate (.closing :: rest) := by
  rw [atom]
  rcases disjunct exec tokens with failure | ⟨body, _ | ⟨token, after⟩, shorter⟩
  · exact iff_of_false (by rintro ⟨_, ⟨⟩⟩) (by rintro ⟨_, ⟨⟩⟩)
  · exact iff_of_false (by rintro ⟨_, ⟨⟩⟩) (by rintro ⟨_, ⟨⟩⟩)
  · cases token
    case closing =>
      constructor
      · rintro ⟨_, ⟨⟩⟩
        exact ⟨shorter, rfl⟩
      · rintro ⟨_, ⟨⟩⟩
        exact ⟨_, rfl⟩
    all_goals exact iff_of_false (by rintro ⟨_, ⟨⟩⟩) (by rintro ⟨_, ⟨⟩⟩)

/-- `Parser:atom` at the word for a negation. -/
theorem yields_not_iff
    : Yields (atom exec (.word (lit "not") :: tokens)) predicate rest
      ↔ ∃ body, Yields (atom exec tokens) body rest ∧ predicate = fun x => !body x := by
  rw [atom, if_pos rfl]
  rcases atom exec tokens with failure | ⟨body, after, shorter⟩
  · exact iff_of_false (by rintro ⟨_, ⟨⟩⟩) (by rintro ⟨_, ⟨_, ⟨⟩⟩, _⟩)
  · constructor
    · rintro ⟨_, ⟨⟩⟩
      exact ⟨body, ⟨shorter, rfl⟩, rfl⟩
    · rintro ⟨_, ⟨_, ⟨⟩⟩, rfl⟩
      exact ⟨_, rfl⟩

/-- `Parser:atom` at a word for a field, or at any other word. -/
theorem yields_word_iff {lexeme : Bytes} (isField : lexeme ≠ lit "not")
    : Yields (atom exec (.word lexeme :: tokens)) predicate rest
      ↔ ∃ field, cliconFields.lookup lexeme = some field
        ∧ ((∃ r, tokens = .regex r :: rest
              ∧ predicate = fun x => exec r (x.field field).text)
          ∨ ∃ text, tokens = .string text :: rest
              ∧ predicate = fun x => x.field field == .string text) := by
  rw [atom, if_neg isField]
  cases found : cliconFields.lookup lexeme with
  | none => exact iff_of_false not_yields_failure (by simp)
  | some field =>
      rcases tokens with _ | ⟨token, tokens⟩
      · exact iff_of_false not_yields_failure (by simp)
      · cases token
        case regex r =>
          constructor
          · rintro ⟨_, ⟨⟩⟩
            exact ⟨field, rfl, .inl ⟨r, rfl, rfl⟩⟩
          · rintro ⟨_, ⟨⟩, ⟨_, ⟨⟩, rfl⟩ | ⟨_, ⟨⟩, _⟩⟩
            exact ⟨_, rfl⟩
        case string text =>
          constructor
          · rintro ⟨_, ⟨⟩⟩
            exact ⟨field, rfl, .inr ⟨text, rfl, rfl⟩⟩
          · rintro ⟨_, ⟨⟩, ⟨_, ⟨⟩, _⟩ | ⟨_, ⟨⟩, rfl⟩⟩
            exact ⟨_, rfl⟩
        all_goals exact iff_of_false not_yields_failure (by simp)

/-- The tokens behind a word. -/
@[simp] theorem behind_word {word : String}
    : behind word (.word (lit word) :: tokens) = some tokens :=
  if_pos rfl

/-- An operand, and possibly a word and another operand behind it. -/
theorem yields_chained_iff {word : String} {operator : Bool → Bool → Bool}
    {first : Except Failure (Parsed tokens)}
    {operand : (rest : List (Token Regex)) → Except Failure (Parsed rest)}
    : Yields (do
        let lhs ← first
        chained word operator lhs (fun rest _ => operand rest)) predicate rest
      ↔ (Yields first predicate rest ∧ behind word rest = none)
        ∨ ∃ lhs rhs after, Yields first lhs (.word (lit word) :: after)
          ∧ Yields (operand after) rhs rest
          ∧ predicate = fun x => operator (lhs x) (rhs x) := by
  rcases first with failure | ⟨lhs, found, shorter⟩
  · refine iff_of_false (by rintro ⟨_, ⟨⟩⟩) ?_
    rintro (⟨⟨_, ⟨⟩⟩, _⟩ | ⟨_, _, _, ⟨_, ⟨⟩⟩, _⟩)
  change Yields (chained word operator ⟨lhs, found, shorter⟩ (fun rest _ => operand rest))
    predicate rest ↔ _
  rw [chained]
  split
  · next after isWord =>
      obtain rfl := eq_of_behind isWord
      constructor
      · intro yields
        cases outcome : operand after with
        | error failure =>
            rw [outcome] at yields
            obtain ⟨_, ⟨⟩⟩ := yields
        | ok rhs =>
            rw [outcome] at yields
            obtain ⟨_, ⟨⟩⟩ := yields
            exact .inr ⟨lhs, rhs.predicate, after, ⟨shorter, rfl⟩, ⟨rhs.shorter, outcome⟩, rfl⟩
      · rintro (⟨⟨_, ⟨⟩⟩, noWord⟩ | ⟨_, rhs, _, ⟨_, ⟨⟩⟩, ⟨_, outcome⟩, rfl⟩)
        · simp at noWord
        · rw [outcome]
          exact ⟨_, rfl⟩
  · next noWord =>
    constructor
    · rintro ⟨_, ⟨⟩⟩
      exact .inl ⟨⟨shorter, rfl⟩, noWord⟩
    · rintro (⟨⟨_, ⟨⟩⟩, _⟩ | ⟨_, _, _, ⟨_, ⟨⟩⟩, _⟩)
      · exact ⟨shorter, rfl⟩
      · simp at noWord

/-- `Parser:conjunct` -/
theorem yields_conjunct_iff
    : Yields (conjunct exec tokens) predicate rest
      ↔ (Yields (atom exec tokens) predicate rest ∧ behind "and" rest = none)
        ∨ ∃ lhs rhs after, Yields (atom exec tokens) lhs (.word (lit "and") :: after)
          ∧ Yields (conjunct exec after) rhs rest
          ∧ predicate = fun x => lhs x && rhs x := by
  rw [conjunct]
  exact yields_chained_iff

/-- `Parser:disjunct` -/
theorem yields_disjunct_iff
    : Yields (disjunct exec tokens) predicate rest
      ↔ (Yields (conjunct exec tokens) predicate rest ∧ behind "or" rest = none)
        ∨ ∃ lhs rhs after, Yields (conjunct exec tokens) lhs (.word (lit "or") :: after)
          ∧ Yields (disjunct exec after) rhs rest
          ∧ predicate = fun x => lhs x || rhs x := by
  rw [disjunct]
  exact yields_chained_iff

end Methods

-----------------------------------------------------------------------------------------
-- Correctness of the methods
-----------------------------------------------------------------------------------------

section Correctness

variable {Regex : Type} {exec : Regex → Bytes → Bool} {tokens rest : List (Token Regex)}
  {predicate : Entry → Bool}

/-- The words for the fields. -/
theorem cliconFields_eq_some_iff {lexeme : Bytes} {field : Field}
    : cliconFields.lookup lexeme = some field ↔ lexeme = field.name := by
  constructor
  · intro found
    obtain ⟨before, after, split, -⟩ := List.lookup_eq_some_iff.mp found
    have named : ∀ entry ∈ cliconFields, entry.1 = entry.2.name := by decide
    exact named (lexeme, field) (split ▸ List.mem_append_right before List.mem_cons_self)
  · rintro rfl
    cases field <;> decide

/-- The method for a level. -/
def method (exec : Regex → Bytes → Bool) (tokens : List (Token Regex))
    : Level → Except Failure (Parsed tokens)
  | .disjunct => disjunct exec tokens
  | .conjunct => conjunct exec tokens
  | .atom => atom exec tokens

/-- What may follow at a level: no word that would go on there. -/
def MayFollow (rest : List (Token Regex)) : Level → Prop
  | .disjunct => behind "and" rest = none ∧ behind "or" rest = none
  | .conjunct => behind "and" rest = none
  | .atom => True

/-- A word that is another one. -/
theorem behind_other {word other : String} (differs : lit other ≠ lit word)
    : behind word (.word (lit other) :: tokens) = none :=
  if_neg differs

/-- Completeness: the methods take what nests to the right, by induction on it. -/
theorem yields_of_nests {level : Level} {filter : Filter Regex}
    (nests : Nests level tokens filter) (follows : MayFollow rest level)
    : Yields (method exec (tokens ++ rest) level) (filter.holds exec) rest := by
  induction nests generalizing rest with
  | disjunct _ ih => exact yields_disjunct_iff.mpr (.inl ⟨ih follows.1, follows.2⟩)
  | or _ _ ihLhs ihRhs =>
      rw [List.append_assoc]
      exact yields_disjunct_iff.mpr
        (.inr ⟨_, _, _, ihLhs (behind_other (by decide)), ihRhs follows, rfl⟩)
  | conjunct _ ih => exact yields_conjunct_iff.mpr (.inl ⟨ih trivial, follows⟩)
  | and _ _ ihLhs ihRhs =>
      rw [List.append_assoc]
      exact yields_conjunct_iff.mpr (.inr ⟨_, _, _, ihLhs trivial, ihRhs follows, rfl⟩)
  | parentheses _ ih =>
      rw [List.append_assoc]
      exact yields_opening_iff.mpr (ih ⟨rfl, rfl⟩)
  | negation _ ih => exact yields_not_iff.mpr ⟨_, ih trivial, rfl⟩
  | regex field r =>
      refine (yields_word_iff ?_).mpr
        ⟨field, cliconFields_eq_some_iff.mpr rfl, .inl ⟨r, rfl, rfl⟩⟩
      cases field <;> decide
  | literal field text =>
      refine (yields_word_iff ?_).mpr
        ⟨field, cliconFields_eq_some_iff.mpr rfl, .inr ⟨text, rfl, rfl⟩⟩
      cases field <;> decide

/-- What a method took: tokens that nest to the right, with the meaning of the predicate. -/
def Took (exec : Regex → Bytes → Bool) (level : Level) (tokens : List (Token Regex))
    (predicate : Entry → Bool) (rest : List (Token Regex))
    : Prop :=
  ∃ taken filter, tokens = taken ++ rest ∧ Nests level taken filter
    ∧ predicate = filter.holds exec

/-- What `atom` took, if `disjunct` and `atom` are sound for fewer tokens. -/
theorem took_of_atom
    (soundDisjunct : ∀ fewer, fewer.length < tokens.length → ∀ predicate rest,
      Yields (disjunct exec fewer) predicate rest → Took exec .disjunct fewer predicate rest)
    (soundAtom : ∀ fewer, fewer.length < tokens.length → ∀ predicate rest,
      Yields (atom exec fewer) predicate rest → Took exec .atom fewer predicate rest)
    (yields : Yields (atom exec tokens) predicate rest)
    : Took exec .atom tokens predicate rest := by
  rcases tokens with _ | ⟨token, tokens⟩
  · rw [atom] at yields
    · exact absurd yields not_yields_failure
    all_goals simp
  have fewer : tokens.length < (token :: tokens).length := Nat.lt_succ_self _
  cases token
  case opening =>
    obtain ⟨body, filter, rfl, nests, rfl⟩ :=
      soundDisjunct tokens fewer _ _ (yields_opening_iff.mp yields)
    exact ⟨_, filter, by simp, .parentheses nests, rfl⟩
  case word lexeme =>
    by_cases isNot : lexeme = lit "not"
    · subst isNot
      obtain ⟨body, yieldsBody, rfl⟩ := yields_not_iff.mp yields
      obtain ⟨taken, filter, rfl, nests, rfl⟩ := soundAtom tokens fewer _ _ yieldsBody
      exact ⟨_, _, rfl, .negation nests, rfl⟩
    · obtain ⟨field, isField, ofPattern⟩ := (yields_word_iff isNot).mp yields
      obtain rfl := cliconFields_eq_some_iff.mp isField
      rcases ofPattern with ⟨r, rfl, rfl⟩ | ⟨text, rfl, rfl⟩
      · exact ⟨_, _, rfl, .regex field r, rfl⟩
      · exact ⟨_, _, rfl, .literal field text, rfl⟩
  all_goals
    rw [atom] at yields
    · exact absurd yields not_yields_failure
    all_goals simp

/-- What a method took that chains operands of a narrower level with a word, if the narrower
method is sound, and the wider one for fewer tokens.
-/
theorem took_of_chained {word : String} {wide narrow : Level} {operator : Bool → Bool → Bool}
    {combine : Filter Regex → Filter Regex → Filter Regex}
    (one : ∀ {taken : List (Token Regex)} {filter}, Nests narrow taken filter
      → Nests wide taken filter)
    (two : ∀ {first second : List (Token Regex)} {lhs rhs}, Nests narrow first lhs
      → Nests wide second rhs
      → Nests wide (first ++ .word (lit word) :: second) (combine lhs rhs))
    (meaning : ∀ lhs rhs, (combine lhs rhs).holds exec
      = fun x => operator (lhs.holds exec x) (rhs.holds exec x))
    (soundWide : ∀ fewer, fewer.length < tokens.length → ∀ predicate rest,
      Yields (method exec fewer wide) predicate rest → Took exec wide fewer predicate rest)
    (soundNarrow : ∀ predicate rest,
      Yields (method exec tokens narrow) predicate rest → Took exec narrow tokens predicate rest)
    (yields : Yields (method exec tokens narrow) predicate rest
      ∨ ∃ lhs rhs after, Yields (method exec tokens narrow) lhs (.word (lit word) :: after)
        ∧ Yields (method exec after wide) rhs rest
        ∧ predicate = fun x => operator (lhs x) (rhs x))
    : Took exec wide tokens predicate rest := by
  rcases yields with alone | ⟨lhs, rhs, after, yieldsLhs, yieldsRhs, rfl⟩
  · obtain ⟨taken, filter, rfl, nests, rfl⟩ := soundNarrow _ _ alone
    exact ⟨taken, filter, rfl, one nests, rfl⟩
  · obtain ⟨first, filter, rfl, nests, rfl⟩ := soundNarrow _ _ yieldsLhs
    have fewer : after.length < (first ++ .word (lit word) :: after).length := by
      rw [List.length_append, List.length_cons]
      omega
    obtain ⟨second, other, rfl, nestsOther, rfl⟩ := soundWide after fewer _ _ yieldsRhs
    exact ⟨_, _, by simp, two nests nestsOther, (meaning filter other).symm⟩

/-- Soundness: what the methods take nests to the right, by induction on how many tokens there
are, and for these level by level.
-/
theorem took_of_yields (level : Level) (tokens : List (Token Regex)) (predicate : Entry → Bool)
    (rest : List (Token Regex)) (yields : Yields (method exec tokens level) predicate rest)
    : Took exec level tokens predicate rest := by
  induction count : tokens.length using Nat.strong_induction_on generalizing level tokens
    predicate rest with
  | _ n ih =>
      subst count
      have soundAtom (predicate rest)
          (yields : Yields (atom exec tokens) predicate rest)
        : Took exec .atom tokens predicate rest :=
        took_of_atom (fun fewer isFewer _ _ yields => ih _ isFewer .disjunct _ _ _ yields rfl)
          (fun fewer isFewer _ _ yields => ih _ isFewer .atom _ _ _ yields rfl) yields
      have soundConjunct (predicate rest)
          (yields : Yields (conjunct exec tokens) predicate rest)
        : Took exec .conjunct tokens predicate rest :=
        took_of_chained .conjunct .and (fun _ _ => rfl)
          (fun fewer isFewer _ _ yields => ih _ isFewer .conjunct _ _ _ yields rfl)
          soundAtom ((yields_conjunct_iff.mp yields).imp_left And.left)
      cases level with
      | atom => exact soundAtom _ _ yields
      | conjunct => exact soundConjunct _ _ yields
      | disjunct =>
          exact took_of_chained .disjunct .or (fun _ _ => rfl)
            (fun fewer isFewer _ _ yields => ih _ isFewer .disjunct _ _ _ yields rfl)
            soundConjunct ((yields_disjunct_iff.mp yields).imp_left And.left)

end Correctness

-----------------------------------------------------------------------------------------
-- The whole parser
-----------------------------------------------------------------------------------------

section Whole

variable {Regex : Type} {exec : Regex → Bytes → Bool} {tokens : List (Token Regex)}
  {predicate : Entry → Bool}

/-- The parser accepts what a disjunct takes without anything left over. -/
theorem top_eq_ok_iff
    : top exec tokens = .ok predicate ↔ Yields (disjunct exec tokens) predicate [] := by
  rw [top]
  rcases disjunct exec tokens with failure | ⟨found, _ | ⟨token, rest⟩, shorter⟩
  · exact iff_of_false (by rintro ⟨⟩) (by rintro ⟨_, ⟨⟩⟩)
  · constructor
    · rintro ⟨⟩
      exact ⟨shorter, rfl⟩
    · rintro ⟨_, ⟨⟩⟩
      rfl
  · refine iff_of_false ?_ (by rintro ⟨_, ⟨⟩⟩)
    cases token <;> rintro ⟨⟩

/-- The parser accepts what nests to the right as a disjunct. -/
theorem top_of_nests {filter : Filter Regex} (nests : Nests .disjunct tokens filter)
    : top exec tokens = .ok (filter.holds exec) := by
  have yields : Yields (method exec (tokens ++ []) .disjunct) (filter.holds exec) [] :=
    yields_of_nests nests ⟨rfl, rfl⟩
  rw [List.append_nil] at yields
  exact top_eq_ok_iff.mpr yields

/-- The tokens of a filter, with parentheses where its operator binds weaker than the level. -/
def print : Level → Filter Regex → List (Token Regex)
  | _, .regex field r => [.word field.name, .regex r]
  | _, .literal field text => [.word field.name, .string text]
  | _, .negation body => .word (lit "not") :: print .atom body
  | level, .conjunction lhs rhs =>
      let tokens := print .atom lhs ++ .word (lit "and") :: print .conjunct rhs
      match level with
      | .atom => .opening :: tokens ++ [.closing]
      | _ => tokens
  | level, .disjunction lhs rhs =>
      let tokens := print .conjunct lhs ++ .word (lit "or") :: print .disjunct rhs
      match level with
      | .disjunct => tokens
      | _ => .opening :: tokens ++ [.closing]

/-- What is an atom is also there at the other levels. -/
theorem nests_of_atom {filter : Filter Regex} (nests : Nests .atom tokens filter) (level : Level)
    : Nests level tokens filter := by
  cases level with
  | atom => exact nests
  | conjunct => exact .conjunct nests
  | disjunct => exact .disjunct (.conjunct nests)

/-- The tokens of a filter nest to the right, by induction on the filter. -/
theorem nests_print (level : Level) (filter : Filter Regex)
    : Nests level (print level filter) filter := by
  induction filter generalizing level with
  | regex field r => exact nests_of_atom (.regex field r) level
  | literal field text => exact nests_of_atom (.literal field text) level
  | negation body ih => exact nests_of_atom (.negation (ih .atom)) level
  | conjunction lhs rhs ihLhs ihRhs =>
      have both := Nests.and (ihLhs .atom) (ihRhs .conjunct)
      cases level with
      | atom => exact .parentheses (.disjunct both)
      | conjunct => exact both
      | disjunct => exact .disjunct both
  | disjunction lhs rhs ihLhs ihRhs =>
      have both := Nests.or (ihLhs .conjunct) (ihRhs .disjunct)
      cases level with
      | atom => exact .parentheses both
      | conjunct => exact .conjunct (.parentheses both)
      | disjunct => exact both

/-- The parser accepts exactly what the grammar derives with nothing left over, and the
predicate has the meaning of every derivation; it raises an error for everything else. What
it makes of the tokens of a filter is the meaning of the filter.
-/
theorem parser_correct (exec : Regex → Bytes → Bool)
    : (∀ tokens filter, Derives .disjunct tokens filter
        → top exec tokens = .ok (filter.holds exec))
      ∧ (∀ tokens predicate, top exec tokens = .ok predicate
        → ∃ filter, Derives .disjunct tokens filter ∧ predicate = filter.holds exec)
      ∧ (∀ tokens, (¬ ∃ filter, Derives .disjunct tokens filter)
        → ∃ failure, top exec tokens = .error failure)
      ∧ ∀ filter, top exec (print .disjunct filter) = .ok (filter.holds exec) := by
  have sound (tokens predicate) (accepted : top exec tokens = .ok predicate)
    : ∃ filter, Derives .disjunct tokens filter ∧ predicate = filter.holds exec := by
    obtain ⟨taken, filter, rfl, nests, rfl⟩ :=
      took_of_yields .disjunct tokens predicate [] (top_eq_ok_iff.mp accepted)
    rw [List.append_nil]
    exact ⟨filter, derives_of_nests nests, rfl⟩
  refine ⟨?_, sound, ?_, fun filter => top_of_nests (nests_print .disjunct filter)⟩
  · intro tokens filter derives
    obtain ⟨nested, nests, same⟩ := hasNested_of_derives exec derives
    rw [← same]
    exact top_of_nests nests
  · intro tokens notDerived
    cases outcome : top exec tokens with
    | error failure => exact ⟨failure, rfl⟩
    | ok predicate =>
        obtain ⟨filter, derives, -⟩ := sound tokens predicate outcome
        exact absurd ⟨filter, derives⟩ notDerived

end Whole

end Snowcone.Dashboard
