import Snowcone.Dashboard.MatchDsl

/-! The grammar of filters and their meaning, and a form of it without repetitions. -/

namespace Snowcone.Dashboard

open Bytes

/-- A filter as a tree. -/
inductive Filter (Regex : Type) where
  | regex (field : Field) (r : Regex)
  | literal (field : Field) (text : Bytes)
  | negation (body : Filter Regex)
  | conjunction (lhs rhs : Filter Regex)
  | disjunction (lhs rhs : Filter Regex)

/-- What a filter says about an entry: a field that is missing counts as the empty string. -/
def Filter.holds {Regex : Type} (exec : Regex → Bytes → Bool)
    : Filter Regex → Entry → Bool
  | .regex field r, entry => exec r (entry.field field).text
  | .literal field text, entry => entry.field field == .string text
  | .negation body, entry => !body.holds exec entry
  | .conjunction lhs rhs, entry => lhs.holds exec entry && rhs.holds exec entry
  | .disjunction lhs rhs, entry => lhs.holds exec entry || rhs.holds exec entry

/-- The word for a field. -/
def Field.name : Field → Bytes
  | .account => lit "account"
  | .asn => lit "asn"
  | .class_ => lit "class"
  | .gecos => lit "gecos"
  | .host => lit "host"
  | .ip => lit "ip"
  | .mask => lit "mask"
  | .nick => lit "nick"
  | .org => lit "org"
  | .reason => lit "reason"
  | .server => lit "server"
  | .user => lit "user"

/-- The symbols of the grammar; the repetitions behind a first part know the filter so far. -/
inductive GrammarSymbol (Regex : Type) where
  | disjunct
  | moreDisjuncts (before : Filter Regex)
  | conjunct
  | moreConjuncts (before : Filter Regex)
  | atom

section Grammar

variable {Regex : Type}

/-- What the grammar derives, with its meaning:
`disjunct := conjunct ('or' disjunct)*`, `conjunct := atom ('and' conjunct)*` and
`atom := '(' disjunct ')' | 'not' atom | field pattern`.
-/
inductive Derives : GrammarSymbol Regex → List (Token Regex) → Filter Regex → Prop
  | disjunct {first more filter whole} (isFirst : Derives .conjunct first filter)
    (isMore : Derives (.moreDisjuncts filter) more whole)
    : Derives .disjunct (first ++ more) whole
  | noMoreDisjuncts {filter} : Derives (.moreDisjuncts filter) [] filter
  | moreDisjuncts {before next filter more whole} (isNext : Derives .disjunct next filter)
    (isMore : Derives (.moreDisjuncts (before.disjunction filter)) more whole)
    : Derives (.moreDisjuncts before) (.word (lit "or") :: next ++ more) whole
  | conjunct {first more filter whole} (isFirst : Derives .atom first filter)
    (isMore : Derives (.moreConjuncts filter) more whole)
    : Derives .conjunct (first ++ more) whole
  | noMoreConjuncts {filter} : Derives (.moreConjuncts filter) [] filter
  | moreConjuncts {before next filter more whole} (isNext : Derives .conjunct next filter)
    (isMore : Derives (.moreConjuncts (before.conjunction filter)) more whole)
    : Derives (.moreConjuncts before) (.word (lit "and") :: next ++ more) whole
  | parentheses {body filter} (isBody : Derives .disjunct body filter)
    : Derives .atom (.opening :: body ++ [.closing]) filter
  | negation {body filter} (isBody : Derives .atom body filter)
    : Derives .atom (.word (lit "not") :: body) filter.negation
  | regex (field : Field) (r : Regex) : Derives .atom [.word field.name, .regex r] (.regex field r)
  | literal (field : Field) (text : Bytes)
    : Derives .atom [.word field.name, .string text] (.literal field text)

/-- The levels of binding. -/
inductive Level where
  | disjunct
  | conjunct
  | atom

/-- The symbol of a level. -/
def Level.symbol : Level → GrammarSymbol Regex
  | .disjunct => .disjunct
  | .conjunct => .conjunct
  | .atom => .atom

/-- The derivations that nest to the right. -/
inductive Nests : Level → List (Token Regex) → Filter Regex → Prop
  | disjunct {tokens filter} (last : Nests .conjunct tokens filter)
    : Nests .disjunct tokens filter
  | or {first rest lhs rhs} (isLhs : Nests .conjunct first lhs) (isRhs : Nests .disjunct rest rhs)
    : Nests .disjunct (first ++ .word (lit "or") :: rest) (lhs.disjunction rhs)
  | conjunct {tokens filter} (last : Nests .atom tokens filter) : Nests .conjunct tokens filter
  | and {first rest lhs rhs} (isLhs : Nests .atom first lhs) (isRhs : Nests .conjunct rest rhs)
    : Nests .conjunct (first ++ .word (lit "and") :: rest) (lhs.conjunction rhs)
  | parentheses {body filter} (isBody : Nests .disjunct body filter)
    : Nests .atom (.opening :: body ++ [.closing]) filter
  | negation {body filter} (isBody : Nests .atom body filter)
    : Nests .atom (.word (lit "not") :: body) filter.negation
  | regex (field : Field) (r : Regex) : Nests .atom [.word field.name, .regex r] (.regex field r)
  | literal (field : Field) (text : Bytes)
    : Nests .atom [.word field.name, .string text] (.literal field text)

/-- What nests to the right is derived, by induction on it. -/
theorem derives_of_nests {level : Level} {tokens : List (Token Regex)} {filter : Filter Regex}
    (nests : Nests level tokens filter)
    : Derives level.symbol tokens filter := by
  induction nests with
  | disjunct _ ih => simpa [Level.symbol] using Derives.disjunct ih .noMoreDisjuncts
  | or _ _ ihLhs ihRhs =>
      simpa [Level.symbol] using Derives.disjunct ihLhs (.moreDisjuncts ihRhs .noMoreDisjuncts)
  | conjunct _ ih => simpa [Level.symbol] using Derives.conjunct ih .noMoreConjuncts
  | and _ _ ihLhs ihRhs =>
      simpa [Level.symbol] using Derives.conjunct ihLhs (.moreConjuncts ihRhs .noMoreConjuncts)
  | parentheses _ ih => exact .parentheses ih
  | negation _ ih => exact .negation ih
  | regex field r => exact .regex field r
  | literal field text => exact .literal field text

variable (exec : Regex → Bytes → Bool)

/-- Conjunctions behind one another nest to the right, by induction on the first one. -/
theorem nests_and {first rest : List (Token Regex)} {lhs rhs : Filter Regex}
    (isLhs : Nests .conjunct first lhs) (isRhs : Nests .conjunct rest rhs)
    : ∃ whole, Nests .conjunct (first ++ .word (lit "and") :: rest) whole
      ∧ whole.holds exec = (lhs.conjunction rhs).holds exec := by
  generalize isConjunct : Level.conjunct = level at isLhs
  induction isLhs with
  | conjunct last => exact ⟨_, .and last isRhs, rfl⟩
  | and isFirst _ _ ih =>
      obtain ⟨whole, nests, same⟩ := ih isConjunct
      refine ⟨_, by simpa using Nests.and isFirst nests, ?_⟩
      funext entry
      simp [Filter.holds, same, Bool.and_assoc]
  | _ => cases isConjunct

/-- Disjunctions behind one another nest to the right, by induction on the first one. -/
theorem nests_or {first rest : List (Token Regex)} {lhs rhs : Filter Regex}
    (isLhs : Nests .disjunct first lhs) (isRhs : Nests .disjunct rest rhs)
    : ∃ whole, Nests .disjunct (first ++ .word (lit "or") :: rest) whole
      ∧ whole.holds exec = (lhs.disjunction rhs).holds exec := by
  generalize isDisjunct : Level.disjunct = level at isLhs
  induction isLhs with
  | disjunct last => exact ⟨_, .or last isRhs, rfl⟩
  | or isFirst _ _ ih =>
      obtain ⟨whole, nests, same⟩ := ih isDisjunct
      refine ⟨_, by simpa using Nests.or isFirst nests, ?_⟩
      funext entry
      simp [Filter.holds, same, Bool.or_assoc]
  | _ => cases isDisjunct

/-- What a derivation of a symbol says about the derivations that nest to the right: there is
one of the same meaning, for repetitions behind any first part.
-/
def HasNested (exec : Regex → Bytes → Bool) (tokens : List (Token Regex)) (filter : Filter Regex)
    : GrammarSymbol Regex → Prop
  | .disjunct => ∃ nested, Nests .disjunct tokens nested ∧ nested.holds exec = filter.holds exec
  | .conjunct => ∃ nested, Nests .conjunct tokens nested ∧ nested.holds exec = filter.holds exec
  | .atom => ∃ nested, Nests .atom tokens nested ∧ nested.holds exec = filter.holds exec
  | .moreDisjuncts before => ∀ first lhs, Nests .disjunct first lhs
      → lhs.holds exec = before.holds exec
      → ∃ nested, Nests .disjunct (first ++ tokens) nested
        ∧ nested.holds exec = filter.holds exec
  | .moreConjuncts before => ∀ first lhs, Nests .conjunct first lhs
      → lhs.holds exec = before.holds exec
      → ∃ nested, Nests .conjunct (first ++ tokens) nested
        ∧ nested.holds exec = filter.holds exec

/-- Every derivation has one that nests to the right, by induction on it. -/
theorem hasNested_of_derives {symbol : GrammarSymbol Regex} {tokens : List (Token Regex)}
    {filter : Filter Regex} (derives : Derives symbol tokens filter)
    : HasNested exec tokens filter symbol := by
  induction derives with
  | disjunct _ _ ihFirst ihMore =>
      obtain ⟨lhs, nests, same⟩ := ihFirst
      exact ihMore _ lhs (.disjunct nests) same
  | noMoreDisjuncts => exact fun first lhs nests same => ⟨lhs, by simpa using nests, same⟩
  | moreDisjuncts _ _ ihNext ihMore =>
      intro first lhs nests same
      obtain ⟨rhs, nestsNext, sameNext⟩ := ihNext
      obtain ⟨both, nestsBoth, sameBoth⟩ := nests_or exec nests nestsNext
      have isWhole := ihMore _ both nestsBoth (by
        rw [sameBoth]
        funext entry
        simp [Filter.holds, same, sameNext])
      simpa using isWhole
  | conjunct _ _ ihFirst ihMore =>
      obtain ⟨lhs, nests, same⟩ := ihFirst
      exact ihMore _ lhs (.conjunct nests) same
  | noMoreConjuncts => exact fun first lhs nests same => ⟨lhs, by simpa using nests, same⟩
  | moreConjuncts _ _ ihNext ihMore =>
      intro first lhs nests same
      obtain ⟨rhs, nestsNext, sameNext⟩ := ihNext
      obtain ⟨both, nestsBoth, sameBoth⟩ := nests_and exec nests nestsNext
      have isWhole := ihMore _ both nestsBoth (by
        rw [sameBoth]
        funext entry
        simp [Filter.holds, same, sameNext])
      simpa using isWhole
  | parentheses _ ih =>
      obtain ⟨nested, nests, same⟩ := ih
      exact ⟨nested, .parentheses nests, same⟩
  | negation _ ih =>
      obtain ⟨nested, nests, same⟩ := ih
      refine ⟨_, .negation nests, ?_⟩
      funext entry
      simp [Filter.holds, same]
  | regex field r => exact ⟨_, .regex field r, rfl⟩
  | literal field text => exact ⟨_, .literal field text, rfl⟩

end Grammar

end Snowcone.Dashboard
