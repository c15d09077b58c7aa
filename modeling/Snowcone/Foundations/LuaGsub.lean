import Snowcone.Foundations.LuaPattern

/-! Lua's global substitution, over any alphabet: the subject is taken apart into what is matched
and what is kept, and the matches are replaced one after the other.
-/

namespace LuaPattern

variable {α : Type}

/-- What global substitution takes a subject apart into. -/
inductive Piece (α : Type) where
  | kept (c : α)
  | matched (captures : List (List α))

/-- The loop of `str_gsub`: where there is no match, or only an empty one where the match before
ended, a character is kept.
-/
def piecesAux (items : List (Item α)) : Nat → List α → Bool → List (Piece α)
  | 0, _, _ => []
  | _ + 1, [], fresh =>
      match matchWhole items [] with
      | some (_, captures) => if fresh then [.matched captures] else []
      | none => []
  | n + 1, c :: rest, fresh =>
      match matchWhole items (c :: rest) with
      | some (_ :: taken, captures) =>
          .matched captures :: piecesAux items n (rest.drop taken.length) false
      | some ([], captures) =>
          (if fresh then [.matched captures] else []) ++ .kept c :: piecesAux items n rest true
      | none => .kept c :: piecesAux items n rest true

/-- The pieces from a place on. -/
def piecesFrom (items : List (Item α)) (subject : List α) (fresh : Bool) : List (Piece α) :=
  piecesAux items (subject.length + 1) subject fresh

/-- The pieces of a subject. -/
def pieces (items : List (Item α)) (subject : List α) : List (Piece α) :=
  piecesFrom items subject true

/-- Replace the matches by what a function makes of their captures. -/
def replace {m : Type → Type} [Monad m] (f : List (List α) → m (List α))
    : List (Piece α) → m (List α)
  | [] => return []
  | .kept c :: pieces => return c :: (← replace f pieces)
  | .matched captures :: pieces => return (← f captures) ++ (← replace f pieces)

/-- `string.gsub` with a function that returns a string. -/
def gsub {m : Type → Type} [Monad m] (items : List (Item α)) (subject : List α)
    (f : List (List α) → m (List α)) : m (List α) :=
  replace f (pieces items subject)

/-- The characters that are kept. -/
def kept : List (Piece α) → List α
  | [] => []
  | .kept c :: pieces => c :: kept pieces
  | .matched _ :: pieces => kept pieces

/-- The captures of the matches. -/
def matched : List (Piece α) → List (List (List α))
  | [] => []
  | .kept _ :: pieces => matched pieces
  | .matched captures :: pieces => captures :: matched pieces

section Pieces

variable {items : List (Item α)} {subject : List α}

/-- A substitution that may move on often enough takes all apart, by induction on how often it
may.
-/
theorem piecesAux_congr {n m : Nat} {fresh : Bool} (enough : subject.length < n)
    (alsoEnough : subject.length < m)
    : piecesAux items n subject fresh = piecesAux items m subject fresh := by
  induction n generalizing m subject fresh with
  | zero => exact absurd enough (Nat.not_lt_zero _)
  | succ n ih =>
      cases m with
      | zero => exact absurd alsoEnough (Nat.not_lt_zero _)
      | succ m =>
          cases subject with
          | nil => rfl
          | cons c rest =>
              have short : rest.length < n := Nat.lt_of_succ_lt_succ enough
              have alsoShort : rest.length < m := Nat.lt_of_succ_lt_succ alsoEnough
              rw [piecesAux, piecesAux]
              rcases matchWhole items (c :: rest) with _ | ⟨_ | ⟨d, taken⟩, captures⟩
              · exact congrArg _ (ih short alsoShort)
              · exact congrArg _ (congrArg _ (ih short alsoShort))
              · have shorter : (rest.drop taken.length).length ≤ rest.length := by
                  rw [List.length_drop]
                  exact Nat.sub_le ..
                exact congrArg _
                  (ih (Nat.lt_of_le_of_lt shorter short) (Nat.lt_of_le_of_lt shorter alsoShort))

/-- Where nothing matches at the end of the subject, there are no more pieces. -/
theorem piecesFrom_nil {fresh : Bool} (nothing : matchWhole items [] = none)
    : piecesFrom items [] fresh = [] := by
  rw [piecesFrom, piecesAux, nothing]

/-- Where nothing matches, a character is kept. -/
theorem piecesFrom_skip {c : α} {fresh : Bool} (nothing : matchWhole items (c :: subject) = none)
    : piecesFrom items (c :: subject) fresh = .kept c :: piecesFrom items subject true := by
  rw [piecesFrom, piecesAux, nothing]
  rfl

/-- Behind a match that is not empty, the substitution goes on where it ends. -/
theorem piecesFrom_take {taken : List α} {captures : List (List α)} {fresh : Bool}
    (nonempty : taken ≠ [])
    (found : matchWhole items (taken ++ subject) = some (taken, captures))
    : piecesFrom items (taken ++ subject) fresh
      = .matched captures :: piecesFrom items subject false := by
  cases taken with
  | nil => exact absurd rfl nonempty
  | cons c taken =>
      rw [List.cons_append] at found ⊢
      rw [piecesFrom, piecesAux, found]
      simp only [List.drop_left]
      refine congrArg _ (piecesAux_congr ?_ (Nat.lt_succ_self _))
      rw [List.length_cons, List.length_append]
      omega

/-- What holds of the end of a subject, and is kept by a character that is not matched and by a
match that is not empty, holds of every subject and its pieces. By induction on the length of the
subject.
-/
theorem piecesFrom_induct {holds : List α → List (Piece α) → Prop}
    (advances : ∀ subject taken captures, matchWhole items subject = some (taken, captures)
      → taken ≠ [] ∧ ∃ rest, subject = taken ++ rest)
    (atEnd : holds [] [])
    (atKept : ∀ c subject pieces, matchWhole items (c :: subject) = none → holds subject pieces
      → holds (c :: subject) (.kept c :: pieces))
    (atMatched : ∀ taken captures rest pieces,
      matchWhole items (taken ++ rest) = some (taken, captures) → holds rest pieces
      → holds (taken ++ rest) (.matched captures :: pieces))
    (subject : List α) (fresh : Bool)
    : holds subject (piecesFrom items subject fresh) := by
  generalize isLength : subject.length = length
  induction length using Nat.strongRecOn generalizing subject fresh with
  | ind length ih =>
      cases found : matchWhole items subject with
      | some whole =>
          obtain ⟨taken, captures⟩ := whole
          obtain ⟨nonempty, rest, rfl⟩ := advances subject taken captures found
          rw [piecesFrom_take nonempty found]
          have positive := List.length_pos_iff.mpr nonempty
          rw [List.length_append] at isLength
          exact atMatched taken captures rest _ found (ih rest.length (by omega) rest false rfl)
      | none =>
          cases subject with
          | nil =>
              rw [piecesFrom_nil found]
              exact atEnd
          | cons c subject =>
              rw [piecesFrom_skip found]
              rw [List.length_cons] at isLength
              exact atKept c subject _ found (ih subject.length (by omega) subject true rfl)

/-- What is matched as a whole takes the subject apart as the items say. -/
theorem fits_of_matchWhole {taken : List α} {captures : List (List α)}
    (found : matchWhole items subject = some (taken, captures))
    : ∃ inner, Fits (.openCapture :: (items ++ [.closeCapture])) subject [] (taken :: inner)
      ∧ captures = if inner.isEmpty then [taken] else inner := by
  rw [matchWhole] at found
  split at found
  · next text inner isFound =>
      obtain ⟨rfl, rfl⟩ := Prod.mk.inj (Option.some.inj found)
      exact ⟨inner, fits_of_matchHere isFound, rfl⟩
  · cases found

/-- A single class takes the next character, if it accepts it. -/
theorem matchWhole_once (accepts : α → Bool) (c : α) (subject : List α)
    : matchWhole [.single accepts .once] (c :: subject)
      = if accepts c then some ([c], [[c]]) else none := by
  cases accepted : accepts c <;>
    simp [matchWhole, stringMatch, matchHere, accepted, extend, finishLast]

/-- Substituting single characters goes through them one by one, by induction on them. -/
theorem pieces_once (accepts : α → Bool) (subject : List α) (fresh : Bool)
    : piecesFrom [.single accepts .once] subject fresh
      = subject.map (fun c => if accepts c then .matched [[c]] else .kept c) := by
  induction subject generalizing fresh with
  | nil => exact piecesFrom_nil rfl
  | cons c subject ih =>
      have found := matchWhole_once accepts c subject
      rw [List.map_cons]
      cases accepted : accepts c with
      | true =>
          rw [accepted, if_pos rfl] at found
          have taken := @piecesFrom_take _ _ subject [c] [[c]] fresh (List.cons_ne_nil _ _) found
          rw [if_pos rfl, ← ih false]
          exact taken
      | false =>
          rw [accepted, if_neg Bool.false_ne_true] at found
          rw [piecesFrom_skip found, if_neg Bool.false_ne_true, ih]

/-- Substituting single characters by texts. -/
theorem gsub_once (accepts : α → Bool) (subject : List α) (f : List (List α) → List α)
    : Id.run (gsub [.single accepts .once] subject (fun captures => pure (f captures)))
      = subject.flatMap (fun c => if accepts c then f [[c]] else [c]) := by
  rw [gsub, pieces, pieces_once]
  induction subject with
  | nil => rfl
  | cons c subject ih =>
      rw [List.map_cons, List.flatMap_cons, ← ih]
      cases accepts c <;> rfl

end Pieces

end LuaPattern
