import Mathlib.Data.String.Basic
import Snowcone.Foundations.BestOf

/-! The key that jumps to the next buffer with activity. In which order the buffers are looked at
does not matter, unless the current target is among the candidates.
-/

namespace Snowcone.Chat.JumpToActivity

open BestOf

/-- The fields of a `Buffer` that the key looks at. -/
structure Buffer where
  activity : Nat
  mention : Bool

section Handler

variable {Name : Type} [LinearOrder Name]

/-- The comparison with the best target, for buffers that are alike in mentions. -/
def comesFirst (current best k : Name) : Bool :=
  decide (best < current) && decide (current < k)
    || decide (current < best) == decide (current < k) && decide (k < best)

/-- What the loop does with a buffer; `best` are the best target and its mention. -/
def consider (current : Name) (best : Option (Name × Bool)) (entry : Name × Buffer)
    : Option (Name × Bool) :=
  let (k, buffer) := entry
  if 0 < buffer.activity then
    match best with
    | none => some (k, buffer.mention)
    | some (bestTarget, bestMention) =>
        if buffer.mention && !bestMention
          || buffer.mention == bestMention && comesFirst current bestTarget k
        then some (k, buffer.mention)
        else best
  else best

/-- The target that the key jumps to, if there is one; `pairs` enumerates the buffers in some
order, and the empty name stands for no current target.
-/
def jumpTarget (empty : Name) (talkTarget : Option Name) (buffers : List (Name × Buffer))
    : Option Name :=
  (buffers.foldl (consider (talkTarget.getD empty)) none).map Prod.fst

-----------------------------------------------------------------------------------------
-- What the key is for
-----------------------------------------------------------------------------------------

/-- The buffers with activity, or those of them with mentions if there are any. -/
def tier (buffers : List (Name × Buffer)) : List Name :=
  let active := buffers.filter (fun entry => decide (0 < entry.2.activity))
  let mentioned := active.filter (fun entry => entry.2.mention)
  (if mentioned = [] then active else mentioned).map Prod.fst

/-- Going on from the current name: the names behind it, then those before it, then itself. -/
def turn (current k : Name) : Nat := if current < k then 0 else if k < current then 1 else 2

/-- The place of a name, going on from the current one in alphabetical order. -/
def place (current k : Name) : Nat ×ₗ Name := toLex (turn current k, k)

/-- What should be chosen: the first name of the tier, going on from the current one. -/
def IsChosen (current : Name) (buffers : List (Name × Buffer)) : Option Name → Prop
  | none => tier buffers = []
  | some target => IsBest (place current) (tier buffers) target

/-- The same target is chosen in every order, and it is the one that should be. -/
def ChoosesNext (empty : Name) (talkTarget : Option Name) (buffers : List (Name × Buffer)) : Prop :=
  ∃ chosen, IsChosen (talkTarget.getD empty) buffers chosen
    ∧ ∀ order, order.Perm buffers → jumpTarget empty talkTarget order = chosen

-----------------------------------------------------------------------------------------
-- Comparing names
-----------------------------------------------------------------------------------------

/-- The comparison is that of the places, unless the best target is the current one and the name
is behind it. The cases are the orders of the three names.
-/
theorem comesFirst_iff (current best k : Name)
    : comesFirst current best k = true
      ↔ place current k < place current best ∧ ¬(best = current ∧ current < k) := by
  rw [place, place, Prod.Lex.toLex_lt_toLex]
  simp only [comesFirst, turn, Bool.or_eq_true, Bool.and_eq_true, beq_iff_eq, decide_eq_true_eq,
    decide_eq_decide]
  grind

/-- The place tells the name. -/
theorem place_injective (current : Name) : Function.Injective (place current) :=
  fun _ _ same => (Prod.mk.inj (toLex.injective same)).2

/-- A name behind the current one has a lower place than any that is not. -/
theorem behind_of_place_le {current best k : Name} (isBehind : current < k)
    (before : place current best ≤ place current k)
    : current < best := by
  by_contra notBehind
  refine absurd before (not_le.mpr ?_)
  rw [place, place, Prod.Lex.toLex_lt_toLex]
  left
  simp only [turn, if_pos isBehind, if_neg notBehind]
  split <;> decide

-----------------------------------------------------------------------------------------
-- The loop chooses from the tier
-----------------------------------------------------------------------------------------

/-- The comparison of two buffers with activity, each a name and whether there is a mention. -/
def better (current : Name) (best next : Name × Bool) : Bool :=
  next.2 && !best.2 || next.2 == best.2 && comesFirst current best.1 next.1

/-- The buffers with activity. -/
def actives (buffers : List (Name × Buffer)) : List (Name × Bool) :=
  (buffers.filter (fun entry => decide (0 < entry.2.activity))).map
    (fun entry => (entry.1, entry.2.mention))

/-- The loop chooses from the buffers with activity. -/
theorem foldl_consider (current : Name) (buffers : List (Name × Buffer))
    (best : Option (Name × Bool))
    : buffers.foldl (consider current) best = choose (better current) best (actives buffers) := by
  induction buffers generalizing best with
  | nil => rfl
  | cons entry buffers ih =>
      obtain ⟨k, buffer⟩ := entry
      rw [List.foldl_cons, ih, actives, actives]
      by_cases isActive : 0 < buffer.activity
      · rw [List.filter_cons_of_pos (by simpa using isActive), List.map_cons, choose, choose,
          List.foldl_cons]
        congr 1
        cases best with
        | none => simp only [consider, if_pos isActive, keep]
        | some best =>
            simp only [consider, if_pos isActive, keep, better]
            rfl
      · rw [List.filter_cons_of_neg (by simpa using isActive)]
        simp only [consider, if_neg isActive]

omit [LinearOrder Name] in
/-- The tier, from the buffers with activity. -/
theorem tier_eq (buffers : List (Name × Buffer))
    : tier buffers
      = (if (actives buffers).filter Prod.snd = [] then actives buffers
          else (actives buffers).filter Prod.snd).map Prod.fst := by
  have named : ∀ entries : List (Name × Buffer),
      (entries.map (fun entry => (entry.1, entry.2.mention))).map Prod.fst
        = entries.map Prod.fst :=
    fun entries => List.map_map
  rw [tier, actives, List.filter_map]
  simp only [List.map_eq_nil_iff, ← apply_ite (List.map _), named]
  rfl

/-- Among buffers that are alike in mentions, the names are compared. -/
theorem choose_alike (current : Name) {entries : List (Name × Bool)} (mention : Bool)
    (alike : ∀ entry ∈ entries, entry.2 = mention)
    : (choose (better current) none entries).map Prod.fst
      = choose (comesFirst current) none (entries.map Prod.fst) := by
  have named : entries = (entries.map Prod.fst).map (fun k => (k, mention)) := by
    rw [List.map_map]
    exact (List.map_id entries).symm.trans
      (List.map_congr_left fun entry isEntry => Prod.ext rfl (alike entry isEntry))
  have images := @choose_map _ (better current) _ (fun k => (k, mention))
    (entries.map Prod.fst) none
  rw [← named, Option.map_none] at images
  have same : (fun a b : Name => better current (a, mention) (b, mention))
      = comesFirst current := by
    funext a b
    simp [better]
  rw [images, same, Option.map_map]
  exact Option.map_id'

/-- The key jumps to the choice from the tier. -/
theorem jumpTarget_eq (empty : Name) (talkTarget : Option Name) (buffers : List (Name × Buffer))
    : jumpTarget empty talkTarget buffers
      = choose (comesFirst (talkTarget.getD empty)) none (tier buffers) := by
  rw [jumpTarget, foldl_consider, tier_eq]
  by_cases mentions : (actives buffers).filter Prod.snd = []
  · rw [if_pos mentions]
    refine choose_alike _ false fun entry isActive => ?_
    exact Bool.eq_false_iff.mpr (List.filter_eq_nil_iff.mp mentions entry isActive)
  · rw [if_neg mentions, choose_filter ?_ ?_ mentions none rfl]
    · exact choose_alike _ true fun entry isMention =>
        (List.mem_filter.mp isMention).2
    · intro a b isPrior isNot
      simp [better, isPrior, isNot]
    · intro a b isNot isPrior
      simp [better, isPrior, isNot]

-----------------------------------------------------------------------------------------
-- The order of the buffers
-----------------------------------------------------------------------------------------

omit [LinearOrder Name] in
/-- Which buffers make the tier does not depend on their order. -/
theorem tier_perm (buffers : List (Name × Buffer))
    : ∃ isIn : Name × Buffer → Bool, ∀ order, order.Perm buffers →
        tier order = (order.filter isIn).map Prod.fst := by
  by_cases mentions :
      (buffers.filter (fun entry => decide (0 < entry.2.activity))).filter
        (fun entry => entry.2.mention) = []
  · refine ⟨fun entry => decide (0 < entry.2.activity), fun order isOrder => ?_⟩
    rw [tier, if_pos]
    exact List.Perm.eq_nil (mentions ▸ (isOrder.filter _).filter _)
  · refine ⟨fun entry => entry.2.mention && decide (0 < entry.2.activity),
      fun order isOrder => ?_⟩
    rw [tier, if_neg, List.filter_filter]
    exact fun none => mentions (List.Perm.eq_nil (none ▸ ((isOrder.filter _).filter _).symm))

omit [LinearOrder Name] in
/-- The same names make the tier in every order. -/
theorem perm_tier {order buffers : List (Name × Buffer)} (isOrder : order.Perm buffers)
    : (tier order).Perm (tier buffers) := by
  obtain ⟨isIn, tierIs⟩ := tier_perm buffers
  rw [tierIs order isOrder, tierIs buffers (List.Perm.refl buffers)]
  exact (isOrder.filter _).map _

omit [LinearOrder Name] in
/-- The names of some buffers that stand on one side of the current one come together. -/
theorem side_of_mem {isIn : Name × Buffer → Bool} (isSide : Name → Bool)
    {buffers : List (Name × Buffer)} {k : Name}
    (isElement : k ∈ ((buffers.filter (fun entry => isSide entry.1)).filter isIn).map Prod.fst)
    : isSide k = true := by
  obtain ⟨entry, isEntry, rfl⟩ := List.mem_map.mp isElement
  exact (List.mem_filter.mp (List.mem_filter.mp isEntry).1).2

/-- An order in which the current target comes first, then the names that are not before it, and
those before it last.
-/
def currentFirst (current : Name) (buffers : List (Name × Buffer)) : List (Name × Buffer) :=
  buffers.filter (fun entry => decide (entry.1 = current))
    ++ (buffers.filter (fun entry => decide (current < entry.1))
      ++ buffers.filter (fun entry => decide (entry.1 < current)))

/-- It is an order of the buffers. -/
theorem currentFirst_perm (current : Name) (buffers : List (Name × Buffer))
    : (currentFirst current buffers).Perm buffers := by
  have apart : buffers.filter (fun entry => decide (current < entry.1))
      = (buffers.filter (fun entry => !decide (entry.1 = current))).filter
          (fun entry => decide (current < entry.1)) := by
    rw [List.filter_filter]
    refine List.filter_congr fun entry _ => ?_
    grind
  have before : buffers.filter (fun entry => decide (entry.1 < current))
      = (buffers.filter (fun entry => !decide (entry.1 = current))).filter
          (fun entry => !decide (current < entry.1)) := by
    rw [List.filter_filter]
    refine List.filter_congr fun entry _ => ?_
    grind
  rw [currentFirst, apart, before]
  exact ((List.filter_append_perm _ _).append_left _).trans (List.filter_append_perm _ _)

/-- In that order no name behind the current one is chosen. -/
theorem not_behind_of_currentFirst {current target : Name} {buffers : List (Name × Buffer)}
    (isCandidate : current ∈ tier buffers)
    (chooses : choose (comesFirst current) none (tier (currentFirst current buffers))
      = some target)
    : ¬current < target := by
  obtain ⟨isIn, tierIs⟩ := tier_perm buffers
  have candidates := tierIs buffers (List.Perm.refl buffers)
  have parts := tierIs _ (currentFirst_perm current buffers)
  rw [currentFirst, List.filter_append, List.filter_append, List.map_append,
    List.map_append] at parts
  rw [currentFirst, parts] at chooses
  obtain ⟨entry, isEntry, isCurrent⟩ := List.mem_map.mp (candidates ▸ isCandidate)
  obtain ⟨isBuffer, entryIsIn⟩ := List.mem_filter.mp isEntry
  have isFirst : entry ∈ (buffers.filter (fun entry => decide (entry.1 = current))).filter isIn :=
    List.mem_filter.mpr ⟨List.mem_filter.mpr ⟨isBuffer, decide_eq_true isCurrent⟩, entryIsIn⟩
  obtain ⟨first, names, isFirst⟩ :=
    List.exists_cons_of_ne_nil (List.ne_nil_of_mem (List.mem_map_of_mem (f := Prod.fst) isFirst))
  have same : ∀ k ∈ first :: names, k = current := fun k isElement =>
    of_decide_eq_true (side_of_mem (fun k => decide (k = current)) (isFirst ▸ isElement))
  obtain rfl := same first List.mem_cons_self
  rw [isFirst, List.cons_append, choose, List.foldl_cons, keep, ← choose, ← List.append_assoc,
    choose, List.foldl_append, ← choose, ← choose, choose_stays] at chooses
  · rcases List.mem_cons.mp (mem_of_choose chooses) with rfl | isLater
    · exact lt_irrefl _
    · exact (of_decide_eq_true (side_of_mem (fun k => decide (k < first))
        isLater)).not_gt
  · intro k isElement
    rw [Bool.eq_false_iff, Ne, comesFirst_iff]
    rintro ⟨before, notBehind⟩
    rcases List.mem_append.mp isElement with isElement | isElement
    · obtain rfl := same k (List.mem_cons_of_mem _ isElement)
      exact lt_irrefl _ before
    · exact notBehind ⟨rfl, of_decide_eq_true
        (side_of_mem (fun k => decide (first < k)) isElement)⟩

/-- Where the comparison is that of the places, the first of the tier is chosen in every order. -/
theorem choosesNext_of_compares {empty : Name} {talkTarget : Option Name}
    {buffers : List (Name × Buffer)}
    (compares : ¬(talkTarget.getD empty ∈ tier buffers
      ∧ ∃ k ∈ tier buffers, talkTarget.getD empty < k))
    : ChoosesNext empty talkTarget buffers := by
  have chosen : ∀ order, order.Perm buffers → tier buffers ≠ [] →
      ∃ target, jumpTarget empty talkTarget order = some target
        ∧ IsBest (place (talkTarget.getD empty)) (tier order) target := by
    intro order isOrder notEmpty
    rw [jumpTarget_eq]
    refine choose_none (fun noCandidates => notEmpty ?_) fun a isA b isB => ?_
    · have empties := (perm_tier isOrder).symm
      rw [noCandidates] at empties
      exact empties.eq_nil
    · rw [comesFirst_iff, and_iff_left_iff_imp]
      rintro - ⟨rfl, isBehind⟩
      exact compares ⟨(perm_tier isOrder).subset isA, b, (perm_tier isOrder).subset isB, isBehind⟩
  by_cases noCandidates : tier buffers = []
  · refine ⟨none, noCandidates, fun order isOrder => ?_⟩
    have empties := perm_tier isOrder
    rw [noCandidates] at empties
    rw [jumpTarget_eq, empties.eq_nil]
    rfl
  · obtain ⟨target, -, isBest⟩ := chosen buffers (List.Perm.refl buffers) noCandidates
    refine ⟨some target, isBest, fun order isOrder => ?_⟩
    obtain ⟨target', jumps, isBest'⟩ := chosen order isOrder noCandidates
    rw [jumps, isBest'.unique isBest (fun _ => (perm_tier isOrder).mem_iff) (place_injective _)]

/-- The key selects the same buffer in every order, and it is the first one of its tier going on
from the current target, if and only if the current target is not itself a candidate that has
another one behind it.
-/
theorem choosesNext_iff (empty : Name) (talkTarget : Option Name)
    (buffers : List (Name × Buffer))
    : ChoosesNext empty talkTarget buffers
      ↔ ¬(talkTarget.getD empty ∈ tier buffers
        ∧ ∃ k ∈ tier buffers, talkTarget.getD empty < k) := by
  refine ⟨?_, choosesNext_of_compares⟩
  rintro ⟨chosen, isChosen, jumps⟩ ⟨isCandidate, k, isElement, isBehind⟩
  have jump := jumps _ (currentFirst_perm (talkTarget.getD empty) buffers)
  rw [jumpTarget_eq] at jump
  cases chosen with
  | none =>
      have noCandidates : tier buffers = [] := isChosen
      rw [noCandidates] at isElement
      cases isElement
  | some target =>
      have isBest : IsBest (place (talkTarget.getD empty)) (tier buffers) target := isChosen
      exact not_behind_of_currentFirst isCandidate jump
        (behind_of_place_le isBehind (isBest.least k isElement))

/-- Two channels with activity, of which the first is the current target: the second is selected
only if it is looked at first.
-/
theorem choosesNext_counterexample
    : jumpTarget "" (some "#a") [("#a", ⟨1, false⟩), ("#b", ⟨1, false⟩)] = some "#a"
      ∧ jumpTarget "" (some "#a") [("#b", ⟨1, false⟩), ("#a", ⟨1, false⟩)] = some "#b"
      ∧ ¬ChoosesNext "" (some "#a") [("#a", ⟨1, false⟩), ("#b", ⟨1, false⟩)] := by
  have first : jumpTarget "" (some "#a") [("#a", ⟨1, false⟩), ("#b", ⟨1, false⟩)] = some "#a" := by
    decide +kernel
  have second : jumpTarget "" (some "#a") [("#b", ⟨1, false⟩), ("#a", ⟨1, false⟩)] = some "#b" := by
    decide +kernel
  refine ⟨first, second, ?_⟩
  rintro ⟨chosen, -, jumps⟩
  have same := (jumps _ (List.Perm.refl _)).trans (jumps _ (List.Perm.swap _ _ _)).symm
  rw [first, second] at same
  exact absurd same (by decide)

end Handler

end Snowcone.Chat.JumpToActivity
