import Mathlib.Data.Prod.Lex

/-! Choosing from a sequence by keeping the better of the choice so far and the next element. The
choice is the least one if the comparison is that of scores.
-/

namespace BestOf

variable {α Score : Type} [LinearOrder Score]

/-- The choice so far, or the next element if there is none yet or it is better. -/
def keep (better : α → α → Bool) (best : Option α) (next : α) : Option α :=
  match best with
  | none => some next
  | some best => if better best next then some next else some best

/-- What is chosen from a sequence, with a choice to begin with. -/
def choose (better : α → α → Bool) (best : Option α) (elements : List α) : Option α :=
  elements.foldl (keep better) best

/-- An element of the least score. -/
structure IsBest (score : α → Score) (elements : List α) (best : α) : Prop where
  member : best ∈ elements
  least : ∀ other ∈ elements, score best ≤ score other

variable {better : α → α → Bool} {score : α → Score}

/-- Where a comparison is that of scores, a choice to begin with stays or an element with a lower
score takes its place, by induction on the elements.
-/
theorem choose_some (elements : List α) (best : α)
    (compares : ∀ a ∈ best :: elements, ∀ b ∈ elements, better a b = true ↔ score b < score a)
    : ∃ chosen, choose better (some best) elements = some chosen
      ∧ IsBest score (best :: elements) chosen := by
  induction elements generalizing best with
  | nil => exact ⟨best, rfl, List.mem_singleton_self best, by simp⟩
  | cons next elements ih =>
      have here := compares best List.mem_cons_self next List.mem_cons_self
      by_cases isBetter : better best next
      · have step : choose better (some best) (next :: elements)
            = choose better (some next) elements := by
          rw [choose, List.foldl_cons, keep, if_pos isBetter]
          rfl
        obtain ⟨chosen, chooses, isBest⟩ := ih next fun a isA b isB =>
          compares a (List.mem_cons_of_mem _ isA) b (List.mem_cons_of_mem _ isB)
        refine ⟨chosen, step.trans chooses, List.mem_cons_of_mem _ isBest.member, ?_⟩
        refine List.forall_mem_cons.mpr ⟨?_, isBest.least⟩
        exact (isBest.least next List.mem_cons_self).trans (here.mp isBetter).le
      · have step : choose better (some best) (next :: elements)
            = choose better (some best) elements := by
          rw [choose, List.foldl_cons, keep, if_neg isBetter]
          rfl
        obtain ⟨chosen, chooses, isBest⟩ := ih best fun a isA b isB => by
          refine compares a ?_ b (List.mem_cons_of_mem _ isB)
          rcases List.mem_cons.mp isA with rfl | isLater
          · exact List.mem_cons_self
          · exact List.mem_cons_of_mem _ (List.mem_cons_of_mem _ isLater)
        refine ⟨chosen, step.trans chooses, ?_, ?_⟩
        · rcases List.mem_cons.mp isBest.member with rfl | isLater
          · exact List.mem_cons_self
          · exact List.mem_cons_of_mem _ (List.mem_cons_of_mem _ isLater)
        · have first := isBest.least best List.mem_cons_self
          have notLess : ¬ score next < score best := fun less => isBetter (here.mpr less)
          refine List.forall_mem_cons.mpr ⟨first, List.forall_mem_cons.mpr ⟨?_, ?_⟩⟩
          · exact first.trans (not_lt.mp notLess)
          · exact fun other member => isBest.least other (List.mem_cons_of_mem _ member)

/-- Where a comparison is that of scores, an element of the least score is chosen. -/
theorem choose_none {elements : List α} (some : elements ≠ [])
    (compares : ∀ a ∈ elements, ∀ b ∈ elements, better a b = true ↔ score b < score a)
    : ∃ chosen, choose better none elements = .some chosen ∧ IsBest score elements chosen := by
  cases elements with
  | nil => exact (some rfl).elim
  | cons first elements =>
      exact choose_some elements first fun a isA b isB =>
        compares a isA b (List.mem_cons_of_mem _ isB)

/-- With different scores there is one best element. -/
theorem IsBest.unique {elements others : List α} {best best' : α}
    (isBest : IsBest score elements best) (isBest' : IsBest score others best')
    (same : ∀ a, a ∈ elements ↔ a ∈ others) (distinct : Function.Injective score)
    : best = best' :=
  distinct (le_antisymm (isBest.least best' ((same best').mpr isBest'.member))
    (isBest'.least best ((same best).mp isBest.member)))

omit [LinearOrder Score] in
/-- Choosing among images is choosing among the elements by what is known of their images. -/
theorem choose_map {β : Type} (image : β → α) (elements : List β) (best : Option β)
    : choose better (best.map image) (elements.map image)
      = (choose (fun a b => better (image a) (image b)) best elements).map image := by
  induction elements generalizing best with
  | nil => rfl
  | cons next elements ih =>
      rw [List.map_cons, choose, choose, List.foldl_cons, List.foldl_cons]
      refine Eq.trans ?_ (ih _)
      cases best with
      | none => rfl
      | some best =>
          rw [choose, Option.map_some, keep, keep]
          split <;> rfl

omit [LinearOrder Score] in
/-- A choice stays through elements that are not better. -/
theorem choose_stays {elements : List α} {best : α}
    (notBetter : ∀ b ∈ elements, better best b = false)
    : choose better (some best) elements = some best := by
  induction elements with
  | nil => rfl
  | cons next elements ih =>
      have step : keep better (some best) next = some best := by
        simp [keep, notBetter next List.mem_cons_self]
      rw [choose, List.foldl_cons, step]
      exact ih fun b isB => notBetter b (List.mem_cons_of_mem _ isB)

omit [LinearOrder Score] in
/-- What is chosen is the choice to begin with or one of the elements. -/
theorem mem_of_choose {elements : List α} {best chosen : α}
    (chooses : choose better (some best) elements = some chosen)
    : chosen ∈ best :: elements := by
  induction elements generalizing best with
  | nil =>
      cases chooses
      exact List.mem_cons_self
  | cons next elements ih =>
      rw [choose, List.foldl_cons, keep] at chooses
      split at chooses
      · exact List.mem_cons_of_mem _ (ih chooses)
      · rcases List.mem_cons.mp (ih chooses) with rfl | isLater
        · exact List.mem_cons_self
        · exact List.mem_cons_of_mem _ (List.mem_cons_of_mem _ isLater)

omit [LinearOrder Score] in
/-- Where some elements are better than all the others, a choice among them is made from them. -/
theorem choose_some_filter {prior : α → Bool} {best : α} (isPrior : prior best = true)
    (above : ∀ a b, prior a = true → prior b = false → better a b = false) (elements : List α)
    : choose better (some best) elements = choose better (some best) (elements.filter prior) := by
  induction elements generalizing best with
  | nil => rfl
  | cons next elements ih =>
      by_cases nextIsPrior : prior next = true
      · rw [List.filter_cons_of_pos nextIsPrior, choose, choose, List.foldl_cons, List.foldl_cons,
          keep]
        split
        · exact ih nextIsPrior
        · exact ih isPrior
      · have step : keep better (some best) next = some best := by
          simp [keep, above best next isPrior (Bool.eq_false_iff.mpr nextIsPrior)]
        rw [List.filter_cons_of_neg nextIsPrior, choose, List.foldl_cons, step]
        exact ih isPrior

omit [LinearOrder Score] in
/-- Where some elements are better than all the others, the choice is made from them if there are
any. What was chosen before the first of them is not one of them.
-/
theorem choose_filter {prior : α → Bool} {elements : List α}
    (above : ∀ a b, prior a = true → prior b = false → better a b = false)
    (below : ∀ a b, prior a = false → prior b = true → better a b = true)
    (some : elements.filter prior ≠ []) (best : Option α) (isNot : best.any prior = false)
    : choose better best elements = choose better none (elements.filter prior) := by
  induction elements generalizing best with
  | nil => exact (some rfl).elim
  | cons next elements ih =>
      by_cases nextIsPrior : prior next = true
      · have step : keep better best next = .some next := by
          cases best with
          | none => rfl
          | some best => simp [keep, below best next (by simpa using isNot) nextIsPrior]
        rw [List.filter_cons_of_pos nextIsPrior, choose, choose, List.foldl_cons, List.foldl_cons,
          step]
        exact choose_some_filter nextIsPrior above elements
      · rw [List.filter_cons_of_neg nextIsPrior] at some ⊢
        rw [choose, List.foldl_cons]
        refine ih some _ ?_
        cases best with
        | none => simpa [keep] using nextIsPrior
        | some best =>
            rw [keep]
            split
            · simpa using nextIsPrior
            · exact isNot

end BestOf
