import Mathlib.Data.List.Destutter
import Mathlib.Data.List.Induction

/-! Lists without repetitions in a row, from the end of the list. Two notions of repetition, one
coarser than the other, leave the same list if no two neighbours tell them apart.
-/

namespace Destutter

open List

variable {α : Type} {rel : α → α → Prop} [DecidableRel rel]

/-- An element is kept if it is related to the last one kept, by induction on the list. -/
theorem destutter'_concat (first last : α) (elements : List α)
    : ∃ kept, (elements.destutter' rel first).getLast? = some kept
      ∧ (elements ++ [last]).destutter' rel first
        = if rel kept last then elements.destutter' rel first ++ [last]
          else elements.destutter' rel first := by
  induction elements generalizing first with
  | nil => exact ⟨first, rfl, by rw [nil_append, destutter'_singleton]; rfl⟩
  | cons next elements ih =>
      by_cases isKept : rel first next
      · obtain ⟨kept, isLast, step⟩ := ih next
        refine ⟨kept, ?_, ?_⟩
        · rw [destutter'_cons_pos _ isKept, getLast?_cons, isLast]
          rfl
        · rw [cons_append, destutter'_cons_pos _ isKept, destutter'_cons_pos _ isKept, step]
          split <;> rfl
      · rw [cons_append, destutter'_cons_neg _ isKept, destutter'_cons_neg _ isKept]
        exact ih first

/-- The last element is kept if there is none before it, or it is related to the last one kept. -/
theorem destutter_concat (elements : List α) (last : α)
    : (elements ++ [last]).destutter rel
      = if (elements.destutter rel).getLast?.any (fun kept => !decide (rel kept last))
        then elements.destutter rel else elements.destutter rel ++ [last] := by
  cases elements with
  | nil => rfl
  | cons first elements =>
      obtain ⟨kept, isLast, step⟩ := @destutter'_concat _ rel _ first last elements
      rw [cons_append, destutter_cons', destutter_cons', step, isLast]
      by_cases isRelated : rel kept last <;> simp [isRelated]

section Neighbours

variable [equivalent : IsEquiv α (relᶜ)]

/-- Where repetition is an equivalence, the last element is a repetition of the last one kept. -/
theorem exists_kept (elements : List α) (last : α)
    : ∃ kept, ((elements ++ [last]).destutter rel).getLast? = some kept ∧ ¬rel kept last := by
  rw [destutter_concat]
  cases isLast : (elements.destutter rel).getLast? with
  | none => exact ⟨last, by simp, equivalent.refl last⟩
  | some kept =>
      by_cases isRelated : rel kept last
      · exact ⟨last, by simp [isRelated], equivalent.refl last⟩
      · exact ⟨kept, by simp [isRelated, isLast], isRelated⟩

/-- Where repetition is an equivalence, an element is kept if it does not repeat its neighbour. -/
theorem destutter_neighbour (elements : List α) (last next : α)
    : (elements ++ [last] ++ [next]).destutter rel
      = if rel last next then (elements ++ [last]).destutter rel ++ [next]
        else (elements ++ [last]).destutter rel := by
  obtain ⟨kept, isKept, repeats⟩ := @exists_kept _ rel _ _ elements last
  have same : rel kept next ↔ rel last next := by
    constructor
    · intro isRelated
      by_contra notRelated
      exact equivalent.trans kept last next repeats notRelated isRelated
    · intro isRelated
      by_contra notRelated
      exact equivalent.trans last kept next (equivalent.symm _ _ repeats) notRelated isRelated
  rw [destutter_concat, isKept]
  by_cases isRelated : rel last next
  · simp [isRelated, same.mpr isRelated]
  · simp [isRelated, mt same.mp isRelated]

end Neighbours

section Coarser

variable {finer : α → α → Prop} [DecidableRel finer] [IsEquiv α (relᶜ)] [IsEquiv α (finerᶜ)]

/-- A coarser notion of repetition leaves no more elements, by induction from the end. -/
theorem length_destutter_le (coarser : ∀ a b, rel a b → finer a b) (elements : List α)
    : (elements.destutter rel).length ≤ (elements.destutter finer).length := by
  induction elements using List.reverseRecOn with
  | nil => exact Nat.le_refl _
  | append_singleton elements next ih =>
      rcases elements.eq_nil_or_concat' with rfl | ⟨elements, last, rfl⟩
      · exact Nat.le_refl _
      · rw [destutter_neighbour, destutter_neighbour]
        by_cases isRelated : rel last next
        · simpa [isRelated, coarser last next isRelated] using ih
        · rw [if_neg isRelated]
          split
          · rw [length_append]
            omega
          · exact ih

/-- Two notions of repetition, one coarser than the other, leave the same elements if and only if
they agree on all neighbours. By induction from the end.
-/
theorem destutter_eq_iff (coarser : ∀ a b, rel a b → finer a b) (elements : List α)
    : elements.destutter rel = elements.destutter finer
      ↔ elements.IsChain (fun a b => ¬rel a b → ¬finer a b) := by
  induction elements using List.reverseRecOn with
  | nil => exact iff_of_true rfl .nil
  | append_singleton elements next ih =>
      rcases elements.eq_nil_or_concat' with rfl | ⟨elements, last, rfl⟩
      · exact iff_of_true rfl (.singleton _)
      · have chain : (elements ++ [last] ++ [next]).IsChain (fun a b => ¬rel a b → ¬finer a b)
            ↔ (elements ++ [last]).IsChain (fun a b => ¬rel a b → ¬finer a b)
              ∧ (¬rel last next → ¬finer last next) := by
          rw [isChain_append]
          simp
        rw [chain, destutter_neighbour, destutter_neighbour]
        by_cases isRelated : rel last next
        · simp [isRelated, coarser last next isRelated, ih]
        · rw [if_neg isRelated]
          by_cases isFiner : finer last next
          · rw [if_pos isFiner]
            refine iff_of_false (fun same => ?_) (fun agree => agree.2 isRelated isFiner)
            have shorter := length_destutter_le coarser (elements ++ [last])
            rw [same, length_append, length_singleton] at shorter
            omega
          · rw [if_neg isFiner, ih]
            simp [isFiner]

end Coarser

end Destutter
