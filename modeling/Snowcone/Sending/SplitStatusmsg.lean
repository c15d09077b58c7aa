import Mathlib.Data.List.Infix
import Snowcone.Foundations.Loops
import Snowcone.Sending.Send

/-! The loop of `split_statusmsg`, round by round, and when it is left. -/

namespace Snowcone.Sending

open Bytes WhileLoop

/-- One round: the first character of the target, if `find` says that it is one of
`statusmsg`, goes over to the prefix. The plain `find` of an empty string always succeeds.
-/
def splitRound (statusmsg : Bytes) (state : Bytes × Bytes)
    : Round (Bytes × Bytes) (Option Bytes × Bytes) :=
  let (status, target) := state
  if target.take 1 <:+: statusmsg then .again (status ++ target.take 1, target.drop 1)
  else .leave (if status = [] then none else some status, target)

/-- The call `split_statusmsg(target)` returns: its loop is left after some number of rounds.
A `statusmsg` that is no string has no `find`.
-/
def SplitReturns (statusmsg : TokenValue) (target : Bytes) (result : Option Bytes × Bytes)
    : Prop :=
  match statusmsg with
  | .flag => False
  | .text chars => ∃ bound, run (splitRound chars) bound ([], target) = some result

/-- A maximal leading run of status characters, nothing for an empty one, and the rest. -/
structure LeadingRun (chars target : Bytes) (result : Option Bytes × Bytes) : Prop where
  whole : result.1.getD [] ++ result.2 = target
  notEmpty : result.1 ≠ some []
  isStatus : ∀ c ∈ result.1.getD [], c ∈ chars
  maximal : ∀ c ∈ result.2.head?, c ∉ chars

/-- Status characters alone are a prefix for ever, by induction on the number of rounds. -/
theorem run_splitRound_status {chars target : Bytes} (allStatus : ∀ c ∈ target, c ∈ chars)
    (bound : Nat) (status : Bytes)
    : run (splitRound chars) bound (status, target) = none := by
  induction bound generalizing status target with
  | zero => rfl
  | succ bound ih =>
      have found : target.take 1 <:+: chars := by
        cases target with
        | nil => exact List.nil_infix
        | cons c rest =>
            exact (List.singleton_infix_iff _ _).mpr (allStatus c List.mem_cons_self)
      have again : splitRound chars (status, target)
          = .again (status ++ target.take 1, target.drop 1) := if_pos found
      rw [run, again]
      exact ih (fun c member => allStatus c (List.mem_of_mem_drop member)) _

/-- A target that is split is one whose loop is left, by induction on the target. -/
theorem run_splitRound_split {chars target : Bytes} {split : Bytes × Bytes}
    (splits : splitStatusmsg chars target = some split) (status : Bytes)
    : run (splitRound chars) (target.length + 1) (status, target)
      = some (if status ++ split.1 = [] then none else some (status ++ split.1), split.2) := by
  induction target generalizing status split with
  | nil => cases splits
  | cons c target ih =>
      rw [splitStatusmsg] at splits
      by_cases isStatus : c ∈ chars
      · rw [if_pos isStatus] at splits
        obtain ⟨later, rest, rfl⟩ := Option.map_eq_some_iff.mp splits
        have again : splitRound chars (status, c :: target) = .again (status ++ [c], target) :=
          if_pos ((List.singleton_infix_iff _ _).mpr isStatus)
        rw [run, again, List.length_cons]
        simpa using ih rest (status ++ [c])
      · rw [if_neg isStatus] at splits
        obtain rfl := Option.some.inj splits
        have leaves : splitRound chars (status, c :: target)
            = .leave (if status = [] then none else some status, c :: target) :=
          if_neg (fun found => isStatus ((List.singleton_infix_iff _ _).mp found))
        rw [run, leaves, List.append_nil]

/-- A target is split if it has a character that is no status character, by induction on it. -/
theorem splitStatusmsg_isSome_iff (chars target : Bytes)
    : (splitStatusmsg chars target).isSome ↔ ∃ c ∈ target, c ∉ chars := by
  induction target with
  | nil => simp [splitStatusmsg]
  | cons c target ih =>
      by_cases isStatus : c ∈ chars
      · simp [splitStatusmsg, isStatus, ih]
      · simp [splitStatusmsg, isStatus]

/-- What a target is split into, by induction on it. -/
theorem leadingRun_of_split {chars target : Bytes} {split : Bytes × Bytes}
    (splits : splitStatusmsg chars target = some split)
    : LeadingRun chars target (if split.1 = [] then none else some split.1, split.2) := by
  have parts : split.1 ++ split.2 = target ∧ (∀ c ∈ split.1, c ∈ chars)
      ∧ ∀ c ∈ split.2.head?, c ∉ chars := by
    induction target generalizing split with
    | nil => cases splits
    | cons c target ih =>
        rw [splitStatusmsg] at splits
        by_cases isStatus : c ∈ chars
        · rw [if_pos isStatus] at splits
          obtain ⟨later, rest, rfl⟩ := Option.map_eq_some_iff.mp splits
          obtain ⟨whole, allStatus, maximal⟩ := ih rest
          exact ⟨congrArg (c :: ·) whole, List.forall_mem_cons.mpr ⟨isStatus, allStatus⟩, maximal⟩
        · rw [if_neg isStatus] at splits
          obtain rfl := Option.some.inj splits
          refine ⟨rfl, by simp, ?_⟩
          rintro _ ⟨⟩
          exact isStatus
  obtain ⟨whole, allStatus, maximal⟩ := parts
  by_cases empty : split.1 = []
  · rw [if_pos empty]
    exact ⟨by rw [← whole, empty]; rfl, nofun, by simp, maximal⟩
  · rw [if_neg empty]
    exact ⟨whole, by simpa using empty, allStatus, maximal⟩

/-- A call returns the leading run of status characters and the rest just for a target with
a character that is none, and a `statusmsg` that is a string.
-/
theorem split_returns_iff (statusmsg : TokenValue) (target : Bytes)
    : (∃ chars result, statusmsg = .text chars ∧ SplitReturns statusmsg target result
        ∧ LeadingRun chars target result)
      ↔ ∃ chars, statusmsg = .text chars ∧ ∃ c ∈ target, c ∉ chars := by
  constructor
  · rintro ⟨chars, result, rfl, ⟨bound, returns⟩, _⟩
    refine ⟨chars, rfl, ?_⟩
    by_contra allStatus
    push Not at allStatus
    rw [run_splitRound_status allStatus] at returns
    cases returns
  · rintro ⟨chars, rfl, other⟩
    obtain ⟨split, splits⟩ :=
      Option.isSome_iff_exists.mp ((splitStatusmsg_isSome_iff chars target).mpr other)
    exact ⟨chars, _, rfl, ⟨_, run_splitRound_split splits []⟩, leadingRun_of_split splits⟩

end Snowcone.Sending
