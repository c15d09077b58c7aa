/-! Imperative loops, run with a bound on the number of rounds.
A loop that does not leave within its bound has no result, so a proof that a result
exists is a proof of termination.
-/

namespace WhileLoop

variable {State Result : Type}

/-- What one round decides: leave the loop with a result, or go round again. -/
inductive Round (State Result : Type) where
  | leave (result : Result)
  | again (state : State)

/-- The loop with the given body, for at most `bound` rounds. -/
def run (body : State → Round State Result) : Nat → State → Option Result
  | 0, _ => none
  | bound + 1, state =>
      match body state with
      | .leave result => some result
      | .again next => run body bound next

/-- One round meets a contract: a result satisfies the postcondition of the state it
left from; a next state satisfies the precondition, is smaller, and whatever its own
run establishes is enough for the state before.
-/
inductive Round.Meets (pre : State → Prop) (post : State → Result → Prop)
    (size : State → Nat) (state : State)
    : Round State Result → Prop
  | leave {result} (done : post state result) : Meets pre post size state (.leave result)
  | again {next} (kept : pre next) (smaller : size next < size state)
    (back : ∀ result, post next result → post state result)
    : Meets pre post size state (.again next)

/-- Total correctness: a body that meets its contract in every round leaves the loop
within the bound, with the postcondition of the state it was entered in.
Witness: induction on the bound; the size spends one unit of it each round.
-/
theorem run_total {body : State → Round State Result} {pre : State → Prop}
    {post : State → Result → Prop} {size : State → Nat}
    (meets : ∀ state, pre state → (body state).Meets pre post size state)
    (bound : Nat) (state : State) (start : pre state) (enough : size state < bound)
    : ∃ result, run body bound state = some result ∧ post state result := by
  induction bound generalizing state with
  | zero => exact absurd enough (Nat.not_lt_zero _)
  | succ bound ih =>
      have contract := meets state start
      cases turn : body state with
      | leave result =>
          rw [turn] at contract
          cases contract with
          | leave done => exact ⟨result, by simp only [run, turn], done⟩
      | again next =>
          rw [turn] at contract
          cases contract with
          | again kept smaller back =>
              obtain ⟨result, runs, holds⟩ := ih next kept (by omega)
              exact ⟨result, by simp only [run, turn, runs], back result holds⟩

end WhileLoop
