import Snowcone.Tasks.PromptHistories

/-! What one step does to the prompts: it leaves them in order, or a prompt that was aborted came
again at once and another one is lost.
-/

namespace Snowcone.Tasks.Prompts

open Bytes Coroutine

-----------------------------------------------------------------------------------------
-- The log only grows
-----------------------------------------------------------------------------------------

/-- A refusal adds to the log. -/
theorem prefix_refuse (world : World) (number : Nat) (message : String)
    : world.log <+: (world.refuse number message).log :=
  List.prefix_append _ _

/-- The log grows through `set_input_mode`, if it does through the resume that it makes. -/
theorem prefix_setInputMode {resume : Resume}
    (grows : ∀ (world : World) number values, world.log <+: (resume world number values).log)
    (world : World) (mode : Option InputMode) (prompt : Option (Bytes × Nat))
    : world.log <+: (setInputMode resume world mode prompt).log := by
  unfold setInputMode
  cases world.passwordTask with
  | none => split <;> exact List.prefix_refl _
  | some task =>
      split
      · exact grows { world with
          passwordTask := prompt.map Prod.snd, inputMode := mode
          passwordLabel := prompt.map Prod.fst } task []
      · exact grows { world with passwordTask := none, inputMode := mode } task []

/-- The log grows while a body runs. -/
theorem prefix_proceed {resume : Resume}
    (grows : ∀ (world : World) number values, world.log <+: (resume world number values).log)
    (world : World) (number : Nat) (body : Script Unit)
    : world.log <+: (proceed resume world number body).log := by
  cases body with
  | returns result => exact List.prefix_refl _
  | raises error => exact List.prefix_refl _
  | yields suspension next =>
      cases suspension with
      | prompt label =>
          have asked : world.log <+: (world.note (.asked number)).log := List.prefix_append _ _
          exact (asked.trans (prefix_setInputMode grows _ _ _)).trans (List.prefix_append _ _)
      | execute call => exact List.prefix_refl _
      | other => exact List.prefix_refl _

/-- The log grows with every resume, by induction on the depth. -/
theorem prefix_resume (depth : Nat) (world : World) (number : Nat) (values : List LuaValue)
    : world.log <+: (resume depth world number values).log := by
  induction depth generalizing world number values with
  | zero => exact prefix_refuse world number _
  | succ depth ih =>
      rw [resume]
      split
      · exact prefix_refuse world number _
      · refine List.IsPrefix.trans ?_ (prefix_proceed ih _ _ _)
        split
        · exact List.prefix_append _ _
        · exact List.prefix_refl _

/-- The log grows with every step. -/
theorem prefix_step {world after : World} {event : Event} (moves : step world event = some after)
    : world.log <+: after.log := by
  cases event with
  | starts main =>
      obtain rfl := Option.some.inj moves
      exact prefix_resume maxCCalls (({ world with started := world.started + 1 } : World).set
        world.started { co := .suspended (fun _ => main), suspension := none }) _ _
  | confirms text =>
      rw [step, ite_eq_iff] at moves
      obtain ⟨-, moves⟩ | ⟨-, moves⟩ := moves
      · obtain rfl := Option.some.inj moves
        have first := prefix_setInputMode (prefix_resume maxCCalls)
          { world with passwordTask := none } none none
        rw [executePassword]
        split
        · exact first.trans (prefix_resume _ _ _ _)
        · exact first.trans (List.prefix_append _ _)
      · cases moves
  | switches mode =>
      rw [step, ite_eq_iff] at moves
      obtain ⟨-, moves⟩ | ⟨-, moves⟩ := moves
      · cases moves
      · obtain rfl := Option.some.inj moves
        exact prefix_setInputMode (prefix_resume _) _ _ _
  | wakes task values =>
      rw [step] at moves
      split at moves
      · obtain rfl := Option.some.inj moves
        exact prefix_resume _ _ _ _
      · obtain rfl := Option.some.inj moves
        exact prefix_resume _ _ _ _
      · cases moves
      · cases moves

-----------------------------------------------------------------------------------------
-- Between steps, and while a task runs
-----------------------------------------------------------------------------------------

/-- What holds of the prompts, also while a task runs. -/
structure Sound (world : World) : Prop extends Held world where
  prompting : ∀ number, world.passwordTask = some number
    → (world.tasks number).prompts = true
  mode : world.inputMode = some .password ↔ world.passwordTask ≠ none
  calm : Calm world.log
  fresh : ∀ number, world.started ≤ number → world.tasks number = .over

/-- A task that does not run: it is suspended for something, or it is over. -/
def Task.Resting (task : Task) : Prop :=
  match task.suspension with
  | some _ => ∃ next, task.co = .suspended next
  | none => task.co = .dead

/-- The client between two steps. -/
structure Idle (world : World) : Prop extends Sound world where
  resting : ∀ number, (world.tasks number).Resting

/-- The client while the body of a task runs. -/
structure InBody (world : World) (number : Nat) : Prop extends Sound world where
  runs : world.tasks number = { co := .running, suspension := none }
  resting : ∀ other, other ≠ number → (world.tasks other).Resting

/-- A prompt was lost, and somebody was resumed who could not be. -/
def Lost (log : List Entry) : Prop := Crossed log ∧ ∃ number, .refused number ∈ log

/-- What is lost stays lost. -/
theorem Lost.of_prefix {log more : List Entry} (lost : Lost log) (grows : log <+: more)
    : Lost more := by
  obtain ⟨rest, rfl⟩ := grows
  obtain ⟨⟨before, first, between, second, after, rfl, unsuspended⟩, number, isIn⟩ := lost
  exact ⟨⟨before, first, between, second, after ++ rest, by simp, unsuspended⟩, number,
    List.mem_append_left _ isIn⟩

/-- What is not over was started. -/
theorem Sound.started {world : World} (sound : Sound world) {number : Nat}
    (there : world.tasks number ≠ .over)
    : number < world.started := by
  by_contra beyond
  exact there (sound.fresh number (Nat.le_of_not_lt beyond))

/-- The task that runs was started. -/
theorem InBody.started {world : World} {number : Nat} (inBody : InBody world number)
    : number < world.started :=
  inBody.toSound.started fun isOver => by
    rw [inBody.runs] at isOver
    cases isOver

/-- Tasks that were not started stay as they are. -/
theorem Sound.fresh_set {world : World} (sound : Sound world) {number : Nat}
    (inside : number < world.started) (task : Task) {other : Nat} (beyond : world.started ≤ other)
    : (world.set number task).tasks other = .over :=
  (Function.update_of_ne (Nat.ne_of_gt (Nat.lt_of_lt_of_le inside beyond)) _ _).trans
    (sound.fresh other beyond)

/-- Prompts are not touched where a task that does not prompt goes on to something else. -/
theorem Sound.set {world : World} (sound : Sound world) {number : Nat} {task : Task}
    (inside : number < world.started) (before : (world.tasks number).prompts = false)
    (after : task.prompts = false)
    : Sound (world.set number task) := by
  have same (other : Nat)
      : ((world.set number task).tasks other).prompts = (world.tasks other).prompts := by
    by_cases isIt : other = number
    · subst isIt
      rw [before, ← after]
      exact congrArg Task.prompts (Function.update_self _ _ _)
    · exact congrArg Task.prompts (Function.update_of_ne isIt _ _)
  exact {
    current := fun other prompts => sound.current other (by rwa [same] at prompts)
    once := fun other => by
      rw [same]
      exact sound.once other
    unrefused := sound.unrefused
    found := sound.found
    prompting := fun other isTask => (same other).trans (sound.prompting other isTask)
    mode := sound.mode
    calm := sound.calm
    fresh := fun _ => sound.fresh_set inside task
  }

/-- A task that has run rests again. -/
theorem InBody.set_resting {world : World} {number : Nat} (inBody : InBody world number)
    {task : Task} (rests : task.Resting) (other : Nat)
    : ((world.set number task).tasks other).Resting := by
  by_cases isIt : other = number
  · subst isIt
    have isTask : (world.set other task).tasks other = task := Function.update_self _ _ _
    rw [isTask]
    exact rests
  · have isOther : (world.set number task).tasks other = world.tasks other :=
      Function.update_of_ne isIt _ _
    rw [isOther]
    exact inBody.resting other isIt

/-- A body that ends, or suspends for something else than a prompt. -/
theorem InBody.idle {world : World} {number : Nat} (inBody : InBody world number) {task : Task}
    (rests : task.Resting) (silent : task.prompts = false)
    : Idle (world.set number task) where
  toSound := inBody.toSound.set inBody.started (by rw [inBody.runs]; rfl) silent
  resting := inBody.set_resting rests

/-- A body that does not prompt first suspends for something else or ends. -/
theorem proceed_quiet {resume : Resume} {world : World} {number : Nat} {body : Script Unit}
    (quiet : Quiet body)
    : ∃ statuses task,
        proceed resume world number body = { world with statuses }.set number task
        ∧ task.Resting ∧ task.prompts = false := by
  cases body with
  | returns result => exact ⟨world.statuses, .over, rfl, rfl, rfl⟩
  | raises error => exact ⟨world.statuses ++ [error], .over, rfl, rfl, rfl⟩
  | yields suspension next =>
      cases suspension with
      | prompt label => exact quiet.elim
      | execute call => exact ⟨world.statuses, ⟨_, some (.execute call)⟩, rfl, ⟨next, rfl⟩, rfl⟩
      | other => exact ⟨world.statuses, ⟨_, some .other⟩, rfl, ⟨next, rfl⟩, rfl⟩

/-- A body that is not quiet prompts. -/
theorem prompt_of_not_quiet {body : Script Unit} (loud : ¬ Quiet body)
    : ∃ label next, body = .yields (.prompt label) next := by
  cases body with
  | returns result => exact absurd trivial loud
  | raises error => exact absurd trivial loud
  | yields suspension next =>
      cases suspension with
      | prompt label => exact ⟨label, next, rfl⟩
      | execute call => exact absurd trivial loud
      | other => exact absurd trivial loud

/-- Entries about other tasks leave the turns of a task as they are, by induction on them. -/
theorem Turns.append {number : Nat} {isOpen : Bool} {log : List Entry}
    (turns : Turns number isOpen log) {entries : List Entry}
    (others : ∀ entry ∈ entries, ∃ other answer, other ≠ number ∧ entry = .answered other answer)
    : Turns number isOpen (log ++ entries) := by
  induction entries generalizing log with
  | nil => rwa [List.append_nil]
  | cons entry entries ih =>
      obtain ⟨⟨other, answer, differs, rfl⟩, later⟩ := List.forall_mem_cons.mp others
      have next : Turns number isOpen (log ++ [.answered other answer]) :=
        .other turns (by simp) (by simp [differs])
      have whole := ih next later
      rwa [List.append_assoc, List.singleton_append] at whole

/-- A task that prompts, once it has suspended; between the two nothing but the abort of another
prompt happens.
-/
theorem InBody.idle_prompt {world entered : World} {number : Nat} (inBody : InBody world number)
    (label : Bytes) (next : List LuaValue → Script Unit)
    (others : ∀ other, other ≠ number →
      (entered.tasks other).Resting ∧ (entered.tasks other).prompts = false)
    (isTask : entered.passwordTask = some number) (mode : entered.inputMode = some .password)
    {middle : List Entry} (isLog : entered.log = world.log ++ [.asked number] ++ middle)
    (aborts : ∀ entry ∈ middle, ∃ other answer, other ≠ number ∧ entry = .answered other answer)
    (turns : ∀ other, other ≠ number → Turns other false entered.log)
    (fresh : ∀ other, entered.started ≤ other → other ≠ number ∧ entered.tasks other = .over)
    : Idle ((entered.set number
        { co := .suspended next, suspension := some (.prompt label) }).note (.waits number)) := by
  generalize isWorld : entered.set number
    { co := .suspended next, suspension := some (.prompt label) } = after
  have this_ : after.tasks number
      = { co := .suspended next, suspension := some (.prompt label) } :=
    isWorld ▸ Function.update_self _ _ _
  have isOther {other : Nat} (differs : other ≠ number)
      : after.tasks other = entered.tasks other :=
    isWorld ▸ Function.update_of_ne differs _ _
  have prompts : (after.tasks number).prompts = true := by rw [this_]; rfl
  have sameLog : after.log = entered.log := isWorld ▸ rfl
  have sameTask : after.passwordTask = some number := isWorld ▸ isTask
  have sameMode : after.inputMode = some .password := isWorld ▸ mode
  have plain (entry : Entry) (isIn : entry ∈ middle)
      : ∃ other answer, entry = .answered other answer := by
    obtain ⟨other, answer, -, same⟩ := aborts entry isIn
    exact ⟨other, answer, same⟩
  have isOld {entry : Entry} (isIn : entry ∈ after.log ++ [.waits number])
      (differs : entry ≠ .asked number ∧ entry ≠ .waits number
        ∧ ∀ other answer, entry ≠ .answered other answer)
      : entry ∈ world.log := by
    rw [sameLog, isLog] at isIn
    simp only [List.mem_append, List.mem_singleton] at isIn
    obtain ((isThere | isAsked) | isAbort) | isLast := isIn
    · exact isThere
    · exact absurd isAsked differs.1
    · obtain ⟨other, answer, same⟩ := plain entry isAbort
      exact absurd same (differs.2.2 other answer)
    · exact absurd isLast differs.2.1
  refine {
    current := fun other (isOne : (after.tasks other).prompts = true) => ?_
    once := fun other => ?_
    unrefused := fun other isIn => inBody.unrefused other (isOld isIn (by simp))
    found := fun isIn => inBody.found (isOld isIn (by simp))
    prompting := fun other isOther => ?_
    mode := iff_of_true sameMode fun isNone => ?_
    calm := ?_
    fresh := fun other (beyond : after.started ≤ other) => ?_
    resting := fun other => ?_
  }
  · by_cases isIt : other = number
    · rw [isIt]
      exact sameTask
    · rw [isOther isIt, (others other isIt).2] at isOne
      cases isOne
  · show Turns other (after.tasks other).prompts (after.log ++ [.waits number])
    rw [sameLog]
    by_cases isIt : other = number
    · subst isIt
      have before := inBody.once other
      rw [inBody.runs] at before
      have asked := (Turns.asked before).append aborts
      rw [← isLog] at asked
      rw [prompts]
      exact .other asked (by simp) (by simp)
    · rw [isOther isIt, (others other isIt).2]
      exact .other (turns other isIt) (by simp) (by simp)
  · obtain rfl := Option.some.inj (sameTask.symm.trans isOther)
    exact prompts
  · cases sameTask.symm.trans isNone
  · have calm : Calm (world.log ++ .asked number :: (middle ++ [.waits number])) := by
      refine .prompt inBody.calm fun other isIn => ?_
      obtain ⟨_, _, same⟩ := plain _ isIn
      cases same
    have whole : (after.note (.waits number)).log
        = world.log ++ .asked number :: (middle ++ [.waits number]) := by
      rw [World.note, sameLog, isLog]
      simp
    rw [whole]
    exact calm
  · have sameStarted : after.started = entered.started := isWorld ▸ rfl
    obtain ⟨differs, isOver⟩ := fresh other (sameStarted ▸ beyond)
    exact (isOther differs).trans isOver
  · show (after.tasks other).Resting
    by_cases isIt : other = number
    · subst isIt
      rw [this_]
      exact ⟨next, rfl⟩
    · rw [isOther isIt]
      exact (others other isIt).1

/-- What is reported changes nothing else. -/
theorem InBody.report {world : World} {number : Nat} (inBody : InBody world number)
    (statuses : List Bytes)
    : InBody { world with statuses } number :=
  { inBody with }

/-- The prompt of a task is the current one; what was current is still to be aborted. -/
def World.entering (world : World) (label : Bytes) (number : Nat) : World :=
  {
    world.note (.asked number) with
    inputMode := some .password
    passwordLabel := some label
    passwordTask := some number
  }

/-- A task prompts while no other one does. -/
theorem setInputMode_alone {world : World} (nobody : world.passwordTask = none) (resume : Resume)
    (label : Bytes) (number : Nat)
    : setInputMode resume (world.note (.asked number)) (some .password) (some (label, number))
      = world.entering label number := by
  simp only [setInputMode, World.note, World.entering, nobody, if_true, Option.map_some]

/-- A task prompts: the one that prompted before it is aborted. -/
theorem setInputMode_abort {world : World} {task : Nat} (isTask : world.passwordTask = some task)
    (resume : Resume) (label : Bytes) (number : Nat)
    : setInputMode resume (world.note (.asked number)) (some .password) (some (label, number))
      = resume (world.entering label number) task [] := by
  simp only [setInputMode, World.note, World.entering, isTask, if_true, Option.map_some]

/-- A body that prompts while no other task does. -/
theorem InBody.proceed_alone {world : World} {number : Nat} (inBody : InBody world number)
    (nobody : world.passwordTask = none) (resume : Resume) (label : Bytes)
    (next : List LuaValue → Script Unit)
    : Idle (proceed resume world number (.yields (.prompt label) next)) := by
  have silent (other : Nat) : (world.tasks other).prompts = false := by
    by_contra prompts
    have isTask := inBody.current other (by simpa using prompts)
    rw [nobody] at isTask
    cases isTask
  rw [proceed, setInputMode_alone nobody]
  have noAbort : (world.entering label number).log = world.log ++ [.asked number] ++ [] :=
    (List.append_nil _).symm
  refine inBody.idle_prompt label next
    (fun other differs => ⟨inBody.resting other differs, silent other⟩) rfl rfl noAbort (by simp)
    (fun other differs => ?_) fun other beyond => ⟨?_, inBody.fresh other beyond⟩
  · have turns := inBody.once other
    rw [silent] at turns
    exact .other turns (by simpa using Ne.symm differs) (by simp)
  · exact Nat.ne_of_gt (Nat.lt_of_lt_of_le inBody.started beyond)

/-- A task that is suspended is resumed: its prompt, if it has one, is answered. -/
theorem resume_suspended {world : World} {number : Nat} {next : List LuaValue → Script Unit}
    (suspended : (world.tasks number).co = .suspended next) (depth : Nat)
    (values : List LuaValue)
    : resume (depth + 1) world number values
      = proceed (resume depth)
          ((if (world.tasks number).prompts then
              world.note (.answered number (valueAt values 0))
            else world).set number { co := .running, suspension := none })
          number (next values) := by
  rw [resume, suspended]
  rfl

/-- A task that runs is not resumed. -/
theorem resume_running {world : World} {number : Nat} (running : (world.tasks number).co = .running)
    (depth : Nat) (values : List LuaValue)
    : ∃ message, resume depth world number values = world.refuse number message := by
  cases depth with
  | zero => exact ⟨_, rfl⟩
  | succ depth =>
      rw [resume, running]
      exact ⟨_, rfl⟩

/-- A task that prompts while it aborts the prompt of another one. The other one prompts again at
once, and both of them are suspended, or it does not.
-/
theorem InBody.proceed_abort {world : World} {number : Nat} (inBody : InBody world number)
    {task : Nat} (isTask : world.passwordTask = some task)
    {again : List LuaValue → Script Unit} (suspended : (world.tasks task).co = .suspended again)
    (depth : Nat) (label : Bytes) (next : List LuaValue → Script Unit)
    : Idle (proceed (resume (depth + 1)) world number (.yields (.prompt label) next))
        ∧ Quiet (again [])
      ∨ Lost (proceed (resume (depth + 1)) world number (.yields (.prompt label) next)).log
        ∧ ¬ Quiet (again []) := by
  have prompts := inBody.prompting task isTask
  have differs : task ≠ number := by
    rintro rfl
    rw [inBody.runs] at prompts
    cases prompts
  have aborts : setInputMode (resume (depth + 1)) (world.note (.asked number)) (some .password)
        (some (label, number))
      = proceed (resume depth) (((world.entering label number).note (.answered task .nil)).set task
          { co := .running, suspension := none }) task (again []) := by
    have sameCo : ((world.entering label number).tasks task).co = .suspended again := suspended
    have samePrompts : ((world.entering label number).tasks task).prompts = true := prompts
    rw [setInputMode_abort isTask, resume_suspended sameCo, samePrompts, if_pos rfl]
    rfl
  by_cases quiet : Quiet (again [])
  · refine .inl ⟨?_, quiet⟩
    obtain ⟨statuses, other, isAbort, rests, silent⟩ :=
      @proceed_quiet (resume depth) (((world.entering label number).note (.answered task .nil)).set
        task { co := .running, suspension := none }) task _ quiet
    rw [proceed, aborts, isAbort]
    generalize isEntered : World.set
      { ((world.entering label number).note (.answered task .nil)).set task
          { co := .running, suspension := none } with statuses } task other = entered
    have isTasks : entered.tasks = Function.update (Function.update world.tasks task
        { co := .running, suspension := none }) task other :=
      isEntered ▸ rfl
    have isLog : entered.log = world.log ++ [.asked number] ++ [.answered task .nil] :=
      isEntered ▸ rfl
    have stays {o : Nat} (isOther : o ≠ task) : entered.tasks o = world.tasks o := by
      rw [isTasks, Function.update_of_ne isOther, Function.update_of_ne isOther]
    have isAborted : entered.tasks task = other := by rw [isTasks, Function.update_self]
    have silentOthers {o : Nat} (isOther : o ≠ task) : (world.tasks o).prompts = false := by
      by_contra isOne
      have isCurrent := inBody.current o (by simpa using isOne)
      exact isOther (Option.some.inj (isCurrent.symm.trans isTask))
    have inside : task < world.started := inBody.toSound.started fun isOver => by
      rw [isOver] at prompts
      cases prompts
    have sameStarted : entered.started = world.started := isEntered ▸ rfl
    refine inBody.idle_prompt label next (fun o isOther => ?_) (isEntered ▸ rfl) (isEntered ▸ rfl)
      isLog (by simpa using differs) (fun o isOther => ?_) fun o beyond => ?_
    · by_cases isIt : o = task
      · rw [isIt, isAborted]
        exact ⟨rests, silent⟩
      · rw [stays isIt]
        exact ⟨inBody.resting o isOther, silentOthers isIt⟩
    · have turns := inBody.once o
      rw [isLog]
      by_cases isIt : o = task
      · subst isIt
        rw [prompts] at turns
        exact .answered (.other turns (by simpa using Ne.symm isOther) (by simp))
      · rw [silentOthers isIt] at turns
        exact .other (.other turns (by simpa using Ne.symm isOther) (by simp)) (by simp)
          (by simpa using Ne.symm isIt)
    · rw [sameStarted] at beyond
      refine ⟨Nat.ne_of_gt (Nat.lt_of_lt_of_le inBody.started beyond), ?_⟩
      rw [stays (Nat.ne_of_gt (Nat.lt_of_lt_of_le inside beyond))]
      exact inBody.fresh o beyond
  · refine .inr ⟨?_, quiet⟩
    obtain ⟨label', next', isBody⟩ := prompt_of_not_quiet quiet
    rw [proceed, aborts, isBody, proceed]
    generalize isInner : ((world.entering label number).note (.answered task .nil)).set task
      { co := .running, suspension := none } = inner
    have isCurrent : inner.passwordTask = some number := isInner ▸ rfl
    have running : ((inner.entering label' task).tasks number).co = .running := by
      have same : (inner.entering label' task).tasks number = world.tasks number := by
        rw [← isInner]
        exact Function.update_of_ne (Ne.symm differs) _ _
      rw [same, inBody.runs]
    obtain ⟨message, isRefusal⟩ := resume_running running depth []
    rw [setInputMode_abort isCurrent, isRefusal, ← isInner]
    refine ⟨⟨world.log, number, [.answered task .nil], task,
      [.refused number, .waits task, .waits number], ?_, by simp⟩, number, ?_⟩
      <;> simp [World.refuse, World.entering, World.note, World.set]

/-- The one prompt that is open is that of a task that can be aborted. -/
theorem Sound.current_suspended {world : World} (sound : Sound world) {task : Nat}
    (isTask : world.passwordTask = some task) (rests : (world.tasks task).Resting)
    : ∃ again, (world.tasks task).co = .suspended again := by
  have prompts := sound.prompting task isTask
  unfold Task.Resting at rests
  unfold Task.prompts at prompts
  cases isSuspension : (world.tasks task).suspension with
  | none => simp [isSuspension] at prompts
  | some suspension =>
      rw [isSuspension] at rests
      exact rests

/-- However the body of a task goes on, all prompts are in order behind it, or it prompts while
the one that it aborts comes again, and one is lost.
-/
theorem InBody.proceed {world : World} {number : Nat} (inBody : InBody world number) (depth : Nat)
    (body : Script Unit)
    : Idle (proceed (resume (depth + 1)) world number body) ∧ ¬ Loses world body
      ∨ Lost (Prompts.proceed (resume (depth + 1)) world number body).log
        ∧ Loses world body := by
  by_cases quiet : Quiet body
  · obtain ⟨statuses, task, ends, rests, silent⟩ :=
      @proceed_quiet (resume (depth + 1)) world number _ quiet
    rw [ends]
    exact .inl ⟨(inBody.report statuses).idle rests silent, fun loses => loses.1 quiet⟩
  · obtain ⟨label, next, rfl⟩ := prompt_of_not_quiet quiet
    cases isTask : world.passwordTask with
    | none =>
        refine .inl ⟨inBody.proceed_alone isTask _ label next, ?_⟩
        rintro ⟨-, task, _, isOpen, -⟩
        cases isTask.symm.trans isOpen
    | some task =>
        have differs : task ≠ number := by
          rintro rfl
          have prompts := inBody.prompting task isTask
          rw [inBody.runs] at prompts
          cases prompts
        obtain ⟨again, suspended⟩ := inBody.current_suspended isTask (inBody.resting task differs)
        apply (inBody.proceed_abort isTask suspended depth label next).imp
        · rintro ⟨idle, isQuiet⟩
          refine ⟨idle, ?_⟩
          rintro ⟨-, other, others, isOpen, isSuspended, loud⟩
          obtain rfl := Option.some.inj (isTask.symm.trans isOpen)
          cases suspended.symm.trans isSuspended
          exact loud isQuiet
        · exact And.imp_right fun loud => ⟨quiet, task, again, isTask, suspended, loud⟩

-----------------------------------------------------------------------------------------
-- Steps
-----------------------------------------------------------------------------------------

/-- A task that does not prompt is resumed. -/
theorem Sound.inBody {world : World} (sound : Sound world) {number : Nat}
    (inside : number < world.started) (silent : (world.tasks number).prompts = false)
    (resting : ∀ other, other ≠ number → (world.tasks other).Resting)
    : InBody (world.set number { co := .running, suspension := none }) number where
  toSound := sound.set inside silent rfl
  runs := Function.update_self _ _ _
  resting := fun other differs => by
    have same : (world.set number { co := .running, suspension := none }).tasks other
        = world.tasks other :=
      Function.update_of_ne differs _ _
    rw [same]
    exact resting other differs

/-- The prompt of a task is answered, when it is no longer the current one. -/
theorem Idle.answers {world : World} (idle : Idle world) {number : Nat}
    (isTask : world.passwordTask = some number) {mode : Option InputMode}
    (otherMode : mode ≠ some .password) (answer : LuaValue)
    : InBody (({ world with passwordTask := none, inputMode := mode }.note
        (.answered number answer)).set number { co := .running, suspension := none }) number := by
  generalize isAfter : ({ world with passwordTask := none, inputMode := mode }.note
    (.answered number answer)).set number { co := .running, suspension := none } = after
  have isThis : after.tasks number = { co := .running, suspension := none } :=
    isAfter ▸ Function.update_self _ _ _
  have isOther {other : Nat} (differs : other ≠ number)
      : after.tasks other = world.tasks other :=
    isAfter ▸ Function.update_of_ne differs _ _
  have isLog : after.log = world.log ++ [.answered number answer] := isAfter ▸ rfl
  have nobody : after.passwordTask = none := isAfter ▸ rfl
  have sameMode : after.inputMode = mode := isAfter ▸ rfl
  have silent (other : Nat) : (after.tasks other).prompts = false := by
    by_cases isIt : other = number
    · rw [isIt, isThis]
      rfl
    · rw [isOther isIt]
      by_contra isOne
      have isCurrent := idle.current other (by simpa using isOne)
      exact isIt (Option.some.inj (isCurrent.symm.trans isTask))
  refine {
    current := fun other prompts => ?_
    once := fun other => ?_
    unrefused := fun other isIn => idle.unrefused other ?_
    found := fun isIn => idle.found ?_
    prompting := fun other isCurrent => ?_
    mode := iff_of_false (by rwa [sameMode]) (by simp [nobody])
    calm := ?_
    fresh := fun other beyond => ?_
    runs := isThis
    resting := fun other differs => ?_
  }
  · rw [silent] at prompts
    cases prompts
  · have turns := idle.once other
    rw [silent, isLog]
    by_cases isIt : other = number
    · subst isIt
      rw [idle.prompting other isTask] at turns
      exact .answered turns
    · have unasked : (world.tasks other).prompts = false := by
        have later := silent other
        rwa [isOther isIt] at later
      rw [unasked] at turns
      exact .other turns (by simp) (by simpa using Ne.symm isIt)
  · rw [isLog] at isIn
    simpa using isIn
  · rw [isLog] at isIn
    simpa using isIn
  · cases nobody.symm.trans isCurrent
  · rw [isLog]
    exact .other idle.calm (by simp)
  · have sameStarted : after.started = world.started := isAfter ▸ rfl
    have inside : number < world.started := idle.toSound.started fun isOver => by
      have prompts := idle.prompting number isTask
      rw [isOver] at prompts
      cases prompts
    rw [sameStarted] at beyond
    rw [isOther (Nat.ne_of_gt (Nat.lt_of_lt_of_le inside beyond))]
    exact idle.fresh other beyond
  · rw [isOther differs]
    exact idle.resting other

/-- A task that does not prompt makes no difference to whether the open prompt would come again. -/
theorem impatient_set {world : World} {number : Nat} {task : Task}
    (notOpen : world.passwordTask ≠ some number)
    : Impatient (world.set number task) ↔ Impatient world := by
  refine exists_congr fun other => exists_congr fun again => and_congr_right fun isOpen => ?_
  have differs : other ≠ number := by
    rintro rfl
    exact notOpen isOpen
  have same : (world.set number task).tasks other = world.tasks other :=
    Function.update_of_ne differs _ _
  rw [same]

/-- A task that does not prompt is resumed with something. -/
theorem Sound.resumes {world : World} (sound : Sound world) {number : Nat}
    (inside : number < world.started) (silent : (world.tasks number).prompts = false)
    (resting : ∀ other, other ≠ number → (world.tasks other).Resting)
    {next : List LuaValue → Script Unit} (suspended : (world.tasks number).co = .suspended next)
    (values : List LuaValue)
    : Idle (resume maxCCalls world number values) ∧ ¬ Loses world (next values)
      ∨ Lost (resume maxCCalls world number values).log ∧ Loses world (next values) := by
  have isBody : resume maxCCalls world number values = _ :=
    resume_suspended suspended (maxCCalls - 1) values
  have notOpen : world.passwordTask ≠ some number := by
    intro isOpen
    cases silent.symm.trans (sound.prompting number isOpen)
  have same : Loses (world.set number { co := .running, suspension := none }) (next values)
      ↔ Loses world (next values) :=
    and_congr_right fun _ => impatient_set notOpen
  rw [isBody, silent, if_neg Bool.false_ne_true, ← same]
  exact (sound.inBody inside silent resting).proceed (maxCCalls - 2) _

/-- The task whose prompt is open is resumed, when it is no longer the current one. -/
theorem Idle.answered {world : World} (idle : Idle world) {number : Nat}
    (isTask : world.passwordTask = some number) {mode : Option InputMode}
    (otherMode : mode ≠ some .password) (values : List LuaValue)
    : Idle (resume maxCCalls { world with passwordTask := none, inputMode := mode } number
        values) := by
  obtain ⟨again, suspended⟩ := idle.current_suspended isTask (idle.resting number)
  have isBody : resume maxCCalls { world with passwordTask := none, inputMode := mode } number
      values = _ :=
    @resume_suspended { world with passwordTask := none, inputMode := mode } number again suspended
      (maxCCalls - 1) values
  rw [isBody, idle.prompting number isTask, if_pos rfl]
  rcases (idle.answers isTask otherMode (valueAt values 0)).proceed (maxCCalls - 2) (again values)
    with ⟨idle', -⟩ | ⟨-, -, task, _, ⟨⟩, -⟩
  exact idle'

/-- What an event does to the prompts, where it is known which body it begins. -/
theorem crosses_of_begins {world after : World} {event : Event} {body : Script Unit}
    (begins : ∀ other, event.Begins world other ↔ other = body)
    (outcome : Idle after ∧ ¬ Loses world body ∨ Lost after.log ∧ Loses world body)
    : Idle after ∧ ¬ Crosses world event ∨ Lost after.log ∧ Crosses world event := by
  have crosses : Crosses world event ↔ Loses world body := by
    simp only [Crosses, begins, exists_eq_left]
  rwa [crosses]

/-- One step between which all prompts are in order leaves them in order, or it crosses two prompts
and one is lost.
-/
theorem Idle.step {world after : World} (idle : Idle world) {event : Event}
    (moves : step world event = some after)
    : Idle after ∧ ¬ Crosses world event ∨ Lost after.log ∧ Crosses world event := by
  cases event with
  | starts main =>
      obtain rfl := Option.some.inj moves
      have more : Sound { world with started := world.started + 1 } := {
        idle.toSound with
        fresh := fun number beyond => idle.fresh number (Nat.le_of_succ_le beyond)
      }
      have unstarted : (world.tasks world.started).prompts = false := by
        rw [idle.fresh _ (Nat.le_refl _)]
        rfl
      have starts := more.set (Nat.lt_succ_self world.started) unstarted
        (@rfl _ (Task.prompts { co := .suspended (fun _ => main), suspension := none }))
      have isTask : (({ world with started := world.started + 1 } : World).set world.started
          { co := .suspended (fun _ => main), suspension := none }).tasks world.started
          = { co := .suspended (fun _ => main), suspension := none } :=
        Function.update_self _ _ _
      have others {other : Nat} (differs : other ≠ world.started)
          : (({ world with started := world.started + 1 } : World).set world.started
            { co := .suspended (fun _ => main), suspension := none }).tasks other
            = world.tasks other :=
        Function.update_of_ne differs _ _
      have notOpen : world.passwordTask ≠ some world.started := by
        intro isOpen
        cases unstarted.symm.trans (idle.prompting world.started isOpen)
      have same : Loses (({ world with started := world.started + 1 } : World).set world.started
          { co := .suspended (fun _ => main), suspension := none }) main
          ↔ Loses world main :=
        and_congr_right fun _ =>
          @impatient_set { world with started := world.started + 1 } _ _ notOpen
      refine crosses_of_begins (fun _ => Iff.rfl) ?_
      rw [← same]
      refine starts.resumes (Nat.lt_succ_self _) (by rw [isTask]; rfl) (fun other differs => ?_)
        (congrArg Task.co isTask) []
      rw [others differs]
      exact idle.resting other
  | confirms text =>
      rw [Prompts.step, ite_eq_iff] at moves
      obtain ⟨isPassword, moves⟩ | ⟨-, moves⟩ := moves
      · obtain rfl := Option.some.inj moves
        obtain ⟨task, isTask⟩ := Option.ne_none_iff_exists'.mp (idle.mode.mp isPassword)
        have closed : setInputMode (resume maxCCalls) { world with passwordTask := none } none none
            = { world with passwordTask := none, inputMode := none } :=
          rfl
        rw [executePassword, closed, isTask]
        exact .inl ⟨idle.answered isTask (by simp) [.string text], fun ⟨_, begins, _⟩ => begins⟩
      · cases moves
  | switches mode =>
      rw [Prompts.step, ite_eq_iff] at moves
      obtain ⟨-, moves⟩ | ⟨otherMode, moves⟩ := moves
      · cases moves
      · obtain rfl := Option.some.inj moves
        rw [setInputMode, if_neg otherMode]
        cases isTask : world.passwordTask with
        | some task =>
            exact .inl ⟨idle.answered isTask otherMode [], fun ⟨_, begins, _⟩ => begins⟩
        | none =>
            have switched : Idle { world with passwordTask := none, inputMode := mode } := {
              idle with
              mode := iff_of_false otherMode fun isSome => isSome rfl
              prompting := by rintro number ⟨⟩
              current := fun number prompts => isTask ▸ idle.current number prompts
            }
            exact .inl ⟨switched, fun ⟨_, begins, _⟩ => begins⟩
  | wakes task values =>
      rw [Prompts.step] at moves
      have rests := idle.resting task
      have wakes {waited : Suspension} (isOther : (world.tasks task).suspension = some waited)
          (notPrompt : (world.tasks task).prompts = false)
          : Idle (resume maxCCalls world task values) ∧ ¬ Crosses world (.wakes task values)
            ∨ Lost (resume maxCCalls world task values).log
              ∧ Crosses world (.wakes task values) := by
        rw [Task.Resting, isOther] at rests
        obtain ⟨next, suspended⟩ := rests
        refine @crosses_of_begins _ _ _ (next values) (fun body => ?_)
          (idle.toSound.resumes (idle.toSound.started fun isOver => ?_) notPrompt
            (fun number _ => idle.resting number) suspended values)
        · constructor
          · rintro ⟨next', suspended', rfl⟩
            cases suspended.symm.trans suspended'
            rfl
          · rintro rfl
            exact ⟨next, suspended, rfl⟩
        · rw [isOver] at isOther
          cases isOther
      cases isSuspension : (world.tasks task).suspension with
      | none =>
          rw [isSuspension] at moves
          cases moves
      | some suspension =>
          rw [isSuspension] at moves
          have prompts : (world.tasks task).prompts
              = Task.prompts { co := .dead, suspension := some suspension } := by
            simp only [Task.prompts, isSuspension]
          cases suspension with
          | prompt label => cases moves
          | execute call =>
              obtain rfl := Option.some.inj moves
              exact wakes isSuspension prompts
          | other =>
              obtain rfl := Option.some.inj moves
              exact wakes isSuspension prompts

end Snowcone.Tasks.Prompts
