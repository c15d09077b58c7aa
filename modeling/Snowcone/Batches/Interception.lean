import Snowcone.Batches.Replay
import Snowcone.Chat.Messages

/-! The batches of a stream as the protocol has them, nested ones included, and which streams
the client keeps away from its handlers.
-/

namespace Snowcone.Batches

open Bytes IrcParsing Action
open Chat (Stop)
open Sending (irccase)

variable {Num : Type}

/-- What a message does to the batches. -/
inductive Line where
  | opens (ref : Bytes) (identifier : Option Bytes) (params : List Bytes)
  | closes (ref : Bytes)
  | plain

/-- What a message does to the batches. -/
def lineOf (irc : Pushed) : Line :=
  if irc.command = .name (lit "BATCH") then
    match irc.args with
    | (c :: ref) :: more =>
        if c = chr '+' then .opens ref more.head? more.tail
        else if c = chr '-' then .closes ref
        else .plain
    | _ => .plain
  else .plain

/-- An open batch: the batch its first line lies in, the outermost batch around it, itself if
there is no other, and the messages that lie in it, directly or not, if it is an outermost one.
-/
structure OpenBatch where
  identifier : Option Bytes
  params : List Bytes
  parent : Option Bytes
  outermost : Bytes
  inside : List Pushed

/-- The open batches under their references. -/
abbrev OpenBatches := Bytes → Option OpenBatch

/-- The batch that a message lies in directly, with its reference. -/
def enclosing (opened : OpenBatches) (irc : Pushed) : Option (Bytes × OpenBatch) :=
  (irc.tags (lit "batch")).bind fun ref => (opened ref).map (ref, ·)

/-- A message is one of its outermost batch. -/
def add (opened : OpenBatches) (irc : Pushed) : OpenBatches :=
  match enclosing opened irc with
  | none => opened
  | some (_, open_) =>
      match opened open_.outermost with
      | none => opened
      | some root =>
          Function.update opened open_.outermost
            (some { root with inside := root.inside ++ [irc] })

/-- The open batches behind a message. -/
def after (opened : OpenBatches) (irc : Pushed) : OpenBatches :=
  match lineOf irc with
  | .opens ref identifier params =>
      Function.update (add opened irc) ref (some {
        identifier, params
        parent := (enclosing opened irc).map (·.1)
        outermost := ((enclosing opened irc).map (·.2.outermost)).getD ref
        inside := []
      })
  | .closes ref => Function.update (add opened irc) ref none
  | .plain => add opened irc

/-- A line may stand where it does: a batch is started under a new reference, and ended by a
line that lies in the same batch as its first line, once the batches in it have ended.
-/
def WellFormed (opened : OpenBatches) (irc : Pushed) : Prop :=
  match lineOf irc with
  | .opens ref _ _ => opened ref = none
  | .closes ref =>
      ∃ batch,
        opened ref = some batch
        ∧ batch.parent = (enclosing opened irc).map (·.1)
        ∧ ∀ other inner, opened other = some inner → inner.parent ≠ some ref
  | .plain => True

/-- Every line of a stream may stand where it does. -/
def WellFormedStream (opened : OpenBatches) : List (Event Num) → Prop
  | [] => True
  | .message irc :: events =>
      WellFormed opened irc ∧ WellFormedStream (after opened irc) events
  | .other _ :: events => WellFormedStream opened events

/-- The end of an outermost batch with history: the messages that lie in it are appended to the
buffer of its target, and its history holds them, the last one first, before anything else is
told of the end.
-/
def Replays (live : Live Num) (opened : OpenBatch) (session session' : Session Num)
    (irc : Pushed)
    : Prop :=
  ∃ target ended,
    opened.params.head? = some target
    ∧ batch irc (session.log irc) = .ok () ended
    ∧ session' = ended.dispatch live irc
    ∧ ended.world = { session.world with
        client := { (session.log irc).world.client with
          buffers := replay session.world.client.statusmsg session.world.client.buffers
            (irccase target) opened.inside } }
    ∧ ∀ buffer entries,
        session.world.client.buffers (irccase target) = some buffer → buffer.Holds entries
        → ∃ after,
            ended.world.client.buffers (irccase target) = some after
            ∧ after.Holds
                (((opened.inside.map (replayed session.world.client.statusmsg)).reverse
                  ++ entries).take buffer.messages.max)

/-- What the client has to make of a message: one that lies in an open batch is only logged, and
the end of an outermost batch with history appends what lies in it.
-/
structure Handled (live : Live Num) (opened : OpenBatches) (session session' : Session Num)
    (irc : Pushed)
    : Prop where
  kept : (enclosing opened irc).isSome
    → session'.dispatched = session.dispatched
      ∧ session'.world = (session.log irc).world
      ∧ session'.connected = session.connected
  replays : ∀ ref batch,
    lineOf irc = .closes ref → opened ref = some batch
    → batch.parent = none → batch.identifier = some (lit "chathistory")
    → Replays live batch session session' irc

/-- The client makes of a stream what it has to, as long as the connection is up. -/
def HandledAll (live : Live Num) (opened : OpenBatches) (session : Session Num)
    : List (Event Num) → Prop
  | [] => True
  | .message irc :: events =>
      session.connected = true →
        ∃ session',
          msg live session irc = some session'
          ∧ Handled live opened session session' irc
          ∧ HandledAll live (after opened irc) session' events
  | .other change :: events =>
      ∀ session', step live session (.other change) = some session'
        → HandledAll live opened session' events

/-- A message that the client handles right: it does not lie in a nested batch, and if it ends an
outermost batch with history, that can be replayed.
-/
structure Fits (opened : OpenBatches) (session : Session Num) (irc : Pushed) : Prop where
  unnested : ∀ ref batch, enclosing opened irc = some (ref, batch) → batch.parent = none
  replayable : ∀ ref batch,
    lineOf irc = .closes ref → opened ref = some batch
    → batch.parent = none → batch.identifier = some (lit "chathistory")
    → Replayable session.world.client batch.params batch.inside

/-- All messages of a stream are such ones, as long as the connection is up. -/
def FitsAll (live : Live Num) (opened : OpenBatches) (session : Session Num)
    : List (Event Num) → Prop
  | [] => True
  | .message irc :: events =>
      session.connected = true →
        Fits opened session irc
        ∧ ∀ session', msg live session irc = some session'
          → FitsAll live (after opened irc) session' events
  | .other change :: events =>
      ∀ session', step live session (.other change) = some session'
        → FitsAll live opened session' events

-----------------------------------------------------------------------------------------
-- The handler of batches
-----------------------------------------------------------------------------------------

/-- A batch as the client keeps it: nested ones are not kept. -/
def OpenBatch.keep (opened : OpenBatch) : Option Batch :=
  if opened.parent = none then
    some { identifier := opened.identifier, params := opened.params, messages := opened.inside }
  else none

/-- A line that starts a batch has it in the table. -/
theorem batch_opens {irc : Pushed} {ref : Bytes} {identifier : Option Bytes}
    {params : List Bytes} (line : lineOf irc = .opens ref identifier params)
    (session : Session Num)
    : irc.command = .name (lit "BATCH")
      ∧ batch irc session = .ok () { session with
          batches := Function.update session.batches ref
            (some { identifier, params, messages := [] }) } := by
  simp only [lineOf] at line
  split_ifs at line with isBatch
  refine ⟨isBatch, ?_⟩
  split at line
  · next c name more args =>
    split_ifs at line with plus minus
    cases line
    rw [batch, args, plus]
    rfl
  · cases line

/-- A line that ends a batch has it out of the table, and tells the handler of its kind. -/
theorem batch_closes {irc : Pushed} {ref : Bytes} (line : lineOf irc = .closes ref)
    (session : Session Num)
    : irc.command = .name (lit "BATCH")
      ∧ batch irc session
        = (match session.batches ref with
            | none => pure ()
            | some batch => batchHandler batch)
          { session with batches := Function.update session.batches ref none } := by
  simp only [lineOf] at line
  split_ifs at line with isBatch
  refine ⟨isBatch, ?_⟩
  split at line
  · next c name more args =>
    split_ifs at line with plus minus
    cases line
    rw [batch, args, minus]
    rfl
  · cases line

/-- Another line does nothing, if it does not raise an error. -/
theorem batch_plain {irc : Pushed} (line : lineOf irc = .plain)
    (isBatch : irc.command = .name (lit "BATCH")) (session : Session Num)
    : batch irc session = .ok () session ∨ ∃ text, batch irc session = .error (.raises text) session
    := by
  rw [lineOf, if_pos isBatch] at line
  cases args : irc.args with
  | nil =>
      rw [batch, args]
      exact Or.inr ⟨_, rfl⟩
  | cons first more =>
      rw [batch, args]
      cases first with
      | nil => exact Or.inl rfl
      | cons c name =>
          simp only [args] at line
          split_ifs at line with plus minus
          refine Or.inl ?_
          have notPlus : (c :: name).take 1 ≠ lit "+" := fun same => plus (List.cons.inj same).1
          have notMinus : (c :: name).take 1 ≠ lit "-" := fun same => minus (List.cons.inj same).1
          simp only [if_neg notPlus, if_neg notMinus]
          rfl

/-- The handler of a kind of batch changes the client at most. -/
theorem batchHandler_world (batch : Batch) (session : Session Num)
    : ∃ world,
        batchHandler batch session = .ok () { session with world }
        ∨ ∃ stop, batchHandler batch session = .error stop { session with world } := by
  rw [batchHandler]
  split_ifs
  · rw [bouncerNetworks]
    cases batch.messages.foldlM addNetwork (fun _ => none) with
    | error text => exact ⟨session.world, Or.inr ⟨_, rfl⟩⟩
    | ok networks => exact ⟨_, Or.inl rfl⟩
  · rw [onClient]
    cases chathistory batch.params batch.messages session.world.client with
    | error stop client => exact ⟨_, Or.inr ⟨stop, rfl⟩⟩
    | ok value client => exact ⟨_, Or.inl rfl⟩
  · exact ⟨session.world, Or.inl rfl⟩

/-- Only the handler for history may not return. -/
theorem batchHandler_returns {batch : Batch} (other : batch.identifier ≠ some (lit "chathistory"))
    (session after : Session Num)
    : batchHandler batch session ≠ .error .hangs after := by
  intro hangs
  rw [batchHandler] at hangs
  split_ifs at hangs
  · rw [bouncerNetworks] at hangs
    cases outcome : batch.messages.foldlM addNetwork (fun _ => none) with
    | error text =>
        simp only [outcome] at hangs
        cases hangs
    | ok networks =>
        simp only [outcome] at hangs
        cases hangs
  · cases hangs

/-- The handler for history. -/
theorem batchHandler_history {batch : Batch}
    (isHistory : batch.identifier = some (lit "chathistory")) (session : Session Num)
    : batchHandler batch session
      = onClient (chathistory batch.params batch.messages) session := by
  rw [batchHandler, if_neg (by rw [isHistory]; decide), if_pos isHistory]

-----------------------------------------------------------------------------------------
-- The table of batches
-----------------------------------------------------------------------------------------

/-- The table has the outermost batches that are open, with what lies in them. -/
structure Tracks (opened : OpenBatches) (batches : Bytes → Option Batch) : Prop where
  table : ∀ ref, batches ref = (opened ref).bind OpenBatch.keep
  roots : ∀ ref batch, opened ref = some batch → batch.parent = none → batch.outermost = ref

/-- Nothing is open at the start. -/
theorem tracks_nothing : Tracks (fun _ => none) (fun _ => none) := ⟨fun _ => rfl, nofun⟩

/-- One batch is changed. -/
theorem Tracks.update {opened : OpenBatches} {batches : Bytes → Option Batch}
    (tracks : Tracks opened batches) (ref : Bytes) {changed : Option OpenBatch}
    (root : ∀ batch, changed = some batch → batch.parent = none → batch.outermost = ref)
    : Tracks (Function.update opened ref changed)
        (Function.update batches ref (changed.bind OpenBatch.keep)) := by
  constructor
  · intro other
    by_cases here : other = ref
    · rw [here, Function.update_self, Function.update_self]
    · rw [Function.update_of_ne here, Function.update_of_ne here, tracks.table]
  · intro other batch found outer
    by_cases here : other = ref
    · rw [here, Function.update_self] at found
      rw [here]
      exact root batch found outer
    · rw [Function.update_of_ne here] at found
      exact tracks.roots other batch found outer

/-- A nested batch is not kept. -/
theorem keep_nested {opened : OpenBatch} (nested : opened.parent ≠ none) : opened.keep = none :=
  if_neg nested

/-- A batch that is not kept is changed. -/
theorem Tracks.update_nested {opened : OpenBatches} {batches : Bytes → Option Batch}
    (tracks : Tracks opened batches) {ref : Bytes} (absent : batches ref = none)
    {changed : Option OpenBatch} (nested : ∀ batch, changed = some batch → batch.parent ≠ none)
    : Tracks (Function.update opened ref changed) batches := by
  have kept : changed.bind OpenBatch.keep = none := by
    cases changed with
    | none => rfl
    | some batch => exact keep_nested (nested batch rfl)
  have updated := tracks.update ref (fun batch same outer => absurd outer (nested batch same))
  rwa [kept, ← absent, Function.update_eq_self] at updated

/-- The batch that a message lies in is open. -/
theorem opened_of_enclosing {opened : OpenBatches} {irc : Pushed} {ref : Bytes}
    {batch : OpenBatch} (lies : enclosing opened irc = some (ref, batch))
    : opened ref = some batch := by
  obtain ⟨tag, _, found⟩ := Option.bind_eq_some_iff.mp lies
  obtain ⟨_, found, ⟨⟩⟩ := Option.map_eq_some_iff.mp found
  exact found

/-- The batch that the client finds for a message is the one it lies in, if that is kept. -/
theorem Tracks.find {opened : OpenBatches} {batches : Bytes → Option Batch}
    (tracks : Tracks opened batches) (irc : Pushed)
    : (irc.tags (lit "batch")).bind (fun ref => (batches ref).map (ref, ·))
      = (enclosing opened irc).bind fun lies => lies.2.keep.map (lies.1, ·) := by
  rw [enclosing]
  cases irc.tags (lit "batch") with
  | none => rfl
  | some ref =>
      simp only [Option.bind_some, tracks.table]
      cases opened ref <;> rfl

-----------------------------------------------------------------------------------------
-- Messages
-----------------------------------------------------------------------------------------

section Messages

variable {live : Live Num} {opened : OpenBatches} {session session' : Session Num} {irc : Pushed}

/-- A message that lies in an outermost batch is kept there. -/
theorem msg_kept (connected : session.connected = true) (tracks : Tracks opened session.batches)
    {ref : Bytes} {batch : OpenBatch} (lies : enclosing opened irc = some (ref, batch))
    (outer : batch.parent = none)
    : msg live session irc
      = some { session.log irc with
          batches := Function.update session.batches ref
            ({ batch with inside := batch.inside ++ [irc] } : OpenBatch).keep } := by
  have found := tracks.find irc
  rw [lies, Option.bind_some, OpenBatch.keep, if_pos outer] at found
  rw [msg, if_neg (not_not.mpr connected)]
  simp only [Session.log, found, Option.map_some, OpenBatch.keep, outer, if_true]

/-- What a message is handed on with, if it is: the outcome of its own handler. -/
def ownHandler (session : Session Num) (irc : Pushed) : EStateM.Result Stop (Session Num) Unit :=
  if irc.command = .name (lit "BATCH") then batch irc (session.log irc)
  else .ok () (session.log irc)

/-- Every other message is handed on, if its own handler returns. -/
theorem msg_live (connected : session.connected = true) (tracks : Tracks opened session.batches)
    (free : ∀ ref batch, enclosing opened irc = some (ref, batch) → batch.parent ≠ none)
    : msg live session irc
      = match ownHandler session irc with
        | .ok _ after => some (after.dispatch live irc)
        | .error (.raises _) after => some (after.dispatch live irc)
        | .error .hangs _ => none := by
  have found := tracks.find irc
  have nothing : ((enclosing opened irc).bind fun lies => lies.2.keep.map (lies.1, ·)) = none := by
    cases lies : enclosing opened irc with
    | none => rfl
    | some lies => rw [Option.bind_some, keep_nested (free _ _ lies), Option.map_none]
  rw [nothing] at found
  rw [msg, if_neg (not_not.mpr connected), ownHandler]
  simp only [Session.log, found]
  split_ifs <;> rfl

/-- What the handler of a message can do, and which line makes it do so. -/
inductive OwnHandler (session : Session Num) (irc : Pushed)
    : EStateM.Result Stop (Session Num) Unit → Prop
  | opens {ref identifier params} (line : lineOf irc = .opens ref identifier params)
    : OwnHandler session irc (.ok () { session.log irc with
        batches := Function.update session.batches ref
          (some { identifier, params, messages := [] }) })
  | unknown {ref} (line : lineOf irc = .closes ref) (absent : session.batches ref = none)
    : OwnHandler session irc (.ok () { session.log irc with
        batches := Function.update session.batches ref none })
  | closes {ref batch} (line : lineOf irc = .closes ref) (found : session.batches ref = some batch)
    : OwnHandler session irc (batchHandler batch { session.log irc with
        batches := Function.update session.batches ref none })
  | plain (line : lineOf irc = .plain) : OwnHandler session irc (.ok () (session.log irc))
  | raises (line : lineOf irc = .plain) (text : String)
    : OwnHandler session irc (.error (.raises text) (session.log irc))

/-- Every message is handled in one of these ways, by its line. -/
theorem ownHandler_cases (session : Session Num) (irc : Pushed)
    : OwnHandler session irc (ownHandler session irc) := by
  rw [ownHandler]
  cases line : lineOf irc with
  | opens ref identifier params =>
      obtain ⟨isBatch, outcome⟩ := batch_opens line (session.log irc)
      rw [if_pos isBatch, outcome]
      exact .opens line
  | closes ref =>
      obtain ⟨isBatch, outcome⟩ := batch_closes line (session.log irc)
      rw [if_pos isBatch, outcome, show (session.log irc).batches = session.batches from rfl]
      cases found : session.batches ref with
      | none => exact .unknown line found
      | some batch => exact .closes line found
  | plain =>
      split_ifs with isBatch
      · rcases batch_plain line isBatch (session.log irc) with outcome | ⟨text, outcome⟩
        · rw [outcome]
          exact .plain line
        · rw [outcome]
          exact .raises line text
      · exact .plain line

/-- The state that an action leaves, in whatever way it stops. -/
def Leaves (result : EStateM.Result Stop (Session Num) Unit) (left : Session Num) : Prop :=
  result = .ok () left ∨ ∃ stop, result = .error stop left

/-- An action that returns leaves its state. -/
theorem leaves_ok {left : Session Num} : Leaves (.ok () session) left ↔ left = session := by
  constructor
  · rintro (⟨⟨⟩⟩ | ⟨_, ⟨⟩⟩)
    rfl
  · rintro rfl
    exact Or.inl rfl

/-- So does an action that stops. -/
theorem leaves_error {stop : Stop} {left : Session Num}
    : Leaves (.error stop session) left ↔ left = session := by
  constructor
  · rintro (⟨⟨⟩⟩ | ⟨_, ⟨⟩⟩)
    rfl
  · rintro rfl
    exact Or.inr ⟨stop, rfl⟩

/-- The handler of a kind of batch leaves all but the client as it is. -/
theorem batchHandler_leaves {batch : Batch} {left : Session Num}
    (leaves : Leaves (batchHandler batch session) left)
    : left.batches = session.batches ∧ left.dispatched = session.dispatched := by
  obtain ⟨world, outcome | ⟨stop, outcome⟩⟩ := batchHandler_world batch session
  · rw [outcome, leaves_ok] at leaves
    exact leaves ▸ ⟨rfl, rfl⟩
  · rw [outcome, leaves_error] at leaves
    exact leaves ▸ ⟨rfl, rfl⟩

/-- No handler adds to what was handed on. -/
theorem ownHandler_dispatched {left : Session Num} (leaves : Leaves (ownHandler session irc) left)
    : left.dispatched = session.dispatched := by
  have way := ownHandler_cases session irc
  generalize ownHandler session irc = outcome at way leaves
  cases way with
  | opens line => exact leaves_ok.mp leaves ▸ rfl
  | unknown line absent => exact leaves_ok.mp leaves ▸ rfl
  | closes line found => exact (batchHandler_leaves leaves).2
  | plain line => exact leaves_ok.mp leaves ▸ rfl
  | raises line text => exact leaves_error.mp leaves ▸ rfl

/-- A message that lies nowhere leaves the table that belongs to the batches behind it. -/
theorem tracks_ownHandler (tracks : Tracks opened session.batches)
    (lies : enclosing opened irc = none) {left : Session Num}
    (leaves : Leaves (ownHandler session irc) left)
    : Tracks (after opened irc) left.batches := by
  have nothing : add opened irc = opened := by rw [add, lies]
  have way := ownHandler_cases session irc
  generalize ownHandler session irc = outcome at way leaves
  cases way with
  | @opens ref identifier params line =>
      rw [leaves_ok.mp leaves]
      simp only [after, line, nothing, lies, Option.map_none, Option.getD_none]
      exact tracks.update ref (fun batch same _ => Option.some.inj same ▸ rfl)
  | @unknown ref line absent =>
      rw [leaves_ok.mp leaves]
      simp only [after, line, nothing]
      exact tracks.update ref nofun
  | @closes ref batch line found =>
      rw [(batchHandler_leaves leaves).1]
      simp only [after, line, nothing]
      exact tracks.update ref nofun
  | plain line =>
      rw [leaves_ok.mp leaves]
      simp only [after, line, nothing]
      exact tracks
  | raises line text =>
      rw [leaves_error.mp leaves]
      simp only [after, line, nothing]
      exact tracks

/-- What becomes of a message that is handed on. -/
theorem msg_moves (connected : session.connected = true) (tracks : Tracks opened session.batches)
    (free : ∀ ref batch, enclosing opened irc = some (ref, batch) → batch.parent ≠ none)
    (moves : msg live session irc = some session')
    : ∃ left, Leaves (ownHandler session irc) left ∧ session' = left.dispatch live irc := by
  rw [msg_live connected tracks free] at moves
  cases outcome : ownHandler session irc with
  | ok value left =>
      simp only [outcome] at moves
      exact ⟨left, Or.inl rfl, (Option.some.inj moves).symm⟩
  | error stop left =>
      cases stop with
      | raises text =>
          simp only [outcome] at moves
          exact ⟨left, Or.inr ⟨_, rfl⟩, (Option.some.inj moves).symm⟩
      | hangs =>
          simp only [outcome] at moves
          cases moves

/-- A message of an outermost batch leaves the table that belongs to the batches behind it. -/
theorem tracks_kept (tracks : Tracks opened session.batches) {ref : Bytes} {batch : OpenBatch}
    (lies : enclosing opened irc = some (ref, batch)) (outer : batch.parent = none)
    (wellFormed : WellFormed opened irc)
    : Tracks (after opened irc)
        (Function.update session.batches ref
          ({ batch with inside := batch.inside ++ [irc] } : OpenBatch).keep) := by
  have found := opened_of_enclosing lies
  have root := tracks.roots ref batch found outer
  have added : add opened irc
      = Function.update opened ref (some { batch with inside := batch.inside ++ [irc] }) := by
    simp only [add, lies, root, found]
  have base : Tracks (add opened irc)
      (Function.update session.batches ref
        ({ batch with inside := batch.inside ++ [irc] } : OpenBatch).keep) := by
    rw [added]
    exact tracks.update ref (fun changed same _ => Option.some.inj same ▸ root)
  cases line : lineOf irc with
  | plain =>
      simp only [after, line]
      exact base
  | opens other identifier params =>
      simp only [WellFormed, line] at wellFormed
      simp only [after, line, lies]
      have apart : other ≠ ref := by
        rintro rfl
        rw [found] at wellFormed
        cases wellFormed
      have absent := tracks.table other
      rw [wellFormed, Option.bind_none] at absent
      refine base.update_nested ?_ ?_
      · rw [Function.update_of_ne apart, absent]
      · rintro nested ⟨⟩
        exact Option.some_ne_none ref
  | closes other =>
      simp only [WellFormed, line, lies] at wellFormed
      simp only [after, line]
      obtain ⟨inner, foundInner, parent, _⟩ := wellFormed
      have nested : inner.parent ≠ none := by
        rw [parent]
        exact Option.some_ne_none ref
      have apart : other ≠ ref := by
        rintro rfl
        rw [found] at foundInner
        cases foundInner
        exact nested outer
      have absent := tracks.table other
      rw [foundInner, Option.bind_some, keep_nested nested] at absent
      refine base.update_nested ?_ nofun
      rw [Function.update_of_ne apart, absent]

/-- The batch that a message ends, if it lies nowhere. -/
theorem ended_outer (wellFormed : WellFormed opened irc) (lies : enclosing opened irc = none)
    {ref : Bytes} (line : lineOf irc = .closes ref)
    : ∃ batch, opened ref = some batch ∧ batch.parent = none := by
  simp only [WellFormed, line, lies, Option.map_none] at wellFormed
  obtain ⟨batch, found, outer, _⟩ := wellFormed
  exact ⟨batch, found, outer⟩

/-- The end of an outermost batch with history is handled by what `chathistory` makes of the
client.
-/
theorem batch_history (tracks : Tracks opened session.batches) {ref : Bytes}
    {batch : OpenBatch} (line : lineOf irc = .closes ref) (found : opened ref = some batch)
    (outer : batch.parent = none) (isHistory : batch.identifier = some (lit "chathistory"))
    : Batches.batch irc (session.log irc)
      = onClient (chathistory batch.params batch.inside) { session.log irc with
          batches := Function.update session.batches ref none } := by
  have kept := tracks.table ref
  rw [found, Option.bind_some, OpenBatch.keep, if_pos outer] at kept
  obtain ⟨_, outcome⟩ := batch_closes line (session.log irc)
  rw [outcome, show (session.log irc).batches ref = session.batches ref from rfl, kept]
  exact batchHandler_history isHistory _

/-- Where the end of a batch with history is right, the batch can be replayed. -/
theorem replayable_of_replays (tracks : Tracks opened session.batches) {ref : Bytes}
    {batch : OpenBatch} (line : lineOf irc = .closes ref) (found : opened ref = some batch)
    (outer : batch.parent = none) (isHistory : batch.identifier = some (lit "chathistory"))
    (replays : Replays live batch session session' irc)
    : Replayable session.world.client batch.params batch.inside := by
  obtain ⟨_, ended, _, returns, _⟩ := replays
  rw [batch_history tracks line found outer isHistory, onClient] at returns
  cases outcome : chathistory batch.params batch.inside (session.log irc).world.client with
  | ok value client =>
      have replayable := replayable_of_chathistory outcome
      exact replayable
  | error stop client =>
      simp only [outcome] at returns
      cases returns

/-- Where a batch with history can be replayed, its end is right. -/
theorem replays_of_replayable (connected : session.connected = true)
    (tracks : Tracks opened session.batches) (lies : enclosing opened irc = none) {ref : Bytes}
    {batch : OpenBatch} (line : lineOf irc = .closes ref) (found : opened ref = some batch)
    (outer : batch.parent = none) (isHistory : batch.identifier = some (lit "chathistory"))
    (replayable : Replayable session.world.client batch.params batch.inside)
    : ∃ session', msg live session irc = some session'
        ∧ Replays live batch session session' irc := by
  obtain ⟨target, first, splits⟩ := replayable
  let ended : Session Num := { session.log irc with
    world := { session.world with
      client := { (session.log irc).world.client with
        buffers := replay session.world.client.statusmsg session.world.client.buffers
          (irccase target) batch.inside } }
    batches := Function.update session.batches ref none }
  have returns : Batches.batch irc (session.log irc) = .ok () ended := by
    rw [batch_history tracks line found outer isHistory, onClient]
    simp only [@chathistory_ok _ (session.log irc).world.client _ _ first _ splits]
    rfl
  have isHandled : ownHandler session irc = .ok () ended := by
    rw [ownHandler, if_pos (batch_closes line session).1]
    exact returns
  refine ⟨ended.dispatch live irc, ?_, target, ended, first, returns, rfl, rfl, ?_⟩
  · rw [msg_live connected tracks (fun ref batch same => absurd (lies.symm.trans same) nofun),
      isHandled]
  · exact fun buffer entries isOpen holds => holds_replay isOpen holds _ _

/-- Whatever else a message does, it is handed on. -/
theorem exists_msg (connected : session.connected = true)
    (tracks : Tracks opened session.batches) (lies : enclosing opened irc = none)
    (noHistory : ∀ ref batch,
      lineOf irc = .closes ref → session.batches ref = some batch
      → batch.identifier ≠ some (lit "chathistory"))
    : ∃ session', msg live session irc = some session' := by
  have free : ∀ ref batch, enclosing opened irc = some (ref, batch) → batch.parent ≠ none :=
    fun ref batch same => absurd (lies.symm.trans same) nofun
  rw [msg_live connected tracks free]
  have way := ownHandler_cases session irc
  generalize ownHandler session irc = outcome at way ⊢
  cases way with
  | opens line => exact ⟨_, rfl⟩
  | unknown line absent => exact ⟨_, rfl⟩
  | @closes ref batch line found =>
      have returns := batchHandler_returns (noHistory ref batch line found)
        { session.log irc with batches := Function.update session.batches ref none }
      generalize batchHandler batch _ = outcome at returns ⊢
      cases outcome with
      | ok value left => exact ⟨_, rfl⟩
      | error stop left =>
          cases stop with
          | raises text => exact ⟨_, rfl⟩
          | hangs => exact absurd rfl (returns left)
  | plain line => exact ⟨_, rfl⟩
  | raises line text => exact ⟨_, rfl⟩

/-- A message that is handled right does not lie in a nested batch: it would be handed on. -/
theorem unnested_of_handled (connected : session.connected = true)
    (tracks : Tracks opened session.batches) (moves : msg live session irc = some session')
    (right : Handled live opened session session' irc) {ref : Bytes} {batch : OpenBatch}
    (lies : enclosing opened irc = some (ref, batch))
    : batch.parent = none := by
  by_contra nested
  have free : ∀ other inner, enclosing opened irc = some (other, inner) → inner.parent ≠ none := by
    intro other inner same
    obtain ⟨rfl, rfl⟩ := Prod.mk.inj (Option.some.inj (lies.symm.trans same))
    exact nested
  obtain ⟨left, leaves, rfl⟩ := msg_moves connected tracks free moves
  have same := (right.kept (by rw [lies]; rfl)).1
  rw [Session.dispatch, ownHandler_dispatched leaves] at same
  exact List.cons_ne_nil irc [] (List.append_right_eq_self.mp same)

/-- A message that lies in an outermost batch is handled right. -/
theorem handled_of_lies (connected : session.connected = true)
    (tracks : Tracks opened session.batches) (wellFormed : WellFormed opened irc) {ref : Bytes}
    {batch : OpenBatch} (lies : enclosing opened irc = some (ref, batch))
    (outer : batch.parent = none)
    : ∃ session',
        msg live session irc = some session' ∧ Handled live opened session session' irc := by
  refine ⟨_, msg_kept connected tracks lies outer, fun _ => ⟨rfl, rfl, rfl⟩, ?_⟩
  -- it ends no outermost batch: the line would lie where the batch was started
  intro other ended line found unnested
  simp only [WellFormed, line, lies] at wellFormed
  obtain ⟨_, foundEnded, parent, _⟩ := wellFormed
  cases found.symm.trans foundEnded
  cases unnested.symm.trans parent

/-- A message that lies nowhere is handled right, if the batch with history that it may end can
be replayed.
-/
theorem handled_of_free (connected : session.connected = true)
    (tracks : Tracks opened session.batches) (wellFormed : WellFormed opened irc)
    (lies : enclosing opened irc = none) (fits : Fits opened session irc)
    : ∃ session',
        msg live session irc = some session' ∧ Handled live opened session session' irc := by
  have nowhere : ¬ (enclosing opened irc).isSome := by
    rw [lies]
    exact Bool.false_ne_true
  by_cases history : ∃ ref batch,
      lineOf irc = .closes ref ∧ opened ref = some batch ∧ batch.parent = none
      ∧ batch.identifier = some (lit "chathistory")
  · obtain ⟨ref, batch, line, found, outer, isHistory⟩ := history
    obtain ⟨session', moves, replays⟩ := replays_of_replayable connected tracks lies line found
      outer isHistory (fits.replayable ref batch line found outer isHistory)
    refine ⟨session', moves, fun isSome => absurd isSome nowhere, ?_⟩
    intro other ended line' found' _ _
    cases line.symm.trans line'
    cases found.symm.trans found'
    exact replays
  · push Not at history
    have noHistory : ∀ ref batch, lineOf irc = .closes ref → session.batches ref = some batch
        → batch.identifier ≠ some (lit "chathistory") := by
      intro ref batch line found
      obtain ⟨ended, isOpen, outer⟩ := ended_outer wellFormed lies line
      have kept := tracks.table ref
      rw [isOpen, Option.bind_some, OpenBatch.keep, if_pos outer, found] at kept
      cases kept
      exact history ref ended line isOpen outer
    obtain ⟨session', moves⟩ := exists_msg connected tracks lies noHistory
    refine ⟨session', moves, fun isSome => absurd isSome nowhere, ?_⟩
    intro ref batch line found outer isHistory
    exact absurd isHistory (history ref batch line found outer)

/-- The client makes of a message what it has to exactly if the message fits. -/
theorem handled_iff (connected : session.connected = true)
    (tracks : Tracks opened session.batches) (wellFormed : WellFormed opened irc)
    : (∃ session',
        msg live session irc = some session' ∧ Handled live opened session session' irc)
      ↔ Fits opened session irc := by
  constructor
  · rintro ⟨session', moves, right⟩
    constructor
    · exact fun ref batch lies => unnested_of_handled connected tracks moves right lies
    · intro ref batch line found outer isHistory
      exact replayable_of_replays tracks line found outer isHistory
        (right.replays ref batch line found outer isHistory)
  · intro fits
    cases lies : enclosing opened irc with
    | none => exact handled_of_free connected tracks wellFormed lies fits
    | some entry =>
        exact handled_of_lies connected tracks wellFormed lies (fits.unnested _ _ lies)

/-- A message that fits leaves the table that belongs to the batches behind it. -/
theorem tracks_msg (connected : session.connected = true)
    (tracks : Tracks opened session.batches) (wellFormed : WellFormed opened irc)
    (fits : Fits opened session irc) (moves : msg live session irc = some session')
    : Tracks (after opened irc) session'.batches := by
  cases lies : enclosing opened irc with
  | some entry =>
      have outer := fits.unnested _ _ lies
      rw [msg_kept connected tracks lies outer] at moves
      cases moves
      exact tracks_kept tracks lies outer wellFormed
  | none =>
      obtain ⟨left, leaves, rfl⟩ := msg_moves connected tracks
        (fun ref batch same => absurd (lies.symm.trans same) nofun) moves
      have kept := tracks_ownHandler tracks lies leaves
      exact kept

end Messages

-----------------------------------------------------------------------------------------
-- Streams
-----------------------------------------------------------------------------------------

/-- From any state that belongs to the batches that are open, by induction on the stream: a
message that fits keeps the table, and one that does not fit is handled wrong.
-/
theorem handledAll_iff_of_tracks (live : Live Num) {opened : OpenBatches} {session : Session Num}
    (tracks : Tracks opened session.batches) {events : List (Event Num)}
    (wellFormed : WellFormedStream opened events)
    : HandledAll live opened session events ↔ FitsAll live opened session events := by
  induction events generalizing opened session with
  | nil => exact Iff.rfl
  | cons event events ih =>
      cases event with
      | other change =>
          exact forall₂_congr fun session' moves =>
            ih (Option.some.inj moves ▸ tracks) wellFormed
      | message irc =>
          obtain ⟨here, later⟩ := wellFormed
          refine forall_congr' fun connected => ?_
          constructor
          · rintro ⟨session', moves, right, rest⟩
            have fits := (handled_iff connected tracks here).mp ⟨session', moves, right⟩
            refine ⟨fits, fun other moves' => ?_⟩
            obtain rfl := Option.some.inj (moves.symm.trans moves')
            exact (ih (tracks_msg connected tracks here fits moves) later).mp rest
          · rintro ⟨fits, rest⟩
            obtain ⟨session', moves, right⟩ := (handled_iff connected tracks here).mpr fits
            exact ⟨session', moves, right,
              (ih (tracks_msg connected tracks here fits moves) later).mpr (rest session' moves)⟩

/-- A well-formed stream is handled right exactly if no message lies in a nested batch and every
batch with history can be replayed at its end.
-/
theorem handledAll_iff (live : Live Num) (world : World Num) {events : List (Event Num)}
    (wellFormed : WellFormedStream (fun _ => none) events)
    : HandledAll live (fun _ => none) (.new world) events
      ↔ FitsAll live (fun _ => none) (.new world) events :=
  handledAll_iff_of_tracks live tracks_nothing wellFormed

/-- A line without a source; the tag names a batch. -/
def lineIn (ref : Option Bytes) (command : Bytes) (args : List Bytes) : Event Nat :=
  .message (pushIrcMsg {
    tags := ref.toList.map fun val => { key := lit "batch", val }
    source := []
    command, args
  })

/-- A batch with history that has one message. -/
def history : List (Event Nat) :=
  [
    lineIn none (lit "BATCH") [lit "+a", lit "chathistory", lit "#c"],
    lineIn (some (lit "a")) (lit "PRIVMSG") [lit "#c", lit "hi"],
    lineIn none (lit "BATCH") [lit "-a"]
  ]

/-- The first lines of a batch with history in which another one lies. -/
def nestedHistory : List (Event Nat) :=
  [
    lineIn none (lit "BATCH") [lit "+a", lit "chathistory", lit "#c"],
    lineIn (some (lit "a")) (lit "BATCH") [lit "+b", lit "chathistory", lit "#c"],
    lineIn (some (lit "b")) (lit "PART") [lit "#c"]
  ]

/-- What holds of the batches that are open holds of them when one more is. -/
theorem forall_update {opened : OpenBatches} {holds : OpenBatch → Prop}
    (all : ∀ ref batch, opened ref = some batch → holds batch) {ref : Bytes}
    {changed : Option OpenBatch} (here : ∀ batch, changed = some batch → holds batch)
    : ∀ other batch, Function.update opened ref changed other = some batch → holds batch := by
  intro other batch found
  by_cases same : other = ref
  · rw [same, Function.update_self] at found
    exact here batch found
  · rw [Function.update_of_ne same] at found
    exact all other batch found

/-- The batch is started once, and ended behind its message. -/
theorem wellFormed_history : WellFormedStream (fun _ => none) history := by
  refine ⟨(rfl : none = _), trivial, ⟨_, rfl, rfl, ?_⟩, trivial⟩
  refine forall_update (forall_update nofun ?_) ?_ <;> rintro _ ⟨⟩ ⟨⟩

/-- The inner batch is started inside the outer one. -/
theorem wellFormed_nestedHistory : WellFormedStream (fun _ => none) nestedHistory :=
  ⟨(rfl : none = _), (rfl : none = _), trivial, trivial⟩

/-- A client with one open buffer. -/
def openWorld : World Nat where
  client := { Chat.welcomedClient with
    buffers := Function.update (fun _ => none) (irccase (lit "#c")) (some (.new (lit "#c"))) }
  networks := none

/-- The message of the batch is not nested, and its target can be split. -/
theorem fitsAll_history
    : FitsAll (fun _ world => (world, true)) (fun _ => none) (.new openWorld) history := by
  refine fun _ => ⟨⟨nofun, nofun⟩, ?_⟩
  rintro _ ⟨⟩ _
  refine ⟨⟨?_, nofun⟩, ?_⟩
  · rintro _ _ ⟨⟩
    rfl
  · rintro _ ⟨⟩ _
    refine ⟨⟨nofun, ?_⟩, fun _ _ => trivial⟩
    rintro _ _ ⟨⟩ ⟨⟩ _ _
    refine ⟨lit "#c", rfl, fun _ irc isIn _ => ?_⟩
    obtain rfl := List.mem_singleton.mp isIn
    exact ⟨lit "@+", lit "#c", rfl, rfl, chr '#', by decide, by decide⟩

/-- A batch without others in it, for a buffer that is open. -/
theorem handledAll_iff_witness
    : HandledAll (fun _ world => (world, true)) (fun _ => none) (.new openWorld) history :=
  (handledAll_iff _ openWorld wellFormed_history).mpr fitsAll_history

/-- A message of a nested batch is handed on: the table does not know of the batch. -/
theorem handledAll_counterexample
    : WellFormedStream (fun _ => none) nestedHistory
      ∧ ¬ HandledAll (fun _ world => (world, true)) (fun _ => none) (.new openWorld)
          nestedHistory := by
  refine ⟨wellFormed_nestedHistory, fun right => ?_⟩
  have fits := (handledAll_iff_of_tracks _ tracks_nothing wellFormed_nestedHistory).mp right
  have behindOuter := (fits rfl).2 _ rfl
  have behindInner := (behindOuter rfl).2 _ rfl
  cases (behindInner rfl).1.unnested (lit "b") _ rfl

end Snowcone.Batches
