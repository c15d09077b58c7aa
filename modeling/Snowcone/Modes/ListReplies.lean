import Snowcone.Modes.State

/-! The replies that list the masks of a channel: the items are collected in one table, which the
end of the list puts into the channel.
-/

namespace Snowcone.Modes

open Bytes
open Sending (irccase)

variable {Num : Type}

/-- The list that is collected. -/
def IrcState.collected (state : IrcState Num) : ModeList :=
  state.partialModeList.getD fun _ => none

/-- `Irc:get_partial_mode_list()`. -/
def IrcState.getPartialModeList (state : IrcState Num) : IrcState Num × ModeList :=
  ({ state with partialModeList := some state.collected }, state.collected)

/-- `Irc:clear_partial_mode_list()`. -/
def IrcState.clearPartialModeList (state : IrcState Num) : IrcState Num :=
  { state with partialModeList := none }

/-- The handlers of list items, by where the mask stands. -/
def listItem (mask : Nat) (irc : Message) (state : IrcState Num) : IrcState Num :=
  let (state, modeList) := state.getPartialModeList
  match irc.arg mask with
  -- `nil` is no key: the assignment raises an error, which is reported.
  | none => state
  | some text =>
      let entry := { who := irc.arg (mask + 1), ts := irc.arg (mask + 2) }
      { state with partialModeList := some (Function.update modeList text (some entry)) }

/-- The handlers of the ends of lists, by the mode. -/
def endOfList (mode : Bytes) (irc : Message) (state : IrcState Num) : IrcState Num :=
  match irc.arg 2 with
  -- `nil` is no name: `irccase` raises an error, which is reported.
  | none => state
  | some name =>
      match state.channels (irccase name) with
      | none => state
      | some channel =>
          let (state, modeList) := state.getPartialModeList
          let channel := {
            channel with listModes := Function.update channel.listModes mode (some modeList) }
          { state with
            channels := Function.update state.channels (irccase name) (some channel)
            }.clearPartialModeList

/-- `M[N.RPL_BANLIST]`. -/
def rplBanlist : Message → IrcState Num → IrcState Num := listItem 3

/-- `M[N.RPL_ENDOFBANLIST]`. -/
def rplEndofbanlist : Message → IrcState Num → IrcState Num := endOfList (lit "b")

/-- `M[N.RPL_QUIETLIST]`. -/
def rplQuietlist : Message → IrcState Num → IrcState Num := listItem 4

/-- `M[N.RPL_ENDOFQUIETLIST]`. -/
def rplEndofquietlist : Message → IrcState Num → IrcState Num := endOfList (lit "q")

/-- `M[N.RPL_EXCEPTLIST]`. -/
def rplExceptlist : Message → IrcState Num → IrcState Num := listItem 3

/-- `M[N.RPL_ENDOFEXCEPTLIST]`. -/
def rplEndofexceptlist : Message → IrcState Num → IrcState Num := endOfList (lit "e")

/-- `M[N.RPL_INVITELIST]`. -/
def rplInvitelist : Message → IrcState Num → IrcState Num := listItem 3

/-- `M[N.RPL_ENDOFINVITELIST]`. -/
def rplEndofinvitelist : Message → IrcState Num → IrcState Num := endOfList (lit "I")

/-- The handlers under their numerics. -/
def listHandler : Nat → Option (Message → IrcState Num → IrcState Num)
  | 346 => some rplInvitelist
  | 347 => some rplEndofinvitelist
  | 348 => some rplExceptlist
  | 349 => some rplEndofexceptlist
  | 367 => some rplBanlist
  | 368 => some rplEndofbanlist
  | 728 => some rplQuietlist
  | 729 => some rplEndofquietlist
  | _ => none

/-- A message with a numeric is handled. -/
def handleNumeric (state : IrcState Num) (message : Nat × Message) : IrcState Num :=
  match listHandler message.1 with
  | none => state
  | some handler => handler message.2 state

-----------------------------------------------------------------------------------------
-- Whole replies
-----------------------------------------------------------------------------------------

/-- The kinds of lists. -/
inductive ListKind where
  | ban
  | quiet
  | except
  | invite

/-- The mode of a list. -/
def ListKind.mode : ListKind → Bytes
  | ban => lit "b"
  | quiet => lit "q"
  | except => lit "e"
  | invite => lit "I"

/-- The numerics of the items and of the end of a list. -/
def ListKind.numerics : ListKind → Nat × Nat
  | ban => (367, 368)
  | quiet => (728, 729)
  | except => (348, 349)
  | invite => (346, 347)

/-- What stands between the channel and the mask of an item. -/
def ListKind.named : ListKind → List Bytes
  | quiet => [lit "q"]
  | _ => []

/-- A whole reply: the items of one list, each a mask with what follows it, and the end. -/
structure Reply where
  kind : ListKind
  source : Option Bytes
  client : Bytes
  channel : Bytes
  items : List (Bytes × List Bytes)
  ending : List Bytes

/-- The message of an item. -/
def Reply.item (reply : Reply) (item : Bytes × List Bytes) : Nat × Message :=
  (reply.kind.numerics.1, {
    source := reply.source
    args := reply.client :: reply.channel :: (reply.kind.named ++ item.1 :: item.2) })

/-- The message that ends the list. -/
def Reply.last (reply : Reply) : Nat × Message :=
  (reply.kind.numerics.2, {
    source := reply.source
    args := reply.client :: reply.channel :: (reply.kind.named ++ reply.ending) })

/-- The messages of a reply. -/
def Reply.messages (reply : Reply) : List (Nat × Message) :=
  reply.items.map reply.item ++ [reply.last]

/-- The entry for an item: who set the mask, and when. -/
def entryOf (more : List Bytes) : ListEntry := { who := more[0]?, ts := more[1]? }

/-- A list with further items; of two items with one mask the later one counts. -/
def withItems (list : ModeList) (items : List (Bytes × List Bytes)) : ModeList :=
  items.foldl (fun list item => Function.update list item.1 (some (entryOf item.2))) list

/-- The list that a reply gives: its masks with their setters and timestamps, and no others. -/
def Reply.list (reply : Reply) : ModeList := withItems (fun _ => none) reply.items

/-- The masks of a reply. -/
def Reply.masks (reply : Reply) : List Bytes := reply.items.map Prod.fst

/-- What happens on a connection: whole replies, and between them the channels change in any
way.
-/
inductive Event (Num : Type) where
  | reply (reply : Reply)
  | between (channels : Bytes → Option Channel)

/-- What an event does. -/
def step (state : IrcState Num) : Event Num → IrcState Num
  | .reply reply => reply.messages.foldl handleNumeric state
  | .between channels => { state with channels }

/-- After the end of a list of a channel that is joined, the list of the channel is that of the
reply.
-/
def Exact (state : IrcState Num) (reply : Reply) : Prop :=
  ∀ channel, state.channels (irccase reply.channel) = some channel →
    ∃ after, (step state (.reply reply)).channels (irccase reply.channel) = some after
      ∧ after.listModes reply.kind.mode = some reply.list

/-- Every list of a run is that of its reply. -/
def AllExact (state : IrcState Num) : List (Event Num) → Prop
  | [] => True
  | event :: events =>
      (∀ reply, event = .reply reply → Exact state reply) ∧ AllExact (step state event) events

/-- Some masks have been collected since the last reply for a channel that was joined. When the
next such reply ends, each of them is a mask of this reply too.
-/
def Repeated (channels : Bytes → Option Channel) (pending : List Bytes)
    : List (Event Num) → Prop
  | [] => True
  | .between channels :: events => Repeated channels pending events
  | .reply reply :: events =>
      if (channels (irccase reply.channel)).isSome then
        (∀ mask ∈ pending, mask ∈ reply.masks) ∧ Repeated channels [] events
      else Repeated channels (pending ++ reply.masks) events

-----------------------------------------------------------------------------------------
-- One reply
-----------------------------------------------------------------------------------------

variable {state : IrcState Num} {reply : Reply}

/-- The first item is taken before the others. -/
theorem withItems_cons (list : ModeList) (item : Bytes × List Bytes)
    (items : List (Bytes × List Bytes))
    : withItems list (item :: items)
      = withItems (Function.update list item.1 (some (entryOf item.2))) items :=
  rfl

/-- A mask that is in none of the items keeps its entry, by induction on the items. -/
theorem withItems_of_not_mem {list : ModeList} {items : List (Bytes × List Bytes)} {mask : Bytes}
    (absent : mask ∉ items.map Prod.fst)
    : withItems list items mask = list mask := by
  induction items generalizing list with
  | nil => rfl
  | cons item items ih =>
      rw [List.map_cons, List.mem_cons, not_or] at absent
      rw [withItems_cons, ih absent.2, Function.update_of_ne absent.1]

/-- A mask of the items has the entry of the last of them, whatever was there before, by
induction on the items.
-/
theorem withItems_of_mem {list other : ModeList} {items : List (Bytes × List Bytes)}
    {mask : Bytes} (isIn : mask ∈ items.map Prod.fst)
    : (withItems list items mask).isSome
      ∧ withItems list items mask = withItems other items mask := by
  induction items generalizing list other with
  | nil => cases isIn
  | cons item items ih =>
      rw [withItems_cons, withItems_cons]
      by_cases later : mask ∈ items.map Prod.fst
      · exact ih later
      · obtain rfl : mask = item.1 := (List.mem_cons.mp isIn).resolve_right later
        rw [withItems_of_not_mem later, withItems_of_not_mem later, Function.update_self,
          Function.update_self]
        exact ⟨rfl, rfl⟩

/-- A list with further items is the list of the items alone if it has no other masks. -/
theorem withItems_eq_iff (list : ModeList) (items : List (Bytes × List Bytes))
    : withItems list items = withItems (fun _ => none) items
      ↔ ∀ mask, (list mask).isSome → mask ∈ items.map Prod.fst := by
  constructor
  · intro same mask isSome
    by_contra absent
    have here := congrFun same mask
    rw [withItems_of_not_mem absent, withItems_of_not_mem absent] at here
    rw [here] at isSome
    cases isSome
  · intro covers
    funext mask
    by_cases isIn : mask ∈ items.map Prod.fst
    · exact (withItems_of_mem isIn).2
    · rw [withItems_of_not_mem isIn, withItems_of_not_mem isIn]
      exact Option.not_isSome_iff_eq_none.mp fun isSome => isIn (covers mask isSome)

/-- An item is collected. -/
theorem handle_item (state : IrcState Num) (reply : Reply) (item : Bytes × List Bytes)
    : handleNumeric state (reply.item item)
      = { state with
          partialModeList := some (Function.update state.collected item.1
            (some (entryOf item.2))) } := by
  obtain ⟨mask, more⟩ := item
  cases kind : reply.kind <;>
    simp [handleNumeric, Reply.item, ListKind.numerics, ListKind.named, kind, listHandler,
      rplBanlist, rplQuietlist, rplExceptlist, rplInvitelist, listItem,
      IrcState.getPartialModeList, Message.arg, entryOf]

/-- The items of a reply are collected, and nothing else changes, by induction on the items. -/
theorem handle_items (state : IrcState Num) (reply : Reply) (items : List (Bytes × List Bytes))
    : ∃ partialModeList,
        (items.map reply.item).foldl handleNumeric state = { state with partialModeList }
        ∧ ({ state with partialModeList } : IrcState Num).collected
          = withItems state.collected items := by
  induction items generalizing state with
  | nil => exact ⟨state.partialModeList, rfl, rfl⟩
  | cons item items ih =>
      rw [List.map_cons, List.foldl_cons, handle_item]
      obtain ⟨partialModeList, ends, collects⟩ := ih { state with
        partialModeList := some (Function.update state.collected item.1
          (some (entryOf item.2))) }
      exact ⟨partialModeList, ends, collects⟩

/-- The end of a list for a channel that is not joined does nothing. -/
theorem handle_last_of_none (absent : state.channels (irccase reply.channel) = none)
    : handleNumeric state reply.last = state := by
  cases kind : reply.kind <;>
    simp [handleNumeric, Reply.last, ListKind.numerics, kind, listHandler, rplEndofbanlist,
      rplEndofquietlist, rplEndofexceptlist, rplEndofinvitelist, endOfList, Message.arg, absent]

/-- The end of a list puts what was collected into a channel that is joined. -/
theorem handle_last_of_some {channel : Channel}
    (found : state.channels (irccase reply.channel) = some channel)
    : handleNumeric state reply.last
      = { state with
          channels := Function.update state.channels (irccase reply.channel)
            (some { channel with
              listModes := Function.update channel.listModes reply.kind.mode
                (some state.collected) })
          partialModeList := none } := by
  cases kind : reply.kind <;>
    simp [handleNumeric, Reply.last, ListKind.numerics, kind, listHandler, rplEndofbanlist,
      rplEndofquietlist, rplEndofexceptlist, rplEndofinvitelist, endOfList, Message.arg, found,
      ListKind.mode, IrcState.getPartialModeList, IrcState.clearPartialModeList]

/-- What is collected when a reply ends. -/
theorem step_reply (state : IrcState Num) (reply : Reply)
    : ∃ before : IrcState Num,
        before.channels = state.channels
        ∧ before.collected = withItems state.collected reply.items
        ∧ step state (.reply reply) = handleNumeric before reply.last := by
  obtain ⟨partialModeList, ends, collects⟩ := handle_items state reply reply.items
  refine ⟨{ state with partialModeList }, rfl, collects, ?_⟩
  change reply.messages.foldl handleNumeric state = _
  rw [Reply.messages, List.foldl_append, ends]
  rfl

/-- A reply for a channel that is not joined leaves its items collected. -/
theorem step_reply_of_none (absent : state.channels (irccase reply.channel) = none)
    : (step state (.reply reply)).channels = state.channels
      ∧ (step state (.reply reply)).collected = withItems state.collected reply.items := by
  obtain ⟨before, same, collects, ends⟩ := step_reply state reply
  rw [← same] at absent
  rw [ends, handle_last_of_none absent]
  exact ⟨same, collects⟩

/-- A reply for a channel that is joined puts its items, and what was collected before, into the
channel.
-/
theorem step_reply_of_some {channel : Channel}
    (found : state.channels (irccase reply.channel) = some channel)
    : (step state (.reply reply)).channels
        = Function.update state.channels (irccase reply.channel)
          (some { channel with
            listModes := Function.update channel.listModes reply.kind.mode
              (some (withItems state.collected reply.items)) })
      ∧ (step state (.reply reply)).collected = fun _ => none := by
  obtain ⟨before, same, collects, ends⟩ := step_reply state reply
  rw [← same] at found
  rw [ends, handle_last_of_some found, ← collects, ← same]
  exact ⟨rfl, rfl⟩

/-- The list of a reply is exact if and only if the masks that were collected before are its own.
-/
theorem exact_iff
    : Exact state reply
      ↔ ((state.channels (irccase reply.channel)).isSome →
        ∀ mask, (state.collected mask).isSome → mask ∈ reply.masks) := by
  cases found : state.channels (irccase reply.channel) with
  | none =>
      constructor
      · rintro - ⟨⟩
      · intro _ channel here
        rw [found] at here
        cases here
  | some channel =>
      obtain ⟨channels, -⟩ := step_reply_of_some found
      have listed : Exact state reply
          ↔ withItems state.collected reply.items = withItems (fun _ => none) reply.items := by
        constructor
        · intro exact
          obtain ⟨after, here, lists⟩ := exact channel found
          rw [channels, Function.update_self] at here
          obtain rfl := Option.some.inj here
          change Function.update channel.listModes _ _ _ = _ at lists
          rw [Function.update_self] at lists
          exact Option.some.inj lists
        · intro same channel' here
          obtain rfl := Option.some.inj (found.symm.trans here)
          refine ⟨_, (congrFun channels _).trans (Function.update_self ..), ?_⟩
          exact (Function.update_self ..).trans (congrArg some same)
      rw [listed, withItems_eq_iff]
      exact ⟨fun covers _ => covers, fun covers => covers rfl⟩

-----------------------------------------------------------------------------------------
-- Whole runs
-----------------------------------------------------------------------------------------

/-- Which masks have entries after further items. -/
theorem isSome_withItems {list : ModeList} {items : List (Bytes × List Bytes)} {mask : Bytes}
    : (withItems list items mask).isSome
      ↔ (list mask).isSome ∨ mask ∈ items.map Prod.fst := by
  by_cases isIn : mask ∈ items.map Prod.fst
  · exact ⟨fun _ => .inr isIn, fun _ => (@withItems_of_mem _ list _ _ isIn).1⟩
  · rw [withItems_of_not_mem isIn, or_iff_left isIn]

/-- Which masks are repeated depends on which channels are joined only, by induction on the
events.
-/
theorem repeated_congr {channels channels' : Bytes → Option Channel} {pending : List Bytes}
    {events : List (Event Num)}
    (joined : ∀ name, (channels name).isSome = (channels' name).isSome)
    : Repeated channels pending events ↔ Repeated channels' pending events := by
  induction events generalizing pending with
  | nil => exact Iff.rfl
  | cons event events ih =>
      cases event with
      | between channels => exact Iff.rfl
      | reply reply =>
          rw [Repeated, Repeated, joined]
          split
          · rw [ih]
          · rw [ih]

/-- Every list is exact if the pending masks are repeated, by induction on the events: the masks
that are pending are those that are collected.
-/
theorem allExact_iff_of_pending {state : IrcState Num} {pending : List Bytes}
    {events : List (Event Num)}
    (collects : ∀ mask, (state.collected mask).isSome ↔ mask ∈ pending)
    : AllExact state events ↔ Repeated state.channels pending events := by
  induction events generalizing state pending with
  | nil => exact Iff.rfl
  | cons event events ih =>
      cases event with
      | between channels =>
          rw [AllExact, Repeated, @ih (step state (.between channels)) _ collects]
          exact and_iff_right nofun
      | reply reply =>
          have first : (∀ other, (Event.reply reply : Event Num) = .reply other →
              Exact state other) ↔ Exact state reply :=
            ⟨fun all => all reply rfl, by rintro exact _ ⟨⟩; exact exact⟩
          rw [AllExact, first, Repeated]
          cases found : state.channels (irccase reply.channel) with
          | none =>
              obtain ⟨channels, collected⟩ := step_reply_of_none found
              have next : ∀ mask, ((step state (.reply reply)).collected mask).isSome
                  ↔ mask ∈ pending ++ reply.masks := by
                intro mask
                rw [collected, isSome_withItems, collects, List.mem_append]
                rfl
              rw [ih next, channels, exact_iff, found]
              simp
          | some channel =>
              obtain ⟨channels, collected⟩ := step_reply_of_some found
              have next : ∀ mask, ((step state (.reply reply)).collected mask).isSome
                  ↔ mask ∈ ([] : List Bytes) := by
                intro mask
                rw [collected]
                simp
              have joined : ∀ name, ((step state (.reply reply)).channels name).isSome
                  = (state.channels name).isSome := by
                intro name
                rw [channels]
                by_cases here : name = irccase reply.channel
                · rw [here, Function.update_self, found]
                  rfl
                · rw [Function.update_of_ne here]
              rw [ih next, repeated_congr joined, exact_iff, found]
              simp only [Option.isSome_some, if_true, forall_const, collects]

/-- After every end of a list of a channel that is joined the list is exactly that of the reply
if and only if the masks that replies for other channels have left are repeated.
-/
theorem allExact_iff {state : IrcState Num} (events : List (Event Num))
    (fresh : state.partialModeList = none)
    : AllExact state events ↔ Repeated state.channels [] events := by
  apply allExact_iff_of_pending
  intro mask
  rw [IrcState.collected, fresh]
  simp

/-- The state of a client that is in `#b` only. -/
def inB : IrcState Nat :=
  {
    IrcState.new with
    channels := Function.update (fun _ => none) (irccase (lit "#b")) (some {
      name := lit "#b"
      members := fun _ => none
      modes := none
      listModes := fun _ => none })
  }

/-- A ban list with some masks. -/
def banList (channel : Bytes) (items : List (Bytes × List Bytes)) : Reply :=
  { kind := .ban, source := none, client := lit "me", channel, items, ending := [] }

/-- A mask of `#a` is also a mask of `#b`. -/
theorem allExact_iff_witness
    : AllExact inB [
        .reply (banList (lit "#a") [(lit "x!*@*", [lit "op", lit "1"])]),
        .reply (banList (lit "#b") [(lit "x!*@*", [lit "op", lit "2"])])] := by
  rw [allExact_iff _ rfl, Repeated, if_neg (by decide +kernel), Repeated,
    if_pos (by decide +kernel)]
  exact ⟨fun _ isIn => isIn, trivial⟩

/-- The ban list of `#b` gets a mask of `#a`. -/
theorem allExact_counterexample
    : ¬ AllExact inB [
        .reply (banList (lit "#a") [(lit "x!*@*", [lit "op", lit "1"])]),
        .reply (banList (lit "#b") [(lit "y!*@*", [lit "op", lit "2"])])] := by
  rintro ⟨-, second, -⟩
  have repeats := exact_iff.mp (second _ rfl)
  have isIn := repeats (by decide +kernel) (lit "x!*@*") (by decide +kernel)
  revert isIn
  decide

end Snowcone.Modes
