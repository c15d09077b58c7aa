import Snowcone.Chat.Sends
import Snowcone.Components.OrderedMapRefinement

/-! What the histories of the open buffers hold, and what a message that is added to a buffer
leaves in its history.
-/

namespace Snowcone.Chat

open Bytes Components Action
open Sending (Argument Refused textsOf lineOf irccase)

variable {Num : Type} {env : Environment Num} {client : Client Num}

/-- The entries of a buffer's history, newest first. -/
def Buffer.Holds (buffer : Buffer) (entries : List Entry) : Prop :=
  ∃ history, Represents buffer.messages history ∧ history.entries.map Components.Entry.val = entries

/-- A buffer that has just been opened is empty. -/
theorem holds_new (name : Bytes) : (Buffer.new name).Holds [] :=
  ⟨.empty, new_represents 1000 none none, rfl⟩

/-- A history holds no more than there is room for. -/
theorem Buffer.Holds.length_le {buffer : Buffer} {entries : List Entry}
    (holds : buffer.Holds entries)
    : entries.length ≤ buffer.messages.max := by
  obtain ⟨history, represents, rfl⟩ := holds
  rw [List.length_map, represents.length]
  exact Nat.min_le_right _ _

/-- A history holds what a loop over it sees, so it holds one list of entries. -/
theorem Buffer.Holds.unique {buffer : Buffer} {entries others : List Entry}
    (holds : buffer.Holds entries) (also : buffer.Holds others)
    : entries = others := by
  obtain ⟨history, represents, rfl⟩ := holds
  obtain ⟨other, represents', rfl⟩ := also
  have same := Option.some.inj (represents.reveach.symm.trans represents'.reveach)
  have vals := congrArg (List.map Prod.fst) (List.reverse_injective same)
  rw [List.map_map, List.map_map] at vals
  exact vals

/-- An entry is added in front; the oldest entry of a full history makes room for it. -/
theorem Buffer.Holds.insert {buffer : Buffer} {entries : List Entry}
    (holds : buffer.Holds entries) (entry : Entry)
    : (buffer.insert entry).Holds (entry :: entries.take (buffer.messages.max - 1)) := by
  obtain ⟨history, represents, rfl⟩ := holds
  refine ⟨_, represents.insert buffer.hasRoom (some true) entry, ?_⟩
  rw [History.insert, List.map_cons, List.map_take]

/-- A message is added like every entry. -/
theorem Buffer.Holds.log {buffer : Buffer} {entries : List Entry} (holds : buffer.Holds entries)
    (irc : Received) (mention activity : Bool)
    : (buffer.log irc mention activity).Holds
        (.received irc :: entries.take (buffer.messages.max - 1)) :=
  holds.insert (.received irc)

/-- A message that is added leaves the room of a history as it is. -/
theorem log_max (buffer : Buffer) (irc : Received) (mention activity : Bool)
    : (buffer.log irc mention activity).messages.max = buffer.messages.max :=
  max_insert buffer.messages (some true) (.received irc)

/-- A history after a message was added to it so many times. -/
def Buffer.HoldsAfter (buffer : Buffer) (irc : Received) (count : Nat) (before : Buffer) : Prop :=
  buffer.messages.max = before.messages.max
  ∧ ∀ entries,
      before.Holds entries
      → buffer.Holds
          ((List.replicate count (Entry.received irc) ++ entries).take before.messages.max)

/-- Nothing was added. -/
theorem holdsAfter_zero (irc : Received) (buffer : Buffer) : buffer.HoldsAfter irc 0 buffer := by
  refine ⟨rfl, fun entries holds => ?_⟩
  rw [List.replicate_zero, List.nil_append, List.take_of_length_le holds.length_le]
  exact holds

/-- The message is added once more. -/
theorem Buffer.HoldsAfter.log {buffer before : Buffer} {irc : Received} {count : Nat}
    (holdsAfter : buffer.HoldsAfter irc count before) (name : Bytes)
    : (({ buffer with name } : Buffer).log irc false false).HoldsAfter irc (count + 1) before := by
  obtain ⟨sameRoom, holds⟩ := holdsAfter
  refine ⟨(log_max _ irc false false).trans sameRoom, fun entries held => ?_⟩
  have renamed : ({ buffer with name } : Buffer).Holds _ := holds entries held
  have logged := renamed.log irc false false
  have room := before.hasRoom
  obtain ⟨less, isSucc⟩ : ∃ less, before.messages.max = less + 1 :=
    ⟨before.messages.max - 1, by omega⟩
  rw [show ({ buffer with name } : Buffer).messages.max = less + 1 from sameRoom.trans isSucc,
    isSucc, List.take_take, Nat.add_sub_cancel, Nat.min_eq_left (Nat.le_succ less)] at logged
  rw [isSucc, List.replicate_succ, List.cons_append, List.take_succ_cons]
  exact logged

/-- The notice in a buffer that may have to be opened for it. -/
def noticed (buffer : Option Buffer) (name : Bytes) (irc : Received) : Buffer :=
  ({ buffer.getD (.new name) with name } : Buffer).log irc false false

/-- The request for the history of a buffer that has to be opened can be sent. -/
def CanOpen (env : Environment Num) (client : Client Num) (name : Bytes) (irc : Received)
    : Prop :=
  client.buffers (irccase name) = none → client.hasChathistory = true
    → ¬ Refused (lit "CHATHISTORY")
        (textsOf env.numeral (historyRequest env client (irccase name) irc.timeTag))

/-- A message is put into a buffer, unless the request for the history of a new one is refused:
apart from what is sent, only this buffer changes.
-/
theorem addToBuffer_ends {name : Bytes} {irc : Received} (canOpen : CanOpen env client name irc)
    : ∃ sent messages, addToBuffer env name irc false false client
        = .ok () { client with
            sent, messages
            buffers := Function.update client.buffers (irccase name)
              (some (noticed (client.buffers (irccase name)) name irc)) } := by
  have opens : ∃ sent messages, openBuffer env name irc client
      = .ok () { client with
          sent, messages
          buffers := Function.update client.buffers (irccase name)
            (some { (client.buffers (irccase name)).getD (.new name) with name }) } := by
    unfold openBuffer
    rw [get_bind]
    cases found : client.buffers (irccase name) with
    | some buffer => exact ⟨client.sent, client.messages, rfl⟩
    | none =>
        cases asks : client.hasChathistory with
        | false => exact ⟨client.sent, client.messages, rfl⟩
        | true => exact ⟨_, _, send_of_other (by decide) (canOpen found asks)⟩
  obtain ⟨sent, messages, opened⟩ := opens
  refine ⟨sent, messages, ?_⟩
  rw [addToBuffer, bind_of_ok opened]
  change EStateM.Result.ok () _ = _
  simp only [editBuffer, Function.update_self, Option.map_some, Function.update_idem, noticed]

/-- A request that is refused stops the handler. -/
theorem addToBuffer_stops {name : Bytes} {irc : Received}
    (closed : client.buffers (irccase name) = none) (asks : client.hasChathistory = true)
    (refused : Refused (lit "CHATHISTORY")
      (textsOf env.numeral (historyRequest env client (irccase name) irc.timeTag)))
    : ∃ text after, addToBuffer env name irc false false client = .error (.raises text) after := by
  let opened : Client Num := { client with
    buffers := Function.update client.buffers (irccase name) (some (.new name)) }
  obtain ⟨text, raises⟩ := @send_of_refused _ env opened _ _ refused
  have stops : openBuffer env name irc client = .error (.raises text) opened := by
    unfold openBuffer
    rw [get_bind, closed]
    simp only [if_pos asks]
    exact raises
  exact ⟨text, opened, bind_of_error stops⟩

end Snowcone.Chat
