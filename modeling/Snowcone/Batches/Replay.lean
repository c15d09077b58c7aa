import Snowcone.Batches.Messages
import Snowcone.Chat.Histories

/-! What the end of a batch with history does: its messages are appended to the buffer of its
target, if all of them can be told apart from status messages.
-/

namespace Snowcone.Batches

open Bytes Components IrcParsing Action
open Chat (Client Buffer Buffers Entry editBuffer max_insert)
open Sending (TokenValue irccase)

variable {Num : Type} {client : Client Num}

/-- The status prefix that a target has, if it can be split. -/
def statusOf (statusmsg : TokenValue) (target : Bytes) : Option Bytes :=
  match statusmsg with
  | .flag => none
  | .text chars =>
      (Sending.splitStatusmsg chars target).bind fun split =>
        if split.1 = [] then none else some split.1

/-- A replayed message as it stands in a history. -/
def replayed (statusmsg : TokenValue) (irc : Pushed) : Chat.Entry :=
  .received { received irc with
    statusmsg := if IsChat irc then irc.args.head?.bind (statusOf statusmsg) else none }

/-- The buffers with messages appended, in their order, to one of them, if it is there. -/
def replay (statusmsg : TokenValue) (buffers : Buffers) (key : Bytes) (messages : List Pushed)
    : Buffers :=
  editBuffer buffers key fun buffer =>
    messages.foldl (fun buffer irc => buffer.insert (replayed statusmsg irc)) buffer

/-- A chat message whose target can be split. -/
def Splits (statusmsg : TokenValue) (irc : Pushed) : Prop :=
  IsChat irc →
    ∃ chars target, statusmsg = .text chars ∧ irc.args.head? = some target
      ∧ ∃ c ∈ target, c ∉ chars

/-- The prefix is what is split off. -/
theorem splitFirst_ok {irc : Pushed} (isChat : IsChat irc)
    (splits : Splits client.statusmsg irc)
    : splitFirst irc client = .ok (irc.args.head?.bind (statusOf client.statusmsg)) client := by
  obtain ⟨chars, target, isText, first, other⟩ := splits isChat
  have notBare : ¬ Chat.Bare client.statusmsg target := by
    rintro ⟨_, same, allStatus⟩
    obtain rfl := TokenValue.text.inj (isText.symm.trans same)
    obtain ⟨c, isIn, isNone⟩ := other
    exact isNone (allStatus c isIn)
  obtain ⟨split, found, returns⟩ := Chat.splitStatusmsg_of_not_bare isText notBare
  simp only [splitFirst, first, Option.bind_some, statusOf, isText, found]
  exact bind_of_ok returns

/-- A target that is split can be split. -/
theorem splits_of_splitFirst {irc : Pushed} {status : Option Bytes} {after : Client Num}
    (returns : splitFirst irc client = .ok status after)
    : Splits client.statusmsg irc := by
  intro _
  simp only [splitFirst] at returns
  cases first : irc.args.head? with
  | none =>
      simp only [first, get_bind] at returns
      cases isText : client.statusmsg with
      | flag =>
          simp only [isText] at returns
          cases returns
      | text chars =>
          simp only [isText] at returns
          cases returns
  | some target =>
      simp only [first] at returns
      obtain ⟨split, between, returns, _⟩ := bind_ok_iff.mp returns
      cases isText : client.statusmsg with
      | flag =>
          rw [Chat.splitStatusmsg_of_flag isText] at returns
          cases returns
      | text chars =>
          refine ⟨chars, target, rfl, rfl, ?_⟩
          by_contra allStatus
          push Not at allStatus
          rw [Chat.splitStatusmsg_of_bare ⟨chars, isText, allStatus⟩] at returns
          cases returns

/-- A message whose target can be split is appended. -/
theorem route_ok {irc : Pushed} (splits : Splits client.statusmsg irc) (key : Bytes)
    : route key irc client
      = .ok () { client with
          buffers := editBuffer client.buffers key
            (·.insert (replayed client.statusmsg irc)) } := by
  rw [route]
  by_cases isChat : IsChat irc
  · rw [if_pos isChat, bind_of_ok (splitFirst_ok isChat splits), replayed, if_pos isChat]
    rfl
  · rw [if_neg isChat, replayed, if_neg isChat]
    rfl

/-- What is appended can be split. -/
theorem splits_of_route {irc : Pushed} {key : Bytes} {after : Client Num}
    (returns : route key irc client = .ok () after)
    : Splits client.statusmsg irc := by
  intro isChat
  rw [route, if_pos isChat] at returns
  obtain ⟨status, between, returns, _⟩ := bind_ok_iff.mp returns
  exact splits_of_splitFirst returns isChat

/-- One message after the other is appended. -/
theorem replay_cons (statusmsg : TokenValue) (buffers : Buffers) (key : Bytes) (irc : Pushed)
    (messages : List Pushed)
    : replay statusmsg (editBuffer buffers key (·.insert (replayed statusmsg irc))) key messages
      = replay statusmsg buffers key (irc :: messages) := by
  simp only [replay, editBuffer, Function.update_self, Function.update_idem, Option.map_map]
  rfl

/-- Nothing is appended. -/
theorem replay_nil (statusmsg : TokenValue) (buffers : Buffers) (key : Bytes)
    : replay statusmsg buffers key [] = buffers := by
  simp [replay, editBuffer]

/-- A target without a buffer gets nothing. -/
theorem replay_of_none {statusmsg : TokenValue} {buffers : Buffers} {key : Bytes}
    (closed : buffers key = none) (messages : List Pushed)
    : replay statusmsg buffers key messages = buffers := by
  simp [replay, editBuffer, closed]

/-- Messages that can be split are all appended, by induction on them. -/
theorem forM_route_ok {messages : List Pushed}
    (splits : ∀ irc ∈ messages, Splits client.statusmsg irc) (key : Bytes)
    : messages.forM (route key) client
      = .ok () { client with
          buffers := replay client.statusmsg client.buffers key messages } := by
  induction messages generalizing client with
  | nil =>
      rw [replay_nil]
      rfl
  | cons irc messages ih =>
      obtain ⟨first, others⟩ := List.forall_mem_cons.mp splits
      refine (bind_of_ok (route_ok first key)).trans ?_
      rw [← replay_cons]
      exact ih others

/-- Where all messages are appended, all of them can be split, by induction on them. -/
theorem splits_of_forM_route {messages : List Pushed} {key : Bytes} {after : Client Num}
    (returns : messages.forM (route key) client = .ok () after)
    : ∀ irc ∈ messages, Splits client.statusmsg irc := by
  induction messages generalizing client with
  | nil => exact List.forall_mem_nil _
  | cons irc messages ih =>
      obtain ⟨_, between, first, later⟩ := bind_ok_iff.mp returns
      have splits := splits_of_route first
      rw [route_ok splits] at first
      cases first
      have others := ih later
      exact List.forall_mem_cons.mpr ⟨splits, others⟩

/-- A batch with history can be replayed: it has a target, and if the target has a buffer, all
its messages can be split.
-/
def Replayable (client : Client Num) (params : List Bytes) (messages : List Pushed) : Prop :=
  ∃ target,
    params.head? = some target
    ∧ ((client.buffers (irccase target)).isSome
      → ∀ irc ∈ messages, Splits client.statusmsg irc)

/-- The handler appends the messages if the batch can be replayed. -/
theorem chathistory_ok {params : List Bytes} {target : Bytes} (first : params.head? = some target)
    {messages : List Pushed}
    (splits : (client.buffers (irccase target)).isSome
      → ∀ irc ∈ messages, Splits client.statusmsg irc)
    : chathistory params messages client
      = .ok () { client with
          buffers := replay client.statusmsg client.buffers (irccase target) messages } := by
  simp only [chathistory, first, get_bind]
  cases found : client.buffers (irccase target) with
  | none =>
      rw [replay_of_none found]
      rfl
  | some buffer => exact forM_route_ok (splits (by rw [found]; rfl)) (irccase target)

/-- Where the handler returns, the batch can be replayed. -/
theorem replayable_of_chathistory {params : List Bytes} {messages : List Pushed}
    {after : Client Num} (returns : chathistory params messages client = .ok () after)
    : Replayable client params messages := by
  simp only [chathistory] at returns
  cases first : params.head? with
  | none =>
      simp only [first] at returns
      cases returns
  | some target =>
      simp only [first, get_bind] at returns
      refine ⟨target, first, fun isOpen => ?_⟩
      rw [if_pos isOpen] at returns
      exact splits_of_forM_route returns

/-- What does not fit into a history may be left out before others are put in front of it. -/
theorem take_append_cons_take {α : Type} (room : Nat) (front : List α) (entry : α)
    (entries : List α)
    : (front ++ entry :: entries.take (room - 1)).take room
      = (front ++ entry :: entries).take room := by
  rw [List.take_append, List.take_append]
  cases left : room - front.length with
  | zero => rfl
  | succ less =>
      rw [List.take_succ_cons, List.take_succ_cons, List.take_take,
        Nat.min_eq_left (by omega)]

/-- The history of the buffer then holds the messages in front of what it held, the last one
first, as far as there is room, by induction on the messages.
-/
theorem holds_foldl_insert {buffer : Buffer} {entries : List Entry}
    (holds : buffer.Holds entries) (added : List Entry)
    : (added.foldl Buffer.insert buffer).Holds
        ((added.reverse ++ entries).take buffer.messages.max) := by
  induction added generalizing buffer entries with
  | nil =>
      rw [List.reverse_nil, List.nil_append, List.take_of_length_le holds.length_le]
      exact holds
  | cons entry added ih =>
      have later := ih (holds.insert entry)
      rw [show (buffer.insert entry).messages.max = buffer.messages.max from max_insert _ _ _,
        take_append_cons_take] at later
      rw [List.reverse_cons, List.append_assoc]
      exact later

/-- The history of the target of a batch that was replayed. -/
theorem holds_replay {buffers : Buffers} {key : Bytes} {buffer : Buffer}
    (found : buffers key = some buffer) {entries : List Entry} (holds : buffer.Holds entries)
    (statusmsg : TokenValue) (messages : List Pushed)
    : ∃ after,
        replay statusmsg buffers key messages key = some after
        ∧ after.Holds
            (((messages.map (replayed statusmsg)).reverse ++ entries).take
              buffer.messages.max) := by
  refine ⟨_, by rw [replay, editBuffer, Function.update_self, found, Option.map_some], ?_⟩
  rw [← List.foldl_map]
  exact holds_foldl_insert holds _

end Snowcone.Batches
