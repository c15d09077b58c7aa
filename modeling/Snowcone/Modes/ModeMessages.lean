import Mathlib.Data.List.Infix
import Snowcone.Foundations.Action
import Snowcone.Modes.State

/-! The handler of `MODE` messages: one message with many flags does what one message for each
of them does.
-/

namespace Snowcone.Modes

open Bytes Action
open Sending (irccase TokenValue)

variable {Num : Type}

/-- `Irc:is_channel_name(name)`. -/
def IrcState.isChannelName (state : IrcState Num) (name : Bytes) : Except String Bool :=
  match state.chantypes with
  | .flag => .error "bad argument #1 to 'find' (string expected, got boolean)"
  | .text chantypes =>
      .ok (decide (name.take 1 <:+: chantypes) && decide (name.take 1 ≠ []))

/-- The loop over the flags of a user. -/
def umodes : Bool → Bytes → (Bytes → Bool) → Bytes → Bool
  | _, [], mode => mode
  | polarity, flag :: flags, mode =>
      if flag = chr '+' then umodes true flags mode
      else if flag = chr '-' then umodes false flags mode
      else umodes polarity flags (Function.update mode [flag] polarity)

/-- The plain `find` of a flag in a class of modes. -/
def findFlag {σ : Type} (modes : Option Bytes) (flag : Byte) : EStateM String σ Bool :=
  match modes with
  | none => throw "attempt to index a nil value"
  | some modes => pure (decide (flag ∈ modes))

/-- The branch for the status modes of members. -/
def memberMode (nick : Option Bytes) (polarity : Bool) (flag : Byte)
    : EStateM String Channel PUnit := do
  match nick with
  | none => throw "bad argument #1 to 'irccase' (string expected, got nil)"
  | some nick =>
      match (← get).members (irccase nick) with
      | none => throw "attempt to index a nil value"
      | some member =>
          modify fun channel => {
            channel with
            members := Function.update channel.members (irccase nick)
              (some { member with modes := Function.update member.modes [flag] polarity }) }

/-- The branch for the modes that are lists. -/
def listMode (source mask : Option Bytes) (polarity : Bool) (flag : Byte)
    : EStateM String Channel PUnit := do
  match (← get).listModes [flag] with
  | none => pure ⟨⟩
  | some modes =>
      match mask with
      | none => throw "index is nil"
      | some mask =>
          let entry := if polarity then some { who := source, ts := none } else none
          modify fun channel => {
            channel with
            listModes := Function.update channel.listModes [flag]
              (some (Function.update modes mask entry)) }

/-- Change a mode of a channel, if its modes are known. -/
def Channel.setMode (channel : Channel) (flag : Byte) (setting : Option Setting) : Channel :=
  { channel with modes := channel.modes.map fun modes => Function.update modes [flag] setting }

/-- The body of the loop over the flags of a channel; the result is the cursor. -/
def flagChange (state : IrcState Num) (irc : Message) (polarity : Bool) (flag : Byte)
    (cursor : Nat)
    : EStateM String Channel Nat := do
  if (state.modeToPrefix [flag]).isSome then
    memberMode (irc.arg cursor) polarity flag
    pure (cursor + 1)
  else if ← findFlag state.modesA flag then
    listMode irc.source (irc.arg cursor) polarity flag
    pure (cursor + 1)
  else if ← findFlag state.modesB flag then
    let setting := if polarity then (irc.arg cursor).map .argument else none
    modify (·.setMode flag setting)
    pure (cursor + 1)
  else if ← findFlag state.modesC flag then
    if polarity then
      modify (·.setMode flag ((irc.arg cursor).map .argument))
      pure (cursor + 1)
    else
      modify (·.setMode flag none)
      pure cursor
  else if ← findFlag state.modesD flag then
    modify (·.setMode flag (if polarity then some .on else none))
    pure cursor
  else pure cursor

/-- The loop over the flags of a channel. -/
def modeFlags (state : IrcState Num) (irc : Message)
    : Bool → Nat → Bytes → EStateM String Channel PUnit
  | _, _, [] => pure ⟨⟩
  | polarity, cursor, flag :: flags =>
      if flag = chr '+' then modeFlags state irc true cursor flags
      else if flag = chr '-' then modeFlags state irc false cursor flags
      else do
        let cursor ← flagChange state irc polarity flag cursor
        modeFlags state irc polarity cursor flags

/-- The state with another channel under a key. -/
def IrcState.withChannel (state : IrcState Num) (key : Bytes) (channel : Channel)
    : IrcState Num :=
  { state with channels := Function.update state.channels key (some channel) }

/-- What is done to a channel is done to the state, also by an action that raises an error. -/
def onChannel (key : Bytes) (action : EStateM String Channel PUnit)
    : EStateM String (IrcState Num) PUnit := fun state =>
  match state.channels key with
  -- You can get mode information for channels you are not in.
  | none => .ok ⟨⟩ state
  | some channel =>
      match action channel with
      | .ok _ channel => .ok ⟨⟩ (state.withChannel key channel)
      | .error text channel => .error text (state.withChannel key channel)

/-- `M.MODE`; what is shown in the buffer of the channel is left out. -/
def mode (irc : Message) : EStateM String (IrcState Num) PUnit := do
  let state ← get
  if irc.arg 1 = state.nick then
    match irc.arg 2 with
    | none => throw "attempt to index a nil value (local 'modestring')"
    | some modestring => set { state with mode := umodes true modestring state.mode }
  else
    match irc.arg 1 with
    | none => throw "attempt to index a nil value (local 'name')"
    | some target =>
        match state.isChannelName target with
        | .error text => throw text
        | .ok false => pure ⟨⟩
        | .ok true =>
            onChannel (irccase target) (
              match irc.arg 2 with
              | none => throw "attempt to index a nil value (local 'modestring')"
              | some modestring => modeFlags state irc true 3 modestring)

/-- A `MODE` message is handled; an error is reported, and what was done before it stays. -/
def handleMode (state : IrcState Num) (irc : Message) : IrcState Num :=
  match mode irc state with
  | .ok _ after => after
  | .error _ after => after

-----------------------------------------------------------------------------------------
-- Flag by flag
-----------------------------------------------------------------------------------------

/-- A change of one flag, with its own argument. -/
structure Change where
  polarity : Bool
  flag : Byte
  argument : Option Bytes
  deriving DecidableEq

/-- The changes that a mode string asks for, from a polarity on. -/
def flagsOf : Bool → Bytes → List (Bool × Byte)
  | _, [] => []
  | polarity, flag :: flags =>
      if flag = chr '+' then flagsOf true flags
      else if flag = chr '-' then flagsOf false flags
      else (polarity, flag) :: flagsOf polarity flags

/-- A flag takes an argument: those of members, of lists and with a setting always do, those
with a parameter when they are set, and the others never.
-/
def IrcState.takesArgument (state : IrcState Num) (polarity : Bool) (flag : Byte) : Bool :=
  (state.modeToPrefix [flag]).isSome || decide (flag ∈ state.modesA.getD [])
    || decide (flag ∈ state.modesB.getD []) || decide (flag ∈ state.modesC.getD []) && polarity

/-- The arguments are handed out in order to the flags that take one. -/
def IrcState.handOut (state : IrcState Num) : List (Bool × Byte) → List Bytes → List Change
  | [], _ => []
  | (polarity, flag) :: flags, args =>
      if state.takesArgument polarity flag then
        { polarity, flag, argument := args.head? } :: state.handOut flags args.tail
      else { polarity, flag, argument := none } :: state.handOut flags args

/-- The changes of a mode string with their own arguments. -/
def IrcState.changesOf (state : IrcState Num) (modestring : Bytes) (args : List Bytes)
    : List Change :=
  state.handOut (flagsOf true modestring) args

/-- The message for one change. -/
def Change.message (source : Option Bytes) (target : Bytes) (change : Change) : Message :=
  { source
    args := target :: [if change.polarity then chr '+' else chr '-', change.flag]
      :: change.argument.toList }

/-- The classes of modes are known, as they are from the start and after `CHANMODES`. -/
def IrcState.HasClasses (state : IrcState Num) : Prop :=
  state.modesA.isSome ∧ state.modesB.isSome ∧ state.modesC.isSome ∧ state.modesD.isSome

/-- A change has what it needs: its argument, and the member that it is about. -/
structure Change.Served (state : IrcState Num) (channel : Channel) (change : Change) : Prop where
  argument : state.takesArgument change.polarity change.flag → change.argument.isSome
  member : (state.modeToPrefix [change.flag]).isSome →
    ∀ nick ∈ change.argument, (channel.members (irccase nick)).isSome

/-- What a change does to a channel. -/
def IrcState.effect (state : IrcState Num) (source : Option Bytes) (channel : Channel)
    (change : Change)
    : Channel :=
  if (state.modeToPrefix [change.flag]).isSome then
    let set (member : Membership.Member) : Membership.Member :=
      { member with modes := Function.update member.modes [change.flag] change.polarity }
    let edit (nick : Bytes) : Membership.Members :=
      Function.update channel.members (irccase nick) ((channel.members (irccase nick)).map set)
    { channel with members := change.argument.elim channel.members edit }
  else if change.flag ∈ state.modesA.getD [] then
    let entry := if change.polarity then some { who := source, ts := none } else none
    let edit (modes : ModeList) : ModeList :=
      change.argument.elim modes fun mask => Function.update modes mask entry
    { channel with
      listModes := Function.update channel.listModes [change.flag]
        ((channel.listModes [change.flag]).map edit) }
  else if change.flag ∈ state.modesB.getD [] ++ state.modesC.getD [] then
    channel.setMode change.flag
      (if change.polarity then change.argument.map .argument else none)
  else if change.flag ∈ state.modesD.getD [] then
    channel.setMode change.flag (if change.polarity then some .on else none)
  else channel

variable {state : IrcState Num} {channel : Channel} {irc : Message} {change : Change}

/-- A change of a member that is there succeeds. -/
theorem memberMode_ok {nick : Bytes} {member : Membership.Member} (polarity : Bool) (flag : Byte)
    (found : channel.members (irccase nick) = some member)
    : memberMode (some nick) polarity flag channel
      = .ok ⟨⟩ {
          channel with
          members := Function.update channel.members (irccase nick)
            (some { member with modes := Function.update member.modes [flag] polarity }) } := by
  rw [memberMode, get_bind, found]
  rfl

/-- A change of a list with a mask succeeds, whether or not the list is known. -/
theorem listMode_ok (source : Option Bytes) (mask : Bytes) (polarity : Bool) (flag : Byte)
    : listMode source (some mask) polarity flag channel
      = .ok ⟨⟩ {
          channel with
          listModes := Function.update channel.listModes [flag]
            ((channel.listModes [flag]).map fun modes =>
              Function.update modes mask
                (if polarity then some { who := source, ts := none } else none)) } := by
  rw [listMode, get_bind]
  cases found : channel.listModes [flag] with
  | none =>
      rw [Option.map_none, Function.update_eq_self_iff.mpr found.symm]
      rfl
  | some modes => rfl

/-- A change that has what it needs takes its argument and has its effect. -/
theorem flagChange_ok (known : state.HasClasses) (served : change.Served state channel)
    {cursor : Nat}
    (own : state.takesArgument change.polarity change.flag → irc.arg cursor = change.argument)
    : flagChange state irc change.polarity change.flag cursor channel
      = .ok (cursor + (state.takesArgument change.polarity change.flag).toNat)
        (state.effect irc.source channel change) := by
  obtain ⟨isA, isB, isC, isD⟩ := known
  obtain ⟨a, isA⟩ := Option.isSome_iff_exists.mp isA
  obtain ⟨b, isB⟩ := Option.isSome_iff_exists.mp isB
  obtain ⟨c, isC⟩ := Option.isSome_iff_exists.mp isC
  obtain ⟨d, isD⟩ := Option.isSome_iff_exists.mp isD
  simp only [flagChange, isA, isB, isC, isD, findFlag, pure_bind, IrcState.effect,
    Option.getD_some, List.mem_append]
  by_cases isStatus : (state.modeToPrefix [change.flag]).isSome
  · have takes : state.takesArgument change.polarity change.flag := by
      simp [IrcState.takesArgument, isStatus]
    obtain ⟨nick, given⟩ := Option.isSome_iff_exists.mp (served.argument takes)
    obtain ⟨member, found⟩ := Option.isSome_iff_exists.mp (served.member isStatus nick given)
    rw [if_pos isStatus, if_pos isStatus, own takes, given, takes,
      bind_of_ok (memberMode_ok _ _ found), Option.elim_some, found]
    rfl
  rw [if_neg isStatus, if_neg isStatus]
  by_cases isList : change.flag ∈ a
  · have takes : state.takesArgument change.polarity change.flag := by
      simp [IrcState.takesArgument, isA, isList]
    obtain ⟨mask, given⟩ := Option.isSome_iff_exists.mp (served.argument takes)
    rw [if_pos (decide_eq_true isList), if_pos isList, own takes, given, takes,
      bind_of_ok (listMode_ok _ _ _ _)]
    rfl
  rw [if_neg (by simpa using isList), if_neg isList]
  by_cases isSetting : change.flag ∈ b
  · have takes : state.takesArgument change.polarity change.flag := by
      simp [IrcState.takesArgument, isB, isSetting]
    rw [if_pos (decide_eq_true isSetting), if_pos (Or.inl isSetting), own takes, takes]
    rfl
  rw [if_neg (by simpa using isSetting)]
  by_cases isParameter : change.flag ∈ c
  · have takes : state.takesArgument change.polarity change.flag = change.polarity := by
      simp [IrcState.takesArgument, isStatus, isA, isList, isB, isSetting, isC, isParameter]
    rw [if_pos (decide_eq_true isParameter), if_pos (Or.inr isParameter), takes]
    cases polarity : change.polarity with
    | true =>
        rw [own (takes.trans polarity)]
        rfl
    | false => rfl
  have takes : state.takesArgument change.polarity change.flag = false := by
    simp [IrcState.takesArgument, isStatus, isA, isList, isB, isSetting, isC, isParameter]
  rw [if_neg (by simpa using isParameter), if_neg (not_or.mpr ⟨isSetting, isParameter⟩), takes]
  by_cases isPlain : change.flag ∈ d
  · rw [if_pos (decide_eq_true isPlain), if_pos isPlain]
    rfl
  · rw [if_neg (by simpa using isPlain), if_neg isPlain]
    rfl

/-- A change leaves the name of the channel, and every member that it is not about. -/
theorem effect_kept (source : Option Bytes) (channel : Channel) (change : Change)
    : (state.effect source channel change).name = channel.name
      ∧ ∀ key,
        ((state.modeToPrefix [change.flag]).isSome →
          ∀ nick ∈ change.argument, irccase nick ≠ key) →
        (state.effect source channel change).members key = channel.members key := by
  unfold IrcState.effect
  by_cases isStatus : (state.modeToPrefix [change.flag]).isSome
  · rw [if_pos isStatus]
    refine ⟨rfl, fun key other => ?_⟩
    cases given : change.argument with
    | none => rfl
    | some nick => exact Function.update_of_ne (other isStatus nick given).symm _ _
  · rw [if_neg isStatus]
    split_ifs <;> exact ⟨rfl, fun _ _ => rfl⟩

/-- A change keeps who is a member, and every member's user. -/
theorem effect_users (source : Option Bytes) (channel : Channel) (change : Change) (key : Bytes)
    : ((state.effect source channel change).members key).map Membership.Member.user
      = (channel.members key).map Membership.Member.user := by
  unfold IrcState.effect
  by_cases isStatus : (state.modeToPrefix [change.flag]).isSome
  · rw [if_pos isStatus]
    cases given : change.argument with
    | none => rfl
    | some nick =>
        change (Function.update channel.members (irccase nick) _ key).map _ = _
        by_cases same : key = irccase nick
        · rw [same, Function.update_self, Option.map_map]
          rfl
        · rw [Function.update_of_ne same]
  · rw [if_neg isStatus]
    split_ifs <;> rfl

/-- A change that has what it needs still has it behind another change. -/
theorem Change.Served.behind (served : change.Served state channel) (source : Option Bytes)
    (other : Change)
    : change.Served state (state.effect source channel other) where
  argument := served.argument
  member isStatus nick given := by
    have same := congrArg Option.isSome (@effect_users _ state source channel other
      (irccase nick))
    rw [Option.isSome_map, Option.isSome_map] at same
    rw [same]
    exact served.member isStatus nick given

/-- The flags of one message have the effects of its changes, by induction on the flags: behind
each of them the cursor is at the arguments that are left.
-/
theorem modeFlags_ok (known : state.HasClasses) {polarity : Bool} {n : Nat} {flags : Bytes}
    {args : List Bytes} (left : irc.args.drop n = args)
    (served : ∀ change ∈ state.handOut (flagsOf polarity flags) args,
      change.Served state channel)
    : modeFlags state irc polarity (n + 1) flags channel
      = .ok ⟨⟩ ((state.handOut (flagsOf polarity flags) args).foldl
        (state.effect irc.source) channel) := by
  induction flags generalizing polarity n args channel with
  | nil => rfl
  | cons flag flags ih =>
      rw [modeFlags]
      rw [flagsOf] at served ⊢
      by_cases isPlus : flag = chr '+'
      · rw [if_pos isPlus] at served ⊢
        rw [if_pos isPlus]
        exact ih left served
      by_cases isMinus : flag = chr '-'
      · rw [if_neg isPlus, if_pos isMinus] at served ⊢
        rw [if_neg isPlus, if_pos isMinus]
        exact ih left served
      rw [if_neg isPlus, if_neg isMinus] at served ⊢
      rw [if_neg isPlus, if_neg isMinus]
      rw [IrcState.handOut] at served ⊢
      by_cases takes : state.takesArgument polarity flag
      · rw [if_pos takes] at served ⊢
        obtain ⟨first, later⟩ := List.forall_mem_cons.mp served
        have here : irc.arg (n + 1) = args.head? := by
          rw [← left, List.head?_drop]
          rfl
        rw [bind_of_ok (flagChange_ok known first fun _ => here), takes, List.foldl_cons]
        refine ih ?_ fun other isIn => (later other isIn).behind _ _
        rw [← left, List.tail_drop]
      · rw [if_neg takes] at served ⊢
        obtain ⟨first, later⟩ := List.forall_mem_cons.mp served
        rw [bind_of_ok (flagChange_ok known first (absurd · takes)),
          Bool.not_eq_true _ |>.mp takes, List.foldl_cons]
        exact ih left fun other isIn => (later other isIn).behind _ _

section WholeMessages

variable {target modestring : Bytes}

/-- A message to the user itself changes the modes of the user. -/
theorem handleMode_of_nick (isTarget : irc.arg 1 = some target)
    (isModes : irc.arg 2 = some modestring) (isNick : some target = state.nick)
    : handleMode state irc = { state with mode := umodes true modestring state.mode } := by
  have isMode : mode irc state
      = .ok ⟨⟩ { state with mode := umodes true modestring state.mode } := by
    rw [mode, get_bind, if_pos (isTarget.trans isNick), isModes]
    rfl
  rw [handleMode, isMode]

/-- A message about neither the user nor a channel changes nothing. -/
theorem handleMode_of_other (isTarget : irc.arg 1 = some target)
    (notNick : some target ≠ state.nick) (other : state.isChannelName target ≠ .ok true)
    : handleMode state irc = state := by
  rw [handleMode, mode, get_bind, isTarget, if_neg notNick]
  cases isChannel : state.isChannelName target with
  | error text =>
      simp only [isChannel]
      rfl
  | ok isTrue =>
      cases isTrue with
      | false =>
          simp only [isChannel]
          rfl
      | true => exact absurd isChannel other

/-- A message about a channel is handled by the loop over its flags. -/
theorem handleMode_of_channel (isTarget : irc.arg 1 = some target)
    (isModes : irc.arg 2 = some modestring) (notNick : some target ≠ state.nick)
    (isChannel : state.isChannelName target = .ok true)
    (joined : state.channels (irccase target) = some channel) {after : Channel}
    (ends : modeFlags state irc true 3 modestring channel = .ok ⟨⟩ after)
    : handleMode state irc = state.withChannel (irccase target) after := by
  have isLoop : mode irc state
      = onChannel (irccase target) (modeFlags state irc true 3 modestring) state := by
    rw [mode, get_bind, isTarget, if_neg notNick, isModes]
    simp only [isChannel]
  rw [handleMode, isLoop, onChannel, joined]
  simp only [ends]

/-- The message for a change has its argument behind the flag. -/
theorem message_arg (source : Option Bytes) (target : Bytes) (change : Change)
    : (change.message source target).arg 3 = change.argument := by
  cases given : change.argument <;> simp [Change.message, Message.arg, given]

/-- The changes of a mode string are about flags. -/
theorem flag_of_handOut {polarity : Bool} {flags : Bytes} {args : List Bytes}
    (isIn : change ∈ state.handOut (flagsOf polarity flags) args)
    : change.flag ≠ chr '+' ∧ change.flag ≠ chr '-' := by
  induction flags generalizing polarity args with
  | nil => cases isIn
  | cons flag flags ih =>
      rw [flagsOf] at isIn
      by_cases isPlus : flag = chr '+'
      · rw [if_pos isPlus] at isIn
        exact ih isIn
      by_cases isMinus : flag = chr '-'
      · rw [if_neg isPlus, if_pos isMinus] at isIn
        exact ih isIn
      rw [if_neg isPlus, if_neg isMinus, IrcState.handOut] at isIn
      by_cases takes : state.takesArgument polarity flag
      · rw [if_pos takes] at isIn
        rcases List.mem_cons.mp isIn with rfl | later
        · exact ⟨isPlus, isMinus⟩
        · exact ih later
      · rw [if_neg takes] at isIn
        rcases List.mem_cons.mp isIn with rfl | later
        · exact ⟨isPlus, isMinus⟩
        · exact ih later

/-- The message for a change has the effect of the change. -/
theorem modeFlags_message (known : state.HasClasses) (served : change.Served state channel)
    (isFlag : change.flag ≠ chr '+' ∧ change.flag ≠ chr '-') (source : Option Bytes)
    (target : Bytes)
    : modeFlags state (change.message source target) true 3
        [if change.polarity then chr '+' else chr '-', change.flag] channel
      = .ok ⟨⟩ (state.effect source channel change) := by
  have done := @flagChange_ok _ state channel (change.message source target) change known served 3
    fun _ => message_arg source target change
  have once : modeFlags state (change.message source target) change.polarity 3 [change.flag]
      channel = .ok ⟨⟩ (state.effect source channel change) := by
    rw [modeFlags, if_neg isFlag.1, if_neg isFlag.2, bind_of_ok done]
    rfl
  cases polarity : change.polarity with
  | true =>
      rw [polarity] at once
      exact once
  | false =>
      rw [polarity] at once
      exact once

/-- The messages for some changes have their effects, by induction on the changes. -/
theorem foldl_messages_of_channel (known : state.HasClasses) (notNick : some target ≠ state.nick)
    (isChannel : state.isChannelName target = .ok true)
    (joined : state.channels (irccase target) = some channel) (source : Option Bytes)
    {changes : List Change}
    (served : ∀ change ∈ changes, change.Served state channel)
    (areFlags : ∀ change ∈ changes, change.flag ≠ chr '+' ∧ change.flag ≠ chr '-')
    : (changes.map (Change.message source target)).foldl handleMode state
      = state.withChannel (irccase target) (changes.foldl (state.effect source) channel) := by
  induction changes generalizing state channel with
  | nil =>
      rw [List.map_nil, List.foldl_nil, List.foldl_nil, IrcState.withChannel, ← joined,
        Function.update_eq_self]
  | cons change changes ih =>
      obtain ⟨servedFirst, servedRest⟩ := List.forall_mem_cons.mp served
      obtain ⟨isFlag, areRest⟩ := List.forall_mem_cons.mp areFlags
      rw [List.map_cons, List.foldl_cons, List.foldl_cons,
        handleMode_of_channel rfl rfl notNick isChannel joined
          (modeFlags_message known servedFirst isFlag source target)]
      let after := state.effect source channel change
      have later : ∀ other ∈ changes,
          other.Served (state.withChannel (irccase target) after) after := fun other isIn =>
        let behind := (servedRest other isIn).behind source change
        ⟨behind.argument, behind.member⟩
      rw [@ih (state.withChannel (irccase target) after) after known notNick isChannel
        (Function.update_self ..) later areRest, IrcState.withChannel, IrcState.withChannel,
        Function.update_idem]
      rfl

/-- The messages for some changes of the user change its modes, by induction on the flags. -/
theorem foldl_messages_of_nick (isNick : some target = state.nick) (source : Option Bytes)
    {polarity : Bool} {flags : Bytes} {args : List Bytes} (before : IrcState Num)
    : ((before.handOut (flagsOf polarity flags) args).map
        (Change.message source target)).foldl handleMode state
      = { state with mode := umodes polarity flags state.mode } := by
  induction flags generalizing state polarity args with
  | nil => rfl
  | cons flag flags ih =>
      rw [umodes, flagsOf]
      by_cases isPlus : flag = chr '+'
      · rw [if_pos isPlus, if_pos isPlus]
        exact ih isNick
      by_cases isMinus : flag = chr '-'
      · rw [if_neg isPlus, if_pos isMinus, if_neg isPlus, if_pos isMinus]
        exact ih isNick
      rw [if_neg isPlus, if_neg isMinus, if_neg isPlus, if_neg isMinus, IrcState.handOut]
      have first (argument : Option Bytes) :
          handleMode state (Change.message source target { polarity, flag, argument })
          = { state with mode := Function.update state.mode [flag] polarity } := by
        have once : umodes true [if polarity then chr '+' else chr '-', flag] state.mode
            = Function.update state.mode [flag] polarity := by
          cases polarity with
          | true =>
              rw [if_pos rfl, umodes, if_pos rfl, umodes, if_neg isPlus, if_neg isMinus, umodes]
          | false =>
              rw [if_neg nofun, umodes, if_neg (by decide), if_pos rfl, umodes, if_neg isPlus,
                if_neg isMinus, umodes]
        rw [handleMode_of_nick rfl rfl isNick, once]
      let after := { state with mode := Function.update state.mode [flag] polarity }
      split
      · rw [List.map_cons, List.foldl_cons, first]
        exact @ih after isNick polarity args.tail
      · rw [List.map_cons, List.foldl_cons, first]
        exact @ih after isNick polarity args

/-- The messages for some changes of something else change nothing, by induction on the changes.
-/
theorem foldl_messages_of_other (notNick : some target ≠ state.nick)
    (other : state.isChannelName target ≠ .ok true) (source : Option Bytes)
    (changes : List Change)
    : (changes.map (Change.message source target)).foldl handleMode state = state := by
  induction changes with
  | nil => rfl
  | cons change changes ih =>
      rw [List.map_cons, List.foldl_cons, handleMode_of_other rfl notNick other]
      exact ih

/-- The channel behind some changes: who is a member with which user stays, and so does every
member that no change of a status mode is about. By induction on the changes.
-/
theorem foldl_effect_kept (source : Option Bytes) (changes : List Change) (channel : Channel)
    : (changes.foldl (state.effect source) channel).name = channel.name
      ∧ ∀ key,
        ((changes.foldl (state.effect source) channel).members key).map Membership.Member.user
            = (channel.members key).map Membership.Member.user
        ∧ ((∀ change ∈ changes, (state.modeToPrefix [change.flag]).isSome →
            ∀ nick ∈ change.argument, irccase nick ≠ key) →
          (changes.foldl (state.effect source) channel).members key = channel.members key) := by
  induction changes generalizing channel with
  | nil => exact ⟨rfl, fun _ => ⟨rfl, fun _ => rfl⟩⟩
  | cons change changes ih =>
      obtain ⟨name, members⟩ := ih (state.effect source channel change)
      obtain ⟨nameFirst, membersFirst⟩ := @effect_kept _ state source channel change
      refine ⟨name.trans nameFirst, fun key => ⟨?_, fun others => ?_⟩⟩
      · exact (members key).1.trans (effect_users source channel change key)
      · obtain ⟨first, later⟩ := List.forall_mem_cons.mp others
        exact ((members key).2 later).trans (membersFirst key first)

/-- One message with many flags does what one message for each flag does, and changes no other
channel and no member that none of the status modes in it is about.
-/
theorem handleMode_flagByFlag (source : Option Bytes) {args : List Bytes}
    (known : state.HasClasses) (joined : state.channels (irccase target) = some channel)
    (served : ∀ change ∈ state.changesOf modestring args, change.Served state channel)
    : let after := handleMode state { source, args := target :: modestring :: args }
      after = ((state.changesOf modestring args).map (Change.message source target)).foldl
        handleMode state
      ∧ (∀ key, key ≠ irccase target → after.channels key = state.channels key)
      ∧ ∃ channel', after.channels (irccase target) = some channel'
        ∧ channel'.name = channel.name
        ∧ ∀ key,
          (channel'.members key).map Membership.Member.user
              = (channel.members key).map Membership.Member.user
          ∧ ((∀ change ∈ state.changesOf modestring args,
                (state.modeToPrefix [change.flag]).isSome →
                ∀ nick ∈ change.argument, irccase nick ≠ key) →
            channel'.members key = channel.members key) := by
  by_cases isNick : some target = state.nick
  · intro after
    have handled : after = { state with mode := umodes true modestring state.mode } :=
      handleMode_of_nick rfl rfl isNick
    rw [handled]
    refine ⟨(foldl_messages_of_nick isNick source state).symm, fun _ _ => rfl, channel, joined,
      rfl, fun _ => ⟨rfl, fun _ => rfl⟩⟩
  by_cases isChannel : state.isChannelName target = .ok true
  · intro after
    let channel' := (state.changesOf modestring args).foldl (state.effect source) channel
    have ends : modeFlags state { source, args := target :: modestring :: args } true 3 modestring
        channel = .ok ⟨⟩ channel' := modeFlags_ok known rfl served
    have handled : after = state.withChannel (irccase target) channel' :=
      handleMode_of_channel rfl rfl isNick isChannel joined ends
    rw [handled]
    refine ⟨?_, fun key other => Function.update_of_ne other _ _, _, Function.update_self ..,
      foldl_effect_kept source _ channel⟩
    exact (foldl_messages_of_channel known isNick isChannel joined source served
      fun change isIn => flag_of_handOut isIn).symm
  · intro after
    have handled : after = state := handleMode_of_other rfl isNick isChannel
    rw [handled]
    exact ⟨(foldl_messages_of_other isNick isChannel source _).symm, fun _ _ => rfl, channel,
      joined, rfl, fun _ => ⟨rfl, fun _ => rfl⟩⟩

end WholeMessages

/-- A member without status. -/
def plainMember : Membership.Member := Membership.Member.new 0

/-- The channel `#c` with the member `al`; its modes and lists are not known. -/
def channelC : Channel :=
  {
    name := lit "#c"
    members := Function.update (fun _ => none) (irccase (lit "al")) (some plainMember)
    modes := none
    listModes := fun _ => none
  }

/-- The state of a client in `#c`, on a server with four classes of modes. -/
def inC : IrcState Nat :=
  {
    IrcState.new with
    channels := Function.update (fun _ => none) (irccase (lit "#c")) (some channelC)
    modesA := some (lit "b")
    modesB := some (lit "k")
    modesC := some (lit "l")
    modesD := some (lit "imn")
  }

/-- A message that has all kinds of flags is five messages. -/
theorem handleMode_flagByFlag_witness
    : handleMode inC {
          source := lit "op"
          args := [lit "#c", lit "+ob-l+kn", lit "al", lit "x!*@*", lit "key"] }
        = ([
            { polarity := true, flag := chr 'o', argument := lit "al" },
            { polarity := true, flag := chr 'b', argument := lit "x!*@*" },
            { polarity := false, flag := chr 'l', argument := none },
            { polarity := true, flag := chr 'k', argument := lit "key" },
            { polarity := true, flag := chr 'n', argument := none }
          ].map (Change.message (lit "op") (lit "#c"))).foldl handleMode inC := by
  have changes : inC.changesOf (lit "+ob-l+kn") [lit "al", lit "x!*@*", lit "key"] = [
      { polarity := true, flag := chr 'o', argument := lit "al" },
      { polarity := true, flag := chr 'b', argument := lit "x!*@*" },
      { polarity := false, flag := chr 'l', argument := none },
      { polarity := true, flag := chr 'k', argument := lit "key" },
      { polarity := true, flag := chr 'n', argument := none }] := by
    decide +kernel
  have served : ∀ change ∈ inC.changesOf (lit "+ob-l+kn") [lit "al", lit "x!*@*", lit "key"],
      change.Served inC channelC := by
    rw [changes]
    simp only [List.forall_mem_cons]
    refine ⟨?_, ?_, ?_, ?_, ?_, nofun⟩ <;> exact ⟨by decide +kernel, by decide +kernel⟩
  rw [← changes]
  have joined : inC.channels (irccase (lit "#c")) = some channelC := by
    simp only [inC, Function.update_self]
  exact (handleMode_flagByFlag (lit "op") ⟨rfl, rfl, rfl, rfl⟩ joined served).1

end Snowcone.Modes
