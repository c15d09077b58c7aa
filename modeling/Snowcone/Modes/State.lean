import Snowcone.Membership.Handlers

/-! The part of `irc_state` that holds the modes of the channels and what a server says about
them.
-/

namespace Snowcone.Modes

open Bytes
open Snowcone.Membership (Members Monitored)
open Sending (TokenValue)

/-- An entry of a mode list. -/
structure ListEntry where
  who : Option Bytes
  ts : Option Bytes

/-- A mode list: its entries under their masks. -/
abbrev ModeList := Bytes → Option ListEntry

/-- What a mode of a channel is set to: `true`, or its argument. -/
inductive Setting where
  | on
  | argument (text : Bytes)
  deriving DecidableEq

/-- `Channel`; its modes are not known from the start. -/
structure Channel where
  name : Bytes
  members : Members
  modes : Option (Bytes → Option Setting)
  listModes : Bytes → Option ModeList

/-- The fields of `irc_state` about modes, for some numbers. -/
structure IrcState (Num : Type) where
  nick : Option Bytes
  mode : Bytes → Bool
  channels : Bytes → Option Channel
  partialModeList : Option ModeList
  isupport : Bytes → Option TokenValue
  chantypes : TokenValue
  statusmsg : TokenValue
  monitor : Option (Bytes → Option Monitored)
  maxChatHistory : Option Num
  invex : Option TokenValue
  excepts : Option TokenValue
  prefixToMode : Bytes → Option Bytes
  modeToPrefix : Bytes → Option Bytes
  modesA : Option Bytes
  modesB : Option Bytes
  modesC : Option Bytes
  modesD : Option Bytes

/-- `M:_init`. -/
def IrcState.new {Num : Type} : IrcState Num :=
  {
    nick := none
    mode := fun _ => false
    channels := fun _ => none
    partialModeList := none
    isupport := fun _ => none
    chantypes := .text (lit "&#")
    statusmsg := .text (lit "@+")
    monitor := none
    maxChatHistory := none
    invex := none
    excepts := none
    prefixToMode := Function.update (Function.update (fun _ => none) (lit "@") (some (lit "o")))
      (lit "+") (some (lit "v"))
    modeToPrefix := Function.update (Function.update (fun _ => none) (lit "o") (some (lit "@")))
      (lit "v") (some (lit "+"))
    modesA := some []
    modesB := some []
    modesC := some []
    modesD := some []
  }

/-- The part of a message that the handlers of modes read. -/
structure Message where
  source : Option Bytes
  args : List Bytes

/-- `irc[i]`. -/
def Message.arg (irc : Message) (i : Nat) : Option Bytes := irc.args[i - 1]?

end Snowcone.Modes
