import Snowcone.Components.OrderedMapEntries
import Snowcone.Dashboard.ParseSnote
import Snowcone.Sending.Send

/-! The clients that the dashboard knows from server notices: `users` holds those that connected
last, `exits` those that exited last.
-/

namespace Snowcone.Dashboard

open Bytes Components Sending

/-- The event of a client that changes its nick. -/
structure NickChange where
  server : Bytes
  time : Bytes
  old : Bytes
  new : Bytes
  user : Bytes
  host : Bytes
  deriving DecidableEq

/-- An entry of `users`. -/
structure User where
  server : Bytes
  gecos : Bytes
  host : Bytes
  user : Bytes
  nick : Bytes
  account : Bytes
  ip : Option Bytes
  org : Option Bytes
  asn : Option Int
  time : Bytes
  count : Nat
  mask : Bytes
  timestamp : Nat
  mark : Option Int
  reason : Option Bytes
  deriving DecidableEq

/-- An entry of `exits`. -/
structure Exit where
  nick : Bytes
  user : Bytes
  host : Bytes
  ip : Option Bytes
  reason : Bytes
  timestamp : Nat
  time : Bytes
  server : Bytes
  org : Option Bytes
  asn : Option Int
  mask : Bytes
  gecos : Option Bytes
  deriving DecidableEq

/-- A watch for clients that connect. -/
structure Watch (Regexp : Type) where
  regexp : Regexp
  active : Bool
  hits : Nat
  color : Option Int
  beep : Bool
  flash : Bool

/-- What a handler does besides: the load trackers, the counts of addresses in networks, the
terminal, and a message that is sent.
-/
inductive Effect where
  | trackConnect (server : Bytes)
  | trackExit (server : Bytes)
  | countIp (address : Bytes) (delta : Int)
  | beep
  | flash
  | draw
  | sendNick (nick : Bytes)
  deriving DecidableEq

/-- The lookup of an address's organisation and its number, and the matching of expressions. -/
structure Lookups (Regexp : Type) where
  ipOrg : Bytes → Option Bytes × Option Int
  safematch : Bytes → Regexp → Bool

/-- The state that the handlers for clients work on. -/
structure Clients (Regexp : Type) where
  users : OrderedMap Bytes User
  exits : OrderedMap Bytes Exit
  watches : List (Watch Regexp)
  population : Bytes → Option Int
  uptime : Nat
  targetNick : Option Bytes
  effects : List Effect

/-- `ncurses.COLOR_RED` -/
def colorRed : Int := 1

/-- `nick!user@host` -/
def nickUserHost (nick user host : Bytes) : Bytes :=
  nick ++ (lit "!" ++ (user ++ (lit "@" ++ host)))

/-- `nick!user@host#gecos` -/
def fullMask (nick user host gecos : Bytes) : Bytes :=
  nickUserHost nick user host ++ (lit "#" ++ gecos)

section Handlers

variable {Regexp : Type} (lookups : Lookups Regexp)

/-- The population of a server changes, if it is known. -/
def Clients.populate (state : Clients Regexp) (server : Bytes) (delta : Int) : Clients Regexp :=
  match state.population server with
  | some pop =>
      { state with population := Function.update state.population server (some (pop + delta)) }
  | none => state

def Clients.note (state : Clients Regexp) (effects : List Effect) : Clients Regexp :=
  { state with effects := state.effects ++ effects }

/-- The organisation of an address, if there is one. -/
def orgOf (ip : Option Bytes) : Option Bytes × Option Int :=
  match ip with
  | some ip => lookups.ipOrg ip
  | none => (none, none)

/-- The counts of the networks change, if there is an address. -/
def countIp (ip : Option Bytes) (delta : Int) : List Effect :=
  match ip with
  | some ip => [.countIp ip delta]
  | none => []

/-- Whether a watch is for a client that connects. -/
def Watch.hit (watch : Watch Regexp) (ev : Connect) (entry : User) : Bool :=
  watch.active
    && (lookups.safematch entry.mask watch.regexp
      || entry.org.any (lookups.safematch · watch.regexp)
      || entry.asn.any (fun asn => lookups.safematch (lit "AS" ++ lit (toString asn)) watch.regexp)
      || lookups.safematch entry.account watch.regexp
      || entry.ip.any (fun ip =>
        lookups.safematch (fullMask ev.nick ev.user ip ev.gecos) watch.regexp))

/-- What a watch does besides when it is hit. -/
def Watch.alarms (watch : Watch Regexp) : List Effect :=
  (if watch.beep then [.beep] else []) ++ (if watch.flash then [.flash] else [])

/-- The entry that a watch marks. -/
def Watch.marked (watch : Watch Regexp) (entry : User) : User :=
  { entry with mark := some (watch.color.getD colorRed) }

/-- A watch counts its hits. -/
def Watch.counted (watch : Watch Regexp) (isHit : Bool) : Watch Regexp :=
  if isHit then { watch with hits := watch.hits + 1 } else watch

/-- The loop over the watches; the entry is already in `users`. -/
def Clients.runWatches (state : Clients Regexp) (ev : Connect) (entry : User) : Clients Regexp :=
  let hits := state.watches.filter (fun watch => watch.hit lookups ev entry)
  let state : Clients Regexp := {
    state with
    users := hits.foldl (fun users watch => users.mutate (some ev.nick) watch.marked) state.users
    watches := state.watches.map (fun watch => watch.counted (watch.hit lookups ev entry)) }
  state.note (hits.flatMap Watch.alarms)

/-- The entry of a client that connects. -/
def Clients.entryFor (state : Clients Regexp) (ev : Connect) : User where
  server := ev.server
  gecos := ev.gecos
  host := ev.host
  user := ev.user
  nick := ev.nick
  account := ev.account
  ip := ev.ip
  org := (orgOf lookups ev.ip).1
  asn := (orgOf lookups ev.ip).2
  time := ev.time
  count := ((state.users.lookup (some ev.nick)).map (·.count + 1)).getD 1
  mask := fullMask ev.nick ev.user ev.host ev.gecos
  timestamp := state.uptime
  mark := none
  reason := none

/-- `M.connect` -/
def Clients.connect (state : Clients Regexp) (ev : Connect) : Clients Regexp :=
  let entry := state.entryFor lookups ev
  let state := state.note (countIp ev.ip 1)
  let state := { state with users := state.users.insert (some ev.nick) entry }
  let state := (state.note [.trackConnect ev.server]).populate ev.server 1
  state.runWatches lookups ev entry

/-- The own nick is asked for when a client no longer has it. -/
def Clients.reclaim (state : Clients Regexp) (nick : Bytes) : Clients Regexp :=
  if state.targetNick = some nick then state.note [.sendNick nick] else state

/-- `M.disconnect` -/
def Clients.disconnect (state : Clients Regexp) (ev : Disconnect) : Clients Regexp :=
  let entry := state.users.lookup (some ev.nick)
  let state := (state.note [.trackExit ev.server]).populate ev.server (-1)
  let state := { state with
    users := state.users.mutate (some ev.nick) ({ · with reason := some ev.reason }) }
  let state := if entry.isSome then state.note [.draw] else state
  let (org, asn) := orgOf lookups ev.ip
  let state := state.note (countIp ev.ip (-1))
  let state := { state with
    exits := state.exits.insert none {
      nick := ev.nick
      user := ev.user
      host := ev.host
      ip := ev.ip
      reason := ev.reason
      timestamp := state.uptime
      time := ev.time
      server := ev.server
      org
      asn
      mask := nickUserHost ev.nick ev.user ev.host
      gecos := entry.map User.gecos } }
  state.reclaim ev.nick

/-- `M.nick` -/
def Clients.nick (state : Clients Regexp) (ev : NickChange) : Clients Regexp :=
  let state :=
    match state.users.lookup (some ev.old) with
    | none => state
    | some _ =>
        let users := state.users.mutate (some ev.old) (fun user =>
          { user with nick := ev.new, mask := nickUserHost ev.new user.user user.host })
        { state with users := users.rekey (some ev.old) ev.new }
  state.reclaim ev.old

/-- An event about a client. -/
inductive ClientEvent where
  | connect (event : Connect)
  | disconnect (event : Disconnect)
  | nick (event : NickChange)

/-- The handler of an event. -/
def Clients.handle (state : Clients Regexp) : ClientEvent → Clients Regexp
  | .connect event => state.connect lookups event
  | .disconnect event => state.disconnect lookups event
  | .nick event => state.nick event

end Handlers

end Snowcone.Dashboard
