import Snowcone.Components.OrderedMapEntries
import Snowcone.Dashboard.Users
import Snowcone.Foundations.Decimal

/-! The bans that the dashboard knows from server notices: how `parse_snote` reads the notices,
and what the handlers make of them in `klines`.
-/

namespace Snowcone.Dashboard

open Bytes Components LuaPattern

/-- The event of a ban that an operator added. -/
structure Added where
  server : Bytes
  time : Bytes
  nick : Bytes
  user : Bytes
  host : Bytes
  oper : Bytes
  mask : Bytes
  duration : Option Int
  reason : Bytes
  deriving DecidableEq

/-- The event of a message that a filter caught. -/
structure FilterHit where
  server : Bytes
  time : Bytes
  nick : Bytes
  user : Bytes
  host : Bytes
  ip : Option Bytes
  deriving DecidableEq

/-- The event of a ban that disconnects a client. -/
structure BanActive where
  server : Bytes
  time : Bytes
  nick : Bytes
  user : Bytes
  host : Bytes
  mask : Bytes
  deriving DecidableEq

/-- The event of a ban that expired. -/
structure Expired where
  server : Bytes
  time : Bytes
  kind : Bytes
  mask : Bytes
  deriving DecidableEq

/-- The event of a ban that an operator removed. -/
structure Removed where
  server : Bytes
  time : Bytes
  nick : Bytes
  user : Bytes
  host : Bytes
  oper : Bytes
  kind : Bytes
  mask : Bytes
  deriving DecidableEq

/-- The events of the notices that are told apart behind those of clients that connect or exit,
up to removed bans; those behind them are `other`.
-/
inductive LaterSnote (Other : Type) where
  | kline (event : Added)
  | xline (event : Added)
  | dline (event : Added)
  | resv (event : Added)
  | nick (event : NickChange)
  | filter (event : FilterHit)
  | klineActive (event : BanActive)
  | dlineActive (event : BanActive)
  | expired (event : Expired)
  | removed (event : Removed)
  | other (event : Other)
  deriving DecidableEq

-----------------------------------------------------------------------------------------
-- Reading notices
-----------------------------------------------------------------------------------------

/-- `string.match` with a pattern that is anchored. -/
def luaMatch (pattern : String) (str : Bytes) : Option (List Bytes) :=
  match readPattern (lit pattern) with
  | some (true, items) => stringMatch items str
  | some (false, _) | none => none

/-- `string.lower` -/
def stringLower (text : Bytes) : Bytes :=
  text.map (fun c => if between 0x41 0x5a c then c + 0x20 else c)

/-- `math.tointeger` of digits. -/
def tointeger (digits : Bytes) : Option Int :=
  let n := Decimal.value digits
  if n < 0x8000000000000000 then some n else none

/-- The name of an event for the kind of a ban that was added; another kind raises an error. -/
def addedSnote {Other : Type} (kind : Bytes) (event : Added) : Except Bytes (LaterSnote Other) :=
  if kind = lit "K-Line" then .ok (.kline event)
  else if kind = lit "X-Line" then .ok (.xline event)
  else if kind = lit "D-Line" then .ok (.dline event)
  else if kind = lit "RESV" then .ok (.resv event)
  else .error (lit "assertion failed!")

/-- `parse_snote` from the third pattern on, up to the one for removed bans; `others` are the
patterns behind it.
-/
def parseLater {Other : Type} (others : Bytes → Option Other) (time server str : Bytes)
    : Option (Except Bytes (LaterSnote Other)) :=
  match luaMatch ("^([^!]+)!([^@]+)@([^\x7b]+)\x7b([^\x7d]*)\x7d added %S+ (%d+) min%. (%S+) for "
    ++ "%[(%S*)%] %[(.*)%]$") str with
  | some [nick, user, host, oper, duration, kind, mask, reason] =>
      some (addedSnote kind
        { server, time, nick, user, host, oper, mask, duration := tointeger duration, reason })
  | _ =>
  match luaMatch "^Nick change: From (%S+) to (%S+) %[([^@ ]+)@(%S+)%]$" str with
  | some [old, new, user, host] => some (.ok (.nick { server, time, old, new, user, host }))
  | _ =>
  match luaMatch "^FILTER: ([^! ]+)!([^@ ]+)@(%S+) %[(.*)%]$" str with
  | some [nick, user, host, ip] =>
      some (.ok (.filter { server, time, nick, user, host, ip := shownIp ip }))
  | _ =>
  match luaMatch "^KLINE active for (%S+)%[([^@ ]+)@(%S+)%] %((.*)%)$" str with
  | some [nick, user, host, mask] =>
      some (.ok (.klineActive { server, time, nick, user, host, mask }))
  | _ =>
  match luaMatch "^Disconnecting K%-Lined user (%S+)%[([^@ ]+)@(%S+)%] %((.*)%)$" str with
  | some [nick, user, host, mask] =>
      some (.ok (.klineActive { server, time, nick, user, host, mask }))
  | _ =>
  match luaMatch "^Disconnecting D%-Lined user (%S+)%[([^@ ]+)@(%S+)%] %((.*)%)$" str with
  | some [nick, user, host, mask] =>
      some (.ok (.dlineActive { server, time, nick, user, host, mask }))
  | _ =>
  match luaMatch "^Temporary (%S+) for %[(.*)%] expired$" str with
  | some [kind, mask] => some (.ok (.expired { server, time, kind := stringLower kind, mask }))
  | _ =>
  match luaMatch "^Propagated ban for %[(.*)%] expired$" str with
  | some [mask] => some (.ok (.expired { server, time, kind := lit "k-line", mask }))
  | _ =>
  match luaMatch
    "^([^! ]+)!([^@ ]+)@([^\x7b ]+)\x7b(%S*)\x7d has removed the %S+ (%S+) for: %[(.*)%]$" str with
  | some [nick, user, host, oper, kind, mask] =>
      some (.ok (.removed
        { server, time, nick, user, host, oper, kind := stringLower kind, mask }))
  | _ => (others str).map (fun event => .ok (.other event))

-----------------------------------------------------------------------------------------
-- The handlers
-----------------------------------------------------------------------------------------

/-- What an entry of `klines` is marked as. -/
inductive BanMark where
  | kline
  | dline
  | inactive
  | removed
  deriving DecidableEq

/-- An entry of `klines`. -/
structure BanEntry where
  timestamp : Nat
  time : Bytes
  oper : Bytes
  duration : Option Int
  reason : Option Bytes
  mask : Bytes
  kind : BanMark
  deriving DecidableEq

/-- The state that the handlers for bans work on; `tracked` are the operators that the load
tracker for K-lines counted.
-/
structure Bans where
  klines : OrderedMap Bytes BanEntry
  uptime : Nat
  tracked : List Bytes

/-- The entry of a ban that was added. -/
def Bans.entryFor (state : Bans) (ev : Added) (kind : BanMark) : BanEntry where
  timestamp := state.uptime
  time := ev.time
  oper := ev.oper
  duration := ev.duration
  reason := some ev.reason
  mask := ev.mask
  kind

/-- `M.kline` -/
def Bans.kline (state : Bans) (ev : Added) : Bans :=
  { state with
    tracked := state.tracked ++ [ev.oper]
    klines := state.klines.insert (some (lit "kline " ++ ev.mask)) (state.entryFor ev .kline) }

/-- `M.dline` -/
def Bans.dline (state : Bans) (ev : Added) : Bans :=
  let key := lit "dline " ++ ev.mask
  if (state.klines.lookup (some key)).any (·.kind = .dline) then state
  else { state with klines := state.klines.insert (some key) (state.entryFor ev .dline) }

/-- The entry that a key finds becomes inactive. -/
def deactivate (klines : OrderedMap Bytes BanEntry) (key : Bytes) : OrderedMap Bytes BanEntry :=
  klines.mutate (some key) ({ · with kind := .inactive })

/-- `M.expired` -/
def Bans.expired (state : Bans) (ev : Expired) : Bans :=
  if ev.kind = lit "k-line" then
    { state with klines := deactivate state.klines (lit "kline " ++ ev.mask) }
  else state

/-- The key of the newest entry: the second result of `klines:each()()`. -/
def newestKey (klines : OrderedMap Bytes BanEntry) : Option Bytes :=
  (klines.each none).bind (fun entries => entries.head?.bind (·.2))

/-- What `M.removed` does for one kind of bans; the two kinds differ in their keys. -/
def Bans.remove (state : Bans) (ev : Removed) (key gone : Bytes) : Bans :=
  let klines := deactivate state.klines key
  if newestKey klines = some gone then { state with klines }
  else
    { state with
      klines := klines.insert (some gone) {
        timestamp := state.uptime
        time := ev.time
        oper := ev.oper
        duration := none
        reason := none
        mask := ev.mask
        kind := .removed } }

/-- `M.removed` -/
def Bans.removed (state : Bans) (ev : Removed) : Bans :=
  if ev.kind = lit "k-line" then
    state.remove ev (lit "kline " ++ ev.mask) (lit "unkline " ++ ev.mask)
  else if ev.kind = lit "d-line" then
    state.remove ev (lit "dline " ++ ev.mask) (lit "undline " ++ ev.mask)
  else state

/-- An event about a ban. -/
inductive BanEvent where
  | kline (event : Added)
  | dline (event : Added)
  | expired (event : Expired)
  | removed (event : Removed)
  deriving DecidableEq

/-- The handler of an event. -/
def Bans.handle (state : Bans) : BanEvent → Bans
  | .kline event => state.kline event
  | .dline event => state.dline event
  | .expired event => state.expired event
  | .removed event => state.removed event

/-- The event about a ban that a notice is parsed into, if it is one. -/
def banEvent {Other : Type} : Snote (Except Bytes (LaterSnote Other)) → Option BanEvent
  | .other (.ok (.kline event)) => some (.kline event)
  | .other (.ok (.dline event)) => some (.dline event)
  | .other (.ok (.expired event)) => some (.expired event)
  | .other (.ok (.removed event)) => some (.removed event)
  | _ => none

end Snowcone.Dashboard
