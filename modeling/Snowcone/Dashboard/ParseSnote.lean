import Snowcone.Foundations.LuaPatternText

/-! Server notices about clients that connect and exit, and how `parse_snote` takes them apart.
-/

namespace Snowcone.Dashboard

open Bytes LuaPattern

/-- The event of a client that connects. -/
structure Connect where
  server : Bytes
  time : Bytes
  nick : Bytes
  user : Bytes
  host : Bytes
  ip : Option Bytes
  gecos : Bytes
  class_ : Bytes
  account : Bytes
  deriving DecidableEq

/-- The event of a client that exits. -/
structure Disconnect where
  server : Bytes
  time : Bytes
  nick : Bytes
  user : Bytes
  host : Bytes
  reason : Bytes
  ip : Option Bytes
  deriving DecidableEq

/-- What `parse_snote` returns; the events of the other notices are `other`. -/
inductive Snote (Other : Type) where
  | connect (event : Connect)
  | disconnect (event : Disconnect)
  | other (event : Other)
  deriving DecidableEq

/-- Neither a space nor another character that `%s` stands for. -/
def notSpace : Byte → Bool := classOf (chr 'S')

/-- None of the characters of a set. -/
def noneOf (set : String) (c : Byte) : Bool := !setNames (lit set) c

/-- The start of both patterns, behind their first words: ` (%S+) %(([^@ ]+)@([^) ]+)%) %[`. -/
def clientItems (items : List (Item Byte)) : List (Item Byte) :=
  .openCapture :: .single notSpace .plus :: .closeCapture :: (literal (lit " (")
    ++ .openCapture :: .single (noneOf "@ ") .plus :: .closeCapture :: (literal (lit "@")
      ++ .openCapture :: .single (noneOf ") ") .plus :: .closeCapture
        :: (literal (lit ") [") ++ items)))

/-- The rest of the pattern for clients that connect:
`(.*)%] \x7b(%S*)\x7d <(%S*)> %[(.*)%]$`.
-/
def connectItems : List (Item Byte) :=
  .openCapture :: .single (fun _ => true) .many :: .closeCapture :: (literal (lit "] \x7b")
    ++ .openCapture :: .single notSpace .many :: .closeCapture :: (literal (lit "\x7d <")
      ++ .openCapture :: .single notSpace .many :: .closeCapture :: (literal (lit "> [")
        ++ .openCapture :: .single (fun _ => true) .many :: .closeCapture
          :: (literal (lit "]") ++ [.endOfSubject]))))

/-- The rest of the pattern for clients that exit: `(.*)%] %[(.*)%]$`. -/
def disconnectItems : List (Item Byte) :=
  .openCapture :: .single (fun _ => true) .many :: .closeCapture :: (literal (lit "] [")
    ++ .openCapture :: .single (fun _ => true) .many :: .closeCapture
      :: (literal (lit "]") ++ [.endOfSubject]))

/-- The pattern for clients that connect. -/
def connectPattern : List (Item Byte) :=
  literal (lit "Client connecting: ") ++ clientItems connectItems

/-- The pattern for clients that exit. -/
def disconnectPattern : List (Item Byte) :=
  literal (lit "Client exiting: ") ++ clientItems disconnectItems

/-- The address of a notice, which is `0` where it is not shown. -/
def shownIp (ip : Bytes) : Option Bytes := if ip = lit "0" then none else some ip

/-- `parse_snote`: the first pattern that matches decides. The patterns behind the first two
are for other notices.
-/
def parseSnote {Other : Type} (others : Bytes → Option Other) (time server str : Bytes)
    : Option (Snote Other) :=
  match stringMatch connectPattern str with
  | some [nick, user, host, ip, class_, account, gecos] =>
      some (.connect
        { server, time, nick, user, host, ip := shownIp ip, gecos, class_, account })
  | _ =>
      match stringMatch disconnectPattern str with
      | some [nick, user, host, reason, ip] =>
          some (.disconnect { server, time, nick, user, host, reason, ip := shownIp ip })
      | _ => (others str).map .other

-----------------------------------------------------------------------------------------
-- The notices of a server
-----------------------------------------------------------------------------------------

/-- A client as a notice names it. -/
structure NoticedClient where
  nick : Bytes
  user : Bytes
  host : Bytes

/-- A client that a server can name. -/
structure NoticedClient.WellFormed (client : NoticedClient) : Prop where
  nick : client.nick ≠ [] ∧ ∀ c ∈ client.nick, notSpace c = true
  user : client.user ≠ [] ∧ ∀ c ∈ client.user, c ≠ chr '@' ∧ c ≠ chr ' '
  host : client.host ≠ [] ∧ ∀ c ∈ client.host, c ≠ chr ')' ∧ c ≠ chr ' '

/-- The text of an address: hexadecimal digits, and dots or colons between them. -/
structure IsAddress (ip : Bytes) : Prop where
  plain : ∀ c ∈ ip, classOf (chr 'x') c = true ∨ c = chr '.' ∨ c = chr ':'
  separated : chr '.' ∈ ip ∨ chr ':' ∈ ip

/-- A notice about a client that connects, or about one that exits. -/
inductive ClientNotice where
  | connecting (client : NoticedClient) (ip class_ account gecos : Bytes)
  | exiting (client : NoticedClient) (reason ip : Bytes)

/-- `nick (user@host) [`. -/
def NoticedClient.text (client : NoticedClient) (rest : Bytes) : Bytes :=
  client.nick ++ (lit " (" ++ (client.user ++ (lit "@" ++ (client.host ++ (lit ") [" ++ rest)))))

/-- `ip] \x7bclass\x7d <account> [gecos]`. -/
def connectText (ip class_ account gecos : Bytes) : Bytes :=
  ip ++ (lit "] \x7b" ++ (class_ ++ (lit "\x7d <" ++ (account ++ (lit "> [" ++ (gecos
    ++ lit "]"))))))

/-- `reason] [ip]`. -/
def disconnectText (reason ip : Bytes) : Bytes :=
  reason ++ (lit "] [" ++ (ip ++ lit "]"))

/-- A notice as the server formats it. -/
def ClientNotice.text : ClientNotice → Bytes
  | .connecting client ip class_ account gecos =>
      lit "Client connecting: " ++ client.text (connectText ip class_ account gecos)
  | .exiting client reason ip =>
      lit "Client exiting: " ++ client.text (disconnectText reason ip)

/-- A notice that a server can send; the gecos and the reason are any text. -/
def ClientNotice.WellFormed : ClientNotice → Prop
  | .connecting client ip class_ account _ => client.WellFormed ∧ IsAddress ip
      ∧ (∀ c ∈ class_, notSpace c = true) ∧ ∀ c ∈ account, notSpace c = true
  | .exiting client _ ip => client.WellFormed ∧ IsAddress ip

/-- The event of a notice. -/
def ClientNotice.event {Other : Type} (time server : Bytes) : ClientNotice → Snote Other
  | .connecting client ip class_ account gecos => .connect {
      server, time, nick := client.nick, user := client.user, host := client.host, ip := some ip,
      gecos, class_, account }
  | .exiting client reason ip => .disconnect {
      server, time, nick := client.nick, user := client.user, host := client.host, reason,
      ip := some ip }

/-- A gecos that holds the text of another class, another account and the start of another
gecos.
-/
def Feigns (gecos : Bytes) : Prop :=
  ∃ before class_ account after,
    gecos = before ++ (lit "] \x7b" ++ (class_ ++ (lit "\x7d <" ++ (account
      ++ (lit "> [" ++ after)))))
    ∧ (∀ c ∈ class_, notSpace c = true) ∧ ∀ c ∈ account, notSpace c = true

/-- A notice about a client that connects with such a gecos. -/
def ClientNotice.HasFeignedGecos : ClientNotice → Prop
  | .connecting _ _ _ _ gecos => Feigns gecos
  | .exiting _ _ _ => False

end Snowcone.Dashboard
