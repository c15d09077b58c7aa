import Snowcone.Foundations.Bytes
import Snowcone.Foundations.Runs

/-! The client's side of SOCKS5, as a state machine between writes and reads of exactly as
many bytes as each state asks for.
-/

namespace Snowcone.Network

open Bytes

/-- `SocksErrc`: the errors from the server, by their reply codes, and those from the client. -/
inductive SocksErrc where
  | server (reply : Byte)
  | wrongVersion
  | noAcceptableMethods
  | authenticationFailed
  | unsupportedEndpointAddress
  | domainTooLong
  | usernameTooLong
  | passwordTooLong
  deriving DecidableEq

/-- The number of an error. -/
def SocksErrc.value : SocksErrc → Nat
  | .server reply => reply.toNat
  | .wrongVersion => 256
  | .noAcceptableMethods => 257
  | .authenticationFailed => 258
  | .unsupportedEndpointAddress => 259
  | .domainTooLong => 260
  | .usernameTooLong => 261
  | .passwordTooLong => 262

/-- `SocksErrc::Succeeded`. -/
def SocksErrc.succeeded : SocksErrc := .server 0

/-- `SocksErrc::GeneralFailure`. -/
def SocksErrc.generalFailure : SocksErrc := .server 1

/-- The categories of error codes. -/
inductive ErrorCategory where
  | system
  | socks5
  deriving DecidableEq

/-- `boost::system::error_code`; zero is success in every category. -/
structure ErrorCode where
  category : ErrorCategory
  value : Nat
  deriving DecidableEq

/-- Whether a code is an error. -/
def ErrorCode.isError (code : ErrorCode) : Bool := code.value != 0

/-- `make_socks_error`. -/
def makeSocksError (err : SocksErrc) : ErrorCode := { category := .socks5, value := err.value }

/-- `Host`: a name that the proxy resolves, or an address. -/
inductive SocksHost where
  | name (hostname : Bytes)
  | v4 (address : Vector Byte 4)
  | v6 (address : Vector Byte 16)

/-- `Auth`. -/
inductive SocksAuth where
  | noCredential
  | usernamePassword (username password : Bytes)

/-- The parameters of a connection through a proxy. -/
structure SocksSettings where
  host : SocksHost
  port : UInt16
  auth : SocksAuth

/-- The address and the port that the proxy reports. -/
inductive Endpoint where
  | v4 (address : Bytes) (port : Nat)
  | v6 (address : Bytes) (port : Nat)
  deriving DecidableEq

/-- `socks_version_tag`. -/
def socksVersionTag : Byte := 5

/-- `auth_version_tag`. -/
def authVersionTag : Byte := 1

/-- `method_wanted`: the number of an authentication method. -/
def SocksSettings.methodWanted (settings : SocksSettings) : Byte :=
  match settings.auth with
  | .noCredential => 0
  | .usernamePassword _ _ => 2

/-- `push_size_prefixed`: the size is cut to a byte. -/
def sizePrefixed (thing : Bytes) : Bytes := thing.length.toUInt8 :: thing

/-- `push_host`. -/
def SocksSettings.pushHost (settings : SocksSettings) : Bytes :=
  match settings.host with
  | .name hostname => 3 :: sizePrefixed hostname
  | .v4 address => 1 :: sizePrefixed address.toList
  | .v6 address => 4 :: sizePrefixed address.toList

/-- `push_port`: the port in big endian. -/
def SocksSettings.pushPort (settings : SocksSettings) : Bytes :=
  [(settings.port >>> 8).toUInt8, settings.port.toUInt8]

/-- The first message, which offers one method. -/
def SocksSettings.hello (settings : SocksSettings) : Bytes :=
  [socksVersionTag, 1, settings.methodWanted]

/-- The message of `send_usernamepassword`. -/
def usernamePasswordMessage (username password : Bytes) : Bytes :=
  [authVersionTag] ++ sizePrefixed username ++ sizePrefixed password

/-- The message of `send_connect`. -/
def SocksSettings.connectMessage (settings : SocksSettings) : Bytes :=
  [socksVersionTag, 1, 0] ++ settings.pushHost ++ settings.pushPort

-----------------------------------------------------------------------------------------
-- Steps
-----------------------------------------------------------------------------------------

/-- The states that are entered after a read. -/
inductive RecvState where
  | helloRecvd
  | authRecvd
  | replyRecvd
  | finishIpv4
  | finishIpv6
  deriving DecidableEq

/-- `READ`: how many bytes are read before a state is entered. -/
def RecvState.read : RecvState → Nat
  | .helloRecvd => 2
  | .authRecvd => 2
  | .replyRecvd => 4
  | .finishIpv4 => 6
  | .finishIpv6 => 18

/-- How a step ends: it writes the buffer and reads the answer, only reads, or completes. -/
inductive SocksAction where
  | transact (buffer : Bytes) (next : RecvState)
  | receive (next : RecvState)
  | complete (result : Except ErrorCode Endpoint)

/-- `failure`. -/
def failure (err : SocksErrc) : SocksAction := .complete (.error (makeSocksError err))

/-- `send_connect`. -/
def SocksSettings.sendConnect (settings : SocksSettings) : SocksAction :=
  .transact settings.connectMessage .replyRecvd

/-- Whether a host is a name that does not fit into a message. -/
def SocksHost.isTooLong : SocksHost → Bool
  | .name hostname => decide (256 ≤ hostname.length)
  | .v4 _ | .v6 _ => false

/-- `step(Start)`. -/
def SocksSettings.start (settings : SocksSettings) : SocksAction :=
  if settings.host.isTooLong then failure .domainTooLong
  else
    match settings.auth with
    | .noCredential => .transact settings.hello .helloRecvd
    | .usernamePassword username password =>
        if 256 ≤ username.length then failure .usernameTooLong
        else if 256 ≤ password.length then failure .passwordTooLong
        else .transact settings.hello .helloRecvd

/-- A byte of the buffer, which holds as many as were read. -/
def byteAt (buffer : Bytes) (index : Nat) : Byte := buffer.getD index 0

/-- `step(HelloRecvd)`. -/
def SocksSettings.helloRecvd (settings : SocksSettings) (buffer : Bytes) : SocksAction :=
  if byteAt buffer 0 ≠ socksVersionTag then failure .wrongVersion
  else if byteAt buffer 1 ≠ settings.methodWanted then failure .noAcceptableMethods
  else
    match settings.auth with
    | .noCredential => settings.sendConnect
    | .usernamePassword username password =>
        .transact (usernamePasswordMessage username password) .authRecvd

/-- `step(AuthRecvd)`. -/
def SocksSettings.authRecvd (settings : SocksSettings) (buffer : Bytes) : SocksAction :=
  if byteAt buffer 0 ≠ authVersionTag then failure .wrongVersion
  else if byteAt buffer 1 ≠ 0 then failure .authenticationFailed
  else settings.sendConnect

/-- `step(ReplyRecvd)`. -/
def replyRecvd (buffer : Bytes) : SocksAction :=
  if byteAt buffer 0 ≠ socksVersionTag then failure .wrongVersion
  else
    let reply := SocksErrc.server (byteAt buffer 1)
    if reply ≠ .succeeded then failure reply
    else if byteAt buffer 2 ≠ 0 then failure .generalFailure
    else if byteAt buffer 3 = 1 then .receive .finishIpv4
    else if byteAt buffer 3 = 4 then .receive .finishIpv6
    else failure .unsupportedEndpointAddress

/-- A port in big endian. -/
def portAt (buffer : Bytes) (index : Nat) : Nat :=
  256 * (byteAt buffer index).toNat + (byteAt buffer (index + 1)).toNat

/-- `step` of the state that is entered. -/
def SocksSettings.step (settings : SocksSettings) (buffer : Bytes) : RecvState → SocksAction
  | .helloRecvd => settings.helloRecvd buffer
  | .authRecvd => settings.authRecvd buffer
  | .replyRecvd => replyRecvd buffer
  | .finishIpv4 => .complete (.ok (.v4 (buffer.take 4) (portAt buffer 4)))
  | .finishIpv6 => .complete (.ok (.v6 (buffer.take 16) (portAt buffer 16)))

/-- The operation that is outstanding on the socket; a read has some of its bytes. -/
inductive SocksPhase where
  | writing (next : RecvState)
  | reading (next : RecvState) (got : Bytes)
  | completed
  deriving DecidableEq

/-- A run of the operation: the messages it has sent, the bytes it has taken from the
proxy, and the results it has completed with.
-/
structure SocksHistory where
  phase : SocksPhase
  sent : List Bytes
  consumed : Bytes
  results : List (Except ErrorCode Endpoint)

/-- Carry out the end of a step. -/
def SocksHistory.perform (history : SocksHistory) : SocksAction → SocksHistory
  | .transact buffer next =>
      { history with phase := .writing next, sent := history.sent ++ [buffer] }
  | .receive next => { history with phase := .reading next [] }
  | .complete result =>
      { history with phase := .completed, results := history.results ++ [result] }

/-- The operation when it is started. -/
def SocksHistory.start (settings : SocksSettings) : SocksHistory :=
  SocksHistory.perform { phase := .completed, sent := [], consumed := [], results := [] }
    settings.start

/-- What can happen: the write completes, some more bytes arrive, or the read fails. -/
inductive SocksEvent where
  | wrote (error : ErrorCode)
  | received (bytes : Bytes)
  | readFailed (error : ErrorCode)

/-- One event. A read takes no more bytes than it still needs. -/
def SocksHistory.step (settings : SocksSettings) (history : SocksHistory)
    : SocksEvent → Option SocksHistory
  | .wrote error =>
      match history.phase with
      | .writing next =>
          if error.isError then some (history.perform (.complete (.error error)))
          else some (history.perform (.receive next))
      | .reading _ _ | .completed => none
  | .received bytes =>
      match history.phase with
      | .reading next got =>
          if bytes ≠ [] ∧ (got ++ bytes).length ≤ next.read then
            let history := { history with consumed := history.consumed ++ bytes }
            if (got ++ bytes).length = next.read then
              some (history.perform (settings.step (got ++ bytes) next))
            else some { history with phase := .reading next (got ++ bytes) }
          else none
      | .writing _ | .completed => none
  | .readFailed error =>
      match history.phase with
      | .reading _ _ =>
          if error.isError then some (history.perform (.complete (.error error))) else none
      | .writing _ | .completed => none

end Snowcone.Network
