import Snowcone.Network.Socks

/-! What the messages of the client stand for. The decoders follow the diagrams of RFC 1928
and RFC 1929: an address has a size in front of it only when it is a name.
-/

namespace Snowcone.Network

open Bytes

/-- A request of RFC 1928. -/
structure SocksRequest where
  command : Byte
  host : SocksHost
  port : UInt16

/-- A fixed number of bytes, and what is left. -/
def readVector (n : Nat) (bytes : Bytes) : Option (Vector Byte n × Bytes) :=
  if enough : n ≤ bytes.length then
    some (⟨(bytes.take n).toArray, List.length_take_of_le enough⟩, bytes.drop n)
  else none

/-- A size of one byte, so many bytes of text, and what is left; there is no empty text. -/
def readText : Bytes → Option (Bytes × Bytes)
  | size :: rest =>
      if 0 < size.toNat ∧ size.toNat ≤ rest.length then
        some (rest.take size.toNat, rest.drop size.toNat)
      else none
  | [] => none

/-- The kind of an address and the address. -/
def readAddress : Bytes → Option (SocksHost × Bytes)
  | 1 :: rest => (readVector 4 rest).map fun (address, rest) => (.v4 address, rest)
  | 3 :: rest => (readText rest).map fun (hostname, rest) => (.name hostname, rest)
  | 4 :: rest => (readVector 16 rest).map fun (address, rest) => (.v6 address, rest)
  | _ => none

/-- The port in network order. -/
def readPort : Bytes → Option (UInt16 × Bytes)
  | high :: low :: rest => some (UInt16.ofNat (256 * high.toNat + low.toNat), rest)
  | _ => none

/-- Decode a request of RFC 1928: version, command, reserved, address and port. -/
def decodeRequest : Bytes → Option (SocksRequest × Bytes)
  | 5 :: command :: 0 :: rest => do
      let (host, rest) ← readAddress rest
      let (port, rest) ← readPort rest
      some ({ command, host, port }, rest)
  | _ => none

/-- Decode the message of RFC 1929: version, username and password. -/
def decodeCredentials : Bytes → Option ((Bytes × Bytes) × Bytes)
  | 1 :: rest => do
      let (username, rest) ← readText rest
      let (password, rest) ← readText rest
      some ((username, password), rest)
  | _ => none

/-- Settings that pass the checks of `step(Start)`, with no part left empty. -/
structure SocksSettings.Requestable (settings : SocksSettings) : Prop where
  starts : settings.start = .transact settings.hello .helloRecvd
  isNamed : ∀ hostname, settings.host = .name hostname → hostname ≠ []
  hasCredentials : ∀ username password, settings.auth = .usernamePassword username password →
    username ≠ [] ∧ password ≠ []

/-- The messages of the client stand for what it was asked for, with nothing left over. -/
structure SocksSettings.Understood (settings : SocksSettings) : Prop where
  request : decodeRequest settings.connectMessage
    = some ({ command := 1, host := settings.host, port := settings.port }, [])
  credentials : ∀ username password, settings.auth = .usernamePassword username password →
    decodeCredentials (usernamePasswordMessage username password)
      = some ((username, password), [])

/-- Text that fits is read back from behind its size. -/
theorem readText_sizePrefixed {text : Bytes} (isText : text ≠ []) (fits : text.length < 256)
    (rest : Bytes)
    : readText (sizePrefixed text ++ rest) = some (text, rest) := by
  have size : text.length.toUInt8.toNat = text.length := by
    rw [Nat.toUInt8_eq, UInt8.toNat_ofNat']
    omega
  have some : 0 < text.length := List.length_pos_iff.mpr isText
  simp only [sizePrefixed, List.cons_append, readText, size]
  rw [if_pos ⟨some, by simp⟩, List.take_left, List.drop_left]

/-- The port is read back. -/
theorem readPort_pushPort (settings : SocksSettings) (rest : Bytes)
    : readPort (settings.pushPort ++ rest) = some (settings.port, rest) := by
  have small := settings.port.toNat_lt
  have high : (settings.port >>> 8).toUInt8.toNat = settings.port.toNat / 256 := by
    rw [UInt16.toNat_toUInt8, UInt16.toNat_shiftRight, Nat.shiftRight_eq_div_pow]
    change settings.port.toNat / 256 % 256 = _
    omega
  have low : settings.port.toUInt8.toNat = settings.port.toNat % 256 := by
    rw [UInt16.toNat_toUInt8]
  have port : UInt16.ofNat (256 * (settings.port.toNat / 256) + settings.port.toNat % 256)
      = settings.port := by
    rw [Nat.div_add_mod, UInt16.ofNat_toNat]
  simp only [SocksSettings.pushPort, List.cons_append, List.nil_append, readPort, high, low, port]

/-- How many bytes an address has with its kind; only a name has a size. -/
def SocksHost.requestSize : SocksHost → Nat
  | .name hostname => 2 + hostname.length
  | .v4 _ => 5
  | .v6 _ => 17

/-- Reading a fixed number of bytes takes so many. -/
theorem readVector_length {n : Nat} {bytes rest : Bytes} {address : Vector Byte n}
    (reads : readVector n bytes = some (address, rest))
    : bytes.length = n + rest.length := by
  unfold readVector at reads
  split at reads
  next enough =>
    obtain ⟨_, rfl⟩ := Prod.mk.inj (Option.some.inj reads)
    rw [List.length_drop]
    omega
  next => cases reads

/-- Reading text takes its size and its bytes. -/
theorem readText_length {bytes text rest : Bytes} (reads : readText bytes = some (text, rest))
    : bytes.length = 1 + text.length + rest.length := by
  cases bytes with
  | nil => cases reads
  | cons size bytes =>
      simp only [readText] at reads
      split at reads
      next enough =>
        obtain ⟨rfl, rfl⟩ := Prod.mk.inj (Option.some.inj reads)
        rw [List.length_take_of_le enough.2, List.length_drop, List.length_cons]
        omega
      next => cases reads

/-- Reading an address takes its kind and its bytes. -/
theorem readAddress_length {bytes rest : Bytes} {host : SocksHost}
    (reads : readAddress bytes = some (host, rest))
    : bytes.length = host.requestSize + rest.length := by
  unfold readAddress at reads
  split at reads
  next bytes =>
    obtain ⟨⟨address, left⟩, inner, same⟩ := Option.map_eq_some_iff.mp reads
    obtain ⟨rfl, rfl⟩ := Prod.mk.inj same
    have size := readVector_length inner
    simp only [List.length_cons, SocksHost.requestSize]
    omega
  next bytes =>
    obtain ⟨⟨hostname, left⟩, inner, same⟩ := Option.map_eq_some_iff.mp reads
    obtain ⟨rfl, rfl⟩ := Prod.mk.inj same
    have size := readText_length inner
    simp only [List.length_cons, SocksHost.requestSize]
    omega
  next bytes =>
    obtain ⟨⟨address, left⟩, inner, same⟩ := Option.map_eq_some_iff.mp reads
    obtain ⟨rfl, rfl⟩ := Prod.mk.inj same
    have size := readVector_length inner
    simp only [List.length_cons, SocksHost.requestSize]
    omega
  next => cases reads

/-- A request has its version, command and reserved byte, its address and its port. -/
theorem decodeRequest_length {bytes rest : Bytes} {request : SocksRequest}
    (decodes : decodeRequest bytes = some (request, rest))
    : bytes.length = 5 + request.host.requestSize + rest.length := by
  unfold decodeRequest at decodes
  split at decodes
  next command bytes =>
    obtain ⟨⟨host, behind⟩, address, decodes⟩ := Option.bind_eq_some_iff.mp decodes
    obtain ⟨⟨port, left⟩, reads, same⟩ := Option.bind_eq_some_iff.mp decodes
    obtain ⟨rfl, rfl⟩ := Prod.mk.inj (Option.some.inj same)
    have size := readAddress_length address
    unfold readPort at reads
    split at reads
    next high low behind =>
      obtain ⟨_, rfl⟩ := Prod.mk.inj (Option.some.inj reads)
      simp only [List.length_cons] at size ⊢
      omega
    next => cases reads
  next => cases decodes

/-- The size of the message of `send_connect`: every address has a size in front of it. -/
theorem connectMessage_length (settings : SocksSettings)
    : settings.connectMessage.length
      = 7 + match settings.host with
          | .name hostname => hostname.length
          | .v4 _ => 4
          | .v6 _ => 16 := by
  simp only [SocksSettings.connectMessage, SocksSettings.pushHost, SocksSettings.pushPort,
    sizePrefixed, List.length_append]
  cases settings.host with
  | name hostname =>
      simp only [List.length_cons, List.length_nil]
      omega
  | v4 address => simp
  | v6 address => simp

/-- The checks of `step(Start)` leave what fits into a size of one byte. -/
theorem SocksSettings.Requestable.fits {settings : SocksSettings}
    (requestable : settings.Requestable)
    : (∀ hostname, settings.host = .name hostname → hostname.length < 256)
      ∧ ∀ username password, settings.auth = .usernamePassword username password →
          username.length < 256 ∧ password.length < 256 := by
  have starts := requestable.starts
  unfold SocksSettings.start at starts
  split at starts
  next => cases starts
  next short =>
    refine ⟨fun hostname isName => ?_, fun username password isAuth => ?_⟩
    · simpa [isName, SocksHost.isTooLong] using short
    · rw [isAuth] at starts
      simp only at starts
      split at starts
      next => cases starts
      next =>
        split at starts
        next => cases starts
        next => omega

/-- The message with the credentials stands for them. -/
theorem decodeCredentials_message {username password : Bytes} (isUser : username ≠ [])
    (userFits : username.length < 256) (isPassword : password ≠ [])
    (passwordFits : password.length < 256)
    : decodeCredentials (usernamePasswordMessage username password)
      = some ((username, password), []) := by
  have first := readText_sizePrefixed isUser userFits (sizePrefixed password)
  have second := readText_sizePrefixed isPassword passwordFits []
  rw [List.append_nil] at second
  change (readText (sizePrefixed username ++ sizePrefixed password)).bind _ = _
  rw [first]
  change (readText (sizePrefixed password)).bind _ = _
  rw [second]
  rfl

/-- The request for a name stands for it. -/
theorem decodeRequest_name {settings : SocksSettings} {hostname : Bytes}
    (isName : settings.host = .name hostname) (isNamed : hostname ≠ [])
    (fits : hostname.length < 256)
    : decodeRequest settings.connectMessage
      = some ({ command := 1, host := settings.host, port := settings.port }, []) := by
  have address := readText_sizePrefixed isNamed fits settings.pushPort
  have port := readPort_pushPort settings []
  rw [List.append_nil] at port
  have message : settings.connectMessage
      = 5 :: 1 :: 0 :: 3 :: (sizePrefixed hostname ++ settings.pushPort) := by
    simp only [SocksSettings.connectMessage, SocksSettings.pushHost, isName]
    rfl
  rw [message]
  change ((readText (sizePrefixed hostname ++ settings.pushPort)).map _).bind _ = _
  rw [address, Option.map_some, Option.bind_some]
  change (readPort settings.pushPort).bind _ = _
  rw [port, isName]
  rfl

/-- The messages of settings that pass the checks are understood just for names: the size
in front of an address is taken for its first byte.
-/
theorem understood_iff {settings : SocksSettings} (requestable : settings.Requestable)
    : settings.Understood ↔ ∃ hostname, settings.host = .name hostname := by
  obtain ⟨nameFits, credentialsFit⟩ := requestable.fits
  constructor
  · intro understood
    have same := decodeRequest_length understood.request
    rw [connectMessage_length] at same
    cases isHost : settings.host with
    | name hostname => exact ⟨hostname, rfl⟩
    | v4 address => simp [isHost, SocksHost.requestSize] at same
    | v6 address => simp [isHost, SocksHost.requestSize] at same
  · rintro ⟨hostname, isName⟩
    refine ⟨?_, fun username password isAuth => ?_⟩
    · exact decodeRequest_name isName (requestable.isNamed hostname isName)
        (nameFits hostname isName)
    · obtain ⟨isUser, isPassword⟩ := requestable.hasCredentials username password isAuth
      obtain ⟨userFits, passwordFits⟩ := credentialsFit username password isAuth
      exact decodeCredentials_message isUser userFits isPassword passwordFits

/-- Settings for the name of a host, with credentials. -/
def namedSettings : SocksSettings :=
  {
    host := .name (lit "irc.example")
    port := 6697
    auth := .usernamePassword (lit "user") (lit "pass")
  }

/-- Settings for an IPv4 address. -/
def addressSettings : SocksSettings :=
  { host := .v4 #v[127, 0, 0, 1], port := 6697, auth := .noCredential }

/-- Witness: the messages for `namedSettings` are understood. -/
theorem understood_iff_witness : namedSettings.Understood := by
  refine (understood_iff ⟨rfl, ?_, ?_⟩).mpr ⟨_, rfl⟩
  · rintro _ ⟨⟩
    decide
  · rintro _ _ ⟨⟩
    decide

/-- The messages for `addressSettings` pass the checks, and the request is taken for one to
another address and port, with a byte left over.
-/
theorem addressSettings_not_understood
    : addressSettings.Requestable ∧ ¬ addressSettings.Understood
      ∧ decodeRequest addressSettings.connectMessage
        = some ({ command := 1, host := .v4 #v[4, 127, 0, 0], port := 282 }, [41]) := by
  refine ⟨⟨rfl, ?_, ?_⟩, fun understood => ?_, rfl⟩
  · rintro _ ⟨⟩
  · rintro _ _ ⟨⟩
  · have differs := understood.request
    rw [show decodeRequest addressSettings.connectMessage
      = some ({ command := 1, host := .v4 #v[4, 127, 0, 0], port := 282 }, [41]) from rfl]
      at differs
    cases differs

end Snowcone.Network
