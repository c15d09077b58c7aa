import Snowcone.Chat.Messages

/-! The end of the registration: the monitors of the private conversations are installed again,
and then that of the nick that is wanted.
-/

namespace Snowcone.Registration

open Bytes Action
open Chat (Act Client Environment Entry send sentMsg send_of_other send_of_refused isChannelName
  plainEnvironment welcomedClient)
open Components (OrderedMap)
open Sending (Breaks Trailing BadTexts Refused CommandWord Decodes lineOf badTexts_cons
  badTexts_singleton lineOf_decodes irccase)

variable {Num : Type}

/-- `table.concat(nicks, ',')`. -/
def joinNicks (nicks : List Bytes) : Bytes := [chr ','].intercalate nicks

/-- `send('MONITOR', '+', targets)`. -/
def sendMonitor (env : Environment Num) (targets : Bytes) : Act Num Unit :=
  send env (lit "MONITOR") [.plain (.string (lit "+")), .plain (.string targets)]

/-- The loop over the open buffers, in the order of `pairs`. -/
def monitorRounds (env : Environment Num)
    : List Bytes → Nat → List Bytes → Act Num (Nat × List Bytes)
  | [], n, nicks => pure (n, nicks)
  | target :: rest, n, nicks => do
      if ← isChannelName target then monitorRounds env rest n nicks
      else if 1 + target.length > 400 then do
        sendMonitor env (joinNicks (nicks ++ [target]))
        monitorRounds env rest 0 []
      else monitorRounds env rest (1 + target.length) (nicks ++ [target])

/-- The part of `irc_registration` that reinstalls monitors for the active private message
buffers.
-/
def reinstallMonitors (env : Environment Num) (order : List Bytes) : Act Num Unit := do
  let client ← get
  if client.irc.monitor.isSome then do
    let (n, nicks) ← monitorRounds env order 0 []
    if n > 0 then sendMonitor env (joinNicks nicks)

/-- The part of `irc_registration` that starts waiting for the nick of the configuration. -/
def watchNick (env : Environment Num) (nick : Bytes) : Act Num Unit := do
  let client ← get
  if client.irc.recoverNick.isSome ∧ client.irc.monitor.isSome then sendMonitor env nick

/-- What `irc_registration` does with monitors. -/
def monitors (env : Environment Num) (order : List Bytes) (nick : Bytes) : Act Num Unit := do
  reinstallMonitors env order
  watchNick env nick

/-- `pairs` goes through the open buffers in this order: every one once. -/
structure VisitsBuffers (buffers : Chat.Buffers) (order : List Bytes) : Prop where
  once : order.Nodup
  all : ∀ key, key ∈ order ↔ (buffers key).isSome

/-- A name that starts with one of the channel types. -/
def IsChannelName (chantypes name : Bytes) : Prop := name.take 1 <:+: chantypes ∧ name.take 1 ≠ []

instance (chantypes name : Bytes) : Decidable (IsChannelName chantypes name) :=
  inferInstanceAs (Decidable (_ ∧ _))

/-- The keys of the private conversations. -/
def privateKeys (chantypes : Bytes) (order : List Bytes) : List Bytes :=
  order.filter fun key => !decide (IsChannelName chantypes key)

section Rounds

variable {env : Environment Num} {client : Client Num} {chantypes : Bytes}

/-- Whether a name is that of a channel is read off. -/
theorem isChannelName_bind (isText : client.chantypes = .text chantypes) (name : Bytes)
    {β : Type} (later : Bool → Act Num β)
    : (isChannelName name >>= later) client
      = later (decide (IsChannelName chantypes name)) client := by
  refine bind_of_ok ?_
  unfold isChannelName
  rw [get_bind, isText]
  exact congrArg (EStateM.Result.ok · client) (Bool.decide_and _ _).symm

/-- No name of at most 64 bytes makes the loop send: it only collects the names, by induction on
the buffers that are still to come.
-/
theorem monitorRounds_ends (isText : client.chantypes = .text chantypes) {order : List Bytes}
    (short : ∀ key ∈ order, key.length ≤ 64) (n : Nat) (nicks : List Bytes)
    : ∃ n', monitorRounds env order n nicks client
          = .ok (n', nicks ++ privateKeys chantypes order) client
        ∧ (0 < n' ↔ 0 < n ∨ privateKeys chantypes order ≠ []) := by
  induction order generalizing n nicks with
  | nil =>
      refine ⟨n, ?_, by simp [privateKeys]⟩
      rw [privateKeys, List.filter_nil, List.append_nil]
      rfl
  | cons key order ih =>
      have shortKey := short key List.mem_cons_self
      have shortRest : ∀ other ∈ order, other.length ≤ 64 := fun other isIn =>
        short other (List.mem_cons_of_mem key isIn)
      rw [monitorRounds, isChannelName_bind isText]
      by_cases channel : IsChannelName chantypes key
      · have same : privateKeys chantypes (key :: order) = privateKeys chantypes order := by
          simp [privateKeys, channel]
        simp only [decide_eq_true channel, if_true, same]
        exact ih shortRest n nicks
      · have more : privateKeys chantypes (key :: order) = key :: privateKeys chantypes order := by
          simp [privateKeys, channel]
        obtain ⟨n', ends, positive⟩ := ih shortRest (1 + key.length) (nicks ++ [key])
        refine ⟨n', ?_, ?_⟩
        · rw [decide_eq_false channel, if_neg Bool.false_ne_true, if_neg (by omega), ends, more,
            List.append_assoc, List.singleton_append]
        · rw [more]
          exact iff_of_true (positive.mpr (Or.inl (by omega))) (Or.inr (List.cons_ne_nil _ _))

/-- A list of nicks that can be sent goes out in one line. -/
theorem sendMonitor_ends {targets : Bytes}
    (accepted : ¬ Refused (lit "MONITOR") [lit "+", targets])
    : ∃ messages, sendMonitor env targets client
        = .ok () { client with
            sent := client.sent ++ [lineOf (lit "MONITOR") [lit "+", targets]], messages } :=
  ⟨_, send_of_other (by decide) accepted⟩

/-- What the monitors are reinstalled with: nothing, or the nicks of all private conversations in
one line, whatever its length.
-/
theorem reinstallMonitors_eq (isText : client.chantypes = .text chantypes)
    (hasMonitor : client.irc.monitor.isSome) {order : List Bytes}
    (short : ∀ key ∈ order, key.length ≤ 64)
    : reinstallMonitors env order client
      = if privateKeys chantypes order = [] then .ok () client
        else sendMonitor env (joinNicks (privateKeys chantypes order)) client := by
  obtain ⟨n, ends, positive⟩ := @monitorRounds_ends _ env _ _ isText _ short 0 []
  unfold reinstallMonitors
  rw [get_bind, if_pos hasMonitor, bind_of_ok ends]
  change (if n > 0 then sendMonitor env (joinNicks (privateKeys chantypes order))
    else pure ()) client = _
  by_cases none : privateKeys chantypes order = []
  · rw [if_pos none, if_neg (fun some => absurd (positive.mp some) (by simp [none]))]
    rfl
  · rw [if_neg none, if_pos (positive.mpr (Or.inr none))]

/-- Channel types that are no string stop the loop at its first buffer. -/
theorem reinstallMonitors_of_flag (isFlag : client.chantypes = .flag)
    (hasMonitor : client.irc.monitor.isSome) (key : Bytes) (order : List Bytes)
    : ∃ text, reinstallMonitors env (key :: order) client = .error (.raises text) client := by
  refine ⟨"bad argument #1 to 'find' (string expected, got boolean)", ?_⟩
  unfold reinstallMonitors
  rw [get_bind, if_pos hasMonitor]
  refine bind_of_error (bind_of_error ?_)
  unfold isChannelName
  rw [get_bind, isFlag]
  rfl

end Rounds

/-- A line monitors some nicks: it fits, and it is read back as `MONITOR +` with a list of them. -/
structure MonitorsNicks (line : Bytes) (nicks : List Bytes) : Prop where
  fits : line.length ≤ 512
  decodes : ∃ text,
    Decodes line { tags := [], source := [], command := lit "MONITOR", args := [lit "+", text] }
    ∧ text.splitOn (chr ',') = nicks

/-- A buffer is open, and its name is not that of a channel. -/
def IsPrivate (client : Client Num) (key : Bytes) : Prop :=
  (client.buffers key).isSome
  ∧ ¬ ∃ chantypes, client.chantypes = .text chantypes ∧ IsChannelName chantypes key

/-- The monitors of all private conversations are reinstalled, each once and no others, by lines
that fit, and the registration goes on.
-/
def MonitorsAll (env : Environment Num) (client : Client Num) (order : List Bytes) (nick : Bytes)
    : Prop :=
  ∃ (groups : List (List Bytes)) (lines : List Bytes) (after : Client Num),
    monitors env order nick client = watchNick env nick after
    ∧ reinstallMonitors env order client = .ok () after
    ∧ after.sent = client.sent ++ lines
    ∧ List.Forall₂ MonitorsNicks lines groups
    ∧ groups.flatten.Nodup
    ∧ ∀ key, key ∈ groups.flatten ↔ IsPrivate client key

/-- When that is so: the channel types can be searched, and the private conversations, if there
are any, have names without commas, whose list can be sent in one line.
-/
def FitOneLine (client : Client Num) (order : List Bytes) : Prop :=
  order = []
  ∨ ∃ chantypes, client.chantypes = .text chantypes
      ∧ (privateKeys chantypes order = []
        ∨ (∀ key ∈ privateKeys chantypes order, chr ',' ∉ key)
          ∧ ¬ Refused (lit "MONITOR") [lit "+", joinNicks (privateKeys chantypes order)])

section Condition

variable {env : Environment Num} {client : Client Num} {order : List Bytes}

/-- The private conversations are the keys that the loop collects. -/
theorem mem_privateKeys_iff {chantypes : Bytes} (isText : client.chantypes = .text chantypes)
    (visits : VisitsBuffers client.buffers order) (key : Bytes)
    : key ∈ privateKeys chantypes order ↔ IsPrivate client key := by
  rw [privateKeys, List.mem_filter, visits.all, IsPrivate, isText]
  simp

/-- The command is a word. -/
theorem isWord_monitor : CommandWord (lit "MONITOR") where
  nonempty := by decide
  plain := by decide
  unbroken := by unfold Breaks; decide
  unsourced := by decide
  untagged := by decide

/-- A line that goes out monitors the nicks of its list. -/
theorem monitorsNicks_of_accepted {targets : Bytes}
    (accepted : ¬ Refused (lit "MONITOR") [lit "+", targets])
    : MonitorsNicks (lineOf (lit "MONITOR") [lit "+", targets]) (targets.splitOn (chr ',')) where
  fits := Nat.not_lt.mp fun long => accepted (Or.inr long)
  decodes := ⟨targets, lineOf_decodes isWord_monitor (fun bad => accepted (Or.inl bad)), rfl⟩

/-- The registration goes on behind monitors that were reinstalled. -/
theorem monitors_of_ends {after : Client Num} {nick : Bytes}
    (ends : reinstallMonitors env order client = .ok () after)
    : monitors env order nick client = watchNick env nick after :=
  bind_of_ok ends

/-- What the lines that went out name is without commas. -/
theorem plain_of_monitorsNicks {lines : List Bytes} {groups : List (List Bytes)}
    (monitor : List.Forall₂ MonitorsNicks lines groups)
    : ∀ key ∈ groups.flatten, chr ',' ∉ key := by
  induction monitor with
  | nil => rintro key ⟨⟩
  | cons monitors _ ih =>
      intro key isIn
      rw [List.flatten_cons, List.mem_append] at isIn
      rcases isIn with first | later
      · obtain ⟨text, _, rfl⟩ := monitors.decodes
        exact (of_mem_splitOn first).1
      · exact ih key later

/-- Without private conversations nothing has to be sent. -/
theorem monitorsAll_of_idle {nick : Bytes}
    (ends : reinstallMonitors env order client = .ok () client)
    (idle : ∀ key, ¬ IsPrivate client key)
    : MonitorsAll env client order nick :=
  ⟨[], [], client, monitors_of_ends ends, ends, (List.append_nil _).symm, .nil, .nil,
    fun key => iff_of_false List.not_mem_nil (idle key)⟩

/-- If the one line can be sent, it monitors every private conversation. -/
theorem monitorsAll_of_accepted {chantypes nick : Bytes}
    (visits : VisitsBuffers client.buffers order) (isText : client.chantypes = .text chantypes)
    (isRun : reinstallMonitors env order client
      = sendMonitor env (joinNicks (privateKeys chantypes order)) client)
    (some : privateKeys chantypes order ≠ [])
    (plain : ∀ key ∈ privateKeys chantypes order, chr ',' ∉ key)
    (accepted : ¬ Refused (lit "MONITOR") [lit "+", joinNicks (privateKeys chantypes order)])
    : MonitorsAll env client order nick := by
  obtain ⟨messages, ends⟩ := @sendMonitor_ends _ env client _ accepted
  have monitorsKeys := monitorsNicks_of_accepted accepted
  rw [joinNicks, List.splitOn_intercalate (chr ',') plain some] at monitorsKeys
  refine ⟨[privateKeys chantypes order], _, _, monitors_of_ends (isRun.trans ends),
    isRun.trans ends, rfl, .cons monitorsKeys .nil, ?_, ?_⟩
  · rw [List.flatten_singleton]
    exact visits.once.filter _
  · rw [List.flatten_singleton]
    exact mem_privateKeys_iff isText visits

/-- If every private conversation is monitored, the one line was sent. -/
theorem MonitorsAll.accepted {chantypes nick : Bytes}
    (monitorsAll : MonitorsAll env client order nick)
    (visits : VisitsBuffers client.buffers order) (isText : client.chantypes = .text chantypes)
    (isRun : reinstallMonitors env order client
      = sendMonitor env (joinNicks (privateKeys chantypes order)) client)
    : (∀ key ∈ privateKeys chantypes order, chr ',' ∉ key)
      ∧ ¬ Refused (lit "MONITOR") [lit "+", joinNicks (privateKeys chantypes order)] := by
  obtain ⟨groups, lines, after, _, ends, _, monitor, _, named⟩ := monitorsAll
  refine ⟨fun key isIn => ?_, fun refused => ?_⟩
  · exact plain_of_monitorsNicks monitor key
      ((named key).mpr ((mem_privateKeys_iff isText visits key).mp isIn))
  · obtain ⟨text, raises⟩ := @send_of_refused _ env client (lit "MONITOR")
      [.plain (.string (lit "+")), .plain (.string (joinNicks (privateKeys chantypes order)))]
      refused
    rw [isRun, sendMonitor, raises] at ends
    cases ends

/-- For targets of at most 64 bytes on a server with `MONITOR`, the monitors of all private
conversations are reinstalled exactly if their list fits into one line: the length that is kept
is that of the last name only, so the list is never cut.
-/
theorem monitorsAll_iff (visits : VisitsBuffers client.buffers order)
    (hasMonitor : client.irc.monitor.isSome)
    (short : ∀ key, (client.buffers key).isSome → key.length ≤ 64) (nick : Bytes)
    : MonitorsAll env client order nick ↔ FitOneLine client order := by
  have shortKeys : ∀ key ∈ order, key.length ≤ 64 := fun key isIn =>
    short key ((visits.all key).mp isIn)
  cases isText : client.chantypes with
  | flag =>
      cases order with
      | nil =>
          refine iff_of_true (monitorsAll_of_idle ?_ fun key isPrivate => ?_) (Or.inl rfl)
          · unfold reinstallMonitors
            rw [get_bind, if_pos hasMonitor]
            rfl
          · cases (visits.all key).mpr isPrivate.1
      | cons key order =>
          obtain ⟨text, raises⟩ := reinstallMonitors_of_flag isText hasMonitor key order
          refine iff_of_false ?_ ?_
          · rintro ⟨_, _, _, _, ends, _⟩
            rw [raises] at ends
            cases ends
          · rintro (⟨⟨⟩⟩ | ⟨_, isText', _⟩)
            rw [isText] at isText'
            cases isText'
  | text chantypes =>
      have isRun := @reinstallMonitors_eq _ env _ _ isText hasMonitor _ shortKeys
      by_cases none : privateKeys chantypes order = []
      · rw [if_pos none] at isRun
        refine iff_of_true (monitorsAll_of_idle isRun fun key isPrivate => ?_)
          (Or.inr ⟨chantypes, isText, Or.inl none⟩)
        have isIn := (mem_privateKeys_iff isText visits key).mpr isPrivate
        rw [none] at isIn
        cases isIn
      · rw [if_neg none] at isRun
        constructor
        · intro monitorsAll
          exact Or.inr ⟨chantypes, isText, Or.inr (monitorsAll.accepted visits isText isRun)⟩
        · rintro (rfl | ⟨chantypes', isText', some⟩)
          · exact absurd rfl none
          · obtain rfl : chantypes = chantypes' :=
              Sending.TokenValue.text.inj (isText.symm.trans isText')
            obtain ⟨plain, accepted⟩ := some.resolve_left none
            exact monitorsAll_of_accepted visits isText isRun none plain accepted

end Condition

/-- A client on a server with `MONITOR`, with some buffers. -/
def monitoringClient (keys : List Bytes) : Client Nat :=
  { welcomedClient with
    irc := { welcomedClient.irc with monitor := some fun _ => none }
    buffers := fun key => if key ∈ keys then some (.new key) else none }

/-- Its buffers are visited in the order of their keys. -/
theorem visits_monitoringClient {keys : List Bytes} (once : keys.Nodup)
    : VisitsBuffers (monitoringClient keys).buffers keys where
  once
  all key := by
    by_cases isIn : key ∈ keys <;> simp [monitoringClient, isIn]

/-- A channel and two private conversations. -/
theorem monitorsAll_iff_witness
    : MonitorsAll plainEnvironment (monitoringClient [lit "#C", lit "AL", lit "BOB"])
          [lit "#C", lit "AL", lit "BOB"] (lit "me")
        ↔ FitOneLine (monitoringClient [lit "#C", lit "AL", lit "BOB"])
          [lit "#C", lit "AL", lit "BOB"] := by
  have visits := @visits_monitoringClient [lit "#C", lit "AL", lit "BOB"] (by decide)
  have short : ∀ key ∈ [lit "#C", lit "AL", lit "BOB"], key.length ≤ 64 := by decide
  exact monitorsAll_iff visits rfl (fun key isOpen => short key ((visits.all key).mpr isOpen))
    (lit "me")

/-- Eight names of 64 bytes. -/
def eightNames : List Bytes := (List.range 8).map fun i => List.replicate 64 (0x41 + i.toUInt8)

/-- Eight conversations with long names do not fit into one line, and the registration stops. -/
theorem monitorsAll_counterexample
    : VisitsBuffers (monitoringClient eightNames).buffers eightNames
      ∧ (monitoringClient eightNames).irc.monitor.isSome
      ∧ (∀ key ∈ eightNames, key.length ≤ 64)
      ∧ ¬ MonitorsAll plainEnvironment (monitoringClient eightNames) eightNames (lit "me") := by
  have visits := @visits_monitoringClient eightNames (by decide +kernel)
  have short : ∀ key ∈ eightNames, key.length ≤ 64 := by decide +kernel
  refine ⟨visits, rfl, short, fun monitorsAll => ?_⟩
  have isRun := @reinstallMonitors_eq _ plainEnvironment (monitoringClient eightNames) (lit "&#")
    rfl rfl eightNames short
  rw [if_neg (by decide +kernel)] at isRun
  refine (monitorsAll.accepted visits rfl isRun).2 (Or.inr ?_)
  decide +kernel

end Snowcone.Registration
