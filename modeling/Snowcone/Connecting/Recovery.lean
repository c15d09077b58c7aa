import Snowcone.Connecting.Modes

/-! After a connect task has ended the client can connect again, unless `snowcone.connect`
raised an error.
-/

namespace Snowcone.Connecting

open Bytes Coroutine Tasks Runs

variable {X509 PKey : Type}

/-- A client that is not busy connecting: it is connected exactly if it has an `irc_state`,
and idle otherwise.
-/
structure Recovered (client : Client X509 PKey) : Prop where
  mode : client.modeCurrent = .idle ∨ client.modeCurrent = .connected
  state : client.modeCurrent = .connected ↔ client.ircState.isSome

/-- If the ports in the configuration are ports, then every reachable client without a
connect task is idle or connected, whatever the passwords, keys and certificates come to.
Witness: the modes, of which only a raised error is stalled.
-/
theorem recovered_without_task {isMatch : Matcher} {configuration : Configuration}
    {host : Host X509 PKey} {events : List (Event X509 PKey)} {client : Client X509 PKey}
    (fits : PortsFit configuration)
    (run : Reaches (step isMatch configuration) (startup configuration host) events client)
    (noTask : client.clientTasks = [])
    : Recovered client := by
  cases reachable_modes run with
  | idle current noState => exact ⟨.inl current, by simp [current, noState]⟩
  | connecting _ _ next task => simp [noTask] at task
  | stalled _ _ _ misfit => exact absurd fits misfit
  | connected irc current state => exact ⟨.inr current, by simp [current, state]⟩

/-- A server without a port, and a password that is typed in. -/
def promptConfiguration : Configuration :=
  {
    server := { host := some (lit "irc.example"), port := none, fingerprint := none }
    socks := some {
      host := some (lit "proxy.example")
      port := some (.integer 1080)
      username := some (lit "user")
      password := .prompt (lit "Proxy password")
    }
    tls := none
  }

/-- A host without files, certificates and keys. -/
def emptyHost : Host Unit Unit :=
  {
    readFile := fun _ name => .error (name ++ lit ": No such file or directory")
    readX509 := fun _ => .error (lit "PEM_read_bio_X509")
    pkeyFromStore := fun _ _ => .error (lit "OSSL_STORE_open")
    readPem := fun _ _ => .error (lit "PEM_read_bio_PrivateKey")
  }

/-- The prompt is aborted, and the client is idle again. -/
theorem recovered_without_task_witness
    : ∃ client : Client Unit Unit,
      Reaches (step (fun _ _ => .ok true) promptConfiguration)
        (startup promptConfiguration emptyHost) [.wakes 0 []] client
      ∧ client.statuses = [("connect", lit "SOCKS5 password program error: Password aborted")]
      ∧ Recovered client := by
  let reached := run (step (fun _ _ => .ok true) promptConfiguration)
    (startup promptConfiguration emptyHost) [.wakes 0 []]
  have runs : reached = some (reached.get rfl) := (Option.some_get _).symm
  have fits : PortsFit promptConfiguration := by
    constructor
    · intro n given
      cases given
    · intro socks n isSocks given
      obtain rfl := Option.some.inj isSocks
      obtain rfl := Option.some.inj given
      exact ⟨1080, rfl, by decide, by decide⟩
  exact ⟨_, reaches_of_run runs, by decide, recovered_without_task fits (reaches_of_run runs) rfl⟩

/-- A configuration with a port that is none. -/
def badPortConfiguration : Configuration :=
  {
    server :=
      { host := some (lit "irc.example"), port := some (.integer 70000), fingerprint := none }
    socks := none
    tls := none
  }

/-- A port that is out of range: the startup leaves the client connecting without a task,
and so does the command to connect.
-/
theorem recovered_without_task_counterexample
    : let client : Client Unit Unit := startup badPortConfiguration emptyHost
      Reaches (step (fun _ _ => .ok true) badPortConfiguration)
        (startup badPortConfiguration emptyHost) [] client
      ∧ client.clientTasks = []
      ∧ client.modeCurrent = .connecting
      ∧ ¬ Recovered client
      ∧ (client.connectCommand emptyHost badPortConfiguration).modeCurrent = .connecting
      ∧ client.quit.shutDown = false := by
  intro client
  have current : client.modeCurrent = .connecting := rfl
  refine ⟨.start, rfl, current, fun recovered => ?_, rfl, rfl⟩
  rcases recovered.mode with isIdle | isConnected
  · rw [current] at isIdle
    cases isIdle
  · rw [current] at isConnected
    cases isConnected

end Snowcone.Connecting
