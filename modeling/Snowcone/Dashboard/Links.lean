import Snowcone.Foundations.BreadthFirst
import Snowcone.Foundations.Bytes

/-! The links of the servers as the replies to LINKS report them, and which of its neighbours a
server has on its way to the primary hub.
-/

namespace Snowcone.Dashboard

open BreadthFirst Function WhileLoop

/-- A table from servers to sets of servers. -/
abbrev Links := Bytes → Option (List Bytes)

/-- What the handlers know about links; `listed` is what was reported of a list that has not
ended yet.
-/
structure LinksState where
  listed : Option Links
  links : Option Links
  upstream : Bytes → Option Bytes

/-- `RPL_LINKS`, with the second and the third parameter of the message. -/
def rplLinks (state : LinksState) (server linked : Bytes) : LinksState :=
  let links := update (state.listed.getD (fun _ => none)) server (some [linked])
  let links :=
    match links linked with
    | some set => update links linked (some (set.insert server))
    | none => links
  { state with listed := some links }

/-- `RPL_ENDOFLINKS`; `pairs` is the order in which the links of a server are visited. There is
no result if an error is raised, or if the loop goes on after so many rounds.
-/
def rplEndOfLinks (pairs : Bytes → List Bytes → List Bytes) (rounds : Nat)
    (primaryHub : Option Bytes) (state : LinksState)
    : Option LinksState := do
  let state := { state with links := state.listed, listed := none }
  match primaryHub with
  | none => return state
  | some primaryHub =>
      let links ← state.links
      let search ← run (round (fun here => pairs here ((links here).getD []))) rounds
        (0, start primaryHub)
      return { state with upstream := search.upstream }

/-- The lines of a list, one after the other. -/
def reportLinks (state : LinksState) (lines : List (Bytes × Bytes)) : LinksState :=
  lines.foldl (fun state line => rplLinks state line.1 line.2) state

-----------------------------------------------------------------------------------------
-- The tree of the servers
-----------------------------------------------------------------------------------------

/-- The servers of a list. -/
def servers (lines : List (Bytes × Bytes)) : List Bytes := lines.map (·.1)

/-- A list of a tree of servers. Each server has one line, which comes after the line of its
uplink; the root reports itself as its uplink.
-/
inductive Reported (root : Bytes) : List (Bytes × Bytes) → Prop
  | root : Reported root [(root, root)]
  | line {lines server uplink} (earlier : Reported root lines) (isUplink : uplink ∈ servers lines)
    (isNew : server ∉ servers lines)
    : Reported root (lines ++ [(server, uplink)])

/-- The graph of the servers: neighbours are a server and its uplink. -/
def network (lines : List (Bytes × Bytes)) : SimpleGraph Bytes :=
  .fromRel (fun server uplink => (server, uplink) ∈ lines)

variable {root : Bytes} {lines : List (Bytes × Bytes)}

/-- Another line adds a server. -/
theorem mem_servers_append {server uplink k : Bytes}
    : k ∈ servers (lines ++ [(server, uplink)]) ↔ k ∈ servers lines ∨ k = server := by
  simp [servers]

/-- The root is a server. -/
theorem Reported.root_mem (reported : Reported root lines) : root ∈ servers lines := by
  induction reported with
  | root => exact List.mem_singleton_self root
  | line _ _ _ ih => exact mem_servers_append.mpr (.inl ih)

/-- Another line adds an edge. -/
theorem network_append {server uplink : Bytes} (lines : List (Bytes × Bytes))
    : network (lines ++ [(server, uplink)]) = network lines ⊔ SimpleGraph.edge server uplink := by
  ext a b
  simp only [network, SimpleGraph.fromRel_adj, SimpleGraph.sup_adj, SimpleGraph.edge_adj,
    List.mem_append, List.mem_singleton, Prod.mk.injEq]
  grind

/-- A list with one line has no edges. -/
theorem network_root (root : Bytes) : network [(root, root)] = ⊥ := by
  ext a b
  simp only [network, SimpleGraph.fromRel_adj, List.mem_singleton, Prod.mk.injEq,
    SimpleGraph.bot_adj, iff_false]
  grind

/-- Only servers have neighbours, by induction on the list. -/
theorem Reported.mem_of_adj (reported : Reported root lines) {a b : Bytes}
    (adjacent : (network lines).Adj a b)
    : a ∈ servers lines := by
  induction reported with
  | root =>
      rw [network_root] at adjacent
      exact adjacent.elim
  | line _ isUplink _ ih =>
      rw [network_append, SimpleGraph.sup_adj, SimpleGraph.edge_adj] at adjacent
      rw [mem_servers_append]
      rcases adjacent with before | ⟨⟨rfl, -⟩ | ⟨rfl, -⟩, -⟩
      · exact .inl (ih before)
      · exact .inr rfl
      · exact .inl isUplink

/-- Every server can be reached from the root, by induction on the list. -/
theorem Reported.reachable (reported : Reported root lines) {server : Bytes}
    (isServer : server ∈ servers lines)
    : (network lines).Reachable root server := by
  induction reported generalizing server with
  | root =>
      obtain rfl := List.mem_singleton.mp isServer
      exact .refl _
  | @line lines added uplink _ isUplink isNew ih =>
      have fewer : network lines ≤ network (lines ++ [(added, uplink)]) := by
        rw [network_append]
        exact le_sup_left
      rcases mem_servers_append.mp isServer with before | rfl
      · exact (ih before).mono fewer
      · refine ((ih isUplink).mono fewer).trans (SimpleGraph.Adj.reachable ?_)
        rw [network_append, SimpleGraph.sup_adj, SimpleGraph.edge_adj]
        refine .inr ⟨.inr ⟨rfl, rfl⟩, ?_⟩
        rintro rfl
        exact isNew isUplink

/-- There are no cycles, by induction on the list: a new server had no neighbours. -/
theorem Reported.isAcyclic (reported : Reported root lines) : (network lines).IsAcyclic := by
  induction reported with
  | root =>
      rw [network_root]
      exact SimpleGraph.isAcyclic_bot
  | line earlier isUplink isNew ih =>
      rw [network_append]
      refine ih.sup_edge_of_not_reachable ?_
      rintro ⟨walk⟩
      cases walk with
      | nil => exact isNew isUplink
      | cons adjacent _ => exact isNew (earlier.mem_of_adj adjacent)

-----------------------------------------------------------------------------------------
-- What the handlers make of it
-----------------------------------------------------------------------------------------

/-- The sets of a table are the neighbours in the graph; the root is also its own. -/
structure Linked (root : Bytes) (lines : List (Bytes × Bytes)) (links : Links) : Prop where
  reported : ∀ server, links server ≠ none ↔ server ∈ servers lines
  members : ∀ server set, links server = some set → ∀ k, k ∈ set ↔
    (network lines).Adj server k ∨ (server = root ∧ k = root)

/-- The line of the root. -/
theorem linked_root (root : Bytes)
    : Linked root [(root, root)] (update (fun _ => none) root (some [root])) where
  reported server := by
    by_cases isRoot : server = root
    · simp [isRoot, servers]
    · simp [isRoot, servers]
  members server set isSet k := by
    rw [network_root]
    by_cases isRoot : server = root
    · subst isRoot
      rw [update_self] at isSet
      obtain rfl := Option.some.inj isSet
      simp
    · rw [update_of_ne isRoot] at isSet
      cases isSet

/-- The line of a new server links it and its uplink in both directions. -/
theorem Linked.line {links : Links} {server uplink : Bytes} {set : List Bytes}
    (linked : Linked root lines links) (reported : Reported root lines)
    (isUplink : links uplink = some set) (isNew : server ∉ servers lines)
    : Linked root (lines ++ [(server, uplink)])
        (update (update links server (some [uplink])) uplink (some (set.insert server))) := by
  have known : uplink ∈ servers lines := (linked.reported uplink).mp (by rw [isUplink]; nofun)
  have differs : server ≠ uplink := fun same => isNew (same ▸ known)
  have notRoot : server ≠ root := fun same => isNew (same ▸ reported.root_mem)
  have alone (k : Bytes) : ¬ (network lines).Adj server k :=
    fun adjacent => isNew (reported.mem_of_adj adjacent)
  constructor
  case reported =>
    intro other
    rw [mem_servers_append]
    by_cases same : other = uplink
    · subst same
      simp [known]
    · by_cases same' : other = server
      · subst same'
        simp [same]
      · rw [update_of_ne same, update_of_ne same', linked.reported, or_iff_left same']
  case members =>
    intro other members isSet k
    rw [network_append, SimpleGraph.sup_adj, SimpleGraph.edge_adj]
    by_cases same : other = uplink
    · subst same
      rw [update_self] at isSet
      obtain rfl := Option.some.inj isSet
      rw [List.mem_insert_iff, linked.members other set isUplink]
      grind
    · rw [update_of_ne same] at isSet
      by_cases same' : other = server
      · subst same'
        rw [update_self] at isSet
        obtain rfl := Option.some.inj isSet
        have := alone k
        grind
      · rw [update_of_ne same'] at isSet
        rw [linked.members other members isSet]
        grind

/-- The handler works on the last line with what the lines before it made. -/
theorem reportLinks_append (state : LinksState) (lines : List (Bytes × Bytes))
    (server uplink : Bytes)
    : reportLinks state (lines ++ [(server, uplink)])
      = rplLinks (reportLinks state lines) server uplink := by
  rw [reportLinks, List.foldl_append]
  rfl

/-- The table of a list of lines, by induction on the list. -/
theorem reportLinks_linked (reported : Reported root lines) (state : LinksState)
    (isNew : state.listed = none)
    : ∃ links, reportLinks state lines = { state with listed := some links }
      ∧ Linked root lines links := by
  induction reported with
  | root =>
      refine ⟨_, ?_, linked_root root⟩
      simp [reportLinks, rplLinks, isNew]
  | @line lines server uplink earlier isUplink isNew ih =>
      obtain ⟨links, isState, linked⟩ := ih
      obtain ⟨set, isSet⟩ := Option.ne_none_iff_exists'.mp ((linked.reported uplink).mpr isUplink)
      have differs : uplink ≠ server := fun same => isNew (same ▸ isUplink)
      refine ⟨_, ?_, linked.line earlier isSet isNew⟩
      rw [reportLinks_append, isState, rplLinks]
      simp only [Option.getD_some, update_of_ne differs, isSet]

/-- The loop over the queue searches the graph of the servers. -/
theorem Linked.explores {links : Links} {pairs : Bytes → List Bytes → List Bytes}
    (linked : Linked root lines links) (reported : Reported root lines)
    (permutes : ∀ server set, (pairs server set).Perm set)
    : Explores (network lines) (servers lines)
        (fun here => pairs here ((links here).getD [])) := by
  have isNeighbour (server k : Bytes) (isServer : server ∈ servers lines)
    : k ∈ pairs server ((links server).getD [])
      ↔ (network lines).Adj server k ∨ (server = root ∧ k = root) := by
    obtain ⟨set, isSet⟩ := Option.ne_none_iff_exists'.mp ((linked.reported server).mpr isServer)
    rw [isSet, Option.getD_some, (permutes server set).mem_iff]
    exact linked.members server set isSet k
  constructor
  case near =>
    intro server isServer k member
    refine ((isNeighbour server k isServer).mp member).imp_right ?_
    rintro ⟨rfl, rfl⟩
    rfl
  case inside =>
    intro server isServer k member
    rcases (isNeighbour server k isServer).mp member with adjacent | ⟨-, rfl⟩
    · exact reported.mem_of_adj adjacent.symm
    · exact reported.root_mem
  case all =>
    intro server isServer k adjacent
    exact (isNeighbour server k isServer).mpr (.inl adjacent)

/-- After the list of a tree of servers the loop comes to an end, and every server has its
neighbour on the one path to the primary hub as its upstream; the hub has itself.
-/
theorem upstream_towards_hub (pairs : Bytes → List Bytes → List Bytes)
    (permutes : ∀ server set, (pairs server set).Perm set) (reported : Reported root lines)
    {primaryHub : Bytes} (isServer : primaryHub ∈ servers lines) (state : LinksState)
    (isNew : state.listed = none)
    : ∃ rounds after,
        rplEndOfLinks pairs rounds (some primaryHub) (reportLinks state lines) = some after
        ∧ after.upstream primaryHub = some primaryHub
        ∧ (∀ server ∈ servers lines, ∃ path : (network lines).Walk server primaryHub,
            path.IsPath
            ∧ (∀ other : (network lines).Walk server primaryHub, other.IsPath → other = path)
            ∧ (server ≠ primaryHub → after.upstream server = some path.snd))
        ∧ ∀ server, server ∉ servers lines → after.upstream server = none := by
  obtain ⟨links, isState, linked⟩ := reportLinks_linked reported state isNew
  obtain ⟨result, runs, atHub, found, onlyThose⟩ :=
    search_finds (linked.explores reported permutes) isServer
  refine ⟨(servers lines).length + 1,
    { state with listed := none, links := some links, upstream := result.upstream }, ?_, atHub,
    ?_, ?_⟩
  · rw [isState, rplEndOfLinks]
    dsimp only
    rw [Option.bind_eq_bind, Option.bind_some, runs]
    rfl
  · intro server isServer'
    obtain ⟨path, isPath, starts⟩ :=
      found server ((reported.reachable isServer).symm.trans (reported.reachable isServer'))
    refine ⟨path, isPath, fun other isOther => ?_, starts⟩
    have same := (reported.isAcyclic.subsingleton_path server primaryHub).elim
      ⟨other, isOther⟩ ⟨path, isPath⟩
    exact congrArg Subtype.val same
  · intro server isOther
    refine onlyThose server ?_
    rintro ⟨walk⟩
    cases walk.reverse with
    | nil => exact isOther isServer
    | cons adjacent _ => exact isOther (reported.mem_of_adj adjacent)

/-- A list of three servers in a row, from the root on. -/
def rowOfServers : List (Bytes × Bytes) := [([97], [97]), ([98], [97]), ([99], [98])]

/-- It is the list of a tree. -/
theorem rowOfServers_reported : Reported [97] rowOfServers := by
  have two : Reported [97] [([97], [97]), ([98], [97])] :=
    Reported.root.line (by decide) (by decide)
  exact two.line (by decide) (by decide)

/-- Witness: the list of three servers in a row, with the last one as the hub. -/
theorem upstream_towards_hub_witness
    : ∃ rounds after,
        rplEndOfLinks (fun _ set => set) rounds (some [99])
          (reportLinks { listed := none, links := none, upstream := fun _ => none } rowOfServers)
          = some after
        ∧ after.upstream [99] = some [99] := by
  obtain ⟨rounds, after, ends, atHub, -⟩ :=
    upstream_towards_hub (fun _ set => set) (fun _ _ => .rfl) rowOfServers_reported
      (by decide : ([99] : Bytes) ∈ servers rowOfServers)
      { listed := none, links := none, upstream := fun _ => none } rfl
  exact ⟨rounds, after, ends, atHub⟩

/-- The root is turned towards the hub. -/
example : (rplEndOfLinks (fun _ set => set.reverse) 4 (some [99])
    (reportLinks { listed := none, links := none, upstream := fun _ => none } rowOfServers)).map
    (fun state => (state.upstream [97], state.upstream [98])) = some (some [98], some [99]) := by
  decide

end Snowcone.Dashboard
