import Mathlib.Combinatorics.SimpleGraph.Acyclic
import Mathlib.Logic.Function.Basic
import Snowcone.Foundations.Loops

/-! Breadth-first search with a queue that grows while a loop goes over it. It gives every vertex
it finds the vertex that it was found from, and those lead to where the search began.
-/

namespace BreadthFirst

open Function WhileLoop

variable {V : Type}

/-- The vertices found so far, in order, and the vertex that each was found from. -/
structure Search (V : Type) where
  queue : List V
  upstream : V → Option V

/-- A search begins at a vertex that leads to itself. -/
def start [DecidableEq V] (root : V) : Search V :=
  { queue := [root], upstream := update (fun _ => none) root (some root) }

/-- A neighbour of `here` is found, unless it was found before. -/
def visit [DecidableEq V] (here : V) (search : Search V) (k : V) : Search V :=
  match search.upstream k with
  | some _ => search
  | none =>
      { queue := search.queue ++ [k], upstream := update search.upstream k (some here) }

/-- One round of the loop over the queue. -/
def round [DecidableEq V] (neighbours : V → List V) (turn : Nat × Search V)
    : Round (Nat × Search V) (Search V) :=
  match turn.2.queue[turn.1]? with
  | none => .leave turn.2
  | some here => .again (turn.1 + 1, (neighbours here).foldl (visit here) turn.2)

-----------------------------------------------------------------------------------------
-- What a search keeps
-----------------------------------------------------------------------------------------

section Searching

variable {graph : SimpleGraph V} {root : V}

/-- A vertex that was found has a path to the root through vertices that were found, and the
path begins with the vertex it was found from.
-/
def Leads (graph : SimpleGraph V) (root : V) (search : Search V) (k : V) : Prop :=
  ∃ path : graph.Walk k root, path.IsPath ∧ (∀ v ∈ path.support, v ∈ search.queue)
    ∧ (k ≠ root → search.upstream k = some path.snd)

/-- What holds throughout a search. -/
structure Sound (graph : SimpleGraph V) (root : V) (search : Search V) : Prop where
  found : ∀ k, k ∈ search.queue ↔ search.upstream k ≠ none
  nodup : search.queue.Nodup
  atRoot : search.upstream root = some root
  leads : ∀ k ∈ search.queue, Leads graph root search k

/-- A later state of a search has found more, and changed nothing. -/
structure Grows (before after : Search V) : Prop where
  queue : before.queue <+: after.queue
  upstream : ∀ k ∈ before.queue, after.upstream k = before.upstream k

/-- Nothing more need be found. -/
theorem Grows.refl (search : Search V) : Grows search search :=
  ⟨List.prefix_refl _, fun _ _ => rfl⟩

/-- Growing goes on. -/
theorem Grows.trans {before middle after : Search V} (first : Grows before middle)
    (second : Grows middle after)
    : Grows before after where
  queue := first.queue.trans second.queue
  upstream := fun k member =>
    (second.upstream k (first.queue.subset member)).trans (first.upstream k member)

/-- A path stays one when more is found. -/
theorem Leads.grows {before after : Search V} {k : V} (leads : Leads graph root before k)
    (grows : Grows before after)
    : Leads graph root after k := by
  obtain ⟨path, isPath, inside, starts⟩ := leads
  refine ⟨path, isPath, fun v member => grows.queue.subset (inside v member), fun differs => ?_⟩
  exact (grows.upstream k (inside k path.start_mem_support)).trans (starts differs)

/-- A path of a vertex goes on to its neighbours that are not on it. -/
theorem Leads.cons {search after : Search V} {here k : V} (leads : Leads graph root search here)
    (adjacent : graph.Adj k here) (isNew : k ∉ search.queue)
    (queue : ∀ v, v = k ∨ v ∈ search.queue → v ∈ after.queue)
    (upstream : after.upstream k = some here)
    : Leads graph root after k := by
  obtain ⟨path, isPath, inside, -⟩ := leads
  refine ⟨.cons adjacent path, ?_, ?_, ?_⟩
  · exact (SimpleGraph.Walk.cons_isPath_iff adjacent path).mpr
      ⟨isPath, fun member => isNew (inside k member)⟩
  · intro v member
    rcases List.mem_cons.mp member with same | later
    · exact queue v (.inl same)
    · exact queue v (.inr (inside v later))
  · intro _
    rw [upstream, SimpleGraph.Walk.snd_cons]

-----------------------------------------------------------------------------------------
-- The graph of a search
-----------------------------------------------------------------------------------------

/-- The lists of neighbours are those of the graph, save that they may name the vertex itself,
and do not leave a finite list of vertices.
-/
structure Explores (graph : SimpleGraph V) (vertices : List V) (neighbours : V → List V)
    : Prop where
  near : ∀ v ∈ vertices, ∀ k ∈ neighbours v, graph.Adj v k ∨ k = v
  inside : ∀ v ∈ vertices, ∀ k ∈ neighbours v, k ∈ vertices
  all : ∀ v ∈ vertices, ∀ k, graph.Adj v k → k ∈ neighbours v

/-- What is closed under neighbours holds everything that can be reached from it, by induction
on the walk there.
-/
theorem mem_of_walk {vertices : List V} {neighbours : V → List V}
    (explores : Explores graph vertices neighbours) {queue : List V}
    (within : ∀ v ∈ queue, v ∈ vertices) (closed : ∀ v ∈ queue, ∀ k ∈ neighbours v, k ∈ queue)
    {u k : V} (walk : graph.Walk u k) (isFound : u ∈ queue)
    : k ∈ queue := by
  induction walk with
  | nil => exact isFound
  | cons adjacent _ ih =>
      exact ih (closed _ isFound _ (explores.all _ (within _ isFound) _ adjacent))

-----------------------------------------------------------------------------------------
-- The rounds
-----------------------------------------------------------------------------------------

variable [DecidableEq V]

/-- A search begins soundly. -/
theorem sound_start (graph : SimpleGraph V) (root : V) : Sound graph root (start root) where
  found k := by
    by_cases isRoot : k = root
    · subst isRoot
      simp [start]
    · simp [start, isRoot]
  nodup := List.nodup_singleton root
  atRoot := by simp [start]
  leads k member := by
    obtain rfl := List.mem_singleton.mp member
    exact ⟨.nil, .nil, by simp [start, SimpleGraph.Walk.support_nil],
      fun differs => absurd rfl differs⟩

/-- A visit of a neighbour finds it, and keeps what is sound. -/
theorem sound_visit {search : Search V} {here k : V} (sound : Sound graph root search)
    (isHere : here ∈ search.queue) (near : graph.Adj here k ∨ k = here)
    : Sound graph root (visit here search k) ∧ Grows search (visit here search k)
      ∧ k ∈ (visit here search k).queue := by
  rw [visit]
  cases isFound : search.upstream k with
  | some before =>
      exact ⟨sound, .refl search, (sound.found k).mpr (by rw [isFound]; nofun)⟩
  | none =>
      have isNew : k ∉ search.queue := fun member => (sound.found k).mp member isFound
      have adjacent : graph.Adj here k := near.resolve_right (fun same => isNew (same ▸ isHere))
      have notRoot : root ≠ k := by
        rintro rfl
        rw [sound.atRoot] at isFound
        cases isFound
      have grows : Grows search
          { queue := search.queue ++ [k], upstream := update search.upstream k (some here) } := by
        refine ⟨List.prefix_append _ _, fun v member => update_of_ne ?_ _ _⟩
        rintro rfl
        exact isNew member
      refine ⟨?_, grows, List.mem_append_right _ (List.mem_singleton_self k)⟩
      constructor
      case found =>
        intro v
        by_cases same : v = k
        · subst same
          simp
        · simp [same, sound.found v]
      case nodup => exact List.nodup_append.mpr ⟨sound.nodup, List.nodup_singleton k, by grind⟩
      case atRoot => exact (update_of_ne notRoot _ _).trans sound.atRoot
      case leads =>
        intro v member
        rcases List.mem_append.mp member with before | here'
        · exact (sound.leads v before).grows grows
        · obtain rfl := List.mem_singleton.mp here'
          refine (sound.leads here isHere).cons adjacent.symm isNew ?_ (update_self ..)
          rintro w (rfl | before)
          · exact member
          · exact List.mem_append_left _ before

/-- A round finds all neighbours of a vertex, by induction on them. -/
theorem sound_visits {search : Search V} {here : V} (neighbours : List V)
    (sound : Sound graph root search) (isHere : here ∈ search.queue)
    (near : ∀ k ∈ neighbours, graph.Adj here k ∨ k = here)
    : Sound graph root (neighbours.foldl (visit here) search)
      ∧ Grows search (neighbours.foldl (visit here) search)
      ∧ ∀ k ∈ neighbours, k ∈ (neighbours.foldl (visit here) search).queue := by
  induction neighbours generalizing search with
  | nil => exact ⟨sound, .refl search, nofun⟩
  | cons k neighbours ih =>
      obtain ⟨sound', grows, isFound⟩ :=
        sound_visit sound isHere (near k (List.mem_cons_self ..))
      obtain ⟨sound'', grows', areFound⟩ := ih sound' (grows.queue.subset isHere)
        (fun k' member => near k' (List.mem_cons_of_mem _ member))
      refine ⟨sound'', grows.trans grows', fun k' member => ?_⟩
      rcases List.mem_cons.mp member with rfl | later
      · exact grows'.queue.subset isFound
      · exact areFound k' later

/-- A round finds nothing but neighbours, by induction on them. -/
theorem mem_visits {search : Search V} {here v : V} (neighbours : List V)
    (member : v ∈ (neighbours.foldl (visit here) search).queue)
    : v ∈ search.queue ∨ v ∈ neighbours := by
  induction neighbours generalizing search with
  | nil => exact .inl member
  | cons k neighbours ih =>
      rcases ih member with before | later
      · rw [visit] at before
        cases isFound : search.upstream k with
        | some _ =>
            rw [isFound] at before
            exact .inl before
        | none =>
            rw [isFound] at before
            refine (List.mem_append.mp before).imp_right fun single => ?_
            exact List.mem_cons.mpr (.inl (List.mem_singleton.mp single))
      · exact .inr (List.mem_cons_of_mem _ later)

-----------------------------------------------------------------------------------------
-- The whole search
-----------------------------------------------------------------------------------------

/-- Nothing but vertices was found, and of those that the loop has gone over, all neighbours. -/
structure Explored (vertices : List V) (neighbours : V → List V) (count : Nat)
    (search : Search V) : Prop where
  inside : ∀ v ∈ search.queue, v ∈ vertices
  neighbours : ∀ v ∈ search.queue.take count, ∀ k ∈ neighbours v, k ∈ search.queue

/-- What is asked of a state of the loop. -/
structure Searching (graph : SimpleGraph V) (root : V) (vertices : List V)
    (neighbours : V → List V) (turn : Nat × Search V) : Prop where
  sound : Sound graph root turn.2
  explored : Explored vertices neighbours turn.1 turn.2

/-- The loop goes over a vertex: its neighbours are found. -/
theorem Searching.next {vertices : List V} {neighbours : V → List V} {count : Nat}
    {search : Search V} {here : V} (explores : Explores graph vertices neighbours)
    (searching : Searching graph root vertices neighbours (count, search))
    (isHere : search.queue[count]? = some here)
    : Searching graph root vertices neighbours
        (count + 1, (neighbours here).foldl (visit here) search) := by
  have isFound : here ∈ search.queue := List.mem_of_getElem? isHere
  have isVertex := searching.explored.inside here isFound
  obtain ⟨sound, grows, areFound⟩ :=
    sound_visits (neighbours here) searching.sound isFound (explores.near here isVertex)
  refine ⟨sound, ?_, ?_⟩
  · intro v member
    rcases mem_visits (neighbours here) member with before | later
    · exact searching.explored.inside v before
    · exact explores.inside here isVertex v later
  · intro v member k isNeighbour
    obtain ⟨more, isMore⟩ := grows.queue
    have inside : count < search.queue.length := (List.getElem?_eq_some_iff.mp isHere).1
    rw [← isMore, List.take_append_of_le_length inside, List.take_add_one, isHere] at member
    rcases List.mem_append.mp member with before | now
    · exact grows.queue.subset (searching.explored.neighbours v before k isNeighbour)
    · obtain rfl : v = here := by simpa using now
      exact areFound k isNeighbour

/-- Every round of the loop keeps what is asked, and there are no more rounds than vertices. -/
theorem Searching.meets {vertices : List V} {neighbours : V → List V} {turn : Nat × Search V}
    (explores : Explores graph vertices neighbours)
    (searching : Searching graph root vertices neighbours turn)
    : (round neighbours turn).Meets (Searching graph root vertices neighbours)
        (fun _ result => Searching graph root vertices neighbours (result.queue.length, result))
        (fun turn => vertices.length - turn.1) turn := by
  obtain ⟨count, search⟩ := turn
  rw [round]
  cases isHere : search.queue[count]? with
  | none =>
      refine .leave ⟨searching.sound, searching.explored.inside, ?_⟩
      have past : search.queue.length ≤ count := List.getElem?_eq_none_iff.mp isHere
      intro v member
      rw [List.take_length, ← List.take_of_length_le past] at member
      exact searching.explored.neighbours v member
  | some here =>
      refine .again (searching.next explores isHere) ?_ (fun _ holds => holds)
      have inside : count < search.queue.length := (List.getElem?_eq_some_iff.mp isHere).1
      have fits : search.queue.length ≤ vertices.length :=
        (searching.sound.nodup.subperm searching.explored.inside).length_le
      dsimp only
      omega

/-- The search comes to an end, and finds for everything that can be reached from the root the
first step of a path to it. Nothing else is found.
-/
theorem search_finds {vertices : List V} {neighbours : V → List V}
    (explores : Explores graph vertices neighbours) (isRoot : root ∈ vertices)
    : ∃ result, run (round neighbours) (vertices.length + 1) (0, start root) = some result
      ∧ result.upstream root = some root
      ∧ (∀ k, graph.Reachable root k →
          ∃ path : graph.Walk k root, path.IsPath
            ∧ (k ≠ root → result.upstream k = some path.snd))
      ∧ (∀ k, ¬ graph.Reachable root k → result.upstream k = none) := by
  have begins : Searching graph root vertices neighbours (0, start root) := by
    refine ⟨sound_start graph root, ?_, nofun⟩
    intro v member
    obtain rfl := List.mem_singleton.mp member
    exact isRoot
  obtain ⟨result, runs, searching⟩ :=
    run_total (fun _ => Searching.meets explores) (vertices.length + 1) _ begins
      (Nat.lt_succ_of_le (Nat.sub_le ..))
  have sound := searching.sound
  have closed : ∀ v ∈ result.queue, ∀ k ∈ neighbours v, k ∈ result.queue := by
    have all := searching.explored.neighbours
    rwa [List.take_length] at all
  refine ⟨result, runs, sound.atRoot, ?_, ?_⟩
  · rintro k ⟨walk⟩
    have isFound : k ∈ result.queue :=
      mem_of_walk explores searching.explored.inside closed walk
        ((sound.found root).mpr (by rw [sound.atRoot]; nofun))
    obtain ⟨path, isPath, -, starts⟩ := sound.leads k isFound
    exact ⟨path, isPath, starts⟩
  · intro k apart
    by_contra isSome
    obtain ⟨path, -⟩ := sound.leads k ((sound.found k).mpr isSome)
    exact apart path.reachable.symm

end Searching

end BreadthFirst
