import Snowcone.Components.LiveWindow

/-! A window that is scrolled: whether it stays in place while entries come in. -/

namespace Snowcone.Components.RotatingWindow

open Function

variable {K V : Type} [DecidableEq K]

deriving instance DecidableEq for Entry

/-- How many of some values a predicate accepts. -/
def accepted (predicate : Option (V → Bool)) (values : List (Option K × V)) : Nat :=
  (values.filter (fun value => accepts predicate value.2)).length

/-- How many of some values a predicate rejects. -/
def rejected (predicate : Option (V → Bool)) (values : List (Option K × V)) : Nat :=
  (values.filter (fun value => !accepts predicate value.2)).length

/-- The window after some insertions is the one before them. -/
def StaysInPlace (source : Source K V) (scroll : Nat) (rows : Int) (predicate : Option (V → Bool))
    (values : List (Option K × V)) : Prop :=
  let after := (source.drawn scroll predicate).inserts values
  (rotatingWindow scroll after.map after.pin rows predicate).map Prod.fst
    = (rotatingWindow scroll source.map source.pin rows predicate).map Prod.fst

section Insertions

variable {predicate : Option (V → Bool)}

/-- What insertions make of a source. -/
structure Grown (source after : Source K V) (values : List (Option K × V)) (new : List (Entry K V))
    : Prop where
  entries : after.history.entries = (new ++ source.history.entries).take source.map.max
  length : new.length = values.length
  later : ∀ entry ∈ new, source.history.inserted ≤ entry.id ∧ entry.id < after.history.inserted
  distinct : (new.map Entry.id).Nodup
  pin : after.pin = source.pin
  max : after.map.max = source.map.max
  ticker : after.map.ticker + rejected source.map.predicate values
    = source.map.ticker + values.length

omit [DecidableEq K] in
/-- A ring holds no more than its capacity. -/
theorem Source.length_le (source : Source K V)
    : source.history.entries.length ≤ source.map.max := by
  rw [source.represents.length]
  exact Nat.min_le_right _ _

/-- New entries come in front and push the oldest out. By induction from the last insertion. -/
theorem Source.exists_grown (source : Source K V) (values : List (Option K × V))
    : ∃ new, Grown source (source.inserts values) values new := by
  induction values using List.reverseRecOn with
  | nil =>
      refine ⟨[], {
        entries := ?_, length := rfl, later := nofun, distinct := .nil, pin := rfl, max := rfl
        ticker := rfl }⟩
      rw [List.nil_append, List.take_of_length_le source.length_le]
      rfl
  | append_singleton values value ih =>
      obtain ⟨new, grown⟩ := ih
      obtain ⟨inserted, kept⟩ := source.inserts_fields values
      have ticker := (insert_ticker (source.inserts values).map value.1 value.2).1
      have max := ((source.inserts values).map.insert_inserted value.1 value.2).max
      rw [source.inserts_concat]
      refine ⟨⟨(source.inserts values).history.inserted, value.1, value.2⟩ :: new, {
        entries := ?_, length := ?_, later := ?_, distinct := ?_, pin := grown.pin
        max := max.trans grown.max, ticker := ?_ }⟩
      · have positive := source.positive
        obtain ⟨less, isMax⟩ : ∃ less, source.map.max = less + 1 :=
          ⟨source.map.max - 1, by omega⟩
        rw [Source.insert_entries, grown.max, grown.entries, isMax, List.cons_append,
          List.take_succ_cons, List.take_take]
        congr 2
        omega
      · rw [List.length_cons, List.length_append, grown.length]
        rfl
      · refine List.forall_mem_cons.mpr ⟨⟨?_, Nat.lt_succ_self _⟩, fun entry member => ?_⟩
        · rw [inserted]
          exact Nat.le_add_right _ _
        · obtain ⟨low, high⟩ := grown.later entry member
          exact ⟨low, Nat.lt_succ_of_lt high⟩
      · refine List.nodup_cons.mpr ⟨fun member => ?_, grown.distinct⟩
        obtain ⟨entry, isNew, same⟩ := List.mem_map.mp member
        exact absurd same (Nat.ne_of_lt (grown.later entry isNew).2)
      · have before := grown.ticker
        rw [kept] at ticker
        have one : rejected source.map.predicate (values ++ [value])
            = rejected source.map.predicate values
              + if accepts source.map.predicate value.2 then 0 else 1 := by
          rw [rejected, List.filter_append, List.length_append, rejected]
          by_cases isShown : accepts source.map.predicate value.2 = true <;> simp [isShown]
        change ((source.inserts values).map.insert value.1 value.2).ticker + _ = _
        rw [ticker, one, List.length_append, List.length_singleton]
        split <;> omega

omit [DecidableEq K] in
/-- No entry comes twice. -/
theorem Grown.nodup {source after : Source K V} {values : List (Option K × V)}
    {new : List (Entry K V)} (grown : Grown source after values new)
    : (new ++ source.history.entries).Nodup := by
  refine List.Nodup.append grown.distinct.of_map source.nodup_id.of_map fun entry isNew isOld => ?_
  have low := (grown.later entry isNew).1
  have high := source.id_lt isOld
  omega

end Insertions

-----------------------------------------------------------------------------------------
-- What is skipped
-----------------------------------------------------------------------------------------

section Skipping

variable {α : Type} {new old : List α} {capacity offset offset' behind : Nat} {p : α → Bool}

/-- The beginning of two lists is one of the first if it has nothing of the second. -/
theorem take_append_of_disjoint {first second : List α} {count : Nat}
    (apart : ∀ a ∈ (first ++ second).take count, a ∉ second)
    : (first ++ second).take count = first.take count := by
  rw [List.take_append] at apart ⊢
  cases isRest : second.take (count - first.length) with
  | nil => rw [List.append_nil]
  | cons a rest =>
      have member : a ∈ second.take (count - first.length) := isRest ▸ List.mem_cons_self
      exact (apart a (List.mem_append_right _ member) (List.mem_of_mem_take member)).elim

/-- Behind new entries, and with more of the newest skipped, there is what was behind the ones
skipped before, except for the oldest, and as many others above it as were not skipped.
-/
theorem drop_take_append (counts : offset' + behind = new.length + offset)
    : ((new ++ old).take capacity).drop offset'
      = (((new ++ old).take capacity).drop offset').take behind
        ++ (old.drop offset).take (capacity - (new.length + offset)) := by
  conv => lhs; rw [← List.take_append_drop behind (((new ++ old).take capacity).drop offset')]
  congr 1
  rw [List.drop_drop, counts, List.drop_take, List.drop_length_add_append]

/-- If none of the others is accepted, the same is shown, as long as all of it is there. -/
theorem shown_same (counts : offset' + behind = new.length + offset) (distinct : (new ++ old).Nodup)
    {count : Nat}
    (stays : ∀ a ∈ ((old.drop offset).filter p).take count, a ∈ (new ++ old).take capacity)
    (clear : ∀ a ∈ (((new ++ old).take capacity).drop offset').take behind, p a = false)
    : ((((new ++ old).take capacity).drop offset').filter p).take count
      = ((old.drop offset).filter p).take count := by
  have nothing : ((((new ++ old).take capacity).drop offset').take behind).filter p = [] :=
    List.filter_eq_nil_iff.mpr fun a member => Bool.eq_false_iff.mp (clear a member)
  rw [drop_take_append counts, List.filter_append, nothing, List.nil_append]
  have parts := List.take_append_drop (capacity - (new.length + offset)) (old.drop offset)
  conv => rhs; rw [← parts, List.filter_append]
  rw [← parts, List.filter_append] at stays
  refine (take_append_of_disjoint fun a member isLater => ?_).symm
  have gone : a ∈ (new ++ old).drop (new.length + offset
      + (capacity - (new.length + offset))) := by
    rw [← List.drop_drop, List.drop_length_add_append]
    exact List.mem_of_mem_filter isLater
  exact List.disjoint_take_drop distinct (by omega) (stays a member) gone

/-- If one of the others is accepted, the first that is shown was not there to be shown. -/
theorem shown_differs (counts : offset' + behind = new.length + offset)
    (distinct : (new ++ old).Nodup) {count : Nat} (some : 0 < count) {a : α}
    (isBetween : a ∈ (((new ++ old).take capacity).drop offset').take behind)
    (isAccepted : p a = true)
    : ∃ first, (((((new ++ old).take capacity).drop offset').filter p).take count).head?
        = Option.some first
      ∧ first ∈ (new ++ old).take capacity ∧ first ∉ old.drop offset := by
  have isShown : a ∈ ((((new ++ old).take capacity).drop offset').take behind).filter p :=
    List.mem_filter.mpr ⟨isBetween, isAccepted⟩
  obtain ⟨first, others, isFirst⟩ := List.exists_cons_of_ne_nil (List.ne_nil_of_mem isShown)
  have member : first ∈ (((new ++ old).take capacity).drop offset').take behind :=
    List.mem_of_mem_filter (isFirst ▸ List.mem_cons_self)
  refine ⟨first, ?_, List.mem_of_mem_drop (List.mem_of_mem_take member), fun isOld => ?_⟩
  · rw [drop_take_append counts, List.filter_append, isFirst, List.head?_take,
      if_neg (Nat.ne_of_gt some)]
    rfl
  · have before : first ∈ (new ++ old).take (new.length + offset) := by
      rw [List.take_drop, counts, List.take_take, Nat.min_comm, ← List.take_take] at member
      exact List.mem_of_mem_take (List.mem_of_mem_drop member)
    have after : first ∈ (new ++ old).drop (new.length + offset) := by
      rwa [List.drop_length_add_append]
    exact List.disjoint_take_drop distinct (Nat.le_refl _) before after

end Skipping

-----------------------------------------------------------------------------------------
-- Staying in place
-----------------------------------------------------------------------------------------

section Staying

variable {source : Source K V} {scroll : Nat} {rows : Int} {predicate : Option (V → Bool)}
  {values : List (Option K × V)}

/-- Of the entries that stand directly above the window, as many as there were insertions that the
predicate rejects: it rejects all of them. Above these are the other insertions, and as many entries
as were above the window before: those scrolled past, and those that came since it was pinned.
-/
def ClearAbove (source : Source K V) (scroll : Nat) (predicate : Option (V → Bool))
    (values : List (Option K × V)) : Prop :=
  let above := scroll + source.map.ticker - source.pin.getD source.map.ticker
  let after := ((source.drawn scroll predicate).inserts values).history.entries
  ∀ entry ∈ (after.drop (accepted predicate values + above)).take (rejected predicate values),
    accepts predicate entry.val = false

/-- What is skipped after some insertions: an entry more for each of them that is accepted. -/
theorem offset_inserts (scrolled : 0 < scroll)
    : ((source.drawn scroll predicate).inserts values).offset scroll + rejected predicate values
      = values.length + source.offset scroll := by
  obtain ⟨new, grown⟩ := (source.drawn scroll predicate).exists_grown values
  have pin : ((source.drawn scroll predicate).inserts values).pin
      = some (source.pin.getD source.map.ticker) := grown.pin.trans (if_pos scrolled)
  have low : source.pin.getD source.map.ticker ≤ source.map.ticker := by
    cases isPin : source.pin with
    | none => exact Nat.le_refl _
    | some pin => exact source.pinned pin isPin
  have ticker : _ + rejected predicate values = source.map.ticker + values.length := grown.ticker
  have most : rejected predicate values ≤ values.length := List.length_filter_le _ _
  rw [Source.offset, Source.offset, if_pos scrolled, if_pos scrolled, pin, Option.getD_some]
  omega

omit [DecidableEq K] in
/-- A value is accepted or rejected. -/
theorem accepted_add_rejected (predicate : Option (V → Bool)) (values : List (Option K × V))
    : accepted predicate values + rejected predicate values = values.length :=
  (List.length_eq_length_filter_add _).symm

/-- The entries above the window are the last of those that it skips after the insertions. -/
theorem clearAbove_iff (scrolled : 0 < scroll)
    : ClearAbove source scroll predicate values
      ↔ ∀ entry ∈ (((source.drawn scroll predicate).inserts values).history.entries.drop
            (((source.drawn scroll predicate).inserts values).offset scroll)).take
              (rejected predicate values),
          accepts predicate entry.val = false := by
  have counts := @offset_inserts _ _ _ source scroll predicate values scrolled
  have above : source.offset scroll
      = scroll + source.map.ticker - source.pin.getD source.map.ticker :=
    if_pos scrolled
  rw [← accepted_add_rejected predicate values, above] at counts
  have skipped : ((source.drawn scroll predicate).inserts values).offset scroll
      = accepted predicate values
        + (scroll + source.map.ticker - source.pin.getD source.map.ticker) := by
    omega
  rw [ClearAbove, skipped]

/-- Windows of at most one row are always the same. -/
theorem staysInPlace_of_few (few : rows ≤ 1) (scrolled : 0 < scroll)
    : StaysInPlace source scroll rows predicate values := by
  rw [StaysInPlace]
  by_cases hasRows : 0 < rows
  · have nothing (source : Source K V) : source.shown scroll rows predicate = [] := by
      rw [Source.shown, shown, show (rows - 1).toNat = 0 by omega, List.take_zero]
    rw [Source.rotatingWindow_eq _ _ _ hasRows, Source.rotatingWindow_eq _ _ _ hasRows, nothing,
      nothing, if_pos scrolled, if_pos scrolled]
    rfl
  · have none' : rows ≤ 0 := by omega
    simp only [rotatingWindow, if_pos none']
    rfl

/-- Windows of more rows are the same if and only if they show the same values. -/
theorem staysInPlace_iff_shown (hasRows : 0 < rows) (scrolled : 0 < scroll)
    : StaysInPlace source scroll rows predicate values
      ↔ (((source.drawn scroll predicate).inserts values).shown scroll rows predicate).map Entry.val
        = (source.shown scroll rows predicate).map Entry.val := by
  rw [StaysInPlace, Source.rotatingWindow_eq _ _ _ hasRows, Source.rotatingWindow_eq _ _ _ hasRows,
    if_pos scrolled, if_pos scrolled, Option.map_some, Option.map_some, Option.some.injEq]
  constructor
  · exact layout_injective (Source.length_shown _ _ _ hasRows) (Source.length_shown _ _ _ hasRows)
  · exact fun same => congrArg (layout (rows - 1) rows) same

/-- A scrolled window stays in place while entries come in, as long as nothing that it shows is
evicted: if it has one row at most, or the entries directly above it, as many as were rejected,
are rejected too. Where every value is a table of its own, it stays in place only then.
-/
theorem scrolled_window_stays (source : Source K V) (scroll : Nat) (scrolled : 0 < scroll)
    (rows : Int) (predicate : Option (V → Bool)) (values : List (Option K × V))
    (notEvicted : ∀ entry ∈ source.shown scroll rows predicate,
      entry ∈ ((source.drawn scroll predicate).inserts values).history.entries)
    : (rows ≤ 1 ∨ ClearAbove source scroll predicate values
        → StaysInPlace source scroll rows predicate values)
      ∧ ((((source.drawn scroll predicate).inserts values).history.entries.map Entry.val).Nodup
        → StaysInPlace source scroll rows predicate values
        → rows ≤ 1 ∨ ClearAbove source scroll predicate values) := by
  obtain ⟨new, grown⟩ := (source.drawn scroll predicate).exists_grown values
  have counts := @offset_inserts _ _ _ source scroll predicate values scrolled
  rw [← grown.length] at counts
  rw [clearAbove_iff scrolled]
  have entries : ((source.drawn scroll predicate).inserts values).history.entries
      = (new ++ source.history.entries).take source.map.max := grown.entries
  rw [entries] at notEvicted
  constructor
  · rintro (few | clear)
    · exact staysInPlace_of_few few scrolled
    · by_cases hasRows : 0 < rows
      · rw [staysInPlace_iff_shown hasRows scrolled, Source.shown, entries]
        refine congrArg _ (shown_same counts grown.nodup notEvicted fun entry member => ?_)
        refine clear entry ?_
        rw [entries]
        exact member
      · exact staysInPlace_of_few (by omega) scrolled
  · intro distinct stays
    by_cases few : rows ≤ 1
    · exact .inl few
    · refine .inr fun entry member => ?_
      rw [entries] at member distinct
      by_contra notRejected
      have isAccepted : accepts predicate entry.val = true := by simpa using notRejected
      have someRow : 0 < (rows - 1).toNat := by omega
      have nodup : (new ++ source.history.entries).Nodup := grown.nodup
      obtain ⟨first, isFirst, isThere, notBefore⟩ :=
        @shown_differs _ _ _ _ _ _ _ (fun entry => accepts predicate entry.val) counts nodup
          _ someRow _ member isAccepted
      have same := (staysInPlace_iff_shown (by omega) scrolled).mp stays
      rw [Source.shown, entries] at same
      have heads := congrArg List.head? same
      rw [List.head?_map, List.head?_map, shown, isFirst, Option.map_some] at heads
      obtain ⟨other, isOther, sameVal⟩ := Option.map_eq_some_iff.mp heads.symm
      have wasShown := List.mem_of_head? isOther
      obtain rfl := List.inj_on_of_nodup_map distinct (notEvicted other wasShown) isThere sameVal
      exact notBefore (List.mem_of_mem_filter (List.mem_of_mem_take wasShown))

/-- Witness: of two entries that come in, one is rejected, and so is the one above the window. -/
theorem scrolled_window_stays_witness
    : let source := (Source.new 9 (by decide) none : Source Nat Nat).inserts
        [(none, 10), (none, 12), (none, 13)]
      let predicate : Option (Nat → Bool) := some (fun val => val % 2 == 0)
      ClearAbove source 1 predicate [(none, 14), (none, 15)]
        ∧ StaysInPlace source 1 3 predicate [(none, 14), (none, 15)] := by
  have clear : ClearAbove
      ((Source.new 9 (by decide) none : Source Nat Nat).inserts
        [(none, 10), (none, 12), (none, 13)])
      1 (some (fun val => val % 2 == 0)) [(none, 14), (none, 15)] := by
    unfold ClearAbove
    decide
  exact ⟨clear, (scrolled_window_stays _ 1 Nat.zero_lt_one 3 _ _ (by decide)).1 (.inr clear)⟩

/-- Counterexample: an entry comes in that is not shown, and the window moves by one. -/
theorem scrolled_window_counterexample
    : let source := (Source.new 9 (by decide) none : Source Nat Nat).inserts
        [(none, 10), (none, 12), (none, 14)]
      let predicate : Option (Nat → Bool) := some (fun val => val % 2 == 0)
      (∀ entry ∈ source.shown 1 3 predicate,
          entry ∈ ((source.drawn 1 predicate).inserts [(none, 15)]).history.entries)
        ∧ ¬StaysInPlace source 1 3 predicate [(none, 15)] := by
  refine ⟨by decide, fun stays => ?_⟩
  have same := (staysInPlace_iff_shown (by decide) Nat.zero_lt_one).mp stays
  exact absurd same (by decide)

end Staying

end Snowcone.Components.RotatingWindow
