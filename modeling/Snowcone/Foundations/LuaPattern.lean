/-! Lua patterns that are anchored at the start of the subject, over any alphabet: the
matcher backtracks, and it finds a match exactly if there is one.
-/

namespace LuaPattern

variable {α : Type}

/-- How often a single character class may match: once, `?`, `*` or `+`. -/
inductive Repeat where
  | once
  | optional
  | many
  | plus

/-- The items of a pattern. -/
inductive Item (α : Type) where
  | single (accepts : α → Bool) (times : Repeat)
  | openCapture
  | closeCapture
  | endOfSubject

/-- The items of a literal text. -/
def literal [BEq α] (text : List α) : List (Item α) :=
  text.map (fun c => .single (· == c) .once)

/-- A capture: what it has taken in so far, and whether it is finished. -/
structure Capture (α : Type) where
  text : List α
  finished : Bool

/-- The captures after some characters were matched. -/
def extend (captures : List (Capture α)) (taken : List α) : List (Capture α) :=
  captures.map (fun capture =>
    if capture.finished then capture else { capture with text := capture.text ++ taken })

/-- Finish the capture that was opened last among the unfinished ones. -/
def finishLast : List (Capture α) → List (Capture α)
  | [] => []
  | capture :: rest =>
      if rest.all (·.finished) then { capture with finished := true } :: rest
      else capture :: finishLast rest

/-- `max_expand`: go on behind the longest run first, then behind ever shorter ones. -/
def maxExpand (next : List α → List (Capture α) → Option (List (List α)))
    (subject : List α) (captures : List (Capture α))
    : Nat → Option (List (List α))
  | 0 => next subject captures
  | i + 1 =>
      (next (subject.drop (i + 1)) (extend captures (subject.take (i + 1)))).or
        (maxExpand next subject captures i)

/-- Match the items at the start of the subject; the result are the captures. -/
def matchHere : List (Item α) → List α → List (Capture α) → Option (List (List α))
  | [], _, captures => some (captures.map (·.text))
  | .openCapture :: items, subject, captures =>
      matchHere items subject (captures ++ [{ text := [], finished := false }])
  | .closeCapture :: items, subject, captures => matchHere items subject (finishLast captures)
  | .endOfSubject :: items, subject, captures =>
      match subject with
      | [] => matchHere items [] captures
      | _ => none
  | .single accepts times :: items, subject, captures =>
      let run (subject : List α) := (subject.takeWhile accepts).length
      match times, subject with
      | .many, _ => maxExpand (matchHere items) subject captures (run subject)
      | .optional, [] => matchHere items [] captures
      | _, [] => none
      | .once, c :: subject =>
          if accepts c then matchHere items subject (extend captures [c]) else none
      | .optional, c :: subject =>
          if accepts c then
            (matchHere items subject (extend captures [c])).or
              (matchHere items (c :: subject) captures)
          else matchHere items (c :: subject) captures
      | .plus, c :: subject =>
          if accepts c then
            maxExpand (matchHere items) subject (extend captures [c]) (run subject)
          else none

/-- `string.match` for a pattern that is anchored. -/
def stringMatch (items : List (Item α)) (subject : List α) : Option (List (List α)) :=
  matchHere items subject []

-----------------------------------------------------------------------------------------
-- What a match is
-----------------------------------------------------------------------------------------

/-- The number of characters that a single class may take. -/
def Repeat.Allows : Repeat → Nat → Prop
  | .once, count => count = 1
  | .optional, count => count ≤ 1
  | .many, _ => True
  | .plus, count => 1 ≤ count

/-- A match: the subject is taken apart as the items say, in any way at all. -/
inductive Fits : List (Item α) → List α → List (Capture α) → List (List α) → Prop
  | done {subject captures} : Fits [] subject captures (captures.map (·.text))
  | openCapture {items subject captures result}
    (rest : Fits items subject (captures ++ [{ text := [], finished := false }]) result)
    : Fits (.openCapture :: items) subject captures result
  | closeCapture {items subject captures result}
    (rest : Fits items subject (finishLast captures) result)
    : Fits (.closeCapture :: items) subject captures result
  | endOfSubject {items captures result} (rest : Fits items [] captures result)
    : Fits (.endOfSubject :: items) [] captures result
  | single {accepts times items subject captures result} (taken : List α)
    (accepted : ∀ c ∈ taken, accepts c = true) (allowed : times.Allows taken.length)
    (rest : Fits items subject (extend captures taken) result)
    : Fits (.single accepts times :: items) (taken ++ subject) captures result

/-- Nothing taken extends no capture. -/
@[simp] theorem extend_nil (captures : List (Capture α)) : extend captures [] = captures := by
  simp [extend]

/-- What `max_expand` finds is found behind some run. -/
theorem maxExpand_sound {next : List α → List (Capture α) → Option (List (List α))}
    {subject : List α} {captures : List (Capture α)} {longest : Nat} {result : List (List α)}
    (found : maxExpand next subject captures longest = some result)
    : ∃ count ≤ longest,
      next (subject.drop count) (extend captures (subject.take count)) = some result := by
  induction longest with
  | zero => exact ⟨0, Nat.le_refl 0, by simpa [maxExpand] using found⟩
  | succ longest ih =>
      rcases Option.or_eq_some_iff.mp found with first | ⟨-, later⟩
      · exact ⟨longest + 1, Nat.le_refl _, first⟩
      · obtain ⟨count, within, isFound⟩ := ih later
        exact ⟨count, Nat.le_succ_of_le within, isFound⟩

/-- `max_expand` finds something when something is found behind some run. -/
theorem maxExpand_complete {next : List α → List (Capture α) → Option (List (List α))}
    {subject : List α} {captures : List (Capture α)} {count longest : Nat}
    {result : List (List α)} (within : count ≤ longest)
    (found : next (subject.drop count) (extend captures (subject.take count)) = some result)
    : ∃ result, maxExpand next subject captures longest = some result := by
  induction longest with
  | zero =>
      obtain rfl := Nat.le_zero.mp within
      exact ⟨result, by simpa [maxExpand] using found⟩
  | succ longest ih =>
      rw [maxExpand]
      cases first : next (subject.drop (longest + 1))
          (extend captures (subject.take (longest + 1))) with
      | some other => exact ⟨other, rfl⟩
      | none =>
          rw [Option.none_or]
          refine ih (Nat.le_of_lt_succ (Nat.lt_of_le_of_ne within ?_))
          rintro rfl
          simp [first] at found

/-- A beginning of the longest run is accepted. -/
theorem accepted_of_le_run {accepts : α → Bool} {subject : List α} {count : Nat}
    (within : count ≤ (subject.takeWhile accepts).length)
    : ∀ c ∈ subject.take count, accepts c = true := by
  have isStart : subject.take count = (subject.takeWhile accepts).take count := by
    conv => lhs; rw [← List.takeWhile_append_dropWhile (p := accepts) (l := subject)]
    rw [List.take_append_of_le_length within]
  intro c isIn
  rw [isStart] at isIn
  exact List.all_eq_true.mp List.all_takeWhile c (List.mem_of_mem_take isIn)

/-- Accepted characters at the start belong to the longest run. -/
theorem le_run_of_accepted {accepts : α → Bool} {taken : List α} (subject : List α)
    (accepted : ∀ c ∈ taken, accepts c = true)
    : taken.length ≤ ((taken ++ subject).takeWhile accepts).length := by
  rw [List.takeWhile_append_of_pos accepted, List.length_append]
  exact Nat.le_add_right ..

/-- Two characters one after the other extend the captures like both at once. -/
theorem extend_extend (captures : List (Capture α)) (first second : List α)
    : extend (extend captures first) second = extend captures (first ++ second) := by
  rw [extend, extend, extend, List.map_map]
  refine List.map_congr_left fun capture _ => ?_
  cases finished : capture.finished <;> simp [finished, List.append_assoc]

/-- What the matcher does with a single class: it takes an allowed number of accepted
characters and goes on behind them, by cases on how often the class may match.
-/
theorem taken_of_matchHere {accepts : α → Bool} {times : Repeat} {items : List (Item α)}
    {subject : List α} {captures : List (Capture α)} {result : List (List α)}
    (found : matchHere (.single accepts times :: items) subject captures = some result)
    : ∃ taken rest, subject = taken ++ rest ∧ (∀ c ∈ taken, accepts c = true)
      ∧ times.Allows taken.length
      ∧ matchHere items rest (extend captures taken) = some result := by
  cases times with
  | many =>
      obtain ⟨count, within, isFound⟩ := maxExpand_sound found
      exact ⟨subject.take count, subject.drop count, (List.take_append_drop ..).symm,
        accepted_of_le_run within, trivial, isFound⟩
  | once =>
      cases subject with
      | nil => cases found
      | cons c subject =>
          by_cases accepted : accepts c = true
          · exact ⟨[c], subject, rfl, by simpa using accepted, rfl,
              by simpa [matchHere, accepted] using found⟩
          · simp [matchHere, accepted] at found
  | optional =>
      cases subject with
      | nil => exact ⟨[], [], rfl, by simp, Nat.zero_le 1, by simpa [matchHere] using found⟩
      | cons c subject =>
          by_cases accepted : accepts c = true
          · simp only [matchHere, accepted, if_true] at found
            rcases Option.or_eq_some_iff.mp found with taken | ⟨-, skipped⟩
            · exact ⟨[c], subject, rfl, by simpa using accepted, Nat.le_refl 1, taken⟩
            · exact ⟨[], c :: subject, rfl, by simp, Nat.zero_le 1, by simpa using skipped⟩
          · exact ⟨[], c :: subject, rfl, by simp, Nat.zero_le 1,
              by simpa [matchHere, accepted] using found⟩
  | plus =>
      cases subject with
      | nil => cases found
      | cons c subject =>
          by_cases accepted : accepts c = true
          · simp only [matchHere, accepted, if_true] at found
            obtain ⟨count, within, isFound⟩ := maxExpand_sound found
            refine ⟨c :: subject.take count, subject.drop count, ?_, ?_, ?_, ?_⟩
            · rw [List.cons_append, List.take_append_drop]
            · intro d isIn
              rcases List.mem_cons.mp isIn with rfl | later
              · exact accepted
              · exact accepted_of_le_run within d later
            · exact Nat.le_add_left ..
            · rwa [extend_extend] at isFound
          · simp [matchHere, accepted] at found

/-- A single class that can take some characters and go on behind them leads to a match, by
cases on how often the class may match.
-/
theorem matchHere_of_taken {accepts : α → Bool} {times : Repeat} {items : List (Item α)}
    {taken subject : List α} {captures : List (Capture α)} {result : List (List α)}
    (accepted : ∀ c ∈ taken, accepts c = true) (allowed : times.Allows taken.length)
    (found : matchHere items subject (extend captures taken) = some result)
    : ∃ result,
      matchHere (.single accepts times :: items) (taken ++ subject) captures = some result := by
  cases times with
  | many =>
      have isFound : matchHere items ((taken ++ subject).drop taken.length)
          (extend captures ((taken ++ subject).take taken.length)) = some result := by
        rwa [List.drop_left, List.take_left]
      exact maxExpand_complete (le_run_of_accepted subject accepted) isFound
  | once =>
      obtain ⟨c, rfl⟩ := List.length_eq_one_iff.mp allowed
      exact ⟨result, by simpa [matchHere, accepted c (by simp)] using found⟩
  | optional =>
      cases taken with
      | nil =>
          rw [extend_nil] at found
          cases subject with
          | nil => exact ⟨result, found⟩
          | cons c subject =>
              by_cases isAccepted : accepts c = true
              · cases first : matchHere items subject (extend captures [c]) with
                | some other => exact ⟨other, by simp [matchHere, isAccepted, first]⟩
                | none => exact ⟨result, by simp [matchHere, isAccepted, first, found]⟩
              · exact ⟨result, by simp [matchHere, isAccepted, found]⟩
      | cons c taken =>
          obtain rfl : taken = [] :=
            List.eq_nil_of_length_eq_zero (Nat.le_zero.mp (Nat.le_of_succ_le_succ allowed))
          exact ⟨result, by simp [matchHere, accepted c (by simp), found]⟩
  | plus =>
      cases taken with
      | nil => exact absurd allowed (Nat.not_succ_le_zero 0)
      | cons c taken =>
          have later : ∀ d ∈ taken, accepts d = true := fun d isIn => accepted d (by simp [isIn])
          have isAccepted : accepts c = true := accepted c (by simp)
          simp only [List.cons_append, matchHere, isAccepted, if_true]
          have isFound : matchHere items ((taken ++ subject).drop taken.length)
              (extend (extend captures [c]) ((taken ++ subject).take taken.length))
              = some result := by
            rwa [List.drop_left, List.take_left, extend_extend]
          exact maxExpand_complete (le_run_of_accepted subject later) isFound

/-- Soundness: what the matcher finds is a match, by induction on the items. -/
theorem fits_of_matchHere {items : List (Item α)} {subject : List α}
    {captures : List (Capture α)} {result : List (List α)}
    (found : matchHere items subject captures = some result)
    : Fits items subject captures result := by
  induction items generalizing subject captures with
  | nil =>
      obtain rfl := Option.some.inj found
      exact .done
  | cons item items ih =>
      cases item with
      | openCapture => exact .openCapture (ih found)
      | closeCapture => exact .closeCapture (ih found)
      | endOfSubject =>
          cases subject with
          | nil => exact .endOfSubject (ih found)
          | cons c subject => cases found
      | single accepts times =>
          obtain ⟨taken, rest, rfl, accepted, allowed, isFound⟩ := taken_of_matchHere found
          exact .single taken accepted allowed (ih isFound)

/-- Completeness: where there is a match the matcher finds one, by induction on the match. -/
theorem matchHere_of_fits {items : List (Item α)} {subject : List α}
    {captures : List (Capture α)} {result : List (List α)}
    (fits : Fits items subject captures result)
    : ∃ result, matchHere items subject captures = some result := by
  induction fits with
  | done => exact ⟨_, rfl⟩
  | openCapture _ ih => exact ih
  | closeCapture _ ih => exact ih
  | endOfSubject _ ih => exact ih
  | single taken accepted allowed _ ih =>
      obtain ⟨result, found⟩ := ih
      exact matchHere_of_taken accepted allowed found

/-- If all matches have the same captures, then these are what is found. -/
theorem stringMatch_eq_some {items : List (Item α)} {subject : List α} {result : List (List α)}
    (fits : Fits items subject [] result)
    (unique : ∀ other, Fits items subject [] other → other = result)
    : stringMatch items subject = some result := by
  obtain ⟨other, found⟩ := matchHere_of_fits fits
  rw [stringMatch, found, unique other (fits_of_matchHere found)]

-----------------------------------------------------------------------------------------
-- Taking a match apart
-----------------------------------------------------------------------------------------

section Inversion

variable {items : List (Item α)} {subject : List α} {captures : List (Capture α)}
  {result : List (List α)}

@[simp] theorem fits_nil_iff
    : Fits [] subject captures result ↔ result = captures.map (·.text) := by
  constructor
  · rintro ⟨⟩
    rfl
  · rintro rfl
    exact .done

@[simp] theorem fits_openCapture_iff
    : Fits (.openCapture :: items) subject captures result
      ↔ Fits items subject (captures ++ [{ text := [], finished := false }]) result := by
  constructor
  · rintro ⟨⟩
    assumption
  · exact .openCapture

@[simp] theorem fits_closeCapture_iff
    : Fits (.closeCapture :: items) subject captures result
      ↔ Fits items subject (finishLast captures) result := by
  constructor
  · rintro ⟨⟩
    assumption
  · exact .closeCapture

@[simp] theorem fits_endOfSubject_iff
    : Fits (.endOfSubject :: items) subject captures result
      ↔ subject = [] ∧ Fits items [] captures result := by
  constructor
  · rintro ⟨⟩
    exact ⟨rfl, by assumption⟩
  · rintro ⟨rfl, rest⟩
    exact .endOfSubject rest

theorem fits_single_iff {accepts : α → Bool} {times : Repeat}
    : Fits (.single accepts times :: items) subject captures result
      ↔ ∃ taken rest, subject = taken ++ rest ∧ (∀ c ∈ taken, accepts c = true)
        ∧ times.Allows taken.length ∧ Fits items rest (extend captures taken) result := by
  constructor
  · rintro ⟨⟩
    exact ⟨_, _, rfl, by assumption, by assumption, by assumption⟩
  · rintro ⟨taken, rest, rfl, accepted, allowed, fits⟩
    exact .single taken accepted allowed fits

/-- A literal text matches itself, by induction on the text. -/
theorem fits_literal_iff [BEq α] [LawfulBEq α] {text : List α}
    : Fits (literal text ++ items) subject captures result
      ↔ ∃ rest, subject = text ++ rest ∧ Fits items rest (extend captures text) result := by
  induction text generalizing subject captures with
  | nil => simp [literal]
  | cons c text ih =>
      change Fits (.single (· == c) .once :: (literal text ++ items)) _ _ _ ↔ _
      rw [fits_single_iff]
      constructor
      · rintro ⟨taken, rest, rfl, accepted, allowed, fits⟩
        obtain ⟨d, rfl⟩ := List.length_eq_one_iff.mp allowed
        obtain rfl : d = c := by simpa using accepted
        obtain ⟨later, rfl, laterFits⟩ := ih.mp fits
        exact ⟨later, rfl, by rwa [extend_extend] at laterFits⟩
      · rintro ⟨rest, rfl, fits⟩
        refine ⟨[c], text ++ rest, rfl, by simp, rfl, ih.mpr ⟨rest, rfl, ?_⟩⟩
        rwa [extend_extend]

/-- Finished captures take nothing in. -/
theorem extend_finished (finished : ∀ capture ∈ captures, capture.finished = true)
    (taken : List α)
    : extend captures taken = captures := by
  rw [extend, List.map_congr_left (g := id) (fun capture isIn => by simp [finished capture isIn]),
    List.map_id]

/-- The capture that is open takes in what is matched. -/
theorem extend_open (finished : ∀ capture ∈ captures, capture.finished = true)
    (text taken : List α)
    : extend (captures ++ [{ text, finished := false }]) taken
      = captures ++ [{ text := text ++ taken, finished := false }] := by
  have before := extend_finished finished taken
  rw [extend] at before
  rw [extend, List.map_append, before]
  rfl

/-- The capture that is open is the one that is finished. -/
theorem finishLast_open (captures : List (Capture α)) (text : List α)
    : finishLast (captures ++ [{ text, finished := false }])
      = captures ++ [{ text, finished := true }] := by
  induction captures with
  | nil => rfl
  | cons capture captures ih => simp [finishLast, ih]

/-- A class in a capture, behind captures that are finished. -/
theorem fits_capture_iff {accepts : α → Bool} {times : Repeat}
    (finished : ∀ capture ∈ captures, capture.finished = true)
    : Fits (.openCapture :: .single accepts times :: .closeCapture :: items) subject captures
        result
      ↔ ∃ taken rest, subject = taken ++ rest ∧ (∀ c ∈ taken, accepts c = true)
        ∧ times.Allows taken.length
        ∧ Fits items rest (captures ++ [{ text := taken, finished := true }]) result := by
  simp only [fits_openCapture_iff, fits_single_iff, fits_closeCapture_iff, extend_open finished,
    finishLast_open, List.nil_append]

end Inversion

section LongestRun

variable {accepts : α → Bool} {items : List (Item α)} {taken rest : List α}
  {captures : List (Capture α)} {result : List (List α)}

/-- Where going on behind the longest run succeeds, no shorter one is tried. -/
theorem maxExpand_longest {next : List α → List (Capture α) → Option (List (List α))}
    {subject : List α} {longest : Nat}
    (found : next (subject.drop longest) (extend captures (subject.take longest)) = some result)
    : maxExpand next subject captures longest = some result := by
  cases longest with
  | zero => simpa [maxExpand] using found
  | succ longest => rw [maxExpand, found, Option.some_or]

/-- The longest run ends where a character is not accepted. -/
theorem takeWhile_run (accepted : ∀ c ∈ taken, accepts c = true)
    (stops : ∀ c ∈ rest.head?, accepts c = false)
    : (taken ++ rest).takeWhile accepts = taken := by
  rw [List.takeWhile_append_of_pos accepted]
  cases rest with
  | nil => rw [List.takeWhile_nil, List.append_nil]
  | cons c rest => rw [List.takeWhile_cons_of_neg (by simp [stops c rfl]), List.append_nil]

/-- A class that matches any number of times takes the longest run. -/
theorem matchHere_many_longest (accepted : ∀ c ∈ taken, accepts c = true)
    (stops : ∀ c ∈ rest.head?, accepts c = false)
    (found : matchHere items rest (extend captures taken) = some result)
    : matchHere (.single accepts .many :: items) (taken ++ rest) captures = some result := by
  simp only [matchHere, takeWhile_run accepted stops]
  exact maxExpand_longest (by rwa [List.drop_left, List.take_left])

/-- A class that matches at least once takes the longest run. -/
theorem matchHere_plus_longest (accepted : ∀ c ∈ taken, accepts c = true)
    (nonempty : taken ≠ []) (stops : ∀ c ∈ rest.head?, accepts c = false)
    (found : matchHere items rest (extend captures taken) = some result)
    : matchHere (.single accepts .plus :: items) (taken ++ rest) captures = some result := by
  cases taken with
  | nil => exact absurd rfl nonempty
  | cons c taken =>
      have later : ∀ d ∈ taken, accepts d = true := fun d isIn => accepted d (by simp [isIn])
      simp only [List.cons_append, matchHere, accepted c (by simp), if_true,
        takeWhile_run later stops]
      exact maxExpand_longest (by rwa [List.drop_left, List.take_left, extend_extend])

/-- What `max_expand` finds is behind the longest run behind which anything is found, by
induction on the number of characters that may be taken.
-/
theorem maxExpand_greedy {next : List α → List (Capture α) → Option (List (List α))}
    {subject : List α} {longest : Nat}
    (found : maxExpand next subject captures longest = some result)
    : ∃ count ≤ longest,
      next (subject.drop count) (extend captures (subject.take count)) = some result
        ∧ ∀ more, count < more → more ≤ longest →
          next (subject.drop more) (extend captures (subject.take more)) = none := by
  induction longest with
  | zero =>
      exact ⟨0, Nat.le_refl 0, by simpa [maxExpand] using found,
        fun more larger within => absurd within (Nat.not_le_of_gt larger)⟩
  | succ longest ih =>
      rcases Option.or_eq_some_iff.mp found with first | ⟨nothing, later⟩
      · exact ⟨longest + 1, Nat.le_refl _, first,
          fun more larger within => absurd within (Nat.not_le_of_gt larger)⟩
      · obtain ⟨count, within, isFound, longer⟩ := ih later
        refine ⟨count, Nat.le_succ_of_le within, isFound, fun more larger isWithin => ?_⟩
        rcases Nat.le_or_eq_of_le_succ isWithin with shorter | rfl
        · exact longer more larger shorter
        · exact nothing

/-- A class that matches any number of times takes as much as the rest of the pattern lets it. -/
theorem matchHere_many_greedy {subject : List α}
    (found : matchHere (.single accepts .many :: items) subject captures = some result)
    : ∃ taken rest, subject = taken ++ rest ∧ (∀ c ∈ taken, accepts c = true)
        ∧ matchHere items rest (extend captures taken) = some result
        ∧ ∀ longer rest', subject = longer ++ rest' → (∀ c ∈ longer, accepts c = true) →
          taken.length < longer.length →
          matchHere items rest' (extend captures longer) = none := by
  obtain ⟨count, within, isFound, nothing⟩ := maxExpand_greedy found
  refine ⟨subject.take count, subject.drop count, (List.take_append_drop ..).symm,
    accepted_of_le_run within, isFound, ?_⟩
  rintro longer rest' rfl accepted isLonger
  have runs := le_run_of_accepted rest' accepted
  have inside : count ≤ (longer ++ rest').length :=
    Nat.le_trans within (List.takeWhile_prefix accepts).length_le
  rw [List.length_take_of_le inside] at isLonger
  have none_ := nothing longer.length isLonger runs
  rwa [List.drop_left, List.take_left] at none_

/-- A literal text is taken as it stands, by induction on the text. -/
theorem matchHere_literal [BEq α] [LawfulBEq α] (text : List α)
    : matchHere (literal text ++ items) (text ++ rest) captures
      = matchHere items rest (extend captures text) := by
  induction text generalizing captures with
  | nil => simp [literal]
  | cons c text ih =>
      change matchHere (.single (· == c) .once :: (literal text ++ items)) _ _ = _
      rw [List.cons_append, matchHere, if_pos (beq_self_eq_true c), ih, extend_extend]
      rfl

/-- A class in a capture that matches at least once takes the longest run. -/
theorem matchHere_capture_longest (finished : ∀ capture ∈ captures, capture.finished = true)
    (accepted : ∀ c ∈ taken, accepts c = true) (nonempty : taken ≠ [])
    (stops : ∀ c ∈ rest.head?, accepts c = false)
    (found : matchHere items rest (captures ++ [{ text := taken, finished := true }])
      = some result)
    : matchHere (.openCapture :: .single accepts .plus :: .closeCapture :: items)
        (taken ++ rest) captures
      = some result := by
  rw [matchHere]
  refine matchHere_plus_longest accepted nonempty stops ?_
  rw [extend_open finished, List.nil_append, matchHere, finishLast_open]
  exact found

/-- An optional class takes a character that it accepts. -/
theorem matchHere_optional_taken {c : α} (accepted : accepts c = true)
    (found : matchHere items rest (extend captures [c]) = some result)
    : matchHere (.single accepts .optional :: items) (c :: rest) captures = some result := by
  simp only [matchHere, accepted, if_true, found, Option.some_or]

/-- An optional class takes nothing where there is nothing that it accepts. -/
theorem matchHere_optional_skipped (nothing : ∀ c ∈ rest.head?, accepts c = false)
    : matchHere (.single accepts .optional :: items) rest captures
      = matchHere items rest captures := by
  cases rest with
  | nil => rfl
  | cons c rest => simp only [matchHere, nothing c rfl, Bool.false_eq_true, if_false]

/-- An optional class takes a character if the rest of the pattern lets it. -/
theorem matchHere_optional_greedy {subject : List α}
    (found : matchHere (.single accepts .optional :: items) subject captures = some result)
    : ∃ taken rest, subject = taken ++ rest ∧ (∀ c ∈ taken, accepts c = true)
        ∧ taken.length ≤ 1
        ∧ matchHere items rest (extend captures taken) = some result
        ∧ (taken = [] → ∀ c behind, rest = c :: behind → accepts c = true →
          matchHere items behind (extend captures [c]) = none) := by
  cases subject with
  | nil => exact ⟨[], [], rfl, nofun, Nat.zero_le 1, by simpa [matchHere] using found, nofun⟩
  | cons c subject =>
      by_cases accepted : accepts c = true
      · simp only [matchHere, accepted, if_true] at found
        rcases Option.or_eq_some_iff.mp found with taken | ⟨nothing, skipped⟩
        · exact ⟨[c], subject, rfl, by simpa using accepted, Nat.le_refl 1, taken, nofun⟩
        · refine ⟨[], c :: subject, rfl, nofun, Nat.zero_le 1, by simpa using skipped, ?_⟩
          rintro - _ _ ⟨⟩ -
          exact nothing
      · refine ⟨[], c :: subject, rfl, nofun, Nat.zero_le 1,
          by simpa [matchHere, accepted] using found, ?_⟩
        rintro - _ _ ⟨⟩ isAccepted
        exact absurd isAccepted accepted

/-- A class takes a character that it accepts. -/
theorem matchHere_once {c : α} (accepted : accepts c = true)
    : matchHere (.single accepts .once :: items) (c :: rest) captures
      = matchHere items rest (extend captures [c]) := by
  simp only [matchHere, accepted, if_true]

/-- An optional class in a capture takes a character that it accepts. -/
theorem matchHere_capture_taken {c : α}
    (finished : ∀ capture ∈ captures, capture.finished = true) (accepted : accepts c = true)
    (found : matchHere items rest (captures ++ [{ text := [c], finished := true }])
      = some result)
    : matchHere (.openCapture :: .single accepts .optional :: .closeCapture :: items)
        (c :: rest) captures
      = some result := by
  simp only [matchHere, accepted, if_true, extend_open finished, List.nil_append,
    finishLast_open, found, Option.some_or]

/-- An optional class in a capture takes nothing where there is nothing that it accepts. -/
theorem matchHere_capture_skipped
    (nothing : ∀ c ∈ rest.head?, accepts c = false)
    : matchHere (.openCapture :: .single accepts .optional :: .closeCapture :: items)
        rest captures
      = matchHere items rest (captures ++ [{ text := [], finished := true }]) := by
  cases rest with
  | nil => simp only [matchHere, finishLast_open]
  | cons c rest =>
      have refused : accepts c = false := nothing c rfl
      simp only [matchHere, refused, Bool.false_eq_true, if_false, finishLast_open]

/-- A class in a capture that accepts everything takes the rest of the subject. -/
theorem matchHere_capture_rest (finished : ∀ capture ∈ captures, capture.finished = true)
    (all : ∀ c, accepts c = true)
    : matchHere [.openCapture, .single accepts .many, .closeCapture, .endOfSubject] rest captures
      = some (captures.map (·.text) ++ [rest]) := by
  have behind : matchHere [.closeCapture, .endOfSubject] []
      (extend (captures ++ [{ text := [], finished := false }]) rest)
      = some (captures.map (·.text) ++ [rest]) := by
    simp [matchHere, extend_open finished, finishLast_open]
  have whole := @matchHere_many_longest _ accepts _ rest [] _ _ (fun c _ => all c) nofun behind
  rw [List.append_nil] at whole
  rw [matchHere]
  exact whole

/-- A class in a capture that matches any number of times takes the longest text behind which
the rest of the pattern matches.
-/
theorem matchHere_capture_greedy {subject : List α}
    (finished : ∀ capture ∈ captures, capture.finished = true)
    (found : matchHere (.openCapture :: .single accepts .many :: .closeCapture :: items) subject
      captures = some result)
    : ∃ taken rest, subject = taken ++ rest
        ∧ Fits items rest (captures ++ [{ text := taken, finished := true }]) result
        ∧ ∀ longer rest' other, subject = longer ++ rest' →
          (∀ c ∈ longer, accepts c = true) →
          Fits items rest' (captures ++ [{ text := longer, finished := true }]) other →
          longer.length ≤ taken.length := by
  rw [matchHere] at found
  obtain ⟨taken, rest, same, _, isFound, nothing⟩ := matchHere_many_greedy found
  rw [extend_open finished, List.nil_append, matchHere, finishLast_open] at isFound
  refine ⟨taken, rest, same, fits_of_matchHere isFound, ?_⟩
  intro longer rest' other isSame accepted fits
  refine Nat.le_of_not_lt (fun isLonger => ?_)
  have none_ := nothing longer rest' isSame accepted isLonger
  obtain ⟨result', isFound'⟩ := matchHere_of_fits fits
  rw [extend_open finished, List.nil_append, matchHere, finishLast_open, isFound'] at none_
  cases none_

end LongestRun

-----------------------------------------------------------------------------------------
-- One match after the other
-----------------------------------------------------------------------------------------

/-- A match at the start of the subject: the text that it takes, and its captures, which are
this text where the pattern has none.
-/
def matchWhole (items : List (Item α)) (subject : List α)
    : Option (List α × List (List α)) :=
  match stringMatch (.openCapture :: items ++ [.closeCapture]) subject with
  | some (text :: captures) =>
      some (text, if captures.isEmpty then [text] else captures)
  | _ => none

/-- `gmatch_aux`, called until it finds nothing more: it looks for a match at one character
after the other and goes on where the match ends. An empty match counts only if the match
before did not end there.
-/
def gmatchAux (items : List (Item α)) : Nat → List α → Bool → List (List (List α))
  | 0, _, _ => []
  | _ + 1, [], fresh =>
      match matchWhole items [] with
      | some (_, captures) => if fresh then [captures] else []
      | none => []
  | n + 1, c :: rest, fresh =>
      match matchWhole items (c :: rest) with
      | some (_ :: taken, captures) =>
          captures :: gmatchAux items n (rest.drop taken.length) false
      | some ([], captures) => (if fresh then [captures] else []) ++ gmatchAux items n rest true
      | none => gmatchAux items n rest true

/-- The captures of the matches from a place on, of which every one moves on. -/
def gmatchFrom (items : List (Item α)) (subject : List α) (fresh : Bool)
    : List (List (List α)) :=
  gmatchAux items (subject.length + 1) subject fresh

/-- `string.gmatch`: the captures of all the matches. -/
def gmatch (items : List (Item α)) (subject : List α) : List (List (List α)) :=
  gmatchFrom items subject true

section Gmatch

variable {items : List (Item α)} {subject : List α}

/-- A search that may move on often enough finds all there is, by induction on how often it
may.
-/
theorem gmatchAux_congr {n m : Nat} {fresh : Bool} (enough : subject.length < n)
    (alsoEnough : subject.length < m)
    : gmatchAux items n subject fresh = gmatchAux items m subject fresh := by
  induction n generalizing m subject fresh with
  | zero => exact absurd enough (Nat.not_lt_zero _)
  | succ n ih =>
      cases m with
      | zero => exact absurd alsoEnough (Nat.not_lt_zero _)
      | succ m =>
          cases subject with
          | nil => rfl
          | cons c rest =>
              have short : rest.length < n := Nat.lt_of_succ_lt_succ enough
              have alsoShort : rest.length < m := Nat.lt_of_succ_lt_succ alsoEnough
              rw [gmatchAux, gmatchAux]
              rcases matchWhole items (c :: rest) with _ | ⟨_ | ⟨d, taken⟩, captures⟩
              · exact ih short alsoShort
              · exact congrArg _ (ih short alsoShort)
              · have shorter : (rest.drop taken.length).length ≤ rest.length := by
                  rw [List.length_drop]
                  exact Nat.sub_le ..
                exact congrArg _
                  (ih (Nat.lt_of_le_of_lt shorter short) (Nat.lt_of_le_of_lt shorter alsoShort))

/-- Where nothing matches at the end of the subject, the search ends. -/
theorem gmatchFrom_nil {fresh : Bool} (nothing : matchWhole items [] = none)
    : gmatchFrom items [] fresh = [] := by
  rw [gmatchFrom, gmatchAux, nothing]

/-- Where nothing matches, the search goes on at the next character. -/
theorem gmatchFrom_skip {c : α} {fresh : Bool} (nothing : matchWhole items (c :: subject) = none)
    : gmatchFrom items (c :: subject) fresh = gmatchFrom items subject true := by
  rw [gmatchFrom, gmatchAux, nothing]
  rfl

/-- Behind a match that is not empty, the search goes on where it ends. -/
theorem gmatchFrom_take {taken : List α} {captures : List (List α)} {fresh : Bool}
    (nonempty : taken ≠ [])
    (found : matchWhole items (taken ++ subject) = some (taken, captures))
    : gmatchFrom items (taken ++ subject) fresh = captures :: gmatchFrom items subject false := by
  cases taken with
  | nil => exact absurd rfl nonempty
  | cons c taken =>
      rw [List.cons_append] at found ⊢
      rw [gmatchFrom, gmatchAux, found]
      simp only [List.drop_left]
      refine congrArg _ (gmatchAux_congr ?_ (Nat.lt_succ_self _))
      rw [List.length_cons, List.length_append]
      omega

/-- The matches of a class that is captured, behind which another class may follow: a word
is taken whole, with all that the other class takes behind it.
-/
theorem matchWhole_word {inWord behind : α → Bool} {word more rest : List α}
    (accepted : ∀ c ∈ word, inWord c = true) (nonempty : word ≠ [])
    (ends : ∀ c ∈ (more ++ rest).head?, inWord c = false)
    (alsoAccepted : ∀ c ∈ more, behind c = true) (stops : ∀ c ∈ rest.head?, behind c = false)
    : matchWhole [.openCapture, .single inWord .plus, .closeCapture, .single behind .many]
        (word ++ more ++ rest)
      = some (word ++ more, [word]) := by
  have found : stringMatch (.openCapture :: [.openCapture, .single inWord .plus, .closeCapture,
      .single behind .many] ++ [.closeCapture]) (word ++ more ++ rest)
      = some [word ++ more, word] := by
    rw [List.append_assoc]
    refine matchHere_plus_longest accepted nonempty ends ?_
    exact matchHere_many_longest alsoAccepted stops rfl
  rw [matchWhole, found]
  rfl

/-- No match begins where the class that is captured accepts nothing. -/
theorem matchWhole_word_none {inWord behind : α → Bool}
    (rejected : ∀ c ∈ subject.head?, inWord c = false)
    : matchWhole [.openCapture, .single inWord .plus, .closeCapture, .single behind .many]
        subject
      = none := by
  have nothing : stringMatch (.openCapture :: [.openCapture, .single inWord .plus,
      .closeCapture, .single behind .many] ++ [.closeCapture]) subject = none := by
    cases subject with
    | nil => rfl
    | cons c rest => simp [stringMatch, matchHere, rejected c rfl]
  rw [matchWhole, nothing]

end Gmatch

end LuaPattern
