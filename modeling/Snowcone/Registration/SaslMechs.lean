import Snowcone.Foundations.LuaPatternText
import Snowcone.Membership.StatusPrefixes

/-! Which SASL mechanisms a server is taken to support, from its capabilities and numerics, and
which credentials are tried.
-/

namespace Snowcone.Registration

open Bytes LuaPattern
open Sending (TokenValue)
open Snowcone.Membership (Spaced)

/-- A credential; what else it has is for the mechanism. -/
structure Credential where
  mechanism : Bytes
  details : Bytes

/-- The fields of `irc_state` about capabilities and SASL. A `Set` is known by its elements. -/
structure Capabilities where
  capsAvailable : Bytes → Option TokenValue
  capsEnabled : Bytes → Bool
  saslMechs : Option (List Bytes)
  saslCredentials : Option (List Credential)

/-- `M:_init`. -/
def Capabilities.new : Capabilities :=
  {
    capsAvailable := fun _ => none
    capsEnabled := fun _ => false
    saslMechs := none
    saslCredentials := none
  }

/-- `Irc:set_sasl_mechs(list)`, for what `split(',')` does. -/
def setSaslMechs (split : Bytes → List Bytes) (list : Option Bytes) (irc : Capabilities)
    : Capabilities :=
  { irc with saslMechs := list.map split }

/-- `Irc:has_sasl_mech(mech)`. -/
def hasSaslMech (irc : Capabilities) (mech : Bytes) : Bool :=
  match irc.saslMechs with
  | none => true
  | some mechs => decide (mech ∈ mechs)

/-- The pattern `([^ =]+)(=?)([^ ]*)`. -/
def capPattern : List (Item Byte) :=
  [
    .openCapture, .single (fun c => c != chr ' ' && c != chr '=') .plus, .closeCapture,
    .openCapture, .single (· == chr '=') .optional, .closeCapture,
    .openCapture, .single (· != chr ' ') .many, .closeCapture
  ]

/-- The body of the loop of `add_caps`; with the state goes the table of new capabilities. -/
def addCap (split : Bytes → List Bytes)
    : Capabilities × (Bytes → Option TokenValue) → List Bytes
      → Capabilities × (Bytes → Option TokenValue)
  | (irc, caps), [cap, eq, arg] =>
      let capValue := if eq = lit "=" then .text arg else .flag
      let irc := {
        irc with capsAvailable := Function.update irc.capsAvailable cap (some capValue) }
      let caps := Function.update caps cap (some capValue)
      (if lit "sasl" = cap then setSaslMechs split (some arg) irc else irc, caps)
  | acc, _ => acc

/-- `Irc:add_caps(capsarg)`. -/
def addCaps (split : Bytes → List Bytes) (capsarg : Bytes) (irc : Capabilities)
    : Capabilities × (Bytes → Option TokenValue) :=
  (gmatch capPattern capsarg).foldl (addCap split) (irc, fun _ => none)

/-- The body of the loop of `del_caps`. -/
def delCap (split : Bytes → List Bytes) (irc : Capabilities) (cap : Bytes) : Capabilities :=
  let irc := {
    irc with
    capsAvailable := Function.update irc.capsAvailable cap none
    capsEnabled := Function.update irc.capsEnabled cap false }
  if lit "sasl" = cap then setSaslMechs split none irc else irc

/-- The pattern `[^ ]+`. -/
def wordPattern : List (Item Byte) := [.single (· != chr ' ') .plus]

/-- `Irc:del_caps(capsarg)`; nobody uses the table that it returns. -/
def delCaps (split : Bytes → List Bytes) (capsarg : Bytes) (irc : Capabilities) : Capabilities :=
  (gmatch wordPattern capsarg).flatten.foldl (delCap split) irc

/-- The loop over the credentials of `M.REQ`: an authentication succeeds or not, and while it
goes on the state may change in any way. The result are the credentials that were tried.
-/
def credentialRounds (sasl : Credential → Capabilities → Bool × Capabilities)
    : List Credential → Capabilities → List Credential × Capabilities
  | [], irc => ([], irc)
  | credential :: rest, irc =>
      if hasSaslMech irc credential.mechanism then
        match sasl credential irc with
        | (true, irc) => ([credential], irc)
        | (false, irc) =>
            let (tried, irc) := credentialRounds sasl rest irc
            (credential :: tried, irc)
      else credentialRounds sasl rest irc

/-- What `M.REQ` does when its request is answered. -/
def authenticate (sasl : Credential → Capabilities → Bool × Capabilities) (irc : Capabilities)
    : List Credential × Capabilities :=
  match irc.saslCredentials with
  | some credentials =>
      if irc.capsEnabled (lit "sasl") then
        credentialRounds sasl credentials { irc with saslCredentials := none }
      else ([], irc)
  | none => ([], irc)

-----------------------------------------------------------------------------------------
-- What a server says
-----------------------------------------------------------------------------------------

/-- What happens: the parameter strings of `CAP LS`, `CAP NEW` and `CAP DEL`, the numeric with
the mechanisms, and in between other changes of what is enabled and of the credentials.
-/
inductive Event where
  | ls (capsarg : Bytes)
  | new (capsarg : Bytes)
  | del (capsarg : Bytes)
  | saslmechs (list : Option Bytes)
  | between (capsEnabled : Bytes → Bool) (saslCredentials : Option (List Credential))

/-- What an event does. -/
def step (split : Bytes → List Bytes) (irc : Capabilities) : Event → Capabilities
  | .ls capsarg => (addCaps split capsarg irc).1
  | .new capsarg => (addCaps split capsarg irc).1
  | .del capsarg => delCaps split capsarg irc
  | .saslmechs list => setSaslMechs split list irc
  | .between capsEnabled saslCredentials => { irc with capsEnabled, saslCredentials }

/-- What is known about `sasl`: nothing, that it is there, or a list of mechanisms. -/
inductive Info where
  | unknown
  | plain
  | list (mechs : Bytes)
  deriving DecidableEq

/-- The words of a parameter string. -/
def wordsOf (capsarg : Bytes) : List Bytes := (capsarg.splitOn (chr ' ')).filter (· ≠ [])

/-- The name and the value of a capability; equals signs in front of a name are no part of it. -/
def capOf (word : Bytes) : Option (Bytes × Option Bytes) :=
  let named := dropLeading (chr '=') word
  if named = [] then none
  else
    match onwards (chr '=') named with
    | [] => some (named, none)
    | _ :: value => some (before (chr '=') named, some value)

/-- What is known behind a capability that is there. -/
def Info.afterCap (info : Info) (word : Bytes) : Info :=
  match capOf word with
  | some (name, value) => if name = lit "sasl" then value.elim plain list else info
  | none => info

/-- What is known behind an event. -/
def Info.after (info : Info) : Event → Info
  | .ls capsarg => (wordsOf capsarg).foldl Info.afterCap info
  | .new capsarg => (wordsOf capsarg).foldl Info.afterCap info
  | .del capsarg => if lit "sasl" ∈ wordsOf capsarg then unknown else info
  | .saslmechs mechs => mechs.elim unknown list
  | .between _ _ => info

/-- The latest information about `sasl`. -/
def latest (events : List Event) : Info := events.foldl Info.after .unknown

/-- A name of a mechanism. Names of methods, which a `Set` has too, have lowercase letters. -/
structure IsMechanism (mech : Bytes) : Prop where
  notEmpty : mech ≠ []
  chars : ∀ c ∈ mech, between (chr 'A') (chr 'Z') c ∨ isDigitChar c ∨ c = chr '-' ∨ c = chr '_'

/-- The client goes by the information: the mechanisms of a list are those that are supported,
and without a list all are, so that the first credential is tried.
-/
structure GoesBy (irc : Capabilities) (info : Info) : Prop where
  listed : ∀ mechs, info = .list mechs →
    ∀ mech, IsMechanism mech → (hasSaslMech irc mech ↔ mech ∈ mechs.splitOn (chr ','))
  unlisted : (∀ mechs, info ≠ .list mechs) → ∀ mech, IsMechanism mech → hasSaslMech irc mech
  tries : (∀ mechs, info ≠ .list mechs) → irc.capsEnabled (lit "sasl") →
    ∀ sasl credential rest, IsMechanism credential.mechanism →
      irc.saslCredentials = some (credential :: rest) →
      (authenticate sasl irc).1.head? = some credential

/-- `split(',')` has those elements, empty ones apart, that are between the commas. -/
def SplitsAtCommas (split : Bytes → List Bytes) : Prop :=
  ∀ text field, field ≠ [] → (field ∈ split text ↔ field ∈ text.splitOn (chr ','))

-----------------------------------------------------------------------------------------
-- Words
-----------------------------------------------------------------------------------------

/-- A word of a parameter string. -/
structure IsWord (word : Bytes) : Prop where
  notEmpty : word ≠ []
  noSpace : chr ' ' ∉ word

/-- The words of a parameter string are not empty and have no spaces. -/
theorem isWord_of_mem {capsarg word : Bytes} (isIn : word ∈ wordsOf capsarg) : IsWord word := by
  obtain ⟨isIn, notEmpty⟩ := List.mem_filter.mp isIn
  exact ⟨by simpa using notEmpty, (of_mem_splitOn isIn).1⟩

/-- A parameter string is its words with spaces between them, by induction on its length. -/
theorem spaced_wordsOf (capsarg : Bytes) : Spaced capsarg (wordsOf capsarg) := by
  induction size : capsarg.length using Nat.strong_induction_on generalizing capsarg with
  | _ size ih =>
      rcases onwards_cases (chr ' ') capsarg with ⟨_, absent⟩ | ⟨tail, _, split⟩
      · rw [wordsOf, List.splitOn_eq_singleton absent]
        by_cases empty : capsarg = []
        · rw [empty]
          exact .nil
        · have single : Spaced (capsarg ++ []) [capsarg] := .word nofun .nil
          simpa [empty] using single
      · have absent := not_mem_before (chr ' ') capsarg
        have shorter := congrArg List.length split
        rw [List.length_append, List.length_cons] at shorter
        have later := ih tail.length (by omega) tail rfl
        rw [split, wordsOf, List.splitOn_append_cons_self_of_not_mem absent, List.filter_cons]
        by_cases empty : before (chr ' ') capsarg = []
        · rw [if_neg (by simp [empty]), empty]
          exact .space later
        · rw [if_pos (by simp [empty])]
          exact .word (by simp) (.space later)

/-- What is captured of a capability. -/
def captures (cap : Bytes × Option Bytes) : List Bytes :=
  [cap.1, if cap.2.isSome then lit "=" else [], cap.2.getD []]

/-- The value of a capability is taken, with what is captured before it. -/
theorem matchHere_value {whole name eq value rest : Bytes} (noSpace : ∀ c ∈ value, c ≠ chr ' ')
    (spaced : ∀ c ∈ rest.head?, c = chr ' ')
    : matchHere [.openCapture, .single (· != chr ' ') .many, .closeCapture, .closeCapture]
        (value ++ rest) [⟨whole, false⟩, ⟨name, true⟩, ⟨eq, true⟩]
      = some [whole ++ value, name, eq, value] := by
  rw [matchHere]
  refine matchHere_many_longest (by simpa using noSpace) (fun c isHead => ?_) rfl
  simpa using spaced c isHead

/-- A capability is one match. -/
theorem gmatch_cap {name rest : Bytes} {value : Option Bytes} {fresh : Bool} (notEmpty : name ≠ [])
    (inName : ∀ c ∈ name, c ≠ chr ' ' ∧ c ≠ chr '=') (noSpace : ∀ c ∈ value.getD [], c ≠ chr ' ')
    (spaced : ∀ c ∈ rest.head?, c = chr ' ')
    : gmatchFrom capPattern (name ++ (value.elim [] (chr '=' :: ·) ++ rest)) fresh
      = captures (name, value) :: gmatchFrom capPattern rest false := by
  have accepted : ∀ c ∈ name, (c != chr ' ' && c != chr '=') = true := by
    intro c isIn
    simpa using inName c isIn
  have found : stringMatch (.openCapture :: capPattern ++ [.closeCapture])
      (name ++ (value.elim [] (chr '=' :: ·) ++ rest))
      = some ((name ++ value.elim [] (chr '=' :: ·)) :: captures (name, value)) := by
    cases value with
    | none =>
        have stops : ∀ c ∈ rest.head?, (c != chr ' ' && c != chr '=') = false := by
          intro c isHead
          simp [spaced c isHead]
        refine matchHere_plus_longest accepted notEmpty stops ?_
        have nothing := @matchHere_value name name [] [] rest nofun spaced
        cases rest with
        | nil => exact nothing
        | cons c rest =>
            obtain rfl := spaced c rfl
            exact nothing
    | some value =>
        have stops : ∀ c ∈ (chr '=' :: value ++ rest).head?,
            (c != chr ' ' && c != chr '=') = false := by
          rintro _ ⟨⟩
          rfl
        refine matchHere_plus_longest accepted notEmpty stops ?_
        have taken := @matchHere_value (name ++ lit "=") name (lit "=") value rest noSpace spaced
        refine (congrArg (Option.or · _) taken).trans ?_
        simp [captures, lit]
  rw [← List.append_assoc]
  refine gmatchFrom_take (by simp [notEmpty]) ?_
  rw [List.append_assoc, matchWhole, found]
  rfl

/-- No capability starts with a space or an equals sign. -/
theorem matchWhole_cap_none {text : Bytes} (starts : ∀ c ∈ text.head?, c = chr ' ' ∨ c = chr '=')
    : matchWhole capPattern text = none := by
  have nothing : stringMatch (.openCapture :: capPattern ++ [.closeCapture]) text = none := by
    cases text with
    | nil => rfl
    | cons c text => rcases starts c rfl with rfl | rfl <;> rfl
  rw [matchWhole, nothing]

/-- What is found in a word is its capability, by induction on the word. -/
theorem gmatch_capWord {word rest : Bytes} (noSpace : chr ' ' ∉ word)
    (spaced : ∀ c ∈ rest.head?, c = chr ' ') (fresh : Bool)
    : ∃ fresh', gmatchFrom capPattern (word ++ rest) fresh
      = ((capOf word).map captures).toList ++ gmatchFrom capPattern rest fresh' := by
  induction word generalizing fresh with
  | nil => exact ⟨fresh, rfl⟩
  | cons c word ih =>
      rw [List.mem_cons, not_or] at noSpace
      by_cases isSign : c = chr '='
      · have skips : gmatchFrom capPattern (c :: (word ++ rest)) fresh
            = gmatchFrom capPattern (word ++ rest) true :=
          gmatchFrom_skip (matchWhole_cap_none (by simp [isSign]))
        have same : capOf (c :: word) = capOf word := by
          rw [capOf, dropLeading, List.dropWhile_cons_of_pos (by simp [isSign])]
          rfl
        rw [List.cons_append, skips, same]
        exact ih noSpace.2 true
      · refine ⟨false, ?_⟩
        have named : dropLeading (chr '=') (c :: word) = c :: word :=
          dropLeading_of_head_ne (by simpa using isSign)
        rw [capOf, named, if_neg (List.cons_ne_nil _ _)]
        have other : ∀ d ∈ c :: word, d ≠ chr ' ' := by
          rintro d isIn rfl
          exact (List.mem_cons.mp isIn).elim noSpace.1 noSpace.2
        rcases onwards_cases (chr '=') (c :: word) with ⟨none_, absent⟩ | ⟨value, isValue, split⟩
        · rw [none_]
          have inName : ∀ d ∈ c :: word, d ≠ chr ' ' ∧ d ≠ chr '=' := fun d isIn =>
            ⟨other d isIn, fun same => absent (same ▸ isIn)⟩
          exact @gmatch_cap (c :: word) rest none fresh (List.cons_ne_nil _ _) inName (by simp)
            spaced
        · rw [isValue]
          have inWord : ∀ d ∈ before (chr '=') (c :: word) ++ chr '=' :: value, d ≠ chr ' ' := by
            rwa [← split]
          have inName : ∀ d ∈ before (chr '=') (c :: word), d ≠ chr ' ' ∧ d ≠ chr '=' :=
            fun d isIn => ⟨inWord d (List.mem_append_left _ isIn),
              fun same => not_mem_before (chr '=') (c :: word) (same ▸ isIn)⟩
          have notEmpty : before (chr '=') (c :: word) ≠ [] := by
            intro empty
            rw [empty] at split
            exact isSign (List.cons.inj split).1
          have inValue : ∀ d ∈ value, d ≠ chr ' ' := fun d isIn =>
            inWord d (List.mem_append_right _ (List.mem_cons_of_mem _ isIn))
          have whole := @gmatch_cap _ rest (some value) fresh notEmpty inName inValue spaced
          rw [Option.elim_some, ← List.append_assoc, ← split] at whole
          exact whole

/-- What is found in a parameter string are the capabilities of its words, by induction on the
words.
-/
theorem gmatch_caps {capsarg : Bytes} {words : List Bytes} (listed : Spaced capsarg words)
    (areWords : ∀ word ∈ words, chr ' ' ∉ word) (fresh : Bool)
    : gmatchFrom capPattern capsarg fresh
      = (words.filterMap capOf).map captures := by
  induction listed generalizing fresh with
  | nil => exact gmatchFrom_nil (matchWhole_cap_none nofun)
  | space _ ih =>
      rw [gmatchFrom_skip (matchWhole_cap_none (by simp)), ih areWords]
  | @word word _ _ ends _ ih =>
      obtain ⟨here, later⟩ := List.forall_mem_cons.mp areWords
      obtain ⟨fresh', found⟩ := gmatch_capWord here ends fresh
      rw [found, ih later]
      cases isCap : capOf word with
      | none =>
          rw [List.filterMap_cons_none isCap]
          rfl
      | some cap =>
          rw [List.filterMap_cons_some isCap]
          rfl

/-- What is found in a parameter string without looking for values are its words, by induction
on the words.
-/
theorem gmatch_words {capsarg : Bytes} {words : List Bytes} (listed : Spaced capsarg words)
    (areWords : ∀ word ∈ words, IsWord word) (fresh : Bool)
    : gmatchFrom wordPattern capsarg fresh = words.map ([·]) := by
  have starts {text : Bytes} (spaced : ∀ c ∈ text.head?, c = chr ' ')
      : matchWhole wordPattern text = none := by
    have nothing : stringMatch (.openCapture :: wordPattern ++ [.closeCapture]) text = none := by
      cases text with
      | nil => rfl
      | cons c text =>
          obtain rfl := spaced c rfl
          rfl
    rw [matchWhole, nothing]
  induction listed generalizing fresh with
  | nil => exact gmatchFrom_nil (starts (by simp))
  | space _ ih => rw [gmatchFrom_skip (starts (by simp)), ih areWords]
  | @word word rest _ ends _ ih =>
      obtain ⟨here, later⟩ := List.forall_mem_cons.mp areWords
      have accepted : ∀ c ∈ word, (c != chr ' ') = true := by
        intro c isIn
        simpa using fun same : c = chr ' ' => here.noSpace (same ▸ isIn)
      have found : stringMatch (.openCapture :: wordPattern ++ [.closeCapture]) (word ++ rest)
          = some [word] := by
        refine matchHere_plus_longest accepted here.notEmpty (fun c isHead => ?_) rfl
        simpa using ends c isHead
      have whole : matchWhole wordPattern (word ++ rest) = some (word, [word]) := by
        rw [matchWhole, found]
        rfl
      rw [gmatchFrom_take here.notEmpty whole, ih later]
      rfl

-----------------------------------------------------------------------------------------
-- Runs
-----------------------------------------------------------------------------------------

variable {split : Bytes → List Bytes} {irc : Capabilities} {info : Info}

/-- The set of mechanisms that belongs to an information; what is known to be there without a
list has the set of the empty list.
-/
def Info.mechs (split : Bytes → List Bytes) : Info → Option (List Bytes)
  | unknown => none
  | plain => some (split [])
  | list mechs => some (split mechs)

/-- A capability sets the mechanisms as its information says. -/
theorem addCap_mechs {caps : Bytes → Option TokenValue} {word : Bytes}
    {cap : Bytes × Option Bytes} (isCap : capOf word = some cap)
    (before : irc.saslMechs = info.mechs split)
    : (addCap split (irc, caps) (captures cap)).1.saslMechs = (info.afterCap word).mechs split := by
  obtain ⟨name, value⟩ := cap
  rw [captures, addCap, Info.afterCap, isCap]
  by_cases isSasl : name = lit "sasl"
  · simp only [isSasl, if_true]
    cases value <;> rfl
  · simp only [Ne.symm isSasl, isSasl, if_false]
    exact before

/-- The capabilities of some words set the mechanisms as their information says, by induction on
the words.
-/
theorem foldl_addCap_mechs {words : List Bytes} {acc : Capabilities × (Bytes → Option TokenValue)}
    (before : acc.1.saslMechs = info.mechs split)
    : (((words.filterMap capOf).map captures).foldl (addCap split) acc).1.saslMechs
      = (words.foldl Info.afterCap info).mechs split := by
  induction words generalizing acc info with
  | nil => exact before
  | cons word words ih =>
      cases isCap : capOf word with
      | none =>
          have same : info.afterCap word = info := by
            rw [Info.afterCap, isCap]
          rw [List.filterMap_cons_none isCap, List.foldl_cons, same]
          exact ih before
      | some cap =>
          rw [List.filterMap_cons_some isCap, List.map_cons, List.foldl_cons, List.foldl_cons]
          exact ih (addCap_mechs isCap before)

/-- Deleted capabilities leave no mechanisms if `sasl` is among them, by induction on the words.
-/
theorem foldl_delCap_mechs {words : List Bytes} (before : irc.saslMechs = info.mechs split)
    : (words.foldl (delCap split) irc).saslMechs
      = (if lit "sasl" ∈ words then Info.unknown else info).mechs split := by
  induction words generalizing irc info with
  | nil => rw [if_neg nofun]; exact before
  | cons word words ih =>
      rw [List.foldl_cons]
      by_cases isSasl : lit "sasl" = word
      · have here : (delCap split irc word).saslMechs = Info.unknown.mechs split := by
          rw [delCap, if_pos isSasl]
          rfl
        rw [ih here, if_pos (List.mem_cons.mpr (.inl isSasl)), ite_self]
      · have here : (delCap split irc word).saslMechs = info.mechs split := by
          rw [delCap, if_neg isSasl]
          exact before
        rw [ih here]
        simp only [List.mem_cons, isSasl, false_or]

/-- An event sets the mechanisms as its information says. -/
theorem step_mechs (before : irc.saslMechs = info.mechs split) (event : Event)
    : (step split irc event).saslMechs = (info.after event).mechs split := by
  have added (capsarg : Bytes) : (addCaps split capsarg irc).1.saslMechs
      = ((wordsOf capsarg).foldl Info.afterCap info).mechs split := by
    rw [addCaps, gmatch, gmatch_caps (spaced_wordsOf capsarg)
      (fun word isIn => (isWord_of_mem isIn).noSpace)]
    exact foldl_addCap_mechs before
  cases event with
  | ls capsarg => exact added capsarg
  | new capsarg => exact added capsarg
  | del capsarg =>
      rw [step, delCaps, gmatch, gmatch_words (spaced_wordsOf capsarg)
        (fun word isIn => isWord_of_mem isIn)]
      rw [← List.flatMap_def, List.flatMap_singleton', foldl_delCap_mechs before]
      rfl
  | saslmechs list => cases list <;> rfl
  | between capsEnabled saslCredentials => exact before

/-- A run sets the mechanisms as the latest information says, by induction on the events. -/
theorem run_mechs (before : irc.saslMechs = info.mechs split) (events : List Event)
    : (events.foldl (step split) irc).saslMechs = (events.foldl Info.after info).mechs split := by
  induction events generalizing irc info with
  | nil => exact before
  | cons event events ih => exact ih (step_mechs before event)

/-- The first credential is tried if all mechanisms are supported. -/
theorem authenticate_first {sasl : Credential → Capabilities → Bool × Capabilities}
    {credential : Credential} {rest : List Credential}
    (supported : hasSaslMech irc credential.mechanism) (enabled : irc.capsEnabled (lit "sasl"))
    (isFirst : irc.saslCredentials = some (credential :: rest))
    : (authenticate sasl irc).1.head? = some credential := by
  have still : hasSaslMech { irc with saslCredentials := none } credential.mechanism := supported
  rw [authenticate, isFirst]
  simp only [enabled, if_true]
  rw [credentialRounds, if_pos still]
  rcases sasl credential { irc with saslCredentials := none } with ⟨_ | _, after⟩ <;> rfl

/-- The client goes by the information if its set of mechanisms belongs to it, unless `sasl` is
only known to be there.
-/
theorem goesBy_iff (splits : SplitsAtCommas split) (isSet : irc.saslMechs = info.mechs split)
    : GoesBy irc info ↔ info ≠ .plain := by
  constructor
  · rintro goesBy rfl
    have isMechanism : IsMechanism (lit "PLAIN") := ⟨by decide, by decide +kernel⟩
    have supported := goesBy.unlisted nofun (lit "PLAIN") isMechanism
    rw [hasSaslMech, isSet] at supported
    have isIn := (splits [] (lit "PLAIN") (by decide)).mp (of_decide_eq_true supported)
    revert isIn
    decide
  · intro notPlain
    cases info with
    | plain => exact absurd rfl notPlain
    | unknown =>
        have all (mech : Bytes) : hasSaslMech irc mech := by
          rw [hasSaslMech, isSet]
          rfl
        exact ⟨nofun, fun _ mech _ => all mech,
          fun _ enabled sasl credential rest _ isFirst =>
            authenticate_first (all credential.mechanism) enabled isFirst⟩
    | list mechs =>
        refine ⟨?_, fun unlisted => absurd rfl (unlisted mechs),
          fun unlisted => absurd rfl (unlisted mechs)⟩
        rintro _ ⟨⟩ mech isMechanism
        rw [hasSaslMech, isSet]
        simpa [Info.mechs] using splits mechs mech isMechanism.notEmpty

/-- After any events the client goes by the latest information if and only if this is not a
`sasl` capability without a value.
-/
theorem run_goesBy_iff (splits : SplitsAtCommas split) (events : List Event)
    : GoesBy (events.foldl (step split) .new) (latest events) ↔ latest events ≠ .plain :=
  goesBy_iff splits (run_mechs rfl events)

/-- A `split` as the library has it: an empty string has no elements. -/
def splitCommas (text : Bytes) : List Bytes := if text = [] then [] else text.splitOn (chr ',')

/-- It splits at the commas. -/
theorem splitsAtCommas_splitCommas : SplitsAtCommas splitCommas := by
  intro text field notEmpty
  rw [splitCommas]
  by_cases empty : text = []
  · rw [if_pos empty, empty]
    simp [notEmpty]
  · rw [if_neg empty]

/-- After a list of mechanisms the client goes by it. -/
theorem run_goesBy_iff_witness
    : GoesBy ([.ls (lit "multi-prefix sasl=PLAIN,EXTERNAL")].foldl (step splitCommas) .new)
        (latest [.ls (lit "multi-prefix sasl=PLAIN,EXTERNAL")]) := by
  refine (run_goesBy_iff splitsAtCommas_splitCommas _).mpr ?_
  have isList : latest [.ls (lit "multi-prefix sasl=PLAIN,EXTERNAL")]
      = .list (lit "PLAIN,EXTERNAL") := by
    decide +kernel
  rw [isList]
  exact nofun

/-- Against a server that advertises `sasl` without a value, no mechanism is taken to be supported.
-/
theorem run_goesBy_counterexample
    : ¬ GoesBy ([.ls (lit "sasl")].foldl (step splitCommas) .new) (latest [.ls (lit "sasl")]) := by
  intro goesBy
  have isPlain : latest [.ls (lit "sasl")] = .plain := by decide +kernel
  exact (goesBy_iff splitsAtCommas_splitCommas (run_mechs rfl [.ls (lit "sasl")])).mp goesBy isPlain

end Snowcone.Registration
