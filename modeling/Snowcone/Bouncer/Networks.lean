import Mathlib.Data.List.Induction
import Mathlib.Logic.Function.Basic
import Snowcone.Foundations.Action
import Snowcone.IrcParsing.Dump
import Snowcone.Sending.Send

/-! The table of a bouncer's networks: what the handler of `BOUNCER` messages makes of it, and
what the messages ask for.
-/

namespace Snowcone.Bouncer

open Bytes CMemory IrcParsing Action
open Sending (TokenValue)

/-- The attributes of a network. -/
abbrev Network := Bytes → Option TokenValue

/-- The networks under their ids. -/
abbrev Networks := Bytes → Option Network

/-- `l_parse_irc_tags`; where the tags are rejected, the result is `nil`. -/
def lParseIrcTags (txt : Bytes) : Option (Bytes → Option TokenValue) :=
  match parseIrcTags (strcpy txt) 0 with
  | some (.ok (tags, mem)) =>
      some fun key => (pushTags (tags.map (IrcTag.read mem)) key).map .text
  | _ => none

/-- The loop over the attributes of a message. Every key comes once, so that the order in which
`pairs` goes through them is of no importance.
-/
def setAttributes (attributes : Bytes → Option TokenValue) (network : Network) : Network :=
  fun k =>
    match attributes k with
    | none => network k
    -- No value indicates the attribute was deleted
    | some .flag => none
    | some v => some v

/-- `M.BOUNCER`, for the arguments of a message. -/
def bouncer (args : List Bytes) : EStateM String (Option Networks) PUnit := do
  if args[0]? = some (lit "NETWORK") then
    match ← get with
    | none => pure ⟨⟩
    | some networks =>
        match args[1]? with
        | none => throw "index is nil"
        | some netid =>
            if args[2]? = some (lit "*") then
              set (some (Function.update networks netid none))
            else
              let network := (networks netid).getD fun _ => none
              let networks := Function.update networks netid (some network)
              set (some networks)
              match args[2]? with
              | none => throw "bad argument #1 to 'parse_irc_tags' (string expected, got nil)"
              | some attrs =>
                  match lParseIrcTags attrs with
                  | none => throw "bad argument #1 to 'for iterator' (table expected, got nil)"
                  | some attributes =>
                      set (some (Function.update networks netid
                        (some (setAttributes attributes network))))

/-- A message is handled; an error is reported, and what was done before it stays. -/
def handleBouncer (networks : Option Networks) (args : List Bytes) : Option Networks :=
  match bouncer args networks with
  | .ok _ after => after
  | .error _ after => after

-----------------------------------------------------------------------------------------
-- Updates
-----------------------------------------------------------------------------------------

/-- An update of a network: its id, and `*` or the attributes in the format of tags. A message
may have more arguments.
-/
structure Update where
  netid : Bytes
  attrs : Bytes
  more : List Bytes

/-- The arguments of the message for an update. -/
def Update.args (update : Update) : List Bytes :=
  lit "NETWORK" :: update.netid :: update.attrs :: update.more

/-- An attribute: a key that is not empty, and a value if there is an equals sign. -/
def attributeOf (entry : Bytes) : Option (Bytes × Option Bytes) :=
  if before (chr '=') entry = [] then none
  else
    match onwards (chr '=') entry with
    | [] => some (entry, none)
    | _ :: value => some (before (chr '=') entry, some (unescape value))

/-- The attributes of an update, up to the first NUL; there are none if one has no key. -/
def attributesOf (attrs : Bytes) : Option (List (Bytes × Option Bytes)) :=
  ((before 0 attrs).splitOn (chr ';')).mapM attributeOf

/-- An attribute is set to its value, or removed if it has none. -/
def change (network : Network) (entry : Bytes × Option Bytes) : Network :=
  Function.update network entry.1 (entry.2.map .text)

/-- The networks behind an update. -/
def Update.apply (networks : Networks) (update : Update) : Networks :=
  if update.attrs = lit "*" then Function.update networks update.netid none
  else
    match attributesOf update.attrs with
    | none => networks
    | some attributes =>
        Function.update networks update.netid
          (some (attributes.foldl change ((networks update.netid).getD fun _ => none)))

/-- The last attribute with a key, by its value. -/
def lastValue (attributes : List (Bytes × Option Bytes)) (key : Bytes) : Option (Option Bytes) :=
  (attributes.reverse.find? (·.1 == key)).map Prod.snd

/-- The handler does with an update what it asks for: the network is removed, or there is no
attribute whose last occurrence has no value, and attributes that are rejected come for a
network that is known.
-/
def Good (networks : Networks) (update : Update) : Prop :=
  update.attrs ≠ lit "*" →
    match attributesOf update.attrs with
    | none => (networks update.netid).isSome
    | some attributes => ∀ key, lastValue attributes key ≠ some none

/-- All updates are good for the networks that the updates before them ask for. -/
def AllGood (networks : Networks) : List Update → Prop
  | [] => True
  | update :: updates => Good networks update ∧ AllGood (update.apply networks) updates

-----------------------------------------------------------------------------------------
-- Tags
-----------------------------------------------------------------------------------------

/-- An entry is an attribute, a missing value being an empty one. -/
theorem tagOf_eq (entry : Bytes)
    : tagOf entry = match attributeOf entry with
      | none => .error .missingTag
      | some (key, val) => .ok { key, val := val.getD [] } := by
  rw [tagOf, attributeOf]
  by_cases noKey : before (chr '=') entry = []
  · rw [if_pos noKey, if_pos noKey]
  · rw [if_neg noKey, if_neg noKey]
    rcases onwards_cases (chr '=') entry with ⟨nothing, absent⟩ | ⟨value, more, -⟩
    · rw [nothing, before_of_not_mem absent]
      rfl
    · rw [more]
      rfl

/-- The entries of a list are attributes, by induction on the list. -/
theorem mapM_tagOf (entries : List Bytes)
    : entries.mapM tagOf = match entries.mapM attributeOf with
      | none => .error .missingTag
      | some attributes => .ok (attributes.map fun (key, val) => { key, val := val.getD [] }) := by
  induction entries with
  | nil => rfl
  | cons entry entries ih =>
      rw [List.mapM_cons, List.mapM_cons, tagOf_eq, ih]
      cases attributeOf entry with
      | none => rfl
      | some first => cases entries.mapM attributeOf <;> rfl

/-- The last of some attributes has the last value of its key. -/
theorem lastValue_concat (attributes : List (Bytes × Option Bytes)) (last : Bytes × Option Bytes)
    (key : Bytes)
    : lastValue (attributes ++ [last]) key
      = if last.1 = key then some last.2 else lastValue attributes key := by
  rw [lastValue, List.reverse_concat]
  by_cases same : last.1 = key
  · rw [List.find?_cons_of_pos (by simpa using same), if_pos same]
    rfl
  · rw [List.find?_cons_of_neg (by simpa using same), if_neg same]
    rfl

/-- What is pushed for a key is its last value, by induction on the attributes from the end. -/
theorem pushTags_attributes (attributes : List (Bytes × Option Bytes)) (key : Bytes)
    : pushTags (attributes.map fun (key, val) => { key, val := val.getD [] }) key
      = (lastValue attributes key).map (·.getD []) := by
  induction attributes using List.reverseRec with
  | nil => rfl
  | append_singleton attributes last ih =>
      rw [lastValue_concat, pushTags, List.map_append, List.foldl_append]
      change Function.update (pushTags _) last.1 (some (last.2.getD [])) key = _
      by_cases same : last.1 = key
      · rw [if_pos same, same, Function.update_self]
        rfl
      · rw [if_neg same, Function.update_of_ne (Ne.symm same), ih]

/-- What some attributes make of a key is decided by its last value, by induction on the
attributes from the end.
-/
theorem foldl_change (attributes : List (Bytes × Option Bytes)) (network : Network) (key : Bytes)
    : attributes.foldl change network key
      = match lastValue attributes key with
        | none => network key
        | some value => value.map .text := by
  induction attributes using List.reverseRec with
  | nil => rfl
  | append_singleton attributes last ih =>
      rw [lastValue_concat, List.foldl_append, List.foldl_cons, List.foldl_nil, change]
      by_cases same : last.1 = key
      · rw [if_pos same, same, Function.update_self]
      · rw [if_neg same, Function.update_of_ne (Ne.symm same), ih]

/-- The attributes of a string, as the handler gets them: a missing value is an empty one. -/
theorem lParseIrcTags_eq (txt : Bytes)
    : lParseIrcTags txt = (attributesOf txt).map fun attributes key =>
      (lastValue attributes key).map fun value => .text (value.getD []) := by
  have agrees := parseIrcTags_refines (cString_strcpy txt)
  have isReference := mapM_tagOf ((before 0 txt).splitOn (chr ';'))
  rw [← tagsOf, ← attributesOf] at isReference
  rw [lParseIrcTags]
  cases isAttributes : attributesOf txt with
  | none =>
      rw [isAttributes] at isReference
      rw [isReference] at agrees
      generalize parseIrcTags (strcpy txt) 0 = result at agrees
      cases agrees
      rfl
  | some attributes =>
      rw [isAttributes] at isReference
      rw [isReference] at agrees
      generalize parseIrcTags (strcpy txt) 0 = result at agrees
      cases agrees with
      | @returns _ result holds =>
          obtain ⟨views, mem⟩ := result
          change some _ = some _
          refine congrArg some (funext fun key => ?_)
          rw [tags_read holds.1, pushTags_attributes, Option.map_map]
          rfl

-----------------------------------------------------------------------------------------
-- Runs
-----------------------------------------------------------------------------------------

variable {networks : Networks} {update : Update}

/-- What the handler makes of the networks. -/
theorem handleBouncer_args (networks : Networks) (update : Update)
    : handleBouncer (some networks) update.args
      = some (if update.attrs = lit "*" then Function.update networks update.netid none
        else
          let network := (networks update.netid).getD fun _ => none
          match lParseIrcTags update.attrs with
          | none => Function.update networks update.netid (some network)
          | some attributes =>
              Function.update networks update.netid
                (some (setAttributes attributes network))) := by
  have isNetwork : update.args[0]? = some (lit "NETWORK") := rfl
  have isNetid : update.args[1]? = some update.netid := rfl
  have isAttrs : update.args[2]? = some update.attrs := rfl
  rw [handleBouncer, bouncer, if_pos isNetwork, get_bind]
  simp only [isNetid, isAttrs, Option.some_inj]
  by_cases removed : update.attrs = lit "*"
  · rw [if_pos removed, if_pos removed]
    rfl
  · rw [if_neg removed, if_neg removed]
    cases lParseIrcTags update.attrs with
    | none => rfl
    | some attributes =>
        refine congrArg some ?_
        exact Function.update_idem ..

/-- The handler does with an update what it asks for if and only if the update is good. -/
theorem handleBouncer_eq_iff
    : handleBouncer (some networks) update.args = some (update.apply networks)
      ↔ Good networks update := by
  rw [handleBouncer_args, Option.some_inj, Update.apply, Good]
  by_cases removed : update.attrs = lit "*"
  · rw [if_pos removed, if_pos removed]
    exact ⟨fun _ other => absurd removed other, fun _ => rfl⟩
  rw [if_neg removed, if_neg removed, lParseIrcTags_eq]
  have other : ∀ {good : Prop}, (update.attrs ≠ lit "*" → good) ↔ good :=
    ⟨fun holds => holds removed, fun holds _ => holds⟩
  rw [other]
  cases attributesOf update.attrs with
  | none =>
      change Function.update networks update.netid _ = networks ↔ _
      rw [Function.update_eq_self_iff]
      cases networks update.netid with
      | none => exact ⟨nofun, nofun⟩
      | some network => exact ⟨fun _ => rfl, fun _ => rfl⟩
  | some attributes =>
      change Function.update networks update.netid _ = Function.update networks update.netid _ ↔ _
      rw [(Function.update_injective networks update.netid).eq_iff, Option.some_inj, funext_iff]
      refine forall_congr' fun key => ?_
      rw [foldl_change, setAttributes]
      beta_reduce
      cases isLast : lastValue attributes key with
      | none => exact ⟨fun _ => nofun, fun _ => rfl⟩
      | some value =>
          cases value with
          | none => exact ⟨nofun, fun last => absurd rfl last⟩
          | some value => exact ⟨fun _ => nofun, fun _ => rfl⟩

/-- After each of some updates the table is what the updates ask for if and only if all of them
are good, by induction on the updates.
-/
theorem run_eq_iff (networks : Networks) (updates : List Update)
    : (∀ n,
        ((updates.take n).map Update.args).foldl handleBouncer (some networks)
          = some ((updates.take n).foldl Update.apply networks))
      ↔ AllGood networks updates := by
  induction updates generalizing networks with
  | nil => exact ⟨fun _ => trivial, fun _ n => by rw [List.take_nil]; rfl⟩
  | cons update updates ih =>
      rw [AllGood, ← ih, ← handleBouncer_eq_iff]
      constructor
      · intro follows
        have first : handleBouncer (some networks) update.args = some (update.apply networks) :=
          follows 1
        refine ⟨first, fun n => ?_⟩
        have later := follows (n + 1)
        rw [List.take_succ_cons, List.map_cons, List.foldl_cons, List.foldl_cons, first] at later
        exact later
      · rintro ⟨first, later⟩ n
        cases n with
        | zero => rfl
        | succ n =>
            rw [List.take_succ_cons, List.map_cons, List.foldl_cons, List.foldl_cons, first]
            exact later n

/-- The table with a network that has an error. -/
def failedNetwork : Networks :=
  Function.update (fun _ => none) (lit "1")
    (some (Function.update (fun _ => none) (lit "error") (some (.text (lit "refused")))))

/-- An attribute without a value is not removed. -/
theorem run_eq_counterexample
    : ¬ ∀ n,
        (([{ netid := lit "1", attrs := lit "error", more := [] }].take n).map
            Update.args).foldl handleBouncer (some failedNetwork)
          = some (([{ netid := lit "1", attrs := lit "error", more := [] }].take n).foldl
            Update.apply failedNetwork) := by
  intro follows
  have isGood : Good failedNetwork { netid := lit "1", attrs := lit "error", more := [] } :=
    handleBouncer_eq_iff.mp (follows 1)
  have isAttributes : attributesOf (lit "error") = some [(lit "error", none)] := by decide +kernel
  have noneIsLast := isGood (by decide)
  rw [isAttributes] at noneIsLast
  exact noneIsLast (lit "error") (by decide +kernel)

end Snowcone.Bouncer
