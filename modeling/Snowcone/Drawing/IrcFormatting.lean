import Mathlib.Logic.Function.Basic
import Snowcone.Foundations.Decimal
import Snowcone.Foundations.Loops
import Snowcone.Foundations.LuaGsub
import Snowcone.Foundations.Utf8

/-! The renderer of formatted messages: what it writes to a window, and how it leaves it. -/

namespace Snowcone.Drawing

open Bytes Function LuaPattern WhileLoop

/-- Video attributes. -/
inductive Attribute where
  | bold
  | italic
  | reverse
  | underline
  | other (n : Nat)
  deriving DecidableEq

/-- A window, with the colour pairs that the terminal has given out, and the texts that were
written.
-/
structure Screen where
  attrs : Attribute → Bool
  pair : Nat
  colorMap : Int × Int → Nat
  assigned : Nat
  written : List Bytes

/-- `normal`, that is `attrset(WA_NORMAL, 0, w)`. Here and below, ncurses takes the attributes and
the colour pair: the error that is raised where it returns `ERR` is left out.
-/
def normal (win : Screen) : Screen := { win with attrs := fun _ => false, pair := 0 }

/-- `win:waddstr` -/
def waddstr (win : Screen) (text : Bytes) : Screen := { win with written := win.written ++ [text] }

/-- `ncurses.colorset`, where the terminal has a number of colour pairs, and takes each of them. -/
def colorset (colorPairs : Nat) (win : Screen) (fore back : Option Int) : Except Bytes Screen :=
  let fore := fore.getD (-1)
  let back := back.getD (-1)
  if ¬(-1 ≤ fore ∧ fore ≤ 7) then .error (lit "bad argument #1 to 'colorset' (out of range)")
  else if ¬(-1 ≤ back ∧ back ≤ 7) then
    .error (lit "bad argument #2 to 'colorset' (out of range)")
  else
    let win :=
      if win.colorMap (fore, back) = 0 ∧ (0 ≤ fore ∨ 0 ≤ back) ∧ win.assigned < colorPairs then
        { win with
          colorMap := update win.colorMap (fore, back) win.assigned, assigned := win.assigned + 1 }
      else win
    .ok { win with pair := win.colorMap (fore, back) }

/-- `irc_colors`, with the colours of the terminal as numbers: black, red, green, yellow, blue,
magenta, cyan and white from 0 to 7, and the default -1.
-/
def ircColors : List (Nat × Int) :=
  [(0, 7), (1, 0), (2, 4), (3, 2), (4, 1), (5, 6), (6, 5), (7, 3), (8, 7), (9, 0), (10, 4),
    (11, 2), (12, 1), (13, 6), (14, 5), (15, 3), (99, -1)]

/-- `repls`, with the codes of the symbols. -/
def repls : List (Byte × Nat) :=
  [(0x00, 0x2400), (0x01, 0x2401), (0x02, 0x2402), (0x03, 0x2403), (0x04, 0x2404),
    (0x05, 0x2405), (0x06, 0x2406), (0x07, 0x2407), (0x08, 0x2408), (0x09, 0x2409),
    (0x0a, 0x2424), (0x0b, 0x240b), (0x0c, 0x240c), (0x0d, 0x240d), (0x0e, 0x240e),
    (0x0f, 0x240f), (0x10, 0x2410), (0x11, 0x2411), (0x12, 0x2412), (0x13, 0x2413),
    (0x14, 0x2414), (0x15, 0x2415), (0x16, 0x2416), (0x17, 0x2417), (0x18, 0x2418),
    (0x19, 0x2419), (0x1a, 0x241a), (0x1b, 0x241b), (0x1c, 0x241c), (0x1d, 0x241d),
    (0x1e, 0x241e), (0x1f, 0x241f), (0x7f, 0x2421)]

/-- `[\x00-\x1f\x7f]` -/
def isControl (c : Byte) : Bool := c ≤ 0x1f || c == 0x7f

/-- `scrub` -/
def scrub (str : Bytes) : Bytes :=
  Id.run (gsub [.single isControl .once] str fun captures =>
    match captures with
    | [[c]] => ((repls.lookup c).map Utf8.charBytes).getD [c]
    | _ => captures.flatten)

/-- What is called at the next code of a kind: an attribute is switched on or off. -/
inductive Handler where
  | attron (video : Attribute)
  | attroff (video : Attribute)

/-- Call a handler; `attron` and `attroff` take every attribute. -/
def Handler.call (win : Screen) : Handler → Screen
  | .attron video => { win with attrs := update win.attrs video true }
  | .attroff video => { win with attrs := update win.attrs video false }

/-- The locals: for every kind the next handler and the one after it, the background and what is
left of the string.
-/
structure Locals where
  onB : Handler × Handler
  onU : Handler × Handler
  onR : Handler × Handler
  onI : Handler × Handler
  background : Option Nat
  str : Bytes

/-- `init`, up to the call of `normal`. -/
def Locals.init (str : Bytes) : Locals where
  onB := (.attron .bold, .attroff .bold)
  onU := (.attron .underline, .attroff .underline)
  onR := (.attron .reverse, .attroff .reverse)
  onI := (.attron .italic, .attroff .italic)
  background := none
  str := str

/-- `^([^\x00-\x1f\x7f]*)(.?)(.*)$` -/
def textPattern : List (Item Byte) :=
  [.openCapture, .single (!isControl ·) .many, .closeCapture,
    .openCapture, .single (fun _ => true) .optional, .closeCapture,
    .openCapture, .single (fun _ => true) .many, .closeCapture, .endOfSubject]

/-- `(%d%d?)`, in front of more items. -/
def numberThen (items : List (Item Byte)) : List (Item Byte) :=
  .openCapture :: .single Decimal.isNumeral .once :: .single Decimal.isNumeral .optional
    :: .closeCapture :: items

/-- `(.*)$` -/
def restPattern : List (Item Byte) :=
  [.openCapture, .single (fun _ => true) .many, .closeCapture, .endOfSubject]

/-- `^(%d%d?),(%d%d?)(.*)$` -/
def colorsPattern : List (Item Byte) :=
  numberThen (.single (· == chr ',') .once :: numberThen restPattern)

/-- `^(%d?%d?)(.*)$` -/
def colorPattern : List (Item Byte) :=
  .openCapture :: .single Decimal.isNumeral .optional :: .single Decimal.isNumeral .optional
    :: .closeCapture :: restPattern

/-- `math.tointeger` of a few digits. -/
def tointeger (digits : Bytes) : Option Nat :=
  if digits = [] then none else some (Decimal.value digits)

/-- The branch of the colour code. -/
def color (colorPairs : Nat) (l : Locals) (win : Screen) : Except Bytes (Locals × Screen) :=
  let matched : Option (Bytes × Option Bytes × Bytes) :=
    match stringMatch colorsPattern l.str with
    | some [fore, back, rest] => some (fore, some back, rest)
    | _ =>
        match stringMatch colorPattern l.str with
        | some [fore, str] => some (fore, none, str)
        | _ => none
  match matched with
  | none => .error (lit "bad argument #1 to 'tointeger' (value expected)")
  | some (fore, back, str) =>
      let background :=
        if fore = [] then none
        else
          match back with
          | some back => tointeger back
          | none => l.background
      (colorset colorPairs win ((tointeger fore).bind (ircColors.lookup ·))
        (background.bind (ircColors.lookup ·))).map (({ l with background, str }, ·))

/-- One round of the loop. -/
def addircstrRound (colorPairs : Nat)
    : Locals × Screen → Round (Locals × Screen) (Except Bytes Screen)
  | (l, win) =>
      if l.str = [] then .leave (.ok (normal win))
      else
        match stringMatch textPattern l.str with
        | some [pre, ctrl, str] =>
            let l := { l with str }
            let win := if pre = [] then win else waddstr win pre
            if ctrl = [] then .leave (.ok (normal win))
            else if ctrl = [0x02] then .again ({ l with onB := l.onB.swap }, l.onB.1.call win)
            else if ctrl = [0x0f] then .again (.init str, normal win)
            else if ctrl = [0x03] then
              match color colorPairs l win with
              | .error message => .leave (.error message)
              | .ok next => .again next
            else if ctrl = [0x1f] then .again ({ l with onU := l.onU.swap }, l.onU.1.call win)
            else if ctrl = [0x16] then .again ({ l with onR := l.onR.swap }, l.onR.1.call win)
            else if ctrl = [0x1d] then .again ({ l with onI := l.onI.swap }, l.onI.1.call win)
            else .again (l, waddstr win (scrub ctrl))
        | _ => .leave (.error (lit "bad argument #1 to 'waddstr' (string expected, got nil)"))

/-- `addircstr`, for at most some number of rounds. -/
def addircstr (colorPairs : Nat) (win : Screen) (str : Bytes) (bound : Nat)
    : Option (Except Bytes Screen) :=
  run (addircstrRound colorPairs) bound (.init str, normal win)

end Snowcone.Drawing
