/-
Module: Yanix.Tty.TtyDev
Purpose: `tty_write` of `kernel/yanix/tty/tty_dev.c` with everything it calls there.  An
  access outside the cell buffer is no value.
Trusted boundary: hand-translated from C; `unsigned int` and `int` are 32-bit
  patterns in `Nat`, and calls of the video driver are only recorded
-/
import Yanix.Foundation.CString

namespace Yanix.Tty

open Foundation

/-- `sizeof(colorbit_t)`, as the control structure has it. -/
def colorbitSize : Nat := 1

/-- `sizeof(char)`, as the control structure has it. -/
def charSize : Nat := 1

structure TtyCtrl where
  colMax : Nat
  rowMax : Nat
  color : Nat
  defaultColor : Nat
  bold : Int
deriving DecidableEq

structure TtyDev where
  buffer : Buffer
  cCol : Nat
  cRow : Nat
  disabled : Int
deriving DecidableEq

inductive VideoCall where
  | clearScreen
  | drawChar (c : UInt8) (x y : Nat) (color bg : Int)
  | updateCursor (col row : Nat)
deriving DecidableEq

/-- The video driver as far as the terminal asks it, and the calls made to it so far. -/
structure Video where
  modeTerm : Bool
  screenWidth : Nat
  screenHeight : Nat
  vgaToRgb : Int → Int
  calls : List VideoCall

structure Terminal where
  ctrl : TtyCtrl
  dev : TtyDev
  video : Video

def Terminal.call (t : Terminal) (call : VideoCall) : Terminal :=
  { t with video := { t.video with calls := t.video.calls ++ [call] } }

/-- The assignments to `c_col` and `c_row`. -/
def Terminal.setCursor (t : Terminal) (col row : Nat) : Terminal :=
  { t with dev := { t.dev with cCol := col, cRow := row } }

/-! ## The cell buffer -/

/-- `(row * col_max + col) * 2`, an `unsigned int`. -/
def cellLoc (ctrl : TtyCtrl) (col row : Nat) : Nat :=
  mul32 (add32 (mul32 ctrl.colMax row) col) (charSize + colorbitSize)

/-- An assignment to `buffer[l]` with an `int` index. -/
def Terminal.store (t : Terminal) (l : Int) (v : UInt8) : Option Terminal := if 0 ≤ l then do
    let buffer ← t.dev.buffer.store l.toNat v
    return { t with dev := { t.dev with buffer := buffer } }
  else none

def signedChar (b : UInt8) : Int := if b < 128 then b.toNat else b.toNat - 256

/-- One round of the redraw: the cell at index `i`. -/
def drawCell (t : Terminal) (i : Nat) : Option Terminal := do
  let colorbit ← t.dev.buffer[i + 1]?
  let c ← t.dev.buffer[i]?
  let color : Int := (colorbit &&& 0xF).toNat
  let bg := signedChar colorbit >>> (4 : Nat)
  let xloc := i / (charSize + colorbitSize) % t.ctrl.colMax
  let yloc := i / (charSize + colorbitSize) / t.ctrl.colMax
  if t.video.modeTerm then
    return t.call (.drawChar c xloc yloc color bg)
  else
    let color := t.video.vgaToRgb color
    let bg := t.video.vgaToRgb bg
    let xloc := mul32 xloc (t.video.screenWidth / t.ctrl.colMax)
    let yloc := mul32 yloc (t.video.screenHeight / t.ctrl.rowMax)
    let t := if 32 < c ∧ c ≤ 126 then t.call (.drawChar 32 xloc yloc color bg) else t
    return t.call (.drawChar c xloc yloc color bg)

def ttyUpdateDisplay (t : Terminal) (startcol startrow endcol endrow : Nat) : Option Terminal := do
  let startloc := cellLoc t.ctrl startcol startrow
  let endloc := cellLoc t.ctrl endcol endrow
  let cell := charSize + colorbitSize
  -- `for (i = startloc; i < endloc; i += 2)`
  let rounds := (endloc - startloc + (cell - 1)) / cell
  let t ← (List.range rounds).foldlM (fun t k => drawCell t (startloc + k * cell)) t
  return t.call (.updateCursor t.dev.cCol t.dev.cRow)

/-- `_tty_scroll`. The few bytes that `memset` leaves are cleared too. -/
def ttyScroll (t : Terminal) : Option Terminal := do
  let rowsize := mul32 t.ctrl.colMax (colorbitSize + charSize)
  let buffer ← (List.range (t.ctrl.rowMax - 1)).foldlM
    (fun buffer k => buffer.copyWithin (mul32 k rowsize) (mul32 (k + 1) rowsize) rowsize)
    t.dev.buffer
  let buffer ← buffer.fill (mul32 (sub32 t.ctrl.rowMax 1) rowsize) rowsize 0
  return { t with dev := { t.dev with buffer := buffer } }.call .clearScreen

def ttyClearCell (t : Terminal) (col row : Nat) : Option Terminal := do
  let t ← t.store (toSigned (cellLoc t.ctrl col row)) 32
  ttyUpdateDisplay t col row (add32 col 1) row

/-- One cell with both its bytes. -/
def Terminal.storeCell (t : Terminal) (col row : Nat) (c : UInt8) : Option Terminal := do
  let l := toSigned (cellLoc t.ctrl col row)
  let t ← t.store l c
  t.store (l + charSize) (UInt8.ofNat t.ctrl.color)

def ttyClearBuf (t : Terminal) : Option Terminal := do
  let t ← (List.range t.ctrl.colMax).foldlM (fun t i =>
    (List.range t.ctrl.rowMax).foldlM (fun t j => t.storeCell i j 32) t) t
  let t := t.setCursor 0 0
  ttyUpdateDisplay t 0 0 (sub32 t.ctrl.colMax 1) (sub32 t.ctrl.rowMax 1)

/-! ## Colours -/

def ttyBlack : Nat := 0x00
def ttyBlue : Nat := 0x01
def ttyGreen : Nat := 0x02
def ttyCyan : Nat := 0x03
def ttyRed : Nat := 0x04
def ttyPurple : Nat := 0x05
def ttyOrange : Nat := 0x06
def ttyGray : Nat := 0x07
def ttyDarkGray : Nat := 0x08
def ttyLightBlue : Nat := 0x09
def ttyLightGreen : Nat := 0x0a
def ttyLightCyan : Nat := 0x0b
def ttyLightRed : Nat := 0x0c
def ttyPink : Nat := 0x0d
def ttyYellow : Nat := 0x0e
def ttyWhite : Nat := 0x0f

/-- The argument −1 leaves its half of the colour alone. -/
def ttySetColor (fg bg : Int) (ctrl : TtyCtrl) : TtyCtrl :=
  let ctrl := if fg ≠ -1 then
    { ctrl with color := (ctrl.color &&& 0xF0) ||| ofSigned fg } else ctrl
  if bg ≠ -1 then
    { ctrl with color := (ctrl.color &&& 0xF) ||| ofSigned (bg * 16) } else ctrl

/-- The switch of `escape_to_tty_color`. -/
def escapeColor (escapecolor : Int) (ctrl : TtyCtrl) : Int × TtyCtrl := match escapecolor with
  | 30 => (ttyBlack, ctrl)
  | 31 => (ttyRed, ctrl)
  | 32 => (ttyGreen, ctrl)
  | 33 => (ttyOrange, ctrl)
  | 34 => (ttyBlue, ctrl)
  | 35 => (ttyPurple, ctrl)
  | 36 => (ttyCyan, ctrl)
  | 37 => (ttyGray, ctrl)
  | 90 => (ttyDarkGray, ctrl)
  | 91 => (ttyLightRed, ctrl)
  | 92 => (ttyLightGreen, ctrl)
  | 93 => (ttyYellow, ctrl)
  | 94 => (ttyLightBlue, ctrl)
  | 95 => (ttyPink, ctrl)
  | 96 => (ttyLightCyan, ctrl)
  | 97 => (ttyWhite, ctrl)
  | 0 => (ttyWhite, { ctrl with bold := 0 })
  | 1 =>
    let color := toSigned ctrl.color
    (-1, { ctrl with
      bold := 1
      color := if color ≤ ttyGray ∧ ttyBlack ≤ color then add32 ctrl.color ttyDarkGray
        else ctrl.color })
  | _ => (-1, ctrl)

def escapeToTtyColor (escapecolor : Int) (ctrl : TtyCtrl) : Int × TtyCtrl :=
  if ctrl.bold ≠ 0 ∧ 30 ≤ escapecolor ∧ escapecolor ≤ 37 then
    let (color, ctrl) := escapeColor (escapecolor + 60) { ctrl with bold := 0 }
    (color, { ctrl with bold := 1 })
  else
    escapeColor escapecolor ctrl

/-- `tty_set_color(escape_to_tty_color(param), -1)` -/
def setEscapeColor (param : Nat) (ctrl : TtyCtrl) : TtyCtrl :=
  let (color, ctrl) := escapeToTtyColor (toSigned param) ctrl
  ttySetColor color (-1) ctrl

/-! ## Escape sequences -/

/-- The number at the front and what stands behind it. Text is read up to a zero at most, so the
list may stand for the memory up to there. -/
def parseDecUint (str : List UInt8) (num : Nat) : Nat × List UInt8 := match str with
  | [] => (num, [])
  | c :: str =>
    if c < '0'.toUInt8 ∨ '9'.toUInt8 < c then (num, c :: str)
    else parseDecUint str (add32 (mul32 num 10) (c.toNat - 48))

structure EscapeSeq where
  iter : Nat
  curcol : Nat
  currow : Nat
  startc : Nat
  startr : Nat
deriving DecidableEq

/-- The row after `ESC [ param1 A`. -/
def cursorUp (currow param1 : Nat) : Nat :=
  sub32 currow (if toSigned (sub32 currow param1) < 0 then sub32 param1 currow else param1)

/-- The column after `ESC [ param1 C`. -/
def cursorForward (ctrl : TtyCtrl) (curcol param1 : Nat) : Nat :=
  add32 curcol (if sub32 ctrl.colMax 1 < add32 curcol param1 then
    sub32 (sub32 ctrl.colMax 1) param1 else param1)

/-- Where the redraw starts when the cursor goes to `cur`. -/
def startFrom (cur start : Nat) : Nat := if toSigned cur < toSigned start then cur else start

/-- The sequences with parameters, and where they end. -/
def parseParameters (es : EscapeSeq) (ctrl : TtyCtrl) (seq : List UInt8) :
    EscapeSeq × TtyCtrl × List UInt8 :=
  let (param1, seq) := parseDecUint seq 0
  if seq.headD 0 = 'm'.toUInt8 then (es, setEscapeColor param1 ctrl, seq)
  else if seq.headD 0 = 'A'.toUInt8 then ({ es with currow := cursorUp es.currow param1 },
    ctrl, seq)
  else if seq.headD 0 = 'C'.toUInt8 then
    ({ es with curcol := cursorForward ctrl es.curcol param1 }, ctrl, seq)
  else if seq.headD 0 ≠ ';'.toUInt8 then (es, ctrl, seq)
  else
    let (param2, seq) := parseDecUint seq.tail 0
    if seq.headD 0 = 'H'.toUInt8 ∨ seq.headD 0 = 'f'.toUInt8 then
      let curcol := sub32 param2 1
      let currow := sub32 param1 1
      ({ es with
        curcol := curcol
        currow := currow
        startc := startFrom curcol es.startc
        startr := startFrom currow es.startr }, ctrl, seq)
    else if seq.headD 0 = 'm'.toUInt8 then
      (es, setEscapeColor param2 (setEscapeColor param1 ctrl), seq)
    else (es, ctrl, seq)

def parseEscapeControlSequence (es : EscapeSeq) (t : Terminal) (seq : List UInt8) :
    Option (EscapeSeq × Terminal) :=
  let c := seq.headD 0
  if c = 'H'.toUInt8 then
    some (⟨es.iter + 1, 0, 0, 0, 0⟩, t)
  else if c = 'J'.toUInt8 then do
    let t ← ttyClearBuf t
    return ({ es with iter := es.iter + 1 }, t)
  else if c = 'm'.toUInt8 then
    some ({ es with iter := es.iter + 1 },
      { t with ctrl := ttySetColor (toSigned t.ctrl.defaultColor) (-1) t.ctrl })
  else
    let (es, ctrl, last) := parseParameters es t.ctrl seq
    some ({ es with iter := es.iter + (seq.length - last.length) + 1 }, { t with ctrl := ctrl })

def parseEscapeSequence (es : EscapeSeq) (t : Terminal) (seq : List UInt8) :
    Option (EscapeSeq × Terminal) :=
  if seq.headD 0 = '['.toUInt8 then
    parseEscapeControlSequence { es with iter := es.iter + 1 } t seq.tail
  else some (es, t)

/-! ## Writing -/

/-- The local variables of `tty_write`. -/
structure Writer where
  i : Nat
  startc : Nat
  startr : Nat
  curCol : Nat
  curRow : Nat
  dofullupdate : Bool
deriving DecidableEq

/-- What one byte does, before wrapping and scrolling. -/
def putChar (text : List UInt8) (w : Writer) (t : Terminal) : Option (Writer × Terminal) :=
  let character := text.getD w.i 0
  if character = 10 ∨ character = 13 then
    some ({ w with curCol := 0, curRow := add32 w.curRow 1 }, t)
  else if character = 9 then
    some ({ w with curCol := add32 w.curCol 4 }, t)
  else if character = 27 then do
    let (es, t) ← parseEscapeSequence ⟨w.i, w.curCol, w.curRow, w.startc, w.startr⟩ t
      (text.drop (w.i + 1))
    return (⟨es.iter, es.startc, es.startr, es.curcol, es.currow, w.dofullupdate⟩, t)
  else if character = 8 then
    if w.curCol ≠ 0 then do
      let t ← ttyClearCell t (sub32 w.curCol 1) w.curRow
      return ({ w with curCol := sub32 w.curCol 1 }, t)
    else some (w, t)
  else do
    let t ← t.storeCell w.curCol w.curRow character
    return ({ w with curCol := add32 w.curCol 1 }, t)

/-- The end of the loop body: a line that is full is wrapped, a full screen scrolls. -/
def settle (w : Writer) (t : Terminal) : Option (Writer × Terminal) :=
  let w := if t.ctrl.colMax ≤ w.curCol then
    { w with curCol := 0, curRow := add32 w.curRow 1 } else w
  if t.ctrl.rowMax ≤ w.curRow then do
    let t ← ttyScroll t
    return ({ w with curCol := 0, curRow := sub32 w.curRow 1, dofullupdate := true }, t)
  else some (w, t)

def writeChar (text : List UInt8) (w : Writer) (t : Terminal) : Option (Writer × Terminal) := do
  let (w, t) ← putChar text w t
  settle w t

/-- The loop over the bytes; every round advances `i`, so that `n` rounds are enough. -/
def writeLoop (text : List UInt8) (n : Nat) (fuel : Nat) (w : Writer) (t : Terminal) :
    Option (Writer × Terminal) :=
  match fuel with
  | 0 => some (w, t)
  | fuel + 1 =>
    if w.i < n then do
      let (w, t) ← writeChar text w t
      writeLoop text n fuel { w with i := w.i + 1 } t
    else some (w, t)

/-- The local variables before the first round. -/
def Writer.init (t : Terminal) (col row : Int) : Writer :=
  let curCol := if col = -1 ∨ row = -1 then t.dev.cCol else ofSigned col
  let curRow := if col = -1 ∨ row = -1 then t.dev.cRow else ofSigned row
  ⟨0, curCol, curRow, curCol, curRow, false⟩

/-- The redraw at the end, of the whole screen if it has scrolled. -/
def redraw (w : Writer) (t : Terminal) : Option Terminal := if w.dofullupdate then
    ttyUpdateDisplay t 0 0 (sub32 t.ctrl.colMax 1) (sub32 t.ctrl.rowMax 1)
  else ttyUpdateDisplay t w.startc w.startr w.curCol w.curRow

def ttyWrite (t : Terminal) (text : List UInt8) (n : Nat) (col row : Int) :
    Option (Int × Terminal) :=
  if t.dev.disabled ≠ 0 then some (0, t)
  else do
    let (w, t) ← writeLoop text n n (Writer.init t col row) t
    let t := if col = -1 ∨ row = -1 then t.setCursor w.curCol w.curRow else t
    let t ← redraw w t
    return (toSigned (add32 w.i 1), t)

end Yanix.Tty
