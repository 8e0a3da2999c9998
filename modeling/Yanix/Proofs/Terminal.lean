/-
Module: Yanix.Proofs.Terminal
Purpose: The terminal stays inside its cell buffer unless an escape sequence moves the cursor
  below the screen.
-/
import Yanix.Foundation.Loops
import Yanix.Tty.TtyDev

namespace Yanix.Tty

open Foundation List Option

/-- A screen with its cell buffer, whose places are `int` values. -/
structure Sized (t : Terminal) : Prop where
  cols : 1 ≤ t.ctrl.colMax
  rows : 1 ≤ t.ctrl.rowMax
  cells : t.dev.buffer.length = t.ctrl.colMax * t.ctrl.rowMax * 2
  small : t.ctrl.colMax * t.ctrl.rowMax * 2 ≤ 2 ^ 31

/-- The screen has kept its size. -/
structure SameSize (t t' : Terminal) : Prop where
  cols : t'.ctrl.colMax = t.ctrl.colMax
  rows : t'.ctrl.rowMax = t.ctrl.rowMax
  cells : t'.dev.buffer.length = t.dev.buffer.length

theorem SameSize.refl (t : Terminal) : SameSize t t := ⟨rfl, rfl, rfl⟩

theorem SameSize.trans {t t' t'' : Terminal} (first : SameSize t t') (second : SameSize t' t'') :
    SameSize t t'' :=
  ⟨second.cols.trans first.cols, second.rows.trans first.rows, second.cells.trans first.cells⟩

variable {col row param1 param2 : Nat} {ctrl : TtyCtrl} {es : EscapeSeq} {Safe : Prop}
  {seq : List UInt8} {w : Writer}

section

variable {t t' : Terminal}

theorem Sized.of_sameSize (sized : Sized t) (same : SameSize t t') : Sized t' := by
  refine ⟨?_, ?_, ?_, ?_⟩
  · rw [same.cols]
    exact sized.cols
  · rw [same.rows]
    exact sized.rows
  · rw [same.cols, same.rows, same.cells]
    exact sized.cells
  · rw [same.cols, same.rows]
    exact sized.small

theorem Sized.max_le (sized : Sized t) : t.ctrl.colMax ≤ 2 ^ 30 ∧ t.ctrl.rowMax ≤ 2 ^ 30 := by
  have lt := sized.small
  have cols : t.ctrl.colMax * 1 ≤ t.ctrl.colMax * t.ctrl.rowMax := Nat.mul_le_mul_left _ sized.rows
  have rows : 1 * t.ctrl.rowMax ≤ t.ctrl.colMax * t.ctrl.rowMax := Nat.mul_le_mul_right _ sized.cols
  omega

theorem Sized.cellLoc_eq (sized : Sized t) (colBound : col ≤ t.ctrl.colMax)
    (rowBound : row < t.ctrl.rowMax) :
    cellLoc t.ctrl col row = (t.ctrl.colMax * row + col) * 2 ∧
      (t.ctrl.colMax * row + col) * 2 ≤ t.dev.buffer.length := by
  have whole : t.ctrl.colMax * row + col ≤ t.ctrl.colMax * t.ctrl.rowMax := by
    calc t.ctrl.colMax * row + col ≤ t.ctrl.colMax * row + t.ctrl.colMax :=
          Nat.add_le_add_left colBound _
      _ = t.ctrl.colMax * (row + 1) := (Nat.mul_succ ..).symm
      _ ≤ t.ctrl.colMax * t.ctrl.rowMax := Nat.mul_le_mul_left _ rowBound
  have lt := sized.small
  have cells := sized.cells
  refine ⟨?_, by omega⟩
  unfold cellLoc
  rw [mul32_of_lt (a := t.ctrl.colMax) (by omega), add32_of_lt (by omega), mul32_of_lt]
  · rfl
  · change _ * 2 < _
    omega

theorem Sized.cellLoc_lt (sized : Sized t) (colBound : col < t.ctrl.colMax)
    (rowBound : row < t.ctrl.rowMax) :
    toSigned (cellLoc t.ctrl col row) = (cellLoc t.ctrl col row : Int) ∧
      cellLoc t.ctrl col row + 1 < t.dev.buffer.length := by
  obtain ⟨loc, -⟩ := sized.cellLoc_eq colBound.le rowBound
  obtain ⟨-, next⟩ := sized.cellLoc_eq (Nat.succ_le_of_lt colBound) rowBound
  have lt := sized.small
  have cells := sized.cells
  rw [loc]
  exact ⟨toSigned_of_lt (by omega), by omega⟩

theorem cellLoc_even (ctrl : TtyCtrl) (col row : Nat) : cellLoc ctrl col row % 2 = 0 := by
  unfold cellLoc mul32 charSize colorbitSize
  omega

theorem store_ok {l : Nat} (lt : l < t.dev.buffer.length) (v : UInt8) :
    ∃ t', t.store l v = some t' ∧ SameSize t t' ∧ t'.ctrl = t.ctrl := by
  obtain ⟨buffer, stored, len⟩ := Buffer.store_inside lt v
  refine ⟨{ t with dev := { t.dev with buffer := buffer } }, ?_, ⟨rfl, rfl, len⟩, rfl⟩
  simp [Terminal.store, stored]

/-! ## Redraw, scroll and clear -/

theorem drawCell_ok {i : Nat} (lt : i + 1 < t.dev.buffer.length) :
    ∃ t', drawCell t i = some t' ∧ t'.dev = t.dev ∧ t'.ctrl = t.ctrl := by
  have colorbit := getElem?_eq_getElem lt
  have c := getElem?_eq_getElem (Nat.lt_of_succ_lt lt)
  unfold drawCell
  rw [colorbit, c]
  simp only [bind_eq_bind, bind_some]
  split
  · exact ⟨_, rfl, rfl, rfl⟩
  split
  · exact ⟨_, rfl, rfl, rfl⟩
  · exact ⟨_, rfl, rfl, rfl⟩

theorem ttyUpdateDisplay_ok (startcol startrow : Nat) {endcol endrow : Nat}
    (le : cellLoc t.ctrl endcol endrow ≤ t.dev.buffer.length) :
    ∃ t', ttyUpdateDisplay t startcol startrow endcol endrow = some t' ∧ t'.dev = t.dev ∧
      t'.ctrl = t.ctrl := by
  have evenStart := cellLoc_even t.ctrl startcol startrow
  have evenEnd := cellLoc_even t.ctrl endcol endrow
  unfold ttyUpdateDisplay
  simp only [charSize, colorbitSize, Nat.reduceAdd, Nat.reduceSub]
  generalize cellLoc t.ctrl startcol startrow = startloc at *
  generalize cellLoc t.ctrl endcol endrow = endloc at *
  obtain ⟨t', drawn, dev, ctrl⟩ := foldlM_range_invariant
    (n := (endloc - startloc + 1) / 2) (f := fun t k => drawCell t (startloc + k * 2))
    (fun _ s => s.dev = t.dev ∧ s.ctrl = t.ctrl) (a := t) ⟨rfl, rfl⟩ (by
      rintro k s round ⟨dev, ctrl⟩
      have here : startloc + k * 2 + 1 < s.dev.buffer.length := by
        rw [dev]
        omega
      obtain ⟨s', drawn, dev', ctrl'⟩ := drawCell_ok here
      exact ⟨s', drawn, dev'.trans dev, ctrl'.trans ctrl⟩)
  rw [drawn]
  exact ⟨_, rfl, dev, ctrl⟩

theorem ttyScroll_ok (sized : Sized t) :
    ∃ t', ttyScroll t = some t' ∧ SameSize t t' ∧ t'.ctrl = t.ctrl := by
  have cols := sized.cols
  have rows := sized.rows
  have small := sized.small
  have cells := sized.cells
  obtain ⟨colsLe, rowsLe⟩ := sized.max_le
  have rowsize : mul32 t.ctrl.colMax (colorbitSize + charSize) = t.ctrl.colMax * 2 :=
    mul32_of_lt (by change _ * 2 < _; omega)
  have wholeRow : ∀ k, k < t.ctrl.rowMax → mul32 k (t.ctrl.colMax * 2) = k * (t.ctrl.colMax * 2) ∧
      k * (t.ctrl.colMax * 2) + t.ctrl.colMax * 2 ≤ t.dev.buffer.length := by
    intro k lt
    have fits : (k + 1) * (t.ctrl.colMax * 2) ≤ t.ctrl.rowMax * (t.ctrl.colMax * 2) :=
      Nat.mul_le_mul_right _ lt
    have whole : t.ctrl.rowMax * (t.ctrl.colMax * 2) = t.dev.buffer.length := by
      rw [cells]
      ring
    rw [Nat.succ_mul, whole] at fits
    exact ⟨mul32_of_lt (by omega), fits⟩
  obtain ⟨moved, copied, len⟩ := foldlM_range_invariant (n := t.ctrl.rowMax - 1)
    (f := fun buffer k => Buffer.copyWithin buffer (mul32 k (t.ctrl.colMax * 2))
      (mul32 (k + 1) (t.ctrl.colMax * 2)) (t.ctrl.colMax * 2))
    (fun _ buffer => buffer.length = t.dev.buffer.length) (a := t.dev.buffer) rfl (by
      intro k buffer round len
      obtain ⟨target, targetFits⟩ := wholeRow k (by omega)
      obtain ⟨source, sourceFits⟩ := wholeRow (k + 1) (by omega)
      rw [target, source]
      rw [← len] at targetFits sourceFits
      obtain ⟨buffer', copied, len'⟩ := Buffer.copyWithin_inside targetFits sourceFits
      exact ⟨buffer', copied, len'.trans len⟩)
  have last : sub32 t.ctrl.rowMax 1 = t.ctrl.rowMax - 1 := sub32_of_le rows (by omega)
  obtain ⟨place, fits⟩ := wholeRow (t.ctrl.rowMax - 1) (by omega)
  rw [← len] at fits
  obtain ⟨cleared, filled, len'⟩ := Buffer.fill_inside fits 0
  unfold ttyScroll
  simp only [rowsize, copied, last, place, filled, bind_eq_bind, bind_some]
  exact ⟨_, rfl, ⟨rfl, rfl, len'.trans len⟩, rfl⟩

theorem ttyClearCell_ok (sized : Sized t) (colBound : col + 1 < t.ctrl.colMax)
    (rowBound : row < t.ctrl.rowMax) : ∃ t', ttyClearCell t col row = some t' ∧ SameSize t t' := by
  obtain ⟨index, lt⟩ := sized.cellLoc_lt (Nat.lt_of_succ_lt colBound) rowBound
  obtain ⟨t1, stored, same, ctrl⟩ := store_ok (Nat.lt_of_succ_lt lt) 32
  obtain ⟨colsLe, -⟩ := sized.max_le
  have next : add32 col 1 = col + 1 := add32_of_lt (by omega)
  obtain ⟨end', endInside⟩ := sized.cellLoc_eq colBound.le rowBound
  have display : cellLoc t1.ctrl (col + 1) row ≤ t1.dev.buffer.length := by
    rw [ctrl, same.cells, end']
    exact endInside
  obtain ⟨t2, drawn, dev, ctrl2⟩ := ttyUpdateDisplay_ok col row display
  unfold ttyClearCell
  rw [index, stored, next]
  refine ⟨t2, drawn, ?_, ?_, ?_⟩
  · rw [ctrl2, ctrl]
  · rw [ctrl2, ctrl]
  · rw [dev, same.cells]

theorem Sized.fullRedraw (sized : Sized t) :
    cellLoc t.ctrl (sub32 t.ctrl.colMax 1) (sub32 t.ctrl.rowMax 1) ≤ t.dev.buffer.length := by
  have cols := sized.cols
  have rows := sized.rows
  obtain ⟨colsLe, rowsLe⟩ := sized.max_le
  rw [sub32_of_le cols (by omega), sub32_of_le rows (by omega)]
  obtain ⟨loc, lt⟩ := sized.cellLoc_eq (Nat.sub_le t.ctrl.colMax 1)
    (show t.ctrl.rowMax - 1 < t.ctrl.rowMax by omega)
  rw [loc]
  exact lt

theorem storeCell_ok (sized : Sized t) (colBound : col < t.ctrl.colMax)
    (rowBound : row < t.ctrl.rowMax) (c : UInt8) :
    ∃ t', t.storeCell col row c = some t' ∧ SameSize t t' ∧ t'.ctrl = t.ctrl := by
  obtain ⟨index, lt⟩ := sized.cellLoc_lt colBound rowBound
  obtain ⟨t1, stored1, same1, ctrl1⟩ := store_ok (Nat.lt_of_succ_lt lt) c
  have lt' : cellLoc t.ctrl col row + 1 < t1.dev.buffer.length := by
    rw [same1.cells]
    exact lt
  obtain ⟨t2, stored2, same2, ctrl2⟩ := store_ok lt' (UInt8.ofNat t1.ctrl.color)
  refine ⟨t2, ?_, same1.trans same2, ctrl2.trans ctrl1⟩
  unfold Terminal.storeCell
  rw [index]
  simp only [stored1, bind_eq_bind, bind_some]
  exact stored2

theorem ttyClearBuf_ok (sized : Sized t) : ∃ t', ttyClearBuf t = some t' ∧ SameSize t t' := by
  obtain ⟨cleared, loops, same, -⟩ := foldlM_range_invariant (n := t.ctrl.colMax)
    (f := fun t i => (List.range t.ctrl.rowMax).foldlM (fun t j => t.storeCell i j 32) t)
    (fun _ s => SameSize t s ∧ s.ctrl = t.ctrl) (a := t) ⟨.refl t, rfl⟩ (by
      rintro i s column ⟨same, ctrl⟩
      apply foldlM_range_invariant (fun _ s => SameSize t s ∧ s.ctrl = t.ctrl) ⟨same, ctrl⟩
      rintro j s' line ⟨same', ctrl'⟩
      rw [← ctrl'] at column
      rw [ctrl, ← ctrl'] at line
      obtain ⟨t2, stored, same2, ctrl2⟩ := storeCell_ok (sized.of_sameSize same') column line 32
      exact ⟨t2, stored, same'.trans same2, ctrl2.trans ctrl'⟩)
  have home : SameSize cleared (cleared.setCursor 0 0) := ⟨rfl, rfl, rfl⟩
  obtain ⟨t', drawn, dev, ctrl⟩ :=
    ttyUpdateDisplay_ok 0 0 ((sized.of_sameSize same).of_sameSize home).fullRedraw
  refine ⟨t', ?_, (same.trans home).trans ⟨?_, ?_, ?_⟩⟩
  · unfold ttyClearBuf
    rw [loops, bind_eq_bind, bind_some]
    exact drawn
  · rw [ctrl]
  · rw [ctrl]
  · rw [dev]

/-! ## One byte -/

/-- The row after a column behind the screen was wrapped. -/
def landing (ctrl : TtyCtrl) (col row : Nat) : Nat := if ctrl.colMax ≤ col then add32 row 1 else row

theorem landing_of_lt (lt : col < ctrl.colMax) (row : Nat) : landing ctrl col row = row :=
  if_neg (Nat.not_le.mpr lt)

theorem landing_le (onScreen : row < ctrl.rowMax) (small : ctrl.rowMax ≤ 2 ^ 30) (col : Nat) :
    landing ctrl col row ≤ ctrl.rowMax := by
  unfold landing add32
  split <;> omega

/-- The end of the loop body brings the column back always, and the row if the cursor is at
most one row below the screen. -/
theorem settle_ok (sized : Sized t) (range : w.curRow < 2 ^ 32) :
    ∃ w' t', settle w t = some (w', t') ∧ SameSize t t' ∧ w'.i = w.i ∧
      w'.curCol < t.ctrl.colMax ∧ w'.curRow < 2 ^ 32 ∧
      (w'.curRow < t.ctrl.rowMax ↔ landing t.ctrl w.curCol w.curRow ≤ t.ctrl.rowMax) := by
  have cols := sized.cols
  have rows := sized.rows
  obtain ⟨v, wrapped, row, column, same⟩ : ∃ v, (if t.ctrl.colMax ≤ w.curCol then
      { w with curCol := 0, curRow := add32 w.curRow 1 } else w) = v ∧
      v.curRow = landing t.ctrl w.curCol w.curRow ∧ v.curCol < t.ctrl.colMax ∧ v.i = w.i := by
    refine ⟨_, rfl, ?_⟩
    unfold landing
    split
    · exact ⟨rfl, cols, rfl⟩
    · exact ⟨rfl, by omega, rfl⟩
  have landed : v.curRow < 2 ^ 32 := by
    rw [row]
    unfold landing
    split
    · exact add32_lt ..
    · exact range
  unfold settle
  simp only [wrapped]
  rw [← row]
  split
  next lt =>
    obtain ⟨t', scrolled, same', -⟩ := ttyScroll_ok sized
    have up : sub32 v.curRow 1 = v.curRow - 1 := sub32_of_le (by omega) landed
    rw [scrolled]
    refine ⟨_, t', rfl, same', same, cols, ?_, ?_⟩
    · exact sub32_lt ..
    · change sub32 v.curRow 1 < _ ↔ _
      omega
  next onScreen =>
    refine ⟨v, t, rfl, .refl t, same, column, landed, ?_⟩
    omega

/-- `ESC [ param1 A` leaves the cursor at most one row below the screen: it goes up at most twice to
the top, or so far that the row comes round again. -/
def UpSafe (ctrl : TtyCtrl) (row param1 : Nat) : Prop :=
  param1 ≤ 2 * row ∨ 2 ^ 32 + row ≤ param1 + ctrl.rowMax

/-- `ESC [ param1 ; param2 H` names a place on the screen or in the row below it; a column
outside counts as one row more. -/
def PlaceSafe (ctrl : TtyCtrl) (param1 param2 : Nat) : Prop :=
  if 1 ≤ param2 ∧ param2 ≤ ctrl.colMax then 1 ≤ param1 ∧ param1 ≤ ctrl.rowMax + 1
  else param1 ≤ ctrl.rowMax

def ParametersSafe (ctrl : TtyCtrl) (row : Nat) (seq : List UInt8) : Prop :=
  let first := parseDecUint seq 0
  let second := parseDecUint first.2.tail 0
  (first.2.headD 0 = 'A'.toUInt8 → UpSafe ctrl row first.1) ∧
  (first.2.headD 0 = ';'.toUInt8 → second.2.headD 0 = 'H'.toUInt8 ∨ second.2.headD 0 = 'f'.toUInt8 →
    PlaceSafe ctrl first.1 second.1)

/-- What follows an escape character does not move the cursor off the screen. -/
def MoveSafe (ctrl : TtyCtrl) (row : Nat) (seq : List UInt8) : Prop :=
  seq.headD 0 = '['.toUInt8 → ParametersSafe ctrl row seq.tail

theorem parseDecUint_lt (str : List UInt8) {num : Nat} (range : num < 2 ^ 32) :
    (parseDecUint str num).1 < 2 ^ 32 := by
  induction str generalizing num with
  | nil => exact range
  | cons c str ih =>
    unfold parseDecUint
    split
    · exact range
    · exact ih (add32_lt ..)

/-- Colours do not change the size of the screen. -/
def SameScreen (ctrl ctrl' : TtyCtrl) : Prop :=
  ctrl'.colMax = ctrl.colMax ∧ ctrl'.rowMax = ctrl.rowMax

theorem SameScreen.trans {ctrl' ctrl'' : TtyCtrl} (first : SameScreen ctrl ctrl')
    (second : SameScreen ctrl' ctrl'') : SameScreen ctrl ctrl'' :=
  ⟨second.1.trans first.1, second.2.trans first.2⟩

theorem ttySetColor_sameScreen (fg bg : Int) (ctrl : TtyCtrl) :
    SameScreen ctrl (ttySetColor fg bg ctrl) := by
  unfold ttySetColor
  simp only
  split <;> split <;> exact ⟨rfl, rfl⟩

theorem escapeColor_sameScreen (escapecolor : Int) (ctrl : TtyCtrl) :
    SameScreen ctrl (escapeColor escapecolor ctrl).2 := by
  unfold escapeColor
  split <;> exact ⟨rfl, rfl⟩

theorem setEscapeColor_sameScreen (param : Nat) (ctrl : TtyCtrl) :
    SameScreen ctrl (setEscapeColor param ctrl) := by
  have colour : SameScreen ctrl (escapeToTtyColor (toSigned param) ctrl).2 := by
    unfold escapeToTtyColor
    split
    · exact escapeColor_sameScreen _ { ctrl with bold := 0 }
    · exact escapeColor_sameScreen _ ctrl
  exact colour.trans (ttySetColor_sameScreen ..)

/-- What an escape sequence does to the cursor, as far as the screen is concerned. -/
structure Moved (ctrl : TtyCtrl) (es es' : EscapeSeq) (Safe : Prop) : Prop where
  iter : es.iter ≤ es'.iter
  range : es'.currow < 2 ^ 32
  landing : landing ctrl es'.curcol es'.currow ≤ ctrl.rowMax ↔ Safe

theorem Moved.in_row {es' : EscapeSeq} (onScreen : es.currow < ctrl.rowMax)
    (small : ctrl.rowMax ≤ 2 ^ 30) (iter : es.iter ≤ es'.iter) (row : es'.currow = es.currow)
    (safe : Safe) : Moved ctrl es es' Safe := by
  refine ⟨iter, by omega, ?_⟩
  rw [iff_true_right safe, row]
  exact landing_le onScreen small _

theorem cursorUp_row (onScreen : row < ctrl.rowMax) (small : ctrl.rowMax ≤ 2 ^ 30)
    (range : param1 < 2 ^ 32) : cursorUp row param1 ≤ ctrl.rowMax ↔ UpSafe ctrl row param1 := by
  unfold UpSafe cursorUp
  by_cases negative : 2 ^ 31 ≤ sub32 row param1
  · rw [if_pos ((toSigned_neg_iff (sub32_lt ..)).mpr negative)]
    have above : row < param1 := by
      by_contra lt
      rw [sub32_of_le (not_lt.mp lt) (by omega)] at negative
      omega
    rw [sub32_of_lt above] at negative
    rw [sub32_of_le above.le range]
    by_cases twice : param1 - row ≤ row
    · rw [sub32_of_le twice (by omega)]
      omega
    · rw [sub32_of_lt (not_le.mp twice)]
      omega
  · rw [if_neg (mt (toSigned_neg_iff (sub32_lt ..)).mp negative)]
    by_cases above : row < param1
    · rw [sub32_of_lt above] at negative ⊢
      omega
    · rw [sub32_of_le (not_lt.mp above) (by omega)]
      omega

theorem cursorTo_landing (cols : ctrl.colMax ≤ 2 ^ 30) (rows : ctrl.rowMax ≤ 2 ^ 30)
    (range1 : param1 < 2 ^ 32) (range2 : param2 < 2 ^ 32) :
    landing ctrl (sub32 param2 1) (sub32 param1 1) ≤ ctrl.rowMax ↔
      PlaceSafe ctrl param1 param2 := by
  unfold landing sub32 add32 PlaceSafe
  split <;> split <;> omega

theorem Moved.forward (onScreen : es.currow < ctrl.rowMax) (small : ctrl.rowMax ≤ 2 ^ 30)
    (col : Nat) (safe : Safe) : Moved ctrl es { es with curcol := col } Safe :=
  .in_row onScreen small le_rfl rfl safe

theorem Moved.up (column : es.curcol < ctrl.colMax) (onScreen : es.currow < ctrl.rowMax)
    (rows : ctrl.rowMax ≤ 2 ^ 30) (range : param1 < 2 ^ 32)
    (safe : Safe ↔ UpSafe ctrl es.currow param1) :
    Moved ctrl es { es with currow := cursorUp es.currow param1 } Safe := by
  constructor
  · dsimp only
    exact le_rfl
  · dsimp only
    rw [cursorUp]
    exact sub32_lt ..
  · dsimp only
    rw [safe, landing_of_lt column]
    exact cursorUp_row onScreen rows range

theorem Moved.place (cols : ctrl.colMax ≤ 2 ^ 30) (rows : ctrl.rowMax ≤ 2 ^ 30)
    (range1 : param1 < 2 ^ 32) (range2 : param2 < 2 ^ 32)
    (safe : Safe ↔ PlaceSafe ctrl param1 param2) (startc startr : Nat) :
    Moved ctrl es { es with
      curcol := sub32 param2 1, currow := sub32 param1 1, startc := startc, startr := startr }
      Safe := by
  constructor
  · dsimp only
    exact le_rfl
  · dsimp only
    exact sub32_lt ..
  · dsimp only
    rw [safe]
    exact cursorTo_landing cols rows range1 range2

theorem ParametersSafe.of_head (notUp : (parseDecUint seq 0).2.headD 0 ≠ 'A'.toUInt8)
    (notPlace : (parseDecUint seq 0).2.headD 0 ≠ ';'.toUInt8) : ParametersSafe ctrl row seq :=
  ⟨fun up => absurd up notUp, fun place => absurd place notPlace⟩

theorem parseParameters_moved (seq : List UInt8) (column : es.curcol < ctrl.colMax)
    (onScreen : es.currow < ctrl.rowMax) (cols : ctrl.colMax ≤ 2 ^ 30)
    (rows : ctrl.rowMax ≤ 2 ^ 30) :
    Moved ctrl es (parseParameters es ctrl seq).1 (ParametersSafe ctrl es.currow seq) ∧
    SameScreen ctrl (parseParameters es ctrl seq).2.1 := by
  have range1 := parseDecUint_lt seq (show 0 < 2 ^ 32 by decide)
  have range2 := parseDecUint_lt (parseDecUint seq 0).2.tail (show 0 < 2 ^ 32 by decide)
  unfold parseParameters
  dsimp only
  split
  next color =>
    refine ⟨.in_row onScreen rows le_rfl rfl (.of_head ?_ ?_), setEscapeColor_sameScreen ..⟩
    · rw [color]
      decide
    · rw [color]
      decide
  next color =>
  split
  next up =>
    have notPlace : (parseDecUint seq 0).2.headD 0 ≠ ';'.toUInt8 := by
      rw [up]
      decide
    have safe : ParametersSafe ctrl es.currow seq ↔ UpSafe ctrl es.currow (parseDecUint seq 0).1 :=
      ⟨fun h => h.1 up, fun h => ⟨fun _ => h, fun place => absurd place notPlace⟩⟩
    exact ⟨.up column onScreen rows range1 safe, rfl, rfl⟩
  next up =>
  split
  next forward =>
    refine ⟨.forward onScreen rows _ (.of_head up ?_), rfl, rfl⟩
    rw [forward]
    decide
  next forward =>
  split
  next unknown => exact ⟨.in_row onScreen rows le_rfl rfl (.of_head up unknown), rfl, rfl⟩
  next another =>
  have separator := not_not.mp another
  split
  next place =>
    have safe : ParametersSafe ctrl es.currow seq ↔ PlaceSafe ctrl (parseDecUint seq 0).1
        (parseDecUint (parseDecUint seq 0).2.tail 0).1 :=
      ⟨fun h => h.2 separator place, fun h => ⟨fun ne => absurd ne up, fun _ _ => h⟩⟩
    exact ⟨.place cols rows range1 range2 safe .., rfl, rfl⟩
  next place =>
  have safe : ParametersSafe ctrl es.currow seq :=
    ⟨fun ne => absurd ne up, fun _ ne => absurd ne place⟩
  split
  next color =>
    exact ⟨.in_row onScreen rows le_rfl rfl safe,
      (setEscapeColor_sameScreen _ ctrl).trans (setEscapeColor_sameScreen ..)⟩
  next color => exact ⟨.in_row onScreen rows le_rfl rfl safe, rfl, rfl⟩

theorem ParametersSafe.of_letter {c : UInt8} (head : seq.headD 0 = c) (letter : '9'.toUInt8 < c)
    (notUp : c ≠ 'A'.toUInt8) (notPlace : c ≠ ';'.toUInt8) : ParametersSafe ctrl row seq := by
  cases seq with
  | nil =>
    subst head
    exact absurd letter (by decide)
  | cons c' rest =>
    obtain rfl : c' = c := head
    have parsed : parseDecUint (c' :: rest) 0 = (0, c' :: rest) := by
      rw [parseDecUint, if_pos (.inr letter)]
    apply ParametersSafe.of_head
    · rw [parsed]
      exact notUp
    · rw [parsed]
      exact notPlace

theorem parseEscapeControlSequence_ok (sized : Sized t) (es : EscapeSeq) (seq : List UInt8)
    (column : es.curcol < t.ctrl.colMax) (onScreen : es.currow < t.ctrl.rowMax) :
    ∃ es' t', parseEscapeControlSequence es t seq = some (es', t') ∧ SameSize t t' ∧
      Moved t.ctrl es es' (ParametersSafe t.ctrl es.currow seq) := by
  obtain ⟨cols, rows⟩ := sized.max_le
  unfold parseEscapeControlSequence
  dsimp only
  split
  next home =>
    refine ⟨_, t, rfl, .refl t, Nat.le_succ _, Nat.two_pow_pos 32, ?_⟩
    apply iff_of_true
    · simp only [Tty.landing]
      split <;> simp [add32]
      exact sized.rows
    · exact .of_letter home (by decide) (by decide) (by decide)
  next home =>
  split
  next clear =>
    obtain ⟨t', cleared, same⟩ := ttyClearBuf_ok sized
    rw [cleared]
    exact ⟨_, t', rfl, same, .in_row onScreen rows (Nat.le_succ _) rfl
      (.of_letter clear (by decide) (by decide) (by decide))⟩
  next clear =>
  split
  next color =>
    obtain ⟨sameCols, sameRows⟩ := ttySetColor_sameScreen (toSigned t.ctrl.defaultColor) (-1) t.ctrl
    exact ⟨_, _, rfl, ⟨sameCols, sameRows, rfl⟩, .in_row onScreen rows (Nat.le_succ _) rfl
      (.of_letter color (by decide) (by decide) (by decide))⟩
  next color =>
    obtain ⟨moved, sameCols, sameRows⟩ := parseParameters_moved seq column onScreen cols rows
    refine ⟨_, _, rfl, ⟨sameCols, sameRows, rfl⟩, ?_, moved.range, moved.landing⟩
    exact Nat.le_succ_of_le (Nat.le_add_right_of_le moved.iter)

theorem parseEscapeSequence_ok (sized : Sized t) (es : EscapeSeq) (seq : List UInt8)
    (column : es.curcol < t.ctrl.colMax) (onScreen : es.currow < t.ctrl.rowMax) :
    ∃ es' t', parseEscapeSequence es t seq = some (es', t') ∧ SameSize t t' ∧
      Moved t.ctrl es es' (MoveSafe t.ctrl es.currow seq) := by
  unfold parseEscapeSequence MoveSafe
  split
  next control =>
    obtain ⟨es', t', parsed, same, moved⟩ := parseEscapeControlSequence_ok sized
      { es with iter := es.iter + 1 } seq.tail column onScreen
    refine ⟨es', t', parsed, same, Nat.le_of_succ_le moved.iter, moved.range, ?_⟩
    rw [moved.landing]
    exact ⟨fun safe _ => safe, fun safe => safe control⟩
  next control =>
    exact ⟨es, t, rfl, .refl t, .in_row onScreen sized.max_le.2 le_rfl rfl
      fun ne => absurd ne control⟩

/-- What a byte does to the cursor, as far as the screen is concerned. -/
structure Put (ctrl : TtyCtrl) (w w' : Writer) (Safe : Prop) : Prop where
  advanced : w.i ≤ w'.i
  range : w'.curRow < 2 ^ 32
  landing : landing ctrl w'.curCol w'.curRow ≤ ctrl.rowMax ↔ Safe

theorem Put.in_row {w' : Writer} (onScreen : w.curRow < ctrl.rowMax) (small : ctrl.rowMax ≤ 2 ^ 30)
    (same : w'.i = w.i) (row : w'.curRow = w.curRow) (safe : Safe) : Put ctrl w w' Safe := by
  refine ⟨le_of_eq same.symm, by omega, ?_⟩
  rw [iff_true_right safe, row]
  exact landing_le onScreen small _

theorem Put.newline (cols : 1 ≤ ctrl.colMax) (onScreen : w.curRow < ctrl.rowMax)
    (small : ctrl.rowMax ≤ 2 ^ 30) (safe : Safe) :
    Put ctrl w { w with curCol := 0, curRow := add32 w.curRow 1 } Safe := by
  have next : add32 w.curRow 1 = w.curRow + 1 := add32_of_lt (by omega)
  rw [next]
  constructor
  · exact le_rfl
  · dsimp only
    omega
  · rw [iff_true_right safe]
    dsimp only [Tty.landing]
    rw [if_neg (Nat.not_le.mpr cols)]
    exact onScreen

/-- One byte at a cursor on the screen leaves it there or one row below, unless it starts a sequence
that does not. -/
theorem putChar_ok (sized : Sized t) (text : List UInt8) (column : w.curCol < t.ctrl.colMax)
    (onScreen : w.curRow < t.ctrl.rowMax) :
    ∃ w' t', putChar text w t = some (w', t') ∧ SameSize t t' ∧ Put t.ctrl w w'
        (text.getD w.i 0 = 27 → MoveSafe t.ctrl w.curRow (text.drop (w.i + 1))) := by
  obtain ⟨colsLe, rowsLe⟩ := sized.max_le
  unfold putChar
  dsimp only
  split
  next newline =>
    refine ⟨_, t, rfl, .refl t, .newline sized.cols onScreen rowsLe fun other => ?_⟩
    rw [other] at newline
    exact absurd newline (by decide)
  next newline =>
  split
  next tab =>
    refine ⟨_, t, rfl, .refl t, .in_row onScreen rowsLe rfl rfl fun other => ?_⟩
    exact absurd (tab.symm.trans other) (by decide)
  next tab =>
  split
  next escape =>
    obtain ⟨es', t', parsed, same, moved⟩ := parseEscapeSequence_ok sized
      ⟨w.i, w.curCol, w.curRow, w.startc, w.startr⟩ (text.drop (w.i + 1)) column onScreen
    rw [parsed]
    refine ⟨_, t', rfl, same, moved.iter, moved.range, ?_⟩
    rw [forall_prop_of_true escape]
    exact moved.landing
  next escape =>
  have noEscape (other : text.getD w.i 0 = 27) : MoveSafe t.ctrl w.curRow (text.drop (w.i + 1)) :=
    absurd other escape
  split
  next backspace =>
    split
    next behind =>
      have back : sub32 w.curCol 1 = w.curCol - 1 := sub32_of_le (by omega) (by omega)
      obtain ⟨t', cleared, same⟩ := ttyClearCell_ok sized
        (show w.curCol - 1 + 1 < t.ctrl.colMax by omega) onScreen
      rw [back, cleared]
      exact ⟨_, t', rfl, same, .in_row onScreen rowsLe rfl rfl noEscape⟩
    next front => exact ⟨w, t, rfl, .refl t, .in_row onScreen rowsLe rfl rfl noEscape⟩
  next backspace =>
    obtain ⟨t', stored, same, -⟩ := storeCell_ok sized column onScreen (text.getD w.i 0)
    rw [stored]
    exact ⟨_, t', rfl, same, .in_row onScreen rowsLe rfl rfl noEscape⟩

/-- One round of the loop from a cursor on the screen ends there exactly if the byte starts
no sequence that moves it off. -/
theorem writeChar_ok (sized : Sized t) (text : List UInt8) (column : w.curCol < t.ctrl.colMax)
    (onScreen : w.curRow < t.ctrl.rowMax) :
    ∃ w' t', writeChar text w t = some (w', t') ∧ SameSize t t' ∧ w.i ≤ w'.i ∧
      w'.curCol < t'.ctrl.colMax ∧
      (w'.curRow < t'.ctrl.rowMax ↔
        (text.getD w.i 0 = 27 → MoveSafe t.ctrl w.curRow (text.drop (w.i + 1)))) := by
  obtain ⟨w1, t1, stored, same1, put⟩ := putChar_ok sized text column onScreen
  obtain ⟨w2, t2, settled, same2, kept, column2, -, row2⟩ :=
    settle_ok (sized.of_sameSize same1) put.range
  have advanced := put.advanced
  refine ⟨w2, t2, ?_, same1.trans same2, by omega, ?_, ?_⟩
  · rw [writeChar, stored]
    exact settled
  · rw [same2.cols]
    exact column2
  · rw [same2.rows, row2, ← put.landing, landing, landing, same1.cols, same1.rows]

end

/-- The states in which a round of the loop may begin, and the one in which it ends. -/
inductive Reached (text : List UInt8) (n : Nat) (w0 : Writer) (t0 : Terminal) :
    Writer → Terminal → Prop
  | start : Reached text n w0 t0 w0 t0
  | round {w w' : Writer} {t t' : Terminal} (before : Reached text n w0 t0 w t) (more : w.i < n)
      (wrote : writeChar text w t = some (w', t')) :
      Reached text n w0 t0 { w' with i := w'.i + 1 } t'

/-- No escape sequence that the call comes to moves the cursor off the screen. -/
def SequencesSafe (t : Terminal) (text : List UInt8) (n : Nat) : Prop :=
  ∀ w t', Reached text n (Writer.init t (-1) (-1)) t w t' → w.i < n → text.getD w.i 0 = 27 →
    MoveSafe t'.ctrl w.curRow (text.drop (w.i + 1))

section

variable {text : List UInt8} {n : Nat} {w w' w'' : Writer} {t t' t'' : Terminal}

theorem Reached.after_round (more : w.i < n) (wrote : writeChar text w t = some (w', t'))
    (later : Reached text n { w' with i := w'.i + 1 } t' w'' t'') : Reached text n w t w'' t'' := by
  induction later with
  | start => exact .round .start more wrote
  | round _ more' wrote' lt => exact .round lt more' wrote'

theorem writeLoop_ok (fuel : Nat) (sized : Sized t) (column : w.curCol < t.ctrl.colMax)
    (onScreen : w.curRow < t.ctrl.rowMax)
    (safe : ∀ w' t', Reached text n w t w' t' → w'.i < n → text.getD w'.i 0 = 27 →
      MoveSafe t'.ctrl w'.curRow (text.drop (w'.i + 1))) :
    ∃ w' t', writeLoop text n fuel w t = some (w', t') ∧ SameSize t t' ∧
      w'.curCol < t'.ctrl.colMax ∧ w'.curRow < t'.ctrl.rowMax ∧ (n ≤ w.i + fuel → n ≤ w'.i) := by
  induction fuel generalizing w t with
  | zero => exact ⟨w, t, rfl, .refl t, column, onScreen, fun le => le⟩
  | succ fuel ih =>
    unfold writeLoop
    by_cases more : w.i < n
    · obtain ⟨w1, t1, wrote, same1, advanced, column1, row1⟩ :=
        writeChar_ok sized text column onScreen
      have onScreen1 := row1.mpr (safe w t .start more)
      obtain ⟨w2, t2, looped, same2, column2, onScreen2, done⟩ :=
        ih (w := { w1 with i := w1.i + 1 }) (sized.of_sameSize same1) column1 onScreen1
          fun w' t' lt => safe w' t' (lt.after_round more wrote)
      refine ⟨w2, t2, ?_, same1.trans same2, column2, onScreen2, fun le => done ?_⟩
      · rw [if_pos more, wrote]
        exact looped
      · dsimp only
        omega
    · rw [if_neg more]
      exact ⟨w, t, rfl, .refl t, column, onScreen, fun _ => not_lt.mp more⟩

theorem redraw_ok (sized : Sized t) (column : w.curCol < t.ctrl.colMax)
    (onScreen : w.curRow < t.ctrl.rowMax) :
    ∃ t', redraw w t = some t' ∧ t'.dev = t.dev ∧ t'.ctrl = t.ctrl := by
  unfold redraw
  split
  · exact ttyUpdateDisplay_ok 0 0 sized.fullRedraw
  obtain ⟨loc, lt⟩ := sized.cellLoc_eq column.le onScreen
  rw [← loc] at lt
  exact ttyUpdateDisplay_ok w.startc w.startr lt

theorem ttyWrite_ok (sized : Sized t) (column : t.dev.cCol < t.ctrl.colMax)
    (onScreen : t.dev.cRow < t.ctrl.rowMax) (safe : SequencesSafe t text n) :
    ∃ ret t', ttyWrite t text n (-1) (-1) = some (ret, t') ∧ SameSize t t' ∧
      t'.dev.cCol < t'.ctrl.colMax ∧ t'.dev.cRow < t'.ctrl.rowMax := by
  unfold ttyWrite
  split
  next disabled => exact ⟨0, t, rfl, .refl t, column, onScreen⟩
  next enabled =>
  obtain ⟨w, t1, looped, same1, column1, onScreen1, -⟩ := writeLoop_ok n sized column onScreen safe
  have same2 : SameSize t1 (t1.setCursor w.curCol w.curRow) := ⟨rfl, rfl, rfl⟩
  obtain ⟨t3, drawn, dev, ctrl⟩ :=
    redraw_ok ((sized.of_sameSize same1).of_sameSize same2) column1 onScreen1
  refine ⟨toSigned (add32 w.i 1), t3, ?_, (same1.trans same2).trans ⟨?_, ?_, ?_⟩, ?_, ?_⟩
  · simp only [looped, bind_eq_bind, bind_some, true_or, if_true, drawn]
    rfl
  · rw [ctrl]
  · rw [ctrl]
  · rw [dev]
  · rw [dev, ctrl]
    exact column1
  · rw [dev, ctrl]
    exact onScreen1

end

/-- Writes at the cursor, one after the other, each meeting the guard. -/
inductive TtyRun (Guard : Terminal → List UInt8 → Nat → Prop) : Terminal → Prop
  | start {t : Terminal} (sized : Sized t) (column : t.dev.cCol < t.ctrl.colMax)
      (onScreen : t.dev.cRow < t.ctrl.rowMax) : TtyRun Guard t
  | write {t t' : Terminal} {text : List UInt8} {n : Nat} {ret : Int} (before : TtyRun Guard t)
      (guard : Guard t text n) (wrote : ttyWrite t text n (-1) (-1) = some (ret, t')) :
      TtyRun Guard t'

/-- In every state reached by writes whose escape sequences are all safe, the cursor is on the
screen and the next such write stays inside the cell buffer. A single byte takes the cursor off the
screen exactly if it starts a sequence that is not safe. -/
theorem terminal_inside {t : Terminal} (run : TtyRun SequencesSafe t) :
    t.dev.cCol < t.ctrl.colMax ∧ t.dev.cRow < t.ctrl.rowMax ∧
    (∀ text n, SequencesSafe t text n → ∃ ret t', ttyWrite t text n (-1) (-1) = some (ret, t')) ∧
    (∀ text w, w.curCol < t.ctrl.colMax → w.curRow < t.ctrl.rowMax →
      ∃ w' t', writeChar text w t = some (w', t') ∧
        (w'.curCol < t'.ctrl.colMax ∧ w'.curRow < t'.ctrl.rowMax ↔
          (text.getD w.i 0 = 27 → MoveSafe t.ctrl w.curRow (text.drop (w.i + 1))))) := by
  obtain ⟨sized, column, onScreen⟩ : Sized t ∧ t.dev.cCol < t.ctrl.colMax ∧ t.dev.cRow <
      t.ctrl.rowMax := by
    induction run with
    | start sized column onScreen => exact ⟨sized, column, onScreen⟩
    | write _ guard wrote previous =>
      obtain ⟨sized, column, onScreen⟩ := previous
      obtain ⟨ret, t', wrote', same, lt⟩ := ttyWrite_ok sized column onScreen guard
      rw [wrote] at wrote'
      obtain ⟨-, rfl⟩ := Prod.mk.inj (some.inj wrote')
      exact ⟨sized.of_sameSize same, lt⟩
  refine ⟨column, onScreen, ?_, ?_⟩
  · intro text n safe
    obtain ⟨ret, t', wrote, -⟩ := ttyWrite_ok sized column onScreen safe
    exact ⟨ret, t', wrote⟩
  intro text w wColumn wOnScreen
  obtain ⟨w', t', wrote, -, -, column', row'⟩ := writeChar_ok sized text wColumn wOnScreen
  refine ⟨w', t', wrote, ?_⟩
  rw [← row']
  exact and_iff_right column'

/-- Four columns and two rows in text mode, with the cursor in the second row. -/
def smallScreen : Terminal where
  ctrl := ⟨4, 2, 0x0f, 0x0f, 0⟩
  dev := ⟨List.replicate 16 0, 0, 1, 0⟩
  video := ⟨true, 4, 2, id, []⟩

theorem smallScreen_sized : Sized smallScreen := ⟨by decide, by decide, rfl, by decide⟩

theorem terminal_inside_smallScreen :
    ∃ t ret, ttyWrite smallScreen [27, 91, 49, 65] 4 (-1) (-1) = some (ret, t) ∧
      TtyRun SequencesSafe t ∧ t.dev.cCol < t.ctrl.colMax ∧ t.dev.cRow < t.ctrl.rowMax := by
  have firstRound : (writeChar [27, 91, 49, 65] (Writer.init smallScreen (-1) (-1))
      smallScreen).map (fun p => p.1.i) = some 3 := rfl
  have reached : ∀ w t, Reached [27, 91, 49, 65] 4 (Writer.init smallScreen (-1) (-1)) smallScreen
      w t → w = Writer.init smallScreen (-1) (-1) ∧ t = smallScreen ∨ 4 ≤ w.i := by
    intro w t reached
    induction reached with
    | start => exact .inl ⟨rfl, rfl⟩
    | round _ more wrote previous =>
      obtain ⟨rfl, rfl⟩ | later := previous
      · rw [wrote] at firstRound
        exact .inr (Nat.succ_le_succ (Nat.le_of_eq (some.inj firstRound).symm))
      · exact absurd more (Nat.not_lt.mpr later)
  have safe : SequencesSafe smallScreen [27, 91, 49, 65] 4 := by
    intro w t h more _
    obtain ⟨rfl, rfl⟩ | later := reached w t h
    · exact fun _ => ⟨fun _ => .inl (by decide), fun place => absurd place (by decide)⟩
    · exact absurd more (Nat.not_lt.mpr later)
  have start : TtyRun SequencesSafe smallScreen := .start smallScreen_sized (by decide) (by decide)
  obtain ⟨ret, t, wrote⟩ := (terminal_inside start).2.2.1 _ _ safe
  have run := start.write safe wrote
  obtain ⟨column, onScreen, -⟩ := terminal_inside run
  exact ⟨t, ret, wrote, run, column, onScreen⟩

/-- `ESC [ 4 A` and a letter from the second row: the row comes out far below the screen, and
the letter is stored outside the buffer. -/
theorem terminal_inside_up_twice :
    Sized smallScreen ∧ smallScreen.dev.cCol < smallScreen.ctrl.colMax ∧
      smallScreen.dev.cRow < smallScreen.ctrl.rowMax ∧
      ttyWrite smallScreen [27, 91, 52, 65, 120] 5 (-1) (-1) = none := by
  refine ⟨smallScreen_sized, by decide, by decide, ?_⟩
  rfl

end Yanix.Tty
