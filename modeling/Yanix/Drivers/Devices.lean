/-
Module: Yanix.Drivers.Devices
Purpose: The base addresses that `kernel/drivers/pci/pci.c` reads, the time of
  `kernel/core/timer.c` and the modifiers and keymaps of `kernel/drivers/keyboard.c`, each beside
  what it stands for: the configuration space, the tick count, the keys held, the lines.
Trusted boundary: hand-translated from C
-/
import Yanix.Foundation.Bytes
import Mathlib.Data.List.Induction
import Mathlib.Data.Prod.Lex

namespace Yanix.Drivers

open Foundation List

/-! ## PCI base addresses -/

/-- What reading port `0xCFC` gives once an address word is written to `0xCF8`. -/
abbrev ConfigAccess := Nat → Nat

def makePciAddr (bus slot func offset : Nat) : Nat :=
  (bus <<< 16) ||| (slot <<< 11) ||| (func <<< 8) ||| (offset &&& 0xFC) ||| 0x80000000

def pciReadWord (config : ConfigAccess) (bus slot func offset : Nat) : Nat :=
  (config (makePciAddr bus slot func offset) >>> ((offset &&& 2) * 8)) &&& 0xFFFF

-- The two words make 32 bits, and the return type `uint16_t` keeps the lower half of them.
def pciGetBaseAddress (config : ConfigAccess) (bus device function address : Nat) : Nat :=
  ((pciReadWord config bus device function (0xf + address * 4) <<< 16) |||
    pciReadWord config bus device function (0xf + address * 4 + 2)) % 2 ^ 16

structure PciCommonHeader where
  BAR : Nat → Nat
  interruptPin : Nat
  interruptLine : Nat

def pciParseHeader (config : ConfigAccess) (bus slot function headerType : Nat) :
    Option PciCommonHeader :=
  if headerType = 0 then
    some
      { BAR := fun i => if i < 6 then pciGetBaseAddress config bus slot function i else 0
        interruptPin := pciReadWord config bus slot function 0x3E % 2 ^ 8
        interruptLine := pciReadWord config bus slot function 0x3C % 2 ^ 8 }
  else none

/-- Accesses to the function return the aligned dwords of its configuration `space`. -/
def Serves (config : ConfigAccess) (bus slot function : Nat) (space : Bytes) : Prop :=
  ∀ offset < 256, config (makePciAddr bus slot function offset) = load32 space (offset / 4 * 4)

section

variable {config : ConfigAccess} {bus slot function : Nat} {space : Bytes}

/-- The second word is the lower half of the register; the first is shifted out of the result. -/
theorem pciGetBaseAddress_eq (serves : Serves config bus slot function space) {i : Nat}
    (lt : i < 6) :
    pciGetBaseAddress config bus slot function i = load32 space (0x10 + 4 * i) % 2 ^ 16 := by
  have lower : ∀ i < 6, (0xf + i * 4 + 2) &&& 2 = 0 := by decide
  have aligned : (0xf + i * 4 + 2) / 4 * 4 = 0x10 + 4 * i := by omega
  have second : pciReadWord config bus slot function (0xf + i * 4 + 2) =
      load32 space (0x10 + 4 * i) % 2 ^ 16 := by
    unfold pciReadWord
    rw [serves _ (by omega), lower i lt, aligned, Nat.zero_mul, Nat.shiftRight_zero]
    exact Nat.and_two_pow_sub_one_eq_mod _ 16
  unfold pciGetBaseAddress
  rw [second, Nat.or_mod_two_pow, Nat.shiftLeft_eq, Nat.mul_mod_left, Nat.zero_or, Nat.mod_mod]

theorem pci_bars_iff (serves : Serves config bus slot function space) :
    (∃ header, pciParseHeader config bus slot function 0 = some header ∧
      ∀ i < 6, header.BAR i = load32 space (0x10 + 4 * i)) ↔
    ∀ i < 6, space (0x10 + 4 * i + 2) = 0 ∧ space (0x10 + 4 * i + 3) = 0 := by
  have register : ∀ i < 6, (pciGetBaseAddress config bus slot function i =
      load32 space (0x10 + 4 * i) ↔
      space (0x10 + 4 * i + 2) = 0 ∧ space (0x10 + 4 * i + 3) = 0) := by
    intro i lt
    rw [pciGetBaseAddress_eq serves lt, load32, ← UInt8.toNat_inj, ← UInt8.toNat_inj]
    have first := (space (0x10 + 4 * i)).toNat_lt
    have second := (space (0x10 + 4 * i + 1)).toNat_lt
    simp only [UInt8.toNat_zero]
    omega
  constructor
  · rintro ⟨header, parsed, exact⟩ i lt
    cases parsed
    exact (register i lt).mp ((if_pos lt).symm.trans (exact i lt))
  · intro small
    exact ⟨_, rfl, fun i lt => (if_pos lt).trans ((register i lt).mpr (small i lt))⟩

end

/-- A register with a set bit in its upper half: a memory base at 0xE0000000. -/
def highBar : Bytes := fun a => if a = 0x13 then 0xE0 else 0

def highBarAccess : ConfigAccess := fun word => load32 highBar (word % 256)

theorem pci_bars_iff_highBar : Serves highBarAccess 0 0 0 highBar ∧
    ¬ ∃ header, pciParseHeader highBarAccess 0 0 0 0 = some header ∧
      ∀ i < 6, header.BAR i = load32 highBar (0x10 + 4 * i) := by
  have serves : Serves highBarAccess 0 0 0 highBar := by
    unfold Serves
    decide +kernel
  exact ⟨serves, fun found => absurd ((pci_bars_iff serves).mp found 0 (by decide)).2 (by decide)⟩

theorem pci_bar_truncated : ¬ ∃ header, pciParseHeader highBarAccess 0 0 0 0 = some header ∧
    header.BAR 0 = load32 highBar 0x10 := by
  rintro ⟨header, parsed, same⟩
  cases parsed
  exact absurd same (by decide)

/-! ## Time since boot -/

/-- The pair (`*sec`, `*microsec`); `microsec` is what `*microsec` held before the call. -/
def timeSinceBoot (frequency count microsec : Nat) : Nat × Nat :=
  let ms := count % frequency
  (count / frequency, if ms ≠ 0 then 1000 / (frequency / ms) else microsec)

/-- At the tick counts of `counts` the reading is defined by the count and never runs back. -/
structure TimeDefined (frequency : Nat) (counts : Set Nat) : Prop where
  defined : ∀ n ∈ counts, ∃ microsec < 1000000,
    ∀ old, timeSinceBoot frequency n old = (n / frequency, microsec)
  ordered : ∀ n ∈ counts, ∀ m ∈ counts, n ≤ m → ∀ old old',
    toLex (timeSinceBoot frequency n old) ≤ toLex (timeSinceBoot frequency m old')

theorem timeSinceBoot_ordered {f n m : Nat} (low : 1 ≤ f) (first : n % f ≠ 0) (second : m % f ≠ 0)
    (le : n ≤ m) (old old' : Nat) :
    toLex (timeSinceBoot f n old) ≤ toLex (timeSinceBoot f m old') := by
  simp only [timeSinceBoot, if_pos first, if_pos second, Prod.Lex.toLex_le_toLex]
  obtain less | same := Nat.lt_or_eq_of_le (Nat.div_le_div_right (c := f) le)
  · exact .inl less
  -- within one second the ticks grow, so the inner quotient shrinks
  have ticks : n % f ≤ m % f := by
    have := Nat.div_add_mod n f
    have := Nat.div_add_mod m f
    rw [same] at *
    omega
  have inner : f / (m % f) ≤ f / (n % f) := Nat.div_le_div_left ticks (Nat.pos_of_ne_zero first)
  have pos : 0 < f / (m % f) := Nat.div_pos (Nat.mod_lt m low).le (Nat.pos_of_ne_zero second)
  exact .inr ⟨same, Nat.div_le_div_left inner pos⟩

theorem time_defined_iff (f : Nat) (low : 1 ≤ f) (counts : Set Nat) :
    TimeDefined f counts ↔ ∀ n ∈ counts, n % f ≠ 0 := by
  constructor
  · intro time n mem boundary
    obtain ⟨microsec, -, reading⟩ := time.defined n mem
    have kept (old : Nat) : old = microsec := by
      have := congrArg Prod.snd (reading old)
      simpa [timeSinceBoot, boundary] using this
    exact absurd ((kept 0).trans (kept 1).symm) (by decide)
  · intro lt
    refine ⟨fun n mem => ⟨1000 / (f / (n % f)), ?_, ?_⟩, fun n hn m hm => ?_⟩
    · exact (Nat.div_le_self 1000 _).trans_lt (by decide)
    · intro old
      simp [timeSinceBoot, lt n mem]
    · exact timeSinceBoot_ordered low (lt n hn) (lt m hm)

theorem time_defined_iff_ten :
    1 ≤ 10 ∧ (TimeDefined 10 {15, 37} ↔ ∀ n ∈ ({15, 37} : Set Nat), n % 10 ≠ 0) :=
  ⟨by decide, time_defined_iff 10 (by decide) _⟩

/-- At a full second the microseconds are whatever the buffer held before. -/
theorem time_boundary_keeps : timeSinceBoot 10 20 0 ≠ timeSinceBoot 10 20 500 := by decide

/-! ## Keyboard modifiers -/

/-- `struct key_mod`: its fields are 0 or 1. -/
structure KeyMod where
  ctrl : Bool := false
  shift : Bool := false
  alt : Bool := false
  altgr : Bool := false
  deriving DecidableEq

/-- The returned character (or −1) and `g_modifier` after the scancode. -/
def modifiers (scancode : Int) (g : KeyMod) : Int × KeyMod :=
  if scancode = 0xaa ∨ scancode = 0xb6 then (0, { g with shift := false })
  else if scancode = 0x2a ∨ scancode = 0x36 then (0, { g with shift := true })
  else if scancode = 0x3a then (0, { g with shift := !g.shift })
  else if scancode = 56 then (0, { g with altgr := true })
  else if scancode = 184 then (0, { g with altgr := false })
  else if scancode = 0x9D then (0, { g with ctrl := false })
  else if scancode = 0x1D then (0, { g with ctrl := true })
  else if scancode = 0xE then (8, g)
  else if scancode = 0x1C then (10, g)
  else (-1, g)

/-- `g_modifier` after a sequence of scancodes. -/
def modifiersRun (scancodes : List Int) : KeyMod :=
  scancodes.foldl (fun g scancode => (modifiers scancode g).2) {}

/-- The keyboard itself: the keys held; whether CapsLock was pressed an odd number of times, so far
and up to the last shift event; and whether that was a press. -/
structure Keys where
  left : Bool := false
  right : Bool := false
  ctrl : Bool := false
  altgr : Bool := false
  caps : Bool := false
  capsAtShift : Bool := false
  pressed : Bool := false

def Keys.held (k : Keys) : Bool := k.left || k.right

def Keys.event (k : Keys) (c : Int) : Keys :=
  if c = 0xaa ∨ c = 0xb6 then
    { k with
      left := k.left && c != 0xaa, right := k.right && c != 0xb6
      capsAtShift := k.caps, pressed := false }
  else if c = 0x2a ∨ c = 0x36 then
    { k with
      left := k.left || c == 0x2a, right := k.right || c == 0x36
      capsAtShift := k.caps, pressed := true }
  else if c = 0x3a then { k with caps := !k.caps }
  else if c = 56 then { k with altgr := true }
  else if c = 184 then { k with altgr := false }
  else if c = 0x9D then { k with ctrl := false }
  else if c = 0x1D then { k with ctrl := true }
  else k

def keysRun (scancodes : List Int) : Keys := scancodes.foldl Keys.event {}

/-- What the modifiers know of the keyboard: the last shift event and CapsLock since. -/
structure Knows (g : KeyMod) (k : Keys) : Prop where
  shift : g.shift = (k.pressed ^^ k.capsAtShift ^^ k.caps)
  ctrl : g.ctrl = k.ctrl
  altgr : g.altgr = k.altgr
  held : k.pressed = true → k.held = true

theorem Knows.event {g : KeyMod} {k : Keys} (knows : Knows g k) (scancode : Int) :
    Knows (modifiers scancode g).2 (k.event scancode) := by
  obtain ⟨shift, ctrl, altgr, held⟩ := knows
  unfold modifiers Keys.event
  split_ifs with released pressed
  · exact ⟨by simp, ctrl, altgr, nofun⟩
  · refine ⟨by simp, ctrl, altgr, fun _ => ?_⟩
    rcases pressed with rfl | rfl <;> simp [Keys.held]
  · exact ⟨by simp [shift], ctrl, altgr, held⟩
  all_goals exact ⟨shift, by first | rfl | exact ctrl, by first | rfl | exact altgr, held⟩

theorem modifiersRun_knows (scancodes : List Int) :
    Knows (modifiersRun scancodes) (keysRun scancodes) := by
  have any : ∀ {g k}, Knows g k → Knows (scancodes.foldl (fun g c => (modifiers c g).2) g)
      (scancodes.foldl Keys.event k) := by
    induction scancodes with
    | nil => exact id
    | cons c rest ih => exact fun knows => ih (knows.event c)
  exact any ⟨rfl, rfl, rfl, nofun⟩

/-- The shift bit is right exactly if, at the last shift event, CapsLock was on just when that
released one shift key and left the other held. -/
theorem shift_follows_iff (scancodes : List Int) :
    ((modifiersRun scancodes).shift =
        ((keysRun scancodes).held ^^ (keysRun scancodes).caps) ↔
      (keysRun scancodes).capsAtShift =
        (!(keysRun scancodes).pressed && (keysRun scancodes).held)) ∧
      (modifiersRun scancodes).ctrl = (keysRun scancodes).ctrl ∧
      (modifiersRun scancodes).altgr = (keysRun scancodes).altgr := by
  obtain ⟨shift, ctrl, altgr, held⟩ := modifiersRun_knows scancodes
  refine ⟨?_, ctrl, altgr⟩
  rw [shift]
  grind

/-- Both shift keys are pressed and one is released: the bit is cleared with the other held. -/
theorem shift_lost_while_held :
    (modifiersRun [0x2a, 0x36, 0xaa]).shift = false ∧ (keysRun [0x2a, 0x36, 0xaa]).right = true ∧
      (keysRun [0x2a, 0x36, 0xaa]).caps = false := by
  decide

/-! ## Keymap files -/

/-- The map, how far `buf` was moved, and the positions of the text that were read. -/
structure Keymap where
  map : Bytes
  moved : Nat := 0
  reads : List Nat := []

def setKeymapPass (buf : Bytes) (s : Keymap) (i : Nat) : Keymap :=
  let c := buf (s.moved + i)
  let reads := (s.moved + i) :: s.reads
  if c = 10 then { s with map := Function.update s.map i (UInt8.ofNat i), reads }
  else { s with map := Function.update s.map i c, moved := s.moved + 1, reads }

def setKeymap (map buf : Bytes) (size : Nat) : Keymap :=
  (List.range size).foldl (setKeymapPass buf) { map }

/-- Lines of at most one character, with a newline behind each. -/
def keymapText (lines : List (Option UInt8)) : List UInt8 :=
  lines.flatMap fun line => line.toList ++ [10]

/-- After the entries of some lines: the next position to read is the end of their text. -/
structure Decoded (lines : List (Option UInt8)) (s : Keymap) : Prop where
  position : s.moved + lines.length = (keymapText lines).length
  entries : ∀ i line, lines[i]? = some line → s.map i = line.getD (UInt8.ofNat i)
  reads : ∀ k ∈ s.reads, k < (keymapText lines).length

theorem Decoded.pass {lines : List (Option UInt8)} {s : Keymap} (decoded : Decoded lines s)
    {line : Option UInt8} (char : line ≠ some 10) {buf : Bytes}
    (text : ∀ k b, (keymapText (lines ++ [line]))[k]? = some b → buf k = b) :
    Decoded (lines ++ [line]) (setKeymapPass buf s lines.length) := by
  have joined : keymapText (lines ++ [line]) = keymapText lines ++ (line.toList ++ [10]) := by
    simp [keymapText]
  have here : buf (s.moved + lines.length) = line.getD 10 := by
    apply text
    rw [joined, decoded.position, getElem?_append_right le_rfl, Nat.sub_self]
    cases line <;> rfl
  have entries {v : UInt8} (value : v = line.getD (UInt8.ofNat lines.length)) (i : Nat)
      (line' : Option UInt8) (there : (lines ++ [line])[i]? = some line') :
      Function.update s.map lines.length v i = line'.getD (UInt8.ofNat i) := by
    have old := decoded.entries i line'
    grind [Function.update_apply]
  have position := decoded.position
  have reads : ∀ k ∈ (s.moved + lines.length) :: s.reads,
      k < (keymapText (lines ++ [line])).length := by
    have old := decoded.reads
    rw [joined, length_append, length_append, length_singleton]
    grind
  unfold setKeymapPass
  rw [here]
  cases line with
  | none => exact ⟨by simp [joined, ← position, Nat.add_assoc], entries rfl, reads⟩
  | some c =>
    have other : c ≠ 10 := fun same => char (congrArg some same)
    rw [Option.getD_some, if_neg other]
    exact ⟨by simp [joined, ← position]; omega, entries rfl, reads⟩

/-- Each entry is the character of its line, or its own number where the line is empty, and nothing
behind the text is read. -/
theorem keymap_lines (lines : List (Option UInt8)) (chars : some 10 ∉ lines) {buf : Bytes}
    (text : ∀ k b, (keymapText lines)[k]? = some b → buf k = b) (map : Bytes) :
    (∀ i line, lines[i]? = some line →
      (setKeymap map buf lines.length).map i = line.getD (UInt8.ofNat i)) ∧
      ∀ k ∈ (setKeymap map buf lines.length).reads, k < (keymapText lines).length := by
  have decoded : Decoded lines (setKeymap map buf lines.length) := by
    induction lines using List.reverseRecOn with
    | nil => exact ⟨rfl, nofun, nofun⟩
    | append_singleton lines line ih =>
      rw [setKeymap, length_append, length_singleton, range_succ, foldl_append]
      refine (ih (fun mem => chars (mem_append_left _ mem)) fun k b there => ?_).pass ?_ text
      · apply text
        rw [keymapText, flatMap_append]
        exact (getElem?_append_left (List.getElem?_eq_some_iff.mp there).1).trans there
      · rintro rfl
        exact chars (mem_append_right _ (mem_singleton_self _))
  exact ⟨decoded.entries, decoded.reads⟩

theorem keymap_lines_three :
    (setKeymap (fun _ => 0) (fun k => (keymapText [none, some 97, none]).getD k 0) 3).map 1 = 97 :=
  (keymap_lines [none, some 97, none] (by decide) (fun k b there => by
    rw [getD_eq_getElem?_getD, there, Option.getD_some]) _).1 1 (some 97) rfl

/-! ## Characters -/

/-- The keymaps, of which `keymap_normal` may be null, and `g_modifier`. -/
structure Keyboard where
  normal : Option Bytes
  shift : Bytes
  altgr : Bytes
  modifier : KeyMod := {}

/-- A scancode is a byte of the device.  Of the result a `char` is kept. -/
def getkey (scancode : UInt8) (kb : Keyboard) : UInt8 × Keyboard :=
  let (c, g) := modifiers scancode.toNat kb.modifier
  let key :=
    if 0 ≤ c then UInt8.ofNat c.toNat
    else if 128 < scancode then 0
    else if g.shift then kb.shift scancode.toNat
    else if g.altgr then kb.altgr scancode.toNat
    else kb.normal.elim 0 (· scancode.toNat)
  (key, { kb with modifier := g })

/-- The scancode and the key in the packet for `eventfd`, whether `combination` sends SIGINT, and
the bytes written to descriptor 0, one in a call. -/
structure KeyEvent where
  packet : Option (UInt8 × UInt8) := none
  sigint : Bool := false
  written : List UInt8 := []

def sendScancode (scancode : UInt8) (kb : Keyboard) : KeyEvent × Keyboard :=
  if kb.normal.isNone then ({}, kb)
  else
    let (c, kb) := getkey scancode kb
    let sigint := kb.modifier.ctrl && c == 99
    let written := (if sigint then [94] else []) ++ if c = 0 then [] else [c]
    (⟨some (scancode, c), sigint, written⟩, kb)

/-- What a sequence of scancodes has written. -/
def typedBy : List UInt8 → Keyboard → List UInt8
  | [], _ => []
  | scancode :: scancodes, kb =>
    let (event, kb) := sendScancode scancode kb
    event.written ++ typedBy scancodes kb

end Yanix.Drivers
