/-
Module: Yanix.Proofs.AtaAddressing
Purpose: Which drive and sector the controller is told by a sector command: all commands are
  right exactly if each call fits the one before it.
-/
import Yanix.Drivers.Ata

namespace Yanix.Drivers

open Foundation Function List

/-- The `READ SECTORS` and `WRITE SECTORS` commands that went to the channel. -/
def sectorCommands (base : Nat) (trace : List PortWrite) : List PortWrite := trace.filter fun w =>
    w.port = base + ataRegCmd ∧
      (w.value = UInt8.ofNat ataCmdReadSectors ∨ w.value = UInt8.ofNat ataCmdWriteSectors)

/-- The drive bit of the device-select register. -/
def selectedSlave (base : Nat) (regs : Nat → UInt8) : Nat :=
  (regs (base + ataRegHddevsel)).toNat / 16 % 2

/-- The 28 bits of address that the registers hold. -/
def latchedLba (base : Nat) (regs : Nat → UInt8) : Nat :=
  (regs (base + ataRegHddevsel)).toNat % 16 * 2 ^ 24 +
    (regs (base + ataRegLba2)).toNat * 2 ^ 16 + (regs (base + ataRegLba1)).toNat * 2 ^ 8 +
    (regs (base + ataRegLba0)).toNat

/-- The globals and the device-select register. -/
structure Selection where
  drive : Nat
  mode : Nat
  devsel : UInt8

/-- What later calls depend on, with the sector commands so far. -/
def view (base : Nat) (s : Ata) : Selection × List PortWrite :=
  (⟨s.selectedDrive, s.selectedMode, s.regs (base + ataRegHddevsel)⟩, sectorCommands base s.trace)

variable {w : PortWrite} {port cmd : Nat}

section

variable {base : Nat}

theorem sectorCommands_append (trace later : List PortWrite) : sectorCommands base (trace ++ later)
      = sectorCommands base trace ++ sectorCommands base later :=
  filter_append ..

theorem sectorCommands_quiet (quiet : w.port ≠ base + ataRegCmd ∨
    w.value ≠ UInt8.ofNat ataCmdReadSectors ∧ w.value ≠ UInt8.ofNat ataCmdWriteSectors) :
    sectorCommands base [w] = [] := by
  apply filter_cons_of_neg
  simp only [decide_eq_true_eq]
  tauto

theorem view_latch (value : Nat) (devsel : port ≠ base + ataRegHddevsel)
    (quiet : port ≠ base + ataRegCmd ∨ UInt8.ofNat value ≠ UInt8.ofNat ataCmdReadSectors ∧
        UInt8.ofNat value ≠ UInt8.ofNat ataCmdWriteSectors) (s : Ata) :
    view base (s.latch port value) = view base s := by
  have kept : (s.latch port value).regs (base + ataRegHddevsel)
      = s.regs (base + ataRegHddevsel) := update_of_ne (Ne.symm devsel) ..
  have same : sectorCommands base (s.latch port value).trace = sectorCommands base s.trace := by
    rw [Ata.latch, sectorCommands_append, sectorCommands_quiet quiet, append_nil]
  rw [view, kept, same]
  rfl

theorem view_latch_command (sectors : cmd = ataCmdReadSectors ∨ cmd = ataCmdWriteSectors)
    (s : Ata) :
    view base (s.latch (base + ataRegCmd) cmd) = ((view base s).1,
      (view base s).2 ++ [⟨base + ataRegCmd, UInt8.ofNat cmd, s.regs⟩]) := by
  have kept : (s.latch (base + ataRegCmd) cmd).regs (base + ataRegHddevsel)
      = s.regs (base + ataRegHddevsel) :=
    update_of_ne (by simp [ataRegCmd, ataRegHddevsel]) ..
  have counted : sectorCommands base [⟨base + ataRegCmd, UInt8.ofNat cmd, s.regs⟩]
      = [⟨base + ataRegCmd, UInt8.ofNat cmd, s.regs⟩] := by
    apply filter_cons_of_pos
    cases sectors with
    | inl read => simp [read]
    | inr write => simp [write]
  rw [view, kept, Ata.latch, sectorCommands_append, counted]
  rfl

theorem portByteOut_frames (value : Nat) (devsel : port ≠ base + ataRegHddevsel)
    (quiet : port ≠ base + ataRegCmd ∨ UInt8.ofNat value ≠ UInt8.ofNat ataCmdReadSectors ∧
        UInt8.ofNat value ≠ UInt8.ofNat ataCmdWriteSectors) :
    Frames (view base) (portByteOut port value) :=
  .modify (view_latch value devsel quiet)

theorem portWordIn_frames (port : Nat) : Frames (view base) (portWordIn port) := fun _ => rfl

theorem portByteIn_frames (port : Nat) : Frames (view base) (portByteIn port) :=
  (portWordIn_frames port).bind fun _ => .pure _

theorem ataWait_frames (at' : Nat) : Frames (view base) (ataWait at') :=
  .times (fun _ => (portByteIn_frames _).bind fun _ => .pure _) 4

theorem clearBsyLoop_frames (at' patience : Nat) :
    Frames (view base) (clearBsyLoop at' patience) := by
  induction patience with
  | zero => exact .throw _
  | succ patience ih => exact (portByteIn_frames _).bind fun _ => .ite ih (.pure _)

theorem ataWaitClearBsy_frames (at' : Nat) : Frames (view base) (ataWaitClearBsy at') :=
  Frames.get.bind fun s => clearBsyLoop_frames at' s.patience

theorem ataPolling_frames (at' : Nat) (advanced : Bool) :
    Frames (view base) (ataPolling at' advanced) := by
  apply (ataWait_frames at').bind
  intro _
  apply (ataWaitClearBsy_frames at').bind
  intro status
  refine .ite (.ite ?_ (.ite (.pure _) (.pure _))) (.pure _)
  exact (ataWait_frames at').bind fun _ => (portByteIn_frames _).bind fun _ => .pure _

theorem data_frames (value : Nat) : Frames (view base) (portByteOut (base + ataRegData) value) :=
  portByteOut_frames value (by simp [ataRegData, ataRegHddevsel])
    (.inl (by simp [ataRegData, ataRegCmd]))

theorem readSectors_frames (drive : AtaDrive) (cnt buffer : Nat) :
    Frames (view drive.base) (readSectors drive cnt buffer) := by
  induction cnt generalizing buffer with
  | zero => exact .pure _
  | succ cnt ih =>
    apply (ataPolling_frames _ _).bind
    intro pollRet
    apply Frames.ite
    · exact (Frames.times ataWait_frames 5).bind fun _ => .pure _
    have word : ∀ i, Frames (view drive.base) (portWordIn (drive.base + ataRegData) >>= fun data =>
        modify fun s => { s with mem := update s.mem (buffer + i) data }) :=
      fun i => (portWordIn_frames _).bind fun _ => .modify fun _ => rfl
    apply (Frames.times word 256).bind
    intro _
    apply (ataWait_frames _).bind
    intro _
    apply (ataPolling_frames _ _).bind
    intro _
    apply (data_frames _).bind
    intro _
    exact (ataPolling_frames _ _).bind fun _ => ih _

theorem writeSectors_frames (drive : AtaDrive) (cnt buf : Nat) :
    Frames (view drive.base) (writeSectors drive cnt buf) := by
  induction cnt generalizing buf with
  | zero => exact .pure _
  | succ cnt ih =>
    apply (ataPolling_frames _ _).bind
    intro poll
    apply Frames.ite (.pure _)
    -- the flush goes to the command port, but is no sector command
    have data : ∀ value, Frames (view drive.base)
        (portWordOut (drive.base + ataRegData) value) := fun value =>
      (data_frames value).bind fun _ =>
        portByteOut_frames _ (by simp [ataRegData, ataRegHddevsel])
          (.inl (by simp [ataRegData, ataRegCmd]))
    have flush : Frames (view drive.base) (portWordOut (drive.base + ataRegCmd) ataCmdCacheFlush) :=
      (portByteOut_frames _ (by simp [ataRegCmd, ataRegHddevsel]) (.inr (by decide))).bind fun _ =>
        portByteOut_frames _ (by simp [ataRegCmd, ataRegHddevsel]) (.inl (by simp [ataRegCmd]))
    have word : ∀ i, Frames (view drive.base) ((get : AtaM Ata) >>= fun s => do
        portWordOut (drive.base + ataRegData) (s.mem (buf + i)).toNat
        portWordOut (drive.base + ataRegCmd) ataCmdCacheFlush) :=
      fun i => Frames.get.bind fun _ => (data _).bind fun _ => flush
    exact (Frames.times word 256).bind fun _ => ih _

end

/-! ## One pass: select, address, command -/

/-- What `ata_select_drive` leaves selected, for an LBA drive. -/
def Selection.select (drive : AtaDrive) (mode : Nat) (sel : Selection) : Selection :=
  if drive.ptr ≠ sel.drive ∧ mode ≠ sel.mode then
    ⟨drive.ptr, mode, UInt8.ofNat (0xE0 ||| (drive.slave <<< 4) ||| (mode &&& 0xF))⟩
  else sel

theorem Selection.select_select (drive : AtaDrive) (mode : Nat) (sel : Selection) :
    (sel.select drive mode).select drive mode = sel.select drive mode := by
  by_cases differs : drive.ptr ≠ sel.drive ∧ mode ≠ sel.mode
  · have once : sel.select drive mode
        = ⟨drive.ptr, mode, UInt8.ofNat (0xE0 ||| (drive.slave <<< 4) ||| (mode &&& 0xF))⟩ :=
      if_pos differs
    rw [once]
    exact if_neg fun again => again.1 rfl
  · have once : sel.select drive mode = sel := if_neg differs
    rw [once, once]

/-- Only the devices have gone on. -/
def Waited (s t : Ata) : Prop := ∃ inputs, t = { s with inputs := inputs }

theorem Waited.refl (s : Ata) : Waited s s := ⟨s.inputs, rfl⟩

variable {s t : Ata}

theorem Waited.trans {u : Ata} (first : Waited s t) (second : Waited t u) : Waited s u := by
  obtain ⟨_, rfl⟩ := first
  obtain ⟨inputs, rfl⟩ := second
  exact ⟨inputs, rfl⟩

theorem Waited.view (waited : Waited s t) (base : Nat) : view base t = view base s := by
  obtain ⟨_, rfl⟩ := waited
  rfl

theorem ataWait_run (base : Nat) (s : Ata) : ∃ t, ataWait base s = .ok () t ∧ Waited s t :=
  times_returns .refl .trans (fun _ _ => ⟨_, rfl, _, rfl⟩) 4 s

/-- The state in which the command is issued. -/
def Ata.addressed (s : Ata) (base lba count : Nat) : Ata :=
  ((((s.latch (base + ataRegError) 0).latch (base + ataRegSeccount0) (count &&& 0xFF)).latch
    (base + ataRegLba0) lba).latch (base + ataRegLba1) (lba >>> 8)).latch
    (base + ataRegLba2) (lba >>> 16)

theorem view_addressed (s : Ata) (base lba count : Nat) :
    view base (s.addressed base lba count) = view base s := by
  unfold Ata.addressed
  rw [view_latch, view_latch, view_latch, view_latch, view_latch]
  all_goals simp [ataRegError, ataRegSeccount0, ataRegLba0, ataRegLba1, ataRegLba2,
    ataRegHddevsel, ataRegCmd]

theorem latchedLba_addressed (s : Ata) (base lba count : Nat) :
    latchedLba base (s.addressed base lba count).regs
      = (s.regs (base + ataRegHddevsel)).toNat % 16 * 2 ^ 24 + lba % 2 ^ 24 := by
  simp only [latchedLba, Ata.addressed, Ata.latch, update, ataRegError, ataRegSeccount0,
    ataRegLba0, ataRegLba1, ataRegLba2, ataRegHddevsel, Nat.add_left_cancel_iff, eq_rec_constant,
    dite_eq_ite, UInt8.toNat_ofNat', Nat.shiftRight_eq_div_pow, reduceIte, Nat.reduceEqDiff]
  omega

/-- The command went out with the drive bit and the upper address bits of the selection, and
with the rest of the address. -/
def Carries (base : Nat) (sel : Selection) (lba : Nat) (w : PortWrite) : Prop :=
  selectedSlave base w.regs = sel.devsel.toNat / 16 % 2 ∧
    latchedLba base w.regs = sel.devsel.toNat % 16 * 2 ^ 24 + lba % 2 ^ 24

theorem ataCommand_run (drive : AtaDrive) (lba28 : drive.mode = ataModeLba28) (lba count : Nat)
    (cmdExt : Nat) (sectors : cmd = ataCmdReadSectors ∨ cmd = ataCmdWriteSectors) (s : Ata) :
    ∃ t w, ataCommand drive lba count cmd cmdExt s = .ok () t ∧
      view drive.base t = ((view drive.base s).1, (view drive.base s).2 ++ [w]) ∧
      Carries drive.base (view drive.base s).1 lba w := by
  obtain ⟨ptr, base, mode, slave, capabilities⟩ := drive
  dsimp only at lba28 ⊢
  subst lba28
  obtain ⟨t, waits, waited⟩ := ataWait_run base (s.addressed base lba count)
  have same : view base t = view base s :=
    (waited.view base).trans (view_addressed s base lba count)
  have devsel : t.regs (base + ataRegHddevsel) = s.regs (base + ataRegHddevsel) :=
    congrArg (fun v => v.1.devsel) same
  refine ⟨t.latch (base + ataRegCmd) cmd, ⟨base + ataRegCmd, UInt8.ofNat cmd, t.regs⟩,
    (bind_of_ok rfl).trans ((bind_of_ok rfl).trans ((bind_of_ok waits).trans rfl)), ?_, ?_, ?_⟩
  · rw [view_latch_command sectors, same]
  · exact congrArg (fun byte => byte.toNat / 16 % 2) devsel
  · obtain ⟨inputs, rfl⟩ := waited
    exact latchedLba_addressed s base lba count

theorem select_command_run (drive : AtaDrive)
    (capable : drive.capabilities &&& ataCapabilitiesLba ≠ 0) (lba28 : drive.mode = ataModeLba28)
    (mode lba count : Nat) (cmdExt : Nat)
    (sectors : cmd = ataCmdReadSectors ∨ cmd = ataCmdWriteSectors) {α : Type} {rest : AtaM α}
    (frames : Frames (view drive.base) rest) (s : Ata) :
    ∃ w, view drive.base (endState ((ataSelectDrive drive mode >>= fun _ =>
        ataCommand drive lba count cmd cmdExt >>= fun _ => rest) s))
        = ((view drive.base s).1.select drive mode, (view drive.base s).2 ++ [w]) ∧
      Carries drive.base ((view drive.base s).1.select drive mode) lba w := by
  obtain ⟨t, selects, chosen⟩ : ∃ t, ataSelectDrive drive mode s = .ok () t ∧ view drive.base t =
      ((view drive.base s).1.select drive mode, (view drive.base s).2) := by
    unfold ataSelectDrive
    rw [get_bind]
    by_cases differs : drive.ptr ≠ s.selectedDrive ∧ mode ≠ s.selectedMode
    · have chosen : (view drive.base s).1.select drive mode
          = ⟨drive.ptr, mode, UInt8.ofNat (0xE0 ||| (drive.slave <<< 4) ||| (mode &&& 0xF))⟩ :=
        if_pos differs
      rw [chosen, if_pos differs, if_pos capable]
      obtain ⟨t, waits, inputs, rfl⟩ := times_returns Waited.refl Waited.trans
        (fun _ => ataWait_run drive.base) 5
        (s.latch (drive.base + ataRegHddevsel) (0xE0 ||| (drive.slave <<< 4) ||| (mode &&& 0xF)))
      refine ⟨_, (bind_of_ok rfl).trans ((bind_of_ok waits).trans rfl), ?_⟩
      have quiet : sectorCommands drive.base (s.latch (drive.base + ataRegHddevsel)
            (0xE0 ||| (drive.slave <<< 4) ||| (mode &&& 0xF))).trace
          = sectorCommands drive.base s.trace := by
        rw [Ata.latch, sectorCommands_append, sectorCommands_quiet, append_nil]
        exact .inl (by simp [ataRegHddevsel, ataRegCmd])
      rw [view, quiet]
      simp only [Ata.latch, update_self]
      rfl
    · have chosen : (view drive.base s).1.select drive mode = (view drive.base s).1 :=
        if_neg differs
      rw [chosen, if_neg differs]
      exact ⟨s, rfl, rfl⟩
  obtain ⟨u, w, commands, issued, carries⟩ := ataCommand_run drive lba28 lba count cmdExt sectors t
  rw [chosen] at issued carries
  refine ⟨w, ?_, carries⟩
  rw [bind_of_ok selects, bind_of_ok commands, frames u, issued]

theorem readRetry_run (drive : AtaDrive)
    (capable : drive.capabilities &&& ataCapabilitiesLba ≠ 0) (lba28 : drive.mode = ataModeLba28)
    (lba count left buffer : Nat) (s : Ata) (sel : Selection)
    (chosen : sel = (view drive.base s).1.select drive (drive.mode ||| ((lba >>> 24) &&& 0xF))) :
    ∃ new, view drive.base (endState (readRetry drive lba count left buffer s))
        = (if left = 0 then (view drive.base s).1 else sel, (view drive.base s).2 ++ new) ∧
      (∀ w ∈ new, Carries drive.base sel lba w) ∧ (left ≠ 0 → new ≠ []) := by
  induction left generalizing s buffer with
  | zero => exact ⟨[], Prod.ext rfl (append_nil _).symm, nofun, fun some => absurd rfl some⟩
  | succ left ih =>
    obtain ⟨w, seen, carries⟩ := select_command_run drive capable lba28
      (drive.mode ||| ((lba >>> 24) &&& 0xF)) lba count ataCmdReadSectorsExt (.inl rfl)
      ((ataWait_frames drive.base).bind fun _ => readSectors_frames drive count buffer) s
    rw [← chosen] at seen carries
    rw [readRetry, if_pos capable, if_neg (Nat.succ_ne_zero left)]
    cases ran : readAttempt drive lba buffer count s with
    | error e t =>
      rw [← readAttempt, ran] at seen
      rw [bind_of_error ran]
      exact ⟨[w], seen, by simpa using carries, fun _ => cons_ne_nil _ _⟩
    | ok ret t =>
      obtain ⟨aborted, buffer'⟩ := ret
      rw [← readAttempt, ran] at seen
      rw [bind_of_ok ran]
      cases aborted with
      | true =>
        -- the drive stays selected as it is, whether another pass follows or not
        have settled : sel = (view drive.base t).1.select drive
            (drive.mode ||| ((lba >>> 24) &&& 0xF)) := by
          rw [show view drive.base t = _ from seen, chosen, Selection.select_select]
        obtain ⟨new, ended, later, _⟩ := ih buffer' t settled
        rw [show view drive.base t = _ from seen, ite_self, append_assoc] at ended
        refine ⟨w :: new, ended, ?_, fun _ => cons_ne_nil _ _⟩
        exact forall_mem_cons.mpr ⟨carries, later⟩
      | false =>
        have poll : Frames (view drive.base) (ataPolling drive.base false >>= fun poll =>
            if poll ≠ 0 then do
              modify fun s => { s with errno := einval }
              pure (-1 : Int)
            else pure 0) :=
          (ataPolling_frames _ _).bind fun _ =>
            .ite (Frames.bind (.modify fun _ => rfl) fun _ => .pure _) (.pure _)
        exact ⟨[w], (poll t).trans seen, by simpa using carries, fun _ => cons_ne_nil _ _⟩

theorem writeData_frames (drive : AtaDrive) (count buffer : Nat) :
    Frames (view drive.base) (writeSectors drive count buffer >>= fun sent =>
      if sent then do
        let _ ← ataPolling drive.base false
        portByteOut (drive.base + ataRegData) ataCmdCacheFlush
        let _ ← ataPolling drive.base false
        pure (0 : Int)
      else do
        modify fun s => { s with errno := einval }
        pure (-1)) := by
  apply (writeSectors_frames drive count buffer).bind
  intro sent
  apply Frames.ite
  · apply (ataPolling_frames _ _).bind
    intro _
    apply (data_frames _).bind
    intro _
    exact (ataPolling_frames _ _).bind fun _ => .pure _
  · exact Frames.bind (.modify fun _ => rfl) fun _ => .pure _

/-- A channel with its master and its slave, both of which `init_ata` has set up for 28 bits of
address. -/
structure Channel where
  base : Nat
  drive : Fin 2 → AtaDrive
  at_base : ∀ i, (drive i).base = base
  lba28 : ∀ i, (drive i).mode = ataModeLba28
  capable : ∀ i, (drive i).capabilities &&& ataCapabilitiesLba ≠ 0
  slave_eq : ∀ i, (drive i).slave = i.val
  ptr_ne_zero : ∀ i, (drive i).ptr ≠ 0
  ptr_inj : ∀ i j, (drive i).ptr = (drive j).ptr → i = j

inductive Direction where
  | read
  | write
deriving DecidableEq

/-- One call of `_atapio_read` or `_atapio_write`. -/
structure Request where
  direction : Direction
  unit : Fin 2
  lba : Nat
  count : Nat
  buffer : Nat
  lba_lt : lba < 2 ^ 28
  count_pos : 1 ≤ count
  count_le : count ≤ 256

/-- Bits 24 to 27 of the address. -/
def Request.high (r : Request) : Nat := r.lba / 2 ^ 24

def Request.exec (ch : Channel) (r : Request) : AtaM Int := match r.direction with
  | .read => atapioRead (ch.drive r.unit) r.lba r.buffer r.count
  | .write => atapioWrite (ch.drive r.unit) r.lba r.buffer r.count

/-- The mode that the call selects the drive with. -/
def Request.mode (r : Request) : Nat := match r.direction with
  | .read => ataModeLba28 ||| ((r.lba >>> 24) &&& 0xF)
  | .write => ataModeLba28

/-- The calls of a sequence from a state on, with the sector commands that each of them issued. The
last call may be one that does not return. -/
inductive Run (ch : Channel) : Ata → List Request → List (Request × PortWrite) → Prop
  | done (s : Ata) : Run ch s [] []
  | stuck {s t : Ata} {r : Request} {e : Stuck}
      (step : r.exec ch { s with trace := [] } = .error e t) :
      Run ch s [r] ((sectorCommands ch.base t.trace).map fun w => (r, w))
  | call {s t : Ata} {r : Request} {ret : Int} {rs : List Request}
      {history : List (Request × PortWrite)}
      (step : r.exec ch { s with trace := [] } = .ok ret t) (rest : Run ch t rs history) :
      Run ch s (r :: rs) ((sectorCommands ch.base t.trace).map (fun w => (r, w)) ++ history)

/-- The command found the drive selected that was passed in, and the address in the
registers. -/
def Addressed (ch : Channel) (issued : Request × PortWrite) : Prop :=
  selectedSlave ch.base issued.2.regs = issued.1.unit.val ∧
    latchedLba ch.base issued.2.regs = issued.1.lba

/-- What a call has to be after the one before it: on the same drive it has to agree in the upper
four address bits, on the other it has to differ in them, and a call that selects its drive has to
be a read or to have these bits 0. -/
def Follows : Option Request → Request → Prop
  | none, r => r.direction = .read ∨ r.high = 0
  | some p, r =>
    p.unit = r.unit ∧ p.high = r.high ∨
      p.unit ≠ r.unit ∧ p.high ≠ r.high ∧ (r.direction = .read ∨ r.high = 0)

def AddressableFrom : Option Request → List Request → Prop
  | _, [] => True
  | previous, r :: rs => Follows previous r ∧ AddressableFrom (some r) rs

/-- Each call of the sequence fits the one before it. -/
def Addressable (rs : List Request) : Prop := AddressableFrom none rs

theorem exec_run (ch : Channel) (r : Request) (s : Ata) :
    ∃ new, view ch.base (endState (r.exec ch s))
        = ((view ch.base s).1.select (ch.drive r.unit) r.mode, (view ch.base s).2 ++ new) ∧
      (∀ w ∈ new, Carries ch.base ((view ch.base s).1.select (ch.drive r.unit) r.mode) r.lba w) ∧
      new ≠ [] := by
  obtain ⟨direction, unit, lba, count, buffer, lba_lt, count_pos, count_le⟩ := r
  rw [← ch.at_base unit]
  cases direction with
  | read =>
    obtain ⟨new, ended, carry, some⟩ := readRetry_run (ch.drive unit) (ch.capable unit)
      (ch.lba28 unit) lba count 4 buffer s _ rfl
    rw [ch.lba28 unit] at ended carry
    exact ⟨new, ended, carry, some (by decide)⟩
  | write =>
    obtain ⟨w, ended, carries⟩ := select_command_run (ch.drive unit) (ch.capable unit)
      (ch.lba28 unit) (ch.drive unit).mode lba count ataCmdWriteSectorsExt (.inr rfl)
      (writeData_frames (ch.drive unit) count buffer) s
    have mode : Request.mode ⟨.write, unit, lba, count, buffer, lba_lt, count_pos, count_le⟩
        = (ch.drive unit).mode := (ch.lba28 unit).symm
    rw [mode]
    exact ⟨[w], ended, by simpa using carries, cons_ne_nil _ _⟩

/-! ## The cached selection and the condition -/

/-- The low bits of the mode that the call selects with. -/
def Request.nibble (r : Request) : Nat := match r.direction with
  | .read => r.high
  | .write => 0

theorem Request.high_lt (r : Request) : r.high < 16 := Nat.div_lt_of_lt_mul r.lba_lt

theorem Request.nibble_lt (r : Request) : r.nibble < 16 := by
  unfold Request.nibble
  cases r.direction with
  | read => exact r.high_lt
  | write => exact Nat.zero_lt_succ 15

theorem Request.nibble_eq_high_iff (r : Request) :
    r.nibble = r.high ↔ r.direction = .read ∨ r.high = 0 := by
  unfold Request.nibble
  cases r.direction with
  | read => simp
  | write => simp [eq_comm]

theorem Request.mode_eq (r : Request) : r.mode = 32 + r.nibble := by
  have low : ∀ n < 16, ataModeLba28 ||| (n &&& 0xF) = 32 + n := by decide
  unfold Request.mode Request.nibble
  cases r.direction with
  | read =>
    have shifted : r.lba >>> 24 = r.high := Nat.shiftRight_eq_div_pow r.lba 24
    exact (congrArg (fun n => ataModeLba28 ||| (n &&& 0xF)) shifted).trans (low _ r.high_lt)
  | write => rfl

/-- The byte that goes to the device-select register. -/
def devselByte (unit : Fin 2) (nibble : Nat) : Nat := 224 + 16 * unit.val + nibble

variable {nibble : Nat}

theorem toNat_devselByte (unit : Fin 2) (lt : nibble < 16) :
    (UInt8.ofNat (devselByte unit nibble)).toNat = devselByte unit nibble := by
  rw [UInt8.toNat_ofNat', Nat.mod_eq_of_lt]
  have := unit.isLt
  unfold devselByte
  omega

theorem select_eq (ch : Channel) (r : Request) (sel : Selection) :
    sel.select (ch.drive r.unit) r.mode =
      if (ch.drive r.unit).ptr ≠ sel.drive ∧ 32 + r.nibble ≠ sel.mode then
        ⟨(ch.drive r.unit).ptr, 32 + r.nibble, UInt8.ofNat (devselByte r.unit r.nibble)⟩
      else sel := by
  have byte : ∀ u < 2, ∀ n < 16, 0xE0 ||| (u <<< 4) ||| ((32 + n) &&& 0xF) = 224 + 16 * u + n := by
    decide
  rw [Selection.select, r.mode_eq, ch.slave_eq, byte _ r.unit.isLt _ r.nibble_lt, devselByte]

/-- The selection that a sequence of rightly addressed calls leaves behind. -/
def Cached (ch : Channel) : Option Request → Selection → Prop
  | none, sel => sel.drive = 0 ∧ sel.mode = 0
  | some p, sel =>
    sel.drive = (ch.drive p.unit).ptr ∧ sel.mode = 32 + p.high ∧
      sel.devsel.toNat = devselByte p.unit p.high

/-- The device-select register holds the drive and the upper address bits of the request. -/
def Selects (r : Request) (sel : Selection) : Prop :=
  sel.devsel.toNat / 16 % 2 = r.unit.val ∧ sel.devsel.toNat % 16 = r.high

variable {r : Request} {sel : Selection}

theorem selects_devselByte_iff {unit : Fin 2} (lt : nibble < 16)
    (byte : sel.devsel.toNat = devselByte unit nibble) :
    Selects r sel ↔ unit = r.unit ∧ nibble = r.high := by
  have := unit.isLt
  rw [Selects, byte, devselByte, Fin.ext_iff]
  omega

theorem selects_of_differs (ch : Channel) (r : Request)
    (differs : (ch.drive r.unit).ptr ≠ sel.drive ∧ 32 + r.nibble ≠ sel.mode) :
    (Selects r (sel.select (ch.drive r.unit) r.mode) ↔ r.nibble = r.high) ∧
      (r.nibble = r.high → Cached ch (some r) (sel.select (ch.drive r.unit) r.mode)) := by
  rw [select_eq, if_pos differs]
  have byte := toNat_devselByte r.unit r.nibble_lt
  constructor
  · rw [selects_devselByte_iff r.nibble_lt byte]
    exact and_iff_right rfl
  · intro full
    rw [full] at byte
    exact ⟨rfl, congrArg (32 + ·) full, by rw [full]; exact byte⟩

variable {previous : Option Request}

/-- From the selection of the call before, the registers come out right exactly if the call fits it,
and then the selection is that of this call. -/
theorem selects_iff_follows (ch : Channel) (r : Request) (cached : Cached ch previous sel) :
    (Selects r (sel.select (ch.drive r.unit) r.mode) ↔ Follows previous r) ∧
      (Follows previous r → Cached ch (some r) (sel.select (ch.drive r.unit) r.mode)) := by
  cases previous with
  | none =>
    have differs : (ch.drive r.unit).ptr ≠ sel.drive ∧ 32 + r.nibble ≠ sel.mode := by
      rw [cached.1, cached.2]
      exact ⟨ch.ptr_ne_zero r.unit, by omega⟩
    rw [Follows, ← r.nibble_eq_high_iff]
    exact selects_of_differs ch r differs
  | some p =>
    obtain ⟨drive, mode, byte⟩ := cached
    have old := selects_devselByte_iff (r := r) p.high_lt byte
    rw [Follows, ← r.nibble_eq_high_iff]
    by_cases same : p.unit = r.unit
    · -- the drive is selected already, whatever the mode
      have kept : sel.select (ch.drive r.unit) r.mode = sel := by
        rw [select_eq, if_neg]
        exact fun differs => differs.1 (by rw [drive, same])
      rw [kept, old]
      refine ⟨by tauto, fun follows => ?_⟩
      have high : p.high = r.high := by tauto
      exact ⟨by rw [drive, same], by rw [mode, high], by rw [byte, same, high]⟩
    have ptr : (ch.drive r.unit).ptr ≠ sel.drive := by
      rw [drive]
      exact fun equal => same (ch.ptr_inj _ _ equal).symm
    by_cases mode' : 32 + r.nibble = sel.mode
    · -- the mode is the old one, so the other drive stays selected
      have kept : sel.select (ch.drive r.unit) r.mode = sel := by
        rw [select_eq, if_neg]
        exact fun differs => differs.2 mode'
      have nibble : r.nibble = p.high := by omega
      rw [kept, old, nibble]
      constructor
      · tauto
      · tauto
    · have nibble : r.nibble ≠ p.high := by omega
      obtain ⟨right, cached'⟩ := selects_of_differs ch r ⟨ptr, mode'⟩
      rw [right]
      constructor
      · constructor
        · intro full
          exact .inr ⟨same, fun high => nibble (full.trans high.symm), full⟩
        · tauto
      · intro follows
        exact cached' (by tauto)

theorem addressed_iff_selects {ch : Channel} (carries : Carries ch.base sel r.lba w) :
    Addressed ch (r, w) ↔ Selects r sel := by
  obtain ⟨slave, lba⟩ := carries
  unfold Addressed Selects Request.high
  rw [slave, lba]
  dsimp only
  have := r.lba_lt
  constructor
  · rintro ⟨unit, address⟩
    exact ⟨unit, by omega⟩
  · rintro ⟨unit, high⟩
    exact ⟨unit, by omega⟩

theorem exec_addressed_iff (ch : Channel) (r : Request) (s : Ata)
    (cached : Cached ch previous (view ch.base s).1) :
    ((∀ w ∈ sectorCommands ch.base (endState (r.exec ch { s with trace := [] })).trace,
        Addressed ch (r, w)) ↔ Follows previous r) ∧
      (Follows previous r →
        Cached ch (some r) (view ch.base (endState (r.exec ch { s with trace := [] }))).1) := by
  obtain ⟨new, ended, carry, some⟩ := exec_run ch r { s with trace := [] }
  obtain ⟨right, cached'⟩ := selects_iff_follows ch r cached
  have issued : sectorCommands ch.base (endState (r.exec ch { s with trace := [] })).trace = new :=
    congrArg Prod.snd ended
  have selection := congrArg Prod.fst ended
  constructor
  · rw [issued, ← right]
    constructor
    · intro all
      obtain ⟨w, here⟩ := exists_mem_of_ne_nil new some
      exact (addressed_iff_selects (carry w here)).mp (all w here)
    · intro selects w here
      exact (addressed_iff_selects (carry w here)).mpr selects
  · intro follows
    rw [selection]
    exact cached' follows

theorem run_addressed_iff (ch : Channel) {rs : List Request} {history : List (Request × PortWrite)}
    (run : Run ch s rs history) (cached : Cached ch previous (view ch.base s).1) :
    (∀ issued ∈ history, Addressed ch issued) ↔ AddressableFrom previous rs := by
  induction run generalizing previous with
  | done s => exact ⟨fun _ => trivial, fun _ => nofun⟩
  | @stuck s t r e step =>
    have one := (exec_addressed_iff ch r s cached).1
    rw [step] at one
    rw [AddressableFrom, ← one, forall_mem_map, AddressableFrom, and_true]
    rfl
  | @call s t r ret rs history step rest ih =>
    obtain ⟨one, cached'⟩ := exec_addressed_iff ch r s cached
    rw [step] at one cached'
    rw [forall_mem_append, forall_mem_map, AddressableFrom]
    constructor
    · rintro ⟨first, later⟩
      have follows := one.mp first
      exact ⟨follows, (ih (cached' follows)).mp later⟩
    · rintro ⟨follows, later⟩
      exact ⟨one.mpr follows, (ih (cached' follows)).mpr later⟩

/-- From the boot on, every sector command of a sequence of calls on one channel finds the drive and
the address passed in exactly if each call fits the one before it. -/
theorem commands_addressed_iff (ch : Channel) {s : Ata}
    (boot : s.selectedDrive = 0 ∧ s.selectedMode = 0) {rs : List Request}
    {history : List (Request × PortWrite)} (run : Run ch s rs history) :
    (∀ issued ∈ history, Addressed ch issued) ↔ Addressable rs :=
  run_addressed_iff ch run boot

/-- The primary channel at its default ports. -/
def primaryChannel : Channel where
  base := 0x1F0
  drive i := ⟨1 + i.val, 0x1F0, ataModeLba28, i.val, ataCapabilitiesLba⟩
  at_base _ := rfl
  lba28 _ := rfl
  capable _ := show ataCapabilitiesLba &&& ataCapabilitiesLba ≠ 0 by decide
  slave_eq _ := rfl
  ptr_ne_zero _ := by simp
  ptr_inj i j equal := Fin.ext (Nat.add_left_cancel equal)

/-- After the boot, with devices that answer 0 to everything: never busy, and never ready for
data. -/
def booted : Ata where
  selectedMode := 0
  selectedDrive := 0
  errno := 0
  mem _ := 0
  regs _ := 0
  trace := []
  inputs _ := 0
  patience := 1

/-- A sector to be written. -/
def sectorWrite (unit : Fin 2) (lba : Fin (2 ^ 28)) : Request :=
  ⟨.write, unit, lba.val, 1, 0, lba.isLt, Nat.le_refl 1, Nat.le_of_ble_eq_true rfl⟩

/-- Where the driver is after a call. -/
def Request.after (r : Request) (s : Ata) : Ata :=
  endState (r.exec primaryChannel { s with trace := [] })

theorem run_two (first second : Request)
    (ret : returns (first.exec primaryChannel { s with trace := [] }) = true)
    (ret' : returns (second.exec primaryChannel { first.after s with trace := [] }) = true) :
    Run primaryChannel s [first, second]
      ((sectorCommands primaryChannel.base (first.after s).trace).map (fun w => (first, w)) ++
        ((sectorCommands primaryChannel.base (second.after (first.after s)).trace).map
          (fun w => (second, w)) ++ [])) := by
  obtain ⟨_, step⟩ := ok_of_returns ret
  obtain ⟨_, step'⟩ := ok_of_returns ret'
  exact .call step (.call step' (.done _))

theorem commands_addressed_two_writes : Addressable [sectorWrite 1 4, sectorWrite 1 5] ∧
      ∃ history, Run primaryChannel booted [sectorWrite 1 4, sectorWrite 1 5] history ∧
        history.length = 2 ∧ ∀ issued ∈ history, Addressed primaryChannel issued := by
  have fits : Addressable [sectorWrite 1 4, sectorWrite 1 5] := ⟨.inr rfl, .inl ⟨rfl, rfl⟩, trivial⟩
  have run := run_two (sectorWrite 1 4) (sectorWrite 1 5) (s := booted) (by decide +kernel)
    (by decide +kernel)
  exact ⟨fits, _, run, by decide +kernel,
    (commands_addressed_iff primaryChannel ⟨rfl, rfl⟩ run).mpr fits⟩

/-- A write to the master and then one to the slave: the second command goes to the master. -/
theorem commands_addressed_wrong_drive :
    ∃ history, Run primaryChannel booted [sectorWrite 0 4, sectorWrite 1 4] history ∧
      ∃ w, (sectorWrite 1 4, w) ∈ history ∧ selectedSlave primaryChannel.base w.regs = 0 := by
  have found : ∃ w ∈ sectorCommands primaryChannel.base
      ((sectorWrite 1 4).after ((sectorWrite 0 4).after booted)).trace,
      selectedSlave primaryChannel.base w.regs = 0 := by decide +kernel
  obtain ⟨w, here, master⟩ := found
  refine ⟨_, run_two _ _ (by decide +kernel) (by decide +kernel), w, ?_, master⟩
  simp only [mem_append, mem_map]
  exact .inr (.inl ⟨w, here, rfl⟩)

end Yanix.Drivers
