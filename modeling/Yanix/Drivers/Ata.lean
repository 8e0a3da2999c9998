/-
Module: Yanix.Drivers.Ata
Purpose: The programmed-input-output paths of `kernel/drivers/ata/ata.c`.  A write to a
  port is recorded with what all ports held before it; a read gives whatever the device
  answers.
Trusted boundary: hand-translated from C; `printk` prints nothing that matters
-/
import Yanix.Foundation.Loops

namespace Yanix.Drivers

open Foundation

def ataRegData : Nat := 0x00
def ataRegError : Nat := 0x01
def ataRegSeccount0 : Nat := 0x02
def ataRegLba0 : Nat := 0x03
def ataRegLba1 : Nat := 0x04
def ataRegLba2 : Nat := 0x05
def ataRegHddevsel : Nat := 0x06
def ataRegCmd : Nat := 0x07
def ataRegStatus : Nat := 0x07
def ataRegSeccount1 : Nat := 0x08
def ataRegLba3 : Nat := 0x09
def ataRegLba4 : Nat := 0x0A
def ataRegLba5 : Nat := 0x0B
def ataRegAltstatus : Nat := 0x0C

def ataErrorAbrt : Int := 0x004

def ataCmdReadSectors : Nat := 0x20
def ataCmdReadSectorsExt : Nat := 0x24
def ataCmdWriteSectors : Nat := 0x30
def ataCmdWriteSectorsExt : Nat := 0x34
def ataCmdCacheFlush : Nat := 0xE7

def ataStatusBsy : UInt8 := 0x80
def ataStatusDf : UInt8 := 0x20
def ataStatusDrq : UInt8 := 0x08
def ataStatusErr : UInt8 := 0x01

def ataModeLba28 : Nat := 0x20
def ataModeLba48 : Nat := 0x40

def ataCapabilitiesLba : Nat := 0x200

def eio : Int := 5
def einval : Int := 22

/-! ## The machine -/

/-- The fields of an `ata_drive_t` that are read here, and the address of the record. -/
structure AtaDrive where
  ptr : Nat
  base : Nat
  mode : Nat
  slave : Nat
  capabilities : Nat

/-- A byte written to a port, and what the ports held at that moment. -/
structure PortWrite where
  port : Nat
  value : UInt8
  regs : Nat → UInt8

/-- The two globals of the driver, `errno`, the caller's memory in words of 16 bits, and the ports.
`inputs` are the answers of the devices to the reads to come, `patience` is for how many reads a
wait for a busy device is followed. -/
structure Ata where
  selectedMode : Nat
  selectedDrive : Nat
  errno : Int
  mem : Nat → UInt16
  regs : Nat → UInt8
  trace : List PortWrite
  inputs : Nat → UInt16
  patience : Nat

/-- Why a call does not return. -/
inductive Stuck where
  | busy

abbrev AtaM := EStateM Stuck Ata

/-- A byte arrives at a port. -/
def Ata.latch (s : Ata) (port value : Nat) : Ata := { s with
    regs := Function.update s.regs port (UInt8.ofNat value)
    trace := s.trace ++ [⟨port, UInt8.ofNat value, s.regs⟩] }

def portByteOut (port value : Nat) : AtaM Unit := modify fun s => s.latch port value

/-- A word goes to two neighbouring byte ports. -/
def portWordOut (port value : Nat) : AtaM Unit := do
  portByteOut port value
  portByteOut (port + 1) (value >>> 8)

def portWordIn (_port : Nat) : AtaM UInt16 :=
  modifyGet fun s => (s.inputs 0, { s with inputs := fun k => s.inputs (k + 1) })

def portByteIn (port : Nat) : AtaM UInt8 := do
  let word ← portWordIn port
  pure word.toUInt8

def ataWait (base : Nat) : AtaM Unit := times 4 fun _ => do
    let _ ← portByteIn (base + ataRegAltstatus)

/-- The loop of `ata_wait_clear_bsy`. -/
def clearBsyLoop (base : Nat) : (patience : Nat) → AtaM UInt8
  | 0 => throw .busy
  | patience + 1 => do
    let ret ← portByteIn (base + ataRegStatus)
    if ret &&& ataStatusBsy ≠ 0 then clearBsyLoop base patience else pure ret

def ataWaitClearBsy (base : Nat) : AtaM UInt8 := do
  let s ← get
  clearBsyLoop base s.patience

def clearError (drive : AtaDrive) : AtaM Unit := portByteOut (drive.base + ataRegError) 0

def ataPolling (base : Nat) (advancedCheck : Bool) : AtaM Int := do
  ataWait base
  let status ← ataWaitClearBsy base
  if advancedCheck then
    if status &&& ataStatusErr ≠ 0 ∨ status &&& ataStatusDf ≠ 0 then do
      ataWait base
      let error ← portByteIn (base + ataRegError)
      pure (-(error.toNat : Int))
    else if status &&& ataStatusDrq = 0 then pure (-1)
    else pure 0
  else pure 0

/-- The globals are compared with `&&`: a drive is selected only if both differ. -/
def ataSelectDrive (drive : AtaDrive) (mode : Nat) : AtaM Unit := do
  let s ← get
  if drive.ptr ≠ s.selectedDrive ∧ mode ≠ s.selectedMode then do
    if drive.capabilities &&& ataCapabilitiesLba ≠ 0 then
      portByteOut (drive.base + ataRegHddevsel) (0xE0 ||| (drive.slave <<< 4) ||| (mode &&& 0xF))
    else
      portByteOut (drive.base + ataRegHddevsel) (0xA0 ||| (drive.slave <<< 4) ||| (mode &&& 0xF))
    times 5 fun _ => ataWait drive.base
    modify fun s => { s with selectedDrive := drive.ptr, selectedMode := mode }
  else pure ()

def ataSendSecAndLba (drive : AtaDrive) (lba count : Nat) : AtaM Unit := do
  if drive.mode = ataModeLba48 then do
    portByteOut (drive.base + ataRegSeccount1) (count &&& 0xFF00)
    portByteOut (drive.base + ataRegLba3) 0
    portByteOut (drive.base + ataRegLba4) 0
    portByteOut (drive.base + ataRegLba5) 0
  else pure ()
  portByteOut (drive.base + ataRegSeccount0) (count &&& 0xFF)
  portByteOut (drive.base + ataRegLba0) lba
  portByteOut (drive.base + ataRegLba1) (lba >>> 8)
  portByteOut (drive.base + ataRegLba2) (lba >>> 16)

/-- Clear the error port, send the address and issue the command that fits the mode. -/
def ataCommand (drive : AtaDrive) (lba count cmd cmdExt : Nat) : AtaM Unit := do
  clearError drive
  ataSendSecAndLba drive lba count
  ataWait drive.base
  if drive.mode = ataModeLba48 then portByteOut (drive.base + ataRegCmd) cmdExt
  else portByteOut (drive.base + ataRegCmd) cmd

/-- The loop over the sectors: `true` if it ended in `goto retry`, and `buffer`, which a retry
does not set back. -/
def readSectors (drive : AtaDrive) : (cnt buffer : Nat) → AtaM (Bool × Nat)
  | 0, buffer => pure (false, buffer)
  | cnt + 1, buffer => do
    let pollRet ← ataPolling drive.base true
    if pollRet = -ataErrorAbrt then do
      times 5 fun _ => ataWait drive.base
      pure (true, buffer)
    else do
      times 256 fun i => do
        let data ← portWordIn (drive.base + ataRegData)
        modify fun s => { s with mem := Function.update s.mem (buffer + i) data }
      ataWait drive.base
      let _ ← ataPolling drive.base false
      portByteOut (drive.base + ataRegData) ataCmdCacheFlush
      let _ ← ataPolling drive.base false
      readSectors drive cnt (buffer + 256)

/-- One pass from the label `retry` of an LBA drive. -/
def readAttempt (drive : AtaDrive) (lba buffer count : Nat) : AtaM (Bool × Nat) := do
  ataSelectDrive drive (drive.mode ||| ((lba >>> 24) &&& 0xF))
  ataCommand drive lba count ataCmdReadSectors ataCmdReadSectorsExt
  ataWait drive.base
  readSectors drive count buffer

/-- What is left to do at the label `retry` when `retry_count` has `left` more passes to go before
it is 5. -/
def readRetry (drive : AtaDrive) (lba count : Nat) : (left buffer : Nat) → AtaM Int
  | 0, _ => do
    modify fun s => { s with errno := eio }
    pure (-1)
  | left + 1, buffer =>
    if drive.capabilities &&& ataCapabilitiesLba ≠ 0 then do
      let (aborted, buffer) ← readAttempt drive lba buffer count
      if aborted then readRetry drive lba count left buffer
      else do
        let poll ← ataPolling drive.base false
        if poll ≠ 0 then do
          modify fun s => { s with errno := einval }
          pure (-1)
        else pure 0
    else pure 0

/-- `_atapio_read`. -/
def atapioRead (drive : AtaDrive) (lba buffer count : Nat) : AtaM Int :=
  readRetry drive lba count 4 buffer

/-- The loop over the sectors: `false` if a poll failed. -/
def writeSectors (drive : AtaDrive) : (cnt buf : Nat) → AtaM Bool
  | 0, _ => pure true
  | cnt + 1, buf => do
    let poll ← ataPolling drive.base true
    if poll ≠ 0 then pure false
    else do
      times 256 fun i => do
        let s ← get
        portWordOut (drive.base + ataRegData) (s.mem (buf + i)).toNat
        portWordOut (drive.base + ataRegCmd) ataCmdCacheFlush
      writeSectors drive cnt (buf + 256)

/-- `_atapio_write`. -/
def atapioWrite (drive : AtaDrive) (lba buffer count : Nat) : AtaM Int := do
  ataSelectDrive drive drive.mode
  ataCommand drive lba count ataCmdWriteSectors ataCmdWriteSectorsExt
  let sent ← writeSectors drive count buffer
  if sent then do
    let _ ← ataPolling drive.base false
    portByteOut (drive.base + ataRegData) ataCmdCacheFlush
    let _ ← ataPolling drive.base false
    pure 0
  else do
    modify fun s => { s with errno := einval }
    pure (-1)

end Yanix.Drivers
