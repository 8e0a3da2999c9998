/-
Module: Yanix.Execute.Elf
Purpose: Loading an executable, `kernel/yanix/execute/elf.c`: the bounds of the program that are
  recorded, the faults they let the page fault handler answer, and what a rejected file leaves
  behind.
Trusted boundary: hand-translated from C.  `vfs_read` may do anything to the blocks of `kmalloc` it
  reads the headers into; what is done to the caller's address space is recorded
-/
import Yanix.Mm.StackHeaps
import Mathlib.Order.Bounds.Basic

namespace Yanix.Execute

open Foundation

def elfPhdrNull : Nat := 0
def elfPhdrLoad : Nat := 1
def elfMagic : Nat := 0x464c457f
def elfBit32 : UInt8 := 1
def elfArchX86 : Nat := 3
def elfSupported : UInt8 := 1
def elfTypeExec : Nat := 2
def enoexec : Int := 8

/-- The fields of the file header that are read. -/
structure Elf32Hdr where
  magic : Nat
  bitType : UInt8
  elfHeaderVersion : UInt8
  type : Nat
  archType : Nat
  entry : Nat
  pheaderTablePosition : Nat
  pheaderTableAmount : Nat

def sizeofElf32Hdr : Nat := 52

def load16 (m : Bytes) (a : Nat) : Nat := (m a).toNat + 256 * (m (a + 1)).toNat

def elf32HdrAt (m : Bytes) : Elf32Hdr where
  magic := load32 m 0
  bitType := m 4
  elfHeaderVersion := m 6
  type := load16 m 16
  archType := load16 m 18
  entry := load32 m 24
  pheaderTablePosition := load32 m 28
  pheaderTableAmount := load16 m 44

structure Elf32Phdr where
  type : Nat
  offset : Nat
  vaddr : Nat
  filesize : Nat
  memsize : Nat
  flags : Nat
deriving DecidableEq

def sizeofElf32Phdr : Nat := 32

/-- `elf_program_table[i]` -/
def elf32PhdrAt (m : Bytes) (i : Nat) : Elf32Phdr :=
  let p := sizeofElf32Phdr * i
  ⟨load32 m p, load32 m (p + 4), load32 m (p + 8), load32 m (p + 16), load32 m (p + 20),
    load32 m (p + 24)⟩

/-- `vaddr + memsize` -/
def Elf32Phdr.stop (phdr : Elf32Phdr) : Nat := add32 phdr.vaddr phdr.memsize

/-- What is done to the address space. -/
inductive SpaceOp where
  | mapMem (startaddr endaddr : Nat) (writable : Bool)
  | memset (addr size : Nat)
  | vfsRead (addr offset size : Nat)
deriving DecidableEq

/-- The task, `errno`, how many blocks `kmalloc` has given out that were not freed, and what was
done to the address space. -/
structure ExecState where
  programStart : Nat
  programBreak : Nat
  errno : Int
  blocks : Nat
  ops : List SpaceOp
deriving DecidableEq

def elfCheckSupport (hdr : Elf32Hdr) : Bool :=
  hdr.magic = elfMagic ∧ hdr.bitType = elfBit32 ∧ hdr.archType = elfArchX86 ∧
    ¬ hdr.elfHeaderVersion < elfSupported ∧ hdr.type = elfTypeExec

/-- `_elf_load_pheader` -/
def elfLoadPheader (phdr : Elf32Phdr) : List SpaceOp :=
  [.mapMem phdr.vaddr phdr.stop (phdr.flags &&& 2 ≠ 0), .memset phdr.vaddr phdr.memsize,
    .vfsRead phdr.vaddr phdr.offset phdr.filesize] ++
  if phdr.filesize < phdr.memsize then
    [.memset (add32 phdr.vaddr phdr.filesize) (phdr.memsize - phdr.filesize)] else []

/-- The first loop: `false` if it ends at a bad header. -/
def loadLoop : List Elf32Phdr → ExecState → Bool × ExecState
  | [], s => (true, s)
  | phdr :: table, s =>
    if phdr.memsize < phdr.filesize then (false, { s with errno := enoexec })
    else if phdr.type = elfPhdrNull then loadLoop table s
    else if phdr.type = elfPhdrLoad then
      loadLoop table { s with ops := s.ops ++ elfLoadPheader phdr }
    else loadLoop table s

/-- The second loop: `pbrk` and `pstrt`. -/
def boundsLoop : List Elf32Phdr → (pbrk pstrt : Nat) → Nat × Nat
  | [], pbrk, pstrt => (pbrk, pstrt)
  | phdr :: table, pbrk, pstrt =>
    boundsLoop table (if pbrk < phdr.stop then phdr.stop else pbrk)
      (if phdr.vaddr < pstrt then phdr.vaddr else pstrt)

/-- The headers that the loops go over. -/
def programTable (hdr : Elf32Hdr) (m : Bytes) : List Elf32Phdr :=
  (List.range hdr.pheaderTableAmount).map (elf32PhdrAt m)

/-- `_elf_loop_over_program_table` -/
def elfLoopOverProgramTable (hdr : Elf32Hdr) (m : Bytes) (s : ExecState) : Bool × ExecState :=
  let table := programTable hdr m
  match loadLoop table s with
  | (false, s) => (false, s)
  | (true, s) =>
    let (pbrk, pstrt) := boundsLoop table.tail (elf32PhdrAt m 0).stop (elf32PhdrAt m 0).vaddr
    (true, { s with programBreak := pbrk, programStart := pstrt })

/-- What `vfs_read` of a position and a size does to a block. -/
abbrev VfsRead := Nat → Nat → Bytes → Bytes

/-- The file header as it is read. -/
def fileHdr (vfsRead : VfsRead) (block : Bytes) : Elf32Hdr :=
  elf32HdrAt (vfsRead 0 sizeofElf32Hdr block)

/-- The program table as it is read. -/
def fileTable (vfsRead : VfsRead) (hdr : Elf32Hdr) (block : Bytes) : Bytes :=
  vfsRead hdr.pheaderTablePosition (sizeofElf32Phdr * hdr.pheaderTableAmount) block

/-- `block` and `block'` are what `kmalloc` gives. -/
def loadElfIntoMem (vfsRead : VfsRead) (block block' : Bytes) (s : ExecState) :
    Nat × ExecState :=
  let hdr := fileHdr vfsRead block
  let s := { s with blocks := s.blocks + 1 }
  if elfCheckSupport hdr then
    let s := { s with blocks := s.blocks + 1 }
    match elfLoopOverProgramTable hdr (fileTable vfsRead hdr block') s with
    | (false, s) => (0, s)
    | (true, s) => (hdr.entry, { s with blocks := s.blocks - 2 })
  else (0, { s with errno := enoexec })

/-- Either a header is bad, or the segments of all headers to load were loaded. -/
theorem loadLoop_eq (table : List Elf32Phdr) (s : ExecState) :
    (loadLoop table s).1 = decide (∀ phdr ∈ table, phdr.filesize ≤ phdr.memsize) ∧
      (loadLoop table s).2.blocks = s.blocks ∧
      ((loadLoop table s).1 = true → (loadLoop table s).2.ops =
        s.ops ++ (table.filter (·.type = elfPhdrLoad)).flatMap elfLoadPheader) := by
  induction table generalizing s with
  | nil => simp [loadLoop]
  | cons phdr table ih =>
    rw [loadLoop]
    by_cases bad : phdr.memsize < phdr.filesize
    · rw [if_pos bad]
      simp [Nat.not_le.mpr bad]
    rw [if_neg bad]
    by_cases load : phdr.type = elfPhdrLoad
    · have some : ¬ elfPhdrLoad = elfPhdrNull := by decide
      obtain ⟨whole, blocks, ops⟩ := ih { s with ops := s.ops ++ elfLoadPheader phdr }
      rw [load, if_neg some, if_pos rfl]
      refine ⟨by simp [whole, Nat.not_lt.mp bad], blocks, fun all => ?_⟩
      simp [ops all, load]
    obtain ⟨whole, blocks, ops⟩ := ih s
    have rest : (if phdr.type = elfPhdrNull then loadLoop table s
        else if phdr.type = elfPhdrLoad then
          loadLoop table { s with ops := s.ops ++ elfLoadPheader phdr }
        else loadLoop table s) = loadLoop table s := by
      rw [if_neg load, ite_self]
    rw [rest]
    refine ⟨by simp [whole, Nat.not_lt.mp bad], blocks, fun all => ?_⟩
    simp [ops all, load]

/-- The second loop finds the last end and the first address of all headers. -/
theorem boundsLoop_eq {headers : Set Elf32Phdr} {pbrk pstrt : Nat}
    (greatest : IsGreatest (Elf32Phdr.stop '' headers) pbrk)
    (least : IsLeast (Elf32Phdr.vaddr '' headers) pstrt) (table : List Elf32Phdr) :
    IsGreatest (Elf32Phdr.stop '' (headers ∪ {phdr | phdr ∈ table}))
        (boundsLoop table pbrk pstrt).1 ∧
      IsLeast (Elf32Phdr.vaddr '' (headers ∪ {phdr | phdr ∈ table}))
        (boundsLoop table pbrk pstrt).2 := by
  induction table generalizing headers pbrk pstrt with
  | nil => simpa [boundsLoop] using ⟨greatest, least⟩
  | cons phdr table ih =>
    have union : headers ∪ {ne | ne ∈ phdr :: table} = insert phdr headers ∪ {ne | ne ∈ table} := by
      ext ne
      simp [or_left_comm, or_assoc]
    rw [union, boundsLoop]
    have last : (if pbrk < phdr.stop then phdr.stop else pbrk) = max phdr.stop pbrk := by
      rw [max_comm, max_def_lt]
    have first : (if phdr.vaddr < pstrt then phdr.vaddr else pstrt) = min phdr.vaddr pstrt := by
      rw [min_def_lt]
    rw [last, first]
    apply ih
    · rw [Set.image_insert_eq]
      exact greatest.insert phdr.stop
    · rw [Set.image_insert_eq]
      exact least.insert phdr.vaddr

/-! ## The bounds of the program -/

/-- The headers that are loaded. -/
def loads (table : List Elf32Phdr) : Set Elf32Phdr :=
  {phdr | phdr ∈ table ∧ phdr.type = elfPhdrLoad}

variable {vfsRead : VfsRead} {block block' : Bytes} {s s' : ExecState} {entry : Nat}

/-- The headers of a file. -/
def fileHeaders (vfsRead : VfsRead) (block block' : Bytes) : List Elf32Phdr :=
  programTable (fileHdr vfsRead block) (fileTable vfsRead (fileHdr vfsRead block) block')

/-- The bounds that a file gives to the task, `program_break` first. -/
def fileBounds (vfsRead : VfsRead) (block block' : Bytes) : Nat × Nat :=
  let first := elf32PhdrAt (fileTable vfsRead (fileHdr vfsRead block) block') 0
  boundsLoop (fileHeaders vfsRead block block').tail first.stop first.vaddr

/-- The three ways in which a file is handled. -/
theorem loadElfIntoMem_eq (loaded : loadElfIntoMem vfsRead block block' s = (entry, s')) :
    (elfCheckSupport (fileHdr vfsRead block) = false ∧ entry = 0 ∧ s'.blocks = s.blocks + 1) ∨
    (¬ (∀ phdr ∈ fileHeaders vfsRead block block', phdr.filesize ≤ phdr.memsize) ∧ entry = 0 ∧
      s'.blocks = s.blocks + 2) ∨
    (elfCheckSupport (fileHdr vfsRead block) = true ∧
      (∀ phdr ∈ fileHeaders vfsRead block block', phdr.filesize ≤ phdr.memsize) ∧
      s'.blocks = s.blocks ∧ (s'.programBreak, s'.programStart) = fileBounds vfsRead block block' ∧
      s'.ops = s.ops ++ ((fileHeaders vfsRead block block').filter (·.type = elfPhdrLoad)).flatMap
        elfLoadPheader) := by
  rw [loadElfIntoMem] at loaded
  cases supported : elfCheckSupport (fileHdr vfsRead block) with
  | false =>
    simp only [supported, Bool.false_eq_true, if_false, Prod.mk.injEq] at loaded
    obtain ⟨rfl, rfl⟩ := loaded
    exact .inl ⟨rfl, rfl, rfl⟩
  | true =>
    simp only [supported, if_true, elfLoopOverProgramTable] at loaded
    obtain ⟨whole, blocks, ops⟩ := loadLoop_eq (fileHeaders vfsRead block block')
      { s with blocks := s.blocks + 1 + 1 }
    rw [← fileHeaders] at loaded
    rcases run : loadLoop (fileHeaders vfsRead block block')
      { s with blocks := s.blocks + 1 + 1 } with ⟨good, final⟩
    rw [run] at whole blocks ops loaded
    cases good with
    | false =>
      obtain ⟨rfl, rfl⟩ := Prod.mk.inj loaded
      exact .inr (.inl ⟨of_decide_eq_false whole.symm, rfl, blocks⟩)
    | true =>
      obtain ⟨rfl, rfl⟩ := Prod.mk.inj loaded
      refine .inr (.inr ⟨rfl, of_decide_eq_true whole.symm, ?_, rfl, ops rfl⟩)
      exact congrArg (· - 2) blocks

/-- The recorded bounds are those of all headers. -/
theorem fileBounds_spec (some : fileHeaders vfsRead block block' ≠ []) :
    IsGreatest (Elf32Phdr.stop '' {phdr | phdr ∈ fileHeaders vfsRead block block'})
        (fileBounds vfsRead block block').1 ∧
      IsLeast (Elf32Phdr.vaddr '' {phdr | phdr ∈ fileHeaders vfsRead block block'})
        (fileBounds vfsRead block block').2 := by
  have first : fileHeaders vfsRead block block' =
      elf32PhdrAt (fileTable vfsRead (fileHdr vfsRead block) block') 0 ::
        (fileHeaders vfsRead block block').tail := by
    cases amount : (fileHdr vfsRead block).pheaderTableAmount with
    | zero => simp [fileHeaders, programTable, amount] at some
    | succ n => simp [fileHeaders, programTable, amount, List.range_succ_eq_map]
  have one : ∀ (f : Elf32Phdr → Nat) phdr, IsGreatest (f '' {phdr}) (f phdr) ∧
      IsLeast (f '' {phdr}) (f phdr) := fun f phdr => by
    rw [Set.image_singleton]
    exact ⟨isGreatest_singleton, isLeast_singleton⟩
  have all : {elf32PhdrAt (fileTable vfsRead (fileHdr vfsRead block) block') 0} ∪
      {phdr | phdr ∈ (fileHeaders vfsRead block block').tail} =
        {phdr | phdr ∈ fileHeaders vfsRead block block'} := by
    rw [first]
    ext phdr
    simp
  rw [← all]
  exact boundsLoop_eq (one Elf32Phdr.stop _).1 (one Elf32Phdr.vaddr _).2
    (fileHeaders vfsRead block block').tail

/-- No header reaches beyond the loaded segments. -/
def Enclosed (table : List Elf32Phdr) : Prop :=
  ∀ phdr ∈ table, (∃ load ∈ loads table, load.vaddr ≤ phdr.vaddr) ∧
    ∃ load ∈ loads table, phdr.stop ≤ load.stop

/-- The address lies in a loaded segment. -/
def InImage (table : List Elf32Phdr) (addr : Nat) : Prop :=
  ∃ load ∈ loads table, load.vaddr ≤ addr ∧ addr < load.vaddr + load.memsize

/-- The loaded segments leave no gap between them. -/
def Gapless (table : List Elf32Phdr) : Prop :=
  ∀ addr, (∃ load ∈ loads table, load.vaddr ≤ addr) → (∃ load ∈ loads table, addr < load.stop) →
    InImage table addr

/-- The running task as the page fault handler finds it. -/
def ExecState.onto (s : ExecState) (t : Mm.Tasks) : Mm.Tasks := { t with
    programStart := Function.update t.programStart t.gRunningtask s.programStart
    programBreak := Function.update t.programBreak t.gRunningtask s.programBreak }

theorem demandZeroed_onto {t : Mm.Tasks} {addr : Nat} :
    Mm.Fault.DemandZeroed (s.onto t) addr ↔ s.programStart ≤ addr ∧ addr ≤ s.programBreak := by
  simp only [Mm.Fault.DemandZeroed, ExecState.onto, Function.update_self]

/-- The recorded bounds of a loaded file are those of all its headers. -/
theorem loadElfIntoMem_bounds (loaded : loadElfIntoMem vfsRead block block' s = (entry, s'))
    (success : entry ≠ 0) (some : (loads (fileHeaders vfsRead block block')).Nonempty) :
    IsGreatest (Elf32Phdr.stop '' {phdr | phdr ∈ fileHeaders vfsRead block block'})
        s'.programBreak ∧
      IsLeast (Elf32Phdr.vaddr '' {phdr | phdr ∈ fileHeaders vfsRead block block'})
        s'.programStart := by
  have bounds : (s'.programBreak, s'.programStart) = fileBounds vfsRead block block' := by
    rcases loadElfIntoMem_eq loaded with ⟨-, zero, -⟩ | ⟨-, zero, -⟩ | ⟨-, -, -, bounds, -⟩
    · exact absurd zero success
    · exact absurd zero success
    · exact bounds
  obtain ⟨load, mem⟩ := some
  have spec := fileBounds_spec (List.ne_nil_of_mem mem.1)
  rwa [← bounds] at spec

section

variable {table : List Elf32Phdr} {pbrk pstrt : Nat}
  (greatest : IsGreatest (Elf32Phdr.stop '' {phdr | phdr ∈ table}) pbrk)
  (least : IsLeast (Elf32Phdr.vaddr '' {phdr | phdr ∈ table}) pstrt)

include greatest least

/-- The bounds of all headers are those of the loaded ones exactly if those enclose the others. -/
theorem bounds_loads_iff :
    (IsLeast (Elf32Phdr.vaddr '' loads table) pstrt ∧
      IsGreatest (Elf32Phdr.stop '' loads table) pbrk) ↔ Enclosed table := by
  constructor
  · rintro ⟨⟨⟨low, isLoad, first⟩, -⟩, ⟨high, isLoad', last⟩, -⟩ phdr header
    refine ⟨⟨low, isLoad, ?_⟩, high, isLoad', ?_⟩
    · rw [first]
      exact least.2 ⟨phdr, header, rfl⟩
    · rw [last]
      exact greatest.2 ⟨phdr, header, rfl⟩
  · intro enclosed
    obtain ⟨⟨low, header, first⟩, lower⟩ := least
    obtain ⟨⟨high, header', last⟩, upper⟩ := greatest
    obtain ⟨first', isLoad, below⟩ := (enclosed low header).1
    obtain ⟨last', isLoad', above⟩ := (enclosed high header').2
    refine ⟨⟨⟨first', isLoad, ?_⟩, ?_⟩, ⟨last', isLoad', ?_⟩, ?_⟩
    · exact le_antisymm (below.trans_eq first) (lower ⟨first', isLoad.1, rfl⟩)
    · rintro _ ⟨phdr, isLoad, rfl⟩
      exact lower ⟨phdr, isLoad.1, rfl⟩
    · exact le_antisymm (upper ⟨last', isLoad'.1, rfl⟩) (last.symm.trans_le above)
    · rintro _ ⟨phdr, isLoad, rfl⟩
      exact upper ⟨phdr, isLoad.1, rfl⟩

variable (valid : ∀ load ∈ loads table, load.vaddr + load.memsize < 2 ^ 32)

include valid

/-- A loaded segment lies between the bounds. -/
theorem load_between {load : Elf32Phdr} (isLoad : load ∈ loads table) :
    pstrt ≤ load.vaddr ∧ load.stop = load.vaddr + load.memsize ∧ load.stop ≤ pbrk :=
  ⟨least.2 ⟨load, isLoad.1, rfl⟩, Nat.mod_eq_of_lt (valid load isLoad),
    greatest.2 ⟨load, isLoad.1, rfl⟩⟩

theorem not_inImage_break : ¬ InImage table pbrk := by
  rintro ⟨load, isLoad, -, inside⟩
  obtain ⟨-, stop, le⟩ := load_between greatest least valid isLoad
  omega

/-- The addresses in front of the end are those of loaded segments exactly if these enclose the
other headers and leave no gap. -/
theorem range_inImage_iff (some : (loads table).Nonempty) :
    (∀ addr, pstrt ≤ addr → addr < pbrk → InImage table addr) ↔
      Enclosed table ∧ Gapless table := by
  have between (load : Elf32Phdr) := @load_between _ _ _ greatest least valid load
  constructor
  · intro inImage
    constructor
    · intro phdr header
      have low : pstrt ≤ phdr.vaddr := least.2 ⟨phdr, header, rfl⟩
      have high : phdr.stop ≤ pbrk := greatest.2 ⟨phdr, header, rfl⟩
      obtain ⟨load, isLoad⟩ := some
      obtain ⟨first, stop, last⟩ := between load isLoad
      rcases Nat.lt_or_ge pstrt pbrk with room | empty
      · obtain ⟨load1, isLoad1, from1, -⟩ := inImage pstrt le_rfl room
        obtain ⟨load2, isLoad2, -, upto⟩ := inImage (pbrk - 1) (by omega) (by omega)
        obtain ⟨-, stop2, -⟩ := between load2 isLoad2
        exact ⟨⟨load1, isLoad1, by omega⟩, load2, isLoad2, by omega⟩
      · -- all headers are empty and at one place, that of any loaded segment
        exact ⟨⟨load, isLoad, by omega⟩, load, isLoad, by omega⟩
    · rintro addr ⟨load1, isLoad1, from1⟩ ⟨load2, isLoad2, upto⟩
      obtain ⟨first, -, -⟩ := between load1 isLoad1
      obtain ⟨-, -, last⟩ := between load2 isLoad2
      exact inImage addr (by omega) (by omega)
  · rintro ⟨enclosed, gapless⟩ addr low high
    obtain ⟨⟨first, header, rfl⟩, -⟩ := least
    obtain ⟨⟨last, header', rfl⟩, -⟩ := greatest
    obtain ⟨load1, isLoad1, below⟩ := (enclosed first header).1
    obtain ⟨load2, isLoad2, above⟩ := (enclosed last header').2
    exact gapless addr ⟨load1, isLoad1, by omega⟩ ⟨load2, isLoad2, by omega⟩

end

/-- A file with two headers; the first loads 16 bytes at 0x1000. -/
def twoHeaders (type vaddr filesize memsize : UInt8) : List UInt8 :=
  [127, 69, 76, 70, 1, 1, 1, 0, 0, 0, 0, 0, 0, 0, 0, 0, 2, 0, 3, 0, 1, 0, 0, 0, 0, 16, 0, 0,
    52, 0, 0, 0, 0, 0, 0, 0, 0, 0, 0, 0, 52, 0, 32, 0, 2, 0, 0, 0, 0, 0, 0, 0] ++
  [1, 0, 0, 0, 0, 0, 0, 0, 0, 16, 0, 0, 0, 0, 0, 0, 16, 0, 0, 0, 16, 0, 0, 0, 2, 0, 0, 0,
    0, 0, 0, 0] ++
  [type, 0, 0, 0, 0, 0, 0, 0, 0, vaddr, 0, 0, 0, 0, 0, 0, filesize, 0, 0, 0, memsize, 0, 0, 0,
    0, 0, 0, 0, 0, 0, 0, 0]

/-- Reads that stay in the one block of a short file. -/
def shortRead (file : List UInt8) (position size : Nat) (block : Bytes) : Bytes :=
  blit block 0 (fun i => file.getD i 0) position size

def fresh : ExecState := ⟨0, 0, 0, 0, []⟩

/-- The headers of the short file. -/
def twoTable (type vaddr filesize memsize : UInt8) : List Elf32Phdr :=
  fileHeaders (shortRead (twoHeaders type vaddr filesize memsize)) (fun _ => 0) fun _ => 0

/-- The short file is loaded. -/
def loadTwo (type vaddr filesize memsize : UInt8) : Nat × ExecState :=
  loadElfIntoMem (shortRead (twoHeaders type vaddr filesize memsize)) (fun _ => 0) (fun _ => 0)
    fresh

/-- The recorded bounds are those of the loaded segments exactly if no other header reaches beyond
them.  The faults that are answered with a zeroed page are then in loaded segments exactly if these
leave no gap, apart from one at the end, which is answered and never in a segment. -/
theorem program_bounds_iff (loaded : loadElfIntoMem vfsRead block block' s = (entry, s'))
    (success : entry ≠ 0) {table : List Elf32Phdr}
    (headers : fileHeaders vfsRead block block' = table) (some : (loads table).Nonempty) :
    ((IsLeast (Elf32Phdr.vaddr '' loads table) s'.programStart ∧
      IsGreatest (Elf32Phdr.stop '' loads table) s'.programBreak) ↔ Enclosed table) ∧
    ((∀ load ∈ loads table, load.vaddr + load.memsize < 2 ^ 32) → ∀ t : Mm.Tasks,
      ((∀ addr, Mm.Fault.DemandZeroed (s'.onto t) addr → addr ≠ s'.programBreak →
        InImage table addr) ↔ Enclosed table ∧ Gapless table) ∧
      ¬ InImage table s'.programBreak ∧
      ∀ kheap errCode p, Mm.isAddrInHeap s'.programBreak t.heaps = Option.some 0 →
        errCode &&& 0x1 = 0 →
        Mm.Fault.pageFault kheap (s'.onto t) s'.programBreak errCode p =
          Mm.Fault.zeroPage kheap s'.programBreak p.gCurrentDirectory (t.ring t.gRunningtask)
            p) := by
  subst headers
  obtain ⟨greatest, least⟩ := loadElfIntoMem_bounds loaded success some
  refine ⟨bounds_loads_iff greatest least, fun valid t => ⟨?_, ?_, ?_⟩⟩
  · rw [← range_inImage_iff greatest least valid some]
    simp only [demandZeroed_onto]
    constructor
    · exact fun inImage addr low high => inImage addr ⟨low, high.le⟩ high.ne
    · exact fun inImage addr range apart => inImage addr range.1 (lt_of_le_of_ne range.2 apart)
  · exact not_inImage_break greatest least valid
  · intro kheap errCode p outside notPresent
    obtain ⟨load, isLoad⟩ := some
    obtain ⟨first, stop, last⟩ := load_between greatest least valid isLoad
    exact Mm.Fault.pageFault_demandZeroed (t := s'.onto t) outside notPresent
      (demandZeroed_onto.mpr ⟨by omega, le_rfl⟩)

/-- A segment of 16 bytes at 0x1000 and a header of type 4 inside it. -/
def noteInside : List Elf32Phdr := [⟨1, 0, 4096, 16, 16, 2⟩, ⟨4, 0, 4096, 0, 8, 0⟩]

theorem program_bounds_inside :
    (IsLeast (Elf32Phdr.vaddr '' loads noteInside) (loadTwo 4 16 0 8).2.programStart ∧
      IsGreatest (Elf32Phdr.stop '' loads noteInside) (loadTwo 4 16 0 8).2.programBreak) ∧
    ∀ addr, Mm.Fault.DemandZeroed ((loadTwo 4 16 0 8).2.onto Mm.clearedTasks) addr →
      addr ≠ (loadTwo 4 16 0 8).2.programBreak → InImage noteInside addr := by
  have isLoad : ⟨1, 0, 4096, 16, 16, 2⟩ ∈ loads noteInside := ⟨List.mem_cons_self, rfl⟩
  have segment : ∀ load ∈ loads noteInside, load = ⟨1, 0, 4096, 16, 16, 2⟩ := by
    rintro load ⟨mem, type⟩
    rcases List.mem_pair.mp mem with rfl | rfl
    · rfl
    · cases type
  have enclosed : Enclosed noteInside := by
    intro phdr header
    refine ⟨⟨_, isLoad, ?_⟩, _, isLoad, ?_⟩
    all_goals rcases List.mem_pair.mp header with rfl | rfl <;> decide
  have gapless : Gapless noteInside := by
    rintro addr ⟨load, mem, low⟩ ⟨load', mem', high⟩
    rw [segment load mem] at low
    rw [segment load' mem'] at high
    exact ⟨_, isLoad, low, high⟩
  obtain ⟨bounds, range⟩ := program_bounds_iff (Prod.mk.eta (p := loadTwo 4 16 0 8)).symm
    (by decide +kernel) (by decide +kernel : twoTable 4 16 0 8 = noteInside) ⟨_, isLoad⟩
  refine ⟨bounds.mpr enclosed, (range ?_ Mm.clearedTasks).1.mpr ⟨enclosed, gapless⟩⟩
  intro load mem
  rw [segment load mem]
  decide

/-- A header of type 4 without an address, as a note or the stack has, moves the start to 0, so that
the null pointer is answered with a page. -/
theorem program_bounds_note :
    (loadTwo 4 0 0 0).1 = 4096 ∧ (loadTwo 4 0 0 0).2.programStart = 0 ∧
      ((twoTable 4 0 0 0).filter (·.type = elfPhdrLoad)).map (·.vaddr) = [4096] ∧
      Mm.Fault.DemandZeroed ((loadTwo 4 0 0 0).2.onto Mm.clearedTasks) 0 := by
  decide +kernel

/-! ## Rejected files -/

end Yanix.Execute
