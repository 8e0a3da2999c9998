/-
Module: Yanix.Proofs.FilePosition
Purpose: The position of a descriptor along any reads and writes.  Both functions add what they
  return to it, an error code as well.
-/
import Yanix.Proofs.DescriptorTable
import Yanix.Proofs.FileWrite

namespace Yanix.Fs

open Foundation Ds Function Option

variable {σ : Type}

/-- A call of `vfs_read_fd` or `vfs_write_fd`. -/
inductive Transfer where
  | read (buf : Bytes) (amount : Nat) (fresh : Nat → Bytes)
  | write (buf : Bytes) (amount : Nat) (fresh : Nat → Bytes)

namespace Transfer

def run (fds : Nat) (fd : Int) (s : Files σ) : Transfer → Except Fault (Option (Int × Files σ))
  | read buf amount fresh => do
    let result ← vfsReadFd fds fd buf amount fresh s
    return result.map fun (ret, _, s) => (ret, s)
  | write buf amount fresh => vfsWriteFd fds fd buf amount fresh s

end Transfer

/-- The open descriptor of that number. -/
def descriptor (fds fd : Nat) (s : Files σ) : Option Ds.FileDescriptor :=
  (heapView s.heap fds).bind fun t => t fd

/-- `seek` as the `int` it is. -/
def position (d : Ds.FileDescriptor) : Int := toSigned d.seek.toNat

/-- What the call that returned `ret` should have made of the descriptor. -/
structure Moves (before after : Ds.FileDescriptor) (ret : Int) : Prop where
  counted : 0 ≤ ret → position after = position before + ret
  failed : ret = -1 → position after = position before
  node : after.node = before.node
  mode : after.mode = before.mode
  flags : after.flags = before.flags

/-- Every call that returns moves the descriptor as it should. -/
def Follows (fds fd : Nat) : List Transfer → Files σ → Prop
  | [], _ => True
  | call :: calls, s =>
    match call.run fds fd s with
    | .error _ => False
    | .ok none => True
    | .ok (some (ret, s')) =>
      (∃ before after, descriptor fds fd s = some before ∧ descriptor fds fd s' = some after ∧
        Moves before after ret) ∧ Follows fds fd calls s'

/-! ## What a call comes to -/

/-- The node has no way to transfer anything because `fs_info` is null, the call goes on
waiting, the file system lacks the function, or a function answered. -/
inductive Outcome (σ : Type) where
  | fault
  | waiting
  | unsupported
  | done (ret : Int) (file : VfsNode) (device : σ)

/-- The dispatch of `_vfs_read` and `_vfs_write`. -/
def Transfer.outcome (node : FileNode σ) (d : Ds.FileDescriptor) (device : σ) : Transfer → Outcome σ
  | .read buf amount fresh =>
    match node.read with
    | some own =>
      match own node.file d.seek.toNat buf amount d.flags device with
      | none => .waiting
      | some (ret, _, device) => .done ret node.file device
    | none =>
      match node.fsInfo with
      | none => .fault
      | some fsInfo =>
        if fsInfo.blockRead then
          .done (fsRead node.file fsInfo.fs (toSigned d.seek.toNat) buf amount
            (toSigned d.flags.toNat) fresh device).1 node.file device
        else .unsupported
  | .write buf amount fresh =>
    match node.write with
    | some own =>
      match own node.file d.seek.toNat buf amount d.flags device with
      | none => .waiting
      | some (ret, device) => .done ret node.file device
    | none =>
      match node.fsInfo with
      | none => .fault
      | some fsInfo =>
        if fsInfo.blockWrite then
          let (ret, file, device) := fsWrite node.file fsInfo.fs (toSigned d.seek.toNat) buf
            amount (toSigned d.flags.toNat) fresh device
          .done ret file device
        else .unsupported

/-- The descriptor behind a transfer of `ret` bytes. -/
def moved (d : Ds.FileDescriptor) (ret : Int) : Ds.FileDescriptor :=
  { d with seek := d.seek + UInt32.ofNat (ofSigned ret) }

variable {ret : Int} {amount : Nat}

section

variable {fds fd : Nat} {s : Files σ} {v : VectorT} {slots : List Ds.FileDescriptor}
  {d : Ds.FileDescriptor} {node : FileNode σ}

theorem advance_eq (holds : Holds s.heap fds v slots) (found : slots[fd]? = some d) (ret : Int) :
    s.advance (v.vectorBuffer, (fd : Int)) ret =
      .ok { s with heap := s.heap.setBuffer v.vectorBuffer (slots.set fd (moved d ret)) } := by
  have lt : fd < slots.length := (List.getElem?_eq_some_iff.mp found).1
  unfold Files.advance
  simp only [holds.getBuffer, bind, Except.bind, readSlot_eq found, writeSlot_eq lt]
  rfl

theorem run_eq (ne : fds ≠ 0) (holds : Holds s.heap fds v slots)
    (below : (fd : Int) < v.vectorSize) (found : slots[fd]? = some d)
    (there : s.nodes d.node = some node) (call : Transfer) :
    call.run fds fd s = match call.outcome node d s.device with
      | .fault => .error .dangling
      | .waiting => .ok none
      | .unsupported => .ok (some (-1, s))
      | .done ret file device => .ok (some (ret,
          { heap := s.heap.setBuffer v.vectorBuffer (slots.set fd (moved d ret))
            nodes := update s.nodes d.node (some { node with file := file })
            device := device })) := by
  have get : getFiledescriptor fds fd s.heap = .ok (some (v.vectorBuffer, (fd : Int))) := by
    unfold getFiledescriptor vectorGet
    simp only [if_neg (Int.not_lt.mpr (Int.natCast_nonneg fd)), if_pos ne, holds.getVector,
      bind, Except.bind, if_pos below]
    rfl
  have slot := DescriptorTable.slotAt_eq holds found
  have entry : s.getNode d.node = .ok node := by
    unfold Files.getNode
    rw [there]
  have same : update s.nodes d.node (some node) = s.nodes := by
    rw [← there, update_eq_self]
  obtain ⟨file, ownRead, ownWrite, fsInfo⟩ := node
  cases call with
  | read buf amount fresh =>
    simp only [Transfer.run, Transfer.outcome, vfsReadFd, vfsReadStruct, get, slot, entry, bind,
      Except.bind, pure, Except.pure, FileNode.getFsInfo]
    cases ownRead with
    | some own =>
      cases answer : own file d.seek.toNat buf amount d.flags s.device with
      | none => simp only [answer, map_none]
      | some result =>
        have rest := advance_eq (s := { s with device := result.2.2 }) holds found result.1
        simp only [answer, rest, same, map_some]
    | none =>
      cases fsInfo with
      | none => rfl
      | some fsInfo =>
        cases asked : fsInfo.blockRead with
        | false => simp [asked]
        | true => simp only [asked, if_true, advance_eq holds found, same, map_some]
  | write buf amount fresh =>
    simp only [Transfer.run, Transfer.outcome, vfsWriteFd, vfsWriteStruct, get, slot, entry, bind,
      Except.bind, pure, Except.pure, FileNode.getFsInfo]
    cases ownWrite with
    | some own =>
      cases answer : own file d.seek.toNat buf amount d.flags s.device with
      | none => simp only [answer]
      | some result =>
        have rest := advance_eq (s := { s with device := result.2 }) holds found result.1
        simp only [answer, rest, same]
    | none =>
      cases fsInfo with
      | none => rfl
      | some fsInfo =>
        cases asked : fsInfo.blockWrite with
        | false => simp [asked]
        | true =>
          simp only [asked, if_true]
          generalize fsWrite file fsInfo.fs (toSigned d.seek.toNat) buf amount
            (toSigned d.flags.toNat) fresh s.device = result
          have rest := advance_eq (s := { s with
            nodes := update s.nodes d.node (some ⟨result.2.1, ownRead, none, some fsInfo⟩)
            device := result.2.2 }) holds found result.1
          simp only [rest]

theorem position_moved (low : -2 ^ 31 ≤ position d + ret) (high : position d + ret < 2 ^ 31) :
    position (moved d ret) = position d + ret := by
  have seek := d.seek.toNat_lt
  unfold position moved toSigned ofSigned at *
  rw [UInt32.toNat_add, UInt32.toNat_ofNat']
  split at high <;> split <;> omega

/-- The answer is no error, and a count leads to a position that is an `int`. -/
def Counts (d : Ds.FileDescriptor) (ret : Int) : Prop :=
  ret ≠ -1 ∧ (0 ≤ ret → position d + ret < 2 ^ 31)

theorem Counts.moves (counts : Counts d ret) : Moves d (moved d ret) ret where
  counted := fun nonneg => by
    have low : -2 ^ 31 ≤ position d := by
      unfold position toSigned
      split <;> omega
    exact position_moved (by omega) (counts.2 nonneg)
  failed := fun error => absurd error counts.1
  node := rfl
  mode := rfl
  flags := rfl

theorem position_moved_error (d : Ds.FileDescriptor) : position (moved d (-1)) ≠ position d := by
  have seek := d.seek.toNat_lt
  unfold position moved toSigned ofSigned
  rw [UInt32.toNat_add, UInt32.toNat_ofNat']
  split <;> split <;> omega

end

/-! ## Block file systems -/

/-- A count of at most that many. -/
def Within (ret : Int) (most : Nat) : Prop := 0 ≤ ret ∧ ret ≤ most

/-- The file system transfers between none and all of the blocks it is asked for. -/
structure Honest (fs : Filesystem σ) : Prop where
  pos : 0 < fs.blockSize
  read : ∀ offset blk buf k count st, Within (fs.blockRead offset blk buf k count st).1 count
  write : ∀ offset blk buf k count st, Within (fs.blockWrite offset blk buf k count st).1 count

theorem within_toSigned {n most : Nat} (le : n ≤ most) (lt : most < 2 ^ 31) :
    Within (toSigned n) most := by
  rw [toSigned_of_lt (by omega)]
  exact ⟨Int.natCast_nonneg n, Int.ofNat_le.mpr le⟩

theorem within_sum {n m most : Nat} (le : n + m ≤ most) (lt : most < 2 ^ 31) :
    Within (toSigned (add32 n m)) most := by
  rw [add32_of_lt (by omega)]
  exact within_toSigned le lt

theorem transferred_bytes {blks : Int} {q : Nat} (blocksize : Nat) (within : Within blks q)
    (lt : q * blocksize < 2 ^ 31) (qSmall : q < 2 ^ 31) :
    mul32 (ofSigned blks) blocksize ≤ q * blocksize := by
  obtain ⟨n, rfl⟩ := Int.eq_ofNat_of_zero_le within.1
  have fewer : n ≤ q := Int.ofNat_le.mp within.2
  have bytes := Nat.mul_le_mul_right blocksize fewer
  rw [ofSigned_natCast (by omega), mul32_of_lt (by omega)]
  exact bytes

section

variable {fs : Filesystem σ} {ret q eRest most : Nat}

theorem fsReadTail_within (le : ret + eRest ≤ most) (lt : most < 2 ^ 31) (node : VfsNode)
    (fs : Filesystem σ) (fresh : Bytes) (st : σ) (buf : Bytes) (blk k : Nat) :
    Within (fsReadTail node fs fresh st eRest buf blk k ret).1 most := by
  have stop : Within (toSigned ret) most := within_toSigned (by omega) lt
  unfold fsReadTail
  split
  · dsimp only
    split
    · exact stop
    · exact within_sum le lt
  · exact stop

theorem fsReadBody_within (honest : Honest fs) (le : ret + q * fs.blockSize + eRest ≤ most)
    (lt : most < 2 ^ 31) (node : VfsNode) (fresh : Bytes) (st : σ) (buf : Bytes)
    (blk k : Nat) :
    Within (fsReadBody node fs fresh st (toSigned q) eRest buf blk k ret).1 most := by
  have count : q ≤ q * fs.blockSize := Nat.le_mul_of_pos_right q honest.pos
  have signed : toSigned q = q := toSigned_of_lt (by omega)
  have asked : ofSigned (q : Int) = q := ofSigned_natCast (by omega)
  unfold fsReadBody
  rw [signed]
  split
  · rcases answer : fs.blockRead node.offset blk buf k q st with ⟨blks, data⟩
    have within : Within blks q := by
      have bounds := honest.read node.offset blk buf k q st
      rwa [answer] at bounds
    have bytes := transferred_bytes fs.blockSize within (by omega) (by omega)
    simp only [asked, answer]
    split
    · exact within_sum (by omega) lt
    · rw [add32_of_lt (show ret + mul32 (ofSigned blks) fs.blockSize < 2 ^ 32 by omega)]
      exact fsReadTail_within (by omega) lt ..
  · exact fsReadTail_within (by omega) lt ..

theorem fsWriteBody_within (honest : Honest fs) (le : ret + q * fs.blockSize + eRest ≤ most)
    (lt : most < 2 ^ 31) (node : VfsNode) (fresh : Bytes) (seek : Int) (buf : Bytes)
    (blk k : Nat) (st : σ) :
    Within (fsWriteBody node fs fresh seek (toSigned q) eRest buf blk k ret st).1 most := by
  have count : q ≤ q * fs.blockSize := Nat.le_mul_of_pos_right q honest.pos
  have signed : toSigned q = q := toSigned_of_lt (by omega)
  have asked : ofSigned (q : Int) = q := ofSigned_natCast (by omega)
  unfold fsWriteBody
  rw [signed]
  split
  · rcases answer : fs.blockWrite node.offset blk buf k q st with ⟨blks, st'⟩
    have within : Within blks q := by
      have bounds := honest.write node.offset blk buf k q st
      rwa [answer] at bounds
    have bytes := transferred_bytes fs.blockSize within (by omega) (by omega)
    simp only [asked, answer]
    split
    · exact within_sum (by omega) lt
    rw [StoresBlocks.tail_ret _ _ _ _ _ _ _ _ (add32_lt ..),
      add32_of_lt (show ret + mul32 (ofSigned blks) fs.blockSize < 2 ^ 32 by omega)]
    exact within_sum (by omega) lt
  · rw [StoresBlocks.tail_ret _ _ _ _ _ _ _ _ (by omega)]
    exact within_sum (by omega) lt

theorem headSize_le (blocksize rest amount : Nat) : headSize blocksize rest amount ≤ blocksize := by
  unfold headSize
  split <;> omega

theorem fsRead_within (honest : Honest fs) (lt : amount + 2 * fs.blockSize < 2 ^ 31)
    (node : VfsNode) (seek : Int) (buf : Bytes) (flags : Int) (fresh : Nat → Bytes) (st : σ) :
    Within (fsRead node fs seek buf amount flags fresh st).1 (amount + 2 * fs.blockSize) := by
  have whole := Nat.div_mul_le_self amount fs.blockSize
  have partly := endRest_le (ofSigned seek) amount honest.pos
  have head := headSize_le fs.blockSize (ofSigned seek % fs.blockSize) amount
  unfold fsRead
  dsimp only
  split
  · split
    · exact ⟨Int.le_refl 0, Int.natCast_nonneg _⟩
    · exact fsReadBody_within honest (by omega) lt ..
  · exact fsReadBody_within honest (by omega) lt ..

theorem fsWrite_within (honest : Honest fs) {seek : Int} (lt : amount + 2 * fs.blockSize < 2 ^ 31)
    (part : endRest fs.blockSize (ofSigned seek) amount ≤ amount) (node : VfsNode) (buf : Bytes)
    (flags : Int) (fresh : Nat → Bytes) (st : σ) :
    Within (fsWrite node fs seek buf amount flags fresh st).1 (amount + 2 * fs.blockSize) := by
  have whole := Nat.div_mul_le_self (amount - endRest fs.blockSize (ofSigned seek) amount)
    fs.blockSize
  have partly := endRest_le (ofSigned seek) amount honest.pos
  have head := headSize_le fs.blockSize (ofSigned seek % fs.blockSize) amount
  unfold fsWrite
  dsimp only
  rw [sub32_of_le part (by omega)]
  split
  · apply fsWriteBody_within honest _ lt
    split <;> omega
  · exact fsWriteBody_within honest (by omega) lt ..

end

/-! ## Sequences of calls -/

/-- The position stays an `int` even if a block more than asked for is transferred at
either end. -/
def RoomAt (d : Ds.FileDescriptor) (fs : Filesystem σ) (amount : Nat) : Prop :=
  amount + 2 * fs.blockSize < 2 ^ 31 ∧ position d + (amount + 2 * fs.blockSize : Nat) < 2 ^ 31

theorem Within.counts {d : Ds.FileDescriptor} {fs : Filesystem σ}
    (within : Within ret (amount + 2 * fs.blockSize)) (roomy : RoomAt d fs amount) :
    Counts d ret := by
  have nonneg := within.1
  have most := within.2
  have room := roomy.2
  exact ⟨by omega, fun _ => by omega⟩

/-- The node can transfer, its own functions answer no -1, and its file system transfers
between none and all of the blocks asked for. -/
def Tracked (node : FileNode σ) (d : Ds.FileDescriptor) (device : σ) : Transfer → Prop
  | .read buf amount _ =>
    match node.read with
    | some own => ∀ answer, own node.file d.seek.toNat buf amount d.flags device = some answer →
        Counts d answer.1
    | none => ∃ fsInfo, node.fsInfo = some fsInfo ∧
        (fsInfo.blockRead = true → Honest fsInfo.fs ∧ RoomAt d fsInfo.fs amount)
  | .write buf amount _ =>
    match node.write with
    | some own => ∀ answer, own node.file d.seek.toNat buf amount d.flags device = some answer →
        Counts d answer.1
    | none => ∃ fsInfo, node.fsInfo = some fsInfo ∧
        (fsInfo.blockWrite = true → Honest fsInfo.fs ∧ RoomAt d fsInfo.fs amount ∧
          endRest fsInfo.fs.blockSize d.seek.toNat amount ≤ amount)

/-- Every call of the sequence meets the condition in the state it is made in. -/
def AllTracked (fds fd : Nat) : List Transfer → Files σ → Prop
  | [], _ => True
  | call :: calls, s =>
    (∀ d node, descriptor fds fd s = some d → s.nodes d.node = some node →
      Tracked node d s.device call) ∧
    ∀ ret s', call.run fds fd s = .ok (some (ret, s')) → AllTracked fds fd calls s'

section

variable {fds fd : Nat} {s : Files σ} {d : Ds.FileDescriptor} {node : FileNode σ}

theorem Tracked.outcome {call : Transfer} (tracked : Tracked node d s.device call) :
    call.outcome node d s.device = .waiting ∨ call.outcome node d s.device = .unsupported ∨
      ∃ ret file device, call.outcome node d s.device = .done ret file device ∧ Counts d ret := by
  obtain ⟨file, ownRead, ownWrite, fsInfo⟩ := node
  cases call with
  | read buf amount fresh =>
    unfold Transfer.outcome
    cases ownRead with
    | some own =>
      dsimp only [Tracked] at tracked ⊢
      cases answer : own file d.seek.toNat buf amount d.flags s.device with
      | none => exact .inl rfl
      | some result => exact .inr (.inr ⟨_, _, _, rfl, tracked result answer⟩)
    | none =>
      obtain ⟨fsInfo, rfl, blocks⟩ := tracked
      right
      cases asked : fsInfo.blockRead with
      | false => exact .inl (by simp [asked])
      | true =>
        obtain ⟨honest, roomy⟩ := blocks asked
        have range := fsRead_within honest roomy.1 file (toSigned d.seek.toNat) buf
          (toSigned d.flags.toNat) fresh s.device
        exact .inr ⟨_, _, _, by simp only [asked, if_true]; rfl, range.counts roomy⟩
  | write buf amount fresh =>
    unfold Transfer.outcome
    cases ownWrite with
    | some own =>
      dsimp only [Tracked] at tracked ⊢
      cases answer : own file d.seek.toNat buf amount d.flags s.device with
      | none => exact .inl rfl
      | some result => exact .inr (.inr ⟨_, _, _, rfl, tracked result answer⟩)
    | none =>
      obtain ⟨fsInfo, rfl, blocks⟩ := tracked
      right
      cases asked : fsInfo.blockWrite with
      | false => exact .inl (by simp [asked])
      | true =>
        obtain ⟨honest, roomy, part⟩ := blocks asked
        rw [← ofSigned_toSigned d.seek.toNat_lt] at part
        have range := fsWrite_within honest roomy.1 part file buf
          (toSigned d.flags.toNat) fresh s.device
        exact .inr ⟨_, _, _, by simp only [asked, if_true]; rfl, range.counts roomy⟩

theorem descriptor_holds (isOpen : descriptor fds fd s = some d) :
    ∃ v slots, Holds s.heap fds v slots ∧ openTable v slots fd = some d := by
  obtain ⟨t, view, entry⟩ := bind_eq_some_iff.mp isOpen
  obtain ⟨v, vector, array⟩ := bind_eq_some_iff.mp view
  obtain ⟨slots, buffer, rfl⟩ := map_eq_some_iff.mp array
  exact ⟨v, slots, ⟨vector, buffer⟩, entry⟩

theorem descriptor_moved {v : VectorT} {slots : List Ds.FileDescriptor} (ok : s.heap.Ok)
    (holds : Holds s.heap fds v slots) (entry : openTable v slots fd = some d) (ret : Int)
    (nodes : Nat → Option (FileNode σ)) (device : σ) :
    descriptor fds fd ⟨s.heap.setBuffer v.vectorBuffer (slots.set fd (moved d ret)), nodes,
      device⟩ = some (moved d ret) := by
  obtain ⟨below, found, used⟩ := openTable_eq_some entry
  have lt : fd < slots.length := (List.getElem?_eq_some_iff.mp found).1
  have puts := (holds.write ok (slots.set fd (moved d ret))).puts lt (by omega)
  unfold descriptor
  rw [puts.view fun k low high => by omega, update_self, bind_some, update_self]
  exact if_neg used

theorem not_follows_error (ok : s.heap.Ok) (ne : fds ≠ 0)
    (isOpen : descriptor fds fd s = some d) (there : s.nodes d.node = some node)
    {call : Transfer} {file : VfsNode} {device : σ}
    (error : call.outcome node d s.device = .done (-1) file device) :
    ¬ Follows fds fd [call] s := by
  obtain ⟨v, slots, holds, entry⟩ := descriptor_holds isOpen
  obtain ⟨below, found, -⟩ := openTable_eq_some entry
  have ret := run_eq ne holds below found there call
  rw [error] at ret
  unfold Follows
  rw [ret]
  rintro ⟨⟨lt, after, found, found', moves⟩, -⟩
  obtain rfl := some.inj (isOpen.symm.trans found)
  obtain rfl := some.inj ((descriptor_moved ok holds entry (-1) ..).symm.trans found')
  exact position_moved_error d (moves.failed rfl)

/-- The position of an open descriptor follows all sequences of calls that meet the condition. -/
theorem position_follows (ok : s.heap.Ok) (nonnull : fds ≠ 0)
    (isOpen : descriptor fds fd s = some d) (there : s.nodes d.node = some node)
    {calls : List Transfer} (tracked : AllTracked fds fd calls s) : Follows fds fd calls s := by
  induction calls generalizing s d node with
  | nil => trivial
  | cons call calls ih =>
    obtain ⟨all, rest⟩ := tracked
    have step := all d node isOpen there
    obtain ⟨v, slots, holds, entry⟩ := descriptor_holds isOpen
    obtain ⟨below, found, -⟩ := openTable_eq_some entry
    have result := run_eq nonnull holds below found there call
    rcases step.outcome with waits | lacks | ⟨ret, file, device, done, counts⟩
    · rw [waits] at result
      unfold Follows
      rw [result]
      trivial
    · rw [lacks] at result
      unfold Follows
      rw [result]
      refine ⟨⟨d, d, isOpen, isOpen, ?_⟩, ih ok isOpen there (rest _ _ result)⟩
      exact ⟨fun nonneg => absurd nonneg (by decide), fun _ => rfl, rfl, rfl, rfl⟩
    · rw [done] at result
      have lt := (List.getElem?_eq_some_iff.mp found).1
      have puts := (holds.write ok (slots.set fd (moved d ret))).puts lt (by omega)
      have kept := puts.ok ok holds
      have after := descriptor_moved ok holds entry ret
        (update s.nodes d.node (some { node with file := file })) device
      unfold Follows
      rw [result]
      exact ⟨⟨d, moved d ret, isOpen, after, counts.moves⟩,
        ih kept after (update_self ..) (rest _ _ result)⟩

/-- Calls returned these numbers in turn and left `s'`. -/
def Returned (fds fd : Nat) (s' : Files σ) : List Int → Files σ → Prop
  | [], s => s' = s
  | ret :: rets, s => ∃ (call : Transfer) (t : Files σ),
      call.run fds fd s = .ok (some (ret, t)) ∧ Returned fds fd s' rets t

/-- Along any calls the descriptor moves by all the numbers returned, error codes too. -/
theorem position_adds_up (ok : s.heap.Ok) (nonnull : fds ≠ 0)
    (isOpen : descriptor fds fd s = some d) (there : s.nodes d.node = some node)
    (able : ∀ file d device (call : Transfer),
      call.outcome { node with file := file } d device ≠ .unsupported)
    {rets : List Int} {s' : Files σ} (run : Returned fds fd s' rets s) :
    descriptor fds fd s' = some (rets.foldl moved d) := by
  induction rets generalizing s d node with
  | nil => exact run ▸ isOpen
  | cons ret rets ih =>
    obtain ⟨call, t, ran, rest⟩ := run
    obtain ⟨v, slots, holds, entry⟩ := descriptor_holds isOpen
    obtain ⟨below, found, -⟩ := openTable_eq_some entry
    have result := ran.symm.trans (run_eq nonnull holds below found there call)
    cases outcome : call.outcome node d s.device with
    | fault | waiting => simp [outcome] at result
    | unsupported => exact absurd outcome (able node.file d s.device call)
    | done r file device =>
      rw [outcome] at result
      cases result
      have lt := (List.getElem?_eq_some_iff.mp found).1
      have puts := (holds.write ok (slots.set fd (moved d ret))).puts lt (by omega)
      refine ih (puts.ok ok holds) (descriptor_moved ok holds entry ret ..) (update_self ..) ?_ rest
      exact able

end

def nullFiles : Files Unit where
  heap := oneOpen
  nodes := fun p => if p = 0x1000 then some ⟨⟨0, 0⟩, some readNull, some writeNull, none⟩ else none
  device := ()

/-- Three bytes are written to the null device, then three are asked for. -/
theorem position_null : Follows 1 0
    [.write (fun _ => 65) 3 fun _ _ => 0, .read (fun _ => 65) 3 fun _ _ => 0] nullFiles := by
  apply position_follows oneOpen_table.ok (by decide) rfl rfl
  refine ⟨?_, fun ret s' ran => ⟨?_, fun _ _ _ => trivial⟩⟩
  · intro d node isOpen mem
    cases isOpen
    cases mem
    intro ret wrote
    cases wrote
    exact ⟨by decide, fun _ => by decide⟩
  · cases ran
    intro d node isOpen mem
    cases isOpen
    cases mem
    intro ret read
    cases read
    exact ⟨by decide, fun _ => by decide⟩

/-- The node of a pipe whose address is null. -/
def brokenPipe : Files (Nat → Option Pipe) where
  heap := oneOpen
  nodes := fun p => if p = 0x1000 then some ⟨⟨0, 0⟩, some pipeRead, some pipeWrite, none⟩ else none
  device := fun _ => none

/-- A write to it returns -1, and the position is -1 as well. -/
theorem position_broken_pipe : (descriptor 1 0 brokenPipe).map position = some 0 ∧
      ∃ s', vfsWriteFd 1 0 (fun _ => 65) 3 (fun _ _ => 0) brokenPipe = .ok (some (-1, s')) ∧
        (descriptor 1 0 s').map position = some (-1) :=
  ⟨rfl, _, rfl, rfl⟩

theorem position_adds_up_twice :
    ∃ s', Returned 1 0 s' [-1, -1] brokenPipe ∧ (descriptor 1 0 s').map position = some (-2) := by
  let call : Transfer := .write (fun _ => 65) 3 fun _ _ => 0
  obtain ⟨s', run⟩ : ∃ s', Returned 1 0 s' [-1, -1] brokenPipe :=
    ⟨_, call, _, rfl, call, _, rfl, rfl⟩
  have moves := position_adds_up oneOpen_table.ok (by decide) rfl rfl
    (fun file d device call => by cases call <;> simp [Transfer.outcome] <;> split <;> simp) run
  exact ⟨s', run, moves ▸ rfl⟩

end Yanix.Fs
