/-
Module: Yanix.Proofs.TableCapacity
Purpose: Tables of file descriptors stay inside their arrays, except in a `vector_set` of
  a multiple of the capacity.
-/
import Mathlib.Order.Lattice.Nat
import Yanix.Ds.FdVector

namespace Yanix.Ds

open List Option Finmap Finset

variable {kmalloc : Kmalloc} {heap heap' : Heap} {vec : Nat} {v : VectorT}
  {slots : List FileDescriptor}

/-- The capacity of a table is the number of slots of its array. -/
structure TableOk (v : VectorT) (slots : List FileDescriptor) : Prop where
  allocated : (slots.length : Int) = v.vectorMaxsize
  nonneg : 0 ≤ v.vectorSize
  within : v.vectorSize ≤ v.vectorMaxsize
  pos : 0 < v.vectorMaxsize

/-- Address `vec` holds the table `v` with the array `slots`. -/
structure Holds (heap : Heap) (vec : Nat) (v : VectorT) (slots : List FileDescriptor) : Prop where
  vector : heap.vectors.lookup vec = some v
  buffer : heap.buffers.lookup v.vectorBuffer = some slots

/-- Every table is in order, and no two tables share an array. -/
structure Heap.Ok (heap : Heap) : Prop where
  table : ∀ vec v, heap.vectors.lookup vec = some v → ∃ slots, Holds heap vec v slots ∧
    TableOk v slots
  separate : ∀ vec vec' v v', heap.vectors.lookup vec = some v →
    heap.vectors.lookup vec' = some v' →
    v.vectorBuffer = v'.vectorBuffer → vec = vec'

/-- All an operation does: afterwards `vec` holds the table `v` with the array
`slots`, and every other table is what and where it was. -/
structure Replaces (heap heap' : Heap) (vec : Nat) (v : VectorT) (slots : List FileDescriptor) :
    Prop where
  holds : Holds heap' vec v slots
  others : ∀ other, other ≠ vec → heap'.vectors.lookup other = heap.vectors.lookup other
  apart : ∀ other w, other ≠ vec → heap.vectors.lookup other = some w →
    w.vectorBuffer ≠ v.vectorBuffer ∧
      heap'.buffers.lookup w.vectorBuffer = heap.buffers.lookup w.vectorBuffer

theorem Holds.table (ok : heap.Ok) (holds : Holds heap vec v slots) : TableOk v slots := by
  obtain ⟨slots', holds', table⟩ := ok.table vec v holds.vector
  rw [mem_unique holds.buffer holds'.buffer]
  exact table

theorem Replaces.ok (ok : heap.Ok) (replaces : Replaces heap heap' vec v slots)
    (table : TableOk v slots) : heap'.Ok where
  table := by
    intro other w found
    by_cases same : other = vec
    · subst same
      obtain rfl := some.inj (replaces.holds.vector.symm.trans found)
      exact ⟨slots, replaces.holds, table⟩
    rw [replaces.others other same] at found
    obtain ⟨slots', holds, table⟩ := ok.table other w found
    have frame := (replaces.apart other w same found).2
    exact ⟨slots', ⟨(replaces.others other same).trans found, frame.trans holds.buffer⟩, table⟩
  separate := by
    intro other other' w w' found found' shared
    by_cases same : other = vec
    · subst same
      obtain rfl := some.inj (replaces.holds.vector.symm.trans found)
      by_contra ne
      rw [replaces.others other' (Ne.symm ne)] at found'
      exact (replaces.apart other' w' (Ne.symm ne) found').1 shared.symm
    by_cases same' : other' = vec
    · subst same'
      obtain rfl := some.inj (replaces.holds.vector.symm.trans found')
      rw [replaces.others other same] at found
      exact ((replaces.apart other w same found).1 shared).elim
    · rw [replaces.others other same] at found
      rw [replaces.others other' same'] at found'
      exact ok.separate other other' w w' found found' shared

theorem Replaces.trans {heap'' : Heap} {v' : VectorT} {slots' : List FileDescriptor}
    (first : Replaces heap heap' vec v slots) (second : Replaces heap' heap'' vec v' slots') :
    Replaces heap heap'' vec v' slots' where
  holds := second.holds
  others := fun other different =>
    (second.others other different).trans (first.others other different)
  apart := by
    intro other w different found
    have found' := (first.others other different).trans found
    obtain ⟨ne, frame⟩ := second.apart other w different found'
    exact ⟨ne, frame.trans (first.apart other w different found).2⟩

theorem Holds.update (ok : heap.Ok) (holds : Holds heap vec v slots) (slots' : List FileDescriptor)
    (size maxsize : Int) :
    Replaces heap ((heap.setBuffer v.vectorBuffer slots').setVector vec
      ⟨v.vectorBuffer, size, maxsize⟩) vec ⟨v.vectorBuffer, size, maxsize⟩ slots' where
  holds := ⟨Finmap.lookup_insert _, Finmap.lookup_insert _⟩
  others := fun other different => lookup_insert_of_ne _ different
  apart := by
    intro other w different found
    have ne : w.vectorBuffer ≠ v.vectorBuffer := fun shared =>
      different (ok.separate other vec w v found holds.vector shared)
    exact ⟨ne, lookup_insert_of_ne _ ne⟩

theorem Holds.write (ok : heap.Ok) (holds : Holds heap vec v slots) (slots' : List FileDescriptor) :
    Replaces heap (heap.setBuffer v.vectorBuffer slots') vec v slots' where
  holds := ⟨holds.vector, Finmap.lookup_insert _⟩
  others := fun _ _ => rfl
  apart := (holds.update ok slots' v.vectorSize v.vectorMaxsize).apart

/-- An address that no array has. -/
def Unused (heap : Heap) (address : Nat) : Prop := address ∉ heap.vectors ∧ address ∉ heap.buffers

theorem Unused.ne {address : Nat} (unused : Unused heap address) (holds : Holds heap vec v slots) :
    v.vectorBuffer ≠ address := by
  intro same
  apply unused.2
  rw [← same]
  exact mem_of_lookup_eq_some holds.buffer

theorem Holds.move (ok : heap.Ok) (holds : Holds heap vec v slots) {tmp : Nat}
    (unused : Unused heap tmp) (slots' : List FileDescriptor) (size maxsize : Int) :
    Replaces heap (((heap.freeBuffer v.vectorBuffer).setBuffer tmp slots').setVector vec
      ⟨tmp, size, maxsize⟩) vec ⟨tmp, size, maxsize⟩ slots' where
  holds := ⟨Finmap.lookup_insert _, Finmap.lookup_insert _⟩
  others := fun other different => lookup_insert_of_ne _ different
  apart := by
    intro other w different found
    obtain ⟨slots'', holdsOther, -⟩ := ok.table other w found
    have ne : w.vectorBuffer ≠ v.vectorBuffer := fun shared =>
      different (ok.separate other vec w v found holds.vector shared)
    have fresh := unused.ne holdsOther
    exact ⟨fresh, (lookup_insert_of_ne _ fresh).trans (lookup_erase_ne ne)⟩

theorem Heap.Ok.create (ok : heap.Ok) {buffer : Nat} (unused : Unused heap buffer)
    (slots : List FileDescriptor) (size maxsize : Int) :
    Replaces heap ((heap.setBuffer buffer slots).setVector vec ⟨buffer, size, maxsize⟩) vec
      ⟨buffer, size, maxsize⟩ slots where
  holds := ⟨Finmap.lookup_insert _, Finmap.lookup_insert _⟩
  others := fun other ne => lookup_insert_of_ne _ ne
  apart := by
    intro other w ne found
    obtain ⟨slots', holdsOther, -⟩ := ok.table other w found
    have fresh := unused.ne holdsOther
    exact ⟨fresh, lookup_insert_of_ne _ fresh⟩

theorem Holds.getVector (holds : Holds heap vec v slots) : heap.getVector vec = .ok v := by
  unfold Heap.getVector
  rw [holds.vector]

theorem Holds.getBuffer (holds : Holds heap vec v slots) :
    heap.getBuffer v.vectorBuffer = .ok slots := by
  unfold Heap.getBuffer
  rw [holds.buffer]

/-- The slot is there and its node is not null. -/
def OpenSlot (slots : List FileDescriptor) (i : Nat) : Prop :=
  ∃ slot, slots[i]? = some slot ∧ slot.node ≠ 0

variable {i : Nat} {slot : FileDescriptor}

theorem readSlot_eq (found : slots[i]? = some slot) : readSlot slots i = .ok slot := by
  unfold readSlot
  rw [if_pos (Int.natCast_nonneg i), Int.toNat_natCast, found]

theorem writeSlot_eq (lt : i < slots.length) (fd : FileDescriptor) :
    writeSlot slots i fd = .ok (slots.set i fd) := by
  unfold writeSlot
  rw [if_pos ⟨Int.natCast_nonneg i, by rwa [Int.toNat_natCast]⟩, Int.toNat_natCast]

theorem writeSlot_outside (away : slots.length ≤ i) (fd : FileDescriptor) :
    writeSlot slots i fd = .error .outOfBounds := by
  unfold writeSlot
  rw [if_neg]
  rintro ⟨-, lt⟩
  omega

theorem findNull_spec (slots : List FileDescriptor) {rounds a b : Nat} (le : b ≤ slots.length)
    (enough : b - a = rounds) :
    (∃ j, a ≤ j ∧ j < b ∧ findNull slots b rounds a = .ok (some (j : Int)) ∧ ¬ OpenSlot slots j ∧
        ∀ k, a ≤ k → k < j → OpenSlot slots k) ∨
      (findNull slots b rounds a = .ok none ∧ ∀ k, a ≤ k → k < b → OpenSlot slots k) := by
  induction rounds generalizing a with
  | zero =>
    right
    exact ⟨rfl, fun k low high => by omega⟩
  | succ rounds ih =>
    have there : a < slots.length := by omega
    have read : readSlot slots a = .ok slots[a] := readSlot_eq (getElem?_eq_getElem there)
    unfold findNull
    rw [if_pos (by omega), read]
    by_cases null : slots[a].node = 0
    · left
      refine ⟨a, le_refl a, by omega, ?_, ?_, fun k low high => by omega⟩
      · exact if_pos null
      rintro ⟨slot, found, used⟩
      rw [getElem?_eq_getElem there] at found
      obtain rfl := some.inj found
      exact used null
    have here : OpenSlot slots a := ⟨slots[a], getElem?_eq_getElem there, null⟩
    have extended {j : Nat} (later : ∀ k, a + 1 ≤ k → k < j → OpenSlot slots k) :
        ∀ k, a ≤ k → k < j → OpenSlot slots k := by
      intro k low high
      rcases Nat.eq_or_lt_of_le low with rfl | less
      · exact here
      · exact later k less high
    have next : (Except.ok slots[a] >>= fun slot =>
        if slot.node = 0 then pure (some (a : Int)) else findNull slots b rounds (a + 1)) =
        findNull slots b rounds (a + 1 : Nat) := if_neg null
    rw [next]
    rcases ih (a := a + 1) (by omega) with ⟨j, low, high, found, free, used⟩ | ⟨none, used⟩
    · exact .inl ⟨j, by omega, high, found, free, extended used⟩
    · exact .inr ⟨none, extended used⟩

variable {x y : Int}

theorem product_eq (nonneg : 0 ≤ x * y) (lt : x * y < 2 ^ 31) :
    product x y = .ok (x * y) := if_pos ⟨lt, by omega⟩

theorem product_large (large : 2 ^ 31 ≤ x * y) : product x y = .error .product := if_neg (by omega)

/-- A larger array with the old slots in front and cleared slots behind them. -/
def grown (slots : List FileDescriptor) (n : Nat) : List FileDescriptor :=
  slots ++ List.replicate n FileDescriptor.zero

@[simp] theorem length_grown (slots : List FileDescriptor) (n : Nat) :
    (grown slots n).length = slots.length + n := by
  simp [grown]

/-- `kmalloc` returns addresses that are not in use. -/
def Sound (kmalloc : Kmalloc) : Prop :=
  ∀ size heap address, kmalloc size heap = some address → Unused heap address

theorem TableOk.take_maxsize (table : TableOk v slots) :
    slots.take v.vectorMaxsize.toNat = slots := by
  rw [← table.allocated, Int.toNat_natCast, take_length]

variable {amount : Int}

theorem TableOk.le_mul (table : TableOk v slots) (pos : 1 ≤ amount) :
    v.vectorMaxsize ≤ v.vectorMaxsize * amount := by
  have scaled := Int.mul_le_mul_of_nonneg_left pos (le_of_lt table.pos)
  rwa [Int.mul_one] at scaled

@[simp] theorem grown_zero (slots : List FileDescriptor) : grown slots 0 = slots := append_nil slots

theorem TableOk.grow (table : TableOk v slots) (n buffer : Nat) :
    TableOk ⟨buffer, v.vectorSize, v.vectorMaxsize + n⟩ (grown slots n) where
  allocated := by rw [length_grown, Int.natCast_add, table.allocated]
  nonneg := table.nonneg
  within := le_trans table.within (Int.le_add_of_nonneg_right (Int.natCast_nonneg n))
  pos := Int.add_pos_of_pos_of_nonneg table.pos (Int.natCast_nonneg n)

/-! ## The operations -/

variable {n : Nat} {fd : FileDescriptor}

/-- Slot `i` was written, in an array with `n` more slots, and the end of the table is
behind it. -/
structure Puts (heap heap' : Heap) (vec : Nat) (v : VectorT) (slots : List FileDescriptor)
    (n i : Nat) (fd : FileDescriptor) : Prop where
  inside : i < slots.length + n
  replaces : ∃ buffer, Replaces heap heap' vec
    ⟨buffer, max v.vectorSize (i + 1), v.vectorMaxsize + n⟩ ((grown slots n).set i fd)

theorem TableOk.put (table : TableOk v slots) (lt : i < slots.length + n) (buffer : Nat)
    (fd : FileDescriptor) :
    TableOk ⟨buffer, max v.vectorSize (i + 1), v.vectorMaxsize + n⟩ ((grown slots n).set i fd) where
  allocated := by rw [length_set, length_grown, Int.natCast_add, table.allocated]
  nonneg := le_trans table.nonneg (Int.le_max_left ..)
  within := by
    have allocated := table.allocated
    have within := table.within
    simp only
    omega
  pos := Int.add_pos_of_pos_of_nonneg table.pos (Int.natCast_nonneg n)

theorem Puts.ok (puts : Puts heap heap' vec v slots n i fd) (ok : heap.Ok)
    (holds : Holds heap vec v slots) : heap'.Ok := by
  obtain ⟨buffer, replaces⟩ := puts.replaces
  exact replaces.ok ok ((holds.table ok).put puts.inside buffer fd)

theorem Replaces.puts {size : Int}
    (replaces : Replaces heap heap' vec ⟨v.vectorBuffer, size, v.vectorMaxsize⟩ (slots.set i fd))
    (lt : i < slots.length) (behind : size = max v.vectorSize (i + 1)) :
    Puts heap heap' vec v slots 0 i fd := by
  subst behind
  refine ⟨lt, v.vectorBuffer, ?_⟩
  rw [grown_zero, Int.natCast_zero, add_zero]
  exact replaces

theorem Replaces.trans_puts {heap'' : Heap} {buffer : Nat}
    (first : Replaces heap heap' vec ⟨buffer, v.vectorSize, v.vectorMaxsize + n⟩ (grown slots n))
    (second : Puts heap' heap'' vec ⟨buffer, v.vectorSize, v.vectorMaxsize + n⟩ (grown slots n) 0 i
      fd) : Puts heap heap'' vec v slots n i fd := by
  obtain ⟨buffer', replaces⟩ := second.replaces
  rw [grown_zero, Int.natCast_zero, add_zero] at replaces
  exact ⟨by simpa using second.inside, buffer', first.trans replaces⟩

/-- One of the two requests of `vector_copy` is refused. -/
def CopyRefused (kmalloc : Kmalloc) (heap : Heap) (v : VectorT) : Prop :=
  kmalloc sizeofVectorT.toNat heap = none ∨ ∃ new, kmalloc sizeofVectorT.toNat heap = some new ∧
      kmalloc (20 * v.vectorMaxsize).toNat (heap.setVector new ⟨0, 0, 0⟩) = none

theorem ite_size (v : VectorT) (i : Nat) :
    (if (i : Int) ≥ v.vectorSize then (i : Int) + 1 else v.vectorSize) =
      max v.vectorSize (i + 1) := by
  split <;> omega

/-- The descriptor has a slot, or the array can be made larger and has one then. -/
def Fits (kmalloc : Kmalloc) (heap : Heap) (v : VectorT) (fd : Int) : Prop :=
  let newsize := v.vectorMaxsize * Libk.roundup fd v.vectorMaxsize
  fd < v.vectorMaxsize ∨
    ¬ v.vectorMaxsize ∣ fd ∧ 20 * newsize < 2 ^ 31 ∧ kmalloc (20 * newsize).toNat heap ≠ none

theorem add_cases (kmalloc : Kmalloc) (ok : heap.Ok) (holds : Holds heap vec v slots)
    (fd : FileDescriptor) :
    (∃ (j : Nat) (heap' : Heap), (j : Int) < v.vectorSize ∧ ¬ OpenSlot slots j ∧
        (∀ k < j, OpenSlot slots k) ∧ vectorAdd kmalloc vec fd heap = .ok ((j : Int), heap') ∧
        Puts heap heap' vec v slots 0 j fd) ∨
      ((∀ k : Nat, (k : Int) < v.vectorSize → OpenSlot slots k) ∧
        vectorAdd kmalloc vec fd heap = vectorPush kmalloc vec fd heap) := by
  have table := holds.table ok
  have allocated := table.allocated
  have le := table.within
  obtain ⟨n, size⟩ := Int.eq_ofNat_of_zero_le table.nonneg
  unfold vectorAdd
  simp only [holds.getVector, holds.getBuffer, bind, Except.bind, size, Int.toNat_natCast]
  rcases findNull_spec slots (a := 0) (b := n) (by omega) rfl with
    ⟨j, -, lt, found, free, used⟩ | ⟨none, used⟩
  · left
    refine ⟨j, _, by omega, free, fun k less => used k (Nat.zero_le k) less, ?_,
      (holds.write ok _).puts (by omega) (by omega)⟩
    rw [show ((0 : Nat) : Int) = 0 from rfl, Nat.sub_zero] at found
    simp only [found]
    rw [writeSlot_eq (by omega)]
    rfl
  · right
    refine ⟨fun k less => used k (Nat.zero_le k) (by omega), ?_⟩
    rw [show ((0 : Nat) : Int) = 0 from rfl, Nat.sub_zero] at none
    simp only [none]

theorem addAbove_cases (kmalloc : Kmalloc) (ok : heap.Ok) (holds : Holds heap vec v slots)
    (a : Nat) (fd : FileDescriptor) :
    (∃ (j : Nat) (heap' : Heap), a ≤ j ∧ j < slots.length ∧ ¬ OpenSlot slots j ∧
        (∀ k, a ≤ k → k < j → OpenSlot slots k) ∧
        addAbove kmalloc vec fd a heap = .ok ((j : Int), heap') ∧
        Puts heap heap' vec v slots 0 j fd) ∨
      ((∀ k, a ≤ k → k < slots.length → OpenSlot slots k) ∧
        addAbove kmalloc vec fd a heap = vectorPush kmalloc vec fd heap) := by
  have search : findNull slots v.vectorMaxsize (v.vectorMaxsize - a).toNat a =
      findNull slots slots.length (slots.length - a) a := by
    rw [← (holds.table ok).allocated]
    congr 1
    omega
  unfold addAbove
  simp only [holds.getVector, holds.getBuffer, bind, Except.bind, search]
  rcases findNull_spec slots (a := a) le_rfl rfl with
    ⟨j, low, lt, found, free, used⟩ | ⟨none, used⟩
  · left
    refine ⟨j, _, low, lt, free, used, ?_, (holds.update ok ..).puts lt (ite_size v j)⟩
    simp only [found, writeSlot_eq lt]
    rfl
  · right
    exact ⟨used, by simp only [none]⟩

section

variable (sound : Sound kmalloc) (ok : heap.Ok) (holds : Holds heap vec v slots)

include ok holds

theorem pushSlot_spec (room : v.vectorSize < v.vectorMaxsize) (fd : FileDescriptor) :
    ∃ heap', pushSlot vec fd heap = .ok (v.vectorSize, heap') ∧
      Puts heap heap' vec v slots 0 v.vectorSize.toNat fd := by
  have table := holds.table ok
  obtain ⟨n, size⟩ := Int.eq_ofNat_of_zero_le table.nonneg
  have allocated := table.allocated
  refine ⟨_, ?_, (holds.update ok _ (v.vectorSize + 1) _).puts (by omega) (by omega)⟩
  unfold pushSlot
  simp only [holds.getVector, holds.getBuffer, bind, Except.bind, size, Int.toNat_natCast]
  rw [writeSlot_eq (by omega)]
  rfl

theorem setSlot_spec (lt : i < slots.length) (obj : FileDescriptor) :
    ∃ heap', setSlot vec obj i heap = .ok ((i : Int), heap') ∧
      Puts heap heap' vec v slots 0 i obj := by
  refine ⟨_, ?_, (holds.update ok ..).puts lt (ite_size v i)⟩
  unfold setSlot
  simp only [holds.getVector, holds.getBuffer, bind, Except.bind, writeSlot_eq lt]
  rfl

theorem clear_spec (found : slots[i]? = some slot) :
    ∃ heap', vectorClear vec i heap = .ok (0, heap') ∧
      Replaces heap heap' vec v (slots.set i { slot with node := 0 }) := by
  have lt : i < slots.length := (List.getElem?_eq_some_iff.mp found).1
  refine ⟨_, ?_, holds.write ok _⟩
  unfold vectorClear
  simp only [holds.getVector, holds.getBuffer, bind, Except.bind, readSlot_eq found,
    writeSlot_eq lt]
  rfl

include sound

theorem expand_cases (pos : 1 ≤ amount) : (2 ^ 31 ≤ 20 * (v.vectorMaxsize * amount) ∧
        vectorExpand kmalloc vec amount heap = .error .product) ∨
      (20 * (v.vectorMaxsize * amount) < 2 ^ 31 ∧
        kmalloc (20 * (v.vectorMaxsize * amount)).toNat heap = none ∧
        vectorExpand kmalloc vec amount heap = .ok (-1, heap)) ∨
      ∃ (n tmp : Nat) (heap' : Heap), v.vectorMaxsize * amount = v.vectorMaxsize + n ∧
        20 * (v.vectorMaxsize * amount) < 2 ^ 31 ∧
        kmalloc (20 * (v.vectorMaxsize * amount)).toNat heap ≠ none ∧
        vectorExpand kmalloc vec amount heap = .ok (0, heap') ∧
        Replaces heap heap' vec ⟨tmp, v.vectorSize, v.vectorMaxsize + n⟩ (grown slots n) := by
  have table := holds.table ok
  have maxsizePos := table.pos
  obtain ⟨n, larger⟩ := Int.le.dest (table.le_mul pos)
  unfold vectorExpand
  simp only [holds.getVector, bind, Except.bind, pure, Except.pure, sizeofFileDescriptor]
  by_cases overflow : 2 ^ 31 ≤ v.vectorMaxsize * amount
  · exact .inl ⟨by omega, by rw [product_large overflow]⟩
  rw [product_eq (by omega) (by omega)]
  by_cases large : 2 ^ 31 ≤ 20 * (v.vectorMaxsize * amount)
  · exact .inl ⟨large, by simp only [product_large large]⟩
  right
  simp only [product_eq (by omega) (not_le.mp large)]
  cases ret : kmalloc (20 * (v.vectorMaxsize * amount)).toNat heap with
  | none => exact .inl ⟨not_le.mp large, rfl, rfl⟩
  | some tmp =>
    right
    have unused := sound _ _ _ ret
    have room : ¬ ((slots.length : Int) < v.vectorMaxsize ∨
        v.vectorMaxsize * amount < v.vectorMaxsize) := by
      rw [table.allocated]
      omega
    have array : slots.take v.vectorMaxsize.toNat ++
        (List.replicate (v.vectorMaxsize * amount).toNat FileDescriptor.zero).drop
          v.vectorMaxsize.toNat = grown slots n := by
      rw [table.take_maxsize, drop_replicate]
      congr 2
      omega
    refine ⟨n, tmp, _, larger.symm, not_le.mp large, some_ne_none tmp, ?_, holds.move ok unused ..⟩
    simp only [holds.getBuffer, if_neg room, array, larger]

theorem push_cases (fd : FileDescriptor) :
    (2 ^ 31 ≤ 20 * (v.vectorMaxsize * 2) ∧ vectorPush kmalloc vec fd heap = .error .product) ∨
      (v.vectorSize = v.vectorMaxsize ∧ kmalloc (20 * (v.vectorMaxsize * 2)).toNat heap = none ∧
        vectorPush kmalloc vec fd heap = .ok (-1, heap)) ∨
      ∃ (heap' : Heap) (n : Nat), vectorPush kmalloc vec fd heap = .ok (v.vectorSize, heap') ∧
        (n = 0 ∨ (n : Int) = v.vectorMaxsize ∧ 20 * (v.vectorMaxsize * 2) < 2 ^ 31 ∧
          kmalloc (20 * (v.vectorMaxsize * 2)).toNat heap ≠ none) ∧
        Puts heap heap' vec v slots n v.vectorSize.toNat fd := by
  have table := holds.table ok
  have pos := table.pos
  have lt := table.within
  unfold vectorPush
  simp only [holds.getVector, bind, Except.bind]
  by_cases full : v.vectorSize = v.vectorMaxsize
  · rw [if_pos full]
    rcases expand_cases sound ok holds (show (1 : Int) ≤ 2 by decide) with ⟨large, ret⟩ |
      ⟨-, refused, ret⟩ | ⟨n, tmp, larger, twice, small, granted, ret, replaces⟩
    · exact .inl ⟨large, by rw [ret]⟩
    · exact .inr (.inl ⟨full, refused, by rw [ret]; rfl⟩)
    obtain ⟨heap', pushed, puts⟩ := pushSlot_spec (replaces.ok ok (table.grow n tmp))
      replaces.holds (show v.vectorSize < v.vectorMaxsize + n by omega) fd
    refine .inr (.inr ⟨heap', n, ?_, .inr ⟨by omega, small, granted⟩, replaces.trans_puts puts⟩)
    rw [ret]
    exact pushed
  · rw [if_neg full]
    obtain ⟨heap', pushed, puts⟩ := pushSlot_spec ok holds (by omega) fd
    exact .inr (.inr ⟨heap', 0, pushed, .inl rfl, puts⟩)

theorem copy_cases :
    (2 ^ 31 ≤ 20 * v.vectorMaxsize ∧ vectorCopy kmalloc vec heap = .error .product) ∨
      (CopyRefused kmalloc heap v ∧ vectorCopy kmalloc vec heap = .ok (0, heap)) ∨
      ∃ new buffer heap', vectorCopy kmalloc vec heap = .ok (new, heap') ∧
        kmalloc sizeofVectorT.toNat heap = some new ∧
        kmalloc (20 * v.vectorMaxsize).toNat (heap.setVector new ⟨0, 0, 0⟩) = some buffer ∧
        Replaces heap heap' new ⟨buffer, v.vectorSize, v.vectorMaxsize⟩ slots := by
  have table := holds.table ok
  have pos := table.pos
  unfold vectorCopy
  cases first : kmalloc sizeofVectorT.toNat heap with
  | none => exact .inr (.inl ⟨.inl first, rfl⟩)
  | some new =>
    simp only [holds.getVector, bind, Except.bind, pure, Except.pure, sizeofFileDescriptor]
    by_cases large : 2 ^ 31 ≤ 20 * v.vectorMaxsize
    · exact .inl ⟨large, by rw [product_large large]⟩
    right
    simp only [product_eq (by omega) (not_le.mp large)]
    cases second : kmalloc (20 * v.vectorMaxsize).toNat (heap.setVector new ⟨0, 0, 0⟩) with
    | none => exact .inl ⟨.inr ⟨new, first, second⟩, rfl⟩
    | some buffer =>
      right
      have unused : Unused heap buffer := by
        have ret := sound _ _ _ second
        exact ⟨fun mem => ret.1 (Finmap.mem_insert.mpr (.inr mem)), ret.2⟩
      refine ⟨new, buffer, _, ?_, rfl, second, ok.create unused ..⟩
      simp only [holds.getBuffer, table.allocated, lt_irrefl, if_false, table.take_maxsize]

omit sound

theorem setSlot_outside (away : v.vectorMaxsize ≤ (i : Int)) (obj : FileDescriptor) :
    setSlot vec obj i heap = .error .outOfBounds := by
  have allocated := (holds.table ok).allocated
  unfold setSlot
  simp only [holds.getVector, holds.getBuffer, bind, Except.bind]
  rw [writeSlot_outside (by omega)]

include sound

/-- `vector_set`: the slot is written if it is there or a larger array has it. A multiple of the
capacity becomes the new capacity, which is one too small. -/
theorem set_cases (i : Nat) (obj : FileDescriptor) :
    (∃ heap' n, Fits kmalloc heap v i ∧ vectorSet kmalloc vec obj i heap = .ok ((i : Int), heap') ∧
        Puts heap heap' vec v slots n i obj) ∨
      (¬ Fits kmalloc heap v i ∧ (2 ^ 31 ≤ 20 * (v.vectorMaxsize * Libk.roundup i v.vectorMaxsize) ∧
            vectorSet kmalloc vec obj i heap = .error .product ∨
          (v.vectorMaxsize ∣ (i : Int) ∨
              kmalloc (20 * (v.vectorMaxsize * Libk.roundup i v.vectorMaxsize)).toNat heap = none) ∧
            vectorSet kmalloc vec obj i heap = .error .outOfBounds)) := by
  have table := holds.table ok
  have allocated := table.allocated
  have pos := table.pos
  unfold vectorSet
  simp only [holds.getVector, bind, Except.bind]
  split
  · next above =>
      have misfit (wrong : ¬ v.vectorMaxsize ∣ (i : Int) →
          20 * (v.vectorMaxsize * Libk.roundup i v.vectorMaxsize) < 2 ^ 31 →
          kmalloc (20 * (v.vectorMaxsize * Libk.roundup i v.vectorMaxsize)).toNat heap = none) :
          ¬ Fits kmalloc heap v i := by
        rintro (lt | ⟨rest, small, granted⟩)
        · omega
        · exact granted (wrong rest small)
      rcases expand_cases sound ok holds
          (Libk.one_le_roundup pos (show 0 < (i : Int) by omega)) with ⟨large, ret⟩ |
        ⟨-, refused, ret⟩ | ⟨n, tmp, larger, size, small, granted, ret, replaces⟩
      · exact .inr ⟨misfit fun _ small => by omega, .inl ⟨large, by rw [ret]⟩⟩
      · refine .inr ⟨misfit fun _ _ => refused, .inr ⟨.inr refused, ?_⟩⟩
        rw [ret]
        exact setSlot_outside ok holds above obj
      have okLarger := replaces.ok ok (table.grow n tmp)
      by_cases multiple : v.vectorMaxsize ∣ (i : Int)
      · refine .inr ⟨misfit fun rest => absurd multiple rest, .inr ⟨.inl multiple, ?_⟩⟩
        have reach := Libk.mul_roundup_of_dvd multiple
        rw [ret]
        exact setSlot_outside okLarger replaces.holds
          (show v.vectorMaxsize + n ≤ (i : Int) by omega) obj
      have covers := Libk.lt_mul_roundup pos multiple
      obtain ⟨heap', set, puts⟩ := setSlot_spec okLarger replaces.holds
        (show i < _ by rw [length_grown]; omega) obj
      refine .inl ⟨heap', n, .inr ⟨multiple, small, granted⟩, ?_, replaces.trans_puts puts⟩
      rw [ret]
      exact set
  · next below =>
      obtain ⟨heap', set, puts⟩ := setSlot_spec ok holds (show i < slots.length by omega) obj
      exact .inl ⟨heap', 0, .inl (not_le.mp below), set, puts⟩

end

/-- What the capacity result tells of one call: it ends with tables in order, unless a product is
too large. -/
def EndsOk {α : Type} (result : Except Fault (α × Heap)) : Prop :=
  result = .error .product ∨ ∃ r heap', result = .ok (r, heap') ∧ heap'.Ok

/-- `kmalloc` succeeds. -/
def Grants (kmalloc : Kmalloc) : Prop :=
  ∀ size heap, ∃ address, kmalloc size heap = some address ∧ Unused heap address

section

variable (grants : Grants kmalloc)

include grants

theorem Grants.sound : Sound kmalloc := by
  intro size heap address ret
  obtain ⟨address', ret', unused⟩ := grants size heap
  obtain rfl := mem_unique ret ret'
  exact unused

theorem Grants.not_none (size : Nat) (heap : Heap) : kmalloc size heap ≠ none := by
  obtain ⟨address, ret, -⟩ := grants size heap
  rw [ret]
  exact some_ne_none address

variable (ok : heap.Ok) (holds : Holds heap vec v slots)

include ok holds

theorem push_ends (fd : FileDescriptor) : EndsOk (vectorPush kmalloc vec fd heap) := by
  rcases push_cases grants.sound ok holds fd with
    ⟨-, ret⟩ | ⟨-, refused, -⟩ | ⟨heap', n, ret, -, puts⟩
  · exact .inl ret
  · exact (grants.not_none _ _ refused).elim
  · exact .inr ⟨_, heap', ret, puts.ok ok holds⟩

theorem add_ends (fd : FileDescriptor) : EndsOk (vectorAdd kmalloc vec fd heap) := by
  rcases add_cases kmalloc ok holds fd with ⟨j, heap', -, -, -, ret, puts⟩ | ⟨-, ret⟩
  · exact .inr ⟨_, heap', ret, puts.ok ok holds⟩
  · rw [ret]
    exact push_ends grants ok holds fd

variable {fd : Int}

omit grants

include grants

theorem copy_ends : EndsOk (vectorCopy kmalloc vec heap) := by
  have table := holds.table ok
  rcases copy_cases grants.sound ok holds with
    ⟨-, ret⟩ | ⟨refused, -⟩ | ⟨new, buffer, heap', ret, -, -, replaces⟩
  · exact .inl ret
  · rcases refused with first | ⟨new, -, second⟩
    · exact (grants.not_none _ _ first).elim
    · exact (grants.not_none _ _ second).elim
  · exact .inr ⟨new, heap', ret, replaces.ok ok
      ⟨table.allocated, table.nonneg, table.within, table.pos⟩⟩

variable {start : Int}

theorem addAbove_ends (nonneg : 0 ≤ start) (fd : FileDescriptor) :
    EndsOk (addAbove kmalloc vec fd start heap) := by
  obtain ⟨a, rfl⟩ := Int.eq_ofNat_of_zero_le nonneg
  rcases addAbove_cases kmalloc ok holds a fd with
    ⟨j, heap', -, -, -, -, ret, puts⟩ | ⟨-, ret⟩
  · exact .inr ⟨_, heap', ret, puts.ok ok holds⟩
  · rw [ret]
    exact push_ends grants ok holds fd

theorem addFrom_ends (nonneg : 0 ≤ start) (fd : FileDescriptor) :
    EndsOk (vectorAddFrom kmalloc vec fd start heap) := by
  have table := holds.table ok
  unfold vectorAddFrom
  simp only [holds.getVector, bind, Except.bind]
  split
  · next above =>
      have pos := table.pos
      rcases expand_cases grants.sound ok holds
          (Libk.one_le_roundup pos (show 0 < start by omega)) with ⟨-, ret⟩ |
        ⟨-, refused, -⟩ | ⟨n, tmp, heap', -, -, -, ret, replaces⟩
      · exact .inl (by rw [ret])
      · exact (grants.not_none _ _ refused).elim
      · rw [ret]
        exact addAbove_ends grants (replaces.ok ok (table.grow n tmp)) replaces.holds nonneg fd
  · exact addAbove_ends grants ok holds nonneg fd

theorem set_overruns (above : v.vectorMaxsize ≤ fd) (multiple : v.vectorMaxsize ∣ fd)
    (obj : FileDescriptor) :
    vectorSet kmalloc vec obj fd heap = .error .product ∨
      vectorSet kmalloc vec obj fd heap = .error .outOfBounds := by
  have pos := (holds.table ok).pos
  obtain ⟨i, rfl⟩ := Int.eq_ofNat_of_zero_le (show 0 ≤ fd by omega)
  rcases set_cases grants.sound ok holds i obj with
    ⟨heap', n, fits, -, -⟩ | ⟨-, ⟨-, ret⟩ | ⟨-, ret⟩⟩
  · rcases fits with lt | ⟨rest, -⟩
    · omega
    · exact absurd multiple rest
  · exact .inl ret
  · exact .inr ret

end

/-! ## Runs -/

inductive VectorOp where
  | add (vec : Nat) (fd : FileDescriptor)
  | addFrom (vec : Nat) (fd : FileDescriptor) (start : Int)
  | set (vec : Nat) (obj : FileDescriptor) (fd : Int)
  | clear (vec : Nat) (fd : Int)
  | copy (cp : Nat)

namespace VectorOp

def run (kmalloc : Kmalloc) (heap : Heap) : VectorOp → Except Fault (Int × Heap)
  | add vec fd => vectorAdd kmalloc vec fd heap
  | addFrom vec fd start => vectorAddFrom kmalloc vec fd start heap
  | set vec obj fd => vectorSet kmalloc vec obj fd heap
  | clear vec fd => vectorClear vec fd heap
  | copy cp => do
    let (vec, heap) ← vectorCopy kmalloc cp heap
    return ((vec : Int), heap)

def table : VectorOp → Nat
  | add vec _ => vec
  | addFrom vec _ _ => vec
  | set vec _ _ => vec
  | clear vec _ => vec
  | copy cp => cp

/-- The table exists, and the descriptor is in the range the function is made for. -/
def Legal (heap : Heap) (op : VectorOp) : Prop := ∃ v, heap.vectors.lookup op.table = some v ∧
    match op with
    | add _ _ => True
    | addFrom _ _ start => 0 ≤ start
    | set _ _ fd => 0 ≤ fd
    | clear _ fd => 0 ≤ fd ∧ fd < v.vectorSize
    | copy _ => True

/-- The descriptor of a `vector_set` is below the capacity or no multiple of it. -/
def NoMultiple (heap : Heap) : VectorOp → Prop
  | set vec _ fd => ∀ v, heap.vectors.lookup vec = some v →
      fd < v.vectorMaxsize ∨ ¬ v.vectorMaxsize ∣ fd
  | _ => True

/-- All products are below 2^31. -/
def SmallProducts (kmalloc : Kmalloc) (heap : Heap) (op : VectorOp) : Prop :=
  op.run kmalloc heap ≠ .error .product

end VectorOp

/-- Every operation of a run has the property in the state it is executed in. -/
def AlongRun (kmalloc : Kmalloc) (P : Heap → VectorOp → Prop) : List VectorOp → Heap → Prop
  | [], _ => True
  | op :: ops, heap => P heap op ∧
      ∀ r heap', op.run kmalloc heap = .ok (r, heap') → AlongRun kmalloc P ops heap'

/-- The fields of every table agree with its array. -/
def InCapacity (heap : Heap) : Prop :=
  ∀ vec v, heap.vectors.lookup vec = some v → 0 ≤ v.vectorSize ∧ v.vectorSize ≤ v.vectorMaxsize ∧
    ∃ slots, heap.buffers.lookup v.vectorBuffer = some slots ∧
      (slots.length : Int) = v.vectorMaxsize

/-- No operation of the run accesses a slot outside its array, and every state has
its tables in order. -/
def SafeRun (kmalloc : Kmalloc) : List VectorOp → Heap → Prop
  | [], heap => InCapacity heap
  | op :: ops, heap => InCapacity heap ∧
      ∃ r heap', op.run kmalloc heap = .ok (r, heap') ∧ SafeRun kmalloc ops heap'

theorem Heap.Ok.inCapacity (ok : heap.Ok) : InCapacity heap := by
  intro vec v found
  obtain ⟨slots, holds, table⟩ := ok.table vec v found
  exact ⟨table.nonneg, table.within, slots, holds.buffer, table.allocated⟩

variable {op : VectorOp} (grants : Grants kmalloc)

include grants

theorem VectorOp.run_ends (ok : heap.Ok) (legal : op.Legal heap)
    (small : op.SmallProducts kmalloc heap) (inside : op.NoMultiple heap) :
    ∃ r heap', op.run kmalloc heap = .ok (r, heap') ∧ heap'.Ok := by
  obtain ⟨v, found, range⟩ := legal
  obtain ⟨slots, holds, -⟩ := ok.table _ v found
  have ends : EndsOk (op.run kmalloc heap) := by
    cases op with
    | add vec fd => exact add_ends grants ok holds fd
    | addFrom vec fd start => exact addFrom_ends grants ok holds range fd
    | set vec obj fd =>
        obtain ⟨i, rfl⟩ := Int.eq_ofNat_of_zero_le range
        rcases set_cases grants.sound ok holds i obj with
          ⟨heap', n, -, ret, puts⟩ | ⟨misfit, ⟨-, ret⟩ | ⟨short, -⟩⟩
        · exact .inr ⟨_, heap', ret, puts.ok ok holds⟩
        · exact .inl ret
        · have rest := (inside v found).resolve_left fun lt => misfit (.inl lt)
          exact (grants.not_none _ _ (short.resolve_left rest)).elim
    | clear vec fd =>
        have table := holds.table ok
        have allocated := table.allocated
        have le := table.within
        obtain ⟨i, rfl⟩ := Int.eq_ofNat_of_zero_le range.1
        have inside : i < slots.length := by omega
        obtain ⟨heap', ret, replaces⟩ := clear_spec ok holds (getElem?_eq_getElem inside)
        exact .inr ⟨0, heap', ret, (replaces.puts inside (by omega)).ok ok holds⟩
    | copy cp =>
      have copies : EndsOk (vectorCopy kmalloc cp heap) := copy_ends grants ok holds
      rcases copies with ret | ⟨new, heap', ret, okNew⟩
      · exact .inl (by simp only [run, ret]; rfl)
      · exact .inr ⟨new, heap', by simp only [run, ret]; rfl, okNew⟩
  exact ends.resolve_left small

theorem VectorOp.run_overruns (ok : heap.Ok) (legal : op.Legal heap)
    (small : op.SmallProducts kmalloc heap) (away : ¬ op.NoMultiple heap) :
    op.run kmalloc heap = .error .outOfBounds := by
  obtain ⟨v, found, range⟩ := legal
  obtain ⟨slots, holds, -⟩ := ok.table _ v found
  cases op with
  | set vec obj fd =>
    have multiple : v.vectorMaxsize ≤ fd ∧ v.vectorMaxsize ∣ fd := by
      by_contra lt
      apply away
      intro w foundW
      obtain rfl := mem_unique found foundW
      by_cases below : fd < v.vectorMaxsize
      · exact .inl below
      · exact .inr fun divides => lt ⟨not_lt.mp below, divides⟩
    exact (set_overruns grants ok holds multiple.1 multiple.2 obj).resolve_left small
  | add vec fd => exact (away trivial).elim
  | addFrom vec fd start => exact (away trivial).elim
  | clear vec fd => exact (away trivial).elim
  | copy cp => exact (away trivial).elim

theorem safeRun_iff (ok : heap.Ok) {ops : List VectorOp}
    (legal : AlongRun kmalloc (fun heap op => op.Legal heap) ops heap)
    (small : AlongRun kmalloc (fun heap op => op.SmallProducts kmalloc heap) ops heap) :
    SafeRun kmalloc ops heap ↔ AlongRun kmalloc (fun heap op => op.NoMultiple heap) ops heap := by
  induction ops generalizing heap with
  | nil => exact iff_of_true ok.inCapacity trivial
  | cons op ops ih =>
    by_cases inside : op.NoMultiple heap
    · obtain ⟨r, next, ret, okNext⟩ := VectorOp.run_ends grants ok legal.1 small.1 inside
      have rest := ih okNext (legal.2 r next ret) (small.2 r next ret)
      constructor
      · rintro ⟨-, r', next', ret', safe⟩
        refine ⟨inside, fun r2 next2 ret2 => ?_⟩
        cases ret'.symm.trans ret
        cases ret'.symm.trans ret2
        exact rest.mp safe
      · rintro ⟨-, others⟩
        exact ⟨ok.inCapacity, r, next, ret, rest.mpr (others r next ret)⟩
    · have fault := VectorOp.run_overruns grants ok legal.1 small.1 inside
      constructor
      · rintro ⟨-, r, next, ret, -⟩
        rw [fault] at ret
        cases ret
      · intro all
        exact (inside all.1).elim

omit grants

/-- The heap before the first table. -/
def emptyHeap : Heap := ⟨∅, ∅⟩

theorem emptyHeap_ok : emptyHeap.Ok where
  table := fun vec v found => by cases found
  separate := fun vec vec' v v' found => by cases found

theorem create_cases (kmalloc : Kmalloc) :
    ((∃ size heap, kmalloc size heap = none) ∧ vectorCreate kmalloc emptyHeap = (0, emptyHeap)) ∨
      ∃ vec buffer heap, vectorCreate kmalloc emptyHeap = (vec, heap) ∧
        kmalloc sizeofVectorT.toNat emptyHeap = some vec ∧
        Replaces emptyHeap heap vec ⟨buffer, 0, 8⟩ (List.replicate 8 FileDescriptor.zero) := by
  unfold vectorCreate
  cases first : kmalloc sizeofVectorT.toNat emptyHeap with
  | none => exact .inl ⟨⟨_, _, first⟩, rfl⟩
  | some vec =>
    cases second : kmalloc (sizeofFileDescriptor * vectorBeginAmount).toNat
        (emptyHeap.setVector vec ⟨0, 0, 0⟩) with
    | none => exact .inl ⟨⟨_, _, second⟩, by simp only [second]⟩
    | some buffer =>
      right
      have unused : Unused emptyHeap buffer := ⟨notMem_empty, notMem_empty⟩
      refine ⟨vec, buffer, _, ?_, rfl, emptyHeap_ok.create unused ..⟩
      simp only [second]
      simp only [Heap.setVector, Heap.setBuffer, insert_insert]
      rfl

theorem create_ok (kmalloc : Kmalloc) : (vectorCreate kmalloc emptyHeap).2.Ok := by
  rcases create_cases kmalloc with ⟨-, ret⟩ | ⟨vec, buffer, heap, ret, -, replaces⟩
  · rw [ret]
    exact emptyHeap_ok
  rw [ret]
  exact replaces.ok emptyHeap_ok
    ⟨rfl, le_refl 0, (by decide : (0 : Int) ≤ 8), (by decide : (0 : Int) < 8)⟩

/-- From one table on, a run of legal operations stays inside the arrays exactly if no
`vector_set` grows a table to a multiple of its capacity. -/
theorem vectorRun_safe_iff (grants : Grants kmalloc) (ops : List VectorOp)
    (legal : AlongRun kmalloc (fun heap op => op.Legal heap) ops (vectorCreate kmalloc emptyHeap).2)
    (small : AlongRun kmalloc (fun heap op => op.SmallProducts kmalloc heap) ops
      (vectorCreate kmalloc emptyHeap).2) :
    SafeRun kmalloc ops (vectorCreate kmalloc emptyHeap).2 ↔
      AlongRun kmalloc (fun heap op => op.NoMultiple heap) ops (vectorCreate kmalloc emptyHeap).2 :=
  safeRun_iff grants (create_ok kmalloc) legal small

/-- The address behind all addresses in use. -/
def nextAddress : Kmalloc := fun _ heap => some ((heap.vectors.keys ∪ heap.buffers.keys).sup id + 1)

theorem nextAddress_grants : Grants nextAddress := by
  intro size heap
  refine ⟨_, rfl, ?_, ?_⟩
  · intro used
    have le := le_sup (f := id) (mem_union_left heap.buffers.keys (mem_keys.mpr used))
    exact Nat.not_succ_le_self _ le
  · intro used
    have le := le_sup (f := id) (mem_union_right heap.vectors.keys (mem_keys.mpr used))
    exact Nat.not_succ_le_self _ le

def sampleFd : FileDescriptor := ⟨0x1000, 0, 0, 0, 0⟩

theorem vectorRun_set_nine :
    SafeRun nextAddress [.set 1 sampleFd 9] (vectorCreate nextAddress emptyHeap).2 := by
  apply (vectorRun_safe_iff nextAddress_grants _ ?_ ?_).mpr
  · refine ⟨?_, fun _ _ _ => trivial⟩
    intro v found
    obtain rfl := some.inj found
    exact .inr (by decide)
  · exact ⟨⟨⟨2, 0, 8⟩, rfl, by decide⟩, fun _ _ _ => trivial⟩
  · refine ⟨?_, fun _ _ _ => trivial⟩
    intro overflow
    cases overflow

/-- Descriptor 8 on a table of eight slots: the table grows by the factor one. -/
theorem vectorSet_eight_overruns : Grants nextAddress ∧
      VectorOp.Legal (vectorCreate nextAddress emptyHeap).2 (.set 1 sampleFd 8) ∧
      VectorOp.run nextAddress (vectorCreate nextAddress emptyHeap).2 (.set 1 sampleFd 8) =
        .error .outOfBounds :=
  ⟨nextAddress_grants, ⟨⟨2, 0, 8⟩, rfl, by decide⟩, rfl⟩

end Yanix.Ds
