/-
Module: Yanix.Ds.Queue
Purpose: The bounded queue of pointers, `kernel/yanix/ds/queue.c`.  `contents` is the list
  of its elements, oldest first.
Trusted boundary: hand-translated from C; the calls are taken one after another.  The lock word
  is left out: some returns skip the unlock, but `queue_lock` never sets it
-/
import Mathlib.Data.List.Range

namespace Yanix.Ds

open List

/-- Elements are addresses, zero being the null pointer. -/
structure Queue where
  buffer : Nat → Nat
  size : Nat
  capacity : Nat

def queueDefaultSize : Nat := 128

/-- `memory` is what the allocated buffer happens to hold; the size −1 is the default one. -/
def queueCreate (size : Option Nat) (memory : Nat → Nat) : Queue where
  buffer := memory
  size := 0
  capacity := size.getD queueDefaultSize

def queuePop (q : Queue) : Nat × Queue := if q.size = 0 then
    (0, q)
  else
    let size := q.size - 1
    -- The elements behind the first are copied one place forward.
    let buffer := fun i => if i < size then q.buffer (i + 1) else q.buffer i
    (q.buffer 0, { q with buffer := buffer, size := size })

def queuePush (q : Queue) (element : Nat) : Int × Queue := if q.capacity = q.size then
    (-1, q)
  else
    let size := q.size + 1
    ((size : Int) - 1, { q with buffer := Function.update q.buffer q.size element, size := size })

/-! ## The queue as a list -/

def Queue.contents (q : Queue) : List Nat := (List.range q.size).map q.buffer

@[simp] theorem Queue.length_contents (q : Queue) : q.contents.length = q.size := by
  simp [Queue.contents]

theorem Queue.contents_eq_nil_iff (q : Queue) : q.contents = [] ↔ q.size = 0 := by
  rw [← length_eq_zero_iff, q.length_contents]

variable {q : Queue}

theorem queuePush_full (full : q.capacity = q.size) (element : Nat) :
    queuePush q element = (-1, q) :=
  if_pos full

theorem contents_queuePush (room : q.capacity ≠ q.size) (element : Nat) :
    (queuePush q element).1 = q.size ∧ (queuePush q element).2.contents = q.contents ++ [element] ∧
      (queuePush q element).2.capacity = q.capacity := by
  unfold queuePush
  rw [if_neg room]
  have kept : (List.range q.size).map (Function.update q.buffer q.size element) =
      (List.range q.size).map q.buffer := by
    apply map_congr_left
    intro i mem
    exact Function.update_of_ne (Nat.ne_of_lt (mem_range.mp mem)) ..
  unfold Queue.contents
  rw [range_succ, map_append, kept]
  simp

theorem contents_queuePop {first : Nat} {rest : List Nat} (filled : q.contents = first :: rest) :
    (queuePop q).1 = first ∧ (queuePop q).2.contents = rest ∧
      (queuePop q).2.capacity = q.capacity := by
  have size : q.size = rest.length + 1 := by
    rw [← q.length_contents, filled, length_cons]
  have some : q.size ≠ 0 := by
    rw [size]
    exact Nat.succ_ne_zero _
  have split : q.contents = q.buffer 0 :: (List.range rest.length).map fun i =>
    q.buffer (i + 1) := by
    rw [Queue.contents, size, range_succ_eq_map, map_cons, List.map_map]
    rfl
  rw [filled] at split
  obtain ⟨head, tail⟩ := cons.inj split
  unfold queuePop
  rw [if_neg some]
  refine ⟨head.symm, ?_, rfl⟩
  rw [tail, size]
  apply map_congr_left
  intro i mem
  exact if_pos (mem_range.mp mem)

/-! ## Any calls -/

/-- `memcpy(buffer, &buffer[1], 4 * n)`: whole words, from the first to the last. -/
def memcpyDown (n : Nat) (buffer : Nat → Nat) : Nat → Nat :=
  (List.range n).foldl (fun b i => Function.update b i (b (i + 1))) buffer

theorem memcpyDown_eq (n : Nat) (buffer : Nat → Nat) :
    memcpyDown n buffer = fun i => if i < n then buffer (i + 1) else buffer i := by
  induction n with
  | zero => rfl
  | succ n ih =>
    rw [memcpyDown, range_succ, foldl_append, ← memcpyDown, ih, foldl_cons, foldl_nil]
    funext i
    by_cases here : i = n
    · rw [here, Function.update_self, if_pos (Nat.lt_succ_self n)]
      exact if_neg (by omega)
    · rw [Function.update_of_ne here]
      exact if_congr (by omega) rfl rfl

inductive QueueCall where
  | push (element : Nat)
  | pop

/-- The call with the copy loop of `memcpy`, and the indices of the buffer that it uses. -/
def QueueCall.exec : QueueCall → Queue → Int × Queue × List Nat
  | .push element, q => let (ret, q') := queuePush q element
    (ret, q', if q.capacity = q.size then [] else [q.size])
  | .pop, q =>
    if q.size = 0 then (0, q, [])
    else (q.buffer 0, { q with buffer := memcpyDown (q.size - 1) q.buffer, size := q.size - 1 },
      List.range q.size)

/-- A list of at most `capacity` elements, the oldest first. -/
def QueueCall.fifo (capacity : Nat) : QueueCall → List Nat → Int × List Nat
  | .push element, elements =>
    if elements.length = capacity then (-1, elements)
    else (elements.length, elements ++ [element])
  | .pop, [] => (0, [])
  | .pop, element :: elements => (element, elements)

/-- All calls return what those on the list return, the buffer holds the list, and no index from
the capacity on is used. -/
def IsFifo (capacity : Nat) : List QueueCall → Queue → List Nat → Prop
  | [], q, elements => q.contents = elements
  | call :: calls, q, elements =>
    (call.exec q).1 = (call.fifo capacity elements).1 ∧
      (∀ i ∈ (call.exec q).2.2, i < capacity) ∧ elements.length ≤ capacity ∧
      IsFifo capacity calls (call.exec q).2.1 (call.fifo capacity elements).2

theorem QueueCall.exec_fifo (call : QueueCall) (fits : q.size ≤ q.capacity) :
    (call.exec q).1 = (call.fifo q.capacity q.contents).1 ∧
      (∀ i ∈ (call.exec q).2.2, i < q.capacity) ∧
      (call.exec q).2.1.contents = (call.fifo q.capacity q.contents).2 ∧
      (call.exec q).2.1.capacity = q.capacity ∧
      (call.exec q).2.1.size ≤ q.capacity := by
  cases call with
  | push element =>
    by_cases full : q.capacity = q.size
    · simp [QueueCall.exec, QueueCall.fifo, queuePush_full full, full]
    have pushed := contents_queuePush full element
    have size := congrArg List.length pushed.2.1
    rw [Queue.length_contents, length_append, Queue.length_contents] at size
    simp only [QueueCall.exec, QueueCall.fifo, if_neg full, Queue.length_contents,
      if_neg (Ne.symm full), mem_singleton, forall_eq]
    refine ⟨pushed.1, by omega, pushed.2.1, pushed.2.2, ?_⟩
    rw [size]
    exact Nat.lt_of_le_of_ne fits (Ne.symm full)
  | pop =>
    cases filled : q.contents with
    | nil =>
      have empty := q.contents_eq_nil_iff.mp filled
      simp [QueueCall.exec, QueueCall.fifo, empty, filled]
    | cons first rest =>
      have some : q.size ≠ 0 := fun zero => by
        simp [q.contents_eq_nil_iff.mpr zero] at filled
      have popped := contents_queuePop filled
      have same : queuePop q = (q.buffer 0,
          { q with buffer := memcpyDown (q.size - 1) q.buffer, size := q.size - 1 }) := by
        rw [queuePop, if_neg some, memcpyDown_eq]
      rw [same] at popped
      simp only [QueueCall.exec, QueueCall.fifo, if_neg some, mem_range]
      refine ⟨congrArg Int.ofNat popped.1, fun i lt => by omega, popped.2.1, trivial, ?_⟩
      omega

/-- Any calls one after another, from `queue_create` on, treat the queue as a list. -/
theorem queue_is_fifo (size : Option Nat) (memory : Nat → Nat) (calls : List QueueCall) :
    IsFifo (queueCreate size memory).capacity calls (queueCreate size memory) [] := by
  have any : ∀ (calls : List QueueCall) (q : Queue), q.size ≤ q.capacity →
      IsFifo q.capacity calls q q.contents := by
    intro calls
    induction calls with
    | nil => exact fun _ _ => rfl
    | cons call calls ih =>
      intro q fits
      obtain ⟨ret, lt, contents, capacity, fits'⟩ := call.exec_fifo fits
      rw [IsFifo, ← contents, Queue.length_contents]
      have rest := ih (call.exec q).2.1
      rw [capacity] at rest
      exact ⟨ret, lt, fits, rest fits'⟩
  exact any calls (queueCreate size memory) (Nat.zero_le _)

end Yanix.Ds
