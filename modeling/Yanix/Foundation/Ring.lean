/-
Module: Yanix.Foundation.Ring
Purpose: A queue in a ring of cells, read off from its first place on, and a list that grows
  at its end with a cursor that goes round it.
-/
import Mathlib.Data.List.Range
import Mathlib.Data.List.Nodup

namespace Foundation.Ring

open List

variable {α : Type*} {cells : Nat → α} {n start k : Nat}

/-- The contents of `k` places from `start` on, in a ring of `n` cells. -/
def window (cells : Nat → α) (n start k : Nat) : List α :=
  (List.range k).map fun i => cells ((start + i) % n)

@[simp] theorem length_window : (window cells n start k).length = k := by simp [window]

theorem window_succ :
    window cells n start (k + 1) = window cells n start k ++ [cells ((start + k) % n)] := by
  simp [window, range_succ]

theorem window_congr {cells' : Nat → α} {start' : Nat}
    (agree : ∀ i < k, cells' ((start' + i) % n) = cells ((start + i) % n)) :
    window cells' n start' k = window cells n start k :=
  map_congr_left fun i mem => agree i (mem_range.mp mem)

theorem take_window (j : Nat) :
    (window cells n start k).take j = window cells n start (min j k) := by
  rw [window, ← map_take, take_range]
  rfl

theorem drop_window (j : Nat) :
    (window cells n start k).drop j = window cells n (start + j) (k - j) := by
  apply ext_getElem
  · simp
  · intro i _ _
    simp [window, Nat.add_assoc]

theorem place_ne_of_lt {i j : Nat} (lt : i < j) (near : j < i + n) :
    (start + i) % n ≠ (start + j) % n := by
  intro same
  have multiple : n ∣ (start + j) - (start + i) :=
    Nat.dvd_of_mod_eq_zero (Nat.sub_mod_eq_zero_of_mod_eq same.symm)
  have small := Nat.le_of_dvd (by omega) multiple
  omega

/-- A write to a cell that is in no place of the window. -/
theorem window_update_of_ne {cell : Nat} (x : α) (away : ∀ i < k, (start + i) % n ≠ cell) :
    window (Function.update cells cell x) n start k = window cells n start k :=
  window_congr fun i lt => Function.update_of_ne (away i lt) ..

/-- A write to the place behind the window, which is free, makes the window longer. -/
theorem window_update_end (x : α) (room : k < n) :
    window (Function.update cells ((start + k) % n) x) n start (k + 1) =
      window cells n start k ++ [x] := by
  rw [window_succ, Function.update_self,
    window_update_of_ne x fun i lt => place_ne_of_lt lt (by omega)]

end Foundation.Ring

namespace Foundation

open List

/-- The cursor stands before `rest`; behind the last element it has run out. -/
structure Rotation (α : Type*) where
  passed : List α
  rest : List α

variable {α : Type*} {x y : α} {picked : List α}

namespace Rotation

def items (r : Rotation α) : List α := r.passed ++ r.rest

/-- A cursor that has run out does not see what is appended. -/
def push (r : Rotation α) (x : α) : Rotation α := match r.rest with
  | [] => ⟨r.passed ++ [x], []⟩
  | next :: rest => ⟨r.passed, next :: (rest ++ [x])⟩

def pick (r : Rotation α) : Option (α × Rotation α) := match r.rest, r.passed with
  | x :: rest, passed => some (x, ⟨passed ++ [x], rest⟩)
  | [], x :: rest => some (x, ⟨[x], rest⟩)
  | [], [] => none

variable {r r' : Rotation α}

@[simp] theorem push_items (r : Rotation α) (x : α) : (r.push x).items = r.items ++ [x] := by
  obtain ⟨passed, rest⟩ := r
  cases rest <;> simp [push, items]

theorem pick_cases (call : r.pick = some (x, r')) : r'.items = r.items ∧
      (r.rest = x :: r'.rest ∨ r.rest = [] ∧ r.items = x :: r'.rest) := by
  obtain ⟨passed, rest⟩ := r
  cases rest with
  | cons z rest =>
    obtain ⟨rfl, rfl⟩ : z = x ∧ _ = r' := by simpa [pick] using call
    exact ⟨by simp [items], .inl rfl⟩
  | nil =>
    cases passed with
    | nil => simp [pick] at call
    | cons z rest =>
      obtain ⟨rfl, rfl⟩ : z = x ∧ _ = r' := by simpa [pick] using call
      exact ⟨by simp [items], .inr ⟨rfl, by simp [items]⟩⟩

end Rotation

/-- Elements are appended, and those in `picked` are picked one after the other. -/
inductive Turns : Rotation α → List α → Rotation α → Prop
  | refl (r : Rotation α) : Turns r [] r
  | push {r r' : Rotation α} {picked : List α} (x : α) (before : Turns r picked r') :
      Turns r picked (r'.push x)
  | pick {r r' r'' : Rotation α} {picked : List α} {x : α} (before : Turns r picked r')
      (call : r'.pick = some (x, r'')) : Turns r (picked ++ [x]) r''

/-- Where the cursor is on its way round from `x` back to `x`, with `front` before `x` and `start`
behind it at first: still behind `x`, or past the end and in `front`. -/
inductive Lap (front : List α) (x : α) (start picked : List α) (r : Rotation α) : Prop
  | behind (more : List α) (items : r.items = front ++ x :: (picked ++ more))
      (kept : start <+: picked ++ more)
      (cursor : r.rest = more ∨ r.rest = [] ∧ start <+: picked)
  | wrapped (tail late seen left : List α) (items : r.items = front ++ x :: tail)
      (split : picked = late ++ seen) (halves : front = seen ++ left)
      (cursor : r.rest = left ++ x :: tail) (all : start <+: late) (kept : late <+: tail)

namespace Lap

variable {front start : List α} {r r' : Rotation α}

theorem first (call : r.pick = some (x, r')) : ∃ front, Lap front x r'.rest [] r' ∧
    r'.items = front ++ x :: r'.rest := by
  obtain ⟨items, next | ⟨-, head⟩⟩ := Rotation.pick_cases call
  · have whole : r'.items = r.passed ++ x :: r'.rest := by rw [items, ← next, Rotation.items]
    exact ⟨r.passed, .behind _ whole prefix_rfl (.inl rfl), whole⟩
  · have whole : r'.items = [] ++ x :: r'.rest := items.trans head
    exact ⟨[], .behind _ whole prefix_rfl (.inl rfl), whole⟩

theorem ended {more : List α} (kept : start <+: picked ++ more)
    (cursor : r.rest = more ∨ r.rest = [] ∧ start <+: picked) (out : r.rest = []) :
    start <+: picked := by
  rcases cursor with same | ⟨-, all⟩
  · rwa [← same, out, append_nil] at kept
  · exact all

theorem push (lap : Lap front x start picked r) (y : α) : Lap front x start picked (r.push y) := by
  cases lap with
  | behind more items kept cursor =>
    refine .behind (more ++ [y]) (by simp [items]) ?_ ?_
    · rw [← append_assoc]
      exact kept.trans (prefix_append ..)
    cases rest : r.rest with
    | nil =>
      exact .inr ⟨by simp [Rotation.push, rest], ended kept cursor rest⟩
    | cons z rest' =>
      rcases cursor with same | ⟨ended, -⟩
      · rw [← same, rest]
        exact .inl (by simp [Rotation.push, rest])
      · simp [rest] at ended
  | wrapped tail late seen left items split halves cursor all kept =>
    refine .wrapped (tail ++ [y]) late seen left (by simp [items]) split halves ?_ all
      (kept.trans (prefix_append ..))
    unfold Rotation.push
    rw [cursor]
    cases left <;> simp

theorem pick (lap : Lap front x start picked r) (call : r.pick = some (y, r')) (ne : y ≠ x) :
    Lap front x start (picked ++ [y]) r' := by
  obtain ⟨same, step⟩ := Rotation.pick_cases call
  cases lap with
  | behind more items kept cursor =>
    rcases step with next | ⟨out, head⟩
    · obtain rfl : more = y :: r'.rest := by
        rcases cursor with here | ⟨out, -⟩
        · exact here.symm.trans next
        · simp [next] at out
      exact .behind r'.rest (by simp [same, items]) (by simpa using kept) (.inl rfl)
    -- The cursor starts again from the first element, which is in `front`.
    rw [items] at head
    cases front with
    | nil => exact absurd (cons.inj head).1.symm ne
    | cons z left =>
      obtain ⟨rfl, rest⟩ := cons.inj head
      exact .wrapped _ picked [z] left (same.trans items) rfl rfl rest.symm (ended kept cursor out)
        (prefix_append ..)
  | wrapped tail late seen left items split halves cursor all kept =>
    rcases step with next | ⟨out, -⟩
    · rw [cursor] at next
      cases left with
      | nil => exact absurd (cons.inj next).1.symm ne
      | cons z left =>
        obtain ⟨rfl, rest⟩ := cons.inj next
        exact .wrapped tail late (seen ++ [z]) left (same.trans items) (by simp [split])
          (by simp [halves]) rest.symm all kept
    · simp [cursor] at out

theorem last [DecidableEq α] (lap : Lap front x start picked r) (call : r.pick = some (x, r'))
    (nodup : r.items.Nodup) (mem : y ∈ front ++ start) : picked.count y = 1 := by
  obtain ⟨-, step⟩ := Rotation.pick_cases call
  cases lap with
  | behind more items kept cursor =>
    rw [items] at nodup step
    obtain ⟨-, nodup', ne⟩ := nodup_append.mp nodup
    obtain ⟨once, nodup''⟩ := nodup_cons.mp nodup'
    rcases step with next | ⟨out, head⟩
    · rcases cursor with here | ⟨out, -⟩
      · rw [here] at next
        simp [next] at once
      · simp [next] at out
    cases front with
    | nil =>
      refine count_eq_one_of_mem nodup''.of_append_left ?_
      exact (ended kept cursor out).subset (by simpa using mem)
    | cons z left =>
      exact absurd (cons.inj head).1 (ne z (by simp) x (by simp))
  | wrapped tail late seen left items split halves cursor all kept =>
    rw [items] at nodup
    have ne := (nodup_append.mp nodup).2.2
    rcases step with next | ⟨out, -⟩
    · rw [cursor] at next
      cases left with
      | nil =>
        rw [append_nil] at halves
        subst halves split
        have sub : (front ++ late).Nodup := nodup.sublist ((Sublist.refl front).append
            (kept.sublist.trans (sublist_cons_self x tail)))
        refine count_eq_one_of_mem (nodup_append_comm.mp sub) ?_
        rcases mem_append.mp mem with early | later
        · exact mem_append_right _ early
        · exact mem_append_left _ (all.subset later)
      | cons z left =>
        exact absurd (cons.inj next).1 (ne z (by simp [halves]) x (by simp))
    · simp [cursor] at out

end Lap

/-- Round robin: from one pick of `x` to the next, every other element that was there at the
first is picked exactly once. -/
theorem Turns.count_eq_one [DecidableEq α] {r r1 r2 r3 : Rotation α}
    (first : r.pick = some (x, r1)) (between : Turns r1 picked r2) (others : x ∉ picked)
    (again : r2.pick = some (x, r3)) (nodup : r2.items.Nodup) (mem : y ∈ r.items)
    (ne : y ≠ x) : picked.count y = 1 := by
  obtain ⟨front, start, whole⟩ := Lap.first first
  have lap : Lap front x r1.rest picked r2 := by
    clear nodup again
    induction between with
    | refl => exact start
    | push z lt ih => exact (ih others).push z
    | pick lt call ih =>
      rw [mem_append, not_or, mem_singleton] at others
      exact (ih others.1).pick call (Ne.symm others.2)
  refine lap.last again nodup ?_
  rw [← (Rotation.pick_cases first).1, whole] at mem
  simpa [ne] using mem

end Foundation
