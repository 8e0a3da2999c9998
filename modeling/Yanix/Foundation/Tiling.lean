/-
Module: Yanix.Foundation.Tiling
Purpose: Tilings of an address interval by spans that may be listed in any order, so that
  spans kept in several unordered lists need no sorting.
-/
import Mathlib.Data.List.Pairwise
import Mathlib.Data.List.Perm.Basic

namespace Foundation

open List

/-- The half-open interval `[start, start + len)`. -/
structure Span where
  start : Nat
  len : Nat
deriving DecidableEq

/-- The address following the span. -/
def Span.stop (s : Span) : Nat := s.start + s.len

/-- The spans follow each other without gap from `lo` to `hi`. -/
def Consecutive : Nat → List Span → Nat → Prop
  | lo, [], hi => lo = hi
  | lo, s :: rest, hi => s.start = lo ∧ Consecutive s.stop rest hi

/-- The spans tile `[lo, hi)`, in whatever order they are listed. -/
def Tiles (lo hi : Nat) (spans : List Span) : Prop :=
  ∃ sorted, sorted.Perm spans ∧ Consecutive lo sorted hi

/-- Two spans share no address. -/
def Span.Disjoint (a b : Span) : Prop := a.stop ≤ b.start ∨ b.stop ≤ a.start

instance : Std.Symm Span.Disjoint := ⟨fun _ _ apart => Or.symm apart⟩

variable {lo hi : Nat} {xs ys : List Span}

theorem consecutive_append :
    Consecutive lo (xs ++ ys) hi ↔ ∃ mid, Consecutive lo xs mid ∧ Consecutive mid ys hi := by
  induction xs generalizing lo with
  | nil => simp [Consecutive]
  | cons s xs ih => simp only [cons_append, Consecutive, ih, exists_and_left, and_assoc]

variable {spans : List Span} (tiles : Tiles lo hi spans) (h : Consecutive lo spans hi)

include h

theorem Consecutive.le : lo ≤ hi := by
  induction spans generalizing lo with
  | nil => exact Nat.le_of_eq h
  | cons s rest ih =>
    obtain ⟨rfl, tail⟩ := h
    exact Nat.le_trans (Nat.le_add_right ..) (ih tail)

theorem Consecutive.bounds : ∀ s ∈ spans, lo ≤ s.start ∧ s.stop ≤ hi := by
  induction spans generalizing lo with
  | nil => simp
  | cons s rest ih =>
    obtain ⟨rfl, tail⟩ := h
    intro t mem
    rcases mem_cons.mp mem with rfl | later
    · exact ⟨Nat.le_refl _, tail.le⟩
    · obtain ⟨low, high⟩ := ih tail t later
      exact ⟨Nat.le_trans (Nat.le_add_right ..) low, high⟩

theorem Consecutive.pairwise : spans.Pairwise Span.Disjoint := by
  induction spans generalizing lo with
  | nil => exact List.Pairwise.nil
  | cons s rest ih =>
    obtain ⟨-, tail⟩ := h
    refine List.Pairwise.cons ?_ (ih tail)
    intro t mem
    exact .inl (tail.bounds t mem).1

theorem Consecutive.covers (x : Nat) :
    (lo ≤ x ∧ x < hi) ↔ ∃ s ∈ spans, s.start ≤ x ∧ x < s.stop := by
  induction spans generalizing lo with
  | nil =>
    have : lo = hi := h
    simp only [not_mem_nil, false_and, exists_false, iff_false]
    omega
  | cons s rest ih =>
    obtain ⟨rfl, tail⟩ := h
    have lt := tail.le
    have grow : s.start ≤ s.stop := Nat.le_add_right ..
    simp only [mem_cons, exists_eq_or_imp, ← ih tail]
    omega

omit h

theorem Tiles.nil (lo : Nat) : Tiles lo lo [] := ⟨[], List.Perm.nil, rfl⟩

theorem Tiles.perm (tiles : Tiles lo hi xs) (same : xs.Perm ys) : Tiles lo hi ys := by
  obtain ⟨sorted, perm, consecutive⟩ := tiles
  exact ⟨sorted, perm.trans same, consecutive⟩

include tiles

theorem Tiles.extend (len : Nat) : Tiles lo (hi + len) (⟨hi, len⟩ :: spans) := by
  obtain ⟨sorted, perm, consecutive⟩ := tiles
  refine ⟨sorted ++ [⟨hi, len⟩], ?_, ?_⟩
  · exact perm_append_comm.trans (perm.cons _)
  · exact consecutive_append.mpr ⟨hi, consecutive, rfl, rfl⟩

omit tiles

theorem Tiles.split {start first second : Nat}
    (tiles : Tiles lo hi (⟨start, first + second⟩ :: spans)) :
    Tiles lo hi (⟨start, first⟩ :: ⟨start + first, second⟩ :: spans) := by
  obtain ⟨sorted, perm, consecutive⟩ := tiles
  obtain ⟨front, back, rfl⟩ := append_of_mem (perm.mem_iff.mpr mem_cons_self)
  obtain ⟨mid, lt, here, after⟩ := consecutive_append.mp consecutive
  have rest : (front ++ back).Perm spans := Perm.cons_inv ((perm_middle.symm).trans perm)
  refine ⟨front ++ ⟨start, first⟩ :: ⟨start + first, second⟩ :: back, ?_, ?_⟩
  · exact perm_middle.trans ((perm_middle.trans (rest.cons _)).cons _)
  · refine consecutive_append.mpr ⟨mid, lt, here, rfl, ?_⟩
    simpa [Span.stop, Nat.add_assoc] using after

include tiles

theorem Tiles.bounds : ∀ s ∈ spans, lo ≤ s.start ∧ s.stop ≤ hi := by
  obtain ⟨sorted, perm, consecutive⟩ := tiles
  intro s mem
  exact consecutive.bounds s (perm.mem_iff.mpr mem)

theorem Tiles.disjoint : spans.Pairwise Span.Disjoint := by
  obtain ⟨sorted, perm, consecutive⟩ := tiles
  exact (perm.pairwise_iff fun ne => Std.Symm.symm _ _ ne).mp consecutive.pairwise

theorem Tiles.disjoint_of_ne {s t : Span} (hs : s ∈ spans) (ht : t ∈ spans) (ne : s ≠ t) :
    s.Disjoint t :=
  tiles.disjoint.forall hs ht ne

theorem Tiles.covers (x : Nat) : (lo ≤ x ∧ x < hi) ↔ ∃ s ∈ spans, s.start ≤ x ∧ x < s.stop := by
  obtain ⟨sorted, perm, consecutive⟩ := tiles
  rw [consecutive.covers x]
  constructor <;> rintro ⟨s, mem, lt⟩
  · exact ⟨s, perm.mem_iff.mp mem, lt⟩
  · exact ⟨s, perm.mem_iff.mpr mem, lt⟩

/-- Spans of at least `k` addresses are few. -/
theorem Tiles.length_mul_le {k : Nat} (long : ∀ s ∈ spans, k ≤ s.len) :
    lo + spans.length * k ≤ hi := by
  obtain ⟨sorted, perm, consecutive⟩ := tiles
  rw [← perm.length_eq]
  replace long : ∀ s ∈ sorted, k ≤ s.len := fun s mem => long s (perm.mem_iff.mp mem)
  clear perm
  induction sorted generalizing lo with
  | nil => simpa using Nat.le_of_eq consecutive
  | cons s rest ih =>
    obtain ⟨rfl, tail⟩ := consecutive
    have here := long s mem_cons_self
    have later := ih tail fun t mem => long t (mem_cons_of_mem _ mem)
    simp only [Span.stop] at later
    rw [length_cons, Nat.succ_mul]
    omega

end Foundation
