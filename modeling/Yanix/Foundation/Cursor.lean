/-
Module: Yanix.Foundation.Cursor
Purpose: States that hand out one element at a time.  Whether a cursor ends is shown by a
  measure or refuted by an invariant; simulation keeps what is enumerated.
-/
import Mathlib.Logic.Function.Iterate

namespace Foundation

variable {σ α : Type*} {next : σ → Option α × σ} {s : σ}

/-- The answers of `next` from state `s` on are the elements of `l`, and nothing after those. -/
def Yields (next : σ → Option α × σ) (s : σ) (l : List α) : Prop :=
  ∀ n, (next ((fun s => (next s).2)^[n] s)).1 = l[n]?

namespace Yields

theorem answer {l : List α} (yields : Yields next s l) : (next s).1 = l.head? := by
  have first := yields 0
  rwa [Function.iterate_zero_apply, ← List.head?_eq_getElem?] at first

theorem tail {l : List α} (yields : Yields next s l) : Yields next (next s).2 l.tail := by
  intro n
  have later := yields (n + 1)
  rwa [Function.iterate_succ_apply, ← List.getElem?_tail] at later

theorem unique {l l' : List α} (first : Yields next s l) (second : Yields next s l') : l = l' :=
  List.ext_getElem? fun n => (first n).symm.trans (second n)

end Yields

variable {S T : Type*}

/-- The calls hand out these elements one after the other, and then nothing. -/
inductive Enumerates (next : S → Option α × S) : S → List α → Prop where
  | stop {s : S} (ended : (next s).1 = none) : Enumerates next s []
  | more {s : S} {a : α} {xs : List α} (given : (next s).1 = some a)
      (rest : Enumerates next (next s).2 xs) : Enumerates next s (a :: xs)

/-- The states in which calls are made, up to the first that returns nothing. -/
inductive Visits (next : S → Option α × S) (s : S) : S → Prop where
  | start : Visits next s s
  | call {t : S} {a : α} (before : Visits next s t) (given : (next t).1 = some a) :
      Visits next s (next t).2

section

variable {next : S → Option α × S}

theorem Enumerates.unique {s : S} {xs ys : List α} (first : Enumerates next s xs)
    (second : Enumerates next s ys) : xs = ys := by
  induction first generalizing ys with
  | stop ended =>
    cases second with
    | stop _ => rfl
    | more given _ =>
      rw [ended] at given
      cases given
  | more given _ ih =>
    cases second with
    | stop ended =>
      rw [given] at ended
      cases ended
    | more given' rest' =>
      rw [given] at given'
      cases given'
      rw [ih rest']

theorem Enumerates.congr {s t : S} (same : next s = next t) {xs : List α}
    (enumerates : Enumerates next s xs) : Enumerates next t xs := by
  cases enumerates with
  | stop ended => exact .stop (same ▸ ended)
  | more given rest => exact .more (same ▸ given) (same ▸ rest)

theorem Visits.ends {s t : S} (visits : Visits next s t)
    (ends : ∃ xs, Enumerates next s xs) : ∃ xs, Enumerates next t xs := by
  induction visits with
  | start => exact ends
  | call lt given ih =>
    obtain ⟨xs, rest⟩ := ih
    cases rest with
    | stop ended =>
      rw [given] at ended
      cases ended
    | more _ rest => exact ⟨_, rest⟩

/-- What holds at the start and is kept by calls that hand something out holds in all states
visited. -/
theorem Visits.invariant {I : S → Prop} {s t : S} (visits : Visits next s t)
    (kept : ∀ s a, I s → (next s).1 = some a → I (next s).2) (here : I s) : I t := by
  induction visits with
  | start => exact here
  | call _ given ih => exact kept _ _ ih given

/-- A cursor ends if every call that hands something out makes a measure smaller. -/
theorem enumerates_of_measure {I : S → Prop} (measure : S → Nat)
    (step : ∀ s a, I s → (next s).1 = some a → I (next s).2 ∧ measure (next s).2 < measure s)
    {s : S} (here : I s) : ∃ xs, Enumerates next s xs := by
  generalize bound : measure s = n
  induction n using Nat.strongRecOn generalizing s with
  | ind n ih =>
    cases given : (next s).1 with
    | none => exact ⟨[], .stop given⟩
    | some a =>
      obtain ⟨kept, smaller⟩ := step s a here given
      obtain ⟨xs, rest⟩ := ih (measure (next s).2) (bound ▸ smaller) kept rfl
      exact ⟨a :: xs, .more given rest⟩

/-- It does not end if every call leads back to where another hands something out. -/
theorem not_enumerates_of_invariant {I : S → Prop}
    (step : ∀ s, I s → ∃ a, (next s).1 = some a ∧ I (next s).2) {s : S} (here : I s) :
    ¬ ∃ xs, Enumerates next s xs := by
  rintro ⟨xs, enumerates⟩
  induction enumerates with
  | stop ended =>
    obtain ⟨a, given, -⟩ := step _ here
    rw [ended] at given
    cases given
  | more _ _ ih =>
    obtain ⟨-, -, kept⟩ := step _ here
    exact ih kept

end

/-- Related states hand out the same, and calls that hand something out lead to related
states. -/
structure Simulates (next : S → Option α × S) (next' : T → Option α × T) (R : S → T → Prop) :
    Prop where
  same : ∀ {s t}, R s t → (next' t).1 = (next s).1
  kept : ∀ {s t a}, R s t → (next s).1 = some a → R (next s).2 (next' t).2

section

variable {next : S → Option α × S} {next' : T → Option α × T} {R : S → T → Prop}
  (simulates : Simulates next next' R)

include simulates

theorem Simulates.enumerates_iff {s : S} {t : T} (related : R s t) {xs : List α} :
    Enumerates next' t xs ↔ Enumerates next s xs := by
  constructor
  · intro enumerates
    induction enumerates generalizing s with
    | stop ended => exact .stop ((simulates.same related).symm.trans ended)
    | more given _ ih =>
      have given' := (simulates.same related).symm.trans given
      exact .more given' (ih (simulates.kept related given'))
  · intro enumerates
    induction enumerates generalizing t with
    | stop ended => exact .stop ((simulates.same related).trans ended)
    | more given _ ih =>
      exact .more ((simulates.same related).trans given) (ih (simulates.kept related given))

theorem Simulates.visits {s : S} {t t' : T} (related : R s t) (visits : Visits next' t t') :
    ∃ s', Visits next s s' ∧ R s' t' := by
  induction visits with
  | start => exact ⟨s, .start, related⟩
  | call _ given ih =>
    obtain ⟨s', visits', related'⟩ := ih
    have given' := (simulates.same related').symm.trans given
    exact ⟨_, .call visits' given', simulates.kept related' given'⟩

theorem Simulates.visits_of {s s' : S} {t : T} (related : R s t) (visits : Visits next s s') :
    ∃ t', Visits next' t t' ∧ R s' t' := by
  induction visits with
  | start => exact ⟨t, .start, related⟩
  | call _ given ih =>
    obtain ⟨t', visits', related'⟩ := ih
    exact ⟨_, .call visits' ((simulates.same related').trans given), simulates.kept related' given⟩

end

end Foundation
