/-
Module: Yanix.Foundation.Lock
Purpose: A lock word shared by any number of tasks.  A lock call is a small program whose
  steps read and write the word; the steps of different tasks interleave.
-/
import Mathlib.Logic.Function.Basic

namespace Foundation

open Function

/-- A lock call with local states `L`: where it begins, what a step does to the word and where it
goes on, unless it completes; and the word that an unlock call stores. -/
structure Protocol (L : Type*) where
  entry : L
  step : L → Int → Int × Option L
  release : Int

/-- How far a task is. -/
inductive Phase (L : Type*) where
  | out
  | locking (at' : L)
  | inside
  | leaving
deriving DecidableEq

/-- The lock word and the tasks. -/
structure Shared (T L : Type*) where
  word : Int
  phase : T → Phase L

variable {T L : Type*} [DecidableEq T] {p : Protocol L}

/-- Any interleaving of the steps of the tasks, from a free lock. -/
inductive Protocol.Reachable (p : Protocol L) : Shared T L → Prop
  | start : p.Reachable ⟨p.release, fun _ => .out⟩
  | call {s : Shared T L} {i : T} (before : p.Reachable s) (out : s.phase i = .out) :
      p.Reachable { s with phase := update s.phase i (.locking p.entry) }
  | again {s : Shared T L} {i : T} {at' next : L} {word : Int} (before : p.Reachable s)
      (locking : s.phase i = .locking at') (step : p.step at' s.word = (word, some next)) :
      p.Reachable ⟨word, update s.phase i (.locking next)⟩
  | complete {s : Shared T L} {i : T} {at' : L} {word : Int} (before : p.Reachable s)
      (locking : s.phase i = .locking at') (step : p.step at' s.word = (word, none)) :
      p.Reachable ⟨word, update s.phase i .inside⟩
  | unlock {s : Shared T L} {i : T} (before : p.Reachable s) (inside : s.phase i = .inside) :
      p.Reachable { s with phase := update s.phase i .leaving }
  | store {s : Shared T L} {i : T} (before : p.Reachable s) (leaving : s.phase i = .leaving) :
      p.Reachable ⟨p.release, update s.phase i .out⟩

/-- At most one task is between a completed lock call and the start of its unlock call. -/
def Exclusive (s : Shared T L) : Prop := ∀ i j, s.phase i = .inside → s.phase j = .inside → i = j

/-- A lock call that goes on alone from `at'` completes, taking the word from one value to the
other. -/
inductive Protocol.Solo (p : Protocol L) : (at' : L) → (before after : Int) → Prop
  | complete {at' : L} {before after : Int} (step : p.step at' before = (after, none)) :
      p.Solo at' before after
  | again {at' next : L} {before between after : Int}
      (step : p.step at' before = (between, some next)) (rest : p.Solo next between after) :
      p.Solo at' before after

variable {after : Int}

/-- A task whose call completes alone gets inside, whoever else is. -/
theorem Protocol.Solo.reach {s : Shared T L} {i : T} {at' : L} {before : Int}
    (solo : p.Solo at' before after) (reachable : p.Reachable s) (word : s.word = before)
    (locking : s.phase i = .locking at') :
    p.Reachable ⟨after, update s.phase i .inside⟩ := by
  induction solo generalizing s with
  | complete step =>
    rw [← word] at step
    exact .complete reachable locking step
  | again step rest ih =>
    rw [← word] at step
    have later := ih (.again reachable locking step) rfl (update_self ..)
    rwa [update_idem] at later

/-- Two calls that complete one after the other, without an unlock between them. -/
theorem both_inside_of_solo {i j : T} (ne : i ≠ j) {between : Int}
    (first : p.Solo p.entry p.release between) (second : p.Solo p.entry between after) :
    ∃ s : Shared T L, p.Reachable s ∧ s.phase i = .inside ∧ s.phase j = .inside := by
  have one := first.reach (.call (i := i) .start rfl) rfl (update_self ..)
  rw [update_idem] at one
  have idle : update (fun _ => Phase.out) i (.inside : Phase L) j = .out :=
    update_of_ne (Ne.symm ne) ..
  have two := second.reach (.call one idle) rfl (update_self ..)
  rw [update_idem] at two
  refine ⟨_, two, ?_, update_self ..⟩
  exact (update_of_ne ne ..).trans (update_self ..)

/-- A lock that a second task can take as well excludes nobody. -/
theorem exclusive_iff_subsingleton {between : Int} (first : p.Solo p.entry p.release between)
    (second : p.Solo p.entry between after) :
    (∀ s : Shared T L, p.Reachable s → Exclusive s) ↔ Subsingleton T := by
  constructor
  · intro exclusive
    refine ⟨fun i j => ?_⟩
    by_contra ne
    obtain ⟨s, reachable, lt, lt'⟩ := both_inside_of_solo ne first second
    exact ne (exclusive s reachable i j lt lt')
  · intro single s _ i j _ _
    exact Subsingleton.elim i j

/-- The lock call is completed, and the word not released yet. -/
def Phase.Holding (phase : Phase L) : Prop := phase = .inside ∨ phase = .leaving

/-- `who` holds the lock, and nobody else; the word says whether somebody does. -/
structure HeldBy (p : Protocol L) (taken : Int) (s : Shared T L) (who : Option T) : Prop where
  holders : ∀ j, (s.phase j).Holding ↔ who = some j
  word : s.word = if who = none then p.release else taken

variable {taken : Int} {s : Shared T L}

theorem HeldBy.step {word : Int} {i : T} {who who' : Option T} {phase : Phase L}
    (held : HeldBy p taken s who) (own : phase.Holding ↔ who' = some i)
    (others : ∀ j, j ≠ i → (who = some j ↔ who' = some j))
    (tells : word = if who' = none then p.release else taken) :
    HeldBy p taken ⟨word, update s.phase i phase⟩ who' := by
  refine ⟨fun j => ?_, tells⟩
  dsimp only
  by_cases here : j = i
  · rw [here, update_self, own]
  · rw [update_of_ne here, held.holders, others j here]

/-- A lock call that leaves the word alone until its last step takes a free lock lets one task in at
a time. -/
theorem heldBy_of_reachable (differ : taken ≠ p.release)
    (waits : ∀ {at' next word word'}, p.step at' word = (word', some next) → word' = word)
    (takes : ∀ {at' word word'}, p.step at' word = (word', none) → word = p.release ∧ word' = taken)
    (reachable : p.Reachable s) : ∃ who, HeldBy p taken s who := by
  induction reachable with
  | start => exact ⟨none, by simp [Phase.Holding], rfl⟩
  | call _ out ih =>
    obtain ⟨who, held⟩ := ih
    exact ⟨who, held.step (by simp [← held.holders, Phase.Holding, out]) (by simp) held.word⟩
  | again _ locking step ih =>
    obtain ⟨who, held⟩ := ih
    exact ⟨who, held.step (by simp [← held.holders, Phase.Holding, locking]) (by simp)
      ((waits step).trans held.word)⟩
  | @complete s i _ _ _ _ step ih =>
    obtain ⟨who, held⟩ := ih
    obtain ⟨free, rfl⟩ := takes step
    have nobody : who = none := by
      by_contra somebody
      exact differ ((if_neg somebody).symm.trans (held.word.symm.trans free))
    exact ⟨some i, held.step (by simp [Phase.Holding]) (by simp [nobody, eq_comm]) rfl⟩
  | unlock _ lt ih =>
    obtain ⟨who, held⟩ := ih
    exact ⟨who, held.step (by simp [← held.holders, Phase.Holding, lt]) (by simp) held.word⟩
  | store _ leaving ih =>
    obtain ⟨who, held⟩ := ih
    obtain rfl := (held.holders _).mp (.inr leaving)
    exact ⟨none, held.step (by simp [Phase.Holding]) (by simp [eq_comm]) rfl⟩

end Foundation
