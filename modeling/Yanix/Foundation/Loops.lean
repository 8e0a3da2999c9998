/-
Module: Yanix.Foundation.Loops
Purpose: Rules for loops: monadic folds that may fail, loops over a 32-bit counter that may
  wrap around, and programs over a state that may stop before they return.
-/
import Yanix.Foundation.Bytes

namespace Foundation

open List Option

section

variable {α β : Type*}

/-- A loop over a list; the invariant speaks about what is still to be done. -/
theorem foldlM_invariant {f : α → β → Option α} (I : List β → α → Prop)
    (step : ∀ b rest a, I (b :: rest) a → ∃ a', f a b = some a' ∧ I rest a') :
    ∀ (l : List β) (a : α), I l a → ∃ a', l.foldlM f a = some a' ∧ I [] a' := by
  intro l
  induction l with
  | nil => exact fun a start => ⟨a, rfl, start⟩
  | cons b rest ih =>
    intro a start
    obtain ⟨a', round, carried⟩ := step b rest a start
    rw [foldlM_cons, round]
    exact ih a' carried

variable {n : Nat} {a : α}

/-- A counting loop; the invariant speaks about the number of rounds done. -/
theorem foldlM_range_invariant {f : α → Nat → Option α} (I : Nat → α → Prop) (start : I 0 a)
    (step : ∀ k a, k < n → I k a → ∃ a', f a k = some a' ∧ I (k + 1) a') :
    ∃ a', (List.range n).foldlM f a = some a' ∧ I n a' := by
  induction n with
  | zero => exact ⟨a, rfl, start⟩
  | succ n ih =>
    obtain ⟨b, rounds, reached⟩ := ih fun k a lt => step k a (Nat.lt_succ_of_lt lt)
    obtain ⟨a', round, carried⟩ := step n b (Nat.lt_succ_self n) reached
    refine ⟨a', ?_, carried⟩
    rw [range_succ, foldlM_append, rounds]
    simpa using round

theorem foldlM_rounds {f : α → β → Option α} (I : List β → α → Prop)
    (step : ∀ b rest a a', I (b :: rest) a → f a b = some a' → I rest a') :
    ∀ (l : List β) (a a' : α), I l a → l.foldlM f a = some a' → I [] a' := by
  intro l
  induction l with
  | nil =>
    intro a a' start run
    obtain rfl := some.inj run
    exact start
  | cons b rest ih =>
    intro a a' start run
    rw [foldlM_cons, bind_eq_bind, bind_eq_some_iff] at run
    obtain ⟨next, round, later⟩ := run
    exact ih next a' (step b rest a next start round) later

theorem foldlM_range_rounds {f : α → Nat → Option α} (I : Nat → α → Prop) {b : α} (start : I 0 a)
    (step : ∀ k a a', k < n → I k a → f a k = some a' → I (k + 1) a')
    (run : (List.range n).foldlM f a = some b) : I n b := by
  induction n generalizing b with
  | zero =>
    obtain rfl := some.inj run
    exact start
  | succ n ih =>
    rw [range_succ, foldlM_append] at run
    obtain ⟨c, rounds, last⟩ := bind_eq_some_iff.mp run
    rw [foldlM_cons, bind_eq_bind, bind_eq_some_iff] at last
    obtain ⟨b', round, rest⟩ := last
    obtain rfl := some.inj rest
    have reached := ih (fun k a a' lt => step k a a' (Nat.lt_succ_of_lt lt)) rounds
    exact step n c b' (Nat.lt_succ_self n) reached round

/-! ## Sequences of calls -/

/-- One call of a function on a state. -/
structure Call (σ ρ : Type*) where
  before : σ
  ret : ρ
  after : σ

variable {σ ρ : Type*}

/-- `n` calls one after the other, from the `i`-th on. -/
def calls (f : Nat → σ → ρ × σ) : (i n : Nat) → σ → List (Call σ ρ)
  | _, 0, _ => []
  | i, n + 1, st => ⟨st, (f i st).1, (f i st).2⟩ :: calls f (i + 1) n (f i st).2

variable {f : Nat → σ → ρ × σ} {i : Nat} {st : σ}

theorem calls_spec : ∀ call ∈ calls f i n st, ∃ j, f j call.before = (call.ret, call.after) := by
  induction n generalizing i st with
  | zero =>
    intro call mem
    cases mem
  | succ n ih =>
    intro call mem
    cases mem with
    | head => exact ⟨i, rfl⟩
    | tail _ later => exact ih call later

theorem calls_invariant {I : σ → Prop} (start : I st) (step : ∀ j st, I st → I (f j st).2) :
    ∀ call ∈ calls f i n st, I call.before := by
  induction n generalizing i st with
  | zero =>
    intro call mem
    cases mem
  | succ n ih =>
    intro call mem
    cases mem with
    | head => exact start
    | tail _ later => exact ih (step i st start) call later

theorem calls_ne_of_taken {Taken : σ → ρ → Prop} {Real : ρ → Prop} {r : ρ} (taken : Taken st r)
    (grows : ∀ call ∈ calls f i n st, ∀ x, Taken call.before x → Taken call.after x)
    (takes : ∀ call ∈ calls f i n st, Real call.ret → ¬ Taken call.before call.ret) :
    ∀ call ∈ calls f i n st, Real call.ret → r ≠ call.ret := by
  induction n generalizing i st with
  | zero =>
    intro call mem
    cases mem
  | succ n ih =>
    intro call mem real
    cases mem with
    | head => exact fun same => takes _ (mem_cons_self ..) real (same ▸ taken)
    | tail _ later =>
      have still := grows _ (mem_cons_self ..) r taken
      exact ih still (fun c m => grows c (mem_cons_of_mem _ m))
        (fun c m => takes c (mem_cons_of_mem _ m)) call later real

/-- Calls that take what was free before, on a state where nothing taken becomes
free again, answer differently. -/
theorem calls_distinct (Taken : σ → ρ → Prop) (Real : ρ → Prop)
    (grows : ∀ call ∈ calls f i n st, ∀ x, Taken call.before x → Taken call.after x)
    (takes : ∀ call ∈ calls f i n st, Real call.ret →
      ¬ Taken call.before call.ret ∧ Taken call.after call.ret) :
    (calls f i n st).Pairwise fun a b => Real a.ret → Real b.ret → a.ret ≠ b.ret := by
  induction n generalizing i st with
  | zero => exact List.Pairwise.nil
  | succ n ih =>
    have growsLater := fun c m => grows c (mem_cons_of_mem _ m)
    have takesLater := fun c m => takes c (mem_cons_of_mem _ m)
    apply List.Pairwise.cons
    · intro call mem realFirst real
      have taken := (takes _ (mem_cons_self ..) realFirst).2
      exact calls_ne_of_taken taken growsLater (fun c m r => (takesLater c m r).1) call mem real
    · exact ih growsLater takesLater

end

variable {σ : Type*}

/-- `for (; more(a); a += step) if ((ret = body(a)) != 0) return ret; return 0;`.
`none` when the body does not return, or when the passes are used up. -/
def wordLoop (step : Nat) (more : Nat → Bool) (body : Nat → σ → Option (σ × Int)) :
    (passes a : Nat) → σ → Option (σ × Int)
  | 0, _, _ => none
  | passes + 1, a, s =>
    if more a then do
      let (s, ret) ← body a s
      if ret ≠ 0 then some (s, ret) else wordLoop step more body passes (add32 a step) s
    else
      some (s, 0)

/-- The counter after `k` rounds. -/
def wordAt (step start k : Nat) : Nat := add32 start (k * step)

theorem wordAt_zero {start : Nat} (step : Nat) (lt : start < 2 ^ 32) :
    wordAt step start 0 = start := by
  unfold wordAt
  rw [Nat.zero_mul]
  exact add32_of_lt lt

theorem wordAt_succ (step start k : Nat) :
    wordAt step start (k + 1) = add32 (wordAt step start k) step := by
  unfold wordAt add32
  rw [Nat.mod_add_mod, Nat.succ_mul, Nat.add_assoc]

theorem wordAt_of_lt {step start k : Nat} (noWrap : start + k * step < 2 ^ 32) :
    wordAt step start k = start + k * step :=
  add32_of_lt noWrap

variable {step start : Nat} {more : Nat → Bool} {body : Nat → σ → Option (σ × Int)} {passes : Nat}
  {s : σ}

theorem wordLoop_stop {a : Nat} (stop : more a = false) (s : σ) :
    wordLoop step more body (passes + 1) a s = some (s, 0) := by
  unfold wordLoop
  rw [stop, if_neg Bool.false_ne_true]

theorem wordLoop_go {a : Nat} {s' : σ} (go : more a = true) (round : body a s = some (s', 0)) :
    wordLoop step more body (passes + 1) a s =
      wordLoop step more body passes (add32 a step) s' := by
  rw [wordLoop, if_pos go, round]
  rfl

/-- The first `n` rounds of a loop, when each succeeds and carries the invariant
on. -/
theorem wordLoop_rounds (I : Nat → σ → Prop) {n : Nat} (small : start < 2 ^ 32)
    (go : ∀ k < n, more (wordAt step start k) = true) (round : ∀ k < n, ∀ s, I k s →
      ∃ s', body (wordAt step start k) s = some (s', 0) ∧ I (k + 1) s') (init : I 0 s) :
    ∃ s', I n s' ∧ ∀ passes, wordLoop step more body (passes + n) start s =
      wordLoop step more body passes (wordAt step start n) s' := by
  induction n with
  | zero =>
    rw [wordAt_zero step small]
    exact ⟨s, init, fun _ => rfl⟩
  | succ n ih =>
    obtain ⟨s1, reached, rounds⟩ := ih (fun k below => go k (Nat.lt_succ_of_lt below))
      (fun k below => round k (Nat.lt_succ_of_lt below))
    obtain ⟨s', last, carried⟩ := round n (Nat.lt_succ_self n) s1 reached
    refine ⟨s', carried, ?_⟩
    intro passes
    have lt := rounds (passes + 1)
    rw [wordLoop_go (go n (Nat.lt_succ_self n)) last, ← wordAt_succ] at lt
    rw [← lt]
    congr 1
    omega

/-- A loop that stops after `n` rounds returns, with the invariant. -/
theorem wordLoop_returns (I : Nat → σ → Prop) {n : Nat} (small : start < 2 ^ 32)
    (lt : n < passes) (go : ∀ k < n, more (wordAt step start k) = true)
    (stop : more (wordAt step start n) = false) (round : ∀ k < n, ∀ s, I k s →
      ∃ s', body (wordAt step start k) s = some (s', 0) ∧ I (k + 1) s') (init : I 0 s) :
    ∃ s', wordLoop step more body passes start s = some (s', 0) ∧ I n s' := by
  obtain ⟨s', reached, rounds⟩ := wordLoop_rounds I small go round init
  obtain ⟨rest, rfl⟩ := Nat.exists_eq_add_of_le lt
  refine ⟨s', ?_, reached⟩
  have run := rounds (rest + 1)
  rw [wordLoop_stop stop] at run
  rw [← run]
  congr 1
  omega

theorem wordLoop_invariant {I : σ → Prop}
    (round : ∀ a < 2 ^ 32, ∀ s s' ret, I s → body a s = some (s', ret) → I s') :
    ∀ {passes a : Nat} {s s' : σ} {ret : Int}, a < 2 ^ 32 → I s →
      wordLoop step more body passes a s = some (s', ret) → I s' := by
  intro passes
  induction passes with
  | zero =>
    intro a s s' ret _ _ run
    cases run
  | succ passes ih =>
    intro a s s' ret lt init run
    unfold wordLoop at run
    split at run
    · obtain ⟨⟨s1, ret1⟩, result, rest⟩ := bind_eq_some_iff.mp run
      have kept := round a lt s s1 ret1 init result
      simp only at rest
      split at rest
      · cases rest
        exact kept
      · exact ih (add32_lt ..) kept rest
    · cases run
      exact init

/-- A loop whose condition never fails does not return. -/
theorem wordLoop_endless (lt : start < 2 ^ 32) (go : ∀ k, more (wordAt step start k) = true)
    (round : ∀ a s s' ret, body a s = some (s', ret) → ret = 0) (passes : Nat) (s : σ) :
    wordLoop step more body passes start s = none := by
  have rounds (k : Nat) : wordLoop step more body passes (wordAt step start k) s = none := by
    induction passes generalizing k s with
    | zero => rfl
    | succ passes ih =>
      unfold wordLoop
      rw [if_pos (go k)]
      cases result : body (wordAt step start k) s with
      | none => rfl
      | some r =>
        obtain ⟨s', ret⟩ := r
        obtain rfl := round _ _ _ _ result
        rw [← wordAt_succ]
        exact ih s' (k + 1)
  rw [← wordAt_zero step lt]
  exact rounds 0

variable {ε σ α β γ : Type}

/-- The state in which a program returned or stopped. -/
def endState : EStateM.Result ε σ α → σ
  | .ok _ s => s
  | .error _ s => s

def returns : EStateM.Result ε σ α → Bool
  | .ok .. => true
  | .error .. => false

theorem ok_of_returns {ret : EStateM.Result ε σ α} (returned : returns ret = true) :
    ∃ a, ret = .ok a (endState ret) := by
  cases ret with
  | ok a s => exact ⟨a, rfl⟩
  | error e s => exact absurd returned Bool.false_ne_true

/-- `for (i = 0; i < n; i++) body`. -/
def times : (n : Nat) → (body : Nat → EStateM ε σ Unit) → EStateM ε σ Unit
  | 0, _ => pure ()
  | n + 1, body => do
    times n body
    body n

theorem get_bind (f : σ → EStateM ε σ β) (s : σ) : (get >>= f) s = f s s := rfl

variable {m : EStateM ε σ α} {f : α → EStateM ε σ β} {s t : σ}

theorem bind_of_ok {a : α} (first : m s = .ok a t) : (m >>= f) s = f a t := by
  show EStateM.bind m f s = f a t
  rw [EStateM.bind, first]

theorem bind_of_error {e : ε} (first : m s = .error e t) : (m >>= f) s = .error e t := by
  show EStateM.bind m f s = .error e t
  rw [EStateM.bind, first]

variable {body : Nat → EStateM ε σ Unit}

theorem times_returns {R : σ → σ → Prop} (refl : ∀ s, R s s)
    (trans : ∀ {s t u}, R s t → R t u → R s u) (each : ∀ i s, ∃ t, body i s = .ok () t ∧ R s t)
    (n : Nat) (s : σ) : ∃ t, times n body s = .ok () t ∧ R s t := by
  induction n with
  | zero => exact ⟨s, rfl, refl s⟩
  | succ n ih =>
    obtain ⟨t, first, related⟩ := ih
    obtain ⟨u, last, related'⟩ := each n t
    exact ⟨u, (bind_of_ok first).trans last, trans related related'⟩

/-- From whatever state the program is started, it ends in a related one. -/
def Moves (R : σ → σ → Prop) (m : EStateM ε σ α) : Prop := ∀ s, R s (endState (m s))

variable {c : Prop} {n : EStateM ε σ α}

section

variable {R : σ → σ → Prop}

theorem Moves.pure (refl : ∀ s, R s s) (a : α) : Moves R (pure a : EStateM ε σ α) := refl

theorem Moves.throw (refl : ∀ s, R s s) (e : ε) : Moves R (throw e : EStateM ε σ α) := refl

theorem Moves.get (refl : ∀ s, R s s) : Moves R (get : EStateM ε σ σ) := refl

theorem Moves.bind (trans : ∀ s t u, R s t → R t u → R s u) (first : Moves R m)
    (rest : ∀ a, Moves R (f a)) : Moves R (m >>= f) := by
  intro s
  have lt := first s
  cases ran : m s with
  | ok a t =>
    rw [ran] at lt
    rw [bind_of_ok ran]
    exact trans _ _ _ lt (rest a t)
  | error e t =>
    rw [ran] at lt
    rw [bind_of_error ran]
    exact lt

theorem Moves.ite [Decidable c] (yes : Moves R m) (no : Moves R n) :
    Moves R (if c then m else n) := by
  split
  · exact yes
  · exact no

theorem Moves.times (refl : ∀ s, R s s) (trans : ∀ s t u, R s t → R t u → R s u)
    (each : ∀ i, Moves R (body i)) (n : Nat) : Moves R (times n body) := by
  induction n with
  | zero => exact Moves.pure refl ()
  | succ n ih => exact Moves.bind trans ih fun _ => each n

end

/-- The program leaves what `view` sees as it was. -/
def Frames (view : σ → γ) (m : EStateM ε σ α) : Prop := ∀ s, view (endState (m s)) = view s

variable {view : σ → γ}

theorem Frames.pure (a : α) : Frames view (pure a : EStateM ε σ α) := fun _ => rfl

theorem Frames.throw (e : ε) : Frames view (throw e : EStateM ε σ α) := fun _ => rfl

theorem Frames.get : Frames view (get : EStateM ε σ σ) := fun _ => rfl

theorem Frames.modify {f : σ → σ} (same : ∀ s, view (f s) = view s) :
    Frames view (modify f : EStateM ε σ PUnit) :=
  same

theorem Frames.bind (first : Frames view m) (rest : ∀ a, Frames view (f a)) :
    Frames view (m >>= f) :=
  Moves.bind (R := fun s t => view t = view s) (fun _ _ _ lt after => after.trans lt) first rest

theorem Frames.ite [Decidable c] (yes : Frames view m) (no : Frames view n) :
    Frames view (if c then m else n) :=
  Moves.ite (R := fun s t => view t = view s) yes no

theorem Frames.times (each : ∀ i, Frames view (body i)) (n : Nat) : Frames view (times n body) :=
  Moves.times (R := fun s t => view t = view s) (fun _ => rfl)
    (fun _ _ _ lt after => after.trans lt) each n

end Foundation
