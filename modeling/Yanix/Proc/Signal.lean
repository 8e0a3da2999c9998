/-
Module: Yanix.Proc.Signal
Purpose: Signal handlers, `kernel/proc/tasking.c` with the vector of `external/eclib/vector.h`:
  which handler a delivered SIGINT finds.
Trusted boundary: hand-translated from C; handlers are addresses
-/
import Mathlib.Data.List.Basic

namespace Yanix.Proc

open List Option

def sigint : Int := 2

structure Sighandler where
  sig : Int
  handler : Nat
deriving DecidableEq

/-- A vector: what was pushed, in order, and the position of its iterator. -/
structure VecSig where
  elems : List Sighandler
  iter : Nat
deriving DecidableEq

/-- `vec_sig_iter`; −1 is no index. -/
def VecSig.next (vec : VecSig) : Option Nat × VecSig :=
  if vec.iter = vec.elems.length then (none, { vec with iter := 0 })
  else (some vec.iter, { vec with iter := vec.iter + 1 })

/-- `vec_sig_get`, which gives zeros outside the vector. -/
def VecSig.get (vec : VecSig) (index : Nat) : Sighandler := vec.elems.getD index ⟨0, 0⟩

/-- `signal` for the task that has the vector. -/
def signal (sig : Int) (handler : Nat) (vec : VecSig) : VecSig :=
  { vec with elems := vec.elems ++ [⟨sig, handler⟩] }

/-- The loop, which ends by itself when it has come to the end of the vector. -/
def findsighandler (sig : Int) : (fuel : Nat) → VecSig → Option (Nat × VecSig)
  | 0, _ => none
  | fuel + 1, vec =>
    match vec.next with
    | (none, vec) => some (0, vec)
    | (some i, vec) =>
      if (vec.get i).sig = sig then some ((vec.get i).handler, { vec with iter := 0 })
      else findsighandler sig fuel vec

inductive Delivery where
  | handled (handler : Nat)
  | killed
  | ignored
deriving DecidableEq

/-- What becomes of a signal sent to an existing task. -/
def sendTaskSignal (sig : Int) (vec : VecSig) : Option (Delivery × VecSig) :=
  if sig = sigint then do
    let (handler, vec) ← findsighandler sig (vec.elems.length + 1) vec
    return (if handler ≠ 0 then .handled handler else .killed, vec)
  else some (.ignored, vec)

/-- SIGINT, `n` times. -/
def deliveries : (n : Nat) → VecSig → Option (List Delivery)
  | 0, _ => some []
  | n + 1, vec => do
    let (first, vec) ← sendTaskSignal sigint vec
    let later ← deliveries n vec
    return first :: later

/-- The vector after these calls of `signal`. -/
def registered (calls : List (Int × Nat)) : VecSig :=
  calls.foldl (fun vec call => signal call.1 call.2 vec) ⟨[], 0⟩

/-- The handlers given for SIGINT, the oldest first. -/
def handlersOf (calls : List (Int × Nat)) : List Nat :=
  (calls.filter fun call => call.1 = sigint).map Prod.snd

/-- The handler of the latest call, and the end of the task without one. -/
def latest (calls : List (Int × Nat)) : Delivery := match (handlersOf calls).getLast? with
  | some handler => .handled handler
  | none => .killed

/-! ## The oldest handler is found -/

theorem registered_eq (calls : List (Int × Nat)) :
    registered calls = ⟨calls.map fun call => ⟨call.1, call.2⟩, 0⟩ := by
  have general (vec : VecSig) : calls.foldl (fun vec call => signal call.1 call.2 vec) vec =
      ⟨vec.elems ++ calls.map fun call => ⟨call.1, call.2⟩, vec.iter⟩ := by
    induction calls generalizing vec with
    | nil => simp
    | cons call calls ih =>
      rw [foldl_cons, ih]
      simp [signal]
  exact general ⟨[], 0⟩

/-- The search from the iterator on gives the first handler there and sets the iterator back. -/
theorem findsighandler_eq (sig : Int) (front back : List Sighandler) {fuel : Nat}
    (lt : back.length < fuel) :
    findsighandler sig fuel ⟨front ++ back, front.length⟩ =
      some (((back.find? fun hdl => hdl.sig = sig).map Sighandler.handler).getD 0,
        ⟨front ++ back, 0⟩) := by
  induction back generalizing front fuel with
  | nil =>
    cases fuel with
    | zero => cases lt
    | succ fuel => simp [findsighandler, VecSig.next]
  | cons hdl back ih =>
    cases fuel with
    | zero => cases lt
    | succ fuel =>
      have here : VecSig.get ⟨front ++ hdl :: back, front.length + 1⟩ front.length = hdl := by
        simp [VecSig.get]
      have next : VecSig.next ⟨front ++ hdl :: back, front.length⟩ =
          (some front.length, ⟨front ++ hdl :: back, front.length + 1⟩) :=
        if_neg (by simp)
      unfold findsighandler
      simp only [next, here]
      by_cases same : hdl.sig = sig
      · simp [same]
      have later := ih (front ++ [hdl]) (Nat.lt_of_succ_lt_succ lt)
      rw [append_assoc, length_append] at later
      rw [if_neg same, find?_cons_of_neg (by simpa using same)]
      exact later

/-- Delivered any number of times after any calls, SIGINT goes to the handler of the latest call for
it exactly if the oldest such call gave the same one, and not null. -/
theorem latest_handler_iff (calls : List (Int × Nat)) :
    (∀ n, deliveries n (registered calls) = some (List.replicate n (latest calls))) ↔
      (handlersOf calls).head? = (handlersOf calls).getLast? ∧
        (handlersOf calls).getLast? ≠ some 0 := by
  have once : sendTaskSignal sigint (registered calls) = some (if (handlersOf calls).head?.getD 0 ≠
      0 then .handled ((handlersOf calls).head?.getD 0) else .killed, registered calls) := by
    have first : (((calls.map fun call => (⟨call.1, call.2⟩ : Sighandler)).find? fun hdl =>
        hdl.sig = sigint).map Sighandler.handler) = (handlersOf calls).head? := by
      rw [handlersOf, head?_map, head?_filter, find?_map, Option.map_map]
      rfl
    have search := findsighandler_eq sigint [] (calls.map fun call => ⟨call.1, call.2⟩)
      (Nat.lt_succ_self _)
    rw [first] at search
    rw [registered_eq, sendTaskSignal, if_pos rfl]
    exact congrArg (Option.bind · _) search
  have decided : (if (handlersOf calls).head?.getD 0 ≠ 0 then
      .handled ((handlersOf calls).head?.getD 0) else .killed) = latest calls ↔
      (handlersOf calls).head? = (handlersOf calls).getLast? ∧
        (handlersOf calls).getLast? ≠ some 0 := by
    unfold latest
    cases handlers : handlersOf calls with
    | nil => simp
    | cons handler more =>
      obtain ⟨last, isLast⟩ : ∃ last, (handler :: more).getLast? = some last :=
        ⟨_, getLast?_eq_getLast_of_ne_nil (by simp)⟩
      rw [isLast]
      by_cases null : handler = 0
      · subst null
        simp [eq_comm]
      simp only [head?_cons, getD_some, ne_eq, null, not_false_eq_true, if_true,
        Delivery.handled.injEq, some.injEq]
      exact ⟨fun same => ⟨same, same ▸ null⟩, And.left⟩
  rw [← decided]
  constructor
  · intro every
    have one := every 1
    simpa [deliveries, once] using one
  · intro same n
    rw [same] at once
    induction n with
    | zero => rfl
    | succ n ih => simp [deliveries, once, ih, replicate_succ]

/-- Of two handlers the older one is called. -/
theorem latest_handler_older :
    deliveries 1 (registered [(sigint, 1), (sigint, 2)]) = some [.handled 1] ∧
      latest [(sigint, 1), (sigint, 2)] = .handled 2 := by
  decide

end Yanix.Proc
