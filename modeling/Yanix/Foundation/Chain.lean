/-
Module: Yanix.Foundation.Chain
Purpose: Linked lists over an arbitrary node type and through a `next` field: edits and walks
  as operations on the list of nodes.
-/
import Mathlib.Data.List.Nodup

namespace Foundation

open Function List Option

variable {α : Type*} {front back : List α} {fuel : Nat}

section

variable {next prev next' prev' : α → α} {p q : α}

/-- The nodes `xs` are linked both ways, `p` being stored before the first and `q` after the last.
-/
def Chain (next prev : α → α) : α → List α → α → Prop
  | _, [], _ => True
  | p, x :: xs, q => prev x = p ∧ next x = xs.headD q ∧ Chain next prev x xs q

variable {xs : List α}

/-- A concatenation is chained when both halves are, each naming the other
across the seam. -/
theorem chain_append {ys : List α} : Chain next prev p (xs ++ ys) q ↔
      Chain next prev p xs (ys.headD q) ∧ Chain next prev (xs.getLastD p) ys q := by
  induction xs generalizing p with
  | nil => simp [Chain]
  | cons x xs ih =>
    have seam : (xs ++ ys).headD q = xs.headD (ys.headD q) := by
      cases xs <;> simp
    simp only [cons_append, Chain, ih, seam, getLastD_cons]
    constructor
    · rintro ⟨hprev, hnext, hxs, hys⟩
      exact ⟨⟨hprev, hnext, hxs⟩, hys⟩
    · rintro ⟨⟨hprev, hnext, hxs⟩, hys⟩
      exact ⟨hprev, hnext, hxs, hys⟩

theorem Chain.congr (chain : Chain next prev p xs q)
    (agree : ∀ x ∈ xs, next' x = next x ∧ prev' x = prev x) : Chain next' prev' p xs q := by
  induction xs generalizing p with
  | nil => trivial
  | cons x xs ih =>
    obtain ⟨hprev, hnext, rest⟩ := chain
    obtain ⟨sameNext, samePrev⟩ := agree x mem_cons_self
    refine ⟨samePrev.trans hprev, sameNext.trans hnext, ih rest ?_⟩
    intro y mem
    exact agree y (mem_cons_of_mem _ mem)

/-- The nodes `xs` are linked forwards, `q` being stored behind the last of them. -/
def Forward (next : α → α) : List α → α → Prop
  | [], _ => True
  | x :: xs, q => next x = xs.headD q ∧ Forward next xs q

theorem Chain.forward (chain : Chain next prev p xs q) : Forward next xs q := by
  induction xs generalizing p with
  | nil => trivial
  | cons x xs ih =>
    obtain ⟨-, hnext, rest⟩ := chain
    exact ⟨hnext, ih rest⟩

variable [DecidableEq α] {r : α}

/-- Redirecting the forward link of the last node, and nothing else, changes
where the chain ends. -/
theorem Chain.retarget_end (nodup : xs.Nodup) (chain : Chain next prev p xs q)
    (hnext : ∀ x ∈ xs, next' x = if xs.getLast? = some x then r else next x)
    (hprev : ∀ x ∈ xs, prev' x = prev x) : Chain next' prev' p xs r := by
  rcases eq_nil_or_concat xs with rfl | ⟨front, last, rfl⟩
  · trivial
  rw [concat_eq_append] at *
  rw [chain_append] at chain ⊢
  obtain ⟨hfront, hlast, -, -⟩ := chain
  have apart : last ∉ front := by
    have := nodup_append.mp nodup
    intro mem
    exact this.2.2 last mem last (by simp) rfl
  refine ⟨?_, ?_, ?_, trivial⟩
  · refine hfront.congr fun x mem => ⟨?_, hprev x (by simp [mem])⟩
    rw [hnext x (by simp [mem]), if_neg]
    rintro same
    simp only [getLast?_append, getLast?_singleton, some_or, some.injEq] at same
    exact apart (same ▸ mem)
  · rw [hprev last (by simp), hlast]
  · simp [hnext last (by simp)]

/-- Redirecting the backward link of the first node, and nothing else, changes
where the chain starts. -/
theorem Chain.retarget_start (nodup : xs.Nodup) (chain : Chain next prev p xs q)
    (hnext : ∀ x ∈ xs, next' x = next x)
    (hprev : ∀ x ∈ xs, prev' x = if xs.head? = some x then r else prev x) :
    Chain next' prev' r xs q := by
  cases xs with
  | nil => trivial
  | cons x xs =>
    obtain ⟨-, hx, rest⟩ := chain
    refine ⟨by simp [hprev x mem_cons_self], ?_, ?_⟩
    · rw [hnext x mem_cons_self, hx]
    refine rest.congr fun y mem => ⟨hnext y (mem_cons_of_mem _ mem), ?_⟩
    have ne : x ≠ y := fun same => (nodup_cons.mp nodup).1 (same ▸ mem)
    rw [hprev y (mem_cons_of_mem _ mem), if_neg (by simpa using ne)]

variable {x : α}

/-- Redirecting the two links at the seam of `front` and `back`. -/
theorem Chain.retarget_seam {p' q' s : α} (nodup : (front ++ back).Nodup)
    (hfront : Chain next prev p front q') (hback : Chain next prev p' back q)
    (hnext : ∀ y ∈ front ++ back, next' y = if front.getLast? = some y then r else next y)
    (hprev : ∀ y ∈ front ++ back, prev' y = if back.head? = some y then s else prev y) :
    Chain next' prev' p front r ∧ Chain next' prev' s back q := by
  obtain ⟨nodupFront, nodupBack, ne⟩ := nodup_append.mp nodup
  constructor
  · refine hfront.retarget_end nodupFront ?_ ?_
    · intro y mem
      exact hnext y (mem_append_left _ mem)
    · intro y mem
      rw [hprev y (mem_append_left _ mem), if_neg]
      exact fun same => ne y mem y (mem_of_mem_head? same) rfl
  · refine hback.retarget_start nodupBack ?_ ?_
    · intro y mem
      rw [hnext y (mem_append_right _ mem), if_neg]
      exact fun same => ne y (mem_of_getLast? same) y mem rfl
    · intro y mem
      exact hprev y (mem_append_right _ mem)

/-- Unlinking `x`: its neighbours are pointed at each other. -/
theorem Chain.unlink (nodup : (front ++ x :: back).Nodup)
    (chain : Chain next prev p (front ++ x :: back) q) (hnext : ∀ y ∈ front ++ back,
      next' y = if front.getLast? = some y then back.headD q else next y)
    (hprev : ∀ y ∈ front ++ back,
      prev' y = if back.head? = some y then front.getLastD p else prev y) :
    Chain next' prev' p (front ++ back) q := by
  obtain ⟨hfront, -, -, hback⟩ := chain_append.mp chain
  have nodupRest : (front ++ back).Nodup := (nodup_cons.mp (nodup_middle.mp nodup)).2
  exact chain_append.mpr (Chain.retarget_seam nodupRest hfront hback hnext hprev)

/-- Linking `x` in: both neighbours are pointed at it, and it at them. -/
theorem Chain.insert (nodup : (front ++ back).Nodup) (chain : Chain next prev p (front ++ back) q)
    (xprev : prev' x = front.getLastD p) (xnext : next' x = back.headD q)
    (hnext : ∀ y ∈ front ++ back, next' y = if front.getLast? = some y then x else next y)
    (hprev : ∀ y ∈ front ++ back, prev' y = if back.head? = some y then x else prev y) :
    Chain next' prev' p (front ++ x :: back) q := by
  obtain ⟨hfront, hback⟩ := chain_append.mp chain
  obtain ⟨before, behind⟩ := Chain.retarget_seam nodup hfront hback hnext hprev
  exact chain_append.mpr ⟨before, xprev, xnext, behind⟩

omit [DecidableEq α] in
theorem Forward.congr (forward : Forward next xs q) (agree : ∀ x ∈ xs, next' x = next x) :
    Forward next' xs q := by
  induction xs with
  | nil => trivial
  | cons x xs ih =>
    obtain ⟨link, rest⟩ := forward
    refine ⟨(agree x mem_cons_self).trans link, ih rest ?_⟩
    intro y mem
    exact agree y (mem_cons_of_mem _ mem)

theorem Forward.concat (nodup : xs.Nodup) (forward : Forward next xs q) (hx : next' x = r)
    (hnext : ∀ y ∈ xs, next' y = if xs.getLast? = some y then x else next y) :
    Forward next' (xs ++ [x]) r := by
  induction xs with
  | nil => exact ⟨hx, trivial⟩
  | cons y xs ih =>
    obtain ⟨link, rest⟩ := forward
    obtain ⟨fresh, nodupRest⟩ := nodup_cons.mp nodup
    have hy := hnext y mem_cons_self
    refine ⟨?_, ih nodupRest rest fun z mem => ?_⟩
    · cases xs with
      | nil => simpa using hy
      | cons z zs =>
        have inner : (y :: z :: zs).getLast? ≠ some y := by
          rw [getLast?_cons_cons]
          intro last
          exact fresh (mem_of_getLast? last)
        rw [hy, if_neg inner, link]
        rfl
    · have hz := hnext z (mem_cons_of_mem _ mem)
      cases xs with
      | nil => cases mem
      | cons w ws => rwa [getLast?_cons_cons] at hz

/-! ## Walking a chain

The walks carry fuel, and `none` means that it ran out.  A walk through an
address space of `n` cells that takes more than `n` steps has met a node twice
and never ends, so `n` is fuel enough to tell the two apart. -/

variable {test : α → Bool}

section

variable (next : α → α) (null : α)

/-- `do { if (test(t)) return t; } while ((t = t->next) != null); return null;` -/
def scan (test : α → Bool) : Nat → α → Option α
  | 0, _ => none
  | fuel + 1, t =>
    if test t then some t
    else if next t = null then some null
    else scan test fuel (next t)

/-- `while (!test(t) && t->next != null) t = t->next; return t;` -/
def scanOrLast (test : α → Bool) : Nat → α → Option α
  | 0, _ => none
  | fuel + 1, t =>
    if test t then some t
    else if next t = null then some t
    else scanOrLast test fuel (next t)

/-- The nodes met from `t` on, `null` ending the walk. -/
def collect : Nat → α → Option (List α)
  | 0, _ => none
  | fuel + 1, t =>
    if t = null then some [] else (collect fuel (next t)).map (t :: ·)

variable {next} {null}

/-- Both searches find the first node that passes, and differ when none does. -/
theorem scans_eq (forward : Forward next (x :: xs) null) (notNull : null ∉ xs)
    (lt : xs.length < fuel) :
    scan next null test fuel x = some (((x :: xs).find? test).getD null) ∧
      scanOrLast next null test fuel x =
        some (((x :: xs).find? test).getD ((x :: xs).getLast (by simp))) := by
  induction xs generalizing x fuel with
  | nil =>
    obtain ⟨fuel, rfl⟩ := Nat.exists_eq_succ_of_ne_zero (by omega : fuel ≠ 0)
    obtain ⟨hnext, -⟩ := forward
    by_cases hx : test x <;> simp_all [scan, scanOrLast]
  | cons y ys ih =>
    obtain ⟨fuel, rfl⟩ := Nat.exists_eq_succ_of_ne_zero (by omega : fuel ≠ 0)
    obtain ⟨hnext, rest⟩ := forward
    simp only [headD_cons] at hnext
    have alive : y ≠ null := fun same => notNull (same ▸ mem_cons_self)
    have room : ys.length < fuel := by simpa using lt
    obtain ⟨stepScan, stepLast⟩ := ih rest (fun mem => notNull (mem_cons_of_mem _ mem)) room
    by_cases hx : test x
    · simp [scan, scanOrLast, hx]
    · simp [scan, scanOrLast, hx, hnext, alive, stepScan, stepLast, find?_cons]

theorem collect_eq (forward : Forward next xs null) (notNull : null ∉ xs)
    (lt : xs.length < fuel) : collect next null fuel (xs.headD null) = some xs := by
  induction xs generalizing fuel with
  | nil =>
    obtain ⟨fuel, rfl⟩ := Nat.exists_eq_succ_of_ne_zero (by omega : fuel ≠ 0)
    simp [collect]
  | cons x xs ih =>
    obtain ⟨fuel, rfl⟩ := Nat.exists_eq_succ_of_ne_zero (by omega : fuel ≠ 0)
    obtain ⟨hnext, rest⟩ := forward
    have alive : x ≠ null := fun same => notNull (same ▸ mem_cons_self)
    have room : xs.length < fuel := by simpa using lt
    have step : collect next null fuel (xs.headD null) = some xs :=
      ih rest (fun mem => notNull (mem_cons_of_mem _ mem)) room
    rw [headD_cons, collect, if_neg alive, hnext, step, map_some]

end

end

variable [Zero α] {next : α → α} {p q x : α} {xs ys : List α}

/-- The nodes `xs` are met from `p` on, and the last of them names `q`. -/
def Linked (next : α → α) : α → List α → α → Prop
  | p, [], q => p = q
  | p, x :: xs, q => p = x ∧ x ≠ 0 ∧ Linked next (next x) xs q

theorem linked_nil : Linked next p [] q ↔ p = q := Iff.rfl

theorem Linked.start_eq (linked : Linked next p xs q) : p = xs.headD q := by
  cases xs with
  | nil => exact linked
  | cons x xs => exact linked.1

theorem Linked.ne_zero (linked : Linked next p xs q) (mem : x ∈ xs) : x ≠ 0 := by
  induction xs generalizing p with
  | nil => cases mem
  | cons y xs ih =>
    obtain ⟨-, ne, rest⟩ := linked
    rcases mem_cons.mp mem with rfl | later
    · exact ne
    · exact ih rest later

theorem linked_append :
    Linked next p (xs ++ ys) q ↔ ∃ m, Linked next p xs m ∧ Linked next m ys q := by
  induction xs generalizing p with
  | nil => simp [Linked]
  | cons x xs ih =>
    simp only [cons_append, Linked, ih]
    constructor
    · rintro ⟨first, ne, m, front, back⟩
      exact ⟨m, ⟨first, ne, front⟩, back⟩
    · rintro ⟨m, ⟨first, ne, front⟩, back⟩
      exact ⟨first, ne, m, front, back⟩

theorem Linked.unique (first : Linked next p xs 0) (second : Linked next p ys 0) : xs = ys := by
  induction xs generalizing p ys with
  | nil =>
    cases ys with
    | nil => rfl
    | cons y ys => exact absurd (second.1.symm.trans first) second.2.1
  | cons x xs ih =>
    cases ys with
    | nil => exact absurd (first.1.symm.trans second) first.2.1
    | cons y ys =>
      obtain ⟨rfl, -, restX⟩ := first
      obtain ⟨rfl, -, restY⟩ := second
      rw [ih restX restY]

/-- The successor of a node is a node, or where the list ends. -/
theorem Linked.next_mem (linked : Linked next p xs q) (mem : x ∈ xs) :
    next x ∈ xs ∨ next x = q := by
  obtain ⟨front, back, rfl⟩ := append_of_mem mem
  obtain ⟨m, -, -, -, rest⟩ := linked_append.mp linked
  cases back with
  | nil => exact .inr rest
  | cons y back =>
    left
    rw [rest.1]
    simp

variable [DecidableEq α]

theorem Linked.frame {y : α} (linked : Linked next p xs q) (away : y ∉ xs) (r : α) :
    Linked (update next y r) p xs q := by
  induction xs generalizing p with
  | nil => exact linked
  | cons x xs ih =>
    obtain ⟨first, ne, rest⟩ := linked
    rw [mem_cons, not_or] at away
    refine ⟨first, ne, ?_⟩
    rw [update_of_ne (Ne.symm away.1)]
    exact ih rest away.2

variable {last : α}

theorem Linked.retarget (linked : Linked next p (xs ++ [last]) q) (nodup : (xs ++ [last]).Nodup)
    (r : α) : Linked (update next last r) p (xs ++ [last]) r := by
  obtain ⟨m, front, first, ne, -⟩ := linked_append.mp linked
  have away : last ∉ xs := by
    intro mem
    exact (nodup_append.mp nodup).2.2 last mem last (by simp) rfl
  refine linked_append.mpr ⟨m, front.frame away r, first, ne, ?_⟩
  simp [Linked]

theorem Linked.append {new : α} (linked : Linked next p (xs ++ [last]) 0)
    (nodup : (xs ++ [last]).Nodup) (ne : new ≠ 0) (away : new ∉ xs ++ [last])
    (ends : next new = 0) : Linked (update next last new) p (xs ++ [last] ++ [new]) 0 := by
  have other : new ≠ last := by
    rintro rfl
    exact away (by simp)
  refine linked_append.mpr ⟨new, linked.retarget nodup new, rfl, ne, ?_⟩
  rw [update_of_ne other]
  exact ends

variable {before : α}

theorem Linked.unlink (linked : Linked next p (front ++ [before] ++ x :: back) q)
    (nodup : (front ++ [before] ++ x :: back).Nodup) :
    Linked (update next before (next x)) p (front ++ [before] ++ back) q := by
  obtain ⟨m, head, -, -, tail⟩ := linked_append.mp linked
  obtain ⟨nodupFront, -, ne⟩ := nodup_append.mp nodup
  have away : before ∉ back := by
    intro mem
    exact ne before (by simp) before (mem_cons_of_mem _ mem) rfl
  exact linked_append.mpr ⟨next x, head.retarget nodupFront _, tail.frame away _⟩

/-! ## Walks -/

/-- Walk until `found` or to the end, with the node before the one reached. -/
def search (found : α → Bool) (next : α → α) : Nat → α → α → Option (α × α)
  | 0, _, _ => none
  | fuel + 1, prev, p =>
    if p = 0 ∨ found p then some (prev, p) else search found next fuel p (next p)

variable {found : α → Bool} {prev : α}

theorem search_found (linked : Linked next p (front ++ x :: back) q) (lt : front.length < fuel)
    (earlier : ∀ y ∈ front, found y = false) (here : found x = true) :
    search found next fuel prev p = some (front.getLastD prev, x) := by
  induction front generalizing p prev fuel with
  | nil =>
    obtain ⟨rfl, -, -⟩ := linked
    cases fuel with
    | zero => cases lt
    | succ fuel => simp [search, here]
  | cons y front ih =>
    obtain ⟨rfl, ne, rest⟩ := linked
    cases fuel with
    | zero => cases lt
    | succ fuel =>
      have missed := earlier p (by simp)
      rw [search, if_neg (by simp [ne, missed]),
        ih rest (by simpa using lt) (fun z mem => earlier z (by simp [mem]))]
      rw [getLastD_cons]

theorem search_missing (linked : Linked next p xs 0) (lt : xs.length < fuel)
    (nowhere : ∀ y ∈ xs, found y = false) :
    search found next fuel prev p = some (xs.getLastD prev, 0) := by
  induction xs generalizing p prev fuel with
  | nil =>
    cases fuel with
    | zero => cases lt
    | succ fuel =>
      rw [linked_nil] at linked
      rw [search, if_pos (.inl linked), linked]
      rfl
  | cons y xs ih =>
    obtain ⟨rfl, ne, rest⟩ := linked
    cases fuel with
    | zero => cases lt
    | succ fuel =>
      have missed := nowhere p (by simp)
      rw [search, if_neg (by simp [ne, missed]),
        ih rest (by simpa using lt) (fun z mem => nowhere z (by simp [mem]))]
      rw [getLastD_cons]

/-- A walk ends at the null pointer or at what it looks for. -/
theorem search_stops (walk : search found next fuel prev p = some (before, x)) :
    x = 0 ∨ found x := by
  induction fuel generalizing prev p with
  | zero => cases walk
  | succ fuel ih =>
    unfold search at walk
    split at walk
    case isTrue stop =>
        cases walk
        exact stop
    case isFalse => exact ih walk

/-- Walk to the last node. -/
def lastFrom (next : α → α) : Nat → α → Option α
  | 0, _ => none
  | fuel + 1, p => if next p = 0 then some p else lastFrom next fuel (next p)

theorem lastFrom_eq (linked : Linked next p (xs ++ [last]) 0) (lt : xs.length < fuel) :
    lastFrom next fuel p = some last := by
  induction xs generalizing p fuel with
  | nil =>
    obtain ⟨rfl, -, ends⟩ := linked
    cases fuel with
    | zero => cases lt
    | succ fuel =>
      rw [linked_nil] at ends
      rw [lastFrom, if_pos ends]
  | cons y xs ih =>
    obtain ⟨rfl, -, rest⟩ := linked
    cases fuel with
    | zero => cases lt
    | succ fuel =>
      have goesOn : next p ≠ 0 := by
        rw [rest.start_eq]
        exact rest.ne_zero (by cases xs <;> simp)
      rw [lastFrom, if_neg goesOn]
      exact ih rest (by simpa using lt)

/-- The number of nodes met. -/
def countFrom (next : α → α) : Nat → α → Option Nat
  | 0, _ => none
  | fuel + 1, p => if p = 0 then some 0 else (countFrom next fuel (next p)).map (· + 1)

theorem countFrom_eq (linked : Linked next p xs 0) (lt : xs.length < fuel) :
    countFrom next fuel p = some xs.length := by
  induction xs generalizing p fuel with
  | nil =>
    cases fuel with
    | zero => cases lt
    | succ fuel =>
      rw [linked_nil] at linked
      rw [countFrom, if_pos linked, length_nil]
  | cons y xs ih =>
    obtain ⟨rfl, ne, rest⟩ := linked
    cases fuel with
    | zero => cases lt
    | succ fuel =>
      rw [countFrom, if_neg ne, ih rest (by simpa using lt)]
      rfl

end Foundation
