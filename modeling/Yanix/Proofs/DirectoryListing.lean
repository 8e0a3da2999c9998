/-
Module: Yanix.Proofs.DirectoryListing
Purpose: Listing a directory with several calls of `getdents`, which consume the record that
  does not fit any more.
-/
import Yanix.Foundation.Cursor
import Yanix.Fs.FileIo

namespace Yanix.Fs

open Foundation List Option Function

variable {σ : Type*} {count : Int} {rest : List Dirent} {dir : Dir σ}

/-- The bytes of a record with `off` in its field `d_off`, which `getdents` fills in. -/
def Dirent.bytes (dirent : Dirent) (off : Nat) : List UInt8 :=
  contents (store32 dirent.mem dOffField off) dirent.reclen

/-- The bytes are those of the records, one after the other, whole and in order. -/
inductive Listing : List Dirent → List UInt8 → Prop where
  | nil : Listing [] []
  | cons (dirent : Dirent) (off : Nat) {rest : List Dirent} {out : List UInt8}
      (more : Listing rest out) : Listing (dirent :: rest) (dirent.bytes off ++ out)

/-- The length of all records together. -/
def total (records : List Dirent) : Nat := (records.map Dirent.reclen).sum

@[simp] theorem total_nil : total [] = 0 := rfl

@[simp] theorem total_cons (dirent : Dirent) (rest : List Dirent) :
    total (dirent :: rest) = dirent.reclen + total rest := sum_cons

theorem total_append (front back : List Dirent) :
    total (front ++ back) = total front + total back := by
  unfold total
  rw [map_append, sum_append]

theorem Dirent.reclen_lt (dirent : Dirent) : dirent.reclen < 65536 := by
  have low := (dirent.mem dReclenField).toNat_lt
  have high := (dirent.mem (dReclenField + 1)).toNat_lt
  unfold Dirent.reclen
  omega

theorem Dirent.reclen_ge (dirent : Dirent) : 11 ≤ dirent.reclen := dirent.named

variable {records : List Dirent} {n : Nat}

theorem total_take_pos (ne : n ≠ 0) (taken : n ≤ records.length) : 0 < total (records.take n) := by
  cases n with
  | zero => exact (ne rfl).elim
  | succ n =>
    cases records with
    | nil => cases taken
    | cons dirent rest =>
      have large := dirent.reclen_ge
      rw [take_succ_cons, total_cons]
      omega

variable {out : List UInt8}

theorem Listing.append {front back : List Dirent} {out' : List UInt8} (first : Listing front out)
    (second : Listing back out') : Listing (front ++ back) (out ++ out') := by
  induction first with
  | nil => exact second
  | cons dirent off more ih =>
    rw [cons_append, append_assoc]
    exact .cons dirent off ih

theorem Listing.length_eq (listing : Listing records out) : out.length = total records := by
  induction listing with
  | nil => rfl
  | cons dirent off more ih =>
    rw [length_append, total_cons, ih]
    exact congrArg (· + _) (length_contents ..)

/-- Records fill the buffer up to its end, or there are no more of them. -/
def FitsWhole (count : Int) (records : List Dirent) : Prop :=
  (total records : Int) ≤ count ∨ ∃ m, (total (records.take m) : Int) = count

variable {dirent : Dirent}

theorem FitsWhole.next (fits : FitsWhole count (dirent :: rest)) (room : 0 < count) :
    (dirent.reclen : Int) ≤ count ∧ FitsWhole (count - dirent.reclen) rest := by
  rcases fits with all | ⟨m, exactly⟩
  · rw [total_cons] at all
    exact ⟨by omega, .inl (by omega)⟩
  cases m with
  | zero =>
    rw [take_zero, total_nil] at exactly
    omega
  | succ m =>
    rw [take_succ_cons, total_cons] at exactly
    exact ⟨by omega, .inr ⟨m, by omega⟩⟩

variable {i : Int}

theorem wrapped_le (low : -2 ^ 31 ≤ i) (n : Nat) : toSigned (add32 (ofSigned i) n) ≤ i + n := by
  unfold toSigned add32 ofSigned
  split <;> omega

theorem wrapped_ge (i : Int) (n : Nat) : -2 ^ 31 ≤ toSigned (add32 (ofSigned i) n) := by
  unfold toSigned add32 ofSigned
  split <;> omega

theorem wrapped_eq (low : -2 ^ 31 ≤ i) (high : i + n < 2 ^ 31) :
    toSigned (add32 (ofSigned i) n) = i + n := by
  unfold toSigned add32 ofSigned
  split <;> omega

theorem wrapped_sub (low : -2 ^ 31 ≤ i) (high : i < 2 ^ 31) (lt : n < 65536) :
    toSigned (sub32 (ofSigned (toSigned (add32 (ofSigned i) n))) n) = i := by
  unfold toSigned sub32 add32 ofSigned
  split <;> omega

theorem getdentsLoop_full (full : count ≤ i) (fuel k : Nat) (buf : Bytes) (dir : Dir σ) :
    getdentsLoop count (fuel + 1) i k buf dir = some ⟨i, buf, some dir, none⟩ :=
  if_neg (by omega)

theorem getdentsLoop_end (finite : Yields vfsReaddir dir []) (count : Int) (fuel : Nat) (i : Int)
    (k : Nat) (buf : Bytes) :
    ∃ dir', Yields vfsReaddir dir' [] ∧
      getdentsLoop count (fuel + 1) i k buf dir = some ⟨i, buf, some dir', none⟩ := by
  have ret := finite.answer
  have after := finite.tail
  unfold getdentsLoop
  split
  · cases step : vfsReaddir dir with
    | mk entry dir' =>
      rw [step] at ret after
      cases ret
      exact ⟨dir', after, rfl⟩
  · exact ⟨dir, finite, rfl⟩

theorem getdentsLoop_next (finite : Yields vfsReaddir dir (dirent :: rest)) (more : i < count)
    (fuel k : Nat) (buf : Bytes) :
    ∃ dir', Yields vfsReaddir dir' rest ∧ getdentsLoop count (fuel + 1) i k buf dir =
        let sum := toSigned (add32 (ofSigned i) dirent.reclen)
        if sum ≤ count then
          getdentsLoop count fuel sum (k + dirent.reclen)
            (store32 (blit buf k dirent.mem 0 dirent.reclen) (k + dOffField) (ofSigned sum)) dir'
        else some ⟨toSigned (sub32 (ofSigned sum) dirent.reclen), buf, some dir', none⟩ := by
  have ret := finite.answer
  have after := finite.tail
  simp only [getdentsLoop, if_pos more]
  cases step : vfsReaddir dir with
  | mk entry dir' =>
    rw [step] at ret after
    cases ret
    exact ⟨dir', after, rfl⟩

/-- The first `t` records have been taken from the stream; the others are still there. -/
structure Takes (rest : List Dirent) (t : Nat) (stream : Option (Dir σ)) : Prop where
  within : t ≤ rest.length
  left : ∃ dir, stream = some dir ∧ Yields vfsReaddir dir (rest.drop t)

theorem Takes.none (finite : Yields vfsReaddir dir rest) : Takes rest 0 (some dir) :=
  ⟨Nat.zero_le _, dir, rfl, finite⟩

variable {t : Nat}

theorem Takes.succ {stream : Option (Dir σ)} (takes : Takes rest t stream) (dirent : Dirent) :
    Takes (dirent :: rest) (t + 1) stream :=
  ⟨Nat.succ_le_succ takes.within, takes.left⟩

variable {fuel : Nat}

/-- The loop returns, and its answer never exceeds what it took from the stream. If it is no less,
it stopped at the end of the stream or of the buffer. -/
theorem getdentsLoop_returns (finite : Yields vfsReaddir dir rest) (enough : rest.length < fuel)
    (small : count < 2 ^ 31) (low : -2 ^ 31 ≤ i) (room : i ≤ count) (k : Nat) (buf : Bytes) :
    ∃ r t, getdentsLoop count fuel i k buf dir = some r ∧ Takes rest t r.dirstream ∧
      r.ret ≤ i + total (rest.take t) ∧ r.ret ≤ count ∧ (t = 0 → r.ret = i) ∧
      (r.ret = i + total (rest.take t) → t = rest.length ∨ r.ret = count) := by
  induction rest generalizing fuel i k buf dir with
  | nil =>
    cases fuel with
    | zero => cases enough
    | succ fuel =>
      obtain ⟨dir', after, ret⟩ := getdentsLoop_end finite count fuel i k buf
      exact ⟨_, 0, ret, Takes.none after, by simp, room, fun _ => rfl, fun _ => .inl rfl⟩
  | cons dirent rest ih =>
    have large := dirent.reclen_ge
    cases fuel with
    | zero => cases enough
    | succ fuel =>
      by_cases full : count ≤ i
      · exact ⟨_, 0, getdentsLoop_full full fuel k buf dir, Takes.none finite, by simp, room,
          fun _ => rfl, fun _ => .inr (le_antisymm room full)⟩
      obtain ⟨dir', after, round⟩ := getdentsLoop_next finite (not_le.mp full) fuel k buf
      have lt := wrapped_le low dirent.reclen
      rw [round]
      simp only
      split
      · next fits =>
          -- the record is copied
          obtain ⟨r, t, ret, takes, le, within, -, stopped⟩ :=
            ih after (Nat.lt_of_succ_lt_succ enough) (wrapped_ge i dirent.reclen) fits
              (k + dirent.reclen) (store32 (blit buf k dirent.mem 0 dirent.reclen)
                (k + dOffField) (ofSigned (toSigned (add32 (ofSigned i) dirent.reclen))))
          refine ⟨r, t + 1, ret, takes.succ dirent, ?_, within, ?_, ?_⟩
          · rw [take_succ_cons, total_cons]
            omega
          · intro zero
            cases zero
          · intro whole
            rw [take_succ_cons, total_cons] at whole
            exact (stopped (by omega)).imp (congrArg (· + 1)) id
      · -- the record is lost
        rw [wrapped_sub low (by omega) dirent.reclen_lt]
        refine ⟨_, 1, rfl, (Takes.none after).succ dirent, ?_, room, ?_, ?_⟩
        · exact Int.le_add_of_nonneg_right (Int.natCast_nonneg _)
        · intro zero
          cases zero
        intro whole
        rw [take_succ_cons, total_cons] at whole
        simp only at whole
        omega

theorem getdentsLoop_whole (finite : Yields vfsReaddir dir rest) (lt : rest.length < fuel)
    (small : count < 2 ^ 31) {k : Nat} (room : (k : Int) ≤ count)
    (fits : FitsWhole (count - k) rest) (buf : Bytes) :
    ∃ r t out, getdentsLoop count fuel k k buf dir = some r ∧ Takes rest t r.dirstream ∧
      r.ret = (k + total (rest.take t) : Nat) ∧ (t = rest.length ∨ r.ret = count) ∧
      Listing (rest.take t) out ∧
      contents r.buf (k + total (rest.take t)) = contents buf k ++ out := by
  induction rest generalizing fuel k buf dir with
  | nil =>
    cases fuel with
    | zero => cases lt
    | succ fuel =>
      obtain ⟨dir', after, result⟩ := getdentsLoop_end finite count fuel k k buf
      exact ⟨_, 0, [], result, Takes.none after, rfl, .inl rfl, .nil, (append_nil _).symm⟩
  | cons dirent rest ih =>
    have large := dirent.reclen_ge
    cases fuel with
    | zero => cases lt
    | succ fuel =>
      by_cases full : count ≤ k
      · exact ⟨_, 0, [], getdentsLoop_full full fuel k buf dir, Takes.none finite, rfl,
          .inr (le_antisymm room full), .nil, (append_nil _).symm⟩
      obtain ⟨fitsOne, fitsRest⟩ := fits.next (by omega)
      have sum : toSigned (add32 (ofSigned k) dirent.reclen) = (k + dirent.reclen : Nat) := by
        rw [wrapped_eq (by omega) (by omega), Int.natCast_add]
      obtain ⟨dir', after, round⟩ := getdentsLoop_next finite (not_le.mp full) fuel k buf
      have within : ((k + dirent.reclen : Nat) : Int) ≤ count := by omega
      rw [show count - k - dirent.reclen = count - (k + dirent.reclen : Nat) by omega] at fitsRest
      obtain ⟨r, t, out, result, takes, ret, stopped, listing, bytes⟩ :=
        ih after (Nat.lt_of_succ_lt_succ lt) within fitsRest
          (store32 (blit buf k dirent.mem 0 dirent.reclen) (k + dOffField)
            (ofSigned (k + dirent.reclen : Nat)))
      refine ⟨r, t + 1, dirent.bytes (ofSigned (k + dirent.reclen : Nat)) ++ out, ?_,
        takes.succ dirent, ?_, stopped.imp (congrArg (· + 1)) id,
        .cons dirent _ listing, ?_⟩
      · simp only [round, sum, if_pos within, result]
      · rw [ret, take_succ_cons, total_cons, add_assoc]
      rw [take_succ_cons, total_cons, ← add_assoc, bytes,
        store32_blit _ _ _ _ (by unfold dOffField; omega),
        contents_blit_end, append_assoc]
      rfl

theorem eq_nil_of_total_eq_zero (roomy : ∀ dirent ∈ rest, (dirent.reclen : Int) ≤ count)
    (zero : total (rest.take t) = 0) (stopped : t = rest.length ∨ (0 : Int) = count) :
    rest = [] := by
  cases rest with
  | nil => rfl
  | cons dirent rest =>
    have large := dirent.reclen_ge
    have fitsFirst := roomy dirent (mem_cons_self ..)
    cases t with
    | zero =>
      rcases stopped with finished | full
      · cases finished
      · omega
    | succ t =>
      rw [take_succ_cons, total_cons] at zero
      omega

/-! ## A listing -/

/-- One call of a listing: the stream before it, and what the caller sees. -/
structure DentsCall (σ : Type*) where
  before : Dir σ
  count : Int
  ret : Int
  bytes : List UInt8

/-- Calls of `getdents` on one descriptor, each with its own `count` and buffer. -/
def listing (fuel : Nat) : List (Int × Bytes) → Dir σ → Option (List (DentsCall σ))
  | [], _ => some []
  | (count, buf) :: requests, dir => do
    let r ← getdents (some (some dir)) buf count fuel
    let dir' ← r.dirstream
    let calls ← listing fuel requests dir'
    return ⟨dir, count, r.ret, contents r.buf r.ret.toNat⟩ :: calls

/-- The call found records that fit. -/
def DentsCall.Whole (call : DentsCall σ) : Prop :=
  ∀ rest, Yields vfsReaddir call.before rest → FitsWhole call.count rest

variable {call : DentsCall σ}

theorem DentsCall.whole_iff (finite : Yields vfsReaddir call.before rest) :
    call.Whole ↔ FitsWhole call.count rest := by
  constructor
  · intro found
    exact found rest finite
  · intro fits rest' yields'
    rwa [← finite.unique yields']

/-- The last call returned zero. -/
def Ended (calls : List (DentsCall σ)) : Prop := ∃ last, calls.getLast? = some last ∧ last.ret = 0

theorem ended_cons {calls : List (DentsCall σ)} (ended : Ended (call :: calls)) :
    calls = [] ∧ call.ret = 0 ∨ Ended calls := by
  obtain ⟨last, isLast, ret⟩ := ended
  cases calls with
  | nil =>
    cases isLast
    exact .inl ⟨rfl, ret⟩
  | cons next others =>
    rw [getLast?_cons_cons] at isLast
    exact .inr ⟨last, isLast, ret⟩

/-- The buffer of a request is not too small for any record. -/
def Roomy (records : List Dirent) (request : Int × Bytes) : Prop :=
  0 ≤ request.1 ∧ request.1 < 2 ^ 31 ∧ ∀ dirent ∈ records, (dirent.reclen : Int) ≤ request.1

theorem Roomy.drop {request : Int × Bytes} (roomy : Roomy records request) (n : Nat) :
    Roomy (records.drop n) request :=
  ⟨roomy.1, roomy.2.1, fun dirent mem => roomy.2.2 dirent (mem_of_mem_drop mem)⟩

theorem listing_returns (finite : Yields vfsReaddir dir rest) (lt : rest.length < fuel)
    {requests : List (Int × Bytes)} (roomy : ∀ request ∈ requests, Roomy rest request) :
    ∃ calls t, listing fuel requests dir = some calls ∧ t ≤ rest.length ∧
      (calls.flatMap DentsCall.bytes).length ≤ total (rest.take t) ∧
      ((calls.flatMap DentsCall.bytes).length = total (rest.take t) → ∀ call ∈ calls, call.Whole) ∧
      ((∀ call ∈ calls, call.Whole) → Listing (rest.take t) (calls.flatMap DentsCall.bytes) ∧
          (Ended calls → t = rest.length)) := by
  induction requests generalizing dir rest with
  | nil =>
    refine ⟨[], 0, rfl, Nat.zero_le _, le_rfl, ?_, ?_⟩
    · intro _ call mem
      cases mem
    intro _
    refine ⟨.nil, ?_⟩
    rintro ⟨last, none, -⟩
    cases none
  | cons request requests ih =>
    obtain ⟨count, buf⟩ := request
    obtain ⟨nonneg, small, roomyFirst⟩ := roomy _ (mem_cons_self ..)
    obtain ⟨r, t, result, ⟨taken, dir', stream, yields⟩, le, equal, whole⟩ : ∃ r t, getdents (some
        (some dir)) buf count fuel = some r ∧ Takes rest t r.dirstream ∧ r.ret.toNat ≤ total
        (rest.take t) ∧ (r.ret.toNat = total (rest.take t) → FitsWhole count rest) ∧ (FitsWhole
        count rest → Listing (rest.take t) (contents r.buf r.ret.toNat) ∧ (r.ret = 0 → rest =
        [])) := by
      by_cases fits : FitsWhole count rest
      · obtain ⟨r, t, out, result, takes, ret, stopped, listing, bytes⟩ :=
          getdentsLoop_whole finite lt small nonneg (by simpa using fits) buf
        rw [Nat.zero_add] at ret bytes
        have returned : r.ret.toNat = total (rest.take t) := by omega
        refine ⟨r, t, result, takes, Nat.le_of_eq returned, fun _ => fits, ?_⟩
        intro _
        constructor
        · rw [returned, bytes]
          exact listing
        · intro zero
          rw [zero] at stopped
          exact eq_nil_of_total_eq_zero roomyFirst (by omega) stopped
      · obtain ⟨r, t, result, takes, le, within, none, stopped⟩ :=
          getdentsLoop_returns finite lt small (by decide) nonneg 0 buf
        rw [Int.zero_add] at le stopped
        refine ⟨r, t, result, takes, by omega, ?_, fun yes => (fits yes).elim⟩
        intro returned
        have whole : r.ret = total (rest.take t) := by
          by_cases zero : t = 0
          · rw [none zero, zero, take_zero]
            rfl
          · have pos := total_take_pos zero takes.within
            omega
        rcases stopped whole with finished | full
        · rw [finished, take_length] at whole
          exact .inl (by omega)
        · exact .inr ⟨t, by omega⟩
    obtain ⟨calls, t', results, taken', le', equal', whole'⟩ :=
      ih yields (by rw [length_drop]; omega) (fun q mem => (roomy q (mem_cons_of_mem _ mem)).drop t)
    rw [length_drop] at taken'
    have first : (DentsCall.mk dir count r.ret (contents r.buf r.ret.toNat)).Whole ↔
        FitsWhole count rest := DentsCall.whole_iff finite
    have together : total (rest.take (t + t')) =
        total (rest.take t) + total ((rest.drop t).take t') := by
      rw [take_add, total_append]
    refine ⟨⟨dir, count, r.ret, contents r.buf r.ret.toNat⟩ :: calls, t + t', ?_, by omega, ?_,
      ?_, ?_⟩
    · simp [listing, result, stream, results]
    · rw [flatMap_cons, length_append, length_contents, together]
      exact add_le_add le le'
    · intro exactly
      rw [flatMap_cons, length_append, length_contents, together] at exactly
      exact forall_mem_cons.mpr ⟨first.mpr (equal (by omega)), equal' (by omega)⟩
    · intro all
      obtain ⟨firstWhole, othersWhole⟩ := forall_mem_cons.mp all
      obtain ⟨copied, zero⟩ := whole (first.mp firstWhole)
      obtain ⟨copied', finished⟩ := whole' othersWhole
      constructor
      · rw [flatMap_cons, take_add]
        exact copied.append copied'
      · intro ended
        have left : t' = (rest.drop t).length := by
          cases ended_cons ended with
          | inl last =>
            have empty := congrArg List.length (zero last.2)
            rw [length_nil] at empty
            rw [length_drop]
            omega
          | inr later => exact finished later
        rw [length_drop] at left
        omega

/-- A listing that goes on until a call returns zero is complete exactly if in every call the
records left fill the buffer to its end or all fit. -/
theorem getdents_listing_iff {entries : List Dirent} (finite : Yields vfsReaddir dir entries)
    {fuel : Nat} (enough : entries.length < fuel) (requests : List (Int × Bytes))
    (roomy : ∀ request ∈ requests, Roomy entries request) :
    ∃ calls, listing fuel requests dir = some calls ∧ (Ended calls →
        (Listing entries (calls.flatMap DentsCall.bytes) ↔ ∀ call ∈ calls, call.Whole)) := by
  obtain ⟨calls, t, ret, taken, le, equal, whole⟩ := listing_returns finite enough roomy
  refine ⟨calls, ret, fun ended => ?_⟩
  constructor
  · intro complete
    -- nothing can be missing, since no call returns more than it takes
    have len := complete.length_eq
    have part : total (entries.take t) ≤ total entries := by
      have split := total_append (entries.take t) (entries.drop t)
      rw [take_append_drop] at split
      omega
    exact equal (by omega)
  · intro all
    obtain ⟨taken, finished⟩ := whole all
    rwa [finished ended, take_length] at taken

def listDir (entries : List Dirent) : Dir (List Dirent) :=
  ⟨some fun entries => (entries.head?, entries.tail), entries⟩

theorem listDir_yields (entries : List Dirent) : Yields vfsReaddir (listDir entries) entries := by
  intro n
  induction n generalizing entries with
  | zero => exact head?_eq_getElem?
  | succ n ih =>
    rw [iterate_succ_apply, ← getElem?_tail]
    exact ih entries.tail

/-- A record with a name of one letter, as `ext2_read_dir` makes it. -/
def letterDirent (letter : UInt8) : Dirent :=
  ⟨fun x => if x = 8 then 14 else if x = 11 then letter else 0, (by decide : 11 ≤ 14)⟩

def letters : List Dirent := [letterDirent 97, letterDirent 98, letterDirent 99]

theorem letters_roomy_requests {count : Int} (large : 14 ≤ count) (lt : count < 2 ^ 31) (n : Nat)
    (buf : Bytes) : ∀ request ∈ List.replicate n (count, buf), Roomy letters request := by
  intro request mem
  rw [eq_of_mem_replicate mem]
  refine ⟨le_trans (by decide) large, lt, ?_⟩
  intro dirent mem
  have fourteen : dirent.reclen = 14 := by
    simp only [letters, mem_cons, not_mem_nil, or_false] at mem
    rcases mem with rfl | rfl | rfl <;> rfl
  rw [fourteen]
  exact large

theorem getdents_letters :
    ∃ calls, listing 4 (List.replicate 3 (28, fun _ => 0)) (listDir letters) = some calls ∧
      Listing letters (calls.flatMap DentsCall.bytes) := by
  obtain ⟨calls, ret, complete⟩ := getdents_listing_iff (listDir_yields letters)
    (show letters.length < 4 by decide) (List.replicate 3 (28, fun _ => 0))
    (letters_roomy_requests (by decide) (by decide) 3 _)
  refine ⟨calls, ret, ?_⟩
  obtain ⟨b1, b2, b3, run⟩ : ∃ b1 b2 b3,
      listing 4 (List.replicate 3 (28, fun _ => 0)) (listDir letters) =
        some [⟨listDir letters, 28, 28, b1⟩, ⟨listDir [letterDirent 99], 28, 14, b2⟩,
          ⟨listDir [], 28, 0, b3⟩] := ⟨_, _, _, rfl⟩
  obtain rfl := mem_unique run ret
  refine (complete ⟨_, rfl, rfl⟩).mpr ?_
  have whole {call : DentsCall (List Dirent)} {entries : List Dirent}
      (before : call.before = listDir entries) (fits : FitsWhole call.count entries) :
      call.Whole := by
    intro rest yields
    rw [before] at yields
    rwa [← (listDir_yields entries).unique yields]
  intro call mem
  simp only [mem_cons, not_mem_nil, or_false] at mem
  rcases mem with rfl | rfl | rfl
  · exact whole rfl (.inr ⟨2, rfl⟩)
  · exact whole rfl (.inl (by decide : (14 : Int) ≤ 28))
  · exact whole rfl (.inl (by decide : (0 : Int) ≤ 28))

/-- With room for one record and a half every second record is lost. -/
theorem getdents_loses : Yields vfsReaddir (listDir letters) letters ∧
      (∀ request ∈ List.replicate 3 ((20 : Int), fun _ => (0 : UInt8)), Roomy letters request) ∧
      (listing 4 (List.replicate 3 (20, fun _ => 0)) (listDir letters)).map
        (fun calls => calls.map DentsCall.ret) = some [14, 14, 0] ∧
      ∀ calls, listing 4 (List.replicate 3 (20, fun _ => 0)) (listDir letters) = some calls →
        ¬ Listing letters (calls.flatMap DentsCall.bytes) := by
  refine ⟨listDir_yields letters, letters_roomy_requests (by decide) (by decide) 3 _,
    by decide +kernel, ?_⟩
  intro calls ret complete
  have len : (listing 4 (List.replicate 3 (20, fun _ => 0)) (listDir letters)).map
      (fun calls => (calls.flatMap DentsCall.bytes).length) = some 28 := by decide +kernel
  rw [ret, map_some, complete.length_eq] at len
  cases len

end Yanix.Fs
