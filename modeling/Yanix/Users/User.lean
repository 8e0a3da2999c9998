/-
Module: Yanix.Users.User
Purpose: `evalpasswd` and `user_login` of `kernel/yanix/users/user.c`, and what they accept: the
  password is compared but for its last byte, and the empty password never.
Trusted boundary: hand-translated from C.  `vfs_read_fd` puts the file at the front of a buffer,
  which keeps what it held behind that.  A loop without end and an access through null are no value
-/
import Yanix.Libk.String

namespace Yanix.Users

open Foundation Libk

def loginLen : Nat := 128

def eacces : Int := 13

structure User where
  name : List UInt8
  gcos : List UInt8
  uid : Int
  gid : Int
  home : List UInt8
  shell : List UInt8
deriving DecidableEq

/-- What `g_current_user` points to, and `errno`. -/
structure LoginState where
  currentUser : User
  errno : Int
deriving DecidableEq

/-- `strlen(str) - 1`, a `size_t`. -/
def strlenPred (str : CString) : Nat :=
  if str.bytes.length = 0 then 2 ^ 32 - 1 else str.bytes.length - 1

/-- Zero if the password is taken for the right one. -/
def evalpasswd (given : CString) (correct : Bytes) : Int :=
  if correct given.bytes.length ≠ ':'.toUInt8 then 1
  else memcmp given.mem correct (strlenPred given)

/-- The test of one line for the user's name. -/
def namesUser (name : CString) (buf : Bytes) : Bool :=
  memcmp buf name.mem name.bytes.length == 0 && buf name.bytes.length == ':'.toUInt8

/-- `strchr(buf, ':') + 1` -/
def afterColon (buf : Bytes) : Option Bytes := do
  let colon ← (strchr buf ':'.toUInt8).join
  return suffix buf (colon + 1)

/-- `strdup_s(buf, strchr(buf, ':') - buf)` -/
def upToColon (buf : Bytes) : Option (List UInt8) := do
  let colon ← (strchr buf ':'.toUInt8).join
  return strdupS buf colon

/-- The fields of an accepted line. -/
def adoptEntry (name passwd : CString) (buf : Bytes) : Option User := do
  let len ← strlenMem buf
  -- Cutting off the newline.
  let buf := Function.update buf (len - 1) 0
  let buf := suffix buf (name.bytes.length + passwd.bytes.length + 2)
  let uid ← atoi buf
  let buf ← afterColon buf
  let gid ← atoi buf
  let buf ← afterColon buf
  let gcos ← upToColon buf
  let buf ← afterColon buf
  let home ← upToColon buf
  let buf ← afterColon buf
  let shell ← strdup buf
  return ⟨name.bytes, gcos, uid, gid, home, shell⟩

/-- A line of the user: the call ends here. -/
def loginEntry (name passwd : CString) (buf : Bytes) (st : LoginState) :
    Option (Int × LoginState) :=
  if evalpasswd passwd (suffix buf (name.bytes.length + 1)) ≠ 0 then
    some (-1, { st with errno := eacces })
  else do
    let user ← adoptEntry name passwd buf
    return (0, { st with currentUser := user })

/-- The loop over the lines; every line has a byte at least, so that more than `BUFSIZ` rounds
are not needed. -/
def loginLoop (filebuf : Bytes) (name passwd : CString) (fuel seek : Nat) (line : Bytes)
    (st : LoginState) : Option (Int × LoginState) :=
  match fuel with
  | 0 => none
  | fuel + 1 =>
    let (ret, line) := readline (suffix filebuf seek) (bufsiz - seek) line loginLen
    if ret = eof then some (-1, st)
    else if namesUser name line then loginEntry name passwd line st
    else loginLoop filebuf name passwd fuel (seek + ret.toNat) line st

/-- `file` is the content of `/etc/passwd`, if it can be opened; `filebuf` and `line` are the
two buffers as `kmalloc` gives them. -/
def userLogin (file : Option (List UInt8)) (filebuf line : Bytes) (name passwd : CString)
    (st : LoginState) : Option (Int × LoginState) :=
  match file with
  | none => some (-1, st)
  | some content =>
    let filebuf := blit filebuf 0 (fun i => content.getD i 0) 0 (min content.length bufsiz)
    loginLoop filebuf name passwd (bufsiz + 1) 0 line st

open List Option Function

/-- The byte between two fields. -/
abbrev colon : UInt8 := ':'.toUInt8

/-- The byte at the end of a line. -/
abbrev newline : UInt8 := '\n'.toUInt8

/-! ## What is compared -/

/-- A password is taken for the right one in front of `rest`: all of it but its last byte stands
there, with a colon one place behind; `beyond` is the byte behind the zero. -/
def Accepts (passwd rest : List UInt8) (beyond : UInt8) : Prop :=
  passwd ≠ [] ∧ passwd.dropLast <+: rest ∧ (rest ++ [0, beyond])[passwd.length]? = some colon

variable {m : Bytes} {bytes : List UInt8}

theorem prefix_iff_of_spells {front : List UInt8} (spells : Spells m bytes) (nonzero : 0 ∉ front) :
    front <+: bytes ↔ ∀ i (lt : i < front.length), m i = front[i] := by
  obtain ⟨all, last⟩ := spells_iff.mp spells
  constructor
  · intro isFront i lt
    have bound := isFront.length_le
    rw [all i (lt.trans_le bound)]
    exact (isFront.getElem lt).symm
  · intro same
    have short : front.length ≤ bytes.length := by
      by_contra longer
      have atEnd := same bytes.length (not_le.mp longer)
      rw [last] at atEnd
      exact nonzero (atEnd ▸ getElem_mem _)
    rw [prefix_iff_eq_take]
    apply ext_getElem
    · rw [length_take, min_eq_left short]
    · intro i lt _
      rw [getElem_take, ← same i lt, all]

theorem CString.mem_eq_getElem (str : CString) {i : Nat} (lt : i < str.bytes.length) :
    str.mem i = str.bytes[i] :=
  getD_eq_getElem str.bytes 0 lt

variable {buf : Bytes}

theorem namesUser_iff (name : CString) {line : List UInt8} (spells : Spells buf line) :
    namesUser name buf = true ↔ name.bytes ++ [colon] <+: line := by
  have nonzero : 0 ∉ name.bytes ++ [colon] := by
    rw [mem_append, mem_singleton, not_or]
    exact ⟨name.nonzero, by decide⟩
  rw [prefix_iff_of_spells spells nonzero]
  unfold namesUser
  rw [Bool.and_eq_true, beq_iff_eq, beq_iff_eq, memcmp_eq_zero_iff]
  constructor
  · rintro ⟨same, separator⟩ i lt
    by_cases inName : i < name.bytes.length
    · rw [same i inName, getElem_append_left inName, CString.mem_eq_getElem name inName]
    have last : i = name.bytes.length := by
      rw [length_append, length_singleton] at lt
      omega
    subst last
    rw [separator]
    simp [colon]
  · intro same
    refine ⟨fun i lt => ?_, ?_⟩
    · have place := same i (by rw [length_append]; omega)
      rw [place, getElem_append_left lt, CString.mem_eq_getElem name lt]
    have place := same name.bytes.length (by simp)
    rw [place]
    simp [colon]

variable {k : Nat}

theorem getElem?_of_spells (spells : Spells m bytes) (le : k ≤ bytes.length + 1) :
    (bytes ++ [0, m (bytes.length + 1)])[k]? = some (m k) := by
  obtain ⟨all, last⟩ := spells_iff.mp spells
  by_cases inBytes : k < bytes.length
  · rw [getElem?_append_left inBytes, getElem?_eq_getElem inBytes, all k inBytes]
  obtain rfl | rfl : k = bytes.length ∨ k = bytes.length + 1 := by omega
  · simp [last]
  · simp

variable {rest : List UInt8}

theorem evalpasswd_eq_zero_iff (given : CString) {correct : Bytes}
    (spells : Spells correct rest) :
    evalpasswd given correct = 0 ↔ Accepts given.bytes rest (correct (rest.length + 1)) := by
  unfold evalpasswd Accepts
  by_cases empty : given.bytes = []
  · -- The comparison goes on over the zero of the empty password.
    refine iff_of_false ?_ (fun accepts => accepts.1 empty)
    split
    · decide
    next separator =>
      have size : strlenPred given = 2 ^ 32 - 1 := if_pos (by rw [empty]; rfl)
      rw [size, memcmp_eq_zero_iff]
      intro same
      have first := same 0 (by decide)
      have atColon := not_not.mp separator
      rw [empty, length_nil, ← first] at atColon
      rw [CString.mem, empty] at atColon
      exact absurd atColon (by decide)
  · have pos : 0 < given.bytes.length := length_pos_iff.mpr empty
    have size : strlenPred given = given.bytes.dropLast.length := by
      rw [strlenPred, if_neg pos.ne', length_dropLast]
    have nonzero : 0 ∉ given.bytes.dropLast :=
      fun mem => given.nonzero (( dropLast_prefix _).subset mem)
    have compared : memcmp given.mem correct (strlenPred given) = 0 ↔
        given.bytes.dropLast <+: rest := by
      rw [memcmp_eq_zero_iff, prefix_iff_of_spells spells nonzero, size]
      refine forall_congr' fun i => forall_congr' fun lt => ?_
      have inBytes : i < given.bytes.length := by
        rw [length_dropLast] at lt
        omega
      rw [CString.mem_eq_getElem given inBytes, getElem_dropLast]
      exact eq_comm
    have separator (front : given.bytes.dropLast <+: rest) :
        (rest ++ [0, correct (rest.length + 1)])[given.bytes.length]? =
          some (correct given.bytes.length) := by
      apply getElem?_of_spells spells
      have bound := front.length_le
      rw [length_dropLast] at bound
      omega
    constructor
    · intro equal
      split at equal
      · cases equal
      next atColon =>
        have front := compared.mp equal
        exact ⟨empty, front, (separator front).trans (congrArg some (not_not.mp atColon))⟩
    · rintro ⟨-, front, atColon⟩
      rw [separator front] at atColon
      rw [if_neg (not_not.mpr (some.inj atColon))]
      exact compared.mpr front

variable {beyond : UInt8}

theorem Accepts.of_newline {passwd : List UInt8} {other : UInt8}
    (accepts : Accepts passwd rest beyond) (ended : newline ∈ rest) (free : newline ∉ passwd) :
    Accepts passwd rest other := by
  obtain ⟨ne, front, atColon⟩ := accepts
  have short : passwd.length ≤ rest.length := by
    by_contra longer
    have whole : passwd.dropLast = rest := by
      apply front.eq_of_length_le
      rw [length_dropLast]
      omega
    rw [← whole] at ended
    exact free (( dropLast_prefix _).subset ended)
  refine ⟨ne, front, ?_⟩
  have pad (x : UInt8) : (rest ++ [0, x])[passwd.length]? = (rest ++ [0])[passwd.length]? := by
    have assoc : rest ++ [0, x] = rest ++ [0] ++ [x] := by simp
    rw [assoc, getElem?_append_left]
    rw [length_append, length_singleton]
    omega
  rw [pad] at atColon ⊢
  exact atColon

/-! ## The line that decides -/

/-- The first line of the data that starts with the name and a colon. -/
inductive FirstNamed (name : List UInt8) : (data line : List UInt8) → Prop
  | here {data line : List UInt8} (first : firstLine (loginLen - 1) data = some line)
      (named : name ++ [colon] <+: line) : FirstNamed name data line
  | later {data line line' : List UInt8} (first : firstLine (loginLen - 1) data = some line)
      (other : ¬ name ++ [colon] <+: line)
      (next : FirstNamed name (data.drop line.length) line') : FirstNamed name data line'

variable {name : List UInt8}

theorem FirstNamed.named {data line : List UInt8} (found : FirstNamed name data line) :
    name ++ [colon] <+: line := by
  induction found with
  | here _ named => exact named
  | later _ _ _ named => exact named

/-- The bytes of the buffer from `seek` on. -/
def Remaining (filebuf : Bytes) (seek : Nat) (data : List UInt8) : Prop :=
  seek + data.length = bufsiz ∧ ∀ k (inside : k < data.length), filebuf (seek + k) = data[k]

variable {line' : Bytes}

section

variable {filebuf line : Bytes} {name passwd : CString} {seek fuel : Nat} {data : List UInt8}
  {st : LoginState}

theorem Remaining.drop (remaining : Remaining filebuf seek data) {n : Nat} (le : n ≤ data.length) :
    Remaining filebuf (seek + n) (data.drop n) := by
  obtain ⟨len, holds⟩ := remaining
  refine ⟨?_, ?_⟩
  · rw [length_drop]
    omega
  intro k lt
  rw [length_drop] at lt
  rw [getElem_drop, add_assoc]
  exact holds (n + k) (by omega)

theorem loginLoop_line (name passwd : CString) (fuel : Nat) (line : Bytes) (st : LoginState)
    (remaining : Remaining filebuf seek data) {text : List UInt8}
    (first : firstLine (loginLen - 1) data = some text) :
    ∃ line' : Bytes, Spells line' text ∧ (∀ x, text.length < x → line' x = line x) ∧
      loginLoop filebuf name passwd (fuel + 1) seek line st =
        if name.bytes ++ [colon] <+: text then loginEntry name passwd line' st
        else loginLoop filebuf name passwd fuel (seek + text.length) line' st := by
  obtain ⟨len, holds⟩ := remaining
  have read := (readlineLoop_firstLine (m := suffix filebuf seek) (loginLen - 1) 0 line
    (fun k lt => (congrArg (fun x => filebuf (seek + x)) (zero_add k)).trans
      (holds k lt))).2 text first
  have dataend : bufsiz - seek = 0 + data.length := by omega
  rw [zero_add text.length] at read
  have spells := spells_blit line text
  refine ⟨_, spells, ?_, ?_⟩
  · intro x behind
    rw [update_of_ne behind.ne']
    exact blit_apply_of_not_mem _ _ _ _ _ (by omega)
  have named := namesUser_iff name spells
  have notEof : ((text.length : Nat) : Int) ≠ eof := by
    unfold eof
    omega
  rw [loginLoop, readline, dataend, read]
  simp only [if_neg notEof, Int.toNat_natCast]
  by_cases isNamed : name.bytes ++ [colon] <+: text
  · rw [if_pos isNamed, if_pos (named.mpr isNamed)]
  · rw [if_neg isNamed, if_neg (mt named.mp isNamed)]

theorem Remaining.next (remaining : Remaining filebuf seek data) {text : List UInt8}
    (first : firstLine (loginLen - 1) data = some text) :
    Remaining filebuf (seek + text.length) (data.drop text.length) :=
  remaining.drop (firstLine_spec first).1.length_le

theorem untouched_of_short {text : List UInt8} (first : firstLine (loginLen - 1) data = some text)
    (kept : ∀ x, text.length < x → line' x = line x) : line' loginLen = line loginLen := by
  have short := (firstLine_spec first).2.1
  apply kept
  exact lt_of_le_of_lt short (by decide)

theorem length_drop_lt {text : List UInt8} (first : firstLine (loginLen - 1) data = some text)
    (enough : data.length < fuel + 1) : (data.drop text.length).length < fuel := by
  have ne := length_pos_iff.mpr ((firstLine_spec first).2.2.2 (by decide))
  have lt := (firstLine_spec first).1.length_le
  rw [length_drop]
  omega

theorem loginLoop_named (passwd : CString) (st : LoginState) {text : List UInt8}
    (found : FirstNamed name.bytes data text) (line : Bytes)
    (remaining : Remaining filebuf seek data) (lt : data.length < fuel) :
    ∃ line' : Bytes, Spells line' text ∧ line' loginLen = line loginLen ∧
      (text.length + 1 = loginLen ∨ newline ∈ text) ∧
      loginLoop filebuf name passwd fuel seek line st = loginEntry name passwd line' st := by
  induction found generalizing seek fuel line with
  | here first named =>
    obtain ⟨fuel, rfl⟩ := Nat.exists_eq_succ_of_ne_zero (Nat.ne_zero_of_lt lt)
    obtain ⟨line', spells, kept, round⟩ := loginLoop_line name passwd fuel line st remaining first
    obtain ⟨-, -, ended, -⟩ := firstLine_spec first
    rw [if_pos named] at round
    refine ⟨line', spells, untouched_of_short first kept, ended.imp_left fun full => ?_, round⟩
    rw [full]
    rfl
  | later first ne _ ih =>
    obtain ⟨fuel, rfl⟩ := Nat.exists_eq_succ_of_ne_zero (Nat.ne_zero_of_lt lt)
    obtain ⟨line1, -, kept, round⟩ := loginLoop_line name passwd fuel line st remaining first
    obtain ⟨line', spells, same, ended, decided⟩ :=
      ih line1 (remaining.next first) (length_drop_lt first lt)
    rw [if_neg ne] at round
    exact ⟨line', spells, same.trans (untouched_of_short first kept), ended, round.trans decided⟩

end

/-! ## Lines of the file -/

/-- A line of `/etc/passwd`.  A colon in the last field makes a line of more than seven. -/
structure Entry where
  user : List UInt8
  passwd : List UInt8
  uid : List UInt8
  gid : List UInt8
  gcos : List UInt8
  home : List UInt8
  shell : List UInt8
  separated : ∀ field ∈ [user, passwd, uid, gid, gcos, home], colon ∉ field
  printable : ∀ field ∈ [user, passwd, uid, gid, gcos, home, shell], newline ∉ field ∧ 0 ∉ field
  short : (user ++ joined colon [passwd, uid, gid, gcos, home, shell]).length < loginLen - 1

/-- The line without its newline. -/
def Entry.text (e : Entry) : List UInt8 :=
  e.user ++ joined colon [e.passwd, e.uid, e.gid, e.gcos, e.home, e.shell]

def Entry.line (e : Entry) : List UInt8 := e.text ++ [newline]

def fileOf (entries : List Entry) : List UInt8 := entries.flatMap Entry.line

variable {e : Entry}

theorem Entry.mem_text {b : UInt8} (ne : b ≠ colon) (mem : b ∈ e.text) :
    ∃ field ∈ [e.user, e.passwd, e.uid, e.gid, e.gcos, e.home, e.shell], b ∈ field := by
  simpa [Entry.text, ne] using mem

theorem Entry.firstLine (e : Entry) (more : List UInt8) :
    firstLine (loginLen - 1) (e.line ++ more) = some e.line := by
  have free : newline ∉ e.text := by
    intro mem
    obtain ⟨field, isField, inField⟩ := e.mem_text (by decide) mem
    exact (e.printable field isField).1 inField
  have line : e.line ++ more = e.text ++ newline :: more := by
    simp [Entry.line]
  rw [line]
  exact firstLine_append more free e.short

/-- A line behind its name. -/
def Entry.tail (e : Entry) : List UInt8 := e.passwd ++ colon :: (e.uid ++ colon ::
  (e.gid ++ joined colon [e.gcos, e.home, e.shell] ++ [newline]))

theorem Entry.line_eq (e : Entry) : e.line = e.user ++ colon :: e.tail := by
  simp [Entry.line, Entry.text, Entry.tail]

theorem Entry.user_free (e : Entry) : colon ∉ e.user := e.separated _ (by simp)

theorem Entry.named_iff (e : Entry) (free : colon ∉ name) :
    name ++ [colon] <+: e.line ↔ e.user = name := by
  rw [e.line_eq]
  exact append_sep_prefix_iff free e.user_free

theorem firstNamed_fileOf {entries : List Entry} (leftover : List UInt8) (free : colon ∉ name) :
    (∀ e, entries.find? (fun e => e.user = name) = some e →
      FirstNamed name (fileOf entries ++ leftover) e.line) ∧
    (entries.find? (fun e => e.user = name) = none →
      ∀ text, FirstNamed name (fileOf entries ++ leftover) text ↔
        FirstNamed name leftover text) := by
  induction entries with
  | nil => simp [fileOf]
  | cons e entries ih =>
    have shape : fileOf (e :: entries) ++ leftover = e.line ++ (fileOf entries ++ leftover) := by
      simp [fileOf]
    have first := e.firstLine (fileOf entries ++ leftover)
    have behind : (e.line ++ (fileOf entries ++ leftover)).drop e.line.length =
        fileOf entries ++ leftover := drop_left
    rw [shape]
    by_cases same : e.user = name
    · rw [find?_cons_of_pos (by simpa using same)]
      refine ⟨?_, nofun⟩
      rintro _ ⟨⟩
      exact .here first ((e.named_iff free).mpr same)
    have other : ¬ name ++ [colon] <+: e.line := mt (e.named_iff free).mp same
    rw [find?_cons_of_neg (by simpa using same)]
    refine ⟨fun e' found => ?_, fun nobody text => ?_⟩
    · apply FirstNamed.later first other
      rw [behind]
      exact ih.1 e' found
    rw [← ih.2 nobody text]
    constructor
    · rintro (⟨first', named⟩ | ⟨first', -, next⟩)
      · rw [first] at first'
        obtain rfl := some.inj first'
        exact absurd named other
      · rw [first] at first'
        obtain rfl := some.inj first'
        rwa [behind] at next
    · intro next
      apply FirstNamed.later first other
      rwa [behind]

variable {right third : List UInt8}

variable {field : List UInt8}

theorem afterColon_spells (spells : Spells buf (field ++ colon :: rest)) (nonzero : 0 ∉ field)
    (free : colon ∉ field) (lt : field.length < 2 ^ 32) :
    afterColon buf = some (suffix buf (field.length + 1)) ∧
      Spells (suffix buf (field.length + 1)) rest := by
  have found := strchr_spells spells nonzero free (by decide) lt
  constructor
  · rw [afterColon, found]
    rfl
  · have shape : field ++ colon :: rest = field ++ [colon] ++ rest := by simp
    rw [shape] at spells
    have later := spells.suffix
    rwa [length_append, length_singleton] at later

theorem upToColon_spells (spells : Spells buf (field ++ colon :: rest)) (nonzero : 0 ∉ field)
    (free : colon ∉ field) (lt : field.length < 2 ^ 32) : upToColon buf = some field := by
  rw [upToColon, strchr_spells spells nonzero free (by decide) lt]
  exact congrArg some spells.contents_front

theorem Entry.field_small (e : Entry)
    (isField : field ∈ [e.user, e.passwd, e.uid, e.gid, e.gcos, e.home, e.shell]) :
    field.length < 2 ^ 32 := by
  have short := e.short
  simp only [loginLen, joined_cons, joined_nil, length_append, length_cons, append_nil] at short
  simp only [mem_cons, not_mem_nil, or_false] at isField
  rcases isField with rfl | rfl | rfl | rfl | rfl | rfl | rfl <;> omega

theorem Entry.afterColon (e : Entry)
    (isField : field ∈ [e.user, e.passwd, e.uid, e.gid, e.gcos, e.home])
    (spells : Spells buf (field ++ colon :: rest)) :
    afterColon buf = some (suffix buf (field.length + 1)) ∧
      Spells (suffix buf (field.length + 1)) rest ∧ upToColon buf = some field ∧
      atoi buf = some (decimal (field.takeWhile isDigit)) := by
  have isField' : field ∈ [e.user, e.passwd, e.uid, e.gid, e.gcos, e.home, e.shell] :=
    mem_append_left [e.shell] isField
  have ne := (e.printable field isField').2
  have free := e.separated field isField
  have lt := e.field_small isField'
  obtain ⟨next, later⟩ := afterColon_spells spells ne free lt
  exact ⟨next, later, upToColon_spells spells ne free lt, atoi_spells spells (by decide) lt⟩

theorem adoptEntry_line {name passwd : CString} (spells : Spells buf e.line)
    (user : e.user.length = name.bytes.length) (fits : e.passwd.length = passwd.bytes.length) :
    adoptEntry name passwd buf = some ⟨name.bytes, e.gcos, decimal (e.uid.takeWhile isDigit),
      decimal (e.gid.takeWhile isDigit), e.home, e.shell⟩ := by
  have nonzero : 0 ∉ e.line := by
    intro mem
    rcases mem_append.mp mem with inText | last
    · obtain ⟨field, isField, inField⟩ := e.mem_text (by decide) inText
      exact (e.printable field isField).2 inField
    · exact absurd (mem_singleton.mp last) (by decide)
  have length : e.line.length = e.text.length + 1 := by simp [Entry.line]
  have short := e.short
  have len : strlenMem buf = some e.line.length := by
    apply strlenMem_spells spells nonzero
    rw [length]
    exact lt_trans (Nat.succ_lt_succ short) (by decide)
  have cut : Spells (Function.update buf (e.line.length - 1) 0) e.text := by
    rw [length, Nat.add_sub_cancel]
    exact spells.cut
  have third : e.text = (e.user ++ colon :: (e.passwd ++ [colon])) ++ (e.uid ++ colon ::
      (e.gid ++ colon :: (e.gcos ++ colon :: (e.home ++ colon :: e.shell)))) := by
    simp [Entry.text]
  rw [third] at cut
  have start : (e.user ++ colon :: (e.passwd ++ [colon])).length =
      name.bytes.length + passwd.bytes.length + 2 := by
    simp only [length_append, length_cons, length_nil]
    omega
  have atUid := cut.suffix
  rw [start] at atUid
  obtain ⟨afterUid, atGid, -, uid⟩ := e.afterColon (by simp) atUid
  obtain ⟨afterGid, atGcos, -, gid⟩ := e.afterColon (by simp) atGid
  obtain ⟨afterGcos, atHome, gcos, -⟩ := e.afterColon (by simp) atGcos
  obtain ⟨afterHome, atShell, home, -⟩ := e.afterColon (by simp) atHome
  have shell := strdup_spells atShell (e.printable e.shell (by simp)).2 (e.field_small (by simp))
  unfold adoptEntry
  simp only [len, bind_eq_bind, bind_some, uid, afterUid, gid, afterGid, gcos,
    afterGcos, home, afterHome, shell]
  rfl

/-! ## The call -/

/-- A login with this line adopts it or refuses it, according to the comparison. -/
def Decides (name passwd : CString) (line : Bytes) (st : LoginState) (accepts : Prop)
    (result : Option (Int × LoginState)) : Prop :=
  (accepts → result =
    (adoptEntry name passwd line).map fun user => (0, { st with currentUser := user })) ∧
  (¬ accepts → result = some (-1, { st with errno := eacces }))

theorem loginEntry_accepts {name passwd : CString} {line : Bytes} (st : LoginState)
    (freeName : newline ∉ name.bytes) (freePasswd : newline ∉ passwd.bytes)
    (spells : Spells line' (name.bytes ++ colon :: rest)) (kept : line' loginLen = line loginLen)
    (ended : (name.bytes ++ colon :: rest).length + 1 = loginLen ∨
      newline ∈ name.bytes ++ colon :: rest) :
    Decides name passwd line' st (Accepts passwd.bytes rest (line loginLen))
      (loginEntry name passwd line' st) := by
  have shape : name.bytes ++ colon :: rest = name.bytes ++ [colon] ++ rest := by simp
  have len : (name.bytes ++ colon :: rest).length = name.bytes.length + 1 + rest.length := by
    simp only [length_append, length_cons]
    omega
  have atRest : Spells (suffix line' (name.bytes.length + 1)) rest := by
    rw [shape] at spells
    have later := spells.suffix
    rwa [length_append, length_singleton] at later
  have compared := evalpasswd_eq_zero_iff passwd atRest
  -- The byte behind the zero counts only if the line fills the buffer.
  have same : Accepts passwd.bytes rest (suffix line' (name.bytes.length + 1) (rest.length + 1)) ↔
      Accepts passwd.bytes rest (line loginLen) := by
    rcases ended with full | withNewline
    · have place : suffix line' (name.bytes.length + 1) (rest.length + 1) = line' loginLen := by
        rw [← full, len]
        rfl
      rw [place, kept]
    have inRest : newline ∈ rest := by
      rcases mem_append.mp withNewline with inName | behind
      · exact absurd inName freeName
      · exact (mem_cons.mp behind).resolve_left (by decide)
    exact ⟨fun accepts => accepts.of_newline inRest freePasswd,
      fun accepts => accepts.of_newline inRest freePasswd⟩
  rw [same] at compared
  unfold loginEntry
  refine ⟨fun accepts => ?_, fun refuses => ?_⟩
  · rw [if_neg (not_not.mpr (compared.mpr accepts))]
    cases adoptEntry name passwd line' <;> rfl
  · rw [if_pos (mt compared.mp refuses)]

/-- What the file leaves of the buffer. -/
def leftover (filebuf : Bytes) (content : List UInt8) : List UInt8 :=
  contents (suffix filebuf content.length) (bufsiz - content.length)

section

variable {entries : List Entry} {name passwd : CString}

theorem remaining_fileOf (filebuf : Bytes) (le : (fileOf entries).length ≤ bufsiz) :
    Remaining (blit filebuf 0 (fun i => (fileOf entries).getD i 0) 0
        (min (fileOf entries).length bufsiz)) 0
      (fileOf entries ++ leftover filebuf (fileOf entries)) := by
  refine ⟨?_, ?_⟩
  · rw [length_append, leftover, length_contents]
    omega
  intro k lt
  rw [zero_add]
  by_cases inFile : k < (fileOf entries).length
  · rw [blit_apply_of_mem _ _ _ _ _ (Nat.zero_le k) (by omega), getElem_append_left inFile]
    simp [inFile]
  rw [blit_apply_of_not_mem _ _ _ _ _ (by omega), getElem_append_right (not_lt.mp inFile)]
  simp only [leftover, contents, getElem_map, getElem_range, suffix]
  congr 1
  omega

theorem enough_rounds {filebuf : Bytes} {seek : Nat} {data : List UInt8}
    (remaining : Remaining filebuf seek data) : data.length < bufsiz + 1 := by
  have len := remaining.1
  omega

theorem userLogin_named (filebuf line : Bytes) (st : LoginState)
    (le : (fileOf entries).length ≤ bufsiz) (freeName : newline ∉ name.bytes)
    (freePasswd : newline ∉ passwd.bytes)
    (found : FirstNamed name.bytes (fileOf entries ++ leftover filebuf (fileOf entries))
      (name.bytes ++ colon :: rest)) :
    ∃ line' : Bytes, Spells line' (name.bytes ++ colon :: rest) ∧
      Decides name passwd line' st (Accepts passwd.bytes rest (line loginLen))
        (userLogin (some (fileOf entries)) filebuf line name passwd st) := by
  have remaining := remaining_fileOf filebuf le
  obtain ⟨line', spells, kept, ended, decided⟩ :=
    loginLoop_named passwd st found line remaining (enough_rounds remaining)
  have decides := loginEntry_accepts st freeName freePasswd spells kept ended
  rw [← decided] at decides
  exact ⟨line', spells, decides⟩

theorem userLogin_line (filebuf line : Bytes) (st : LoginState)
    (le : (fileOf entries).length ≤ bufsiz) (freePasswd : newline ∉ passwd.bytes)
    (entry : entries.find? (fun e => e.user = name.bytes) = some e) :
    ∃ line' : Bytes, Spells line' e.line ∧
      Decides name passwd line' st (Accepts passwd.bytes e.tail (line loginLen))
        (userLogin (some (fileOf entries)) filebuf line name passwd st) := by
  have user : e.user = name.bytes := by simpa using find?_some entry
  have free := e.user_free
  rw [user] at free
  have found := (firstNamed_fileOf (leftover filebuf (fileOf entries)) free).1 e entry
  have shape := e.line_eq
  rw [user] at shape
  rw [shape] at found ⊢
  exact userLogin_named filebuf line st le (user ▸ (e.printable e.user (by simp)).1) freePasswd
    found

/-- The number that a row of digits stands for. -/
def valueOf (digits : List UInt8) : Nat := digits.foldl (fun num c => num * 10 + (c.toNat - 48)) 0

/-- A field that is a number below 2^31. -/
def Numeric (field : List UInt8) : Prop :=
  field ≠ [] ∧ (∀ c ∈ field, isDigit c = true) ∧ valueOf field < 2 ^ 31

theorem le_valueFrom (digits : List UInt8) (num : Nat) :
    num ≤ digits.foldl (fun num c => num * 10 + (c.toNat - 48)) num := by
  induction digits generalizing num with
  | nil => exact le_refl num
  | cons c digits ih =>
    have step := ih (num * 10 + (c.toNat - 48))
    rw [foldl_cons]
    omega

theorem foldl_wrap {digits : List UInt8} {num : Nat}
    (small : digits.foldl (fun num c => num * 10 + (c.toNat - 48)) num < 2 ^ 31) :
    digits.foldl (fun num c => add32 (mul32 num 10) (c.toNat - 48)) num =
      digits.foldl (fun num c => num * 10 + (c.toNat - 48)) num := by
  induction digits generalizing num with
  | nil => rfl
  | cons c digits ih =>
    have le := le_valueFrom digits (num * 10 + (c.toNat - 48))
    rw [foldl_cons] at small ⊢
    have product : mul32 num 10 = num * 10 := mul32_of_lt (by omega)
    rw [product, add32_of_lt (by omega)]
    exact ih small

theorem Numeric.decimal_eq {field : List UInt8} (numeric : Numeric field) :
    decimal (field.takeWhile isDigit) = valueOf field := by
  obtain ⟨-, digits, lt⟩ := numeric
  rw [takeWhile_eq_self_iff.mpr digits, decimal, foldl_wrap lt]
  exact toSigned_of_lt lt

/-- Whoever logs in with the password of the first line of the name becomes the user of exactly
that line. -/
theorem login_record {e : Entry} {st st' : LoginState} (filebuf line : Bytes)
    (within : (fileOf entries).length ≤ bufsiz)
    (entry : entries.find? (fun e => e.user = name.bytes) = some e) (uid : Numeric e.uid)
    (gid : Numeric e.gid) (right : e.passwd = passwd.bytes)
    (success : userLogin (some (fileOf entries)) filebuf line name passwd st = some (0, st')) :
    st'.currentUser = ⟨e.user, e.gcos, valueOf e.uid, valueOf e.gid, e.home, e.shell⟩ := by
  have user : e.user = name.bytes := by simpa using find?_some entry
  have freePasswd := (e.printable e.passwd (by simp)).1
  rw [right] at freePasswd
  obtain ⟨line', spells, accepted, refused⟩ :=
    userLogin_line filebuf line st within freePasswd entry
  by_cases accepts : Accepts passwd.bytes e.tail (line loginLen)
  · rw [accepted accepts,
      adoptEntry_line spells (congrArg List.length user) (congrArg List.length right)] at success
    cases success
    rw [user, uid.decimal_eq, gid.decimal_eq]
  · rw [refused accepts] at success
    cases success

end

/-- `root:toor:0:0:r:/:sh` -/
def rootEntry : Entry where
  user := [114, 111, 111, 116]
  passwd := [116, 111, 111, 114]
  uid := [48]
  gid := [48]
  gcos := [114]
  home := [47]
  shell := [115, 104]
  separated := by decide
  printable := by decide
  short := by decide

def rootName : CString := ⟨[114, 111, 111, 116], by decide⟩

def nobodyYet : LoginState := ⟨⟨[], [], 0, 0, [], []⟩, 0⟩

theorem login_record_root :
    ∃ st, userLogin (some (fileOf [rootEntry])) (fun _ => 0) (fun _ => 0) rootName
      ⟨[116, 111, 111, 114], by decide⟩ nobodyYet = some (0, st) ∧
      st.currentUser = ⟨rootEntry.user, [114], 0, 0, [47], [115, 104]⟩ := by
  obtain ⟨st, success⟩ : ∃ st, userLogin (some (fileOf [rootEntry])) (fun _ => 0) (fun _ => 0)
      rootName ⟨[116, 111, 111, 114], by decide⟩ nobodyYet = some (0, st) := ⟨_, rfl⟩
  have numeric : Numeric [48] := ⟨by decide, forall_mem_singleton.mpr (by decide), by decide⟩
  exact ⟨st, success, login_record _ _ (by decide) (e := rootEntry) rfl numeric numeric rfl success⟩

end Yanix.Users
