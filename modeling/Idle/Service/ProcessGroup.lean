import Idle.Library.Lines
import Idle.Library.Machine

/-!
# Streamed output

A `Stream` reads the output of a child line by line and writes the lines to a sink. What the child
writes waits in the pipe, and comes from there in pieces into the buffer of `async_read_until`; the
exit of the child closes the reading end.
-/

namespace Idle

abbrev Byte := UInt8

/-- `delimiter` -/
def delimiter : Byte := 10

def delimiterLength : Nat := 1

/-- The errors that end the reading. -/
inductive ReadError where
  | eof
  | operationAborted
  deriving DecidableEq

/-- Where `async_read_line` stands: its operation is pending, or has completed and the handler is on
its way, or the next call is posted. -/
inductive Reader where
  | reading
  | completed (length : Nat)
  | failed (ec : ReadError)
  | posted
  | ended
  deriving DecidableEq

/-- A `Stream`, the pipe from its child, and what it was given and what it gave. -/
structure Stream where
  buffer : List Byte
  isOpen : Bool
  reader : Reader
  sink : List (List Byte)
  pipe : List Byte
  isEof : Bool
  exited : Bool
  written : List Byte

/-- A bound of the steps of the reading without a further byte. -/
def Reader.rank : Reader → Nat
  | .posted => 4
  | .reading | .completed _ => 3
  | .failed _ => 1
  | .ended => 0

/-- What the child does, how the reading goes on, and the notification that the child exited. -/
inductive StreamStep where
  | write (bytes : List Byte)
  | closeWrite
  | read (n : Nat)
  | readEof
  | handle
  | asyncReadLine
  | onExit
  deriving DecidableEq

/-- Not a step of the child that adds something to read. -/
def StreamStep.goesOn : StreamStep → Bool
  | .write _ => false
  | _ => true

namespace Stream

/-- The pipe is open, and `onSpawned` has called `async_read_line`. -/
def initial : Stream where
  buffer := []
  isOpen := true
  reader := .reading
  sink := []
  pipe := []
  isEof := false
  exited := false
  written := []

/-- `async_read_until` completes with the number of bytes up to the delimiter and with it. -/
def readUntil (buffer : List Byte) : Reader :=
  match buffer.findIdx? (· = delimiter) with
  | some n => .completed (n + delimiterLength)
  | none => .reading

/-- The handler of `async_read_line`. -/
def handle (s : Stream) : Stream :=
  match s.reader with
  | .completed length =>
    { s with
      sink :=
        if delimiterLength < length then s.sink ++ [s.buffer.take (length - delimiterLength)]
        else s.sink
      buffer := s.buffer.drop length
      reader := .posted }
  | .failed _ => { s with reader := .ended }
  | _ => s

/-- What the handler posts: the next call, if the pipe is still open. -/
def asyncReadLine (s : Stream) : Stream :=
  if s.isOpen then { s with reader := readUntil s.buffer } else { s with reader := .ended }

/-- `onCleanup` closes the pipe, which cancels a pending operation. -/
def onCleanup (s : Stream) : Stream :=
  { s with
    isOpen := false
    reader := if s.reader = .reading then .failed .operationAborted else s.reader }

def step (s : Stream) : StreamStep → Stream
  | .write bytes => { s with pipe := s.pipe ++ bytes, written := s.written ++ bytes }
  | .closeWrite => { s with isEof := true }
  | .read n =>
    { s with
      buffer := s.buffer ++ s.pipe.take n
      pipe := s.pipe.drop n
      reader := readUntil (s.buffer ++ s.pipe.take n) }
  | .readEof => { s with reader := .failed .eof }
  | .handle => s.handle
  | .asyncReadLine => s.asyncReadLine
  | .onExit => { s.onCleanup with exited := true }

def Pre (s : Stream) : StreamStep → Prop
  | .write _ => s.isEof = false
  | .closeWrite => s.isEof = false
  | .read n => s.reader = .reading ∧ 0 < n ∧ n ≤ s.pipe.length
  | .readEof => s.reader = .reading ∧ s.pipe = [] ∧ s.isEof = true
  | .handle => (∃ length, s.reader = .completed length) ∨ ∃ ec, s.reader = .failed ec
  | .asyncReadLine => s.reader = .posted
  | .onExit => s.exited = false

/-- The child has closed the pipe, and the reading has come to its end. -/
def Rests (s : Stream) : Prop := s.isEof = true ∧ ∀ a, s.Pre a → a = .onExit

/-- What is not going to be given to the handler that is on its way, if there is one. -/
def remaining (s : Stream) : List Byte :=
  match s.reader with
  | .completed length => s.buffer.drop length ++ s.pipe
  | _ => s.buffer ++ s.pipe

/-- The reading goes on. -/
def Reads (s : Stream) : Prop := s.isOpen = true ∧ s.reader ≠ .ended ∧ ∀ ec, s.reader ≠ .failed ec

/-- Bytes without a line that is not empty. -/
def Blank (bytes : List Byte) : Prop := ∀ c ∈ bytes, c = delimiter

/-- Nothing but empty lines is lost: an output ends with a delimiter, when the child exits there is
nothing more to read, and then nothing more is written. -/
def Drained (s : Stream) : StreamStep → Prop
  | .write bytes => s.Reads ∨ Blank bytes
  | .readEof => Blank s.buffer
  | .onExit => s.Reads → Blank s.remaining
  | _ => True

end Stream

/-- The interleavings of a child, its pipe and the event loop. -/
def streams : Machine Stream StreamStep where
  init s := s = .initial
  pre := Stream.Pre
  step := Stream.step

namespace Stream

variable {s : Stream} {a : StreamStep}

/-! ### What the handlers write -/

/-- Every byte that was written is consumed, in the buffer or in the pipe, and the sink has the
lines of those that are consumed. -/
structure Carries (s : Stream) : Prop where
  sink_eq : ∃ consumed, Lines.Terminated delimiter consumed ∧
    s.written = consumed ++ (s.buffer ++ s.pipe) ∧ s.sink = Lines.nonEmpty delimiter consumed
  completed : ∀ length, s.reader = .completed length → readUntil s.buffer = .completed length
  open_of_reading : s.reader = .reading → s.isOpen = true ∧ readUntil s.buffer = .reading

lemma readUntil_eq_completed {buffer : List Byte} {length : Nat}
    (h : readUntil buffer = .completed length) :
    ∃ line rest, delimiter ∉ line ∧ buffer = line ++ delimiter :: rest ∧
      length = line.length + delimiterLength := by
  unfold readUntil at h
  cases hfind : buffer.findIdx? (· = delimiter) with
  | none => simp [hfind] at h
  | some n =>
    obtain ⟨hn, hget, hbefore⟩ := List.findIdx?_eq_some_iff_getElem.1 hfind
    simp only [hfind, Reader.completed.injEq] at h
    have hbyte : buffer[n] = delimiter := by simpa using hget
    refine ⟨buffer.take n, buffer.drop (n + 1), fun hmem => ?_, ?_, ?_⟩
    · obtain ⟨j, hj, hd⟩ := List.mem_take_iff_getElem.1 hmem
      have hjn : j < n := (Nat.lt_min.1 hj).1
      exact absurd hd (by simpa using hbefore j hjn)
    · rw [← hbyte, ← List.drop_eq_getElem_cons hn, List.take_append_drop]
    · rw [List.length_take, Nat.min_eq_left hn.le, h]

/-- A buffer either has a line to complete with, or none. -/
lemma readUntil_cases (buffer : List Byte) :
    readUntil buffer = .reading ∨ ∃ length, readUntil buffer = .completed length := by
  unfold readUntil
  cases buffer.findIdx? (· = delimiter) with
  | none => exact .inl rfl
  | some n => exact .inr ⟨_, rfl⟩

lemma Carries.initial : Stream.initial.Carries where
  sink_eq := ⟨[], .inl rfl, rfl, by simp [Stream.initial]⟩
  completed := nofun
  open_of_reading _ := ⟨rfl, rfl⟩

/-- The handler writes the line that the operation completed with, unless it is empty. -/
lemma Carries.handle (h : s.Carries) : s.handle.Carries := by
  unfold Stream.handle
  cases hr : s.reader with
  | completed length =>
    obtain ⟨consumed, hterminated, hwritten, hsink⟩ := h.sink_eq
    obtain ⟨line, rest, hline, hbuffer, rfl⟩ := readUntil_eq_completed (h.completed length hr)
    have htake : s.buffer.take line.length = line := by rw [hbuffer, List.take_left]
    have hdrop : s.buffer.drop (line.length + delimiterLength) = rest := by
      rw [hbuffer, delimiterLength, ← List.drop_drop, List.drop_left]
      rfl
    refine ⟨⟨consumed ++ (line ++ [delimiter]), .append_line _ _, ?_, ?_⟩, nofun, nofun⟩
    · simp only [hdrop]
      rw [hwritten, hbuffer]
      simp
    · rw [hterminated.nonEmpty_append, Lines.nonEmpty_append_cons, Lines.nonEmpty_nil,
        List.append_nil, Lines.nonEmpty_of_not_mem hline, ← hsink]
      simp only [delimiterLength, Nat.add_sub_cancel, htake]
      cases line with
      | nil => simp
      | cons c line => simp
  | failed ec => exact ⟨h.sink_eq, nofun, nofun⟩
  | _ => exact h

lemma Carries.step (h : s.Carries) (hpre : s.Pre a) : (s.step a).Carries := by
  obtain ⟨consumed, hterminated, hwritten, hsink⟩ := h.sink_eq
  cases a with
  | write bytes =>
    refine ⟨⟨consumed, hterminated, ?_, hsink⟩, h.completed, h.open_of_reading⟩
    simp only [Stream.step, hwritten, List.append_assoc]
  | closeWrite => exact ⟨h.sink_eq, h.completed, h.open_of_reading⟩
  | read n =>
    refine ⟨⟨consumed, hterminated, ?_, hsink⟩, fun _ hr => hr, fun hr => ⟨?_, hr⟩⟩
    · simp only [Stream.step, hwritten, List.append_assoc, List.take_append_drop]
    · exact (h.open_of_reading hpre.1).1
  | readEof => exact ⟨h.sink_eq, nofun, nofun⟩
  | handle => exact h.handle
  | asyncReadLine =>
    simp only [Stream.step, Stream.asyncReadLine]
    split
    · exact ⟨h.sink_eq, fun _ hr => hr, fun hr => ⟨‹_›, hr⟩⟩
    · exact ⟨h.sink_eq, nofun, nofun⟩
  | onExit =>
    refine ⟨h.sink_eq, fun length hr => ?_, fun hr => ?_⟩
    · simp only [Stream.step, onCleanup] at hr ⊢
      split at hr
      · cases hr
      · exact h.completed length hr
    · simp only [Stream.step, onCleanup] at hr
      split at hr
      · cases hr
      · exact absurd hr ‹_›

/-! ### What is lost -/

/-- Nothing is lost for good. -/
def Fine (s : Stream) : Prop := s.Reads ∨ Blank s.remaining

lemma blank_append {l r : List Byte} : Blank (l ++ r) ↔ Blank l ∧ Blank r :=
  List.forall_mem_append

lemma reads_of_readUntil {buffer : List Byte} (hopen : s.isOpen = true)
    (hr : s.reader = readUntil buffer) : s.Reads := by
  rcases readUntil_cases buffer with h | ⟨length, h⟩
  · rw [h] at hr
    exact ⟨hopen, by simp [hr], by simp [hr]⟩
  · rw [h] at hr
    exact ⟨hopen, by simp [hr], by simp [hr]⟩

/-- A step loses something, or leaves it lost, or neither. -/
lemma fine_step_iff (h : s.Carries) (hpre : s.Pre a) : (s.step a).Fine ↔ s.Fine ∧ s.Drained a := by
  cases a with
  | write bytes => 
    have hremaining : (s.step (.write bytes)).remaining = s.remaining ++ bytes := by
      unfold remaining Stream.step
      cases s.reader <;> simp
    have hreads : (s.step (.write bytes)).Reads ↔ s.Reads := Iff.rfl
    rw [Fine, Fine, Drained, hremaining, hreads, blank_append]
    tauto
  | closeWrite => exact (and_iff_left trivial).symm
  | read n => 
    have hopen := (h.open_of_reading hpre.1).1
    have hreads : s.Reads := ⟨hopen, by simp [hpre.1], by simp [hpre.1]⟩
    have hreads' : (s.step (.read n)).Reads := reads_of_readUntil hopen rfl
    exact iff_of_true (.inl hreads') ⟨.inl hreads, trivial⟩
  | readEof =>
    have hreads : s.Reads := ⟨(h.open_of_reading hpre.1).1, by simp [hpre.1], by simp [hpre.1]⟩
    -- what is buffered at the end is all that remains
    have hnot : ¬(s.step .readEof).Reads := fun hr => hr.2.2 .eof rfl
    have hremaining : (s.step .readEof).remaining = s.buffer := by
      simp [remaining, Stream.step, hpre.2.1]
    rw [Fine, or_iff_right hnot, hremaining]
    exact (and_iff_right (.inl hreads)).symm
  | handle =>
    refine Iff.trans ?_ (and_iff_left trivial).symm
    have heq : s.step .handle = s.handle := rfl
    rw [heq, Stream.handle]
    rcases hpre with ⟨length, hr⟩ | ⟨ec, hr⟩
    · simp [hr, Fine, Reads, remaining]
    · simp [hr, Fine, Reads, remaining]
  | asyncReadLine =>
    have hr : s.reader = .posted := hpre
    refine Iff.trans ?_ (and_iff_left trivial).symm
    have heq : s.step .asyncReadLine = s.asyncReadLine := rfl
    rw [heq, Stream.asyncReadLine]
    by_cases hopen : s.isOpen = true
    · have hreads : s.Reads := ⟨hopen, by simp [hr], by simp [hr]⟩
      rw [if_pos hopen]
      exact iff_of_true (.inl (reads_of_readUntil hopen rfl)) (.inl hreads)
    · simp [hr, hopen, Fine, Reads, remaining]
  | onExit =>
    -- the pipe is closed: what remains has to be blank
    have hnot : ¬(s.step .onExit).Reads := fun hr => absurd hr.1 nofun
    have hremaining : (s.step .onExit).remaining = s.remaining := by
      unfold remaining Stream.step onCleanup
      cases s.reader <;> simp
    rw [Fine, Fine, Drained, or_iff_right hnot, hremaining]
    tauto

/-! ### Runs -/

lemma Carries.sink_le (h : s.Carries) : s.sink <+: Lines.nonEmpty delimiter s.written := by
  obtain ⟨consumed, hterminated, hwritten, hsink⟩ := h.sink_eq
  rw [hwritten, hterminated.nonEmpty_append, hsink]
  exact List.prefix_append _ _

/-- At the end the sink has all lines unless something was lost. -/
lemma Carries.sink_eq_iff (h : s.Carries) (hended : s.reader = .ended) :
    s.sink = Lines.nonEmpty delimiter s.written ↔ s.Fine := by
  obtain ⟨consumed, hterminated, hwritten, hsink⟩ := h.sink_eq
  have hnot : ¬s.Reads := fun hr => hr.2.1 hended
  have hremaining : s.remaining = s.buffer ++ s.pipe := by simp [remaining, hended]
  rw [hwritten, hterminated.nonEmpty_append, hsink, Fine, or_iff_right hnot, hremaining, Blank,
    ← Lines.nonEmpty_eq_nil_iff, List.self_eq_append_right]

/-- The reading does not come to rest before its end. -/
lemma Rests.reader_eq (h : s.Rests) : s.reader = .ended := by
  obtain ⟨heof, hall⟩ := h
  cases hr : s.reader with
  | reading =>
    by_cases hpipe : s.pipe = []
    · exact absurd (hall .readEof ⟨hr, hpipe, heof⟩) nofun
    · exact absurd (hall (.read 1) ⟨hr, Nat.one_pos, List.length_pos_of_ne_nil hpipe⟩) nofun
  | completed length => exact absurd (hall .handle (.inl ⟨length, hr⟩)) nofun
  | failed ec => exact absurd (hall .handle (.inr ⟨ec, hr⟩)) nofun
  | posted => exact absurd (hall .asyncReadLine hr) nofun
  | ended => rfl

lemma rests_of_ended (heof : s.isEof = true) (hr : s.reader = .ended) : s.Rests := by
  refine ⟨heof, fun a ha => ?_⟩
  cases a with
  | write bytes => exact absurd (heof.symm.trans ha) nofun
  | closeWrite => exact absurd (heof.symm.trans ha) nofun
  | read n => exact absurd (hr.symm.trans ha.1) nofun
  | readEof => exact absurd (hr.symm.trans ha.1) nofun
  | handle =>
    rcases ha with ⟨length, h⟩ | ⟨ec, h⟩
    · exact absurd (hr.symm.trans h) nofun
    · exact absurd (hr.symm.trans h) nofun
  | asyncReadLine => exact absurd (hr.symm.trans ha) nofun
  | onExit => rfl

/-- A bound of the steps that are left, but for those that write. -/
def rank (s : Stream) : Nat :=
  4 * s.pipe.length + 3 * s.buffer.length + s.reader.rank + (!s.isEof).toNat + (!s.exited).toNat

lemma rank_readUntil (buffer : List Byte) : (readUntil buffer).rank = 3 := by
  rcases readUntil_cases buffer with h | ⟨length, h⟩ <;> rw [h, Reader.rank]

lemma rank_step_lt (h : s.Carries) (hpre : s.Pre a) (ha : a.goesOn = true) :
    (s.step a).rank < s.rank := by
  cases a with
  | write bytes => cases ha
  | closeWrite =>
    -- the pipe is closed once
    have heof : s.isEof = false := hpre
    simp only [rank, Stream.step, heof, Bool.not_true, Bool.not_false, Bool.toNat_true,
      Bool.toNat_false]
    omega
  | read n =>
    obtain ⟨hr, hpos, hle⟩ := hpre
    have hrank : s.reader.rank = 3 := congrArg Reader.rank hr
    simp only [rank, Stream.step, rank_readUntil, hrank, List.length_append, List.length_take,
      List.length_drop]
    omega
  | readEof =>
    have hrank : s.reader.rank = 3 := congrArg Reader.rank hpre.1
    have hfailed : (Reader.failed .eof).rank = 1 := rfl
    simp only [rank, hrank, hfailed, Stream.step]
    omega
  | handle =>
    rcases hpre with ⟨length, hr⟩ | ⟨ec, hr⟩
    · -- at least the delimiter is consumed
      obtain ⟨line, rest, -, hbuffer, rfl⟩ := readUntil_eq_completed (h.completed length hr)
      have hlength : s.buffer.length = line.length + rest.length + 1 := by
        rw [hbuffer, List.length_append, List.length_cons, Nat.add_assoc]
      have hrank : s.reader.rank = 3 := congrArg Reader.rank hr
      have hposted : Reader.posted.rank = 4 := rfl
      simp only [rank, hrank]
      simp only [Stream.step, Stream.handle, hr, hposted, List.length_drop, delimiterLength]
      omega
    · have hrank : s.reader.rank = 1 := congrArg Reader.rank hr
      have hended : Reader.ended.rank = 0 := rfl
      simp only [rank, hrank]
      simp only [Stream.step, Stream.handle, hr, hended]
      omega
  | asyncReadLine =>
    have hrank : s.reader.rank = 4 := congrArg Reader.rank hpre
    have hended : Reader.ended.rank = 0 := rfl
    simp only [rank, hrank, Stream.step, Stream.asyncReadLine]
    split
    · simp only [rank_readUntil]
      omega
    · simp only [hended]
      omega
  | onExit =>
    have hexited : s.exited = false := hpre
    have hrank : (s.step .onExit).reader.rank ≤ s.reader.rank := by
      simp only [Stream.step, onCleanup]
      split
      · rw [‹s.reader = .reading›]
        decide
      · exact le_rfl
    have hexit : (!(s.step .onExit).exited).toNat = 0 := rfl
    have hpipe : (s.step .onExit).pipe = s.pipe := rfl
    have hbuffer : (s.step .onExit).buffer = s.buffer := rfl
    have heof : (s.step .onExit).isEof = s.isEof := rfl
    simp only [rank, hexit, hexited, hpipe, hbuffer, heof, Bool.not_false, Bool.toNat_true]
    omega

lemma rank_write (bytes : List Byte) :
    (s.step (.write bytes)).rank = s.rank + 4 * bytes.length := by
  simp only [rank, Stream.step, List.length_append]
  omega

lemma written_handle (s : Stream) : s.handle.written = s.written := by
  unfold Stream.handle
  cases s.reader <;> rfl

lemma written_asyncReadLine (s : Stream) : s.asyncReadLine.written = s.written := by
  unfold Stream.asyncReadLine
  split <;> rfl

/-- There are only so many steps for what is written. -/
lemma countP_goesOn_le {as : List StreamStep} (h : s.Carries)
    (has : streams.Admissible (fun _ _ => True) s as) :
    as.countP StreamStep.goesOn + 4 * s.written.length ≤
      s.rank + 4 * (as.foldl streams.step s).written.length := by
  induction as generalizing s with
  | nil => simp
  | cons a as ih =>
    obtain ⟨hpre, -, has⟩ := has
    have heq : streams.step s a = s.step a := rfl
    rw [heq] at has
    have hih := ih (h.step hpre) has
    rw [List.foldl_cons, heq]
    cases ha : a.goesOn with
    | true =>
      have hlt := rank_step_lt h hpre ha
      have hwritten : (s.step a).written = s.written := by
        cases a with
        | write bytes => cases ha
        | handle => exact written_handle s
        | asyncReadLine => exact written_asyncReadLine s
        | _ => rfl
      rw [hwritten] at hih
      rw [List.countP_cons_of_pos ha]
      omega
    | false =>
      cases a with
      | write bytes =>
        have hrank := rank_write (s := s) bytes
        have hwritten : (s.step (.write bytes)).written = s.written ++ bytes := rfl
        rw [hwritten, List.length_append, hrank] at hih
        rw [List.countP_cons_of_neg (by simp [ha])]
        omega
      | _ => cases ha

lemma Carries.foldl {as : List StreamStep} (h : s.Carries)
    (has : streams.Admissible (fun _ _ => True) s as) : (as.foldl streams.step s).Carries :=
  has.invariant h fun _ _ hs hpre _ => hs.step hpre

/-- Nothing is lost in a run just if nothing is lost in a step. -/
lemma fine_foldl_iff {as : List StreamStep} (h : s.Carries)
    (has : streams.Admissible (fun _ _ => True) s as) :
    (as.foldl streams.step s).Fine ↔ s.Fine ∧ streams.Admissible Drained s as := by
  induction as generalizing s with
  | nil => exact (and_iff_left trivial).symm
  | cons a as ih =>
    obtain ⟨hpre, -, has⟩ := has
    have heq : streams.step s a = s.step a := rfl
    rw [heq] at has
    rw [List.foldl_cons, heq, ih (h.step hpre) has, fine_step_iff h hpre, and_assoc]
    exact and_congr_right fun _ =>
      ⟨fun ⟨hd, hrest⟩ => ⟨hpre, hd, hrest⟩, fun ⟨_, hd, hrest⟩ => ⟨hd, hrest⟩⟩

end Stream

/-- In every run the sink gets lines of the output in their order; in the end it has all of them,
exactly if nothing but empty lines was left behind. -/
theorem streamed_lines {as : List StreamStep}
    (h : streams.Admissible (fun _ _ => True) .initial as) :
    (as.foldl streams.step .initial).sink <+:
        Lines.nonEmpty delimiter (as.foldl streams.step .initial).written ∧
      as.countP StreamStep.goesOn ≤ 5 + 4 * (as.foldl streams.step .initial).written.length ∧
      ((as.foldl streams.step .initial).Rests →
        ((as.foldl streams.step .initial).sink =
            Lines.nonEmpty delimiter (as.foldl streams.step .initial).written ↔
          streams.Admissible Stream.Drained .initial as)) := by
  have hcarries := Stream.Carries.initial.foldl h
  refine ⟨hcarries.sink_le, ?_, fun hrests => ?_⟩
  · have hcount := Stream.countP_goesOn_le Stream.Carries.initial h
    have hrank : Stream.initial.rank = 5 := rfl
    have hwritten : Stream.initial.written.length = 0 := rfl
    omega
  · have hfine : Stream.initial.Fine := .inl ⟨rfl, nofun, nofun⟩
    rw [hcarries.sink_eq_iff hrests.reader_eq, Stream.fine_foldl_iff Stream.Carries.initial h]
    exact and_iff_right hfine

/-- Two lines that come in three pieces. -/
def streamRun : List StreamStep :=
  [.write [97, 10, 98], .read 2, .handle, .asyncReadLine, .read 1, .write [99, 10], .closeWrite,
    .read 2, .handle, .asyncReadLine, .onExit, .handle]

theorem streamed_lines_streamRun :
    (streamRun.foldl streams.step .initial).sink =
      Lines.nonEmpty delimiter (streamRun.foldl streams.step .initial).written := by
  have hpre : streams.Admissible (fun _ _ => True) .initial streamRun :=
    ⟨rfl, trivial, ⟨rfl, by decide, by decide⟩, trivial, .inl ⟨2, rfl⟩, trivial, rfl, trivial,
      ⟨rfl, by decide, by decide⟩, trivial, rfl, trivial, rfl, trivial,
      ⟨rfl, by decide, by decide⟩, trivial, .inl ⟨3, rfl⟩, trivial, rfl, trivial, rfl, trivial,
      .inr ⟨.operationAborted, rfl⟩, trivial, trivial⟩
  have hdrained : streams.Admissible Stream.Drained .initial streamRun :=
    ⟨rfl, .inl ⟨rfl, nofun, nofun⟩, ⟨rfl, by decide, by decide⟩, trivial, .inl ⟨2, rfl⟩, trivial,
      rfl, trivial, ⟨rfl, by decide, by decide⟩, trivial, rfl, .inl ⟨rfl, nofun, nofun⟩, rfl,
      trivial, ⟨rfl, by decide, by decide⟩, trivial, .inl ⟨3, rfl⟩, trivial, rfl, trivial, rfl,
      fun _ _ hc => absurd hc (List.not_mem_nil), .inr ⟨.operationAborted, rfl⟩, trivial, trivial⟩
  exact ((streamed_lines hpre).2.2 (Stream.rests_of_ended rfl rfl)).2 hdrained

/-- The output ends without a delimiter. -/
def unterminatedRun : List StreamStep :=
  [.write [97], .closeWrite, .read 1, .readEof, .handle, .onExit]

theorem unterminated_not_streamed :
    ¬∀ as : List StreamStep, streams.Admissible (fun _ _ => True) .initial as →
      (as.foldl streams.step .initial).Rests →
      (as.foldl streams.step .initial).sink =
        Lines.nonEmpty delimiter (as.foldl streams.step .initial).written := by
  intro h
  have hpre : streams.Admissible (fun _ _ => True) .initial unterminatedRun :=
    ⟨rfl, trivial, rfl, trivial, ⟨rfl, by decide, by decide⟩, trivial, ⟨rfl, rfl, rfl⟩, trivial,
      .inr ⟨.eof, rfl⟩, trivial, rfl, trivial, trivial⟩
  have hsink := h unterminatedRun hpre (Stream.rests_of_ended rfl rfl)
  revert hsink
  decide

end Idle
