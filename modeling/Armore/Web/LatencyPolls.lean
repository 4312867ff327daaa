import Armore.Lib.Polls
import Armore.Lib.Raising
import Armore.Lib.Text
import Mathlib.Data.Int.ConditionallyCompleteOrder
import Mathlib.Order.ConditionallyCompleteLattice.Basic

/-!
# Reading the latencies

`domains/support/rrdDataParser.py`: at every poll `getLinesToParse` takes the lines of the stats_count log
with a time after the last poll and up to this one, from the current log and from the rotated logs whose
interval is taken to overlap. The time of the last poll is a global; the first poll, which finds none, goes
back fifteen minutes and leaves there the start of its window, where every other poll leaves the end.

Times are microseconds of the local clock.
-/

namespace Armore.Web

open Armore.Lib

def seconds (n : Int) : Int := 1000000 * n

inductive ReadExn
  | indexError
  deriving DecidableEq

/-- A line of data: the time in its second field and its text. -/
structure Line where
  time : Int
  text : Text
  deriving DecidableEq

inductive LogLine
  | comment (text : Text)
  | data (line : Line)
  deriving DecidableEq

def LogLine.data? : LogLine → Option Line
  | .comment _ => none
  | .data line => some line

/-- The lines that do not start with `#`. -/
def dataLines (fileLines : List LogLine) : List Line := fileLines.filterMap LogLine.data?

def getDateTimeFromLogLine (line : Line) : Int := line.time

/-- `usePreviousLog` and `linesUsed`; there may be no file. -/
def getLinesFromFile (theFile : Option (List LogLine)) (start stop : Int) :
    Except ReadExn (Bool × List Line) :=
  match theFile with
  | none => .ok (true, [])
  | some fileLines =>
    let lines := (dataLines fileLines).reverse
    match lines.getLast? with
    | none => .error .indexError
    | some last =>
      .ok (start < getDateTimeFromLogLine last,
        lines.filter fun l => start < getDateTimeFromLogLine l ∧ getDateTimeFromLogLine l ≤ stop)

/-- A rotated log: the day of its directory, the two times of day in its name, and its lines. -/
structure RotatedLog where
  date : Int
  startTime : Fin 86400
  stopTime : Fin 86400
  lines : List LogLine

/-- Both times are taken on the day of the directory. -/
def getDateTimeStartStopFromFileName (f : RotatedLog) : Int × Int :=
  (seconds (86400 * f.date + f.startTime), seconds (86400 * f.date + f.stopTime))

/-- The three cases are those of the source; without one it returns `None`, which is no `True`. -/
def includeFile (start stop fStart fStop : Int) : Bool :=
  if fStop < start ∨ fStart > stop then false
  else if fStart ≤ start ∧ (fStop > start ∧ fStop ≤ stop) then true
  else if (fStart ≥ start ∧ fStart ≤ stop) ∧ (fStop ≥ start ∧ fStop ≤ stop) then true
  else if (fStart ≥ start ∧ fStart ≤ stop) ∧ fStop > stop then true
  else false

/-- What a poll finds under `/var/log/bro`. -/
structure Disk where
  current : Option (List LogLine)
  rotated : List RotatedLog

def RotatedLog.included (start stop : Int) (f : RotatedLog) : Bool :=
  includeFile start stop (getDateTimeStartStopFromFileName f).1 (getDateTimeStartStopFromFileName f).2

def getPreviousLogFiles (rotated : List RotatedLog) (start stop : Int) : List RotatedLog :=
  rotated.filter (RotatedLog.included start stop)

/-- `start`, and what the call leaves in `LASTREADDATETIME`. -/
def startAndNext (lastRead : Option Int) (stop : Int) : Int × Int :=
  match lastRead with
  | some start => (start, stop)
  | none => (stop - seconds 900, stop - seconds 900)

/-- The body of the loop over the rotated logs. -/
def addLines (start stop : Int) (linesUsed : List Line) (f : RotatedLog) : Except ReadExn (List Line) := do
  let (_, extraLines) ← getLinesFromFile (some f.lines) start stop
  return linesUsed ++ extraLines

/-- The new `LASTREADDATETIME`, which is set before anything is read, and the lines. -/
def getLinesToParse (lastRead : Option Int) (stop : Int) (disk : Disk) :
    Option Int × Except ReadExn (List Line) :=
  let (start, next) := startAndNext lastRead stop
  (some next, do
    let (usePreviousLog, linesUsed) ← getLinesFromFile disk.current start stop
    if usePreviousLog || true then
      (getPreviousLogFiles disk.rotated start stop).foldlM (addLines start stop) linesUsed
    else return linesUsed)

/-! ### Polls -/

/-- The time of a poll and what it finds. -/
structure Poll where
  now : Int
  disk : Disk

/-- `LASTREADDATETIME` before a poll. -/
def lastRead (poll : ℕ → Poll) : ℕ → Option Int
  | 0 => none
  | i + 1 => (getLinesToParse (lastRead poll i) (poll i).now (poll i).disk).1

/-- What a poll returns. -/
def linesAt (poll : ℕ → Poll) (i : ℕ) : Except ReadExn (List Line) :=
  (getLinesToParse (lastRead poll i) (poll i).now (poll i).disk).2

def Returned (poll : ℕ → Poll) (i : ℕ) (l : Line) : Prop := ∃ lines, linesAt poll i = .ok lines ∧ l ∈ lines

/-- The end of the interval a name gives, on the next day when it is not after the start. -/
def RotatedLog.last (f : RotatedLog) : Int :=
  if f.startTime < f.stopTime then (getDateTimeStartStopFromFileName f).2
  else (getDateTimeStartStopFromFileName f).2 + seconds 86400

/-- The names give the intervals of the lines. -/
def Disk.WellNamed (disk : Disk) : Prop :=
  ∀ f ∈ disk.rotated, ∀ l ∈ dataLines f.lines,
    (getDateTimeStartStopFromFileName f).1 ≤ l.time ∧ l.time ≤ f.last

/-- A line is on the disk. -/
def Disk.Has (disk : Disk) (l : Line) : Prop :=
  (∃ file, disk.current = some file ∧ l ∈ dataLines file) ∨ ∃ f ∈ disk.rotated, l ∈ dataLines f.lines

/-! ### One poll -/

/-- The lines of a file in a window, the last first. -/
def taken (start stop : Int) (fileLines : List LogLine) : List Line :=
  (dataLines fileLines).reverse.filter fun l => start < l.time ∧ l.time ≤ stop

theorem mem_taken {start stop : Int} {fileLines : List LogLine} {l : Line} :
    l ∈ taken start stop fileLines ↔ l ∈ dataLines fileLines ∧ start < l.time ∧ l.time ≤ stop := by
  rw [taken, List.mem_filter, List.mem_reverse, decide_eq_true_eq]

/-- A file without data raises, and another one gives its lines in the window. -/
theorem getLinesFromFile_some {fileLines : List LogLine} {start stop : Int} {r : Bool × List Line} :
    getLinesFromFile (some fileLines) start stop = .ok r ↔
      ∃ first ∈ (dataLines fileLines).head?, r = (decide (start < first.time), taken start stop fileLines) := by
  rw [getLinesFromFile]
  simp only [List.getLast?_reverse]
  cases (dataLines fileLines).head? with
  | none =>
    constructor
    · intro h
      exact nomatch h
    · intro ⟨first, hfirst, _⟩
      exact nomatch hfirst
  | some first =>
    constructor
    · intro h
      exact ⟨first, rfl, (Except.ok.inj h).symm⟩
    · intro ⟨first', hfirst, hr⟩
      rw [hr, ← Option.some.inj hfirst]
      rfl

/-- The loop over the rotated logs. -/
theorem foldlM_addLines {start stop : Int} {files : List RotatedLog} {linesUsed lines : List Line} :
    files.foldlM (addLines start stop) linesUsed = .ok lines ↔
      (∀ f ∈ files, dataLines f.lines ≠ [])
        ∧ lines = linesUsed ++ files.flatMap fun f => taken start stop f.lines := by
  induction files generalizing linesUsed with
  | nil =>
    rw [List.foldlM_nil, List.flatMap_nil, List.append_nil]
    constructor
    · intro h
      exact ⟨fun f hf => absurd hf List.not_mem_nil, (Except.ok.inj h).symm⟩
    · intro ⟨_, hlines⟩
      rw [hlines]
      rfl
  | cons f files ih =>
    rw [List.foldlM_cons, bind_ok, List.forall_mem_cons, List.flatMap_cons, ← List.append_assoc]
    constructor
    · intro ⟨middle, hf, hrest⟩
      obtain ⟨r, hr, hmiddle⟩ := bind_ok.mp hf
      obtain ⟨first, hfirst, rfl⟩ := getLinesFromFile_some.mp hr
      obtain ⟨hfiles, hlines⟩ := ih.mp hrest
      rw [← Except.ok.inj hmiddle] at hlines
      exact ⟨⟨List.ne_nil_of_mem (List.mem_of_mem_head? hfirst), hfiles⟩, hlines⟩
    · intro ⟨⟨hne, hfiles⟩, hlines⟩
      obtain ⟨first, rest, hcons⟩ := List.exists_cons_of_ne_nil hne
      have hf : getLinesFromFile (some f.lines) start stop = .ok (decide (start < first.time), taken start stop f.lines) :=
        getLinesFromFile_some.mpr ⟨first, by rw [hcons]; rfl, rfl⟩
      exact ⟨linesUsed ++ taken start stop f.lines, by rw [addLines, hf]; rfl, ih.mpr ⟨hfiles, hlines⟩⟩

/-- A log that is read has no line of data. -/
def Disk.Barren (disk : Disk) (start stop : Int) : Prop :=
  (∃ file, disk.current = some file ∧ dataLines file = [])
    ∨ ∃ f ∈ disk.rotated, f.included start stop = true ∧ dataLines f.lines = []

/-- A line is in the current log or in a rotated one that is read. -/
def Disk.Shows (disk : Disk) (start stop : Int) (l : Line) : Prop :=
  (∃ file, disk.current = some file ∧ l ∈ dataLines file)
    ∨ ∃ f ∈ disk.rotated, f.included start stop = true ∧ l ∈ dataLines f.lines

/-- The lines of the current log and then of the rotated ones that are read. -/
def Disk.shown (disk : Disk) (start stop : Int) : List Line :=
  (disk.current.map (taken start stop)).getD []
    ++ (getPreviousLogFiles disk.rotated start stop).flatMap fun f => taken start stop f.lines

theorem mem_shown {disk : Disk} {start stop : Int} {l : Line} :
    l ∈ disk.shown start stop ↔ disk.Shows start stop l ∧ start < l.time ∧ l.time ≤ stop := by
  have hcurrent : l ∈ (disk.current.map (taken start stop)).getD [] ↔
      (∃ file, disk.current = some file ∧ l ∈ dataLines file) ∧ start < l.time ∧ l.time ≤ stop := by
    cases disk.current with
    | none => simp
    | some file => simp [mem_taken]
  rw [Disk.shown, Disk.Shows, List.mem_append, hcurrent, List.mem_flatMap, or_and_right]
  refine or_congr Iff.rfl ?_
  simp only [getPreviousLogFiles, List.mem_filter, mem_taken]
  tauto

theorem getLinesToParse_ok {lastRead : Option Int} {stop : Int} {disk : Disk} {lines : List Line} :
    (getLinesToParse lastRead stop disk).2 = .ok lines ↔
      ¬ disk.Barren (startAndNext lastRead stop).1 stop
        ∧ lines = disk.shown (startAndNext lastRead stop).1 stop := by
  have hrotated : ∀ start : Int, (∀ f ∈ getPreviousLogFiles disk.rotated start stop, dataLines f.lines ≠ []) ↔
      ¬ ∃ f ∈ disk.rotated, f.included start stop = true ∧ dataLines f.lines = [] := by
    intro start
    simp only [getPreviousLogFiles, List.mem_filter, not_exists, not_and, and_imp]
  rw [getLinesToParse]
  simp only [Bool.or_true, if_true, bind_ok, foldlM_addLines, hrotated]
  generalize (startAndNext lastRead stop).1 = start
  rw [Disk.Barren, Disk.shown, not_or]
  cases disk.current with
  | none => simp [getLinesFromFile]
  | some file =>
    simp only [getLinesFromFile_some]
    cases hdata : dataLines file with
    | nil => simp [hdata]
    | cons first rest => simp [hdata, taken]

/-- What a poll returns: it does not raise, the line is in its window, and in a log that is read. -/
theorem mem_getLinesToParse {lastRead : Option Int} {stop : Int} {disk : Disk} {l : Line} :
    (∃ lines, (getLinesToParse lastRead stop disk).2 = .ok lines ∧ l ∈ lines) ↔
      ¬ disk.Barren (startAndNext lastRead stop).1 stop
        ∧ disk.Shows (startAndNext lastRead stop).1 stop l
        ∧ (startAndNext lastRead stop).1 < l.time ∧ l.time ≤ stop := by
  simp only [getLinesToParse_ok, and_assoc, exists_and_left, exists_eq_left, mem_shown]

/-! ### Which rotated logs are read -/

/-- The interval of the name goes beyond the window on both sides; or it ends on the next day, and so
before it starts when both times are taken on one day, and that end is before the window. -/
def RotatedLog.Overlooked (start stop : Int) (f : RotatedLog) : Prop :=
  let (fStart, fStop) := getDateTimeStartStopFromFileName f
  fStart < start ∧ stop < fStop ∨ fStop ≤ fStart ∧ fStop < start

/-- A file that has something for the window is read unless it is overlooked. -/
theorem includeFile_iff {start stop fStart fStop t : Int} (hstart : start < t) (hstop : t ≤ stop)
    (hfirst : fStart ≤ t) (hlast : fStart < fStop → t ≤ fStop) :
    includeFile start stop fStart fStop = true ↔
      ¬ (fStart < start ∧ stop < fStop ∨ fStop ≤ fStart ∧ fStop < start) := by
  rw [includeFile]
  split_ifs <;> simp only [true_iff, false_iff, not_not] <;> omega

theorem included_iff {disk : Disk} (hnamed : disk.WellNamed) {f : RotatedLog} (hf : f ∈ disk.rotated) {l : Line}
    (hl : l ∈ dataLines f.lines) {start stop : Int} (hstart : start < l.time) (hstop : l.time ≤ stop) :
    f.included start stop = true ↔ ¬ f.Overlooked start stop := by
  obtain ⟨hfirst, hlast⟩ := hnamed f hf l hl
  apply includeFile_iff hstart hstop hfirst
  intro hlt
  rw [RotatedLog.last, if_pos] at hlast
  · exact hlast
  · simp only [getDateTimeStartStopFromFileName, seconds] at hlt
    omega

/-- A line is in the current log or in a rotated one that is not overlooked, and no log that is read is
without data. -/
def Disk.Readable (disk : Disk) (start stop : Int) (l : Line) : Prop :=
  ¬ disk.Barren start stop ∧
    ((∃ file, disk.current = some file ∧ l ∈ dataLines file)
      ∨ ∃ f ∈ disk.rotated, ¬ f.Overlooked start stop ∧ l ∈ dataLines f.lines)

/-! ### The windows -/

section

variable {poll : ℕ → Poll}

def times (poll : ℕ → Poll) (i : ℕ) : Int := (poll i).now

/-- Where the window of a poll starts: the second one starts where the first one did. -/
def windowStart (poll : ℕ → Poll) : ℕ → Int
  | 0 => (poll 0).now - seconds 900
  | 1 => (poll 0).now - seconds 900
  | i + 2 => (poll (i + 1)).now

theorem lastRead_succ (poll : ℕ → Poll) (i : ℕ) : lastRead poll (i + 1) = some (windowStart poll (i + 1)) := by
  induction i with
  | zero => rfl
  | succ i ih =>
    rw [lastRead, ih]
    rfl

theorem startAndNext_lastRead (poll : ℕ → Poll) (i : ℕ) :
    (startAndNext (lastRead poll i) (poll i).now).1 = windowStart poll i := by
  cases i with
  | zero => rfl
  | succ i =>
    rw [lastRead_succ]
    rfl

/-- Only the poll where a time is due has it in its window, and the second poll those of the first. -/
theorem mem_window_iff (hmono : StrictMono (times poll)) {t : Int} {k : ℕ}
    (hnew : (poll 0).now - seconds 900 < t) (hfirst : FirstAt (times poll) t k) (i : ℕ) :
    windowStart poll i < t ∧ t ≤ (poll i).now ↔ i = k ∨ i = 1 ∧ k = 0 := by
  match i with
  | 0 =>
    constructor
    · intro ⟨_, hle⟩
      exact .inl ((FirstAt.zero hle).unique hfirst)
    · rintro (rfl | ⟨h, _⟩)
      · exact ⟨hnew, hfirst.1⟩
      · exact absurd h Nat.zero_ne_one
  | 1 =>
    constructor
    · intro ⟨_, hle⟩
      have hk : k ≤ 1 := hfirst.le hle
      omega
    · rintro (rfl | ⟨_, rfl⟩)
      · exact ⟨hnew, hfirst.1⟩
      · exact ⟨hnew, hfirst.1.trans (hmono Nat.zero_lt_one).le⟩
  | i + 2 =>
    show times poll (i + 1) < t ∧ t ≤ times poll (i + 2) ↔ _
    rw [← FirstAt.succ_iff hmono, hfirst.iff_eq]
    omega

/-- The poll can read the line. -/
def ReadableAt (poll : ℕ → Poll) (i : ℕ) (l : Line) : Prop :=
  (poll i).disk.Readable (windowStart poll i) (poll i).now l

/-- What is returned of a line that is not too old for the first poll. -/
theorem returned_iff (hmono : StrictMono (times poll)) (hnamed : ∀ i, (poll i).disk.WellNamed) {l : Line} {k : ℕ}
    (hnew : (poll 0).now - seconds 900 < l.time) (hfirst : FirstAt (times poll) l.time k) (i : ℕ) :
    Returned poll i l ↔ (i = k ∨ i = 1 ∧ k = 0) ∧ ReadableAt poll i l := by
  have hshows : windowStart poll i < l.time ∧ l.time ≤ (poll i).now →
      ((poll i).disk.Shows (windowStart poll i) (poll i).now l ↔
        (∃ file, (poll i).disk.current = some file ∧ l ∈ dataLines file)
          ∨ ∃ f ∈ (poll i).disk.rotated, ¬ f.Overlooked (windowStart poll i) (poll i).now
            ∧ l ∈ dataLines f.lines) := by
    intro ⟨hstart, hstop⟩
    refine or_congr Iff.rfl (exists_congr fun f => and_congr_right fun hf => and_congr_left fun hl => ?_)
    exact included_iff (hnamed i) hf hl hstart hstop
  rw [Returned, linesAt, mem_getLinesToParse, startAndNext_lastRead, ← mem_window_iff hmono hnew hfirst,
    ReadableAt, Disk.Readable]
  constructor
  · intro ⟨hbarren, hshown, hwindow⟩
    exact ⟨hwindow, hbarren, (hshows hwindow).mp hshown⟩
  · intro ⟨hwindow, hbarren, hshown⟩
    exact ⟨hbarren, (hshows hwindow).mpr hshown, hwindow⟩

/-- The poll where a line is due can read it; when that is the first of several polls, exactly one of the
first two can. -/
def ReadOnce (poll : ℕ → Poll) (n k : ℕ) (l : Line) : Prop :=
  if k = 0 ∧ 0 < n then Xor (ReadableAt poll 0 l) (ReadableAt poll 1 l) else ReadableAt poll k l

/-- **A line with a time after the fifteen minutes before the first poll is returned by exactly one of the
polls up to the `n`-th exactly when the poll where it is due can read it, and of the first two polls only
one when it is due at the first of several.** -/
theorem returned_once_iff (hmono : StrictMono (times poll)) (hnamed : ∀ i, (poll i).disk.WellNamed) {n k : ℕ}
    {l : Line} (hnew : (poll 0).now - seconds 900 < l.time) (hfirst : FirstAt (times poll) l.time k)
    (hk : k ≤ n) : (∃! i, i ≤ n ∧ Returned poll i l) ↔ ReadOnce poll n k l := by
  simp only [returned_iff hmono hnamed hnew hfirst]
  rw [ReadOnce]
  split
  · rename_i hfirstTwo
    obtain ⟨rfl, hn⟩ := hfirstTwo
    constructor
    · rintro ⟨i, ⟨_, hi, hreadable⟩, hunique⟩
      rcases hi with rfl | ⟨rfl, _⟩
      · refine .inl ⟨hreadable, fun hsecond => ?_⟩
        exact absurd (hunique 1 ⟨hn, .inr ⟨rfl, rfl⟩, hsecond⟩) Nat.one_ne_zero
      · refine .inr ⟨hreadable, fun hzero => ?_⟩
        exact absurd (hunique 0 ⟨Nat.zero_le n, .inl rfl, hzero⟩) Nat.zero_ne_one
    · rintro (⟨hzero, hsecond⟩ | ⟨hsecond, hzero⟩)
      · refine ⟨0, ⟨Nat.zero_le n, .inl rfl, hzero⟩, ?_⟩
        rintro i ⟨_, hi, hreadable⟩
        rcases hi with rfl | ⟨rfl, _⟩
        · rfl
        · exact absurd hreadable hsecond
      · refine ⟨1, ⟨hn, .inr ⟨rfl, rfl⟩, hsecond⟩, ?_⟩
        rintro i ⟨_, hi, hreadable⟩
        rcases hi with rfl | ⟨rfl, _⟩
        · exact absurd hreadable hzero
        · rfl
  · rename_i hone
    constructor
    · rintro ⟨i, ⟨hi, hik, hreadable⟩, _⟩
      obtain rfl : i = k := by omega
      exact hreadable
    · intro hreadable
      refine ⟨k, ⟨hk, .inl rfl, hreadable⟩, ?_⟩
      rintro i ⟨hi, hik, _⟩
      omega

end

/-! ### Read twice -/

/-- The first poll is a minute after a line was written, and the line stays in the current log. -/
def written : Line := ⟨seconds (-60), "fe03".toList⟩

def quarterHourly (i : ℕ) : Poll := ⟨seconds (900 * i), ⟨some [.comment "#separator".toList, .data written], []⟩⟩

theorem quarterHourly_mono : StrictMono (times quarterHourly) := by
  intro i j hlt
  simp only [times, quarterHourly, seconds]
  omega

theorem quarterHourly_named (i : ℕ) : (quarterHourly i).disk.WellNamed :=
  fun _ hf => absurd hf List.not_mem_nil

theorem written_new : (quarterHourly 0).now - seconds 900 < written.time := by decide

theorem written_first : FirstAt (times quarterHourly) written.time 0 := .zero (by decide)

theorem returned_once_iff_written :
    (∃! i, i ≤ 1 ∧ Returned quarterHourly i written) ↔ ReadOnce quarterHourly 1 0 written :=
  returned_once_iff quarterHourly_mono quarterHourly_named written_new written_first (Nat.zero_le 1)

/-- Both of the first two polls return the line. -/
theorem returned_twice :
    ¬ ∀ (poll : ℕ → Poll) (n k : ℕ) (l : Line), StrictMono (times poll) → (∀ i, (poll i).disk.WellNamed) →
        (poll 0).now - seconds 900 < l.time → FirstAt (times poll) l.time k → k ≤ n → (poll k).disk.Has l →
        ∃! i, i ≤ n ∧ Returned poll i l := by
  intro honce
  obtain ⟨i, _, hunique⟩ := honce quarterHourly 1 0 written quarterHourly_mono quarterHourly_named written_new
    written_first (Nat.zero_le 1) (.inl ⟨_, rfl, List.mem_singleton_self written⟩)
  have hzero : 0 = i := hunique 0 ⟨Nat.zero_le 1, [written], rfl, List.mem_singleton_self written⟩
  have hone : 1 = i := hunique 1 ⟨le_refl 1, [written], rfl, List.mem_singleton_self written⟩
  omega

end Armore.Web
