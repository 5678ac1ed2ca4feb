import TcFrame.LoggerDelivery
import Mathlib.Algebra.Group.Int.Defs
import Mathlib.Algebra.Group.Nat.Defs

/-! The appenders that write files: one file for each day, the stream's buffer in front of it,
and two appenders of one logger on one file system. -/
namespace TcFrame.Logger

abbrev Text := List Char

/- Log_utils::LevelToString. -/
def levelToString : LogLevel → String
  | .debug => "DEBUG"
  | .info => "INFO"
  | .warn => "WARN"
  | .error => "ERROR"
  | .fatal => "FATAL"

/- The local calendar day, with the widths that put_time gives its parts. -/
structure Date where
  year : Nat
  month : Nat
  day : Nat
  yearFits : year < 10 ^ 4
  monthFits : month < 10 ^ 2
  dayFits : day < 10 ^ 2
  deriving DecidableEq

/- A number with leading zeros. -/
def padded (width n : Nat) : Text := (Nat.toDigits 10 n).leftpad width '0'

/- Log_utils::GetCurrentDate: "%Y-%m-%d". -/
def Date.text (d : Date) : Text := padded 4 d.year ++ '-' :: padded 2 d.month ++ '-' :: padded 2 d.day

def fullPath (basePath : Text) (d : Date) : Text := basePath ++ '.' :: d.text ++ ".log".toList

/- An event with its time_str, as it is put into a line. -/
structure Entry where
  event : LogEvent
  timeStr : Text
  deriving DecidableEq, Repr

def Entry.line (e : Entry) : Text :=
  '[' :: e.timeStr ++ "] [".toList ++ (levelToString e.event.level).toList ++ "] ".toList ++ e.event.content.toList ++ ['\n']

/- What is in the files, by their paths. -/
abbrev Disk := Text → Text

/- `buffer` is what m_ofs has not yet handed to the file. -/
structure FileAppender where
  basePath : Text
  currentDate : Date
  isOpen : Bool
  buffer : Text

namespace FileAppender

def path (f : FileAppender) : Text := fullPath f.basePath f.currentDate

/- m_ofs.open in append mode, which succeeds or not. -/
def openNewLogFile (f : FileAppender) (opens : Bool) : FileAppender := { f with isOpen := opens }

def create (basePath : Text) (today : Date) (opens : Bool) : FileAppender :=
  openNewLogFile ⟨basePath,today,false,[]⟩ opens

/- The first `n` characters of the buffer go to the file. -/
def drain (f : FileAppender) (disk : Disk) (n : Nat) : FileAppender × Disk :=
  if f.isOpen then
    ({ f with buffer := f.buffer.drop n },Function.update disk f.path (disk f.path ++ f.buffer.take n))
  else (f,disk)

def flush (f : FileAppender) (disk : Disk) : FileAppender × Disk := f.drain disk f.buffer.length

def close (f : FileAppender) (disk : Disk) : FileAppender × Disk :=
  let out := f.flush disk
  ({ out.1 with isOpen := false },out.2)

def checkRollOver (f : FileAppender) (disk : Disk) (today : Date) (opens : Bool) : FileAppender × Disk :=
  if today ≠ f.currentDate then
    let out := f.close disk
    (openNewLogFile { out.1 with currentDate := today } opens,out.2)
  else (f,disk)

def append (f : FileAppender) (disk : Disk) (today : Date) (opens : Bool) (e : Entry) : FileAppender × Disk :=
  let out := f.checkRollOver disk today opens
  if out.1.isOpen then ({ out.1 with buffer := out.1.buffer ++ e.line },out.2) else out

end FileAppender

/- ErrorFileAppender::Append. -/
def ErrorFileAppender.append (f : FileAppender) (disk : Disk) (today : Date) (opens : Bool) (e : Entry) : FileAppender × Disk :=
  if LogLevel.error.value ≤ e.event.level.value then f.append disk today opens e else (f,disk)

/- The appenders with files that Init adds. -/
inductive Output where
  | file
  | errorFile
  deriving DecidableEq, Repr

namespace Output

def basePath (logBasePath : Text) : Output → Text
  | .file => logBasePath ++ "/tcframe".toList
  | .errorFile => logBasePath ++ "/tcframe.error".toList

def append : Output → FileAppender → Disk → Date → Bool → Entry → FileAppender × Disk
  | .file => FileAppender.append
  | .errorFile => ErrorFileAppender.append

/- Which events the appender takes. -/
def takes : Output → LogEvent → Bool
  | .file, _ => true
  | .errorFile, event => LogLevel.error.value ≤ event.level.value

/- Its place in m_appenders, behind the console. -/
def index : Output → Nat
  | .file => 1
  | .errorFile => 2

end Output

/- What can happen to one appender: its two operations, with the day and what an open would
return, and the stream may hand on any part of its buffer by itself. -/
inductive FileCall where
  | append (e : Entry) (today : Date) (opens : Bool)
  | flush
  | spill (n : Nat)
  deriving DecidableEq

structure Files where
  disk : Disk
  appender : Output → FileAppender

namespace Files

def put (w : Files) (k : Output) (out : FileAppender × Disk) : Files := ⟨out.2,Function.update w.appender k out.1⟩

def operate (w : Files) (k : Output) : FileCall → FileAppender × Disk
  | .append e today opens => k.append (w.appender k) w.disk today opens e
  | .flush => (w.appender k).flush w.disk
  | .spill n => (w.appender k).drain w.disk n

def call (w : Files) (c : Output × FileCall) : Files := w.put c.1 (w.operate c.1 c.2)

def calls (w : Files) (cs : List (Output × FileCall)) : Files := cs.foldl call w

/- As Init leaves them, over the files that are there. -/
def init (logBasePath : Text) (disk : Disk) (today : Date) (opens : Output → Bool) : Files :=
  ⟨disk,fun k => FileAppender.create (k.basePath logBasePath) today (opens k)⟩

end Files

theorem paddedValue (width n : Nat) : Nat.ofDigitChars 10 (padded width n) 0 = n := by
  simp [padded, List.leftpad, Nat.ofDigitChars_append]

theorem paddedLength {width n : Nat} (positive : 0 < width) (fits : n < 10 ^ width) : (padded width n).length = width := by
  have short := (Nat.length_toDigits_le_iff (by decide) positive).mpr fits
  rw [padded, List.length_leftpad]
  omega

theorem paddedInjective {width n m : Nat} (same : padded width n = padded width m) : n = m := by
  rw [← paddedValue width n, same, paddedValue]

theorem dateLength (d : Date) : d.text.length = 10 := by
  simp [Date.text, paddedLength (by decide) d.yearFits, paddedLength (by decide) d.monthFits, paddedLength (by decide) d.dayFits]

theorem dateInjective {d d' : Date} (same : d.text = d'.text) : d = d' := by
  have years : (padded 4 d.year).length = (padded 4 d'.year).length := by
    rw [paddedLength (by decide) d.yearFits, paddedLength (by decide) d'.yearFits]
  have months : (padded 2 d.month).length = (padded 2 d'.month).length := by
    rw [paddedLength (by decide) d.monthFits, paddedLength (by decide) d'.monthFits]
  simp only [Date.text, List.append_assoc] at same
  obtain ⟨year,rest⟩ := List.append_inj same years
  simp only [List.cons_append, List.cons.injEq, true_and] at rest
  obtain ⟨month,rest⟩ := List.append_inj rest months
  simp only [List.cons.injEq, true_and] at rest
  have same : d.year = d'.year ∧ d.month = d'.month ∧ d.day = d'.day :=
    ⟨paddedInjective year,paddedInjective month,paddedInjective rest⟩
  cases d
  cases d'
  simp only at same
  obtain ⟨rfl,rfl,rfl⟩ := same
  rfl

/- Different days and different base paths have different files. -/
theorem fullPathInjective {base base' : Text} {d d' : Date} (same : fullPath base d = fullPath base' d') :
    base = base' ∧ d = d' := by
  simp only [fullPath, List.append_cancel_right_eq] at same
  obtain ⟨bases,rest⟩ := List.append_inj' same (by simp [dateLength])
  exact ⟨bases,dateInjective (List.cons.inj rest).2⟩

theorem basePathInjective {logBasePath : Text} {k k' : Output} (same : k.basePath logBasePath = k'.basePath logBasePath) :
    k = k' := by
  cases k <;> cases k' <;> simp [Output.basePath] at same ⊢

/- The account of one appender: the day and whether the last attempt to open succeeded, every
entry it was passed with the day whose file has it, and how many entries came before the last
Flush. -/
structure Ledger where
  date : Date
  isOpen : Bool
  passed : List (Entry × Option Date)
  flushed : Nat

namespace Ledger

/- The file is opened again only when the day changes. -/
def rolled (l : Ledger) (today : Date) (opens : Bool) : Ledger :=
  if today ≠ l.date then { l with date := today, isOpen := opens } else l

def pass (l : Ledger) (e : Entry) (into : Option Date) : Ledger := { l with passed := l.passed ++ [(e,into)] }

def append (l : Ledger) (k : Output) (e : Entry) (today : Date) (opens : Bool) : Ledger :=
  if k.takes e.event then
    let l := l.rolled today opens
    l.pass e (if l.isOpen then some l.date else none)
  else l.pass e none

def operate (k : Output) (l : Ledger) : FileCall → Ledger
  | .append e today opens => l.append k e today opens
  | .flush => { l with flushed := l.passed.length }
  | .spill _ => l

def call (k : Output) (l : Ledger) (c : Output × FileCall) : Ledger := if c.1 = k then l.operate k c.2 else l

def calls (k : Output) (l : Ledger) (cs : List (Output × FileCall)) : Ledger := cs.foldl (call k) l

end Ledger

/- The lines that are in the file of day `d`. -/
def textOf (d : Date) (passed : List (Entry × Option Date)) : Text :=
  passed.flatMap (fun x => if x.2 = some d then x.1.line else [])

theorem textAppend (d : Date) (xs ys : List (Entry × Option Date)) : textOf d (xs ++ ys) = textOf d xs ++ textOf d ys :=
  List.flatMap_append

theorem textOne (d : Date) (e : Entry) (into : Option Date) : textOf d [(e,into)] = if into = some d then e.line else [] := by
  simp [textOf]

/- Appender `k` against its account: what its files held at first and its lines make up what
they hold now, with the buffer behind the file of the current day. -/
structure Accounted (logBasePath : Text) (disk : Disk) (k : Output) (w : Files) (l : Ledger) : Prop where
  base : (w.appender k).basePath = k.basePath logBasePath
  date : (w.appender k).currentDate = l.date
  opened : (w.appender k).isOpen = l.isOpen
  closed : l.isOpen = false → (w.appender k).buffer = []
  content : ∀ d, w.disk (fullPath (k.basePath logBasePath) d) ++ (if d = l.date then (w.appender k).buffer else []) =
    disk (fullPath (k.basePath logBasePath) d) ++ textOf d l.passed
  flushed : ∀ d, disk (fullPath (k.basePath logBasePath) d) ++ textOf d (l.passed.take l.flushed) <+:
    w.disk (fullPath (k.basePath logBasePath) d)
  bound : l.flushed ≤ l.passed.length

/- An operation on an appender, as far as the account of its files goes. -/
structure Written (f f' : FileAppender) (disk disk' : Disk) (d : Date) (more : Text) : Prop where
  base : f'.basePath = f.basePath
  grows : disk (fullPath f.basePath d) <+: disk' (fullPath f.basePath d)
  content : disk' (fullPath f.basePath d) ++ (if d = f'.currentDate then f'.buffer else []) =
    disk (fullPath f.basePath d) ++ (if d = f.currentDate then f.buffer else []) ++ more
  frame : ∀ base, base ≠ f.basePath → disk' (fullPath base d) = disk (fullPath base d)

theorem drainWritten (f : FileAppender) (disk : Disk) (n : Nat) (d : Date) :
    Written f (f.drain disk n).1 disk (f.drain disk n).2 d [] := by
  unfold FileAppender.drain
  split
  · refine ⟨rfl,?_,?_,fun base other => ?_⟩
    · simp only [Function.update_apply]
      split
      · rename_i same
        rw [FileAppender.path] at same
        rw [FileAppender.path, same]
        exact List.prefix_append _ _
      · exact List.prefix_refl _
    · by_cases today : d = f.currentDate
      · simp only [today, FileAppender.path, Function.update_self, if_true, List.append_nil, List.append_assoc,
          List.take_append_drop]
      · have other : fullPath f.basePath d ≠ f.path := fun same => today (fullPathInjective same).2
        simp only [if_neg today, Function.update_of_ne other, List.append_nil]
    · have apart : fullPath base d ≠ f.path := fun same => other (fullPathInjective same).1
      exact Function.update_of_ne apart _ _
  · exact ⟨rfl,List.prefix_refl _,by simp,fun _ _ => rfl⟩

theorem flushBuffer {f : FileAppender} {disk : Disk} (closed : f.isOpen = false → f.buffer = []) :
    (f.flush disk).1.buffer = [] := by
  unfold FileAppender.flush FileAppender.drain
  split
  · exact List.drop_length
  · rename_i shut
    exact closed (Bool.eq_false_iff.mpr shut)

theorem drainSame (f : FileAppender) (disk : Disk) (n : Nat) :
    (f.drain disk n).1.currentDate = f.currentDate ∧ (f.drain disk n).1.isOpen = f.isOpen ∧
      (f.buffer = [] → (f.drain disk n).1.buffer = []) := by
  unfold FileAppender.drain
  split
  · refine ⟨rfl,rfl,fun empty => ?_⟩
    rw [empty]
    exact List.drop_nil
  · exact ⟨rfl,rfl,fun empty => empty⟩

theorem rollWritten {f : FileAppender} (disk : Disk) (today : Date) (opens : Bool) (closed : f.isOpen = false → f.buffer = [])
    (d : Date) : Written f (f.checkRollOver disk today opens).1 disk (f.checkRollOver disk today opens).2 d [] := by
  have drained := drainWritten f disk f.buffer.length d
  have empty := @flushBuffer f disk closed
  unfold FileAppender.checkRollOver
  split
  · refine ⟨drained.base,drained.grows,?_,drained.frame⟩
    have content := drained.content
    simp only [FileAppender.flush] at empty
    simp only [empty, ite_self, List.append_nil] at content
    simp only [FileAppender.openNewLogFile, FileAppender.close, FileAppender.flush, empty, ite_self, List.append_nil]
    exact content
  · exact ⟨rfl,List.prefix_refl _,by rw [List.append_nil],fun _ _ => rfl⟩

/- The day and the stream behind CheckRollOver are those of the account. -/
theorem rollSame {f : FileAppender} {l : Ledger} (disk : Disk) (today : Date) (opens : Bool)
    (date : f.currentDate = l.date) (opened : f.isOpen = l.isOpen) (closed : f.isOpen = false → f.buffer = []) :
    (f.checkRollOver disk today opens).1.currentDate = (l.rolled today opens).date ∧
    (f.checkRollOver disk today opens).1.isOpen = (l.rolled today opens).isOpen ∧
    ((f.checkRollOver disk today opens).1.isOpen = false → (f.checkRollOver disk today opens).1.buffer = []) := by
  unfold FileAppender.checkRollOver Ledger.rolled
  rw [date]
  split
  · exact ⟨rfl,rfl,fun _ => flushBuffer closed⟩
  · exact ⟨date,opened,closed⟩

theorem appendWritten {f : FileAppender} {l : Ledger} (disk : Disk) (today : Date) (opens : Bool) (e : Entry)
    (date : f.currentDate = l.date) (opened : f.isOpen = l.isOpen) (closed : f.isOpen = false → f.buffer = []) (d : Date) :
    Written f (f.append disk today opens e).1 disk (f.append disk today opens e).2 d
      (textOf d [(e,if (l.rolled today opens).isOpen then some (l.rolled today opens).date else none)]) := by
  have rolled := rollWritten disk today opens closed d
  obtain ⟨sameDate,sameOpen,_⟩ := rollSame disk today opens date opened closed
  rw [textOne]
  by_cases isOpen : (f.checkRollOver disk today opens).1.isOpen = true
  · have shape : f.append disk today opens e = ({ (f.checkRollOver disk today opens).1 with
        buffer := (f.checkRollOver disk today opens).1.buffer ++ e.line },(f.checkRollOver disk today opens).2) :=
      if_pos isOpen
    have content := rolled.content
    rw [List.append_nil] at content
    rw [← sameOpen, if_pos isOpen, ← sameDate, shape]
    refine ⟨rolled.base,rolled.grows,?_,rolled.frame⟩
    rw [← content, List.append_assoc]
    congr 1
    by_cases now : d = (f.checkRollOver disk today opens).1.currentDate
    · rw [if_pos now, if_pos now, if_pos (congrArg some now.symm)]
    · have other : ¬ some (f.checkRollOver disk today opens).1.currentDate = some d :=
        fun same => now (Option.some.inj same).symm
      rw [if_neg now, if_neg now, if_neg other, List.append_nil]
  · have shape : f.append disk today opens e = f.checkRollOver disk today opens := if_neg isOpen
    rw [← sameOpen, if_neg isOpen, shape]
    exact rolled

theorem appendSame {f : FileAppender} {l : Ledger} (disk : Disk) (today : Date) (opens : Bool) (e : Entry)
    (date : f.currentDate = l.date) (opened : f.isOpen = l.isOpen) (closed : f.isOpen = false → f.buffer = []) :
    (f.append disk today opens e).1.currentDate = (l.rolled today opens).date ∧
    (f.append disk today opens e).1.isOpen = (l.rolled today opens).isOpen ∧
    ((f.append disk today opens e).1.isOpen = false → (f.append disk today opens e).1.buffer = []) := by
  obtain ⟨sameDate,sameOpen,empty⟩ := rollSame disk today opens date opened closed
  by_cases isOpen : (f.checkRollOver disk today opens).1.isOpen = true
  · have shape : f.append disk today opens e = ({ (f.checkRollOver disk today opens).1 with
        buffer := (f.checkRollOver disk today opens).1.buffer ++ e.line },(f.checkRollOver disk today opens).2) :=
      if_pos isOpen
    rw [shape]
    exact ⟨sameDate,sameOpen,fun shut => absurd (isOpen.symm.trans shut) (by decide)⟩
  · have shape : f.append disk today opens e = f.checkRollOver disk today opens := if_neg isOpen
    rw [shape]
    exact ⟨sameDate,sameOpen,empty⟩

section Calls
variable {logBasePath : Text} {disk : Disk} {k : Output} {w : Files} {l : Ledger}

/- An operation of the appender itself, which adds `more` to its account. -/
theorem accountedOwn (h : Accounted logBasePath disk k w l) {out : FileAppender × Disk} {date : Date} {isOpen : Bool}
    {more : List (Entry × Option Date)} (written : ∀ d, Written (w.appender k) out.1 w.disk out.2 d (textOf d more))
    (same : out.1.currentDate = date ∧ out.1.isOpen = isOpen ∧ (out.1.isOpen = false → out.1.buffer = [])) :
    Accounted logBasePath disk k (w.put k out) ⟨date,isOpen,l.passed ++ more,l.flushed⟩ := by
  obtain ⟨sameDate,sameOpen,closed⟩ := same
  have own : (w.put k out).appender k = out.1 := Function.update_self _ _ _
  refine ⟨?_,?_,?_,?_,fun d => ?_,fun d => ?_,?_⟩
  · rw [own, (written date).base, h.base]
  · rw [own, sameDate]
  · rw [own, sameOpen]
  · rw [own, ← sameOpen]
    exact closed
  · have content := (written d).content
    rw [h.base, h.date, h.content d, sameDate] at content
    rw [own, textAppend, ← List.append_assoc]
    exact content
  · rw [List.take_append_of_le_length h.bound]
    have grows := (written d).grows
    rw [h.base] at grows
    exact (h.flushed d).trans grows
  · rw [List.length_append]
    exact Nat.le_add_right_of_le h.bound

/- An operation of the other one leaves the files of this one alone. -/
theorem accountedOther (h : Accounted logBasePath disk k w l) {k' : Output} (other : k' ≠ k)
    (base : (w.appender k').basePath = k'.basePath logBasePath) {out : FileAppender × Disk}
    (written : ∀ d, ∃ more, Written (w.appender k') out.1 w.disk out.2 d more) : Accounted logBasePath disk k (w.put k' out) l := by
  have own : (w.put k' out).appender k = w.appender k := Function.update_of_ne other.symm _ _
  have apart : k.basePath logBasePath ≠ (w.appender k').basePath := by
    rw [base]
    exact fun same => other (basePathInjective same).symm
  have frame : ∀ d, (w.put k' out).disk (fullPath (k.basePath logBasePath) d) = w.disk (fullPath (k.basePath logBasePath) d) := by
    intro d
    obtain ⟨more,kept⟩ := written d
    exact kept.frame _ apart
  refine ⟨own ▸ h.base,own ▸ h.date,own ▸ h.opened,own ▸ h.closed,fun d => ?_,fun d => ?_,h.bound⟩
  · rw [own, frame]
    exact h.content d
  · rw [frame]
    exact h.flushed d

theorem drainOwn (h : Accounted logBasePath disk k w l) (n : Nat) :
    Accounted logBasePath disk k (w.put k ((w.appender k).drain w.disk n)) l := by
  obtain ⟨sameDate,sameOpen,empty⟩ := drainSame (w.appender k) w.disk n
  have written : ∀ d, Written (w.appender k) ((w.appender k).drain w.disk n).1 w.disk ((w.appender k).drain w.disk n).2 d
      (textOf d []) := drainWritten (w.appender k) w.disk n
  have own := accountedOwn h written
    ⟨sameDate.trans h.date,sameOpen.trans h.opened,fun shut => empty (h.closed (h.opened ▸ sameOpen ▸ shut))⟩
  rw [List.append_nil] at own
  exact own

/- Behind a Flush everything that was passed is in the files. -/
theorem flushOwn (h : Accounted logBasePath disk k w l) :
    Accounted logBasePath disk k (w.put k ((w.appender k).flush w.disk)) { l with flushed := l.passed.length } := by
  have drained := drainOwn h (w.appender k).buffer.length
  refine ⟨drained.base,drained.date,drained.opened,drained.closed,drained.content,fun d => ?_,Nat.le_refl _⟩
  have own : ((w.put k ((w.appender k).flush w.disk)).appender k).buffer = [] := by
    simp only [Files.put, Function.update_self]
    exact flushBuffer (fun shut => h.closed (h.opened ▸ shut))
  have content := drained.content d
  simp only [FileAppender.flush] at own
  rw [own, ite_self, List.append_nil] at content
  rw [List.take_length, ← content]
  exact List.prefix_refl _

theorem rolledPassed (l : Ledger) (today : Date) (opens : Bool) :
    (l.rolled today opens).passed = l.passed ∧ (l.rolled today opens).flushed = l.flushed := by
  unfold Ledger.rolled
  split <;> exact ⟨rfl,rfl⟩

theorem appendOwn (h : Accounted logBasePath disk k w l) (e : Entry) (today : Date) (opens : Bool) :
    Accounted logBasePath disk k (w.put k (k.append (w.appender k) w.disk today opens e)) (l.append k e today opens) := by
  have closed : (w.appender k).isOpen = false → (w.appender k).buffer = [] := fun shut => h.closed (h.opened ▸ shut)
  have taken : Accounted logBasePath disk k (w.put k ((w.appender k).append w.disk today opens e))
      ((l.rolled today opens).pass e (if (l.rolled today opens).isOpen then some (l.rolled today opens).date else none)) := by
    have own := accountedOwn h (appendWritten w.disk today opens e h.date h.opened closed)
      (appendSame w.disk today opens e h.date h.opened closed)
    obtain ⟨passed,flushed⟩ := rolledPassed l today opens
    rw [← passed, ← flushed] at own
    exact own
  have skipped : Accounted logBasePath disk k (w.put k (w.appender k,w.disk)) (l.pass e none) := by
    have nothing : ∀ d, Written (w.appender k) (w.appender k) w.disk w.disk d (textOf d [(e,none)]) :=
      fun d => ⟨rfl,List.prefix_refl _,by simp [textOne],fun _ _ => rfl⟩
    exact accountedOwn h nothing ⟨h.date,h.opened,closed⟩
  cases k with
  | file => exact taken
  | errorFile =>
    simp only [Output.append, ErrorFileAppender.append, Ledger.append, Output.takes, decide_eq_true_eq]
    split
    · exact taken
    · exact skipped

theorem operateOwn (h : Accounted logBasePath disk k w l) (c : FileCall) :
    Accounted logBasePath disk k (w.put k (w.operate k c)) (l.operate k c) := by
  cases c with
  | append e today opens => exact appendOwn h e today opens
  | flush => exact flushOwn h
  | spill n => exact drainOwn h n

theorem operateWritten (h : Accounted logBasePath disk k w l) (c : FileCall) (d : Date) :
    ∃ more, Written (w.appender k) (w.operate k c).1 w.disk (w.operate k c).2 d more := by
  have closed : (w.appender k).isOpen = false → (w.appender k).buffer = [] := fun shut => h.closed (h.opened ▸ shut)
  cases c with
  | append e today opens =>
    have taken := appendWritten w.disk today opens e h.date h.opened closed d
    cases k with
    | file => exact ⟨_,taken⟩
    | errorFile =>
      simp only [Files.operate, Output.append, ErrorFileAppender.append]
      split
      · exact ⟨_,taken⟩
      · exact ⟨[],rfl,List.prefix_refl _,by rw [List.append_nil],fun _ _ => rfl⟩
  | flush => exact ⟨_,drainWritten (w.appender k) w.disk _ d⟩
  | spill n => exact ⟨_,drainWritten (w.appender k) w.disk n d⟩

theorem accountedCall {ls : Output → Ledger} (h : ∀ k, Accounted logBasePath disk k w (ls k)) (c : Output × FileCall) (k : Output) :
    Accounted logBasePath disk k (w.call c) ((ls k).call k c) := by
  obtain ⟨k',c⟩ := c
  unfold Files.call Ledger.call
  by_cases own : k' = k
  · subst own
    rw [if_pos rfl]
    exact operateOwn (h k') c
  · rw [if_neg own]
    exact accountedOther (h k) own (h k').base (operateWritten (h k') c)

end Calls

def Ledger.start (today : Date) (opens : Bool) : Ledger := ⟨today,opens,[],0⟩

/- Whatever is done to the two appenders, in any order, on any days and with any failed opens:
the files of each hold what they held before and then, day by day and in order, the lines of
the entries it was passed while its stream was open, but for what is still in the buffer; and
everything passed before its last Flush is there. -/
theorem filesHold (logBasePath : Text) (disk : Disk) (today : Date) (opens : Output → Bool) (cs : List (Output × FileCall))
    (k : Output) (d : Date) :
    let w := (Files.init logBasePath disk today opens).calls cs
    let l := (Ledger.start today (opens k)).calls k cs
    let path := fullPath (k.basePath logBasePath) d
    w.disk path ++ (if d = l.date then (w.appender k).buffer else []) = disk path ++ textOf d l.passed ∧
      disk path ++ textOf d (l.passed.take l.flushed) <+: w.disk path := by
  have start : ∀ k, Accounted logBasePath disk k (Files.init logBasePath disk today opens) (Ledger.start today (opens k)) :=
    fun k => ⟨rfl,rfl,rfl,fun _ => rfl,fun d => congrArg _ (ite_self []),
      fun d => by rw [Ledger.start, List.take_nil, textOf, List.flatMap_nil, List.append_nil]; exact List.prefix_refl _,
      Nat.le_refl _⟩
  have all : ∀ (w : Files) (ls : Output → Ledger), (∀ k, Accounted logBasePath disk k w (ls k)) →
      ∀ k, Accounted logBasePath disk k (w.calls cs) ((ls k).calls k cs) := by
    induction cs with
    | nil => exact fun _ _ h => h
    | cons c cs ih => exact fun w ls h => ih (w.call c) (fun k => (ls k).call k c) (accountedCall h c)
  have h := all _ _ start k
  exact ⟨h.content d,h.flushed d⟩

/- The time of an event, as BuildLogMeta writes it: "%Y-%m-%d %H:%M:%S", then the milliseconds
with setw(3). -/
structure Moment where
  date : Date
  hour : Nat
  minute : Nat
  second : Nat
  millisecond : Nat
  hourFits : hour < 10 ^ 2
  minuteFits : minute < 10 ^ 2
  secondFits : second < 10 ^ 2
  millisecondFits : millisecond < 10 ^ 3
  deriving DecidableEq

namespace Moment

def clock (m : Moment) : Text :=
  padded 2 m.hour ++ ':' :: padded 2 m.minute ++ ':' :: padded 2 m.second ++ '.' :: padded 3 m.millisecond

def text (m : Moment) : Text := m.date.text ++ ' ' :: m.clock

theorem clockLength (m : Moment) : m.clock.length = 12 := by
  simp [clock, paddedLength (by decide) m.hourFits, paddedLength (by decide) m.minuteFits, paddedLength (by decide) m.secondFits,
    paddedLength (by decide) m.millisecondFits]

theorem textLength (m : Moment) : m.text.length = 23 := by
  rw [text, List.length_append, List.length_cons, dateLength, clockLength]

theorem clockInjective {m m' : Moment} (same : m.clock = m'.clock) :
    m.hour = m'.hour ∧ m.minute = m'.minute ∧ m.second = m'.second ∧ m.millisecond = m'.millisecond := by
  have two : ∀ {n n' : Nat}, n < 10 ^ 2 → n' < 10 ^ 2 → (padded 2 n).length = (padded 2 n').length :=
    fun fits fits' => by rw [paddedLength (by decide) fits, paddedLength (by decide) fits']
  simp only [clock, List.append_assoc] at same
  obtain ⟨hour,rest⟩ := List.append_inj same (two m.hourFits m'.hourFits)
  simp only [List.cons_append, List.cons.injEq, true_and] at rest
  obtain ⟨minute,rest⟩ := List.append_inj rest (two m.minuteFits m'.minuteFits)
  simp only [List.cons.injEq, true_and] at rest
  obtain ⟨second,rest⟩ := List.append_inj rest (two m.secondFits m'.secondFits)
  simp only [List.cons.injEq, true_and] at rest
  exact ⟨paddedInjective hour,paddedInjective minute,paddedInjective second,paddedInjective rest⟩

theorem textInjective {m m' : Moment} (same : m.text = m'.text) : m = m' := by
  obtain ⟨dates,rest⟩ := List.append_inj same (by rw [dateLength, dateLength])
  have date := dateInjective dates
  obtain ⟨hour,minute,second,millisecond⟩ := clockInjective (List.cons.inj rest).2
  cases m
  cases m'
  simp only at date hour minute second millisecond
  obtain ⟨rfl,rfl,rfl,rfl,rfl⟩ := And.intro date (And.intro hour (And.intro minute (And.intro second millisecond)))
  rfl

def entry (m : Moment) (event : LogEvent) : Entry := ⟨event,m.text⟩

end Moment

/- The names of the levels begin differently. -/
theorem levelApart {level level' : LogLevel} {xs ys : Text}
    (same : (levelToString level).toList ++ "] ".toList ++ xs = (levelToString level').toList ++ "] ".toList ++ ys) :
    level = level' ∧ xs = ys := by
  cases level <;> cases level' <;> simp [levelToString] at same ⊢ <;> exact same

/- The first '\n' ends both. -/
theorem lineEnds {xs ys us vs : Text} (flat : '\n' ∉ xs) (flat' : '\n' ∉ ys) (same : xs ++ '\n' :: us = ys ++ '\n' :: vs) :
    xs = ys ∧ us = vs := by
  induction xs generalizing ys with
  | nil =>
    cases ys with
    | nil => exact ⟨rfl,(List.cons.inj same).2⟩
    | cons y ys => exact absurd (List.cons.inj same).1 (List.ne_of_not_mem_cons flat')
  | cons x xs ih =>
    cases ys with
    | nil => exact absurd (List.cons.inj same).1.symm (List.ne_of_not_mem_cons flat)
    | cons y ys =>
      obtain ⟨head,tail⟩ := List.cons.inj same
      obtain ⟨rest,after⟩ := ih (List.not_mem_of_not_mem_cons flat) (List.not_mem_of_not_mem_cons flat') tail
      exact ⟨by rw [head, rest],after⟩

theorem lineInjective {m m' : Moment} {event event' : LogEvent} {rest rest' : Text} (flat : '\n' ∉ event.content.toList)
    (flat' : '\n' ∉ event'.content.toList) (same : (m.entry event).line ++ rest = (m'.entry event').line ++ rest') :
    (m,event) = (m',event') ∧ rest = rest' := by
  have shape : ∀ (m : Moment) (event : LogEvent) (rest : Text), (m.entry event).line ++ rest =
      '[' :: (m.text ++ ("] [".toList ++ ((levelToString event.level).toList ++ "] ".toList ++
        (event.content.toList ++ '\n' :: rest)))) := by
    intro m event rest
    simp only [Entry.line, Moment.entry, List.append_assoc, List.cons_append, List.nil_append]
  rw [shape, shape] at same
  obtain ⟨times,behind⟩ := List.append_inj (List.cons.inj same).2 (by rw [Moment.textLength, Moment.textLength])
  obtain ⟨level,behind⟩ := levelApart (List.append_cancel_left behind)
  obtain ⟨content,rests⟩ := lineEnds flat flat' behind
  have events : event = event' := by
    cases event
    cases event'
    simp only at level content
    rw [level, String.toList_inj.mp content]
  exact ⟨Prod.ext (Moment.textInjective times) events,rests⟩

def linesOf (es : List (Moment × LogEvent)) : Text := es.flatMap (fun x => (x.1.entry x.2).line)

/- A file is read in one way only: lists of events without line breaks that leave the same lines
are the same, with the same times. -/
theorem linesInjective {es es' : List (Moment × LogEvent)} (flat : ∀ x ∈ es, '\n' ∉ x.2.content.toList)
    (flat' : ∀ x ∈ es', '\n' ∉ x.2.content.toList) : linesOf es = linesOf es' ↔ es = es' := by
  refine ⟨fun same => ?_,congrArg linesOf⟩
  induction es generalizing es' with
  | nil =>
    cases es' with
    | nil => rfl
    | cons x' es' => simp [linesOf, Entry.line] at same
  | cons x es ih =>
    cases es' with
    | nil => simp [linesOf, Entry.line] at same
    | cons x' es' =>
      obtain ⟨heads,tails⟩ := lineInjective (flat x List.mem_cons_self) (flat' x' List.mem_cons_self) same
      have later := ih (fun y member => flat y (List.mem_cons_of_mem _ member))
        (fun y member => flat' y (List.mem_cons_of_mem _ member)) tails
      rw [later]
      exact congrArg (· :: es') heads

def midnight : Moment :=
  ⟨⟨2026,3,8,by decide,by decide,by decide⟩,0,0,0,0,by decide,by decide,by decide,by decide⟩

theorem linesApart : linesOf [(midnight,⟨.info,"up"⟩)] ≠ linesOf [(midnight,⟨.info,"up"⟩),(midnight,⟨.error,"down"⟩)] := by
  intro same
  have equal := (linesInjective (by decide) (by decide)).mp same
  simp at equal

/- A line break in an event reads like one more event. -/
example : linesOf [(midnight,⟨.info,"up\n[2026-03-08 00:00:00.000] [ERROR] down"⟩)] =
    linesOf [(midnight,⟨.info,"up"⟩),(midnight,⟨.error,"down"⟩)] := by decide +kernel

end TcFrame.Logger
