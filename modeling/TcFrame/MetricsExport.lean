import TcFrame.Machine
import Mathlib.Logic.Function.Basic
import Mathlib.Data.List.Infix

/-! ExportPrometheusMetrics against those who read the file. The payload goes to a temporary
file, and a rename puts it in the place of the old one. Every partial write, every failure,
the end of the process in the middle of it and every piece that a reader takes is a step. -/
namespace TcFrame.MetricsExport

abbrev Text := List Char

/- A name leads to a file, which stays what it is for those who have it open when the name is
given to another one. `next` numbers the files. -/
structure FileSystem where
  dir : Text → Option Nat
  data : Nat → Text
  next : Nat

namespace FileSystem

/- Opening with ios::trunc: the file is emptied, or made. -/
def openTruncated (fs : FileSystem) (path : Text) : FileSystem × Nat :=
  match fs.dir path with
  | some ino => ({ fs with data := Function.update fs.data ino [] },ino)
  | none => (⟨Function.update fs.dir path (some fs.next),Function.update fs.data fs.next [],fs.next + 1⟩,fs.next)

def write (fs : FileSystem) (ino : Nat) (text : Text) : FileSystem :=
  { fs with data := Function.update fs.data ino (fs.data ino ++ text) }

def rename (fs : FileSystem) (old new : Text) : FileSystem :=
  { fs with dir := Function.update (Function.update fs.dir new (fs.dir old)) old none }

end FileSystem

/- Where ExportPrometheusMetrics stands: `rest` is still to be written, `bad` is the badbit of
the stream. -/
inductive Pc where
  | idle
  | writing (ino : Nat) (payload rest : Text) (bad : Bool)
  | closed (ino : Nat) (payload : Text)
  deriving DecidableEq, Repr

/- A file that somebody has open, and what came out of it so far. -/
structure Reader where
  ino : Nat
  got : Text
  deriving DecidableEq, Repr

/- `exported` are the payloads of the exports so far. -/
structure World where
  enabled : Bool
  path : Text
  fs : FileSystem
  pc : Pc
  readers : Nat → Option Reader
  exported : List Text

inductive Action where
  | exportMetrics (payload : Text) (opens : Bool)
  | write (n : Nat)
  | writeFails
  | close
  | rename (succeeds : Bool)
  | crash
  | openFile (r : Nat)
  | read (r n : Nat)

def tmpPath (w : World) : Text := w.path ++ ".tmp".toList

/- A stream that is bad takes no more. Neither the writes nor close() are looked at. -/
def step (w : World) : Action → Option World
  | .exportMetrics payload opens =>
    if w.pc ≠ .idle then none
    else if !w.enabled || w.path.isEmpty || !opens then some w
    else
      let out := w.fs.openTruncated (tmpPath w)
      some { w with fs := out.1, pc := .writing out.2 payload payload false, exported := w.exported ++ [payload] }
  | .write n =>
    match w.pc with
    | .writing ino payload rest false =>
      some { w with fs := w.fs.write ino (rest.take n), pc := .writing ino payload (rest.drop n) false }
    | _ => none
  | .writeFails =>
    match w.pc with
    | .writing ino payload rest false => some { w with pc := .writing ino payload rest true }
    | _ => none
  | .close =>
    match w.pc with
    | .writing ino payload rest bad => if rest = [] ∨ bad = true then some { w with pc := .closed ino payload } else none
    | _ => none
  | .rename succeeds =>
    match w.pc with
    | .closed _ _ => some { w with fs := if succeeds then w.fs.rename (tmpPath w) w.path else w.fs, pc := .idle }
    | _ => none
  | .crash => some { w with pc := .idle }
  | .openFile r => some { w with readers := Function.update w.readers r ((w.fs.dir w.path).map (fun ino => ⟨ino,[]⟩)) }
  | .read r n =>
    (w.readers r).map (fun x =>
      { w with readers := Function.update w.readers r
                 (some { x with got := x.got ++ ((w.fs.data x.ino).drop x.got.length).take n }) })

/- Any files that are there, with the temporary name not on the file itself. -/
structure Initial (w : World) : Prop where
  pc : w.pc = .idle
  readers : ∀ r, w.readers r = none
  exported : w.exported = []
  known : ∀ path ino, w.fs.dir path = some ino → ino < w.fs.next
  apart : ∀ ino, w.fs.dir w.path = some ino → w.fs.dir (tmpPath w) ≠ some ino

theorem tmpApart (w : World) : tmpPath w ≠ w.path := by
  intro same
  have lengths := congrArg List.length same
  simp [tmpPath] at lengths

/- What a file may hold that readers can have: the content there was at first, or what is
allowed of the payload of some export. -/
def Whole (first : Option Text) (allowed : Text → Text → Prop) (exported : List Text) (text : Text) : Prop :=
  first = some text ∨ ∃ payload ∈ exported, allowed text payload

/- A file that has the name, or that a reader has open. -/
def Visible (w : World) (ino : Nat) : Prop :=
  w.fs.dir w.path = some ino ∨ ∃ r x, w.readers r = some x ∧ x.ino = ino

inductive PcSound (allowed : Text → Text → Prop) (w : World) : Pc → Prop where
  | idle : PcSound allowed w .idle
  | writing {ino payload rest bad} (named : w.fs.dir (tmpPath w) = some ino) (exported : payload ∈ w.exported)
      (cut : w.fs.data ino ++ rest = payload) (failed : bad = true → ∀ t p, t <+: p → allowed t p) :
      PcSound allowed w (.writing ino payload rest bad)
  | closed {ino payload} (named : w.fs.dir (tmpPath w) = some ino) (exported : payload ∈ w.exported)
      (complete : allowed (w.fs.data ino) payload) : PcSound allowed w (.closed ino payload)

structure Sound (first : Option Text) (allowed : Text → Text → Prop) (w : World) : Prop where
  visible : ∀ ino, Visible w ino →
    ino < w.fs.next ∧ Whole first allowed w.exported (w.fs.data ino) ∧ w.fs.dir (tmpPath w) ≠ some ino
  got : ∀ r x, w.readers r = some x → x.got <+: w.fs.data x.ino
  tmp : ∀ ino, w.fs.dir (tmpPath w) = some ino → ino < w.fs.next
  pc : PcSound allowed w w.pc

variable {first : Option Text} {allowed : Text → Text → Prop}

theorem wholeMore {exported more : List Text} {text : Text} (h : Whole first allowed exported text) :
    Whole first allowed (exported ++ more) text := by
  rcases h with old | ⟨payload,member,ok⟩
  · exact .inl old
  · exact .inr ⟨payload,List.mem_append_left _ member,ok⟩

/- The file that is opened is nobody else's: it had the temporary name, or is new. -/
theorem openedFresh {fs : FileSystem} {path : Text} (known : ∀ ino, fs.dir path = some ino → ino < fs.next) :
    (fs.openTruncated path).1.dir path = some (fs.openTruncated path).2 ∧
    (∀ other, other ≠ path → (fs.openTruncated path).1.dir other = fs.dir other) ∧
    (fs.openTruncated path).1.data (fs.openTruncated path).2 = [] ∧
    (fs.openTruncated path).2 < (fs.openTruncated path).1.next ∧ fs.next ≤ (fs.openTruncated path).1.next ∧
    ∀ i, i < fs.next → fs.dir path ≠ some i →
      i ≠ (fs.openTruncated path).2 ∧ (fs.openTruncated path).1.data i = fs.data i := by
  unfold FileSystem.openTruncated
  cases found : fs.dir path with
  | some ino =>
    refine ⟨found,fun _ _ => rfl,Function.update_self _ _ _,known ino found,Nat.le_refl _,fun i _ other => ?_⟩
    have apart : i ≠ ino := fun same => other (congrArg some same.symm)
    exact ⟨apart,Function.update_of_ne apart _ _⟩
  | none =>
    refine ⟨Function.update_self _ _ _,fun other apart => Function.update_of_ne apart _ _,Function.update_self _ _ _,
      Nat.lt_succ_self _,Nat.le_succ _,fun i old _ => ?_⟩
    have apart : i ≠ fs.next := Nat.ne_of_lt old
    exact ⟨apart,Function.update_of_ne apart _ _⟩

theorem soundExport {w : World} (h : Sound first allowed w) (payload : Text) :
    Sound first allowed { w with
      fs := (w.fs.openTruncated (tmpPath w)).1
      pc := .writing (w.fs.openTruncated (tmpPath w)).2 payload payload false
      exported := w.exported ++ [payload] } := by
  obtain ⟨named,others,empty,below,grows,kept⟩ := openedFresh h.tmp
  have keeps : ∀ ino, Visible w ino → ino ≠ (w.fs.openTruncated (tmpPath w)).2 ∧
      (w.fs.openTruncated (tmpPath w)).1.data ino = w.fs.data ino := by
    intro ino seen
    obtain ⟨old,_,apart⟩ := h.visible ino seen
    exact kept ino old apart
  have same : ∀ ino, Visible { w with
      fs := (w.fs.openTruncated (tmpPath w)).1
      pc := .writing (w.fs.openTruncated (tmpPath w)).2 payload payload false
      exported := w.exported ++ [payload] } ino → Visible w ino := by
    intro ino seen
    rcases seen with file | reader
    · exact .inl ((others w.path (tmpApart w).symm).symm.trans file)
    · exact .inr reader
  refine ⟨fun ino seen => ?_,fun r x found => ?_,fun ino found => ?_,?_⟩
  · obtain ⟨old,whole,_⟩ := h.visible ino (same ino seen)
    obtain ⟨apart,data⟩ := keeps ino (same ino seen)
    refine ⟨Nat.lt_of_lt_of_le old grows,?_,fun taken => apart (Option.some.inj (taken.symm.trans named))⟩
    simp only [data]
    exact wholeMore whole
  · simp only [(keeps x.ino (.inr ⟨r,x,found,rfl⟩)).2]
    exact h.got r x found
  · rw [Option.some.inj (found.symm.trans named)]
    exact below
  · refine .writing named (List.mem_append_right _ (List.mem_singleton_self _)) ?_ (fun bad => nomatch bad)
    simp only [empty, List.nil_append]

/- Only the file with the temporary name is written, which no reader has. -/
theorem soundWrite {w : World} (h : Sound first allowed w) {ino : Nat} {payload rest : Text} (n : Nat)
    (here : w.pc = .writing ino payload rest false) :
    Sound first allowed { w with
      fs := w.fs.write ino (rest.take n)
      pc := .writing ino payload (rest.drop n) false } := by
  have pc := h.pc
  rw [here] at pc
  cases pc with
  | writing named exported cut _ =>
    have kept : ∀ i, Visible w i → (w.fs.write ino (rest.take n)).data i = w.fs.data i := by
      intro i seen
      have apart : i ≠ ino := fun same => (h.visible i seen).2.2 (same ▸ named)
      exact Function.update_of_ne apart _ _
    refine ⟨fun i seen => ?_,fun r x found => ?_,h.tmp,.writing named exported ?_ (fun bad => nomatch bad)⟩
    · obtain ⟨old,whole,apart⟩ := h.visible i seen
      exact ⟨old,(kept i seen).symm ▸ whole,apart⟩
    · rw [kept x.ino (.inr ⟨r,x,found,rfl⟩)]
      exact h.got r x found
    · simp only [FileSystem.write, Function.update_self, List.append_assoc, List.take_append_drop]
      exact cut

theorem soundClose {w : World} (h : Sound first allowed w) (all : ∀ t, allowed t t) {ino : Nat} {payload rest : Text} {bad : Bool}
    (here : w.pc = .writing ino payload rest bad) (done : rest = [] ∨ bad = true) :
    Sound first allowed { w with pc := .closed ino payload } := by
  have pc := h.pc
  rw [here] at pc
  cases pc with
  | writing named exported cut failed =>
    refine ⟨h.visible,h.got,h.tmp,.closed named exported ?_⟩
    rcases done with empty | broke
    · rw [empty, List.append_nil] at cut
      rw [cut]
      exact all payload
    · exact failed broke _ _ ⟨rest,cut⟩

theorem soundRename {w : World} (h : Sound first allowed w) {ino : Nat} {payload : Text} (here : w.pc = .closed ino payload) :
    Sound first allowed { w with fs := w.fs.rename (tmpPath w) w.path, pc := .idle } := by
  have pc := h.pc
  rw [here] at pc
  cases pc with
  | closed named exported complete =>
    have path : (w.fs.rename (tmpPath w) w.path).dir w.path = some ino := by
      simp only [FileSystem.rename, Function.update_of_ne (tmpApart w).symm, Function.update_self, named]
    have gone : (w.fs.rename (tmpPath w) w.path).dir (tmpPath w) = none := Function.update_self _ _ _
    refine ⟨fun i seen => ⟨?_,?_,?_⟩,h.got,fun i found => ?_,.idle⟩
    · rcases seen with file | reader
      · rw [← Option.some.inj (path.symm.trans file)]
        exact h.tmp ino named
      · exact (h.visible i (.inr reader)).1
    · rcases seen with file | reader
      · rw [← Option.some.inj (path.symm.trans file)]
        exact .inr ⟨payload,exported,complete⟩
      · exact (h.visible i (.inr reader)).2.1
    · intro found
      cases gone.symm.trans found
    · cases gone.symm.trans found

theorem pcReaders {w : World} {pc : Pc} (readers : Nat → Option Reader) (h : PcSound allowed w pc) :
    PcSound allowed { w with readers := readers } pc := by
  cases h with
  | idle => exact .idle
  | writing named exported cut failed => exact .writing named exported cut failed
  | closed named exported complete => exact .closed named exported complete

theorem soundOpen {w : World} (h : Sound first allowed w) (r : Nat) :
    Sound first allowed { w with readers := Function.update w.readers r ((w.fs.dir w.path).map (fun ino => ⟨ino,[]⟩)) } := by
  refine ⟨fun i seen => h.visible i ?_,fun r' x found => ?_,h.tmp,pcReaders _ h.pc⟩
  · rcases seen with file | ⟨r',x,found,here⟩
    · exact .inl file
    · simp only [Function.update_apply] at found
      split at found
      · obtain ⟨ino,file,made⟩ := Option.map_eq_some_iff.mp found
        subst made
        exact .inl (here ▸ file)
      · exact .inr ⟨r',x,found,here⟩
  · simp only [Function.update_apply] at found
    split at found
    · obtain ⟨ino,_,made⟩ := Option.map_eq_some_iff.mp found
      subst made
      exact List.nil_prefix
    · exact h.got r' x found

theorem soundRead {w : World} (h : Sound first allowed w) {r : Nat} {x : Reader} (n : Nat) (here : w.readers r = some x) :
    Sound first allowed { w with
      readers := Function.update w.readers r (some { x with got := x.got ++ ((w.fs.data x.ino).drop x.got.length).take n }) } := by
  refine ⟨fun i seen => h.visible i ?_,fun r' x' found => ?_,h.tmp,pcReaders _ h.pc⟩
  · rcases seen with file | ⟨r',x',found,own⟩
    · exact .inl file
    · simp only [Function.update_apply] at found
      split at found
      · cases Option.some.inj found
        exact .inr ⟨r,x,here,own⟩
      · exact .inr ⟨r',x',found,own⟩
  · simp only [Function.update_apply] at found
    split at found
    · cases Option.some.inj found
      obtain ⟨rest,whole⟩ := h.got r x here
      refine ⟨rest.drop n,?_⟩
      simp only [← whole, List.drop_left, List.append_assoc, List.take_append_drop]
    · exact h.got r' x' found

/- A write may fail only where a cut payload is allowed. -/
def Bears (allowed : Text → Text → Prop) (a : Action) : Prop := a = .writeFails → ∀ t p, t <+: p → allowed t p

theorem soundStep (all : ∀ t, allowed t t) {w w' : World} {a : Action} (h : Sound first allowed w) (bears : Bears allowed a)
    (taken : step w a = some w') : Sound first allowed w' := by
  cases a with
  | exportMetrics payload opens =>
    obtain ⟨_,taken⟩ := Option.ite_none_left_eq_some.mp taken
    split at taken <;> cases Option.some.inj taken
    · exact h
    · exact soundExport h payload
  | write n =>
    simp only [step] at taken
    split at taken <;> cases taken
    rename_i ino payload rest here
    exact soundWrite h n here
  | writeFails =>
    simp only [step] at taken
    split at taken <;> cases taken
    rename_i ino payload rest here
    have pc := h.pc
    rw [here] at pc
    cases pc with
    | writing named exported cut _ => exact ⟨h.visible,h.got,h.tmp,.writing named exported cut (fun _ => bears rfl)⟩
  | close =>
    simp only [step] at taken
    split at taken
    · rename_i ino payload rest bad here
      obtain ⟨done,taken⟩ := Option.ite_none_right_eq_some.mp taken
      cases Option.some.inj taken
      exact soundClose h all here done
    · cases taken
  | rename succeeds =>
    simp only [step] at taken
    split at taken
    · rename_i ino payload here
      cases Option.some.inj taken
      cases succeeds with
      | true => exact soundRename h here
      | false => exact ⟨h.visible,h.got,h.tmp,.idle⟩
    · cases taken
  | crash =>
    cases Option.some.inj taken
    exact ⟨h.visible,h.got,h.tmp,.idle⟩
  | openFile r =>
    cases Option.some.inj taken
    exact soundOpen h r
  | read r n =>
    obtain ⟨x,here,made⟩ := Option.map_eq_some_iff.mp taken
    subst made
    exact soundRead h n here

theorem soundInitial {w : World} (h : Initial w) : Sound ((w.fs.dir w.path).map w.fs.data) allowed w := by
  refine ⟨fun ino seen => ?_,fun r x found => ?_,fun ino found => h.known _ ino found,h.pc ▸ .idle⟩
  · rcases seen with file | ⟨r,x,found,_⟩
    · exact ⟨h.known _ ino file,.inl (by rw [file]; rfl),h.apart ino file⟩
    · rw [h.readers r] at found
      cases found
  · rw [h.readers r] at found
    cases found

/- Who opens the exported file and reads it, in any pieces and while exports go on, fail or are
cut off by a crash, gets no more than what was there at first or the payload of one export:
never two of them mixed. As long as no write has failed the file that is open holds it
completely; so a payload is cut off only behind a failed write, which ExportPrometheusMetrics
does not look for. -/
theorem readersSeeWhole {w w' : World} {as : List Action} (start : Initial w) (reached : Machine.run step w as = some w')
    {r : Nat} {x : Reader} (here : w'.readers r = some x) :
    (∃ whole, ((w.fs.dir w.path).map w.fs.data = some whole ∨ whole ∈ w'.exported) ∧ x.got <+: whole) ∧
      ((∀ a ∈ as, a ≠ .writeFails) →
        ((w.fs.dir w.path).map w.fs.data = some (w'.fs.data x.ino) ∨ w'.fs.data x.ino ∈ w'.exported) ∧
          x.got <+: w'.fs.data x.ino) := by
  have cut : Sound ((w.fs.dir w.path).map w.fs.data) (fun t p => t <+: p) w' :=
    Machine.invariant (fun _ _ _ h taken => soundStep List.prefix_refl h (fun _ _ _ ok => ok) taken) (soundInitial start) reached
  have got := cut.got r x here
  refine ⟨?_,fun sane => ?_⟩
  · rcases (cut.visible x.ino (.inr ⟨r,x,here,rfl⟩)).2.1 with old | ⟨payload,member,part⟩
    · exact ⟨_,.inl old,got⟩
    · exact ⟨payload,.inr member,got.trans part⟩
  · have never : Machine.Throughout step (fun _ a => Bears (fun t p => t = p) a) w as :=
      Machine.throughoutEach reached (fun bs a cs m n same _ _ fails => absurd fails (sane a (by rw [same]; simp)))
    have complete : Sound ((w.fs.dir w.path).map w.fs.data) (fun t p => t = p) w' :=
      Machine.invariantWhen (fun _ _ _ h bears taken => soundStep (fun _ => rfl) h bears taken) (soundInitial start) never reached
    refine ⟨?_,got⟩
    rcases (complete.visible x.ino (.inr ⟨r,x,here,rfl⟩)).2.1 with old | ⟨payload,member,same⟩
    · exact .inl old
    · exact .inr (same ▸ member)

/- A reader takes the old file in two pieces while an export passes by; another one comes later. -/
def oldFile : World :=
  { enabled := true
    path := ['m']
    fs := ⟨fun path => if path = ['m'] then some 0 else none,fun _ => "old".toList,1⟩
    pc := .idle
    readers := fun _ => none
    exported := [] }

def passing : List Action :=
  [.openFile 0,.exportMetrics "new".toList true,.write 1,.read 0 1,.write 9,.close,.rename true,.openFile 1,.read 1 9,.read 0 9]

theorem oldFileInitial : Initial oldFile := by
  refine ⟨rfl,fun _ => rfl,rfl,fun path ino found => ?_,fun ino found => ?_⟩
  · obtain ⟨_,same⟩ := Option.ite_none_right_eq_some.mp found
    cases Option.some.inj same
    exact Nat.zero_lt_one
  · have none_ : oldFile.fs.dir (tmpPath oldFile) = none := by decide
    rw [none_]
    exact fun same => nomatch same

theorem readersSeeWholePassing : ∃ w x, Machine.run step oldFile passing = some w ∧ w.readers 0 = some x ∧
    x.got = "old".toList ∧ (some "old".toList = some (w.fs.data x.ino) ∨ w.fs.data x.ino ∈ w.exported) := by
  have reached : ∃ w x, Machine.run step oldFile passing = some w ∧ w.readers 0 = some x ∧ x.got = "old".toList ∧
      (oldFile.fs.dir oldFile.path).map oldFile.fs.data = some "old".toList := ⟨_,_,rfl,rfl,rfl,rfl⟩
  obtain ⟨w,x,reached,here,got,first⟩ := reached
  have sane : ∀ a ∈ passing, a ≠ .writeFails := by simp [passing]
  have whole := ((readersSeeWhole oldFileInitial reached here).2 sane).1
  rw [first] at whole
  exact ⟨w,x,reached,here,got,whole⟩

/- The rename does not ask whether the write failed. -/
example : ((Machine.run step oldFile [.exportMetrics "new".toList true,.write 1,.writeFails,.close,.rename true]).bind
    (fun w => (w.fs.dir w.path).map w.fs.data)) = some "n".toList := by decide

end TcFrame.MetricsExport
