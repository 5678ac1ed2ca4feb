import TcFrame.LogFiles

/-! From the log calls to the files: the Appends and Flushes that the log thread and Shutdown
make, and what they leave on the disk. -/
namespace TcFrame.Logger
open Machine

/- What one step calls on an appender: Append with an event, or Flush. -/
def callMade (w : World) : Action → List (Nat × Option LogEvent)
  | .logLoop =>
    match w.loop with
    | .append event i => if i < w.appenderNum then [(i,some event)] else []
    | .flush i => if i < w.appenderNum then [(i,none)] else []
    | _ => []
  | .stop =>
    match w.stop with
    | .flush i => if i < w.appenderNum then [(i,none)] else []
    | _ => []
  | _ => []

def noteCalls (w : World) (a : Action) (_ : World) (made : List (Nat × Option LogEvent)) : List (Nat × Option LogEvent) :=
  made ++ callMade w a

/- What an appender has been passed, and how much of that in front of its last Flush. -/
structure Tally where
  events : List LogEvent
  flushed : Nat
  deriving DecidableEq, Repr

def Tally.count (i : Nat) (t : Tally) (c : Nat × Option LogEvent) : Tally :=
  if c.1 = i then
    match c.2 with
    | some event => { t with events := t.events ++ [event] }
    | none => { t with flushed := t.events.length }
  else t

def tally (i : Nat) (made : List (Nat × Option LogEvent)) : Tally := made.foldl (Tally.count i) ⟨[],0⟩

inductive Made (w : World) (a : Action) (w' : World) : Prop where
  | nothing (none_ : callMade w a = []) (received : w'.received = w.received) (flushed : w'.flushed = w.flushed)
  | append (i : Nat) (event : LogEvent) (one : callMade w a = [(i,some event)])
      (received : w'.received = (w.append i event).received) (flushed : w'.flushed = w.flushed)
  | flush (i : Nat) (one : callMade w a = [(i,none)]) (received : w'.received = w.received)
      (flushed : w'.flushed = (w.flush i).flushed)

theorem madeLoop {w w' : World} (taken : step w .logLoop = some w') : Made w .logLoop w' := by
  cases here : w.loop with
  | append event i =>
    simp only [step, logLoop, here] at taken
    split at taken <;> rename_i more <;> cases taken
    · exact .append i event (by simp [callMade, here, more]) rfl rfl
    · exact .nothing (by simp [callMade, here, more]) rfl rfl
  | flush i =>
    simp only [step, logLoop, here] at taken
    split at taken <;> rename_i more <;> cases taken
    · exact .flush i (by simp [callMade, here, more]) rfl rfl
    · exact .nothing (by simp [callMade, here, more]) rfl rfl
  | drain =>
    simp only [step, logLoop, here] at taken
    split at taken <;> cases taken <;> exact .nothing (by simp [callMade, here]) rfl rfl
  | lock | wait | relock =>
    simp only [step, logLoop, here] at taken
    split at taken <;> cases taken
    exact .nothing (by simp [callMade, here]) rfl rfl
  | exited => simp [step, logLoop, here] at taken
  | _ =>
    simp only [step, logLoop, here] at taken
    cases taken
    exact .nothing (by simp [callMade, here]) rfl rfl

theorem madeStop {w w' : World} (taken : step w .stop = some w') : Made w .stop w' := by
  cases here : w.stop with
  | flush i =>
    simp only [step, inShutdown, here] at taken
    split at taken <;> rename_i more <;> cases taken
    · exact .flush i (by simp [callMade, here, more]) rfl rfl
    · exact .nothing (by simp [callMade, here, more]) rfl rfl
  | idle => simp [step, inShutdown, here] at taken
  | join | lock =>
    simp only [step, inShutdown, here] at taken
    split at taken <;> cases taken
    exact .nothing (by simp [callMade, here]) rfl rfl
  | _ =>
    simp only [step, inShutdown, here] at taken
    cases taken
    exact .nothing (by simp [callMade, here]) rfl rfl

theorem madeCases {w w' : World} {a : Action} (taken : step w a = some w') : Made w a w' := by
  cases a with
  | logLoop => exact madeLoop taken
  | stop => exact madeStop taken
  | log i event =>
    cases stepCases taken
    exact .nothing rfl rfl rfl
  | shutdown =>
    cases stepCases taken
    exact .nothing rfl rfl rfl
  | produce i => cases stepCases taken <;> exact .nothing rfl rfl rfl

/- The calls account for what the model of the logger says of its appenders. -/
theorem tallied {minLevel : LogLevel} {n : Nat} {as : List Action} {w : World} {made : List (Nat × Option LogEvent)}
    (reached : run (recording step noteCalls) (initialized minLevel n,[]) as = some (w,made)) (i : Nat) :
    tally i made = ⟨w.received i,w.flushed i⟩ := by
  have keep : ∀ s a t k, tally i k = ⟨s.received i,s.flushed i⟩ → step s a = some t →
      tally i (noteCalls s a t k) = ⟨t.received i,t.flushed i⟩ := by
    intro s a t k before taken
    simp only [noteCalls, tally, List.foldl_append] at before ⊢
    rw [before]
    cases madeCases taken with
    | nothing none_ received flushed => rw [none_, received, flushed]; rfl
    | append j event one received flushed =>
      rw [one, received, flushed]
      simp only [List.foldl_cons, List.foldl_nil, Tally.count, World.append, Function.update_apply]
      by_cases same : j = i
      · rw [if_pos same, if_pos same.symm, same]
      · rw [if_neg same, if_neg (Ne.symm same)]
    | flush j one received flushed =>
      rw [one, received, flushed]
      simp only [List.foldl_cons, List.foldl_nil, Tally.count, World.flush, Function.update_apply]
      by_cases same : j = i
      · rw [if_pos same, if_pos same.symm, same]
      · rw [if_neg same, if_neg (Ne.symm same)]
  exact recordingInvariant keep rfl reached

/- A call on an appender with a file, as the logger makes it: without the day, the outcome of
an open and the time. What a stream does by itself is no call. -/
def bare (c : Output × FileCall) : Option (Nat × Option LogEvent) :=
  match c.2 with
  | .append e _ _ => some (c.1.index,some e.event)
  | .flush => some (c.1.index,none)
  | .spill _ => none

def FileCall.opens : FileCall → Bool
  | .append _ _ opens => opens
  | _ => true

/- The entry that a call passes to appender `k`, with the day on which the appender takes it. -/
def passedTo (k : Output) (c : Output × FileCall) : Option (Entry × Option Date) :=
  if c.1 = k then
    match c.2 with
    | .append e today _ => some (e,if k.takes e.event then some today else none)
    | _ => none
  else none

theorem indexInjective {k k' : Output} (same : k.index = k'.index) : k = k' := by
  cases k <;> cases k' <;> simp [Output.index] at same ⊢

theorem appendPassed (l : Ledger) (k : Output) (e : Entry) (today : Date) (opens : Bool) :
    (l.append k e today opens).passed.map (fun x => x.1.event) = l.passed.map (fun x => x.1.event) ++ [e.event] ∧
      (l.append k e today opens).flushed = l.flushed := by
  obtain ⟨passed,flushed⟩ := rolledPassed l today opens
  unfold Ledger.append
  split
  · simp only [Ledger.pass, passed, flushed, List.map_append, List.map_cons, List.map_nil, and_self]
  · simp only [Ledger.pass, List.map_append, List.map_cons, List.map_nil, and_self]

theorem ledgerTally (k : Output) (l : Ledger) (cs : List (Output × FileCall)) :
    (cs.filterMap bare).foldl (Tally.count k.index) ⟨l.passed.map (fun x => x.1.event),l.flushed⟩ =
      ⟨(l.calls k cs).passed.map (fun x => x.1.event),(l.calls k cs).flushed⟩ := by
  induction cs generalizing l with
  | nil => rfl
  | cons c cs ih =>
    obtain ⟨k',c⟩ := c
    have later := ih (l.call k (k',c))
    have folds : (l.calls k ((k',c) :: cs)) = (l.call k (k',c)).calls k cs := rfl
    rw [folds, ← later]
    by_cases own : k' = k
    · subst own
      cases c with
      | append e today opens =>
        obtain ⟨passed,flushed⟩ := appendPassed l k' e today opens
        simp only [bare, List.filterMap_cons, List.foldl_cons, Tally.count, Ledger.call, Ledger.operate, if_true, passed, flushed]
      | flush => simp only [bare, List.filterMap_cons, List.foldl_cons, Tally.count, Ledger.call, Ledger.operate, if_true, List.length_map]
      | spill n => simp only [bare, List.filterMap_cons, Ledger.call, Ledger.operate, if_true]
    · have apart : k'.index ≠ k.index := fun same => own (indexInjective same)
      cases c with
      | spill n => simp only [bare, List.filterMap_cons, Ledger.call, if_neg own]
      | _ => simp only [bare, List.filterMap_cons, List.foldl_cons, Tally.count, if_neg apart, Ledger.call, if_neg own]

/- The console's calls do not count for the others. -/
theorem tallyWithout {i : Nat} (other : i ≠ 0) (made : List (Nat × Option LogEvent)) :
    tally i (made.filter (fun c => c.1 ≠ 0)) = tally i made := by
  have each : ∀ t : Tally, (made.filter (fun c => c.1 ≠ 0)).foldl (Tally.count i) t = made.foldl (Tally.count i) t := by
    induction made with
    | nil => exact fun _ => rfl
    | cons c made ih =>
      intro t
      by_cases console : c.1 = 0
      · have apart : c.1 ≠ i := fun same => other (same.symm.trans console)
        rw [List.filter_cons_of_neg (by simp [console]), ih, List.foldl_cons, Tally.count, if_neg apart]
      · rw [List.filter_cons_of_pos (by simp [console]), List.foldl_cons, List.foldl_cons, ih]
  exact each _

/- While every open succeeds, each entry that the appender takes goes into the file of its day. -/
theorem passedOpen (k : Output) {l : Ledger} (isOpen : l.isOpen = true) {cs : List (Output × FileCall)}
    (opens : ∀ c ∈ cs, c.2.opens = true) : (l.calls k cs).passed = l.passed ++ cs.filterMap (passedTo k) := by
  induction cs generalizing l with
  | nil => exact (List.append_nil _).symm
  | cons c cs ih =>
    obtain ⟨k',c⟩ := c
    have here := opens _ List.mem_cons_self
    have stays : (l.call k (k',c)).isOpen = true := by
      unfold Ledger.call
      split
      · cases c with
        | append e today opened =>
          simp only [Ledger.operate, Ledger.append, Ledger.pass, Ledger.rolled]
          split <;> try split
          · exact here
          · exact isOpen
          · exact isOpen
        | _ => exact isOpen
      · exact isOpen
    have one : (l.call k (k',c)).passed = l.passed ++ (passedTo k (k',c)).toList := by
      unfold Ledger.call passedTo
      split
      · cases c with
        | append e today opened =>
          simp only [FileCall.opens] at here
          simp only [Ledger.operate, Ledger.append, Ledger.pass, Ledger.rolled, here]
          split
          · split
            · rfl
            · rename_i same
              rw [isOpen, not_not.mp same]
              rfl
          · rfl
        | _ => exact (List.append_nil _).symm
      · exact (List.append_nil _).symm
    have folds : l.calls k ((k',c) :: cs) = (l.call k (k',c)).calls k cs := rfl
    rw [folds, ih stays (fun c' member => opens c' (List.mem_cons_of_mem _ member)), one, List.append_assoc]
    congr 1
    cases found : passedTo k (k',c) with
    | none => rw [List.filterMap_cons_none found]; rfl
    | some x => rw [List.filterMap_cons_some found]; rfl

/- What the delivery invariant says of a run that keeps an account of the calls. -/
theorem deliveredCalls {minLevel : LogLevel} {n : Nat} {as : List Action} {w : World} {made : List (Nat × Option LogEvent)}
    (reached : run (recording step noteCalls) (initialized minLevel n,[]) as = some (w,made)) :
    (∀ a < n, w.received a <+: w.pushed) ∧
      (w.stopped = true → ∃ b, w.before = some b ∧ ∀ a < n, b <+: (w.received a).take (w.flushed a)) := by
  have keep : ∀ s a t (_ : List (Nat × Option LogEvent)), (∃ out, Delivered n out s ∧ Stopping out s) → step s a = some t →
      ∃ out, Delivered n out t ∧ Stopping out t := fun _ _ _ _ h taken => deliveryStep h taken
  obtain ⟨out,d,s⟩ := recordingInvariant keep (deliveryInitialized minLevel n) reached
  refine ⟨fun a small => receivedPrefix d small,fun stopped => ?_⟩
  have ended : w.loop = .exited := s.gone (.inr (.inr stopped))
  obtain ⟨b,first,known⟩ := s.closed (.inr ended)
  refine ⟨b,first,fun a small => ?_⟩
  have all : w.received a = out := by
    rw [d.received a small, ended]
    exact List.append_nil _
  rw [all, d.flushed a small (by rw [ended]; rfl), List.take_length]
  exact known

theorem textPrefix (d : Date) {xs ys : List (Entry × Option Date)} (h : xs <+: ys) : textOf d xs <+: textOf d ys := by
  obtain ⟨zs,rfl⟩ := h
  rw [textAppend]
  exact List.prefix_append _ _

/- From the log calls to the disk, for a logger as Init sets it up. Let `cs` be the calls on the
two appenders with files in the order they are made in, on whatever days, every open
succeeding. At any time each appender was passed a prefix of the pushed events, and the file of
a day holds, behind what it held before, no more than the lines of that day's events, in their
order, cut off somewhere. Once Shutdown has returned, the lines of all events pushed before it
was called are complete in their files. -/
theorem logOnDisk {minLevel : LogLevel} {as : List Action} {w : World} {made : List (Nat × Option LogEvent)}
    (reached : run (recording step noteCalls) (initialized minLevel 3,[]) as = some (w,made)) (logBasePath : Text)
    (disk : Disk) (today : Date) {cs : List (Output × FileCall)} (same : cs.filterMap bare = made.filter (fun c => c.1 ≠ 0))
    (opens : ∀ c ∈ cs, c.2.opens = true) (k : Output) (d : Date) :
    let files := (Files.init logBasePath disk today (fun _ => true)).calls cs
    let path := fullPath (k.basePath logBasePath) d
    let passed := cs.filterMap (passedTo k)
    passed.map (fun x => x.1.event) <+: w.pushed ∧
      (∃ more, more <+: textOf d passed ∧ files.disk path = disk path ++ more) ∧
      (w.stopped = true → ∃ b n, w.before = some b ∧ b <+: (passed.take n).map (fun x => x.1.event) ∧
        disk path ++ textOf d (passed.take n) <+: files.disk path) := by
  intro files path passed
  have small : k.index < 3 := by cases k <;> decide
  have notConsole : k.index ≠ 0 := by cases k <;> decide
  obtain ⟨received,stops⟩ := deliveredCalls reached
  obtain ⟨content,flushed⟩ := filesHold logBasePath disk today (fun _ => true) cs k d
  have ledger := ledgerTally k (Ledger.start today true) cs
  rw [same] at ledger
  have count := (tallyWithout notConsole made).trans (tallied reached k.index)
  have start : (Ledger.start today true).passed.map (fun x => x.1.event) = [] := rfl
  rw [start] at ledger
  have both := ledger.symm.trans count
  have all : ((Ledger.start today true).calls k cs).passed = passed := passedOpen k rfl opens
  rw [all] at content flushed both
  obtain ⟨events,number⟩ := Tally.mk.inj both
  refine ⟨events ▸ received k.index small,?_,fun stopped => ?_⟩
  · have here : disk path <+: files.disk path := (List.prefix_append _ _).trans flushed
    obtain ⟨more,there⟩ := here
    refine ⟨more,?_,there.symm⟩
    rw [← there, List.append_assoc, List.append_cancel_left_eq] at content
    exact ⟨_,content⟩
  · obtain ⟨b,first,known⟩ := stops stopped
    have into := known k.index small
    rw [← events, ← number, ← List.map_take] at into
    exact ⟨b,_,first,into,flushed⟩

/- Two events, the second one an error, and midnight between their Appends. -/
def logBoth : List Action :=
  [info 0 "up"] ++ List.replicate 6 (.produce 0) ++ [error 1 "down"] ++ List.replicate 6 (.produce 1) ++
    [.shutdown,.stop,.stop] ++ List.replicate 27 .logLoop ++ List.replicate 9 .stop

def evening : Date := ⟨2026,3,7,Nat.le_of_ble_eq_true rfl,Nat.le_of_ble_eq_true rfl,Nat.le_of_ble_eq_true rfl⟩
def morning : Date := ⟨2026,3,8,Nat.le_of_ble_eq_true rfl,Nat.le_of_ble_eq_true rfl,Nat.le_of_ble_eq_true rfl⟩

def bothCalls : List (Output × FileCall) :=
  let up : Entry := ⟨⟨.info,"up"⟩,"23:59:59.999".toList⟩
  let down : Entry := ⟨⟨.error,"down"⟩,"00:00:00.000".toList⟩
  [(.file,.append up evening true),(.errorFile,.append up evening true),(.file,.spill 4),
    (.file,.append down morning true),(.errorFile,.append down morning true),(.file,.flush),(.errorFile,.flush),
    (.file,.flush),(.errorFile,.flush)]

theorem logOnDiskBoth : ∃ w made, run (recording step noteCalls) (initialized .info 3,[]) logBoth = some (w,made) ∧
    ∃ b n, w.before = some b ∧ b <+: ((bothCalls.filterMap (passedTo .errorFile)).take n).map (fun x => x.1.event) ∧
      textOf morning ((bothCalls.filterMap (passedTo .errorFile)).take n) <+:
        ((Files.init [] (fun _ => []) evening (fun _ => true)).calls bothCalls).disk (fullPath "/tcframe.error".toList morning) := by
  have reached : ∃ w made, run (recording step noteCalls) (initialized .info 3,[]) logBoth = some (w,made) ∧ w.stopped = true ∧
      bothCalls.filterMap bare = made.filter (fun c => c.1 ≠ 0) := ⟨_,_,rfl,rfl,rfl⟩
  obtain ⟨w,made,reached,stopped,same⟩ := reached
  exact ⟨w,made,reached,(logOnDisk reached [] (fun _ => []) evening same (by decide) .errorFile morning).2.2 stopped⟩

end TcFrame.Logger
