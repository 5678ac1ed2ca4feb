import TcFrame.Logger

/-! Whether Shutdown's notification reaches the log thread. As in the thread pool the flag
is stored and the notification sent without the mutex; and a producer that finds the flag
cleared does not notify either. -/
namespace TcFrame.Logger
open Machine

/- A call in these statements notifies before it returns. -/
def ProducerPc.notifies (minLevel : LogLevel) : ProducerPc → Bool
  | .idle | .testRunning _ => false
  | .testLevel event => decide (minLevel.value ≤ event.level.value)
  | .lock _ | .push _ | .unlock | .notify => true

/- Shutdown waits in join for the log thread, which is blocked with the flag cleared and no
notification to come. A producer in front of its test of the flag will return. -/
def Hung (w : World) : Prop :=
  w.stop = .join ∧ w.loop = .wait ∧ .logThread ∈ w.monitor.sleeping ∧ w.isRunning = false ∧
    ∀ i, (w.producers i).notifies w.minLevel = false

/- Shutdown notifies when the log thread does not stand between a false test and its
blocking. -/
def heard (w : World) (a : Action) : Prop := a = .stop → w.stop = .notify → w.loop ≠ .block

instance (w : World) (a : Action) : Decidable (heard w a) := by unfold heard; infer_instance

/- Where Shutdown stands with the flag cleared, and behind its notification. -/
def StopPc.closing : StopPc → Bool
  | .notify | .joinable | .join => true
  | _ => false

def StopPc.told : StopPc → Bool
  | .joinable | .join => true
  | _ => false

structure Told (w : World) : Prop where
  cleared : w.stop.closing = true → w.isRunning = false
  roused : w.stop.told = true → w.loop ≠ .block ∧ w.monitor.sleeping = []

theorem toldClosing {pc : StopPc} (told : pc.told = true) : pc.closing = true := by
  cases pc <;> first | rfl | cases told

/- Outside these statements there is nothing to show. -/
theorem toldElsewhere {w : World} (elsewhere : w.stop.closing = false) : Told w := by
  refine ⟨fun closing => ?_,fun told => ?_⟩
  · rw [elsewhere] at closing
    cases closing
  · rw [toldClosing told] at elsewhere
    cases elsewhere

/- With the flag cleared no test sends the log thread to sleep. -/
theorem loopRoused {w : World} {pc : LoopPc} {m : Monitor Agent} (moves : LoopMove w w.loop pc m)
    (cleared : w.isRunning = false) (awake : w.loop ≠ .block) (none : w.monitor.sleeping = []) :
    pc ≠ .block ∧ m.sleeping = [] := by
  generalize here : w.loop = old at moves awake
  cases moves with
  | vain runs =>
    rw [cleared] at runs
    cases runs
  | block => exact absurd rfl awake
  | _ => exact ⟨by simp,none⟩

theorem producerRoused {w : World} {i : ProducerId} {pc : ProducerPc} {m : Monitor Agent}
    (moves : ProducerMove w i (w.producers i) pc m) (none : w.monitor.sleeping = []) : m.sleeping = [] := by
  generalize w.producers i = old at moves
  cases moves with
  | notify => simp [Monitor.notifyOne, none]
  | _ => exact none

theorem toldStop {w : World} {pc : StopPc} {m : Monitor Agent} (h : Told w) (ok : heard w .stop)
    (moves : StopMove w w.stop pc m) : Told { w with monitor := m, stop := pc } := by
  generalize here : w.stop = old at moves
  cases moves with
  | notify => exact ⟨fun _ => h.cleared (by rw [here]; rfl),fun _ => ⟨ok rfl here,rfl⟩⟩
  | joinable => exact ⟨fun _ => h.cleared (by rw [here]; rfl),fun _ => h.roused (by rw [here]; rfl)⟩
  | alone | flushed | lock => exact toldElsewhere rfl

theorem toldStep {w w' : World} {a : Action} (h : Told w) (ok : heard w a) (taken : step w a = some w') : Told w' := by
  cases stepCases taken with
  | loopMove moves =>
    refine ⟨h.cleared,fun told => ?_⟩
    obtain ⟨awake,none⟩ := h.roused told
    exact loopRoused moves (h.cleared (toldClosing told)) awake none
  | producerMove moves => exact ⟨h.cleared,fun told => ⟨(h.roused told).1,producerRoused moves (h.roused told).2⟩⟩
  | stopMove moves => exact toldStop h ok moves
  | take | append | flush => exact ⟨h.cleared,fun told => ⟨by simp,(h.roused told).2⟩⟩
  | log | push => exact ⟨h.cleared,h.roused⟩
  | store => exact ⟨fun _ => rfl,fun told => nomatch told⟩
  | shutdown | join | flushAfter | clear | finish => exact toldElsewhere rfl

theorem toldInitialized (minLevel : LogLevel) (appenderNum : Nat) : Told (initialized minLevel appenderNum) :=
  toldElsewhere rfl

/- In a run in which Shutdown never notifies while the log thread stands between its test and
its blocking, Shutdown is never stuck in join. -/
theorem shutdownAnswered {minLevel : LogLevel} {appenderNum : Nat} {as : List Action} {w : World}
    (ok : Throughout step heard (initialized minLevel appenderNum) as)
    (reached : run step (initialized minLevel appenderNum) as = some w) : ¬ Hung w := by
  have told := invariantWhen (fun _ _ _ h fine taken => toldStep h fine taken) (toldInitialized _ _) ok reached
  rintro ⟨joins,_,asleep,_⟩
  rw [(told.roused (by rw [joins]; rfl)).2] at asleep
  cases asleep

/- The log thread is asleep when the notification comes. -/
def stopSleeping : List Action := [.logLoop,.logLoop,.logLoop,.shutdown,.stop,.stop,.stop]

theorem shutdownAnsweredAsleep :
    ∃ w, run step (initialized .debug 3) stopSleeping = some w ∧ w.stop = .join ∧ w.loop = .wait ∧ ¬ Hung w := by
  have ok : Throughout step heard (initialized .debug 3) stopSleeping := by decide
  have reached : ∃ w, run step (initialized .debug 3) stopSleeping = some w ∧ w.stop = .join ∧ w.loop = .wait :=
    ⟨_,rfl,rfl,rfl⟩
  obtain ⟨w,reached,joins,waits⟩ := reached
  exact ⟨w,reached,joins,waits,shutdownAnswered ok reached⟩

/- The same with store and notification between its test and its blocking. Nobody wakes the
log thread any more, whatever is logged later. -/
def stopParting : List Action := [.logLoop,.logLoop,.shutdown,.stop,.stop,.logLoop,.stop]

theorem shutdownUnanswered : ∃ w, run step (initialized .debug 3) stopParting = some w ∧ Hung w :=
  ⟨_,rfl,rfl,rfl,List.mem_cons_self,rfl,fun _ => rfl⟩

end TcFrame.Logger
