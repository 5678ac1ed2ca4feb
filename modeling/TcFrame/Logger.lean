import TcFrame.Machine
import TcFrame.Monitor

/-! The asynchronous logger after Init: the log thread in LogLoop, any producers in Debug,
Info, Warn, Error and Fatal, and a thread in Shutdown. Taking and giving back the mutex,
testing the predicate, blocking, the accesses to the flag, each Append and each Flush and
the notifications are steps of their own. -/
namespace TcFrame.Logger

inductive LogLevel where
  | debug
  | info
  | warn
  | error
  | fatal
  deriving DecidableEq, Repr

def LogLevel.value : LogLevel → Nat
  | .debug => 0
  | .info => 1
  | .warn => 2
  | .error => 3
  | .fatal => 4

structure LogEvent where
  level : LogLevel
  content : String
  deriving DecidableEq, Repr

abbrev ProducerId := Nat

/- Whoever takes m_queue_mtx. -/
inductive Agent where
  | logThread
  | stopper
  | producer (i : ProducerId)
  deriving DecidableEq, Repr

/- Where the log thread stands in LogLoop. -/
inductive LoopPc where
  | lock                                 -- the constructor of unique_lock
  | test                                 -- the predicate of m_cv.wait
  | block                                -- the predicate was false
  | wait                                 -- asleep in m_cv.wait, or woken and without the mutex
  | check                                -- the test in front of break
  | drain                                -- the test of the inner while, front() and pop()
  | unlock (event : LogEvent)
  | append (event : LogEvent) (i : Nat)  -- in front of the Append of appender i
  | relock
  | flush (i : Nat)                      -- in front of the Flush of appender i, with the mutex
  | unlockEnd                            -- the lock goes out of scope
  | leave                                -- break, with the mutex
  | exited
  deriving DecidableEq, Repr

/- Where a producer stands in Debug, Info, Warn, Error or Fatal. -/
inductive ProducerPc where
  | idle
  | testRunning (event : LogEvent)
  | testLevel (event : LogEvent)
  | lock (event : LogEvent)
  | push (event : LogEvent)
  | unlock
  | notify
  deriving DecidableEq, Repr

inductive StopPc where
  | idle
  | store
  | notify
  | joinable
  | join
  | flush (i : Nat)
  | lock
  | clear
  | unlock
  deriving DecidableEq, Repr

/- Of an appender the model keeps what it was passed (`received`) and how much of that was
followed by a Flush. `pushed` lists the events in the order of their push, `before` what was
pushed when Shutdown was called first, `stopped` says that a Shutdown has returned. -/
structure World where
  isRunning : Bool
  minLevel : LogLevel
  logQueue : List LogEvent
  appenderNum : Nat
  joinable : Bool
  monitor : Monitor Agent
  loop : LoopPc
  producers : ProducerId → ProducerPc
  stop : StopPc
  received : Nat → List LogEvent
  flushed : Nat → Nat
  pushed : List LogEvent
  before : Option (List LogEvent)
  stopped : Bool

namespace World

def isFree (w : World) : Bool := w.monitor.holder.isNone

def setProducer (w : World) (i : ProducerId) (pc : ProducerPc) : World :=
  { w with producers := Function.update w.producers i pc }

def append (w : World) (i : Nat) (event : LogEvent) : World :=
  { w with received := Function.update w.received i (w.received i ++ [event]) }

def flush (w : World) (i : Nat) : World :=
  { w with flushed := Function.update w.flushed i (w.received i).length }

end World

/- The calls, and the next step of whoever is in one. -/
inductive Action where
  | log (i : ProducerId) (event : LogEvent)
  | shutdown
  | logLoop
  | produce (i : ProducerId)
  | stop
  deriving DecidableEq, Repr

def debug (i : ProducerId) (content : String) : Action := .log i ⟨.debug,content⟩
def info (i : ProducerId) (content : String) : Action := .log i ⟨.info,content⟩
def warn (i : ProducerId) (content : String) : Action := .log i ⟨.warn,content⟩
def error (i : ProducerId) (content : String) : Action := .log i ⟨.error,content⟩
def fatal (i : ProducerId) (content : String) : Action := .log i ⟨.fatal,content⟩

def logLoop (w : World) : LoopPc → Option World
  | .lock => if w.isFree then some { w with monitor := w.monitor.acquire .logThread, loop := .test } else none
  | .test => some { w with loop := if !w.logQueue.isEmpty || !w.isRunning then .check else .block }
  | .block => some { w with monitor := w.monitor.block .logThread, loop := .wait }
  | .wait =>
    if w.isFree ∧ .logThread ∉ w.monitor.sleeping then
      some { w with monitor := w.monitor.acquire .logThread, loop := .test }
    else none
  | .check => some { w with loop := if !w.isRunning && w.logQueue.isEmpty then .leave else .drain }
  | .drain =>
    match w.logQueue with
    | event :: rest => some { w with logQueue := rest, loop := .unlock event }
    | [] => some { w with loop := .flush 0 }
  | .unlock event => some { w with monitor := w.monitor.release, loop := .append event 0 }
  | .append event i =>
    if i < w.appenderNum then some { w.append i event with loop := .append event (i + 1) }
    else some { w with loop := .relock }
  | .relock => if w.isFree then some { w with monitor := w.monitor.acquire .logThread, loop := .drain } else none
  | .flush i =>
    if i < w.appenderNum then some { w.flush i with loop := .flush (i + 1) }
    else some { w with loop := .unlockEnd }
  | .unlockEnd => some { w with monitor := w.monitor.release, loop := .lock }
  | .leave => some { w with monitor := w.monitor.release, loop := .exited }
  | .exited => none

/- Only the log thread waits on m_cv, so notify_one wakes it or nobody. -/
def inLog (w : World) (i : ProducerId) : ProducerPc → Option World
  | .idle => none
  | .testRunning event => some (w.setProducer i (if w.isRunning then .testLevel event else .idle))
  | .testLevel event =>
    some (w.setProducer i (if w.minLevel.value ≤ event.level.value then .lock event else .idle))
  | .lock event =>
    if w.isFree then some ({ w with monitor := w.monitor.acquire (.producer i) }.setProducer i (.push event))
    else none
  | .push event =>
    some ({ w with logQueue := w.logQueue ++ [event], pushed := w.pushed ++ [event] }.setProducer i .unlock)
  | .unlock => some ({ w with monitor := w.monitor.release }.setProducer i .notify)
  | .notify => some ({ w with monitor := w.monitor.notifyOne .logThread }.setProducer i .idle)

def inShutdown (w : World) : StopPc → Option World
  | .idle => none
  | .store => some { w with isRunning := false, stop := .notify }
  | .notify => some { w with monitor := w.monitor.notifyAll, stop := .joinable }
  | .joinable => some { w with stop := if w.joinable then .join else .flush 0 }
  | .join => if w.loop = .exited then some { w with joinable := false, stop := .flush 0 } else none
  | .flush i =>
    if i < w.appenderNum then some { w.flush i with stop := .flush (i + 1) } else some { w with stop := .lock }
  | .lock => if w.isFree then some { w with monitor := w.monitor.acquire .stopper, stop := .clear } else none
  | .clear => some { w with logQueue := [], appenderNum := 0, stop := .unlock }
  | .unlock => some { w with monitor := w.monitor.release, stop := .idle, stopped := true }

def step (w : World) : Action → Option World
  | .log i event => if w.producers i = .idle then some (w.setProducer i (.testRunning event)) else none
  | .shutdown =>
    if w.stop = .idle then some { w with stop := .store, before := w.before.or (some w.pushed) } else none
  | .logLoop => logLoop w w.loop
  | .produce i => inLog w i (w.producers i)
  | .stop => inShutdown w w.stop

/- The logger as Init leaves it, with any number of appenders. -/
def initialized (minLevel : LogLevel) (appenderNum : Nat) : World :=
  { isRunning := true
    minLevel := minLevel
    logQueue := []
    appenderNum := appenderNum
    joinable := true
    monitor := Monitor.open_
    loop := .lock
    producers := fun _ => .idle
    stop := .idle
    received := fun _ => []
    flushed := fun _ => 0
    pushed := []
    before := none
    stopped := false }

/- The steps that change nothing but where the log thread stands and the mutex. -/
inductive LoopMove (w : World) : LoopPc → LoopPc → Monitor Agent → Prop where
  | lock : LoopMove w .lock .test (w.monitor.acquire .logThread)
  | due (pred : w.isRunning = true → w.logQueue ≠ []) : LoopMove w .test .check w.monitor
  | vain (runs : w.isRunning = true) : LoopMove w .test .block w.monitor
  | block : LoopMove w .block .wait (w.monitor.block .logThread)
  | woken : LoopMove w .wait .test (w.monitor.acquire .logThread)
  | nothing (cleared : w.isRunning = false) (empty : w.logQueue = []) : LoopMove w .check .leave w.monitor
  | more : LoopMove w .check .drain w.monitor
  | drained : LoopMove w .drain (.flush 0) w.monitor
  | unlock {event} : LoopMove w (.unlock event) (.append event 0) w.monitor.release
  | appended {event i} (all : w.appenderNum ≤ i) : LoopMove w (.append event i) .relock w.monitor
  | relock : LoopMove w .relock .drain (w.monitor.acquire .logThread)
  | flushed {i} (all : w.appenderNum ≤ i) : LoopMove w (.flush i) .unlockEnd w.monitor
  | unlockEnd : LoopMove w .unlockEnd .lock w.monitor.release
  | leave : LoopMove w .leave .exited w.monitor.release

/- The same of a producer. -/
inductive ProducerMove (w : World) (i : ProducerId) : ProducerPc → ProducerPc → Monitor Agent → Prop where
  | refused {event} : ProducerMove w i (.testRunning event) .idle w.monitor
  | passed {event} (runs : w.isRunning = true) : ProducerMove w i (.testRunning event) (.testLevel event) w.monitor
  | low {event} : ProducerMove w i (.testLevel event) .idle w.monitor
  | enough {event} : ProducerMove w i (.testLevel event) (.lock event) w.monitor
  | lock {event} : ProducerMove w i (.lock event) (.push event) (w.monitor.acquire (.producer i))
  | unlock : ProducerMove w i .unlock .notify w.monitor.release
  | notify : ProducerMove w i .notify .idle (w.monitor.notifyOne .logThread)

/- The same of Shutdown. -/
inductive StopMove (w : World) : StopPc → StopPc → Monitor Agent → Prop where
  | notify : StopMove w .notify .joinable w.monitor.notifyAll
  | joinable (started : w.joinable = true) : StopMove w .joinable .join w.monitor
  | alone (gone : w.joinable = false) : StopMove w .joinable (.flush 0) w.monitor
  | flushed {i} : StopMove w (.flush i) .lock w.monitor
  | lock : StopMove w .lock .clear (w.monitor.acquire .stopper)

inductive Step (w : World) : Action → World → Prop where
  | loopMove {pc m} (moves : LoopMove w w.loop pc m) : Step w .logLoop { w with monitor := m, loop := pc }
  | producerMove {i pc m} (moves : ProducerMove w i (w.producers i) pc m) :
      Step w (.produce i) ({ w with monitor := m }.setProducer i pc)
  | stopMove {pc m} (moves : StopMove w w.stop pc m) : Step w .stop { w with monitor := m, stop := pc }
  | take {event rest} (here : w.loop = .drain) (head : w.logQueue = event :: rest) :
      Step w .logLoop { w with logQueue := rest, loop := .unlock event }
  | append {event i} (here : w.loop = .append event i) (more : i < w.appenderNum) :
      Step w .logLoop { w.append i event with loop := .append event (i + 1) }
  | flush {i} (here : w.loop = .flush i) (more : i < w.appenderNum) :
      Step w .logLoop { w.flush i with loop := .flush (i + 1) }
  | log {i event} (idle : w.producers i = .idle) : Step w (.log i event) (w.setProducer i (.testRunning event))
  | push {i event} (here : w.producers i = .push event) :
      Step w (.produce i)
        ({ w with logQueue := w.logQueue ++ [event], pushed := w.pushed ++ [event] }.setProducer i .unlock)
  | shutdown (here : w.stop = .idle) :
      Step w .shutdown { w with stop := .store, before := w.before.or (some w.pushed) }
  | store (here : w.stop = .store) : Step w .stop { w with isRunning := false, stop := .notify }
  | join (here : w.stop = .join) (gone : w.loop = .exited) :
      Step w .stop { w with joinable := false, stop := .flush 0 }
  | flushAfter {i} (here : w.stop = .flush i) : Step w .stop { w.flush i with stop := .flush (i + 1) }
  | clear (here : w.stop = .clear) : Step w .stop { w with logQueue := [], appenderNum := 0, stop := .unlock }
  | finish (here : w.stop = .unlock) :
      Step w .stop { w with monitor := w.monitor.release, stop := .idle, stopped := true }

theorem logLoopCases {w w' : World} (h : logLoop w w.loop = some w') : Step w .logLoop w' := by
  cases here : w.loop with
  | lock =>
    simp only [logLoop, here] at h
    split at h <;> cases h
    exact .loopMove (here ▸ .lock)
  | test =>
    simp only [logLoop, here] at h
    cases h
    split
    · rename_i due
      refine .loopMove (here ▸ .due (fun runs empty => ?_))
      simp [runs, empty] at due
    · rename_i vain
      have runs : w.logQueue = [] ∧ w.isRunning = true := by simpa using vain
      exact .loopMove (here ▸ .vain runs.2)
  | block =>
    simp only [logLoop, here] at h
    cases h
    exact .loopMove (here ▸ .block)
  | wait =>
    simp only [logLoop, here] at h
    split at h <;> cases h
    exact .loopMove (here ▸ .woken)
  | check =>
    simp only [logLoop, here] at h
    cases h
    split
    · rename_i done
      have empty : w.isRunning = false ∧ w.logQueue = [] := by simpa using done
      exact .loopMove (here ▸ .nothing empty.1 empty.2)
    · exact .loopMove (here ▸ .more)
  | drain =>
    simp only [logLoop, here] at h
    split at h <;> cases h
    · exact .take here (by assumption)
    · exact .loopMove (here ▸ .drained)
  | unlock event =>
    simp only [logLoop, here] at h
    cases h
    exact .loopMove (here ▸ .unlock)
  | append event i =>
    simp only [logLoop, here] at h
    split at h <;> cases h
    · exact .append here (by assumption)
    · rename_i all
      exact .loopMove (here ▸ .appended (Nat.not_lt.mp all))
  | relock =>
    simp only [logLoop, here] at h
    split at h <;> cases h
    exact .loopMove (here ▸ .relock)
  | flush i =>
    simp only [logLoop, here] at h
    split at h <;> cases h
    · exact .flush here (by assumption)
    · rename_i all
      exact .loopMove (here ▸ .flushed (Nat.not_lt.mp all))
  | unlockEnd =>
    simp only [logLoop, here] at h
    cases h
    exact .loopMove (here ▸ .unlockEnd)
  | leave =>
    simp only [logLoop, here] at h
    cases h
    exact .loopMove (here ▸ .leave)
  | exited => simp [logLoop, here] at h

theorem inLogCases {w w' : World} {i : ProducerId} (h : inLog w i (w.producers i) = some w') :
    Step w (.produce i) w' := by
  cases here : w.producers i with
  | idle => simp [inLog, here] at h
  | testRunning event =>
    simp only [inLog, here] at h
    cases h
    split
    · exact .producerMove (here ▸ .passed (by assumption))
    · exact .producerMove (here ▸ .refused)
  | testLevel event =>
    simp only [inLog, here] at h
    cases h
    split
    · exact .producerMove (here ▸ .enough)
    · exact .producerMove (here ▸ .low)
  | lock event =>
    simp only [inLog, here] at h
    split at h <;> cases h
    exact .producerMove (here ▸ .lock)
  | push event =>
    simp only [inLog, here] at h
    cases h
    exact .push here
  | unlock =>
    simp only [inLog, here] at h
    cases h
    exact .producerMove (here ▸ .unlock)
  | notify =>
    simp only [inLog, here] at h
    cases h
    exact .producerMove (here ▸ .notify)

theorem inShutdownCases {w w' : World} (h : inShutdown w w.stop = some w') : Step w .stop w' := by
  cases here : w.stop with
  | idle => simp [inShutdown, here] at h
  | store =>
    simp only [inShutdown, here] at h
    cases h
    exact .store here
  | notify =>
    simp only [inShutdown, here] at h
    cases h
    exact .stopMove (here ▸ .notify)
  | joinable =>
    simp only [inShutdown, here] at h
    cases h
    split
    · exact .stopMove (here ▸ .joinable (by assumption))
    · rename_i gone
      exact .stopMove (here ▸ .alone (Bool.eq_false_iff.mpr gone))
  | join =>
    simp only [inShutdown, here] at h
    split at h <;> cases h
    exact .join here (by assumption)
  | flush i =>
    simp only [inShutdown, here] at h
    split at h <;> cases h
    · exact .flushAfter here
    · exact .stopMove (here ▸ .flushed)
  | lock =>
    simp only [inShutdown, here] at h
    split at h <;> cases h
    exact .stopMove (here ▸ .lock)
  | clear =>
    simp only [inShutdown, here] at h
    cases h
    exact .clear here
  | unlock =>
    simp only [inShutdown, here] at h
    cases h
    exact .finish here

theorem stepCases {w w' : World} {a : Action} (taken : step w a = some w') : Step w a w' := by
  cases a with
  | log i event =>
    simp only [step] at taken
    split at taken <;> cases taken
    exact .log (by assumption)
  | shutdown =>
    simp only [step] at taken
    split at taken <;> cases taken
    exact .shutdown (by assumption)
  | logLoop => exact logLoopCases taken
  | produce i => exact inLogCases taken
  | stop => exact inShutdownCases taken

end TcFrame.Logger
