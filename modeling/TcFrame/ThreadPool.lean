import TcFrame.EpollPoller
import TcFrame.Machine
import TcFrame.Monitor

/-! The thread pool: workers in WorkerLoop, and any threads in Commit, Shutdown and
Resize. A thread stands at one statement of the loop and, while it runs a task or is no
worker at all, at one statement of the call that it is in. Taking and giving back the
mutex, testing the predicate, blocking, the accesses to the flag and the notifications
are steps of their own. -/
namespace TcFrame.ThreadPool

abbrev TaskId := Nat

/- Where a thread stands in WorkerLoop. -/
inductive LoopPc where
  | outside                      -- the thread is no worker
  | lock                         -- the constructor of unique_lock
  | test                         -- the predicate of m_cv.wait
  | block                        -- the predicate was false
  | wait                         -- asleep in m_cv.wait, or woken and without the mutex
  | check                        -- the test in front of break
  | take                         -- m_tasks.front() and m_tasks.pop()
  | unlock (task : TaskId)
  | run (task : TaskId)
  | running (task : TaskId)      -- inside task()
  | leave                        -- break, with the mutex
  | exited
  deriving DecidableEq, Repr

/- Where a thread stands in Commit, Shutdown or Resize. -/
inductive CallPc where
  | idle
  | commitLock (task : TaskId)
  | commitTest (task : TaskId)
  | commitThrow (task : TaskId)
  | commitPush (task : TaskId)
  | commitUnlock (task : TaskId)
  | commitNotify (task : TaskId)
  | shutdownExchange
  | shutdownNotify
  | shutdownLock
  | shutdownPurge
  | shutdownUnlock (workers : List ThreadId)
  | shutdownJoin (workers : List ThreadId)
  | resizeTest (num : Nat)
  | resizeLoad (num : Nat)
  | resizeStore (num old : Nat)
  | resizeLock (add : Nat)
  | resizeSpawn (add : Nat)
  | resizeUnlock
  deriving DecidableEq, Repr

structure Thread where
  loop : LoopPc
  call : CallPc
  deriving DecidableEq, Repr

def LoopPc.place : LoopPc → Place
  | .test | .check | .take | .unlock _ | .leave => .inside
  | .block => .parting
  | .wait => .waiting
  | .outside | .lock | .run _ | .running _ | .exited => .away

def CallPc.place : CallPc → Place
  | .commitTest _ | .commitThrow _ | .commitPush _ | .commitUnlock _ | .shutdownPurge | .shutdownUnlock _
  | .resizeSpawn _ | .resizeUnlock => .inside
  | _ => .away

/- A call is made by a thread that is outside WorkerLoop or inside a task. -/
def Thread.place (th : Thread) : Place := if th.call = .idle then th.loop.place else th.call.place

def Thread.mayCall (th : Thread) : Bool :=
  match th.call, th.loop with
  | .idle, .outside | .idle, .running _ => true
  | _, _ => false

/- A task is named by the number of its Commit call. The lists are a journal of what
happened: `pushed` to m_tasks, begun (`executed`) and `finished` by a worker, `returned`
from Commit as a future or `thrown` by it. `stopped` says that the Shutdown that cleared
the flag has returned, `shutDown` that any Shutdown has. -/
structure Pool where
  isRunning : Bool
  targetThreadNum : Nat
  tasks : List TaskId
  workers : List ThreadId
  monitor : Monitor ThreadId
  threads : ThreadId → Thread
  commits : Nat
  pushed : List TaskId
  executed : List TaskId
  finished : List TaskId
  returned : List TaskId
  thrown : List TaskId
  stopped : Bool
  shutDown : Bool

namespace Pool

def place (p : Pool) (t : ThreadId) : Place := (p.threads t).place

def setLoop (p : Pool) (t : ThreadId) (pc : LoopPc) : Pool :=
  { p with threads := Function.update p.threads t { p.threads t with loop := pc } }

def setCall (p : Pool) (t : ThreadId) (pc : CallPc) : Pool :=
  { p with threads := Function.update p.threads t { p.threads t with call := pc } }

def isFree (p : Pool) : Bool := p.monitor.holder.isNone

end Pool

/- `work` is the next step of a thread. `pick` is what the system chooses there: the
thread that notify_one wakes, the thread that the std::thread starts. -/
inductive Action where
  | commit (t : ThreadId)
  | shutdown (t : ThreadId)
  | resize (t : ThreadId) (num : Nat)
  | work (t pick : ThreadId)
  deriving DecidableEq, Repr

def Action.thread : Action → ThreadId
  | .commit t | .shutdown t | .resize t _ | .work t _ => t

def workerLoop (p : Pool) (t : ThreadId) : LoopPc → Option Pool
  | .outside | .exited => none
  | .lock => if p.isFree then some ({ p with monitor := p.monitor.acquire t }.setLoop t .test) else none
  | .test => some (p.setLoop t (if !p.isRunning || !p.tasks.isEmpty then .check else .block))
  | .block => some ({ p with monitor := p.monitor.block t }.setLoop t .wait)
  | .wait =>
    if p.isFree ∧ t ∉ p.monitor.sleeping then some ({ p with monitor := p.monitor.acquire t }.setLoop t .test)
    else none
  | .check => some (p.setLoop t (if !p.isRunning && p.tasks.isEmpty then .leave else .take))
  | .take =>
    match p.tasks with
    | task :: rest => some ({ p with tasks := rest }.setLoop t (.unlock task))
    | [] => none
  | .unlock task => some ({ p with monitor := p.monitor.release }.setLoop t (.run task))
  | .run task => some ({ p with executed := p.executed ++ [task] }.setLoop t (.running task))
  | .running task => some ({ p with finished := p.finished ++ [task] }.setLoop t .lock)
  | .leave => some ({ p with monitor := p.monitor.release }.setLoop t .exited)

/- packaged_task keeps what the task throws, so a worker comes back from every task. A
worker that calls Shutdown joins itself and does not. -/
def inCall (p : Pool) (t pick : ThreadId) : CallPc → Option Pool
  | .idle => none
  | .commitLock task =>
    if p.isFree then some ({ p with monitor := p.monitor.acquire t }.setCall t (.commitTest task)) else none
  | .commitTest task => some (p.setCall t (if p.isRunning then .commitPush task else .commitThrow task))
  | .commitThrow task =>
    some ({ p with monitor := p.monitor.release, thrown := p.thrown ++ [task] }.setCall t .idle)
  | .commitPush task =>
    some ({ p with tasks := p.tasks ++ [task], pushed := p.pushed ++ [task] }.setCall t (.commitUnlock task))
  | .commitUnlock task => some ({ p with monitor := p.monitor.release }.setCall t (.commitNotify task))
  | .commitNotify task =>
    if p.monitor.mayWake pick then
      some ({ p with monitor := p.monitor.notifyOne pick, returned := p.returned ++ [task] }.setCall t .idle)
    else none
  | .shutdownExchange =>
    if p.isRunning then some ({ p with isRunning := false }.setCall t .shutdownNotify)
    else some ({ p with shutDown := true }.setCall t .idle)
  | .shutdownNotify => some ({ p with monitor := p.monitor.notifyAll }.setCall t .shutdownLock)
  | .shutdownLock =>
    if p.isFree then some ({ p with monitor := p.monitor.acquire t }.setCall t .shutdownPurge) else none
  | .shutdownPurge => some ({ p with workers := [], tasks := [] }.setCall t (.shutdownUnlock p.workers))
  | .shutdownUnlock workers => some ({ p with monitor := p.monitor.release }.setCall t (.shutdownJoin workers))
  | .shutdownJoin (w :: rest) =>
    if (p.threads w).loop = .exited then some (p.setCall t (.shutdownJoin rest)) else none
  | .shutdownJoin [] => some ({ p with stopped := true, shutDown := true }.setCall t .idle)
  | .resizeTest num => some (p.setCall t (if p.isRunning then .resizeLoad num else .idle))
  | .resizeLoad num =>
    some (p.setCall t (if num = p.targetThreadNum then .idle else .resizeStore num p.targetThreadNum))
  | .resizeStore num old =>
    some ({ p with targetThreadNum := num }.setCall t (if old < num then .resizeLock (num - old) else .idle))
  | .resizeLock add =>
    if p.isFree then some ({ p with monitor := p.monitor.acquire t }.setCall t (.resizeSpawn add)) else none
  | .resizeSpawn 0 => some (p.setCall t .resizeUnlock)
  | .resizeSpawn (add + 1) =>
    if p.threads pick = ⟨.outside,.idle⟩ ∧ pick ≠ t then
      some (({ p with workers := p.workers ++ [pick] }.setLoop pick .lock).setCall t (.resizeSpawn add))
    else none
  | .resizeUnlock => some ({ p with monitor := p.monitor.release }.setCall t .idle)

def step (p : Pool) : Action → Option Pool
  | .commit t =>
    if (p.threads t).mayCall then some ({ p with commits := p.commits + 1 }.setCall t (.commitLock p.commits))
    else none
  | .shutdown t => if (p.threads t).mayCall then some (p.setCall t .shutdownExchange) else none
  | .resize t num => if (p.threads t).mayCall then some (p.setCall t (.resizeTest num)) else none
  | .work t pick =>
    if (p.threads t).call = .idle then workerLoop p t (p.threads t).loop else inCall p t pick (p.threads t).call

/- The pool as its constructor leaves it: the workers are the threads below `threadNum`. -/
def constructed (threadNum : Nat) : Pool :=
  { isRunning := true
    targetThreadNum := threadNum
    tasks := []
    workers := List.range threadNum
    monitor := Monitor.open_
    threads := fun t => if t < threadNum then ⟨.lock,.idle⟩ else ⟨.outside,.idle⟩
    commits := 0
    pushed := []
    executed := []
    finished := []
    returned := []
    thrown := []
    stopped := false
    shutDown := false }

/- The steps of WorkerLoop that change nothing but where the thread stands and the mutex. -/
inductive LoopMove (p : Pool) (t : ThreadId) : LoopPc → LoopPc → Monitor ThreadId → Prop where
  | lock (free : p.monitor.holder = none) : LoopMove p t .lock .test (p.monitor.acquire t)
  | due (pred : p.isRunning = true → p.tasks ≠ []) : LoopMove p t .test .check p.monitor
  | vain (runs : p.isRunning = true) (empty : p.tasks = []) : LoopMove p t .test .block p.monitor
  | block : LoopMove p t .block .wait (p.monitor.block t)
  | woken (free : p.monitor.holder = none) (awake : t ∉ p.monitor.sleeping) :
      LoopMove p t .wait .test (p.monitor.acquire t)
  | done (cleared : p.isRunning = false) (empty : p.tasks = []) : LoopMove p t .check .leave p.monitor
  | more : LoopMove p t .check .take p.monitor
  | unlock {task} : LoopMove p t (.unlock task) (.run task) p.monitor.release
  | leave : LoopMove p t .leave .exited p.monitor.release

/- The same of the three calls. -/
inductive CallMove (p : Pool) (t : ThreadId) : CallPc → CallPc → Monitor ThreadId → Prop where
  | commitLock {task} (free : p.monitor.holder = none) :
      CallMove p t (.commitLock task) (.commitTest task) (p.monitor.acquire t)
  | commitPassed {task} (runs : p.isRunning = true) :
      CallMove p t (.commitTest task) (.commitPush task) p.monitor
  | commitRefused {task} (cleared : p.isRunning = false) :
      CallMove p t (.commitTest task) (.commitThrow task) p.monitor
  | commitUnlock {task} : CallMove p t (.commitUnlock task) (.commitNotify task) p.monitor.release
  | shutdownNotify : CallMove p t .shutdownNotify .shutdownLock p.monitor.notifyAll
  | shutdownLock (free : p.monitor.holder = none) :
      CallMove p t .shutdownLock .shutdownPurge (p.monitor.acquire t)
  | shutdownUnlock {workers} :
      CallMove p t (.shutdownUnlock workers) (.shutdownJoin workers) p.monitor.release
  | shutdownJoin {w rest} (gone : (p.threads w).loop = .exited) :
      CallMove p t (.shutdownJoin (w :: rest)) (.shutdownJoin rest) p.monitor
  | resizePassed {num} : CallMove p t (.resizeTest num) (.resizeLoad num) p.monitor
  | resizeRefused {num} : CallMove p t (.resizeTest num) .idle p.monitor
  | resizeSame {num} : CallMove p t (.resizeLoad num) .idle p.monitor
  | resizeLoad {num old} : CallMove p t (.resizeLoad num) (.resizeStore num old) p.monitor
  | resizeLock {add} (free : p.monitor.holder = none) :
      CallMove p t (.resizeLock add) (.resizeSpawn add) (p.monitor.acquire t)
  | resizeSpawned : CallMove p t (.resizeSpawn 0) .resizeUnlock p.monitor
  | resizeUnlock : CallMove p t .resizeUnlock .idle p.monitor.release

/- The steps with their guards: the two kinds of moves, the beginning of a call, and every
step that changes more. -/
inductive Step (p : Pool) : Action → Pool → Prop where
  | loopMove {t pick pc m} (idle : (p.threads t).call = .idle) (moves : LoopMove p t (p.threads t).loop pc m) :
      Step p (.work t pick) ({ p with monitor := m }.setLoop t pc)
  | callMove {t pick pc m} (moves : CallMove p t (p.threads t).call pc m) :
      Step p (.work t pick) ({ p with monitor := m }.setCall t pc)
  | commit {t} (may : (p.threads t).mayCall = true) :
      Step p (.commit t) ({ p with commits := p.commits + 1 }.setCall t (.commitLock p.commits))
  | shutdown {t} (may : (p.threads t).mayCall = true) : Step p (.shutdown t) (p.setCall t .shutdownExchange)
  | resize {t num} (may : (p.threads t).mayCall = true) : Step p (.resize t num) (p.setCall t (.resizeTest num))
  | take {t pick task rest} (idle : (p.threads t).call = .idle) (here : (p.threads t).loop = .take)
      (head : p.tasks = task :: rest) :
      Step p (.work t pick) ({ p with tasks := rest }.setLoop t (.unlock task))
  | begin_ {t pick task} (idle : (p.threads t).call = .idle) (here : (p.threads t).loop = .run task) :
      Step p (.work t pick) ({ p with executed := p.executed ++ [task] }.setLoop t (.running task))
  | finish {t pick task} (idle : (p.threads t).call = .idle) (here : (p.threads t).loop = .running task) :
      Step p (.work t pick) ({ p with finished := p.finished ++ [task] }.setLoop t .lock)
  | throw_ {t pick task} (here : (p.threads t).call = .commitThrow task) :
      Step p (.work t pick)
        ({ p with monitor := p.monitor.release, thrown := p.thrown ++ [task] }.setCall t .idle)
  | push {t pick task} (here : (p.threads t).call = .commitPush task) :
      Step p (.work t pick)
        ({ p with tasks := p.tasks ++ [task], pushed := p.pushed ++ [task] }.setCall t (.commitUnlock task))
  | notify {t pick task} (here : (p.threads t).call = .commitNotify task) (wakes : p.monitor.mayWake pick = true) :
      Step p (.work t pick)
        ({ p with monitor := p.monitor.notifyOne pick, returned := p.returned ++ [task] }.setCall t .idle)
  | clear {t pick} (here : (p.threads t).call = .shutdownExchange) (runs : p.isRunning = true) :
      Step p (.work t pick) ({ p with isRunning := false }.setCall t .shutdownNotify)
  | again {t pick} (here : (p.threads t).call = .shutdownExchange) (cleared : p.isRunning = false) :
      Step p (.work t pick) ({ p with shutDown := true }.setCall t .idle)
  | purge {t pick} (here : (p.threads t).call = .shutdownPurge) :
      Step p (.work t pick) ({ p with workers := [], tasks := [] }.setCall t (.shutdownUnlock p.workers))
  | joined {t pick} (here : (p.threads t).call = .shutdownJoin []) :
      Step p (.work t pick) ({ p with stopped := true, shutDown := true }.setCall t .idle)
  | store {t pick num old pc} (here : (p.threads t).call = .resizeStore num old)
      (next : pc = if old < num then .resizeLock (num - old) else .idle) :
      Step p (.work t pick) ({ p with targetThreadNum := num }.setCall t pc)
  | spawn {t pick add} (here : (p.threads t).call = .resizeSpawn (add + 1))
      (new : p.threads pick = ⟨.outside,.idle⟩) (other : pick ≠ t) :
      Step p (.work t pick)
        (({ p with workers := p.workers ++ [pick] }.setLoop pick .lock).setCall t (.resizeSpawn add))

theorem freeHolder {p : Pool} (free : p.isFree = true) : p.monitor.holder = none :=
  Option.isNone_iff_eq_none.mp free

theorem workerLoopCases {p p' : Pool} {t pick : ThreadId} (idle : (p.threads t).call = .idle)
    (h : workerLoop p t (p.threads t).loop = some p') : Step p (.work t pick) p' := by
  cases here : (p.threads t).loop with
  | outside => simp [workerLoop, here] at h
  | exited => simp [workerLoop, here] at h
  | lock =>
    simp only [workerLoop, here] at h
    split at h <;> cases h
    rename_i free
    exact .loopMove idle (here ▸ .lock (freeHolder free))
  | test =>
    simp only [workerLoop, here] at h
    cases h
    split
    · rename_i due
      refine .loopMove idle (here ▸ .due (fun runs empty => ?_))
      simp [runs, empty] at due
    · rename_i vain
      have runs : p.isRunning = true ∧ p.tasks = [] := by simpa using vain
      exact .loopMove idle (here ▸ .vain runs.1 runs.2)
  | block =>
    simp only [workerLoop, here] at h
    cases h
    exact .loopMove idle (here ▸ .block)
  | wait =>
    simp only [workerLoop, here] at h
    split at h <;> cases h
    rename_i ok
    exact .loopMove idle (here ▸ .woken (freeHolder ok.1) ok.2)
  | check =>
    simp only [workerLoop, here] at h
    cases h
    split
    · rename_i done
      have empty : p.isRunning = false ∧ p.tasks = [] := by simpa using done
      exact .loopMove idle (here ▸ .done empty.1 empty.2)
    · exact .loopMove idle (here ▸ .more)
  | take =>
    simp only [workerLoop, here] at h
    split at h <;> cases h
    exact .take idle here (by assumption)
  | unlock task =>
    simp only [workerLoop, here] at h
    cases h
    exact .loopMove idle (here ▸ .unlock)
  | run task =>
    simp only [workerLoop, here] at h
    cases h
    exact .begin_ idle here
  | running task =>
    simp only [workerLoop, here] at h
    cases h
    exact .finish idle here
  | leave =>
    simp only [workerLoop, here] at h
    cases h
    exact .loopMove idle (here ▸ .leave)

theorem inCallCases {p p' : Pool} {t pick : ThreadId} (h : inCall p t pick (p.threads t).call = some p') :
    Step p (.work t pick) p' := by
  cases here : (p.threads t).call with
  | idle => simp [inCall, here] at h
  | commitLock task =>
    simp only [inCall, here] at h
    split at h <;> cases h
    rename_i free
    exact .callMove (here ▸ .commitLock (freeHolder free))
  | commitTest task =>
    simp only [inCall, here] at h
    cases h
    split
    · exact .callMove (here ▸ .commitPassed (by assumption))
    · exact .callMove (here ▸ .commitRefused (by simpa using ‹¬ p.isRunning = true›))
  | commitThrow task =>
    simp only [inCall, here] at h
    cases h
    exact .throw_ here
  | commitPush task =>
    simp only [inCall, here] at h
    cases h
    exact .push here
  | commitUnlock task =>
    simp only [inCall, here] at h
    cases h
    exact .callMove (here ▸ .commitUnlock)
  | commitNotify task =>
    simp only [inCall, here] at h
    split at h <;> cases h
    exact .notify here (by assumption)
  | shutdownExchange =>
    simp only [inCall, here] at h
    split at h <;> cases h
    · exact .clear here (by assumption)
    · exact .again here (by simpa using ‹¬ p.isRunning = true›)
  | shutdownNotify =>
    simp only [inCall, here] at h
    cases h
    exact .callMove (here ▸ .shutdownNotify)
  | shutdownLock =>
    simp only [inCall, here] at h
    split at h <;> cases h
    rename_i free
    exact .callMove (here ▸ .shutdownLock (freeHolder free))
  | shutdownPurge =>
    simp only [inCall, here] at h
    cases h
    exact .purge here
  | shutdownUnlock workers =>
    simp only [inCall, here] at h
    cases h
    exact .callMove (here ▸ .shutdownUnlock)
  | shutdownJoin workers =>
    cases workers with
    | nil =>
      simp only [inCall, here] at h
      cases h
      exact .joined here
    | cons w rest =>
      simp only [inCall, here] at h
      split at h <;> cases h
      exact .callMove (here ▸ .shutdownJoin (by assumption))
  | resizeTest num =>
    simp only [inCall, here] at h
    cases h
    split
    · exact .callMove (here ▸ .resizePassed)
    · exact .callMove (here ▸ .resizeRefused)
  | resizeLoad num =>
    simp only [inCall, here] at h
    cases h
    split
    · exact .callMove (here ▸ .resizeSame)
    · exact .callMove (here ▸ .resizeLoad)
  | resizeStore num old =>
    simp only [inCall, here] at h
    cases h
    exact .store here rfl
  | resizeLock add =>
    simp only [inCall, here] at h
    split at h <;> cases h
    rename_i free
    exact .callMove (here ▸ .resizeLock (freeHolder free))
  | resizeSpawn add =>
    cases add with
    | zero =>
      simp only [inCall, here] at h
      cases h
      exact .callMove (here ▸ .resizeSpawned)
    | succ add =>
      simp only [inCall, here] at h
      split at h <;> cases h
      rename_i ok
      exact .spawn here ok.1 ok.2
  | resizeUnlock =>
    simp only [inCall, here] at h
    cases h
    exact .callMove (here ▸ .resizeUnlock)

theorem stepCases {p p' : Pool} {a : Action} (h : step p a = some p') : Step p a p' := by
  cases a with
  | commit t =>
    simp only [step] at h
    split at h <;> cases h
    exact .commit (by assumption)
  | shutdown t =>
    simp only [step] at h
    split at h <;> cases h
    exact .shutdown (by assumption)
  | resize t num =>
    simp only [step] at h
    split at h <;> cases h
    exact .resize (by assumption)
  | work t pick =>
    simp only [step] at h
    split at h
    · exact workerLoopCases (by assumption) h
    · exact inCallCases h

namespace Pool

def loops (p : Pool) (t : ThreadId) : LoopPc := (p.threads t).loop
def calls (p : Pool) (t : ThreadId) : CallPc := (p.threads t).call

theorem loopsSetLoop (p : Pool) (t : ThreadId) (pc : LoopPc) :
    (p.setLoop t pc).loops = Function.update p.loops t pc := by
  funext u
  simp only [loops, setLoop, Function.update_apply]
  split <;> rfl

theorem callsSetLoop (p : Pool) (t : ThreadId) (pc : LoopPc) : (p.setLoop t pc).calls = p.calls := by
  funext u
  simp only [calls, setLoop, Function.update_apply]
  split
  · rename_i here
    rw [here]
  · rfl

theorem callsSetCall (p : Pool) (t : ThreadId) (pc : CallPc) :
    (p.setCall t pc).calls = Function.update p.calls t pc := by
  funext u
  simp only [calls, setCall, Function.update_apply]
  split <;> rfl

theorem loopsSetCall (p : Pool) (t : ThreadId) (pc : CallPc) : (p.setCall t pc).loops = p.loops := by
  funext u
  simp only [loops, setCall, Function.update_apply]
  split
  · rename_i here
    rw [here]
  · rfl

theorem placeSetLoop {p q : Pool} (same : q.threads = p.threads) {t : ThreadId} (idle : p.calls t = .idle) (pc : LoopPc) :
    (q.setLoop t pc).place = Function.update p.place t pc.place := by
  funext u
  simp only [place, setLoop, Function.update_apply, same]
  split
  · exact if_pos idle
  · rfl

end Pool

theorem mayCallCases {th : Thread} (may : th.mayCall = true) :
    th.call = .idle ∧ (th.loop = .outside ∨ ∃ task, th.loop = .running task) := by
  obtain ⟨loop,call⟩ := th
  cases call <;> cases loop <;> simp [Thread.mayCall] at may ⊢

def LoopPc.atCall (pc : LoopPc) : Prop := pc = .outside ∨ ∃ task, pc = .running task

theorem atCallPlace {loop : LoopPc} {call : CallPc} (proper : loop.atCall) :
    (⟨loop,call⟩ : Thread).place = call.place := by
  simp only [Thread.place]
  split
  · rename_i idle
    rcases proper with out | ⟨task,runs⟩
    · simp [idle, out, LoopPc.place, CallPc.place]
    · simp [idle, runs, LoopPc.place, CallPc.place]
  · rfl

theorem placeSetCall {p q : Pool} (same : q.threads = p.threads) {t : ThreadId} (proper : (p.loops t).atCall) (pc : CallPc) :
    (q.setCall t pc).place = Function.update p.place t pc.place := by
  funext u
  simp only [Pool.place, Pool.setCall, Function.update_apply, same]
  split
  · exact atCallPlace proper
  · rfl

/- The mutex and the condition variable in every state: the monitor knows where the threads
stand, and a call is under way only outside WorkerLoop or in a task. -/
structure Placed (p : Pool) : Prop where
  guarded : p.monitor.Guarded p.place
  proper : ∀ t, p.calls t ≠ .idle → (p.loops t).atCall

theorem callPlace {p : Pool} (h : Placed p) {t : ThreadId} {pc : CallPc} (here : p.calls t = pc) (busy : pc ≠ .idle) :
    p.place t = pc.place := by
  rw [← here]
  exact atCallPlace (h.proper t (by rw [here]; exact busy))

theorem loopPlace {p : Pool} {t : ThreadId} {pc : LoopPc} (idle : p.calls t = .idle) (here : p.loops t = pc) :
    p.place t = pc.place := by
  rw [← here]
  exact if_pos idle

theorem callNotWaiting (pc : CallPc) : pc.place ≠ .waiting := by cases pc <;> simp [CallPc.place]

theorem callNotParting (pc : CallPc) : pc.place ≠ .parting := by cases pc <;> simp [CallPc.place]

theorem loopMoves {p : Pool} {t : ThreadId} {pc pc' : LoopPc} {m : Monitor ThreadId} (h : p.monitor.Guarded p.place)
    (place : p.place t = pc.place) (moves : LoopMove p t pc pc' m) :
    p.monitor.Move p.place t m pc'.place := by
  cases moves with
  | lock free => exact .acquire free (Monitor.awake h (by simp [place, LoopPc.place]))
  | woken free awake => exact .acquire free awake
  | due | vain | done | more => exact .stay (by simp [place, LoopPc.place]) (by rw [place]; rfl)
  | block => exact .block place
  | unlock | leave => exact .release (by rw [place]; rfl)

theorem callMoves {p : Pool} (h : Placed p) {t : ThreadId} {pc pc' : CallPc} {m : Monitor ThreadId}
    (here : p.calls t = pc) (moves : CallMove p t pc pc' m) : p.monitor.Move p.place t m pc'.place := by
  have place : p.place t = pc.place := callPlace h here (by cases moves <;> simp)
  have awake : p.place t ≠ .waiting := by rw [place]; exact callNotWaiting pc
  cases moves with
  | commitLock free | shutdownLock free | resizeLock free => exact .acquire free (Monitor.awake h.guarded awake)
  | shutdownNotify => exact .notifyAll awake (by rw [place]; rfl)
  | commitUnlock | shutdownUnlock | resizeUnlock => exact .release (by rw [place]; rfl)
  | _ => exact .stay awake (by rw [place]; rfl)

theorem loopParting {p : Pool} {t : ThreadId} {pc pc' : LoopPc} {m : Monitor ThreadId} (moves : LoopMove p t pc pc' m)
    (parting : pc'.place = .parting) : p.isRunning = true ∧ p.tasks = [] := by
  cases moves with
  | vain runs empty => exact ⟨runs,empty⟩
  | _ => cases parting

/- Every step is a move of one thread on the monitor. Only a test that finds the flag set
and the queue empty brings a worker to the point of blocking. -/
theorem stepMoves {p p' : Pool} {a : Action} (h : Placed p) (taken : step p a = some p') :
    ∃ t place, p.monitor.Move p.place t p'.monitor place ∧ p'.place = Function.update p.place t place ∧
      (place = .parting → p.isRunning = true ∧ p.tasks = []) := by
  have proper : ∀ {t pc}, (p.threads t).call = pc → pc ≠ .idle → (p.loops t).atCall :=
    fun here busy => h.proper _ (by rw [Pool.calls, here]; exact busy)
  have calls : ∀ {t pc pc'}, (p.threads t).call = pc → pc ≠ .idle → (CallPc.place pc').holds = pc.place.holds →
      p.monitor.Move p.place t p.monitor pc'.place := by
    intro t pc pc' here busy same
    have place : p.place t = pc.place := callPlace h here busy
    exact .stay (by rw [place]; exact callNotWaiting pc) (by rw [place, same])
  have works : ∀ {t pc pc'}, (p.threads t).call = .idle → (p.threads t).loop = pc → pc.place ≠ .waiting →
      (LoopPc.place pc').holds = pc.place.holds → p.monitor.Move p.place t p.monitor pc'.place := by
    intro t pc pc' idle here awake same
    have place : p.place t = pc.place := loopPlace idle here
    exact .stay (by rw [place]; exact awake) (by rw [place, same])
  have begins : ∀ {t pc}, (p.threads t).mayCall = true → CallPc.place pc = .away →
      p.monitor.Move p.place t p.monitor pc.place := by
    intro t pc may away
    obtain ⟨idle,out⟩ := mayCallCases may
    have place : p.place t = CallPc.idle.place := by
      rw [loopPlace idle rfl]
      rcases out with same | ⟨task,same⟩ <;> simp only [Pool.loops, same] <;> rfl
    exact .stay (by rw [place]; exact callNotWaiting _) (by rw [place, away]; rfl)
  have never : ∀ {pc : CallPc}, pc.place = .parting → p.isRunning = true ∧ p.tasks = [] :=
    fun parting => absurd parting (callNotParting _)
  cases stepCases taken with
  | loopMove idle moves =>
    exact ⟨_,_,loopMoves h.guarded (loopPlace idle rfl) moves,Pool.placeSetLoop rfl idle _,loopParting moves⟩
  | @callMove t pick pc m moves =>
    have busy : (p.threads t).call ≠ .idle := by
      intro idle
      rw [idle] at moves
      cases moves
    exact ⟨_,_,callMoves h rfl moves,placeSetCall rfl (proper rfl busy) _,never⟩
  | commit may | shutdown may | resize may =>
    exact ⟨_,_,begins may rfl,placeSetCall rfl (mayCallCases may).2 _,never⟩
  | take idle here head | begin_ idle here | finish idle here =>
    exact ⟨_,_,works idle here (by simp [LoopPc.place]) rfl,Pool.placeSetLoop rfl idle _,by simp [LoopPc.place]⟩
  | @throw_ t pick task here =>
    have held : (p.place t).holds = true := by rw [callPlace h here (by simp)]; rfl
    exact ⟨_,_,.release held,placeSetCall rfl (proper here (by simp)) .idle,fun parting => nomatch parting⟩
  | @notify t pick task here wakes =>
    have place : p.place t = .away := callPlace h here (by simp)
    exact ⟨_,_,.notifyOne pick (by simp [place]) (by rw [place]; rfl),placeSetCall rfl (proper here (by simp)) _,never⟩
  | push here | clear here runs | again here cleared | purge here | joined here =>
    exact ⟨_,_,calls here (by simp) rfl,placeSetCall rfl (proper here (by simp)) _,never⟩
  | store here next =>
    refine ⟨_,_,calls here (by simp) ?_,placeSetCall rfl (proper here (by simp)) _,never⟩
    rw [next]
    split <;> rfl
  | @spawn t pick add here new other =>
    have idle : p.calls pick = .idle := by rw [Pool.calls, new]
    have out : p.loops pick = .outside := by rw [Pool.loops, new]
    -- The new worker is outside the monitor before and after.
    have started : ({ p with workers := p.workers ++ [pick] }.setLoop pick .lock).place = p.place := by
      rw [Pool.placeSetLoop (p := p) (q := { p with workers := p.workers ++ [pick] }) rfl idle,
        Function.update_eq_self_iff, loopPlace idle out]
      rfl
    have same : (({ p with workers := p.workers ++ [pick] }.setLoop pick .lock).loops t).atCall := by
      rw [Pool.loopsSetLoop, Function.update_of_ne other.symm]
      exact proper here (by simp)
    have after := placeSetCall (q := { p with workers := p.workers ++ [pick] }.setLoop pick .lock) rfl same
      (.resizeSpawn add)
    rw [started] at after
    exact ⟨_,_,calls here (by simp) rfl,after,never⟩

theorem properSetCall {p q : Pool} (h : ∀ u, p.calls u ≠ .idle → (p.loops u).atCall) (same : q.threads = p.threads)
    {t : ThreadId} (proper : (p.loops t).atCall) (pc : CallPc) :
    ∀ u, (q.setCall t pc).calls u ≠ .idle → ((q.setCall t pc).loops u).atCall := by
  intro u busy
  have loops : q.loops = p.loops := by funext u; simp only [Pool.loops, same]
  have calls : q.calls = p.calls := by funext u; simp only [Pool.calls, same]
  rw [Pool.loopsSetCall, loops]
  rw [Pool.callsSetCall, Function.update_apply, calls] at busy
  split at busy
  · rename_i here
    rw [here]
    exact proper
  · exact h u busy

theorem properSetLoop {p q : Pool} (h : ∀ u, p.calls u ≠ .idle → (p.loops u).atCall) (same : q.threads = p.threads)
    {t : ThreadId} (idle : p.calls t = .idle) (pc : LoopPc) :
    ∀ u, (q.setLoop t pc).calls u ≠ .idle → ((q.setLoop t pc).loops u).atCall := by
  intro u busy
  have loops : q.loops = p.loops := by funext u; simp only [Pool.loops, same]
  have calls : q.calls = p.calls := by funext u; simp only [Pool.calls, same]
  rw [Pool.callsSetLoop, calls] at busy
  rw [Pool.loopsSetLoop, Function.update_apply, loops]
  split
  · rename_i here
    rw [here] at busy
    exact absurd idle busy
  · exact h u busy

theorem properStep {p p' : Pool} {a : Action} (h : ∀ u, p.calls u ≠ .idle → (p.loops u).atCall)
    (taken : step p a = some p') : ∀ u, p'.calls u ≠ .idle → (p'.loops u).atCall := by
  have proper : ∀ {t pc}, (p.threads t).call = pc → pc ≠ .idle → (p.loops t).atCall :=
    fun here busy => h _ (by rw [Pool.calls, here]; exact busy)
  cases stepCases taken with
  | loopMove idle moves => exact properSetLoop h rfl idle _
  | callMove moves =>
    refine properSetCall h rfl (proper rfl (fun idle => ?_)) _
    rw [idle] at moves
    cases moves
  | commit may | shutdown may | resize may => exact properSetCall h rfl (mayCallCases may).2 _
  | take idle here | begin_ idle here | finish idle here => exact properSetLoop h rfl idle _
  | throw_ here | push here | notify here | clear here | again here | purge here | joined here | store here =>
    exact properSetCall h rfl (proper here (by simp)) _
  | @spawn t pick add here new other =>
    have idle : p.calls pick = .idle := by rw [Pool.calls, new]
    refine properSetCall (properSetLoop (q := { p with workers := p.workers ++ [pick] }) h rfl idle .lock) rfl ?_ _
    rw [Pool.loopsSetLoop, Function.update_of_ne other.symm]
    exact proper here (by simp)

theorem placedStep {p p' : Pool} {a : Action} (h : Placed p) (taken : step p a = some p') : Placed p' := by
  obtain ⟨t,place,moves,same,_⟩ := stepMoves h taken
  refine ⟨?_,properStep h.proper taken⟩
  rw [same]
  exact Monitor.guardedMove h.guarded moves

/- How the call of the acting thread goes on. -/
inductive CallNext (p p' : Pool) (u : ThreadId) : CallPc → CallPc → Prop where
  | move {pc pc'} (moves : CallMove p u pc pc' p'.monitor) : CallNext p p' u pc pc'
  | commit : CallNext p p' u .idle (.commitLock p.commits)
  | shutdown : CallNext p p' u .idle .shutdownExchange
  | resize {num} : CallNext p p' u .idle (.resizeTest num)
  | throw_ {task} : CallNext p p' u (.commitThrow task) .idle
  | push {task} : CallNext p p' u (.commitPush task) (.commitUnlock task)
  | notify {task} (pick : ThreadId) (wakes : p.monitor.mayWake pick = true)
      (woken : p'.monitor = p.monitor.notifyOne pick) : CallNext p p' u (.commitNotify task) .idle
  | clear (runs : p.isRunning = true) (cleared : p'.isRunning = false) :
      CallNext p p' u .shutdownExchange .shutdownNotify
  | again : CallNext p p' u .shutdownExchange .idle
  | purge (emptied : p'.tasks = []) : CallNext p p' u .shutdownPurge (.shutdownUnlock p.workers)
  | joined (ended : p'.stopped = true) : CallNext p p' u (.shutdownJoin []) .idle
  | storeShrink {num old} : CallNext p p' u (.resizeStore num old) .idle
  | storeGrow {num old} : CallNext p p' u (.resizeStore num old) (.resizeLock (num - old))
  | spawn {add} : CallNext p p' u (.resizeSpawn (add + 1)) (.resizeSpawn add)

theorem callNextSet {p q : Pool} {t u : ThreadId} {pc pc' : CallPc} (same : q.calls = p.calls) (here : p.calls t = pc)
    (next : CallNext p (q.setCall t pc') t pc pc') :
    (q.setCall t pc').calls u = p.calls u ∨
      u = t ∧ CallNext p (q.setCall t pc') u (p.calls u) ((q.setCall t pc').calls u) := by
  have after : (q.setCall t pc').calls u = if u = t then pc' else p.calls u := by
    rw [Pool.callsSetCall, Function.update_apply, same]
  rw [after]
  split
  · rename_i self
    rw [self, here]
    exact .inr ⟨rfl,next⟩
  · exact .inl rfl

theorem callsStep {p p' : Pool} {a : Action} (taken : step p a = some p') (u : ThreadId) :
    p'.calls u = p.calls u ∨ u = a.thread ∧ CallNext p p' u (p.calls u) (p'.calls u) := by
  cases stepCases taken with
  | loopMove | take | begin_ | finish =>
    rw [Pool.callsSetLoop]
    exact .inl rfl
  | callMove moves => exact callNextSet rfl rfl (.move moves)
  | commit may => exact callNextSet rfl (mayCallCases may).1 .commit
  | shutdown may => exact callNextSet rfl (mayCallCases may).1 .shutdown
  | resize may => exact callNextSet rfl (mayCallCases may).1 .resize
  | throw_ here => exact callNextSet rfl here .throw_
  | push here => exact callNextSet rfl here .push
  | notify here wakes => exact callNextSet rfl here (.notify _ wakes rfl)
  | clear here runs => exact callNextSet rfl here (.clear runs rfl)
  | again here => exact callNextSet rfl here .again
  | purge here => exact callNextSet rfl here (.purge rfl)
  | joined here => exact callNextSet rfl here (.joined rfl)
  | @store t pick num old pc here next =>
    refine callNextSet rfl here ?_
    split at next
    · rw [next]
      exact .storeGrow
    · rw [next]
      exact .storeShrink
  | spawn here new other => exact callNextSet (Pool.callsSetLoop _ _ _) here .spawn

/- How the acting thread goes on in WorkerLoop, or a new worker begins. -/
inductive LoopNext (p p' : Pool) (u : ThreadId) : LoopPc → LoopPc → Prop where
  | move {pc pc'} (moves : LoopMove p u pc pc' p'.monitor) : LoopNext p p' u pc pc'
  | take {task} (head : p.tasks = task :: p'.tasks) : LoopNext p p' u .take (.unlock task)
  | begin_ {task} : LoopNext p p' u (.run task) (.running task)
  | finish {task} (done : p'.finished = p.finished ++ [task]) : LoopNext p p' u (.running task) .lock
  | spawn (hired : u ∈ p'.workers) : LoopNext p p' u .outside .lock

theorem loopNextSet {p q : Pool} {t u : ThreadId} {pc pc' : LoopPc} (same : q.loops = p.loops) (here : p.loops t = pc)
    (next : LoopNext p (q.setLoop t pc') t pc pc') :
    (q.setLoop t pc').loops u = p.loops u ∨ LoopNext p (q.setLoop t pc') u (p.loops u) ((q.setLoop t pc').loops u) := by
  have after : (q.setLoop t pc').loops u = if u = t then pc' else p.loops u := by
    rw [Pool.loopsSetLoop, Function.update_apply, same]
  rw [after]
  split
  · rename_i self
    rw [self, here]
    exact .inr next
  · exact .inl rfl

theorem loopsStep {p p' : Pool} {a : Action} (taken : step p a = some p') (u : ThreadId) :
    p'.loops u = p.loops u ∨ LoopNext p p' u (p.loops u) (p'.loops u) := by
  cases stepCases taken with
  | loopMove idle moves => exact loopNextSet rfl rfl (.move moves)
  | take idle here head => exact loopNextSet rfl here (.take head)
  | begin_ idle here => exact loopNextSet rfl here .begin_
  | finish idle here => exact loopNextSet rfl here (.finish rfl)
  | callMove | commit | shutdown | resize | throw_ | push | notify | clear | again | purge | joined | store =>
    rw [Pool.loopsSetCall]
    exact .inl rfl
  | @spawn t pick add here new other =>
    have out : p.loops pick = .outside := by rw [Pool.loops, new]
    have hired : pick ∈ p.workers ++ [pick] := List.mem_append_right _ List.mem_cons_self
    rw [Pool.loopsSetCall, Pool.loopsSetLoop, Function.update_apply]
    split
    · rename_i self
      rw [self, out]
      exact .inr (.spawn hired)
    · exact .inl rfl

/- What a step does to the queue: it takes the front, appends a task, or empties it. -/
inductive QueueNext (p p' : Pool) (a : Action) : Prop where
  | same (kept : p'.tasks = p.tasks)
  | take (task : TaskId) (head : p.tasks = task :: p'.tasks) (here : p.loops a.thread = .take)
      (held : p'.loops a.thread = .unlock task)
  | push (task : TaskId) (here : p.calls a.thread = .commitPush task) (added : p'.tasks = p.tasks ++ [task])
      (posted : p'.calls a.thread = .commitUnlock task)
  | purge (here : p.calls a.thread = .shutdownPurge) (emptied : p'.tasks = [])

theorem queueStep {p p' : Pool} {a : Action} (taken : step p a = some p') : QueueNext p p' a := by
  cases stepCases taken with
  | take idle here head =>
    refine .take _ head here ?_
    rw [Pool.loopsSetLoop]
    exact Function.update_self _ _ _
  | push here =>
    refine .push _ here rfl ?_
    rw [Pool.callsSetCall]
    exact Function.update_self _ _ _
  | purge here => exact .purge here rfl
  | _ => exact .same rfl

/- A thread that takes no step in a run stands where it stood. -/
theorem callsKept {p p' : Pool} {as : List Action} (reached : Machine.run step p as = some p') {u : ThreadId}
    (still : ∀ a ∈ as, u ≠ a.thread) : p'.calls u = p.calls u := by
  induction as generalizing p with
  | nil =>
    cases Option.some.inj reached
    rfl
  | cons a as ih =>
    obtain ⟨m,taken,rest⟩ := Machine.runCons.mp reached
    have here : m.calls u = p.calls u :=
      (callsStep taken u).resolve_right (fun moved => still a List.mem_cons_self moved.1)
    rw [ih rest (fun b member => still b (List.mem_cons_of_mem _ member)), here]

theorem constructedIdle (threadNum : Nat) (t : ThreadId) : (constructed threadNum).calls t = .idle := by
  simp only [Pool.calls, constructed]
  split <;> rfl

theorem placedConstructed (threadNum : Nat) : Placed (constructed threadNum) := by
  have idle := constructedIdle threadNum
  refine ⟨Monitor.guardedOpen (fun t => ?_),fun t busy => absurd (idle t) busy⟩
  rw [loopPlace (idle t) rfl]
  simp only [Pool.loops, constructed]
  split <;> rfl

end TcFrame.ThreadPool
