import TcFrame.EpollPoller
import TcFrame.Machine
import TcFrame.TimerQueue

/-! One event loop, its thread and the threads that call it. A call from outside is two
steps: what it does under the mutex or to m_quit, and the test whether to wake the loop
with the write to the wakeup descriptor. User code runs on the loop's thread inside a
handler, a functor or a timer callback. -/
namespace TcFrame

/- The members the loop's own functions use; `wakeup` is the counter of the eventfd.
A functor is a number, in the order in which they are pushed. -/
structure EventLoop where
  threadId : ThreadId
  quit : Bool
  callingPendingFunctors : Bool
  wakeup : Nat
  pendingFunctors : List Nat
  timers : TimerQueue

namespace EventLoop

def isInLoopThread (l : EventLoop) (t : ThreadId) : Bool := l.threadId == t

def wake (l : EventLoop) : EventLoop := { l with wakeup := l.wakeup + 1 }

/- The last statement of QueueInLoop, RunAt and RunEvery. -/
def wakeForWork (l : EventLoop) (t : ThreadId) : EventLoop :=
  if !l.isInLoopThread t || l.callingPendingFunctors then l.wake else l

/- The last statement of Quit and Cancel. -/
def wakeFromOutside (l : EventLoop) (t : ThreadId) : EventLoop :=
  if !l.isInLoopThread t then l.wake else l

end EventLoop

namespace Loop

inductive Ready where
  | wakeup
  | channel
  deriving DecidableEq, Repr

/- Where the loop's thread is. -/
inductive Phase where
  | idle                                   -- not in Loop, not a worker
  | spawned                                -- std::thread made, its lambda not begun
  | entering                               -- in Loop, m_quit = false still to come
  | test
  | timeout
  | poll (timeoutMs : Nat)
  | events (active : List Ready)
  | handling (rest : List Ready)           -- in the handler of a channel
  | swap
  | functors (rest : List Nat)
  | functor (rest : List Nat)              -- in a functor
  | timers
  | ready (rest : List TimerId)
  | fired (running : Bool) (id : TimerId) (rest : List TimerId)  -- in a timer callback, if running
  | exited
  deriving DecidableEq, Repr

/- The calls that end with a look at the thread they are made on. -/
inductive Call where
  | queueInLoop (f : Nat)
  | quit
  | addTimer
  | cancel
  deriving DecidableEq, Repr

/- `returned` are the functors whose QueueInLoop has returned, `owed` those that had
when Quit was last called, `begun` counts the iterations since Quit returned. -/
structure World where
  loop : EventLoop
  self : ThreadId
  worker : Bool
  phase : Phase
  calls : ThreadId → Option Call
  pushed : Nat
  returned : List Nat
  executed : List Nat
  owed : List Nat
  quitReturned : Bool
  begun : Nat

inductive LoopStep where
  | start
  | enter
  | test
  | timeout (now : Nat)
  | pollReturns (active : List Ready)
  | handle
  | handled
  | store
  | swap
  | call
  | called
  | collect (now : Nat)
  | fire
  | finish (now : Nat)
  | again
  deriving DecidableEq, Repr

inductive Action where
  | loop (s : LoopStep)
  | callLoop
  | queueInLoop (t : ThreadId)
  | quit (t : ThreadId)
  | runAt (t : ThreadId) (when_ : Nat) (callback : Bool)
  | runEvery (t : ThreadId) (now : Nat) (interval : Int) (callback : Bool)
  | cancel (t : ThreadId) (id : TimerId)
  | returns (t : ThreadId)
  deriving DecidableEq, Repr

def userRuns : Phase → Bool
  | .idle | .exited | .handling _ | .functor _ | .fired true _ _ => true
  | _ => false

/- A thread makes one call at a time, the loop's own only from user code. -/
def mayCall (w : World) (t : ThreadId) : Bool :=
  (w.calls t).isNone && (t != w.self || userRuns w.phase)

def calling (w : World) (t : ThreadId) (l : EventLoop) (c : Option Call) : World :=
  { w with loop := l, calls := Function.update w.calls t c }

def loopStep (w : World) (s : LoopStep) : Option World :=
  let l := w.loop
  match s, w.phase with
  | .start, .spawned => some { w with loop := { l with threadId := w.self }, phase := .entering }
  | .enter, .entering => some { w with loop := { l with quit := false }, phase := .test }
  | .test, .test =>
    if l.quit then some { w with phase := .exited }
    else some { w with phase := .timeout, begun := w.begun + 1 }
  | .timeout now, .timeout =>
    let out := l.timers.getPollTimeoutMs now
    some { w with loop := { l with timers := out.2 }, phase := .poll out.1 }
  | .pollReturns active, .poll _ =>
    if Ready.wakeup ∈ active ∧ l.wakeup = 0 then none else some { w with phase := .events active }
  | .handle, .events (.wakeup :: rest) => some { w with loop := { l with wakeup := 0 }, phase := .events rest }
  | .handle, .events (.channel :: rest) => some { w with phase := .handling rest }
  | .handled, .handling rest => some { w with phase := .events rest }
  | .store, .events [] => some { w with loop := { l with callingPendingFunctors := true }, phase := .swap }
  | .swap, .swap =>
    some { w with loop := { l with pendingFunctors := [] }, phase := .functors l.pendingFunctors }
  | .call, .functors (f :: rest) => some { w with executed := w.executed ++ [f], phase := .functor rest }
  | .called, .functor rest => some { w with phase := .functors rest }
  | .store, .functors [] => some { w with loop := { l with callingPendingFunctors := false }, phase := .timers }
  | .collect now, .timers =>
    let out := l.timers.collect now
    some { w with loop := { l with timers := out.2 }, phase := .ready out.1 }
  | .fire, .ready (id :: rest) => some { w with phase := .fired (l.timers.mayFire id) id rest }
  | .finish now, .fired _ id rest =>
    some { w with loop := { l with timers := l.timers.finish now id }, phase := .ready rest }
  | .again, .ready [] => some { w with phase := .test }
  | _, _ => none

def step (w : World) : Action → Option World
  | .loop s => if w.calls w.self = none then loopStep w s else none
  | .callLoop =>
    if w.worker = false ∧ w.calls w.self = none ∧ (w.phase = .idle ∨ w.phase = .exited) then
      some { w with phase := .entering, quitReturned := false, begun := 0 }
    else none
  | .queueInLoop t =>
    if mayCall w t then
      let l := { w.loop with pendingFunctors := w.loop.pendingFunctors ++ [w.pushed] }
      some { calling w t l (some (.queueInLoop w.pushed)) with pushed := w.pushed + 1 }
    else none
  | .quit t =>
    if mayCall w t then
      some { calling w t { w.loop with quit := true } (some .quit) with owed := w.returned }
    else none
  | .runAt t when_ callback =>
    if mayCall w t then
      some (calling w t { w.loop with timers := w.loop.timers.runAt when_ callback } (some .addTimer))
    else none
  | .runEvery t now interval callback =>
    if mayCall w t then
      some (calling w t { w.loop with timers := w.loop.timers.runEvery now interval callback } (some .addTimer))
    else none
  | .cancel t id =>
    if mayCall w t then
      let out := w.loop.timers.cancel id
      some (calling w t { w.loop with timers := out.1 } (if out.2 then some .cancel else none))
    else none
  | .returns t =>
    match w.calls t with
    | some (.queueInLoop f) => some { calling w t (w.loop.wakeForWork t) none with returned := w.returned ++ [f] }
    | some .addTimer => some (calling w t (w.loop.wakeForWork t) none)
    | some .cancel => some (calling w t (w.loop.wakeFromOutside t) none)
    | some .quit =>
      some { calling w t (w.loop.wakeFromOutside t) none with
        quitReturned := true
        begun := if w.quitReturned then w.begun else 0 }
    | none => none

/- The steps of the loop's own thread with what each changes. -/
inductive LoopTaken (w : World) : LoopStep → World → Prop where
  | start (phase : w.phase = .spawned) :
      LoopTaken w .start { w with loop := { w.loop with threadId := w.self }, phase := .entering }
  | enter (phase : w.phase = .entering) :
      LoopTaken w .enter { w with loop := { w.loop with quit := false }, phase := .test }
  | leave (phase : w.phase = .test) (quit : w.loop.quit = true) : LoopTaken w .test { w with phase := .exited }
  | begin_ (phase : w.phase = .test) (quit : w.loop.quit = false) :
      LoopTaken w .test { w with phase := .timeout, begun := w.begun + 1 }
  | timeout {now} (phase : w.phase = .timeout) :
      LoopTaken w (.timeout now) { w with
        loop := { w.loop with timers := (w.loop.timers.getPollTimeoutMs now).2 }
        phase := .poll (w.loop.timers.getPollTimeoutMs now).1 }
  | pollReturns {active timeoutMs} (phase : w.phase = .poll timeoutMs)
      (readable : Ready.wakeup ∈ active → w.loop.wakeup ≠ 0) :
      LoopTaken w (.pollReturns active) { w with phase := .events active }
  | drain {rest} (phase : w.phase = .events (.wakeup :: rest)) :
      LoopTaken w .handle { w with loop := { w.loop with wakeup := 0 }, phase := .events rest }
  | handle {rest} (phase : w.phase = .events (.channel :: rest)) :
      LoopTaken w .handle { w with phase := .handling rest }
  | handled {rest} (phase : w.phase = .handling rest) : LoopTaken w .handled { w with phase := .events rest }
  | calling (phase : w.phase = .events []) :
      LoopTaken w .store { w with loop := { w.loop with callingPendingFunctors := true }, phase := .swap }
  | swap (phase : w.phase = .swap) :
      LoopTaken w .swap { w with
        loop := { w.loop with pendingFunctors := [] }
        phase := .functors w.loop.pendingFunctors }
  | call {f rest} (phase : w.phase = .functors (f :: rest)) :
      LoopTaken w .call { w with executed := w.executed ++ [f], phase := .functor rest }
  | called {rest} (phase : w.phase = .functor rest) : LoopTaken w .called { w with phase := .functors rest }
  | calledAll (phase : w.phase = .functors []) :
      LoopTaken w .store { w with loop := { w.loop with callingPendingFunctors := false }, phase := .timers }
  | collect {now} (phase : w.phase = .timers) :
      LoopTaken w (.collect now) { w with
        loop := { w.loop with timers := (w.loop.timers.collect now).2 }
        phase := .ready (w.loop.timers.collect now).1 }
  | fire {id rest} (phase : w.phase = .ready (id :: rest)) :
      LoopTaken w .fire { w with phase := .fired (w.loop.timers.mayFire id) id rest }
  | finish {now running id rest} (phase : w.phase = .fired running id rest) :
      LoopTaken w (.finish now) { w with
        loop := { w.loop with timers := w.loop.timers.finish now id }
        phase := .ready rest }
  | again (phase : w.phase = .ready []) : LoopTaken w .again { w with phase := .test }

theorem loopTaken {w w' : World} {s : LoopStep} (h : loopStep w s = some w') : LoopTaken w s w' := by
  unfold loopStep at h
  split at h
  case h_1 phase => cases h; exact .start phase
  case h_2 phase => cases h; exact .enter phase
  case h_3 phase =>
    dsimp only at h
    split at h <;> cases h
    · exact .leave phase (by assumption)
    · exact .begin_ phase (by simpa using (by assumption : ¬ w.loop.quit = true))
  case h_4 phase => cases h; exact .timeout phase
  case h_5 phase =>
    dsimp only at h
    split at h <;> cases h
    rename_i ok
    exact .pollReturns phase (fun member none => ok ⟨member,none⟩)
  case h_6 phase => cases h; exact .drain phase
  case h_7 phase => cases h; exact .handle phase
  case h_8 phase => cases h; exact .handled phase
  case h_9 phase => cases h; exact .calling phase
  case h_10 phase => cases h; exact .swap phase
  case h_11 phase => cases h; exact .call phase
  case h_12 phase => cases h; exact .called phase
  case h_13 phase => cases h; exact .calledAll phase
  case h_14 phase => cases h; exact .collect phase
  case h_15 phase => cases h; exact .fire phase
  case h_16 phase => cases h; exact .finish phase
  case h_17 phase => cases h; exact .again phase
  case h_18 => cases h

/- The steps of the machine: the calls in their two halves, the loop's own steps apart. -/
inductive Step (w : World) : Action → World → Prop where
  | loop {s w'} (quiet : w.calls w.self = none) (taken : LoopTaken w s w') : Step w (.loop s) w'
  | callLoop (own : w.worker = false) (quiet : w.calls w.self = none) (phase : w.phase = .idle ∨ w.phase = .exited) :
      Step w .callLoop { w with phase := .entering, quitReturned := false, begun := 0 }
  | queueInLoop {t} (may : mayCall w t = true) :
      Step w (.queueInLoop t) { calling w t
        { w.loop with pendingFunctors := w.loop.pendingFunctors ++ [w.pushed] } (some (.queueInLoop w.pushed)) with
        pushed := w.pushed + 1 }
  | quit {t} (may : mayCall w t = true) :
      Step w (.quit t) { calling w t { w.loop with quit := true } (some .quit) with owed := w.returned }
  | timers {a t timers c} (outside : ∀ s, a ≠ .loop s) (may : mayCall w t = true)
      (quiet : c = none ∨ c = some .addTimer ∨ c = some .cancel) :
      Step w a (calling w t { w.loop with timers := timers } c)
  | queued {t f} (held : w.calls t = some (.queueInLoop f)) :
      Step w (.returns t) { calling w t (w.loop.wakeForWork t) none with returned := w.returned ++ [f] }
  | added {t} (held : w.calls t = some .addTimer) : Step w (.returns t) (calling w t (w.loop.wakeForWork t) none)
  | cancelled {t} (held : w.calls t = some .cancel) : Step w (.returns t) (calling w t (w.loop.wakeFromOutside t) none)
  | quitted {t} (held : w.calls t = some .quit) :
      Step w (.returns t) { calling w t (w.loop.wakeFromOutside t) none with
        quitReturned := true
        begun := if w.quitReturned then w.begun else 0 }

/- The same with each call that changes the timers on its own. -/
inductive Taken (w : World) : Action → World → Prop where
  | loop {s w'} (quiet : w.calls w.self = none) (moved : LoopTaken w s w') : Taken w (.loop s) w'
  | callLoop (own : w.worker = false) (quiet : w.calls w.self = none) (phase : w.phase = .idle ∨ w.phase = .exited) :
      Taken w .callLoop { w with phase := .entering, quitReturned := false, begun := 0 }
  | queueInLoop {t} (may : mayCall w t = true) :
      Taken w (.queueInLoop t) { calling w t
        { w.loop with pendingFunctors := w.loop.pendingFunctors ++ [w.pushed] } (some (.queueInLoop w.pushed)) with
        pushed := w.pushed + 1 }
  | quit {t} (may : mayCall w t = true) :
      Taken w (.quit t) { calling w t { w.loop with quit := true } (some .quit) with owed := w.returned }
  | runAt {t when_ callback} (may : mayCall w t = true) :
      Taken w (.runAt t when_ callback)
        (calling w t { w.loop with timers := w.loop.timers.runAt when_ callback } (some .addTimer))
  | runEvery {t now interval callback} (may : mayCall w t = true) :
      Taken w (.runEvery t now interval callback)
        (calling w t { w.loop with timers := w.loop.timers.runEvery now interval callback } (some .addTimer))
  | cancel {t id} (may : mayCall w t = true) :
      Taken w (.cancel t id) (calling w t { w.loop with timers := (w.loop.timers.cancel id).1 }
        (if (w.loop.timers.cancel id).2 then some .cancel else none))
  | queued {t f} (held : w.calls t = some (.queueInLoop f)) :
      Taken w (.returns t) { calling w t (w.loop.wakeForWork t) none with returned := w.returned ++ [f] }
  | added {t} (held : w.calls t = some .addTimer) : Taken w (.returns t) (calling w t (w.loop.wakeForWork t) none)
  | cancelled {t} (held : w.calls t = some .cancel) :
      Taken w (.returns t) (calling w t (w.loop.wakeFromOutside t) none)
  | quitted {t} (held : w.calls t = some .quit) :
      Taken w (.returns t) { calling w t (w.loop.wakeFromOutside t) none with
        quitReturned := true
        begun := if w.quitReturned then w.begun else 0 }

theorem takenCases {w w' : World} {a : Action} (h : step w a = some w') : Taken w a w' := by
  cases a with
  | loop s =>
    simp only [step] at h
    split at h
    · exact .loop (by assumption) (loopTaken h)
    · cases h
  | callLoop =>
    simp only [step] at h
    split at h <;> cases h
    rename_i ok
    exact .callLoop ok.1 ok.2.1 ok.2.2
  | queueInLoop t =>
    simp only [step] at h
    split at h <;> cases h
    exact .queueInLoop (by assumption)
  | quit t =>
    simp only [step] at h
    split at h <;> cases h
    exact .quit (by assumption)
  | runAt t when_ callback =>
    simp only [step] at h
    split at h <;> cases h
    exact .runAt (by assumption)
  | runEvery t now interval callback =>
    simp only [step] at h
    split at h <;> cases h
    exact .runEvery (by assumption)
  | cancel t id =>
    simp only [step] at h
    split at h <;> cases h
    exact .cancel (by assumption)
  | returns t =>
    simp only [step] at h
    split at h <;> cases h
    · exact .queued (by assumption)
    · exact .added (by assumption)
    · exact .cancelled (by assumption)
    · exact .quitted (by assumption)

theorem stepCases {w w' : World} {a : Action} (h : step w a = some w') : Step w a w' := by
  cases takenCases h with
  | loop quiet moved => exact .loop quiet moved
  | callLoop own quiet phase => exact .callLoop own quiet phase
  | queueInLoop may => exact .queueInLoop may
  | quit may => exact .quit may
  | runAt may => exact .timers (by simp) may (.inr (.inl rfl))
  | runEvery may => exact .timers (by simp) may (.inr (.inl rfl))
  | cancel may =>
    refine .timers (by simp) may ?_
    split
    · exact .inr (.inr rfl)
    · exact .inl rfl
  | queued held => exact .queued held
  | added held => exact .added held
  | cancelled held => exact .cancelled held
  | quitted held => exact .quitted held

/- A loop as its constructor leaves it: a worker's thread has been made, a loop without
one belongs to the thread that made it. -/
def constructed (creator self : ThreadId) (autoStart : Bool) : World :=
  { loop := ⟨creator,false,false,0,[],TimerQueue.empty⟩
    self := self
    worker := autoStart
    phase := if autoStart then .spawned else .idle
    calls := fun _ => none
    pushed := 0
    returned := []
    executed := []
    owed := []
    quitReturned := false
    begun := 0 }

inductive Initial : World → Prop where
  | autoStart {creator self : ThreadId} (other : creator ≠ self) : Initial (constructed creator self true)
  | manual {self : ThreadId} : Initial (constructed self self false)

/- The loop's own calls are made from user code only, and once the thread has begun
it knows itself. -/
structure Located (w : World) : Prop where
  own : w.phase ≠ .spawned → w.loop.threadId = w.self
  user : w.calls w.self ≠ none → userRuns w.phase = true

theorem locatedLoop {w w' : World} {s : LoopStep} (h : Located w) (quiet : w.calls w.self = none)
    (taken : LoopTaken w s w') : Located w' := by
  have own : ∀ {p}, w.phase = p → p ≠ .spawned → w.loop.threadId = w.self := by
    intro p phase other
    exact h.own (by rw [phase]; exact other)
  cases taken with
  | start phase => exact ⟨fun _ => rfl,fun busy => absurd quiet busy⟩
  | enter phase | leave phase | begin_ phase | timeout phase | pollReturns phase | drain phase | handle phase
  | handled phase | calling phase | swap phase | call phase | called phase | calledAll phase | collect phase
  | fire phase | finish phase | again phase =>
    exact ⟨fun _ => own phase (by simp),fun busy => absurd quiet busy⟩

theorem wakeForWorkThread (l : EventLoop) (t : ThreadId) : (l.wakeForWork t).threadId = l.threadId := by
  unfold EventLoop.wakeForWork
  split <;> rfl

theorem wakeFromOutsideThread (l : EventLoop) (t : ThreadId) : (l.wakeFromOutside t).threadId = l.threadId := by
  unfold EventLoop.wakeFromOutside
  split <;> rfl

/- A call, or the end of one, leaves the loop's thread where it is. -/
theorem locatedCall {w w' : World} {t : ThreadId} {c : Option Call} (h : Located w)
    (may : c ≠ none → mayCall w t = true) (thread : w'.loop.threadId = w.loop.threadId)
    (self : w'.self = w.self) (phase : w'.phase = w.phase) (calls : w'.calls = Function.update w.calls t c) :
    Located w' := by
  refine ⟨?_,?_⟩
  · rw [phase, self, thread]; exact h.own
  · rw [self, phase, calls, Function.update_apply]
    intro busy
    split at busy
    · rename_i here
      have allowed := may busy
      simpa [mayCall, here] using (Bool.and_eq_true_iff.mp allowed).2
    · exact h.user busy

theorem locatedStep {w w' : World} {a : Action} (h : Located w) (taken : step w a = some w') : Located w' := by
  cases stepCases taken with
  | loop quiet moved => exact locatedLoop h quiet moved
  | callLoop own quiet phase =>
    refine ⟨fun _ => h.own ?_,fun busy => absurd quiet busy⟩
    rcases phase with phase | phase <;> simp [phase]
  | queueInLoop may => exact locatedCall h (fun _ => may) rfl rfl rfl rfl
  | quit may => exact locatedCall h (fun _ => may) rfl rfl rfl rfl
  | timers outside may quiet => exact locatedCall h (fun _ => may) rfl rfl rfl rfl
  | queued held => exact locatedCall h (fun busy => absurd rfl busy) (wakeForWorkThread _ _) rfl rfl rfl
  | added held => exact locatedCall h (fun busy => absurd rfl busy) (wakeForWorkThread _ _) rfl rfl rfl
  | cancelled held => exact locatedCall h (fun busy => absurd rfl busy) (wakeFromOutsideThread _ _) rfl rfl rfl
  | quitted held => exact locatedCall h (fun busy => absurd rfl busy) (wakeFromOutsideThread _ _) rfl rfl rfl

theorem locatedInitial {w : World} (h : Initial w) : Located w := by
  cases h with
  | autoStart other => exact ⟨fun begun => absurd rfl begun,fun busy => absurd rfl busy⟩
  | manual => exact ⟨fun _ => rfl,fun busy => absurd rfl busy⟩

end Loop
end TcFrame
