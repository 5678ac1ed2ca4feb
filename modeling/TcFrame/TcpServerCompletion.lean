import TcFrame.TableSum
import TcFrame.TcpServerStop
import TcFrame.TcpServerTurns

/-! The completion callbacks. StopGracefully keeps one of them at a time, that of the last
call that brought one; the end of the stop calls it. -/
namespace TcFrame.TcpServer
open Endpoint Machine

def Task.carried : Task → List Nat
  | .stopGracefully cb => cb.toList
  | _ => []

def Act.carried : Act → List Nat
  | .call _ task => task.carried
  | _ => []

/- The callbacks in calls of StopGracefully that are still to run. -/
def onStack (acts : List Act) : List Nat := acts.flatMap Act.carried

def inQueue (tasks : List Task) : List Nat := tasks.flatMap Task.carried

/- `n` is more than the number of any thread that calls StopGracefully. -/
def inFlight (n : Nat) (w : World) (cb : Nat) : Nat :=
  TableSum.upTo n (fun acts => (onStack acts).count cb) w.stack + (inQueue (w.queue mainLoop)).count cb

/- The callback of a call that the step makes, and of one that it runs. -/
def passedBy : Action → List Nat
  | .user _ (.stopGracefully cb) => cb.toList
  | _ => []

def stopCall (w : World) : Action → Option (Option Nat)
  | .goOn t =>
    match w.stack t with
    | .call l (.stopGracefully cb) :: _ => if t = l then some cb else none
    | _ => none
  | _ => none

def slot (w : World) : Option Nat := w.server.shutdownCompleteCallback

/- The callback that the step throws away for that of a later call. -/
def replacedBy (w : World) (a : Action) : List Nat :=
  match stopCall w a with
  | some (some _) => if w.server.started && w.server.stopping then (slot w).toList else []
  | _ => []

structure Calls where
  passed : List Nat
  replaced : List Nat

def withCalls : World × Calls → Action → Option (World × Calls) :=
  recording step (fun w a _ calls => ⟨calls.passed ++ passedBy a,calls.replaced ++ replacedBy w a⟩)

/- A function that has nothing to do with the callbacks. -/
structure Apart (w : World) (out : Effect) : Prop where
  stopping : out.1.server.stopping = w.server.stopping
  slot : slot out.1 = slot w
  completed : out.1.completed = w.completed
  stack : out.1.stack = w.stack
  queue : inQueue (out.1.queue mainLoop) = inQueue (w.queue mainLoop)
  frames : onStack out.2 = []

/- The steps that hand a callback on, keep it or call it, and all the others. -/
inductive Answers (w : World) : Action → World → Prop where
  | apart {a t top below out} (calls : stopCall w a = none) (passes : passedBy a = [])
      (split : w.stack t = top ++ below) (mild : onStack top = []) (does : Apart w out) :
      Answers w a (settle t below out)
  | passed {t cb} :
      Answers w (.user t (.stopGracefully cb)) (settle t (w.stack t) (w,[.call mainLoop (.stopGracefully cb)]))
  | handed {t cb below} (top : w.stack t = .call mainLoop (.stopGracefully cb) :: below) (other : t ≠ mainLoop) :
      Answers w (.goOn t) (settle t below
        ({ w with queue := Function.update w.queue mainLoop (w.queue mainLoop ++ [.stopGracefully cb]) },[]))
  | fetched {cb rest} (idle : w.stack mainLoop = []) (head : w.queue mainLoop = .stopGracefully cb :: rest) :
      Answers w (.runQueued mainLoop) (settle mainLoop []
        ({ w with queue := Function.update w.queue mainLoop rest },[.call mainLoop (.stopGracefully cb)]))
  | ran {cb below} (top : w.stack mainLoop = .call mainLoop (.stopGracefully cb) :: below) :
      Answers w (.goOn mainLoop) (settle mainLoop below (stopGracefully w cb))
  | ended {force below} (top : w.stack mainLoop = .finishStop force :: below) :
      Answers w (.goOn mainLoop) (settle mainLoop below (finishStop w force))

@[simp] theorem onStackNil : onStack [] = [] := rfl

theorem onStackNone {acts : List Act} (none_ : ∀ a ∈ acts, a.carried = []) : onStack acts = [] :=
  List.flatMap_eq_nil_iff.mpr none_

theorem onStackConn {frames : List Frame} {c : ConnId} : onStack (frames.map (.conn c)) = [] := by
  simp [onStack, Act.carried]

theorem apartSame (w : World) {acts : List Act} (frames : onStack acts = []) : Apart w (w,acts) :=
  ⟨rfl,rfl,rfl,rfl,rfl,frames⟩

theorem apartConn (w : World) (c : ConnId) (out : Endpoint × List Frame) : Apart w (ofConn w c out) :=
  ⟨rfl,rfl,rfl,rfl,rfl,onStackConn⟩

theorem apartCall (w : World) (t : ThreadId) (c : ConnId) (call : UserCall) {again : List Act} (rest : onStack again = []) :
    Apart w ((callConn w t c call).1,(callConn w t c call).2 ++ again) := by
  refine ⟨rfl,rfl,rfl,rfl,rfl,?_⟩
  have frames : onStack (callConn w t c call).2 = [] := by simp [onStack, callConn, Act.carried, Task.carried]
  rw [onStack, List.flatMap_append]
  exact List.append_eq_nil_iff.mpr ⟨frames,rest⟩

theorem apartEach (w : World) (t : ThreadId) (call : UserCall) (x : Entry) {again : Act} (rest : again.carried = []) :
    Apart w (eachEntry w t call x again) := by
  have alone : onStack [again] = [] := by simp [onStack, rest]
  unfold eachEntry
  split
  · exact apartCall w t x.2 call alone
  · exact apartSame w alone

theorem apartFinalize (w : World) (force : Bool) : Apart w (finalizeGracefulStop w force) := by
  unfold finalizeGracefulStop
  split <;> exact apartSame w rfl

theorem apartSweepEntry (w : World) (x : Entry) (rest : List Entry) (stale : List ConnId) (force : Bool) :
    Apart w (sweepEntry w x rest stale force) := by
  unfold sweepEntry
  split <;> exact ⟨rfl,rfl,rfl,rfl,rfl,rfl⟩

theorem apartSweepEnd (w : World) (stale : List ConnId) (force : Bool) : Apart w (sweepEnd w stale force) := by
  refine apartSame w (onStackNone ?_)
  cases force <;> simp [Act.carried, Task.carried, or_imp, forall_and]

theorem apartStopTail (w : World) : Apart w (stopTail w) := by
  unfold stopTail
  split
  · exact apartFinalize w false
  · exact ⟨rfl,rfl,rfl,rfl,rfl,rfl⟩

theorem apartRemoveTail (w : World) : Apart w (removeTail w) := by
  unfold removeTail
  split
  · exact apartFinalize w false
  · exact apartSame w rfl

theorem apartRemove (w : World) (c : ConnId) : Apart w (removeInLoop w c) := by
  unfold removeInLoop
  split
  · exact ⟨rfl,rfl,rfl,rfl,rfl,rfl⟩
  · split <;> exact ⟨rfl,rfl,rfl,rfl,rfl,rfl⟩

theorem apartAccept (w : World) (fd : Fd) (bufferSize : Nat) :
    Apart w (newConnection { w with acceptReady := false } fd bufferSize) := by
  unfold newConnection
  dsimp only
  split <;> exact ⟨rfl,rfl,rfl,rfl,rfl,rfl⟩

theorem inQueueAppend (tasks : List Task) (task : Task) : inQueue (tasks ++ [task]) = inQueue tasks ++ task.carried := by
  simp [inQueue]

theorem apartHand (w : World) (l : ThreadId) {task : Task} (empty : task.carried = []) :
    Apart w ({ w with queue := Function.update w.queue l (w.queue l ++ [task]) },[]) := by
  refine ⟨rfl,rfl,rfl,rfl,?_,rfl⟩
  by_cases main : mainLoop = l
  · subst main
    simp only [Function.update_self]
    rw [inQueueAppend, empty, List.append_nil]
  · simp only [Function.update_of_ne main]

def isStopCall : Act → Bool
  | .call _ (.stopGracefully _) => true
  | _ => false

theorem stopCallTop {w : World} {t : ThreadId} {f : Act} {below : List Act} (top : w.stack t = f :: below)
    (other : isStopCall f = false) : stopCall w (.goOn t) = none := by
  simp only [stopCall, top]
  split
  · rename_i same
    cases same
    cases other
  · rfl

theorem apartTop {w : World} {t : ThreadId} {f : Act} {below : List Act} {out : Effect} (top : w.stack t = f :: below)
    (other : isStopCall f = false) (does : Apart w out) : Answers w (.goOn t) (settle t below out) := by
  have mild : onStack [f] = [] := by
    cases f with
    | call l task => cases task <;> first | rfl | cases other
    | _ => rfl
  exact .apart (stopCallTop top other) rfl (topSplit top) mild does

theorem answersCall {w : World} {t l : ThreadId} {task : Task} {below : List Act} (p : Placed w)
    (top : w.stack t = .call l task :: below) : Answers w (.goOn t) (settle t below (runInLoop w t l task)) := by
  unfold runInLoop
  split
  · rename_i here
    subst here
    cases task with
    | conn c f => exact apartTop top rfl (apartConn w c _)
    | remove c => exact apartTop top rfl (apartRemove w c)
    | stopGracefully cb =>
      have main : t = mainLoop := topFits p top
      subst main
      exact .ran top
  · rename_i other
    cases task with
    | conn c f => exact apartTop top rfl (apartHand w l rfl)
    | remove c => exact apartTop top rfl (apartHand w l rfl)
    | stopGracefully cb =>
      have main : l = mainLoop := topFits p top
      subst main
      exact .handed top other

theorem answersGoOn {w : World} {t : ThreadId} {f : Act} {below : List Act} {out : Effect} (p : Placed w)
    (top : w.stack t = f :: below) (went : goOn w t f = some out) : Answers w (.goOn t) (settle t below out) := by
  cases f with
  | conn c f =>
    cases f with
    | closeCallback => cases went; exact apartTop top rfl (apartSame w rfl)
    | sendTail | closeSocket | invalidateSocket => cases went; exact apartTop top rfl (apartConn w c _)
    | _ => cases went
  | call l task => cases went; exact answersCall p top
  | removeTail => cases went; exact apartTop top rfl (apartRemoveTail w)
  | shutdownAll rest =>
    cases rest with
    | nil => cases went; exact apartTop top rfl (apartSame w rfl)
    | cons x rest => cases went; exact apartTop top rfl (apartEach w _ _ _ rfl)
  | stopTail => cases went; exact apartTop top rfl (apartStopTail w)
  | sweep rest stale force =>
    cases rest with
    | nil => cases went; exact apartTop top rfl (apartSweepEnd w _ _)
    | cons x rest => cases went; exact apartTop top rfl (apartSweepEntry w _ _ _ _)
  | forceAll rest =>
    cases rest with
    | nil => cases went; exact apartTop top rfl (apartSame w rfl)
    | cons x rest => cases went; exact apartTop top rfl (apartEach w _ _ _ rfl)
  | finishStop force =>
    cases went
    have main : t = mainLoop := topFits p top
    subst main
    exact .ended top
  | closeIdle rest =>
    cases rest with
    | nil => cases went; exact apartTop top rfl (apartSame w rfl)
    | cons c rest => cases went; exact apartTop top rfl (apartCall w _ _ _ rfl)
  | completeCallback cb => cases went

theorem apartFetch {w : World} {l : ThreadId} {task : Task} {rest : List Task} (head : w.queue l = task :: rest)
    (empty : task.carried = []) : Apart w ({ w with queue := Function.update w.queue l rest },[.call l task]) := by
  refine ⟨rfl,rfl,rfl,rfl,?_,by simp [onStack, Act.carried, empty]⟩
  by_cases main : mainLoop = l
  · subst main
    rw [head]
    simp [inQueue, empty]
  · simp [main]

theorem answersStep {w w' : World} {a : Action} (p : Placed w) (taken : step w a = some w') : Answers w a w' := by
  have whole : ∀ t, w.stack t = [] ++ w.stack t := fun t => rfl
  cases takenCases taken with
  | start runs =>
    have same : Apart w (startServer w,[]) := by
      unfold startServer
      split <;> exact ⟨rfl,rfl,rfl,rfl,rfl,rfl⟩
    have stack : (startServer w).stack = w.stack := same.stack
    rw [← settleKept mainLoop stack]
    exact .apart rfl rfl (whole _) rfl same
  | @userConn t c call runs known =>
    have called : Apart w (callConn w t c call) := by simpa using @apartCall w t c call [] rfl
    exact .apart rfl rfl (whole t) rfl called
  | userStop runs => exact .passed
  | goOn top went => exact answersGoOn p top went
  | @ret t f below top callback =>
    have mild : onStack [f] = [] := by cases f <;> first | rfl | cases callback
    exact .apart rfl rfl (topSplit top) mild (apartSame w rfl)
  | @runQueued l task rest idle head loop handled =>
    cases task with
    | conn c f => exact .apart rfl rfl (idleSplit idle) rfl (apartFetch head rfl)
    | remove c => exact .apart rfl rfl (idleSplit idle) rfl (apartFetch head rfl)
    | stopGracefully cb =>
      have main : l = mainLoop := p.queues l (.stopGracefully cb) (by simp [head])
      subst main
      exact .fetched idle head
  | poll idle =>
    have same : Apart w ({ w with acceptReady := w.server.listening },[]) := ⟨rfl,rfl,rfl,rfl,rfl,rfl⟩
    rw [← @settleKept w { w with acceptReady := w.server.listening } mainLoop rfl]
    exact .apart rfl rfl (whole _) rfl same
  | @accept fd bufferSize idle ready free => exact .apart rfl rfl (idleSplit idle) rfl (apartAccept w fd bufferSize)
  | @event c ev idle known up ok => exact .apart rfl rfl (idleSplit idle) rfl (apartConn w c _)
  | scanIdle between armed => exact .apart rfl rfl (idleSplit (betweenIdle between)) rfl (apartSame w rfl)
  | checkTimer between armed =>
    refine .apart rfl rfl (idleSplit (betweenIdle between)) rfl ?_
    split
    · exact apartFinalize w false
    · exact apartSame w rfl
  | deadlineTimer between armed =>
    have done := apartFinalize { w with server := { w.server with deadlineTimer := false }, deadlineRan := true } true
    exact .apart rfl rfl (idleSplit (betweenIdle between)) rfl
      ⟨done.stopping,done.slot,done.completed,done.stack,done.queue,done.frames⟩

theorem onStackAppend (acts below : List Act) : onStack (acts ++ below) = onStack acts ++ onStack below := by
  simp [onStack]

/- A thread beyond `n` carries no callback. -/
def Inside (n : Nat) (w : World) : Prop := ∀ t, n ≤ t → onStack (w.stack t) = []

section Settle
variable {n : Nat} {w : World} {t : ThreadId} {top below : List Act} {out : Effect}

/- What the step of a thread does to the callbacks in flight: what it takes from its
stack and the queue is gone, what it leaves there is new. -/
theorem flightSettle {mine left before after : List Nat} (cb : Nat) (split : w.stack t = top ++ below)
    (stack : out.1.stack = w.stack) (mine_ : onStack top = mine) (left_ : onStack out.2 = left)
    (before_ : inQueue (w.queue mainLoop) = before) (after_ : inQueue (out.1.queue mainLoop) = after)
    (bound : t < n ∨ mine = [] ∧ left = []) :
    inFlight n (settle t below out) cb + (mine.count cb + before.count cb) =
      inFlight n w cb + (left.count cb + after.count cb) := by
  have updated : (settle t below out).stack = Function.update w.stack t (out.2 ++ below) := by rw [settle, stack]
  have queue : (settle t below out).queue = out.1.queue := rfl
  rw [inFlight, inFlight, updated, queue, before_, after_]
  rcases bound with within | ⟨mild,plain⟩
  · have moved := TableSum.upToUpdate within (fun acts => (onStack acts).count cb) w.stack (out.2 ++ below)
    simp only [split, onStackAppend, mine_, left_, List.count_append] at moved
    omega
  · have same : TableSum.upTo n (fun acts => (onStack acts).count cb) (Function.update w.stack t (out.2 ++ below)) =
        TableSum.upTo n (fun acts => (onStack acts).count cb) w.stack := by
      refine TableSum.upToSame (fun u _ => ?_)
      rw [Function.update_apply]
      split
      · rename_i here
        rw [here, split, onStackAppend, onStackAppend, mine_, left_, mild, plain]
      · rfl
    rw [same, mild, plain]
    omega

theorem insideSettle (h : Inside n w) (split : w.stack t = top ++ below) (stack : out.1.stack = w.stack)
    (bound : t < n ∨ onStack out.2 = []) : Inside n (settle t below out) := by
  intro u beyond
  simp only [settle, stack, Function.update_apply]
  split
  · rename_i here
    subst here
    have none_ := h u beyond
    rw [split, onStackAppend, List.append_eq_nil_iff] at none_
    rw [onStackAppend, none_.2, bound.resolve_left (Nat.not_lt_of_le beyond)]
    rfl
  · exact h u beyond

end Settle

/- StopGracefully and the end of a stop hand nothing on. -/
theorem stopHands (w : World) (cb : Option Nat) : (stopGracefully w cb).1.stack = w.stack ∧
    (stopGracefully w cb).1.queue = w.queue ∧ onStack (stopGracefully w cb).2 = [] := by
  unfold stopGracefully
  dsimp only
  split
  · exact ⟨rfl,rfl,onStackNone (by simp [Act.carried])⟩
  · split <;> exact ⟨rfl,rfl,rfl⟩

theorem finishHands (w : World) (force : Bool) : (finishStop w force).1.stack = w.stack ∧
    (finishStop w force).1.queue = w.queue ∧ onStack (finishStop w force).2 = [] := by
  unfold finishStop
  split
  · exact ⟨rfl,rfl,rfl⟩
  · exact ⟨rfl,rfl,onStackNone (by simp [Act.carried])⟩

theorem carriedStop {cb : Option Nat} {l : ThreadId} : onStack [.call l (.stopGracefully cb)] = cb.toList := by
  simp [onStack, Act.carried, Task.carried]

/- What is passed is in flight until the call runs. -/
theorem flightStep {n : Nat} {w w' : World} {a : Action} (answers : Answers w a w') (main : 0 < n)
    (within : ∀ t cb, a = .user t (.stopGracefully cb) → t < n) (h : Inside n w) : Inside n w' ∧
    ∀ cb, inFlight n w' cb + (stopCall w a).join.toList.count cb = inFlight n w cb + (passedBy a).count cb := by
  cases answers with
  | apart calls passes split mild does =>
    refine ⟨insideSettle h split does.stack (.inr does.frames),fun cb => ?_⟩
    have moved := @flightSettle n _ _ _ _ _ _ _ _ _ cb split does.stack mild does.frames rfl does.queue (.inr ⟨rfl,rfl⟩)
    rw [calls, passes]
    exact Nat.add_right_cancel moved
  | @passed t cb' =>
    have bound := within t cb' rfl
    have split : w.stack t = [] ++ w.stack t := rfl
    refine ⟨insideSettle h split rfl (.inl bound),fun cb => ?_⟩
    have moved := @flightSettle n w t [] _ (w,[.call mainLoop (.stopGracefully cb')]) _ _ _ _ cb split rfl rfl carriedStop
      rfl rfl (.inl bound)
    have called : stopCall w (.user t (.stopGracefully cb')) = none := rfl
    simp only [called, passedBy, onStackNil, Option.join_none, Option.toList_none, List.count_nil] at moved ⊢
    omega
  | @handed t cb' below top other =>
    have split : w.stack t = [.call mainLoop (.stopGracefully cb')] ++ below := top
    have bound : t < n ∨ cb'.toList = [] ∧ ([] : List Nat) = [] := by
      rcases Nat.lt_or_ge t n with within | beyond
      · exact .inl within
      · have none_ := h t beyond
        rw [split, onStackAppend, List.append_eq_nil_iff, carriedStop] at none_
        exact .inr ⟨none_.1,rfl⟩
    refine ⟨insideSettle h split rfl (.inr rfl),fun cb => ?_⟩
    have after : inQueue ((Function.update w.queue mainLoop (w.queue mainLoop ++ [.stopGracefully cb'])) mainLoop) =
        inQueue (w.queue mainLoop) ++ cb'.toList := by
      rw [Function.update_self]
      exact inQueueAppend _ _
    have moved := @flightSettle n w t _ below
      ({ w with queue := Function.update w.queue mainLoop (w.queue mainLoop ++ [.stopGracefully cb']) },[]) _ _ _ _ cb
      split rfl carriedStop rfl rfl after bound
    have called : stopCall w (.goOn t) = none := by simp [stopCall, top, other]
    simp only [called, passedBy, onStackNil, Option.join_none, Option.toList_none, List.count_nil, List.count_append] at moved ⊢
    omega
  | @fetched cb' rest idle head =>
    have split : w.stack mainLoop = [] ++ [] := idle
    refine ⟨insideSettle h split rfl (.inl main),fun cb => ?_⟩
    have before : inQueue (w.queue mainLoop) = cb'.toList ++ inQueue rest := by rw [head]; rfl
    have after : inQueue ((Function.update w.queue mainLoop rest) mainLoop) = inQueue rest := by rw [Function.update_self]
    have moved := @flightSettle n w mainLoop [] []
      ({ w with queue := Function.update w.queue mainLoop rest },[.call mainLoop (.stopGracefully cb')]) _ _ _ _ cb
      split rfl rfl carriedStop before after (.inl main)
    have called : stopCall w (.runQueued mainLoop) = none := rfl
    simp only [called, passedBy, onStackNil, Option.join_none, Option.toList_none, List.count_nil, List.count_append] at moved ⊢
    omega
  | @ran cb' below top =>
    have split : w.stack mainLoop = [.call mainLoop (.stopGracefully cb')] ++ below := top
    obtain ⟨stack,queue,frames⟩ := stopHands w cb'
    refine ⟨insideSettle h split stack (.inr frames),fun cb => ?_⟩
    have moved := flightSettle cb split stack carriedStop frames rfl (by rw [queue]) (.inl main)
    have called : stopCall w (.goOn mainLoop) = some cb' := by simp [stopCall, top]
    simp only [called, passedBy, Option.join_some, List.count_nil] at moved ⊢
    omega
  | @ended force below top =>
    have split : w.stack mainLoop = [.finishStop force] ++ below := top
    obtain ⟨stack,queue,frames⟩ := finishHands w force
    refine ⟨insideSettle h split stack (.inr frames),fun cb => ?_⟩
    have mild : onStack [.finishStop force] = [] := rfl
    have moved := flightSettle cb split stack mild frames rfl (by rw [queue]) (.inl main)
    have called : stopCall w (.goOn mainLoop) = none := by simp [stopCall, top]
    simp only [called, passedBy, Option.join_none, Option.toList_none, List.count_nil] at moved ⊢
    omega

/- What a step does to the callbacks: the call on a server that is not started makes its
own at once, any other call leaves its own for the end of the stop, and the end of a stop
makes the one that was left, with no connection in the table. -/
structure Answered (w : World) (a : Action) (w' : World) : Prop where
  atOnce : ∀ cb, stopCall w a = some (some cb) → w.server.started = false → w'.completed = w.completed ++ [cb]
  held : ∀ cb, stopCall w a = some (some cb) → w.server.started = true →
    w'.server.stopping = true ∧ slot w' = some cb
  ends : w.server.stopping = true → w'.server.stopping = false →
    w'.completed = w.completed ++ (slot w).toList ∧ w'.noConnections = true
  called : w'.completed = w.completed ∨
    (∃ cb, stopCall w a = some (some cb) ∧ w.server.started = false) ∨
    w.server.stopping = true ∧ w'.server.stopping = false

theorem answeredKept {w w' : World} {a : Action} (calls : stopCall w a = none)
    (stopping : w'.server.stopping = w.server.stopping) (completed : w'.completed = w.completed) : Answered w a w' where
  atOnce cb ran _ := by rw [calls] at ran; cases ran
  held cb ran _ := by rw [calls] at ran; cases ran
  ends on off := by rw [stopping, on] at off; cases off
  called := .inl completed

/- What StopGracefully does with its callback. -/
inductive TakesCallback (w : World) (cb : Option Nat) (w' : World) : Prop where
  | atOnce (off : w.server.started = false) (stopping : w'.server.stopping = w.server.stopping)
      (slot_ : slot w' = slot w) (completed : w'.completed = w.completed ++ cb.toList) : TakesCallback w cb w'
  | again (on : w.server.started = true) (stopping : w.server.stopping = true) (stays : w'.server.stopping = true)
      (slot_ : slot w' = if cb.isSome then cb else slot w) (completed : w'.completed = w.completed) :
      TakesCallback w cb w'
  | begins (on : w.server.started = true) (off : w.server.stopping = false) (begun : w'.server.stopping = true)
      (slot_ : slot w' = cb) (completed : w'.completed = w.completed) : TakesCallback w cb w'

theorem takesCallback (w : World) (cb : Option Nat) (t : ThreadId) (below : List Act) :
    TakesCallback w cb (settle t below (stopGracefully w cb)) := by
  unfold stopGracefully
  dsimp only
  split
  · rename_i off
    exact .atOnce (by simpa using off) rfl rfl rfl
  · rename_i on
    split
    · rename_i stopping
      exact .again (by simpa using on) stopping stopping rfl rfl
    · rename_i off
      exact .begins (by simpa using on) (by simpa using off) rfl rfl rfl

theorem answeredStop {w w' : World} {a : Action} {cb : Option Nat} (calls : stopCall w a = some cb)
    (takes : TakesCallback w cb w') : Answered w a w' := by
  have same : ∀ k, stopCall w a = some (some k) → cb = some k := fun k ran => Option.some.inj (calls.symm.trans ran)
  cases takes with
  | atOnce off stopping slot_ completed =>
    refine ⟨fun k ran _ => ?_,fun k _ on => ?_,fun on over_ => ?_,?_⟩
    · rw [completed, same k ran]
      rfl
    · cases off.symm.trans on
    · rw [stopping, on] at over_
      cases over_
    · cases cb with
      | none => exact .inl (completed.trans (List.append_nil _))
      | some k => exact .inr (.inl ⟨k,calls,off⟩)
  | again on stopping stays slot_ completed =>
    refine ⟨fun k _ off => ?_,fun k ran _ => ⟨stays,?_⟩,fun _ over_ => ?_,.inl completed⟩
    · cases off.symm.trans on
    · rw [slot_, same k ran]
      rfl
    · cases stays.symm.trans over_
  | begins on off begun slot_ completed =>
    refine ⟨fun k _ off => ?_,fun k ran _ => ⟨begun,?_⟩,fun _ over_ => ?_,.inl completed⟩
    · cases off.symm.trans on
    · rw [slot_, same k ran]
    · cases begun.symm.trans over_

theorem answeredFinish {w : World} {force : Bool} {below : List Act} (h : Stop w)
    (free : w.server.stopping = false → slot w = none) (top : w.stack mainLoop = .finishStop force :: below) :
    Answered w (.goOn mainLoop) (settle mainLoop below (finishStop w force)) := by
  have calls : stopCall w (.goOn mainLoop) = none := by simp [stopCall, top]
  unfold finishStop
  split
  · exact answeredKept calls rfl rfl
  · rename_i ended
    have empty : w.noConnections = true := by
      cases force with
      | true => simpa using ended
      | false => exact h.flags.unforced (.finishStop false) (by simp [top]) rfl
    refine ⟨fun cb ran => ?_,fun cb ran => ?_,fun _ _ => ⟨rfl,empty⟩,?_⟩
    · rw [calls] at ran; cases ran
    · rw [calls] at ran; cases ran
    · cases stopping : w.server.stopping with
      | true => exact .inr (.inr ⟨rfl,rfl⟩)
      | false =>
        have none_ : w.server.shutdownCompleteCallback = none := free stopping
        exact .inl (by simp [settle, none_])

theorem answeredStep {w w' : World} {a : Action} (h : Stop w) (free : w.server.stopping = false → slot w = none)
    (answers : Answers w a w') : Answered w a w' := by
  cases answers with
  | apart calls passes split mild does => exact answeredKept calls does.stopping does.completed
  | passed => exact answeredKept rfl rfl rfl
  | handed top other => exact answeredKept (by simp [stopCall, top, other]) rfl rfl
  | fetched idle head => exact answeredKept rfl rfl rfl
  | ran top => exact answeredStop (by simp [stopCall, top]) (takesCallback w _ _ _)
  | ended top => exact answeredFinish h free top

/- Where the callbacks of a step go, besides those in flight. -/
structure Routed (w : World) (a : Action) (w' : World) : Prop where
  free : w'.server.stopping = false → slot w' = none
  even : ∀ cb, w'.completed.count cb + (replacedBy w a).count cb + (slot w').toList.count cb =
    w.completed.count cb + (slot w).toList.count cb + (stopCall w a).join.toList.count cb

theorem routedKept {w w' : World} {a : Action} (free : w.server.stopping = false → slot w = none)
    (calls : stopCall w a = none) (stopping : w'.server.stopping = w.server.stopping) (same : slot w' = slot w)
    (completed : w'.completed = w.completed) : Routed w a w' := by
  refine ⟨by rw [stopping, same]; exact free,fun cb => ?_⟩
  have none_ : replacedBy w a = [] := by rw [replacedBy, calls]
  simp only [none_, calls, same, completed, Option.join_none, Option.toList_none, List.count_nil]
  omega

theorem routedStop {w w' : World} {a : Action} {cb : Option Nat} (h : Stop w)
    (free : w.server.stopping = false → slot w = none) (calls : stopCall w a = some cb)
    (takes : TakesCallback w cb w') : Routed w a w' := by
  have replaced : replacedBy w a =
      if cb.isSome && (w.server.started && w.server.stopping) then (slot w).toList else [] := by
    rw [replacedBy, calls]
    cases cb <;> simp
  cases takes with
  | atOnce off stopping slot_ completed =>
    have over_ : w.server.stopping = false := by
      cases stopping : w.server.stopping with
      | false => rfl
      | true => cases off.symm.trans (h.flags.stopping stopping).1
    refine ⟨fun _ => slot_.trans (free over_),fun k => ?_⟩
    rw [completed, slot_, calls, replaced, off, free over_]
    simp
  | again on stopping stays slot_ completed =>
    refine ⟨fun off => (by cases stays.symm.trans off),fun k => ?_⟩
    rw [completed, slot_, calls, replaced, on, stopping]
    cases cb with
    | none => simp
    | some cb => simp
  | begins on off begun slot_ completed =>
    refine ⟨fun off => (by cases begun.symm.trans off),fun k => ?_⟩
    rw [completed, slot_, calls, replaced, on, off, free off]
    simp

theorem routedFinish {w : World} {force : Bool} {below : List Act} (free : w.server.stopping = false → slot w = none)
    (top : w.stack mainLoop = .finishStop force :: below) :
    Routed w (.goOn mainLoop) (settle mainLoop below (finishStop w force)) := by
  have calls : stopCall w (.goOn mainLoop) = none := by simp [stopCall, top]
  unfold finishStop
  split
  · exact routedKept free calls rfl rfl rfl
  · refine ⟨fun _ => rfl,fun cb => ?_⟩
    have none_ : replacedBy w (.goOn mainLoop) = [] := by rw [replacedBy, calls]
    rw [none_, calls]
    simp [settle, slot]

theorem routedStep {w w' : World} {a : Action} (h : Stop w) (free : w.server.stopping = false → slot w = none)
    (answers : Answers w a w') : Routed w a w' := by
  cases answers with
  | apart calls passes split mild does => exact routedKept free calls does.stopping does.slot does.completed
  | passed => exact routedKept free rfl rfl rfl rfl
  | handed top other => exact routedKept free (by simp [stopCall, top, other]) rfl rfl rfl
  | fetched idle head => exact routedKept free rfl rfl rfl rfl
  | ran top => exact routedStop h free (by simp [stopCall, top]) (takesCallback w _ _ _)
  | ended top => exact routedFinish free top

/- Every callback passed is in flight, has been called, has been thrown away for a later
one, or is the one kept. -/
def Balanced (n : Nat) (w : World) (calls : Calls) : Prop :=
  ∀ cb, calls.passed.count cb =
    inFlight n w cb + w.completed.count cb + calls.replaced.count cb + (slot w).toList.count cb

theorem balancedStep {n : Nat} {w w' : World} {calls : Calls} {a : Action} (h : Stop w)
    (free : w.server.stopping = false → slot w = none) (p : Placed w) (inside : Inside n w) (main : 0 < n)
    (within : ∀ t cb, a = .user t (.stopGracefully cb) → t < n) (b : Balanced n w calls) (taken : step w a = some w') :
    Inside n w' ∧ (w'.server.stopping = false → slot w' = none) ∧
      Balanced n w' ⟨calls.passed ++ passedBy a,calls.replaced ++ replacedBy w a⟩ := by
  have answers := answersStep p taken
  obtain ⟨inside',flight⟩ := flightStep answers main within inside
  have routed := routedStep h free answers
  refine ⟨inside',routed.free,fun cb => ?_⟩
  have before := b cb
  have flying := flight cb
  have even := routed.even cb
  simp only [List.count_append]
  omega

/- In every run each callback passed comes to one of these ends, none is kept past the
stop it was passed to, and every step answers as above. -/
theorem completionCallbacks {n : Nat} {s : World} {x : World × Calls} {as : List Action} (start : Initial s)
    (reached : run withCalls (s,⟨[],[]⟩) as = some x) (main : 0 < n)
    (threads : ∀ t cb, .user t (.stopGracefully cb) ∈ as → t < n) :
    (∀ cb, x.2.passed.count cb =
      inFlight n x.1 cb + x.1.completed.count cb + x.2.replaced.count cb + (slot x.1).toList.count cb) ∧
    (x.1.server.stopping = false → slot x.1 = none) ∧ ∀ a w', step x.1 a = some w' → Answered x.1 a w' := by
  let inv (u : World) (calls : Calls) : Prop := (Registry u ∧ Placed u ∧ Stop u) ∧
    Inside n u ∧ (u.server.stopping = false → slot u = none) ∧ Balanced n u calls
  have first : inv s ⟨[],[]⟩ := by
    refine ⟨⟨registryInitial start,placedInitial start,stopInitial start⟩,?_⟩
    obtain ⟨threadNum,callbacks,mark,idleTimeout,same⟩ := start
    subst same
    refine ⟨fun t _ => rfl,fun _ => rfl,fun cb => ?_⟩
    have none_ : TableSum.upTo n (fun acts => (onStack acts).count cb) (fun _ => []) = 0 := Finset.sum_eq_zero (fun _ _ => rfl)
    exact (Nat.add_eq_zero_iff.mpr ⟨none_,rfl⟩).symm
  have keep : ∀ u a v calls, inv u calls → (∀ t cb, a = .user t (.stopGracefully cb) → t < n) → step u a = some v →
      inv v ⟨calls.passed ++ passedBy a,calls.replaced ++ replacedBy u a⟩ := by
    rintro u a v calls ⟨⟨r,p,h⟩,inside,free,b⟩ within taken
    exact ⟨⟨(registryStep r taken).1,placedStep r p taken,stopStep p h taken⟩,
      balancedStep h free p inside main within b taken⟩
  have within : Throughout withCalls (fun _ a => ∀ t cb, a = .user t (.stopGracefully cb) → t < n) (s,⟨[],[]⟩) as := by
    refine throughoutEach reached (fun bs a cs m v split before taken t cb call => threads t cb ?_)
    rw [split, call]
    simp
  obtain ⟨⟨_,p,h⟩,_,free,b⟩ := recordingWhen keep first within reached
  exact ⟨b,free,fun a w' taken => answeredStep h free (answersStep p taken)⟩

/- The connection's loop takes its time: a second call comes while the first one's stop
goes on. -/
def stoppedTwice : List Action :=
  [.start,.poll,.accept 5 64,.goOn 0,.runQueued 1,.goOn 1,.user 0 (.stopGracefully (some 7)),.goOn 0,.goOn 0,.goOn 0,
    .goOn 0,.goOn 0,.user 0 (.stopGracefully (some 8)),.goOn 0,.runQueued 1,.goOn 1,.goOn 1,.goOn 1,.runQueued 0,.goOn 0,
    .goOn 0,.goOn 0,.goOn 0,.goOn 0,.ret 0,.goOn 1,.goOn 1,.runQueued 1,.goOn 1]

theorem completionCallbacksTwice : ∃ x, run withCalls (constructed 1 quiet 1 false,⟨[],[]⟩) stoppedTwice = some x ∧
    x.1.completed = [8] ∧ (∀ cb, x.2.passed.count cb =
      inFlight 1 x.1 cb + x.1.completed.count cb + x.2.replaced.count cb + (slot x.1).toList.count cb) := by
  have reached : ∃ x, run withCalls (constructed 1 quiet 1 false,⟨[],[]⟩) stoppedTwice = some x ∧ x.1.completed = [8] :=
    ⟨_,rfl,rfl⟩
  obtain ⟨x,taken,completed⟩ := reached
  have threads : ∀ t cb, .user t (.stopGracefully cb) ∈ stoppedTwice → t < 1 := by
    intro t cb member
    simp only [stoppedTwice, List.mem_cons, Action.user.injEq, reduceCtorEq, false_or, or_false, List.not_mem_nil] at member
    rcases member with ⟨same,_⟩ | ⟨same,_⟩ <;>
    · rw [same]
      exact Nat.one_pos
  exact ⟨x,taken,completed,(completionCallbacks ⟨1,quiet,1,false,rfl⟩ taken Nat.one_pos threads).1⟩

/- The stop has ended and nothing is left to run, and the first callback was never called. -/
theorem firstCallbackLost : ¬ ∀ s x as, Initial s → run withCalls (s,⟨[],[]⟩) as = some x →
    x.1.server.stopping = false → (∀ t, x.1.stack t = []) → (∀ l, x.1.queue l = []) →
    ∀ cb, x.1.completed.count cb = x.2.passed.count cb := by
  intro claimed
  have reached : ∃ x, run withCalls (constructed 1 quiet 1 false,⟨[],[]⟩) stoppedTwice = some x ∧
      (x.2.passed = [7,8] ∧ x.1.completed = [8] ∧ x.1.server.stopping = false) ∧
      (∀ t, x.1.stack t = []) ∧ ∀ l, x.1.queue l = [] := by
    refine ⟨_,rfl,⟨rfl,rfl,rfl⟩,?_,?_⟩
    · rintro (_ | _ | t) <;> rfl
    · rintro (_ | _ | l) <;> rfl
  obtain ⟨x,taken,⟨passed,completed,over_⟩,stack,queue⟩ := reached
  have once := claimed _ x _ ⟨1,quiet,1,false,rfl⟩ taken over_ stack queue 7
  rw [passed, completed] at once
  cases once

end TcFrame.TcpServer
