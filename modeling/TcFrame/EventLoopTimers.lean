import Mathlib.Data.List.Nodup
import Mathlib.Data.Nat.Basic
import TcFrame.EventLoop
import TcFrame.HeapOrder
import TcFrame.TimerQueueTasks

/-! The timers along the runs of a loop. Between the regions of ProcessDelayedTasks a task
is in no heap: it waits in the ready batch or its callback runs, and both the callback and
the other threads may add and cancel timers meanwhile. -/
namespace TcFrame.Loop
open Machine

/- The tasks ProcessDelayedTasks holds. -/
def flight : Phase → List TimerId
  | .ready rest => rest
  | .fired _ id rest => id :: rest
  | _ => []

def processing : Phase → Bool
  | .ready _ | .fired _ _ _ => true
  | _ => false

/- What a step does to the timers, and to the tasks in flight. -/
inductive TimerTurn (w : World) : Action → World → Prop where
  | add {a t task w'} (may : mayCall w t = true) (fresh : task.cancelled = false)
      (calls : w'.calls t = some .addTimer) (timers : w'.loop.timers = w.loop.timers.add task)
      (phase : w'.phase = w.phase) : TimerTurn w a w'
  | cancel {t id w'} (may : mayCall w t = true) (timers : w'.loop.timers = (w.loop.timers.cancel id).1)
      (phase : w'.phase = w.phase) : TimerTurn w (.cancel t id) w'
  | timeout {now w'} (phase : w.phase = .timeout) (after : w'.phase = .poll (w.loop.timers.getPollTimeoutMs now).1)
      (timers : w'.loop.timers = (w.loop.timers.getPollTimeoutMs now).2) : TimerTurn w (.loop (.timeout now)) w'
  | collect {now w'} (phase : w.phase = .timers) (after : w'.phase = .ready (w.loop.timers.collect now).1)
      (timers : w'.loop.timers = (w.loop.timers.collect now).2) : TimerTurn w (.loop (.collect now)) w'
  | fire {id rest w'} (phase : w.phase = .ready (id :: rest))
      (after : w'.phase = .fired (w.loop.timers.mayFire id) id rest)
      (timers : w'.loop.timers = w.loop.timers) : TimerTurn w (.loop .fire) w'
  | finish {now running id rest w'} (phase : w.phase = .fired running id rest) (after : w'.phase = .ready rest)
      (timers : w'.loop.timers = w.loop.timers.finish now id) : TimerTurn w (.loop (.finish now)) w'
  | other {a w'} (timers : w'.loop.timers = w.loop.timers)
      (phase : w'.phase = w.phase ∨ flight w.phase = [] ∧ flight w'.phase = [])
      (starts : ∀ running id rest, w'.phase = .fired running id rest → w.phase = .fired running id rest)
      (quiet : ∀ t id, a ≠ .cancel t id) : TimerTurn w a w'

theorem wakeForWorkTimers (l : EventLoop) (t : ThreadId) : (l.wakeForWork t).timers = l.timers := by
  unfold EventLoop.wakeForWork
  split <;> rfl

theorem wakeFromOutsideTimers (l : EventLoop) (t : ThreadId) : (l.wakeFromOutside t).timers = l.timers := by
  unfold EventLoop.wakeFromOutside
  split <;> rfl

theorem loopTimerTurn {w w' : World} {s : LoopStep} (taken : LoopTaken w s w') : TimerTurn w (.loop s) w' := by
  have other : ∀ {v : World}, v.loop.timers = w.loop.timers → flight w.phase = [] → flight v.phase = [] →
      (∀ running id rest, v.phase ≠ .fired running id rest) → TimerTurn w (.loop s) v := by
    intro v timers before after calm
    exact .other timers (.inr ⟨before,after⟩) (fun _ _ _ now => absurd now (calm _ _ _)) (fun _ _ => by simp)
  cases taken with
  | timeout phase => exact .timeout phase rfl rfl
  | collect phase => exact .collect phase rfl rfl
  | fire phase => exact .fire phase rfl rfl
  | finish phase => exact .finish phase rfl rfl
  | start phase | enter phase | leave phase | begin_ phase | pollReturns phase | drain phase | handle phase
  | handled phase | calling phase | swap phase | call phase | called phase | calledAll phase | again phase =>
    exact other rfl (by rw [phase]; rfl) rfl (by simp)

theorem timerTurn {w w' : World} {a : Action} (taken : step w a = some w') : TimerTurn w a w' := by
  have still : ∀ {v : World}, v.loop.timers = w.loop.timers → v.phase = w.phase →
      (∀ t id, a ≠ .cancel t id) → TimerTurn w a v := by
    intro v timers phase quiet
    exact .other timers (.inl phase) (fun _ _ _ now => by rwa [phase] at now) quiet
  cases takenCases taken with
  | loop quiet moved => exact loopTimerTurn moved
  | callLoop own quiet phase =>
    refine .other rfl (.inr ⟨?_,rfl⟩) (fun _ _ _ now => by cases now) (fun _ _ => by simp)
    rcases phase with phase | phase <;> rw [phase] <;> rfl
  | queueInLoop may => exact still rfl rfl (fun _ _ => by simp)
  | quit may => exact still rfl rfl (fun _ _ => by simp)
  | runAt may => exact .add may rfl (by simp [calling]) rfl rfl
  | runEvery may => exact .add may rfl (by simp [calling]) rfl rfl
  | cancel may => exact .cancel may rfl rfl
  | queued held => exact still (wakeForWorkTimers _ _) rfl (fun _ _ => by simp)
  | added held => exact still (wakeForWorkTimers _ _) rfl (fun _ _ => by simp)
  | cancelled held => exact still (wakeFromOutsideTimers _ _) rfl (fun _ _ => by simp)
  | quitted held => exact still (wakeFromOutsideTimers _ _) rfl (fun _ _ => by simp)

def TimersKept (w : World) : Prop := w.loop.timers.Kept (flight w.phase)

theorem timersKeptStep {w w' : World} {a : Action} (h : TimersKept w) (taken : step w a = some w') : TimersKept w' := by
  unfold TimersKept at h ⊢
  cases timerTurn taken with
  | add may fresh calls timers phase =>
    rw [timers, phase]
    exact TimerQueue.keptAdd h fresh
  | cancel may timers phase =>
    rw [timers, phase]
    exact TimerQueue.keptCancel h _
  | timeout phase after timers =>
    rw [phase] at h
    rw [timers, after]
    exact TimerQueue.pollLoopKept [] _ h
  | collect phase after timers =>
    rw [phase] at h
    rw [timers, after]
    exact TimerQueue.collectLoopKept _ h
  | fire phase after timers =>
    rw [phase] at h
    rw [timers, after]
    exact h
  | finish phase after timers =>
    rw [phase] at h
    rw [timers, after]
    exact TimerQueue.keptFinish h
  | other timers phase starts quiet =>
    rw [timers]
    rcases phase with same | ⟨before,after⟩
    · rw [same]; exact h
    · rw [after]; rw [before] at h; exact h

theorem timersKeptInitial {w : World} (h : Initial w) : TimersKept w := by
  cases h <;> exact TimerQueue.keptEmpty

theorem timersKeptReached {w : World} (reached : Reachable step Initial w) : TimersKept w :=
  reachableInvariant (fun _ => timersKeptInitial) (fun _ _ _ => timersKeptStep) reached

theorem laterStep {w w' : World} {a : Action} (taken : step w a = some w') :
    TimerQueue.Later w.loop.timers w'.loop.timers := by
  cases timerTurn taken with
  | add may fresh calls timers phase => rw [timers]; exact TimerQueue.laterAdd _ _
  | cancel may timers phase => rw [timers]; exact TimerQueue.laterCancel _ _
  | timeout phase after timers => rw [timers]; exact TimerQueue.laterSame (TimerQueue.timeoutPops _ _)
  | collect phase after timers => rw [timers]; exact TimerQueue.laterSame (TimerQueue.collectPops _ _)
  | fire phase after timers => rw [timers]; exact TimerQueue.laterSame ⟨rfl,rfl,rfl⟩
  | finish phase after timers => rw [timers]; exact TimerQueue.laterFinish _ _ _
  | other timers phase starts quiet => rw [timers]; exact TimerQueue.laterSame ⟨rfl,rfl,rfl⟩

def expires (w : World) (id : TimerId) : Nat := (w.loop.timers.task id).expireTime

/- expire_time is written only while the task is in no heap. -/
theorem keysStay {w w' : World} {a : Action} (h : TimersKept w) (taken : step w a = some w') :
    ∀ id ∈ w.loop.timers.delayedTasks, expires w' id = expires w id := by
  intro id member
  have below : id < w.loop.timers.nextTimerId := h.known id (List.mem_append_right _ member)
  unfold expires
  cases timerTurn taken with
  | add may fresh calls timers phase =>
    rw [timers]
    simp [TimerQueue.add, Function.update_of_ne (Nat.ne_of_lt below)]
  | @cancel t other w' may timers phase =>
    rw [timers]
    unfold TimerQueue.cancel
    split
    · by_cases same : id = other
      · simp [same]
      · simp [Function.update_of_ne same]
    · rfl
  | timeout phase after timers =>
    rw [timers, (TimerQueue.timeoutPops _ _).task]
  | collect phase after timers =>
    rw [timers, (TimerQueue.collectPops _ _).task]
  | fire phase after timers => rw [timers]
  | @finish now running other rest w' phase after timers =>
    have apart : id ≠ other := by
      intro same
      unfold TimersKept at h
      rw [phase] at h
      exact (List.nodup_cons.mp h.nodup).1 (List.mem_append_right _ (same ▸ member))
    rw [timers]
    unfold TimerQueue.finish
    split
    · split
      · simp [Function.update_of_ne apart]
      · rfl
    · rfl
  | other timers phase starts quiet => rw [timers]

/- The vector of the priority queue beside the loop. push_heap and pop_heap promise a heap
of the new entries when they are called on a heap; how they arrange it is theirs, and where
the step has changed a key before the push, they compare with the new one. -/
inductive Arranged : World → List TimerId → Prop where
  | init {w} (start : Initial w) : Arranged w []
  | step {w w' v v' a} (before : Arranged w v) (taken : step w a = some w')
      (entries : v'.Perm w'.loop.timers.delayedTasks)
      (heap : Heap.Ordered (expires w') v → Heap.Ordered (expires w') v') : Arranged w' v'

theorem arrangedReached {w : World} {v : List TimerId} (h : Arranged w v) : Reachable step Initial w := by
  induction h with
  | init start => exact ⟨_,[],start,rfl⟩
  | step before taken entries heap ih => exact reachableStep ih taken

theorem arrangedEntries {w : World} {v : List TimerId} (h : Arranged w v) : v.Perm w.loop.timers.delayedTasks := by
  cases h with
  | init start => cases start <;> exact .nil
  | step before taken entries heap => exact entries

theorem arrangedOrdered {w : World} {v : List TimerId} (h : Arranged w v) : Heap.Ordered (expires w) v := by
  induction h with
  | init start => exact Heap.orderedNil _
  | step before taken entries heap ih =>
    have kept := timersKeptReached (arrangedReached before)
    have stay := keysStay kept taken
    exact heap (Heap.orderedCongr (fun id member => stay id ((arrangedEntries before).mem_iff.mp member)) ih)

/- The entry the model takes for the top is, by its key, the front of the vector. -/
theorem frontIsTop {w : World} {v : List TimerId} (h : Arranged w v) {front top : TimerId}
    (first : v[0]? = some front) (chosen : w.loop.timers.top = some top) : expires w front = expires w top := by
  have inside := (arrangedEntries h).mem_iff.mp (List.mem_of_getElem? first)
  have below := Heap.frontLeast (arrangedOrdered h) first
  exact Nat.le_antisymm (below top ((arrangedEntries h).mem_iff.mpr (TimerQueue.topMember chosen)))
    (TimerQueue.topLeast chosen front inside)

/- Every run has its vectors: sorting is one way to arrange them. -/
theorem arrangedExists {s w : World} {as : List Action} {v : List TimerId} (before : Arranged s v)
    (reached : run step s as = some w) : ∃ v, Arranged w v := by
  induction as generalizing s v with
  | nil => cases Option.some.inj reached; exact ⟨v,before⟩
  | cons a as ih =>
    obtain ⟨m,hm,rest⟩ := runCons.mp reached
    let earlier (x y : TimerId) : Bool := decide (expires m x ≤ expires m y)
    have sorted : (m.loop.timers.delayedTasks.mergeSort earlier).Pairwise (fun x y => expires m x ≤ expires m y) := by
      refine (List.pairwise_mergeSort ?_ ?_ _).imp (fun le => of_decide_eq_true le)
      · intro x y z first second
        exact decide_eq_true (Nat.le_trans (of_decide_eq_true first) (of_decide_eq_true second))
      · intro x y
        simpa [earlier] using Nat.le_total (expires m x) (expires m y)
    exact ih (.step before hm (List.mergeSort_perm _ _) (fun _ => Heap.orderedSorted sorted)) rest

/- The bookkeeping between two calls of ProcessDelayedTasks. -/
structure Bookkept (q : TimerQueue) : Prop where
  once : ∀ id, q.timers id = true → q.delayedTasks.count id = 1
  stale : ∀ id ∈ q.delayedTasks, q.timers id = false → (q.task id).cancelled = true
  nodup : q.delayedTasks.Nodup

theorem bookkept {q : TimerQueue} (h : q.Kept []) : Bookkept q :=
  ⟨fun id live => List.nodup_iff_count_eq_one.mp h.nodup id (h.held id live),h.dead,h.nodup⟩

/- In every state of every run each live timer has its one entry, and the vector is a heap
of the entries under the expire times as they are then. -/
theorem timersBookkept {w : World} {v : List TimerId} (reached : Arranged w v) :
    (processing w.phase = false → Bookkept w.loop.timers) ∧
      v.Perm w.loop.timers.delayedTasks ∧ Heap.Ordered (expires w) v := by
  refine ⟨?_,arrangedEntries reached,arrangedOrdered reached⟩
  intro calm
  have kept := timersKeptReached (arrangedReached reached)
  unfold TimersKept at kept
  cases phase : w.phase with
  | ready rest => rw [phase] at calm; cases calm
  | fired running id rest => rw [phase] at calm; cases calm
  | _ => rw [phase] at kept; exact bookkept kept

/- A periodic timer and a later one-shot; the periodic one has fired, cancelled the
other and is back in the heap. -/
def rearmed : List Action :=
  [.runEvery 0 0 5 true,.returns 0,.runAt 0 9000000 true,.returns 0,.callLoop,.loop .enter,.loop .test,
    .loop (.timeout 0),.loop (.pollReturns []),.loop .store,.loop .swap,.loop .store,.loop (.collect 5000000),
    .loop .fire,.cancel 0 2,.returns 0,.loop (.finish 6000000),.loop .again]

theorem timersBookkeptRearmed : ∃ w v, Arranged w v ∧ run step (constructed 0 0 false) rearmed = some w ∧
    w.loop.timers.delayedTasks = [2,1] ∧ Bookkept w.loop.timers ∧ Heap.Ordered (expires w) v := by
  have reached : ∃ w, run step (constructed 0 0 false) rearmed = some w ∧ w.phase = .test ∧
      w.loop.timers.delayedTasks = [2,1] := ⟨_,rfl,rfl,rfl⟩
  obtain ⟨w,taken,phase,entries⟩ := reached
  obtain ⟨v,arranged⟩ := arrangedExists (.init .manual) taken
  obtain ⟨books,_,heap⟩ := timersBookkept arranged
  exact ⟨w,v,arranged,taken,entries,books (by rw [phase]; rfl),heap⟩

end TcFrame.Loop
