import TcFrame.EventLoopTimers
import TcFrame.EventLoopWakeup

/-! The timeout of Poll. It is computed under the mutex from the timers as they are then;
a timer added later comes from another thread, which writes to the wakeup descriptor
behind its push. -/
namespace TcFrame.Loop
open Machine

/- The time the last timeout was computed from, and the timer each thread has pushed in
the call it is in. -/
structure Watch where
  computedAt : Nat
  adding : ThreadId → Option TimerId

def unwatched : Watch := ⟨0,fun _ => none⟩

def watch (w : World) (a : Action) (_ : World) (k : Watch) : Watch :=
  match a with
  | .loop (.timeout now) => { k with computedAt := now }
  | .runAt t _ _ | .runEvery t _ _ _ => { k with adding := Function.update k.adding t (some w.loop.timers.nextTimerId) }
  | .returns t => { k with adding := Function.update k.adding t none }
  | _ => k

/- A live timer under a Poll that waits for `timeoutMs`. -/
def InTime (w : World) (k : Watch) (timeoutMs : Nat) (id : TimerId) : Prop :=
  k.computedAt + timeoutMs * TimerQueue.nanosPerMilli ≤ expires w id ∨ 0 < w.loop.wakeup ∨
    ∃ t, w.calls t = some .addTimer ∧ k.adding t = some id

structure Watched (w : World) (k : Watch) : Prop where
  located : Located w
  kept : TimersKept w
  inTime : ∀ timeoutMs, w.phase = .poll timeoutMs → 0 < timeoutMs →
    ∀ id, w.loop.timers.timers id = true → InTime w k timeoutMs id

theorem watchedInitial {w : World} (h : Initial w) : Watched w unwatched := by
  refine ⟨locatedInitial h,timersKeptInitial h,?_⟩
  intro timeoutMs polling
  cases h <;> cases polling

/- Nothing the loop's thread does leads into Poll but the computation of the timeout. -/
theorem loopIntoPoll {w w' : World} {s : LoopStep} {timeoutMs : Nat} (taken : LoopTaken w s w')
    (polling : w'.phase = .poll timeoutMs) : ∃ now, s = .timeout now ∧ w.phase = .timeout := by
  cases taken with
  | timeout phase => exact ⟨_,rfl,phase⟩
  | start phase | enter phase | leave phase | begin_ phase | pollReturns phase | drain phase | handle phase
  | handled phase | calling phase | swap phase | call phase | called phase | calledAll phase | collect phase
  | fire phase | finish phase | again phase => cases polling

/- While the loop's thread is in Poll, other threads make their calls. -/
theorem watchedCall {w w' : World} {k k' : Watch} (h : Watched w k) (located : Located w') (kept : TimersKept w')
    (phase : w'.phase = w.phase) (computed : k'.computedAt = k.computedAt)
    (live : ∀ id, w'.loop.timers.timers id = true →
      w.loop.timers.timers id = true ∧ expires w' id = expires w id ∨
        ∃ t, w'.calls t = some .addTimer ∧ k'.adding t = some id)
    (written : w.loop.wakeup ≤ w'.loop.wakeup)
    (pending : ∀ timeoutMs t id, w.phase = .poll timeoutMs → w.calls t = some .addTimer → k.adding t = some id →
      0 < w'.loop.wakeup ∨ w'.calls t = some .addTimer ∧ k'.adding t = some id) :
    Watched w' k' := by
  refine ⟨located,kept,?_⟩
  intro timeoutMs polling sleeps id alive
  rcases live id alive with ⟨before,key⟩ | added
  · have polled : w.phase = .poll timeoutMs := phase ▸ polling
    rcases h.inTime timeoutMs polled sleeps id before with late | awake | ⟨t,held,mine⟩
    · left
      rw [computed, key]
      exact late
    · exact .inr (.inl (Nat.lt_of_lt_of_le awake written))
    · rcases pending timeoutMs t id polled held mine with awake | still
      · exact .inr (.inl awake)
      · exact .inr (.inr ⟨t,still⟩)
  · exact .inr (.inr added)

theorem watchedLoop {w w' : World} {s : LoopStep} {k : Watch} (h : Watched w k) (moved : LoopTaken w s w')
    (taken : step w (.loop s) = some w') : Watched w' (watch w (.loop s) w' k) := by
  refine ⟨locatedStep h.located taken,timersKeptStep h.kept taken,?_⟩
  intro timeoutMs polling sleeps id live
  obtain ⟨now,rfl,phase⟩ := loopIntoPoll moved polling
  cases moved
  have kept : w.loop.timers.Kept [] := by
    have k := h.kept
    unfold TimersKept at k
    rwa [phase] at k
  have pops := TimerQueue.timeoutPops w.loop.timers now
  have computed : (w.loop.timers.getPollTimeoutMs now).1 = timeoutMs := Phase.poll.inj polling
  have before : w.loop.timers.timers id = true := pops.timers ▸ live
  left
  unfold expires
  rw [pops.task, ← computed]
  rw [← computed] at sleeps
  exact TimerQueue.pollTimeoutBounds _ kept (Nat.le_refl _) sleeps id before

/- A call that leaves the timers alone, or the end of one that added none. -/
theorem watchedIdle {w w' : World} {k k' : Watch} {t : ThreadId} {c : Option Call} (h : Watched w k)
    (located : Located w') (kept : TimersKept w') (phase : w'.phase = w.phase)
    (timers : w'.loop.timers = w.loop.timers) (written : w.loop.wakeup ≤ w'.loop.wakeup)
    (calls : w'.calls = Function.update w.calls t c) (other : w.calls t ≠ some .addTimer)
    (computed : k'.computedAt = k.computedAt) (adding : ∀ t', t' ≠ t → k'.adding t' = k.adding t') : Watched w' k' := by
  refine watchedCall h located kept phase computed ?_ written ?_
  · intro id live
    rw [timers] at live
    exact .inl ⟨live,by unfold expires; rw [timers]⟩
  · intro timeoutMs t' id polling held mine
    have different : t' ≠ t := by
      intro same
      rw [same] at held
      exact other held
    exact .inr ⟨by rw [calls, Function.update_of_ne different]; exact held,(adding t' different).trans mine⟩

theorem watchedAdd {w w' : World} {k : Watch} {t : ThreadId} {task : TimerTask} (h : Watched w k)
    (located : Located w') (kept : TimersKept w') (idle : w.calls t = none)
    (made : w' = calling w t { w.loop with timers := w.loop.timers.add task } (some .addTimer)) :
    Watched w' { k with adding := Function.update k.adding t (some w.loop.timers.nextTimerId) } := by
  subst made
  refine watchedCall h located kept rfl rfl ?_ (Nat.le_refl _) ?_
  · intro id live
    by_cases new : id = w.loop.timers.nextTimerId
    · exact .inr ⟨t,by simp [calling],by simp [new]⟩
    · refine .inl ⟨?_,?_⟩
      · simpa [calling, TimerQueue.add, Function.update_of_ne new] using live
      · simp [expires, calling, TimerQueue.add, Function.update_of_ne new]
  · intro timeoutMs t' id polling held mine
    have different : t' ≠ t := by
      intro same
      rw [same, idle] at held
      cases held
    exact .inr ⟨by simpa [calling, Function.update_of_ne different] using held,
      by simpa [Function.update_of_ne different] using mine⟩

theorem watchedCancel {w w' : World} {k : Watch} {t : ThreadId} {id : TimerId} (h : Watched w k)
    (taken : step w (.cancel t id) = some w') : Watched w' k := by
  have located := locatedStep h.located taken
  have kept := timersKeptStep h.kept taken
  cases takenCases taken with
  | cancel may =>
    have idle := mayCallIdle may
    have less : ∀ other, (w.loop.timers.cancel id).1.timers other = true → w.loop.timers.timers other = true := by
      intro other live
      unfold TimerQueue.cancel at live
      split at live
      · by_cases same : other = id
        · simp [same] at live
        · simpa [Function.update_of_ne same] using live
      · exact live
    have keys : ∀ other, ((w.loop.timers.cancel id).1.task other).expireTime = (w.loop.timers.task other).expireTime := by
      intro other
      unfold TimerQueue.cancel
      split
      · by_cases same : other = id
        · simp [same]
        · simp [Function.update_of_ne same]
      · rfl
    refine watchedCall h located kept rfl rfl (fun other live => .inl ⟨less other live,keys other⟩) (Nat.le_refl _) ?_
    intro timeoutMs t' other polling held mine
    have different : t' ≠ t := by
      intro same
      rw [same, idle] at held
      cases held
    exact .inr ⟨by simpa [calling, Function.update_of_ne different] using held,mine⟩

/- The end of RunAt or RunEvery writes to the descriptor if the loop's thread is in Poll. -/
theorem watchedAdded {w : World} {k : Watch} {t : ThreadId} (h : Watched w k) (held : w.calls t = some .addTimer)
    (located : Located (calling w t (w.loop.wakeForWork t) none))
    (kept : TimersKept (calling w t (w.loop.wakeForWork t) none)) :
    Watched (calling w t (w.loop.wakeForWork t) none) { k with adding := Function.update k.adding t none } := by
  have timers := wakeForWorkTimers w.loop t
  refine watchedCall h located kept rfl rfl ?_ (wakeForWorkWritten _ _).2 ?_
  · intro id live
    refine .inl ⟨?_,?_⟩
    · rw [← timers]; exact live
    · simp only [expires, calling, timers]
  · intro timeoutMs t' id polling busy mine
    by_cases same : t' = t
    · left
      have outside : t ≠ w.self := by
        intro own
        have runs := h.located.user (by rw [← own, held]; simp)
        rw [polling] at runs
        cases runs
      have thread : w.loop.threadId = w.self := h.located.own (by rw [polling]; simp)
      have elsewhere : w.loop.isInLoopThread t = false := by
        simpa [EventLoop.isInLoopThread, thread] using Ne.symm outside
      simp [calling, EventLoop.wakeForWork, elsewhere, EventLoop.wake]
    · exact .inr ⟨by simpa [calling, Function.update_of_ne same] using busy,
        by simpa [Function.update_of_ne same] using mine⟩

theorem watchedStep {w w' : World} {a : Action} {k : Watch} (h : Watched w k) (taken : step w a = some w') :
    Watched w' (watch w a w' k) := by
  have located := locatedStep h.located taken
  have kept := timersKeptStep h.kept taken
  have idle : ∀ {t : ThreadId}, mayCall w t = true → w.calls t ≠ some .addTimer := by
    intro t may
    simp [mayCallIdle may]
  have others : ∀ t t', t' ≠ t → (watch w (.returns t) w' k).adding t' = k.adding t' :=
    fun t t' different => Function.update_of_ne different _ _
  cases takenCases taken with
  | loop quiet moved => exact watchedLoop h moved taken
  | callLoop own quiet phase => exact ⟨located,kept,fun timeoutMs polling => by cases polling⟩
  | queueInLoop may => exact watchedIdle h located kept rfl rfl (Nat.le_refl _) rfl (idle may) rfl (fun _ _ => rfl)
  | quit may => exact watchedIdle h located kept rfl rfl (Nat.le_refl _) rfl (idle may) rfl (fun _ _ => rfl)
  | runAt may => exact watchedAdd h located kept (mayCallIdle may) rfl
  | runEvery may => exact watchedAdd h located kept (mayCallIdle may) rfl
  | cancel may => exact watchedCancel h taken
  | queued held =>
    exact watchedIdle h located kept rfl (wakeForWorkTimers _ _) (wakeForWorkWritten _ _).2 rfl (by simp [held]) rfl
      (others _)
  | added held => exact watchedAdded h held located kept
  | cancelled held =>
    exact watchedIdle h located kept rfl (wakeFromOutsideTimers _ _) (wakeFromOutsideWritten _ _).2 rfl (by simp [held])
      rfl (others _)
  | quitted held =>
    exact watchedIdle h located kept rfl (wakeFromOutsideTimers _ _) (wakeFromOutsideWritten _ _).2 rfl (by simp [held])
      rfl (others _)

/- Whenever the loop's thread is blocked in Poll, each live timer expires no earlier than
the timeout ends, or the descriptor is readable, or the thread that pushed the timer
still has its write to make. -/
theorem pollNotPastTimer {s w : World} {as : List Action} {k : Watch} {timeoutMs : Nat} (start : Initial s)
    (reached : run (recording step watch) (s,unwatched) as = some (w,k)) (polling : w.phase = .poll timeoutMs)
    (blocks : 0 < timeoutMs) : ∀ id, w.loop.timers.timers id = true → InTime w k timeoutMs id := by
  have watched : Watched w k := recordingInvariant (fun _ _ _ _ => watchedStep) (watchedInitial start) reached
  exact watched.inTime timeoutMs polling blocks

/- Two timers, one of them pushed by another thread during the Poll. -/
def pushedInPoll : List Action :=
  [.runAt 0 9000000 true,.returns 0,.callLoop,.loop .enter,.loop .test,.loop (.timeout 0),.runAt 1 5 true]

theorem pollNotPastPushed : ∃ w k, run (recording step watch) (constructed 0 0 false,unwatched) pushedInPoll =
    some (w,k) ∧ w.phase = .poll 9 ∧ w.loop.timers.timers 2 = true ∧
    ∀ id, w.loop.timers.timers id = true → InTime w k 9 id := by
  have reached : ∃ w k, run (recording step watch) (constructed 0 0 false,unwatched) pushedInPoll = some (w,k) ∧
      w.phase = .poll 9 ∧ w.loop.timers.timers 2 = true := ⟨_,_,rfl,rfl,rfl⟩
  obtain ⟨w,k,taken,polling,live⟩ := reached
  exact ⟨w,k,taken,polling,live,pollNotPastTimer .manual taken polling (by decide)⟩

end TcFrame.Loop
