import TcFrame.EventLoop

/-! On which thread functors run. RunInLoop and AssertInLoopThread look at m_threadId. The
constructor stores the constructing thread there, and the worker stores itself as the
first thing it does, some time after the constructor has returned. -/
namespace TcFrame.Loop
open Machine

/- What has been seen of the threads: where functors ran, at once or from the queue, and
where AssertInLoopThread succeeded. After abort nothing runs. -/
structure Sightings where
  ran : List ThreadId
  passed : List ThreadId
  aborted : Bool
  deriving DecidableEq, Repr

def unseen : Sightings := ⟨[],[],false⟩

structure Process where
  world : World
  seen : Sightings

inductive ProcessStep where
  | loop (a : Action)
  | runInLoop (t : ThreadId)
  | assertInLoopThread (t : ThreadId)
  deriving DecidableEq, Repr

def ran (w : World) (a : Action) (k : Sightings) : Sightings :=
  match a with
  | .loop .call => { k with ran := k.ran ++ [w.self] }
  | _ => k

def processStep (p : Process) (a : ProcessStep) : Option Process :=
  if p.seen.aborted then none
  else match a with
  | .loop a => (step p.world a).map (fun w => ⟨w,ran p.world a p.seen⟩)
  | .runInLoop t =>
    if p.world.loop.isInLoopThread t then
      if mayCall p.world t then some { p with seen := { p.seen with ran := p.seen.ran ++ [t] } } else none
    else (step p.world (.queueInLoop t)).map (fun w => { p with world := w })
  | .assertInLoopThread t =>
    if mayCall p.world t then
      if p.world.loop.isInLoopThread t then some { p with seen := { p.seen with passed := p.seen.passed ++ [t] } }
      else some { p with seen := { p.seen with aborted := true } }
    else none

/- All on the worker. -/
def OnWorker (worker : ThreadId) (k : Sightings) : Prop :=
  (∀ t ∈ k.ran, t = worker) ∧ ∀ t ∈ k.passed, t = worker

/- The constructing thread is taken for the loop's: it calls before the worker has stored
itself. -/
def callsEarly (creator : ThreadId) (p : Process) : ProcessStep → Bool
  | .runInLoop t | .assertInLoopThread t => t == creator && p.world.phase == .spawned
  | .loop _ => false

/- Whom m_threadId names. -/
structure Named (creator worker : ThreadId) (w : World) : Prop where
  self : w.self = worker
  spawned : w.phase = .spawned → w.loop.threadId = creator
  begun : w.phase ≠ .spawned → w.loop.threadId = worker

theorem namedStep {creator worker : ThreadId} {w w' : World} {a : Action} (h : Named creator worker w)
    (taken : step w a = some w') : Named creator worker w' := by
  have call : ∀ {v : World}, v.self = w.self → v.phase = w.phase → v.loop.threadId = w.loop.threadId →
      Named creator worker v := by
    intro v self phase thread
    refine ⟨self.trans h.self,?_,?_⟩
    · rw [phase, thread]; exact h.spawned
    · rw [phase, thread]; exact h.begun
  cases stepCases taken with
  | loop quiet moved =>
    have past : ∀ {p}, w.phase = p → p ≠ .spawned → w.loop.threadId = worker := by
      intro p phase other
      exact h.begun (by rw [phase]; exact other)
    cases moved with
    | start phase => exact ⟨h.self,fun wrong => (by cases wrong),fun _ => h.self⟩
    | enter phase | leave phase | begin_ phase | timeout phase | pollReturns phase | drain phase | handle phase
    | handled phase | calling phase | swap phase | call phase | called phase | calledAll phase | collect phase
    | fire phase | finish phase | again phase =>
      exact ⟨h.self,fun wrong => (by cases wrong),fun _ => past phase (by simp)⟩
  | callLoop own quiet phase =>
    refine ⟨h.self,fun wrong => (by cases wrong),fun _ => h.begun ?_⟩
    rcases phase with phase | phase <;> simp [phase]
  | queueInLoop may => exact call rfl rfl rfl
  | quit may => exact call rfl rfl rfl
  | timers outside may quiet => exact call rfl rfl rfl
  | queued held => exact call rfl rfl (wakeForWorkThread _ _)
  | added held => exact call rfl rfl (wakeForWorkThread _ _)
  | cancelled held => exact call rfl rfl (wakeFromOutsideThread _ _)
  | quitted held => exact call rfl rfl (wakeFromOutsideThread _ _)

theorem namedThread {creator worker t : ThreadId} {w : World} (h : Named creator worker w)
    (inLoop : w.loop.isInLoopThread t = true) : t = worker ∨ t = creator ∧ w.phase = .spawned := by
  have thread : w.loop.threadId = t := by simpa [EventLoop.isInLoopThread] using inLoop
  by_cases phase : w.phase = .spawned
  · exact .inr ⟨thread.symm.trans (h.spawned phase),phase⟩
  · exact .inl (thread.symm.trans (h.begun phase))

/- What one step shows, when nobody calls early. -/
theorem onWorkerStep {creator worker : ThreadId} {p p' : Process} {a : ProcessStep}
    (h : Named creator worker p.world) (shown : OnWorker worker p.seen) (late : callsEarly creator p a = false)
    (taken : processStep p a = some p') : OnWorker worker p'.seen := by
  have more : ∀ {ts : List ThreadId} {t}, (∀ x ∈ ts, x = worker) → t = worker → ∀ x ∈ ts ++ [t], x = worker := by
    intro ts t all new x member
    rcases List.mem_append.mp member with old | last
    · exact all x old
    · rw [List.mem_singleton.mp last, new]
  have here : ∀ {t}, p.world.loop.isInLoopThread t = true → (t == creator && p.world.phase == .spawned) = false →
      t = worker := by
    intro t inLoop notEarly
    rcases namedThread h inLoop with same | ⟨same,phase⟩
    · exact same
    · simp [same, phase] at notEarly
  unfold processStep at taken
  split at taken
  · cases taken
  · cases a with
    | loop a =>
      obtain ⟨w,_,rfl⟩ := Option.map_eq_some_iff.mp taken
      simp only [ran]
      split
      · exact ⟨more shown.1 h.self,shown.2⟩
      · exact shown
    | runInLoop t =>
      dsimp only at taken
      split at taken
      · rename_i inLoop
        split at taken <;> cases taken
        exact ⟨more shown.1 (here inLoop late),shown.2⟩
      · obtain ⟨w,_,rfl⟩ := Option.map_eq_some_iff.mp taken
        exact shown
    | assertInLoopThread t =>
      dsimp only at taken
      split at taken
      · split at taken <;> cases taken
        · rename_i inLoop
          exact ⟨shown.1,more shown.2 (here inLoop late)⟩
        · exact shown
      · cases taken

theorem namedProcess {creator worker : ThreadId} {p p' : Process} {a : ProcessStep} (h : Named creator worker p.world)
    (taken : processStep p a = some p') : Named creator worker p'.world := by
  unfold processStep at taken
  split at taken
  · cases taken
  · cases a with
    | loop a =>
      obtain ⟨w,moved,rfl⟩ := Option.map_eq_some_iff.mp taken
      exact namedStep h moved
    | runInLoop t =>
      dsimp only at taken
      split at taken
      · split at taken <;> cases taken
        exact h
      · obtain ⟨w,moved,rfl⟩ := Option.map_eq_some_iff.mp taken
        exact namedStep h moved
    | assertInLoopThread t =>
      dsimp only at taken
      split at taken
      · split at taken <;> cases taken <;> exact h
      · cases taken

/- An early call is taken for one of the loop's thread. -/
theorem earlyShown {creator worker : ThreadId} (other : creator ≠ worker) {p p' : Process} {a : ProcessStep}
    (h : Named creator worker p.world) (early : callsEarly creator p a = true)
    (taken : processStep p a = some p') : ¬ OnWorker worker p'.seen := by
  rintro ⟨allRan,allPassed⟩
  unfold processStep at taken
  split at taken
  · cases taken
  · cases a with
    | loop a => cases early
    | runInLoop t =>
      simp only [callsEarly, Bool.and_eq_true, beq_iff_eq] at early
      have inLoop : p.world.loop.isInLoopThread t = true := by
        simp [EventLoop.isInLoopThread, h.spawned early.2, early.1]
      simp only [inLoop, if_true] at taken
      split at taken <;> cases taken
      exact other (early.1 ▸ allRan t (List.mem_append_right _ (List.mem_singleton_self t)))
    | assertInLoopThread t =>
      simp only [callsEarly, Bool.and_eq_true, beq_iff_eq] at early
      have inLoop : p.world.loop.isInLoopThread t = true := by
        simp [EventLoop.isInLoopThread, h.spawned early.2, early.1]
      simp only [inLoop, if_true] at taken
      split at taken <;> cases taken
      exact other (early.1 ▸ allPassed t (List.mem_append_right _ (List.mem_singleton_self t)))

/- What has been seen stays seen. -/
theorem shownStays {worker : ThreadId} {p p' : Process} {a : ProcessStep} (shown : ¬ OnWorker worker p.seen)
    (taken : processStep p a = some p') : ¬ OnWorker worker p'.seen := by
  rintro ⟨allRan,allPassed⟩
  refine shown ⟨fun t member => allRan t ?_,fun t member => allPassed t ?_⟩ <;>
  · unfold processStep at taken
    split at taken
    · cases taken
    · cases a with
      | loop a =>
        obtain ⟨w,_,rfl⟩ := Option.map_eq_some_iff.mp taken
        simp only [ran]
        split <;> simp [member]
      | runInLoop t =>
        dsimp only at taken
        split at taken
        · split at taken <;> cases taken
          simp [member]
        · obtain ⟨w,_,rfl⟩ := Option.map_eq_some_iff.mp taken
          exact member
      | assertInLoopThread t =>
        dsimp only at taken
        split at taken
        · split at taken <;> cases taken <;> simp [member]
        · cases taken

/- In every run from the constructor of an auto-started loop: all functors run on the
worker and AssertInLoopThread succeeds there only, exactly when the constructing thread
makes no such call before the worker has stored itself. -/
theorem functorsOnWorker {creator worker : ThreadId} {p : Process} {as : List ProcessStep} (other : creator ≠ worker)
    (reached : run processStep ⟨constructed creator worker true,unseen⟩ as = some p) :
    OnWorker worker p.seen ↔
      Throughout processStep (fun q a => callsEarly creator q a = false) ⟨constructed creator worker true,unseen⟩ as := by
  have first : Named creator worker (constructed creator worker true) := ⟨rfl,fun _ => rfl,fun begun => absurd rfl begun⟩
  constructor
  · intro shown
    have enters : ∀ q a q', Named creator worker q.world → ¬ callsEarly creator q a = false →
        processStep q a = some q' → ¬ OnWorker worker q'.seen := by
      intro q a q' h early taken
      exact earlyShown other h (by simpa using early) taken
    rcases throughoutOr (fun _ _ _ => namedProcess) enters (fun _ _ _ => shownStays) first reached with kept | lost
    · exact kept
    · exact absurd shown lost
  · intro late
    have keep : ∀ q a q', Named creator worker q.world ∧ OnWorker worker q.seen → callsEarly creator q a = false →
        processStep q a = some q' → Named creator worker q'.world ∧ OnWorker worker q'.seen := by
      intro q a q' h notEarly taken
      exact ⟨namedProcess h.1 taken,onWorkerStep h.1 h.2 notEarly taken⟩
    have nothing : OnWorker worker unseen := ⟨fun t member => (by cases member),fun t member => by cases member⟩
    exact (invariantWhen keep ⟨first,nothing⟩ late reached).2

/- The constructing thread waits until the worker is in its loop. -/
def handsOver : List ProcessStep :=
  [.loop (.loop .start),.loop (.loop .enter),.runInLoop 0,.loop (.returns 0),.loop (.loop .test),
    .loop (.loop (.timeout 0)),.loop (.loop (.pollReturns [.wakeup])),.loop (.loop .handle),.loop (.loop .store),
    .loop (.loop .swap),.loop (.loop .call),.assertInLoopThread 1]

theorem functorsOnWorkerHandedOver : ∃ p, run processStep ⟨constructed 0 1 true,unseen⟩ handsOver = some p ∧
    p.seen = ⟨[1],[1],false⟩ ∧ OnWorker 1 p.seen := by
  have reached : ∃ p, run processStep ⟨constructed 0 1 true,unseen⟩ handsOver = some p ∧ p.seen = ⟨[1],[1],false⟩ :=
    ⟨_,rfl,rfl⟩
  obtain ⟨p,taken,shown⟩ := reached
  have late : Throughout processStep (fun q a => callsEarly 0 q a = false) ⟨constructed 0 1 true,unseen⟩ handsOver := by
    decide
  exact ⟨p,taken,shown,(functorsOnWorker (by decide) taken).mpr late⟩

/- The two calls as soon as the constructor has returned. -/
def callsAtOnce : List ProcessStep := [.runInLoop 0,.assertInLoopThread 0]

theorem functorsOnCreator : ¬ ∀ creator worker as p, creator ≠ worker →
    run processStep ⟨constructed creator worker true,unseen⟩ as = some p → OnWorker worker p.seen := by
  intro claimed
  have reached : ∃ p, run processStep ⟨constructed 0 1 true,unseen⟩ callsAtOnce = some p ∧
      p.seen = ⟨[0],[0],false⟩ := ⟨_,rfl,rfl⟩
  obtain ⟨p,taken,shown⟩ := reached
  have worker := (claimed 0 1 _ p (by decide) taken).1 0 (by simp [shown])
  cases worker

end TcFrame.Loop
