import TcFrame.ThreadPoolTasks
import TcFrame.ThreadPoolWakeup

/-! What Shutdown promises: the Shutdown that clears the flag takes the workers over and
joins them. Tasks that it finds in the queue are dropped. -/
namespace TcFrame.ThreadPool
open Machine

/- The workers that a Shutdown has taken over and not joined yet. -/
def CallPc.remaining : CallPc → Option (List ThreadId)
  | .shutdownUnlock workers | .shutdownJoin workers => some workers
  | _ => none

/- Shutdown has taken the workers over and emptied the queue. -/
def Purged (p : Pool) : Prop := p.stopped = true ∨ ∃ t workers, (p.calls t).remaining = some workers

/- One Shutdown closes the pool; behind its purge the queue stays empty, and only workers
that it has not joined yet have tasks. -/
structure Closing (p : Pool) : Prop where
  open_ : p.isRunning = true → p.stopped = false ∧ ∀ t, (p.calls t).closing = false
  closer : p.isRunning = false → p.stopped = true ∨ ∃ t, (p.calls t).closing = true
  alone : ∀ t u, (p.calls t).closing = true → (p.calls u).closing = true → t = u
  ended : p.stopped = true → ∀ t, (p.calls t).closing = false
  purged : Purged p → p.tasks = [] ∧ ∀ t k, p.calls t ≠ .commitPush k
  left : ∀ t workers, (p.calls t).remaining = some workers → ∀ u k, (p.loops u).holds = some k → u ∈ workers
  done : p.stopped = true → ∀ u, (p.loops u).holds = none
  staff : ¬ Purged p → ∀ u, p.loops u ≠ .outside → u ∈ p.workers

theorem remainingClosing {pc : CallPc} {workers : List ThreadId} (left : pc.remaining = some workers) :
    pc.closing = true := by
  cases pc <;> first | rfl | cases left

/- While the flag is set nobody is closing. -/
theorem openApart {p : Pool} (h : Closing p) (runs : p.isRunning = true) (t : ThreadId) : (p.calls t).closing ≠ true := by
  rw [(h.open_ runs).2 t]
  simp

theorem purgedCleared {p : Pool} (h : Closing p) (purged : Purged p) : p.isRunning = false := by
  by_contra cleared
  have runs : p.isRunning = true := by simpa using cleared
  rcases purged with stopped | ⟨t,workers,left⟩
  · rw [(h.open_ runs).1] at stopped
    cases stopped
  · exact openApart h runs t (remainingClosing left)

theorem closingCases {p p' : Pool} {a : Action} (taken : step p a = some p') {u : ThreadId}
    (closing : (p'.calls u).closing = true) :
    (p.calls u).closing = true ∨ u = a.thread ∧ p.isRunning = true := by
  rcases callsStep taken u with same | ⟨self,next⟩
  · rw [same] at closing
    exact .inl closing
  · exact (closingNext next closing).imp_right (fun new => ⟨self,new.1⟩)

theorem stoppedStep {p p' : Pool} {a : Action} (taken : step p a = some p') :
    (p.stopped = true → p'.stopped = true) ∧
    (p'.stopped = true → p.stopped = true ∨ p.calls a.thread = .shutdownJoin [] ∧ p'.calls a.thread = .idle) := by
  cases stepCases taken with
  | joined here =>
    refine ⟨fun _ => rfl,fun _ => .inr ⟨here,?_⟩⟩
    rw [Pool.callsSetCall]
    exact Function.update_self _ _ _
  | _ => exact ⟨id,.inl⟩

theorem closingStays {p p' : Pool} {a : Action} (taken : step p a = some p') {u : ThreadId}
    (closing : (p.calls u).closing = true) : (p'.calls u).closing = true ∨ p'.stopped = true := by
  rcases callsStep taken u with same | ⟨_,next⟩
  · rw [same]
    exact .inl closing
  · generalize p.calls u = pc at closing next
    generalize p'.calls u = pc' at next
    cases next with
    | move moves =>
      generalize p'.monitor = m at moves
      cases moves <;> first | exact .inl rfl | cases closing
    | purge => exact .inl rfl
    | joined ended => exact .inr ended
    | _ => cases closing

theorem runningStep {p p' : Pool} {a : Action} (taken : step p a = some p') (cleared : p'.isRunning = false) :
    p.isRunning = false ∨ p'.calls a.thread = .shutdownNotify := by
  cases stepCases taken with
  | clear here runs =>
    refine .inr ?_
    rw [Pool.callsSetCall]
    exact Function.update_self _ _ _
  | _ => exact .inl cleared

theorem openStep {p p' : Pool} {a : Action} (h : Closing p) (taken : step p a = some p') (runs' : p'.isRunning = true) :
    p'.stopped = false ∧ ∀ t, (p'.calls t).closing = false := by
  have runs : p.isRunning = true := by
    by_contra cleared
    rw [clearedStep taken (by simpa using cleared)] at runs'
    cases runs'
  refine ⟨?_,fun t => ?_⟩
  · by_contra stopped
    rcases (stoppedStep taken).2 (by simpa using stopped) with before | ⟨joins,_⟩
    · rw [(h.open_ runs).1] at before
      cases before
    · exact openApart h runs a.thread (by rw [joins]; rfl)
  · by_contra there
    have closing : (p'.calls t).closing = true := by simpa using there
    rcases callsStep taken t with same | ⟨_,next⟩
    · rw [same] at closing
      exact openApart h runs t closing
    · rcases closingNext next closing with before | ⟨_,cleared⟩
      · exact openApart h runs t before
      · rw [cleared] at runs'
        cases runs'

theorem closerStep {p p' : Pool} {a : Action} (h : Closing p) (taken : step p a = some p') (cleared' : p'.isRunning = false) :
    p'.stopped = true ∨ ∃ t, (p'.calls t).closing = true := by
  rcases runningStep taken cleared' with cleared | begun
  · rcases h.closer cleared with stopped | ⟨t,closing⟩
    · exact .inl ((stoppedStep taken).1 stopped)
    · exact (closingStays taken closing).elim (fun still => .inr ⟨t,still⟩) .inl
  · exact .inr ⟨a.thread,by rw [begun]; rfl⟩

theorem aloneStep {p p' : Pool} {a : Action} (h : Closing p) (taken : step p a = some p') {t u : ThreadId}
    (mine : (p'.calls t).closing = true) (other : (p'.calls u).closing = true) : t = u := by
  rcases closingCases taken mine with before | ⟨self,runs⟩
  · rcases closingCases taken other with before' | ⟨_,runs⟩
    · exact h.alone t u before before'
    · exact absurd before (openApart h runs t)
  · rcases closingCases taken other with before' | ⟨self',_⟩
    · exact absurd before' (openApart h runs u)
    · rw [self, self']

theorem overStep {p p' : Pool} {a : Action} (h : Closing p) (taken : step p a = some p') (stopped' : p'.stopped = true)
    (t : ThreadId) : (p'.calls t).closing = false := by
  by_contra there
  have closing : (p'.calls t).closing = true := by simpa using there
  rcases (stoppedStep taken).2 stopped' with stopped | ⟨joins,idle⟩
  · rcases closingCases taken closing with before | ⟨_,runs⟩
    · rw [h.ended stopped t] at before
      cases before
    · rw [(h.open_ runs).1] at stopped
      cases stopped
  · have last : (p.calls a.thread).closing = true := by rw [joins]; rfl
    rcases closingCases taken closing with before | ⟨self,runs⟩
    · rw [h.alone t a.thread before last, idle] at closing
      cases closing
    · exact absurd last (openApart h runs a.thread)

/- Behind a purge nothing comes to the queue. -/
theorem purgedStays {p p' : Pool} {a : Action} (h : Closing p) (taken : step p a = some p') (purged : Purged p) :
    p'.tasks = [] ∧ ∀ t k, p'.calls t ≠ .commitPush k := by
  obtain ⟨empty,quiet⟩ := h.purged purged
  have cleared := purgedCleared h purged
  refine ⟨?_,fun t k here => ?_⟩
  · cases queueStep taken with
    | same kept => rw [kept, empty]
    | take task head => rw [empty] at head; cases head
    | push task here => exact absurd here (quiet _ _)
    | purge here emptied => exact emptied
  · rcases callsStep taken t with same | ⟨_,next⟩
    · rw [same] at here
      exact quiet t k here
    · generalize p.calls t = pc at next
      rw [here] at next
      cases next with
      | move moves =>
        generalize p'.monitor = m at moves
        cases moves with
        | commitPassed runs => rw [cleared] at runs; cases runs

theorem remainingNext {p p' : Pool} {u : ThreadId} {pc pc' : CallPc} (next : CallNext p p' u pc pc')
    {workers : List ThreadId} (left : pc'.remaining = some workers) :
    pc.remaining = some workers ∨
    (∃ w, pc.remaining = some (w :: workers) ∧ p.loops w = .exited) ∨
    pc = .shutdownPurge ∧ workers = p.workers ∧ p'.tasks = [] := by
  cases next with
  | move moves =>
    generalize p'.monitor = m at moves
    cases moves with
    | shutdownUnlock => exact .inl left
    | shutdownJoin gone => cases left; exact .inr (.inl ⟨_,rfl,gone⟩)
    | _ => cases left
  | purge emptied => cases left; exact .inr (.inr ⟨rfl,rfl,emptied⟩)
  | _ => cases left

theorem purgedCases {p p' : Pool} {a : Action} (taken : step p a = some p') (purged' : Purged p') :
    Purged p ∨ p.calls a.thread = .shutdownPurge ∧ p'.tasks = [] := by
  rcases purged' with stopped' | ⟨t,workers,left⟩
  · rcases (stoppedStep taken).2 stopped' with stopped | ⟨joins,_⟩
    · exact .inl (.inl stopped)
    · exact .inl (.inr ⟨a.thread,[],by rw [joins]; rfl⟩)
  · rcases callsStep taken t with same | ⟨self,next⟩
    · rw [same] at left
      exact .inl (.inr ⟨t,workers,left⟩)
    · rcases remainingNext next left with before | ⟨w,before,_⟩ | ⟨here,_,emptied⟩
      · exact .inl (.inr ⟨t,workers,before⟩)
      · exact .inl (.inr ⟨t,_,before⟩)
      · rw [self] at here
        exact .inr ⟨here,emptied⟩

/- The purging thread has the mutex, so nobody else is at a statement that needs it. -/
theorem purgingHolds {p p' : Pool} {a : Action} (placed : Placed p) (taken : step p a = some p')
    (here : p.calls a.thread = .shutdownPurge) {t : ThreadId} (held : (p'.calls t).place.holds = true) :
    (p'.calls t).closing = true := by
  rcases callsStep taken t with same | ⟨self,next⟩
  · rw [same] at held ⊢
    have busy : p.calls t ≠ .idle := by
      intro idle
      rw [idle] at held
      cases held
    have mine : (p.place a.thread).holds = true := by rw [callPlace placed here (by simp)]; rfl
    have other : (p.place t).holds = true := by rw [callPlace placed rfl busy, held]
    rw [Monitor.exclusive placed.guarded other mine, here]
    rfl
  · rw [self, here] at next
    rw [self]
    generalize p'.calls a.thread = pc at next
    cases next with
    | move moves =>
      generalize p'.monitor = m at moves
      cases moves
    | purge => rfl

theorem purgedStep {p p' : Pool} {a : Action} (placed : Placed p) (h : Closing p) (taken : step p a = some p')
    (purged' : Purged p') : p'.tasks = [] ∧ ∀ t k, p'.calls t ≠ .commitPush k := by
  rcases purgedCases taken purged' with purged | ⟨here,emptied⟩
  · exact purgedStays h taken purged
  · refine ⟨emptied,fun t k pushes => ?_⟩
    have closes := purgingHolds placed taken here (by rw [pushes]; rfl)
    rw [pushes] at closes
    cases closes

/- There is one purge. -/
theorem purgesOnce {p : Pool} (h : Closing p) {t : ThreadId} (here : p.calls t = .shutdownPurge) : ¬ Purged p := by
  have closes : (p.calls t).closing = true := by rw [here]; rfl
  rintro (stopped | ⟨u,workers,left⟩)
  · rw [h.ended stopped t] at closes
    cases closes
  · rw [h.alone u t (remainingClosing left) closes, here] at left
    cases left

theorem holdsStep {p p' : Pool} {a : Action} (taken : step p a = some p') {u : ThreadId} {k : TaskId}
    (held : (p'.loops u).holds = some k) : (p.loops u).holds = some k ∨ k ∈ p.tasks := by
  rcases loopsStep taken u with same | next
  · rw [same] at held
    exact .inl held
  · generalize p.loops u = pc at next
    generalize p'.loops u = pc' at next held
    cases next with
    | move moves => exact .inl ((moveHolds moves).1.symm.trans held)
    | take head =>
      cases held
      exact .inr (by rw [head]; exact List.mem_cons_self)
    | begin_ => exact .inl held
    | finish | spawn => cases held

theorem holdsPurged {p p' : Pool} {a : Action} (h : Closing p) (taken : step p a = some p') (purged : Purged p)
    {u : ThreadId} {k : TaskId} (held : (p'.loops u).holds = some k) : (p.loops u).holds = some k := by
  refine (holdsStep taken held).resolve_right (fun queued => ?_)
  rw [(h.purged purged).1] at queued
  cases queued

theorem leftStep {p p' : Pool} {a : Action} (h : Closing p) (taken : step p a = some p') {t : ThreadId}
    {workers : List ThreadId} (left' : (p'.calls t).remaining = some workers) {u : ThreadId} {k : TaskId}
    (held' : (p'.loops u).holds = some k) : u ∈ workers := by
  have before : ∀ {ws}, (p.calls t).remaining = some ws → (p.loops u).holds = some k ∧ u ∈ ws := by
    intro ws left
    have held := holdsPurged h taken (.inr ⟨t,ws,left⟩) held'
    exact ⟨held,h.left t ws left u k held⟩
  rcases callsStep taken t with same | ⟨self,next⟩
  · rw [same] at left'
    exact (before left').2
  · rcases remainingNext next left' with left | ⟨w,left,gone⟩ | ⟨here,same,_⟩
    · exact (before left).2
    · obtain ⟨held,member⟩ := before left
      refine (List.mem_cons.mp member).resolve_left (fun joined => ?_)
      rw [joined, gone] at held
      cases held
    · -- The purge takes over every worker there is.
      rw [same]
      refine h.staff (purgesOnce h here) u (fun out => ?_)
      rcases loopsStep taken u with kept | moved
      · rw [kept, out] at held'
        cases held'
      · rw [out] at moved
        generalize p'.loops u = pc' at moved held'
        cases moved with
        | move moves =>
          generalize p'.monitor = m at moves
          cases moves
        | spawn => cases held'

theorem doneStep {p p' : Pool} {a : Action} (h : Closing p) (taken : step p a = some p') (stopped' : p'.stopped = true)
    (u : ThreadId) : (p'.loops u).holds = none := by
  cases held : (p'.loops u).holds with
  | none => rfl
  | some k =>
    rcases (stoppedStep taken).2 stopped' with stopped | ⟨joins,_⟩
    · have before := holdsPurged h taken (.inl stopped) held
      rw [h.done stopped u] at before
      cases before
    · have left : (p.calls a.thread).remaining = some [] := by rw [joins]; rfl
      have before := h.left _ _ left u k (holdsPurged h taken (.inr ⟨_,_,left⟩) held)
      cases before

theorem workersStep {p p' : Pool} {a : Action} (taken : step p a = some p') {u : ThreadId} (member : u ∈ p.workers) :
    u ∈ p'.workers ∨ Purged p' := by
  cases stepCases taken with
  | @purge t pick here =>
    refine .inr (.inr ⟨t,p.workers,?_⟩)
    rw [Pool.callsSetCall, Function.update_self]
    rfl
  | spawn => exact .inl (List.mem_append_left _ member)
  | _ => exact .inl member

theorem purgedKept {p p' : Pool} {a : Action} (taken : step p a = some p') (purged : Purged p) : Purged p' := by
  rcases purged with stopped | ⟨t,workers,left⟩
  · exact .inl ((stoppedStep taken).1 stopped)
  · rcases callsStep taken t with same | ⟨_,next⟩
    · exact .inr ⟨t,workers,by rw [same, left]⟩
    · generalize p.calls t = pc at next left
      generalize after : p'.calls t = pc' at next
      cases next with
      | move moves =>
        generalize p'.monitor = m at moves
        cases moves with
        | shutdownUnlock | shutdownJoin => exact .inr ⟨t,_,by rw [after]; rfl⟩
        | _ => cases left
      | joined ended => exact .inl ended
      | _ => cases left

theorem staffStep {p p' : Pool} {a : Action} (h : Closing p) (taken : step p a = some p') (unpurged' : ¬ Purged p')
    (u : ThreadId) (inside : p'.loops u ≠ .outside) : u ∈ p'.workers := by
  have unpurged : ¬ Purged p := fun purged => unpurged' (purgedKept taken purged)
  have old : p.loops u ≠ .outside → u ∈ p'.workers := fun was =>
    (workersStep taken (h.staff unpurged u was)).resolve_right unpurged'
  rcases loopsStep taken u with same | next
  · exact old (by rw [← same]; exact inside)
  · generalize here : p.loops u = pc at next
    generalize p'.loops u = pc' at next
    cases next with
    | spawn hired => exact hired
    | move moves =>
      have was : pc ≠ .outside := by
        generalize p'.monitor = m at moves
        cases moves <;> simp
      exact old (by rw [here]; exact was)
    | take | begin_ | finish => exact old (by rw [here]; simp)

theorem closingStep {p p' : Pool} {a : Action} (placed : Placed p) (h : Closing p) (taken : step p a = some p') : Closing p' :=
  ⟨openStep h taken,closerStep h taken,fun _ _ => aloneStep h taken,overStep h taken,purgedStep placed h taken,
    fun _ _ left _ _ => leftStep h taken left,doneStep h taken,staffStep h taken⟩

theorem closingConstructed (threadNum : Nat) : Closing (constructed threadNum) := by
  have idle := constructedIdle threadNum
  have quiet : ∀ t, ((constructed threadNum).calls t).closing = false := fun t => by rw [idle]; rfl
  have unpurged : ¬ Purged (constructed threadNum) := by
    rintro (stopped | ⟨t,workers,left⟩)
    · cases stopped
    · rw [idle] at left
      cases left
  refine ⟨fun _ => ⟨rfl,quiet⟩,fun cleared => ?_,fun t u mine _ => ?_,fun _ => quiet,
    fun purged => absurd purged unpurged,fun t workers left => ?_,fun stopped => ?_,fun _ u inside => ?_⟩
  · cases cleared
  · rw [quiet] at mine
    cases mine
  · rw [idle] at left
    cases left
  · cases stopped
  · refine List.mem_range.mpr ?_
    simp only [Pool.loops, constructed] at inside
    split at inside
    · assumption
    · exact absurd rfl inside

/- With a worker left, a task in the queue has a worker that is awake or a Commit whose
notification is still to come. -/
structure Lively (p : Pool) : Prop where
  blocked : ∀ t, p.loops t = .block → p.tasks = []
  exits : ∀ t, p.loops t = .leave ∨ p.loops t = .exited → p.isRunning = false
  wakes : p.isRunning = true → p.tasks ≠ [] → ∀ w, p.loops w ≠ .outside →
    (∃ u, p.loops u ≠ .outside ∧ u ∉ p.monitor.sleeping) ∨ ∃ u k, (p.calls u).posts = some k

theorem loopIdle {p : Pool} (placed : Placed p) {t : ThreadId} {pc : LoopPc} (here : p.loops t = pc)
    (holds : pc.place.holds = true) : p.calls t = .idle := by
  by_contra busy
  rcases placed.proper t busy with out | ⟨task,runs⟩
  · rw [← here, out] at holds
    cases holds
  · rw [← here, runs] at holds
    cases holds

/- While a worker has the mutex nobody pushes. -/
theorem emptyKept {p p' : Pool} {a : Action} (placed : Placed p) (taken : step p a = some p') {t : ThreadId} {pc : LoopPc}
    (here : p.loops t = pc) (holds : pc.place.holds = true) (empty : p.tasks = []) : p'.tasks = [] := by
  cases queueStep taken with
  | same kept => rw [kept, empty]
  | take task head => rw [empty] at head; cases head
  | purge _ emptied => exact emptied
  | push task pushes =>
    have idle := loopIdle placed here holds
    have mine : (p.place t).holds = true := by rw [loopPlace idle here, holds]
    have other : (p.place a.thread).holds = true := by rw [callPlace placed pushes (by simp)]; rfl
    rw [Monitor.exclusive placed.guarded mine other, pushes] at idle
    cases idle

theorem blockedStep {p p' : Pool} {a : Action} (placed : Placed p) (h : Lively p) (taken : step p a = some p')
    (t : ThreadId) (here : p'.loops t = .block) : p'.tasks = [] := by
  rcases loopsStep taken t with same | next
  · rw [same] at here
    exact emptyKept placed taken here rfl (h.blocked t here)
  · generalize before : p.loops t = pc at next
    rw [here] at next
    cases next with
    | move moves =>
      generalize p'.monitor = m at moves
      cases moves with
      | vain runs empty => exact emptyKept placed taken before rfl empty

theorem exitsStep {p p' : Pool} {a : Action} (h : Lively p) (taken : step p a = some p') (t : ThreadId)
    (here : p'.loops t = .leave ∨ p'.loops t = .exited) : p'.isRunning = false := by
  refine clearedStep taken ?_
  rcases loopsStep taken t with same | next
  · rw [same] at here
    exact h.exits t here
  · have before := h.exits t
    generalize p.loops t = pc at next before
    generalize p'.loops t = pc' at next here
    cases next with
    | move moves =>
      generalize p'.monitor = m at moves
      cases moves with
      | done cleared => exact cleared
      | leave => exact before (.inl rfl)
      | _ => simp at here
    | _ => simp at here

/- Only a thread that is about to block falls asleep. -/
theorem sleepingStep {p p' : Pool} {a : Action} (placed : Placed p) (taken : step p a = some p') {u : ThreadId}
    (asleep : u ∈ p'.monitor.sleeping) : u ∈ p.monitor.sleeping ∨ p.place u = .parting := by
  obtain ⟨t,place,moves,_,_⟩ := stepMoves placed taken
  generalize p'.monitor = m at moves asleep
  cases moves with
  | block parting =>
    rcases List.mem_cons.mp asleep with self | before
    · rw [self]
      exact .inr parting
    · exact .inl before
  | notifyOne woken => exact .inl (List.mem_of_mem_erase asleep)
  | notifyAll => cases asleep
  | _ => exact .inl asleep

theorem partingLoop {p : Pool} (placed : Placed p) {t : ThreadId} (parting : p.place t = .parting) :
    p.loops t = .block := by
  have window := partingBlocks placed parting
  have held : p.monitor.holder = some t := (placed.guarded.holder t).mp (by rw [parting]; rfl)
  simp only [aboutToBlock, held] at window
  exact beq_iff_eq.mp window

theorem asleepLoop {p : Pool} (placed : Placed p) {t : ThreadId} (asleep : t ∈ p.monitor.sleeping) : p.loops t = .wait := by
  have waits := placed.guarded.asleep t asleep
  have idle : p.calls t = .idle := by
    by_contra busy
    rw [callPlace placed rfl busy] at waits
    exact callNotWaiting _ waits
  rw [loopPlace idle rfl] at waits
  cases here : p.loops t <;> rw [here] at waits <;> first | rfl | cases waits

theorem insideStays {p p' : Pool} {a : Action} (taken : step p a = some p') {u : ThreadId} (inside : p.loops u ≠ .outside) :
    p'.loops u ≠ .outside := by
  rcases loopsStep taken u with same | next
  · rw [same]
    exact inside
  · generalize p.loops u = pc at next
    generalize p'.loops u = pc' at next
    cases next with
    | move moves =>
      generalize p'.monitor = m at moves
      cases moves <;> simp
    | _ => simp

/- A Commit that has pushed is on its way to its notification, or makes it. -/
theorem postsStep {p p' : Pool} {a : Action} (taken : step p a = some p') {u : ThreadId} {k : TaskId}
    (posts : (p.calls u).posts = some k) :
    (p'.calls u).posts = some k ∨ ∃ pick, p.monitor.mayWake pick = true ∧ p'.monitor = p.monitor.notifyOne pick := by
  rcases callsStep taken u with same | ⟨_,next⟩
  · rw [same]
    exact .inl posts
  · generalize p.calls u = pc at next posts
    generalize p'.calls u = pc' at next
    cases next with
    | move moves =>
      generalize p'.monitor = m at moves
      cases moves with
      | commitUnlock => exact .inl posts
      | _ => cases posts
    | notify pick wakes woken => exact .inr ⟨pick,wakes,woken⟩
    | _ => cases posts

theorem wakesStep {p p' : Pool} {a : Action} (placed : Placed p) (h : Lively p) (taken : step p a = some p')
    (runs' : p'.isRunning = true) (queued' : p'.tasks ≠ []) (w : ThreadId) (inside' : p'.loops w ≠ .outside) :
    (∃ u, p'.loops u ≠ .outside ∧ u ∉ p'.monitor.sleeping) ∨ ∃ u k, (p'.calls u).posts = some k := by
  have placed' := placedStep placed taken
  have runs : p.isRunning = true := by
    by_contra cleared
    rw [clearedStep taken (by simpa using cleared)] at runs'
    cases runs'
  -- A thread that was awake stays so: blocking needs an empty queue.
  have up : ∀ u, p.loops u ≠ .outside → u ∉ p.monitor.sleeping → p.tasks ≠ [] →
      ∃ u, p'.loops u ≠ .outside ∧ u ∉ p'.monitor.sleeping := by
    intro u inside awake queued
    refine ⟨u,insideStays taken inside,fun asleep => ?_⟩
    rcases sleepingStep placed taken asleep with before | parting
    · exact awake before
    · exact queued (h.blocked u (partingLoop placed parting))
  by_cases posting : ∃ u k, (p'.calls u).posts = some k
  · exact .inr posting
  · have queued : p.tasks ≠ [] := by
      intro empty
      cases queueStep taken with
      | same kept => exact queued' (kept.trans empty)
      | take task head => rw [empty] at head; cases head
      | purge _ emptied => exact queued' emptied
      | push task _ _ posted => exact posting ⟨a.thread,task,by rw [posted]; rfl⟩
    rcases loopsStep taken w with same | next
    · rw [same] at inside'
      rcases h.wakes runs queued w inside' with ⟨u,inside,awake⟩ | ⟨u,k,posts⟩
      · exact .inl (up u inside awake queued)
      · rcases postsStep taken posts with still | ⟨pick,wakes,woken⟩
        · exact absurd ⟨u,k,still⟩ posting
        · -- notify_one wakes a thread, or none was asleep.
          rcases Bool.or_eq_true_iff.mp wakes with none | some_
          · refine .inl ⟨w,by rw [same]; exact inside',fun asleep => ?_⟩
            rw [woken] at asleep
            have nobody : p.monitor.sleeping = [] := List.isEmpty_iff.mp none
            simp [Monitor.notifyOne, nobody] at asleep
          · have waits := asleepLoop placed (of_decide_eq_true some_)
            refine .inl ⟨pick,insideStays taken (by rw [waits]; simp),?_⟩
            rw [woken]
            exact Monitor.wokenAwake placed.guarded pick
    · refine .inl ⟨w,inside',fun asleep => ?_⟩
      have waits := asleepLoop placed' asleep
      have blocked := h.blocked w
      generalize p.loops w = pc at next blocked
      rw [waits] at next
      cases next with
      | move moves =>
        generalize p'.monitor = m at moves
        cases moves with
        | block => exact queued (blocked rfl)

theorem livelyStep {p p' : Pool} {a : Action} (placed : Placed p) (h : Lively p) (taken : step p a = some p') : Lively p' :=
  ⟨blockedStep placed h taken,exitsStep h taken,wakesStep placed h taken⟩

theorem livelyConstructed (threadNum : Nat) : Lively (constructed threadNum) := by
  have starts : ∀ t, (constructed threadNum).loops t = .lock ∨ (constructed threadNum).loops t = .outside := by
    intro t
    simp only [Pool.loops, constructed]
    split <;> simp
  refine ⟨fun _ _ => rfl,fun t here => ?_,fun _ queued => absurd rfl queued⟩
  rcases starts t with same | same <;> rw [same] at here <;> simp at here

/- A Shutdown that empties the queue finds it empty, and one that finds the flag cleared
comes after the Shutdown that cleared it has returned. -/
def keepsTasks (p : Pool) (a : Action) : Prop :=
  (p.calls a.thread = .shutdownPurge → p.tasks = []) ∧
  (p.calls a.thread = .shutdownExchange → p.isRunning = false → p.stopped = true)

instance (p : Pool) (a : Action) : Decidable (keepsTasks p a) := by unfold keepsTasks; infer_instance

/- No task that was pushed has disappeared. -/
structure Kept (p : Pool) : Prop where
  kept : ∀ k ∈ p.pushed, k ∈ p.tasks ∨ k ∈ p.finished ∨ ∃ t, (p.loops t).holds = some k
  shut : p.shutDown = true → p.stopped = true

theorem pushedStep {p p' : Pool} {a : Action} (taken : step p a = some p') {k : TaskId} (member : k ∈ p'.pushed) :
    k ∈ p.pushed ∨ k ∈ p'.tasks := by
  cases stepCases taken with
  | push here => exact (List.mem_append.mp member).imp_right (List.mem_append_right _)
  | _ => exact .inl member

theorem finishedStep {p p' : Pool} {a : Action} (taken : step p a = some p') {k : TaskId} (member : k ∈ p.finished) :
    k ∈ p'.finished := by
  cases stepCases taken with
  | finish idle here => exact List.mem_append_left _ member
  | _ => exact member

theorem heldStep {p p' : Pool} {a : Action} (taken : step p a = some p') {u : ThreadId} {k : TaskId}
    (held : (p.loops u).holds = some k) : k ∈ p'.finished ∨ (p'.loops u).holds = some k := by
  rcases loopsStep taken u with same | next
  · rw [same]
    exact .inr held
  · generalize p.loops u = pc at next held
    generalize p'.loops u = pc' at next
    cases next with
    | move moves => exact .inr ((moveHolds moves).1.trans held)
    | begin_ => exact .inr held
    | finish done =>
      cases held
      exact .inl (by rw [done]; exact List.mem_append_right _ List.mem_cons_self)
    | take | spawn => cases held

theorem keptStep {p p' : Pool} {a : Action} (h : Kept p) (ok : keepsTasks p a) (taken : step p a = some p') :
    ∀ k ∈ p'.pushed, k ∈ p'.tasks ∨ k ∈ p'.finished ∨ ∃ t, (p'.loops t).holds = some k := by
  intro k member
  rcases pushedStep taken member with before | queued
  · rcases h.kept k before with queued | done | ⟨t,held⟩
    · cases queueStep taken with
      | same kept => exact .inl (kept.symm ▸ queued)
      | take task head here held =>
        rw [head] at queued
        rcases List.mem_cons.mp queued with front | rest
        · exact .inr (.inr ⟨a.thread,by rw [held, front]; rfl⟩)
        · exact .inl rest
      | push task here added => exact .inl (by rw [added]; exact List.mem_append_left _ queued)
      | purge here emptied =>
        rw [ok.1 here] at queued
        cases queued
    · exact .inr (.inl (finishedStep taken done))
    · exact .inr ((heldStep taken held).imp_right (fun still => ⟨t,still⟩))
  · exact .inl queued

theorem shutStep {p p' : Pool} {a : Action} (h : Kept p) (ok : keepsTasks p a) (taken : step p a = some p')
    (shut : p'.shutDown = true) : p'.stopped = true := by
  cases stepCases taken with
  | again here cleared => exact ok.2 here cleared
  | joined here => rfl
  | _ => exact h.shut shut

/- No thread of the pool can go on: each worker has exited or is asleep, and no call is
under way but a Shutdown that waits in join. -/
def AtRest (p : Pool) : Prop :=
  ∀ t, (p.loops t = .outside ∨ p.loops t = .exited ∨ t ∈ p.monitor.sleeping) ∧
    (p.calls t = .idle ∨ ∃ workers, p.calls t = .shutdownJoin workers)

theorem restEmpty {p : Pool} (closing : Closing p) (lively : Lively p) (rest : AtRest p) {w : ThreadId}
    (staffed : p.loops w ≠ .outside) : p.tasks = [] := by
  by_contra queued
  by_cases runs : p.isRunning = true
  · rcases lively.wakes runs queued w staffed with ⟨u,inside,awake⟩ | ⟨u,k,posts⟩
    · rcases (rest u).1 with out | exited | asleep
      · exact inside out
      · rw [lively.exits u (.inr exited)] at runs
        cases runs
      · exact awake asleep
    · rcases (rest u).2 with idle | ⟨workers,joins⟩
      · rw [idle] at posts
        cases posts
      · rw [joins] at posts
        cases posts
  · rcases closing.closer (by simpa using runs) with stopped | ⟨t,closes⟩
    · exact queued (closing.purged (.inl stopped)).1
    · rcases (rest t).2 with idle | ⟨workers,joins⟩
      · rw [idle] at closes
        cases closes
      · exact queued (closing.purged (.inr ⟨t,workers,by rw [joins]; rfl⟩)).1

theorem restHolds {p : Pool} (placed : Placed p) (rest : AtRest p) (t : ThreadId) : (p.loops t).holds = none := by
  rcases (rest t).1 with out | exited | asleep
  · rw [out]; rfl
  · rw [exited]; rfl
  · rw [asleepLoop placed asleep]; rfl

/- What the pool owes its callers: a task whose Commit returned is executed once and, when
a Shutdown has returned or nothing can go on any more, is finished; a task whose Commit
threw never comes to the queue, and its Commit leaves the queue as it is. -/
structure Served (p : Pool) : Prop where
  once : p.executed.Nodup
  accounted : ∀ k ∈ p.returned, k ∈ p.tasks ∨ k ∈ p.executed ∨ ∃ t, p.loops t = .unlock k ∨ p.loops t = .run k
  shutDown : p.shutDown = true → ∀ k ∈ p.returned, k ∈ p.finished ∧ k ∈ p.executed
  atRest : AtRest p → (∃ w, p.loops w ≠ .outside) → ∀ k ∈ p.returned, k ∈ p.finished ∧ k ∈ p.executed
  refused : ∀ k ∈ p.thrown, k ∉ p.pushed ∧ k ∉ p.tasks ∧ k ∉ p.executed
  refusing : ∀ t k pick p', (p.calls t = .commitLock k ∨ p.calls t = .commitTest k ∨ p.calls t = .commitThrow k) →
    step p (.work t pick) = some p' → p'.tasks = p.tasks

theorem executedPushed {p : Pool} (tasks : Tasks p) {k : TaskId} (there : k ∈ p.executed) : k ∈ p.pushed := by
  rcases (tasks.worked.begun k).mp there with done | ⟨t,runs⟩
  · exact (tasks.worked.done k done).1
  · exact (tasks.worked.held t k (runningHolds runs)).1

theorem refusingKeeps {p p' : Pool} (placed : Placed p) {t pick : ThreadId} {k : TaskId}
    (here : p.calls t = .commitLock k ∨ p.calls t = .commitTest k ∨ p.calls t = .commitThrow k)
    (taken : step p (.work t pick) = some p') : p'.tasks = p.tasks := by
  have busy : p.calls t ≠ .idle := by rcases here with same | same | same <;> simp [same]
  cases queueStep taken with
  | same kept => exact kept
  | take task _ loops =>
    rcases placed.proper t busy with out | ⟨task,runs⟩
    · rw [show p.loops t = .take from loops] at out
      cases out
    · rw [show p.loops t = .take from loops] at runs
      cases runs
  | push task pushes =>
    rw [show p.calls t = .commitPush task from pushes] at here
    simp at here
  | purge purges =>
    rw [show p.calls t = .shutdownPurge from purges] at here
    simp at here

structure Invariant (p : Pool) : Prop where
  placed : Placed p
  tasks : Tasks p
  closing : Closing p
  lively : Lively p
  kept : Kept p

theorem invariantStep {p p' : Pool} {a : Action} (h : Invariant p) (ok : keepsTasks p a) (taken : step p a = some p') :
    Invariant p' :=
  ⟨placedStep h.placed taken,tasksStep h.tasks taken,closingStep h.placed h.closing taken,
    livelyStep h.placed h.lively taken,⟨keptStep h.kept ok taken,shutStep h.kept ok taken⟩⟩

theorem invariantConstructed (threadNum : Nat) : Invariant (constructed threadNum) :=
  ⟨placedConstructed _,tasksConstructed _,closingConstructed _,livelyConstructed _,
    ⟨fun _ member => absurd member List.not_mem_nil,fun shut => nomatch shut⟩⟩

theorem invariantServed {p : Pool} (h : Invariant p) : Served p := by
  have finished : p.tasks = [] → (∀ t, (p.loops t).holds = none) → ∀ k ∈ p.returned, k ∈ p.finished ∧ k ∈ p.executed := by
    intro empty free k member
    rcases h.kept.kept k (h.tasks.numbered.back k member) with queued | done | ⟨t,held⟩
    · rw [empty] at queued
      cases queued
    · exact ⟨done,(h.tasks.worked.begun k).mpr (.inl done)⟩
    · rw [free t] at held
      cases held
  refine ⟨h.tasks.worked.once,fun k member => ?_,fun shut => ?_,fun rest staffed => ?_,fun k thrown => ?_,
    fun _ _ _ _ => refusingKeeps h.placed⟩
  · rcases h.kept.kept k (h.tasks.numbered.back k member) with queued | done | ⟨t,held⟩
    · exact .inl queued
    · exact .inr (.inl ((h.tasks.worked.begun k).mpr (.inl done)))
    · cases here : p.loops t <;> rw [here] at held <;> cases held
      · exact .inr (.inr ⟨t,.inl here⟩)
      · exact .inr (.inr ⟨t,.inr here⟩)
      · exact .inr (.inl ((h.tasks.worked.begun k).mpr (.inr ⟨t,here⟩)))
  · have stopped := h.kept.shut shut
    exact finished (h.closing.purged (.inl stopped)).1 (h.closing.done stopped)
  · obtain ⟨w,inside⟩ := staffed
    exact finished (restEmpty h.closing h.lively rest inside) (restHolds h.placed rest)
  · have out := h.tasks.numbered.apart k thrown
    exact ⟨out,fun queued => out (h.tasks.worked.queue.subset queued),fun there => out (executedPushed h.tasks there)⟩

/- In a run in which Shutdown drops no task and does not return beside a Shutdown that is
still at work, the pool serves its callers in every state. -/
theorem committedExecuted {threadNum : Nat} {as : List Action} {p : Pool}
    (ok : Throughout step keepsTasks (constructed threadNum) as) (reached : run step (constructed threadNum) as = some p) :
    Served p :=
  invariantServed (invariantWhen (fun _ _ _ => invariantStep) (invariantConstructed threadNum) ok reached)

/- Thread 5 commits a task to a pool with one worker. -/
def commitOne : List Action :=
  [.commit 5,.work 5 0,.work 5 0,.work 5 0,.work 5 0,.work 5 0]

/- The worker runs the task, and thread 7 shuts the pool down while it does. -/
def stopServed : List Action :=
  commitOne ++ [.work 0 0,.work 0 0,.work 0 0,.work 0 0,.work 0 0,.work 0 0,.shutdown 7,.work 7 0,.work 7 0,.work 7 0,
    .work 7 0,.work 7 0,.work 0 0,.work 0 0,.work 0 0,.work 0 0,.work 0 0,.work 7 0,.work 7 0]

theorem committedExecutedStopped :
    ∃ p, run step (constructed 1) stopServed = some p ∧ p.returned = [0] ∧ p.shutDown = true ∧ Served p := by
  have ok : Throughout step keepsTasks (constructed 1) stopServed := by decide
  have reached : ∃ p, run step (constructed 1) stopServed = some p ∧ p.returned = [0] ∧ p.shutDown = true :=
    ⟨_,rfl,rfl,rfl⟩
  obtain ⟨p,reached,back,shut⟩ := reached
  exact ⟨p,reached,back,shut,committedExecuted ok reached⟩

/- Thread 7 shuts the pool down before the worker has taken the task: the Commit has
returned its future, Shutdown returns, and the task is gone. -/
def stopDropped : List Action :=
  commitOne ++ [.shutdown 7,.work 7 0,.work 7 0,.work 7 0,.work 7 0,.work 7 0,.work 0 0,.work 0 0,.work 0 0,.work 0 0,
    .work 7 0,.work 7 0]

theorem committedDropped :
    ∃ p, run step (constructed 1) stopDropped = some p ∧ 0 ∈ p.returned ∧ p.shutDown = true ∧ p.tasks = [] ∧
      0 ∉ p.executed ∧ p.loops 0 = .exited ∧ ¬ Served p := by
  have reached : ∃ p, run step (constructed 1) stopDropped = some p ∧ p.returned = [0] ∧ p.shutDown = true ∧
      p.tasks = [] ∧ p.executed = [] ∧ p.loops 0 = .exited := ⟨_,rfl,rfl,rfl,rfl,rfl,rfl⟩
  obtain ⟨p,reached,back,shut,empty,none,exited⟩ := reached
  have member : 0 ∈ p.returned := by rw [back]; exact List.mem_cons_self
  have never : 0 ∉ p.executed := by rw [none]; exact List.not_mem_nil
  exact ⟨p,reached,member,shut,empty,never,exited,fun served => never (served.shutDown shut 0 member).2⟩

end TcFrame.ThreadPool
