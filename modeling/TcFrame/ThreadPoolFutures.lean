import TcFrame.ThreadPoolShutdown

/-! What becomes of the futures: workers take the tasks in the order of the pushes, the
Shutdown that empties the queue drops those that are left, and so every future that a
Commit has returned gets an answer, once. -/
namespace TcFrame.ThreadPool
open Machine

/- A journal: the tasks that workers have taken from the queue, and those that Shutdown has
popped. -/
structure Fates where
  taken : List TaskId
  dropped : List TaskId
  deriving DecidableEq, Repr

def noteFate (p : Pool) (a : Action) (_ : Pool) (f : Fates) : Fates :=
  match p.calls a.thread, p.loops a.thread with
  | .shutdownPurge, _ => { f with dropped := f.dropped ++ p.tasks }
  | .idle, .take => { f with taken := f.taken ++ p.tasks.take 1 }
  | _, _ => f

/- What a future has: nothing, what its task returned or threw, or the broken_promise of a
packaged_task that was destroyed and never called. -/
inductive Answer (ρ : Type) where
  | pending
  | ready (result : ρ)
  | brokenPromise
  deriving DecidableEq, Repr

/- A task that is dropped is destroyed when the queue and its Commit have let go of it. -/
def answer {ρ : Type} (outcome : TaskId → ρ) (p : Pool) (f : Fates) (k : TaskId) : Answer ρ :=
  if k ∈ p.finished then .ready (outcome k)
  else if k ∈ f.dropped ∧ k ∈ p.returned then .brokenPromise
  else .pending

/- What a step does to the queue and to the journal. -/
inductive FateNext (p p' : Pool) (a : Action) (f : Fates) : Fates → Prop where
  | same (kept : p'.tasks = p.tasks) (closed : p'.pushed = p.pushed) : FateNext p p' a f f
  | take {task} (here : p.loops a.thread = .take) (head : p.tasks = task :: p'.tasks) (closed : p'.pushed = p.pushed)
      (held : p'.loops a.thread = .unlock task) (called : p'.executed = p.executed) : FateNext p p' a f { f with taken := f.taken ++ [task] }
  | push {task} (added : p'.tasks = p.tasks ++ [task]) (pushed : p'.pushed = p.pushed ++ [task]) : FateNext p p' a f f
  | purge (here : p.calls a.thread = .shutdownPurge) (emptied : p'.tasks = []) (closed : p'.pushed = p.pushed)
      (loops : p'.loops = p.loops) (entered : Purged p') : FateNext p p' a f { f with dropped := f.dropped ++ p.tasks }

theorem fateBusy {p p' : Pool} {a : Action} {f : Fates} (busy : p.calls a.thread ≠ .idle)
    (other : p.calls a.thread ≠ .shutdownPurge) (still : FateNext p p' a f f) : FateNext p p' a f (noteFate p a p' f) := by
  unfold noteFate
  split
  · rename_i here
    exact absurd here other
  · rename_i here _
    exact absurd here busy
  · exact still

theorem fateOff {p p' : Pool} {a : Action} {f : Fates} (idle : p.calls a.thread = .idle)
    (other : p.loops a.thread ≠ .take) (still : FateNext p p' a f f) : FateNext p p' a f (noteFate p a p' f) := by
  unfold noteFate
  rw [idle]
  split
  · rename_i here
    cases here
  · rename_i here
    exact absurd here other
  · exact still

theorem fateStep {p p' : Pool} {a : Action} (taken : step p a = some p') (f : Fates) :
    FateNext p p' a f (noteFate p a p' f) := by
  cases stepCases taken with
  | @loopMove t pick pc m idle moves =>
    refine fateOff idle (fun here => ?_) (.same rfl rfl)
    rw [show (p.threads t).loop = .take from here] at moves
    cases moves
  | @callMove t pick pc m moves =>
    refine fateBusy (fun here => ?_) (fun here => ?_) (.same rfl rfl)
    · rw [show (p.threads t).call = .idle from here] at moves
      cases moves
    · rw [show (p.threads t).call = .shutdownPurge from here] at moves
      cases moves
  | commit may | shutdown may | resize may =>
    obtain ⟨idle,out⟩ := mayCallCases may
    refine fateOff idle (fun here => ?_) (.same rfl rfl)
    rcases out with away | ⟨task,runs⟩
    · exact absurd (here.symm.trans away) (by simp)
    · exact absurd (here.symm.trans runs) (by simp)
  | @take t pick task rest idle here head =>
    have noted : noteFate p (.work t pick) ({ p with tasks := rest }.setLoop t (.unlock task)) f =
        { f with taken := f.taken ++ [task] } := by
      simp only [noteFate, Action.thread, Pool.calls, Pool.loops, idle, here, head, List.take_succ_cons, List.take_zero]
    rw [noted]
    refine .take here head rfl ?_ rfl
    rw [Pool.loopsSetLoop]
    exact Function.update_self _ _ _
  | begin_ idle here | finish idle here =>
    exact fateOff idle (fun other => absurd (other.symm.trans here) (by simp)) (.same rfl rfl)
  | @purge t pick here =>
    have noted : noteFate p (.work t pick) ({ p with workers := [], tasks := [] }.setCall t (.shutdownUnlock p.workers)) f =
        { f with dropped := f.dropped ++ p.tasks } := by
      simp only [noteFate, Action.thread, Pool.calls, here]
    rw [noted]
    refine .purge here rfl rfl (Pool.loopsSetCall _ _ _) (.inr ⟨t,p.workers,?_⟩)
    rw [Pool.callsSetCall, Function.update_self]
    rfl
  | push here =>
    exact fateBusy (fun other => absurd (other.symm.trans here) (by simp))
      (fun other => absurd (other.symm.trans here) (by simp)) (.push rfl rfl)
  | throw_ here | notify here | clear here | again here | joined here | store here | spawn here =>
    exact fateBusy (fun other => absurd (other.symm.trans here) (by simp))
      (fun other => absurd (other.symm.trans here) (by simp)) (.same rfl rfl)

/- The task of a worker that has taken it and not called it yet. -/
def LoopPc.awaits : LoopPc → List TaskId
  | .unlock task | .run task => [task]
  | _ => []

/- The tasks leave the queue at its front one by one, and then all that are left at once. -/
structure Fated (p : Pool) (f : Fates) : Prop where
  placed : Placed p
  tasks : Tasks p
  closing : Closing p
  lively : Lively p
  order : p.pushed = f.taken ++ (f.dropped ++ p.tasks)
  purged : f.dropped ≠ [] → Purged p
  begun : ∀ k, k ∈ f.taken ↔ k ∈ p.finished ∨ ∃ t, (p.loops t).holds = some k
  alone : ∀ u, (∀ v, p.loops v ≠ .outside → v = u) → f.taken = p.executed ++ (p.loops u).awaits

theorem droppedNone {p : Pool} {f : Fates} (h : Fated p f) (queued : p.tasks ≠ []) : f.dropped = [] := by
  by_contra some_
  exact queued (h.closing.purged (h.purged some_)).1

theorem orderStep {p p' : Pool} {a : Action} {f f' : Fates} (h : Fated p f) (next : FateNext p p' a f f') :
    p'.pushed = f'.taken ++ (f'.dropped ++ p'.tasks) := by
  cases next with
  | same kept closed => rw [closed, kept, h.order]
  | take here head closed =>
    have none : f.dropped = [] := droppedNone h (by rw [head]; simp)
    rw [closed, h.order, none, head]
    simp
  | push added pushed => rw [pushed, added, h.order]; simp
  | purge here emptied closed => rw [closed, emptied, h.order]; simp

theorem fatePurged {p p' : Pool} {a : Action} {f f' : Fates} (h : Fated p f) (taken : step p a = some p')
    (next : FateNext p p' a f f') (some_ : f'.dropped ≠ []) : Purged p' := by
  cases next with
  | purge _ _ _ _ entered => exact entered
  | _ => exact purgedKept taken (h.purged some_)

theorem finishedCases {p p' : Pool} {a : Action} (taken : step p a = some p') {k : TaskId} (done : k ∈ p'.finished) :
    k ∈ p.finished ∨ ∃ t, (p.loops t).holds = some k := by
  cases stepCases taken with
  | @finish t pick task idle here =>
    refine (List.mem_append.mp done).imp_right (fun last => ⟨t,?_⟩)
    rw [List.mem_singleton.mp last]
    exact runningHolds here
  | _ => exact .inl done

theorem begunStep {p p' : Pool} {a : Action} {f f' : Fates} (h : Fated p f) (tasks' : Tasks p')
    (taken : step p a = some p') (next : FateNext p p' a f f') (k : TaskId) :
    k ∈ f'.taken ↔ k ∈ p'.finished ∨ ∃ t, (p'.loops t).holds = some k := by
  have onward : k ∈ f.taken → k ∈ p'.finished ∨ ∃ t, (p'.loops t).holds = some k := by
    intro member
    rcases (h.begun k).mp member with done | ⟨t,held⟩
    · exact .inl (finishedStep taken done)
    · exact (heldStep taken held).imp_right (fun still => ⟨t,still⟩)
  have back : k ∈ p'.finished ∨ (∃ t, (p'.loops t).holds = some k) → k ∈ f.taken ∨ k ∈ p.tasks := by
    rintro (done | ⟨t,held⟩)
    · exact .inl ((h.begun k).mpr (finishedCases taken done))
    · exact (holdsStep taken held).imp_left (fun before => (h.begun k).mpr (.inr ⟨t,before⟩))
  -- A task that stays in the queue is with no worker.
  have queued : k ∈ p'.tasks → ¬ (k ∈ p'.finished ∨ ∃ t, (p'.loops t).holds = some k) := by
    rintro member (done | ⟨t,held⟩)
    · exact (tasks'.worked.done k done).2 member
    · exact (tasks'.worked.held t k held).2.1 member
  cases next with
  | same kept =>
    refine ⟨onward,fun gone => (back gone).resolve_right (fun member => ?_)⟩
    exact queued (by rw [kept]; exact member) gone
  | @take task here head closed held =>
    constructor
    · intro member
      rcases List.mem_append.mp member with old | last
      · exact onward old
      · refine .inr ⟨a.thread,?_⟩
        rw [held, List.mem_singleton.mp last]
        rfl
    · intro gone
      rcases back gone with old | member
      · exact List.mem_append_left _ old
      · rw [head] at member
        rcases List.mem_cons.mp member with front | rest
        · rw [front]
          exact List.mem_append_right _ List.mem_cons_self
        · exact absurd gone (queued rest)
  | push added =>
    refine ⟨onward,fun gone => (back gone).resolve_right (fun member => ?_)⟩
    exact queued (by rw [added]; exact List.mem_append_left _ member) gone
  | purge here emptied closed loops =>
    refine ⟨onward,fun gone => (h.begun k).mpr ?_⟩
    rw [loops] at gone
    exact gone.elim (finishedCases taken) .inr

theorem moveAwaits {p : Pool} {t : ThreadId} {pc pc' : LoopPc} {m : Monitor ThreadId} (moves : LoopMove p t pc pc' m) :
    pc'.awaits = pc.awaits ∧ pc ≠ .outside := by
  cases moves <;> exact ⟨rfl,by simp⟩

/- A task goes on from waiting for its worker to being called, or comes from the queue. -/
theorem awaitsStep {p p' : Pool} {a : Action} (taken : step p a = some p') {u : ThreadId}
    (single : ∀ v, p.loops v ≠ .outside → v = u) :
    p'.executed ++ (p'.loops u).awaits = p.executed ++ (p.loops u).awaits ∨
      ∃ task, p.tasks = task :: p'.tasks ∧ (p'.loops u).awaits ≠ (p.loops u).awaits := by
  have acts : ∀ {t pc}, (p.threads t).loop = pc → pc ≠ .outside → t = u := fun {t _} here inside =>
    single t (by rw [Pool.loops, here]; exact inside)
  cases stepCases taken with
  | @loopMove t pick pc m idle moves =>
    obtain ⟨same,inside⟩ := moveAwaits moves
    cases acts rfl inside
    refine .inl ?_
    rw [Pool.loopsSetLoop, Function.update_self, same]
    rfl
  | @take t pick task rest idle here head =>
    cases acts here (by simp)
    refine .inr ⟨task,head,?_⟩
    rw [Pool.loopsSetLoop, Function.update_self, Pool.loops, here]
    simp [LoopPc.awaits]
  | @begin_ t pick task idle here =>
    cases acts here (by simp)
    refine .inl ?_
    rw [Pool.loopsSetLoop, Function.update_self, Pool.loops, here]
    exact List.append_nil _
  | @finish t pick task idle here =>
    cases acts here (by simp)
    refine .inl ?_
    rw [Pool.loopsSetLoop, Function.update_self, Pool.loops, here]
    rfl
  | @spawn t pick add here new other =>
    refine .inl ?_
    rw [Pool.loopsSetCall, Pool.loopsSetLoop, Function.update_apply]
    split
    · rename_i self
      rw [self, Pool.loops, new]
      rfl
    · rfl
  | _ =>
    rw [Pool.loopsSetCall]
    exact .inl rfl

/- With one worker at most, what it has called is what was taken, but for the task in hand. -/
theorem singleStep {p p' : Pool} {a : Action} {f f' : Fates} (h : Fated p f) (taken : step p a = some p')
    (next : FateNext p p' a f f') {u : ThreadId} (single' : ∀ v, p'.loops v ≠ .outside → v = u) :
    f'.taken = p'.executed ++ (p'.loops u).awaits := by
  have single : ∀ v, p.loops v ≠ .outside → v = u := fun v inside => single' v (insideStays taken inside)
  have before := h.alone u single
  have onward : (∀ task, p.tasks = task :: p'.tasks → (p'.loops u).awaits = (p.loops u).awaits) →
      f.taken = p'.executed ++ (p'.loops u).awaits := by
    intro other
    rcases awaitsStep taken single with same | ⟨task,head,changed⟩
    · rw [same, before]
    · exact absurd (other task head) changed
  cases next with
  | same kept =>
    refine onward (fun task head => ?_)
    rw [kept] at head
    exact absurd head.symm (List.cons_ne_self _ _)
  | @take task here head closed held called =>
    have self : a.thread = u := single _ (by rw [here]; simp)
    rw [← self] at before ⊢
    rw [before, held, called, here]
    simp [LoopPc.awaits]
  | @push task added =>
    refine onward (fun other head => ?_)
    have longer := congrArg List.length (head.trans (congrArg _ added))
    simp at longer
    omega
  | purge here emptied closed loops => exact onward (fun _ _ => by rw [loops])

theorem fatedStep {p p' : Pool} {a : Action} {f : Fates} (h : Fated p f) (taken : step p a = some p') :
    Fated p' (noteFate p a p' f) :=
  have next := fateStep taken f
  have tasks' := tasksStep h.tasks taken
  ⟨placedStep h.placed taken,tasks',closingStep h.placed h.closing taken,livelyStep h.placed h.lively taken,
    orderStep h next,fatePurged h taken next,begunStep h tasks' taken next,fun _ => singleStep h taken next⟩

theorem fatedConstructed (threadNum : Nat) : Fated (constructed threadNum) ⟨[],[]⟩ := by
  have starts : ∀ t, (constructed threadNum).loops t = .lock ∨ (constructed threadNum).loops t = .outside := by
    intro t
    simp only [Pool.loops, constructed]
    split <;> simp
  refine ⟨placedConstructed _,tasksConstructed _,closingConstructed _,livelyConstructed _,rfl,
    fun some_ => absurd rfl some_,fun k => ⟨fun none => absurd none List.not_mem_nil,?_⟩,fun u _ => ?_⟩
  · rintro (done | ⟨t,held⟩)
    · exact absurd done List.not_mem_nil
    · rcases starts t with same | same <;> rw [same] at held <;> cases held
  · rcases starts u with same | same <;> rw [same] <;> rfl

section Answers
variable {ρ : Type} {outcome : TaskId → ρ}

/- What is dropped was not taken, and so it is never called. -/
theorem droppedApart {p : Pool} {f : Fates} (h : Fated p f) {k : TaskId} (member : k ∈ f.dropped) :
    k ∉ p.finished ∧ k ∉ p.executed := by
  have once := h.tasks.numbered.once
  rw [h.order] at once
  have untaken : k ∉ f.taken := fun taken =>
    (List.nodup_append.mp once).2.2 k taken k (List.mem_append_left _ member) rfl
  have unfinished : k ∉ p.finished := fun done => untaken ((h.begun k).mpr (.inl done))
  refine ⟨unfinished,fun called => ?_⟩
  rcases (h.tasks.worked.begun k).mp called with done | ⟨t,runs⟩
  · exact unfinished done
  · exact untaken ((h.begun k).mpr (.inr ⟨t,runningHolds runs⟩))

/- With an empty queue and no task in hand, a task is finished or dropped. -/
theorem answerSettled {p : Pool} {f : Fates} (h : Fated p f) (empty : p.tasks = []) (free : ∀ t, (p.loops t).holds = none)
    {k : TaskId} (returned : k ∈ p.returned) :
    answer outcome p f k = if k ∈ f.dropped then .brokenPromise else .ready (outcome k) := by
  split
  · rename_i member
    rw [answer, if_neg (droppedApart h member).1, if_pos ⟨member,returned⟩]
  · rename_i kept
    have pushed := h.tasks.numbered.back k returned
    rw [h.order, empty, List.append_nil] at pushed
    have taken := (List.mem_append.mp pushed).resolve_right kept
    have done : k ∈ p.finished := by
      rcases (h.begun k).mp taken with done | ⟨t,held⟩
      · exact done
      · rw [free t] at held
        cases held
    rw [answer, if_pos done]

theorem returnedKept {p p' : Pool} {a : Action} (taken : step p a = some p') {k : TaskId} (member : k ∈ p.returned) :
    k ∈ p'.returned := by
  cases stepCases taken with
  | notify => exact List.mem_append_left _ member
  | _ => exact member

theorem droppedStep {p p' : Pool} {a : Action} {f f' : Fates} (next : FateNext p p' a f f') {k : TaskId}
    (member : k ∈ f.dropped) : k ∈ f'.dropped := by
  cases next with
  | purge => exact List.mem_append_left _ member
  | _ => exact member

theorem answerStep {p p' : Pool} {a : Action} {f : Fates} (h : Fated p f) (taken : step p a = some p') {k : TaskId}
    (given : answer outcome p f k ≠ .pending) :
    answer outcome p' (noteFate p a p' f) k = answer outcome p f k := by
  by_cases done : k ∈ p.finished
  · rw [answer, if_pos (finishedStep taken done), answer, if_pos done]
  · by_cases broken : k ∈ f.dropped ∧ k ∈ p.returned
    · have still := droppedStep (fateStep taken f) broken.1
      rw [answer, if_neg (droppedApart (fatedStep h taken) still).1, if_pos ⟨still,returnedKept taken broken.2⟩,
        answer, if_neg done, if_pos broken]
    · rw [answer, if_neg done, if_neg broken] at given
      exact absurd rfl given

theorem answerKept {p p' : Pool} {f f' : Fates} {as : List Action} (h : Fated p f)
    (reached : run (recording step noteFate) (p,f) as = some (p',f')) {k : TaskId}
    (given : answer outcome p f k ≠ .pending) : answer outcome p' f' k = answer outcome p f k := by
  have keep : ∀ q a q' g, Fated q g ∧ answer outcome q g k = answer outcome p f k → step q a = some q' →
      Fated q' (noteFate q a q' g) ∧ answer outcome q' (noteFate q a q' g) k = answer outcome p f k := by
    intro q a q' g hq taken
    refine ⟨fatedStep hq.1 taken,?_⟩
    rw [answerStep hq.1 taken (by rw [hq.2]; exact given), hq.2]
  have first : Fated p f ∧ answer outcome p f k = answer outcome p f k := ⟨h,rfl⟩
  exact (recordingInvariant keep first reached).2

end Answers

/- What the callers of Commit get. Nothing is called out of the order of the pushes, but for
workers that overtake each other: the tasks taken come first and the tasks dropped behind
them. Once Shutdown has returned, or nothing can go on, no future is pending any more: the
dropped ones have a broken promise, and the others what their tasks made. An answer stays. -/
structure Answered {ρ : Type} (outcome : TaskId → ρ) (p : Pool) (f : Fates) : Prop where
  order : p.pushed = f.taken ++ (f.dropped ++ p.tasks)
  last : f.dropped ≠ [] → p.tasks = [] ∧ ∀ k, k ∈ f.dropped → k ∉ p.executed
  single : ∀ u, (∀ v, p.loops v ≠ .outside → v = u) → p.executed <+: p.pushed
  settled : p.stopped = true ∨ AtRest p ∧ (∃ w, p.loops w ≠ .outside) → ∀ k ∈ p.returned,
    answer outcome p f k = if k ∈ f.dropped then .brokenPromise else .ready (outcome k)
  stays : ∀ k, answer outcome p f k ≠ .pending → ∀ bs p' f',
    run (recording step noteFate) (p,f) bs = some (p',f') → answer outcome p' f' k = answer outcome p f k

theorem futuresAnswered {ρ : Type} (outcome : TaskId → ρ) {threadNum : Nat} {as : List Action} {p : Pool} {f : Fates}
    (reached : run (recording step noteFate) (constructed threadNum,⟨[],[]⟩) as = some (p,f)) : Answered outcome p f := by
  have h : Fated p f := recordingInvariant (fun _ _ _ _ => fatedStep) (fatedConstructed threadNum) reached
  refine ⟨h.order,fun some_ => ⟨(h.closing.purged (h.purged some_)).1,fun k member => (droppedApart h member).2⟩,
    fun u single => ?_,fun over_ k returned => ?_,fun k given bs p' f' later => answerKept h later given⟩
  · have all := h.order
    rw [h.alone u single, List.append_assoc] at all
    exact ⟨_,all.symm⟩
  · rcases over_ with stopped | ⟨rest,w,inside⟩
    · exact answerSettled h (h.closing.purged (.inl stopped)).1 (h.closing.done stopped) returned
    · exact answerSettled h (restEmpty h.closing h.lively rest inside) (restHolds h.placed rest) returned

/- The worker is at the first task when thread 7 shuts the pool down, and the second one is
still in the queue. -/
def stopBetween : List Action :=
  commitOne ++ [.work 0 0,.work 0 0,.work 0 0,.work 0 0,.work 0 0,.work 0 0] ++ commitOne ++
    [.shutdown 7,.work 7 0,.work 7 0,.work 7 0,.work 7 0,.work 7 0,.work 0 0,.work 0 0,.work 0 0,.work 0 0,.work 0 0,
      .work 7 0,.work 7 0]

theorem futuresAnsweredBetween :
    ∃ p f, run (recording step noteFate) (constructed 1,⟨[],[]⟩) stopBetween = some (p,f) ∧ p.returned = [0,1] ∧
      p.stopped = true ∧ f = ⟨[0],[1]⟩ ∧ Answered (fun k => k) p f := by
  have reached : ∃ p f, run (recording step noteFate) (constructed 1,⟨[],[]⟩) stopBetween = some (p,f) ∧
      p.returned = [0,1] ∧ p.stopped = true ∧ f = ⟨[0],[1]⟩ := ⟨_,_,rfl,rfl,rfl,rfl⟩
  obtain ⟨p,f,reached,back,stopped,fates⟩ := reached
  exact ⟨p,f,reached,back,stopped,fates,futuresAnswered (fun k => k) reached⟩

end TcFrame.ThreadPool
