import TcFrame.EventLoop

/-! Queued functors and the wakeup descriptor. QueueInLoop leaves out the write when
the loop's own thread calls it outside a functor, which is right in a handler, since
the swap is still to come, and wrong in a timer callback. -/
namespace TcFrame.Loop
open Machine

/- What Poll must find if it is not to sleep on a queued functor. -/
def Awake (w : World) : Prop :=
  ∀ f ∈ w.loop.pendingFunctors, 0 < w.loop.wakeup ∨ ∃ t, t ≠ w.self ∧ w.calls t = some (.queueInLoop f)

def inHandler : Phase → Bool
  | .handling _ => true
  | _ => false

/- A QueueInLoop that writes nothing, while nothing is written and no swap is to come. -/
def leavesAsleep (w : World) : Action → Bool
  | .returns t =>
    match w.calls t with
    | some (.queueInLoop _) =>
      w.loop.isInLoopThread t && !w.loop.callingPendingFunctors && w.loop.wakeup == 0 && !inHandler w.phase
    | _ => false
  | _ => false

def beforeSwap : Phase → Bool
  | .events _ | .handling _ | .swap => true
  | _ => false

/- Each pending functor will be seen: by the swap of this iteration, through the
wakeup descriptor, or by whoever still has to write to it. -/
def Heard (w : World) : Prop :=
  ∀ f ∈ w.loop.pendingFunctors, beforeSwap w.phase = true ∨ 0 < w.loop.wakeup ∨
    ∃ t, w.calls t = some (.queueInLoop f)

theorem heardLoop {w w' : World} {s : LoopStep} (h : Heard w) (taken : LoopTaken w s w') : Heard w' := by
  have same : ∀ {p}, w.phase = p → beforeSwap p = false → ∀ f ∈ w.loop.pendingFunctors,
      0 < w.loop.wakeup ∨ ∃ t, w.calls t = some (.queueInLoop f) := by
    intro p phase late f member
    rcases h f member with now | rest
    · rw [phase, late] at now; cases now
    · exact rest
  cases taken with
  | pollReturns phase readable => exact fun f member => .inl rfl
  | drain phase => exact fun f member => .inl rfl
  | handle phase => exact fun f member => .inl rfl
  | handled phase => exact fun f member => .inl rfl
  | calling phase => exact fun f member => .inl rfl
  | swap phase => exact fun f member => by cases member
  | start phase | enter phase | leave phase | begin_ phase | timeout phase | call phase | called phase
  | calledAll phase | collect phase | fire phase | finish phase | again phase =>
    exact fun f member => .inr (same phase rfl f member)

/- A call that pushes nothing and writes at most to the descriptor. -/
theorem heardCall {w w' : World} {t : ThreadId} {c : Option Call} (h : Heard w)
    (idle : ∀ f, w.calls t ≠ some (.queueInLoop f)) (phase : w'.phase = w.phase)
    (pending : w'.loop.pendingFunctors = w.loop.pendingFunctors) (written : w.loop.wakeup ≤ w'.loop.wakeup)
    (calls : w'.calls = Function.update w.calls t c) : Heard w' := by
  intro f member
  rw [pending] at member
  rw [phase, calls]
  obtain now | awake | ⟨t',held⟩ := h f member
  · exact .inl now
  · exact .inr (.inl (Nat.lt_of_lt_of_le awake written))
  · have other : t' ≠ t := by
      intro same
      rw [same] at held
      exact idle f held
    exact .inr (.inr ⟨t',by rw [Function.update_of_ne other]; exact held⟩)

theorem mayCallIdle {w : World} {t : ThreadId} (may : mayCall w t = true) : w.calls t = none := by
  simp only [mayCall, Bool.and_eq_true, Option.isNone_iff_eq_none] at may
  exact may.1

theorem wakeForWorkWritten (l : EventLoop) (t : ThreadId) :
    (l.wakeForWork t).pendingFunctors = l.pendingFunctors ∧ l.wakeup ≤ (l.wakeForWork t).wakeup := by
  unfold EventLoop.wakeForWork
  split
  · exact ⟨rfl,Nat.le_succ _⟩
  · exact ⟨rfl,Nat.le_refl _⟩

theorem wakeFromOutsideWritten (l : EventLoop) (t : ThreadId) :
    (l.wakeFromOutside t).pendingFunctors = l.pendingFunctors ∧ l.wakeup ≤ (l.wakeFromOutside t).wakeup := by
  unfold EventLoop.wakeFromOutside
  split
  · exact ⟨rfl,Nat.le_succ _⟩
  · exact ⟨rfl,Nat.le_refl _⟩

theorem heardPush {w : World} {t : ThreadId} (h : Heard w) (may : mayCall w t = true) :
    Heard { calling w t { w.loop with pendingFunctors := w.loop.pendingFunctors ++ [w.pushed] }
      (some (.queueInLoop w.pushed)) with pushed := w.pushed + 1 } := by
  have idle := mayCallIdle may
  intro f member
  rcases List.mem_append.mp member with old | new
  · obtain now | awake | ⟨t',held⟩ := h f old
    · exact .inl now
    · exact .inr (.inl awake)
    · have other : t' ≠ t := by
        intro same
        rw [same, idle] at held
        cases held
      exact .inr (.inr ⟨t',by simpa only [calling, Function.update_of_ne other] using held⟩)
  · rw [List.mem_singleton.mp new]
    exact .inr (.inr ⟨t,by simp [calling]⟩)

/- The second half of QueueInLoop: either it writes, or the descriptor is readable
already, or the loop is before its swap. -/
theorem heardReturn {w : World} {t : ThreadId} {f : Nat} (held : w.calls t = some (.queueInLoop f))
    (awake : leavesAsleep w (.returns t) = false) :
    beforeSwap w.phase = true ∨ 0 < (w.loop.wakeForWork t).wakeup := by
  unfold EventLoop.wakeForWork
  split
  · exact .inr (Nat.succ_pos _)
  · rename_i silent
    simp only [Bool.or_eq_true, Bool.not_eq_true', not_or, Bool.not_eq_false, Bool.not_eq_true] at silent
    simp only [leavesAsleep, held, silent.1, silent.2, Bool.true_and, Bool.not_false, Bool.and_eq_false_iff,
      beq_eq_false_iff_ne, Bool.not_eq_false'] at awake
    rcases awake with written | handler
    · exact .inr (Nat.pos_of_ne_zero written)
    · refine .inl ?_
      cases phase : w.phase with
      | handling rest => rfl
      | _ => rw [phase] at handler; cases handler

theorem heardStep {w w' : World} {a : Action} (h : Heard w) (awake : leavesAsleep w a = false)
    (taken : step w a = some w') : Heard w' := by
  cases stepCases taken with
  | loop quiet moved => exact heardLoop h moved
  | callLoop own quiet phase =>
    have late : beforeSwap w.phase = false := by rcases phase with phase | phase <;> rw [phase] <;> rfl
    intro f member
    rcases h f member with now | rest
    · rw [late] at now; cases now
    · exact .inr rest
  | queueInLoop may => exact heardPush h may
  | quit may => exact heardCall h (by simp [mayCallIdle may]) rfl rfl (Nat.le_refl _) rfl
  | timers outside may quiet => exact heardCall h (by simp [mayCallIdle may]) rfl rfl (Nat.le_refl _) rfl
  | @queued t f held =>
    intro g member
    rw [show ({ calling w t (w.loop.wakeForWork t) none with returned := w.returned ++ [f] } : World).phase = w.phase
      from rfl]
    rcases heardReturn held awake with now | written
    · exact .inl now
    · exact .inr (.inl written)
  | added held =>
    obtain ⟨pending,written⟩ := wakeForWorkWritten w.loop _
    exact heardCall h (by simp [held]) rfl pending written rfl
  | cancelled held =>
    obtain ⟨pending,written⟩ := wakeFromOutsideWritten w.loop _
    exact heardCall h (by simp [held]) rfl pending written rfl
  | quitted held =>
    obtain ⟨pending,written⟩ := wakeFromOutsideWritten w.loop _
    exact heardCall h (by simp [held]) rfl pending written rfl

theorem heardInitial {w : World} (h : Initial w) : Heard w := by
  cases h <;> exact fun f member => by cases member

/- In Poll no pending functor waits unheard, for whatever timeout, in every run in
which no call of QueueInLoop leaves the loop asleep. -/
theorem pollHearsQueued {s w : World} {as : List Action} {timeoutMs : Nat} (start : Initial s)
    (kept : Throughout step (fun u a => leavesAsleep u a = false) s as) (reached : run step s as = some w)
    (polling : w.phase = .poll timeoutMs) : Awake w := by
  have heard : Heard w := invariantWhen (fun _ _ _ => heardStep) (heardInitial start) kept reached
  have located : Located w := invariant (fun _ _ _ => locatedStep) (locatedInitial start) reached
  have quiet : w.calls w.self = none := by
    by_contra busy
    have runs := located.user busy
    rw [polling] at runs
    cases runs
  intro f member
  obtain now | awake | ⟨t,held⟩ := heard f member
  · rw [polling] at now; cases now
  · exact .inl awake
  · refine .inr ⟨t,?_,held⟩
    intro same
    rw [same, quiet] at held
    cases held

/- Thread 1 queues while the loop of thread 0 is in Poll. -/
def queuedFromOutside : List Action :=
  [.callLoop,.loop .enter,.loop .test,.loop (.timeout 0),.queueInLoop 1]

theorem pollHearsQueuedFromOutside : ∃ w, run step (constructed 0 0 false) queuedFromOutside = some w ∧
    w.loop.pendingFunctors = [0] ∧ Awake w := by
  have reached : ∃ w, run step (constructed 0 0 false) queuedFromOutside = some w ∧
      w.loop.pendingFunctors = [0] ∧ w.phase = .poll 10000 := ⟨_,rfl,rfl,rfl⟩
  obtain ⟨w,taken,pending,polling⟩ := reached
  have kept : Throughout step (fun u a => leavesAsleep u a = false) (constructed 0 0 false) queuedFromOutside := by
    decide
  exact ⟨w,taken,pending,pollHearsQueued .manual kept taken polling⟩

/- A one-shot timer's callback queues a functor; nothing else is due. -/
def queuedFromTimer : List Action :=
  [.runAt 0 5 true,.returns 0,.callLoop,.loop .enter,.loop .test,.loop (.timeout 5),.loop (.pollReturns []),
    .loop .store,.loop .swap,.loop .store,.loop (.collect 5),.loop .fire,.queueInLoop 0,.returns 0,
    .loop (.finish 6),.loop .again,.loop .test,.loop (.timeout 6)]

theorem pollSleepsOnQueued : ¬ ∀ s w as timeoutMs, Initial s → run step s as = some w →
    w.phase = .poll timeoutMs → 0 < timeoutMs → Awake w := by
  intro claimed
  have reached : ∃ w, run step (constructed 0 0 false) queuedFromTimer = some w ∧ w.phase = .poll 10000 ∧
      w.loop.pendingFunctors = [0] ∧ w.loop.wakeup = 0 ∧ ∀ t, w.calls t = none := by
    refine ⟨_,rfl,rfl,rfl,rfl,fun t => ?_⟩
    simp [calling, constructed]
  obtain ⟨w,taken,polling,pending,unread,nobody⟩ := reached
  obtain readable | ⟨t,_,held⟩ := claimed _ w _ _ .manual taken polling (by decide) 0 (by simp [pending])
  · rw [unread] at readable; cases readable
  · rw [nobody] at held; cases held

end TcFrame.Loop
