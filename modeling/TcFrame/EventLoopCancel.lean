import TcFrame.EventLoopTimers

/-! Cancel and the callbacks. A timer that has been cancelled stays away. But a one-shot task
leaves m_timers only behind its callback, so a Cancel that comes while the callback runs
still finds it there and answers true. -/
namespace TcFrame.Loop
open Machine

/- The timer whose callback the step starts. -/
def invokes (w : World) : Action → Option TimerId
  | .loop .fire =>
    match w.phase with
    | .ready (id :: _) => if w.loop.timers.mayFire id then some id else none
    | _ => none
  | _ => none

/- The timer for which the step is a Cancel that returns true. -/
def revokes (w : World) : Action → Option TimerId
  | .cancel _ id => if (w.loop.timers.cancel id).2 then some id else none
  | _ => none

theorem invokesReady {w : World} {a : Action} {id : TimerId} (h : invokes w a = some id) :
    a = .loop .fire ∧ w.loop.timers.mayFire id = true ∧ ∃ rest, w.phase = .ready (id :: rest) := by
  unfold invokes at h
  split at h
  · split at h
    · split at h
      · cases h
        exact ⟨rfl,by assumption,_,by assumption⟩
      · cases h
    · cases h
  · cases h

theorem revokesLive {w : World} {a : Action} {id : TimerId} (h : revokes w a = some id) :
    w.loop.timers.timers id = true ∧ ∃ t, a = .cancel t id := by
  unfold revokes at h
  split at h
  · split at h
    · cases h
      rename_i t success
      unfold TimerQueue.cancel at success
      split at success
      · exact ⟨by assumption,t,rfl⟩
      · cases success
    · cases h
  · cases h

theorem revokesOf {w : World} {t : ThreadId} {id : TimerId} (live : w.loop.timers.timers id = true) :
    revokes w (.cancel t id) = some id := by
  simp [revokes, TimerQueue.cancel, live]

/- What a Cancel that returned true has done for good. -/
structure Revoked (w : World) (id : TimerId) : Prop where
  known : id < w.loop.timers.nextTimerId
  gone : w.loop.timers.timers id = false
  flagged : (w.loop.timers.task id).cancelled = true

theorem revokedStep {w w' : World} {a : Action} {id : TimerId} (h : Revoked w id) (taken : step w a = some w') :
    Revoked w' id := by
  have later := laterStep taken
  refine ⟨Nat.lt_of_lt_of_le h.known later.next,?_,later.cancelled id h.known h.flagged⟩
  by_contra back
  have before := later.timers id h.known (by simpa using back)
  rw [h.gone] at before
  cases before

theorem revokedBy {w w' : World} {a : Action} {id : TimerId} (kept : TimersKept w) (h : revokes w a = some id)
    (taken : step w a = some w') : Revoked w' id := by
  obtain ⟨live,t,rfl⟩ := revokesLive h
  have known := TimerQueue.keptBelow kept live
  cases takenCases taken
  refine ⟨?_,?_,?_⟩ <;> simp [calling, TimerQueue.cancel, live, known]

theorem revokedSilent {w : World} {id : TimerId} (h : Revoked w id) (a : Action) :
    invokes w a ≠ some id ∧ revokes w a ≠ some id := by
  refine ⟨?_,?_⟩
  · intro starts
    have may := (invokesReady starts).2.1
    simp [TimerQueue.mayFire, h.flagged] at may
  · intro again
    have live := (revokesLive again).1
    rw [h.gone] at live
    cases live

/- After a Cancel on the loop's thread has returned true, whatever follows: no step starts
the timer's callback and no Cancel of it returns true. -/
theorem cancelledStaysCancelled {s w w₁ w' : World} {as bs : List Action} {id : TimerId} (start : Initial s)
    (reached : run step s as = some w) (success : revokes w (.cancel w.self id) = some id)
    (taken : step w (.cancel w.self id) = some w₁) (later : run step w₁ bs = some w') :
    (∀ a, invokes w' a ≠ some id) ∧ ∀ t, revokes w' (.cancel t id) ≠ some id := by
  have kept : TimersKept w := timersKeptReached ⟨s,as,start,reached⟩
  have revoked : Revoked w' id := invariant (fun _ _ _ => revokedStep) (revokedBy kept success taken) later
  exact ⟨fun a => (revokedSilent revoked a).1,fun t => (revokedSilent revoked _).2⟩

/- A periodic timer cancels itself; the next batch comes after its next time. -/
def firesOnce : List Action :=
  [.runEvery 0 0 5 true,.returns 0,.callLoop,.loop .enter,.loop .test,.loop (.timeout 0),.loop (.pollReturns []),
    .loop .store,.loop .swap,.loop .store,.loop (.collect 5000000),.loop .fire]

def afterCancel : List Action :=
  [.returns 0,.loop (.finish 6000000),.loop .again,.loop .test,.loop (.timeout 6000000),.loop (.pollReturns []),
    .loop .store,.loop .swap,.loop .store,.loop (.collect 20000000)]

theorem cancelledStaysCancelledInCallback : ∃ w w₁ w', run step (constructed 0 0 false) firesOnce = some w ∧
    w.phase = .fired true 1 [] ∧ step w (.cancel 0 1) = some w₁ ∧ run step w₁ afterCancel = some w' ∧
    (∀ a, invokes w' a ≠ some 1) ∧ ∀ t, revokes w' (.cancel t 1) ≠ some 1 := by
  have reached : ∃ w w₁ w', run step (constructed 0 0 false) firesOnce = some w ∧ w.self = 0 ∧
      w.phase = .fired true 1 [] ∧ revokes w (.cancel 0 1) = some 1 ∧ step w (.cancel 0 1) = some w₁ ∧
      run step w₁ afterCancel = some w' := ⟨_,_,_,rfl,rfl,rfl,rfl,rfl,rfl⟩
  obtain ⟨w,w₁,w',first,own,running,success,taken,later⟩ := reached
  rw [← own] at success taken
  refine ⟨w,w₁,w',first,running,?_,later,cancelledStaysCancelled .manual first success taken later⟩
  rw [own] at taken
  exact taken

/- The timers whose callback has been invoked, and those with a Cancel that returned true. -/
structure Outcome where
  invoked : List TimerId
  cancelled : List TimerId
  deriving DecidableEq, Repr

def outcome (w : World) (a : Action) (_ : World) (k : Outcome) : Outcome :=
  ⟨k.invoked ++ (invokes w a).toList,k.cancelled ++ (revokes w a).toList⟩

def undecided : Outcome := ⟨[],[]⟩

/- A Cancel of the timer whose callback runs. -/
def cancelsRunning (id : TimerId) (w : World) : Action → Bool
  | .cancel _ id' =>
    match w.phase with
    | .fired true running _ => id' == id && running == id
    | _ => false
  | _ => false

theorem cancelsRunningAt {id : TimerId} {w : World} {a : Action} :
    cancelsRunning id w a = true ↔ ∃ t rest, a = .cancel t id ∧ w.phase = .fired true id rest := by
  unfold cancelsRunning
  split
  · split
    · rename_i t id' x running rest phase
      simp only [Bool.and_eq_true, beq_iff_eq]
      refine ⟨fun same => ⟨t,rest,by rw [same.1],by rw [phase, same.2]⟩,?_⟩
      rintro ⟨t',rest',same,phase'⟩
      cases same
      rw [phase] at phase'
      cases phase'
      exact ⟨rfl,rfl⟩
    · rename_i idle
      refine ⟨fun no => (by cases no),?_⟩
      rintro ⟨t',rest',same,phase'⟩
      exact absurd phase' (idle _ _)
  · rename_i different
    refine ⟨fun no => (by cases no),?_⟩
    rintro ⟨t,rest,same,_⟩
    exact absurd same (different t id)

/- Who is where, when a callback has been invoked or a Cancel has returned true. -/
structure Decided (w : World) (k : Outcome) : Prop where
  kept : TimersKept w
  known : ∀ id ∈ k.invoked, id < w.loop.timers.nextTimerId
  revoked : ∀ id ∈ k.cancelled, Revoked w id
  running : ∀ id rest, w.phase = .fired true id rest →
    id ∈ k.invoked ∧ (w.loop.timers.timers id = true ∨ id ∈ k.cancelled)
  spent : ∀ id ∈ k.invoked, (w.loop.timers.task id).repeats = false →
    w.loop.timers.timers id = false ∨ ∃ rest, w.phase = .fired true id rest

/- A running callback was running before, or this step starts it. -/
theorem firedBefore {w w' : World} {a : Action} {id : TimerId} {rest : List TimerId} (taken : step w a = some w')
    (fired : w'.phase = .fired true id rest) : w.phase = .fired true id rest ∨ invokes w a = some id := by
  cases timerTurn taken with
  | add may fresh calls timers phase => exact .inl (by rw [← phase]; exact fired)
  | cancel may timers phase => exact .inl (by rw [← phase]; exact fired)
  | timeout phase after timers => rw [after] at fired; cases fired
  | collect phase after timers => rw [after] at fired; cases fired
  | fire phase after timers =>
    obtain ⟨may,same,_⟩ := Phase.fired.inj (after.symm.trans fired)
    exact .inr (by simp [invokes, phase, same ▸ may, same])
  | finish phase after timers => rw [after] at fired; cases fired
  | other timers phase starts quiet => exact .inl (starts _ _ _ fired)

/- A running callback runs on, or its task's turn ends. -/
theorem firedAfter {w w' : World} {a : Action} {id : TimerId} {rest : List TimerId} (taken : step w a = some w')
    (fired : w.phase = .fired true id rest) :
    w'.phase = .fired true id rest ∨ ∃ now, w'.loop.timers = w.loop.timers.finish now id := by
  cases timerTurn taken with
  | add may fresh calls timers phase => exact .inl (phase.trans fired)
  | cancel may timers phase => exact .inl (phase.trans fired)
  | timeout phase after timers => rw [phase] at fired; cases fired
  | collect phase after timers => rw [phase] at fired; cases fired
  | fire phase after timers => rw [phase] at fired; cases fired
  | finish phase after timers =>
    rw [phase] at fired
    cases fired
    exact .inr ⟨_,timers⟩
  | other timers phase starts quiet =>
    rcases phase with same | ⟨before,_⟩
    · exact .inl (same.trans fired)
    · rw [fired] at before; cases before

theorem invokesFires {w w' : World} {a : Action} {id : TimerId} (starts : invokes w a = some id)
    (taken : step w a = some w') : ∃ rest, w'.phase = .fired true id rest := by
  obtain ⟨rfl,may,rest,phase⟩ := invokesReady starts
  cases takenCases taken with
  | loop quiet moved =>
    cases moved with
    | fire here =>
      rw [phase] at here
      cases here
      exact ⟨rest,by rw [may]⟩

/- A timer stays in m_timers until a Cancel answers true or its turn ends. -/
theorem liveAfter {w w' : World} {a : Action} {id : TimerId} (kept : TimersKept w)
    (live : w.loop.timers.timers id = true) (taken : step w a = some w') :
    w'.loop.timers.timers id = true ∨ revokes w a = some id ∨ ∃ running rest,
      w.phase = .fired running id rest ∧ w'.phase = .ready rest := by
  have below := TimerQueue.keptBelow kept live
  cases timerTurn taken with
  | add may fresh calls timers phase =>
    left
    rw [timers]
    simpa [TimerQueue.add, Function.update_of_ne (Nat.ne_of_lt below)] using live
  | @cancel t other w' may timers phase =>
    by_cases same : other = id
    · rw [same]
      exact .inr (.inl (revokesOf live))
    · left
      rw [timers]
      unfold TimerQueue.cancel
      split
      · simpa [Function.update_of_ne (Ne.symm same)] using live
      · exact live
  | timeout phase after timers =>
    left
    rw [timers, (TimerQueue.timeoutPops _ _).timers]
    exact live
  | collect phase after timers =>
    left
    rw [timers, (TimerQueue.collectPops _ _).timers]
    exact live
  | fire phase after timers => exact .inl (by rw [timers]; exact live)
  | @finish now running other rest w' phase after timers =>
    by_cases same : other = id
    · rw [same] at phase
      exact .inr (.inr ⟨running,rest,phase,after⟩)
    · left
      rw [timers]
      unfold TimerQueue.finish
      split
      · split <;> exact live
      · simpa [Function.update_of_ne (Ne.symm same)] using live
  | other timers phase starts quiet => exact .inl (by rw [timers]; exact live)

theorem decidedStep {w w' : World} {a : Action} {k : Outcome} (h : Decided w k) (taken : step w a = some w') :
    Decided w' (outcome w a w' k) := by
  have later := laterStep taken
  have answered : ∀ id, id ∈ (outcome w a w' k).cancelled ↔ id ∈ k.cancelled ∨ revokes w a = some id := by
    intro id
    simp [outcome, Option.mem_toList]
  have started : ∀ id, id ∈ (outcome w a w' k).invoked ↔ id ∈ k.invoked ∨ invokes w a = some id := by
    intro id
    simp [outcome, Option.mem_toList]
  refine ⟨timersKeptStep h.kept taken,?_,?_,?_,?_⟩
  · intro id member
    refine Nat.lt_of_lt_of_le ?_ later.next
    rcases (started id).mp member with old | new
    · exact h.known id old
    · obtain ⟨_,_,rest,phase⟩ := invokesReady new
      refine h.kept.known id (List.mem_append_left _ ?_)
      rw [phase]
      exact List.mem_cons_self
  · intro id member
    rcases (answered id).mp member with old | new
    · exact revokedStep (h.revoked id old) taken
    · exact revokedBy h.kept new taken
  · intro id rest fired
    rcases firedBefore taken fired with before | starts
    · obtain ⟨invoked,alive⟩ := h.running id rest before
      refine ⟨(started id).mpr (.inl invoked),?_⟩
      rcases alive with live | gone
      · rcases liveAfter h.kept live taken with still | revoked | ⟨_,_,_,ended⟩
        · exact .inl still
        · exact .inr ((answered id).mpr (.inr revoked))
        · rw [ended] at fired; cases fired
      · exact .inr ((answered id).mpr (.inl gone))
    · obtain ⟨rfl,may,batch,phase⟩ := invokesReady starts
      refine ⟨(started id).mpr (.inr starts),.inl ?_⟩
      have kept : w.loop.timers.Kept (id :: batch) := by
        have k := h.kept
        unfold TimersKept at k
        rwa [phase] at k
      by_contra gone
      have before : w.loop.timers.timers id = false := by
        by_contra live
        rcases liveAfter h.kept (by simpa using live) taken with still | revoked | ⟨_,_,fired',_⟩
        · exact gone still
        · obtain ⟨_,t,wrong⟩ := revokesLive revoked
          cases wrong
        · rw [phase] at fired'; cases fired'
      have flagged := kept.dead id List.mem_cons_self before
      simp [TimerQueue.mayFire, flagged] at may
  · intro id member oneShot
    rcases (started id).mp member with old | new
    · have below := h.known id old
      rw [later.repeats id below] at oneShot
      rcases h.spent id old oneShot with gone | ⟨rest,fired⟩
      · left
        by_contra back
        have before := later.timers id below (by simpa using back)
        rw [gone] at before
        cases before
      · rcases firedAfter taken fired with on | ⟨now,ended⟩
        · exact .inr ⟨rest,on⟩
        · left
          rw [ended]
          simp [TimerQueue.finish, oneShot]
    · exact .inr (invokesFires new taken)

theorem decidedInitial {w : World} (h : Initial w) : Decided w undecided := by
  refine ⟨timersKeptInitial h,fun id member => (by cases member),fun id member => (by cases member),?_,
    fun id member => by cases member⟩
  intro id rest fired
  cases h <;> cases fired

/- The timer has fired and has been cancelled. -/
def Both (id : TimerId) (k : Outcome) : Prop := id ∈ k.invoked ∧ id ∈ k.cancelled

theorem bothStays {w w' : World} {a : Action} {k : Outcome} {id : TimerId} (h : Both id k) :
    Both id (outcome w a w' k) :=
  ⟨List.mem_append_left _ h.1,List.mem_append_left _ h.2⟩

theorem bothEnters {w w' : World} {a : Action} {k : Outcome} {id : TimerId} (h : Decided w k)
    (inside : cancelsRunning id w a = true) : Both id (outcome w a w' k) := by
  obtain ⟨t,rest,rfl,fired⟩ := cancelsRunningAt.mp inside
  obtain ⟨invoked,alive⟩ := h.running id rest fired
  refine ⟨List.mem_append_left _ invoked,?_⟩
  rcases alive with live | gone
  · exact List.mem_append_right _ (by simp [revokesOf live])
  · exact List.mem_append_left _ gone

/- Elsewhere a one-shot timer has fired, and then no Cancel finds it, or it has been
cancelled, and then it does not fire. -/
theorem bothAvoided {w w' : World} {a : Action} {k : Outcome} {id : TimerId} (h : Decided w k)
    (apart : (w.loop.timers.task id).repeats = false → ¬ Both id k) (outside : cancelsRunning id w a = false)
    (taken : step w a = some w') (oneShot : (w'.loop.timers.task id).repeats = false) :
    ¬ Both id (outcome w a w' k) := by
  rintro ⟨invoked,cancelled⟩
  simp only [outcome, List.mem_append, Option.mem_toList] at invoked cancelled
  rcases invoked with old | starts
  · have below := h.known id old
    rw [(laterStep taken).repeats id below] at oneShot
    rcases cancelled with before | answers
    · exact apart oneShot ⟨old,before⟩
    · obtain ⟨live,t,rfl⟩ := revokesLive answers
      rcases h.spent id old oneShot with gone | ⟨rest,fired⟩
      · rw [gone] at live; cases live
      · rw [cancelsRunningAt.mpr ⟨t,rest,rfl,fired⟩] at outside
        cases outside
  · rcases cancelled with before | answers
    · exact (revokedSilent (h.revoked id before) a).1 starts
    · obtain ⟨rfl,_⟩ := invokesReady starts
      obtain ⟨_,t,wrong⟩ := revokesLive answers
      cases wrong

/- For a one-shot timer, in every run: not both has its callback been invoked and a Cancel
of it returned true, exactly when no Cancel of it is called while its callback runs. -/
theorem firedOrCancelled {s w : World} {as : List Action} {k : Outcome} {id : TimerId} (start : Initial s)
    (reached : run (recording step outcome) (s,undecided) as = some (w,k))
    (oneShot : (w.loop.timers.task id).repeats = false) :
    ¬ Both id k ↔
      Throughout (recording step outcome) (fun x a => cancelsRunning id x.1 a = false) (s,undecided) as := by
  have keep : ∀ x a y, Decided x.1 x.2 → recording step outcome x a = some y → Decided y.1 y.2 := by
    intro x a y h recorded
    obtain ⟨taken,noted⟩ := recordingCases recorded
    rw [noted]
    exact decidedStep h taken
  constructor
  · intro apart
    have enters : ∀ x a y, Decided x.1 x.2 → ¬ cancelsRunning id x.1 a = false →
        recording step outcome x a = some y → Both id y.2 := by
      intro x a y h inside recorded
      rw [(recordingCases recorded).2]
      exact bothEnters h (by simpa using inside)
    have stays : ∀ x a y, Both id x.2 → recording step outcome x a = some y → Both id y.2 := by
      intro x a y both recorded
      rw [(recordingCases recorded).2]
      exact bothStays both
    exact (throughoutOr keep enters stays (decidedInitial start) reached).resolve_right apart
  · intro outside
    let inv (x : World × Outcome) : Prop :=
      Decided x.1 x.2 ∧ ((x.1.loop.timers.task id).repeats = false → ¬ Both id x.2)
    have kept : ∀ x a y, inv x → cancelsRunning id x.1 a = false → recording step outcome x a = some y → inv y := by
      intro x a y h out recorded
      obtain ⟨taken,noted⟩ := recordingCases recorded
      refine ⟨keep x a y h.1 recorded,fun still => ?_⟩
      rw [noted]
      exact bothAvoided h.1 h.2 out taken still
    have first : inv (s,undecided) := ⟨decidedInitial start,fun _ both => by cases both.1⟩
    exact (invariantWhen kept first outside reached).2 oneShot

/- A one-shot timer is cancelled by another thread before it is due. -/
def cancelledInTime : List Action :=
  [.runAt 0 9 true,.returns 0,.callLoop,.loop .enter,.loop .test,.loop (.timeout 0),.cancel 1 1,.returns 1,
    .loop (.pollReturns []),.loop .store,.loop .swap,.loop .store,.loop (.collect 9),.loop .again]

theorem firedOrCancelledInTime : ∃ w k, run (recording step outcome) (constructed 0 0 false,undecided)
    cancelledInTime = some (w,k) ∧ k = ⟨[],[1]⟩ ∧ ¬ Both 1 k := by
  have reached : ∃ w k, run (recording step outcome) (constructed 0 0 false,undecided) cancelledInTime = some (w,k) ∧
      (w.loop.timers.task 1).repeats = false ∧ k = ⟨[],[1]⟩ := ⟨_,_,rfl,rfl,rfl⟩
  obtain ⟨w,k,taken,oneShot,told⟩ := reached
  have outside : Throughout (recording step outcome) (fun x a => cancelsRunning 1 x.1 a = false)
      (constructed 0 0 false,undecided) cancelledInTime := by decide
  exact ⟨w,k,taken,told,(firedOrCancelled .manual taken oneShot).mpr outside⟩

/- A one-shot timer's callback cancels its own timer. -/
def cancelsItself : List Action :=
  [.runAt 0 5 true,.returns 0,.callLoop,.loop .enter,.loop .test,.loop (.timeout 5),.loop (.pollReturns []),
    .loop .store,.loop .swap,.loop .store,.loop (.collect 5),.loop .fire,.cancel 0 1]

theorem firedAndCancelled : ¬ ∀ s w as k id, Initial s →
    run (recording step outcome) (s,undecided) as = some (w,k) → (w.loop.timers.task id).repeats = false →
    ¬ Both id k := by
  intro claimed
  have reached : ∃ w k, run (recording step outcome) (constructed 0 0 false,undecided) cancelsItself = some (w,k) ∧
      (w.loop.timers.task 1).repeats = false ∧ k = ⟨[1],[1]⟩ := ⟨_,_,rfl,rfl,rfl⟩
  obtain ⟨w,k,taken,oneShot,told⟩ := reached
  refine claimed _ w _ k 1 .manual taken oneShot ?_
  rw [told]
  exact ⟨List.mem_singleton_self _,List.mem_singleton_self _⟩

end TcFrame.Loop
