import TcFrame.EventLoopFunctors

/-! One iteration of the loop against what its callbacks queue. A functor waits for two ends of
an iteration at most, and an iteration is as long as what it found made it, not as long as its
callbacks like. -/
namespace TcFrame.Loop
open Machine

def isAgain : Action → Bool
  | .loop .again => true
  | _ => false

/- Between the swap of an iteration and its end. -/
def sinceSwap : Phase → Bool
  | .functors _ | .functor _ | .timers | .ready _ | .fired _ _ _ => true
  | _ => false

/- How many of the functors have run or are next to run, in the order they were pushed in. -/
def reachedOf (w : World) : Nat := w.executed.length + (batch w.phase).length

/- The first `n` functors, after `ends` ends of an iteration. -/
structure Prompt (n ends : Nat) (w : World) : Prop where
  once : 1 ≤ ends → sinceSwap w.phase = true → n ≤ reachedOf w
  twice : 2 ≤ ends → n ≤ w.executed.length

/- A step that takes nothing out of the queue and ends no iteration. -/
theorem promptStill {n ends : Nat} {w w' : World} (h : Prompt n ends w) (past : sinceSwap w'.phase = true → sinceSwap w.phase = true)
    (reached : reachedOf w' = reachedOf w) (executed : w.executed.length ≤ w'.executed.length) : Prompt n ends w' :=
  ⟨fun seen inside => reached ▸ h.once seen (past inside),fun seen => Nat.le_trans (h.twice seen) executed⟩

theorem promptLoop {n ends : Nat} {w w' : World} {s : LoopStep} (h : Prompt n ends w) (pushed : n ≤ w.pushed)
    (sequence : w.executed ++ batch w.phase ++ w.loop.pendingFunctors = List.range w.pushed) (taken : LoopTaken w s w') :
    Prompt n (ends + if isAgain (.loop s) then 1 else 0) w' := by
  have still : ∀ {v : World} {p : Phase}, w.phase = p → v.executed = w.executed → batch p = [] → batch v.phase = [] →
      (sinceSwap v.phase = true → sinceSwap p = true) → Prompt n ends v := by
    intro v p phase executed before after past
    subst phase
    exact promptStill h past (by rw [reachedOf, reachedOf, executed, before, after]) (Nat.le_of_eq (by rw [executed]))
  cases taken with
  | swap phase =>
    have all : w.executed.length + w.loop.pendingFunctors.length = w.pushed := by
      simpa [phase, batch] using congrArg List.length sequence
    refine ⟨fun _ _ => ?_,fun seen => h.twice seen⟩
    rw [reachedOf]
    exact Nat.le_trans pushed (Nat.le_of_eq all.symm)
  | @call f rest phase =>
    refine promptStill h (fun _ => by rw [phase]; rfl) ?_ (by simp)
    simp only [reachedOf, phase, batch, List.length_append, List.length_cons, List.length_nil]
    omega
  | called phase => exact promptStill h (fun _ => by rw [phase]; rfl) (by rw [reachedOf, reachedOf, phase]; rfl) (Nat.le_refl _)
  | again phase =>
    refine ⟨fun _ inside => (by cases inside),fun seen => ?_⟩
    have here := h.once (Nat.le_of_succ_le_succ seen) (by rw [phase]; rfl)
    rw [reachedOf, phase] at here
    exact here
  | calledAll phase | collect phase | fire phase | finish phase =>
    exact still phase rfl rfl rfl (fun _ => rfl)
  | start phase | enter phase | leave phase | begin_ phase | timeout phase | pollReturns phase | drain phase | handle phase
  | handled phase | calling phase => exact still phase rfl rfl rfl (fun inside => by cases inside)

theorem promptStep {n ends : Nat} {w w' : World} {a : Action} (h : Prompt n ends w) (pushed : n ≤ w.pushed)
    (sequence : w.executed ++ batch w.phase ++ w.loop.pendingFunctors = List.range w.pushed) (taken : step w a = some w') :
    Prompt n (ends + if isAgain a then 1 else 0) w' := by
  cases takenCases taken with
  | loop quiet moved => exact promptLoop h pushed sequence moved
  | callLoop own quiet phase =>
    refine promptStill h (fun inside => by cases inside) ?_ (Nat.le_refl _)
    rcases phase with phase | phase <;> rw [reachedOf, reachedOf, phase] <;> rfl
  | queueInLoop may | quit may | runAt may | runEvery may | cancel may | queued held | added held | cancelled held
  | quitted held => exact promptStill h id rfl (Nat.le_refl _)

theorem inOrderReached {w : World} (reachable : Reachable step Initial w) : ∃ k, InOrder w k := by
  have start : ∀ w, Initial w → ∃ k, InOrder w k := fun _ initial => ⟨unswapped,inOrderInitial initial⟩
  have keep : ∀ w a w', (∃ k, InOrder w k) → step w a = some w' → ∃ k, InOrder w' k := by
    rintro w a w' ⟨k,order⟩ taken
    exact ⟨_,inOrderStep order taken⟩
  exact reachableInvariant start keep reachable

theorem pushedStep {w w' : World} {a : Action} (taken : step w a = some w') : w.pushed ≤ w'.pushed := by
  cases stepCases taken with
  | loop quiet moved => cases moved <;> exact Nat.le_refl _
  | queueInLoop may => exact Nat.le_succ _
  | callLoop own quiet phase | quit may | timers outside may quiet | queued held | added held | cancelled held
  | quitted held => exact Nat.le_refl _

theorem promptRun {n ends : Nat} {w w' : World} {as : List Action} (reachable : Reachable step Initial w) (h : Prompt n ends w)
    (pushed : n ≤ w.pushed) (reached : run step w as = some w') :
    Reachable step Initial w' ∧ Prompt n (ends + as.countP isAgain) w' := by
  induction as generalizing ends w with
  | nil =>
    cases reached
    exact ⟨reachable,h⟩
  | cons a as ih =>
    obtain ⟨m,taken,rest⟩ := runCons.mp reached
    obtain ⟨k,order⟩ := inOrderReached reachable
    have next := ih (reachableStep reachable taken) (promptStep h pushed order.sequence taken)
      (Nat.le_trans pushed (pushedStep taken)) rest
    rw [List.countP_cons, Nat.add_comm (as.countP isAgain), ← Nat.add_assoc]
    exact next

/- A functor that has been pushed has run when the loop's thread has ended two iterations more,
whatever the other threads and the callbacks do meanwhile. -/
theorem functorPrompt {w w' : World} {as : List Action} {f : Nat} (reachable : Reachable step Initial w) (queued : f < w.pushed)
    (reached : run step w as = some w') (twice : 2 ≤ as.countP isAgain) : f ∈ w'.executed := by
  have start : Prompt (f + 1) 0 w := ⟨fun seen => absurd seen (by decide),fun seen => absurd seen (by decide)⟩
  obtain ⟨reachable',prompt⟩ := promptRun reachable start queued reached
  obtain ⟨k,order⟩ := inOrderReached reachable'
  have enough : f < w'.executed.length := prompt.twice (by rw [Nat.zero_add]; exact twice)
  have ahead : w'.executed <+: List.range w'.pushed := by
    rw [← order.sequence, List.append_assoc]
    exact List.prefix_append _ _
  have here : w'.executed[f] = f := by
    rw [ahead.getElem enough, List.getElem_range]
  exact here ▸ List.getElem_mem enough

/- Queued from the handler of the first iteration, and again by the functor itself. -/
def queueing : List Action :=
  [.callLoop,.loop .enter,.loop .test,.loop (.timeout 0),.loop (.pollReturns []),.loop .store,.loop .swap,.queueInLoop 1,
    .returns 1]

def twoEnds : List Action :=
  [.loop .store,.loop (.collect 0),.loop .again,.loop .test,.loop (.timeout 0),.loop (.pollReturns [.wakeup]),.loop .handle,
    .loop .store,.loop .swap,.loop .call,.queueInLoop 0,.returns 0,.loop .called,.loop .store,.loop (.collect 0),.loop .again]

theorem functorPromptQueued : ∃ w w', run step (constructed 0 0 false) queueing = some w ∧ run step w twoEnds = some w' ∧
    w'.pushed = 2 ∧ 0 ∈ w'.executed := by
  have reached : ∃ w w', run step (constructed 0 0 false) queueing = some w ∧ run step w twoEnds = some w' ∧
      w.pushed = 1 ∧ w'.pushed = 2 := ⟨_,_,rfl,rfl,rfl,rfl⟩
  obtain ⟨w,w',taken,later,one,two⟩ := reached
  exact ⟨w,w',taken,later,two,functorPrompt ⟨_,_,.manual,taken⟩ (by rw [one]; decide) later (by decide)⟩

/- The handler of a channel begins and ends, reading the wakeup descriptor is one step. -/
def cost : List Ready → Nat
  | [] => 0
  | .wakeup :: rest => cost rest + 1
  | .channel :: rest => cost rest + 2

/- The iteration so far: the steps that the loop's thread has taken since Poll returned, what
Poll reported, and how many functors and timers were taken. -/
structure Iteration where
  own : Nat
  events : Nat
  functors : Nat
  timers : Nat
  deriving DecidableEq, Repr

def noteTurn (w : World) (a : Action) (_ : World) (k : Iteration) : Iteration :=
  match a with
  | .loop (.pollReturns active) => ⟨0,cost active,0,0⟩
  | .loop .swap => { k with own := k.own + 1, functors := w.loop.pendingFunctors.length }
  | .loop (.collect now) => { k with own := k.own + 1, timers := (w.loop.timers.collect now).1.length }
  | .loop _ => { k with own := k.own + 1 }
  | _ => k

/- The steps left to the end of the iteration, as far as they are known. -/
def left : Phase → Option Nat
  | .events rest => some (cost rest + 5)
  | .handling rest => some (cost rest + 6)
  | .swap => some 4
  | .functors rest => some (2 * rest.length + 3)
  | .functor rest => some (2 * rest.length + 4)
  | .timers => some 2
  | .ready rest => some (2 * rest.length + 1)
  | .fired _ _ rest => some (2 * rest.length + 2)
  | _ => none

def yetToSwap : Phase → Bool
  | .events _ | .handling _ | .swap => true
  | _ => false

def yetToCollect : Phase → Bool
  | .functors _ | .functor _ | .timers => true
  | p => yetToSwap p

structure Measured (w : World) (k : Iteration) : Prop where
  spent : ∀ n, left w.phase = some n → k.own + n = k.events + 2 * k.functors + 2 * k.timers + 5
  functors : yetToSwap w.phase = true → k.functors = 0
  timers : yetToCollect w.phase = true → k.timers = 0

/- Between two iterations nothing is measured. -/
theorem measuredOutside {w : World} {k : Iteration} (outside : left w.phase = none) : Measured w k := by
  have later : yetToCollect w.phase = false := by
    cases phase : w.phase <;> first | rfl | (rw [phase] at outside; cases outside)
  have earlier : yetToSwap w.phase = false := by
    cases phase : w.phase <;> first | rfl | (rw [phase] at outside; cases outside)
  refine ⟨fun n some_ => ?_,fun inside => ?_,fun inside => ?_⟩
  · rw [outside] at some_
    cases some_
  · rw [earlier] at inside
    cases inside
  · rw [later] at inside
    cases inside

/- A step that takes nothing: one more is spent, one less is left. -/
theorem measuredNext {w w' : World} {k : Iteration} {n : Nat} (h : Measured w k) (before : left w.phase = some (n + 1))
    (after : left w'.phase = some n) (functors : yetToSwap w'.phase = true → yetToSwap w.phase = true)
    (timers : yetToCollect w'.phase = true → yetToCollect w.phase = true) : Measured w' { k with own := k.own + 1 } := by
  refine ⟨fun m some_ => ?_,fun early => h.functors (functors early),fun early => h.timers (timers early)⟩
  rw [after] at some_
  cases some_
  rw [Nat.add_right_comm]
  exact h.spent (n + 1) before

theorem measuredLoop {w w' : World} {s : LoopStep} {k : Iteration} (h : Measured w k) (taken : LoopTaken w s w') :
    Measured w' (noteTurn w (.loop s) w' k) := by
  cases taken with
  | @pollReturns active timeoutMs phase readable =>
    refine ⟨fun n some_ => ?_,fun _ => rfl,fun _ => rfl⟩
    cases some_
    simp only [noteTurn]
    omega
  | swap phase =>
    have before := h.spent 4 (by rw [phase]; rfl)
    rw [h.functors (by rw [phase]; rfl), h.timers (by rw [phase]; rfl)] at before
    refine ⟨fun n some_ => ?_,fun early => (by cases early),fun _ => h.timers (by rw [phase]; rfl)⟩
    cases some_
    simp only [noteTurn, h.timers (by rw [phase]; rfl)]
    omega
  | @collect now phase =>
    have before := h.spent 2 (by rw [phase]; rfl)
    rw [h.timers (by rw [phase]; rfl)] at before
    refine ⟨fun n some_ => ?_,fun early => (by cases early),fun early => (by cases early)⟩
    cases some_
    simp only [noteTurn]
    omega
  | drain phase | handle phase | handled phase | calling phase =>
    exact measuredNext h (by rw [phase]; rfl) rfl (fun _ => by rw [phase]; rfl) (fun _ => by rw [phase]; rfl)
  | call phase | called phase | calledAll phase =>
    exact measuredNext h (by rw [phase]; rfl) rfl (fun early => by cases early) (fun _ => by rw [phase]; rfl)
  | fire phase | finish phase =>
    exact measuredNext h (by rw [phase]; rfl) rfl (fun early => by cases early) (fun early => by cases early)
  | start phase | enter phase | leave phase | begin_ phase | timeout phase | again phase => exact measuredOutside rfl

theorem measuredStep {w w' : World} {a : Action} {k : Iteration} (h : Measured w k) (taken : step w a = some w') :
    Measured w' (noteTurn w a w' k) := by
  cases takenCases taken with
  | loop quiet moved => exact measuredLoop h moved
  | callLoop own quiet phase => exact measuredOutside rfl
  | queueInLoop may | quit may | runAt may | runEvery may | cancel may | queued held | added held | cancelled held
  | quitted held => exact ⟨h.spent,h.functors,h.timers⟩

/- An iteration is not prolonged by what its callbacks and the other threads queue while it
goes on. At every moment from Poll to its end the steps that the loop's thread has taken and
those that are left, beside what the swap and the collection will add, are as many as the
events, the functors and the timers that were taken require. -/
theorem iterationMeasured {s w : World} {as : List Action} {k : Iteration} (start : Initial s)
    (reached : run (recording step noteTurn) (s,⟨0,0,0,0⟩) as = some (w,k)) {n : Nat} (inside : left w.phase = some n) :
    k.own + n = k.events + 2 * k.functors + 2 * k.timers + 5 := by
  have first : Measured s ⟨0,0,0,0⟩ := by cases start <;> exact measuredOutside rfl
  have h : Measured w k := recordingInvariant (fun _ _ _ _ => measuredStep) first reached
  exact h.spent n inside

theorem iterationMeasuredTwo : ∃ w k, run (recording step noteTurn) (constructed 0 0 false,⟨0,0,0,0⟩)
      (queueing ++ twoEnds.dropLast) = some (w,k) ∧ k.functors = 1 ∧ k.own + 1 = k.events + 2 * k.functors + 2 * k.timers + 5 := by
  have reached : ∃ w k, run (recording step noteTurn) (constructed 0 0 false,⟨0,0,0,0⟩)
      (queueing ++ twoEnds.dropLast) = some (w,k) ∧ k.functors = 1 ∧ left w.phase = some 1 := ⟨_,_,rfl,rfl,rfl⟩
  obtain ⟨w,k,taken,one,inside⟩ := reached
  exact ⟨w,k,taken,one,iterationMeasured .manual taken inside⟩

end TcFrame.Loop
