import TcFrame.EventLoopQuit

/-! The order of the queued functors. They are numbered as they are pushed; what has run,
the rest of the batch that was swapped out and what is still queued are the numbers in
their order. -/
namespace TcFrame.Loop
open Machine

/- The thread that takes a step. -/
def actor (w : World) : Action → ThreadId
  | .loop _ | .callLoop => w.self
  | .queueInLoop t | .quit t | .runAt t _ _ | .runEvery t _ _ _ | .cancel t _ | .returns t => t

/- The last swap: what had run before it, what it took, how many functors had been pushed,
and the thread in DoPendingFunctors. -/
structure Swapped where
  before : List Nat
  taken : List Nat
  pushed : Nat
  thread : ThreadId
  deriving DecidableEq, Repr

def unswapped : Swapped := ⟨[],[],0,0⟩

def swapped (w : World) (a : Action) (_ : World) (k : Swapped) : Swapped :=
  match a with
  | .loop .swap => ⟨w.executed,w.loop.pendingFunctors,w.pushed,actor w a⟩
  | _ => k

def inBatch : Phase → Bool
  | .functors _ | .functor _ => true
  | _ => false

structure InOrder (w : World) (k : Swapped) : Prop where
  sequence : w.executed ++ batch w.phase ++ w.loop.pendingFunctors = List.range w.pushed
  taken : w.executed ++ batch w.phase = k.before ++ k.taken
  present : k.before ++ k.taken = List.range k.pushed
  begun : k.before <+: w.executed
  thread : inBatch w.phase = true → k.thread = w.self

theorem inOrderInitial {w : World} (h : Initial w) : InOrder w unswapped := by
  cases h <;> exact ⟨rfl,rfl,rfl,List.prefix_rfl,fun inside => by cases inside⟩

/- A step that moves no functor, on the same side of the batch. -/
theorem inOrderStill {w w' : World} {k : Swapped} (h : InOrder w k) (executed : w'.executed = w.executed)
    (left : batch w'.phase = batch w.phase) (pending : w'.loop.pendingFunctors = w.loop.pendingFunctors)
    (pushed : w'.pushed = w.pushed) (inside : inBatch w'.phase = true → inBatch w.phase = true)
    (self : w'.self = w.self) : InOrder w' k := by
  refine ⟨?_,?_,h.present,?_,?_⟩
  · rw [executed, left, pending, pushed]; exact h.sequence
  · rw [executed, left]; exact h.taken
  · rw [executed]; exact h.begun
  · rw [self]; exact fun now => h.thread (inside now)

theorem inOrderPush {w : World} {k : Swapped} {t : ThreadId} {c : Option Call} (h : InOrder w k) :
    InOrder { calling w t { w.loop with pendingFunctors := w.loop.pendingFunctors ++ [w.pushed] } c with
      pushed := w.pushed + 1 } k := by
  refine ⟨?_,h.taken,h.present,h.begun,h.thread⟩
  have sequence := h.sequence
  simp only [calling]
  rw [← List.append_assoc, sequence, List.range_succ]

theorem inOrderLoop {w w' : World} {s : LoopStep} {k : Swapped} (h : InOrder w k) (taken : LoopTaken w s w') :
    InOrder w' (swapped w (.loop s) w' k) := by
  have still : ∀ {v : World}, v.executed = w.executed → batch w.phase = [] → batch v.phase = [] →
      v.loop.pendingFunctors = w.loop.pendingFunctors → v.pushed = w.pushed → inBatch v.phase = false →
      v.self = w.self → InOrder v k := by
    intro v executed before after pending pushed outside self
    exact inOrderStill h executed (after.trans before.symm) pending pushed
      (fun inside => by rw [outside] at inside; cases inside) self
  cases taken with
  | swap phase =>
    have sequence := h.sequence
    rw [show batch w.phase = [] by rw [phase]; rfl, List.append_nil] at sequence
    exact ⟨by simpa [batch] using sequence,rfl,sequence,List.prefix_rfl,fun _ => rfl⟩
  | @call f rest phase =>
    have sequence := h.sequence
    have held := h.taken
    rw [phase] at sequence held
    refine ⟨?_,?_,h.present,h.begun.trans (List.prefix_append _ _),fun _ => h.thread (by rw [phase]; rfl)⟩
    · simpa [batch] using sequence
    · simpa [batch, swapped] using held
  | called phase =>
    exact inOrderStill h rfl (by rw [phase]; rfl) rfl rfl (fun _ => by rw [phase]; rfl) rfl
  | calledAll phase => exact still rfl (by rw [phase]; rfl) rfl rfl rfl rfl rfl
  | start phase | enter phase | leave phase | begin_ phase | timeout phase | pollReturns phase | drain phase
  | handle phase | handled phase | calling phase | collect phase | fire phase | finish phase | again phase =>
    exact still rfl (by rw [phase]; rfl) rfl rfl rfl rfl rfl

theorem inOrderStep {w w' : World} {a : Action} {k : Swapped} (h : InOrder w k) (taken : step w a = some w') :
    InOrder w' (swapped w a w' k) := by
  cases stepCases taken with
  | loop quiet moved => exact inOrderLoop h moved
  | callLoop own quiet phase =>
    refine inOrderStill h rfl ?_ rfl rfl (fun inside => by cases inside) rfl
    rcases phase with phase | phase <;> rw [phase] <;> rfl
  | queueInLoop may => exact inOrderPush h
  | quit may => exact inOrderStill h rfl rfl rfl rfl id rfl
  | timers outside may quiet =>
    have same : ∀ v, swapped w a v k = k := by
      intro v
      unfold swapped
      split
      · exact absurd rfl (outside .swap)
      · rfl
    rw [same]
    exact inOrderStill h rfl rfl rfl rfl id rfl
  | queued held => exact inOrderStill h rfl rfl (wakeForWorkWritten _ _).1 rfl id rfl
  | added held => exact inOrderStill h rfl rfl (wakeForWorkWritten _ _).1 rfl id rfl
  | cancelled held => exact inOrderStill h rfl rfl (wakeFromOutsideWritten _ _).1 rfl id rfl
  | quitted held => exact inOrderStill h rfl rfl (wakeFromOutsideWritten _ _).1 rfl id rfl

/- A queued functor is run by DoPendingFunctors, the next of its batch. -/
theorem executedStep {w w' : World} {a : Action} (taken : step w a = some w') :
    w'.executed = w.executed ∨
      a = .loop .call ∧ ∃ f rest, w.phase = .functors (f :: rest) ∧ w'.executed = w.executed ++ [f] := by
  cases stepCases taken with
  | loop quiet moved =>
    cases moved with
    | call phase => exact .inr ⟨rfl,_,_,phase,rfl⟩
    | _ => exact .inl rfl
  | _ => exact .inl rfl

/- What has run is a prefix of what was pushed, each functor once; since the last swap only
functors it took have run, in their order, and none that was pushed later; and a step that
runs one is taken by the thread in DoPendingFunctors. -/
theorem functorsInOrder {s w : World} {as : List Action} {k : Swapped} (start : Initial s)
    (reached : run (recording step swapped) (s,unswapped) as = some (w,k)) :
    w.executed <+: List.range w.pushed ∧ w.executed.Nodup ∧
      (∃ done, w.executed = k.before ++ done ∧ done <+: k.taken) ∧
      (∀ f ∈ w.executed, f < k.pushed) ∧
      ∀ a w', step w a = some w' → w'.executed ≠ w.executed →
        actor w a = k.thread ∧ ∃ f ∈ k.taken, w'.executed = w.executed ++ [f] := by
  have h : InOrder w k := recordingInvariant (fun _ _ _ _ => inOrderStep) (inOrderInitial start) reached
  have ahead : w.executed <+: List.range w.pushed := by
    rw [← h.sequence, List.append_assoc]
    exact List.prefix_append _ _
  have present : w.executed <+: List.range k.pushed := by
    rw [← h.present, ← h.taken]
    exact List.prefix_append _ _
  obtain ⟨done,parts⟩ := h.begun
  have rest : done ++ batch w.phase = k.taken := by
    have held := h.taken
    rw [← parts, List.append_assoc] at held
    exact List.append_cancel_left held
  refine ⟨ahead,List.nodup_range.sublist ahead.sublist,⟨done,parts.symm,⟨_,rest⟩⟩,?_,?_⟩
  · intro f ran
    exact List.mem_range.mp (present.subset ran)
  · intro a w' taken moved
    rcases executedStep taken with same | ⟨rfl,f,later,phase,ran⟩
    · exact absurd same moved
    · refine ⟨(h.thread (by rw [phase]; rfl)).symm,f,?_,ran⟩
      rw [← rest, phase]
      exact List.mem_append_right _ List.mem_cons_self

/- A functor that queues another, which waits for the next call. -/
def requeues : List Action :=
  [.queueInLoop 0,.returns 0,.callLoop,.loop .enter,.loop .test,.loop (.timeout 0),.loop (.pollReturns []),
    .loop .store,.loop .swap,.loop .call,.queueInLoop 0,.returns 0,.loop .called,.loop .store]

theorem functorsInOrderRequeued : ∃ w k, run (recording step swapped) (constructed 0 0 false,unswapped) requeues =
    some (w,k) ∧ w.pushed = 2 ∧ k = ⟨[],[0],1,0⟩ ∧ w.executed <+: List.range w.pushed ∧ w.executed.Nodup ∧
    (∃ done, w.executed = k.before ++ done ∧ done <+: k.taken) ∧ ∀ f ∈ w.executed, f < k.pushed := by
  have reached : ∃ w k, run (recording step swapped) (constructed 0 0 false,unswapped) requeues = some (w,k) ∧
      w.pushed = 2 ∧ k = ⟨[],[0],1,0⟩ := ⟨_,_,rfl,rfl,rfl⟩
  obtain ⟨w,k,taken,two,last⟩ := reached
  obtain ⟨ahead,once,since,present,_⟩ := functorsInOrder .manual taken
  exact ⟨w,k,taken,two,last,ahead,once,since,present⟩

end TcFrame.Loop
