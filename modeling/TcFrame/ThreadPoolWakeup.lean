import TcFrame.ThreadPool

/-! Whether Shutdown's notification reaches every worker. The flag is stored and the
notification sent without the mutex, so both may fall between a worker's test of the
predicate and its blocking. -/
namespace TcFrame.ThreadPool
open Machine

/- A call in these statements notifies before it returns. -/
def CallPc.notifies : CallPc → Bool
  | .commitPush _ | .commitUnlock _ | .commitNotify _ | .shutdownNotify => true
  | _ => false

/- Shutdown waits in join for a worker that is blocked with no notification to come. -/
def Hung (p : Pool) : Prop :=
  ∃ t w rest, p.calls t = .shutdownJoin (w :: rest) ∧ p.loops w = .wait ∧ w ∈ p.monitor.sleeping ∧
    ∀ u, (p.calls u).notifies = false

/- A worker has found the predicate false and has not blocked yet. -/
def aboutToBlock (p : Pool) : Bool :=
  match p.monitor.holder with
  | some w => (p.threads w).loop == .block
  | none => false

/- Shutdown notifies when no worker is in that window. -/
def heard (p : Pool) (a : Action) : Prop := p.calls a.thread = .shutdownNotify → aboutToBlock p = false

instance (p : Pool) (a : Action) : Decidable (heard p a) := by unfold heard; infer_instance

/- Where Shutdown stands with the flag cleared, and behind its notification. -/
def CallPc.closing : CallPc → Bool
  | .shutdownNotify | .shutdownLock | .shutdownPurge | .shutdownUnlock _ | .shutdownJoin _ => true
  | _ => false

def CallPc.told : CallPc → Bool
  | .shutdownLock | .shutdownPurge | .shutdownUnlock _ | .shutdownJoin _ => true
  | _ => false

structure Told (p : Pool) : Prop where
  cleared : ∀ t, (p.calls t).closing = true → p.isRunning = false
  roused : ∀ t, (p.calls t).told = true → p.monitor.Roused p.place

theorem toldClosing {pc : CallPc} (told : pc.told = true) : pc.closing = true := by
  cases pc <;> simp [CallPc.told] at told ⊢ <;> rfl

theorem partingBlocks {p : Pool} (h : Placed p) {t : ThreadId} (parting : p.place t = .parting) :
    aboutToBlock p = true := by
  have held : p.monitor.holder = some t := (h.guarded.holder t).mp (by rw [parting]; rfl)
  have idle : p.calls t = .idle := by
    by_contra busy
    rw [callPlace h rfl busy] at parting
    exact callNotParting _ parting
  rw [loopPlace idle rfl] at parting
  have here : p.loops t = .block := by
    cases pc : p.loops t <;> rw [pc] at parting <;> first | rfl | cases parting
  simp only [aboutToBlock, held]
  exact beq_iff_eq.mpr here

/- With the flag cleared no worker's test sends it to sleep. -/
theorem rousedStep {p p' : Pool} {a : Action} (h : Placed p) (r : p.monitor.Roused p.place) (cleared : p.isRunning = false)
    (taken : step p a = some p') : p'.monitor.Roused p'.place := by
  obtain ⟨t,place,moves,same,tested⟩ := stepMoves h taken
  rw [same]
  refine Monitor.rousedMove r moves (fun parting => ?_)
  rw [(tested parting).1] at cleared
  cases cleared

/- The flag is cleared once and for all. -/
theorem clearedStep {p p' : Pool} {a : Action} (taken : step p a = some p') (cleared : p.isRunning = false) :
    p'.isRunning = false := by
  cases stepCases taken <;> first | exact cleared | rfl

theorem closingNext {p p' : Pool} {u : ThreadId} {pc pc' : CallPc} (next : CallNext p p' u pc pc')
    (closing : pc'.closing = true) : pc.closing = true ∨ p.isRunning = true ∧ p'.isRunning = false := by
  cases next with
  | move moves =>
    generalize p'.monitor = m at moves
    exact .inl (by cases moves <;> first | rfl | cases closing)
  | clear runs cleared => exact .inr ⟨runs,cleared⟩
  | purge => exact .inl rfl
  | _ => cases closing

theorem toldNext {p p' : Pool} {u : ThreadId} {pc pc' : CallPc} (next : CallNext p p' u pc pc')
    (told : pc'.told = true) : pc.told = true ∨ pc = .shutdownNotify ∧ p'.monitor = p.monitor.notifyAll := by
  cases next with
  | move moves =>
    generalize p'.monitor = m at moves
    cases moves <;> first | exact .inl rfl | exact .inr ⟨rfl,rfl⟩ | cases told
  | purge => exact .inl rfl
  | _ => cases told

theorem toldStep {p p' : Pool} {a : Action} (placed : Placed p) (h : Told p) (ok : heard p a) (taken : step p a = some p') :
    Told p' := by
  refine ⟨fun u closing => ?_,fun u told => ?_⟩
  · rcases callsStep taken u with same | ⟨_,next⟩
    · rw [same] at closing
      exact clearedStep taken (h.cleared u closing)
    · rcases closingNext next closing with before | ⟨_,cleared⟩
      · exact clearedStep taken (h.cleared u before)
      · exact cleared
  · have earlier : (p.calls u).told = true → p'.monitor.Roused p'.place := fun before =>
      rousedStep placed (h.roused u before) (h.cleared u (toldClosing before)) taken
    rcases callsStep taken u with same | ⟨self,next⟩
    · rw [same] at told
      exact earlier told
    · rcases toldNext next told with before | ⟨here,all⟩
      · exact earlier before
      · rw [self] at here
        have cleared : p.isRunning = false := h.cleared a.thread (by rw [here]; rfl)
        have nobody : ∀ v, p.place v ≠ .parting := by
          intro v parting
          have window := partingBlocks placed parting
          rw [ok here] at window
          cases window
        obtain ⟨t,place,_,after,tested⟩ := stepMoves placed taken
        rw [all, after]
        refine Monitor.rousedAll nobody (fun parting => ?_)
        rw [(tested parting).1] at cleared
        cases cleared

theorem toldConstructed (threadNum : Nat) : Told (constructed threadNum) := by
  refine ⟨fun t closing => ?_,fun t told => ?_⟩
  · rw [constructedIdle] at closing
    cases closing
  · rw [constructedIdle] at told
    cases told

/- In a run in which Shutdown never notifies while a worker stands between its test and
its blocking, Shutdown is never stuck in join. -/
theorem shutdownNotStuck {threadNum : Nat} {as : List Action} {p : Pool}
    (ok : Throughout step heard (constructed threadNum) as) (reached : run step (constructed threadNum) as = some p) :
    ¬ Hung p := by
  have keep : ∀ s a t, Placed s ∧ Told s → heard s a → step s a = some t → Placed t ∧ Told t :=
    fun s a t h fine taken => ⟨placedStep h.1 taken,toldStep h.1 h.2 fine taken⟩
  have both := invariantWhen keep ⟨placedConstructed _,toldConstructed _⟩ ok reached
  rintro ⟨t,w,rest,joins,_,asleep,_⟩
  have roused := both.2.roused t (by rw [joins]; rfl)
  rw [roused.none] at asleep
  cases asleep

/- A pool with one worker, which thread 7 shuts down. The worker is asleep when the
notification comes. -/
def stopSleeping : List Action :=
  [.work 0 0,.work 0 0,.work 0 0,.shutdown 7,.work 7 0,.work 7 0,.work 7 0,.work 7 0,.work 7 0]

theorem shutdownNotStuckAsleep :
    ∃ p, run step (constructed 1) stopSleeping = some p ∧ p.calls 7 = .shutdownJoin [0] ∧ p.loops 0 = .wait ∧
      ¬ Hung p := by
  have ok : Throughout step heard (constructed 1) stopSleeping := by decide
  have reached : ∃ p, run step (constructed 1) stopSleeping = some p ∧ p.calls 7 = .shutdownJoin [0] ∧
      p.loops 0 = .wait := ⟨_,rfl,rfl,rfl⟩
  obtain ⟨p,reached,joins,waits⟩ := reached
  exact ⟨p,reached,joins,waits,shutdownNotStuck ok reached⟩

/- The same with the notification between the worker's test and its blocking: the worker
falls asleep for ever. -/
def stopParting : List Action :=
  [.work 0 0,.work 0 0,.shutdown 7,.work 7 0,.work 7 0,.work 0 0,.work 7 0,.work 7 0,.work 7 0]

theorem shutdownStuck : ∃ p, run step (constructed 1) stopParting = some p ∧ Hung p := by
  have reached : ∃ p, run step (constructed 1) stopParting = some p ∧ p.calls 7 = .shutdownJoin [0] ∧
      p.loops 0 = .wait ∧ 0 ∈ p.monitor.sleeping ∧ p.calls 0 = .idle :=
    ⟨_,rfl,rfl,rfl,List.mem_cons_self,rfl⟩
  obtain ⟨p,reached,joins,waits,asleep,idle⟩ := reached
  refine ⟨p,reached,7,0,[],joins,waits,asleep,fun u => ?_⟩
  by_cases stopper : u = 7
  · rw [stopper, joins]
    rfl
  · by_cases worker : u = 0
    · rw [worker, idle]
      rfl
    · have still : ∀ a ∈ stopParting, u ≠ a.thread := by simp [stopParting, Action.thread, stopper, worker]
      rw [callsKept reached still, constructedIdle]
      rfl

end TcFrame.ThreadPool
