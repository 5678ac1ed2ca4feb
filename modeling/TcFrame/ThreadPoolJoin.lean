import TcFrame.ThreadPoolShutdown

/-! Which threads Shutdown joins: those that it takes over from the list of workers. A
Resize that passed its test of the flag before may put workers into the list behind it. -/
namespace TcFrame.ThreadPool
open Machine

def CallPc.hires : CallPc → Bool
  | .resizeLock _ => true
  | _ => false

/- A journal: whether Shutdown has taken the workers over, and whom it has joined. -/
structure Joins where
  purged : Bool
  joined : List ThreadId
  deriving DecidableEq, Repr

def noteJoin (p : Pool) (a : Action) (_ : Pool) (j : Joins) : Joins :=
  match p.calls a.thread with
  | .shutdownPurge => { j with purged := true }
  | .shutdownJoin (w :: _) => { j with joined := j.joined ++ [w] }
  | _ => j

/- A Resize does not come to the mutex behind the Shutdown that takes the workers over, and
a Shutdown that finds the flag cleared comes after the one that cleared it has returned. -/
def joinsAll (x : Pool × Joins) (a : Action) : Prop :=
  ((x.1.calls a.thread).hires = true → x.2.purged = false) ∧
  (x.1.calls a.thread = .shutdownExchange → x.1.isRunning = false → x.1.stopped = true)

instance (x : Pool × Joins) (a : Action) : Decidable (joinsAll x a) := by unfold joinsAll; infer_instance

/- Once a Shutdown has returned there are no workers in the list, every thread that ever
entered WorkerLoop is joined, and no step adds a worker. -/
structure AllJoined (p : Pool) (joined : List ThreadId) : Prop where
  empty : p.shutDown = true → p.workers = []
  every : p.shutDown = true → ∀ u, p.loops u ≠ .outside → u ∈ joined
  closed : p.shutDown = true → ∀ a p', step p a = some p' → p'.workers = []

/- Behind the purge nobody hires, and the Shutdown at work still has to join whom it has not. -/
structure Joining (p : Pool) (j : Joins) : Prop where
  placed : Placed p
  closing : Closing p
  marked : Purged p → j.purged = true
  empty : Purged p → p.workers = []
  quiet : Purged p → ∀ t add, p.calls t ≠ .resizeSpawn add
  left : ∀ t workers, (p.calls t).remaining = some workers → ∀ u, p.loops u ≠ .outside → u ∈ j.joined ∨ u ∈ workers
  done : p.stopped = true → ∀ u, p.loops u ≠ .outside → u ∈ j.joined
  shut : p.shutDown = true → p.stopped = true

/- What a step does to the list of workers. -/
theorem hiringStep {p p' : Pool} {a : Action} (taken : step p a = some p') :
    p'.workers = p.workers ∨ p.calls a.thread = .shutdownPurge ∧ p'.workers = [] ∨
      ∃ add, p.calls a.thread = .resizeSpawn add := by
  cases stepCases taken with
  | purge here => exact .inr (.inl ⟨here,rfl⟩)
  | spawn here => exact .inr (.inr ⟨_,here⟩)
  | _ => exact .inl rfl

theorem purgeEmpties {p p' : Pool} {a : Action} (taken : step p a = some p') (here : p.calls a.thread = .shutdownPurge) :
    p'.workers = [] := by
  cases a with
  | commit | shutdown | resize =>
    simp only [step] at taken
    split at taken
    · rename_i may
      exact absurd ((mayCallCases may).1.symm.trans here) (by simp)
    · cases taken
  | work t pick =>
    have busy : (p.threads t).call = .shutdownPurge := here
    simp only [step, busy, inCall, reduceCtorEq, if_false, Option.some.injEq] at taken
    rw [← taken]
    rfl

theorem hiredStep {p p' : Pool} {a : Action} (taken : step p a = some p') {u : ThreadId} (inside : p'.loops u ≠ .outside) :
    p.loops u ≠ .outside ∨ ∃ add, p.calls a.thread = .resizeSpawn add := by
  by_cases out : p.loops u = .outside
  · cases stepCases taken with
    | spawn here => exact .inr ⟨_,here⟩
    | @loopMove t pick pc m idle moves =>
      rw [Pool.loopsSetLoop, Function.update_apply] at inside
      split at inside
      · rename_i self
        rw [self, Pool.loops] at out
        rw [out] at moves
        cases moves
      · exact .inl inside
    | take idle here | begin_ idle here | finish idle here =>
      rw [Pool.loopsSetLoop, Function.update_apply] at inside
      split at inside
      · rename_i self
        rw [self, Pool.loops, here] at out
        cases out
      · exact .inl inside
    | _ =>
      rw [Pool.loopsSetCall] at inside
      exact .inl inside
  · exact .inl out

theorem notedPurge {p p' : Pool} {a : Action} {j : Joins} (here : p.calls a.thread = .shutdownPurge) :
    (noteJoin p a p' j).purged = true := by
  rw [noteJoin, here]

theorem notedKept {p p' : Pool} {a : Action} {j : Joins} (purged : j.purged = true) :
    (noteJoin p a p' j).purged = true := by
  unfold noteJoin
  split <;> simp [purged]

theorem joinedKept {p p' : Pool} {a : Action} {j : Joins} {u : ThreadId} (member : u ∈ j.joined) :
    u ∈ (noteJoin p a p' j).joined := by
  unfold noteJoin
  split
  · exact member
  · exact List.mem_append_left _ member
  · exact member

theorem joinedNew {p p' : Pool} {a : Action} {j : Joins} {w : ThreadId} {rest : List ThreadId}
    (here : p.calls a.thread = .shutdownJoin (w :: rest)) : w ∈ (noteJoin p a p' j).joined := by
  rw [noteJoin, here]
  exact List.mem_append_right _ List.mem_cons_self

theorem markedStep {p p' : Pool} {a : Action} {j : Joins} (h : Joining p j) (taken : step p a = some p')
    (purged' : Purged p') : (noteJoin p a p' j).purged = true := by
  rcases purgedCases taken purged' with purged | ⟨here,_⟩
  · exact notedKept (h.marked purged)
  · exact notedPurge here

theorem emptyStep {p p' : Pool} {a : Action} {j : Joins} (h : Joining p j) (taken : step p a = some p')
    (purged' : Purged p') : p'.workers = [] := by
  rcases hiringStep taken with same | ⟨_,none⟩ | ⟨add,hires⟩
  · rcases purgedCases taken purged' with purged | ⟨here,_⟩
    · rw [same, h.empty purged]
    · exact purgeEmpties taken here
  · exact none
  · rcases purgedCases taken purged' with purged | ⟨here,_⟩
    · exact absurd hires (h.quiet purged _ _)
    · rw [hires] at here
      cases here

theorem quietBehind {p p' : Pool} {a : Action} {j : Joins} (h : Joining p j) (ok : joinsAll (p,j) a)
    (taken : step p a = some p') (purged' : Purged p') (t : ThreadId) (add : Nat) : p'.calls t ≠ .resizeSpawn add := by
  intro spawns
  rcases purgedCases taken purged' with purged | ⟨here,_⟩
  · rcases callsStep taken t with same | ⟨self,next⟩
    · exact h.quiet purged t add (same.symm.trans spawns)
    · rw [spawns] at next
      generalize before : p.calls t = pc at next
      cases next with
      | move moves =>
        generalize p'.monitor = m at moves
        cases moves with
        | resizeLock =>
          have unmarked := ok.1 (by rw [← self, before]; rfl)
          rw [show j.purged = true from h.marked purged] at unmarked
          cases unmarked
      | spawn => exact h.quiet purged t _ before
  · have closes := purgingHolds h.placed taken here (by rw [spawns]; rfl)
    rw [spawns] at closes
    cases closes

/- Behind the purge a thread in WorkerLoop was there before. -/
theorem insideBefore {p p' : Pool} {a : Action} {j : Joins} (h : Joining p j) (taken : step p a = some p')
    (purged : Purged p) {u : ThreadId} (inside : p'.loops u ≠ .outside) : p.loops u ≠ .outside :=
  (hiredStep taken inside).resolve_right (fun ⟨_,hires⟩ => h.quiet purged _ _ hires)

theorem remainingStep {p p' : Pool} {a : Action} {j : Joins} (taken : step p a = some p') {t : ThreadId}
    {workers : List ThreadId} (left : (p'.calls t).remaining = some workers) :
    (p.calls t).remaining = some workers ∨
    (∃ w, (p.calls t).remaining = some (w :: workers) ∧ w ∈ (noteJoin p a p' j).joined) ∨
    p.calls t = .shutdownPurge ∧ workers = p.workers := by
  rcases callsStep taken t with same | ⟨self,next⟩
  · rw [same] at left
    exact .inl left
  · generalize before : p.calls t = pc at next
    generalize p'.calls t = pc' at next left
    cases next with
    | move moves =>
      generalize p'.monitor = m at moves
      cases moves with
      | shutdownUnlock => exact .inl left
      | shutdownJoin =>
        cases left
        exact .inr (.inl ⟨_,rfl,joinedNew (by rw [← self, before])⟩)
      | _ => cases left
    | purge =>
      cases left
      exact .inr (.inr ⟨rfl,rfl⟩)
    | _ => cases left

theorem joinsStep {p p' : Pool} {a : Action} {j : Joins} (h : Joining p j) (taken : step p a = some p') {t : ThreadId}
    {workers : List ThreadId} (left' : (p'.calls t).remaining = some workers) {u : ThreadId}
    (inside' : p'.loops u ≠ .outside) : u ∈ (noteJoin p a p' j).joined ∨ u ∈ workers := by
  rcases remainingStep taken left' with left | ⟨w,left,gone⟩ | ⟨here,same⟩
  · have inside := insideBefore h taken (.inr ⟨t,workers,left⟩) inside'
    exact (h.left t workers left u inside).imp_left joinedKept
  · have inside := insideBefore h taken (.inr ⟨t,_,left⟩) inside'
    rcases h.left t _ left u inside with before | waits
    · exact .inl (joinedKept before)
    · rcases List.mem_cons.mp waits with now | later
      · rw [now]
        exact .inl gone
      · exact .inr later
  · -- The purge takes over whoever has entered WorkerLoop.
    rw [same]
    refine .inr (h.closing.staff (purgesOnce h.closing here) u ((hiredStep taken inside').resolve_right (fun ⟨add,hires⟩ => ?_)))
    have self : t = a.thread := by
      by_contra other
      rw [(callsStep taken t).resolve_right (fun moved => other moved.1), here] at left'
      cases left'
    rw [← self, here] at hires
    cases hires

theorem joinedStep {p p' : Pool} {a : Action} {j : Joins} (h : Joining p j) (taken : step p a = some p')
    (stopped' : p'.stopped = true) (u : ThreadId) (inside' : p'.loops u ≠ .outside) :
    u ∈ (noteJoin p a p' j).joined := by
  rcases (stoppedStep taken).2 stopped' with stopped | ⟨joins,_⟩
  · exact joinedKept (h.done stopped u (insideBefore h taken (.inl stopped) inside'))
  · have left : (p.calls a.thread).remaining = some [] := by rw [joins]; rfl
    rcases h.left _ _ left u (insideBefore h taken (.inr ⟨_,_,left⟩) inside') with before | waits
    · exact joinedKept before
    · cases waits

theorem returnedStep {p p' : Pool} {a : Action} {j : Joins} (h : Joining p j) (ok : joinsAll (p,j) a)
    (taken : step p a = some p') (shut : p'.shutDown = true) : p'.stopped = true := by
  cases stepCases taken with
  | again here cleared => exact ok.2 here cleared
  | joined here => rfl
  | _ => exact h.shut shut

theorem joiningStep {x y : Pool × Joins} {a : Action} (h : Joining x.1 x.2) (ok : joinsAll x a)
    (taken : recording step noteJoin x a = some y) : Joining y.1 y.2 := by
  obtain ⟨stepped,noted⟩ := recordingCases taken
  rw [noted]
  exact ⟨placedStep h.placed stepped,closingStep h.placed h.closing stepped,markedStep h stepped,emptyStep h stepped,
    quietBehind h ok stepped,fun _ _ left _ inside => joinsStep h stepped left inside,joinedStep h stepped,
    returnedStep h ok stepped⟩

theorem joiningConstructed (threadNum : Nat) : Joining (constructed threadNum) ⟨false,[]⟩ := by
  have idle := constructedIdle threadNum
  have unpurged : ¬ Purged (constructed threadNum) := by
    rintro (stopped | ⟨t,workers,left⟩)
    · cases stopped
    · rw [idle] at left
      cases left
  refine ⟨placedConstructed _,closingConstructed _,fun purged => absurd purged unpurged,
    fun purged => absurd purged unpurged,fun purged => absurd purged unpurged,fun t workers left => ?_,
    fun stopped => ?_,fun shut => ?_⟩
  · rw [idle] at left
    cases left
  · cases stopped
  · cases shut

theorem joiningJoined {p : Pool} {j : Joins} (h : Joining p j) : AllJoined p j.joined := by
  refine ⟨fun shut => h.empty (.inl (h.shut shut)),fun shut => h.done (h.shut shut),fun shut a p' taken => ?_⟩
  have purged : Purged p := .inl (h.shut shut)
  rcases hiringStep taken with same | ⟨_,none⟩ | ⟨add,hires⟩
  · rw [same, h.empty purged]
  · exact none
  · exact absurd hires (h.quiet purged _ _)

/- In a run in which no Resize comes to the mutex behind the purge, and no Shutdown returns
beside one that is still at work, a Shutdown that has returned has joined every worker. -/
theorem workersJoined {threadNum : Nat} {as : List Action} {p : Pool} {j : Joins}
    (ok : Throughout (recording step noteJoin) joinsAll (constructed threadNum,⟨false,[]⟩) as)
    (reached : run (recording step noteJoin) (constructed threadNum,⟨false,[]⟩) as = some (p,j)) :
    AllJoined p j.joined := by
  have keep : ∀ (x : Pool × Joins) (a : Action) (y : Pool × Joins), Joining x.1 x.2 → joinsAll x a →
      recording step noteJoin x a = some y → Joining y.1 y.2 := fun _ _ _ => joiningStep
  have start : Joining (constructed threadNum,(⟨false,[]⟩ : Joins)).1 (constructed threadNum,(⟨false,[]⟩ : Joins)).2 :=
    joiningConstructed threadNum
  exact joiningJoined (invariantWhen keep start ok reached)

/- The end of a Resize of thread 9 that adds one worker: the mutex, the worker, the mutex. -/
def growBy (pick : ThreadId) : List Action :=
  [.work 9 0,.work 9 pick,.work 9 0,.work 9 0]

/- A worker finds the flag cleared and leaves. -/
def quits (w : ThreadId) : List Action := [.work w 0,.work w 0,.work w 0,.work w 0]

/- Thread 9 hires thread 10; thread 7 shuts the pool down, and both workers leave. -/
def joinBoth : List Action :=
  [.resize 9 2,.work 9 0,.work 9 0,.work 9 0] ++ growBy 10 ++
    [.shutdown 7,.work 7 0,.work 7 0,.work 7 0,.work 7 0,.work 7 0] ++ quits 0 ++ quits 10 ++
    [.work 7 0,.work 7 0,.work 7 0]

theorem workersJoinedHired : ∃ p j, run (recording step noteJoin) (constructed 1,⟨false,[]⟩) joinBoth = some (p,j) ∧
    p.shutDown = true ∧ j.joined = [0,10] ∧ AllJoined p j.joined := by
  have ok : Throughout (recording step noteJoin) joinsAll (constructed 1,⟨false,[]⟩) joinBoth := by decide
  have reached : ∃ p, run (recording step noteJoin) (constructed 1,⟨false,[]⟩) joinBoth = some (p,⟨true,[0,10]⟩) ∧
      p.shutDown = true := ⟨_,rfl,rfl⟩
  obtain ⟨p,reached,shut⟩ := reached
  exact ⟨p,_,reached,shut,rfl,workersJoined ok reached⟩

/- The Resize of thread 9 has tested the flag when thread 7 shuts the pool down; it comes to
the mutex when Shutdown has returned. -/
def hireBehind : List Action :=
  [.resize 9 2,.work 9 0,.work 9 0,.work 9 0] ++
    [.shutdown 7,.work 7 0,.work 7 0,.work 7 0,.work 7 0,.work 7 0] ++ quits 0 ++ [.work 7 0,.work 7 0] ++ growBy 10

theorem workersUnjoined : ∃ p j, run (recording step noteJoin) (constructed 1,⟨false,[]⟩) hireBehind = some (p,j) ∧
    p.shutDown = true ∧ p.workers = [10] ∧ p.loops 10 = .lock ∧ 10 ∉ j.joined ∧ ¬ AllJoined p j.joined := by
  have reached : ∃ p, run (recording step noteJoin) (constructed 1,⟨false,[]⟩) hireBehind = some (p,⟨true,[0]⟩) ∧
      p.shutDown = true ∧ p.workers = [10] ∧ p.loops 10 = .lock := ⟨_,rfl,rfl,rfl,rfl⟩
  obtain ⟨p,reached,shut,workers,hired⟩ := reached
  refine ⟨p,_,reached,shut,workers,hired,by simp,fun joined => ?_⟩
  have empty := joined.empty shut
  rw [workers] at empty
  cases empty

end TcFrame.ThreadPool
