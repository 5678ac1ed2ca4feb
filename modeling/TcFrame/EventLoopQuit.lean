import TcFrame.EventLoopWakeup

/-! Quit. Loop begins by clearing m_quit, so a Quit that comes before is forgotten; and
nothing runs the functors that are left when the loop ends, so what was queued behind
the last swap is lost. -/
namespace TcFrame.Loop
open Machine

/- What a Quit that has returned promises: the flag stays, no iteration is begun, and
a Poll finds the descriptor readable. -/
structure Stopping (w : World) : Prop where
  quit : w.loop.quit = true
  begun : w.begun = 0
  readable : ∀ timeoutMs, w.phase = .poll timeoutMs → 0 < w.loop.wakeup

def beforeEntry : Phase → Bool
  | .spawned | .entering => true
  | _ => false

/- Quit stores its flag before Loop clears it: in a worker that has not got so far, or
in a Quit that is still running when the user calls Loop. -/
def storesEarly (w : World) : Action → Prop
  | .quit _ => beforeEntry w.phase = true
  | .callLoop => ∃ t, w.calls t = some .quit
  | _ => False

def sleeping : Phase → Bool
  | .timeout | .poll _ => true
  | _ => false

structure Stops (w : World) : Prop where
  stored : w.quitReturned = true ∨ (∃ t, w.calls t = some .quit) → w.loop.quit = true
  entry : beforeEntry w.phase = true → w.quitReturned = false ∧ ∀ t, w.calls t ≠ some .quit
  begun : w.quitReturned = true → w.begun = 0
  awake : w.quitReturned = true → sleeping w.phase = true → 0 < w.loop.wakeup

theorem stopsLoop {w w' : World} {s : LoopStep} (h : Stops w) (taken : LoopTaken w s w') : Stops w' := by
  have awake : ∀ {p}, w.phase = p → sleeping p = true → w.quitReturned = true → 0 < w.loop.wakeup := by
    intro p phase asleep returned
    exact h.awake returned (by rw [phase]; exact asleep)
  cases taken with
  | start phase =>
    have entry := h.entry (by rw [phase]; rfl)
    exact ⟨h.stored,fun _ => entry,h.begun,fun _ asleep => by cases asleep⟩
  | enter phase =>
    obtain ⟨returned,nobody⟩ := h.entry (by rw [phase]; rfl)
    refine ⟨?_,fun early => (by cases early),h.begun,fun _ asleep => (by cases asleep)⟩
    rintro (asked | ⟨t,held⟩)
    · have asked' : w.quitReturned = true := asked
      rw [returned] at asked'
      cases asked'
    · exact absurd held (nobody t)
  | begin_ phase quit =>
    have still : w.quitReturned = false := by
      by_contra asked
      have stored := h.stored (.inl (by simpa using asked))
      rw [quit] at stored
      cases stored
    have never : ∀ {p : Prop}, w.quitReturned = true → p := fun asked => by rw [still] at asked; cases asked
    exact ⟨h.stored,fun early => (by cases early),fun asked => never asked,fun asked _ => never asked⟩
  | timeout phase => exact ⟨h.stored,fun early => (by cases early),h.begun,fun asked _ => awake phase rfl asked⟩
  | leave phase | pollReturns phase | drain phase | handle phase | handled phase | calling phase | swap phase
  | call phase | called phase | calledAll phase | collect phase | fire phase | finish phase | again phase =>
    exact ⟨h.stored,fun early => (by cases early),h.begun,fun _ asleep => (by cases asleep)⟩

theorem wakeForWorkQuit (l : EventLoop) (t : ThreadId) : (l.wakeForWork t).quit = l.quit := by
  unfold EventLoop.wakeForWork
  split <;> rfl

theorem wakeFromOutsideQuit (l : EventLoop) (t : ThreadId) : (l.wakeFromOutside t).quit = l.quit := by
  unfold EventLoop.wakeFromOutside
  split <;> rfl

/- A call other than Quit, or the end of one. -/
theorem stopsCall {w w' : World} {t : ThreadId} {c : Option Call} (h : Stops w) (other : c ≠ some .quit)
    (phase : w'.phase = w.phase) (quit : w'.loop.quit = w.loop.quit) (written : w.loop.wakeup ≤ w'.loop.wakeup)
    (returned : w'.quitReturned = w.quitReturned) (begun : w'.begun = w.begun)
    (calls : w'.calls = Function.update w.calls t c) : Stops w' := by
  have before : ∀ t', w'.calls t' = some .quit → w.calls t' = some .quit := by
    intro t' held
    rw [calls, Function.update_apply] at held
    split at held
    · exact absurd held other
    · exact held
  refine ⟨?_,?_,?_,?_⟩
  · rw [quit, returned]
    rintro (asked | ⟨t',held⟩)
    · exact h.stored (.inl asked)
    · exact h.stored (.inr ⟨t',before t' held⟩)
  · rw [phase, returned]
    intro early
    obtain ⟨still,nobody⟩ := h.entry early
    exact ⟨still,fun t' held => nobody t' (before t' held)⟩
  · rw [returned, begun]; exact h.begun
  · rw [phase, returned]
    exact fun asked asleep => Nat.lt_of_lt_of_le (h.awake asked asleep) written

/- Quit returns: its caller was another thread, which has written to the descriptor, or
the loop's own, which is not on its way to Poll. -/
theorem stopsQuitted {w : World} {t : ThreadId} (h : Stops w) (located : Located w) (held : w.calls t = some .quit) :
    Stops { calling w t (w.loop.wakeFromOutside t) none with
      quitReturned := true
      begun := if w.quitReturned then w.begun else 0 } := by
  refine ⟨?_,?_,?_,?_⟩
  · intro _
    exact (wakeFromOutsideQuit w.loop t).trans (h.stored (.inr ⟨t,held⟩))
  · intro early
    exact absurd held ((h.entry early).2 t)
  · intro _
    cases asked : w.quitReturned with
    | true => simpa [asked] using h.begun asked
    | false => simp
  · intro _ asleep
    have asleep' : sleeping w.phase = true := asleep
    have begun : w.phase ≠ .spawned := fun phase => by rw [phase] at asleep'; cases asleep'
    have other : w.loop.isInLoopThread t = false := by
      by_contra own
      have same : w.loop.threadId = t := by simpa [EventLoop.isInLoopThread] using own
      have runs := located.user (by rw [← located.own begun, same, held]; simp)
      cases phase : w.phase with
      | timeout => rw [phase] at runs; cases runs
      | poll timeoutMs => rw [phase] at runs; cases runs
      | _ => rw [phase] at asleep'; cases asleep'
    show 0 < (w.loop.wakeFromOutside t).wakeup
    simp [EventLoop.wakeFromOutside, other, EventLoop.wake]

theorem stopsStep {w w' : World} {a : Action} (located : Located w) (h : Stops w) (timely : ¬ storesEarly w a)
    (taken : step w a = some w') : Stops w' := by
  cases stepCases taken with
  | loop quiet moved => exact stopsLoop h moved
  | callLoop own quiet phase =>
    have nobody : ∀ t, w.calls t ≠ some .quit := fun t held => timely ⟨t,held⟩
    refine ⟨?_,fun _ => ⟨rfl,nobody⟩,(fun asked => by cases asked),(fun asked => by cases asked)⟩
    rintro (asked | ⟨t,held⟩)
    · cases asked
    · exact absurd held (nobody t)
  | queueInLoop may => exact stopsCall h (by simp) rfl rfl (Nat.le_refl _) rfl rfl rfl
  | @quit t may =>
    have late : beforeEntry w.phase = false := by simpa [storesEarly] using timely
    refine ⟨fun _ => rfl,?_,h.begun,h.awake⟩
    intro early
    have early' : beforeEntry w.phase = true := early
    rw [late] at early'
    cases early'
  | timers outside may quiet =>
    refine stopsCall h ?_ rfl rfl (Nat.le_refl _) rfl rfl rfl
    rcases quiet with c | c | c <;> simp [c]
  | queued held =>
    exact stopsCall h (by simp) rfl (wakeForWorkQuit _ _) (wakeForWorkWritten _ _).2 rfl rfl rfl
  | added held =>
    exact stopsCall h (by simp) rfl (wakeForWorkQuit _ _) (wakeForWorkWritten _ _).2 rfl rfl rfl
  | cancelled held =>
    exact stopsCall h (by simp) rfl (wakeFromOutsideQuit _ _) (wakeFromOutsideWritten _ _).2 rfl rfl rfl
  | quitted held => exact stopsQuitted h located held

theorem stopsInitial {w : World} (h : Initial w) : Stops w := by
  have idle : w.quitReturned = false ∧ ∀ t, w.calls t ≠ some .quit := by
    cases h <;> exact ⟨rfl,fun t => by simp [constructed]⟩
  obtain ⟨returned,nobody⟩ := idle
  have never : ∀ {p : Prop}, w.quitReturned = true → p := fun asked => by rw [returned] at asked; cases asked
  refine ⟨?_,fun _ => ⟨returned,nobody⟩,fun asked => never asked,fun asked => never asked⟩
  rintro (asked | ⟨t,held⟩)
  · exact never asked
  · exact absurd held (nobody t)

/- Once Quit has returned the loop is on its way out, in every run in which no Quit
stored its flag too early; and the next test of the flag ends it. -/
theorem quitNeverLost {s w : World} {as : List Action} (start : Initial s)
    (kept : Throughout step (fun u a => ¬ storesEarly u a) s as) (reached : run step s as = some w)
    (returned : w.quitReturned = true) :
    Stopping w ∧ ∀ w', step w (.loop .test) = some w' → w'.phase = .exited := by
  have both : Located s ∧ Stops s := ⟨locatedInitial start,stopsInitial start⟩
  have keep : ∀ u a t, Located u ∧ Stops u → ¬ storesEarly u a → step u a = some t → Located t ∧ Stops t :=
    fun u a t hu timely taken => ⟨locatedStep hu.1 taken,stopsStep hu.1 hu.2 timely taken⟩
  obtain ⟨_,stops⟩ := invariantWhen keep both kept reached
  have quit := stops.stored (.inl returned)
  refine ⟨⟨quit,stops.begun returned,fun timeoutMs polling => stops.awake returned (by rw [polling]; rfl)⟩,?_⟩
  intro w' taken
  cases stepCases taken with
  | loop quiet moved =>
    cases moved with
    | leave phase set_ => rfl
    | begin_ phase clear => rw [quit] at clear; cases clear
  | timers outside may quiet => exact absurd rfl (outside _)

/- Thread 0 stops the worker 1 while it is in Poll. -/
def quitInPoll : List Action := [.loop .start,.loop .enter,.loop .test,.loop (.timeout 0),.quit 0,.returns 0]

theorem quitNeverLostInPoll : ∃ w, run step (constructed 0 1 true) quitInPoll = some w ∧
    w.phase = .poll 10000 ∧ Stopping w := by
  have reached : ∃ w, run step (constructed 0 1 true) quitInPoll = some w ∧ w.phase = .poll 10000 ∧
      w.quitReturned = true := ⟨_,rfl,rfl,rfl⟩
  obtain ⟨w,taken,polling,returned⟩ := reached
  have other : (0 : ThreadId) ≠ 1 := by decide
  have kept : Throughout step (fun u a => ¬ storesEarly u a) (constructed 0 1 true) quitInPoll := by
    refine ⟨id,fun _ t1 => ?_⟩
    cases t1
    refine ⟨id,fun _ t2 => ?_⟩
    cases t2
    refine ⟨id,fun _ t3 => ?_⟩
    cases t3
    refine ⟨id,fun _ t4 => ?_⟩
    cases t4
    refine ⟨by simp [storesEarly, beforeEntry],fun _ t5 => ?_⟩
    cases t5
    exact ⟨id,fun _ _ => trivial⟩
  exact ⟨w,taken,polling,(quitNeverLost (.autoStart other) kept taken returned).1⟩

/- The thread that made the loop calls Quit before the worker has begun. -/
def quitBeforeStart : List Action := [.quit 0,.returns 0,.loop .start,.loop .enter,.loop .test,.loop (.timeout 0)]

theorem quitForgotten : ¬ ∀ s w as, Initial s → run step s as = some w → w.quitReturned = true →
    Stopping w ∧ ∀ w', step w (.loop .test) = some w' → w'.phase = .exited := by
  intro claimed
  have reached : ∃ w, run step (constructed 0 1 true) quitBeforeStart = some w ∧ w.quitReturned = true ∧
      w.loop.quit = false := ⟨_,rfl,rfl,rfl⟩
  obtain ⟨w,taken,returned,cleared⟩ := reached
  have other : (0 : ThreadId) ≠ 1 := by decide
  obtain ⟨stopping,_⟩ := claimed _ w _ (.autoStart other) taken returned
  have quit := stopping.quit
  rw [cleared] at quit
  cases quit

/- The functors taken by the last swap and not yet called. -/
def batch : Phase → List Nat
  | .functors rest | .functor rest => rest
  | _ => []

/- From the swap of an iteration to the test that may end the loop, and after it. -/
def pastSwap : Phase → Bool
  | .functors _ | .functor _ | .timers | .ready _ | .fired _ _ _ | .test | .exited => true
  | _ => false

/- Quit is called where no swap comes before the end, with a functor still queued. -/
def quitsOverQueued (w : World) : Action → Bool
  | .quit _ => pastSwap w.phase && w.returned.any (fun f => w.loop.pendingFunctors.contains f)
  | _ => false

/- Where the functors are. -/
structure Kept (w : World) : Prop where
  placed : ∀ f < w.pushed, f ∈ w.executed ∨ f ∈ w.loop.pendingFunctors ∨ f ∈ batch w.phase
  known : ∀ f ∈ w.returned, f < w.pushed
  flying : ∀ t f, w.calls t = some (.queueInLoop f) → f < w.pushed
  owed : ∀ f ∈ w.owed, f ∈ w.returned
  swapped : pastSwap w.phase = true → w.loop.quit = true → ∀ f ∈ w.owed, f ∉ w.loop.pendingFunctors
  exited : w.phase = .exited → w.loop.quit = true

/- A step that moves no functor and stays on its side of the swap. -/
theorem keptMove {w : World} (h : Kept w) {l : EventLoop} {phase : Phase} {begun : Nat}
    (pending : l.pendingFunctors = w.loop.pendingFunctors) (quit : l.quit = w.loop.quit)
    (left : batch phase = batch w.phase) (side : pastSwap phase = true → pastSwap w.phase = true)
    (ended : phase = .exited → l.quit = true) :
    Kept { w with loop := l, phase := phase, begun := begun } := by
  refine ⟨?_,h.known,h.flying,h.owed,?_,ended⟩
  · simp only [pending, left]; exact h.placed
  · simp only [pending, quit]; exact fun late => h.swapped (side late)

theorem keptLoop {w w' : World} {s : LoopStep} (h : Kept w) (taken : LoopTaken w s w') : Kept w' := by
  have placed : ∀ {p}, w.phase = p → ∀ f < w.pushed, f ∈ w.executed ∨ f ∈ w.loop.pendingFunctors ∨ f ∈ batch p :=
    fun phase => phase ▸ h.placed
  cases taken with
  | enter phase =>
    have before := placed phase
    exact ⟨before,h.known,h.flying,h.owed,fun _ asked => (by cases asked),fun ended => (by cases ended)⟩
  | swap phase =>
    refine ⟨?_,h.known,h.flying,h.owed,fun _ _ f _ member => (by cases member),fun ended => (by cases ended)⟩
    intro f known
    rcases placed phase f known with done | queued | here
    · exact .inl done
    · exact .inr (.inr queued)
    · cases here
  | @call g rest phase =>
    refine ⟨?_,h.known,h.flying,h.owed,fun _ => h.swapped (by rw [phase]; rfl),fun ended => (by cases ended)⟩
    intro f known
    rcases placed phase f known with done | queued | here
    · exact .inl (List.mem_append_left _ done)
    · exact .inr (.inl queued)
    · rcases List.mem_cons.mp here with first | later
      · exact .inl (by simp [first])
      · exact .inr (.inr later)
  | leave phase quit => exact keptMove h rfl rfl (by rw [phase]; rfl) (fun _ => by rw [phase]; rfl) (fun _ => quit)
  | start phase | begin_ phase | timeout phase | pollReturns phase | drain phase | handle phase | handled phase
  | calling phase =>
    exact keptMove h rfl rfl (by rw [phase]; rfl) (fun late => by cases late) (fun ended => by cases ended)
  | called phase | calledAll phase | collect phase | fire phase | finish phase | again phase =>
    exact keptMove h rfl rfl (by rw [phase]; rfl) (fun _ => by rw [phase]; rfl) (fun ended => by cases ended)

/- A call that pushes no functor and does not touch the flag. -/
theorem keptCall {w : World} (h : Kept w) {t : ThreadId} {l : EventLoop} {c : Option Call}
    (pending : l.pendingFunctors = w.loop.pendingFunctors) (quit : l.quit = w.loop.quit)
    (other : ∀ f, c ≠ some (.queueInLoop f)) : Kept (calling w t l c) := by
  refine ⟨?_,h.known,?_,h.owed,?_,?_⟩
  · simp only [calling, pending]; exact h.placed
  · intro t' f held
    simp only [calling, Function.update_apply] at held
    split at held
    · exact absurd held (other f)
    · exact h.flying t' f held
  · simp only [calling, pending, quit]; exact h.swapped
  · simp only [calling, quit]; exact h.exited

theorem keptPush {w : World} (h : Kept w) {t : ThreadId} :
    Kept { calling w t { w.loop with pendingFunctors := w.loop.pendingFunctors ++ [w.pushed] }
      (some (.queueInLoop w.pushed)) with pushed := w.pushed + 1 } := by
  refine ⟨?_,fun f member => Nat.lt_succ_of_lt (h.known f member),?_,h.owed,?_,h.exited⟩
  · intro f known
    rcases Nat.lt_succ_iff_lt_or_eq.mp known with old | new
    · rcases h.placed f old with done | queued | here
      · exact .inl done
      · exact .inr (.inl (List.mem_append_left _ queued))
      · exact .inr (.inr here)
    · exact .inr (.inl (by simp [calling, new]))
  · intro t' f held
    simp only [calling, Function.update_apply] at held
    split at held
    · cases held; exact Nat.lt_succ_self _
    · exact Nat.lt_succ_of_lt (h.flying t' f held)
  · intro late asked f promised member
    rcases List.mem_append.mp member with old | new
    · exact h.swapped late asked f promised old
    · have bound := h.known f (h.owed f promised)
      rw [List.mem_singleton.mp new] at bound
      exact Nat.lt_irrefl _ bound

theorem keptReturns {w : World} (h : Kept w) {t : ThreadId} {f : Nat} (held : w.calls t = some (.queueInLoop f)) :
    Kept { calling w t (w.loop.wakeForWork t) none with returned := w.returned ++ [f] } := by
  have k : Kept (calling w t (w.loop.wakeForWork t) none) :=
    keptCall h (wakeForWorkWritten _ _).1 (wakeForWorkQuit _ _) (by simp)
  refine ⟨k.placed,?_,k.flying,fun g promised => List.mem_append_left _ (h.owed g promised),k.swapped,k.exited⟩
  intro g member
  rcases List.mem_append.mp member with old | new
  · exact h.known g old
  · rw [List.mem_singleton.mp new]; exact h.flying t f held

theorem keptStep {w w' : World} {a : Action} (h : Kept w) (timely : quitsOverQueued w a = false)
    (taken : step w a = some w') : Kept w' := by
  cases stepCases taken with
  | loop quiet moved => exact keptLoop h moved
  | callLoop own quiet phase =>
    have left : batch w.phase = [] := by rcases phase with phase | phase <;> rw [phase] <;> rfl
    refine ⟨?_,h.known,h.flying,h.owed,fun late => (by cases late),fun ended => (by cases ended)⟩
    have placed := h.placed
    rw [left] at placed
    exact placed
  | queueInLoop may => exact keptPush h
  | @quit t may =>
    have clear : pastSwap w.phase = true → ∀ f ∈ w.returned, f ∉ w.loop.pendingFunctors := by
      intro late
      simpa [quitsOverQueued, late] using timely
    refine ⟨h.placed,h.known,?_,fun f member => member,fun late _ => clear late,fun _ => rfl⟩
    intro t' f held
    simp only [calling, Function.update_apply] at held
    split at held
    · cases held
    · exact h.flying t' f held
  | timers outside may quiet =>
    refine keptCall h rfl rfl (fun f same => ?_)
    rcases quiet with c | c | c <;> rw [c] at same <;> cases same
  | queued held => exact keptReturns h held
  | added held => exact keptCall h (wakeForWorkWritten _ _).1 (wakeForWorkQuit _ _) (by simp)
  | cancelled held => exact keptCall h (wakeFromOutsideWritten _ _).1 (wakeFromOutsideQuit _ _) (by simp)
  | @quitted t held =>
    have k : Kept (calling w t (w.loop.wakeFromOutside t) none) :=
      keptCall h (wakeFromOutsideWritten _ _).1 (wakeFromOutsideQuit _ _) (by simp)
    exact ⟨k.placed,k.known,k.flying,k.owed,k.swapped,k.exited⟩

theorem keptInitial {w : World} (h : Initial w) : Kept w := by
  cases h <;>
  exact ⟨fun f known => absurd known (Nat.not_lt_zero f),fun f member => (by cases member),
    fun t f held => (by cases held),fun f member => (by cases member),fun _ _ f member => (by cases member),
    fun ended => (by cases ended)⟩

/- What was queued before Quit is executed before Loop returns, in every run in which no
Quit comes past the last swap with a functor still queued. -/
theorem queuedBeforeQuitRuns {s w : World} {as : List Action} (start : Initial s)
    (kept : Throughout step (fun u a => quitsOverQueued u a = false) s as) (reached : run step s as = some w)
    (returned : w.phase = .exited) : ∀ f ∈ w.owed, f ∈ w.executed := by
  have k : Kept w := invariantWhen (fun _ _ _ => keptStep) (keptInitial start) kept reached
  have late : pastSwap w.phase = true := by rw [returned]; rfl
  intro f promised
  rcases k.placed f (k.known f (k.owed f promised)) with done | queued | here
  · exact done
  · exact absurd queued (k.swapped late (k.exited returned) f promised)
  · rw [returned] at here; cases here

/- A functor queued and a Quit called while the loop is in Poll. -/
def quitAfterQueued : List Action :=
  [.loop .start,.loop .enter,.loop .test,.loop (.timeout 0),.queueInLoop 0,.returns 0,.quit 0,.returns 0,
    .loop (.pollReturns [.wakeup]),.loop .handle,.loop .store,.loop .swap,.loop .call,.loop .called,.loop .store,
    .loop (.collect 0),.loop .again,.loop .test]

theorem queuedBeforeQuitRunsInPoll : ∃ w, run step (constructed 0 1 true) quitAfterQueued = some w ∧
    w.phase = .exited ∧ w.owed = [0] ∧ ∀ f ∈ w.owed, f ∈ w.executed := by
  have reached : ∃ w, run step (constructed 0 1 true) quitAfterQueued = some w ∧ w.phase = .exited ∧
      w.owed = [0] := ⟨_,rfl,rfl,rfl⟩
  obtain ⟨w,taken,returned,promised⟩ := reached
  have other : (0 : ThreadId) ≠ 1 := by decide
  have kept : Throughout step (fun u a => quitsOverQueued u a = false) (constructed 0 1 true) quitAfterQueued := by
    decide
  exact ⟨w,taken,returned,promised,queuedBeforeQuitRuns (.autoStart other) kept taken returned⟩

/- The same two calls while the loop is in its timers: the destructor of a server makes
them in this order, ForceClose and then Quit. -/
def quitPastSwap : List Action :=
  [.loop .start,.loop .enter,.loop .test,.loop (.timeout 0),.loop (.pollReturns []),.loop .store,.loop .swap,
    .loop .store,.queueInLoop 0,.returns 0,.quit 0,.returns 0,.loop (.collect 0),.loop .again,.loop .test]

theorem queuedBeforeQuitDropped : ¬ ∀ s w as, Initial s → run step s as = some w → w.phase = .exited →
    ∀ f ∈ w.owed, f ∈ w.executed := by
  intro claimed
  have reached : ∃ w, run step (constructed 0 1 true) quitPastSwap = some w ∧ w.phase = .exited ∧
      w.owed = [0] ∧ w.executed = [] := ⟨_,rfl,rfl,rfl,rfl⟩
  obtain ⟨w,taken,returned,promised,executed⟩ := reached
  have other : (0 : ThreadId) ≠ 1 := by decide
  have done := claimed _ w _ (.autoStart other) taken returned 0 (by simp [promised])
  rw [executed] at done
  cases done

end TcFrame.Loop
