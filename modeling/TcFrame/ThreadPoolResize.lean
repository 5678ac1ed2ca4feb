import TcFrame.ThreadPool

/-! How many workers Resize leaves. It grows by the difference to the stored target, which
is what the call before asked for; a deferred shrink lowers the target and not the number
of workers. -/
namespace TcFrame.ThreadPool
open Machine

/- Calls of Resize one after another, as sums: each stores its size as the target and adds
what the size lies above the target before it. -/
def adds (x : Nat × Nat) (size : Nat) : Nat × Nat := (size,x.2 + (size - x.1))

def tally (first : Nat) (sizes : List Nat) : Nat × Nat := sizes.foldl adds (first,first)

def largest (first : Nat) (sizes : List Nat) : Nat := sizes.foldl max first

/- Every size above the one before it comes when that one is the largest so far. -/
def growsFromTop : Nat → Nat → List Nat → Prop
  | _, _, [] => True
  | last, top, size :: rest => (last < size → last = top) ∧ growsFromTop size (max top size) rest

theorem largestBelow {last top total more : Nat} (sizes : List Nat) (within : last ≤ top) (above : top + more ≤ total) :
    sizes.foldl max top + more ≤ (sizes.foldl adds (last,total)).2 := by
  induction sizes generalizing last top total with
  | nil => exact above
  | cons size rest ih => exact ih (by omega) (by simp only; omega)

/- What was added too much once stays. -/
theorem addsIff {last top : Nat} (sizes : List Nat) (within : last ≤ top) :
    (sizes.foldl adds (last,top)).2 = sizes.foldl max top ↔ growsFromTop last top sizes := by
  induction sizes generalizing last top with
  | nil => exact iff_of_true rfl trivial
  | cons size rest ih =>
    by_cases grows : last < size → last = top
    · have exact_ : top + (size - last) = max top size := by omega
      have next := @ih size (max top size) (Nat.le_max_right _ _)
      rw [List.foldl_cons, List.foldl_cons, growsFromTop, ← next, adds, exact_]
      exact ⟨fun h => ⟨grows,h⟩,fun h => h.2⟩
    · have over_ : max top size + 1 ≤ top + (size - last) := by omega
      have excess := largestBelow rest (Nat.le_max_right top size) over_
      refine iff_of_false (fun same => ?_) (fun h => grows h.1)
      exact Nat.ne_of_gt (Nat.lt_of_succ_le excess) same

theorem tallyIff (first : Nat) (sizes : List Nat) :
    (tally first sizes).2 = largest first sizes ↔ growsFromTop first first sizes := addsIff sizes (Nat.le_refl _)

theorem largestTally (first : Nat) (sizes : List Nat) : largest first sizes ≤ (tally first sizes).2 :=
  @largestBelow first first first 0 sizes (Nat.le_refl first) (Nat.le_refl first)

theorem tallySnoc (first : Nat) (sizes : List Nat) (size : Nat) :
    tally first (sizes ++ [size]) = adds (tally first sizes) size := by
  rw [tally, List.foldl_append]
  rfl

def CallPc.resizing : CallPc → Bool
  | .resizeTest _ | .resizeLoad _ | .resizeStore _ _ | .resizeLock _ | .resizeSpawn _ | .resizeUnlock => true
  | _ => false

def CallPc.stopping : CallPc → Bool
  | .shutdownExchange | .shutdownNotify | .shutdownLock | .shutdownPurge | .shutdownUnlock _ | .shutdownJoin _ => true
  | _ => false

/- The target and the number of workers that a thread leaves when its call is done. -/
def CallPc.leaves (target workers : Nat) : CallPc → Nat × Nat
  | .resizeTest num | .resizeLoad num => adds (target,workers) num
  | .resizeStore num old => (num,workers + (num - old))
  | .resizeLock add | .resizeSpawn add => (target,workers + add)
  | _ => (target,workers)

def Pool.leaves (p : Pool) (t : ThreadId) : Nat × Nat := (p.calls t).leaves p.targetThreadNum p.workers.length

/- A call of Resize: who makes it, for which size, and how many workers it finds. -/
structure Request where
  thread : ThreadId
  size : Nat
  found : Nat
  deriving DecidableEq, Repr

def getThreadNum (p : Pool) : Nat := p.workers.length

def noteResize (p : Pool) (a : Action) (_ : Pool) (requests : List Request) : List Request :=
  match a with
  | .resize t num => requests ++ [⟨t,num,getThreadNum p⟩]
  | _ => requests

/- No call of Resize is under way. -/
def Settled (x : Pool × List Request) : Prop := ∀ r ∈ x.2, (x.1.calls r.thread).resizing = false

instance (x : Pool × List Request) : Decidable (Settled x) := by unfold Settled; infer_instance

/- The calls of Resize come one after another, from any threads, and the pool is not shut down. -/
def oneByOne (x : Pool × List Request) : Action → Prop
  | .shutdown _ => False
  | .resize _ _ => Settled x
  | _ => True

instance (x : Pool × List Request) (a : Action) : Decidable (oneByOne x a) := by cases a <;> unfold oneByOne <;> infer_instance

/- The number of workers is the largest size asked for, and a Resize to at least the
workers it found left as many as it asked for. -/
structure Sized (first : Nat) (p : Pool) (requests : List Request) : Prop where
  reached : getThreadNum p = largest first (requests.map Request.size)
  last : ∀ earlier r, requests = earlier ++ [r] → r.found ≤ r.size → getThreadNum p = r.size

/- The calls so far add up, with what the one under way has yet to do. -/
structure Booked (first : Nat) (x : Pool × List Request) : Prop where
  runs : x.1.isRunning = true
  quiet : ∀ t, (x.1.calls t).stopping = false
  known : ∀ t, (x.1.calls t).resizing = true → ∃ r ∈ x.2, r.thread = t
  alone : ∀ t u, (x.1.calls t).resizing = true → (x.1.calls u).resizing = true → t = u
  busy : ∀ t, (x.1.calls t).resizing = true → x.1.leaves t = tally first (x.2.map Request.size)
  rest : Settled x → (x.1.targetThreadNum,x.1.workers.length) = tally first (x.2.map Request.size)
  found : ∀ earlier r, x.2 = earlier ++ [r] → largest first (earlier.map Request.size) ≤ r.found

theorem leavesIdle {pc : CallPc} (idle : pc.resizing = false) (target workers : Nat) :
    pc.leaves target workers = (target,workers) := by
  cases pc <;> first | rfl | cases idle

theorem leavesSetCall (p : Pool) (t : ThreadId) (pc : CallPc) :
    (p.setCall t pc).leaves t = pc.leaves p.targetThreadNum p.workers.length := by
  rw [Pool.leaves, Pool.callsSetCall, Function.update_self]
  rfl

theorem leavesHere {p : Pool} {t : ThreadId} {pc : CallPc} (here : (p.threads t).call = pc) :
    p.leaves t = pc.leaves p.targetThreadNum p.workers.length := by
  rw [Pool.leaves, Pool.calls, here]

/- A step of Resize leaves what the call will have left at its end. -/
theorem leavesOwn {p p' : Pool} {t pick : ThreadId} (runs : p.isRunning = true) (resizes : (p.calls t).resizing = true)
    (taken : step p (.work t pick) = some p') : p'.leaves t = p.leaves t := by
  have busy : (p.threads t).call ≠ .idle := fun idle => by rw [Pool.calls, idle] at resizes; cases resizes
  rw [step, if_neg busy] at taken
  cases here : (p.threads t).call with
  | resizeTest num =>
    simp only [inCall, here, runs, if_true, Option.some.injEq] at taken
    rw [← taken, leavesSetCall, leavesHere here]
    rfl
  | resizeLoad num =>
    simp only [inCall, here, Option.some.injEq] at taken
    rw [← taken, leavesSetCall, leavesHere here]
    split
    · rename_i same
      simp [CallPc.leaves, adds, same]
    · rfl
  | resizeStore num old =>
    simp only [inCall, here, Option.some.injEq] at taken
    rw [← taken, leavesSetCall, leavesHere here]
    split
    · rfl
    · rename_i shrinks
      simp [CallPc.leaves, Nat.sub_eq_zero_of_le (Nat.le_of_not_lt shrinks)]
  | resizeLock add =>
    simp only [inCall, here] at taken
    split at taken <;> cases taken
    rw [leavesSetCall, leavesHere here]
    rfl
  | resizeSpawn add =>
    cases add with
    | zero =>
      simp only [inCall, here, Option.some.injEq] at taken
      rw [← taken, leavesSetCall, leavesHere here]
      rfl
    | succ add =>
      simp only [inCall, here] at taken
      split at taken <;> cases taken
      rw [leavesSetCall, leavesHere here]
      simp only [CallPc.leaves, Pool.setLoop, List.length_append, List.length_singleton]
      rw [Nat.add_assoc, Nat.add_comm 1]
  | resizeUnlock =>
    simp only [inCall, here, Option.some.injEq] at taken
    rw [← taken, leavesSetCall, leavesHere here]
    rfl
  | _ =>
    rw [Pool.calls, here] at resizes
    cases resizes

/- The other steps, outside Shutdown, leave the flag, the target and the workers alone. -/
theorem sizeKept {p p' : Pool} {a : Action} (taken : step p a = some p') (other : (p.calls a.thread).resizing = false)
    (quiet : (p.calls a.thread).stopping = false) :
    p'.targetThreadNum = p.targetThreadNum ∧ p'.workers = p.workers := by
  cases stepCases taken with
  | purge here =>
    rw [Pool.calls, Action.thread, here] at quiet
    cases quiet
  | store here | spawn here =>
    rw [Pool.calls, Action.thread, here] at other
    cases other
  | _ => exact ⟨rfl,rfl⟩

theorem runsKept {p p' : Pool} {a : Action} (taken : step p a = some p') (quiet : (p.calls a.thread).stopping = false) :
    p'.isRunning = p.isRunning := by
  cases stepCases taken with
  | clear here =>
    rw [Pool.calls, Action.thread, here] at quiet
    cases quiet
  | _ => rfl

theorem idleWork {p p' : Pool} {t pick : ThreadId} (taken : step p (.work t pick) = some p') (idle : p.calls t = .idle) :
    p'.calls = p.calls := by
  cases stepCases taken with
  | loopMove | take | begin_ | finish => exact Pool.callsSetLoop _ _ _
  | callMove moves =>
    rw [show (p.threads t).call = .idle from idle] at moves
    cases moves
  | throw_ here | push here | notify here | clear here | again here | purge here | joined here | store here
  | spawn here => exact absurd (here.symm.trans idle) (by simp)

/- A call begins with the action that makes it. -/
inductive Begins : Action → ThreadId → CallPc → Prop where
  | commit {t task} : Begins (.commit t) t (.commitLock task)
  | shutdown {t} : Begins (.shutdown t) t .shutdownExchange
  | resize {t num} : Begins (.resize t num) t (.resizeTest num)

theorem callOrigin {p p' : Pool} {a : Action} (taken : step p a = some p') (u : ThreadId) :
    p'.calls u = p.calls u ∨ p.calls u ≠ .idle ∧ CallNext p p' u (p.calls u) (p'.calls u) ∨ Begins a u (p'.calls u) := by
  rcases callsStep taken u with same | ⟨self,next⟩
  · exact .inl same
  · by_cases idle : p.calls u = .idle
    · cases a with
      | work t pick =>
        obtain rfl : u = t := self
        exact .inl (congrFun (idleWork taken idle) u)
      | commit t | shutdown t | resize t =>
        cases stepCases taken
        rw [self, Pool.callsSetCall, Action.thread, Function.update_self]
        exact .inr (.inr (by constructor))
    · exact .inr (.inl ⟨idle,next⟩)

theorem resizingStep {p p' : Pool} {a : Action} (taken : step p a = some p') {u : ThreadId}
    (now : (p'.calls u).resizing = true) : (p.calls u).resizing = true ∨ ∃ num, a = .resize u num := by
  have origin := callOrigin taken u
  generalize p'.calls u = pc' at origin now
  rcases origin with same | ⟨busy,next⟩ | begins
  · rw [same] at now
    exact .inl now
  · generalize p.calls u = pc at next busy
    cases next with
    | move moves =>
      generalize p'.monitor = m at moves
      cases moves <;> first | exact .inl rfl | cases now
    | commit | shutdown | resize => exact absurd rfl busy
    | storeGrow | spawn => exact .inl rfl
    | _ => cases now
  · cases begins with
    | resize => exact .inr ⟨_,rfl⟩
    | _ => cases now

theorem stoppingStep {p p' : Pool} {a : Action} (taken : step p a = some p') {u : ThreadId}
    (now : (p'.calls u).stopping = true) : (p.calls u).stopping = true ∨ a = .shutdown u := by
  have origin := callOrigin taken u
  generalize p'.calls u = pc' at origin now
  rcases origin with same | ⟨busy,next⟩ | begins
  · rw [same] at now
    exact .inl now
  · generalize p.calls u = pc at next busy
    cases next with
    | move moves =>
      generalize p'.monitor = m at moves
      cases moves <;> first | exact .inl rfl | cases now
    | commit | shutdown | resize => exact absurd rfl busy
    | clear | purge => exact .inl rfl
    | _ => cases now
  · cases begins with
    | shutdown => exact .inr rfl
    | _ => cases now

theorem resizingWorks {p p' : Pool} {a : Action} (taken : step p a = some p')
    (resizes : (p.calls a.thread).resizing = true) : ∃ t pick, a = .work t pick := by
  cases stepCases taken with
  | commit may | shutdown may | resize may =>
    rw [Action.thread, Pool.calls, (mayCallCases may).1] at resizes
    cases resizes
  | _ => exact ⟨_,_,rfl⟩

theorem noneResizing {first : Nat} {x : Pool × List Request} (h : Booked first x) (settled : Settled x) (t : ThreadId) :
    (x.1.calls t).resizing = false := by
  by_contra busy
  have resizes : (x.1.calls t).resizing = true := by simpa using busy
  obtain ⟨r,member,same⟩ := h.known t resizes
  rw [← same, settled r member] at resizes
  cases resizes

theorem quietStep {first : Nat} {x : Pool × List Request} {p' : Pool} {a : Action} (h : Booked first x)
    (ok : oneByOne x a) (taken : step x.1 a = some p') (t : ThreadId) : (p'.calls t).stopping = false := by
  by_contra there
  rcases stoppingStep taken (by simpa using there) with before | begins
  · rw [h.quiet t] at before
    cases before
  · rw [begins] at ok
    exact ok

/- A call of Resize begins: the size asked for joins the sum. -/
theorem bookedResize {first : Nat} {p p' : Pool} {requests : List Request} {t : ThreadId} {num : Nat}
    (h : Booked first (p,requests)) (settled : Settled (p,requests)) (taken : step p (.resize t num) = some p') :
    Booked first (p',requests ++ [⟨t,num,p.workers.length⟩]) := by
  have none := noneResizing h settled
  have only : ∀ {u}, (p'.calls u).resizing = true → u = t := by
    intro u now
    rcases resizingStep taken now with before | ⟨_,same⟩
    · rw [none u] at before
      cases before
    · cases same
      rfl
  have total := h.rest settled
  have quiet := quietStep (a := .resize t num) h settled taken
  cases stepCases taken with
  | resize may =>
    have here : ((p.setCall t (.resizeTest num)).calls t) = .resizeTest num := by
      rw [Pool.callsSetCall, Function.update_self]
    refine ⟨h.runs,quiet,fun u now => ?_,fun u v now now' => ?_,fun u now => ?_,fun rest => ?_,fun earlier r same => ?_⟩
    · exact ⟨⟨t,num,p.workers.length⟩,List.mem_append_right _ List.mem_cons_self,(only now).symm⟩
    · rw [only now, only now']
    · rw [only now, leavesSetCall, List.map_append, List.map_singleton, tallySnoc, ← total]
      rfl
    · have ended := rest ⟨t,num,p.workers.length⟩ (List.mem_append_right _ List.mem_cons_self)
      rw [here] at ended
      cases ended
    · obtain ⟨before,now⟩ := List.append_inj' same rfl
      cases now
      rw [← before]
      calc largest first (requests.map Request.size) ≤ (tally first (requests.map Request.size)).2 := largestTally _ _
        _ = p.workers.length := by rw [← total]

theorem bookedKept {first : Nat} {p p' : Pool} {requests : List Request} {a : Action} (h : Booked first (p,requests))
    (ok : oneByOne (p,requests) a) (other : ∀ t num, a ≠ .resize t num) (taken : step p a = some p') :
    Booked first (p',requests) := by
  have before : ∀ {t}, (p'.calls t).resizing = true → (p.calls t).resizing = true :=
    fun now => (resizingStep taken now).resolve_right (fun begins => begins.elim (other _))
  have quiet := h.quiet a.thread
  refine ⟨(runsKept taken quiet).trans h.runs,quietStep h ok taken,fun t now => h.known t (before now),
    fun t u now now' => h.alone t u (before now) (before now'),fun t now => ?_,fun settled => ?_,h.found⟩
  · rw [← h.busy t (before now)]
    by_cases self : a.thread = t
    · obtain ⟨u,pick,works⟩ := resizingWorks taken (self ▸ before now)
      subst works
      cases self
      exact leavesOwn h.runs (before now) taken
    · have idle : (p.calls a.thread).resizing = false := by
        by_contra busy
        exact self (h.alone _ _ (by simpa using busy) (before now))
      obtain ⟨target,workers⟩ := sizeKept taken idle quiet
      have same := (callsStep taken t).resolve_right (fun moved => self moved.1.symm)
      simp only [Pool.leaves, target, workers, same]
  · by_cases busy : (p.calls a.thread).resizing = true
    · -- The call that was under way returns.
      obtain ⟨u,pick,works⟩ := resizingWorks taken busy
      subst works
      obtain ⟨r,member,same⟩ := h.known u busy
      have ended : (p'.calls u).resizing = false := by rw [← same]; exact settled r member
      calc (p'.targetThreadNum,p'.workers.length) = p'.leaves u := by rw [Pool.leaves, leavesIdle ended]
        _ = p.leaves u := leavesOwn h.runs busy taken
        _ = tally first (requests.map Request.size) := h.busy u busy
    · have idle : (p.calls a.thread).resizing = false := by simpa using busy
      obtain ⟨target,workers⟩ := sizeKept taken idle quiet
      have earlier : Settled (p,requests) := by
        intro r member
        by_cases self : r.thread = a.thread
        · rw [self]
          exact idle
        · rw [← (callsStep taken r.thread).resolve_right (fun moved => self moved.1)]
          exact settled r member
      rw [target, workers]
      exact h.rest earlier

theorem bookedStep {first : Nat} {x y : Pool × List Request} {a : Action} (h : Booked first x) (ok : oneByOne x a)
    (taken : recording step noteResize x a = some y) : Booked first y := by
  obtain ⟨p,requests⟩ := x
  obtain ⟨q,after⟩ := y
  obtain ⟨stepped,noted⟩ := recordingCases taken
  cases noted
  cases a with
  | resize t num => exact bookedResize h ok stepped
  | commit | shutdown | work => exact bookedKept h ok (fun _ _ same => nomatch same) stepped

theorem bookedConstructed (threadNum : Nat) : Booked threadNum (constructed threadNum,[]) := by
  have idle := constructedIdle threadNum
  refine ⟨rfl,fun t => by rw [idle]; rfl,fun t now => ?_,fun t u now => ?_,fun t now => ?_,fun _ => ?_,fun earlier r same => ?_⟩
  · rw [idle] at now
    cases now
  · rw [idle] at now
    cases now
  · rw [idle] at now
    cases now
  · simp [constructed, tally]
  · cases List.append_eq_nil_iff.mp same.symm |>.2

theorem bookedSized {first : Nat} {p : Pool} {requests : List Request} (h : Booked first (p,requests))
    (settled : Settled (p,requests)) : Sized first p requests ↔ growsFromTop first first (requests.map Request.size) := by
  have total : getThreadNum p = (tally first (requests.map Request.size)).2 := by
    rw [← h.rest settled]
    rfl
  rw [← tallyIff, ← total]
  refine ⟨fun sized => sized.reached,fun same => ⟨same,fun earlier r last room => ?_⟩⟩
  have within : largest first (earlier.map Request.size) ≤ r.size := Nat.le_trans (h.found earlier r last) room
  have ending : largest first (requests.map Request.size) = max (largest first (earlier.map Request.size)) r.size := by
    rw [last, List.map_append, largest, List.foldl_append]
    rfl
  rw [same, ending, Nat.max_eq_right within]

/- Between the calls the pool has the size asked for exactly if it never grew from a target
that lay below its largest size. -/
theorem sizedIff {threadNum : Nat} {as : List Action} {p : Pool} {requests : List Request}
    (ok : Throughout (recording step noteResize) oneByOne (constructed threadNum,[]) as)
    (reached : run (recording step noteResize) (constructed threadNum,[]) as = some (p,requests))
    (settled : Settled (p,requests)) :
    Sized threadNum p requests ↔ growsFromTop threadNum threadNum (requests.map Request.size) :=
  bookedSized (invariantWhen (fun _ _ _ => bookedStep) (bookedConstructed threadNum) ok reached) settled

/- Thread 9 resizes a pool of one worker to 2 and then to 1: thread 10 is hired and stays. -/
def growThenShrink : List Action :=
  [.resize 9 2,.work 9 0,.work 9 0,.work 9 0,.work 9 0,.work 9 10,.work 9 0,.work 9 0,
    .resize 9 1,.work 9 0,.work 9 0,.work 9 0]

theorem sizedIffGrown : ∃ p requests,
    run (recording step noteResize) (constructed 1,[]) growThenShrink = some (p,requests) ∧ p.workers = [0,10] ∧
      requests = [⟨9,2,1⟩,⟨9,1,2⟩] ∧ (Sized 1 p requests ↔ growsFromTop 1 1 [2,1]) := by
  have ok : Throughout (recording step noteResize) oneByOne (constructed 1,[]) growThenShrink := by decide
  have reached : ∃ p, run (recording step noteResize) (constructed 1,[]) growThenShrink =
      some (p,[⟨9,2,1⟩,⟨9,1,2⟩]) ∧ p.workers = [0,10] ∧ (p.calls 9).resizing = false := ⟨_,rfl,rfl,rfl⟩
  obtain ⟨p,reached,workers,returned⟩ := reached
  have settled : Settled (p,[⟨9,2,1⟩,⟨9,1,2⟩]) := by simp [Settled, returned]
  exact ⟨p,_,reached,workers,rfl,sizedIff ok reached settled⟩

/- Thread 9 resizes a pool of four workers to 2 and then to 4: two more workers come. -/
def shrinkThenGrow : List Action :=
  [.resize 9 2,.work 9 0,.work 9 0,.work 9 0,
    .resize 9 4,.work 9 0,.work 9 0,.work 9 0,.work 9 0,.work 9 10,.work 9 11,.work 9 0,.work 9 0]

theorem sizedOvershot : ∃ p requests,
    run (recording step noteResize) (constructed 4,[]) shrinkThenGrow = some (p,requests) ∧
      Throughout (recording step noteResize) oneByOne (constructed 4,[]) shrinkThenGrow ∧ Settled (p,requests) ∧
      requests.map Request.size = [2,4] ∧ getThreadNum p = 6 ∧ ¬ Sized 4 p requests := by
  have ok : Throughout (recording step noteResize) oneByOne (constructed 4,[]) shrinkThenGrow := by decide
  have reached : ∃ p, run (recording step noteResize) (constructed 4,[]) shrinkThenGrow =
      some (p,[⟨9,2,4⟩,⟨9,4,4⟩]) ∧ getThreadNum p = 6 ∧ (p.calls 9).resizing = false := ⟨_,rfl,rfl,rfl⟩
  obtain ⟨p,reached,six,returned⟩ := reached
  have settled : Settled (p,[⟨9,2,4⟩,⟨9,4,4⟩]) := by simp [Settled, returned]
  refine ⟨p,_,reached,ok,settled,rfl,six,fun sized => ?_⟩
  have four : getThreadNum p = 4 := sized.reached
  rw [six] at four
  cases four

end TcFrame.ThreadPool
