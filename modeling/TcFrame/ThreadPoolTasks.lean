import TcFrame.ThreadPool
import Mathlib.Data.List.Nodup

/-! What becomes of the tasks of a pool: each belongs to one Commit, which pushes it or
throws, and from the queue it goes to one worker, which runs it once. -/
namespace TcFrame.ThreadPool

/- The task of a Commit that has not pushed it, and of one that has. -/
def CallPc.asks : CallPc → Option TaskId
  | .commitLock task | .commitTest task | .commitThrow task | .commitPush task => some task
  | _ => none

def CallPc.posts : CallPc → Option TaskId
  | .commitUnlock task | .commitNotify task => some task
  | _ => none

/- The task a worker has taken and not finished. -/
def LoopPc.holds : LoopPc → Option TaskId
  | .unlock task | .run task | .running task => some task
  | _ => none

/- The numbers of the tasks: each belongs to one Commit call, which pushes it or throws. -/
structure Numbered (commits : Nat) (pushed returned thrown : List TaskId) (calls : ThreadId → CallPc) : Prop where
  fresh : ∀ t k, (calls t).asks = some k → k < commits ∧ k ∉ pushed ∧ k ∉ thrown
  one : ∀ t u k, (calls t).asks = some k → (calls u).asks = some k → t = u
  known : ∀ k, k ∈ pushed ∨ k ∈ thrown → k < commits
  apart : ∀ k ∈ thrown, k ∉ pushed
  once : pushed.Nodup
  posted : ∀ t k, (calls t).posts = some k → k ∈ pushed
  back : ∀ k ∈ returned, k ∈ pushed

/- The tasks on their way: in the queue, with one worker, or finished. -/
structure Worked (pushed tasks executed finished : List TaskId) (loops : ThreadId → LoopPc) : Prop where
  queue : tasks.Sublist pushed
  held : ∀ t k, (loops t).holds = some k → k ∈ pushed ∧ k ∉ tasks ∧ k ∉ finished
  one : ∀ t u k, (loops t).holds = some k → (loops u).holds = some k → t = u
  begun : ∀ k, k ∈ executed ↔ k ∈ finished ∨ ∃ t, loops t = .running k
  once : executed.Nodup
  done : ∀ k ∈ finished, k ∈ pushed ∧ k ∉ tasks

section Numbered
variable {commits : Nat} {pushed returned thrown : List TaskId} {calls : ThreadId → CallPc} {t : ThreadId} {pc : CallPc}

theorem numberedMove (h : Numbered commits pushed returned thrown calls)
    (asks : ∀ k, pc.asks = some k → (calls t).asks = some k) (posts : ∀ k, pc.posts = some k → k ∈ pushed) :
    Numbered commits pushed returned thrown (Function.update calls t pc) := by
  have before : ∀ u k, (Function.update calls t pc u).asks = some k → (calls u).asks = some k := by
    intro u k asked
    rw [Function.update_apply] at asked
    split at asked
    · rename_i here
      rw [here]
      exact asks k asked
    · exact asked
  refine ⟨fun u k asked => h.fresh u k (before u k asked),
    fun u v k asked other => h.one u v k (before u k asked) (before v k other),h.known,h.apart,h.once,?_,h.back⟩
  intro u k posted
  rw [Function.update_apply] at posted
  split at posted
  · exact posts k posted
  · exact h.posted u k posted

theorem numberedIdle (h : Numbered commits pushed returned thrown calls) :
    Numbered commits pushed returned thrown (Function.update calls t .idle) :=
  numberedMove h (fun _ none => nomatch none) (fun _ none => nomatch none)

theorem numberedCommit (h : Numbered commits pushed returned thrown calls) :
    Numbered (commits + 1) pushed returned thrown (Function.update calls t (.commitLock commits)) := by
  have unused : ∀ u, (calls u).asks ≠ some commits := fun u asked => Nat.lt_irrefl _ (h.fresh u commits asked).1
  have before : ∀ u k, (Function.update calls t (.commitLock commits) u).asks = some k →
      u = t ∧ k = commits ∨ (calls u).asks = some k := by
    intro u k asked
    rw [Function.update_apply] at asked
    split at asked
    · exact .inl ⟨by assumption,(Option.some.inj asked).symm⟩
    · exact .inr asked
  have grown : ∀ k, k ∈ pushed ∨ k ∈ thrown → k < commits + 1 := fun k there => Nat.lt_succ_of_lt (h.known k there)
  refine ⟨fun u k asked => ?_,fun u v k asked other => ?_,grown,h.apart,h.once,fun u k posted => ?_,h.back⟩
  · rcases before u k asked with ⟨_,new⟩ | old
    · rw [new]
      exact ⟨Nat.lt_succ_self _,fun there => Nat.lt_irrefl _ (h.known _ (.inl there)),
        fun there => Nat.lt_irrefl _ (h.known _ (.inr there))⟩
    · obtain ⟨small,out,kept⟩ := h.fresh u k old
      exact ⟨Nat.lt_succ_of_lt small,out,kept⟩
  · rcases before u k asked with ⟨mine,new⟩ | old
    · rcases before v k other with ⟨yours,_⟩ | old'
      · rw [mine, yours]
      · exact absurd (new ▸ old') (unused v)
    · rcases before v k other with ⟨_,new⟩ | old'
      · exact absurd (new ▸ old) (unused u)
      · exact h.one u v k old old'
  · rw [Function.update_apply] at posted
    split at posted
    · cases posted
    · exact h.posted u k posted

theorem numberedThrow {k : TaskId} (h : Numbered commits pushed returned thrown calls) (here : calls t = .commitThrow k) :
    Numbered commits pushed returned (thrown ++ [k]) (Function.update calls t .idle) := by
  have asked : (calls t).asks = some k := by rw [here]; rfl
  obtain ⟨small,out,_⟩ := h.fresh t k asked
  have left := numberedIdle (t := t) h
  refine ⟨fun u j ask => ?_,left.one,?_,?_,h.once,left.posted,h.back⟩
  · obtain ⟨low,outside,kept⟩ := left.fresh u j ask
    refine ⟨low,outside,fun there => ?_⟩
    rcases List.mem_append.mp there with old | new
    · exact kept old
    · rw [List.mem_singleton.mp new] at ask
      rw [Function.update_apply] at ask
      split at ask
      · cases ask
      · rename_i other
        exact other (h.one u t k ask asked)
  · intro j there
    rcases there with inside | there
    · exact h.known j (.inl inside)
    · rcases List.mem_append.mp there with old | new
      · exact h.known j (.inr old)
      · rw [List.mem_singleton.mp new]
        exact small
  · intro j there
    rcases List.mem_append.mp there with old | new
    · exact h.apart j old
    · rw [List.mem_singleton.mp new]
      exact out

theorem numberedPush {k : TaskId} (h : Numbered commits pushed returned thrown calls) (here : calls t = .commitPush k) :
    Numbered commits (pushed ++ [k]) returned thrown (Function.update calls t (.commitUnlock k)) := by
  have asked : (calls t).asks = some k := by rw [here]; rfl
  obtain ⟨small,out,kept⟩ := h.fresh t k asked
  have before : ∀ u j, (Function.update calls t (.commitUnlock k) u).asks = some j → u ≠ t ∧ (calls u).asks = some j := by
    intro u j ask
    rw [Function.update_apply] at ask
    split at ask
    · cases ask
    · exact ⟨by assumption,ask⟩
  refine ⟨fun u j ask => ?_,fun u v j ask other => h.one u v j (before u j ask).2 (before v j other).2,?_,?_,?_,?_,?_⟩
  · obtain ⟨other,old⟩ := before u j ask
    obtain ⟨low,outside,unthrown⟩ := h.fresh u j old
    refine ⟨low,fun there => ?_,unthrown⟩
    rcases List.mem_append.mp there with inside | new
    · exact outside inside
    · rw [List.mem_singleton.mp new] at old
      exact other (h.one u t k old asked)
  · rintro j (there | there)
    · rcases List.mem_append.mp there with inside | new
      · exact h.known j (.inl inside)
      · rw [List.mem_singleton.mp new]
        exact small
    · exact h.known j (.inr there)
  · intro j there inside
    rcases List.mem_append.mp inside with old | new
    · exact h.apart j there old
    · rw [List.mem_singleton.mp new] at there
      exact kept there
  · rw [← List.concat_eq_append]
    exact List.Nodup.concat out h.once
  · intro u j posted
    rw [Function.update_apply] at posted
    split at posted
    · cases posted
      exact List.mem_append_right _ List.mem_cons_self
    · exact List.mem_append_left _ (h.posted u j posted)
  · exact fun j there => List.mem_append_left _ (h.back j there)

theorem numberedReturn {k : TaskId} (h : Numbered commits pushed returned thrown calls) (here : calls t = .commitNotify k) :
    Numbered commits pushed (returned ++ [k]) thrown (Function.update calls t .idle) := by
  have left := numberedIdle (t := t) h
  refine ⟨left.fresh,left.one,h.known,h.apart,h.once,left.posted,fun j there => ?_⟩
  rcases List.mem_append.mp there with old | new
  · exact h.back j old
  · rw [List.mem_singleton.mp new]
    exact h.posted t k (by rw [here]; rfl)

end Numbered

section Worked
variable {pushed tasks executed finished : List TaskId} {loops : ThreadId → LoopPc} {t : ThreadId} {pc : LoopPc}

theorem runningHolds {k : TaskId} (runs : pc = .running k) : pc.holds = some k := by rw [runs]; rfl

theorem workedMove (h : Worked pushed tasks executed finished loops) (holds : pc.holds = (loops t).holds)
    (running : ∀ k, pc = .running k ↔ loops t = .running k) :
    Worked pushed tasks executed finished (Function.update loops t pc) := by
  have same : ∀ u, (Function.update loops t pc u).holds = (loops u).holds := by
    intro u
    rw [Function.update_apply]
    split
    · rename_i here
      rw [here, holds]
    · rfl
  have runs : ∀ u k, Function.update loops t pc u = .running k ↔ loops u = .running k := by
    intro u k
    rw [Function.update_apply]
    split
    · rename_i here
      rw [here, running]
    · rfl
  refine ⟨h.queue,fun u k held => h.held u k ((same u).symm.trans held),
    fun u v k held other => h.one u v k ((same u).symm.trans held) ((same v).symm.trans other),?_,h.once,h.done⟩
  intro k
  rw [h.begun]
  exact or_congr Iff.rfl (exists_congr (fun u => (runs u k).symm))

theorem workedTake {k : TaskId} {rest : List TaskId} (h : Worked pushed tasks executed finished loops)
    (single : pushed.Nodup) (head : tasks = k :: rest) (here : loops t = .take) :
    Worked pushed rest executed finished (Function.update loops t (.unlock k)) := by
  have queued : k ∈ tasks := by rw [head]; exact List.mem_cons_self
  have left : ∀ j, j ∈ rest → j ∈ tasks := fun j member => by rw [head]; exact List.mem_cons_of_mem _ member
  have gone : k ∉ rest := by
    have nodup := single.sublist h.queue
    rw [head] at nodup
    exact (List.nodup_cons.mp nodup).1
  have nobody : ∀ u, (loops u).holds ≠ some k := fun u held => (h.held u k held).2.1 queued
  have cases_ : ∀ u j, (Function.update loops t (.unlock k) u).holds = some j →
      u = t ∧ j = k ∨ (loops u).holds = some j := by
    intro u j held
    rw [Function.update_apply] at held
    split at held
    · exact .inl ⟨by assumption,(Option.some.inj held).symm⟩
    · exact .inr held
  refine ⟨?_,fun u j held => ?_,fun u v j held other => ?_,fun j => ?_,h.once,fun j there => ?_⟩
  · have queue := h.queue
    rw [head] at queue
    exact (List.sublist_cons_self k rest).trans queue
  · rcases cases_ u j held with ⟨_,new⟩ | old
    · rw [new]
      exact ⟨h.queue.subset queued,gone,fun there => (h.done k there).2 queued⟩
    · obtain ⟨inside,out,open_⟩ := h.held u j old
      exact ⟨inside,fun there => out (left j there),open_⟩
  · rcases cases_ u j held with ⟨mine,new⟩ | old
    · rcases cases_ v j other with ⟨yours,_⟩ | old'
      · rw [mine, yours]
      · exact absurd (new ▸ old') (nobody v)
    · rcases cases_ v j other with ⟨_,new⟩ | old'
      · exact absurd (new ▸ old) (nobody u)
      · exact h.one u v j old old'
  · rw [h.begun]
    refine or_congr Iff.rfl (exists_congr (fun u => ?_))
    rw [Function.update_apply]
    split
    · rename_i self
      rw [self, here]
      simp
    · rfl
  · exact ⟨(h.done j there).1,fun inside => (h.done j there).2 (left j inside)⟩

theorem workedBegin {k : TaskId} (h : Worked pushed tasks executed finished loops) (here : loops t = .run k) :
    Worked pushed tasks (executed ++ [k]) finished (Function.update loops t (.running k)) := by
  have mine : (loops t).holds = some k := by rw [here]; rfl
  have unbegun : k ∉ executed := by
    intro there
    rcases (h.begun k).mp there with done | ⟨u,runs⟩
    · exact (h.held t k mine).2.2 done
    · rw [h.one u t k (runningHolds runs) mine, here] at runs
      cases runs
  have same : ∀ u, (Function.update loops t (.running k) u).holds = (loops u).holds := by
    intro u
    rw [Function.update_apply]
    split
    · rename_i self
      rw [self, mine]
      rfl
    · rfl
  refine ⟨h.queue,fun u j held => h.held u j ((same u).symm.trans held),
    fun u v j held other => h.one u v j ((same u).symm.trans held) ((same v).symm.trans other),fun j => ?_,?_,h.done⟩
  · rw [List.mem_append, h.begun, List.mem_singleton]
    constructor
    · rintro ((done | ⟨u,runs⟩) | new)
      · exact .inl done
      · refine .inr ⟨u,?_⟩
        rw [Function.update_apply]
        split
        · rename_i self
          rw [self, here] at runs
          cases runs
        · exact runs
      · exact .inr ⟨t,by rw [Function.update_self, new]⟩
    · rintro (done | ⟨u,runs⟩)
      · exact .inl (.inl done)
      · rw [Function.update_apply] at runs
        split at runs
        · cases runs
          exact .inr rfl
        · exact .inl (.inr ⟨u,runs⟩)
  · rw [← List.concat_eq_append]
    exact List.Nodup.concat unbegun h.once

theorem workedFinish {k : TaskId} (h : Worked pushed tasks executed finished loops) (here : loops t = .running k) :
    Worked pushed tasks executed (finished ++ [k]) (Function.update loops t .lock) := by
  have mine : (loops t).holds = some k := runningHolds here
  have before : ∀ u j, (Function.update loops t .lock u).holds = some j → u ≠ t ∧ (loops u).holds = some j := by
    intro u j held
    rw [Function.update_apply] at held
    split at held
    · cases held
    · exact ⟨by assumption,held⟩
  refine ⟨h.queue,fun u j held => ?_,fun u v j held other => h.one u v j (before u j held).2 (before v j other).2,
    fun j => ?_,h.once,fun j there => ?_⟩
  · obtain ⟨other,old⟩ := before u j held
    obtain ⟨inside,out,open_⟩ := h.held u j old
    refine ⟨inside,out,fun there => ?_⟩
    rcases List.mem_append.mp there with done | new
    · exact open_ done
    · rw [List.mem_singleton.mp new] at old
      exact other (h.one u t k old mine)
  · rw [h.begun, List.mem_append, List.mem_singleton]
    constructor
    · rintro (done | ⟨u,runs⟩)
      · exact .inl (.inl done)
      · by_cases self : u = t
        · rw [self, here] at runs
          cases runs
          exact .inl (.inr rfl)
        · exact .inr ⟨u,by rw [Function.update_of_ne self, runs]⟩
    · rintro ((done | new) | ⟨u,runs⟩)
      · exact .inl done
      · exact .inr ⟨t,by rw [here, new]⟩
      · rw [Function.update_apply] at runs
        split at runs
        · cases runs
        · exact .inr ⟨u,runs⟩
  · rcases List.mem_append.mp there with done | new
    · exact h.done j done
    · rw [List.mem_singleton.mp new]
      exact ⟨(h.held t k mine).1,(h.held t k mine).2.1⟩

theorem workedPush {k : TaskId} (h : Worked pushed tasks executed finished loops) (new : k ∉ pushed) :
    Worked (pushed ++ [k]) (tasks ++ [k]) executed finished loops := by
  have apart : ∀ j, j ∈ pushed → j ∉ tasks → j ∉ tasks ++ [k] := by
    intro j inside out there
    rcases List.mem_append.mp there with old | last
    · exact out old
    · rw [List.mem_singleton.mp last] at inside
      exact new inside
  refine ⟨h.queue.append (List.Sublist.refl [k]),fun u j held => ?_,h.one,h.begun,h.once,fun j there => ?_⟩
  · obtain ⟨inside,out,open_⟩ := h.held u j held
    exact ⟨List.mem_append_left _ inside,apart j inside out,open_⟩
  · obtain ⟨inside,out⟩ := h.done j there
    exact ⟨List.mem_append_left _ inside,apart j inside out⟩

theorem workedPurge (h : Worked pushed tasks executed finished loops) : Worked pushed [] executed finished loops :=
  ⟨List.nil_sublist _,fun u j held => ⟨(h.held u j held).1,List.not_mem_nil,(h.held u j held).2.2⟩,h.one,h.begun,h.once,
    fun j there => ⟨(h.done j there).1,List.not_mem_nil⟩⟩

end Worked

theorem moveAsks {p : Pool} {t : ThreadId} {pc pc' : CallPc} {m : Monitor ThreadId} (moves : CallMove p t pc pc' m)
    {k : TaskId} (asks : pc'.asks = some k) : pc.asks = some k := by
  cases moves <;> exact asks

theorem movePosts {p : Pool} {t : ThreadId} {pc pc' : CallPc} {m : Monitor ThreadId} (moves : CallMove p t pc pc' m)
    {k : TaskId} (posts : pc'.posts = some k) : pc.posts = some k := by
  cases moves <;> exact posts

theorem moveHolds {p : Pool} {t : ThreadId} {pc pc' : LoopPc} {m : Monitor ThreadId} (moves : LoopMove p t pc pc' m) :
    pc'.holds = pc.holds ∧ ∀ k, pc' = .running k ↔ pc = .running k := by
  cases moves <;> exact ⟨rfl,fun _ => by simp⟩

structure Tasks (p : Pool) : Prop where
  numbered : Numbered p.commits p.pushed p.returned p.thrown p.calls
  worked : Worked p.pushed p.tasks p.executed p.finished p.loops

theorem numberedStep {p p' : Pool} {a : Action} (h : Tasks p) (taken : step p a = some p') :
    Numbered p'.commits p'.pushed p'.returned p'.thrown p'.calls := by
  have quiet : ∀ {t pc}, CallPc.asks pc = none → CallPc.posts pc = none →
      Numbered p.commits p.pushed p.returned p.thrown (Function.update p.calls t pc) := by
    intro t pc asks posts
    exact numberedMove h.numbered (fun k asked => by rw [asks] at asked; cases asked)
      (fun k posted => by rw [posts] at posted; cases posted)
  cases stepCases taken with
  | loopMove | take | begin_ | finish =>
    rw [Pool.callsSetLoop]
    exact h.numbered
  | callMove moves =>
    rw [Pool.callsSetCall]
    exact numberedMove h.numbered (fun k asks => moveAsks moves asks)
      (fun k posts => h.numbered.posted _ k (movePosts moves posts))
  | commit may =>
    rw [Pool.callsSetCall]
    exact numberedCommit h.numbered
  | throw_ here =>
    rw [Pool.callsSetCall]
    exact numberedThrow h.numbered here
  | push here =>
    rw [Pool.callsSetCall]
    exact numberedPush h.numbered here
  | notify here =>
    rw [Pool.callsSetCall]
    exact numberedReturn h.numbered here
  | shutdown | resize | clear | again | purge | joined =>
    rw [Pool.callsSetCall]
    exact quiet rfl rfl
  | store here next =>
    rw [Pool.callsSetCall]
    exact quiet (by rw [next]; split <;> rfl) (by rw [next]; split <;> rfl)
  | spawn here new other =>
    rw [Pool.callsSetCall, Pool.callsSetLoop]
    exact quiet rfl rfl

theorem workedStep {p p' : Pool} {a : Action} (h : Tasks p) (taken : step p a = some p') :
    Worked p'.pushed p'.tasks p'.executed p'.finished p'.loops := by
  cases stepCases taken with
  | loopMove idle moves =>
    obtain ⟨holds,running⟩ := moveHolds moves
    rw [Pool.loopsSetLoop]
    exact workedMove h.worked holds running
  | take idle here head =>
    rw [Pool.loopsSetLoop]
    exact workedTake h.worked h.numbered.once head here
  | begin_ idle here =>
    rw [Pool.loopsSetLoop]
    exact workedBegin h.worked here
  | finish idle here =>
    rw [Pool.loopsSetLoop]
    exact workedFinish h.worked here
  | @push t pick task here =>
    rw [Pool.loopsSetCall]
    have asks : (p.calls t).asks = some task := by rw [Pool.calls, here]; rfl
    exact workedPush h.worked (h.numbered.fresh _ _ asks).2.1
  | purge here =>
    rw [Pool.loopsSetCall]
    exact workedPurge h.worked
  | callMove | commit | shutdown | resize | throw_ | notify | clear | again | joined | store =>
    rw [Pool.loopsSetCall]
    exact h.worked
  | @spawn t pick add here new other =>
    have out : p.loops pick = .outside := by rw [Pool.loops, new]
    have hired : Worked p.pushed p.tasks p.executed p.finished (Function.update p.loops pick .lock) :=
      workedMove h.worked (by rw [out]; rfl) (fun k => by simp [out])
    rw [Pool.loopsSetCall, Pool.loopsSetLoop]
    exact hired

theorem tasksStep {p p' : Pool} {a : Action} (h : Tasks p) (taken : step p a = some p') : Tasks p' :=
  ⟨numberedStep h taken,workedStep h taken⟩

theorem tasksConstructed (threadNum : Nat) : Tasks (constructed threadNum) := by
  have idle := constructedIdle threadNum
  have empty : ∀ t, ((constructed threadNum).loops t).holds = none ∧ ∀ k, (constructed threadNum).loops t ≠ .running k := by
    intro t
    simp only [Pool.loops, constructed]
    split <;> simp [LoopPc.holds]
  refine ⟨⟨fun t k asks => ?_,fun t u k asks => ?_,?_,?_,List.nodup_nil,fun t k posts => ?_,?_⟩,
    ⟨List.Sublist.refl [],fun t k held => ?_,fun t u k held => ?_,fun k => ?_,List.nodup_nil,?_⟩⟩
  · rw [idle] at asks
    cases asks
  · rw [idle] at asks
    cases asks
  · simp [constructed]
  · simp [constructed]
  · rw [idle] at posts
    cases posts
  · simp [constructed]
  · rw [(empty t).1] at held
    cases held
  · rw [(empty t).1] at held
    cases held
  · simp [constructed]
    intro t
    simpa [constructed] using (empty t).2 k
  · simp [constructed]

end TcFrame.ThreadPool
