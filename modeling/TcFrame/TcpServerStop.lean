import TcFrame.TcpServerThreads

/-! The graceful stop. What the deadline's handler does not take out of the table it
closes by force, and the removal behind ForceClose finds no descriptor any more. -/
namespace TcFrame.TcpServer
open Endpoint Machine

theorem noConnectionsIff {w : World} : w.noConnections = true ↔ ∀ fd, w.lookup fd = none := by
  simp only [World.noConnections, List.isEmpty_iff, List.eq_nil_iff_forall_not_mem]
  constructor
  · intro empty fd
    refine Option.eq_none_iff_forall_not_mem.mpr (fun c found => ?_)
    exact empty _ (AList.mem_lookup_iff.mp found)
  · intro nobody x member
    have found := AList.mem_lookup_iff.mpr member
    have none_ : w.server.connections.lookup x.1 = none := nobody x.1
    rw [none_] at found
    cases found

theorem noConnectionsErase {w : World} (h : w.noConnections = true) (fd : Fd) : (w.erase fd).noConnections = true := by
  refine noConnectionsIff.mpr (fun fd' => ?_)
  rw [lookupErase]
  split
  · rfl
  · exact noConnectionsIff.mp h fd'


/- What finishes a stop once the table is empty. -/
def finishes : Act → Bool
  | .removeTail | .stopTail | .sweep _ _ _ | .finishStop _ => true
  | _ => false

/- FinalizeGracefulStop(false) is called on an empty table only. -/
def unforced : Act → Bool
  | .sweep _ _ false | .finishStop false => true
  | _ => false

/- The flags of a stop, with `main` on the stack of the main loop's thread. -/
structure Flags (w : World) (main : List Act) : Prop where
  stopping : w.server.stopping = true → w.server.started = true ∧ w.server.listening = false
  armed : w.server.deadlineTimer = true → w.server.stopping = true
  ran : w.deadlineRan = true → w.server.listening = false ∧ w.acceptReady = false
  tail : Act.stopTail ∈ main → w.server.stopping = true ∨ w.noConnections = true
  unforced : ∀ a ∈ main, unforced a = true → w.noConnections = true
  asked : w.server.stopping = true → w.server.shutdownCompleteCallback = w.asked
  called : w.server.stopping = false → ∀ cb, w.asked = some cb → cb ∈ w.completed

def EndsSoon (w : World) (main : List Act) : Prop :=
  w.server.stopping = true → w.noConnections = true → ∃ a ∈ main, finishes a = true

theorem plainNotUnforced {a : Act} (plain : finishes a = false) : unforced a = false := by
  cases a with
  | sweep rest stale force => cases plain
  | finishStop force => cases plain
  | _ => rfl

theorem flagsPlain {w : World} {below : List Act} (top frames : List Act) (h : Flags w (top ++ below))
    (plain : ∀ a ∈ frames, finishes a = false) : Flags w (frames ++ below) := by
  refine ⟨h.stopping,h.armed,h.ran,?_,?_,h.asked,h.called⟩
  · intro member
    rcases List.mem_append.mp member with new | old
    · have other := plain _ new
      cases other
    · exact h.tail (List.mem_append_right _ old)
  · intro a member empty
    rcases List.mem_append.mp member with new | old
    · rw [plainNotUnforced (plain a new)] at empty
      cases empty
    · exact h.unforced a (List.mem_append_right _ old) empty

theorem endsPlain {w : World} {below : List Act} (top frames : List Act) (h : EndsSoon w (top ++ below))
    (plain : ∀ a ∈ top, finishes a = false) : EndsSoon w (frames ++ below) := by
  intro stopping empty
  obtain ⟨a,member,last⟩ := h stopping empty
  rcases List.mem_append.mp member with gone | old
  · rw [plain a gone] at last
    cases last
  · exact ⟨a,List.mem_append_right _ old,last⟩

/- What both say depends on these parts of a world only. -/
structure SameStop (w w' : World) : Prop where
  server : w'.server = w.server
  ran : w'.deadlineRan = w.deadlineRan
  ready : w'.acceptReady = w.acceptReady
  asked : w'.asked = w.asked
  completed : w'.completed = w.completed

theorem flagsSame {w w' : World} {main : List Act} (h : Flags w main) (same : SameStop w w') : Flags w' main := by
  have empty : w'.noConnections = w.noConnections := by rw [World.noConnections, same.server, World.noConnections]
  refine ⟨?_,?_,?_,?_,?_,?_,?_⟩
  · rw [same.server]; exact h.stopping
  · rw [same.server]; exact h.armed
  · rw [same.server, same.ran, same.ready]; exact h.ran
  · rw [same.server, empty]; exact h.tail
  · rw [empty]; exact h.unforced
  · rw [same.server, same.asked]; exact h.asked
  · rw [same.server, same.asked, same.completed]; exact h.called

theorem endsSame {w w' : World} {main : List Act} (h : EndsSoon w main) (same : SameStop w w') : EndsSoon w' main := by
  unfold EndsSoon World.noConnections
  rw [same.server]
  exact h

theorem flagsFinalize {w : World} {below : List Act} (h : Flags w below) (force : Bool)
    (empty : force = false → w.noConnections = true) :
    Flags w ((finalizeGracefulStop w force).2 ++ below) ∧ EndsSoon w ((finalizeGracefulStop w force).2 ++ below) := by
  unfold finalizeGracefulStop
  split
  · rename_i stopping
    refine ⟨⟨h.stopping,h.armed,h.ran,fun _ => .inl stopping,?_,h.asked,h.called⟩,fun _ _ => ⟨.sweep w.entries [] force,by simp,rfl⟩⟩
    intro a member last
    rcases List.mem_append.mp member with new | old
    · rw [List.mem_singleton.mp new] at last
      cases force with
      | true => cases last
      | false => exact empty rfl
    · exact h.unforced a old last
  · rename_i ended
    exact ⟨h,fun stopping => absurd stopping ended⟩

theorem finalizeWorld (w : World) (force : Bool) : (finalizeGracefulStop w force).1 = w := by
  unfold finalizeGracefulStop
  split <;> rfl

/- The table only shrinks while a function of the main loop runs. -/
theorem flagsErase {w : World} {main : List Act} (h : Flags w main) (fd : Fd) : Flags (w.erase fd) main :=
  ⟨h.stopping,h.armed,h.ran,fun member => (h.tail member).imp_right (fun empty => noConnectionsErase empty fd),
    fun a member last => noConnectionsErase (h.unforced a member last) fd,h.asked,h.called⟩

theorem flagsFinish {w : World} {force : Bool} {below : List Act} (h : Flags w (.finishStop force :: below)) :
    Flags (finishStop w force).1 ((finishStop w force).2 ++ below) ∧
    EndsSoon (finishStop w force).1 ((finishStop w force).2 ++ below) := by
  have under : Flags w below := flagsPlain [.finishStop force] [] h (by simp)
  unfold finishStop
  split
  · rename_i left
    simp only [Bool.and_eq_true, Bool.not_eq_true'] at left
    refine ⟨under,fun _ empty => ?_⟩
    rw [left.2] at empty
    cases empty
  · rename_i ended
    have empty : w.noConnections = true := by
      cases force with
      | true => simpa using ended
      | false => exact h.unforced (.finishStop false) (by simp) rfl
    refine ⟨⟨(fun on => by cases on),(fun on => by cases on),under.ran,fun _ => .inr empty,fun _ _ _ => empty,
      (fun on => by cases on),?_⟩,(fun on => by cases on)⟩
    intro _ cb asked
    cases on : w.server.stopping with
    | false => exact List.mem_append_left _ (under.called on cb asked)
    | true =>
      have slot := (under.asked on).trans asked
      exact List.mem_append_right _ (by rw [slot]; simp)

theorem flagsStop {w : World} {cb : Option Nat} {below : List Act} (h : Flags w below) (ends : EndsSoon w below) :
    Flags (stopGracefully w cb).1 ((stopGracefully w cb).2 ++ below) ∧
    EndsSoon (stopGracefully w cb).1 ((stopGracefully w cb).2 ++ below) := by
  unfold stopGracefully
  dsimp only
  split
  · have plain : ∀ a ∈ cb.toList.map Act.completeCallback, finishes a = false := by simp [finishes]
    have f : Flags w (cb.toList.map Act.completeCallback ++ below) := flagsPlain [] _ h plain
    refine ⟨⟨f.stopping,f.armed,f.ran,f.tail,f.unforced,f.asked,?_⟩,endsPlain [] _ ends (by simp)⟩
    exact fun on cb' asked => List.mem_append_left _ (f.called on cb' asked)
  · rename_i started
    split
    · rename_i on
      refine ⟨⟨h.stopping,h.armed,h.ran,h.tail,h.unforced,fun _ => ?_,(fun off => by rw [on] at off; cases off)⟩,ends⟩
      cases cb with
      | none => exact h.asked on
      | some cb => rfl
    · rename_i off
      refine ⟨⟨fun _ => ⟨by simpa using started,rfl⟩,fun _ => rfl,fun ran => ⟨rfl,(h.ran ran).2⟩,fun _ => .inl rfl,
        ?_,fun _ => rfl,(fun on => by cases on)⟩,fun _ _ => ⟨.stopTail,by simp,rfl⟩⟩
      intro a member last
      rcases List.mem_append.mp member with new | old
      · simp only [List.mem_cons, List.not_mem_nil, or_false] at new
        rcases new with new | new <;> rw [new] at last <;> cases last
      · exact h.unforced a old last

theorem flagsRemove {w : World} {c : ConnId} {below : List Act} (h : Flags w below) (ends : EndsSoon w below) :
    Flags (removeInLoop w c).1 ((removeInLoop w c).2 ++ below) ∧
    EndsSoon (removeInLoop w c).1 ((removeInLoop w c).2 ++ below) := by
  unfold removeInLoop
  split
  · exact ⟨⟨h.stopping,h.armed,h.ran,h.tail,h.unforced,h.asked,h.called⟩,ends⟩
  · rename_i fd valid
    split
    · exact ⟨⟨h.stopping,h.armed,h.ran,h.tail,h.unforced,h.asked,h.called⟩,ends⟩
    · have e := flagsErase h fd
      refine ⟨⟨e.stopping,e.armed,e.ran,?_,?_,e.asked,e.called⟩,fun _ _ => ⟨.removeTail,by simp,rfl⟩⟩
      · intro member
        exact e.tail (by simpa using member)
      · intro a member last
        simp only [List.cons_append, List.nil_append, List.mem_cons] at member
        rcases member with new | new | old
        · rw [new] at last; cases last
        · rw [new] at last; cases last
        · exact e.unforced a old last

theorem flagsSweepEntry {w : World} {x : Entry} {rest : List Entry} {stale : List ConnId} {force : Bool}
    {below : List Act} (h : Flags w (.sweep (x :: rest) stale force :: below)) :
    Flags (sweepEntry w x rest stale force).1 ((sweepEntry w x rest stale force).2 ++ below) ∧
    EndsSoon (sweepEntry w x rest stale force).1 ((sweepEntry w x rest stale force).2 ++ below) := by
  have again : ∀ stale', Flags w (.sweep rest stale' force :: below) := by
    intro stale'
    refine ⟨h.stopping,h.armed,h.ran,fun member => h.tail (by simpa using member),?_,h.asked,h.called⟩
    intro a member last
    rcases List.mem_cons.mp member with new | old
    · subst new
      exact h.unforced (.sweep (x :: rest) stale force) (by simp) (by cases force <;> simp_all [unforced])
    · exact h.unforced a (List.mem_cons_of_mem _ old) last
  unfold sweepEntry
  split
  · exact ⟨again stale,fun _ _ => ⟨.sweep rest stale force,by simp,rfl⟩⟩
  · exact ⟨flagsErase (again (stale ++ [x.2])) x.1,fun _ _ => ⟨.sweep rest (stale ++ [x.2]) force,by simp,rfl⟩⟩

theorem flagsSweepEnd {w : World} {stale : List ConnId} {force : Bool} {below : List Act}
    (h : Flags w (.sweep [] stale force :: below)) :
    Flags w ((sweepEnd w stale force).2 ++ below) ∧ EndsSoon w ((sweepEnd w stale force).2 ++ below) := by
  refine ⟨⟨h.stopping,h.armed,h.ran,?_,?_,h.asked,h.called⟩,fun _ _ => ⟨.finishStop force,by simp [sweepEnd],rfl⟩⟩
  · intro member
    refine h.tail ?_
    cases force <;> simpa [sweepEnd] using member
  · intro a member last
    cases force with
    | true =>
      simp only [sweepEnd, if_true, List.append_assoc, List.mem_append, List.mem_map, List.mem_singleton] at member
      rcases member with ⟨c,_,new⟩ | new | new | old
      · subst new; cases last
      · subst new; cases last
      · subst new; cases last
      · exact h.unforced a (List.mem_cons_of_mem _ old) last
    | false => exact h.unforced (.sweep [] stale false) (by simp) rfl

theorem flagsStopTail {w : World} {below : List Act} (h : Flags w (.stopTail :: below)) :
    Flags (stopTail w).1 ((stopTail w).2 ++ below) ∧ EndsSoon (stopTail w).1 ((stopTail w).2 ++ below) := by
  have under : Flags w below := flagsPlain [.stopTail] [] h (by simp)
  unfold stopTail
  split
  · rename_i empty
    rw [finalizeWorld]
    exact flagsFinalize under false (fun _ => empty)
  · rename_i left
    have on : w.server.stopping = true := (h.tail (by simp)).resolve_right left
    exact ⟨⟨under.stopping,fun _ => on,under.ran,under.tail,under.unforced,under.asked,under.called⟩,
      fun _ empty => absurd empty left⟩

theorem flagsRemoveTail {w : World} {below : List Act} (h : Flags w below) :
    Flags (removeTail w).1 ((removeTail w).2 ++ below) ∧ EndsSoon (removeTail w).1 ((removeTail w).2 ++ below) := by
  unfold removeTail
  split
  · rename_i both
    simp only [Bool.and_eq_true] at both
    rw [finalizeWorld]
    exact flagsFinalize h false (fun _ => both.2)
  · rename_i other
    refine ⟨h,fun on empty => ?_⟩
    rw [on, empty] at other
    exact absurd rfl other

/- The settled world, seen from the main loop's stack. -/
structure Stop (w : World) : Prop where
  flags : Flags w (w.stack mainLoop)
  ends : EndsSoon w (w.stack mainLoop)

theorem stopSettleMain {below : List Act} {out : Effect}
    (h : Flags out.1 (out.2 ++ below) ∧ EndsSoon out.1 (out.2 ++ below)) : Stop (settle mainLoop below out) := by
  have stack : (settle mainLoop below out).stack mainLoop = out.2 ++ below := by simp [settle]
  have same : SameStop out.1 (settle mainLoop below out) := ⟨rfl,rfl,rfl,rfl,rfl⟩
  exact ⟨by rw [stack]; exact flagsSame h.1 same,by rw [stack]; exact endsSame h.2 same⟩

/- A function that only works on connections, on whichever thread. -/
theorem stopSettlePlain {w : World} (top : List Act) (h : Stop w) {t : ThreadId} {below : List Act} {out : Effect}
    (stack : w.stack t = top ++ below) (mild : ∀ a ∈ top, finishes a = false)
    (plain : ∀ a ∈ out.2, finishes a = false) (same : SameStop w out.1) (stacked : out.1.stack = w.stack) :
    Stop (settle t below out) := by
  by_cases main : t = mainLoop
  · subst main
    have flags := h.flags
    have ends := h.ends
    rw [stack] at flags ends
    exact stopSettleMain ⟨flagsSame (flagsPlain _ _ flags plain) same,endsSame (endsPlain _ _ ends mild) same⟩
  · have other : (settle t below out).stack mainLoop = w.stack mainLoop := by
      simp only [settle, stacked]
      exact Function.update_of_ne (fun same => main same.symm) _ _
    have same' : SameStop w (settle t below out) := ⟨same.server,same.ran,same.ready,same.asked,same.completed⟩
    exact ⟨by rw [other]; exact flagsSame h.flags same',by rw [other]; exact endsSame h.ends same'⟩

theorem plainConn {w : World} {c : ConnId} {out : Endpoint × List Frame} :
    ∀ a ∈ (ofConn w c out).2, finishes a = false := by
  intro a member
  obtain ⟨f,_,made⟩ := List.mem_map.mp member
  rw [← made]
  rfl

theorem plainCall {w : World} {t : ThreadId} {c : ConnId} {call : UserCall} :
    ∀ a ∈ (callConn w t c call).2, finishes a = false := by
  intro a member
  obtain ⟨f,_,made⟩ := List.mem_map.mp member
  rw [← made]
  rfl

theorem sameStopPut (w : World) (h : Host) : SameStop w (w.putHost h) := ⟨rfl,rfl,rfl,rfl,rfl⟩

theorem stopEach {w : World} (h : Stop w) {t : ThreadId} {call : UserCall} {x : Entry} {again top : Act}
    {below : List Act} (stack : w.stack t = top :: below) (mild : finishes top = false) (plain : finishes again = false) :
    Stop (settle t below (eachEntry w t call x again)) := by
  have stack' : w.stack t = [top] ++ below := stack
  unfold eachEntry
  split
  · refine stopSettlePlain _ h stack' (by simpa using mild) ?_ (sameStopPut w _) rfl
    intro a member
    rcases List.mem_append.mp member with called | loop
    · exact plainCall a called
    · rw [List.mem_singleton.mp loop]
      exact plain
  · exact stopSettlePlain _ h stack' (by simpa using mild) (by simpa using plain) ⟨rfl,rfl,rfl,rfl,rfl⟩ rfl

theorem endsNotFinishes {a : Act} (last : ends a = true) : finishes a = false := by
  cases a with
  | removeTail => cases last
  | stopTail => cases last
  | sweep rest stale force => cases last
  | finishStop force => cases last
  | _ => rfl

theorem stopStart {w : World} (h : Stop w) : Stop (startServer w) := by
  unfold startServer
  split
  · exact h
  · rename_i fresh
    have off : ¬ w.server.stopping = true := fun on => fresh (h.flags.stopping on).1
    exact ⟨⟨fun on => absurd on off,h.flags.armed,(fun ran => by cases ran),h.flags.tail,h.flags.unforced,
      h.flags.asked,h.flags.called⟩,fun on => absurd on off⟩

theorem stopAccept {w : World} (h : Stop w) (idle : w.stack mainLoop = []) (fd : Fd) (bufferSize : Nat) :
    Stop (settle mainLoop [] (newConnection { w with acceptReady := false } fd bufferSize)) := by
  have flags := h.flags
  have ends := h.ends
  rw [idle] at flags ends
  have ran : w.deadlineRan = true → w.server.listening = false ∧ false = false := fun ran => ⟨(flags.ran ran).1,rfl⟩
  refine stopSettleMain ?_
  unfold newConnection
  dsimp only
  split
  · exact ⟨⟨flags.stopping,flags.armed,ran,flags.tail,flags.unforced,flags.asked,flags.called⟩,ends⟩
  · rename_i off
    refine ⟨⟨flags.stopping,flags.armed,ran,?_,?_,flags.asked,flags.called⟩,fun on => absurd on off⟩
    · intro member
      simp at member
    · intro a member last
      rw [List.append_nil, List.mem_singleton] at member
      rw [member] at last
      cases last

theorem stopStep {w w' : World} {a : Action} (p : Placed w) (h : Stop w) (taken : step w a = some w') : Stop w' := by
  have same : SameStop w w := ⟨rfl,rfl,rfl,rfl,rfl⟩
  have onMain : ∀ {f rest}, w.stack mainLoop = f :: rest → Flags w (f :: rest) ∧ EndsSoon w (f :: rest) := by
    intro f rest top
    have flags := h.flags
    have ends := h.ends
    rw [top] at flags ends
    exact ⟨flags,ends⟩
  have under : ∀ {f rest}, w.stack mainLoop = f :: rest → Flags w rest := by
    intro f rest top
    exact flagsPlain [f] [] (onMain top).1 (by simp)
  cases stepCases taken with
  | start runs => exact stopStart h
  | @userConn t c call runs made =>
    exact stopSettlePlain [] h rfl (by simp) plainCall (sameStopPut w _) rfl
  | @userStop t cb runs => exact stopSettlePlain [] h rfl (by simp) (by simp [finishes]) same rfl
  | @close t c rest top =>
    exact stopSettlePlain [.conn c .closeCallback] h top (by simp [finishes]) (by simp [finishes]) same rfl
  | @resume t c f rest top own =>
    exact stopSettlePlain [.conn c f] h top (by simp [finishes]) plainConn (sameStopPut w _) rfl
  | @queue t l task rest top other =>
    exact stopSettlePlain [.call l task] h top (by simp [finishes]) (by simp) ⟨rfl,rfl,rfl,rfl,rfl⟩ rfl
  | @run t c f rest top =>
    exact stopSettlePlain [.call t (.conn c f)] h top (by simp [finishes]) plainConn (sameStopPut w _) rfl
  | @remove t c rest top =>
    have main : t = mainLoop := topFits p top
    subst main
    exact stopSettleMain (flagsRemove (under top) (endsPlain [_] [] (onMain top).2 (by simp [finishes])))
  | @stop t cb rest top =>
    have main : t = mainLoop := topFits p top
    subst main
    exact stopSettleMain (flagsStop (under top) (endsPlain [_] [] (onMain top).2 (by simp [finishes])))
  | @removeTail t rest top =>
    have main : t = mainLoop := topFits p top
    subst main
    exact stopSettleMain (flagsRemoveTail (under top))
  | shutdownAll top => exact stopEach h top rfl rfl
  | @stopTail t rest top =>
    have main : t = mainLoop := topFits p top
    subst main
    exact stopSettleMain (flagsStopTail (onMain top).1)
  | @sweepEntry t x rest stale force below top =>
    have main : t = mainLoop := topFits p top
    subst main
    exact stopSettleMain (flagsSweepEntry (onMain top).1)
  | @sweepEnd t stale force below top =>
    have main : t = mainLoop := topFits p top
    subst main
    exact stopSettleMain (flagsSweepEnd (onMain top).1)
  | forceAll top => exact stopEach h top rfl rfl
  | @finishStop t force below top =>
    have main : t = mainLoop := topFits p top
    subst main
    exact stopSettleMain (flagsFinish (onMain top).1)
  | @closeIdle t c rest below top =>
    refine stopSettlePlain [.closeIdle (c :: rest)] h top (by simp [finishes]) ?_ (sameStopPut w _) rfl
    intro a member
    rcases List.mem_append.mp member with called | loop
    · exact plainCall a called
    · rw [List.mem_singleton.mp loop]
      rfl
  | @ends a t f rest top last =>
    exact stopSettlePlain [f] h top (by simpa using endsNotFinishes last) (by simp) same rfl
  | @runQueued l task rest idle head loop =>
    exact stopSettlePlain [] h idle (by simp) (by simp [finishes]) ⟨rfl,rfl,rfl,rfl,rfl⟩ rfl
  | poll idle =>
    have flags := h.flags
    exact ⟨⟨flags.stopping,flags.armed,fun ran => ⟨(flags.ran ran).1,(flags.ran ran).1⟩,flags.tail,flags.unforced,
      flags.asked,flags.called⟩,h.ends⟩
  | accept idle ready free => exact stopAccept h idle _ _
  | event idle made ok => exact stopSettlePlain [] h idle (by simp) plainConn (sameStopPut w _) rfl
  | @scanIdle idle found between among =>
    have empty : w.stack mainLoop = [] := betweenIdle between
    exact stopSettlePlain [] h empty (by simp) (by simp [finishes]) same rfl
  | @checkTimer out between out_ =>
    have empty : w.stack mainLoop = [] := betweenIdle between
    have flags := h.flags
    have ends := h.ends
    rw [empty] at flags ends
    refine stopSettleMain ?_
    rcases out_ with ⟨none_,out_⟩ | out_ <;> rw [out_]
    · rw [finalizeWorld]
      exact flagsFinalize flags false (fun _ => none_)
    · exact ⟨flags,ends⟩
  | deadlineTimer between armed =>
    obtain ⟨empty,quiet⟩ : w.stack mainLoop = [] ∧ w.acceptReady = false := by simpa [betweenEvents] using between
    have flags := h.flags
    rw [empty] at flags
    have on := flags.armed armed
    have fired : Flags { w with server := { w.server with deadlineTimer := false }, deadlineRan := true } [] :=
      ⟨flags.stopping,(fun on => by cases on),fun _ => ⟨(flags.stopping on).2,quiet⟩,flags.tail,flags.unforced,
        flags.asked,flags.called⟩
    refine stopSettleMain ?_
    rw [finalizeWorld]
    exact flagsFinalize fired true (fun other => by cases other)

theorem stopInitial {w : World} (h : Initial w) : Stop w := by
  obtain ⟨threadNum,callbacks,mark,idleTimeout,same⟩ := h
  subst same
  refine ⟨⟨?_,?_,?_,?_,?_,?_,?_⟩,?_⟩
  · intro on; cases on
  · intro armed; cases armed
  · intro ran; cases ran
  · intro member; cases member
  · intro a member; cases member
  · intro on; cases on
  · intro _ cb asked; cases asked
  · intro on; cases on

end TcFrame.TcpServer
