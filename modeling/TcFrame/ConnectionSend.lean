import TcFrame.ConnectionDrain

/-! Send, then Shutdown, from one thread. Shutdown leaves Connected at once, in the
calling thread; the message of another thread is looked at when its functor runs, and
refused if the state has been left by then. -/
namespace TcFrame.Connection
open Endpoint Machine

def callBy (t : ThreadId) (c : UserCall) : Action := if t = loopThread then .user c else .foreign t c

/- Sent, but not yet looked at by SendInLoop. -/
def onItsWay (w : World) (m : Message) : Bool :=
  w.inFlight m.sender == some (.sendInLoop m) || w.queue.contains (.sendInLoop m)

def overtakes (m : Message) (w : World) (a : Action) : Bool := w.conn.isConnected && onItsWay w m && leaves w a

theorem onItsWayUnderway {w : World} {m : Message} (h : onItsWay w m = true) : Underway w (.sendInLoop m) := by
  simp only [onItsWay, Bool.or_eq_true, beq_iff_eq, List.contains_eq_mem, decide_eq_true_eq] at h
  exact h.symm.imp_right (fun held => ⟨_,held⟩)

/- The numbers tell the messages apart, so one on its way has not passed. -/
theorem onItsWayNotPassed {w : World} (h : Ordered w) {m : Message} (way : onItsWay w m = true) : m ∉ w.passed := by
  have distinct : (fromSender m.sender w.sent).Nodup := by
    have numbers : (w.sent.map Message.seq).Nodup := by rw [h.numbered]; exact List.nodup_range
    exact (List.Pairwise.of_map Message.seq (fun _ _ differ same => differ (congrArg Message.seq same)) numbers).filter _
  have once := (h.order m.sender).nodup distinct
  have behind : m ∈ messages w.queue ++ flying w m.sender := by
    rcases onItsWayUnderway way with queued | ⟨t,held⟩
    · exact List.mem_append_left _ (List.mem_filterMap.mpr ⟨_,queued,rfl⟩)
    · have flies : m ∈ flying w t := by simp [flying, held, messages]
      rw [h.own t m flies]
      exact List.mem_append_right _ flies
  intro early
  rw [List.append_assoc, fromSenderAppend] at once
  have own : ∀ ms : List Message, m ∈ ms → m ∈ fromSender m.sender ms := fun ms member => by
    simp [fromSender, member]
  exact (List.nodup_append.mp once).2.2 m (own _ early) m (own _ behind) rfl

theorem execPassed {w : World} {m : Message} (connected : w.conn.isConnected = true) :
    (exec w (.sendInLoop m)).passed = w.passed ++ [m] := by
  simp [exec, connected]

/- SendInLoop passes a message in state Connected only. -/
theorem stepPassed {w w' : World} {a : Action} (taken : step w a = some w') :
    w'.passed = w.passed ∨ w.state = .connected ∧ ∃ m, w'.passed = w.passed ++ [m] := by
  have ran : ∀ (v : World) f, (exec v f).passed = v.passed ∨
      v.state = .connected ∧ ∃ m, (exec v f).passed = v.passed ++ [m] := by
    intro v f
    cases f with
    | sendInLoop m =>
      simp only [exec]
      split
      · rename_i connected
        exact .inr ⟨isConnectedIff.mp connected,m,rfl⟩
      · exact .inl rfl
    | _ => exact .inl rfl
  cases stepCases taken with
  | establish idle fresh => exact ran w _
  | destroy idle => exact ran w _
  | @runQueued f rest idle head fresh => exact ran { w with queue := rest } f
  | @user c runs =>
    obtain ⟨_,passed,_⟩ := requestLogs w loopThread c
    unfold runInline
    split
    · exact .inl passed
    · rename_i f handed
      rw [← passed]
      rcases ran (request w loopThread c).1 f with same | ⟨connected,grown⟩
      · exact .inl same
      · have before := requestState (.inr connected)
        refine .inr ⟨before.resolve_left (fun fresh => ?_),grown⟩
        have state : w.ep.conn.state = .connecting := fresh
        cases c <;> simp [request, send, shutdown, forceClose, TcpConnection.isConnected, isOpenState, state] at handed
  | @foreign t c other free => exact .inl (requestLogs w t c).2.1
  | environment done =>
    obtain ⟨poller,isOpen,same,_⟩ := environmentCases done
    subst same
    exact .inl rfl
  | _ => exact .inl rfl

theorem stepKeepsPassed {w w' : World} {a : Action} (taken : step w a = some w') {m : Message}
    (h : m ∈ w.passed) : m ∈ w'.passed := by
  rcases stepPassed taken with same | ⟨_,m',grown⟩
  · rwa [same]
  · rw [grown]
    exact List.mem_append_left _ h

/- A message that has not passed when Connected is left never does. -/
structure Lost (m : Message) (w : World) : Prop where
  refused : m ∉ w.passed
  left : ¬ (w.state = .connecting ∨ w.state = .connected)

theorem lostStep {m : Message} {w w' : World} {a : Action} (h : Lost m w) (taken : step w a = some w') :
    Lost m w' := by
  refine ⟨?_,fun early => h.left (stepEarly taken early)⟩
  rcases stepPassed taken with same | ⟨connected,_⟩
  · rw [same]
    exact h.refused
  · exact absurd (.inr connected) h.left

theorem closedLeft {e e' : Endpoint} (done : Closed e e') :
    ¬ (e'.conn.state = .connecting ∨ e'.conn.state = .connected) := by
  simp [done.state]

theorem handleCloseLeft {e : Endpoint} (connected : e.conn.state = .connected) :
    Closed e e.handleClose.1 := by
  rw [handleClose, if_neg (by simp [connected])]
  exact removeIfAddedClosed (disconnectClosed e)

theorem overtakesLost {m : Message} {w w' : World} {a : Action} (h : Ordered w)
    (early : overtakes m w a = true) (taken : step w a = some w') : Lost m w' := by
  simp only [overtakes, Bool.and_eq_true] at early
  obtain ⟨⟨passes,way⟩,gone⟩ := early
  have connected : w.ep.conn.state = .connected := isConnectedIff.mp passes
  have refused := onItsWayNotPassed h way
  cases stepCases taken with
  | destroy idle =>
    have isOpen : w.ep.isOpenState = true := by simp [isOpenState, connected]
    refine ⟨refused,?_⟩
    simp only [exec, continueWith, Endpoint.run, connectDestroyed, isOpen, if_true]
    exact closedLeft (removeIfAddedClosed (disconnectClosed w.ep))
  | @event ev idle up ok =>
    refine ⟨refused,?_⟩
    cases ev with
    | write r =>
      have nothing : (if w.ep.conn.outputBuffer.readableBytes = 0 then WriteResult.ok 0 else r) = .ok 0 := by
        split
        · rfl
        · rename_i some_
          have some' : w.conn.outputBuffer.readableBytes ≠ 0 := some_
          cases r <;> simp_all [leaves]
      have same : w.ep.handleWrite r = w.ep.handleClose := by
        simp only [handleWrite, isConnectedIff.mpr connected, nothing, Bool.not_true, Bool.false_eq_true, if_false]
      simp only [continueWith, handle, same]
      exact closedLeft (handleCloseLeft connected)
    | _ => cases gone
  | @user c runs =>
    cases c with
    | shutdown =>
      have out : request w loopThread .shutdown =
          ({ w with ep := w.ep.setState .disconnecting },some .shutdownInLoop) := by
        simp only [request, shutdown, if_pos connected]
      simp only [runInline, out]
      refine ⟨refused,fun back => ?_⟩
      have before := execState (by simp) back
      simp [World.state, setState] at before
    | _ => cases gone
  | @foreign t c other free =>
    cases c with
    | shutdown =>
      refine ⟨refused,?_⟩
      simp [request, shutdown, if_pos connected, World.state, setState]
    | _ => cases gone
  | _ => cases gone

/- A message not yet passed is on its way to a connection that is still Connected. -/
structure Expected (m : Message) (w : World) : Prop where
  connected : w.state = .connected
  way : onItsWay w m = true

theorem expectedStep {m : Message} {w w' : World} {a : Action} (h : Expected m w) (only : SendsOnly w)
    (mild : calm a = true) (stays : leaves w a = false) (taken : step w a = some w') :
    m ∈ w'.passed ∨ Expected m w' := by
  have way := h.way
  cases stepCases taken with
  | establish idle fresh => rw [h.connected] at fresh; cases fresh
  | destroy idle => cases stays
  | event idle up ok => exact .inr ⟨calmHandle h.connected mild stays,way⟩
  | @runQueued f rest idle head fresh =>
    have send_ := only (.inr h.connected) f (.inl (by simp [head]))
    cases f with
    | sendInLoop m' =>
      have connected : w.conn.isConnected = true := isConnectedIff.mpr h.connected
      obtain ⟨_,queue,inFlight,_⟩ := execLogs { w with queue := rest } (.sendInLoop m')
      by_cases same : m' = m
      · refine .inl ?_
        have passes := @execPassed { w with queue := rest } m' connected
        rw [passes, same]
        exact List.mem_append_right _ List.mem_cons_self
      · refine .inr ⟨by rw [sendState]; exact h.connected,?_⟩
        simp only [onItsWay, queue, inFlight]
        simpa [onItsWay, head, Ne.symm same] using way
    | _ => cases send_
  | @resume f below top own => exact .inr ⟨(resumeState w.ep f).trans h.connected,way⟩
  | ret top callback => exact .inr ⟨h.connected,way⟩
  | @user c runs =>
    cases c with
    | forceClose => cases mild
    | shutdown => cases stays
    | send data =>
      have connected : w.ep.conn.isConnected = true := isConnectedIff.mpr h.connected
      have out : request w loopThread (.send data) = ({ w with
          sent := w.sent ++ [⟨loopThread,w.sent.length,data⟩] },some (.sendInLoop ⟨loopThread,w.sent.length,data⟩)) := by
        simp only [request, send, connected, if_true]
      simp only [runInline, out]
      obtain ⟨_,queue,inFlight,_⟩ := execLogs { w with sent := w.sent ++ [⟨loopThread,w.sent.length,data⟩] }
        (.sendInLoop ⟨loopThread,w.sent.length,data⟩)
      refine .inr ⟨by rw [sendState]; exact h.connected,?_⟩
      simp only [onItsWay, queue, inFlight]
      exact way
  | @foreign t c other free =>
    cases c with
    | forceClose => cases mild
    | shutdown => cases stays
    | send data =>
      have connected : w.ep.conn.isConnected = true := isConnectedIff.mpr h.connected
      have out : request w t (.send data) = ({ w with sent := w.sent ++ [⟨t,w.sent.length,data⟩] },
          some (.sendInLoop ⟨t,w.sent.length,data⟩)) := by
        simp only [request, send, connected, if_true]
      simp only [out]
      refine .inr ⟨h.connected,?_⟩
      simp only [onItsWay, Bool.or_eq_true] at way ⊢
      rcases way with held | queued
      · have other' : m.sender ≠ t := by
          intro same
          rw [same, free] at held
          cases held
        rw [Function.update_of_ne other']
        exact .inl held
      · exact .inr queued
  | @push t f held =>
    refine .inr ⟨h.connected,?_⟩
    simp only [onItsWay, Bool.or_eq_true, beq_iff_eq, List.contains_eq_mem, decide_eq_true_eq] at way ⊢
    rcases way with flies | queued
    · by_cases same : m.sender = t
      · rw [same, held] at flies
        exact .inr (by simp [Option.some.inj flies])
      · rw [Function.update_of_ne same]
        exact .inl flies
    · exact .inr (List.mem_append_left _ queued)
  | environment done =>
    obtain ⟨poller,isOpen,same,_⟩ := environmentCases done
    subst same
    exact .inr ⟨h.connected,way⟩

/- The message has passed when its thread calls Shutdown: until then nothing has
overtaken it, and this Shutdown does not either. -/
theorem passedBeforeShutdown {m : Message} {t : ThreadId} {w w' : World} {as : List Action} (only : SendsOnly w)
    (h : m ∈ w.passed ∨ Expected m w) (mild : ∀ a ∈ as, calm a = true) (shut : callBy t .shutdown ∈ as)
    (kept : Throughout step (fun u a => overtakes m u a = false) w as) (reached : run step w as = some w') :
    m ∈ w'.passed := by
  induction as generalizing w with
  | nil => cases shut
  | cons a as ih =>
    obtain ⟨u,taken,rest⟩ := runCons.mp reached
    rcases h with passed | expected
    · exact invariant (fun _ _ _ member taken => stepKeepsPassed taken member) passed reached
    · have passes : w.conn.isConnected = true := isConnectedIff.mpr expected.connected
      have stays : leaves w a = false := by simpa [overtakes, passes, expected.way] using kept.1
      rcases List.mem_cons.mp shut with here | later
      · have shuts : leaves w (callBy t .shutdown) = true := by
          unfold callBy
          split <;> rfl
        rw [here, stays] at shuts
        cases shuts
      · have next := expectedStep expected only (mild a List.mem_cons_self) stays taken
        exact ih (sendsOnlyStep only taken) next (fun b member => mild b (List.mem_cons_of_mem _ member)) later
          (kept.2 u taken) rest

theorem sentExpected {w w' : World} {t : ThreadId} {data : Bytes} (connected : w.state = .connected)
    (taken : step w (callBy t (.send data)) = some w') :
    ⟨t,w.sent.length,data⟩ ∈ w'.passed ∨ Expected ⟨t,w.sent.length,data⟩ w' := by
  have passes : w.ep.conn.isConnected = true := isConnectedIff.mpr connected
  have out : request w t (.send data) = ({ w with sent := w.sent ++ [⟨t,w.sent.length,data⟩] },
      some (.sendInLoop ⟨t,w.sent.length,data⟩)) := by
    simp only [request, send, passes, if_true]
  unfold callBy at taken
  split at taken
  · rename_i own
    cases stepCases taken with
    | user runs =>
      rw [own] at out
      refine .inl ?_
      simp only [runInline, out, own]
      rw [execPassed (by exact passes)]
      simp
  · cases stepCases taken with
    | foreign other free =>
      simp only [out]
      exact .inr ⟨connected,by simp [onItsWay]⟩

/- A message sent while Connected and followed by its thread's Shutdown is appended to
the output exactly if nothing took the connection out of Connected while the message was
on its way. -/
theorem sentBeforeShutdown {w w' w'' : World} {t : ThreadId} {data : Bytes} {later : List Action}
    (start : Reachable w) (connected : w.state = .connected) (sent : step w (callBy t (.send data)) = some w')
    (mild : ∀ b ∈ later, calm b = true) (shut : callBy t .shutdown ∈ later)
    (reached : run step w' later = some w'') :
    ⟨t,w.sent.length,data⟩ ∈ w''.passed ↔
      Throughout step (fun u b => overtakes ⟨t,w.sent.length,data⟩ u b = false) w' later := by
  have only : SendsOnly w' := sendsOnlyStep (sendsOnlyReachable start) sent
  have ordered : Ordered w' := orderedStep (orderedReachable start) sent
  constructor
  · intro passed
    have enters : ∀ u b v, Ordered u → ¬ overtakes ⟨t,w.sent.length,data⟩ u b = false → step u b = some v →
        Lost ⟨t,w.sent.length,data⟩ v := fun u b v hu early => overtakesLost hu (by simpa using early)
    rcases throughoutOr (fun _ _ _ => orderedStep) enters (fun _ _ _ => lostStep) ordered reached with kept | lost
    · exact kept
    · exact absurd passed lost.refused
  · exact fun kept => passedBeforeShutdown only (sentExpected connected sent) mild shut kept reached

/- Thread 1 sends, its functor runs, and then it shuts the connection down. -/
def inOrder : List Action := [.push 1,.runQueued,.resume,.foreign 1 .shutdown]

theorem sentBeforeShutdownInOrder : ∃ w w' w'', Reachable w ∧ step w (callBy 1 (.send [7])) = some w' ∧
    run step w' inOrder = some w'' ∧ (⟨1,w.sent.length,[7]⟩ : Message) ∈ w''.passed := by
  have reached : ∃ w w' w'', run step (fresh 3 ⟨true,true,false,true,false⟩ 64 4) [.establish,.ret] = some w ∧
      w.state = .connected ∧ step w (callBy 1 (.send [7])) = some w' ∧ run step w' inOrder = some w'' ∧
      Throughout step (fun u b => overtakes ⟨1,w.sent.length,[7]⟩ u b = false) w' inOrder :=
    ⟨_,_,_,rfl,rfl,rfl,rfl,⟨rfl,fun _ h => by cases h; exact ⟨rfl,fun _ h => by cases h; exact ⟨rfl,fun _ h => by
      cases h; exact ⟨rfl,fun _ _ => trivial⟩⟩⟩⟩⟩
  obtain ⟨w,w',w'',begun,connected,sent,later,kept⟩ := reached
  have start : Reachable w := ⟨_,_,freshInitial _ _ _ _,begun⟩
  have mild : ∀ b ∈ inOrder, calm b = true := by decide
  have shut : callBy 1 .shutdown ∈ inOrder := by decide
  exact ⟨w,w',w'',start,sent,later,(sentBeforeShutdown start connected sent mild shut later).mpr kept⟩

/- Thread 1's Shutdown comes before its own message has been looked at. -/
def outOfOrder : List Action := [.push 1,.foreign 1 .shutdown,.push 1,.runQueued,.runQueued,.ret,.resume,.resume]

theorem shutdownOvertakesSend : ¬ ∀ (w w' w'' : World) (t : ThreadId) (data : Bytes) (later : List Action),
    Reachable w → w.state = .connected → step w (callBy t (.send data)) = some w' →
    (∀ b ∈ later, calm b = true) → callBy t .shutdown ∈ later → run step w' later = some w'' →
    w''.state = .disconnected → ⟨t,w.sent.length,data⟩ ∈ w''.passed := by
  intro claimed
  have reached : ∃ w w' w'', run step (fresh 3 ⟨true,true,false,true,false⟩ 64 4) [.establish,.ret] = some w ∧
      w.state = .connected ∧ step w (callBy 1 (.send [7])) = some w' ∧ run step w' outOfOrder = some w'' ∧
      w''.state = .disconnected ∧ w''.passed = [] := ⟨_,_,_,rfl,rfl,rfl,rfl,rfl,rfl⟩
  obtain ⟨w,w',w'',begun,connected,sent,later,ended,nothing⟩ := reached
  have start : Reachable w := ⟨_,_,freshInitial _ _ _ _,begun⟩
  have passed := claimed w w' w'' 1 [7] outOfOrder start connected sent (by decide) (by decide) later ended
  rw [nothing] at passed
  cases passed

end TcFrame.Connection
