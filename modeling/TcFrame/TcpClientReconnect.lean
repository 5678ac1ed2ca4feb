import TcFrame.TcpClientConnected

/-! What becomes of a client whose attempt has failed or whose connection is lost. One
flag, m_started, lets DoReconnect in and then keeps Connect from trying. -/
namespace TcFrame.TcpClient
open Endpoint EpollPoller Machine

/- The new sockets on which connect() is called. -/
def connectCalls (w : World) (fd : Fd) : List Fd := if w.client.started then [] else [fd]

def reconnectCalls (w : World) (fd : Fd) : List Fd :=
  if w.client.started && !w.client.connecting && !w.isConnected then connectCalls w fd else []

def attempted (w : World) : Action → List Fd
  | .connect fd _ _ => connectCalls w fd
  | .reconnect fd _ _ => reconnectCalls w fd
  | _ => []

/- DoReconnect runs on a client that is neither connected nor connecting. -/
def lapsed (w : World) : Action → Bool
  | .reconnect _ _ _ => !w.client.connecting && !w.isConnected
  | _ => false

theorem reconnectCallsNone (w : World) (fd : Fd) : reconnectCalls w fd = [] := by
  cases started : w.client.started <;> simp [reconnectCalls, connectCalls, started]

theorem doReconnectIgnored (w : World) (fd : Fd) (bufferSize : Nat) (outcome : Outcome) :
    doReconnect w fd bufferSize outcome = (w,[]) := by
  unfold doReconnect
  split
  · rename_i admitted
    simp only [Bool.and_eq_true] at admitted
    rw [connect, if_pos admitted.1.1]
  · rfl

/- DoReconnect never starts an attempt: a run keeps the promise exactly if it never runs
on a client that lacks a connection. All it does is use up its timer. -/
theorem reconnectStartsNothing (s : World) (as : List Action) :
    (Throughout step (fun u a => lapsed u a = true → attempted u a ≠ []) s as ↔
      Throughout step (fun u a => lapsed u a = false) s as) ∧
    ∀ u fd bufferSize outcome u', step u (.reconnect fd bufferSize outcome) = some u' →
      u' = { u with timers := u.timers - 1 } := by
  refine ⟨⟨throughoutImp ?_,throughoutImp ?_⟩,fun u fd bufferSize outcome u' taken => ?_⟩
  · intro u a starts
    cases a with
    | reconnect fd bufferSize outcome =>
      by_contra due
      exact starts (by simpa using due) (reconnectCallsNone u fd)
    | _ => rfl
  · intro u a never due
    rw [never] at due
    cases due
  · cases stepCases taken with
    | reconnect idle fresh =>
      rw [doReconnectIgnored]
      simp [settle, ← idle]

/- A client with auto-reconnect on. -/
def reconnecting : World := { constructed with client := { constructed.client with autoReconnect := true } }

theorem reconnectingInitial : Initial reconnecting :=
  ⟨⟨rfl,rfl,rfl,rfl⟩,⟨rfl,fun _ => rfl⟩,fun _ _ => rfl,fun _ => rfl,rfl,rfl⟩

/- A connection made at once is lost, and the timer of auto-reconnect fires. -/
def lostThenTimer : List Action :=
  [.connect 5 64 .connected,.ret 0,.goOn 0,.event 0 .close,.goOn 0,.goOn 0,.goOn 0,.goOn 0,.reconnect 6 64 .connected]

theorem lostStaysLost : ¬ ∀ s as, Initial s → s.client.autoReconnect = true → .disconnect ∉ as →
    Throughout step (fun u a => lapsed u a = true → attempted u a ≠ []) s as := by
  intro claimed
  have kept := claimed _ lostThenTimer reconnectingInitial rfl (by decide)
  have never := (reconnectStartsNothing _ _).1.mp kept
  revert never
  decide

/- The temporary channels of which the poller has said writable, error or hang-up. -/
def reports (_ : World) (a : Action) (_ : World) (reported : List Nat) : List Nat :=
  match a with
  | .temporaryEvent k revents _ _ =>
    if revents.error || revents.hangUp || revents.write then k :: reported else reported
  | _ => reported

def Alive (w : World) : Prop := ∃ c, w.client.connection = some c ∧ (w.conns c).state ≠ .disconnected

/- connect() is in progress on m_socket, and what became of it has not been reported. -/
def Attempting (w : World) (reported : List Nat) : Prop :=
  ∃ k ch, w.temporaries k = some ch ∧ k ∉ reported ∧ w.client.socket = some (some ch.fd)

/- The attempt has failed: at once, or as the poller reports it. -/
def fails (w : World) : Action → Bool
  | .connect _ _ .failed => !w.client.started
  | .temporaryEvent _ revents err _ => revents.error || revents.hangUp || (revents.write && err != 0)
  | _ => false

/- Four ways to leave m_started set with nothing to come: an error or a hang-up is
reported, of which no callback hears; the write callback finds an error and nobody asked
for another attempt; DoReconnect calls Connect; m_socket is reset when it is that of a
newer attempt, begun inside the connection callback. -/
def strands (w : World) : Action → Bool
  | .temporaryEvent _ revents err _ => revents.error || revents.hangUp ||
      (revents.write && err != 0 && w.client.started && !w.client.autoReconnect)
  | .reconnect _ _ _ => w.client.started && !w.client.connecting && !w.isConnected
  | .goOn t =>
    match w.stack t, w.client.socket with
    | .connectTail _ :: _, some (some _) | .temporaryTail _ _ :: _, some (some _) => true
    | _, _ => false
  | _ => false

/- HandleRemoveConnection, or what is left of it, has still to come. -/
def Act.removes : Act → Bool
  | .conn _ .closeCallback | .removeTail => true
  | _ => false

def Removing (w : World) : Prop := ∃ a ∈ w.stack loopThread, a.removes = true

structure Cared (w : World) (reported : List Nat) : Prop where
  closable : ∀ c < w.next, (w.conns c).callbacks.close = true
  waiting : ∀ k ch, w.temporaries k = some ch → k < w.nextTemporary ∧ k ∉ reported
  numbered : ∀ k ∈ reported, k < w.nextTemporary
  started : w.client.started = true → Alive w ∨ Attempting w reported ∨ 0 < w.timers ∨ Removing w
  connecting : w.client.connecting = true → Attempting w reported

/- What most steps leave alone. -/
theorem caredKeeps {w w' : World} {reported : List Nat} (h : Cared w reported)
    (callbacks : ∀ c, (w'.conns c).callbacks = (w.conns c).callbacks) (next : w'.next = w.next)
    (temporaries : w'.temporaries = w.temporaries) (number : w'.nextTemporary = w.nextTemporary)
    (socket : w'.client.socket = w.client.socket)
    (started : w'.client.started = true → w.client.started = true)
    (connecting : w'.client.connecting = true → w.client.connecting = true) (timers : w.timers ≤ w'.timers)
    (alive : Alive w → Alive w' ∨ Removing w') (left : Removing w → Removing w') : Cared w' reported := by
  have attempting : Attempting w reported → Attempting w' reported := by
    rintro ⟨k,ch,waiting,fresh,own⟩
    exact ⟨k,ch,by rw [temporaries]; exact waiting,fresh,by rw [socket]; exact own⟩
  refine ⟨?_,?_,?_,fun on => ?_,fun on => attempting (h.connecting (connecting on))⟩
  · rw [next]
    exact fun c known => by rw [callbacks c]; exact h.closable c known
  · rw [temporaries, number]
    exact h.waiting
  · rw [number]
    exact h.numbered
  · rcases h.started (started on) with up | attempt | armed | removing
    · rcases alive up with still | ended
      · exact .inl still
      · exact .inr (.inr (.inr ended))
    · exact .inr (.inl (attempting attempt))
    · exact .inr (.inr (.inl (Nat.lt_of_lt_of_le armed timers)))
    · exact .inr (.inr (.inr (left removing)))

/- The stack below what is popped, when that was not part of HandleRemoveConnection. -/
theorem removingBelow {w w' : World} {t : ThreadId} {below : List Act} (acts : List Act)
    (stack : w'.stack = Function.update w.stack t (acts ++ below))
    (kept : t = loopThread → ∀ a ∈ w.stack loopThread, a.removes = true → a ∈ below) (h : Removing w) : Removing w' := by
  obtain ⟨a,member,removes⟩ := h
  refine ⟨a,?_,removes⟩
  rw [stack, Function.update_apply]
  split
  · rename_i home
    exact List.mem_append_right _ (kept home.symm a member removes)
  · exact member

theorem keptBelow {w : World} {t : ThreadId} {f : Act} {below : List Act} (top : w.stack t = f :: below)
    (other : f.removes = false) :
    t = loopThread → ∀ a ∈ w.stack loopThread, a.removes = true → a ∈ below := by
  intro home a member removes
  subst home
  rw [top] at member
  rcases List.mem_cons.mp member with same | old
  · rw [same, other] at removes
    cases removes
  · exact old

/- A member function of connection `d`, which leaves the close callback if it closes. -/
theorem caredPut {w : World} {reported : List Nat} (h : Cared w reported) {t : ThreadId} {below acts : List Act}
    {d : ConnId} {e : Endpoint} (callbacks : e.conn.callbacks = (w.conns d).callbacks)
    (kept : t = loopThread → ∀ a ∈ w.stack loopThread, a.removes = true → a ∈ below)
    (closes : (w.conns d).state ≠ .disconnected → e.conn.state = .disconnected → d < w.next →
      t = loopThread ∧ ∃ a ∈ acts, a.removes = true)
    (known : ∀ c, w.client.connection = some c → c < w.next) :
    Cared (settle t below (w.put d e,acts)) reported := by
  have stack : (settle t below (w.put d e,acts)).stack = Function.update w.stack t (acts ++ below) := rfl
  refine caredKeeps h (fun c => ?_) rfl rfl rfl rfl (fun on => on) (fun on => on) (Nat.le_refl _) ?_
    (removingBelow acts stack kept)
  · by_cases here : c = d
    · subst here
      simpa [settle] using callbacks
    · simp [settle, here]
  · rintro ⟨c,connection,up⟩
    by_cases here : c = d
    · subst here
      by_cases ended : e.conn.state = .disconnected
      · obtain ⟨home,a,member,removes⟩ := closes up ended (known c connection)
        refine .inr ⟨a,?_,removes⟩
        rw [stack, home, Function.update_self]
        exact List.mem_append_left _ member
      · exact .inl ⟨c,connection,by simpa [settle] using ended⟩
    · exact .inl ⟨c,connection,by simpa [settle, here] using up⟩

theorem caredConn {w : World} {reported : List Nat} (h : Cared w reported) (sound : Sound w) {below : List Act}
    {d : ConnId} {out : Endpoint × List Frame} (same : Same (w.endpoint d) out.1)
    (advances : Advances (w.endpoint d) out.1 out.2)
    (kept : ∀ a ∈ w.stack loopThread, a.removes = true → a ∈ below) :
    Cared (settle loopThread below (ofConn w d out)) reported := by
  refine caredPut h same.callbacks (fun _ => kept) (fun up ended known => ⟨rfl,?_⟩) sound.owned.connection
  exact ⟨.conn d .closeCallback,List.mem_map_of_mem (advances.closes up ended (h.closable d known)),rfl⟩

theorem caredCall {w : World} {reported : List Nat} (h : Cared w reported) (sound : Sound w) (t : ThreadId) (d : ConnId)
    (call : UserCall) : Cared (settle t (w.stack t) (callConn w t d call)) reported := by
  refine caredPut h (sameRequest (w.endpoint d) t call).callbacks ?_ (fun up ended _ => ?_) sound.owned.connection
  · intro home a member _
    rw [home]
    exact member
  · exact absurd ((requestMonotone (w.endpoint d) t call).2 ended) up

theorem resetSocketFlags (w : World) : (resetSocket w).client = { w.client with socket := none } ∧
    (resetSocket w).nextTemporary = w.nextTemporary ∧ (resetSocket w).timers = w.timers := by
  simp only [resetSocket]
  split <;> exact ⟨rfl,rfl,rfl⟩

/- HandleConnect: the client has a connection that is Connected. -/
theorem handleConnectCared {w : World} (closable : ∀ c < w.next, (w.conns c).callbacks.close = true) (fd : Fd)
    (bufferSize : Nat) :
    (∀ c < (handleConnect w fd bufferSize).1.next, ((handleConnect w fd bufferSize).1.conns c).callbacks.close = true) ∧
    Alive (handleConnect w fd bufferSize).1 ∧ (handleConnect w fd bufferSize).1.client.connecting = false := by
  have same := sameRun ((adopt w fd bufferSize).endpoint w.next) (f := .connectEstablished)
  refine ⟨fun c made => ?_,⟨w.next,rfl,?_⟩,rfl⟩
  · rcases Nat.lt_succ_iff_lt_or_eq.mp made with old | new
    · have other : c ≠ w.next := Nat.ne_of_lt old
      rw [handleConnect, ofConn, putOther _ _ other, adoptOther old]
      exact closable c old
    · subst new
      rw [handleConnect, ofConn, putSame, same.callbacks, World.endpoint, adoptNew]
      rfl
  · rw [handleConnect, ofConn, putSame]
    simp [Endpoint.run, connectEstablished, setState, enableReading]

theorem caredConnect {w : World} {reported : List Nat} (h : Cared w reported) (stopped : w.client.started = false)
    (below : List Act) (fd : Fd) (bufferSize : Nat) (outcome : Outcome) :
    Cared (settle loopThread below (connect w fd bufferSize outcome)) reported := by
  obtain ⟨opened,made⟩ : ∃ opened, opened =
      openSocket { w with client := { w.client with started := true, connecting := true } } fd := ⟨_,rfl⟩
  obtain ⟨conns,next,_,_,_,temporaries,_⟩ :=
    resetSocketRest { w with client := { w.client with started := true, connecting := true } }
  have conns' : opened.conns = w.conns := by rw [made]; exact conns
  have next' : opened.next = w.next := by rw [made]; exact next
  have temporaries' : opened.temporaries = w.temporaries := by rw [made]; exact temporaries
  have number' : opened.nextTemporary = w.nextTemporary := by rw [made]; exact (resetSocketFlags _).2.1
  have closable : ∀ c < opened.next, (opened.conns c).callbacks.close = true := by
    rw [conns', next']
    exact h.closable
  have waiting : ∀ k ch, opened.temporaries k = some ch → k < opened.nextTemporary ∧ k ∉ reported := by
    rw [temporaries', number']
    exact h.waiting
  have numbered : ∀ k ∈ reported, k < opened.nextTemporary := by
    rw [number']
    exact h.numbered
  unfold connect
  rw [if_neg (by simp [stopped])]
  simp only [← made]
  cases outcome with
  | connected =>
    obtain ⟨closable',alive,off⟩ := handleConnectCared closable fd bufferSize
    exact ⟨closable',waiting,numbered,fun _ => .inl alive,fun on => by
      rw [show (settle loopThread below ((handleConnect opened fd bufferSize).1,_)).client.connecting = false from off] at on
      cases on⟩
  | inProgress =>
    have attempt : Attempting (watchTemporary opened fd) reported := by
      refine ⟨opened.nextTemporary,_,Function.update_self _ _ _,?_,?_⟩
      · intro member
        exact Nat.lt_irrefl _ (numbered _ member)
      · have kept := fun p ch => (updateChannelSame opened.isOpen p ch).2.1
        have own : opened.client.socket = some (some fd) := by rw [made]; rfl
        simp only [watchTemporary, kept]
        exact own
    refine ⟨closable,fun k ch found => ?_,fun k member => Nat.lt_succ_of_lt (numbered k member),
      fun _ => .inr (.inl attempt),fun _ => attempt⟩
    have found' : (watchTemporary opened fd).temporaries k = some ch := found
    simp only [watchTemporary, Function.update_apply] at found'
    split at found'
    · rename_i here
      refine ⟨by rw [here]; exact Nat.lt_succ_self _,fun member => ?_⟩
      rw [here] at member
      exact Nat.lt_irrefl _ (numbered _ member)
    · exact ⟨Nat.lt_succ_of_lt (waiting k ch found').1,(waiting k ch found').2⟩
  | failed =>
    obtain ⟨conns'',next'',_,_,_,temporaries'',_⟩ :=
      resetSocketRest { opened with client := { opened.client with connecting := false, started := false } }
    obtain ⟨flags,number'',_⟩ :=
      resetSocketFlags { opened with client := { opened.client with connecting := false, started := false } }
    refine ⟨?_,?_,?_,?_,?_⟩ <;> simp only [settle, conns'', next'', temporaries'', number'', flags]
    · exact closable
    · exact waiting
    · exact numbered
    · exact fun on => by cases on
    · exact fun on => by cases on

theorem caredTail {w : World} {reported : List Nat} (h : Cared w reported) {f : Act} {below : List Act}
    (top : w.stack loopThread = f :: below) (other : f.removes = false)
    (finished : ∀ fd, w.client.socket ≠ some (some fd)) : Cared (settle loopThread below (resetSocket w,[])) reported := by
  obtain ⟨conns,next,_,stack,_,temporaries,connection,_⟩ := resetSocketRest w
  obtain ⟨flags,number,timers⟩ := resetSocketFlags w
  have nothing : ¬ Attempting w reported := fun ⟨_,ch,_,_,own⟩ => finished ch.fd own
  refine ⟨?_,?_,?_,fun on => ?_,fun on => ?_⟩
  · simp only [settle, conns, next]
    exact h.closable
  · simp only [settle, temporaries, number]
    exact h.waiting
  · simp only [settle, number]
    exact h.numbered
  · rw [settle, flags] at on
    rcases h.started on with ⟨c,found,up⟩ | attempt | armed | removing
    · exact .inl ⟨c,by rw [settle, connection]; exact found,by simp only [settle, conns]; exact up⟩
    · exact absurd attempt nothing
    · exact .inr (.inr (.inl (by simp only [settle, timers]; exact armed)))
    · refine .inr (.inr (.inr (removingBelow [] ?_ (keptBelow top other) removing)))
      rw [settle, stack]
  · rw [settle, flags] at on
    exact absurd (h.connecting on) nothing

theorem caredRemoved {w : World} {reported : List Nat} {below : List Act}
    (h : Cared (settle loopThread below (w,[])) reported) (ch : Channel) :
    Cared (settle loopThread below (removeTemporary w ch,[])) reported := by
  unfold removeTemporary
  split
  · exact caredKeeps h (fun _ => rfl) rfl rfl rfl rfl (fun on => on) (fun on => on) (Nat.le_refl _) .inl (fun left => left)
  · exact h

/- The write callback of a temporary channel, whose outcome has now been reported. -/
theorem caredCallback {w : World} {reported : List Nat} {k : Nat} {ch : Channel} {err bufferSize : Nat} {out : Effect}
    (closable : ∀ c < w.next, (w.conns c).callbacks.close = true)
    (waiting : ∀ j c, w.temporaries j = some c → j < w.nextTemporary ∧ j ∉ k :: reported)
    (numbered : ∀ j ∈ k :: reported, j < w.nextTemporary)
    (retried : err ≠ 0 → w.client.started = true → w.client.autoReconnect = true)
    (taken : writeCallback w ch err bufferSize = some out) : Cared (settle loopThread [] out) (k :: reported) := by
  unfold writeCallback at taken
  split at taken
  · rename_i failed
    cases taken
    refine caredRemoved ?_ ch
    unfold retry
    dsimp only
    split
    · exact ⟨closable,waiting,numbered,fun _ => .inr (.inr (.inl (Nat.succ_pos _))),fun on => by cases on⟩
    · rename_i quiet
      refine ⟨closable,waiting,numbered,fun on => ?_,fun on => by cases on⟩
      have on' : w.client.started = true := on
      exact absurd (by simp [on', retried failed on']) quiet
  · split at taken <;> cases taken
    rename_i fd own
    obtain ⟨closable',alive,off⟩ := handleConnectCared closable fd bufferSize
    refine ⟨closable',waiting,numbered,fun _ => .inl alive,fun on => ?_⟩
    rw [settle, off] at on
    cases on

theorem caredEvent {w : World} {reported : List Nat} (h : Cared w reported) {k : Nat} {ch : Channel}
    {revents : Revents} {err bufferSize : Nat} {out : Effect} (idle : w.stack loopThread = [])
    (waiting : w.temporaries k = some ch) (mild : strands w (.temporaryEvent k revents err bufferSize) = false)
    (taken : handleEvent w k ch revents err bufferSize = some out) :
    Cared (settle loopThread [] out) (reports w (.temporaryEvent k revents err bufferSize) w reported) := by
  simp only [strands, Bool.or_eq_false_iff] at mild
  obtain ⟨⟨noError,noHangUp⟩,retried⟩ := mild
  unfold handleEvent at taken
  simp only [noError, noHangUp, Bool.false_or] at taken
  simp only [reports, noError, noHangUp, Bool.false_or]
  cases written : revents.write with
  | false =>
    simp only [written, Bool.not_false, if_true] at taken
    cases taken
    have same := settleSame w loopThread
    rw [idle] at same
    simpa [same] using h
  | true =>
    simp only [written, Bool.not_true, Bool.false_eq_true, if_false] at taken
    simp only [if_true]
    have known := (h.waiting k ch waiting).1
    refine caredCallback ?_ ?_ ?_ ?_ taken
    · exact h.closable
    · intro j c found
      simp only [Function.update_apply] at found
      split at found
      · cases found
      · rename_i other
        obtain ⟨below,fresh⟩ := h.waiting j c found
        exact ⟨below,by simp [other, fresh]⟩
    · intro j member
      rcases List.mem_cons.mp member with same | old
      · rw [same]; exact known
      · exact h.numbered j old
    · intro failed on
      have on' : w.client.started = true := on
      simpa [written, failed, on'] using retried

/- ConnectDestroyed is not among the functors of a client. -/
structure Plain (w : World) : Prop where
  calls : ∀ t c f, .call c f ∈ w.stack t → f ≠ .connectDestroyed
  queue : ∀ x ∈ w.queue, x.2 ≠ .connectDestroyed

theorem plainSettle {w : World} (h : Plain w) {t : ThreadId} {below : List Act} {out : Effect}
    (under : ∀ a ∈ below, a ∈ w.stack t) (stack : out.1.stack = w.stack)
    (queue : ∀ x ∈ out.1.queue, x ∈ w.queue ∨ x.2 ≠ .connectDestroyed)
    (acts : ∀ c f, .call c f ∈ out.2 → f ≠ .connectDestroyed) : Plain (settle t below out) := by
  refine ⟨fun t' c f member => ?_,fun x member => (queue x member).elim (h.queue x) (fun other => other)⟩
  simp only [settle, Function.update_apply] at member
  split at member
  · rcases List.mem_append.mp member with new | old
    · exact acts c f new
    · exact h.calls t c f (under _ old)
  · rw [stack] at member
    exact h.calls t' c f member

theorem plainConn {w : World} (h : Plain w) {t : ThreadId} {below : List Act} (under : ∀ a ∈ below, a ∈ w.stack t)
    (c : ConnId) (out : Endpoint × List Frame) : Plain (settle t below (ofConn w c out)) :=
  plainSettle h under rfl (fun _ member => .inl member) (by simp [ofConn])

theorem plainCall {w : World} (h : Plain w) (t : ThreadId) (c : ConnId) (call : UserCall) :
    Plain (settle t (w.stack t) (callConn w t c call)) := by
  refine plainSettle h (fun _ member => member) rfl (fun _ member => .inl member) (fun d f member => ?_)
  obtain ⟨g,handed,same⟩ := List.mem_map.mp member
  have here := Option.mem_toList.mp handed
  cases same
  cases call <;> simp only [Endpoint.request, send, shutdown, forceClose] at here <;> split at here <;>
    first | (cases here; simp) | cases here

theorem connectRest (w : World) (fd : Fd) (bufferSize : Nat) (outcome : Outcome) :
    (connect w fd bufferSize outcome).1.stack = w.stack ∧ (connect w fd bufferSize outcome).1.queue = w.queue ∧
    ∀ c f, .call c f ∉ (connect w fd bufferSize outcome).2 := by
  have opened : ∀ v : World, (openSocket v fd).stack = v.stack ∧ (openSocket v fd).queue = v.queue :=
    fun v => ⟨(resetSocketRest v).2.2.2.1,(resetSocketRest v).2.2.2.2.1⟩
  obtain ⟨stack,queue⟩ := opened { w with client := { w.client with started := true, connecting := true } }
  unfold connect
  split
  · exact ⟨rfl,rfl,by simp⟩
  · cases outcome with
    | connected => exact ⟨stack,queue,by simp [handleConnect, ofConn]⟩
    | inProgress => exact ⟨stack,queue,by simp⟩
    | failed =>
      dsimp only
      rw [(resetSocketRest _).2.2.2.1, (resetSocketRest _).2.2.2.2.1]
      exact ⟨stack,queue,by simp⟩

theorem plainStep {w w' : World} {a : Action} (h : Plain w) (taken : step w a = some w') : Plain w' := by
  have under : ∀ {t f rest}, w.stack t = f :: rest → ∀ a ∈ rest, a ∈ w.stack t := by
    intro t f rest top a member
    rw [top]
    exact List.mem_cons_of_mem _ member
  have removed : ∀ (v : World) ch, (removeTemporary v ch).stack = v.stack ∧ (removeTemporary v ch).queue = v.queue := by
    intro v ch
    unfold removeTemporary
    split <;> exact ⟨rfl,rfl⟩
  cases stepCases taken with
  | @connect fd bufferSize outcome runs fresh =>
    obtain ⟨stack,queue,none_⟩ := connectRest w fd bufferSize outcome
    exact plainSettle h (fun _ member => member) stack (fun x member => .inl (by rw [← queue]; exact member))
      (fun c f member => absurd member (none_ c f))
  | disconnect runs =>
    unfold disconnect
    have flags : Plain { w with client := { w.client with autoReconnect := false, started := false } } :=
      ⟨h.calls,h.queue⟩
    dsimp only
    split
    · exact plainCall flags loopThread _ .shutdown
    · exact plainSettle h (fun _ member => member) rfl (fun _ member => .inl member) (by simp)
  | setAutoReconnect => exact ⟨h.calls,h.queue⟩
  | user runs known => exact plainCall h _ _ _
  | @close t c rest top =>
    refine plainSettle h (under top) rfl (fun _ member => .inl member) (fun d f member => ?_)
    simp only [handleRemoveConnection] at member
    split at member <;> simp at member
  | resume top own => exact plainConn h (under top) _ _
  | run top => exact plainConn h (under top) _ _
  | @post t c f rest top other =>
    refine plainSettle h (under top) rfl (fun x member => ?_) (by simp)
    rcases List.mem_append.mp member with old | new
    · exact .inl old
    · rw [List.mem_singleton.mp new]
      exact .inr (h.calls t c f (by simp [top]))
  | connectTail top =>
    obtain ⟨_,_,_,stack,queue,_⟩ := resetSocketRest w
    exact plainSettle h (under top) stack (fun x member => .inl (by rw [← queue]; exact member)) (by simp)
  | temporaryTail top =>
    obtain ⟨_,_,_,stack,queue,_⟩ := resetSocketRest w
    obtain ⟨stack',queue'⟩ := removed (resetSocket w) _
    exact plainSettle h (under top) (stack'.trans stack)
      (fun x member => .inl (by rw [← queue, ← queue']; exact member)) (by simp)
  | removeTail top =>
    refine plainSettle h (under top) ?_ (fun x member => ?_) (by simp)
    · unfold removeTail
      split <;> rfl
    · refine .inl ?_
      unfold removeTail at member
      split at member <;> exact member
  | ret top callback => exact plainSettle h (under top) rfl (fun _ member => .inl member) (by simp)
  | @runQueued x rest idle head =>
    refine plainSettle h (by simp) rfl (fun y member => .inl (by rw [head]; exact List.mem_cons_of_mem _ member)) ?_
    intro c f member
    cases List.mem_singleton.mp member
    exact h.queue x (by simp [head])
  | event idle known ok => exact plainConn h (by simp) _ _
  | @temporaryEvent k ch revents err bufferSize out idle waiting found watched out_ =>
    unfold handleEvent at out_
    split at out_
    · cases out_
      exact plainSettle h (by simp) rfl (fun _ member => .inl member) (by simp)
    · unfold writeCallback at out_
      split at out_
      · cases out_
        have rest : ∀ v : World, (retry v).stack = v.stack ∧ (retry v).queue = v.queue := by
          intro v
          unfold retry
          split <;> exact ⟨rfl,rfl⟩
        refine plainSettle h (by simp) ?_ (fun x member => .inl ?_) (by simp)
        · rw [(removed _ ch).1, (rest _).1]
        · rwa [(removed _ ch).2, (rest _).2] at member
      · split at out_ <;> cases out_
        exact plainSettle h (by simp) rfl (fun _ member => .inl member) (by simp [handleConnect, ofConn])
  | reconnect idle fresh =>
    rw [doReconnectIgnored]
    exact plainSettle h (by simp) rfl (fun _ member => .inl member) (by simp)
  | environment done =>
    obtain ⟨_,_,poller,isOpen,same,_⟩ := environmentWithin done
    subst same
    exact ⟨h.calls,h.queue⟩

theorem caredStep {w w' : World} {reported : List Nat} {a : Action} (sound : Sound w) (plain : Plain w) (h : Cared w reported)
    (mild : strands w a = false) (taken : step w a = some w') : Cared w' (reports w a w' reported) := by
  have fits : ∀ {t f rest}, w.stack t = f :: rest → f.Fits w t := by
    intro t f rest top
    exact sound.fits t f (by simp [top])
  cases stepCases taken with
  | @connect fd bufferSize outcome runs fresh =>
    cases started : w.client.started with
    | false => exact caredConnect h started _ fd bufferSize outcome
    | true =>
      simp only [connect, started, if_true, settleSame]
      exact h
  | disconnect runs =>
    unfold disconnect
    have flags : Cared { w with client := { w.client with autoReconnect := false, started := false } } reported :=
      caredKeeps h (fun _ => rfl) rfl rfl rfl rfl (fun on => by cases on) (fun on => on) (Nat.le_refl _) .inl
        (fun left => left)
    have sound' : Sound { w with client := { w.client with autoReconnect := false, started := false } } :=
      soundFlags sound (besideFlags _ rfl rfl)
    dsimp only
    split
    · exact caredCall flags sound' loopThread _ .shutdown
    · rw [settleSame { w with client := { w.client with autoReconnect := false, started := false } } loopThread]
      exact flags
  | setAutoReconnect =>
    exact caredKeeps h (fun _ => rfl) rfl rfl rfl rfl (fun on => on) (fun on => on) (Nat.le_refl _) .inl (fun left => left)
  | user runs known => exact caredCall h sound _ _ _
  | @close t c rest top =>
    have home : t = loopThread := (fits top).1
    subst home
    have removing : Removing (settle loopThread rest (handleRemoveConnection w c)) := by
      refine ⟨.removeTail,?_,rfl⟩
      simp [settle, handleRemoveConnection]
    exact caredKeeps h (fun _ => rfl) rfl rfl rfl rfl (fun on => on) (fun on => on) (Nat.le_refl _)
      (fun _ => .inr removing) (fun _ => removing)
  | @resume t c f rest top own =>
    obtain ⟨home,known,ended⟩ := fits top
    subst home
    have other : (Act.conn c f).removes = false := by cases f <;> first | rfl | cases own
    exact caredConn h sound (sameResume _ f) (advancesSame (resumeState _ f)) (keptBelow top other rfl)
  | @run c f rest top =>
    exact caredConn h sound (sameRun _) (runAdvances _ (plain.calls loopThread c f (by simp [top]))) (keptBelow top rfl rfl)
  | @post t c f rest top other =>
    refine caredKeeps h (fun _ => rfl) rfl rfl rfl rfl (fun on => on) (fun on => on) (Nat.le_refl _) .inl ?_
    exact removingBelow [] rfl (fun home => absurd home other)
  | @connectTail t c rest top =>
    have home : t = loopThread := (fits top).1
    subst home
    refine caredTail h top rfl (fun fd own => ?_)
    simp [strands, top, own] at mild
  | @temporaryTail t ch c rest top =>
    have home : t = loopThread := (fits top).1
    subst home
    refine caredRemoved (caredTail h top rfl (fun fd own => ?_)) ch
    simp [strands, top, own] at mild
  | @removeTail t rest top =>
    have connecting : w.client.connecting = true → Attempting w reported := h.connecting
    unfold removeTail
    split
    · exact ⟨h.closable,h.waiting,h.numbered,fun _ => .inr (.inr (.inl (Nat.succ_pos _))),fun on => by cases on⟩
    · exact ⟨h.closable,h.waiting,h.numbered,(fun on => by cases on),connecting⟩
  | @ret t f rest top callback =>
    have other : f.removes = false := by
      cases f with
      | conn c f => cases f <;> first | rfl | cases callback
      | removeTail => cases callback
      | _ => rfl
    refine caredKeeps h (fun _ => rfl) rfl rfl rfl rfl (fun on => on) (fun on => on) (Nat.le_refl _) .inl ?_
    exact removingBelow [] rfl (keptBelow top other)
  | @runQueued x rest idle head =>
    refine caredKeeps h (fun _ => rfl) rfl rfl rfl rfl (fun on => on) (fun on => on) (Nat.le_refl _) .inl ?_
    rintro ⟨a,member,_⟩
    rw [idle] at member
    cases member
  | @event c ev idle known ok =>
    exact caredConn h sound (sameChange (Connection.handleChange _ ok)) (handleAdvances _ ev) (by simp [idle])
  | temporaryEvent idle waiting found watched out_ => exact caredEvent h idle waiting mild out_
  | @reconnect fd bufferSize outcome idle fresh =>
    rw [doReconnectIgnored]
    refine ⟨h.closable,h.waiting,h.numbered,fun on => ?_,h.connecting⟩
    have on' : w.client.started = true := on
    simp only [strands, on', Bool.true_and, Bool.and_eq_false_iff, Bool.not_eq_false'] at mild
    rcases mild with connecting | connected
    · exact .inr (.inl (h.connecting connecting))
    · refine .inl ?_
      unfold World.isConnected at connected
      split at connected
      · rename_i c found
        refine ⟨c,found,fun ended => ?_⟩
        have ended' : (w.conns c).state = .disconnected := ended
        simp [TcpConnection.isConnected, ended'] at connected
      · cases connected
  | environment done =>
    obtain ⟨_,_,poller,isOpen,same,_⟩ := environmentWithin done
    subst same
    exact caredKeeps h (fun _ => rfl) rfl rfl rfl rfl (fun on => on) (fun on => on) (Nat.le_refl _) .inl (fun left => left)

theorem caredInitial {w : World} (h : Initial w) : Cared w [] := by
  obtain ⟨⟨started,connecting,_,_⟩,⟨next,nobody⟩,_⟩ := h
  refine ⟨fun c made => ?_,fun k ch found => ?_,by simp,fun on => ?_,fun on => ?_⟩
  · rw [next] at made
    cases made
  · rw [nobody k] at found
    cases found
  · rw [started] at on
    cases on
  · rw [connecting] at on
    cases on

theorem plainInitial {w : World} (h : Initial w) : Plain w :=
  ⟨fun t c f member => by simp [h.stack] at member,fun x member => by simp [h.queue] at member⟩

/- Where the attempt fails and no other is wanted, the client is as if never started. -/
theorem failsStops {w w' : World} {a : Action} (failed : fails w a = true) (mild : strands w a = false)
    (off : w.client.autoReconnect = false) (taken : step w a = some w') :
    w'.client.started = false ∧ w'.client.connecting = false := by
  cases stepCases taken with
  | @connect fd bufferSize outcome runs fresh =>
    cases outcome with
    | failed =>
      have stopped : w.client.started = false := by simpa [fails] using failed
      simp only [connect, stopped, Bool.false_eq_true, if_false, settle, (resetSocketFlags _).1]
      exact ⟨trivial,trivial⟩
    | _ => cases failed
  | @temporaryEvent k ch revents err bufferSize out idle waiting found watched out_ =>
    simp only [strands, Bool.or_eq_false_iff] at mild
    obtain ⟨⟨noError,noHangUp⟩,retried⟩ := mild
    simp only [fails, noError, noHangUp, Bool.false_or, Bool.and_eq_true, bne_iff_ne] at failed
    obtain ⟨written,err_⟩ := failed
    have stopped : w.client.started = false := by simpa [written, err_, off] using retried
    simp only [handleEvent, noError, noHangUp, written, Bool.false_or, Bool.not_true, Bool.false_eq_true, if_false,
      writeCallback, if_pos err_, Option.some.injEq] at out_
    subst out_
    simp only [settle, removeTemporary, retry, off, Bool.false_and, Bool.false_eq_true, if_false]
    split <;> exact ⟨stopped,rfl⟩
  | _ => cases failed

/- The write callback hears of the refusal, and the timer is armed. -/
def refusedWritable : List Action := [.connect 5 64 .inProgress,.temporaryEvent 0 ⟨false,false,false,true⟩ 111 64]

/- A refused connect() is reported as writable with error and hang-up. -/
def refusedError : List Action := [.connect 5 64 .inProgress,.temporaryEvent 0 ⟨true,true,false,true⟩ 111 64]

end TcFrame.TcpClient
