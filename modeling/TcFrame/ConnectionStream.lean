import TcFrame.Connection

/-! The output stream of a connection: what the socket has accepted and what is still
in the output buffer are together the messages that passed SendInLoop, in that order,
for every interleaving of senders, writes and closes. -/
namespace TcFrame.Connection
open Endpoint

/- The bytes of the stream and the two counters kept beside them. -/
structure Stream (e : Endpoint) (bytes : Bytes) : Prop where
  valid : e.conn.outputBuffer.Valid
  whole : e.conn.socket.accepted ++ e.conn.outputBuffer.readable = bytes
  total : e.conn.totalBytesWritten = e.conn.socket.accepted.length
  counter : e.conn.pendingWriteBytes =
    if e.conn.state = .disconnected then 0 else e.conn.outputBuffer.readableBytes

theorem streamWritten {e : Endpoint} {bytes : Bytes} {n : Nat} (h : Stream e bytes)
    (connected : e.conn.state = .connected) (accepted : n ≤ e.conn.outputBuffer.readableBytes) :
    Stream (e.written n) bytes := by
  obtain ⟨valid,readable⟩ := Buffer.writeToFdKeeps h.valid accepted
  have size := Buffer.readableLength h.valid
  refine ⟨valid,?_,?_,?_⟩
  · simp only [written, readable, List.append_assoc, List.take_append_drop]
    exact h.whole
  · simp only [written, h.total, List.length_append, List.length_take, size, Nat.min_eq_left accepted]
  · simp [written, connected]

theorem streamWatch {e : Endpoint} {bytes : Bytes} (h : Stream e bytes) : Stream e.watchWriting bytes := by
  obtain ⟨ch,conn,_⟩ := watchWritingConn e
  exact ⟨by rw [conn]; exact h.valid,by rw [conn]; exact h.whole,by rw [conn]; exact h.total,
    by rw [conn]; exact h.counter⟩

theorem streamChange {e e' : Endpoint} {frames : List Frame} {bytes : Bytes} (h : Stream e bytes)
    (change : Change e e' frames) : Stream e' bytes := by
  cases change with
  | ignored => exact h
  | established fresh =>
    have counter := h.counter
    rw [if_neg (by simp [fresh])] at counter
    exact ⟨h.valid,h.whole,h.total,by simpa [setState, enableReading] using counter⟩
  | closed open_ done frames =>
    exact ⟨done.output ▸ h.valid,by rw [done.socket, done.output]; exact h.whole,
      by rw [done.total, done.socket]; exact h.total,by rw [done.pending, if_pos done.state]⟩
  | received bs => exact ⟨h.valid,h.whole,h.total,h.counter⟩
  | wrotePart connected accepted left => exact streamWritten h connected accepted
  | wroteAll connected accepted left =>
    have next := streamWritten h connected accepted
    exact ⟨next.valid,next.whole,next.total,next.counter⟩
  | shutting pending => exact streamWatch h

theorem streamAppended {e : Endpoint} {bytes : Bytes} (h : Stream e bytes)
    (connected : e.conn.isConnected = true) (data : Bytes) : Stream (e.appended data) (bytes ++ data) := by
  have state : e.conn.state = .connected := by simpa [TcpConnection.isConnected] using connected
  refine ⟨Buffer.appendValid h.valid data,?_,h.total,?_⟩
  · simp only [appended, Buffer.appendReadable h.valid data, ← List.append_assoc, h.whole]
  · simp [appended, state]

def streamOf (w : World) : Bytes := (w.passed.map Message.data).flatten

theorem streamExec {w : World} (h : Stream w.ep (streamOf w)) {f : Functor}
    (fresh : f = .connectEstablished → w.state = .connecting) :
    Stream (exec w f).ep (streamOf (exec w f)) := by
  cases f with
  | sendInLoop m =>
    cases passes : w.conn.isConnected with
    | true =>
      have bytes : streamOf (exec w (.sendInLoop m)) = streamOf w ++ m.data := by
        simp [exec, passes, streamOf]
      have ep : (exec w (.sendInLoop m)).ep = w.ep.appended m.data := by
        simp only [exec, passes, if_true]
        exact (sendInLoopPassed passes).1
      rw [bytes, ep]
      exact streamAppended h passes m.data
    | false =>
      have refused : w.ep.sendInLoop m.data = (w.ep,[]) := sendInLoopRefused passes
      have same : (exec w (.sendInLoop m)).ep = w.ep := by
        simp [exec, passes, continueWith, Endpoint.run, refused]
      have bytes : streamOf (exec w (.sendInLoop m)) = streamOf w := by
        simp [exec, passes, streamOf, continueWith]
      rw [bytes, same]
      exact h
  | connectEstablished => exact streamChange h (runChange w.ep (by simp) fresh)
  | connectDestroyed => exact streamChange h (runChange w.ep (by simp) (by simp))
  | shutdownInLoop => exact streamChange h (runChange w.ep (by simp) (by simp))
  | forceCloseInLoop => exact streamChange h (runChange w.ep (by simp) (by simp))

/- A public call only moves the state away from Connected, never to Disconnected. -/
theorem streamRequest {w : World} (h : Stream w.ep (streamOf w)) (t : ThreadId) (c : UserCall) :
    Stream (request w t c).1.ep (streamOf (request w t c).1) := by
  have counter := h.counter
  cases c with
  | send data =>
    simp only [request, send]
    split <;> exact h
  | shutdown =>
    simp only [request, shutdown]
    split
    · rename_i connected
      rw [if_neg (by simp [connected])] at counter
      exact ⟨h.valid,h.whole,h.total,by simpa [setState] using counter⟩
    · exact h
  | forceClose =>
    simp only [request, forceClose]
    split
    · rename_i isOpen
      have live : w.ep.conn.state ≠ .disconnected := by rcases openState isOpen with s | s <;> simp [s]
      rw [if_neg live] at counter
      exact ⟨h.valid,h.whole,h.total,by simpa [setState] using counter⟩
    · exact h

/- A call of the loop's own thread runs at once. -/
theorem streamUser {w : World} (h : Stream w.ep (streamOf w)) (c : UserCall) :
    Stream (runInline (request w loopThread c)).ep (streamOf (runInline (request w loopThread c))) := by
  have requested := streamRequest h loopThread c
  simp only [runInline]
  split
  · exact requested
  · rename_i f handed
    refine streamExec requested ?_
    intro same
    subst same
    cases c <;> simp only [request, send, shutdown, forceClose] at handed <;> split at handed <;> cases handed

theorem streamResume {e : Endpoint} {bytes : Bytes} (h : Stream e bytes) (f : Frame) :
    Stream (e.resume f).1 bytes := by
  cases f with
  | sendTail => exact streamWatch h
  | closeSocket =>
    simp only [resume, closeSocket]
    split
    · exact h
    · exact ⟨h.valid,h.whole,h.total,h.counter⟩
  | invalidateSocket => exact ⟨h.valid,h.whole,h.total,h.counter⟩
  | _ => exact h

theorem streamStep {w w' : World} {a : Action} (h : Stream w.ep (streamOf w))
    (taken : step w a = some w') : Stream w'.ep (streamOf w') := by
  cases stepCases taken with
  | establish idle fresh => exact streamExec h (fun _ => fresh)
  | destroy idle => exact streamExec h (by simp)
  | event idle up ok => exact streamChange h (handleChange w.ep ok)
  | @runQueued f rest idle head fresh =>
    have popped : Stream ({ w with queue := rest } : World).ep (streamOf { w with queue := rest }) := h
    exact streamExec popped fresh
  | @resume f below top own => exact streamResume h f
  | ret top callback => exact h
  | user runs => exact streamUser h _
  | @foreign t c other free => exact streamRequest h t c
  | push flying => exact h
  | environment done =>
    obtain ⟨poller,isOpen,same,_⟩ := environmentCases done
    subst same
    exact ⟨h.valid,h.whole,h.total,h.counter⟩

theorem streamInitial {w : World} (h : Initial w) : Stream w.ep (streamOf w) := by
  have socket : w.ep.conn.socket = ⟨some w.ep.conn.channel.fd,[]⟩ := h.socket
  have state : w.ep.conn.state = .connecting := h.state
  have valid : w.ep.conn.outputBuffer.Valid := h.output.1
  refine ⟨valid,?_,?_,?_⟩
  · rw [socket, List.nil_append, streamOf, h.logs.2]; exact h.output.2
  · rw [socket]; exact h.counters.2
  · rw [if_neg (by simp [state]), ← Buffer.readableLength valid]
    exact h.counters.1.trans (congrArg List.length h.output.2).symm

theorem streamReachable {w : World} (h : Reachable w) : Stream w.ep (streamOf w) :=
  Machine.reachableInvariant (fun _ => streamInitial) (fun _ _ _ => streamStep) h

/- The order of messages, sender by sender. -/
def fromSender (t : ThreadId) (ms : List Message) : List Message := ms.filter (fun m => m.sender == t)

def messages (fs : List Functor) : List Message :=
  fs.filterMap (fun f => match f with | .sendInLoop m => some m | _ => none)

def flying (w : World) (t : ThreadId) : List Message := messages (w.inFlight t).toList

/- A message goes through its thread's hands, the queue and SendInLoop, in each without
overtaking another of the same thread; the loop's own messages go straight through. -/
structure Ordered (w : World) : Prop where
  numbered : w.sent.map Message.seq = List.range w.sent.length
  straight : w.inFlight loopThread = none
  own : ∀ t, ∀ m ∈ flying w t, m.sender = t
  queued : ∀ m ∈ messages w.queue, m.sender ≠ loopThread
  order : ∀ t, (fromSender t (w.passed ++ messages w.queue ++ flying w t)).Sublist (fromSender t w.sent)

theorem fromSenderOther {t : ThreadId} {ms : List Message} (h : ∀ m ∈ ms, m.sender ≠ t) :
    fromSender t ms = [] := by
  simpa [fromSender] using h

theorem fromSenderAppend (t : ThreadId) (as bs : List Message) :
    fromSender t (as ++ bs) = fromSender t as ++ fromSender t bs := by
  simp [fromSender]

theorem messagesAppend (fs gs : List Functor) : messages (fs ++ gs) = messages fs ++ messages gs := by
  simp [messages]

/- What the order depends on. -/
theorem orderedSame {w w' : World} (h : Ordered w) (sent : w'.sent = w.sent) (passed : w'.passed = w.passed)
    (queue : messages w'.queue = messages w.queue) (inFlight : w'.inFlight = w.inFlight) : Ordered w' := by
  have fly : ∀ t, flying w' t = flying w t := fun t => by rw [flying, flying, inFlight]
  exact ⟨by rw [sent]; exact h.numbered,by rw [inFlight]; exact h.straight,fun t => by rw [fly]; exact h.own t,
    by rw [queue]; exact h.queued,fun t => by rw [passed, queue, fly, sent]; exact h.order t⟩

theorem execLogs (w : World) (f : Functor) :
    (exec w f).sent = w.sent ∧ (exec w f).queue = w.queue ∧ (exec w f).inFlight = w.inFlight ∧
    ((exec w f).passed = w.passed ∨ ∃ m, f = .sendInLoop m ∧ (exec w f).passed = w.passed ++ [m]) := by
  cases f with
  | sendInLoop m =>
    simp only [exec]
    split
    · exact ⟨rfl,rfl,rfl,.inr ⟨m,rfl,rfl⟩⟩
    · exact ⟨rfl,rfl,rfl,.inl rfl⟩
  | _ => exact ⟨rfl,rfl,rfl,.inl rfl⟩

theorem orderedQueued {w : World} (h : Ordered w) {f : Functor} {rest : List Functor}
    (head : w.queue = f :: rest) : Ordered (exec { w with queue := rest } f) := by
  obtain ⟨sent,queue,inFlight,passed⟩ := execLogs { w with queue := rest } f
  have fly : ∀ t, flying (exec { w with queue := rest } f) t = flying w t := fun t => by
    rw [flying, flying, inFlight]
  have split : messages w.queue = messages [f] ++ messages rest := by
    rw [head, ← messagesAppend]; rfl
  have shorter : ∀ t, (fromSender t ((exec { w with queue := rest } f).passed ++ messages rest ++
      flying w t)).Sublist (fromSender t (w.passed ++ messages w.queue ++ flying w t)) := by
    intro t
    rcases passed with same | ⟨m,rfl,grown⟩
    · rw [same, split]
      refine List.Sublist.filter _ (List.Sublist.append_right (List.Sublist.append_left ?_ _) _)
      exact List.sublist_append_right _ _
    · have one : messages [Functor.sendInLoop m] = [m] := rfl
      rw [grown, split, one]
      simp only [List.append_assoc, List.Sublist.refl]
  refine ⟨by rw [sent]; exact h.numbered,by rw [inFlight]; exact h.straight,fun t => by rw [fly]; exact h.own t,?_,?_⟩
  · intro m member
    rw [queue] at member
    exact h.queued m (by rw [split]; exact List.mem_append_right _ member)
  · intro t
    rw [fly, queue, sent]
    exact (shorter t).trans (h.order t)

/- What one public call by `t` adds: at most one message, numbered as no other, of which
at most one functor is handed over. -/
def Issued (w : World) (t : ThreadId) (sent handed : List Message) : Prop :=
  (sent = w.sent ∧ handed = []) ∨
  ∃ data, sent = w.sent ++ [⟨t,w.sent.length,data⟩] ∧ (handed = [] ∨ handed = [⟨t,w.sent.length,data⟩])

theorem requestLogs (w : World) (t : ThreadId) (c : UserCall) :
    (request w t c).1.queue = w.queue ∧ (request w t c).1.passed = w.passed ∧
    (request w t c).1.inFlight = w.inFlight ∧
    Issued w t (request w t c).1.sent (messages (request w t c).2.toList) := by
  cases c with
  | send data =>
    refine ⟨rfl,rfl,rfl,.inr ⟨data,rfl,?_⟩⟩
    simp only [request, send]
    split
    · exact .inr rfl
    · exact .inl rfl
  | shutdown =>
    refine ⟨rfl,rfl,rfl,.inl ⟨rfl,?_⟩⟩
    simp only [request, shutdown]
    split <;> rfl
  | forceClose =>
    refine ⟨rfl,rfl,rfl,.inl ⟨rfl,?_⟩⟩
    simp only [request, forceClose]
    split <;> rfl

theorem issuedSender {w : World} {t : ThreadId} {sent ms : List Message} (h : Issued w t sent ms) :
    ∀ m ∈ ms, m.sender = t := by
  rcases h with ⟨_,rfl⟩ | ⟨data,_,rfl | rfl⟩ <;> simp

theorem issuedDropped {w : World} {t : ThreadId} {sent ms : List Message} (h : Issued w t sent ms) :
    Issued w t sent [] := by
  rcases h with ⟨same,_⟩ | ⟨data,grown,_⟩
  · exact .inl ⟨same,rfl⟩
  · exact .inr ⟨data,grown,.inl rfl⟩

theorem orderedIssued {w w' : World} (h : Ordered w) {t : ThreadId} {ms : List Message}
    (issued : Issued w t w'.sent ms) (straight : w'.inFlight loopThread = none)
    (own : ∀ t, ∀ m ∈ flying w' t, m.sender = t) (queue : w'.queue = w.queue)
    (grown : ∀ t', fromSender t' (w'.passed ++ messages w'.queue ++ flying w' t') =
      fromSender t' (w.passed ++ messages w.queue ++ flying w t') ++ fromSender t' ms) : Ordered w' := by
  rcases issued with ⟨same,rfl⟩ | ⟨data,sent,new⟩
  · exact ⟨by rw [same]; exact h.numbered,straight,own,by rw [queue]; exact h.queued,
      fun t' => by rw [grown, same]; simpa [fromSender] using h.order t'⟩
  · refine ⟨by rw [sent]; simp [h.numbered, List.range_succ],straight,own,by rw [queue]; exact h.queued,?_⟩
    intro t'
    rw [grown, sent, fromSenderAppend t' w.sent]
    refine List.Sublist.append (h.order t') (List.Sublist.filter _ ?_)
    rcases new with rfl | rfl
    · exact List.nil_sublist _
    · exact List.Sublist.refl _

theorem orderedUser {w : World} (h : Ordered w) (c : UserCall) :
    Ordered (runInline (request w loopThread c)) := by
  obtain ⟨queue,passed,inFlight,issued⟩ := requestLogs w loopThread c
  have noFly : flying w loopThread = [] := by simp [flying, h.straight, messages]
  have fly : ∀ w' : World, w'.inFlight = w.inFlight → ∀ t, flying w' t = flying w t :=
    fun w' same t => by rw [flying, flying, same]
  cases handed : (request w loopThread c).2 with
  | none =>
    simp only [runInline, handed]
    exact orderedIssued h (issuedDropped issued) (by rw [inFlight]; exact h.straight)
      (fun t => by rw [fly _ inFlight]; exact h.own t) queue
      (fun t => by rw [passed, queue, fly _ inFlight]; simp [fromSender])
  | some f =>
    simp only [runInline, handed]
    obtain ⟨sent',queue',inFlight',passed'⟩ := execLogs (request w loopThread c).1 f
    have same := inFlight'.trans inFlight
    rcases passed' with kept | ⟨m,rfl,grown⟩
    · refine orderedIssued h (by rw [sent']; exact issuedDropped issued) (by rw [same]; exact h.straight)
        (fun t => by rw [fly _ same]; exact h.own t) (queue'.trans queue) ?_
      intro t
      rw [kept, passed, queue', queue, fly _ same]
      simp [fromSender]
    · have one : Issued w loopThread (request w loopThread c).1.sent [m] := by
        rw [handed] at issued; exact issued
      refine orderedIssued h (by rw [sent']; exact one) (by rw [same]; exact h.straight)
        (fun t => by rw [fly _ same]; exact h.own t) (queue'.trans queue) ?_
      intro t
      rw [grown, passed, queue', queue, fly _ same]
      simp only [fromSenderAppend, List.append_assoc]
      by_cases here : t = loopThread
      · subst here
        rw [noFly, fromSenderOther h.queued]
        simp [fromSender]
      · have absent : fromSender t [m] = [] :=
          fromSenderOther (fun x hx => by rw [issuedSender one x hx]; exact Ne.symm here)
        rw [absent]; simp

theorem orderedForeign {w : World} (h : Ordered w) {t : ThreadId} (c : UserCall) (other : t ≠ loopThread)
    (free : w.inFlight t = none) :
    Ordered { (request w t c).1 with inFlight := Function.update w.inFlight t (request w t c).2 } := by
  obtain ⟨queue,passed,inFlight,issued⟩ := requestLogs w t c
  have sender := issuedSender issued
  have empty : messages (w.inFlight t).toList = [] := by simp [free, messages]
  refine orderedIssued h issued ?_ ?_ queue ?_
  · simp only [Function.update_of_ne (Ne.symm other)]; exact h.straight
  · intro t' m member
    by_cases here : t' = t
    · subst here
      simp only [flying, Function.update_self] at member
      exact sender m member
    · simp only [flying, Function.update_of_ne here] at member
      exact h.own t' m member
  · intro t'
    by_cases here : t' = t
    · subst here
      simp only [fromSenderAppend, flying, Function.update_self, passed, queue, empty]
      simp [fromSender]
    · have absent : fromSender t' (messages (request w t c).2.toList) = [] :=
        fromSenderOther (fun m hm => by rw [sender m hm]; exact Ne.symm here)
      rw [absent, List.append_nil]
      simp only [flying, Function.update_of_ne here, passed, queue]

theorem orderedPush {w : World} (h : Ordered w) {t : ThreadId} {f : Functor} (held : w.inFlight t = some f) :
    Ordered { w with queue := w.queue ++ [f], inFlight := Function.update w.inFlight t none } := by
  have other : t ≠ loopThread := by
    intro same
    rw [same, h.straight] at held
    cases held
  have fly : flying w t = messages [f] := by simp [flying, held]
  have sender : ∀ m ∈ messages [f], m.sender = t := fun m hm => h.own t m (by rw [fly]; exact hm)
  refine ⟨h.numbered,?_,?_,?_,?_⟩
  · simp only [Function.update_of_ne (Ne.symm other)]; exact h.straight
  · intro t' m member
    by_cases here : t' = t
    · subst here
      simp [flying, messages] at member
    · simp only [flying, Function.update_of_ne here] at member
      exact h.own t' m member
  · intro m member
    rw [messagesAppend] at member
    rcases List.mem_append.mp member with old | new
    · exact h.queued m old
    · rw [sender m new]; exact other
  · intro t'
    have old := h.order t'
    by_cases here : t' = t
    · subst here
      rw [fly] at old
      have none' : messages (none : Option Functor).toList = [] := rfl
      simp only [flying, Function.update_self, none', messagesAppend, List.append_nil, ← List.append_assoc]
      exact old
    · have absent : fromSender t' (messages [f]) = [] :=
        fromSenderOther (fun m hm => by rw [sender m hm]; exact Ne.symm here)
      simp only [flying, Function.update_of_ne here, messagesAppend, fromSenderAppend, absent, List.append_nil]
      simpa only [fromSenderAppend, flying] using old

theorem orderedStep {w w' : World} {a : Action} (h : Ordered w) (taken : step w a = some w') : Ordered w' := by
  have kept : ∀ {f}, (∀ m, f ≠ .sendInLoop m) → Ordered (exec w f) := by
    intro f other
    obtain ⟨sent,queue,inFlight,passed⟩ := execLogs w f
    rcases passed with same | ⟨m,is,_⟩
    · exact orderedSame h sent same (congrArg messages queue) inFlight
    · exact absurd is (other m)
  cases stepCases taken with
  | establish idle fresh => exact kept (by simp)
  | destroy idle => exact kept (by simp)
  | event idle up ok => exact orderedSame h rfl rfl rfl rfl
  | runQueued idle head fresh => exact orderedQueued h head
  | resume top own => exact orderedSame h rfl rfl rfl rfl
  | ret top callback => exact orderedSame h rfl rfl rfl rfl
  | @user c runs => exact orderedUser h c
  | @foreign t c other free => exact orderedForeign h c other free
  | push held => exact orderedPush h held
  | environment done =>
    obtain ⟨poller,isOpen,same,_⟩ := environmentCases done
    subst same
    exact orderedSame h rfl rfl rfl rfl

theorem orderedInitial {w : World} (h : Initial w) : Ordered w := by
  have fly : ∀ t, flying w t = [] := fun t => by simp [flying, h.inFlight, messages]
  refine ⟨by simp [h.logs],h.inFlight _,fun t => by simp [fly],by simp [h.queue, messages],fun t => ?_⟩
  simp [h.logs, h.queue, fly, messages, fromSender]

theorem orderedReachable {w : World} (h : Reachable w) : Ordered w :=
  Machine.reachableInvariant (fun _ => orderedInitial) (fun _ _ _ => orderedStep) h

/- The integrity of the output stream in every reachable state. The numbers make the
messages of `sent` pairwise distinct, so each is passed at most once. -/
theorem outputIntegrity {w : World} (h : Reachable w) :
    w.accepted ++ w.pending = (w.passed.map Message.data).flatten ∧
    (∀ t, (fromSender t w.passed).Sublist (fromSender t w.sent)) ∧
    w.sent.map Message.seq = List.range w.sent.length ∧
    w.conn.totalBytesWritten = w.accepted.length ∧
    w.conn.pendingWriteBytes = if w.state = .disconnected then 0 else w.pending.length := by
  have stream := streamReachable h
  have ordered := orderedReachable h
  refine ⟨stream.whole,?_,ordered.numbered,stream.total,?_⟩
  · intro t
    have front : (fromSender t w.passed).Sublist (fromSender t (w.passed ++ messages w.queue ++ flying w t)) := by
      simp only [fromSenderAppend, List.append_assoc]
      exact List.sublist_append_left _ _
    exact front.trans (ordered.order t)
  · rw [World.pending, Buffer.readableLength stream.valid]
    exact stream.counter

/- A run with two senders: the loop's thread sends while thread 1 has its message queued,
one byte is written, and the queued message runs after it. -/
def twoSenders : List Action :=
  [.establish,.ret,.foreign 1 (.send [7,8]),.push 1,.user (.send [5]),.resume,
    .event (.write (.ok 1)),.runQueued,.resume]

theorem outputIntegrityTwoSenders :
    ∃ w, Reachable w ∧ w.accepted = [5] ∧
      w.accepted ++ w.pending = (w.passed.map Message.data).flatten := by
  have reached : ∃ w, Machine.run step (fresh 3 ⟨true,true,false,true,false⟩ 64 4) twoSenders = some w ∧
      w.accepted = [5] := ⟨_,rfl,rfl⟩
  obtain ⟨w,run,first⟩ := reached
  have reachable : Reachable w := ⟨_,_,freshInitial _ _ _ _,run⟩
  exact ⟨w,reachable,first,(outputIntegrity reachable).1⟩

end TcFrame.Connection
