import TcFrame.TcpClientTails

/-! The runs of Connect. A connection that was made at once keeps what it was registered
with; the tail of the other kind removes the temporary channel's entry, and with it the
connection's interest. -/
namespace TcFrame.TcpClient
open Endpoint EpollPoller Machine

/- No temporary channel can be reported. -/
def Idle (w : World) : Prop :=
  ∀ k ch, w.temporaries k = some ch → ch.id = temporaryChannel k ∧ ¬ w.poller.Registered ch.fd ch.id

theorem idleTemporary {w : World} (h : Idle w) : Temporary w :=
  fun k ch waiting => ⟨(h k ch waiting).1,fun found => absurd found (h k ch waiting).2⟩

theorem idleWithin {w w' : World} (h : Idle w) {fd : Fd} {id : Nat}
    (within : Within fd id w.poller w.isOpen w'.poller w'.isOpen) (differ : ∀ k, temporaryChannel k ≠ id)
    (temporaries : w'.temporaries = w.temporaries) : Idle w' := by
  intro k ch waiting
  rw [temporaries] at waiting
  obtain ⟨id',unheard⟩ := h k ch waiting
  exact ⟨id',fun found => unheard (registeredWithin within (by rw [id']; exact differ k) found)⟩

theorem idleReset {w : World} (h : Temporary w) : Idle (resetSocket w) := by
  intro k ch waiting
  rw [(resetSocketRest w).2.2.2.2.2.1] at waiting
  obtain ⟨id,own⟩ := h k ch waiting
  refine ⟨id,fun found => ?_⟩
  have before : w.poller.Registered ch.fd ch.id := by
    unfold resetSocket at found
    dsimp only at found
    split at found
    · rename_i fd _
      exact registeredWithin (withinClosed w.poller w.isOpen fd (ch.id + 1)) (Nat.ne_of_lt (Nat.lt_succ_self _)) found
    · exact found
  -- the channel's descriptor is the one that m_socket has just closed
  have socket := (own before).1
  have watched := found.2
  simp [resetSocket, socket, EpollPoller.closed] at watched

theorem onwardReset (w : World) : Onward w (resetSocket w) := by
  obtain ⟨conns,next,vacant,_⟩ := resetSocketRest w
  exact onwardSame conns next vacant

/- The descriptor of m_socket is no connection's. -/
theorem ownElsewhere {w : World} (h : Owned w) {fd : Fd} (own : w.client.socket = some (some fd)) {c : ConnId}
    (known : c < w.next) (connected : (w.conns c).state = .connected) : (w.conns c).channel.fd ≠ fd := by
  intro same
  have valid := (h.up c known (by rw [connected]; simp)).1
  rw [same] at valid
  exact (h.own fd own).2 c known valid

theorem watchedReset {w : World} (h : Owned w) {c : ConnId} (known : c < w.next) (hw : Watched w c) :
    Watched (resetSocket w) c := by
  unfold resetSocket
  dsimp only
  split
  · rename_i fd own
    exact watchedElsewhere (withinClosed w.poller w.isOpen fd 0) rfl rfl (ownElsewhere h own known) hw
  · exact hw

theorem onwardOpen (w : World) (fd : Fd) : Onward w (openSocket w fd) := by
  obtain ⟨conns,next,vacant,_⟩ := resetSocketRest w
  exact onwardSame conns next vacant

theorem idleOpen {w : World} (h : Temporary w) (fd : Fd) : Idle (openSocket w fd) := idleReset h

theorem watchedOpen {w : World} (h : Owned w) {c : ConnId} (known : c < w.next) (fd : Fd) (hw : Watched w c) :
    Watched (openSocket w fd) c :=
  attendedSame (watchedReset h known hw) rfl rfl rfl rfl

/- The kernel knows nothing of a new descriptor. -/
theorem openUnknown {w : World} (h : Owned w) {fd : Fd} (fresh : isFresh w fd = true) :
    (openSocket w fd).poller.interest fd = none :=
  (ownedReset h).kernel fd (resetSocketClosed (freshUnused fresh).1)

theorem withinConnect {w : World} (h : Owned w) {fd : Fd} (bufferSize : Nat) (own : w.client.socket = some (some fd)) :
    Within fd (connectionChannel w.next) w.poller w.isOpen
      (handleConnect w fd bufferSize).1.poller (handleConnect w fd bufferSize).1.isOpen := by
  have works := (worksConnect w fd bufferSize).inside
  have id : ((adopt w fd bufferSize).conns w.next).channel.id = connectionChannel w.next :=
    (ownedAdopt h bufferSize own).id _ (Nat.lt_succ_self _)
  have at_ : ((adopt w fd bufferSize).conns w.next).channel.fd = fd := by rw [adoptNew]; rfl
  rw [Inside] at works
  simp only [World.endpoint, id, at_] at works
  exact works

theorem onwardConnect (w : World) (fd : Fd) (bufferSize : Nat) : Onward w (handleConnect w fd bufferSize).1 :=
  onwardTrans (onwardAdopt w fd bufferSize) (onwardPut (worksConnect w fd bufferSize))

theorem idleConnect {w : World} (h : Owned w) (i : Idle w) {fd : Fd} (bufferSize : Nat)
    (own : w.client.socket = some (some fd)) : Idle (handleConnect w fd bufferSize).1 :=
  idleWithin i (withinConnect h bufferSize own) (temporaryNot _) rfl

theorem watchedConnect {w : World} (h : Owned w) {fd : Fd} (bufferSize : Nat) (own : w.client.socket = some (some fd))
    {c : ConnId} (known : c < w.next) (hw : Watched w c) : Watched (handleConnect w fd bufferSize).1 c := by
  have other : c ≠ w.next := Nat.ne_of_lt known
  have conns : (handleConnect w fd bufferSize).1.conns c = w.conns c := by
    simp [handleConnect, ofConn, other, adoptOther known]
  refine watchedElsewhere (withinConnect h bufferSize own) conns ?_ (ownElsewhere h own known) hw
  exact (onwardConnect w fd bufferSize).vacant c known

theorem watchedNew {w : World} (h : Owned w) {fd : Fd} (bufferSize : Nat) (own : w.client.socket = some (some fd))
    (unknown : w.poller.interest fd = none) : Watched (handleConnect w fd bufferSize).1 w.next := by
  have new := adoptNew w fd bufferSize
  have established := attendedEstablished (e := (adopt w fd bufferSize).endpoint w.next)
    (by simp only [World.endpoint, new]; exact (h.own fd own).1) (by simp only [World.endpoint, new]; exact unknown)
  have vacant : (handleConnect w fd bufferSize).1.vacant w.next =
      (((adopt w fd bufferSize).endpoint w.next).poller.fdToChannel
        ((adopt w fd bufferSize).endpoint w.next).conn.channel.fd).isNone := by
    simp only [World.endpoint, new]
    simp [handleConnect, ofConn, World.put, adopt, TcpConnection.create]
  rw [Watched, vacant]
  simpa [World.endpoint, handleConnect, ofConn, World.put] using established

/- What is done beside the connections and their channels. -/
structure Beside (w w' : World) : Prop where
  conns : w'.conns = w.conns
  next : w'.next = w.next
  vacant : w'.vacant = w.vacant
  temporaries : w'.temporaries = w.temporaries
  poller : w'.poller = w.poller
  isOpen : w'.isOpen = w.isOpen
  stack : w'.stack = w.stack
  socket : w'.client.socket = w.client.socket
  connection : ∀ c, w'.client.connection = some c → w.client.connection = some c
  queue : ∀ x ∈ w'.queue, x ∈ w.queue ∨ (x.1 < w.next ∧ x.2 ≠ .connectEstablished)

theorem besideFlags {w : World} {client : Client} (timers : Nat) (socket : client.socket = w.client.socket)
    (connection : client.connection = w.client.connection) : Beside w { w with client := client, timers := timers } :=
  ⟨rfl,rfl,rfl,rfl,rfl,rfl,rfl,socket,fun _ found => connection.symm.trans found,fun _ member => .inl member⟩

theorem besideRefl (w : World) : Beside w w := besideFlags w.timers rfl rfl

theorem soundBeside {w : World} (h : Sound w) {t : ThreadId} {below : List Act} {out : Effect}
    (suffix : below <:+ w.stack t) (b : Beside w out.1)
    (frames : ∀ a ∈ out.2, a.Fits w t ∧ (∀ ch c, a ≠ .temporaryTail ch c) ∧ ∀ c, a ≠ .connectTail c)
    (above : (∀ a ∈ out.2, a.of = none) ∨ below = []) : Sound (settle t below out) := by
  have o : Onward w out.1 := onwardSame b.conns b.next b.vacant
  have same : Within 0 0 w.poller w.isOpen out.1.poller out.1.isOpen := by
    rw [b.poller, b.isOpen]
    exact withinRefl
  have owned : Owned out.1 := by
    obtain ⟨id,stored,apart,up,own,connection,kernel⟩ := h.owned
    refine ⟨?_,?_,?_,?_,?_,fun c found => ?_,same.kernel kernel⟩
    · rw [b.conns, b.next]; exact id
    · rw [b.conns, b.next]; exact stored
    · rw [b.conns, b.next]; exact apart
    · rw [b.conns, b.next, b.isOpen]; exact up
    · rw [b.conns, b.next, b.isOpen, b.socket]; exact own
    · rw [b.next]; exact connection c (b.connection c found)
  have temporary : Temporary out.1 := by
    unfold Temporary
    rw [b.temporaries, b.poller, b.socket]
    exact h.temporary
  refine soundSettle h suffix b.stack owned temporary o ?_ ?_ ?_ ?_ ?_
  · intro x member
    rw [b.next]
    exact b.queue x member
  · exact fun a member => fitsOnward o (frames a member).1
  · refine fun _ => ⟨?_,fun a member d under => ?_⟩
    · refine List.pairwise_of_forall_mem_list (fun a first d second => ⟨(frames a first).2.1,fun _ c _ tail => ?_⟩)
      exact absurd tail ((frames d second).2.2 c)
    · rcases above with none_ | empty
      · exact apartNone (none_ a member) (frames a member).2.1
      · rw [empty] at under
        cases under
  · intro c _ _ hw
    rw [Watched, World.endpoint, b.conns, b.vacant, b.poller, b.isOpen]
    exact hw
  · exact fun c member => absurd rfl ((frames _ member).2.2 c)

theorem soundFlags {w w' : World} (h : Sound w) (b : Beside w w') : Sound w' := by
  have settled : Sound (settle loopThread (w.stack loopThread) (w',[])) :=
    soundBeside h (List.suffix_refl _) b (by simp) (.inl (by simp))
  rw [← b.stack, settleSame] at settled
  exact settled

/- The new temporary channel. -/
theorem temporaryWatch {w : World} (i : Idle w) {fd : Fd} (own : w.client.socket = some (some fd))
    (unknown : w.poller.interest fd = none) : Temporary (watchTemporary w fd) ∧
    Within fd (temporaryChannel w.nextTemporary) w.poller w.isOpen (watchTemporary w fd).poller w.isOpen := by
  obtain ⟨ch,made⟩ : ∃ ch : Channel, ch =
      Channel.enableWriting ⟨temporaryChannel w.nextTemporary,fd,Events.none,false⟩ := ⟨_,rfl⟩
  obtain ⟨once,first⟩ : ∃ once, once = w.poller.updateChannel w.isOpen ch := ⟨_,rfl⟩
  obtain ⟨twice,second⟩ : ∃ twice, twice = once.1.updateChannel w.isOpen once.2 := ⟨_,rfl⟩
  have id : ch.id = temporaryChannel w.nextTemporary := by rw [made]; rfl
  have at_ : ch.fd = fd := by rw [made]; rfl
  have some_ : ch.events ≠ Events.none := by rw [made]; simp [Channel.enableWriting, Events.none]
  obtain ⟨id',fd',events'⟩ := updateChannelSame w.isOpen w.poller ch
  rw [← first] at id' fd' events'
  obtain ⟨id'',fd'',_⟩ := updateChannelSame w.isOpen once.1 once.2
  rw [← second] at id'' fd''
  have within : Within fd (temporaryChannel w.nextTemporary) w.poller w.isOpen twice.1 w.isOpen := by
    have one := withinUpdate w.poller w.isOpen ch
    have two := withinUpdate once.1 w.isOpen once.2
    rw [← first] at one
    rw [← second, id', fd'] at two
    rw [← id, ← at_]
    exact withinTrans one two
  have world : watchTemporary w fd = { w with
      poller := twice.1
      temporaries := Function.update w.temporaries w.nextTemporary (some twice.2)
      nextTemporary := w.nextTemporary + 1 } := by
    rw [second, first, made]
    rfl
  rw [world]
  refine ⟨fun k c waiting => ?_,within⟩
  simp only [Function.update_apply] at waiting
  split at waiting
  · rename_i here
    cases waiting
    refine ⟨by rw [id'', id', id, here],fun found => ⟨by rw [fd'', fd', at_]; exact own,?_⟩⟩
    rw [fd'', fd'] at found
    by_cases free : w.poller.fdToChannel ch.fd = none
    · -- the first update enters it, the second leaves the channel as it is
      obtain ⟨map,_,channel⟩ := updateChannelAdd w.isOpen some_ free
      rw [← first] at map channel
      have taken : once.1.fdToChannel once.2.fd ≠ none := by rw [fd', map]; simp
      have kept := (updateChannelMod w.isOpen (by rw [events']; exact some_) taken).2.2
      rw [← second] at kept
      rw [kept, channel]
    · -- another's entry has the descriptor, and the kernel never comes to watch it
      obtain ⟨map,interest,_⟩ := updateChannelMod w.isOpen some_ free
      rw [← first] at map interest
      rw [at_, unknown, epollCtlModNone] at interest
      have taken : once.1.fdToChannel once.2.fd ≠ none := by rw [fd', map]; exact free
      have last := (updateChannelMod w.isOpen (by rw [events']; exact some_) taken).2.1
      rw [← second, fd', at_, interest, epollCtlModNone] at last
      have watched := found.2
      rw [at_] at watched
      exact absurd last watched
  · rename_i other
    obtain ⟨id_,unheard⟩ := i k c waiting
    refine ⟨id_,fun found => absurd (registeredWithin within ?_ found) unheard⟩
    rw [id_]
    unfold temporaryChannel
    omega

theorem handleConnectFrames (w : World) (fd : Fd) (bufferSize : Nat) :
    ∀ a ∈ (handleConnect w fd bufferSize).2, a = .conn w.next .connectionCallback := by
  intro a member
  obtain ⟨f,made,same⟩ := List.mem_map.mp member
  have callback : f ∈ TcpConnection.call _ .connectionCallback := made
  unfold TcpConnection.call at callback
  split at callback
  · rw [← same, List.mem_singleton.mp callback]
  · cases callback

/- HandleConnect with what is left of its caller. -/
theorem soundHandle {w w' : World} (h : Sound w) {below : List Act} (suffix : below <:+ w.stack loopThread)
    (owned : Owned w') (i : Idle w') {fd : Fd} (bufferSize : Nat) (own : w'.client.socket = some (some fd))
    (o : Onward w w') (stack : w'.stack = w.stack) (queue : w'.queue = w.queue) (next : w'.next = w.next)
    (watched : ∀ c < w.next, Watched w c → Watched w' c) (tail : Act)
    (tail_ : (tail = .connectTail w'.next ∧ w'.poller.interest fd = none) ∨
      ∃ ch, tail = .temporaryTail ch w'.next ∧ ch.fd = fd ∧ ch.added = true ∧ below = []) :
    Sound (settle loopThread below
      ((handleConnect w' fd bufferSize).1,(handleConnect w' fd bufferSize).2 ++ [tail])) := by
  have o' : Onward w (handleConnect w' fd bufferSize).1 := onwardTrans o (onwardConnect w' fd bufferSize)
  have made : w'.next < (handleConnect w' fd bufferSize).1.next := Nat.lt_succ_self _
  have owned' := ownedConnect owned bufferSize own
  have callback := handleConnectFrames w' fd bufferSize
  have up : ((handleConnect w' fd bufferSize).1.conns w'.next).state ≠ .disconnected := by
    simp [handleConnect, ofConn, Endpoint.run, connectEstablished, enableReading, Endpoint.updateChannel, setState]
  have at_ : ((handleConnect w' fd bufferSize).1.conns w'.next).channel.fd = fd := by
    have same := (worksConnect w' fd bufferSize).same.fd
    rw [handleConnect, ofConn, putSame]
    refine same.trans ?_
    rw [World.endpoint, adoptNew]
    rfl
  refine soundSettle h suffix stack owned' (idleTemporary (idleConnect owned i bufferSize own)) o'
    (fun x member => .inl (by rw [← queue]; exact member)) ?_ ?_ ?_ ?_
  · intro a member
    rcases List.mem_append.mp member with called | last
    · rw [callback a called]
      exact ⟨rfl,made,by simp⟩
    · rw [List.mem_singleton.mp last]
      rcases tail_ with ⟨same,_⟩ | ⟨ch,same,fd_,added,_⟩ <;> subst same
      · exact ⟨rfl,made⟩
      · exact ⟨rfl,made,fd_.trans at_.symm,added⟩
  · refine fun _ => ⟨List.pairwise_append.mpr ⟨?_,by simp,?_⟩,?_⟩
    · refine List.pairwise_of_forall_mem_list (fun a first b second => ?_)
      rw [callback a first, callback b second]
      exact ⟨by simp,fun _ _ _ same => by cases same⟩
    · intro a called b last
      rw [callback a called, List.mem_singleton.mp last]
      refine ⟨by simp,fun d c named same => ?_⟩
      cases named
      rcases tail_ with ⟨here,_⟩ | ⟨ch,here,_⟩ <;> subst here <;> cases same
      exact .inl rfl
    · intro a member b under
      rcases List.mem_append.mp member with called | last
      · rw [callback a called]
        exact apartOpen owned' rfl up made (fitsOnward o' (h.fits _ b (suffix.subset under)))
      · rw [List.mem_singleton.mp last]
        rcases tail_ with ⟨same,_⟩ | ⟨ch,_,_,_,empty⟩
        · subst same
          exact apartNone rfl (by simp)
        · rw [empty] at under
          cases under
  · exact fun c known _ hw => watchedConnect owned bufferSize own (by rw [next]; exact known) (watched c known hw)
  · intro c member
    rcases List.mem_append.mp member with called | last
    · have same := callback _ called
      cases same
    · have same := List.mem_singleton.mp last
      rcases tail_ with ⟨here,unknown⟩ | ⟨ch,here,_⟩ <;> subst here <;> cases same
      exact watchedNew owned bufferSize own unknown


theorem soundReset {w : World} (h : Sound w) {t : ThreadId} {below : List Act} (suffix : below <:+ w.stack t) :
    Sound (settle t below (resetSocket w,[])) := by
  obtain ⟨_,_,_,stack,queue,_⟩ := resetSocketRest w
  refine soundSettle h suffix stack (ownedReset h.owned) (idleTemporary (idleReset h.temporary)) (onwardReset w)
    (fun x member => .inl (by rw [← queue]; exact member)) (by simp) (by simp) ?_ (by simp)
  exact fun c known _ hw => watchedReset h.owned known hw

theorem soundConnect {w : World} (h : Sound w) {below : List Act} (suffix : below <:+ w.stack loopThread) {fd : Fd}
    (fresh : isFresh w fd = true) (bufferSize : Nat) (outcome : Outcome) :
    Sound (settle loopThread below (connect w fd bufferSize outcome)) := by
  unfold connect
  split
  · exact soundBeside h suffix (besideRefl w) (by simp) (.inl (by simp))
  · obtain ⟨begun,made⟩ : ∃ begun, begun = { w with client := { w.client with started := true, connecting := true } } :=
      ⟨_,rfl⟩
    have beside : Beside w begun := by
      rw [made]
      exact besideFlags _ rfl rfl
    have h' := soundFlags h beside
    have fresh' : isFresh begun fd = true := by rw [made]; exact fresh
    have suffix' : below <:+ begun.stack loopThread := by rw [beside.stack]; exact suffix
    have owned := ownedOpen h'.owned fresh'
    have i := idleOpen h'.temporary fd
    have unknown := openUnknown h'.owned fresh'
    have own : (openSocket begun fd).client.socket = some (some fd) := rfl
    obtain ⟨_,next,_,stack,queue,_⟩ := resetSocketRest begun
    have watched : ∀ c < begun.next, Watched begun c → Watched (openSocket begun fd) c :=
      fun c known hw => watchedOpen h'.owned known fd hw
    rw [← made]
    cases outcome with
    | connected =>
      have tail : w.next = (openSocket begun fd).next := by rw [← beside.next]; exact next.symm
      rw [tail]
      exact soundHandle h' suffix' owned i bufferSize own (onwardOpen begun fd) stack queue next watched _
        (.inl ⟨rfl,unknown⟩)
    | inProgress =>
      obtain ⟨temporary,within⟩ := temporaryWatch i own unknown
      have owned' : Owned (watchTemporary (openSocket begun fd) fd) :=
        ownedElsewhere owned rfl rfl rfl rfl (fun _ _ => rfl) (within.kernel owned.kernel)
      refine soundSettle h' suffix' stack owned' temporary
        (onwardTrans (onwardOpen begun fd) (onwardSame rfl rfl rfl))
        (fun x member => .inl (by rw [← queue]; exact member)) (by simp) (by simp) ?_ (by simp)
      intro c known _ hw
      have known' : c < (openSocket begun fd).next := Nat.lt_of_lt_of_eq known next.symm
      exact watchedElsewhere within rfl rfl (ownElsewhere owned own known') (watched c known hw)
    | failed =>
      obtain ⟨refused,ended⟩ : ∃ refused, refused = { openSocket begun fd with
          client := { (openSocket begun fd).client with connecting := false, started := false } } := ⟨_,rfl⟩
      have opened : Sound (openSocket begun fd) :=
        soundMove h' stack queue owned (idleTemporary i) (onwardOpen begun fd) watched
      have flags : Sound refused := by
        refine soundFlags opened ?_
        rw [ended]
        exact besideFlags _ rfl rfl
      have stack' : refused.stack = begun.stack := by rw [ended]; exact stack
      have kept : below <:+ refused.stack loopThread := by rw [stack']; exact suffix'
      have reset := soundReset flags kept
      rw [ended] at reset
      exact reset

theorem removeTemporaryRest (w : World) (ch : Channel) :
    (removeTemporary w ch).conns = w.conns ∧ (removeTemporary w ch).next = w.next ∧
    (removeTemporary w ch).vacant = w.vacant ∧ (removeTemporary w ch).client = w.client ∧
    (removeTemporary w ch).isOpen = w.isOpen ∧ (removeTemporary w ch).stack = w.stack ∧
    (removeTemporary w ch).queue = w.queue ∧ (removeTemporary w ch).temporaries = w.temporaries := by
  unfold removeTemporary
  split <;> exact ⟨rfl,rfl,rfl,rfl,rfl,rfl,rfl,rfl⟩

theorem temporaryRemoved {w : World} (h : Temporary w) (ch : Channel) : Temporary (removeTemporary w ch) := by
  unfold removeTemporary
  split
  · intro k c waiting
    obtain ⟨id,own⟩ := h k c waiting
    exact ⟨id,fun found => own (registeredRemove ch found)⟩
  · exact h

/- With nothing below there is no connection's tail to mind. -/
theorem soundRemoveTemporary {w : World} (h : Sound w) (ch : Channel) :
    Sound (settle loopThread [] (removeTemporary w ch,[])) := by
  obtain ⟨conns,next,vacant,client,isOpen,stack,queue,_⟩ := removeTemporaryRest w ch
  have kernel : (removeTemporary w ch).poller.Kernel (removeTemporary w ch).isOpen := by
    unfold removeTemporary
    split
    · exact (withinRemove w.poller w.isOpen ch).kernel h.owned.kernel
    · exact h.owned.kernel
  have owned : Owned (removeTemporary w ch) :=
    ownedElsewhere h.owned (by rw [client]) (by rw [client]) conns next (fun _ _ => by rw [isOpen]) kernel
  refine soundSettle h (List.nil_suffix) stack owned (temporaryRemoved h.temporary ch)
    (onwardSame conns next vacant) (fun x member => .inl (by rw [← queue]; exact member)) (by simp) (by simp) ?_ (by simp)
  intro c _ tail
  cases tail rfl

theorem soundTemporaryTail {w : World} (h : Sound w) {ch : Channel} {c : ConnId} {below : List Act}
    (top : w.stack loopThread = .temporaryTail ch c :: below) :
    Sound (settle loopThread below (removeTemporary (resetSocket w) ch,[])) := by
  have empty : below = [] := by
    have apart := h.apart
    rw [top] at apart
    refine List.eq_nil_iff_forall_not_mem.mpr (fun b member => ?_)
    exact ((List.pairwise_cons.mp apart).1 b member).1 ch c rfl
  obtain ⟨_,_,_,stack,queue,_⟩ := resetSocketRest w
  have reset : Sound (resetSocket w) :=
    soundMove h stack queue (ownedReset h.owned) (idleTemporary (idleReset h.temporary)) (onwardReset w)
      (fun c known hw => watchedReset h.owned known hw)
  rw [empty]
  exact soundRemoveTemporary reset ch

/- The events of a temporary channel come between the other functions of the loop. -/
theorem soundHandleEvent {w : World} (h : Sound w) {k : Nat} {ch : Channel} {revents : Revents} {err bufferSize : Nat}
    {out : Effect} (waiting : w.temporaries k = some ch) (found : w.poller.Registered ch.fd ch.id)
    (taken : handleEvent w k ch revents err bufferSize = some out) : Sound (settle loopThread [] out) := by
  obtain ⟨ran,made⟩ : ∃ ran, ran = { w with temporaries := Function.update w.temporaries k none } := ⟨_,rfl⟩
  have others : ∀ j c, ran.temporaries j = some c → j ≠ k ∧ w.temporaries j = some c := by
    intro j c waiting'
    rw [made] at waiting'
    simp only [Function.update_apply] at waiting'
    split at waiting'
    · cases waiting'
    · exact ⟨by assumption,waiting'⟩
  have owned : Owned ran := by
    rw [made]
    exact ownedElsewhere h.owned rfl rfl rfl rfl (fun _ _ => rfl) h.owned.kernel
  have o : Onward w ran := by
    rw [made]
    exact onwardSame rfl rfl rfl
  unfold handleEvent at taken
  split at taken
  · cases taken
    exact soundBeside h List.nil_suffix (besideRefl w) (by simp) (.inl (by simp))
  · rw [← made] at taken
    unfold writeCallback at taken
    split at taken
    · cases taken
      have temporary : Temporary ran := by
        intro j c waiting'
        obtain ⟨id,own⟩ := h.temporary j c (others j c waiting').2
        rw [made]
        exact ⟨id,own⟩
      have base : Sound ran := by
        refine soundMove h (by rw [made]) (by rw [made]) owned temporary o (fun c _ hw => ?_)
        rw [made]
        exact hw
      refine soundRemoveTemporary (soundFlags base ?_) ch
      unfold retry
      split <;> exact besideFlags _ rfl rfl
    · split at taken <;> cases taken
      rename_i fd own
      obtain ⟨id,mine⟩ := h.temporary k ch waiting
      obtain ⟨socket,added⟩ := mine found
      have own' : w.client.socket = some (some fd) := by rw [made] at own; exact own
      have at_ : ch.fd = fd := by
        rw [socket] at own'
        exact Option.some.inj (Option.some.inj own')
      -- any other one that could be reported would stand in the same entry
      have i : Idle ran := by
        intro j c waiting'
        obtain ⟨other,before⟩ := others j c waiting'
        obtain ⟨id',theirs⟩ := h.temporary j c before
        refine ⟨id',fun found' => ?_⟩
        rw [made] at found'
        have same : c.fd = ch.fd := Option.some.inj (Option.some.inj ((theirs found').1.symm.trans socket))
        have entry : some c.id = some ch.id := by
          rw [← found.1, ← same]
          exact found'.1.symm
        have ids : temporaryChannel j = temporaryChannel k := by
          rw [← id', ← id]
          exact Option.some.inj entry
        unfold temporaryChannel at ids
        omega
      refine soundHandle h List.nil_suffix owned i bufferSize own o (by rw [made]) (by rw [made]) (by rw [made]) ?_ _
        (.inr ⟨ch,rfl,at_,added,rfl⟩)
      intro c _ hw
      rw [made]
      exact hw

/- The rest of the process works on one descriptor that the client does not use. -/
theorem environmentWithin {w w' : World} {x : Connection.Environment} (done : environment w x = some w') :
    ∃ fd id poller isOpen, w' = { w with poller := poller, isOpen := isOpen } ∧ w.uses fd = false ∧
      isForeign id = true ∧ Within fd id w.poller w.isOpen poller isOpen := by
  cases x with
  | opens fd =>
    simp only [environment] at done
    split at done <;> cases done
    rename_i ok
    exact ⟨fd,2,_,_,rfl,ok.1,rfl,withinOpened _ _ fd 2⟩
  | closes fd =>
    simp only [environment] at done
    split at done <;> cases done
    rename_i ok
    exact ⟨fd,2,_,_,rfl,ok,rfl,withinClosed _ _ fd 2⟩
  | updates ch =>
    simp only [environment] at done
    split at done <;> cases done
    rename_i ok
    exact ⟨ch.fd,ch.id,_,_,rfl,ok.1,ok.2,withinUpdate _ _ ch⟩
  | removes ch =>
    simp only [environment] at done
    split at done <;> cases done
    rename_i ok
    exact ⟨ch.fd,ch.id,_,_,rfl,ok.1,ok.2,withinRemove _ _ ch⟩

theorem soundEnvironment {w w' : World} (h : Sound w) {x : Connection.Environment} (done : environment w x = some w') :
    Sound w' := by
  obtain ⟨fd,id,poller,isOpen,same,unused,foreign,within⟩ := environmentWithin done
  have elsewhere : ∀ {x}, w.uses x = true → x ≠ fd := by
    intro x used here
    rw [here, unused] at used
    cases used
  have differ : ∀ k, temporaryChannel k ≠ id := by
    intro k here
    rw [← here] at foreign
    simp only [isForeign, temporaryChannel, beq_iff_eq] at foreign
    omega
  have owned : Owned w' := by
    rw [same]
    exact ownedElsewhere h.owned rfl rfl rfl rfl (fun x used => within.opened x (elsewhere used))
      (within.kernel h.owned.kernel)
  have temporary : Temporary w' := by
    rw [same]
    exact temporaryWithin h.temporary within differ rfl rfl
  refine soundMove h (by rw [same]) (by rw [same]) owned temporary ?_ (fun c known hw => ?_)
  · rw [same]
    exact onwardSame rfl rfl rfl
  · rw [same]
    refine watchedElsewhere within rfl rfl (fun connected => elsewhere (usesConn known ?_)) hw
    exact (h.owned.up c known (by rw [connected]; simp)).1

theorem soundStep {w w' : World} {a : Action} (h : Sound w) (taken : step w a = some w') : Sound w' := by
  have fits : ∀ {t f rest}, w.stack t = f :: rest → f.Fits w t := by
    intro t f rest top
    exact h.fits t f (by simp [top])
  have suffix : ∀ {t f rest}, w.stack t = f :: rest → rest <:+ w.stack t := by
    intro t f rest top
    rw [top]
    exact List.suffix_cons f rest
  have above : ∀ {d f rest}, w.stack loopThread = f :: rest → f.of = some d → ∀ c, .connectTail c ∈ rest →
      d = c ∨ (w.conns c).state = .disconnected ∨ (w.conns d).channel.fd ≠ (w.conns c).channel.fd := by
    intro d f rest top named c member
    have apart := h.apart
    rw [top] at apart
    exact ((List.pairwise_cons.mp apart).1 _ member).2 d c named rfl
  have open_ : ∀ {c}, c < w.next → (w.conns c).state = .connected → w.isOpen (w.conns c).channel.fd = true :=
    fun known connected => (h.owned.up _ known (by rw [connected]; simp)).2
  cases stepCases taken with
  | connect runs fresh => exact soundConnect h (List.suffix_refl _) fresh _ _
  | disconnect runs =>
    unfold disconnect
    have flags : Sound { w with client := { w.client with autoReconnect := false, started := false } } :=
      soundFlags h (besideFlags _ rfl rfl)
    dsimp only
    split
    · rename_i c found
      exact soundCall flags loopThread (h.owned.connection c found) .shutdown
    · exact soundBeside flags (List.suffix_refl _) (besideRefl _) (by simp) (.inl (by simp))
  | setAutoReconnect =>
    exact soundFlags h (besideFlags _ rfl rfl)
  | user runs known => exact soundCall h _ known _
  | @close t c rest top =>
    have home : t = loopThread := (fits top).1
    refine soundBeside h (suffix top) ⟨rfl,rfl,rfl,rfl,rfl,rfl,rfl,rfl,(fun _ found => by cases found),
      fun _ member => .inl member⟩ ?_ (.inl ?_)
    · intro a member
      rcases List.mem_append.mp member with user | tail
      · split at user
        · rw [List.mem_singleton.mp user]
          exact ⟨home,by simp,by simp⟩
        · cases user
      · rw [List.mem_singleton.mp tail]
        exact ⟨home,by simp,by simp⟩
    · intro a member
      rcases List.mem_append.mp member with user | tail
      · split at user
        · rw [List.mem_singleton.mp user]
          rfl
        · cases user
      · rw [List.mem_singleton.mp tail]
        rfl
  | @resume t c f rest top own =>
    obtain ⟨home,known,ended⟩ := fits top
    subst home
    exact soundConn h (suffix top) rfl known (worksResume (h.owned.stored c known) ended) (above top rfl)
      (fun _ hw => attendedResume hw (open_ known) ended)
  | @run c f rest top =>
    obtain ⟨known,other⟩ := fits top
    exact soundConn h (suffix top) rfl known (worksRun _ (fun same => absurd same other)) (above top rfl)
      (fun _ hw => attendedRun hw (open_ known) other)
  | @post t c f rest top other =>
    refine soundBeside h (suffix top) ⟨rfl,rfl,rfl,rfl,rfl,rfl,rfl,rfl,fun _ found => found,fun x member => ?_⟩ (by simp)
      (.inl (by simp))
    rcases List.mem_append.mp member with old | new
    · exact .inl old
    · rw [List.mem_singleton.mp new]
      exact .inr (fits top)
  | connectTail top => exact soundReset h (suffix top)
  | @temporaryTail t ch c rest top =>
    have home : t = loopThread := (fits top).1
    subst home
    exact soundTemporaryTail h top
  | removeTail top =>
    refine soundBeside h (suffix top) ?_ (by simp) (.inl (by simp))
    unfold removeTail
    split <;> exact besideFlags _ rfl rfl
  | ret top callback => exact soundBeside h (suffix top) (besideRefl w) (by simp) (.inl (by simp))
  | @runQueued x rest idle head =>
    have queued := h.queued x (by simp [head])
    refine soundBeside h List.nil_suffix ⟨rfl,rfl,rfl,rfl,rfl,rfl,rfl,rfl,fun _ found => found,fun y member => ?_⟩ ?_
      (.inr rfl)
    · exact .inl (by rw [head]; exact List.mem_cons_of_mem _ member)
    · intro a member
      rw [List.mem_singleton.mp member]
      exact ⟨queued,by simp,by simp⟩
  | event idle known ok =>
    exact soundConn h List.nil_suffix rfl known (worksHandle _ ok) (fun c member => by cases member)
      (fun member => by cases member)
  | temporaryEvent idle waiting found watched out_ => exact soundHandleEvent h waiting ⟨found,watched⟩ out_
  | @reconnect fd bufferSize outcome idle fresh =>
    have timers : Sound { w with timers := w.timers - 1 } :=
      soundFlags h (besideFlags _ rfl rfl)
    unfold doReconnect
    split
    · exact soundConnect timers List.nil_suffix fresh bufferSize outcome
    · exact soundBeside timers List.nil_suffix (besideRefl _) (by simp) (.inl (by simp))
  | environment done => exact soundEnvironment h done

theorem soundInitial {w : World} (h : Initial w) : Sound w := by
  obtain ⟨⟨_,_,socket,connection⟩,⟨next,nobody⟩,kernel,stack,queue,_⟩ := h
  have unmade : ∀ c, ¬ c < w.next := fun c made => Nat.not_lt_zero c (next ▸ made)
  refine ⟨⟨fun c made => absurd made (unmade c),fun c made => absurd made (unmade c),
    fun c made => absurd made (unmade c),fun c made => absurd made (unmade c),?_,?_,kernel⟩,?_,?_,?_,?_,?_⟩
  · intro fd own
    rw [socket] at own
    cases own
  · intro c found
    rw [connection] at found
    cases found
  · intro k ch waiting
    rw [nobody k] at waiting
    cases waiting
  · intro t a member
    rw [stack t] at member
    cases member
  · intro x member
    rw [queue] at member
    cases member
  · rw [stack]
    exact List.Pairwise.nil
  · intro c member
    rw [stack] at member
    cases member

/- What the handler of a completed connect() ends with: the tail of Connect when it
completed at once, of the temporary channel's callback when it completed later. -/
def Act.completes (c : ConnId) : Act → Prop
  | .connectTail d | .temporaryTail _ d => d = c
  | _ => False

/- When its completion handler returns, a connection that is Connected is listening if
and only if it was made at once and the poller had no entry under its descriptor. -/
theorem connectedListens {s w w' : World} {as : List Action} {a : Act} {below : List Act} {c : ConnId}
    (start : Initial s) (reached : run step s as = some w) (top : w.stack loopThread = a :: below)
    (handler : a.completes c) (returns : step w (.goOn loopThread) = some w')
    (connected : (w'.conns c).state = .connected) :
    Listening (w'.endpoint c) ↔ a = .connectTail c ∧ w.vacant c = true := by
  have h : Sound w := invariant (fun _ _ _ hu taken => soundStep hu taken) (soundInitial start) reached
  cases a with
  | connectTail d =>
    have here : d = c := handler
    subst here
    have known := (h.fits loopThread (.connectTail d) (by simp [top])).2
    have after := watchedReset h.owned known (h.watched d (by simp [top]))
    have vacant := congrFun (resetSocketRest w).2.2.1 d
    simp only [step, top, goOn, Option.map_some] at returns
    cases returns
    rw [Watched, vacant] at after
    constructor
    · intro listening
      refine ⟨rfl,?_⟩
      by_contra taken
      have unheard := (after.misses connected (by simpa using taken)).2
      exact absurd (listening.2.1.symm.trans unheard) (by simp)
    · exact fun free => after.hears connected free.2
  | temporaryTail ch d =>
    have here : d = c := handler
    subst here
    obtain ⟨_,_,same,added⟩ := h.fits loopThread (.temporaryTail ch d) (by simp [top])
    simp only [step, top, goOn, Option.map_some] at returns
    cases returns
    obtain ⟨conns,_⟩ := resetSocketRest w
    constructor
    · intro listening
      have mapped := listening.1
      simp only [World.endpoint, settle, removeTemporary, added, if_true, removeChannelMap, conns, same,
        Function.update_self] at mapped
      cases mapped
    · intro free
      cases free.1
  | _ => exact absurd handler (by simp [Act.completes])

/- A client with a connection callback, alone on its loop. -/
def constructed : World :=
  { client := ⟨false,false,false,none,none,⟨true,false,false,true,false⟩,false⟩
    conns := fun c => TcpConnection.create c 0 ⟨false,false,false,false,false⟩ 0 0
    next := 0
    temporaries := fun _ => none
    nextTemporary := 0
    poller := ⟨fun _ => none,fun _ => none⟩
    isOpen := fun _ => false
    stack := fun _ => []
    queue := []
    timers := 0
    vacant := fun _ => false }

theorem constructedInitial : Initial constructed :=
  ⟨⟨rfl,rfl,rfl,rfl⟩,⟨rfl,fun _ => rfl⟩,fun _ _ => rfl,fun _ => rfl,rfl,rfl⟩

/- connect() succeeds at once and the connection callback sends a byte. -/
def atOnce : List Action :=
  [.connect 5 64 .connected,.user 0 0 (.send [1]),.goOn 0,.goOn 0,.ret 0]

theorem connectedListensAtOnce : ∃ w w', run step constructed atOnce = some w ∧ step w (.goOn 0) = some w' ∧
    Listening (w'.endpoint 0) := by
  have reached : ∃ w w', run step constructed atOnce = some w ∧ w.stack loopThread = [.connectTail 0] ∧
      step w (.goOn 0) = some w' ∧ (w'.conns 0).state = .connected ∧ w.vacant 0 = true :=
    ⟨_,_,rfl,rfl,rfl,rfl,rfl⟩
  obtain ⟨w,w',taken,top,returns,connected,vacant⟩ := reached
  exact ⟨w,w',taken,returns,(connectedListens constructedInitial taken top rfl returns connected).mpr ⟨rfl,vacant⟩⟩

/- connect() completes later, through the temporary channel. -/
def later : List Action :=
  [.connect 5 64 .inProgress,.temporaryEvent 0 ⟨false,false,false,true⟩ 0 64,.ret 0]

theorem connectedIsDeaf : ¬ ∀ (s w w' : World) (as : List Action) (a : Act) (below : List Act) (c : ConnId),
    Initial s → run step s as = some w → w.stack loopThread = a :: below → a.completes c →
    step w (.goOn loopThread) = some w' → w'.client.connection = some c → (w'.conns c).state = .connected →
    Listening (w'.endpoint c) := by
  intro claimed
  have reached : ∃ w w' ch, run step constructed later = some w ∧ w.stack loopThread = [.temporaryTail ch 0] ∧
      step w (.goOn loopThread) = some w' ∧ w'.client.connection = some 0 ∧ (w'.conns 0).state = .connected ∧
      ((w'.endpoint 0).conn.channel.added = false) := ⟨_,_,_,rfl,rfl,rfl,rfl,rfl,rfl⟩
  obtain ⟨w,w',ch,taken,top,returns,connection,connected,deaf⟩ := reached
  have listening := claimed _ w w' _ _ _ 0 constructedInitial taken top rfl returns connection connected
  rw [listening.2.2.2] at deaf
  cases deaf

end TcFrame.TcpClient
