import TcFrame.TcpServerPlacement

/-! The descriptors of a server as the kernel sees them: none is left open without a connection
to close it, and none is closed twice, although their numbers are given out again at once. -/
namespace TcFrame
open Endpoint Machine

namespace Endpoint

/- Who leaves a connection Disconnected also leaves the close of its socket to be done. -/
theorem changeReleases {e e' : Endpoint} {frames : List Frame} (h : Change e e' frames)
    (up : e.conn.state ≠ .disconnected) (done : e'.conn.state = .disconnected) : .closeSocket ∈ frames := by
  cases h with
  | established fresh => cases done
  | closed open_ closed shape =>
    rcases shape with made | made | made <;> simp [made]
  | shutting pending => exact absurd ((watchWritingState e).symm.trans done) up
  | ignored | received bs => exact absurd done up
  | wrotePart connected accepted left | wroteAll connected accepted left => exact absurd done up

theorem runReleases {e : Endpoint} {f : Functor} (fresh : f = .connectEstablished → e.conn.state = .connecting)
    (up : e.conn.state ≠ .disconnected) (done : (e.run f).1.conn.state = .disconnected) : .closeSocket ∈ (e.run f).2 := by
  cases f with
  | sendInLoop m =>
    have state : (e.run (.sendInLoop m)).1.conn.state = e.conn.state := by
      cases passes : e.conn.isConnected with
      | true => rw [Endpoint.run, (sendInLoopPassed passes).1]; rfl
      | false => rw [Endpoint.run, sendInLoopRefused passes]
    exact absurd (state.symm.trans done) up
  | _ => exact changeReleases (runChange e (by simp) fresh) up done

end Endpoint

namespace TcpServer

/- The connection whose descriptor is closed by the step. -/
def closing (w : World) : Action → Option ConnId
  | .goOn t =>
    match w.stack t with
    | .conn c .closeSocket :: _ => some c
    | _ => none
  | _ => none

/- How often close() was called on the descriptor of each connection. -/
def noteClose (w : World) (a : Action) (_ : World) (closes : ConnId → Nat) : ConnId → Nat :=
  match closing w a with
  | some c => Function.update closes c (closes c + 1)
  | none => closes

theorem closingTop {w : World} {a : Action} {c : ConnId} (here : closing w a = some c) :
    ∃ t below, a = .goOn t ∧ w.stack t = .conn c .closeSocket :: below := by
  cases a with
  | goOn t =>
    simp only [closing] at here
    split at here
    · rename_i d below top
      cases here
      exact ⟨t,below,rfl,top⟩
    · cases here
  | _ => cases here

/- What a step does to the descriptors when it closes none: it keeps them and whose they are, or
one is accepted. -/
inductive Descriptors (w w' : World) : Prop where
  | kept (next : w'.host.next = w.host.next) (isOpen : w'.host.isOpen = w.host.isOpen)
      (fd : ∀ c, (w'.conn c).channel.fd = (w.conn c).channel.fd) (held : ∀ c < w.host.next, holds w' c ↔ holds w c)
  | accepted {fd} (next : w'.host.next = w.host.next + 1) (isOpen : w'.host.isOpen = Function.update w.host.isOpen fd true)
      (new : (w'.conn w.host.next).channel.fd = fd ∧ holds w' w.host.next)
      (old : ∀ c < w.host.next, (w'.conn c).channel.fd = (w.conn c).channel.fd ∧ (holds w' c ↔ holds w c))

/- A turn that leaves connection `c` the owner of its descriptor, or not. -/
structure Spares (w : World) (t : ThreadId) (top : List Act) (out : Effect) (c : ConnId) : Prop where
  finished : (w.conn c).state = .disconnected → (out.1.conn c).state = .disconnected ∧ .conn c .closeSocket ∉ out.2
  releases : (w.conn c).state ≠ .disconnected → (out.1.conn c).state = .disconnected →
    .conn c .closeSocket ∈ out.2 ∧ w.host.loopOf c = t
  spared : .conn c .closeSocket ∉ top

theorem holdsSettle {w : World} {t : ThreadId} {top below : List Act} {out : Effect} {c : ConnId}
    (split : w.stack t = top ++ below) (stack : out.1.stack = w.stack) (loop : out.1.host.loopOf = w.host.loopOf)
    (h : Spares w t top out c) : holds (settle t below out) c ↔ holds w c := by
  have loopOf : (settle t below out).host.loopOf c = w.host.loopOf c := congrFun loop c
  refine ⟨fun held => ?_,fun held => ?_⟩
  · by_contra free
    obtain ⟨done,still⟩ := not_or.mp free
    obtain ⟨done',silent⟩ := h.finished (not_not.mp done)
    rcases held with up | closing
    · exact up done'
    · rw [loopOf] at closing
      rcases settledAct split stack closing with ⟨_,new⟩ | old
      · exact silent new
      · exact still old
  · by_cases ended : (out.1.conn c).state = .disconnected
    · refine .inr ?_
      rw [loopOf]
      by_cases up : (w.conn c).state = .disconnected
      · have closing := held.resolve_left (not_not.mpr up)
        by_cases here : w.host.loopOf c = t
        · rw [here, split] at closing
          rw [here]
          simp only [settle, Function.update_self]
          exact List.mem_append_right _ ((List.mem_append.mp closing).resolve_left h.spared)
        · simp only [settle, Function.update_of_ne here, stack]
          exact closing
      · obtain ⟨made,here⟩ := h.releases up ended
        rw [here]
        simp only [settle, Function.update_self]
        exact List.mem_append_left _ made
    · exact .inl ended

theorem keptHost {w : World} {t : ThreadId} {top below : List Act} {out : Effect} (split : w.stack t = top ++ below)
    (host : out.1.host = w.host) (stack : out.1.stack = w.stack) (silent : ∀ c, .conn c .closeSocket ∉ out.2)
    (spared : ∀ c, .conn c .closeSocket ∉ top) : Descriptors w (settle t below out) := by
  have conn : out.1.conn = w.conn := World.connSame host
  refine .kept (by simp only [settle, host]) (by simp only [settle, host]) (fun c => by rw [connSettle, conn]) (fun c known => ?_)
  refine holdsSettle split stack (by rw [host]) ⟨fun done => ⟨?_,silent c⟩,fun up done => ?_,spared c⟩
  · rw [conn]
    exact done
  · rw [conn] at done
    exact absurd done up

theorem keptMember {w : World} {t : ThreadId} {c : ConnId} {top below : List Act} {out : Endpoint × List Frame}
    (home : t = w.host.loopOf c) (split : w.stack t = top ++ below) (same : Same (w.host.endpoint c) out.1)
    (isOpen : out.1.isOpen = w.host.isOpen)
    (finished : (w.conn c).state = .disconnected → out.1.conn.state = .disconnected ∧ .closeSocket ∉ out.2)
    (releases : (w.conn c).state ≠ .disconnected → out.1.conn.state = .disconnected → .closeSocket ∈ out.2)
    (spared : ∀ d, .conn d .closeSocket ∉ top) : Descriptors w (settle t below (ofConn w c out)) := by
  have frames : ∀ {d f}, Act.conn d f ∈ (ofConn w c out).2 → d = c ∧ f ∈ out.2 := by
    intro d f member
    obtain ⟨g,made,same⟩ := List.mem_map.mp member
    cases same
    exact ⟨rfl,made⟩
  refine .kept rfl isOpen (putChannel same) (fun d known => ?_)
  refine holdsSettle split (by rfl) (by rfl) ⟨fun done => ?_,fun up done => ?_,spared d⟩
  · by_cases here : d = c
    · subst here
      rw [ofConn, World.connPut]
      exact ⟨(finished done).1,fun member => (finished done).2 (frames member).2⟩
    · rw [ofConn, World.connPutOther w _ here]
      exact ⟨done,fun member => here (frames member).1⟩
  · by_cases here : d = c
    · subst here
      rw [ofConn, World.connPut] at done
      exact ⟨List.mem_map_of_mem (releases up done),home.symm⟩
    · rw [ofConn, World.connPutOther w _ here] at done
      exact absurd done up

theorem keptUnreleased {w : World} {t : ThreadId} {c : ConnId} {top below : List Act} {out : Endpoint × List Frame}
    (home : t = w.host.loopOf c) (split : w.stack t = top ++ below) (u : Unreleased (w.host.endpoint c) out.1 out.2)
    (releases : (w.conn c).state ≠ .disconnected → out.1.conn.state = .disconnected → .closeSocket ∈ out.2)
    (spared : ∀ d, .conn d .closeSocket ∉ top) : Descriptors w (settle t below (ofConn w c out)) :=
  keptMember home split u.same u.isOpen u.finished releases spared

theorem keptRequest {w : World} {t : ThreadId} {c : ConnId} {call : UserCall} {top below again : List Act}
    (split : w.stack t = top ++ below) (silent : ∀ d, .conn d .closeSocket ∉ again) (spared : ∀ d, .conn d .closeSocket ∉ top) :
    Descriptors w (settle t below ((callConn w t c call).1,(callConn w t c call).2 ++ again)) := by
  have acts : ∀ d, .conn d .closeSocket ∉ (callConn w t c call).2 ++ again := by
    intro d member
    rcases List.mem_append.mp member with handed | rest
    · obtain ⟨g,_,same⟩ := List.mem_map.mp handed
      cases same
    · exact silent d rest
  refine .kept rfl (requestSocket _ t call).1 (putChannel (sameRequest _ t call)) (fun d known => ?_)
  refine holdsSettle split (by rfl) (by rfl) ⟨fun done => ⟨?_,acts d⟩,fun up done => ?_,spared d⟩
  · by_cases here : d = c
    · subst here
      rw [callConn, World.connPut, requestOver done]
      exact done
    · rw [callConn, World.connPutOther w _ here]
      exact done
  · by_cases here : d = c
    · subst here
      rw [callConn, World.connPut] at done
      exact absurd ((requestMonotone _ t call).2 done) up
    · rw [callConn, World.connPutOther w _ here] at done
      exact absurd done up

theorem acceptedNew {w w' : World} {fd : Fd} (idle : w.stack mainLoop = []) (made : Accepts w fd w') : Descriptors w w' := by
  obtain ⟨callbacks,mark,bufferSize,new⟩ := made.new
  refine .accepted made.next made.isOpen ⟨by rw [new]; rfl,.inl (by rw [new]; exact fun same => nomatch same)⟩ (fun c known => ?_)
  obtain ⟨conn,loop⟩ := made.old c known
  refine ⟨by rw [conn],?_⟩
  rw [holds, holds, conn, loop]
  by_cases main : w.host.loopOf c = mainLoop
  · rw [main, made.main, idle]
    simp
  · rw [made.apart _ main]

theorem descriptorsStep {w w' : World} {a : Action} (h : Ledger w) (other : closing w a = none)
    (taken : step w a = some w') : Descriptors w w' := by
  cases turnCases h.registry h.placed taken with
  | @member t c top below out known home split does =>
    cases does with
    | @resume f own =>
      have top : w.stack t = .conn c f :: below := split
      have spared : ∀ d, Act.conn d .closeSocket ∉ [Act.conn c f] := by
        intro d member
        cases List.mem_singleton.mp member
        simp [closing, top] at other
      cases f with
      | sendTail =>
        exact keptUnreleased home split (unreleasedWatch _) (fun up done => absurd ((watchWritingState _).symm.trans done) up) spared
      | closeSocket => exact absurd (List.mem_singleton_self _) (spared c)
      | invalidateSocket =>
        exact keptMember home split (sameResume _ _) rfl (fun done => ⟨done,List.not_mem_nil⟩) (fun up done => absurd done up) spared
      | _ => cases own
    | @run f =>
      have fresh : f = .connectEstablished → (w.conn c).state = .connecting := by
        intro same
        subst same home
        exact establishedFresh h.births known split
      exact keptUnreleased home split (unreleasedRun fresh) (@runReleases (w.host.endpoint c) f fresh) (by simp)
    | event idle up ok =>
      have change := Connection.handleChange (w.host.endpoint c) ok
      exact keptUnreleased home split (unreleasedChange change) (changeReleases change) (by simp)
  | request known split caller =>
    refine keptRequest split ?_ ?_ <;> cases caller <;> simp
  | close home split => exact keptHost (topSplit split) (by rfl) (by rfl) (by simp) (by simp)
  | hand split differ home act => exact keptHost (topSplit split) (by rfl) (by rfl) (by simp) (by simp)
  | take idle head loop => exact keptHost (idleSplit idle) (by rfl) (by rfl) (by simp) (by simp)
  | remove known ran split does =>
    refine keptHost (topSplit split) does.host does.stack (fun c member => ?_) (by simp)
    rcases does.outcome with ⟨_,_,none_⟩ | ⟨_,_,_,_,_,acts⟩
    · simp [none_] at member
    · simp [acts] at member
  | sweepErase known split off act => exact keptHost (topSplit split) (by rfl) (by rfl) (by simp) (by simp)
  | @sweepEnd stale force below split =>
    refine keptHost (topSplit split) (by rfl) (by rfl) ?_ (by simp)
    cases force <;> simp [sweepEnd]
  | sweepNext split on => exact keptHost (topSplit split) (by rfl) (by rfl) (by simp) (by simp)
  | skip split skips =>
    refine keptHost (topSplit split) (by rfl) (by rfl) ?_ ?_ <;> cases skips <;> simp
  | serve split own calm does =>
    refine keptHost split does.host does.stack (fun c member => does.acts _ member) (fun c member => ?_)
    cases own _ member
  | accept idle free made act => exact acceptedNew idle made

/- The step of Socket::Close that closes the descriptor: it was open and its connection's own,
and is neither afterwards. -/
structure Released (w w' : World) (c : ConnId) : Prop where
  known : c < w.host.next
  held : holds w c
  next : w'.host.next = w.host.next
  isOpen : w'.host.isOpen = Function.update w.host.isOpen (w.conn c).channel.fd false
  fd : ∀ d, (w'.conn d).channel.fd = (w.conn d).channel.fd
  free : ¬ holds w' c
  others : ∀ d, d ≠ c → (holds w' d ↔ holds w d)

theorem releasedStep {w w' : World} {a : Action} {c : ConnId} (h : Ledger w) (here : closing w a = some c)
    (taken : step w a = some w') : Released w w' c := by
  have h' := ledgerStep h taken
  obtain ⟨t,below,same,top⟩ := closingTop here
  subst same
  have known : c < w.host.next := topKnown h.registry top c (by simp [Act.conns])
  have home : t = w.host.loopOf c := topFits h.placed top
  subst home
  have held : holds w c := .inr (by rw [top]; exact List.mem_cons_self)
  have stored : (w.host.endpoint c).conn.socket.fd = some (w.conn c).channel.fd := (h.sockets.up c known held).1
  have released : (w.host.endpoint c).resume .closeSocket =
      ({ w.host.endpoint c with
        isOpen := Function.update w.host.isOpen (w.conn c).channel.fd false
        poller := (w.host.endpoint c).poller.closed (w.conn c).channel.fd },[.invalidateSocket]) := by
    simp only [resume, closeSocket, stored]
    rfl
  have went : goOn w (w.host.loopOf c) (.conn c .closeSocket) = some (ofConn w c ((w.host.endpoint c).resume .closeSocket)) := rfl
  rw [released] at went
  simp only [step, top, went, Option.map_some] at taken
  have made := (Option.some.inj taken).symm
  have split : w.stack (w.host.loopOf c) = [.conn c .closeSocket] ++ below := top
  have stores : Act.conn c .invalidateSocket ∈ w'.stack (w.host.loopOf c) := by
    rw [made]
    simp only [settle, Function.update_self]
    exact List.mem_append_left _ (List.mem_singleton_self _)
  have free : ¬ holds w' c := by
    have loop : w'.host.loopOf c = w.host.loopOf c := by rw [made]; rfl
    have next : w'.host.next = w.host.next := by rw [made]; rfl
    rintro (up | closing)
    · exact up (h'.sockets.ended _ c .invalidateSocket stores rfl)
    · have once := h'.sockets.once c (next ▸ known)
      have first := List.count_pos_iff.mpr closing
      rw [← loop] at stores
      have second := List.count_pos_iff.mpr stores
      exact absurd once (Nat.not_le.mpr (Nat.add_le_add first second))
  subst made
  refine ⟨known,held,rfl,rfl,putChannel ⟨rfl,rfl,rfl,.inl rfl⟩,free,fun d other => ?_⟩
  refine holdsSettle split (by rfl) (by rfl) ⟨fun done => ⟨?_,?_⟩,fun up done => ?_,?_⟩
  · rw [ofConn, World.connPutOther w _ other]
    exact done
  · simp [ofConn]
  · rw [ofConn, World.connPutOther w _ other] at done
    exact absurd done up
  · simp [other]

/- Every open descriptor has its connection, and every connection that has given its own up has
closed it once. -/
structure Accounted (w : World) (closes : ConnId → Nat) : Prop where
  owned : ∀ fd, w.host.isOpen fd = true → ∃ c < w.host.next, holds w c ∧ (w.conn c).channel.fd = fd
  fresh : ∀ c, w.host.next ≤ c → closes c = 0
  held : ∀ c < w.host.next, holds w c → closes c = 0
  given : ∀ c < w.host.next, ¬ holds w c → closes c = 1

theorem accountedInitial {w : World} (h : Initial w) : Accounted w (fun _ => 0) := by
  obtain ⟨threadNum,callbacks,mark,idleTimeout,same⟩ := h
  subst same
  exact ⟨fun fd isOpen => (by cases isOpen),fun _ _ => rfl,fun _ _ _ => rfl,fun c known => absurd known (Nat.not_lt_zero c)⟩

theorem accountedKept {w w' : World} {closes : ConnId → Nat} (h : Accounted w closes) (d : Descriptors w w') :
    Accounted w' closes := by
  cases d with
  | kept next isOpen fd held =>
    refine ⟨fun x opened => ?_,fun c new => h.fresh c (next ▸ new),fun c known holds' => ?_,fun c known free => ?_⟩
    · rw [isOpen] at opened
      obtain ⟨c,known,holds_,same⟩ := h.owned x opened
      exact ⟨c,next ▸ known,(held c known).mpr holds_,(fd c).trans same⟩
    · rw [next] at known
      exact h.held c known ((held c known).mp holds')
    · rw [next] at known
      exact h.given c known (fun holds_ => free ((held c known).mpr holds_))
  | @accepted fd next isOpen new old =>
    have cases_ : ∀ {c}, c < w'.host.next → c < w.host.next ∨ c = w.host.next := by
      intro c known
      rw [next] at known
      exact Nat.lt_succ_iff_lt_or_eq.mp known
    refine ⟨fun x opened => ?_,fun c above => ?_,fun c known holds' => ?_,fun c known free => ?_⟩
    · by_cases here : x = fd
      · exact ⟨w.host.next,by rw [next]; exact Nat.lt_succ_self _,new.2,new.1.trans here.symm⟩
      · rw [isOpen, Function.update_of_ne here] at opened
        obtain ⟨c,known,holds_,same⟩ := h.owned x opened
        exact ⟨c,by rw [next]; exact Nat.lt_succ_of_lt known,(old c known).2.mpr holds_,(old c known).1.trans same⟩
    · rw [next] at above
      exact h.fresh c (Nat.le_of_succ_le above)
    · rcases cases_ known with before | this
      · exact h.held c before ((old c before).2.mp holds')
      · exact h.fresh c (Nat.le_of_eq this.symm)
    · rcases cases_ known with before | this
      · exact h.given c before (fun holds_ => free ((old c before).2.mpr holds_))
      · rw [this] at free
        exact absurd new.2 free

theorem accountedClosed {w w' : World} {c : ConnId} {closes : ConnId → Nat} (h : Accounted w closes) (r : Released w w' c) :
    Accounted w' (Function.update closes c (closes c + 1)) := by
  refine ⟨fun x opened => ?_,fun d new => ?_,fun d known holds' => ?_,fun d known free => ?_⟩
  · rw [r.isOpen, Function.update_apply] at opened
    split at opened
    · cases opened
    · rename_i other
      obtain ⟨d,known,holds_,same⟩ := h.owned x opened
      have apart : d ≠ c := fun here => other (by rw [← same, here])
      exact ⟨d,r.next ▸ known,(r.others d apart).mpr holds_,(r.fd d).trans same⟩
  · rw [r.next] at new
    have apart : d ≠ c := fun here => Nat.not_lt.mpr (here ▸ new) r.known
    rw [Function.update_of_ne apart]
    exact h.fresh d new
  · have apart : d ≠ c := fun here => r.free (here ▸ holds')
    rw [Function.update_of_ne apart]
    exact h.held d (r.next ▸ known) ((r.others d apart).mp holds')
  · by_cases here : d = c
    · rw [here, Function.update_self, h.held c r.known r.held]
    · rw [Function.update_of_ne here]
      exact h.given d (r.next ▸ known) (fun holds_ => free ((r.others d here).mpr holds_))

theorem accountedStep {w w' : World} {a : Action} {closes : ConnId → Nat} (l : Ledger w) (h : Accounted w closes)
    (taken : step w a = some w') : Accounted w' (noteClose w a w' closes) := by
  unfold noteClose
  cases here : closing w a with
  | none => exact accountedKept h (descriptorsStep l here taken)
  | some c => exact accountedClosed h (releasedStep l here taken)

/- The peer of a first connection ends it; a second one is accepted on the same number. -/
def numberReused : List Action := peerEnds ++ [.poll,.accept 5 64]

end TcpServer
end TcFrame
