import TcFrame.TcpClientListening

/-! What is left on the stack while Connect runs. As long as the tail of a connection that
was made at once stands there, nobody else works on the connection's descriptor. -/
namespace TcFrame.TcpClient
open Endpoint EpollPoller Machine

/- The connection an act works on. -/
def Act.of : Act → Option ConnId
  | .conn c _ | .call c _ => some c
  | _ => none

def Act.Fits (w : World) (t : ThreadId) : Act → Prop
  | .conn c f => t = loopThread ∧ c < w.next ∧
      (f = .closeSocket ∨ f = .invalidateSocket → (w.conns c).state = .disconnected)
  | .call c f => c < w.next ∧ f ≠ .connectEstablished
  | .connectTail c => t = loopThread ∧ c < w.next
  | .temporaryTail ch c => t = loopThread ∧ c < w.next ∧ ch.fd = (w.conns c).channel.fd ∧ ch.added = true
  | .closeCallback _ | .removeTail => t = loopThread

/- `a` stands above `b`. Nothing is below the temporary channel's tail, and what is above
a connection's tail works on other descriptors. -/
def Apart (w : World) (a b : Act) : Prop :=
  (∀ ch c, a ≠ .temporaryTail ch c) ∧ ∀ d c, a.of = some d → b = .connectTail c →
    d = c ∨ (w.conns c).state = .disconnected ∨ (w.conns d).channel.fd ≠ (w.conns c).channel.fd

/- A temporary channel that can be reported is the one of m_socket's descriptor. -/
def Temporary (w : World) : Prop :=
  ∀ k ch, w.temporaries k = some ch → ch.id = temporaryChannel k ∧
    (w.poller.Registered ch.fd ch.id → w.client.socket = some (some ch.fd) ∧ ch.added = true)

def Watched (w : World) (c : ConnId) : Prop := Attended (w.vacant c) (w.endpoint c)

structure Sound (w : World) : Prop where
  owned : Owned w
  temporary : Temporary w
  fits : ∀ t, ∀ a ∈ w.stack t, a.Fits w t
  queued : ∀ x ∈ w.queue, x.1 < w.next ∧ x.2 ≠ .connectEstablished
  apart : (w.stack loopThread).Pairwise (Apart w)
  watched : ∀ c, .connectTail c ∈ w.stack loopThread → Watched w c

theorem fitsKnown {w : World} {t : ThreadId} {a : Act} (h : a.Fits w t) {c : ConnId} (named : a.of = some c) :
    c < w.next := by
  cases a with
  | conn d f => cases named; exact h.2.1
  | call d f => cases named; exact h.1
  | _ => cases named

theorem fitsOnward {w w' : World} (o : Onward w w') {t : ThreadId} {a : Act} (h : a.Fits w t) : a.Fits w' t := by
  have known : ∀ {c}, c < w.next → c < w'.next := fun made => Nat.lt_of_lt_of_le made o.next
  cases a with
  | conn c f => exact ⟨h.1,known h.2.1,fun closes => o.ended c h.2.1 (h.2.2 closes)⟩
  | call c f => exact ⟨known h.1,h.2⟩
  | connectTail c => exact ⟨h.1,known h.2⟩
  | temporaryTail ch c => exact ⟨h.1,known h.2.1,h.2.2.1.trans (o.fd c h.2.1).symm,h.2.2.2⟩
  | _ => exact h

theorem apartOnward {w w' : World} (o : Onward w w') {t : ThreadId} {a b : Act} (fits : a.Fits w t) (fits' : b.Fits w t)
    (h : Apart w a b) : Apart w' a b := by
  refine ⟨h.1,fun d c named tail => ?_⟩
  subst tail
  have known := fitsKnown fits named
  rcases h.2 d c named rfl with same | ended | other
  · exact .inl same
  · exact .inr (.inl (o.ended c fits'.2 ended))
  · exact .inr (.inr (by rw [o.fd d known, o.fd c fits'.2]; exact other))

/- An open connection is apart from the others that are not Disconnected. -/
theorem apartOpen {w : World} (h : Owned w) {a b : Act} {d : ConnId} {t : ThreadId} (named : a.of = some d)
    (up : (w.conns d).state ≠ .disconnected) (known : d < w.next) (fits : b.Fits w t) : Apart w a b := by
  refine ⟨fun ch c same => (by subst same; cases named),fun d' c named' tail => ?_⟩
  cases Option.some.inj (named.symm.trans named')
  subst tail
  by_cases ended : (w.conns c).state = .disconnected
  · exact .inr (.inl ended)
  · by_cases shared : (w.conns d).channel.fd = (w.conns c).channel.fd
    · have mine := (h.up d known up).1
      have theirs := (h.up c fits.2 ended).1
      rw [← shared] at theirs
      exact .inl (h.apart d known c fits.2 _ mine theirs)
    · exact .inr (.inr shared)

theorem apartNone {w : World} {a b : Act} (own : a.of = none) (other : ∀ ch c, a ≠ .temporaryTail ch c) : Apart w a b :=
  ⟨other,fun d c named => by rw [own] at named; cases named⟩

theorem soundSettle {w : World} (h : Sound w) {t : ThreadId} {below : List Act} {out : Effect}
    (suffix : below <:+ w.stack t) (stack : out.1.stack = w.stack) (owned : Owned out.1) (temporary : Temporary out.1)
    (o : Onward w out.1) (queued : ∀ x ∈ out.1.queue, x ∈ w.queue ∨ (x.1 < out.1.next ∧ x.2 ≠ .connectEstablished))
    (frames : ∀ a ∈ out.2, a.Fits out.1 t)
    (order : t = loopThread → out.2.Pairwise (Apart out.1) ∧ ∀ a ∈ out.2, ∀ b ∈ below, Apart out.1 a b)
    (watched : ∀ c < w.next, (t = loopThread → .connectTail c ∈ below) → Watched w c → Watched out.1 c)
    (fresh : ∀ c, .connectTail c ∈ out.2 → Watched out.1 c) : Sound (settle t below out) := by
  have under : ∀ a ∈ below, a ∈ w.stack t := fun a member => suffix.subset member
  refine ⟨⟨owned.id,owned.stored,owned.apart,owned.up,owned.own,owned.connection,owned.kernel⟩,temporary,?_,?_,?_,?_⟩
  · intro t' a member
    simp only [settle, Function.update_apply] at member
    split at member
    · rename_i here
      subst here
      rcases List.mem_append.mp member with new | old
      · exact frames a new
      · exact fitsOnward o (h.fits t' a (under a old))
    · rw [stack] at member
      exact fitsOnward o (h.fits t' a member)
  · intro x member
    rcases queued x member with old | new
    · obtain ⟨known,other⟩ := h.queued x old
      exact ⟨Nat.lt_of_lt_of_le known o.next,other⟩
    · exact new
  · simp only [settle, Function.update_apply]
    have old : ∀ {s : List Act}, s.Pairwise (Apart w) → (∀ a ∈ s, a ∈ w.stack loopThread) → s.Pairwise (Apart out.1) := by
      intro s pairs among
      refine List.Pairwise.imp_of_mem (fun first second apart => ?_) pairs
      exact apartOnward o (h.fits _ _ (among _ first)) (h.fits _ _ (among _ second)) apart
    split
    · rename_i here
      subst here
      obtain ⟨new,above⟩ := order rfl
      exact List.pairwise_append.mpr ⟨new,old (h.apart.sublist suffix.sublist) under,above⟩
    · rw [stack]
      exact old h.apart (fun _ member => member)
  · intro c member
    simp only [settle, Function.update_apply] at member
    split at member
    · rename_i here
      subst here
      rcases List.mem_append.mp member with new | tail
      · exact fresh c new
      · have there := under _ tail
        exact watched c (h.fits _ _ there).2 (fun _ => tail) (h.watched c there)
    · rename_i other
      rw [stack] at member
      exact watched c (h.fits _ _ member).2 (fun same => absurd same.symm other) (h.watched c member)

theorem settleSame (w : World) (t : ThreadId) : settle t (w.stack t) (w,[]) = w := by
  simp [settle]

/- A change that leaves the stacks as they are. -/
theorem soundMove {w w' : World} (h : Sound w) (stack : w'.stack = w.stack) (queue : w'.queue = w.queue)
    (owned : Owned w') (temporary : Temporary w') (o : Onward w w')
    (watched : ∀ c < w.next, Watched w c → Watched w' c) : Sound w' := by
  have settled : Sound (settle loopThread (w.stack loopThread) (w',[])) := by
    refine soundSettle h (List.suffix_refl _) stack owned temporary o
      (fun x member => .inl (by rw [← queue]; exact member)) (by simp) (by simp) ?_ (by simp)
    exact fun c known _ hw => watched c known hw
  rw [← stack, settleSame] at settled
  exact settled

/- Work on a descriptor that the connection does not have. -/
theorem watchedElsewhere {w w' : World} {c : ConnId} {fd : Fd} {id : Nat}
    (within : Within fd id w.poller w.isOpen w'.poller w'.isOpen) (conns : w'.conns c = w.conns c)
    (vacant : w'.vacant c = w.vacant c) (other : (w.conns c).state = .connected → (w.conns c).channel.fd ≠ fd)
    (h : Watched w c) : Watched w' c := by
  rw [Watched, vacant]
  by_cases connected : (w.conns c).state = .connected
  · have elsewhere := other connected
    refine attendedSame h ?_ ?_ (within.map _ elsewhere) (within.interest _ elsewhere)
    · simp only [World.endpoint, conns]
    · simp only [World.endpoint, conns]
  · refine attendedOver ?_
    simpa only [World.endpoint, conns] using connected

theorem temporaryNot (c : ConnId) (k : Nat) : temporaryChannel k ≠ connectionChannel c := by
  unfold temporaryChannel connectionChannel
  omega

theorem temporaryWithin {w w' : World} (h : Temporary w) {fd : Fd} {id : Nat}
    (within : Within fd id w.poller w.isOpen w'.poller w'.isOpen) (differ : ∀ k, temporaryChannel k ≠ id)
    (temporaries : w'.temporaries = w.temporaries) (socket : w'.client.socket = w.client.socket) : Temporary w' := by
  intro k ch waiting
  rw [temporaries] at waiting
  obtain ⟨id',own⟩ := h k ch waiting
  refine ⟨id',fun found => ?_⟩
  rw [socket]
  exact own (registeredWithin within (by rw [id']; exact differ k) found)

/- A member function of connection `d` on the loop's thread. -/
theorem soundConn {w : World} (h : Sound w) {t : ThreadId} {below : List Act} {d : ConnId} {out : Endpoint × List Frame}
    (suffix : below <:+ w.stack t) (home : t = loopThread) (known : d < w.next)
    (works : Works (w.endpoint d) out.1 out.2)
    (above : ∀ c, .connectTail c ∈ below →
      d = c ∨ (w.conns c).state = .disconnected ∨ (w.conns d).channel.fd ≠ (w.conns c).channel.fd)
    (own : .connectTail d ∈ below → Watched w d → Attended (w.vacant d) out.1) :
    Sound (settle t below (ofConn w d out)) := by
  have o : Onward w (ofConn w d out).1 := onwardPut works
  have within : Within (w.conns d).channel.fd (connectionChannel d) w.poller w.isOpen out.1.poller out.1.isOpen := by
    rw [← h.owned.id d known]
    exact works.inside
  refine soundSettle h suffix rfl (ownedPut h.owned known works)
    (temporaryWithin h.temporary within (temporaryNot d) rfl rfl) o (fun x member => .inl member) ?_ ?_ ?_ ?_
  · intro a member
    obtain ⟨f,made,same⟩ := List.mem_map.mp member
    subst same
    refine ⟨home,known,fun closes => ?_⟩
    simpa [ofConn] using works.closing f made closes
  · refine fun _ => ⟨?_,fun a member b tail => ?_⟩
    · refine List.pairwise_map.mpr (List.pairwise_of_forall (fun f g => ⟨by simp,fun d' c _ same => by cases same⟩))
    · obtain ⟨f,_,same⟩ := List.mem_map.mp member
      subst same
      refine ⟨by simp,fun d' c named same => ?_⟩
      cases named
      subst same
      have made := (h.fits _ _ (suffix.subset tail)).2
      rcases above c tail with here | ended | other
      · exact .inl here
      · exact .inr (.inl (o.ended c made ended))
      · exact .inr (.inr (by rw [o.fd d known, o.fd c made]; exact other))
  · intro c made tail hw
    by_cases here : d = c
    · subst here
      simpa [Watched, World.endpoint, ofConn, World.put] using own (tail home) hw
    · refine watchedElsewhere within (putOther w _ (fun same => here same.symm)) rfl (fun connected => ?_) hw
      rcases above c (tail home) with same | ended | other
      · exact absurd same here
      · rw [ended] at connected
        cases connected
      · exact other.symm
  · intro c member
    obtain ⟨f,_,same⟩ := List.mem_map.mp member
    cases same

theorem requestHands {e : Endpoint} {t : ThreadId} {call : UserCall} {f : Functor} (handed : (e.request t call).2 = some f) :
    (e.request t call).1.conn.state ≠ .disconnected ∧ f ≠ .connectEstablished := by
  cases call with
  | send data =>
    simp only [request, send] at handed ⊢
    split at handed <;> cases handed
    rename_i connected
    have state : e.conn.state = .connected := by simpa [TcpConnection.isConnected] using connected
    simp [connected, state]
  | shutdown =>
    simp only [request, shutdown] at handed ⊢
    split at handed <;> cases handed
    rename_i connected
    simp [connected, setState]
  | forceClose =>
    simp only [request, forceClose] at handed ⊢
    split at handed <;> cases handed
    rename_i isOpen
    simp [isOpen, setState]

theorem requestPoller (e : Endpoint) (t : ThreadId) (call : UserCall) : (e.request t call).1.poller = e.poller := by
  cases call <;> simp only [request, send, shutdown, forceClose] <;> split <;> rfl

theorem soundCall {w : World} (h : Sound w) (t : ThreadId) {c : ConnId} (known : c < w.next) (call : UserCall) :
    Sound (settle t (w.stack t) (callConn w t c call)) := by
  have works := worksRequest (w.endpoint c) t call
  have o : Onward w (callConn w t c call).1 := onwardPut works
  have owned : Owned (callConn w t c call).1 := ownedPut h.owned known works
  have within : Within (w.conns c).channel.fd (connectionChannel c) w.poller w.isOpen
      (callConn w t c call).1.poller (callConn w t c call).1.isOpen := by
    rw [← h.owned.id c known]
    exact works.inside
  have calls : ∀ a ∈ (callConn w t c call).2, ∃ f, a = .call c f ∧
      ((callConn w t c call).1.conns c).state ≠ .disconnected ∧ f ≠ .connectEstablished := by
    intro a member
    obtain ⟨f,handed,same⟩ := List.mem_map.mp member
    obtain ⟨up,other⟩ := requestHands (Option.mem_toList.mp handed)
    exact ⟨f,same.symm,by simpa [callConn] using up,other⟩
  refine soundSettle h (List.suffix_refl _) rfl owned
    (temporaryWithin h.temporary within (temporaryNot c) rfl rfl) o (fun x member => .inl member) ?_ ?_ ?_ ?_
  · intro a member
    obtain ⟨f,same,_,other⟩ := calls a member
    subst same
    exact ⟨known,other⟩
  · intro home
    refine ⟨?_,fun a member b below => ?_⟩
    · cases handed : ((w.endpoint c).request t call).2 <;> simp [callConn, handed]
    · obtain ⟨f,same,up,_⟩ := calls a member
      subst same
      exact apartOpen owned rfl up known (fitsOnward o (h.fits t b below))
  · intro d _ _ hw
    by_cases here : d = c
    · subst here
      simpa [Watched, World.endpoint, callConn, World.put] using attendedRequest hw t call
    · have poller : (callConn w t c call).1.poller = w.poller := requestPoller (w.endpoint c) t call
      refine attendedSame hw ?_ ?_ (by rw [World.endpoint, poller]; rfl) (by rw [World.endpoint, poller]; rfl)
      · simp [World.endpoint, callConn, here]
      · simp [World.endpoint, callConn, here]
  · intro d member
    obtain ⟨f,same,_⟩ := calls _ member
    cases same

end TcFrame.TcpClient
