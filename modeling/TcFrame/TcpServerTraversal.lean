import TcFrame.ConnectionInterest
import TcFrame.TcpServerLife

/-! The loops over m_connections. What runs under them on the main thread leaves the table
alone, as long as StopGracefully's loop does not close a connection on the spot. -/
namespace TcFrame.TcpServer
open Endpoint Machine

def Act.isLoop : Act → Bool
  | .shutdownAll _ | .sweep _ _ _ | .forceAll _ => true
  | _ => false

def loops (acts : List Act) : Bool := acts.any Act.isLoop

/- A step with a loop over the table under way. ScanIdleConnections goes over the table in
one step, and closes what it has found afterwards. -/
def traverses (s : Life) : LifeAction → Bool
  | .server (.scanIdle _) => true
  | _ => loops (s.world.stack mainLoop)

/- FinalizeGracefulStop's loop erases the entry it is at. -/
def ownErase (s : Life) : LifeAction → Bool
  | .server (.goOn t) =>
    match s.world.stack t with
    | .sweep (x :: _) _ _ :: _ => !(s.world.conn x.2).isConnected
    | _ => false
  | _ => false

/- StopGracefully's loop calls Shutdown on a connection of its own thread that has nothing
to send: ShutdownInLoop runs at once and closes it, and its removal erases the entry that
the loop is at. -/
def shutsInline (s : Life) : LifeAction → Bool
  | .server (.goOn t) =>
    match s.world.stack t with
    | .shutdownAll (x :: _) :: _ =>
      s.world.host.loopOf x.2 == mainLoop && (s.world.conn x.2).state == .connected &&
        (s.world.conn x.2).outputBuffer.readableBytes == 0
    | _ => false
  | _ => false

/- The socket is closed, or will be before the acts after `pre` run. -/
def shut (w : World) (pre : List Act) (c : ConnId) : Prop :=
  (w.conn c).socket.fd = none ∨ .conn c .closeSocket ∈ pre ∨ .conn c .invalidateSocket ∈ pre

/- What may stand above a loop, under the acts `pre`. A removal finds no descriptor. -/
def benign (w : World) (pre : List Act) : Act → Prop
  | .conn c .closeCallback => shut w pre c
  | .conn _ .closeSocket | .conn _ .invalidateSocket => True
  | .call _ (.remove c) => shut w pre c
  | .call l (.conn c .shutdownInLoop) => l = mainLoop → 0 < (w.conn c).outputBuffer.readableBytes
  | .call _ (.conn _ .forceCloseInLoop) | .call _ (.conn _ .connectDestroyed) => True
  | _ => False

def Guarded (w : World) : Prop :=
  ∀ pre a post, w.stack mainLoop = pre ++ a :: post → loops post = true → benign w pre a

theorem guardedTop {w : World} (h : Guarded w) {f : Act} {below : List Act} (top : w.stack mainLoop = f :: below)
    (under : loops below = true) : benign w [] f := h [] f below top under

theorem benignKept {w v : World} {pre pre' : List Act} {a : Act} (shut_ : ∀ c, shut w pre c → shut v pre' c)
    (output : ∀ c, a = .call mainLoop (.conn c .shutdownInLoop) → 0 < (w.conn c).outputBuffer.readableBytes →
      0 < (v.conn c).outputBuffer.readableBytes) (h : benign w pre a) : benign v pre' a := by
  cases a with
  | conn c f =>
    cases f with
    | closeCallback => exact shut_ c h
    | closeSocket | invalidateSocket => trivial
    | _ => exact h.elim
  | call l task =>
    cases task with
    | conn c f =>
      cases f with
      | shutdownInLoop =>
        intro main
        exact output c (by rw [main]) (h main)
      | forceCloseInLoop | connectDestroyed => trivial
      | _ => exact h.elim
    | remove c => exact shut_ c h
    | stopGracefully cb => exact h.elim
  | _ => exact h.elim

/- No callback of the user and none of the server's own acts stands above a loop. -/
theorem benignTop {w : World} {t : ThreadId} {top below : List Act} (h : Guarded w) (split : w.stack t = top ++ below)
    (main : t = mainLoop) (own : ∀ f ∈ top, f.isOwn = true) (calm : top = [] → userRuns (w.stack t) = true) :
    loops below = false := by
  subst main
  by_contra looping
  have under : loops below = true := by simpa using looping
  have callback : ∀ {f pre}, f.isOwn = true → ¬ benign w pre f := by
    intro f pre mine ok
    cases f with
    | conn c f => cases f <;> first | exact ok | cases mine
    | call l task =>
      cases task with
      | stopGracefully cb => exact ok
      | _ => cases mine
    | _ => exact ok
  cases top with
  | nil =>
    cases below with
    | nil => cases under
    | cons f rest =>
      have runs := calm rfl
      rw [split] at runs
      have isCallback_ : isCallback f = true := runs
      have below_ : loops rest = true := by
        have plain : f.isLoop = false := by cases f <;> first | rfl | cases isCallback_
        simpa [loops, plain] using under
      refine callback ?_ (guardedTop h split below_)
      cases f with
      | conn c f => cases f <;> first | rfl | cases isCallback_
      | completeCallback cb => rfl
      | _ => cases isCallback_
  | cons f rest =>
    have below_ : loops (rest ++ below) = true := by
      rw [loops, List.any_append]
      exact Bool.or_eq_true_iff.mpr (.inr under)
    exact callback (own f List.mem_cons_self) (guardedTop h split below_)

/- An element of two lists one after the other, in the second or in the first. -/
theorem appendMiddle {α : Type} {xs ys pre post : List α} {a : α} (parts : xs ++ ys = pre ++ a :: post) :
    (∃ rest, pre = xs ++ rest ∧ ys = rest ++ a :: post) ∨ ∃ rest, xs = pre ++ a :: rest ∧ post = rest ++ ys := by
  rcases List.append_eq_append_iff.mp parts with ⟨rest,front,back⟩ | ⟨rest,front,back⟩
  · exact .inl ⟨rest,front,back⟩
  · cases rest with
    | nil => exact .inl ⟨[],by simpa using front.symm,by simpa using back.symm⟩
    | cons b rest =>
      obtain ⟨same,tail⟩ := List.cons.inj back
      exact .inr ⟨rest,same ▸ front,tail⟩

theorem guardedAside {w : World} {t : ThreadId} {top below : List Act} {out : Effect} (p : Placed w) (h : Guarded w)
    (split : w.stack t = top ++ below) (stack : out.1.stack = w.stack)
    (socket : ∀ c, (w.conn c).socket.fd = none → (out.1.conn c).socket.fd = none)
    (output : ∀ c, w.host.loopOf c = mainLoop → (t = mainLoop → loops below = true) →
      0 < (w.conn c).outputBuffer.readableBytes → 0 < (out.1.conn c).outputBuffer.readableBytes)
    (spent : ∀ c, .conn c .closeSocket ∈ top ∨ .conn c .invalidateSocket ∈ top → shut out.1 out.2 c)
    (acts : t = mainLoop → ∀ pre a post, out.2 = pre ++ a :: post → loops post = true ∨ loops below = true →
      benign out.1 pre a) : Guarded (settle t below out) := by
  have fits : ∀ {pre c post}, w.stack mainLoop = pre ++ .call mainLoop (.conn c .shutdownInLoop) :: post →
      w.host.loopOf c = mainLoop := by
    intro pre c post parts
    have home : mainLoop = w.host.loopOf c := p.acts mainLoop (.call mainLoop (.conn c .shutdownInLoop)) (by rw [parts]; simp)
    exact home.symm
  intro pre a post parts under
  by_cases main : t = mainLoop
  · subst main
    have shape : out.2 ++ below = pre ++ a :: post := by simpa [settle] using parts
    rcases appendMiddle shape with ⟨rest,front,back⟩ | ⟨rest,front,back⟩
    · have old : w.stack mainLoop = (top ++ rest) ++ a :: post := by rw [split, back, List.append_assoc]
      have below_ : loops below = true := by
        rw [back, loops, List.any_append, List.any_cons]
        simp only [loops] at under
        simp [under]
      have named : ∀ c, a = .call mainLoop (.conn c .shutdownInLoop) → w.host.loopOf c = mainLoop := by
        rintro c rfl
        exact fits old
      refine benignKept (fun c closed => ?_) (fun c same => output c (named c same) (fun _ => below_)) (h _ a post old under)
      rw [front]
      have later : .conn c .closeSocket ∈ rest ∨ .conn c .invalidateSocket ∈ rest → shut out.1 (out.2 ++ rest) c :=
        fun member => .inr (member.imp (List.mem_append_right _) (List.mem_append_right _))
      rcases closed with gone | halves
      · exact .inl (socket c gone)
      · by_cases onTop : .conn c .closeSocket ∈ top ∨ .conn c .invalidateSocket ∈ top
        · exact (spent c onTop).imp id (Or.imp (List.mem_append_left _) (List.mem_append_left _))
        · obtain ⟨first,second⟩ := not_or.mp onTop
          exact later (halves.imp (fun m => (List.mem_append.mp m).resolve_left first)
            (fun m => (List.mem_append.mp m).resolve_left second))
    · refine acts rfl pre a rest front ?_
      rw [back, loops, List.any_append] at under
      exact Bool.or_eq_true_iff.mp under
  · have same : (settle t below out).stack mainLoop = w.stack mainLoop := by
      simp only [settle, stack, Function.update_of_ne (Ne.symm main)]
    rw [same] at parts
    have named : ∀ c, a = .call mainLoop (.conn c .shutdownInLoop) → w.host.loopOf c = mainLoop := by
      rintro c rfl
      exact fits parts
    exact benignKept (fun c closed => closed.imp (socket c) id) (fun c same' => output c (named c same') (fun here => absurd here main))
      (h pre a post parts under)

/- The frames of a functor that runs above a loop: a close callback comes after the socket. -/
theorem benignRun {w v : World} {c : ConnId} {f : Functor} (h : benign w [] (.call mainLoop (.conn c f))) {pre post : List Act}
    {a : Act} (parts : ((w.host.endpoint c).run f).2.map (Act.conn c) = pre ++ a :: post) : benign v pre a := by
  have frames : ∀ g ∈ ((w.host.endpoint c).run f).2, g ≠ .closeSocket →
      ((w.host.endpoint c).run f).2 = [.closeSocket,.closeCallback] ∧ g = .closeCallback := by
    intro g member other
    cases f with
    | shutdownInLoop =>
      have some_ : 0 < (w.host.endpoint c).conn.outputBuffer.readableBytes := h rfl
      simp [Endpoint.run, shutdownInLoop, some_] at member
    | forceCloseInLoop =>
      simp only [Endpoint.run, forceCloseInLoop] at member ⊢
      split at member
      · rename_i open_
        rw [if_pos open_]
        cases set : (w.host.endpoint c).conn.callbacks.close <;> simp_all [TcpConnection.call]
      · cases member
    | connectDestroyed =>
      simp only [Endpoint.run, connectDestroyed] at member
      split at member
      · exact absurd (List.mem_singleton.mp member) other
      · cases member
    | _ => exact h.elim
  have member : a ∈ ((w.host.endpoint c).run f).2.map (Act.conn c) := by rw [parts]; simp
  obtain ⟨g,made,same⟩ := List.mem_map.mp member
  subst same
  by_cases first : g = .closeSocket
  · rw [first]
    trivial
  · obtain ⟨both,closing⟩ := frames g made first
    subst closing
    rw [both] at parts
    cases pre with
    | nil => cases (List.cons.inj parts).1
    | cons b pre => exact .inr (.inl (by rw [← (List.cons.inj parts).1]; exact List.mem_cons_self))

theorem framesNoLoop {c : ConnId} {frames : List Frame} {pre post : List Act} {a : Act}
    (parts : frames.map (Act.conn c) = pre ++ a :: post) : loops post = false := by
  rw [loops, List.any_eq_false]
  intro b member
  have there : b ∈ frames.map (Act.conn c) := by rw [parts]; simp [member]
  obtain ⟨f,_,same⟩ := List.mem_map.mp there
  subst same
  simp [Act.isLoop]

theorem memberSocket {w : World} {a : Action} {t : ThreadId} {c : ConnId} {top : List Act} {out : Endpoint × List Frame}
    (does : Member w t c a top out) : Same (w.host.endpoint c) out.1 := by
  cases does with
  | resume own => exact sameResume _ _
  | run => exact sameRun _
  | event idle up ok => exact sameChange (Connection.handleChange _ ok)

theorem putSocket {w : World} {c : ConnId} {e : Endpoint} (same : Same (w.host.endpoint c) e) (d : ConnId)
    (gone : (w.conn d).socket.fd = none) : ((w.putHost (w.host.put c e)).conn d).socket.fd = none := by
  refine World.connPutCases (P := fun conn => conn.socket.fd = none) (fun here => ?_) (fun _ => gone)
  rw [here] at gone
  rcases same.socket with kept | closed
  · rw [kept]
    exact gone
  · exact closed

theorem onlyAct {x a : Act} {pre post : List Act} (parts : [x] = pre ++ a :: post) : pre = [] ∧ a = x ∧ post = [] := by
  cases pre with
  | nil =>
    obtain ⟨same,rest⟩ := List.cons.inj parts
    exact ⟨rfl,same.symm,rest.symm⟩
  | cons b pre => simp at parts

theorem guardedPlain {w : World} {t : ThreadId} {top below : List Act} {out : Effect} (p : Placed w) (h : Guarded w)
    (split : w.stack t = top ++ below) (stack : out.1.stack = w.stack) (host : out.1.host = w.host)
    (silent : ∀ c, .conn c .closeSocket ∉ top ∧ .conn c .invalidateSocket ∉ top)
    (acts : t = mainLoop → ∀ pre a post, out.2 = pre ++ a :: post → loops post = true ∨ loops below = true → benign w pre a) :
    Guarded (settle t below out) := by
  have conn : out.1.conn = w.conn := World.connSame host
  refine guardedAside p h split stack (by rw [conn]; exact fun _ => id) (by rw [conn]; exact fun _ _ _ => id)
    (fun c halves => absurd halves (not_or.mpr (silent c))) (fun main pre a post parts under => ?_)
  exact benignKept (fun c closed => by rw [shut, conn]; exact closed) (fun c _ => by rw [conn]; exact id)
    (acts main pre a post parts under)

/- One act takes the place of another. -/
theorem guardedReplace {w : World} {t : ThreadId} {f again : Act} {below : List Act} {out : Effect} (p : Placed w)
    (h : Guarded w) (split : w.stack t = f :: below) (stack : out.1.stack = w.stack) (host : out.1.host = w.host)
    (acts : out.2 = [again]) (silent : ∀ c, f ≠ .conn c .closeSocket ∧ f ≠ .conn c .invalidateSocket)
    (mild : benign w [] f → benign w [] again) : Guarded (settle t below out) := by
  refine guardedPlain p h (show w.stack t = [f] ++ below from split) stack host
    (fun c => ⟨fun member => (silent c).1 (List.mem_singleton.mp member).symm,
      fun member => (silent c).2 (List.mem_singleton.mp member).symm⟩) (fun main pre a post parts under => ?_)
  subst main
  rw [acts] at parts
  obtain ⟨first,same,last⟩ := onlyAct parts
  subst first same last
  exact mild (guardedTop h split (under.resolve_left (by simp [loops])))

theorem guardedMember {w : World} {a : Action} {t : ThreadId} {c : ConnId} {top below : List Act} {out : Endpoint × List Frame}
    (p : Placed w) (h : Guarded w) (home : t = w.host.loopOf c) (split : w.stack t = top ++ below)
    (does : Member w t c a top out) : Guarded (settle t below (ofConn w c out)) := by
  have nested : t = mainLoop → loops below = true → ∃ f, top = [f] ∧ benign w [] f := by
    intro main under
    subst main
    cases does with
    | resume own => exact ⟨_,rfl,guardedTop h split under⟩
    | run => exact ⟨_,rfl,guardedTop h split under⟩
    | event idle up ok =>
      have none_ : below = [] := by rw [← idle, split]; rfl
      rw [none_] at under
      cases under
  refine guardedAside p h split rfl (putSocket (memberSocket does)) (fun d sub under some_ => ?_) (fun d halves => ?_)
    (fun main pre b post parts under => ?_)
  · by_cases here : d = c
    · subst here
      have main : t = mainLoop := home.trans sub
      obtain ⟨f,only,ok⟩ := nested main (under main)
      have kept : out.1.conn.outputBuffer = (w.host.endpoint d).conn.outputBuffer := by
        cases does with
        | @resume g own =>
          cases only
          cases g with
          | closeSocket =>
            simp only [resume, closeSocket]
            split <;> rfl
          | invalidateSocket => rfl
          | closeCallback => cases own
          | _ => exact ok.elim
        | @run g =>
          cases only
          exact Connection.runOutput (fun m same => by subst same; exact ok.elim)
        | event idle up ok => cases only
      have mine : ((ofConn w d out).1.conn d).outputBuffer = out.1.conn.outputBuffer := by
        simp [ofConn]
      rw [mine, kept]
      exact some_
    · simpa [ofConn, here] using some_
  · cases does with
    | @resume g own =>
      rcases halves with member | member <;> cases List.mem_singleton.mp member
      · cases fd : (w.host.endpoint c).conn.socket.fd with
        | none =>
          refine .inl ?_
          have stays : ((w.host.endpoint c).resume .closeSocket).1 = w.host.endpoint c := by simp [resume, closeSocket, fd]
          simp only [ofConn, World.connPut, stays]
          exact fd
        | some n =>
          refine .inr (.inr ?_)
          simp [ofConn, resume, closeSocket, fd]
      · exact .inl (by simp [ofConn, resume, invalidateSocket])
    | run => simp at halves
    | event idle up ok => simp at halves
  · obtain ⟨f,only,ok⟩ := nested main (under.resolve_left (by rw [framesNoLoop parts]; simp))
    subst main
    cases does with
    | @resume g own =>
      cases only
      have member : b ∈ ((w.host.endpoint c).resume g).2.map (Act.conn c) := by
        rw [show ((w.host.endpoint c).resume g).2.map (Act.conn c) = pre ++ b :: post from parts]
        simp
      obtain ⟨g',made,same⟩ := List.mem_map.mp member
      subst same
      cases g with
      | closeSocket =>
        simp only [resume, closeSocket] at made
        split at made
        · cases made
        · rw [List.mem_singleton.mp made]
          trivial
      | invalidateSocket => cases made
      | closeCallback => cases own
      | _ => exact ok.elim
    | run =>
      cases only
      exact benignRun ok parts
    | event idle up ok => cases only

theorem guardedRequest {s : Life} {a : Action} {t : ThreadId} {c : ConnId} {call : UserCall} {top below again : List Act}
    (p : Placed s.world) (h : Guarded s.world) (defers : shutsInline s (.server a) = false)
    (split : s.world.stack t = top ++ below) (caller : Caller s.world t c a top call again) :
    Guarded (settle t below ((callConn s.world t c call).1,(callConn s.world t c call).2 ++ again)) := by
  obtain ⟨w,stage⟩ := s
  have conns : ∀ d, ((callConn w t c call).1.conn d).socket = (w.conn d).socket ∧
      ((callConn w t c call).1.conn d).outputBuffer = (w.conn d).outputBuffer := by
    intro d
    by_cases here : d = c
    · subst here
      have both : ((w.host.endpoint d).request t call).1.conn.socket = (w.conn d).socket ∧
          ((w.host.endpoint d).request t call).1.conn.outputBuffer = (w.conn d).outputBuffer := by
        cases call <;> simp only [request, send, shutdown, forceClose] <;> split <;> exact ⟨rfl,rfl⟩
      simpa [callConn] using both
    · simp [callConn, here]
  refine guardedAside p h split rfl (fun d => by rw [(conns d).1]; exact id) (fun d _ _ => by rw [(conns d).2]; exact id)
    (fun d halves => by cases caller <;> simp at halves) (fun main pre b post parts under => ?_)
  subst main
  have clear : loops below = false := by
    cases caller with
    | user runs => exact benignTop h split rfl (by simp) (fun _ => runs)
    | _ =>
      by_contra looping
      exact guardedTop h split (by simpa using looping)
  have later : loops post = true := under.resolve_right (by rw [clear]; simp)
  rcases appendMiddle (show (callConn w mainLoop c call).2 ++ again = pre ++ b :: post from parts) with
    ⟨rest,front,back⟩ | ⟨rest,front,back⟩
  · have none_ : loops post = false := by
      cases caller with
      | user runs => simp at back
      | _ =>
        have last := onlyAct back
        rw [last.2.2]
        rfl
    rw [none_] at later
    cases later
  · have there : b ∈ (callConn w mainLoop c call).2 := by rw [front]; simp
    obtain ⟨f,handed,same⟩ := List.mem_map.mp there
    subst same
    have made : ((w.host.endpoint c).request mainLoop call).2 = some f := Option.mem_toList.mp handed
    have last : rest = [] := (onlyAct (x := .call (w.host.loopOf c) (.conn c f)) (by rw [← front]; simp [callConn, made])).2.2
    rw [back, last, List.nil_append] at later
    cases caller with
    | @shutdownAll fd rest' listed =>
      simp only [request, shutdown] at made
      split at made
      · rename_i connected
        cases made
        intro home
        have connected' : (w.conn c).state = .connected := connected
        have split' : w.stack mainLoop = .shutdownAll ((fd,c) :: rest') :: below := split
        rw [(conns c).2]
        by_contra none_
        have empty : (w.conn c).outputBuffer.readableBytes = 0 := Nat.eq_zero_of_not_pos none_
        simp [shutsInline, split', home, connected', empty] at defers
      · cases made
    | forceAll listed =>
      simp only [request, forceClose] at made
      split at made <;> cases made
      trivial
    | user runs => cases later
    | closeIdle => cases later

theorem guardedStep {s : Life} {w' : World} {a : Action} (r : Registry s.world) (p : Placed s.world) (h : Guarded s.world)
    (defers : shutsInline s (.server a) = false) (taken : step s.world a = some w') : Guarded w' := by
  cases turnCases r p taken with
  | member known home split does => exact guardedMember p h home split does
  | request known split caller => exact guardedRequest p h defers split caller
  | close home split => exact guardedReplace p h split rfl rfl rfl (by simp) id
  | @hand t l task below split other home =>
    exact guardedPlain p h (topSplit split) rfl rfl (by simp) (by simp)
  | @take l task rest idle head loop =>
    refine guardedPlain p h (idleSplit idle) rfl rfl (by simp) (fun main pre b post parts under => ?_)
    rw [(onlyAct parts).2.2] at under
    rcases under with none_ | none_ <;> cases none_
  | @remove c below out known ran split does =>
    refine guardedPlain p h (topSplit split) does.stack does.host (by simp)
      (fun _ pre b post parts under => ?_)
    rcases does.outcome with ⟨_,_,none_⟩ | ⟨fd,d,stored,_,_,acts⟩
    · rw [none_] at parts
      simp at parts
    · by_cases looping : loops below = true
      · rcases guardedTop h split looping with gone | absurd_ | absurd_
        · rw [gone] at stored
          cases stored
        · cases absurd_
        · cases absurd_
      · have tail : loops post = false := by
          rw [loops, List.any_eq_false]
          intro x member
          have there : x ∈ out.2 := by rw [parts]; simp [member]
          rw [acts] at there
          simp only [List.mem_cons, List.not_mem_nil, or_false] at there
          rcases there with same | same <;> simp [same, Act.isLoop]
        rw [tail] at under
        exact absurd under (by simp [looping])
  | sweepErase known split off => exact guardedReplace p h split rfl rfl rfl (by simp) False.elim
  | @sweepEnd stale force below split =>
    have clear : loops below = false := by
      by_contra looping
      exact guardedTop h split (by simpa using looping)
    refine guardedPlain p h (topSplit split) rfl rfl (by simp)
      (fun _ pre b post parts under => ?_)
    have later : loops post = true := under.resolve_right (by rw [clear]; simp)
    rcases appendMiddle (show _ ++ [Act.finishStop force] = pre ++ b :: post from parts) with ⟨rest,_,back⟩ | ⟨rest,front,back⟩
    · rw [(onlyAct back).2.2] at later
      cases later
    · rcases appendMiddle front with ⟨rest',_,forced⟩ | ⟨rest',front',_⟩
      · have last : rest = [] := by
          cases force
          · simp at forced
          · exact (onlyAct forced).2.2
        rw [back, last] at later
        cases later
      · have there : b ∈ stale.map (fun c => Act.call (s.world.host.loopOf c) (.conn c .connectDestroyed)) := by
          rw [front']
          simp
        obtain ⟨c,_,same⟩ := List.mem_map.mp there
        subst same
        trivial
  | sweepNext split on => exact guardedReplace p h split rfl rfl rfl (by simp) False.elim
  | skip split skips =>
    refine guardedReplace p h split rfl rfl rfl (fun c => ?_) (fun ok => ?_) <;> cases skips
    · simp
    · simp
    · exact ok.elim
    · exact ok.elim
  | @serve t top below out split own calm does =>
    refine guardedPlain p h split does.stack does.host (fun c => ⟨fun member => ?_,fun member => ?_⟩)
      (fun main pre b post parts under => ?_)
    · cases own _ member
    · cases own _ member
    · have later : loops post = true := under.resolve_right (by rw [benignTop h split main own calm]; simp)
      obtain ⟨x,member,looping⟩ := List.any_eq_true.mp later
      have there : x ∈ out.2 := by rw [parts]; simp [member]
      cases x with
      | shutdownAll rest =>
        rw [does.shutdowns rest there] at parts
        rcases appendMiddle (show [Act.shutdownAll rest] ++ [.stopTail] = pre ++ b :: post from parts) with
          ⟨rest',_,back⟩ | ⟨rest',front,back⟩
        · rw [(onlyAct back).2.2] at member
          cases member
        · rw [back, (onlyAct front).2.2] at member
          cases List.mem_singleton.mp member
      | sweep rest stale force =>
        rw [does.sweeps rest stale force there] at parts
        rw [(onlyAct parts).2.2] at member
        cases member
      | forceAll rest => exact (does.acts _ there).elim
      | _ => cases looping
  | accept idle free made act =>
    intro pre b post parts under
    rw [made.main] at parts
    rw [(onlyAct parts).2.2] at under
    cases under

theorem guardedLife {s s' : Life} {a : LifeAction} (living : Living s) (h : Guarded s.world) (defers : shutsInline s a = false)
    (taken : lifeStep s a = some s') : Guarded s'.world := by
  cases lifeTurnCases taken with
  | server runs stepped =>
    have ledger := living.ledger (livingAlive runs)
    exact guardedStep ledger.registry ledger.placed h defers stepped
  | destroy serving idle =>
    intro pre b post parts under
    have only : [Act.forceAll s.world.entries] = pre ++ b :: post := by simpa [settle, beginDestructor] using parts
    rw [(onlyAct only).2.2] at under
    cases under
  | join closing idle => exact h
  | leave joining loop idle => exact h
  | clear joining joined => exact h

theorem tableKept {s : Life} {w' : World} {a : Action} (ledger : Ledger s.world) (h : Guarded s.world)
    (taken : step s.world a = some w') (going : traverses s (.server a) = true) (other : ownErase s (.server a) = false) :
    ∀ fd, w'.lookup fd = s.world.lookup fd := by
  intro fd
  cases turnCases ledger.registry ledger.placed taken with
  | @remove c below out known ran split does =>
    rcases does.outcome with ⟨_,lookup,_⟩ | ⟨fd',d,stored,_,_,_⟩
    · exact congrFun lookup fd
    · have under : loops (s.world.stack mainLoop) = true := by
        cases a <;> first | exact going | cases ran
      rw [split] at under
      rcases guardedTop h split under with gone | absurd_ | absurd_
      · rw [gone] at stored
        cases stored
      · cases absurd_
      · cases absurd_
  | @sweepErase x rest stale force below known split off act =>
    subst act
    simp [ownErase, split, off] at other
  | serve split own calm does => simp only [settle, World.lookup, does.connections]
  | accept idle free made act =>
    subst act
    have under : loops (s.world.stack mainLoop) = true := going
    rw [idle] at under
    cases under
  | _ => rfl

/- One connection is up, and StopGracefully's loop has called its Shutdown. -/
def stopsConnected : List LifeAction :=
  [.server .start,.server .poll,.server (.accept 5 64),.server (.goOn 0),.server (.runQueued 1),.server (.goOn 1),
    .server (.user 0 (.stopGracefully none)),.server (.goOn 0),.server (.goOn 0)]

/- The same on the main loop itself, where ShutdownInLoop runs under the loop. -/
def stopsInline : List LifeAction :=
  [.server .start,.server .poll,.server (.accept 5 64),.server (.goOn 0),.server (.user 0 (.stopGracefully none)),
    .server (.goOn 0),.server (.goOn 0),.server (.goOn 0),.server (.goOn 0)]

end TcFrame.TcpServer
