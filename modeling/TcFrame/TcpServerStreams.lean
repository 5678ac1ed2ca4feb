import TcFrame.ConnectionInput
import TcFrame.TcpServerPlacement

/-! The output of all connections of a server. A message reaches the connection it was sent
to and no other; of each sender a connection has the first messages, in the order of the calls,
and nothing is lost on the way while it is Connected. -/
namespace TcFrame.TcpServer
open Endpoint Machine
open Connection (Stream rank runRank changeRank fromSender fromSenderAppend fromSenderOther)

/- The calls of Send while Connected, and what passed SendInLoop's test of the state. -/
structure Sendings where
  sent : ConnId → List Message
  passed : ConnId → List Message

def sendOf : Action → Option (ConnId × Message)
  | .user t (.conn c (.send data)) => some (c,⟨t,0,data⟩)
  | _ => none

/- The message that comes to SendInLoop. -/
def passOf (w : World) : Action → Option (ConnId × Message)
  | .goOn t =>
    match w.stack t with
    | .call l (.conn c (.sendInLoop m)) :: _ => if t = l then some (c,m) else none
    | _ => none
  | _ => none

def enter (w : World) (log : ConnId → List Message) : Option (ConnId × Message) → ConnId → List Message
  | some (c,m) => if (w.conn c).isConnected then Function.update log c (log c ++ [m]) else log
  | none => log

def noteSends (w : World) (a : Action) (_ : World) (s : Sendings) : Sendings :=
  ⟨enter w s.sent (sendOf a),enter w s.passed (passOf w a)⟩

def nothingSent : Sendings := ⟨fun _ => [],fun _ => []⟩

theorem passTop {w : World} {a : Action} {c : ConnId} {m : Message} (pass : passOf w a = some (c,m)) :
    ∃ t below, a = .goOn t ∧ w.stack t = .call t (.conn c (.sendInLoop m)) :: below := by
  cases a with
  | goOn t =>
    simp only [passOf] at pass
    split at pass
    · rename_i top
      split at pass <;> cases pass
      rename_i here
      subst here
      exact ⟨t,_,rfl,top⟩
    · cases pass
  | _ => cases pass

/- The message to `c` that a task carries. -/
def Task.message (c : ConnId) : Task → Option Message
  | .conn d (.sendInLoop m) => if d = c then some m else none
  | _ => none

def Act.message (c : ConnId) : Act → Option Message
  | .call _ task => task.message c
  | _ => none

def inHand (w : World) (c : ConnId) (t : ThreadId) : List Message := (w.stack t).filterMap (Act.message c)

def inLoopQueue (w : World) (c : ConnId) : List Message := (w.queue (w.host.loopOf c)).filterMap (Task.message c)

/- The messages of `t` to `c`, from those that passed to the one still in `t`'s hand. -/
def line (w : World) (passed : List Message) (c : ConnId) (t : ThreadId) : List Message :=
  fromSender t (passed ++ inHand w c (w.host.loopOf c) ++ inLoopQueue w c ++
    if t = w.host.loopOf c then [] else inHand w c t)

def early (s : ConnectionState) : Prop := s = .connecting ∨ s = .connected

structure Lined (w : World) (s : Sendings) (c : ConnId) : Prop where
  whole : early (w.conn c).state → ∀ t, line w (s.passed c) c t = fromSender t (s.sent c)
  first : ∀ t, fromSender t (s.passed c) <+: fromSender t (s.sent c)

/- A thread has its message on top of its stack. -/
structure Streams (w : World) (s : Sendings) : Prop where
  under : ∀ t, ∀ a ∈ (w.stack t).tail, ∀ c, a.message c = none
  own : ∀ t c, ∀ m ∈ inHand w c t, t = w.host.loopOf c ∨ m.sender = t
  straight : ∀ c, ∀ m ∈ inLoopQueue w c, m.sender ≠ w.host.loopOf c
  unborn : ∀ c, w.host.next ≤ c → s.sent c = [] ∧ s.passed c = []
  lined : ∀ c, Lined w s c
  stream : ∀ c < w.host.next, Stream (w.host.endpoint c) ((s.passed c).map Message.data).flatten

theorem streamConn {e e' : Endpoint} {bytes : Bytes} (h : Stream e bytes) (conn : e'.conn = e.conn) : Stream e' bytes :=
  ⟨conn ▸ h.valid,conn ▸ h.whole,conn ▸ h.total,conn ▸ h.counter⟩

theorem messageUnknown {c : ConnId} {task : Task} (other : c ∉ task.conns) : task.message c = none := by
  cases task with
  | conn d f =>
    have apart : d ≠ c := fun same => other (by simp [Task.conns, same])
    cases f <;> simp [Task.message, apart]
  | _ => rfl

theorem messageIs {c : ConnId} {task : Task} {m : Message} (carries : task.message c = some m) :
    task = .conn c (.sendInLoop m) := by
  cases task with
  | conn d f =>
    cases f with
    | sendInLoop m' =>
      simp only [Task.message] at carries
      split at carries <;> cases carries
      rename_i same
      rw [same]
    | _ => cases carries
  | _ => cases carries

theorem framesSilent (c d : ConnId) (frames : List Frame) : (frames.map (Act.conn c)).filterMap (Act.message d) = [] := by
  rw [List.filterMap_map, List.filterMap_eq_nil_iff]
  exact fun _ _ => rfl

section Steps
variable {w w' : World} {s : Sendings}

theorem underSilent (h : Streams w s) {t : ThreadId} {top below : List Act} (split : w.stack t = top ++ below)
    (calm : top = [] → userRuns (w.stack t) = true) : ∀ a ∈ below, ∀ c, a.message c = none := by
  have tail := h.under t
  rw [split] at tail calm
  cases top with
  | cons f rest =>
    exact fun a member => tail a (by simp [member])
  | nil =>
    have runs := calm rfl
    intro a member c
    cases below with
    | nil => cases member
    | cons f rest =>
      rcases List.mem_cons.mp member with here | later
      · subst here
        cases a <;> first | rfl | cases runs
      · exact tail a later c

/- A turn of thread `t` as far as the messages in hand go. -/
theorem handSettle (h : Streams w s) {t : ThreadId} {top below : List Act} {o : Effect}
    (split : w.stack t = top ++ below) (calm : top = [] → userRuns (w.stack t) = true) (stack : o.1.stack = w.stack)
    (c : ConnId) : inHand w c t = top.filterMap (Act.message c) ∧
      ∀ t', inHand (settle t below o) c t' = if t' = t then o.2.filterMap (Act.message c) else inHand w c t' := by
  have silent : below.filterMap (Act.message c) = [] :=
    List.filterMap_eq_nil_iff.mpr (fun a member => underSilent h split calm a member c)
  refine ⟨by rw [inHand, split, List.filterMap_append, silent, List.append_nil],fun t' => ?_⟩
  simp only [inHand, settle, stack, Function.update_apply]
  split
  · rw [List.filterMap_append, silent, List.append_nil]
  · rfl

theorem underSettle (h : Streams w s) {t : ThreadId} {top below : List Act} {o : Effect}
    (split : w.stack t = top ++ below) (calm : top = [] → userRuns (w.stack t) = true) (stack : o.1.stack = w.stack)
    (acts : ∀ a ∈ o.2.tail, ∀ c, a.message c = none) :
    ∀ t', ∀ a ∈ ((settle t below o).stack t').tail, ∀ c, a.message c = none := by
  intro t' a member
  simp only [settle, stack, Function.update_apply] at member
  split at member
  · cases made : o.2 with
    | nil =>
      rw [made] at member
      exact underSilent h split calm a (List.mem_of_mem_tail member)
    | cons f rest =>
      rw [made] at member acts
      rcases List.mem_append.mp member with new | old
      · exact acts a new
      · exact underSilent h split calm a old
  · exact h.under t' a member

/- A connection whose messages stay where they are. -/
theorem linedSame {s' : Sendings} {c : ConnId} (h : Lined w s c) (hand : ∀ t, inHand w' c t = inHand w c t)
    (queue : inLoopQueue w' c = inLoopQueue w c) (loop : w'.host.loopOf c = w.host.loopOf c)
    (states : early (w'.conn c).state → early (w.conn c).state) (sent : s'.sent c = s.sent c)
    (passed : s'.passed c = s.passed c) : Lined w' s' c := by
  refine ⟨fun up t => ?_,fun t => by rw [sent, passed]; exact h.first t⟩
  rw [sent, passed, ← h.whole (states up) t]
  simp only [line, hand, queue, loop]

abbrev pushed (w : World) (l : ThreadId) (task : Task) : World :=
  { w with queue := Function.update w.queue l (w.queue l ++ [task]) }

abbrev popped (w : World) (l : ThreadId) (rest : List Task) : World := { w with queue := Function.update w.queue l rest }

/- What leaves every message where it is. -/
theorem streamsAside (h : Streams w s) {t : ThreadId} {top below : List Act} {out : Effect}
    (split : w.stack t = top ++ below) (calm : top = [] → userRuns (w.stack t) = true) (stack : out.1.stack = w.stack)
    (queue : out.1.queue = w.queue) (next : out.1.host.next = w.host.next) (loopOf : out.1.host.loopOf = w.host.loopOf)
    (before : ∀ c, top.filterMap (Act.message c) = []) (after : ∀ c, out.2.filterMap (Act.message c) = [])
    (states : ∀ c, early (out.1.conn c).state → early (w.conn c).state)
    (stream : ∀ c < w.host.next, Stream (out.1.host.endpoint c) ((s.passed c).map Message.data).flatten) :
    Streams (settle t below out) s := by
  have hand : ∀ c t', inHand (settle t below out) c t' = inHand w c t' := by
    intro c t'
    obtain ⟨held,left⟩ := handSettle (o := out) h split calm stack c
    rw [left, after c]
    split
    · rename_i here
      rw [here, held, before c]
    · rfl
  have queued : ∀ c, inLoopQueue (settle t below out) c = inLoopQueue w c := fun c => by
    simp only [inLoopQueue, settle, queue, loopOf]
  have loops : (settle t below out).host.loopOf = w.host.loopOf := loopOf
  refine ⟨underSettle h split calm stack (fun a member c => ?_),?_,?_,?_,
    fun c => linedSame (h.lined c) (hand c) (queued c) (by rw [loops]) (states c) rfl rfl,?_⟩
  · exact List.filterMap_eq_nil_iff.mp (after c) a (List.mem_of_mem_tail member)
  · intro t' c m member
    rw [hand] at member
    rw [loops]
    exact h.own t' c m member
  · intro c m member
    rw [queued] at member
    rw [loops]
    exact h.straight c m member
  · intro c later
    have later' : w.host.next ≤ c := by simpa only [settle, next] using later
    exact h.unborn c later'
  · intro c known
    have known' : c < w.host.next := by simpa only [settle, next] using known
    exact stream c known'

theorem lineOther {t : ThreadId} {m : Message} (other : m.sender ≠ t) (as bs : List Message) :
    fromSender t (as ++ [m] ++ bs) = fromSender t (as ++ bs) := by
  simp only [fromSenderAppend, fromSenderOther (List.forall_mem_singleton.mpr other), List.append_nil]

/- A message goes from the hand of its thread to the end of the queue. -/
theorem streamsHand (h : Streams w s) {t l : ThreadId} {task : Task} {below : List Act}
    (split : w.stack t = .call l task :: below) (other : t ≠ l) (home : l = task.home w.host.loopOf) :
    Streams (settle t below (pushed w l task,[])) s := by
  have one : w.stack t = [.call l task] ++ below := split
  have calm : [Act.call l task] = [] → userRuns (w.stack t) = true := fun none_ => nomatch none_
  have moved : ∀ c, inHand w c t = (task.message c).toList ∧ ∀ t',
      inHand (settle t below (pushed w l task,[])) c t' =
        if t' = t then [] else inHand w c t' := by
    intro c
    obtain ⟨held,left⟩ := handSettle (o := (pushed w l task,[]))
      h one calm rfl c
    refine ⟨held.trans ?_,left⟩
    cases carries : task.message c <;> simp [Act.message, carries]
  have queued : ∀ c, inLoopQueue (settle t below (pushed w l task,[])) c =
      inLoopQueue w c ++ (task.message c).toList := by
    intro c
    simp only [inLoopQueue, settle, Function.update_apply]
    cases carries : task.message c with
    | none => split <;> simp_all
    | some m =>
      have here : w.host.loopOf c = l := by rw [home, messageIs carries]; rfl
      simp [here, carries]
  have sender : ∀ c m, task.message c = some m → w.host.loopOf c = l ∧ m.sender = t := by
    intro c m carries
    have here : w.host.loopOf c = l := by rw [home, messageIs carries]; rfl
    have held : m ∈ inHand w c t := by rw [(moved c).1, carries]; exact List.mem_cons_self
    exact ⟨here,(h.own t c m held).resolve_left (here ▸ other)⟩
  refine ⟨underSettle h one calm rfl (by simp),?_,?_,h.unborn,fun c => ⟨fun up t' => ?_,(h.lined c).first⟩,h.stream⟩
  · intro t' c m member
    rw [(moved c).2] at member
    split at member
    · cases member
    · exact h.own t' c m member
  · intro c m member
    rw [queued] at member
    rcases List.mem_append.mp member with old | new
    · exact h.straight c m old
    · obtain ⟨here,from_⟩ := sender c m (Option.mem_toList.mp new)
      rw [from_]
      exact here ▸ other
  · rw [← (h.lined c).whole up t']
    have loops : (settle t below (pushed w l task,[])).host.loopOf =
        w.host.loopOf := rfl
    simp only [line, loops, (moved c).2, queued]
    cases carries : task.message c with
    | none =>
      have held : inHand w c t = [] := by rw [(moved c).1, carries]; rfl
      have same : ∀ t', (if t' = t then [] else inHand w c t') = inHand w c t' := by
        intro t'
        split
        · rename_i here
          rw [here, held]
        · rfl
      simp only [same, Option.toList_none, List.append_nil]
    | some m =>
      obtain ⟨here,from_⟩ := sender c m carries
      have away : w.host.loopOf c ≠ t := fun same => other (same.symm.trans here)
      rw [if_neg away, Option.toList_some]
      by_cases mine : t' = t
      · have held : inHand w c t = [m] := by rw [(moved c).1, carries]; rfl
        rw [mine, if_neg away.symm, if_neg away.symm, if_pos rfl, held, List.append_nil]
        simp only [List.append_assoc]
      · rw [if_neg mine, ← List.append_assoc]
        exact lineOther (fun same => mine (same.symm.trans from_)) _ _

/- A message goes from the head of the queue to the hand of the loop. -/
theorem streamsTake (h : Streams w s) {l : ThreadId} {task : Task} {rest : List Task} (idle : w.stack l = [])
    (head : w.queue l = task :: rest) (home : l = task.home w.host.loopOf) :
    Streams (settle l [] (popped w l rest,[.call l task])) s := by
  have none_ : w.stack l = [] ++ [] := idle
  have calm : ([] : List Act) = [] → userRuns (w.stack l) = true := fun _ => by rw [idle]; rfl
  have moved : ∀ c, inHand w c l = [] ∧ ∀ t',
      inHand (settle l [] (popped w l rest,[.call l task])) c t' =
        if t' = l then (task.message c).toList else inHand w c t' := by
    intro c
    obtain ⟨held,left⟩ := handSettle (o := (popped w l rest,[.call l task])) h none_ calm rfl c
    refine ⟨held,fun t' => (left t').trans ?_⟩
    cases carries : task.message c <;> simp [Act.message, carries]
  have queued : ∀ c, inLoopQueue w c =
      (task.message c).toList ++ inLoopQueue (settle l [] (popped w l rest,[.call l task])) c := by
    intro c
    simp only [inLoopQueue, settle, Function.update_apply]
    cases carries : task.message c with
    | none =>
      split
      · rename_i here
        simp [here, head, carries]
      · rfl
    | some m =>
      have here : w.host.loopOf c = l := by rw [home, messageIs carries]; rfl
      simp [here, head, carries]
  refine ⟨underSettle h none_ calm rfl (by simp),?_,?_,h.unborn,fun c => ⟨fun up t' => ?_,(h.lined c).first⟩,h.stream⟩
  · intro t' c m member
    rw [(moved c).2] at member
    split at member
    · rename_i here
      rw [here, home, messageIs (Option.mem_toList.mp member)]
      exact .inl rfl
    · exact h.own t' c m member
  · intro c m member
    exact h.straight c m (by rw [queued]; exact List.mem_append_right _ member)
  · rw [← (h.lined c).whole up t']
    have loops : (settle l [] (popped w l rest,[.call l task])).host.loopOf = w.host.loopOf := rfl
    simp only [line, loops, queued c, (moved c).2]
    by_cases here : w.host.loopOf c = l
    · have held : inHand w c (w.host.loopOf c) = [] := by rw [here]; exact (moved c).1
      rw [if_pos here, held, List.append_nil]
      by_cases mine : t' = l
      · rw [mine, if_pos here.symm, if_pos here.symm, List.append_assoc (s.passed c)]
      · rw [if_neg mine, List.append_assoc (s.passed c)]
    · have nothing : task.message c = none := by
        cases carries : task.message c with
        | none => rfl
        | some m => exact absurd (by rw [home, messageIs carries]; rfl) here
      have same : ∀ t', (if t' = l then [] else inHand w c t') = inHand w c t' := by
        intro t'
        split
        · rename_i mine
          rw [mine, (moved c).1]
        · rfl
      simp only [nothing, Option.toList_none, same, List.nil_append]

/- The stream of one connection changes, those of the others do not. -/
theorem streamPut {c : ConnId} {e : Endpoint} {before after : ConnId → Bytes}
    (stream : ∀ d < w.host.next, Stream (w.host.endpoint d) (before d)) (mine : Stream e (after c))
    (rest : ∀ d, d ≠ c → after d = before d) : ∀ d < w.host.next, Stream ((w.host.put c e).endpoint d) (after d) := by
  intro d known
  by_cases here : d = c
  · rw [here]
    exact streamConn mine (w.host.putSame c e)
  · rw [rest d here]
    exact streamConn (stream d known) (w.host.putOther e here)

/- A message that a thread takes into its hand is the last one of its line. -/
theorem linePushed {passed : List Message} {c : ConnId} {t : ThreadId} {m : Message} (sender : m.sender = t)
    (empty : inHand w c t = []) (hand : ∀ t', inHand w' c t' = if t' = t then [m] else inHand w c t')
    (queue : inLoopQueue w' c = inLoopQueue w c) (loop : w'.host.loopOf c = w.host.loopOf c)
    (straight : ∀ m ∈ inLoopQueue w c, m.sender ≠ w.host.loopOf c) (t' : ThreadId) :
    line w' passed c t' = line w passed c t' ++ fromSender t' [m] := by
  simp only [line, hand, queue, loop, ← fromSenderAppend]
  by_cases mine : t' = t
  · subst mine
    by_cases home : t' = w.host.loopOf c
    · have none_ : fromSender t' (inLoopQueue w c) = [] := fromSenderOther (home ▸ straight)
      rw [if_pos home.symm, if_pos home, ← home, empty]
      simp only [fromSenderAppend, none_, if_true, List.append_nil]
    · rw [if_neg (Ne.symm home), if_neg home, if_pos rfl, if_neg home, empty, List.append_nil]
  · have other : m.sender ≠ t' := fun same => mine (same.symm.trans sender)
    have none_ : fromSender t' [m] = [] := fromSenderOther (List.forall_mem_singleton.mpr other)
    rw [if_neg mine]
    by_cases home : w.host.loopOf c = t
    · rw [if_pos home, home, empty]
      simp only [fromSenderAppend, none_, List.append_nil]
    · rw [if_neg home]
      simp only [fromSenderAppend, none_, List.append_nil]

/- Send on a connection that is Connected. -/
theorem streamsSend (h : Streams w s) {t : ThreadId} {c : ConnId} {data : Bytes} (runs : userRuns (w.stack t) = true)
    (known : c < w.host.next) :
    Streams (settle t (w.stack t) (callConn w t c (.send data))) ⟨enter w s.sent (some (c,⟨t,0,data⟩)),s.passed⟩ := by
  have whole : w.stack t = [] ++ w.stack t := rfl
  have calm : ([] : List Act) = [] → userRuns (w.stack t) = true := fun _ => runs
  have kept : ∀ d, (w.putHost (w.host.put c (w.host.endpoint c))).conn d = w.conn d := fun d =>
    World.connPutCases (P := fun conn => conn = w.conn d) (fun here => by rw [here]; rfl) (fun _ => rfl)
  have stream := streamPut h.stream (h.stream c known) (fun _ _ => rfl)
  cases passes : (w.conn c).isConnected with
  | false =>
    have refused : callConn w t c (.send data) = (w.putHost (w.host.put c (w.host.endpoint c)),[]) := by
      have off : (w.host.endpoint c).conn.isConnected = false := passes
      simp [callConn, request, send, off]
    have same : enter w s.sent (some (c,⟨t,0,data⟩)) = s.sent := by simp [enter, passes]
    rw [refused, same]
    exact streamsAside h whole calm rfl rfl rfl rfl (fun _ => rfl) (fun _ => rfl) (fun d up => by rwa [kept] at up) stream
  | true =>
    have handed : callConn w t c (.send data) = (w.putHost (w.host.put c (w.host.endpoint c)),
        [.call (w.host.loopOf c) (.conn c (.sendInLoop ⟨t,0,data⟩))]) := by
      have on : (w.host.endpoint c).conn.isConnected = true := passes
      simp [callConn, request, send, on]
    have grown : enter w s.sent (some (c,⟨t,0,data⟩)) = Function.update s.sent c (s.sent c ++ [⟨t,0,data⟩]) := by
      simp [enter, passes]
    rw [handed, grown]
    have moved : ∀ d, inHand w d t = [] ∧ ∀ t', inHand (settle t (w.stack t) (w.putHost (w.host.put c (w.host.endpoint c)),
        [.call (w.host.loopOf c) (.conn c (.sendInLoop ⟨t,0,data⟩))])) d t' =
          if t' = t then (if c = d then [⟨t,0,data⟩] else []) else inHand w d t' := by
      intro d
      obtain ⟨held,left⟩ := handSettle (o := (w.putHost (w.host.put c (w.host.endpoint c)),
        [.call (w.host.loopOf c) (.conn c (.sendInLoop ⟨t,0,data⟩))])) h whole calm rfl d
      refine ⟨held,fun t' => (left t').trans ?_⟩
      by_cases here : c = d <;> simp [Act.message, Task.message, here]
    refine ⟨underSettle h whole calm rfl (by simp),?_,h.straight,?_,fun d => ?_,stream⟩
    · intro t' d m member
      rw [(moved d).2] at member
      split at member
      · rename_i here
        split at member
        · rw [List.mem_singleton.mp member]
          exact .inr here.symm
        · cases member
      · exact h.own t' d m member
    · intro d later
      have other : d ≠ c := Nat.ne_of_gt (Nat.lt_of_lt_of_le known later)
      simp only [Function.update_of_ne other]
      exact h.unborn d later
    · by_cases here : c = d
      · subst here
        refine ⟨fun up t' => ?_,fun t' => ?_⟩
        · have before := (h.lined c).whole (by rwa [connSettle, kept] at up) t'
          simp only [Function.update_self, fromSenderAppend t' (s.sent c), ← before]
          have taken : ∀ t', inHand _ c t' = if t' = t then [⟨t,0,data⟩] else inHand w c t' := fun t' =>
            ((moved c).2 t').trans (by rw [if_pos rfl])
          exact linePushed (m := ⟨t,0,data⟩) rfl (moved c).1 taken rfl rfl (h.straight c) t'
        · simp only [Function.update_self, fromSenderAppend]
          exact ((h.lined c).first t').trans (List.prefix_append _ _)
      · refine linedSame (h.lined d) (fun t' => ?_) rfl rfl (fun up => by rwa [connSettle, kept] at up)
          (Function.update_of_ne (Ne.symm here) _ _) rfl
        rw [(moved d).2, if_neg here]
        split
        · rename_i mine
          rw [mine, (moved d).1]
        · rfl

/- SendInLoop's test. A message that fails it is of no use to a connection that is Connected. -/
theorem streamsPass (h : Streams w s) (b : Births w) {t : ThreadId} {c : ConnId} {m : Message} {below : List Act}
    (known : c < w.host.next) (home : t = w.host.loopOf c) (split : w.stack t = .call t (.conn c (.sendInLoop m)) :: below) :
    Streams (settle t below (ofConn w c ((w.host.endpoint c).run (.sendInLoop m))))
      ⟨s.sent,enter w s.passed (some (c,m))⟩ := by
  have one : w.stack t = [.call t (.conn c (.sendInLoop m))] ++ below := split
  have calm : [Act.call t (.conn c (.sendInLoop m))] = [] → userRuns (w.stack t) = true := fun none_ => nomatch none_
  generalize made : (w.host.endpoint c).run (.sendInLoop m) = out
  have moved : ∀ d, inHand w d t = (if c = d then [m] else []) ∧
      ∀ t', inHand (settle t below (ofConn w c out)) d t' = if t' = t then [] else inHand w d t' := by
    intro d
    obtain ⟨held,left⟩ := handSettle (o := ofConn w c out) h one calm rfl d
    refine ⟨held.trans ?_,fun t' => (left t').trans (by rw [ofConn, framesSilent])⟩
    by_cases here : c = d <;> simp [Act.message, Task.message, here]
  have state : out.1.conn.state = (w.conn c).state := by
    rw [← made, Endpoint.run]
    cases passes : (w.host.endpoint c).conn.isConnected with
    | true => rw [(sendInLoopPassed passes).1]; rfl
    | false => rw [sendInLoopRefused passes]; rfl
  have states : ∀ d, ((w.putHost (w.host.put c out.1)).conn d).state = (w.conn d).state := fun d =>
    World.connPutCases (P := fun conn => conn.state = (w.conn d).state) (fun here => by rw [here]; exact state) (fun _ => rfl)
  have others : ∀ (s' : Sendings) d, c ≠ d → s'.sent d = s.sent d → s'.passed d = s.passed d →
      Lined (settle t below (ofConn w c out)) s' d := by
    intro s' d other sent passed
    refine linedSame (h.lined d) (fun t' => ?_) rfl rfl (fun up => by rwa [connSettle, ofConn, states] at up) sent passed
    rw [(moved d).2]
    split
    · rename_i mine
      rw [mine, (moved d).1, if_neg other]
    · rfl
  have under := underSettle (o := ofConn w c out) h one calm rfl
    (fun a member d => List.filterMap_eq_nil_iff.mp (framesSilent c d out.2) a (List.mem_of_mem_tail member))
  have own : ∀ t' d, ∀ m ∈ inHand (settle t below (ofConn w c out)) d t', t' = w.host.loopOf d ∨ m.sender = t' := by
    intro t' d m' member
    rw [(moved d).2] at member
    split at member
    · cases member
    · exact h.own t' d m' member
  cases passes : (w.conn c).isConnected with
  | false =>
    have same : enter w s.passed (some (c,m)) = s.passed := by simp [enter, passes]
    have refused : out.1 = w.host.endpoint c := by
      rw [← made, Endpoint.run, sendInLoopRefused (show (w.host.endpoint c).conn.isConnected = false from passes)]
    rw [same]
    refine ⟨under,own,h.straight,h.unborn,fun d => ?_,
      streamPut h.stream (refused ▸ h.stream c known) (fun _ _ => rfl)⟩
    by_cases here : c = d
    · subst here
      refine ⟨fun up => ?_,(h.lined c).first⟩
      rw [connSettle, ofConn, states] at up
      rcases up with fresh | connected
      · exact absurd fresh (b.calls t t c _ (by rw [split]; exact List.mem_cons_self) rfl)
      · simp [TcpConnection.isConnected, connected] at passes
    · exact others s d here rfl rfl
  | true =>
    have grown : enter w s.passed (some (c,m)) = Function.update s.passed c (s.passed c ++ [m]) := by
      simp [enter, passes]
    have up : early (w.conn c).state := .inr (by simpa [TcpConnection.isConnected] using passes)
    have lines : ∀ t', line (settle t below (ofConn w c out)) (s.passed c ++ [m]) c t' = line w (s.passed c) c t' := by
      intro t'
      have loops : (settle t below (ofConn w c out)).host.loopOf = w.host.loopOf := rfl
      have queued : inLoopQueue (settle t below (ofConn w c out)) c = inLoopQueue w c := rfl
      simp only [line, loops, queued, (moved c).2, ← home, (moved c).1, if_true, List.append_nil]
      split <;> rfl
    have stream : Stream out.1 ((s.passed c ++ [m]).map Message.data).flatten := by
      have on : (w.host.endpoint c).conn.isConnected = true := passes
      rw [← made, Endpoint.run, (sendInLoopPassed on).1, List.map_append, List.flatten_append]
      simpa using Connection.streamAppended (h.stream c known) on m.data
    rw [grown]
    refine ⟨under,own,h.straight,fun d later => ?_,fun d => ?_,
      streamPut h.stream (by simpa only [Function.update_self] using stream)
        (fun d other => by simp only [Function.update_of_ne other])⟩
    · have other : d ≠ c := Nat.ne_of_gt (Nat.lt_of_lt_of_le known later)
      simp only [Function.update_of_ne other]
      exact h.unborn d later
    · by_cases here : c = d
      · subst here
        have all : ∀ t', line w (s.passed c) c t' = fromSender t' (s.sent c) := (h.lined c).whole up
        refine ⟨fun _ t' => ?_,fun t' => ?_⟩
        · simp only [Function.update_self, lines, all]
        · simp only [Function.update_self, ← all, ← lines]
          simp only [line, fromSenderAppend, List.append_assoc, List.prefix_append_right_inj]
          exact List.prefix_append _ _
      · exact others _ d here rfl (Function.update_of_ne (Ne.symm here) _ _)

theorem streamCreated (c : ConnId) (fd : Fd) (callbacks : Callbacks) (mark bufferSize : Nat) {e : Endpoint}
    (new : e.conn = TcpConnection.create c fd callbacks mark bufferSize) : Stream e [] := by
  have valid := Buffer.newValid bufferSize
  have none_ : (Buffer.new bufferSize).readable = [] := Buffer.newReadable _
  have size : (Buffer.new bufferSize).readableBytes = 0 := by rw [← Buffer.readableLength valid, none_]; rfl
  refine ⟨?_,?_,?_,?_⟩ <;> rw [new]
  · exact valid
  · exact none_
  · rfl
  · exact size.symm

theorem streamsAccept (h : Streams w s) (r : Registry w) {fd : Fd} (idle : w.stack mainLoop = [])
    (made : Accepts w fd w') : Streams w' s := by
  have hand : ∀ c t, inHand w' c t = inHand w c t := by
    intro c t
    by_cases main : t = mainLoop
    · subst main
      rw [inHand, inHand, made.main, idle]
      rfl
    · rw [inHand, inHand, made.apart t main]
  have noHand : ∀ c, w.host.next ≤ c → ∀ t, inHand w c t = [] := by
    intro c later t
    refine List.filterMap_eq_nil_iff.mpr (fun a member => ?_)
    have known := r.stacked t a member
    cases a with
    | call l task => exact messageUnknown (fun there => Nat.not_lt.mpr later (known c there))
    | _ => rfl
  have noQueue : ∀ c, w.host.next ≤ c → ∀ l, (w.queue l).filterMap (Task.message c) = [] := fun c later l =>
    List.filterMap_eq_nil_iff.mpr (fun task member =>
      messageUnknown (fun there => Nat.not_lt.mpr later (r.queues l task member c there)))
  have queued : ∀ c < w.host.next, inLoopQueue w' c = inLoopQueue w c := fun c known => by
    rw [inLoopQueue, inLoopQueue, made.queue, (made.old c known).2]
  refine ⟨fun t a member c => ?_,fun t c m member => ?_,fun c m member => ?_,fun c later => ?_,fun c => ?_,fun c known => ?_⟩
  · by_cases main : t = mainLoop
    · subst main
      rw [made.main] at member
      cases member
    · rw [made.apart t main] at member
      exact h.under t a member c
  · rw [hand] at member
    by_cases known : c < w.host.next
    · rw [(made.old c known).2]
      exact h.own t c m member
    · rw [noHand c (Nat.le_of_not_lt known)] at member
      cases member
  · by_cases known : c < w.host.next
    · rw [queued c known] at member
      rw [(made.old c known).2]
      exact h.straight c m member
    · rw [inLoopQueue, made.queue, noQueue c (Nat.le_of_not_lt known)] at member
      cases member
  · rw [made.next] at later
    exact h.unborn c (Nat.le_of_succ_le later)
  · by_cases known : c < w.host.next
    · obtain ⟨conn,loop⟩ := made.old c known
      exact linedSame (h.lined c) (hand c) (queued c known) loop (fun up => by rwa [conn] at up) rfl rfl
    · have later := Nat.le_of_not_lt known
      obtain ⟨sent,passed⟩ := h.unborn c later
      refine ⟨fun _ t => ?_,fun t => by rw [passed]; exact List.nil_prefix⟩
      simp [line, hand, noHand c later, inLoopQueue, made.queue, noQueue c later, sent, passed, fromSender]
  · rw [made.next] at known
    rcases Nat.lt_succ_iff_lt_or_eq.mp known with old | here
    · exact streamConn (h.stream c old) (made.old c old).1
    · obtain ⟨callbacks,mark,bufferSize,new⟩ := made.new
      rw [here, (h.unborn _ (Nat.le_refl _)).2]
      exact streamCreated _ _ _ _ _ new

/- No function takes a connection back. -/
theorem rankMember (b : Births w) {a : Action} {t : ThreadId} {c : ConnId} {top below : List Act}
    {out : Endpoint × List Frame} (home : t = w.host.loopOf c) (split : w.stack t = top ++ below)
    (does : Member w t c a top out) (known : c < w.host.next) : rank (w.conn c).state ≤ rank out.1.conn.state := by
  cases does with
  | resume own => exact Nat.le_of_eq (congrArg rank (resumeState (w.host.endpoint c) _).symm)
  | @run f =>
    refine runRank (e := w.host.endpoint c) (fun same => ?_)
    subst same home
    exact establishedFresh b known split
  | event idle up ok => exact changeRank (Connection.handleChange (w.host.endpoint c) ok)

theorem rankRequest (e : Endpoint) (t : ThreadId) (call : UserCall) :
    rank e.conn.state ≤ rank (e.request t call).1.conn.state := by
  rcases (requestStateOnly e t call).1.state with same | ⟨leaving,connected | disconnecting⟩
  · exact Nat.le_of_eq (congrArg rank same.symm)
  · rw [leaving, connected]
    decide
  · rw [leaving, disconnecting]

theorem rankPut {c : ConnId} {e : Endpoint} (forward : rank (w.conn c).state ≤ rank e.conn.state) (d : ConnId) :
    rank (w.conn d).state ≤ rank ((w.putHost (w.host.put c e)).conn d).state :=
  World.connPutCases (P := fun conn => rank (w.conn d).state ≤ rank conn.state) (fun here => by rw [here]; exact forward)
    (fun _ => Nat.le_refl _)

theorem rankStep (r : Registry w) (p : Placed w) (b : Births w) {a : Action} (taken : step w a = some w') {c : ConnId}
    (known : c < w.host.next) : rank (w.conn c).state ≤ rank (w'.conn c).state := by
  have kept : ∀ {out : Effect}, out.1.host = w.host → ∀ t below,
      rank (w.conn c).state ≤ rank ((settle t below out).conn c).state := fun host t below =>
    Nat.le_of_eq (by rw [connSettle, World.connSame host])
  cases turnCases r p taken with
  | member known' home split does => exact rankPut (rankMember b home split does known') c
  | @request t d call top below again known' split caller => exact rankPut (rankRequest (w.host.endpoint d) t call) c
  | remove known' ran split does => exact kept does.host _ _
  | serve split own calm does => exact kept does.host _ _
  | accept idle free made => exact Nat.le_of_eq (by rw [(made.old c known).1])
  | _ => exact Nat.le_refl _

theorem earlyRank {s s' : ConnectionState} (forward : rank s ≤ rank s') (up : early s') : early s := by
  cases s with
  | connecting => exact .inl rfl
  | connected => exact .inr rfl
  | _ => rcases up with same | same <;> rw [same] at forward <;> exact absurd forward (by decide)

/- A member function other than SendInLoop. -/
theorem streamMember (b : Births w) {a : Action} {t : ThreadId} {c : ConnId} {top below : List Act}
    {out : Endpoint × List Frame} (known : c < w.host.next) (home : t = w.host.loopOf c) (split : w.stack t = top ++ below)
    (does : Member w t c a top out) (pass : passOf w a = none) :
    (∀ bytes, Stream (w.host.endpoint c) bytes → Stream out.1 bytes) ∧ ∀ d, top.filterMap (Act.message d) = [] := by
  cases does with
  | @resume f own => exact ⟨fun bytes stream => Connection.streamResume stream f,fun d => rfl⟩
  | @run f =>
    have other : ∀ m, f ≠ .sendInLoop m := by
      intro m same
      rw [same] at split
      simp [passOf, split] at pass
    have change : Change (w.host.endpoint c) ((w.host.endpoint c).run f).1 ((w.host.endpoint c).run f).2 := by
      refine runChange _ other (fun same => ?_)
      subst same home
      exact establishedFresh b known split
    refine ⟨fun bytes stream => Connection.streamChange stream change,fun d => ?_⟩
    cases f with
    | sendInLoop m => exact absurd rfl (other m)
    | _ => rfl
  | event idle up ok =>
    exact ⟨fun bytes stream => Connection.streamChange stream (Connection.handleChange (w.host.endpoint c) ok),fun d => rfl⟩

theorem requestStream {e : Endpoint} {t : ThreadId} {call : UserCall} {bytes : Bytes} (h : Stream e bytes) :
    Stream (e.request t call).1 bytes := by
  obtain ⟨rest,state⟩ := (requestStateOnly e t call).1
  have counter := h.counter
  generalize (e.request t call).1 = e' at rest state
  refine ⟨?_,?_,?_,?_⟩ <;> rw [rest]
  · exact h.valid
  · exact h.whole
  · exact h.total
  · rcases state with same | ⟨leaving,up⟩
    · simpa only [same] using counter
    · have live : e.conn.state ≠ .disconnected := by rcases up with s | s <;> simp [s]
      rw [if_neg live] at counter
      simpa [leaving] using counter

theorem callSilent {t : ThreadId} {c : ConnId} {call : UserCall} (quiet : ∀ data, call ≠ .send data) (d : ConnId) :
    (callConn w t c call).2.filterMap (Act.message d) = [] := by
  rw [callConn, List.filterMap_map]
  refine List.filterMap_eq_nil_iff.mpr (fun f handed => ?_)
  cases f with
  | sendInLoop m =>
    cases call with
    | send data => exact absurd rfl (quiet data)
    | _ => simp only [request, shutdown, forceClose] at handed; split at handed <;> simp at handed
  | _ => rfl

/- A function of the server has no message. -/
theorem ownSilent {top : List Act} (own : ∀ f ∈ top, f.isOwn = true) (c : ConnId) :
    top.filterMap (Act.message c) = [] := by
  refine List.filterMap_eq_nil_iff.mpr (fun a member => ?_)
  have mine := own a member
  cases a with
  | call l task => cases task <;> first | rfl | cases mine
  | _ => rfl

theorem servedSilent {out : Effect} (served : ∀ a ∈ out.2, a.Served w) (c : ConnId) :
    out.2.filterMap (Act.message c) = [] := by
  refine List.filterMap_eq_nil_iff.mpr (fun a member => ?_)
  cases a with
  | call l task =>
    obtain ⟨_,cb,same⟩ := served _ member
    rw [same]
    rfl
  | _ => rfl

theorem sweepSilent (stale : List ConnId) (force : Bool) (c : ConnId) :
    (sweepEnd w stale force).2.filterMap (Act.message c) = [] := by
  refine List.filterMap_eq_nil_iff.mpr (fun a member => ?_)
  simp only [sweepEnd, List.mem_append, List.mem_map, List.mem_singleton] at member
  rcases member with (⟨d,_,same⟩ | all) | last
  · rw [← same]
    rfl
  · split at all
    · rw [List.mem_singleton.mp all]
      rfl
    · cases all
  · rw [last]
    rfl

/- A step that neither is a call of Send nor brings a message to SendInLoop. -/
theorem streamsPlain (r : Registry w) (p : Placed w) (b : Births w) (h : Streams w s) {a : Action}
    (send : sendOf a = none) (pass : passOf w a = none) (taken : step w a = some w') : Streams w' s := by
  have kept : ∀ {v : World}, v.host = w.host → (∀ c, early (v.conn c).state → early (w.conn c).state) ∧
      ∀ c < w.host.next, Stream (v.host.endpoint c) ((s.passed c).map Message.data).flatten := by
    intro v host
    refine ⟨fun c up => by rwa [World.connSame host] at up,fun c known => ?_⟩
    rw [host]
    exact h.stream c known
  cases turnCases r p taken with
  | @member t c top below out known home split does =>
    obtain ⟨stream,before⟩ := streamMember b known home split does pass
    have calm : top = [] → userRuns (w.stack t) = true := by
      intro none_
      cases does with
      | event idle => rw [idle]; rfl
      | _ => cases none_
    exact streamsAside h split calm rfl rfl rfl rfl before (framesSilent c · out.2)
      (fun d => earlyRank (rankPut (rankMember b home split does known) d))
      (streamPut h.stream (stream _ (h.stream c known)) (fun _ _ => rfl))
  | @request t c call top below again known split caller =>
    have calm : top = [] → userRuns (w.stack t) = true := by
      intro none_
      cases caller with
      | user runs => exact runs
      | _ => cases none_
    have quiet : ∀ data, call ≠ .send data := by
      intro data same
      subst same
      cases caller
      cases send
    have silent : ∀ d, top.filterMap (Act.message d) = [] ∧ again.filterMap (Act.message d) = [] := by
      intro d
      cases caller <;> exact ⟨rfl,rfl⟩
    refine streamsAside h split calm rfl rfl rfl rfl (fun d => (silent d).1) (fun d => ?_)
      (fun d => earlyRank (rankPut (rankRequest (w.host.endpoint c) t call) d))
      (streamPut h.stream (requestStream (h.stream c known)) (fun _ _ => rfl))
    rw [List.filterMap_append, (silent d).2, List.append_nil]
    exact callSilent quiet d
  | close home split =>
    obtain ⟨states,stream⟩ := kept rfl
    exact streamsAside h (topSplit split) (fun none_ => nomatch none_) rfl rfl rfl rfl (fun _ => rfl) (fun _ => rfl) states stream
  | hand split other home act => exact streamsHand h split other home
  | @take l task rest idle head loop => exact streamsTake h idle head (p.queues l task (by simp [head]))
  | @remove c below out known ran split does =>
    obtain ⟨states,stream⟩ := kept does.host
    refine streamsAside h (topSplit split) (fun none_ => nomatch none_) does.stack does.queue (by rw [does.host])
      (by rw [does.host]) (fun _ => rfl) (fun d => ?_) states stream
    rcases does.outcome with ⟨_,_,acts⟩ | ⟨_,_,_,_,_,acts⟩ <;> rw [acts] <;> rfl
  | sweepErase known split off act =>
    obtain ⟨states,stream⟩ := kept (v := w.erase _) rfl
    exact streamsAside h (topSplit split) (fun none_ => nomatch none_) rfl rfl rfl rfl (fun _ => rfl) (fun _ => rfl) states stream
  | @sweepEnd stale force below split =>
    obtain ⟨states,stream⟩ := kept rfl
    exact streamsAside h (topSplit split) (fun none_ => nomatch none_) rfl rfl rfl rfl (fun _ => rfl)
      (sweepSilent stale force) states stream
  | sweepNext split on =>
    obtain ⟨states,stream⟩ := kept rfl
    exact streamsAside h (topSplit split) (fun none_ => nomatch none_) rfl rfl rfl rfl (fun _ => rfl) (fun _ => rfl) states stream
  | skip split skips =>
    obtain ⟨states,stream⟩ := kept rfl
    refine streamsAside h (topSplit split) (fun none_ => nomatch none_) rfl rfl rfl rfl (fun _ => ?_) (fun _ => ?_) states stream <;>
      cases skips <;> rfl
  | serve split own calm does =>
    obtain ⟨states,stream⟩ := kept does.host
    exact streamsAside h split calm does.stack does.queue (by rw [does.host]) (by rw [does.host]) (ownSilent own)
      (servedSilent does.acts) states stream
  | accept idle free made => exact streamsAccept h r idle made

theorem streamsStep (r : Registry w) (p : Placed w) (b : Births w) (h : Streams w s) {a : Action}
    (taken : step w a = some w') : Streams w' (noteSends w a w' s) := by
  cases send : sendOf a with
  | some x =>
    cases takenCases taken with
    | @userConn t c call runs known =>
      cases call <;> cases send
      exact streamsSend h runs known
    | _ => cases send
  | none =>
    cases pass : passOf w a with
    | some x =>
      obtain ⟨t,below,same,top⟩ := passTop pass
      subst same
      have made : noteSends w (.goOn t) w' s = ⟨s.sent,enter w s.passed (some x)⟩ := by rw [noteSends, pass]; rfl
      rw [made]
      cases takenCases taken with
      | goOn top' went =>
        rw [top] at top'
        cases top'
        simp only [goOn, runInLoop, if_true] at went
        cases went
        exact streamsPass h b (topKnown r top _ (by simp [Act.conns, Task.conns])) (topFits p top) top
    | none =>
      have made : noteSends w a w' s = s := by rw [noteSends, send, pass]; rfl
      rw [made]
      exact streamsPlain r p b h send pass taken

theorem streamsInitial (start : Initial w) : Streams w nothingSent := by
  obtain ⟨threadNum,callbacks,mark,idleTimeout,same⟩ := start
  subst same
  refine ⟨fun t a member => (by cases member),fun t c m member => (by cases member),fun c m member => (by cases member),
    fun c _ => ⟨rfl,rfl⟩,fun c => ⟨fun _ t => ?_,fun t => List.nil_prefix⟩,fun c known => absurd known (Nat.not_lt_zero c)⟩
  exact congrArg (fromSender t) (ite_self ([] : List Message))

end Steps

/- What a connection has put out and has still to. -/
structure Delivered (w : World) (log : Sendings) (c : ConnId) : Prop where
  stream : (w.conn c).socket.accepted ++ (w.conn c).outputBuffer.readable = ((log.passed c).map Message.data).flatten
  counted : (w.conn c).totalBytesWritten = (w.conn c).socket.accepted.length
  first : ∀ t, fromSender t (log.passed c) <+: fromSender t (log.sent c)
  whole : (w.conn c).state = .connected → inLoopQueue w c = [] → (∀ t, inHand w c t = []) →
    ∀ t, fromSender t (log.passed c) = fromSender t (log.sent c)

/- Two connections on two sub loops; thread 3 sends to both, and loop 1 has written one byte. -/
def toBoth : List Action :=
  [.start,.poll,.accept 5 64,.goOn 0,.runQueued 1,.goOn 1,.poll,.accept 6 64,.goOn 0,.runQueued 2,.goOn 2,
    .user 3 (.conn 0 (.send [1,2])),.goOn 3,.user 3 (.conn 1 (.send [7])),.goOn 3,.user 3 (.conn 0 (.send [3])),.goOn 3,
    .runQueued 1,.goOn 1,.goOn 1,.event 0 (.write (.ok 1)),.runQueued 1,.goOn 1,.goOn 1]

end TcFrame.TcpServer
