import TcFrame.EchoSession

/-! The clients in scripts/ against the echo server. They have a frame codec of their own in
Python: sendall, and recv_exact for the four bytes of the length and then for the payload.
One request waits for its answer before the next one goes out. -/
namespace TcFrame
namespace EchoBench
open LengthFieldCodec
open EchoServer (reply answers)
open EchoSession (Side)
open Connection (setInput)

inductive Raised where
  | overflow      -- OverflowError of to_bytes
  | closed        -- RuntimeError("server closed connection")
  | osError       -- of the socket: the timeout, a reset
  | mismatch      -- the check of the answer
  deriving DecidableEq, Repr

/- `rest` is what sendall has not got rid of, `chunks` joined is what recv_exact has and
`remain` what it still asks for. -/
inductive Pc where
  | request
  | sendall (rest : Bytes)
  | header (chunks : Bytes) (remain : Nat)
  | body (chunks : Bytes) (remain : Nat)
  | compare (answer : Bytes)
  | ended
  | raised (e : Raised)
  deriving DecidableEq, Repr

/- `requests` is what is left of range(requests), `latencies` counts the entries of that list,
`sent` and `received` are the bytes that went through the socket. -/
structure Worker where
  payload : Bytes
  expected : Bytes
  requests : Nat
  latencies : Nat
  sent : Bytes
  received : Bytes
  pc : Pc
  deriving DecidableEq, Repr

def packFrame (payload : Bytes) : Option Bytes :=
  if payload.length < 4294967296 then some (hostToNetLong payload.length ++ payload) else none

inductive WorkerAction where
  | next
  | send (n : Nat)
  | recv (chunk : Bytes)
  | fail
  deriving DecidableEq, Repr

/- recv returns no more than it is asked for, and nothing only at the end of the stream. -/
def recvExact (w : Worker) (chunk : Bytes) (remain : Nat) (pc : Pc) : Option Worker :=
  if remain < chunk.length ∨ remain = 0 then none
  else if chunk = [] then some { w with pc := .raised .closed }
  else some { w with received := w.received ++ chunk, pc := pc }

def workerStep (w : Worker) : WorkerAction → Option Worker
  | .next =>
    match w.pc with
    | .request =>
      match w.requests with
      | 0 => some { w with pc := .ended }
      | left + 1 =>
        match packFrame w.payload with
        | some bytes => some { w with requests := left, pc := .sendall bytes }
        | none => some { w with requests := left, pc := .raised .overflow }
    | .sendall [] => some { w with pc := .header [] 4 }
    | .header chunks 0 => some { w with pc := .body [] (netToHostLong chunks) }
    | .body chunks 0 => some { w with pc := .compare chunks }
    | .compare answer =>
      if answer = w.expected then some { w with latencies := w.latencies + 1, pc := .request }
      else some { w with pc := .raised .mismatch }
    | _ => none
  | .send n =>
    match w.pc with
    | .sendall rest =>
      if 0 < n ∧ n ≤ rest.length then some { w with sent := w.sent ++ rest.take n, pc := .sendall (rest.drop n) }
      else none
    | _ => none
  | .recv chunk =>
    match w.pc with
    | .header chunks remain => recvExact w chunk remain (.header (chunks ++ chunk) (remain - chunk.length))
    | .body chunks remain => recvExact w chunk remain (.body (chunks ++ chunk) (remain - chunk.length))
    | _ => none
  | .fail =>
    match w.pc with
    | .sendall (_ :: _) | .header _ (_ + 1) | .body _ (_ + 1) => some { w with pc := .raised .osError }
    | _ => none

structure Bench where
  worker : Worker
  server : Side

inductive Action where
  | worker (a : WorkerAction)
  | server (a : EchoServer.Action)
  deriving DecidableEq, Repr

/- The server has closed its end, or has begun to. -/
def closes (s : Bench) : Prop := s.server.connection.state = .disconnecting ∨ s.server.connection.state = .disconnected

instance (s : Bench) : Decidable (closes s) := by unfold closes; infer_instance

/- What one end reads is what the other one's socket has taken, up to some point. The stream
ends for the worker when all of it is read and the server closes. -/
def carried (s : Bench) (a : WorkerAction) (w : Worker) : Prop :=
  w.received <+: s.server.connection.accepted ∧
  (a = .recv [] → closes s ∧ w.received = s.server.connection.accepted)

instance (s : Bench) (a : WorkerAction) (w : Worker) : Decidable (carried s a w) := by unfold carried; infer_instance

def step (maxFrameLen : Nat) (s : Bench) : Action → Option Bench
  | .worker a =>
    (workerStep s.worker a).bind (fun w => if carried s a w then some { s with worker := w } else none)
  | .server a =>
    (EchoServer.step maxFrameLen s.server a).bind (fun v =>
      if v.received <+: s.worker.sent then some { s with server := v } else none)

/- The benchmark wants its payload back; a heartbeat is PING and wants PONG. -/
def connect (payload expected : Bytes) (requests : Nat) (server : Side) : Bench :=
  ⟨⟨payload,expected,requests,0,[],[],.request⟩,server⟩

def echo (payload : Bytes) (requests : Nat) (server : Side) : Bench := connect payload payload requests server

def heartbeat (server : Side) : Bench := connect ping pong 1 server

inductive Step (maxFrameLen : Nat) (s : Bench) : Bench → Prop where
  | worker {a w} (taken : workerStep s.worker a = some w) (fits : carried s a w) : Step maxFrameLen s { s with worker := w }
  | server {a v} (taken : EchoServer.step maxFrameLen s.server a = some v) (fits : v.received <+: s.worker.sent) :
      Step maxFrameLen s { s with server := v }

theorem stepCases {maxFrameLen : Nat} {s s' : Bench} {a : Action} (taken : step maxFrameLen s a = some s') :
    Step maxFrameLen s s' := by
  cases a with
  | worker a =>
    obtain ⟨w,made,last⟩ := Option.bind_eq_some_iff.mp taken
    split at last <;> cases last
    exact .worker made (by assumption)
  | server a =>
    obtain ⟨v,made,last⟩ := Option.bind_eq_some_iff.mp taken
    split at last <;> cases last
    exact .server made (by assumption)

/- Whether a request has been begun whose answer is not accepted. -/
def Pc.underWay : Pc → Nat
  | .request | .ended => 0
  | _ => 1

/- The ways of a worker's step. -/
inductive Turn (w : Worker) : WorkerAction → Worker → Prop where
  | finish (here : w.pc = .request) (none_ : w.requests = 0) : Turn w .next { w with pc := .ended }
  | pack {left} (here : w.pc = .request) (some_ : w.requests = left + 1) (small : w.payload.length < 4294967296) :
      Turn w .next { w with requests := left, pc := .sendall (frame w.payload) }
  | overflow {left} (here : w.pc = .request) (some_ : w.requests = left + 1) (large : 4294967296 ≤ w.payload.length) :
      Turn w .next { w with requests := left, pc := .raised .overflow }
  | sent (here : w.pc = .sendall []) : Turn w .next { w with pc := .header [] 4 }
  | header {chunks} (here : w.pc = .header chunks 0) : Turn w .next { w with pc := .body [] (netToHostLong chunks) }
  | body {chunks} (here : w.pc = .body chunks 0) : Turn w .next { w with pc := .compare chunks }
  | accept (here : w.pc = .compare w.expected) : Turn w .next { w with latencies := w.latencies + 1, pc := .request }
  | reject {answer} (here : w.pc = .compare answer) (other : answer ≠ w.expected) :
      Turn w .next { w with pc := .raised .mismatch }
  | send {rest n} (here : w.pc = .sendall rest) :
      Turn w (.send n) { w with sent := w.sent ++ rest.take n, pc := .sendall (rest.drop n) }
  | recvHeader {chunks remain chunk} (here : w.pc = .header chunks remain) (most : chunk.length ≤ remain) :
      Turn w (.recv chunk)
        { w with received := w.received ++ chunk, pc := .header (chunks ++ chunk) (remain - chunk.length) }
  | recvBody {chunks remain chunk} (here : w.pc = .body chunks remain) (most : chunk.length ≤ remain) :
      Turn w (.recv chunk)
        { w with received := w.received ++ chunk, pc := .body (chunks ++ chunk) (remain - chunk.length) }
  | closed (busy : w.pc.underWay = 1) : Turn w (.recv []) { w with pc := .raised .closed }
  | failed (busy : w.pc.underWay = 1) : Turn w .fail { w with pc := .raised .osError }

theorem recvCases {w w' : Worker} {chunk : Bytes} {remain : Nat} {pc : Pc} (taken : recvExact w chunk remain pc = some w') :
    chunk.length ≤ remain ∧
      (chunk = [] ∧ w' = { w with pc := .raised .closed } ∨ w' = { w with received := w.received ++ chunk, pc := pc }) := by
  simp only [recvExact] at taken
  split at taken
  · cases taken
  · rename_i fits
    refine ⟨by omega,?_⟩
    split at taken <;> cases taken
    · exact .inl ⟨by assumption,rfl⟩
    · exact .inr rfl

theorem turnNext {w w' : Worker} (taken : workerStep w .next = some w') : Turn w .next w' := by
  simp only [workerStep] at taken
  split at taken
  · rename_i here
    split at taken
    · cases taken
      exact .finish here (by assumption)
    · rename_i left some_
      simp only [packFrame] at taken
      by_cases small : w.payload.length < 4294967296
      · rw [if_pos small] at taken
        cases taken
        exact .pack here some_ small
      · rw [if_neg small] at taken
        cases taken
        exact .overflow here some_ (Nat.le_of_not_lt small)
  · cases taken
    exact .sent (by assumption)
  · cases taken
    exact .header (by assumption)
  · cases taken
    exact .body (by assumption)
  · rename_i answer here
    split at taken <;> cases taken
    · rename_i same
      exact .accept (same ▸ here)
    · exact .reject here (by assumption)
  · cases taken

theorem turnCases {w w' : Worker} {a : WorkerAction} (taken : workerStep w a = some w') : Turn w a w' := by
  cases a with
  | next => exact turnNext taken
  | send n =>
    simp only [workerStep] at taken
    split at taken
    · split at taken <;> cases taken
      exact .send (by assumption)
    · cases taken
  | recv chunk =>
    simp only [workerStep] at taken
    split at taken
    · rename_i here
      obtain ⟨most,⟨none_,same⟩ | same⟩ := recvCases taken
      · subst none_ same
        exact .closed (by rw [here]; rfl)
      · subst same
        exact .recvHeader here most
    · rename_i here
      obtain ⟨most,⟨none_,same⟩ | same⟩ := recvCases taken
      · subst none_ same
        exact .closed (by rw [here]; rfl)
      · subst same
        exact .recvBody here most
    · cases taken
  | fail =>
    simp only [workerStep] at taken
    split at taken <;> cases taken <;> rename_i here <;> exact .failed (by rw [here]; rfl)

/- The frames of the first `k` requests, and of the answers to them. -/
def asked (payload : Bytes) (k : Nat) : Bytes := (List.replicate k payload).flatMap frame

def answered (payload : Bytes) (k : Nat) : Bytes := answers (List.replicate k payload)

theorem askedSucc (payload : Bytes) (k : Nat) : asked payload (k + 1) = asked payload k ++ frame payload := by
  simp [asked, List.replicate_succ']

theorem answeredSucc (payload : Bytes) (k : Nat) :
    answered payload (k + 1) = answered payload k ++ frame (reply payload) := by
  simp [answered, answers, List.replicate_succ']

theorem askedLength (payload : Bytes) (k : Nat) : (asked payload k).length = k * (4 + payload.length) := by
  induction k with
  | zero => simp [asked]
  | succ k ih => rw [askedSucc, List.length_append, ih, frameLength, Nat.succ_mul]

theorem answeredLength (payload : Bytes) (k : Nat) : (answered payload k).length = k * (4 + payload.length) := by
  induction k with
  | zero => simp [answered, answers]
  | succ k ih => rw [answeredSucc, List.length_append, ih, frameLength, EchoSession.replyLength, Nat.succ_mul]

/- What the worker has done where it stands, with `k` answers accepted. -/
inductive Stands (w : Worker) (k : Nat) : Pc → Prop where
  | request (sent : w.sent = asked w.payload k) (received : w.received = answered w.payload k) : Stands w k .request
  | sendall {rest} (small : w.payload.length < 4294967296) (sent : w.sent ++ rest = asked w.payload (k + 1))
      (received : w.received = answered w.payload k) : Stands w k (.sendall rest)
  | header {chunks remain} (sent : w.sent = asked w.payload (k + 1))
      (received : w.received = answered w.payload k ++ chunks) (size : chunks.length + remain = 4) :
      Stands w k (.header chunks remain)
  | body {chunks remain} (sent : w.sent = asked w.payload (k + 1))
      (received : w.received = answered w.payload k ++ (hostToNetLong w.payload.length ++ chunks))
      (size : chunks.length + remain = w.payload.length) : Stands w k (.body chunks remain)
  | compare (sent : w.sent = asked w.payload (k + 1)) (received : w.received = answered w.payload (k + 1)) :
      Stands w k (.compare (reply w.payload))
  | ended (sent : w.sent = asked w.payload k) (received : w.received = answered w.payload k) (none_ : w.requests = 0) :
      Stands w k .ended
  | raised {e} (sent : w.sent <+: asked w.payload (k + 1)) (received : answered w.payload k <+: w.received)
      (large : e = .overflow → 4294967296 ≤ w.payload.length) (other : e = .mismatch → w.expected ≠ reply w.payload) :
      Stands w k (.raised e)

theorem standsBounds {w : Worker} {k : Nat} {pc : Pc} (h : Stands w k pc) :
    w.sent <+: asked w.payload (k + 1) ∧ answered w.payload k <+: w.received := by
  have more : asked w.payload k <+: asked w.payload (k + 1) := askedSucc w.payload k ▸ List.prefix_append _ _
  cases h with
  | request sent received | ended sent received => exact ⟨sent ▸ more,received ▸ List.prefix_rfl⟩
  | sendall _ sent received => exact ⟨sent ▸ List.prefix_append _ _,received ▸ List.prefix_rfl⟩
  | header sent received | body sent received => exact ⟨sent ▸ List.prefix_rfl,received ▸ List.prefix_append _ _⟩
  | compare sent received =>
    refine ⟨sent ▸ List.prefix_rfl,received ▸ ?_⟩
    rw [answeredSucc]
    exact List.prefix_append _ _
  | raised sent received => exact ⟨sent,received⟩

structure Sound (maxFrameLen total : Nat) (s : Bench) : Prop where
  stands : Stands s.worker s.worker.latencies s.worker.pc
  small : s.worker.sent ≠ [] → s.worker.payload.length < 4294967296
  total : s.worker.latencies + s.worker.pc.underWay + s.worker.requests = total
  closed : s.worker.pc = .raised .closed → closes s
  server : EchoServer.Input maxFrameLen s.server ∧ EchoServer.Output s.server
  upstream : s.server.received <+: s.worker.sent
  downstream : s.worker.received <+: s.server.connection.accepted

section Reached
variable {maxFrameLen total : Nat} {s s' : Bench}

theorem answeredMono (payload : Bytes) {j k : Nat} (below : j ≤ k) : answered payload j <+: answered payload k := by
  induction below with
  | refl => exact List.prefix_rfl
  | step _ ih => exact ih.trans (answeredSucc payload _ ▸ List.prefix_append _ _)

/- The server has decoded whole requests only, and no more than the worker has begun. -/
theorem decodedRequests (h : Sound maxFrameLen total s) :
    s.server.decoded = List.replicate s.server.decoded.length s.worker.payload ∧
    s.server.decoded.length ≤ s.worker.latencies + 1 ∧
    s.server.received <+: asked s.worker.payload (s.worker.latencies + 1) := by
  have way := h.upstream.trans (standsBounds h.stands).1
  have split : ∃ later, List.replicate (s.worker.latencies + 1) s.worker.payload = s.server.decoded ++ later := by
    by_cases none_ : s.worker.sent = []
    · have nothing := List.prefix_nil.mp (none_ ▸ h.upstream)
      have input := h.server.1.whole
      rw [nothing] at input
      have decoded := (List.append_eq_nil_iff.mp input.symm).1
      cases here : s.server.decoded with
      | nil => exact ⟨_,rfl⟩
      | cons m ms =>
        rw [here] at decoded
        cases decoded
    · have input := h.server.1.whole
      have short : ∀ m ∈ s.server.decoded, m.length < 4294967296 := by
        intro m member
        have legal := h.server.1.legal m member
        simp only [limit] at legal
        omega
      obtain ⟨later,split,_⟩ := EchoSession.takenPrefix (input ▸ way) short
        (fun m member => by rw [List.eq_of_mem_replicate member]; exact h.small none_)
      exact ⟨later,split⟩
  obtain ⟨later,split⟩ := split
  obtain ⟨size,all,_⟩ := List.append_eq_replicate_iff.mp split.symm
  exact ⟨all,by omega,way⟩

/- What the server's socket has taken are answers to what it has decoded. -/
theorem acceptedAnswers (h : Sound maxFrameLen total s) :
    s.server.connection.accepted ++ s.server.connection.pending <+: answered s.worker.payload s.server.decoded.length := by
  have whole : s.server.connection.accepted ++ s.server.connection.pending = Connection.streamOf s.server.connection :=
    h.server.2.stream.whole
  rw [whole, answered, ← (decodedRequests h).1]
  exact h.server.2.prefix_

theorem receivedAnswers (h : Sound maxFrameLen total s) {w : Worker} (fits : w.received <+: s.server.connection.accepted) :
    w.received <+: answered s.worker.payload (s.worker.latencies + 1) :=
  (fits.trans (List.prefix_append _ _)).trans
    ((acceptedAnswers h).trans (answeredMono _ (decodedRequests h).2.1))

theorem smallAsked (h : Sound maxFrameLen total s) {k : Nat} (sent : s.worker.sent = asked s.worker.payload (k + 1)) :
    s.worker.payload.length < 4294967296 := by
  refine h.small (fun none_ => ?_)
  have size := congrArg List.length (none_.symm.trans sent)
  rw [askedLength, Nat.succ_mul, List.length_nil] at size
  omega

/- The first four bytes of an answer are its length. -/
theorem headerRead (h : Sound maxFrameLen total s) {chunks : Bytes} (here : s.worker.pc = .header chunks 0) :
    chunks = hostToNetLong s.worker.payload.length ∧ netToHostLong chunks = s.worker.payload.length := by
  have stands := h.stands
  rw [here] at stands
  cases stands with
  | header sent received size =>
    have way := receivedAnswers h h.downstream
    rw [received, answeredSucc, List.prefix_append_right_inj] at way
    have head : hostToNetLong (reply s.worker.payload).length <+: frame (reply s.worker.payload) := List.prefix_append _ _
    have same : chunks = hostToNetLong s.worker.payload.length := by
      rw [← EchoSession.replyLength]
      exact (List.prefix_of_prefix_length_le way head (by rw [hostToNetLongLength]; omega)).eq_of_length
        (by rw [hostToNetLongLength]; omega)
    exact ⟨same,same ▸ netToHostLongEncoded (smallAsked h sent)⟩

/- And what follows them is the answer. -/
theorem bodyRead (h : Sound maxFrameLen total s) {chunks : Bytes} (here : s.worker.pc = .body chunks 0) :
    chunks = reply s.worker.payload ∧
      s.worker.received = answered s.worker.payload (s.worker.latencies + 1) := by
  have stands := h.stands
  rw [here] at stands
  cases stands with
  | body sent received size =>
    have way := receivedAnswers h h.downstream
    rw [received, answeredSucc, List.prefix_append_right_inj, ← EchoSession.replyLength, frame,
      List.prefix_append_right_inj] at way
    have same : chunks = reply s.worker.payload := way.eq_of_length (by rw [EchoSession.replyLength]; omega)
    refine ⟨same,?_⟩
    rw [received, answeredSucc, frame, same, EchoSession.replyLength]

theorem standsTurn (h : Sound maxFrameLen total s) {a : WorkerAction} {w : Worker} (turn : Turn s.worker a w) :
    Stands w w.latencies w.pc := by
  have stands := h.stands
  cases turn with
  | finish here none_ =>
    rw [here] at stands
    cases stands with
    | request sent received => exact .ended sent received none_
  | pack here some_ small =>
    rw [here] at stands
    cases stands with
    | request sent received =>
      refine .sendall small ?_ received
      simp only [sent, askedSucc]
  | overflow here some_ large =>
    obtain ⟨sent,received⟩ := standsBounds stands
    exact .raised sent received (fun _ => large) (fun other => nomatch other)
  | sent here =>
    rw [here] at stands
    cases stands with
    | sendall small sent received =>
      rw [List.append_nil] at sent
      exact .header sent (by simp only [received, List.append_nil]) rfl
  | header here =>
    obtain ⟨same,size⟩ := headerRead h here
    rw [here] at stands
    cases stands with
    | header sent received _ =>
      refine .body sent ?_ ?_
      · simp only [received, same, List.append_nil]
      · simp only [size, List.length_nil, Nat.zero_add]
  | body here =>
    obtain ⟨same,all⟩ := bodyRead h here
    rw [here] at stands
    cases stands with
    | body sent received _ =>
      simp only [same]
      exact .compare sent all
  | accept here =>
    rw [here] at stands
    generalize s.worker.expected = answer at stands
    cases stands with
    | compare sent received => exact .request sent received
  | reject here other =>
    obtain ⟨sent,received⟩ := standsBounds stands
    rw [here] at stands
    refine .raised sent received (fun large => nomatch large) (fun _ same => other ?_)
    cases stands with
    | compare => exact same.symm
  | @send rest n here =>
    rw [here] at stands
    cases stands with
    | sendall small sent received =>
      refine .sendall small ?_ received
      simp only [List.append_assoc, List.take_append_drop, sent]
  | recvHeader here most =>
    rw [here] at stands
    cases stands with
    | header sent received size =>
      refine .header sent (by simp only [received, List.append_assoc]) ?_
      rw [List.length_append]
      omega
  | recvBody here most =>
    rw [here] at stands
    cases stands with
    | body sent received size =>
      refine .body sent (by simp only [received, List.append_assoc]) ?_
      simp only [List.length_append]
      omega
  | closed | failed =>
    obtain ⟨sent,received⟩ := standsBounds stands
    exact .raised sent received (fun large => nomatch large) (fun other => nomatch other)

/- The bytes that a worker sends are those of a frame. -/
theorem sentTurn (h : Sound maxFrameLen total s) {a : WorkerAction} {w : Worker} (turn : Turn s.worker a w) :
    s.worker.sent <+: w.sent ∧ (w.sent ≠ [] → w.payload.length < 4294967296) := by
  have stands := h.stands
  cases turn with
  | send here =>
    rw [here] at stands
    cases stands with
    | sendall small => exact ⟨List.prefix_append _ _,fun _ => small⟩
  | _ => exact ⟨List.prefix_rfl,h.small⟩

theorem totalTurn (h : Sound maxFrameLen total s) {a : WorkerAction} {w : Worker} (turn : Turn s.worker a w) :
    w.latencies + w.pc.underWay + w.requests = total := by
  have sum := h.total
  cases turn with
  | finish here | sent here | header here | body here | accept here | reject here | send here | recvHeader here | recvBody here =>
    simp only [here, Pc.underWay] at sum ⊢
    omega
  | pack here some_ | overflow here some_ =>
    simp only [here, some_, Pc.underWay] at sum ⊢
    omega
  | closed busy | failed busy =>
    rw [busy] at sum
    exact sum

theorem soundWorker (h : Sound maxFrameLen total s) {a : WorkerAction} {w : Worker} (turn : Turn s.worker a w)
    (fits : carried s a w) : Sound maxFrameLen total { s with worker := w } := by
  obtain ⟨up,small⟩ := sentTurn h turn
  refine ⟨standsTurn h turn,small,totalTurn h turn,fun shut => ?_,h.server,h.upstream.trans up,fits.1⟩
  cases turn with
  | closed => exact (fits.2 rfl).1
  | _ => cases shut

theorem closesIff : closes s ↔ ¬ (s.server.connection.state = .connecting ∨ s.server.connection.state = .connected) := by
  unfold closes
  cases s.server.connection.state <;> simp

/- A server that has left Connected does not come back. -/
theorem serverEarly {v v' : Side} {a : EchoServer.Action} (taken : EchoServer.step maxFrameLen v a = some v')
    (early : v'.connection.state = .connecting ∨ v'.connection.state = .connected) :
    v.connection.state = .connecting ∨ v.connection.state = .connected := by
  cases EchoServer.stepCases taken with
  | connection silent busy made => exact Connection.stepEarly made early
  | @onMessage below top =>
    unfold EchoServer.onMessage at early
    split at early
    · exact early
    · exact Connection.userState (w := { v.connection with stack := below }) early
    · rename_i message left round
      rcases EchoServer.messageCallbackSends (setInput v.connection left) message with sent | ⟨_,same⟩
      · simp only [sent] at early
        exact Connection.userState (w := setInput v.connection left) early
      · simp only [same] at early
        exact early

theorem soundStep (h : Sound maxFrameLen total s) {a : Action} (taken : step maxFrameLen s a = some s') :
    Sound maxFrameLen total s' := by
  cases stepCases taken with
  | worker made fits => exact soundWorker h (turnCases made) fits
  | server made fits =>
    refine ⟨h.stands,h.small,h.total,fun shut => closesIff.mpr (fun early => ?_),EchoServer.echoStep h.server made,fits,
      h.downstream.trans (EchoSession.serverAccepted made)⟩
    exact closesIff.mp (h.closed shut) (serverEarly made early)

theorem soundConnect {payload expected : Bytes} {requests : Nat} {server : Side} (wired : EchoServer.Wired server) :
    Sound maxFrameLen requests (connect payload expected requests server) := by
  refine ⟨.request rfl rfl,fun some_ => absurd rfl some_,Nat.zero_add _,(fun shut => nomatch shut),
    EchoServer.echoWired wired,?_,List.nil_prefix⟩
  simp only [connect, wired.nothing.1]
  exact List.nil_prefix

/- All that either end wrote is read, and the server waits for more. -/
structure Quiet (s : Bench) : Prop where
  connected : s.server.connection.state = .connected
  written : s.server.connection.pending = []
  read : s.server.received = s.worker.sent ∧ s.worker.received = s.server.connection.accepted
  idle : s.server.connection.stack = []

/- When nothing is under way, all requests are answered. -/
theorem quietAnswered (h : Sound maxFrameLen total s) (quiet : Quiet s) {k : Nat}
    (legal : s.worker.payload.length ≤ limit maxFrameLen) (sent : s.worker.sent = asked s.worker.payload k) :
    s.worker.received = answered s.worker.payload k := by
  have decoded : s.server.decoded = List.replicate k s.worker.payload :=
    EchoSession.readAll h.server.1 quiet.idle (quiet.read.1.trans sent)
      (fun m member => by rw [List.eq_of_mem_replicate member]; exact legal)
  have whole : s.server.connection.accepted ++ s.server.connection.pending = Connection.streamOf s.server.connection :=
    h.server.2.stream.whole
  rw [quiet.written, List.append_nil, h.server.2.whole (.inr quiet.connected), decoded] at whole
  exact quiet.read.2.trans whole

theorem quietReceives (h : Sound maxFrameLen total s) (quiet : Quiet s) (legal : s.worker.payload.length ≤ limit maxFrameLen)
    {chunks : Bytes} {remain : Nat} (waits : s.worker.pc = .header chunks remain ∨ s.worker.pc = .body chunks remain) :
    remain = 0 := by
  have stands := h.stands
  rcases waits with here | here <;> rw [here] at stands <;> cases stands <;> rename_i sent received size
  · have all := congrArg List.length (received.symm.trans (quietAnswered h quiet legal sent))
    rw [List.length_append, answeredLength, answeredLength, Nat.succ_mul] at all
    omega
  · have all := congrArg List.length (received.symm.trans (quietAnswered h quiet legal sent))
    rw [List.length_append, answeredLength, answeredLength, Nat.succ_mul, List.length_append, hostToNetLongLength] at all
    omega

/- The server is at most one request ahead, and holds no more than one. -/
theorem turnsTaken (h : Sound maxFrameLen total s) :
    s.worker.latencies ≤ s.server.decoded.length ∧
    s.server.connection.conn.inputBuffer.readable.length ≤ 4 + s.worker.payload.length ∧
    s.server.connection.pending.length ≤ 4 + s.worker.payload.length := by
  obtain ⟨all,above,way⟩ := decodedRequests h
  have back := ((standsBounds h.stands).2.trans h.downstream).length_le
  have most := (acceptedAnswers h).length_le
  have input := way.length_le
  rw [answeredLength] at back most
  rw [List.length_append] at most
  have least : s.worker.latencies ≤ s.server.decoded.length := by
    have times : s.worker.latencies * (4 + s.worker.payload.length) ≤
        s.server.decoded.length * (4 + s.worker.payload.length) := by omega
    exact Nat.le_of_mul_le_mul_right times (by omega)
  have inside : s.server.received = asked s.worker.payload s.server.decoded.length ++
      s.server.connection.conn.inputBuffer.readable := by rw [asked, ← all]; exact h.server.1.whole
  rw [inside, List.length_append, askedLength, askedLength] at input
  have low := Nat.mul_le_mul_right (4 + s.worker.payload.length) least
  have high := Nat.mul_le_mul_right (4 + s.worker.payload.length) above
  rw [Nat.succ_mul] at input high
  exact ⟨least,by omega,by omega⟩

end Reached

/- What a benchmark can rely on. The server answers in turn, at most one request ahead, and
holds no more than one frame on its way in or out. A worker raises for a reason: a payload
with no header, the end of the stream at a server that closes, an answer that is not the
expected one, which no answer of the server's is, or what the socket raised. One that comes to its
end has all its answers; a payload over the limit has none. And while the server is Connected and
nothing is under way, the worker is not waiting for bytes. -/
structure Benched (maxFrameLen total : Nat) (s : Bench) : Prop where
  inTurn : s.server.decoded = List.replicate s.server.decoded.length s.worker.payload ∧
    s.worker.latencies ≤ s.server.decoded.length ∧ s.server.decoded.length ≤ s.worker.latencies + 1
  buffered : s.server.connection.conn.inputBuffer.readable.length ≤ 4 + s.worker.payload.length ∧
    s.server.connection.pending.length ≤ 4 + s.worker.payload.length
  failed : ∀ e, s.worker.pc = .raised e → e = .osError ∨ e = .overflow ∧ 4294967296 ≤ s.worker.payload.length ∨
    e = .closed ∧ closes s ∨ e = .mismatch ∧ s.worker.expected ≠ reply s.worker.payload
  finished : s.worker.pc = .ended → s.worker.latencies = total
  tooLong : limit maxFrameLen < s.worker.payload.length → s.worker.latencies = 0
  receives : s.worker.payload.length ≤ limit maxFrameLen → Quiet s → ∀ chunks remain,
    s.worker.pc = .header chunks remain ∨ s.worker.pc = .body chunks remain → remain = 0

theorem benchAnswered {maxFrameLen requests : Nat} {payload expected : Bytes} {server : Side} {as : List Action} {s : Bench}
    (wired : EchoServer.Wired server)
    (reached : Machine.run (step maxFrameLen) (connect payload expected requests server) as = some s) :
    Benched maxFrameLen requests s := by
  have h : Sound maxFrameLen requests s :=
    Machine.invariant (fun _ _ _ kept taken => soundStep kept taken) (soundConnect wired) reached
  obtain ⟨all,above,_⟩ := decodedRequests h
  obtain ⟨least,input,output⟩ := turnsTaken h
  refine ⟨⟨all,least,above⟩,⟨input,output⟩,fun e here => ?_,fun here => ?_,fun long => ?_,
    fun legal quiet chunks remain waits => quietReceives h quiet legal waits⟩
  · have stands := h.stands
    rw [here] at stands
    cases stands with
    | raised sent received large other =>
      cases e with
      | overflow => exact .inr (.inl ⟨rfl,large rfl⟩)
      | closed => exact .inr (.inr (.inl ⟨rfl,h.closed here⟩))
      | osError => exact .inl rfl
      | mismatch => exact .inr (.inr (.inr ⟨rfl,other rfl⟩))
  · have stands := h.stands
    have sum := h.total
    rw [here] at stands sum
    cases stands with
    | ended sent received none_ => simpa only [none_, Pc.underWay, Nat.add_zero] using sum
  · by_contra some_
    have member : s.worker.payload ∈ s.server.decoded := by
      rw [all]
      exact List.mem_replicate.mpr ⟨by omega,rfl⟩
    exact Nat.lt_irrefl _ (Nat.lt_of_lt_of_le long (h.server.1.legal _ member))

/- The checks of the benchmark and of the heartbeat are for what the server answers. -/
theorem echoExpects {payload : Bytes} (plain : payload ≠ ping) (requests : Nat) (server : Side) :
    (echo payload requests server).worker.expected = reply payload := by
  simp only [echo, connect, reply, if_neg plain]

example (server : Side) : (heartbeat server).worker.expected = reply ping := rfl

/- A heartbeat: PING is read in two pieces, and so is PONG. -/
def onePing : List Action :=
  [.server (.connection .establish),.server (.connection .ret),.worker .next,.worker (.send 8),.worker .next,
    .server (.connection (.event (.read (.ok [0,0,0,4,80])))),.server .onMessage,
    .server (.connection (.event (.read (.ok [73,78,71])))),.server .onMessage,.server (.connection .resume),
    .server .onMessage,.server (.connection (.event (.write (.ok 8)))),.worker (.recv [0,0,0,4]),.worker .next,
    .worker (.recv [80]),.worker (.recv [79,78,71]),.worker .next,.worker .next,.worker .next]

theorem benchAnsweredPing : ∃ s, Machine.run (step 4194304) (heartbeat (EchoServer.accepted 3)) onePing = some s ∧
    s.worker.latencies = 1 ∧ Benched 4194304 1 s := by
  have ends : (Machine.run (step 4194304) (heartbeat (EchoServer.accepted 3)) onePing).map (fun s => s.worker.pc) =
      some .ended := by decide +kernel
  obtain ⟨s,run,ended⟩ := Option.map_eq_some_iff.mp ends
  have benched := benchAnswered (EchoServer.acceptedWired 3) run
  exact ⟨s,run,benched.finished ended,benched⟩

end EchoBench
end TcFrame
