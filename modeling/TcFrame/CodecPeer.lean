import TcFrame.ConnectionSilent
import TcFrame.LengthFieldCodec

/-! Two ends with one codec. On this end every message goes through the codec's Send, from
any thread and in any run of the connection; the other end cuts the stream into any chunks
and decodes them. Send frames whatever it is given, OnMessage takes frames up to its limit. -/
namespace TcFrame.CodecPeer
open LengthFieldCodec

/- Send of the codec on a connection. Its own test of the state comes before the one of the
connection's Send, with nothing in between. -/
inductive Action where
  | send (t : ThreadId) (message : Bytes)
  | other (a : Connection.Action)
  deriving DecidableEq, Repr

def step (w : Connection.World) : Action → Option Connection.World
  | .send t message =>
    if w.conn.isConnected then Connection.step w (Connection.callBy t (.send (framed message))) else some w
  | .other a => if Connection.sends a then none else Connection.step w a

/- The messages of which Send has transmitted bytes, or will when the socket takes them. -/
def transmitted (w : Connection.World) : List Bytes := w.passed.map (fun m => m.data.drop 4)

structure Framing (w : Connection.World) : Prop where
  ordered : Connection.Ordered w
  stream : Connection.Stream w.ep (Connection.streamOf w)
  framed_ : ∀ m ∈ w.sent, ∃ message, m.data = framed message

theorem framedStep {w w' : Connection.World} {a : Action} (h : Framing w) (taken : step w a = some w') : Framing w' := by
  cases a with
  | send t message =>
    simp only [step] at taken
    split at taken
    · refine ⟨Connection.orderedStep h.ordered taken,Connection.streamStep h.stream taken,fun m member => ?_⟩
      rw [Connection.sentBy taken] at member
      rcases List.mem_append.mp member with old | new
      · exact h.framed_ m old
      · exact ⟨message,by rw [List.mem_singleton.mp new]⟩
    · cases taken
      exact h
  | other a =>
    simp only [step] at taken
    split at taken
    · cases taken
    · rename_i silent
      refine ⟨Connection.orderedStep h.ordered taken,Connection.streamStep h.stream taken,?_⟩
      rw [(Connection.silentLogs taken (Bool.eq_false_iff.mpr silent)).1]
      exact h.framed_

theorem framedInitial {w : Connection.World} (h : Connection.Initial w) : Framing w :=
  ⟨Connection.orderedInitial h,Connection.streamInitial h,by simp [h.logs.1]⟩

/- What passed is among what was sent. -/
theorem passedSent {w : Connection.World} (h : Connection.Ordered w) {m : Message} (passed : m ∈ w.passed) :
    m ∈ w.sent := by
  have listed : m ∈ Connection.fromSender m.sender
      (w.passed ++ Connection.messages w.queue ++ Connection.flying w m.sender) := by
    simp [Connection.fromSender, passed]
  exact List.mem_of_mem_filter ((h.order m.sender).mem listed)

/- The stream of the connection is the frames of the transmitted messages. -/
theorem streamFrames {w : Connection.World} (h : Framing w) :
    w.accepted ++ w.pending = (transmitted w).flatMap frame := by
  have whole : w.accepted ++ w.pending = Connection.streamOf w := h.stream.whole
  rw [whole, Connection.streamOf, transmitted, List.flatMap_def, List.map_map]
  congr 1
  refine List.map_congr_left (fun m passed => ?_)
  obtain ⟨message,data⟩ := h.framed_ m (passedSent h.ordered passed)
  have payload : m.data.drop 4 = message := by rw [data]; rfl
  rw [Function.comp_apply, payload, data, framedFrame]

/- The other end delivers what was framed, and stays open, exactly when every message is
within its limit. -/
theorem peerExact {maxFrameLen initialSize : Nat} {messages chunks : List Bytes}
    (way : chunks.flatten = messages.flatMap frame) :
    ((receiveAll maxFrameLen initialSize chunks).messages = messages ∧
      (receiveAll maxFrameLen initialSize chunks).forceClose = false) ↔
        ∀ m ∈ messages, m.length ≤ limit maxFrameLen := by
  have received := receivedAll maxFrameLen initialSize chunks
  constructor
  · rintro ⟨all,_⟩
    have decodes := (framing maxFrameLen).decodesDrain chunks.flatten
    rw [received.drained] at decodes
    rw [← all]
    exact (framedDecodes.mpr decodes).legal
  · intro legal
    have framed_ : Framed maxFrameLen chunks.flatten messages [] :=
      ⟨by rw [way, List.append_nil],legal,.inl (by decide)⟩
    have same := (framedUnique framed_).symm.trans received.drained
    refine ⟨(congrArg Prod.fst same).symm,Bool.eq_false_iff.mpr (fun closed => ?_)⟩
    have illegal := received.closed.mp closed
    have rest : (receiveAll maxFrameLen initialSize chunks).buffer.readable = [] := (congrArg Prod.snd same).symm
    rw [rest] at illegal
    exact absurd illegal.1 (by decide)

/- In every run, and however the stream is cut: the peer delivers exactly the transmitted
messages and does not close the connection, if and only if each is within the limit. -/
theorem peerDelivers {maxFrameLen initialSize : Nat} {s w : Connection.World} {as : List Action} {chunks : List Bytes}
    (start : Connection.Initial s) (reached : Machine.run step s as = some w)
    (way : chunks.flatten = w.accepted ++ w.pending) :
    ((receiveAll maxFrameLen initialSize chunks).messages = transmitted w ∧
      (receiveAll maxFrameLen initialSize chunks).forceClose = false) ↔
        ∀ m ∈ transmitted w, m.length ≤ limit maxFrameLen := by
  have framing := Machine.invariant (fun _ _ _ h taken => framedStep h taken) (framedInitial start) reached
  exact peerExact (way.trans (streamFrames framing))

/- Two threads send, one byte leaves, and the peer reads the rest in two pieces. -/
def sendsBoth : List Action :=
  [.other .establish,.other .ret,.send 1 [7,8],.send 0 [],.other .resume,.other (.push 1),.other .runQueued,
    .other .resume,.other (.event (.write (.ok 1)))]

theorem peerDeliversBoth : ∃ w, Machine.run step (Connection.fresh 3 ⟨true,true,false,true,false⟩ 64 4) sendsBoth = some w ∧
    transmitted w = [[],[7,8]] ∧ (receiveAll 2 8 [[0,0,0,0,0,0],[0,2,7,8]]).messages = [[],[7,8]] := by
  have reached : ∃ w, Machine.run step (Connection.fresh 3 ⟨true,true,false,true,false⟩ 64 4) sendsBoth = some w ∧
      transmitted w = [[],[7,8]] ∧ [[0,0,0,0,0,0],[0,2,7,8]].flatten = w.accepted ++ w.pending := ⟨_,rfl,rfl,rfl⟩
  obtain ⟨w,run,both,way⟩ := reached
  have delivers := (@peerDelivers 2 8 _ _ _ _ (Connection.freshInitial _ _ _ _) run way).mpr
  rw [both] at delivers
  exact ⟨w,run,both,(delivers (by decide)).1⟩

/- A message of three bytes over a codec whose limit is two: Send transmits it, and the peer
closes the connection. -/
def sendsLong : List Action := [.other .establish,.other .ret,.send 0 [7,8,9],.other .resume]

theorem peerRefuses : ¬ ∀ (maxFrameLen initialSize : Nat) (s w : Connection.World) (as : List Action) (chunks : List Bytes),
    Connection.Initial s → Machine.run step s as = some w → chunks.flatten = w.accepted ++ w.pending →
      (receiveAll maxFrameLen initialSize chunks).messages = transmitted w ∧
        (receiveAll maxFrameLen initialSize chunks).forceClose = false := by
  intro every
  have reached : ∃ w, Machine.run step (Connection.fresh 3 ⟨true,true,false,true,false⟩ 64 4) sendsLong = some w ∧
      transmitted w = [[7,8,9]] ∧ [[0,0,0,3,7,8,9]].flatten = w.accepted ++ w.pending := ⟨_,rfl,rfl,rfl⟩
  obtain ⟨w,run,long,way⟩ := reached
  have delivered := every 2 8 _ w _ [[0,0,0,3,7,8,9]] (Connection.freshInitial _ _ _ _) run way
  rw [long] at delivered
  have legal := (@peerExact 2 8 [[7,8,9]] _ rfl).mp delivered
  exact absurd legal (by decide)

end TcFrame.CodecPeer
