import TcFrame.Buffer
import TcFrame.Incremental
import Mathlib.Tactic.Common

/-! The length-prefixed codec: four bytes of length in network order, then the
payload. `onMessage` is the loop of the source over the two-index buffer; the
framing it computes is an instance of incremental decoding. -/
namespace TcFrame

/- htonl and ntohl as bytes on the wire. -/
def hostToNetLong (x : Nat) : Bytes :=
  [UInt8.ofNat (x / 16777216),UInt8.ofNat (x / 65536),UInt8.ofNat (x / 256),UInt8.ofNat x]

def netToHostLong (bs : Bytes) : Nat := bs.foldl (fun acc b => acc * 256 + b.toNat) 0

/- static_cast<int32_t> of an unsigned 32-bit value. -/
def toInt32 (x : Nat) : Int := if x < 2147483648 then x else (x : Int) - 4294967296

def Buffer.peekInt32 (b : Buffer) : Int := toInt32 (netToHostLong ((b.buf.drop b.readIdx).take 4))

namespace LengthFieldCodec

/- What one call of OnMessage did: the messages handed to the callback, whether it
called ForceClose, and the buffer it left. -/
structure Outcome where
  messages : List Bytes
  forceClose : Bool
  buffer : Buffer
  deriving DecidableEq, Repr

theorem takenShorter {buffer : Buffer} (more : 4 ≤ buffer.readableBytes) (len : Nat) :
    ((buffer.retrieve 4).retrieveAsString len).2.readableBytes < buffer.readableBytes := by
  simp only [Buffer.readableBytes] at more
  simp only [Buffer.retrieveAsString, Buffer.retrieve, Buffer.readableBytes]
  omega

def onMessage (maxFrameLen : Nat) (buffer : Buffer) : Outcome :=
  if more : 4 ≤ buffer.readableBytes then
    let payloadLen := buffer.peekInt32
    if payloadLen < 0 ∨ maxFrameLen < payloadLen.toNat then ⟨[],true,buffer⟩
    else
      let frameLen := 4 + payloadLen.toNat
      if buffer.readableBytes < frameLen then ⟨[],false,buffer⟩
      else
        let taken := (buffer.retrieve 4).retrieveAsString payloadLen.toNat
        have : taken.2.readableBytes < buffer.readableBytes := takenShorter more payloadLen.toNat
        let rest := onMessage maxFrameLen taken.2
        ⟨taken.1 :: rest.messages,rest.forceClose,rest.buffer⟩
  else ⟨[],false,buffer⟩
termination_by buffer.readableBytes

/- One round of the loop: it returns, calls ForceClose, or takes a message off the front. -/
inductive Round where
  | returns
  | refuses
  | delivers (message : Bytes) (left : Buffer)
  deriving DecidableEq, Repr

def nextRound (maxFrameLen : Nat) (buffer : Buffer) : Round :=
  if 4 ≤ buffer.readableBytes then
    let payloadLen := buffer.peekInt32
    if payloadLen < 0 ∨ maxFrameLen < payloadLen.toNat then .refuses
    else if buffer.readableBytes < 4 + payloadLen.toNat then .returns
    else
      let taken := (buffer.retrieve 4).retrieveAsString payloadLen.toNat
      .delivers taken.1 taken.2
  else .returns

theorem onMessageRound (maxFrameLen : Nat) (b : Buffer) :
    onMessage maxFrameLen b =
      match nextRound maxFrameLen b with
      | .returns => ⟨[],false,b⟩
      | .refuses => ⟨[],true,b⟩
      | .delivers message left =>
        let rest := onMessage maxFrameLen left
        ⟨message :: rest.messages,rest.forceClose,rest.buffer⟩ := by
  rw [onMessage, nextRound]
  by_cases header : 4 ≤ b.readableBytes
  · simp only [dif_pos header, if_pos header]
    by_cases illegal : b.peekInt32 < 0 ∨ maxFrameLen < b.peekInt32.toNat
    · simp only [if_pos illegal]
    · simp only [if_neg illegal]
      split <;> rfl
  · simp only [dif_neg header, if_neg header]

/- The framed message that Send builds, static_cast<uint32_t> of the size in front. -/
def framed (message : Bytes) : Bytes := hostToNetLong (message.length % 4294967296) ++ message

/- "PING", "PONG" and the frame that HandleHeartbeat builds by itself. -/
def ping : Bytes := [80,73,78,71]
def pong : Bytes := [80,79,78,71]
def pongFrame : Bytes := hostToNetLong 4 ++ pong

/- The specification of the wire format. -/
def frame (message : Bytes) : Bytes := hostToNetLong message.length ++ message

def announced (bs : Bytes) : Nat := netToHostLong (bs.take 4)

def limit (maxFrameLen : Nat) : Nat := min maxFrameLen 2147483647

def IllegalHeader (maxFrameLen : Nat) (bs : Bytes) : Prop :=
  4 ≤ bs.length ∧ limit maxFrameLen < announced bs

instance (maxFrameLen : Nat) (bs : Bytes) : Decidable (IllegalHeader maxFrameLen bs) := by
  unfold IllegalHeader; infer_instance

/- A stream cut into frames: complete legal frames, then a rest that is shorter than
the frame its header announces, or than a header, or begins with an illegal one. -/
structure Framed (maxFrameLen : Nat) (stream : Bytes) (messages : List Bytes) (rest : Bytes) : Prop where
  split : stream = messages.flatMap frame ++ rest
  legal : ∀ m ∈ messages, m.length ≤ limit maxFrameLen
  stops : rest.length < 4 ∨ rest.length < 4 + announced rest ∨ IllegalHeader maxFrameLen rest

def next (maxFrameLen : Nat) (bs : Bytes) : Option (Bytes × Bytes) :=
  if 4 ≤ bs.length ∧ announced bs ≤ limit maxFrameLen ∧ 4 + announced bs ≤ bs.length then
    some ((bs.drop 4).take (announced bs),bs.drop (4 + announced bs))
  else none

end LengthFieldCodec

theorem hostToNetLongLength (x : Nat) : (hostToNetLong x).length = 4 := rfl

theorem netToHostLongEncoded {x : Nat} (small : x < 4294967296) :
    netToHostLong (hostToNetLong x) = x := by
  simp only [netToHostLong, hostToNetLong, List.foldl, UInt8.toNat_ofNat']
  omega

theorem netToHostLongBound {bs : Bytes} (four : bs.length = 4) : netToHostLong bs < 4294967296 := by
  match bs, four with
  | [a,b,c,d], _ =>
    have := a.toNat_lt; have := b.toNat_lt; have := c.toNat_lt; have := d.toNat_lt
    simp only [netToHostLong, List.foldl]
    omega

theorem hostToNetLongDecoded {bs : Bytes} (four : bs.length = 4) :
    hostToNetLong (netToHostLong bs) = bs := by
  match bs, four with
  | [a,b,c,d], _ =>
    have := a.toNat_lt; have := b.toNat_lt; have := c.toNat_lt; have := d.toNat_lt
    simp only [netToHostLong, hostToNetLong, List.foldl, List.cons.injEq, and_true]
    refine ⟨?_,?_,?_,?_⟩ <;> apply UInt8.toNat_inj.mp <;> rw [UInt8.toNat_ofNat'] <;> omega

theorem toInt32Legal {x : Nat} (word : x < 4294967296) (maxFrameLen : Nat) :
    (toInt32 x < 0 ∨ maxFrameLen < (toInt32 x).toNat) ↔ LengthFieldCodec.limit maxFrameLen < x := by
  simp only [toInt32, LengthFieldCodec.limit]
  split <;> omega

theorem toInt32Small {x : Nat} (small : x ≤ 2147483647) : (toInt32 x).toNat = x := by
  simp only [toInt32]
  split <;> omega

namespace LengthFieldCodec

theorem frameLength (m : Bytes) : (frame m).length = 4 + m.length := by
  simp [frame, hostToNetLongLength]

/- Both pieces of code that build frames build the frame of the format. -/
theorem framedFrame (m : Bytes) : framed m = frame m := by
  have byte : ∀ x y : Nat, x % 256 = y % 256 → UInt8.ofNat x = UInt8.ofNat y := fun x y same =>
    UInt8.toNat_inj.mp (by rw [UInt8.toNat_ofNat', UInt8.toNat_ofNat']; exact same)
  have digits : hostToNetLong (m.length % 4294967296) = hostToNetLong m.length := by
    simp only [hostToNetLong, List.cons.injEq, and_true]
    refine ⟨?_,?_,?_,?_⟩ <;> apply byte <;> omega
  rw [framed, frame, digits]

theorem pongFramed : pongFrame = frame pong := rfl

theorem announcedBound {bs : Bytes} (header : 4 ≤ bs.length) : announced bs < 4294967296 :=
  netToHostLongBound (by simp [header])

theorem announcedFrame {m : Bytes} (small : m.length ≤ 2147483647) (rest : Bytes) :
    announced (frame m ++ rest) = m.length := by
  have take : (frame m ++ rest).take 4 = hostToNetLong m.length := by
    rw [frame, List.append_assoc, ← hostToNetLongLength m.length, List.take_left]
  rw [announced, take, netToHostLongEncoded (by omega)]

theorem announcedStable {bs : Bytes} (header : 4 ≤ bs.length) (more : Bytes) :
    announced (bs ++ more) = announced bs := by
  rw [announced, announced, List.take_append_of_le_length header]

/- One item of the decoder is exactly one legal frame at the front. -/
theorem nextExact {maxFrameLen : Nat} {bs m rest : Bytes} :
    next maxFrameLen bs = some (m,rest) ↔ bs = frame m ++ rest ∧ m.length ≤ limit maxFrameLen := by
  constructor
  · intro h
    simp only [next] at h
    split at h
    · rename_i ok
      obtain ⟨header,legal,whole⟩ := ok
      cases Option.some.inj h
      have len : ((bs.drop 4).take (announced bs)).length = announced bs := by
        simp only [List.length_take, List.length_drop]; omega
      refine ⟨?_,by rw [len]; exact legal⟩
      rw [frame, len, announced, hostToNetLongDecoded (by simp [header]), List.append_assoc,
        ← List.drop_drop, List.take_append_drop, List.take_append_drop]
    · cases h
  · rintro ⟨rfl,legal⟩
    have small : m.length ≤ 2147483647 := Nat.le_trans legal (Nat.min_le_right _ _)
    have size := frameLength m
    have head := announcedFrame small rest
    have front : (frame m ++ rest).drop 4 = m ++ rest := by
      rw [frame, List.append_assoc, ← hostToNetLongLength m.length, List.drop_left]
    rw [next, if_pos ⟨by simp [size]; omega,by rw [head]; exact legal,by simp [size, head]⟩, head, front,
      ← List.drop_drop, front, List.take_left, List.drop_left]

theorem nextNone {maxFrameLen : Nat} {bs : Bytes} :
    next maxFrameLen bs = none ↔
      bs.length < 4 ∨ bs.length < 4 + announced bs ∨ IllegalHeader maxFrameLen bs := by
  simp only [next, IllegalHeader]
  split <;> simp <;> omega

def framing (maxFrameLen : Nat) : Incremental UInt8 Bytes where
  next := next maxFrameLen
  shorter := by
    intro bs m rest h
    obtain ⟨rfl,_⟩ := nextExact.mp h
    simp only [List.length_append, frameLength]
    omega
  stable := by
    intro bs m rest more h
    obtain ⟨rfl,legal⟩ := nextExact.mp h
    exact nextExact.mpr ⟨by rw [List.append_assoc],legal⟩

theorem framedDecodes {maxFrameLen : Nat} {stream rest : Bytes} {messages : List Bytes} :
    Framed maxFrameLen stream messages rest ↔ (framing maxFrameLen).Decodes stream messages rest := by
  constructor
  · rintro ⟨rfl,legal,stops⟩
    induction messages with
    | nil => exact .stop (nextNone.mpr stops)
    | cons m ms ih =>
      have item : next maxFrameLen ((m :: ms).flatMap frame ++ rest) =
          some (m,ms.flatMap frame ++ rest) :=
        nextExact.mpr ⟨by simp [List.append_assoc],legal m List.mem_cons_self⟩
      exact .item item (ih (fun x hx => legal x (List.mem_cons_of_mem _ hx)))
  · intro h
    induction h with
    | stop h => exact ⟨rfl,by simp,nextNone.mp h⟩
    | item h tail ih =>
      obtain ⟨rfl,legal⟩ := nextExact.mp h
      refine ⟨by simp [ih.split],?_,ih.stops⟩
      intro x hx
      rcases List.mem_cons.mp hx with rfl | hx
      · exact legal
      · exact ih.legal x hx

theorem framedUnique {maxFrameLen : Nat} {stream rest : Bytes} {messages : List Bytes}
    (h : Framed maxFrameLen stream messages rest) :
    (framing maxFrameLen).drain stream = (messages,rest) :=
  (framing maxFrameLen).decodesUnique (framedDecodes.mp h)

theorem illegalStable {maxFrameLen : Nat} {bs : Bytes} (more : Bytes)
    (h : IllegalHeader maxFrameLen bs) : IllegalHeader maxFrameLen (bs ++ more) :=
  ⟨by simp; have := h.1; omega,by rw [announcedStable h.1]; exact h.2⟩

theorem illegalDrain {maxFrameLen : Nat} {bs : Bytes} (h : IllegalHeader maxFrameLen bs) :
    (framing maxFrameLen).drain bs = ([],bs) :=
  (framing maxFrameLen).drainNone (nextNone.mpr (.inr (.inr h)))

/- The header OnMessage peeks at is the announced length of the readable bytes. -/
theorem peekInt32Announced {b : Buffer} (header : 4 ≤ b.readableBytes) :
    b.peekInt32 = toInt32 (announced b.readable) := by
  rw [Buffer.peekInt32, Buffer.peekTake header, announced]

/- What a round does to the readable bytes. -/
inductive RoundOf (maxFrameLen : Nat) (b : Buffer) : Round → Prop where
  | returns (stops : next maxFrameLen b.readable = none) (legal : ¬ IllegalHeader maxFrameLen b.readable) :
      RoundOf maxFrameLen b .returns
  | refuses (illegal : IllegalHeader maxFrameLen b.readable) : RoundOf maxFrameLen b .refuses
  | delivers {message left} (valid : left.Valid) (item : next maxFrameLen b.readable = some (message,left.readable)) :
      RoundOf maxFrameLen b (.delivers message left)

theorem roundCases (maxFrameLen : Nat) {b : Buffer} (valid : b.Valid) : RoundOf maxFrameLen b (nextRound maxFrameLen b) := by
  have len := Buffer.readableLength valid
  rw [nextRound]
  by_cases header : 4 ≤ b.readableBytes
  · have word : announced b.readable < 4294967296 := announcedBound (by omega)
    simp only [if_pos header, peekInt32Announced header, toInt32Legal word maxFrameLen]
    by_cases illegal : limit maxFrameLen < announced b.readable
    · simp only [if_pos illegal]
      exact .refuses ⟨by omega,illegal⟩
    · have small : announced b.readable ≤ 2147483647 := by
        simp only [limit] at illegal; omega
      simp only [if_neg illegal, toInt32Small small]
      by_cases short : b.readableBytes < 4 + announced b.readable
      · simp only [if_pos short]
        exact .returns (nextNone.mpr (.inr (.inl (by omega)))) (fun h => illegal h.2)
      · have room : announced b.readable ≤ (b.retrieve 4).readableBytes := by
          simp only [Buffer.readableBytes, Buffer.retrieve] at *; omega
        have validHead := Buffer.retrieveValid valid header
        simp only [if_neg short, Buffer.retrieveAsStringReadable room]
        refine .delivers (Buffer.retrieveValid validHead room) ?_
        rw [Buffer.retrieveReadable (b.retrieve 4), Buffer.retrieveReadable b, List.drop_drop]
        exact if_pos ⟨by omega,by omega,by omega⟩
  · simp only [if_neg header]
    exact .returns (nextNone.mpr (.inl (by omega))) (fun h => header (len ▸ h.1))

/- One call of OnMessage drains the readable bytes; it calls ForceClose exactly when
it stopped at an illegal header. -/
theorem onMessageDrains (maxFrameLen : Nat) {b : Buffer} (valid : b.Valid) :
    let out := onMessage maxFrameLen b
    out.buffer.Valid ∧
    (framing maxFrameLen).drain b.readable = (out.messages,out.buffer.readable) ∧
    (out.forceClose = true ↔ IllegalHeader maxFrameLen out.buffer.readable) := by
  induction size : b.readable.length using Nat.strongRecOn generalizing b with
  | _ n ih =>
    have taken := roundCases maxFrameLen valid
    rw [onMessageRound]
    generalize nextRound maxFrameLen b = r at taken
    cases taken with
    | returns stops legal => exact ⟨valid,(framing maxFrameLen).drainNone stops,by simp [legal]⟩
    | refuses illegal => exact ⟨valid,illegalDrain illegal,by simp [illegal]⟩
    | delivers validLeft item =>
      obtain ⟨v,d,f⟩ := ih _ (size ▸ (framing maxFrameLen).shorter item) validLeft rfl
      refine ⟨v,?_,f⟩
      rw [(framing maxFrameLen).drainSome item, d]

/- A chunk arrives: it is appended to the buffer and OnMessage is called. The record
collects what all the calls did. -/
def receive (maxFrameLen : Nat) (st : Outcome) (chunk : Bytes) : Outcome :=
  let out := onMessage maxFrameLen (st.buffer.append chunk)
  ⟨st.messages ++ out.messages,st.forceClose || out.forceClose,out.buffer⟩

def receiveAll (maxFrameLen initialSize : Nat) (chunks : List Bytes) : Outcome :=
  chunks.foldl (receive maxFrameLen) ⟨[],false,Buffer.new initialSize⟩

structure Received (maxFrameLen : Nat) (stream : Bytes) (st : Outcome) : Prop where
  valid : st.buffer.Valid
  drained : (framing maxFrameLen).drain stream = (st.messages,st.buffer.readable)
  closed : st.forceClose = true ↔ IllegalHeader maxFrameLen st.buffer.readable

theorem receiveStep {maxFrameLen : Nat} {stream : Bytes} {st : Outcome}
    (h : Received maxFrameLen stream st) (chunk : Bytes) :
    Received maxFrameLen (stream ++ chunk) (receive maxFrameLen st chunk) := by
  obtain ⟨v,d,f⟩ := onMessageDrains maxFrameLen (Buffer.appendValid h.valid chunk)
  rw [Buffer.appendReadable h.valid] at d
  refine ⟨v,?_,?_⟩
  · rw [(framing maxFrameLen).drainAppend, h.drained, d]; rfl
  · simp only [receive, Bool.or_eq_true, f, h.closed]
    constructor
    · rintro (old | new)
      · have same := illegalDrain (illegalStable chunk old)
        have rest : st.buffer.readable ++ chunk =
            (onMessage maxFrameLen (st.buffer.append chunk)).buffer.readable :=
          congrArg Prod.snd (same.symm.trans d)
        rw [← rest]
        exact illegalStable chunk old
      · exact new
    · exact .inr

theorem receivedAll (maxFrameLen initialSize : Nat) (chunks : List Bytes) :
    Received maxFrameLen chunks.flatten (receiveAll maxFrameLen initialSize chunks) := by
  suffices ∀ stream st, Received maxFrameLen stream st →
      Received maxFrameLen (stream ++ chunks.flatten) (chunks.foldl (receive maxFrameLen) st) by
    have stop : next maxFrameLen [] = none := nextNone.mpr (.inl (by decide))
    have start : Received maxFrameLen [] ⟨[],false,Buffer.new initialSize⟩ :=
      ⟨Buffer.newValid _,by rw [Buffer.newReadable]; exact (framing maxFrameLen).drainNone stop,
        by simp [IllegalHeader]⟩
    exact this [] _ start
  induction chunks with
  | nil => intro stream st h; simpa using h
  | cons chunk rest ih =>
    intro stream st h
    have next := ih (stream ++ chunk) _ (receiveStep h chunk)
    simpa only [List.flatten_cons, List.append_assoc, List.foldl_cons] using next

/- However the stream is cut: the messages delivered and the bytes left readable are
the only framing of what was seen, and ForceClose is called (over the whole run, and
by any further call) exactly when the rest begins with an illegal header. -/
theorem deliversExactly (maxFrameLen initialSize : Nat) (chunks : List Bytes) :
    let out := receiveAll maxFrameLen initialSize chunks
    (∀ messages rest, Framed maxFrameLen chunks.flatten messages rest ↔
      messages = out.messages ∧ rest = out.buffer.readable) ∧
    (out.forceClose = true ↔ IllegalHeader maxFrameLen out.buffer.readable) ∧
    (∀ chunk, let call := onMessage maxFrameLen (out.buffer.append chunk)
      call.forceClose = true ↔ IllegalHeader maxFrameLen call.buffer.readable) := by
  have h := receivedAll maxFrameLen initialSize chunks
  refine ⟨?_,h.closed,?_⟩
  · intro messages rest
    constructor
    · intro framed
      have same := (framedUnique framed).symm.trans h.drained
      exact ⟨congrArg Prod.fst same,congrArg Prod.snd same⟩
    · rintro ⟨rfl,rfl⟩
      have decodes := (framing maxFrameLen).decodesDrain chunks.flatten
      rw [h.drained] at decodes
      exact framedDecodes.mpr decodes
  · intro chunk
    exact (onMessageDrains maxFrameLen (Buffer.appendValid h.valid chunk)).2.2

end LengthFieldCodec
end TcFrame
