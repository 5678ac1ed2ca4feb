import TcFrame.BufferCapacity

/-! The memory of an input buffer that OnMessage reads from. A read may take what is
writable and, when that is less than the 64 KiB of the stack buffer, as much again as that
holds; MakeSpace moves the readable bytes to the front or grows the vector. -/
namespace TcFrame.CodecMemory
open LengthFieldCodec

/- sizeof(extrabuf) -/
def extraSize : Nat := 65536

/- What one readv may return at most. -/
def capacity (b : Buffer) : Nat :=
  if b.writableBytes < extraSize then b.writableBytes + extraSize else b.writableBytes

/- The input side of a connection between two reads: `refused` says that OnMessage has
called ForceClose. -/
structure Reader where
  buffer : Buffer
  refused : Bool
  deriving DecidableEq, Repr

/- HandleRead with a successful readv, and OnMessage. Behind ForceClose the connection is
Disconnected and watches for no input, so it is not read from any more. -/
def step (maxFrameLen : Nat) (r : Reader) (received : Bytes) : Option Reader :=
  if r.refused = false ∧ received.length ≤ capacity r.buffer then
    let out := onMessage maxFrameLen (r.buffer.readFromFd received)
    some ⟨out.buffer,out.forceClose⟩
  else none

/- A read that grows the vector finds less than three times the stack buffer besides the
readable bytes: what was read, what was writable, and what came into the stack buffer. -/
theorem readSize {b : Buffer} (h : b.Valid) {received : Bytes} (fits : received.length ≤ capacity b) :
    (b.readFromFd received).buf.length = b.buf.length ∨
      (b.readFromFd received).buf.length ≤ b.readableBytes + 3 * extraSize := by
  obtain ⟨valid,readable⟩ := Buffer.readFromFdKeeps h received
  have size := Buffer.readableLength valid
  rw [readable, List.length_append, Buffer.readableLength h] at size
  have inside : (b.readFromFd received).readableBytes ≤ (b.readFromFd received).buf.length :=
    Nat.le_trans (Nat.sub_le _ _) valid.inside
  refine (Buffer.readGrows h received).imp id (fun grown => ?_)
  unfold capacity at fits
  split at fits <;> omega

theorem roundSize {maxFrameLen : Nat} {b left : Buffer} {message : Bytes}
    (taken : nextRound maxFrameLen b = .delivers message left) : left.buf = b.buf := by
  unfold nextRound at taken
  split at taken
  · simp only at taken
    split at taken
    · cases taken
    · split at taken <;> cases taken
      rfl
  · cases taken

theorem onMessageSize (maxFrameLen : Nat) {b : Buffer} (valid : b.Valid) :
    (onMessage maxFrameLen b).buffer.buf.length = b.buf.length := by
  induction size : b.readable.length using Nat.strongRecOn generalizing b with
  | _ n ih =>
    have spec := roundCases maxFrameLen valid
    rw [onMessageRound]
    cases taken : nextRound maxFrameLen b with
    | returns => rfl
    | refuses => rfl
    | delivers message left =>
      rw [taken] at spec
      cases spec with
      | delivers validLeft item =>
        exact (ih _ (size ▸ (framing maxFrameLen).shorter item) validLeft rfl).trans (by rw [roundSize taken])

/- Bytes that OnMessage leaves lying, without calling ForceClose, lack at least one of a
legal frame. -/
theorem leftShort {maxFrameLen : Nat} {bs : Bytes} (stops : next maxFrameLen bs = none)
    (legal : ¬ IllegalHeader maxFrameLen bs) : bs.length ≤ limit maxFrameLen + 3 := by
  rcases nextNone.mp stops with short | short | illegal
  · omega
  · by_cases header : 4 ≤ bs.length
    · have announces : announced bs ≤ limit maxFrameLen := Nat.not_lt.mp (fun over_ => legal ⟨header,over_⟩)
      omega
    · omega
  · exact absurd illegal legal

structure Bounded (maxFrameLen initialSize : Nat) (r : Reader) : Prop where
  valid : r.buffer.Valid
  left : r.refused = false → r.buffer.readableBytes ≤ limit maxFrameLen + 3
  size : r.buffer.buf.length ≤ max initialSize (limit maxFrameLen + 3 + 3 * extraSize)

theorem boundedStep {maxFrameLen initialSize : Nat} {r r' : Reader} {received : Bytes}
    (h : Bounded maxFrameLen initialSize r) (taken : step maxFrameLen r received = some r') :
    Bounded maxFrameLen initialSize r' := by
  simp only [step] at taken
  split at taken <;> cases taken
  rename_i reads
  obtain ⟨open_,fits⟩ := reads
  have valid := (Buffer.readFromFdKeeps h.valid received).1
  obtain ⟨valid',drained,closed⟩ := onMessageDrains maxFrameLen valid
  refine ⟨valid',fun fine => ?_,?_⟩
  · have decodes := (framing maxFrameLen).decodesDrain (r.buffer.readFromFd received).readable
    rw [drained] at decodes
    have framed_ := framedDecodes.mpr decodes
    have legal : ¬ IllegalHeader maxFrameLen (onMessage maxFrameLen (r.buffer.readFromFd received)).buffer.readable := by
      rw [← closed, Bool.not_eq_true]
      exact fine
    rw [← Buffer.readableLength valid']
    exact leftShort (nextNone.mpr framed_.stops) legal
  · have before := h.size
    have left := h.left open_
    simp only [onMessageSize maxFrameLen valid]
    rcases readSize h.valid fits with same | bound <;> omega

/- However a peer's bytes come in: behind each OnMessage that has not called ForceClose at
most three bytes more than the limit are readable, and the vector stays within its bound. -/
theorem inputBounded {maxFrameLen initialSize : Nat} {chunks : List Bytes} {r : Reader}
    (reached : Machine.run (step maxFrameLen) ⟨Buffer.new initialSize,false⟩ chunks = some r) :
    (r.refused = false → r.buffer.readableBytes ≤ limit maxFrameLen + 3) ∧
      r.buffer.buf.length ≤ max initialSize (limit maxFrameLen + 3 + 3 * extraSize) := by
  have start : Bounded maxFrameLen initialSize ⟨Buffer.new initialSize,false⟩ :=
    ⟨Buffer.newValid _,fun _ => Nat.zero_le _,
      by simp only [Buffer.new, List.length_replicate]; exact Nat.le_max_left _ _⟩
  have bounded := Machine.invariant (fun _ _ _ h taken => boundedStep h taken) start reached
  exact ⟨bounded.left,bounded.size⟩

theorem stepReturns {maxFrameLen : Nat} {b : Buffer} {received : Bytes} (fits : received.length ≤ capacity b)
    (stops : nextRound maxFrameLen (b.readFromFd received) = .returns) :
    step maxFrameLen ⟨b,false⟩ received = some ⟨b.readFromFd received,false⟩ := by
  simp only [step, onMessageRound, stops]
  exact if_pos ⟨trivial,fits⟩

/- A frame of two bytes, the limit, but for its last byte: the first bound is reached. -/
theorem inputBoundedSlow : ∃ r, Machine.run (step 2) ⟨Buffer.new 3,false⟩ [[0,0],[0,2,5]] = some r ∧
    r.buffer.readableBytes = limit 2 + 3 ∧ r.buffer.readableBytes ≤ limit 2 + 3 ∧
      r.buffer.buf.length ≤ max 3 (limit 2 + 3 + 3 * extraSize) := by
  have first : step 2 ⟨Buffer.new 3,false⟩ [0,0] = some ⟨(Buffer.new 3).readFromFd [0,0],false⟩ :=
    stepReturns (by decide) rfl
  have second := @stepReturns 2 ((Buffer.new 3).readFromFd [0,0]) [0,2,5] (by decide) rfl
  have last : Machine.run (step 2) ⟨((Buffer.new 3).readFromFd [0,0]).readFromFd [0,2,5],false⟩ [] = some _ := rfl
  have run := Machine.runCons.mpr ⟨_,first,Machine.runCons.mpr ⟨_,second,last⟩⟩
  have bounds := inputBounded run
  exact ⟨_,run,rfl,bounds.1 rfl,bounds.2⟩

end TcFrame.CodecMemory
