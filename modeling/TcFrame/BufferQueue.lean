import TcFrame.LengthFieldCodec
import TcFrame.Machine
import Mathlib.Data.List.GetD

/-! The buffer with its asserts, and what it is for: a queue of bytes. Every operation of
the source is a function that has no value when an assert fails on the way, in itself or
in an operation that it calls. std::copy moves one byte after the other. -/
namespace TcFrame

/- std::copy from position `src` on to `pos`, inside one vector. -/
def copyWithin (xs : Bytes) (src pos : Nat) : Nat → Bytes
  | 0 => xs
  | n + 1 => copyWithin (xs.set pos (xs.getD src 0)) (src + 1) (pos + 1) n

theorem overwriteCons {xs : Bytes} {pos : Nat} {y : UInt8} {ys : Bytes} (fits : pos + (ys.length + 1) ≤ xs.length) :
    overwrite (xs.set pos y) (pos + 1) ys = overwrite xs pos (y :: ys) := by
  have take : (xs.set pos y).take (pos + 1) = xs.take pos ++ [y] := by
    rw [List.take_add_one, List.take_set_of_le (Nat.le_refl _), List.getElem?_set_self (by omega)]
    rfl
  have drop : (xs.set pos y).drop (pos + 1 + ys.length) = xs.drop (pos + (ys.length + 1)) := by
    rw [List.drop_set_of_lt (by omega)]
    congr 1
    omega
  simp only [overwrite, take, drop, List.length_cons, List.append_assoc, List.singleton_append]

/- Bytes that go to lower positions are read before they are overwritten. -/
theorem copyWithinFront {xs : Bytes} {src pos n : Nat} (front : pos ≤ src) (inside : src + n ≤ xs.length) :
    copyWithin xs src pos n = overwrite xs pos ((xs.drop src).take n) := by
  induction n generalizing xs src pos with
  | zero => simp [copyWithin, overwrite]
  | succ n ih =>
    have here : (xs.drop src).take (n + 1) = xs.getD src 0 :: (xs.drop (src + 1)).take n := by
      rw [List.drop_eq_getElem_cons (by omega), List.take_succ_cons, List.getD_eq_getElem _ _ (by omega)]
    have later : ((xs.set pos (xs.getD src 0)).drop (src + 1)).take n = (xs.drop (src + 1)).take n := by
      rw [List.drop_set_of_lt (by omega)]
    have size : ((xs.drop (src + 1)).take n).length = n := by
      rw [List.length_take, List.length_drop]
      omega
    rw [copyWithin, ih (by omega) (by simp; omega), later, overwriteCons (by omega), here]

namespace Buffer

def assert {α : Type} (p : Prop) [Decidable p] (rest : Option α) : Option α := if p then rest else none

def checkedRetrieve (b : Buffer) (len : Nat) : Option Buffer := assert (len ≤ b.readableBytes) (some (b.retrieve len))

/- `stop` is the distance of the argument from Peek(). -/
def checkedRetrieveUntil (b : Buffer) (stop : Int) : Option Buffer := assert (0 ≤ stop) (b.checkedRetrieve stop.toNat)

def retrieveAll (b : Buffer) : Buffer := { b with readIdx := 0, writeIdx := 0 }

def checkedRetrieveAsString (b : Buffer) (len : Nat) : Option (Bytes × Buffer) :=
  assert (len ≤ b.readableBytes) ((b.checkedRetrieve len).map (fun b' => ((b.buf.drop b.readIdx).take len,b')))

def checkedRetrieveAllAsString (b : Buffer) : Option (Bytes × Buffer) := b.checkedRetrieveAsString b.readableBytes

def checkedMakeSpace (b : Buffer) (len : Nat) : Option Buffer :=
  if len ≤ b.prependableBytes + b.writableBytes then
    let readable := b.readableBytes
    let b' : Buffer := ⟨copyWithin b.buf b.readIdx 0 (b.writeIdx - b.readIdx),0,readable⟩
    assert (readable = b'.readableBytes) (some b')
  else some { b with buf := resize b.buf (b.writeIdx + len) }

def checkedEnsureWritableBytes (b : Buffer) (len : Nat) : Option Buffer :=
  if len ≤ b.writableBytes then some b
  else (b.checkedMakeSpace len).bind (fun b' => assert (len ≤ b'.writableBytes) (some b'))

def checkedHasWritten (b : Buffer) (len : Nat) : Option Buffer :=
  assert (len ≤ b.writableBytes) (some { b with writeIdx := b.writeIdx + len })

def checkedAppend (b : Buffer) (data : Bytes) : Option Buffer :=
  (b.checkedEnsureWritableBytes data.length).map (fun room =>
    { room with buf := overwrite room.buf room.writeIdx data, writeIdx := room.writeIdx + data.length })

/- static_cast<uint32_t>, htonl, and the four bytes. -/
def checkedAppendInt32 (b : Buffer) (x : Int) : Option Buffer :=
  b.checkedAppend (hostToNetLong (x % 4294967296).toNat)

def checkedPrepend (b : Buffer) (data : Bytes) : Option Buffer :=
  assert (data.length ≤ b.prependableBytes)
    (some { b with buf := overwrite b.buf (b.readIdx - data.length) data, readIdx := b.readIdx - data.length })

def checkedReadFromFd (b : Buffer) (received : Bytes) : Option Buffer :=
  let writable := b.writableBytes
  if received.length ≤ writable then
    some { b with buf := overwrite b.buf b.writeIdx received, writeIdx := b.writeIdx + received.length }
  else
    let full : Buffer :=
      { b with buf := overwrite b.buf b.writeIdx (received.take writable), writeIdx := b.buf.length }
    full.checkedAppend (received.drop writable)

/- `n` is what write() returned. -/
def checkedWriteToFd (b : Buffer) (n : Int) : Option Buffer :=
  if b.readableBytes = 0 then some b else if 0 < n then b.checkedRetrieve n.toNat else some b

/- The operations, with what their callers and the kernel pass to them. -/
inductive Op where
  | append (data : Bytes)
  | appendInt32 (x : Int)
  | prepend (data : Bytes)
  | retrieve (len : Nat)
  | retrieveUntil (stop : Int)
  | retrieveAsString (len : Nat)
  | retrieveAll
  | retrieveAllAsString
  | ensureWritableBytes (len : Nat)
  | hasWritten (len : Nat)
  | readFromFd (received : Bytes)
  | writeToFd (n : Int)
  deriving DecidableEq, Repr

/- What an operation returns, and the buffer it leaves. -/
def perform (b : Buffer) : Op → Option (Option Bytes × Buffer)
  | .append data => (b.checkedAppend data).map (none,·)
  | .appendInt32 x => (b.checkedAppendInt32 x).map (none,·)
  | .prepend data => (b.checkedPrepend data).map (none,·)
  | .retrieve len => (b.checkedRetrieve len).map (none,·)
  | .retrieveUntil stop => (b.checkedRetrieveUntil stop).map (none,·)
  | .retrieveAsString len => (b.checkedRetrieveAsString len).map (fun out => (some out.1,out.2))
  | .retrieveAll => some (none,b.retrieveAll)
  | .retrieveAllAsString => b.checkedRetrieveAllAsString.map (fun out => (some out.1,out.2))
  | .ensureWritableBytes len => (b.checkedEnsureWritableBytes len).map (none,·)
  | .hasWritten len => (b.checkedHasWritten len).map (none,·)
  | .readFromFd received => (b.checkedReadFromFd received).map (none,·)
  | .writeToFd n => (b.checkedWriteToFd n).map (none,·)

/- The asserted preconditions; write() takes at most what it is given. RetrieveUntil asserts
its own and, in Retrieve, that the end is not behind the readable bytes. -/
def Asserted (b : Buffer) : Op → Prop
  | .prepend data => data.length ≤ b.prependableBytes
  | .retrieve len | .retrieveAsString len => len ≤ b.readableBytes
  | .retrieveUntil stop => 0 ≤ stop ∧ stop ≤ b.readableBytes
  | .hasWritten len => len ≤ b.writableBytes
  | .writeToFd n => n ≤ b.readableBytes
  | _ => True

end Buffer

/- A queue of bytes under the same operations. HasWritten makes bytes part of it that were
written into the buffer before; which ones the queue does not say. -/
inductive QueueStep : Bytes → Buffer.Op → Option Bytes → Bytes → Prop where
  | append {q data} : QueueStep q (.append data) none (q ++ data)
  | appendInt32 {q x} : QueueStep q (.appendInt32 x) none (q ++ hostToNetLong (x % 4294967296).toNat)
  | prepend {q data} : QueueStep q (.prepend data) none (data ++ q)
  | retrieve {q len} : QueueStep q (.retrieve len) none (q.drop len)
  | retrieveUntil {q stop} : QueueStep q (.retrieveUntil stop) none (q.drop stop.toNat)
  | retrieveAsString {q len} : QueueStep q (.retrieveAsString len) (some (q.take len)) (q.drop len)
  | retrieveAll {q} : QueueStep q .retrieveAll none []
  | retrieveAllAsString {q} : QueueStep q .retrieveAllAsString (some q) []
  | ensureWritableBytes {q len} : QueueStep q (.ensureWritableBytes len) none q
  | hasWritten {q len} (behind : Bytes) (all : behind.length = len) : QueueStep q (.hasWritten len) none (q ++ behind)
  | readFromFd {q received} : QueueStep q (.readFromFd received) none (q ++ received)
  | writeToFd {q n} : QueueStep q (.writeToFd n) none (q.drop n.toNat)

namespace Buffer

theorem assertTrue {α : Type} {p : Prop} [Decidable p] {rest : Option α} (holds : p) : assert p rest = rest := if_pos holds

theorem checkedRetrieveHolds {b : Buffer} {len : Nat} (asserted : len ≤ b.readableBytes) :
    b.checkedRetrieve len = some (b.retrieve len) := assertTrue asserted

theorem checkedRetrieveAsStringHolds {b : Buffer} {len : Nat} (asserted : len ≤ b.readableBytes) :
    b.checkedRetrieveAsString len = some (b.readable.take len,b.retrieve len) := by
  rw [checkedRetrieveAsString, assertTrue asserted, checkedRetrieveHolds asserted, Option.map_some, peekTake asserted]

/- Compaction moves the readable bytes to the front whole, although the ranges overlap. -/
theorem compaction {b : Buffer} (h : b.Valid) :
    copyWithin b.buf b.readIdx 0 (b.writeIdx - b.readIdx) = overwrite b.buf 0 b.readable := by
  have order := h.order
  have inside := h.inside
  rw [copyWithinFront (Nat.zero_le _) (by omega), readable, List.drop_take]

theorem checkedMakeSpaceHolds {b : Buffer} (h : b.Valid) (len : Nat) : b.checkedMakeSpace len = some (b.makeSpace len) := by
  unfold checkedMakeSpace makeSpace
  split
  · simp only [compaction h]
    exact assertTrue rfl
  · rfl

theorem checkedEnsureHolds {b : Buffer} (h : b.Valid) (len : Nat) :
    b.checkedEnsureWritableBytes len = some (b.ensureWritableBytes len) := by
  unfold checkedEnsureWritableBytes ensureWritableBytes
  split
  · rfl
  · rw [checkedMakeSpaceHolds h, Option.bind_some, assertTrue (makeSpaceRoom h len)]

theorem checkedAppendHolds {b : Buffer} (h : b.Valid) (data : Bytes) : b.checkedAppend data = some (b.append data) := by
  rw [checkedAppend, checkedEnsureHolds h, Option.map_some, append]

theorem checkedReadHolds {b : Buffer} (h : b.Valid) (received : Bytes) :
    b.checkedReadFromFd received = some (b.readFromFd received) := by
  simp only [checkedReadFromFd, readFromFd]
  split
  · rfl
  · have inside := h.inside
    have len : (received.take b.writableBytes).length = b.writableBytes := by
      rw [List.length_take]
      omega
    have tail := written h (received.take b.writableBytes) (by omega)
    have full : b.writeIdx + (received.take b.writableBytes).length = b.buf.length := by
      rw [len, writableBytes]
      omega
    simp only [full] at tail
    exact checkedAppendHolds tail.1 _

/- An operation done: it returned, kept the order of the indices, and was a step of the
queue. -/
def Done (b : Buffer) (op : Op) (out : Option (Option Bytes × Buffer)) : Prop :=
  ∃ result b', out = some (result,b') ∧ b'.Valid ∧ QueueStep b.readable op result b'.readable

theorem doneRetrieve {b : Buffer} (h : b.Valid) {len : Nat} (asserted : len ≤ b.readableBytes) {op : Op}
    {result : Option Bytes} (drops : QueueStep b.readable op result (b.readable.drop len)) :
    Done b op (some (result,b.retrieve len)) :=
  ⟨_,_,rfl,retrieveValid h asserted,by rw [retrieveReadable]; exact drops⟩

theorem doneAppend {b : Buffer} (h : b.Valid) {data : Bytes} {op : Op}
    (adds : QueueStep b.readable op none (b.readable ++ data)) : Done b op ((b.checkedAppend data).map (none,·)) := by
  rw [checkedAppendHolds h]
  exact ⟨_,_,rfl,appendValid h data,by rw [appendReadable h]; exact adds⟩

theorem prependReadable {b : Buffer} (h : b.Valid) {data : Bytes} (asserted : data.length ≤ b.readIdx) :
    ({ b with
      buf := overwrite b.buf (b.readIdx - data.length) data
      readIdx := b.readIdx - data.length } : Buffer).readable = data ++ b.readable := by
  have order := h.order
  have inside := h.inside
  have front : (b.buf.take (b.readIdx - data.length)).length = b.readIdx - data.length := by
    rw [List.length_take]
    omega
  have width : b.writeIdx - (b.readIdx - data.length) = data.length + (b.writeIdx - b.readIdx) := by omega
  have next : b.readIdx - data.length + data.length = b.readIdx := by omega
  simp only [readable, overwrite, List.drop_take, List.append_assoc, List.drop_left' front, width, next,
    List.take_length_add_append]

theorem donePrepend {b : Buffer} (h : b.Valid) {data : Bytes} (asserted : data.length ≤ b.prependableBytes) :
    Done b (.prepend data) (b.perform (.prepend data)) := by
  have order := h.order
  have inside := h.inside
  rw [perform, checkedPrepend, assertTrue asserted]
  simp only [prependableBytes] at asserted
  refine ⟨_,_,rfl,⟨?_,?_⟩,by rw [prependReadable h asserted]; exact .prepend⟩
  · simp only
    omega
  · simp only [overwriteLength b.buf (b.readIdx - data.length) data (by omega)]
    omega

/- The bytes that HasWritten takes in are those behind the write index. -/
theorem writtenReadable {b : Buffer} (h : b.Valid) (len : Nat) :
    ({ b with writeIdx := b.writeIdx + len } : Buffer).readable = b.readable ++ (b.buf.drop b.writeIdx).take len := by
  have order := h.order
  have inside := h.inside
  simp only [readable, List.take_add]
  rw [List.drop_append_of_le_length]
  rw [List.length_take]
  omega

theorem doneWritten {b : Buffer} (h : b.Valid) {len : Nat} (asserted : len ≤ b.writableBytes) :
    Done b (.hasWritten len) (b.perform (.hasWritten len)) := by
  have order := h.order
  have inside := h.inside
  rw [perform, checkedHasWritten, assertTrue asserted]
  simp only [writableBytes] at asserted
  refine ⟨_,_,rfl,⟨?_,?_⟩,?_⟩
  · simp only
    omega
  · simp only
    omega
  · rw [writtenReadable h]
    refine .hasWritten _ ?_
    rw [List.length_take, List.length_drop]
    omega

theorem doneAllAsString {b : Buffer} (h : b.Valid) :
    Done b .retrieveAllAsString (b.perform .retrieveAllAsString) := by
  have all := readableLength h
  have asserted : b.readableBytes ≤ b.readableBytes := Nat.le_refl _
  rw [perform, checkedRetrieveAllAsString, checkedRetrieveAsStringHolds asserted, Option.map_some, ← all, List.take_length]
  refine doneRetrieve h (Nat.le_of_eq all) ?_
  rw [List.drop_length]
  exact .retrieveAllAsString

theorem doneWrite {b : Buffer} (h : b.Valid) {n : Int} (asserted : n ≤ b.readableBytes) :
    Done b (.writeToFd n) (b.perform (.writeToFd n)) := by
  have nothing : n ≤ 0 → QueueStep b.readable (.writeToFd n) none b.readable := by
    intro none_
    have step := @QueueStep.writeToFd b.readable n
    rwa [Int.toNat_of_nonpos none_, List.drop_zero] at step
  rw [perform, checkedWriteToFd]
  split
  · exact ⟨_,_,rfl,h,nothing (by omega)⟩
  · split
    · have taken : n.toNat ≤ b.readableBytes := by omega
      rw [checkedRetrieveHolds taken]
      exact doneRetrieve h taken .writeToFd
    · exact ⟨_,_,rfl,h,nothing (by omega)⟩

theorem performDone {b : Buffer} (h : b.Valid) {op : Op} (asserted : Asserted b op) : Done b op (b.perform op) := by
  cases op with
  | append data => exact doneAppend h .append
  | appendInt32 x => exact doneAppend h .appendInt32
  | prepend data => exact donePrepend h asserted
  | retrieve len =>
    rw [perform, checkedRetrieveHolds asserted]
    exact doneRetrieve h asserted .retrieve
  | retrieveUntil stop =>
    obtain ⟨front,inside⟩ := asserted
    have inside' : stop.toNat ≤ b.readableBytes := by omega
    rw [perform, checkedRetrieveUntil, assertTrue front, checkedRetrieveHolds inside']
    exact doneRetrieve h inside' .retrieveUntil
  | retrieveAsString len =>
    rw [perform, checkedRetrieveAsStringHolds asserted]
    exact doneRetrieve h asserted .retrieveAsString
  | retrieveAll => exact ⟨_,_,rfl,⟨Nat.le_refl _,Nat.zero_le _⟩,by simp [retrieveAll, readable]; exact .retrieveAll⟩
  | retrieveAllAsString => exact doneAllAsString h
  | ensureWritableBytes len =>
    obtain ⟨valid,same,_⟩ := ensureWritableBytesKeeps h len
    rw [perform, checkedEnsureHolds h]
    exact ⟨_,_,rfl,valid,by rw [same]; exact .ensureWritableBytes⟩
  | hasWritten len => exact doneWritten h asserted
  | readFromFd received =>
    obtain ⟨valid,readable⟩ := readFromFdKeeps h received
    rw [perform, checkedReadHolds h]
    exact ⟨_,_,rfl,valid,by rw [readable]; exact .readFromFd⟩
  | writeToFd n => exact doneWrite h asserted

/- A sequence of operations, with what they return. -/
def performAll : Buffer → List Op → Option (List (Option Bytes) × Buffer)
  | b, [] => some ([],b)
  | b, op :: ops =>
    (b.perform op).bind (fun first => (performAll first.2 ops).map (fun rest => (first.1 :: rest.1,rest.2)))

def after (b : Buffer) (op : Op) : Option Buffer := (b.perform op).map Prod.snd

instance (b : Buffer) : ∀ op, Decidable (Asserted b op)
  | .prepend data => inferInstanceAs (Decidable (data.length ≤ b.prependableBytes))
  | .retrieve len | .retrieveAsString len => inferInstanceAs (Decidable (len ≤ b.readableBytes))
  | .retrieveUntil stop => inferInstanceAs (Decidable (0 ≤ stop ∧ stop ≤ b.readableBytes))
  | .hasWritten len => inferInstanceAs (Decidable (len ≤ b.writableBytes))
  | .writeToFd n => inferInstanceAs (Decidable (n ≤ b.readableBytes))
  | .append _ | .appendInt32 _ | .retrieveAll | .retrieveAllAsString | .ensureWritableBytes _ | .readFromFd _ =>
    inferInstanceAs (Decidable True)

end Buffer

inductive QueueRun : Bytes → List Buffer.Op → List (Option Bytes) → Bytes → Prop where
  | done {q} : QueueRun q [] [] q
  | step {q op result q' ops results last} (first : QueueStep q op result q') (rest : QueueRun q' ops results last) :
      QueueRun q (op :: ops) (result :: results) last

namespace Buffer
open Machine

theorem performAllDone {b : Buffer} (h : b.Valid) {ops : List Op} (asserted : Throughout after Asserted b ops) :
    ∃ results b', performAll b ops = some (results,b') ∧ b'.Valid ∧ QueueRun b.readable ops results b'.readable := by
  induction ops generalizing b with
  | nil => exact ⟨_,_,rfl,h,.done⟩
  | cons op ops ih =>
    obtain ⟨result,m,out,valid,first⟩ := performDone h asserted.1
    have reached : after b op = some m := by rw [after, out]; rfl
    obtain ⟨results,b',rest,valid',last⟩ := ih valid ((throughoutCons reached).mp asserted).2
    refine ⟨result :: results,b',?_,valid',.step first last⟩
    simp only [performAll, out, Option.bind_some, rest, Option.map_some]

/- A buffer whose callers keep to the asserted preconditions: no assert inside fails, the
indices stay in order, and the readable bytes and the strings returned are a queue's. -/
theorem refinesQueue {initialSize : Nat} {ops : List Op} (asserted : Throughout after Asserted (new initialSize) ops) :
    ∃ results b, performAll (new initialSize) ops = some (results,b) ∧ b.Valid ∧
      QueueRun [] ops results b.readable := by
  obtain ⟨results,b,performed,valid,queue⟩ := performAllDone (newValid initialSize) asserted
  rw [newReadable] at queue
  exact ⟨results,b,performed,valid,queue⟩

/- Growth, a prefix in front, compaction over an overlap, and a read in two parts. -/
def mixed : List Op :=
  [.append [1,2,3,4,5,6],.retrieve 4,.prepend [9],.retrieveUntil 1,.retrieveAsString 1,.append [7,8,9],.appendInt32 (-2),
    .ensureWritableBytes 2,.hasWritten 1,.writeToFd 3,.readFromFd [4,4],.writeToFd (-1)]

theorem refinesQueueMixed : ∃ results b, performAll (new 6) mixed = some (results,b) ∧ b.Valid ∧
    QueueRun [] mixed results b.readable ∧ results.getD 4 none = some [5] := by
  have asserted : Throughout after Asserted (new 6) mixed := by decide
  obtain ⟨results,b,performed,valid,queue⟩ := refinesQueue asserted
  have fifth : (performAll (new 6) mixed).map (fun out => out.1.getD 4 none) = some (some [5]) := by decide
  rw [performed] at fifth
  exact ⟨results,b,performed,valid,queue,Option.some.inj fifth⟩

end Buffer
end TcFrame
