import Mathlib.Tactic.Common

/-! The private byte buffer of a connection: one vector with a read and a write
index. Sizes are natural numbers; nothing below depends on the wrap of `size_t`.
The asserted preconditions of the source are hypotheses of the lemmas. -/
namespace TcFrame

abbrev Bytes := List UInt8

/- std::copy into the vector at position `at`, and std::vector::resize. -/
def overwrite (xs : Bytes) (pos : Nat) (ys : Bytes) : Bytes :=
  xs.take pos ++ ys ++ xs.drop (pos + ys.length)

def resize (xs : Bytes) (n : Nat) : Bytes := xs.take n ++ List.replicate (n - xs.length) 0

structure Buffer where
  buf : Bytes
  readIdx : Nat
  writeIdx : Nat
  deriving DecidableEq, Repr

namespace Buffer

def new (initialSize : Nat) : Buffer := ⟨List.replicate initialSize 0,0,0⟩

def readableBytes (b : Buffer) : Nat := b.writeIdx - b.readIdx
def writableBytes (b : Buffer) : Nat := b.buf.length - b.writeIdx
def prependableBytes (b : Buffer) : Nat := b.readIdx

/- What lies between the two indices, the bytes a reader is meant to see. -/
def readable (b : Buffer) : Bytes := (b.buf.take b.writeIdx).drop b.readIdx

def retrieve (b : Buffer) (len : Nat) : Buffer := { b with readIdx := b.readIdx + len }

def retrieveAsString (b : Buffer) (len : Nat) : Bytes × Buffer :=
  ((b.buf.drop b.readIdx).take len,b.retrieve len)

def makeSpace (b : Buffer) (len : Nat) : Buffer :=
  if len ≤ b.prependableBytes + b.writableBytes then
    ⟨overwrite b.buf 0 b.readable,0,b.readableBytes⟩
  else { b with buf := resize b.buf (b.writeIdx + len) }

def ensureWritableBytes (b : Buffer) (len : Nat) : Buffer :=
  if len ≤ b.writableBytes then b else b.makeSpace len

def append (b : Buffer) (data : Bytes) : Buffer :=
  let room := b.ensureWritableBytes data.length
  { room with
    buf := overwrite room.buf room.writeIdx data
    writeIdx := room.writeIdx + data.length }

/- A successful readv: the received bytes fill the writable tail and go on into the
64 KiB stack buffer, whose part is appended afterwards. -/
def readFromFd (b : Buffer) (received : Bytes) : Buffer :=
  let writable := b.writableBytes
  if received.length ≤ writable then
    { b with
      buf := overwrite b.buf b.writeIdx received
      writeIdx := b.writeIdx + received.length }
  else
    let full : Buffer :=
      { b with buf := overwrite b.buf b.writeIdx (received.take writable), writeIdx := b.buf.length }
    full.append (received.drop writable)

/- A write() that took `n` bytes. -/
def writeToFd (b : Buffer) (n : Nat) : Buffer := if 0 < n then b.retrieve n else b

structure Valid (b : Buffer) : Prop where
  order : b.readIdx ≤ b.writeIdx
  inside : b.writeIdx ≤ b.buf.length

end Buffer

@[simp] theorem overwriteLength (xs : Bytes) (pos : Nat) (ys : Bytes)
    (fits : pos + ys.length ≤ xs.length) : (overwrite xs pos ys).length = xs.length := by
  simp [overwrite]; omega

@[simp] theorem resizeLength (xs : Bytes) (n : Nat) : (resize xs n).length = n := by
  simp [resize]; omega

theorem overwriteTake (xs : Bytes) (pos : Nat) (ys : Bytes) (fits : pos ≤ xs.length) :
    (overwrite xs pos ys).take (pos + ys.length) = xs.take pos ++ ys := by
  have len : (xs.take pos ++ ys).length = pos + ys.length := by simp [Nat.min_eq_left fits]
  simp only [overwrite, ← len, List.take_left]

theorem resizeTake (xs : Bytes) (m n : Nat) (old : m ≤ xs.length) (grown : m ≤ n) :
    (resize xs n).take m = xs.take m := by
  rw [resize, List.take_append_of_le_length (by simp; omega), List.take_take, Nat.min_eq_left grown]

namespace Buffer

theorem newValid (n : Nat) : (new n).Valid := ⟨by simp [new],by simp [new]⟩

@[simp] theorem newReadable (n : Nat) : (new n).readable = [] := by simp [new, readable]

theorem readableLength {b : Buffer} (h : b.Valid) : b.readable.length = b.readableBytes := by
  have := h.inside
  simp only [readable, readableBytes, List.length_drop, List.length_take]
  omega

theorem retrieveReadable (b : Buffer) (len : Nat) : (b.retrieve len).readable = b.readable.drop len := by
  simp [retrieve, readable, List.drop_drop]

theorem retrieveValid {b : Buffer} (h : b.Valid) {len : Nat} (asserted : len ≤ b.readableBytes) :
    (b.retrieve len).Valid := by
  have := h.order
  simp only [readableBytes] at asserted
  exact ⟨by simp only [retrieve]; omega,h.inside⟩

/- The string copied from Peek() on is the front of the readable bytes, not stale
data behind the write index. -/
theorem peekTake {b : Buffer} {len : Nat} (asserted : len ≤ b.readableBytes) :
    (b.buf.drop b.readIdx).take len = b.readable.take len := by
  simp only [readableBytes] at asserted
  simp only [readable, List.drop_take, List.take_take]
  congr 1
  omega

theorem retrieveAsStringReadable {b : Buffer} {len : Nat} (asserted : len ≤ b.readableBytes) :
    b.retrieveAsString len = (b.readable.take len,b.retrieve len) := by
  rw [retrieveAsString, peekTake asserted]

theorem makeSpaceKeeps {b : Buffer} (h : b.Valid) (len : Nat) :
    (b.makeSpace len).Valid ∧ (b.makeSpace len).readable = b.readable := by
  have order := h.order
  have inside := h.inside
  have size := readableLength h
  have fits : b.readable.length ≤ b.buf.length := by rw [size, readableBytes]; omega
  unfold makeSpace
  split
  · have front := overwriteTake b.buf 0 b.readable (Nat.zero_le _)
    have same := overwriteLength b.buf 0 b.readable (by omega)
    simp only [Nat.zero_add, List.take_zero, List.nil_append] at front
    refine ⟨⟨Nat.zero_le _,?_⟩,?_⟩
    · simp only [same]; omega
    · rw [readable, List.drop_zero, ← size, front]
  · refine ⟨⟨order,?_⟩,?_⟩
    · simp
    · simp only [readable, resizeTake b.buf b.writeIdx _ inside (Nat.le_add_right _ _)]

theorem makeSpaceRoom {b : Buffer} (h : b.Valid) (len : Nat) : len ≤ (b.makeSpace len).writableBytes := by
  have order := h.order
  have inside := h.inside
  have size := readableLength h
  simp only [readableBytes] at size
  unfold makeSpace
  split
  · rename_i enough
    simp only [prependableBytes, writableBytes] at enough
    simp only [writableBytes, readableBytes, overwriteLength b.buf 0 b.readable (by omega)]
    omega
  · simp [writableBytes]

theorem ensureWritableBytesKeeps {b : Buffer} (h : b.Valid) (len : Nat) :
    (b.ensureWritableBytes len).Valid ∧ (b.ensureWritableBytes len).readable = b.readable ∧
    len ≤ (b.ensureWritableBytes len).writableBytes := by
  unfold ensureWritableBytes
  split
  · exact ⟨h,rfl,by assumption⟩
  · exact ⟨(makeSpaceKeeps h len).1,(makeSpaceKeeps h len).2,makeSpaceRoom h len⟩

/- Data written behind the write index becomes the tail of the readable bytes. -/
theorem written {b : Buffer} (h : b.Valid) (data : Bytes) (room : data.length ≤ b.writableBytes) :
    let b' : Buffer :=
      { b with buf := overwrite b.buf b.writeIdx data, writeIdx := b.writeIdx + data.length }
    b'.Valid ∧ b'.readable = b.readable ++ data := by
  have order := h.order
  have inside := h.inside
  simp only [writableBytes] at room
  refine ⟨⟨?_,?_⟩,?_⟩
  · simp only; omega
  · simp only [overwriteLength b.buf b.writeIdx data (by omega)]; omega
  · simp only [readable, overwriteTake b.buf b.writeIdx data inside]
    rw [List.drop_append_of_le_length (by simp; omega)]

theorem appendValid {b : Buffer} (h : b.Valid) (data : Bytes) : (b.append data).Valid := by
  obtain ⟨valid,_,room⟩ := ensureWritableBytesKeeps h data.length
  exact (written valid data room).1

theorem appendReadable {b : Buffer} (h : b.Valid) (data : Bytes) :
    (b.append data).readable = b.readable ++ data := by
  obtain ⟨valid,same,room⟩ := ensureWritableBytesKeeps h data.length
  rw [← same]
  exact (written valid data room).2

theorem readFromFdKeeps {b : Buffer} (h : b.Valid) (received : Bytes) :
    (b.readFromFd received).Valid ∧ (b.readFromFd received).readable = b.readable ++ received := by
  simp only [readFromFd]
  split
  · exact written h received (by assumption)
  · have inside := h.inside
    have len : (received.take b.writableBytes).length = b.writableBytes := by
      simp only [List.length_take]; omega
    have tail := written h (received.take b.writableBytes) (by omega)
    have full : b.writeIdx + (received.take b.writableBytes).length = b.buf.length := by
      rw [len, writableBytes]; omega
    simp only [full] at tail
    refine ⟨appendValid tail.1 _,?_⟩
    rw [appendReadable tail.1, tail.2, List.append_assoc, List.take_append_drop]

theorem writeToFdKeeps {b : Buffer} (h : b.Valid) {n : Nat} (accepted : n ≤ b.readableBytes) :
    (b.writeToFd n).Valid ∧ (b.writeToFd n).readable = b.readable.drop n := by
  unfold writeToFd
  split
  · exact ⟨retrieveValid h accepted,retrieveReadable b n⟩
  · have none : n = 0 := by omega
    subst n
    exact ⟨h,rfl⟩

end Buffer
end TcFrame
