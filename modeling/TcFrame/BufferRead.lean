import TcFrame.CodecMemory
import TcFrame.Counted

/-! ReadFromFd on Linux with the size_t arithmetic of the source, for every result of readv. A
failed readv comes back as n = -1; the comparison and the subtraction behind it take n as an
unsigned number. -/
namespace TcFrame.BufferRead
open Buffer Counted

/- What ends the call early: std::length_error, an assert, or a copy beyond an array. -/
inductive Fault where
  | lengthError | assertion | undefined
  deriving DecidableEq, Repr

/- std::vector<char>::max_size() -/
def maxSize : Nat := 2 ^ 63 - 1

abbrev Work := Counted Fault

def sizeT (x : Int) : Work Nat := word 64 x

def readableBytes64 (b : Buffer) : Work Nat := sizeT (b.writeIdx - b.readIdx)
def writableBytes64 (b : Buffer) : Work Nat := sizeT (b.buf.length - b.writeIdx)

def makeSpace64 (b : Buffer) (len : Nat) : Work Buffer := do
  let writable ← writableBytes64 b
  let free ← sizeT (b.prependableBytes + writable)
  if len ≤ free then
    let readable ← readableBytes64 b
    let b' : Buffer := ⟨copyWithin b.buf b.readIdx 0 (b.writeIdx - b.readIdx),0,readable⟩
    let readable' ← readableBytes64 b'
    if readable = readable' then pure b' else fault .assertion
  else
    let size ← sizeT (b.writeIdx + len)
    if size ≤ maxSize then pure { b with buf := resize b.buf size } else fault .lengthError

def ensureWritableBytes64 (b : Buffer) (len : Nat) : Work Buffer := do
  let writable ← writableBytes64 b
  if len ≤ writable then pure b
  else
    let b' ← makeSpace64 b len
    let writable' ← writableBytes64 b'
    if len ≤ writable' then pure b' else fault .assertion

/- std::copy reads `len` bytes of `data` and writes them into the vector. -/
def append64 (b : Buffer) (data : Bytes) (len : Nat) : Work Buffer := do
  let room ← ensureWritableBytes64 b len
  if len ≤ data.length ∧ room.writeIdx + len ≤ room.buf.length then
    let stop ← sizeT (room.writeIdx + len)
    pure { room with buf := overwrite room.buf room.writeIdx (data.take len), writeIdx := stop }
  else fault .undefined

/- What readv did: it received bytes, or it failed with an errno and returned -1. -/
inductive Readv where
  | received (bytes : Bytes)
  | failed (errno : Int)
  deriving DecidableEq, Repr

def Readv.returned : Readv → Int
  | .received bytes => bytes.length
  | .failed _ => -1

/- readv fills the two parts of the vec and no more. -/
def Readv.Fits (b : Buffer) : Readv → Prop
  | .received bytes => bytes.length ≤ CodecMemory.capacity b
  | .failed _ => True

instance (b : Buffer) : ∀ r : Readv, Decidable (r.Fits b)
  | .received bytes => inferInstanceAs (Decidable (bytes.length ≤ CodecMemory.capacity b))
  | .failed _ => inferInstanceAs (Decidable True)

structure Returned where
  buffer : Buffer
  savedErrno : Int
  n : Int
  deriving DecidableEq, Repr

/- `extrabuf` is what lies in the stack buffer, which the source does not initialise. -/
def readFromFd64 (b : Buffer) (extrabuf : Bytes) (savedErrno : Int) (r : Readv) : Work Returned := do
  let writable ← writableBytes64 b
  let (buf,extrabuf',savedErrno') := match r with
    | .received bytes =>
      (overwrite b.buf b.writeIdx (bytes.take writable),overwrite extrabuf 0 (bytes.drop writable),savedErrno)
    | .failed errno => (b.buf,extrabuf,errno)
  let n := (r.returned % 2 ^ 64).toNat
  if n ≤ writable then
    let writeIdx ← sizeT (b.writeIdx + n)
    pure ⟨{ b with buf := buf, writeIdx := writeIdx },savedErrno',r.returned⟩
  else
    let len ← sizeT (n - writable)
    let b' ← append64 { b with buf := buf, writeIdx := buf.length } extrabuf' len
    pure ⟨b',savedErrno',r.returned⟩

/- A read as it should be. -/
def Safe (b : Buffer) (r : Readv) (out : Work Returned) : Prop :=
  (∀ x ∈ out.sums, 0 ≤ x ∧ x < 2 ^ 64) ∧ ∃ returned, out.result = .ok returned ∧ returned.n = r.returned ∧
    match r with
    | .received bytes => returned.buffer.readable = b.readable ++ bytes
    | .failed errno => returned.buffer.readIdx = b.readIdx ∧ returned.buffer.writeIdx = b.writeIdx ∧
        returned.buffer.buf.length = b.buf.length ∧ returned.buffer.readable = b.readable ∧
        returned.savedErrno = errno

/- Where the vector must grow for what was read, its new size is one it can have. -/
def Grows (b : Buffer) : Readv → Prop
  | .received bytes => b.readIdx < bytes.length - b.writableBytes →
      b.buf.length + (bytes.length - b.writableBytes) ≤ maxSize
  | .failed _ => True

theorem sizeTExact {x : Int} {n : Nat} (same : x = n) (small : n < 2 ^ 64) : Exact 64 (sizeT x) n := exactWord same small

section Exactness
variable {b : Buffer}

theorem readableExact (h : b.Valid) (inside : b.buf.length ≤ maxSize) : Exact 64 (readableBytes64 b) b.readableBytes := by
  have order := h.order
  have fits := h.inside
  simp only [maxSize] at inside
  refine sizeTExact ?_ ?_ <;> simp only [readableBytes] <;> omega

theorem writableExact (fits : b.writeIdx ≤ b.buf.length) (inside : b.buf.length ≤ maxSize) :
    Exact 64 (writableBytes64 b) b.writableBytes := by
  simp only [maxSize] at inside
  refine sizeTExact ?_ ?_ <;> simp only [writableBytes] <;> omega

theorem freeSmall (h : b.Valid) (inside : b.buf.length ≤ maxSize) : b.prependableBytes + b.writableBytes < 2 ^ 64 := by
  have order := h.order
  have fits := h.inside
  simp only [maxSize, prependableBytes, writableBytes] at *
  omega

/- Where the vector need not grow, or may, MakeSpace does what it does without bounds. -/
theorem makeSpaceExact (h : b.Valid) (inside : b.buf.length ≤ maxSize) {len : Nat}
    (fits : b.prependableBytes + b.writableBytes < len → b.writeIdx + len ≤ maxSize) :
    Exact 64 (makeSpace64 b len) (b.makeSpace len) := by
  have order := h.order
  have within := h.inside
  have small := freeSmall h inside
  refine exactBind (writableExact h.inside inside) (exactBind (sizeTExact (by push_cast; rfl) small) ?_)
  unfold makeSpace
  split
  · have front : (⟨overwrite b.buf 0 b.readable,0,b.readableBytes⟩ : Buffer).Valid := by
      have moves := (makeSpaceKeeps h len).1
      rwa [makeSpace, if_pos (by assumption)] at moves
    have size : (overwrite b.buf 0 b.readable).length = b.buf.length := by
      refine overwriteLength _ _ _ ?_
      rw [readableLength h, readableBytes]
      omega
    refine exactBind (readableExact h inside) ?_
    rw [compaction h]
    refine exactBind (readableExact front (size ▸ inside)) ?_
    split
    · exact exactPure
    · rename_i other
      exact absurd rfl other
  · have grown := fits (by omega)
    refine exactBind (@sizeTExact _ (b.writeIdx + len) (by push_cast; rfl) ?_) ?_
    · simp only [maxSize] at grown
      omega
    · rw [if_pos grown]
      exact exactPure

theorem ensureWithin (h : b.Valid) (inside : b.buf.length ≤ maxSize) {len : Nat}
    (fits : b.prependableBytes + b.writableBytes < len → b.writeIdx + len ≤ maxSize) :
    (b.ensureWritableBytes len).buf.length ≤ maxSize := by
  rcases ensureSize h len with same | ⟨short,grown⟩
  · omega
  · exact grown ▸ fits short

theorem ensureExact (h : b.Valid) (inside : b.buf.length ≤ maxSize) {len : Nat}
    (fits : b.prependableBytes + b.writableBytes < len → b.writeIdx + len ≤ maxSize) :
    Exact 64 (ensureWritableBytes64 b len) (b.ensureWritableBytes len) := by
  obtain ⟨valid,_,room⟩ := ensureWritableBytesKeeps h len
  have size := ensureWithin h inside fits
  refine exactBind (writableExact h.inside inside) ?_
  unfold ensureWritableBytes at valid room size ⊢
  split
  · exact exactPure
  · rename_i short
    rw [if_neg short] at valid room size
    refine exactBind (makeSpaceExact h inside fits) (exactBind (writableExact valid.inside size) ?_)
    rw [if_pos room]
    exact exactPure

theorem appendExact (h : b.Valid) (inside : b.buf.length ≤ maxSize) {data : Bytes} {len : Nat} (has : len ≤ data.length)
    (fits : b.prependableBytes + b.writableBytes < len → b.writeIdx + len ≤ maxSize) :
    Exact 64 (append64 b data len) (b.append (data.take len)) := by
  obtain ⟨valid,_,room⟩ := ensureWritableBytesKeeps h len
  have stop := valid.inside
  have width : (data.take len).length = len := by
    rw [List.length_take]
    omega
  have size := ensureWithin h inside fits
  simp only [writableBytes] at room
  refine exactBind (ensureExact h inside fits) ?_
  rw [if_pos ⟨has,by omega⟩, append, width]
  refine exactBind (@sizeTExact _ ((b.ensureWritableBytes len).writeIdx + len) (by push_cast; rfl) ?_) exactPure
  simp only [maxSize] at size
  omega

theorem overflowFits {bytes : Bytes} (fits : (Readv.received bytes).Fits b) :
    bytes.length - b.writableBytes ≤ CodecMemory.extraSize := by
  simp only [Readv.Fits, CodecMemory.capacity] at fits
  split at fits <;> omega

theorem lengthFits (inside : b.buf.length ≤ maxSize) {bytes : Bytes} (fits : (Readv.received bytes).Fits b) :
    bytes.length < 2 ^ 64 := by
  have small := overflowFits fits
  simp only [CodecMemory.extraSize, maxSize, writableBytes] at small inside
  omega

theorem receivedWord {bytes : Bytes} (below : bytes.length < 2 ^ 64) :
    ((Readv.received bytes).returned % 2 ^ 64).toNat = bytes.length := by
  simp only [Readv.returned]
  omega

/- The vector before the overflow is appended: its writable bytes are all received. -/
theorem overflown (h : b.Valid) {bytes : Bytes} (overflows : b.writableBytes < bytes.length) :
    let buf := overwrite b.buf b.writeIdx (bytes.take b.writableBytes)
    buf.length = b.buf.length ∧ Valid { b with buf := buf, writeIdx := buf.length } := by
  have fits := h.inside
  have order := h.order
  have split_ : b.writableBytes = b.buf.length - b.writeIdx := rfl
  have taken : (bytes.take b.writableBytes).length = b.writableBytes := by
    rw [List.length_take]
    omega
  have size := overwriteLength b.buf b.writeIdx (bytes.take b.writableBytes) (by omega)
  refine ⟨size,⟨?_,Nat.le_refl _⟩⟩
  simp only [size]
  omega

/- The vector and the stack buffer behind a read that overflows. -/
theorem overflowExact (h : b.Valid) (inside : b.buf.length ≤ maxSize) {extrabuf bytes : Bytes}
    (stack_ : bytes.length - b.writableBytes ≤ extrabuf.length) (overflows : b.writableBytes < bytes.length)
    (grows : Grows b (.received bytes)) :
    let buf := overwrite b.buf b.writeIdx (bytes.take b.writableBytes)
    Exact 64 (append64 { b with buf := buf, writeIdx := buf.length } (overwrite extrabuf 0 (bytes.drop b.writableBytes))
      (bytes.length - b.writableBytes)) (b.readFromFd bytes) := by
  obtain ⟨size,full⟩ := overflown h overflows
  have rest : (bytes.drop b.writableBytes).length = bytes.length - b.writableBytes := List.length_drop
  have front := overwriteTake extrabuf 0 (bytes.drop b.writableBytes) (Nat.zero_le _)
  have width := overwriteLength extrabuf 0 (bytes.drop b.writableBytes) (by omega)
  simp only [Nat.zero_add, List.take_zero, List.nil_append, rest] at front
  have appended := @appendExact _ full (by rw [size]; exact inside)
    (overwrite extrabuf 0 (bytes.drop b.writableBytes)) (bytes.length - b.writableBytes) (by omega) ?_
  · rw [front] at appended
    rw [readFromFd, if_neg (by omega), ← size]
    exact appended
  · intro short
    have dead : b.readIdx < bytes.length - b.writableBytes := Nat.lt_of_le_of_lt (Nat.le_add_right _ _) short
    simp only [size]
    exact grows dead

/- A readv that received bytes, where the vector may grow for them if it must. -/
theorem receivedExact (h : b.Valid) (inside : b.buf.length ≤ maxSize) {extrabuf : Bytes} (stack_ : extrabuf.length = CodecMemory.extraSize)
    {bytes : Bytes} (fits : (Readv.received bytes).Fits b) (grows : Grows b (.received bytes)) (savedErrno : Int) :
    Exact 64 (readFromFd64 b extrabuf savedErrno (.received bytes)) ⟨b.readFromFd bytes,savedErrno,bytes.length⟩ := by
  have order := h.inside
  have small := overflowFits fits
  have below := lengthFits inside fits
  have n := receivedWord below
  refine exactBind (writableExact h.inside inside) ?_
  simp only [n]
  split
  · rename_i room
    rw [readFromFd, if_pos room, List.take_of_length_le room]
    refine exactBind (@sizeTExact _ (b.writeIdx + bytes.length) (by push_cast; rfl) ?_) exactPure
    simp only [maxSize, writableBytes] at inside room
    omega
  · rename_i short
    refine exactBind (@sizeTExact _ (bytes.length - b.writableBytes) (by omega) (by omega)) ?_
    exact exactBind (overflowExact h inside (stack_ ▸ small) (by omega) grows) exactPure

/- Behind a full vector MakeSpace resizes it to the sum modulo 2^64. -/
theorem makeSpaceResult (h : b.Valid) (inside : b.buf.length ≤ maxSize) {len : Nat}
    (short : b.prependableBytes + b.writableBytes < len) :
    (makeSpace64 b len).result =
      if (b.writeIdx + len) % 2 ^ 64 ≤ maxSize then .ok { b with buf := resize b.buf ((b.writeIdx + len) % 2 ^ 64) }
      else .error .lengthError := by
  have small := freeSmall h inside
  have size : (sizeT ((b.writeIdx : Int) + len)).result = .ok ((b.writeIdx + len) % 2 ^ 64) := by
    refine congrArg Except.ok ?_
    omega
  unfold makeSpace64
  rw [bindOk (writableExact h.inside inside).comes, bindOk (@sizeTExact _ _ (by push_cast; rfl) small).comes,
    if_neg (by omega), bindOk size]
  split <;> rfl

theorem appendThrows (h : b.Valid) (inside : b.buf.length ≤ maxSize) {data : Bytes} {len : Nat}
    (short : b.prependableBytes + b.writableBytes < len) (large : maxSize < (b.writeIdx + len) % 2 ^ 64) :
    (append64 b data len).result = .error .lengthError := by
  refine bindError ?_
  unfold ensureWritableBytes64
  rw [bindOk (writableExact h.inside inside).comes, if_neg (by omega)]
  refine bindError ?_
  rw [makeSpaceResult h inside short, if_neg (by omega)]

/- The sum wrapped to less than the vector's size: the vector shrinks, and the assert behind
MakeSpace compares `len` with a difference that wraps as well. -/
theorem appendOverrun (h : b.Valid) (inside : b.buf.length ≤ maxSize) {data : Bytes} {len size : Nat}
    (short : b.prependableBytes + b.writableBytes < len) (wraps : (b.writeIdx + len) % 2 ^ 64 = size)
    (small : size ≤ maxSize) (far : data.length < len) (word_ : len < 2 ^ 64) :
    (append64 b data len).result = .error .undefined := by
  have ensured : (ensureWritableBytes64 b len).result = .ok { b with buf := resize b.buf size } := by
    have writable : (writableBytes64 { b with buf := resize b.buf size }).result = .ok len := by
      refine congrArg Except.ok ?_
      simp only [resizeLength]
      omega
    unfold ensureWritableBytes64
    rw [bindOk (writableExact h.inside inside).comes, if_neg (by omega)]
    have made := makeSpaceResult h inside short
    rw [wraps, if_pos small] at made
    rw [bindOk made, bindOk writable, if_pos (Nat.le_refl _)]
    rfl
  rw [append64, bindOk ensured, if_neg (fun room => by omega)]
  rfl

/- What a failed readv leads to. -/
theorem failedResult (h : b.Valid) (inside : b.buf.length ≤ maxSize) {extrabuf : Bytes}
    (stack_ : extrabuf.length = CodecMemory.extraSize) (savedErrno errno : Int) :
    (readFromFd64 b extrabuf savedErrno (.failed errno)).result =
      .error (if b.writeIdx = 0 then .lengthError else .undefined) := by
  have within := h.inside
  have order := h.order
  have n : ((Readv.failed errno).returned % 2 ^ 64).toNat = 2 ^ 64 - 1 := rfl
  have full : Valid { b with writeIdx := b.buf.length } := ⟨Nat.le_trans order within,Nat.le_refl _⟩
  have free : b.readIdx + (b.buf.length - b.buf.length) < 2 ^ 64 - 1 - b.writableBytes := by
    simp only [maxSize, writableBytes] at *
    omega
  have len : Exact 64 (sizeT (((2 ^ 64 - 1 : Nat) : Int) - b.writableBytes)) (2 ^ 64 - 1 - b.writableBytes) := by
    refine sizeTExact ?_ (by omega)
    simp only [maxSize, writableBytes] at *
    omega
  have large : ¬ 2 ^ 64 - 1 ≤ b.writableBytes := by omega
  unfold readFromFd64
  rw [bindOk (writableExact h.inside inside).comes]
  simp only [n]
  rw [if_neg large, bindOk len.comes]
  refine bindError ?_
  split
  · rename_i empty
    refine appendThrows full inside free ?_
    simp only [maxSize, writableBytes] at *
    omega
  · rename_i some_
    refine @appendOverrun _ full inside extrabuf _ (b.writeIdx - 1) free ?_ ?_ ?_ ?_ <;>
      simp only [maxSize, writableBytes, CodecMemory.extraSize] at * <;> omega

theorem receivedThrows (h : b.Valid) (inside : b.buf.length ≤ maxSize) {extrabuf bytes : Bytes}
    (fits : (Readv.received bytes).Fits b) (tight : ¬ Grows b (.received bytes)) (savedErrno : Int) :
    (readFromFd64 b extrabuf savedErrno (.received bytes)).result = .error .lengthError := by
  have order := h.inside
  simp only [Grows, not_forall, Nat.not_le] at tight
  obtain ⟨short,large⟩ := tight
  have small := overflowFits fits
  have below := lengthFits inside fits
  have n := receivedWord below
  have overflows : b.writableBytes < bytes.length := by omega
  obtain ⟨size,full⟩ := overflown h overflows
  have len := @sizeTExact (bytes.length - b.writableBytes) (bytes.length - b.writableBytes) (by omega) (by omega)
  unfold readFromFd64
  rw [bindOk (writableExact h.inside inside).comes]
  simp only [n]
  rw [if_neg (by omega), bindOk len.comes]
  refine bindError (appendThrows full (by rw [size]; exact inside) ?_ ?_)
  · simp only [prependableBytes, writableBytes, Nat.sub_self]
    exact short
  · simp only [size]
    simp only [maxSize, CodecMemory.extraSize] at inside small large ⊢
    omega

end Exactness

/- A read on Linux is as it should be when readv does not fail and, where the vector must grow,
its new size is one it can have; it is not otherwise. -/
theorem safeIff {b : Buffer} {extrabuf : Bytes} {savedErrno : Int} {r : Readv} (h : b.Valid)
    (inside : b.buf.length ≤ maxSize) (stack_ : extrabuf.length = CodecMemory.extraSize) (fits : r.Fits b) :
    Safe b r (readFromFd64 b extrabuf savedErrno r) ↔ (∃ bytes, r = .received bytes) ∧ Grows b r := by
  cases r with
  | received bytes =>
    constructor
    · rintro ⟨_,returned,done,_⟩
      refine ⟨⟨bytes,rfl⟩,?_⟩
      by_contra tight
      rw [receivedThrows h inside fits tight savedErrno] at done
      cases done
    · rintro ⟨_,grows⟩
      obtain ⟨done,within⟩ := receivedExact h inside stack_ fits grows savedErrno
      exact ⟨within,_,done,rfl,(readFromFdKeeps h bytes).2⟩
  | failed errno =>
    constructor
    · rintro ⟨_,returned,done,_⟩
      rw [failedResult h inside stack_ savedErrno errno] at done
      cases done
    · rintro ⟨⟨bytes,same⟩,_⟩
      cases same

theorem safeIffSplit :
    Safe (new 4) (.received [1,2,3,4,5,6])
      (readFromFd64 (new 4) (List.replicate CodecMemory.extraSize 0) 0 (.received [1,2,3,4,5,6])) := by
  refine (safeIff (newValid 4) (by decide) List.length_replicate (by decide)).mpr ⟨⟨_,rfl⟩,?_⟩
  exact fun _ => by decide

/- No input is waiting, and readv fails with EAGAIN: on an empty buffer resize throws, behind
one byte the copy leaves the stack buffer. -/
theorem failedUnsafe : ∃ extrabuf : Bytes, extrabuf.length = CodecMemory.extraSize ∧
    (new 4).Valid ∧ (new 4).buf.length ≤ maxSize ∧ (Readv.failed 11).Fits (new 4) ∧
    ¬ Safe (new 4) (.failed 11) (readFromFd64 (new 4) extrabuf 0 (.failed 11)) ∧
    (readFromFd64 (new 4) extrabuf 0 (.failed 11)).result = .error .lengthError ∧
    (readFromFd64 ((new 4).append [7]) extrabuf 0 (.failed 11)).result = .error .undefined := by
  have stack_ : (List.replicate CodecMemory.extraSize (0 : UInt8)).length = CodecMemory.extraSize := List.length_replicate
  have throws := failedResult (newValid 4) (by decide) stack_ 0 11
  refine ⟨_,stack_,newValid 4,by decide,trivial,?_,throws,?_⟩
  · rintro ⟨_,returned,done,_⟩
    rw [throws] at done
    cases done
  · exact failedResult (appendValid (newValid 4) [7]) (by decide) stack_ 0 11

end TcFrame.BufferRead
