import TcFrame.BufferQueue

/-! The size of the vector. Retrieve never moves the indices back, so the dead bytes in front
drift through the vector; MakeSpace grows it only when these and the writable ones are too
few together. -/
namespace TcFrame.Buffer
open Machine

/- What an operation adds behind the readable bytes beyond what a read finds writable: the
length that its Append asks for. -/
def appended (b : Buffer) : Op → Nat
  | .append data => data.length
  | .appendInt32 _ => 4
  | .readFromFd received => received.length - b.writableBytes
  | _ => 0

/- EnsureWritableBytes reserves room for bytes that may never come. -/
def reserves : Op → Bool
  | .ensureWritableBytes _ => true
  | _ => false

/- An operation whose Append asks for at most `L` bytes and that leaves at most `R` readable. -/
def Within (R L : Nat) (b : Buffer) (op : Op) : Prop :=
  Asserted b op ∧ reserves op = false ∧ appended b op ≤ L ∧ ∀ b' ∈ after b op, b'.readableBytes ≤ R

instance (R L : Nat) (b : Buffer) (op : Op) : Decidable (Within R L b op) := by unfold Within; infer_instance

/- MakeSpace grows the vector only when the bytes in front and the writable ones are too few
together. -/
theorem ensureSize {b : Buffer} (h : b.Valid) (len : Nat) :
    (b.ensureWritableBytes len).buf.length = b.buf.length ∨
      b.readIdx + b.writableBytes < len ∧ (b.ensureWritableBytes len).buf.length = b.writeIdx + len := by
  have order := h.order
  have inside := h.inside
  unfold ensureWritableBytes makeSpace
  split
  · exact .inl rfl
  · split
    · have size := readableLength h
      refine .inl (overwriteLength _ _ _ ?_)
      simp only [readableBytes] at size
      omega
    · rename_i short
      simp only [prependableBytes] at short
      exact .inr ⟨by omega,resizeLength _ _⟩

theorem appendSize {b : Buffer} (h : b.Valid) (data : Bytes) :
    (b.append data).buf.length = (b.ensureWritableBytes data.length).buf.length := by
  obtain ⟨valid,_,room⟩ := ensureWritableBytesKeeps h data.length
  have inside := valid.inside
  simp only [writableBytes] at room
  exact overwriteLength _ _ _ (by omega)

/- A grown vector is smaller than its readable bytes and the request together: the dead bytes
in front were fewer than the request. -/
theorem appendGrows {b : Buffer} (h : b.Valid) (data : Bytes) :
    (b.append data).buf.length = b.buf.length ∨
      (b.append data).buf.length < (b.append data).readableBytes + data.length := by
  rw [appendSize h data]
  rcases ensureSize h data.length with same | ⟨short,grown⟩
  · exact .inl same
  · refine .inr ?_
    have order := h.order
    have size := readableLength (appendValid h data)
    rw [appendReadable h, List.length_append, readableLength h, readableBytes] at size
    omega

theorem readGrows {b : Buffer} (h : b.Valid) (received : Bytes) :
    (b.readFromFd received).buf.length = b.buf.length ∨
      (b.readFromFd received).buf.length <
        (b.readFromFd received).readableBytes + (received.length - b.writableBytes) := by
  have inside := h.inside
  simp only [readFromFd]
  split
  · rename_i small
    simp only [writableBytes] at small
    exact .inl (overwriteLength _ _ _ (by omega))
  · rename_i large
    have taken : (received.take b.writableBytes).length = b.writableBytes := by
      rw [List.length_take]
      omega
    have full : b.writeIdx + (received.take b.writableBytes).length = b.buf.length := by
      rw [taken, writableBytes]
      omega
    have tail := written h (received.take b.writableBytes) (by omega)
    simp only [full] at tail
    have size := overwriteLength b.buf b.writeIdx (received.take b.writableBytes) (by omega)
    have grows := appendGrows tail.1 (received.drop b.writableBytes)
    rwa [List.length_drop, size] at grows

theorem prependSize {b b' : Buffer} (h : b.Valid) {data : Bytes} (taken : b.checkedPrepend data = some b') :
    b'.buf.length = b.buf.length := by
  simp only [checkedPrepend, assert] at taken
  split at taken <;> cases taken
  rename_i asserted
  have order := h.order
  have inside := h.inside
  simp only [prependableBytes] at asserted
  exact overwriteLength _ _ _ (by omega)

theorem retrieveSize {b b' : Buffer} {len : Nat} (taken : b.checkedRetrieve len = some b') : b'.buf = b.buf := by
  simp only [checkedRetrieve, assert] at taken
  split at taken <;> cases taken
  rfl

theorem retrieveAsStringSize {b : Buffer} {len : Nat} {out : Bytes × Buffer}
    (taken : b.checkedRetrieveAsString len = some out) : out.2.buf = b.buf := by
  simp only [checkedRetrieveAsString, assert] at taken
  split at taken
  · obtain ⟨b',retrieved,made⟩ := Option.map_eq_some_iff.mp taken
    exact made ▸ retrieveSize retrieved
  · cases taken

theorem afterNothing {o : Option Buffer} : (o.map (fun b => ((none : Option Bytes),b))).map Prod.snd = o := by
  cases o <;> rfl

theorem afterString {o : Option (Bytes × Buffer)} :
    (o.map (fun out => (some out.1,out.2))).map Prod.snd = o.map Prod.snd := by
  cases o <;> rfl

/- What one operation does to the size. -/
theorem afterSize {b b' : Buffer} {op : Op} (h : b.Valid) (keeps : reserves op = false) (taken : after b op = some b') :
    b'.buf.length = b.buf.length ∨ b'.buf.length < b'.readableBytes + appended b op := by
  unfold after at taken
  cases op with
  | append data =>
    rw [perform, afterNothing, checkedAppendHolds h] at taken
    cases taken
    exact appendGrows h data
  | appendInt32 x =>
    rw [perform, afterNothing, checkedAppendInt32, checkedAppendHolds h] at taken
    cases taken
    exact appendGrows h _
  | prepend data =>
    rw [perform, afterNothing] at taken
    exact .inl (prependSize h taken)
  | retrieve len =>
    rw [perform, afterNothing] at taken
    exact .inl (congrArg List.length (retrieveSize taken))
  | retrieveUntil stop =>
    rw [perform, afterNothing, checkedRetrieveUntil, assert] at taken
    split at taken
    · exact .inl (congrArg List.length (retrieveSize taken))
    · cases taken
  | retrieveAsString len =>
    rw [perform, afterString] at taken
    obtain ⟨out,retrieved,made⟩ := Option.map_eq_some_iff.mp taken
    exact .inl (congrArg List.length (made ▸ retrieveAsStringSize retrieved))
  | retrieveAll =>
    cases taken
    exact .inl rfl
  | retrieveAllAsString =>
    rw [perform, afterString] at taken
    obtain ⟨out,retrieved,made⟩ := Option.map_eq_some_iff.mp taken
    exact .inl (congrArg List.length (made ▸ retrieveAsStringSize retrieved))
  | ensureWritableBytes len => cases keeps
  | hasWritten len =>
    rw [perform, afterNothing, checkedHasWritten, assert] at taken
    split at taken <;> cases taken
    exact .inl rfl
  | readFromFd received =>
    rw [perform, afterNothing, checkedReadHolds h] at taken
    cases taken
    exact readGrows h received
  | writeToFd n =>
    rw [perform, afterNothing, checkedWriteToFd] at taken
    split at taken
    · cases taken
      exact .inl rfl
    · split at taken
      · exact .inl (congrArg List.length (retrieveSize taken))
      · cases taken
        exact .inl rfl

theorem afterDone {b : Buffer} {op : Op} (h : b.Valid) (asserted : Asserted b op) :
    ∃ b', after b op = some b' ∧ b'.Valid := by
  obtain ⟨result,b',done,valid,_⟩ := performDone h asserted
  exact ⟨b',by rw [after, done]; rfl,valid⟩

theorem withinSize {initialSize R L : Nat} {ops : List Op} {b : Buffer} (h : b.Valid)
    (size : b.buf.length ≤ max initialSize (R + L)) (within : Throughout after (Within R L) b ops) :
    ∃ b', run after b ops = some b' ∧ b'.buf.length ≤ max initialSize (R + L) := by
  induction ops generalizing b with
  | nil => exact ⟨b,rfl,size⟩
  | cons op ops ih =>
    obtain ⟨asserted,keeps,short,readable⟩ := within.1
    obtain ⟨m,taken,valid⟩ := afterDone h asserted
    have left := readable m taken
    have size' : m.buf.length ≤ max initialSize (R + L) := by
      rcases afterSize h keeps taken with same | grown <;> omega
    obtain ⟨b',reached,last⟩ := ih valid size' (within.2 m taken)
    exact ⟨b',runCons.mpr ⟨m,taken,reached⟩,last⟩

/- Any sequence of operations that leave at most `R` bytes readable and append at most `L` at
a time, the overflow of a read included: all of them return, and the vector stays within the
larger of its first size and `R + L`. -/
theorem sizeWithin {initialSize R L : Nat} {ops : List Op}
    (within : Throughout after (Within R L) (new initialSize) ops) :
    ∃ b, run after (new initialSize) ops = some b ∧ b.buf.length ≤ max initialSize (R + L) := by
  refine withinSize (newValid initialSize) ?_ within
  rw [new, List.length_replicate]
  exact Nat.le_max_left _ _

/- A read finds two dead bytes in front of the last one and grows the vector to one byte below
the bound; later the dead bytes are enough. -/
def drifting : List Op :=
  [.append [1,2,3],.retrieve 2,.readFromFd [4,5,6],.writeToFd 3,.append [7,8,9],.retrieve 1,.prepend [6]]

theorem sizeWithinDrifting : ∃ b, run after (new 2) drifting = some b ∧ b.buf.length ≤ max 2 (4 + 3) ∧
    b.buf.length = 6 := by
  have within : Throughout after (Within 4 3) (new 2) drifting := by decide
  obtain ⟨b,reached,bound⟩ := sizeWithin within
  have size : (run after (new 2) drifting).map (fun b => b.buf.length) = some 6 := by decide
  rw [reached] at size
  exact ⟨b,reached,bound,Option.some.inj size⟩

end TcFrame.Buffer
