import TcFrame.ConnectionSend

/-! Who sends. Every message is the data of one call of Send, and a step that is no such
call leaves the journal of the calls as it is. -/
namespace TcFrame.Connection

def sends : Action → Bool
  | .user (.send _) | .foreign _ (.send _) => true
  | _ => false

theorem silentExec {w : World} {f : Functor} (other : ∀ m, f ≠ .sendInLoop m) :
    (exec w f).sent = w.sent ∧ (exec w f).passed = w.passed := by
  obtain ⟨sent,_,_,passed⟩ := execLogs w f
  refine ⟨sent,passed.resolve_right ?_⟩
  rintro ⟨m,same,_⟩
  exact other m same

theorem silentRequest (w : World) (t : ThreadId) {call : UserCall} (other : ∀ data, call ≠ .send data) :
    (request w t call).1.sent = w.sent ∧ (request w t call).1.passed = w.passed := by
  refine ⟨?_,(requestLogs w t call).2.1⟩
  cases call with
  | send data => exact absurd rfl (other data)
  | _ => rfl

theorem silentUser (w : World) {call : UserCall} (other : ∀ data, call ≠ .send data) :
    (runInline (request w loopThread call)).sent = w.sent ∧
      (runInline (request w loopThread call)).passed = w.passed := by
  obtain ⟨sent,passed⟩ := silentRequest w loopThread other
  unfold runInline
  split
  · exact ⟨sent,passed⟩
  · rename_i f handed
    have kind : ∀ m, f ≠ .sendInLoop m := by
      intro m same
      rw [same] at handed
      cases requestHanded handed with
      | send => exact other _ rfl
    obtain ⟨sent',passed'⟩ := silentExec (w := (request w loopThread call).1) kind
    exact ⟨sent'.trans sent,passed'.trans passed⟩

/- A step that is no call of Send; it passes a message only if one was on its way. -/
theorem silentLogs {w w' : World} {a : Action} (taken : step w a = some w') (silent : sends a = false) :
    w'.sent = w.sent ∧ ((∀ m, Functor.sendInLoop m ∉ w.queue) → w'.passed = w.passed) := by
  have quiet : w'.sent = w.sent ∧ w'.passed = w.passed →
      w'.sent = w.sent ∧ ((∀ m, Functor.sendInLoop m ∉ w.queue) → w'.passed = w.passed) :=
    fun h => ⟨h.1,fun _ => h.2⟩
  cases stepCases taken with
  | establish idle fresh => exact quiet (silentExec (by simp))
  | destroy idle => exact quiet (silentExec (by simp))
  | @runQueued f rest idle head fresh =>
    refine ⟨(execLogs { w with queue := rest } f).1,fun none_ => ?_⟩
    have kind : ∀ m, f ≠ .sendInLoop m := fun m same => none_ m (by rw [head, same]; exact List.mem_cons_self)
    exact (silentExec (w := { w with queue := rest }) kind).2
  | @user call runs =>
    refine quiet (silentUser w (fun data same => ?_))
    rw [same] at silent
    cases silent
  | @foreign t call other free =>
    refine quiet (silentRequest w t (fun data same => ?_))
    rw [same] at silent
    cases silent
  | environment done =>
    obtain ⟨poller,isOpen,same,_⟩ := environmentCases done
    subst same
    exact quiet ⟨rfl,rfl⟩
  | _ => exact quiet ⟨rfl,rfl⟩

theorem userSent (w : World) (data : Bytes) :
    (runInline (request w loopThread (.send data))).sent = w.sent ++ [⟨loopThread,w.sent.length,data⟩] := by
  simp only [runInline]
  split
  · rfl
  · exact (execLogs _ _).1

theorem sentBy {w w' : World} {t : ThreadId} {data : Bytes} (taken : step w (callBy t (.send data)) = some w') :
    w'.sent = w.sent ++ [⟨t,w.sent.length,data⟩] := by
  unfold callBy at taken
  split at taken
  · rename_i own
    rw [own]
    cases stepCases taken with
    | user runs => exact userSent w data
  · cases stepCases taken with
    | foreign other free => rfl

end TcFrame.Connection
