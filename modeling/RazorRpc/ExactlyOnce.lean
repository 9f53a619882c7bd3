import RazorRpc.ConnInv
import Mathlib.Data.List.Nodup

/-!
# Every registered task is completed exactly once

There is one way to lose a task. `ReceiverTimerFuture::poll` gives the receive
future up when it finds `has_err` set, wherever that future is; in the middle of
a response it holds the task it took. `Safe` rules that out, and then the
invariant of the system gives the result (`completed_once`).
-/

namespace RazorRpc

namespace Sys

variable {B : Type} [ClientTask B]

/-- The receiver is about to look at `has_err`. -/
def isChecking (s : Sys B) : Bool :=
  match s.receiver with
  | .future .checking _ => true
  | _ => false

/-- The steps that lose nothing: the receive future is not given up while it
holds a task, and the counter of sequence numbers does not wrap. -/
def Safe (s : Sys B) (_ : Label B) : Prop :=
  (s.isChecking = true → s.conn.hasErr = true → s.conn.recv.held.isNone = true) ∧
    s.conn.seq.toNat + 1 < 2 ^ 64

instance (s : Sys B) (l : Label B) : Decidable (Safe s l) := inferInstanceAs (Decidable (_ ∧ _))

/-- Tasks are dropped by a panic only. -/
def NoneDropped (s : Sys B) : Prop := s.conn.dropped ≠ [] → s.receiver = .panicked

variable {cfg : ConnConfig} {s s' : Sys B}

/-- A step of the receive loop that does not give up a task drops none. -/
theorem NoneDropped.receiver_step (hnone : s.NoneDropped) {tick : Bool}
    {arrival : Arrival} (hsafe : Safe s (.receiver tick arrival))
    (h : next cfg s (.receiver tick arrival) = some s') : s'.NoneDropped := by
  obtain ⟨⟨c, p⟩, hstep, rfl⟩ := Option.map_eq_some_iff.mp h
  obtain ⟨conn, sender, receiver, innerDropped⟩ := s
  -- a receiver that goes on has not panicked
  have hnil : receiver ≠ .panicked → conn.dropped = [] := fun hne => by
    by_contra hdropped
    exact hne (hnone hdropped)
  cases stepReceiver_cases hstep with
  | stage p _ => exact fun h => absurd (hnil nofun) h
  | tick p => exact fun h => absurd (hnil nofun) h
  | giveUp p herr =>
    refine fun h => absurd ?_ h
    have hheld : conn.recv.held = none := Option.isNone_iff_eq_none.mp (hsafe.1 rfl herr)
    change conn.dropped ++ conn.recv.held.toList = []
    rw [hheld, hnil nofun]
    rfl
  | pull p => exact fun h => absurd (hnil nofun) h
  | again => exact fun h => absurd (hnil nofun) h
  | fail e => exact fun h => absurd (hnil nofun) h
  | panic k => exact fun _ => rfl
  | op hexec | wait hexec =>
    have hframe := RecvOp.exec_frame hexec
    exact fun h => absurd (hframe.2.2.trans (hnil nofun)) h
  | close => exact fun h => absurd (hnil nofun) h
  | clean => exact fun h => absurd (hnil nofun) h
  | drain => exact fun h => absurd (hnil nofun) h
  | leave => exact fun h => absurd (hnil nofun) h
  | wake => exact fun h => absurd (hnil nofun) h

theorem NoneDropped.step (hnone : s.NoneDropped) {l : Label B} (hsafe : Safe s l)
    (h : next cfg s l = some s') : s'.NoneDropped := by
  cases l with
  | receiver tick arrival => exact hnone.receiver_step hsafe h
  | call call =>
    obtain ⟨conn, sender, receiver, innerDropped⟩ := s
    cases sender with
    | idle =>
      cases h
      cases call <;> exact hnone
    | running dropping p => cases h
    | gone => cases h
  | sender ok =>
    obtain ⟨⟨c, p⟩, hstep, rfl⟩ := Option.map_eq_some_iff.mp h
    obtain ⟨conn, sender, receiver, innerDropped⟩ := s
    cases stepSender_cases hstep with
    | finish dropping r => exact hnone
    | op dropping hexec =>
      rw [NoneDropped, (SendOp.exec_frame hexec).2]
      exact hnone
  | dropInner =>
    simp only [next] at h
    split at h
    · cases h
      exact hnone
    · cases h

theorem inv_of_safe (h : Lts.Reach (next cfg) Safe (init cfg) s) : s.Inv ∧ s.NoneDropped := by
  refine h.invariant (I := fun s => s.Inv ∧ s.NoneDropped)
    ⟨inv_init cfg, fun h => absurd rfl h⟩ fun s l s' hinv hsafe hnext => ?_
  exact ⟨hinv.1.step hsafe.2 hnext, hinv.2.step hsafe hnext⟩

/-- The connection is over: the receive loop returned and the shared state was
dropped. -/
def Over (s : Sys B) : Prop := s.receiver.isReturned = true ∧ s.innerDropped = true

instance (s : Sys B) : Decidable s.Over := inferInstanceAs (Decidable (_ ∧ _))

/-- **Exactly-once completion.** In every run that never gives up a receive
future holding a task (and does not exhaust the sequence numbers), once the
connection is over every registered task has been completed, exactly once and
properly, and none was dropped. -/
theorem completed_once (h : Lts.Reach (next cfg) Safe (init cfg) s) (hover : s.Over) :
    (∀ t ∈ s.conn.registered, (s.conn.completed.map Completion.id).count t.id = 1) ∧
      (∀ d ∈ s.conn.completed, d.Proper) ∧ s.conn.dropped = [] := by
  obtain ⟨inv, hnone⟩ := inv_of_safe h
  have hret := Receiver.eq_returned hover.1
  have hnil := (inv.inner hover.2).2.2
  have hheld : s.conn.recv.held = none := by
    have := inv.receiver
    rw [hret] at this
    exact this
  have hdropped : s.conn.dropped = [] := by
    by_contra hne
    have := hnone hne
    rw [hret] at this
    cases this
  have hplaced : s.conn.placed = s.conn.completed.map Completion.id := by
    simp [Conn.placed, hnil, hheld, hdropped]
  refine ⟨fun t ht => ?_, inv.conn.proper, hdropped⟩
  have hmem := inv.conn.registered t ht
  have hnodup := (List.nodup_append.mp inv.conn.nodup).2.1
  rw [hplaced] at hmem hnodup
  exact List.count_eq_one_of_mem hnodup hmem

/-! ### Two runs -/

/-- A task is sent, and the header of its response arrives: the receiver has
taken the task and waits for the message. -/
def midResponse : List (Label APIClientReq) :=
  .call (.sendTask ⟨0, 0, .new "calc.add" [1]⟩ false) :: (sends 11 ++ receives 5 ++
    .receiver false (.bytes (RespHead.new 0 1 2 0).toBytes) :: receives 2)

/-- The rest of the response arrives, then the client is dropped. -/
def orderlyEnd : List (Label APIClientReq) :=
  receives 4 ++ .receiver false (.bytes [146, 1]) :: (receives 4 ++
    .call .drop :: (sends 4 ++ receives 9 ++ [.dropInner]))

/-- The connection is declared broken in the middle of the response. -/
def errorMidResponse : List (Label APIClientReq) :=
  .call .setErrorAndExit :: (sends 4 ++ receives 6 ++ .call .drop :: (sends 4 ++ [.dropInner]))

/-- An orderly run: the task is completed once. -/
theorem completed_once_orderly :
    ∃ s : Sys APIClientReq, Lts.Reach (next apiConfig) Safe (init apiConfig) s ∧ s.Over ∧
      ∃ t ∈ s.conn.registered, (s.conn.completed.map Completion.id).count t.id = 1 := by
  have hrun : (Lts.exec (next apiConfig) Safe (init apiConfig) (midResponse ++ orderlyEnd)).any
      (fun s => decide (s.Over ∧ s.conn.registered.length = 1)) = true := by decide +kernel
  obtain ⟨s, hreach, htest⟩ := Lts.Reach.exists_of_exec hrun
  obtain ⟨hover, hlen⟩ := of_decide_eq_true htest
  obtain ⟨t, ht⟩ := List.exists_mem_of_length_pos (hlen ▸ Nat.one_pos)
  exact ⟨s, hreach, hover, t, ht, (completed_once hreach hover).1 t ht⟩

/-- A run that loses its task: `set_error_and_exit` between the header of a
response and its message. -/
theorem dropped_mid_response :
    ∃ s : Sys APIClientReq, Lts.Reach (next apiConfig) (fun _ _ => True) (init apiConfig) s ∧ s.Over ∧
      ∃ t ∈ s.conn.registered, (s.conn.completed.map Completion.id).count t.id = 0 := by
  have hrun : (Lts.exec (next apiConfig) (fun _ _ => True) (init apiConfig)
      (midResponse ++ errorMidResponse)).any (fun s => decide (s.Over ∧
        ∃ t ∈ s.conn.registered, (s.conn.completed.map Completion.id).count t.id = 0)) = true := by
    decide +kernel
  obtain ⟨s, hreach, htest⟩ := Lts.Reach.exists_of_exec hrun
  obtain ⟨hover, hlost⟩ := of_decide_eq_true htest
  exact ⟨s, hreach, hover, hlost⟩

end Sys

end RazorRpc
