import RazorRpc.ConnInv

/-!
# What the receiver waits for

A response can overtake the registration of its task, so `take_task` waits when
its number is greater than the last one registered (`WaitRegTaskFuture`). Pings
draw numbers from the same counter and are never registered; the response to a
ping reaches `take_task` all the same. `suspended_registering` says under which
conditions the receiver only ever waits for a registration that is under way.

* `ClientTaskTimer.Keeps` — what the receiver's operations on the registry
  preserve;
* `Conn.Numbered` — how the numbers drawn, written and registered relate;
* `Sys.Awaits` — the invariant of the system.
-/

namespace RazorRpc

open Prog ClientStream

/-! ## The registry -/

namespace ClientTaskTimer

variable {B : Type}

/-- The task is in the channel, or the receiver has come as far as its number. -/
def Covers (t : ClientTaskTimer B) (x : Task B) : Prop :=
  x ∈ t.pendingTasks ∨ x.key ≤ t.processedSeq

/-- What the receiver preserves of the registry. -/
structure Keeps (t t' : ClientTaskTimer B) : Prop where
  stopped : t'.regStoppedFlag = t.regStoppedFlag
  covers : ∀ x, t.Covers x → t'.Covers x

theorem Keeps.refl (t : ClientTaskTimer B) : Keeps t t := ⟨rfl, fun _ h => h⟩

/-- Nothing changes that matters here. -/
theorem Keeps.of_eq {t t' : ClientTaskTimer B} (hstopped : t'.regStoppedFlag = t.regStoppedFlag)
    (hpending : t'.pendingTasks = t.pendingTasks) (hseq : t'.processedSeq = t.processedSeq) :
    Keeps t t' := by
  refine ⟨hstopped, fun x hx => ?_⟩
  rw [Covers, hpending, hseq]
  exact hx

theorem regStoppedFlag_foldl (rest : List (Task B)) (t : ClientTaskTimer B) :
    (rest.foldl gotPendingTask t).regStoppedFlag = t.regStoppedFlag := by
  induction rest generalizing t with
  | nil => rfl
  | cons x rest ih => exact ih _

/-- Pulling only moves the number on. -/
theorem keeps_pullPending {hi : ℕ} {t : ClientTaskTimer B} (inv : Inv hi t) :
    Keeps t t.pullPending := by
  obtain ⟨inv', hlive⟩ := inv.pullPending
  -- what was in the channel has been pulled
  have hpulled : ∀ x ∈ t.pendingTasks, x.key ≤ t.pullPending.processedSeq := fun x hx => by
    refine inv'.pulled_le x ?_
    rw [← pulled_pullPending, hlive]
    exact List.mem_append_right _ hx
  refine ⟨regStoppedFlag_foldl _ _, fun x hx => Or.inr ?_⟩
  rcases hx with hx | hx
  · exact hpulled x hx
  · rcases hp : t.pendingTasks with _ | ⟨y, ys⟩
    · rw [pullPending, hp]
      exact hx
    · have hy : y ∈ t.pendingTasks := hp ▸ List.mem_cons_self
      have := inv.lt_pending y hy
      have := hpulled y hy
      omega

/-- Whatever the receiver does. -/
theorem Turn.keeps {hi : ℕ} {t t' : ClientTaskTimer B} (h : Turn t t') (inv : Inv hi t) :
    Keeps t t' := by
  cases h with
  | stay => exact Keeps.of_eq rfl rfl rfl
  | pull =>
    obtain ⟨hstopped, hcovers⟩ := keeps_pullPending inv
    exact ⟨hstopped, hcovers⟩

/-- Registration goes on, and the channel is empty before this number came. -/
structure Waits (t : ClientTaskTimer B) (seq : ℕ) : Prop where
  notStopped : t.regStoppedFlag = false
  pending : t.pendingTasks = []
  lt : t.processedSeq < seq

/-- A pending wait has emptied the channel. -/
theorem waits_waitRegTaskPoll {t t' : ClientTaskTimer B} {seq : ℕ}
    (h : t.waitRegTaskPoll seq = (t', none)) : t'.Waits seq := by
  rw [waitRegTaskPoll] at h
  split at h
  · cases h
  · rename_i hlt
    split at h
    · cases h
    · rename_i hstop
      dsimp only [pollSentTask] at h
      split at h
      · cases h
      · rename_i hnot
        cases h
        refine ⟨(regStoppedFlag_foldl _ _).trans (Bool.eq_false_iff.mpr hstop),
          pendingTasks_pullPending t, ?_⟩
        rcases hp : t.pendingTasks with _ | ⟨y, ys⟩
        · rw [pullPending, hp]
          exact Nat.lt_of_not_le hlt
        · refine Nat.lt_of_not_le fun hle => hnot ⟨?_, hle⟩
          rw [hp]
          rfl

theorem waits_resumeTakeTask {t : ClientTaskTimer B} {seq : ℕ}
    (h : (t.resumeTakeTask seq).2 = none) : (t.resumeTakeTask seq).1.Waits seq := by
  rcases hr : t.waitRegTaskPoll seq with ⟨t', _ | _ | _⟩
  · rw [resumeTakeTask, hr]
    exact waits_waitRegTaskPoll hr
  · rw [resumeTakeTask, hr] at h
    cases h
  · rw [resumeTakeTask, hr] at h
    cases h

theorem waits_takeTask {t : ClientTaskTimer B} {seq : ℕ} (h : (t.takeTask seq).2 = none) :
    (t.takeTask seq).1.Waits seq := by
  by_cases hlt : seq < t.minDelaySeq
  · rw [takeTask, if_pos hlt] at h
    cases h
  · by_cases hseq : t.processedSeq < seq
    · rw [takeTask, if_neg hlt, if_pos hseq] at h ⊢
      exact waits_resumeTakeTask h
    · rw [takeTask, if_neg hlt, if_neg hseq] at h
      cases h

/-- While the receiver waits, no task has been registered from this number on. -/
theorem Waits.not_covers {t : ClientTaskTimer B} {seq : ℕ} (h : t.Waits seq) {x : Task B}
    (hle : seq ≤ x.key) : ¬ t.Covers x := by
  rintro (hx | hx)
  · rw [h.pending] at hx
    exact List.not_mem_nil hx
  · have := h.lt
    omega

end ClientTaskTimer

/-! ## Numbers -/

namespace Conn

variable {B : Type}

/-- A call is under way that drew `q` for its task, and has neither registered the
task nor stopped registration. -/
def Registering (c : Conn B) (q : UInt64) : Prop :=
  c.send.drawn = some q ∧ c.send.settled = false

/-- The task with this number was registered, or registration has stopped. -/
def Settled (c : Conn B) (q : UInt64) : Prop :=
  (∃ x ∈ c.registered, x.seq = q) ∨ c.timer.regStoppedFlag = true

/-- What the receiver asks for was sent; what it waits for is a task's. -/
def Asks (c : Conn B) : Asking → Prop
  | .nothing => True
  | .headed q => q ∈ c.wire
  | .waiting q => q ∈ c.wire ∧ q ∈ c.taskSeqs

theorem Asks.mono {c c' : Conn B} {a : Asking} (h : c.Asks a) (hwire : c.wire ⊆ c'.wire)
    (htaskSeqs : c.taskSeqs ⊆ c'.taskSeqs) : c'.Asks a := by
  cases a with
  | nothing => exact trivial
  | headed q => exact hwire h
  | waiting q => exact ⟨hwire h.1, htaskSeqs h.2⟩

/-- How the numbers drawn, written and registered relate. -/
structure Numbered (c : Conn B) : Prop where
  taskSeqs_lt : ∀ q ∈ c.taskSeqs, q.toNat < c.seq.toNat
  wire_lt : ∀ q ∈ c.wire, q.toNat < c.seq.toNat
  sent : ∀ q ∈ c.wire, q ∈ c.taskSeqs → c.Settled q ∨ c.Registering q
  wrote : ∀ q, c.send.drawn = some q → q ∈ c.wire → c.send.wrote = true
  settled : ∀ q, c.send.drawn = some q → c.send.settled = true → q ∈ c.taskSeqs → c.Settled q
  /-- before a number is drawn for a task, only a stop can settle the call -/
  undrawn : c.send.drawn = none → c.send.owned.isSome = true → c.send.settled = true →
    c.timer.regStoppedFlag = true
  covered : ∀ x ∈ c.registered, c.timer.Covers x
  asks : c.Asks c.recv.asking

namespace Numbered

variable {c c' : Conn B}

theorem new (cfg : ConnConfig) : (Conn.new cfg : Conn B).Numbered :=
  ⟨nofun, nofun, nofun, nofun, nofun, nofun, nofun, trivial⟩

/-- The receiver's side changes. -/
theorem receive (h : c.Numbered) (hkeeps : c.timer.Keeps c'.timer) (hseq : c'.seq = c.seq)
    (hsend : c'.send = c.send) (htaskSeqs : c'.taskSeqs = c.taskSeqs) (hwire : c'.wire = c.wire)
    (hreg : c'.registered = c.registered) (hasks : c.Asks c'.recv.asking) : c'.Numbered := by
  have hsettled : ∀ q, c.Settled q → c'.Settled q := fun q hq => by
    rw [Settled, hreg, hkeeps.stopped]
    exact hq
  refine ⟨?_, ?_, ?_, ?_, ?_, ?_, ?_, hasks.mono (hwire ▸ fun _ h => h) (htaskSeqs ▸ fun _ h => h)⟩
  · rw [htaskSeqs, hseq]
    exact h.taskSeqs_lt
  · rw [hwire, hseq]
    exact h.wire_lt
  · rw [hwire, htaskSeqs]
    intro q hq htask
    refine (h.sent q hq htask).imp (hsettled q) fun hreg => ?_
    rw [Registering, hsend]
    exact hreg
  · rw [hsend, hwire]
    exact h.wrote
  · rw [hsend, htaskSeqs]
    exact fun q hdrawn hset hq => hsettled q (h.settled q hdrawn hset hq)
  · rw [hsend, hkeeps.stopped]
    exact h.undrawn
  · rw [hreg]
    exact fun x hx => hkeeps.covers x (h.covered x hx)

/-- A call begins, or has ended. -/
theorem restart (h : c.Numbered) (hend : c.send.CanEnd) (owned : Option ℕ) (nextId : ℕ) :
    Numbered { c with send := .start owned, nextId } := by
  refine ⟨h.taskSeqs_lt, h.wire_lt, fun q hq htask => ?_, nofun, nofun, fun _ hsome hset => ?_,
    h.covered, h.asks⟩
  · refine (h.sent q hq htask).imp id fun hreg => ?_
    -- a number on the wire was settled before the call ended
    have := hend (h.wrote q hreg.1 hq)
    rw [hreg.2] at this
    cases this
  · change owned.isSome = true at hsome
    change owned.isNone = true at hset
    cases owned with
    | none => cases hsome
    | some _ => cases hset

/-- A number is drawn. -/
theorem seqUpdate (h : c.Numbered) (hseq : c.seq.toNat + 1 < 2 ^ 64)
    (hdrawn : c.send.drawn = none) :
    Numbered { c with
      seq := c.seq + 1
      taskSeqs := if c.send.owned.isSome then c.taskSeqs ++ [c.seq] else c.taskSeqs
      send := { c.send with drawn := some c.seq } } := by
  have hsucc : (c.seq + 1).toNat = c.seq.toNat + 1 := by
    rw [UInt64.toNat_add, UInt64.toNat_one, Nat.mod_eq_of_lt hseq]
  have htask : ∀ q ∈ (if c.send.owned.isSome then c.taskSeqs ++ [c.seq] else c.taskSeqs),
      q ∈ c.taskSeqs ∨ q = c.seq ∧ c.send.owned.isSome = true := fun q hq => by
    split at hq
    · rename_i hsome
      rcases List.mem_append.mp hq with hq | hq
      · exact Or.inl hq
      · exact Or.inr ⟨List.mem_singleton.mp hq, hsome⟩
    · exact Or.inl hq
  refine ⟨fun q hq => ?_, fun q hq => ?_, fun q hq hmem => ?_, fun q hq hwire => ?_,
    fun q hq hset hmem => ?_, nofun, h.covered, ?_⟩
  · change q.toNat < (c.seq + 1).toNat
    rcases htask q hq with hq | ⟨rfl, -⟩
    · have := h.taskSeqs_lt q hq
      omega
    · omega
  · change q.toNat < (c.seq + 1).toNat
    have := h.wire_lt q hq
    omega
  · rcases htask q hmem with hmem | ⟨rfl, -⟩
    · refine Or.inl ((h.sent q hq hmem).resolve_right fun hreg => ?_)
      cases hdrawn.symm.trans hreg.1
    · exact absurd (h.wire_lt _ hq) (Nat.lt_irrefl _)
  · obtain rfl := Option.some.inj hq
    exact absurd (h.wire_lt _ hwire) (Nat.lt_irrefl _)
  · obtain rfl := Option.some.inj hq
    rcases htask _ hmem with hmem | ⟨-, hsome⟩
    · exact absurd (h.taskSeqs_lt _ hmem) (Nat.lt_irrefl _)
    · exact Or.inr (h.undrawn hdrawn hsome hset)
  · refine h.asks.mono (fun _ h => h) fun q hq => ?_
    dsimp only
    split
    · exact List.mem_append_left _ hq
    · exact hq

/-- The request goes out under the number drawn. -/
theorem writeAll (h : c.Numbered) (hdrawn : ∀ q ∈ c.send.drawn, q.toNat < c.seq.toNat) :
    Numbered { c with
      wire := c.wire ++ c.send.drawn.toList, send := { c.send with wrote := true } } := by
  have hmem : ∀ q ∈ c.wire ++ c.send.drawn.toList, q ∈ c.wire ∨ c.send.drawn = some q :=
    fun q hq => (List.mem_append.mp hq).imp id fun hq => Option.mem_toList.mp hq
  refine ⟨h.taskSeqs_lt, fun q hq => ?_, fun q hq htask => ?_, fun _ _ _ => rfl, h.settled,
    h.undrawn, h.covered, h.asks.mono (List.subset_append_left _ _) fun _ h => h⟩
  · rcases hmem q hq with hq | hq
    · exact h.wire_lt q hq
    · exact hdrawn q hq
  · rcases hmem q hq with hq | hq
    · exact h.sent q hq htask
    · rcases hset : c.send.settled with _ | _
      · exact Or.inr ⟨hq, hset⟩
      · exact Or.inl (h.settled q hq hset htask)

/-- The task is registered. -/
theorem regTask (h : c.Numbered) {t : Task B} (hdrawn : c.send.drawn = some t.seq)
    {timer : ClientTaskTimer B} (hreg : c.timer.regTask t = some timer) :
    Numbered { c with
      timer, registered := c.registered ++ [t]
      send := { c.send with owned := none, settled := true } } := by
  obtain rfl := ClientTaskTimer.regTask_eq hreg
  have hmine : ∃ x ∈ c.registered ++ [t], x.seq = t.seq :=
    ⟨t, List.mem_append_right _ List.mem_cons_self, rfl⟩
  refine ⟨h.taskSeqs_lt, h.wire_lt, fun q hq htask => Or.inl ?_, h.wrote, fun q hq _ _ => ?_,
    fun _ hsome => absurd hsome Bool.false_ne_true, fun x hx => ?_, h.asks⟩
  · rcases h.sent q hq htask with (⟨x, hx, hseq⟩ | hstop) | hreg
    · exact Or.inl ⟨x, List.mem_append_left _ hx, hseq⟩
    · exact Or.inr hstop
    · obtain rfl := Option.some.inj (hdrawn.symm.trans hreg.1)
      exact Or.inl hmine
  · obtain rfl := Option.some.inj (hdrawn.symm.trans hq)
    exact Or.inl hmine
  · rcases List.mem_append.mp hx with hx | hx
    · exact (h.covered x hx).imp (List.mem_append_left _) id
    · exact Or.inl (List.mem_append_right _ hx)

theorem stopRegTask (h : c.Numbered) :
    Numbered { c with
      timer := c.timer.stopRegTask, send := { c.send with settled := true } } :=
  ⟨h.taskSeqs_lt, h.wire_lt, fun _ _ _ => Or.inl (Or.inr rfl), h.wrote,
    fun _ _ _ _ => Or.inr rfl, fun _ _ _ => rfl, h.covered, h.asks⟩

/-- The task is given up. -/
theorem reject (h : c.Numbered) (completed : List (Completion B)) :
    Numbered { c with completed, send := { c.send with owned := none } } :=
  ⟨h.taskSeqs_lt, h.wire_lt, h.sent, h.wrote, h.settled, nofun, h.covered, h.asks⟩

end Numbered

end Conn

/-! ## One operation -/

section Exec

variable {B : Type}

/-- The number in a header that arrives. -/
def Arrival.headSeq : Arrival → Option UInt64
  | .bytes bs =>
    match RespHead.decodeHead bs with
    | .ok head => some head.seq
    | .error _ => none
  | _ => none

/-- The number is a task's, or `take_task` has no need to wait for it. -/
def Conn.Expects (c : Conn B) (q : UInt64) : Prop :=
  q ∈ c.taskSeqs ∨ c.timer.regStoppedFlag = true ∨ ∃ x ∈ c.registered, q.toNat < x.key

instance (c : Conn B) (q : UInt64) : Decidable (c.Expects q) :=
  inferInstanceAs (Decidable (_ ∨ _ ∨ _))

/-- What the receiver's operations do to the numbers. -/
theorem RecvOp.exec_numbers {c : Conn B} {hi : ℕ} (inv : c.timer.Inv hi) {arrival : Arrival}
    {o : RecvOp B} {c' : Conn B} {a : Option o.Res} (h : RecvOp.exec arrival o c = (c', a)) :
    c.timer.Keeps c'.timer ∧ c'.seq = c.seq ∧ c'.taskSeqs = c.taskSeqs ∧ c'.wire = c.wire ∧
      c'.registered = c.registered := by
  refine ⟨(RecvOp.exec_turn h).keeps inv, ?_⟩
  obtain rfl : (RecvOp.exec arrival o c).1 = c' := congrArg Prod.fst h
  cases o with
  | readHead cancellable =>
    rw [RecvOp.exec_readHead]
    exact ⟨rfl, rfl, rfl, rfl⟩
  | readExact n =>
    rw [RecvOp.exec_readExact]
    exact ⟨rfl, rfl, rfl, rfl⟩
  | _ => exact ⟨rfl, rfl, rfl, rfl⟩

/-- A header that was read carries the number that arrived. -/
theorem RecvOp.asks_readHead {c c' : Conn B} {arrival : Arrival} {cancellable : Bool}
    {a : HeadRead} (hhead : ∀ q ∈ arrival.headSeq, q ∈ c.wire)
    (h : RecvOp.exec arrival (.readHead cancellable) c = (c', some a)) :
    c.Asks (.ofHead a) := by
  cases a with
  | closed => exact trivial
  | err => exact trivial
  | ok headBuf =>
    have hbytes : arrival = .bytes headBuf := by
      have hres := congrArg Prod.snd h
      cases arrival with
      | nothing =>
        simp only [RecvOp.exec] at hres
        split at hres <;> cases hres
      | error => cases hres
      | bytes bs =>
        simp only [RecvOp.exec] at hres
        split at hres
        · cases hres
          rfl
        · cases hres
    subst hbytes
    rw [Arrival.headSeq] at hhead
    rw [Asking.ofHead]
    rcases hdec : RespHead.decodeHead headBuf with e | head
    · exact trivial
    · rw [hdec] at hhead
      exact hhead _ rfl

variable [ClientTask B]

/-- The receiver's operations keep to what was sent, if the server answers what it
got and the response to a ping need not wait. -/
theorem RecvOp.numbered_exec {c : Conn B} (inv : c.Inv) (h : c.Numbered) {arrival : Arrival}
    {o : RecvOp B} (hok : receiving.ok c.recv o)
    (hhead : ∀ b, o = .readHead b → ∀ q ∈ arrival.headSeq, q ∈ c.wire)
    (htake : ∀ q, o = .takeTask q → c.Expects q) {c' : Conn B} {a : o.Res}
    (hexec : RecvOp.exec arrival o c = (c', some a)) :
    Conn.Numbered { c' with recv := receiving.next c.recv o a } := by
  obtain ⟨hi, hinv, -⟩ := inv.timer
  obtain ⟨hkeeps, hseq, htaskSeqs, hwire, hreg⟩ := RecvOp.exec_numbers hinv hexec
  refine h.receive hkeeps hseq (RecvOp.exec_frame hexec).1 htaskSeqs hwire hreg ?_
  cases o with
  | readHead cancellable => exact RecvOp.asks_readHead (hhead _ rfl) hexec
  | takeTask q =>
    rcases a with _ | found
    · -- the wait began: the channel is empty and registration goes on
      have hnone : (c.timer.takeTask q.toNat).2 = none := Option.some.inj (congrArg Prod.snd hexec)
      have hwaits := ClientTaskTimer.waits_takeTask hnone
      have hasks := h.asks
      rw [hok] at hasks
      refine ⟨hasks, (htake q rfl).resolve_right ?_⟩
      have htimer : (c.timer.takeTask q.toNat).1 = c'.timer := congrArg (·.1.timer) hexec
      rw [htimer] at hwaits
      rintro (hstop | ⟨x, hx, hlt⟩)
      · cases (hkeeps.stopped.symm.trans hwaits.notStopped).symm.trans hstop
      · exact hwaits.not_covers hlt.le (hkeeps.covers x (h.covered x hx))
    · exact trivial
  | resumeTakeTask q => exact trivial
  | loadClosed | storeClosed | loadHasErr | checkPendingTasksEmpty | readExact _ | done _
  | errorHandle _ | dropItem | panic => exact h.asks

/-- So do those of the sender. -/
theorem SendOp.numbered_exec {c : Conn B} (inv : c.Inv) (h : c.Numbered)
    (hseq : c.seq.toNat + 1 < 2 ^ 64) {ok : Bool} {o : SendOp B} (hok : sending.ok c.send o)
    {c' : Conn B} {a : o.Res} (hexec : SendOp.exec ok o c = (c', some a)) :
    Conn.Numbered { c' with send := sending.next c.send o a } := by
  cases o with
  | nearlyFull | loadClosed | loadBuf | flush | shutdownWrite =>
    cases hexec
    exact h
  | storeClosed | storeHasErr | storeBuf buf | addTask | dropCloseTx | pendingAdd | pendingSub =>
    cases hexec
    exact h.receive (.of_eq rfl rfl rfl) rfl rfl rfl rfl rfl h.asks
  | seqUpdate =>
    cases hexec
    exact h.seqUpdate hseq hok
  | writeAll bytes =>
    cases hexec
    obtain ⟨hi, -, -, hdrawn⟩ := inv.timer
    exact h.writeAll fun q hq => (hdrawn q hq).1
  | regTask t =>
    obtain ⟨timer, hreg, rfl⟩ := SendOp.exec_regTask hexec
    exact h.regTask hok.2 hreg
  | throttle =>
    obtain rfl := SendOp.exec_throttle hexec
    exact h
  | stopRegTask =>
    cases hexec
    exact h.stopRegTask
  | errorHandle t =>
    cases hexec
    exact h.reject _

/-- While the channel is empty, the sender's operations leave a registration under
way, except the one that stops it. -/
theorem SendOp.registering_exec {c : Conn B} {ok : Bool} {o : SendOp B}
    (hok : sending.ok c.send o) (hstop : o ≠ .stopRegTask) {c' : Conn B} {a : o.Res}
    (hexec : SendOp.exec ok o c = (c', some a)) (hnil : c'.timer.pendingTasks = []) :
    c.timer.pendingTasks = [] ∧ c'.timer.processedSeq = c.timer.processedSeq ∧
      ∀ q, c.Registering q → Conn.Registering { c' with send := sending.next c.send o a } q := by
  cases o with
  | stopRegTask => exact absurd rfl hstop
  | seqUpdate =>
    cases hexec
    exact ⟨hnil, rfl, fun q hq => nomatch hok.symm.trans hq.1⟩
  | regTask t =>
    obtain ⟨timer, hreg, rfl⟩ := SendOp.exec_regTask hexec
    obtain rfl := ClientTaskTimer.regTask_eq hreg
    exact absurd hnil (List.append_ne_nil_of_right_ne_nil _ (List.cons_ne_nil t []))
  | throttle =>
    obtain rfl := SendOp.exec_throttle hexec
    exact ⟨hnil, rfl, fun _ hq => hq⟩
  | nearlyFull | loadClosed | loadBuf | flush | shutdownWrite | storeClosed | storeHasErr
  | storeBuf _ | addTask | dropCloseTx | pendingAdd | pendingSub | writeAll _ | errorHandle _ =>
    cases hexec
    exact ⟨hnil, rfl, fun _ hq => hq⟩

end Exec

/-! ## The system -/

/-- The number the receive future is suspended for. -/
def Receiver.waitsFor {B : Type} : Receiver B → Option UInt64
  | .future .suspended (.act (.resumeTakeTask q) _) => some q
  | _ => none

theorem Receiver.waitsFor_eq_some {B : Type} {r : Receiver B} {q : UInt64}
    (h : r.waitsFor = some q) : ∃ k, r = .future .suspended (.act (.resumeTakeTask q) k) := by
  unfold Receiver.waitsFor at h
  split at h
  · cases h
    exact ⟨_, rfl⟩
  · cases h

theorem Receiver.waitsFor_of_ne {B : Type} {stage : Stage} (h : stage ≠ .suspended)
    (p : Recv B (Option RpcIntErr)) : (Receiver.future stage p).waitsFor = none := by
  cases stage with
  | suspended => exact absurd rfl h
  | ticking | checking | pulling | polling => rfl

theorem Receiver.waitsFor_of_isOver {B : Type} {r : Receiver B} (h : r.isOver = true) :
    r.waitsFor = none := by
  cases r <;> first | rfl | cases h

namespace Sys

variable {B : Type}

/-- The number the receiver is suspended for in `WaitRegTaskFuture`. A task in the
channel has woken it. -/
def suspendedFor (s : Sys B) : Option UInt64 :=
  if s.conn.timer.pendingTasks.isEmpty then s.receiver.waitsFor else none

theorem suspendedFor_eq_some {s : Sys B} {q : UInt64} :
    s.suspendedFor = some q ↔ s.conn.timer.pendingTasks = [] ∧ s.receiver.waitsFor = some q := by
  rw [suspendedFor, ← List.isEmpty_iff]
  split
  · rename_i hnil
    exact ⟨fun h => ⟨hnil, h⟩, And.right⟩
  · rename_i hnil
    exact ⟨nofun, fun h => absurd h.1 hnil⟩

/-- The server answers only the numbers it received. -/
def honest (s : Sys B) : Label B → Bool
  | .receiver _ arrival =>
    match s.receiver with
    | .future .polling (.act (.readHead _) _) =>
      arrival.headSeq.all fun q => decide (q ∈ s.conn.wire)
    | _ => true
  | _ => true

/-- `take_task` is asked for a ping's number only after the registration of a
greater one, or after the stop; and `stop_reg_task` does not come while the
receiver is suspended. -/
def prompt (s : Sys B) : Label B → Bool
  | .receiver _ _ =>
    match s.receiver with
    | .future .polling (.act (.takeTask q) _) => decide (s.conn.Expects q)
    | _ => true
  | .sender _ =>
    match s.sender with
    | .running _ (.act .stopRegTask _) => s.suspendedFor.isNone
    | _ => true
  | _ => true

variable [ClientTask B]

/-- The steps in which every registration waited for comes. -/
def Timely (s : Sys B) (l : Label B) : Prop :=
  s.honest l = true ∧ s.prompt l = true ∧ s.conn.seq.toNat + 1 < 2 ^ 64

instance (s : Sys B) (l : Label B) : Decidable (Timely s l) :=
  inferInstanceAs (Decidable (_ ∧ _ ∧ _))

/-- What the receiver waits for is under way. -/
structure Awaits (s : Sys B) : Prop where
  inv : s.Inv
  numbered : s.conn.Numbered
  waits : ∀ q, s.suspendedFor = some q →
    s.conn.Registering q ∧ s.conn.timer.processedSeq < q.toNat

theorem awaits_init (cfg : ConnConfig) : (init cfg : Sys B).Awaits :=
  ⟨inv_init cfg, .new cfg, nofun⟩

variable {cfg : ConnConfig} {s s' : Sys B}

/-- A receiver that is not suspended waits for nothing. -/
theorem Awaits.of_waitsFor (inv : s.Inv) (hnum : s.conn.Numbered)
    (h : s.receiver.waitsFor = none) : s.Awaits := by
  refine ⟨inv, hnum, fun q hq => ?_⟩
  cases h.symm.trans (suspendedFor_eq_some.mp hq).2

/-- What the receiver is suspended for was sent for a task. -/
theorem Awaits.asks (h : s.Awaits) {q : UInt64} (hq : s.suspendedFor = some q) :
    q ∈ s.conn.wire ∧ q ∈ s.conn.taskSeqs := by
  obtain ⟨k, hrecv⟩ := Receiver.waitsFor_eq_some (suspendedFor_eq_some.mp hq).2
  have hok := h.inv.receiver
  rw [hrecv] at hok
  have hasks := h.numbered.asks
  rw [show s.conn.recv = ⟨none, .waiting q⟩ from hok.1] at hasks
  exact hasks

theorem Awaits.call (h : s.Awaits) {call : Call B} (hnext : next cfg s (.call call) = some s') :
    s'.Awaits := by
  have hinv := h.inv.call hnext
  obtain ⟨conn, sender, receiver, innerDropped⟩ := s
  cases sender with
  | idle =>
    have hstart : conn.send = .start none := h.inv.sender
    cases hnext
    have hnum : (begin cfg conn call).1.Numbered := by
      cases call with
      | sendTask t needFlush => exact h.numbered.restart (hstart ▸ Bool.noConfusion) _ _
      | flushReq | ping | setErrorAndExit | drop => exact h.numbered
    have htimer : (begin cfg conn call).1.timer = conn.timer := by cases call <;> rfl
    refine ⟨hinv, hnum, fun q hq => ?_⟩
    -- between calls no registration is under way
    obtain ⟨hnil, hwaits⟩ := suspendedFor_eq_some.mp hq
    have hreg := (h.waits q (suspendedFor_eq_some.mpr ⟨htimer ▸ hnil, hwaits⟩)).1.1
    cases (hstart ▸ hreg : (SendPhase.start none).drawn = some q)
  | running dropping p => cases hnext
  | gone => cases hnext

theorem Awaits.sender_step (h : s.Awaits) {ok : Bool} (hok : Timely s (.sender ok))
    (hnext : next cfg s (.sender ok) = some s') : s'.Awaits := by
  obtain ⟨-, hprompt, hseq⟩ := hok
  have hinv := h.inv.sender_step hseq hnext
  obtain ⟨⟨c, p⟩, hstep, rfl⟩ := Option.map_eq_some_iff.mp hnext
  have hsender := h.inv.sender
  have hasks := @h.asks
  have hwaits := h.waits
  have hnum := h.numbered
  have hconn := h.inv.conn
  obtain ⟨conn, sender, receiver, innerDropped⟩ := s
  cases stepSender_cases hstep with
  | finish dropping r =>
    have hend : conn.send.CanEnd := hsender
    refine ⟨hinv, hnum.restart hend none _, fun q hq => ?_⟩
    have hq := suspendedFor_eq_some.mpr (suspendedFor_eq_some.mp hq)
    obtain ⟨⟨hdrawn, hset⟩, -⟩ := hwaits q hq
    -- the call has settled what it wrote
    have := hend (hnum.wrote q hdrawn (hasks hq).1)
    rw [hset] at this
    cases this
  | @op dropping o k c' a hexec =>
    refine ⟨hinv, SendOp.numbered_exec hconn hnum hseq hsender.1 hexec, fun q hq => ?_⟩
    obtain ⟨hnil, hfor⟩ := suspendedFor_eq_some.mp hq
    by_cases hstop : o = .stopRegTask
    · subst hstop
      cases hexec
      have hq := suspendedFor_eq_some.mpr ⟨hnil, hfor⟩
      cases (Option.isNone_iff_eq_none.mp hprompt).symm.trans hq
    · obtain ⟨hnil', hseq', hreg⟩ := SendOp.registering_exec hsender.1 hstop hexec hnil
      obtain ⟨hq, hlt⟩ := hwaits q (suspendedFor_eq_some.mpr ⟨hnil', hfor⟩)
      exact ⟨hreg q hq, hseq'.symm ▸ hlt⟩

theorem Awaits.receiver_step (h : s.Awaits) {tick : Bool} {arrival : Arrival}
    (hok : Timely s (.receiver tick arrival))
    (hnext : next cfg s (.receiver tick arrival) = some s') : s'.Awaits := by
  have hinv := h.inv.receiver_step hnext
  obtain ⟨⟨c, p⟩, hstep, rfl⟩ := Option.map_eq_some_iff.mp hnext
  have hnum := h.numbered
  have hconn := h.inv.conn
  have hreceiver := h.inv.receiver
  obtain ⟨hi, htimer, -⟩ := h.inv.conn.timer
  obtain ⟨hhonest, hprompt, -⟩ := hok
  obtain ⟨conn, sender, receiver, innerDropped⟩ := s
  cases stepReceiver_cases hstep with
  | stage p hstage =>
    exact .of_waitsFor hinv hnum (Receiver.waitsFor_of_ne hstage.2.2.1 p)
  | tick p =>
    have hkeeps := (ClientTaskTimer.turn_adjustTaskQueue conn.timer).keeps htimer
    exact .of_waitsFor hinv (hnum.receive hkeeps rfl rfl rfl rfl rfl hnum.asks) rfl
  | giveUp p _ => exact .of_waitsFor hinv (hnum.receive (.refl _) rfl rfl rfl rfl rfl trivial) rfl
  | pull p =>
    exact .of_waitsFor hinv (hnum.receive (ClientTaskTimer.keeps_pullPending htimer) rfl rfl rfl
      rfl rfl hnum.asks) rfl
  | again => exact .of_waitsFor hinv hnum rfl
  | fail e => exact .of_waitsFor hinv hnum rfl
  | panic k => exact .of_waitsFor hinv (hnum.receive (.refl _) rfl rfl rfl rfl rfl trivial) rfl
  | @op o k c' a hexec =>
    refine .of_waitsFor hinv (RecvOp.numbered_exec hconn hnum hreceiver.1 ?_ ?_ hexec) rfl
    · rintro b rfl q hq
      exact of_decide_eq_true ((Option.all_eq_true _ _).mp hhonest q hq)
    · rintro q rfl
      exact of_decide_eq_true hprompt
  | wait hexec =>
    obtain ⟨hkeeps, hseq, htaskSeqs, hwire, hreg⟩ := RecvOp.exec_numbers htimer hexec
    obtain ⟨hsend, hrecv, -⟩ := RecvOp.exec_frame hexec
    have hnum' : c.Numbered :=
      hnum.receive hkeeps hseq hsend htaskSeqs hwire hreg (hrecv.symm ▸ hnum.asks)
    refine ⟨hinv, hnum', fun q hq => ?_⟩
    obtain ⟨_, heq⟩ := Receiver.waitsFor_eq_some (suspendedFor_eq_some.mp hq).2
    cases heq
    have hnone : (conn.timer.resumeTakeTask q.toNat).2 = none := congrArg Prod.snd hexec
    have hwaits := ClientTaskTimer.waits_resumeTakeTask hnone
    rw [show (conn.timer.resumeTakeTask q.toNat).1 = c.timer from congrArg (·.1.timer) hexec]
      at hwaits
    have hasks := hnum'.asks
    rw [hrecv, show conn.recv = ⟨none, .waiting q⟩ from hreceiver.1] at hasks
    -- had the task been registered, or registration stopped, the wait would be over
    refine ⟨(hnum'.sent q hasks.1 hasks.2).resolve_left ?_, hwaits.lt⟩
    rintro (⟨x, hx, rfl⟩ | hstop)
    · exact hwaits.not_covers (Nat.le_refl _) (hnum'.covered x hx)
    · cases hwaits.notStopped.symm.trans hstop
  | close =>
    exact .of_waitsFor hinv (hnum.receive (.refl _) rfl rfl rfl rfl rfl hnum.asks) rfl
  | clean | drain =>
    have hkeeps := (ClientTaskTimer.turn_cleanPendingTasks conn.timer).keeps htimer
    exact .of_waitsFor hinv (hnum.receive hkeeps rfl rfl rfl rfl rfl hnum.asks) rfl
  | leave => exact .of_waitsFor hinv hnum rfl
  | wake => exact .of_waitsFor hinv hnum rfl

/-- Every step keeps the invariant. -/
theorem Awaits.step (h : s.Awaits) {l : Label B} (hok : Timely s l)
    (hnext : next cfg s l = some s') : s'.Awaits := by
  cases l with
  | call call => exact h.call hnext
  | sender ok => exact h.sender_step hok hnext
  | receiver tick arrival => exact h.receiver_step hok hnext
  | dropInner =>
    have hinv := h.inv.step hok.2.2 hnext
    obtain ⟨hi, htimer, -⟩ := h.inv.conn.timer
    simp only [next] at hnext
    split at hnext
    · rename_i hunused
      rw [innerUnused, Bool.and_eq_true, Bool.and_eq_true] at hunused
      have hover := hunused.1.2
      cases hnext
      have hkeeps := (ClientTaskTimer.turn_cleanPendingTasks s.conn.timer).keeps htimer
      exact .of_waitsFor hinv (h.numbered.receive hkeeps rfl rfl rfl rfl rfl h.numbered.asks)
        (Receiver.waitsFor_of_isOver hover)
    · cases hnext

/-- **No wait without a registration under way.** In every run in which the server
answers what it received, `take_task` never meets the number of a ping ahead of
every registration, and no failed write stops registration under a suspended
receiver, a receiver suspended in `WaitRegTaskFuture` waits for the number of a
task whose `send_request` has begun and has not finished `reg_task`. -/
theorem suspended_registering (h : Lts.Reach (next cfg) Timely (init cfg) s) {q : UInt64}
    (hq : s.suspendedFor = some q) :
    q ∈ s.conn.taskSeqs ∧ s.conn.Registering q ∧ ∀ t ∈ s.conn.registered, t.seq ≠ q := by
  have hinv : s.Awaits := h.invariant (awaits_init cfg) fun _ _ _ hinv hok => hinv.step hok
  obtain ⟨hreg, hlt⟩ := hinv.waits q hq
  refine ⟨(hinv.asks hq).2, hreg, ?_⟩
  rintro t ht rfl
  have hnil := (suspendedFor_eq_some.mp hq).1
  rcases hinv.numbered.covered t ht with hmem | hle
  · rw [hnil] at hmem
    exact List.not_mem_nil hmem
  · exact absurd hlt (Nat.not_lt_of_le hle)

/-! ### Two runs -/

/-- The receiver comes to read, a header arrives, and `take_task` is polled twice. -/
def headArrives (head : RespHead) : List (Label APIClientReq) :=
  receives 5 ++ .receiver false (.bytes head.toBytes) :: receives 2

/-- A response overtakes the registration of its task. -/
theorem suspended_registering_overtaken :
    ∃ s : Sys APIClientReq, Lts.Reach (next apiConfig) Timely (init apiConfig) s ∧
      s.suspendedFor = some 1 ∧ s.conn.Registering 1 := by
  have hrun : (Lts.exec (next apiConfig) Timely (init apiConfig)
      (.call (.sendTask ⟨0, 0, .new "calc.add" [1]⟩ false) ::
        (sends 7 ++ headArrives (.new 0 1 2 0)))).any
      (fun s => decide (s.suspendedFor = some 1)) = true := by decide +kernel
  obtain ⟨s, hreach, htest⟩ := Lts.Reach.exists_of_exec hrun
  have hq := of_decide_eq_true htest
  exact ⟨s, hreach, hq, (suspended_registering hreach hq).2.1⟩

/-- The response to a ping on an idle connection suspends the receiver, and no
task has drawn the number it waits for. -/
theorem suspended_for_ping :
    ∃ s : Sys APIClientReq,
      Lts.Reach (next apiConfig) (fun s l => s.honest l = true) (init apiConfig) s ∧
        s.suspendedFor = some 1 ∧ 1 ∉ s.conn.taskSeqs := by
  have hrun : (Lts.exec (next apiConfig) (fun s l => s.honest l = true) (init apiConfig)
      (.call .ping :: (sends 7 ++ headArrives (.new 0 1 0 0)))).any
      (fun s => decide (s.suspendedFor = some 1 ∧ 1 ∉ s.conn.taskSeqs)) = true := by
    decide +kernel
  obtain ⟨s, hreach, htest⟩ := Lts.Reach.exists_of_exec hrun
  exact ⟨s, hreach, of_decide_eq_true htest⟩

end Sys

end RazorRpc
