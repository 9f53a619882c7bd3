import RazorRpc.Conn
import RazorRpc.Registry

/-!
# Where the tasks of a connection are

A task travels: the sender owns it, the registry holds it, the receive future
takes it, and it ends in `done()` or `facts.error_handle`. `Conn.placed` lists
where the tasks given away are; the invariant says that no task is in two places
and that none leaves (`Conn.Inv`). Given the protocols of the two sides, each
operation only moves a task from one place to the next (`RecvOp.inv_exec`,
`SendOp.inv_exec`), and so does each step of the system (`Sys.Inv.step`).
-/

namespace RazorRpc

open Prog ClientStream

variable {B : Type} [ClientTask B]

/-! ## The shared state -/

/-- The tasks given away: in the registry, with the receive future, completed or
dropped. -/
def Conn.placed (c : Conn B) : List ℕ :=
  c.timer.live.map Task.id ++
    (c.recv.held.toList ++ (c.completed.map Completion.id ++ c.dropped))

/-- No task is in two places, and none is lost. -/
structure Conn.Inv (c : Conn B) : Prop where
  /-- numbers are registered in the order they are drawn -/
  timer : ∃ hi, c.timer.Inv hi ∧ hi < c.seq.toNat ∧
    ∀ q ∈ c.send.drawn, q.toNat < c.seq.toNat ∧ (c.send.owned.isSome → hi < q.toNat)
  nodup : (c.send.owned.toList ++ c.placed).Nodup
  fresh : ∀ i ∈ c.send.owned.toList ++ c.placed, i < c.nextId
  registered : ∀ x ∈ c.registered, x.id ∈ c.placed
  proper : ∀ d ∈ c.completed, d.Proper

namespace Conn.Inv

theorem new (cfg : ConnConfig) : (Conn.new cfg : Conn B).Inv := by
  have hseq : (Conn.new cfg : Conn B).seq.toNat = 1 := rfl
  refine ⟨⟨0, ClientTaskTimer.Inv.new _ _, by omega, nofun⟩, ?_, ?_, nofun, nofun⟩
  · exact List.nodup_nil
  · exact List.forall_mem_nil _

variable {c c' : Conn B}

/-- Tasks change places, and that is all. -/
theorem move (inv : c.Inv) (htimer : ∀ hi, c.timer.Inv hi → c'.timer.Inv hi)
    (hplaced : c'.placed.Perm c.placed) (hproper : ∀ d ∈ c'.completed, d.Proper)
    (hseq : c'.seq = c.seq) (howned : c'.send.owned = c.send.owned)
    (hdrawn : c'.send.drawn = c.send.drawn) (hnext : c'.nextId = c.nextId)
    (hreg : c'.registered = c.registered) : c'.Inv := by
  obtain ⟨hi, hinv, hlt, hd⟩ := inv.timer
  have hperm : (c'.send.owned.toList ++ c'.placed).Perm (c.send.owned.toList ++ c.placed) := by
    rw [howned]
    exact hplaced.append_left _
  refine ⟨⟨hi, htimer hi hinv, ?_, ?_⟩, hperm.nodup_iff.mpr inv.nodup, ?_, ?_, hproper⟩
  · rw [hseq]
    exact hlt
  · rw [hdrawn, hseq, howned]
    exact hd
  · rw [hnext]
    exact fun i hi => inv.fresh i (hperm.mem_iff.mp hi)
  · rw [hreg]
    exact fun x hx => hplaced.mem_iff.mpr (inv.registered x hx)

/-- Nothing changes that the invariant looks at, except the registry, and no task
leaves it. -/
theorem setTimer (inv : c.Inv)
    (htimer : ∀ hi, c.timer.Inv hi → c'.timer.Inv hi ∧ c'.timer.live = c.timer.live)
    (hheld : c'.recv.held = c.recv.held) (hcompleted : c'.completed = c.completed)
    (hdropped : c'.dropped = c.dropped) (hseq : c'.seq = c.seq)
    (howned : c'.send.owned = c.send.owned) (hdrawn : c'.send.drawn = c.send.drawn)
    (hnext : c'.nextId = c.nextId) (hreg : c'.registered = c.registered) : c'.Inv := by
  obtain ⟨hi, hinv, -⟩ := inv.timer
  refine inv.move (fun hi h => (htimer hi h).1) ?_ ?_ hseq howned hdrawn hnext hreg
  · rw [placed, placed, (htimer hi hinv).2, hheld, hcompleted, hdropped]
  · rw [hcompleted]
    exact inv.proper

/-- Nothing changes that the invariant looks at. -/
theorem same (inv : c.Inv) (htimer : c'.timer = c.timer) (hheld : c'.recv.held = c.recv.held)
    (hcompleted : c'.completed = c.completed) (hdropped : c'.dropped = c.dropped)
    (hseq : c'.seq = c.seq) (howned : c'.send.owned = c.send.owned)
    (hdrawn : c'.send.drawn = c.send.drawn) (hnext : c'.nextId = c.nextId)
    (hreg : c'.registered = c.registered) : c'.Inv := by
  refine inv.setTimer (fun _ h => ?_) hheld hcompleted hdropped hseq howned hdrawn hnext hreg
  rw [htimer]
  exact ⟨h, rfl⟩

/-- Tasks leave the registry, failed. -/
theorem failTasks (inv : c.Inv) {t : ClientTaskTimer B} {failed : List (Task B)} {e : RpcIntErr}
    (htimer : ∀ hi, c.timer.Inv hi → t.Inv hi ∧
      ∃ gone, c.timer.live.Perm (gone ++ t.live) ∧ failed.Perm (gone.map (·.setRpcError e)))
    (inflight : ℕ) :
    Conn.Inv { c with
      timer := t, completed := c.completed ++ failed.map .errorHandled, inflight } := by
  obtain ⟨hi, hinv, -⟩ := inv.timer
  obtain ⟨gone, hlive, hfailed⟩ := (htimer hi hinv).2
  refine inv.move (fun hi h => (htimer hi h).1) ?_ ?_ rfl rfl rfl rfl rfl
  · have hids : ((failed.map Completion.errorHandled).map Completion.id).Perm
        (gone.map Task.id) := by
      rw [List.map_map]
      refine (hfailed.map _).trans ?_
      rw [List.map_map]
      exact List.Perm.refl _
    rw [List.perm_iff_count]
    intro i
    have h₁ := (hlive.map Task.id).count_eq i
    have h₂ := hids.count_eq i
    simp only [placed, List.map_append, List.count_append] at h₁ h₂ ⊢
    omega
  · intro d hd
    rcases List.mem_append.mp hd with hd | hd
    · exact inv.proper d hd
    · obtain ⟨t', ht', rfl⟩ := List.mem_map.mp hd
      obtain ⟨t'', -, rfl⟩ := List.mem_map.mp (hfailed.mem_iff.mp ht')
      exact proper_setRpcError t'' e

theorem timeReach (inv : c.Inv) : c.timeReach.Inv := by
  refine inv.failTasks (e := .timeout) (fun hi h => ?_) _
  obtain ⟨hinv, late, hlive, hfailed⟩ := h.adjustTaskQueue
  exact ⟨hinv, late, hlive ▸ List.Perm.refl _, hfailed ▸ List.Perm.refl _⟩

theorem clean (inv : c.Inv) : c.clean.Inv ∧ c.clean.timer.live = [] := by
  obtain ⟨hi, hinv, -⟩ := inv.timer
  refine ⟨inv.failTasks (t := c.timer.cleanPendingTasks.1) (e := .io) (fun hi h => ?_) _,
    hinv.cleanPendingTasks.2.1⟩
  obtain ⟨hinv, hnil, hfailed⟩ := h.cleanPendingTasks
  refine ⟨hinv, c.timer.live, ?_, hfailed⟩
  rw [hnil, List.append_nil]

/-- The future is dropped: what it held is dropped too. -/
theorem dropFuture (inv : c.Inv) : c.dropFuture.Inv := by
  refine inv.move (fun _ h => h) ?_ inv.proper rfl rfl rfl rfl rfl
  rw [List.perm_iff_count]
  intro i
  simp only [placed, Conn.dropFuture, Option.toList_none, List.count_append, List.count_nil]
  omega

/-- A task is taken out of the registry. -/
theorem take (inv : c.Inv) (hheld : c.recv.held = none) {seq : ℕ} {t : ClientTaskTimer B}
    {r : Option (Option (Task B))}
    (htimer : ∀ hi, c.timer.Inv hi → t.Inv hi ∧ ClientTaskTimer.Takes seq c.timer (t, r))
    (item : Bool) (inflight : ℕ) {recv : RecvPhase} (hrecv : recv.held = r.join.map Task.id) :
    Conn.Inv { c with timer := t, item, inflight, recv } := by
  obtain ⟨hi, hinv, -⟩ := inv.timer
  have htakes := (htimer hi hinv).2
  refine inv.move (fun hi h => (htimer hi h).1) ?_ inv.proper rfl rfl rfl rfl rfl
  rcases r with _ | _ | x
  · rw [placed, placed, hheld, hrecv, show t.live = c.timer.live from htakes]
    rfl
  · rw [placed, placed, hheld, hrecv, show t.live = c.timer.live from htakes]
    rfl
  · rw [List.perm_iff_count]
    intro i
    have h₁ := (htakes.2.map Task.id).count_eq i
    simp only [placed, hheld, hrecv, Option.join_some, Option.map_some, Option.toList_some,
      Option.toList_none, List.map_cons, List.count_append, List.count_cons,
      List.count_nil] at h₁ ⊢
    omega

/-- The task held is completed. -/
theorem complete (inv : c.Inv) {d : Completion B} (hheld : c.recv.held = some d.id)
    (hproper : d.Proper) (a : Asking) :
    Conn.Inv { c with recv := ⟨none, a⟩, completed := c.completed ++ [d] } := by
  refine inv.move (fun _ h => h) ?_ ?_ rfl rfl rfl rfl rfl
  · rw [List.perm_iff_count]
    intro i
    simp only [placed, hheld, Option.toList_some, Option.toList_none, List.map_cons,
      List.map_nil, List.map_append, List.count_append, List.count_nil]
    omega
  · intro d' hd'
    rcases List.mem_append.mp hd' with hd' | hd'
    · exact inv.proper d' hd'
    · rw [List.mem_singleton.mp hd']
      exact hproper

/-- A number is drawn. -/
theorem seqUpdate (inv : c.Inv) (hseq : c.seq.toNat + 1 < 2 ^ 64) (taskSeqs : List UInt64) :
    Conn.Inv { c with
      seq := c.seq + 1, taskSeqs, send := { c.send with drawn := some c.seq } } := by
  obtain ⟨hi, hinv, hlt, -⟩ := inv.timer
  have hsucc : (c.seq + 1).toNat = c.seq.toNat + 1 := by
    rw [UInt64.toNat_add, UInt64.toNat_one, Nat.mod_eq_of_lt hseq]
  refine ⟨⟨hi, hinv, ?_, fun q hq => ?_⟩, inv.nodup, inv.fresh, inv.registered, inv.proper⟩
  · change hi < (c.seq + 1).toNat
    omega
  · obtain rfl := Option.some.inj hq
    change c.seq.toNat < (c.seq + 1).toNat ∧ _
    exact ⟨by omega, fun _ => hlt⟩

/-- The task owned is registered, under the number drawn for it. -/
theorem regTask (inv : c.Inv) {t : Task B} (howned : c.send.owned = some t.id)
    (hdrawn : c.send.drawn = some t.seq) {timer : ClientTaskTimer B}
    (hreg : c.timer.regTask t = some timer) (settled : Bool) :
    Conn.Inv { c with
      timer, registered := c.registered ++ [t]
      send := { c.send with owned := none, settled } } := by
  obtain ⟨hi, hinv, -, hd⟩ := inv.timer
  obtain ⟨hlt, hkey⟩ := hd t.seq hdrawn
  have hlive := ClientTaskTimer.live_regTask hreg
  have hperm : (Conn.placed { c with
        timer, registered := c.registered ++ [t]
        send := { c.send with owned := none, settled } }).Perm
      (c.send.owned.toList ++ c.placed) := by
    rw [List.perm_iff_count]
    intro i
    simp only [placed, hlive, howned, Option.toList_some, List.map_append, List.map_cons,
      List.map_nil, List.count_append]
    omega
  refine ⟨⟨t.key, hinv.regTask (hkey (by rw [howned]; rfl)) hreg, hlt, fun q hq => ?_⟩,
    hperm.nodup_iff.mpr inv.nodup, fun i hi => inv.fresh i (hperm.mem_iff.mp hi), ?_, inv.proper⟩
  · change q ∈ c.send.drawn at hq
    rw [hdrawn] at hq
    obtain rfl := Option.some.inj hq
    exact ⟨hlt, nofun⟩
  · intro x hx
    rw [hperm.mem_iff, List.mem_append, howned]
    rcases List.mem_append.mp hx with hx | hx
    · exact Or.inr (inv.registered x hx)
    · rw [List.mem_singleton.mp hx]
      exact Or.inl List.mem_cons_self

/-- The task owned fails. -/
theorem reject (inv : c.Inv) {t : Task B} (howned : c.send.owned = some t.id)
    (hproper : (Completion.errorHandled t).Proper) :
    Conn.Inv { c with
      completed := c.completed ++ [.errorHandled t], send := { c.send with owned := none } } := by
  obtain ⟨hi, hinv, hlt, hd⟩ := inv.timer
  have hperm : (Conn.placed { c with
        completed := c.completed ++ [.errorHandled t]
        send := { c.send with owned := none } }).Perm (c.send.owned.toList ++ c.placed) := by
    rw [List.perm_iff_count]
    intro i
    simp only [placed, howned, Option.toList_some, List.map_append, List.map_cons,
      List.map_nil, List.count_append, Completion.id]
    omega
  refine ⟨⟨hi, hinv, hlt, fun q hq => ⟨(hd q hq).1, nofun⟩⟩, hperm.nodup_iff.mpr inv.nodup,
    fun i hi => inv.fresh i (hperm.mem_iff.mp hi), fun x hx => ?_, fun d hd => ?_⟩
  · rw [hperm.mem_iff]
    exact List.mem_append_right _ (inv.registered x hx)
  · rcases List.mem_append.mp hd with hd | hd
    · exact inv.proper d hd
    · rw [List.mem_singleton.mp hd]
      exact hproper

/-- The task a call still owns is nowhere else. -/
theorem owned_ne (inv : c.Inv) {i j : ℕ} (howned : c.send.owned = some i) (hj : j ∈ c.placed) :
    j ≠ i := by
  rintro rfl
  have hnodup := inv.nodup
  rw [howned] at hnodup
  exact (List.nodup_cons.mp hnodup).1 hj

/-- The call is over: a task it still owns is nobody's. -/
theorem finish (inv : c.Inv) : Conn.Inv { c with send := .start none } := by
  obtain ⟨hi, hinv, hlt, -⟩ := inv.timer
  refine ⟨⟨hi, hinv, hlt, nofun⟩, ?_, fun i hi => ?_, inv.registered, inv.proper⟩
  · exact (List.nodup_append.mp inv.nodup).2.1
  · exact inv.fresh i (List.mem_append_right _ hi)

/-- A task is handed to `send_task`. -/
theorem beginTask (inv : c.Inv) :
    Conn.Inv { c with send := .start (some c.nextId), nextId := c.nextId + 1 } := by
  obtain ⟨hi, hinv, hlt, -⟩ := inv.timer
  refine ⟨⟨hi, hinv, hlt, nofun⟩, ?_, fun i hi => ?_, inv.registered, inv.proper⟩
  · refine List.nodup_cons.mpr ⟨fun hmem => ?_, (List.nodup_append.mp inv.nodup).2.1⟩
    exact Nat.lt_irrefl _ (inv.fresh _ (List.mem_append_right _ hmem))
  · rcases List.mem_cons.mp hi with rfl | hi
    · exact Nat.lt_succ_self _
    · exact Nat.lt_succ_of_lt (inv.fresh i (List.mem_append_right _ hi))

end Conn.Inv

/-! ## One operation -/

omit [ClientTask B] in
/-- All that an operation of the receiver does to the registry. -/
theorem RecvOp.exec_turn {arrival : Arrival} {o : RecvOp B} {c c' : Conn B} {a : Option o.Res}
    (h : RecvOp.exec arrival o c = (c', a)) : c.timer.Turn c'.timer := by
  obtain rfl : (RecvOp.exec arrival o c).1 = c' := congrArg Prod.fst h
  cases o with
  | readHead cancellable =>
    rw [RecvOp.exec_readHead]
    exact .refl _
  | readExact n =>
    rw [RecvOp.exec_readExact]
    exact .refl _
  | checkPendingTasksEmpty => exact ClientTaskTimer.turn_pullPending _
  | takeTask seq => exact ClientTaskTimer.turn_takeTask _ _
  | resumeTakeTask seq => exact ClientTaskTimer.turn_resumeTakeTask _ _
  | loadClosed | storeClosed | loadHasErr | done _ | errorHandle _ | dropItem | panic =>
    exact .refl _

/-- An operation of the receiver that is answered moves tasks as the protocol
says. -/
theorem RecvOp.inv_exec {c : Conn B} (inv : c.Inv) {arrival : Arrival} {o : RecvOp B}
    (hok : receiving.ok c.recv o) {c' : Conn B} {a : o.Res}
    (h : RecvOp.exec arrival o c = (c', some a)) :
    Conn.Inv { c' with recv := receiving.next c.recv o a } := by
  cases o with
  | loadClosed | loadHasErr =>
    cases h
    exact inv
  | storeClosed | dropItem =>
    cases h
    exact inv.same rfl rfl rfl rfl rfl rfl rfl rfl rfl
  | checkPendingTasksEmpty =>
    cases h
    exact inv.setTimer (fun _ h => h.checkPendingTasksEmpty) rfl rfl rfl rfl rfl rfl rfl rfl
  | readHead cancellable =>
    obtain rfl : c = c' := (RecvOp.exec_readHead arrival cancellable c).symm.trans
      (congrArg Prod.fst h)
    exact inv.same rfl rfl rfl rfl rfl rfl rfl rfl rfl
  | readExact n =>
    obtain rfl : c = c' := (RecvOp.exec_readExact arrival n c).symm.trans (congrArg Prod.fst h)
    exact inv
  | takeTask seq =>
    have hheld : c.recv.held = none := congrArg RecvPhase.held hok
    have hfound : (c.timer.takeTask seq.toNat).2 = a := Option.some.inj (congrArg Prod.snd h)
    obtain rfl : _ = c' := congrArg Prod.fst h
    refine inv.take (r := (c.timer.takeTask seq.toNat).2) hheld
      (fun _ h => h.takeTask seq.toNat) _ _ ?_
    rw [hfound]
    rcases a with _ | found <;> rfl
  | resumeTakeTask seq =>
    have hheld : c.recv.held = none := congrArg RecvPhase.held hok
    have hfound : (c.timer.resumeTakeTask seq.toNat).2 = some a := congrArg Prod.snd h
    obtain rfl : _ = c' := congrArg Prod.fst h
    refine inv.take (r := (c.timer.resumeTakeTask seq.toNat).2) hheld
      (fun _ h => h.resumeTakeTask seq.toNat) _ _ ?_
    rw [hfound]
    rfl
  | done t =>
    cases h
    exact inv.complete (d := .done t) hok.1 hok.2 c.recv.asking
  | errorHandle t =>
    cases h
    exact inv.complete (d := .errorHandled t) hok.1 hok.2 c.recv.asking
  | panic => exact nomatch a

/-- An operation of the receiver that waits moves nothing. -/
theorem RecvOp.inv_exec_none {c : Conn B} (inv : c.Inv) {arrival : Arrival} {o : RecvOp B}
    (hok : receiving.ok c.recv o) {c' : Conn B} (h : RecvOp.exec arrival o c = (c', none)) :
    c'.Inv := by
  cases o with
  | loadClosed | loadHasErr | storeClosed | dropItem | checkPendingTasksEmpty | takeTask _
  | done _ | errorHandle _ => cases h
  | readHead cancellable =>
    obtain rfl : c = c' := (RecvOp.exec_readHead arrival cancellable c).symm.trans
      (congrArg Prod.fst h)
    exact inv
  | readExact n =>
    obtain rfl : c = c' := (RecvOp.exec_readExact arrival n c).symm.trans (congrArg Prod.fst h)
    exact inv
  | resumeTakeTask seq =>
    have hheld : c.recv.held = none := congrArg RecvPhase.held hok
    have hnone : (c.timer.resumeTakeTask seq.toNat).2 = none := congrArg Prod.snd h
    obtain rfl : _ = c' := congrArg Prod.fst h
    refine inv.take (r := (c.timer.resumeTakeTask seq.toNat).2) hheld
      (fun _ h => h.resumeTakeTask seq.toNat) _ _ ?_
    rw [hnone]
    exact hheld
  | panic =>
    cases h
    exact inv

/-- An operation of the sender moves tasks as the protocol says. -/
theorem SendOp.inv_exec {c : Conn B} (inv : c.Inv) (hseq : c.seq.toNat + 1 < 2 ^ 64)
    {ok : Bool} {o : SendOp B} (hok : sending.ok c.send o) {c' : Conn B} {a : o.Res}
    (h : SendOp.exec ok o c = (c', some a)) :
    Conn.Inv { c' with send := sending.next c.send o a } := by
  cases o with
  | nearlyFull | loadClosed | loadBuf | flush | shutdownWrite =>
    cases h
    exact inv
  | storeClosed | storeHasErr | storeBuf buf | writeAll bytes | addTask | dropCloseTx =>
    cases h
    exact inv.same rfl rfl rfl rfl rfl rfl rfl rfl rfl
  | pendingAdd | pendingSub =>
    cases h
    exact inv.setTimer (fun _ h => ⟨h.setCount _, rfl⟩) rfl rfl rfl rfl rfl rfl rfl rfl
  | stopRegTask =>
    cases h
    exact inv.setTimer (fun _ h => ⟨h.stopRegTask, rfl⟩) rfl rfl rfl rfl rfl rfl rfl rfl
  | seqUpdate =>
    cases h
    exact inv.seqUpdate hseq _
  | regTask t =>
    obtain ⟨timer, hreg, rfl⟩ := SendOp.exec_regTask h
    exact inv.regTask hok.1 hok.2 hreg true
  | throttle =>
    obtain rfl := SendOp.exec_throttle h
    exact inv
  | errorHandle t =>
    cases h
    exact inv.reject hok.1 hok.2

/-! ## The system -/

/-- The sender's program keeps to its protocol. -/
def Sender.Ok (c : Conn B) : Sender B → Prop
  | .idle => c.send = .start none
  | .running _ p => Follows sending (fun _ s => s.CanEnd) c.send p
  | .gone => True

/-- The receive future keeps to its protocol; without it, no task is held. -/
def Receiver.Ok (c : Conn B) : Receiver B → Prop
  | .future _ p => Follows receiving (fun _ s => s.Empty) c.recv p
  | _ => c.recv.Empty

theorem Sender.Ok.congr {c c' : Conn B} {p : Sender B} (h : p.Ok c) (hsend : c'.send = c.send) :
    p.Ok c' := by
  cases p <;> simp only [Sender.Ok, hsend] at h ⊢ <;> exact h

theorem Receiver.Ok.congr {c c' : Conn B} {r : Receiver B} (h : r.Ok c)
    (hrecv : c'.recv = c.recv) : r.Ok c' := by
  cases r <;> simp only [Receiver.Ok, hrecv] at h ⊢ <;> exact h

namespace Sys

/-- All that a step of the receive loop does to the registry. -/
theorem ReceiverStep.turn {pf : Platform} {arrival : Arrival} {c c' : Conn B} {r r' : Receiver B}
    (h : ReceiverStep pf arrival c r c' r') : c.timer.Turn c'.timer := by
  cases h with
  | tick p => exact ClientTaskTimer.turn_adjustTaskQueue _
  | pull p => exact ClientTaskTimer.turn_pullPending _
  | op hexec =>
    have hturn := RecvOp.exec_turn hexec
    exact hturn
  | wait hexec => exact RecvOp.exec_turn hexec
  | clean => exact ClientTaskTimer.turn_cleanPendingTasks _
  | drain => exact ClientTaskTimer.turn_cleanPendingTasks _
  | stage | giveUp | again | fail | panic | close | leave | wake => exact .refl _

/-- The invariant of the system. -/
structure Inv (s : Sys B) : Prop where
  conn : s.conn.Inv
  sender : s.sender.Ok s.conn
  receiver : s.receiver.Ok s.conn
  inner : s.innerDropped = true →
    s.sender.isGone = true ∧ s.receiver.isOver = true ∧ s.conn.timer.live = []

/-- The counter of sequence numbers is not about to wrap. -/
def NoWrap (s : Sys B) : Prop := s.conn.seq.toNat + 1 < 2 ^ 64

theorem inv_init (cfg : ConnConfig) : (init cfg : Sys B).Inv :=
  ⟨Conn.Inv.new cfg, rfl, receiving_recvOneResp cfg.platform rfl, nofun⟩

variable {cfg : ConnConfig} {s s' : Sys B}

/-- A call begins: its program keeps to the protocol, and its task is a new one. -/
theorem Inv.call (inv : s.Inv) {call : Call B} (h : next cfg s (.call call) = some s') :
    s'.Inv := by
  obtain ⟨conn, sender, receiver, innerDropped⟩ := s
  cases sender with
  | idle =>
    cases h
    have hinner : ∀ {P : Prop}, innerDropped = true → P := fun h => nomatch (inv.inner h).1
    have hstart : conn.send = .start none := inv.sender
    -- a call without a task begins where the last one ended
    have hplain : ∀ {p : Send B (Except RpcIntErr Unit)},
        Follows sending (fun _ s => s.CanEnd) (.start none) p →
        Follows sending (fun _ s => s.CanEnd) conn.send p := fun hp => hstart ▸ hp
    cases call with
    | sendTask t needFlush =>
      exact ⟨inv.conn.beginTask, sending_sendTask cfg.clientId { t with id := conn.nextId } needFlush,
        inv.receiver.congr rfl, hinner⟩
    | flushReq => exact ⟨inv.conn, hplain sending_flushReq, inv.receiver, hinner⟩
    | ping => exact ⟨inv.conn, hplain (sending_sendPingReq cfg.clientId), inv.receiver, hinner⟩
    | setErrorAndExit => exact ⟨inv.conn, hplain sending_setErrorAndExit, inv.receiver, hinner⟩
    | drop => exact ⟨inv.conn, hplain sending_dropStream, inv.receiver, hinner⟩
  | running dropping p => cases h
  | gone => cases h

/-- A step of the sender. -/
theorem Inv.sender_step (inv : s.Inv) (hseq : s.NoWrap) {ok : Bool}
    (h : next cfg s (.sender ok) = some s') : s'.Inv := by
  obtain ⟨⟨c, p⟩, hstep, rfl⟩ := Option.map_eq_some_iff.mp h
  have hok := inv.sender
  obtain ⟨conn, sender, receiver, innerDropped⟩ := s
  cases stepSender_cases hstep with
  | finish dropping r =>
    have hinner : ∀ {P : Prop}, innerDropped = true → P := fun h => nomatch (inv.inner h).1
    refine ⟨inv.conn.finish, ?_, inv.receiver.congr rfl, hinner⟩
    cases dropping with
    | true => exact trivial
    | false => exact rfl
  | op dropping hexec =>
    have hinner : ∀ {P : Prop}, innerDropped = true → P := fun h => nomatch (inv.inner h).1
    have hframe := SendOp.exec_frame hexec
    exact ⟨SendOp.inv_exec inv.conn hseq hok.1 hexec, hok.step _, inv.receiver.congr hframe.1,
      hinner⟩

/-- A step of the receive loop. -/
theorem Inv.receiver_step (inv : s.Inv) {tick : Bool} {arrival : Arrival}
    (h : next cfg s (.receiver tick arrival) = some s') : s'.Inv := by
  obtain ⟨⟨c, p⟩, hstep, rfl⟩ := Option.map_eq_some_iff.mp h
  have hok := inv.receiver
  have hsend := inv.sender
  obtain ⟨conn, sender, receiver, innerDropped⟩ := s
  have hinner : receiver.isOver = false → ∀ {P : Prop}, innerDropped = true → P :=
    fun hover _ h => absurd ((inv.inner h).2.1.symm.trans hover) Bool.noConfusion
  cases stepReceiver_cases hstep with
  | stage p _ => exact ⟨inv.conn, hsend, hok, hinner rfl⟩
  | tick p => exact ⟨inv.conn.timeReach, hsend.congr rfl, hok.congr rfl, hinner rfl⟩
  | giveUp p _ => exact ⟨inv.conn.dropFuture, hsend.congr rfl, rfl, hinner rfl⟩
  | pull p =>
    exact ⟨inv.conn.setTimer (fun _ h => h.pullPending) rfl rfl rfl rfl rfl rfl rfl rfl,
      hsend.congr rfl, hok.congr rfl, hinner rfl⟩
  | again => exact ⟨inv.conn, hsend, receiving_recvOneResp cfg.platform hok, hinner rfl⟩
  | fail e => exact ⟨inv.conn, hsend, hok, hinner rfl⟩
  | panic k => exact ⟨inv.conn.dropFuture, hsend.congr rfl, rfl, hinner rfl⟩
  | op hexec =>
    have hframe := RecvOp.exec_frame hexec
    exact ⟨RecvOp.inv_exec inv.conn hok.1 hexec, hsend.congr hframe.1, hok.step _, hinner rfl⟩
  | wait hexec =>
    have hframe := RecvOp.exec_frame hexec
    exact ⟨RecvOp.inv_exec_none inv.conn hok.1 hexec, hsend.congr hframe.1,
      Receiver.Ok.congr (r := .future _ _) hok hframe.2.1, hinner rfl⟩
  | close =>
    exact ⟨inv.conn.same rfl rfl rfl rfl rfl rfl rfl rfl rfl, hsend.congr rfl, hok, hinner rfl⟩
  | clean => exact ⟨inv.conn.clean.1, hsend.congr rfl, hok, hinner rfl⟩
  | drain => exact ⟨inv.conn.clean.1, hsend.congr rfl, hok, hinner rfl⟩
  | leave => exact ⟨inv.conn, hsend, hok, hinner rfl⟩
  | wake => exact ⟨inv.conn, hsend, hok, hinner rfl⟩

/-- Every step keeps the invariant, while numbers last. -/
theorem Inv.step (inv : s.Inv) {l : Label B} (hseq : s.NoWrap) (h : next cfg s l = some s') :
    s'.Inv := by
  cases l with
  | call call => exact inv.call h
  | sender ok => exact inv.sender_step hseq h
  | receiver tick arrival => exact inv.receiver_step h
  | dropInner =>
    simp only [next] at h
    split at h
    · rename_i hunused
      cases h
      rw [innerUnused, Bool.and_eq_true, Bool.and_eq_true] at hunused
      obtain ⟨hinv, hnil⟩ := inv.conn.clean
      exact ⟨hinv, inv.sender.congr rfl, inv.receiver.congr rfl,
        fun _ => ⟨hunused.1.1, hunused.1.2, hnil⟩⟩
    · cases h

end Sys

end RazorRpc
