import RazorRpc.Watch

/-!
# The throttler (`stream/src/client/throttler.rs`)

A guard of the throttler travels with every `ClientTaskItem`: it is added after
the request was written, goes with the item through the channel into the maps, is
taken out by the response, and is given back when the item is dropped. A sender
that has too much in flight waits for guards to come back, and they only come back
if the requests got out: so what is written must be flushed by then.

* `ClientTaskTimer.Releases` — how many items an operation of the receiver lets go;
* `Conn.Accounted` — the guards are those of the items there are;
* `throttling` — what a call has found and done: the flush is decided before the
  write, from a count that only the sender itself can raise.

The result is `throttle_flushed`.
-/

namespace RazorRpc

open Prog ClientStream

/-! ## Items -/

namespace ClientTaskTimer

variable {B : Type}

/-- An operation of the receiver that takes or fails `n` tasks: the other items
are still there, or were replaced on the way. -/
structure Releases (n : ℕ) (t t' : ClientTaskTimer B) : Prop where
  items : t'.live.length + t'.replaced + n = t.live.length + t.replaced
  replaced_le : t.replaced ≤ t'.replaced

theorem Releases.refl (t : ClientTaskTimer B) : Releases 0 t t := ⟨rfl, Nat.le_refl _⟩

theorem Releases.trans {m n : ℕ} {t t' t'' : ClientTaskTimer B} (h : Releases m t t')
    (h' : Releases n t' t'') : Releases (m + n) t t'' := by
  refine ⟨?_, Nat.le_trans h.replaced_le h'.replaced_le⟩
  have := h.items
  have := h'.items
  omega

/-- A task that arrives is stored, and may replace one. -/
theorem pulled_gotPendingTask (t : ClientTaskTimer B) (x : Task B) :
    (t.gotPendingTask x).pulled.length + (t.gotPendingTask x).replaced =
      t.pulled.length + t.replaced + 1 := by
  have hlen := t.sentTasks.length_insert x.key x
  simp only [pulled, gotPendingTask, List.length_append, BTreeMap.length_values]
  rcases hget : t.sentTasks.get? x.key with _ | y
  · simp only [hget, Option.isSome_none, Bool.toNat_false, Bool.false_eq_true, if_false] at hlen ⊢
    omega
  · simp only [hget, Option.isSome_some, Bool.toNat_true, if_true] at hlen ⊢
    omega

theorem pulled_foldl (tasks : List (Task B)) (t : ClientTaskTimer B) :
    (tasks.foldl gotPendingTask t).pulled.length + (tasks.foldl gotPendingTask t).replaced =
      t.pulled.length + t.replaced + tasks.length := by
  induction tasks generalizing t with
  | nil => rfl
  | cons x tasks ih =>
    rw [List.foldl_cons, ih, pulled_gotPendingTask, List.length_cons]
    omega

theorem replaced_le_foldl (tasks : List (Task B)) (t : ClientTaskTimer B) :
    t.replaced ≤ (tasks.foldl gotPendingTask t).replaced := by
  induction tasks generalizing t with
  | nil => exact Nat.le_refl _
  | cons x tasks ih =>
    refine Nat.le_trans ?_ (ih (t.gotPendingTask x))
    simp only [gotPendingTask]
    split
    · exact Nat.le_succ _
    · exact Nat.le_refl _

theorem releases_pullPending (t : ClientTaskTimer B) : Releases 0 t t.pullPending := by
  have hpulled := pulled_foldl t.pendingTasks { t with pendingTasks := [] }
  refine ⟨?_, replaced_le_foldl t.pendingTasks { t with pendingTasks := [] }⟩
  rw [pulled_pullPending, live, List.length_append]
  change t.pullPending.pulled.length + t.pullPending.replaced =
    t.pulled.length + t.replaced + t.pendingTasks.length at hpulled
  omega

theorem length_removeDelayed (seq : ℕ) (queue : List (BTreeMap ℕ (Task B))) :
    ((removeDelayed seq queue).1.flatMap BTreeMap.values).length +
        (removeDelayed seq queue).2.isSome.toNat =
      (queue.flatMap BTreeMap.values).length := by
  induction queue with
  | nil => rfl
  | cons batch queue ih =>
    have hlen := batch.length_erase seq
    rcases hget : batch.get? seq with _ | y
    · simp only [removeDelayed, hget, List.flatMap_cons, List.length_append]
      omega
    · rw [hget] at hlen
      simp only [removeDelayed, hget, List.flatMap_cons, List.length_append,
        BTreeMap.length_values] at hlen ⊢
      omega

/-- The number of tasks in a queue does not depend on its order. -/
theorem length_flatMap_reverse (queue : List (BTreeMap ℕ (Task B))) :
    (queue.reverse.flatMap BTreeMap.values).length = (queue.flatMap BTreeMap.values).length :=
  ((List.reverse_perm queue).flatMap_right _).length_eq

/-- The task found leaves. -/
theorem releases_removeTask (t : ClientTaskTimer B) (seq : ℕ) :
    Releases (t.removeTask seq).2.isSome.toNat t (t.removeTask seq).1 := by
  have hlen := t.sentTasks.length_erase seq
  rcases hget : t.sentTasks.get? seq with _ | y
  · have hdelay := length_removeDelayed seq t.delayTasksQueue
    simp only [removeTask, hget]
    refine ⟨?_, Nat.le_refl _⟩
    simp only [live, pulled, List.length_append, length_flatMap_reverse]
    omega
  · rw [hget] at hlen
    simp only [removeTask, hget]
    refine ⟨?_, Nat.le_refl _⟩
    simp only [live, pulled, List.length_append, BTreeMap.length_values] at hlen ⊢
    omega

theorem releases_waitRegTaskPoll (t : ClientTaskTimer B) (seq : ℕ) :
    Releases 0 t (t.waitRegTaskPoll seq).1 := by
  rcases waitRegTaskPoll_fst t seq with h | h
  · rw [h]
    exact .refl t
  · rw [h]
    exact releases_pullPending t

theorem releases_resumeTakeTask (t : ClientTaskTimer B) (seq : ℕ) :
    Releases (t.resumeTakeTask seq).2.join.isSome.toNat t (t.resumeTakeTask seq).1 := by
  have hwait := releases_waitRegTaskPoll t seq
  rw [resumeTakeTask]
  rcases hr : t.waitRegTaskPoll seq with ⟨t', _ | _ | _⟩
  · rw [hr] at hwait
    exact hwait
  · rw [hr] at hwait
    exact hwait
  · rw [hr] at hwait
    have := hwait.trans (releases_removeTask t' seq)
    rwa [Nat.zero_add] at this

theorem releases_takeTask (t : ClientTaskTimer B) (seq : ℕ) :
    Releases (t.takeTask seq).2.join.isSome.toNat t (t.takeTask seq).1 := by
  rw [takeTask]
  split
  · exact .refl t
  · split
    · exact releases_resumeTakeTask t seq
    · exact releases_removeTask t seq

variable [ClientTask B]

/-- The tasks that time out leave. -/
theorem releases_adjustTaskQueue (t : ClientTaskTimer B) :
    Releases t.adjustTaskQueue.2.length t t.adjustTaskQueue.1 := by
  have hqueue : (t.sentTasks :: t.delayTasksQueue).flatMap BTreeMap.values =
      ((t.sentTasks :: t.delayTasksQueue).dropLast.flatMap BTreeMap.values) ++
        ((t.sentTasks :: t.delayTasksQueue).getLast (List.cons_ne_nil _ _)).values := by
    conv_lhs => rw [← List.dropLast_append_getLast (List.cons_ne_nil t.sentTasks t.delayTasksQueue)]
    simp
  have hlen := congrArg List.length hqueue
  rw [List.flatMap_cons, List.length_append, List.length_append] at hlen
  rw [adjustTaskQueue]
  dsimp only
  split
  · split
    · rename_i hempty
      rw [BTreeMap.length_values, BTreeMap.length_values, List.isEmpty_iff.mp hempty] at hlen
      refine ⟨?_, Nat.le_refl _⟩
      simp only [live, pulled, List.length_append, length_flatMap_reverse, BTreeMap.length_values,
        BTreeMap.entries_empty, List.length_nil] at hlen ⊢
      omega
    · refine ⟨?_, Nat.le_refl _⟩
      simp only [live, pulled, List.length_append, length_flatMap_reverse, BTreeMap.length_values,
        BTreeMap.entries_empty, List.length_nil, List.length_map] at hlen ⊢
      omega
  · refine ⟨?_, Nat.le_refl _⟩
    simp only [live, pulled, List.length_append, length_flatMap_reverse, BTreeMap.length_values,
      BTreeMap.entries_empty, List.length_nil, List.flatMap_cons]
    omega

/-- Every task leaves. -/
theorem releases_cleanPendingTasks (t : ClientTaskTimer B) :
    Releases t.cleanPendingTasks.2.length t t.cleanPendingTasks.1 := by
  have hpull := releases_pullPending t
  have hnil : t.cleanPendingTasks.1.pulled = [] := by
    simp [cleanPendingTasks, pulled, List.flatMap_def, Function.comp_def]
  have hpending : t.cleanPendingTasks.1.pendingTasks = [] := pendingTasks_pullPending t
  refine ⟨?_, hpull.replaced_le⟩
  rw [← hpull.items, pulled_pullPending, live, hnil, hpending]
  simp only [cleanPendingTasks, pulled, List.length_map, List.length_append,
    length_flatMap_reverse, List.append_nil, List.length_nil]
  omega

end ClientTaskTimer

variable {B : Type}

/-- The guards out are those of the items there are: in the registry, with the
receive future, and the one being registered. -/
def Conn.Accounted (c : Conn B) (registering : Bool) : Prop :=
  c.inflight = c.timer.live.length + c.item.toNat + registering.toNat

/-- What the receiver does to the guards: items and guards go together. -/
structure Conn.Frees (c c' : Conn B) : Prop where
  accounted : ∀ registering, c.Accounted registering → c'.Accounted registering
  inflight_le : c'.inflight ≤ c.inflight
  thresholds : c'.thresholds = c.thresholds

namespace Conn.Frees

variable {c c' : Conn B}

/-- Nothing changes that matters here. -/
theorem of_eq (htimer : c'.timer = c.timer) (hitem : c'.item = c.item)
    (hinflight : c'.inflight = c.inflight) (hthresholds : c'.thresholds = c.thresholds) :
    Frees c c' := by
  refine ⟨fun registering h => ?_, Nat.le_of_eq hinflight, hthresholds⟩
  rw [Accounted, htimer, hitem, hinflight]
  exact h

/-- `n` items leave the registry; with the one the future held, `k` are dropped. -/
theorem of_releases {n k : ℕ} (h : c.timer.Releases n c'.timer)
    (hitem : n + c.item.toNat = c'.item.toNat + k)
    (hinflight : c'.inflight = c.inflight - (c'.timer.replaced - c.timer.replaced) - k)
    (hthresholds : c'.thresholds = c.thresholds) : Frees c c' := by
  refine ⟨fun registering hacc => ?_, ?_, hthresholds⟩
  · rw [Accounted] at hacc ⊢
    have := h.items
    have := h.replaced_le
    omega
  · rw [hinflight]
    exact Nat.le_trans (Nat.sub_le _ _) (Nat.sub_le _ _)

theorem setTimer {timer : ClientTaskTimer B} (h : c.timer.Releases 0 timer) :
    Frees c (c.setTimer timer) :=
  of_releases (n := 0) (k := 0) h (Nat.add_comm _ _) rfl rfl

theorem dropFuture (c : Conn B) : Frees c c.dropFuture := by
  refine of_releases (n := 0) (k := c.item.toNat) (.refl _) ?_ ?_ rfl
  · rfl
  · rcases hitem : c.item with _ | _
    · simp [Conn.dropFuture, hitem]
    · simp [Conn.dropFuture, hitem]

variable [ClientTask B]

theorem timeReach (c : Conn B) : Frees c c.timeReach := by
  have hreleases := ClientTaskTimer.releases_adjustTaskQueue c.timer
  refine of_releases (n := c.timer.adjustTaskQueue.2.length) hreleases (Nat.add_comm _ _) ?_ rfl
  have hreplaced : c.timer.adjustTaskQueue.1.replaced = c.timer.replaced := by
    rw [ClientTaskTimer.adjustTaskQueue]
    dsimp only
    split
    · split <;> rfl
    · rfl
  change c.inflight - _ = c.inflight - (c.timer.adjustTaskQueue.1.replaced - _) - _
  rw [hreplaced, Nat.sub_self, Nat.sub_zero]

theorem clean (c : Conn B) : Frees c c.clean :=
  of_releases (n := c.timer.cleanPendingTasks.2.length)
    (ClientTaskTimer.releases_cleanPendingTasks c.timer) (Nat.add_comm _ _) rfl rfl

end Conn.Frees

/-! ## The receiver -/

/-- Whether a `ClientTaskItem` is among the locals of the receive future. -/
def itemising : Protocol (RecvOp B) RecvOp.Res Bool where
  ok i
    | .takeTask _ | .resumeTakeTask _ => i = false
    | .dropItem => i = true
    | _ => True
  next i
    | .takeTask _, r => r.join.isSome
    | .resumeTakeTask _, r => r.isSome
    | .dropItem, _ => false
    | _, _ => i

/-- Reading a body leaves the item where it is. -/
theorem itemising_ofBody {p : Recv B Bool} (h : Uses RecvOp.OfBody p) (i : Bool) :
    Follows itemising (fun _ i' => i' = i) i p := by
  refine h.follows fun o ho => ?_
  cases o with
  | readExact _ | done _ | errorHandle _ | panic => exact ⟨trivial, fun _ => rfl⟩
  | _ => cases ho

section

open TcpClient

variable [ClientTask B]

theorem itemising_recvFound (pf : Platform) (head : RespHead) (found : Option (Task B)) :
    Follows itemising (fun _ i => i = false) found.isSome (recvFound pf head found) := by
  cases found with
  | none => exact itemising_ofBody (uses_recvUnknown pf head) false
  | some task =>
    refine (itemising_ofBody (uses_recvTask pf head task) true).bind fun r i hi => ?_
    exact ⟨hi, fun _ => rfl⟩

theorem itemising_readResp (pf : Platform) (closeCh : Bool) :
    Follows (itemising (B := B)) (fun _ i => i = false) false (readResp pf closeCh) := by
  refine ⟨trivial, fun r => ?_⟩
  cases r with
  | closed => exact rfl
  | err => exact rfl
  | ok headBuf =>
    change Follows itemising _ false (recvHead pf (RespHead.decodeHead headBuf))
    rcases RespHead.decodeHead headBuf with e | head
    · exact rfl
    · have hbody : Follows (itemising (B := B)) (fun _ i => i = false) false
          (recvRespBody pf head) := by
        refine ⟨rfl, fun r => ?_⟩
        cases r with
        | some found => exact itemising_recvFound pf head found
        | none => exact ⟨rfl, fun found => itemising_recvFound pf head found⟩
      refine hbody.bind fun ok i hi => ?_
      cases ok <;> exact hi

/-- A turn of the receive loop begins and ends without an item. -/
theorem itemising_recvOneResp (pf : Platform) :
    Follows (itemising (B := B)) (fun _ i => i = false) false (recvOneResp pf) := by
  refine follows_recvOneResp (C := fun i => i = false) (fun i o hi ho => ?_) pf
    (fun i closeCh hi => ?_) rfl
  · cases o with
    | loadClosed | storeClosed | loadHasErr | checkPendingTasksEmpty =>
      exact ⟨trivial, fun _ => hi⟩
    | _ => cases ho
  · subst hi
    exact itemising_readResp pf closeCh

end

/-- The receive future has the item it should have; without the future there is
none. -/
def Receiver.Itemised (c : Conn B) : Receiver B → Prop
  | .future _ p => Follows itemising (fun _ i => i = false) c.item p
  | _ => c.item = false

theorem Receiver.Itemised.congr {c c' : Conn B} {r : Receiver B} (h : r.Itemised c)
    (hitem : c'.item = c.item) : r.Itemised c' := by
  cases r <;> simp only [Receiver.Itemised, hitem] at h ⊢ <;> exact h

/-- An operation of the receiver: the item is taken and dropped as the protocol
says, or the operation waits. -/
theorem RecvOp.frees_exec {c c' : Conn B} {arrival : Arrival} {o : RecvOp B}
    (hok : itemising.ok c.item o) {a : Option o.Res} (h : RecvOp.exec arrival o c = (c', a)) :
    c.Frees c' ∧ c'.item = (a.map (itemising.next c.item o)).getD c.item := by
  cases o with
  | loadClosed | storeClosed | loadHasErr | done _ | errorHandle _ | panic =>
    cases h
    exact ⟨.of_eq rfl rfl rfl rfl, rfl⟩
  | checkPendingTasksEmpty =>
    cases h
    exact ⟨.setTimer (ClientTaskTimer.releases_pullPending _), rfl⟩
  | readHead cancellable =>
    obtain rfl : c = c' := (RecvOp.exec_readHead arrival cancellable c).symm.trans
      (congrArg Prod.fst h)
    exact ⟨.of_eq rfl rfl rfl rfl, by cases a <;> rfl⟩
  | readExact n =>
    obtain rfl : c = c' := (RecvOp.exec_readExact arrival n c).symm.trans (congrArg Prod.fst h)
    exact ⟨.of_eq rfl rfl rfl rfl, by cases a <;> rfl⟩
  | takeTask seq =>
    cases h
    have hitem : c.item = false := hok
    refine ⟨.of_releases (k := 0) (ClientTaskTimer.releases_takeTask _ _) ?_ rfl rfl, rfl⟩
    rw [hitem]
    rfl
  | resumeTakeTask seq =>
    obtain rfl : _ = c' := congrArg Prod.fst h
    obtain rfl : _ = a := congrArg Prod.snd h
    have hitem : c.item = false := hok
    refine ⟨.of_releases (k := 0) (ClientTaskTimer.releases_resumeTakeTask _ _) ?_ rfl rfl, ?_⟩
    · rw [hitem]
      rfl
    · change (c.timer.resumeTakeTask seq.toNat).2.join.isSome =
        ((c.timer.resumeTakeTask seq.toNat).2.map Option.isSome).getD c.item
      rcases (c.timer.resumeTakeTask seq.toNat).2 with _ | found
      · exact hitem.symm
      · rfl
  | dropItem =>
    cases h
    have hitem : c.item = true := hok
    refine ⟨.of_releases (n := 0) (k := 1) (.refl _) ?_ ?_ rfl, rfl⟩
    · rw [hitem]
      rfl
    · rw [Nat.sub_self]
      rfl

/-- A step of the receive loop. -/
theorem Sys.ReceiverStep.frees [ClientTask B] {pf : Platform} {arrival : Arrival}
    {c c' : Conn B} {r r' : Receiver B} (h : ReceiverStep pf arrival c r c' r')
    (hitem : r.Itemised c) : c.Frees c' ∧ r'.Itemised c' := by
  cases h with
  | stage | close => exact ⟨.of_eq rfl rfl rfl rfl, hitem⟩
  | leave | wake => exact ⟨.of_eq rfl rfl rfl rfl, hitem⟩
  | tick p => exact ⟨.timeReach c, hitem.congr rfl⟩
  | giveUp p _ => exact ⟨.dropFuture c, rfl⟩
  | panic k => exact ⟨.dropFuture c, rfl⟩
  | pull p =>
    exact ⟨.setTimer (ClientTaskTimer.releases_pullPending _), hitem.congr rfl⟩
  | again =>
    refine ⟨.of_eq rfl rfl rfl rfl, ?_⟩
    have hnone : c.item = false := hitem
    rw [Receiver.Itemised, hnone]
    exact itemising_recvOneResp pf
  | fail e => exact ⟨.of_eq rfl rfl rfl rfl, hitem⟩
  | op hexec =>
    obtain ⟨hfrees, hnext⟩ := RecvOp.frees_exec hitem.1 hexec
    refine ⟨⟨hfrees.accounted, hfrees.inflight_le, hfrees.thresholds⟩, ?_⟩
    rw [Receiver.Itemised, hnext]
    exact hitem.step _
  | wait hexec =>
    obtain ⟨hfrees, hnext⟩ := RecvOp.frees_exec hitem.1 hexec
    exact ⟨hfrees, Receiver.Itemised.congr (r := .future _ _) hitem hnext⟩
  | clean => exact ⟨.clean c, hitem⟩
  | drain => exact ⟨.clean c, hitem⟩

/-! ## The sender -/

/-- What is recorded of the sender. -/
structure Throttling where
  /-- something was written and not flushed -/
  dirty : Bool
  /-- the call found room for one task more -/
  room : Bool
  /-- the call has a guard for its task and has not registered it -/
  registering : Bool
  /-- the call has added a guard and not been let through -/
  added : Bool

/-- A new connection, and between two calls once all is flushed. -/
def Throttling.none : Throttling := ⟨false, false, false, false⟩

/-- A call that comes to `throttle` with something unflushed found room. -/
def throttling : SendWatch B Throttling where
  protocol :=
    { ok := fun x o =>
        match o with
        | .nearlyFull => x.added = false
        | .addTask => x.added = false ∧ x.registering = false
        | .regTask _ => x.registering = true
        | .throttle => x.dirty = true → x.room = true
        | _ => True
      next := fun x o r =>
        match o, r with
        | .nearlyFull, full => { x with room := !full }
        | .writeAll _, _ => { x with dirty := true }
        | .flush, ok => { x with dirty := x.dirty && !ok }
        | .addTask, _ => { x with registering := true, added := true }
        | .regTask _, _ => { x with registering := false }
        | .throttle, _ => { x with room := false, added := false }
        | _, _ => x }
  begin := fun x _ => x
  finish := fun x => { x with room := false }

/-- A call may end: its guard is gone with its task, and it was let through. -/
def Throttling.CanEnd (x : Throttling) : Prop := x.registering = false ∧ x.added = false

/-- A request is written: what is not flushed was not to be. -/
theorem throttling_writeReq (x : Throttling) (buf : List UInt8) (blob : Option (List UInt8))
    (needFlush : Bool) :
    Follows (throttling (B := B)).protocol
      (fun ok x' => ∃ dirty, x' = { x with dirty } ∧ (ok = true → needFlush = true → dirty = false))
      x (TcpClient.writeReq buf blob needFlush) := by
  refine ⟨trivial, fun wrote => ?_⟩
  cases wrote with
  | false => exact ⟨true, rfl, nofun⟩
  | true =>
    have hblob : Follows (throttling (B := B)).protocol (fun _ x' => x' = { x with dirty := true })
        { x with dirty := true } (TcpClient.writeBlob blob) := by
      cases blob with
      | none => exact rfl
      | some blob => exact ⟨trivial, fun _ => rfl⟩
    change Follows throttling.protocol _ { x with dirty := true } (TcpClient.writeBlob blob >>= _)
    refine hblob.bind fun wroteBlob x' hx => ?_
    subst hx
    cases wroteBlob with
    | false => exact ⟨true, rfl, nofun⟩
    | true =>
      cases needFlush with
      | false => exact ⟨true, rfl, nofun⟩
      | true =>
        refine ⟨trivial, fun ok => ?_⟩
        cases ok with
        | false => exact ⟨true, rfl, nofun⟩
        | true => exact ⟨false, rfl, fun _ _ => rfl⟩

variable [ClientTask B]

/-- The request is on its way and its task registered: unless it was to be
flushed, there was room. -/
theorem throttling_sendRequest (clientId : UInt64) (task : Task B) {needFlush : Bool} {x : Throttling}
    (hend : x.CanEnd) (hflush : needFlush = false → x.room = true) :
    Follows throttling.protocol
      (fun r x' => x'.registering = false ∧
        match r with
        | .ok () => x'.dirty = true → x'.room = true
        | .error _ => x'.added = false)
      x (sendRequest clientId task needFlush) := by
  refine ⟨trivial, fun seq => ⟨trivial, fun buf => ⟨trivial, fun _ => ?_⟩⟩⟩
  change Follows throttling.protocol _ x
    (writeEncoded _ _ needFlush (ReqHead.encode buf clientId (task.setSeq seq)).2)
  rcases (ReqHead.encode buf clientId (task.setSeq seq)).2 with _ | blob
  · exact hend
  · refine (throttling_writeReq x _ _ _).bind fun wrote x' hx => ?_
    obtain ⟨dirty, rfl, hdirty⟩ := hx
    cases wrote with
    | true =>
      refine ⟨⟨hend.2, hend.1⟩, fun _ => ⟨rfl, fun _ => ⟨rfl, fun hd => hflush ?_⟩⟩⟩
      rcases needFlush with _ | _
      · rfl
      · cases (hdirty rfl rfl).symm.trans hd
    | false =>
      exact ⟨trivial, fun _ => ⟨trivial, fun _ => ⟨trivial, fun _ => ⟨trivial, fun _ =>
        ⟨trivial, fun _ => hend⟩⟩⟩⟩⟩

theorem throttling_sendTask (clientId : UInt64) (task : Task B) (needFlush : Bool) {x : Throttling}
    (hend : x.CanEnd) :
    Follows throttling.protocol (fun _ x => x.CanEnd) x (sendTask clientId task needFlush) := by
  refine ⟨hend.2, fun full => ⟨trivial, fun _ => ⟨trivial, fun closed => ?_⟩⟩⟩
  cases closed with
  | true => exact ⟨trivial, fun _ => ⟨trivial, fun _ => hend⟩⟩
  | false =>
    change Follows throttling.protocol _ { x with room := !full }
      (sendRequest clientId task (needFlush || full) >>= finishSend)
    have hflush : (needFlush || full) = false → (!full) = true := fun h => by
      rw [(Bool.or_eq_false_iff.mp h).2]
      rfl
    refine (throttling_sendRequest clientId task (x := { x with room := !full }) hend hflush).bind
      fun r x' hx => ?_
    obtain ⟨hreg, hx⟩ := hx
    cases r with
    | error e => exact ⟨trivial, fun _ => ⟨trivial, fun _ => ⟨hreg, hx⟩⟩⟩
    | ok _ => exact ⟨hx, fun _ => ⟨hreg, rfl⟩⟩

/-- The other calls add no guard. -/
theorem throttling_program (cfg : ConnConfig) (id : ℕ) (call : Call B) {x : Throttling}
    (hend : x.CanEnd) :
    Follows throttling.protocol (fun _ x => x.CanEnd) x (Sys.program cfg id call) := by
  cases call with
  | sendTask t needFlush => exact throttling_sendTask cfg.clientId { t with id } needFlush hend
  | flushReq =>
    refine ⟨trivial, fun ok => ?_⟩
    cases ok with
    | true => exact hend
    | false => exact ⟨trivial, fun _ => ⟨trivial, fun _ => ⟨trivial, fun _ => hend⟩⟩⟩
  | ping =>
    refine ⟨trivial, fun closed => ?_⟩
    cases closed with
    | true => exact hend
    | false =>
      refine ⟨trivial, fun seq => ⟨trivial, fun buf => ⟨trivial, fun _ => ?_⟩⟩⟩
      change Follows throttling.protocol _ x (TcpClient.writeReq _ .none true >>= _)
      refine (throttling_writeReq x _ _ _).bind fun wrote x' hx => ?_
      obtain ⟨dirty, rfl, -⟩ := hx
      cases wrote with
      | true => exact hend
      | false => exact ⟨trivial, fun _ => hend⟩
  | setErrorAndExit =>
    refine ⟨trivial, fun _ => ⟨trivial, fun ok => ?_⟩⟩
    cases ok with
    | true => exact ⟨trivial, fun _ => hend⟩
    | false => exact hend
  | drop => exact ⟨trivial, fun _ => ⟨trivial, fun _ => ⟨trivial, fun _ => hend⟩⟩⟩

/-! ## The system -/

/-- The guards against the items, and against the threshold. -/
structure Throttling.Balanced (c : Conn B) (x : Throttling) : Prop where
  accounted : c.Accounted x.registering
  bound : c.inflight + x.room.toNat ≤ c.thresholds + x.added.toNat
  cap : c.timer.pendingCap = 2 * c.thresholds
  pos : 0 < c.thresholds

namespace Throttling.Balanced

variable {c c' : Conn B} {x : Throttling}

omit [ClientTask B] in
theorem new (cfg : ConnConfig) : Throttling.none.Balanced (Conn.new cfg : Conn B) := by
  have hpos : 0 < (Conn.new cfg : Conn B).thresholds := by
    rw [Conn.new]
    dsimp only
    split <;> omega
  refine ⟨rfl, Nat.zero_le _, ?_, hpos⟩
  change (if (Conn.new cfg : Conn B).thresholds = 0 then 500 else _) * 2 = _
  rw [if_neg hpos.ne', Nat.mul_comm]
  rfl

omit [ClientTask B] in
/-- The receiver's part. -/
theorem frees (h : x.Balanced c) (hfrees : c.Frees c') (hturn : c.timer.Turn c'.timer) :
    x.Balanced c' := by
  refine ⟨hfrees.accounted _ h.accounted, ?_, ?_, ?_⟩
  · have := h.bound
    have := hfrees.inflight_le
    rw [hfrees.thresholds]
    omega
  · rw [hturn.pendingCap, hfrees.thresholds, h.cap]
  · rw [hfrees.thresholds]
    exact h.pos

omit [ClientTask B] in
/-- The sender leaves the guards and the registry alone. -/
theorem same (h : x.Balanced c) (htimer : c'.timer.live = c.timer.live)
    (hcap : c'.timer.pendingCap = c.timer.pendingCap) (hitem : c'.item = c.item)
    (hinflight : c'.inflight = c.inflight) (hthresholds : c'.thresholds = c.thresholds) :
    x.Balanced c' := by
  refine ⟨?_, ?_, ?_, ?_⟩
  · rw [Conn.Accounted, hinflight, htimer, hitem]
    exact h.accounted
  · rw [hinflight, hthresholds]
    exact h.bound
  · rw [hcap, hthresholds]
    exact h.cap
  · rw [hthresholds]
    exact h.pos

omit [ClientTask B] in
/-- The channel has room for the task being registered. -/
theorem length_lt (h : x.Balanced c) (hreg : x.registering = true) :
    c.timer.pendingTasks.length < c.timer.pendingCap := by
  have hlive : c.timer.live.length = c.timer.pulled.length + c.timer.pendingTasks.length :=
    List.length_append
  have haccounted := h.accounted
  rw [Conn.Accounted, hreg, Bool.toNat_true] at haccounted
  have := h.bound
  have := h.cap
  have := h.pos
  have : x.added.toNat ≤ 1 := Bool.toNat_le _
  omega

omit [ClientTask B] in
/-- One operation of the sender. -/
theorem exec (h : x.Balanced c) {sock : Bool} {o : SendOp B} (hok : throttling.protocol.ok x o)
    {a : o.Res} (hexec : SendOp.exec sock o c = (c', some a)) (send : SendPhase) :
    (throttling.protocol.next x o a).Balanced { c' with send } := by
  have hbound := h.bound
  have haccounted := h.accounted
  rw [Conn.Accounted] at haccounted
  cases o with
  | nearlyFull =>
    cases hexec
    have hadded : x.added = false := hok
    refine ⟨h.accounted, ?_, h.cap, h.pos⟩
    change c.inflight + (!decide (c.thresholds < c.inflight + 1)).toNat ≤
      c.thresholds + x.added.toNat
    rw [hadded, Bool.toNat_false] at hbound ⊢
    by_cases hfull : c.thresholds < c.inflight + 1
    · rw [decide_eq_true hfull, Bool.not_true, Bool.toNat_false]
      omega
    · rw [decide_eq_false hfull, Bool.not_false, Bool.toNat_true]
      omega
  | addTask =>
    cases hexec
    obtain ⟨hadded, hreg⟩ := hok
    rw [hadded, Bool.toNat_false] at hbound
    rw [hreg, Bool.toNat_false] at haccounted
    refine ⟨?_, ?_, h.cap, h.pos⟩
    · change c.inflight + 1 = c.timer.live.length + c.item.toNat + 1
      omega
    · change c.inflight + 1 + x.room.toNat ≤ c.thresholds + 1
      omega
  | regTask t =>
    obtain ⟨timer, hreg, rfl⟩ := SendOp.exec_regTask hexec
    have hlive := ClientTaskTimer.live_regTask hreg
    have hregistering : x.registering = true := hok
    rw [hregistering, Bool.toNat_true] at haccounted
    rw [ClientTaskTimer.regTask, if_pos (h.length_lt hregistering)] at hreg
    refine ⟨?_, hbound, ?_, h.pos⟩
    · change c.inflight = timer.live.length + c.item.toNat + 0
      rw [hlive, List.length_append, List.length_singleton]
      omega
    · cases hreg
      exact h.cap
  | throttle =>
    have hle : c.inflight ≤ c.thresholds := by
      by_contra hnot
      simp only [SendOp.exec, if_neg hnot] at hexec
      cases hexec
    obtain rfl := SendOp.exec_throttle hexec
    exact ⟨h.accounted, hle, h.cap, h.pos⟩
  | writeAll _ | flush =>
    cases hexec
    exact ⟨h.accounted, hbound, h.cap, h.pos⟩
  | pendingAdd | pendingSub | loadClosed | storeClosed | storeHasErr | seqUpdate | loadBuf
  | storeBuf _ | shutdownWrite | stopRegTask | errorHandle _ | dropCloseTx =>
    cases hexec
    exact h.same rfl rfl rfl rfl rfl

end Throttling.Balanced

theorem throttling_sound (cfg : ConnConfig) :
    (throttling (B := B)).Sound cfg (fun _ _ => True) (fun x => x.CanEnd ∧ x.room = false)
      Throttling.CanEnd (fun s x => x.Balanced s.conn ∧ s.receiver.Itemised s.conn) where
  call := fun {s x} h hrest call => by
    refine ⟨?_, throttling_program cfg s.conn.nextId call hrest.1⟩
    cases call <;> exact ⟨h.1.same rfl rfl rfl rfl rfl, h.2.congr rfl⟩
  op := fun {s x sock dropping o k c' a} h hok _ _ hexec => by
    refine ⟨h.1.exec hok hexec _, h.2.congr ?_⟩
    cases o with
    | regTask t =>
      obtain ⟨timer, -, rfl⟩ := SendOp.exec_regTask hexec
      rfl
    | throttle => rw [SendOp.exec_throttle hexec]
    | _ =>
      cases hexec
      rfl
  finish := fun {s x dropping r} h hend _ => by
    have hbound := h.1.bound
    refine ⟨⟨⟨h.1.accounted, ?_, h.1.cap, h.1.pos⟩, h.2.congr rfl⟩, hend, rfl⟩
    exact Nat.le_trans (Nat.add_le_add_left (Nat.zero_le _) _) hbound
  receiver := fun {s x tick arrival c' r'} h _ hstep => by
    obtain ⟨hfrees, hitem⟩ := hstep.frees h.2
    exact ⟨h.1.frees hfrees hstep.turn, hitem⟩
  clean := fun {s x} h =>
    ⟨h.1.frees (.clean _) (ClientTaskTimer.turn_cleanPendingTasks _), h.2.congr rfl⟩

/-- **Throttling.** In every state of every run: the guards out are exactly those of
the items there are; they are at most one over the threshold; a call that is
suspended in `throttle` has flushed all that was ever written; and `reg_task`
never finds the channel full. -/
theorem throttle_flushed {cfg : ConnConfig} {s : Sys B} {x : Throttling}
    (h : Lts.Reach (throttling.next cfg) (fun _ _ => True) (Sys.init cfg, .none) (s, x)) :
    s.conn.inflight =
        s.conn.timer.live.length + s.conn.item.toNat + x.registering.toNat ∧
      s.conn.inflight ≤ s.conn.thresholds + 1 ∧
      (∀ dropping k, s.sender = .running dropping (.act .throttle k) →
        s.conn.thresholds < s.conn.inflight → x.dirty = false) ∧
      (∀ dropping t k, s.sender = .running dropping (.act (.regTask t) k) →
        (s.conn.timer.regTask t).isSome = true) := by
  obtain ⟨⟨hbalanced, -⟩, halong⟩ := (throttling_sound cfg).reach
    ⟨.new cfg, itemising_recvOneResp cfg.platform⟩ ⟨⟨rfl, rfl⟩, rfl⟩ h
  have hbound := hbalanced.bound
  have hone : x.added.toNat ≤ 1 := Bool.toNat_le _
  refine ⟨hbalanced.accounted, by omega, fun dropping k hsender hover => ?_,
    fun dropping t k hsender => ?_⟩
  · rw [hsender] at halong
    have hroom : x.dirty = true → x.room = true := halong.1
    by_contra hdirty
    rw [hroom (Bool.eq_true_of_not_eq_false hdirty), Bool.toNat_true] at hbound
    omega
  · rw [hsender] at halong
    rw [ClientTaskTimer.regTask, if_pos (hbalanced.length_lt halong.1)]
    rfl

/-- Suspended in `throttle`. -/
def Sys.throttled (s : Sys B) : Bool :=
  match s.sender with
  | .running _ (.act .throttle _) => decide (s.conn.thresholds < s.conn.inflight)
  | _ => false

omit [ClientTask B] in
theorem Sys.throttled_eq_true {s : Sys B} (h : s.throttled = true) :
    (∃ dropping k, s.sender = .running dropping (.act .throttle k)) ∧
      s.conn.thresholds < s.conn.inflight := by
  unfold Sys.throttled at h
  split at h
  · rename_i dropping k hsender
    exact ⟨⟨dropping, k, hsender⟩, of_decide_eq_true h⟩
  · cases h

/-- Two tasks where one is let through: the second waits, and all is flushed. -/
theorem throttle_flushed_second :
    let cfg : ConnConfig := { Sys.apiConfig with thresholds := 1 }
    ∃ (s : Sys APIClientReq) (x : Throttling),
      Lts.Reach (throttling.next cfg) (fun _ _ => True) (Sys.init cfg, .none) (s, x) ∧
      s.throttled = true ∧ s.conn.inflight = 2 ∧ x.dirty = false := by
  intro cfg
  have hrun : (Lts.exec (throttling.next cfg) (fun _ _ => True) (Sys.init cfg, .none)
      (.call (.sendTask ⟨0, 0, .new "calc.add" [1]⟩ false) :: (Sys.sends 11 ++
        .call (.sendTask ⟨0, 0, .new "calc.add" [2]⟩ false) :: Sys.sends 10))).any
      (fun p => p.1.throttled && decide (p.1.conn.inflight = 2)) = true := by decide +kernel
  obtain ⟨⟨s, x⟩, hreach, htest⟩ := Lts.Reach.exists_of_exec hrun
  obtain ⟨hthrottled, htwo⟩ := Bool.and_eq_true_iff.mp htest
  obtain ⟨⟨dropping, k, hsender⟩, hover⟩ := Sys.throttled_eq_true hthrottled
  exact ⟨s, x, hreach, hthrottled, of_decide_eq_true htwo,
    (throttle_flushed hreach).2.2.1 dropping k hsender hover⟩

end RazorRpc
