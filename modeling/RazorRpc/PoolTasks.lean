import RazorRpc.ConnPool

/-!
# The tasks of a connection pool

All workers of a pool take their tasks from one channel, and any of them may find the
address unreachable and empty it. Workers come and go meanwhile, the monitor becomes a
worker with a task in its hands, and connections break.

* `TaskBook` — what was submitted, what left the channel and to whom, and what workers
  passed to their connections;
* `Worker.Handles` — what a step of a worker does with tasks: it takes one from the channel,
  passes one on, fails one, or leaves them alone;
* `Accounted` — the invariant.

The results are `tasks_conserved` and `tasks_in_order`.
-/

namespace RazorRpc

variable {B : Type}

/-! ## Who has which task -/

/-- The task a worker has in its hands. -/
def Worker.held (w : Worker B) : Option (Task B) :=
  match w.pos with
  | .received task | .takingOver task | .sending task | .forwarding task => some task
  | _ => none

/-- What a worker does with a task. -/
inductive TaskMove (B : Type) : Type where
  /-- it takes it from the channel -/
  | take (task : Task B)
  /-- it calls `send_task` -/
  | pass (task : Task B)
  /-- it takes it from the channel, in `cleanup` -/
  | fail (task : Task B)

/-- What the next step of a worker does with tasks. -/
def Worker.taskMove (w : Worker B) (inner : ConnPoolInner B) : Option (TaskMove B) :=
  match w.pos with
  | .receiving | .serving | .draining => inner.rx.head?.map .take
  | .sending task | .forwarding task => some (.pass task)
  | .cleaning _ => inner.rx.head?.map .fail
  | _ => none

/-- What has become of the tasks of a pool. -/
structure TaskBook (B : Type) where
  submitted : List (Task B)
  /-- what left the channel, with the worker that took it; `none` where it was failed -/
  taken : List (Option ℕ × Task B)
  /-- the calls of `send_task`, each with the worker that made it -/
  passed : List (ℕ × Task B)

namespace TaskBook

def empty : TaskBook B := ⟨[], [], []⟩

/-- Worker `i` does this with a task. -/
def note (book : TaskBook B) (i : ℕ) : TaskMove B → TaskBook B
  | .take task => { book with taken := book.taken ++ [(some i, task)] }
  | .pass task => { book with passed := book.passed ++ [(i, task)] }
  | .fail task => { book with taken := book.taken ++ [(none, task)] }

/-- The last of them are failed. -/
def failAll (book : TaskBook B) (tasks : List (Task B)) : TaskBook B :=
  { book with taken := book.taken ++ tasks.map fun task => (none, task) }

def update (book : TaskBook B) (p : ConnPool B) : PoolEvent B → TaskBook B
  | .sendReq task => { book with submitted := book.submitted ++ [task] }
  | .worker i _ =>
    match (p.workers[i]?).bind (·.taskMove p.inner) with
    | some move => book.note i move
    | none => book
  | .dropInner => book.failAll p.inner.rx
  | .spawn | .dropHandles => book

/-- The tasks that were failed as unreachable. -/
def failed (book : TaskBook B) : List (Task B) := (book.taken.filter (·.1.isNone)).map Prod.snd

/-- The tasks that workers took. -/
def takenUp (book : TaskBook B) : List (Task B) := (book.taken.filter (·.1.isSome)).map Prod.snd

/-- The tasks that worker `i` took. -/
def takenBy (book : TaskBook B) (i : ℕ) : List (Task B) :=
  (book.taken.filter (·.1 = some i)).map Prod.snd

/-- The tasks that worker `i` passed to its connections. -/
def passedBy (book : TaskBook B) (i : ℕ) : List (Task B) :=
  (book.passed.filter (·.1 = i)).map Prod.snd

/-- What left the channel was taken up by a worker or failed. -/
theorem perm_taken (book : TaskBook B) :
    (book.taken.map Prod.snd).Perm (book.takenUp ++ book.failed) := by
  have hperm := List.filter_append_perm (fun a : Option ℕ × Task B => a.1.isSome) book.taken
  have hnone : ∀ a : Option ℕ × Task B, (!a.1.isSome) = a.1.isNone := by
    rintro ⟨_ | i, task⟩ <;> rfl
  simp only [hnone] at hperm
  rw [takenUp, failed, ← List.map_append]
  exact (hperm.map Prod.snd).symm

section

variable (book : TaskBook B) (i j : ℕ) (task : Task B)

/-- One more record. -/
theorem map_filter_concat {ι : Type} (f : ι × Task B → Bool) (l : List (ι × Task B))
    (a : ι × Task B) :
    ((l ++ [a]).filter f).map Prod.snd =
      (l.filter f).map Prod.snd ++ if f a = true then [a.2] else [] := by
  rw [List.filter_append, List.map_append]
  by_cases hf : f a = true
  · rw [List.filter_cons_of_pos hf, if_pos hf]
    rfl
  · rw [List.filter_cons_of_neg hf, if_neg hf]
    rfl

theorem takenUp_take : (book.note i (.take task)).takenUp = book.takenUp ++ [task] :=
  map_filter_concat _ _ _

theorem takenUp_fail : (book.note i (.fail task)).takenUp = book.takenUp :=
  (map_filter_concat _ _ _).trans (List.append_nil _)

theorem failed_take : (book.note i (.take task)).failed = book.failed :=
  (map_filter_concat _ _ _).trans (List.append_nil _)

theorem failed_fail : (book.note i (.fail task)).failed = book.failed ++ [task] :=
  map_filter_concat _ _ _

theorem takenBy_take :
    (book.note i (.take task)).takenBy j = book.takenBy j ++ if i = j then [task] else [] := by
  refine (map_filter_concat _ _ _).trans (congrArg _ ?_)
  simp only [decide_eq_true_eq, Option.some.injEq]

theorem takenBy_fail : (book.note i (.fail task)).takenBy j = book.takenBy j :=
  (map_filter_concat _ _ _).trans (List.append_nil _)

theorem passedBy_pass :
    (book.note i (.pass task)).passedBy j = book.passedBy j ++ if i = j then [task] else [] := by
  refine (map_filter_concat _ _ _).trans (congrArg _ ?_)
  simp only [decide_eq_true_eq]

theorem failed_failAll (tasks : List (Task B)) :
    (book.failAll tasks).failed = book.failed ++ tasks := by
  have hall : (tasks.map fun t => ((none : Option ℕ), t)).filter (·.1.isNone) =
      tasks.map fun t => (none, t) := by
    rw [List.filter_map]
    exact congrArg _ (List.filter_eq_self.mpr fun _ _ => rfl)
  rw [failed, failAll, List.filter_append, hall, List.map_append, List.map_map]
  exact congrArg _ (List.map_id _)

/-- What is failed counts for no worker. -/
theorem filter_failAll {f : Option ℕ × Task B → Bool} (hf : ∀ t, f (none, t) = false)
    (tasks : List (Task B)) : (book.failAll tasks).taken.filter f = book.taken.filter f := by
  have hnil : (tasks.map fun t => ((none : Option ℕ), t)).filter f = [] := by
    rw [List.filter_map, List.map_eq_nil_iff, List.filter_eq_nil_iff]
    exact fun t _ h => Bool.noConfusion ((hf t).symm.trans h)
  rw [failAll, List.filter_append, hnil, List.append_nil]

theorem takenUp_failAll (tasks : List (Task B)) : (book.failAll tasks).takenUp = book.takenUp :=
  congrArg (List.map Prod.snd) (book.filter_failAll (fun _ => rfl) tasks)

theorem takenBy_failAll (tasks : List (Task B)) :
    (book.failAll tasks).takenBy i = book.takenBy i :=
  congrArg (List.map Prod.snd) (book.filter_failAll (fun _ => rfl) tasks)

end

end TaskBook

namespace ConnPool

/-- The tasks in the hands of workers. -/
def held (p : ConnPool B) : List (Task B) := p.workers.filterMap Worker.held

/-- The task in the hands of worker `i`. -/
def heldBy (p : ConnPool B) (i : ℕ) : Option (Task B) := p.workers[i]?.bind Worker.held

end ConnPool

/-! ## Steps of a worker -/

namespace Worker

variable [ClientTask B]

/-- What a step of a worker does with tasks. -/
inductive Handles (inner : ConnPoolInner B) (w : Worker B) (r : Stepped B) :
    Option (TaskMove B) → Prop
  | nothing (hrx : r.inner.rx = inner.rx) (hhandled : r.inner.handled = inner.handled)
      (hheld : r.worker.held = w.held) : Handles inner w r none
  | take {task : Task B} (hrx : inner.rx = task :: r.inner.rx)
      (hhandled : r.inner.handled = inner.handled) (hfree : w.held = none)
      (hheld : r.worker.held = some task) : Handles inner w r (some (.take task))
  | pass {task : Task B} (hrx : r.inner.rx = inner.rx) (hhandled : r.inner.handled = inner.handled)
      (hheld : w.held = some task) (hfree : r.worker.held = none) :
      Handles inner w r (some (.pass task))
  | fail {task : Task B} (hrx : inner.rx = task :: r.inner.rx)
      (hhandled : r.inner.handled = inner.handled ++ [task.setRpcError .unreachable])
      (hbefore : w.held = none) (hfree : r.worker.held = none) :
      Handles inner w r (some (.fail task))

omit [ClientTask B] in
theorem tasks_noteConnected (inner : ConnPoolInner B) (i : ℕ) (w : Worker B) :
    (inner.noteConnected i w).rx = inner.rx ∧
      (inner.noteConnected i w).handled = inner.handled := by
  rw [ConnPoolInner.noteConnected]
  split
  · exact ⟨rfl, rfl⟩
  · exact ⟨rfl, rfl⟩

/-- Every step, by the position of the worker. -/
theorem handles_of_step {i : ℕ} {answer : Bool} {inner : ConnPoolInner B} {w : Worker B}
    {r : Stepped B} (h : w.step i answer inner = some r) :
    Handles inner w r (w.taskMove inner) ∧ ∀ w' ∈ r.spawned, w'.held = none := by
  have hnone : ∀ w' ∈ (none : Option (Worker B)), w'.held = none :=
    fun _ h => absurd h (Option.not_mem_none _)
  obtain ⟨id, pos⟩ := w
  rw [step] at h
  cases pos with
  | connecting =>
    cases answer with
    | true =>
      cases h
      obtain ⟨hrx, hhandled⟩ := tasks_noteConnected inner i ⟨id, .connecting⟩
      refine ⟨.nothing hrx hhandled ?_, hnone⟩
      change Worker.held ⟨id, if id = 0 then .counting else .entering⟩ = none
      split <;> rfl
    | false =>
      cases h
      exact ⟨.nothing rfl rfl rfl, hnone⟩
  | counting =>
    cases h
    refine ⟨.nothing rfl rfl ?_, hnone⟩
    change Worker.held ⟨id, if 1 < inner.workerCount then .napping else .receiving⟩ = none
    split <;> rfl
  | napping | sleeping | entering =>
    cases h
    exact ⟨.nothing rfl rfl rfl, hnone⟩
  | pinging alone =>
    cases answer with
    | true =>
      cases h
      exact ⟨.nothing rfl rfl rfl, hnone⟩
    | false =>
      cases h
      cases alone <;> exact ⟨.nothing rfl rfl rfl, hnone⟩
  | receiving =>
    obtain ⟨rx, channelSize, connected, isOk, workerCount, count, handled, recovery⟩ := inner
    cases rx with
    | cons task rx =>
      cases h
      exact ⟨.take rfl rfl rfl rfl, hnone⟩
    | nil =>
      simp only at h
      split at h
      · cases h
        exact ⟨.nothing rfl rfl rfl, hnone⟩
      · split at h
        · cases h
          exact ⟨.nothing rfl rfl rfl, hnone⟩
        · cases h
  | received task =>
    simp only at h
    split at h
    · cases h
      exact ⟨.nothing rfl rfl rfl, hnone⟩
    · cases h
      exact ⟨.nothing rfl rfl rfl, hnone⟩
  | takingOver task =>
    simp only at h
    split at h
    · -- the monitor goes on with its task, and the new one has none
      cases h
      refine ⟨.nothing rfl rfl rfl, fun w' hw' => ?_⟩
      cases hw'
      rfl
    · cases h
      exact ⟨.nothing rfl rfl rfl, hnone⟩
  | sending task =>
    cases answer with
    | true =>
      cases h
      refine ⟨.pass rfl rfl rfl ?_, hnone⟩
      change Worker.held ⟨id, if id = 0 then .counting else .entering⟩ = none
      split <;> rfl
    | false =>
      cases h
      exact ⟨.pass rfl rfl rfl rfl, hnone⟩
  | failing after =>
    cases h
    cases after <;> exact ⟨.nothing rfl rfl rfl, hnone⟩
  | cleaning nap =>
    obtain ⟨rx, channelSize, connected, isOk, workerCount, count, handled, recovery⟩ := inner
    cases rx with
    | cons task rx =>
      cases h
      exact ⟨.fail rfl rfl rfl rfl, hnone⟩
    | nil =>
      cases h
      cases nap <;> exact ⟨.nothing rfl rfl rfl, hnone⟩
  | serving =>
    obtain ⟨rx, channelSize, connected, isOk, workerCount, count, handled, recovery⟩ := inner
    cases rx with
    | cons task rx =>
      cases h
      exact ⟨.take rfl rfl rfl rfl, hnone⟩
    | nil =>
      simp only at h
      split at h
      · cases h
        exact ⟨.nothing rfl rfl rfl, hnone⟩
      · cases h
  | forwarding task =>
    cases answer <;> cases h <;> exact ⟨.pass rfl rfl rfl rfl, hnone⟩
  | draining =>
    obtain ⟨rx, channelSize, connected, isOk, workerCount, count, handled, recovery⟩ := inner
    cases rx with
    | cons task rx =>
      cases h
      exact ⟨.take rfl rfl rfl rfl, hnone⟩
    | nil =>
      cases h
      exact ⟨.nothing rfl rfl rfl, hnone⟩
  | flushing last =>
    cases answer with
    | true =>
      cases h
      cases last <;> exact ⟨.nothing rfl rfl rfl, hnone⟩
    | false =>
      cases h
      exact ⟨.nothing rfl rfl rfl, hnone⟩
  | leaving ok =>
    cases h
    cases ok <;> exact ⟨.nothing rfl rfl rfl, hnone⟩
  | exiting =>
    cases h
    exact ⟨.nothing rfl rfl rfl, hnone⟩
  | ended => cases h

end Worker

/-! ## The hands of the workers -/

/-- One of them changes. -/
theorem filterMap_set_perm {α β : Type} {f : α → Option β} {l : List α} {i : ℕ} {a : α}
    (h : l[i]? = some a) (a' : α) :
    ((l.set i a').filterMap f ++ (f a).toList).Perm (l.filterMap f ++ (f a').toList) := by
  have hcons : ∀ b l, (b :: l).filterMap f = (f b).toList ++ l.filterMap f := by
    intro b l
    rw [List.filterMap_cons]
    cases f b <;> rfl
  induction l generalizing i with
  | nil => cases h
  | cons b l ih =>
    cases i with
    | zero =>
      cases h
      rw [List.set_cons_zero, hcons, hcons]
      refine List.perm_append_comm.trans ?_
      rw [List.append_assoc]
      exact List.perm_append_comm.append_left _
    | succ i =>
      rw [List.set_cons_succ, hcons, hcons, List.append_assoc, List.append_assoc]
      exact (ih h).append_left _

namespace ConnPool

variable {p : ConnPool B} {i : ℕ} {w : Worker B} {r : Stepped B}

/-- The tasks in hand after a step of worker `i`. -/
theorem held_step (hw : p.workers[i]? = some w) (hspawned : ∀ w' ∈ r.spawned, w'.held = none) :
    ((p.workers.set i r.worker ++ r.spawned.toList).filterMap Worker.held ++ w.held.toList).Perm
      (p.held ++ r.worker.held.toList) := by
  have hnil : r.spawned.toList.filterMap Worker.held = [] := by
    rw [List.filterMap_eq_nil_iff]
    exact fun w' hw' => hspawned w' (Option.mem_toList.mp hw')
  rw [List.filterMap_append, hnil, List.append_nil]
  exact filterMap_set_perm hw r.worker

/-- New workers have nothing in their hands. -/
theorem bind_held_append {workers new : List (Worker B)} (hnew : ∀ w ∈ new, w.held = none)
    (j : ℕ) : (workers ++ new)[j]?.bind Worker.held = workers[j]?.bind Worker.held := by
  by_cases hj : j < workers.length
  · rw [List.getElem?_append_left hj]
  · have hle := Nat.le_of_not_lt hj
    rw [List.getElem?_append_right hle, List.getElem?_eq_none hle, Option.bind_none,
      Option.bind_eq_none_iff]
    exact fun w hw => hnew w (List.mem_of_getElem? hw)

/-- The others keep what they have. -/
theorem heldBy_step (hw : p.workers[i]? = some w) (hspawned : ∀ w' ∈ r.spawned, w'.held = none)
    (j : ℕ) :
    (p.workers.set i r.worker ++ r.spawned.toList)[j]?.bind Worker.held =
      if i = j then r.worker.held else p.heldBy j := by
  obtain ⟨hi, -⟩ := List.getElem?_eq_some_iff.mp hw
  rw [bind_held_append fun w' hw' => hspawned w' (Option.mem_toList.mp hw'), List.getElem?_set]
  by_cases hij : i = j
  · subst hij
    rw [if_pos rfl, if_pos hi, if_pos rfl, Option.bind_some]
  · rw [if_neg hij, if_neg hij, heldBy]

end ConnPool

/-! ## The invariant -/

/-- Every task is in one place, and workers take them in the order of the channel. -/
structure ConnPool.Accounted [ClientTask B] (p : ConnPool B) (book : TaskBook B) : Prop where
  channel : book.submitted = book.taken.map Prod.snd ++ p.inner.rx
  handled : p.inner.handled = book.failed.map (·.setRpcError .unreachable)
  inHand : book.takenUp.Perm (book.passed.map Prod.snd ++ p.held)
  byWorker : ∀ i, book.takenBy i = book.passedBy i ++ (p.heldBy i).toList
  gone : p.innerDropped = true →
    p.inner.connected = false ∧ p.inner.rx = [] ∧ ∀ w ∈ p.workers, w.hasEnded = true

namespace ConnPool.Accounted

variable [ClientTask B] {p p' : ConnPool B} {book : TaskBook B}

theorem new (thresholds channelSize : ℕ) :
    (ConnPool.new thresholds channelSize : ConnPool B).Accounted .empty := by
  refine ⟨rfl, rfl, List.Perm.refl _, fun i => ?_, Bool.noConfusion⟩
  cases i <;> rfl

/-- A step of a worker. -/
theorem worker (h : p.Accounted book) {i : ℕ} {answer : Bool}
    (hnext : p.next (.worker i answer) = some p') :
    p'.Accounted (book.update p (.worker i answer)) := by
  obtain ⟨w, hw, hnext⟩ := Option.bind_eq_some_iff.mp hnext
  obtain ⟨r, hstep, hnext⟩ := Option.bind_eq_some_iff.mp hnext
  cases hnext
  obtain ⟨hhandles, hspawned⟩ := Worker.handles_of_step hstep
  have hheld := held_step hw hspawned
  have hheldBy := heldBy_step hw hspawned
  have hmine : p.heldBy i = w.held := by rw [heldBy, hw, Option.bind_some]
  -- who has ended makes no step
  have hgone : p.innerDropped = true → False := by
    intro hdropped
    have hended := (h.gone hdropped).2.2 w (List.mem_of_getElem? hw)
    obtain ⟨id, pos⟩ := w
    cases pos with
    | ended => cases hstep
    | _ => cases hended
  have hupdate : book.update p (.worker i answer) =
      ((w.taskMove p.inner).map (book.note i)).getD book := by
    simp only [TaskBook.update, hw, Option.bind_some]
    cases w.taskMove p.inner <;> rfl
  rw [hupdate]
  generalize w.taskMove p.inner = move at hhandles
  cases hhandles with
  | nothing hrx hhandled hsame =>
    refine ⟨hrx ▸ h.channel, hhandled.trans h.handled, ?_, fun j => ?_, fun h => (hgone h).elim⟩
    · rw [hsame] at hheld
      exact h.inHand.trans (((List.perm_append_right_iff _).mp hheld).symm.append_left _)
    · change book.takenBy j = book.passedBy j ++ (heldBy _ j).toList
      rw [heldBy, hheldBy, h.byWorker]
      split
      · rename_i heq
        rw [← heq, hmine, hsame]
      · rfl
  | @take task hrx hhandled hfree hhas =>
    refine ⟨?_, ?_, ?_, fun j => ?_, fun h => (hgone h).elim⟩
    · change book.submitted = (book.taken ++ [(some i, task)]).map Prod.snd ++ r.inner.rx
      rw [h.channel, hrx, List.map_append, List.append_assoc]
      rfl
    · change r.inner.handled = (book.note i (.take task)).failed.map _
      rw [hhandled, h.handled, TaskBook.failed_take]
    · change ((book.note i (.take task)).takenUp).Perm _
      rw [hfree, hhas, Option.toList_none, List.append_nil] at hheld
      rw [TaskBook.takenUp_take]
      refine (h.inHand.append_right _).trans ?_
      rw [List.append_assoc]
      exact hheld.symm.append_left _
    · change (book.note i (.take task)).takenBy j = book.passedBy j ++ (heldBy _ j).toList
      rw [heldBy, hheldBy, TaskBook.takenBy_take, h.byWorker, List.append_assoc]
      refine congrArg _ ?_
      by_cases hij : i = j
      · subst hij
        rw [if_pos rfl, if_pos rfl, hmine, hfree, hhas]
        rfl
      · rw [if_neg hij, if_neg hij, List.append_nil]
  | @pass task hrx hhandled hhad hfree =>
    refine ⟨hrx ▸ h.channel, hhandled.trans h.handled, ?_, fun j => ?_, fun h => (hgone h).elim⟩
    · rw [hhad, hfree, Option.toList_none, List.append_nil] at hheld
      change book.takenUp.Perm ((book.passed ++ [(i, task)]).map Prod.snd ++ held _)
      rw [List.map_append, List.append_assoc]
      refine h.inHand.trans (List.Perm.append_left _ (hheld.symm.trans ?_))
      exact List.perm_append_comm
    · change book.takenBy j = (book.note i (.pass task)).passedBy j ++ (heldBy _ j).toList
      rw [heldBy, hheldBy, TaskBook.passedBy_pass, h.byWorker, List.append_assoc]
      refine congrArg _ ?_
      by_cases hij : i = j
      · subst hij
        rw [if_pos rfl, if_pos rfl, hmine, hhad, hfree]
        rfl
      · rw [if_neg hij, if_neg hij, List.nil_append]
  | @fail task hrx hhandled hbefore hfree =>
    refine ⟨?_, ?_, ?_, fun j => ?_, fun h => (hgone h).elim⟩
    · change book.submitted = (book.taken ++ [(none, task)]).map Prod.snd ++ r.inner.rx
      rw [h.channel, hrx, List.map_append, List.append_assoc]
      rfl
    · change r.inner.handled = (book.note i (.fail task)).failed.map _
      rw [hhandled, h.handled, TaskBook.failed_fail, List.map_append]
      rfl
    · change ((book.note i (.fail task)).takenUp).Perm _
      rw [hbefore, hfree, Option.toList_none, List.append_nil, List.append_nil] at hheld
      rw [TaskBook.takenUp_fail]
      exact h.inHand.trans (hheld.symm.append_left _)
    · change (book.note i (.fail task)).takenBy j = book.passedBy j ++ (heldBy _ j).toList
      rw [heldBy, hheldBy, TaskBook.takenBy_fail, h.byWorker]
      split
      · rename_i heq
        rw [← heq, hmine, hbefore, hfree]
      · rfl

/-- The pool itself is dropped: what is in the channel fails. -/
theorem dropInner (h : p.Accounted book) (hnext : p.next .dropInner = some p') :
    p'.Accounted (book.update p .dropInner) := by
  simp only [next] at hnext
  split at hnext
  · rename_i hlast
    rw [Bool.and_eq_true, Bool.and_eq_true] at hlast
    cases hnext
    refine ⟨?_, ?_, ?_, fun i => ?_, fun _ => ⟨?_, rfl, ?_⟩⟩
    · change book.submitted = (book.taken ++ _).map Prod.snd ++ []
      rw [h.channel, List.map_append, List.map_map, List.append_nil]
      exact congrArg _ (List.map_id _).symm
    · change p.inner.handled ++ _ = (book.failAll p.inner.rx).failed.map _
      rw [h.handled, TaskBook.failed_failAll, List.map_append]
    · change (book.failAll p.inner.rx).takenUp.Perm _
      rw [TaskBook.takenUp_failAll]
      exact h.inHand
    · change (book.failAll p.inner.rx).takenBy i = _
      rw [TaskBook.takenBy_failAll]
      exact h.byWorker i
    · exact Bool.not_eq_true' _ ▸ hlast.1.1
    · exact List.all_eq_true.mp hlast.1.2
  · cases hnext

theorem step (h : p.Accounted book) {e : PoolEvent B} (hnext : p.next e = some p') :
    p'.Accounted (book.update p e) := by
  cases e with
  | worker i answer => exact h.worker hnext
  | dropInner => exact h.dropInner hnext
  | dropHandles =>
    cases hnext
    exact ⟨h.channel, h.handled, h.inHand, h.byWorker, fun hd => ⟨rfl, (h.gone hd).2⟩⟩
  | spawn =>
    simp only [next] at hnext
    split at hnext
    · rename_i hconnected
      cases hnext
      have hheld : held p.spawn = p.held := by
        rw [held, ConnPool.spawn, List.filterMap_append]
        exact List.append_nil _
      have hheldBy : ∀ i, heldBy p.spawn i = p.heldBy i := by
        intro i
        refine bind_held_append (fun w hw => ?_) i
        rw [List.mem_singleton.mp hw]
        rfl
      refine ⟨h.channel, h.handled, hheld ▸ h.inHand, fun i => ?_, fun hd => ?_⟩
      · rw [hheldBy]
        exact h.byWorker i
      · cases hconnected.symm.trans (h.gone hd).1
    · cases hnext
  | sendReq task =>
    simp only [next] at hnext
    split at hnext
    · rename_i hopen
      cases hnext
      rw [Bool.and_eq_true] at hopen
      refine ⟨?_, h.handled, h.inHand, h.byWorker, fun hd => ?_⟩
      · change book.submitted ++ [task] = book.taken.map Prod.snd ++ (p.inner.rx ++ [task])
        rw [h.channel, List.append_assoc]
      · cases hopen.1.symm.trans (h.gone hd).1
    · cases hnext

end ConnPool.Accounted

/-! ## Whole runs -/

namespace ConnPool

variable [ClientTask B] {thresholds channelSize : ℕ} {s : ConnPool B × TaskBook B}

theorem accounted_of_reach (h : Lts.Reach (Lts.watch next TaskBook.update) (fun _ _ => True)
    (new thresholds channelSize, .empty) s) : s.1.Accounted s.2 := by
  refine h.invariant (I := fun s => s.1.Accounted s.2) (Accounted.new _ _) ?_
  rintro ⟨p, book⟩ e ⟨p', book'⟩ h - hnext
  obtain ⟨hnext, hbook⟩ := Lts.watch_eq_some.mp hnext
  rw [← hbook]
  exact h.step hnext


/-- **No task is lost, and none has two fates.** In every run of a pool, however its workers
come and go and whatever their connections do: each task submitted is in the channel, or in
the hands of one worker, or was passed to a connection by one call of `send_task`, or was
handed to `error_handle` as unreachable; and once the pool is gone, it was one of the last
two. -/
theorem tasks_conserved (h : Lts.Reach (Lts.watch next TaskBook.update) (fun _ _ => True)
    (new thresholds channelSize, .empty) s) :
    s.2.submitted.Perm (s.1.inner.rx ++ s.1.held ++ s.2.passed.map Prod.snd ++ s.2.failed) ∧
      s.1.inner.handled = s.2.failed.map (·.setRpcError .unreachable) ∧
      (s.1.innerDropped = true →
        s.2.submitted.Perm (s.2.passed.map Prod.snd ++ s.2.failed)) := by
  have hinv := accounted_of_reach h
  have hperm : s.2.submitted.Perm
      (s.1.inner.rx ++ s.1.held ++ s.2.passed.map Prod.snd ++ s.2.failed) := by
    rw [hinv.channel, List.append_assoc, List.append_assoc]
    refine List.perm_append_comm.trans (List.Perm.append_left _ ?_)
    have htaken := hinv.inHand.trans List.perm_append_comm
    refine s.2.perm_taken.trans ((htaken.append_right _).trans ?_)
    rw [List.append_assoc]
  refine ⟨hperm, hinv.handled, fun hdropped => ?_⟩
  obtain ⟨-, hempty, hended⟩ := hinv.gone hdropped
  have hheld : s.1.held = [] := by
    rw [held, List.filterMap_eq_nil_iff]
    rintro ⟨id, pos⟩ hw
    have hend := hended _ hw
    cases pos with
    | ended => rfl
    | _ => cases hend
  rw [hempty, hheld] at hperm
  exact hperm

def addTask (id : ℕ) : Task APIClientReq := ⟨id, 0, .new "calc.add" [146, 1, 2]⟩

/-- The monitor becomes a worker with its first task; its successor is refused and empties the
channel. -/
def fiveTasks : List (PoolEvent APIClientReq) :=
  [.worker 0 true, .worker 0 true, .sendReq (addTask 0), .worker 0 true, .worker 0 true,
    .worker 0 true, .worker 0 true, .worker 0 true, .sendReq (addTask 1), .sendReq (addTask 2),
    .worker 0 true, .worker 0 true, .worker 1 false, .worker 1 false, .worker 1 false,
    .sendReq (addTask 3), .worker 0 true, .sendReq (addTask 4)]

/-- Two tasks passed on, one failed, one in hand, one in the channel. -/
theorem tasks_conserved_five :
    ∃ s : ConnPool APIClientReq × TaskBook APIClientReq,
      Lts.Reach (Lts.watch next TaskBook.update) (fun _ _ => True) (new 128 0, .empty) s ∧
      (s.2.passed.length = 2 ∧ s.2.failed.length = 1 ∧ s.1.held.length = 1 ∧
        s.1.inner.rx.length = 1) ∧
      s.2.submitted.Perm (s.1.inner.rx ++ s.1.held ++ s.2.passed.map Prod.snd ++ s.2.failed) := by
  have hrun : (Lts.exec (Lts.watch next TaskBook.update) (fun _ _ => True) (new 128 0, .empty)
      fiveTasks).any (fun s => decide (s.2.passed.length = 2 ∧ s.2.failed.length = 1 ∧
        s.1.held.length = 1 ∧ s.1.inner.rx.length = 1)) = true := by decide +kernel
  obtain ⟨s, hreach, htest⟩ := Lts.Reach.exists_of_exec hrun
  exact ⟨s, hreach, of_decide_eq_true htest, (tasks_conserved hreach).1⟩

/-- **Every connection gets its tasks in the order in which they were submitted**: what a
worker has passed to its connections, and the task in its hands, were submitted in this order;
and what is still in the channel was submitted last. -/
theorem tasks_in_order (h : Lts.Reach (Lts.watch next TaskBook.update) (fun _ _ => True)
    (new thresholds channelSize, .empty) s) :
    (∀ i, (s.2.passedBy i ++ (s.1.heldBy i).toList).Sublist s.2.submitted) ∧
      s.1.inner.rx <:+ s.2.submitted := by
  have hinv := accounted_of_reach h
  rw [hinv.channel]
  refine ⟨fun i => ?_, List.suffix_append _ _⟩
  rw [← hinv.byWorker]
  exact (List.filter_sublist.map Prod.snd).trans (List.sublist_append_left _ _)

/-- The first worker has passed on two tasks and holds a third. -/
theorem tasks_in_order_five :
    ∃ s : ConnPool APIClientReq × TaskBook APIClientReq,
      Lts.Reach (Lts.watch next TaskBook.update) (fun _ _ => True) (new 128 0, .empty) s ∧
      (s.2.passedBy 0 ++ (s.1.heldBy 0).toList).length = 3 ∧
      (s.2.passedBy 0 ++ (s.1.heldBy 0).toList).Sublist s.2.submitted := by
  have hrun : (Lts.exec (Lts.watch next TaskBook.update) (fun _ _ => True) (new 128 0, .empty)
      fiveTasks).any (fun s => decide ((s.2.passedBy 0 ++ (s.1.heldBy 0).toList).length = 3)) =
        true := by decide +kernel
  obtain ⟨s, hreach, htest⟩ := Lts.Reach.exists_of_exec hrun
  exact ⟨s, hreach, of_decide_eq_true htest, (tasks_in_order hreach).1 0⟩

end ConnPool

end RazorRpc
