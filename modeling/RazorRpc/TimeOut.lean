import RazorRpc.Age

/-!
# When a task times out (`stream/src/client/timer.rs`)

The queue of batches starts empty, grows to `task_timeout` and then loses its last
batch with every tick. A task is in the batch whose place is the number of ticks since
it was pulled (`At`), so the tick that finds it behind `task_timeout` others is the one
after `task_timeout` ticks. Whatever else is done meanwhile, tasks taken out of the
middle of batches included, moves no task to another batch.

* `TimerStep`, `TimerRun` — the operations on a registry, in any order, and what they
  hand out;
* `Spent` — a number that has been registered and is not any more;
* `timesOut_exactly` — the result, over whole runs.
-/

namespace RazorRpc

open ClientTaskTimer

/-! ## Runs of a registry -/

/-- What an operation hands out: the task that was asked for, or the tasks that are
given to `error_handle` when a second has passed. -/
inductive TimerEvent (B : Type) : Type where
  | quiet
  | took (x : Task B)
  | tick (late : List (Task B))

namespace TimerEvent

variable {B : Type}

/-- The event of a `take_task`, which may wait or find nothing. -/
def ofTake : Option (Option (Task B)) → TimerEvent B
  | some (some x) => .took x
  | _ => .quiet

def handed : TimerEvent B → List (Task B)
  | quiet => []
  | took x => [x]
  | tick late => late

/-- The tasks that were taken. -/
def taken (es : List (TimerEvent B)) : List (Task B) :=
  es.filterMap fun
    | took x => some x
    | _ => none

/-- What each call of `adjust_task_queue` gave to `error_handle`, one after another. -/
def ticks (es : List (TimerEvent B)) : List (List (Task B)) :=
  es.filterMap fun
    | tick late => some late
    | _ => none

@[simp] theorem taken_nil : taken ([] : List (TimerEvent B)) = [] := rfl

@[simp] theorem taken_quiet (es : List (TimerEvent B)) : taken (quiet :: es) = taken es := rfl

@[simp] theorem taken_took (x : Task B) (es : List (TimerEvent B)) :
    taken (took x :: es) = x :: taken es := rfl

@[simp] theorem taken_tick (late : List (Task B)) (es : List (TimerEvent B)) :
    taken (tick late :: es) = taken es := rfl

@[simp] theorem ticks_nil : ticks ([] : List (TimerEvent B)) = [] := rfl

@[simp] theorem ticks_quiet (es : List (TimerEvent B)) : ticks (quiet :: es) = ticks es := rfl

@[simp] theorem ticks_took (x : Task B) (es : List (TimerEvent B)) :
    ticks (took x :: es) = ticks es := rfl

@[simp] theorem ticks_tick (late : List (Task B)) (es : List (TimerEvent B)) :
    ticks (tick late :: es) = late :: ticks es := rfl

theorem handed_of_mem_ticks {es : List (TimerEvent B)} {late : List (Task B)}
    (h : late ∈ ticks es) {y : Task B} (hy : y ∈ late) : ∃ e ∈ es, y ∈ e.handed := by
  obtain ⟨e, he, heq⟩ := List.mem_filterMap.mp h
  cases e with
  | quiet => cases heq
  | took x => cases heq
  | tick late' =>
    cases heq
    exact ⟨_, he, hy⟩

theorem handed_of_mem_taken {es : List (TimerEvent B)} {x : Task B} (h : x ∈ taken es) :
    ∃ e ∈ es, x ∈ e.handed := by
  obtain ⟨e, he, heq⟩ := List.mem_filterMap.mp h
  cases e with
  | quiet => cases heq
  | tick late => cases heq
  | took x' =>
    cases heq
    exact ⟨_, he, List.mem_singleton_self x⟩

end TimerEvent

open TimerEvent

/-- A registry, with the last number registered. -/
structure Numbered (B : Type) where
  hi : ℕ
  timer : ClientTaskTimer B

variable {B : Type} [ClientTask B]

/-- One operation: the first two are the sender's, which draws its numbers from a
counter. -/
inductive TimerStep : Numbered B → TimerEvent B → Numbered B → Prop
  | regTask {hi : ℕ} {t t' : ClientTaskTimer B} (x : Task B) (hx : hi < x.key)
      (h : t.regTask x = some t') : TimerStep ⟨hi, t⟩ .quiet ⟨x.key, t'⟩
  | stopRegTask {hi : ℕ} {t : ClientTaskTimer B} :
      TimerStep ⟨hi, t⟩ .quiet ⟨hi, t.stopRegTask⟩
  | pollSentTask {hi : ℕ} {t : ClientTaskTimer B} :
      TimerStep ⟨hi, t⟩ .quiet ⟨hi, t.pollSentTask.1⟩
  | takeTask {hi : ℕ} {t : ClientTaskTimer B} (seq : ℕ) :
      TimerStep ⟨hi, t⟩ (.ofTake (t.takeTask seq).2) ⟨hi, (t.takeTask seq).1⟩
  | resumeTakeTask {hi : ℕ} {t : ClientTaskTimer B} (seq : ℕ) :
      TimerStep ⟨hi, t⟩ (.ofTake (t.resumeTakeTask seq).2) ⟨hi, (t.resumeTakeTask seq).1⟩
  | checkPendingTasksEmpty {hi : ℕ} {t : ClientTaskTimer B} :
      TimerStep ⟨hi, t⟩ .quiet ⟨hi, t.checkPendingTasksEmpty.1⟩
  | adjustTaskQueue {hi : ℕ} {t : ClientTaskTimer B} :
      TimerStep ⟨hi, t⟩ (.tick t.adjustTaskQueue.2) ⟨hi, t.adjustTaskQueue.1⟩

/-- Operations one after another. -/
inductive TimerRun : Numbered B → List (TimerEvent B) → Numbered B → Prop
  | nil {s : Numbered B} : TimerRun s [] s
  | cons {s s' s'' : Numbered B} {e : TimerEvent B} {es : List (TimerEvent B)} :
      TimerStep s e s' → TimerRun s' es s'' → TimerRun s (e :: es) s''

/-! ## Numbers that are gone -/

/-- This number has been registered, and no task has it any more. -/
def Spent (key : ℕ) (s : Numbered B) : Prop := key ≤ s.hi ∧ ∀ x ∈ s.timer.live, x.key ≠ key

omit [ClientTask B] in
/-- Of the tasks that were there, what is not handed out stays. -/
theorem spent_of_perm {s s' : Numbered B} {out : List (Task B)}
    (inv : Inv s.hi s.timer) (hhi : s'.hi = s.hi)
    (hperm : (s.timer.live.map Task.key).Perm (out.map Task.key ++ s'.timer.live.map Task.key)) :
    (∀ key, Spent key s → Spent key s' ∧ ∀ x ∈ out, x.key ≠ key) ∧
      ∀ x ∈ out, Spent x.key s' := by
  have hnodup : (out.map Task.key ++ s'.timer.live.map Task.key).Nodup := by
    refine hperm.nodup ?_
    rw [List.nodup_iff_pairwise_ne, List.pairwise_map]
    exact inv.ordered.imp Nat.ne_of_lt
  constructor
  · rintro key ⟨hle, hnone⟩
    have hnone' : key ∉ out.map Task.key ++ s'.timer.live.map Task.key := by
      rw [← hperm.mem_iff, List.mem_map]
      rintro ⟨x, hx, hkey⟩
      exact hnone x hx hkey
    refine ⟨⟨hhi ▸ hle, fun x hx hkey => hnone' ?_⟩, fun x hx hkey => hnone' ?_⟩
    · exact List.mem_append_right _ (List.mem_map.mpr ⟨x, hx, hkey⟩)
    · exact List.mem_append_left _ (List.mem_map.mpr ⟨x, hx, hkey⟩)
  · intro x hx
    have hkey : x.key ∈ out.map Task.key := List.mem_map_of_mem hx
    refine ⟨?_, fun y hy heq => ?_⟩
    · have hold : x.key ∈ s.timer.live.map Task.key :=
        hperm.mem_iff.mpr (List.mem_append_left _ hkey)
      obtain ⟨y, hy, heq⟩ := List.mem_map.mp hold
      rw [← heq, hhi]
      exact inv.live_le y hy
    · exact (List.nodup_append.mp hnodup).2.2 x.key hkey y.key (List.mem_map_of_mem hy) heq.symm

omit [ClientTask B] in
theorem ClientTaskTimer.Takes.perm_handed {seq : ℕ} {t : ClientTaskTimer B}
    {r : ClientTaskTimer B × Option (Option (Task B))} (h : Takes seq t r) :
    t.live.Perm ((ofTake r.2).handed ++ r.1.live) := by
  obtain ⟨t', _ | _ | x⟩ := r
  · exact List.Perm.of_eq h.symm
  · exact List.Perm.of_eq h.symm
  · exact h.2

/-- The tasks that time out keep their numbers. -/
theorem ClientTaskTimer.Inv.perm_late {hi : ℕ} {t : ClientTaskTimer B} (inv : Inv hi t) :
    (t.live.map Task.key).Perm
      (t.adjustTaskQueue.2.map Task.key ++ t.adjustTaskQueue.1.live.map Task.key) := by
  obtain ⟨-, late, hlive, hfailed⟩ := inv.adjustTaskQueue
  rw [hlive, hfailed, List.map_append, List.map_map]
  exact List.Perm.refl _

/-- An operation keeps the registry well-formed. A number that is gone stays so, and
is not handed out; one that is handed out is gone. -/
theorem TimerStep.spent {s s' : Numbered B} {e : TimerEvent B} (h : TimerStep s e s')
    (inv : Inv s.hi s.timer) :
    Inv s'.hi s'.timer ∧
      (∀ key, Spent key s → Spent key s' ∧ ∀ x ∈ e.handed, x.key ≠ key) ∧
      ∀ x ∈ e.handed, Spent x.key s' := by
  cases h with
  | @regTask hi t t' x hx hreg =>
    refine ⟨inv.regTask hx hreg, fun key hkey => ⟨⟨?_, ?_⟩, nofun⟩, nofun⟩
    · exact Nat.le_of_lt (Nat.lt_of_le_of_lt hkey.1 hx)
    · intro y hy
      rw [live_regTask hreg] at hy
      rcases List.mem_append.mp hy with hy | hy
      · exact hkey.2 y hy
      · rw [List.mem_singleton.mp hy]
        exact Nat.ne_of_gt (Nat.lt_of_le_of_lt hkey.1 hx)
  | stopRegTask => exact ⟨inv.stopRegTask, spent_of_perm inv rfl (List.Perm.refl _)⟩
  | pollSentTask =>
    obtain ⟨inv', hlive⟩ := inv.pullPending
    exact ⟨inv', spent_of_perm inv rfl (List.Perm.of_eq (congrArg (List.map Task.key) hlive.symm))⟩
  | checkPendingTasksEmpty =>
    obtain ⟨inv', hlive⟩ := inv.checkPendingTasksEmpty
    exact ⟨inv', spent_of_perm inv rfl (List.Perm.of_eq (congrArg (List.map Task.key) hlive.symm))⟩
  | takeTask seq =>
    obtain ⟨inv', htakes⟩ := inv.takeTask seq
    refine ⟨inv', spent_of_perm inv rfl ?_⟩
    rw [← List.map_append]
    exact htakes.perm_handed.map _
  | resumeTakeTask seq =>
    obtain ⟨inv', htakes⟩ := inv.resumeTakeTask seq
    refine ⟨inv', spent_of_perm inv rfl ?_⟩
    rw [← List.map_append]
    exact htakes.perm_handed.map _
  | adjustTaskQueue => exact ⟨inv.adjustTaskQueue.1, spent_of_perm inv rfl inv.perm_late⟩

theorem TimerRun.inv {s s' : Numbered B} {es : List (TimerEvent B)} (h : TimerRun s es s')
    (inv : Inv s.hi s.timer) : Inv s'.hi s'.timer := by
  induction h with
  | nil => exact inv
  | cons hstep _ ih => exact ih (hstep.spent inv).1

/-- A number that is gone is not seen again. -/
theorem TimerRun.of_spent {s s' : Numbered B} {es : List (TimerEvent B)} (h : TimerRun s es s')
    (inv : Inv s.hi s.timer) {key : ℕ} (hkey : Spent key s) :
    Spent key s' ∧ ∀ e ∈ es, ∀ x ∈ e.handed, x.key ≠ key := by
  induction h with
  | nil => exact ⟨hkey, nofun⟩
  | cons hstep _ ih =>
    obtain ⟨inv', hkeep, -⟩ := hstep.spent inv
    obtain ⟨hkey', hnot⟩ := hkeep key hkey
    obtain ⟨hend, hrest⟩ := ih inv' hkey'
    exact ⟨hend, List.forall_mem_cons.mpr ⟨hnot, hrest⟩⟩

/-- A number that is handed out is gone at the end. -/
theorem TimerRun.spent_of_handed {s s' : Numbered B} {es : List (TimerEvent B)}
    (h : TimerRun s es s') (inv : Inv s.hi s.timer) {e : TimerEvent B} (he : e ∈ es)
    {x : Task B} (hx : x ∈ e.handed) : Spent x.key s' := by
  induction h with
  | nil => cases he
  | cons hstep hrun ih =>
    obtain ⟨inv', -, hout⟩ := hstep.spent inv
    rcases List.mem_cons.mp he with rfl | he
    · exact (hrun.of_spent inv' (hout x hx)).1
    · exact ih inv' he

/-! ## The length of the queue -/

namespace ClientTaskTimer

/-- The queue has grown to `task_timeout` at most. -/
def Grown (taskTimeout : ℕ) (t : ClientTaskTimer B) : Prop :=
  t.taskTimeout = taskTimeout ∧ t.delayTasksQueue.length ≤ taskTimeout

variable {taskTimeout : ℕ} {t : ClientTaskTimer B}

omit [ClientTask B]

theorem Grown.pullPending (h : t.Grown taskTimeout) : t.pullPending.Grown taskTimeout := by
  have hqueue : ∀ (tasks : List (Task B)) (t : ClientTaskTimer B),
      (tasks.foldl gotPendingTask t).delayTasksQueue = t.delayTasksQueue := by
    intro tasks
    induction tasks with
    | nil => exact fun t => rfl
    | cons x tasks ih => exact fun t => ih _
  refine ⟨(turn_pullPending t).taskTimeout.trans h.1, ?_⟩
  rw [ClientTaskTimer.pullPending, hqueue]
  exact h.2

theorem removeDelayed_length (seq : ℕ) (queue : List (BTreeMap ℕ (Task B))) :
    (removeDelayed seq queue).1.length = queue.length := by
  induction queue with
  | nil => rfl
  | cons batch queue ih =>
    rcases hget : batch.get? seq with _ | x
    · simp only [removeDelayed, hget, List.length_cons, ih]
    · simp only [removeDelayed, hget, List.length_cons]

theorem Grown.removeTask (h : t.Grown taskTimeout) (seq : ℕ) :
    (t.removeTask seq).1.Grown taskTimeout := by
  refine ⟨((Turn.refl t).removeTask seq).taskTimeout.trans h.1, ?_⟩
  rcases hget : t.sentTasks.get? seq with _ | x
  · simp only [ClientTaskTimer.removeTask, hget, removeDelayed_length]
    exact h.2
  · simp only [ClientTaskTimer.removeTask, hget]
    exact h.2

theorem Grown.resumeTakeTask (h : t.Grown taskTimeout) (seq : ℕ) :
    (t.resumeTakeTask seq).1.Grown taskTimeout :=
  resumeTakeTask_rule seq h h.pullPending fun _ h => h.removeTask seq

theorem Grown.takeTask (h : t.Grown taskTimeout) (seq : ℕ) :
    (t.takeTask seq).1.Grown taskTimeout :=
  takeTask_rule seq h h.pullPending fun _ h => h.removeTask seq

variable [ClientTask B]

theorem Grown.adjustTaskQueue (h : t.Grown taskTimeout) :
    t.adjustTaskQueue.1.Grown taskTimeout := by
  refine ⟨(turn_adjustTaskQueue t).taskTimeout.trans h.1, ?_⟩
  rw [ClientTaskTimer.adjustTaskQueue]
  dsimp only
  split
  · have hlen : (t.sentTasks :: t.delayTasksQueue).dropLast.length ≤ taskTimeout := by
      rw [List.length_dropLast, List.length_cons, Nat.add_sub_cancel]
      exact h.2
    split
    · exact hlen
    · exact hlen
  · rename_i hlen
    exact h.1 ▸ Nat.le_of_not_lt hlen

end ClientTaskTimer

theorem TimerStep.grown {s s' : Numbered B} {e : TimerEvent B} (h : TimerStep s e s')
    {taskTimeout : ℕ} (hgrown : s.timer.Grown taskTimeout) : s'.timer.Grown taskTimeout := by
  cases h with
  | regTask x hx hreg =>
    obtain rfl := ClientTaskTimer.regTask_eq hreg
    exact hgrown
  | stopRegTask => exact hgrown
  | pollSentTask => exact hgrown.pullPending
  | checkPendingTasksEmpty => exact hgrown.pullPending
  | takeTask seq => exact hgrown.takeTask seq
  | resumeTakeTask seq => exact hgrown.resumeTakeTask seq
  | adjustTaskQueue => exact hgrown.adjustTaskQueue

theorem TimerRun.grown {s s' : Numbered B} {es : List (TimerEvent B)} (h : TimerRun s es s')
    {taskTimeout : ℕ} (hgrown : s.timer.Grown taskTimeout) : s'.timer.Grown taskTimeout := by
  induction h with
  | nil => exact hgrown
  | cons hstep _ ih => exact ih (hstep.grown hgrown)

/-! ## The place of a task -/

namespace ClientTaskTimer

/-- This task has been pulled and is in batch `k`. -/
structure At (x : Task B) (k : ℕ) (t : ClientTaskTimer B) : Prop where
  pulled : x ∈ t.pulled
  place : t.Batched fun i y => y.key = x.key → i = k

variable {x : Task B} {k : ℕ} {t t' : ClientTaskTimer B}

omit [ClientTask B]

/-- There are no more batches than `task_timeout` and the current one. -/
theorem At.le {taskTimeout : ℕ} (h : t.At x k) (hgrown : t.Grown taskTimeout) :
    k ≤ taskTimeout := by
  obtain ⟨m, hm, hx⟩ := mem_pulled.mp h.pulled
  obtain ⟨i, hi, hget⟩ := List.mem_iff_getElem.mp hm
  obtain rfl : i = k := h.place i m (List.getElem?_eq_some_iff.mpr ⟨hi, hget⟩) x hx rfl
  exact Nat.le_of_lt_succ (Nat.lt_of_lt_of_le hi (Nat.succ_le_succ hgrown.2))

/-- A task that is still there after an operation of the receiver is still pulled. -/
theorem At.of_turn {hi : ℕ} (h : t.At x k) (inv : Inv hi t) (hturn : Turn t t')
    (hlive : x ∈ t'.live) {k' : ℕ} (hplace : t'.Batched fun i y => y.key = x.key → i = k') :
    t'.At x k' :=
  ⟨hturn.mem_pulled inv h.pulled hlive, hplace⟩

/-- The tasks in the channel are others. -/
theorem At.pending {hi : ℕ} (h : t.At x k) (inv : Inv hi t) :
    ∀ y ∈ t.pendingTasks, y.key = x.key → 0 = k := by
  intro y hy heq
  have hle := inv.pulled_le x h.pulled
  have hlt := inv.lt_pending y hy
  omega

/-- In an ordered list, one task has a number. -/
theorem filter_key_of_mem {tasks : List (Task B)}
    (hordered : tasks.Pairwise fun x y => x.key < y.key) (hx : x ∈ tasks) :
    tasks.filter (·.key = x.key) = [x] := by
  obtain ⟨older, newer, rfl⟩ := List.append_of_mem hx
  rw [List.pairwise_append, List.pairwise_cons] at hordered
  obtain ⟨-, ⟨hnewer, -⟩, holder⟩ := hordered
  have hnoneOlder : older.filter (·.key = x.key) = [] :=
    List.filter_eq_nil_iff.mpr fun y hy => by
      simpa using Nat.ne_of_lt (holder y hy x List.mem_cons_self)
  have hnoneNewer : newer.filter (·.key = x.key) = [] :=
    List.filter_eq_nil_iff.mpr fun y hy => by simpa using Nat.ne_of_gt (hnewer y hy)
  rw [List.filter_append, List.filter_cons_of_pos (by simp), hnoneOlder, hnoneNewer]
  rfl

variable [ClientTask B]

theorem filter_key_setRpcError (tasks : List (Task B)) (e : RpcIntErr) (key : ℕ) :
    (tasks.map (·.setRpcError e)).filter (·.key = key) =
      (tasks.filter (·.key = key)).map (·.setRpcError e) := by
  rw [List.filter_map]
  rfl

end ClientTaskTimer

/-- What an operation can do with the task in batch `k`. -/
inductive Aged (taskTimeout : ℕ) (x : Task B) (k : ℕ) : TimerEvent B → Numbered B → Prop
  | taken {s' : Numbered B} : Aged taskTimeout x k (.took x) s'
  | timedOut {late : List (Task B)} {s' : Numbered B} (hk : k = taskTimeout)
      (h : late.filter (·.key = x.key) = [x.setRpcError .timeout]) :
      Aged taskTimeout x k (.tick late) s'
  | older {late : List (Task B)} {s' : Numbered B} (hk : k < taskTimeout)
      (h : late.filter (·.key = x.key) = []) (hat : s'.timer.At x (k + 1)) :
      Aged taskTimeout x k (.tick late) s'
  | stays {e : TimerEvent B} {s' : Numbered B} (he : e = .quiet ∨ ∃ y ≠ x, e = .took y)
      (hat : s'.timer.At x k) : Aged taskTimeout x k e s'

omit [ClientTask B] in
/-- A task is looked for: perhaps it is this one, else this one stays. -/
theorem ClientTaskTimer.Takes.took_or_stays {seq : ℕ} {t : ClientTaskTimer B} {x : Task B}
    {r : ClientTaskTimer B × Option (Option (Task B))} (h : Takes seq t r) (hx : x ∈ t.live) :
    ofTake r.2 = .took x ∨
      x ∈ r.1.live ∧ (ofTake r.2 = .quiet ∨ ∃ y ≠ x, ofTake r.2 = .took y) := by
  have hlive := h.perm_handed.mem_iff.mp hx
  obtain ⟨t', _ | _ | y⟩ := r
  · exact Or.inr ⟨hlive, Or.inl rfl⟩
  · exact Or.inr ⟨hlive, Or.inl rfl⟩
  · by_cases hxy : y = x
    · rw [hxy]
      exact Or.inl rfl
    · exact Or.inr ⟨(List.mem_cons.mp hlive).resolve_left (Ne.symm hxy), Or.inr ⟨y, hxy, rfl⟩⟩

theorem Aged.of_takes {taskTimeout hi seq k : ℕ} {t : ClientTaskTimer B} {x : Task B}
    {r : ClientTaskTimer B × Option (Option (Task B))} (inv : Inv hi t) (hat : t.At x k)
    (htakes : Takes seq t r) (hturn : Turn t r.1)
    (hplace : r.1.Batched fun i y => y.key = x.key → i = k) :
    Aged taskTimeout x k (.ofTake r.2) ⟨hi, r.1⟩ := by
  rcases htakes.took_or_stays (List.mem_append_left _ hat.pulled) with htook | ⟨hlive, he⟩
  · rw [htook]
    exact .taken
  · exact .stays he (hat.of_turn inv hturn hlive hplace)

/-- A tick moves the task on by one batch, or out of the last. -/
theorem Aged.of_tick {taskTimeout hi k : ℕ} {t : ClientTaskTimer B} {x : Task B}
    (inv : Inv hi t) (hgrown : t.Grown taskTimeout) (hat : t.At x k) :
    Aged taskTimeout x k (.tick t.adjustTaskQueue.2) ⟨hi, t.adjustTaskQueue.1⟩ := by
  obtain ⟨-, late, hlive, hfailed⟩ := inv.adjustTaskQueue
  have hordered := inv.ordered
  rw [hlive, List.pairwise_append] at hordered
  obtain ⟨hplace, hlate⟩ := hat.place.adjustTaskQueue
    (S := fun i y => y.key = x.key → i = k + 1) fun i y h heq => congrArg (· + 1) (h heq)
  have hmem : x ∈ late ++ t.adjustTaskQueue.1.live := by
    rw [← hlive]
    exact List.mem_append_left _ hat.pulled
  rcases List.mem_append.mp hmem with hx | hx
  · -- it is one of those that time out, from the batch behind `taskTimeout` others
    have hle := hat.le hgrown
    have hfilter : t.adjustTaskQueue.2.filter (·.key = x.key) = [x.setRpcError .timeout] := by
      rw [hfailed, filter_key_setRpcError, filter_key_of_mem hordered.1 hx]
      rfl
    have hout : x.setRpcError .timeout ∈ t.adjustTaskQueue.2 := by
      rw [hfailed]
      exact List.mem_map_of_mem hx
    obtain ⟨i, y, hi, hy, heq⟩ := hlate _ hout
    have hkey : (y.setRpcError .timeout).key = (x.setRpcError .timeout).key :=
      congrArg Task.key heq.symm
    have hik : i = k := hy hkey
    rw [hgrown.1] at hi
    exact .timedOut (by omega) hfilter
  · have hat' := hat.of_turn inv (turn_adjustTaskQueue t) hx hplace
    have hle := hat'.le hgrown.adjustTaskQueue
    refine .older hle ?_ hat'
    rw [hfailed, filter_key_setRpcError, List.filter_eq_nil_iff.mpr, List.map_nil]
    intro y hy
    simpa using Nat.ne_of_lt (hordered.2.2 y hy x hx)

theorem TimerStep.aged {taskTimeout k : ℕ} {s s' : Numbered B} {e : TimerEvent B}
    (h : TimerStep s e s') (inv : Inv s.hi s.timer) (hgrown : s.timer.Grown taskTimeout)
    {x : Task B} (hat : s.timer.At x k) : Aged taskTimeout x k e s' := by
  have hpending := hat.pending inv
  cases h with
  | regTask y hy hreg =>
    obtain rfl := ClientTaskTimer.regTask_eq hreg
    exact .stays (Or.inl rfl) ⟨hat.pulled, hat.place.of_eq rfl⟩
  | stopRegTask => exact .stays (Or.inl rfl) ⟨hat.pulled, hat.place.of_eq rfl⟩
  | pollSentTask | checkPendingTasksEmpty =>
    refine .stays (Or.inl rfl) (hat.of_turn inv (turn_pullPending _) ?_
      (hat.place.pullPending hpending))
    rw [inv.pullPending.2]
    exact List.mem_append_left _ hat.pulled
  | takeTask seq =>
    exact .of_takes inv hat (inv.takeTask seq).2 (turn_takeTask _ seq)
      (hat.place.takeTask hpending seq)
  | resumeTakeTask seq =>
    exact .of_takes inv hat (inv.resumeTakeTask seq).2 (turn_resumeTakeTask _ seq)
      (hat.place.resumeTakeTask hpending seq)
  | adjustTaskQueue => exact .of_tick inv hgrown hat

/-! ## Whole runs -/

/-- What the events tell of a task that is not handed out before the tick after `n`
others: it is given to `error_handle` then, once, unless it is taken. -/
structure TimesOutAfter (x : Task B) (n : ℕ) (es : List (TimerEvent B)) : Prop where
  left : x ∉ taken es → ∀ j late, (ticks es)[j]? = some late →
    late.filter (·.key = x.key) = if j = n then [x.setRpcError .timeout] else []
  taken : x ∈ taken es → ∀ late ∈ ticks es, ∀ y ∈ late, y.key ≠ x.key

omit [ClientTask B] in
/-- Nothing is seen of a number that is gone. -/
theorem filter_of_unseen {key : ℕ} {es : List (TimerEvent B)}
    (h : ∀ e ∈ es, ∀ y ∈ e.handed, y.key ≠ key) {late : List (Task B)} (hlate : late ∈ ticks es) :
    late.filter (·.key = key) = [] := by
  refine List.filter_eq_nil_iff.mpr fun y hy => ?_
  obtain ⟨e, he, hy⟩ := handed_of_mem_ticks hlate hy
  simpa using h e he y hy

/-- The task is taken at once. -/
theorem timesOutAfter_took {x : Task B} {n : ℕ} {es : List (TimerEvent B)}
    (hgone : ∀ e ∈ es, ∀ y ∈ e.handed, y.key ≠ x.key) : TimesOutAfter x n (.took x :: es) := by
  refine ⟨fun hnot => absurd List.mem_cons_self hnot, fun _ late hlate y hy => ?_⟩
  rw [ticks_took] at hlate
  obtain ⟨e, he, hy⟩ := handed_of_mem_ticks hlate hy
  exact hgone e he y hy

/-- The task times out at once. -/
theorem timesOutAfter_tick {x : Task B} {late : List (Task B)} {es : List (TimerEvent B)}
    (hfilter : late.filter (·.key = x.key) = [x.setRpcError .timeout])
    (hgone : ∀ e ∈ es, ∀ y ∈ e.handed, y.key ≠ x.key) : TimesOutAfter x 0 (.tick late :: es) := by
  refine ⟨fun _ j late' hj => ?_, fun htaken => ?_⟩
  · cases j with
    | zero =>
      obtain rfl : late = late' := Option.some.inj hj
      exact hfilter
    | succ j => exact filter_of_unseen hgone (List.mem_of_getElem? hj)
  · rw [taken_tick] at htaken
    obtain ⟨e, he, hx⟩ := handed_of_mem_taken htaken
    exact absurd rfl (hgone e he x hx)

/-- A tick goes by. -/
theorem TimesOutAfter.tick {x : Task B} {n : ℕ} {late : List (Task B)} {es : List (TimerEvent B)}
    (h : TimesOutAfter x n es) (hfilter : late.filter (·.key = x.key) = []) :
    TimesOutAfter x (n + 1) (.tick late :: es) := by
  refine ⟨fun hnot j late' hj => ?_, fun hx => List.forall_mem_cons.mpr ⟨?_, h.taken hx⟩⟩
  · cases j with
    | zero =>
      obtain rfl : late = late' := Option.some.inj hj
      exact hfilter
    | succ j =>
      rw [h.left hnot j late' hj]
      simp only [Nat.add_right_cancel_iff]
  · intro y hy hkey
    have hmem : y ∈ late.filter (·.key = x.key) := List.mem_filter.mpr ⟨hy, by simpa using hkey⟩
    rw [hfilter] at hmem
    cases hmem

/-- Another operation goes by. -/
theorem TimesOutAfter.quiet {x : Task B} {n : ℕ} {e : TimerEvent B} {es : List (TimerEvent B)}
    (h : TimesOutAfter x n es) (he : e = .quiet ∨ ∃ y ≠ x, e = .took y) :
    TimesOutAfter x n (e :: es) := by
  rcases he with rfl | ⟨y, hy, rfl⟩
  · exact ⟨h.left, h.taken⟩
  · refine ⟨fun hnot => h.left fun hx => hnot (List.mem_cons_of_mem _ hx), fun hx => ?_⟩
    exact h.taken ((List.mem_cons.mp hx).resolve_left (Ne.symm hy))

theorem TimerRun.timesOutAfter {taskTimeout k : ℕ} {s s' : Numbered B} {es : List (TimerEvent B)}
    (h : TimerRun s es s') (inv : Inv s.hi s.timer) (hgrown : s.timer.Grown taskTimeout)
    {x : Task B} (hat : s.timer.At x k) : TimesOutAfter x (taskTimeout - k) es := by
  induction h generalizing k with
  | nil =>
    refine ⟨fun _ j late hj => ?_, nofun⟩
    cases hj
  | @cons s s₁ s₂ e es hstep hrun ih =>
    obtain ⟨inv₁, -, hspent⟩ := hstep.spent inv
    have hgrown₁ := hstep.grown hgrown
    cases hstep.aged inv hgrown hat with
    | taken =>
      exact timesOutAfter_took (hrun.of_spent inv₁ (hspent x (List.mem_singleton_self x))).2
    | @timedOut late _ hk hfilter =>
      have hmem : x.setRpcError .timeout ∈ late := by
        refine List.mem_of_mem_filter (p := (·.key = x.key)) ?_
        rw [hfilter]
        exact List.mem_singleton_self _
      rw [hk, Nat.sub_self]
      exact timesOutAfter_tick hfilter (hrun.of_spent inv₁ (hspent _ hmem)).2
    | @older late _ hk hfilter hat' =>
      have htimesOut := (ih inv₁ hgrown₁ hat').tick hfilter
      rwa [Nat.sub_add_eq, Nat.sub_add_cancel (Nat.sub_pos_of_lt hk)] at htimesOut
    | stays he hat' => exact (ih inv₁ hgrown₁ hat').quiet he

theorem ClientTaskTimer.pendingTasks_adjustTaskQueue (t : ClientTaskTimer B) :
    t.adjustTaskQueue.1.pendingTasks = t.pendingTasks := by
  obtain ⟨_, _, _, hadjust, -⟩ := adjustTaskQueue_spec t
  rw [hadjust]

/-- An operation pulls a task: it is in the first batch then, unless it is taken at
once. -/
theorem TimerStep.pulls {s s' : Numbered B} {e : TimerEvent B} (h : TimerStep s e s')
    (inv : Inv s.hi s.timer) {x : Task B} (hx : x ∈ s.timer.pendingTasks)
    (hnot : x ∉ s'.timer.pendingTasks) :
    e = .took x ∨ s'.timer.At x 0 ∧ (e = .quiet ∨ ∃ y ≠ x, e = .took y) := by
  have hlive : x ∈ s.timer.live := List.mem_append_right _ hx
  have hplace : s.timer.Batched fun i y => y.key = x.key → i = 0 := by
    intro i m hm y hy heq
    have hle := inv.pulled_le y (mem_pulled.mpr ⟨m, List.mem_of_getElem? hm, hy⟩)
    have hlt := inv.lt_pending x hx
    omega
  have hpending : ∀ y ∈ s.timer.pendingTasks, y.key = x.key → 0 = 0 := fun _ _ _ => rfl
  -- it is pulled if it has not left
  have hpulled : ∀ {t : ClientTaskTimer B}, x ∈ t.live → x ∉ t.pendingTasks → x ∈ t.pulled :=
    fun hlive hnot => (List.mem_append.mp hlive).resolve_right hnot
  have htake : ∀ {seq : ℕ} {r : ClientTaskTimer B × Option (Option (Task B))},
      Takes seq s.timer r → (r.1.Batched fun i y => y.key = x.key → i = 0) →
      x ∉ r.1.pendingTasks → ofTake r.2 = .took x ∨
        r.1.At x 0 ∧ (ofTake r.2 = .quiet ∨ ∃ y ≠ x, ofTake r.2 = .took y) := by
    intro seq r htakes hplace hnot
    refine (htakes.took_or_stays hlive).imp id ?_
    rintro ⟨hlive, he⟩
    exact ⟨⟨hpulled hlive hnot, hplace⟩, he⟩
  cases h with
  | regTask y hy hreg =>
    obtain rfl := ClientTaskTimer.regTask_eq hreg
    exact absurd (List.mem_append_left _ hx) hnot
  | stopRegTask => exact absurd hx hnot
  | pollSentTask | checkPendingTasksEmpty =>
    refine Or.inr ⟨⟨hpulled ?_ hnot, hplace.pullPending hpending⟩, Or.inl rfl⟩
    change x ∈ ClientTaskTimer.live (ClientTaskTimer.pullPending _)
    rw [inv.pullPending.2]
    exact hlive
  | takeTask seq => exact htake (inv.takeTask seq).2 (hplace.takeTask hpending seq) hnot
  | resumeTakeTask seq =>
    exact htake (inv.resumeTakeTask seq).2 (hplace.resumeTakeTask hpending seq) hnot
  | adjustTaskQueue =>
    rw [pendingTasks_adjustTaskQueue] at hnot
    exact absurd hx hnot

/-- **A time-out is exact.** In every run of a registry, a task is handed to
`error_handle` by no tick before it is pulled, nor after that by any tick other than
the one after `task_timeout` others; that tick does it once, with `Timeout`, unless the
task is taken before, and a task that is taken does not time out. -/
theorem timesOut_exactly {taskTimeout thresholds : ℕ} {s₁ s₂ s₃ : Numbered B}
    {es es' : List (TimerEvent B)} {e : TimerEvent B}
    (hbefore : TimerRun ⟨0, .new taskTimeout thresholds⟩ es s₁) (hpull : TimerStep s₁ e s₂)
    (hafter : TimerRun s₂ es' s₃) {x : Task B} (hx : x ∈ s₁.timer.pendingTasks)
    (hpulled : x ∉ s₂.timer.pendingTasks) :
    (∀ late ∈ ticks es, ∀ y ∈ late, y.key ≠ x.key) ∧ TimesOutAfter x taskTimeout (e :: es') := by
  have inv₀ := Inv.new (B := B) taskTimeout thresholds
  have inv₁ := hbefore.inv inv₀
  have hgrown : s₂.timer.Grown taskTimeout :=
    hpull.grown (hbefore.grown ⟨rfl, Nat.zero_le _⟩)
  obtain ⟨inv₂, -, hspent⟩ := hpull.spent inv₁
  constructor
  · intro late hlate y hy hkey
    obtain ⟨e', he', hy⟩ := handed_of_mem_ticks hlate hy
    have hgone := hbefore.spent_of_handed inv₀ he' hy
    exact hgone.2 x (List.mem_append_right _ hx) hkey.symm
  · rcases hpull.pulls inv₁ hx hpulled with rfl | ⟨hat, he⟩
    · exact timesOutAfter_took (hafter.of_spent inv₂ (hspent x (List.mem_singleton_self x))).2
    · have htimesOut := hafter.timesOutAfter inv₂ hgrown hat
      rw [Nat.sub_zero] at htimesOut
      exact htimesOut.quiet he

/-- A task, and the registry that holds it in its channel. -/
def lone : Task APIClientReq := ⟨0, 1, .new "calc.add" [1]⟩

def lonePending : ClientTaskTimer APIClientReq := { new 1 128 with pendingTasks := [lone] }

/-- With a time-out of one tick, the task that was pulled times out with the second. -/
theorem lone_timesOut :
    lonePending.pollSentTask.1.adjustTaskQueue.1.adjustTaskQueue.2.filter (·.key = lone.key) =
      [lone.setRpcError .timeout] := by
  have hreg : TimerRun ⟨0, new 1 128⟩ [.quiet] ⟨1, lonePending⟩ :=
    .cons (.regTask lone (by decide) rfl) .nil
  have htimesOut := (timesOut_exactly hreg .pollSentTask (.cons .adjustTaskQueue
    (.cons .adjustTaskQueue .nil)) List.mem_cons_self (by decide)).2
  exact htimesOut.left (by decide) 1 _ rfl

end RazorRpc
