import RazorRpc.Registry

/-!
# How old the tasks of a registry are

The registry keeps its tasks in batches, one for each second: `sent_tasks`, then
`delay_tasks_queue`, most recent first. A task stays in the batch it was pulled
into, and the batch moves back by one with every tick. What is said of a task and
the place of its batch (`Batched`) therefore only has to agree with that, and a
task that times out was in a batch behind `task_timeout` others.
-/

namespace RazorRpc

namespace ClientTaskTimer

variable {B : Type}

/-- The batches, most recent first. -/
def batches (t : ClientTaskTimer B) : List (BTreeMap ℕ (Task B)) :=
  t.sentTasks :: t.delayTasksQueue

/-- The tasks in batch `i` are so related to `i`. -/
def Batched (R : ℕ → Task B → Prop) (t : ClientTaskTimer B) : Prop :=
  ∀ i m, t.batches[i]? = some m → ∀ x ∈ m.values, R i x

variable {R S : ℕ → Task B → Prop} {t t' : ClientTaskTimer B}

/-- The tasks that have been pulled are those of the batches. -/
theorem mem_pulled {x : Task B} : x ∈ t.pulled ↔ ∃ m ∈ t.batches, x ∈ m.values := by
  rw [pulled, List.mem_append, List.mem_flatMap, batches, List.exists_mem_cons_iff, or_comm]
  simp only [List.mem_reverse]

theorem Batched.mono (h : t.Batched R) (himp : ∀ i, ∀ x ∈ t.live, R i x → S i x) :
    t.Batched S := by
  intro i m hm x hx
  refine himp i x (List.mem_append_left _ ?_) (h i m hm x hx)
  exact mem_pulled.mpr ⟨m, List.mem_of_getElem? hm, hx⟩

theorem Batched.of_eq (h : t.Batched R) (hbatches : t'.batches = t.batches) : t'.Batched R := by
  rw [Batched, hbatches]
  exact h

theorem batched_new (taskTimeout thresholds : ℕ) : (new taskTimeout thresholds).Batched R := by
  intro i m hm x hx
  obtain rfl : m = .empty := List.mem_singleton.mp (List.mem_of_getElem? hm)
  cases hx

/-- A task arrives from the channel. -/
theorem Batched.gotPendingTask (h : t.Batched R) {x : Task B} (hx : R 0 x) :
    (t.gotPendingTask x).Batched R := by
  intro i m hm y hy
  cases i with
  | zero =>
    obtain rfl : _ = m := Option.some.inj hm
    rcases BTreeMap.mem_values_insert hy with rfl | hy
    · exact hx
    · exact h 0 t.sentTasks rfl y hy
  | succ i => exact h (i + 1) m hm y hy

theorem Batched.pullPending (h : t.Batched R) (hpending : ∀ x ∈ t.pendingTasks, R 0 x) :
    t.pullPending.Batched R := by
  refine (pullPending_rule (P := fun t' => t'.Batched R ∧ ∀ x ∈ t'.pendingTasks, R 0 x) ?_
    ⟨h, hpending⟩).1
  rintro t' x rest ⟨h, hpending⟩
  obtain ⟨hx, hrest⟩ := List.forall_mem_cons.mp hpending
  refine ⟨?_, hrest⟩
  exact (h.gotPendingTask hx).of_eq rfl

/-- A batch only gets smaller when a task is taken out. -/
theorem removeDelayed_batch {seq i : ℕ} {queue : List (BTreeMap ℕ (Task B))}
    {m : BTreeMap ℕ (Task B)} (h : (removeDelayed seq queue).1[i]? = some m) :
    ∃ m', queue[i]? = some m' ∧ m.values ⊆ m'.values := by
  induction queue generalizing i with
  | nil => cases h
  | cons batch queue ih =>
    rcases hget : batch.get? seq with _ | y
    · simp only [removeDelayed, hget] at h
      cases i with
      | zero =>
        obtain rfl := Option.some.inj h
        exact ⟨batch, rfl, List.Subset.refl _⟩
      | succ i => exact ih h
    · simp only [removeDelayed, hget] at h
      cases i with
      | zero =>
        obtain rfl := Option.some.inj h
        exact ⟨batch, rfl, batch.values_erase_subset seq⟩
      | succ i => exact ⟨m, h, List.Subset.refl _⟩

theorem Batched.removeTask (h : t.Batched R) (seq : ℕ) : (t.removeTask seq).1.Batched R := by
  intro i m hm x hx
  rcases hget : t.sentTasks.get? seq with _ | y
  · simp only [ClientTaskTimer.removeTask, hget] at hm
    cases i with
    | zero => exact h 0 m hm x hx
    | succ i =>
      obtain ⟨m', hm', hsub⟩ := removeDelayed_batch hm
      exact h (i + 1) m' hm' x (hsub hx)
  · simp only [ClientTaskTimer.removeTask, hget] at hm
    cases i with
    | zero =>
      obtain rfl : _ = m := Option.some.inj hm
      exact h 0 t.sentTasks rfl x (t.sentTasks.values_erase_subset seq hx)
    | succ i => exact h (i + 1) m hm x hx

theorem Batched.resumeTakeTask (h : t.Batched R) (hpending : ∀ x ∈ t.pendingTasks, R 0 x)
    (seq : ℕ) : (t.resumeTakeTask seq).1.Batched R :=
  resumeTakeTask_rule seq h (h.pullPending hpending) fun _ h => h.removeTask seq

theorem Batched.takeTask (h : t.Batched R) (hpending : ∀ x ∈ t.pendingTasks, R 0 x)
    (seq : ℕ) : (t.takeTask seq).1.Batched R :=
  takeTask_rule seq h (h.pullPending hpending) fun _ h => h.removeTask seq

variable [ClientTask B]

/-- A tick moves every batch back by one; the tasks that time out come from a batch
that was behind `task_timeout` others. -/
theorem Batched.adjustTaskQueue (h : t.Batched R) (hnext : ∀ i x, R i x → S (i + 1) x) :
    t.adjustTaskQueue.1.Batched S ∧ ∀ y ∈ t.adjustTaskQueue.2,
      ∃ i x, t.taskTimeout ≤ i ∧ R i x ∧ y = x.setRpcError .timeout := by
  -- the registry with a part of the queue in front, and nothing pulled yet
  have hshift : ∀ (queue : List (BTreeMap ℕ (Task B))) (minDelaySeq : ℕ), queue <+: t.batches →
      Batched S { t with sentTasks := .empty, delayTasksQueue := queue, minDelaySeq } := by
    intro queue minDelaySeq hqueue i m hm x hx
    cases i with
    | zero =>
      obtain rfl : _ = m := Option.some.inj hm
      cases hx
    | succ i =>
      change queue[i]? = some m at hm
      obtain ⟨rest, hrest⟩ := hqueue
      have hbatch : t.batches[i]? = some m := by
        rw [← hrest, List.getElem?_append_left (List.getElem?_eq_some_iff.mp hm).1, hm]
      exact hnext i x (h i m hbatch x hx)
  have hne : t.batches ≠ [] := List.cons_ne_nil _ _
  rw [ClientTaskTimer.adjustTaskQueue]
  dsimp only
  split
  · rename_i hlen
    have hlast : t.batches[t.batches.length - 1]? = some (t.batches.getLast hne) := by
      rw [← List.getLast?_eq_getElem?, List.getLast?_eq_some_getLast hne]
    split
    · refine ⟨hshift _ _ (List.dropLast_prefix _), ?_⟩
      intro y hy
      cases hy
    · refine ⟨hshift _ _ (List.dropLast_prefix _), fun y hy => ?_⟩
      obtain ⟨x, hx, rfl⟩ := List.mem_map.mp hy
      exact ⟨_, x, Nat.le_sub_one_of_lt hlen, h _ _ hlast x hx, rfl⟩
  · refine ⟨hshift _ _ (List.prefix_refl _), ?_⟩
    intro y hy
    cases hy

theorem batched_cleanPendingTasks (t : ClientTaskTimer B) : t.cleanPendingTasks.1.Batched R := by
  intro i m hm x hx
  have hempty : m = .empty := by
    rcases List.mem_cons.mp (List.mem_of_getElem? hm) with rfl | hm
    · rfl
    · obtain ⟨-, -, rfl⟩ := List.mem_map.mp hm
      rfl
  rw [hempty] at hx
  cases hx

end ClientTaskTimer

end RazorRpc
