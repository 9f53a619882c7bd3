import RazorRpc.Timer
import Mathlib.Data.List.Nodup

/-!
# What the registry holds

A registered task is in the channel, in `sent_tasks` or in a batch of
`delay_tasks_queue`. `live` lists the tasks that are, oldest registration first:
the batches from the back of the queue, then `sent_tasks`, then the channel.
Sequence numbers are registered in increasing order, so this list is sorted by
key (`Inv.ordered`), and every operation is described by what it does to it:

* `regTask` appends, `pullPending` changes nothing;
* `takeTask` removes at most the task of the number asked for;
* `adjustTaskQueue` removes an initial part, as timed out;
* `cleanPendingTasks` removes everything.

`Reach` collects the registries that operations lead to, with the last number
registered. The result about them is when a response finds its task
(`takeTask_eq_some_iff`): the stop flag is looked at before the channel.
-/

namespace RazorRpc

namespace ClientTaskTimer

variable {B : Type}

/-- The tasks pulled from the channel, oldest first. -/
def pulled (t : ClientTaskTimer B) : List (Task B) :=
  t.delayTasksQueue.reverse.flatMap BTreeMap.values ++ t.sentTasks.values

/-- The tasks registered and not yet gone, oldest first. -/
def live (t : ClientTaskTimer B) : List (Task B) := t.pulled ++ t.pendingTasks

/-- The live task with this number. -/
def lookup (t : ClientTaskTimer B) (seq : ℕ) : Option (Task B) := t.live.find? (·.key = seq)

/-- Every task is stored under its own sequence number. -/
def Keyed (m : BTreeMap ℕ (Task B)) : Prop := ∀ e ∈ m.entries, e.1 = e.2.key

/-- The state of a registry in which `hi` is the last number registered. -/
structure Inv (hi : ℕ) (t : ClientTaskTimer B) : Prop where
  sentKeyed : Keyed t.sentTasks
  delayKeyed : ∀ m ∈ t.delayTasksQueue, Keyed m
  /-- older tasks have smaller numbers -/
  ordered : t.live.Pairwise fun x y => x.key < y.key
  pulled_le : ∀ x ∈ t.pulled, x.key ≤ t.processedSeq
  lt_pending : ∀ x ∈ t.pendingTasks, t.processedSeq < x.key
  /-- what is rejected as timed out is older than every task left -/
  minDelay_lt : ∀ x ∈ t.live, t.minDelaySeq < x.key
  minDelay_le : t.minDelaySeq ≤ t.processedSeq
  live_le : ∀ x ∈ t.live, x.key ≤ hi
  processed_le : t.processedSeq ≤ hi

/-- What holds whatever order the numbers come in: each task is stored under its
own number, and no two tasks share one. -/
structure Sound (t : ClientTaskTimer B) : Prop where
  sentKeyed : Keyed t.sentTasks
  delayKeyed : ∀ m ∈ t.delayTasksQueue, Keyed m
  distinct : t.live.Pairwise fun x y => x.key ≠ y.key

theorem Inv.sound {hi : ℕ} {t : ClientTaskTimer B} (inv : Inv hi t) : Sound t :=
  ⟨inv.sentKeyed, inv.delayKeyed, inv.ordered.imp fun h => Nat.ne_of_lt h⟩

/-! ## Maps of tasks -/

theorem Keyed.empty : Keyed (BTreeMap.empty : BTreeMap ℕ (Task B)) := by
  intro e he
  exact absurd he List.not_mem_nil

theorem Keyed.get?_eq_some {m : BTreeMap ℕ (Task B)} (h : Keyed m) {seq : ℕ} {x : Task B} :
    m.get? seq = some x ↔ x ∈ m.values ∧ x.key = seq := by
  rw [BTreeMap.get?_eq_some]
  constructor
  · intro hmem
    exact ⟨List.mem_map_of_mem (f := Prod.snd) hmem, (h _ hmem).symm⟩
  · rintro ⟨hmem, rfl⟩
    obtain ⟨⟨k, y⟩, he, rfl⟩ := List.mem_map.mp hmem
    rw [← h _ he]
    exact he

theorem Keyed.get?_eq_none {m : BTreeMap ℕ (Task B)} (h : Keyed m) {seq : ℕ} :
    m.get? seq = none ↔ ∀ x ∈ m.values, x.key ≠ seq := by
  constructor
  · intro hnone x hx hkey
    have hsome := h.get?_eq_some.mpr ⟨hx, hkey⟩
    rw [hnone] at hsome
    cases hsome
  · intro hne
    rcases hget : m.get? seq with _ | x
    · rfl
    · obtain ⟨hx, hkey⟩ := h.get?_eq_some.mp hget
      exact absurd hkey (hne x hx)

theorem Keyed.erase {m : BTreeMap ℕ (Task B)} (h : Keyed m) (seq : ℕ) : Keyed (m.erase seq) :=
  fun e he => h e (BTreeMap.mem_erase.mp he).1

/-- Erasing takes out the tasks with that number. -/
theorem Keyed.values_erase {m : BTreeMap ℕ (Task B)} (h : Keyed m) (seq : ℕ) :
    (m.erase seq).values = m.values.filter (·.key ≠ seq) := by
  rw [BTreeMap.values, BTreeMap.values, BTreeMap.erase, List.filter_map]
  refine congrArg _ (List.filter_congr fun e he => ?_)
  rw [Function.comp_apply, h e he]

theorem Keyed.insert {m : BTreeMap ℕ (Task B)} (h : Keyed m) (x : Task B) :
    Keyed (m.insert x.key x) := by
  intro e he
  rcases List.mem_append.mp he with he | he
  · exact h e (List.mem_of_mem_filter he)
  · rcases List.mem_cons.mp he with rfl | he
    · rfl
    · exact h e (List.mem_of_mem_filter he)

/-- A task newer than all others goes to the end. -/
theorem Keyed.values_insert {m : BTreeMap ℕ (Task B)} (h : Keyed m) {x : Task B}
    (hx : ∀ y ∈ m.values, y.key < x.key) : (m.insert x.key x).values = m.values ++ [x] := by
  have hentries : (m.insert x.key x).entries = m.entries ++ [(x.key, x)] := by
    refine BTreeMap.entries_insert_of_lt (fun e he => ?_) x
    rw [h e he]
    exact hx e.2 (List.mem_map_of_mem (f := Prod.snd) he)
  rw [BTreeMap.values, hentries, List.map_append]
  rfl

/-! ## The channel -/

/-- A new registry is empty. -/
theorem Inv.new (taskTimeout thresholds : ℕ) :
    Inv 0 (new taskTimeout thresholds : ClientTaskTimer B) := by
  constructor <;> simp [ClientTaskTimer.new, live, pulled, Keyed, BTreeMap.empty, BTreeMap.values]

/-- Registration appends to the channel. -/
theorem regTask_eq {t t' : ClientTaskTimer B} {x : Task B} (h : t.regTask x = some t') :
    t' = { t with pendingTasks := t.pendingTasks ++ [x] } := by
  rw [regTask] at h
  split at h
  · exact (Option.some.inj h).symm
  · cases h

theorem live_regTask {t t' : ClientTaskTimer B} {x : Task B} (h : t.regTask x = some t') :
    t'.live = t.live ++ [x] := by
  obtain rfl := regTask_eq h
  exact (List.append_assoc _ _ _).symm

theorem Inv.regTask {hi : ℕ} {t t' : ClientTaskTimer B} (inv : Inv hi t) {x : Task B}
    (hx : hi < x.key) (h : t.regTask x = some t') : Inv x.key t' := by
  have hlive := live_regTask h
  have hold : ∀ y ∈ t.live, y.key < x.key := fun y hy => Nat.lt_of_le_of_lt (inv.live_le y hy) hx
  have hproc : t.processedSeq < x.key := Nat.lt_of_le_of_lt inv.processed_le hx
  obtain rfl := ClientTaskTimer.regTask_eq h
  refine ⟨inv.sentKeyed, inv.delayKeyed, ?_, inv.pulled_le, ?_, ?_, inv.minDelay_le, ?_,
    Nat.le_of_lt hproc⟩
  · rw [hlive, List.pairwise_append]
    refine ⟨inv.ordered, List.pairwise_singleton _ _, fun y hy z hz => ?_⟩
    rw [List.mem_singleton.mp hz]
    exact hold y hy
  · intro y hy
    rcases List.mem_append.mp hy with hy | hy
    · exact inv.lt_pending y hy
    · rw [List.mem_singleton.mp hy]
      exact hproc
  · intro y hy
    rw [hlive, List.mem_append, List.mem_singleton] at hy
    rcases hy with hy | rfl
    · exact inv.minDelay_lt y hy
    · exact Nat.lt_of_le_of_lt inv.minDelay_le hproc
  · intro y hy
    rw [hlive, List.mem_append, List.mem_singleton] at hy
    rcases hy with hy | rfl
    · exact Nat.le_of_lt (hold y hy)
    · exact Nat.le_refl _

/-- Stopping touches only the flag. -/
theorem Inv.stopRegTask {hi : ℕ} {t : ClientTaskTimer B} (inv : Inv hi t) :
    Inv hi t.stopRegTask :=
  ⟨inv.sentKeyed, inv.delayKeyed, inv.ordered, inv.pulled_le, inv.lt_pending, inv.minDelay_lt,
    inv.minDelay_le, inv.live_le, inv.processed_le⟩

/-- The count of pending tasks is no part of the invariant. -/
theorem Inv.setCount {hi : ℕ} {t : ClientTaskTimer B} (inv : Inv hi t)
    (n : UInt64) : Inv hi { t with pendingTaskCount := n } :=
  ⟨inv.sentKeyed, inv.delayKeyed, inv.ordered, inv.pulled_le, inv.lt_pending, inv.minDelay_lt,
    inv.minDelay_le, inv.live_le, inv.processed_le⟩

/-- One task moves from the head of the channel into `sent_tasks`: the order of
registration is kept. -/
theorem Inv.gotPendingTask {hi : ℕ} {t : ClientTaskTimer B} {x : Task B} {rest : List (Task B)}
    (inv : Inv hi { t with pendingTasks := x :: rest }) :
    Inv hi { t.gotPendingTask x with pendingTasks := rest } ∧
      ({ t.gotPendingTask x with pendingTasks := rest } : ClientTaskTimer B).live =
        ({ t with pendingTasks := x :: rest } : ClientTaskTimer B).live := by
  have hx : t.processedSeq < x.key := inv.lt_pending x List.mem_cons_self
  have hsent : ∀ y ∈ t.sentTasks.values, y.key < x.key := fun y hy =>
    Nat.lt_of_le_of_lt (inv.pulled_le y (List.mem_append_right _ hy)) hx
  have hvalues := Keyed.values_insert inv.sentKeyed hsent
  have hpulled : (t.gotPendingTask x).pulled = t.pulled ++ [x] := by
    simp only [pulled, ClientTaskTimer.gotPendingTask, hvalues, List.append_assoc]
  have hlive : ({ t.gotPendingTask x with pendingTasks := rest } : ClientTaskTimer B).live =
      ({ t with pendingTasks := x :: rest } : ClientTaskTimer B).live := by
    change (t.gotPendingTask x).pulled ++ rest = t.pulled ++ x :: rest
    rw [hpulled, List.append_assoc]
    rfl
  have hordered := inv.ordered
  refine ⟨⟨Keyed.insert inv.sentKeyed x, inv.delayKeyed, ?_, ?_, ?_, ?_, ?_, ?_, ?_⟩, hlive⟩
  · rw [hlive]
    exact hordered
  · intro y hy
    change y ∈ (t.gotPendingTask x).pulled at hy
    rw [hpulled, List.mem_append, List.mem_singleton] at hy
    rcases hy with hy | rfl
    · exact Nat.le_of_lt (Nat.lt_of_le_of_lt (inv.pulled_le y hy) hx)
    · exact Nat.le_refl _
  · intro y hy
    have htail := (List.pairwise_append.mp hordered).2.1
    exact (List.pairwise_cons.mp htail).1 y hy
  · rw [hlive]
    exact inv.minDelay_lt
  · exact Nat.le_trans inv.minDelay_le (Nat.le_of_lt hx)
  · rw [hlive]
    exact inv.live_le
  · exact inv.live_le x (List.mem_append_right _ List.mem_cons_self)

theorem pendingTasks_foldl (rest : List (Task B)) (t : ClientTaskTimer B) :
    (rest.foldl gotPendingTask t).pendingTasks = t.pendingTasks := by
  induction rest generalizing t with
  | nil => rfl
  | cons x rest ih => exact ih _

@[simp] theorem pendingTasks_pullPending (t : ClientTaskTimer B) :
    t.pullPending.pendingTasks = [] := pendingTasks_foldl _ _

/-- What each arrival keeps, draining the channel keeps. -/
theorem pullPending_rule {P : ClientTaskTimer B → Prop}
    (hgot : ∀ (t : ClientTaskTimer B) (x : Task B) (rest : List (Task B)),
      P { t with pendingTasks := x :: rest } → P { t.gotPendingTask x with pendingTasks := rest })
    {t : ClientTaskTimer B} (h : P t) : P t.pullPending := by
  have hfold : ∀ (rest : List (Task B)) (t : ClientTaskTimer B),
      P { t with pendingTasks := rest } →
      P { rest.foldl ClientTaskTimer.gotPendingTask t with pendingTasks := [] } := by
    intro rest
    induction rest with
    | nil => exact fun t h => h
    | cons x rest ih => exact fun t h => ih _ (hgot t x rest h)
  have heta : ({ t.pullPending with pendingTasks := [] } : ClientTaskTimer B) = t.pullPending := by
    rw [← pendingTasks_pullPending t]
  rw [← heta]
  exact hfold t.pendingTasks { t with pendingTasks := [] } h

/-- Pulling leaves the tasks as they are. -/
theorem Inv.pullPending {hi : ℕ} {t : ClientTaskTimer B} (inv : Inv hi t) :
    Inv hi t.pullPending ∧ t.pullPending.live = t.live := by
  refine pullPending_rule (P := fun t' => Inv hi t' ∧ t'.live = t.live) ?_ ⟨inv, rfl⟩
  rintro t' x rest ⟨inv', hlive⟩
  obtain ⟨inv'', hlive'⟩ := inv'.gotPendingTask
  exact ⟨inv'', hlive'.trans hlive⟩

/-- The last task pulled sets `processed_seq`. -/
theorem processedSeq_pullPending (t : ClientTaskTimer B) :
    t.pendingTasks = [] ∧ t.pullPending.processedSeq = t.processedSeq ∨
      ∃ x ∈ t.pendingTasks, t.pullPending.processedSeq = x.key := by
  have h : (t.pullPending.pendingTasks = t.pendingTasks ∧
        t.pullPending.processedSeq = t.processedSeq) ∨
      t.pullPending.pendingTasks ⊆ t.pendingTasks ∧
        ∃ x ∈ t.pendingTasks, t.pullPending.processedSeq = x.key := by
    refine pullPending_rule (P := fun t' =>
      (t'.pendingTasks = t.pendingTasks ∧ t'.processedSeq = t.processedSeq) ∨
        t'.pendingTasks ⊆ t.pendingTasks ∧ ∃ x ∈ t.pendingTasks, t'.processedSeq = x.key) ?_
      (Or.inl ⟨rfl, rfl⟩)
    intro t' x rest h
    have hsub : x :: rest ⊆ t.pendingTasks := by
      rcases h with ⟨hpending, -⟩ | ⟨hsub, -⟩
      · exact (List.Perm.of_eq hpending).subset
      · exact hsub
    obtain ⟨hx, hrest⟩ := List.cons_subset.mp hsub
    exact Or.inr ⟨hrest, x, hx, rfl⟩
  rw [pendingTasks_pullPending] at h
  rcases h with ⟨hpending, hseq⟩ | ⟨-, hpulled⟩
  · exact Or.inl ⟨hpending.symm, hseq⟩
  · exact Or.inr hpulled

/-- With an empty channel every live task has been pulled. -/
theorem pulled_pullPending (t : ClientTaskTimer B) : t.pullPending.live = t.pullPending.pulled := by
  rw [live, pendingTasks_pullPending, List.append_nil]

/-! ## Taking a task -/

/-- Looking through the batches: the task found is one with that number, and the
batches lose the tasks with that number. -/
theorem removeDelayed_spec (seq : ℕ) {queue : List (BTreeMap ℕ (Task B))}
    (hkeyed : ∀ m ∈ queue, Keyed m)
    (hdistinct : (queue.flatMap BTreeMap.values).Pairwise fun x y => x.key ≠ y.key) :
    (∀ x, (removeDelayed seq queue).2 = some x ↔
        x ∈ queue.flatMap BTreeMap.values ∧ x.key = seq) ∧
      (removeDelayed seq queue).1.map BTreeMap.values =
        queue.map (fun m => m.values.filter (·.key ≠ seq)) ∧
      ∀ m ∈ (removeDelayed seq queue).1, Keyed m := by
  induction queue with
  | nil => simp [removeDelayed]
  | cons batch queue ih =>
    have hbatch := hkeyed batch List.mem_cons_self
    have hqueue : ∀ m ∈ queue, Keyed m := fun m hm => hkeyed m (List.mem_cons_of_mem _ hm)
    rw [List.flatMap_cons, List.pairwise_append] at hdistinct
    obtain ⟨hdb, hdq, hcross⟩ := hdistinct
    rcases hget : batch.get? seq with _ | y
    · obtain ⟨hfound, hrest, hkeep⟩ := ih hqueue hdq
      have hnone := hbatch.get?_eq_none.mp hget
      have hfilter : batch.values.filter (·.key ≠ seq) = batch.values :=
        List.filter_eq_self.mpr fun x hx => by simpa using hnone x hx
      simp only [removeDelayed, hget]
      refine ⟨fun x => ?_, ?_, ?_⟩
      · rw [hfound x, List.flatMap_cons, List.mem_append]
        constructor
        · rintro ⟨hx, hkey⟩
          exact ⟨Or.inr hx, hkey⟩
        · rintro ⟨hx | hx, hkey⟩
          · exact absurd hkey (hnone x hx)
          · exact ⟨hx, hkey⟩
      · rw [List.map_cons, List.map_cons, hrest, hfilter]
      · exact List.forall_mem_cons.mpr ⟨hbatch, hkeep⟩
    · obtain ⟨hy, hykey⟩ := hbatch.get?_eq_some.mp hget
      -- no other batch holds a task with this number
      have hother : ∀ x ∈ queue.flatMap BTreeMap.values, x.key ≠ seq := fun x hx hkey =>
        hcross y hy x hx (hykey.trans hkey.symm)
      have hfilter : ∀ m ∈ queue, m.values.filter (·.key ≠ seq) = m.values := fun m hm =>
        List.filter_eq_self.mpr fun x hx => by
          simpa using hother x (List.mem_flatMap.mpr ⟨m, hm, hx⟩)
      simp only [removeDelayed, hget]
      refine ⟨fun x => ?_, ?_, ?_⟩
      · rw [Option.some_inj, List.flatMap_cons, List.mem_append]
        constructor
        · rintro rfl
          exact ⟨Or.inl hy, hykey⟩
        · rintro ⟨hx | hx, hkey⟩
          · have := hbatch.get?_eq_some.mpr ⟨hx, hkey⟩
            exact Option.some.inj (hget.symm.trans this)
          · exact absurd hkey (hother x hx)
      · rw [List.map_cons, List.map_cons, hbatch.values_erase,
          List.map_congr_left fun m hm => (hfilter m hm).symm]
      · exact List.forall_mem_cons.mpr ⟨hbatch.erase seq, hqueue⟩

/-- The tasks of a queue of batches, oldest first, after filtering each batch. -/
theorem flatMap_reverse_filter {queue queue' : List (BTreeMap ℕ (Task B))} {p : Task B → Bool}
    (h : queue'.map BTreeMap.values = queue.map fun m => m.values.filter p) :
    queue'.reverse.flatMap BTreeMap.values =
      (queue.reverse.flatMap BTreeMap.values).filter p := by
  rw [List.flatMap_def, List.flatMap_def, List.map_reverse, h, List.map_reverse,
    List.filter_flatten, List.map_reverse, List.map_map]
  rfl

section Remove

variable {t : ClientTaskTimer B} (sound : Sound t)

include sound

/-- Two live tasks have different numbers. -/
theorem Sound.eq_of_key_eq {x y : Task B} (hx : x ∈ t.live) (hy : y ∈ t.live)
    (h : x.key = y.key) : x = y :=
  List.inj_on_of_nodup_map (List.pairwise_map.mpr sound.distinct) hx hy h

theorem Sound.lookup_eq_some {seq : ℕ} {x : Task B} :
    t.lookup seq = some x ↔ x ∈ t.live ∧ x.key = seq := by
  constructor
  · intro h
    exact ⟨List.mem_of_find?_eq_some h, by simpa using List.find?_some h⟩
  · rintro ⟨hx, hkey⟩
    rcases h : t.lookup seq with _ | y
    · have := List.find?_eq_none.mp h x hx
      exact absurd hkey (by simpa using this)
    · have hy : y.key = seq := by simpa using List.find?_some h
      rw [sound.eq_of_key_eq (List.mem_of_find?_eq_some h) hx (hy.trans hkey.symm)]

/-- Batches share no number. -/
theorem Sound.delay_distinct :
    (t.delayTasksQueue.flatMap BTreeMap.values).Pairwise fun x y => x.key ≠ y.key := by
  have hdistinct := (List.pairwise_append.mp (List.pairwise_append.mp sound.distinct).1).1
  have hperm : (t.delayTasksQueue.reverse.flatMap BTreeMap.values).Perm
      (t.delayTasksQueue.flatMap BTreeMap.values) :=
    (List.reverse_perm _).flatMap_right _
  exact hperm.pairwise hdistinct fun h => Ne.symm h

/-- The task taken from the maps, and what is left there. -/
theorem Sound.removeTask_spec (seq : ℕ) :
    (∀ x, (t.removeTask seq).2 = some x ↔ x ∈ t.pulled ∧ x.key = seq) ∧
      (t.removeTask seq).1.pulled = t.pulled.filter (·.key ≠ seq) ∧
      (Keyed (t.removeTask seq).1.sentTasks ∧
        ∀ m ∈ (t.removeTask seq).1.delayTasksQueue, Keyed m) := by
  obtain ⟨hfound, hrest, hkeep⟩ := removeDelayed_spec seq sound.delayKeyed sound.delay_distinct
  have hmem : ∀ x, x ∈ t.delayTasksQueue.reverse.flatMap BTreeMap.values ↔
      x ∈ t.delayTasksQueue.flatMap BTreeMap.values := fun x => by simp
  have hcross := (List.pairwise_append.mp (List.pairwise_append.mp sound.distinct).1).2.2
  rcases hget : t.sentTasks.get? seq with _ | y
  · have hnone := sound.sentKeyed.get?_eq_none.mp hget
    have hsent : t.sentTasks.values.filter (·.key ≠ seq) = t.sentTasks.values :=
      List.filter_eq_self.mpr fun x hx => by simpa using hnone x hx
    simp only [ClientTaskTimer.removeTask, hget]
    refine ⟨fun x => ?_, ?_, sound.sentKeyed, hkeep⟩
    · rw [hfound x, pulled, List.mem_append, hmem]
      constructor
      · rintro ⟨hx, hkey⟩
        exact ⟨Or.inl hx, hkey⟩
      · rintro ⟨hx | hx, hkey⟩
        · exact ⟨hx, hkey⟩
        · exact absurd hkey (hnone x hx)
    · rw [pulled, pulled, List.filter_append, hsent, flatMap_reverse_filter hrest]
  · obtain ⟨hy, hykey⟩ := sound.sentKeyed.get?_eq_some.mp hget
    -- the batches hold other numbers
    have hother : ∀ x ∈ t.delayTasksQueue.reverse.flatMap BTreeMap.values, x.key ≠ seq :=
      fun x hx hkey => hcross x hx y hy (hkey.trans hykey.symm)
    have hdelay : (t.delayTasksQueue.reverse.flatMap BTreeMap.values).filter (·.key ≠ seq) =
        t.delayTasksQueue.reverse.flatMap BTreeMap.values :=
      List.filter_eq_self.mpr fun x hx => by simpa using hother x hx
    simp only [ClientTaskTimer.removeTask, hget]
    refine ⟨fun x => ?_, ?_, sound.sentKeyed.erase seq, sound.delayKeyed⟩
    · rw [Option.some_inj, pulled, List.mem_append]
      constructor
      · rintro rfl
        exact ⟨Or.inr hy, hykey⟩
      · rintro ⟨hx | hx, hkey⟩
        · exact absurd hkey (hother x hx)
        · exact Option.some.inj (hget.symm.trans (sound.sentKeyed.get?_eq_some.mpr ⟨hx, hkey⟩))
    · rw [pulled, pulled, List.filter_append, hdelay, sound.sentKeyed.values_erase]

end Remove

/-- Which fields `removeTask` leaves alone. -/
theorem removeTask_frame (t : ClientTaskTimer B) (seq : ℕ) :
    (t.removeTask seq).1.pendingTasks = t.pendingTasks ∧
      (t.removeTask seq).1.processedSeq = t.processedSeq ∧
      (t.removeTask seq).1.minDelaySeq = t.minDelaySeq := by
  rcases hget : t.sentTasks.get? seq with _ | y
  · simp only [removeTask, hget, and_self]
  · simp only [removeTask, hget, and_self]

/-- Looking for a number that has been pulled: its task is found, and leaves. -/
theorem Inv.removeTask {hi : ℕ} {t : ClientTaskTimer B} (inv : Inv hi t) {seq : ℕ}
    (hseq : seq ≤ t.processedSeq) :
    Inv hi (t.removeTask seq).1 ∧ (t.removeTask seq).2 = t.lookup seq ∧
      (t.removeTask seq).1.live = t.live.filter (·.key ≠ seq) := by
  obtain ⟨hfound, hpulled, hsentKeyed, hdelayKeyed⟩ := inv.sound.removeTask_spec seq
  obtain ⟨hpending, hproc, hmin⟩ := removeTask_frame t seq
  have hnot : ∀ x ∈ t.pendingTasks, ¬ x.key = seq := fun x hx => by
    have := inv.lt_pending x hx
    omega
  have hlive : (t.removeTask seq).1.live = t.live.filter (·.key ≠ seq) := by
    have hkeep : t.pendingTasks.filter (·.key ≠ seq) = t.pendingTasks :=
      List.filter_eq_self.mpr fun x hx => by simpa using hnot x hx
    rw [live, live, hpulled, hpending, List.filter_append, hkeep]
  have hsub : ∀ x ∈ (t.removeTask seq).1.live, x ∈ t.live := fun x hx => by
    rw [hlive] at hx
    exact (List.mem_filter.mp hx).1
  refine ⟨⟨hsentKeyed, hdelayKeyed, ?_, ?_, ?_, ?_, ?_, ?_, ?_⟩, ?_, hlive⟩
  · rw [hlive]
    exact inv.ordered.filter _
  · intro x hx
    rw [hpulled] at hx
    rw [hproc]
    exact inv.pulled_le x (List.mem_filter.mp hx).1
  · rw [hpending, hproc]
    exact inv.lt_pending
  · intro x hx
    rw [hmin]
    exact inv.minDelay_lt x (hsub x hx)
  · rw [hmin, hproc]
    exact inv.minDelay_le
  · exact fun x hx => inv.live_le x (hsub x hx)
  · rw [hproc]
    exact inv.processed_le
  · refine Option.ext fun x => ?_
    rw [inv.sound.lookup_eq_some, hfound, live, List.mem_append]
    constructor
    · rintro ⟨hx, hkey⟩
      exact ⟨Or.inl hx, hkey⟩
    · rintro ⟨hx | hx, hkey⟩
      · exact ⟨hx, hkey⟩
      · exact absurd hkey (hnot x hx)

/-- What a receiver gets that asks for `seq`, with the registry before and after:
that task, which leaves; or nothing, and no task leaves. -/
def Takes (seq : ℕ) (t : ClientTaskTimer B) : ClientTaskTimer B × Option (Option (Task B)) → Prop
  | (t', some (some x)) => x.key = seq ∧ t.live.Perm (x :: t'.live)
  | (t', _) => t'.live = t.live

theorem Takes.subset {seq : ℕ} {t t' : ClientTaskTimer B} {r : Option (Option (Task B))}
    (h : Takes seq t (t', r)) : t'.live ⊆ t.live := by
  rcases r with _ | _ | x
  · exact (List.Perm.of_eq h).subset
  · exact (List.Perm.of_eq h).subset
  · exact List.Subset.trans (List.subset_cons_self x _) h.2.symm.subset

/-- Tasks with other numbers stay. -/
theorem Takes.mem_live {seq : ℕ} {t t' : ClientTaskTimer B} {r : Option (Option (Task B))}
    (h : Takes seq t (t', r)) {x : Task B} (hx : x ∈ t.live) (hkey : x.key ≠ seq) :
    x ∈ t'.live := by
  rcases r with _ | _ | y
  · exact (List.Perm.of_eq h).mem_iff.mpr hx
  · exact (List.Perm.of_eq h).mem_iff.mpr hx
  · rcases List.mem_cons.mp (h.2.mem_iff.mp hx) with rfl | hx
    · exact absurd h.1 hkey
    · exact hx

/-- One task with its number leaves. -/
theorem perm_filter {tasks : List (Task B)} (hdistinct : tasks.Pairwise fun x y => x.key ≠ y.key)
    {x : Task B} (hx : x ∈ tasks) : tasks.Perm (x :: tasks.filter (·.key ≠ x.key)) := by
  obtain ⟨older, newer, rfl⟩ := List.append_of_mem hx
  rw [List.pairwise_append, List.pairwise_cons] at hdistinct
  obtain ⟨-, ⟨hnewer, -⟩, holder⟩ := hdistinct
  have hkeepOlder : older.filter (·.key ≠ x.key) = older :=
    List.filter_eq_self.mpr fun y hy => by simpa using holder y hy x List.mem_cons_self
  have hkeepNewer : newer.filter (·.key ≠ x.key) = newer :=
    List.filter_eq_self.mpr fun y hy => by simpa using (hnewer y hy).symm
  rw [List.filter_append, hkeepOlder, List.filter_cons_of_neg (by simp), hkeepNewer]
  exact List.perm_middle

theorem Sound.takes_removeTask {t : ClientTaskTimer B} (sound : Sound t) (seq : ℕ) :
    Takes seq t ((t.removeTask seq).1, some (t.removeTask seq).2) := by
  obtain ⟨hfound, hpulled, -⟩ := sound.removeTask_spec seq
  obtain ⟨hpending, -⟩ := removeTask_frame t seq
  have hlive : (t.removeTask seq).1.live = t.pulled.filter (·.key ≠ seq) ++ t.pendingTasks := by
    rw [live, hpulled, hpending]
  rcases hr : (t.removeTask seq).2 with _ | x
  · have hnot : t.pulled.filter (·.key ≠ seq) = t.pulled :=
      List.filter_eq_self.mpr fun x hx => by
        have hne : x.key ≠ seq := fun hkey => by
          have hsome := (hfound x).mpr ⟨hx, hkey⟩
          rw [hr] at hsome
          cases hsome
        simpa using hne
    rw [hnot] at hlive
    exact hlive
  · obtain ⟨hmem, hkey⟩ := (hfound x).mp hr
    refine ⟨hkey, ?_⟩
    rw [hlive, ← hkey]
    exact (perm_filter (List.pairwise_append.mp sound.distinct).1 hmem).append_right _

/-- The wait for a registration pulls, or leaves the registry alone. -/
theorem waitRegTaskPoll_fst (t : ClientTaskTimer B) (seq : ℕ) :
    (t.waitRegTaskPoll seq).1 = t ∨ (t.waitRegTaskPoll seq).1 = t.pullPending := by
  rw [waitRegTaskPoll]
  split
  · exact Or.inl rfl
  · split
    · exact Or.inl rfl
    · right
      dsimp only [pollSentTask]
      split <;> rfl

theorem waitRegTaskPoll_true {t t' : ClientTaskTimer B} {seq : ℕ}
    (h : t.waitRegTaskPoll seq = (t', some true)) : seq ≤ t'.processedSeq := by
  rw [waitRegTaskPoll] at h
  split at h
  · cases h
    assumption
  · split at h
    · cases h
    · dsimp only at h
      split at h
      · rename_i hle
        cases h
        exact hle.2
      · cases h

theorem Inv.waitRegTaskPoll {hi : ℕ} {t : ClientTaskTimer B} (inv : Inv hi t) (seq : ℕ) :
    Inv hi (t.waitRegTaskPoll seq).1 ∧ (t.waitRegTaskPoll seq).1.live = t.live := by
  rcases waitRegTaskPoll_fst t seq with h | h
  · rw [h]
    exact ⟨inv, rfl⟩
  · rw [h]
    exact inv.pullPending

/-- `take_task(seq)` has no need to wait: the number has timed out or been
pulled, or registration goes on and the channel holds a number at least as
great. -/
def Ready (t : ClientTaskTimer B) (seq : ℕ) : Prop :=
  seq < t.minDelaySeq ∨ seq ≤ t.processedSeq ∨
    t.regStoppedFlag = false ∧ ∃ x ∈ t.pendingTasks, seq ≤ x.key

/-- The wait pulls what the channel holds. -/
theorem Inv.waitRegTaskPoll_of_pending {hi : ℕ} {t : ClientTaskTimer B} (inv : Inv hi t) {seq : ℕ}
    (hseq : t.processedSeq < seq) (hstop : t.regStoppedFlag = false) {x : Task B}
    (hx : x ∈ t.pendingTasks) (hle : seq ≤ x.key) :
    t.waitRegTaskPoll seq = (t.pullPending, some true) ∧ seq ≤ t.pullPending.processedSeq := by
  obtain ⟨inv', hlive⟩ := inv.pullPending
  have hproc : seq ≤ t.pullPending.processedSeq := by
    refine Nat.le_trans hle (inv'.pulled_le x ?_)
    rw [← pulled_pullPending, hlive]
    exact List.mem_append_right _ hx
  have hgot : (!t.pendingTasks.isEmpty) = true := by
    rcases hp : t.pendingTasks with _ | ⟨y, ys⟩
    · rw [hp] at hx
      exact absurd hx List.not_mem_nil
    · rfl
  refine ⟨?_, hproc⟩
  rw [ClientTaskTimer.waitRegTaskPoll, if_neg (Nat.not_le_of_lt hseq), hstop,
    if_neg Bool.false_ne_true]
  exact if_pos ⟨hgot, hproc⟩

theorem Takes.of_live {seq : ℕ} {t t' : ClientTaskTimer B}
    {r : ClientTaskTimer B × Option (Option (Task B))} (h : Takes seq t' r)
    (hlive : t'.live = t.live) : Takes seq t r := by
  obtain ⟨t'', _ | _ | x⟩ := r
  · exact Eq.trans h hlive
  · exact Eq.trans h hlive
  · rw [Takes, hlive] at h
    exact h

/-- `take_task` from its await on. -/
theorem Inv.resumeTakeTask {hi : ℕ} {t : ClientTaskTimer B} (inv : Inv hi t) (seq : ℕ) :
    Inv hi (t.resumeTakeTask seq).1 ∧ Takes seq t (t.resumeTakeTask seq) := by
  obtain ⟨inv', hlive⟩ := inv.waitRegTaskPoll seq
  rcases hr : t.waitRegTaskPoll seq with ⟨t', _ | _ | _⟩
  · simp only [ClientTaskTimer.resumeTakeTask, hr]
    rw [hr] at inv' hlive
    exact ⟨inv', hlive⟩
  · simp only [ClientTaskTimer.resumeTakeTask, hr]
    rw [hr] at inv' hlive
    exact ⟨inv', hlive⟩
  · simp only [ClientTaskTimer.resumeTakeTask, hr]
    rw [hr] at inv' hlive
    have hle := waitRegTaskPoll_true hr
    exact ⟨(inv'.removeTask hle).1, (inv'.sound.takes_removeTask seq).of_live hlive⟩

/-- `take_task`, first poll. -/
theorem Inv.takeTask {hi : ℕ} {t : ClientTaskTimer B} (inv : Inv hi t) (seq : ℕ) :
    Inv hi (t.takeTask seq).1 ∧ Takes seq t (t.takeTask seq) := by
  rw [ClientTaskTimer.takeTask]
  split
  · exact ⟨inv, rfl⟩
  · split
    · exact inv.resumeTakeTask seq
    · rename_i hlt
      have hle := Nat.le_of_not_lt hlt
      exact ⟨(inv.removeTask hle).1, inv.sound.takes_removeTask seq⟩

/-- When it need not wait, `take_task` finds the live task with that number, if
there is one, and that task leaves. -/
theorem Inv.takeTask_of_ready {hi : ℕ} {t : ClientTaskTimer B} (inv : Inv hi t) {seq : ℕ}
    (h : t.Ready seq) :
    (t.takeTask seq).2 = some (t.lookup seq) ∧
      (t.takeTask seq).1.live = t.live.filter (·.key ≠ seq) := by
  rw [ClientTaskTimer.takeTask]
  split
  · rename_i hmin
    have hnot : ∀ x ∈ t.live, ¬ x.key = seq := fun x hx => by
      have := inv.minDelay_lt x hx
      omega
    refine ⟨congrArg some (List.find?_eq_none.mpr fun x hx => ?_).symm,
      (List.filter_eq_self.mpr fun x hx => ?_).symm⟩
    · simpa using hnot x hx
    · simpa using hnot x hx
  · rename_i hmin
    split
    · rename_i hproc
      obtain ⟨hstop, x, hx, hle⟩ : t.regStoppedFlag = false ∧ ∃ x ∈ t.pendingTasks, seq ≤ x.key :=
        (h.resolve_left hmin).resolve_left (Nat.not_le_of_lt hproc)
      obtain ⟨hwait, hle'⟩ := inv.waitRegTaskPoll_of_pending hproc hstop hx hle
      obtain ⟨inv', hlive⟩ := inv.pullPending
      obtain ⟨-, hfind, hfilter⟩ := inv'.removeTask hle'
      simp only [ClientTaskTimer.resumeTakeTask, hwait, hfind, hfilter, lookup, hlive, and_self]
    · rename_i hproc
      obtain ⟨-, hfind, hfilter⟩ := inv.removeTask (Nat.le_of_not_lt hproc)
      exact ⟨congrArg some hfind, hfilter⟩

/-- A task that was pulled is found at once, by either poll. -/
theorem Inv.takeTask_of_pulled {hi : ℕ} {t : ClientTaskTimer B} (inv : Inv hi t) {x : Task B}
    (hx : x ∈ t.pulled) :
    (t.takeTask x.key).2 = some (some x) ∧ (t.resumeTakeTask x.key).2 = some (some x) := by
  have hle := inv.pulled_le x hx
  have hfound : t.lookup x.key = some x :=
    inv.sound.lookup_eq_some.mpr ⟨List.mem_append_left _ hx, rfl⟩
  constructor
  · rw [(inv.takeTask_of_ready (Or.inr (Or.inl hle))).1, hfound]
  · have hwait : t.waitRegTaskPoll x.key = (t, some true) := if_pos hle
    obtain ⟨-, hfind, -⟩ := inv.removeTask hle
    simp only [ClientTaskTimer.resumeTakeTask, hwait, hfind, hfound]

/-! ## What the receiver can do -/

/-- The registry after one operation of the receiver: what was in the channel may
have been pulled, then tasks were moved about in the maps. -/
inductive Turn (t : ClientTaskTimer B) : ClientTaskTimer B → Prop
  | stay (sentTasks : BTreeMap ℕ (Task B)) (delayTasksQueue : List (BTreeMap ℕ (Task B)))
      (minDelaySeq : ℕ) : Turn t { t with sentTasks, delayTasksQueue, minDelaySeq }
  | pull (sentTasks : BTreeMap ℕ (Task B)) (delayTasksQueue : List (BTreeMap ℕ (Task B)))
      (minDelaySeq : ℕ) : Turn t { t.pullPending with sentTasks, delayTasksQueue, minDelaySeq }

theorem Turn.refl (t : ClientTaskTimer B) : Turn t t := .stay _ _ _

theorem turn_pullPending (t : ClientTaskTimer B) : Turn t t.pullPending := .pull _ _ _

/-- Afterwards tasks may be moved about some more. -/
theorem Turn.removeTask {t t' : ClientTaskTimer B} (h : Turn t t') (seq : ℕ) :
    Turn t (t'.removeTask seq).1 := by
  rcases hget : t'.sentTasks.get? seq with _ | y
  · simp only [ClientTaskTimer.removeTask, hget]
    cases h with
    | stay => exact .stay _ _ _
    | pull => exact .pull _ _ _
  · simp only [ClientTaskTimer.removeTask, hget]
    cases h with
    | stay => exact .stay _ _ _
    | pull => exact .pull _ _ _

theorem pendingCap_foldl (tasks : List (Task B)) (t : ClientTaskTimer B) :
    (tasks.foldl gotPendingTask t).pendingCap = t.pendingCap := by
  induction tasks generalizing t with
  | nil => rfl
  | cons x tasks ih => exact ih _

theorem Turn.pendingCap {t t' : ClientTaskTimer B} (h : Turn t t') :
    t'.pendingCap = t.pendingCap := by
  cases h with
  | stay => rfl
  | pull => exact pendingCap_foldl _ _

theorem taskTimeout_foldl (tasks : List (Task B)) (t : ClientTaskTimer B) :
    (tasks.foldl gotPendingTask t).taskTimeout = t.taskTimeout := by
  induction tasks generalizing t with
  | nil => rfl
  | cons x tasks ih => exact ih _

theorem Turn.taskTimeout {t t' : ClientTaskTimer B} (h : Turn t t') :
    t'.taskTimeout = t.taskTimeout := by
  cases h with
  | stay => rfl
  | pull => exact taskTimeout_foldl _ _

theorem Turn.pendingTasks {t t' : ClientTaskTimer B} (h : Turn t t') :
    t'.pendingTasks ⊆ t.pendingTasks := by
  cases h with
  | stay => exact List.Subset.refl _
  | pull =>
    change t.pullPending.pendingTasks ⊆ t.pendingTasks
    rw [pendingTasks_pullPending]
    exact List.nil_subset _

/-- A task that was pulled does not go back to the channel. -/
theorem Turn.mem_pulled {hi : ℕ} {t t' : ClientTaskTimer B} (h : Turn t t') (inv : Inv hi t)
    {x : Task B} (hx : x ∈ t.pulled) (hlive : x ∈ t'.live) : x ∈ t'.pulled := by
  rcases List.mem_append.mp hlive with hpulled | hpending
  · exact hpulled
  · have hle := inv.pulled_le x hx
    have hlt := inv.lt_pending x (h.pendingTasks hpending)
    omega

/-- What pulling and taking a task out keep, `take_task` keeps from its await on. -/
theorem resumeTakeTask_rule {P : ClientTaskTimer B → Prop} {t : ClientTaskTimer B} (seq : ℕ)
    (h : P t) (hpull : P t.pullPending) (hremove : ∀ t', P t' → P (t'.removeTask seq).1) :
    P (t.resumeTakeTask seq).1 := by
  have hwait : P (t.waitRegTaskPoll seq).1 := by
    rcases waitRegTaskPoll_fst t seq with hfst | hfst
    · rw [hfst]
      exact h
    · rw [hfst]
      exact hpull
  rw [ClientTaskTimer.resumeTakeTask]
  rcases hr : t.waitRegTaskPoll seq with ⟨t', _ | _ | _⟩
  · rw [hr] at hwait
    exact hwait
  · rw [hr] at hwait
    exact hwait
  · rw [hr] at hwait
    exact hremove t' hwait

/-- And so does its first poll. -/
theorem takeTask_rule {P : ClientTaskTimer B → Prop} {t : ClientTaskTimer B} (seq : ℕ)
    (h : P t) (hpull : P t.pullPending) (hremove : ∀ t', P t' → P (t'.removeTask seq).1) :
    P (t.takeTask seq).1 := by
  rw [ClientTaskTimer.takeTask]
  split
  · exact h
  · split
    · exact resumeTakeTask_rule seq h hpull hremove
    · exact hremove t h

theorem turn_resumeTakeTask (t : ClientTaskTimer B) (seq : ℕ) :
    Turn t (t.resumeTakeTask seq).1 :=
  resumeTakeTask_rule (P := Turn t) seq (.refl t) (turn_pullPending t) fun _ h => h.removeTask seq

theorem turn_takeTask (t : ClientTaskTimer B) (seq : ℕ) : Turn t (t.takeTask seq).1 :=
  takeTask_rule (P := Turn t) seq (.refl t) (turn_pullPending t) fun _ h => h.removeTask seq

/-! ## Time and tear-down -/

theorem Inv.checkPendingTasksEmpty {hi : ℕ} {t : ClientTaskTimer B} (inv : Inv hi t) :
    Inv hi t.checkPendingTasksEmpty.1 ∧ t.checkPendingTasksEmpty.1.live = t.live :=
  inv.pullPending

/-- An empty registry is found empty. -/
theorem live_checkPendingTasksEmpty {t : ClientTaskTimer B}
    (h : t.checkPendingTasksEmpty.2 = true) : t.checkPendingTasksEmpty.1.live = [] := by
  have hvalues : ∀ m : BTreeMap ℕ (Task B), m.isEmpty = true → m.values = [] := fun m hm => by
    rw [BTreeMap.values, List.isEmpty_iff.mp hm, List.map_nil]
  obtain ⟨hsent, hdelay⟩ := Bool.and_eq_true_iff.mp h
  change t.pullPending.live = []
  rw [pulled_pullPending, pulled, hvalues _ hsent, List.append_nil, List.flatMap_eq_nil_iff]
  intro m hm
  exact hvalues m (List.all_eq_true.mp hdelay m (List.mem_reverse.mp hm))

theorem minSeq_foldl_mem (seqs : List ℕ) (acc : ℕ) :
    let r := seqs.foldl (fun m s => if m = 0 ∨ s < m then s else m) acc
    r = acc ∨ r ∈ seqs := by
  induction seqs generalizing acc with
  | nil => exact Or.inl rfl
  | cons s seqs ih =>
    intro r
    rcases ih (if acc = 0 ∨ s < acc then s else acc) with h | h
    · change r = _ at h
      split at h
      · exact Or.inr (h ▸ List.mem_cons_self)
      · exact Or.inl h
    · exact Or.inr (List.mem_cons_of_mem _ h)

/-- The loop finds one of the numbers. -/
theorem minSeq_mem {seqs : List ℕ} (h : seqs ≠ []) : minSeq seqs ∈ seqs := by
  obtain ⟨s, seqs, rfl⟩ := List.exists_cons_of_ne_nil h
  rw [minSeq, List.foldl_cons, if_pos (Or.inl rfl)]
  rcases minSeq_foldl_mem seqs s with h | h
  · rw [h]
    exact List.mem_cons_self
  · exact List.mem_cons_of_mem _ h

variable [ClientTask B]

/-- A second passes: the batches move back, and the tasks of the oldest may leave,
failed with `Timeout`. -/
theorem adjustTaskQueue_spec (t : ClientTaskTimer B) :
    ∃ (delayTasksQueue : List (BTreeMap ℕ (Task B))) (late : List (Task B)) (minDelaySeq : ℕ),
      t.adjustTaskQueue =
        ({ t with sentTasks := .empty, delayTasksQueue, minDelaySeq },
          late.map (·.setRpcError .timeout)) ∧
      delayTasksQueue <+: t.sentTasks :: t.delayTasksQueue ∧
      t.pulled = late ++ t.adjustTaskQueue.1.pulled ∧
      t.live = late ++ t.adjustTaskQueue.1.live ∧
      (minDelaySeq = t.minDelaySeq ∨ ∃ x ∈ late, x.key = minDelaySeq) := by
  generalize hqueue : t.sentTasks :: t.delayTasksQueue = queue
  have hne : queue ≠ [] := by
    rw [← hqueue]
    exact List.cons_ne_nil _ _
  have hpulled : t.pulled = queue.reverse.flatMap BTreeMap.values := by
    rw [← hqueue, List.reverse_cons, List.flatMap_append, pulled]
    simp
  have hlast : queue.reverse.flatMap BTreeMap.values =
      (queue.getLast hne).values ++ queue.dropLast.reverse.flatMap BTreeMap.values := by
    conv_lhs => rw [← List.dropLast_append_getLast hne]
    simp
  -- the tasks of the batches that stay, and those behind them in the channel
  have hsplit : ∀ (queue' : List (BTreeMap ℕ (Task B))) (late : List (Task B)) (minDelaySeq : ℕ),
      t.pulled = late ++ queue'.reverse.flatMap BTreeMap.values →
      let t' := { t with sentTasks := BTreeMap.empty, delayTasksQueue := queue', minDelaySeq }
      t.pulled = late ++ t'.pulled ∧ t.live = late ++ t'.live := by
    intro queue' late minDelaySeq h t'
    have hpulled' : t'.pulled = queue'.reverse.flatMap BTreeMap.values := List.append_nil _
    refine ⟨?_, ?_⟩
    · rw [hpulled', h]
    · rw [live, live, hpulled', h, List.append_assoc]
  simp only [ClientTaskTimer.adjustTaskQueue, hqueue]
  split
  · split
    · rename_i hempty
      have hnil : (queue.getLast hne).values = [] := by
        rw [BTreeMap.values, List.isEmpty_iff.mp hempty]
        rfl
      rw [hnil, List.nil_append] at hlast
      obtain ⟨hp, hl⟩ := hsplit queue.dropLast [] t.minDelaySeq (hpulled.trans hlast)
      exact ⟨queue.dropLast, [], t.minDelaySeq, rfl, List.dropLast_prefix _, hp, hl, Or.inl rfl⟩
    · rename_i hnonempty
      have hcons : (queue.getLast hne).values.map Task.key ≠ [] := by
        intro hnil
        rw [List.map_eq_nil_iff, BTreeMap.values, List.map_eq_nil_iff] at hnil
        exact hnonempty (List.isEmpty_iff.mpr hnil)
      obtain ⟨hp, hl⟩ := hsplit queue.dropLast (queue.getLast hne).values
        (minSeq ((queue.getLast hne).values.map Task.key)) (hpulled.trans hlast)
      exact ⟨queue.dropLast, (queue.getLast hne).values, _, rfl, List.dropLast_prefix _, hp, hl,
        Or.inr (List.mem_map.mp (minSeq_mem hcons))⟩
  · obtain ⟨hp, hl⟩ := hsplit queue [] t.minDelaySeq hpulled
    exact ⟨queue, [], t.minDelaySeq, rfl, List.prefix_refl _, hp, hl, Or.inl rfl⟩

theorem Inv.adjustTaskQueue {hi : ℕ} {t : ClientTaskTimer B} (inv : Inv hi t) :
    Inv hi t.adjustTaskQueue.1 ∧ ∃ late, t.live = late ++ t.adjustTaskQueue.1.live ∧
      t.adjustTaskQueue.2 = late.map (·.setRpcError .timeout) := by
  obtain ⟨queue, late, minDelaySeq, hadjust, hinit, hpulled, hlive, hmin⟩ :=
    adjustTaskQueue_spec t
  rw [hadjust] at hpulled hlive ⊢
  have hsub : ∀ x ∈ late, x ∈ t.pulled := fun x hx => by
    rw [hpulled]
    exact List.mem_append_left _ hx
  have hordered := inv.ordered
  rw [hlive, List.pairwise_append] at hordered
  have hkeyed : ∀ m ∈ t.sentTasks :: t.delayTasksQueue, Keyed m :=
    List.forall_mem_cons.mpr ⟨inv.sentKeyed, inv.delayKeyed⟩
  refine ⟨⟨Keyed.empty, fun m hm => hkeyed m (hinit.subset hm), hordered.2.1, fun x hx => ?_,
    inv.lt_pending, fun x hx => ?_, ?_, fun x hx => ?_, inv.processed_le⟩, late, hlive, rfl⟩
  · refine inv.pulled_le x ?_
    rw [hpulled]
    exact List.mem_append_right _ hx
  · rcases hmin with rfl | ⟨y, hy, rfl⟩
    · refine inv.minDelay_lt x ?_
      rw [hlive]
      exact List.mem_append_right _ hx
    · exact hordered.2.2 y hy x hx
  · rcases hmin with rfl | ⟨y, hy, rfl⟩
    · exact inv.minDelay_le
    · exact inv.pulled_le y (hsub y hy)
  · refine inv.live_le x ?_
    rw [hlive]
    exact List.mem_append_right _ hx

/-- Tear-down: every task leaves, failed with `IO`. -/
theorem cleanPendingTasks_spec (t : ClientTaskTimer B) :
    t.cleanPendingTasks.1.live = [] ∧
      t.cleanPendingTasks.2.Perm (t.pullPending.live.map (·.setRpcError .io)) ∧
      ∀ m ∈ t.cleanPendingTasks.1.delayTasksQueue, Keyed m := by
  have hnil : t.cleanPendingTasks.1.pulled = [] := by
    simp [ClientTaskTimer.cleanPendingTasks, pulled, List.flatMap_def, Function.comp_def]
  refine ⟨?_, List.Perm.map _ ?_, fun m hm => ?_⟩
  · rw [live, hnil]
    exact pendingTasks_pullPending t
  · rw [pulled_pullPending, pulled]
    exact List.perm_append_comm.trans (((List.reverse_perm _).flatMap_right _).symm.append_right _)
  · obtain ⟨-, -, rfl⟩ := List.mem_map.mp hm
    exact Keyed.empty

theorem Inv.cleanPendingTasks {hi : ℕ} {t : ClientTaskTimer B} (inv : Inv hi t) :
    Inv hi t.cleanPendingTasks.1 ∧ t.cleanPendingTasks.1.live = [] ∧
      t.cleanPendingTasks.2.Perm (t.live.map (·.setRpcError .io)) := by
  obtain ⟨inv', hlive⟩ := inv.pullPending
  obtain ⟨hnil, hfailed, hkeyed⟩ := cleanPendingTasks_spec t
  have hpulled : t.cleanPendingTasks.1.pulled = [] := (List.append_eq_nil_iff.mp hnil).1
  rw [hlive] at hfailed
  refine ⟨⟨Keyed.empty, hkeyed, ?_, ?_, inv'.lt_pending, ?_, inv'.minDelay_le, ?_,
    inv'.processed_le⟩, hnil, hfailed⟩
  · rw [hnil]
    exact List.Pairwise.nil
  · rw [hpulled]
    exact List.forall_mem_nil _
  · rw [hnil]
    exact List.forall_mem_nil _
  · rw [hnil]
    exact List.forall_mem_nil _

theorem turn_adjustTaskQueue (t : ClientTaskTimer B) : Turn t t.adjustTaskQueue.1 := by
  obtain ⟨queue, late, minDelaySeq, hadjust, -⟩ := adjustTaskQueue_spec t
  rw [hadjust]
  exact .stay _ _ _

theorem turn_cleanPendingTasks (t : ClientTaskTimer B) : Turn t t.cleanPendingTasks.1 :=
  .pull _ _ _

/-! ## Reachable registries -/

/-- Registries reached from a new one, with the last number registered. The
sender draws its numbers from a counter that starts at 1. Any operation may come
at any time: a `take_task` that waits is polled again (`resumeTakeTask`) with
other operations of the receiver in between. -/
inductive Reach (taskTimeout thresholds : ℕ) : ℕ → ClientTaskTimer B → Prop
  | new : Reach taskTimeout thresholds 0 (new taskTimeout thresholds)
  | regTask {hi : ℕ} {t t' : ClientTaskTimer B} (x : Task B) :
      Reach taskTimeout thresholds hi t → hi < x.key → t.regTask x = some t' →
      Reach taskTimeout thresholds x.key t'
  | stopRegTask {hi : ℕ} {t : ClientTaskTimer B} :
      Reach taskTimeout thresholds hi t → Reach taskTimeout thresholds hi t.stopRegTask
  | pollSentTask {hi : ℕ} {t : ClientTaskTimer B} :
      Reach taskTimeout thresholds hi t → Reach taskTimeout thresholds hi t.pollSentTask.1
  | takeTask {hi : ℕ} {t : ClientTaskTimer B} (seq : ℕ) :
      Reach taskTimeout thresholds hi t → Reach taskTimeout thresholds hi (t.takeTask seq).1
  | resumeTakeTask {hi : ℕ} {t : ClientTaskTimer B} (seq : ℕ) :
      Reach taskTimeout thresholds hi t → Reach taskTimeout thresholds hi (t.resumeTakeTask seq).1
  | checkPendingTasksEmpty {hi : ℕ} {t : ClientTaskTimer B} :
      Reach taskTimeout thresholds hi t →
      Reach taskTimeout thresholds hi t.checkPendingTasksEmpty.1
  | adjustTaskQueue {hi : ℕ} {t : ClientTaskTimer B} :
      Reach taskTimeout thresholds hi t → Reach taskTimeout thresholds hi t.adjustTaskQueue.1
  | cleanPendingTasks {hi : ℕ} {t : ClientTaskTimer B} :
      Reach taskTimeout thresholds hi t → Reach taskTimeout thresholds hi t.cleanPendingTasks.1

theorem Reach.inv {taskTimeout thresholds hi : ℕ} {t : ClientTaskTimer B}
    (h : Reach taskTimeout thresholds hi t) : Inv hi t := by
  induction h with
  | new => exact Inv.new taskTimeout thresholds
  | regTask x _ hx hreg ih => exact ih.regTask hx hreg
  | stopRegTask _ ih => exact ih.stopRegTask
  | pollSentTask _ ih => exact ih.pullPending.1
  | takeTask seq _ ih => exact (ih.takeTask seq).1
  | resumeTakeTask seq _ ih => exact (ih.resumeTakeTask seq).1
  | checkPendingTasksEmpty _ ih => exact ih.checkPendingTasksEmpty.1
  | adjustTaskQueue _ ih => exact ih.adjustTaskQueue.1
  | cleanPendingTasks _ ih => exact ih.cleanPendingTasks.1

/-- **When a response finds its task.** In every reachable registry, taking a
live task returns it exactly when registration goes on or the task has left the
channel already. -/
theorem takeTask_eq_some_iff {taskTimeout thresholds hi : ℕ} {t : ClientTaskTimer B}
    (h : Reach taskTimeout thresholds hi t) {x : Task B} (hx : x ∈ t.live) :
    (t.takeTask x.key).2 = some (some x) ↔ (t.regStoppedFlag = false ∨ x ∉ t.pendingTasks) := by
  have inv := h.inv
  have hfind : t.lookup x.key = some x := inv.sound.lookup_eq_some.mpr ⟨hx, rfl⟩
  constructor
  · intro htake
    by_contra hnot
    rw [not_or, not_not, Bool.not_eq_false] at hnot
    obtain ⟨hstop, hpending⟩ := hnot
    -- in the channel and stopped: the wait gives up
    have hproc := inv.lt_pending x hpending
    have hmin := inv.minDelay_lt x hx
    rw [ClientTaskTimer.takeTask, if_neg (Nat.not_lt_of_lt hmin), if_pos hproc,
      ClientTaskTimer.resumeTakeTask, ClientTaskTimer.waitRegTaskPoll,
      if_neg (Nat.not_le_of_lt hproc), if_pos hstop] at htake
    cases htake
  · intro hcond
    have hready : t.Ready x.key := by
      rcases List.mem_append.mp hx with hpulled | hpending
      · exact Or.inr (Or.inl (inv.pulled_le x hpulled))
      · exact Or.inr (Or.inr ⟨hcond.resolve_right (not_not_intro hpending), x, hpending,
          Nat.le_refl _⟩)
    rw [(inv.takeTask_of_ready hready).1, hfind]

/-- A registry with one task, registered and not yet pulled. -/
def onePending : ClientTaskTimer APIClientReq :=
  { new 20 128 with pendingTasks := [⟨0, 1, .new "calc.add" []⟩] }

theorem reach_onePending : Reach 20 128 1 onePending :=
  Reach.regTask ⟨0, 1, .new "calc.add" []⟩ Reach.new (by decide) rfl

/-- While registration goes on, the response finds the task in the channel. -/
theorem takeTask_onePending :
    (onePending.takeTask 1).2 = some (some ⟨0, 1, .new "calc.add" []⟩) :=
  (takeTask_eq_some_iff reach_onePending (x := ⟨0, 1, .new "calc.add" []⟩)
    List.mem_cons_self).mpr (Or.inl rfl)

/-- A task registered just before the client is dropped: its response is thrown
away. -/
theorem takeTask_stopped_pending :
    Reach 20 128 1 onePending.stopRegTask ∧
      (⟨0, 1, .new "calc.add" []⟩ : Task APIClientReq) ∈ onePending.stopRegTask.live ∧
      (onePending.stopRegTask.takeTask 1).2 = some none :=
  ⟨reach_onePending.stopRegTask, List.mem_cons_self, rfl⟩

end ClientTaskTimer

end RazorRpc
