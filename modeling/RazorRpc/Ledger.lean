import RazorRpc.Registry
import RazorRpc.Lib.Lts
import Mathlib.Algebra.Order.Group.Multiset
import Mathlib.Tactic.Abel

/-!
# The books of a registry

Operations on a registry in any order, with a ledger kept beside it: which tasks were
registered, which were pulled from the channel, and which left, and how. Nothing reads
the ledger; it is there to say what the operations did to the tasks.

* Under numbers that never repeat, in whatever order they come, the registry loses no
  task and makes none up (`registry_conserves`). What carries it is `Sound`: each
  task stored under its own number and no number twice.
* Under increasing numbers the containers are ordered by age (`registry_age_ordered`).
  `min_delay_seq` and `processed_seq`, both written without a comparison, are right
  because of that.
-/

namespace RazorRpc

namespace ClientTaskTimer

variable {B : Type}

/-! ## Numbers in any order -/

/-- From `t` to `t'`, the tasks `gone` left and the others stayed. -/
structure Parts (gone : List (Task B)) (t t' : ClientTaskTimer B) : Prop where
  sound : Sound t'
  perm : t.live.Perm (gone ++ t'.live)

theorem Parts.refl {t : ClientTaskTimer B} (sound : Sound t) : Parts [] t t :=
  ⟨sound, List.Perm.refl _⟩

/-- First a move within the registry, then tasks leave. -/
theorem Parts.after {gone : List (Task B)} {t t' t'' : ClientTaskTimer B} (h : Parts gone t' t'')
    (hmove : Parts [] t t') : Parts gone t t'' :=
  ⟨h.sound, hmove.perm.trans h.perm⟩

theorem Sound.new (taskTimeout thresholds : ℕ) :
    Sound (ClientTaskTimer.new taskTimeout thresholds : ClientTaskTimer B) :=
  (Inv.new taskTimeout thresholds).sound

theorem Sound.regTask {t t' : ClientTaskTimer B} (sound : Sound t) {x : Task B}
    (hx : ∀ y ∈ t.live, y.key ≠ x.key) (h : t.regTask x = some t') : Sound t' := by
  have hlive := live_regTask h
  obtain rfl := ClientTaskTimer.regTask_eq h
  refine ⟨sound.sentKeyed, sound.delayKeyed, ?_⟩
  rw [hlive, List.pairwise_append]
  refine ⟨sound.distinct, List.pairwise_singleton _ _, fun y hy z hz => ?_⟩
  rw [List.mem_singleton.mp hz]
  exact hx y hy

/-- An arrival replaces no task: its number is new to `sent_tasks`. -/
theorem Sound.gotPendingTask {t : ClientTaskTimer B} {x : Task B} {rest : List (Task B)}
    (sound : Sound { t with pendingTasks := x :: rest }) :
    Parts [] { t with pendingTasks := x :: rest }
      { t.gotPendingTask x with pendingTasks := rest } := by
  have hcross := (List.pairwise_append.mp sound.distinct).2.2
  have hnone : t.sentTasks.get? x.key = none := by
    rw [Keyed.get?_eq_none sound.sentKeyed]
    intro y hy
    exact hcross y (List.mem_append_right _ hy) x List.mem_cons_self
  have hperm : ({ t with pendingTasks := x :: rest } : ClientTaskTimer B).live.Perm
      ({ t.gotPendingTask x with pendingTasks := rest } : ClientTaskTimer B).live := by
    change (t.delayTasksQueue.reverse.flatMap BTreeMap.values ++ t.sentTasks.values ++
      x :: rest).Perm (t.delayTasksQueue.reverse.flatMap BTreeMap.values ++
        (t.sentTasks.insert x.key x).values ++ rest)
    have hsent := BTreeMap.values_insert_perm hnone x
    rw [List.append_assoc, List.append_assoc]
    exact ((List.perm_middle.trans (hsent.symm.append_right rest))).append_left _
  refine ⟨⟨?_, sound.delayKeyed, ?_⟩, hperm⟩
  · exact Keyed.insert sound.sentKeyed x
  · exact hperm.pairwise sound.distinct fun h => Ne.symm h

theorem Sound.pullPending {t : ClientTaskTimer B} (sound : Sound t) :
    Parts [] t t.pullPending := by
  refine pullPending_rule (P := fun t' => Parts [] t t') ?_ (.refl sound)
  intro t' x rest h
  exact (Sound.gotPendingTask h.sound).after h

theorem Sound.removeTask {t : ClientTaskTimer B} (sound : Sound t) (seq : ℕ) :
    Parts (t.removeTask seq).2.toList t (t.removeTask seq).1 := by
  obtain ⟨-, hpulled, hsent, hdelay⟩ := sound.removeTask_spec seq
  obtain ⟨hpending, -⟩ := removeTask_frame t seq
  refine ⟨⟨hsent, hdelay, ?_⟩, ?_⟩
  · rw [live, hpulled, hpending]
    exact sound.distinct.sublist (List.filter_sublist.append_right _)
  · have htakes := sound.takes_removeTask seq
    rcases hr : (t.removeTask seq).2 with _ | x
    · rw [hr] at htakes
      exact List.Perm.of_eq htakes.symm
    · rw [hr] at htakes
      exact htakes.2

theorem Sound.waitRegTaskPoll {t : ClientTaskTimer B} (sound : Sound t) (seq : ℕ) :
    Parts [] t (t.waitRegTaskPoll seq).1 := by
  rcases waitRegTaskPoll_fst t seq with h | h
  · rw [h]
    exact .refl sound
  · rw [h]
    exact sound.pullPending

/-- What a poll of `take_task` returns has the number asked for, and only that leaves. -/
theorem Sound.resumeTakeTask {t : ClientTaskTimer B} (sound : Sound t) (seq : ℕ) :
    Parts (t.resumeTakeTask seq).2.join.toList t (t.resumeTakeTask seq).1 ∧
      ∀ x, (t.resumeTakeTask seq).2 = some (some x) → x.key = seq := by
  have hwait := sound.waitRegTaskPoll seq
  rcases hr : t.waitRegTaskPoll seq with ⟨t', _ | _ | _⟩
  · rw [hr] at hwait
    simp only [ClientTaskTimer.resumeTakeTask, hr]
    refine ⟨hwait, ?_⟩
    rintro x ⟨⟩
  · rw [hr] at hwait
    simp only [ClientTaskTimer.resumeTakeTask, hr]
    refine ⟨hwait, ?_⟩
    rintro x ⟨⟩
  · rw [hr] at hwait
    simp only [ClientTaskTimer.resumeTakeTask, hr]
    refine ⟨(hwait.sound.removeTask seq).after hwait, fun x hx => ?_⟩
    exact ((hwait.sound.removeTask_spec seq).1 x).mp (Option.some.inj hx) |>.2

theorem Sound.takeTask {t : ClientTaskTimer B} (sound : Sound t) (seq : ℕ) :
    Parts (t.takeTask seq).2.join.toList t (t.takeTask seq).1 ∧
      ∀ x, (t.takeTask seq).2 = some (some x) → x.key = seq := by
  rw [ClientTaskTimer.takeTask]
  split
  · refine ⟨.refl sound, ?_⟩
    rintro x ⟨⟩
  · split
    · exact sound.resumeTakeTask seq
    · refine ⟨sound.removeTask seq, fun x hx => ?_⟩
      exact ((sound.removeTask_spec seq).1 x).mp (Option.some.inj hx) |>.2

/-- The live tasks, container by container. -/
theorem live_perm (t : ClientTaskTimer B) :
    t.live.Perm (t.pendingTasks ++ (t.sentTasks.values ++
      t.delayTasksQueue.flatMap BTreeMap.values)) := by
  refine List.perm_append_comm.trans (List.Perm.append_left _ ?_)
  exact List.perm_append_comm.trans
    (((List.reverse_perm t.delayTasksQueue).flatMap_right _).append_left _)

theorem live_eq_nil {t : ClientTaskTimer B} :
    t.live = [] ↔ t.pendingTasks = [] ∧ t.sentTasks.values = [] ∧
      t.delayTasksQueue.flatMap BTreeMap.values = [] := by
  rw [← List.length_eq_zero_iff, t.live_perm.length_eq, List.length_eq_zero_iff,
    List.append_eq_nil_iff, List.append_eq_nil_iff]

/-- The containers: the channel, `sent_tasks`, then the batches. -/
def places (t : ClientTaskTimer B) : List (List (Task B)) :=
  t.pendingTasks :: t.sentTasks.values :: t.delayTasksQueue.map BTreeMap.values

theorem flatten_reverse_places (t : ClientTaskTimer B) : t.places.reverse.flatten = t.live := by
  rw [places, List.reverse_cons, List.reverse_cons, List.flatten_append, List.flatten_append,
    ← List.map_reverse, ← List.flatMap_def, List.flatten_singleton, List.flatten_singleton]
  rfl

theorem mem_live_of_place {t : ClientTaskTimer B} {place : List (Task B)} (h : place ∈ t.places)
    {x : Task B} (hx : x ∈ place) : x ∈ t.live := by
  rw [← flatten_reverse_places]
  exact List.mem_flatten_of_mem (List.mem_reverse.mpr h) hx

/-- `check_pending_tasks_empty` finds no task exactly when there is none. -/
theorem Sound.checkPendingTasksEmpty_iff {t : ClientTaskTimer B} (sound : Sound t) :
    t.checkPendingTasksEmpty.2 = true ↔ t.live = [] := by
  have hperm : t.live.Perm t.pullPending.live := sound.pullPending.perm
  constructor
  · intro h
    have hnil := live_checkPendingTasksEmpty h
    change t.pullPending.live = [] at hnil
    rw [hnil] at hperm
    exact hperm.eq_nil
  · intro h
    rw [h] at hperm
    obtain ⟨-, hsent, hdelay⟩ := live_eq_nil.mp hperm.symm.eq_nil
    have hempty : ∀ m : BTreeMap ℕ (Task B), m.values = [] → m.isEmpty = true := fun m hm =>
      List.isEmpty_iff.mpr (List.map_eq_nil_iff.mp hm)
    refine Bool.and_eq_true_iff.mpr ⟨hempty _ hsent, List.all_eq_true.mpr fun m hm => ?_⟩
    exact hempty m (List.flatMap_eq_nil_iff.mp hdelay m hm)

variable [ClientTask B]

theorem Sound.adjustTaskQueue {t : ClientTaskTimer B} (sound : Sound t) :
    ∃ late, t.adjustTaskQueue.2 = late.map (·.setRpcError .timeout) ∧
      Parts late t t.adjustTaskQueue.1 := by
  obtain ⟨queue, late, minDelaySeq, hadjust, hinit, -, hlive, -⟩ := adjustTaskQueue_spec t
  rw [hadjust] at hlive ⊢
  have hkeyed : ∀ m ∈ t.sentTasks :: t.delayTasksQueue, Keyed m :=
    List.forall_mem_cons.mpr ⟨sound.sentKeyed, sound.delayKeyed⟩
  have hdistinct := sound.distinct
  rw [hlive, List.pairwise_append] at hdistinct
  exact ⟨late, rfl, ⟨Keyed.empty, fun m hm => hkeyed m (hinit.subset hm), hdistinct.2.1⟩,
    List.Perm.of_eq hlive⟩

theorem Sound.cleanPendingTasks {t : ClientTaskTimer B} (sound : Sound t) :
    ∃ lost, t.cleanPendingTasks.2 = lost.map (·.setRpcError .io) ∧
      Parts lost t t.cleanPendingTasks.1 := by
  obtain ⟨hnil, -, hkeyed⟩ := cleanPendingTasks_spec t
  refine ⟨_, rfl, ⟨Keyed.empty, hkeyed, ?_⟩, ?_⟩
  · rw [hnil]
    exact List.Pairwise.nil
  · rw [hnil, List.append_nil]
    refine sound.pullPending.perm.trans ?_
    have hperm := t.pullPending.live_perm
    rw [pendingTasks_pullPending] at hperm
    exact hperm

end ClientTaskTimer

/-! ## The ledger -/

open ClientTaskTimer

/-- An operation on the registry. A `take_task` that waits is polled again by
`resumeTakeTask`, with other operations in between. -/
inductive TimerOp (B : Type)
  | regTask (task : Task B)
  | stopRegTask
  | pollSentTask
  | checkPendingTasksEmpty
  | takeTask (seq : ℕ)
  | resumeTakeTask (seq : ℕ)
  | adjustTaskQueue
  | cleanPendingTasks

/-- A registry, with what became of its tasks so far. -/
structure Ledger (B : Type) where
  timer : ClientTaskTimer B
  registered : List (Task B)
  /-- received from the channel -/
  pulled : List (Task B)
  /-- returned by `take_task` -/
  taken : List (Task B)
  /-- handed to `error_handle` by `adjust_task_queue` -/
  timedOut : List (Task B)
  /-- handed to `error_handle` by `clean_pending_tasks` -/
  failed : List (Task B)

namespace Ledger

variable {B : Type}

def new (taskTimeout thresholds : ℕ) : Ledger B :=
  ⟨.new taskTimeout thresholds, [], [], [], [], []⟩

/-- The receiver turns the registry into `t`: what has left the channel was pulled. -/
def advance (l : Ledger B) (t : ClientTaskTimer B) : Ledger B :=
  let received := l.timer.pendingTasks.length - t.pendingTasks.length
  { l with timer := t, pulled := l.pulled ++ l.timer.pendingTasks.take received }

@[simp] theorem timer_advance (l : Ledger B) (t : ClientTaskTimer B) :
    (l.advance t).timer = t := rfl

@[simp] theorem registered_advance (l : Ledger B) (t : ClientTaskTimer B) :
    (l.advance t).registered = l.registered := rfl

@[simp] theorem taken_advance (l : Ledger B) (t : ClientTaskTimer B) :
    (l.advance t).taken = l.taken := rfl

@[simp] theorem timedOut_advance (l : Ledger B) (t : ClientTaskTimer B) :
    (l.advance t).timedOut = l.timedOut := rfl

@[simp] theorem failed_advance (l : Ledger B) (t : ClientTaskTimer B) :
    (l.advance t).failed = l.failed := rfl

/-- One operation. `none` where it cannot happen: registration in a full channel waits. -/
def next [ClientTask B] (l : Ledger B) : TimerOp B → Option (Ledger B)
  | .regTask x => (l.timer.regTask x).map fun t =>
      { l with timer := t, registered := l.registered ++ [x] }
  | .stopRegTask => some (l.advance l.timer.stopRegTask)
  | .pollSentTask => some (l.advance l.timer.pollSentTask.1)
  | .checkPendingTasksEmpty => some (l.advance l.timer.checkPendingTasksEmpty.1)
  | .takeTask seq =>
      let r := l.timer.takeTask seq
      some { l.advance r.1 with taken := l.taken ++ r.2.join.toList }
  | .resumeTakeTask seq =>
      let r := l.timer.resumeTakeTask seq
      some { l.advance r.1 with taken := l.taken ++ r.2.join.toList }
  | .adjustTaskQueue =>
      let r := l.timer.adjustTaskQueue
      some { l.advance r.1 with timedOut := l.timedOut ++ r.2 }
  | .cleanPendingTasks =>
      let r := l.timer.cleanPendingTasks
      some { l.advance r.1 with failed := l.failed ++ r.2 }

/-! ## No task lost, none made up -/

/-- Numbers are not used again. -/
def Fresh (l : Ledger B) : TimerOp B → Prop
  | .regTask x => ∀ y ∈ l.registered, y.key ≠ x.key
  | _ => True

instance (l : Ledger B) : DecidablePred l.Fresh
  | .regTask x => inferInstanceAs (Decidable (∀ y ∈ l.registered, y.key ≠ x.key))
  | .stopRegTask | .pollSentTask | .checkPendingTasksEmpty | .takeTask _ | .resumeTakeTask _
  | .adjustTaskQueue | .cleanPendingTasks => .isTrue trivial

variable [ClientTask B]

/-- The registered tasks are those in the registry and those that have left. -/
structure Conserved (l : Ledger B) : Prop where
  sound : Sound l.timer
  distinct : (l.registered.map Task.key).Nodup
  account : ∃ late lost : List (Task B), l.timedOut = late.map (·.setRpcError .timeout) ∧
    l.failed = lost.map (·.setRpcError .io) ∧
    (l.registered : Multiset (Task B)) = l.timer.live + (l.taken + (late + lost))

variable {l l' : Ledger B}

theorem conserved_new (taskTimeout thresholds : ℕ) :
    (new taskTimeout thresholds : Ledger B).Conserved :=
  ⟨.new taskTimeout thresholds, List.nodup_nil, [], [], rfl, rfl, rfl⟩

/-- Tasks leave the registry and go into the books. -/
theorem Conserved.parts (h : l.Conserved) (found late lost : List (Task B))
    {t : ClientTaskTimer B} (hparts : Parts (found ++ (late ++ lost)) l.timer t) :
    Conserved { l.advance t with
      taken := l.taken ++ found
      timedOut := l.timedOut ++ late.map (·.setRpcError .timeout)
      failed := l.failed ++ lost.map (·.setRpcError .io) } := by
  obtain ⟨late₀, lost₀, htimedOut, hfailed, hsum⟩ := h.account
  refine ⟨hparts.sound, h.distinct, late₀ ++ late, lost₀ ++ lost, ?_, ?_, ?_⟩
  · rw [htimedOut, List.map_append]
  · rw [hfailed, List.map_append]
  · have hperm := Multiset.coe_eq_coe.mpr hparts.perm
    simp only [← Multiset.coe_add, registered_advance, timer_advance] at hperm ⊢
    rw [hsum, hperm]
    abel

theorem Conserved.regTask (h : l.Conserved) {x : Task B} {t : ClientTaskTimer B}
    (hx : ∀ y ∈ l.registered, y.key ≠ x.key) (hreg : l.timer.regTask x = some t) :
    Conserved { l with timer := t, registered := l.registered ++ [x] } := by
  obtain ⟨late, lost, htimedOut, hfailed, hsum⟩ := h.account
  have hlive : ∀ y ∈ l.timer.live, y ∈ l.registered := fun y hy => by
    rw [← Multiset.mem_coe, hsum, Multiset.mem_add]
    exact Or.inl hy
  refine ⟨h.sound.regTask (fun y hy => hx y (hlive y hy)) hreg, ?_, late, lost, htimedOut,
    hfailed, ?_⟩
  · rw [List.map_append, List.nodup_append]
    refine ⟨h.distinct, List.nodup_singleton _, fun a ha b hb => ?_⟩
    obtain ⟨y, hy, rfl⟩ := List.mem_map.mp ha
    rw [List.mem_singleton.mp hb]
    exact hx y hy
  · rw [live_regTask hreg, ← Multiset.coe_add, ← Multiset.coe_add, hsum]
    abel

theorem Conserved.step {op : TimerOp B} (h : l.Conserved) (hok : l.Fresh op)
    (hnext : l.next op = some l') : l'.Conserved := by
  cases op with
  | regTask x =>
    obtain ⟨t, hreg, rfl⟩ := Option.map_eq_some_iff.mp hnext
    exact h.regTask hok hreg
  | stopRegTask =>
    cases hnext
    exact ⟨⟨h.sound.sentKeyed, h.sound.delayKeyed, h.sound.distinct⟩, h.distinct, h.account⟩
  | pollSentTask =>
    cases hnext
    simpa [advance, pollSentTask] using h.parts [] [] [] h.sound.pullPending
  | checkPendingTasksEmpty =>
    cases hnext
    simpa [advance, ClientTaskTimer.checkPendingTasksEmpty]
      using h.parts [] [] [] h.sound.pullPending
  | takeTask seq =>
    cases hnext
    have hfound := (h.sound.takeTask seq).1
    rw [← List.append_nil (l.timer.takeTask seq).2.join.toList] at hfound
    simpa using h.parts _ [] [] hfound
  | resumeTakeTask seq =>
    cases hnext
    have hfound := (h.sound.resumeTakeTask seq).1
    rw [← List.append_nil (l.timer.resumeTakeTask seq).2.join.toList] at hfound
    simpa using h.parts _ [] [] hfound
  | adjustTaskQueue =>
    cases hnext
    obtain ⟨late, hlate, hparts⟩ := h.sound.adjustTaskQueue
    rw [← List.append_nil late] at hparts
    have hbooked := h.parts [] late [] hparts
    rw [← hlate] at hbooked
    simpa using hbooked
  | cleanPendingTasks =>
    cases hnext
    obtain ⟨lost, hlost, hparts⟩ := h.sound.cleanPendingTasks
    have hbooked := h.parts [] [] lost hparts
    rw [← hlost] at hbooked
    simpa using hbooked

/-- **The registry neither loses nor duplicates tasks.** After any operations, with numbers
that are never used twice: the registered tasks are, each once, in the channel, in
`sent_tasks`, in a batch, returned, or handed to `error_handle`. Each is stored under
its own number, `take_task` returns none with another, `check_pending_tasks_empty` says
whether the containers are empty, and `clean_pending_tasks` empties them. -/
theorem registry_conserves {taskTimeout thresholds : ℕ}
    (h : Lts.Reach next Fresh (new taskTimeout thresholds) l) :
    (l.registered.map Task.key).Nodup ∧
      (∃ late lost : List (Task B), l.timedOut = late.map (·.setRpcError .timeout) ∧
        l.failed = lost.map (·.setRpcError .io) ∧
        (l.registered : Multiset (Task B)) =
          l.timer.pendingTasks + l.timer.sentTasks.values +
            (l.timer.delayTasksQueue.flatMap BTreeMap.values : List (Task B)) +
            l.taken + (late + lost)) ∧
      (Keyed l.timer.sentTasks ∧ ∀ m ∈ l.timer.delayTasksQueue, Keyed m) ∧
      (∀ seq x, (l.timer.takeTask seq).2 = some (some x) ∨
        (l.timer.resumeTakeTask seq).2 = some (some x) → x.key = seq) ∧
      (l.timer.checkPendingTasksEmpty.2 = true ↔ l.timer.pendingTasks = [] ∧
        l.timer.sentTasks.values = [] ∧ l.timer.delayTasksQueue.flatMap BTreeMap.values = []) ∧
      (l.timer.cleanPendingTasks.1.pendingTasks = [] ∧
        l.timer.cleanPendingTasks.1.sentTasks.values = [] ∧
        l.timer.cleanPendingTasks.1.delayTasksQueue.flatMap BTreeMap.values = []) := by
  have hcons : l.Conserved := h.invariant (I := Conserved) (conserved_new _ _)
    fun _ _ _ h hok hnext => h.step hok hnext
  obtain ⟨late, lost, htimedOut, hfailed, hsum⟩ := hcons.account
  refine ⟨hcons.distinct, ⟨late, lost, htimedOut, hfailed, ?_⟩,
    ⟨hcons.sound.sentKeyed, hcons.sound.delayKeyed⟩, ?_, ?_, ?_⟩
  · rw [hsum, Multiset.coe_eq_coe.mpr l.timer.live_perm, ← Multiset.coe_add, ← Multiset.coe_add]
    abel
  · rintro seq x (hx | hx)
    · exact (hcons.sound.takeTask seq).2 x hx
    · exact (hcons.sound.resumeTakeTask seq).2 x hx
  · rw [hcons.sound.checkPendingTasksEmpty_iff, live_eq_nil]
  · exact live_eq_nil.mp (cleanPendingTasks_spec l.timer).1

/-- A request with this number. -/
def numbered (seq : UInt64) : Task APIClientReq := ⟨seq.toNat, seq, .new "calc.add" []⟩

/-- Numbers out of order: 3 comes after 5 and is answered, 5 times out, 9 fails. -/
def outOfOrder : List (TimerOp APIClientReq) :=
  [.regTask (numbered 5), .regTask (numbered 3), .pollSentTask, .takeTask 3, .adjustTaskQueue,
    .regTask (numbered 9), .adjustTaskQueue, .cleanPendingTasks]

theorem registry_conserves_outOfOrder :
    ∃ l : Ledger APIClientReq, Lts.Reach next Fresh (new 1 4) l ∧ l.taken.map Task.key = [3] ∧
      l.timedOut.map Task.key = [5] ∧ l.failed.map Task.key = [9] ∧
      (l.registered.map Task.key).Nodup := by
  have hrun : (Lts.exec next Fresh (new 1 4) outOfOrder).any
      (fun l => decide (l.taken.map Task.key = [3] ∧ l.timedOut.map Task.key = [5] ∧
        l.failed.map Task.key = [9])) = true := by decide +kernel
  obtain ⟨l, hreach, htest⟩ := Lts.Reach.exists_of_exec hrun
  obtain ⟨htaken, htimedOut, hfailed⟩ := of_decide_eq_true htest
  exact ⟨l, hreach, htaken, htimedOut, hfailed, (registry_conserves hreach).1⟩

/-! ## Ordered by age -/

/-- Numbers grow, from 1 on. -/
def Growing (l : Ledger B) : TimerOp B → Prop
  | .regTask x => 0 < x.key ∧ ∀ y ∈ l.registered, y.key < x.key
  | _ => True

omit [ClientTask B] in
instance (l : Ledger B) : DecidablePred l.Growing
  | .regTask x => inferInstanceAs (Decidable (0 < x.key ∧ ∀ y ∈ l.registered, y.key < x.key))
  | .stopRegTask | .pollSentTask | .checkPendingTasksEmpty | .takeTask _ | .resumeTakeTask _
  | .adjustTaskQueue | .cleanPendingTasks => .isTrue trivial

/-- What is known of a registry and its ledger under growing numbers. -/
structure Aged (l : Ledger B) : Prop where
  inv : ∃ hi, Inv hi l.timer ∧ (hi = 0 ∨ ∃ x ∈ l.registered, x.key = hi)
  pulled_le : ∀ y ∈ l.pulled, y.key ≤ l.timer.processedSeq
  pulled_mem : l.pulled = [] ∧ l.timer.processedSeq = 0 ∨
    ∃ y ∈ l.pulled, y.key = l.timer.processedSeq
  timedOut_le : ∀ y ∈ l.timedOut, y.key ≤ l.timer.processedSeq
  timedOut_lt : ∀ y ∈ l.timedOut, ∀ x ∈ l.timer.live, y.key < x.key

omit [ClientTask B] in
theorem aged_new (taskTimeout thresholds : ℕ) :
    (new taskTimeout thresholds : Ledger B).Aged :=
  ⟨⟨0, .new taskTimeout thresholds, Or.inl rfl⟩, List.forall_mem_nil _, Or.inl ⟨rfl, rfl⟩,
    List.forall_mem_nil _, List.forall_mem_nil _⟩

omit [ClientTask B] in
theorem Aged.regTask (h : l.Aged) {x : Task B} {t : ClientTaskTimer B} (hpos : 0 < x.key)
    (hx : ∀ y ∈ l.registered, y.key < x.key) (hreg : l.timer.regTask x = some t) :
    Aged { l with timer := t, registered := l.registered ++ [x] } := by
  obtain ⟨hi, inv, hhi⟩ := h.inv
  have hlt : hi < x.key := by
    rcases hhi with rfl | ⟨y, hy, rfl⟩
    · exact hpos
    · exact hx y hy
  have hlive := live_regTask hreg
  have inv' := inv.regTask hlt hreg
  obtain rfl := regTask_eq hreg
  refine ⟨⟨x.key, inv', Or.inr ⟨x, List.mem_concat_self, rfl⟩⟩, h.pulled_le, h.pulled_mem,
    h.timedOut_le, fun y hy z hz => ?_⟩
  rw [hlive, List.mem_append, List.mem_singleton] at hz
  rcases hz with hz | rfl
  · exact h.timedOut_lt y hy z hz
  · exact Nat.lt_of_le_of_lt (Nat.le_trans (h.timedOut_le y hy) inv.processed_le) hlt

omit [ClientTask B] in
/-- The receiver pulls what is in the channel, or nothing. -/
theorem Aged.pulled (h : l.Aged) {t : ClientTaskTimer B} (hturn : Turn l.timer t) :
    (∀ y ∈ (l.advance t).pulled, y.key ≤ t.processedSeq) ∧
      ((l.advance t).pulled = [] ∧ t.processedSeq = 0 ∨
        ∃ y ∈ (l.advance t).pulled, y.key = t.processedSeq) ∧
      l.timer.processedSeq ≤ t.processedSeq := by
  obtain ⟨hi, inv, -⟩ := h.inv
  cases hturn with
  | stay sentTasks delayTasksQueue minDelaySeq =>
    simp only [advance, Nat.sub_self, List.take_zero, List.append_nil]
    exact ⟨h.pulled_le, h.pulled_mem, Nat.le_refl _⟩
  | pull sentTasks delayTasksQueue minDelaySeq =>
    obtain ⟨inv', hlive⟩ := inv.pullPending
    have hreceived : ∀ x ∈ l.timer.pendingTasks, x.key ≤ l.timer.pullPending.processedSeq := by
      intro x hx
      refine inv'.pulled_le x ?_
      rw [← pulled_pullPending, hlive]
      exact List.mem_append_right _ hx
    simp only [advance, pendingTasks_pullPending, List.length_nil, Nat.sub_zero, List.take_length]
    rcases processedSeq_pullPending l.timer with ⟨hnil, hsame⟩ | ⟨x, hx, hseq⟩
    · rw [hnil, hsame, List.append_nil]
      exact ⟨h.pulled_le, h.pulled_mem, Nat.le_refl _⟩
    · have hgrow : l.timer.processedSeq ≤ l.timer.pullPending.processedSeq := by
        rw [hseq]
        exact Nat.le_of_lt (inv.lt_pending x hx)
      refine ⟨fun y hy => ?_, Or.inr ⟨x, List.mem_append_right _ hx, hseq.symm⟩, hgrow⟩
      rcases List.mem_append.mp hy with hy | hy
      · exact Nat.le_trans (h.pulled_le y hy) hgrow
      · exact hreceived y hy

/-- The receiver takes tasks out of the registry; those that time out are the oldest. -/
theorem Aged.turn (h : l.Aged) {t : ClientTaskTimer B} (late taken failed : List (Task B))
    (hturn : Turn l.timer t) (hinv : ∀ hi, Inv hi l.timer → Inv hi t)
    (hlive : t.live ⊆ l.timer.live) (hlate : ∀ y ∈ late, y.key ≤ l.timer.processedSeq)
    (holder : ∀ y ∈ late, ∀ x ∈ t.live, y.key < x.key) :
    Aged { l.advance t with
      timedOut := l.timedOut ++ late.map (·.setRpcError .timeout), taken, failed } := by
  obtain ⟨hi, inv, hhi⟩ := h.inv
  obtain ⟨hle, hmem, hgrow⟩ := h.pulled hturn
  refine ⟨⟨hi, hinv hi inv, hhi⟩, hle, hmem, fun y hy => ?_, fun y hy x hx => ?_⟩
  · refine Nat.le_trans ?_ hgrow
    rcases List.mem_append.mp hy with hy | hy
    · exact h.timedOut_le y hy
    · obtain ⟨z, hz, rfl⟩ := List.mem_map.mp hy
      exact hlate z hz
  · rcases List.mem_append.mp hy with hy | hy
    · exact h.timedOut_lt y hy x (hlive hx)
    · obtain ⟨z, hz, rfl⟩ := List.mem_map.mp hy
      exact holder z hz x hx

theorem Aged.step {op : TimerOp B} (h : l.Aged) (hok : l.Growing op)
    (hnext : l.next op = some l') : l'.Aged := by
  obtain ⟨hi, inv, -⟩ := h.inv
  -- nothing times out
  have hquiet : ∀ (t : ClientTaskTimer B) (taken failed : List (Task B)), Turn l.timer t →
      (∀ hi, Inv hi l.timer → Inv hi t) → t.live ⊆ l.timer.live →
      Aged { l.advance t with taken, failed } := by
    intro t taken failed hturn hinv hlive
    have hturned := h.turn [] taken failed hturn hinv hlive (List.forall_mem_nil _)
      (List.forall_mem_nil _)
    simpa using hturned
  cases op with
  | regTask x =>
    obtain ⟨t, hreg, rfl⟩ := Option.map_eq_some_iff.mp hnext
    exact h.regTask hok.1 hok.2 hreg
  | stopRegTask =>
    cases hnext
    obtain ⟨hi, inv, hhi⟩ := h.inv
    obtain ⟨hle, hmem, -⟩ := h.pulled (.refl _)
    exact ⟨⟨hi, inv.stopRegTask, hhi⟩, hle, hmem, h.timedOut_le, h.timedOut_lt⟩
  | pollSentTask =>
    cases hnext
    exact hquiet _ _ _ (turn_pullPending _) (fun _ inv => inv.pullPending.1)
      (List.Perm.of_eq inv.pullPending.2).subset
  | checkPendingTasksEmpty =>
    cases hnext
    exact hquiet _ _ _ (turn_pullPending _) (fun _ inv => inv.pullPending.1)
      (List.Perm.of_eq inv.pullPending.2).subset
  | takeTask seq =>
    cases hnext
    exact hquiet _ _ _ (turn_takeTask _ seq) (fun _ inv => (inv.takeTask seq).1)
      (inv.takeTask seq).2.subset
  | resumeTakeTask seq =>
    cases hnext
    exact hquiet _ _ _ (turn_resumeTakeTask _ seq) (fun _ inv => (inv.resumeTakeTask seq).1)
      (inv.resumeTakeTask seq).2.subset
  | cleanPendingTasks =>
    cases hnext
    obtain ⟨-, hnil, -⟩ := inv.cleanPendingTasks
    refine hquiet _ _ _ (turn_cleanPendingTasks _) (fun _ inv => inv.cleanPendingTasks.1) ?_
    rw [hnil]
    exact List.nil_subset _
  | adjustTaskQueue =>
    cases hnext
    obtain ⟨queue, late, minDelaySeq, hadjust, -, hpulled, hlive, -⟩ :=
      adjustTaskQueue_spec l.timer
    have hordered := inv.ordered
    rw [hlive, List.pairwise_append] at hordered
    have hhanded : l.timer.adjustTaskQueue.2 = late.map (·.setRpcError .timeout) :=
      congrArg Prod.snd hadjust
    rw [hhanded]
    refine h.turn late _ _ (turn_adjustTaskQueue _) (fun _ inv => inv.adjustTaskQueue.1)
      (fun x hx => ?_) (fun y hy => ?_) hordered.2.2
    · rw [hlive]
      exact List.mem_append_right _ hx
    · refine inv.pulled_le y ?_
      rw [hpulled]
      exact List.mem_append_left _ hy

/-- **The registry is ordered by age.** After any operations, with numbers that grow from 1
on: what is in the channel is newer than what is in `sent_tasks`, that is newer than the
first batch, and so on to the back of the queue, and all of it is newer than what has
timed out. `processed_seq` is the greatest number pulled, and no task in the registry has
a number that `take_task` rejects as timed out: it finds every one that it need not wait for. -/
theorem registry_age_ordered {taskTimeout thresholds : ℕ}
    (h : Lts.Reach next Growing (new taskTimeout thresholds) l) :
    l.timer.places.Pairwise (fun newer older => ∀ x ∈ newer, ∀ y ∈ older, y.key < x.key) ∧
      (∀ place ∈ l.timer.places, ∀ x ∈ place, ∀ y ∈ l.timedOut, y.key < x.key) ∧
      ((∀ y ∈ l.pulled, y.key ≤ l.timer.processedSeq) ∧
        (l.pulled = [] ∧ l.timer.processedSeq = 0 ∨
          ∃ y ∈ l.pulled, y.key = l.timer.processedSeq)) ∧
      (∀ place ∈ l.timer.places, ∀ x ∈ place, ¬ x.key < l.timer.minDelaySeq) ∧
      ∀ place ∈ l.timer.places, ∀ x ∈ place, l.timer.Ready x.key →
        (l.timer.takeTask x.key).2 = some (some x) := by
  have haged : l.Aged := h.invariant (I := Aged) (aged_new _ _)
    fun _ _ _ h hok hnext => h.step hok hnext
  obtain ⟨hi, inv, -⟩ := haged.inv
  refine ⟨?_, fun place hplace x hx y hy => ?_, ⟨haged.pulled_le, haged.pulled_mem⟩,
    fun place hplace x hx => ?_, fun place hplace x hx hready => ?_⟩
  · have hordered := inv.ordered
    rw [← flatten_reverse_places, List.pairwise_flatten, List.pairwise_reverse] at hordered
    exact hordered.2.imp fun h x hx y hy => h y hy x hx
  · exact haged.timedOut_lt y hy x (mem_live_of_place hplace hx)
  · exact Nat.not_lt_of_lt (inv.minDelay_lt x (mem_live_of_place hplace hx))
  · rw [(inv.takeTask_of_ready hready).1]
    exact congrArg some (inv.sound.lookup_eq_some.mpr ⟨mem_live_of_place hplace hx, rfl⟩)

/-- 1 times out; 2 waits in a batch, 3 in `sent_tasks` and 4 in the channel. -/
def fourAges : List (TimerOp APIClientReq) :=
  [.regTask (numbered 1), .pollSentTask, .adjustTaskQueue, .regTask (numbered 2), .pollSentTask,
    .adjustTaskQueue, .regTask (numbered 3), .pollSentTask, .regTask (numbered 4)]

theorem registry_age_ordered_fourAges :
    ∃ l : Ledger APIClientReq, Lts.Reach next Growing (new 1 4) l ∧
      l.timer.places.map (·.map Task.key) = [[4], [3], [2]] ∧
      l.timedOut.map Task.key = [1] ∧ l.timer.minDelaySeq = 1 ∧
      ∀ place ∈ l.timer.places, ∀ x ∈ place, ¬ x.key < l.timer.minDelaySeq := by
  have hrun : (Lts.exec next Growing (new 1 4) fourAges).any
      (fun l => decide (l.timer.places.map (·.map Task.key) = [[4], [3], [2]] ∧
        l.timedOut.map Task.key = [1] ∧ l.timer.minDelaySeq = 1)) = true := by decide +kernel
  obtain ⟨l, hreach, htest⟩ := Lts.Reach.exists_of_exec hrun
  obtain ⟨hplaces, htimedOut, hmin⟩ := of_decide_eq_true htest
  exact ⟨l, hreach, hplaces, htimedOut, hmin, (registry_age_ordered hreach).2.2.2.1⟩

end Ledger

end RazorRpc
