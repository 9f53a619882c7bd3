import RazorRpc.PoolTasks
import RazorRpc.PoolWorkers
import RazorRpc.Lib.Live
import Mathlib.Data.List.Perm.Subperm

/-!
# No task waits for ever

The monitor of a pool takes tasks only while it is alone, the other workers only while they
have a connection, and any of them may fail and end. That the channel is emptied all the same
rests on who is left: a worker that ends without having taken anything brings the monitor
nearer to being alone, and one that begins to connect takes something before it ends.

* `Worker.patience` — how many steps it takes a worker to take a task, or to end;
* `Worker.Sure` — a worker that does not end before it has taken a task;
* `ConnPool.Manned` — the monitor is there as long as there is a task;
* `Worker.removes` — the positions in which the next step takes a task from the channel.

Workers are taken to go on: every `await` returns, one way or another. Then each task that
was submitted is passed to a connection or failed: `tasks_settled`.
-/

namespace RazorRpc

variable {B : Type}

namespace Worker

/-! ## One worker -/

/-- The next step takes a task from the channel, if there is one. -/
def removes (w : Worker B) : Bool :=
  match w.pos with
  | .receiving | .serving | .draining | .cleaning _ => true
  | _ => false

/-- How many steps it takes at most until one takes a task from the channel, or the worker
has ended. The monitor among other workers is left out: it goes round. -/
def patience (w : Worker B) : ℕ :=
  match w.pos with
  | .ended => 0
  | .receiving | .serving | .draining | .cleaning _ | .exiting => 1
  | .counting | .entering | .failing (.clean _) | .failing .exit => 2
  | .connecting | .sending _ | .leaving _ => 3
  | .takingOver _ | .forwarding _ | .flushing _ | .sleeping | .failing .reconnect => 4
  | .received _ | .pinging _ => 5
  | .napping => 6

/-- Another worker than the monitor, on its way to the channel. -/
def Sure (w : Worker B) : Prop :=
  w.workerId ≠ 0 ∧
    match w.pos with
    | .connecting | .entering | .serving | .draining | .cleaning _ | .sleeping
    | .failing (.clean _) | .failing .reconnect => True
    | _ => False

/-- The monitor with a task, before it may take over. -/
def mayTakeOver (w : Worker B) : Bool :=
  match w.pos with
  | .received _ | .takingOver _ => true
  | _ => false

theorem patience_le (w : Worker B) : w.patience ≤ 6 := by
  obtain ⟨id, pos⟩ := w
  cases pos with
  | failing after => cases after <;> simp [patience]
  | _ => simp [patience]

theorem Sure.isLive {w : Worker B} (h : w.Sure) : w.isLive = true := by
  obtain ⟨id, pos⟩ := w
  cases pos with
  | ended => exact h.2.elim
  | _ => rfl

variable {answer : Bool} {inner : ConnPoolInner B} {w : Worker B} {r : Stepped B}

/-- A step that takes no task from the channel brings a worker nearer to one that does, or to
its end. -/
theorem patience_lt (hturn : w.Turn answer inner r) (hkeeps : w.removes = false)
    (hpos : w.pos ≠ .counting) : r.worker.patience < w.patience := by
  cases hturn with
  | takesOver hpos _ =>
    rw [patience, patience, hpos]
    exact Nat.lt_succ_self 3
  | exits hpos =>
    rw [patience, patience, hpos]
    exact Nat.one_pos
  | moves hmove _ _ =>
    cases hmove with
    | beside _ | alone _ => exact absurd rfl hpos
    | receive _ _ | disconnected _ _ | timeout _ | clean _ _ | cleaned _ _ | serve _ _ | last _ _
    | more _ _ | drained _ => cases hkeeps
    | noPong _ alone _ => cases alone <;> simp [patience]
    | fail _ after => cases after <;> simp [patience, afterErr]
    | flushed _ final _ => cases final <;> simp [patience]
    | leave _ ok => cases ok <;> simp [patience]
    | _ => simp [patience]

theorem Sure.turn (h : w.Sure) (hturn : w.Turn answer inner r) (hkeeps : w.removes = false) :
    r.worker.Sure := by
  cases hturn with
  | takesOver hpos _ | exits hpos =>
    rw [Sure, hpos] at h
    exact h.2.elim
  | moves hmove _ _ =>
    refine ⟨h.1, ?_⟩
    cases hmove with
    | connectMonitor _ => exact absurd rfl h.1
    | fail _ after =>
      cases after with
      | exit => exact h.2.elim
      | reconnect | clean _ => trivial
    | cleaned _ nap => cases nap <;> trivial
    | serve _ _ | last _ _ | more _ _ | drained _ => cases hkeeps
    | connectServer _ _ _ | refused _ _ | clean _ _ | slept _ | enter _ => trivial
    | _ => exact h.2.elim

/-- A step that takes no task from the channel gives no monitor a task. -/
theorem mayTakeOver_of_turn (hturn : w.Turn answer inner r) (hkeeps : w.removes = false) :
    r.worker.mayTakeOver.toNat ≤ w.mayTakeOver.toNat := by
  cases hturn with
  | takesOver _ _ | exits _ => exact Nat.zero_le _
  | moves hmove _ _ =>
    cases hmove with
    | receive _ _ => cases hkeeps
    | noPong _ b _ | cleaned _ b | flushed _ b _ | leave _ b => cases b <;> exact Nat.zero_le _
    | fail _ after => cases after <;> exact Nat.zero_le _
    | busy _ _ => exact le_rfl
    | _ => exact Nat.zero_le _

/-- Whoever is there can go on while there is a task. -/
theorem exists_step [ClientTask B] (i : ℕ) (hlive : w.isLive = true) (hrx : inner.rx ≠ []) :
    ∃ r, w.step i true inner = some r := by
  obtain ⟨task, rx, hrx⟩ := List.exists_cons_of_ne_nil hrx
  obtain ⟨id, pos⟩ := w
  cases pos with
  | ended => cases hlive
  | receiving | serving | draining =>
    simp only [step, hrx]
    exact ⟨_, rfl⟩
  | cleaning nap =>
    simp only [step, ConnPoolInner.cleanupOne, hrx]
    exact ⟨_, rfl⟩
  | received task =>
    simp only [step]
    split <;> exact ⟨_, rfl⟩
  | takingOver task =>
    simp only [step]
    split <;> exact ⟨_, rfl⟩
  | _ => exact ⟨_, rfl⟩

/-- About to end, or ended. -/
def isGone (w : Worker B) : Bool :=
  match w.pos with
  | .exiting | .ended => true
  | _ => false

/-- The monitor leaves only at the end of the channel. -/
theorem gone_of_step [ClientTask B] {i : ℕ} (h : w.step i answer inner = some r)
    (hrole : w.Role inner.connected) (hid : r.worker.workerId = 0)
    (hgone : r.worker.isGone = true) :
    w.isGone = true ∨ inner.connected = false ∧ inner.rx = [] := by
  obtain ⟨id, pos⟩ := w
  cases turn_of_step h with
  | takesOver _ _ => cases hgone
  | exits hpos =>
    refine Or.inl ?_
    rw [isGone, hpos]
  | moves hmove _ _ =>
    cases hmove with
    | disconnected _ hconn =>
      refine Or.inr ⟨hconn, ?_⟩
      rcases hrx : inner.rx with _ | ⟨task, rx⟩
      · rfl
      · -- it would have taken the task
        simp only [step, hrx] at h
        cases h
    | noPong _ alone _ => cases alone <;> cases hgone
    | fail _ after =>
      cases after with
      | exit => exact absurd hid hrole
      | reconnect | clean _ => cases hgone
    | cleaned _ nap => cases nap <;> cases hgone
    | flushed _ final _ => cases final <;> cases hgone
    | leave _ ok => exact absurd hid hrole
    | _ => cases hgone

end Worker

/-! ## The monitor stays -/

namespace ConnPool

/-- The monitor is there while there is a handle or a task. -/
structure Manned (p : ConnPool B) : Prop where
  gone : ∀ w ∈ p.workers, w.workerId = 0 → w.isGone = true →
    p.inner.connected = false ∧ p.inner.rx = []
  monitor : p.inner.connected = false → p.inner.rx ≠ [] → p.liveMonitors = 1

theorem manned_new (thresholds channelSize : ℕ) :
    (new thresholds channelSize : ConnPool B).Manned where
  gone w hw _ hgone := by
    rw [List.mem_singleton.mp hw] at hgone
    cases hgone
  monitor hconn := by cases hconn

/-- One monitor, if there is a task. -/
theorem Manned.liveMonitors_eq {p : ConnPool B} (h : p.Manned) (hbook : p.Bookkept)
    (hrx : p.inner.rx ≠ []) : p.liveMonitors = 1 := by
  cases hconn : p.inner.connected with
  | true => exact hbook.monitor hconn
  | false => exact h.monitor hconn hrx

variable {p : ConnPool B} {i : ℕ} {answer : Bool} {w : Worker B} {r : Stepped B}

/-- A worker changes the number of monitors only as a monitor that ends. -/
theorem liveMonitors_of_turn (hw : p.workers[i]? = some w) (hturn : w.Turn answer p.inner r)
    (hrole : w.Role p.inner.connected) (hstays : w.pos = .exiting → w.workerId ≠ 0) :
    (p.workers.set i r.worker ++ r.spawned.toList).countP Worker.isMonitor = p.liveMonitors := by
  have hcount := countP_step hw Worker.isMonitor r.worker r.spawned
  refine Nat.add_right_cancel (m := (w.isMonitor).toNat) (hcount.trans ?_)
  cases hturn with
  | moves hmove _ _ =>
    obtain ⟨hlive, hlive'⟩ := hmove.isLive
    simp only [Worker.isMonitor, hlive, hlive']
    rfl
  | takesOver hpos _ =>
    have hmonitor : w.isMonitor = true := by
      rw [Worker.Role, hpos] at hrole
      rw [Worker.isMonitor, hrole, Worker.isLive, Worker.hasEnded, hpos]
      rfl
    rw [hmonitor]
    rfl
  | exits hpos =>
    have hmonitor : w.isMonitor = false := by
      rw [Worker.isMonitor, beq_false_of_ne (hstays hpos), Bool.and_false]
    rw [hmonitor]
    rfl

/-- What a step of a worker leaves of the channel. -/
theorem rx_of_step [ClientTask B] (h : w.step i answer p.inner = some r) :
    r.inner.rx <:+ p.inner.rx := by
  obtain ⟨hhandles, -⟩ := Worker.handles_of_step h
  generalize w.taskMove p.inner = move at hhandles
  cases hhandles with
  | nothing hrx _ _ | pass hrx _ _ _ => exact ⟨[], hrx⟩
  | @take task hrx _ _ _ | @fail task hrx _ _ _ => exact ⟨[task], hrx.symm⟩

theorem Manned.worker [ClientTask B] (h : p.Manned) (hbook : p.Bookkept)
    (hw : p.workers[i]? = some w) (hstep : w.step i answer p.inner = some r) :
    Manned { p with inner := r.inner, workers := p.workers.set i r.worker ++ r.spawned.toList } := by
  have hturn := Worker.turn_of_step hstep
  have hmem := List.mem_of_getElem? hw
  have hrole := hbook.roles w hmem
  have hsuffix := rx_of_step hstep
  have hconn : r.inner.connected = p.inner.connected := by
    cases hturn with
    | moves _ _ hconn => exact hconn
    | takesOver _ _ | exits _ => rfl
  have hend : p.inner.connected = false ∧ p.inner.rx = [] →
      r.inner.connected = false ∧ r.inner.rx = [] := by
    rintro ⟨hclosed, hempty⟩
    rw [hempty] at hsuffix
    exact ⟨hconn.trans hclosed, List.suffix_nil.mp hsuffix⟩
  refine ⟨fun v hv hid hgone => hend ?_, fun hclosed hrx => ?_⟩
  · rcases mem_step r.spawned hv with hv | rfl | hv
    · exact h.gone v hv hid hgone
    · rcases Worker.gone_of_step hstep hrole hid hgone with hbefore | hnow
      · refine h.gone w hmem ?_ hbefore
        cases hturn with
        | moves _ _ _ | exits _ => exact hid
        | takesOver hpos _ =>
          rw [Worker.isGone, hpos] at hbefore
          cases hbefore
      · exact hnow
    · cases hturn with
      | moves _ _ _ | exits _ => cases hv
      | takesOver _ _ =>
        cases hv
        cases hgone
  · have hbefore : p.inner.rx ≠ [] := by
      intro hempty
      rw [hempty] at hsuffix
      exact hrx (List.suffix_nil.mp hsuffix)
    have hstays : w.pos = .exiting → w.workerId ≠ 0 := by
      intro hpos hid
      refine hbefore (h.gone w hmem hid ?_).2
      rw [Worker.isGone, hpos]
    exact (liveMonitors_of_turn hw hturn hrole hstays).trans
      (h.monitor (hconn ▸ hclosed) hbefore)

theorem Manned.next [ClientTask B] (h : p.Manned) (hbook : p.Bookkept) {e : PoolEvent B}
    {p' : ConnPool B} (hnext : p.next e = some p') : p'.Manned := by
  cases e with
  | worker i answer =>
    obtain ⟨w, hw, hnext⟩ := Option.bind_eq_some_iff.mp hnext
    obtain ⟨r, hstep, hnext⟩ := Option.bind_eq_some_iff.mp hnext
    cases hnext
    exact h.worker hbook hw hstep
  | dropHandles =>
    cases hnext
    exact ⟨fun w hw hid hgone => ⟨rfl, (h.gone w hw hid hgone).2⟩,
      fun _ hrx => h.liveMonitors_eq hbook hrx⟩
  | spawn =>
    simp only [ConnPool.next] at hnext
    split at hnext
    · rename_i hconn
      cases hnext
      refine ⟨fun w hw hid hgone => ?_, fun hclosed => ?_⟩
      · rcases List.mem_append.mp hw with hw | hw
        · exact h.gone w hw hid hgone
        · rw [List.mem_singleton.mp hw] at hgone
          cases hgone
      · cases hconn.symm.trans hclosed
    · cases hnext
  | sendReq task =>
    simp only [ConnPool.next] at hnext
    split at hnext
    · rename_i hopen
      rw [Bool.and_eq_true] at hopen
      cases hnext
      refine ⟨fun w hw hid hgone => ?_, fun hclosed => ?_⟩
      · cases hopen.1.symm.trans (h.gone w hw hid hgone).1
      · cases hopen.1.symm.trans hclosed
    · cases hnext
  | dropInner =>
    simp only [ConnPool.next] at hnext
    split at hnext
    · cases hnext
      exact ⟨fun w hw hid hgone => ⟨(h.gone w hw hid hgone).1, rfl⟩,
        fun _ hrx => absurd rfl hrx⟩
    · cases hnext

end ConnPool

/-! ## The pool with its book -/

namespace TaskBook

/-- Records are only added. -/
structure Grows (book book' : TaskBook B) : Prop where
  submitted : book.submitted <+: book'.submitted
  taken : book.taken <+: book'.taken
  passed : book.passed <+: book'.passed

theorem Grows.refl (book : TaskBook B) : book.Grows book :=
  ⟨List.prefix_rfl, List.prefix_rfl, List.prefix_rfl⟩

theorem Grows.trans {book book' book'' : TaskBook B} (h : book.Grows book')
    (h' : book'.Grows book'') : book.Grows book'' :=
  ⟨h.submitted.trans h'.submitted, h.taken.trans h'.taken, h.passed.trans h'.passed⟩

theorem grows_note (book : TaskBook B) (i : ℕ) (move : TaskMove B) :
    book.Grows (book.note i move) := by
  cases move with
  | take task | fail task => exact ⟨List.prefix_rfl, ⟨_, rfl⟩, List.prefix_rfl⟩
  | pass task => exact ⟨List.prefix_rfl, List.prefix_rfl, ⟨_, rfl⟩⟩

theorem grows_update (book : TaskBook B) (p : ConnPool B) (e : PoolEvent B) :
    book.Grows (book.update p e) := by
  cases e with
  | worker i answer =>
    simp only [update]
    split
    · exact book.grows_note i _
    · exact .refl book
  | sendReq task => exact ⟨⟨_, rfl⟩, List.prefix_rfl, List.prefix_rfl⟩
  | dropInner => exact ⟨List.prefix_rfl, ⟨_, rfl⟩, List.prefix_rfl⟩
  | spawn | dropHandles => exact .refl book

end TaskBook

namespace ConnPool

variable [ClientTask B]

/-- What holds of a pool and its book at every moment. -/
structure Kept (s : ConnPool B × TaskBook B) : Prop where
  book : s.1.Bookkept
  manned : s.1.Manned
  accounted : s.1.Accounted s.2

/-- Spawns do not wrap the counter. -/
abbrev Sized (s : ConnPool B × TaskBook B) (e : PoolEvent B) : Prop := s.1.Spawnable e

variable {s s' : ConnPool B × TaskBook B} {e : PoolEvent B}

theorem Kept.next (h : Kept s) (hok : Sized s e)
    (hnext : Lts.watch next TaskBook.update s e = some s') : Kept s' := by
  obtain ⟨p, book⟩ := s
  obtain ⟨p', book'⟩ := s'
  obtain ⟨hnext, hbook⟩ := Lts.watch_eq_some.mp hnext
  refine ⟨h.book.next hok hnext, h.manned.next h.book hnext, ?_⟩
  rw [← hbook]
  exact h.accounted.step hnext

theorem kept_of_reach {thresholds channelSize : ℕ}
    (h : Lts.Reach (Lts.watch next TaskBook.update) Sized (new thresholds channelSize, .empty) s) :
    Kept s :=
  h.invariant (I := Kept) ⟨bookkept_new _ _, manned_new _ _, Accounted.new _ _⟩
    fun _ _ _ hkept hok hnext => hkept.next hok hnext

/-- The channel is not empty, and its first task is the next after `k` others. -/
structure Waiting (k : ℕ) (s : ConnPool B × TaskBook B) : Prop where
  kept : Kept s
  taken : s.2.taken.length = k
  nonempty : s.1.inner.rx ≠ []

/-- The first task leaves the channel, or still waits. -/
theorem Waiting.next {k : ℕ} (h : Waiting k s) (hok : Sized s e)
    (hnext : Lts.watch next TaskBook.update s e = some s') :
    k < s'.2.taken.length ∨ Waiting k s' := by
  have hkept := h.kept.next hok hnext
  obtain ⟨-, hbook⟩ := Lts.watch_eq_some.mp hnext
  have hgrows := s.2.grows_update s.1 e
  rw [hbook] at hgrows
  obtain ⟨l, htaken⟩ := hgrows.taken
  obtain ⟨l', hsubmitted⟩ := hgrows.submitted
  rcases l with _ | ⟨move, l⟩
  · rw [List.append_nil] at htaken
    refine Or.inr ⟨hkept, htaken ▸ h.taken, ?_⟩
    have hchannel := hkept.accounted.channel
    rw [← hsubmitted, ← htaken, h.kept.accounted.channel, List.append_assoc] at hchannel
    rw [← List.append_cancel_left hchannel]
    exact List.append_ne_nil_of_left_ne_nil h.nonempty _
  · refine Or.inl ?_
    rw [← htaken, List.length_append, h.taken, List.length_cons]
    omega

/-- Worker `i` keeps its hands off the channel while the first task waits. -/
theorem Waiting.keeps {k : ℕ} (h : Waiting k s) {i : ℕ} {answer : Bool} {w : Worker B}
    (hw : s.1.workers[i]? = some w)
    (hnext : Lts.watch ConnPool.next TaskBook.update s (.worker i answer) = some s')
    (h' : Waiting k s') : w.removes = false := by
  obtain ⟨-, hbook⟩ := Lts.watch_eq_some.mp hnext
  obtain ⟨task, rx, hrx⟩ := List.exists_cons_of_ne_nil h.nonempty
  have hlength : s'.2.taken.length = s.2.taken.length := h'.taken.trans h.taken.symm
  rw [← hbook, TaskBook.update, hw, Option.bind_some, Worker.taskMove] at hlength
  rw [Worker.removes]
  cases hpos : w.pos with
  | receiving | serving | draining | cleaning _ =>
    simp only [hpos, hrx, List.head?_cons, Option.map_some, TaskBook.note, List.length_append,
      List.length_singleton] at hlength
    omega
  | _ => rfl

end ConnPool

/-! ## The first task leaves the channel -/

/-- The worker whose step it is. -/
def PoolEvent.owner : PoolEvent B → Option ℕ
  | .worker i _ => some i
  | .spawn | .sendReq _ | .dropHandles | .dropInner => none

namespace ConnPool

/-- The patience of worker `i`. -/
def patience (p : ConnPool B) (i : ℕ) : ℕ := (p.workers[i]?.map Worker.patience).getD 0

theorem patience_eq {p : ConnPool B} {i : ℕ} {w : Worker B} (hw : p.workers[i]? = some w) :
    p.patience i = w.patience := by
  rw [patience, hw, Option.map_some, Option.getD_some]

variable [ClientTask B]

/-- Worker `i` after a step, which is its own or that of another. -/
theorem own_or_other {p p' : ConnPool B} {e : PoolEvent B} {i : ℕ} {w : Worker B}
    (hw : p.workers[i]? = some w) (hnext : p.next e = some p') :
    (e.owner ≠ some i ∧ p'.workers[i]? = some w) ∨
      ∃ answer r, e = .worker i answer ∧ w.step i answer p.inner = some r ∧
        p' = { p with
          inner := r.inner
          workers := p.workers.set i r.worker ++ r.spawned.toList } ∧
        p'.workers[i]? = some r.worker := by
  by_cases hown : e.owner = some i
  · refine Or.inr ?_
    cases e with
    | worker j answer =>
      cases hown
      obtain ⟨v, hv, hnext⟩ := Option.bind_eq_some_iff.mp hnext
      cases hw.symm.trans hv
      obtain ⟨r, hstep, hnext⟩ := Option.bind_eq_some_iff.mp hnext
      cases hnext
      have hlt := (List.getElem?_eq_some_iff.mp hw).1
      have hlt' : i < (p.workers.set i r.worker).length := by rwa [List.length_set]
      refine ⟨answer, r, rfl, hstep, rfl, ?_⟩
      rw [List.getElem?_append_left hlt', List.getElem?_set_self hlt]
    | _ => cases hown
  · rcases (turn_of_next hnext).getElem? hw with hw' | ⟨answer, r, rfl, -, -⟩
    · exact Or.inl ⟨hown, hw'⟩
    · exact absurd rfl hown

theorem enabled_of_step {s : ConnPool B × TaskBook B} {i : ℕ} {w : Worker B} {r : Stepped B}
    (hw : s.1.workers[i]? = some w) (hstep : w.step i true s.1.inner = some r) :
    Lts.Enabled (Lts.watch ConnPool.next TaskBook.update) Sized PoolEvent.owner i s := by
  have hnext : s.1.next (.worker i true) = some { s.1 with
      inner := r.inner
      workers := s.1.workers.set i r.worker ++ r.spawned.toList } := by
    simp only [ConnPool.next, hw, Option.bind_eq_bind, Option.bind_some, hstep]
  exact ⟨.worker i true, _, rfl, trivial, congrArg (Option.map _) hnext⟩

/-- Workers can go on while there is a task. -/
theorem Waiting.enabled {k : ℕ} {s : ConnPool B × TaskBook B} (h : Waiting k s) {i : ℕ}
    {w : Worker B} (hw : s.1.workers[i]? = some w) (hlive : w.isLive = true) :
    Lts.Enabled (Lts.watch ConnPool.next TaskBook.update) Sized PoolEvent.owner i s := by
  obtain ⟨r, hstep⟩ := Worker.exists_step i hlive h.nonempty
  exact enabled_of_step hw hstep

variable {thresholds channelSize : ℕ}

/-- The runs of a pool. -/
abbrev PoolRun (B : Type) [ClientTask B] (thresholds channelSize : ℕ) : Type :=
  Lts.Run (Lts.watch ConnPool.next (TaskBook.update (B := B))) Sized
    (new thresholds channelSize, .empty)

variable {run : PoolRun B thresholds channelSize}

/-- A worker that is sure to take a task does. -/
theorem leaves_of_sure (hfair : ∀ i, run.Fair PoolEvent.owner i) {n k i : ℕ} {w : Worker B}
    (hwaiting : Waiting k (run.state n)) (hw : (run.state n).1.workers[i]? = some w)
    (hsure : w.Sure) : ∃ m, n ≤ m ∧ k < (run.state m).2.taken.length := by
  have hhelps : Waiting k (run.state n) ∧ ∃ w, (run.state n).1.workers[i]? = some w ∧ w.Sure :=
    ⟨hwaiting, w, hw, hsure⟩
  revert hhelps
  refine Lts.Run.leadsTo (fun i s => Waiting k s ∧ ∃ w, s.1.workers[i]? = some w ∧ w.Sure)
    (fun i s => s.1.patience i) (fun s => k < s.2.taken.length) hfair ?_ ?_
  · rintro i s ⟨hwaiting, w, hw, hsure⟩
    exact hwaiting.enabled hw hsure.isLive
  · rintro i s e s' ⟨hwaiting, w, hw, hsure⟩ hok hnext
    rcases hwaiting.next hok hnext with htaken | hwaiting'
    · exact Or.inl htaken
    · refine Or.inr ⟨i, ?_⟩
      obtain ⟨hstep, -⟩ := Lts.watch_eq_some.mp hnext
      rcases own_or_other hw hstep with ⟨hother, hw'⟩ | ⟨answer, r, rfl, hstep, -, hw'⟩
      · refine ⟨⟨hwaiting', w, hw', hsure⟩, Or.inr ⟨rfl, ?_, hother⟩⟩
        rw [patience_eq hw, patience_eq hw']
      · have hkeeps := hwaiting.keeps hw hnext hwaiting'
        have hturn := Worker.turn_of_step hstep
        refine ⟨⟨hwaiting', r.worker, hw', hsure.turn hturn hkeeps⟩, Or.inl ?_⟩
        rw [patience_eq hw, patience_eq hw']
        refine Worker.patience_lt hturn hkeeps fun hpos => ?_
        rw [Worker.Sure, hpos] at hsure
        exact hsure.2

/-- The monitors with a task. -/
def holders (p : ConnPool B) : ℕ := p.workers.countP Worker.mayTakeOver

/-- It is up to worker `i`: it is alive, and the monitor only if it is alone. -/
def UpTo (i : ℕ) (p : ConnPool B) : Prop :=
  ∃ w, p.workers[i]? = some w ∧ w.isLive = true ∧ (w.workerId ≠ 0 ∨ p.liveWorkers = 1)

/-- How much there is to do before a task leaves the channel, if it is up to worker `i`. A
take-over costs the monitor its task and gives the pool a worker; the end of a worker leaves
it to the patience of another. -/
def toDo (i : ℕ) (p : ConnPool B) : ℕ := 20 * p.holders + 10 * p.liveWorkers + p.patience i

omit [ClientTask B] in
theorem patience_le (p : ConnPool B) (i : ℕ) : p.patience i ≤ 6 := by
  rw [patience]
  cases p.workers[i]? with
  | none => exact Nat.zero_le _
  | some w => exact w.patience_le

omit [ClientTask B] in
/-- Someone is there. -/
theorem exists_upTo {p : ConnPool B} (hmonitor : p.liveMonitors = 1) : ∃ i, p.UpTo i := by
  by_cases hserver : ∃ w ∈ p.workers, w.isLive = true ∧ w.workerId ≠ 0
  · obtain ⟨w, hmem, hlive, hid⟩ := hserver
    obtain ⟨i, hw⟩ := List.mem_iff_getElem?.mp hmem
    exact ⟨i, w, hw, hlive, Or.inl hid⟩
  · have hsame : p.liveWorkers = p.liveMonitors := by
      refine List.countP_congr fun w hmem => ?_
      rw [Worker.isMonitor, Bool.and_eq_true, beq_iff_eq]
      refine ⟨fun hlive => ⟨hlive, ?_⟩, fun h => h.1⟩
      exact by_contra fun hid => hserver ⟨w, hmem, hlive, hid⟩
    have hpos : 0 < p.liveWorkers := by omega
    obtain ⟨w, hmem, hlive⟩ := List.countP_pos_iff.mp hpos
    obtain ⟨i, hw⟩ := List.mem_iff_getElem?.mp hmem
    exact ⟨i, w, hw, hlive, Or.inr (hsame.trans hmonitor)⟩

variable {k : ℕ} {s s' : ConnPool B × TaskBook B} {i : ℕ}

omit [ClientTask B] in
/-- Alone. -/
theorem Bookkept.workerCount_eq_one {p : ConnPool B} (h : p.Bookkept) :
    p.inner.workerCount = 1 ↔ p.liveWorkers = 1 := by
  rw [← h.count, ← UInt64.toNat_inj]
  rfl

/-- A step of the worker that it is up to, which neither ends nor takes over. -/
theorem patience_moves {p : ConnPool B} (hbook : p.Bookkept) {w : Worker B} {answer : Bool}
    {r : Stepped B} (hmem : w ∈ p.workers) (hstep : w.step i answer p.inner = some r)
    (hkeeps : w.removes = false) (hid : w.workerId ≠ 0 ∨ p.liveWorkers = 1) :
    r.worker.patience < w.patience := by
  by_cases hpos : w.pos = .counting
  · -- the monitor is alone
    have hrole := hbook.roles w hmem
    rw [Worker.Role, hpos] at hrole
    have hone := hbook.workerCount_eq_one.mpr (hid.resolve_left fun h => h hrole)
    have hnot : ¬ 1 < p.inner.workerCount := by
      rw [hone]
      exact UInt64.lt_irrefl 1
    simp only [Worker.step, hpos, if_neg hnot] at hstep
    cases hstep
    rw [Worker.patience, Worker.patience, hpos]
    exact Nat.one_lt_two
  · exact Worker.patience_lt (Worker.turn_of_step hstep) hkeeps hpos

/-- A step of a worker leaves less to do, or it is that of another and leaves as much. -/
theorem toDo_worker {p p' : ConnPool B} (hbook : p.Bookkept) (hmonitor' : p'.liveMonitors = 1)
    {i j : ℕ} (hupTo : p.UpTo i) {w : Worker B} (hw : p.workers[j]? = some w) {answer : Bool}
    {r : Stepped B} (hstep : w.step j answer p.inner = some r) (hkeeps : w.removes = false)
    (hworkers : p'.workers = p.workers.set j r.worker ++ r.spawned.toList) :
    ∃ i', p'.UpTo i' ∧ (p'.toDo i' < p.toDo i ∨ i' = i ∧ p'.toDo i = p.toDo i ∧ j ≠ i) := by
  have hturn := Worker.turn_of_step hstep
  have hless := Worker.mayTakeOver_of_turn hturn hkeeps
  have hholders : p'.holders + _ = p.holders + _ + _ :=
    hworkers ▸ countP_step hw Worker.mayTakeOver r.worker r.spawned
  have hlive : p'.liveWorkers + _ = p.liveWorkers + _ + _ :=
    hworkers ▸ countP_step hw Worker.isLive r.worker r.spawned
  have hlt := (List.getElem?_eq_some_iff.mp hw).1
  have hlt' : j < (p.workers.set j r.worker).length := by rwa [List.length_set]
  have hmine : p'.workers[j]? = some r.worker := by
    rw [hworkers, List.getElem?_append_left hlt', List.getElem?_set_self hlt]
  obtain ⟨v, hv, hvlive, hvid⟩ := hupTo
  simp only [toDo]
  cases hturn with
  | @takesOver task hpos hone =>
    have hlone := hbook.workerCount_eq_one.mp hone
    have hpatience := p'.patience_le j
    have hhad : w.mayTakeOver = true := by rw [Worker.mayTakeOver, hpos]
    have hwas : w.isLive = true := by
      rw [Worker.isLive, Worker.hasEnded, hpos]
      rfl
    rw [hhad] at hholders
    rw [hwas] at hlive
    change _ + 1 = _ + 0 + 0 at hholders
    change _ + 1 = _ + 1 + 1 at hlive
    refine ⟨j, ⟨_, hmine, rfl, Or.inl (by decide : (1 : UInt64) ≠ 0)⟩, Or.inl ?_⟩
    omega
  | exits hpos =>
    have hwas : w.isLive = true := by
      rw [Worker.isLive, Worker.hasEnded, hpos]
      rfl
    rw [hwas] at hlive
    change _ + 1 = _ + 0 + 0 at hlive
    change _ + _ = _ + 0 + 0 at hholders
    obtain ⟨i', hupTo'⟩ := exists_upTo hmonitor'
    have hpatience := p'.patience_le i'
    refine ⟨i', hupTo', Or.inl ?_⟩
    omega
  | @moves inner' pos hmove hcount hconn =>
    obtain ⟨hwlive, hwlive'⟩ := hmove.isLive
    rw [hwlive] at hlive
    change _ + 1 = _ + (Worker.isLive { w with pos }).toNat + 0 at hlive
    change _ + _ = _ + (Worker.mayTakeOver { w with pos }).toNat + 0 at hholders
    change (Worker.mayTakeOver { w with pos }).toNat ≤ _ at hless
    rw [hwlive', Bool.toNat_true, Nat.add_zero, Nat.add_right_cancel_iff] at hlive
    by_cases hji : j = i
    · subst hji
      cases hw.symm.trans hv
      have hpatience := patience_moves hbook (List.mem_of_getElem? hw) hstep hkeeps hvid
      rw [← patience_eq hw, ← patience_eq hmine] at hpatience
      refine ⟨j, ⟨_, hmine, hwlive', hlive ▸ hvid⟩, Or.inl ?_⟩
      omega
    · have hv' : p'.workers[i]? = some v := by
        rw [hworkers]
        change (p.workers.set j _ ++ [])[i]? = some v
        rw [List.append_nil, List.getElem?_set_ne hji]
        exact hv
      refine ⟨i, ⟨v, hv', hvlive, hlive ▸ hvid⟩, ?_⟩
      rw [patience_eq hv, patience_eq hv']
      omega

variable {k : ℕ} {s s' : ConnPool B × TaskBook B} {e : PoolEvent B} {i : ℕ}

/-- The first task leaves the channel, or someone is sure to take it, or there is less to do. -/
theorem Waiting.toDo_next (hwaiting : Waiting k s) (hupTo : s.1.UpTo i) (hok : Sized s e)
    (hnext : Lts.watch ConnPool.next TaskBook.update s e = some s') (hwaiting' : Waiting k s') :
    (∃ (j : ℕ) (w : Worker B), s'.1.workers[j]? = some w ∧ w.Sure) ∨
      ∃ i', s'.1.UpTo i' ∧
        (s'.1.toDo i' < s.1.toDo i ∨ i' = i ∧ s'.1.toDo i = s.1.toDo i ∧ e.owner ≠ some i) := by
  have hsame : s'.1.workers = s.1.workers → e.owner = none → ∃ i', s'.1.UpTo i' ∧
      (s'.1.toDo i' < s.1.toDo i ∨ i' = i ∧ s'.1.toDo i = s.1.toDo i ∧ e.owner ≠ some i) := by
    intro hworkers howner
    refine ⟨i, ?_, Or.inr ⟨rfl, ?_, ?_⟩⟩
    · rw [UpTo, liveWorkers, hworkers]
      exact hupTo
    · simp only [toDo, holders, liveWorkers, patience, hworkers]
    · rw [howner]
      exact (Option.some_ne_none i).symm
  obtain ⟨hstep, -⟩ := Lts.watch_eq_some.mp hnext
  cases e with
  | worker j answer =>
    obtain ⟨w, hw, hrest⟩ := Option.bind_eq_some_iff.mp hstep
    obtain ⟨r, hstep, hrest⟩ := Option.bind_eq_some_iff.mp hrest
    obtain ⟨i', hupTo', hless⟩ := toDo_worker hwaiting.kept.book
      (hwaiting'.kept.manned.liveMonitors_eq hwaiting'.kept.book hwaiting'.nonempty) hupTo hw hstep
      (hwaiting.keeps hw hnext hwaiting') (congrArg ConnPool.workers (Option.some.inj hrest).symm)
    refine Or.inr ⟨i', hupTo', hless.imp_right fun h => ⟨h.1, h.2.1, ?_⟩⟩
    exact fun howner => h.2.2 (Option.some.inj howner)
  | spawn =>
    simp only [ConnPool.next] at hstep
    split at hstep
    · rename_i hconn
      -- the new worker is not the monitor, and begins to connect
      refine Or.inl ⟨s.1.workers.length, .spawn s.1.inner.workerCount, ?_, ?_, trivial⟩
      · rw [← Option.some.inj hstep]
        exact List.getElem?_concat_length
      · exact hwaiting.kept.book.workerCount_ne_zero hconn
    · cases hstep
  | dropHandles =>
    refine Or.inr (hsame ?_ rfl)
    rw [← Option.some.inj hstep]
  | sendReq _ | dropInner =>
    simp only [ConnPool.next] at hstep
    split at hstep
    · refine Or.inr (hsame ?_ rfl)
      rw [← Option.some.inj hstep]
    · cases hstep

/-- The first task leaves the channel. -/
theorem first_leaves (hfair : ∀ i, run.Fair PoolEvent.owner i) {n : ℕ}
    (hwaiting : Waiting k (run.state n)) : ∃ m, n ≤ m ∧ k < (run.state m).2.taken.length := by
  obtain ⟨i, hupTo⟩ := exists_upTo
    (hwaiting.kept.manned.liveMonitors_eq hwaiting.kept.book hwaiting.nonempty)
  have hhelps : Waiting k (run.state n) ∧ (run.state n).1.UpTo i := ⟨hwaiting, hupTo⟩
  have hsoon : ∃ m, n ≤ m ∧ (k < (run.state m).2.taken.length ∨ Waiting k (run.state m) ∧
      ∃ (j : ℕ) (w : Worker B), (run.state m).1.workers[j]? = some w ∧ w.Sure) := by
    revert hhelps
    refine Lts.Run.leadsTo (fun i s => Waiting k s ∧ s.1.UpTo i) (fun i s => s.1.toDo i)
      (fun s => k < s.2.taken.length ∨ Waiting k s ∧
        ∃ (j : ℕ) (w : Worker B), s.1.workers[j]? = some w ∧ w.Sure) hfair ?_ ?_
    · rintro i s ⟨hwaiting, w, hw, hlive, -⟩
      exact hwaiting.enabled hw hlive
    · rintro i s e s' ⟨hwaiting, hupTo⟩ hok hnext
      rcases hwaiting.next hok hnext with htaken | hwaiting'
      · exact Or.inl (Or.inl htaken)
      · rcases hwaiting.toDo_next hupTo hok hnext hwaiting' with hsure | ⟨i', hupTo', hless⟩
        · exact Or.inl (Or.inr ⟨hwaiting', hsure⟩)
        · exact Or.inr ⟨i', ⟨hwaiting', hupTo'⟩, hless⟩
  obtain ⟨m, hm, htaken | ⟨hwaiting, j, w, hw, hsure⟩⟩ := hsoon
  · exact ⟨m, hm, htaken⟩
  · obtain ⟨m', hm', htaken⟩ := leaves_of_sure hfair hwaiting hw hsure
    exact ⟨m', hm.trans hm', htaken⟩

/-- Records are only added. -/
theorem grows_of_le {n m : ℕ} (h : n ≤ m) : (run.state n).2.Grows (run.state m).2 := by
  refine run.rel_of_le (R := fun s s' => s.2.Grows s'.2) (fun s => .refl _)
    (fun _ _ _ h h' => h.trans h') (fun s e s' hnext => ?_) h
  rw [← (Lts.watch_eq_some.mp hnext).2]
  exact s.2.grows_update s.1 e

/-- Every task leaves the channel. -/
theorem all_leave (hfair : ∀ i, run.Fair PoolEvent.owner i) {n : ℕ} (k : ℕ)
    (hk : k ≤ (run.state n).2.submitted.length) :
    ∃ m, n ≤ m ∧ k ≤ (run.state m).2.taken.length := by
  induction k with
  | zero => exact ⟨n, le_rfl, Nat.zero_le _⟩
  | succ k ih =>
    obtain ⟨m, hm, htaken⟩ := ih (Nat.le_of_succ_le hk)
    rcases Nat.lt_or_eq_of_le htaken with htaken | htaken
    · exact ⟨m, hm, htaken⟩
    · have hkept := kept_of_reach (run.reach m)
      have hnonempty : (run.state m).1.inner.rx ≠ [] := by
        intro hempty
        have hlength := congrArg List.length hkept.accounted.channel
        rw [hempty, List.append_nil, List.length_map, ← htaken] at hlength
        have hgrows : (run.state n).2.Grows (run.state m).2 := grows_of_le hm
        have hle := hgrows.submitted.length_le
        omega
      obtain ⟨m', hm', hleft⟩ := first_leaves hfair ⟨hkept, htaken.symm, hnonempty⟩
      exact ⟨m', hm.trans hm', hleft⟩

end ConnPool

/-! ## Tasks in hand -/

namespace Worker

/-- With a task in its hands a worker stays away from the channel, and can go on. -/
theorem step_of_held [ClientTask B] {w : Worker B} (hheld : w.held ≠ none) (i : ℕ)
    (inner : ConnPoolInner B) :
    w.removes = false ∧ w.pos ≠ .counting ∧ ∃ r, w.step i true inner = some r := by
  obtain ⟨id, pos⟩ := w
  cases pos with
  | received task | takingOver task =>
    refine ⟨rfl, (by rintro ⟨⟩), ?_⟩
    simp only [step]
    split <;> exact ⟨_, rfl⟩
  | sending task | forwarding task => exact ⟨rfl, (by rintro ⟨⟩), _, rfl⟩
  | _ => exact absurd rfl hheld

end Worker

namespace TaskBook

/-- What a worker took and what it passed on grow with the records. -/
theorem Grows.byWorker {book book' : TaskBook B} (h : book.Grows book') (i : ℕ) :
    book.takenBy i <+: book'.takenBy i ∧ book.passedBy i <+: book'.passedBy i :=
  ⟨(h.taken.filter _).map _, (h.passed.filter _).map _⟩

end TaskBook

namespace ConnPool

variable [ClientTask B] {thresholds channelSize : ℕ} {run : PoolRun B thresholds channelSize}

/-- Worker `i` has a task in its hands, after it has passed on `k` others. -/
structure Holding (k i : ℕ) (s : ConnPool B × TaskBook B) : Prop where
  passed : (s.2.passedBy i).length = k
  worker : ∃ w, s.1.workers[i]? = some w ∧ w.held ≠ none

variable {s s' : ConnPool B × TaskBook B} {e : PoolEvent B}

/-- The worker passes its task on, or comes nearer to that, or the step is that of another. -/
theorem Holding.next {k i : ℕ} (h : Holding k i s)
    (hnext : Lts.watch ConnPool.next TaskBook.update s e = some s') :
    k < (s'.2.passedBy i).length ∨ Holding k i s' ∧ (s'.1.patience i < s.1.patience i ∨
      s'.1.patience i = s.1.patience i ∧ e.owner ≠ some i) := by
  obtain ⟨w, hw, hheld⟩ := h.worker
  obtain ⟨hstep, hbook⟩ := Lts.watch_eq_some.mp hnext
  have hgrows := s.2.grows_update s.1 e
  rw [hbook] at hgrows
  have hle := (hgrows.byWorker i).2.length_le
  rw [h.passed] at hle
  rcases Nat.lt_or_eq_of_le hle with hpassed | hpassed
  · exact Or.inl hpassed
  · refine Or.inr ?_
    rcases own_or_other hw hstep with ⟨hother, hw'⟩ | ⟨answer, r, rfl, hstep, -, hw'⟩
    · refine ⟨⟨hpassed.symm, w, hw', hheld⟩, Or.inr ⟨?_, hother⟩⟩
      rw [patience_eq hw, patience_eq hw']
    · obtain ⟨hkeeps, hpos, -⟩ := Worker.step_of_held hheld i s.1.inner
      have hless := Worker.patience_lt (Worker.turn_of_step hstep) hkeeps hpos
      rw [← patience_eq hw, ← patience_eq hw'] at hless
      obtain ⟨hhandles, -⟩ := Worker.handles_of_step hstep
      rw [TaskBook.update, hw, Option.bind_some] at hbook
      generalize w.taskMove s.1.inner = move at hhandles hbook
      cases hhandles with
      | nothing _ _ hsame => exact ⟨⟨hpassed.symm, r.worker, hw', hsame ▸ hheld⟩, Or.inl hless⟩
      | take _ _ hfree _ | fail _ _ hfree _ => exact absurd hfree hheld
      | @pass task _ _ _ _ =>
        -- then it has passed on one more
        change s.2.note i (.pass task) = s'.2 at hbook
        rw [← hbook, TaskBook.passedBy_pass, if_pos rfl, List.length_append, h.passed,
          List.length_singleton] at hpassed
        omega

/-- A worker passes on what it has in its hands. -/
theorem passes (hfair : ∀ i, run.Fair PoolEvent.owner i) (n i : ℕ) :
    ∃ m, n ≤ m ∧ (run.state n).2.takenBy i <+: (run.state m).2.passedBy i := by
  have hbefore := kept_of_reach (run.reach n)
  by_cases hheld : (run.state n).1.heldBy i = none
  · refine ⟨n, le_rfl, ?_⟩
    rw [hbefore.accounted.byWorker i, hheld]
    exact ⟨[], by rw [Option.toList_none, List.append_nil, List.append_nil]⟩
  · have hsoon : ∃ m, n ≤ m ∧
        ((run.state n).2.passedBy i).length < ((run.state m).2.passedBy i).length := by
      obtain ⟨task, htask⟩ := Option.ne_none_iff_exists'.mp hheld
      obtain ⟨w, hw, hhas⟩ := Option.bind_eq_some_iff.mp htask
      have hhelps : i = i ∧ Holding ((run.state n).2.passedBy i).length i (run.state n) :=
        ⟨rfl, rfl, w, hw, hhas ▸ Option.some_ne_none task⟩
      revert hhelps
      generalize ((run.state n).2.passedBy i).length = k
      refine Lts.Run.leadsTo (fun j s => j = i ∧ Holding k i s) (fun j s => s.1.patience j)
        (fun s => k < (s.2.passedBy i).length) hfair ?_ ?_
      · rintro j s ⟨rfl, -, w, hw, hheld⟩
        obtain ⟨-, -, r, hstep⟩ := Worker.step_of_held hheld j s.1.inner
        exact enabled_of_step hw hstep
      · rintro j s e s' ⟨rfl, hholding⟩ - hnext
        rcases hholding.next hnext with hpassed | ⟨hholding', hless | ⟨hsame, hother⟩⟩
        · exact Or.inl hpassed
        · exact Or.inr ⟨j, ⟨rfl, hholding'⟩, Or.inl hless⟩
        · exact Or.inr ⟨j, ⟨rfl, hholding'⟩, Or.inr ⟨rfl, hsame, hother⟩⟩
    obtain ⟨m, hm, hlength⟩ := hsoon
    have hgrows : (run.state n).2.Grows (run.state m).2 := grows_of_le hm
    refine ⟨m, hm, List.prefix_of_prefix_length_le (hgrows.byWorker i).1 ?_ ?_⟩
    · rw [(kept_of_reach (run.reach m)).accounted.byWorker i]
      exact List.prefix_append _ _
    · obtain ⟨task, htask⟩ := Option.ne_none_iff_exists'.mp hheld
      rw [hbefore.accounted.byWorker i, htask, List.length_append]
      exact hlength

/-- All workers pass on what they have in their hands. -/
theorem all_pass (hfair : ∀ i, run.Fair PoolEvent.owner i) (n : ℕ) :
    ∃ m, n ≤ m ∧ ∀ i, (run.state n).2.takenBy i <+: (run.state m).2.passedBy i := by
  have hbelow : ∀ count : ℕ, ∃ m, n ≤ m ∧
      ∀ i < count, (run.state n).2.takenBy i <+: (run.state m).2.passedBy i := by
    intro count
    induction count with
    | zero => exact ⟨n, le_rfl, fun i hi => absurd hi (Nat.not_lt_zero i)⟩
    | succ count ih =>
      obtain ⟨m, hm, hpassed⟩ := ih
      obtain ⟨m', hm', hlast⟩ := passes hfair n count
      have hgrows : (run.state m).2.Grows (run.state (max m m')).2 := grows_of_le (le_max_left _ _)
      have hgrows' : (run.state m').2.Grows (run.state (max m m')).2 :=
        grows_of_le (le_max_right _ _)
      refine ⟨max m m', hm.trans (le_max_left _ _), fun i hi => ?_⟩
      rcases Nat.lt_succ_iff_lt_or_eq.mp hi with hi | rfl
      · exact (hpassed i hi).trans (hgrows.byWorker i).2
      · exact hlast.trans (hgrows'.byWorker i).2
  obtain ⟨m, hm, hpassed⟩ := hbelow (run.state n).1.workers.length
  have hgrows : (run.state n).2.Grows (run.state m).2 := grows_of_le hm
  refine ⟨m, hm, fun i => ?_⟩
  by_cases hi : i < (run.state n).1.workers.length
  · exact hpassed i hi
  · -- there is no such worker
    have hnone : (run.state n).1.heldBy i = none := by
      rw [heldBy, List.getElem?_eq_none (Nat.le_of_not_lt hi), Option.bind_none]
    rw [(kept_of_reach (run.reach n)).accounted.byWorker i, hnone, Option.toList_none,
      List.append_nil]
    exact (hgrows.byWorker i).2

end ConnPool

/-! ## Every task -/

/-- A list of records is in another if the records under each key are. -/
theorem subperm_of_filter {ι α : Type} [DecidableEq ι] {l l' : List (ι × α)}
    (h : ∀ i, (l.filter (·.1 = i)).Subperm (l'.filter (·.1 = i))) : l.Subperm l' := by
  classical
  refine List.subperm_ext_iff.mpr fun a _ => ?_
  have hcount := (h a.1).count_le a
  have hself : decide (a.1 = a.1) = true := decide_eq_true rfl
  rwa [List.count_filter (p := fun b : ι × α => decide (b.1 = a.1)) hself,
    List.count_filter (p := fun b : ι × α => decide (b.1 = a.1)) hself] at hcount

/-- The records under one key are told by their contents. -/
theorem filter_eq_map {ι α : Type} [DecidableEq ι] (l : List (ι × α)) (i : ι) :
    l.filter (·.1 = i) = ((l.filter (·.1 = i)).map Prod.snd).map (i, ·) := by
  rw [List.map_map]
  refine ((List.map_congr_left fun a ha => ?_).trans (List.map_id _)).symm
  have hkey : a.1 = i := of_decide_eq_true (List.mem_filter.mp ha).2
  rw [← hkey]
  rfl

namespace TaskBook

/-- What the workers took is among what they passed on, if that is so for each of them. -/
theorem takenUp_subperm {book book' : TaskBook B}
    (h : ∀ i, book.takenBy i <+: book'.passedBy i) :
    book.takenUp.Subperm (book'.passed.map Prod.snd) := by
  have htagged : (book.taken.filter (·.1.isSome)).Subperm
      (book'.passed.map fun a => (some a.1, a.2)) := by
    refine subperm_of_filter fun i => ?_
    rw [List.filter_filter]
    cases i with
    | none =>
      have hnil : book.taken.filter (fun a => decide (a.1 = none) && a.1.isSome) = [] := by
        rw [List.filter_eq_nil_iff]
        rintro ⟨_ | i, task⟩ - <;> simp
      rw [hnil]
      exact List.nil_subperm
    | some i =>
      have htaken : book.taken.filter (fun a => decide (a.1 = some i) && a.1.isSome) =
          (book.takenBy i).map (some i, ·) := by
        rw [takenBy, ← filter_eq_map]
        refine List.filter_congr ?_
        rintro ⟨_ | j, task⟩ - <;> simp
      have hpassed : (book'.passed.map fun a => (some a.1, a.2)).filter (·.1 = some i) =
          (book'.passedBy i).map (some i, ·) := by
        have hsame : book'.passed.filter ((fun a => decide (a.1 = some i)) ∘
            fun a => (some a.1, a.2)) = book'.passed.filter (·.1 = i) := by
          refine List.filter_congr fun a _ => ?_
          simp
        rw [List.filter_map, hsame, passedBy, List.map_map]
        refine List.map_congr_left fun a ha => ?_
        have hkey : a.1 = i := of_decide_eq_true (List.mem_filter.mp ha).2
        rw [hkey]
        rfl
      rw [htaken, hpassed]
      exact ((h i).map _).sublist.subperm
  obtain ⟨l, hperm, hsublist⟩ := htagged
  refine ⟨l.map Prod.snd, hperm.map _, ?_⟩
  have hmap := hsublist.map Prod.snd
  rw [List.map_map] at hmap
  exact hmap

end TaskBook

namespace ConnPool

variable [ClientTask B] {thresholds channelSize : ℕ}

/-- **No task waits for ever.** In every run of a pool in which no worker is passed over for
ever: however workers are spawned and end, connect, fail and take over, the tasks submitted up
to any moment have at some later moment all been passed to a connection by a call of
`send_task`, or handed to `error_handle` as unreachable. -/
theorem tasks_settled (run : PoolRun B thresholds channelSize)
    (hfair : ∀ i, run.Fair PoolEvent.owner i) (n : ℕ) :
    ∃ m, n ≤ m ∧ (run.state n).2.submitted.Subperm
      ((run.state m).2.passed.map Prod.snd ++ (run.state m).2.failed) := by
  obtain ⟨m₁, hm₁, htaken⟩ := all_leave hfair (n := n) _ le_rfl
  obtain ⟨m, hm, hpassed⟩ := all_pass hfair m₁
  have hbefore : (run.state n).2.Grows (run.state m₁).2 := grows_of_le hm₁
  have hafter : (run.state m₁).2.Grows (run.state m).2 := grows_of_le hm
  have hfailed : (run.state m₁).2.failed <+: (run.state m).2.failed :=
    (hafter.taken.filter _).map _
  have hsubmitted : (run.state n).2.submitted <+: (run.state m₁).2.taken.map Prod.snd := by
    refine List.prefix_of_prefix_length_le hbefore.submitted ?_ ?_
    · rw [(kept_of_reach (run.reach m₁)).accounted.channel]
      exact List.prefix_append _ _
    · rw [List.length_map]
      exact htaken
  refine ⟨m, hm₁.trans hm, hsubmitted.sublist.subperm.trans ?_⟩
  refine (run.state m₁).2.perm_taken.subperm.trans ?_
  exact (TaskBook.takenUp_subperm hpassed).append hfailed.sublist.subperm

/-- Workers that have ended take no step. -/
theorem not_enabled_of_ended {s : ConnPool B × TaskBook B}
    (hended : s.1.workers.all Worker.hasEnded = true) (i : ℕ) :
    ¬ Lts.Enabled (Lts.watch ConnPool.next TaskBook.update) Sized PoolEvent.owner i s := by
  rintro ⟨e, s', howner, -, hnext⟩
  obtain ⟨hstep, -⟩ := Lts.watch_eq_some.mp hnext
  cases e with
  | worker j answer =>
    obtain ⟨w, hw, hrest⟩ := Option.bind_eq_some_iff.mp hstep
    obtain ⟨r, hstep, -⟩ := Option.bind_eq_some_iff.mp hrest
    have hgone := List.all_eq_true.mp hended w (List.mem_of_getElem? hw)
    obtain ⟨id, pos⟩ := w
    cases pos with
    | ended => cases hstep
    | _ => cases hgone
  | _ => cases howner

/-- The first task is sent in vain, the second finds the address unreachable; then the pool is
dropped. -/
def twoTasks : List (PoolEvent APIClientReq) :=
  [.worker 0 true, .worker 0 true, .sendReq (addTask 0), .worker 0 true, .worker 0 false,
    .worker 0 false, .worker 0 true, .sendReq (addTask 1), .worker 0 true, .worker 0 true,
    .worker 0 true, .dropHandles, .worker 0 true, .worker 0 true, .worker 0 true, .worker 0 true]

theorem tasks_settled_two :
    ∃ run : PoolRun APIClientReq 128 0, (∀ i, run.Fair PoolEvent.owner i) ∧
      ∃ n m, n ≤ m ∧ (run.state n).2.submitted.length = 2 ∧
        (run.state n).2.submitted.Subperm
          ((run.state m).2.passed.map Prod.snd ++ (run.state m).2.failed) := by
  have hrun : (Lts.exec (Lts.watch ConnPool.next TaskBook.update) Sized
      ((new 128 0 : ConnPool APIClientReq), .empty) twoTasks).any (fun s =>
        s.1.workers.all Worker.hasEnded && decide (s.2.submitted.length = 2)) = true := by
    decide +kernel
  obtain ⟨s, hexec, htest⟩ := (Option.any_eq_true _ _).mp hrun
  rw [Bool.and_eq_true, decide_eq_true_iff] at htest
  have hfair : ∀ i, (Lts.Run.ofExec twoTasks hexec).Fair PoolEvent.owner i :=
    fun i => Lts.Run.fair_ofExec hexec (not_enabled_of_ended htest.1 i)
  obtain ⟨m, hm, hsettled⟩ := tasks_settled _ hfair twoTasks.length
  refine ⟨_, hfair, _, m, hm, ?_, hsettled⟩
  rw [Lts.Run.state_ofExec hexec le_rfl]
  exact htest.2

end ConnPool

end RazorRpc
