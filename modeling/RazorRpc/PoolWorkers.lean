import RazorRpc.ConnPool
import Mathlib.Data.List.Basic

/-!
# The workers of a pool

`worker_count` is changed in three places: a spawn by the user, the
`compare_exchange` of the monitor, and the end of a coroutine. Between them the
workers change places, and worker 0 may become worker 1 while a new worker 0
starts.

* `Worker.Move` — every way a worker moves on without touching the count;
* `Worker.Turn`, `ConnPool.Turn` — every step of a worker, and of the pool;
* `Worker.Role` — what a position says about the id of the worker in it;
* `ConnPool.Bookkept` — the invariant.

The result is `worker_bookkeeping`.
-/

namespace RazorRpc

variable {B : Type}

namespace Worker

/-! ## Moves -/

/-- How a worker moves on. -/
inductive Move (connected answer : Bool) : Worker B → WorkerAt B → Prop
  | connectMonitor (h : answer = true) : Move connected answer ⟨0, .connecting⟩ .counting
  | connectServer (id : UInt64) (hid : id ≠ 0) (h : answer = true) :
      Move connected answer ⟨id, .connecting⟩ .entering
  | refused (id : UInt64) (h : answer = false) :
      Move connected answer ⟨id, .connecting⟩ (.failing (.clean true))
  | beside (id : UInt64) : Move connected answer ⟨id, .counting⟩ .napping
  | alone (id : UInt64) : Move connected answer ⟨id, .counting⟩ .receiving
  | wake (id : UInt64) : Move connected answer ⟨id, .napping⟩ (.pinging false)
  | pong (id : UInt64) (alone : Bool) (h : answer = true) :
      Move connected answer ⟨id, .pinging alone⟩ .counting
  | noPong (id : UInt64) (alone : Bool) (h : answer = false) :
      Move connected answer ⟨id, .pinging alone⟩
        (.failing (if alone then .clean false else .reconnect))
  | receive (id : UInt64) (task : Task B) :
      Move connected answer ⟨id, .receiving⟩ (.received task)
  | disconnected (id : UInt64) (h : connected = false) :
      Move connected answer ⟨id, .receiving⟩ .exiting
  | timeout (id : UInt64) : Move connected answer ⟨id, .receiving⟩ (.pinging true)
  | busy (id : UInt64) (task : Task B) :
      Move connected answer ⟨id, .received task⟩ (.takingOver task)
  | idle (id : UInt64) (task : Task B) :
      Move connected answer ⟨id, .received task⟩ (.sending task)
  | outrun (id : UInt64) (task : Task B) :
      Move connected answer ⟨id, .takingOver task⟩ (.sending task)
  | sentMonitor (task : Task B) (h : answer = true) :
      Move connected answer ⟨0, .sending task⟩ .counting
  | sentServer (id : UInt64) (task : Task B) (hid : id ≠ 0) (h : answer = true) :
      Move connected answer ⟨id, .sending task⟩ .entering
  | unsentMonitor (task : Task B) (h : answer = false) :
      Move connected answer ⟨0, .sending task⟩ (.failing (.clean true))
  | unsentServer (id : UInt64) (task : Task B) (hid : id ≠ 0) (h : answer = false) :
      Move connected answer ⟨id, .sending task⟩ (.failing .exit)
  | fail (id : UInt64) (after : AfterErr) :
      Move connected answer ⟨id, .failing after⟩ (afterErr after)
  | clean (id : UInt64) (nap : Bool) : Move connected answer ⟨id, .cleaning nap⟩ (.cleaning nap)
  | cleaned (id : UInt64) (nap : Bool) :
      Move connected answer ⟨id, .cleaning nap⟩ (if nap then .sleeping else .connecting)
  | slept (id : UInt64) : Move connected answer ⟨id, .sleeping⟩ .connecting
  | enter (id : UInt64) : Move connected answer ⟨id, .entering⟩ .serving
  | serve (id : UInt64) (task : Task B) : Move connected answer ⟨id, .serving⟩ (.forwarding task)
  | last (id : UInt64) (h : connected = false) :
      Move connected answer ⟨id, .serving⟩ (.flushing true)
  | forwarded (id : UInt64) (task : Task B) (h : answer = true) :
      Move connected answer ⟨id, .forwarding task⟩ .draining
  | unforwarded (id : UInt64) (task : Task B) (h : answer = false) :
      Move connected answer ⟨id, .forwarding task⟩ (.leaving false)
  | more (id : UInt64) (task : Task B) : Move connected answer ⟨id, .draining⟩ (.forwarding task)
  | drained (id : UInt64) : Move connected answer ⟨id, .draining⟩ (.flushing false)
  | flushed (id : UInt64) (final : Bool) (h : answer = true) :
      Move connected answer ⟨id, .flushing final⟩ (if final then .leaving true else .serving)
  | unflushed (id : UInt64) (final : Bool) (h : answer = false) :
      Move connected answer ⟨id, .flushing final⟩ (.leaving false)
  | leave (id : UInt64) (ok : Bool) :
      Move connected answer ⟨id, .leaving ok⟩ (if ok then .exiting else .failing .exit)

/-- Every step of a worker. -/
inductive Turn (answer : Bool) (inner : ConnPoolInner B) (w : Worker B) : Stepped B → Prop
  | moves {inner' : ConnPoolInner B} {pos : WorkerAt B}
      (hmove : Move inner.connected answer w pos)
      (hcount : inner'.workerCount = inner.workerCount)
      (hconn : inner'.connected = inner.connected) :
      Turn answer inner w ⟨inner', { w with pos }, none⟩
  | takesOver {task : Task B} (hpos : w.pos = .takingOver task) (hone : inner.workerCount = 1) :
      Turn answer inner w ⟨{ inner with workerCount := 2 }, ⟨1, .sending task⟩, some (spawn 0)⟩
  | exits (hpos : w.pos = .exiting) :
      Turn answer inner w
        ⟨{ inner with workerCount := inner.workerCount - 1 }, { w with pos := .ended }, none⟩

end Worker

@[simp] theorem ConnPoolInner.workerCount_noteConnected (inner : ConnPoolInner B) (i : ℕ)
    (w : Worker B) : (inner.noteConnected i w).workerCount = inner.workerCount := by
  rw [noteConnected]
  split
  · rfl
  · rfl

@[simp] theorem ConnPoolInner.connected_noteConnected (inner : ConnPoolInner B) (i : ℕ)
    (w : Worker B) : (inner.noteConnected i w).connected = inner.connected := by
  rw [noteConnected]
  split
  · rfl
  · rfl

section

variable [ClientTask B]

theorem ConnPoolInner.shared_cleanupOne {inner inner' : ConnPoolInner B}
    (h : inner.cleanupOne = some inner') :
    inner'.workerCount = inner.workerCount ∧ inner'.connected = inner.connected := by
  rw [cleanupOne] at h
  split at h
  · cases h
    exact ⟨rfl, rfl⟩
  · cases h

theorem Worker.turn_of_step {i : ℕ} {answer : Bool} {inner : ConnPoolInner B} {w : Worker B}
    {r : Stepped B} (h : w.step i answer inner = some r) : Turn answer inner w r := by
  obtain ⟨id, pos⟩ := w
  rw [step] at h
  cases pos with
  | connecting =>
    cases answer with
    | true =>
      cases h
      by_cases hid : id = 0
      · subst hid
        exact .moves (.connectMonitor rfl) (by simp) (by simp)
      · rw [Worker.goto, if_neg hid]
        exact .moves (.connectServer id hid rfl) (by simp) (by simp)
    | false =>
      cases h
      exact .moves (.refused id rfl) rfl rfl
  | counting =>
    simp only at h
    split at h
    · cases h
      exact .moves (.beside id) rfl rfl
    · cases h
      exact .moves (.alone id) rfl rfl
  | napping =>
    cases h
    exact .moves (.wake id) rfl rfl
  | pinging alone =>
    cases answer with
    | true =>
      cases h
      exact .moves (.pong id alone rfl) rfl rfl
    | false =>
      cases h
      exact .moves (.noPong id alone rfl) rfl rfl
  | receiving =>
    simp only at h
    split at h
    · cases h
      exact .moves (.receive id _) rfl rfl
    · split at h
      · rename_i hconn
        cases h
        exact .moves (.disconnected id (by simpa using hconn)) rfl rfl
      · split at h
        · cases h
          exact .moves (.timeout id) rfl rfl
        · cases h
  | received task =>
    simp only at h
    split at h
    · cases h
      exact .moves (.busy id task) rfl rfl
    · cases h
      exact .moves (.idle id task) rfl rfl
  | takingOver task =>
    simp only at h
    split at h
    · rename_i hone
      cases h
      exact .takesOver rfl hone
    · cases h
      exact .moves (.outrun id task) rfl rfl
  | sending task =>
    cases answer with
    | true =>
      cases h
      by_cases hid : id = 0
      · subst hid
        exact .moves (.sentMonitor task rfl) rfl rfl
      · rw [Worker.goto, if_neg hid]
        exact .moves (.sentServer id task hid rfl) rfl rfl
    | false =>
      cases h
      by_cases hid : id = 0
      · subst hid
        exact .moves (.unsentMonitor task rfl) rfl rfl
      · rw [Worker.goto, if_neg hid]
        exact .moves (.unsentServer id task hid rfl) rfl rfl
  | failing after =>
    cases h
    exact .moves (.fail id after) rfl rfl
  | cleaning nap =>
    simp only at h
    split at h
    · rename_i hone
      cases h
      obtain ⟨hcount, hconn⟩ := ConnPoolInner.shared_cleanupOne hone
      exact .moves (.clean id nap) hcount hconn
    · cases h
      exact .moves (.cleaned id nap) rfl rfl
  | sleeping =>
    cases h
    exact .moves (.slept id) rfl rfl
  | entering =>
    cases h
    exact .moves (.enter id) rfl rfl
  | serving =>
    simp only at h
    split at h
    · cases h
      exact .moves (.serve id _) rfl rfl
    · split at h
      · rename_i hconn
        cases h
        exact .moves (.last id (by simpa using hconn)) rfl rfl
      · cases h
  | forwarding task =>
    cases answer with
    | true =>
      cases h
      exact .moves (.forwarded id task rfl) rfl rfl
    | false =>
      cases h
      exact .moves (.unforwarded id task rfl) rfl rfl
  | draining =>
    simp only at h
    split at h
    · cases h
      exact .moves (.more id _) rfl rfl
    · cases h
      exact .moves (.drained id) rfl rfl
  | flushing final =>
    cases answer with
    | true =>
      cases h
      exact .moves (.flushed id final rfl) rfl rfl
    | false =>
      cases h
      exact .moves (.unflushed id final rfl) rfl rfl
  | leaving ok =>
    cases h
    exact .moves (.leave id ok) rfl rfl
  | exiting =>
    cases h
    exact .exits rfl
  | ended => cases h

end

/-! ## Roles -/

namespace Worker

/-- Inside the monitor loop. -/
def Monitoring (w : Worker B) : Prop :=
  match w.pos with
  | .counting | .napping | .pinging _ | .receiving | .received _ | .takingOver _ => True
  | _ => False

/-- What the position of a worker says about its id. -/
def Role (connected : Bool) (w : Worker B) : Prop :=
  match w.pos with
  | .counting | .napping | .pinging _ | .receiving | .received _ | .takingOver _ => w.workerId = 0
  | .entering | .serving | .forwarding _ | .draining | .flushing _ | .leaving _
  | .failing .exit => w.workerId ≠ 0
  -- only the end of the channel makes the monitor leave
  | .exiting | .ended => w.workerId = 0 → connected = false
  | .connecting | .sending _ | .failing _ | .cleaning _ | .sleeping => True

theorem Role.of_imp {connected connected' : Bool} {w : Worker B} (h : w.Role connected)
    (himp : connected' = true → connected = true) : w.Role connected' := by
  obtain ⟨id, pos⟩ := w
  cases pos with
  | exiting | ended =>
    intro hid
    have hconn : connected = false := h hid
    rw [hconn] at himp
    cases connected' with
    | true => cases himp rfl
    | false => rfl
  | failing after => cases after <;> exact h
  | _ => exact h

theorem Role.not_monitoring {connected : Bool} {w : Worker B} (h : w.Role connected)
    (hid : w.workerId ≠ 0) : ¬ w.Monitoring := by
  obtain ⟨id, pos⟩ := w
  cases pos with
  | counting | napping | pinging _ | receiving | received _ | takingOver _ => exact absurd h hid
  | _ => exact fun h => h

theorem Role.move {connected answer : Bool} {w : Worker B} {pos : WorkerAt B}
    (h : w.Role connected) (hmove : Move connected answer w pos) :
    Role connected { w with pos } := by
  cases hmove with
  | connectMonitor _ | sentMonitor _ _ => exact rfl
  | connectServer _ hid _ | sentServer _ _ hid _ | unsentServer _ _ hid _ => exact hid
  | noPong _ alone _ => cases alone <;> trivial
  | disconnected _ hconn => exact fun _ => hconn
  | fail id after =>
    cases after with
    | reconnect | clean _ => trivial
    | exit => exact fun hid => absurd hid h
  | cleaned _ nap => cases nap <;> trivial
  | flushed _ final _ => cases final <;> exact h
  | leave id ok =>
    cases ok with
    | true => exact fun hid => absurd hid h
    | false => exact h
  | beside _ | alone _ | wake _ | pong _ _ _ | receive _ _ | timeout _ | busy _ _ | enter _
  | serve _ _ | last _ _ | forwarded _ _ _ | unforwarded _ _ _ | more _ _ | drained _
  | unflushed _ _ _ => exact h
  | refused _ _ | idle _ _ | outrun _ _ | unsentMonitor _ _ | clean _ _ | slept _ => trivial

/-- Not ended. -/
def isLive (w : Worker B) : Bool := !w.hasEnded

/-- Alive with id 0. -/
def isMonitor (w : Worker B) : Bool := w.isLive && w.workerId == 0

theorem Move.isLive {connected answer : Bool} {w : Worker B} {pos : WorkerAt B}
    (hmove : Move connected answer w pos) :
    w.isLive = true ∧ Worker.isLive { w with pos } = true := by
  cases hmove with
  | noPong _ b _ | cleaned _ b | flushed _ b _ | leave _ b => cases b <;> exact ⟨rfl, rfl⟩
  | fail id after => cases after <;> exact ⟨rfl, rfl⟩
  | _ => exact ⟨rfl, rfl⟩

end Worker

/-! ## Counting workers -/

/-- What replacing an element does to a count. -/
theorem countP_set_add {α : Type} (f : α → Bool) {l : List α} {i : ℕ} {a : α}
    (h : l[i]? = some a) (b : α) :
    (l.set i b).countP f + (f a).toNat = l.countP f + (f b).toNat := by
  induction l generalizing i with
  | nil => cases h
  | cons x l ih =>
    cases i with
    | zero =>
      cases h
      rw [List.set_cons_zero, List.countP_cons, List.countP_cons]
      cases f a <;> cases f b <;> simp
    | succ i =>
      have hrest := ih (i := i) h
      rw [List.set_cons_succ, List.countP_cons, List.countP_cons]
      omega

namespace ConnPool

/-- The workers that have not ended. -/
def liveWorkers (p : ConnPool B) : ℕ := p.workers.countP Worker.isLive

/-- Those with id 0. -/
def liveMonitors (p : ConnPool B) : ℕ := p.workers.countP Worker.isMonitor

theorem liveMonitors_le (p : ConnPool B) : p.liveMonitors ≤ p.liveWorkers := by
  refine List.countP_mono_left fun w _ h => ?_
  rw [Worker.isMonitor, Bool.and_eq_true] at h
  exact h.1

/-- Every step of a pool. -/
inductive Turn (p : ConnPool B) : PoolEvent B → ConnPool B → Prop
  | spawn (hconn : p.inner.connected = true) : Turn p .spawn p.spawn
  | worker {i : ℕ} {answer : Bool} {w : Worker B} {r : Stepped B} (hw : p.workers[i]? = some w)
      (hturn : w.Turn answer p.inner r) :
      Turn p (.worker i answer)
        { p with inner := r.inner, workers := p.workers.set i r.worker ++ r.spawned.toList }
  | aside {e : PoolEvent B} {p' : ConnPool B} (hworkers : p'.workers = p.workers)
      (hcount : p'.inner.workerCount = p.inner.workerCount)
      (hconn : p'.inner.connected = true → p.inner.connected = true) : Turn p e p'

theorem turn_of_next [ClientTask B] {p p' : ConnPool B} {e : PoolEvent B}
    (hnext : p.next e = some p') : p.Turn e p' := by
  cases e with
  | spawn =>
    simp only [next] at hnext
    split at hnext
    · rename_i hconn
      cases hnext
      exact .spawn hconn
    · cases hnext
  | worker i answer =>
    obtain ⟨w, hw, hnext⟩ := Option.bind_eq_some_iff.mp hnext
    obtain ⟨r, hstep, hnext⟩ := Option.bind_eq_some_iff.mp hnext
    cases hnext
    exact .worker hw (Worker.turn_of_step hstep)
  | dropHandles =>
    cases hnext
    refine .aside rfl rfl ?_
    rintro ⟨⟩
  | sendReq _ | dropInner =>
    simp only [next] at hnext
    split at hnext
    · cases hnext
      exact .aside rfl rfl id
    · cases hnext

/-- `fetch_add` does not wrap: every worker is a coroutine in memory. -/
def Spawnable (p : ConnPool B) : PoolEvent B → Prop
  | .spawn => p.liveWorkers + 1 < 2 ^ 64
  | _ => True

instance (p : ConnPool B) (e : PoolEvent B) : Decidable (p.Spawnable e) :=
  match e with
  | .spawn => inferInstanceAs (Decidable (_ < _))
  | .sendReq _ | .dropHandles | .worker _ _ | .dropInner => inferInstanceAs (Decidable True)

/-- The counter, the monitor and the roles. -/
structure Bookkept (p : ConnPool B) : Prop where
  roles : ∀ w ∈ p.workers, w.Role p.inner.connected
  count : p.inner.workerCount.toNat = p.liveWorkers
  monitor : p.inner.connected = true → p.liveMonitors = 1

theorem bookkept_new (thresholds channelSize : ℕ) :
    (new thresholds channelSize : ConnPool B).Bookkept where
  roles w hw := by
    cases hw with
    | head => trivial
    | tail _ hw => cases hw
  count := rfl
  monitor _ := rfl

/-- What a step of a worker does to a count. -/
theorem countP_step {p : ConnPool B} {i : ℕ} {w : Worker B} (hw : p.workers[i]? = some w)
    (f : Worker B → Bool) (w' : Worker B) (spawned : Option (Worker B)) :
    (p.workers.set i w' ++ spawned.toList).countP f + (f w).toNat =
      p.workers.countP f + (f w').toNat + (spawned.any f).toNat := by
  have hset := countP_set_add f hw w'
  have hspawned : spawned.toList.countP f = (spawned.any f).toNat := by
    cases spawned with
    | none => rfl
    | some v => cases hv : f v <;> simp [hv]
  rw [List.countP_append]
  omega

theorem mem_step {p : ConnPool B} {i : ℕ} {w' v : Worker B} (spawned : Option (Worker B))
    (hv : v ∈ p.workers.set i w' ++ spawned.toList) :
    v ∈ p.workers ∨ v = w' ∨ v ∈ spawned := by
  rcases List.mem_append.mp hv with hv | hv
  · rcases List.mem_or_eq_of_mem_set hv with hv | hv
    · exact Or.inl hv
    · exact Or.inr (Or.inl hv)
  · exact Or.inr (Or.inr (Option.mem_toList.mp hv))

namespace Bookkept

variable {p : ConnPool B}

theorem workerCount_ne_zero (h : p.Bookkept) (hconn : p.inner.connected = true) :
    p.inner.workerCount ≠ 0 := by
  intro hzero
  have hcount := h.count
  rw [hzero] at hcount
  have hle := p.liveMonitors_le
  rw [h.monitor hconn, ← hcount] at hle
  exact absurd hle (by decide)

theorem spawn (h : p.Bookkept) (hok : p.liveWorkers + 1 < 2 ^ 64)
    (hconn : p.inner.connected = true) : p.spawn.Bookkept := by
  have hid := h.workerCount_ne_zero hconn
  refine ⟨fun w hw => ?_, ?_, fun _ => ?_⟩
  · rcases List.mem_append.mp hw with hw | hw
    · exact h.roles w hw
    · rw [List.mem_singleton.mp hw]
      trivial
  · have hlive : p.spawn.liveWorkers = p.liveWorkers + 1 := List.countP_append
    have hadd : (p.inner.workerCount + 1).toNat = p.inner.workerCount.toNat + 1 := by
      rw [← h.count] at hok
      rw [UInt64.toNat_add, UInt64.toNat_one, Nat.mod_eq_of_lt hok]
    rw [hlive, ← h.count]
    exact hadd
  · have hnew : (Worker.spawn p.inner.workerCount : Worker B).isMonitor = false := by
      rw [Worker.isMonitor, Worker.spawn, beq_false_of_ne hid, Bool.and_false]
    have hmonitors : p.spawn.liveMonitors = p.liveMonitors := by
      rw [liveMonitors, ConnPool.spawn, List.countP_append, List.countP_singleton, hnew]
      rfl
    rw [hmonitors]
    exact h.monitor hconn

variable {i : ℕ} {answer : Bool} {w : Worker B}

theorem moves (h : p.Bookkept) (hw : p.workers[i]? = some w) {inner' : ConnPoolInner B}
    {pos : WorkerAt B} (hmove : Worker.Move p.inner.connected answer w pos)
    (hcount : inner'.workerCount = p.inner.workerCount)
    (hconn : inner'.connected = p.inner.connected) :
    Bookkept { p with inner := inner', workers := p.workers.set i { w with pos } ++ [] } := by
  obtain ⟨hlive, hlive'⟩ := hmove.isLive
  refine ⟨fun v hv => ?_, ?_, fun hc => ?_⟩
  · rw [hconn]
    rcases mem_step none hv with hv | rfl | hv
    · exact h.roles v hv
    · exact (h.roles w (List.mem_of_getElem? hw)).move hmove
    · cases hv
  · have hworkers := countP_step hw Worker.isLive { w with pos } none
    rw [hlive, hlive'] at hworkers
    rw [hcount, h.count]
    exact (Nat.add_right_cancel hworkers).symm
  · have hmonitors := countP_step hw Worker.isMonitor { w with pos } none
    rw [Worker.isMonitor, Worker.isMonitor, hlive, hlive'] at hmonitors
    rw [hconn] at hc
    rw [← h.monitor hc]
    exact Nat.add_right_cancel hmonitors

theorem takesOver (h : p.Bookkept) (hw : p.workers[i]? = some w) {task : Task B}
    (hpos : w.pos = .takingOver task) (hone : p.inner.workerCount = 1) :
    Bookkept { p with
      inner := { p.inner with workerCount := 2 }
      workers := p.workers.set i ⟨1, .sending task⟩ ++ [.spawn 0] } := by
  have hrole := h.roles w (List.mem_of_getElem? hw)
  have hid : w.workerId = 0 := by
    rw [Worker.Role, hpos] at hrole
    exact hrole
  have hlive : w.isLive = true := by
    rw [Worker.isLive, Worker.hasEnded, hpos]
    rfl
  refine ⟨fun v hv => ?_, ?_, fun hc => ?_⟩
  · rcases mem_step (some (.spawn 0)) hv with hv | rfl | hv
    · exact h.roles v hv
    · trivial
    · cases hv
      trivial
  · have hworkers := countP_step hw Worker.isLive ⟨1, .sending task⟩ (some (.spawn 0))
    have hcount : 1 = p.liveWorkers := by
      rw [← h.count, hone]
      rfl
    rw [hlive, ← liveWorkers, ← hcount] at hworkers
    exact (Nat.add_right_cancel hworkers).symm
  · -- worker 0 goes, worker 0 comes
    have hmonitor : w.isMonitor = true := by
      rw [Worker.isMonitor, hlive, hid]
      rfl
    have hmonitors := countP_step hw Worker.isMonitor ⟨1, .sending task⟩ (some (.spawn 0))
    rw [hmonitor] at hmonitors
    rw [← h.monitor hc]
    exact Nat.add_right_cancel hmonitors

theorem exits (h : p.Bookkept) (hw : p.workers[i]? = some w) (hpos : w.pos = .exiting) :
    Bookkept { p with
      inner := { p.inner with workerCount := p.inner.workerCount - 1 }
      workers := p.workers.set i { w with pos := .ended } ++ [] } := by
  have hmem := List.mem_of_getElem? hw
  have hrole := h.roles w hmem
  rw [Worker.Role, hpos] at hrole
  have hlive : w.isLive = true := by
    rw [Worker.isLive, Worker.hasEnded, hpos]
    rfl
  refine ⟨fun v hv => ?_, ?_, fun hc => ?_⟩
  · rcases mem_step none hv with hv | rfl | hv
    · exact h.roles v hv
    · exact hrole
    · cases hv
  · have hworkers := countP_step hw Worker.isLive { w with pos := .ended } none
    have hpos : 0 < p.liveWorkers := List.countP_pos_iff.mpr ⟨w, hmem, hlive⟩
    have hle : (1 : UInt64) ≤ p.inner.workerCount := by
      rw [UInt64.le_iff_toNat_le, h.count]
      exact hpos
    rw [hlive] at hworkers
    rw [UInt64.toNat_sub_of_le _ _ hle, h.count]
    exact Nat.sub_eq_of_eq_add hworkers.symm
  · -- the monitor stays while there is a handle
    have hid : w.workerId ≠ 0 := by
      intro hid
      rw [hrole hid] at hc
      cases hc
    have hmonitor : w.isMonitor = false := by
      rw [Worker.isMonitor, beq_false_of_ne hid, Bool.and_false]
    have hmonitors := countP_step hw Worker.isMonitor { w with pos := .ended } none
    rw [hmonitor] at hmonitors
    rw [← h.monitor hc]
    exact hmonitors

theorem next [ClientTask B] (h : p.Bookkept) {e : PoolEvent B} {p' : ConnPool B}
    (hok : p.Spawnable e) (hnext : p.next e = some p') : p'.Bookkept := by
  cases turn_of_next hnext with
  | spawn hconn => exact h.spawn hok hconn
  | worker hw hturn =>
    cases hturn with
    | moves hmove hcount hconn => exact h.moves hw hmove hcount hconn
    | takesOver hpos hone => exact h.takesOver hw hpos hone
    | exits hpos => exact h.exits hw hpos
  | aside hworkers hcount hconn =>
    refine ⟨fun w hw => ?_, ?_, fun hc => ?_⟩
    · rw [hworkers] at hw
      exact (h.roles w hw).of_imp hconn
    · rw [hcount, liveWorkers, hworkers]
      exact h.count
    · rw [liveMonitors, hworkers]
      exact h.monitor (hconn hc)

end Bookkept

/-! ## Runs -/

/-- Worker `i` after a step. -/
theorem Turn.getElem? {p p' : ConnPool B} {e : PoolEvent B} (h : p.Turn e p') {i : ℕ}
    {w : Worker B} (hw : p.workers[i]? = some w) :
    p'.workers[i]? = some w ∨
      ∃ answer r, e = .worker i answer ∧ w.Turn answer p.inner r ∧
        p'.workers[i]? = some r.worker := by
  have hlt := (List.getElem?_eq_some_iff.mp hw).1
  cases h with
  | spawn _ =>
    refine Or.inl ?_
    rw [ConnPool.spawn, List.getElem?_append_left hlt]
    exact hw
  | @worker j answer v r hv hturn =>
    have hlt' : i < (p.workers.set j r.worker).length := by rwa [List.length_set]
    rw [List.getElem?_append_left hlt']
    by_cases hji : j = i
    · subst hji
      rw [hw] at hv
      cases hv
      exact Or.inr ⟨answer, r, rfl, hturn, List.getElem?_set_self hlt⟩
    · refine Or.inl ?_
      rw [List.getElem?_set_ne hji]
      exact hw
  | aside hworkers _ _ =>
    rw [hworkers]
    exact Or.inl hw

/-- Worker `i` is not the monitor. -/
def Serves (i : ℕ) (p : ConnPool B) : Prop := ∃ w, p.workers[i]? = some w ∧ w.workerId ≠ 0

variable [ClientTask B]

theorem Serves.next {i : ℕ} {p p' : ConnPool B} {e : PoolEvent B} (h : Serves i p)
    (hnext : p.next e = some p') : Serves i p' := by
  obtain ⟨w, hw, hid⟩ := h
  rcases (turn_of_next hnext).getElem? hw with hw' | ⟨answer, r, -, hturn, hw'⟩
  · exact ⟨w, hw', hid⟩
  · refine ⟨r.worker, hw', ?_⟩
    cases hturn with
    | moves _ _ _ | exits _ => exact hid
    | takesOver _ _ => exact (by decide : (1 : UInt64) ≠ 0)

theorem bookkept_of_reach {p p' : ConnPool B} (h : p.Bookkept) {ok : ConnPool B → PoolEvent B → Prop}
    (hok : ∀ p e, ok p e → p.Spawnable e) (hreach : Lts.Reach next ok p p') : p'.Bookkept :=
  hreach.invariant (I := Bookkept) h fun _ _ _ h hstep hnext => h.next (hok _ _ hstep) hnext

/-- **The workers of a pool are accounted for.** While there is a handle,
`worker_count` is the number of workers that have not ended, one of them is worker
0, and no worker that has become worker 1 is ever in the monitor loop again. -/
theorem worker_bookkeeping {thresholds channelSize : ℕ} {p : ConnPool B}
    (h : Lts.Reach next Spawnable (new thresholds channelSize) p)
    (hconn : p.inner.connected = true) :
    p.inner.workerCount.toNat = p.liveWorkers ∧ p.liveMonitors = 1 ∧
      ∀ (i : ℕ) (w : Worker B), p.workers[i]? = some w → w.workerId ≠ 0 →
        ∀ p' : ConnPool B, Lts.Reach next Spawnable p p' →
          ∃ w' : Worker B, p'.workers[i]? = some w' ∧ w'.workerId ≠ 0 ∧ ¬ w'.Monitoring := by
  have hbook := bookkept_of_reach (bookkept_new thresholds channelSize) (fun _ _ h => h) h
  refine ⟨hbook.count, hbook.monitor hconn, ?_⟩
  intro i w hw hid p' hreach
  have hserves : Serves i p' := hreach.invariant (I := Serves i) ⟨w, hw, hid⟩
    fun _ _ _ hserves _ hnext => hserves.next hnext
  obtain ⟨w', hw', hid'⟩ := hserves
  have hbook' := bookkept_of_reach hbook (fun _ _ h => h) hreach
  have hrole := hbook'.roles w' (List.mem_of_getElem? hw')
  exact ⟨w', hw', hid', hrole.not_monitoring hid'⟩

/-- The monitor connects, takes a task, finds itself busy and takes over. -/
def takeOver : List (PoolEvent APIClientReq) :=
  [.worker 0 true, .worker 0 true, .sendReq ⟨0, 0, .new "calc.add" [1]⟩, .worker 0 true,
    .worker 0 true, .worker 0 true]

theorem worker_bookkeeping_takeOver :
    ∃ p : ConnPool APIClientReq, Lts.Reach next Spawnable (new 128 0) p ∧
      p.workers.map Worker.workerId = [1, 0] ∧ p.inner.workerCount.toNat = p.liveWorkers ∧
      p.liveMonitors = 1 := by
  have hrun : (Lts.exec next Spawnable (new 128 0) takeOver).any
      (fun p => p.workers.map Worker.workerId == [1, 0] && p.inner.connected) = true := by
    decide +kernel
  obtain ⟨p, hreach, htest⟩ := Lts.Reach.exists_of_exec hrun
  rw [Bool.and_eq_true, beq_iff_eq] at htest
  obtain ⟨hcount, hmonitor, -⟩ := worker_bookkeeping hreach htest.2
  exact ⟨p, hreach, htest.1, hcount, hmonitor⟩

end ConnPool

end RazorRpc
