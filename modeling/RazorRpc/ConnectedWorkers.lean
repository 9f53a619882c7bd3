import RazorRpc.PoolWorkers

/-!
# Workers with a connection (`stream/src/client/pool.rs`)

`run_worker` adds 1 to `connected_worker_count` before `_run_worker` and adds 1 again
after it. A worker passes three points on its way: it enters, `_run_worker` returns
(a send or a flush failed, or the channel is disconnected), and it leaves `run_worker`.

* `Passage` — how often each point has been passed, read along a run;
* `Passage.Balanced` — what the counter and the positions of the workers have to do
  with these numbers;
* `connectedWorkerCount_exact` — the result.
-/

namespace RazorRpc

variable {B : Type}

namespace Worker

/-- Inside `_run_worker`. -/
def isInside (w : Worker B) : Bool :=
  match w.pos with
  | .serving | .forwarding _ | .draining | .flushing _ => true
  | _ => false

def isEntering (w : Worker B) : Bool :=
  match w.pos with
  | .entering => true
  | _ => false

/-- `_run_worker` has returned, `run_worker` has not. -/
def isLeaving (w : Worker B) : Bool :=
  match w.pos with
  | .leaving _ => true
  | _ => false

/-- With this answer `_run_worker` returns: `send_task` or `flush_req` has failed, or the
flush after the end of the channel is done. -/
def returns (answer : Bool) (w : Worker B) : Bool :=
  match w.pos with
  | .forwarding _ => !answer
  | .flushing last => last || !answer
  | _ => false

end Worker

/-- How often workers have come to the three points. -/
structure Passage where
  entered : ℕ
  /-- `_run_worker` has returned -/
  returned : ℕ
  left : ℕ

namespace Passage

/-- Nothing has happened yet. -/
def none : Passage := ⟨0, 0, 0⟩

/-- A worker takes a step. -/
def add (x : Passage) (answer : Bool) (w : Worker B) : Passage where
  entered := x.entered + w.isEntering.toNat
  returned := x.returned + (w.returns answer).toNat
  left := x.left + w.isLeaving.toNat

/-- The record after a step of the pool. -/
def update (x : Passage) (p : ConnPool B) : PoolEvent B → Passage
  | .worker i answer =>
    match p.workers[i]? with
    | some w => x.add answer w
    | .none => x
  | _ => x

end Passage

namespace ConnPool

/-- The workers inside `_run_worker`. -/
def inside (p : ConnPool B) : ℕ := p.workers.countP Worker.isInside

/-- The workers between the return of `_run_worker` and the second `fetch_add`. -/
def leaving (p : ConnPool B) : ℕ := p.workers.countP Worker.isLeaving

/-- The counter says how many workers are inside. -/
def Exact (p : ConnPool B) : Prop := p.inner.connectedWorkerCount = UInt64.ofNat p.inside

end ConnPool

/-- The counter counts both ends of the way; who has entered and not returned is inside. -/
structure Passage.Balanced (x : Passage) (p : ConnPool B) : Prop where
  count : p.inner.connectedWorkerCount = UInt64.ofNat (x.entered + x.left)
  inside : p.inside + x.returned = x.entered
  leaving : p.leaving + x.left = x.returned

/-! ## One step -/

namespace Worker

@[simp] theorem connectedWorkerCount_noteConnected (inner : ConnPoolInner B) (i : ℕ)
    (w : Worker B) :
    (inner.noteConnected i w).connectedWorkerCount = inner.connectedWorkerCount := by
  rw [ConnPoolInner.noteConnected]
  split
  · rfl
  · rfl

/-- Where a worker goes from where it is, as far as the three points go. -/
theorem Move.passes {connected answer : Bool} {w : Worker B} {pos : WorkerAt B}
    (hmove : Move connected answer w pos) :
    (isInside { w with pos }).toNat + (w.returns answer).toNat =
        w.isInside.toNat + w.isEntering.toNat ∧
      isLeaving { w with pos } = w.returns answer := by
  cases hmove with
  | noPong _ b _ | cleaned _ b | leave _ b => cases b <;> exact ⟨rfl, rfl⟩
  | fail id after => cases after <;> exact ⟨rfl, rfl⟩
  | forwarded _ _ h | unforwarded _ _ h =>
    subst h
    exact ⟨rfl, rfl⟩
  | flushed _ final h | unflushed _ final h =>
    subst h
    cases final <;> exact ⟨rfl, rfl⟩
  | _ => exact ⟨rfl, rfl⟩

variable [ClientTask B]

theorem connectedWorkerCount_cleanupOne {inner inner' : ConnPoolInner B}
    (h : inner.cleanupOne = some inner') :
    inner'.connectedWorkerCount = inner.connectedWorkerCount := by
  rw [ConnPoolInner.cleanupOne] at h
  split at h
  · cases h
    rfl
  · cases h

/-- Both ends of `run_worker` add 1, and nothing else changes the counter. -/
theorem connectedWorkerCount_step {i : ℕ} {answer : Bool} {inner : ConnPoolInner B}
    {w : Worker B} {r : Stepped B} (h : w.step i answer inner = some r) :
    r.inner.connectedWorkerCount =
      inner.connectedWorkerCount + UInt64.ofNat (w.isEntering.toNat + w.isLeaving.toNat) := by
  obtain ⟨id, pos⟩ := w
  rw [step] at h
  cases pos with
  | entering | leaving _ =>
    cases h
    rfl
  | connecting =>
    cases answer with
    | true =>
      cases h
      exact (connectedWorkerCount_noteConnected _ _ _).trans (UInt64.add_zero _).symm
    | false =>
      cases h
      exact (UInt64.add_zero _).symm
  | cleaning nap =>
    simp only at h
    split at h
    · rename_i hone
      cases h
      exact (connectedWorkerCount_cleanupOne hone).trans (UInt64.add_zero _).symm
    · cases h
      exact (UInt64.add_zero _).symm
  | ended => cases h
  | counting | napping | pinging _ | receiving | received _ | takingOver _ | sending _ | failing _
  | sleeping | serving | forwarding _ | draining | flushing _ | exiting =>
    -- the counter is not touched, whichever way the worker goes
    simp only at h
    repeat' split at h
    all_goals cases h
    all_goals exact (UInt64.add_zero _).symm

/-- A worker that is spawned is at none of the points. -/
theorem spawned_of_step {i : ℕ} {answer : Bool} {inner : ConnPoolInner B} {w : Worker B}
    {r : Stepped B} (h : w.step i answer inner = some r) :
    r.spawned.any isInside = false ∧ r.spawned.any isLeaving = false := by
  cases turn_of_step h with
  | moves _ _ _ | takesOver _ _ | exits _ => exact ⟨rfl, rfl⟩

/-- What a step does to the positions. -/
theorem passes_of_step {i : ℕ} {answer : Bool} {inner : ConnPoolInner B} {w : Worker B}
    {r : Stepped B} (h : w.step i answer inner = some r) :
    r.worker.isInside.toNat + (w.returns answer).toNat =
        w.isInside.toNat + w.isEntering.toNat ∧
      r.worker.isLeaving = w.returns answer := by
  cases turn_of_step h with
  | moves hmove _ _ => exact hmove.passes
  | takesOver hpos _ | exits hpos =>
    simp [returns, isInside, isEntering, isLeaving, hpos]

end Worker

/-! ## Runs -/

namespace Passage

theorem balanced_new (thresholds channelSize : ℕ) :
    Passage.none.Balanced (ConnPool.new thresholds channelSize : ConnPool B) :=
  ⟨rfl, rfl, rfl⟩

/-- What leaves the workers and the counter alone. -/
theorem Balanced.aside {p p' : ConnPool B} {x : Passage} (h : x.Balanced p)
    (hcount : p'.inner.connectedWorkerCount = p.inner.connectedWorkerCount)
    (hworkers : p'.workers = p.workers) : x.Balanced p' := by
  refine ⟨hcount.trans h.count, ?_, ?_⟩
  · rw [ConnPool.inside, hworkers]
    exact h.inside
  · rw [ConnPool.leaving, hworkers]
    exact h.leaving

variable [ClientTask B]

theorem Balanced.worker {p : ConnPool B} {x : Passage} (h : x.Balanced p) {i : ℕ}
    {answer : Bool} {w : Worker B} (hw : p.workers[i]? = some w) {r : Stepped B}
    (hstep : w.step i answer p.inner = some r) :
    (x.add answer w).Balanced
      { p with inner := r.inner, workers := p.workers.set i r.worker ++ r.spawned.toList } := by
  obtain ⟨hpass, hleave⟩ := Worker.passes_of_step hstep
  obtain ⟨hspawnIn, hspawnOut⟩ := Worker.spawned_of_step hstep
  have hinside := ConnPool.countP_step hw Worker.isInside r.worker r.spawned
  have hleaving := ConnPool.countP_step hw Worker.isLeaving r.worker r.spawned
  rw [hspawnIn] at hinside
  rw [hspawnOut, hleave] at hleaving
  refine ⟨?_, ?_, ?_⟩
  · rw [Worker.connectedWorkerCount_step hstep, h.count, ← UInt64.ofNat_add]
    refine congrArg UInt64.ofNat ?_
    simp only [add]
    omega
  · have hin := h.inside
    rw [ConnPool.inside] at hin ⊢
    rw [Bool.toNat_false] at hinside
    simp only [add]
    omega
  · have hout := h.leaving
    rw [ConnPool.leaving] at hout ⊢
    rw [Bool.toNat_false] at hleaving
    simp only [add]
    omega

theorem Balanced.step {p p' : ConnPool B} {x : Passage} (h : x.Balanced p) {e : PoolEvent B}
    (hnext : p.next e = some p') : (x.update p e).Balanced p' := by
  cases e with
  | worker i answer =>
    obtain ⟨w, hw, hnext⟩ := Option.bind_eq_some_iff.mp hnext
    obtain ⟨r, hstep, hnext⟩ := Option.bind_eq_some_iff.mp hnext
    cases hnext
    simp only [update, hw]
    exact h.worker hw hstep
  | spawn =>
    simp only [ConnPool.next] at hnext
    split at hnext
    · cases hnext
      -- a new worker connects first
      refine ⟨h.count, ?_, ?_⟩
      · rw [ConnPool.inside, ConnPool.spawn, List.countP_append]
        exact h.inside
      · rw [ConnPool.leaving, ConnPool.spawn, List.countP_append]
        exact h.leaving
    · cases hnext
  | dropHandles =>
    cases hnext
    exact h.aside rfl rfl
  | sendReq _ | dropInner =>
    simp only [ConnPool.next] at hnext
    split at hnext
    · cases hnext
      exact h.aside rfl rfl
    · cases hnext

end Passage

namespace ConnPool

variable [ClientTask B]

/-- A run of a pool, with the record beside it. -/
def passing : ConnPool B × Passage → PoolEvent B → Option (ConnPool B × Passage) :=
  Lts.watch next Passage.update

/-- **The counter is exact until the first worker comes back.** In every run, in every
state reached, `connected_worker_count` is the number of workers inside `_run_worker` as
long as it has never returned. Once it has, the counter is wrong, until `usize` wraps: the
end of `_run_worker` is counted up, as its beginning is. -/
theorem connectedWorkerCount_exact {thresholds channelSize : ℕ} {p : ConnPool B}
    {x : Passage}
    (h : Lts.Reach passing (fun _ _ => True) (new thresholds channelSize, .none) (p, x)) :
    (x.returned = 0 → p.Exact) ∧ (p.Exact → x.returned < 2 ^ 63 → x.returned = 0) := by
  have hbalanced : x.Balanced p := by
    refine h.invariant (I := fun q => q.2.Balanced q.1)
      (Passage.balanced_new thresholds channelSize) ?_
    rintro ⟨p, x⟩ e ⟨p', x'⟩ hbalanced - hnext
    obtain ⟨hnext, rfl⟩ := Lts.watch_eq_some.mp hnext
    exact hbalanced.step hnext
  have hin := hbalanced.inside
  have hout := hbalanced.leaving
  rw [Exact, hbalanced.count]
  constructor
  · intro hzero
    refine congrArg UInt64.ofNat ?_
    omega
  · intro heq hfew
    have hmod := congrArg UInt64.toNat heq
    rw [UInt64.toNat_ofNat', UInt64.toNat_ofNat'] at hmod
    omega

/-- The user spawns a worker; it connects and waits on the channel. -/
def servesAlone : List (PoolEvent APIClientReq) := [.spawn, .worker 1 true, .worker 1 true]

theorem connectedWorkerCount_exact_serving :
    ∃ (p : ConnPool APIClientReq) (x : Passage),
      Lts.Reach passing (fun _ _ => True) (new 128 0, .none) (p, x) ∧ p.inside = 1 ∧ p.Exact := by
  have hrun : (Lts.exec passing (fun _ _ => True) (new 128 0, .none) servesAlone).any
      (fun q => decide (q.1.inside = 1 ∧ q.2.returned = 0)) = true := by decide +kernel
  obtain ⟨⟨p, x⟩, hreach, htest⟩ := Lts.Reach.exists_of_exec hrun
  obtain ⟨hinside, hzero⟩ := of_decide_eq_true htest
  exact ⟨p, x, hreach, hinside, (connectedWorkerCount_exact hreach).1 hzero⟩

/-- The handles are dropped: the worker flushes, returns and ends. Nobody is inside, and
the counter is 2. -/
theorem connectedWorkerCount_after_exit :
    ∃ p : ConnPool APIClientReq, Lts.Reach next (fun _ _ => True) (new 128 0) p ∧
      p.inside = 0 ∧ p.inner.connectedWorkerCount = 2 ∧ ¬ p.Exact := by
  have hrun : (Lts.exec next (fun _ _ => True) (new 128 0)
      (servesAlone ++ [.dropHandles, .worker 1 true, .worker 1 true, .worker 1 true,
        .worker 1 true])).any
      (fun p => decide (p.inside = 0 ∧ p.inner.connectedWorkerCount = 2)) = true := by
    decide +kernel
  obtain ⟨p, hreach, htest⟩ := Lts.Reach.exists_of_exec hrun
  obtain ⟨hinside, hcount⟩ := of_decide_eq_true htest
  refine ⟨p, hreach, hinside, hcount, ?_⟩
  rw [Exact, hcount, hinside]
  decide

end ConnPool

end RazorRpc
