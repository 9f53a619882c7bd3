import RazorRpc.Wire

/-!
# Dropping the stream between two responses

The receiver waits for the next header together with the close channel, and when
the channel is faster, the header read is dropped with the bytes it has taken. If
it has taken none, nothing is lost: the responses are decoded one after the other
as if the stream were still there, and a task that waits in the registry gets the
response that comes for it before its time-out.

* `Wired` — a connection over the bytes of a sequence of responses;
* `Kept` — how a task fares that was in the registry at some time;
* `Wired.Keeping` — the invariant.

The result is `drop_keeps_step`.
-/

namespace RazorRpc

open Prog ClientStream

variable {B : Type}

/-! ## A connection over a stream of responses -/

/-- A connection, and the responses it is sent. -/
structure Wired (B : Type) where
  sys : Sys B
  wire : Wire

/-- What happens next. -/
inductive WireLabel (B : Type) : Type where
  | call (call : Call B)
  /-- the sender goes on; what the socket answers it -/
  | sender (ok : Bool)
  /-- the receiver goes on; whether a tick is due, and how many bytes arrive at most
  for the read it is at, or (`none`) that the time for it is up -/
  | receiver (tick : Bool) (bytes : Option ℕ)
  | dropInner

/-- The receiver waits for the header of a response. -/
def Receiver.awaitsHead : Receiver B → Bool
  | .future _ (.act (.readHead _) _) => true
  | _ => false

theorem Receiver.eq_of_awaitsHead {r : Receiver B} (h : r.awaitsHead = true) :
    ∃ stage cancellable next, r = .future stage (.act (.readHead cancellable) next) := by
  rcases r with ⟨stage, _ | ⟨o, next⟩⟩ | _ | _ | _ | _ | _ | _
  · cases h
  · cases o with
    | readHead cancellable => exact ⟨stage, cancellable, next, rfl⟩
    | _ => cases h
  all_goals cases h

theorem Receiver.op_eq_some {r : Receiver B} {o : RecvOp B} (h : r.op = some o) :
    ∃ k, r = .future .polling (.act o k) := by
  rcases r with ⟨stage, _ | ⟨o', k⟩⟩ | _ | _ | _ | _ | _ | _
  · cases stage <;> cases h
  · cases stage with
    | polling =>
      cases h
      exact ⟨k, rfl⟩
    | _ => cases h
  all_goals cases h

namespace Wired

/-- What the receiver finds on the socket. -/
def arrival (s : Wired B) (bytes : Option ℕ) : Arrival :=
  match s.sys.receiver.op with
  | some o => o.sees (s.wire.feed o bytes) bytes
  | none => .nothing

def label (s : Wired B) : WireLabel B → Label B
  | .call call => .call call
  | .sender ok => .sender ok
  | .receiver tick bytes => .receiver tick (s.arrival bytes)
  | .dropInner => .dropInner

/-- The stream after a step. -/
def wireAfter (s : Wired B) : WireLabel B → Wire
  | .receiver _ bytes =>
    match s.sys.receiver.op with
    | some o =>
      let w := s.wire.feed o bytes
      w.answered (RecvOp.exec (o.sees w bytes) o s.sys.conn).2
    | none => s.wire
  | _ => s.wire

/-- No write fails, and no body is late. -/
def calm (s : Wired B) : WireLabel B → Bool
  | .sender ok => ok
  | .receiver _ bytes => s.sys.receiver.op.all (·.calm bytes)
  | _ => true

/-- The close channel does not cut off a header of which bytes are taken. -/
def gentle (s : Wired B) : WireLabel B → Bool
  | .receiver _ bytes =>
    s.sys.receiver.op.all fun o => o.gentle s.sys.conn (s.wire.feed o bytes)
  | _ => true

/-- `has_err` is not set, the connection works, and the sequence numbers last. -/
def Calm (s : Wired B) (l : WireLabel B) : Prop :=
  s.sys.conn.hasErr = false ∧ s.calm l = true ∧ s.sys.conn.seq.toNat + 1 < 2 ^ 64

instance (s : Wired B) (l : WireLabel B) : Decidable (s.Calm l) :=
  inferInstanceAs (Decidable (_ ∧ _ ∧ _))

def update (x : Diary) (s : Wired B) (l : WireLabel B) : Diary := x.update s.sys (s.label l)

variable [ClientTask B]

/-- The connection is made, and these responses will come. -/
def init (cfg : ConnConfig) (rs : List Resp) : Wired B :=
  ⟨Sys.init cfg, ⟨[], rs.flatMap Resp.frame⟩⟩

def next (cfg : ConnConfig) (s : Wired B) (l : WireLabel B) : Option (Wired B) :=
  (Sys.next cfg s.sys (s.label l)).map fun sys => ⟨sys, s.wireAfter l⟩

/-- No header is late while tasks are registered. -/
def patient (s : Wired B) (l : WireLabel B) : Bool := s.sys.patient (s.label l)

end Wired

/-! ## Tasks of the registry -/

/-- The responses decoded after the first `k`. -/
def Diary.decoded (x : Diary) (rs : List Resp) (k : ℕ) : List Resp := (rs.take x.heads.length).drop k

theorem Diary.decoded_subset {x x' : Diary} (h : x.heads.length ≤ x'.heads.length) (rs : List Resp)
    (k : ℕ) : x.decoded rs k ⊆ x'.decoded rs k := by
  rw [decoded, decoded, List.drop_take, List.drop_take]
  exact (List.take_prefix_take_left (by omega)).subset

variable [ClientTask B]

/-- The task was completed by one of the responses. -/
def Conn.Served (c : Conn B) (rs : List Resp) (t : Task B) : Prop :=
  ∃ r ∈ rs, r.seq = t.seq ∧ r.body.complete t ∈ c.completed

/-- The task was failed with `Timeout`, and its time was up. -/
def Conn.Expired (c : Conn B) (x : Diary) (taskTimeout : ℕ) (t : Task B) : Prop :=
  .errorHandled (t.setRpcError .timeout) ∈ c.completed ∧
    x.TimedOut taskTimeout (.errorHandled (t.setRpcError .timeout))

/-- What should become of a task of the registry once the responses `decoded` have
been decoded: it waits on, if none of them was for it; or it was completed by the one
that was; or its time was up. -/
def Conn.Honours (c : Conn B) (decoded : List Resp) (x : Diary) (taskTimeout : ℕ) (t : Task B) :
    Prop :=
  (t ∈ c.timer.pulled ∧ ∀ r ∈ decoded, r.seq ≠ t.seq) ∨ c.Served decoded t ∨
    c.Expired x taskTimeout t

section Kept

variable (rs : List Resp) (k taskTimeout : ℕ)

/-- A task got its response after the first `k`, or timed out. -/
def Conn.Fared (c : Conn B) (x : Diary) (t : Task B) : Prop :=
  c.Served (x.decoded rs k) t ∨ c.Expired x taskTimeout t

/-- How a task fares that was in the registry when `k` responses were decoded. -/
inductive Kept (c : Conn B) (x : Diary) (stage : Stage) (y : Answering B) (q : Heading)
    (t : Task B) : Prop
  /-- no response came for it -/
  | waits (h : t ∈ c.timer.pulled) (hnot : ∀ head ∈ x.heads.drop k, head.seq ≠ t.seq)
  /-- the header of its response has just been read -/
  | asked (h : t ∈ c.timer.pulled) (hstage : stage = .polling) (hasked : q = .headed t.seq)
  /-- its response is being read -/
  | taken (h : y.task = some t) (hk : k < x.heads.length)
  | fared (h : c.Fared rs k taskTimeout x t)

end Kept

section

variable {rs : List Resp} {k taskTimeout : ℕ} {c c' : Conn B} {x x' : Diary} {t : Task B}

theorem Conn.Fared.mono (h : c.Fared rs k taskTimeout x t)
    (hcompleted : c.completed ⊆ c'.completed) (hheads : x.heads.length ≤ x'.heads.length)
    (hticks : x.ticks ≤ x'.ticks)
    (hsince : ∀ d ∈ c.completed, x'.since d.id = x.since d.id) :
    c'.Fared rs k taskTimeout x' t := by
  rcases h with ⟨r, hr, hseq, hd⟩ | ⟨hd, task, heq, hlt⟩
  · exact Or.inl ⟨r, Diary.decoded_subset hheads rs k hr, hseq, hcompleted hd⟩
  · refine Or.inr ⟨hcompleted hd, task, heq, ?_⟩
    have hid := hsince _ hd
    rw [heq] at hid
    change x'.since task.id = x.since task.id at hid
    rw [hid]
    exact Nat.lt_of_lt_of_le hlt hticks

end

/-! ## What a step leaves alone -/

omit [ClientTask B] in
theorem RecvOp.completed_subset {arrival : Arrival} {o : RecvOp B} {c c' : Conn B}
    {a : Option o.Res} (h : exec arrival o c = (c', a)) : c.completed ⊆ c'.completed := by
  obtain rfl : (exec arrival o c).1 = c' := congrArg Prod.fst h
  cases o with
  | readHead cancellable =>
    rw [exec_readHead]
    exact List.Subset.refl _
  | readExact n =>
    rw [exec_readExact]
    exact List.Subset.refl _
  | done t => exact List.subset_append_left _ _
  | errorHandle t => exact List.subset_append_left _ _
  | _ => exact List.Subset.refl _

omit [ClientTask B] in
theorem SendOp.completed_subset {ok : Bool} {o : SendOp B} {c c' : Conn B} {a : o.Res}
    (h : exec ok o c = (c', some a)) : c.completed ⊆ c'.completed := by
  cases o with
  | regTask t =>
    obtain ⟨timer, -, rfl⟩ := exec_regTask h
    exact List.Subset.refl _
  | throttle =>
    rw [exec_throttle h]
    exact List.Subset.refl _
  | errorHandle t =>
    cases h
    exact List.subset_append_left _ _
  | _ =>
    cases h
    exact List.Subset.refl _

/-- A task that was pulled stays, unless it is asked for. -/
theorem RecvOp.exec_pulled {c : Conn B} (inv : c.Inv) {arrival : Arrival} {o : RecvOp B}
    {c' : Conn B} {a : Option o.Res} (h : exec arrival o c = (c', a)) {t : Task B}
    (ht : t ∈ c.timer.pulled)
    (hnot : ∀ seq, o = .takeTask seq ∨ o = .resumeTakeTask seq → t.seq ≠ seq) :
    t ∈ c'.timer.pulled := by
  obtain ⟨hi, htimer, -⟩ := inv.timer
  have hlive : t ∈ c.timer.live := List.mem_append_left _ ht
  have hkey : ∀ {seq : UInt64}, t.seq ≠ seq → t.key ≠ seq.toNat := fun hne hkey =>
    hne (UInt64.toNat_inj.mp hkey)
  refine (exec_turn h).mem_pulled htimer ht ?_
  obtain rfl : (exec arrival o c).1 = c' := congrArg Prod.fst h
  cases o with
  | readHead cancellable =>
    rw [exec_readHead]
    exact hlive
  | readExact n =>
    rw [exec_readExact]
    exact hlive
  | checkPendingTasksEmpty => exact (List.Perm.of_eq htimer.checkPendingTasksEmpty.2).mem_iff.mpr hlive
  | takeTask seq =>
    exact (htimer.takeTask seq.toNat).2.mem_live hlive (hkey (hnot seq (Or.inl rfl)))
  | resumeTakeTask seq =>
    exact (htimer.resumeTakeTask seq.toNat).2.mem_live hlive (hkey (hnot seq (Or.inr rfl)))
  | _ => exact hlive

namespace Sys

variable {cfg : ConnConfig} {s s' : Sys B} {l : Label B}

/-- What is completed stays completed. -/
theorem completed_subset (hnext : next cfg s l = some s') : s.conn.completed ⊆ s'.conn.completed := by
  obtain ⟨conn, sender, receiver, innerDropped⟩ := s
  cases l with
  | call call =>
    cases sender with
    | idle =>
      cases hnext
      cases call <;> exact List.Subset.refl _
    | running dropping p => cases hnext
    | gone => cases hnext
  | sender ok =>
    obtain ⟨⟨c, p⟩, hstep, rfl⟩ := Option.map_eq_some_iff.mp hnext
    cases stepSender_cases hstep with
    | finish dropping r => exact List.Subset.refl _
    | op dropping hexec =>
      have hsub := SendOp.completed_subset hexec
      exact hsub
  | receiver tick arrival =>
    obtain ⟨⟨c, r⟩, hstep, rfl⟩ := Option.map_eq_some_iff.mp hnext
    cases stepReceiver_cases hstep with
    | op hexec =>
      have hsub := RecvOp.completed_subset hexec
      exact hsub
    | wait hexec => exact RecvOp.completed_subset hexec
    | tick p => exact List.subset_append_left _ _
    | clean => exact List.subset_append_left _ _
    | drain => exact List.subset_append_left _ _
    | _ => exact List.Subset.refl _
  | dropInner =>
    simp only [next] at hnext
    split at hnext
    · cases hnext
      exact List.subset_append_left _ _
    · cases hnext

end Sys

section

variable {cfg : ConnConfig} {s : Sys B} {l : Label B}

omit [ClientTask B] in
theorem Diary.ticks_le_update (x : Diary) (s : Sys B) (l : Label B) :
    x.ticks ≤ (x.update s l).ticks := by
  unfold update
  split
  · split <;> exact Nat.le_refl _
  · split
    · split
      · exact Nat.le_succ _
      · exact Nat.le_refl _
    · exact Nat.le_refl _
    · exact Nat.le_refl _
  · exact Nat.le_refl _

omit [ClientTask B] in
theorem Diary.heads_prefix_update (x : Diary) (s : Sys B) (l : Label B) :
    x.heads <+: (x.update s l).heads := by
  unfold update
  split
  · split <;> exact List.prefix_refl _
  · split
    · split <;> exact List.prefix_refl _
    · exact List.prefix_append _ _
    · exact List.prefix_refl _
  · exact List.prefix_refl _

/-- The date of a task that is known does not change. -/
theorem Diary.since_update (x : Diary) (inv : s.Inv) {i : ℕ} (hi : i ∈ s.conn.placed) :
    (x.update s l).since i = x.since i := by
  have hsends := inv.sender
  unfold update
  split
  · split
    · rename_i hsender
      rw [hsender] at hsends
      exact Function.update_of_ne (inv.conn.owned_ne hsends.1.1 hi) _ _
    · rfl
  · split
    · split <;> rfl
    · rfl
    · rfl
  · rfl

end

/-- A task that is accounted for stays so. -/
theorem Conn.Fared.step {rs : List Resp} {k taskTimeout : ℕ} {cfg : ConnConfig} {s s' : Sys B}
    {l : Label B} {x : Diary} {t : Task B} (h : s.conn.Fared rs k taskTimeout x t)
    (inv : s.Inv) (hnext : Sys.next cfg s l = some s') :
    s'.conn.Fared rs k taskTimeout (x.update s l) t := by
  refine h.mono (Sys.completed_subset hnext) (x.heads_prefix_update s l).length_le
    (x.ticks_le_update s l) fun d hd => x.since_update inv ?_
  exact List.mem_append_right _ (List.mem_append_right _ (List.mem_append_left _
    (List.mem_map_of_mem hd)))

/-! ## The receive future -/

section Pace

variable (rs : List Resp) (k taskTimeout : ℕ) (T : List (Task B))

/-- How far the receive future has come, and how the tasks `T` have fared. -/
structure Pace (c : Conn B) (w : Wire) (x : Diary) (stage : Stage) (p : Recv B (Option RpcIntErr))
    (y : Answering B) (q : Heading) : Prop where
  fits : y.Fits c x.heads
  answers : Follows answering Answering.Ends y p
  asks : Follows heading Heading.Ends q p
  taken : w.taken.length ≤ Recv.wants p
  inStep : q ≠ .ended → InStep rs w.bytes x.heads y
  headed : ∀ seq, q = .headed seq → k < x.heads.length
  kept : ∀ t ∈ T, Kept rs k taskTimeout c x stage y q t

end Pace

section

variable {rs : List Resp} {k taskTimeout : ℕ} {c c' : Conn B} {x x' : Diary} {stage stage' : Stage}
  {y : Answering B} {q : Heading} {t : Task B}

/-- No header is read, and the registry keeps the task. -/
theorem Kept.mono (h : Kept rs k taskTimeout c x stage y q t)
    (hpulled : t ∈ c.timer.pulled → t ∈ c'.timer.pulled) (hheads : x'.heads = x.heads)
    (hfared : c.Fared rs k taskTimeout x t → c'.Fared rs k taskTimeout x' t)
    (hstage : stage = .polling → stage' = .polling) :
    Kept rs k taskTimeout c' x' stage' y q t := by
  cases h with
  | waits ht hnot =>
    refine .waits (hpulled ht) ?_
    rw [hheads]
    exact hnot
  | asked ht hpolling hasked => exact .asked (hpulled ht) (hstage hpolling) hasked
  | taken ht hk =>
    refine .taken ht ?_
    rw [hheads]
    exact hk
  | fared ht => exact .fared (hfared ht)

/-- The wait for a header ends. -/
theorem Kept.readHead {cancellable : Bool} {arrival : Arrival} {a : HeadRead}
    (h : Kept rs k taskTimeout c x .polling y .between t) (hwhole : y.Whole)
    (hexec : RecvOp.exec arrival (.readHead cancellable) c = (c', some a)) (y' : Answering B)
    (hfared : c.Fared rs k taskTimeout x t → c'.Fared rs k taskTimeout
      { x with heads := x.heads ++ ((.readHead cancellable : RecvOp B).headRead arrival).toList } t) :
    Kept rs k taskTimeout c'
      { x with heads := x.heads ++ ((.readHead cancellable : RecvOp B).headRead arrival).toList }
      .polling y' (.ofHead a) t := by
  cases h with
  | waits ht hnot =>
    obtain rfl : c = c' :=
      (RecvOp.exec_readHead arrival cancellable c).symm.trans (congrArg Prod.fst hexec)
    rcases Heading.ofHead_cases hexec with ⟨head, hread, hasks⟩ | ⟨hread, -⟩
    · rw [hread, hasks]
      by_cases hseq : head.seq = t.seq
      · exact .asked ht rfl (congrArg _ hseq)
      · refine .waits ht fun head' hhead' => ?_
        change head' ∈ (x.heads ++ [head]).drop k at hhead'
        rw [List.drop_append] at hhead'
        rcases List.mem_append.mp hhead' with hhead' | hhead'
        · exact hnot head' hhead'
        · rw [List.mem_singleton.mp (List.mem_of_mem_drop hhead')]
          exact hseq
    · rw [hread, Option.toList_none, List.append_nil]
      exact .waits ht hnot
  | asked ht hpolling hasked => cases hasked
  | taken ht hk => cases hwhole.1.symm.trans ht
  | fared ht => exact .fared (hfared ht)

/-- No header is read, and the task asked for is not this one. -/
theorem Kept.pass (h : Kept rs k taskTimeout c x stage y q t)
    (hnot : t ∈ c.timer.pulled → q ≠ .headed t.seq)
    (hpulled : (∀ head ∈ x.heads.drop k, head.seq ≠ t.seq) → t ∈ c.timer.pulled →
      t ∈ c'.timer.pulled) {y' : Answering B}
    (htask : y.task = some t → k < x.heads.length →
      y'.task = some t ∨ c'.Fared rs k taskTimeout x t)
    (hfared : c.Fared rs k taskTimeout x t → c'.Fared rs k taskTimeout x t)
    (q' : Heading) : Kept rs k taskTimeout c' x stage' y' q' t := by
  cases h with
  | waits ht hne => exact .waits (hpulled hne ht) hne
  | asked ht hpolling hasked => exact absurd hasked (hnot ht)
  | taken ht hk =>
    rcases htask ht hk with ht | ht
    · exact .taken ht hk
    · exact .fared ht
  | fared ht => exact .fared (hfared ht)

/-- The task a header asks for is taken. -/
theorem Kept.take {seq : UInt64} (h : Kept rs k taskTimeout c x stage y (.headed seq) t)
    (hfresh : y.Fresh seq) (hk : k < x.heads.length)
    (hlast : ∀ head ∈ y.head, head ∈ x.heads.drop k) {found : Option (Task B)}
    (hfound : t ∈ c.timer.pulled → t.seq = seq → found = some t)
    (hpulled : t ∈ c.timer.pulled → t.seq ≠ seq → t ∈ c'.timer.pulled)
    (hfared : c.Fared rs k taskTimeout x t → c'.Fared rs k taskTimeout x t) :
    Kept rs k taskTimeout c' x stage (y.take seq found) .between t := by
  obtain ⟨hnone, -, head, hhead, rfl⟩ := hfresh
  cases h with
  | waits ht hne => exact .waits (hpulled ht (hne head (hlast head hhead)).symm) hne
  | asked ht hpolling hasked =>
    have hseq : t.seq = head.seq := (Heading.headed.inj hasked).symm
    refine .taken ?_ hk
    rw [hfound ht hseq, Answering.take, Option.all_some, decide_eq_true hseq, if_pos rfl]
  | taken ht hk => cases hnone.symm.trans ht
  | fared ht => exact .fared (hfared ht)

end

namespace Pace

variable {rs : List Resp} {k taskTimeout : ℕ} {T : List (Task B)} {c c' : Conn B} {w : Wire}
  {x x' : Diary} {stage stage' : Stage} {p : Recv B (Option RpcIntErr)} {y : Answering B}
  {q : Heading}

/-- The receive future does not move. -/
theorem move (h : Pace rs k taskTimeout T c w x stage p y q) (hheads : x'.heads = x.heads)
    (hfits : y.Fits c' x.heads) (hkept : ∀ t ∈ T, Kept rs k taskTimeout c x stage y q t →
      Kept rs k taskTimeout c' x' stage' y q t) :
    Pace rs k taskTimeout T c' w x' stage' p y q := by
  refine ⟨?_, h.answers, h.asks, h.taken, ?_, ?_, fun t ht => hkept t ht (h.kept t ht)⟩
  · rw [hheads]
    exact hfits
  · rw [hheads]
    exact h.inStep
  · rw [hheads]
    exact h.headed

/-- How far the receive future has come does not matter. -/
theorem recv (h : Pace rs k taskTimeout T c w x stage p y q) (r : RecvPhase) :
    Pace rs k taskTimeout T { c with recv := r } w x stage p y q :=
  h.move rfl (h.fits.congr id id fun _ => id) fun _ _ hkept => hkept.mono id rfl id id

variable {o : RecvOp B} {next : o.Res → Recv B (Option RpcIntErr)} {arrival : Arrival}

/-- The tasks, when an operation other than the read of a header is answered. -/
theorem kept_exec (h : Pace rs k taskTimeout T c w x .polling (.act o next) y q) (inv : c.Inv)
    (hhead : ∀ cancellable, o ≠ .readHead cancellable) {a : o.Res}
    (hexec : RecvOp.exec arrival o c = (c', some a)) {t : Task B} (ht : t ∈ T) :
    Kept rs k taskTimeout c' x .polling (answering.next y o a) (heading.next q o a) t := by
  obtain ⟨hi, htimer, -⟩ := inv.timer
  have hkept := h.kept t ht
  have hok := h.answers.1.resolve_left (by rw [h.fits.excused]; exact Bool.noConfusion)
  have hasks := h.asks.1
  have hfared : c.Fared rs k taskTimeout x t → c'.Fared rs k taskTimeout x t :=
    fun ht => ht.mono (RecvOp.completed_subset hexec) (Nat.le_refl _) (Nat.le_refl _) fun _ _ => rfl
  have hstays : t ∈ c.timer.pulled →
      (∀ seq, o = .takeTask seq ∨ o = .resumeTakeTask seq → t.seq ≠ seq) → t ∈ c'.timer.pulled :=
    fun ht hnot => RecvOp.exec_pulled inv hexec ht hnot
  by_cases htakes : ∃ seq, o = .takeTask seq ∨ o = .resumeTakeTask seq
  · obtain ⟨seq, htakes⟩ := htakes
    obtain rfl := heading_takes hasks htakes
    have hk := h.headed seq rfl
    have hlast : ∀ head ∈ y.head, head ∈ x.heads.drop k := fun head hhead =>
      (h.inStep (by rintro ⟨⟩)).head_mem_drop hhead hk
    rcases htakes with rfl | rfl
    · have hfound : (c.timer.takeTask seq.toNat).2 = a := Option.some.inj (congrArg Prod.snd hexec)
      have hstays : t ∈ c.timer.pulled → t.seq ≠ seq → t ∈ c'.timer.pulled := fun ht hne =>
        hstays ht fun seq' h => by
          rcases h with h | h
          · cases h
            exact hne
          · cases h
      have htaken : t ∈ c.timer.pulled → t.seq = seq → a = some (some t) := fun ht hseq => by
        rw [← hfound, ← hseq]
        exact (htimer.takeTask_of_pulled ht).1
      cases a with
      | none =>
        obtain ⟨-, -, head, hhead, hseq⟩ := hok
        refine hkept.pass (fun ht hasked => ?_) (fun hne ht => hstays ht ?_)
          (fun ht _ => Or.inl ht) hfared _
        · cases htaken ht (Heading.headed.inj hasked).symm
        · rw [← hseq]
          exact (hne head (hlast head hhead)).symm
      | some found =>
        exact hkept.take hok hk hlast (fun ht hseq => Option.some.inj (htaken ht hseq)) hstays
          hfared
    · have hfound : (c.timer.resumeTakeTask seq.toNat).2 = some a := congrArg Prod.snd hexec
      have hstays : t ∈ c.timer.pulled → t.seq ≠ seq → t ∈ c'.timer.pulled := fun ht hne =>
        hstays ht fun seq' h => by
          rcases h with h | h
          · cases h
          · cases h
            exact hne
      refine hkept.take hok hk hlast (fun ht hseq => ?_) hstays hfared
      rw [← hseq] at hfound
      exact Option.some.inj (hfound.symm.trans (htimer.takeTask_of_pulled ht).2)
  have hheaded : t ∈ c.timer.pulled → q ≠ .headed t.seq := fun _ hq => by
    subst hq
    exact htakes ⟨_, heading_headed hasks⟩
  have hpass : ∀ {y' : Answering B}, (y.task = some t → k < x.heads.length →
      y'.task = some t ∨ c'.Fared rs k taskTimeout x t) →
      ∀ q', Kept rs k taskTimeout c' x .polling y' q' t := fun htask q' =>
    hkept.pass hheaded (fun _ ht => hstays ht fun seq h => absurd ⟨seq, h⟩ htakes) htask hfared q'
  -- the task that is completed got the last response
  have hserved : ∀ {d : Completion B}, y.Answers d → d ∈ c'.completed → q ≠ .ended →
      y.task = some t → k < x.heads.length → c'.Fared rs k taskTimeout x t := by
    intro d hd hmem hq ht hk
    obtain ⟨r, hr, hseq, rfl⟩ := (h.inStep hq).served h.fits hk ht hd
    exact Or.inl ⟨r, hr, hseq, hmem⟩
  cases o with
  | readHead cancellable => exact absurd rfl (hhead cancellable)
  | takeTask seq => exact absurd ⟨seq, Or.inl rfl⟩ htakes
  | resumeTakeTask seq => exact absurd ⟨seq, Or.inr rfl⟩ htakes
  | done t' =>
    have hq : q ≠ .ended := fun hq => by
      subst hq
      cases heading_ended hasks
    cases hexec
    have hmem := List.mem_append_right c.completed (List.mem_singleton_self (Completion.done t'))
    exact hpass (fun ht hk => Or.inr (hserved hok hmem hq ht hk)) _
  | errorHandle t' =>
    have hq : q ≠ .ended := fun hq => by
      subst hq
      cases heading_ended hasks
    cases hexec
    have hmem := List.mem_append_right c.completed
      (List.mem_singleton_self (Completion.errorHandled t'))
    exact hpass (fun ht hk => Or.inr (hserved hok hmem hq ht hk)) _
  | readExact n =>
    refine hpass (fun ht _ => Or.inl ?_) _
    change (y.readExact n a).task = some t
    unfold Answering.readExact
    split
    · split
      · exact ht
      · exact ht
    · exact ht
  | loadHasErr =>
    refine hpass (fun ht _ => Or.inl ?_) _
    cases a with
    | true => exact ht
    | false => exact ht
  | panic => cases a
  | _ =>
    refine hpass (fun ht _ => Or.inl ?_) _
    exact ht

/-- What arrives is one of the responses. -/
theorem undisturbed (h : Pace rs k taskTimeout T c w x .polling (.act o next) y q) {n : Option ℕ}
    (hcalm : o.calm n = true) : o.undisturbed (o.sees (w.feed o n) n) = true := by
  by_cases hq : q = .ended
  · subst hq
    obtain rfl := heading_ended h.asks.1
    rfl
  · exact RecvOp.undisturbed_sees (h.inStep hq) h.fits.excused h.answers.1 hcalm

/-- An operation is answered. -/
theorem op (h : Pace rs k taskTimeout T c w x .polling (.act o next) y q) (inv : c.Inv)
    (herr : c.hasErr = false) (hk : k ≤ x.heads.length) {n : Option ℕ} (hcalm : o.calm n = true)
    (hpatient : o.patient c (o.sees (w.feed o n) n) = true)
    (hgentle : o.gentle c (w.feed o n) = true) {a : o.Res}
    (hexec : RecvOp.exec (o.sees (w.feed o n) n) o c = (c', some a)) :
    Pace rs k taskTimeout T c' ((w.feed o n).answered (some a))
      { x with heads := x.heads ++ (o.headRead (o.sees (w.feed o n) n)).toList } .polling (next a)
      (answering.next y o a) (heading.next q o a) := by
  have htaken : (w.feed o n).taken.length ≤ o.wants := Wire.length_taken_feed h.taken n
  have hcalm' := h.undisturbed hcalm
  have hexcused := h.fits.excused
  refine ⟨RecvOp.fits_exec inv herr h.fits h.answers.1 hcalm' hpatient hexec, h.answers.step a,
    h.asks.step a, Nat.zero_le _, fun hended => ?_, ?_, fun t ht => ?_⟩
  · have hq : q ≠ .ended := fun hq => by
      subst hq
      obtain rfl := heading_ended h.asks.1
      exact hended rfl
    have hinStep := h.inStep hq
    rw [← w.bytes_feed o n] at hinStep
    exact RecvOp.inStep_exec hinStep hexcused h.answers.1 hcalm htaken hgentle hexec hended
  · intro seq hseq
    rw [List.length_append]
    by_cases hhead : ∃ cancellable, o = .readHead cancellable
    · obtain ⟨cancellable, rfl⟩ := hhead
      rcases Heading.ofHead_cases hexec with ⟨head, hread, -⟩ | ⟨-, hnot⟩
      · rw [hread]
        exact Nat.lt_succ_of_le hk
      · exact absurd hseq (hnot seq)
    · have hsame : q = .headed seq := by
        cases o with
        | readHead cancellable => exact absurd ⟨cancellable, rfl⟩ hhead
        | takeTask seq' =>
          cases a with
          | none => exact hseq
          | some found => cases hseq
        | resumeTakeTask seq' => cases hseq
        | _ => exact hseq
      exact Nat.lt_add_right _ (h.headed seq hsame)
  · by_cases hhead : ∃ cancellable, o = .readHead cancellable
    · obtain ⟨cancellable, rfl⟩ := hhead
      obtain rfl := heading_between h.asks.1
      have hok := h.answers.1.resolve_left (by rw [hexcused]; exact Bool.noConfusion)
      refine (h.kept t ht).readHead hok.1 hexec _ fun ht => ?_
      refine ht.mono (RecvOp.completed_subset hexec) ?_ (Nat.le_refl _) fun _ _ => rfl
      exact (List.prefix_append _ _).length_le
    · have hnone : o.headRead (o.sees (w.feed o n) n) = none := by
        cases o with
        | readHead cancellable => exact absurd ⟨cancellable, rfl⟩ hhead
        | _ => rfl
      rw [hnone, Option.toList_none, List.append_nil]
      exact h.kept_exec inv (fun cancellable ho => hhead ⟨cancellable, ho⟩) hexec ht

/-- An operation waits. -/
theorem wait (h : Pace rs k taskTimeout T c w x .polling (.act o next) y q) (inv : c.Inv)
    {n : Option ℕ} (hexec : RecvOp.exec (o.sees (w.feed o n) n) o c = (c', none)) :
    Pace rs k taskTimeout T c' (w.feed o n)
      { x with heads := x.heads ++ (o.headRead (o.sees (w.feed o n) n)).toList } .suspended
      (.act o next) y q := by
  obtain ⟨hi, htimer, -⟩ := inv.timer
  obtain ⟨hcloseTx, -, -, hcloses, -⟩ := RecvOp.exec_shared hexec
  have hlive := RecvOp.exec_live inv hexec
  rw [RecvOp.headRead_of_waits hexec, Option.toList_none, List.append_nil]
  refine ⟨h.fits.congr hcloses (fun h => hcloseTx.trans h) fun _ hnil => ?_, h.answers, h.asks,
    Wire.length_taken_feed h.taken n, fun hq => ?_, h.headed, fun t ht => ?_⟩
  · rw [hnil] at hlive
    exact List.subset_nil.mp hlive
  · rw [w.bytes_feed]
    exact h.inStep hq
  · -- a task that was pulled would have been found
    have hnot : ∀ {t : Task B} {seq : UInt64}, t ∈ c.timer.pulled → o = .takeTask seq ∨
        o = .resumeTakeTask seq → t.seq ≠ seq := by
      rintro t seq ht (rfl | rfl) rfl
      · cases hexec
      · have hnone : (c.timer.resumeTakeTask t.key).2 = none := congrArg Prod.snd hexec
        cases (htimer.takeTask_of_pulled ht).2.symm.trans hnone
    refine (h.kept t ht).pass (fun ht hq => ?_) (fun _ ht => ?_) (fun ht _ => Or.inl ht)
      (fun ht => ?_) q
    · subst hq
      exact hnot ht (heading_headed h.asks.1) rfl
    · exact RecvOp.exec_pulled inv hexec ht fun seq => hnot ht
    · exact ht.mono (RecvOp.completed_subset hexec) (Nat.le_refl _) (Nat.le_refl _) fun _ _ => rfl

/-- A second passes. -/
theorem tick (h : Pace rs k taskTimeout T c w x stage p y q) (inv : c.Inv)
    (hdates : x.Dates c.timer) (htimeout : c.timer.taskTimeout = taskTimeout) :
    Pace rs k taskTimeout T c.timeReach w { x with ticks := x.ticks + 1 } stage p y q := by
  obtain ⟨hi, htimer, -⟩ := inv.timer
  obtain ⟨-, late, hlive, hlate⟩ := htimer.adjustTaskQueue
  have hfits : y.Fits c.timeReach x.heads := h.fits.congr id id fun _ hnil => by
    rw [hnil] at hlive
    exact (List.append_eq_nil_iff.mp hlive.symm).2
  refine h.move rfl hfits fun t ht hkept => ?_
  have hsub : c.completed ⊆ c.timeReach.completed := List.subset_append_left _ _
  have hfared : c.Fared rs k taskTimeout x t →
      c.timeReach.Fared rs k taskTimeout { x with ticks := x.ticks + 1 } t := fun ht =>
    ht.mono hsub (Nat.le_refl _) (Nat.le_succ _) fun _ _ => rfl
  -- it stays, or its time is up
  have hstays : t ∈ c.timer.pulled → t ∈ c.timeReach.timer.pulled ∨
      c.timeReach.Fared rs k taskTimeout { x with ticks := x.ticks + 1 } t := fun ht => by
    have hmem : t ∈ late ++ c.timer.adjustTaskQueue.1.live :=
      hlive ▸ List.mem_append_left _ ht
    rcases List.mem_append.mp hmem with hmem | hmem
    · have hfailed : t.setRpcError .timeout ∈ c.timer.adjustTaskQueue.2 := by
        rw [hlate]
        exact List.mem_map_of_mem hmem
      refine Or.inr (Or.inr ⟨List.mem_append_right _ (List.mem_map_of_mem hfailed), ?_⟩)
      rw [← htimeout]
      exact hdates.timedOut hfailed
    · exact Or.inl ((ClientTaskTimer.turn_adjustTaskQueue c.timer).mem_pulled htimer ht hmem)
  cases hkept with
  | waits ht hnot =>
    rcases hstays ht with ht | ht
    · exact .waits ht hnot
    · exact .fared ht
  | asked ht hpolling hasked =>
    rcases hstays ht with ht | ht
    · exact .asked ht hpolling hasked
    · exact .fared ht
  | taken ht hk => exact .taken ht hk
  | fared ht => exact .fared (hfared ht)

/-- What is in the channel is pulled. -/
theorem pull (h : Pace rs k taskTimeout T c w x .pulling p y q) (inv : c.Inv) :
    Pace rs k taskTimeout T (c.setTimer c.timer.pullPending) w x .polling p y q := by
  obtain ⟨hi, htimer, -⟩ := inv.timer
  have hlive := htimer.pullPending.2
  refine h.move rfl (h.fits.congr id id fun _ hnil => hlive.trans hnil) fun t ht hkept => ?_
  refine hkept.mono (fun ht => ?_) rfl id nofun
  refine (ClientTaskTimer.turn_pullPending c.timer).mem_pulled htimer ht ?_
  rw [hlive]
  exact List.mem_append_left _ ht

/-- Another turn begins. -/
theorem again {pf : Platform} (halloc : ∀ n, 0 < n → pf.alloc n = true)
    (hreserve : ReservesExactly B) (h : Pace rs k taskTimeout T c w x .polling (.ret none) y q) :
    Pace rs k taskTimeout T c w x .polling (recvOneResp pf) y q := by
  have hexcused : ¬ y.excused = true := by
    rw [h.fits.excused]
    exact Bool.noConfusion
  obtain ⟨hwhole, -⟩ := h.answers.resolve_left hexcused
  obtain rfl : q = .between := by
    cases q with
    | between => rfl
    | headed seq => exact h.asks.elim
    | ended => cases h.asks
  exact ⟨h.fits, answering_recvOneResp halloc hreserve hwhole, heading_recvOneResp pf,
    Nat.le_trans h.taken (Nat.zero_le _), h.inStep, h.headed, h.kept⟩

/-- The receive future ends. -/
theorem fail {e : RpcIntErr} (h : Pace rs k taskTimeout T c w x stage (.ret (some e)) y q) {t : Task B}
    (ht : t ∈ T) : c.Fared rs k taskTimeout x t := by
  have hexcused : ¬ y.excused = true := by
    rw [h.fits.excused]
    exact Bool.noConfusion
  obtain ⟨hwhole, hleaving⟩ := h.answers.resolve_left hexcused
  have hempty : t ∉ c.timer.pulled := fun hpulled => by
    have hlive : t ∈ c.timer.live := List.mem_append_left _ hpulled
    rw [(h.fits.leaving (hleaving rfl)).2] at hlive
    cases hlive
  cases h.kept t ht with
  | waits ht hnot => exact absurd ht hempty
  | asked ht hpolling hasked => exact absurd ht hempty
  | taken ht hk => cases hwhole.1.symm.trans ht
  | fared ht => exact ht

/-- A receive future that waits for a header is between two responses. -/
theorem waiting {cancellable : Bool} {next : HeadRead → Recv B (Option RpcIntErr)}
    (h : Pace rs k taskTimeout T c w x stage (.act (.readHead cancellable) next) y q) :
    y.Whole ∧ q = .between := by
  have hok := h.answers.1.resolve_left (by rw [h.fits.excused]; exact Bool.noConfusion)
  exact ⟨hok.1, heading_between h.asks.1⟩

/-- The tasks, while a header is waited for. -/
theorem honours {cancellable : Bool} {next : HeadRead → Recv B (Option RpcIntErr)}
    (h : Pace rs k taskTimeout T c w x stage (.act (.readHead cancellable) next) y q) {t : Task B}
    (ht : t ∈ T) : c.Honours (x.decoded rs k) x taskTimeout t := by
  obtain ⟨hwhole, rfl⟩ := h.waiting
  have hheads := (h.inStep nofun).heads_eq
  cases h.kept t ht with
  | waits ht hnot =>
    refine Or.inl ⟨ht, fun r hr => ?_⟩
    have hhead : r.head ∈ x.heads.drop k := by
      rw [hheads, ← List.map_drop]
      exact List.mem_map_of_mem hr
    rw [← r.head_seq]
    exact hnot r.head hhead
  | asked ht hpolling hasked => cases hasked
  | taken ht hk => cases hwhole.1.symm.trans ht
  | fared ht => exact Or.inr ht

/-- The header that comes next is that of the next response. -/
theorem next_head {cancellable : Bool} {next : HeadRead → Recv B (Option RpcIntErr)}
    (h : Pace rs k taskTimeout T c w x stage (.act (.readHead cancellable) next) y q) {r : Resp}
    (hr : rs[x.heads.length]? = some r) {n : ℕ} (hn : rpcRespHeaderLen ≤ w.taken.length + n) :
    (.readHead cancellable : RecvOp B).headRead ((.readHead cancellable : RecvOp B).sees
      (w.feed (.readHead cancellable : RecvOp B) (some n)) (some n)) = some r.head := by
  obtain ⟨hwhole, rfl⟩ := h.waiting
  have hinStep := h.inStep nofun
  have htaken : w.taken.length ≤ rpcRespHeaderLen := h.taken
  -- there are enough bytes
  have hbytes : rpcRespHeaderLen ≤ w.taken.length + w.incoming.length := by
    obtain ⟨hlt, hget⟩ := List.getElem?_eq_some_iff.mp hr
    have hframe := congrArg List.length (hinStep.whole hwhole)
    rw [List.drop_eq_getElem_cons hlt, hget, List.flatMap_cons, Resp.frame, List.length_append,
      List.length_append, RespHead.length_toBytes, Wire.bytes, List.length_append] at hframe
    omega
  have hlen : (w.feed (.readHead cancellable : RecvOp B) (some n)).taken.length =
      rpcRespHeaderLen := by
    change (w.taken ++ w.incoming.take (min n (rpcRespHeaderLen - w.taken.length))).length = _
    rw [List.length_append, List.length_take]
    omega
  rw [← w.bytes_feed (.readHead cancellable : RecvOp B) (some n)] at hinStep
  obtain ⟨r', hr', hbs, -⟩ := hinStep.readHead hwhole hlen
  obtain rfl : r = r' := Option.some.inj (hr.symm.trans hr')
  have hsees : (.readHead cancellable : RecvOp B).sees
      (w.feed (.readHead cancellable : RecvOp B) (some n)) (some n) = .bytes r.head.toBytes := by
    rw [← hbs]
    exact if_pos hlen
  rw [hsees, RecvOp.headRead, if_pos (RespHead.length_toBytes _), r.decodeHead_toBytes]
  rfl

end Pace

/-! ## The system -/

/-- What the receive loop keeps of the stream and of the tasks. -/
def Receiver.Paces (rs : List Resp) (k taskTimeout : ℕ) (T : List (Task B)) (c : Conn B) (w : Wire)
    (x : Diary) : Receiver B → Prop
  | .future stage p => ∃ y q, Pace rs k taskTimeout T c w x stage p y q
  | _ => ∀ t ∈ T, c.Fared rs k taskTimeout x t

/-- The receive loop does not move. -/
theorem Receiver.Paces.mono {rs : List Resp} {k taskTimeout : ℕ} {T : List (Task B)} {c c' : Conn B}
    {w : Wire} {x x' : Diary} {r : Receiver B} (h : r.Paces rs k taskTimeout T c w x)
    (hheads : x'.heads = x.heads) (hclosed : c.closed = true → c'.closed = true)
    (hcloseTx : c.closeTx = false → c'.closeTx = false)
    (hlive : c.closed = true → c.timer.live = [] → c'.timer.live = [])
    (hpulled : c.timer.pulled ⊆ c'.timer.pulled)
    (hfared : ∀ t, c.Fared rs k taskTimeout x t → c'.Fared rs k taskTimeout x' t) :
    r.Paces rs k taskTimeout T c' w x' := by
  cases r with
  | future stage p =>
    obtain ⟨y, q, hpace⟩ := h
    refine ⟨y, q, hpace.move hheads (hpace.fits.congr hclosed hcloseTx hlive) fun t ht hkept => ?_⟩
    exact hkept.mono (fun ht => hpulled ht) hheads (hfared t) id
  | failed | cleaning | draining | sleeping | returned | panicked =>
    exact fun t ht => hfared t (h t ht)

/-- What the receiver sees of a step of the others. -/
theorem Sys.Lingering.aside {cfg : ConnConfig} {s s' : Sys B} {x : Diary} (h : Lingering cfg s x)
    {l : Label B} (hl : ∀ tick arrival, l ≠ .receiver tick arrival) (hok : Undisturbed s l)
    (hnext : next cfg s l = some s') :
    (s'.receiver = s.receiver ∧ (x.update s l).heads = x.heads) ∧
      (s.conn.closed = true → s'.conn.closed = true) ∧
      (s.conn.closeTx = false → s'.conn.closeTx = false) ∧
      (s.conn.closed = true → s.conn.timer.live = [] → s'.conn.timer.live = []) ∧
      s.conn.timer.pulled ⊆ s'.conn.timer.pulled := by
  have hreceives := h.receiver
  obtain ⟨conn, sender, receiver, innerDropped⟩ := s
  cases l with
  | receiver tick arrival => exact absurd rfl (hl tick arrival)
  | call call =>
    cases sender with
    | idle =>
      cases hnext
      cases call <;> exact ⟨⟨rfl, rfl⟩, id, id, fun _ => id, List.Subset.refl _⟩
    | running dropping p => cases hnext
    | gone => cases hnext
  | sender ok =>
    obtain ⟨⟨c, p⟩, hstep, rfl⟩ := Option.map_eq_some_iff.mp hnext
    cases stepSender_cases hstep with
    | finish dropping r => exact ⟨⟨rfl, rfl⟩, id, id, fun _ => id, List.Subset.refl _⟩
    | @op dropping o k c' a hexec =>
      obtain ⟨hcloses, hcloseTx⟩ := SendOp.exec_closes hexec
      by_cases hreg : ∃ t, o = .regTask t
      · obtain ⟨t, rfl⟩ := hreg
        have hopen := h.open_of_regTask hok.1 rfl
        obtain ⟨timer, hreg, rfl⟩ := SendOp.exec_regTask hexec
        obtain rfl := ClientTaskTimer.regTask_eq hreg
        refine ⟨⟨rfl, rfl⟩, id, id, fun hclosed => ?_, List.Subset.refl _⟩
        exact absurd (hopen.symm.trans hclosed) Bool.noConfusion
      · have hreg : ∀ t, o ≠ .regTask t := fun t ht => hreg ⟨t, ht⟩
        obtain ⟨-, hbatches, hpending, -⟩ := SendOp.exec_tasks hreg hexec
        obtain ⟨hsent, hdelay⟩ := List.cons.inj hbatches
        have hpulled : c'.timer.pulled = conn.timer.pulled := by
          rw [ClientTaskTimer.pulled, hsent, hdelay]
          rfl
        have hlive : c'.timer.live = conn.timer.live := by
          rw [ClientTaskTimer.live, hpulled, hpending]
          rfl
        refine ⟨⟨rfl, ?_⟩, hcloses, hcloseTx, fun _ hnil => hlive.trans hnil, ?_⟩
        · cases o with
          | regTask t => exact absurd rfl (hreg t)
          | _ => rfl
        · exact (List.Perm.of_eq hpulled).symm.subset
  | dropInner =>
    simp only [next] at hnext
    split at hnext
    · rename_i hunused
      cases hnext
      rw [innerUnused, Bool.and_eq_true, Bool.and_eq_true] at hunused
      have hnil : conn.timer.live = [] := by
        cases receiver with
        | returned => exact hreceives.2
        | panicked => exact hreceives.elim
        | _ => cases hunused.1.2
      refine ⟨⟨rfl, rfl⟩, id, id, fun _ _ => h.inv.conn.clean.2, ?_⟩
      rw [(List.append_eq_nil_iff.mp hnil).1]
      exact List.nil_subset _
    · cases hnext

namespace Wired

/-- The invariant, for the tasks `T` that were in the registry when `k` responses were
decoded. -/
structure Keeping (cfg : ConnConfig) (rs : List Resp) (k : ℕ) (T : List (Task B)) (s : Wired B)
    (x : Diary) : Prop where
  lingering : s.sys.Lingering cfg x
  since : k ≤ x.heads.length
  heads : x.heads = (rs.take x.heads.length).map Resp.head
  receiver : s.sys.receiver.Paces rs k cfg.taskTimeout T s.sys.conn s.wire x

namespace Keeping

variable {cfg : ConnConfig} {rs : List Resp} {k : ℕ} {T : List (Task B)} {s s' : Wired B} {x : Diary}

/-- The receive future that is at an operation. -/
theorem pace (h : Keeping cfg rs k T s x) {o : RecvOp B} (hop : s.sys.receiver.op = some o) :
    ∃ next y q, s.sys.receiver = .future .polling (.act o next) ∧
      Pace rs k cfg.taskTimeout T s.sys.conn s.wire x .polling (.act o next) y q := by
  obtain ⟨next, hreceiver⟩ := Receiver.op_eq_some hop
  have hpaces := h.receiver
  rw [hreceiver] at hpaces
  obtain ⟨y, q, hpace⟩ := hpaces
  exact ⟨next, y, q, hreceiver, hpace⟩

/-- A connection that works gives no cause for complaint. -/
theorem undisturbed (h : Keeping cfg rs k T s x) {l : WireLabel B} (hcalm : s.Calm l) :
    Sys.Undisturbed s.sys (s.label l) := by
  obtain ⟨herr, hcalm, hwrap⟩ := hcalm
  refine ⟨herr, ?_, hwrap⟩
  cases l with
  | receiver tick bytes =>
    change s.sys.receiver.op.all (·.undisturbed (s.arrival bytes)) = true
    rw [arrival]
    rcases hop : s.sys.receiver.op with _ | o
    · rfl
    · obtain ⟨next, y, q, -, hpace⟩ := h.pace hop
      have hcalm : s.sys.receiver.op.all (·.calm bytes) = true := hcalm
      rw [hop] at hcalm
      exact hpace.undisturbed hcalm
  | sender ok => exact hcalm
  | call call => rfl
  | dropInner => rfl

/-- The receiver and its stream after an operation. -/
theorem op (h : Keeping cfg rs k T s x) {o : RecvOp B} {next : o.Res → Recv B (Option RpcIntErr)}
    (hreceiver : s.sys.receiver = .future .polling (.act o next))
    (herr : s.sys.conn.hasErr = false) {n : Option ℕ} (hcalm : o.calm n = true)
    (hpatient : o.patient s.sys.conn (o.sees (s.wire.feed o n) n) = true)
    (hgentle : o.gentle s.sys.conn (s.wire.feed o n) = true) {c' : Conn B} {a : o.Res}
    (hexec : RecvOp.exec (o.sees (s.wire.feed o n) n) o s.sys.conn = (c', some a)) :
    ∃ y q, Pace rs k cfg.taskTimeout T c' ((s.wire.feed o n).answered (some a))
        { x with heads := x.heads ++ (o.headRead (o.sees (s.wire.feed o n) n)).toList } .polling
        (next a) y q ∧
      (o.headRead (o.sees (s.wire.feed o n) n) = none ∨ q ≠ .ended) := by
  have hpaces := h.receiver
  rw [hreceiver] at hpaces
  obtain ⟨y, q, hpace⟩ := hpaces
  have hpace' := hpace.op h.lingering.inv.conn herr h.since hcalm hpatient hgentle hexec
  refine ⟨_, _, hpace', ?_⟩
  cases o with
  | readHead cancellable =>
    rcases Heading.ofHead_cases hexec with ⟨head, -, hasks⟩ | ⟨hread, -⟩
    · refine Or.inr ?_
      change Heading.ofHead a ≠ .ended
      rw [hasks]
      exact nofun
    · exact Or.inl hread
  | _ => exact Or.inl rfl

section Receiver

variable (halloc : ∀ n, 0 < n → cfg.platform.alloc n = true) (hreserve : ReservesExactly B)

include halloc hreserve

/-- A step of the receive loop. -/
theorem receiver_step (h : Keeping cfg rs k T s x) {tick : Bool} {bytes : Option ℕ}
    (hcalm : s.Calm (.receiver tick bytes)) (hpatient : s.patient (.receiver tick bytes) = true)
    (hgentle : s.gentle (.receiver tick bytes) = true)
    (hnext : next cfg s (.receiver tick bytes) = some s') :
    Keeping cfg rs k T s' (update x s (.receiver tick bytes)) := by
  obtain ⟨sys', hsys, rfl⟩ := Option.map_eq_some_iff.mp hnext
  have hok := h.undisturbed hcalm
  have hlingering := h.lingering.step halloc hreserve hok hpatient hsys
  have hsince := Nat.le_trans h.since
    (x.heads_prefix_update s.sys (s.label (.receiver tick bytes))).length_le
  have inv := h.lingering.inv.conn
  -- what is known of the tasks outlives the receive future
  have hfared : (∀ t ∈ T, s.sys.conn.Fared rs k cfg.taskTimeout x t) → ∀ t ∈ T,
      sys'.conn.Fared rs k cfg.taskTimeout (update x s (.receiver tick bytes)) t :=
    fun hfared t ht => (hfared t ht).step h.lingering.inv hsys
  suffices hsteps : (update x s (.receiver tick bytes)).heads =
        (rs.take (update x s (.receiver tick bytes)).heads.length).map Resp.head ∧
      sys'.receiver.Paces rs k cfg.taskTimeout T sys'.conn (s.wireAfter (.receiver tick bytes))
        (update x s (.receiver tick bytes)) from ⟨hlingering, hsince, hsteps.1, hsteps.2⟩
  obtain ⟨⟨c, r⟩, hstep, rfl⟩ := Option.map_eq_some_iff.mp hsys
  have hpaces := h.receiver
  have hdates := h.lingering.dates
  have htimeout := h.lingering.timeout
  obtain ⟨⟨conn, sender, receiver, innerDropped⟩, wire⟩ := s
  by_cases hticking : ∃ p, receiver = .future .ticking p
  · obtain ⟨p, rfl⟩ := hticking
    obtain ⟨y, q, hpace⟩ := hpaces
    cases tick with
    | true =>
      cases hstep
      exact ⟨h.heads, y, q, hpace.tick inv hdates htimeout⟩
    | false =>
      cases hstep
      refine ⟨h.heads, y, q, hpace.move rfl hpace.fits fun t ht hkept => ?_⟩
      exact hkept.mono id rfl id nofun
  cases Sys.stepReceiver_cases hstep with
  | @stage stage stage' p hstage =>
    obtain ⟨y, q, hpace⟩ := hpaces
    have hpace' : Pace rs k cfg.taskTimeout T conn wire x stage' p y q :=
      hpace.move rfl hpace.fits fun t ht hkept =>
        hkept.mono id rfl id fun hpolling => absurd hpolling hstage.2.1
    cases stage with
    | ticking => exact absurd ⟨p, rfl⟩ hticking
    | pulling => exact absurd rfl hstage.1
    | polling => exact absurd rfl hstage.2.1
    | suspended => exact ⟨h.heads, y, q, hpace'⟩
    | checking => exact ⟨h.heads, y, q, hpace'⟩
  | tick p => exact absurd ⟨p, rfl⟩ hticking
  | giveUp p hgiveUp => exact absurd (hgiveUp.symm.trans hcalm.1) Bool.noConfusion
  | pull p =>
    obtain ⟨y, q, hpace⟩ := hpaces
    exact ⟨h.heads, y, q, hpace.pull inv⟩
  | again =>
    obtain ⟨y, q, hpace⟩ := hpaces
    exact ⟨h.heads, y, q, hpace.again halloc hreserve⟩
  | fail e =>
    obtain ⟨y, q, hpace⟩ := hpaces
    exact ⟨h.heads, fun t ht => hpace.fail ht⟩
  | panic next =>
    obtain ⟨y, q, hpace⟩ := hpaces
    exact (hpace.answers.1.resolve_left (by rw [hpace.fits.excused]; exact Bool.noConfusion)).elim
  | @op o next c' a hexec =>
    obtain ⟨y, q, hpace, hheads⟩ := h.op rfl hcalm.1 hcalm.2.1 hpatient hgentle hexec
    have hwire : wireAfter ⟨⟨conn, sender, .future .polling (.act o next), innerDropped⟩, wire⟩
        (.receiver tick bytes) = (wire.feed o bytes).answered (some a) :=
      congrArg (wire.feed o bytes).answered (congrArg Prod.snd hexec)
    refine ⟨?_, y, q, ?_⟩
    · rcases hheads with hnone | hq
      · change x.heads ++ (o.headRead (o.sees (wire.feed o bytes) bytes)).toList =
          (rs.take (x.heads ++ (o.headRead (o.sees (wire.feed o bytes) bytes)).toList).length).map
            Resp.head
        rw [hnone, Option.toList_none, List.append_nil]
        exact h.heads
      · exact (hpace.inStep hq).heads_eq
    · rw [hwire]
      exact hpace.recv _
  | @wait o next _ hexec =>
    obtain ⟨y, q, hpace⟩ := hpaces
    have hexec : RecvOp.exec (o.sees (wire.feed o bytes) bytes) o conn = (c, none) := hexec
    have hwire : wireAfter ⟨⟨conn, sender, .future .polling (.act o next), innerDropped⟩, wire⟩
        (.receiver tick bytes) = wire.feed o bytes :=
      congrArg (wire.feed o bytes).answered (congrArg Prod.snd hexec)
    refine ⟨?_, y, q, ?_⟩
    · change x.heads ++ (o.headRead (o.sees (wire.feed o bytes) bytes)).toList =
        (rs.take (x.heads ++ (o.headRead (o.sees (wire.feed o bytes) bytes)).toList).length).map
          Resp.head
      rw [RecvOp.headRead_of_waits hexec, Option.toList_none, List.append_nil]
      exact h.heads
    · rw [hwire]
      exact hpace.wait inv hexec
  | close => exact ⟨h.heads, hfared hpaces⟩
  | clean => exact ⟨h.heads, hfared hpaces⟩
  | drain => exact ⟨h.heads, hfared hpaces⟩
  | leave => exact ⟨h.heads, hfared hpaces⟩
  | wake => exact ⟨h.heads, hfared hpaces⟩

/-- Every step keeps the invariant. -/
theorem step (h : Keeping cfg rs k T s x) {l : WireLabel B} (hcalm : s.Calm l)
    (hpatient : s.patient l = true) (hgentle : s.gentle l = true) (hnext : next cfg s l = some s') :
    Keeping cfg rs k T s' (update x s l) := by
  by_cases hl : ∃ tick bytes, l = .receiver tick bytes
  · obtain ⟨tick, bytes, rfl⟩ := hl
    exact h.receiver_step halloc hreserve hcalm hpatient hgentle hnext
  have hlabel : ∀ tick arrival, s.label l ≠ .receiver tick arrival := by
    intro tick arrival hlabel
    cases l with
    | receiver tick bytes => exact hl ⟨tick, bytes, rfl⟩
    | _ => cases hlabel
  have hwire : s.wireAfter l = s.wire := by
    cases l with
    | receiver tick bytes => exact absurd ⟨tick, bytes, rfl⟩ hl
    | _ => rfl
  obtain ⟨sys', hsys, rfl⟩ := Option.map_eq_some_iff.mp hnext
  have hok := h.undisturbed hcalm
  obtain ⟨⟨hreceiver, hheads⟩, hclosed, hcloseTx, hlive, hpulled⟩ :=
    h.lingering.aside hlabel hok hsys
  have hheads : (update x s l).heads = x.heads := hheads
  refine ⟨h.lingering.step halloc hreserve hok hpatient hsys, ?_, ?_, ?_⟩
  · rw [hheads]
    exact h.since
  · rw [hheads]
    exact h.heads
  · change sys'.receiver.Paces rs k cfg.taskTimeout T sys'.conn (s.wireAfter l) _
    rw [hreceiver, hwire]
    exact h.receiver.mono hheads hclosed hcloseTx hlive hpulled fun t ht =>
      ht.step h.lingering.inv hsys

/-- Nothing was read yet. -/
theorem init (rs : List Resp) :
    Keeping cfg rs 0 [] (Wired.init cfg rs : Wired B) .empty := by
  have hwhole : (Answering.none : Answering B).Whole := ⟨rfl, nofun⟩
  have hfits : (Answering.none : Answering B).Fits (Conn.new cfg) [] :=
    ⟨rfl, nofun, nofun, Bool.noConfusion, Bool.noConfusion, Bool.noConfusion⟩
  refine ⟨Sys.lingering_init halloc hreserve, Nat.zero_le _, rfl, .none, .between, ?_⟩
  exact ⟨hfits, answering_recvOneResp halloc hreserve hwhole, heading_recvOneResp _, Nat.zero_le _,
    fun _ => ⟨[], rs, rfl, rfl, rfl, fun _ => rfl, rfl⟩, nofun, nofun⟩

end Receiver

/-- While the receiver waits for a header, the tasks of the registry can be followed
from here on. -/
theorem fromHere (h : Keeping cfg rs k T s x) (hawaits : s.sys.receiver.awaitsHead = true) :
    Keeping cfg rs x.heads.length s.sys.conn.timer.pulled s x := by
  refine ⟨h.lingering, Nat.le_refl _, h.heads, ?_⟩
  obtain ⟨stage, cancellable, next, hreceiver⟩ := Receiver.eq_of_awaitsHead hawaits
  have hpaces := h.receiver
  rw [hreceiver] at hpaces ⊢
  obtain ⟨y, q, hpace⟩ := hpaces
  obtain ⟨-, rfl⟩ := hpace.waiting
  refine ⟨y, .between, hpace.fits, hpace.answers, hpace.asks, hpace.taken, hpace.inStep, nofun,
    fun t ht => .waits ht ?_⟩
  rw [List.drop_length]
  exact nofun

/-- While the receiver waits for a header, the stream is at the next frame. -/
theorem bytes_eq (h : Keeping cfg rs k T s x) (hawaits : s.sys.receiver.awaitsHead = true) :
    s.wire.bytes = (rs.drop x.heads.length).flatMap Resp.frame := by
  obtain ⟨stage, cancellable, next, hreceiver⟩ := Receiver.eq_of_awaitsHead hawaits
  have hpaces := h.receiver
  rw [hreceiver] at hpaces
  obtain ⟨y, q, hpace⟩ := hpaces
  obtain ⟨hwhole, rfl⟩ := hpace.waiting
  exact (hpace.inStep nofun).whole hwhole

/-- When its header arrives, the next response is decoded. -/
theorem heads_update (h : Keeping cfg rs k T s x) {r : Resp} (hr : rs[x.heads.length]? = some r)
    {cancellable : Bool} (hop : s.sys.receiver.op = some (.readHead cancellable)) {n : ℕ}
    (hn : rpcRespHeaderLen ≤ s.wire.taken.length + n) (tick : Bool) :
    (update x s (.receiver tick (some n))).heads = x.heads ++ [r.head] := by
  obtain ⟨next, y, q, hreceiver, hpace⟩ := h.pace hop
  have hhead := hpace.next_head hr hn
  simp only [update, label, arrival, Diary.update, hreceiver]
  exact congrArg (fun head : Option RespHead => x.heads ++ head.toList) hhead

/-- The receiver leaves an empty registry. -/
theorem isReceiving (h : Keeping cfg rs k T s x) :
    s.sys.receiver.isReceiving = true ∨ s.sys.conn.timer.live = [] := by
  have hlingers := h.lingering.receiver
  rcases hr : s.sys.receiver with ⟨stage, p⟩ | _ | _ | _ | _ | _ | _
  · exact Or.inl rfl
  all_goals
    rw [hr] at hlingers
    first
    | exact Or.inr hlingers.2
    | exact hlingers.elim

/-- The tasks, between two responses and after the last. -/
theorem honours (h : Keeping cfg rs k T s x)
    (hs : s.sys.receiver.awaitsHead = true ∨ s.sys.receiver.isReceiving = false) {t : Task B}
    (ht : t ∈ T) : s.sys.conn.Honours (x.decoded rs k) x cfg.taskTimeout t := by
  have hpaces := h.receiver
  rcases hs with hawaits | hleft
  · obtain ⟨stage, cancellable, next, hreceiver⟩ := Receiver.eq_of_awaitsHead hawaits
    rw [hreceiver] at hpaces
    obtain ⟨y, q, hpace⟩ := hpaces
    exact hpace.honours ht
  · rcases hr : s.sys.receiver with ⟨stage, p⟩ | _ | _ | _ | _ | _ | _
    · rw [hr] at hleft
      cases hleft
    all_goals
      rw [hr] at hpaces
      exact Or.inr (hpaces t ht)

end Keeping

/-- The condition on the steps of a run: the connection works, no header is late while
tasks are registered, and the close channel does not cut off a header that has begun
to arrive. -/
def Gently (s : Wired B) (l : WireLabel B) : Prop :=
  s.Calm l ∧ s.patient l = true ∧ s.gentle l = true

instance (s : Wired B) (l : WireLabel B) : Decidable (s.Gently l) :=
  inferInstanceAs (Decidable (_ ∧ _ ∧ _))

variable {cfg : ConnConfig} {rs : List Resp} {s s' : Wired B} {x x' : Diary}

/-- **Dropping the stream keeps the frames in step.** In every run in which the close
channel does not cut off a header that has begun to arrive, whatever responses come,
however they are split, and whenever the stream is dropped: the responses are decoded
in order, and every one that comes while the receiver waits is the next one decoded;
and from any moment on at which the receiver waits for a header, the tasks of the
registry that do not time out get the responses that come for them. -/
theorem drop_keeps_step (halloc : ∀ n, 0 < n → cfg.platform.alloc n = true)
    (hreserve : ReservesExactly B)
    (h : Lts.Reach (Lts.watch (next cfg) update) (fun p l => p.1.Gently l)
      (init cfg rs, .empty) (s, x))
    (hawaits : s.sys.receiver.awaitsHead = true)
    (h' : Lts.Reach (Lts.watch (next cfg) update) (fun p l => p.1.Gently l) (s, x) (s', x')) :
    x'.heads = (rs.take x'.heads.length).map Resp.head ∧
      (s'.sys.receiver.awaitsHead = true →
        s'.wire.bytes = (rs.drop x'.heads.length).flatMap Resp.frame) ∧
      (∀ r cancellable tick n, rs[x'.heads.length]? = some r →
        s'.sys.receiver.op = some (.readHead cancellable) →
        rpcRespHeaderLen ≤ s'.wire.taken.length + n →
        (update x' s' (.receiver tick (some n))).heads = x'.heads ++ [r.head]) ∧
      (s'.sys.receiver.isReceiving = true ∨ s'.sys.conn.timer.live = []) ∧
      (s'.sys.receiver.awaitsHead = true ∨ s'.sys.receiver.isReceiving = false →
        ∀ t ∈ s.sys.conn.timer.pulled,
          s'.sys.conn.Honours (x'.decoded rs x.heads.length) x' cfg.taskTimeout t) := by
  have hstep : ∀ {k T} (p : Wired B × Diary) (l : WireLabel B) (p' : Wired B × Diary),
      Keeping cfg rs k T p.1 p.2 → p.1.Gently l → Lts.watch (next cfg) update p l = some p' →
      Keeping cfg rs k T p'.1 p'.2 := by
    rintro k T ⟨s, x⟩ l ⟨s', x'⟩ hs ⟨hcalm, hpatient, hgentle⟩ hnext
    obtain ⟨hnext, rfl⟩ := Lts.watch_eq_some.mp hnext
    exact hs.step halloc hreserve hcalm hpatient hgentle hnext
  have hstart : Keeping cfg rs 0 [] s x :=
    h.invariant (I := fun p => Keeping cfg rs 0 [] p.1 p.2) (.init halloc hreserve rs) hstep
  have hkeeps : Keeping cfg rs x.heads.length s.sys.conn.timer.pulled s' x' :=
    h'.invariant (I := fun p => Keeping cfg rs x.heads.length s.sys.conn.timer.pulled p.1 p.2)
      (hstart.fromHere hawaits) hstep
  refine ⟨hkeeps.heads, hkeeps.bytes_eq, ?_, hkeeps.isReceiving, fun hs t ht => hkeeps.honours hs ht⟩
  intro r cancellable tick n hr hop hn
  exact hkeeps.heads_update hr hop hn tick

/-! ### Two runs -/

/-- The sender goes on for `n` operations, all of them successful. -/
def sends (n : ℕ) : List (WireLabel APIClientReq) := List.replicate n (.sender true)

/-- The receiver goes on for `n` steps, and nothing arrives. -/
def receives (n : ℕ) : List (WireLabel APIClientReq) := List.replicate n (.receiver false (some 0))

/-- Two responses, the first of them for the first task. -/
def twoResps : List Resp := [⟨1, .ok [146, 1] [], by decide⟩, ⟨2, .ok [146, 1] [], by decide⟩]

/-- A task is sent, and the receiver waits for a header. -/
def sentWaiting : List (WireLabel APIClientReq) :=
  .call (.sendTask ⟨0, 0, .new "calc.add" [1]⟩ true) :: (sends 12 ++ receives 6)

/-- The stream is dropped, the close channel fires, and the receiver waits again. -/
def droppedWaiting : List (WireLabel APIClientReq) := .call .drop :: (sends 4 ++ receives 10)

/-- The stream is dropped before the header begins to arrive; then the response comes
in pieces, and the task gets it. -/
theorem drop_keeps_step_early :
    ∃ (s s' : Wired APIClientReq) (x x' : Diary),
      Lts.Reach (Lts.watch (next Sys.apiConfig) update) (fun p l => p.1.Gently l)
        (init Sys.apiConfig twoResps, .empty) (s, x) ∧
      s.sys.receiver.awaitsHead = true ∧
      Lts.Reach (Lts.watch (next Sys.apiConfig) update) (fun p l => p.1.Gently l) (s, x) (s', x') ∧
      s'.sys.sender.isGone = true ∧ ∃ t ∈ s.sys.conn.timer.pulled,
        s'.sys.conn.Served (x'.decoded twoResps x.heads.length) t := by
  have hrun : (Lts.exec (Lts.watch (next Sys.apiConfig) update) (fun p l => p.1.Gently l)
      (init Sys.apiConfig twoResps, .empty) sentWaiting).any (fun p =>
        decide (p.1.sys.receiver.awaitsHead = true ∧ p.1.sys.conn.timer.pulled ≠ []) &&
        (Lts.exec (Lts.watch (next Sys.apiConfig) update) (fun p l => p.1.Gently l) p
          (droppedWaiting ++ .receiver false (some 7) :: (receives 4 ++
            .receiver false (some 13) :: (receives 1 ++ .receiver false (some 2) :: receives 9)))).any
          fun p' => decide (p'.1.sys.sender.isGone = true ∧ p'.1.sys.receiver.isReceiving = false ∧
            p'.2.ticks = 0 ∧ p'.1.sys.conn.timer.pulled = [])) = true := by
    decide +kernel
  obtain ⟨⟨s, x⟩, hreach, htest⟩ := Lts.Reach.exists_of_exec hrun
  obtain ⟨hwaits, hrun'⟩ := Bool.and_eq_true_iff.mp htest
  obtain ⟨hawaits, hpulled⟩ := of_decide_eq_true hwaits
  obtain ⟨⟨s', x'⟩, hreach', htest'⟩ := Lts.Reach.exists_of_exec hrun'
  obtain ⟨hgone, hleft, hticks, hnil⟩ := of_decide_eq_true htest'
  obtain ⟨t, ht⟩ := List.exists_mem_of_ne_nil _ hpulled
  refine ⟨s, s', x, x', hreach, hawaits, hreach', hgone, t, ht, ?_⟩
  obtain ⟨-, -, -, -, hhonours⟩ :=
    drop_keeps_step (fun _ _ => rfl) reservesExactly_api hreach hawaits hreach'
  rcases hhonours (Or.inr hleft) t ht with ⟨hstays, -⟩ | hserved | ⟨-, task, -, hlt⟩
  · rw [hnil] at hstays
    cases hstays
  · exact hserved
  · rw [hticks] at hlt
    cases hlt

/-- The stream is dropped when five bytes of the header have arrived: they are lost,
what follows is no header, and the task fails with `IO` though its response has come
in full. -/
theorem cut_header_loses_step :
    ∃ (s s' : Wired APIClientReq) (x x' : Diary),
      Lts.Reach (Lts.watch (next Sys.apiConfig) update)
        (fun p l => p.1.Calm l ∧ p.1.patient l = true)
        (init Sys.apiConfig twoResps, .empty) (s, x) ∧
      s.sys.receiver.awaitsHead = true ∧ s.wire.taken.length = 5 ∧
      Lts.Reach (Lts.watch (next Sys.apiConfig) update)
        (fun p l => p.1.Calm l ∧ p.1.patient l = true) (s, x) (s', x') ∧
      s'.sys.receiver.isReceiving = false ∧ x'.heads = [] ∧
      ∃ t ∈ s.sys.conn.timer.pulled, (∃ r ∈ twoResps, r.seq = t.seq) ∧
        .errorHandled (t.setRpcError .io) ∈ s'.sys.conn.completed ∧
        ¬ s'.sys.conn.Honours (x'.decoded twoResps x.heads.length) x' Sys.apiConfig.taskTimeout t := by
  have hrun : (Lts.exec (Lts.watch (next Sys.apiConfig) update)
      (fun p l => p.1.Calm l ∧ p.1.patient l = true) (init Sys.apiConfig twoResps, .empty)
      (sentWaiting ++ (receives 4 ++ [.receiver false (some 5)]))).any (fun p =>
        decide (p.1.sys.receiver.awaitsHead = true ∧ p.1.wire.taken.length = 5) &&
        (Lts.exec (Lts.watch (next Sys.apiConfig) update)
          (fun p l => p.1.Calm l ∧ p.1.patient l = true) p
          (droppedWaiting ++ .receiver false (some 20) :: receives 5)).any
          fun p' => decide (p'.1.sys.receiver.isReceiving = false ∧ p'.2.heads.length = 0 ∧
            p'.2.ticks = 0 ∧ p'.1.sys.conn.timer.pulled = [] ∧
            ∃ t ∈ p.1.sys.conn.timer.pulled, (∃ r ∈ twoResps, r.seq = t.seq) ∧
              .errorHandled (t.setRpcError .io) ∈ p'.1.sys.conn.completed)) = true := by
    decide +kernel
  obtain ⟨⟨s, x⟩, hreach, htest⟩ := Lts.Reach.exists_of_exec hrun
  obtain ⟨hwaits, hrun'⟩ := Bool.and_eq_true_iff.mp htest
  obtain ⟨hawaits, htaken⟩ := of_decide_eq_true hwaits
  obtain ⟨⟨s', x'⟩, hreach', htest'⟩ := Lts.Reach.exists_of_exec hrun'
  obtain ⟨hleft, hheads, hticks, hnil, t, ht, hresp, hio⟩ := of_decide_eq_true htest'
  have hheads := List.length_eq_zero_iff.mp hheads
  refine ⟨s, s', x, x', hreach, hawaits, htaken, hreach', hleft, hheads, t, ht, hresp, hio, ?_⟩
  rintro (⟨hstays, -⟩ | ⟨r, hr, -⟩ | ⟨-, task, -, hlt⟩)
  · rw [hnil] at hstays
    cases hstays
  · rw [Diary.decoded, hheads] at hr
    cases List.mem_of_mem_drop hr
  · rw [hticks] at hlt
    cases hlt

end Wired

end RazorRpc
