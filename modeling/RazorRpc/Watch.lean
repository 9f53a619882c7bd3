import RazorRpc.ConnInv

/-!
# Watching the sender

Some properties of a connection depend on what the call of the sender has done so
far: has it counted its task, has it flushed what it wrote. A `SendWatch` keeps
such a record along a run, operation by operation, and `SendWatch.next` are the
steps of the connection with the record beside it.

The record is at the same time the state of a protocol. What the programs of the
sender do with it is checked path by path; what remains to be shown of a run is
what one operation does to the connection (`SendWatch.Sound`).
-/

namespace RazorRpc

open Prog ClientStream

/-- A record kept of the sender: after each operation, and at both ends of a call. -/
structure SendWatch (B φ : Type) where
  protocol : Protocol (SendOp B) SendOp.Res φ
  begin : φ → Call B → φ
  finish : φ → φ

namespace SendWatch

variable {B φ : Type} [ClientTask B]

/-- The record after a step. -/
def update (w : SendWatch B φ) (x : φ) (s : Sys B) : Label B → φ
  | .call call => w.begin x call
  | .sender ok =>
    match s.sender with
    | .running _ (.ret _) => w.finish x
    | .running _ (.act o _) =>
      match (SendOp.exec ok o s.conn).2 with
      | some r => w.protocol.next x o r
      | none => x
    | _ => x
  | _ => x

/-- The steps of a connection that is watched. -/
def next (w : SendWatch B φ) (cfg : ConnConfig) : Sys B × φ → Label B → Option (Sys B × φ) :=
  Lts.watch (Sys.next cfg) w.update

/-- Where the sender is, as far as the record goes: `rest` holds between two
calls, and a call under way keeps to the protocol and ends with `post`. -/
def Along (w : SendWatch B φ) (rest post : φ → Prop) (x : φ) : Sender B → Prop
  | .running _ p => Follows w.protocol (fun _ => post) x p
  | _ => rest x

/-- The connection and the record keep the relation `I`, in steps that meet `ok`. -/
structure Sound (w : SendWatch B φ) (cfg : ConnConfig) (ok : Sys B × φ → Label B → Prop)
    (rest post : φ → Prop) (I : Sys B → φ → Prop) : Prop where
  call : ∀ {s x}, I s x → rest x → ∀ call,
    I { s with conn := (Sys.begin cfg s.conn call).1, sender := (Sys.begin cfg s.conn call).2 }
        (w.begin x call) ∧
      Follows w.protocol (fun _ => post) (w.begin x call) (Sys.program cfg s.conn.nextId call)
  op : ∀ {s : Sys B} {x sock dropping o k c' a}, I s x → w.protocol.ok x o →
    s.sender = .running dropping (.act o k) → ok (s, x) (.sender sock) →
    SendOp.exec sock o s.conn = (c', some a) →
    I { s with
        conn := { c' with send := sending.next s.conn.send o a }
        sender := .running dropping (k a) } (w.protocol.next x o a)
  finish : ∀ {s : Sys B} {x dropping r}, I s x → post x → s.sender = .running dropping (.ret r) →
    I { s with
        conn := { s.conn with send := .start none }
        sender := if dropping then .gone else .idle } (w.finish x) ∧ rest (w.finish x)
  receiver : ∀ {s : Sys B} {x tick arrival c' r'}, I s x → ok (s, x) (.receiver tick arrival) →
    Sys.ReceiverStep cfg.platform arrival s.conn s.receiver c' r' →
    I { s with conn := c', receiver := r' } x
  clean : ∀ {s : Sys B} {x}, I s x → I { s with conn := s.conn.clean, innerDropped := true } x

variable {w : SendWatch B φ} {cfg : ConnConfig} {ok : Sys B × φ → Label B → Prop}
  {rest post : φ → Prop} {I : Sys B → φ → Prop}

/-- A step of the sender, watched. -/
theorem Sound.sender_step (sound : w.Sound cfg ok rest post I) {s s' : Sys B} {x : φ}
    (hI : I s x) (halong : w.Along rest post x s.sender) {sock : Bool}
    (hok : ok (s, x) (.sender sock)) (h : Sys.next cfg s (.sender sock) = some s') :
    I s' (w.update x s (.sender sock)) ∧
      w.Along rest post (w.update x s (.sender sock)) s'.sender := by
  obtain ⟨⟨c, p⟩, hstep, rfl⟩ := Option.map_eq_some_iff.mp h
  obtain ⟨conn, sender, receiver, innerDropped⟩ := s
  cases Sys.stepSender_cases hstep with
  | finish dropping r =>
    obtain ⟨hI', hrest⟩ := sound.finish hI halong rfl
    refine ⟨hI', ?_⟩
    cases dropping with
    | true => exact hrest
    | false => exact hrest
  | op dropping hexec =>
    have hop := sound.op hI halong.1 rfl hok hexec
    simp only [update, hexec]
    exact ⟨hop, halong.step _⟩

theorem Sound.step (sound : w.Sound cfg ok rest post I) {s s' : Sys B} {x : φ} {l : Label B}
    (hI : I s x) (halong : w.Along rest post x s.sender) (hok : ok (s, x) l)
    (h : Sys.next cfg s l = some s') :
    I s' (w.update x s l) ∧ w.Along rest post (w.update x s l) s'.sender := by
  cases l with
  | sender sock => exact sound.sender_step hI halong hok h
  | call call =>
    obtain ⟨conn, sender, receiver, innerDropped⟩ := s
    cases sender with
    | idle =>
      cases h
      obtain ⟨hI', hfollows⟩ := sound.call hI halong call
      refine ⟨hI', ?_⟩
      cases call <;> exact hfollows
    | running dropping p => cases h
    | gone => cases h
  | receiver tick arrival =>
    obtain ⟨⟨c, r⟩, hstep, rfl⟩ := Option.map_eq_some_iff.mp h
    exact ⟨sound.receiver hI hok (Sys.stepReceiver_cases hstep), halong⟩
  | dropInner =>
    simp only [Sys.next] at h
    split at h
    · cases h
      exact ⟨sound.clean hI, halong⟩
    · cases h

/-- The rule for runs. -/
theorem Sound.reach (sound : w.Sound cfg ok rest post I) {x₀ : φ} (hinit : I (Sys.init cfg) x₀)
    (hrest : rest x₀) {s : Sys B} {x : φ}
    (h : Lts.Reach (w.next cfg) ok (Sys.init cfg, x₀) (s, x)) :
    I s x ∧ w.Along rest post x s.sender := by
  have hstart : I (Sys.init cfg) x₀ ∧ w.Along rest post x₀ (Sys.init cfg).sender := ⟨hinit, hrest⟩
  refine h.invariant (I := fun p => I p.1 p.2 ∧ w.Along rest post p.2 p.1.sender) hstart ?_
  rintro ⟨s, x⟩ l ⟨s', x'⟩ ⟨hI, halong⟩ hok hnext
  obtain ⟨hnext, rfl⟩ := Lts.watch_eq_some.mp hnext
  exact sound.step hI halong hok hnext

end SendWatch

end RazorRpc
