import RazorRpc.Lib.Lts
import RazorRpc.Lib.Text
import Mathlib.Data.List.Basic

/-!
# Graceful restart

A server that is restarted hands its listening sockets to the program it starts: the
descriptors stay open, and their numbers stand in the environment, as text. The child reads
the text before anything else and takes the descriptors in the order of its own calls of
`new_listener`; what it has taken is what it hands on.

* `GracefulServer` — the listener management of one process (`graceful.rs`), with `none` for
  a panic of the process;
* `restart_eq`, `new_handed`, `new_empty` — what a restart writes and the child reads of it;
* `Process`, `next` — a process with the listeners it has opened, and its successor;
* `hands_over_iff` — the listeners are handed over, from one process to the next and over any
  number of restarts, unless there are none: the empty list is written as the empty text, and
  that is not read as a list.
-/

namespace RazorRpc.Graceful

/-! ## The listener management -/

abbrev RawFd := Int32

/-- The bytes of a variable of the environment. -/
abbrev OsString := ByteArray

/-- `fd_str.parse::<RawFd>()` -/
def parseRawFd (s : String) : Option RawFd :=
  (Text.parse Int32.minValue.toInt Int32.maxValue.toInt s).map Int32.ofInt

structure GracefulServer where
  listenFds : List String
  recovered : Bool
  recoverListenFds : List RawFd

/-- What a restart prepares for the child: the descriptors that are not closed in it, and the
value of `_GRACEFUL_RESTART`. -/
structure Handover where
  preservedFds : List RawFd
  env : OsString

/-- One call of `new_listener` for a type of listeners `L`, with the answers `L` gives in it:
to a descriptor that is tried, and to `bind`. A listener made from a descriptor is a listener
on that descriptor. -/
structure Call {L : Type} (E : Type) (asRawFd : L → RawFd) where
  addr : String
  tryFromRawFd : RawFd → Except E L
  bind : Except E L
  asRawFd_eq : ∀ fd l, tryFromRawFd fd = .ok l → asRawFd l = fd

namespace GracefulServer

def checkRecover (g : GracefulServer) (env : Option OsString) : Option GracefulServer :=
  match env with
  | none => some g
  | some envRecoverFds => do
    let s ← String.fromUTF8? envRecoverFds
    -- every `unwrap` of the loop is a panic
    let fds ← (Text.split ',' s).mapM parseRawFd
    some { g with recoverListenFds := g.recoverListenFds ++ fds, recovered := true }

def new (env : Option OsString) : Option GracefulServer :=
  checkRecover { listenFds := [], recovered := false, recoverListenFds := [] } env

/-- The part of `restart` before the child is started. -/
def restart (g : GracefulServer) : Option Handover := do
  let preservedFds ← g.listenFds.mapM parseRawFd
  let listenFdsStr := String.intercalate "," g.listenFds
  some { preservedFds := preservedFds.mergeSort fun a b => decide (a ≤ b),
         env := listenFdsStr.toByteArray }

variable {L E : Type} {asRawFd : L → RawFd}

/-- The end of `new_listener`: a listener of its own. -/
def bindListener (g : GracefulServer) (c : Call E asRawFd) : Except E L × GracefulServer :=
  match c.bind with
  | .error e => (.error e, g)
  | .ok listener =>
    (.ok listener, { g with listenFds := g.listenFds ++ [toString (asRawFd listener)] })

def newListener (g : GracefulServer) (c : Call E asRawFd) : Except E L × GracefulServer :=
  match g.recoverListenFds with
  | rawFd :: rest =>
    let g := { g with recoverListenFds := rest }
    match c.tryFromRawFd rawFd with
    | .ok listener => (.ok listener, { g with listenFds := g.listenFds ++ [toString rawFd] })
    | .error _ => g.bindListener c
  | [] => g.bindListener c

end GracefulServer

/-! ## What is written and read -/

theorem parseRawFd_toString (fd : RawFd) : parseRawFd (toString fd) = some fd := by
  have hparse := Text.parse_toString (by decide) (by decide) fd.minValue_le_toInt fd.toInt_le
  rw [parseRawFd, show toString fd = toString fd.toInt from rfl, hparse, Option.map_some,
    Int32.ofInt_toInt]

theorem mapM_parseRawFd (fds : List RawFd) : (fds.map toString).mapM parseRawFd = some fds := by
  induction fds with
  | nil => rfl
  | cons fd fds ih =>
    rw [List.map_cons, List.mapM_cons, parseRawFd_toString, ih]
    rfl

/-- The text that stands for a list of descriptors in the environment. -/
def written (fds : List RawFd) : OsString :=
  (String.intercalate "," (fds.map toString)).toByteArray

theorem comma_notMem_toString (fd : RawFd) : ',' ∉ (toString fd).toList := by
  intro h
  rcases Text.mem_toString (v := fd.toInt) h with hdigit | hsign
  · exact absurd hdigit (by decide)
  · exact absurd hsign (by decide)

theorem fromUTF8_toByteArray (s : String) : String.fromUTF8? s.toByteArray = some s :=
  dif_pos s.isValidUTF8

variable {g : GracefulServer} {fds : List RawFd}

/-- A restart writes the descriptors that are registered, and closes none of them. -/
theorem restart_eq (hg : g.listenFds = fds.map toString) :
    g.restart = some ⟨fds.mergeSort fun a b => decide (a ≤ b), written fds⟩ := by
  rw [GracefulServer.restart, hg, mapM_parseRawFd]
  rfl

/-- The child reads the list that was written, if it has a member. -/
theorem new_handed (hne : fds ≠ []) :
    GracefulServer.new (some (written fds)) = some ⟨[], true, fds⟩ := by
  have hsplit : Text.split ',' (String.intercalate "," (fds.map toString)) = fds.map toString := by
    refine Text.split_intercalate ?_ (fun h => hne (List.map_eq_nil_iff.mp h))
    intro s hs
    obtain ⟨fd, _, rfl⟩ := List.mem_map.mp hs
    exact comma_notMem_toString fd
  simp only [GracefulServer.new, GracefulServer.checkRecover, written, fromUTF8_toByteArray,
    Option.bind_eq_bind, Option.bind_some, hsplit, mapM_parseRawFd, List.nil_append]

/-- The empty list is written as the empty text. That has one piece, which is no number, and
the child panics. -/
theorem new_empty : GracefulServer.new (some (written [])) = none := by
  have htext : String.intercalate "," (([] : List RawFd).map toString) = "" := by simp
  simp only [GracefulServer.new, GracefulServer.checkRecover, written, htext,
    fromUTF8_toByteArray, Option.bind_eq_bind, Option.bind_some, Text.split_empty]
  rfl

/-! ## What a call of `new_listener` does -/

section Call

variable {L E : Type} {asRawFd : L → RawFd} {c : Call E asRawFd}

theorem bindListener_eq (g : GracefulServer) (c : Call E asRawFd) :
    g.bindListener c = (c.bind, { g with
      listenFds := g.listenFds ++ c.bind.toOption.toList.map fun l => toString (asRawFd l) }) := by
  rw [GracefulServer.bindListener]
  cases c.bind with
  | error e => simp [Except.toOption]
  | ok l => simp [Except.toOption]

/-- A call takes one descriptor off the list, whatever becomes of it, and registers the
descriptor of the listener it returns. -/
theorem newListener_server (g : GracefulServer) (c : Call E asRawFd) :
    (g.newListener c).2 = { g with
      listenFds := g.listenFds ++
        (g.newListener c).1.toOption.toList.map fun l => toString (asRawFd l),
      recoverListenFds := g.recoverListenFds.tail } := by
  rw [GracefulServer.newListener]
  rcases hlist : g.recoverListenFds with _ | ⟨fd, rest⟩
  · simp only [bindListener_eq]
    rw [List.tail_nil, hlist]
  · rcases htry : c.tryFromRawFd fd with e | l
    · simp only [htry, bindListener_eq, List.tail_cons]
    · have hfd := c.asRawFd_eq fd l htry
      simp [htry, hfd, Except.toOption]

/-- The listener is on the next descriptor of the list, if it can be made from it. -/
theorem newListener_recovered {fd : RawFd} {rest : List RawFd} {l : L}
    (hlist : g.recoverListenFds = fd :: rest) (htry : c.tryFromRawFd fd = .ok l) :
    (g.newListener c).1 = .ok l := by
  rw [GracefulServer.newListener, hlist]
  simp only [htry]

/-- In these calls, every descriptor that is tried gives a listener. -/
def AllRecovered (g : GracefulServer) : List (Call E asRawFd) → Prop
  | [] => True
  | c :: calls =>
    (∀ fd ∈ g.recoverListenFds.head?, ∃ l, c.tryFromRawFd fd = .ok l) ∧
      AllRecovered (g.newListener c).2 calls

end Call

/-! ## Processes -/

/-- A process: its listener management, and the listeners it has been given so far, in
order. -/
structure Process (L : Type) where
  server : GracefulServer
  listeners : List L

namespace Process

variable {L E : Type} {asRawFd : L → RawFd}

/-- The descriptors the listeners use. -/
def rawFds (asRawFd : L → RawFd) (p : Process L) : List RawFd := p.listeners.map asRawFd

def call (p : Process L) (c : Call E asRawFd) : Process L :=
  { server := (p.server.newListener c).2,
    listeners := p.listeners ++ (p.server.newListener c).1.toOption.toList }

/-- A process from its start on, through its calls of `new_listener`. -/
def start (env : Option OsString) (calls : List (Call E asRawFd)) : Option (Process L) :=
  (GracefulServer.new env).map fun g => calls.foldl call ⟨g, []⟩

/-- The process a restart leads to. -/
def child (p : Process L) (calls : List (Call E asRawFd)) : Option (Process L) :=
  p.server.restart.bind fun h => start (some h.env) calls

/-- A process has registered the descriptors of its listeners. -/
def Registered (asRawFd : L → RawFd) (p : Process L) : Prop :=
  p.server.listenFds = (p.rawFds asRawFd).map toString

variable {p : Process L} {env : Option OsString} {calls : List (Call E asRawFd)}

theorem Registered.call (hp : p.Registered asRawFd) (c : Call E asRawFd) :
    (p.call c).Registered asRawFd := by
  rw [Registered, rawFds] at *
  rw [Process.call, newListener_server, hp]
  simp

theorem Registered.foldl (calls : List (Call E asRawFd)) (hp : p.Registered asRawFd) :
    (calls.foldl Process.call p).Registered asRawFd := by
  induction calls generalizing p with
  | nil => exact hp
  | cons c calls ih => exact ih (hp.call c)

theorem listeners_foldl (p : Process L) (calls : List (Call E asRawFd)) :
    (calls.foldl call p).listeners.length ≤ p.listeners.length + calls.length := by
  induction calls generalizing p with
  | nil => exact Nat.le_refl _
  | cons c calls ih =>
    have hone : (p.call c).listeners.length ≤ p.listeners.length + 1 := by
      rw [call, List.length_append]
      cases (p.server.newListener c).1.toOption <;> simp
    rw [List.foldl_cons, List.length_cons]
    exact Nat.le_trans (ih (p.call c)) (by omega)

/-- The calls take the descriptors of the list one after another. -/
theorem rawFds_foldl (hall : AllRecovered p.server calls) :
    p.rawFds asRawFd ++ p.server.recoverListenFds.take calls.length <+:
      (calls.foldl call p).rawFds asRawFd := by
  induction calls generalizing p with
  | nil => simp
  | cons c calls ih =>
    obtain ⟨hfirst, hrest⟩ := hall
    have htail : (p.call c).server.recoverListenFds = p.server.recoverListenFds.tail := by
      rw [call, newListener_server]
    have hnext := ih (p := p.call c) hrest
    rw [htail] at hnext
    refine List.IsPrefix.trans ?_ hnext
    rcases hlist : p.server.recoverListenFds with _ | ⟨fd, rest⟩
    · -- no descriptor is left: whatever is bound comes behind
      simp [rawFds, call]
    · obtain ⟨l, hl⟩ := hfirst fd (by rw [hlist]; rfl)
      have hfd := c.asRawFd_eq fd l hl
      simp [rawFds, call, newListener_recovered hlist hl, Except.toOption, hfd]

theorem start_eq_some (h : start env calls = some p) :
    p.Registered asRawFd ∧ p.listeners.length ≤ calls.length := by
  obtain ⟨g, hnew, rfl⟩ := Option.map_eq_some_iff.mp h
  have hlisten : g.listenFds = [] := by
    rcases env with _ | raw
    · cases hnew
      rfl
    · obtain ⟨s, _, hs⟩ := Option.bind_eq_some_iff.mp hnew
      obtain ⟨fds, _, hfds⟩ := Option.bind_eq_some_iff.mp hs
      cases hfds
      rfl
  refine ⟨Registered.foldl calls hlisten, ?_⟩
  exact Nat.le_trans (listeners_foldl _ calls) (by simp)

theorem Registered.child_eq (hp : p.Registered asRawFd) (hne : p.listeners ≠ [])
    (calls : List (Call E asRawFd)) :
    p.child calls = some (calls.foldl Process.call ⟨⟨[], true, p.rawFds asRawFd⟩, []⟩) := by
  have hfds : p.rawFds asRawFd ≠ [] := fun h => hne (List.map_eq_nil_iff.mp h)
  rw [child, restart_eq hp, Option.bind_some, start, new_handed hfds, Option.map_some]

theorem Registered.child_eq_none (hp : p.Registered asRawFd) (hnil : p.listeners = [])
    (calls : List (Call E asRawFd)) : p.child calls = none := by
  have hfds : p.rawFds asRawFd = [] := by rw [rawFds, hnil, List.map_nil]
  rw [Registered, hfds] at hp
  rw [child, restart_eq hp, Option.bind_some, start, new_empty, Option.map_none]

end Process

/-! ## One restart after another -/

section Restarts

variable {L E : Type} {asRawFd : L → RawFd}

/-- The successor of a process, which is `none` when it panics at its start. -/
def next (s : Option (Process L)) (calls : List (Call E asRawFd)) :
    Option (Option (Process L)) :=
  s.map fun p => p.child calls

/-- The successor calls `new_listener` with these addresses, and every descriptor that it
tries gives a listener. -/
def SameCalls (addrs : List String) (s : Option (Process L)) (calls : List (Call E asRawFd)) :
    Prop :=
  calls.map Call.addr = addrs ∧
    ∀ p ∈ s, ∀ h ∈ p.server.restart, ∀ g ∈ GracefulServer.new (some h.env), AllRecovered g calls

/-- The successors of `first`, one restart after another. -/
abbrev Successor (E : Type) (asRawFd : L → RawFd) (addrs : List String) (first : Process L) :
    Option (Process L) → Prop :=
  Lts.Reach (@next L E asRawFd) (SameCalls addrs) (some first)

/-- The listeners of `first` in a process of `n` calls: at the same places, on the same
descriptors, and with no others beside them if every call of `first` returned one. -/
structure Inherits (asRawFd : L → RawFd) (n : ℕ) (first p : Process L) : Prop where
  same : ∀ (i : ℕ) fd, (first.rawFds asRawFd)[i]? = some fd → (p.rawFds asRawFd)[i]? = some fd
  all : first.listeners.length = n → p.rawFds asRawFd = first.rawFds asRawFd

/-- What a process hands on. -/
structure Heir (asRawFd : L → RawFd) (n : ℕ) (first p : Process L) : Prop where
  registered : p.Registered asRawFd
  listed : first.rawFds asRawFd <+: p.rawFds asRawFd
  length : p.listeners.length ≤ n

variable {n : ℕ} {first p : Process L} {calls : List (Call E asRawFd)}

theorem Heir.inherits (hp : Heir asRawFd n first p) : Inherits asRawFd n first p := by
  obtain ⟨more, hmore⟩ := hp.listed
  refine ⟨?_, ?_⟩
  · intro i fd hi
    rw [← hmore, List.getElem?_append_left (List.getElem?_eq_some_iff.mp hi).1]
    exact hi
  · intro hlen
    refine (hp.listed.eq_of_length ?_).symm
    have hle := hp.listed.length_le
    have hmax := hp.length
    simp only [Process.rawFds, List.length_map] at *
    omega

theorem Heir.listeners_ne_nil (hp : Heir asRawFd n first p) (hne : first.listeners ≠ []) :
    p.listeners ≠ [] := by
  intro hnil
  have hle := hp.listed.length_le
  have hpos := List.length_pos_iff.mpr hne
  simp only [Process.rawFds, List.length_map, hnil, List.length_nil] at hle
  omega

/-- A restart leads to an heir again: the list that was handed over is not longer than the
calls, so that all of it is taken. -/
theorem Heir.child (hp : Heir asRawFd n first p) (hne : p.listeners ≠ [])
    (hcalls : calls.length = n) (hall : AllRecovered ⟨[], true, p.rawFds asRawFd⟩ calls) :
    ∃ q, p.child calls = some q ∧ Heir asRawFd n first q := by
  have hchild := hp.registered.child_eq hne calls
  obtain ⟨h, _, hstart⟩ := Option.bind_eq_some_iff.mp hchild
  obtain ⟨hregistered, hlength⟩ := Process.start_eq_some hstart
  have htaken := Process.rawFds_foldl (p := ⟨⟨[], true, p.rawFds asRawFd⟩, []⟩) hall
  rw [List.take_of_length_le (by simpa [Process.rawFds, hcalls] using hp.length)] at htaken
  exact ⟨_, hchild, hregistered, hp.listed.trans htaken, hcalls ▸ hlength⟩

/-- **Every successor is an heir**, unless there is nothing to inherit. -/
theorem heir_of_successor {addrs : List String} {s : Option (Process L)}
    (hfirst : Heir asRawFd addrs.length first first) (hne : first.listeners ≠ [])
    (h : Successor E asRawFd addrs first s) :
    ∃ p, s = some p ∧ Heir asRawFd addrs.length first p := by
  refine h.invariant (I := fun s => ∃ p, s = some p ∧ Heir asRawFd addrs.length first p)
    ⟨first, rfl, hfirst⟩ ?_
  rintro s calls s' ⟨p, rfl, hp⟩ ⟨haddrs, hall⟩ hnext
  obtain rfl : p.child calls = s' := Option.some.inj hnext
  have hcalls : calls.length = addrs.length := by rw [← haddrs, List.length_map]
  have hp_ne := hp.listeners_ne_nil hne
  have hfds : p.rawFds asRawFd ≠ [] := fun hnil => hp_ne (List.map_eq_nil_iff.mp hnil)
  have hrecovered := hall p rfl _ (restart_eq hp.registered) _ (new_handed hfds)
  exact hp.child hp_ne hcalls hrecovered

/-- The first process without a listener has a successor that panics. -/
theorem successor_panics (hfirst : first.Registered asRawFd) (hnil : first.listeners = [])
    (calls : List (Call E asRawFd)) : Successor E asRawFd (calls.map Call.addr) first none := by
  have hnone := hfirst.child_eq_none hnil calls
  refine Lts.Reach.step calls Lts.Reach.init ⟨rfl, ?_⟩ (congrArg some hnone)
  intro p hp h hrestart g hnew
  -- there is no child that could try a descriptor
  cases hp
  have hstart : Process.start (some h.env) calls = none := by
    rw [Process.child, hrestart] at hnone
    exact hnone
  rw [Process.start, hnew] at hstart
  cases hstart

end Restarts

/-! ## When the listeners are handed over -/

/-- The descriptors `fds` come out of the environment that a restart leaves for the child. -/
def HandsOver (g : GracefulServer) (fds : List RawFd) : Prop :=
  ∃ h child, g.restart = some h ∧ GracefulServer.new (some h.env) = some child ∧
    child.recoverListenFds = fds

theorem handsOver_of_ne_nil (hg : g.listenFds = fds.map toString) (hne : fds ≠ []) :
    HandsOver g fds :=
  ⟨_, _, restart_eq hg, new_handed hne, rfl⟩

theorem not_handsOver_nil (hg : g.listenFds = ([] : List RawFd).map toString) :
    ¬ HandsOver g fds := by
  rintro ⟨h, child, hrestart, hnew, _⟩
  rw [restart_eq hg] at hrestart
  cases hrestart
  rw [new_empty] at hnew
  cases hnew

/-- **Exactly the servers that have a listener hand their listeners over**: every list of
descriptors but the empty one is read back by the child, in order; and over any number of
restarts with the same calls, every process starts and has the listeners of the first one on
their descriptors, if and only if the first one has a listener. -/
theorem hands_over_iff {L E : Type} (asRawFd : L → RawFd) :
    (∀ (g : GracefulServer) (fds : List RawFd), g.listenFds = fds.map toString →
      (HandsOver g fds ↔ fds ≠ [])) ∧
    ∀ (env : Option OsString) (calls : List (Call E asRawFd)) (first : Process L),
      Process.start env calls = some first →
      ((∀ s, Successor E asRawFd (calls.map Call.addr) first s →
          ∃ p, s = some p ∧ Inherits asRawFd calls.length first p) ↔ first.listeners ≠ []) := by
  refine ⟨?_, ?_⟩
  · intro g fds hg
    constructor
    · rintro hover rfl
      exact not_handsOver_nil hg hover
    · exact handsOver_of_ne_nil hg
  · intro env calls first hstart
    obtain ⟨hregistered, hlength⟩ := Process.start_eq_some hstart
    have haddrs : (calls.map Call.addr).length = calls.length := List.length_map _
    constructor
    · intro hall hnil
      obtain ⟨p, hp, _⟩ := hall none (successor_panics hregistered hnil calls)
      cases hp
    · intro hne s hs
      have hfirst : Heir asRawFd (calls.map Call.addr).length first first :=
        ⟨hregistered, List.prefix_refl _, haddrs ▸ hlength⟩
      obtain ⟨p, rfl, hp⟩ := heir_of_successor hfirst hne hs
      exact ⟨p, rfl, haddrs ▸ hp.inherits⟩

/-- Listeners known by their descriptors: every descriptor that is tried can be used. -/
def inheriting (addr : String) (bound : RawFd) : Call Unit (id : RawFd → RawFd) where
  addr := addr
  tryFromRawFd := .ok
  bind := .ok bound
  asRawFd_eq := by
    intro fd l h
    cases h
    rfl

def twoCalls : List (Call Unit (id : RawFd → RawFd)) :=
  [inheriting "127.0.0.1:9000" 3, inheriting "/run/razor.sock" 4]

/-- A server on two addresses, and its child. -/
theorem hands_over_twoCalls :
    ∃ first child, Process.start none twoCalls = some first ∧
      HandsOver first.server [3, 4] ∧
      Successor Unit id (twoCalls.map Call.addr) first (some child) ∧
      child.server.recovered = true ∧ Inherits id 2 first child := by
  obtain ⟨hlists, hruns⟩ := hands_over_iff (E := Unit) (id : RawFd → RawFd)
  let first : Process RawFd := ⟨⟨[toString (3 : RawFd), toString (4 : RawFd)], false, []⟩, [3, 4]⟩
  let child : Process RawFd := ⟨⟨[toString (3 : RawFd), toString (4 : RawFd)], true, []⟩, [3, 4]⟩
  have hstart : Process.start none twoCalls = some first := rfl
  have hchild : first.child twoCalls = some child :=
    (Process.start_eq_some hstart).1.child_eq (by decide) twoCalls
  have hsucc : Successor Unit id (twoCalls.map Call.addr) first (some child) := by
    refine Lts.Reach.step twoCalls Lts.Reach.init ⟨rfl, ?_⟩ (congrArg some hchild)
    intro p _ h _ g _
    exact ⟨fun fd _ => ⟨fd, rfl⟩, fun fd _ => ⟨fd, rfl⟩, trivial⟩
  obtain ⟨p, hp, hinherits⟩ := (hruns none twoCalls first hstart).mpr (by decide) _ hsucc
  cases hp
  exact ⟨first, child, hstart, (hlists first.server [3, 4] rfl).mpr (by decide), hsucc, rfl,
    hinherits⟩

/-- A server that has registered no listener: the child does not get the empty list, it
panics on the empty text. -/
theorem no_listener_not_handed_over :
    GracefulServer.restart ⟨[], false, []⟩ = some ⟨[], "".toByteArray⟩ ∧
      GracefulServer.new (some "".toByteArray) = none ∧ ¬ HandsOver ⟨[], false, []⟩ [] := by
  have hnone : (⟨[], false, []⟩ : GracefulServer).listenFds = ([] : List RawFd).map toString := rfl
  have hrestart := restart_eq hnone
  rw [List.mergeSort_nil] at hrestart
  exact ⟨hrestart, new_empty, not_handsOver_nil hnone⟩

end RazorRpc.Graceful
