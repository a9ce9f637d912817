import LearnNs2.Lib.EventQueue
import LearnNs2.Lib.Runs
import Mathlib.Data.List.Nodup
import Mathlib.Data.Rat.Defs
import Mathlib.Logic.Function.Basic

/-!
# The sessions of `example4.6.tcl`

Source nodes with several TCP sessions each, counted as they start and end. The
type of times is left open, with the constants and the arithmetic of the script,
so that doubles are included. The network decides when a session ends; of events
at one time any may come first. A line of a file is kept as its columns.
-/

namespace LearnNs2

open EventQueue LabelledRuns

set_option autoImplicit false

/-- The agent `tcpsrc($i,$j)`: its variables `node` and `sess`. -/
@[ext]
structure Session where
  node : Nat
  sess : Nat
  deriving Repr, DecidableEq

/-- What the script passes to `$ns at`, but for the statistics of the queues.
The count of a start does not name its session in the script. -/
inductive Script where
  /-- `$ftp($i,$j) send [...]` -/
  | send (x : Session)
  /-- `countFlows $i 1`, for the session -/
  | start (x : Session)
  /-- `countFlows 1 3` -/
  | sample
  | finish
  deriving Repr, DecidableEq

inductive Column (τ : Type) where
  | int (n : ℤ)
  | time (t : τ)
  | text (s : String)
  deriving Repr, DecidableEq

/-- The agent's counters when `done` is called. -/
structure TcpStats where
  ndatapack : ℤ
  ndatabytes : ℤ
  nrexmitbytes : ℤ
  deriving Repr, DecidableEq

structure Setup (τ : Type) where
  nodeNb : Nat
  numberFlows : Nat
  starts : Session → τ
  sduration : τ
  /-- The text of `expr` for a quotient, or none if it raises an error. -/
  quotient : ℤ → τ → Option String

structure Sim (τ : Type) where
  now : τ
  agenda : List (τ × Script)
  cnts : Nat → ℤ
  /-- `$Conn`, the file of the samples -/
  conn : List (List (Column τ))
  /-- `$Out`, the file of the completed sessions -/
  out : List (List (Column τ))

/-- What happens in a run, as far as the script is called. -/
inductive SimLabel (τ : Type) where
  | script (t : τ) (e : Script)
  | done (t : τ) (x : Session) (stats : TcpStats)

def Script.start? : Script → Option Session
  | start x => some x
  | _ => none

namespace SimLabel

variable {τ : Type}

def time : SimLabel τ → τ
  | script t _ => t
  | done t _ _ => t

def start? : SimLabel τ → Option Session
  | script _ e => e.start?
  | done _ _ _ => none

def done? : SimLabel τ → Option (Session × τ)
  | script _ _ => none
  | done t x _ => some (x, t)

end SimLabel

namespace Setup

section Setup

variable {τ : Type} (c : Setup τ)

def sessions : List Session :=
  (List.range' 1 c.nodeNb).flatMap fun i => (List.range' 1 c.numberFlows).map fun j => ⟨i, j⟩

theorem mem_sessions_iff (x : Session) : x ∈ c.sessions ↔
    (1 ≤ x.node ∧ x.node ≤ c.nodeNb) ∧ 1 ≤ x.sess ∧ x.sess ≤ c.numberFlows := by
  obtain ⟨i, j⟩ := x
  simp only [sessions, List.mem_flatMap, List.mem_map, List.mem_range'_1, Session.mk.injEq]
  constructor
  · rintro ⟨i', hi, j', hj, rfl, rfl⟩
    omega
  · intro h
    exact ⟨i, by omega, j, by omega, rfl, rfl⟩

theorem nodup_sessions : c.sessions.Nodup := by
  have hrange : ∀ n, (List.range' 1 n).Nodup := fun n => List.nodup_range'
  rw [sessions, List.nodup_flatMap]
  constructor
  · intro i _
    exact (hrange c.numberFlows).map fun j j' h => (Session.mk.inj h).2
  · apply (hrange c.nodeNb).imp
    intro i i' hne x hx hx'
    obtain ⟨j, -, rfl⟩ := List.mem_map.mp hx
    obtain ⟨j', -, heq⟩ := List.mem_map.mp hx'
    exact hne (Session.mk.inj heq).1.symm

end Setup

section Script

variable {τ : Type} [Add τ] [Sub τ] [Zero τ] [OfScientific τ] (c : Setup τ)

/-- The simulator when `$ns run` begins. -/
def init : Sim τ where
  now := 0
  agenda := (c.sessions.flatMap fun x => [(c.starts x, .send x), (c.starts x, .start x)]) ++
    [(0.5, .sample), (c.sduration, .finish)]
  cnts := fun _ => 0
  conn := []
  out := []

def countFlows (s : Sim τ) (ind : Nat) (sign : ℤ) : Sim τ :=
  if sign = 0 then
    { s with cnts := Function.update s.cnts ind (s.cnts ind - 1) }
  else if sign = 1 then
    { s with cnts := Function.update s.cnts ind (s.cnts ind + 1) }
  else
    let row := (List.range' 1 c.nodeNb).foldl
      (fun (r : List (Column τ) × ℤ) j => (r.1 ++ [.int (s.cnts j)], r.2 + s.cnts j))
      ([.time s.now], 0)
    { s with
      conn := s.conn ++ [row.1 ++ [.int row.2], []]
      agenda := s.agenda ++ [(s.now + 0.2, .sample)] }

/-- `Agent/TCP instproc done`: without a result if `expr` fails, before anything
is written. The third column is `$time`, as the fourth is. -/
def done (s : Sim τ) (x : Session) (stats : TcpStats) : Option (Sim τ) :=
  let duration := s.now - c.starts x
  let i := x.node
  let j := x.sess
  let time := s.now
  (c.quotient stats.ndatabytes duration).map fun rate =>
    let s := { s with
      out := s.out ++ [[.int i, .int j, .time time, .time time, .time duration,
        .int stats.ndatapack, .int stats.ndatabytes, .int stats.nrexmitbytes, .text rate]] }
    c.countFlows s x.node 0

/-- A script that is due; `finish` exits. -/
def dispatch (s : Sim τ) : Script → Option (Sim τ)
  | .send _ => some s
  | .start x => some (c.countFlows s x.node 1)
  | .sample => some (c.countFlows s 1 3)
  | .finish => none

end Script

end Setup

section Runs

variable {τ : Type} [LinearOrder τ] [Add τ] [Sub τ] [Zero τ] [OfScientific τ] (c : Setup τ)

/-- Time does not go back, nor past anything on the agenda. A session may end at
any time, which the network decides. -/
inductive SimStep : Sim τ → SimLabel τ → Sim τ → Prop where
  | script {s u : Sim τ} {t : τ} {e : Script} {rest : List (τ × Script)} (hnow : s.now ≤ t)
      (hdue : Due s.agenda t e rest)
      (hrun : c.dispatch { s with now := t, agenda := rest } e = some u) :
      SimStep s (.script t e) u
  | done {s u : Sim τ} {t : τ} {x : Session} {stats : TcpStats} (hnow : s.now ≤ t)
      (hnext : ∀ a ∈ s.agenda, t ≤ a.1) (hrun : c.done { s with now := t } x stats = some u) :
      SimStep s (.done t x stats) u

abbrev SimRun (es : List (SimLabel τ)) (s : Sim τ) : Prop := Run (SimStep c) c.init es s

end Runs

section Histories

variable {τ : Type}

/-- The sessions that have been started, and those that have ended with the time
at which they did. -/
def started (es : List (SimLabel τ)) : List Session := es.filterMap SimLabel.start?

def completions (es : List (SimLabel τ)) : List (Session × τ) := es.filterMap SimLabel.done?

def completed (es : List (SimLabel τ)) : List Session := (completions es).map Prod.fst

/-- What ns-2 is relied on for: `done` is called at most once for a session, and
after its start. -/
def Orderly (es : List (SimLabel τ)) : Prop :=
  ∀ pre t x stats post, es = pre ++ .done t x stats :: post → x ∈ started pre ∧ x ∉ completed pre

theorem started_append (es : List (SimLabel τ)) (e : SimLabel τ) :
    started (es ++ [e]) = started es ++ e.start?.toList := by
  rw [started, List.filterMap_append]
  cases h : e.start? <;> simp [started, h]

theorem completions_append (es : List (SimLabel τ)) (e : SimLabel τ) :
    completions (es ++ [e]) = completions es ++ e.done?.toList := by
  rw [completions, List.filterMap_append]
  cases h : e.done? <;> simp [completions, h]

end Histories

end LearnNs2
