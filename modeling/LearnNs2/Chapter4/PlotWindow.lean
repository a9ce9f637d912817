import LearnNs2.Lib.EventQueue
import LearnNs2.Lib.Runs
import Mathlib.Data.Rat.Defs

/-!
# `plotWindow` of `example4.5a.tcl` and `example4.5b.tcl`

A process for each TCP source writes its window into one file and schedules
itself again. The scheduler runs events of one time as they were scheduled. What
the windows are, and what else the simulator runs, is left open, and so is the
type of times with the arithmetic of `expr`.
-/

namespace LearnNs2

open EventQueue LabelledRuns

set_option autoImplicit false

/-- What the simulator runs; `other` is all that does not touch the file, as a
packet or a script for a source. -/
inductive PlotEvent (X : Type) where
  /-- `plotWindow $tcp_src($j) $windowVsTime $k` -/
  | plotWindow (tcpSource k : Nat)
  | finish
  | other (x : X)

structure PlotSetup (τ σ X : Type) where
  numbSrc : Nat
  duration : τ
  /-- The text of `[$ns now]`. -/
  timeText : τ → String
  /-- The text of `[$tcpSource set cwnd_]`. -/
  cwnd : σ → Nat → String
  /-- What another event does, and what it schedules; none if the program ends. -/
  act : X → τ → σ → Option (σ × List (τ × X))

structure PlotSim (τ σ X : Type) [LinearOrder τ] where
  now : τ
  queue : Fifo τ (PlotEvent X)
  net : σ
  /-- `$windowVsTime` -/
  file : String

/-- A process has run, and has found this window. -/
structure Firing (τ : Type) where
  time : τ
  tcpSource : Nat
  cwnd : String
  deriving Repr, DecidableEq

inductive PlotLabel (τ X : Type) where
  | plotWindow (f : Firing τ)
  | other (t : τ) (x : X)

def PlotLabel.firing? {τ X : Type} : PlotLabel τ X → Option (Firing τ)
  | plotWindow f => some f
  | other _ _ => none

def firings {τ X : Type} (es : List (PlotLabel τ X)) : List (Firing τ) :=
  es.filterMap PlotLabel.firing?

/-- What the process `k` puts into the file. -/
def plotText (numbSrc k : Nat) (now cwnd : String) : String :=
  (if k = 1 then now ++ "\t" ++ cwnd ++ "\t" else if k < numbSrc then cwnd ++ "\t" else "") ++
    if k = numbSrc then cwnd ++ " \n" else ""

namespace PlotSetup

variable {τ σ X : Type} [LinearOrder τ] [Add τ] [Zero τ] [OfScientific τ] (c : PlotSetup τ σ X)

def plotWindow (s : PlotSim τ σ X) (tcpSource k : Nat) : PlotSim τ σ X :=
  { s with
    file := s.file ++ plotText c.numbSrc k (c.timeText s.now) (c.cwnd s.net tcpSource)
    queue := s.queue.insert (s.now + 0.03) (.plotWindow tcpSource k) }

def others (xs : List (τ × X)) : List (τ × PlotEvent X) := xs.map fun x => (x.1, .other x.2)

/-- The calls of the loop over the sources. -/
def plots : List (τ × PlotEvent X) :=
  (List.range' 1 c.numbSrc).map fun j => (0.1, .plotWindow j j)

/-- The simulator when `$ns run` begins; `before` and `after` are what the script
schedules before and after the loop. -/
def init (net : σ) (before after : List (τ × X)) : PlotSim τ σ X where
  now := 0
  queue := (((Fifo.empty.insertAll (others before)).insertAll c.plots).insertAll
    (others after)).insert c.duration .finish
  net := net
  file := ""

/-- The next event runs; none if there is none, or it ends the program. -/
def next (s : PlotSim τ σ X) : Option (PlotLabel τ X × PlotSim τ σ X) :=
  match s.queue.entries with
  | [] => none
  | (t, e) :: _ =>
    let s := { s with now := t, queue := s.queue.tail }
    match e with
    | .plotWindow tcpSource k =>
      some (.plotWindow ⟨t, tcpSource, c.cwnd s.net tcpSource⟩, c.plotWindow s tcpSource k)
    | .finish => none
    | .other x => (c.act x t s.net).map fun r =>
      (.other t x, { s with net := r.1, queue := s.queue.insertAll (others r.2) })

abbrev PlotRun (net : σ) (before after : List (τ × X)) (es : List (PlotLabel τ X))
    (s : PlotSim τ σ X) : Prop :=
  Run (fun s e u => c.next s = some (e, u)) (c.init net before after) es s

end PlotSetup

end LearnNs2
