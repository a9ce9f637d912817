import LearnNs2.Fairness.Flowstats

/-!
# What `Collapse.tcl` writes into its data file

Each procedure is the lines it puts into the file. `test_simple` calls `new_cbr`
and `new_tcp` while it sets up the simulation; the counts are printed at the
print time in the order they were scheduled, and at the stop time come the stop
line and the flow statistics.
-/

namespace LearnNs2

open Awk Decimal

set_option autoImplicit false

def newCbr (pktSize fid dump : Nat) : List String :=
  if dump = 1 then [unwords ["fid", decimal fid, "packet-size", decimal pktSize]] else []

/-- `packetSize` is what a new agent has before the procedure sets it. -/
def newTcp (packetSize fid dump size : Nat) : List String :=
  let packetSize := if size > 0 then size else packetSize
  if dump = 1 then [unwords ["fid", decimal fid, "packet-size", decimal packetSize]] else []

def printCbrPkts (npkts fid : Nat) : String :=
  unwords ["fid", decimal fid, "total_packets_received", decimal npkts]

def printTcpPkts (ack fid : Nat) : String :=
  unwords ["fid", decimal fid, "total_packets_acked", decimal ack]

def printstop (stoptime : String) : String := unwords ["stop-time", stoptime]

def finishFlowstats (infile : List String) (cbrs tcps : Nat) : List String :=
  unwords ["cbrs:", decimal cbrs, "tcps:", decimal tcps] :: Flowstats.output infile

/-- One simulation: flows `0` to `cbrs - 1` are CBR, the `tcps` next ones TCP. The
flow monitor lists every flow once, in any order. -/
structure Experiment where
  cbrs : Nat
  tcps : Nat
  cbrSize : Nat
  /-- `packetSize_` of a new TCP agent, which a size of zero leaves alone. -/
  tcpDefault : Nat
  tcpSize : Nat → Nat
  received : Nat → Nat
  acked : Nat → Nat
  stop : String
  pktA : Nat → Nat
  pktD : Nat → Nat
  order : List Nat
  record : Nat → String
  cbrs_pos : 1 ≤ cbrs
  stop_word : isWord stop
  stop_numeric : looksNumeric stop
  stop_pos : 0 < atof stop
  order_perm : order.Perm (List.range (cbrs + tcps))
  record_flow : ∀ f ∈ order, IsFlow (record f) f (pktA f) (pktD f)

namespace Experiment

variable (x : Experiment)

def tcpFids : List Nat := List.range' x.cbrs x.tcps

/-- The file as the calls of `test_simple` leave it. -/
def file : List String :=
  (List.range x.cbrs).flatMap (fun i => newCbr x.cbrSize i 1) ++
    x.tcpFids.flatMap (fun i => newTcp x.tcpDefault i 1 (x.tcpSize i)) ++
    (List.range x.cbrs).map (fun i => printCbrPkts (x.received i) i) ++
    x.tcpFids.map (fun i => printTcpPkts (x.acked i) i) ++
    printstop x.stop :: finishFlowstats (x.order.map x.record) x.cbrs x.tcps

def packetSize (i : Nat) : Nat := if x.tcpSize i > 0 then x.tcpSize i else x.tcpDefault

theorem order_nodup : x.order.Nodup := x.order_perm.nodup_iff.mpr List.nodup_range

theorem order_ne_nil : x.order ≠ [] := by
  intro h
  have hlen := x.order_perm.length_eq
  have hpos := x.cbrs_pos
  rw [h, List.length_nil, List.length_range] at hlen
  omega

theorem statistics :
    Flowstats.output (x.order.map x.record) =
      x.order.map fun f => classLine (decimal f) (decimal (x.pktA f)) (decimal (x.pktD f)) :=
  Flowstats.output_eq x.order_ne_nil x.order_nodup x.record_flow

end Experiment

end LearnNs2
