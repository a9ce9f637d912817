import LearnNs2.Cmu.CmuTrace
import LearnNs2.Lib.Binary64
import LearnNs2.Lib.Runs
import Mathlib.Logic.Function.Basic

/-!
# `CMUTrace::recv` and `CMUTrace::nam_format`

The trace objects of a wireless node write the events of its packets and the
colour of the node for nam. What they ask the node, the address tables and the
headers of other protocols is in a structure of its own. The parts for 802.15.4
are left out, as with `Nam_Status` off.
-/

namespace LearnNs2.Nam

open Binary64

set_option autoImplicit false

/-- `type_`, one of the letters `s`, `r`, `D` and `x`. -/
inductive TraceOp where
  | send
  | recv
  | drop
  | eot
  deriving Repr, DecidableEq

def TraceOp.char : TraceOp → Char
  | send => 's'
  | recv => 'r'
  | drop => 'D'
  | eot => 'x'

/-- `tracetype` -/
inductive TraceLevel where
  | router
  | phy
  | mac
  | ifq
  | agent
  deriving Repr, DecidableEq

/-- `MAX_NODE` -/
def maxNode : ℕ := 4096

structure CmuTrace where
  tracename : String
  tracetype : TraceLevel
  type : TraceOp
  src : ℕ
  /-- `node_` is set. -/
  initialized : Bool
  /-- `target_` is set. -/
  target : Bool
  /-- `pt_->namchannel()` -/
  namchannel : Bool
  nodeColor : ℕ → ℕ

/-- The constructor, or nothing where it ends the simulator. Three letters of the
name are copied (`MAX_ID_LEN`). -/
def CmuTrace.create (s : String) (t : TraceOp) : Option CmuTrace :=
  let s := String.ofList (s.toList.take 3)
  let level : Option TraceLevel :=
    if s = "RTR" then some .router
    else if s = "TRP" then some .router
    else if s = "PHY" then some .phy
    else if s = "MAC" then some .mac
    else if s = "IFQ" then some .ifq
    else if s = "AGT" then some .agent
    else none
  match level with
  | none => none
  | some level =>
    if t ≠ .eot ∨ level = .mac then
      some ⟨s, level, t, 0, false, false, false, fun _ => 3⟩
    else none

/-- What a node's `energy_model()` answers. -/
structure EnergyModel where
  energy : ℚ
  initialenergy : ℚ
  level1 : ℚ
  level2 : ℚ
  deriving Repr, DecidableEq

namespace EnergyModel

/-- `energy/initenergy` in doubles. It is infinite or not a number if nothing was
there in the beginning, and then no level has it between its bounds. -/
def energyLeft (em : EnergyModel) : Option ℚ :=
  let q := em.energy / em.initialenergy
  if em.initialenergy = 0 then none
  else if q < 0 then some (-nearest (-q))
  else some (nearest q)

/-- The three tests, of which the last one that holds decides. -/
def levelAt (l1 l2 left : ℚ) : ℕ :=
  let level := if left ≤ 1 ∧ l1 ≤ left then 3 else 0
  let level := if l2 ≤ left ∧ left < l1 then 2 else level
  if 0 < left ∧ left < l2 then 1 else level

def energyLevel (em : EnergyModel) : ℕ :=
  match em.energyLeft with
  | none => 0
  | some left => levelAt em.level1 em.level2 left

end EnergyModel

def colors : ℕ → String
  | 0 => "-c black -o red"
  | 1 => "-c red -o yellow"
  | 2 => "-c yellow -o green"
  | 3 => "-c green -o black"
  | _ => ""

/-- A line of the nam file, by the fields that are printed. -/
inductive Line where
  | event (op : Char) (t : ℚ) (s d : ℤ) (p : String) (e a i : ℤ) (k : String)
  | color (t : ℚ) (s : ℕ) (colors : String)
  deriving Repr, DecidableEq

structure Tables where
  /-- `ptype`, the name of the packet type or of the MAC subtype. -/
  ptype : Packet → String
  /-- A diffusion packet whose `mess_type` is not `DATA`. -/
  control : Packet → Bool
  /-- The `nodeid` of a node by its address. -/
  nodeid : Nsaddr → Option ℤ
  /-- `Address::get_nodeaddr` -/
  nodeaddr : Nsaddr → ℤ

/-- What a call has written, the object after it, and whether the packet went on
to `target_` or was freed. There is no object left if the simulator ended. -/
structure Outcome where
  lines : List Line
  trace : Option CmuTrace
  sent : Bool

namespace CmuTrace

variable (tables : Tables) (t : CmuTrace) (clock : ℚ) (p : Packet) (node : Option EnergyModel)

def eventLine (op : Char) : Line :=
  .event op clock t.src ((tables.nodeid p.cmn.nextHop).getD (-1)) (tables.ptype p) p.cmn.size
    (if p.cmn.ptype = ptDiff ∧ tables.control p then 1 else 0) p.cmn.uid t.tracename

/-- The type in the alphabet of nam. -/
def namOp : Char :=
  match t.type with
  | .send => 'h'
  | .drop => 'd'
  | .recv => 'r'
  | .eot => 'x'

/-- A packet that the router receives for one address is not an event for nam. -/
def returnsEarly : Prop :=
  t.tracetype = .router ∧ t.type = .recv ∧ tables.nodeaddr p.ip.daddr ≠ -1

instance : Decidable (t.returnsEarly tables p) := inferInstanceAs (Decidable (_ ∧ _ ∧ _))

/-- The lines, and the object unless an assertion or `exit` ends the simulator. -/
def namFormat : List Line × Option CmuTrace :=
  if t.type = .eot then ([], none)
  else
    let hop := if t.namOp = 'h' then [t.eventLine tables clock p '+', t.eventLine tables clock p '-']
      else []
    let event := t.eventLine tables clock p t.namOp
    if t.returnsEarly tables p then (hop, some t)
    else
      match node.filter (fun em => em.energy ≠ -1) with
      | none => (hop ++ [event], some t)
      | some em =>
        if maxNode ≤ t.src then (hop, none)
        else if t.nodeColor t.src ≠ em.energyLevel then
          (hop ++ [.color clock t.src (colors em.energyLevel), event],
            some { t with nodeColor := Function.update t.nodeColor t.src em.energyLevel })
        else (hop ++ [event], some t)

def nodeEnergy : Bool :=
  match node with
  | none => true
  | some em => 0 < em.energy

/-- `format`, as far as nam is concerned. -/
def traced : List Line × Option CmuTrace :=
  if t.namchannel then t.namFormat tables clock p node else ([], some t)

/-- `recv(Packet*, Handler*)` -/
def recv : Outcome :=
  if !nodeEnergy node then ⟨[], some t, false⟩
  else if !t.initialized then ⟨[], none, false⟩
  else
    let r := t.traced tables clock p node
    ⟨r.1, r.2, t.target⟩

/-- `recv(Packet*, const char*)` -/
def recvWhy : Outcome :=
  if !(t.initialized && t.type = .drop) then ⟨[], none, false⟩
  else if !nodeEnergy node then ⟨[], some t, false⟩
  else
    let r := t.traced tables clock p node
    ⟨r.1, r.2, false⟩

end CmuTrace

/-- The trace objects, the energy models of the nodes and the nam file. -/
structure State (ι : Type) where
  traces : ι → CmuTrace
  nodes : ℕ → Option EnergyModel
  file : List Line

inductive Event (ι : Type) where
  | recv (i : ι) (clock : ℚ) (p : Packet)
  | recvWhy (i : ι) (clock : ℚ) (p : Packet)
  /-- The energy of a node becomes `e`. -/
  | energy (n : ℕ) (e : ℚ)
  deriving Repr, DecidableEq

section Steps

variable {ι : Type} [DecidableEq ι] (tables : Tables)

namespace State

/-- Which call of a trace object an event is, and what comes of it. -/
def call (s : State ι) : Event ι → Option (ι × Outcome)
  | .recv i clock p =>
    some (i, (s.traces i).recv tables clock p (s.nodes (s.traces i).src))
  | .recvWhy i clock p =>
    some (i, (s.traces i).recvWhy tables clock p (s.nodes (s.traces i).src))
  | .energy _ _ => none

def afterCall (s : State ι) (i : ι) (lines : List Line) (t : CmuTrace) : State ι :=
  { s with traces := Function.update s.traces i t, file := s.file ++ lines }

def setEnergy (s : State ι) (n : ℕ) (em : EnergyModel) : State ι :=
  { s with nodes := Function.update s.nodes n (some em) }

end State

/-- The objects, the packets and the energy models take turns in any order. -/
inductive Step : State ι → Event ι → State ι → Prop where
  | call {s : State ι} {ev : Event ι} {i : ι} {r : Outcome} {t : CmuTrace} :
      s.call tables ev = some (i, r) → r.trace = some t → Step s ev (s.afterCall i r.lines t)
  | energy {s : State ι} {n : ℕ} {em : EnergyModel} (e : ℚ) :
      s.nodes n = some em → Step s (.energy n e) (s.setEnergy n { em with energy := e })

end Steps

end LearnNs2.Nam
