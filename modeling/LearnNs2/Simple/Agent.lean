import LearnNs2.Simple.Rtable

/-!
# The Simple agent

`Simple` of `simple.h` and the member functions of `simple.cc`. A function
returns the calls it makes on the rest of ns-2 as a list of effects, in the
order it makes them. A pointer is an `Option`: `none` is the null pointer, and
an effect through `none` is a call through it.
-/

namespace LearnNs2

set_option autoImplicit false

structure TclObject where
  handle : Nat
  deriving Repr, DecidableEq

inductive DropReason where
  | routeLoop
  | ttl
  | noRoute
  deriving Repr, DecidableEq

inductive Effect where
  /-- `rtable_.lookup(dest)` -/
  | lookup (dest : Nsaddr)
  | debug (text : Printf)
  | drop (p : Packet) (why : DropReason)
  /-- `Packet::free(p)` -/
  | free (p : Packet)
  /-- `dmux_->recv(p, 0)` -/
  | dmuxRecv (dmux : Option TclObject) (p : Packet)
  /-- `Scheduler::instance().schedule(target_, p, delay)` -/
  | schedule (target : Option TclObject) (p : Packet) (delay : ℚ)
  /-- A failed `assert`: the process stops here. -/
  | assertFail (cond : String)
  /-- `pkt_timer_.resched(delay)` -/
  | resched (delay : ℚ)
  /-- `sprintf` into the buffer of `out`, then `dump()` -/
  | dump (out : TclObject) (text : Printf)
  | stdout (text : Printf)
  | stderr (text : Printf)
  deriving Repr, DecidableEq

/-- The part of the base class that the agent uses: `target_` of `Connector`. -/
structure Agent where
  target : Option TclObject
  deriving Repr, DecidableEq

structure Simple extends Agent where
  raAddr : Nsaddr
  rtable : SimpleRtable
  seqNum : UInt8
  dmux : Option TclObject
  logtarget : Option TclObject

inductive TclResult where
  | ok
  | error
  deriving Repr, DecidableEq

/-- What a command finds outside the agent: the name table of
`TclObject::lookup`, and `Agent::command`, which knows only the base class. -/
structure TclEnv where
  lookup : String → Option TclObject
  agentCommand : Agent → List String → Agent × TclResult

structure Reply where
  agent : Simple
  code : TclResult
  effects : List Effect

def strcasecmpEq (s t : String) : Bool := s.toLower == t.toLower

namespace Simple

/-- The constructor sets the address and builds an empty table; every other
member keeps what the `memory` held. -/
def new (id : Nsaddr) (memory : Simple) : Simple :=
  { memory with raAddr := id, rtable := .new }

def toBase (env : TclEnv) (a : Simple) (argv : List String) : Reply :=
  let r := env.agentCommand a.toAgent argv
  ⟨{ a with toAgent := r.1 }, r.2, []⟩

def printRtable (a : Simple) : List Effect :=
  match a.logtarget with
  | some out =>
    .dump out ⟨"P %f _%d_ Routing Table", [.clock, .int a.raAddr.toInt]⟩ ::
      a.rtable.print.map (.dump out)
  | none =>
    [.stdout ⟨"%f _%d_ If you want to print this routing table, " ++
      "you must create a trace file in your tcl script", [.clock, .int a.raAddr.toInt]⟩]

def command (env : TclEnv) (a : Simple) (argv : List String) : Reply :=
  match argv with
  | [_, cmd] =>
    if strcasecmpEq cmd "start" then
      ⟨a, .ok, [.resched 0]⟩
    else if strcasecmpEq cmd "print_rtable" then
      ⟨a, .ok, a.printRtable⟩
    else
      a.toBase env argv
  | [_, cmd, name] =>
    if cmd = "port-dmux" then
      -- assigned before the test, so a failed lookup leaves a null pointer
      let a := { a with dmux := env.lookup name }
      if a.dmux = none then
        ⟨a, .error, [.stderr ⟨"%s: %s lookup of %s failed\n", [.file, .str cmd, .str name]⟩]⟩
      else
        ⟨a, .ok, []⟩
    else if cmd = "log-target" ∨ cmd = "tracetarget" then
      let a := { a with logtarget := env.lookup name }
      if a.logtarget = none then ⟨a, .error, []⟩ else ⟨a, .ok, []⟩
    else
      a.toBase env argv
  | _ => a.toBase env argv

/-- No branch assigns a member of the agent. -/
def forwardData (a : Simple) (p : Packet) : List Effect :=
  if p.cmn.direction = .up ∧ (p.ip.daddr.toUInt32 = ipBroadcast ∨ p.ip.daddr = a.raAddr) then
    [.dmuxRecv a.dmux p]
  else
    let p := { p with cmn.direction := .down, cmn.addrType := nsAfInet }
    if p.ip.daddr.toUInt32 = ipBroadcast then
      [.schedule a.target { p with cmn.nextHop := ipBroadcast.toInt32 } 0]
    else
      let nextHop := a.rtable.lookup p.ip.daddr
      -- `next_hop == IP_BROADCAST` converts the signed side to unsigned
      if nextHop.toUInt32 = ipBroadcast then
        [.lookup p.ip.daddr,
          .debug ⟨"%f: Agent %d can not forward a packet destined to %d\n",
            [.clock, .int a.raAddr.toInt, .int p.ip.daddr.toInt]⟩,
          .drop p .noRoute]
      else
        [.lookup p.ip.daddr, .schedule a.target { p with cmn.nextHop := nextHop } 0]

def recvSimplePkt (p : Packet) : List Effect :=
  if p.ip.sport ≠ rtPort then
    [.assertFail "ih->sport() == RT_PORT"]
  else if p.ip.dport ≠ rtPort then
    [.assertFail "ih->dport() == RT_PORT"]
  else
    [.free p]

def recvAccepted (a : Simple) (p : Packet) : List Effect :=
  if p.cmn.ptype = ptSimple then
    recvSimplePkt p
  else
    let p := { p with ip.ttl := p.ip.ttl - 1 }
    if p.ip.ttl = 0 then
      [.drop p .ttl]
    else
      a.forwardData p

/-- No branch assigns a member of the agent. -/
def recv (a : Simple) (p : Packet) : List Effect :=
  if p.ip.saddr = a.raAddr then
    if p.cmn.numForwards > 0 then
      [.drop p .routeLoop]
    else if p.cmn.numForwards = 0 then
      a.recvAccepted { p with cmn.size := p.cmn.size + ipHdrLen }
    else
      -- a negative count passes both tests: neither dropped nor charged
      a.recvAccepted p
  else
    a.recvAccepted p

/-- The packet `send_simple_pkt` fills in, from what `allocpkt()` returned. -/
def simplePkt (a : Simple) (p : Packet) : Packet :=
  { p with
    simple.pktSrc := a.raAddr
    simple.pktLen := 7
    simple.pktSeqNum := a.seqNum
    cmn.ptype := ptSimple
    cmn.direction := .down
    cmn.size := ipHdrLen + (7 : UInt16).toNat
    cmn.error := 0
    cmn.nextHop := ipBroadcast.toInt32
    cmn.addrType := nsAfInet
    ip.saddr := a.raAddr
    ip.daddr := ipBroadcast.toInt32
    ip.sport := rtPort
    ip.dport := rtPort
    ip.ttl := ipDefTtl }

/-- `p` is the packet `allocpkt()` returns, `uniform` the draw behind `JITTER`. -/
def sendSimplePkt (a : Simple) (p : Packet) (uniform : ℚ) : Simple × List Effect :=
  ({ a with seqNum := a.seqNum + 1 }, [.schedule a.target (a.simplePkt p) (uniform * (1 / 2))])

def resetSimplePktTimer : List Effect := [.resched 5]

/-- `Simple_PktTimer::expire` -/
def expire (a : Simple) (p : Packet) (uniform : ℚ) : Simple × List Effect :=
  let r := a.sendSimplePkt p uniform
  (r.1, r.2 ++ resetSimplePktTimer)

/-- An agent with `dmux_` and `target_` set and a table filled by `add_entry`. -/
def wired (id : Nsaddr) (routes : List (Nsaddr × Nsaddr)) : Simple where
  target := some ⟨0⟩
  raAddr := id
  rtable := routes.foldl (fun t r => t.addEntry r.1 r.2) .new
  seqNum := 0
  dmux := some ⟨1⟩
  logtarget := none

end Simple

end LearnNs2
