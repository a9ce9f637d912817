import LearnNs2.Cmu.NamTrace
import LearnNs2.Cmu.SimpleText
import LearnNs2.Lib.Printf

/-!
# The text of a trace record

The formatters of `CMUTrace` for the common, MAC, IP, TCP, RTP, SCTP and ARP
headers, each in its three modes. A piece of a record is a format with the
arguments it is printed with. The headers beside those of `Packet` and what the
nodes answer are in structures of their own; doubles are left open.
-/

namespace LearnNs2.RecordText

open Printf

set_option autoImplicit false

universe u

variable {D : Type u}

/-- `hdr_mac802_11`, with the addresses and the type as the macros read them. -/
structure HdrMac where
  /-- `fc_type` is that of control or management. -/
  controlType : Bool
  duration : ℕ
  ra : ℕ
  ta : ℕ
  etherType : ℕ

structure HdrSmac (D : Type u) where
  duration : D
  dstAddr : ℤ
  srcAddr : ℤ

structure HdrTcp where
  seqno : ℤ
  ackno : ℤ

structure HdrArp where
  /-- `arp_op` is `ARPOP_REQUEST`. -/
  request : Bool
  sha : ℤ
  spa : ℤ
  tha : ℤ
  tpa : ℤ

/-- `SctpChunkType_E`, with one name for the types that are not in the switch. -/
inductive SctpChunkType where
  | init
  | initAck
  | cookieEcho
  | cookieAck
  | data
  | sack
  | forwardTsn
  | hb
  | hbAck
  | other
  deriving Repr, DecidableEq

structure SctpChunk where
  eType : SctpChunkType
  uiTsn : UInt32
  usStreamId : UInt16
  usStreamSeqNum : UInt16

structure Headers (D : Type u) where
  mac : Packet → HdrMac
  smac : Packet → HdrSmac D
  tcp : Packet → HdrTcp
  /-- `hdr_rtp::seqno_` -/
  rtpSeqno : Packet → ℤ
  arp : Packet → HdrArp
  /-- `SctpTrace()`, of length `NumChunks()`. -/
  sctp : Packet → List SctpChunk
  flowid : Packet → ℤ
  optNumForwards : Packet → ℤ

/-- What an energy model answers. -/
structure Energy (D : Type u) where
  energy : D
  ei : D
  es : D
  et : D
  er : D
  powersavingflag : Bool

/-- A `Node`, which need not have an energy model. -/
structure NsNode (D : Type u) where
  energyModel : Option (Energy D)

/-- A trace object with its node set, and what it asks other objects at the time of a
record. -/
structure Recorder (D : Type u) where
  fl : Floats D
  headers : Headers D
  tagged : Bool
  newtrace : Int
  tracename : String
  tracetype : Nam.TraceLevel
  type : Nam.TraceOp
  src : ℤ
  clock : D
  /-- The digits of `TIME_FORMAT`. -/
  timeDigits : ℕ
  /-- `Simulator::macType` -/
  macType : String
  /-- `packet_info.name` -/
  name : PacketT → String
  /-- The name of a packet of `PT_MAC` or `PT_SMAC` by its subtype. -/
  subtypeName : Packet → String
  nodeaddr : Nsaddr → ℤ
  nodeid : Nsaddr → Option ℤ
  /-- `node_->getLoc` -/
  loc : D × D × D
  /-- `Node::get_node_by_address(src_)` -/
  thisnode : Option (NsNode D)
  /-- The double `-1`. -/
  minusOne : D
  /-- The formatters of the routing headers. -/
  routing : Header → Packet → Option (List Char)

/-- A call of `sprintf`. -/
structure Part (D : Type u) where
  fmt : List Piece
  values : List (Value D)

namespace Part

def text (fl : Floats D) (part : Part D) : List Char := print fl part.fmt part.values

/-- One call behind another. -/
def append (a b : Part D) : Part D := ⟨a.fmt ++ b.fmt, a.values ++ b.values⟩

def nothing : Part D := ⟨[], []⟩

end Part

namespace Recorder

variable (o : Recorder D) (p : Packet) (why : String)

def rendering : Rendering :=
  if o.tagged then .tagged else if o.newtrace ≠ 0 then .newTrace else .oldTrace

/-- The event type, which in a record of the router tells the packets that it
forwards from its own. -/
def op : Char :=
  if o.tracetype = .router ∧ o.type = .send ∧ o.src ≠ o.nodeaddr p.ip.saddr then 'f'
  else o.type.char

/-- The letter of an event type in a mode. -/
def opIn (m : Rendering) (op : Char) : Char :=
  match m with
  | .tagged => if op = 'D' then 'd' else if op = 's' then '+' else if op = 'f' then 'h' else op
  | .newTrace => if op = 'D' then 'd' else op
  | .oldTrace => op

def nextNode : ℤ := (o.nodeid p.cmn.nextHop).getD (-1)

def energy : Option (Energy D) := o.thisnode.bind NsNode.energyModel

def currentEnergy : D :=
  match o.energy with
  | some e => e.energy
  | none => o.minusOne

/-- The head of a record, before the MAC header. -/
def head : Rendering → Part D
  | .tagged => ⟨pieces "%c " ++ .conv 0 (.g o.timeDigits) ::
      pieces (" -s %d -d %d -p %s -k %3s -i %d " ++
        "-N:loc \x7b%.2f %.2f %.2f\x7d -N:en %f "),
      [.chr (opIn .tagged (o.op p)), .num o.clock, .int o.src, .int (o.nextNode p),
        .str (o.name p.cmn.ptype), .str o.tracename, .int p.cmn.uid, .num o.loc.1,
        .num o.loc.2.1, .num o.loc.2.2, .num o.currentEnergy]⟩
  | .newTrace => ⟨pieces
      ("%c -t %.9f -Hs %d -Hd %d -Ni %d -Nx %.2f -Ny %.2f -Nz %.2f -Ne %f -Nl %3s -Nw %s "),
      [.chr (opIn .newTrace (o.op p)), .num o.clock, .int o.src, .int p.cmn.nextHop.toInt,
        .int o.src, .num o.loc.1, .num o.loc.2.1, .num o.loc.2.2, .num o.currentEnergy,
        .str o.tracename, .str why]⟩
  | .oldTrace => ⟨pieces "%c %.9f _%d_ %3s %4s %d %s %d",
      [.chr (opIn .oldTrace (o.op p)), .num o.clock, .int o.src, .str o.tracename, .str why,
        .int p.cmn.uid,
        .str (if p.cmn.ptype = ptMac ∨ p.cmn.ptype = ptSmac then o.subtypeName p
          else o.name p.cmn.ptype),
        .int p.cmn.size]⟩

def formatPhy : Part D := ⟨pieces " ", []⟩

def macFmt : Rendering → List Piece
  | .tagged => pieces "-M:dur %x -M:s %x -M:d %x -M:t %x "
  | .newTrace => pieces "-Ma %x -Md %x -Ms %x -Mt %x "
  | .oldTrace => pieces " [%x %x %x %x] "

def formatMac (m : Rendering) : Part D :=
  let mh := o.headers.mac p
  let printEtherType := !(p.cmn.ptype = ptMac && mh.controlType)
  ⟨macFmt m, [.hex mh.duration, .hex mh.ra, .hex mh.ta,
    .hex (if printEtherType then mh.etherType else 0)]⟩

def formatSmac : Part D :=
  let sh := o.headers.smac p
  ⟨pieces " [%.2f %d %d] ", [.num sh.duration, .int sh.dstAddr, .int sh.srcAddr]⟩

def formatEnergy : Part D :=
  match o.energy with
  | some e => ⟨pieces "[energy %f ei %.3f es %.3f et %.3f er %.3f] ",
      [.num e.energy, .num e.ei, .num e.es, .num e.et, .num e.er]⟩
  | none => .nothing

/-- The part of the layers below. The old mode takes every MAC type that begins
with that of SMAC for it. -/
def formatLower : Rendering → Part D
  | .oldTrace =>
    if o.tracetype = .phy then formatPhy
    else
      (if "Mac/SMAC".toList <+: o.macType.toList then o.formatSmac p
        else o.formatMac p .oldTrace).append o.formatEnergy
  | m => if o.macType = "Mac/SMAC" then o.formatSmac p else o.formatMac p m

def formatMacCommon : Part D := (o.head p why o.rendering).append (o.formatLower p o.rendering)

def formatIp : Part D :=
  let src := o.nodeaddr p.ip.saddr
  let dst := o.nodeaddr p.ip.daddr
  let name := o.name p.cmn.ptype
  let values : List (Value D) := [.int src, .int p.ip.sport, .int dst, .int p.ip.dport, .str name,
    .int p.cmn.size, .int (o.headers.flowid p), .int p.cmn.uid, .int p.ip.ttl.toInt]
  match o.rendering with
  | .tagged => ⟨pieces ("-IP:s %d -IP:sp %d -IP:d %d -IP:dp %d -p %s -e %d " ++
      "-c %d -i %d -IP:ttl %d "), values⟩
  | .newTrace => ⟨pieces "-Is %d.%d -Id %d.%d -It %s -Il %d -If %d -Ii %d -Iv %d ", values⟩
  | .oldTrace => ⟨pieces "------- [%d:%d %d:%d %d %d] ",
      [.int src, .int p.ip.sport, .int dst, .int p.ip.dport, .int p.ip.ttl.toInt,
        .int (if p.cmn.nextHop < 0 then 0 else p.cmn.nextHop.toInt)]⟩

def arpFmt : Rendering → List Piece
  | .tagged => pieces "-arp:op %s -arp:ms %d -arp:s %d -arp:md %d -arp:d %d "
  | .newTrace => pieces "-P arp -Po %s -Pms %d -Ps %d -Pmd %d -Pd %d "
  | .oldTrace => pieces "------- [%s %d/%d %d/%d]"

def formatArp : Part D :=
  let ah := o.headers.arp p
  ⟨arpFmt o.rendering, [.str (if ah.request then "REQUEST" else "REPLY"), .int ah.sha, .int ah.spa,
    .int ah.tha, .int ah.tpa]⟩

def tcpFmt : Rendering → List Piece
  | .tagged => pieces "-tcp:s %d -tcp:a %d -tcp:f %d -tcp:o %d "
  | .newTrace => pieces "-Pn tcp -Ps %d -Pa %d -Pf %d -Po %d "
  | .oldTrace => pieces "[%d %d] %d %d"

def formatTcp : Part D :=
  let th := o.headers.tcp p
  ⟨tcpFmt o.rendering, [.int th.seqno, .int th.ackno, .int p.cmn.numForwards,
    .int (o.headers.optNumForwards p)]⟩

def rtpFmt : Rendering → List Piece
  | .tagged => pieces "-cbr:s %d -cbr:f %d -cbr:o %d "
  | .newTrace => pieces "-Pn cbr -Pi %d -Pf %d -Po %d "
  | .oldTrace => pieces "[%d] %d %d"

def rtpPart : Part D :=
  ⟨rtpFmt o.rendering, [.int (o.headers.rtpSeqno p), .int p.cmn.numForwards,
    .int (o.headers.optNumForwards p)]⟩

/-- What is printed, and whether the energy model of the node is set to `INROUTE`
first. -/
def formatRtp : Option (Part D × Bool) :=
  if o.nodeaddr p.ip.daddr = o.src then
    match o.thisnode with
    -- called through a null pointer
    | none => none
    | some node => some (o.rtpPart p, node.energyModel.any Energy.powersavingflag)
  else some (o.rtpPart p, false)

/-- `cChunkType`; the default of the switch is an assertion that fails. -/
def chunkType : SctpChunkType → Option Char
  | .init => some 'I'
  | .initAck => some 'I'
  | .cookieEcho => some 'I'
  | .cookieAck => some 'I'
  | .data => some 'D'
  | .sack => some 'S'
  | .forwardTsn => some 'R'
  | .hb => some 'H'
  | .hbAck => some 'B'
  | .other => none

/-- The text of a chunk. It does not ask whether the trace is tagged. -/
def formatChunk (c : SctpChunk) (letter : Char) : Part D :=
  let values : List (Value D) := [.int (o.headers.sctp p).length, .chr letter,
    .int c.uiTsn.toInt32.toInt, .int c.usStreamId.toNat, .int c.usStreamSeqNum.toNat,
    .int p.cmn.numForwards, .int (o.headers.optNumForwards p)]
  if o.newtrace ≠ 0 then
    ⟨pieces "-Pn sctp -Pnc %d -Pct %c -Ptsn %d -Psid %d -Pssn %d -Pf %d -Po %d ", values⟩
  else ⟨pieces "[%d %c %d %d %d] %d %d", values⟩

/-- The loop of `format_sctp`, which prints every chunk at the same offset. -/
def sctpLoop (offset : ℕ) : List SctpChunk → List Char → Option (List Char)
  | [], buffer => some buffer
  | c :: cs, buffer =>
    match chunkType c.eType with
    | none => none
    | some letter =>
      sctpLoop offset cs (sprintfAt buffer offset ((o.formatChunk p c letter).text o.fl))

def formatSctp (offset : ℕ) (buffer : List Char) : Option (List Char) :=
  sctpLoop o p offset (o.headers.sctp p) buffer

/-- The recorder in the model of `CMUTrace::format`. -/
def toCmuTrace : CmuTrace where
  tagged := o.tagged
  newtrace := o.newtrace
  formatMacCommon p why := (o.formatMacCommon p why).text o.fl
  formatIp p := (o.formatIp p).text o.fl
  formatHeader h p :=
    match h with
    | .arp => some ((o.formatArp p).text o.fl)
    | .msg => some []
    | .tcp => some ((o.formatTcp p).text o.fl)
    | .rtp => (o.formatRtp p).map fun r => r.1.text o.fl
    | .sctp => o.formatSctp p 0 []
    | h => o.routing h p

end Recorder

end LearnNs2.RecordText
