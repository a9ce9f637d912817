import LearnNs2.Lib.Format
import LearnNs2.Simple.Packet

/-!
# `CMUTrace::format`

A record is the C string in the trace buffer. The formatters of the headers that
are not modelled are fields of the trace object: each gives the text that it
prints at its offset, or nothing if it aborts the simulator. The output for nam
goes to a buffer of its own and is left out.
-/

namespace LearnNs2

open Decimal

set_option autoImplicit false

def ptTcp : PacketT := 0

def ptUdp : PacketT := 1

def ptAck : PacketT := 5

def ptMessage : PacketT := 13

def ptArp : PacketT := 34

def ptMac : PacketT := 35

def ptTora : PacketT := 36

def ptDsr : PacketT := 37

def ptAodv : PacketT := 38

def ptImep : PacketT := 39

def ptPing : PacketT := 44

def ptDiff : PacketT := 46

def ptGaf : PacketT := 49

def ptSctp : PacketT := 55

def ptSmac : PacketT := 57

def ptAomdv : PacketT := 61

/-- The headers with a formatter of their own outside this model. -/
inductive Header where
  | arp
  | aodv
  | aomdv
  | tora
  | imep
  | dsr
  | msg
  | tcp
  | sctp
  | rtp
  deriving Repr, DecidableEq

structure CmuTrace where
  /-- `pt_->tagged()` -/
  tagged : Bool
  newtrace : Int
  formatMacCommon : Packet → String → List Char
  formatIp : Packet → List Char
  formatHeader : Header → Packet → Option (List Char)

/-- A class derived from `PacketTracer`. Its `format` is given the packet, the
offset, the buffer and `newtrace_`, and leaves its result and what the buffer
holds from the offset on. -/
structure PacketTracer where
  format : Packet → Nat → List Char → Int → Int × List Char

/-- The finished record. How many tracers were asked is not in the code. -/
structure Record where
  buffer : List Char
  asked : Nat
  deriving Repr, DecidableEq

/-- `sprintf(pt_->buffer() + offset, ...)` -/
def sprintfAt (buffer : List Char) (offset : Nat) (text : List Char) : List Char :=
  buffer.take offset ++ text

/-- `CMUTrace::addPacketTracer`; the list runs along `next_` from `pktTrc_`. -/
def addPacketTracer (pt : Option PacketTracer) (pktTrc : List PacketTracer) : List PacketTracer :=
  match pt with
  | none => pktTrc
  | some pt => pt :: pktTrc

/-- `PacketTracer::format_unknow`; it is not called on an empty chain. -/
def formatUnknow (p : Packet) (offset : Nat) (newtrace : Int) :
    List PacketTracer → List Char → Bool × Record
  | [], buffer => (false, ⟨buffer, 0⟩)
  | pt :: next, buffer =>
    let r := pt.format p offset buffer newtrace
    let buffer := sprintfAt buffer offset r.2
    if r.1 ≠ 0 then
      (true, ⟨buffer, 1⟩)
    else
      let rest := formatUnknow p offset newtrace next buffer
      (rest.1, ⟨rest.2.buffer, rest.2.asked + 1⟩)

/-- What follows a label of the inner switch. -/
inductive Case where
  /-- A call of one formatter, and `break`. -/
  | header (h : Header)
  /-- Nothing but `break`. -/
  | silent
  /-- `format_simple`, and on into `default` since there is no `break`. -/
  | simple
  | default
  deriving Repr, DecidableEq

/-- The labels of the inner switch before `default`. -/
def innerLabels : List (PacketT × Case) :=
  [(ptAodv, .header .aodv), (ptAomdv, .header .aomdv), (ptTora, .header .tora),
    (ptImep, .header .imep), (ptDsr, .header .dsr), (ptMessage, .header .msg),
    (ptUdp, .header .msg), (ptTcp, .header .tcp), (ptAck, .header .tcp), (ptSctp, .header .sctp),
    (ptCbr, .header .rtp), (ptDiff, .silent), (ptGaf, .silent), (ptPing, .silent),
    (ptSimple, .simple)]

def innerSwitch (ptype : PacketT) : Case := (innerLabels.lookup ptype).getD .default

namespace CmuTrace

/-- The text of `CMUTrace::format_simple`. -/
def formatSimple (t : CmuTrace) (p : Packet) : List Char :=
  let ph := p.simple
  let args : List ℤ := [ph.pktSrc.toInt, ph.pktSeqNum.toNat, ph.pktLen.toNat]
  if t.tagged then
    sprintf "-simple:o %d -simple:s %d -simple:l %d ".toList args
  else if t.newtrace ≠ 0 then
    sprintf "-P simple -Po %d -Ps %d -Pl %d ".toList args
  else
    sprintf "[simple %d %d %d] ".toList args

/-- A case with one call of a formatter: no text if it aborts. -/
def formatOne (t : CmuTrace) (h : Header) (p : Packet) (buffer : List Char) (offset : Nat) :
    Option Record :=
  (t.formatHeader h p).map fun text => ⟨sprintfAt buffer offset text, 0⟩

/-- The label `default` of the inner switch. -/
def formatDefault (t : CmuTrace) (pktTrc : List PacketTracer) (p : Packet) (buffer : List Char)
    (offset : Nat) : Record :=
  (formatUnknow p offset t.newtrace pktTrc buffer).2

def format (t : CmuTrace) (pktTrc : List PacketTracer) (p : Packet) (why : String) :
    Option Record :=
  let buffer := t.formatMacCommon p why
  let offset := buffer.length
  if p.cmn.ptype = ptMac ∨ p.cmn.ptype = ptSmac then
    some ⟨buffer, 0⟩
  else if p.cmn.ptype = ptArp then
    t.formatOne .arp p buffer offset
  else
    let buffer := sprintfAt buffer offset (t.formatIp p)
    let offset := buffer.length
    match innerSwitch p.cmn.ptype with
    | .header h => t.formatOne h p buffer offset
    | .silent => some ⟨buffer, 0⟩
    | .simple =>
      let buffer := sprintfAt buffer offset (t.formatSimple p)
      some (t.formatDefault pktTrc p buffer offset)
    | .default => some (t.formatDefault pktTrc p buffer offset)

end CmuTrace

/-- The packet types with a case of their own in one of the two switches. -/
def OwnCase (ptype : PacketT) : Prop :=
  ptype = ptMac ∨ ptype = ptSmac ∨ ptype = ptArp ∨ ptype ∈ innerLabels.map Prod.fst

instance (ptype : PacketT) : Decidable (OwnCase ptype) :=
  inferInstanceAs (Decidable (_ ∨ _ ∨ _ ∨ _))

@[simp] theorem sprintfAt_length (buffer text : List Char) :
    sprintfAt buffer buffer.length text = buffer ++ text := by
  rw [sprintfAt, List.take_length]

theorem mem_innerLabels {ptype : PacketT} (h : ptype ∈ innerLabels.map Prod.fst) :
    (ptype, innerSwitch ptype) ∈ innerLabels := by
  unfold innerSwitch
  cases hc : innerLabels.lookup ptype with
  | none =>
    obtain ⟨l, hl, rfl⟩ := List.mem_map.mp h
    have hno := List.lookup_eq_none_iff.mp hc l hl
    simp at hno
  | some c =>
    obtain ⟨pre, post, hsplit, -⟩ := List.lookup_eq_some_iff.mp hc
    rw [hsplit, Option.getD_some]
    exact List.mem_append_right pre List.mem_cons_self

end LearnNs2
