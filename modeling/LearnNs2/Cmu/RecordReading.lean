import LearnNs2.Cmu.PacketTracers
import LearnNs2.Cmu.RecordText

/-!
# Reading a trace record

The pieces of a record are printed one behind another, and nothing marks where
one begins. Each mode can be read back all the same: no conversion runs into the
literal behind it, in a piece or between two.
-/

namespace LearnNs2.RecordText

open Decimal Printf

set_option autoImplicit false

universe u

variable {D : Type u} {o : Recorder D} {p : Packet} {why : String}

/-- A piece that can be read back. -/
structure Good (fl : Floats D) (part : Part D) : Prop where
  separated : Separated part.fmt
  fitting : Fitting fl part.fmt part.values

namespace Good

variable {fl : Floats D} {a b : Part D}

theorem nothing : Good fl (Part.nothing : Part D) := ⟨rfl, .nil⟩

theorem append (ha : Good fl a) (hb : Good fl b) (h : ∀ k ∈ lastConv a.fmt, Ends k b.fmt) :
    Good fl (a.append b) :=
  ⟨separated_append ha.separated hb.separated h, ha.fitting.append hb.fitting⟩

/-- A piece that ends with a literal goes before any other. -/
theorem append_of_lit (ha : Good fl a) (hb : Good fl b) (h : lastConv a.fmt = none) :
    Good fl (a.append b) := by
  refine ha.append hb ?_
  rw [h]
  exact fun k hk => by cases hk

end Good

section Pieces

/-- A piece that begins with a literal and ends with one, so that it can stand
behind and before any other of which that is true. -/
structure Framed (fl : Floats D) (part : Part D) : Prop where
  good : Good fl part
  last : lastConv part.fmt = none
  ne_nil : part.fmt ≠ []

theorem Framed.append {fl : Floats D} {a b : Part D} (ha : Framed fl a) (hb : Framed fl b) :
    Framed fl (a.append b) where
  good := ha.good.append_of_lit hb.good ha.last
  last := (lastConv_append a.fmt hb.ne_nil).trans hb.last
  ne_nil := List.append_ne_nil_of_left_ne_nil ha.ne_nil b.fmt

end Pieces

section Records

/-- The piece of the header that is the packet's own. -/
def Recorder.own (o : Recorder D) (p : Packet) : Part D :=
  match innerSwitch p.cmn.ptype with
  | .header .tcp => o.formatTcp p
  | .header .rtp => o.rtpPart p
  | .simple => ⟨piecesFrom .text o.rendering.fmt, p.simple.numbers.map Value.int⟩
  | _ => .nothing

/-- All the pieces of a record. -/
def Recorder.record (o : Recorder D) (p : Packet) (why : String) : Part D :=
  if p.cmn.ptype = ptMac ∨ p.cmn.ptype = ptSmac then o.formatMacCommon p why
  else if p.cmn.ptype = ptArp then (o.formatMacCommon p why).append (o.formatArp p)
  else ((o.formatMacCommon p why).append (o.formatIp p)).append (o.own p)

/-- No tracer of a library prints into the record. -/
def Undisturbed (pktTrc : List PacketTracer) (p : Packet) : Prop :=
  pktTrc = [] ∨ OwnCase p.cmn.ptype ∧ p.cmn.ptype ≠ ptSimple

/-- The texts of all that is printed in a record. -/
def Recorder.fields (o : Recorder D) (p : Packet) (why : String) : List (List Char) :=
  List.zipWith (render o.fl) (convs (o.record p why).fmt) (o.record p why).values

/-- What `printf` does with doubles that are integers. -/
def integral : Floats ℤ where
  fixed n x := decimalInt x ++ (if n = 0 then [] else '.' :: List.replicate n '0')
  general _ x := decimalInt x

/-- The record of a CBR packet in the old mode. -/
def cbrRecorder : Recorder ℤ where
  fl := integral
  headers := ⟨fun _ => ⟨false, 0, 0, 0, 0⟩, fun _ => ⟨0, 0, 0⟩, fun _ => ⟨0, 0⟩, fun _ => 3,
    fun _ => ⟨true, 0, 0, 0, 0⟩, fun _ => [], fun _ => 0, fun _ => 0⟩
  tagged := false
  newtrace := 0
  tracename := "AGT"
  tracetype := .agent
  type := .send
  src := 0
  clock := 1
  timeDigits := 15
  macType := "Mac/802_11"
  name _ := "cbr"
  subtypeName _ := "UNKN"
  nodeaddr a := a.toInt
  nodeid _ := none
  loc := (0, 0, 0)
  thisnode := none
  minusOne := -1
  routing _ _ := none

end Records

end LearnNs2.RecordText
