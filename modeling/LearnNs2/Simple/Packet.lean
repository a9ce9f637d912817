import Mathlib.Data.Rat.Defs
import Mathlib.Order.Basic

/-!
# Packet headers

The fields of `hdr_cmn`, `hdr_ip` and `hdr_simple_pkt` that the Simple agent
reads or writes. Addresses keep their 32 bits because the code compares them
through unsigned casts. So does the TTL, which an application may set to any
`int`: its decrement wraps at the least value, as compiled code does. The other
`int` fields are `Int`: signed overflow is undefined in C++, so a run whose
arithmetic is defined is a run of this model.
-/

namespace LearnNs2

set_option autoImplicit false

/-- `nsaddr_t`, a signed 32-bit address. -/
abbrev Nsaddr := Int32

/-- `IP_BROADCAST`, the unsigned constant of `ip.h`. -/
def ipBroadcast : UInt32 := 0xffffffff

def ipHdrLen : Int := 20

def ipDefTtl : Int32 := 32

def rtPort : Int := 255

/-- `packet_t`: an unsigned number, since dynamic libraries may add types. -/
abbrev PacketT := UInt32

def ptCbr : PacketT := 2

def ptSimple : PacketT := 62

def nsAfInet : Int := 2

inductive Dir where
  | down
  | none
  | up
  deriving Repr, DecidableEq

structure HdrCmn where
  ptype : PacketT
  size : Int
  uid : Int
  error : Int
  direction : Dir
  nextHop : Nsaddr
  addrType : Int
  numForwards : Int
  deriving Repr, DecidableEq

structure HdrIp where
  saddr : Nsaddr
  daddr : Nsaddr
  sport : Int
  dport : Int
  ttl : Int32
  deriving Repr, DecidableEq

structure HdrSimplePkt where
  pktSrc : Nsaddr
  pktLen : UInt16
  pktSeqNum : UInt8
  deriving Repr, DecidableEq

structure Packet where
  cmn : HdrCmn
  ip : HdrIp
  simple : HdrSimplePkt
  deriving Repr, DecidableEq

namespace Packet

/-- `Packet::alloc`: cleared header bits, next hop `-2` since `-1` is reserved
for `IP_BROADCAST`, direction down. -/
def alloc : Packet where
  cmn := ⟨0, 0, 0, 0, .down, -2, 0, 0⟩
  ip := ⟨0, 0, 0, 0, 0⟩
  simple := ⟨0, 0, 0⟩

/-- A packet as a traffic source hands it to the agent of its node. -/
def fresh (src dst : Nsaddr) (ttl : Int32) : Packet where
  cmn := { alloc.cmn with ptype := ptCbr, size := 500 }
  ip := ⟨src, dst, 0, 0, ttl⟩
  simple := ⟨0, 0, 0⟩

def IsData (p : Packet) : Prop := p.cmn.ptype ≠ ptSimple

def IsBroadcast (p : Packet) : Prop := p.ip.daddr.toUInt32 = ipBroadcast

instance (p : Packet) : Decidable p.IsData := inferInstanceAs (Decidable (_ ≠ _))

instance (p : Packet) : Decidable p.IsBroadcast := inferInstanceAs (Decidable (_ = _))

/-- What the layers below an agent do to a packet before another agent's
`recv` sees it. -/
def lower (p : Packet) : Packet :=
  { p with cmn.direction := .up, cmn.numForwards := p.cmn.numForwards + 1 }

def SameRoute (p q : Packet) : Prop :=
  q.cmn.ptype = p.cmn.ptype ∧ q.ip.saddr = p.ip.saddr ∧ q.ip.daddr = p.ip.daddr

theorem sameRoute_lower (p : Packet) : SameRoute p p.lower := ⟨rfl, rfl, rfl⟩

/-- `q` is `p` somewhere on its way. -/
def CopyOf (q p : Packet) : Prop := q.cmn.uid = p.cmn.uid ∧ SameRoute p q

theorem copyOf_lower (p : Packet) : p.lower.CopyOf p := ⟨rfl, sameRoute_lower p⟩

theorem CopyOf.trans {p q r : Packet} (hr : r.CopyOf q) (hq : q.CopyOf p) : r.CopyOf p :=
  ⟨hr.1.trans hq.1, hr.2.1.trans hq.2.1, hr.2.2.1.trans hq.2.2.1, hr.2.2.2.trans hq.2.2.2⟩

theorem SameRoute.isData {p q : Packet} (h : SameRoute p q) : q.IsData ↔ p.IsData := by
  simp [IsData, h.1]

theorem SameRoute.isBroadcast {p q : Packet} (h : SameRoute p q) :
    q.IsBroadcast ↔ p.IsBroadcast := by
  simp [IsBroadcast, h.2.2]

end Packet

theorem toUInt32_eq_ipBroadcast_iff (x : Nsaddr) :
    x.toUInt32 = ipBroadcast ↔ x = ipBroadcast.toInt32 := by
  constructor
  · intro h
    rw [← h]
    rfl
  · rintro rfl
    rfl

section Decrement

variable {x : Int32}

theorem toInt_sub_one (h : x ≠ Int32.minValue) : (x - 1).toInt = x.toInt - 1 := by
  have hlow := Int32.le_toInt x
  have hhigh := Int32.toInt_lt x
  have hne : x.toInt ≠ -2 ^ 31 := fun he => h (Int32.toInt_inj.mp he)
  rw [Int32.toInt_sub, Int32.toInt_one]
  exact Int.bmod_eq_of_le (by omega) (by omega)

theorem toInt_sub_one_of_pos (h : 0 < x.toInt) : (x - 1).toInt = x.toInt - 1 := by
  apply toInt_sub_one
  rintro rfl
  exact absurd h (by decide)

theorem sub_one_eq_zero_iff : x - 1 = 0 ↔ x.toInt = 1 := by
  rw [← Int32.toInt_one, Int32.toInt_inj]
  grind

/-- Below one only the least value is not decremented to a negative one. -/
theorem sub_one_nonneg_iff : 0 ≤ x - 1 ↔ 1 ≤ x ∨ x = Int32.minValue := by
  grind

theorem one_le_of_nonneg_of_ne_zero (h : 0 ≤ x) (hne : x ≠ 0) : 1 ≤ x := by
  grind

theorem one_le_iff_toInt : 1 ≤ x ↔ 1 ≤ x.toInt := by
  rw [Int32.le_iff_toInt_le, Int32.toInt_one]

end Decrement

end LearnNs2
