import Mathlib.Data.Finset.Card
import LearnNs2.Simple.Packet
import LearnNs2.Lib.Chain

/-!
# The pool of packets

`Packet::alloc`, `copy`, `refcopy` and `free` of `packet.h`, on a heap of packet
objects. A freed packet is kept on a list threaded through the same `next_`
field that queues use, and the next `alloc` takes it from there. An `assert`
that fails is `none`.
-/

namespace LearnNs2.Pool

set_option autoImplicit false

open Chains

universe u v

/-- The address of a packet object: the packets are numbered as `new` makes them. -/
abbrev Ptr := Nat

/-- `PacketData`. A byte that nothing has written is `none`. -/
structure PacketData where
  datalen : Int
  data : Vector (Option UInt8) datalen.toNat
  deriving DecidableEq

/-- `PacketData(int sz)`. -/
def PacketData.new (sz : Int) : PacketData := ⟨sz, Vector.replicate sz.toNat none⟩

inductive AppData (δ : Type u) where
  | packetData (d : PacketData)
  | other (d : δ)
  deriving DecidableEq

/-- What `packet.h` uses of classes that other headers define: the `copy` of the
other kinds of `AppData`, and the constructor and `init` of `PacketStamp`. -/
structure Elsewhere (δ : Type u) (σ : Type v) where
  copy : δ → δ
  stamp : σ
  init : σ → σ → σ

variable {δ : Type u} {σ : Type v}

/-- `AppData::copy`. -/
def Elsewhere.copyData (env : Elsewhere δ σ) : AppData δ → AppData δ
  | .packetData d => .packetData ⟨d.datalen, d.data⟩
  | .other d => .other (env.copy d)

/-- The header bits: the headers of the Simple agent's packets, and `last_hop_`. -/
structure Bits extends Packet where
  lastHop : Nsaddr
  deriving Repr, DecidableEq

/-- `bzero(p->bits_, hdrlen_)`. -/
def Bits.zero : Bits where
  cmn := ⟨0, 0, 0, 0, .none, 0, 0, 0⟩
  ip := ⟨0, 0, 0, 0, 0⟩
  simple := ⟨0, 0, 0⟩
  lastHop := 0

/-- What a packet holds for those who use it. -/
structure Content (δ : Type u) (σ : Type v) where
  bits : Bits
  data : Option (AppData δ)
  refCount : Nat
  next : Option Ptr
  uid : Int
  txinfo : σ
  deriving DecidableEq

/-- An object of class `Packet`. -/
structure Cell (δ : Type u) (σ : Type v) extends Content δ σ where
  fflag : Bool
  deriving DecidableEq

/-- The packets made so far are those below `size`; `freeList` is the static
`free_`. -/
structure Heap (δ : Type u) (σ : Type v) where
  cells : Ptr → Cell δ σ
  size : Nat
  freeList : Option Ptr

namespace Heap

variable (env : Elsewhere δ σ)

def set (h : Heap δ σ) (p : Ptr) (c : Cell δ σ) : Heap δ σ :=
  { h with cells := Function.update h.cells p c }

/-- What `alloc` does to a packet of either origin. -/
def ready (c : Cell δ σ) : Cell δ σ :=
  { c with
    bits := { Bits.zero with cmn.nextHop := -2, lastHop := -2, cmn.direction := .down }
    fflag := true
    next := none }

/-- `new Packet`. -/
def new : Cell δ σ := ⟨⟨Bits.zero, none, 0, none, 0, env.stamp⟩, false⟩

/-- `Packet::alloc()`. -/
def alloc (h : Heap δ σ) : Option (Ptr × Heap δ σ) :=
  match h.freeList with
  | some p =>
    let c := h.cells p
    if c.fflag = false ∧ c.data.isNone then
      some (p, { h.set p (ready { c with uid := 0 }) with freeList := c.next })
    else none
  | none => some (h.size, { h.set h.size (ready (new env)) with size := h.size + 1 })

/-- `p->allocdata(n)`. -/
def allocdata (h : Heap δ σ) (p : Ptr) (n : Int) : Option (Heap δ σ) :=
  if (h.cells p).data.isNone then
    some (h.set p { h.cells p with data := some (.packetData (.new n)) })
  else none

/-- `Packet::alloc(int)`. -/
def allocn (h : Heap δ σ) (n : Int) : Option (Ptr × Heap δ σ) :=
  match h.alloc env with
  | some (p, h) => if 0 < n then (h.allocdata p n).map (p, ·) else some (p, h)
  | none => none

/-- `Packet::free(p)`: to free a packet of the free list again does nothing. -/
def free (h : Heap δ σ) (p : Ptr) : Option (Heap δ σ) :=
  let c := h.cells p
  if c.fflag then
    if c.refCount = 0 then
      if c.uid ≤ 0 then
        some { h.set p { c with data := none, bits := .zero, next := h.freeList, fflag := false } with
          freeList := some p }
      else none
    else some (h.set p { c with refCount := c.refCount - 1 })
  else some h

/-- `p->refcopy()`. -/
def refcopy (h : Heap δ σ) (p : Ptr) : Heap δ σ :=
  h.set p { h.cells p with refCount := (h.cells p).refCount + 1 }

/-- `p->copy()`. -/
def copy (h : Heap δ σ) (p : Ptr) : Option (Ptr × Heap δ σ) :=
  match h.alloc env with
  | some (q, h) =>
    let this := h.cells p
    let c := h.cells q
    some (q, h.set q { c with
      bits := this.bits
      data := (this.data.map env.copyData).or c.data
      txinfo := env.init c.txinfo this.txinfo })
  | none => none

end Heap

/-- What the components of the simulator do with packets. Besides the functions
of the class, they write header fields, link packets into queues, and the
scheduler sets the `uid_`. -/
inductive Call (δ : Type u) where
  | alloc
  | allocn (n : Int)
  | copy (p : Ptr)
  | refcopy (p : Ptr)
  | free (p : Ptr)
  | allocdata (p : Ptr) (n : Int)
  | setdata (p : Ptr) (d : Option (AppData δ))
  | write (p : Ptr) (bits : Bits)
  | link (p : Ptr) (next : Option Ptr)
  | schedule (p : Ptr) (uid : Int)
  deriving DecidableEq

/-- The heap after a call, and the packet that the call hands out. -/
def Heap.exec (env : Elsewhere δ σ) (h : Heap δ σ) : Call δ → Option (Option Ptr × Heap δ σ)
  | .alloc => (h.alloc env).map fun r => (some r.1, r.2)
  | .allocn n => (h.allocn env n).map fun r => (some r.1, r.2)
  | .copy p => (h.copy env p).map fun r => (some r.1, r.2)
  | .refcopy p => some (some p, h.refcopy p)
  | .free p => (h.free p).map (none, ·)
  | .allocdata p n => (h.allocdata p n).map (none, ·)
  | .setdata p d => some (none, h.set p { h.cells p with data := d })
  | .write p bits => some (none, h.set p { h.cells p with bits := bits })
  | .link p next => some (none, h.set p { h.cells p with next := next })
  | .schedule p uid => some (none, h.set p { h.cells p with uid := uid })

/-- A simulation that has not used a packet yet. -/
def Heap.empty (env : Elsewhere δ σ) : Heap δ σ where
  cells _ := Heap.new env
  size := 0
  freeList := none

end LearnNs2.Pool
