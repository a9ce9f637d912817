import LearnNs2.Simple.Packet
import Std.Data.TreeMap

/-!
# The routing table `simple_rtable`

`std::map` is the ordered map of the standard library here. A line of text is
kept as its format and arguments, as the code hands them to `sprintf`.
-/

namespace LearnNs2

set_option autoImplicit false

inductive Arg where
  /-- `CURRENT_TIME` -/
  | clock
  /-- `__FILE__` -/
  | file
  | int (i : Int)
  | str (s : String)
  deriving Repr, DecidableEq

structure Printf where
  fmt : String
  args : List Arg
  deriving Repr, DecidableEq

structure SimpleRtable where
  rt : Std.TreeMap Nsaddr Nsaddr

namespace SimpleRtable

/-- The constructor leaves the map as `std::map` builds it. -/
def new : SimpleRtable := ⟨∅⟩

def print (t : SimpleRtable) : List Printf :=
  ⟨"P\tdest\tnext", []⟩ ::
    t.rt.toList.map fun e => ⟨"P\t%d\t%d", [.int e.1.toInt, .int e.2.toInt]⟩

def clear (_ : SimpleRtable) : SimpleRtable := ⟨∅⟩

def rmEntry (t : SimpleRtable) (dest : Nsaddr) : SimpleRtable := ⟨t.rt.erase dest⟩

def addEntry (t : SimpleRtable) (dest next : Nsaddr) : SimpleRtable :=
  ⟨t.rt.insert dest next⟩

/-- `IP_BROADCAST` stands for "no entry" in the result. -/
def lookup (t : SimpleRtable) (dest : Nsaddr) : Nsaddr :=
  match t.rt[dest]? with
  | none => ipBroadcast.toInt32
  | some next => next

def size (t : SimpleRtable) : UInt32 := UInt32.ofNat t.rt.size

@[simp] theorem lookup_new (dest : Nsaddr) : new.lookup dest = ipBroadcast.toInt32 := by
  simp [lookup, new]

@[simp] theorem getElem?_addEntry (t : SimpleRtable) (dest next : Nsaddr) :
    (t.addEntry dest next).rt[dest]? = some next := by
  simp [addEntry]

theorem lookup_of_entry {t : SimpleRtable} {dest next : Nsaddr} (h : t.rt[dest]? = some next) :
    t.lookup dest = next := by
  simp [lookup, h]

end SimpleRtable

end LearnNs2
