import Latchkey.Program.Basic
import Latchkey.Filter.Plan
import Latchkey.Filter.Offsets

/-!
# Membership filters

A filter is one bit string of the store. Adding an element sets its bits; an element may have been
added if all its bits are set. So an element that was added is always found, while one that was not
may be found too.
-/

namespace Latchkey

namespace FilterPlan

variable {X : Extension}

/-- Makes the bit string unless its key has a value: the last bit is written as zero, so that all
are there, and then the lifetime is given. An existing value is left as it is. -/
def prepare (p : FilterPlan) : Action X StoreError Unit :=
  Action.withConnection (Action.connectionFor p.name) fun conn => do
    if ← Action.send conn (.present p.name) then return ()
    else
      let _ ← Action.send conn (.setBit p.name (p.bits - 1) false)
      match p.expiration with
      | some ms =>
        if 0 < ms then
          let _ ← Action.send conn (.expire p.name ms)
          return ()
        else return ()
      | none => return ()

/-- Makes or adopts the filter that settings ask for. -/
def create (s : FilterSettings) : Action X Failure FilterPlan := do
  match ofSettings s with
  | .error failure => throw failure
  | .ok p =>
    Action.orFail p.prepare
    Action.perform (.count (.filter .create))
    return p

/-- The offsets of an element. -/
def offsets (p : FilterPlan) (element : String) : List Nat := bitOffsets element p.rounds p.bits

/-- Sets bits, one after the other. -/
def setBits (conn : Connection) (key : String) : List Nat → Action X StoreError Unit
  | [] => return ()
  | offset :: rest => do
    let _ ← Action.send conn (.setBit key offset true)
    setBits conn key rest

/-- Whether bits are set, up to the first that is not. -/
def allSet (conn : Connection) (key : String) : List Nat → Action X StoreError Bool
  | [] => return true
  | offset :: rest => do
    if ← Action.send conn (.getBit key offset) then allSet conn key rest else return false

/-- Adds an element. -/
def add (p : FilterPlan) (element : String) : Action X Failure Unit := do
  Action.orFail <| Action.withConnection (Action.connectionFor p.name) fun conn =>
    setBits conn p.name (p.offsets element)
  Action.perform (.count (.filter .add))

/-- Whether an element may have been added. -/
def test (p : FilterPlan) (element : String) : Action X Failure Bool := do
  Action.perform (.count (.filter .test))
  Action.orFail <| Action.withConnection (Action.connectionFor p.name) fun conn =>
    allSet conn p.name (p.offsets element)

end FilterPlan

end Latchkey
