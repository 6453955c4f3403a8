import Std.Data.HashMap
import Gpio.Collaborator

/-!
# A simulated interrupt domain

Line `n` is mapped to virtual interrupt `base + n`. A domain can refuse one
line, hide others from the forward lookup, and write to the device when a
handler runs. It keeps the flow of every virtual interrupt and the order in
which mappings were disposed.
-/

set_option autoImplicit false

namespace Gpio.Simulation

inductive Occasion where
  | enter
  | exit
  | handled (virq : UInt32)
  deriving DecidableEq, Repr

structure Reaction where
  occasion : Occasion
  bank : Nat
  offset : Nat
  value : Word

structure DomainSpec where
  base : UInt32
  refuses : Option UInt32
  /-- Lines that the forward lookup does not find. -/
  holes : List UInt32
  /-- Entering and leaving the chained handler goes unnoticed. -/
  silent : Bool
  reactions : List Reaction

def DomainSpec.plain : DomainSpec := ⟨32, none, [], false, []⟩

structure Domain where
  spec : DomainSpec
  mapped : Array Bool
  flows : Std.HashMap UInt32 Flow
  disposed : Array UInt32

namespace Domain

def ofSpec (spec : DomainSpec) : Domain :=
  ⟨spec, Array.replicate Layout.lineCount false, ∅, #[]⟩

def virqOf? (d : Domain) (line : UInt32) : Option UInt32 :=
  if d.spec.base.toNat + line.toNat < 0x100000000 then some (d.spec.base + line) else none

def isMapped (d : Domain) (n : Nat) : Bool := d.mapped.getD n false

def create (d : Domain) (line : UInt32) : Option UInt32 × Domain :=
  if d.spec.refuses = some line ∨ Layout.lineCount ≤ line.toNat then (none, d)
  else
    match d.virqOf? line with
    | none => (none, d)
    | some virq => (some virq, { d with mapped := d.mapped.setIfInBounds line.toNat true })

def find (d : Domain) (line : UInt32) : Option UInt32 :=
  if d.spec.holes.contains line ∨ d.isMapped line.toNat = false then none else d.virqOf? line

/-- The mapped line behind a virtual interrupt; holes do not matter here. -/
def lineOf (d : Domain) (virq : UInt32) : Option UInt32 :=
  if d.spec.base ≤ virq ∧ d.isMapped (virq.toNat - d.spec.base.toNat) = true then
    some (virq - d.spec.base)
  else none

def dispose (d : Domain) (virq : UInt32) : Domain :=
  let d := { d with disposed := d.disposed.push virq }
  match d.lineOf virq with
  | some line => { d with mapped := d.mapped.setIfInBounds line.toNat false }
  | none => d

def react (d : Domain) (bank? : Nat → Option Bank) (o : Occasion) : List HostWrite :=
  d.spec.reactions.filterMap fun r =>
    if r.occasion = o then (bank? r.bank).map fun k => ⟨k, r.offset, r.value⟩ else none

def reactChained (d : Domain) (bank? : Nat → Option Bank) (o : Occasion) : List HostWrite :=
  if d.spec.silent then [] else d.react bank? o

def answer (d : Domain) (bank? : Nat → Option Bank) : (c : DomainCall) → Answer Domain c.Reply
  | .create line =>
    let (virq, d) := d.create line
    { reply := virq, world := d }
  | .find line => { reply := d.find line, world := d }
  | .lineOf virq => { reply := d.lineOf virq, world := d }
  | .dispose virq => { reply := (), world := d.dispose virq }
  | .setFlow virq flow => { reply := (), world := { d with flows := d.flows.insert virq flow } }
  | .setChained _ _ => { reply := (), world := d }
  | .handle virq => { reply := (), world := d, writes := d.react bank? (.handled virq) }
  | .enter _ => { reply := (), world := d, writes := d.reactChained bank? .enter }
  | .exit _ => { reply := (), world := d, writes := d.reactChained bank? .exit }

end Domain
end Gpio.Simulation
