import Gpio.Fault
import Gpio.Layout

/-!
# Ports, pins and lines

The line space is flat: line `8 * p + i` is pin `i` of port `p`. The table
gives each port's owner, its place among the owner's ports, and its pins;
offsets follow from these. A port without an owner is a hole in the line
space: its lines resolve, and are never valid.
-/

set_option autoImplicit false

namespace Gpio

inductive BankKind where
  | main
  | aon
  deriving DecidableEq, Repr

def BankKind.index : BankKind → Nat
  | main => 0
  | aon => 1

structure Port where
  name : String
  controller : Option UInt8
  slot : Nat
  pins : Nat
  bank : BankKind
  security : Nat
  registers : Nat
  deriving DecidableEq, Repr

namespace Port

def main (name : String) (c slot pins : Nat) : Port where
  name := name
  controller := some (UInt8.ofNat c)
  slot := slot
  pins := pins
  bank := .main
  security := c * Layout.controllerStride + slot * Layout.securityPortStride
  registers := Layout.mainRegisters + c * Layout.controllerStride + slot * Layout.portStride

def aon (name : String) (c slot pins : Nat) : Port where
  name := name
  controller := some (UInt8.ofNat c)
  slot := slot
  pins := pins
  bank := .aon
  security := slot * Layout.securityPortStride
  registers := Layout.aonRegisters + slot * Layout.portStride

def hole (name : String) : Port where
  name := name
  controller := none
  slot := 0
  pins := 0
  bank := .main
  security := 0
  registers := 0

def statusOffset (p : Port) : Nat := p.registers + Layout.statusRegion + Layout.statusWord

def extent (p : Port) : Nat :=
  max (p.statusOffset + 4)
    (p.security + (p.pins - 1) * Layout.securityPinStride + Layout.securityWord + 4)

end Port

inductive PortLetter where
  | a | b | c | d | e | f | g | h | i | j | k | l | m | n | o | p
  | q | r | s | t | u | v | w | x | y | z | aa | bb | cc | dd | ee | ff
  deriving DecidableEq, Repr

def PortLetter.index (letter : PortLetter) : Nat := letter.ctorIdx

def ports : List Port := [
  .main "A" 2 0 7, .main "B" 3 0 7, .main "C" 3 1 7, .main "D" 3 2 6,
  .main "E" 2 1 8, .main "F" 2 2 6, .main "G" 4 1 6, .main "H" 1 0 7,
  .main "I" 0 4 8, .main "J" 5 0 8, .main "K" 5 1 1, .main "L" 1 1 8,
  .main "M" 5 3 6, .main "N" 0 0 7, .main "O" 0 1 4, .main "P" 4 0 7,
  .main "Q" 0 2 6, .main "R" 0 5 6, .aon "S" 6 1 5, .main "T" 0 3 4,
  .aon "U" 6 2 6, .aon "V" 6 4 8, .aon "W" 6 5 8, .main "X" 1 2 8,
  .main "Y" 1 3 7, .aon "Z" 6 7 4, .aon "AA" 6 6 8, .main "BB" 2 3 2,
  .main "CC" 5 2 4, .hole "DD", .aon "EE" 6 3 3, .aon "FF" 6 0 5]

def lineOf (port pin : Nat) : UInt32 := UInt32.ofNat (port * Layout.pinsPerPort + pin)

/-- Like `lineOf`, where the number itself has to fit 64 bits. -/
def lineNumber (port pin : Nat) : Checked UInt32 := do
  let start ← checkedMul port Layout.pinsPerPort
  let n ← checkedAdd start pin
  pure (UInt32.ofNat n)

def lines : List UInt32 := (List.range Layout.lineCount).map UInt32.ofNat

structure Location where
  port : Nat
  pin : Nat
  bank : BankKind
  registers : Nat
  security : Nat
  controller : Option UInt8
  /-- The port is implemented and has this pin. -/
  valid : Bool
  deriving DecidableEq, Repr

def Location.offset (l : Location) (r : PinRegister) : Nat := l.registers + r.offset

def Port.locate (p : Port) (port pin : Nat) : Location where
  port := port
  pin := pin
  bank := p.bank
  registers := p.registers + pin * Layout.pinStride
  security := p.security + pin * Layout.securityPinStride + Layout.securityWord
  controller := p.controller
  valid := p.controller.isSome && pin < p.pins

/-- Defined on the whole line space and nowhere else. -/
def resolve (line : UInt32) : Option Location :=
  let port := line.toNat / Layout.pinsPerPort
  ports[port]?.map fun p => p.locate port (line.toNat % Layout.pinsPerPort)

def portName (line : UInt32) : Option (String × Nat) := do
  let l ← resolve line
  let p ← ports[l.port]?
  pure (p.name, l.pin)

def placePort (controller : UInt8) (map : List (Option Nat)) (q : Port × Nat) :
    List (Option Nat) :=
  if q.1.controller == some controller then map.set q.1.slot (some q.2) else map

/-- The ports of a controller by their place in it. Of two ports at one place, the later stays. -/
def controllerPorts (controller : UInt8) : List (Option Nat) :=
  ports.zipIdx.foldl (placePort controller) (List.replicate Layout.portsPerController none)

def requiredBanks : Nat :=
  ((ports.filter (·.controller.isSome)).map (·.bank.index + 1)).foldl max 0

def bankExtent (kind : BankKind) : Nat :=
  ((ports.filter fun p => p.controller.isSome && p.bank == kind).map Port.extent).foldl max 0

theorem length_ports : ports.length = Layout.portCount := rfl

theorem requiredBanks_eq : requiredBanks = 2 := by decide

theorem bankExtent_main : bankExtent .main = 0x15708 := by decide

theorem bankExtent_aon : bankExtent .aon = 0x1f08 := by decide

end Gpio
