import Gpio.Bitfield
import Gpio.Block

/-!
# The security gate and the read side

What can be learned about a line without changing anything. A line must
exist, and the security word of its pin must carry all four grants, before
its state is shown; `read` and `registerAddress` ask for existence only.
-/

set_option autoImplicit false

namespace Gpio

def validLine (line : UInt32) : Checked Location :=
  match resolve line with
  | some l => if l.valid then .ok l else .refuse .invalidLine
  | none => .refuse .invalidLine

structure LineState where
  enabled : Bool
  outputControl : Word
  deriving DecidableEq, Repr

structure Snapshot where
  enableConfig : Word
  debounceThreshold : Word
  input : Word
  outputControl : Word
  outputValue : Word
  interruptClear : Word
  deriving DecidableEq, Repr

namespace Block

variable {D σ : Type}

/-- The grants in the pin's security word; none when the word is out of reach. -/
def granted (b : Block D σ) (m : Memory) (l : Location) : Checked Bool := do
  match ← ((b.bank l.bank).read m l.security).settle with
  | .ok scr => pure (Grant.isFull scr)
  | .error _ => pure false

def isAccessible (b : Block D σ) (m : Memory) (line : UInt32) : Checked Bool := do
  match ← (validLine line).settle with
  | .ok l => b.granted m l
  | .error _ => pure false

def ownedLine (b : Block D σ) (m : Memory) (line : UInt32) : Checked Location := do
  let l ← validLine line
  if ← b.granted m l then pure l else .refuse .inaccessible

def registerAddress (b : Block D σ) (line : UInt32) (r : PinRegister) : Checked Nat := do
  let l ← validLine line
  (b.bank l.bank).address (l.offset r)

def read (b : Block D σ) (m : Memory) (line : UInt32) (r : PinRegister) : Checked Word := do
  let l ← validLine line
  (b.bank l.bank).read m (l.offset r)

def getValue (b : Block D σ) (m : Memory) (line : UInt32) : Checked Bool := do
  let _ ← b.ownedLine m line
  let cfg ← b.read m line .enableConfig
  let level ← b.read m line (if hasBits cfg PinConfig.output then .outputValue else .input)
  pure (level &&& 1 != 0)

def lineState (b : Block D σ) (m : Memory) (line : UInt32) : Checked LineState := do
  let _ ← b.ownedLine m line
  let cfg ← b.read m line .enableConfig
  let control ← b.read m line .outputControl
  pure ⟨hasBits cfg PinConfig.enable, control⟩

def isEnabled (b : Block D σ) (m : Memory) (line : UInt32) : Checked (Option LineState) :=
  (b.lineState m line).optional

def snapshot (b : Block D σ) (m : Memory) (line : UInt32) : Checked Snapshot := do
  let _ ← b.ownedLine m line
  let enableConfig ← b.read m line .enableConfig
  let debounceThreshold ← b.read m line .debounceThreshold
  let input ← b.read m line .input
  let outputControl ← b.read m line .outputControl
  let outputValue ← b.read m line .outputValue
  let interruptClear ← b.read m line .interruptClear
  pure ⟨enableConfig, debounceThreshold, input, outputControl, outputValue, interruptClear⟩

def readRegisters (b : Block D σ) (m : Memory) (line : UInt32) : Checked (Option Snapshot) :=
  (b.snapshot m line).optional

end Block
end Gpio
