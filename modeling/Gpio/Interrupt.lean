import Gpio.Line
import Gpio.Wake

/-!
# Interrupts of a line

Acknowledge, mask and trigger by line, the same by virtual interrupt, and
the chained handler that turns a controller's interrupt into those of its
pins.
-/

set_option autoImplicit false

namespace Gpio

def Wake.find {D σ : Type} (line : UInt32) : Drive D σ (Option Nat) := do
  match Wake.indexOf? line with
  | none => pure none
  | some wake =>
    .notify (.wakeFound wake line)
    pure (some wake)

namespace Block

variable {D σ : Type}

def ack (b : Block D σ) (line : UInt32) : Drive D σ Unit := do
  b.own line
  b.write line .interruptClear 1

def mask (b : Block D σ) (line : UInt32) : Drive D σ Unit := do
  b.own line
  b.setConfig line PinConfig.interrupt false

def unmask (b : Block D σ) (line : UInt32) : Drive D σ Unit := do
  b.own line
  b.setConfig line PinConfig.interrupt true

def setType (b : Block D σ) (line : UInt32) (t : Trigger) : Drive D σ Flow := do
  b.own line
  b.modifyRegister line .enableConfig t.program
  b.setConfig line PinConfig.enable true
  match ← Wake.find line with
  | none => pure ()
  | some wake =>
    match ← b.callWake (.setType wake t) with
    | .ok () => pure ()
    | .error e => .notify (.wakeTypeRefused line wake e)
  pure t.flow

def setWake (b : Block D σ) (line : UInt32) (enable : Bool) : Drive D σ Unit := do
  match ← Wake.find line with
  | none => .refuse .noWakeSource
  | some wake =>
    match ← b.callWake (.arm wake enable) with
    | .ok () => pure ()
    | .error e =>
      .notify (.wakeRefused enable line e)
      .refuse (.collaborator e)

def lineOfVirq (b : Block D σ) (virq : UInt32) : Drive D σ UInt32 := do
  match b.domain with
  | none => .refuse .invalidLine
  | some d =>
    match ← b.callDomain d (.lineOf virq) with
    | some line => pure line
    | none => .refuse .invalidLine

def setTypeOfVirq (b : Block D σ) (virq : UInt32) (raw : Word) : Drive D σ Unit := do
  let line ← b.lineOfVirq virq
  let t ← .ofChecked (Trigger.ofSense raw)
  let flow ← b.setType line t
  match b.domain with
  | some d => b.callDomain d (.setFlow virq flow)
  | none => pure ()

def pendingPins (status : Word) : List Nat :=
  (List.range Layout.pinsPerPort).filter status.getLsbD

def dispatchPin (b : Block D σ) (d : D) (port pin : Nat) : Drive D σ Unit := do
  match ← b.callDomain d (.find (Gpio.lineOf port pin)) with
  | some virq => b.callDomain d (.handle virq)
  | none => pure ()

def dispatchPort (b : Block D σ) (d : D) (port : Nat) : Drive D σ Unit := do
  match ports[port]? with
  | none => pure ()
  | some p =>
    match ← Drive.attempt (.observe fun m => (b.bank p.bank).read m p.statusOffset) with
    | .ok status => (pendingPins status).forM (b.dispatchPin d port)
    | .error _ => pure ()

/-- The chained handler of a controller: its ports by their place in it, the pins of each
ascending. A port's status word is read when its turn comes. -/
def handleChained (b : Block D σ) (controller : UInt8) : Drive D σ Unit := do
  match b.controller? controller, b.domain with
  | none, _ => .notify (.unknownController controller)
  | some _, none => pure ()
  | some c, some d =>
    b.callDomain d (.enter c.irq)
    (controllerPorts controller).reduceOption.forM (b.dispatchPort d)
    b.callDomain d (.exit c.irq)

end Block

structure IrqTable (D σ : Type) where
  ack : UInt32 → Drive D σ Unit
  mask : UInt32 → Drive D σ Unit
  unmask : UInt32 → Drive D σ Unit
  setType : UInt32 → Word → Drive D σ Unit
  setWake : UInt32 → Bool → Drive D σ Unit
  disable : UInt32 → Drive D σ Unit := mask
  shutdown : UInt32 → Drive D σ Unit := mask

def Block.irqTable {D σ : Type} (b : Block D σ) : IrqTable D σ where
  ack virq := b.lineOfVirq virq >>= b.ack
  mask virq := b.lineOfVirq virq >>= b.mask
  unmask virq := b.lineOfVirq virq >>= b.unmask
  setType := b.setTypeOfVirq
  setWake virq enable := do b.setWake (← b.lineOfVirq virq) enable

end Gpio
