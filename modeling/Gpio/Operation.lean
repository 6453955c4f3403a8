import Gpio.Probe

/-!
# Operations as data

Everything a host can ask of a block, as a value, so that whole histories
can be run and spoken about. `step` answers the outcome and the block after
it; only a domain that was attached changes the block.
-/

set_option autoImplicit false

namespace Gpio

inductive ConsumerCall where
  | request (line : UInt32)
  | free (line : UInt32)
  | directionInput (line : UInt32)
  | directionOutput (line : UInt32) (level : Bool)
  | get (line : UInt32)
  | set (line : UInt32) (level : Bool)
  | setDebounce (line : UInt32) (usecs : UInt32)
  | toIrq (line : UInt32)
  deriving DecidableEq, Repr

inductive IrqCall where
  | ack (virq : UInt32)
  | mask (virq : UInt32)
  | unmask (virq : UInt32)
  | disable (virq : UInt32)
  | shutdown (virq : UInt32)
  | setType (virq : UInt32) (raw : Word)
  | setWake (virq : UInt32) (enable : Bool)
  deriving DecidableEq, Repr

inductive Operation (D : Type) where
  | isAccessible (line : UInt32)
  | registerAddress (line : UInt32) (r : PinRegister)
  | read (line : UInt32) (r : PinRegister)
  | write (line : UInt32) (r : PinRegister) (v : Word)
  | update (line : UInt32) (r : PinRegister) (mask v : Word)
  | request (line : UInt32)
  | free (line : UInt32)
  | directionInput (line : UInt32)
  | directionOutput (line : UInt32) (level : Bool)
  | getValue (line : UInt32)
  | setValue (line : UInt32) (level : Bool)
  | setDebounce (line : UInt32) (usecs : UInt32)
  | toIrq (line : UInt32)
  | isEnabled (line : UInt32)
  | readRegisters (line : UInt32)
  | ack (line : UInt32)
  | mask (line : UInt32)
  | unmask (line : UInt32)
  | setType (line : UInt32) (t : Trigger)
  | setWake (line : UInt32) (enable : Bool)
  | consumer (c : ConsumerCall)
  | irq (c : IrqCall)
  | attach (d : D)
  | install
  | publishWakeTable
  | chained (controller : UInt8)

inductive Outcome where
  | done
  | flag (v : Bool)
  | word (v : Word)
  | address (a : Nat)
  | flow (f : Flow)
  | virq (v : Option UInt32)
  | mode (s : Option LineState)
  | registers (s : Option Snapshot)
  deriving DecidableEq, Repr

variable {D σ : Type}

def Drive.done (x : Drive D σ Unit) : Drive D σ Outcome := do
  x
  pure .done

def Drive.look {α : Type} (f : Memory → Checked α) (answer : α → Outcome) : Drive D σ Outcome :=
  do return answer (← .observe f)

def ConsumerTable.run (t : ConsumerTable D σ) : ConsumerCall → Drive D σ Outcome
  | .request line => .done (t.request line)
  | .free line => .done (t.free line)
  | .directionInput line => .done (t.directionInput line)
  | .directionOutput line level => .done (t.directionOutput line level)
  | .get line => do return .flag (← t.get line)
  | .set line level => .done (t.set line level)
  | .setDebounce line usecs => .done (t.setDebounce line usecs)
  | .toIrq line => do return .virq (← t.toIrq line)

def IrqTable.run (t : IrqTable D σ) : IrqCall → Drive D σ Outcome
  | .ack virq => .done (t.ack virq)
  | .mask virq => .done (t.mask virq)
  | .unmask virq => .done (t.unmask virq)
  | .disable virq => .done (t.disable virq)
  | .shutdown virq => .done (t.shutdown virq)
  | .setType virq raw => .done (t.setType virq raw)
  | .setWake virq enable => .done (t.setWake virq enable)

namespace Block

/-- Runs an operation; an attached domain is kept by `step`. -/
def perform (b : Block D σ) : Operation D → Drive D σ Outcome
  | .isAccessible line => .look (b.isAccessible · line) .flag
  | .registerAddress line r => .look (fun _ => b.registerAddress line r) .address
  | .read line r => .look (b.read · line r) .word
  | .write line r v => .done (b.write line r v)
  | .update line r mask v => .done (b.update line r mask v)
  | .request line => .done (b.request line)
  | .free line => .done (b.free line)
  | .directionInput line => .done (b.directionInput line)
  | .directionOutput line level => .done (b.directionOutput line level)
  | .getValue line => .look (b.getValue · line) .flag
  | .setValue line level => .done (b.setValue line level)
  | .setDebounce line usecs => .done (b.setDebounce line usecs)
  | .toIrq line => do return .virq (← b.toIrq line)
  | .isEnabled line => .look (b.isEnabled · line) .mode
  | .readRegisters line => .look (b.readRegisters · line) .registers
  | .ack line => .done (b.ack line)
  | .mask line => .done (b.mask line)
  | .unmask line => .done (b.unmask line)
  | .setType line t => do return .flow (← b.setType line t)
  | .setWake line enable => .done (b.setWake line enable)
  | .consumer c => b.consumer.run c
  | .irq c => b.irqTable.run c
  | .attach d => .done (b.attach d)
  | .install => .done b.install
  | .publishWakeTable => .done b.publishWakeTable
  | .chained controller => .done (b.handleChained controller)

def after (b : Block D σ) : Operation D → Block D σ
  | .attach d => b.withDomain d
  | _ => b

def step (b : Block D σ) (op : Operation D) (m : Machine D σ) :
    Except Failure Outcome × Block D σ × Machine D σ :=
  match (b.perform op).on m with
  | (.ok o, m) => (.ok o, b.after op, m)
  | (.error e, m) => (.error e, b, m)

end Block
end Gpio
