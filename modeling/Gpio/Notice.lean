import Gpio.Hex
import Gpio.Topology

/-!
# Notices

What the block reports to the log. A notice carries its facts; severity and
wording are functions of it.
-/

set_option autoImplicit false

namespace Gpio

inductive Severity where
  | error
  | warn
  | info
  | debug
  deriving DecidableEq, Repr

def Severity.label : Severity → String
  | error => "ERROR"
  | warn => "WARN"
  | info => "INFO"
  | debug => "DEBUG"

inductive Notice where
  | noController
  | banksMissing (given : Nat)
  | bankTooSmall (kind : BankKind) (size need : Nat)
  | banksIgnored (count : Nat)
  | interruptsIgnored (count : Nat)
  | probed (banks controllers : Nat)
  | mappingFailed (line : UInt32)
  | maskingFailed (r : Refusal)
  | masked (count : Nat)
  | releaseFailed (line : UInt32) (r : Refusal)
  | inputRefused (line : UInt32) (e : SystemError)
  | outputRefused (line : UInt32) (e : SystemError)
  | wakeTypeRefused (line : UInt32) (wake : Nat) (e : SystemError)
  | wakeRefused (enable : Bool) (line : UInt32) (e : SystemError)
  | unknownController (controller : UInt8)
  | wakeFound (wake : Nat) (line : UInt32)
  deriving DecidableEq, Repr

namespace Notice

def severity : Notice → Severity
  | noController | banksMissing .. | bankTooSmall .. => .error
  | mappingFailed .. | maskingFailed .. => .error
  | inputRefused .. | outputRefused .. | wakeRefused .. => .error
  | banksIgnored .. | interruptsIgnored .. | wakeTypeRefused .. | unknownController .. => .warn
  | probed .. => .info
  | masked .. | releaseFailed .. | wakeFound .. => .debug

def text : Notice → String
  | noController => "No GPIO Controller found"
  | banksMissing given => s!"Missing MEM resource: {given} banks, {requiredBanks} required"
  | bankTooSmall kind size need =>
    s!"MEM resource {kind.index} too small: {hex size} < {hex need}"
  | banksIgnored count => s!"ignoring {count} extra register banks"
  | interruptsIgnored count => s!"ignoring {count} extra controller interrupts"
  | probed banks controllers =>
    s!"tegra186 gpio: {banks} register banks, {controllers} controllers"
  | mappingFailed line => s!"irq mapping failed for gpio {line.toNat}"
  | maskingFailed r => s!"masking gpio interrupts failed: {r.detail}"
  | masked count => s!"masked {count} accessible gpio interrupts"
  | releaseFailed line r => s!"gpio {line.toNat}: disable on free failed: {r.detail}"
  | inputRefused line e => s!"gpio {line.toNat}: pinctrl input failed: {e.name}"
  | outputRefused line e => s!"gpio {line.toNat}: pinctrl output failed: {e.name}"
  | wakeTypeRefused line wake e =>
    s!"gpio {line.toNat}: wake{wake} type update failed: {e.name}"
  | wakeRefused enable line e =>
    let verb := if enable then "enable" else "disable"
    s!"Failed gpio lp0 {verb} for gpio={line.toNat}, error={e.name}"
  | unknownController controller =>
    s!"chained irq for unknown gpio controller {controller.toNat}"
  | wakeFound wake line => s!"gpio wake{wake} for gpio={line.toNat}"

end Notice
end Gpio
