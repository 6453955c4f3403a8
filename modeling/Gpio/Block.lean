import Gpio.Bank
import Gpio.Machine

/-!
# The pin block

A probed block: its two banks, its controllers, the host it talks to, and
the interrupt domain once one is attached. Several blocks can stand over the
same device and the same host state.
-/

set_option autoImplicit false

namespace Gpio

abbrev SavedBank := Vector Word Layout.savedSlots

/-- Reserved for suspend and resume; no operation of the block uses it. -/
structure SavedRegisters where
  config : SavedBank
  debounce : SavedBank
  outputControl : SavedBank
  outputValue : SavedBank
  deriving DecidableEq

def SavedRegisters.zero : SavedRegisters :=
  let none := Vector.replicate Layout.savedSlots 0
  ⟨none, none, none, none⟩

structure Controller where
  id : UInt8
  irq : UInt32
  saved : SavedRegisters

structure Block (D σ : Type) where
  main : Bank
  aon : Bank
  controllers : List Controller
  domain : Option D
  host : Host D σ

namespace Block

variable {D σ : Type}

def bank (b : Block D σ) : BankKind → Bank
  | .main => b.main
  | .aon => b.aon

def setBank (b : Block D σ) : BankKind → Bank → Block D σ
  | .main, k => { b with main := k }
  | .aon, k => { b with aon := k }

def controller? (b : Block D σ) (id : UInt8) : Option Controller := b.controllers[id.toNat]?

def callPin (b : Block D σ) (c : PinCall) : Drive D σ c.Reply := b.host.call (.pin c)

def callWake (b : Block D σ) (c : WakeCall) : Drive D σ c.Reply := b.host.call (.wake c)

def callDomain (b : Block D σ) (d : D) (c : DomainCall) : Drive D σ c.Reply :=
  b.host.call (.domain d c)

end Block
end Gpio
