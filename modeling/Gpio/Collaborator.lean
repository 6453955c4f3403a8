import Gpio.Bank
import Gpio.Trigger

/-!
# Collaborators

Pin control, the wake controller and the host's interrupt domains, as the
calls made to them and the replies they give. A host answers every call out
of its own state, which the block never sees; it may also write to banks of
its own while it answers, and those writes are part of the answer. Several
domains can exist in one host, so a call to a domain says which.
-/

set_option autoImplicit false

namespace Gpio

inductive PinCall where
  | request (line : UInt32)
  | free (line : UInt32)
  | input (line : UInt32)
  | output (line : UInt32)
  deriving DecidableEq, Repr

abbrev PinCall.Reply : PinCall → Type
  | free _ => Unit
  | request _ | input _ | output _ => Except SystemError Unit

inductive WakeCall where
  | setType (wake : Nat) (trigger : Trigger)
  | arm (wake : Nat) (enable : Bool)
  /-- The line of every wake source, counted from `base`. -/
  | publish (base : UInt32) (table : List (Option UInt32))
  deriving DecidableEq, Repr

abbrev WakeCall.Reply : WakeCall → Type
  | publish .. => Unit
  | setType .. | arm .. => Except SystemError Unit

inductive DomainCall where
  | create (line : UInt32)
  | find (line : UInt32)
  | lineOf (virq : UInt32)
  | dispose (virq : UInt32)
  | setFlow (virq : UInt32) (flow : Flow)
  | setChained (irq : UInt32) (controller : UInt8)
  | handle (virq : UInt32)
  | enter (irq : UInt32)
  | exit (irq : UInt32)
  deriving DecidableEq, Repr

abbrev DomainCall.Reply : DomainCall → Type
  | create _ | find _ | lineOf _ => Option UInt32
  | dispose _ | setFlow .. | setChained .. | handle _ | enter _ | exit _ => Unit

inductive Call (D : Type) where
  | pin (c : PinCall)
  | wake (c : WakeCall)
  | domain (d : D) (c : DomainCall)

abbrev Call.Reply {D : Type} : Call D → Type
  | pin c => c.Reply
  | wake c => c.Reply
  | domain _ c => c.Reply

structure HostWrite where
  bank : Bank
  offset : Nat
  value : Word

structure Answer (σ α : Type) where
  reply : α
  world : σ
  writes : List HostWrite := []

structure Host (D σ : Type) where
  answer : (c : Call D) → σ → Answer σ c.Reply

def Host.Quiet {D σ : Type} (h : Host D σ) : Prop :=
  ∀ (c : Call D) (s : σ), (h.answer c s).writes = []

end Gpio
