import Gpio.Simulation.Domain

/-!
# A simulated host

The host owns every domain ever made, by number. Pin control and the wake
controller succeed unless they were told which error to give.
-/

set_option autoImplicit false

namespace Gpio.Simulation

structure World where
  domains : Array Domain

namespace World

def empty : World := ⟨#[]⟩

def make (w : World) (spec : DomainSpec) : Nat × World :=
  (w.domains.size, ⟨w.domains.push (.ofSpec spec)⟩)

def isSilent (w : World) (d : Nat) : Bool := w.domains[d]?.any (·.spec.silent)

def base? (w : World) (d : Nat) : Option UInt32 := w.domains[d]?.map (·.spec.base)

end World

structure PinFailures where
  request : Option SystemError := none
  input : Option SystemError := none
  output : Option SystemError := none

structure WakeFailures where
  setType : Option SystemError := none
  arm : Option SystemError := none

def replyOf : Option SystemError → Except SystemError Unit
  | none => .ok ()
  | some e => .error e

def PinFailures.reply (f : PinFailures) : (c : PinCall) → c.Reply
  | .request _ => replyOf f.request
  | .free _ => ()
  | .input _ => replyOf f.input
  | .output _ => replyOf f.output

def WakeFailures.reply (f : WakeFailures) : (c : WakeCall) → c.Reply
  | .setType _ _ => replyOf f.setType
  | .arm _ _ => replyOf f.arm
  | .publish _ _ => ()

def nothing : (c : DomainCall) → c.Reply
  | .create _ | .find _ | .lineOf _ => none
  | .dispose _ | .setFlow _ _ | .setChained _ _ | .handle _ | .enter _ | .exit _ => ()

def host (bank? : Nat → Option Bank) (pins : PinFailures) (wakes : WakeFailures) :
    Host Nat World where
  answer
    | .pin c, w => { reply := pins.reply c, world := w }
    | .wake c, w => { reply := wakes.reply c, world := w }
    | .domain d c, w =>
      match w.domains[d]? with
      | none => { reply := nothing c, world := w }
      | some domain =>
        let a := domain.answer bank? c
        { reply := a.reply, world := ⟨w.domains.setIfInBounds d a.world⟩, writes := a.writes }

end Gpio.Simulation
