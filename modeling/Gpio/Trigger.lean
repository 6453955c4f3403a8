import Gpio.Bitfield
import Gpio.Fault

/-!
# Interrupt triggers

Five triggers, their bits in the enable/config register, the flow each one
needs from the host, and the host's own sense flags.
-/

set_option autoImplicit false

namespace Gpio

inductive TriggerKind where
  | off
  | level
  | singleEdge
  | bothEdge
  deriving DecidableEq, Repr

namespace TriggerKind

def bits : TriggerKind → Word
  | off => 0x0
  | level => 0x4
  | singleEdge => 0x8
  | bothEdge => 0xc

def ofConfig (cfg : Word) : TriggerKind :=
  if cfg &&& PinConfig.triggerKind = 0x0 then off
  else if cfg &&& PinConfig.triggerKind = 0x4 then level
  else if cfg &&& PinConfig.triggerKind = 0x8 then singleEdge
  else bothEdge

end TriggerKind

inductive Flow where
  /-- For every line when the domain is attached. -/
  | simple
  /-- The pending state is looked at again after the acknowledge. -/
  | level
  /-- One acknowledge for each event. -/
  | edge
  deriving DecidableEq, Repr

namespace Sense

def edgeRising : Word := 0x1
def edgeFalling : Word := 0x2
def edgeBoth : Word := edgeRising ||| edgeFalling
def levelHigh : Word := 0x4
def levelLow : Word := 0x8
def mask : Word := 0xf

end Sense

inductive Trigger where
  | edgeRising
  | edgeFalling
  | edgeBoth
  | levelHigh
  | levelLow
  deriving DecidableEq, Repr

namespace Trigger

def all : List Trigger := [edgeRising, edgeFalling, edgeBoth, levelHigh, levelLow]

def kind : Trigger → TriggerKind
  | edgeRising | edgeFalling => .singleEdge
  | edgeBoth => .bothEdge
  | levelHigh | levelLow => .level

def high : Trigger → Bool
  | edgeRising | levelHigh => true
  | edgeFalling | edgeBoth | levelLow => false

def config (t : Trigger) : Word :=
  if t.high then t.kind.bits ||| PinConfig.triggerHigh else t.kind.bits

def flow : Trigger → Flow
  | levelHigh | levelLow => .level
  | edgeRising | edgeFalling | edgeBoth => .edge

def sense : Trigger → Word
  | edgeRising => Sense.edgeRising
  | edgeFalling => Sense.edgeFalling
  | edgeBoth => Sense.edgeBoth
  | levelHigh => Sense.levelHigh
  | levelLow => Sense.levelLow

def ofSense (raw : Word) : Checked Trigger :=
  match all.find? fun t => t.sense == raw &&& Sense.mask with
  | some t => .ok t
  | none => .refuse .unsupportedTrigger

def program (t : Trigger) (cfg : Word) : Word := (cfg &&& ~~~PinConfig.trigger) ||| t.config

theorem ofSense_sense (t : Trigger) : ofSense t.sense = .ok t := by cases t <;> rfl

end Trigger
end Gpio
