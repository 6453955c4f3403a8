/-!
# Register map

Counts, strides and offsets of the pin block. Every pin owns six registers
and one security slot; every port owns one interrupt status word. The main
ports of controller `c` sit in one `0x1000` block of the main bank, the
always-on ports in a bank of their own.
-/

set_option autoImplicit false

namespace Gpio

abbrev Word := BitVec 32

namespace Layout

def controllerLimit : Nat := 7
def portsPerController : Nat := 8
def portCount : Nat := 32
def pinsPerPort : Nat := 8
def lineCount : Nat := portCount * pinsPerPort
def bankLimit : Nat := 4
def wakeCount : Nat := 96

def savedSlots : Nat := portsPerController * pinsPerPort

def enableConfig : Nat := 0x00
def debounceThreshold : Nat := 0x04
def input : Nat := 0x08
def outputControl : Nat := 0x0c
def outputValue : Nat := 0x10
def interruptClear : Nat := 0x14

def pinStride : Nat := 0x20

/-- The debounce register holds eight bits of milliseconds. -/
def debounceLimit : Nat := 0xff

def statusRegion : Nat := 0x100
def statusWord : Nat := 0x04

def securityWord : Nat := 0x04
def securityPinStride : Nat := 0x08
def securityPortStride : Nat := 0x40

def controllerStride : Nat := 0x1000
def portStride : Nat := 0x200
def mainRegisters : Nat := 0x10000
def aonRegisters : Nat := 0x1000

end Layout

inductive PinRegister where
  | enableConfig
  | debounceThreshold
  | input
  | outputControl
  | outputValue
  | interruptClear
  deriving DecidableEq, Repr

namespace PinRegister

def offset : PinRegister → Nat
  | enableConfig => Layout.enableConfig
  | debounceThreshold => Layout.debounceThreshold
  | input => Layout.input
  | outputControl => Layout.outputControl
  | outputValue => Layout.outputValue
  | interruptClear => Layout.interruptClear

def all : List PinRegister :=
  [enableConfig, debounceThreshold, input, outputControl, outputValue, interruptClear]

theorem offset_injective {r s : PinRegister} (h : r.offset = s.offset) : r = s := by
  revert h; cases r <;> cases s <;> decide

end PinRegister
end Gpio
