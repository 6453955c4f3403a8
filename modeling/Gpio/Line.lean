import Gpio.Gate

/-!
# Driving a line

Register writes and the consumer operations built from them. `write` and
`update` ask only that the line exists; every consumer operation asks the
gate first. The order of register writes is part of the contract: an output
level stands before the pin starts to drive.
-/

set_option autoImplicit false

namespace Gpio

def Bank.put {D σ : Type} (k : Bank) (offset : Nat) (v : Word) : Drive D σ Unit := do
  .ofChecked (k.check offset)
  .store (k.base + offset) v

namespace Block

variable {D σ : Type}

def own (b : Block D σ) (line : UInt32) : Drive D σ Unit := do
  let _ ← .observe fun m => b.ownedLine m line

def write (b : Block D σ) (line : UInt32) (r : PinRegister) (v : Word) : Drive D σ Unit := do
  let l ← .ofChecked (validLine line)
  (b.bank l.bank).put (l.offset r) v

def modifyRegister (b : Block D σ) (line : UInt32) (r : PinRegister) (f : Word → Word) :
    Drive D σ Unit := do
  let l ← .ofChecked (validLine line)
  let k := b.bank l.bank
  let old ← .observe fun m => k.read m (l.offset r)
  k.put (l.offset r) (f old)

/-- The value `old` with the bits of `mask` taken from `v`. -/
def merge (mask v old : Word) : Word := (old &&& ~~~mask) ||| (v &&& mask)

theorem merge_zero (mask old : Word) : merge mask 0 old = old &&& ~~~mask := by
  simp [merge]

theorem merge_self (mask old : Word) : merge mask mask old = old ||| mask := by
  ext i
  simp only [merge, BitVec.getElem_or, BitVec.getElem_and, BitVec.getElem_not, Bool.and_self]
  cases old[i] <;> cases mask[i] <;> rfl

def update (b : Block D σ) (line : UInt32) (r : PinRegister) (mask v : Word) : Drive D σ Unit :=
  b.modifyRegister line r (merge mask v)

def setConfig (b : Block D σ) (line : UInt32) (bits : Word) (on : Bool) : Drive D σ Unit :=
  b.update line .enableConfig bits (if on then bits else 0)

def request (b : Block D σ) (line : UInt32) : Drive D σ Unit := do
  match ← Drive.attempt (b.own line) with
  | .error _ => .refuse .busy
  | .ok () =>
    match ← b.callPin (.request line) with
    | .ok () => pure ()
    | .error e => .refuse (.collaborator e)

def free (b : Block D σ) (line : UInt32) : Drive D σ Unit := do
  b.callPin (.free line)
  match ← Drive.attempt (b.own line) with
  | .error _ => pure ()
  | .ok () =>
    match ← Drive.attempt (b.setConfig line PinConfig.enable false) with
    | .ok () => pure ()
    | .error r => .notify (.releaseFailed line r)

def directionInput (b : Block D σ) (line : UInt32) : Drive D σ Unit := do
  b.own line
  b.setConfig line PinConfig.output false
  b.setConfig line PinConfig.enable true
  match ← b.callPin (.input line) with
  | .ok () => pure ()
  | .error e => .notify (.inputRefused line e)

def setValue (b : Block D σ) (line : UInt32) (level : Bool) : Drive D σ Unit := do
  b.own line
  b.write line .outputValue (if level then 1 else 0)
  b.write line .outputControl 0

def directionOutput (b : Block D σ) (line : UInt32) (level : Bool) : Drive D σ Unit := do
  b.setValue line level
  b.setConfig line PinConfig.output true
  b.setConfig line PinConfig.enable true
  match ← b.callPin (.output line) with
  | .ok () => pure ()
  | .error e => .notify (.outputRefused line e)

def debounceMillis (usecs : UInt32) : Nat := (usecs.toNat + 999) / 1000

def setDebounce (b : Block D σ) (line : UInt32) (usecs : UInt32) : Drive D σ Unit := do
  b.own line
  let ms := debounceMillis usecs
  if Layout.debounceLimit < ms then .refuse .invalidArgument
  else
    b.setConfig line (PinConfig.enable ||| PinConfig.debounce) true
    b.write line .debounceThreshold (BitVec.ofNat 32 ms)

def toIrq (b : Block D σ) (line : UInt32) : Drive D σ (Option UInt32) :=
  match b.domain with
  | some d => b.callDomain d (.find line)
  | none => pure none

end Block

structure ConsumerTable (D σ : Type) where
  request : UInt32 → Drive D σ Unit
  free : UInt32 → Drive D σ Unit
  directionInput : UInt32 → Drive D σ Unit
  directionOutput : UInt32 → Bool → Drive D σ Unit
  get : UInt32 → Drive D σ Bool
  set : UInt32 → Bool → Drive D σ Unit
  setDebounce : UInt32 → UInt32 → Drive D σ Unit
  toIrq : UInt32 → Drive D σ (Option UInt32)

def Block.consumer {D σ : Type} (b : Block D σ) : ConsumerTable D σ where
  request := b.request
  free := b.free
  directionInput := b.directionInput
  directionOutput := b.directionOutput
  get line := .observe fun m => b.getValue m line
  set := b.setValue
  setDebounce := b.setDebounce
  toIrq := b.toIrq

end Gpio
