import Gpio.Interrupt

/-!
# From a platform's description to a working block

Probing checks the description and touches nothing. Attaching an interrupt
domain maps every line and silences the ones this domain owns; when it
fails, every mapping made is given back. `init` does everything a platform
needs in one go.
-/

set_option autoImplicit false

namespace Gpio

structure Resources where
  /-- The main bank first, then the always-on bank. -/
  banks : List Bank
  irqs : List UInt32

namespace Resources

def controllers (r : Resources) : List Controller :=
  (r.irqs.take Layout.controllerLimit).mapIdx fun i irq => ⟨UInt8.ofNat i, irq, .zero⟩

end Resources

namespace Block

variable {D σ : Type}

def probeBanks (r : Resources) : Except Notice (Bank × Bank) :=
  match r.banks with
  | main :: aon :: _ =>
    if main.size < bankExtent .main then
      .error (.bankTooSmall .main main.size (bankExtent .main))
    else if aon.size < bankExtent .aon then
      .error (.bankTooSmall .aon aon.size (bankExtent .aon))
    else .ok (main, aon)
  | short => .error (.banksMissing short.length)

def noteExcess (r : Resources) : Drive D σ Unit := do
  if Layout.bankLimit < r.banks.length then
    .notify (.banksIgnored (r.banks.length - Layout.bankLimit))
  if Layout.controllerLimit < r.irqs.length then
    .notify (.interruptsIgnored (r.irqs.length - Layout.controllerLimit))

def probe (host : Host D σ) (r : Resources) : Drive D σ (Block D σ) := do
  if r.irqs.isEmpty then
    .notify .noController
    .refuse .resourceMissing
  else
    match probeBanks r with
    | .error n =>
      .notify n
      .refuse .resourceMissing
    | .ok (main, aon) =>
      noteExcess r
      .notify (.probed (min r.banks.length Layout.bankLimit)
        (min r.irqs.length Layout.controllerLimit))
      pure ⟨main, aon, r.controllers, none, host⟩

/-- Maps lines in order; answers the first one the domain refuses. -/
def mapLines (b : Block D σ) (d : D) : List UInt32 → Drive D σ (Option UInt32)
  | [] => pure none
  | line :: rest => do
    match ← b.callDomain d (.create line) with
    | some _ => b.mapLines d rest
    | none => pure (some line)

def unmapLines (b : Block D σ) (d : D) (ls : List UInt32) : Drive D σ Unit :=
  ls.forM fun line => do
    match ← b.callDomain d (.find line) with
    | some virq => b.callDomain d (.dispose virq)
    | none => pure ()

/-- Silences one line if it is owned, and gives it the simple flow. Answers how many lines were
silenced. -/
def maskLine (b : Block D σ) (d : D) (line : UInt32) : Drive D σ Nat := do
  let owned ← .observe fun m => b.isAccessible m line
  if owned then b.setConfig line PinConfig.interrupt false
  match ← b.callDomain d (.find line) with
  | some virq => b.callDomain d (.setFlow virq .simple)
  | none => pure ()
  pure (if owned then 1 else 0)

def maskLines (b : Block D σ) (d : D) : List UInt32 → Drive D σ Nat
  | [] => pure 0
  | line :: rest => do
    let here ← b.maskLine d line
    let others ← b.maskLines d rest
    pure (here + others)

def maskAll (b : Block D σ) (d : D) : Drive D σ Unit := do
  let count ← b.maskLines d lines
  .notify (.masked count)

def attach (b : Block D σ) (d : D) : Drive D σ Unit := do
  match ← b.mapLines d lines with
  | some line =>
    .notify (.mappingFailed line)
    b.unmapLines d (lines.takeWhile (· < line))
    .refuse .resourceMissing
  | none =>
    match ← Drive.attempt (b.maskAll d) with
    | .ok () => pure ()
    | .error r =>
      .notify (.maskingFailed r)
      b.unmapLines d lines
      .refuse .resourceMissing

def withDomain (b : Block D σ) (d : D) : Block D σ := { b with domain := some d }

def install (b : Block D σ) : Drive D σ Unit :=
  match b.domain with
  | none => .refuse .resourceMissing
  | some d => b.controllers.forM fun c => b.callDomain d (.setChained c.irq c.id)

def publishWakeTable (b : Block D σ) : Drive D σ Unit := b.callWake (.publish 0 Wake.sources)

def init (host : Host D σ) (r : Resources) (d : D) : Drive D σ (Block D σ) := do
  let b ← probe host r
  b.attach d
  let b := b.withDomain d
  b.install
  b.publishWakeTable
  pure b

end Block
end Gpio
