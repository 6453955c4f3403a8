import Gpio.Bank

/-!
# Simulated device memory

A region is memory that exists, filled by an affine pattern; a bank can
stand on a region or on an address that nothing backs. Regions are placed
far apart, and clear of addresses that nothing backs, so an address tells
which region it is in.
-/

set_option autoImplicit false

namespace Gpio.Simulation

/-- As many as `cells` values of one width; the one at offset `o` starts as `o * mul + add`, cut
to that width. -/
structure Region where
  base : Nat
  cells : Nat
  width : Width
  mul : Nat
  add : Nat

namespace Region

def size (r : Region) : Nat := r.cells * r.width.bytes

def Holds (r : Region) (a : Nat) : Prop := r.base ≤ a ∧ a < r.base + r.size

instance (r : Region) (a : Nat) : Decidable (r.Holds a) := inferInstanceAs (Decidable (_ ∧ _))

def pattern (r : Region) (o : Nat) : Nat := (o * r.mul + r.add) % r.width.span

def initialByte (r : Region) (a : Nat) : UInt8 :=
  let o := a - r.base
  let inside := o % r.width.bytes
  UInt8.ofNat (r.pattern (o - inside) >>> (8 * inside))

def memory (rs : List Region) : Memory := .ofInitial fun a =>
  match rs.find? fun r => r.Holds a with
  | some r => r.initialByte a
  | none => 0

end Region

structure BackedBank where
  bank : Bank
  region : Option Region

structure BankSpec where
  linear : Bool
  phys : Nat
  /-- An address that nothing backs. -/
  base : Option Nat
  size : Nat
  mul : Nat
  add : Nat

namespace BankSpec

def pointer? (s : BankSpec) : Option Nat :=
  s.base.map fun base => if s.linear then s.phys else base

def region (s : BankSpec) (place : Nat) : Region where
  base := place
  cells := max 1 ((s.size + 3) / 4)
  width := .word
  mul := s.mul
  add := s.add

def build? (s : BankSpec) (place : Nat) : Option BackedBank := do
  let pointer := s.pointer?.getD place
  let bank ← if s.linear then Bank.fromPhys? (fun _ => pointer) s.phys s.size
    else Bank.new? s.phys pointer s.size
  pure ⟨bank, if s.base.isNone then some (s.region place) else none⟩

end BankSpec

def spacing : Nat := 0x1000000000

def place (i : Nat) : Nat := 0x558000000000 + i * spacing

theorem place_ne_zero (i : Nat) : place i ≠ 0 := by
  unfold place
  omega

/-- At least `count` places, ascending and nowhere near an address of `taken`. An address is near
two places at most. -/
def freePlaces (count : Nat) (taken : List Nat) : List Nat :=
  ((List.range (count + 2 * taken.length)).map place).filter fun p =>
    taken.all fun a => p + spacing ≤ a ∨ a + spacing ≤ p

def buildAll (specs : List BankSpec) : List (Option BackedBank) :=
  specs.zipWith BankSpec.build? (freePlaces specs.length (specs.filterMap (·.pointer?)))

def locate? (banks : List (Option BackedBank)) (a : Nat) : Option (Nat × Nat) := do
  let i ← banks.findIdx? fun k => (k.bind (·.region)).any fun r => r.Holds a
  let r ← banks[i]?.join.bind (·.region)
  pure (i, a - r.base)

structure Change where
  bank : Nat
  offset : Nat
  value : Word
  deriving DecidableEq, Repr

def changes (banks : List (Option BackedBank)) (old new : Memory) (touched : List Nat) :
    List Change :=
  (touched.mergeSort (· ≤ ·)).eraseReps.filterMap fun a =>
    if old.loadWord a = new.loadWord a then none
    else (locate? banks a).map fun (i, o) => ⟨i, o, new.loadWord a⟩

end Gpio.Simulation
