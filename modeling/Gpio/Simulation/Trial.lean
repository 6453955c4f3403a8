import Gpio.Simulation.Region

/-!
# Trials of one bank and of the bus

A sequence of accesses to a single bank, and one of raw accesses of any
width to a small buffer.
-/

set_option autoImplicit false

namespace Gpio.Simulation

inductive BankAccess where
  | read (offset : Nat)
  | write (offset : Nat) (v : Word)
  | address (offset : Nat)

inductive BankAnswer where
  | value (r : Checked Word)
  | written (r : Checked Unit)
  | address (r : Checked Nat)

structure BankTrial where
  answers : List BankAnswer
  changed : List Change

def BankAccess.run (k : Bank) (m : Memory) : BankAccess → BankAnswer × Memory
  | read o => (.value (k.read m o), m)
  | write o v =>
    match k.write m o v with
    | .ok m => (.written (.ok ()), m)
    | .error e => (.written (.error e), m)
  | address o => (.address (k.address o), m)

def runAccesses (k : Bank) : List BankAccess → Memory → List BankAnswer × Memory
  | [], m => ([], m)
  | x :: xs, m =>
    let (answer, m) := x.run k m
    let (answers, m) := runAccesses k xs m
    (answer :: answers, m)

def BankTrial.run (k : BackedBank) (accesses : List BankAccess) : BankTrial :=
  let old := Region.memory k.region.toList
  let (answers, new) := runAccesses k.bank accesses old
  let touched := accesses.filterMap fun
    | .write o _ => if (k.bank.check o).isOk then some (k.bank.base + o) else none
    | _ => none
  ⟨answers, changes [some k] old new touched⟩

inductive BusAccess where
  | read (w : Width) (a : Nat)
  | write (w : Width) (a v : Nat)

def runBus : List BusAccess → Memory → List (Option Nat) × Memory
  | [], m => ([], m)
  | .read w a :: xs, m =>
    let (values, last) := runBus xs m
    (some (m.load w.bytes a) :: values, last)
  | .write w a v :: xs, m =>
    let (values, last) := runBus xs (m.store w.bytes a v)
    (none :: values, last)

def busTrial (r : Region) (accesses : List BusAccess) : List (Option Nat) × List Nat :=
  let (values, m) := runBus accesses (Region.memory [r])
  (values, (List.range r.cells).map fun i =>
    m.load r.width.bytes (r.base + i * r.width.bytes))

end Gpio.Simulation
