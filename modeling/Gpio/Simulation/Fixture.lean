import Gpio.Simulation.Event
import Gpio.Simulation.World

/-!
# The bench fixture

One block over two zeroed banks with recording collaborators. Building a
block must succeed: a builder that is refused aborts its step, and the block
that stood there before is gone either way.
-/

set_option autoImplicit false

namespace Gpio.Simulation

structure Fixture where
  main : Bank
  aon : Bank
  allocated : Nat
  memory : Memory
  world : World
  block : Option (Block Nat World)
  /-- The domain whose disposals are shown. -/
  followed : Option Nat
  /-- Length of the wake table last published. -/
  published : Option Nat

inductive FixtureStep where
  | grant (line : UInt32)
  | grantAll
  | poke (line : UInt32) (r : PinRegister) (v : Word)
  | peek (line : UInt32) (r : PinRegister)
  | setStatus (port : Nat) (v : Word)
  | probe (pins : Option SystemError)
  | init (refuses : Option UInt32)
  | initWake (wakes : Option SystemError)
  | probeRaw (main aon irqs : Nat)
  | attach (refuses : Option UInt32)
  | truncate
  | flowOf (virq : UInt32)
  | operate (op : Operation Nat)

inductive FixtureAnswer where
  | noInstance
  | silent
  | word (v : Word)
  | flow (f : Option Flow)
  | outcome (r : Except Failure Outcome)
  /-- A step that must succeed was refused. -/
  | aborted (r : Refusal)

structure DomainRecord where
  flows : Nat × Nat × Nat
  chained : List (UInt32 × UInt8)
  passes : List (Bool × UInt32)
  dispatched : List UInt32

structure BlockRecord where
  pins : List PinCall
  types : List (Nat × Trigger)
  wakes : List (Nat × Bool)
  published : Option Nat
  domain : Option DomainRecord

structure Record where
  disposed : Option (List UInt32)
  block : Option BlockRecord

namespace Fixture

def allocate (n size : Nat) : Bank where
  phys := 0x02200000
  size := size
  base := place n
  base_ne_zero := place_ne_zero n

def mainSize : Nat := 0x20000
def aonSize : Nat := 0x2000

/-- Too short for the pin registers, long enough for the security words. -/
def truncatedSize : Nat := 0x8000

def irqs : List UInt32 := [288, 289, 290, 291, 292, 293, 294]

def start : Fixture :=
  ⟨allocate 0 mainSize, allocate 1 aonSize, 2, .ofInitial fun _ => 0, .empty, none, none, none⟩

def bank (f : Fixture) : BankKind → Bank
  | .main => f.main
  | .aon => f.aon

def hostFor (pins wakes : Option SystemError) : Host Nat World :=
  host (fun _ => none) ⟨pins, pins, pins⟩ ⟨wakes, wakes⟩

def resources (f : Fixture) : Resources := ⟨[f.main, f.aon], irqs⟩

def specFor (refuses : Option UInt32) : DomainSpec := { DomainSpec.plain with refuses := refuses }

end Fixture

structure FixtureProgress where
  fixture : Fixture
  logs : Array Event
  calls : Array (Call Nat)

abbrev FixtureM := StateM FixtureProgress

namespace FixtureM

def fixture : FixtureM Fixture := return (← get).fixture

def setFixture (f : Fixture → Fixture) : FixtureM Unit :=
  modify fun p => { p with fixture := f p.fixture }

def publishedBy (calls : Array (Call Nat)) (old : Option Nat) : Option Nat :=
  calls.foldl (fun n c => match c with
    | .wake (.publish _ table) => some table.length
    | _ => n) old

def drive {α : Type} (x : Drive Nat World α) : FixtureM (Except Failure α) := fun p =>
  let f := p.fixture
  let (r, m) := x.on (.start f.memory f.world)
  let calls := m.trace.filterMap fun
    | .call c _ => some c
    | _ => none
  (r, {
    fixture := { f with
      memory := m.memory, world := m.world, published := publishedBy calls f.published }
    logs := p.logs ++ logLines m.trace
    calls := p.calls ++ calls })

def demand {α : Type} (answer : α → FixtureAnswer) : Except Failure α → FixtureAnswer
  | .ok a => answer a
  | .error (.refused r) => .aborted r
  | .error (.overflow o) => .outcome (.error (.overflow o))

def makeDomain (refuses : Option UInt32) : FixtureM Nat := modifyGet fun p =>
  let (d, world) := p.fixture.world.make (Fixture.specFor refuses)
  (d, { p with fixture := { p.fixture with world := world } })

def discard : FixtureM Unit := modify fun p =>
  { p with
    fixture := { p.fixture with block := none, followed := none, published := none }
    calls := #[] }

def build (x : Drive Nat World (Block Nat World)) : FixtureM (Except Failure Unit) := do
  match ← drive x with
  | .ok b =>
    setFixture ({ · with block := some b })
    pure (.ok ())
  | .error e => pure (.error e)

def built : Except Failure Unit → FixtureAnswer := demand fun _ => .outcome (.ok .done)

def put (kind : BankKind) (offset : Nat) (v : Word) : FixtureM (Except Failure Unit) := do
  drive (((← fixture).bank kind).put offset v)

def grant (line : UInt32) : FixtureM (Except Failure Unit) := do
  match resolve line with
  | some l => put l.bank l.security Grant.full
  | none => pure (.error (.refused .invalidLine))

def grantAll : List UInt32 → FixtureM (Except Failure Unit)
  | [] => pure (.ok ())
  | line :: rest => do
    match ← grant line with
    | .ok () => grantAll rest
    | .error e => pure (.error e)

def validLines : List UInt32 := lines.filter fun line => (validLine line).isOk

def withBlock (f : Block Nat World → FixtureM FixtureAnswer) : FixtureM FixtureAnswer := do
  match (← fixture).block with
  | some b => f b
  | none => pure .noInstance

def probeRaw (main aon irqs : Nat) : FixtureM FixtureAnswer := do
  discard
  let n := (← fixture).allocated
  let main := Fixture.allocate n main
  let aon := Fixture.allocate (n + 1) aon
  setFixture ({ · with allocated := n + 2 })
  let r : Resources := ⟨[main, aon], Fixture.irqs.take irqs⟩
  match ← build (Block.probe (Fixture.hostFor none none) r) with
  | .ok () =>
    setFixture ({ · with main := main, aon := aon })
    pure (.outcome (.ok .done))
  | .error e => pure (.outcome (.error e))

def truncate (b : Block Nat World) : FixtureM FixtureAnswer := do
  let n := (← fixture).allocated
  let short := Fixture.allocate n Fixture.truncatedSize
  setFixture ({ · with allocated := n + 1, main := short, block := some (b.setBank .main short) })
  pure .silent

def attach (refuses : Option UInt32) : FixtureM FixtureAnswer := do
  let d ← makeDomain refuses
  setFixture ({ · with followed := some d })
  withBlock fun b => do
    match ← drive (b.attach d) with
    | .ok () =>
      setFixture ({ · with block := some (b.withDomain d) })
      pure (.outcome (.ok .done))
    | .error e => pure (.outcome (.error e))

end FixtureM

open FixtureM in
def FixtureStep.run : FixtureStep → FixtureM FixtureAnswer
  | .grant line => return demand (fun _ => .silent) (← FixtureM.grant line)
  | .grantAll => return demand (fun _ => .silent) (← FixtureM.grantAll validLines)
  | .poke line r v => do
    match resolve line with
    | some l => return demand (fun _ => .silent) (← put l.bank (l.offset r) v)
    | none => return .aborted .invalidLine
  | .peek line r => do
    match resolve line with
    | some l =>
      let k := (← fixture).bank l.bank
      return demand .word (← drive (.observe fun m => k.read m (l.offset r)))
    | none => return .aborted .invalidLine
  | .setStatus port v => do
    match ports[port]? with
    | some p => return demand (fun _ => .silent) (← put p.bank p.statusOffset v)
    | none => return .aborted .invalidLine
  | .probe pins => do
    discard
    return built (← build (Block.probe (Fixture.hostFor pins none) (← fixture).resources))
  | .init refuses => do
    discard
    let d ← makeDomain refuses
    setFixture ({ · with followed := some d })
    return built (← build (Block.init (Fixture.hostFor none none) (← fixture).resources d))
  | .initWake wakes => do
    discard
    let d ← makeDomain none
    return built (← build (Block.init (Fixture.hostFor none wakes) (← fixture).resources d))
  | .probeRaw main aon irqs => FixtureM.probeRaw main aon irqs
  | .attach refuses => FixtureM.attach refuses
  | .truncate => withBlock FixtureM.truncate
  | .flowOf virq => withBlock fun b => do
    let domain := b.domain.bind ((← fixture).world.domains[·]?)
    return .flow (domain.bind (·.flows[virq]?))
  | .operate op => withBlock fun b => return .outcome (← drive (b.perform op))

namespace Fixture

def countFlows (d : Domain) : Nat × Nat × Nat :=
  d.flows.fold (fun (s, l, e) _ f =>
    match f with
    | .simple => (s + 1, l, e)
    | .level => (s, l + 1, e)
    | .edge => (s, l, e + 1)) (0, 0, 0)

def domainRecord (f : Fixture) (calls : List (Call Nat)) (d : Nat) : DomainRecord where
  flows := ((f.world.domains[d]?).map countFlows).getD (0, 0, 0)
  chained := calls.filterMap fun
    | .domain e (.setChained irq c) => if e = d then some (irq, c) else none
    | _ => none
  passes := calls.filterMap fun
    | .domain e (.enter irq) => if e = d then some (true, irq) else none
    | .domain e (.exit irq) => if e = d then some (false, irq) else none
    | _ => none
  dispatched := calls.filterMap fun
    | .domain e (.handle virq) => if e = d then some virq else none
    | _ => none

def blockRecord (f : Fixture) (calls : List (Call Nat)) (b : Block Nat World) : BlockRecord where
  pins := calls.filterMap fun
    | .pin c => some c
    | _ => none
  types := calls.filterMap fun
    | .wake (.setType wake t) => some (wake, t)
    | _ => none
  wakes := calls.filterMap fun
    | .wake (.arm wake enable) => some (wake, enable)
    | _ => none
  published := f.published
  domain := b.domain.map (f.domainRecord calls)

def record (f : Fixture) (calls : List (Call Nat)) : Record where
  disposed := (f.followed.bind (f.world.domains[·]?)).map (·.disposed.toList)
  block := f.block.map (f.blockRecord calls)

structure Report where
  answers : List FixtureAnswer
  logs : Array Event
  record : Record

def run (f : Fixture) (steps : List FixtureStep) : Report × Fixture :=
  let (answers, p) := (steps.mapM FixtureStep.run).run ⟨f, #[], #[]⟩
  (⟨answers, p.logs, p.fixture.record p.calls.toList⟩, p.fixture)

end Fixture
end Gpio.Simulation
