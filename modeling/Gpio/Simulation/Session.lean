import Gpio.Simulation.Event
import Gpio.Simulation.World

/-!
# Sessions

A session is a device with several banks, a host, and any number of blocks
over them, driven step by step. A step answers, shows its events, and leaves
the registers it changed. Its host is quiet about domains that are merely
replaced: their end is an event of the session.
-/

set_option autoImplicit false

namespace Gpio.Simulation

structure Instance where
  block : Block Nat World
  given : List BackedBank

structure Setup where
  banks : List Nat
  irqs : List UInt32
  pins : PinFailures
  wakes : WakeFailures

inductive SavedField where
  | config
  | debounce
  | outputControl
  | outputValue
  deriving DecidableEq, Repr

inductive Step where
  | probe (c : UInt32) (s : Setup)
  | init (c : UInt32) (s : Setup) (domain : DomainSpec)
  | attach (c : UInt32) (domain : DomainSpec)
  | operate (c : UInt32) (op : Operation Nat)
  | resize (c : UInt32) (kind : BankKind) (size : Nat)
  | controllers (c : UInt32)
  | controller (c : UInt32) (id : UInt8)
  | domainBase (c : UInt32)
  | bank (c : UInt32) (kind : BankKind)
  | saved (c : UInt32) (id : UInt8) (set : List SavedField) (slot : Nat) (v : Word)
  | grant (lines : List UInt32) (v : Word)
  | setRegister (line : UInt32) (r : PinRegister) (v : Word)
  | setStatus (port : Nat) (v : Word)
  | poke (bank offset : Nat) (v : Word)
  | peek (bank offset : Nat)

inductive StepAnswer where
  | noInstance
  | outcome (r : Except Failure Outcome)
  | size (n : Nat)
  | count (n : Nat)
  | controllers (cs : List (UInt8 × UInt32))
  | controller (c : Option (UInt8 × UInt32))
  | domainBase (base : Option UInt32)
  | bank (b : Bank)
  | saved (s : Option SavedRegisters)

structure Session where
  /-- By number; a number can go without a bank. -/
  banks : List (Option BackedBank)
  instances : List (UInt32 × Instance)
  memory : Memory
  world : World

namespace Session

def start (banks : List (Option BackedBank)) : Session :=
  ⟨banks, [], Region.memory (banks.reduceOption.filterMap (·.region)), .empty⟩

def backed? (s : Session) (i : Nat) : Option BackedBank := s.banks[i]?.join

def bank? (s : Session) (i : Nat) : Option Bank := (s.backed? i).map (·.bank)

def instance? (s : Session) (c : UInt32) : Option Instance := s.instances.lookup c

def put (s : Session) (c : UInt32) (i : Instance) : Session :=
  { s with instances := (c, i) :: s.instances.filter (·.1 != c) }

end Session

structure Progress where
  session : Session
  events : Array Event
  touched : List Nat

abbrev SessionM := StateM Progress

namespace SessionM

def drive {α : Type} (given : List BackedBank) (x : Drive Nat World α) :
    SessionM (Except Failure α) := fun p =>
  let s := p.session
  let (r, m) := x.on (.start s.memory s.world)
  let o : Observer := ⟨given, m.world.isSilent⟩
  (r, {
    session := { s with memory := m.memory, world := m.world }
    events := o.watch s.memory m.trace p.events
    touched := p.touched ++ Simulation.touched m.trace })

def session : SessionM Session := return (← get).session

def putInstance (c : UInt32) (i : Instance) : SessionM Unit :=
  modify fun p => { p with session := p.session.put c i }

def makeDomain (spec : DomainSpec) : SessionM Nat := modifyGet fun p =>
  let (d, world) := p.session.world.make spec
  (d, { p with session := { p.session with world := world } })

def dropDomain (base : UInt32) : SessionM Unit :=
  modify fun p => { p with events := p.events.push (.dropped base) }

def dropDomainOf (b : Block Nat World) : SessionM Unit := do
  match b.domain.bind (← session).world.base? with
  | some base => dropDomain base
  | none => pure ()

def replace (c : UInt32) (i : Instance) : SessionM Unit := do
  let old := (← session).instance? c
  putInstance c i
  match old with
  | some old => dropDomainOf old.block
  | none => pure ()

def pokeBank (bank offset : Nat) (v : Word) : SessionM (Except Failure Unit) := do
  match (← session).bank? bank with
  | some k => drive [] (k.put offset v)
  | none => return .error (.refused .invalidLine)

def peekBank (bank offset : Nat) : SessionM (Except Failure Word) := do
  match (← session).bank? bank with
  | some k => drive [] (.observe fun m => k.read m offset)
  | none => return .error (.refused .invalidLine)

def done (r : Except Failure Unit) : StepAnswer := .outcome (r.map fun _ => .done)

def withInstance (c : UInt32) (f : Instance → SessionM StepAnswer) : SessionM StepAnswer := do
  match (← session).instance? c with
  | some i => f i
  | none => pure .noInstance

def resources (s : Setup) : SessionM (List BackedBank × Resources) := do
  let given := s.banks.filterMap (← session).backed?
  pure (given, ⟨given.map (·.bank), s.irqs⟩)

def hostFor (s : Setup) : SessionM (Host Nat World) :=
  return host (← session).bank? s.pins s.wakes

def probe (c : UInt32) (s : Setup) : SessionM StepAnswer := do
  let (given, r) ← resources s
  match ← drive given (Block.probe (← hostFor s) r) with
  | .ok b =>
    replace c ⟨b, given⟩
    pure (.outcome (.ok .done))
  | .error e => pure (.outcome (.error e))

def init (c : UInt32) (s : Setup) (spec : DomainSpec) : SessionM StepAnswer := do
  let (given, r) ← resources s
  let d ← makeDomain spec
  match ← drive given (Block.init (← hostFor s) r d) with
  | .ok b =>
    replace c ⟨b, given⟩
    pure (.outcome (.ok .done))
  | .error e =>
    dropDomain spec.base
    pure (.outcome (.error e))

def attach (c : UInt32) (spec : DomainSpec) : SessionM StepAnswer := do
  match (← session).instance? c with
  | none =>
    dropDomain spec.base
    pure .noInstance
  | some i =>
    let d ← makeDomain spec
    match ← drive i.given (i.block.attach d) with
    | .ok () =>
      replace c { i with block := i.block.withDomain d }
      pure (.outcome (.ok .done))
    | .error e =>
      dropDomain spec.base
      pure (.outcome (.error e))

def grant (v : Word) : List UInt32 → SessionM Nat
  | [] => pure 0
  | line :: rest => do
    let here ← match resolve line with
      | some l => pokeBank l.bank.index l.security v
      | none => pure (.error (.refused .invalidLine))
    let others ← grant v rest
    pure (if here.isOk then others + 1 else others)

end SessionM

def SavedRegisters.setSlot (s : SavedRegisters) (slot : Nat) (v : Word) :
    SavedField → SavedRegisters
  | .config => { s with config := s.config.setIfInBounds slot v }
  | .debounce => { s with debounce := s.debounce.setIfInBounds slot v }
  | .outputControl => { s with outputControl := s.outputControl.setIfInBounds slot v }
  | .outputValue => { s with outputValue := s.outputValue.setIfInBounds slot v }

def Instance.setSaved (i : Instance) (id : UInt8) (fields : List SavedField) (slot : Nat)
    (v : Word) : Instance :=
  let set (c : Controller) := { c with
    saved := fields.foldl (fun s f => SavedRegisters.setSlot s slot v f) c.saved }
  { i with block := { i.block with controllers := i.block.controllers.modify id.toNat set } }

open SessionM in
def Step.run : Step → SessionM StepAnswer
  | .probe c s => SessionM.probe c s
  | .init c s spec => SessionM.init c s spec
  | .attach c spec => SessionM.attach c spec
  | .operate c op => withInstance c fun i => do
    return .outcome (← drive i.given (i.block.perform op))
  | .resize c kind size => withInstance c fun i => do
    let k := i.block.bank kind
    putInstance c { i with block := i.block.setBank kind { k with size := size } }
    pure (.size size)
  | .controllers c => withInstance c fun i =>
    pure (.controllers (i.block.controllers.map fun c => (c.id, c.irq)))
  | .controller c id => withInstance c fun i =>
    pure (.controller ((i.block.controller? id).map fun c => (c.id, c.irq)))
  | .domainBase c => withInstance c fun i => do
    return .domainBase (i.block.domain.bind (← session).world.base?)
  | .bank c kind => withInstance c fun i => pure (.bank (i.block.bank kind))
  | .saved c id fields slot v => withInstance c fun i => do
    let i := i.setSaved id fields slot v
    putInstance c i
    pure (.saved ((i.block.controller? id).map (·.saved)))
  | .grant ls v => return .count (← SessionM.grant v ls)
  | .setRegister line r v => do
    match resolve line with
    | some l => return done (← pokeBank l.bank.index (l.offset r) v)
    | none => return done (.error (.refused .invalidLine))
  | .setStatus port v => do
    match ports[port]? with
    | some p => return done (← pokeBank p.bank.index p.statusOffset v)
    | none => return done (.error (.refused .invalidLine))
  | .poke k offset v => return done (← pokeBank k offset v)
  | .peek k offset => return .outcome ((← peekBank k offset).map .word)

structure Report where
  answers : List StepAnswer
  events : Array Event
  changes : List Change

def Session.run (s : Session) (steps : List Step) : Report × Session :=
  let (answers, p) := (steps.mapM Step.run).run ⟨s, #[], []⟩
  let changed := changes s.banks s.memory p.session.memory p.touched
  (⟨answers, p.events, changed⟩, p.session)

end Gpio.Simulation
