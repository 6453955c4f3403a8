import Gpio.Operation
import Gpio.Simulation.Region

/-!
# What an observer of the host sees

Calls and log lines in order, with the state of a line's registers at the
moment of a pin or wake call. Runs of consecutive mappings, disposals and
equal flows are shown as one span. Lookups are not shown, and neither is the
chained entry of a silent domain.
-/

set_option autoImplicit false

namespace Gpio.Simulation

inductive SpanKind where
  | created
  | disposed
  | flow (f : Flow)
  deriving DecidableEq, Repr

inductive Event where
  | log (s : Severity) (text : String)
  | pin (c : PinCall) (registers : Option (List Word))
  | wakeType (wake : Nat) (t : Trigger) (registers : Option (List Word))
  | wakeArm (wake : Nat) (enable : Bool) (registers : Option (List Word))
  | published (base : UInt32) (length routed sum : Nat)
  | span (kind : SpanKind) (lo hi : Nat)
  | createFailed (line : UInt32)
  | chained (irq : UInt32) (controller : UInt8)
  | entered (irq : UInt32)
  | left (irq : UInt32)
  | handled (virq : UInt32)
  | dropped (base : UInt32)
  deriving DecidableEq, Repr

/-- Appends a span of one; a span of the same kind that ends just below it grows instead. -/
def Event.extend (events : Array Event) (kind : SpanKind) (n : Nat) : Array Event :=
  match events.back? with
  | some (.span k lo hi) =>
    if k = kind ∧ hi + 1 = n then events.pop.push (.span kind lo n)
    else events.push (.span kind n n)
  | _ => events.push (.span kind n n)

def watched : List PinRegister :=
  [.enableConfig, .debounceThreshold, .input, .outputControl, .outputValue]

def registersOf (given : List BackedBank) (m : Memory) (line : UInt32) : Option (List Word) := do
  let l ← resolve line
  guard l.valid
  let k ← given[l.bank.index]?
  guard k.region.isSome
  watched.mapM fun r => Except.toOption (k.bank.read m (l.offset r))

def registersOfWake (given : List BackedBank) (m : Memory) (wake : Nat) : Option (List Word) := do
  let line ← (← Wake.sources[wake]?)
  registersOf given m line

def tableDigest (table : List (Option UInt32)) : Nat × Nat :=
  table.zipIdx.foldl (fun (routed, sum) (entry, i) =>
    match entry with
    | some line => (routed + 1, sum + (i + 1) * (line.toNat + 1))
    | none => (routed, sum)) (0, 0)

structure Observer where
  given : List BackedBank
  isSilent : Nat → Bool

namespace Observer

def seePin (o : Observer) (m : Memory) (c : PinCall) : Event :=
  match c with
  | .request line | .free line | .input line | .output line =>
    .pin c (registersOf o.given m line)

def seeWake (o : Observer) (m : Memory) : WakeCall → Event
  | .setType wake t => .wakeType wake t (registersOfWake o.given m wake)
  | .arm wake enable => .wakeArm wake enable (registersOfWake o.given m wake)
  | .publish base table =>
    let (routed, sum) := tableDigest table
    .published base table.length routed sum

def seeDomain (o : Observer) (events : Array Event) (d : Nat) :
    (c : DomainCall) → c.Reply → Array Event
  | .create line, some _ => Event.extend events .created line.toNat
  | .create line, none => events.push (.createFailed line)
  | .find _, _ | .lineOf _, _ => events
  | .dispose virq, _ => Event.extend events .disposed virq.toNat
  | .setFlow virq f, _ => Event.extend events (.flow f) virq.toNat
  | .setChained irq controller, _ => events.push (.chained irq controller)
  | .handle virq, _ => events.push (.handled virq)
  | .enter irq, _ => if o.isSilent d then events else events.push (.entered irq)
  | .exit irq, _ => if o.isSilent d then events else events.push (.left irq)

def see (o : Observer) (m : Memory) (events : Array Event) : Effect Nat → Array Event
  | .store _ _ | .hostStore _ _ => events
  | .notice n => events.push (.log n.severity n.text)
  | .call (.pin c) _ => events.push (o.seePin m c)
  | .call (.wake c) _ => events.push (o.seeWake m c)
  | .call (.domain d c) reply => o.seeDomain events d c reply

def watch (o : Observer) (m : Memory) (trace : Array (Effect Nat)) (events : Array Event) :
    Array Event :=
  (trace.foldl (fun (m, events) e => (e.onMemory m, o.see m events e)) (m, events)).2

end Observer

def logLines (trace : Array (Effect Nat)) : Array Event :=
  trace.filterMap fun
    | .notice n => some (.log n.severity n.text)
    | _ => none

def touched (trace : Array (Effect Nat)) : List Nat :=
  trace.toList.filterMap fun
    | .store a _ | .hostStore a _ => some a
    | _ => none

end Gpio.Simulation
