import Gpio.Proofs.Attaching
import Gpio.Proofs.Dispatch
import Gpio.Proofs.FlowControl
import Gpio.Proofs.Verdicts

/-!
# Virtual interrupts act on the line they report

A call by virtual interrupt is the operation on the line that the domain has
behind it, and is refused where there is none. The handlers that a chained
interrupt runs are of lines that pended at the controller, so what they ask
for is done to these lines and not to a neighbour. The host may write while
handlers run, and what a port reports is its status when its turn comes.
-/

set_option autoImplicit false

namespace Gpio

open Drive

variable {D σ : Type}

structure Machine.Coincides (m n : Machine D σ) : Prop where
  memory : n.memory = m.memory
  world : n.world = m.world

theorem Machine.Coincides.record {m n : Machine D σ} (h : m.Coincides n) (e : Effect D) :
    (m.record e).Coincides (n.record e) :=
  ⟨congrArg (Effect.onMemory · e) h.memory, h.world⟩

def Likeness.coincident (D σ : Type) : Likeness D σ σ where
  machines := Machine.Coincides
  gates _ := True
  registers _ := True
  calls _ := True
  verdicts := Eq

theorem Block.coincident_lasts (b : Block D σ) : (Likeness.coincident D σ).Lasts b b.host where
  gate hm _ := by rw [hm.memory]
  opens _ _ _ := trivial
  load hm _ _ _ _ := by rw [hm.memory]
  store hm _ _ _ _ _ := hm.record _
  call c _ := by
    apply Host.matches_call
    · intro m n hm
      rw [hm.world]
      exact ⟨c.agree_self (fun _ => rfl) _, rfl⟩
    · intro m n hm
      refine ⟨hm.memory, ?_⟩
      show (b.host.answer c n.world).world = (b.host.answer c m.world).world
      rw [hm.world]
    · exact fun m n s w _ _ hm => hm.record _
  notice _ hm := hm.record _
  report f hvu := by
    subst hvu
    exact matches_report (fun _ hm => hm.record _) f _

/-- What an operation answers and does depends on the past in no other way than through memory and
the state of the host. -/
theorem Block.perform_coincides (b : Block D σ) (op : Operation D) {m n : Machine D σ}
    (h : m.Coincides n) : ((b.perform op).on n).1 = ((b.perform op).on m).1 ∧
      ((b.perform op).on m).2.Coincides ((b.perform op).on n).2 := by
  have status : (Likeness.coincident D σ).ShowsStatus b := fun hm _ _ => by rw [hm.memory]
  have alike := b.coincident_lasts.perform_matches op (fun _ _ => trivial) (fun _ _ => trivial)
    (fun _ _ => trivial) (fun _ => status) m n h
  exact ⟨alike.1.eq, alike.2⟩

def IrqCall.onLine (line : UInt32) : IrqCall → Option (Operation D)
  | ack _ => some (.ack line)
  | mask _ | disable _ | shutdown _ => some (.mask line)
  | unmask _ => some (.unmask line)
  | setWake _ enable => some (.setWake line enable)
  | setType .. => none

def Host.lookedUp (h : Host D σ) (d : D) (virq : UInt32) (m : Machine D σ) : Machine D σ :=
  h.reply (.domain d (.lineOf virq)) m

theorem Host.lookedUp_memory (h : Host D σ) (d : D) (virq : UInt32) (m : Machine D σ) :
    (h.lookedUp d virq m).memory = m.memory := rfl

def Host.LooksQuietly (h : Host D σ) (d : D) (live : σ → Prop) : Prop :=
  ∀ {s}, live s → ∀ virq, (h.answer (.domain d (.lineOf virq)) s).writes = []

namespace Block

variable {b : Block D σ} {d : D} {live : σ → Prop} {table : σ → UInt32 → Option UInt32}
  {m m₁ : Machine D σ} {virq line : UInt32}

/-- The lookup is the domain's answer, if that comes without writes. -/
theorem on_lineOfVirq (hd : b.domain = some d)
    (quiet : (b.host.answer (.domain d (.lineOf virq)) m.world).writes = []) :
    (b.lineOfVirq virq).on m =
      (match (b.host.answer (.domain d (.lineOf virq)) m.world).reply with
        | some line => .ok line
        | none => .error (.refused .invalidLine), b.host.lookedUp d virq m) := by
  unfold lineOfVirq callDomain
  rw [hd]
  refine (on_bind_ok (Host.on_call_of_quiet quiet) _).trans ?_
  cases (b.host.answer (.domain d (.lineOf virq)) m.world).reply <;> rfl

section Lookup

variable (hd : b.domain = some d) (binds : b.host.Binds d live table)
  (quiet : b.host.LooksQuietly d live) (hm : live m.world)
include hd binds quiet hm

theorem on_lineOfVirq_mapped (hline : table m.world line = some virq) :
    (b.lineOfVirq virq).on m = (.ok line, b.host.lookedUp d virq m) := by
  rw [on_lineOfVirq hd (quiet hm virq), (binds.behind hm virq line).mpr hline]

theorem on_lineOfVirq_unmapped (hnone : ∀ line, table m.world line ≠ some virq) :
    (b.lineOfVirq virq).on m = (.error (.refused .invalidLine), b.host.lookedUp d virq m) := by
  have reply : (b.host.answer (.domain d (.lineOf virq)) m.world).reply = none :=
    Option.eq_none_iff_forall_ne_some.mpr fun line hline =>
      hnone line ((binds.behind hm virq line).mp hline)
  rw [on_lineOfVirq hd (quiet hm virq), reply]

end Lookup

theorem on_lineOfVirq_without_domain (hd : b.domain = none) (virq : UInt32) (m : Machine D σ) :
    (b.lineOfVirq virq).on m = (.error (.refused .invalidLine), m) := by
  unfold lineOfVirq
  rw [hd]
  rfl

theorem perform_irq_ok {c : IrqCall} {op : Operation D}
    (h : (b.lineOfVirq c.virq).on m = (.ok line, m₁)) (hop : c.onLine line = some op) :
    (b.perform (.irq c)).on m = (b.perform op).on m₁ := by
  have behind : ∀ f : UInt32 → Drive D σ Unit,
      (done (b.lineOfVirq c.virq >>= f)).on m = (done (f line)).on m₁ := by
    intro f
    unfold done
    rw [bind_assoc, on_bind_ok h]
  cases c with
  | setType => cases hop
  | ack | mask | unmask | disable | shutdown | setWake =>
    cases hop
    exact behind _

/-- Whatever is asked for, the line is looked up first. -/
theorem perform_irq_error {c : IrqCall} {e : Failure}
    (h : (b.lineOfVirq c.virq).on m = (.error e, m₁)) :
    (b.perform (.irq c)).on m = (.error e, m₁) := by
  cases c with
  | setType virq raw => exact on_bind_error (on_bind_error h _) _
  | ack | mask | unmask | disable | shutdown | setWake => exact on_bind_error (on_bind_error h _) _

/-- Acknowledging an accessible line is one store, to its own register. -/
theorem on_ack_of_owns (fits : ∀ kind, bankExtent kind ≤ (b.bank kind).size)
    (own : b.owns m.memory line = true) : ∃ l, resolve line = some l ∧
      (b.perform (.ack line)).on m = (.ok .done,
        m.record (.store ((b.bank l.bank).base + l.offset .interruptClear) 1)) := by
  obtain ⟨l, hl⟩ := b.valid_of_owns own
  have covers := Bank.covers_register hl (fits l.bank) .interruptClear
  have acked : (b.ack line).on m = (.ok (),
      m.record (.store ((b.bank l.bank).base + l.offset .interruptClear) 1)) :=
    (on_bind_ok (b.on_own_of_owns own) _).trans ((b.on_write hl _ _ m).trans
      (on_put_of_covers covers (offset_fits hl _) _ m))
  exact ⟨l, (validLine_eq_ok.mp hl).1, on_bind_ok acked _⟩

end Block

namespace Trigger

theorem ofSense_of_sense {t : Trigger} {raw : Word} (h : t.sense = raw &&& Sense.mask) :
    ofSense raw = .ok t := by
  rw [ofSense, ← h]
  cases t <;> rfl

/-- Each sense that is supported is that of a trigger. -/
theorem exists_sense {n : Word} (h : n ∈ ([1, 2, 3, 4, 8] : List Word)) :
    ∃ t : Trigger, t.sense = n := by
  simp only [List.mem_cons, List.not_mem_nil, or_false] at h
  rcases h with rfl | rfl | rfl | rfl | rfl
  · exact ⟨.edgeRising, rfl⟩
  · exact ⟨.edgeFalling, rfl⟩
  · exact ⟨.edgeBoth, rfl⟩
  · exact ⟨.levelHigh, rfl⟩
  · exact ⟨.levelLow, rfl⟩

theorem sense_mem (t : Trigger) : t.sense ∈ ([1, 2, 3, 4, 8] : List Word) := by
  cases t <;> decide

theorem ofSense_unsupported {raw : Word}
    (h : raw &&& Sense.mask ∉ ([1, 2, 3, 4, 8] : List Word)) :
    ofSense raw = .refuse .unsupportedTrigger := by
  have unknown : all.find? (fun t => t.sense == raw &&& Sense.mask) = none := by
    refine List.find?_eq_none.mpr fun t _ ht => h ?_
    rw [← beq_iff_eq.mp ht]
    exact t.sense_mem
  rw [ofSense, unknown]

def flowOf (raw : Word) : Flow :=
  if raw &&& Sense.mask ∈ ([4, 8] : List Word) then .level else .edge

theorem flow_eq {t : Trigger} {raw : Word} (h : t.sense = raw &&& Sense.mask) :
    t.flow = flowOf raw := by
  rw [flowOf, ← h]
  cases t <;> rfl

end Trigger

def Call.switch? : Call D → Option (D × UInt32 × Flow)
  | .domain d (.setFlow virq flow) => some (d, virq, flow)
  | _ => none

namespace Machine

def switches (m : Machine D σ) : List (D × UInt32 × Flow) := m.calls.filterMap Call.switch?

theorem switches_call (h : Host D σ) (c : Call D) (m : Machine D σ) :
    ((h.call c).on m).2.switches = m.switches ++ c.switch?.toList := by
  rw [switches, calls_call, List.filterMap_append, switches]
  cases hc : c.switch? <;> simp [hc]

theorem switches_record {e : Effect D} (he : e.call? = none) (m : Machine D σ) :
    (m.record e).switches = m.switches := by
  rw [switches, calls_record, he, Option.toList, List.append_nil, switches]

end Machine

namespace Block

variable {b : Block D σ} {d : D} {m m₁ : Machine D σ} {virq : UInt32} {raw : Word}

/-- No flow is given before the handler is switched. -/
theorem setTypeBehind_switches (b : Block D σ) (virq : UInt32) (raw : Word) (m : Machine D σ) :
    ((b.setTypeBehind virq raw).on m).2.switches = m.switches := by
  have lasts : (Likeness.single (fun n : Machine D σ => n.switches = m.switches)
      fun c => c.switch? = none).Lasts b b.host := by
    apply Block.single_lasts
    · exact fun n _ _ hn => (n.switches_record rfl).trans hn
    · exact fun n _ hn => (n.switches_record rfl).trans hn
    · intro c hc n hn
      rw [n.switches_call, hc, Option.toList, List.append_nil, hn]
  have told : ∀ line t c, Call.TellsType line t c → Call.switch? (D := D) c = none := by
    rintro line t _ ⟨wake, -, rfl⟩
    rfl
  exact (lasts.setTypeBehind (fun _ => trivial) (fun _ => rfl) told raw).keeps m rfl

/-- The handler is switched once if the type is set, and not otherwise. -/
theorem perform_setType_switches (steady : b.host.Steady) (hd : b.domain = some d)
    (virq : UInt32) (raw : Word) (m : Machine D σ) :
    let r := (b.perform (.irq (.setType virq raw))).on m
    r.2.switches = m.switches ++
      match r.1 with
      | .ok _ => [(d, virq, Trigger.flowOf raw)]
      | .error _ => [] := by
  have before := b.setTypeBehind_switches virq raw m
  rcases hx : (b.setTypeBehind virq raw).on m with ⟨e | flow, m₁⟩ <;> rw [hx] at before
  · rw [perform_setType_error hx]
    exact before.trans (List.append_nil _).symm
  · obtain ⟨line, t, m₂, -, ht, -, rfl⟩ := setTypeBehind_ok hx
    rw [perform_setType_ok steady hd hx, Trigger.flow_eq (Trigger.sense_of_ofSense ht)]
    exact (m₁.switches_call _ _).trans (congrArg (· ++ _) before)

/-- Setting a type of a mapped line: the flags are read, then the line is programmed, and then the
handler is switched. -/
theorem perform_setType_mapped {line : UInt32} (steady : b.host.Steady) (hd : b.domain = some d)
    (hline : (b.lineOfVirq virq).on m = (.ok line, m₁)) (raw : Word) :
    if raw &&& Sense.mask ∈ ([1, 2, 3, 4, 8] : List Word) then
      ∃ t : Trigger, t.sense = raw &&& Sense.mask ∧
        match (b.setType line t).on m₁ with
        | (.error e, m₂) => (b.perform (.irq (.setType virq raw))).on m = (.error e, m₂)
        | (.ok _, m₂) => (b.perform (.irq (.setType virq raw))).on m = (.ok .done,
            ((b.host.call (.domain d (.setFlow virq (Trigger.flowOf raw)))).on m₂).2)
    else (b.perform (.irq (.setType virq raw))).on m =
      (.error (.refused .unsupportedTrigger), m₁) := by
  have behind : (b.setTypeBehind virq raw).on m =
      (ofChecked (Trigger.ofSense raw) >>= b.setType line).on m₁ := on_bind_ok hline _
  split
  · next supported =>
    obtain ⟨t, ht⟩ := Trigger.exists_sense supported
    rw [Trigger.ofSense_of_sense ht, ofChecked_ok] at behind
    refine ⟨t, ht, ?_⟩
    rcases hset : (b.setType line t).on m₁ with ⟨e | flow, m₂⟩
    · exact perform_setType_error (behind.trans hset)
    · obtain ⟨-, rfl⟩ := setType_ok hset
      rw [← Trigger.flow_eq ht]
      exact perform_setType_ok steady hd (behind.trans hset)
  · next unsupported =>
    rw [Trigger.ofSense_unsupported unsupported] at behind
    exact perform_setType_error behind

end Block

namespace Block

/-- Every handler run in `es` is one of the domain, and of a line that pended at the controller at
an earlier moment. -/
def Reports (b : Block D σ) (d : D) (bound : UInt32 → Option UInt32) (controller : UInt8)
    (m₀ : Memory) (es : List (Effect D)) : Prop :=
  ∀ before e virq, before ++ [.call (.domain e (.handle virq)) ()] <+: es →
    e = d ∧ ∃ seen line, seen <+: before ∧
      line ∈ b.pendingLines (seen.foldl Effect.onMemory m₀) controller ∧ bound line = some virq

variable {b : Block D σ} {d : D} {live : σ → Prop} {table : σ → UInt32 → Option UInt32}
  {bound : UInt32 → Option UInt32} {controller : UInt8} {es seen : List (Effect D)}

theorem Reports.nil {m₀ : Memory} : b.Reports d bound controller m₀ [] := by
  intro before e virq h
  exact absurd (List.prefix_nil.mp h) (by simp)

theorem Reports.other {m₀ : Memory} (h : b.Reports d bound controller m₀ es) {x : Effect D}
    (hx : ∀ e virq, x ≠ .call (.domain e (.handle virq)) ()) :
    b.Reports d bound controller m₀ (es ++ [x]) := by
  intro before e virq hpre
  rcases List.prefix_concat_iff.mp hpre with heq | hpre
  · exact absurd (List.singleton_inj.mp (List.append_inj' heq rfl).2).symm (hx e virq)
  · exact h before e virq hpre

theorem Reports.handle {m₀ : Memory} (h : b.Reports d bound controller m₀ es)
    (hseen : seen <+: es) {line virq : UInt32}
    (pending : line ∈ b.pendingLines (seen.foldl Effect.onMemory m₀) controller)
    (hline : bound line = some virq) :
    b.Reports d bound controller m₀ (es ++ [.call (.domain d (.handle virq)) ()]) := by
  intro before e v hpre
  rcases List.prefix_concat_iff.mp hpre with heq | hpre
  · obtain ⟨rfl, hlast⟩ := List.append_inj' heq rfl
    cases hlast
    exact ⟨rfl, seen, line, hseen, pending, hline⟩
  · exact h before e v hpre

/-- Where a chained handler that began at `m₀` stands: the domain is bound as it was, what ran so
far was reported, and `seen` is how far it was when it last read a status word. -/
structure Dispatching (b : Block D σ) (d : D) (live : σ → Prop)
    (table : σ → UInt32 → Option UInt32) (bound : UInt32 → Option UInt32) (controller : UInt8)
    (m₀ : Machine D σ) (seen : List (Effect D)) (m : Machine D σ) : Prop where
  state : m.Bound live table bound
  run : ∃ es, m₀.After es m ∧ b.Reports d bound controller m₀.memory es ∧ seen <+: es

section Dispatching

variable {m₀ m : Machine D σ}

theorem Dispatching.record (h : b.Dispatching d live table bound controller m₀ seen m)
    {x : Effect D} (hx : ∀ e virq, x ≠ .call (.domain e (.handle virq)) ()) :
    b.Dispatching d live table bound controller m₀ seen (m.record x) := by
  obtain ⟨es, after, reports, hseen⟩ := h.run
  exact ⟨h.state.record x, es ++ [x], after.record x, reports.other hx,
    hseen.trans (List.prefix_append es [x])⟩

theorem Dispatching.forget (h : b.Dispatching d live table bound controller m₀ seen m) :
    b.Dispatching d live table bound controller m₀ [] m := by
  obtain ⟨es, after, reports, -⟩ := h.run
  exact ⟨h.state, es, after, reports, List.nil_prefix⟩

variable (binds : b.host.Binds d live table)
include binds

theorem keeps_dispatching {c : Call D} (hc : ¬ c.Remaps)
    (reported : ∀ es v, b.Reports d bound controller m₀.memory es → seen <+: es →
      b.Reports d bound controller m₀.memory (es ++ [.call c v])) :
    Keeps (b.Dispatching d live table bound controller m₀ seen) (b.host.call c) := by
  apply Host.keeps_call
  · intro m hm
    obtain ⟨es, after, reports, hseen⟩ := hm.run
    have hworld : m₀.After es { m with world := (b.host.answer c m.world).world } :=
      ⟨after.trace, after.memory⟩
    constructor
    · exact ⟨binds.lasting hm.state.live c,
        (binds.stable hm.state.live c hc).trans hm.state.table⟩
    · exact ⟨_, hworld.record _, reported es _ reports hseen,
        hseen.trans (List.prefix_append es _)⟩
  · exact fun _ _ _ _ _ hm => hm.record nofun

/-- A call that runs no handler. -/
theorem keeps_dispatching_other {c : Call D} (hc : ¬ c.Remaps)
    (hne : ∀ e virq, c ≠ .domain e (.handle virq)) :
    Keeps (b.Dispatching d live table bound controller m₀ seen) (b.host.call c) := by
  apply keeps_dispatching binds hc
  intro es v reports _
  apply reports.other
  intro e virq heq
  cases heq
  exact hne e virq rfl

theorem keeps_dispatchPin {port pin : Nat} (pending : lineOf port pin ∈
      b.pendingLines (seen.foldl Effect.onMemory m₀.memory) controller) :
    Keeps (b.Dispatching d live table bound controller m₀ seen) (b.dispatchPin d port pin) := by
  intro m hm
  have asked := keeps_dispatching_other binds (c := .domain d (.find (lineOf port pin))) id nofun
    m hm
  unfold dispatchPin callDomain
  rcases hfind : (b.host.call (.domain d (.find (lineOf port pin)))).on m with ⟨e | reply, m₁⟩ <;>
    rw [hfind] at asked
  · rw [on_bind_error hfind]
    exact asked
  · have hline : reply = bound (lineOf port pin) := by
      rw [Host.reply_of_call hfind, binds.found hm.state.live, hm.state.table]
    rw [on_bind_ok hfind]
    cases reply with
    | none => exact asked
    | some virq =>
      have handled : Keeps (b.Dispatching d live table bound controller m₀ seen)
          (b.host.call (.domain d (.handle virq))) :=
        keeps_dispatching binds id fun es _ reports hseen =>
          reports.handle hseen pending hline.symm
      exact handled m₁ asked

/-- The handlers of a port are run on the status it has when its turn comes. -/
theorem keeps_dispatchPort {port : Nat} {p : Port} (hp : ports[port]? = some p)
    (hcontroller : p.controller = some controller) :
    Keeps (b.Dispatching d live table bound controller m₀ []) (b.dispatchPort d port) := by
  intro m hm
  obtain ⟨es, after, reports, -⟩ := hm.run
  have walk : Keeps (b.Dispatching d live table bound controller m₀ es)
      (((List.range 8).filter (b.pending m.memory p)).forM (b.dispatchPin d port)) := by
    apply keeps_forM
    intro pin hpin
    rw [List.mem_filter, List.mem_range] at hpin
    apply keeps_dispatchPin binds
    rw [← after.memory]
    exact (b.mem_pendingLines m.memory).mpr ⟨port, p, pin, hp, hcontroller, hpin.1, hpin.2, rfl⟩
  rw [on_dispatchPort hp]
  exact (walk m ⟨hm.state, es, after, reports, List.prefix_refl es⟩).forget

theorem keeps_handleChained (hd : b.domain = some d) :
    Keeps (b.Dispatching d live table bound controller m₀ []) (b.handleChained controller) := by
  unfold handleChained
  rw [hd, reduceOption_controllerPorts]
  cases b.controller? controller with
  | none => exact fun _ hm => hm.record nofun
  | some c =>
    apply keeps_bind (keeps_dispatching_other binds (c := .domain d (.enter c.irq)) id nofun)
    intro _
    refine keeps_bind (keeps_forM _ fun port hport => ?_) fun _ =>
      keeps_dispatching_other binds (c := .domain d (.exit c.irq)) id nofun
    obtain ⟨p, hp, hcontroller⟩ := mem_portsOf.mp hport
    exact keeps_dispatchPort binds hp hcontroller

end Dispatching

/-- For a probed block with a domain attached that maps lines one to one, a call by virtual
interrupt is the operation on the line behind it, in result and in effect. It is refused with
nothing done where no line is behind it, and where there is no domain. A type that is not supported
is refused whatever the line, and of the flags only the low four bits matter. The handler is
switched once, to what the type needs, if setting it succeeds, and not otherwise. A chained
interrupt runs handlers for lines that pended at its controller when their port was looked at;
acknowledging such a virtual interrupt, while the mapping lasts, is one store of 1 to the register
of that line. -/
theorem irqTable_acts_on_lines {p : Block D σ} {main aon : Bank} (probed : p.Probed main aon)
    {d : D} {live : σ → Prop} {table : σ → UInt32 → Option UInt32}
    (binds : p.host.Binds d live table) (quiet : p.host.LooksQuietly d live)
    (steady : p.host.Steady) (m : Machine D σ) (hm : live m.world) :
    let b := p.withDomain d
    let found := fun virq => p.host.lookedUp d virq m
    (∀ virq, (found virq).memory = m.memory) ∧
    (∀ (c : IrqCall) (line : UInt32) (op : Operation D), table m.world line = some c.virq →
      c.onLine line = some op →
        (b.perform (.irq c)).on m = (b.perform op).on (found c.virq) ∧
        ((found c.virq).world = m.world →
          ((b.perform (.irq c)).on m).1 = ((b.perform op).on m).1 ∧
          ((b.perform (.irq c)).on m).2.memory = ((b.perform op).on m).2.memory)) ∧
    (∀ c : IrqCall, (∀ line, table m.world line ≠ some c.virq) →
      (b.perform (.irq c)).on m = (.error (.refused .invalidLine), found c.virq)) ∧
    (∀ c : IrqCall, (p.perform (.irq c)).on m = (.error (.refused .invalidLine), m)) ∧
    (∀ virq raw,
      let r := (b.perform (.irq (.setType virq raw))).on m
      (∀ line, table m.world line = some virq →
        if raw &&& 0xf ∈ ([1, 2, 3, 4, 8] : List Word) then
          ∃ t : Trigger, t.sense = raw &&& 0xf ∧
            match (b.setType line t).on (found virq) with
            | (.error e, m₁) => r = (.error e, m₁)
            | (.ok _, m₁) => r = (.ok .done,
                ((p.host.call (.domain d (.setFlow virq (Trigger.flowOf raw)))).on m₁).2)
        else r = (.error (.refused .unsupportedTrigger), found virq)) ∧
      r.2.switches = m.switches ++
        match r.1 with
        | .ok _ => [(d, virq, Trigger.flowOf raw)]
        | .error _ => []) ∧
    ∀ controller, ∃ es, m.After es ((b.perform (.chained controller)).on m).2 ∧
      ∀ before e virq, before ++ [.call (.domain e (.handle virq)) ()] <+: es → e = d ∧
        ∃ seen line, seen <+: before ∧
          line ∈ b.pendingLines (seen.foldl Effect.onMemory m.memory) controller ∧
          table m.world line = some virq ∧
          ∀ n : Machine D σ, live n.world → table n.world = table m.world →
            b.isAccessible n.memory line = .ok true → ∃ l, resolve line = some l ∧
              (b.perform (.irq (.ack virq))).on n = (.ok .done,
                (p.host.lookedUp d virq n).record
                  (.store ((b.bank l.bank).base + l.offset .interruptClear) 1)) := by
  intro b found
  have hd : b.domain = some d := rfl
  have mapped : ∀ n : Machine D σ, live n.world → ∀ {line virq}, table n.world line = some virq →
      (b.lineOfVirq virq).on n = (.ok line, p.host.lookedUp d virq n) :=
    fun n hn _ _ hline => on_lineOfVirq_mapped hd binds quiet hn hline
  refine ⟨fun virq => p.host.lookedUp_memory d virq m, ?_, ?_, ?_, ?_, ?_⟩
  · intro c line op hline hop
    have acts := perform_irq_ok (mapped m hm hline) hop
    refine ⟨acts, fun hworld => ?_⟩
    have coincides : m.Coincides (found c.virq) := ⟨rfl, hworld⟩
    rw [acts]
    exact ⟨(b.perform_coincides op coincides).1, (b.perform_coincides op coincides).2.memory⟩
  · intro c hnone
    exact perform_irq_error (on_lineOfVirq_unmapped hd binds quiet hm hnone)
  · intro c
    obtain ⟨-, -, hnone, -⟩ := probed.fields
    exact perform_irq_error (on_lineOfVirq_without_domain hnone c.virq m)
  · intro virq raw
    constructor
    · intro line hline
      exact perform_setType_mapped (b := b) steady hd (mapped m hm hline) raw
    · exact perform_setType_switches (b := b) steady hd virq raw m
  · intro controller
    have start : b.Dispatching d live table (table m.world) controller m [] m :=
      ⟨⟨hm, rfl⟩, [], .refl m, .nil, List.nil_prefix⟩
    have ran := keeps_done (keeps_handleChained (b := b) binds hd) m start
    obtain ⟨es, after, reports, -⟩ := ran.run
    refine ⟨es, after, fun before e virq hpre => ?_⟩
    obtain ⟨he, seen, line, hseen, pending, hline⟩ := reports before e virq hpre
    refine ⟨he, seen, line, hseen, pending, hline, fun n hn htable accessible => ?_⟩
    have fits : ∀ kind, bankExtent kind ≤ (b.bank kind).size :=
      (Stands.attached (.probed probed) d).fits
    obtain ⟨l, hl, acked⟩ := on_ack_of_owns (m := p.host.lookedUp d virq n) fits
      (accessible_iff.mp accessible)
    have acts : (b.perform (.irq (.ack virq))).on n =
        (b.perform (.ack line)).on (p.host.lookedUp d virq n) :=
      perform_irq_ok (mapped n hn (htable ▸ hline)) rfl
    exact ⟨l, hl, acts.trans acked⟩

end Block
/-- A handler that was run has its place in the trace. -/
theorem Machine.exists_before_of_handled {m : Machine D σ} {d : D} {virq : UInt32}
    (h : (d, virq) ∈ m.handled) :
    ∃ before, before ++ [.call (.domain d (.handle virq)) ()] <+: m.trace.toList := by
  obtain ⟨e, he, hv⟩ := List.mem_filterMap.mp h
  obtain ⟨before, rest, htrace⟩ := List.append_of_mem he
  unfold Effect.handled? at hv
  split at hv
  · cases hv
    exact ⟨before, rest, by rw [htrace, List.append_assoc, List.singleton_append]⟩
  · cases hv

open Simulation in
/-- With every status bit set, controller 3 runs the handler of virtual interrupt 40. That one
belongs to line 8: disabling it masks the line, and acknowledging it after the run clears the
interrupt of the line. Sense flags 6 are refused, whatever stands in the bits above them. -/
theorem bench_irqTable_acts_on_lines :
    Fixture.start.probed.Probed Fixture.start.main Fixture.start.aon ∧
    Fixture.start.probed.host.Binds 0 (·.Holds 0 .plain) (·.find 0) ∧
    Fixture.start.probed.host.LooksQuietly 0 (·.Holds 0 .plain) ∧
    Fixture.start.probed.host.Steady ∧ (World.routed .plain).Holds 0 .plain ∧
    let b := Fixture.start.routing
    let m : Machine Nat World := .start Fixture.granting (World.routed .plain)
    let n := ((b.perform (.chained 3)).on m).2
    let found := fun n => b.host.lookedUp 0 40 n
    (b.perform (.irq (.disable 40))).on m = (b.perform (.mask 8)).on (found m) ∧
    (b.perform (.irq (.setType 40 0xf6))).on m =
      (.error (.refused .unsupportedTrigger), found m) ∧
    (0, 40) ∈ n.handled ∧
    (b.perform (.irq (.ack 40))).on n = (.ok .done, (found n).record (.store
      (Fixture.start.main.base + ((Port.main "B" 3 0 7).locate 1 0).offset .interruptClear) 1)) := by
  have holds := World.routed_holds .plain
  have hline : (World.routed .plain).find 0 8 = some 40 := World.routed_find rfl rfl (by decide)
  have probed : Fixture.start.probed.Probed Fixture.start.main Fixture.start.aon :=
    Block.probed_of_accepted Fixture.start_accepted _ rfl
      (.start Fixture.granting (World.routed .plain))
  have binds : Fixture.start.probed.host.Binds 0 (·.Holds 0 .plain) (·.find 0) :=
    host_binds _ _ 0 rfl
  have quiet : Fixture.start.probed.host.LooksQuietly 0 (·.Holds 0 .plain) :=
    fun _ _ => Fixture.hostFor_quiet none none _ _
  have steady : Fixture.start.probed.host.Steady :=
    Host.steady_of_quiet (Fixture.hostFor_quiet none none)
  obtain ⟨-, acts, -, -, sets, runs⟩ := Block.irqTable_acts_on_lines probed binds quiet steady
    (.start Fixture.granting (World.routed .plain)) holds
  have recorded : Fixture.start.routing.controller? 3 = some _ := rfl
  obtain ⟨n, hon, ⟨holds', hfind⟩, hmemory, -, hhandled⟩ :=
    Block.on_handleChained Fixture.start.routes rfl recorded
      (m := .start Fixture.granting (World.routed .plain)) ⟨holds, rfl⟩
  have pending : 8 ∈ Fixture.start.routing.pendingLines Fixture.granting 3 := by
    rw [Fixture.pendingLines_granting]
    decide
  have handled : (0, 40) ∈ n.handled := by
    rw [hhandled]
    exact List.mem_append_right _
      (List.mem_map_of_mem (List.mem_filterMap.mpr ⟨8, pending, hline⟩))
  obtain rfl : ((Fixture.start.routing.perform (.chained 3)).on
      (.start Fixture.granting (World.routed .plain))).2 = n := congrArg Prod.snd (on_bind_ok hon _)
  obtain ⟨before, hbefore⟩ := Machine.exists_before_of_handled handled
  obtain ⟨es, after, reports⟩ := runs 3
  have htrace := after.trace.trans (List.nil_append es)
  obtain ⟨-, seen, line, -, -, hfound, acks⟩ := reports before 0 40 (htrace ▸ hbefore)
  obtain rfl : line = 8 := binds.injective holds hfound hline
  have hl : validLine 8 = .ok ((Port.main "B" 3 0 7).locate 1 0) := rfl
  have granted : Fixture.start.routing.isAccessible
      ((Fixture.start.routing.perform (.chained 3)).on
        (.start Fixture.granting (World.routed .plain))).2.memory 8 = .ok true := by
    rw [Block.accessible_iff, hmemory, Block.owns_of_valid _ _ hl, Block.grants, Machine.start,
      Fixture.granting_loadWord]
    decide
  obtain ⟨l, hresolve, acked⟩ := acks _ holds' hfind granted
  cases hresolve
  exact ⟨probed, binds, quiet, steady, holds, (acts (.disable 40) 8 (.mask 8) hline rfl).1,
    (sets 40 0xf6).1 8 hline, handled, acked⟩

end Gpio
