import Gpio.Proofs.Atomicity

/-!
# Operations that log no error

Most operations leave no notice at the level of errors, however they end:
what they are refused is for the caller to judge. `Calm` says this of a
computation, and that it has no direction declined. The lemmas follow the
operations, and `perform_calm` puts them together. Banks may have any size.
-/

set_option autoImplicit false

namespace Gpio

open Drive

variable {D σ α β : Type}

def Call.decline? : (c : Call D) → c.Reply → Option SystemError
  | .pin (.input _), .error e | .pin (.output _), .error e => some e
  | .pin (.input _), .ok _ | .pin (.output _), .ok _ => none
  | .pin (.request _), _ | .pin (.free _), _ | .wake _, _ | .domain _ _, _ => none

def Call.Undirected (c : Call D) : Prop := ∀ v, c.decline? v = none

namespace Effect

def error? : Effect D → Option Notice
  | notice n => if n.severity = .error then some n else none
  | store .. | hostStore .. | call .. => none

def decline? : Effect D → Option SystemError
  | call c v => c.decline? v
  | store .. | hostStore .. | notice _ => none

end Effect

namespace Machine

def errors (m : Machine D σ) : List Notice := m.trace.toList.filterMap Effect.error?

def declines (m : Machine D σ) : List SystemError := m.trace.toList.filterMap Effect.decline?

theorem errors_record (m : Machine D σ) (e : Effect D) :
    (m.record e).errors = m.errors ++ e.error?.toList :=
  m.filterMap_record Effect.error? e

theorem declines_record (m : Machine D σ) (e : Effect D) :
    (m.record e).declines = m.declines ++ e.decline?.toList :=
  m.filterMap_record Effect.decline? e

theorem errors_error (m : Machine D σ) {n : Notice} (hn : n.severity = .error) :
    (m.record (.notice n)).errors = m.errors ++ [n] := by
  rw [errors_record, Effect.error?, if_pos hn]
  rfl

structure Level (m₀ m : Machine D σ) : Prop where
  errors : m.errors = m₀.errors
  declines : m.declines = m₀.declines

theorem Level.refl (m : Machine D σ) : m.Level m := ⟨rfl, rfl⟩

theorem Level.record {m₀ m : Machine D σ} (h : m₀.Level m) {e : Effect D}
    (he : e.error? = none) (hd : e.decline? = none) : m₀.Level (m.record e) where
  errors := by rw [errors_record, he, h.errors]; exact List.append_nil _
  declines := by rw [declines_record, hd, h.declines]; exact List.append_nil _

end Machine

/-- A call logs nothing, and only its reply can decline. -/
theorem Host.call_log (h : Host D σ) (c : Call D) (m : Machine D σ) :
    ((h.call c).on m).2.errors = m.errors ∧ ((h.call c).on m).2.declines =
      m.declines ++ (c.decline? (h.answer c m.world).reply).toList := by
  apply Host.call_keeps (I := fun n => n.errors = m.errors ∧ n.declines = _)
  · constructor
    · exact (Machine.errors_record _ _).trans (List.append_nil _)
    · exact Machine.declines_record { m with world := (h.answer c m.world).world } _
  · intro n s w _ _ hn
    constructor
    · exact (Machine.errors_record n _).trans ((List.append_nil _).trans hn.1)
    · exact (Machine.declines_record n _).trans ((List.append_nil _).trans hn.2)

namespace Drive

def Calm (x : Drive D σ α) : Prop := ∀ m₀ : Machine D σ, Keeps m₀.Level x

variable {x : Drive D σ α} {f : α → Drive D σ β} {m : Machine D σ}

theorem calm_pure (v : α) : Calm (pure v : Drive D σ α) := fun _ => keeps_pure v

theorem calm_refuse (r : Refusal) : Calm (refuse r : Drive D σ α) := fun _ => keeps_refuse r

theorem calm_ofChecked (c : Checked α) : Calm (ofChecked c : Drive D σ α) :=
  fun _ => keeps_ofChecked c

theorem calm_observe (g : Memory → Checked α) : Calm (observe g : Drive D σ α) :=
  fun _ => keeps_observe g

theorem calm_notify {n : Notice} (hn : n.severity ≠ .error) : Calm (notify n : Drive D σ Unit) :=
  fun _ => keeps_record fun _ h => h.record (if_neg hn) rfl

theorem calm_store (a : Nat) (v : Word) : Calm (store a v : Drive D σ Unit) :=
  fun _ => keeps_record fun _ h => h.record rfl rfl

theorem calm_call (h : Host D σ) {c : Call D} (hc : c.Undirected) : Calm (h.call c) := by
  intro m₀ m hm
  obtain ⟨errors, declines⟩ := h.call_log c m
  rw [hc, Option.toList, List.append_nil] at declines
  exact ⟨errors.trans hm.errors, declines.trans hm.declines⟩

theorem calm_bind (hx : Calm x) (hf : ∀ v, Calm (f v)) : Calm (x >>= f) :=
  fun m₀ => keeps_bind (hx m₀) fun v => hf v m₀

theorem calm_attempt (hx : Calm x) : Calm (attempt x) := fun m₀ => keeps_attempt (hx m₀)

theorem calm_forM {γ : Type} {g : γ → Drive D σ Unit} (as : List γ) (hg : ∀ a, Calm (g a)) :
    Calm (as.forM g) :=
  fun m₀ => keeps_forM as fun a _ => hg a m₀

theorem calm_done {y : Drive D σ Unit} (hy : Calm y) : Calm (done y) :=
  calm_bind hy fun _ => calm_pure _

theorem calm_look (g : Memory → Checked α) (answer : α → Outcome) :
    Calm (look g answer : Drive D σ Outcome) :=
  calm_bind (calm_observe g) fun _ => calm_pure _

end Drive

namespace Block

variable (b : Block D σ)

theorem callWake_calm (c : WakeCall) : Calm (b.callWake c) := calm_call b.host fun _ => rfl

theorem callDomain_calm (d : D) (c : DomainCall) : Calm (b.callDomain d c) :=
  calm_call b.host fun _ => rfl

theorem own_calm (line : UInt32) : Calm (b.own line) :=
  calm_bind (calm_observe _) fun _ => calm_pure _

theorem put_calm (k : Bank) (o : Nat) (v : Word) : Calm (k.put o v : Drive D σ Unit) :=
  calm_bind (calm_ofChecked _) fun _ => calm_store _ _

theorem write_calm (line : UInt32) (r : PinRegister) (v : Word) : Calm (b.write line r v) :=
  calm_bind (calm_ofChecked _) fun _ => put_calm _ _ _

theorem modifyRegister_calm (line : UInt32) (r : PinRegister) (f : Word → Word) :
    Calm (b.modifyRegister line r f) :=
  calm_bind (calm_ofChecked _) fun _ => calm_bind (calm_observe _) fun _ => put_calm _ _ _

theorem setConfig_calm (line : UInt32) (bits : Word) (on : Bool) :
    Calm (b.setConfig line bits on) :=
  b.modifyRegister_calm line .enableConfig _

theorem request_calm (line : UInt32) : Calm (b.request line) := by
  apply calm_bind (calm_attempt (b.own_calm line))
  intro own
  cases own with
  | error _ => exact calm_refuse _
  | ok _ =>
    apply calm_bind (calm_call b.host (c := .pin (.request line)) fun _ => rfl)
    intro reply
    cases reply with
    | ok _ => exact calm_pure _
    | error e => exact calm_refuse _

/-- A line that stays enabled when it is given back is no error. -/
theorem free_calm (line : UInt32) : Calm (b.free line) := by
  apply calm_bind (calm_call b.host (c := .pin (.free line)) fun _ => rfl)
  intro _
  apply calm_bind (calm_attempt (b.own_calm line))
  intro own
  cases own with
  | error _ => exact calm_pure _
  | ok _ =>
    apply calm_bind (calm_attempt (b.setConfig_calm line _ _))
    intro disabled
    cases disabled with
    | ok _ => exact calm_pure _
    | error r => exact calm_notify nofun

theorem setValue_calm (line : UInt32) (level : Bool) : Calm (b.setValue line level) :=
  calm_bind (b.own_calm line) fun _ => calm_bind (b.write_calm _ _ _) fun _ => b.write_calm _ _ _

theorem setDebounce_calm (line usecs : UInt32) : Calm (b.setDebounce line usecs) := by
  apply calm_bind (b.own_calm line)
  intro _
  by_cases h : Layout.debounceLimit < debounceMillis usecs
  · simp only [h, if_true]
    exact calm_refuse _
  · simp only [h, if_false]
    exact calm_bind (b.setConfig_calm _ _ _) fun _ => b.write_calm _ _ _

theorem toIrq_calm (line : UInt32) : Calm (b.toIrq line) := by
  unfold toIrq
  cases b.domain with
  | none => exact calm_pure _
  | some d => exact b.callDomain_calm d _

theorem ack_calm (line : UInt32) : Calm (b.ack line) :=
  calm_bind (b.own_calm line) fun _ => b.write_calm _ _ _

theorem mask_calm (line : UInt32) : Calm (b.mask line) :=
  calm_bind (b.own_calm line) fun _ => b.setConfig_calm _ _ _

theorem unmask_calm (line : UInt32) : Calm (b.unmask line) :=
  calm_bind (b.own_calm line) fun _ => b.setConfig_calm _ _ _

theorem findWake_calm (line : UInt32) : Calm (Wake.find line : Drive D σ (Option Nat)) := by
  unfold Wake.find
  cases Wake.indexOf? line with
  | none => exact calm_pure _
  | some wake => exact calm_bind (calm_notify nofun) fun _ => calm_pure _

/-- A type the wake controller does not take is a warning. -/
theorem setType_calm (line : UInt32) (t : Trigger) : Calm (b.setType line t) := by
  apply calm_bind (b.own_calm line)
  intro _
  apply calm_bind (b.modifyRegister_calm _ _ _)
  intro _
  apply calm_bind (b.setConfig_calm _ _ _)
  intro _
  apply calm_bind (findWake_calm line)
  intro found
  cases found with
  | none => exact calm_pure _
  | some wake =>
    apply calm_bind (b.callWake_calm (.setType wake t))
    intro reply
    cases reply with
    | ok _ => exact calm_pure _
    | error e => exact calm_bind (calm_notify nofun) fun _ => calm_pure _

theorem lineOfVirq_calm (virq : UInt32) : Calm (b.lineOfVirq virq) := by
  unfold lineOfVirq
  cases b.domain with
  | none => exact calm_refuse _
  | some d =>
    apply calm_bind (b.callDomain_calm d (.lineOf virq))
    intro reply
    cases reply with
    | some line => exact calm_pure _
    | none => exact calm_refuse _

theorem setTypeOfVirq_calm (virq : UInt32) (raw : Word) : Calm (b.setTypeOfVirq virq raw) := by
  apply calm_bind (b.lineOfVirq_calm virq)
  intro line
  apply calm_bind (calm_ofChecked _)
  intro t
  apply calm_bind (b.setType_calm line t)
  intro flow
  cases b.domain with
  | none => exact calm_pure _
  | some d => exact b.callDomain_calm d _

theorem dispatchPin_calm (d : D) (port pin : Nat) : Calm (b.dispatchPin d port pin) := by
  apply calm_bind (b.callDomain_calm d (.find (lineOf port pin)))
  intro found
  cases found with
  | some virq => exact b.callDomain_calm d _
  | none => exact calm_pure _

theorem dispatchPort_calm (d : D) (port : Nat) : Calm (b.dispatchPort d port) := by
  unfold dispatchPort
  cases ports[port]? with
  | none => exact calm_pure _
  | some p =>
    apply calm_bind (calm_attempt (calm_observe _))
    intro status
    cases status with
    | error _ => exact calm_pure _
    | ok status => exact calm_forM _ (b.dispatchPin_calm d port)

theorem handleChained_calm (controller : UInt8) : Calm (b.handleChained controller) := by
  unfold handleChained
  cases b.controller? controller with
  | none => exact calm_notify nofun
  | some c =>
    cases b.domain with
    | none => exact calm_pure _
    | some d =>
      apply calm_bind (b.callDomain_calm d (.enter c.irq))
      intro _
      exact calm_bind (calm_forM _ (b.dispatchPort_calm d)) fun _ => b.callDomain_calm d _

theorem mapLines_calm (d : D) (ls : List UInt32) : Calm (b.mapLines d ls) := by
  induction ls with
  | nil => exact calm_pure _
  | cons line rest ih =>
    apply calm_bind (b.callDomain_calm d (.create line))
    intro reply
    cases reply with
    | some _ => exact ih
    | none => exact calm_pure _

theorem unmapLines_calm (d : D) (ls : List UInt32) : Calm (b.unmapLines d ls) := by
  apply calm_forM
  intro line
  apply calm_bind (b.callDomain_calm d (.find line))
  intro found
  cases found with
  | some virq => exact b.callDomain_calm d _
  | none => exact calm_pure _

theorem giveFlow_calm (d : D) (line : UInt32) (owned : Bool) : Calm (b.giveFlow d line owned) := by
  apply calm_bind (b.callDomain_calm d (.find line))
  intro found
  cases found with
  | some virq => exact calm_bind (b.callDomain_calm d (.setFlow virq .simple)) fun _ => calm_pure _
  | none => exact calm_pure _

theorem maskLine_calm (d : D) (line : UInt32) : Calm (b.maskLine d line) := by
  intro m₀ m hm
  rw [b.on_maskLine]
  split
  · exact calm_bind (b.setConfig_calm _ _ _) (fun _ => b.giveFlow_calm d line true) m₀ m hm
  · exact b.giveFlow_calm d line false m₀ m hm

theorem maskLines_calm (d : D) (ls : List UInt32) : Calm (b.maskLines d ls) := by
  induction ls with
  | nil => exact calm_pure _
  | cons line rest ih =>
    exact calm_bind (b.maskLine_calm d line) fun _ => calm_bind ih fun _ => calm_pure _

theorem maskAll_calm (d : D) : Calm (b.maskAll d) :=
  calm_bind (b.maskLines_calm d lines) fun _ => calm_notify nofun

theorem install_calm : Calm b.install := by
  unfold install
  cases b.domain with
  | none => exact calm_refuse _
  | some d => exact calm_forM _ fun c => b.callDomain_calm d _

theorem noteExcess_calm (r : Resources) : Calm (noteExcess r : Drive D σ Unit) := by
  unfold noteExcess
  by_cases hb : Layout.bankLimit < r.banks.length <;>
    by_cases hi : Layout.controllerLimit < r.irqs.length <;>
    simp only [hb, hi, if_true, if_false]
  · exact calm_bind (calm_notify nofun) fun _ => calm_notify nofun
  · exact calm_bind (calm_notify nofun) fun _ => calm_pure _
  · exact calm_notify nofun
  · exact calm_pure _

end Block

def Operation.Directs : Operation D → Prop
  | .directionInput _ | .directionOutput .. | .consumer (.directionInput _)
  | .consumer (.directionOutput ..) => True
  | _ => False

/-- The refusals of an operation that it reports itself. -/
def Operation.Blames : Operation D → Refusal → Prop
  | .setWake .., r | .irq (.setWake ..), r => ∃ e, r = .collaborator e
  | .attach _, r => r = .resourceMissing
  | _, _ => False

namespace Block

variable (b : Block D σ)

/-- Neither a direction nor a refusal to report. -/
theorem perform_calm {op : Operation D} (undirected : ¬ op.Directs)
    (unblamed : ∀ r, ¬ op.Blames r) : Calm (b.perform op) := by
  cases op with
  | isAccessible | registerAddress | read | getValue | isEnabled | readRegisters =>
    exact calm_look _ _
  | write line r v => exact calm_done (b.write_calm line r v)
  | update line r mask v => exact calm_done (b.modifyRegister_calm line r _)
  | request line => exact calm_done (b.request_calm line)
  | free line => exact calm_done (b.free_calm line)
  | directionInput | directionOutput => exact absurd trivial undirected
  | setValue line level => exact calm_done (b.setValue_calm line level)
  | setDebounce line usecs => exact calm_done (b.setDebounce_calm line usecs)
  | toIrq line => exact calm_bind (b.toIrq_calm line) fun _ => calm_pure _
  | ack line => exact calm_done (b.ack_calm line)
  | mask line => exact calm_done (b.mask_calm line)
  | unmask line => exact calm_done (b.unmask_calm line)
  | setType line t => exact calm_bind (b.setType_calm line t) fun _ => calm_pure _
  | setWake => exact absurd ⟨.io, rfl⟩ (unblamed (.collaborator .io))
  | consumer c =>
    cases c with
    | request line => exact calm_done (b.request_calm line)
    | free line => exact calm_done (b.free_calm line)
    | directionInput | directionOutput => exact absurd trivial undirected
    | get line => exact calm_bind (calm_observe _) fun _ => calm_pure _
    | set line level => exact calm_done (b.setValue_calm line level)
    | setDebounce line usecs => exact calm_done (b.setDebounce_calm line usecs)
    | toIrq line => exact calm_bind (b.toIrq_calm line) fun _ => calm_pure _
  | irq c =>
    cases c with
    | ack virq => exact calm_done (calm_bind (b.lineOfVirq_calm virq) b.ack_calm)
    | mask virq | disable virq | shutdown virq =>
      exact calm_done (calm_bind (b.lineOfVirq_calm virq) b.mask_calm)
    | unmask virq => exact calm_done (calm_bind (b.lineOfVirq_calm virq) b.unmask_calm)
    | setType virq raw => exact calm_done (b.setTypeOfVirq_calm virq raw)
    | setWake => exact absurd ⟨.io, rfl⟩ (unblamed (.collaborator .io))
  | attach => exact absurd rfl (unblamed .resourceMissing)
  | install => exact calm_done b.install_calm
  | publishWakeTable => exact calm_done (b.callWake_calm _)
  | chained controller => exact calm_done (b.handleChained_calm controller)

end Block
end Gpio
