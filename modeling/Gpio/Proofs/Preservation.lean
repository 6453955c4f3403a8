import Gpio.Proofs.Invariance

/-!
# Every operation keeps what withstands its parts

One lemma an operation, each in the shape of its definition: gate, stores,
call, notice. The loops over lines and ports go by recursion on their lists.
`perform_keeps` puts them together.
-/

set_option autoImplicit false

namespace Gpio

open Drive

variable {D σ α : Type} {b : Block D σ} {may : UInt32 → Prop} {I : Machine D σ → Prop}

namespace Block.Robust

section Line

variable (rob : b.Robust may I) {line : UInt32}
include rob

theorem request (gate : b.Gate may I line) : Keeps I (b.request line) := by
  refine attempt_gated gate (fun hm => ?_) fun _ => keeps_refuse _
  apply keeps_bind (rob.callPin (c := .request line) hm)
  intro reply
  cases reply with
  | ok _ => exact keeps_pure _
  | error e => exact keeps_refuse _

/-- After pin control was told, giving a line back is gated like anything else. -/
theorem free (gate : b.Gate may I line) {m : Machine D σ}
    (hm : I ((b.callPin (.free line)).on m).2) : I ((b.free line).on m).2 := by
  apply bind_keeps hm
  intro _
  refine attempt_gated gate (fun hl => ?_) fun _ => keeps_pure _
  apply keeps_bind (keeps_attempt (rob.setConfig hl _ _))
  intro reply
  cases reply with
  | ok _ => exact keeps_pure _
  | error r => exact rob.notify _

theorem directionInput (gate : b.Gate may I line) : Keeps I (b.directionInput line) := by
  apply gated gate
  intro hm
  apply keeps_bind (rob.setConfig hm _ _)
  intro _
  apply keeps_bind (rob.setConfig hm _ _)
  intro _
  apply keeps_bind (rob.callPin (c := .input line) hm)
  intro reply
  cases reply with
  | ok _ => exact keeps_pure _
  | error e => exact rob.notify _

theorem setValue (gate : b.Gate may I line) (level : Bool) : Keeps I (b.setValue line level) :=
  gated gate fun hm => keeps_bind (rob.write hm _ _) fun _ => rob.write hm _ _

/-- The gate is asked by `setValue`; what follows it runs behind the same gate. -/
theorem directionOutput (gate : b.Gate may I line) (level : Bool) :
    Keeps I (b.directionOutput line level) := by
  unfold Block.directionOutput Block.setValue
  rw [bind_assoc]
  apply gated gate
  intro hm
  rw [bind_assoc]
  apply keeps_bind (rob.write hm _ _)
  intro _
  apply keeps_bind (rob.write hm _ _)
  intro _
  apply keeps_bind (rob.setConfig hm _ _)
  intro _
  apply keeps_bind (rob.setConfig hm _ _)
  intro _
  apply keeps_bind (rob.callPin (c := .output line) hm)
  intro reply
  cases reply with
  | ok _ => exact keeps_pure _
  | error e => exact rob.notify _

theorem setDebounce (gate : b.Gate may I line) (usecs : UInt32) :
    Keeps I (b.setDebounce line usecs) := by
  apply gated gate
  intro hm
  by_cases h : Layout.debounceLimit < debounceMillis usecs
  · simp only [h, if_true]
    exact keeps_refuse _
  · simp only [h, if_false]
    exact keeps_bind (rob.setConfig hm _ _) fun _ => rob.write hm _ _

theorem toIrq : Keeps I (b.toIrq line) := by
  unfold Block.toIrq
  cases b.domain with
  | none => exact keeps_pure _
  | some d => exact rob.callDomain d _

theorem ack (gate : b.Gate may I line) : Keeps I (b.ack line) :=
  gated gate fun hm => rob.write hm _ _

theorem mask (gate : b.Gate may I line) : Keeps I (b.mask line) :=
  gated gate fun hm => rob.setConfig hm _ _

theorem unmask (gate : b.Gate may I line) : Keeps I (b.unmask line) :=
  gated gate fun hm => rob.setConfig hm _ _

theorem findWake : Keeps I (Wake.find line : Drive D σ (Option Nat)) := by
  unfold Wake.find
  cases Wake.indexOf? line with
  | none => exact keeps_pure _
  | some wake => exact keeps_bind (rob.notify _) fun _ => keeps_pure _

theorem setType (gate : b.Gate may I line) (t : Trigger) : Keeps I (b.setType line t) := by
  apply gated gate
  intro hm
  apply keeps_bind (rob.modifyRegister hm _ _)
  intro _
  apply keeps_bind (rob.setConfig hm _ _)
  intro _
  apply keeps_bind rob.findWake
  intro found
  cases found with
  | none => exact keeps_pure _
  | some wake =>
    apply keeps_bind (rob.callWake _)
    intro reply
    cases reply with
    | ok _ => exact keeps_pure _
    | error e => exact keeps_bind (rob.notify _) fun _ => keeps_pure _

theorem setWake (enable : Bool) : Keeps I (b.setWake line enable) := by
  apply keeps_bind rob.findWake
  intro found
  cases found with
  | none => exact keeps_refuse _
  | some wake =>
    apply keeps_bind (rob.callWake _)
    intro reply
    cases reply with
    | ok _ => exact keeps_pure _
    | error e => exact keeps_bind (rob.notify _) fun _ => keeps_refuse _

end Line

section Virq

variable (rob : b.Robust may I) {virq : UInt32} {m : Machine D σ}
include rob

theorem keeps_lineOfVirq (virq : UInt32) : Keeps I (b.lineOfVirq virq) := by
  unfold Block.lineOfVirq
  cases b.domain with
  | none => exact keeps_refuse _
  | some d =>
    apply keeps_bind (rob.callDomain d _)
    intro reply
    cases reply with
    | some line => exact keeps_pure _
    | none => exact keeps_refuse _

/-- The line is looked up first; what is done with it has to keep `I` for the line reported. -/
theorem lineOfVirq {f : UInt32 → Drive D σ α} (h : I m)
    (hf : ∀ line, b.lineBehind m.world virq = some line → Keeps I (f line)) :
    I ((b.lineOfVirq virq >>= f).on m).2 := by
  have hk := rob.keeps_lineOfVirq virq m h
  rw [on_bind]
  rcases hr : (b.lineOfVirq virq).on m with ⟨_ | line, m'⟩
  · rw [hr] at hk
    exact hk
  · rw [hr] at hk
    exact hf line (b.lineOfVirq_ok hr) m' hk

theorem setTypeOfVirq (h : I m) (raw : Word)
    (gate : ∀ line, b.lineBehind m.world virq = some line → b.Gate may I line) :
    I ((b.setTypeOfVirq virq raw).on m).2 := by
  apply rob.lineOfVirq h
  intro line hl
  refine keeps_bind (keeps_ofChecked _) fun t => ?_
  apply keeps_bind (rob.setType (gate line hl) t)
  intro flow
  cases b.domain with
  | none => exact keeps_pure _
  | some d => exact rob.callDomain d _

end Virq

section Host

variable (rob : b.Robust may I)
include rob

theorem dispatchPin (d : D) (port pin : Nat) : Keeps I (b.dispatchPin d port pin) := by
  apply keeps_bind (rob.callDomain d _)
  intro found
  cases found with
  | some virq => exact rob.callDomain d _
  | none => exact keeps_pure _

theorem dispatchPort (d : D) (port : Nat) : Keeps I (b.dispatchPort d port) := by
  unfold Block.dispatchPort
  cases ports[port]? with
  | none => exact keeps_pure _
  | some p =>
    refine keeps_bind (keeps_attempt (keeps_observe _)) fun read => ?_
    cases read with
    | error r => exact keeps_pure _
    | ok status => exact keeps_forM _ fun pin _ => rob.dispatchPin d port pin

theorem handleChained (controller : UInt8) : Keeps I (b.handleChained controller) := by
  unfold Block.handleChained
  split
  · exact rob.notify _
  · exact keeps_pure _
  · next c d _ _ =>
    apply keeps_bind (rob.callDomain d _)
    intro _
    apply keeps_bind (keeps_forM _ fun port _ => rob.dispatchPort d port)
    intro _
    exact rob.callDomain d _

theorem install : Keeps I b.install := by
  unfold Block.install
  cases b.domain with
  | none => exact keeps_refuse _
  | some d => exact keeps_forM _ fun c _ => rob.callDomain d _

theorem mapLines (d : D) (ls : List UInt32) : Keeps I (b.mapLines d ls) := by
  induction ls with
  | nil => exact keeps_pure _
  | cons line rest ih =>
    apply keeps_bind (rob.callDomain d _)
    intro reply
    cases reply with
    | some _ => exact ih
    | none => exact keeps_pure _

theorem unmapLines (d : D) (ls : List UInt32) : Keeps I (b.unmapLines d ls) := by
  apply keeps_forM
  intro line _
  apply keeps_bind (rob.callDomain d _)
  intro found
  cases found with
  | some virq => exact rob.callDomain d _
  | none => exact keeps_pure _

theorem giveFlow (d : D) (line : UInt32) (owned : Bool) : Keeps I (b.giveFlow d line owned) := by
  apply keeps_bind (rob.callDomain d _)
  intro found
  cases found with
  | some virq => exact keeps_bind (rob.callDomain d _) fun _ => keeps_pure _
  | none => exact keeps_pure _

theorem maskLine (d : D) {line : UInt32} (gate : b.Gate may I line) :
    Keeps I (b.maskLine d line) := by
  intro m h
  rw [b.on_maskLine]
  by_cases ho : b.owns m.memory line = true
  · rw [if_pos ho]
    exact keeps_bind (rob.setConfig (gate m h ho) _ _) (fun _ => rob.giveFlow d line true) m h
  · rw [if_neg ho]
    exact rob.giveFlow d line false m h

theorem maskLines (d : D) (gate : ∀ line, b.Gate may I line) (ls : List UInt32) :
    Keeps I (b.maskLines d ls) := by
  induction ls with
  | nil => exact keeps_pure _
  | cons line rest ih =>
    exact keeps_bind (rob.maskLine d (gate line)) fun _ => keeps_bind ih fun _ => keeps_pure _

theorem attach (d : D) (gate : ∀ line, b.Gate may I line) : Keeps I (b.attach d) := by
  apply keeps_bind (rob.mapLines d lines)
  intro refused
  cases refused with
  | some line =>
    apply keeps_bind (rob.notify _)
    intro _
    exact keeps_bind (rob.unmapLines d _) fun _ => keeps_refuse _
  | none =>
    have mask : Keeps I (b.maskAll d) :=
      keeps_bind (rob.maskLines d gate lines) fun _ => rob.notify _
    apply keeps_bind (keeps_attempt mask)
    intro masked
    cases masked with
    | ok _ => exact keeps_pure _
    | error r =>
      apply keeps_bind (rob.notify _)
      intro _
      exact keeps_bind (rob.unmapLines d _) fun _ => keeps_refuse _

end Host

variable (rob : b.Robust may I) {m : Machine D σ}
include rob

theorem consumer_keeps (c : ConsumerCall) (gate : b.Gate may I c.line)
    (hfree : ∀ line, c = .free line → may line) : Keeps I (b.consumer.run c) := by
  cases c with
  | request line => exact keeps_done (rob.request gate)
  | free line =>
    exact keeps_done fun m h => rob.free gate (rob.callPin (c := .free line) (hfree line rfl) m h)
  | directionInput line => exact keeps_done (rob.directionInput gate)
  | directionOutput line level => exact keeps_done (rob.directionOutput gate level)
  | get line => exact keeps_bind (keeps_observe _) fun _ => keeps_pure _
  | set line level => exact keeps_done (rob.setValue gate level)
  | setDebounce line usecs => exact keeps_done (rob.setDebounce gate usecs)
  | toIrq line => exact keeps_bind rob.toIrq fun _ => keeps_pure _

theorem irq_keeps (c : IrqCall) (h : I m)
    (gate : ∀ line, b.lineBehind m.world c.virq = some line → b.Gate may I line) :
    I ((b.irqTable.run c).on m).2 := by
  cases c with
  | ack virq => exact done_keeps (rob.lineOfVirq h fun line hl => rob.ack (gate line hl))
  | mask virq | disable virq | shutdown virq =>
    exact done_keeps (rob.lineOfVirq h fun line hl => rob.mask (gate line hl))
  | unmask virq => exact done_keeps (rob.lineOfVirq h fun line hl => rob.unmask (gate line hl))
  | setType virq raw => exact done_keeps (rob.setTypeOfVirq h raw gate)
  | setWake virq enable => exact done_keeps (rob.lineOfVirq h fun line _ => rob.setWake enable)

/-- What withstands the parts of operations is kept by `op`, if each line it aims at may be touched
once it is let through: by the gate, or because `op` does not ask. -/
theorem perform_keeps (op : Operation D) (h : I m)
    (aims : ∀ line, b.Aims m.world op line → ∀ m', I m' →
      op.Ungated ∨ b.owns m'.memory line = true → may line) : I ((b.perform op).on m).2 := by
  have gate : ∀ line, b.Aims m.world op line → b.Gate may I line :=
    fun line ha m' h' ho => aims line ha m' h' (Or.inr ho)
  cases op with
  | isAccessible line | registerAddress line r | read line r | getValue line | isEnabled line
  | readRegisters line => exact keeps_look _ _ m h
  | write line r v =>
    exact keeps_done (rob.write (aims line rfl m h (Or.inl trivial)) r v) m h
  | update line r mask v =>
    exact keeps_done (rob.modifyRegister (aims line rfl m h (Or.inl trivial)) r _) m h
  | request line => exact keeps_done (rob.request (gate line rfl)) m h
  | free line =>
    have hm := rob.callPin (c := .free line) (aims line rfl m h (Or.inl trivial)) m h
    exact done_keeps (rob.free (gate line rfl) hm)
  | directionInput line => exact keeps_done (rob.directionInput (gate line rfl)) m h
  | directionOutput line level => exact keeps_done (rob.directionOutput (gate line rfl) level) m h
  | setValue line level => exact keeps_done (rob.setValue (gate line rfl) level) m h
  | setDebounce line usecs => exact keeps_done (rob.setDebounce (gate line rfl) usecs) m h
  | toIrq line => exact keeps_bind rob.toIrq (fun _ => keeps_pure _) m h
  | ack line => exact keeps_done (rob.ack (gate line rfl)) m h
  | mask line => exact keeps_done (rob.mask (gate line rfl)) m h
  | unmask line => exact keeps_done (rob.unmask (gate line rfl)) m h
  | setType line t => exact keeps_bind (rob.setType (gate line rfl) t) (fun _ => keeps_pure _) m h
  | setWake line enable => exact keeps_done (rob.setWake enable) m h
  | consumer c =>
    refine rob.consumer_keeps c (gate c.line rfl) (fun line hc => ?_) m h
    subst hc
    exact aims line rfl m h (Or.inl trivial)
  | irq c => exact rob.irq_keeps c h gate
  | attach d => exact keeps_done (rob.attach d fun line => gate line trivial) m h
  | install => exact keeps_done rob.install m h
  | publishWakeTable => exact keeps_done (rob.callWake _) m h
  | chained controller => exact keeps_done (rob.handleChained controller) m h

end Block.Robust
end Gpio
