import Gpio.Proofs.Amending
import Gpio.Proofs.Isolation

/-!
# Histories refine the record

Each operation, run to its end, either succeeds and amends the record of a
line by the event it stands for there, or fails and leaves the record. By
induction the registers of an accessible line are, field by field, what the
operations that succeeded asked of it last.
-/

set_option autoImplicit false

namespace Gpio

open Drive

variable {ι D σ α β : Type}

def ConsumerCall.event? : ConsumerCall → Option PinEvent
  | free _ => some .release
  | directionInput _ => some .input
  | directionOutput _ level => some (.output level)
  | set _ level => some (.drive level)
  | setDebounce _ usecs => some (.debounce usecs)
  | request _ | get _ | toIrq _ => none

def IrqCall.event? : IrqCall → Option PinEvent
  | ack _ => some .acknowledge
  | mask _ | disable _ | shutdown _ => some .mask
  | unmask _ => some .unmask
  | setType _ raw => (Trigger.ofSense raw).toOption.map .trigger
  | setWake .. => none

/-- What the operation asks of the lines it is about, if it is let through. Raw stores are left
out. -/
def Operation.event? : Operation D → Option PinEvent
  | free _ => some .release
  | directionInput _ => some .input
  | directionOutput _ level => some (.output level)
  | setValue _ level => some (.drive level)
  | setDebounce _ usecs => some (.debounce usecs)
  | ack _ => some .acknowledge
  | mask _ => some .mask
  | unmask _ => some .unmask
  | setType _ t => some (.trigger t)
  | consumer c => c.event?
  | irq c => c.event?
  | attach _ => some .mask
  | _ => none

namespace Block

instance (b : Block D σ) (s : σ) (op : Operation D) (line : UInt32) :
    Decidable (b.Aims s op line) :=
  match op with
  | .attach _ => .isTrue trivial
  | .irq c => inferInstanceAs (Decidable (b.lineBehind s c.virq = some line))
  | .consumer c => inferInstanceAs (Decidable (some c.line = some line))
  | .install | .publishWakeTable | .chained _ => .isFalse nofun
  | .isAccessible k | .registerAddress k _ | .read k _ | .write k _ _ | .update k _ _ _
  | .request k | .free k | .directionInput k | .directionOutput k _ | .getValue k | .setValue k _
  | .setDebounce k _ | .toIrq k | .isEnabled k | .readRegisters k | .ack k | .mask k | .unmask k
  | .setType k _ | .setWake k _ => inferInstanceAs (Decidable (some k = some line))

def asked (b : Block D σ) (s : σ) (op : Operation D) (line : UInt32) : List PinEvent :=
  if b.Aims s op line then op.event?.toList else []

end Block

namespace Device

def Settles (dev : Device) (m₀ : Memory) (l : Location) (m : Machine D σ) (x : Drive D σ α)
    (a : Amendment) : Prop :=
  ∀ rec, dev.Shows m₀ l rec m → match x.on m with
    | (.ok _, m') => dev.Shows m₀ l (rec.amend a) m'
    | (.error _, m') => dev.Shows m₀ l rec m'

variable {dev : Device} {m₀ : Memory} {line : UInt32} {l : Location} {a : Amendment}
  {x : Drive D σ α} {m : Machine D σ}

theorem settles_of_amends (h : dev.Amends m₀ l x a) : dev.Settles m₀ l m x a := by
  intro rec hm
  obtain ⟨v, m', hx, hm'⟩ := h rec m hm
  rw [hx]
  exact hm'

theorem settles_of_keeps (h : ∀ rec, dev.Shows m₀ l rec m → dev.Shows m₀ l rec (x.on m).2) :
    dev.Settles m₀ l m x {} := by
  intro rec hm
  have hkeep := h rec hm
  split
  · next heq => rw [heq] at hkeep; exact hkeep
  · next heq => rw [heq] at hkeep; exact hkeep

theorem settles_of_refuse {x : Drive D σ α} (r : Refusal)
    (h : ∀ rec, dev.Shows m₀ l rec m → dev.Shows m₀ l rec (x.on m).2) :
    dev.Settles m₀ l m (x >>= fun _ => (refuse r : Drive D σ β)) a := by
  intro rec hm
  have hkeep := h rec hm
  rcases hr : x.on m with ⟨e | v, m'⟩
  · rw [hr] at hkeep
    rw [on_bind_error hr]
    exact hkeep
  · rw [hr] at hkeep
    rw [on_bind_ok hr]
    exact hkeep

theorem Settles.map {f : α → Drive D σ β} (h : dev.Settles m₀ l m x a)
    (hf : ∀ v m', ∃ w, (f v).on m' = (.ok w, m')) : dev.Settles m₀ l m (x >>= f) a := by
  intro rec hm
  have hx := h rec hm
  rcases hr : x.on m with ⟨e | v, m'⟩
  · rw [hr] at hx
    rw [on_bind_error hr]
    exact hx
  · rw [hr] at hx
    obtain ⟨w, hw⟩ := hf v m'
    rw [on_bind_ok hr, hw]
    exact hx

theorem Settles.done {x : Drive D σ Unit} (h : dev.Settles m₀ l m x a) :
    dev.Settles m₀ l m (Drive.done x) a :=
  h.map fun _ m' => ⟨.done, on_pure _ m'⟩

section Block

variable {b : Block D σ} (h : dev.Carries b) (hl : validLine line = .ok l)
include h hl

theorem Carries.eventless_shows {op : Operation D} (gated : ¬ op.Raw) (hop : op.event? = none)
    (rec : PinRecord) (hm : dev.Shows m₀ l rec m) :
    dev.Shows m₀ l rec ((b.perform op).on m).2 := by
  have rob : b.Robust (· ≠ line) (dev.Shows m₀ l rec) := h.shows_robust hl rec
  have request : ∀ k, Keeps (dev.Shows m₀ l rec) (b.request k) := by
    intro k
    have gate : b.Gate (fun _ => True) (dev.Shows m₀ l rec) k := fun _ _ _ => trivial
    refine Block.Robust.attempt_gated gate (fun _ => ?_) fun _ => keeps_refuse _
    apply keeps_bind (h.call_shows hl rec _)
    intro reply
    cases reply with
    | ok _ => exact keeps_pure _
    | error e => exact keeps_refuse _
  cases op with
  | isAccessible k | registerAddress k r | read k r | getValue k | isEnabled k
  | readRegisters k => exact keeps_look _ _ m hm
  | write | update => exact absurd trivial gated
  | request k => exact keeps_done (request k) m hm
  | toIrq k => exact keeps_bind rob.toIrq (fun _ => keeps_pure _) m hm
  | setWake k enable => exact keeps_done (rob.setWake enable) m hm
  | install => exact keeps_done rob.install m hm
  | publishWakeTable => exact keeps_done (rob.callWake _) m hm
  | chained controller => exact keeps_done (rob.handleChained controller) m hm
  | consumer c =>
    cases c with
    | request k => exact keeps_done (request k) m hm
    | get k =>
      have look : Keeps (dev.Shows m₀ l rec) (b.consumer.run (.get k)) :=
        keeps_bind (keeps_observe _) fun _ => keeps_pure _
      exact look m hm
    | toIrq k => exact keeps_bind rob.toIrq (fun _ => keeps_pure _) m hm
    | free | directionInput | directionOutput | set | setDebounce => cases hop
  | irq c =>
    cases c with
    | setWake virq enable =>
      exact done_keeps (rob.lineOfVirq hm fun k _ => rob.setWake enable)
    | setType virq raw =>
      apply done_keeps
      apply rob.lineOfVirq hm
      intro k _
      cases ht : Trigger.ofSense raw with
      | error e => exact fun m' hm' => hm'
      | ok t => simp [Operation.event?, IrqCall.event?, ht, Except.toOption] at hop
    | ack | mask | unmask | disable | shutdown => cases hop
  | free | directionInput | directionOutput | setValue | setDebounce | ack | mask | unmask
  | setType | attach => cases hop

variable (own : b.owns m₀ line = true) (steady : b.host.Steady)
include own

theorem Carries.setDebounce_settles (usecs : UInt32) :
    dev.Settles m₀ l m (b.setDebounce line usecs) (PinEvent.debounce usecs).amendment := by
  by_cases hms : Block.debounceMillis usecs ≤ Layout.debounceLimit
  · exact settles_of_amends (h.setDebounce_amends hl own hms)
  · intro rec hm
    have ho : b.owns m.memory line = true := by rw [hm.confined.owns_eq h.bank, own]
    have hon : (b.setDebounce line usecs).on m = (.error (.refused .invalidArgument), m) := by
      unfold Block.setDebounce
      rw [on_bind_ok (b.on_own_of_owns ho)]
      simp only [Nat.not_le.mp hms, if_true]
      rfl
    rw [hon]
    exact hm

include steady

omit own in
theorem Carries.lineOfVirq_settles {virq : UInt32} {f : UInt32 → Drive D σ α}
    (hvirq : b.lineBehind m.world virq = some line) (hf : dev.Amends m₀ l (f line) a) :
    dev.Settles m₀ l m (b.lineOfVirq virq >>= f) a := by
  intro rec hm
  have hon : ∃ m', (b.lineOfVirq virq).on m = (.ok line, m') := by
    unfold Block.lineBehind at hvirq
    unfold Block.lineOfVirq
    cases hd : b.domain with
    | none => rw [hd] at hvirq; cases hvirq
    | some d =>
      simp only [hd] at hvirq
      obtain ⟨m', hm'⟩ := Host.on_call_of_steady steady (.domain d (.lineOf virq)) m
      rw [hvirq] at hm'
      exact ⟨m', on_bind_ok hm' _⟩
  obtain ⟨m', hm'⟩ := hon
  have hkeep := (h.shows_robust hl rec).keeps_lineOfVirq virq m hm
  rw [hm'] at hkeep
  rw [on_bind_ok hm']
  exact settles_of_amends hf rec hkeep

omit own in
/-- Mapping stops at a line that is refused; the record does not notice. -/
theorem Carries.mapLines_amends (d : D) (ls : List UInt32) :
    dev.Amends m₀ l (b.mapLines d ls) {} := by
  induction ls with
  | nil => exact completes_pure _
  | cons k rest ih =>
    apply completes_bind (h.call_amends hl steady _)
    intro reply
    cases reply with
    | some _ => exact ih
    | none => exact completes_pure _

theorem Carries.attach_settles (d : D) :
    dev.Settles m₀ l m (b.attach d) PinEvent.mask.amendment := by
  intro rec hm
  obtain ⟨refused, m₁, hmap, hm₁⟩ := h.mapLines_amends hl steady d lines rec m hm
  unfold Block.attach
  rw [on_bind_ok hmap]
  cases refused with
  | some k =>
    -- No line is masked yet, and giving mappings back does not show.
    have unmap : ∀ rec m', dev.Shows m₀ l rec m' → dev.Shows m₀ l rec ((do
        Drive.notify (.mappingFailed k)
        b.unmapLines d (lines.takeWhile (· < k)) : Drive D σ Unit).on m').2 := by
      intro rec m' hm'
      have rob : b.Robust (· ≠ line) (dev.Shows m₀ l rec) := h.shows_robust hl rec
      exact keeps_bind (rob.notify _) (fun _ => rob.unmapLines d _) m' hm'
    have hfail := settles_of_refuse (β := Unit) (a := PinEvent.mask.amendment) .resourceMissing
      (fun rec hrec => unmap rec m₁ hrec) rec hm₁
    rw [bind_assoc] at hfail
    exact hfail
  | none =>
    obtain ⟨_, m₂, hmask, hm₂⟩ := h.maskAll_amends hl own steady d rec m₁ hm₁
    simp only
    rw [on_bind_ok (on_attempt_ok hmask)]
    exact hm₂

theorem Carries.consumer_settles {c : ConsumerCall} {e : PinEvent} (hc : c.event? = some e)
    (haim : c.line = line) : dev.Settles m₀ l m (b.consumer.run c) e.amendment := by
  subst haim
  cases c with
  | free k =>
    cases hc
    exact (settles_of_amends (h.free_amends hl own steady)).done
  | directionInput k =>
    cases hc
    exact (settles_of_amends (h.directionInput_amends hl own steady)).done
  | directionOutput k level =>
    cases hc
    exact (settles_of_amends (h.directionOutput_amends hl own steady level)).done
  | set k level =>
    cases hc
    exact (settles_of_amends (h.setValue_amends hl own level)).done
  | setDebounce k usecs =>
    cases hc
    exact (h.setDebounce_settles hl own usecs).done
  | request | get | toIrq => cases hc

theorem Carries.setTypeOfVirq_settles {virq : UInt32} {raw : Word} {t : Trigger}
    (ht : Trigger.ofSense raw = .ok t) (hvirq : b.lineBehind m.world virq = some line) :
    dev.Settles m₀ l m (b.setTypeOfVirq virq raw) (PinEvent.trigger t).amendment := by
  apply h.lineOfVirq_settles hl steady hvirq
  rw [ht, ofChecked_ok, pure_bind]
  apply completes_bind (h.setType_amends hl own steady t)
  intro flow
  cases b.domain with
  | some d => exact completes_last (h.call_amends hl steady _)
  | none => exact completes_pure _

theorem Carries.irq_settles {c : IrqCall} {e : PinEvent} (hc : c.event? = some e)
    (haim : b.lineBehind m.world c.virq = some line) :
    dev.Settles m₀ l m (b.irqTable.run c) e.amendment := by
  cases c with
  | ack virq =>
    cases hc
    exact (h.lineOfVirq_settles hl steady haim (h.ack_amends hl own)).done
  | mask virq | disable virq | shutdown virq =>
    cases hc
    exact (h.lineOfVirq_settles hl steady haim (h.mask_amends hl own)).done
  | unmask virq =>
    cases hc
    exact (h.lineOfVirq_settles hl steady haim (h.unmask_amends hl own)).done
  | setType virq raw =>
    cases ht : Trigger.ofSense raw with
    | error r => simp [IrqCall.event?, ht, Except.toOption] at hc
    | ok t =>
      obtain rfl : PinEvent.trigger t = e := by simpa [IrqCall.event?, ht, Except.toOption] using hc
      exact (h.setTypeOfVirq_settles hl own steady ht haim).done
  | setWake => cases hc

/-- An operation about the line makes what it asks for, or fails and makes nothing. -/
theorem Carries.event_settles {op : Operation D} {e : PinEvent} (hop : op.event? = some e)
    (haim : b.Aims m.world op line) : dev.Settles m₀ l m (b.perform op) e.amendment := by
  cases op with
  | consumer c => exact h.consumer_settles hl own steady hop (Option.some.inj haim)
  | irq c => exact h.irq_settles hl own steady hop haim
  | free k =>
    exact h.consumer_settles hl own steady (c := .free k) hop (Option.some.inj haim)
  | directionInput k =>
    exact h.consumer_settles hl own steady (c := .directionInput k) hop (Option.some.inj haim)
  | directionOutput k level =>
    exact h.consumer_settles hl own steady (c := .directionOutput k level) hop
      (Option.some.inj haim)
  | setValue k level =>
    exact h.consumer_settles hl own steady (c := .set k level) hop (Option.some.inj haim)
  | setDebounce k usecs =>
    exact h.consumer_settles hl own steady (c := .setDebounce k usecs) hop (Option.some.inj haim)
  | ack k =>
    obtain rfl : k = line := Option.some.inj haim
    cases hop
    exact (settles_of_amends (h.ack_amends hl own)).done
  | mask k =>
    obtain rfl : k = line := Option.some.inj haim
    cases hop
    exact (settles_of_amends (h.mask_amends hl own)).done
  | unmask k =>
    obtain rfl : k = line := Option.some.inj haim
    cases hop
    exact (settles_of_amends (h.unmask_amends hl own)).done
  | setType k t =>
    obtain rfl : k = line := Option.some.inj haim
    cases hop
    exact (settles_of_amends (h.setType_amends hl own steady t)).map fun _ m' => ⟨_, on_pure _ m'⟩
  | attach d =>
    cases hop
    exact (h.attach_settles hl own steady d).done
  | _ => cases hop

theorem Carries.perform_settles {op : Operation D} (gated : ¬ op.Raw) :
    dev.Settles m₀ l m (b.perform op) (.last (b.asked m.world op line)) := by
  unfold Block.asked
  cases hop : op.event? with
  | none =>
    rw [Option.toList_none, ite_self]
    exact settles_of_keeps fun rec hm => h.eventless_shows hl gated hop rec hm
  | some e =>
    by_cases haim : b.Aims m.world op line
    · rw [if_pos haim, Option.toList_some, Amendment.last_singleton]
      exact h.event_settles hl own steady hop haim
    · rw [if_neg haim]
      apply settles_of_keeps
      intro rec hm
      refine (h.shows_robust hl rec).perform_keeps op hm fun k hk _ _ _ => ?_
      rintro rfl
      exact haim hk

end Block
end Device

namespace System

def asked (s : System ι D σ) (line : UInt32) (q : Request ι D) : List PinEvent :=
  match s.outcome q with
  | .ok _ => (s.block q.who).asked s.machine.world q.op line
  | .error _ => []

variable [DecidableEq ι]

def events (line : UInt32) : List (Request ι D) → System ι D σ → List PinEvent
  | [], _ => []
  | q :: qs, s => s.asked line q ++ events line qs (s.after q)

variable {s : System ι D σ} {dev : Device} {m₀ : Memory} {line : UInt32} {l : Location}

theorem Over.after_shows (h : s.Over dev) (steady : ∀ i, (s.block i).host.Steady)
    (hl : validLine line = .ok l) (own : ∀ i, (s.block i).owns m₀ line = true)
    {q : Request ι D} (gated : ¬ q.op.Raw) {rec : PinRecord}
    (hm : dev.Shows m₀ l rec s.machine) :
    dev.Shows m₀ l (rec.amend (.last (s.asked line q))) (s.after q).machine := by
  have hstep := (h q.who).perform_settles hl (own q.who) (steady q.who) gated rec hm
  rw [s.after_machine q]
  unfold asked outcome Block.step
  rcases hr : ((s.block q.who).perform q.op).on s.machine with ⟨e | o, m'⟩
  · rw [hr] at hstep
    exact hstep
  · rw [hr] at hstep
    exact hstep

theorem Over.run_shows (h : s.Over dev) (steady : ∀ i, (s.block i).host.Steady)
    (hl : validLine line = .ok l) (own : ∀ i, (s.block i).owns m₀ line = true)
    (qs : List (Request ι D)) (gated : ∀ q ∈ qs, ¬ q.op.Raw) {rec : PinRecord}
    (hm : dev.Shows m₀ l rec s.machine) :
    dev.Shows m₀ l (rec.amend (.last (events line qs s))) (System.run qs s).machine := by
  -- The record of the first step is where the rest begins, so `rec` varies with the state.
  induction qs generalizing s rec with
  | nil => exact hm
  | cons q qs ih =>
    have hq := h.after_shows steady hl own (gated q (by simp)) hm
    have hsteady : ∀ i, ((s.after q).block i).host.Steady := by
      intro i
      rcases s.after_block q i with hb | ⟨d, hb⟩
      · rw [hb]
        exact steady i
      · rw [hb]
        exact steady i
    have hown : ∀ i, ((s.after q).block i).owns m₀ line = true := by
      intro i
      rw [(h.after q i).owns_eq (h i)]
      exact own i
    have hrest := ih (h.after q) hsteady hown (fun p hp => gated p (by simp [hp])) hq
    rw [PinRecord.amend_amend, ← Amendment.last_append] at hrest
    exact hrest

variable {main aon : Bank}

/-- After any history without raw stores, each field of an accessible line's registers has what an
operation that succeeded asked of it last, and its first value if none did. -/
theorem run_registers_by_last_writer (h : s.Shares main aon) (apart : main.Apart aon)
    (steady : ∀ i, (s.block i).host.Steady) (qs : List (Request ι D))
    (gated : ∀ q ∈ qs, ¬ q.op.Raw) (hl : resolve line = some l) (hv : l.valid = true) {i : ι}
    (accessible : (s.block i).isAccessible s.machine.memory line = .ok true) :
    PinRecord.of (fun r =>
        (run qs s).machine.memory.loadWord ((bankPair main aon l.bank).base + l.offset r)) =
      (PinRecord.of fun r =>
        s.machine.memory.loadWord ((bankPair main aon l.bank).base + l.offset r)).amend
          (.last (events line qs s)) := by
  have carried := h.carries apart i
  have hown : ∀ j, (s.block j).owns s.machine.memory line = true := by
    intro j
    rw [Block.isAccessible_eq] at accessible
    rw [(carried j).owns_eq (carried i)]
    exact Except.ok.inj accessible
  have start : (h.device apart i).Shows s.machine.memory l
      ((h.device apart i).record s.machine.memory l) s.machine := ⟨.refl _, rfl⟩
  exact (carried.run_shows steady (validLine_eq_ok.mpr ⟨hl, hv⟩) hown qs gated start).record

end System

namespace Simulation

theorem Fixture.start_granting_accessible :
    start.probed.isAccessible Fixture.granting 0 = .ok true := by
  have valid : validLine 0 = .ok ((Port.main "A" 2 0 7).locate 0 0) := by rfl
  rw [Block.isAccessible_eq, Block.owns_of_valid _ _ valid, Block.grants, Fixture.granting_loadWord]
  exact congrArg Except.ok (by decide)

end Simulation

open Simulation in
/-- A line driven through one block, then masked and given back through the other. -/
theorem pair_registers_by_last_writer :
    (Fixture.start.pair Fixture.granting).Shares Fixture.start.main Fixture.start.aon ∧
    Fixture.start.main.Apart Fixture.start.aon ∧
    Fixture.start.probed.host.Steady ∧
    PinRecord.of (fun r => (System.run
        [⟨true, .directionOutput 0 true⟩, ⟨false, .mask 0⟩, ⟨false, .free 0⟩]
        (Fixture.start.pair Fixture.granting)).machine.memory.loadWord
          (Fixture.start.main.base + ((Port.main "A" 2 0 7).locate 0 0).offset r)) =
      (PinRecord.of fun _ => 0xffffffff).amend (.last (System.events 0
        [⟨true, .directionOutput 0 true⟩, ⟨false, .mask 0⟩, ⟨false, .free 0⟩]
        (Fixture.start.pair Fixture.granting))) := by
  have shares := Fixture.start_shares Fixture.granting
  have steady : Fixture.start.probed.host.Steady :=
    Host.steady_of_quiet (Fixture.hostFor_quiet none none)
  have gated : ∀ q ∈ ([⟨true, .directionOutput 0 true⟩, ⟨false, .mask 0⟩, ⟨false, .free 0⟩] :
      List (Request Bool Nat)), ¬ q.op.Raw := by simp [Operation.Raw]
  have hrun := System.run_registers_by_last_writer (i := true) shares Fixture.start_apart
    (fun _ => steady) _ gated rfl rfl Fixture.start_granting_accessible
  simp only [Fixture.pair, Machine.start, Fixture.granting_loadWord] at hrun ⊢
  exact ⟨shares, Fixture.start_apart, steady, hrun⟩

end Gpio
