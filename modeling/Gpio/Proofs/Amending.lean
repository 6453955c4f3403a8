import Gpio.Proofs.Confinement
import Gpio.Proofs.PinRecord

/-!
# What operations amend

On a line that passes the gate, over a device in reach and with a host that
answers every call, the operations that write do not fail, and each amends
the line's record by its event. `Amends` says that of a computation; the
lemmas follow the definitions of the operations step by step.
-/

set_option autoImplicit false

namespace Gpio

open Drive

variable {D σ α β : Type}

namespace Device

def record (dev : Device) (m : Memory) (l : Location) : PinRecord := .of (dev.register m l)

theorem register_store (dev : Device) (m : Memory) {line : UInt32} {l : Location}
    (hl : validLine line = .ok l) (r : PinRegister) (v : Word) :
    dev.register (m.storeWord (dev.address l r) v) l =
      Function.update (dev.register m l) r v := by
  funext s
  by_cases h : s = r
  · subst h
    rw [Function.update_self]
    exact dev.register_store_same m l s v
  · rw [Function.update_of_ne h]
    exact dev.register_store_other m hl hl v fun hs => h hs.2.symm

/-- Nothing but registers changed since `m₀`, and those of the line say `rec`. -/
structure Shows (dev : Device) (m₀ : Memory) (l : Location) (rec : PinRecord)
    (m : Machine D σ) : Prop where
  confined : dev.Confined m₀ m.memory
  record : dev.record m.memory l = rec

def Completes (dev : Device) (m₀ : Memory) (l : Location) (a : Amendment) (x : Drive D σ α)
    (e : Amendment) : Prop :=
  ∀ rec : PinRecord, Leads (dev.Shows m₀ l (rec.amend a)) (dev.Shows m₀ l (rec.amend e)) x

def Amends (dev : Device) (m₀ : Memory) (l : Location) (x : Drive D σ α) (a : Amendment) : Prop :=
  dev.Completes m₀ l {} x a

variable {dev : Device} {m₀ : Memory} {line : UInt32} {l : Location} {a c e : Amendment}
  {x : Drive D σ α}

theorem completes_pure (v : α) : dev.Completes m₀ l a (pure v : Drive D σ α) a :=
  fun _ => leads_pure v

theorem completes_last (h : dev.Amends m₀ l x c) : dev.Completes m₀ l a x (a.followedBy c) := by
  intro rec
  rw [← rec.amend_amend]
  exact h (rec.amend a)

theorem completes_bind {k : α → Drive D σ β} (hx : dev.Amends m₀ l x c)
    (hk : ∀ v, dev.Completes m₀ l (a.followedBy c) (k v) e) :
    dev.Completes m₀ l a (x >>= k) e :=
  fun rec => leads_bind (completes_last hx rec) fun v => hk v rec

theorem completes_attempt {k : Except Refusal α → Drive D σ β} (hx : dev.Amends m₀ l x c)
    (hk : ∀ v, dev.Completes m₀ l (a.followedBy c) (k (.ok v)) e) :
    dev.Completes m₀ l a (attempt x >>= k) e :=
  fun rec => leads_attempt (completes_last hx rec) fun v => hk v rec

theorem amends_notify (n : Notice) : dev.Amends m₀ l (Drive.notify n : Drive D σ Unit) {} :=
  fun _ m hm => ⟨(), _, on_notify n m, hm.confined, hm.record⟩

section Parts

variable {b : Block D σ} (h : dev.Carries b) (hl : validLine line = .ok l)
include h

include hl

theorem Carries.call_shows (rec : PinRecord) (c : Call D) :
    Keeps (dev.Shows m₀ l rec) (b.host.call c) := by
  refine Host.keeps_call (fun _ hm => ⟨hm.confined, hm.record⟩) fun _ s w hw hc hm => ?_
  have hf := h.foreign hw hc
  constructor
  · exact hm.confined.store_foreign hf _
  · rw [← hm.record]
    exact congrArg PinRecord.of (funext fun r => dev.register_store_foreign _ hl r hf _)

theorem Carries.shows_robust (rec : PinRecord) :
    b.Robust (· ≠ line) (dev.Shows m₀ l rec) where
  store {m k j} hne hj r v hc hm := by
    rw [h.address j r]
    constructor
    · exact hm.confined.store hj r v
    · rw [← hm.record]
      exact congrArg PinRecord.of (funext fun s =>
        dev.register_store_other _ hj hl v fun hsame => hne hsame.1)
  call c _ := h.call_shows hl rec c
  notice _ hm := ⟨hm.confined, hm.record⟩

theorem Carries.covers (r : PinRegister) : (b.bank l.bank).Covers (l.offset r) := by
  rw [h.bank]
  exact dev.covers_offset hl r

theorem Carries.shows_store {rec : PinRecord} {m : Machine D σ} (hm : dev.Shows m₀ l rec m)
    (r : PinRegister) {v : Word}
    (hv : .of (Function.update (dev.register m.memory l) r v) = rec.amend a) :
    dev.Shows m₀ l (rec.amend a)
      (m.record (.store ((b.bank l.bank).base + l.offset r) v)) := by
  rw [h.address l r]
  constructor
  · exact hm.confined.store hl r v
  · rw [← hv]
    exact congrArg PinRecord.of (dev.register_store _ hl r v)

theorem Carries.write_amends {r : PinRegister} {v : Word}
    (hv : ∀ regs, .of (Function.update regs r v) = (PinRecord.of regs).amend a) :
    dev.Amends m₀ l (b.write line r v) a := by
  intro rec m hm
  have hon : (b.write line r v).on m =
      (.ok (), m.record (.store ((b.bank l.bank).base + l.offset r) v)) := by
    rw [b.on_write hl]
    exact Block.on_put_of_covers (h.covers hl r) (offset_fits hl r) v m
  refine ⟨(), _, hon, h.shows_store hl hm r ?_⟩
  rw [hv, ← hm.record]
  rfl

theorem Carries.modify_amends {r : PinRegister} {u : Word → Word}
    (hu : ∀ regs, .of (Function.update regs r (u (regs r))) = (PinRecord.of regs).amend a) :
    dev.Amends m₀ l (b.modifyRegister line r u) a := by
  intro rec m hm
  refine ⟨(), _, b.on_modifyRegister_of_covers hl (h.covers hl r) u m, h.shows_store hl hm r ?_⟩
  rw [h.address l r, ← hm.record]
  exact hu (dev.register m.memory l)

theorem Carries.modify_amends_of_ne {other : UInt32} {j : Location} (hne : other ≠ line)
    (hj : validLine other = .ok j) (r : PinRegister) (u : Word → Word) :
    dev.Amends m₀ l (b.modifyRegister other r u) {} := by
  intro rec m hm
  have hkeep := (h.shows_robust hl rec).modifyRegister hne r u m hm
  have hon := b.on_modifyRegister_of_covers hj (h.covers hj r) u m
  rw [hon] at hkeep
  exact ⟨(), _, hon, hkeep⟩

theorem Carries.call_amends (steady : b.host.Steady) (c : Call D) :
    dev.Amends m₀ l (b.host.call c) {} := by
  intro rec m hm
  have hkeep := h.call_shows hl rec c m hm
  obtain ⟨m', hm'⟩ := Host.on_call_of_steady steady c m
  rw [hm'] at hkeep
  exact ⟨_, m', hm', hkeep⟩

omit hl in
theorem Carries.own_amends (own : b.owns m₀ line = true) : dev.Amends m₀ l (b.own line) {} := by
  intro rec m hm
  have ho : b.owns m.memory line = true := by rw [hm.confined.owns_eq h.bank, own]
  exact ⟨(), m, b.on_own_of_owns ho, hm⟩

theorem Carries.enable_amends (on : Bool) :
    dev.Amends m₀ l (b.setConfig line PinConfig.enable on) { enabled := some on } :=
  h.modify_amends hl fun regs => PinRecord.of_enable regs on

theorem Carries.output_amends (on : Bool) :
    dev.Amends m₀ l (b.setConfig line PinConfig.output on) { output := some on } :=
  h.modify_amends hl fun regs => PinRecord.of_output regs on

theorem Carries.interrupt_amends (on : Bool) :
    dev.Amends m₀ l (b.setConfig line PinConfig.interrupt on) { unmasked := some on } :=
  h.modify_amends hl fun regs => PinRecord.of_interrupt regs on

end Parts

theorem findWake_amends (line : UInt32) :
    dev.Amends m₀ l (Wake.find line : Drive D σ (Option Nat)) {} := by
  unfold Wake.find
  cases Wake.indexOf? line with
  | none => exact completes_pure _
  | some wake => exact completes_bind (amends_notify _) fun _ => completes_pure _

section Operations

variable {b : Block D σ} (h : dev.Carries b) (hl : validLine line = .ok l)
  (own : b.owns m₀ line = true) (steady : b.host.Steady)
include h hl own

theorem Carries.setValue_amends (level : Bool) :
    dev.Amends m₀ l (b.setValue line level) (PinEvent.drive level).amendment := by
  apply completes_bind (h.own_amends own)
  intro _
  apply completes_bind (h.write_amends hl fun regs => PinRecord.of_value regs _)
  intro _
  exact completes_last (h.write_amends hl fun regs => PinRecord.of_control regs 0)

theorem Carries.setDebounce_amends {usecs : UInt32}
    (hms : Block.debounceMillis usecs ≤ Layout.debounceLimit) :
    dev.Amends m₀ l (b.setDebounce line usecs) (PinEvent.debounce usecs).amendment := by
  apply completes_bind (h.own_amends own)
  intro _
  simp only [Nat.not_lt.mpr hms, if_false]
  apply completes_bind (h.modify_amends hl fun regs => PinRecord.of_debounce regs)
  intro _
  exact completes_last (h.write_amends hl fun regs => PinRecord.of_threshold regs _)

theorem Carries.ack_amends : dev.Amends m₀ l (b.ack line) PinEvent.acknowledge.amendment := by
  apply completes_bind (h.own_amends own)
  intro _
  exact completes_last (h.write_amends hl fun regs => PinRecord.of_clear regs 1)

theorem Carries.mask_amends : dev.Amends m₀ l (b.mask line) PinEvent.mask.amendment := by
  apply completes_bind (h.own_amends own)
  intro _
  exact completes_last (h.interrupt_amends hl false)

theorem Carries.unmask_amends : dev.Amends m₀ l (b.unmask line) PinEvent.unmask.amendment := by
  apply completes_bind (h.own_amends own)
  intro _
  exact completes_last (h.interrupt_amends hl true)

include steady

theorem Carries.free_amends : dev.Amends m₀ l (b.free line) PinEvent.release.amendment := by
  apply completes_bind (h.call_amends hl steady _)
  intro _
  apply completes_attempt (h.own_amends own)
  intro _
  exact completes_attempt (h.enable_amends hl false) fun _ => completes_pure _

theorem Carries.directionInput_amends :
    dev.Amends m₀ l (b.directionInput line) PinEvent.input.amendment := by
  apply completes_bind (h.own_amends own)
  intro _
  apply completes_bind (h.output_amends hl false)
  intro _
  apply completes_bind (h.enable_amends hl true)
  intro _
  apply completes_bind (h.call_amends hl steady _)
  intro reply
  -- The registers are written by now, whatever pin control answers.
  cases reply with
  | ok _ => exact completes_pure _
  | error e => exact completes_last (amends_notify _)

theorem Carries.directionOutput_amends (level : Bool) :
    dev.Amends m₀ l (b.directionOutput line level) (PinEvent.output level).amendment := by
  apply completes_bind (h.setValue_amends hl own level)
  intro _
  apply completes_bind (h.output_amends hl true)
  intro _
  apply completes_bind (h.enable_amends hl true)
  intro _
  apply completes_bind (h.call_amends hl steady _)
  intro reply
  cases reply with
  | ok _ => exact completes_pure _
  | error e => exact completes_last (amends_notify _)

theorem Carries.setType_amends (t : Trigger) :
    dev.Amends m₀ l (b.setType line t) (PinEvent.trigger t).amendment := by
  apply completes_bind (h.own_amends own)
  intro _
  apply completes_bind (h.modify_amends hl fun regs => PinRecord.of_program regs t)
  intro _
  apply completes_bind (h.enable_amends hl true)
  intro _
  apply completes_bind (findWake_amends line)
  intro found
  cases found with
  | none => exact completes_pure _
  | some wake =>
    apply completes_bind (h.call_amends hl steady _)
    intro reply
    cases reply with
    | ok _ => exact completes_pure _
    | error e => exact completes_bind (amends_notify _) fun _ => completes_pure _

omit own in
theorem Carries.giveFlow_completes (d : D) (k : UInt32) (owned : Bool) :
    dev.Completes m₀ l a (b.giveFlow d k owned) a := by
  apply completes_bind (h.call_amends hl steady _)
  intro found
  cases found with
  | some virq => exact completes_bind (h.call_amends hl steady _) fun _ => completes_pure _
  | none => exact completes_pure _

/-- Attaching masks the line when its turn comes; no other line's turn shows. -/
theorem Carries.maskLine_amends (d : D) (k : UInt32) :
    dev.Amends m₀ l (b.maskLine d k) (if k = line then PinEvent.mask.amendment else {}) := by
  intro rec m hm
  rw [b.on_maskLine, hm.confined.owns_eq h.bank k]
  by_cases hk : k = line
  · subst hk
    rw [own, if_pos rfl, if_pos rfl]
    have mask : dev.Amends m₀ l (b.setConfig k PinConfig.interrupt false)
        { unmasked := some false } := h.interrupt_amends hl false
    exact completes_bind mask (fun _ => h.giveFlow_completes hl steady d k true) rec m hm
  · rw [if_neg hk]
    by_cases ho : b.owns m₀ k = true
    · obtain ⟨j, hj⟩ := b.valid_of_owns ho
      have other : dev.Amends m₀ l (b.setConfig k PinConfig.interrupt false) {} :=
        h.modify_amends_of_ne hl hk hj .enableConfig _
      rw [if_pos ho]
      exact completes_bind other (fun _ => h.giveFlow_completes hl steady d k true) rec m hm
    · rw [if_neg ho]
      exact h.giveFlow_completes hl steady d k false rec m hm

theorem Carries.maskLines_amends (d : D) (ls : List UInt32) :
    dev.Amends m₀ l (b.maskLines d ls) (if line ∈ ls then PinEvent.mask.amendment else {}) := by
  induction ls with
  | nil => exact completes_pure _
  | cons k rest ih =>
    have hsame : (Amendment.followedBy (.followedBy {} (if k = line then PinEvent.mask.amendment
        else {})) (if line ∈ rest then PinEvent.mask.amendment else {})).followedBy {} =
        if line ∈ k :: rest then PinEvent.mask.amendment else {} := by
      by_cases hk : k = line
      · by_cases hr : line ∈ rest <;> simp [hk, hr] <;> rfl
      · by_cases hr : line ∈ rest <;> simp [Ne.symm hk, hk, hr] <;> rfl
    rw [← hsame]
    apply completes_bind (h.maskLine_amends hl own steady d k)
    intro _
    exact completes_bind ih fun _ => completes_pure _

theorem Carries.maskAll_amends (d : D) :
    dev.Amends m₀ l (b.maskAll d) PinEvent.mask.amendment := by
  have hall := h.maskLines_amends hl own steady d lines
  rw [if_pos (mem_lines hl)] at hall
  exact completes_bind hall fun _ => completes_last (amends_notify _)

end Operations
end Device
end Gpio
