import Mathlib.Logic.Function.Basic
import Gpio.Line
import Gpio.Trigger

/-!
# A line as a record

What the six registers of a line say, field by field, and what each kind of
operation asks of the fields. An operation amends some fields and leaves the
rest; after many of them each field has what was asked of it last. The bit
arithmetic that brings this about is below, one equation for each update the
block makes to the enable/config register.
-/

set_option autoImplicit false

namespace Gpio

inductive PinEvent where
  | input
  | output (level : Bool)
  | drive (level : Bool)
  | debounce (usecs : UInt32)
  | trigger (t : Trigger)
  | mask
  | unmask
  | release
  | acknowledge
  deriving DecidableEq, Repr

structure PinRecord where
  /-- Bits 0 and 1 of the enable/config register. -/
  enabled : Bool
  output : Bool
  /-- Bits 2 to 4. -/
  trigger : BitVec 3
  /-- Bits 5 and 6. -/
  debounced : Bool
  unmasked : Bool
  /-- Bits 7 to 31. -/
  spare : BitVec 25
  threshold : Word
  input : Word
  control : Word
  value : Word
  clear : Word
  deriving DecidableEq, Repr

structure Amendment where
  enabled : Option Bool := none
  output : Option Bool := none
  trigger : Option (BitVec 3) := none
  debounced : Option Bool := none
  unmasked : Option Bool := none
  threshold : Option Word := none
  control : Option Word := none
  value : Option Word := none
  clear : Option Word := none

def Amendment.followedBy (a b : Amendment) : Amendment where
  enabled := b.enabled.or a.enabled
  output := b.output.or a.output
  trigger := b.trigger.or a.trigger
  debounced := b.debounced.or a.debounced
  unmasked := b.unmasked.or a.unmasked
  threshold := b.threshold.or a.threshold
  control := b.control.or a.control
  value := b.value.or a.value
  clear := b.clear.or a.clear

def levelWord (level : Bool) : Word := if level then 1 else 0

def PinEvent.amendment : PinEvent → Amendment
  | input => { enabled := some true, output := some false }
  | output level =>
    { enabled := some true, output := some true, value := some (levelWord level),
      control := some 0 }
  | drive level => { value := some (levelWord level), control := some 0 }
  | debounce usecs =>
    { enabled := some true, debounced := some true,
      threshold := some (BitVec.ofNat 32 (Block.debounceMillis usecs)) }
  | trigger t => { enabled := some true, trigger := some (t.config.extractLsb' 2 3) }
  | mask => { unmasked := some false }
  | unmask => { unmasked := some true }
  | release => { enabled := some false }
  | acknowledge => { clear := some 1 }

namespace PinRecord

def of (regs : PinRegister → Word) : PinRecord where
  enabled := (regs .enableConfig).getLsbD 0
  output := (regs .enableConfig).getLsbD 1
  trigger := (regs .enableConfig).extractLsb' 2 3
  debounced := (regs .enableConfig).getLsbD 5
  unmasked := (regs .enableConfig).getLsbD 6
  spare := (regs .enableConfig).extractLsb' 7 25
  threshold := regs .debounceThreshold
  input := regs .input
  control := regs .outputControl
  value := regs .outputValue
  clear := regs .interruptClear

/-- A field that is not asked for stays as it is; no event asks for the spare bits or the sensed
level. -/
def amend (r : PinRecord) (a : Amendment) : PinRecord where
  enabled := a.enabled.getD r.enabled
  output := a.output.getD r.output
  trigger := a.trigger.getD r.trigger
  debounced := a.debounced.getD r.debounced
  unmasked := a.unmasked.getD r.unmasked
  spare := r.spare
  threshold := a.threshold.getD r.threshold
  input := r.input
  control := a.control.getD r.control
  value := a.value.getD r.value
  clear := a.clear.getD r.clear

theorem amend_amend (r : PinRecord) (a b : Amendment) :
    (r.amend a).amend b = r.amend (a.followedBy b) := by
  simp only [amend, Amendment.followedBy, Option.getD_or]

end PinRecord

def lastAsked {α : Type} (field : Amendment → Option α) (es : List PinEvent) : Option α :=
  (es.filterMap fun e => field e.amendment).getLast?

theorem lastAsked_append {α : Type} (field : Amendment → Option α) (ds es : List PinEvent) :
    lastAsked field (ds ++ es) = (lastAsked field es).or (lastAsked field ds) := by
  simp only [lastAsked, List.filterMap_append, List.getLast?_append]

def Amendment.last (es : List PinEvent) : Amendment where
  enabled := lastAsked enabled es
  output := lastAsked output es
  trigger := lastAsked trigger es
  debounced := lastAsked debounced es
  unmasked := lastAsked unmasked es
  threshold := lastAsked threshold es
  control := lastAsked control es
  value := lastAsked value es
  clear := lastAsked clear es

theorem Amendment.last_append (ds es : List PinEvent) :
    last (ds ++ es) = (last ds).followedBy (last es) := by
  simp only [last, followedBy, lastAsked_append]

theorem Amendment.last_singleton (e : PinEvent) : last [e] = e.amendment := by
  simp only [last, lastAsked, List.filterMap_cons, List.filterMap_nil]
  cases e <;> rfl

namespace PinRecord

/-- The fields are all there is to the registers. -/
theorem of_injective {regs regs' : PinRegister → Word} (h : of regs = of regs') : regs = regs' := by
  simp only [of, mk.injEq] at h
  obtain ⟨henabled, houtput, htrigger, hdebounced, hunmasked, hspare, hthreshold, hinput,
    hcontrol, hvalue, hclear⟩ := h
  funext r
  cases r with
  | enableConfig =>
    apply BitVec.eq_of_getLsbD_eq
    intro i hi
    rcases (by omega : i = 0 ∨ i = 1 ∨ (2 ≤ i ∧ i < 5) ∨ i = 5 ∨ i = 6 ∨ 7 ≤ i) with
      rfl | rfl | ⟨hlo, hhi⟩ | rfl | rfl | hlo
    · exact henabled
    · exact houtput
    · have hbit := congrArg (fun w => w.getLsbD (i - 2)) htrigger
      simpa [show i - 2 < 3 by omega, show 2 + (i - 2) = i by omega] using hbit
    · exact hdebounced
    · exact hunmasked
    · have hbit := congrArg (fun w => w.getLsbD (i - 7)) hspare
      simpa [show i - 7 < 25 by omega, show 7 + (i - 7) = i by omega] using hbit
  | debounceThreshold => exact hthreshold
  | input => exact hinput
  | outputControl => exact hcontrol
  | outputValue => exact hvalue
  | interruptClear => exact hclear

end PinRecord

theorem Block.getLsbD_merge (mask v old : Word) {i : Nat} (hi : i < 32) :
    (merge mask v old).getLsbD i = if mask.getLsbD i then v.getLsbD i else old.getLsbD i := by
  simp only [merge, BitVec.getLsbD_or, BitVec.getLsbD_and, BitVec.getLsbD_not, hi, decide_true,
    Bool.true_and]
  cases mask.getLsbD i <;> simp

theorem Block.extractLsb'_merge {mask : Word} {start len : Nat} (hlen : start + len ≤ 32)
    (hmask : mask.extractLsb' start len = 0) (v old : Word) :
    (merge mask v old).extractLsb' start len = old.extractLsb' start len := by
  apply BitVec.eq_of_getLsbD_eq
  intro i hi
  have hclear : mask.getLsbD (start + i) = false := by
    have hbit := congrArg (fun w => w.getLsbD i) hmask
    simpa [hi] using hbit
  rw [BitVec.getLsbD_extractLsb', BitVec.getLsbD_extractLsb', getLsbD_merge _ _ _ (by omega),
    hclear]
  rfl

theorem Trigger.program_eq_merge (t : Trigger) (cfg : Word) :
    t.program cfg = Block.merge PinConfig.trigger t.config cfg := by
  have hown : t.config &&& PinConfig.trigger = t.config := by cases t <;> decide
  rw [program, Block.merge, hown]

namespace PinRecord

open Function (update)

variable (regs : PinRegister → Word)

/-- Merging under a mask that is clear of the trigger and the spare bits. -/
theorem of_merge {mask : Word} (htrigger : mask.extractLsb' 2 3 = 0)
    (hspare : mask.extractLsb' 7 25 = 0) (v : Word) :
    of (update regs .enableConfig (Block.merge mask v (regs .enableConfig))) =
      (of regs).amend
        { enabled := if mask.getLsbD 0 then some (v.getLsbD 0) else none
          output := if mask.getLsbD 1 then some (v.getLsbD 1) else none
          debounced := if mask.getLsbD 5 then some (v.getLsbD 5) else none
          unmasked := if mask.getLsbD 6 then some (v.getLsbD 6) else none } := by
  simp only [of, Function.update_self, Block.getLsbD_merge, Block.extractLsb'_merge, htrigger,
    hspare, Nat.reduceLT, Nat.reduceAdd, Nat.reduceLeDiff, amend]
  -- bit by bit, asked for under the mask or kept
  congr 1 <;> split <;> rfl

theorem of_enable (on : Bool) :
    of (update regs .enableConfig (Block.merge PinConfig.enable
      (if on then PinConfig.enable else 0) (regs .enableConfig))) =
      (of regs).amend { enabled := some on } := by
  rw [of_merge regs (by decide) (by decide)]
  cases on <;> rfl

theorem of_output (on : Bool) :
    of (update regs .enableConfig (Block.merge PinConfig.output
      (if on then PinConfig.output else 0) (regs .enableConfig))) =
      (of regs).amend { output := some on } := by
  rw [of_merge regs (by decide) (by decide)]
  cases on <;> rfl

theorem of_interrupt (on : Bool) :
    of (update regs .enableConfig (Block.merge PinConfig.interrupt
      (if on then PinConfig.interrupt else 0) (regs .enableConfig))) =
      (of regs).amend { unmasked := some on } := by
  rw [of_merge regs (by decide) (by decide)]
  cases on <;> rfl

theorem of_debounce :
    of (update regs .enableConfig (Block.merge (PinConfig.enable ||| PinConfig.debounce)
      (PinConfig.enable ||| PinConfig.debounce) (regs .enableConfig))) =
      (of regs).amend { enabled := some true, debounced := some true } :=
  of_merge regs (by decide) (by decide) _

theorem of_program (t : Trigger) :
    of (update regs .enableConfig (t.program (regs .enableConfig))) =
      (of regs).amend { trigger := some (t.config.extractLsb' 2 3) } := by
  have hspare : PinConfig.trigger.extractLsb' 7 25 = 0 := by decide
  have htrigger : (t.program (regs .enableConfig)).extractLsb' 2 3 = t.config.extractLsb' 2 3 := by
    have hmask : (~~~PinConfig.trigger).extractLsb' 2 3 = 0#3 := by decide
    rw [Trigger.program, BitVec.extractLsb'_or, BitVec.extractLsb'_and, hmask, BitVec.and_zero,
      BitVec.zero_or]
  simp only [of, Function.update_self, htrigger]
  simp only [t.program_eq_merge, Block.getLsbD_merge, Block.extractLsb'_merge, hspare,
    Nat.reduceLT, Nat.reduceAdd, Nat.reduceLeDiff]
  rfl

theorem of_threshold (v : Word) :
    of (update regs .debounceThreshold v) = (of regs).amend { threshold := some v } := rfl

theorem of_control (v : Word) :
    of (update regs .outputControl v) = (of regs).amend { control := some v } := rfl

theorem of_value (v : Word) :
    of (update regs .outputValue v) = (of regs).amend { value := some v } := rfl

theorem of_clear (v : Word) :
    of (update regs .interruptClear v) = (of regs).amend { clear := some v } := rfl

end PinRecord
end Gpio
