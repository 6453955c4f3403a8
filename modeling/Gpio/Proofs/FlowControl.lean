import Gpio.Proofs.Binding
import Gpio.Proofs.Refinement

/-!
# Trigger and handler agree

The trigger of a line stands in two places: in its enable/config register,
and as the handler its virtual interrupt has in the domain. Only setting the
type of a virtual interrupt programs either, and it programs both or none.
So after initialization the two agree in every state; and a type that is
supported can be set there for any line that is accessible.
-/

set_option autoImplicit false

namespace Gpio

open Drive

variable {D σ : Type}

/-- The trigger bits of the register are those of the trigger, and the level kind and the polarity
read off the register fit the handler and the trigger. -/
structure Trigger.Agrees (t : Trigger) (cfg : Word) (flow : Flow) : Prop where
  bits : cfg &&& PinConfig.trigger = t.config
  level : TriggerKind.ofConfig cfg = .level ↔ flow = .level
  edge : TriggerKind.ofConfig cfg = .singleEdge ∨ TriggerKind.ofConfig cfg = .bothEdge ↔
    flow = .edge
  high : cfg &&& PinConfig.triggerHigh ≠ 0 ↔ t = .edgeRising ∨ t = .levelHigh

namespace Trigger

variable {t : Trigger} {cfg raw : Word}

theorem sense_of_ofSense (h : ofSense raw = .ok t) : t.sense = raw &&& Sense.mask := by
  unfold ofSense at h
  split at h
  · next hfind =>
    cases h
    have hsense := List.find?_some hfind
    exact beq_iff_eq.mp hsense
  · cases h

/-- The three trigger bits are all that the mask lets through. -/
theorem and_trigger_of_extract (h : cfg.extractLsb' 2 3 = t.config.extractLsb' 2 3) :
    cfg &&& PinConfig.trigger = t.config := by
  have own : t.config &&& PinConfig.trigger = t.config := by cases t <;> decide
  have mask : ∀ i < 32, PinConfig.trigger.getLsbD i = true → 2 ≤ i ∧ i < 5 := by decide
  rw [← own]
  apply BitVec.eq_of_getLsbD_eq
  intro i hi
  rw [BitVec.getLsbD_and, BitVec.getLsbD_and]
  cases hm : PinConfig.trigger.getLsbD i with
  | false => rw [Bool.and_false, Bool.and_false]
  | true =>
    obtain ⟨hlo, hhi⟩ := mask i hi hm
    have hbit := congrArg (fun w => w.getLsbD (i - 2)) h
    simp only [BitVec.getLsbD_extractLsb', show i - 2 < 3 by omega, decide_true, Bool.true_and,
      show 2 + (i - 2) = i by omega] at hbit
    rw [hbit]

theorem agrees_of_extract (h : cfg.extractLsb' 2 3 = t.config.extractLsb' 2 3) :
    t.Agrees cfg t.flow := by
  have bits := and_trigger_of_extract h
  -- Level kind and polarity are read under masks within that of the trigger.
  have kind : cfg &&& PinConfig.triggerKind = t.config &&& PinConfig.triggerKind := by
    rw [← bits, BitVec.and_assoc]
    rfl
  have high : cfg &&& PinConfig.triggerHigh = t.config &&& PinConfig.triggerHigh := by
    rw [← bits, BitVec.and_assoc]
    rfl
  have hkind : TriggerKind.ofConfig cfg = TriggerKind.ofConfig t.config := by
    simp only [TriggerKind.ofConfig, kind]
  refine ⟨bits, ?_, ?_, ?_⟩
  · rw [hkind]
    cases t <;> decide
  · rw [hkind]
    cases t <;> decide
  · rw [high]
    cases t <;> decide

end Trigger

namespace Operation

def Routine : Operation D → Prop
  | write .. | update .. | setType .. | attach _ => False
  | _ => True

variable {op : Operation D} {virq : UInt32}

theorem Routine.not_raw (h : op.Routine) : ¬ op.Raw := by
  cases op with
  | write | update => exact h.elim
  | _ => exact id

theorem Routine.after (h : op.Routine) (b : Block D σ) : b.after op = b := by
  cases op with
  | attach d => exact h.elim
  | _ => rfl

/-- Only setting the type of a virtual interrupt gives it a flow. -/
theorem Routine.makes_spares (h : op.Routine) (hop : ∀ raw, op ≠ .irq (.setType virq raw))
    (d : D) (flow : Flow) (c : Call D) (hc : op.Makes c) : c.Spares d virq flow := by
  cases op with
  | attach => exact h.elim
  | consumer i =>
    cases i with
    | request | free | directionInput | directionOutput =>
      subst hc
      exact .of_ne id nofun
    | toIrq =>
      obtain ⟨e, rfl⟩ := hc
      exact .of_ne id nofun
    | get | set | setDebounce => exact hc.elim
  | irq i =>
    rcases hc with ⟨e, rfl⟩ | hc
    · exact .of_ne id nofun
    · cases i with
      | setType v raw =>
        rcases hc with ⟨_, _, _, _, rfl⟩ | ⟨e, f, rfl⟩
        · exact .of_ne id nofun
        · refine ⟨id, fun f' hf => ?_⟩
          cases hf
          exact absurd rfl (hop raw)
      | setWake =>
        obtain ⟨_, _, _, rfl⟩ := hc
        exact .of_ne id nofun
      | ack | mask | unmask | disable | shutdown => exact hc.elim
  | toIrq =>
    obtain ⟨e, rfl⟩ := hc
    exact .of_ne id nofun
  | setType | setWake =>
    obtain ⟨_, _, rfl⟩ := hc
    exact .of_ne id nofun
  | install =>
    obtain ⟨e, _, _, rfl⟩ := hc
    exact .of_ne id nofun
  | chained =>
    obtain ⟨e, i, hi, rfl⟩ := hc
    cases i with
    | find | handle | enter | exit => exact .of_ne id nofun
    | create | lineOf | dispose | setFlow | setChained => exact hi.elim
  | request | free | directionInput | directionOutput | publishWakeTable =>
    subst hc
    exact .of_ne id nofun
  | isAccessible | registerAddress | read | write | update | getValue | setValue | setDebounce
  | isEnabled | readRegisters | ack | mask | unmask => exact hc.elim

/-- Nothing else asks for a trigger. -/
theorem Routine.asked_trigger (h : op.Routine) {b : Block D σ} {s : σ} {line : UInt32}
    (hop : ∀ v raw, op = .irq (.setType v raw) → b.lineBehind s v ≠ some line) :
    (Amendment.last (b.asked s op line)).trigger = none := by
  unfold Block.asked
  by_cases aims : b.Aims s op line
  · rw [if_pos aims]
    cases op with
    | setType | attach => exact h.elim
    | consumer c => cases c <;> rfl
    | irq c =>
      cases c with
      | setType v raw => exact absurd aims (hop v raw rfl)
      | ack | mask | unmask | disable | shutdown | setWake => rfl
    | _ => rfl
  · rw [if_neg aims]
    rfl

end Operation

namespace Block

variable {b : Block D σ} {m m' : Machine D σ} {flow : Flow}

theorem setType_ok {line : UInt32} {t : Trigger} (h : (b.setType line t).on m = (.ok flow, m')) :
    b.owns m.memory line = true ∧ flow = t.flow := by
  obtain ⟨_, m₁, hown, h⟩ := on_bind_eq_ok h
  obtain ⟨_, m₂, -, h⟩ := on_bind_eq_ok h
  obtain ⟨_, m₃, -, h⟩ := on_bind_eq_ok h
  obtain ⟨found, m₄, -, h⟩ := on_bind_eq_ok h
  constructor
  · by_contra ho
    rw [b.on_own_of_not_owns (Bool.not_eq_true _ ▸ ho)] at hown
    cases hown
  · cases found with
    | none =>
      cases h
      rfl
    | some wake =>
      obtain ⟨reply, m₅, -, h⟩ := on_bind_eq_ok h
      cases reply with
      | ok _ =>
        cases h
        rfl
      | error e =>
        obtain ⟨_, m₆, -, h⟩ := on_bind_eq_ok h
        cases h
        rfl

theorem perform_setType_error {virq : UInt32} {raw : Word} {e : Failure}
    (h : (b.setTypeBehind virq raw).on m = (.error e, m')) :
    (b.perform (.irq (.setType virq raw))).on m = (.error e, m') := by
  have hswitch := on_bind_error h (b.switchFlow virq)
  rw [← b.setTypeOfVirq_eq] at hswitch
  exact on_bind_error hswitch _

theorem perform_setType_ok (steady : b.host.Steady) {d : D} (hd : b.domain = some d)
    {virq : UInt32} {raw : Word} (h : (b.setTypeBehind virq raw).on m = (.ok flow, m')) :
    (b.perform (.irq (.setType virq raw))).on m =
      (.ok .done, ((b.host.call (.domain d (.setFlow virq flow))).on m').2) := by
  obtain ⟨m₁, hcall⟩ := Host.on_call_of_steady steady (.domain d (.setFlow virq flow)) m'
  have hflow : (b.switchFlow virq flow).on m' = (.ok (), m₁) := by
    rw [switchFlow, hd]
    exact hcall
  have hswitch := (on_bind_ok h (b.switchFlow virq)).trans hflow
  rw [← b.setTypeOfVirq_eq] at hswitch
  rw [hcall]
  exact on_bind_ok hswitch _

/-- When the type behind a virtual interrupt is set, its line passed the gate. -/
theorem setTypeBehind_ok {virq : UInt32} {raw : Word}
    (h : (b.setTypeBehind virq raw).on m = (.ok flow, m')) :
    ∃ line t m₁, (b.lineOfVirq virq).on m = (.ok line, m₁) ∧ Trigger.ofSense raw = .ok t ∧
      b.owns m₁.memory line = true ∧ flow = t.flow := by
  obtain ⟨line, m₁, hline, h⟩ := on_bind_eq_ok h
  obtain ⟨t, m₂, ht, h⟩ := on_bind_eq_ok h
  rw [on_ofChecked] at ht
  obtain ⟨hsense, rfl⟩ := Prod.mk.inj ht
  obtain ⟨ho, hflow⟩ := setType_ok h
  exact ⟨line, t, m₁, hline, hsense, ho, hflow⟩

end Block

structure Attached (D σ : Type) where
  dev : Device
  block : Block D σ
  domain : D
  live : σ → Prop
  table : σ → UInt32 → Option UInt32
  carries : dev.Carries block
  steady : block.host.Steady
  attached : block.domain = some domain
  binds : block.host.Binds domain live table

namespace Attached

variable (w : Attached D σ)

def Programmed (m₀ : Memory) (line : UInt32) (last : Option Word) (flow : Flow)
    (m : Memory) : Prop :=
  match last with
  | none => flow = .simple
  | some raw => ∃ t l, Trigger.ofSense raw = .ok t ∧ flow = t.flow ∧ validLine line = .ok l ∧
      w.block.owns m₀ line = true ∧ (w.dev.record m l).trigger = t.config.extractLsb' 2 3

variable {w} {bound : UInt32 → Option UInt32} {m₀ : Memory} {line virq : UInt32}
  {last : Option Word} {m m' : Machine D σ} {flow : Flow}

theorem lineBehind_iff (hm : m.Bound w.live w.table bound) {v k : UInt32} :
    w.block.lineBehind m.world v = some k ↔ bound k = some v := by
  simp only [Block.lineBehind, w.attached, w.binds.behind hm.live, hm.table]

theorem asked_setType (hm : m.Bound w.live w.table bound) (hline : bound line = some virq)
    {raw : Word} {t : Trigger} (ht : Trigger.ofSense raw = .ok t) :
    w.block.asked m.world (.irq (.setType virq raw)) line = [.trigger t] := by
  have aims : w.block.Aims m.world (.irq (.setType virq raw)) line :=
    (lineBehind_iff hm).mpr hline
  rw [Block.asked, if_pos aims, Operation.event?, IrqCall.event?, ht]
  rfl

/-- A supported type can be set for any line that is owned and bound. -/
theorem setType_succeeds (w : Attached D σ) (conf : w.dev.Confined m₀ m.memory)
    (hm : m.Bound w.live w.table bound) (hline : bound line = some virq)
    (own : w.block.owns m₀ line = true) {raw : Word} {t : Trigger}
    (ht : Trigger.ofSense raw = .ok t) :
    ∃ m', (w.block.perform (.irq (.setType virq raw))).on m = (.ok .done, m') := by
  obtain ⟨l, hl⟩ := w.block.valid_of_owns own
  obtain ⟨m₁, hcall⟩ := Host.on_call_of_steady w.steady (.domain w.domain (.lineOf virq)) m
  rw [(w.binds.behind hm.live virq line).mpr (hm.table ▸ hline)] at hcall
  have hbehind : (w.block.lineOfVirq virq).on m = (.ok line, m₁) := by
    rw [Block.lineOfVirq, w.attached]
    exact on_bind_ok hcall _
  have conf₁ : w.dev.Confined m₀ m₁.memory :=
    ((w.carries.confined_robust m₀).keeps_lineOfVirq virq).of_on conf hbehind
  obtain ⟨flow, m₂, hset, -⟩ := w.carries.setType_amends hl own w.steady t
    (w.dev.record m₁.memory l) m₁ ⟨conf₁, rfl⟩
  have htype : (w.block.setTypeBehind virq raw).on m = (.ok flow, m₂) := by
    rw [Block.setTypeBehind, on_bind_ok hbehind, ht, ofChecked_ok, pure_bind]
    exact hset
  exact ⟨_, Block.perform_setType_ok w.steady w.attached htype⟩

/-- What amends no trigger leaves the line programmed as it was. -/
theorem Programmed.kept (h : w.Programmed m₀ line last flow m.memory) {n : Memory}
    (hn : ∀ l, validLine line = .ok l → w.block.owns m₀ line = true →
      (w.dev.record n l).trigger = (w.dev.record m.memory l).trigger) :
    w.Programmed m₀ line last flow n := by
  cases last with
  | none => exact h
  | some raw =>
    obtain ⟨t, l, ht, hflow, hl, own, htrigger⟩ := h
    exact ⟨t, l, ht, hflow, hl, own, (hn l hl own).trans htrigger⟩

/-- The record of an owned line after an operation. -/
theorem record_after (w : Attached D σ) (conf : w.dev.Confined m₀ m.memory) {op : Operation D}
    (gated : ¬ op.Raw) {l : Location} (hl : validLine line = .ok l)
    (own : w.block.owns m₀ line = true) :
    match (w.block.perform op).on m with
    | (.ok _, m') => w.dev.record m'.memory l =
        (w.dev.record m.memory l).amend (.last (w.block.asked m.world op line))
    | (.error _, m') => w.dev.record m'.memory l = w.dev.record m.memory l := by
  have settles := w.carries.perform_settles (m := m) hl own w.steady gated
    (w.dev.record m.memory l) ⟨conf, rfl⟩
  rcases hon : (w.block.perform op).on m with ⟨e | o, m'⟩ <;> rw [hon] at settles
  · exact settles.record
  · exact settles.record

variable [DecidableEq D]

variable (w) in
structure Follows (bound : UInt32 → Option UInt32) (m₀ : Memory) (line virq : UInt32)
    (last : Option Word) (m : Machine D σ) : Prop where
  confined : w.dev.Confined m₀ m.memory
  handler : ∃ flow, m.Handles w.domain w.live w.table bound virq flow ∧
    w.Programmed m₀ line last flow m.memory

/-- Until the handler is switched, setting the type leaves all handlers alone. -/
theorem setTypeBehind_keeps (w : Attached D σ) (virq : UInt32) (raw : Word) :
    Keeps (Machine.Handles w.domain w.live w.table bound virq flow)
      (w.block.setTypeBehind virq raw) := by
  have wake : ∀ line t (c : Call D), c.TellsType line t → c.Spares w.domain virq flow := by
    rintro line t c ⟨_, -, rfl⟩
    exact .of_ne id nofun
  exact (w.binds.handles_lasts.setTypeBehind (fun _ => trivial)
    (fun _ => .of_ne id nofun) wake raw).keeps

theorem Follows.other (hm : w.Follows bound m₀ line virq last m) (hline : bound line = some virq)
    {op : Operation D} (routine : op.Routine) (hop : ∀ raw, op ≠ .irq (.setType virq raw)) :
    w.Follows bound m₀ line virq last ((w.block.perform op).on m).2 := by
  obtain ⟨flow, handles, programmed⟩ := hm.handler
  have keep : Keeps (Machine.Handles w.domain w.live w.table bound virq flow)
      (w.block.perform op) :=
    Block.keeps_perform (fun _ _ _ h => h.record rfl) (fun _ _ h => h.record rfl)
      (fun _ hc => w.binds.call_handles hc) (routine.makes_spares hop w.domain flow)
  refine ⟨hm.confined.trans (w.carries.perform_confined op m), flow, keep m handles,
    programmed.kept fun l hl own => ?_⟩
  have behind : ∀ v raw, op = .irq (.setType v raw) →
      w.block.lineBehind m.world v ≠ some line := by
    intro v raw heq hv
    rw [lineBehind_iff handles.bound, hline] at hv
    cases hv
    exact hop raw heq
  have after := w.record_after hm.confined routine.not_raw hl own
  rcases hon : (w.block.perform op).on m with ⟨e | o, m'⟩ <;> rw [hon] at after
  · exact congrArg PinRecord.trigger after
  · rw [after, PinRecord.amend, routine.asked_trigger behind]
    rfl

/-- A type that is refused leaves handler and trigger. -/
theorem Follows.setType_refused (hm : w.Follows bound m₀ line virq last m)
    {raw : Word} {e : Failure} (hx : (w.block.setTypeBehind virq raw).on m = (.error e, m')) :
    w.Follows bound m₀ line virq last m' := by
  obtain ⟨flow, handles, programmed⟩ := hm.handler
  have hon := Block.perform_setType_error hx
  have confined := w.carries.perform_confined (.irq (.setType virq raw)) m
  rw [hon] at confined
  refine ⟨hm.confined.trans confined, flow, (w.setTypeBehind_keeps virq raw).of_on handles hx,
    programmed.kept fun l hl own => ?_⟩
  have gated : ¬ (Operation.irq (.setType virq raw) : Operation D).Raw := id
  have after := w.record_after hm.confined gated hl own
  rw [hon] at after
  exact congrArg PinRecord.trigger after

/-- A type that is set programs the line, and its handler is switched along. -/
theorem Follows.setType_done (hm : w.Follows bound m₀ line virq last m)
    (hline : bound line = some virq) {raw : Word}
    (hx : (w.block.setTypeBehind virq raw).on m = (.ok flow, m')) :
    w.Follows bound m₀ line virq (some raw)
      ((w.block.host.call (.domain w.domain (.setFlow virq flow))).on m').2 := by
  obtain ⟨_, handles, -⟩ := hm.handler
  have switched := w.binds.setFlow_handles
    ((w.setTypeBehind_keeps virq raw).of_on handles hx).bound virq flow
  have hon := Block.perform_setType_ok w.steady w.attached hx
  have confined := w.carries.perform_confined (.irq (.setType virq raw)) m
  rw [hon] at confined
  -- The type could be set, so the line behind `virq` is this one, and it is owned.
  obtain ⟨k, t, m₁, hk, ht, ho, rfl⟩ := Block.setTypeBehind_ok hx
  have hbehind := (lineBehind_iff handles.bound).mp (Block.lineOfVirq_ok _ hk)
  obtain rfl : k = line := by
    have table := handles.bound.table
    exact w.binds.injective handles.bound.live (table ▸ hbehind) (table ▸ hline)
  have own : w.block.owns m₀ k = true := by
    have keep := (w.carries.confined_robust m₀).keeps_lineOfVirq virq
    rw [← (keep.of_on hm.confined hk).owns_eq w.carries.bank, ho]
  obtain ⟨l, hl⟩ := w.block.valid_of_owns own
  have gated : ¬ (Operation.irq (.setType virq raw) : Operation D).Raw := id
  have after := w.record_after hm.confined gated hl own
  rw [hon, asked_setType handles.bound hline ht, Amendment.last_singleton] at after
  exact ⟨hm.confined.trans confined, t.flow, switched, t, l, ht, rfl, hl, own,
    congrArg PinRecord.trigger after⟩

/-- Setting the type programs the line and switches its handler, or does neither. -/
theorem Follows.setType (hm : w.Follows bound m₀ line virq last m)
    (hline : bound line = some virq) (raw : Word) :
    match (w.block.perform (.irq (.setType virq raw))).on m with
    | (.ok _, m') => w.Follows bound m₀ line virq (some raw) m'
    | (.error _, m') => w.Follows bound m₀ line virq last m' := by
  rcases hx : (w.block.setTypeBehind virq raw).on m with ⟨e | flow, m₁⟩
  · rw [Block.perform_setType_error hx]
    exact hm.setType_refused hx
  · rw [Block.perform_setType_ok w.steady w.attached hx]
    exact hm.setType_done hline hx

end Attached

namespace System

variable {ι : Type}

def sensed (s : System ι D σ) (virq : UInt32) (q : Request ι D) : Option Word :=
  match s.outcome q, q.op with
  | .ok _, .irq (.setType v raw) => if v = virq then some raw else none
  | _, _ => none

theorem sensed_eq_none {s : System ι D σ} {virq : UInt32} {q : Request ι D}
    (hop : ∀ raw, q.op ≠ .irq (.setType virq raw)) : s.sensed virq q = none := by
  unfold sensed
  split
  · next v raw _ heq =>
    refine if_neg ?_
    rintro rfl
    exact hop raw heq
  · rfl

theorem sensed_of_ok {s : System ι D σ} {virq : UInt32} {raw : Word} {q : Request ι D}
    {o : Outcome} (h : s.outcome q = .ok o) (hop : q.op = .irq (.setType virq raw)) :
    s.sensed virq q = some raw := by
  rw [sensed, h, hop]
  exact if_pos rfl

variable [DecidableEq ι]

def senses (virq : UInt32) : List (Request ι D) → System ι D σ → List Word
  | [], _ => []
  | q :: qs, s => (s.sensed virq q).toList ++ senses virq qs (s.after q)

theorem after_block_of_routine {s : System ι D σ} {q : Request ι D} (routine : q.op.Routine)
    (i : ι) : (s.after q).block i = s.block i := by
  by_cases hi : i = q.who
  · subst hi
    simp only [after, Function.update_self]
    cases h : (((s.block q.who).perform q.op).on s.machine).1 with
    | ok o => rw [Block.step_block_ok h, routine.after]
    | error e => rw [Block.step_block_error h]
  · exact Function.update_of_ne hi _ _

theorem run_block_of_routine (qs : List (Request ι D)) (routine : ∀ q ∈ qs, q.op.Routine)
    {s : System ι D σ} (i : ι) : ((run qs s).block i) = s.block i := by
  have step : ∀ q ∈ qs, ∀ t : System ι D σ, t.block i = s.block i →
      (t.after q).block i = s.block i :=
    fun q hq t ht => (after_block_of_routine (routine q hq) i).trans ht
  exact run_keeps qs step s rfl

end System

namespace Attached

variable {ι : Type} [DecidableEq ι] [DecidableEq D] {w : Attached D σ}
  {bound : UInt32 → Option UInt32} {m₀ : Memory} {line virq : UInt32} {last : Option Word}
  {s : System ι D σ}

theorem Follows.step (hm : w.Follows bound m₀ line virq last s.machine)
    (hline : bound line = some virq) {q : Request ι D} (hs : s.block q.who = w.block)
    (routine : q.op.Routine) :
    w.Follows bound m₀ line virq ((s.sensed virq q).or last) (s.after q).machine := by
  rw [s.after_machine, hs]
  by_cases hop : ∃ raw, q.op = .irq (.setType virq raw)
  · obtain ⟨raw, hop⟩ := hop
    have hset := hm.setType hline raw
    rw [System.sensed, s.outcome_eq, hs, hop]
    rcases hon : (w.block.perform (.irq (.setType virq raw))).on s.machine with ⟨e | o, m'⟩ <;>
      rw [hon] at hset
    · exact hset
    · simp only [if_true, Option.some_or]
      exact hset
  · have hop := not_exists.mp hop
    rw [System.sensed_eq_none hop, Option.none_or]
    exact hm.other hline routine hop

theorem Follows.run (hline : bound line = some virq) (qs : List (Request ι D))
    (routine : ∀ q ∈ qs, q.op.Routine) (hs : ∀ i, s.block i = w.block)
    (hm : w.Follows bound m₀ line virq last s.machine) :
    w.Follows bound m₀ line virq ((System.senses virq qs s).getLast?.or last)
      (System.run qs s).machine := by
  -- A type set later takes the place of `last`, so `last` varies with the state.
  induction qs generalizing s last with
  | nil => exact hm
  | cons q qs ih =>
    have hq := routine q List.mem_cons_self
    have hlast : (System.senses virq (q :: qs) s).getLast?.or last =
        (System.senses virq qs (s.after q)).getLast?.or ((s.sensed virq q).or last) := by
      rw [System.senses, List.getLast?_append, Option.or_assoc]
      cases s.sensed virq q <;> rfl
    rw [hlast]
    exact ih (fun p hp => routine p (List.mem_cons_of_mem q hp))
      (fun i => (System.after_block_of_routine hq i).trans (hs i)) (hm.step hline (hs q.who) hq)

end Attached

section Init

variable {host : Host D σ} {d : D} {live : σ → Prop}
  {table : σ → UInt32 → Option UInt32} {r : Resources} {b : Block D σ} {m m' : Machine D σ}

theorem Device.Carries.init_confined {dev : Device} (h : dev.Carries b)
    (hinit : (Block.init host r d).on m = (.ok b, m')) : dev.Confined m.memory m'.memory := by
  obtain ⟨probed, ns, m₁, m₂, -, -, rfl, hattach, hinstall, hpublish⟩ := Block.init_eq_ok hinit
  have unattached : dev.Carries probed := ⟨(probed.bank_withDomain d).symm.trans h.bank, h.writes⟩
  have noted : dev.Confined m.memory (m.note ns).memory := by
    rw [m.memory_note]
    exact .refl _
  have attached := ((unattached.confined_robust m.memory).attach d
    fun _ _ _ _ => trivial).of_on noted hattach
  have rob := h.confined_robust m.memory
  exact (rob.callWake _).of_on (rob.install.of_on attached hinstall) hpublish

variable [DecidableEq D] (binds : host.Binds d live table) (steady : host.Steady) (hm : live m.world)
  (hinit : (Block.init host r d).on m = (.ok b, m'))
  (apart : (b.bank .main).Apart (b.bank .aon)) (spares : ∀ kind, host.Spares (b.bank kind))
include binds steady hm hinit apart spares

/-- An initialized block is attached, and no type is set yet. -/
theorem Block.init_attached : ∃ w : Attached D σ, w.block = b ∧ w.domain = d ∧ w.live = live ∧
    w.table = table ∧ ∀ line < 256, ∃ virq, table m'.world line = some virq ∧
      w.Follows (table m'.world) m'.memory line virq none m' := by
  obtain ⟨rfl, attached, fits, ready⟩ := binds.init_ready hm hinit
  let w : Attached D σ :=
    { dev := ⟨b.bank, apart, fits, b.host.Writes, fun kind => spares kind⟩
      block := b, domain := d, live := live, table := table
      carries := ⟨rfl, fun _ => id⟩, steady := steady, attached := attached, binds := binds }
  refine ⟨w, rfl, rfl, rfl, rfl, fun line hlt => ?_⟩
  have hmem : line ∈ lines := by
    rw [lines_eq]
    exact mem_linesBelow.mpr hlt
  obtain ⟨virq, hline⟩ := Option.isSome_iff_exists.mp (ready.mapped line hmem)
  exact ⟨virq, hline, .refl _, .simple,
    ⟨⟨ready.live, rfl⟩, ready.simple line hmem virq hline⟩, rfl⟩

namespace System

/-- Once a block is initialized over banks no one else writes, every line keeps its virtual
interrupt, and in every later state the handler of that is simple until a type is set for it. From
then on it is the one of the type set last, and so are the trigger bits of the line. -/
theorem init_handler_agrees_with_trigger (qs : List (Request Unit D))
    (routine : ∀ q ∈ qs, q.op.Routine) :
    let start : System Unit D σ := ⟨fun _ => b, m'⟩
    let e := (run qs start).machine
    ∀ line < 256, ∃ virq, table m'.world line = some virq ∧ table e.world line = some virq ∧
      match (senses virq qs start).getLast? with
      | none => e.flowOf d virq = some .simple
      | some raw => ∃ (t : Trigger) (l : Location) (flow : Flow),
          t.sense = raw &&& Sense.mask ∧ resolve line = some l ∧ l.valid = true ∧
          e.flowOf d virq = some flow ∧
          t.Agrees (e.memory.loadWord ((b.bank l.bank).base + l.offset .enableConfig)) flow := by
  intro start e line hlt
  obtain ⟨w, rfl, rfl, rfl, rfl, first⟩ :=
    Block.init_attached binds steady hm hinit apart spares
  obtain ⟨virq, hline, hfirst⟩ := first line hlt
  have last := Attached.Follows.run (s := start) hline qs routine (fun _ => rfl) hfirst
  rw [Option.or_none] at last
  obtain ⟨flow, handles, programmed⟩ := last.handler
  have hlater : w.table e.world line = some virq :=
    (congrFun handles.bound.table line).trans hline
  refine ⟨virq, hline, hlater, ?_⟩
  cases hlast : (senses virq qs start).getLast? with
  | none =>
    rw [hlast] at programmed
    rw [handles.flow, programmed]
  | some raw =>
    rw [hlast] at programmed
    obtain ⟨t, l, ht, rfl, hl, -, trigger⟩ := programmed
    obtain ⟨hresolve, hvalid⟩ := validLine_eq_ok.mp hl
    refine ⟨t, l, t.flow, t.sense_of_ofSense ht, hresolve, hvalid, handles.flow, ?_⟩
    rw [w.carries.address]
    exact t.agrees_of_extract trigger

/-- In every later state a supported type can be set for any accessible line. -/
theorem init_setType_succeeds (qs : List (Request Unit D)) (routine : ∀ q ∈ qs, q.op.Routine)
    {line virq : UInt32} (hlt : line < 256) (hline : table m'.world line = some virq)
    (accessible : b.isAccessible m'.memory line = .ok true) {raw : Word} {t : Trigger}
    (ht : Trigger.ofSense raw = .ok t) :
    (run qs ⟨fun _ => b, m'⟩).outcome ⟨(), .irq (.setType virq raw)⟩ = .ok .done := by
  obtain ⟨w, rfl, rfl, rfl, rfl, first⟩ :=
    Block.init_attached binds steady hm hinit apart spares
  obtain ⟨v, hv, hfirst⟩ := first line hlt
  have last := Attached.Follows.run (s := ⟨fun _ : Unit => w.block, m'⟩) hv qs routine
    (fun _ => rfl) hfirst
  obtain ⟨flow, handles, -⟩ := last.handler
  have own : w.block.owns m'.memory line = true := by
    rw [Block.isAccessible_eq] at accessible
    exact Except.ok.inj accessible
  obtain ⟨m₁, hset⟩ := w.setType_succeeds last.confined handles.bound hline own ht
  rw [outcome_eq, run_block_of_routine qs routine, hset]

end System
end Init

namespace Simulation

theorem Fixture.hostFor_maps :
    (hostFor none none).Maps 0 DomainSpec.plain.rejects (·.Holds 0 .plain) (·.find 0) :=
  host_maps _ _ 0 rfl

theorem Fixture.start_on_init (m : Machine Nat World) (hm : m.world = World.fresh .plain) :
    ∃ m', (Block.init (hostFor none none) start.resources 0).on m =
      (.ok (start.probed.withDomain 0), m') := by
  have holds : m.world.Holds 0 .plain := hm ▸ World.fresh_holds .plain
  have empty : ∀ line, m.world.find 0 line = none := fun line => hm ▸ World.fresh_find .plain line
  have all : ∀ line < 256, DomainSpec.plain.rejects line = false :=
    fun _ => DomainSpec.plain_rejects
  obtain ⟨b, hb⟩ := (Block.on_init_of_accepted hostFor_maps start_accepted holds empty all).2
    (Host.steady_of_quiet (hostFor_quiet none none))
  rcases hinit : (Block.init (hostFor none none) start.resources 0).on m with ⟨r, m'⟩
  rw [hinit] at hb
  cases hb
  obtain ⟨probed, ns, m₁, m₂, hprobe, -, rfl, -⟩ := Block.init_eq_ok hinit
  obtain ⟨_, hstart⟩ := start_on_probe (hostFor none none) m
  rw [hstart] at hprobe
  cases hprobe
  exact ⟨_, rfl⟩

theorem Fixture.start_init_accessible {m m' : Machine Nat World} (hm : m.memory = granting)
    (hinit : (Block.init (hostFor none none) start.resources 0).on m =
      (.ok (start.probed.withDomain 0), m')) :
    (start.probed.withDomain 0).isAccessible m'.memory 0 = .ok true := by
  have carries := ((start_shares m.memory).carries start_apart true true).withDomain 0
  have owns : (start.probed.withDomain 0).owns m'.memory 0 = start.probed.owns granting 0 :=
    hm ▸ (carries.init_confined hinit).owns_eq carries.bank 0
  have accessible := start_granting_accessible
  rw [Block.isAccessible_eq] at accessible ⊢
  rw [owns, accessible]

theorem World.virq_of_find {w : World} {virq : UInt32} (holds : w.Holds 0 .plain)
    (h : w.find 0 0 = some virq) : virq = 32 := by
  obtain ⟨domain, hd, hspec, -⟩ := holds
  have holes : domain.spec.holes = [] := congrArg DomainSpec.holes hspec
  rw [World.find_eq hd, Domain.find_eq_some holes, hspec] at h
  exact UInt32.toNat_inj.mp h.2.symm

end Simulation

open Simulation in
/-- A type is set for the first line of the bench, which is masked afterwards. -/
theorem bench_init_handler_agrees_with_trigger :
    ∃ m', (Block.init (Fixture.hostFor none none) Fixture.start.resources 0).on
        (.start Fixture.granting (World.fresh .plain)) =
          (.ok (Fixture.start.probed.withDomain 0), m') ∧
      let start : System Unit Nat World := ⟨fun _ => Fixture.start.probed.withDomain 0, m'⟩
      let e := (System.run [⟨(), .irq (.setType 32 4)⟩, ⟨(), .irq (.mask 32)⟩] start).machine
      e.world.find 0 0 = some 32 ∧ ∃ flow, e.flowOf 0 32 = some flow ∧
        Trigger.levelHigh.Agrees (e.memory.loadWord (Fixture.start.main.base +
          ((Port.main "A" 2 0 7).locate 0 0).offset .enableConfig)) flow := by
  obtain ⟨m', hinit⟩ := Fixture.start_on_init (.start Fixture.granting (World.fresh .plain)) rfl
  have quiet := Fixture.hostFor_quiet none none
  have steady := Host.steady_of_quiet quiet
  have spares : ∀ kind, (Fixture.hostFor none none).Spares
      ((Fixture.start.probed.withDomain 0).bank kind) := fun _ => Host.spares_of_quiet quiet _
  have binds : (Fixture.hostFor none none).Binds 0 (·.Holds 0 .plain) (·.find 0) :=
    host_binds _ _ 0 rfl
  have holds := World.fresh_holds .plain
  obtain ⟨virq, hfirst, hlast, agrees⟩ := System.init_handler_agrees_with_trigger binds steady
    holds hinit Fixture.start_apart spares
    [⟨(), .irq (.setType 32 4)⟩, ⟨(), .irq (.mask 32)⟩] (by simp [Operation.Routine]) 0 (by decide)
  obtain rfl : virq = 32 := World.virq_of_find (binds.init_ready holds hinit).2.2.2.live hfirst
  -- The type is supported and the line accessible, so the first request succeeds.
  have succeeded := System.init_setType_succeeds binds steady holds hinit Fixture.start_apart
    spares [] nofun (by decide) hfirst (Fixture.start_init_accessible rfl hinit)
    (Trigger.ofSense_sense .levelHigh)
  have sensed : System.sensed (⟨fun _ => Fixture.start.probed.withDomain 0, m'⟩ :
      System Unit Nat World) 32 ⟨(), .irq (.setType 32 4)⟩ = some 4 :=
    System.sensed_of_ok succeeded rfl
  have masked : ∀ s : System Unit Nat World, s.sensed 32 ⟨(), .irq (.mask 32)⟩ = none :=
    fun _ => System.sensed_eq_none nofun
  rw [System.senses, System.senses, System.senses, masked, sensed] at agrees
  obtain ⟨t, l, flow, hsense, hl, -, hflow, hagrees⟩ := agrees
  obtain rfl : t = .levelHigh := by
    revert hsense
    cases t <;> decide
  cases hl
  exact ⟨m', hinit, hlast, flow, hflow, hagrees⟩

end Gpio
