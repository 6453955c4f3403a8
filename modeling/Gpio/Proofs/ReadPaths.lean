import Gpio.Proofs.Attaching

/-!
# The three ways to read a line

A snapshot, the mode of a line and its level are read one register at a time
behind one gate. Banks may end anywhere, inside a pin's registers too: each
of the three succeeds just when the registers it looks at are in reach, and
where they all do they tell of the same words.
-/

set_option autoImplicit false

namespace Gpio

variable {D σ α β : Type}

theorem hasBits_twoPow (w : Word) {i : Nat} (hi : i < 32) :
    hasBits w (BitVec.twoPow 32 i) = w.getLsbD i := by
  have hne : (0 : Word) ≠ BitVec.twoPow 32 i := by
    intro h
    have hbit := congrArg (BitVec.getLsbD · i) h
    simp [hi] at hbit
  rw [hasBits, BitVec.and_twoPow]
  cases w.getLsbD i with
  | true => simp
  | false => simpa using hne

theorem hasBits_enable (w : Word) : hasBits w PinConfig.enable = w.getLsbD 0 :=
  hasBits_twoPow w (show 0 < 32 by decide)

theorem hasBits_output (w : Word) : hasBits w PinConfig.output = w.getLsbD 1 :=
  hasBits_twoPow w (show 1 < 32 by decide)

theorem and_one_ne_zero (w : Word) : (w &&& 1 != 0) = w.getLsbD 0 := by
  rw [show (1 : Word) = BitVec.twoPow 32 0 from rfl, BitVec.and_twoPow]
  cases w.getLsbD 0 <;> rfl

namespace Checked

theorem bind_eq_ok {x : Checked α} {f : α → Checked β} {v : β} :
    (x >>= f) = .ok v ↔ ∃ a, x = .ok a ∧ f a = .ok v := by
  cases x with
  | error e => exact ⟨nofun, nofun⟩
  | ok a =>
    constructor
    · exact fun h => ⟨a, rfl, h⟩
    · rintro ⟨a', ha, hf⟩
      cases ha
      exact hf

theorem pure_eq_ok {a v : α} : (pure a : Checked α) = .ok v ↔ a = v := ⟨Except.ok.inj, congrArg _⟩

def Decided (x : Checked α) : Prop := ∀ o, x ≠ .error (.overflow o)

theorem decided_pure (a : α) : Decided (pure a) := nofun

theorem decided_refuse (r : Refusal) : Decided (refuse r : Checked α) := nofun

theorem decided_bind {x : Checked α} {f : α → Checked β} (hx : Decided x)
    (hf : ∀ a, Decided (f a)) : Decided (x >>= f) := by
  cases x with
  | error e => exact fun o he => hx o (congrArg _ (Except.error.inj he))
  | ok a => exact hf a

/-- What is decided is shown or not shown. -/
theorem optional_of_decided {x : Checked α} (hx : Decided x) :
    ∃ shown, x.optional = .ok shown ∧ ∀ a, shown = some a ↔ x = .ok a := by
  rcases x with (r | o) | a
  · exact ⟨none, rfl, fun _ => ⟨nofun, nofun⟩⟩
  · exact absurd rfl (hx o)
  · exact ⟨some a, rfl, fun a' => ⟨fun h => congrArg _ (Option.some.inj h),
      fun h => congrArg _ (Except.ok.inj h)⟩⟩

end Checked

open Checked

namespace Block

variable (b : Block D σ)

def Spans (line : UInt32) (o : Nat) : Prop :=
  ∃ l, resolve line = some l ∧ l.registers + o + 4 ≤ (b.bank l.bank).size

variable {b} {m : Memory} {line : UInt32}

theorem Spans.mono {o p : Nat} (h : b.Spans line o) (hle : p ≤ o) : b.Spans line p := by
  obtain ⟨l, hl, hs⟩ := h
  exact ⟨l, hl, by omega⟩

theorem covers_iff_spans {l : Location} (hl : validLine line = .ok l) (r : PinRegister) :
    (b.bank l.bank).Covers (l.offset r) ↔ b.Spans line r.offset := by
  have resolved := (validLine_eq_ok.mp hl).1
  constructor
  · exact fun hc => ⟨l, resolved, hc.2⟩
  · rintro ⟨k, hk, hs⟩
    obtain rfl : l = k := Option.some.inj (resolved.symm.trans hk)
    exact ⟨(offset_place hl r).1, hs⟩

/-- Whatever the size of the bank, a register of a line that exists is read or refused. -/
theorem read_of_validLine {l : Location} (hl : validLine line = .ok l) (r : PinRegister) :
    b.read m line r = if (b.bank l.bank).Covers (l.offset r) then
      .ok (m.loadWord ((b.bank l.bank).base + l.offset r)) else .refuse .invalidLine := by
  have hread : b.read m line r = (b.bank l.bank).read m (l.offset r) := by rw [read, hl]; rfl
  rw [hread]
  split
  · next hc => exact Bank.read_of_covers m hc (offset_fits hl r)
  · next hc => exact Bank.read_of_not_covers m hc (offset_fits hl r)

theorem read_of_spans (owned : b.owns m line = true) {r : PinRegister} :
    (∃ v, b.read m line r = .ok v) ↔ b.Spans line r.offset := by
  obtain ⟨l, hl⟩ := b.valid_of_owns owned
  rw [← covers_iff_spans hl, read_of_validLine hl]
  split
  · next hc => exact ⟨fun _ => hc, fun _ => ⟨_, rfl⟩⟩
  · next hc =>
    refine ⟨?_, fun h => absurd h hc⟩
    rintro ⟨v, hv⟩
    cases hv

theorem read_decided (r : PinRegister) : Decided (b.read m line r) := by
  by_cases hv : ∃ l, validLine line = .ok l
  · obtain ⟨l, hl⟩ := hv
    rw [read_of_validLine hl]
    split
    · exact decided_pure _
    · exact decided_refuse _
  · rw [read, validLine_eq_error fun l hl => hv ⟨l, hl⟩]
    exact decided_refuse _

theorem ownedLine_decided : Decided (b.ownedLine m line) := by
  cases ho : b.owns m line with
  | true =>
    obtain ⟨l, -, hl⟩ := b.ownedLine_of_owns ho
    rw [hl]
    exact decided_pure l
  | false =>
    rw [b.ownedLine_of_not_owns ho]
    exact decided_refuse _

theorem lineState_decided (b : Block D σ) (m : Memory) (line : UInt32) :
    Decided (b.lineState m line) :=
  decided_bind ownedLine_decided fun _ => decided_bind (read_decided _) fun _ =>
    decided_bind (read_decided _) fun _ => decided_pure _

theorem snapshot_decided (b : Block D σ) (m : Memory) (line : UInt32) :
    Decided (b.snapshot m line) :=
  decided_bind ownedLine_decided fun _ => decided_bind (read_decided _) fun _ =>
    decided_bind (read_decided _) fun _ => decided_bind (read_decided _) fun _ =>
    decided_bind (read_decided _) fun _ => decided_bind (read_decided _) fun _ =>
    decided_bind (read_decided _) fun _ => decided_pure _

theorem owned_bind_eq_ok {f : Location → Checked α} {v : α} (g : Checked α) (hf : ∀ l, f l = g) :
    (b.ownedLine m line >>= f) = .ok v ↔ b.owns m line = true ∧ g = .ok v := by
  rw [bind_eq_ok]
  constructor
  · rintro ⟨l, hl, hv⟩
    cases ho : b.owns m line with
    | true => exact ⟨rfl, (hf l).symm.trans hv⟩
    | false =>
      rw [b.ownedLine_of_not_owns ho] at hl
      cases hl
  · rintro ⟨ho, hv⟩
    obtain ⟨l, -, hl⟩ := b.ownedLine_of_owns ho
    exact ⟨l, hl, (hf l).trans hv⟩

theorem snapshot_eq_ok {s : Snapshot} : b.snapshot m line = .ok s ↔ b.owns m line = true ∧
    b.read m line .enableConfig = .ok s.enableConfig ∧
    b.read m line .debounceThreshold = .ok s.debounceThreshold ∧
    b.read m line .input = .ok s.input ∧
    b.read m line .outputControl = .ok s.outputControl ∧
    b.read m line .outputValue = .ok s.outputValue ∧
    b.read m line .interruptClear = .ok s.interruptClear := by
  rw [snapshot, owned_bind_eq_ok _ fun _ => rfl]
  simp only [bind_eq_ok, pure_eq_ok]
  refine and_congr_right fun _ => ⟨?_, ?_⟩
  · rintro ⟨_, h₀, _, h₁, _, h₂, _, h₃, _, h₄, _, h₅, rfl⟩
    exact ⟨h₀, h₁, h₂, h₃, h₄, h₅⟩
  · rintro ⟨h₀, h₁, h₂, h₃, h₄, h₅⟩
    exact ⟨_, h₀, _, h₁, _, h₂, _, h₃, _, h₄, _, h₅, rfl⟩

theorem lineState_eq_ok {s : LineState} : b.lineState m line = .ok s ↔ b.owns m line = true ∧
    ∃ cfg control, b.read m line .enableConfig = .ok cfg ∧
      b.read m line .outputControl = .ok control ∧ s = ⟨cfg.getLsbD 0, control⟩ := by
  rw [lineState, owned_bind_eq_ok _ fun _ => rfl]
  simp only [bind_eq_ok, pure_eq_ok, hasBits_enable]
  refine and_congr_right fun _ => ⟨?_, ?_⟩
  · rintro ⟨cfg, hc, control, ho, rfl⟩
    exact ⟨cfg, control, hc, ho, rfl⟩
  · rintro ⟨cfg, control, hc, ho, rfl⟩
    exact ⟨cfg, hc, control, ho, rfl⟩

def levelRegister (cfg : Word) : PinRegister := if cfg.getLsbD 1 then .outputValue else .input

theorem getValue_eq_ok {level : Bool} : b.getValue m line = .ok level ↔ b.owns m line = true ∧
    ∃ cfg w, b.read m line .enableConfig = .ok cfg ∧
      b.read m line (levelRegister cfg) = .ok w ∧ level = w.getLsbD 0 := by
  rw [getValue, owned_bind_eq_ok _ fun _ => rfl]
  simp only [bind_eq_ok, pure_eq_ok, hasBits_output, and_one_ne_zero]
  refine and_congr_right fun _ => ⟨?_, ?_⟩
  · rintro ⟨cfg, hc, w, hw, rfl⟩
    exact ⟨cfg, w, hc, hw, rfl⟩
  · rintro ⟨cfg, w, hc, hw, rfl⟩
    exact ⟨cfg, hc, w, hw, rfl⟩

theorem snapshot_succeeds_iff :
    (∃ s, b.snapshot m line = .ok s) ↔ b.owns m line = true ∧ b.Spans line 0x14 := by
  constructor
  · rintro ⟨s, hs⟩
    obtain ⟨owned, -, -, -, -, -, last⟩ := snapshot_eq_ok.mp hs
    exact ⟨owned, (read_of_spans owned).mp ⟨_, last⟩⟩
  · rintro ⟨owned, spans⟩
    have reads : ∀ r : PinRegister, ∃ v, b.read m line r = .ok v := by
      intro r
      have below : r.offset ≤ 0x14 := by cases r <;> decide
      exact (read_of_spans owned).mpr (spans.mono below)
    obtain ⟨w₀, h₀⟩ := reads .enableConfig
    obtain ⟨w₁, h₁⟩ := reads .debounceThreshold
    obtain ⟨w₂, h₂⟩ := reads .input
    obtain ⟨w₃, h₃⟩ := reads .outputControl
    obtain ⟨w₄, h₄⟩ := reads .outputValue
    obtain ⟨w₅, h₅⟩ := reads .interruptClear
    exact ⟨⟨w₀, w₁, w₂, w₃, w₄, w₅⟩, snapshot_eq_ok.mpr ⟨owned, h₀, h₁, h₂, h₃, h₄, h₅⟩⟩

theorem lineState_succeeds_iff :
    (∃ s, b.lineState m line = .ok s) ↔ b.owns m line = true ∧ b.Spans line 0x0c := by
  constructor
  · rintro ⟨s, hs⟩
    obtain ⟨owned, -, control, -, ho, -⟩ := lineState_eq_ok.mp hs
    exact ⟨owned, (read_of_spans owned).mp ⟨control, ho⟩⟩
  · rintro ⟨owned, spans⟩
    obtain ⟨control, ho⟩ := (read_of_spans owned (r := .outputControl)).mpr spans
    obtain ⟨cfg, hc⟩ := (read_of_spans owned (r := .enableConfig)).mpr (spans.mono (by decide))
    exact ⟨_, lineState_eq_ok.mpr ⟨owned, cfg, control, hc, ho, rfl⟩⟩

theorem getValue_succeeds_iff : (∃ level, b.getValue m line = .ok level) ↔
    b.owns m line = true ∧ ∃ cfg, b.read m line .enableConfig = .ok cfg ∧
      b.Spans line (if cfg.getLsbD 1 then 0x10 else 0x08) := by
  have offset : ∀ cfg : Word,
      (levelRegister cfg).offset = if cfg.getLsbD 1 then 0x10 else 0x08 := by
    intro cfg
    rw [levelRegister]
    split <;> rfl
  constructor
  · rintro ⟨level, hlevel⟩
    obtain ⟨owned, cfg, w, hc, hw, -⟩ := getValue_eq_ok.mp hlevel
    refine ⟨owned, cfg, hc, ?_⟩
    rw [← offset]
    exact (read_of_spans owned).mp ⟨w, hw⟩
  · rintro ⟨owned, cfg, hc, spans⟩
    rw [← offset] at spans
    obtain ⟨w, hw⟩ := (read_of_spans owned).mpr spans
    exact ⟨_, getValue_eq_ok.mpr ⟨owned, cfg, w, hc, hw, rfl⟩⟩

/-- What is read of a line, whatever the sizes of the banks. A snapshot is had of just the
accessible lines whose last register is in reach, the mode of those whose output control is, and
the level of those whose configuration is and the register it selects. A snapshot holds the six
registers, in the order of the table, and the mode and the level are parts of it. -/
theorem read_paths_agree (b : Block D σ) (m : Memory) (line : UInt32) :
    let accessible := b.isAccessible m line = .ok true
    (accessible → ∀ r, (∃ v, b.read m line r = .ok v) ↔ b.Spans line r.offset) ∧
    ((∃ level, b.getValue m line = .ok level) ↔ accessible ∧
      ∃ cfg, b.read m line .enableConfig = .ok cfg ∧
        b.Spans line (if cfg.getLsbD 1 then 0x10 else 0x08)) ∧
    ∃ mode shown, b.isEnabled m line = .ok mode ∧ b.readRegisters m line = .ok shown ∧
      (mode.isSome ↔ accessible ∧ b.Spans line 0x0c) ∧
      (shown.isSome ↔ accessible ∧ b.Spans line 0x14) ∧
      ∀ s, shown = some s →
        (PinRegister.all.mapM fun r => b.read m line r) = .ok [s.enableConfig,
          s.debounceThreshold, s.input, s.outputControl, s.outputValue, s.interruptClear] ∧
        b.read m line .enableConfig = .ok s.enableConfig ∧
        b.read m line .debounceThreshold = .ok s.debounceThreshold ∧
        b.read m line .input = .ok s.input ∧
        b.read m line .outputControl = .ok s.outputControl ∧
        b.read m line .outputValue = .ok s.outputValue ∧
        b.read m line .interruptClear = .ok s.interruptClear ∧
        mode = some ⟨s.enableConfig.getLsbD 0, s.outputControl⟩ ∧
        b.getValue m line = .ok
          (if s.enableConfig.getLsbD 1 then s.outputValue.getLsbD 0 else s.input.getLsbD 0) := by
  intro accessible
  have owned_iff : accessible ↔ b.owns m line = true := accessible_iff
  obtain ⟨mode, hmode, mode_iff⟩ := optional_of_decided (b.lineState_decided m line)
  obtain ⟨shown, hshown, shown_iff⟩ := optional_of_decided (b.snapshot_decided m line)
  rw [owned_iff]
  refine ⟨fun owned r => read_of_spans owned, getValue_succeeds_iff, mode, shown, hmode, hshown,
    ?_, ?_, fun s hs => ?_⟩
  · rw [Option.isSome_iff_exists, exists_congr mode_iff, lineState_succeeds_iff]
  · rw [Option.isSome_iff_exists, exists_congr shown_iff, snapshot_succeeds_iff]
  · obtain ⟨owned, h₀, h₁, h₂, h₃, h₄, h₅⟩ := snapshot_eq_ok.mp ((shown_iff s).mp hs)
    refine ⟨?_, h₀, h₁, h₂, h₃, h₄, h₅, ?_, ?_⟩
    · simp only [PinRegister.all, List.mapM_cons, List.mapM_nil, h₀, h₁, h₂, h₃, h₄, h₅]
      rfl
    · exact (mode_iff _).mpr (lineState_eq_ok.mpr ⟨owned, _, _, h₀, h₃, rfl⟩)
    · cases hout : s.enableConfig.getLsbD 1 with
      | true =>
        refine getValue_eq_ok.mpr ⟨owned, _, s.outputValue, h₀, ?_, rfl⟩
        rw [levelRegister, if_pos hout, h₄]
      | false =>
        refine getValue_eq_ok.mpr ⟨owned, _, s.input, h₀, ?_, rfl⟩
        rw [levelRegister, hout]
        exact h₂

end Block

open Simulation in
/-- A granted line of the bench is shown in all three ways. With the main bank cut behind its first
register that one is still read, and nothing is shown. -/
theorem bench_read_paths_agree :
    (∃ s, Fixture.start.probed.readRegisters Fixture.granting 0 = .ok (some s) ∧
      Fixture.start.probed.isEnabled Fixture.granting 0 =
        .ok (some ⟨s.enableConfig.getLsbD 0, s.outputControl⟩)) ∧
    (∃ v, Fixture.short.read Fixture.granting 0 .enableConfig = .ok v) ∧
    Fixture.short.isEnabled Fixture.granting 0 = .ok none ∧
    Fixture.short.readRegisters Fixture.granting 0 = .ok none := by
  have line : validLine 0 = .ok ((Port.main "A" 2 0 7).locate 0 0) := rfl
  have resolved := (validLine_eq_ok.mp line).1
  have accessible : ∀ b : Block Nat World, (b.bank .main).Covers 0x2004 →
      b.isAccessible Fixture.granting 0 = .ok true := by
    intro b covers
    rw [Block.accessible_iff, b.owns_of_valid _ line, Block.grants, Fixture.granting_loadWord,
      Bool.and_eq_true]
    exact ⟨decide_eq_true covers, by decide⟩
  constructor
  · obtain ⟨-, -, mode, shown, hmode, hshown, -, shown_iff, fields⟩ :=
      Block.read_paths_agree Fixture.start.probed Fixture.granting 0
    obtain ⟨s, hs⟩ := Option.isSome_iff_exists.mp
      (shown_iff.mpr ⟨accessible _ (by decide), _, resolved, by decide⟩)
    obtain ⟨-, -, -, -, -, -, -, enabled, -⟩ := fields s hs
    exact ⟨s, hs ▸ hshown, enabled ▸ hmode⟩
  · obtain ⟨reads, -, mode, shown, hmode, hshown, mode_iff, shown_iff, -⟩ :=
      Block.read_paths_agree Fixture.short Fixture.granting 0
    have cut : ∀ o, 0 < o → ¬ Fixture.short.Spans 0 o := by
      rintro o ho ⟨l, hl, hs⟩
      obtain rfl : (Port.main "A" 2 0 7).locate 0 0 = l := Option.some.inj hl
      have inside : 0x12000 + o + 4 ≤ 0x12004 := hs
      omega
    have mode_none : mode = none :=
      Option.not_isSome_iff_eq_none.mp fun h => cut 0x0c (by decide) (mode_iff.mp h).2
    have shown_none : shown = none :=
      Option.not_isSome_iff_eq_none.mp fun h => cut 0x14 (by decide) (shown_iff.mp h).2
    rw [← mode_none, ← shown_none]
    exact ⟨(reads (accessible _ (by decide)) .enableConfig).mpr ⟨_, resolved, by decide⟩, hmode,
      hshown⟩

end Gpio
