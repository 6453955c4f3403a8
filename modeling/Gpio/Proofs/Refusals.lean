import Gpio.Proofs.Confinement

/-!
# Refusals are explained by the gate

On a probed block every register of every line is in reach, so the accesses
of an operation cannot be refused once the line is known to exist, and no
address leaves 64 bits. What is left to refuse an operation is the line
itself: it does not exist, or its security word lacks a grant. `Guarded`
says this of a computation; the lemmas follow the operations.
-/

set_option autoImplicit false

namespace Gpio

open Drive

variable {D σ α β : Type}

def IsLine (line : UInt32) : Prop := ∃ l, resolve line = some l ∧ l.valid = true

theorem isLine_iff {line : UInt32} : IsLine line ↔ ∃ l, validLine line = .ok l :=
  exists_congr fun _ => validLine_eq_ok.symm

/-- The outcome is a refusal exactly for the causes of `why`, and a result if there is none: no
address computation leaves 64 bits. -/
def Explained (out : Except Failure α) (why : Refusal → Prop) : Prop :=
  (∀ r, out = .error (.refused r) ↔ why r) ∧ ∀ o, out ≠ .error (.overflow o)

theorem explained_ok {a : α} {why : Refusal → Prop} (h : ∀ r, ¬ why r) :
    Explained (.ok a) why :=
  ⟨fun r => ⟨nofun, fun hr => absurd hr (h r)⟩, nofun⟩

theorem explained_refused {r : Refusal} {why : Refusal → Prop} (hr : why r)
    (only : ∀ s, why s → s = r) : Explained (.error (.refused r) : Except Failure α) why := by
  refine ⟨fun s => ⟨?_, fun hs => by rw [only s hs]⟩, nofun⟩
  intro h
  cases h
  exact hr

abbrev Succeeds (x : Drive D σ α) : Prop := Leads (fun _ => True) (fun _ => True) x

namespace Block

def Admits (b : Block D σ) (m : Memory) (line : UInt32) : Prop :=
  ∃ l, resolve line = some l ∧ l.valid = true ∧
    ∀ i ∈ [1, 9, 27, 28], (m.loadWord ((b.bank l.bank).base + l.security)).getLsbD i = true

def GateRefuses (b : Block D σ) (m : Memory) (line : UInt32) (r : Refusal) : Prop :=
  (r = .invalidLine ∧ ¬ IsLine line) ∨
    (r = .inaccessible ∧ IsLine line ∧ ¬ b.Admits m line)

variable {b : Block D σ} {m : Memory} {line : UInt32}

theorem Admits.isLine (h : b.Admits m line) : IsLine line := by
  obtain ⟨l, hl, hv, -⟩ := h
  exact ⟨l, hl, hv⟩

theorem gateRefuses_lineRefusal (h : ¬ b.Admits m line) :
    b.GateRefuses m line (lineRefusal line) := by
  unfold lineRefusal GateRefuses
  cases hv : validLine line with
  | ok l => exact Or.inr ⟨rfl, isLine_iff.mpr ⟨l, hv⟩, h⟩
  | error e =>
    refine Or.inl ⟨rfl, fun hline => ?_⟩
    obtain ⟨l, hl⟩ := isLine_iff.mp hline
    rw [hl] at hv
    cases hv

theorem GateRefuses.not_admits {r : Refusal} (h : b.GateRefuses m line r) : ¬ b.Admits m line := by
  rcases h with ⟨-, hline⟩ | ⟨-, -, ha⟩
  · exact fun ha => hline ha.isLine
  · exact ha

theorem GateRefuses.unique {r s : Refusal} (hr : b.GateRefuses m line r)
    (hs : b.GateRefuses m line s) : s = r := by
  rcases hr with ⟨rfl, hr⟩ | ⟨rfl, hr, -⟩ <;> rcases hs with ⟨rfl, hs⟩ | ⟨rfl, hs, -⟩
  · rfl
  · exact absurd hs hr
  · exact absurd hr hs
  · rfl

section Reach

variable (fits : ∀ kind, bankExtent kind ≤ (b.bank kind).size)
include fits

/-- The gate opens for just the lines it should. -/
theorem owns_iff_admits : b.owns m line = true ↔ b.Admits m line := by
  constructor
  · intro h
    obtain ⟨l, hl⟩ := b.valid_of_owns h
    rw [b.owns_of_valid m hl, grants, Bool.and_eq_true] at h
    obtain ⟨hr, hv⟩ := validLine_eq_ok.mp hl
    exact ⟨l, hr, hv, Grant.isFull_iff.mp h.2⟩
  · rintro ⟨l, hr, hv, hbits⟩
    rw [b.owns_of_valid m (validLine_eq_ok.mpr ⟨hr, hv⟩), grants,
      decide_eq_true (Bank.covers_securityWord hr (fits l.bank)), Bool.true_and]
    exact Grant.isFull_iff.mpr hbits

theorem owns_eq_false (h : ¬ b.Admits m line) : b.owns m line = false := by
  rw [← Bool.not_eq_true, owns_iff_admits fits]
  exact h

theorem read_of_valid {l : Location} (hl : validLine line = .ok l) (r : PinRegister) :
    b.read m line r = .ok (m.loadWord ((b.bank l.bank).base + l.offset r)) := by
  rw [read, hl]
  exact Bank.read_of_covers m (Bank.covers_register hl (fits l.bank) r) (offset_fits hl r)

theorem write_succeeds (hline : IsLine line) (r : PinRegister) (v : Word) :
    Succeeds (b.write line r v) := by
  intro m _
  obtain ⟨l, hl⟩ := isLine_iff.mp hline
  have covers := Bank.covers_register hl (fits l.bank) r
  exact ⟨(), _, (b.on_write hl r v m).trans (on_put_of_covers covers (offset_fits hl r) v m),
    trivial⟩

theorem modifyRegister_succeeds (hline : IsLine line) (r : PinRegister) (f : Word → Word) :
    Succeeds (b.modifyRegister line r f) := by
  intro m _
  obtain ⟨l, hl⟩ := isLine_iff.mp hline
  exact ⟨(), _, b.on_modifyRegister_of_covers hl (Bank.covers_register hl (fits l.bank) r) f m,
    trivial⟩

theorem setConfig_succeeds (hline : IsLine line) (bits : Word) (on : Bool) :
    Succeeds (b.setConfig line bits on) :=
  modifyRegister_succeeds fits hline .enableConfig _

end Reach

theorem call_succeeds (steady : b.host.Steady) (c : Call D) : Succeeds (b.host.call c) := by
  intro m _
  obtain ⟨m', hm'⟩ := Host.on_call_of_steady steady c m
  exact ⟨_, m', hm', trivial⟩

theorem notify_succeeds (n : Notice) : Succeeds (Drive.notify n : Drive D σ Unit) :=
  fun m _ => ⟨(), _, on_notify n m, trivial⟩

theorem findWake_succeeds (line : UInt32) :
    Succeeds (Wake.find line : Drive D σ (Option Nat)) := by
  unfold Wake.find
  cases Wake.indexOf? line with
  | none => exact leads_pure _
  | some wake => exact leads_bind (notify_succeeds _) fun _ => leads_pure _

def Guarded (b : Block D σ) (line : UInt32) (x : Drive D σ α) : Prop := ∀ m : Machine D σ,
  (b.owns m.memory line = false → x.on m = (.error (.refused (lineRefusal line)), m)) ∧
    (b.owns m.memory line = true → ∃ v m', x.on m = (.ok v, m'))

theorem isLine_of_owns (h : b.owns m line = true) : IsLine line :=
  isLine_iff.mpr (b.valid_of_owns h)

theorem guarded_own {f : Unit → Drive D σ α} (hf : IsLine line → Succeeds (f ())) :
    b.Guarded line (b.own line >>= f) := by
  intro m
  constructor
  · intro ho
    exact on_bind_error (b.on_own_of_not_owns ho) f
  · intro ho
    obtain ⟨v, m', hv, -⟩ := hf (isLine_of_owns ho) m trivial
    exact ⟨v, m', (on_bind_ok (b.on_own_of_owns ho) f).trans hv⟩

theorem Guarded.bind {x : Drive D σ α} {f : α → Drive D σ β} (hx : b.Guarded line x)
    (hf : IsLine line → ∀ v, Succeeds (f v)) : b.Guarded line (x >>= f) := by
  intro m
  constructor
  · intro ho
    exact on_bind_error ((hx m).1 ho) f
  · intro ho
    obtain ⟨v, m₁, hv⟩ := (hx m).2 ho
    obtain ⟨w, m₂, hw, -⟩ := hf (isLine_of_owns ho) v m₁ trivial
    exact ⟨w, m₂, (on_bind_ok hv f).trans hw⟩

theorem Guarded.done {x : Drive D σ Unit} (hx : b.Guarded line x) : b.Guarded line (Drive.done x) :=
  hx.bind fun _ _ => leads_pure _

/-- What a guarded computation answers is explained by the gate. -/
theorem Guarded.explained {x : Drive D σ α} (fits : ∀ kind, bankExtent kind ≤ (b.bank kind).size)
    (hx : b.Guarded line x) (m : Machine D σ) :
    Explained (x.on m).1 (b.GateRefuses m.memory line) := by
  by_cases ha : b.Admits m.memory line
  · obtain ⟨v, m', hv⟩ := (hx m).2 ((owns_iff_admits fits).mpr ha)
    rw [hv]
    exact explained_ok fun r hr => hr.not_admits ha
  · rw [(hx m).1 (owns_eq_false fits ha)]
    have hr := gateRefuses_lineRefusal ha
    exact explained_refused hr fun s hs => hr.unique hs

def Shown (b : Block D σ) (line : UInt32) (f : Memory → Checked α) : Prop := ∀ m,
  (b.owns m line = false → f m = .refuse (lineRefusal line)) ∧
    (b.owns m line = true → ∃ v, f m = .ok v)

theorem shown_own {g : Memory → Location → Checked α}
    (hg : ∀ m l, validLine line = .ok l → ∃ v, g m l = .ok v) :
    b.Shown line fun m => b.ownedLine m line >>= g m := by
  intro m
  constructor
  · intro ho
    simp only [b.ownedLine_of_not_owns ho]
    rfl
  · intro ho
    obtain ⟨l, hl, howned⟩ := b.ownedLine_of_owns ho
    simp only [howned]
    exact hg m l hl

theorem Shown.guarded {f : Memory → Checked α} (hf : b.Shown line f) (answer : α → Outcome) :
    b.Guarded line (Drive.look f answer : Drive D σ Outcome) := by
  intro m
  have hon := on_observe (D := D) (σ := σ) f m
  constructor
  · intro ho
    rw [(hf m.memory).1 ho] at hon
    exact on_bind_error hon _
  · intro ho
    obtain ⟨v, hv⟩ := (hf m.memory).2 ho
    rw [hv] at hon
    exact ⟨answer v, m, on_bind_ok hon _⟩

/-- With refusals forgotten, there is nothing to see of just the lines that are not admitted. -/
theorem Shown.optional {f : Memory → Checked α} (hf : b.Shown line f)
    (fits : ∀ kind, bankExtent kind ≤ (b.bank kind).size) (m : Memory) :
    ∃ s, (f m).optional = .ok s ∧ (s = none ↔ ¬ b.Admits m line) := by
  by_cases ha : b.Admits m line
  · obtain ⟨v, hv⟩ := (hf m).2 ((owns_iff_admits fits).mpr ha)
    rw [hv]
    exact ⟨some v, rfl, nofun, fun hn => absurd ha hn⟩
  · rw [(hf m).1 (owns_eq_false fits ha)]
    exact ⟨none, rfl, fun _ => ha, fun _ => rfl⟩

section Operations

variable (fits : ∀ kind, bankExtent kind ≤ (b.bank kind).size)
include fits

theorem ack_guarded : b.Guarded line (b.ack line) :=
  guarded_own fun hline => write_succeeds fits hline _ _

theorem mask_guarded : b.Guarded line (b.mask line) :=
  guarded_own fun hline => setConfig_succeeds fits hline _ _

theorem unmask_guarded : b.Guarded line (b.unmask line) :=
  guarded_own fun hline => setConfig_succeeds fits hline _ _

theorem setValue_guarded (level : Bool) : b.Guarded line (b.setValue line level) :=
  guarded_own fun hline =>
    leads_bind (write_succeeds fits hline _ _) fun _ => write_succeeds fits hline _ _

theorem getValue_shown : b.Shown line (b.getValue · line) := by
  apply shown_own
  intro m l hl
  simp only [read_of_valid fits hl, bind, Except.bind, pure, Except.pure]
  exact ⟨_, rfl⟩

theorem lineState_shown : b.Shown line (b.lineState · line) := by
  apply shown_own
  intro m l hl
  simp only [read_of_valid fits hl, bind, Except.bind, pure, Except.pure]
  exact ⟨_, rfl⟩

theorem snapshot_shown : b.Shown line (b.snapshot · line) := by
  apply shown_own
  intro m l hl
  simp only [read_of_valid fits hl, bind, Except.bind, pure, Except.pure]
  exact ⟨_, rfl⟩

variable (steady : b.host.Steady)
include steady

theorem directionInput_guarded : b.Guarded line (b.directionInput line) := by
  apply guarded_own
  intro hline
  apply leads_bind (setConfig_succeeds fits hline _ _)
  intro _
  apply leads_bind (setConfig_succeeds fits hline _ _)
  intro _
  apply leads_bind (call_succeeds steady _)
  intro reply
  -- What pin control answers is noted at most.
  cases reply with
  | ok _ => exact leads_pure _
  | error e => exact notify_succeeds _

theorem directionOutput_guarded (level : Bool) :
    b.Guarded line (b.directionOutput line level) := by
  apply (setValue_guarded fits level).bind
  intro hline _
  apply leads_bind (setConfig_succeeds fits hline _ _)
  intro _
  apply leads_bind (setConfig_succeeds fits hline _ _)
  intro _
  apply leads_bind (call_succeeds steady _)
  intro reply
  cases reply with
  | ok _ => exact leads_pure _
  | error e => exact notify_succeeds _

theorem setType_guarded (t : Trigger) : b.Guarded line (b.setType line t) := by
  apply guarded_own
  intro hline
  apply leads_bind (modifyRegister_succeeds fits hline _ _)
  intro _
  apply leads_bind (setConfig_succeeds fits hline _ _)
  intro _
  apply leads_bind (findWake_succeeds line)
  intro found
  cases found with
  | none => exact leads_pure _
  | some wake =>
    apply leads_bind (call_succeeds steady _)
    intro reply
    cases reply with
    | ok _ => exact leads_pure _
    | error e => exact leads_bind (notify_succeeds _) fun _ => leads_pure _

end Operations

end Block

namespace Operation

def Accesses (line : UInt32) : Operation D → Prop
  | read k _ | write k .. | update k .. => k = line
  | _ => False

def Gated (line : UInt32) : Operation D → Prop
  | ack k | mask k | unmask k | setType k _ | directionInput k | directionOutput k _
  | getValue k | setValue k _ => k = line
  | _ => False

end Operation

namespace Block

variable {b : Block D σ} {line : UInt32}

theorem validLine_ne_ok (hline : ¬ IsLine line) (l : Location) : validLine line ≠ .ok l :=
  fun hl => hline (isLine_iff.mpr ⟨l, hl⟩)

theorem access_invalid (hline : ¬ IsLine line) {op : Operation D} (hop : op.Accesses line)
    (m : Machine D σ) : (b.perform op).on m = (.error (.refused .invalidLine), m) := by
  have hv := validLine_ne_ok hline
  cases op with
  | read k r =>
    obtain rfl : k = line := hop
    have hon := on_observe (b.read · k r) m
    rw [read, validLine_eq_error hv] at hon
    exact on_bind_error hon _
  | write k r v =>
    obtain rfl : k = line := hop
    exact on_bind_error (b.on_write_invalid hv r v m) _
  | update k r mask v =>
    obtain rfl : k = line := hop
    exact on_bind_error (b.on_modifyRegister_invalid hv r _ m) _
  | _ => exact hop.elim

section Fits

variable (fits : ∀ kind, bankExtent kind ≤ (b.bank kind).size)
include fits

theorem access_succeeds (hline : IsLine line) {op : Operation D} (hop : op.Accesses line) :
    Succeeds (b.perform op) := by
  cases op with
  | read k r =>
    obtain rfl : k = line := hop
    obtain ⟨l, hl⟩ := isLine_iff.mp hline
    intro m _
    have hon := on_observe (b.read · k r) m
    rw [read_of_valid fits hl] at hon
    exact ⟨_, m, on_bind_ok hon _, trivial⟩
  | write k r v =>
    obtain rfl : k = line := hop
    exact leads_bind (write_succeeds fits hline r v) fun _ => leads_pure _
  | update k r mask v =>
    obtain rfl : k = line := hop
    exact leads_bind (modifyRegister_succeeds fits hline r _) fun _ => leads_pure _
  | _ => exact hop.elim

theorem access_explained {op : Operation D} (hop : op.Accesses line) (m : Machine D σ) :
    Explained ((b.perform op).on m).1 fun r => r = .invalidLine ∧ ¬ IsLine line := by
  by_cases hline : IsLine line
  · obtain ⟨v, m', hv, -⟩ := access_succeeds fits hline hop m trivial
    rw [hv]
    exact explained_ok fun r hr => hr.2 hline
  · rw [access_invalid hline hop]
    exact explained_refused ⟨rfl, hline⟩ fun s hs => hs.1

omit fits in
/-- The debounce register holds up to 255 milliseconds. -/
theorem debounceLimit_lt {usecs : UInt32} :
    Layout.debounceLimit < debounceMillis usecs ↔ 255000 < usecs.toNat := by
  simp only [Layout.debounceLimit, debounceMillis]
  omega

theorem setDebounce_explained (usecs : UInt32) (m : Machine D σ) :
    Explained ((b.setDebounce line usecs).on m).1 fun r => b.GateRefuses m.memory line r ∨
      r = .invalidArgument ∧ b.Admits m.memory line ∧ 255000 < usecs.toNat := by
  by_cases ha : b.Admits m.memory line
  · have ho := (owns_iff_admits fits).mpr ha
    unfold setDebounce
    rw [on_bind_ok (b.on_own_of_owns ho)]
    by_cases hms : Layout.debounceLimit < debounceMillis usecs
    · simp only [hms, if_true, on_refuse]
      refine explained_refused (Or.inr ⟨rfl, ha, debounceLimit_lt.mp hms⟩) ?_
      rintro s (hs | hs)
      · exact absurd ha hs.not_admits
      · exact hs.1
    · simp only [hms, if_false]
      have serve : Succeeds (b.setConfig line (PinConfig.enable ||| PinConfig.debounce) true >>=
          fun _ => b.write line .debounceThreshold (BitVec.ofNat 32 (debounceMillis usecs))) :=
        leads_bind (setConfig_succeeds fits ha.isLine _ _) fun _ =>
          write_succeeds fits ha.isLine _ _
      obtain ⟨v, m', hv, -⟩ := serve m trivial
      rw [hv]
      apply explained_ok
      rintro r (hr | ⟨-, -, hlong⟩)
      · exact hr.not_admits ha
      · exact hms (debounceLimit_lt.mpr hlong)
  · have hr := gateRefuses_lineRefusal ha
    unfold setDebounce
    rw [on_bind_error (b.on_own_of_not_owns (owns_eq_false fits ha))]
    refine explained_refused (Or.inl hr) ?_
    rintro s (hs | hs)
    · exact hr.unique hs
    · exact absurd hs.2.1 ha

variable (steady : b.host.Steady)
include steady

/-- Every reason is one to be busy; behind the gate pin control decides. -/
theorem request_explained (m : Machine D σ) :
    Explained ((b.request line).on m).1 fun r => (r = .busy ∧ ¬ b.Admits m.memory line) ∨
      b.Admits m.memory line ∧ ∃ e, r = .collaborator e ∧
        (b.host.answer (.pin (.request line)) m.world).reply = .error e := by
  unfold request
  by_cases ha : b.Admits m.memory line
  · have ho := (owns_iff_admits fits).mpr ha
    rw [on_bind_ok (on_attempt_ok (b.on_own_of_owns ho))]
    obtain ⟨m', hcall⟩ := Host.on_call_of_steady steady (.pin (.request line)) m
    simp only [callPin]
    rw [on_bind_ok hcall]
    cases hreply : (b.host.answer (.pin (.request line)) m.world).reply with
    | ok u =>
      apply explained_ok
      rintro r (hr | ⟨-, e, -, he⟩)
      · exact hr.2 ha
      · cases he
    | error e =>
      refine explained_refused (Or.inr ⟨ha, e, rfl, rfl⟩) ?_
      rintro s (hs | ⟨-, f, rfl, hf⟩)
      · exact absurd ha hs.2
      · cases hf
        rfl
  · rw [on_bind_ok (on_attempt_refused (b.on_own_of_not_owns (owns_eq_false fits ha)))]
    refine explained_refused (Or.inl ⟨rfl, ha⟩) ?_
    rintro s (hs | hs)
    · exact hs.1
    · exact absurd hs.1 ha

theorem perform_guarded {op : Operation D} (hop : op.Gated line) :
    b.Guarded line (b.perform op) := by
  cases op with
  | ack k =>
    obtain rfl : k = line := hop
    exact (ack_guarded fits).done
  | mask k =>
    obtain rfl : k = line := hop
    exact (mask_guarded fits).done
  | unmask k =>
    obtain rfl : k = line := hop
    exact (unmask_guarded fits).done
  | setType k t =>
    obtain rfl : k = line := hop
    exact (setType_guarded fits steady t).bind fun _ _ => leads_pure _
  | directionInput k =>
    obtain rfl : k = line := hop
    exact (directionInput_guarded fits steady).done
  | directionOutput k level =>
    obtain rfl : k = line := hop
    exact (directionOutput_guarded fits steady level).done
  | getValue k =>
    obtain rfl : k = line := hop
    exact (getValue_shown fits).guarded _
  | setValue k level =>
    obtain rfl : k = line := hop
    exact (setValue_guarded fits level).done
  | _ => exact hop.elim

end Fits

/-- On a probed block, with a domain or without, an access is refused exactly for a line that does
not exist, and an operation behind the gate exactly for that or a grant its security word lacks. A
debounce window may also be too long, and a request is busy or as pin control answers. Looks show
nothing of just the lines that are not admitted. Nothing overflows. -/
theorem Stands.refusals_explained {main aon : Bank} (h : b.Stands main aon)
    (steady : b.host.Steady) (m : Machine D σ) (line : UInt32) :
    (∀ op : Operation D, op.Accesses line →
      Explained ((b.perform op).on m).1 fun r => r = .invalidLine ∧ ¬ IsLine line) ∧
    (∃ v, b.isAccessible m.memory line = .ok v ∧ (v = true ↔ b.Admits m.memory line)) ∧
    (∀ op : Operation D, op.Gated line →
      Explained ((b.perform op).on m).1 (b.GateRefuses m.memory line)) ∧
    (∀ usecs, Explained ((b.setDebounce line usecs).on m).1 fun r =>
      b.GateRefuses m.memory line r ∨
        r = .invalidArgument ∧ b.Admits m.memory line ∧ 255000 < usecs.toNat) ∧
    (Explained ((b.request line).on m).1 fun r => (r = .busy ∧ ¬ b.Admits m.memory line) ∨
      b.Admits m.memory line ∧ ∃ e, r = .collaborator e ∧
        (b.host.answer (.pin (.request line)) m.world).reply = .error e) ∧
    (∃ s, b.isEnabled m.memory line = .ok s ∧ (s = none ↔ ¬ b.Admits m.memory line)) ∧
    ∃ s, b.readRegisters m.memory line = .ok s ∧ (s = none ↔ ¬ b.Admits m.memory line) := by
  have fits := h.fits
  refine ⟨fun op hop => access_explained fits hop m, ?_, fun op hop => ?_,
    fun usecs => setDebounce_explained fits usecs m, request_explained fits steady m,
    (lineState_shown fits).optional fits m.memory, (snapshot_shown fits).optional fits m.memory⟩
  · exact ⟨_, b.isAccessible_eq m.memory line, owns_iff_admits fits⟩
  · exact (perform_guarded fits steady hop).explained fits m

end Block

open Simulation in
/-- On zeroed memory line 0 exists and is granted nothing: driving it through a block with a domain
is refused as inaccessible. -/
theorem bench_refusals_explained :
    let b := Fixture.start.probed.withDomain 0
    b.Stands Fixture.start.main Fixture.start.aon ∧ b.host.Steady ∧ b.domain = some 0 ∧
    ((b.perform (.directionOutput 0 true)).on
      (.start Fixture.start.memory Fixture.start.world)).1 = .error (.refused .inaccessible) := by
  intro b
  have stands : b.Stands Fixture.start.main Fixture.start.aon := Fixture.start_stands.attached 0
  have steady : b.host.Steady := Host.steady_of_quiet (Fixture.hostFor_quiet none none)
  have withheld : ¬ b.Admits Fixture.start.memory 0 := by
    rintro ⟨l, -, -, hbits⟩
    have hbit := hbits 1 (by decide)
    simp [Fixture.start, Memory.loadWord, Memory.load, Memory.byte_ofInitial, Width.bytes] at hbit
  have line : IsLine 0 := ⟨_, rfl, rfl⟩
  have hout := Block.Stands.refusals_explained stands steady
    (.start Fixture.start.memory Fixture.start.world) 0
  have hrefused := (hout.2.2.1 (.directionOutput 0 true) rfl).1 .inaccessible
  exact ⟨stands, steady, rfl, hrefused.mpr (Or.inr ⟨rfl, line, withheld⟩)⟩

end Gpio
