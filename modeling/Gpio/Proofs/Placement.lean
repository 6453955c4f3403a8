import Gpio.Gate

/-!
# Where the words of a bank are

The port table places security words, pin registers and interrupt status
words. All are aligned and below the bank's extent, pin registers are apart
from each other and from the two other kinds. What the table itself has to
give is checked entry by entry; the rest is arithmetic on pins.
-/

set_option autoImplicit false

namespace Gpio

/-- Security words lie below this offset, and all that an owned port has lies above it. -/
def BankKind.dataStart : BankKind → Nat
  | main => Layout.mainRegisters
  | aon => Layout.aonRegisters

theorem dataStart_le_extent (k : BankKind) : k.dataStart ≤ bankExtent k := by
  cases k <;> decide

theorem bankExtent_lt (k : BankKind) : bankExtent k < addressLimit := by
  cases k <;> decide

theorem port_security : ∀ p ∈ ports,
    p.security % 4 = 0 ∧ p.security + Layout.securityPortStride ≤ p.bank.dataStart := by
  decide

theorem port_registers : ∀ p ∈ ports, p.controller.isSome = true →
    p.registers % 4 = 0 ∧ p.bank.dataStart ≤ p.registers ∧ p.pins ≤ Layout.pinsPerPort := by
  decide

theorem port_status : ∀ p ∈ ports,
    p.statusOffset % 4 = 0 ∧ p.statusOffset + 4 ≤ bankExtent p.bank := by
  decide

/-- A port without an owner has its status word among the security words. -/
theorem hole_status :
    ∀ p ∈ ports, p.controller.isSome = true ∨ p.statusOffset < p.bank.dataStart := by
  decide

theorem ports_apart : ports.Pairwise fun p q =>
    p.controller.isSome = true → q.controller.isSome = true → p.bank = q.bank →
      p.registers + Layout.portStride ≤ q.registers ∨
        q.registers + Layout.portStride ≤ p.registers := by
  decide

theorem same_port {i j : Nat} {p q : Port} (hi : ports[i]? = some p) (hj : ports[j]? = some q)
    (hp : p.controller.isSome = true) (hq : q.controller.isSome = true) (hb : p.bank = q.bank)
    (hpq : p.registers < q.registers + Layout.portStride)
    (hqp : q.registers < p.registers + Layout.portStride) : i = j := by
  obtain ⟨hi', rfl⟩ := List.getElem?_eq_some_iff.mp hi
  obtain ⟨hj', rfl⟩ := List.getElem?_eq_some_iff.mp hj
  have hall := List.pairwise_iff_getElem.mp ports_apart
  rcases Nat.lt_trichotomy i j with h | h | h
  · have := hall i j hi' hj' h hp hq hb
    omega
  · exact h
  · have := hall j i hj' hi' h hq hp hb.symm
    omega

theorem resolve_eq_some {line : UInt32} {l : Location} : resolve line = some l ↔
    ∃ p, ports[line.toNat / Layout.pinsPerPort]? = some p ∧
      p.locate (line.toNat / Layout.pinsPerPort) (line.toNat % Layout.pinsPerPort) = l :=
  Option.map_eq_some_iff

theorem validLine_eq_ok {line : UInt32} {l : Location} :
    validLine line = .ok l ↔ resolve line = some l ∧ l.valid = true := by
  unfold validLine
  cases resolve line with
  | none => simp [Checked.refuse]
  | some k =>
    by_cases hk : k.valid = true
    · simp only [hk, if_true, Except.ok.injEq, Option.some.injEq]
      exact ⟨fun h => ⟨h, h ▸ hk⟩, fun h => h.1⟩
    · simp only [hk, if_false, Checked.refuse, reduceCtorEq, Option.some.injEq, false_iff]
      rintro ⟨rfl, h⟩
      exact hk h

theorem validLine_eq_error {line : UInt32} (h : ∀ l, validLine line ≠ .ok l) :
    validLine line = .refuse .invalidLine := by
  unfold validLine at h ⊢
  cases hr : resolve line with
  | none => rfl
  | some k =>
    by_cases hk : k.valid = true
    · exact absurd (by simp [hr, hk]) (h k)
    · simp [hk]

theorem validLine_port {line : UInt32} {l : Location} (h : validLine line = .ok l) :
    ∃ p, ports[line.toNat / Layout.pinsPerPort]? = some p ∧ p.controller.isSome = true ∧
      line.toNat % Layout.pinsPerPort < p.pins ∧
      l = p.locate (line.toNat / Layout.pinsPerPort) (line.toNat % Layout.pinsPerPort) := by
  obtain ⟨hr, hv⟩ := validLine_eq_ok.mp h
  obtain ⟨p, hp, rfl⟩ := resolve_eq_some.mp hr
  simp only [Port.locate, Bool.and_eq_true, decide_eq_true_eq] at hv
  exact ⟨p, hp, hv.1, hv.2, rfl⟩

theorem mem_lines {line : UInt32} {l : Location} (h : validLine line = .ok l) : line ∈ lines := by
  obtain ⟨p, hp, -⟩ := validLine_port h
  have hport := (List.getElem?_eq_some_iff.mp hp).1
  rw [length_ports] at hport
  simp only [Layout.portCount, Layout.pinsPerPort] at hport
  refine List.mem_map.mpr ⟨line.toNat, List.mem_range.mpr ?_, UInt32.ofNat_toNat⟩
  simp only [Layout.lineCount, Layout.portCount, Layout.pinsPerPort]
  omega

theorem port_lt {port : Nat} {p : Port} (hp : ports[port]? = some p) : port < 32 :=
  (List.getElem?_eq_some_iff.mp hp).1

section LinesOfPins

variable {port pin : Nat}

theorem lineOf_toNat (hport : port < 32) (hpin : pin < 8) :
    (lineOf port pin).toNat = port * 8 + pin := by
  have hsize : UInt32.size = 4294967296 := rfl
  exact UInt32.toNat_ofNat_of_lt' (show port * 8 + pin < UInt32.size by omega)

theorem lineOf_lt (hport : port < 32) (hpin : pin < 8) : lineOf port pin < 256 := by
  rw [UInt32.lt_iff_toNat_lt, lineOf_toNat hport hpin]
  show port * 8 + pin < 256
  omega

/-- No two pins have one line. -/
theorem lineOf_injective {port' pin' : Nat} (hport : port < 32) (hpin : pin < 8)
    (hport' : port' < 32) (hpin' : pin' < 8) (h : lineOf port pin = lineOf port' pin') :
    port = port' ∧ pin = pin' := by
  have hn : port * 8 + pin = port' * 8 + pin' := by
    rw [← lineOf_toNat hport hpin, ← lineOf_toNat hport' hpin', h]
  omega

end LinesOfPins

theorem register_offset (r : PinRegister) : r.offset % 4 = 0 ∧ r.offset < Layout.pinStride := by
  cases r <;> decide

theorem security_place {line : UInt32} {l : Location} (h : resolve line = some l) :
    l.security % 4 = 0 ∧ l.security + 4 ≤ l.bank.dataStart := by
  obtain ⟨p, hp, rfl⟩ := resolve_eq_some.mp h
  have hs := port_security p (List.mem_of_getElem? hp)
  simp only [Port.locate, Layout.securityPortStride, Layout.securityPinStride,
    Layout.securityWord, Layout.pinsPerPort] at hs ⊢
  omega

theorem offset_place {line : UInt32} {l : Location} (h : validLine line = .ok l)
    (r : PinRegister) : l.offset r % 4 = 0 ∧ l.bank.dataStart ≤ l.offset r := by
  obtain ⟨p, hp, hc, -, rfl⟩ := validLine_port h
  have ht := port_registers p (List.mem_of_getElem? hp) hc
  have hr := register_offset r
  simp only [Port.locate, Location.offset, Layout.pinStride] at ht hr ⊢
  omega

theorem offset_lt_extent {line : UInt32} {l : Location} (h : validLine line = .ok l)
    (r : PinRegister) : l.offset r + 4 ≤ bankExtent l.bank := by
  obtain ⟨p, hp, -, -, rfl⟩ := validLine_port h
  have hs := port_status p (List.mem_of_getElem? hp)
  have hr := register_offset r
  simp only [Port.locate, Port.statusOffset, Location.offset, Layout.pinStride,
    Layout.pinsPerPort, Layout.statusRegion, Layout.statusWord] at hs hr ⊢
  omega

theorem offset_injective {a b : UInt32} {l k : Location} {r s : PinRegister}
    (ha : validLine a = .ok l) (hb : validLine b = .ok k) (hbank : l.bank = k.bank)
    (ho : l.offset r = k.offset s) : a = b ∧ r = s := by
  obtain ⟨p, hp, hpc, -, rfl⟩ := validLine_port ha
  obtain ⟨q, hq, hqc, -, rfl⟩ := validLine_port hb
  have hr := register_offset r
  have hs := register_offset s
  simp only [Port.locate, Location.offset, Layout.pinStride, Layout.pinsPerPort] at *
  have hport := same_port hp hq hpc hqc hbank (by simp only [Layout.portStride]; omega)
    (by simp only [Layout.portStride]; omega)
  rw [hport, hq] at hp
  cases hp
  have hro : r.offset = s.offset := by omega
  exact ⟨UInt32.toNat_inj.mp (by omega), PinRegister.offset_injective hro⟩

theorem security_ne_offset {a b : UInt32} {l k : Location} (ha : resolve a = some l)
    (hb : validLine b = .ok k) (hbank : l.bank = k.bank) (r : PinRegister) :
    l.security ≠ k.offset r := by
  have hs := (security_place ha).2
  have ho := (offset_place hb r).2
  rw [hbank] at hs
  omega

theorem status_ne_offset {p : Port} {b : UInt32} {k : Location} (hp : p ∈ ports)
    (hb : validLine b = .ok k) (hbank : p.bank = k.bank) (r : PinRegister) :
    p.statusOffset ≠ k.offset r := by
  intro h
  have ho := (offset_place hb r).2
  rcases hole_status p hp with hc | hhole
  · obtain ⟨q, hq, hqc, -, rfl⟩ := validLine_port hb
    obtain ⟨i, hi⟩ := List.getElem?_of_mem hp
    have hr := register_offset r
    simp only [Port.locate, Port.statusOffset, Location.offset, Layout.pinStride,
      Layout.pinsPerPort, Layout.statusRegion, Layout.statusWord] at *
    have hport := same_port hi hq hc hqc hbank (by simp only [Layout.portStride]; omega)
      (by simp only [Layout.portStride]; omega)
    rw [hport, hq] at hi
    cases hi
    have hlast : r.offset ≤ 0x14 := by cases r <;> decide
    omega
  · rw [hbank] at hhole
    omega

end Gpio
