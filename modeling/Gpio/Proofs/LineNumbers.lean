import Gpio.Proofs.Placement

/-!
# Line numbers

A line number and a place in the port space determine each other as far as
the port table goes. Beyond it a port has no lines, up to port `2 ^ 29`: from
there on the number does not fit 32 bits, and the port is taken for the one
that its low 29 bits name.
-/

set_option autoImplicit false

namespace Gpio

def portPeriod : Nat := 0x20000000

theorem resolve_place {line : UInt32} {l : Location} (h : resolve line = some l) :
    l.port = line.toNat / 8 ∧ l.pin = line.toNat % 8 := by
  obtain ⟨p, -, rfl⟩ := resolve_eq_some.mp h
  exact ⟨rfl, rfl⟩

theorem resolve_eq_none_iff {line : UInt32} : resolve line = none ↔ 256 ≤ line.toNat := by
  rw [resolve, Option.map_eq_none_iff, List.getElem?_eq_none_iff, length_ports]
  simp only [Layout.pinsPerPort, Layout.portCount]
  omega

theorem resolve_isSome_iff {line : UInt32} : (resolve line).isSome = true ↔ line < 256 := by
  rw [Option.isSome_iff_ne_none, Ne, resolve_eq_none_iff, UInt32.lt_iff_toNat_lt]
  exact Nat.not_le

variable {port pin : Nat}

theorem lineNumber_of_lt (h : port * 8 + pin < addressLimit) :
    lineNumber port pin = .ok (lineOf port pin) := by
  have hstart : port * Layout.pinsPerPort < addressLimit := by
    simp only [Layout.pinsPerPort]
    omega
  rw [lineNumber, checkedMul, if_pos hstart]
  show (checkedAdd (port * 8) pin >>= fun n => pure (UInt32.ofNat n)) = _
  rw [checkedAdd_of_lt h]
  rfl

/-- A place whose number does not fit 64 bits has no line. -/
theorem lineNumber_overflow (h : addressLimit ≤ port * 8 + pin) :
    ∃ o, lineNumber port pin = .error (.overflow o) := by
  rw [lineNumber, checkedMul]
  by_cases hstart : port * Layout.pinsPerPort < addressLimit
  · rw [if_pos hstart]
    show ∃ o, (checkedAdd (port * 8) pin >>= fun n => pure (UInt32.ofNat n)) = _
    rw [checkedAdd, if_neg (Nat.not_lt.mpr h)]
    exact ⟨.add, rfl⟩
  · rw [if_neg hstart]
    exact ⟨.mul, rfl⟩

theorem lineNumber_eq_ok {n : UInt32} :
    lineNumber port pin = .ok n ↔ port * 8 + pin < addressLimit ∧ n = lineOf port pin := by
  constructor
  · intro h
    by_cases hfit : port * 8 + pin < addressLimit
    · rw [lineNumber_of_lt hfit] at h
      exact ⟨hfit, (Except.ok.inj h).symm⟩
    · obtain ⟨o, ho⟩ := lineNumber_overflow (Nat.not_lt.mp hfit)
      rw [ho] at h
      cases h
  · rintro ⟨hfit, rfl⟩
    exact lineNumber_of_lt hfit

/-- The numbers of all pins of a port fit, or of none. -/
theorem lineNumber_succeeds_iff (hpin : pin < 8) :
    (∃ n, lineNumber port pin = .ok n) ↔ port * 8 < addressLimit := by
  constructor
  · rintro ⟨n, hn⟩
    have hfit := (lineNumber_eq_ok.mp hn).1
    omega
  · intro hport
    refine ⟨_, lineNumber_of_lt ?_⟩
    simp only [addressLimit] at hport ⊢
    omega

/-- A place that was found has the line it was found under. -/
theorem lineNumber_resolve {line : UInt32} {l : Location} (h : resolve line = some l) :
    lineNumber l.port l.pin = .ok line := by
  obtain ⟨hport, hpin⟩ := resolve_place h
  have hn : l.port * 8 + l.pin = line.toNat := by omega
  have hfit : line.toNat < addressLimit :=
    Nat.lt_trans line.toNat_lt (by decide)
  refine lineNumber_eq_ok.mpr ⟨hn ▸ hfit, ?_⟩
  show line = UInt32.ofNat (l.port * 8 + l.pin)
  rw [hn, UInt32.ofNat_toNat]

/-- The number keeps its low 32 bits, and so the port its low 29. -/
theorem lineOf_toNat_mod (hpin : pin < 8) :
    (lineOf port pin).toNat = port % portPeriod * 8 + pin := by
  rw [lineOf, UInt32.toNat_ofNat']
  simp only [Layout.pinsPerPort, portPeriod]
  omega

theorem resolve_lineOf_eq_none_iff (hpin : pin < 8) :
    resolve (lineOf port pin) = none ↔ 32 ≤ port % portPeriod := by
  rw [resolve_eq_none_iff, lineOf_toNat_mod hpin]
  omega

theorem resolve_lineOf_place (hpin : pin < 8) {l : Location}
    (h : resolve (lineOf port pin) = some l) : l.port = port % portPeriod ∧ l.pin = pin := by
  have hl := resolve_place h
  rw [lineOf_toNat_mod hpin] at hl
  omega

theorem resolve_lineOf_of_lt (hport : port < 32) (hpin : pin < 8) :
    ∃ l, resolve (lineOf port pin) = some l ∧ l.port = port ∧ l.pin = pin := by
  have hmod : port % portPeriod = port :=
    Nat.mod_eq_of_lt (Nat.lt_trans hport (by decide))
  obtain ⟨l, hl⟩ : ∃ l, resolve (lineOf port pin) = some l := by
    apply Option.ne_none_iff_exists'.mp
    rw [Ne, resolve_lineOf_eq_none_iff hpin, hmod]
    omega
  have hplace := resolve_lineOf_place hpin hl
  rw [hmod] at hplace
  exact ⟨l, hl, hplace⟩

theorem resolve_lineOf_eq_none (hlo : 32 ≤ port) (hhi : port < portPeriod) (hpin : pin < 8) :
    resolve (lineOf port pin) = none := by
  rw [resolve_lineOf_eq_none_iff hpin, Nat.mod_eq_of_lt hhi]
  exact hlo

/-- A line has a place just when it is below 256, and the line of that place is the line. The
other way round, a pin has a number just when the port's first number fits 64 bits; then a port
of the table is found again under it, and any other port has no line under it as far as port
`2 ^ 29`. In general what is found is the port that the low 29 bits name, if there is one. -/
theorem line_numbers_resolve (line : UInt32) (port : Nat) {pin : Nat} (hpin : pin < 8) :
    ((resolve line).isSome = true ↔ line < 256) ∧
    (∀ l, resolve line = some l → l.pin < 8 ∧ lineNumber l.port l.pin = .ok line) ∧
    ((∃ n, lineNumber port pin = .ok n) ↔ port * 8 < addressLimit) ∧
    ∀ n, lineNumber port pin = .ok n →
      (port < 32 → ∃ l, resolve n = some l ∧ l.port = port ∧ l.pin = pin) ∧
      (32 ≤ port → port < portPeriod → resolve n = none) ∧
      (resolve n = none ↔ 32 ≤ port % portPeriod) ∧
      ∀ l, resolve n = some l → l.port = port % portPeriod ∧ l.pin = pin := by
  refine ⟨resolve_isSome_iff, fun l hl => ⟨?_, lineNumber_resolve hl⟩,
    lineNumber_succeeds_iff hpin, fun n hn => ?_⟩
  · have hplace := (resolve_place hl).2
    omega
  · obtain ⟨-, rfl⟩ := lineNumber_eq_ok.mp hn
    exact ⟨fun hport => resolve_lineOf_of_lt hport hpin,
      fun hlo hhi => resolve_lineOf_eq_none hlo hhi hpin,
      resolve_lineOf_eq_none_iff hpin, fun l hl => resolve_lineOf_place hpin hl⟩

/-- The last pin of the port table is line 255; the pin after it has a number and no line. -/
theorem last_line_resolves :
    (resolve 255).isSome = true ∧ 7 < 8 ∧ lineNumber 31 7 = .ok 255 ∧
      (∃ l, resolve 255 = some l ∧ l.port = 31 ∧ l.pin = 7) ∧
      0 < 8 ∧ lineNumber 32 0 = .ok 256 ∧ resolve 256 = none := by
  have hlast : lineNumber 31 7 = .ok 255 := rfl
  have hnext : lineNumber 32 0 = .ok 256 := rfl
  obtain ⟨hline, -, -, last⟩ := line_numbers_resolve 255 31 (show 7 < 8 by decide)
  obtain ⟨-, -, -, next⟩ := line_numbers_resolve 256 32 (show 0 < 8 by decide)
  exact ⟨hline.mpr (by decide), by decide, hlast, (last _ hlast).1 (by decide), by decide, hnext,
    (next _ hnext).2.1 (by decide) (by decide)⟩

/-- Port `2 ^ 29` is not in the table, and its first pin has the number of line 0. -/
theorem distant_port_has_line :
    32 ≤ portPeriod ∧ portPeriod < addressLimit ∧ lineNumber portPeriod 0 = .ok 0 ∧
      resolve 0 ≠ none := by
  refine ⟨by decide, by decide, rfl, ?_⟩
  rw [Ne, resolve_eq_none_iff]
  decide

end Gpio
