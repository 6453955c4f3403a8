import Gpio.Proofs.LineWords

/-!
# Register addresses

On a probed block whose banks end inside the address space every register of
a line that exists has an address, and an access to the register touches the
word there. Addresses rise with pins and registers within a port, and if the
banks do not overlap no two registers share one.
-/

set_option autoImplicit false

namespace Gpio

open Drive

variable {D σ : Type}

structure Machine.Stored (m : Machine D σ) (a : Nat) (v : Word)
    (out : Except Failure Unit × Machine D σ) : Prop where
  done : out.1 = .ok ()
  word : out.2.memory.loadWord a = v
  rest : ∀ c, ¬ (a ≤ c ∧ c < a + 4) → out.2.memory.byte c = m.memory.byte c
  world : out.2.world = m.world
  trace : out.2.trace.toList = m.trace.toList ++ [.store a v]

theorem Machine.stored (m : Machine D σ) (a : Nat) (v : Word) :
    m.Stored a v (.ok (), m.record (.store a v)) :=
  ⟨rfl, m.memory.loadWord_storeWord a v, fun _ => Memory.byte_storeWord_of_out v,
    m.world_record _, Array.toList_push⟩

namespace Block

variable {b : Block D σ} {x y : UInt32} {l k : Location} {r s : PinRegister}

theorem registerAddress_invalid {line : UInt32} (hline : ¬ IsLine line) (r : PinRegister) :
    b.registerAddress line r = .refuse .invalidLine := by
  unfold registerAddress
  rw [validLine_eq_error (validLine_ne_ok hline)]
  rfl

/-- Within a port, addresses rise with the pin and then with the register. -/
theorem place_lt_place (hx : validLine x = .ok l) (hy : validLine y = .ok k)
    (hport : l.port = k.port) (h : l.pin < k.pin ∨ l.pin = k.pin ∧ r.offset < s.offset) :
    b.place l r < b.place k s := by
  obtain ⟨p, hp, -, -, rfl⟩ := validLine_port hx
  obtain ⟨q, hq, -, -, rfl⟩ := validLine_port hy
  obtain rfl : p = q := Option.some.inj (hp.symm.trans ((congrArg (ports[·]?) hport).trans hq))
  have hr := (register_offset r).2
  simp only [place, Port.locate, Location.offset, Layout.pinStride] at h hr ⊢
  omega

section Fits

variable (fits : ∀ kind, bankExtent kind ≤ (b.bank kind).size)
include fits

theorem place_injective (apart : (b.bank .main).Apart (b.bank .aon)) (hx : validLine x = .ok l)
    (hy : validLine y = .ok k) (h : b.place l r = b.place k s) : x = y ∧ r = s := by
  have hl := Bank.covers_register hx (fits l.bank) r
  have hk := Bank.covers_register hy (fits k.bank) s
  by_cases hsame : l.bank = k.bank ∧ l.offset r = k.offset s
  · exact offset_injective hx hy hsame.1 hsame.2
  · have := words_apart apart hl hk hsame
    simp only [place] at h
    omega

variable (room : ∀ kind, (b.bank kind).base + (b.bank kind).size ≤ addressLimit)
include room

theorem registerAddress_of_valid (hl : validLine x = .ok l) (r : PinRegister) :
    b.registerAddress x r = .ok (b.place l r) := by
  have inside := (Bank.covers_register hl (fits l.bank) r).2
  have limit := room l.bank
  unfold registerAddress
  rw [hl]
  exact checkedAdd_of_lt (by omega)

theorem registerAddress_explained (line : UInt32) (r : PinRegister) :
    Explained (b.registerAddress line r) fun e => e = .invalidLine ∧ ¬ IsLine line := by
  by_cases hline : IsLine line
  · obtain ⟨l, hl⟩ := isLine_iff.mp hline
    rw [registerAddress_of_valid fits room hl]
    exact explained_ok fun e he => he.2 hline
  · rw [registerAddress_invalid hline]
    exact explained_refused ⟨rfl, hline⟩ fun e he => he.1

theorem valid_of_registerAddress {a : Nat} (h : b.registerAddress x r = .ok a) :
    ∃ l, validLine x = .ok l ∧ a = b.place l r := by
  by_cases hline : IsLine x
  · obtain ⟨l, hl⟩ := isLine_iff.mp hline
    rw [registerAddress_of_valid fits room hl] at h
    exact ⟨l, hl, (Except.ok.inj h).symm⟩
  · rw [registerAddress_invalid hline] at h
    cases h

end Fits

/-- For a probed block whose banks end inside the address space, asking for the address of a
register is refused just for a line that does not exist. For one that does, it is the base of the
line's bank and an aligned offset inside the bank, and reading, writing and updating the register
touch the word there and no other. Within a port addresses rise with the pin and then with the
register; if the banks do not overlap, no two registers of lines have one address. -/
theorem Stands.registers_addressed {main aon : Bank} (h : b.Stands main aon)
    (hmain : main.base + main.size ≤ addressLimit) (haon : aon.base + aon.size ≤ addressLimit) :
    (∀ line r, Explained (b.registerAddress line r) fun e => e = .invalidLine ∧ ¬ IsLine line) ∧
    (∀ line l r, resolve line = some l → l.valid = true →
      let k := bankPair main aon l.bank
      let o := l.offset r
      b.registerAddress line r = .ok (k.base + o) ∧ o % 4 = 0 ∧ o + 4 ≤ k.size ∧
      (∀ n, b.read n line r = .ok (n.loadWord (k.base + o))) ∧
      (∀ (m : Machine D σ) v, m.Stored (k.base + o) v ((b.write line r v).on m)) ∧
      ∀ (m : Machine D σ) mask v,
        m.Stored (k.base + o) ((m.memory.loadWord (k.base + o) &&& ~~~mask) ||| (v &&& mask))
          ((b.update line r mask v).on m)) ∧
    (∀ x y l k r s a c, resolve x = some l → resolve y = some k → l.port = k.port →
      (l.pin < k.pin ∨ l.pin = k.pin ∧ r.offset < s.offset) →
        b.registerAddress x r = .ok a → b.registerAddress y s = .ok c → a < c) ∧
    (main.Apart aon → ∀ x y r s a, b.registerAddress x r = .ok a →
      b.registerAddress y s = .ok a → x = y ∧ r = s) := by
  have fits := h.fits
  have room : ∀ kind, (b.bank kind).base + (b.bank kind).size ≤ addressLimit := by
    rw [h.bank_eq]
    intro kind
    cases kind with
    | main => exact hmain
    | aon => exact haon
  refine ⟨registerAddress_explained fits room, ?_, ?_, ?_⟩
  · intro line l r hl hv
    have valid := validLine_eq_ok.mpr ⟨hl, hv⟩
    rw [← h.bank_eq]
    have covers := Bank.covers_register valid (fits l.bank) r
    refine ⟨registerAddress_of_valid fits room valid r, covers.1, covers.2,
      fun n => read_of_valid fits valid r, fun m v => ?_, fun m mask v => ?_⟩
    · rw [on_write_of_fits fits valid]
      exact m.stored _ v
    · rw [update, on_modifyRegister_of_fits fits valid]
      exact m.stored _ _
  · intro x y l k r s a c hl hk hport hlex ha hc
    obtain ⟨l', hx, rfl⟩ := valid_of_registerAddress fits room ha
    obtain ⟨k', hy, rfl⟩ := valid_of_registerAddress fits room hc
    obtain rfl : l = l' := Option.some.inj (hl.symm.trans (validLine_eq_ok.mp hx).1)
    obtain rfl : k = k' := Option.some.inj (hk.symm.trans (validLine_eq_ok.mp hy).1)
    exact place_lt_place hx hy hport hlex
  · intro apart x y r s a ha hc
    obtain ⟨l, hx, rfl⟩ := valid_of_registerAddress fits room ha
    obtain ⟨k, hy, heq⟩ := valid_of_registerAddress fits room hc
    have banks : (b.bank .main).Apart (b.bank .aon) := by
      rw [h.bank_eq]
      exact apart
    exact place_injective fits banks hx hy heq

end Block

open Simulation in
/-- Line 0 is in the main bank: its configuration is at offset 0x12000, and a write to it is one
store there. No other register has that address. -/
theorem bench_registers_addressed :
    let b := Fixture.start.probed
    let a := Fixture.start.main.base + 0x12000
    let m : Machine Nat World := .start Fixture.start.memory Fixture.start.world
    b.Stands Fixture.start.main Fixture.start.aon ∧
    Fixture.start.main.base + Fixture.start.main.size ≤ addressLimit ∧
    Fixture.start.aon.base + Fixture.start.aon.size ≤ addressLimit ∧
    Fixture.start.main.Apart Fixture.start.aon ∧
    b.registerAddress 0 .enableConfig = .ok a ∧
    m.Stored a 0x21 ((b.write 0 .enableConfig 0x21).on m) ∧
    ∀ line r, b.registerAddress line r = .ok a → line = 0 ∧ r = .enableConfig := by
  intro b a m
  have hmain : Fixture.start.main.base + Fixture.start.main.size ≤ addressLimit := by decide
  have haon : Fixture.start.aon.base + Fixture.start.aon.size ≤ addressLimit := by decide
  obtain ⟨-, placed, -, unique⟩ := Block.Stands.registers_addressed Fixture.start_stands hmain haon
  obtain ⟨address, -, -, -, writes, -⟩ := placed 0 _ .enableConfig rfl rfl
  exact ⟨Fixture.start_stands, hmain, haon, Fixture.start_apart, address, writes m 0x21,
    fun line r hr => unique Fixture.start_apart _ _ _ _ _ hr address⟩

end Gpio
