import Gpio.Bitfield
import Gpio.Proofs.Placement

/-!
# Words of a device

Banks that do not overlap keep their words apart, whatever their sizes. A
`Device` is a pair of such banks with room for the whole port table: there
every register, security word and status word is in reach. Memory changes
are `Confined` when the block makes them in pin registers of existing lines
only.
-/

set_option autoImplicit false

namespace Gpio

namespace Bank

def Holds (k : Bank) (a : Nat) : Prop := k.base ≤ a ∧ a < k.base + k.size

def Apart (k j : Bank) : Prop := k.base + k.size ≤ j.base ∨ j.base + j.size ≤ k.base

theorem check_of_covers {k : Bank} {o : Nat} (h : k.Covers o) (ho : o + 4 < addressLimit) :
    k.check o = .ok () := by
  rw [check_eq k ho, if_pos h]

theorem check_of_not_covers {k : Bank} {o : Nat} (h : ¬ k.Covers o)
    (ho : o + 4 < addressLimit) : k.check o = .refuse .invalidLine := by
  rw [check_eq k ho, if_neg h]

theorem read_of_covers {k : Bank} {o : Nat} (m : Memory) (h : k.Covers o)
    (ho : o + 4 < addressLimit) : k.read m o = .ok (m.loadWord (k.base + o)) := by
  rw [read, check_of_covers h ho]
  rfl

theorem read_of_not_covers {k : Bank} {o : Nat} (m : Memory) (h : ¬ k.Covers o)
    (ho : o + 4 < addressLimit) : k.read m o = .refuse .invalidLine := by
  rw [read, check_of_not_covers h ho]
  rfl

theorem covers_register {k : Bank} {line : UInt32} {l : Location} (h : validLine line = .ok l)
    (fits : bankExtent l.bank ≤ k.size) (r : PinRegister) : k.Covers (l.offset r) :=
  ⟨(offset_place h r).1, Nat.le_trans (offset_lt_extent h r) fits⟩

theorem covers_securityWord {k : Bank} {line : UInt32} {l : Location} (h : resolve line = some l)
    (fits : bankExtent l.bank ≤ k.size) : k.Covers l.security := by
  obtain ⟨ha, hs⟩ := security_place h
  exact ⟨ha, Nat.le_trans hs (Nat.le_trans (dataStart_le_extent l.bank) fits)⟩

theorem covers_statusWord {k : Bank} {p : Port} (h : p ∈ ports)
    (fits : bankExtent p.bank ≤ k.size) : k.Covers p.statusOffset := by
  obtain ⟨ha, hs⟩ := port_status p h
  exact ⟨ha, Nat.le_trans hs fits⟩

theorem holds_of_covers {k : Bank} {o a : Nat} (h : k.Covers o) (ha : k.base + o ≤ a)
    (hb : a < k.base + o + 4) : k.Holds a := by
  obtain ⟨-, hs⟩ := h
  constructor <;> omega

end Bank

/-- Two different words of banks that do not overlap share no byte. -/
theorem words_apart {bank : BankKind → Bank} (apart : (bank .main).Apart (bank .aon))
    {k j : BankKind} {o p : Nat} (ho : (bank k).Covers o) (hp : (bank j).Covers p)
    (hne : ¬ (k = j ∧ o = p)) :
    (bank j).base + p + 4 ≤ (bank k).base + o ∨ (bank k).base + o + 4 ≤ (bank j).base + p := by
  obtain ⟨hoa, hos⟩ := ho
  obtain ⟨hpa, hps⟩ := hp
  unfold Bank.Apart at apart
  cases k <;> cases j <;>
    simp only [reduceCtorEq, true_and, false_and, not_false_eq_true] at hne <;>
    omega

structure Device where
  bank : BankKind → Bank
  apart : (bank .main).Apart (bank .aon)
  fits : ∀ k, bankExtent k ≤ (bank k).size
  /-- The bytes the surroundings write. -/
  foreign : Nat → Prop
  clear : ∀ k a, (bank k).Holds a → ¬ foreign a

namespace Device

def address (dev : Device) (l : Location) (r : PinRegister) : Nat :=
  (dev.bank l.bank).base + l.offset r

def register (dev : Device) (m : Memory) (l : Location) (r : PinRegister) : Word :=
  m.loadWord (dev.address l r)

def security (dev : Device) (m : Memory) (l : Location) : Word :=
  m.loadWord ((dev.bank l.bank).base + l.security)

def status (dev : Device) (m : Memory) (p : Port) : Word :=
  m.loadWord ((dev.bank p.bank).base + p.statusOffset)

variable (dev : Device)

theorem covers_offset {line : UInt32} {l : Location} (h : validLine line = .ok l)
    (r : PinRegister) : (dev.bank l.bank).Covers (l.offset r) :=
  Bank.covers_register h (dev.fits l.bank) r

theorem covers_security {line : UInt32} {l : Location} (h : resolve line = some l) :
    (dev.bank l.bank).Covers l.security :=
  Bank.covers_securityWord h (dev.fits l.bank)

theorem covers_status {p : Port} (h : p ∈ ports) : (dev.bank p.bank).Covers p.statusOffset :=
  Bank.covers_statusWord h (dev.fits p.bank)

theorem register_store_same (m : Memory) (l : Location) (r : PinRegister) (v : Word) :
    dev.register (m.storeWord (dev.address l r) v) l r = v :=
  m.loadWord_storeWord (dev.address l r) v

theorem register_store_other {a b : UInt32} {l k : Location} {r s : PinRegister} (m : Memory)
    (ha : validLine a = .ok l) (hb : validLine b = .ok k) (v : Word)
    (hne : ¬ (a = b ∧ r = s)) :
    dev.register (m.storeWord (dev.address l r) v) k s = dev.register m k s := by
  apply m.loadWord_storeWord_disjoint
  apply words_apart dev.apart (dev.covers_offset ha r) (dev.covers_offset hb s)
  rintro ⟨hbank, ho⟩
  exact hne (offset_injective ha hb hbank ho)

theorem register_store_foreign {line : UInt32} {l : Location} (m : Memory)
    (hl : validLine line = .ok l) (r : PinRegister) {a : Nat}
    (ha : ∀ c, a ≤ c → c < a + 4 → dev.foreign c) (v : Word) :
    dev.register (m.storeWord a v) l r = dev.register m l r := by
  refine congrArg (BitVec.ofNat 32) (Memory.load_congr 4 _ fun c hlo hhi => ?_)
  have hc := dev.clear l.bank c (Bank.holds_of_covers (dev.covers_offset hl r) hlo hhi)
  have hout : ¬ (a ≤ c ∧ c < a + Width.word.bytes) := fun hin => hc (ha c hin.1 hin.2)
  rw [Memory.storeWord, Memory.byte_store, if_neg hout]

def InRegister (a : Nat) : Prop :=
  ∃ line l r, validLine line = .ok l ∧ dev.address l r ≤ a ∧ a < dev.address l r + 4

/-- Apart from what the surroundings wrote, `m'` differs from `m` in pin registers only. -/
def Confined (m m' : Memory) : Prop :=
  ∀ a, ¬ dev.InRegister a → ¬ dev.foreign a → m'.byte a = m.byte a

variable {dev}

namespace Confined

variable {m m' : Memory}

theorem refl (m : Memory) : dev.Confined m m := fun _ _ _ => rfl

theorem trans {m'' : Memory} (h : dev.Confined m m') (h' : dev.Confined m' m'') :
    dev.Confined m m'' :=
  fun a ha hf => (h' a ha hf).trans (h a ha hf)

theorem store (h : dev.Confined m m') {line : UInt32} {l : Location}
    (hl : validLine line = .ok l) (r : PinRegister) (v : Word) :
    dev.Confined m (m'.storeWord (dev.address l r) v) := by
  intro a ha hf
  have hout : ¬ (dev.address l r ≤ a ∧ a < dev.address l r + Width.word.bytes) :=
    fun hin => ha ⟨line, l, r, hl, hin⟩
  rw [Memory.storeWord, Memory.byte_store, if_neg hout]
  exact h a ha hf

theorem store_foreign (h : dev.Confined m m') {a : Nat}
    (ha : ∀ c, a ≤ c → c < a + 4 → dev.foreign c) (v : Word) :
    dev.Confined m (m'.storeWord a v) := by
  intro c hc hf
  have hout : ¬ (a ≤ c ∧ c < a + Width.word.bytes) := fun hin => hf (ha c hin.1 hin.2)
  rw [Memory.storeWord, Memory.byte_store, if_neg hout]
  exact h c hc hf

/-- A word in reach that is no pin register is left as it was. -/
theorem load_eq (h : dev.Confined m m') {k : BankKind} {o : Nat} (hc : (dev.bank k).Covers o)
    (hne : ∀ line l r, validLine line = .ok l → l.bank = k → l.offset r ≠ o) :
    m'.loadWord ((dev.bank k).base + o) = m.loadWord ((dev.bank k).base + o) := by
  refine congrArg (BitVec.ofNat 32) (Memory.load_congr 4 _ fun a hlo hhi => ?_)
  refine h a ?_ (dev.clear k a (Bank.holds_of_covers hc hlo hhi))
  rintro ⟨line, l, r, hl, hin⟩
  have := words_apart dev.apart (dev.covers_offset hl r) hc fun hw => hne line l r hl hw.1 hw.2
  simp only [address] at hin
  omega

theorem security_eq (h : dev.Confined m m') {line : UInt32} {l : Location}
    (hl : resolve line = some l) : dev.security m' l = dev.security m l :=
  h.load_eq (dev.covers_security hl) fun _ _ r hk hb => (security_ne_offset hl hk hb.symm r).symm

theorem status_eq (h : dev.Confined m m') {p : Port} (hp : p ∈ ports) :
    dev.status m' p = dev.status m p :=
  h.load_eq (dev.covers_status hp) fun _ _ r hk hb => (status_ne_offset hp hk hb.symm r).symm

end Confined
end Device
end Gpio
