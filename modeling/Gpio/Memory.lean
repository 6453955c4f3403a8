import Std.Data.HashMap
import Gpio.Layout

/-!
# Device memory

A byte store under little-endian accesses of any width. Contents that were
never written are a function of the address, so a bank of any size costs
nothing until it is touched. `byte_store` and `load_congr` are the two facts
that all register reasoning goes through.
-/

set_option autoImplicit false

namespace Gpio

inductive Width where
  | byte
  | half
  | word
  | double
  deriving DecidableEq, Repr

def Width.bytes : Width → Nat
  | byte => 1
  | half => 2
  | word => 4
  | double => 8

def Width.span (w : Width) : Nat := 1 <<< (8 * w.bytes)

structure Memory where
  initial : Nat → UInt8
  written : Std.HashMap Nat UInt8

namespace Memory

def ofInitial (f : Nat → UInt8) : Memory := ⟨f, ∅⟩

def byte (m : Memory) (a : Nat) : UInt8 := m.written.getD a (m.initial a)

def setByte (m : Memory) (a : Nat) (b : UInt8) : Memory :=
  ⟨m.initial, m.written.insert a b⟩

def load (m : Memory) : Nat → Nat → Nat
  | 0, _ => 0
  | n + 1, a => (m.byte a).toNat + 256 * m.load n (a + 1)

def store : Memory → Nat → Nat → Nat → Memory
  | m, 0, _, _ => m
  | m, n + 1, a, v => store (m.setByte a (UInt8.ofNat v)) n (a + 1) (v / 256)

def loadWord (m : Memory) (a : Nat) : Word := BitVec.ofNat 32 (m.load Width.word.bytes a)

def storeWord (m : Memory) (a : Nat) (v : Word) : Memory := m.store Width.word.bytes a v.toNat

theorem byte_ofInitial (f : Nat → UInt8) (a : Nat) : (ofInitial f).byte a = f a := by
  simp [ofInitial, byte]

theorem byte_setByte (m : Memory) (a b : Nat) (v : UInt8) :
    (m.setByte a v).byte b = if b = a then v else m.byte b := by
  simp only [byte, setByte, Std.HashMap.getD_insert, beq_iff_eq]
  by_cases h : b = a
  · simp [h]
  · simp [h, Ne.symm h]

theorem byte_store (m : Memory) (n a v b : Nat) :
    (m.store n a v).byte b =
      if a ≤ b ∧ b < a + n then UInt8.ofNat (v >>> (8 * (b - a))) else m.byte b := by
  induction n generalizing m a v with
  | zero => rw [store, if_neg (by omega)]
  | succ n ih =>
    rw [store, ih, byte_setByte]
    by_cases h : b = a
    · subst h
      rw [if_neg (by omega), if_pos rfl, if_pos (by omega), Nat.sub_self, Nat.mul_zero,
        Nat.shiftRight_zero]
    · by_cases hb : a + 1 ≤ b ∧ b < a + 1 + n
      · have hs : 8 * (b - a) = 8 + 8 * (b - (a + 1)) := by omega
        rw [if_pos hb, if_pos (by omega), hs, Nat.shiftRight_add, Nat.shiftRight_eq_div_pow v 8]
      · rw [if_neg hb, if_neg h, if_neg (by omega)]

theorem byte_store_outside (m : Memory) {n a b : Nat} (v : Nat) (h : ¬ (a ≤ b ∧ b < a + n)) :
    (m.store n a v).byte b = m.byte b := by
  rw [byte_store, if_neg h]

/-- A load looks at its own bytes only. -/
theorem load_congr {m m' : Memory} (n a : Nat)
    (h : ∀ b, a ≤ b → b < a + n → m.byte b = m'.byte b) : m.load n a = m'.load n a := by
  induction n generalizing a with
  | zero => rfl
  | succ n ih =>
    rw [load, load, h a (by omega) (by omega), ih (a + 1) fun b hb hn => h b (by omega) (by omega)]

/-- One more byte has room for 256 times as much. -/
theorem one_shiftLeft_succ (n : Nat) : 1 <<< (8 * (n + 1)) = 256 * 1 <<< (8 * n) := by
  rw [Nat.one_shiftLeft, Nat.one_shiftLeft, Nat.mul_succ, Nat.pow_add, Nat.mul_comm]

theorem load_lt (m : Memory) (n a : Nat) : m.load n a < 1 <<< (8 * n) := by
  induction n generalizing a with
  | zero => exact Nat.one_pos
  | succ n ih =>
    have hbyte := (m.byte a).toNat_lt
    have hrest := ih (a + 1)
    rw [load, one_shiftLeft_succ]
    omega

/-- Loads that agree saw the same bytes. -/
theorem byte_eq_of_load_eq {m m' : Memory} (n : Nat) {a : Nat} (h : m.load n a = m'.load n a)
    (b : Nat) (hlo : a ≤ b) (hhi : b < a + n) : m.byte b = m'.byte b := by
  induction n generalizing a with
  | zero => omega
  | succ n ih =>
    rw [load, load] at h
    have hbyte := (m.byte a).toNat_lt
    have hbyte' := (m'.byte a).toNat_lt
    by_cases hb : b = a
    · subst hb
      exact UInt8.toNat_inj.mp (by omega)
    · have hrest : m.load n (a + 1) = m'.load n (a + 1) := by omega
      exact ih hrest (by omega) (by omega)

theorem loadWord_eq_iff {m m' : Memory} {a : Nat} :
    m.loadWord a = m'.loadWord a ↔ ∀ b, a ≤ b → b < a + 4 → m.byte b = m'.byte b := by
  constructor
  · intro h
    have hload : m.load 4 a = m'.load 4 a := by
      have hnat := congrArg BitVec.toNat h
      simp only [loadWord, Width.bytes, BitVec.toNat_ofNat] at hnat
      have hlt := m.load_lt 4 a
      have hlt' := m'.load_lt 4 a
      omega
    exact byte_eq_of_load_eq 4 hload
  · exact fun h => congrArg (BitVec.ofNat 32) (load_congr 4 a h)

/-- The low byte of a word comes first. -/
theorem loadWord_toNat_mod (m : Memory) (a : Nat) :
    (m.loadWord a).toNat % 256 = (m.byte a).toNat := by
  have hbyte := (m.byte a).toNat_lt
  simp only [loadWord, Width.bytes, load, BitVec.toNat_ofNat]
  omega

theorem byte_storeWord_of_out {m : Memory} {a b : Nat} (v : Word)
    (h : ¬ (a ≤ b ∧ b < a + 4)) : (m.storeWord a v).byte b = m.byte b :=
  m.byte_store_outside v.toNat h

/-- A word stored alike leaves a byte alike where it was, or is part of the word. -/
theorem byte_storeWord_congr {m m' : Memory} {a b : Nat} (v : Word)
    (h : ¬ (a ≤ b ∧ b < a + 4) → m.byte b = m'.byte b) :
    (m.storeWord a v).byte b = (m'.storeWord a v).byte b := by
  by_cases hb : a ≤ b ∧ b < a + 4
  · rw [storeWord, storeWord, byte_store, byte_store]
    exact (if_pos hb).trans (if_pos hb).symm
  · rw [byte_storeWord_of_out v hb, byte_storeWord_of_out v hb, h hb]

theorem load_store_same (m : Memory) (n a v : Nat) :
    (m.store n a v).load n a = v % (1 <<< (8 * n)) := by
  induction n generalizing m a v with
  | zero => simp [load, Nat.mod_one]
  | succ n ih =>
    rw [load, byte_store, store, ih, if_pos (by omega), Nat.sub_self, Nat.mul_zero,
      Nat.shiftRight_zero, one_shiftLeft_succ, Nat.mod_mul]
    simp

theorem load_store_disjoint (m : Memory) (n a v k b : Nat) (h : b + k ≤ a ∨ a + n ≤ b) :
    (m.store n a v).load k b = m.load k b := by
  apply load_congr
  intro c hb hc
  exact m.byte_store_outside v (by omega)

theorem loadWord_storeWord (m : Memory) (a : Nat) (v : Word) :
    (m.storeWord a v).loadWord a = v := by
  apply BitVec.eq_of_toNat_eq
  rw [loadWord, storeWord, load_store_same, BitVec.toNat_ofNat]
  have := v.isLt
  simp only [Width.bytes, Nat.one_shiftLeft]
  omega

theorem loadWord_storeWord_disjoint (m : Memory) (a b : Nat) (v : Word)
    (h : b + 4 ≤ a ∨ a + 4 ≤ b) : (m.storeWord a v).loadWord b = m.loadWord b := by
  exact congrArg (BitVec.ofNat 32) (load_store_disjoint m 4 a v.toNat 4 b h)

end Memory
end Gpio
