import Gpio.Proofs.Refusals

/-!
# Accesses to a bank

Over all 64-bit offsets an access to a bank is carried out on a word inside
the bank, or refused and nothing is done. The last word of the address space
is the exception: it ends where 64 bits do, so the check overflows before it
can refuse. A word that was written reads back, and the others of the bank
read as before.
-/

set_option autoImplicit false

namespace Gpio

open Drive

variable {D σ α : Type}

namespace Bank

def lastOffset : Nat := 0xfffffffffffffffc

theorem lastOffset_not_covered {k : Bank} (small : k.size < addressLimit) :
    ¬ k.Covers lastOffset := by
  rintro ⟨-, hs⟩
  simp only [addressLimit, lastOffset] at small hs
  omega

theorem check_lastOffset (k : Bank) : k.check lastOffset = .error (.overflow .add) := rfl

/-- Any other offset is decided by where the word lies. -/
theorem check_of_ne_lastOffset (k : Bank) {o : Nat} (ho : o < addressLimit)
    (hne : o ≠ lastOffset) : k.check o = if k.Covers o then .ok () else .refuse .invalidLine := by
  by_cases ha : o % 4 = 0
  · apply check_eq
    simp only [addressLimit, lastOffset] at ho hne ⊢
    omega
  · have outside : ¬ k.Covers o := fun hc => ha hc.1
    rw [check, if_pos ha, if_neg outside]

structure Decides (k : Bank) (o : Nat) (out : Except Failure α) : Prop where
  done : (∃ a, out = .ok a) ↔ k.Covers o
  refused : o ≠ lastOffset → Explained out fun r => r = .invalidLine ∧ ¬ k.Covers o
  overflow : o = lastOffset → out = .error (.overflow .add)

/-- An access that ends well just when the check does ends as the check does. -/
theorem decides_of_check {k : Bank} (small : k.size < addressLimit) {o : Nat}
    (ho : o < addressLimit) {out : Except Failure α} (a : α)
    (h : out = (k.check o).map fun _ => a) : k.Decides o out := by
  subst h
  by_cases hlast : o = lastOffset
  · subst hlast
    have outside := lastOffset_not_covered small
    exact ⟨⟨nofun, fun hc => absurd hc outside⟩, fun hne => absurd rfl hne, fun _ => rfl⟩
  · rw [k.check_of_ne_lastOffset ho hlast]
    by_cases hc : k.Covers o
    · rw [if_pos hc]
      exact ⟨⟨fun _ => hc, fun _ => ⟨a, rfl⟩⟩, fun _ => explained_ok fun r hr => hr.2 hc,
        fun h => absurd h hlast⟩
    · rw [if_neg hc]
      exact ⟨⟨nofun, fun h => absurd h hc⟩,
        fun _ => explained_refused ⟨rfl, hc⟩ fun s hs => hs.1, fun h => absurd h hlast⟩

theorem read_eq_map (k : Bank) (m : Memory) (o : Nat) :
    k.read m o = (k.check o).map fun _ => m.loadWord (k.base + o) := by
  rw [read]
  cases k.check o <;> rfl

theorem write_eq_map (k : Bank) (m : Memory) (o : Nat) (v : Word) :
    k.write m o v = (k.check o).map fun _ => m.storeWord (k.base + o) v := by
  rw [write]
  cases k.check o <;> rfl

theorem on_put (k : Bank) (o : Nat) (v : Word) (m : Machine D σ) :
    (k.put o v).on m = match k.check o with
      | .ok () => (.ok (), m.record (.store (k.base + o) v))
      | .error e => (.error e, m) := by
  rw [put, on_bind, on_ofChecked]
  cases k.check o <;> rfl

theorem check_on_put (k : Bank) (o : Nat) (v : Word) (m : Machine D σ) :
    ((k.put o v).on m).1 = k.check o := by
  rw [on_put]
  cases k.check o <;> rfl

/-- Another word of the bank, after a store at `o`. -/
theorem read_storeWord_of_ne {k : Bank} {o p : Nat} (ho : k.Covers o) (hp : k.Covers p)
    (hne : p ≠ o) (m : Memory) (v : Word) :
    k.read (m.storeWord (k.base + o) v) p = k.read m p := by
  have apart : k.base + p + 4 ≤ k.base + o ∨ k.base + o + 4 ≤ k.base + p := by
    have hoa := ho.1
    have hpa := hp.1
    omega
  rw [read_eq_map, read_eq_map, Memory.loadWord_storeWord_disjoint m _ _ v apart]

/-- A read and a write of the word at `o` are decided alike, and a write that is not carried out
changes nothing. -/
theorem accesses_bounded {k : Bank} (small : k.size < addressLimit) {o : Nat}
    (ho : o < addressLimit) (v : Word) (m : Machine D σ) :
    let stored := (k.put o v).on m
    k.Decides o (k.read m.memory o) ∧ k.Decides o stored.1 ∧
      k.write m.memory o v = stored.1.map (fun _ => stored.2.memory) ∧
      (stored.1 ≠ .ok () → stored.2 = m) ∧
      (stored.1 = .ok () → k.read stored.2.memory o = .ok v ∧
        ∀ p, k.Covers p → p ≠ o → k.read stored.2.memory p = k.read m.memory p) := by
  intro stored
  have hread := decides_of_check small ho _ (k.read_eq_map m.memory o)
  have hstored : k.Decides o stored.1 := by
    refine decides_of_check small ho () ?_
    rw [show stored.1 = k.check o from k.check_on_put o v m]
    cases k.check o <;> rfl
  have hon : stored = _ := k.on_put o v m
  refine ⟨hread, hstored, ?_, ?_, ?_⟩
  · rw [hon, write_eq_map]
    cases k.check o <;> rfl
  · rw [hon]
    cases k.check o with
    | error e => exact fun _ => rfl
    | ok u => exact fun h => absurd rfl h
  · intro hok
    have hc : k.check o = .ok () := (k.check_on_put o v m).symm.trans hok
    have covers : k.Covers o := hstored.done.mp ⟨(), hok⟩
    have hmem : stored.2.memory = m.memory.storeWord (k.base + o) v := by
      rw [hon, hc]
      rfl
    rw [hmem]
    constructor
    · rw [read_eq_map, hc, Memory.loadWord_storeWord]
      rfl
    · exact fun p hp hne => read_storeWord_of_ne covers hp hne m.memory v

section Bench

open Simulation

/-- The last word of the main bank of the bench takes a value, and the next word is refused. -/
theorem bench_accesses_bounded :
    let k := Fixture.start.main
    let m : Machine Unit Unit := .start Fixture.start.memory ()
    let stored := (k.put 0x1fffc 5).on m
    k.size < addressLimit ∧ stored.1 = .ok () ∧ k.read stored.2.memory 0x1fffc = .ok 5 ∧
      k.read m.memory 0x20000 = .refuse .invalidLine := by
  intro k m stored
  have small : k.size < addressLimit := by decide
  obtain ⟨-, last, -, -, after⟩ :=
    accesses_bounded small (show 0x1fffc < addressLimit by decide) 5 m
  obtain ⟨next, -⟩ := accesses_bounded small (show 0x20000 < addressLimit by decide) 5 m
  obtain ⟨u, hu⟩ := last.done.mpr (by decide)
  exact ⟨small, hu, (after hu).1, ((next.refused (by decide)).1 .invalidLine).mpr ⟨rfl, by decide⟩⟩

/-- Aligned and outside the bank, the last word of the address space is not refused. -/
theorem last_word_not_refused :
    let k := Fixture.start.main
    let m : Machine Unit Unit := .start Fixture.start.memory ()
    k.size < addressLimit ∧ lastOffset < addressLimit ∧ ¬ k.Covers lastOffset ∧
      k.read m.memory lastOffset ≠ .refuse .invalidLine ∧
      k.write m.memory lastOffset 5 ≠ .refuse .invalidLine := by
  refine ⟨by decide, by decide, by decide, ?_, ?_⟩
  · rw [read_eq_map, check_lastOffset]
    nofun
  · rw [write_eq_map, check_lastOffset]
    nofun

end Bench

end Bank
end Gpio
