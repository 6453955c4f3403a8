import Mathlib.Logic.Function.Basic
import Gpio.Operation

/-!
# Histories of several blocks

Any number of blocks over one device and one host state, asked for
operations one after another in any order. A history is a list of requests;
what holds after every request from a class holds after every history of it.
-/

set_option autoImplicit false

namespace Gpio

variable {ι D σ : Type}

/-- Blocks side by side over one machine. -/
structure System (ι D σ : Type) where
  block : ι → Block D σ
  machine : Machine D σ

structure Request (ι D : Type) where
  who : ι
  op : Operation D

namespace System

def outcome (s : System ι D σ) (q : Request ι D) : Except Failure Outcome :=
  ((s.block q.who).step q.op s.machine).1

variable [DecidableEq ι]

def after (s : System ι D σ) (q : Request ι D) : System ι D σ where
  block := Function.update s.block q.who ((s.block q.who).step q.op s.machine).2.1
  machine := ((s.block q.who).step q.op s.machine).2.2

def run : List (Request ι D) → System ι D σ → System ι D σ
  | [], s => s
  | q :: qs, s => run qs (s.after q)

def outcomes : List (Request ι D) → System ι D σ → List (Except Failure Outcome)
  | [], _ => []
  | q :: qs, s => s.outcome q :: outcomes qs (s.after q)

/-- What every request of the history keeps, the history keeps. -/
theorem run_keeps {P : System ι D σ → Prop} (qs : List (Request ι D))
    (step : ∀ q ∈ qs, ∀ s, P s → P (s.after q)) (s : System ι D σ) (h : P s) : P (run qs s) := by
  induction qs generalizing s with
  | nil => exact h
  | cons q qs ih =>
    exact ih (fun p hp => step p (by simp [hp])) _ (step q (by simp) s h)

end System

namespace Block

theorem step_block (b : Block D σ) (op : Operation D) (m : Machine D σ) :
    (b.step op m).2.1 = b ∨ ∃ d, (b.step op m).2.1 = b.withDomain d := by
  unfold step
  split
  · cases op with
    | attach d => exact Or.inr ⟨d, rfl⟩
    | _ => exact Or.inl rfl
  · exact Or.inl rfl

theorem step_machine (b : Block D σ) (op : Operation D) (m : Machine D σ) :
    (b.step op m).2.2 = ((b.perform op).on m).2 := by
  unfold step
  split
  · next h => rw [h]
  · next h => rw [h]

theorem step_outcome (b : Block D σ) (op : Operation D) (m : Machine D σ) :
    (b.step op m).1 = ((b.perform op).on m).1 := by
  unfold step
  split
  · next h => rw [h]
  · next h => rw [h]

theorem step_block_ok {b : Block D σ} {op : Operation D} {m : Machine D σ} {o : Outcome}
    (h : ((b.perform op).on m).1 = .ok o) : (b.step op m).2.1 = b.after op := by
  rcases hon : (b.perform op).on m with ⟨e | o', m'⟩
  · rw [hon] at h
    cases h
  · rw [step, hon]

theorem step_block_error {b : Block D σ} {op : Operation D} {m : Machine D σ} {e : Failure}
    (h : ((b.perform op).on m).1 = .error e) : (b.step op m).2.1 = b := by
  rcases hon : (b.perform op).on m with ⟨e' | o, m'⟩
  · rw [step, hon]
  · rw [hon] at h
    cases h

end Block

namespace System

theorem outcome_eq (s : System ι D σ) (q : Request ι D) :
    s.outcome q = (((s.block q.who).perform q.op).on s.machine).1 :=
  (s.block q.who).step_outcome q.op s.machine

variable [DecidableEq ι]

/-- Every block of the system after a request is one of before, up to its domain. -/
theorem after_block (s : System ι D σ) (q : Request ι D) (i : ι) :
    (s.after q).block i = s.block i ∨ ∃ d, (s.after q).block i = (s.block i).withDomain d := by
  by_cases h : i = q.who
  · subst h
    simp only [after, Function.update_self]
    exact (s.block q.who).step_block q.op s.machine
  · exact Or.inl (Function.update_of_ne h _ _)

/-- A block keeps its host. -/
theorem after_host (s : System ι D σ) (q : Request ι D) (i : ι) :
    ((s.after q).block i).host = (s.block i).host := by
  rcases s.after_block q i with hb | ⟨d, hb⟩
  · rw [hb]
  · rw [hb]
    rfl

theorem after_machine (s : System ι D σ) (q : Request ι D) :
    (s.after q).machine = (((s.block q.who).perform q.op).on s.machine).2 :=
  (s.block q.who).step_machine q.op s.machine

end System
end Gpio
