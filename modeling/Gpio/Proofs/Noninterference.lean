import Gpio.Proofs.Isolation
import Gpio.Proofs.Parallel

/-!
# What is foreign stays unseen

Two systems that differ in memory only, and there neither in a security word
nor in a register of a line they own. Without raw accesses and chained
handlers no history tells them apart: each step does the same to both, and
what held the same at first holds the same afterwards.
-/

set_option autoImplicit false

namespace Gpio

open Drive

variable {ι D σ : Type}

namespace Operation

/-- The operation looks at registers behind the gate only. -/
def Discreet : Operation D → Prop
  | read .. | write .. | update .. | chained _ => False
  | _ => True

variable {op : Operation D} (h : op.Discreet)
include h

theorem Discreet.not_accesses (line : UInt32) : ¬ op.Accesses line := by
  cases op with
  | read | write | update => exact h.elim
  | _ => exact id

theorem Discreet.not_chained (id : UInt8) : op ≠ .chained id := by
  rintro rfl
  exact h

end Operation

namespace Device

variable (dev : Device)

structure Abreast (m₀ n₀ : Memory) (m n : Machine D σ) : Prop where
  world : n.world = m.world
  trace : n.trace = m.trace
  confined : dev.Confined m₀ m.memory
  agree : ∀ a, n₀.byte a = m₀.byte a → n.memory.byte a = m.memory.byte a
  kept : ∀ a, ¬ dev.foreign a → n₀.byte a ≠ m₀.byte a →
    m.memory.byte a = m₀.byte a ∧ n.memory.byte a = n₀.byte a

def RegistersAgree (m₀ n₀ : Memory) (line : UInt32) : Prop :=
  ∀ l, validLine line = .ok l → ∀ r, dev.register n₀ l r = dev.register m₀ l r

def abreast (m₀ n₀ : Memory) : Likeness D σ σ where
  machines := dev.Abreast m₀ n₀
  gates _ := True
  registers := dev.RegistersAgree m₀ n₀
  calls _ := True
  verdicts := Eq

variable {dev} {m₀ n₀ : Memory} {m n : Machine D σ}

theorem Abreast.loadWord_eq (h : dev.Abreast m₀ n₀ m n) {a : Nat}
    (heq : n₀.loadWord a = m₀.loadWord a) : n.memory.loadWord a = m.memory.loadWord a :=
  Memory.loadWord_eq_iff.mpr fun b hlo hhi =>
    h.agree b (Memory.loadWord_eq_iff.mp heq b hlo hhi)

/-- Both runs changed a byte, or neither did. -/
theorem Abreast.byte_kept_iff (h : dev.Abreast m₀ n₀ m n) {a : Nat} (hf : ¬ dev.foreign a) :
    n.memory.byte a = n₀.byte a ↔ m.memory.byte a = m₀.byte a := by
  by_cases ha : n₀.byte a = m₀.byte a
  · rw [h.agree a ha, ha]
  · have hkept := h.kept a hf ha
    exact iff_of_true hkept.2 hkept.1

/-- A store both runs make keeps them abreast where the word held the same at first. -/
theorem Abreast.store (h : dev.Abreast m₀ n₀ m n) {line : UInt32} {l : Location}
    (hl : validLine line = .ok l) (r : PinRegister) (v : Word)
    (heq : dev.register n₀ l r = dev.register m₀ l r) :
    dev.Abreast m₀ n₀ (m.record (.store (dev.address l r) v))
      (n.record (.store (dev.address l r) v)) where
  world := by rw [Machine.world_record, Machine.world_record, h.world]
  trace := by simp only [Machine.record, h.trace]
  confined := h.confined.store hl r v
  agree a ha := Memory.byte_storeWord_congr v fun _ => h.agree a ha
  kept a hf ha := by
    have hout : ¬ (dev.address l r ≤ a ∧ a < dev.address l r + 4) :=
      fun hin => ha (Memory.loadWord_eq_iff.mp heq a hin.1 hin.2)
    have hkept := h.kept a hf ha
    exact ⟨(Memory.byte_storeWord_of_out v hout).trans hkept.1,
      (Memory.byte_storeWord_of_out v hout).trans hkept.2⟩

theorem Abreast.store_foreign (h : dev.Abreast m₀ n₀ m n) {c : Nat}
    (hc : ∀ a, c ≤ a → a < c + 4 → dev.foreign a) (v : Word) :
    dev.Abreast m₀ n₀ (m.record (.hostStore c v)) (n.record (.hostStore c v)) where
  world := by rw [Machine.world_record, Machine.world_record, h.world]
  trace := by simp only [Machine.record, h.trace]
  confined := h.confined.store_foreign hc v
  agree a ha := Memory.byte_storeWord_congr v fun _ => h.agree a ha
  kept a hf ha := by
    have hout : ¬ (c ≤ a ∧ a < c + 4) := fun hin => hf (hc a hin.1 hin.2)
    have hkept := h.kept a hf ha
    exact ⟨(Memory.byte_storeWord_of_out v hout).trans hkept.1,
      (Memory.byte_storeWord_of_out v hout).trans hkept.2⟩

theorem Abreast.notice (x : Notice) (h : dev.Abreast m₀ n₀ m n) :
    dev.Abreast m₀ n₀ (m.record (.notice x)) (n.record (.notice x)) :=
  ⟨h.world, by simp only [Machine.record, h.trace], h.confined, h.agree, h.kept⟩

theorem Abreast.owns_eq (h : dev.Abreast m₀ n₀ m n) {b : Block D σ} (hb : b.bank = dev.bank)
    (security : ∀ line l, resolve line = some l → dev.security n₀ l = dev.security m₀ l)
    (line : UInt32) : b.owns n.memory line = b.owns m.memory line := by
  unfold Block.owns
  cases hv : validLine line with
  | error e => rfl
  | ok l =>
    have hs := h.loadWord_eq (security line l (validLine_eq_ok.mp hv).1)
    simp only [Block.grants, hb, hs]

/-- What agrees at first on security words and owned registers is all that operations look at. -/
theorem Carries.abreast_lasts {b : Block D σ} (h : dev.Carries b)
    (security : ∀ line l, resolve line = some l → dev.security n₀ l = dev.security m₀ l)
    (registers : ∀ line, b.owns m₀ line = true → dev.RegistersAgree m₀ n₀ line) :
    (dev.abreast m₀ n₀).Lasts b b.host where
  gate hm _ := hm.owns_eq h.bank security _
  opens hm _ ho := registers _ (by rwa [hm.confined.owns_eq h.bank] at ho)
  load hm hr hl r _ := by
    rw [h.address]
    exact hm.loadWord_eq (hr _ hl r)
  store hm hr hl r v _ := by
    rw [h.address]
    exact hm.store hl r v (hr _ hl r)
  call c _ := by
    apply Host.matches_call
    · intro m n hm
      rw [hm.world]
      exact ⟨c.agree_self (fun _ => rfl) _, rfl⟩
    · intro m n hm
      constructor
      · exact congrArg (fun s => (b.host.answer c s).world) hm.world
      · simp only [Host.reply, Machine.record, hm.world, hm.trace]
      · exact hm.confined
      · exact hm.agree
      · exact hm.kept
    · intro m n s w hw hc hm
      exact hm.store_foreign (h.foreign hw hc) _
  notice := Abreast.notice
  report f hvu := by
    subst hvu
    exact matches_report Abreast.notice f _

end Device

namespace System

variable {s t : System ι D σ} {dev : Device} {m₀ n₀ : Memory}

def withMemory (s : System ι D σ) (n : Memory) : System ι D σ :=
  { s with machine := { s.machine with memory := n } }

structure Abreast (s t : System ι D σ) (dev : Device) (m₀ n₀ : Memory) : Prop where
  carried : s.Over dev
  blocks : t.block = s.block
  machines : dev.Abreast m₀ n₀ s.machine t.machine

variable [DecidableEq ι]

section Run

variable (security : ∀ line l, resolve line = some l → dev.security n₀ l = dev.security m₀ l)
  (registers : ∀ b : Block D σ, dev.Carries b →
    ∀ line, b.owns m₀ line = true → dev.RegistersAgree m₀ n₀ line)
include security registers

theorem Abreast.after (h : s.Abreast t dev m₀ n₀) {q : Request ι D} (discreet : q.op.Discreet) :
    t.outcome q = s.outcome q ∧ (s.after q).Abreast (t.after q) dev m₀ n₀ := by
  have lasts := (h.carried q.who).abreast_lasts security (registers _ (h.carried q.who))
  have hq := lasts.perform_matches q.op (fun _ _ => trivial)
    (fun line ha => absurd ha (discreet.not_accesses line)) (fun _ _ => trivial)
    (fun ⟨id, hid⟩ => absurd hid (discreet.not_chained id))
  have twins : s.Twins t := fun i => by
    rw [h.blocks]
    rfl
  have same : t.block q.who = (s.block q.who).withHost (s.block q.who).host := by
    rw [h.blocks]
    rfl
  rw [← same] at hq
  obtain ⟨agrees, htwins, hmachines⟩ := twins.after hq h.machines
  refine ⟨agrees.eq, h.carried.after q, funext fun i => ?_, hmachines⟩
  rw [htwins i, t.after_host, h.blocks, ← s.after_host q i]
  rfl

theorem Abreast.run (h : s.Abreast t dev m₀ n₀) (qs : List (Request ι D))
    (discreet : ∀ q ∈ qs, q.op.Discreet) :
    outcomes qs t = outcomes qs s ∧
      (System.run qs s).Abreast (System.run qs t) dev m₀ n₀ := by
  induction qs generalizing s t with
  | nil => exact ⟨rfl, h⟩
  | cons q qs ih =>
    obtain ⟨hout, hafter⟩ := h.after security registers (discreet q (by simp))
    obtain ⟨houts, hrun⟩ := ih hafter fun p hp => discreet p (by simp [hp])
    exact ⟨by rw [outcomes, outcomes, hout, houts], hrun⟩

end Run

variable {main aon : Bank}

/-- Memories that agree on the security words and on the registers of every accessible line cannot
be told apart by discreet operations: outcomes, calls, replies and notices are the same, and so are
the words that change. Words that held the same at first hold the same in the end. -/
theorem run_noninterference (h : s.Shares main aon) (apart : main.Apart aon) (n : Memory)
    (security : ∀ line l, resolve line = some l →
      n.loadWord ((bankPair main aon l.bank).base + l.security) =
        s.machine.memory.loadWord ((bankPair main aon l.bank).base + l.security))
    (registers : ∀ i line l, (s.block i).isAccessible s.machine.memory line = .ok true →
      resolve line = some l → ∀ r : PinRegister,
      n.loadWord ((bankPair main aon l.bank).base + l.offset r) =
        s.machine.memory.loadWord ((bankPair main aon l.bank).base + l.offset r))
    (qs : List (Request ι D)) (discreet : ∀ q ∈ qs, q.op.Discreet) :
    outcomes qs (s.withMemory n) = outcomes qs s ∧
    (run qs (s.withMemory n)).block = (run qs s).block ∧
    (run qs (s.withMemory n)).machine.world = (run qs s).machine.world ∧
    (run qs (s.withMemory n)).machine.trace = (run qs s).machine.trace ∧
    (∀ a, (∀ b, a ≤ b → b < a + 4 → ∀ i, ¬ (s.block i).host.Writes b) →
      ((run qs (s.withMemory n)).machine.memory.loadWord a ≠ n.loadWord a ↔
        (run qs s).machine.memory.loadWord a ≠ s.machine.memory.loadWord a)) ∧
    ∀ a, n.loadWord a = s.machine.memory.loadWord a →
      (run qs (s.withMemory n)).machine.memory.loadWord a =
        (run qs s).machine.memory.loadWord a := by
  cases qs with
  | nil => exact ⟨rfl, rfl, rfl, rfl, fun _ _ => by simp [run, withMemory], fun _ ha => ha⟩
  | cons q rest =>
    let dev := h.device apart q.who
    have carried : s.Over dev := h.carries apart q.who
    have start : s.Abreast (s.withMemory n) dev s.machine.memory n :=
      ⟨carried, rfl, rfl, rfl, .refl _, fun _ ha => ha, fun _ _ _ => ⟨rfl, rfl⟩⟩
    have owned : ∀ b : Block D σ, dev.Carries b → ∀ line, b.owns s.machine.memory line = true →
        dev.RegistersAgree s.machine.memory n line := by
      intro b hb line ho l hl r
      rw [hb.owns_eq (carried q.who)] at ho
      have accessible : (s.block q.who).isAccessible s.machine.memory line = .ok true := by
        rw [Block.isAccessible_eq, ho]
      exact registers q.who line l accessible (validLine_eq_ok.mp hl).1 r
    have secure : ∀ line l, resolve line = some l →
        dev.security n l = dev.security s.machine.memory l := security
    obtain ⟨houts, hrun⟩ := start.run secure owned (q :: rest) discreet
    refine ⟨houts, hrun.blocks, hrun.machines.world, hrun.machines.trace, fun a spared => ?_,
      fun a ha => hrun.machines.loadWord_eq ha⟩
    have kept : ∀ b, a ≤ b → b < a + 4 → _ := fun b hlo hhi =>
      hrun.machines.byte_kept_iff fun ⟨i, hi⟩ => spared b hlo hhi i hi
    rw [ne_eq, ne_eq, Memory.loadWord_eq_iff, Memory.loadWord_eq_iff, not_iff_not]
    exact forall_congr' fun b => forall_congr' fun hlo => forall_congr' fun hhi => kept b hlo hhi

end System

namespace Simulation

def Fixture.second : Location := (Port.main "A" 2 0 7).locate 0 1

def Fixture.guarded : Memory :=
  granting.storeWord (start.main.base + second.security) 0

theorem Fixture.second_valid : validLine 1 = .ok second := by rfl

theorem Fixture.start_guarded_owns : start.probed.owns guarded 1 = false := by
  rw [Block.owns_of_valid _ _ second_valid]
  have hword : guarded.loadWord (start.main.base + second.security) = 0 :=
    Memory.loadWord_storeWord _ _ _
  simp only [Block.grants, show start.probed.bank second.bank = start.main from rfl, hword,
    show Grant.isFull 0 = false by decide, Bool.and_false]

end Simulation

open Simulation in
/-- What the register of the one line that is not granted holds makes no difference to two blocks,
though they ask for it. -/
theorem pair_run_noninterference :
    (Fixture.start.pair Fixture.guarded).Shares Fixture.start.main Fixture.start.aon ∧
    Fixture.start.main.Apart Fixture.start.aon ∧
    let other := Fixture.guarded.storeWord
      (Fixture.start.main.base + Fixture.second.offset .enableConfig) 0
    let history : List (Request Bool Nat) :=
      [⟨true, .directionOutput 0 true⟩, ⟨false, .attach 0⟩, ⟨false, .consumer (.get 1)⟩,
        ⟨true, .isEnabled 1⟩, ⟨true, .setType 1 .levelLow⟩]
    System.outcomes history ((Fixture.start.pair Fixture.guarded).withMemory other) =
        System.outcomes history (Fixture.start.pair Fixture.guarded) ∧
      (System.run history ((Fixture.start.pair Fixture.guarded).withMemory other)).machine.trace =
        (System.run history (Fixture.start.pair Fixture.guarded)).machine.trace := by
  have shares := Fixture.start_shares Fixture.guarded
  have apart := Fixture.start_apart
  refine ⟨shares, apart, ?_⟩
  intro other history
  let dev := shares.device apart true
  have confined : dev.Confined Fixture.guarded other :=
    (Device.Confined.refl _).store Fixture.second_valid .enableConfig 0
  have registers : ∀ (i : Bool) (line : UInt32) (l : Location),
      ((Fixture.start.pair Fixture.guarded).block i).isAccessible Fixture.guarded line = .ok true →
      resolve line = some l → ∀ r, dev.register other l r = dev.register Fixture.guarded l r := by
    intro i line l accessible hl r
    rw [Block.isAccessible_eq] at accessible
    have ho : Fixture.start.probed.owns Fixture.guarded line = true := Except.ok.inj accessible
    obtain ⟨l', hl'⟩ := Block.valid_of_owns _ ho
    obtain rfl : l' = l := Option.some.inj ((validLine_eq_ok.mp hl').1.symm.trans hl)
    apply dev.register_store_other _ Fixture.second_valid hl'
    rintro ⟨rfl, -⟩
    rw [Fixture.start_guarded_owns] at ho
    cases ho
  have discreet : ∀ q ∈ history, q.op.Discreet := by simp [history, Operation.Discreet]
  have hrun := System.run_noninterference shares apart other
    (fun _ _ hl => confined.security_eq hl) registers history discreet
  exact ⟨hrun.1, hrun.2.2.2.1⟩

end Gpio
