import Gpio.Proofs.Confinement

/-!
# Lines that are not granted are left alone

Raw stores apart, no operation writes a register of a line the gate keeps
closed, and pin control hears of such a line, or of a number that is no
line, only when it is given back. The gate never opens, so this holds over
whole histories.
-/

set_option autoImplicit false

namespace Gpio

open Drive

variable {ι D σ : Type}

namespace Effect

def pinCall? : Effect D → Option PinCall
  | call (.pin c) _ => some c
  | _ => none

end Effect

namespace Machine

def pinCalls (m : Machine D σ) (line : UInt32) : List PinCall :=
  (m.trace.toList.filterMap Effect.pinCall?).filter (·.line = line)

theorem pinCalls_record (m : Machine D σ) (e : Effect D) (line : UInt32) :
    (m.record e).pinCalls line = m.pinCalls line ++ e.pinCall?.toList.filter (·.line = line) := by
  rw [pinCalls, filterMap_record, List.filter_append, pinCalls]

theorem pinCalls_record_of_none (m : Machine D σ) {e : Effect D} (h : e.pinCall? = none)
    (line : UInt32) : (m.record e).pinCalls line = m.pinCalls line := by
  rw [pinCalls_record, h]
  exact List.append_nil _

end Machine

namespace Operation

def Raw : Operation D → Prop
  | write .. | update .. => True
  | _ => False

def frees (line : UInt32) : Operation D → Bool
  | free l | consumer (.free l) => l = line
  | _ => false

def releases (op : Operation D) (line : UInt32) : List PinCall :=
  if op.frees line then [.free line] else []

end Operation

namespace Device

def Shut (dev : Device) (m : Memory) (line : UInt32) : Prop :=
  ∀ l, validLine line = .ok l → Grant.isFull (dev.security m l) = false

/-- Since `m₀`, nothing happened to the line, and pin control was told of it what `calls` says. -/
structure Untouched (dev : Device) (line : UInt32) (m₀ : Memory) (calls : List PinCall)
    (m : Machine D σ) : Prop where
  confined : dev.Confined m₀ m.memory
  registers : ∀ l r, validLine line = .ok l → dev.register m.memory l r = dev.register m₀ l r
  told : m.pinCalls line = calls

variable {dev : Device} {b : Block D σ} {line : UInt32} {m₀ : Memory} {calls : List PinCall}
  {m : Machine D σ}

theorem Carries.owns_of_shut (h : dev.Carries b) (shut : dev.Shut m₀ line) :
    b.owns m₀ line = false := by
  unfold Block.owns
  cases hv : validLine line with
  | error e => rfl
  | ok l =>
    have hs := shut l hv
    simp only [security] at hs
    simp only [Block.grants, h.bank, hs, Bool.and_false]

/-- A call adds what it tells about the line, and nothing else. -/
theorem Carries.call_untouched (h : dev.Carries b) (hm : dev.Untouched line m₀ calls m)
    (c : Call D) : dev.Untouched line m₀ (calls ++ ((Effect.call c (b.host.answer c m.world).reply
      ).pinCall?.toList.filter (·.line = line))) ((b.host.call c).on m).2 := by
  have told := hm.told
  apply Host.call_keeps
  · constructor
    · exact hm.confined
    · exact hm.registers
    · rw [Host.reply, Machine.pinCalls_record, ← told]
      rfl
  · intro m' s w hw hc hm'
    have hf := h.foreign hw hc
    constructor
    · exact hm'.confined.store_foreign hf _
    · intro l r hl
      exact (dev.register_store_foreign _ hl r hf _).trans (hm'.registers l r hl)
    · rw [Machine.pinCalls_record_of_none _ rfl, hm'.told]

theorem Carries.untouched_robust (h : dev.Carries b) :
    b.Robust (· ≠ line) (dev.Untouched line m₀ calls) where
  store {m k l} hne hl r v hc hm := by
    rw [h.address l r]
    constructor
    · exact hm.confined.store hl r v
    · intro j s hj
      rw [← hm.registers j s hj]
      exact dev.register_store_other _ hl hj v fun hsame => hne hsame.1
    · rw [Machine.pinCalls_record_of_none _ rfl, hm.told]
  call c hne m hm := by
    have hcall := h.call_untouched hm c
    cases c with
    | pin p =>
      have hp : ¬ p.line = line := hne p.line rfl
      simpa [Effect.pinCall?, hp] using hcall
    | wake w => simpa [Effect.pinCall?] using hcall
    | domain d p => simpa [Effect.pinCall?] using hcall
  notice n hm := by
    constructor
    · exact hm.confined
    · exact hm.registers
    · rw [Machine.pinCalls_record_of_none _ rfl, hm.told]

/-- Behind a gate that stays closed a line is as good as absent. -/
theorem Carries.gate_of_shut (h : dev.Carries b) (shut : dev.Shut m₀ line) (k : UInt32) :
    b.Gate (· ≠ line) (dev.Untouched line m₀ calls) k := by
  rintro m hm ho rfl
  rw [hm.confined.owns_eq h.bank, h.owns_of_shut shut] at ho
  cases ho

theorem Carries.free_untouched (h : dev.Carries b) (shut : dev.Shut m₀ line)
    (hm : dev.Untouched line m₀ calls m) :
    dev.Untouched line m₀ (calls ++ [.free line]) ((b.free line).on m).2 := by
  have hcall := h.call_untouched hm (.pin (.free line))
  simp only [Effect.pinCall?, Option.toList, List.filter, PinCall.line, decide_true] at hcall
  exact h.untouched_robust.free (h.gate_of_shut shut line) hcall

theorem Carries.perform_untouched (h : dev.Carries b) (shut : dev.Shut m₀ line)
    {op : Operation D} (gated : ¬ op.Raw) (hm : dev.Untouched line m₀ calls m) :
    dev.Untouched line m₀ (calls ++ op.releases line) ((b.perform op).on m).2 := by
  -- Giving the line back tells pin control before the gate is asked; nothing else does.
  by_cases hfree : op.frees line = true
  · have hfreed := h.free_untouched shut hm
    rw [Operation.releases, if_pos hfree]
    cases op with
    | free k =>
      obtain rfl : k = line := of_decide_eq_true hfree
      exact done_keeps hfreed
    | consumer c =>
      cases c with
      | free k =>
        obtain rfl : k = line := of_decide_eq_true hfree
        exact done_keeps hfreed
      | _ => cases hfree
    | _ => cases hfree
  · rw [Operation.releases, if_neg hfree, List.append_nil]
    apply h.untouched_robust.perform_keeps op hm
    intro k haim m' hm' hlet
    rcases hlet with hun | ho
    · rintro rfl
      cases op with
      | write | update => exact gated trivial
      | free j => exact hfree (by simpa [Block.Aims, Operation.line?, Operation.frees] using haim)
      | consumer c =>
        cases c with
        | free j =>
          exact hfree (by
            simpa [Block.Aims, Operation.line?, ConsumerCall.line, Operation.frees] using haim)
        | _ => exact hun
      | _ => exact hun
    · exact h.gate_of_shut shut k m' hm' ho

end Device

namespace System

variable {s : System ι D σ} {dev : Device} {line : UInt32} {m₀ : Memory} {calls : List PinCall}
variable [DecidableEq ι]

theorem Over.run_untouched (h : s.Over dev) (shut : dev.Shut m₀ line) (qs : List (Request ι D))
    (gated : ∀ q ∈ qs, ¬ q.op.Raw) (hm : dev.Untouched line m₀ calls s.machine) :
    dev.Untouched line m₀ (calls ++ qs.flatMap fun q => q.op.releases line)
      (System.run qs s).machine := by
  induction qs generalizing s calls with
  | nil => rwa [List.flatMap_nil, List.append_nil]
  | cons q qs ih =>
    have hq := (h q.who).perform_untouched shut (gated q (by simp)) hm
    rw [← s.after_machine q] at hq
    rw [List.flatMap_cons, ← List.append_assoc]
    exact ih (h.after q) (fun p hp => gated p (by simp [hp])) hq

variable {main aon : Bank}

/-- A line that lacks a grant at first, or does not exist, is isolated: no history without raw
stores changes its registers, and pin control hears of it once for each time it is given back. -/
theorem run_isolates_closed_lines (h : s.Shares main aon) (apart : main.Apart aon)
    (qs : List (Request ι D)) (gated : ∀ q ∈ qs, ¬ q.op.Raw) (line : UInt32) :
    (∀ l, resolve line = some l → l.valid = true →
      (∃ i ∈ [1, 9, 27, 28], (s.machine.memory.loadWord
        ((bankPair main aon l.bank).base + l.security)).getLsbD i = false) →
      (∀ r : PinRegister,
        (run qs s).machine.memory.loadWord ((bankPair main aon l.bank).base + l.offset r) =
          s.machine.memory.loadWord ((bankPair main aon l.bank).base + l.offset r)) ∧
      (run qs s).machine.pinCalls line =
        s.machine.pinCalls line ++ qs.flatMap fun q => q.op.releases line) ∧
    ((∀ l, resolve line = some l → l.valid = false) →
      (run qs s).machine.pinCalls line =
        s.machine.pinCalls line ++ qs.flatMap fun q => q.op.releases line) := by
  cases qs with
  | nil => exact ⟨fun _ _ _ _ => ⟨fun _ => rfl, (List.append_nil _).symm⟩,
      fun _ => (List.append_nil _).symm⟩
  | cons q rest =>
    let dev := h.device apart q.who
    have carried : s.Over dev := h.carries apart q.who
    have start : dev.Untouched line s.machine.memory (s.machine.pinCalls line) s.machine :=
      ⟨.refl _, fun _ _ _ => rfl, rfl⟩
    constructor
    · intro l hl hv ⟨i, hi, hbit⟩
      have hvalid := validLine_eq_ok.mpr ⟨hl, hv⟩
      have shut : dev.Shut s.machine.memory line := by
        intro k hk
        rw [hvalid] at hk
        cases hk
        rw [Bool.eq_false_iff]
        intro hfull
        have hset := Grant.isFull_iff.mp hfull i hi
        exact Bool.false_ne_true (hbit.symm.trans hset)
      have hrun := carried.run_untouched shut (q :: rest) gated start
      exact ⟨fun r => hrun.registers l r hvalid, hrun.told⟩
    · intro hnone
      have shut : dev.Shut s.machine.memory line := by
        intro k hk
        obtain ⟨hk, hv⟩ := validLine_eq_ok.mp hk
        rw [hnone k hk] at hv
        cases hv
      exact (carried.run_untouched shut (q :: rest) gated start).told

open Simulation in
/-- On zeroed memory nothing is granted: driving line 0 and giving it back tells pin control one
thing. -/
theorem pair_run_isolates_closed_lines :
    (Fixture.start.pair Fixture.start.memory).Shares Fixture.start.main Fixture.start.aon ∧
    Fixture.start.main.Apart Fixture.start.aon ∧
    (run [⟨true, .directionOutput 0 true⟩, ⟨false, .free 0⟩]
      (Fixture.start.pair Fixture.start.memory)).machine.pinCalls 0 = [.free 0] := by
  have shares := Fixture.start_shares Fixture.start.memory
  have gated : ∀ q ∈ ([⟨true, .directionOutput 0 true⟩, ⟨false, .free 0⟩] :
      List (Request Bool Nat)), ¬ q.op.Raw := by simp [Operation.Raw]
  have bit : (Fixture.start.memory.loadWord
      ((bankPair Fixture.start.main Fixture.start.aon .main).base +
        ((Port.main "A" 2 0 7).locate 0 0).security)).getLsbD 1 = false := by
    simp [Fixture.start, Memory.loadWord, Memory.load, Memory.byte_ofInitial, Width.bytes]
  have hrun := run_isolates_closed_lines shares Fixture.start_apart _ gated 0
  exact ⟨shares, Fixture.start_apart, (hrun.1 _ rfl rfl ⟨1, by decide, bit⟩).2⟩

end System
end Gpio
