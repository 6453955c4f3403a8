import Gpio.Proofs.Confinement
import Gpio.Proofs.Parallel

/-!
# Verdicts do not reach the registers

Pin control and the wake controller may agree or refuse as they like: memory
and the calls made are the same at every step. A verdict shows in the outcome
of the operation that asked for it and passes it on, and in no other.
-/

set_option autoImplicit false

namespace Gpio

open Drive

variable {ι D σ τ α : Type}

def Call.verdict? : (c : Call D) → c.Reply → Option Verdict
  | .pin (.request _), v | .pin (.input _), v | .pin (.output _), v
  | .wake (.setType ..), v | .wake (.arm ..), v => some v
  | .pin (.free _), _ | .wake (.publish ..), _ | .domain _ _, _ => none

def Call.mayRefuse : Call D → Bool
  | .pin (.request _) | .pin (.input _) | .pin (.output _) | .wake (.setType ..)
  | .wake (.arm ..) => true
  | .pin (.free _) | .wake (.publish ..) | .domain _ _ => false

theorem Call.isSome_verdict? (c : Call D) (v : c.Reply) : (c.verdict? v).isSome = c.mayRefuse := by
  cases c with
  | pin c => cases c <;> rfl
  | wake c => cases c <;> rfl
  | domain d c => rfl

namespace Effect

def call? : Effect D → Option (Call D)
  | call c _ => some c
  | store .. | hostStore .. | notice _ => none

def verdict? : Effect D → Option Verdict
  | call c v => c.verdict? v
  | store .. | hostStore .. | notice _ => none

end Effect

namespace Machine

def calls (m : Machine D σ) : List (Call D) := m.trace.toList.filterMap Effect.call?

def verdicts (m : Machine D σ) : List Verdict := m.trace.toList.filterMap Effect.verdict?

theorem calls_record (m : Machine D σ) (e : Effect D) :
    (m.record e).calls = m.calls ++ e.call?.toList :=
  filterMap_record _ m e

theorem verdicts_record (m : Machine D σ) (e : Effect D) :
    (m.record e).verdicts = m.verdicts ++ e.verdict?.toList :=
  filterMap_record _ m e

theorem calls_reply (h : Host D σ) (c : Call D) (m : Machine D σ) :
    (h.reply c m).calls = m.calls ++ [c] :=
  calls_record _ _

theorem calls_call (h : Host D σ) (c : Call D) (m : Machine D σ) :
    ((h.call c).on m).2.calls = m.calls ++ [c] := by
  apply Host.call_keeps (I := fun m' => m'.calls = m.calls ++ [c]) (calls_reply h c m)
  intro m' s w _ _ hm'
  rw [calls_record, hm']
  exact List.append_nil _

/-- There is one verdict for each call that may be refused. -/
theorem length_verdicts (m : Machine D σ) :
    m.verdicts.length = (m.calls.filter Call.mayRefuse).length := by
  unfold verdicts calls
  induction m.trace.toList with
  | nil => rfl
  | cons e es ih =>
    cases e with
    | call c v =>
      have hsome := c.isSome_verdict? v
      cases hv : c.verdict? v <;> rw [hv] at hsome <;>
        simp [Effect.verdict?, Effect.call?, hv, ← hsome, ih]
    | store | hostStore | notice => exact ih

end Machine

namespace Drive

def Asks (a : α) (x : Drive D σ α) (m : Machine D σ) : Prop :=
  (∃ r, (x.on m).1 = .error (.refused r) ∧ (∀ e, r ≠ .collaborator e) ∧
    (x.on m).2.verdicts = m.verdicts) ∨
  ∃ v, (x.on m).1 = Verdict.outcome a v ∧ (x.on m).2.verdicts = m.verdicts ++ [v]

theorem asks_done {x : Drive D σ Unit} {m : Machine D σ} (h : Asks () x m) :
    Asks .done (done x) m := by
  unfold Asks done at *
  rw [on_bind]
  rcases hx : x.on m with ⟨o, m'⟩
  rw [hx] at h
  rcases h with ⟨r, rfl, hr⟩ | ⟨v, rfl, hv⟩
  · exact Or.inl ⟨r, rfl, hr⟩
  · cases v with
    | ok _ => exact Or.inr ⟨.ok (), rfl, hv⟩
    | error e => exact Or.inr ⟨.error e, rfl, hv⟩

end Drive

theorem Host.call_verdicts (h : Host D σ) (c : Call D) (m : Machine D σ) :
    ((h.call c).on m).2.verdicts =
      m.verdicts ++ (c.verdict? (h.answer c m.world).reply).toList := by
  have reply : (h.reply c m).verdicts =
      m.verdicts ++ (c.verdict? (h.answer c m.world).reply).toList :=
    Machine.verdicts_record { m with world := (h.answer c m.world).world } _
  apply Host.call_keeps (I := fun m' => m'.verdicts = _) reply
  intro m' s w _ _ hm'
  rw [Machine.verdicts_record, hm']
  exact List.append_nil _

theorem Host.Steady.call_verdicts {h : Host D σ} (steady : h.Steady) (c : Call D)
    (m : Machine D σ) : ∃ v m', (h.call c).on m = (.ok v, m') ∧
      m'.verdicts = m.verdicts ++ (c.verdict? v).toList := by
  obtain ⟨m', hm'⟩ := Host.on_call_of_steady steady c m
  have hverdicts := h.call_verdicts c m
  rw [hm'] at hverdicts
  exact ⟨_, m', hm', hverdicts⟩

namespace Block

variable {b : Block D σ} (steady : b.host.Steady)
include steady

theorem request_asks (line : UInt32) (m : Machine D σ) : Asks () (b.request line) m := by
  unfold Asks Block.request
  by_cases ho : b.owns m.memory line = true
  · obtain ⟨v, m', hon, hverdicts⟩ := steady.call_verdicts (.pin (.request line)) m
    have hcall : (b.callPin (.request line)).on m = (.ok v, m') := hon
    rw [on_bind_ok (on_attempt_ok (b.on_own_of_owns ho))]
    simp only [on_bind_ok hcall]
    cases v with
    | ok _ => exact Or.inr ⟨.ok (), rfl, hverdicts⟩
    | error e => exact Or.inr ⟨.error e, rfl, hverdicts⟩
  · rw [Bool.not_eq_true] at ho
    rw [on_bind_ok (on_attempt_refused (b.on_own_of_not_owns ho))]
    exact Or.inl ⟨.busy, rfl, nofun, rfl⟩

theorem setWake_asks (line : UInt32) (enable : Bool) (m : Machine D σ) :
    Asks () (b.setWake line enable) m := by
  unfold Asks Block.setWake
  cases hwake : Wake.indexOf? line with
  | none =>
    rw [Wake.find_bind_none hwake]
    exact Or.inl ⟨.noWakeSource, rfl, nofun, rfl⟩
  | some wake =>
    obtain ⟨v, m', hon, hverdicts⟩ := steady.call_verdicts (.wake (.arm wake enable))
      (m.record (.notice (.wakeFound wake line)))
    have hcall : (b.callWake (.arm wake enable)).on
        (m.record (.notice (.wakeFound wake line))) = (.ok v, m') := hon
    rw [m.verdicts_record, Effect.verdict?, Option.toList, List.append_nil] at hverdicts
    rw [Wake.find_bind_some hwake, on_bind_ok (on_notify _ m)]
    simp only [on_bind_ok hcall]
    cases v with
    | ok _ => exact Or.inr ⟨.ok (), rfl, hverdicts⟩
    | error e =>
      have hnoted := Machine.verdicts_record m' (.notice (.wakeRefused enable line e))
      rw [Effect.verdict?, Option.toList, List.append_nil] at hnoted
      exact Or.inr ⟨.error e, rfl, hnoted.trans hverdicts⟩

/-- Looking a virtual interrupt up is no question of verdicts. -/
theorem lineOfVirq_asks {virq : UInt32} {f : UInt32 → Drive D σ Unit}
    (hf : ∀ line m, Asks () (f line) m) (m : Machine D σ) :
    Asks () (b.lineOfVirq virq >>= f) m := by
  have hline : (∃ r m', (b.lineOfVirq virq).on m = (.error (.refused r), m') ∧
      (∀ e, r ≠ .collaborator e) ∧ m'.verdicts = m.verdicts) ∨
      ∃ line m', (b.lineOfVirq virq).on m = (.ok line, m') ∧ m'.verdicts = m.verdicts := by
    unfold Block.lineOfVirq
    cases b.domain with
    | none => exact Or.inl ⟨.invalidLine, m, rfl, nofun, rfl⟩
    | some d =>
      obtain ⟨v, m', hon, hverdicts⟩ := steady.call_verdicts (.domain d (.lineOf virq)) m
      have hcall : (b.callDomain d (.lineOf virq)).on m = (.ok v, m') := hon
      rw [Call.verdict?, Option.toList, List.append_nil] at hverdicts
      simp only [on_bind_ok hcall]
      cases v with
      | none => exact Or.inl ⟨.invalidLine, m', rfl, nofun, hverdicts⟩
      | some line => exact Or.inr ⟨line, m', rfl, hverdicts⟩
  unfold Asks
  rcases hline with ⟨r, m', hon, hr, hverdicts⟩ | ⟨line, m', hon, hverdicts⟩
  · rw [on_bind_error hon]
    exact Or.inl ⟨r, rfl, hr, hverdicts⟩
  · rw [on_bind_ok hon, ← hverdicts]
    exact hf line m'

theorem perform_asks {op : Operation D} (h : op.Consults) (m : Machine D σ) :
    Asks .done (b.perform op) m := by
  cases op with
  | request line => exact asks_done (request_asks steady line m)
  | setWake line enable => exact asks_done (setWake_asks steady line enable m)
  | consumer c =>
    cases c with
    | request line => exact asks_done (request_asks steady line m)
    | _ => exact h.elim
  | irq c =>
    cases c with
    | setWake virq enable =>
      exact asks_done (lineOfVirq_asks steady (fun line => setWake_asks steady line enable) m)
    | _ => exact h.elim
  | _ => exact h.elim

end Block

structure Host.Parallel (h : Host D σ) (k : Host D τ) (W : σ → τ → Prop) : Prop where
  replies : ∀ {s u}, W s u → ∀ c : Call D,
    c.Agree (fun _ _ => True) (h.answer c s).reply (k.answer c u).reply
  writes : ∀ {s u}, W s u → ∀ c : Call D, (k.answer c u).writes = (h.answer c s).writes
  worlds : ∀ {s u}, W s u → ∀ c : Call D, W (h.answer c s).world (k.answer c u).world

def Call.ruled (v : Verdict) : (c : Call D) → c.Reply → c.Reply
  | .pin (.request _), _ | .pin (.input _), _ | .pin (.output _), _
  | .wake (.setType ..), _ | .wake (.arm ..), _ => v
  | .pin (.free _), r | .wake (.publish ..), r | .domain _ _, r => r

/-- The host, with the verdicts of `rule`, which may be another one at each call. -/
def Host.ruled (h : Host D σ) (rule : Nat → Call D → Verdict) : Host D (σ × Nat) where
  answer c s :=
    let a := h.answer c s.1
    { reply := c.ruled (rule s.2 c) a.reply, world := (a.world, s.2 + 1), writes := a.writes }

theorem Host.ruled_parallel (h : Host D σ) (rule rule' : Nat → Call D → Verdict) :
    (h.ruled rule).Parallel (h.ruled rule') fun s u => s.1 = u.1 where
  replies {s u} hsu c := by
    simp only [Host.ruled, hsu]
    cases c with
    | pin c => cases c <;> trivial
    | wake c => cases c <;> trivial
    | domain d c => rfl
  writes hsu c := by simp only [Host.ruled, hsu]
  worlds hsu c := by simp only [Host.ruled, hsu]

theorem Host.ruled_steady {h : Host D σ} (steady : h.Steady) (rule : Nat → Call D → Verdict) :
    (h.ruled rule).Steady :=
  fun c s => steady c s.1

structure Machine.Parallel (W : σ → τ → Prop) (m : Machine D σ) (n : Machine D τ) : Prop where
  world : W m.world n.world
  memory : n.memory = m.memory
  calls : n.calls = m.calls

def parallel (D : Type) (W : σ → τ → Prop) : Likeness D σ τ where
  machines := Machine.Parallel W
  gates _ := True
  registers _ := True
  calls _ := True
  verdicts _ _ := True

section Lasts

variable {W : σ → τ → Prop} {m : Machine D σ} {n : Machine D τ}

theorem Machine.Parallel.record (h : m.Parallel W n) {e : Effect D} :
    (m.record e).Parallel W (n.record e) := by
  constructor
  · exact h.world
  · exact congrArg (Effect.onMemory · e) h.memory
  · rw [calls_record, calls_record, h.calls]

theorem Machine.Parallel.notice_left (h : m.Parallel W n) (x : Notice) :
    (m.record (.notice x)).Parallel W n :=
  ⟨h.world, h.memory, by rw [calls_record, h.calls]; exact (List.append_nil _).symm⟩

theorem Machine.Parallel.notice_right (h : m.Parallel W n) (x : Notice) :
    m.Parallel W (n.record (.notice x)) :=
  ⟨h.world, h.memory, by rw [calls_record, h.calls]; exact List.append_nil _⟩

theorem Host.Parallel.lasts {b : Block D σ} {k : Host D τ} (h : b.host.Parallel k W) :
    (parallel D W).Lasts b k where
  gate hm _ := by rw [hm.memory]
  opens _ _ _ := trivial
  load hm _ _ _ _ := by rw [hm.memory]
  store hm _ _ _ _ _ := hm.record
  call c _ := by
    apply Host.matches_call
    · exact fun m n hm => ⟨h.replies hm.world c, h.writes hm.world c⟩
    · intro m n hm
      constructor
      · exact h.worlds hm.world c
      · exact hm.memory
      · rw [Machine.calls_reply, Machine.calls_reply, hm.calls]
    · exact fun m n s w _ _ hm => hm.record
  notice _ hm := hm.record
  report {v u} f _ := by
    intro m n hm
    cases v <;> cases u
    · exact ⟨rfl, (hm.notice_left _).notice_right _⟩
    · exact ⟨rfl, hm.notice_left _⟩
    · exact ⟨rfl, hm.notice_right _⟩
    · exact ⟨rfl, hm⟩

end Lasts

namespace System

variable {s : System ι D σ} {t : System ι D τ} {W : σ → τ → Prop}

structure Parallel (s : System ι D σ) (t : System ι D τ) (W : σ → τ → Prop) : Prop where
  twins : s.Twins t
  hosts : ∀ i, (s.block i).host.Parallel (t.block i).host W
  machines : s.machine.Parallel W t.machine

variable [DecidableEq ι]

theorem Parallel.after (h : s.Parallel t W) (q : Request ι D) :
    q.op.Agrees (fun _ _ => True) (s.outcome q) (t.outcome q) ∧
      (s.after q).Parallel (t.after q) W := by
  have lasts := (h.hosts q.who).lasts
  have status : (parallel D W).ShowsStatus (s.block q.who) := fun hm _ _ => by rw [hm.memory]
  have hq := lasts.perform_matches q.op (fun _ _ => trivial) (fun _ _ => trivial)
    (fun _ _ => trivial) fun _ => status
  rw [← h.twins q.who] at hq
  obtain ⟨agrees, twins, machines⟩ := h.twins.after hq h.machines
  refine ⟨agrees, twins, fun i => ?_, machines⟩
  rw [s.after_host, t.after_host]
  exact h.hosts i

theorem Parallel.run (h : s.Parallel t W) (qs : List (Request ι D)) :
    (System.run qs s).Parallel (System.run qs t) W := by
  induction qs generalizing s t with
  | nil => exact h
  | cons q qs ih => exact ih (h.after q).2

theorem run_steady (steady : ∀ i, (s.block i).host.Steady) (qs : List (Request ι D)) (i : ι) :
    ((run qs s).block i).host.Steady := by
  have step : ∀ q ∈ qs, ∀ t : System ι D σ, (∀ i, (t.block i).host.Steady) →
      ∀ i, ((t.after q).block i).host.Steady := by
    intro q _ t ht i
    rw [t.after_host]
    exact ht i
  exact run_keeps qs step s steady i

theorem outcome_asks (steady : ∀ i, (s.block i).host.Steady) {q : Request ι D}
    (h : q.op.Consults) :
    (∃ r, s.outcome q = .error (.refused r) ∧ (∀ e, r ≠ .collaborator e) ∧
      (s.after q).machine.verdicts = s.machine.verdicts) ∨
    ∃ v, s.outcome q = Verdict.outcome .done v ∧
      (s.after q).machine.verdicts = s.machine.verdicts ++ [v] := by
  rw [s.outcome_eq, s.after_machine]
  exact Block.perform_asks (steady q.who) h s.machine

/-- The same request is refused in both runs, or a verdict is asked for in both. -/
theorem Parallel.asks (h : s.Parallel t W) (hs : ∀ i, (s.block i).host.Steady)
    (ht : ∀ i, (t.block i).host.Steady) {q : Request ι D} (hq : q.op.Consults) :
    (∃ r, (∀ e, r ≠ .collaborator e) ∧ s.outcome q = .error (.refused r) ∧
      t.outcome q = .error (.refused r) ∧
      (s.after q).machine.verdicts = s.machine.verdicts ∧
      (t.after q).machine.verdicts = t.machine.verdicts) ∨
    ∃ v u, s.outcome q = Verdict.outcome .done v ∧ t.outcome q = Verdict.outcome .done u ∧
      (s.after q).machine.verdicts = s.machine.verdicts ++ [v] ∧
      (t.after q).machine.verdicts = t.machine.verdicts ++ [u] := by
  obtain ⟨agrees, after⟩ := h.after q
  -- One verdict a call: the runs made the same calls, so neither can have been asked alone.
  have count : ∀ {m : Machine D σ} {n : Machine D τ}, m.Parallel W n →
      n.verdicts.length = m.verdicts.length := fun hm => by
    rw [Machine.length_verdicts, Machine.length_verdicts, hm.calls]
  have before := count h.machines
  have afterwards := count after.machines
  rcases outcome_asks hs hq with ⟨r, hso, hr, hsv⟩ | ⟨v, hso, hsv⟩ <;>
    rcases outcome_asks ht hq with ⟨r', hto, hr', htv⟩ | ⟨u, hto, htv⟩
  · rcases agrees.1 hq with heq | ⟨v, u, -, hv, -⟩
    · exact Or.inl ⟨r, hr, hso, heq ▸ hso, hsv, htv⟩
    · rw [hso] at hv
      cases v with
      | ok _ => cases hv
      | error e =>
        cases hv
        exact absurd rfl (hr e)
  · rw [hsv, htv, List.length_append, before] at afterwards
    simp at afterwards
  · rw [hsv, htv, List.length_append, before] at afterwards
    simp at afterwards
  · exact Or.inr ⟨v, u, hso, hto, hsv, htv⟩

/-- Two runs over hosts that differ in verdicts only: after every history memory is the same and so
are the calls made, and the next request has the same outcome, unless it passes a verdict on. Then
both runs refuse it for the same other reason, or each asks for one verdict and answers that. -/
theorem run_ignores_verdicts (h : s.Parallel t W) (hs : ∀ i, (s.block i).host.Steady)
    (ht : ∀ i, (t.block i).host.Steady) (qs : List (Request ι D)) :
    (run qs t).machine.memory = (run qs s).machine.memory ∧
    (run qs t).machine.calls = (run qs s).machine.calls ∧
    (∀ q : Request ι D, ¬ q.op.Consults → (run qs t).outcome q = (run qs s).outcome q) ∧
    (∀ q : Request ι D, q.op.Consults →
      (∃ r, (∀ e, r ≠ .collaborator e) ∧ (run qs s).outcome q = .error (.refused r) ∧
        (run qs t).outcome q = .error (.refused r) ∧
        ((run qs s).after q).machine.verdicts = (run qs s).machine.verdicts ∧
        ((run qs t).after q).machine.verdicts = (run qs t).machine.verdicts) ∨
      ∃ v u, (run qs s).outcome q = Verdict.outcome .done v ∧
        (run qs t).outcome q = Verdict.outcome .done u ∧
        ((run qs s).after q).machine.verdicts = (run qs s).machine.verdicts ++ [v] ∧
        ((run qs t).after q).machine.verdicts = (run qs t).machine.verdicts ++ [u]) ∧
    ∀ e, (Refusal.collaborator e).toSystemError = e := by
  have parallel := h.run qs
  exact ⟨parallel.machines.memory, parallel.machines.calls,
    fun q hq => ((parallel.after q).1.2 hq).symm,
    fun q hq => parallel.asks (run_steady hs qs) (run_steady ht qs) hq, fun _ => rfl⟩

end System

namespace Simulation

def Fixture.ruledPair (f : Fixture) (rule : Nat → Call Nat → Verdict) (m : Memory) :
    System Bool Nat (World × Nat) :=
  ⟨fun _ => f.probed.withHost ((hostFor none none).ruled rule), .start m (f.world, 0)⟩

theorem Fixture.ruledPair_parallel (f : Fixture) (rule rule' : Nat → Call Nat → Verdict)
    (m : Memory) :
    (f.ruledPair rule m).Parallel (f.ruledPair rule' m) fun s u => s.1 = u.1 where
  twins _ := rfl
  hosts _ := Host.ruled_parallel _ rule rule'
  machines := ⟨rfl, rfl, rfl⟩

end Simulation

open Simulation in
/-- Every other verdict is a timeout in one run, and none is in the other. -/
theorem pair_run_ignores_verdicts :
    let rule : Nat → Call Nat → Verdict := fun n _ => if n % 2 = 0 then .error .timedOut else .ok ()
    let s := Fixture.start.ruledPair (fun _ _ => .ok ()) Fixture.granting
    let t := Fixture.start.ruledPair rule Fixture.granting
    let history : List (Request Bool Nat) :=
      [⟨true, .directionOutput 0 true⟩, ⟨false, .setType 6 .edgeBoth⟩, ⟨false, .request 0⟩]
    s.Parallel t (fun s u => s.1 = u.1) ∧
      (System.run history t).machine.memory = (System.run history s).machine.memory ∧
      (System.run history t).machine.calls = (System.run history s).machine.calls := by
  intro rule s t history
  have parallel : s.Parallel t fun s u => s.1 = u.1 := Fixture.start.ruledPair_parallel _ _ _
  have steady : ∀ rule : Nat → Call Nat → Verdict,
      ((Fixture.hostFor none none).ruled rule).Steady :=
    Host.ruled_steady (Host.steady_of_quiet (Fixture.hostFor_quiet none none))
  have hrun := System.run_ignores_verdicts parallel (fun _ => steady fun _ _ => .ok ())
    (fun _ => steady rule) history
  exact ⟨parallel, hrun.1, hrun.2.1⟩

end Gpio
