import Gpio.Proofs.Dispatch
import Gpio.Proofs.Likeness
import Gpio.Proofs.Refusals

/-!
# Operations of two like machines

One lemma an operation, each in the shape of its definition: on machines
that are alike, a block and its twin with another host do the same, up to
what their hosts answer. `Makes` says which calls an operation can make, so
that nothing is asked of a likeness about other calls. `perform_matches` puts
the operations together.
-/

set_option autoImplicit false

namespace Gpio

open Drive

variable {D σ τ α : Type}

def Verdict.outcome (a : α) : Verdict → Except Failure α
  | .ok () => .ok a
  | .error e => .error (.refused (.collaborator e))

/-- The outcomes are one, or each passes on a verdict, and the verdicts agree. -/
def Verdict.Settle (T : Verdict → Verdict → Prop) (a : α) (o p : Except Failure α) : Prop :=
  o = p ∨ ∃ v u, T v u ∧ o = outcome a v ∧ p = outcome a u

theorem Verdict.settle_self (T : Verdict → Verdict → Prop) (a : α) (o : Except Failure α) :
    Settle T a o o := Or.inl rfl

def ConsumerCall.Consults : ConsumerCall → Prop
  | request _ => True
  | _ => False

def IrqCall.Consults : IrqCall → Prop
  | setWake .. => True
  | _ => False

def Operation.Consults : Operation D → Prop
  | request _ | setWake .. => True
  | consumer c => c.Consults
  | irq c => c.Consults
  | _ => False

def ConsumerCall.Makes : ConsumerCall → Call D → Prop
  | request line, c => c = .pin (.request line)
  | free line, c => c = .pin (.free line)
  | directionInput line, c => c = .pin (.input line)
  | directionOutput line _, c => c = .pin (.output line)
  | toIrq line, c => ∃ d, c = .domain d (.find line)
  | get _, _ | set .., _ | setDebounce .., _ => False

def Call.TellsType (line : UInt32) (t : Trigger) (c : Call D) : Prop :=
  ∃ wake, Wake.indexOf? line = some wake ∧ c = .wake (.setType wake t)

def Call.Arms (line : UInt32) (enable : Bool) (c : Call D) : Prop :=
  ∃ wake, Wake.indexOf? line = some wake ∧ c = .wake (.arm wake enable)

def IrqCall.Makes (i : IrqCall) (c : Call D) : Prop :=
  (∃ d, c = .domain d (.lineOf i.virq)) ∨
    match i with
    | setType virq _ => (∃ line t, c.TellsType line t) ∨ ∃ d flow, c = .domain d (.setFlow virq flow)
    | setWake _ enable => ∃ line, c.Arms line enable
    | _ => False

def Operation.Makes : Operation D → Call D → Prop
  | request line, c => c = .pin (.request line)
  | free line, c => c = .pin (.free line)
  | directionInput line, c => c = .pin (.input line)
  | directionOutput line _, c => c = .pin (.output line)
  | toIrq line, c => ∃ d, c = .domain d (.find line)
  | setType line t, c => c.TellsType line t
  | setWake line enable, c => c.Arms line enable
  | consumer i, c => i.Makes c
  | irq i, c => i.Makes c
  | attach d, c => ∃ i, c = .domain d i
  | install, c => ∃ d irq id, c = .domain d (.setChained irq id)
  | publishWakeTable, c => c = .wake (.publish 0 Wake.sources)
  | chained _, c => ∃ d i, i.Routing ∧ c = .domain d i
  | _, _ => False

namespace Wake

theorem find_bind_none {line : UInt32} (h : indexOf? line = none)
    (f : Option Nat → Drive D σ α) : Wake.find line >>= f = f none := by
  unfold Wake.find
  rw [h]
  rfl

theorem find_bind_some {line : UInt32} {wake : Nat} (h : indexOf? line = some wake)
    (f : Option Nat → Drive D σ α) :
    Wake.find line >>= f = Drive.notify (.wakeFound wake line) >>= fun _ => f (some wake) := by
  unfold Wake.find
  rw [h]
  rfl

end Wake

namespace Block

def setTypeBehind (b : Block D σ) (virq : UInt32) (raw : Word) : Drive D σ Flow := do
  let line ← b.lineOfVirq virq
  let t ← .ofChecked (Trigger.ofSense raw)
  b.setType line t

def switchFlow (b : Block D σ) (virq : UInt32) (flow : Flow) : Drive D σ Unit :=
  match b.domain with
  | some d => b.callDomain d (.setFlow virq flow)
  | none => pure ()

theorem setTypeOfVirq_eq (b : Block D σ) (virq : UInt32) (raw : Word) :
    b.setTypeOfVirq virq raw = b.setTypeBehind virq raw >>= b.switchFlow virq := by
  simp only [setTypeOfVirq, setTypeBehind, bind_assoc]
  rfl

end Block

def Likeness.ShowsStatus (w : Likeness D σ τ) (b : Block D σ) : Prop :=
  ∀ {m n}, w.machines m n → ∀ p ∈ ports,
    n.memory.loadWord ((b.bank p.bank).base + p.statusOffset) =
      m.memory.loadWord ((b.bank p.bank).base + p.statusOffset)

namespace Likeness.Lasts

variable {w : Likeness D σ τ} {b : Block D σ} {k : Host D τ} (lasts : w.Lasts b k)
include lasts

/-- Behind a call whose verdict is only noted, nothing differs. -/
theorem noted {v u : Verdict} (hvu : w.verdicts v u) (f : SystemError → Notice)
    {x : Drive D σ Unit} {y : Drive D τ Unit} (hx : x = Drive.report f v)
    (hy : y = Drive.report f u) :
    Matches w.machines Eq x y := by
  subst hx hy
  exact lasts.report f hvu

section Line

variable {line : UInt32}

theorem request (hg : w.gates line) (hc : w.calls (.pin (.request line))) :
    Matches w.machines (Verdict.Settle w.verdicts ()) (b.request line)
      ((b.withHost k).request line) := by
  apply lasts.attempt_gated hg
  · intro _
    apply matches_bind_both (Verdict.settle_self _ _) (lasts.call _ hc)
    rintro v u hvu m n hmn
    refine ⟨Or.inr ⟨v, u, hvu, ?_, ?_⟩, ?_⟩
    · cases v <;> rfl
    · cases u <;> rfl
    · cases v <;> cases u <;> exact hmn
  · exact fun _ => matches_refuse (Verdict.settle_self _ _) _

theorem free (hg : w.gates line) (hc : w.calls (.pin (.free line))) :
    Matches w.machines Eq (b.free line) ((b.withHost k).free line) := by
  apply matches_bind_both (fun _ => rfl) (lasts.call _ hc)
  intro _ _ _
  apply lasts.attempt_gated hg
  · intro hr
    apply matches_seq (matches_attempt (lasts.setConfig hr _ _))
    intro reply
    cases reply with
    | ok _ => exact matches_pure _
    | error r => exact lasts.notify _
  · exact fun _ => matches_pure _

theorem directionInput (hg : w.gates line) (hc : w.calls (.pin (.input line))) :
    Matches w.machines Eq (b.directionInput line) ((b.withHost k).directionInput line) := by
  apply lasts.gated (fun _ => rfl) hg
  intro hr
  apply matches_seq (lasts.setConfig hr _ _)
  intro _
  apply matches_seq (lasts.setConfig hr _ _)
  intro _
  apply matches_bind_both (fun _ => rfl) (lasts.call _ hc)
  intro v u hvu
  exact lasts.noted hvu (.inputRefused line) (by cases v <;> rfl) (by cases u <;> rfl)

theorem setValue (hg : w.gates line) (level : Bool) :
    Matches w.machines Eq (b.setValue line level) ((b.withHost k).setValue line level) := by
  apply lasts.gated (fun _ => rfl) hg
  intro hr
  exact matches_seq (lasts.write hr _ _) fun _ => lasts.write hr _ _

/-- The gate is asked by `setValue`; what follows it runs behind the same gate. -/
theorem directionOutput (hg : w.gates line) (hc : w.calls (.pin (.output line))) (level : Bool) :
    Matches w.machines Eq (b.directionOutput line level)
      ((b.withHost k).directionOutput line level) := by
  simp only [Block.directionOutput, Block.setValue, bind_assoc]
  apply lasts.gated (fun _ => rfl) hg
  intro hr
  apply matches_seq (lasts.write hr _ _)
  intro _
  apply matches_seq (lasts.write hr _ _)
  intro _
  apply matches_seq (lasts.setConfig hr _ _)
  intro _
  apply matches_seq (lasts.setConfig hr _ _)
  intro _
  apply matches_bind_both (fun _ => rfl) (lasts.call _ hc)
  intro v u hvu
  exact lasts.noted hvu (.outputRefused line) (by cases v <;> rfl) (by cases u <;> rfl)

theorem setDebounce (hg : w.gates line) (usecs : UInt32) :
    Matches w.machines Eq (b.setDebounce line usecs) ((b.withHost k).setDebounce line usecs) := by
  apply lasts.gated (fun _ => rfl) hg
  intro hr
  by_cases h : Layout.debounceLimit < Block.debounceMillis usecs
  · simp only [h, if_true]
    exact matches_refuse (fun _ => rfl) _
  · simp only [h, if_false]
    exact matches_seq (lasts.setConfig hr _ _) fun _ => lasts.write hr _ _

theorem toIrq (hc : ∀ d, w.calls (.domain d (.find line))) :
    Matches w.machines Eq (b.toIrq line) ((b.withHost k).toIrq line) := by
  unfold Block.toIrq
  rw [b.withHost_domain]
  cases b.domain with
  | none => exact matches_pure _
  | some d => exact lasts.callDomain d (hc d)

theorem ack (hg : w.gates line) :
    Matches w.machines Eq (b.ack line) ((b.withHost k).ack line) :=
  lasts.gated (fun _ => rfl) hg fun hr => lasts.write hr _ _

theorem mask (hg : w.gates line) :
    Matches w.machines Eq (b.mask line) ((b.withHost k).mask line) :=
  lasts.gated (fun _ => rfl) hg fun hr => lasts.setConfig hr _ _

theorem unmask (hg : w.gates line) :
    Matches w.machines Eq (b.unmask line) ((b.withHost k).unmask line) :=
  lasts.gated (fun _ => rfl) hg fun hr => lasts.setConfig hr _ _

theorem setType (hg : w.gates line) (t : Trigger) (hc : ∀ c, c.TellsType line t → w.calls c) :
    Matches w.machines Eq (b.setType line t) ((b.withHost k).setType line t) := by
  apply lasts.gated (fun _ => rfl) hg
  intro hr
  apply matches_seq (lasts.modifyRegister hr _ _)
  intro _
  apply matches_seq (lasts.setConfig hr _ _)
  intro _
  cases hwake : Wake.indexOf? line with
  | none =>
    rw [Wake.find_bind_none hwake, Wake.find_bind_none hwake]
    exact matches_pure _
  | some wake =>
    rw [Wake.find_bind_some hwake, Wake.find_bind_some hwake]
    apply matches_seq (lasts.notify _)
    intro _
    apply matches_bind_both (fun _ => rfl) (lasts.call _ (hc _ ⟨wake, hwake, rfl⟩))
    intro v u hvu
    have hnoted := matches_seq (lasts.report (.wakeTypeRefused line wake) hvu)
      fun _ => matches_pure t.flow
    cases v <;> cases u <;> exact hnoted

theorem setWake (enable : Bool) (hc : ∀ c, c.Arms line enable → w.calls c) :
    Matches w.machines (Verdict.Settle w.verdicts ()) (b.setWake line enable)
      ((b.withHost k).setWake line enable) := by
  unfold Block.setWake
  cases hwake : Wake.indexOf? line with
  | none =>
    rw [Wake.find_bind_none hwake, Wake.find_bind_none hwake]
    exact matches_refuse (Verdict.settle_self _ _) _
  | some wake =>
    rw [Wake.find_bind_some hwake, Wake.find_bind_some hwake]
    apply matches_bind (Verdict.settle_self _ _) (lasts.notify _)
    intro _
    apply matches_bind_both (Verdict.settle_self _ _) (lasts.call _ (hc _ ⟨wake, hwake, rfl⟩))
    rintro v u hvu m n hmn
    have hnoted := (lasts.report (.wakeRefused enable line) hvu m n hmn).2
    refine ⟨Or.inr ⟨v, u, hvu, ?_, ?_⟩, ?_⟩
    · cases v <;> rfl
    · cases u <;> rfl
    · cases v <;> cases u <;> exact hnoted

end Line

section Look

variable {line : UInt32} (hg : w.gates line) {m : Machine D σ} {n : Machine D τ}
  (h : w.machines m n)
include hg h

/-- Behind the gate, a look sees registers that hold the same. -/
theorem owned_look {f g : Location → Checked α} (hf : w.registers line → ∀ l, f l = g l) :
    (b.ownedLine m.memory line >>= f) = (b.ownedLine n.memory line >>= g) := by
  have hgate := lasts.gate h hg
  by_cases ho : b.owns m.memory line = true
  · obtain ⟨l, hl, hm⟩ := b.ownedLine_of_owns ho
    obtain ⟨l', hl', hn⟩ := b.ownedLine_of_owns (hgate.trans ho)
    obtain rfl : l = l' := Except.ok.inj (hl.symm.trans hl')
    rw [hm, hn]
    exact hf (lasts.opens h hg ho) l
  · rw [Bool.not_eq_true] at ho
    rw [b.ownedLine_of_not_owns ho, b.ownedLine_of_not_owns (hgate.trans ho)]
    rfl

theorem isAccessible_eq : b.isAccessible m.memory line = b.isAccessible n.memory line := by
  rw [b.isAccessible_eq, b.isAccessible_eq, lasts.gate h hg]

theorem getValue_eq : b.getValue m.memory line = b.getValue n.memory line := by
  apply lasts.owned_look hg h
  intro hr _
  simp only [lasts.read_eq hr _ h]

theorem isEnabled_eq : b.isEnabled m.memory line = b.isEnabled n.memory line := by
  refine congrArg Checked.optional (lasts.owned_look hg h fun hr _ => ?_)
  simp only [lasts.read_eq hr _ h]

theorem readRegisters_eq : b.readRegisters m.memory line = b.readRegisters n.memory line := by
  refine congrArg Checked.optional (lasts.owned_look hg h fun hr _ => ?_)
  simp only [lasts.read_eq hr _ h]

end Look

theorem lineOfVirq {virq : UInt32} (hc : ∀ d, w.calls (.domain d (.lineOf virq))) :
    Matches w.machines Eq (b.lineOfVirq virq) ((b.withHost k).lineOfVirq virq) := by
  unfold Block.lineOfVirq
  rw [b.withHost_domain]
  cases b.domain with
  | none => exact matches_refuse (fun _ => rfl) _
  | some d =>
    apply matches_seq (lasts.callDomain d (hc d))
    intro reply
    cases reply with
    | some line => exact matches_pure _
    | none => exact matches_refuse (fun _ => rfl) _

/-- The flow is programmed for the line behind a virtual interrupt; its handler is not told yet. -/
theorem setTypeBehind {virq : UInt32} (hg : ∀ line, w.gates line)
    (hc : ∀ d, w.calls (.domain d (.lineOf virq)))
    (ht : ∀ line t c, c.TellsType line t → w.calls c) (raw : Word) :
    Matches w.machines Eq (b.setTypeBehind virq raw) ((b.withHost k).setTypeBehind virq raw) := by
  apply matches_seq (lasts.lineOfVirq hc)
  intro line
  apply matches_seq (matches_ofChecked _)
  intro t
  exact lasts.setType (hg line) t (ht line t)

theorem setTypeOfVirq {virq : UInt32} (hg : ∀ line, w.gates line)
    (hc : ∀ d, w.calls (.domain d (.lineOf virq)))
    (ht : ∀ line t c, c.TellsType line t → w.calls c)
    (hf : ∀ d flow, w.calls (.domain d (.setFlow virq flow))) (raw : Word) :
    Matches w.machines Eq (b.setTypeOfVirq virq raw) ((b.withHost k).setTypeOfVirq virq raw) := by
  rw [Block.setTypeOfVirq_eq, Block.setTypeOfVirq_eq]
  apply matches_seq (lasts.setTypeBehind hg hc ht raw)
  intro flow
  unfold Block.switchFlow
  rw [b.withHost_domain]
  cases b.domain with
  | none => exact matches_pure _
  | some d => exact lasts.callDomain d (hf d flow)

theorem dispatchPin {d : D} (hc : ∀ c : DomainCall, c.Routing → w.calls (.domain d c))
    (port pin : Nat) :
    Matches w.machines Eq (b.dispatchPin d port pin) ((b.withHost k).dispatchPin d port pin) := by
  apply matches_seq (lasts.callDomain d (hc (.find _) trivial))
  intro found
  cases found with
  | some virq => exact lasts.callDomain d (hc (.handle virq) trivial)
  | none => exact matches_pure _

theorem dispatchPort (status : w.ShowsStatus b) {d : D}
    (hc : ∀ c : DomainCall, c.Routing → w.calls (.domain d c)) (port : Nat) :
    Matches w.machines Eq (b.dispatchPort d port) ((b.withHost k).dispatchPort d port) := by
  unfold Block.dispatchPort
  cases hp : ports[port]? with
  | none => exact matches_pure _
  | some p =>
    apply matches_seq (matches_attempt (matches_observe ?_))
    · intro read
      cases read with
      | error r => exact matches_pure _
      | ok status => exact matches_forM _ fun pin _ => lasts.dispatchPin hc port pin
    · intro m n h
      show (b.bank p.bank).read m.memory p.statusOffset =
        (b.bank p.bank).read n.memory p.statusOffset
      simp only [Bank.read, status h p (List.mem_of_getElem? hp)]

theorem handleChained (status : w.ShowsStatus b)
    (hc : ∀ d (c : DomainCall), c.Routing → w.calls (.domain d c)) (controller : UInt8) :
    Matches w.machines Eq (b.handleChained controller)
      ((b.withHost k).handleChained controller) := by
  unfold Block.handleChained
  rw [b.withHost_domain, b.withHost_controller?]
  cases b.controller? controller with
  | none => exact lasts.notify _
  | some c =>
    cases b.domain with
    | none => exact matches_pure _
    | some d =>
      apply matches_seq (lasts.callDomain d (hc d (.enter c.irq) trivial))
      intro _
      apply matches_seq
        (matches_forM _ fun port _ => lasts.dispatchPort status (hc d) port)
      intro _
      exact lasts.callDomain d (hc d (.exit c.irq) trivial)

theorem install (hc : ∀ d irq id, w.calls (.domain d (.setChained irq id))) :
    Matches w.machines Eq b.install (b.withHost k).install := by
  unfold Block.install
  rw [b.withHost_domain, b.withHost_controllers]
  cases b.domain with
  | none => exact matches_refuse (fun _ => rfl) _
  | some d => exact matches_forM _ fun c _ => lasts.callDomain d (hc d _ _)

theorem publishWakeTable (hc : w.calls (.wake (.publish 0 Wake.sources))) :
    Matches w.machines Eq b.publishWakeTable (b.withHost k).publishWakeTable := by
  apply (lasts.call _ hc).mono
  intro o p h
  cases o <;> cases p
  · exact congrArg _ h
  · exact h.elim
  · exact h.elim
  · rfl

section Mask

variable {d : D} (hf : ∀ line, w.calls (.domain d (.find line)))
  (hs : ∀ virq, w.calls (.domain d (.setFlow virq .simple)))
include hf hs

theorem giveFlow (line : UInt32) (owned : Bool) :
    Matches w.machines Eq (b.giveFlow d line owned) ((b.withHost k).giveFlow d line owned) := by
  apply matches_seq (lasts.callDomain d (hf line))
  intro found
  cases found with
  | some virq =>
    exact matches_seq (lasts.callDomain d (hs virq)) fun _ => matches_pure _
  | none => exact matches_pure _

theorem maskLine {line : UInt32} (hg : w.gates line) :
    Matches w.machines Eq (b.maskLine d line) ((b.withHost k).maskLine d line) := by
  intro m n h
  have hgate : (b.withHost k).owns n.memory line = b.owns m.memory line := lasts.gate h hg
  rw [b.on_maskLine, (b.withHost k).on_maskLine, hgate]
  by_cases ho : b.owns m.memory line = true
  · rw [if_pos ho, if_pos ho]
    exact matches_seq (lasts.setConfig (lasts.opens h hg ho) _ _)
      (fun _ => lasts.giveFlow hf hs line true) m n h
  · rw [if_neg ho, if_neg ho]
    exact lasts.giveFlow hf hs line false m n h

theorem maskLines (hg : ∀ line, w.gates line) (ls : List UInt32) :
    Matches w.machines Eq (b.maskLines d ls) ((b.withHost k).maskLines d ls) := by
  induction ls with
  | nil => exact matches_pure _
  | cons line rest ih =>
    apply matches_seq (lasts.maskLine hf hs (hg line))
    intro _
    exact matches_seq ih fun _ => matches_pure _

end Mask

section Attach

variable {d : D} (hc : ∀ c, w.calls (.domain d c))
include hc

theorem mapLines (ls : List UInt32) :
    Matches w.machines Eq (b.mapLines d ls) ((b.withHost k).mapLines d ls) := by
  induction ls with
  | nil => exact matches_pure _
  | cons line rest ih =>
    apply matches_seq (lasts.callDomain d (hc _))
    intro reply
    cases reply with
    | some _ => exact ih
    | none => exact matches_pure _

theorem unmapLines (ls : List UInt32) :
    Matches w.machines Eq (b.unmapLines d ls) ((b.withHost k).unmapLines d ls) := by
  apply matches_forM
  intro line _
  apply matches_seq (lasts.callDomain d (hc _))
  intro found
  cases found with
  | some virq => exact lasts.callDomain d (hc _)
  | none => exact matches_pure _

theorem attach (hg : ∀ line, w.gates line) :
    Matches w.machines Eq (b.attach d) ((b.withHost k).attach d) := by
  apply matches_seq (lasts.mapLines hc lines)
  intro refused
  cases refused with
  | some line =>
    apply matches_seq (lasts.notify _)
    intro _
    exact matches_seq (lasts.unmapLines hc _) fun _ =>
      matches_refuse (fun _ => rfl) _
  | none =>
    have mask : Matches w.machines Eq (b.maskAll d) ((b.withHost k).maskAll d) :=
      matches_seq (lasts.maskLines (fun _ => hc _) (fun _ => hc _) hg lines)
        fun _ => lasts.notify _
    apply matches_seq (matches_attempt mask)
    intro masked
    cases masked with
    | ok _ => exact matches_pure _
    | error r =>
      apply matches_seq (lasts.notify _)
      intro _
      exact matches_seq (lasts.unmapLines hc _) fun _ =>
        matches_refuse (fun _ => rfl) _

end Attach
end Likeness.Lasts

def Operation.Agrees (op : Operation D) (T : Verdict → Verdict → Prop)
    (o p : Except Failure Outcome) : Prop :=
  (op.Consults → Verdict.Settle T .done o p) ∧ (¬ op.Consults → o = p)

theorem Operation.Agrees.eq {op : Operation D} {o p : Except Failure Outcome}
    (h : op.Agrees Eq o p) : p = o := by
  by_cases hop : op.Consults
  · rcases h.1 hop with rfl | ⟨v, _, rfl, rfl, rfl⟩ <;> rfl
  · exact (h.2 hop).symm

namespace Drive

variable {R : Machine D σ → Machine D τ → Prop} {T : Verdict → Verdict → Prop} {op : Operation D}

theorem Matches.agrees {x : Drive D σ Outcome} {y : Drive D τ Outcome} (h : Matches R Eq x y) :
    Matches R (op.Agrees T) x y :=
  h.mono fun _ _ he => ⟨fun _ => Or.inl he, fun _ => he⟩

/-- Where the computations pass verdicts on, so does the operation. -/
theorem Matches.consults {u : Drive D σ Unit} {v : Drive D τ Unit}
    (h : Matches R (Verdict.Settle T ()) u v) (hop : op.Consults) :
    Matches R (op.Agrees T) (done u) (done v) := by
  intro m n hmn
  have hon := h m n hmn
  unfold done
  rw [on_bind, on_bind]
  rcases hm : u.on m with ⟨o, m'⟩
  rcases hn : v.on n with ⟨p, n'⟩
  rw [hm, hn] at hon
  obtain ⟨hsettle, hrel⟩ := hon
  rcases hsettle with rfl | ⟨a, c, hac, rfl, rfl⟩
  · cases o <;> exact ⟨⟨fun _ => Or.inl rfl, fun _ => rfl⟩, hrel⟩
  · refine ⟨⟨fun _ => Or.inr ⟨a, c, hac, ?_, ?_⟩, fun hno => absurd hop hno⟩, ?_⟩
    · cases a <;> rfl
    · cases c <;> rfl
    · cases a <;> cases c <;> exact hrel

end Drive

namespace Likeness.Lasts

variable {w : Likeness D σ τ} {b : Block D σ} {k : Host D τ} (lasts : w.Lasts b k)
include lasts

theorem consumer_matches (c : ConsumerCall) (hg : w.gates c.line)
    (hc : ∀ i, c.Makes i → w.calls i) :
    Matches w.machines ((Operation.consumer c : Operation D).Agrees w.verdicts)
      (b.consumer.run c) ((b.withHost k).consumer.run c) := by
  cases c with
  | request line => exact (lasts.request hg (hc _ rfl)).consults trivial
  | free line => exact (matches_done (lasts.free hg (hc _ rfl))).agrees
  | directionInput line => exact (matches_done (lasts.directionInput hg (hc _ rfl))).agrees
  | directionOutput line level =>
    exact (matches_done (lasts.directionOutput hg (hc _ rfl) level)).agrees
  | get line =>
    have look : Matches w.machines Eq (b.consumer.run (.get line))
        ((b.withHost k).consumer.run (.get line)) :=
      matches_seq (matches_observe fun _ _ h => lasts.getValue_eq hg h)
        fun _ => matches_pure _
    exact look.agrees
  | set line level => exact (matches_done (lasts.setValue hg level)).agrees
  | setDebounce line usecs => exact (matches_done (lasts.setDebounce hg usecs)).agrees
  | toIrq line =>
    have find := lasts.toIrq fun d => hc (.domain d (.find line)) ⟨d, rfl⟩
    exact Matches.agrees (matches_seq find fun _ => matches_pure _)

theorem irq_matches (c : IrqCall) (hg : ∀ line, w.gates line) (hc : ∀ i, c.Makes i → w.calls i) :
    Matches w.machines ((Operation.irq c : Operation D).Agrees w.verdicts)
      (b.irqTable.run c) ((b.withHost k).irqTable.run c) := by
  have behind : Matches w.machines Eq (b.lineOfVirq c.virq) ((b.withHost k).lineOfVirq c.virq) :=
    lasts.lineOfVirq fun d => hc _ (Or.inl ⟨d, rfl⟩)
  have plain : ∀ {f : UInt32 → Drive D σ Unit} {g : UInt32 → Drive D τ Unit},
      (∀ line, Matches w.machines Eq (f line) (g line)) →
      Matches w.machines ((Operation.irq c : Operation D).Agrees w.verdicts)
        (done (b.lineOfVirq c.virq >>= f)) (done ((b.withHost k).lineOfVirq c.virq >>= g)) :=
    fun hf => (matches_done (matches_seq behind hf)).agrees
  cases c with
  | ack virq => exact plain fun line => lasts.ack (hg line)
  | mask virq | disable virq | shutdown virq => exact plain fun line => lasts.mask (hg line)
  | unmask virq => exact plain fun line => lasts.unmask (hg line)
  | setType virq raw =>
    have told : ∀ line t i, Call.TellsType line t i → w.calls i :=
      fun line t i hi => hc i (Or.inr (Or.inl ⟨line, t, hi⟩))
    have switched : ∀ d flow, w.calls (.domain d (.setFlow virq flow)) :=
      fun d flow => hc _ (Or.inr (Or.inr ⟨d, flow, rfl⟩))
    have hd : ∀ d, w.calls (.domain d (.lineOf virq)) := fun d => hc _ (Or.inl ⟨d, rfl⟩)
    exact (matches_done (lasts.setTypeOfVirq hg hd told switched raw)).agrees
  | setWake virq enable =>
    have wake : Matches w.machines (Verdict.Settle w.verdicts ())
        (b.lineOfVirq virq >>= fun line => b.setWake line enable)
        ((b.withHost k).lineOfVirq virq >>= fun line => (b.withHost k).setWake line enable) :=
      matches_bind (Verdict.settle_self _ _) behind fun line =>
        lasts.setWake enable fun i hi => hc i (Or.inr ⟨line, hi⟩)
    exact wake.consults trivial

/-- On like machines an operation does the same, if it only looks through gates, at registers and
for calls on which they are alike. -/
theorem perform_matches (op : Operation D)
    (hg : ∀ line, op.line? = some line ∨ op.line? = none → w.gates line)
    (hr : ∀ line, op.Accesses line → w.registers line) (hc : ∀ i, op.Makes i → w.calls i)
    (status : (∃ id, op = .chained id) → w.ShowsStatus b) :
    Matches w.machines (op.Agrees w.verdicts) (b.perform op) ((b.withHost k).perform op) := by
  cases op with
  | isAccessible line =>
    exact (matches_look _ fun _ _ h => lasts.isAccessible_eq (hg line (Or.inl rfl)) h).agrees
  | registerAddress line r => exact (matches_look _ fun _ _ _ => rfl).agrees
  | read line r => exact (matches_look _ fun _ _ h => (lasts.read_eq (hr line rfl) r h).symm).agrees
  | getValue line =>
    exact (matches_look _ fun _ _ h => lasts.getValue_eq (hg line (Or.inl rfl)) h).agrees
  | isEnabled line =>
    exact (matches_look _ fun _ _ h => lasts.isEnabled_eq (hg line (Or.inl rfl)) h).agrees
  | readRegisters line =>
    exact (matches_look _ fun _ _ h => lasts.readRegisters_eq (hg line (Or.inl rfl)) h).agrees
  | write line r v => exact (matches_done (lasts.write (hr line rfl) r v)).agrees
  | update line r mask v => exact (matches_done (lasts.modifyRegister (hr line rfl) r _)).agrees
  | request line =>
    exact (lasts.request (hg line (Or.inl rfl)) (hc _ rfl)).consults trivial
  | free line => exact (matches_done (lasts.free (hg line (Or.inl rfl)) (hc _ rfl))).agrees
  | directionInput line =>
    exact (matches_done (lasts.directionInput (hg line (Or.inl rfl)) (hc _ rfl))).agrees
  | directionOutput line level =>
    exact (matches_done (lasts.directionOutput (hg line (Or.inl rfl)) (hc _ rfl) level)).agrees
  | setValue line level =>
    exact (matches_done (lasts.setValue (hg line (Or.inl rfl)) level)).agrees
  | setDebounce line usecs =>
    exact (matches_done (lasts.setDebounce (hg line (Or.inl rfl)) usecs)).agrees
  | toIrq line =>
    have find := lasts.toIrq fun d => hc (.domain d (.find line)) ⟨d, rfl⟩
    exact Matches.agrees (matches_seq find fun _ => matches_pure _)
  | ack line => exact (matches_done (lasts.ack (hg line (Or.inl rfl)))).agrees
  | mask line => exact (matches_done (lasts.mask (hg line (Or.inl rfl)))).agrees
  | unmask line => exact (matches_done (lasts.unmask (hg line (Or.inl rfl)))).agrees
  | setType line t =>
    have set := lasts.setType (hg line (Or.inl rfl)) t hc
    exact Matches.agrees (matches_seq set fun _ => matches_pure _)
  | setWake line enable => exact (lasts.setWake enable hc).consults trivial
  | consumer c => exact lasts.consumer_matches c (hg c.line (Or.inl rfl)) hc
  | irq c => exact lasts.irq_matches c (fun line => hg line (Or.inr rfl)) hc
  | attach d =>
    exact (matches_done (lasts.attach (fun i => hc _ ⟨i, rfl⟩)
      fun line => hg line (Or.inr rfl))).agrees
  | install => exact (matches_done (lasts.install fun d irq id => hc _ ⟨d, irq, id, rfl⟩)).agrees
  | publishWakeTable => exact (matches_done (lasts.publishWakeTable (hc _ rfl))).agrees
  | chained controller =>
    exact (matches_done (lasts.handleChained (status ⟨controller, rfl⟩)
      (fun d i hi => hc _ ⟨d, i, hi, rfl⟩) controller)).agrees

end Likeness.Lasts

def Likeness.single (I : Machine D σ → Prop) (calls : Call D → Prop) : Likeness D σ σ where
  machines m n := n = m ∧ I m
  gates _ := True
  registers _ := True
  calls := calls
  verdicts := Eq

section Single

variable {b : Block D σ} {I : Machine D σ → Prop} {calls : Call D → Prop}

theorem Drive.Matches.keeps {Q : Except Failure α → Except Failure α → Prop} {x : Drive D σ α}
    (h : Matches (Likeness.single I calls).machines Q x x) : Keeps I x :=
  fun m hm => (h m m ⟨rfl, hm⟩).2.2

variable (store : ∀ m a v, I m → I (m.record (.store a v)))
  (notice : ∀ m x, I m → I (m.record (.notice x)))
  (call : ∀ c, calls c → Keeps I (b.host.call c))
include store notice call

omit store call in
theorem Likeness.single_notice {m n : Machine D σ} (x : Notice)
    (h : (single I calls).machines m n) :
    (single I calls).machines (m.record (.notice x)) (n.record (.notice x)) :=
  ⟨by rw [h.1], notice m x h.2⟩

theorem Block.single_lasts : (Likeness.single I calls).Lasts b b.host where
  gate hm _ := by rw [hm.1]
  opens _ _ _ := trivial
  load hm _ _ _ _ := by rw [hm.1]
  store hm _ _ _ _ _ := ⟨by rw [hm.1], store _ _ _ hm.2⟩
  call c hc := by
    rintro m _ ⟨rfl, hm⟩
    exact ⟨both_of_eq (c.agree_self fun _ => rfl) rfl, rfl, call c hc _ hm⟩
  notice := Likeness.single_notice notice
  report f hvu := by
    subst hvu
    exact matches_report (Likeness.single_notice notice) f _

/-- What stores, notices and the calls an operation can make keep, the operation keeps. -/
theorem Block.keeps_perform {op : Operation D} (makes : ∀ c, op.Makes c → calls c) :
    Keeps I (b.perform op) := by
  have status : (Likeness.single I calls).ShowsStatus b := fun hm _ _ => by rw [hm.1]
  have lasts : (Likeness.single I calls).Lasts b b.host := Block.single_lasts store notice call
  exact (lasts.perform_matches op (fun _ _ => trivial) (fun _ _ => trivial) makes
    fun _ => status).keeps

end Single

theorem Operation.after_of_consults {op : Operation D} (h : op.Consults) (b : Block D σ) :
    b.after op = b := by
  cases op with
  | attach d => exact h.elim
  | _ => rfl

namespace Block

theorem after_withHost (b : Block D σ) (k : Host D τ) (op : Operation D) :
    (b.withHost k).after op = (b.after op).withHost k := by
  cases op <;> rfl

/-- What is attached to one of two twins is attached to the other. -/
theorem step_twin {b : Block D σ} {c : Block D τ} {op : Operation D} {m : Machine D σ}
    {n : Machine D τ} {T : Verdict → Verdict → Prop} (h : c = b.withHost c.host)
    (agrees : op.Agrees T ((b.perform op).on m).1 ((c.perform op).on n).1) :
    (c.step op n).2.1 = (b.step op m).2.1.withHost (c.step op n).2.1.host := by
  have hsame : c.after op = (b.after op).withHost (c.after op).host := by
    rw [h, after_withHost]
    rfl
  by_cases hop : op.Consults
  · have hb : (b.step op m).2.1 = b := by
      rcases ho : ((b.perform op).on m).1 with e | o
      · exact step_block_error ho
      · exact (step_block_ok ho).trans (op.after_of_consults hop b)
    have hc : (c.step op n).2.1 = c := by
      rcases ho : ((c.perform op).on n).1 with e | o
      · exact step_block_error ho
      · exact (step_block_ok ho).trans (op.after_of_consults hop c)
    rw [hb, hc]
    exact h
  · have heq := agrees.2 hop
    rcases ho : ((b.perform op).on m).1 with e | o
    · rw [step_block_error ho, step_block_error (heq.symm.trans ho)]
      exact h
    · rw [step_block_ok ho, step_block_ok (heq.symm.trans ho)]
      exact hsame

end Block

namespace System

variable {ι : Type} [DecidableEq ι] {s : System ι D σ} {t : System ι D τ}
  {R : Machine D σ → Machine D τ → Prop} {T : Verdict → Verdict → Prop}

def Twins (s : System ι D σ) (t : System ι D τ) : Prop :=
  ∀ i, t.block i = (s.block i).withHost (t.block i).host

theorem Twins.after (h : s.Twins t) {q : Request ι D}
    (hq : Matches R (q.op.Agrees T) ((s.block q.who).perform q.op) ((t.block q.who).perform q.op))
    (hm : R s.machine t.machine) :
    q.op.Agrees T (s.outcome q) (t.outcome q) ∧ (s.after q).Twins (t.after q) ∧
      R (s.after q).machine (t.after q).machine := by
  have hon := hq _ _ hm
  rw [s.outcome_eq, t.outcome_eq, s.after_machine, t.after_machine]
  refine ⟨hon.1, fun i => ?_, hon.2⟩
  by_cases hi : i = q.who
  · subst hi
    simp only [System.after, Function.update_self]
    exact Block.step_twin (h q.who) hon.1
  · simp only [System.after, Function.update_of_ne hi]
    exact h i

end System
end Gpio
