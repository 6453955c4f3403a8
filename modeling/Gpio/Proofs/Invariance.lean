import Gpio.Proofs.Execution

/-!
# Invariants of operations

An operation stores to registers of existing lines, calls the host, and
leaves notices; nothing else. `Robust` lists what an invariant has to
withstand of these. `perform_keeps` is the one induction over operations:
whatever withstands the parts is kept by every operation, provided the lines
the operation aims at, and passes the gate for, are among those it may touch.
-/

set_option autoImplicit false

namespace Gpio

variable {D σ α β : Type}

namespace Drive

def Keeps (I : Machine D σ → Prop) (x : Drive D σ α) : Prop := ∀ m, I m → I (x.on m).2

variable {I : Machine D σ → Prop} {x : Drive D σ α} {f : α → Drive D σ β}

theorem Keeps.of_on {m m' : Machine D σ} {o : Except Failure α} (h : Keeps I x) (hm : I m)
    (hon : x.on m = (o, m')) : I m' := by
  have hx := h m hm
  rwa [hon] at hx

theorem keeps_pure (a : α) : Keeps I (pure a : Drive D σ α) := fun _ h => h

theorem keeps_refuse (r : Refusal) : Keeps I (refuse r : Drive D σ α) := fun _ h => h

theorem keeps_ofChecked (c : Checked α) : Keeps I (ofChecked c : Drive D σ α) := by
  intro m h
  rw [on_ofChecked]
  exact h

theorem keeps_observe (g : Memory → Checked α) : Keeps I (observe g : Drive D σ α) := by
  intro m h
  rw [on_observe]
  exact h

theorem keeps_record {e : Effect D} (h : ∀ m, I m → I (m.record e)) : Keeps I (record e) := h

theorem bind_keeps {m : Machine D σ} (hx : I (x.on m).2) (hf : ∀ a, Keeps I (f a)) :
    I ((x >>= f).on m).2 := by
  rw [on_bind]
  rcases hr : x.on m with ⟨_ | a, m'⟩
  · rw [hr] at hx
    exact hx
  · rw [hr] at hx
    exact hf a m' hx

theorem keeps_bind (hx : Keeps I x) (hf : ∀ a, Keeps I (f a)) : Keeps I (x >>= f) :=
  fun m h => bind_keeps (hx m h) hf

theorem keeps_attempt (hx : Keeps I x) : Keeps I (attempt x) := by
  intro m h
  rw [on_attempt]
  exact hx m h

theorem keeps_forM {γ : Type} {g : γ → Drive D σ Unit} (as : List γ)
    (h : ∀ a ∈ as, Keeps I (g a)) : Keeps I (as.forM g) := by
  induction as with
  | nil => exact keeps_pure ()
  | cons a as ih =>
    exact keeps_bind (h a (by simp)) fun _ => ih fun c hc => h c (by simp [hc])

theorem done_keeps {y : Drive D σ Unit} {m : Machine D σ} (h : I (y.on m).2) :
    I ((done y).on m).2 :=
  bind_keeps h fun _ => keeps_pure _

theorem keeps_done {y : Drive D σ Unit} (h : Keeps I y) : Keeps I (done y) :=
  fun m hm => done_keeps (h m hm)

theorem keeps_look (g : Memory → Checked α) (answer : α → Outcome) :
    Keeps I (look g answer : Drive D σ Outcome) :=
  keeps_bind (keeps_observe g) fun _ => keeps_pure _

def Leads (I J : Machine D σ → Prop) (x : Drive D σ α) : Prop :=
  ∀ m, I m → ∃ v m', x.on m = (.ok v, m') ∧ J m'

variable {J K : Machine D σ → Prop}

theorem leads_pure (v : α) : Leads I I (pure v : Drive D σ α) := fun m hm => ⟨v, m, rfl, hm⟩

theorem leads_bind (hx : Leads I J x) (hf : ∀ v, Leads J K (f v)) : Leads I K (x >>= f) := by
  intro m hm
  obtain ⟨v, m₁, h₁, hm₁⟩ := hx m hm
  obtain ⟨w, m₂, h₂, hm₂⟩ := hf v m₁ hm₁
  exact ⟨w, m₂, (on_bind_ok h₁ f).trans h₂, hm₂⟩

theorem leads_attempt {f : Except Refusal α → Drive D σ β} (hx : Leads I J x)
    (hf : ∀ v, Leads J K (f (.ok v))) : Leads I K (attempt x >>= f) := by
  intro m hm
  obtain ⟨v, m₁, h₁, hm₁⟩ := hx m hm
  obtain ⟨w, m₂, h₂, hm₂⟩ := hf v m₁ hm₁
  exact ⟨w, m₂, (on_bind_ok (on_attempt_ok h₁) f).trans h₂, hm₂⟩

theorem leads_forM {γ : Type} {g : γ → Drive D σ Unit} (as : List γ)
    (h : ∀ a ∈ as, Leads I I (g a)) : Leads I I (as.forM g) := by
  induction as with
  | nil => exact leads_pure ()
  | cons a as ih => exact leads_bind (h a (by simp)) fun _ => ih fun c hc => h c (by simp [hc])

end Drive

open Drive

theorem Host.call_keeps {I : Machine D σ → Prop} {h : Host D σ} {c : Call D} {m : Machine D σ}
    (reply : I (h.reply c m))
    (write : ∀ m s, ∀ w ∈ (h.answer c s).writes, w.bank.check w.offset = .ok () → I m →
      I (m.record (.hostStore (w.bank.base + w.offset) w.value))) : I ((h.call c).on m).2 := by
  have hput : ∀ w ∈ (h.answer c m.world).writes, Keeps I (Host.put w) := by
    intro w hw m' hm'
    rw [Host.on_put]
    split
    · next hc => exact write m' m.world w hw hc hm'
    · exact hm'
    · exact hm'
  have hall := keeps_forM _ hput (h.reply c m) reply
  rw [Host.on_call]
  split
  · next heq => rw [heq] at hall; exact hall
  · next heq => rw [heq] at hall; exact hall

theorem Host.keeps_call {I : Machine D σ → Prop} {h : Host D σ} {c : Call D}
    (reply : ∀ m, I m → I (h.reply c m))
    (write : ∀ m s, ∀ w ∈ (h.answer c s).writes, w.bank.check w.offset = .ok () → I m →
      I (m.record (.hostStore (w.bank.base + w.offset) w.value))) : Keeps I (h.call c) :=
  fun m hm => Host.call_keeps (reply m hm) write

def Host.Steady (h : Host D σ) : Prop :=
  ∀ c s, ∀ w ∈ (h.answer c s).writes, ∀ o, w.bank.check w.offset ≠ .error (.overflow o)

theorem Host.steady_of_quiet {h : Host D σ} (quiet : h.Quiet) : h.Steady := by
  intro c s w hw
  rw [quiet c s] at hw
  cases hw

theorem Host.on_call_of_steady {h : Host D σ} (steady : h.Steady) (c : Call D)
    (m : Machine D σ) : ∃ m', (h.call c).on m = (.ok (h.answer c m.world).reply, m') := by
  have hput : ∀ w ∈ (h.answer c m.world).writes,
      Leads (fun _ => True) (fun _ => True) (put w : Drive D σ Unit) := by
    intro w hw m' _
    rw [on_put]
    rcases hc : w.bank.check w.offset with (r | o) | u
    · exact ⟨(), m', rfl, trivial⟩
    · exact absurd hc (steady c m.world w hw o)
    · exact ⟨(), _, rfl, trivial⟩
  obtain ⟨u, m', hm', -⟩ := leads_forM _ hput (h.reply c m) trivial
  exact ⟨m', by rw [on_call, hm']⟩

/-- A host cannot refuse; at worst one of its writes overflows. -/
theorem Host.call_not_refused (h : Host D σ) (c : Call D) (m : Machine D σ) (r : Refusal) :
    ((h.call c).on m).1 ≠ .error (.refused r) := by
  have hput : ∀ (ws : List HostWrite) (m : Machine D σ),
      ((ws.forM put : Drive D σ Unit).on m).1 ≠ .error (.refused r) := by
    intro ws
    -- A write that is refused is dropped, so the loop goes on from the same machine.
    induction ws with
    | nil => exact fun _ => nofun
    | cons w ws ih =>
      intro m
      show ((put w >>= fun _ => ws.forM put : Drive D σ Unit).on m).1 ≠ _
      rw [on_bind, on_put]
      rcases w.bank.check w.offset with (e | o) | u
      · exact ih m
      · simp
      · exact ih _
  rw [on_call]
  have hws := hput (h.answer c m.world).writes (h.reply c m)
  split
  · simp
  · next heq => rw [heq] at hws; exact fun he => hws (congrArg Except.error (Except.error.inj he))

def PinCall.line : PinCall → UInt32
  | request line | free line | input line | output line => line

def Call.pinLine? : Call D → Option UInt32
  | .pin c => some c.line
  | .wake _ | .domain .. => none

def ConsumerCall.line : ConsumerCall → UInt32
  | request line | free line | directionInput line | directionOutput line _ | get line
  | set line _ | setDebounce line _ | toIrq line => line

def IrqCall.virq : IrqCall → UInt32
  | ack virq | mask virq | unmask virq | disable virq | shutdown virq | setType virq _
  | setWake virq _ => virq

def Operation.line? : Operation D → Option UInt32
  | .isAccessible line | .registerAddress line _ | .read line _ | .write line .. | .update line ..
  | .request line | .free line | .directionInput line | .directionOutput line _ | .getValue line
  | .setValue line _ | .setDebounce line _ | .toIrq line | .isEnabled line | .readRegisters line
  | .ack line | .mask line | .unmask line | .setType line _ | .setWake line _ => some line
  | .consumer c => some c.line
  | .irq _ | .attach _ | .install | .publishWakeTable | .chained _ => none

def Operation.Ungated : Operation D → Prop
  | .write .. | .update .. | .free _ | .consumer (.free _) => True
  | _ => False

namespace Block

variable (b : Block D σ)

/-- The operation is about `line`: it names the line, or a virtual interrupt of it, or attaches a
domain, which is about every line. -/
def Aims (s : σ) (op : Operation D) (line : UInt32) : Prop :=
  match op with
  | .attach _ => True
  | .irq c => b.lineBehind s c.virq = some line
  | op => op.line? = some line

/-- What an invariant withstands if it tolerates changes to the lines of `may`. -/
structure Robust (may : UInt32 → Prop) (I : Machine D σ → Prop) : Prop where
  store : ∀ {m line l}, may line → validLine line = .ok l → ∀ r v,
    (b.bank l.bank).Covers (l.offset r) → I m →
      I (m.record (.store ((b.bank l.bank).base + l.offset r) v))
  call : ∀ c, (∀ line, c.pinLine? = some line → may line) → Keeps I (b.host.call c)
  notice : ∀ {m} n, I m → I (m.record (.notice n))

def Gate (may : UInt32 → Prop) (I : Machine D σ → Prop) (line : UInt32) : Prop :=
  ∀ m, I m → b.owns m.memory line = true → may line

namespace Robust

variable {b} {may : UInt32 → Prop} {I : Machine D σ → Prop} (rob : b.Robust may I)
include rob

theorem notify (n : Notice) : Keeps I (Drive.notify n) := keeps_record fun _ h => rob.notice n h

theorem callPin {c : PinCall} (h : may c.line) : Keeps I (b.callPin c) :=
  rob.call (.pin c) fun _ hl => Option.some.inj hl ▸ h

theorem callWake (c : WakeCall) : Keeps I (b.callWake c) := rob.call (.wake c) nofun

theorem callDomain (d : D) (c : DomainCall) : Keeps I (b.callDomain d c) :=
  rob.call (.domain d c) nofun

theorem put {line : UInt32} {l : Location} (hm : may line) (hl : validLine line = .ok l)
    (r : PinRegister) (v : Word) : Keeps I ((b.bank l.bank).put (l.offset r) v) := by
  intro m h
  by_cases hc : (b.bank l.bank).Covers (l.offset r)
  · rw [on_put_of_covers hc (offset_fits hl r)]
    exact rob.store hm hl r v hc h
  · rw [on_put_of_not_covers hc (offset_fits hl r)]
    exact h

theorem write {line : UInt32} (hm : may line) (r : PinRegister) (v : Word) :
    Keeps I (b.write line r v) := by
  intro m h
  by_cases hv : ∃ l, validLine line = .ok l
  · obtain ⟨l, hl⟩ := hv
    rw [b.on_write hl]
    exact rob.put hm hl r v m h
  · rw [b.on_write_invalid fun l hl => hv ⟨l, hl⟩]
    exact h

theorem modifyRegister {line : UInt32} (hm : may line) (r : PinRegister) (f : Word → Word) :
    Keeps I (b.modifyRegister line r f) := by
  intro m h
  by_cases hv : ∃ l, validLine line = .ok l
  · obtain ⟨l, hl⟩ := hv
    by_cases hc : (b.bank l.bank).Covers (l.offset r)
    · rw [b.on_modifyRegister_of_covers hl hc]
      exact rob.store hm hl r _ hc h
    · rw [b.on_modifyRegister_of_not_covers hl hc]
      exact h
  · rw [b.on_modifyRegister_invalid fun l hl => hv ⟨l, hl⟩]
    exact h

theorem setConfig {line : UInt32} (hm : may line) (bits : Word) (on : Bool) :
    Keeps I (b.setConfig line bits on) :=
  rob.modifyRegister hm .enableConfig _

omit rob in
theorem gated {line : UInt32} {f : Unit → Drive D σ α} (gate : b.Gate may I line)
    (hf : may line → Keeps I (f ())) : Keeps I (b.own line >>= f) := by
  intro m h
  by_cases ho : b.owns m.memory line = true
  · rw [on_bind_ok (b.on_own_of_owns ho)]
    exact hf (gate m h ho) m h
  · rw [on_bind_error (b.on_own_of_not_owns (Bool.not_eq_true _ ▸ ho))]
    exact h

omit rob in
theorem attempt_gated {line : UInt32} {f : Except Refusal Unit → Drive D σ α}
    (gate : b.Gate may I line) (hf : may line → Keeps I (f (.ok ())))
    (he : ∀ r, Keeps I (f (.error r))) : Keeps I (attempt (b.own line) >>= f) := by
  intro m h
  by_cases ho : b.owns m.memory line = true
  · rw [on_bind_ok (on_attempt_ok (b.on_own_of_owns ho))]
    exact hf (gate m h ho) m h
  · rw [on_bind_ok (on_attempt_refused (b.on_own_of_not_owns (Bool.not_eq_true _ ▸ ho)))]
    exact he _ m h

end Robust
end Block
end Gpio
