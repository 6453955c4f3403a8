import Gpio.Operation
import Gpio.Proofs.Device

/-!
# What the parts of an operation do

The gate never fails to decide, and a register access succeeds exactly when
the register lies inside its bank, whatever the bank's size. Operations are
run by chaining these equations with `on_bind_ok` and `on_bind_error`.
-/

set_option autoImplicit false

namespace Gpio

namespace Drive

variable {D σ α β : Type} {x : Drive D σ α} {m m' : Machine D σ}

theorem on_bind_ok {a : α} (h : x.on m = (.ok a, m')) (f : α → Drive D σ β) :
    (x >>= f).on m = (f a).on m' := by
  rw [on_bind, h]

theorem on_bind_error {e : Failure} (h : x.on m = (.error e, m')) (f : α → Drive D σ β) :
    (x >>= f).on m = (.error e, m') := by
  rw [on_bind, h]

theorem on_bind_eq_ok {f : α → Drive D σ β} {v : β} (h : (x >>= f).on m = (.ok v, m')) :
    ∃ a m₁, x.on m = (.ok a, m₁) ∧ (f a).on m₁ = (.ok v, m') := by
  rcases hx : x.on m with ⟨e | a, m₁⟩
  · rw [on_bind_error hx] at h
    cases h
  · exact ⟨a, m₁, rfl, (on_bind_ok hx f).symm.trans h⟩

theorem on_bind_eq_error {f : α → Drive D σ β} {e : Failure}
    (h : (x >>= f).on m = (.error e, m')) :
    x.on m = (.error e, m') ∨ ∃ a m₁, x.on m = (.ok a, m₁) ∧ (f a).on m₁ = (.error e, m') := by
  rcases hx : x.on m with ⟨e' | a, m₁⟩
  · rw [on_bind_error hx] at h
    cases h
    exact Or.inl rfl
  · exact Or.inr ⟨a, m₁, rfl, (on_bind_ok hx f).symm.trans h⟩

theorem on_attempt_ok {a : α} (h : x.on m = (.ok a, m')) :
    (attempt x).on m = (.ok (.ok a), m') := by
  rw [on_attempt, h]
  rfl

theorem on_attempt_refused {r : Refusal} (h : x.on m = (.error (.refused r), m')) :
    (attempt x).on m = (.ok (.error r), m') := by
  rw [on_attempt, h]
  rfl

theorem on_attempt_eq_ok {a : α} (h : (attempt x).on m = (.ok (.ok a), m')) :
    x.on m = (.ok a, m') := by
  rw [on_attempt] at h
  rcases hx : x.on m with ⟨(r | o) | v, m₁⟩ <;> rw [hx] at h <;> cases h
  rfl

theorem ofChecked_ok (a : α) : (ofChecked (.ok a) : Drive D σ α) = pure a := rfl

theorem on_notify (n : Notice) (m : Machine D σ) :
    (notify n).on m = (.ok (), m.record (.notice n)) := rfl

end Drive

/-- A call that ends well gives the reply the host has in that state. -/
theorem Host.reply_of_call {D σ : Type} {h : Host D σ} {c : Call D} {m m' : Machine D σ}
    {a : c.Reply} (hc : (h.call c).on m = (.ok a, m')) : a = (h.answer c m.world).reply := by
  rw [Host.on_call] at hc
  split at hc
  · cases hc
    rfl
  · cases hc

theorem offset_fits {line : UInt32} {l : Location} (h : validLine line = .ok l)
    (r : PinRegister) : l.offset r + 4 < addressLimit :=
  Nat.lt_of_le_of_lt (offset_lt_extent h r) (bankExtent_lt l.bank)

theorem security_fits {line : UInt32} {l : Location} (h : resolve line = some l) :
    l.security + 4 < addressLimit :=
  Nat.lt_of_le_of_lt (Nat.le_trans (security_place h).2 (dataStart_le_extent l.bank))
    (bankExtent_lt l.bank)

def lineRefusal (line : UInt32) : Refusal :=
  match validLine line with
  | .ok _ => .inaccessible
  | .error _ => .invalidLine

namespace Block

variable {D σ : Type} (b : Block D σ)

def grants (m : Memory) (l : Location) : Bool :=
  decide ((b.bank l.bank).Covers l.security) &&
    Grant.isFull (m.loadWord ((b.bank l.bank).base + l.security))

def owns (m : Memory) (line : UInt32) : Bool :=
  match validLine line with
  | .ok l => b.grants m l
  | .error _ => false

theorem owns_of_valid {line : UInt32} {l : Location} (m : Memory) (h : validLine line = .ok l) :
    b.owns m line = b.grants m l := by
  rw [owns, h]

theorem valid_of_owns {m : Memory} {line : UInt32} (h : b.owns m line = true) :
    ∃ l, validLine line = .ok l := by
  unfold owns at h
  cases hv : validLine line with
  | ok l => exact ⟨l, rfl⟩
  | error e => rw [hv] at h; cases h

theorem granted_eq {line : UInt32} {l : Location} (m : Memory) (h : resolve line = some l) :
    b.granted m l = .ok (b.grants m l) := by
  unfold granted grants
  by_cases hc : (b.bank l.bank).Covers l.security
  · rw [Bank.read_of_covers m hc (security_fits h), decide_eq_true hc, Bool.true_and]
    rfl
  · rw [Bank.read_of_not_covers m hc (security_fits h), decide_eq_false hc, Bool.false_and]
    rfl

theorem isAccessible_eq (m : Memory) (line : UInt32) :
    b.isAccessible m line = .ok (b.owns m line) := by
  unfold isAccessible owns
  by_cases h : ∃ l, validLine line = .ok l
  · obtain ⟨l, hl⟩ := h
    rw [hl]
    exact b.granted_eq m (validLine_eq_ok.mp hl).1
  · rw [validLine_eq_error fun l hl => h ⟨l, hl⟩]
    rfl

theorem ownedLine_of_owns {m : Memory} {line : UInt32} (h : b.owns m line = true) :
    ∃ l, validLine line = .ok l ∧ b.ownedLine m line = .ok l := by
  obtain ⟨l, hl⟩ := b.valid_of_owns h
  have hg : b.granted m l = .ok true := by
    rw [b.granted_eq m (validLine_eq_ok.mp hl).1, ← b.owns_of_valid m hl, h]
  refine ⟨l, hl, ?_⟩
  simp only [ownedLine, hl, hg, bind, Except.bind, pure, Except.pure, if_true]

theorem ownedLine_of_not_owns {m : Memory} {line : UInt32} (h : b.owns m line = false) :
    b.ownedLine m line = .refuse (lineRefusal line) := by
  by_cases hv : ∃ l, validLine line = .ok l
  · obtain ⟨l, hl⟩ := hv
    have hg : b.granted m l = .ok false := by
      rw [b.granted_eq m (validLine_eq_ok.mp hl).1, ← b.owns_of_valid m hl, h]
    simp [ownedLine, lineRefusal, hl, hg, bind, Except.bind]
  · have he := validLine_eq_error fun l hl => hv ⟨l, hl⟩
    simp only [ownedLine, lineRefusal, he, Checked.refuse, bind, Except.bind]

theorem on_own_of_owns {m : Machine D σ} {line : UInt32} (h : b.owns m.memory line = true) :
    (b.own line).on m = (.ok (), m) := by
  obtain ⟨l, -, hl⟩ := b.ownedLine_of_owns h
  unfold own
  rw [Drive.on_bind, Drive.on_observe, hl]
  rfl

theorem on_own_of_not_owns {m : Machine D σ} {line : UInt32}
    (h : b.owns m.memory line = false) :
    (b.own line).on m = (.error (.refused (lineRefusal line)), m) := by
  unfold own
  rw [Drive.on_bind, Drive.on_observe, b.ownedLine_of_not_owns h]
  rfl

theorem on_put_of_covers {k : Bank} {o : Nat} (hc : k.Covers o) (ho : o + 4 < addressLimit)
    (v : Word) (m : Machine D σ) :
    (k.put o v).on m = (.ok (), m.record (.store (k.base + o) v)) := by
  unfold Bank.put
  rw [Drive.on_bind, Drive.on_ofChecked, Bank.check_of_covers hc ho]
  rfl

theorem on_put_of_not_covers {k : Bank} {o : Nat} (hc : ¬ k.Covers o) (ho : o + 4 < addressLimit)
    (v : Word) (m : Machine D σ) :
    (k.put o v).on m = (.error (.refused .invalidLine), m) := by
  unfold Bank.put
  rw [Drive.on_bind, Drive.on_ofChecked, Bank.check_of_not_covers hc ho]
  rfl

theorem on_write {line : UInt32} {l : Location} (hl : validLine line = .ok l)
    (r : PinRegister) (v : Word) (m : Machine D σ) :
    (b.write line r v).on m = ((b.bank l.bank).put (l.offset r) v).on m := by
  unfold write
  rw [Drive.on_bind, Drive.on_ofChecked, hl]

theorem on_write_invalid {line : UInt32} (h : ∀ l, validLine line ≠ .ok l) (r : PinRegister)
    (v : Word) (m : Machine D σ) :
    (b.write line r v).on m = (.error (.refused .invalidLine), m) := by
  unfold write
  rw [Drive.on_bind, Drive.on_ofChecked, validLine_eq_error h]
  rfl

theorem on_modifyRegister_of_covers {line : UInt32} {l : Location}
    (hl : validLine line = .ok l) {r : PinRegister} (hc : (b.bank l.bank).Covers (l.offset r))
    (f : Word → Word) (m : Machine D σ) :
    (b.modifyRegister line r f).on m = (.ok (), m.record (.store ((b.bank l.bank).base + l.offset r)
      (f (m.memory.loadWord ((b.bank l.bank).base + l.offset r))))) := by
  unfold modifyRegister
  have hfit := offset_fits hl r
  rw [Drive.on_bind, Drive.on_ofChecked, hl]
  simp only
  rw [Drive.on_bind, Drive.on_observe, Bank.read_of_covers _ hc hfit]
  exact on_put_of_covers hc hfit _ m

theorem on_modifyRegister_of_not_covers {line : UInt32} {l : Location}
    (hl : validLine line = .ok l) {r : PinRegister}
    (hc : ¬ (b.bank l.bank).Covers (l.offset r)) (f : Word → Word) (m : Machine D σ) :
    (b.modifyRegister line r f).on m = (.error (.refused .invalidLine), m) := by
  unfold modifyRegister
  rw [Drive.on_bind, Drive.on_ofChecked, hl]
  simp only
  rw [Drive.on_bind, Drive.on_observe, Bank.read_of_not_covers _ hc (offset_fits hl r)]
  rfl

theorem on_modifyRegister_invalid {line : UInt32} (h : ∀ l, validLine line ≠ .ok l)
    (r : PinRegister) (f : Word → Word) (m : Machine D σ) :
    (b.modifyRegister line r f).on m = (.error (.refused .invalidLine), m) := by
  unfold modifyRegister
  rw [Drive.on_bind, Drive.on_ofChecked, validLine_eq_error h]
  rfl

def giveFlow (d : D) (line : UInt32) (owned : Bool) : Drive D σ Nat := do
  match ← b.callDomain d (.find line) with
  | some virq => b.callDomain d (.setFlow virq .simple)
  | none => pure ()
  pure (if owned then 1 else 0)

/-- The gate decides whether a line is silenced first. -/
theorem on_maskLine (d : D) (line : UInt32) (m : Machine D σ) :
    (b.maskLine d line).on m =
      if b.owns m.memory line then
        (b.setConfig line PinConfig.interrupt false >>= fun _ => b.giveFlow d line true).on m
      else (b.giveFlow d line false).on m := by
  unfold maskLine
  rw [Drive.on_bind, Drive.on_observe, b.isAccessible_eq]
  cases b.owns m.memory line with
  | true => rfl
  | false => rfl

def lineBehind (s : σ) (virq : UInt32) : Option UInt32 :=
  match b.domain with
  | none => none
  | some d => (b.host.answer (.domain d (.lineOf virq)) s).reply

theorem lineOfVirq_ok {virq line : UInt32} {m m' : Machine D σ}
    (h : (b.lineOfVirq virq).on m = (.ok line, m')) : b.lineBehind m.world virq = some line := by
  unfold lineOfVirq at h
  unfold lineBehind
  cases hd : b.domain with
  | none =>
    rw [hd] at h
    cases h
  | some d =>
    simp only [hd, callDomain] at h ⊢
    rw [Drive.on_bind] at h
    rcases hc : (b.host.call (.domain d (.lineOf virq))).on m with ⟨_ | reply, m₁⟩
    · rw [hc] at h
      cases h
    · rw [hc] at h
      rw [← Host.reply_of_call hc]
      cases reply with
      | none => cases h
      | some l =>
        cases h
        rfl

end Block
end Gpio
