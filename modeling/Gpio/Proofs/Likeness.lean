import Gpio.Proofs.Invariance

/-!
# Two runs side by side

A likeness says in which respects two machines are the same, and so how far
two blocks over the same banks behave alike, each on its machine and with
its own host. `Matches` is the statement about two computations: begun on
machines that correspond they have outcomes that agree, and end on machines
that correspond. `Lasts` lists what a likeness has to withstand of the parts
of operations; gate, loads and stores follow here.
-/

set_option autoImplicit false

namespace Gpio

variable {D σ τ α β : Type}

namespace Drive

def Matches (R : Machine D σ → Machine D τ → Prop)
    (Q : Except Failure α → Except Failure α → Prop) (x : Drive D σ α) (y : Drive D τ α) : Prop :=
  ∀ m n, R m n → Q (x.on m).1 (y.on n).1 ∧ R (x.on m).2 (y.on n).2

def Both (S : α → α → Prop) : Except Failure α → Except Failure α → Prop
  | .ok a, .ok b => S a b
  | .error e, .error f => e = f
  | _, _ => False

variable {R : Machine D σ → Machine D τ → Prop} {Q : Except Failure β → Except Failure β → Prop}
  {S : α → α → Prop} {x : Drive D σ α} {y : Drive D τ α} {f : α → Drive D σ β} {g : α → Drive D τ β}

theorem both_of_eq (h : ∀ a, S a a) {o p : Except Failure α} (ho : o = p) : Both S o p := by
  subst ho
  cases o with
  | ok a => exact h a
  | error e => rfl

theorem Matches.mono {P : Except Failure α → Except Failure α → Prop}
    {P' : Except Failure α → Except Failure α → Prop} (h : Matches R P x y)
    (hp : ∀ o p, P o p → P' o p) : Matches R P' x y :=
  fun m n hmn => ⟨hp _ _ (h m n hmn).1, (h m n hmn).2⟩

theorem matches_pure (a : α) : Matches R Eq (pure a : Drive D σ α) (pure a) :=
  fun _ _ h => ⟨rfl, h⟩

theorem matches_refuse {P : Except Failure α → Except Failure α → Prop} (hP : ∀ o, P o o)
    (r : Refusal) : Matches R P (refuse r : Drive D σ α) (refuse r) :=
  fun _ _ h => ⟨hP _, h⟩

theorem matches_ofChecked (c : Checked α) :
    Matches R Eq (ofChecked c : Drive D σ α) (ofChecked c) := by
  intro m n h
  rw [on_ofChecked, on_ofChecked]
  exact ⟨rfl, h⟩

theorem matches_observe {a b : Memory → Checked α}
    (h : ∀ m n, R m n → a m.memory = b n.memory) : Matches R Eq (observe a) (observe b) := by
  intro m n hmn
  rw [on_observe, on_observe]
  exact ⟨h m n hmn, hmn⟩

theorem matches_bind_both (hQ : ∀ o, Q o o) (hx : Matches R (Both S) x y)
    (hf : ∀ a b, S a b → Matches R Q (f a) (g b)) : Matches R Q (x >>= f) (y >>= g) := by
  intro m n h
  have hxy := hx m n h
  rw [on_bind, on_bind]
  rcases hm : x.on m with ⟨e | a, m'⟩ <;> rcases hn : y.on n with ⟨e' | b, n'⟩ <;>
    rw [hm, hn] at hxy
  · obtain rfl : e = e' := hxy.1
    exact ⟨hQ _, hxy.2⟩
  · exact hxy.1.elim
  · exact hxy.1.elim
  · exact hf a b hxy.1 m' n' hxy.2

theorem matches_bind (hQ : ∀ o, Q o o) (hx : Matches R Eq x y)
    (hf : ∀ a, Matches R Q (f a) (g a)) : Matches R Q (x >>= f) (y >>= g) := by
  apply matches_bind_both hQ (hx.mono fun o p => both_of_eq fun _ => rfl)
  rintro a _ rfl
  exact hf a

theorem matches_seq (hx : Matches R Eq x y) (hf : ∀ a, Matches R Eq (f a) (g a)) :
    Matches R Eq (x >>= f) (y >>= g) :=
  matches_bind (fun _ => rfl) hx hf

theorem matches_attempt (hx : Matches R Eq x y) : Matches R Eq (attempt x) (attempt y) := by
  intro m n h
  rw [on_attempt, on_attempt]
  exact ⟨congrArg Checked.settle (hx m n h).1, (hx m n h).2⟩

theorem matches_forM {γ : Type} {u : γ → Drive D σ Unit} {v : γ → Drive D τ Unit} (as : List γ)
    (h : ∀ a ∈ as, Matches R Eq (u a) (v a)) : Matches R Eq (as.forM u) (as.forM v) := by
  induction as with
  | nil => exact matches_pure ()
  | cons a as ih =>
    exact matches_seq (h a (by simp)) fun _ => ih fun c hc => h c (by simp [hc])

theorem matches_done {u : Drive D σ Unit} {v : Drive D τ Unit} (h : Matches R Eq u v) :
    Matches R Eq (done u) (done v) :=
  matches_seq h fun _ => matches_pure _

theorem matches_look {a b : Memory → Checked α} (answer : α → Outcome)
    (h : ∀ m n, R m n → a m.memory = b n.memory) :
    Matches R Eq (look a answer : Drive D σ Outcome) (look b answer) :=
  matches_seq (matches_observe h) fun _ => matches_pure _

end Drive

open Drive

abbrev Verdict := Except SystemError Unit

def Call.Agree (T : Verdict → Verdict → Prop) : (c : Call D) → c.Reply → c.Reply → Prop
  | .pin (.request _), v, u | .pin (.input _), v, u | .pin (.output _), v, u
  | .wake (.setType ..), v, u | .wake (.arm ..), v, u => T v u
  | .pin (.free _), v, u | .wake (.publish ..), v, u | .domain _ _, v, u => v = u

theorem Call.agree_self {T : Verdict → Verdict → Prop} (hT : ∀ v, T v v) (c : Call D)
    (v : c.Reply) : c.Agree T v v := by
  cases c with
  | pin c => cases c <;> first | exact hT v | exact rfl
  | wake c => cases c <;> first | exact hT v | exact rfl
  | domain d c => exact rfl

/-- Two hosts do a call alike if they answer alike and write the same. -/
theorem Host.matches_call {h : Host D σ} {k : Host D τ} {R : Machine D σ → Machine D τ → Prop}
    {T : Verdict → Verdict → Prop} {c : Call D}
    (agree : ∀ m n, R m n →
      c.Agree T (h.answer c m.world).reply (k.answer c n.world).reply ∧
        (k.answer c n.world).writes = (h.answer c m.world).writes)
    (reply : ∀ m n, R m n → R (h.reply c m) (k.reply c n))
    (write : ∀ m n s, ∀ w ∈ (h.answer c s).writes, w.bank.check w.offset = .ok () → R m n →
      R (m.record (.hostStore (w.bank.base + w.offset) w.value))
        (n.record (.hostStore (w.bank.base + w.offset) w.value))) :
    Matches R (Both (c.Agree T)) (h.call c) (k.call c) := by
  intro m n hmn
  obtain ⟨hagree, hwrites⟩ := agree m n hmn
  have hput : ∀ w ∈ (h.answer c m.world).writes,
      Matches R Eq (Host.put w : Drive D σ Unit) (Host.put w) := by
    intro w hw m' n' h'
    rw [Host.on_put, Host.on_put]
    split
    · next hc => exact ⟨rfl, write m' n' m.world w hw hc h'⟩
    · exact ⟨rfl, h'⟩
    · exact ⟨rfl, h'⟩
  have hall := matches_forM _ hput _ _ (reply m n hmn)
  rw [Host.on_call, Host.on_call, hwrites]
  rcases hm : ((h.answer c m.world).writes.forM put : Drive D σ Unit).on (h.reply c m) with ⟨o, m'⟩
  rcases hn : ((h.answer c m.world).writes.forM put : Drive D τ Unit).on (k.reply c n) with ⟨p, n'⟩
  rw [hm, hn] at hall
  obtain ⟨rfl, h'⟩ := hall
  cases o with
  | ok _ => exact ⟨hagree, h'⟩
  | error e => exact ⟨rfl, h'⟩

def Drive.report (notice : SystemError → Notice) : Verdict → Drive D σ Unit
  | .ok () => pure ()
  | .error e => notify (notice e)

theorem Drive.matches_report {R : Machine D σ → Machine D τ → Prop}
    (notice : ∀ {m n} x, R m n → R (m.record (.notice x)) (n.record (.notice x)))
    (f : SystemError → Notice) (v : Verdict) :
    Matches R Eq (Drive.report f v : Drive D σ Unit) (Drive.report f v) := by
  cases v with
  | ok _ => exact matches_pure ()
  | error e => exact fun _ _ h => ⟨rfl, notice (f e) h⟩

def Block.withHost (b : Block D σ) (k : Host D τ) : Block D τ :=
  ⟨b.main, b.aon, b.controllers, b.domain, k⟩

theorem Block.withHost_domain (b : Block D σ) (k : Host D τ) :
    (b.withHost k).domain = b.domain := rfl

theorem Block.withHost_controllers (b : Block D σ) (k : Host D τ) :
    (b.withHost k).controllers = b.controllers := rfl

theorem Block.withHost_controller? (b : Block D σ) (k : Host D τ) (id : UInt8) :
    (b.withHost k).controller? id = b.controller? id := rfl

/-- The respects in which two machines, and the blocks on them, are alike. -/
structure Likeness (D σ τ : Type) where
  machines : Machine D σ → Machine D τ → Prop
  /-- Lines on which the gate decides alike. -/
  gates : UInt32 → Prop
  /-- Lines whose registers hold the same and may be stored to. -/
  registers : UInt32 → Prop
  /-- Calls that may be made. -/
  calls : Call D → Prop
  verdicts : Verdict → Verdict → Prop

namespace Likeness

structure Lasts (w : Likeness D σ τ) (b : Block D σ) (k : Host D τ) : Prop where
  gate : ∀ {m n line}, w.machines m n → w.gates line →
    b.owns n.memory line = b.owns m.memory line
  opens : ∀ {m n line}, w.machines m n → w.gates line → b.owns m.memory line = true →
    w.registers line
  load : ∀ {m n line l}, w.machines m n → w.registers line → validLine line = .ok l →
    ∀ r, (b.bank l.bank).Covers (l.offset r) →
      n.memory.loadWord ((b.bank l.bank).base + l.offset r) =
        m.memory.loadWord ((b.bank l.bank).base + l.offset r)
  store : ∀ {m n line l}, w.machines m n → w.registers line → validLine line = .ok l →
    ∀ r v, (b.bank l.bank).Covers (l.offset r) →
      w.machines (m.record (.store ((b.bank l.bank).base + l.offset r) v))
        (n.record (.store ((b.bank l.bank).base + l.offset r) v))
  call : ∀ c, w.calls c → Matches w.machines (Both (c.Agree w.verdicts)) (b.host.call c) (k.call c)
  notice : ∀ {m n} x, w.machines m n → w.machines (m.record (.notice x)) (n.record (.notice x))
  report : ∀ {v u} f, w.verdicts v u →
    Matches w.machines Eq (Drive.report f v : Drive D σ Unit) (Drive.report f u)

namespace Lasts

variable {w : Likeness D σ τ} {b : Block D σ} {k : Host D τ} (lasts : w.Lasts b k)
include lasts

theorem notify (x : Notice) :
    Matches w.machines Eq (Drive.notify x : Drive D σ Unit) (Drive.notify x) :=
  fun _ _ h => ⟨rfl, lasts.notice x h⟩

theorem callDomain (d : D) {c : DomainCall} (hc : w.calls (.domain d c)) :
    Matches w.machines Eq (b.callDomain d c) ((b.withHost k).callDomain d c) := by
  apply (lasts.call (.domain d c) hc).mono
  intro o p h
  cases o <;> cases p
  · exact congrArg _ h
  · exact h.elim
  · exact h.elim
  · exact congrArg _ h

theorem on_own {line : UInt32} (hg : w.gates line) {m : Machine D σ} {n : Machine D τ}
    (h : w.machines m n) :
    (b.owns m.memory line = true ∧ (b.own line).on m = (.ok (), m) ∧
        ((b.withHost k).own line).on n = (.ok (), n)) ∨
      (b.own line).on m = (.error (.refused (lineRefusal line)), m) ∧
        ((b.withHost k).own line).on n = (.error (.refused (lineRefusal line)), n) := by
  have hgate : (b.withHost k).owns n.memory line = b.owns m.memory line := lasts.gate h hg
  by_cases ho : b.owns m.memory line = true
  · exact Or.inl ⟨ho, b.on_own_of_owns ho, (b.withHost k).on_own_of_owns (hgate.trans ho)⟩
  · rw [Bool.not_eq_true] at ho
    exact Or.inr ⟨b.on_own_of_not_owns ho, (b.withHost k).on_own_of_not_owns (hgate.trans ho)⟩

/-- Behind the gate, computations on a line need to match only if it is let through. -/
theorem gated {Q : Except Failure α → Except Failure α → Prop} (hQ : ∀ o, Q o o) {line : UInt32}
    (hg : w.gates line) {f : Unit → Drive D σ α} {g : Unit → Drive D τ α}
    (hf : w.registers line → Matches w.machines Q (f ()) (g ())) :
    Matches w.machines Q (b.own line >>= f) ((b.withHost k).own line >>= g) := by
  intro m n h
  rcases lasts.on_own hg h with ⟨ho, hm, hn⟩ | ⟨hm, hn⟩
  · rw [on_bind_ok hm, on_bind_ok hn]
    exact hf (lasts.opens h hg ho) m n h
  · rw [on_bind_error hm, on_bind_error hn]
    exact ⟨hQ _, h⟩

theorem attempt_gated {Q : Except Failure α → Except Failure α → Prop} {line : UInt32}
    (hg : w.gates line) {f : Except Refusal Unit → Drive D σ α}
    {g : Except Refusal Unit → Drive D τ α}
    (hf : w.registers line → Matches w.machines Q (f (.ok ())) (g (.ok ())))
    (he : ∀ r, Matches w.machines Q (f (.error r)) (g (.error r))) :
    Matches w.machines Q (attempt (b.own line) >>= f)
      (attempt ((b.withHost k).own line) >>= g) := by
  intro m n h
  rcases lasts.on_own hg h with ⟨ho, hm, hn⟩ | ⟨hm, hn⟩
  · rw [on_bind_ok (on_attempt_ok hm), on_bind_ok (on_attempt_ok hn)]
    exact hf (lasts.opens h hg ho) m n h
  · rw [on_bind_ok (on_attempt_refused hm), on_bind_ok (on_attempt_refused hn)]
    exact he _ m n h

theorem read_eq {line : UInt32} (hr : w.registers line) (r : PinRegister) {m : Machine D σ}
    {n : Machine D τ} (h : w.machines m n) : b.read n.memory line r = b.read m.memory line r := by
  unfold Block.read
  by_cases hv : ∃ l, validLine line = .ok l
  · obtain ⟨l, hl⟩ := hv
    rw [hl]
    show (b.bank l.bank).read n.memory (l.offset r) = (b.bank l.bank).read m.memory (l.offset r)
    by_cases hc : (b.bank l.bank).Covers (l.offset r)
    · rw [Bank.read_of_covers _ hc (offset_fits hl r), Bank.read_of_covers _ hc (offset_fits hl r),
        lasts.load h hr hl r hc]
    · rw [Bank.read_of_not_covers _ hc (offset_fits hl r),
        Bank.read_of_not_covers _ hc (offset_fits hl r)]
  · rw [validLine_eq_error fun l hl => hv ⟨l, hl⟩]
    rfl

theorem write {line : UInt32} (hr : w.registers line) (r : PinRegister) (v : Word) :
    Matches w.machines Eq (b.write line r v) ((b.withHost k).write line r v) := by
  intro m n h
  by_cases hv : ∃ l, validLine line = .ok l
  · obtain ⟨l, hl⟩ := hv
    rw [b.on_write hl, (b.withHost k).on_write hl]
    show (((b.bank l.bank).put (l.offset r) v : Drive D σ Unit).on m).1 =
        (((b.bank l.bank).put (l.offset r) v : Drive D τ Unit).on n).1 ∧
      w.machines (((b.bank l.bank).put (l.offset r) v).on m).2
        (((b.bank l.bank).put (l.offset r) v).on n).2
    by_cases hc : (b.bank l.bank).Covers (l.offset r)
    · rw [Block.on_put_of_covers hc (offset_fits hl r),
        Block.on_put_of_covers hc (offset_fits hl r)]
      exact ⟨rfl, lasts.store h hr hl r v hc⟩
    · rw [Block.on_put_of_not_covers hc (offset_fits hl r),
        Block.on_put_of_not_covers hc (offset_fits hl r)]
      exact ⟨rfl, h⟩
  · have hnone := fun l hl => hv ⟨l, hl⟩
    rw [b.on_write_invalid hnone, (b.withHost k).on_write_invalid hnone]
    exact ⟨rfl, h⟩

theorem modifyRegister {line : UInt32} (hr : w.registers line) (r : PinRegister)
    (f : Word → Word) :
    Matches w.machines Eq (b.modifyRegister line r f) ((b.withHost k).modifyRegister line r f) := by
  intro m n h
  by_cases hv : ∃ l, validLine line = .ok l
  · obtain ⟨l, hl⟩ := hv
    by_cases hc : (b.bank l.bank).Covers (l.offset r)
    · have hc' : ((b.withHost k).bank l.bank).Covers (l.offset r) := hc
      rw [b.on_modifyRegister_of_covers hl hc, (b.withHost k).on_modifyRegister_of_covers hl hc']
      refine ⟨rfl, ?_⟩
      show w.machines (m.record (.store _ (f _))) (n.record (.store
        ((b.bank l.bank).base + l.offset r)
        (f (n.memory.loadWord ((b.bank l.bank).base + l.offset r)))))
      rw [lasts.load h hr hl r hc]
      exact lasts.store h hr hl r _ hc
    · have hc' : ¬ ((b.withHost k).bank l.bank).Covers (l.offset r) := hc
      rw [b.on_modifyRegister_of_not_covers hl hc,
        (b.withHost k).on_modifyRegister_of_not_covers hl hc']
      exact ⟨rfl, h⟩
  · have hnone := fun l hl => hv ⟨l, hl⟩
    rw [b.on_modifyRegister_invalid hnone, (b.withHost k).on_modifyRegister_invalid hnone]
    exact ⟨rfl, h⟩

theorem setConfig {line : UInt32} (hr : w.registers line) (bits : Word) (on : Bool) :
    Matches w.machines Eq (b.setConfig line bits on) ((b.withHost k).setConfig line bits on) :=
  lasts.modifyRegister hr .enableConfig _

end Lasts
end Likeness
end Gpio
