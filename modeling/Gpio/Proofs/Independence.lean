import Gpio.Proofs.Confinement
import Gpio.Proofs.Parallel

/-!
# Operations on different lines

What an operation on a line sees of memory is the security word and the
registers of that line, and of these it writes the registers only. No two
lines share such a word, whatever the sizes of the banks. So operations on
different lines can be run in either order.
-/

set_option autoImplicit false

namespace Gpio

open Drive

variable {D σ : Type}

def Host.Fixed (h : Host D σ) (c : Call D) : Prop :=
  ∀ s u, (h.answer c s).reply = (h.answer c u).reply ∧
    (h.answer c s).writes = (h.answer c u).writes

namespace Operation

variable {op : Operation D} {line : UInt32}

theorem Accesses.line_eq (h : op.Accesses line) : op.line? = some line := by
  cases op with
  | read | write | update => exact congrArg some h
  | _ => exact h.elim

theorem line_eq_of_aims {b : Block D σ} {s : σ} {k : UInt32} (h : op.line? = some line)
    (aims : b.Aims s op k) : k = line := by
  cases op with
  | attach | irq => cases h
  | _ => exact Option.some.inj (aims.symm.trans h)

end Operation

namespace Block

variable (b : Block D σ)

def InLine (line : UInt32) (a : Nat) : Prop :=
  ∃ l r, validLine line = .ok l ∧ (b.bank l.bank).Covers (l.offset r) ∧
    (b.bank l.bank).base + l.offset r ≤ a ∧ a < (b.bank l.bank).base + l.offset r + 4

def InSecurity (line : UInt32) (a : Nat) : Prop :=
  ∃ l, validLine line = .ok l ∧ (b.bank l.bank).Covers l.security ∧
    (b.bank l.bank).base + l.security ≤ a ∧ a < (b.bank l.bank).base + l.security + 4

/-- All that operations on the line see of memory. -/
def Views (line : UInt32) (a : Nat) : Prop := b.InLine line a ∨ b.InSecurity line a

def onLine (line : UInt32) : Likeness D σ σ where
  machines m n := ∀ a, b.Views line a → n.memory.byte a = m.memory.byte a
  gates k := k = line
  registers k := k = line
  calls := b.host.Fixed
  verdicts := Eq

variable {b} {line i j : UInt32} {m : Machine D σ}

theorem holds_of_views {a : Nat} (h : b.Views line a) : ∃ kind, (b.bank kind).Holds a := by
  rcases h with ⟨l, r, -, hc, hlo, hhi⟩ | ⟨l, -, hc, hlo, hhi⟩
  · exact ⟨l.bank, Bank.holds_of_covers hc hlo hhi⟩
  · exact ⟨l.bank, Bank.holds_of_covers hc hlo hhi⟩

/-- A register of one line is no part of what is seen of another. -/
theorem not_views_of_inLine (apart : (b.bank .main).Apart (b.bank .aon)) (hne : i ≠ j) {a : Nat}
    (h : b.InLine i a) : ¬ b.Views j a := by
  obtain ⟨l, r, hl, hc, hlo, hhi⟩ := h
  rintro (⟨k, s, hk, hd, hlo', hhi'⟩ | ⟨k, hk, hd, hlo', hhi'⟩)
  · have := words_apart apart hc hd fun hsame =>
      hne (offset_injective hl hk hsame.1 hsame.2).1
    omega
  · have := words_apart apart hc hd fun hsame =>
      security_ne_offset (validLine_eq_ok.mp hk).1 hl hsame.1.symm r hsame.2.symm
    omega

theorem onLine_lasts (line : UInt32) : (b.onLine line).Lasts b b.host where
  gate {m n k} hm hk := by
    subst hk
    unfold owns
    cases hv : validLine k with
    | error e => rfl
    | ok l =>
      unfold grants
      by_cases hc : (b.bank l.bank).Covers l.security
      · have hword : n.memory.loadWord ((b.bank l.bank).base + l.security) =
            m.memory.loadWord ((b.bank l.bank).base + l.security) :=
          Memory.loadWord_eq_iff.mpr fun a hlo hhi => hm a (Or.inr ⟨l, hv, hc, hlo, hhi⟩)
        simp only [hword]
      · simp only [hc, decide_false, Bool.false_and]
  opens _ hk _ := hk
  load {m n k l} hm hk hl r hc := by
    subst hk
    exact Memory.loadWord_eq_iff.mpr fun a hlo hhi => hm a (Or.inl ⟨l, r, hl, hc, hlo, hhi⟩)
  store hm _ _ _ v _ := fun a ha => Memory.byte_storeWord_congr v fun _ => hm a ha
  call c fixed := by
    apply Host.matches_call
    · intro m n _
      obtain ⟨hreply, hwrites⟩ := fixed n.world m.world
      exact ⟨hreply ▸ c.agree_self (fun _ => rfl) _, hwrites⟩
    · exact fun m n hm => hm
    · exact fun m n s w _ _ hm a ha => Memory.byte_storeWord_congr w.value fun _ => hm a ha
  notice _ hm := hm
  report f hvu := by
    subst hvu
    exact matches_report (fun _ hm => hm) f _

def Settled (b : Block D σ) (line : UInt32) (m₀ : Memory) (m : Machine D σ) : Prop :=
  ∀ a, ¬ b.InLine line a → ¬ b.host.Writes a → m.memory.byte a = m₀.byte a

theorem settled_robust (line : UInt32) (m₀ : Memory) :
    b.Robust (· = line) (b.Settled line m₀) where
  store {m k l} hk hl r v hc hm a ha hw := by
    subst hk
    rw [← hm a ha hw]
    exact Memory.byte_storeWord_of_out v fun hin => ha ⟨l, r, hl, hc, hin⟩
  call c _ := by
    apply Host.keeps_call
    · exact fun m hm => hm
    · intro m s w hmem hc hm a ha hw
      rw [← hm a ha hw]
      exact Memory.byte_storeWord_of_out w.value fun hin => hw ⟨c, s, w, hmem, hc, hin⟩
  notice _ hm := hm

theorem perform_settled {op : Operation D} (h : op.line? = some line) (m : Machine D σ) :
    b.Settled line m.memory ((b.perform op).on m).2 :=
  (b.settled_robust line m.memory).perform_keeps op (fun _ _ _ => rfl)
    fun _ aims _ _ _ => op.line_eq_of_aims h aims

/-- On machines that agree on the line an operation does the same. -/
theorem perform_onLine {op : Operation D} (h : op.line? = some line)
    (fixed : ∀ c, op.Makes c → b.host.Fixed c) :
    Matches (b.onLine line).machines (op.Agrees Eq) (b.perform op) (b.perform op) := by
  have gates : ∀ k, op.line? = some k ∨ op.line? = none → k = line := by
    rw [h]
    rintro k (hk | hk)
    · exact (Option.some.inj hk).symm
    · cases hk
  have chained : (∃ id, op = .chained id) → (b.onLine line).ShowsStatus b := by
    rintro ⟨id, rfl⟩
    cases h
  exact (onLine_lasts line).perform_matches op gates (fun k hk => gates k (Or.inl hk.line_eq))
    fixed chained

theorem Settled.agrees (apart : (b.bank .main).Apart (b.bank .aon))
    (spares : ∀ kind, b.host.Spares (b.bank kind)) (hne : i ≠ j) {n : Machine D σ}
    (h : b.Settled j m.memory n) : (b.onLine i).machines m n := by
  intro a ha
  obtain ⟨kind, hk⟩ := holds_of_views ha
  exact h a (fun hj => not_views_of_inLine apart hne.symm hj ha) (spares kind a hk)

/-- Two operations on different lines of which nothing but the arguments decides what is answered to
their calls, over banks of any size: in either order each has the same outcome, and memory ends up
the same, but for what the host writes elsewhere. -/
theorem perform_either_order (apart : (b.bank .main).Apart (b.bank .aon))
    (spares : ∀ kind, b.host.Spares (b.bank kind)) (hne : i ≠ j) {p q : Operation D}
    (hp : p.line? = some i) (hq : q.line? = some j)
    (fixed : ∀ c, p.Makes c ∨ q.Makes c → b.host.Fixed c) (m : Machine D σ) :
    ((b.perform p).on ((b.perform q).on m).2).1 = ((b.perform p).on m).1 ∧
    ((b.perform q).on ((b.perform p).on m).2).1 = ((b.perform q).on m).1 ∧
    ∀ a, ¬ b.host.Writes a →
      ((b.perform p).on ((b.perform q).on m).2).2.memory.byte a =
        ((b.perform q).on ((b.perform p).on m).2).2.memory.byte a := by
  let mp := ((b.perform p).on m).2
  let mq := ((b.perform q).on m).2
  have settled_p : b.Settled i m.memory mp := perform_settled hp m
  have settled_q : b.Settled j m.memory mq := perform_settled hq m
  have settled_pq : b.Settled j mp.memory ((b.perform q).on mp).2 := perform_settled hq mp
  have settled_qp : b.Settled i mq.memory ((b.perform p).on mq).2 := perform_settled hp mq
  -- Each operation runs alike before and after the other one.
  have alike_p := perform_onLine hp (fun c hc => fixed c (Or.inl hc)) m mq
    (settled_q.agrees apart spares hne)
  have alike_q := perform_onLine hq (fun c hc => fixed c (Or.inr hc)) m mp
    (settled_p.agrees apart spares hne.symm)
  refine ⟨alike_p.1.eq, alike_q.1.eq, fun a hw => ?_⟩
  by_cases hi : b.InLine i a
  · have hj : ¬ b.InLine j a := fun hj => not_views_of_inLine apart hne hi (Or.inl hj)
    calc ((b.perform p).on mq).2.memory.byte a
      _ = mp.memory.byte a := alike_p.2 a (Or.inl hi)
      _ = ((b.perform q).on mp).2.memory.byte a := (settled_pq a hj hw).symm
  · by_cases hj : b.InLine j a
    · calc ((b.perform p).on mq).2.memory.byte a
        _ = mq.memory.byte a := settled_qp a hi hw
        _ = ((b.perform q).on mp).2.memory.byte a := (alike_q.2 a (Or.inl hj)).symm
    · calc ((b.perform p).on mq).2.memory.byte a
        _ = mq.memory.byte a := settled_qp a hi hw
        _ = m.memory.byte a := settled_q a hj hw
        _ = mp.memory.byte a := (settled_p a hi hw).symm
        _ = ((b.perform q).on mp).2.memory.byte a := (settled_pq a hj hw).symm

open Simulation in
/-- Lines 0 and 6 are pins of one port; the wake controller hears of the second. -/
theorem bench_perform_either_order :
    let first : Operation Nat := .directionOutput 0 true
    let second : Operation Nat := .setType 6 .edgeRising
    let b := Fixture.start.probed
    let m : Machine Nat World := .start Fixture.granting Fixture.start.world
    (b.bank .main).Apart (b.bank .aon) ∧
    ((b.perform first).on ((b.perform second).on m).2).1 = ((b.perform first).on m).1 ∧
    ((b.perform second).on ((b.perform first).on m).2).1 = ((b.perform second).on m).1 ∧
    ∀ a, ((b.perform first).on ((b.perform second).on m).2).2.memory.byte a =
      ((b.perform second).on ((b.perform first).on m).2).2.memory.byte a := by
  intro first second b m
  have quiet : b.host.Quiet := Fixture.hostFor_quiet none none
  have fixed : ∀ c, first.Makes c ∨ second.Makes c → b.host.Fixed c := by
    rintro c (rfl | ⟨wake, -, rfl⟩)
    · exact fun _ _ => ⟨rfl, rfl⟩
    · exact fun _ _ => ⟨rfl, rfl⟩
  have apart : (b.bank .main).Apart (b.bank .aon) := Fixture.start_apart
  have hrun := perform_either_order apart (fun _ => Host.spares_of_quiet quiet _)
    (show (0 : UInt32) ≠ 6 by decide) (rfl : first.line? = some 0) (rfl : second.line? = some 6)
    fixed m
  refine ⟨apart, hrun.1, hrun.2.1, fun a => hrun.2.2 a ?_⟩
  rintro ⟨c, s, w, hw, -⟩
  rw [quiet c s] at hw
  cases hw

end Block
end Gpio
