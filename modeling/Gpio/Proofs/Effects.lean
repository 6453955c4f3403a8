import Mathlib.Data.List.Basic
import Gpio.Proofs.Invariance
import Gpio.Proofs.Mapping

/-!
# What a computation emits

A computation is described by the effects it has itself. The host may write
in between, as long as it spares the bytes the computation goes by; where it
has to spare every byte, the effects described are all there are.
-/

set_option autoImplicit false

namespace Gpio

open Drive

variable {D σ α β : Type}

def Memory.Agrees (kept : Nat → Prop) (m m' : Memory) : Prop := ∀ a, kept a → m'.byte a = m.byte a

theorem Memory.Agrees.refl (kept : Nat → Prop) (m : Memory) : m.Agrees kept m := fun _ _ => rfl

theorem Memory.Agrees.trans {kept : Nat → Prop} {m m' m'' : Memory} (h : m.Agrees kept m')
    (h' : m'.Agrees kept m'') : m.Agrees kept m'' :=
  fun a ha => (h' a ha).trans (h a ha)

structure Machine.After (m₀ : Machine D σ) (es : List (Effect D)) (m : Machine D σ) : Prop where
  trace : m.trace.toList = m₀.trace.toList ++ es
  memory : m.memory = es.foldl Effect.onMemory m₀.memory

namespace Machine.After

variable {m₀ m m' : Machine D σ} {es fs : List (Effect D)}

theorem refl (m : Machine D σ) : m.After [] m := ⟨(List.append_nil _).symm, rfl⟩

theorem trans (h : m₀.After es m) (h' : m.After fs m') : m₀.After (es ++ fs) m' := by
  constructor
  · rw [h'.trace, h.trace, List.append_assoc]
  · rw [h'.memory, h.memory, List.foldl_append]

theorem single (m : Machine D σ) (e : Effect D) : m.After [e] (m.record e) :=
  ⟨Array.toList_push, rfl⟩

theorem record (h : m₀.After es m) (e : Effect D) : m₀.After (es ++ [e]) (m.record e) :=
  h.trans (.single m e)

theorem reply (h : Host D σ) (c : Call D) (m : Machine D σ) :
    m.After [.call c (h.answer c m.world).reply] (h.reply c m) :=
  ⟨m.trace_reply h c, rfl⟩

end Machine.After

/-- A call leaves itself in the trace and then what the host writes. -/
theorem Host.call_after (h : Host D σ) (c : Call D) (m : Machine D σ) :
    ∃ ws : List (Effect D), (∀ e ∈ ws, ∃ a v, e = .hostStore a v) ∧
      m.After (.call c (h.answer c m.world).reply :: ws) ((h.call c).on m).2 := by
  apply Host.call_keeps (I := fun n => ∃ ws : List (Effect D),
    (∀ e ∈ ws, ∃ a v, e = .hostStore a v) ∧
      m.After (.call c (h.answer c m.world).reply :: ws) n)
  · exact ⟨[], fun _ he => absurd he List.not_mem_nil, .reply h c m⟩
  · rintro n s w - - ⟨ws, hws, after⟩
    let written : Effect D := .hostStore (w.bank.base + w.offset) w.value
    exact ⟨ws ++ [written], List.forall_mem_append.mpr
      ⟨hws, List.forall_mem_singleton.mpr ⟨_, _, rfl⟩⟩, after.record written⟩

def Effect.isHostStore : Effect D → Bool
  | .hostStore .. => true
  | .store .. | .call .. | .notice _ => false

def Effect.Spares (kept : Nat → Prop) : Effect D → Prop
  | .store a _ | .hostStore a _ => ∀ x, kept x → ¬ (a ≤ x ∧ x < a + 4)
  | .call .. | .notice _ => True

structure HostWrite.Spares (w : HostWrite) (kept : Nat → Prop) : Prop where
  steady : ∀ o, w.bank.check w.offset ≠ .error (.overflow o)
  apart : w.bank.check w.offset = .ok () →
    ∀ x, kept x → ¬ (w.bank.base + w.offset ≤ x ∧ x < w.bank.base + w.offset + 4)

theorem HostWrite.spares_of_quiet {h : Host D σ} {c : Call D} {s : σ} {kept : Nat → Prop}
    (quiet : (h.answer c s).writes = []) : ∀ w ∈ (h.answer c s).writes, w.Spares kept := by
  intro w hw
  rw [quiet] at hw
  cases hw

theorem Effect.Spares.agrees {kept : Nat → Prop} {e : Effect D} (h : e.Spares kept) (m : Memory) :
    m.Agrees kept (e.onMemory m) := by
  intro x hx
  cases e with
  | store a v => exact Memory.byte_storeWord_of_out v (h x hx)
  | hostStore a v => exact Memory.byte_storeWord_of_out v (h x hx)
  | call | notice => rfl

structure Amounts (kept : Nat → Prop) (fs es : List (Effect D)) : Prop where
  spares : ∀ e ∈ fs, e.Spares kept
  own : fs.filter (!·.isHostStore) = es

namespace Amounts

variable {kept : Nat → Prop} {fs es fs' es' : List (Effect D)}

theorem nil : Amounts kept ([] : List (Effect D)) [] :=
  ⟨fun _ he => absurd he List.not_mem_nil, rfl⟩

theorem single {e : Effect D} (h : e.Spares kept) :
    Amounts kept [e] (if e.isHostStore then [] else [e]) := by
  constructor
  · intro f hf
    rwa [List.mem_singleton.mp hf]
  · cases e <;> rfl

theorem append (h : Amounts kept fs es) (h' : Amounts kept fs' es') :
    Amounts kept (fs ++ fs') (es ++ es') := by
  constructor
  · intro e he
    exact (List.mem_append.mp he).elim (h.spares e) (h'.spares e)
  · rw [List.filter_append, h.own, h'.own]

theorem agrees (h : Amounts kept fs es) {m m' : Machine D σ} (after : m.After fs m') :
    m.memory.Agrees kept m'.memory := by
  have hfold : ∀ (gs : List (Effect D)) (n : Memory), (∀ e ∈ gs, e.Spares kept) →
      n.Agrees kept (gs.foldl Effect.onMemory n) := by
    intro gs
    induction gs with
    | nil => exact fun n _ => .refl kept n
    | cons e gs ih =>
      intro n hgs
      exact ((hgs e (by simp)).agrees n).trans (ih _ fun f hf => hgs f (by simp [hf]))
  rw [after.memory]
  exact hfold fs m.memory h.spares

/-- What is picked out of the effects, and never is a write of the host, is in `es`. -/
theorem filterMap_eq {γ : Type} (h : Amounts kept fs es) {f : Effect D → Option γ}
    (hf : ∀ a v, f (.hostStore a v) = none) : fs.filterMap f = es.filterMap f := by
  rw [← h.own, List.filterMap_filter]
  refine List.filterMap_congr fun e _ => ?_
  cases e with
  | hostStore a v => exact hf a v
  | store | call | notice => rfl

/-- Where every byte is kept, nothing is stored. -/
theorem all_kept (h : Amounts (fun _ => True) fs es) {m m' : Machine D σ} (after : m.After fs m') :
    fs = es ∧ m'.memory = m.memory := by
  have silent : ∀ e ∈ fs, e.isHostStore = false ∧ ∀ n, e.onMemory n = n := by
    intro e he
    have hs := h.spares e he
    cases e with
    | store a v => exact absurd ⟨Nat.le_refl a, Nat.lt_add_of_pos_right (by decide)⟩ (hs a trivial)
    | hostStore a v =>
      exact absurd ⟨Nat.le_refl a, Nat.lt_add_of_pos_right (by decide)⟩ (hs a trivial)
    | call | notice => exact ⟨rfl, fun _ => rfl⟩
  constructor
  · rw [← h.own, List.filter_eq_self.mpr fun e he => by rw [(silent e he).1]; rfl]
  · rw [after.memory]
    exact List.foldlRecOn fs Effect.onMemory (motive := (· = m.memory)) rfl
      fun n hn e he => ((silent e he).2 n).trans hn

end Amounts

/-- From a host in `live`, over contents that agree with `memory` on `kept`, the computation gives
`v` and leaves the host in `live`. Its own effects are `es`; what the host writes meanwhile spares
`kept`. -/
def Emits (live : σ → Prop) (kept : Nat → Prop) (memory : Memory) (x : Drive D σ α) (v : α)
    (es : List (Effect D)) : Prop :=
  ∀ m : Machine D σ, live m.world → memory.Agrees kept m.memory → ∃ m' fs, x.on m = (.ok v, m') ∧
    live m'.world ∧ m.After fs m' ∧ Amounts kept fs es

section Emits

variable {live : σ → Prop} {kept : Nat → Prop} {memory : Memory}

theorem emits_pure (v : α) : Emits live kept memory (pure v : Drive D σ α) v [] :=
  fun m hm _ => ⟨m, [], rfl, hm, .refl m, .nil⟩

theorem emits_bind {x : Drive D σ α} {f : α → Drive D σ β} {v : α} {w : β}
    {es fs : List (Effect D)} (hx : Emits live kept memory x v es)
    (hf : Emits live kept memory (f v) w fs) : Emits live kept memory (x >>= f) w (es ++ fs) := by
  intro m hm hmem
  obtain ⟨m₁, es₁, h₁, hm₁, after₁, amounts₁⟩ := hx m hm hmem
  obtain ⟨m₂, es₂, h₂, hm₂, after₂, amounts₂⟩ := hf m₁ hm₁ (hmem.trans (amounts₁.agrees after₁))
  exact ⟨m₂, es₁ ++ es₂, (on_bind_ok h₁ f).trans h₂, hm₂, after₁.trans after₂,
    amounts₁.append amounts₂⟩

theorem emits_forM {γ : Type} {g : γ → Drive D σ Unit} {es : γ → List (Effect D)} (as : List γ)
    (h : ∀ a ∈ as, Emits live kept memory (g a) () (es a)) :
    Emits live kept memory (as.forM g) () (as.flatMap es) := by
  induction as with
  | nil => exact emits_pure ()
  | cons a as ih =>
    exact emits_bind (h a (by simp)) (ih fun c hc => h c (by simp [hc]))

theorem emits_notify (n : Notice) :
    Emits live kept memory (Drive.notify n : Drive D σ Unit) () [.notice n] := by
  intro m hm _
  exact ⟨_, _, on_notify n m, hm, .single m _, .single trivial⟩

theorem put_emits {w : HostWrite} (hw : w.Spares kept) :
    Emits live kept memory (Host.put w : Drive D σ Unit) () [] := by
  intro m hm _
  rw [Host.on_put]
  rcases hc : w.bank.check w.offset with (r | o) | u
  · exact ⟨m, [], rfl, hm, .refl m, .nil⟩
  · exact absurd hc (hw.steady o)
  · let e : Effect D := .hostStore (w.bank.base + w.offset) w.value
    have spared : e.Spares kept := hw.apart hc
    have hm' : live (m.record e).world := by rwa [m.world_record]
    exact ⟨m.record e, [e], rfl, hm', .single m e, .single spared⟩

/-- A call whose reply is known, and around which the host writes elsewhere. -/
theorem call_emits {h : Host D σ} {c : Call D} {v : c.Reply}
    (lasting : ∀ s, live s → live (h.answer c s).world)
    (reply : ∀ s, live s → (h.answer c s).reply = v)
    (spares : ∀ s, live s → ∀ w ∈ (h.answer c s).writes, w.Spares kept) :
    Emits live kept memory (h.call c) v [.call c v] := by
  intro m hm hmem
  have writes : Emits live kept memory ((h.answer c m.world).writes.forM Host.put : Drive D σ Unit)
      () ((h.answer c m.world).writes.flatMap fun _ => []) :=
    emits_forM _ fun w hw => put_emits (spares m.world hm w hw)
  obtain ⟨m', fs, hon, hm', after, amounts⟩ := writes (h.reply c m) (lasting _ hm) hmem
  have hreply := reply m.world hm
  refine ⟨m', [.call c v] ++ fs, ?_, hm', ?_, ?_⟩
  · rw [Host.on_call, hon, hreply]
  · have called := Machine.After.reply h c m
    rw [hreply] at called
    exact called.trans after
  · have called : Amounts kept [Effect.call c v] [.call c v] := .single trivial
    have hown := called.append amounts
    rwa [List.flatMap_eq_nil_iff.mpr fun _ _ => rfl, List.append_nil] at hown

theorem Emits.exact {m : Machine D σ} {x : Drive D σ α} {v : α} {es : List (Effect D)}
    (h : Emits live (fun _ => True) m.memory x v es) (hm : live m.world) :
    ∃ m', x.on m = (.ok v, m') ∧ live m'.world ∧ m'.memory = m.memory ∧
      m'.trace.toList = m.trace.toList ++ es := by
  obtain ⟨m', fs, hon, hm', after, amounts⟩ := h m hm (.refl _ _)
  obtain ⟨rfl, hmemory⟩ := amounts.all_kept after
  exact ⟨m', hon, hm', hmemory, after.trace⟩

end Emits
end Gpio
