import Mathlib.Logic.Function.Basic
import Gpio.Proofs.Execution

/-!
# Domains that map lines

A domain behaves as a map when its replies and states follow a table from
lines to virtual interrupts: a mapping made gets a fresh virtual interrupt,
some lines cannot be mapped, and disposing takes a virtual interrupt out.
Over such a domain the two loops of attaching are run here exactly, effect by
effect: mapping goes up to the first line that is refused, and unmapping
gives every mapping back once.
-/

set_option autoImplicit false

namespace Gpio

open Drive

variable {D σ : Type}

def DomainCall.Attaching : DomainCall → Prop
  | create _ | find _ | dispose _ | setFlow .. | setChained .. => True
  | lineOf _ | handle _ | enter _ | exit _ => False

/-- The domain follows `table` in the states of `live`. The calls that attach it do not leave these
states and write no register. The lines of `refuses` cannot be mapped. -/
structure Host.Maps (h : Host D σ) (d : D) (refuses : UInt32 → Bool) (live : σ → Prop)
    (table : σ → UInt32 → Option UInt32) : Prop where
  lasting : ∀ {s}, live s → ∀ c : DomainCall, c.Attaching → live (h.answer (.domain d c) s).world
  quiet : ∀ {s}, live s → ∀ c : DomainCall, c.Attaching → (h.answer (.domain d c) s).writes = []
  refused : ∀ {s line}, live s → refuses line = true →
    (h.answer (.domain d (.create line)) s).reply = none ∧
    table (h.answer (.domain d (.create line)) s).world = table s
  created : ∀ {s line}, live s → refuses line = false → table s line = none →
    ∃ virq, (∀ k, table s k ≠ some virq) ∧
      (h.answer (.domain d (.create line)) s).reply = some virq ∧
      table (h.answer (.domain d (.create line)) s).world =
        Function.update (table s) line (some virq)
  found : ∀ {s}, live s → ∀ line,
    (h.answer (.domain d (.find line)) s).reply = table s line ∧
    table (h.answer (.domain d (.find line)) s).world = table s
  disposed : ∀ {s}, live s → ∀ virq,
    table (h.answer (.domain d (.dispose virq)) s).world =
      fun k => if table s k = some virq then none else table s k

theorem Machine.trace_reply (h : Host D σ) (c : Call D) (m : Machine D σ) :
    (h.reply c m).trace.toList = m.trace.toList ++ [.call c (h.answer c m.world).reply] := by
  simp only [Host.reply, record, Array.toList_push]

def mapEffects (d : D) (virq : UInt32 → UInt32) (ls : List UInt32) : List (Effect D) :=
  ls.map fun k => .call (.domain d (.create k)) (some (virq k))

theorem mapEffects_append (d : D) (virq : UInt32 → UInt32) (ls : List UInt32) (k : UInt32) :
    mapEffects d virq (ls ++ [k]) =
      mapEffects d virq ls ++ [.call (.domain d (.create k)) (some (virq k))] :=
  List.map_append

def unmapEffects (d : D) (virq : UInt32 → UInt32) (ls : List UInt32) : List (Effect D) :=
  ls.flatMap fun k => [.call (.domain d (.find k)) (some (virq k)),
    .call (.domain d (.dispose (virq k))) ()]

namespace Host

variable {h : Host D σ} {d : D} {refuses : UInt32 → Bool} {live : σ → Prop}
  {table : σ → UInt32 → Option UInt32}

theorem Maps.on_call (maps : h.Maps d refuses live table) {m : Machine D σ}
    (hm : live m.world) (c : DomainCall) (hc : c.Attaching) :
    (h.call (.domain d c)).on m =
      (.ok (h.answer (.domain d c) m.world).reply, h.reply (.domain d c) m) :=
  Host.on_call_of_quiet (maps.quiet hm c hc)

structure Mapped (d : D) (live : σ → Prop) (table : σ → UInt32 → Option UInt32)
    (m₀ m : Machine D σ) (ls : List UInt32) (virq : UInt32 → UInt32) : Prop where
  live : live m.world
  memory : m.memory = m₀.memory
  trace : m.trace.toList = m₀.trace.toList ++ mapEffects d virq ls
  table : ∀ k, table m.world k = if k ∈ ls then some (virq k) else none
  distinct : ∀ j ∈ ls, ∀ k ∈ ls, virq j = virq k → j = k

theorem Mapped.start {m : Machine D σ} (hm : live m.world) (empty : ∀ k, table m.world k = none) :
    Mapped d live table m m [] id :=
  ⟨hm, rfl, (List.append_nil _).symm, empty, fun _ hj => absurd hj List.not_mem_nil⟩

theorem Maps.create_mapped (maps : h.Maps d refuses live table) {m₀ m : Machine D σ}
    {ls : List UInt32} {virq : UInt32 → UInt32} (hm : Mapped d live table m₀ m ls virq)
    {k : UInt32} (hk : k ∉ ls) (accepted : refuses k = false) :
    ∃ v, (h.call (.domain d (.create k))).on m = (.ok (some v), h.reply (.domain d (.create k)) m) ∧
      Mapped d live table m₀ (h.reply (.domain d (.create k)) m) (ls ++ [k])
        (Function.update virq k v) := by
  have hnone : table m.world k = none := by rw [hm.table k, if_neg hk]
  obtain ⟨v, hfresh, hreply, htable⟩ := maps.created hm.live accepted hnone
  have hon := maps.on_call hm.live (.create k) trivial
  rw [hreply] at hon
  have hkeep : ∀ j ∈ ls, Function.update virq k v j = virq j := by
    intro j hj
    have hjk : j ≠ k := by rintro rfl; exact hk hj
    exact Function.update_of_ne hjk _ _
  -- The new virtual interrupt is in no entry of the table, so no line of `ls` has it.
  have hother : ∀ j ∈ ls, virq j ≠ v := by
    intro j hj hv
    apply hfresh j
    rw [hm.table j, if_pos hj, hv]
  refine ⟨v, hon, maps.lasting hm.live _ trivial, hm.memory, ?_, fun j => ?_,
    fun i hi j hj hij => ?_⟩
  · have hsame : mapEffects d (Function.update virq k v) ls = mapEffects d virq ls :=
      List.map_congr_left fun j hj => by rw [hkeep j hj]
    rw [Machine.trace_reply, hreply, hm.trace, mapEffects_append, hsame, Function.update_self,
      List.append_assoc]
  · show table (h.answer (.domain d (.create k)) m.world).world j = _
    rw [htable]
    by_cases hj : j = k
    · subst hj
      rw [Function.update_self, Function.update_self, if_pos (by simp)]
    · rw [Function.update_of_ne hj, Function.update_of_ne hj, hm.table j]
      simp only [List.mem_append, List.mem_singleton, hj, or_false]
  · by_cases hik : i = k
    · by_cases hjk : j = k
      · rw [hik, hjk]
      · have hjl : j ∈ ls := by simpa [hjk] using hj
        rw [hik, Function.update_self, hkeep j hjl] at hij
        exact absurd hij.symm (hother j hjl)
    · have hil : i ∈ ls := by simpa [hik] using hi
      by_cases hjk : j = k
      · rw [hjk, Function.update_self, hkeep i hil] at hij
        exact absurd hij (hother i hil)
      · have hjl : j ∈ ls := by simpa [hjk] using hj
        rw [hkeep i hil, hkeep j hjl] at hij
        exact hm.distinct i hil j hjl hij

end Host

namespace Block

variable {b : Block D σ} {d : D} {refuses : UInt32 → Bool} {live : σ → Prop}
  {table : σ → UInt32 → Option UInt32}

theorem on_mapLines_append (maps : b.host.Maps d refuses live table) {m₀ : Machine D σ}
    (ls rest : List UInt32) (accepted : ∀ k ∈ ls, refuses k = false) {before : List UInt32}
    (nodup : (before ++ ls).Nodup) {m : Machine D σ} {virq : UInt32 → UInt32}
    (hm : Host.Mapped d live table m₀ m before virq) :
    ∃ virq' m', (b.mapLines d (ls ++ rest)).on m = (b.mapLines d rest).on m' ∧
      Host.Mapped d live table m₀ m' (before ++ ls) virq' := by
  -- `Mapped` carries the loop: each turn moves the first line of `ls` to the end of `before`.
  induction ls generalizing before m virq with
  | nil => exact ⟨virq, m, rfl, (List.append_nil before).symm ▸ hm⟩
  | cons k ls ih =>
    have hk : k ∉ before := fun hmem => (List.nodup_append.mp nodup).2.2 k hmem k (by simp) rfl
    obtain ⟨v, hon, hv⟩ := maps.create_mapped hm hk (accepted k (by simp))
    have hnodup : ((before ++ [k]) ++ ls).Nodup := by simpa using nodup
    obtain ⟨virq', m', hrest, hm'⟩ := ih (fun j hj => accepted j (by simp [hj])) hnodup hv
    refine ⟨virq', m', ?_, by simpa using hm'⟩
    rw [← hrest]
    exact on_bind_ok hon _

theorem on_mapLines_refused (maps : b.host.Maps d refuses live table) {m : Machine D σ}
    (hm : live m.world) {k : UInt32} (hk : refuses k = true) (rest : List UInt32) :
    (b.mapLines d (k :: rest)).on m =
      (.ok (some k), b.host.reply (.domain d (.create k)) m) := by
  have hon := maps.on_call hm (.create k) trivial
  rw [(maps.refused hm hk).1] at hon
  exact on_bind_ok hon _

/-- Giving back every line that is mapped, each under its own virtual interrupt, leaves none. -/
theorem on_unmapLines (maps : b.host.Maps d refuses live table) (virq : UInt32 → UInt32)
    (ls : List UInt32) (nodup : ls.Nodup)
    (distinct : ∀ j ∈ ls, ∀ k ∈ ls, virq j = virq k → j = k) {m : Machine D σ}
    (hlive : live m.world)
    (mapped : ∀ k, table m.world k = if k ∈ ls then some (virq k) else none) :
    ∃ m', (b.unmapLines d ls).on m = (.ok (), m') ∧ m'.memory = m.memory ∧
      m'.trace.toList = m.trace.toList ++ unmapEffects d virq ls ∧
      ∀ k, table m'.world k = none := by
  -- Each turn takes its line out of the table, which then maps just the lines still to come.
  induction ls generalizing m with
  | nil =>
    refine ⟨m, rfl, rfl, (List.append_nil _).symm, fun k => ?_⟩
    rw [mapped k, if_neg List.not_mem_nil]
  | cons k ls ih =>
    obtain ⟨hk, hls⟩ := List.nodup_cons.mp nodup
    have hself : table m.world k = some (virq k) := by rw [mapped k, if_pos (by simp)]
    let m₁ := b.host.reply (.domain d (.find k)) m
    let m₂ := b.host.reply (.domain d (.dispose (virq k))) m₁
    have hfound := maps.found hlive k
    rw [hself] at hfound
    have hfind := maps.on_call hlive (.find k) trivial
    rw [hfound.1] at hfind
    have hlive₁ : live m₁.world := maps.lasting hlive _ trivial
    have hdispose := maps.on_call hlive₁ (.dispose (virq k)) trivial
    have mapped₂ : ∀ j, table m₂.world j = if j ∈ ls then some (virq j) else none := by
      intro j
      have htable : table m₂.world j =
          if table m.world j = some (virq k) then none else table m.world j := by
        rw [← hfound.2]
        exact congrFun (maps.disposed hlive₁ (virq k)) j
      rw [htable]
      by_cases hj : j ∈ ls
      · have hne : virq j ≠ virq k := by
          intro hv
          exact hk (distinct j (by simp [hj]) k (by simp) hv ▸ hj)
        have hsome : table m.world j = some (virq j) := by rw [mapped j, if_pos (by simp [hj])]
        rw [hsome, if_neg fun hv => hne (Option.some.inj hv), if_pos hj]
      · by_cases hjk : j = k
        · rw [hjk, if_pos hself, if_neg hk]
        · have hnone : table m.world j = none := by rw [mapped j, if_neg (by simp [hjk, hj])]
          rw [hnone, if_neg nofun, if_neg hj]
    obtain ⟨m', hrest, hmemory, htrace, hnone⟩ :=
      ih hls (fun i hi j hj => distinct i (by simp [hi]) j (by simp [hj]))
        (maps.lasting hlive₁ (.dispose (virq k)) trivial) mapped₂
    refine ⟨m', ?_, hmemory, ?_, hnone⟩
    · rw [← hrest]
      exact on_bind_ok ((on_bind_ok hfind _).trans hdispose) _
    · rw [htrace]
      simp only [m₂, m₁, Machine.trace_reply, hfound.1, unmapEffects, List.flatMap_cons,
        List.append_assoc, List.cons_append, List.nil_append]

end Block
end Gpio
