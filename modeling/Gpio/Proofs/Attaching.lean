import Gpio.Proofs.Binding
import Gpio.Proofs.Independence

/-!
# Attaching over banks of any size

Masking clears one bit in the register of each line this domain owns, and no
store of it reaches what the gate looks at, so every line is judged as it was
at first. It stops at the first owned line whose register lies outside its
bank; then every mapping is given back, and the bits cleared so far stay so.
The effects of all three ways attaching can end are said here exactly.
-/

set_option autoImplicit false

namespace Gpio

open Drive

variable {D σ α β : Type}

/-- The domain maps lines as `table` says, and nothing else the host is asked changes the table. -/
structure Host.Tracks (h : Host D σ) (d : D) (refuses : UInt32 → Bool) (live : σ → Prop)
    (table : σ → UInt32 → Option UInt32) : Prop extends h.Maps d refuses live table where
  enduring : ∀ {s}, live s → ∀ c, live (h.answer c s).world
  stable : ∀ {s}, live s → ∀ c : Call D, ¬ c.Remaps → table (h.answer c s).world = table s

theorem Drive.on_bind_congr {x y : Drive D σ α} {m n : Machine D σ} (h : x.on m = y.on n)
    (f : α → Drive D σ β) : (x >>= f).on m = (y >>= f).on n := by
  rw [on_bind, on_bind, h]

namespace Block

def configAddress (b : Block D σ) (l : Location) : Nat :=
  (b.bank l.bank).base + l.offset .enableConfig

/-- The line is accessible, but its enable/config register lies outside its bank. -/
def Stranded (b : Block D σ) (m : Memory) (line : UInt32) : Prop :=
  b.isAccessible m line = .ok true ∧
    ∃ l, resolve line = some l ∧ (b.bank l.bank).size < l.offset .enableConfig + 4

structure Silenced (b : Block D σ) (among : UInt32 → Prop) (m m' : Memory) : Prop where
  cleared : ∀ {line l}, among line → b.isAccessible m line = .ok true → resolve line = some l →
    m'.loadWord (b.configAddress l) = m.loadWord (b.configAddress l) &&& ~~~0x40
  kept : ∀ a, (∀ line l, among line → b.isAccessible m line = .ok true → resolve line = some l →
    ¬ (b.configAddress l ≤ a ∧ a < b.configAddress l + 4)) → m'.byte a = m.byte a

variable {b : Block D σ} {line : UInt32} {l : Location}

theorem accessible_iff {m : Memory} : b.isAccessible m line = .ok true ↔ b.owns m line = true := by
  rw [b.isAccessible_eq]
  exact ⟨Except.ok.inj, congrArg _⟩

theorem stranded_iff {m : Memory} (hl : validLine line = .ok l) :
    b.Stranded m line ↔
      b.owns m line = true ∧ ¬ (b.bank l.bank).Covers (l.offset .enableConfig) := by
  have resolved := (validLine_eq_ok.mp hl).1
  have aligned := (offset_place hl .enableConfig).1
  rw [Stranded, accessible_iff]
  constructor
  · rintro ⟨ho, k, hk, hsize⟩
    obtain rfl : l = k := Option.some.inj (resolved.symm.trans hk)
    exact ⟨ho, fun hc => absurd hc.2 (Nat.not_le.mpr hsize)⟩
  · rintro ⟨ho, hc⟩
    exact ⟨ho, l, resolved, Nat.not_le.mp fun hle => hc ⟨aligned, hle⟩⟩

theorem covers_of_reached {m : Memory} (h : ¬ b.Stranded m line) (ho : b.owns m line = true)
    (hl : validLine line = .ok l) : (b.bank l.bank).Covers (l.offset .enableConfig) := by
  by_contra hc
  exact h ((stranded_iff hl).mpr ⟨ho, hc⟩)

theorem valid_of_resolve {m : Memory} (ho : b.owns m line = true) (hl : resolve line = some l) :
    validLine line = .ok l := by
  obtain ⟨k, hk⟩ := b.valid_of_owns ho
  obtain rfl : l = k := Option.some.inj (hl.symm.trans (validLine_eq_ok.mp hk).1)
  exact hk

theorem Stranded.valid {m : Memory} (h : b.Stranded m line) : ∃ l, validLine line = .ok l :=
  b.valid_of_owns (accessible_iff.mp h.1)

theorem Stranded.lt {m : Memory} (h : b.Stranded m line) : line < 256 := by
  obtain ⟨l, hl⟩ := h.valid
  exact mem_lines_iff.mp (mem_lines hl)

namespace Silenced

variable {ls : List UInt32} {m m' : Memory}

theorem refl (b : Block D σ) (m : Memory) : b.Silenced (· ∈ []) m m :=
  ⟨fun h => absurd h List.not_mem_nil, fun _ _ => rfl⟩

theorem congr {p q : UInt32 → Prop} (h : b.Silenced p m m') (hpq : ∀ line, p line ↔ q line) :
    b.Silenced q m m' :=
  ⟨fun hq => h.cleared ((hpq _).mpr hq), fun a ha => h.kept a fun k j hk => ha k j ((hpq k).mp hk)⟩

/-- Lines that were not masked look as they did. -/
theorem like (apart : (b.bank .main).Apart (b.bank .aon)) {n n' : Machine D σ}
    (h : b.Silenced (· ∈ ls) n.memory n'.memory)
    (reached : ∀ k ∈ ls, ¬ b.Stranded n.memory k) (hline : line ∉ ls) :
    (b.onLine line).machines n n' := by
  intro a ha
  apply h.kept
  intro k j hk haccess hj hin
  have owned := accessible_iff.mp haccess
  have hvalid := valid_of_resolve owned hj
  have covers := covers_of_reached (reached k hk) owned hvalid
  have hne : k ≠ line := by
    rintro rfl
    exact hline hk
  exact not_views_of_inLine apart hne ⟨j, _, hvalid, covers, hin⟩ ha

theorem skip (h : b.Silenced (· ∈ ls) m m') (ho : b.owns m line = false) :
    b.Silenced (· ∈ ls ++ [line]) m m' := by
  have among : ∀ k, k ∈ ls ++ [line] → b.isAccessible m k = .ok true → k ∈ ls := by
    intro k hk haccess
    rcases List.mem_append.mp hk with hk | hk
    · exact hk
    · rw [List.mem_singleton.mp hk, accessible_iff, ho] at haccess
      cases haccess
  constructor
  · intro k j hk haccess hj
    exact h.cleared (among k hk haccess) haccess hj
  · intro a ha
    exact h.kept a fun k j hk => ha k j (List.mem_append_left _ hk)

theorem clear (apart : (b.bank .main).Apart (b.bank .aon)) (h : b.Silenced (· ∈ ls) m m')
    (reached : ∀ k ∈ ls, ¬ b.Stranded m k) (hline : line ∉ ls) (ho : b.owns m line = true)
    (hl : validLine line = .ok l) (covers : (b.bank l.bank).Covers (l.offset .enableConfig)) :
    b.Silenced (· ∈ ls ++ [line]) m (m'.storeWord (b.configAddress l)
      (m.loadWord (b.configAddress l) &&& ~~~0x40)) := by
  have resolved := (validLine_eq_ok.mp hl).1
  constructor
  · intro k j hk haccess hj
    rcases List.mem_append.mp hk with hk | hk
    · have owned := accessible_iff.mp haccess
      have hvalid := valid_of_resolve owned hj
      rw [← h.cleared hk haccess hj]
      apply Memory.loadWord_storeWord_disjoint
      apply words_apart apart covers (covers_of_reached (reached k hk) owned hvalid)
      rintro ⟨hbank, hoffset⟩
      obtain rfl : line = k := (offset_injective hl hvalid hbank hoffset).1
      exact hline hk
    · obtain rfl : k = line := List.mem_singleton.mp hk
      obtain rfl : j = l := Option.some.inj (hj.symm.trans resolved)
      exact Memory.loadWord_storeWord _ _ _
  · intro a ha
    have hout := ha line l (by simp) (accessible_iff.mpr ho) resolved
    rw [Memory.byte_storeWord_of_out _ hout]
    exact h.kept a fun k j hk => ha k j (List.mem_append_left _ hk)

end Silenced

def maskEffects (b : Block D σ) (d : D) (virq : UInt32 → UInt32) (m : Memory) (line : UInt32) :
    List (Effect D) :=
  (match validLine line with
    | .ok l => if b.owns m line then
        [.store (b.configAddress l) (m.loadWord (b.configAddress l) &&& ~~~0x40)] else []
    | .error _ => []) ++
  [.call (.domain d (.find line)) (some (virq line)),
    .call (.domain d (.setFlow (virq line) .simple)) ()]

structure Masked (b : Block D σ) (d : D) (live : σ → Prop) (table : σ → UInt32 → Option UInt32)
    (virq : UInt32 → UInt32) (m₀ m : Machine D σ) (ls : List UInt32) : Prop where
  live : live m.world
  table : table m.world = table m₀.world
  memory : b.Silenced (· ∈ ls) m₀.memory m.memory
  trace : m.trace.toList = m₀.trace.toList ++ ls.flatMap (b.maskEffects d virq m₀.memory)

section Mask

variable {d : D} {refuses : UInt32 → Bool} {live : σ → Prop}
  {table : σ → UInt32 → Option UInt32} {virq : UInt32 → UInt32} {m₀ m : Machine D σ}
  {ls : List UInt32}

theorem Masked.start (hm : live m.world) : b.Masked d live table virq m m [] :=
  ⟨hm, rfl, .refl b m.memory, (List.append_nil _).symm⟩

/-- A line that is mapped is looked up and given the simple flow. -/
theorem on_giveFlow (tracks : b.host.Tracks d refuses live table) (hm : live m.world) {v : UInt32}
    (hline : table m.world line = some v) (owned : Bool) :
    ∃ m', (b.giveFlow d line owned).on m = (.ok (if owned then 1 else 0), m') ∧
      live m'.world ∧ table m'.world = table m.world ∧ m'.memory = m.memory ∧
      m'.trace.toList = m.trace.toList ++ [.call (.domain d (.find line)) (some v),
        .call (.domain d (.setFlow v .simple)) ()] := by
  have hfind := tracks.on_call hm (.find line) trivial
  have hfound := tracks.found hm line
  rw [hfound.1, hline] at hfind
  let m₁ := b.host.reply (.domain d (.find line)) m
  have hm₁ : live m₁.world := tracks.lasting hm _ trivial
  have hset := tracks.on_call hm₁ (.setFlow v .simple) trivial
  refine ⟨b.host.reply (.domain d (.setFlow v .simple)) m₁, ?_,
    tracks.lasting hm₁ _ trivial, ?_, rfl, ?_⟩
  · exact (on_bind_ok hfind _).trans (on_bind_ok hset _)
  · exact (tracks.stable hm₁ (.domain d (.setFlow v .simple)) id).trans hfound.2
  · rw [Machine.trace_reply, Machine.trace_reply, hfound.1, hline, List.append_assoc]
    rfl

theorem maskEffects_of_owns {m : Memory} (ho : b.owns m line = true)
    (hl : validLine line = .ok l) : b.maskEffects d virq m line =
      [.store (b.configAddress l) (m.loadWord (b.configAddress l) &&& ~~~0x40),
        .call (.domain d (.find line)) (some (virq line)),
        .call (.domain d (.setFlow (virq line) .simple)) ()] := by
  simp only [maskEffects, hl, ho, if_true, List.cons_append, List.nil_append]

theorem maskEffects_of_not_owns {m : Memory} (ho : b.owns m line = false) :
    b.maskEffects d virq m line = [.call (.domain d (.find line)) (some (virq line)),
      .call (.domain d (.setFlow (virq line) .simple)) ()] := by
  unfold maskEffects
  cases validLine line with
  | ok l => simp only [ho, Bool.false_eq_true, if_false, List.nil_append]
  | error e => rfl

theorem on_silence (hl : validLine line = .ok l)
    (hc : (b.bank l.bank).Covers (l.offset .enableConfig)) (m : Machine D σ) :
    (b.setConfig line PinConfig.interrupt false).on m = (.ok (), m.record
      (.store (b.configAddress l) (m.memory.loadWord (b.configAddress l) &&& ~~~0x40))) := by
  have hon := b.on_modifyRegister_of_covers hl hc (merge PinConfig.interrupt 0) m
  rwa [merge_zero] at hon

section Step

variable (tracks : b.host.Tracks d refuses live table) (apart : (b.bank .main).Apart (b.bank .aon))
  (hm : b.Masked d live table virq m₀ m ls) (reached : ∀ k ∈ ls, ¬ b.Stranded m₀.memory k)
  (hline : line ∉ ls)
include apart hm reached hline

/-- What the gate says of a line, and what its register holds, is as at first when its turn
comes. -/
theorem Masked.same : b.owns m.memory line = b.owns m₀.memory line ∧
    ∀ l, validLine line = .ok l → (b.bank l.bank).Covers (l.offset .enableConfig) →
      m.memory.loadWord (b.configAddress l) = m₀.memory.loadWord (b.configAddress l) := by
  have like := hm.memory.like apart reached hline
  exact ⟨(onLine_lasts line).gate like rfl,
    fun l hl hc => (onLine_lasts line).load like rfl hl .enableConfig hc⟩

include tracks

theorem Masked.step (mapped : table m₀.world line = some (virq line))
    (hreach : ¬ b.Stranded m₀.memory line) :
    ∃ m', (b.maskLine d line).on m = (.ok (if b.owns m₀.memory line then 1 else 0), m') ∧
      b.Masked d live table virq m₀ m' (ls ++ [line]) := by
  have same := hm.same apart reached hline
  have now : table m.world line = some (virq line) := by rw [hm.table, mapped]
  rw [b.on_maskLine, same.1]
  cases ho : b.owns m₀.memory line with
  | false =>
    obtain ⟨m', hon, hlive, htable, hmemory, htrace⟩ := on_giveFlow tracks hm.live now false
    refine ⟨m', hon, hlive, htable.trans hm.table, ?_, ?_⟩
    · rw [hmemory]
      exact hm.memory.skip ho
    · rw [htrace, hm.trace, List.flatMap_append, List.flatMap_singleton,
        maskEffects_of_not_owns ho, List.append_assoc]
  | true =>
    obtain ⟨l, hl⟩ := b.valid_of_owns ho
    have covers := covers_of_reached hreach ho hl
    have silence := on_silence hl covers m
    rw [same.2 l hl covers] at silence
    obtain ⟨m', hon, hlive, htable, hmemory, htrace⟩ :=
      on_giveFlow (m := m.record _) tracks hm.live now true
    rw [m.world_record] at htable
    refine ⟨m', (on_bind_ok silence _).trans hon, hlive, htable.trans hm.table, ?_, ?_⟩
    · rw [hmemory]
      exact hm.memory.clear apart reached hline ho hl covers
    · rw [htrace, List.flatMap_append, List.flatMap_singleton, maskEffects_of_owns ho hl]
      simp only [Machine.record, Array.toList_push, hm.trace, List.append_assoc, List.cons_append,
        List.nil_append]

omit tracks in
theorem Masked.stranded (hstranded : b.Stranded m₀.memory line) :
    (b.maskLine d line).on m = (.error (.refused .invalidLine), m) := by
  have same := hm.same apart reached hline
  obtain ⟨l, hl⟩ := hstranded.valid
  obtain ⟨ho, hc⟩ := (stranded_iff hl).mp hstranded
  rw [b.on_maskLine, same.1, ho, if_pos rfl]
  exact on_bind_error (b.on_modifyRegister_of_not_covers hl hc _ m) _

end Step

/-- Masking reachable lines counts those that are owned and goes on with the rest. -/
theorem on_maskLines_append (tracks : b.host.Tracks d refuses live table)
    (apart : (b.bank .main).Apart (b.bank .aon)) (ls rest : List UInt32) {before : List UInt32}
    (nodup : (before ++ ls).Nodup) (reached : ∀ k ∈ before ++ ls, ¬ b.Stranded m₀.memory k)
    (mapped : ∀ k ∈ ls, table m₀.world k = some (virq k))
    (hm : b.Masked d live table virq m₀ m before) :
    ∃ m', (b.maskLines d (ls ++ rest)).on m = (b.maskLines d rest >>= fun count =>
        pure (ls.countP (b.owns m₀.memory) + count)).on m' ∧
      b.Masked d live table virq m₀ m' (before ++ ls) := by
  -- `Masked` carries the loop: each turn moves the first line of `ls` to the end of `before`.
  induction ls generalizing before m with
  | nil =>
    refine ⟨m, ?_, (List.append_nil before).symm ▸ hm⟩
    simp only [List.nil_append, List.countP_nil, Nat.zero_add, bind_pure]
  | cons k ls ih =>
    have hk : k ∉ before := fun hmem => (List.nodup_append.mp nodup).2.2 k hmem k (by simp) rfl
    obtain ⟨m₁, hon, hm₁⟩ := hm.step tracks apart (fun j hj => reached j (by simp [hj])) hk
      (mapped k (by simp)) (reached k (by simp))
    have shift : before ++ [k] ++ ls = before ++ k :: ls := by simp
    obtain ⟨m', hrest, hm'⟩ := ih (shift ▸ nodup) (shift ▸ reached)
      (fun j hj => mapped j (by simp [hj])) hm₁
    refine ⟨m', ?_, shift ▸ hm'⟩
    refine (on_bind_ok hon _).trans ((on_bind_congr hrest _).trans ?_)
    simp only [bind_assoc, pure_bind, List.countP_cons, Nat.add_comm, Nat.add_assoc]

end Mask

def strand (b : Block D σ) (d : D) (virq : UInt32 → UInt32) (m : Memory) (k : UInt32) :
    List (Effect D) :=
  mapEffects d virq lines ++ (linesBelow k).flatMap (b.maskEffects d virq m) ++
    [.notice (.maskingFailed .invalidLine)] ++ unmapEffects d virq lines

def attachEffects (b : Block D σ) (d : D) (virq : UInt32 → UInt32) (m : Memory) :
    List (Effect D) :=
  mapEffects d virq lines ++ lines.flatMap (b.maskEffects d virq m) ++
    [.notice (.masked (lines.countP (b.owns m)))]

section Attach

variable {d : D} {refuses : UInt32 → Bool} {live : σ → Prop}
  {table : σ → UInt32 → Option UInt32} {m : Machine D σ}
  (tracks : b.host.Tracks d refuses live table) (apart : (b.bank .main).Apart (b.bank .aon))
  (hm : live m.world) (empty : ∀ line, table m.world line = none)
  (accepted : ∀ line < 256, refuses line = false)
include tracks apart hm empty accepted

theorem on_attach_stranded {k : UInt32} (hk : b.Stranded m.memory k)
    (first : ∀ j < k, ¬ b.Stranded m.memory j) :
    ∃ virq m', (b.attach d).on m = (.error (.refused .resourceMissing), m') ∧
      (∀ line, table m'.world line = none) ∧
      (∀ i < 256, ∀ j < 256, virq i = virq j → i = j) ∧
      b.Silenced (· < k) m.memory m'.memory ∧
      m'.trace.toList = m.trace.toList ++ b.strand d virq m.memory k := by
  obtain ⟨virq, m₁, hmap, hm₁⟩ := on_mapLines_all tracks.toMaps hm empty accepted
  obtain ⟨rest, hlines⟩ := lines_split hk.lt
  have reached : ∀ j ∈ linesBelow k, ¬ b.Stranded m₁.memory j := by
    intro j hj
    rw [hm₁.memory]
    exact first j (mem_linesBelow.mp hj)
  have mapped : ∀ j ∈ linesBelow k, table m₁.world j = some (virq j) := by
    intro j hj
    rw [hm₁.table, if_pos (hlines ▸ List.mem_append_left _ hj)]
  obtain ⟨m₂, hmask, hm₂⟩ := on_maskLines_append tracks apart (linesBelow k) (k :: rest)
    (linesBelow_nodup k) reached mapped (Masked.start hm₁.live)
  rw [List.nil_append] at hm₂
  have hstop : (b.maskLine d k).on m₂ = (.error (.refused .invalidLine), m₂) :=
    hm₂.stranded apart reached (fun hmem => absurd (mem_linesBelow.mp hmem) (UInt32.lt_irrefl k))
      (hm₁.memory.symm ▸ hk)
  have hall : (b.maskAll d).on m₁ = (.error (.refused .invalidLine), m₂) := by
    rw [← hlines] at hmask
    exact on_bind_error (hmask.trans (on_bind_error (on_bind_error hstop _) _)) _
  -- What was masked stays so, while every mapping is given back.
  let m₃ := m₂.record (.notice (.maskingFailed .invalidLine))
  obtain ⟨m', hunmap, hmemory, htrace, hempty⟩ := on_unmapLines (b := b) (m := m₃) tracks.toMaps
    virq lines (linesBelow_nodup 256) hm₁.distinct hm₂.live
    fun j => (congrFun hm₂.table j).trans (hm₁.table j)
  refine ⟨virq, m', ?_, hempty, fun i hi j hj => ?_, ?_, ?_⟩
  · unfold attach
    rw [on_bind_ok hmap]
    refine (on_bind_ok (on_attempt_refused hall) _).trans ?_
    exact (on_bind_ok (on_notify _ _) _).trans (on_bind_ok hunmap _)
  · exact hm₁.distinct i (mem_lines_iff.mpr hi) j (mem_lines_iff.mpr hj)
  · rw [hmemory, ← hm₁.memory]
    exact hm₂.memory.congr fun _ => mem_linesBelow
  · rw [htrace]
    simp only [m₃, Machine.record, Array.toList_push, hm₂.trace, hm₁.trace, hm₁.memory, strand,
      List.append_assoc]

theorem on_attach_done (reached : ∀ line, ¬ b.Stranded m.memory line) :
    ∃ virq m', (b.attach d).on m = (.ok (), m') ∧ live m'.world ∧
      (∀ line, table m'.world line = if line < 256 then some (virq line) else none) ∧
      (∀ i < 256, ∀ j < 256, virq i = virq j → i = j) ∧
      b.Silenced (· < 256) m.memory m'.memory ∧
      m'.trace.toList = m.trace.toList ++ b.attachEffects d virq m.memory := by
  obtain ⟨virq, m₁, hmap, hm₁⟩ := on_mapLines_all tracks.toMaps hm empty accepted
  have mapped : ∀ j ∈ lines, table m₁.world j = some (virq j) := by
    intro j hj
    rw [hm₁.table, if_pos hj]
  obtain ⟨m₂, hmask, hm₂⟩ := on_maskLines_append tracks apart lines [] (linesBelow_nodup 256)
    (fun j _ => hm₁.memory.symm ▸ reached j) mapped (Masked.start hm₁.live)
  rw [List.append_nil, List.nil_append] at *
  let m₃ := m₂.record (.notice (.masked (lines.countP (b.owns m₁.memory))))
  have hall : (b.maskAll d).on m₁ = (.ok (), m₃) := on_bind_ok hmask _
  refine ⟨virq, m₃, ?_, hm₂.live, fun line => ?_, fun i hi j hj => ?_, ?_, ?_⟩
  · unfold attach
    rw [on_bind_ok hmap]
    exact on_bind_ok (on_attempt_ok hall) _
  · show table m₂.world line = _
    rw [hm₂.table, hm₁.table]
    simp only [mem_lines_iff]
  · exact hm₁.distinct i (mem_lines_iff.mpr hi) j (mem_lines_iff.mpr hj)
  · rw [← hm₁.memory]
    exact hm₂.memory.congr fun _ => mem_lines_iff
  · simp only [m₃, Machine.record, Array.toList_push, hm₂.trace, hm₁.trace, hm₁.memory,
      attachEffects, List.append_assoc]

end Attach

theorem step_attach_error {d : D} {m m' : Machine D σ} {e : Failure}
    (h : (b.attach d).on m = (.error e, m')) : b.step (.attach d) m = (.error e, b, m') := by
  have hon : (b.perform (.attach d)).on m = (.error e, m') := on_bind_error h _
  rw [step, hon]

theorem step_attach_ok {d : D} {m m' : Machine D σ} (h : (b.attach d).on m = (.ok (), m')) :
    b.step (.attach d) m = (.ok .done, b.withDomain d, m') := by
  have hon : (b.perform (.attach d)).on m = (.ok .done, m') := on_bind_ok h _
  rw [step, hon]
  rfl

theorem first_stranded {m : Memory} {line : UInt32} (h : b.Stranded m line) :
    ∃ k, b.Stranded m k ∧ ∀ j < k, ¬ b.Stranded m j := by
  classical
  obtain ⟨k, -, hk, first⟩ :=
    @first_refused (fun j => decide (b.Stranded m j)) line h.lt (decide_eq_true h)
  exact ⟨k, of_decide_eq_true hk, fun j hj => of_decide_eq_false (first j hj)⟩

/-- Over banks of any size that do not overlap, attaching an empty domain fails exactly if a line
cannot be mapped or an accessible line has its enable/config register out of reach, always for a
missing resource. The block is then what it was, and the domain is empty again: what was mapped is
given back, each line once and in ascending order. Memory is as it was unless all lines were mapped;
then the interrupts of the accessible lines below the first one out of reach are masked. -/
theorem attach_fails (d : D) {refuses : UInt32 → Bool} {live : σ → Prop}
    {table : σ → UInt32 → Option UInt32} (tracks : b.host.Tracks d refuses live table)
    (apart : (b.bank .main).Apart (b.bank .aon)) (m : Machine D σ) (hm : live m.world)
    (empty : ∀ line, table m.world line = none) :
    ((∃ e, (b.step (.attach d) m).1 = .error e) ↔
      (∃ line < 256, refuses line = true) ∨ ∃ line, b.Stranded m.memory line) ∧
    ∀ e, (b.step (.attach d) m).1 = .error e →
      e = .refused .resourceMissing ∧ (b.step (.attach d) m).2.1 = b ∧
      (∀ line, table (b.step (.attach d) m).2.2.world line = none) ∧
      ∃ virq : UInt32 → UInt32,
        (∃ k < 256, refuses k = true ∧ (∀ j < k, refuses j = false) ∧
          (∀ i < k, ∀ j < k, virq i = virq j → i = j) ∧
          (b.step (.attach d) m).2.2.memory = m.memory ∧
          (b.step (.attach d) m).2.2.trace.toList = m.trace.toList ++ rollback d virq k) ∨
        (∀ line < 256, refuses line = false) ∧
        ∃ k, b.Stranded m.memory k ∧ (∀ j < k, ¬ b.Stranded m.memory j) ∧
          (∀ i < 256, ∀ j < 256, virq i = virq j → i = j) ∧
          b.Silenced (· < k) m.memory (b.step (.attach d) m).2.2.memory ∧
          (b.step (.attach d) m).2.2.trace.toList =
            m.trace.toList ++ b.strand d virq m.memory k := by
  by_cases hr : ∃ line < 256, refuses line = true
  · obtain ⟨line, hline, href⟩ := hr
    obtain ⟨k, hk, hkr, first⟩ := first_refused hline href
    obtain ⟨virq, m', hon, hmemory, hempty, hdistinct, htrace⟩ :=
      on_attach_refused tracks.toMaps hm empty hk hkr first
    rw [step_attach_error hon]
    constructor
    · exact ⟨fun _ => Or.inl ⟨line, hline, href⟩, fun _ => ⟨_, rfl⟩⟩
    · intro e he
      cases he
      exact ⟨rfl, rfl, hempty, virq, Or.inl ⟨k, hk, hkr, first, hdistinct, hmemory, htrace⟩⟩
  · have accepted : ∀ line < 256, refuses line = false := by
      intro line hline
      rw [← Bool.not_eq_true]
      exact fun href => hr ⟨line, hline, href⟩
    by_cases hs : ∃ line, b.Stranded m.memory line
    · obtain ⟨line, hline⟩ := hs
      obtain ⟨k, hk, first⟩ := first_stranded hline
      obtain ⟨virq, m', hon, hempty, hdistinct, hmemory, htrace⟩ :=
        on_attach_stranded tracks apart hm empty accepted hk first
      rw [step_attach_error hon]
      constructor
      · exact ⟨fun _ => Or.inr ⟨line, hline⟩, fun _ => ⟨_, rfl⟩⟩
      · intro e he
        cases he
        exact ⟨rfl, rfl, hempty, virq,
          Or.inr ⟨accepted, k, hk, first, hdistinct, hmemory, htrace⟩⟩
    · obtain ⟨virq, m', hon, -⟩ :=
        on_attach_done tracks apart hm empty accepted (not_exists.mp hs)
      rw [step_attach_ok hon]
      constructor
      · constructor
        · exact fun ⟨_, he⟩ => nomatch he
        · exact fun h => (h.elim hr hs).elim
      · nofun

end Block

namespace Simulation

theorem host_tracks (pins : PinFailures) (wakes : WakeFailures) (d : Nat) {spec : DomainSpec}
    (holes : spec.holes = []) : (host (fun _ => none) pins wakes).Tracks d spec.rejects
      (·.Holds d spec) (·.find d) where
  toMaps := host_maps pins wakes d holes
  enduring := (host_binds pins wakes d holes).lasting
  stable := (host_binds pins wakes d holes).stable

theorem Fixture.short_stranded {line : UInt32} {l : Location} (hl : validLine line = .ok l)
    (hc : (short.bank l.bank).Covers l.security) :
    short.Stranded granting line ↔
      ¬ (short.bank l.bank).Covers (l.offset .enableConfig) := by
  rw [Block.stranded_iff hl, Block.owns_of_valid _ _ hl, Block.grants, granting_loadWord,
    decide_eq_true hc]
  exact and_iff_right rfl

end Simulation

open Simulation in
/-- With all lines granted and none refused, line 0 is masked and line 1 is not in reach. -/
theorem bench_attach_fails :
    Fixture.short.host.Tracks 0 DomainSpec.plain.rejects (·.Holds 0 .plain) (·.find 0) ∧
    (Fixture.short.bank .main).Apart (Fixture.short.bank .aon) ∧
    (World.fresh .plain).Holds 0 .plain ∧ (∀ line, (World.fresh .plain).find 0 line = none) ∧
    let s := Fixture.short.step (.attach 0) (.start Fixture.granting (World.fresh .plain))
    s.1 = .error (.refused .resourceMissing) ∧
    s.2.2.memory.loadWord (Fixture.start.main.base + 0x12000) = 0xffffffbf := by
  have tracks : Fixture.short.host.Tracks 0 DomainSpec.plain.rejects (·.Holds 0 .plain)
      (·.find 0) := host_tracks _ _ 0 rfl
  have apart : (Fixture.short.bank .main).Apart (Fixture.short.bank .aon) := Or.inl (by decide)
  have holds := World.fresh_holds .plain
  have empty := World.fresh_find .plain
  have hl : validLine 0 = .ok ((Port.main "A" 2 0 7).locate 0 0) := rfl
  have hl' : validLine 1 = .ok ((Port.main "A" 2 0 7).locate 0 1) := rfl
  have reached : ¬ Fixture.short.Stranded Fixture.granting 0 :=
    fun h => (Fixture.short_stranded hl (by decide)).mp h (by decide)
  have stranded : Fixture.short.Stranded Fixture.granting 1 :=
    (Fixture.short_stranded hl' (by decide)).mpr (by decide)
  obtain ⟨fails, hrun⟩ := Block.attach_fails 0 tracks apart
    (.start Fixture.granting (World.fresh .plain)) holds empty
  obtain ⟨e, he⟩ := fails.mpr (Or.inr ⟨1, stranded⟩)
  obtain ⟨rfl, -, -, virq, ⟨k, hk, refused, -⟩ | ⟨-, k, hk, first, -, silenced, -⟩⟩ := hrun e he
  · rw [DomainSpec.plain_rejects hk] at refused
    cases refused
  · have below : 0 < k := by
      rw [UInt32.pos_iff_ne_zero]
      rintro rfl
      exact reached hk
    have granted : Fixture.short.isAccessible Fixture.granting 0 = .ok true := by
      rw [Block.accessible_iff, Block.owns_of_valid _ _ hl, Block.grants,
        Fixture.granting_loadWord]
      decide
    have cleared := silenced.cleared below granted rfl
    refine ⟨tracks, apart, holds, empty, he, cleared.trans ?_⟩
    show Fixture.granting.loadWord _ &&& ~~~0x40 = 0xffffffbf
    rw [Fixture.granting_loadWord]
    rfl

end Gpio
