import Gpio.Proofs.LineWords
import Gpio.Proofs.LogLevels

/-!
# Errors in the log

An operation logs an error in four cases: pin control declined a direction,
the wake controller refused to be armed, a domain could not be attached, or
the description of the platform was rejected. It then logs one, also where
the operations it is made of would each report. A write of the host that
overflows ends an operation where it stands, and of such less is said.
-/

set_option autoImplicit false

namespace Gpio

open Drive

variable {D σ α β : Type}

/-- The errors `ns` are those that an outcome calls for: one if a direction was declined or the
refusal is one to report, and none otherwise. -/
def Accounted (steady declined : Prop) (blames : Refusal → Prop) (ns : List Notice) :
    Except Failure α → Prop
  | .ok _ => declined ∧ ns.length = 1 ∨ ¬ declined ∧ ns = []
  | .error (.refused r) => ¬ declined ∧ (blames r ∧ ns.length = 1 ∨ ¬ blames r ∧ ns = [])
  | .error (.overflow _) => ¬ declined ∧ ns = [] ∨ ¬ steady ∧ ns.length ≤ 1

section Accounts

variable {steady declined : Prop} {blames : Refusal → Prop} {ns : List Notice}
  {out : Except Failure α}

theorem Accounted.length_le (h : Accounted steady declined blames ns out) : ns.length ≤ 1 := by
  rcases out with (r | o) | v
  · rcases h.2 with ⟨-, hns⟩ | ⟨-, rfl⟩
    · exact Nat.le_of_eq hns
    · exact Nat.zero_le 1
  · rcases h with ⟨-, rfl⟩ | ⟨-, hns⟩
    · exact Nat.zero_le 1
    · exact hns
  · rcases h with ⟨-, hns⟩ | ⟨-, rfl⟩
    · exact Nat.le_of_eq hns
    · exact Nat.zero_le 1

/-- Of a computation that ends, or whose host cannot end it. -/
theorem Accounted.logs_iff (h : Accounted steady declined blames ns out)
    (ends : steady ∨ ∀ o, out ≠ .error (.overflow o)) :
    ns ≠ [] ↔ declined ∨ ∃ r, blames r ∧ out = .error (.refused r) := by
  have logged : ns.length = 1 → ns ≠ [] := by
    rintro hns rfl
    cases hns
  have nothing : ¬ declined → (∀ r, out = .error (.refused r) → ¬ blames r) →
      (([] : List Notice) ≠ [] ↔ declined ∨ ∃ r, blames r ∧ out = .error (.refused r)) := by
    intro undeclined unblamed
    refine ⟨fun hne => absurd rfl hne, ?_⟩
    rintro (hd | ⟨r, hb, he⟩)
    · exact absurd hd undeclined
    · exact absurd hb (unblamed r he)
  rcases out with (r | o) | v
  · obtain ⟨undeclined, ⟨hb, hns⟩ | ⟨hb, rfl⟩⟩ := h
    · exact ⟨fun _ => Or.inr ⟨r, hb, rfl⟩, fun _ => logged hns⟩
    · apply nothing undeclined
      rintro s he
      cases he
      exact hb
  · rcases h with ⟨undeclined, rfl⟩ | ⟨unsteady, -⟩
    · exact nothing undeclined fun _ => nofun
    · rcases ends with hsteady | ends
      · exact absurd hsteady unsteady
      · exact absurd rfl (ends o)
  · rcases h with ⟨hd, hns⟩ | ⟨undeclined, rfl⟩
    · exact ⟨fun _ => Or.inl hd, fun _ => logged hns⟩
    · exact nothing undeclined fun _ => nofun

theorem Accounted.unblamed {r : Refusal}
    (h : Accounted steady declined blames ns (.error (.refused r) : Except Failure α))
    (hr : ¬ blames r) : ns = [] := by
  rcases h.2 with ⟨hb, -⟩ | ⟨-, hns⟩
  · exact absurd hb hr
  · exact hns

end Accounts

namespace Drive

def Reports (h : Host D σ) (directs : Prop) (blames : Refusal → Prop) (x : Drive D σ α)
    (m : Machine D σ) : Prop :=
  ∃ ns es, (x.on m).2.errors = m.errors ++ ns ∧ (x.on m).2.declines = m.declines ++ es ∧
    (es ≠ [] → directs) ∧ Accounted h.Steady (es ≠ []) blames ns (x.on m).1

variable {h : Host D σ} {directs : Prop} {blames : Refusal → Prop} {x : Drive D σ α}
  {f : α → Drive D σ β} {m : Machine D σ}

theorem Calm.reports (hx : Calm x) (unblamed : ∀ r, (x.on m).1 = .error (.refused r) → ¬ blames r) :
    Reports h directs blames x m := by
  obtain ⟨errors, declines⟩ := hx m m (.refl m)
  refine ⟨[], [], errors.trans (List.append_nil _).symm, declines.trans (List.append_nil _).symm,
    fun hes => absurd rfl hes, ?_⟩
  rcases hout : (x.on m).1 with (r | o) | v
  · exact ⟨not_not_intro rfl, Or.inr ⟨unblamed r hout, rfl⟩⟩
  · exact Or.inl ⟨not_not_intro rfl, rfl⟩
  · exact Or.inr ⟨not_not_intro rfl, rfl⟩

theorem Calm.reports_of_unrefused (hx : Calm x) (unrefused : Unrefused x) (m : Machine D σ) :
    Reports h directs blames x m :=
  hx.reports fun r hr => absurd hr (unrefused m r)

theorem reports_pure (v : α) (m : Machine D σ) :
    Reports h directs blames (pure v : Drive D σ α) m :=
  (calm_pure v).reports_of_unrefused (unrefused_pure v) m

theorem reports_refuse {r : Refusal} (hr : ¬ blames r) :
    Reports h directs blames (refuse r : Drive D σ α) m := by
  apply (calm_refuse r).reports
  rintro s hs
  cases hs
  exact hr

/-- What goes well without a direction has logged nothing, and the rest has to account for what
it logs. -/
theorem Reports.bind (hx : Reports h False blames x m)
    (hf : ∀ v m', x.on m = (.ok v, m') → Reports h directs blames (f v) m') :
    Reports h directs blames (x >>= f) m := by
  obtain ⟨ns, es, errors, declines, undirected, accounted⟩ := hx
  obtain rfl : es = [] := Classical.not_not.mp undirected
  unfold Reports
  rcases hon : x.on m with ⟨(r | o) | v, m₁⟩ <;> rw [hon] at errors declines accounted
  · rw [on_bind_error hon]
    exact ⟨ns, [], errors, declines, fun hes => absurd rfl hes, accounted⟩
  · rw [on_bind_error hon]
    exact ⟨ns, [], errors, declines, fun hes => absurd rfl hes, accounted⟩
  · obtain ⟨ns', es', errors', declines', directed, accounted'⟩ := hf v m₁ hon
    rw [on_bind_ok hon]
    rcases accounted with ⟨hes, -⟩ | ⟨-, rfl⟩
    · exact absurd rfl hes
    · rw [errors, List.append_nil] at errors'
      rw [declines, List.append_nil] at declines'
      exact ⟨ns', es', errors', declines', directed, accounted'⟩

theorem Reports.answer (hx : Reports h directs blames x m) (g : α → β) :
    Reports h directs blames (x >>= fun v => pure (g v)) m := by
  obtain ⟨ns, es, errors, declines, directed, accounted⟩ := hx
  unfold Reports
  rcases hon : x.on m with ⟨(r | o) | v, m₁⟩ <;> rw [hon] at errors declines accounted
  · rw [on_bind_error hon]
    exact ⟨ns, es, errors, declines, directed, accounted⟩
  · rw [on_bind_error hon]
    exact ⟨ns, es, errors, declines, directed, accounted⟩
  · rw [on_bind_ok hon]
    exact ⟨ns, es, errors, declines, directed, accounted⟩

/-- A refusal that is reported first. The host may be told more before it is answered. -/
theorem reports_blamed {n : Notice} (hn : n.severity = .error) {y : Drive D σ Unit} (calm : Calm y)
    (unrefused : Unrefused y) (settles : h.Steady → ∀ m o, (y.on m).1 ≠ .error (.overflow o))
    {r : Refusal} (hr : blames r) (m : Machine D σ) :
    Reports h False blames (notify n >>= fun _ => y >>= fun _ => (refuse r : Drive D σ α)) m := by
  have logged : (m.record (.notice n)).errors = m.errors ++ [n] := m.errors_error hn
  have declined : (m.record (.notice n)).declines = m.declines :=
    (m.declines_record _).trans (List.append_nil _)
  obtain ⟨errors, declines⟩ := calm (m.record (.notice n)) _ (.refl _)
  unfold Reports
  rw [on_bind_ok (on_notify n m)]
  rcases hon : y.on (m.record (.notice n)) with ⟨(s | o) | v, m₁⟩ <;> rw [hon] at errors declines
  · exact absurd hon unrefused.not_refused
  · rw [on_bind_error hon]
    have unsteady : ¬ h.Steady := fun steady => settles steady _ o (congrArg Prod.fst hon)
    exact ⟨[n], [], errors.trans logged, (declines.trans declined).trans (List.append_nil _).symm,
      fun hes => absurd rfl hes, Or.inr ⟨unsteady, Nat.le_refl 1⟩⟩
  · rw [on_bind_ok hon]
    exact ⟨[n], [], errors.trans logged, (declines.trans declined).trans (List.append_nil _).symm,
      fun hes => absurd rfl hes, not_not_intro rfl, Or.inl ⟨hr, rfl⟩⟩

/-- A call whose decline is reported, and is no refusal. -/
theorem reports_asked {c : Call D} {f : c.Reply → Drive D σ Unit} (n : SystemError → Notice)
    (hn : ∀ e, (n e).severity = .error)
    (hf : ∀ v, f v = (c.decline? v).elim (pure ()) fun e => notify (n e)) (m : Machine D σ) :
    Reports h True blames (h.call c >>= f) m := by
  obtain ⟨errors, declines⟩ := h.call_log c m
  unfold Reports
  rcases hon : (h.call c).on m with ⟨(r | o) | v, m₁⟩ <;> rw [hon] at errors declines
  · exact absurd hon (unrefused_call h c).not_refused
  · have unsteady : ¬ h.Steady := by
      intro steady
      obtain ⟨m₂, hm₂⟩ := Host.on_call_of_steady steady c m
      rw [hm₂] at hon
      cases hon
    rw [on_bind_error hon]
    exact ⟨[], _, errors.trans (List.append_nil _).symm, declines, fun _ => trivial,
      Or.inr ⟨unsteady, Nat.zero_le 1⟩⟩
  · rw [← Host.reply_of_call hon] at declines
    rw [on_bind_ok hon, hf v]
    cases hv : c.decline? v with
    | none =>
      rw [hv] at declines
      exact ⟨[], [], errors.trans (List.append_nil _).symm, declines, fun _ => trivial,
        Or.inr ⟨not_not_intro rfl, rfl⟩⟩
    | some e =>
      rw [hv] at declines
      refine ⟨[n e], [e], ?_, ?_, fun _ => trivial, Or.inl ⟨nofun, rfl⟩⟩
      · exact (m₁.errors_error (hn e)).trans (congrArg (· ++ [n e]) errors)
      · exact (m₁.declines_record _).trans ((List.append_nil _).trans declines)

end Drive

namespace Block

variable (b : Block D σ) {m : Machine D σ}

theorem directionInput_reports (line : UInt32) (m : Machine D σ) :
    Reports b.host True (fun _ => False) (b.directionInput line) m := by
  apply ((b.own_calm line).reports fun _ _ => id).bind
  intro _ m₁ _
  apply ((b.setConfig_calm line _ _).reports fun _ _ => id).bind
  intro _ m₂ _
  apply ((b.setConfig_calm line _ _).reports fun _ _ => id).bind
  intro _ m₃ _
  refine reports_asked (c := .pin (.input line)) (.inputRefused line) (fun _ => rfl)
    (fun v => ?_) m₃
  cases v <;> rfl

theorem directionOutput_reports (line : UInt32) (level : Bool) (m : Machine D σ) :
    Reports b.host True (fun _ => False) (b.directionOutput line level) m := by
  apply ((b.setValue_calm line level).reports fun _ _ => id).bind
  intro _ m₁ _
  apply ((b.setConfig_calm line _ _).reports fun _ _ => id).bind
  intro _ m₂ _
  apply ((b.setConfig_calm line _ _).reports fun _ _ => id).bind
  intro _ m₃ _
  refine reports_asked (c := .pin (.output line)) (.outputRefused line) (fun _ => rfl)
    (fun v => ?_) m₃
  cases v <;> rfl

theorem setWake_reports (line : UInt32) (enable : Bool) (m : Machine D σ) :
    Reports b.host False (fun r => ∃ e, r = .collaborator e) (b.setWake line enable) m := by
  apply ((findWake_calm line).reports_of_unrefused (findWake_unrefused line) m).bind
  intro wake? m₁ _
  cases wake? with
  | none => exact reports_refuse fun ⟨_, he⟩ => nomatch he
  | some wake =>
    have asked : Unrefused (b.callWake (.arm wake enable)) := unrefused_call b.host _
    apply ((b.callWake_calm (.arm wake enable)).reports_of_unrefused asked m₁).bind
    intro reply m₂ _
    cases reply with
    | ok _ => exact reports_pure _ _
    | error e =>
      exact reports_blamed (y := pure ()) rfl (calm_pure ()) (unrefused_pure ())
        (fun _ _ _ => nofun) ⟨e, rfl⟩ m₂

theorem lineOfVirq_refused {virq : UInt32} {r : Refusal}
    (h : ((b.lineOfVirq virq).on m).1 = .error (.refused r)) : r = .invalidLine := by
  unfold lineOfVirq at h
  cases hd : b.domain with
  | none =>
    rw [hd] at h
    cases h
    rfl
  | some d =>
    rw [hd] at h
    rcases on_bind_eq_error (Prod.ext h rfl) with hcall | ⟨reply, m₁, -, hf⟩
    · exact absurd hcall (unrefused_call b.host (.domain d (.lineOf virq))).not_refused
    · cases reply with
      | some line => cases hf
      | none =>
        cases hf
        rfl

theorem setWakeOfVirq_reports (virq : UInt32) (enable : Bool) (m : Machine D σ) :
    Reports b.host False (fun r => ∃ e, r = .collaborator e)
      (b.irqTable.setWake virq enable) m := by
  have unblamed : ∀ r, ((b.lineOfVirq virq).on m).1 = .error (.refused r) →
      ¬ ∃ e, r = .collaborator e := by
    rintro r hr ⟨e, rfl⟩
    cases b.lineOfVirq_refused hr
  exact ((b.lineOfVirq_calm virq).reports unblamed).bind
    fun line m₁ _ => b.setWake_reports line enable m₁

theorem mapLines_unrefused (d : D) (ls : List UInt32) : Unrefused (b.mapLines d ls) := by
  induction ls with
  | nil => exact unrefused_pure _
  | cons line rest ih =>
    apply unrefused_bind (unrefused_call b.host (.domain d (.create line)))
    intro reply
    cases reply with
    | some _ => exact ih
    | none => exact unrefused_pure _

theorem unmapLines_unrefused (d : D) (ls : List UInt32) : Unrefused (b.unmapLines d ls) := by
  apply unrefused_forM
  intro line
  apply unrefused_bind (unrefused_call b.host (.domain d (.find line)))
  intro found
  cases found with
  | some virq => exact unrefused_call b.host (.domain d (.dispose virq))
  | none => exact unrefused_pure _

theorem unmapLines_succeeds (steady : b.host.Steady) (d : D) (ls : List UInt32) :
    Succeeds (b.unmapLines d ls) := by
  apply leads_forM
  intro line _
  apply leads_bind (call_succeeds steady (.domain d (.find line)))
  intro found
  cases found with
  | some virq => exact call_succeeds steady (.domain d (.dispose virq))
  | none => exact leads_pure _

/-- A domain that cannot be attached is given its mappings back after the error is logged. -/
theorem unmap_reports {n : Notice} (hn : n.severity = .error) (d : D) (ls : List UInt32)
    (m : Machine D σ) : Reports b.host False (· = .resourceMissing)
      (notify n >>= fun _ => b.unmapLines d ls >>= fun _ =>
        (refuse .resourceMissing : Drive D σ Unit)) m := by
  have settles : b.host.Steady → ∀ m o, ((b.unmapLines d ls).on m).1 ≠ .error (.overflow o) := by
    intro steady m' o ho
    obtain ⟨v, m'', hv, -⟩ := b.unmapLines_succeeds steady d ls m' trivial
    rw [hv] at ho
    cases ho
  refine reports_blamed hn (b.unmapLines_calm d ls) (b.unmapLines_unrefused d ls) settles ?_ m
  rfl

theorem attach_reports (d : D) (m : Machine D σ) :
    Reports b.host False (· = .resourceMissing) (b.attach d) m := by
  apply ((b.mapLines_calm d lines).reports_of_unrefused (b.mapLines_unrefused d lines) m).bind
  intro refused m₁ _
  cases refused with
  | some line => exact b.unmap_reports rfl d _ m₁
  | none =>
    apply ((calm_attempt (b.maskAll_calm d)).reports_of_unrefused (unrefused_attempt _) m₁).bind
    intro masked m₂ _
    cases masked with
    | ok _ => exact reports_pure _ _
    | error r => exact b.unmap_reports rfl d _ m₂

theorem probeBanks_error {r : Resources} {n : Notice} (h : probeBanks r = .error n) :
    n.severity = .error := by
  unfold probeBanks at h
  split at h
  · split at h
    · cases h
      rfl
    · split at h
      · cases h
        rfl
      · cases h
  · cases h
    rfl

theorem probe_reports (host : Host D σ) (r : Resources) (m : Machine D σ) :
    Reports host False (· = .resourceMissing) (probe host r) m := by
  have rejects : ∀ n : Notice, n.severity = .error →
      Reports host False (· = .resourceMissing)
        (notify n >>= fun _ => (refuse .resourceMissing : Drive D σ (Block D σ))) m := by
    intro n hn
    refine reports_blamed (y := pure ()) hn (calm_pure ()) (unrefused_pure ())
      (fun _ _ _ => nofun) ?_ m
    rfl
  unfold probe
  by_cases hirq : r.irqs.isEmpty = true
  · rw [if_pos hirq]
    exact rejects _ rfl
  · rw [if_neg hirq]
    cases hb : probeBanks r with
    | error n => exact rejects n (probeBanks_error hb)
    | ok ks =>
      apply Calm.reports
      · apply calm_bind (noteExcess_calm r)
        intro _
        exact calm_bind (calm_notify nofun) fun _ => calm_pure _
      · intro s hs
        obtain ⟨ns, hns⟩ := on_noteExcess r m
        simp only [on_bind_ok hns] at hs
        cases hs

theorem host_of_probe {host : Host D σ} {r : Resources} {b : Block D σ} {m m' : Machine D σ}
    (h : (probe host r).on m = (.ok b, m')) : b.host = host := by
  by_cases accepted : r.Accepted
  · obtain ⟨_, _, _, _, -, -, -, hon⟩ := on_probe_of_accepted accepted host m
    rw [hon] at h
    cases h
    rfl
  · obtain ⟨n, hon⟩ := on_probe_of_rejected accepted host m
    rw [hon] at h
    cases h

/-- The part that fails has reported, so starting up adds nothing. -/
theorem init_reports (host : Host D σ) (r : Resources) (d : D) (m : Machine D σ) :
    Reports host False (· = .resourceMissing) (init host r d) m := by
  apply (probe_reports host r m).bind
  intro b m₁ probed
  obtain rfl := host_of_probe probed
  apply (b.attach_reports d m₁).bind
  intro _ m₂ _
  have installs : Unrefused (b.withDomain d).install :=
    unrefused_forM _ fun c => unrefused_call b.host (.domain d (.setChained c.irq c.id))
  apply ((b.withDomain d).install_calm.reports_of_unrefused installs m₂).bind
  intro _ m₃ _
  have publishes : Unrefused (b.withDomain d).publishWakeTable :=
    unrefused_call b.host (.wake (.publish 0 Wake.sources))
  apply (((b.withDomain d).callWake_calm _).reports_of_unrefused publishes m₃).bind
  intro _ m₄ _
  exact reports_pure _ _

theorem perform_reports (op : Operation D) (m : Machine D σ) :
    Reports b.host op.Directs op.Blames (b.perform op) m := by
  cases op with
  | directionInput line => exact (b.directionInput_reports line m).answer _
  | directionOutput line level => exact (b.directionOutput_reports line level m).answer _
  | setWake line enable => exact (b.setWake_reports line enable m).answer _
  | attach d => exact (b.attach_reports d m).answer _
  | consumer c =>
    cases c with
    | directionInput line => exact (b.directionInput_reports line m).answer _
    | directionOutput line level => exact (b.directionOutput_reports line level m).answer _
    | _ => exact (b.perform_calm id fun _ => id).reports fun _ _ => id
  | irq c =>
    cases c with
    | setWake virq enable => exact (b.setWakeOfVirq_reports virq enable m).answer _
    | _ => exact (b.perform_calm id fun _ => id).reports fun _ _ => id
  | _ => exact (b.perform_calm id fun _ => id).reports fun _ _ => id

end Block

structure Drive.Justifies (h : Host D σ) (directs : Prop) (blames : Refusal → Prop)
    (x : Drive D σ α) (m : Machine D σ) : Prop where
  once : ∃ ns, (x.on m).2.errors = m.errors ++ ns ∧ ns.length ≤ 1
  justified : (h.Steady ∨ ∀ o, (x.on m).1 ≠ .error (.overflow o)) →
    ((x.on m).2.errors ≠ m.errors ↔ (directs ∧ (x.on m).2.declines ≠ m.declines) ∨
      ∃ r, blames r ∧ (x.on m).1 = .error (.refused r))
  unblamed : ∀ r, (x.on m).1 = .error (.refused r) → ¬ blames r → (x.on m).2.errors = m.errors

theorem Drive.Reports.justifies {h : Host D σ} {directs : Prop} {blames : Refusal → Prop}
    {x : Drive D σ α} {m : Machine D σ} (hx : Reports h directs blames x m) :
    Justifies h directs blames x m := by
  obtain ⟨ns, es, errors, declines, directed, accounted⟩ := hx
  have logs : (x.on m).2.errors ≠ m.errors ↔ ns ≠ [] := by
    rw [errors, Ne, List.append_right_eq_self]
  have declined : directs ∧ (x.on m).2.declines ≠ m.declines ↔ es ≠ [] := by
    rw [declines, Ne, List.append_right_eq_self]
    exact ⟨And.right, fun hes => ⟨directed hes, hes⟩⟩
  refine ⟨⟨ns, errors, accounted.length_le⟩, fun ends => ?_, fun r hr hb => ?_⟩
  · rw [logs, declined]
    exact accounted.logs_iff ends
  · rw [hr] at accounted
    rw [errors, accounted.unblamed hb, List.append_nil]

namespace Block

/-- Every error in the log has its cause: one declined direction, one wake source that could not be
armed, one domain that could not be attached or one rejected description each leave one, and an
operation that none of these can befall leaves none, however it ends. -/
theorem errors_justified (b : Block D σ) (host : Host D σ) (r : Resources) (d : D)
    (m : Machine D σ) :
    (∀ op, Justifies b.host op.Directs op.Blames (b.perform op) m) ∧
    Justifies host False (· = .resourceMissing) (probe host r) m ∧
    Justifies host False (· = .resourceMissing) (init host r d) m ∧
    ∀ op, ¬ op.Directs → (∀ r, ¬ op.Blames r) → ((b.perform op).on m).2.errors = m.errors := by
  refine ⟨fun op => (b.perform_reports op m).justifies, (probe_reports host r m).justifies,
    (init_reports host r d m).justifies, fun op undirected unblamed => ?_⟩
  exact (b.perform_calm undirected unblamed m m (.refl m)).errors

end Block

theorem Block.on_setConfig_calm {b : Block D σ}
    (fits : ∀ kind, bankExtent kind ≤ (b.bank kind).size) {line : UInt32} {l : Location}
    (hl : validLine line = .ok l) (bits : Word) (on : Bool) (m : Machine D σ) :
    ∃ n, (b.setConfig line bits on).on m = (.ok (), n) ∧ n.declines = m.declines ∧
      n.world = m.world := by
  have stored (a : Nat) (v : Word) : (m.record (.store a v)).declines = m.declines :=
    ((Machine.Level.refl m).record rfl rfl).declines
  cases on with
  | true => exact ⟨_, on_setBits fits hl m bits, stored _ _, m.world_record _⟩
  | false => exact ⟨_, on_clearBits fits hl m bits, stored _ _, m.world_record _⟩

/-- The direction of an owned line is put to pin control, whose answer it is. -/
theorem Block.directionInput_declines {b : Block D σ}
    (fits : ∀ kind, bankExtent kind ≤ (b.bank kind).size) {line : UInt32} {l : Location}
    (hl : validLine line = .ok l) {m : Machine D σ} (own : b.owns m.memory line = true) :
    let c : Call D := .pin (.input line)
    ((b.directionInput line).on m).2.declines =
      m.declines ++ (c.decline? (b.host.answer c m.world).reply).toList := by
  intro c
  obtain ⟨m₁, cleared, declines₁, world₁⟩ := b.on_setConfig_calm fits hl PinConfig.output false m
  obtain ⟨m₂, set, declines₂, world₂⟩ := b.on_setConfig_calm fits hl PinConfig.enable true m₁
  unfold directionInput
  rw [on_bind_ok (b.on_own_of_owns own), on_bind_ok cleared, on_bind_ok set, ← declines₁,
    ← declines₂, ← world₁, ← world₂]
  apply bind_keeps (I := fun k => k.declines = m₂.declines ++ _) (b.host.call_log c m₂).2
  intro reply k hk
  cases reply with
  | ok _ => exact hk
  | error e => exact (k.declines_record _).trans ((List.append_nil _).trans hk)

namespace Simulation

def Fixture.declined : Block Nat World :=
  { start.probed with host := hostFor (some .io) none }

theorem Fixture.declined_owns : declined.owns granting 0 = true := by
  have valid : validLine 0 = .ok ((Port.main "A" 2 0 7).locate 0 0) := rfl
  have covers : (declined.bank .main).Covers 0x2004 := by decide
  generalize declined = b at covers ⊢
  rw [b.owns_of_valid _ valid, Block.grants, granting_loadWord, Bool.and_eq_true]
  exact ⟨decide_eq_true covers, by decide⟩

end Simulation

open Simulation in
/-- Pin control declines a direction, which is an error, and a request, which is not. A description
without interrupts and a block without a domain are refused alike, and the first is an error. -/
theorem bench_errors_justified :
    let b := Fixture.declined
    let m : Machine Nat World := .start Fixture.granting Fixture.start.world
    let directed := (b.perform (.directionInput 0)).on m
    let probed := (Block.probe b.host ⟨[], []⟩).on m
    let installed := (b.perform .install).on m
    directed.2.errors ≠ m.errors ∧ ((b.perform (.request 0)).on m).2.errors = m.errors ∧
      probed.1 = .error (.refused .resourceMissing) ∧ probed.2.errors ≠ m.errors ∧
      installed.1 = .error (.refused .resourceMissing) ∧ installed.2.errors = m.errors := by
  intro b m directed probed installed
  obtain ⟨performs, probes, -, calm⟩ := Block.errors_justified b b.host ⟨[], []⟩ 0 m
  have steady : b.host.Steady := Host.steady_of_quiet (Fixture.hostFor_quiet _ _)
  have rejected : probed.1 = .error (.refused .resourceMissing) := rfl
  have missing : installed.1 = .error (.refused .resourceMissing) := rfl
  have fits : ∀ kind, bankExtent kind ≤ (b.bank kind).size := by
    intro kind
    cases kind <;> decide
  have valid : validLine 0 = .ok ((Port.main "A" 2 0 7).locate 0 0) := rfl
  have declines : directed.2.declines = m.declines ++ [.io] := by
    apply done_keeps (I := fun n => n.declines = _)
    exact Block.directionInput_declines fits valid Fixture.declined_owns
  have declined : directed.2.declines ≠ m.declines := by
    rw [declines, Ne, List.append_right_eq_self]
    exact List.cons_ne_nil _ _
  have reported : directed.2.errors ≠ m.errors :=
    ((performs (.directionInput 0)).justified (Or.inl steady)).mpr (Or.inl ⟨trivial, declined⟩)
  exact ⟨reported, calm (.request 0) id fun _ => id, rejected,
    (probes.justified (Or.inl steady)).mpr (Or.inr ⟨_, rfl, rejected⟩), missing,
    calm .install id fun _ => id⟩

end Gpio
