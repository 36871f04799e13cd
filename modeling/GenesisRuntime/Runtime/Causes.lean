/-
  GenesisRuntime.Runtime.Causes

  Why an action that was authorized and recorded does not come to Nexus.  Every
  check of `execute` compares with what `authorize` has read; so where one fails,
  something has happened in between.
-/

import GenesisRuntime.Kernel.Exactness
import GenesisRuntime.Runtime.Progress
import GenesisRuntime.Runtime.Rejections
import GenesisRuntime.Runtime.Validity

namespace GenesisRuntime

open Prog (Spec)

section
variable [Externals]

-- ============================================================================
-- What has happened since
-- ============================================================================

section
variable {rt : R1Runtime} {init : World} {admits : World → Op → Input → Prop}
  {maySpawn : SystemState → Call → Prop} {c : SystemState}

/-- The thread has got so far by a position of the trace. -/
def Did (c : SystemState) (t : Nat) (h : History) (l : Nat) : Prop :=
  h <+: historyOf (c.trace.take l) t

/-- In the step at position `i`, the thread goes on from `h` with one event. -/
structure DoneAt (c : SystemState) (t : Nat) (h : History) (ev : Event) (i : Nat) : Prop where
  before : historyOf (c.trace.take i) t = h
  step : ∃ e, c.trace[i]? = some e ∧ e.tid = t ∧ e.event = ev

theorem Did.mono {t l l' : Nat} {h : History} (hdid : Did c t h l) (hle : l ≤ l') :
    Did c t h l' := hdid.trans (historyOf_mono hle)

theorem Did.exists_doneAt {t j : Nat} {h : History} {ev : Event} (rest : History)
    (hdid : Did c t (h ++ ev :: rest) j) : ∃ i < j, DoneAt c t h ev i := by
  obtain ⟨later, hlater⟩ := hdid
  rw [List.append_assoc, List.cons_append] at hlater
  obtain ⟨i, e, hij, he, htid, hev, hbefore, -⟩ := exists_position hlater.symm
  exact ⟨i, hij, hbefore, e, he, htid, hev⟩

namespace DoneAt

variable {t i j : Nat} {h : History} {ev : Event}

theorem did (hdone : DoneAt c t h ev i) (hij : i < j) : Did c t (h ++ [ev]) j := by
  obtain ⟨e, he, htid, hev⟩ := hdone.step
  refine Did.mono (l := i + 1) ?_ hij
  rw [Did, historyOf_take_succ he, if_pos htid, hdone.before, hev]

theorem lt_length (hdone : DoneAt c t h ev i) : i < c.trace.length := by
  obtain ⟨e, he, -⟩ := hdone.step
  exact (List.getElem?_eq_some_iff.mp he).1

/-- What the event has read. -/
theorem resp (run : Run rt.system init admits maySpawn c) {o : Op} {r : o.Resp}
    (hdone : DoneAt c t h ⟨o, r⟩ i) :
    ∃ e, c.trace[i]? = some e ∧ e.tid = t ∧ e.event = ⟨o, r⟩ ∧
      (Op.exec e.tid o e.input (c.worldAt i)).1 = r := by
  obtain ⟨e, he, htid, hev⟩ := hdone.step
  exact ⟨e, he, htid, hev, resp_eq run he hev⟩

/-- What is no longer as an event has read it has been changed after that event. -/
theorem exists_change (run : Run rt.system init admits maySpawn c) (hdone : DoneAt c t h ev i)
    (hij : i < j) (hj : j ≤ c.trace.length) {β : Type} (f : World → β)
    (hsame : ∀ t input w, f (Op.exec t ev.op input w).2 = f w)
    (hne : f (c.worldAt j) ≠ f (c.worldAt i)) :
    ∃ l e, Did c t (h ++ [ev]) l ∧ l < j ∧ c.trace[l]? = some e ∧ f e.post ≠ f e.pre := by
  obtain ⟨e, he, -, hev⟩ := hdone.step
  obtain ⟨hpre, hpost⟩ := run.linked.2 i e he
  have hread : f (c.worldAt (i + 1)) = f (c.worldAt i) := by
    have hop : e.op = ev.op := congrArg Prog.Event.op hev
    have h := hsame e.tid e.input e.pre
    rw [← hop, post_eq run he, hpost, hpre] at h
    exact h
  rw [← hread] at hne
  obtain ⟨l, e', hil, hlj, he', hchange⟩ := run.exists_change f hij hj hne
  exact ⟨l, e', hdone.did hil, hlj, he', hchange⟩

end DoneAt

section
variable (run : Run rt.system init admits maySpawn c)
  (hfresh : ∀ w o input, admits w o input → FreshIds w o input) (boot : Bootstrapped rt init)
  {t i j : Nat} {h : History} {ev : Event}
include run

/-- A context that has been read is the current one, until it is replaced. -/
theorem DoneAt.context_or_replaced (hdone : DoneAt c t h ev i) (hij : i < j)
    (hj : j ≤ c.trace.length)
    (hread : ∀ t input w, (Op.exec t ev.op input w).2.semanticContext = w.semanticContext) :
    (c.worldAt j).semanticContext = (c.worldAt i).semanticContext ∨
    ∃ l e context, l < j ∧ Did c t (h ++ [ev]) l ∧ c.trace[l]? = some e ∧
      e.op = .writeContext context := by
  refine or_iff_not_imp_left.mpr fun hne => ?_
  obtain ⟨l, e, hsince, hlj, he, hchange⟩ := hdone.exists_change run hij hj World.semanticContext
    hread hne
  by_cases hop : ∃ context, e.op = .writeContext context
  · obtain ⟨context, hop⟩ := hop
    exact ⟨l, e, context, hlj, hsince, he, hop⟩
  · have hsame : (Op.exec e.tid e.op e.input e.pre).2.semanticContext = e.pre.semanticContext :=
      exec_context fun context heq => hop ⟨context, heq⟩
    rw [post_eq run he] at hsame
    exact absurd hsame hchange

include hfresh boot

/-- A chain that has been validated is validated again until its leaf expires, or an
    operation of the kernel has changed one of its leases. -/
theorem DoneAt.validates_or_changed (hdone : DoneAt c t h ev i) (hij : i < j)
    (hj : j ≤ c.trace.length)
    (hread : ∀ t input w, (Op.exec t ev.op input w).2.kernel = w.kernel) {leaf : LeaseId}
    {generation : Option Nat} {manifest : CapabilityManifest} {now : DateTime}
    {validated : ValidatedAuthority}
    (hvalid : validateChain (c.worldAt i).kernel leaf generation manifest now = .ok validated) :
    (∀ now' < validated.leafExpiresAt,
      validateChain (c.worldAt j).kernel leaf generation manifest now' = .ok validated) ∨
    ∃ l e op id, l < j ∧ Did c t (h ++ [ev]) l ∧ c.trace[l]? = some e ∧ e.op = .kernelOp op ∧
      LeaseBelow e.pre.kernel id leaf ∧
      e.post.kernel.leases.lookup id ≠ e.pre.kernel.leases.lookup id := by
  refine or_iff_not_imp_right.mpr fun hnone now' hnow' => ?_
  have hkernel := kernelRun_between run hfresh hij.le hj
  have hlookup : ∀ id, LeaseBelow (c.worldAt i).kernel id leaf →
      (c.worldAt j).kernel.leases.lookup id = (c.worldAt i).kernel.leases.lookup id := by
    intro id hbelow
    by_contra hne
    obtain ⟨l, e, hsince, hlj, he, hchange⟩ := hdone.exists_change run hij hj
      (fun w => w.kernel.leases.lookup id)
      (fun t input w => congrArg (fun s => s.leases.lookup id) (hread t input w)) hne
    by_cases hop : ∃ op, e.op = .kernelOp op
    · obtain ⟨op, hop⟩ := hop
      have hil : i ≤ l := by
        by_contra hli
        have hle := (hsince.trans (historyOf_mono (by omega : l ≤ i))).length_le
        rw [hdone.before] at hle
        simp only [List.length_append, List.length_singleton] at hle
        omega
      have hkeep := (kernelRun_between run hfresh hil (by omega)).keepsLeases
      refine hnone ⟨l, e, op, id, hlj, hsince, he, hop, ?_, hchange⟩
      rw [(run.linked.2 l e he).1]
      exact hkeep.below hbelow
    · have hsame : (Op.exec e.tid e.op e.input e.pre).2.kernel = e.pre.kernel :=
        exec_kernel fun op heq => hop ⟨op, heq⟩
      rw [post_eq run he] at hsame
      simp only [hsame, ne_eq, not_true_eq_false] at hchange
  obtain ⟨entry, path, hchain⟩ := validateChain_sound hvalid
  have hgenerations : ∀ id, LeaseBelow (c.worldAt i).kernel id leaf →
      ∀ entry, (c.worldAt i).kernel.leases.lookup id = some entry →
      ∃ entry', (c.worldAt j).kernel.leases.lookup id = some entry' ∧
        entry'.record.generation = entry.record.generation := fun id hbelow entry hentry =>
    ⟨entry, (hlookup id hbelow).trans hentry, rfl⟩
  have hagrees := agrees_of_generations
    (kernel_reachable run hfresh boot (hdone.lt_length.le)) hkernel hgenerations
  rw [hagrees.validateChain_eq ⟨AList.mem_of_lookup hchain.entry_eq, .refl⟩]
  exact (validateChain_clock hvalid now').1 hnow'

end

-- ============================================================================
-- Causes
-- ============================================================================

/-- What can have happened, before position `k`, to an action that is rejected. -/
inductive Cause (c : SystemState) (t k : Nat) (call : ToolCall rt) : Prop where
  /-- A tool was replaced, after the gate had read the registry. -/
  | toolReplaced (l : Nat) (e : Step) (tool : RegisteredTool) (before : l < k)
      (since : Did c t (call.planned ++ call.authorization.events.take 2) l)
      (he : c.trace[l]? = some e) (hev : e.event = ⟨.replaceTool tool, .ok ()⟩)
  /-- The context was replaced, after the turn had read it. -/
  | contextReplaced (l : Nat) (e : Step) (context : SemanticContext) (before : l < k)
      (since : Did c t (call.turn.events.take 1) l)
      (he : c.trace[l]? = some e) (hev : e.op = .writeContext context)
  /-- An operation of the kernel changed a lease of the chain, after the gate had validated
      it. -/
  | leaseChanged (l : Nat) (e : Step) (op : KernelOp) (id : LeaseId) (before : l < k)
      (since : Did c t (call.planned ++ call.authorization.events.take 3) l)
      (he : c.trace[l]? = some e) (hop : e.op = .kernelOp op)
      (below : LeaseBelow e.pre.kernel id call.leaseId)
      (changed : e.post.kernel.leases.lookup id ≠ e.pre.kernel.leases.lookup id)
  /-- The certificate had expired when `execute` read the clock. -/
  | expired (l : Nat) (e : Step) (now : DateTime) (before : l < k)
      (since : Did c t call.inserted l) (he : c.trace[l]? = some e) (htid : e.tid = t)
      (hev : e.event = ⟨.utcNow, now⟩) (h : call.authorization.certificate.expiresAt ≤ now)
  /-- Another turn had inserted a record with the same id, at whatever time. -/
  | duplicated (l : Nat) (e : Step) (attemptId : Nat) (record : AuthorizationRecord)
      (before : l < k) (he : c.trace[l]? = some e) (htid : e.tid ≠ t)
      (hev : e.event = ⟨.insertAuthorization attemptId record, .ok ()⟩)
      (same : record.recordId = call.authorization.record.recordId)
  /-- Nexus could not be initialized, or did not issue one of the tokens. -/
  | unminted (l : Nat) (e : Step) (before : l < k) (since : Did c t call.inserted l)
      (he : c.trace[l]? = some e) (htid : e.tid = t) (hop : e.op.isConsume = true)
      (h : e.input.hypervisorFails = true ∨
        ∃ i < call.authorization.tool.manifest.requiredCapabilities.length,
          e.input.tokenFails i = true)
  /-- The evidence of the execution could not be recorded. -/
  | unrecorded (l : Nat) (e : Step) (before : l < k) (since : Did c t call.inserted l)
      (he : c.trace[l]? = some e) (htid : e.tid = t) (hfails : appendFails e.event = true)

section
variable {t j : Nat} {call : ToolCall rt}

end

section
variable (run : Run rt.system init admits maySpawn c)
  (hfresh : ∀ w o input, admits w o input → FreshIds w o input) {t j : Nat} {call : ToolCall rt}
include run

include hfresh

variable (boot : Bootstrapped rt init)
include boot

end

-- ============================================================================
-- The record until it is consumed
-- ============================================================================

section
variable (run : PublicRun rt init FreshIds c) (boot : Bootstrapped rt init) {t k : Nat}
  {call : ToolCall rt}
include run boot

end

theorem Cause.mono {t k k' : Nat} {call : ToolCall rt} (hcause : Cause c t k call)
    (hle : k ≤ k') : Cause c t k' call := by
  cases hcause with
  | toolReplaced l e tool before since he hev =>
      exact .toolReplaced l e tool (before.trans_le hle) since he hev
  | contextReplaced l e context before since he hev =>
      exact .contextReplaced l e context (before.trans_le hle) since he hev
  | leaseChanged l e op id before since he hop below changed =>
      exact .leaseChanged l e op id (before.trans_le hle) since he hop below changed
  | expired l e now before since he htid hev h =>
      exact .expired l e now (before.trans_le hle) since he htid hev h
  | duplicated l e attemptId record before he htid hev same =>
      exact .duplicated l e attemptId record (before.trans_le hle) he htid hev same
  | unminted l e before since he htid hop h =>
      exact .unminted l e (before.trans_le hle) since he htid hop h
  | unrecorded l e before since he htid hfails =>
      exact .unrecorded l e (before.trans_le hle) since he htid hfails

end

end

end GenesisRuntime
