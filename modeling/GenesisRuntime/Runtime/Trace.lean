/-
  GenesisRuntime.Runtime.Trace

  Runs of a runtime: what the steps of a run do to the kernel, and what a read
  guard keeps from happening.
-/

import GenesisRuntime.Kernel.Lifecycle
import GenesisRuntime.Runtime.RunOnce

namespace GenesisRuntime

section
variable [Externals]

/-- One step of a run. -/
abbrev Step := Entry World Op Input Op.Resp

/-- A state of the system. -/
abbrev SystemState := Config World Op Input Call Outcome Op.Resp

-- ============================================================================
-- Runs
-- ============================================================================

/-- A runtime as a bootstrap leaves it. -/
def Bootstrapped (rt : R1Runtime) (w : World) : Prop :=
  ∃ mission agentId spec registry contextVersion delegableAuthority input,
    R1Runtime.bootstrapR2 mission agentId spec registry contextVersion delegableAuthority input
      = .ok (rt, w)

/-- What is assumed of the environment: a lease id is made of a UUID that no stored
    lease is made of. -/
def FreshIds (w : World) (o : Op) (input : Input) : Prop :=
  ∀ op, o = .kernelOp op → FreshUuid w.kernel input.uuid

/-- Appends do not fail. -/
def AppendsSucceed (_ : World) (_ : Op) (input : Input) : Prop := input.appendError = none

/-- Some call of `authorize` has returned this action. -/
def Returned (c : SystemState) (authorized : AuthorizedExecution) : Prop :=
  ∃ (t : Nat) (thread : Thread Op Call Outcome Op.Resp) (artifact : R1AuthorizationArtifact),
    c.threads[t]? = some thread ∧
      thread.prog = .ret (.authorized (.ok (authorized, artifact)))

/-- Any call can be started, `execute` with what `authorize` has returned. -/
def MayStart (c : SystemState) : Call → Prop
  | .execute authorized _ => Returned c authorized
  | _ => True

/-- Runs of a runtime with any calls. -/
abbrev AnyRun (rt : R1Runtime) (init : World) (c : SystemState) : Prop :=
  Run rt.system init FreshIds MayStart c

/-- Runs of a runtime with the calls of its public interface. -/
abbrev PublicRun (rt : R1Runtime) (init : World) (admits : World → Op → Input → Prop)
    (c : SystemState) : Prop :=
  Run rt.system init admits (fun _ call => call.isPublic = true) c

-- ============================================================================
-- Steps
-- ============================================================================

section
variable {t t' : Nat} {o : Op} {input : Input} {w : World}

/-- Only an operation of the kernel changes the kernel. -/
theorem exec_kernel (h : ∀ op, o ≠ .kernelOp op) :
    (Op.exec t o input w).2.kernel = w.kernel := by
  cases o with
  | kernelOp op => exact absurd rfl (h op)
  | lockActiveChain =>
      simp only [Op.exec]
      split <;> rfl
  | replaceTool =>
      simp only [Op.exec]
      split <;> rfl
  | reserve counter limit =>
      cases counter <;>
        · simp only [Op.exec, World.reserve]
          split <;> rfl
  | appendForAttempt =>
      simp only [Op.exec]
      split <;> rfl
  | insertAuthorization =>
      simp only [Op.exec, World.onStore]
      split <;> rfl
  | consume =>
      simp only [Op.exec, World.consume, World.onStore]
      split <;> split <;> rfl
  | _ => rfl

theorem exec_kernelOp (op : KernelOp) :
    (Op.exec t (.kernelOp op) input w).2.kernel = op.after input.uuid w.kernel := by
  simp only [Op.exec, KernelOp.after]
  cases op.exec input.uuid w.kernel <;> rfl

theorem exec_kernelRun (fresh : FreshIds w o input) :
    KernelRun w.kernel (Op.exec t o input w).2.kernel := by
  by_cases h : ∃ op, o = .kernelOp op
  · obtain ⟨op, rfl⟩ := h
    rw [exec_kernelOp]
    exact KernelRun.refl.call op input.uuid (fresh op rfl)
  · rw [exec_kernel fun op heq => h ⟨op, heq⟩]
    exact .refl

/-- While a thread holds the read guard, the kernel does not change. -/
theorem exec_kernel_of_reader (enabled : Op.enabled t' o w) (held : t ∈ w.kernelReaders) :
    (Op.exec t' o input w).2.kernel = w.kernel := by
  refine exec_kernel fun op heq => ?_
  subst heq
  have hnone : w.kernelReaders = [] := enabled
  rw [hnone] at held
  cases held

/-- Only a thread itself gives its read guard up. -/
theorem exec_keeps_reader (h : o = .unlockKernel → t' ≠ t) (held : t ∈ w.kernelReaders) :
    t ∈ (Op.exec t' o input w).2.kernelReaders := by
  cases o with
  | unlockKernel => exact (List.mem_erase_of_ne (Ne.symm (h rfl))).mpr held
  | lockActiveChain =>
      simp only [Op.exec]
      split
      · exact List.mem_cons_of_mem _ held
      · exact held
  | replaceTool =>
      simp only [Op.exec]
      split <;> exact held
  | reserve counter limit =>
      cases counter <;>
        · simp only [Op.exec, World.reserve]
          split <;> exact held
  | appendForAttempt =>
      simp only [Op.exec]
      split <;> exact held
  | insertAuthorization =>
      simp only [Op.exec, World.onStore]
      split <;> exact held
  | consume =>
      simp only [Op.exec, World.consume, World.onStore]
      split <;> split <;> exact held
  | kernelOp =>
      simp only [Op.exec]
      split <;> exact held
  | _ => exact held

end

/-- The operations of the control plane that change something. -/
def Op.isControl : Op → Bool
  | .kernelOp _ | .writeContext _ | .replaceTool _ => true
  | _ => false

/-- A consumption. -/
def Op.isConsume : Op → Bool
  | .consume _ _ _ _ => true
  | _ => false

/-- A call of Nexus. -/
def Op.isExecuteTool : Op → Bool
  | .executeTool _ _ _ => true
  | _ => false

/-- In a run of the public interface, all other operations that do more than read
    are performed by `run_once`. -/
theorem PublicRun.before {rt : R1Runtime} {init : World} {admits : World → Op → Input → Prop}
    {c : SystemState} (run : PublicRun rt init admits c) {k : Nat} {e : Step}
    (he : c.trace[k]? = some e) (hquiet : e.op.isQuiet = false)
    (hcontrol : e.op.isControl = false) :
    (∃ thread, c.threads[e.tid]? = some thread ∧ thread.call = .runOnce) ∧
      RunOnceBefore rt (historyOf (c.trace.take k) e.tid) e.op := by
  obtain ⟨thread, hthread, hbefore⟩ := run.spec_before (code_spec rt) he
  obtain ⟨_, _, _, hpublic⟩ := (run.lives hthread).may
  have hother (h : ControlBefore thread.call (historyOf (c.trace.take k) e.tid) e.op) : False := by
    cases hop : e.op with
    | kernelOp => rw [hop] at hcontrol; cases hcontrol
    | writeContext => rw [hop] at hcontrol; cases hcontrol
    | replaceTool => rw [hop] at hcontrol; cases hcontrol
    | _ =>
        rw [hop] at h hquiet
        have h : _ = true := h
        rw [hquiet] at h
        cases h
  cases hcall : thread.call with
  | runOnce =>
      rw [hcall] at hbefore
      exact ⟨⟨thread, hthread, hcall⟩, hbefore⟩
  | authorize => rw [hcall] at hpublic; cases hpublic
  | execute => rw [hcall] at hpublic; cases hpublic
  | _ =>
      rw [hcall] at hbefore hother
      exact (hother hbefore).elim

-- ============================================================================
-- The kernel along a run
-- ============================================================================

section
variable {rt : R1Runtime} {init : World} {admits : World → Op → Input → Prop}
  {maySpawn : SystemState → Call → Prop} {c : SystemState}

/-- A step of a run has performed its operation. -/
theorem exec_eq (run : Run rt.system init admits maySpawn c) {i : Nat} {e : Step}
    (he : c.trace[i]? = some e) : Op.exec e.tid e.op e.input e.pre = (e.resp, e.post) :=
  (run.stepped he).exec

theorem post_eq (run : Run rt.system init admits maySpawn c) {i : Nat} {e : Step}
    (he : c.trace[i]? = some e) : (Op.exec e.tid e.op e.input e.pre).2 = e.post :=
  congrArg Prod.snd (exec_eq run he)

/-- What an operation has answered, it has read in the world before the step. -/
theorem resp_eq (run : Run rt.system init admits maySpawn c) {i : Nat} {e : Step}
    (he : c.trace[i]? = some e) {o : Op} {r : o.Resp} (hev : e.event = ⟨o, r⟩) :
    (Op.exec e.tid o e.input (c.worldAt i)).1 = r := by
  obtain ⟨hpre, -⟩ := run.linked.2 i e he
  have hexec := exec_eq run he
  obtain ⟨t, o', input, r', pre, post⟩ := e
  cases hev
  rw [← hpre]
  exact congrArg Prod.fst hexec

/-- Where appends do not fail, no call has had one fail. -/
theorem allAppended (run : Run rt.system init admits maySpawn c)
    (hadmits : ∀ w o input, admits w o input → AppendsSucceed w o input) (i t : Nat) :
    AllAppended (historyOf (c.trace.take i) t) := by
  intro ev hev
  obtain ⟨k, e, -, he, -, rfl⟩ := mem_historyOf hev
  have hadmitted : e.input.appendError = none := hadmits _ _ _ (run.stepped he).admitted
  have hexec := exec_eq run he
  obtain ⟨t', o, input, r, pre, post⟩ := e
  cases o with
  | appendForAttempt attemptId kind =>
      have hadmitted : input.appendError = none := hadmitted
      simp only [Op.exec, hadmitted] at hexec
      cases hexec
      rfl
  | _ => rfl

/-- A validation that has taken the read guard. -/
theorem lockActiveChain_eq_ok {t : Nat} {leafId : LeaseId} {generation : Option Nat}
    {manifest : CapabilityManifest} {now : DateTime} {input : Input} {w : World}
    {validated : ValidatedAuthority}
    (h : (Op.exec t (.lockActiveChain leafId generation manifest now) input w).1
      = .ok validated) : validateChain w.kernel leafId generation manifest now = .ok validated := by
  simp only [Op.exec] at h
  split at h
  · rename_i validated' hvalid
    rw [hvalid]
    exact h
  · cases h

/-- What a call has done by the time it returns. -/
theorem after_of_returned (run : Run rt.system init admits maySpawn c) {t : Nat}
    {thread : Thread Op Call Outcome Op.Resp} {outcome : Outcome}
    (hthread : c.threads[t]? = some thread) (hprog : thread.prog = .ret outcome) :
    After rt thread.call (historyOf c.trace t) outcome := by
  have hafter := run.spec_rest (code_spec rt) hthread
  rw [hprog] at hafter
  exact hafter

/-- Between two positions of a run, the kernel has gone through a run of its own. -/
theorem kernelRun_between (run : Run rt.system init admits maySpawn c)
    (hfresh : ∀ w o input, admits w o input → FreshIds w o input) {i j : Nat} (hij : i ≤ j)
    (hj : j ≤ c.trace.length) : KernelRun (c.worldAt i).kernel (c.worldAt j).kernel := by
  refine run.relates (R := fun w w' => KernelRun w.kernel w'.kernel) (fun _ => .refl)
    (fun _ _ _ => KernelRun.trans) hij hj ?_
  intro l e _ _ he
  have hstep := run.stepped he
  have hrun := exec_kernelRun (t := e.tid) (hfresh _ _ _ hstep.admitted)
  rw [post_eq run he] at hrun
  exact hrun

theorem Bootstrapped.reachable (boot : Bootstrapped rt init) : Reachable init.kernel := by
  obtain ⟨mission, agentId, spec, registry, version, delegable, input, h⟩ := boot
  simp only [R1Runtime.bootstrapR2, Except.bind_eq_ok, Except.pure_eq_ok] at h
  obtain ⟨_, -, snapshot, -, modelDigest, -, resolver, -, context, -, contextDigest, -, config, -,
    keyId, -, custody, -, granted, -, kernel, hkernel, _, -, h⟩ := h
  cases h
  exact ⟨_, _, _, _, _, hkernel, .refl⟩

theorem kernel_reachable (run : Run rt.system init admits maySpawn c)
    (hfresh : ∀ w o input, admits w o input → FreshIds w o input)
    (boot : Bootstrapped rt init) {i : Nat} (hi : i ≤ c.trace.length) :
    Reachable (c.worldAt i).kernel := by
  have h := kernelRun_between run hfresh (Nat.zero_le i) hi
  rw [run.linked.1] at h
  exact boot.reachable.run h

/-- From the moment a thread takes the read guard until it gives it up, the kernel
    stays as it was. -/
theorem kernel_eq_of_guarded (run : Run rt.system init admits maySpawn c) {i j : Nat} {e : Step}
    (he : c.trace[i]? = some e) {leaseId : LeaseId} {generation : Option Nat}
    {manifest : CapabilityManifest} {now : DateTime} {validated : ValidatedAuthority}
    (hlock : e.event = ⟨.lockActiveChain leaseId generation manifest now, .ok validated⟩)
    (hij : i < j) (hj : j ≤ c.trace.length)
    (hheld : ∀ l e', i < l → l < j → c.trace[l]? = some e' → e'.tid = e.tid →
      e'.op ≠ .unlockKernel) :
    (c.worldAt j).kernel = (c.worldAt i).kernel := by
  obtain ⟨t, o, input, r, pre, post⟩ := e
  cases hlock
  obtain ⟨hpre, hpost⟩ := run.linked.2 i _ he
  have hexec : Op.exec t (.lockActiveChain leaseId generation manifest now) input pre
      = (.ok validated, post) := (run.stepped he).exec
  have htaken : post.kernel = pre.kernel ∧ t ∈ post.kernelReaders := by
    simp only [Op.exec] at hexec
    split at hexec
    · cases hexec
      exact ⟨rfl, List.mem_cons_self⟩
    · cases hexec
  have hinv : (c.worldAt j).kernel = (c.worldAt i).kernel ∧ t ∈ (c.worldAt j).kernelReaders := by
    refine run.persists (I := fun w => w.kernel = (c.worldAt i).kernel ∧ t ∈ w.kernelReaders)
      hij hj ?_ ?_
    · rw [← hpost, ← hpre]
      exact htaken
    · rintro l e' hil hlj he' ⟨hkernel, hreader⟩
      have hsame : (Op.exec e'.tid e'.op e'.input e'.pre).2.kernel = e'.pre.kernel :=
        exec_kernel_of_reader (run.stepped he').enabled hreader
      have hkeeps : t ∈ (Op.exec e'.tid e'.op e'.input e'.pre).2.kernelReaders :=
        exec_keeps_reader (fun heq htid => hheld l e' hil hlj he' htid heq) hreader
      rw [post_eq run he'] at hsame hkeeps
      exact ⟨hsame.trans hkernel, hkeeps⟩
  exact hinv.1

/-- Where a thread has taken the read guard and not given it up since, the chain was valid
    in the kernel as it still is. -/
theorem exists_guarded (run : Run rt.system init admits maySpawn c) {t k : Nat}
    (hk : k ≤ c.trace.length) {leaseId : LeaseId} {generation : Option Nat}
    {manifest : CapabilityManifest} {now : DateTime} {validated : ValidatedAuthority}
    {h rest : History}
    (hhist : historyOf (c.trace.take k) t
      = h ++ ⟨.lockActiveChain leaseId generation manifest now, .ok validated⟩ :: rest)
    (hheld : ∀ ev ∈ rest, ev.op ≠ .unlockKernel) :
    ∃ g < k, (∃ e, c.trace[g]? = some e ∧ e.tid = t ∧
        e.event = ⟨.lockActiveChain leaseId generation manifest now, .ok validated⟩) ∧
      historyOf (c.trace.take g) t = h ∧
      validateChain (c.worldAt g).kernel leaseId generation manifest now = .ok validated ∧
      ∀ l, g ≤ l → l ≤ k → (c.worldAt l).kernel = (c.worldAt g).kernel := by
  obtain ⟨g, e, hgk, he, htid, hlock, hbefore, hafter⟩ := exists_position hhist
  refine ⟨g, hgk, ⟨e, he, htid, hlock⟩, hbefore, lockActiveChain_eq_ok (resp_eq run he hlock),
    fun l hgl hlk => ?_⟩
  rcases Nat.eq_or_lt_of_le hgl with rfl | hlt
  · rfl
  · exact kernel_eq_of_guarded run he hlock hlt (hlk.trans hk) fun i e' hgi hil he' htid' =>
      hheld _ (hafter i e' hgi (by omega) he' (htid'.trans htid))

end

end

end GenesisRuntime
