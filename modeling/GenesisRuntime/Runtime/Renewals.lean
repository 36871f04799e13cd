/-
  GenesisRuntime.Runtime.Renewals

  What the calls of a runtime do to its kernel.  A renewal reads the active lease,
  the registry and the semantic context one after the other, and only then asks the
  kernel; what it asks for is made of what it has read.
-/

import GenesisRuntime.Runtime.Trace

namespace GenesisRuntime

open Prog (Spec)

section
variable [Externals]

-- ============================================================================
-- Renewals
-- ============================================================================

/-- A pass through `renew` up to the operation on the kernel: what it has read. -/
structure Renewing (expiresAt : DateTime) where
  rootId : LeaseId
  lease : LeaseSnapshot
  manifest : CapabilityManifest
  context : SemanticContext
  contextDigest : Digest
  now : DateTime
  context_eq : context.canonicalDigest = .ok contextDigest

namespace Renewing

variable {expiresAt : DateTime} (renewing : Renewing expiresAt)

/-- What the kernel is asked for. -/
def request : RenewalRequest where
  leaseId := renewing.lease.certificate.leaseId
  expectedGeneration := renewing.lease.record.generation
  grantedAuthority := renewing.lease.certificate.grantedAuthority
  delegableAuthority := renewing.lease.certificate.delegableAuthority
  capabilityManifest := renewing.manifest
  semanticContextDigest := renewing.contextDigest
  expiresAt := expiresAt

/-- The read of the registry. -/
def refresh : Event := ⟨.refreshManifest renewing.lease.manifest, .ok renewing.manifest⟩

/-- What is performed up to the operation on the kernel. -/
def events : History :=
  [⟨.rootLeaseId, renewing.rootId⟩,
   ⟨.leaseSnapshot renewing.rootId, .ok renewing.lease⟩,
   renewing.refresh,
   ⟨.readContext, renewing.context⟩,
   ⟨.utcNow, renewing.now⟩]

/-- The operation on the kernel. -/
def op : KernelOp := .renew renewing.request renewing.now

end Renewing

/-- A renewal only returns a value where its operation on the kernel succeeded. -/
def RenewReturns (expiresAt : DateTime) (h : History) (result : Result R1Runtime.ControlReturn) :
    Prop :=
  ∀ value, result = .ok value → ∃ (renewing : Renewing expiresAt) (returned : KernelReturn)
    (rest : History), h = renewing.events ++ ⟨.kernelOp renewing.op, .ok returned⟩ :: rest

theorem RenewReturns.of_error {expiresAt : DateTime} {h : History} (e : RuntimeError) :
    RenewReturns expiresAt h (.error e) := fun _ heq => by cases heq

theorem renew_returns {expiresAt : DateTime} {P : History → Op → Prop}
    (hP : ∀ h o, o.isQuiet = true → P h o)
    (hop : ∀ renewing : Renewing expiresAt, P renewing.events (.kernelOp renewing.op)) :
    Spec P (RenewReturns expiresAt) [] (R1Runtime.renew expiresAt).run := by
  unfold R1Runtime.renew
  refine activeLeaseSnapshot_bind_spec hP (fun rootId lease => ?_) fun _ e => .of_error e
  refine Spec.opE (hP _ _ rfl) fun r => Spec.ofResultE (fun manifest hr => ?_)
    fun e _ => .of_error e
  refine Spec.opE (hP _ _ rfl) fun context => Spec.ofResultE (fun digest hdigest => ?_)
    fun e _ => .of_error e
  refine Spec.opE (hP _ _ rfl) fun now => ?_
  subst hr
  let renewing : Renewing expiresAt := ⟨rootId, lease, manifest, context, digest, now, hdigest⟩
  have hevents : [] ++ [⟨.rootLeaseId, rootId⟩, ⟨.leaseSnapshot rootId, .ok lease⟩]
      ++ [⟨.refreshManifest lease.manifest, .ok manifest⟩] ++ [⟨.readContext, context⟩]
      ++ [⟨.utcNow, now⟩] = renewing.events := rfl
  rw [hevents]
  unfold R1Runtime.kernelOp
  refine Spec.bindE (Spec.opE (hop renewing) fun r => Spec.ofResultE (fun returned hr => ?_)
    fun e _ => .of_error e)
  subst hr
  refine Spec.pureE ?_
  have hreturns (result : Result R1Runtime.ControlReturn) :
      RenewReturns expiresAt (renewing.events ++ [⟨.kernelOp renewing.op, .ok returned⟩]) result :=
    fun _ _ => ⟨renewing, returned, [], rfl⟩
  cases returned with
  | lease renewedId =>
      unfold AuthorityKernel.leaseSnapshot
      refine Spec.bindE (Spec.opE (hP _ _ rfl) fun r => Spec.ofResult_lastE ?_)
      rcases r with e | snapshot
      · exact .of_error e
      · refine Spec.pureE fun _ _ => ⟨renewing, .lease renewedId,
          [⟨.leaseSnapshot renewedId, .ok snapshot⟩], ?_⟩
        rw [List.append_assoc]
        rfl
  | record record => exact Spec.pureE (hreturns _)
  | leases leaseIds => exact Spec.pureE (hreturns _)

-- ============================================================================
-- Operations on the kernel
-- ============================================================================

/-- The operation on the kernel that a call performs. -/
def KernelOpOf (call : Call) (h : History) (op : KernelOp) : Prop :=
  match call with
  | .pause => ∃ leaseId generation now, op = .pause leaseId generation now
  | .resume => ∃ leaseId generation now, op = .resume leaseId generation now
  | .revoke reason => ∃ leaseId generation now, op = .revoke leaseId generation reason now
  | .renew expiresAt => ∃ renewing : Renewing expiresAt, h = renewing.events ∧ op = renewing.op
  | .refreshExpirations => ∃ now, op = .refreshExpirations now
  | .kernelOp op' => op = op'
  | _ => False

/-- How a call returns, where it is a renewal. -/
def Renews (call : Call) (h : History) (outcome : Outcome) : Prop :=
  ∀ expiresAt, call = .renew expiresAt → ∃ result, outcome = .controlled result ∧
    RenewReturns expiresAt h result

/-- Every call, by what it does to the kernel. -/
theorem code_ops (rt : R1Runtime) (call : Call) :
    Spec (fun h o => ∀ op, o = .kernelOp op → KernelOpOf call h op) (Renews call) []
      (rt.code call) := by
  have hquiet : ∀ (h : History) (o : Op), o.isQuiet = true →
      ∀ op, o = .kernelOp op → KernelOpOf call h op := by
    intro h o ho op heq
    rw [heq] at ho
    cases ho
  -- what is no renewal has nothing to show for its return
  have hother {α : Type} {x : RuntimeM α} {f : Result α → Outcome}
      {P : History → Op → Prop} {Q : History → Result α → Prop}
      (hcall : ∀ expiresAt, call ≠ .renew expiresAt) (hx : Spec P Q [] x.run)
      (hP : ∀ h o, P h o → ∀ op, o = .kernelOp op → KernelOpOf call h op) :
      Spec (fun h o => ∀ op, o = .kernelOp op → KernelOpOf call h op) (Renews call) []
        (f <$> x.run) :=
    Spec.map (hx.mono hP fun _ _ _ e he => absurd he (hcall e))
  -- the calls that read the active lease and perform one operation on it
  have hactive {op : LeaseSnapshot → DateTime → KernelOp}
      (hop : ∀ h lease now, KernelOpOf call h (op lease now)) :
      Spec (fun h o => ∀ op, o = .kernelOp op → KernelOpOf call h op) (fun _ _ => True) []
        (do
          let active ← R1Runtime.activeLeaseSnapshot
          R1Runtime.kernelOp (op active (← perform .utcNow)) :
            RuntimeM R1Runtime.ControlReturn).run := by
    refine activeLeaseSnapshot_bind_spec hquiet (fun rootId lease => ?_) fun _ _ => trivial
    refine Spec.opE (hquiet _ _ rfl) fun now => ?_
    refine (kernelOp_spec ?_).mono (fun _ _ h => h) fun _ _ _ => trivial
    rintro _ ⟨⟩
    exact hop _ lease now
  cases call with
  | runOnce =>
      refine hother (f := .ran) (fun _ h => by cases h) runOnce_spec fun h o hbefore op heq => ?_
      rw [heq] at hbefore
      have hidle : idle ⟨.kernelOp op, .error ⟨.internal, ""⟩⟩ = true := hbefore _
      cases hidle
  | pause =>
      exact hother (x := R1Runtime.pause) (f := .controlled) (fun _ h => by cases h)
        (hactive fun h lease now => ⟨_, _, now, rfl⟩) fun _ _ h => h
  | resume =>
      exact hother (x := R1Runtime.resume) (f := .controlled) (fun _ h => by cases h)
        (hactive fun h lease now => ⟨_, _, now, rfl⟩) fun _ _ h => h
  | revoke reason =>
      exact hother (x := R1Runtime.revoke reason) (f := .controlled) (fun _ h => by cases h)
        (hactive fun h lease now => ⟨_, _, now, rfl⟩) fun _ _ h => h
  | renew expiresAt =>
      refine Spec.map ((renew_returns hquiet fun renewing => ?_).mono (fun _ _ h => h) ?_)
      · rintro _ ⟨⟩
        exact ⟨renewing, rfl, rfl⟩
      · rintro h result hreturns _ ⟨⟩
        exact ⟨result, rfl, hreturns⟩
  | refreshExpirations =>
      refine hother (x := R1Runtime.refreshExpirations) (f := .controlled)
        (fun _ h => by cases h) (Spec.opE (hquiet _ _ rfl) fun now =>
        kernelOp_spec ?_) fun _ _ h => h
      rintro _ ⟨⟩
      exact ⟨now, rfl⟩
  | kernelOp op =>
      refine hother (f := .controlled) (fun _ h => by cases h) (kernelOp_spec ?_) fun _ _ h => h
      rintro _ ⟨⟩
      rfl
  | authorize request =>
      refine hother (f := .authorized) (fun _ h => by cases h)
        (authorize_spec (P := fun _ o => o.isQuiet = true) (fun _ _ ho => ho) request [])
        fun h o ho op heq => hquiet h o ho op heq
  | execute authorized attemptId =>
      refine (code_spec rt (.execute authorized attemptId)).mono (fun h o hbefore op heq => ?_)
        fun _ _ _ _ he => by cases he
      rw [heq] at hbefore
      have hidle : idle ⟨.kernelOp op, .error ⟨.internal, ""⟩⟩ = true := hbefore _
      cases hidle
  | writeContext context =>
      refine hother (fun _ h => by cases h) (Q := fun _ _ => True)
        (Spec.opE (fun op heq => by cases heq) fun _ => Spec.pureE trivial) fun _ _ h => h
  | replaceTool replacement =>
      refine hother (fun _ h => by cases h) (Q := fun _ _ => True)
        (Spec.opE (fun op heq => by cases heq) fun r => Spec.ofResultE
          (fun _ _ => Spec.pureE trivial) fun e _ => trivial) fun _ _ h => h

-- ============================================================================
-- Where the steps of a renewal stand
-- ============================================================================

/-- The steps of a renewal, by position. -/
theorem renewing_positions {rt : R1Runtime} {init : World} {admits : World → Op → Input → Prop}
    {maySpawn : SystemState → Call → Prop} {c : SystemState}
    (run : Run rt.system init admits maySpawn c) {expiresAt : DateTime}
    (renewing : Renewing expiresAt) {t k : Nat}
    (hhist : historyOf (c.trace.take k) t = renewing.events) :
    ∃ l r m : Nat, l < r ∧ r < m ∧ m < k ∧
      (c.worldAt l).kernel.leases.lookup renewing.rootId = some renewing.lease ∧
      (∃ e, c.trace[r]? = some e ∧ e.tid = t) ∧
      historyOf (c.trace.take r) t = renewing.events.take 2 ∧
      (c.worldAt r).registry.refreshCapabilityManifest renewing.lease.manifest
        = .ok renewing.manifest ∧
      (c.worldAt m).semanticContext = renewing.context := by
  have hsplit : historyOf (c.trace.take k) t = renewing.events.take 3
      ++ ⟨.readContext, renewing.context⟩ :: [⟨.utcNow, renewing.now⟩] := hhist
  obtain ⟨m, em, hmk, hm, -, hcontext, hbefore, -⟩ := exists_position hsplit
  have hsplit : historyOf (c.trace.take m) t = renewing.events.take 2 ++ renewing.refresh :: [] :=
    hbefore
  obtain ⟨r, er, hrm, hr, htr, hrefresh, hbefore, -⟩ := exists_position hsplit
  have hsplit : historyOf (c.trace.take r) t = renewing.events.take 1
      ++ ⟨.leaseSnapshot renewing.rootId, .ok renewing.lease⟩ :: [] := hbefore
  obtain ⟨l, el, hlr, hl, -, hsnapshot, -, -⟩ := exists_position hsplit
  exact ⟨l, r, m, hlr, hrm, hmk, orReject_eq_ok.mp (resp_eq run hl hsnapshot), ⟨er, hr, htr⟩,
    hbefore, resp_eq run hr hrefresh, resp_eq run hm hcontext⟩

end

end GenesisRuntime
