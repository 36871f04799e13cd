/-
  GenesisRuntime.Runtime.Specs

  What the parts of a call do: the histories with which the action gate and the
  execution port can return.  Both are straight-line code with many exits, so a
  successful pass has one shape, and a failing one is a beginning of it.
-/

import GenesisRuntime.Runtime.Supervisor

namespace GenesisRuntime

open Prog (Spec outcomeOf)

-- ============================================================================
-- Checks in programs
-- ============================================================================

section
variable [Externals] {α β : Type} {P : History → Op → Prop} {h : History}
  {Q : History → Result β → Prop}

theorem Spec.ofResultE {x : Result α} {f : α → RuntimeM β}
    (hok : ∀ a, x = .ok a → Spec P Q h (f a).run)
    (herror : ∀ e, x = .error e → Q h (.error e)) :
    Spec P Q h ((ofResult x : RuntimeM α) >>= f).run := by
  cases x with
  | ok a => exact hok a rfl
  | error e => exact herror e rfl

theorem Spec.ofResult_lastE {x : Result β} (hQ : Q h x) :
    Spec P Q h (ofResult x : RuntimeM β).run := by
  cases x with
  | ok b => exact hQ
  | error e => exact hQ

theorem Spec.rejectIfE {bad : Prop} [Decidable bad] {code : ErrorCode} {message : String}
    {f : Unit → RuntimeM β} (hok : ¬ bad → Spec P Q h (f ()).run)
    (herror : ∀ e, Q h (.error e)) :
    Spec P Q h ((rejectIf bad code message : RuntimeM Unit) >>= f).run := by
  by_cases hbad : bad
  · rw [rejectIf, if_pos hbad]
    exact herror _
  · rw [rejectIf, if_neg hbad]
    exact hok hbad

theorem Spec.orRejectE {o : Option α} {code : ErrorCode} {message : String}
    {f : α → RuntimeM β} (hok : ∀ a, o = some a → Spec P Q h (f a).run)
    (herror : ∀ e, Q h (.error e)) :
    Spec P Q h ((orReject code message o : RuntimeM α) >>= f).run := by
  cases o with
  | some a => exact hok a rfl
  | none => exact herror _

/-- An operation whose failure is passed on. -/
theorem Spec.callE {o : Op} {x : o.Resp → Result α} {f : α → RuntimeM β} (hP : P h o)
    (hok : ∀ r a, x r = .ok a → Spec P Q (h ++ [⟨o, r⟩]) (f a).run)
    (herror : ∀ r e, x r = .error e → Q (h ++ [⟨o, r⟩]) (.error e)) :
    Spec P Q h ((do ofResult (x (← perform o)) : RuntimeM α) >>= f).run :=
  Spec.bindE <| Spec.opE hP fun r =>
    Spec.ofResult_lastE (match hr : x r with
      | .ok a => hok r a hr
      | .error e => herror r e hr)

-- ============================================================================
-- Kinds of events
-- ============================================================================

/-- Operations that only read. -/
def Op.isQuiet : Op → Bool
  | .utcNow | .newUuid | .readContext | .rootLeaseId | .leaseSnapshot _
  | .validateActiveChain _ _ _ _ | .resolve _ _ | .refreshManifest _ => true
  | _ => false

/-- Events that leave nothing behind: reads, the guards, and a consumption that
    failed. -/
def idle : Event → Bool
  | ⟨.lockActiveChain _ _ _ _, _⟩ | ⟨.unlockKernel, _⟩ | ⟨.lockContext, _⟩
  | ⟨.unlockContext, _⟩ => true
  | ⟨.consume _ _ _ _, .error _⟩ => true
  | ⟨o, _⟩ => o.isQuiet

/-- An event of an operation that only reads. -/
def quiet (ev : Event) : Bool := ev.op.isQuiet

theorem idle_of_quiet {ev : Event} (h : quiet ev = true) : idle ev = true := by
  obtain ⟨o, r⟩ := ev
  cases o <;> first | rfl | cases h

/-- `h'` goes on from `h` with events of one kind. -/
def Since (p : Event → Bool) (h h' : History) : Prop :=
  ∃ q, h' = h ++ q ∧ ∀ ev ∈ q, p ev = true

namespace Since

variable {p p' : Event → Bool} {h h' h'' : History}

theorem refl : Since p h h := ⟨[], (List.append_nil h).symm, by simp⟩

theorem snoc (hs : Since p h h') (ev : Event) (hev : p ev = true) :
    Since p h (h' ++ [ev]) := by
  obtain ⟨q, rfl, hq⟩ := hs
  refine ⟨q ++ [ev], List.append_assoc .., ?_⟩
  intro ev' hev'
  rcases List.mem_append.mp hev' with hev' | hev'
  · exact hq ev' hev'
  · rw [List.mem_singleton.mp hev']
    exact hev

theorem imp (hs : Since p h h') (himp : ∀ ev, p ev = true → p' ev = true) : Since p' h h' := by
  obtain ⟨q, rfl, hq⟩ := hs
  exact ⟨q, rfl, fun ev hev => himp ev (hq ev hev)⟩

end Since

-- ============================================================================
-- The action gate
-- ============================================================================

/-- A successful call of `authorize`: what it read and computed, and what its checks
    established. -/
structure Authorization (request : AuthorizeRequest) where
  snapshot : LeaseSnapshot
  tool : RegisteredTool
  liveManifest : CapabilityManifest
  validated : ValidatedAuthority
  manifestDigest : Digest
  action : CanonicalAction
  actionRef : ActionRef
  inputDigest : Digest
  authorizationUuid : String
  authorizationId : AuthorizationId
  certificateUuid : String
  certificateId : CertificateId
  signature : SignatureBytes
  toolAllowed : request.proposalToolId ∈ request.mission.allowedTools
  manifestDigest_eq : tool.manifestDigest = .ok manifestDigest
  bound : ⟨request.proposalToolId, manifestDigest⟩ ∈ snapshot.manifest.approvedTools
  isBound : boundTo snapshot.certificate request.agentId request.mission
  context_eq : request.currentContext.canonicalDigest = .ok validated.semanticContextDigest
  checked : request.checkTool snapshot tool = .ok ()
  action_eq : request.canonicalAction tool = .ok action
  actionRef_eq : action.actionRef = .ok actionRef
  inputDigest_eq : canonicalDigest "aeon-concrete-input-v1" request.arguments = .ok inputDigest

namespace Authorization

variable {request : AuthorizeRequest} (run : Authorization request)

/-- The certificate that is signed. -/
def certificate : ActionCertificate :=
  { request.unsigned run.snapshot run.validated run.manifestDigest
      run.validated.semanticContextDigest run.actionRef run.inputDigest run.authorizationId
      run.certificateId with signature := run.signature }

/-- The authorized action that is returned. -/
def execution : AuthorizedExecution where
  toolId := request.proposalToolId
  arguments := request.arguments
  toolManifestDigest := run.manifestDigest
  requiredCapabilities := run.tool.manifest.requiredCapabilities
  capabilityManifest := run.liveManifest
  certificate := run.certificate
  observedGenerations := run.validated.observedGenerations

/-- The record that is returned. -/
def record : AuthorizationRecord :=
  AuthorizeRequest.record run.certificate run.validated run.action.effectKind

/-- What the call performs. -/
def events : History :=
  [⟨.leaseSnapshot request.leaseId, .ok run.snapshot⟩,
   ⟨.resolve request.proposalToolId run.snapshot.manifest, .ok (run.tool, run.liveManifest)⟩,
   ⟨.validateActiveChain request.leaseId (some run.snapshot.record.generation)
     run.liveManifest request.now, .ok run.validated⟩,
   ⟨.newUuid, run.authorizationUuid⟩,
   ⟨.newUuid, run.certificateUuid⟩]

end Authorization

/-- How `authorize` can return. -/
def AuthorizeReturns (request : AuthorizeRequest) (h h' : History) :
    Result (AuthorizedExecution × R1AuthorizationArtifact) → Prop
  | .ok (authorized, artifact) => ∃ run : Authorization request,
      h' = h ++ run.events ∧ authorized = run.execution ∧ artifact = ⟨run.certificate, run.record⟩
  | .error _ => Since quiet h h'

theorem authorize_spec {P : History → Op → Prop} (hP : ∀ h o, o.isQuiet = true → P h o)
    (request : AuthorizeRequest) (h : History) :
    Spec P (AuthorizeReturns request h) h (ActionGate.authorize request).run := by
  unfold ActionGate.authorize
  have hs₀ : Since quiet h h := .refl
  refine Spec.rejectIfE (fun _ => ?_) fun e => hs₀
  refine Spec.rejectIfE (fun htool => ?_) fun e => hs₀
  refine Spec.callE (hP _ _ rfl) (fun r snapshot hr => ?_) fun r e _ => hs₀.snoc _ rfl
  obtain rfl : r = .ok snapshot := hr
  have hs₁ := hs₀.snoc ⟨.leaseSnapshot request.leaseId, .ok snapshot⟩ rfl
  refine Spec.opE (hP _ _ rfl) fun r => ?_
  have hs₂ := hs₁.snoc
    ⟨.resolve request.proposalToolId snapshot.manifest, r⟩ rfl
  refine Spec.ofResultE (fun resolved hr => ?_) fun e _ => hs₂
  obtain ⟨tool, liveManifest⟩ := resolved
  refine Spec.ofResultE (fun manifestDigest hmanifestDigest => ?_) fun e _ => hs₂
  refine Spec.orRejectE (fun bound hbound => ?_) fun e => hs₂
  refine Spec.rejectIfE (fun hdigest => ?_) fun e => hs₂
  refine Spec.callE (hP _ _ rfl) (fun r' validated hr' => ?_) fun r' e _ => hs₂.snoc _ rfl
  obtain rfl : r' = .ok validated := hr'
  have hs₃ := hs₂.snoc ⟨.validateActiveChain request.leaseId
    (some snapshot.record.generation) liveManifest request.now, .ok validated⟩ rfl
  refine Spec.rejectIfE (fun hboundTo => ?_) fun e => hs₃
  refine Spec.ofResultE (fun contextDigest hcontext => ?_) fun e _ => hs₃
  refine Spec.rejectIfE (fun hsame => ?_) fun e => hs₃
  refine Spec.ofResultE (fun _ hchecked => ?_) fun e _ => hs₃
  refine Spec.ofResultE (fun action haction => ?_) fun e _ => hs₃
  refine Spec.ofResultE (fun actionRef hactionRef => ?_) fun e _ => hs₃
  refine Spec.ofResultE (fun inputDigest hinputDigest => ?_) fun e _ => hs₃
  refine Spec.opE (hP _ _ rfl) fun uuid => ?_
  have hs₄ := hs₃.snoc ⟨.newUuid, uuid⟩ rfl
  refine Spec.ofResultE (fun authorizationId _ => ?_) fun e _ => hs₄
  refine Spec.opE (hP _ _ rfl) fun uuid' => ?_
  have hs₅ := hs₄.snoc ⟨.newUuid, uuid'⟩ rfl
  refine Spec.ofResultE (fun certificateId _ => ?_) fun e _ => hs₅
  refine Spec.ofResultE (fun payload hpayload => ?_) fun e _ => hs₅
  refine Spec.ofResultE (fun signature hsignature => ?_) fun e _ => hs₅
  refine Spec.pureE ?_
  rw [not_not] at htool hdigest hboundTo hsame
  have hmem := List.mem_of_find?_eq_some hbound
  have hid : bound.toolId = request.proposalToolId := by
    simpa using List.find?_some hbound
  obtain ⟨boundId, boundDigest⟩ := bound
  obtain rfl : boundId = request.proposalToolId := hid
  obtain rfl : boundDigest = manifestDigest := hdigest
  subst hsame
  refine ⟨{
    snapshot := snapshot
    tool := tool
    liveManifest := liveManifest
    validated := validated
    manifestDigest := boundDigest
    action := action
    actionRef := actionRef
    inputDigest := inputDigest
    authorizationUuid := uuid
    authorizationId := authorizationId
    certificateUuid := uuid'
    certificateId := certificateId
    signature := signature
    toolAllowed := htool
    manifestDigest_eq := hmanifestDigest
    bound := hmem
    isBound := hboundTo
    context_eq := hcontext
    checked := hchecked
    action_eq := haction
    actionRef_eq := hactionRef
    inputDigest_eq := hinputDigest }, ?_, rfl, rfl⟩
  simp [Authorization.events, hr]

-- ============================================================================
-- The execution port
-- ============================================================================

/-- A pass through `execute` up to the consumption: what it read, and what its
    checks established. -/
structure Commit (keyCustody : KeyCustody) (authorized : AuthorizedExecution) where
  tool : RegisteredTool
  liveManifest : CapabilityManifest
  generation : Nat
  commitNow : DateTime
  validated : ValidatedAuthority
  context : SemanticContext
  issueNow : DateTime
  validity : Duration
  manifestDigest_eq : tool.manifestDigest = .ok authorized.toolManifestDigest
  generation_eq : authorized.leafGeneration = some generation
  authority_ok : authorized.checkAuthority liveManifest validated = .ok ()
  context_eq : context.canonicalDigest = .ok validated.semanticContextDigest
  certificate_ok : validateActionCertificate authorized.certificate authorized keyCustody
    commitNow = .ok ()
  validity_eq : remainingValidity validated.leafExpiresAt authorized.certificate.expiresAt
    issueNow = .ok validity

namespace Commit

variable {keyCustody : KeyCustody} {authorized : AuthorizedExecution}
  (commit : Commit keyCustody authorized)

/-- The validation under the read guard. -/
def lock : Event :=
  ⟨.lockActiveChain authorized.certificate.authorityLeaseId (some commit.generation)
    commit.liveManifest commit.commitNow, .ok commit.validated⟩

/-- What is performed up to the consumption. -/
def events : History :=
  [⟨.resolve authorized.toolId authorized.capabilityManifest,
     .ok (commit.tool, commit.liveManifest)⟩,
   ⟨.utcNow, commit.commitNow⟩,
   commit.lock,
   ⟨.readContext, commit.context⟩,
   ⟨.utcNow, commit.issueNow⟩]

/-- The consumption. -/
def consume : Op :=
  .consume authorized.certificate.authorizationRecordId
    authorized.certificate.authorizationGeneration authorized.requiredCapabilities
    commit.validity

/-- What is performed up to the release of the guard, where the consumption
    succeeds. -/
def consumed (tokens : List CapabilityToken) : History :=
  commit.events ++ [⟨commit.consume, .ok tokens⟩, ⟨.unlockKernel, ()⟩]

/-- What is performed up to the call of Nexus. -/
def entered (attemptId : Nat) (tokens : List CapabilityToken) : History :=
  commit.consumed tokens ++ [⟨.appendForAttempt attemptId .authorizationConsumed, .ok ()⟩,
    ⟨.appendForAttempt attemptId .executionStarted, .ok ()⟩]

/-- The consumption comes before the call of Nexus. -/
theorem append_entered (h : History) (attemptId : Nat) (tokens : List CapabilityToken) :
    h ++ commit.entered attemptId tokens = (h ++ commit.events)
      ++ ⟨commit.consume, .ok tokens⟩ :: [⟨.unlockKernel, ()⟩,
        ⟨.appendForAttempt attemptId .authorizationConsumed, .ok ()⟩,
        ⟨.appendForAttempt attemptId .executionStarted, .ok ()⟩] := by
  simp [entered, consumed]

theorem consume_mem_entered (h : History) (attemptId : Nat) (tokens : List CapabilityToken) :
    (⟨commit.consume, .ok tokens⟩ : Event) ∈ h ++ commit.entered attemptId tokens := by
  rw [append_entered]
  exact List.mem_append_right _ List.mem_cons_self

/-- The call of Nexus. -/
def execute (tokens : List CapabilityToken) : Op :=
  .executeTool commit.tool.toolDefinition authorized.arguments tokens

end Commit

/-- How `execute` can fail before Nexus is entered: without a consumption, or with
    the evidence of one missing. -/
inductive Rejected (keyCustody : KeyCustody) (authorized : AuthorizedExecution)
    (attemptId : Nat) (h : History) : History → Prop where
  | unconsumed {h' : History} (since : Since idle h h') :
      Rejected keyCustody authorized attemptId h h'
  | unrecorded (commit : Commit keyCustody authorized) (tokens : List CapabilityToken)
      (e : RuntimeError) : Rejected keyCustody authorized attemptId h (h ++ commit.consumed tokens
        ++ [⟨.appendForAttempt attemptId .authorizationConsumed, .error e⟩])
  | unstarted (commit : Commit keyCustody authorized) (tokens : List CapabilityToken)
      (e : RuntimeError) : Rejected keyCustody authorized attemptId h (h ++ commit.consumed tokens
        ++ [⟨.appendForAttempt attemptId .authorizationConsumed, .ok ()⟩,
            ⟨.appendForAttempt attemptId .executionStarted, .error e⟩])

/-- How `execute` can return. -/
def ExecuteReturns (keyCustody : KeyCustody) (authorized : AuthorizedExecution)
    (attemptId : Nat) (h h' : History) : Except PositionedExecutionError ToolOutput → Prop
  | .ok output => ∃ (commit : Commit keyCustody authorized) (tokens : List CapabilityToken),
      h' = h ++ commit.entered attemptId tokens ++ [⟨commit.execute tokens, some output⟩]
  | .error ⟨_, .started⟩ =>
      ∃ (commit : Commit keyCustody authorized) (tokens : List CapabilityToken),
        h' = h ++ commit.entered attemptId tokens ++ [⟨commit.execute tokens, none⟩]
  | .error ⟨_, .beforeNexus⟩ => Rejected keyCustody authorized attemptId h h'

/-- What has to hold for `execute` to go ahead, from the history `h` on. -/
structure Executable (P : History → Op → Prop) (keyCustody : KeyCustody)
    (authorized : AuthorizedExecution) (attemptId : Nat) (h : History) : Prop where
  idle : ∀ h o, (∀ r, idle ⟨o, r⟩ = true) → P h o
  consume : ∀ commit : Commit keyCustody authorized, P (h ++ commit.events) commit.consume
  recorded : ∀ (commit : Commit keyCustody authorized) tokens,
    P (h ++ commit.consumed tokens) (.appendForAttempt attemptId .authorizationConsumed)
  started : ∀ (commit : Commit keyCustody authorized) tokens,
    P (h ++ commit.consumed tokens
        ++ [⟨.appendForAttempt attemptId .authorizationConsumed, .ok ()⟩])
      (.appendForAttempt attemptId .executionStarted)
  execute : ∀ (commit : Commit keyCustody authorized) tokens,
    P (h ++ commit.entered attemptId tokens) (commit.execute tokens)

section
variable {P : History → Op → Prop} {keyCustody : KeyCustody} {authorized : AuthorizedExecution}
  {attemptId : Nat} {h : History}

/-- Where the validation under the read guard has succeeded, the closure goes on to
    the consumption. -/
theorem commit_spec (hP : Executable P keyCustody authorized attemptId h) {tool : RegisteredTool}
    {liveManifest : CapabilityManifest} {generation : Nat} {commitNow : DateTime}
    {validated : ValidatedAuthority} {h' : History}
    (hh' : h' = h ++ [⟨.resolve authorized.toolId authorized.capabilityManifest,
        .ok (tool, liveManifest)⟩, ⟨.utcNow, commitNow⟩,
      ⟨.lockActiveChain authorized.certificate.authorityLeaseId (some generation) liveManifest
        commitNow, .ok validated⟩])
    (hmanifestDigest : tool.manifestDigest = .ok authorized.toolManifestDigest)
    (hgeneration : authorized.leafGeneration = some generation) :
    Spec P (fun h'' r => match r with
      | .ok tokens => ∃ commit : Commit keyCustody authorized, commit.tool = tool ∧
          h'' = h ++ commit.events ++ [⟨commit.consume, .ok tokens⟩]
      | .error _ => Since idle h h'') h'
      (authorized.commit keyCustody liveManifest commitNow validated).run := by
  have hs₀ : Since idle h h' := ⟨_, hh', by simp [idle, Op.isQuiet]⟩
  unfold AuthorizedExecution.commit
  refine Spec.ofResultE (fun _ hauthority => ?_) fun e _ => hs₀
  refine Spec.opE (hP.idle _ _ fun _ => rfl) fun context => ?_
  have hs₁ := hs₀.snoc ⟨.readContext, context⟩ rfl
  refine Spec.ofResultE (fun contextDigest hcontext => ?_) fun e _ => hs₁
  refine Spec.rejectIfE (fun hsame => ?_) fun e => hs₁
  refine Spec.ofResultE (fun _ hcertificate => ?_) fun e _ => hs₁
  refine Spec.opE (hP.idle _ _ fun _ => rfl) fun issueNow => ?_
  have hs₂ := hs₁.snoc ⟨.utcNow, issueNow⟩ rfl
  refine Spec.ofResultE (fun validity hvalidity => ?_) fun e _ => hs₂
  rw [not_not] at hsame
  subst hsame
  let commit : Commit keyCustody authorized :=
    { tool := tool
      liveManifest := liveManifest
      generation := generation
      commitNow := commitNow
      validated := validated
      context := context
      issueNow := issueNow
      validity := validity
      manifestDigest_eq := hmanifestDigest
      generation_eq := hgeneration
      authority_ok := hauthority
      context_eq := hcontext
      certificate_ok := hcertificate
      validity_eq := hvalidity }
  have hevents : h' ++ [⟨.readContext, context⟩] ++ [⟨.utcNow, issueNow⟩] = h ++ commit.events := by
    rw [hh']
    simp [commit, Commit.events, Commit.lock]
  rw [hevents] at hs₂ ⊢
  refine Spec.opE (hP.consume commit) fun r => Spec.ofResult_lastE ?_
  cases r with
  | ok tokens => exact ⟨commit, rfl, rfl⟩
  | error e => exact hs₂.snoc _ rfl

theorem prepare_spec (hP : Executable P keyCustody authorized attemptId h) :
    Spec P (fun h' r => match r with
      | .ok (tool, tokens) => ∃ commit : Commit keyCustody authorized, commit.tool = tool ∧
          h' = h ++ commit.entered attemptId tokens
      | .error _ => Rejected keyCustody authorized attemptId h h') h
      (NexusExecutionPort.prepare keyCustody authorized attemptId).run := by
  unfold NexusExecutionPort.prepare
  have hs₀ : Since idle h h := .refl
  refine Spec.opE (hP.idle _ _ fun _ => rfl) fun r => ?_
  have hs₁ := hs₀.snoc
    ⟨.resolve authorized.toolId authorized.capabilityManifest, r⟩ rfl
  refine Spec.ofResultE (fun resolved hr => ?_) fun e _ => .unconsumed hs₁
  obtain ⟨tool, liveManifest⟩ := resolved
  refine Spec.ofResultE (fun manifestDigest hmanifestDigest => ?_) fun e _ => .unconsumed hs₁
  refine Spec.rejectIfE (fun hdigest => ?_) fun e => .unconsumed hs₁
  refine Spec.orRejectE (fun generation hgeneration => ?_) fun e => .unconsumed hs₁
  refine Spec.opE (hP.idle _ _ fun _ => rfl) fun commitNow => ?_
  have hs₂ := hs₁.snoc ⟨.utcNow, commitNow⟩ rfl
  rw [not_not] at hdigest
  subst hr hdigest
  unfold AuthorityKernel.commitActiveChain
  refine Spec.bindE (Spec.opE (hP.idle _ _ fun _ => rfl) fun r => ?_)
  have hs₃ := hs₂.snoc ⟨.lockActiveChain authorized.certificate.authorityLeaseId
    (some generation) liveManifest commitNow, r⟩ rfl
  refine Spec.ofResultE (fun validated hr => ?_) fun e _ => .unconsumed hs₃
  subst hr
  refine Spec.outcomeE ((commit_spec hP (by simp) hmanifestDigest hgeneration).mono
    (fun _ _ h => h) ?_)
  rintro h' (e | tokens) hreturn
  · have hs₄ := Since.snoc hreturn ⟨.unlockKernel, ()⟩ rfl
    exact Spec.opE (hP.idle _ _ fun _ => rfl) fun _ => Spec.ofResult_lastE (.unconsumed hs₄)
  · obtain ⟨commit, rfl, rfl⟩ := hreturn
    refine Spec.opE (hP.idle _ _ fun _ => rfl) fun _ => Spec.ofResult_lastE ?_
    have hconsumed : h ++ commit.events ++ [⟨commit.consume, .ok tokens⟩] ++ [⟨.unlockKernel, ()⟩]
        = h ++ commit.consumed tokens := by
      simp [Commit.consumed]
    simp only [hconsumed]
    refine Spec.callE (hP.recorded commit tokens) (fun r _ hr => ?_) fun r e hr => ?_
    · obtain rfl : r = .ok () := hr
      refine Spec.callE (hP.started commit tokens) (fun r _ hr => ?_) fun r e hr => ?_
      · obtain rfl : r = .ok () := hr
        refine Spec.pureE ⟨commit, rfl, ?_⟩
        simp [Commit.entered]
      · obtain rfl : r = .error e := hr
        rw [List.append_assoc]
        exact .unstarted commit tokens e
    · obtain rfl : r = .error e := hr
      exact .unrecorded commit tokens e

theorem execute_spec (hP : Executable P keyCustody authorized attemptId h) :
    Spec P (ExecuteReturns keyCustody authorized attemptId h) h
      (NexusExecutionPort.execute keyCustody authorized attemptId).run := by
  unfold NexusExecutionPort.execute
  refine Spec.bindE (Spec.adaptE ((prepare_spec hP).mono (fun _ _ h => h) ?_))
  rintro h' (e | ⟨tool, tokens⟩) hreturn
  · exact hreturn
  · obtain ⟨commit, rfl, rfl⟩ := hreturn
    refine Spec.opE (hP.execute commit tokens) fun output => ?_
    cases output with
    | some output => exact Spec.pureE ⟨commit, tokens, rfl⟩
    | none => exact Spec.throwE ⟨commit, tokens, rfl⟩

end

end

end GenesisRuntime
