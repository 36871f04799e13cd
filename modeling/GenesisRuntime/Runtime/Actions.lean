/-
  GenesisRuntime.Runtime.Actions

  What the identifiers of an authorized action stand for.  The action reference and the
  input digest of a certificate are hashes of canonical JSON, so they do not depend on
  how the model ordered the arguments it proposed, and on nothing else of the call but
  the mission, the tool and its effect class.
-/

import GenesisRuntime.Digest.Reordering
import GenesisRuntime.Runtime.Reference
import GenesisRuntime.ToolRegistry.Generation

namespace GenesisRuntime

open Json (DistinctNames Reordered)
open Prog (Follows)

-- ============================================================================
-- The fields of an action
-- ============================================================================

theorem CanonicalJson.new_congr {a b : Json} (h : canonicalizeJson a = canonicalizeJson b) :
    CanonicalJson.new a = CanonicalJson.new b := by
  unfold CanonicalJson.new
  simp only [h]

theorem distinguishes_canonicalJson : Distinguishes CanonicalJson := by
  rintro ⟨a, source, rfl⟩ ⟨b, source', rfl⟩ ⟨v, w, hv, hw, h⟩
  cases hv
  cases hw
  simp only [canonicalizeJson_idem] at h
  simp only [h]

theorem ActionTarget.value_injective : Function.Injective ActionTarget.value := by
  rintro ⟨a, _⟩ ⟨b, _⟩ rfl
  rfl

theorem ActionTarget.new_eq_ok {value : String} {target : ActionTarget}
    (h : ActionTarget.new value = .ok target) : target.value = value := by
  unfold ActionTarget.new at h
  split at h
  · cases h
    rfl
  · cases h

theorem distinguishes_actionTarget : Distinguishes ActionTarget :=
  fun _ _ hsame => ActionTarget.value_injective (distinguishes_string _ _ hsame)

theorem distinguishes_semanticScope : Distinguishes SemanticScope := by
  rintro a b ⟨v, w, hv, hw, h⟩
  cases a <;> cases b <;> cases hv <;> cases hw <;> simp at h ⊢

section
variable [Externals]

/-- An action reference identifies the action. -/
theorem CanonicalAction.eq_of_actionRef (hcollision : CollisionFree) (htext : JsonTextInjective)
    {action action' : CanonicalAction} {ref : ActionRef} (h : action.actionRef = .ok ref)
    (h' : action'.actionRef = .ok ref) : action = action' := by
  simp only [actionRef, Except.bind_eq_ok, Except.pure_eq_ok] at h h'
  obtain ⟨digest, hdigest, rfl⟩ := h
  obtain ⟨_, hdigest', ⟨⟩⟩ := h'
  have hfields := SameValue.fields (sameValue_of_canonicalDigest hcollision htext hdigest hdigest')
    rfl (by simp)
  simp only [List.forall₂_cons] at hfields
  obtain ⟨hmission, heffect, htarget, hparameters, hscope, -⟩ := hfields
  obtain ⟨missionId, effectKind, target, parameters, scope⟩ := action
  obtain ⟨missionId', effectKind', target', parameters', scope'⟩ := action'
  rw [CanonicalAction.mk.injEq]
  exact ⟨distinguishes_identifier _ _ _ hmission, distinguishes_effectClass _ _ heffect,
    distinguishes_actionTarget _ _ htarget, distinguishes_canonicalJson _ _ hparameters,
    distinguishes_semanticScope _ _ hscope⟩

-- ============================================================================
-- The identifiers of a proposal
-- ============================================================================

theorem AuthorizeRequest.canonicalAction_eq_ok {request : AuthorizeRequest} {tool : RegisteredTool}
    {action : CanonicalAction} (h : request.canonicalAction tool = .ok action) :
    ∃ target : ActionTarget, target.value = request.proposalToolId.value ∧
      action = ⟨request.mission.missionId, tool.manifest.effectClass, target,
        CanonicalJson.new request.arguments, .mission⟩ := by
  simp only [canonicalAction, Except.bind_eq_ok, Except.pure_eq_ok] at h
  obtain ⟨target, htarget, rfl⟩ := h
  exact ⟨target, ActionTarget.new_eq_ok htarget, rfl⟩

/-- Two authorizations in one mission have the same identifiers exactly where the tool, its
    effect class and, up to the order of members, the arguments are the same. -/
theorem Authorization.identifiers_eq_iff (hcollision : CollisionFree)
    (htext : JsonTextInjective) {request request' : AuthorizeRequest}
    (run : Authorization request) (run' : Authorization request')
    (hmission : request.mission.missionId = request'.mission.missionId)
    (hdistinct : request.arguments.DistinctNames) :
    run.actionRef = run'.actionRef ∧ run.inputDigest = run'.inputDigest ↔
      request.proposalToolId = request'.proposalToolId ∧
        run.action.effectKind = run'.action.effectKind ∧
        Reordered request.arguments request'.arguments := by
  obtain ⟨target, htarget, haction⟩ := AuthorizeRequest.canonicalAction_eq_ok run.action_eq
  obtain ⟨target', htarget', haction'⟩ := AuthorizeRequest.canonicalAction_eq_ok run'.action_eq
  have hdigest := canonicalDigest_json_iff hcollision htext run.inputDigest_eq run'.inputDigest_eq
  rw [canonicalizeJson_eq_iff hdistinct] at hdigest
  constructor
  · rintro ⟨href, hinput⟩
    have hsame : run.action = run'.action := CanonicalAction.eq_of_actionRef hcollision htext
      run.actionRef_eq (href ▸ run'.actionRef_eq)
    refine ⟨Identifier.value_injective ?_, congrArg CanonicalAction.effectKind hsame,
      hdigest.mp hinput⟩
    have htargets : target = target' := by
      rw [haction, haction'] at hsame
      exact congrArg CanonicalAction.target hsame
    rw [← htarget, ← htarget', htargets]
  · rintro ⟨htool, heffect, hreordered⟩
    have hsame : run.action = run'.action := by
      have htargets : target = target' :=
        ActionTarget.value_injective (by rw [htarget, htarget', htool])
      have hparameters := canonical_of_reordered hdistinct hreordered
      rw [haction, haction'] at heffect ⊢
      dsimp only at heffect
      rw [hmission, heffect, htargets, CanonicalJson.new_congr hparameters]
    refine ⟨?_, hdigest.mpr hreordered⟩
    have href := run.actionRef_eq
    rw [hsame, run'.actionRef_eq] at href
    exact (Except.ok.inj href).symm

/-- Canonical JSON is a canonical form of JSON values up to the order of object members, so
    two proposals in one mission get the same action reference and the same input digest
    exactly where they name the same tool, with the same effect class, and the same arguments
    up to that order. -/
theorem action_identifiers_are_canonical :
    (∀ value : Json, canonicalizeJson (canonicalizeJson value) = canonicalizeJson value) ∧
    (∀ a b : Json, a.DistinctNames →
      (canonicalizeJson a = canonicalizeJson b ↔ Reordered a b)) ∧
    (CollisionFree → JsonTextInjective →
      ∀ (request request' : AuthorizeRequest) (h h' : History)
        (authorized authorized' : AuthorizedExecution)
        (artifact artifact' : R1AuthorizationArtifact),
      Follows (ActionGate.authorize request).run h (.ret (.ok (authorized, artifact))) →
      Follows (ActionGate.authorize request').run h' (.ret (.ok (authorized', artifact'))) →
      request.mission.missionId = request'.mission.missionId →
      request.arguments.DistinctNames →
      (artifact.record.actionRef = artifact'.record.actionRef ∧
          artifact.certificate.concreteInputDigest = artifact'.certificate.concreteInputDigest ↔
        request.proposalToolId = request'.proposalToolId ∧
          artifact.record.effectClass = artifact'.record.effectClass ∧
          Reordered request.arguments request'.arguments)) := by
  refine ⟨canonicalizeJson_idem, fun _ _ ha => canonicalizeJson_eq_iff ha, ?_⟩
  intro hcollision htext request request' h h' authorized authorized' artifact artifact' hrun hrun'
    hmission hdistinct
  have hspec (request : AuthorizeRequest) := authorize_spec (P := fun _ _ => True)
    (fun _ _ _ => trivial) request []
  obtain ⟨run, -, -, rfl⟩ := (hspec request).follows hrun
  obtain ⟨run', -, -, rfl⟩ := (hspec request').follows hrun'
  exact run.identifiers_eq_iff hcollision htext run' hmission hdistinct

end

-- ============================================================================
-- A call over the reference components
-- ============================================================================

/-- What a reference runtime asks of the gate where its tool is called. -/
def Reference.authorizeRequest [Externals] (rt : R1Runtime) (w : World) (arguments : Json) :
    AuthorizeRequest :=
  rt.authorizeRequest w.kernel.rootLeaseId w.semanticContext ⟨Reference.toolId, arguments⟩
    Reference.start

theorem Reference.exists_authorization : letI := Reference.externals
    ∀ {rt : R1Runtime} {w : World} {tool : RegisteredTool}, Reference.Activated rt w tool →
      ∀ arguments, ∃ (h : History) (authorized : AuthorizedExecution)
        (artifact : R1AuthorizationArtifact),
        Follows (ActionGate.authorize (Reference.authorizeRequest rt w arguments)).run h
          (.ret (.ok (authorized, artifact))) ∧ artifact.record.effectClass = .readOnly := by
  let := Reference.externals
  intro rt w tool act arguments
  obtain ⟨h, -, p, hfollows, run, rfl, hrun⟩ := ((act.passes arguments).can_authorize
    (R := fun _ _ _ _ => True) (w := w) (h := [])
    (Q := fun _ _ p => ∃ run, p = .ret (.ok (run.execution, ⟨run.certificate, run.record⟩)) ∧
      (act.passes arguments).Authorizes run) trivial trivial trivial trivial trivial
    fun run h hrun => .stop ⟨run, rfl, hrun⟩).exists_follows .start
  have haction := run.action_eq
  simp only [AuthorizeRequest.canonicalAction, Except.bind_eq_ok, Except.pure_eq_ok] at haction
  obtain ⟨target, -, haction⟩ := haction
  refine ⟨h, _, _, hfollows, ?_⟩
  calc run.action.effectKind
      = run.tool.manifest.effectClass := by rw [← haction]
    _ = .readOnly := by rw [hrun.tool]; exact act.isReader.effect_eq

/-- Two calls whose arguments differ in the order of their members. -/
theorem action_identifiers_are_canonical_reference : letI := Reference.externals
    ∃ (rt : R1Runtime) (w : World) (h h' : History) (authorized authorized' : AuthorizedExecution)
      (artifact artifact' : R1AuthorizationArtifact), Bootstrapped rt w ∧
      Follows (ActionGate.authorize (Reference.authorizeRequest rt w
        (.object [("a", .null), ("b", .null)]))).run h (.ret (.ok (authorized, artifact))) ∧
      Follows (ActionGate.authorize (Reference.authorizeRequest rt w
        (.object [("b", .null), ("a", .null)]))).run h' (.ret (.ok (authorized', artifact'))) ∧
      artifact.record.actionRef = artifact'.record.actionRef ∧
      artifact.certificate.concreteInputDigest = artifact'.certificate.concreteInputDigest := by
  let := Reference.externals
  obtain ⟨rt, w, tool, ⟨act⟩⟩ := Reference.exists_activated
  let members : List (String × Json) := [("a", .null), ("b", .null)]
  let members' : List (String × Json) := [("b", .null), ("a", .null)]
  obtain ⟨h, authorized, artifact, hrun, heffect⟩ :=
    Reference.exists_authorization act (.object members)
  obtain ⟨h', authorized', artifact', hrun', heffect'⟩ :=
    Reference.exists_authorization act (.object members')
  have hdistinct : (Json.object members).DistinctNames := by
    refine .object _ (by decide) fun entry hentry => ?_
    simp only [members, List.mem_cons, List.not_mem_nil, or_false] at hentry
    rcases hentry with rfl | rfl <;> exact .null
  have hreordered : Reordered (.object members) (.object members') := by
    refine .object (.refl _) (List.Perm.swap _ _ _) rfl fun i hi _ => ?_
    match i, hi with
    | 0, _ => exact .null
    | 1, _ => exact .null
  refine ⟨rt, w, h, h', authorized, authorized', artifact, artifact', act.bootstrapped, hrun,
    hrun', ?_⟩
  refine (action_identifiers_are_canonical.2.2 Reference.collisionFree Reference.jsonTextInjective
    _ _ h h' authorized authorized' artifact artifact' hrun hrun' rfl hdistinct).mpr ?_
  exact ⟨rfl, heffect.trans heffect'.symm, hreordered⟩

end GenesisRuntime
