/-
  GenesisRuntime.Runtime.Certificates

  The certificates a runtime publishes, against the authorization records of its
  store.  A turn writes to the two one after the other, and under locks of their
  own; so the one follows the other, however turns interleave.
-/

import GenesisRuntime.Runtime.Evidence
import GenesisRuntime.Runtime.Progress
import GenesisRuntime.Runtime.Rejections

namespace GenesisRuntime

open Prog (Spec)

section
variable [Externals]

-- ============================================================================
-- Publishing
-- ============================================================================

/-- An operation that neither inserts a record nor publishes a certificate. -/
def Op.keepsLedgers : Op → Bool
  | .insertAuthorization _ _ => false
  | .pushCertificate _ => false
  | _ => true

/-- The last thing that has been done is the insertion of a record. -/
def Unpublished (h : History) : Prop :=
  ∃ h₀ ev record, h = h₀ ++ [ev] ∧ insertedRecord ev = some record

/-- What holds before each operation of `run_once`, of certificates. -/
structure PublishedBefore (rt : R1Runtime) (h : History) (o : Op) : Prop where
  issued : ∀ certificate, o = .pushCertificate certificate → SignedBy rt.keyCustody certificate ∧
    ∃ call : ToolCall rt, certificate = call.authorization.certificate ∧ h = call.issued
      ++ [⟨.insertAuthorization call.attemptId call.authorization.record, .ok ()⟩]
  prompt : Unpublished h → ∃ certificate, o = .pushCertificate certificate

theorem not_unpublished_snoc (h : History) {ev : Event} (hev : insertedRecord ev = none) :
    ¬ Unpublished (h ++ [ev]) := by
  rintro ⟨h₀, ev', record, heq, hrecord⟩
  obtain rfl : ev = ev' := by simpa using (List.append_inj_right' heq rfl)
  rw [hev] at hrecord
  cases hrecord

theorem insertedRecord_of_keeps {ev : Event} (hev : ev.op.keepsLedgers = true) :
    insertedRecord ev = none := by
  obtain ⟨o, r⟩ := ev
  cases o with
  | insertAuthorization => cases hev
  | _ => rfl

theorem not_unpublished_append {h : History} (hh : ¬ Unpublished h) {q : History}
    (hq : ∀ ev ∈ q, ev.op.keepsLedgers = true) : ¬ Unpublished (h ++ q) := by
  rcases List.eq_nil_or_concat q with rfl | ⟨q', ev, rfl⟩
  · rwa [List.append_nil]
  · rw [List.concat_eq_append, ← List.append_assoc]
    exact not_unpublished_snoc _ (insertedRecord_of_keeps (hq ev (by simp)))

theorem keepsLedgers_of_idle {o : Op} (ho : ∀ r, idle ⟨o, r⟩ = true) : o.keepsLedgers = true := by
  cases o with
  | insertAuthorization => cases ho (.ok ())
  | pushCertificate => cases ho ()
  | _ => rfl

section
variable {rt : R1Runtime} {h : History}

theorem PublishedBefore.of_other {o : Op} (hh : ¬ Unpublished h)
    (ho : ∀ certificate, o ≠ .pushCertificate certificate) : PublishedBefore rt h o :=
  ⟨fun certificate heq => absurd heq (ho certificate), fun hlast => absurd hlast hh⟩

theorem PublishedBefore.of_keeps {o : Op} (hh : ¬ Unpublished h) (ho : o.keepsLedgers = true) :
    PublishedBefore rt h o :=
  .of_other hh fun certificate heq => by
    rw [heq] at ho
    cases ho

/-- A part of a turn that begins and ends with nothing left to publish. -/
abbrev Publishing (rt : R1Runtime) (h : History) {α : Type} (x : RuntimeM α) : Prop :=
  Spec (PublishedBefore rt) (fun h' _ => ¬ Unpublished h') h x.run

/-- The rule for a part that touches neither of the two. -/
theorem spec_of_keeps {α : Type} {Q : History → α → Prop} {x : Prog Op Op.Resp α}
    (hh : ¬ Unpublished h) (hspec : Spec (fun _ o => o.keepsLedgers = true) Q h x) :
    Spec (PublishedBefore rt) (fun h' a => Q h' a ∧ ¬ Unpublished h') h x :=
  (hspec.performing (E := fun ev => ev.op.keepsLedgers = true) fun _ _ _ ho => ho).mono
    (fun _ _ ⟨ho, _, heq, hq⟩ => .of_keeps (heq ▸ not_unpublished_append hh hq) ho)
    fun _ _ ⟨hreturn, _, heq, hq⟩ => ⟨hreturn, heq ▸ not_unpublished_append hh hq⟩

theorem append_publishing {α : Type} {attemptId : Nat} {kind : MissionEventKind}
    {f : Unit → RuntimeM α} (hh : ¬ Unpublished h)
    (hf : Publishing rt (h ++ [⟨.appendForAttempt attemptId kind, .ok ()⟩]) (f ())) :
    Publishing rt h (appendForAttempt attemptId kind >>= f) :=
  Spec.callE (.of_keeps hh rfl) (fun r _ hr => by obtain rfl : r = .ok () := hr; exact hf)
    fun _ _ _ => not_unpublished_snoc _ rfl

theorem failWith_publishing {α : Type} {attemptId : Nat} {kind : ErrorCode → MissionEventKind}
    {error : RuntimeError} (hh : ¬ Unpublished h) :
    Publishing rt h (R1Runtime.failWith attemptId kind error : RuntimeM α) :=
  append_publishing hh (Spec.throwE (not_unpublished_snoc _ rfl))

theorem execute_publishing (call : ToolCall rt) :
    Spec (PublishedBefore rt) (fun h' _ => ¬ Unpublished h') call.inserted
      (NexusExecutionPort.execute rt.keyCustody call.authorization.execution
        call.attemptId).run := by
  have hP : Executable (fun _ o => o.keepsLedgers = true) rt.keyCustody
      call.authorization.execution call.attemptId call.inserted :=
    { idle := fun _ _ => keepsLedgers_of_idle
      consume := fun _ => rfl
      recorded := fun _ _ => rfl
      started := fun _ _ => rfl
      execute := fun _ _ => rfl }
  have hlast : ¬ Unpublished call.inserted := by
    have hsplit : call.inserted = call.issued
        ++ [⟨.insertAuthorization call.attemptId call.authorization.record, .ok ()⟩]
        ++ [⟨.pushCertificate call.authorization.certificate, ()⟩] := by
      rw [ToolCall.inserted, List.append_assoc]
      rfl
    rw [hsplit]
    exact not_unpublished_snoc _ rfl
  exact (spec_of_keeps hlast (execute_spec hP)).mono (fun _ _ h => h) fun _ _ h => h.2

theorem executeAuthorized_publishing (call : ToolCall rt)
    (hsigned : SignedBy rt.keyCustody call.authorization.certificate) :
    Publishing rt call.reserved (rt.executeAuthorized call.attemptId call.authorization.execution
      ⟨call.authorization.certificate, call.authorization.record⟩) := by
  unfold R1Runtime.executeAuthorized
  refine append_publishing (not_unpublished_snoc _ rfl) ?_
  refine append_publishing (not_unpublished_snoc _ rfl) ?_
  rw [List.append_assoc]
  have hissued : ¬ Unpublished call.issued :=
    not_unpublished_append (h := call.reserved) (not_unpublished_snoc call.authorized rfl)
      (by simp [Op.keepsLedgers])
  refine Spec.opE (.of_other hissued fun _ heq => by cases heq) fun r => ?_
  rcases r with error | ⟨⟩
  · exact failWith_publishing (not_unpublished_snoc _ rfl)
  refine Spec.opE ⟨?_, fun _ => ⟨_, rfl⟩⟩ fun _ => ?_
  · rintro certificate heq
    cases heq
    exact ⟨hsigned, call, rfl, rfl⟩
  rw [List.append_assoc (_ ++ _)]
  refine Spec.outcomeE ((execute_publishing call).mono (fun _ _ h => h) ?_)
  rintro h' (⟨e, position⟩ | output) hh'
  · cases position with
    | beforeNexus => exact failWith_publishing hh'
    | started => exact failWith_publishing hh'
  · by_cases hsuccess : output.success
    · simp only [hsuccess, if_true]
      exact append_publishing hh' (Spec.pureE (not_unpublished_snoc _ rfl))
    · simp only [hsuccess]
      exact append_publishing hh' (Spec.pureE (not_unpublished_snoc _ rfl))

theorem runFinal_publishing (turn : Turn rt) (response : ModelResponse) (result : FinalResult)
    (hh : ¬ Unpublished (turn.accepted response)) :
    Publishing rt (turn.accepted response)
      (rt.runFinal turn.observation.value turn.attemptId result) := by
  unfold R1Runtime.runFinal
  refine Spec.opE (.of_keeps hh rfl) fun now => ?_
  have hspec : Spec (fun _ o => o.keepsLedgers = true)
      (FinalReturns (turn.accepted response ++ [⟨.utcNow, now⟩]))
      (turn.accepted response ++ [⟨.utcNow, now⟩])
      (rt.acceptModelFinal turn.observation.value turn.attemptId now).run :=
    acceptModelFinal_spec (fun _ _ => keepsLedgers_of_idle) (fun _ _ _ _ _ _ => rfl)
      turn.observation.value now
  refine Spec.outcomeE ((spec_of_keeps (not_unpublished_snoc _ rfl) hspec).mono (fun _ _ h => h) ?_)
  rintro h' (e | ⟨⟩) ⟨-, hh'⟩
  · exact failWith_publishing hh'
  · exact Spec.pureE hh'

theorem runToolCall_publishing (turn : Turn rt) (response : ModelResponse)
    {proposal : ToolCallProposal} (hh : ¬ Unpublished (turn.accepted response))
    (hparsed : rt.protocolGate.parse response.rawOutput = .ok (.toolCall proposal)) :
    Publishing rt (turn.accepted response)
      (rt.runToolCall turn.observation.context turn.attemptId proposal) := by
  unfold R1Runtime.runToolCall
  refine append_publishing hh ?_
  refine Spec.opE (.of_keeps (not_unpublished_snoc _ rfl) rfl) fun leaseId => ?_
  refine Spec.opE (.of_keeps (not_unpublished_snoc _ rfl) rfl) fun now => ?_
  have hquiet : ∀ (_ : History) (o : Op), o.isQuiet = true → o.keepsLedgers = true :=
    fun _ _ ho => keepsLedgers_of_idle fun _ => idle_of_quiet ho
  refine Spec.outcomeE ((spec_of_keeps (not_unpublished_snoc _ rfl)
    (((authorize_spec hquiet _ _).and (authorize_signs hquiet _ _)).mono (fun _ _ h => h.1)
      fun _ _ h => h)).mono (fun _ _ h => h) ?_)
  rintro h (e | ⟨authorized, artifact⟩) ⟨⟨hreturn, hsigns⟩, hh'⟩
  · exact failWith_publishing hh'
  obtain ⟨authorization, rfl, rfl, rfl⟩ := hreturn
  have hsigned :=
    hsigns authorization.execution ⟨authorization.certificate, authorization.record⟩ rfl
  let call : ToolCall rt := ⟨turn, response, proposal, leaseId, now, authorization, hparsed⟩
  have hauthorized : turn.accepted response
      ++ [⟨.appendForAttempt turn.attemptId .planAccepted, .ok ()⟩]
      ++ [⟨.rootLeaseId, leaseId⟩] ++ [⟨.utcNow, now⟩] ++ authorization.events
      = call.authorized := by
    simp [call, ToolCall.authorized, ToolCall.planned, ToolCall.attemptId, Turn.accepted]
  rw [hauthorized] at hh' ⊢
  exact Spec.outcomeE (reserveBudget_spec (.of_keeps hh' rfl)
    (executeAuthorized_publishing call hsigned)
    fun e => failWith_publishing (not_unpublished_snoc _ rfl))

theorem handleResponse_publishing (turn : Turn rt) (response : ModelResponse) :
    Publishing rt (turn.events ++ [⟨.generate turn.request, .ok response⟩])
      (rt.handleResponse turn.observation.context turn.observation.value turn.attemptId
        response) := by
  unfold R1Runtime.handleResponse
  cases hparsed : rt.protocolGate.parse response.rawOutput with
  | error error => exact failWith_publishing (not_unpublished_snoc _ rfl)
  | ok message =>
      refine append_publishing (not_unpublished_snoc _ rfl) ?_
      have haccepted : ¬ Unpublished (turn.events ++ [⟨.generate turn.request, .ok response⟩]
          ++ [⟨.appendForAttempt turn.attemptId .protocolAccepted, .ok ()⟩]) :=
        not_unpublished_snoc _ rfl
      rw [List.append_assoc] at haccepted ⊢
      cases message with
      | final result => exact runFinal_publishing turn response result haccepted
      | toolCall proposal => exact runToolCall_publishing turn response haccepted hparsed

theorem runOnce_publishing : Publishing rt [] rt.runOnce := by
  have hempty : ¬ Unpublished [] := fun ⟨h₀, ev, record, heq, _⟩ => by simp at heq
  have hquiet : ∀ (_ : History) (o : Op), o.isQuiet = true → o.keepsLedgers = true :=
    fun _ _ ho => keepsLedgers_of_idle fun _ => idle_of_quiet ho
  unfold R1Runtime.runOnce
  refine Spec.opE (.of_keeps hempty rfl) fun context => ?_
  refine Spec.opE (.of_keeps (not_unpublished_snoc _ rfl) rfl) fun now => ?_
  refine Spec.bindE ((spec_of_keeps (not_unpublished_snoc _ rfl)
    (observe_spec hquiet context now)).mono (fun _ _ h => h) ?_)
  rintro h (e | value) ⟨hreturn, hh'⟩
  · exact hh'
  obtain ⟨observation, rfl, rfl, rfl⟩ := hreturn
  refine Spec.bindE (reserveBudget_spec (.of_keeps hh' rfl) ?_
    fun e => not_unpublished_snoc _ rfl)
  refine Spec.ofResultE (fun instruction _ => ?_) fun e _ => not_unpublished_snoc _ rfl
  refine Spec.opE (.of_keeps (not_unpublished_snoc _ rfl) rfl) fun attemptId => ?_
  let turn : Turn rt := ⟨observation, instruction, attemptId⟩
  refine Spec.opE (.of_keeps (not_unpublished_snoc _ rfl) rfl) fun r => ?_
  cases r with
  | error error => exact failWith_publishing (not_unpublished_snoc _ rfl)
  | ok response =>
      rw [List.append_assoc observation.events]
      exact handleResponse_publishing turn response

end

/-- The specification of `run_once`, as one of every call. -/
theorem code_publishing (rt : R1Runtime) (call : Call) :
    Spec (fun h o => call = .runOnce → PublishedBefore rt h o)
      (fun h _ => call = .runOnce → ¬ Unpublished h) [] (rt.code call) := by
  by_cases hcall : call = .runOnce
  · subst hcall
    exact Spec.map (runOnce_publishing.mono (fun _ _ h _ => h) fun _ _ h _ => h)
  · exact (Spec.trivial [] (rt.code call)).mono (fun _ _ _ h => absurd h hcall)
      fun _ _ _ h => absurd h hcall

-- ============================================================================
-- The two ledgers along a run
-- ============================================================================

/-- The record that a certificate was issued with, whether or not it has been consumed. -/
structure IssuedWith (certificate : ActionCertificate) (record : AuthorizationRecord) : Prop where
  recordId : record.recordId = certificate.authorizationRecordId
  actionRef : record.actionRef = certificate.actionRef

theorem IssuedWith.ledgerRecord {certificate : ActionCertificate} {record : AuthorizationRecord}
    (h : IssuedWith certificate record) (consumed : List AuthorizationId) :
    IssuedWith certificate (ledgerRecord consumed record) := by
  unfold GenesisRuntime.ledgerRecord
  split
  · exact ⟨h.recordId, h.actionRef⟩
  · exact h

theorem ToolCall.issuedWith {rt : R1Runtime} (call : ToolCall rt) :
    IssuedWith call.authorization.certificate call.authorization.record := ⟨rfl, rfl⟩

/-- After an insertion the certificate of that record is published next. -/
theorem PublishedBefore.next {rt : R1Runtime} {h : History} {ev : Event} {o : Op}
    {record : AuthorizationRecord} (hev : insertedRecord ev = some record)
    (hbefore : PublishedBefore rt (h ++ [ev]) o) :
    ∃ certificate, o = .pushCertificate certificate ∧ IssuedWith certificate record := by
  obtain ⟨certificate, rfl⟩ := hbefore.prompt ⟨h, ev, record, rfl, hev⟩
  obtain ⟨-, call, rfl, heq⟩ := hbefore.issued certificate rfl
  obtain rfl : ev = ⟨.insertAuthorization call.attemptId call.authorization.record, .ok ()⟩ := by
    simpa using List.append_inj_right' heq rfl
  cases hev
  exact ⟨_, rfl, call.issuedWith⟩

/-- The certificate an event has published. -/
def pushedCertificate : Event → Option ActionCertificate
  | ⟨.pushCertificate certificate, _⟩ => some certificate
  | _ => none

theorem pushedCertificate_eq_some {ev : Event} {certificate : ActionCertificate} :
    pushedCertificate ev = some certificate ↔ ev = ⟨.pushCertificate certificate, ()⟩ := by
  constructor
  · intro h
    obtain ⟨o, r⟩ := ev
    cases o with
    | pushCertificate certificate' =>
        cases h
        rfl
    | _ => cases h
  · rintro rfl
    rfl

theorem exec_certificates (t : Nat) (o : Op) (input : Input) (w : World) :
    (Op.exec t o input w).2.actionCertificates = w.actionCertificates
      ++ (pushedCertificate ⟨o, (Op.exec t o input w).1⟩).toList := by
  have hnone : w.actionCertificates = w.actionCertificates ++ [] := (List.append_nil _).symm
  cases o with
  | pushCertificate certificate => rfl
  | lockActiveChain =>
      simp only [Op.exec]
      split <;> exact hnone
  | kernelOp =>
      simp only [Op.exec]
      split <;> exact hnone
  | replaceTool =>
      simp only [Op.exec]
      split <;> exact hnone
  | reserve counter limit =>
      cases counter <;>
        · simp only [Op.exec, World.reserve]
          split <;> exact hnone
  | appendForAttempt =>
      simp only [Op.exec]
      split <;> exact hnone
  | insertAuthorization =>
      simp only [Op.exec, World.onStore]
      split <;> exact hnone
  | consume =>
      simp only [Op.exec, World.consume, World.onStore]
      split <;> split <;> exact hnone
  | _ => exact hnone

section
variable {rt : R1Runtime} {init : World} {admits : World → Op → Input → Prop} {c : SystemState}

theorem Bootstrapped.certificates (boot : Bootstrapped rt init) : init.actionCertificates = [] := by
  obtain ⟨mission, agentId, spec, registry, version, delegable, input, h⟩ := boot
  simp only [R1Runtime.bootstrapR2, Except.bind_eq_ok, Except.pure_eq_ok] at h
  obtain ⟨_, -, snapshot, -, modelDigest, -, resolver, -, context, -, contextDigest, -, config, -,
    keyId, -, custody, -, granted, -, kernel, -, _, -, h⟩ := h
  cases h
  rfl

/-- The certificates of a world are those that have been published, in order. -/
theorem certificates_eq (run : PublicRun rt init admits c) (boot : Bootstrapped rt init) {i : Nat}
    (hi : i ≤ c.trace.length) : (c.worldAt i).actionCertificates
      = (c.trace.take i).filterMap fun e => pushedCertificate e.event := by
  refine run.traced (I := fun entries w => w.actionCertificates
    = entries.filterMap fun e => pushedCertificate e.event) boot.certificates ?_ hi
  intro i e he ih
  have hexec := exec_certificates e.tid e.op e.input e.pre
  rw [exec_eq run he] at hexec
  rw [hexec, ih, List.filterMap_append]
  cases hpushed : pushedCertificate e.event with
  | none => simp [hpushed, show pushedCertificate ⟨e.op, e.resp⟩ = none from hpushed]
  | some certificate =>
      simp [hpushed, show pushedCertificate ⟨e.op, e.resp⟩ = some certificate from hpushed]

theorem mem_certificates (run : PublicRun rt init admits c) (boot : Bootstrapped rt init) {i : Nat}
    (hi : i ≤ c.trace.length) {certificate : ActionCertificate} :
    certificate ∈ (c.worldAt i).actionCertificates ↔ ∃ k < i, ∃ e, c.trace[k]? = some e ∧
      e.event = ⟨.pushCertificate certificate, ()⟩ := by
  rw [certificates_eq run boot hi, List.mem_filterMap]
  constructor
  · rintro ⟨e, he, hpushed⟩
    obtain ⟨k, hk, he⟩ := mem_take.mp he
    exact ⟨k, hk, e, he, pushedCertificate_eq_some.mp hpushed⟩
  · rintro ⟨k, hk, e, he, hev⟩
    exact ⟨e, mem_take.mpr ⟨k, hk, he⟩, pushedCertificate_eq_some.mpr hev⟩

theorem mem_authorizationRecords (run : PublicRun rt init admits c) (boot : Bootstrapped rt init)
    {i : Nat} (hi : i ≤ c.trace.length) {record : AuthorizationRecord} :
    record ∈ (c.worldAt i).store.authorizationRecords ↔
      ∃ k < i, ∃ e source, c.trace[k]? = some e ∧ insertedRecord e.event = some source ∧
        record = ledgerRecord ((c.trace.take i).filterMap fun e => consumedId e.event) source := by
  rw [(storeHolds run boot hi).ledger.holds.records, insertedRecords_ledgerCalls,
    consumedIds_ledgerCalls, List.mem_map]
  constructor
  · rintro ⟨source, hsource, rfl⟩
    obtain ⟨e, he, hinserted⟩ := List.mem_filterMap.mp hsource
    obtain ⟨k, hk, he⟩ := mem_take.mp he
    exact ⟨k, hk, e, source, he, hinserted, rfl⟩
  · rintro ⟨k, hk, e, source, he, hinserted, rfl⟩
    exact ⟨source, List.mem_filterMap.mpr ⟨e, mem_take.mpr ⟨k, hk, he⟩, hinserted⟩, rfl⟩

theorem nodup_recordIds (run : PublicRun rt init admits c) (boot : Bootstrapped rt init) {i : Nat}
    (hi : i ≤ c.trace.length) :
    ((c.worldAt i).store.authorizationRecords.map AuthorizationRecord.recordId).Nodup := by
  have hledger := (storeHolds run boot hi).ledger.holds
  rw [hledger.records, List.map_map]
  have hids : AuthorizationRecord.recordId
        ∘ ledgerRecord (consumedIds (ledgerCalls (c.trace.take i)))
      = AuthorizationRecord.recordId := funext fun record => ledgerRecord_recordId _ record
  rw [hids]
  exact hledger.unique

-- ============================================================================
-- Publications
-- ============================================================================

/-- A certificate is published by the turn that has inserted its record just before. -/
theorem push_turn (run : PublicRun rt init admits c) {k : Nat} {e : Step}
    (he : c.trace[k]? = some e) {certificate : ActionCertificate}
    (hev : e.event = ⟨.pushCertificate certificate, ()⟩) :
    SignedBy rt.keyCustody certificate ∧ ∃ call : ToolCall rt,
      certificate = call.authorization.certificate ∧
      historyOf (c.trace.take k) e.tid = call.issued
        ++ [⟨.insertAuthorization call.attemptId call.authorization.record, .ok ()⟩] := by
  obtain ⟨t, o, input, r, pre, post⟩ := e
  cases hev
  obtain ⟨thread, hthread, hbefore⟩ := run.spec_before (code_publishing rt) he
  obtain ⟨⟨thread', hthread', hcall⟩, -⟩ := PublicRun.before run he rfl rfl
  obtain rfl := Option.some.inj (hthread.symm.trans hthread')
  exact (hbefore hcall).issued certificate rfl

/-- The insertion that a publication follows. -/
theorem push_insertion {k : Nat} {e : Step} {call : ToolCall rt}
    (hhist : historyOf (c.trace.take k) e.tid = call.issued
      ++ [⟨.insertAuthorization call.attemptId call.authorization.record, .ok ()⟩]) :
    ∃ j < k, ∃ e', c.trace[j]? = some e' ∧
      e'.event = ⟨.insertAuthorization call.attemptId call.authorization.record, .ok ()⟩ := by
  have hmem : (⟨.insertAuthorization call.attemptId call.authorization.record, .ok ()⟩ : Event)
      ∈ historyOf (c.trace.take k) e.tid := by
    rw [hhist]
    simp
  obtain ⟨j, e', hj, he', -, hev'⟩ := mem_historyOf hmem
  exact ⟨j, hj, e', he', hev'⟩

/-- Two publications for one record are one. -/
theorem push_unique (run : PublicRun rt init admits c) (boot : Bootstrapped rt init) {j k : Nat}
    {e e' : Step} (he : c.trace[j]? = some e) (he' : c.trace[k]? = some e')
    {certificate certificate' : ActionCertificate}
    (hev : e.event = ⟨.pushCertificate certificate, ()⟩)
    (hev' : e'.event = ⟨.pushCertificate certificate', ()⟩)
    (hid : certificate.authorizationRecordId = certificate'.authorizationRecordId) : j = k := by
  obtain ⟨-, call, rfl, hhist⟩ := push_turn run he hev
  obtain ⟨-, call', rfl, hhist'⟩ := push_turn run he' hev'
  obtain ⟨l, hl, i, hi, hinserted⟩ := push_insertion hhist
  obtain ⟨l', hl', i', hi', hinserted'⟩ := push_insertion hhist'
  -- a record is bound to one attempt, and an attempt belongs to one turn
  have hbound := (storeHolds run boot le_rfl).ledger.bound
  rw [List.take_length] at hbound
  have hattempt := hbound i (List.mem_of_getElem? hi) _ _ hinserted
  have hattempt' := hbound i' (List.mem_of_getElem? hi') _ _ hinserted'
  have hsame : call.authorization.record.recordId = call'.authorization.record.recordId := hid
  rw [hsame, hattempt'] at hattempt
  have hturn {k : Nat} {e : Step} {call : ToolCall rt}
      (hhist : historyOf (c.trace.take k) e.tid = call.issued
        ++ [⟨.insertAuthorization call.attemptId call.authorization.record, .ok ()⟩])
      (hk : k ≤ c.trace.length) :
      attemptOf (historyOf (c.trace.take c.trace.length) e.tid) = some call.attemptId := by
    refine attemptOf_later ?_ hk
    rw [hhist]
    exact attemptOf_append (attemptOf_append call.attemptOf_reserved)
  have htid : e.tid = e'.tid := attempt_unique run boot le_rfl
    (hturn hhist (List.getElem?_eq_some_iff.mp he).1.le)
    (Option.some.inj hattempt ▸ hturn hhist' (List.getElem?_eq_some_iff.mp he').1.le)
  refine position_unique he he' htid ?_
  rw [hhist, hhist']
  rfl

theorem nodup_certificates (run : PublicRun rt init admits c) (boot : Bootstrapped rt init)
    {i : Nat} (hi : i ≤ c.trace.length) :
    ((c.worldAt i).actionCertificates.map ActionCertificate.authorizationRecordId).Nodup := by
  rw [certificates_eq run boot hi]
  induction i with
  | zero => simp
  | succ i ih =>
      obtain ⟨e, he⟩ : ∃ e, c.trace[i]? = some e := ⟨_, List.getElem?_eq_getElem (by omega)⟩
      rw [List.take_add_one, he, Option.toList_some, List.filterMap_append]
      cases hpushed : pushedCertificate e.event with
      | none =>
          rw [show [e].filterMap (fun e => pushedCertificate e.event) = [] by simp [hpushed],
            List.append_nil]
          exact ih (by omega)
      | some certificate =>
          have hnew : ∀ certificate' ∈
              (c.trace.take i).filterMap fun e => pushedCertificate e.event,
              certificate'.authorizationRecordId ≠ certificate.authorizationRecordId := by
            intro certificate' hmem hid
            rw [← certificates_eq run boot (by omega)] at hmem
            obtain ⟨k, hk, e', he', hev'⟩ := (mem_certificates run boot (by omega)).mp hmem
            have hik := push_unique run boot he' he hev' (pushedCertificate_eq_some.mp hpushed) hid
            omega
          rw [show [e].filterMap (fun e => pushedCertificate e.event) = [certificate] by
            simp [hpushed], List.map_append]
          refine List.nodup_append.mpr ⟨ih (by omega), List.nodup_singleton _, ?_⟩
          intro id hid id' hid'
          obtain ⟨certificate', hmem, rfl⟩ := List.mem_map.mp hid
          rw [List.mem_singleton.mp hid']
          exact hnew certificate' hmem

/-- Every published certificate has its record. -/
theorem record_of_certificate (run : PublicRun rt init admits c) (boot : Bootstrapped rt init)
    {i : Nat} (hi : i ≤ c.trace.length) {certificate : ActionCertificate}
    (hmem : certificate ∈ (c.worldAt i).actionCertificates) :
    SignedBy rt.keyCustody certificate ∧
      ∃ record ∈ (c.worldAt i).store.authorizationRecords, IssuedWith certificate record := by
  obtain ⟨k, hk, e, he, hev⟩ := (mem_certificates run boot hi).mp hmem
  obtain ⟨hsigned, call, rfl, hhist⟩ := push_turn run he hev
  obtain ⟨j, hj, e', he', hev'⟩ := push_insertion hhist
  exact ⟨hsigned, _, (mem_authorizationRecords run boot hi).mpr ⟨j, by omega, e', _, he',
    insertedRecord_eq_some.mpr ⟨_, hev'⟩, rfl⟩, call.issuedWith.ledgerRecord _⟩

/-- The certificate of the record is what some thread publishes with its next operation. -/
def Publishes (c : SystemState) (record : AuthorizationRecord) : Prop :=
  ∃ (t : Nat) (thread : Thread Op Call Outcome Op.Resp) (certificate : ActionCertificate)
    (k : Unit → Prog Op Op.Resp Outcome), c.threads[t]? = some thread ∧
    thread.prog = .op (.pushCertificate certificate) k ∧ IssuedWith certificate record

/-- Every record has its certificate, or is about to have it. -/
theorem certificate_of_record (run : PublicRun rt init admits c) (boot : Bootstrapped rt init)
    {record : AuthorizationRecord} (hmem : record ∈ c.world.store.authorizationRecords) :
    (∃ certificate ∈ c.world.actionCertificates, IssuedWith certificate record) ∨
      Publishes c record := by
  rw [← Run.worldAt_length c] at hmem ⊢
  obtain ⟨k, hk, e, source, he, hinserted, rfl⟩ :=
    (mem_authorizationRecords run boot le_rfl).mp hmem
  obtain ⟨attemptId, hev⟩ := insertedRecord_eq_some.mp hinserted
  have hcalled : ∃ thread, c.threads[e.tid]? = some thread ∧ thread.call = .runOnce := by
    obtain ⟨t, o, input, r, pre, post⟩ := e
    cases hev
    exact (PublicRun.before run he rfl rfl).1
  obtain ⟨thread, hthread, hcall⟩ := hcalled
  -- what the thread has done since
  obtain ⟨rest, hrest⟩ := (historyOf_take_isPrefix (k + 1) :
    historyOf (c.trace.take (k + 1)) e.tid <+: historyOf c.trace e.tid)
  rw [historyOf_take_succ he, if_pos rfl] at hrest
  cases rest with
  | nil =>
      rw [List.append_nil] at hrest
      have hspec := run.spec_rest (code_publishing rt) hthread
      rw [← hrest] at hspec
      cases hprog : thread.prog with
      | ret outcome =>
          rw [hprog] at hspec
          exact absurd ⟨_, _, source, rfl, hinserted⟩ (hspec hcall)
      | op o k' =>
          rw [hprog] at hspec
          obtain ⟨certificate, rfl, hissued⟩ := (hspec.1 hcall).next hinserted
          exact .inr ⟨e.tid, thread, certificate, k', hthread, hprog, hissued.ledgerRecord _⟩
  | cons ev rest =>
      rw [← List.take_length (l := c.trace)] at hrest
      obtain ⟨l, e', hl, he', htid, rfl, hhist, -⟩ := exists_position hrest.symm
      obtain ⟨thread', hthread', hbefore⟩ := run.spec_before (code_publishing rt) he'
      rw [htid, hthread] at hthread'
      obtain rfl := Option.some.inj hthread'
      rw [htid, hhist] at hbefore
      obtain ⟨certificate, hop, hissued⟩ := (hbefore hcall).next hinserted
      refine .inl ⟨certificate, (mem_certificates run boot le_rfl).mpr ⟨l, hl, e', he', ?_⟩,
        hissued.ledgerRecord _⟩
      obtain ⟨t, o, input, r, pre, post⟩ := e'
      cases hop
      rfl

/-- Nexus is entered with arguments whose digest a certificate carries that has been published
    by then, and whose record has been consumed. -/
theorem certificate_of_entry (run : PublicRun rt init admits c) (boot : Bootstrapped rt init)
    {i : Nat} {e : Step} (he : c.trace[i]? = some e) {definition : ToolDefinition}
    {arguments : Json} {tokens : List CapabilityToken}
    (hop : e.op = .executeTool definition arguments tokens) :
    ∃ certificate ∈ (c.worldAt i).actionCertificates,
      canonicalDigest "aeon-concrete-input-v1" arguments = .ok certificate.concreteInputDigest ∧
      ∃ record ∈ (c.worldAt i).store.authorizationRecords,
        IssuedWith certificate record ∧ record.state = .consumed := by
  have hi : i ≤ c.trace.length := (List.getElem?_eq_some_iff.mp he).1.le
  obtain ⟨t, o, input, r, pre, post⟩ := e
  obtain rfl : o = _ := hop
  obtain ⟨-, call, commit, hhist, hexecute⟩ := PublicRun.before run he rfl rfl
  cases hexecute
  have hmem (ev : Event) (hev : ev ∈ call.inserted ++ commit.entered call.attemptId tokens) :
      ∃ k < i, ∃ e, c.trace[k]? = some e ∧ e.event = ev := by
    rw [← hhist] at hev
    obtain ⟨k, e, hk, he, -, heq⟩ := mem_historyOf hev
    exact ⟨k, hk, e, he, heq⟩
  obtain ⟨k, hk, inserted, hk', hinserted⟩ := hmem
    ⟨.insertAuthorization call.attemptId call.authorization.record, .ok ()⟩
    (List.mem_append_left _ (by simp [ToolCall.inserted]))
  obtain ⟨l, hl, pushed, hl', hpushed⟩ := hmem
    ⟨.pushCertificate call.authorization.certificate, ()⟩
    (List.mem_append_left _ (by simp [ToolCall.inserted]))
  obtain ⟨m, hm, consumed, hm', hconsumed⟩ := hmem ⟨commit.consume, .ok tokens⟩
    (List.mem_append_right _ (by simp [Commit.entered, Commit.consumed]))
  have hspent : call.authorization.record.recordId
      ∈ (c.trace.take i).filterMap fun e => consumedId e.event :=
    List.mem_filterMap.mpr ⟨consumed, mem_take.mpr ⟨m, hm, hm'⟩, by rw [hconsumed]; rfl⟩
  refine ⟨_, (mem_certificates run boot hi).mpr ⟨l, hl, pushed, hl', hpushed⟩,
    call.authorization.inputDigest_eq, _, (mem_authorizationRecords run boot hi).mpr
      ⟨k, hk, inserted, _, hk', insertedRecord_eq_some.mpr ⟨_, hinserted⟩, rfl⟩,
    call.issuedWith.ledgerRecord _, ?_⟩
  rw [ledgerRecord, if_pos hspent]
  rfl

/-- However turns interleave, the published certificates and the authorization records agree:
    each certificate is signed by the root custody and has its record, no record has two, and
    a record has none only while the turn that has inserted it is about to publish it; where
    all calls have returned there are exactly as many of the one as of the other, and Nexus is
    never entered but under a certificate that has been published. -/
theorem certificates_match_records (run : PublicRun rt init admits c)
    (boot : Bootstrapped rt init) :
    (c.world.actionCertificates.map ActionCertificate.authorizationRecordId).Nodup ∧
    (∀ certificate ∈ c.world.actionCertificates, SignedBy rt.keyCustody certificate ∧
      ∃ record ∈ c.world.store.authorizationRecords, IssuedWith certificate record) ∧
    (∀ record ∈ c.world.store.authorizationRecords,
      (∃ certificate ∈ c.world.actionCertificates, IssuedWith certificate record) ∨
        Publishes c record) ∧
    ((∀ thread ∈ c.threads, thread.Returned) →
      (c.world.actionCertificates.map ActionCertificate.authorizationRecordId).Perm
        (c.world.store.authorizationRecords.map AuthorizationRecord.recordId)) ∧
    ∀ (i : Nat) (e : Step) (definition : ToolDefinition) (arguments : Json)
      (tokens : List CapabilityToken), c.trace[i]? = some e →
      e.op = .executeTool definition arguments tokens →
      ∃ certificate ∈ (c.worldAt i).actionCertificates,
        canonicalDigest "aeon-concrete-input-v1" arguments = .ok certificate.concreteInputDigest ∧
        ∃ record ∈ (c.worldAt i).store.authorizationRecords,
          IssuedWith certificate record ∧ record.state = .consumed := by
  have hnodup := nodup_certificates run boot le_rfl
  have hnodup' := nodup_recordIds run boot le_rfl
  have hrecord (certificate : ActionCertificate)
      (hmem : certificate ∈ (c.worldAt c.trace.length).actionCertificates) :=
    record_of_certificate run boot le_rfl hmem
  rw [Run.worldAt_length] at hnodup hnodup' hrecord
  refine ⟨hnodup, fun _ => hrecord _, fun _ => certificate_of_record run boot, fun hreturned => ?_,
    fun i e definition arguments tokens he hop => certificate_of_entry run boot he hop⟩
  refine (List.perm_ext_iff_of_nodup hnodup hnodup').mpr fun id => ?_
  rw [List.mem_map, List.mem_map]
  constructor
  · rintro ⟨certificate, hmem, rfl⟩
    obtain ⟨-, record, hstored, hissued⟩ := hrecord certificate hmem
    exact ⟨record, hstored, hissued.recordId⟩
  · rintro ⟨record, hmem, rfl⟩
    rcases certificate_of_record run boot hmem with
      ⟨certificate, hpublished, hissued⟩ | ⟨t, thread, certificate, k, hthread, hprog, -⟩
    · exact ⟨certificate, hpublished, hissued.recordId.symm⟩
    · obtain ⟨outcome, hret⟩ := hreturned thread (List.mem_of_getElem? hthread)
      rw [hprog] at hret
      cases hret

omit [Externals] in
/-- A turn of the reference runtime that calls its tool, under a certificate it has published. -/
theorem certificates_match_records_reference : letI := Reference.externals
    ∃ (rt : R1Runtime) (init : World) (c : SystemState) (k : Nat) (e : Step)
      (definition : ToolDefinition) (arguments : Json) (tokens : List CapabilityToken),
      Bootstrapped rt init ∧ PublicRun rt init FreshIds c ∧
      (∀ thread ∈ c.threads, thread.Returned) ∧
      (c.world.actionCertificates.map ActionCertificate.authorizationRecordId).Perm
        (c.world.store.authorizationRecords.map AuthorizationRecord.recordId) ∧
      c.trace[k]? = some e ∧ e.op = .executeTool definition arguments tokens ∧
      ∃ certificate ∈ (c.worldAt k).actionCertificates,
        canonicalDigest "aeon-concrete-input-v1" arguments
          = .ok certificate.concreteInputDigest ∧
        ∃ record ∈ (c.worldAt k).store.authorizationRecords,
          IssuedWith certificate record ∧ record.state = .consumed := by
  let := Reference.externals
  obtain ⟨rt, w, tool, ⟨act⟩⟩ := Reference.exists_activated
  obtain ⟨c, run, hthreads, k, e, definition, arguments, tokens, he, hop, -⟩ :=
    act.exists_executed (fun _ call => call.isPublic = true) act.allows_freshIds rfl
  have hreturned : ∀ thread ∈ c.threads, thread.Returned := by
    rw [hthreads]
    simp [Thread.Returned]
  obtain ⟨-, -, -, hperm, hentries⟩ := certificates_match_records run act.bootstrapped
  exact ⟨rt, w, c, k, e, definition, arguments, tokens, act.bootstrapped, run, hreturned,
    hperm hreturned, he, hop, hentries k e definition arguments tokens he hop⟩

end

end

end GenesisRuntime
