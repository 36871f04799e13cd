/-
  GenesisRuntime.Runtime.Reference.Runs

  Runs of the reference runtime in which its calls come through: a turn that calls
  the tool, one that ends with a final message, the calls of the control plane, and
  a revocation that gets between the parts of a turn.
-/

import GenesisRuntime.Runtime.Reference

namespace GenesisRuntime

open Prog (Can)

namespace Reference

local instance : Externals := externals

/-- The environment of the reference turns is one that is admitted. -/
structure Allows (admits : World → Op → Input → Prop) (w : World) : Prop where
  quiet : ∀ text w o, o.waits = false → admits w o (input text)
  kernelOp : ∀ text w' op, w'.kernel = w.kernel → admits w' (.kernelOp op) (input text)

/-- Ids are fresh and appends do not fail. -/
def Undisturbed (w : World) (o : Op) (input : Input) : Prop :=
  FreshIds w o input ∧ AppendsSucceed w o input

/-- The root lease of a runtime has been revoked since the bootstrap. -/
structure Revoked (w w' : World) (lease : LeaseEntry) : Prop where
  root_eq : w'.kernel.rootLeaseId = w.kernel.rootLeaseId
  lookup : w'.kernel.leases.lookup w.kernel.rootLeaseId
    = some (lease.withRecord (lease.record.revoke "done" start))

/-- A call of the control plane that finds its lease performs its operation. -/
theorem exists_managed {rt : R1Runtime} {w : World} {admits : World → Op → Input → Prop}
    {maySpawn : SystemState → Call → Prop} {input : Input} (favours : Favourable admits input)
    {c : SystemState} (run : Run rt.system w admits maySpawn c) (call : Call)
    (may : maySpawn c call) (order : LeaseSnapshot → DateTime → KernelOp)
    (hcode : rt.code call = Outcome.controlled <$> (do
      let active ← R1Runtime.activeLeaseSnapshot
      R1Runtime.kernelOp (order active (← perform .utcNow)) :
        RuntimeM R1Runtime.ControlReturn).run) {lease : LeaseSnapshot}
    (hlookup : c.world.kernel.leases.lookup c.world.kernel.rootLeaseId = some lease)
    (admitted : admits c.world (.kernelOp (order lease input.now)) input)
    (hreaders : c.world.kernelReaders = []) {returned : KernelReturn} {s' : AuthorityState}
    (hexec : (order lease input.now).exec input.uuid c.world.kernel = .ok returned s') :
    ∃ c', Run rt.system w admits maySpawn c' ∧
      c'.threads = c.threads
        ++ [⟨call, c.trace.length, .ret (.controlled (.ok (.kernel returned)))⟩] ∧
      (∃ entries, c'.trace = c.trace ++ entries ∧ ∀ e ∈ entries, e.tid = c.threads.length) ∧
      (⟨.kernelOp (order lease input.now), .ok returned⟩ : Event)
        ∈ historyOf c'.trace c.threads.length ∧
      c'.world = { c.world with kernel := s' } := by
  have can : Can (rt.system.Offers admits c.threads.length) (fun h w' p =>
      p = .ret (.controlled (.ok (.kernel returned))) ∧
      (⟨.kernelOp (order lease input.now), .ok returned⟩ : Event) ∈ h ∧
      w' = { c.world with kernel := s' }) [] c.world (rt.code call) := by
    rw [hcode]
    exact Can.map (favours.can_manage hlookup order fun h' =>
      can_kernelOp admitted hreaders hexec (.stop (.stop ⟨rfl, by simp, rfl⟩)))
  obtain ⟨c', p, run', hthreads, htrace, rfl, hmem, hworld⟩ := run.exists_spawned may can
  exact ⟨c', run', hthreads, htrace, hmem, hworld⟩

/-- What `revoke "done"` asks of the kernel. -/
def revocation (active : LeaseSnapshot) (now : DateTime) : KernelOp :=
  .revoke active.certificate.leaseId active.record.generation "done" now

/-- A root lease that has not ended can be revoked. -/
theorem exists_revocation {rt : R1Runtime} {w : World} {admits : World → Op → Input → Prop}
    {maySpawn : SystemState → Call → Prop} (favours : Favourable admits (input callText))
    {c : SystemState} (run : Run rt.system w admits maySpawn c) (may : maySpawn c (.revoke "done"))
    {lease : LeaseSnapshot}
    (hlookup : c.world.kernel.leases.lookup c.world.kernel.rootLeaseId = some lease)
    (hroot : lease.certificate.leaseId = c.world.kernel.rootLeaseId)
    (hlive : lease.record.state.isLive = true)
    (admitted : admits c.world (.kernelOp (revocation lease start)) (input callText))
    (hreaders : c.world.kernelReaders = []) :
    ∃ c' returned s', Run rt.system w admits maySpawn c' ∧
      c'.threads = c.threads
        ++ [⟨.revoke "done", c.trace.length, .ret (.controlled (.ok (.kernel returned)))⟩] ∧
      (∃ entries, c'.trace = c.trace ++ entries ∧ ∀ e ∈ entries, e.tid = c.threads.length) ∧
      (⟨.kernelOp (revocation lease start), .ok returned⟩ : Event)
        ∈ historyOf c'.trace c.threads.length ∧
      c'.world = { c.world with kernel := s' } ∧ s'.rootLeaseId = c.world.kernel.rootLeaseId ∧
      s'.leases.lookup c.world.kernel.rootLeaseId
        = some (lease.withRecord (lease.record.revoke "done" start)) := by
  obtain ⟨affected, s', hrevoke⟩ := exists_revoke hlookup hlive "done" start
  have hexec : (revocation lease start).exec "2" c.world.kernel = .ok (.leases affected) s' := by
    refine map_eq_ok.mpr ⟨affected, ?_, rfl⟩
    rw [hroot]
    exact hrevoke
  obtain ⟨_, -, -, -, -, cascade, -⟩ := revoke_eq_ok hrevoke
  obtain ⟨c', run', hthreads, htrace, hmem, hworld⟩ := exists_managed favours run
    (.revoke "done") may revocation rfl hlookup admitted hreaders hexec
  exact ⟨c', _, s', run', hthreads, htrace, hmem, hworld, cascade.rootLeaseId,
    revoke_self hrevoke hlookup⟩

theorem Revoked.exists_error {w w' : World} {lease : LeaseEntry} (h : Revoked w w' lease)
    (generation : Option Nat) (manifest : CapabilityManifest) :
    ∃ error, validateChain w'.kernel w.kernel.rootLeaseId generation manifest start
      = .error error :=
  exists_error_of_state h.lookup (show LeaseState.revoked ≠ .active by decide) generation
    manifest start

namespace Activated

variable {rt : R1Runtime} {w : World} {tool : RegisteredTool} (act : Activated rt w tool)
  {admits : World → Op → Input → Prop} (maySpawn : SystemState → Call → Prop)

include act in
/-- As long as the kernel is that of the bootstrap, its root lease is there. -/
theorem lookup_of_kernel {w' : World} (hkernel : w'.kernel = w.kernel) :
    w'.kernel.leases.lookup w'.kernel.rootLeaseId = some act.ready.lease := by
  rw [hkernel]
  exact act.ready.lookup

include act in
theorem allows_undisturbed : Allows Undisturbed w where
  quiet text w o hwaits := ⟨freshIds_input text w o hwaits, rfl⟩
  kernelOp text w' op hkernel := by
    refine ⟨?_, rfl⟩
    rintro _ -
    rw [hkernel]
    exact act.fresh

include act in
theorem allows_freshIds : Allows FreshIds w where
  quiet text w o hwaits := (act.allows_undisturbed.quiet text w o hwaits).1
  kernelOp text w' op hkernel := (act.allows_undisturbed.kernelOp text w' op hkernel).1

variable (allows : Allows admits w)
include act allows

/-- A turn whose model calls the tool gets to the execution of the call. -/
theorem exists_authorized (may : maySpawn ⟨w, [], []⟩ .runOnce) :
    ∃ c attemptId run, Run rt.system w admits maySpawn c ∧
      c.threads = [⟨.runOnce, 0, .ran <$> (rt.executeAuthorized attemptId run.execution
        ⟨run.certificate, run.record⟩).run⟩] ∧
      attemptId ≠ 0 ∧ (act.passes (.object [])).Authorizes run ∧ Keeps w c.world := by
  obtain ⟨c, -, run, hthreads, -, run', rfl, hrun, keeps⟩ :=
    Run.start.exists_spawned may (Q := fun _ w' p => ∃ run,
      p = Outcome.ran <$> (rt.executeAuthorized (w.store.nextAttemptId + 1)
        (Authorization.execution run) ⟨run.certificate, run.record⟩).run ∧
      (act.passes (.object [])).Authorizes run ∧ Keeps w w')
      (Can.map (act.can_call (allows.quiet callText) fun run h' w' hrun keeps =>
        .stop (.stop ⟨run, rfl, hrun, keeps⟩)))
  exact ⟨c, _, run', run, hthreads, Nat.succ_ne_zero _, hrun, keeps⟩

/-- It calls the tool, with a token for what the tool requires. -/
theorem exists_executed (may : maySpawn ⟨w, [], []⟩ .runOnce) :
    ∃ c, Run rt.system w admits maySpawn c ∧
      c.threads = [⟨.runOnce, 0, .ret (.ran (.ok (.executed ⟨true⟩)))⟩] ∧
      ∃ (k : Nat) (e : Step) (definition : ToolDefinition) (arguments : Json)
        (tokens : List CapabilityToken), c.trace[k]? = some e ∧
        e.op = .executeTool definition arguments tokens ∧
        tokens.map CapabilityToken.capability = [.fileRead] := by
  obtain ⟨c, attemptId, run', run, hthreads, hattempt, hrun, keeps⟩ :=
    act.exists_authorized maySpawn allows may
  have can : Can (rt.system.Offers admits 0) (fun h _ p =>
      p = .ret (Outcome.ran (.ok (.executed ⟨true⟩))) ∧ ∃ definition arguments tokens,
        (⟨.executeTool definition arguments tokens, some ⟨true⟩⟩ : Event) ∈ h ∧
        tokens.map CapabilityToken.capability = [.fileRead]) (historyOf c.trace 0) c.world
      (Outcome.ran <$> (rt.executeAuthorized attemptId run'.execution
        ⟨run'.certificate, run'.record⟩).run) := by
    refine Can.map ((favours (allows.quiet callText)).can_execute rfl hrun rfl
      ((act.found _).of_keeps keeps) ?_ hattempt ?_ rfl
      fun tokens h' w' htokens hmem => .stop (.stop ⟨rfl, _, _, tokens, hmem, ?_⟩))
    · rw [keeps.semanticContext, hrun.validated]
      exact act.ready.context
    · rw [keeps.records, act.records]
      exact List.not_mem_nil
    · rw [htokens, hrun.tool]
      exact act.isReader.capabilities_eq
  obtain ⟨c', -, run'', moved, rfl, definition, arguments, tokens, hmem, htokens⟩ :=
    run.exists_moved (congrArg (·[0]?) hthreads) can
  obtain ⟨k, e, -, he, -, hev⟩ := exists_of_mem_historyOf hmem
  refine ⟨c', run'', ?_, k, e, definition, arguments, tokens, he, congrArg Prog.Event.op hev,
    htokens⟩
  rw [moved.threads_eq, hthreads]
  rfl

/-- A turn whose model ends with a final message gets to its acceptance. -/
theorem exists_answered (may : maySpawn ⟨w, [], []⟩ .runOnce) :
    ∃ c request attemptId, Run rt.system w admits maySpawn c ∧
      c.threads = [⟨.runOnce, 0,
        .ran <$> (rt.runFinal act.ready.observation attemptId ⟨"done"⟩).run⟩] ∧
      (⟨.generate request, .ok ⟨finalText⟩⟩ : Event) ∈ historyOf c.trace 0 ∧
      Keeps w c.world ∧ c.world.stepsConsumed = 1 ∧ c.world.store.nextAttemptId = attemptId ∧
      Adds w c.world attemptId .protocolAccepted := by
  obtain ⟨c, -, run, hthreads, -, request, rfl, hmem, keeps, hsteps, hnext, hadds⟩ :=
    Run.start.exists_spawned may (Q := fun h w' p => ∃ request,
      p = .ran <$> (rt.runFinal act.ready.observation (w.store.nextAttemptId + 1) ⟨"done"⟩).run ∧
      (⟨.generate request, .ok ⟨finalText⟩⟩ : Event) ∈ h ∧ Keeps w w' ∧
      w'.stepsConsumed = w.stepsConsumed + 1 ∧
      w'.store.nextAttemptId = w.store.nextAttemptId + 1 ∧
      Adds w w' (w.store.nextAttemptId + 1) .protocolAccepted)
      (Can.map (act.ready.can_final (favours (allows.quiet finalText)) rfl act.parse_final
        fun request h' w' hmem keeps hnext hadds hsteps =>
          .stop (.stop ⟨request, rfl, hmem, keeps, hsteps, hnext, hadds⟩)))
  rw [act.steps] at hsteps
  exact ⟨c, request, _, run, hthreads, hmem, keeps, hsteps, hnext, hadds⟩

/-- It is accepted. -/
theorem can_accept {t : Nat} {h : History} {w' : World} (keeps : Keeps w w') (attemptId : Nat) :
    Can (rt.system.Offers admits t) (fun h w'' p => p = .ret (Outcome.ran (.ok (.final ⟨"done"⟩))) ∧
      (⟨.appendForAttempt attemptId .finalProduced, .ok ()⟩ : Event) ∈ h ∧
      Keeps w' w'' ∧ Adds w' w'' attemptId .finalProduced) h w'
      (Outcome.ran <$> (rt.runFinal act.ready.observation attemptId ⟨"done"⟩).run) := by
  refine Can.map ((favours (allows.quiet finalText)).can_accept act.ready.usable ?_ ?_
    fun h' w'' hmem keeps hadds => .stop (.stop ⟨rfl, hmem, keeps, hadds⟩))
  · rw [keeps.kernel]
    change validateChain w.kernel act.ready.lease.certificate.leaseId _ _ _ = _
    rw [act.ready.isRoot]
    exact act.ready.valid
  · rw [keeps.semanticContext]
    exact act.ready.context

variable {maySpawn} in
/-- Where nothing has changed since the bootstrap, the root lease can be revoked. -/
theorem exists_revoked {c : SystemState} (run : Run rt.system w admits maySpawn c)
    (may : maySpawn c (.revoke "done")) (keeps : Keeps w c.world) :
    ∃ c' value op returned, Run rt.system w admits maySpawn c' ∧
      c'.threads = c.threads
        ++ [⟨.revoke "done", c.trace.length, .ret (.controlled (.ok value))⟩] ∧
      (∃ entries, c'.trace = c.trace ++ entries) ∧
      (⟨.kernelOp op, .ok returned⟩ : Event) ∈ historyOf c'.trace c.threads.length ∧
      (∃ s', c'.world = { c.world with kernel := s' }) ∧ Revoked w c'.world act.ready.lease := by
  have hlookup := act.lookup_of_kernel keeps.kernel
  have hid : act.ready.lease.certificate.leaseId = c.world.kernel.rootLeaseId := by
    rw [keeps.kernel]
    exact act.ready.isRoot
  obtain ⟨c', returned, s', run', hthreads, ⟨entries, htrace, -⟩, hmem, hworld, hroot, hself⟩ :=
    exists_revocation (favours (allows.quiet callText)) run may hlookup hid
      (by rw [act.active]; rfl) (allows.kernelOp callText _ _ keeps.kernel)
      (keeps.readers.trans act.readers)
  refine ⟨c', _, _, returned, run', hthreads, ⟨entries, htrace⟩, hmem, ⟨s', hworld⟩, ?_⟩
  rw [hworld]
  rw [keeps.kernel] at hroot hself
  exact ⟨hroot, hself⟩

omit allows in
/-- The root lease is paused, and then revoked. -/
theorem exists_paused_revoked : ∃ (c : SystemState) (value value' : R1Runtime.ControlReturn)
    (b : Nat), AnyRun rt w c ∧
    c.threads = [⟨.pause, 0, .ret (.controlled (.ok value))⟩,
      ⟨.revoke "done", b, .ret (.controlled (.ok value'))⟩] ∧
    ∀ (k : Nat) (e : Step), c.trace[k]? = some e → e.tid = 0 → k < b := by
  have hfavours := favours (act.allows_freshIds.quiet callText)
  have hlasts : start < act.ready.lease.certificate.expiresAt := by
    rw [act.expiresAt]
    decide
  -- the pause
  obtain ⟨s₁, hpause, hlookup₁⟩ := exists_pause act.ready.lookup act.active hlasts
  obtain ⟨_, -, -, -, -, -, hs₁⟩ := transition_eq_ok hpause
  have hroot₁ : s₁.rootLeaseId = w.kernel.rootLeaseId := by
    rw [hs₁]
    rfl
  let paused := act.ready.lease.withRecord (act.ready.lease.record.advance .paused)
  let pause : LeaseSnapshot → DateTime → KernelOp := fun active now =>
    .pause active.certificate.leaseId active.record.generation now
  have hexec :
      (pause act.ready.lease start).exec "2" w.kernel = .ok (.record paused.record) s₁ := by
    refine map_eq_ok.mpr ⟨_, ?_, rfl⟩
    rw [act.ready.isRoot]
    exact hpause
  have run₀ : AnyRun rt w ⟨w, [], []⟩ := .start
  obtain ⟨c₁, run₁, hthreads₁, -, -, hworld₁⟩ := exists_managed hfavours run₀ .pause trivial pause
    rfl act.ready.lookup (act.allows_freshIds.kernelOp callText w _ rfl) act.readers hexec
  -- the revocation
  have hkernel : c₁.world.kernel = s₁ := congrArg World.kernel hworld₁
  have hpaused : s₁.leases.lookup w.kernel.rootLeaseId = some paused := by
    rw [hlookup₁, if_pos rfl]
  have hlookup : c₁.world.kernel.leases.lookup c₁.world.kernel.rootLeaseId = some paused := by
    rw [hkernel, hroot₁]
    exact hpaused
  have fresh : FreshUuid c₁.world.kernel "2" := by
    intro id hid hmem
    refine act.fresh id hid ?_
    rw [hkernel, ← AList.lookup_isSome, hlookup₁] at hmem
    split at hmem
    · rename_i heq
      rw [heq]
      exact AList.mem_of_lookup act.ready.lookup
    · exact AList.lookup_isSome.mp hmem
  have hid : paused.certificate.leaseId = c₁.world.kernel.rootLeaseId := by
    rw [hkernel, hroot₁]
    exact act.ready.isRoot
  obtain ⟨c₂, _, _, run₂, hthreads₂, ⟨entries, htrace, htid⟩, -, -, -, -⟩ :=
    exists_revocation hfavours run₁ trivial hlookup hid rfl (by rintro _ -; exact fresh)
      (by rw [hworld₁]; exact act.readers)
  rw [hthreads₁] at hthreads₂ htid
  refine ⟨c₂, _, _, c₁.trace.length, run₂, hthreads₂, fun k e he hzero => ?_⟩
  by_contra hk
  rw [htrace, List.getElem?_append_right (not_lt.mp hk)] at he
  have hone := htid e (List.mem_of_getElem? he)
  rw [hzero] at hone
  cases hone

variable {maySpawn} in
/-- And it can be renewed. -/
theorem exists_renewed {c : SystemState} (run : Run rt.system w admits maySpawn c)
    (may : maySpawn c (.renew (start + Duration.minutes 5))) (keeps : Keeps w c.world) :
    ∃ c' value returned, Run rt.system w admits maySpawn c' ∧
      c'.threads = c.threads ++ [⟨.renew (start + Duration.minutes 5), c.trace.length,
        .ret (.controlled (.ok value))⟩] ∧
      (⟨.kernelOp act.renewing.op, .ok returned⟩ : Event)
        ∈ historyOf c'.trace c.threads.length := by
  have hreach : Reachable w.kernel := act.bootstrapped.reachable
  obtain ⟨renewedId, s', hrenew⟩ := act.mayRenew.succeeds subsetPreorder verifyingKeyRoundTrip
    hreach act.custodians
  obtain ⟨renewal, rfl, rfl⟩ := renew_eq_ok hrenew
  have hexec : act.renewing.op.exec "2" c.world.kernel = .ok (.lease renewal.renewedId)
      renewal.post := by
    rw [keeps.kernel]
    exact map_eq_ok.mpr ⟨_, hrenew, rfl⟩
  have hlookup := act.lookup_of_kernel keeps.kernel
  have hrefresh : c.world.registry.refreshCapabilityManifest act.ready.lease.manifest
      = .ok act.ready.lease.manifest := by
    rw [keeps.registry, act.registry_eq]
    exact act.binds.refresh
  have hcontext : c.world.semanticContext.canonicalDigest
      = .ok act.ready.validated.semanticContextDigest := by
    rw [keeps.semanticContext]
    exact act.ready.context
  have hfavours := favours (allows.quiet callText)
  obtain ⟨c', p, run', hthreads, -, rfl, hmem⟩ :=
    run.exists_spawned may (Q := fun h w' p =>
      p = .ret (.controlled (.ok (.snapshot renewal.entry))) ∧
      (⟨.kernelOp act.renewing.op, .ok (.lease renewal.renewedId)⟩ : Event) ∈ h)
      (Can.map (by
        unfold R1Runtime.renew
        refine hfavours.activeLeaseE hlookup fun h' => ?_
        refine Can.callE (hfavours.offers rfl (congrArg (·, c.world) hrefresh)) rfl ?_
        refine Can.opE (hfavours.offers rfl rfl) (Can.ofResultE hcontext ?_)
        refine Can.opE (hfavours.offers rfl rfl) (Can.bindE ?_)
        refine can_kernelOp
          (allows.kernelOp callText _ act.renewing.op keeps.kernel)
          (keeps.readers.trans act.readers) hexec (.stop ⟨_, rfl, ?_⟩)
        refine Can.bindE (Can.op (hfavours.offers rfl rfl) (Can.ofResult_lastE (.stop
          ⟨renewal.entry, congrArg Prog.ret (orReject_eq_ok.mpr renewal.lookup_renewed), ?_⟩)))
        exact .stop (.stop ⟨rfl, by simp⟩)))
  exact ⟨c', _, _, run', hthreads, hmem⟩

/-- A turn whose lease is revoked before it accepts its final message fails. -/
theorem exists_refused (may : maySpawn ⟨w, [], []⟩ .runOnce)
    (may' : ∀ c, maySpawn c (.revoke "done")) :
    ∃ c error value b request attemptId, Run rt.system w admits maySpawn c ∧
      c.threads = [⟨.runOnce, 0, .ret (.ran (.error error))⟩,
        ⟨.revoke "done", b, .ret (.controlled (.ok value))⟩] ∧
      (⟨.generate request, .ok ⟨finalText⟩⟩ : Event) ∈ historyOf c.trace 0 ∧
      (⟨.appendForAttempt attemptId (.finalRejected error.code), .ok ()⟩ : Event)
        ∈ historyOf c.trace 0 := by
  obtain ⟨c₁, request, attemptId, run₁, hthreads₁, hmem, keeps, -⟩ :=
    act.exists_answered maySpawn allows may
  obtain ⟨c₂, value, -, -, run₂, hthreads₂, ⟨entries, htrace⟩, -, -, revoked⟩ :=
    act.exists_revoked allows run₁ (may' c₁) keeps
  rw [hthreads₁] at hthreads₂
  obtain ⟨error, hinvalid⟩ := revoked.exists_error (some act.ready.lease.record.generation)
    act.ready.lease.manifest
  rw [← act.ready.isRoot] at hinvalid
  have can : Can (rt.system.Offers admits 0) (fun h _ p => p = .ret (Outcome.ran (.error error)) ∧
      (⟨.appendForAttempt attemptId (.finalRejected error.code), .ok ()⟩ : Event) ∈ h)
      (historyOf c₂.trace 0) c₂.world
      (Outcome.ran <$> (rt.runFinal act.ready.observation attemptId ⟨"done"⟩).run) :=
    Can.map ((favours (allows.quiet finalText)).can_refuse act.ready.usable hinvalid
      fun h' w' hmem => .stop (.stop ⟨rfl, hmem⟩))
  obtain ⟨c₃, -, run₃, moved, rfl, hrejected⟩ :=
    run₂.exists_moved (congrArg (·[0]?) hthreads₂) can
  refine ⟨c₃, error, value, c₁.trace.length, request, attemptId, run₃, ?_, ?_, hrejected⟩
  · rw [moved.threads_eq, hthreads₂]
    rfl
  · refine (moved.history_mono 0).subset ?_
    rw [htrace, historyOf_append]
    exact List.mem_append_left _ hmem

/-- A turn whose lease is revoked before it executes its action does not call the tool; a turn
    that is started then does not call the model. -/
theorem exists_rejected (may : ∀ c, maySpawn c .runOnce) (may' : ∀ c, maySpawn c (.revoke "done")) :
    ∃ c error error' value b b' attemptId, Run rt.system w admits maySpawn c ∧
      c.threads = [⟨.runOnce, 0, .ret (.ran (.error error))⟩,
        ⟨.revoke "done", b, .ret (.controlled (.ok value))⟩,
        ⟨.runOnce, b', .ret (.ran (.error error'))⟩] ∧
      (∃ (k : Nat) (e : Step) (op : KernelOp) (returned : KernelReturn), k < b' ∧
        c.trace[k]? = some e ∧ e.tid = 1 ∧ e.event = ⟨.kernelOp op, .ok returned⟩) ∧
      (∃ record, (⟨.insertAuthorization attemptId record, .ok ()⟩ : Event)
        ∈ historyOf c.trace 0) ∧
      (⟨.appendForAttempt attemptId (.executionRejectedBeforeNexus error.code), .ok ()⟩ : Event)
        ∈ historyOf c.trace 0 := by
  have hfavours := favours (allows.quiet callText)
  obtain ⟨c₁, attemptId, run', run₁, hthreads₁, hattempt, hrun, keeps⟩ :=
    act.exists_authorized maySpawn allows (may _)
  obtain ⟨c₂, value, op, returned, run₂, hthreads₂, -, hdone, ⟨s', hworld⟩, revoked⟩ :=
    act.exists_revoked allows run₁ (may' c₁) keeps
  rw [hthreads₁] at hthreads₂ hdone
  -- the turn that was about to execute its action
  obtain ⟨error, hinvalid⟩ := revoked.exists_error (some act.ready.lease.record.generation)
    act.ready.lease.manifest
  have hnew : run'.record.recordId
      ∉ c₂.world.store.authorizationRecords.map AuthorizationRecord.recordId := by
    rw [hworld]
    change _ ∉ c₁.world.store.authorizationRecords.map _
    rw [keeps.records, act.records]
    exact List.not_mem_nil
  have hregistry : c₂.world.registry = w.registry := by
    rw [hworld]
    exact keeps.registry
  have can : Can (rt.system.Offers admits 0) (fun h w' p =>
      p = .ret (Outcome.ran (.error error)) ∧ w'.kernel = c₂.world.kernel ∧
      (⟨.insertAuthorization attemptId run'.record, .ok ()⟩ : Event) ∈ h ∧
      (⟨.appendForAttempt attemptId (.executionRejectedBeforeNexus error.code), .ok ()⟩ : Event)
        ∈ h) (historyOf c₂.trace 0) c₂.world
      (Outcome.ran <$> (rt.executeAuthorized attemptId run'.execution
        ⟨run'.certificate, run'.record⟩).run) :=
    Can.map (hfavours.can_reject hrun (act.found _) hregistry hattempt hnew hinvalid
      fun h' w' hkernel hinserted hmem => .stop (.stop ⟨rfl, hkernel, hinserted, hmem⟩))
  obtain ⟨c₃, -, run₃, moved, rfl, hkernel, hinserted, hrejected⟩ :=
    run₂.exists_moved (congrArg (·[0]?) hthreads₂) can
  have hthreads₃ : c₃.threads = [⟨.runOnce, 0, .ret (.ran (.error error))⟩,
      ⟨.revoke "done", c₁.trace.length, .ret (.controlled (.ok value))⟩] := by
    rw [moved.threads_eq, hthreads₂]
    rfl
  -- the turn that is started after the revocation
  have hroot : c₃.world.kernel.rootLeaseId = w.kernel.rootLeaseId := by
    rw [hkernel]
    exact revoked.root_eq
  have hlookup : c₃.world.kernel.leases.lookup c₃.world.kernel.rootLeaseId
      = some (act.ready.lease.withRecord (act.ready.lease.record.revoke "done" start)) := by
    rw [hroot, hkernel]
    exact revoked.lookup
  obtain ⟨error', hinvalid'⟩ := revoked.exists_error
    (some (act.ready.lease.record.revoke "done" start).generation) act.ready.lease.manifest
  rw [← hkernel, ← act.ready.isRoot] at hinvalid'
  obtain ⟨c₄, -, run₄, hthreads₄, ⟨entries, htrace, -⟩, rfl⟩ :=
    run₃.exists_spawned (may c₃) (Q := fun _ _ p => p = .ret (Outcome.ran (.error error')))
      (Can.map (hfavours.can_turnAway act.ready.usable hlookup act.ready.isBound hinvalid'
        fun h' => .stop (.stop rfl)))
  rw [hthreads₃] at hthreads₄
  have hkept : historyOf c₃.trace 0 <+: historyOf c₄.trace 0 := by
    rw [htrace, historyOf_append]
    exact List.prefix_append _ _
  obtain ⟨k, e, hk, he, htid, hev⟩ :=
    exists_of_mem_historyOf ((moved.history_mono 1).subset hdone)
  refine ⟨c₄, error, error', value, c₁.trace.length, c₃.trace.length, attemptId, run₄, hthreads₄,
    ⟨k, e, op, returned, hk, ?_, htid, hev⟩, ⟨_, hkept.subset hinserted⟩, hkept.subset hrejected⟩
  rw [htrace, List.getElem?_append_left hk]
  exact he

/-- While a turn holds the kernel to accept its final message, a revocation has to wait. -/
theorem exists_contended (may : maySpawn ⟨w, [], []⟩ .runOnce)
    (may' : ∀ c, maySpawn c (.revoke "done")) :
    ∃ c p b op k, Run rt.system w admits maySpawn c ∧
      c.threads = [⟨.runOnce, 0, p⟩, ⟨.revoke "done", b, .op (.kernelOp op) k⟩] ∧
      0 ∈ c.world.kernelReaders := by
  obtain ⟨c₁, -, attemptId, run₁, hthreads₁, -, keeps, -⟩ := act.exists_answered maySpawn allows may
  have hvalid : validateChain c₁.world.kernel act.ready.lease.certificate.leaseId
      (some act.ready.lease.record.generation) act.ready.lease.manifest start
      = .ok act.ready.validated := by
    rw [keeps.kernel, act.ready.isRoot]
    exact act.ready.valid
  obtain ⟨c₂, p, run₂, moved, hreader, hkernel⟩ := run₁.exists_moved (congrArg (·[0]?) hthreads₁)
    (Q := fun _ w' _ => 0 ∈ w'.kernelReaders ∧ w'.kernel = c₁.world.kernel)
    (Can.map (((favours (allows.quiet finalText)).can_hold act.ready.usable hvalid).mono
      fun _ _ _ held => .stop held))
  have hlookup := act.lookup_of_kernel (hkernel.trans keeps.kernel)
  obtain ⟨c₃, -, run₃, hthreads₃, -, ⟨op, k, rfl⟩, hreader'⟩ := run₂.exists_spawned (may' c₂)
    (Q := fun _ w' p => (∃ op k, p = .op (.kernelOp op) k) ∧ 0 ∈ w'.kernelReaders)
    (Can.map ((favours (allows.quiet callText)).can_manage hlookup revocation
      fun h' => .stop (.stop ⟨⟨_, _, rfl⟩, hreader⟩)))
  refine ⟨c₃, p, c₂.trace.length, op, k, run₃, ?_, hreader'⟩
  rw [hthreads₃, moved.threads_eq, hthreads₁]
  rfl

/-- While a turn is about to have its final message accepted, another one has it accepted; then
    the first one has it accepted, too. -/
theorem exists_overtaken (may : ∀ c, maySpawn c .runOnce) :
    ∃ c c' : SystemState, Run rt.system w admits maySpawn c ∧ Run rt.system w admits maySpawn c' ∧
      (∃ p b, c.threads = [⟨.runOnce, 0, p⟩, ⟨.runOnce, b, .ret (.ran (.ok (.final ⟨"done"⟩)))⟩] ∧
        c'.threads = [⟨.runOnce, 0, .ret (.ran (.ok (.final ⟨"done"⟩)))⟩,
          ⟨.runOnce, b, .ret (.ran (.ok (.final ⟨"done"⟩)))⟩]) ∧
      ∃ n e e₁ e₂, c.world.store.events = w.store.events ++ [e, e₁, e₂] ∧
        e.attemptId = some n ∧ e.kind = .protocolAccepted ∧
        e₁.attemptId = some (n + 1) ∧ e₁.kind = .protocolAccepted ∧
        e₂.attemptId = some (n + 1) ∧ e₂.kind = .finalProduced := by
  obtain ⟨c₁, -, n, run₁, hthreads₁, -, keeps, hsteps, rfl, e, he, hid, hkind⟩ :=
    act.exists_answered maySpawn allows (may _)
  have hleft : c₁.world.stepsConsumed < rt.spec.resourceBudget.maxSteps := by
    rw [hsteps, act.rt_eq]
    decide
  let n := c₁.world.store.nextAttemptId
  obtain ⟨c₂, -, run₂, hthreads₂, -, rfl, keeps₂, w', ⟨e₁, he₁, hid₁⟩, e₂, he₂, hid₂⟩ :=
    run₁.exists_spawned (may c₁) (Q := fun _ w'' p =>
      p = .ret (Outcome.ran (.ok (.final ⟨"done"⟩))) ∧ Keeps w w'' ∧
      ∃ w', Adds c₁.world w' (n + 1) .protocolAccepted ∧ Adds w' w'' (n + 1) .finalProduced)
      (Can.map ((act.ready.of_keeps keeps hleft).can_final (favours (allows.quiet finalText)) rfl
        act.parse_final fun request h' w' hmem keeps' hnext hadds hsteps =>
          .stop ((act.can_accept allows (keeps.trans keeps') _).mono
            fun h'' w'' p ⟨hp, _, keeps'', hadds'⟩ =>
              ⟨hp, (keeps.trans keeps').trans keeps'', w', hadds, hadds'⟩)))
  rw [hthreads₁] at hthreads₂
  obtain ⟨c₃, -, run₃, moved, rfl, -⟩ := run₂.exists_moved (congrArg (·[0]?) hthreads₂)
    (act.can_accept allows keeps₂ n)
  refine ⟨c₂, c₃, run₂, run₃, ⟨_, _, hthreads₂, ?_⟩, n, e, e₁, e₂, ?_, hid, hkind, hid₁.1, hid₁.2,
    hid₂.1, hid₂.2⟩
  · rw [moved.threads_eq, hthreads₂]
    rfl
  · rw [he₂, he₁, he, List.append_assoc, List.append_assoc]
    rfl

omit allows in
/-- An action is authorized, its lease is revoked, and then its execution fails before Nexus. -/
theorem exists_blocked : ∃ (c : SystemState) (request : AuthorizeRequest)
    (run : Authorization request) (artifact : R1AuthorizationArtifact)
    (value : R1Runtime.ControlReturn) (b b' : Nat) (error : RuntimeError), AnyRun rt w c ∧
    c.threads = [⟨.authorize request, 0, .ret (.authorized (.ok (run.execution, artifact)))⟩,
      ⟨.revoke "done", b, .ret (.controlled (.ok value))⟩,
      ⟨.execute run.execution 1, b', .ret (.executed (.error ⟨error, .beforeNexus⟩))⟩] ∧
    b' ≤ c.trace.length ∧ request.leaseId = w.kernel.rootLeaseId ∧
    Revoked w (c.worldAt b') act.ready.lease := by
  have hfavours := favours (act.allows_freshIds.quiet callText)
  let request :=
    rt.authorizeRequest w.kernel.rootLeaseId w.semanticContext ⟨toolId, .object []⟩ start
  have found := act.found (.object [])
  -- the authorization
  have run₀ : AnyRun rt w ⟨w, [], []⟩ := .start
  obtain ⟨c₁, -, run₁, hthreads₁, -, authorization, rfl, hrun, hworld₁⟩ :=
    run₀.exists_spawned (show MayStart _ (.authorize request) from trivial)
      (Q := fun _ w' p => ∃ run, p = .ret (.authorized (.ok (Authorization.execution run,
        ⟨run.certificate, run.record⟩))) ∧ (act.passes (.object [])).Authorizes run ∧ w' = w)
      (Can.map (hfavours.can_authorize found rfl rfl
        fun run h' hrun => .stop (.stop ⟨run, rfl, hrun, rfl⟩)))
  -- the revocation
  have keeps : Keeps w c₁.world := by
    rw [hworld₁]
    exact .refl w
  obtain ⟨c₂, value, -, -, run₂, hthreads₂, -, -, ⟨s', hworld₂⟩, revoked⟩ :=
    act.exists_revoked act.allows_freshIds run₁ trivial keeps
  rw [hthreads₁] at hthreads₂
  -- the execution
  obtain ⟨error, hinvalid⟩ := revoked.exists_error (some act.ready.lease.record.generation)
    act.ready.lease.manifest
  have hregistry : c₂.world.registry = w.registry := by
    rw [hworld₂, hworld₁]
  obtain ⟨c₃, -, run₃, hthreads₃, ⟨entries, htrace, -⟩, rfl⟩ := run₂.exists_spawned
    (show MayStart _ (.execute authorization.execution 1) from
      ⟨0, _, _, congrArg (·[0]?) hthreads₂, rfl⟩)
    (Q := fun _ _ p => p = .ret (.executed (.error ⟨error, .beforeNexus⟩)))
    (Can.map (hfavours.can_block hrun found hregistry hinvalid fun h' _ => .stop (.stop rfl)))
  rw [hthreads₂] at hthreads₃
  refine ⟨c₃, request, authorization, _, value, c₁.trace.length, c₂.trace.length, error, run₃,
    hthreads₃, ?_, rfl, ?_⟩
  · rw [htrace, List.length_append]
    exact Nat.le_add_right _ _
  · rw [run₂.worldAt_congr run₃ le_rfl (by rw [htrace, List.take_left', List.take_length]; rfl),
      Run.worldAt_length]
    exact revoked

omit allows in
/-- The tool is replaced before the gate reads the registry. -/
theorem exists_drifted {tool' : RegisteredTool} (htool : tool'.manifest.toolId = toolId) :
    ∃ (c : SystemState) (b r : Nat) (e : Step) (request : AuthorizeRequest)
      (p : Prog Op Op.Resp Outcome), AnyRun rt w c ∧
      c.threads = [⟨.replaceTool tool', 0, .ret (.controlled (.ok .done))⟩,
        ⟨.authorize request, b, p⟩] ∧
      request.leaseId = w.kernel.rootLeaseId ∧ c.trace[r]? = some e ∧ e.tid = 1 ∧
      historyOf (c.trace.take r) 1 = [⟨.leaseSnapshot request.leaseId, .ok act.ready.lease⟩] ∧
      (c.worldAt r).registry = [tool'] := by
  have hfavours := favours (act.allows_freshIds.quiet callText)
  let request :=
    rt.authorizeRequest w.kernel.rootLeaseId w.semanticContext ⟨toolId, .object []⟩ start
  have hreplace : w.registry.replace tool' = .ok [tool'] := by
    simp [act.registry_eq, ToolRegistry.replace, orReject, act.isReader.toolId_eq, htool]
    rfl
  have hstep : Op.exec 0 (.replaceTool tool') (input callText) w
      = (.ok (), { w with registry := [tool'] }) := by
    simp only [Op.exec, hreplace]
  have run₀ : AnyRun rt w ⟨w, [], []⟩ := .start
  obtain ⟨c₁, -, run₁, hthreads₁, -, rfl, hworld₁⟩ := run₀.exists_spawned
    (show MayStart _ (.replaceTool tool') from trivial)
    (Q := fun _ w' p => p = .ret (.controlled (.ok .done)) ∧ w' = { w with registry := [tool'] })
    (Can.map (Can.opE (hfavours.offers rfl hstep) (.stop (.stop ⟨rfl, rfl⟩))))
  have hsnapshot : c₁.world.leaseSnapshot request.leaseId = .ok act.ready.lease := by
    rw [hworld₁]
    exact act.ready.snapshot_eq
  have pass := act.passes (.object [])
  obtain ⟨c₂, -, run₂, hthreads₂, -, hhist₂, ⟨o, k, rfl, hquiet⟩, hregistry₂⟩ :=
    run₁.exists_spawned (show MayStart _ (.authorize request) from trivial)
      (Q := fun h w' p => h = [⟨.leaseSnapshot request.leaseId, .ok act.ready.lease⟩] ∧
        (∃ o k, p = .op o k ∧ o.waits = false) ∧ w'.registry = [tool'])
      (Can.map (by
        unfold ActionGate.authorize
        refine Can.rejectIfE pass.not_ended (Can.rejectIfE (not_not.mpr pass.toolAllowed) ?_)
        refine Can.callE (hfavours.offers rfl (congrArg (·, c₁.world) hsnapshot)) rfl ?_
        exact .stop (.stop ⟨rfl, ⟨_, _, rfl, rfl⟩, by rw [hworld₁]⟩)))
  rw [hthreads₁] at hthreads₂ hhist₂
  refine ⟨_, c₁.trace.length, c₂.trace.length, _, request,
    k (rt.system.exec 1 o (input callText) c₂.world).1,
    run₂.step 1 _ o k (input callText) (congrArg (·[1]?) hthreads₂) rfl
      (Op.enabled_of_not_waits (t := 1) hquiet) (act.allows_freshIds.quiet _ _ _ hquiet),
    ?_, rfl, List.getElem?_concat_length, rfl, ?_, ?_⟩
  · simp only [Config.step, hthreads₂]
    rfl
  · simp only [Config.step]
    rw [List.take_left' rfl]
    exact hhist₂
  · simp only [Config.step, Config.worldAt, List.getElem?_concat_length]
    exact hregistry₂

end Activated

end Reference

end GenesisRuntime
