import WirelessGateway.Answering
import WirelessGateway.Forwarding
import WirelessGateway.Requests

namespace WirelessGateway.Steps

open CJson WirelessGateway.Types Memory WsServer Transport Worker Tasks Buffers Sends WellFormed
open SoftSteps Lifecycle Operations Forwarding Answering Requests Lib.Linked Lib.Fallible Lib.Runs

variable {P : Platform} {G : Guard} {s t : Server} {p : CallPtr} {c : ApiCall}

/-- The item that a broadcast goes on with: it has passed no target that is
still waiting. -/
def BroadcastAt (s : Server) (fid : UInt32) : Option CallPtr → Prop
  | none => ∀ z ∈ s.pxWsApiWaitingForResponse, isTarget s fid z = false
  | some p => p ∈ s.pxWsApiWaitingForResponse ∧ (∀ c, s.calls p = some c → c.ulFid = fid) ∧
      ∀ z ∈ before p s.pxWsApiWaitingForResponse, isTarget s fid z = false

/-- What the worker relies on between two micro-steps. -/
def PcOk (s : Server) : WorkerPc → Prop
  | .serveCalls item => s.handling = none ∧ ∀ p, item = some p → p ∈ s.pxWsApiCall
  | .serveWaiting item => s.handling = none ∧ ∀ p, item = some p → p ∈ s.pxWsApiWaitingForResponse
  | .forward item => s.handling = none ∧ ForwardAt s item
  | .taken r => s.handling = some r
  | .broadcast r it => s.handling = some r ∧ r.msg.id = 0 ∧ BroadcastAt s r.msg.fid it
  | .idle | .served | .receive => s.handling = none

structure Inv (x : System) : Prop where
  sound : Sound x.srv
  pc : PcOk x.srv x.worker

structure Still (s t : Server) : Prop where
  calls : t.calls = s.calls
  lists : t.pxWsApiCall = s.pxWsApiCall
  waiting : t.pxWsApiWaitingForResponse = s.pxWsApiWaitingForResponse
  handling : t.handling = s.handling

theorem Still.refl (s : Server) : Still s s := ⟨rfl, rfl, rfl, rfl⟩

theorem Still.trans {u : Server} (h : Still s t) (h' : Still t u) : Still s u :=
  ⟨h'.calls.trans h.calls, h'.lists.trans h.lists, h'.waiting.trans h.waiting,
    h'.handling.trans h.handling⟩

theorem Still.pc (h : Still s t) {pc : WorkerPc} (hpc : PcOk s pc) : PcOk t pc := by
  have htarget : ∀ fid z, isTarget t fid z = isTarget s fid z := by
    intro fid z
    rw [isTarget, h.calls, isTarget]
  cases pc with
  | idle => exact h.handling.trans hpc
  | served => exact h.handling.trans hpc
  | receive => exact h.handling.trans hpc
  | taken r => exact h.handling.trans hpc
  | serveCalls item =>
      refine ⟨h.handling.trans hpc.1, ?_⟩
      rw [h.lists]
      exact hpc.2
  | serveWaiting item =>
      refine ⟨h.handling.trans hpc.1, ?_⟩
      rw [h.waiting]
      exact hpc.2
  | forward item =>
      refine ⟨h.handling.trans hpc.1, ?_⟩
      unfold ForwardAt
      rw [h.lists, h.calls]
      exact hpc.2
  | broadcast r it =>
      refine ⟨h.handling.trans hpc.1, hpc.2.1, ?_⟩
      cases it with
      | none =>
          intro z hz
          rw [htarget]
          exact hpc.2.2 z (h.waiting ▸ hz)
      | some p =>
          obtain ⟨hp, hfid, hb⟩ := hpc.2.2
          refine ⟨h.waiting ▸ hp, h.calls ▸ hfid, ?_⟩
          intro z hz
          rw [htarget]
          exact hb z (h.waiting ▸ hz)

theorem pc_of_unlocked (h : t.handling = s.handling) {pc : WorkerPc} (hpc : PcOk s pc)
    (hl : pc.locked = false) : PcOk t pc := by
  cases pc with
  | idle => exact h.trans hpc
  | served => exact h.trans hpc
  | receive => exact h.trans hpc
  | taken r => exact h.trans hpc
  | serveCalls item => cases hl
  | serveWaiting item => cases hl
  | forward item => cases hl
  | broadcast r it => cases hl

def idTarget (s : Server) (id : UInt32) (p : CallPtr) : Bool :=
  (s.calls p).any (fun c => c.ulId == id && c.session.isSome)

theorem idTarget_iff {id : UInt32} : idTarget s id p = true ↔
    ∃ c, s.calls p = some c ∧ c.ulId = id ∧ c.session.isSome := by
  cases hc : s.calls p with
  | none => simp [idTarget, hc]
  | some c => simp [idTarget, hc]

theorem bCallIdMatch_eq (hc : s.calls p = some c) (id : UInt32) :
    bCallIdMatch id s p = .ok (idTarget s id p) := by
  simp [bCallIdMatch, call_eq hc, idTarget, hc]

def Answers (G : Guard) (s : Server) (p : CallPtr) (r : Reply) (env : WorkerEnv) : Prop :=
  ∀ s', Soft s s' → G.respond s' p r ∧
    (r.msg.len ≠ 0 → delivered s' p env.reply = true → G.data s' p r)

def picked (s : Server) (id : UInt32) : Option CallPtr :=
  s.pxWsApiWaitingForResponse.find? (idTarget s id)

def answering (x : System) : Option (Reply × CallPtr) :=
  match x.worker with
  | .taken r => if r.msg.id = 0 then none else (picked x.srv r.msg.id).map (fun p => (r, p))
  | .broadcast r (some p) => some (r, p)
  | _ => none

theorem answering_worker {x : System} {r : Reply} (h : answering x = some (r, p)) :
    (x.worker = .taken r ∧ r.msg.id ≠ 0 ∧ picked x.srv r.msg.id = some p) ∨
      x.worker = .broadcast r (some p) := by
  unfold answering at h
  split at h
  next r' hw =>
    split_ifs at h with hid
    obtain ⟨q, hq, he⟩ := Option.map_eq_some_iff.1 h
    cases he
    exact .inl ⟨hw, hid, hq⟩
  next r' q hw =>
    cases h
    exact .inr hw
  next => cases h

/-- What is assumed of a step, in the state before it. -/
def Allows (P : Platform) (G : Guard) (x : System) : Label → Prop
  | .worker env => (∀ r p, answering x = some (r, p) → Answers G x.srv p r env) ∧
      ∀ p, x.worker = .forward (some p) → wouldStall x.srv p env = true → G.stall x.srv p
  | .text env => ∀ conn data json sid, x.httpd = .text conn data →
      textAccepts P x.srv ((x.srv.conns conn).bind Conn.userData) data env = some json →
      frameNumber json ['S', 'I', 'D'] = some sid → G.accept x.srv sid
  | .periphAnswer q _ | .periphPublish q _ => ∀ r, (x.srv.periph q).busy = some r →
      workerQueueDepth ≤ x.srv.xWsWorkerQueue.length → G.drop x.srv r
  | .periphDrop q => ∀ r, (x.srv.periph q).busy = some r → G.drop x.srv r
  | _ => True

theorem respond_does (hs : Sound s) (hp : p ∈ s.pxWsApiWaitingForResponse) {r : Reply}
    (hr : s.handling = some r)
    (hmatch : ∀ c, s.calls p = some c → if r.msg.id = 0 then c.ulFid = r.msg.fid else c.ulId = r.msg.id)
    (env : WorkerEnv) (hG : Answers G s p r env) :
    Returns (respond s p r env) (fun t => Does P G s t ∧
      t.pxWsApiWaitingForResponse = s.pxWsApiWaitingForResponse.erase p ∧
      (∀ z ≠ p, ∀ fid, isTarget s fid z = false → isTarget t fid z = false) ∧
      ∀ z ≠ p, ∀ d, t.calls z = some d → ∃ c, s.calls z = some c ∧ Weaker c d) := by
  apply (respond_returns hs hp r env).mono
  rintro t ⟨s', d, m, hsoft, hd, hm, hp', rfl, -⟩
  have hsoft' := hsoft.trans (.withNet s' m)
  obtain ⟨hresp, hdata⟩ := hG _ hsoft'
  obtain ⟨c, hc, hw⟩ := hsoft.call_back hd
  have hm' : if r.msg.id = 0 then d.ulFid = r.msg.fid else d.ulId = r.msg.id := by
    rw [hw.fid, hw.id]
    exact hmatch c hc
  refine ⟨?_, ?_, ?_, ?_⟩
  · refine Act.after hsoft' (.respond hp' hd (hsoft'.handling.trans hr) hm' hdata hresp) ?_
      (answered_messages ..).handling
    rw [answered_net]
    exact hm
  · rw [answered_waiting]
    exact congrArg (fun l => l.erase p) hsoft.waiting
  · intro z hz fid hfalse
    have := isTarget_soft hsoft hfalse
    rwa [isTarget, answered_calls_ne r env.reply hz]
  · intro z hz e he
    rw [answered_calls_ne r env.reply hz] at he
    exact hsoft.call_back he

theorem picked_some {id : UInt32} (hs : WF s) (h : picked s id = some p) :
    p ∈ s.pxWsApiWaitingForResponse ∧ ∃ c, s.calls p = some c ∧ c.ulId = id := by
  have hp := List.mem_of_find?_eq_some h
  obtain ⟨c, hc⟩ := hs.call_of_mem (.inr hp)
  have := List.find?_some h
  simp only [idTarget, hc, Option.any_some, Bool.and_eq_true, beq_iff_eq] at this
  exact ⟨hp, c, hc, this.1⟩

theorem findFirst_id (hs : WF s) (id : UInt32) :
    findFirst (bCallIdMatch id s) s.pxWsApiWaitingForResponse = .ok (picked s id) := by
  apply findFirst_ok
  intro p hp
  obtain ⟨c, hc⟩ := hs.call_of_mem (.inr hp)
  exact bCallIdMatch_eq hc id

theorem findFirst_fid (hs : WF s) (fid : UInt32) :
    findFirst (bCallFidMatch fid s) s.pxWsApiWaitingForResponse =
      .ok (s.pxWsApiWaitingForResponse.find? (isTarget s fid)) := by
  apply findFirst_ok
  intro p hp
  obtain ⟨c, hc⟩ := hs.call_of_mem (.inr hp)
  exact bCallFidMatch_eq hc fid

theorem isTarget_fid {fid : UInt32} (h : isTarget s fid p = true) :
    ∀ c, s.calls p = some c → c.ulFid = fid := by
  intro c hc
  rw [isTarget_eq hc] at h
  simp only [Bool.and_eq_true, beq_iff_eq] at h
  exact h.1

theorem BroadcastAt.start (s : Server) (fid : UInt32) :
    BroadcastAt s fid (s.pxWsApiWaitingForResponse.find? (isTarget s fid)) := by
  cases hf : s.pxWsApiWaitingForResponse.find? (isTarget s fid) with
  | none =>
      intro z hz
      simpa using List.find?_eq_none.1 hf z hz
  | some p =>
      exact ⟨List.mem_of_find?_eq_some hf, isTarget_fid (List.find?_some hf),
        fun z hz => find?_before hf hz⟩

theorem BroadcastAt.next {fid : UInt32} (hs : WF s) (h : BroadcastAt s fid (some p))
    (hw : t.pxWsApiWaitingForResponse = s.pxWsApiWaitingForResponse.erase p)
    (hstay : ∀ z ≠ p, ∀ fid, isTarget s fid z = false → isTarget t fid z = false)
    (hcalls : ∀ z ≠ p, ∀ d, t.calls z = some d → ∃ c, s.calls z = some c ∧ Weaker c d) :
    BroadcastAt t fid ((after p s.pxWsApiWaitingForResponse).find? (isTarget s fid)) := by
  obtain ⟨hp, -, hbefore⟩ := h
  have hn := (List.nodup_append.1 hs.nodup).2.1
  cases hf : (after p s.pxWsApiWaitingForResponse).find? (isTarget s fid) with
  | none =>
      intro z hz
      rw [hw, hn.mem_erase_iff] at hz
      refine hstay z hz.1 fid ?_
      rcases (mem_iff_before_after hp).1 hz.2 with hz' | hz' | hz'
      · exact hbefore z hz'
      · exact absurd hz' hz.1
      · simpa using List.find?_eq_none.1 hf z hz'
  | some n =>
      have hmem := List.mem_of_find?_eq_some hf
      have hne := ne_of_mem_after hn hmem
      refine ⟨?_, ?_, fun z hz => ?_⟩
      · rw [hw]
        exact (List.mem_erase_of_ne hne).2 (mem_of_mem_after hmem)
      · intro d hd
        obtain ⟨c, hc, hwk⟩ := hcalls n hne d hd
        rw [hwk.fid]
        exact isTarget_fid (List.find?_some hf) c hc
      · rw [hw, before_erase_after hn hp hmem, List.mem_append] at hz
        rcases hz with hz | hz
        · refine hstay z ?_ fid (hbefore z hz)
          rintro rfl
          exact not_mem_before _ _ hz
        · exact hstay z (ne_of_mem_after hn (mem_of_mem_before hz)) fid (find?_before hf hz)

theorem handled_does (hs : Sound s) {r : Reply} (h : Does P G s t) (hr : t.handling = some r)
    (hnone : (∀ p ∈ t.pxWsApiWaitingForResponse, ∀ c, t.calls p = some c → c.session.isSome →
        if r.msg.id = 0 then c.ulFid ≠ r.msg.fid else c.ulId ≠ r.msg.id) ∨
      ∃ s' p, G.respond s' p r ∧ p ∉ t.pxWsApiWaitingForResponse ∧ r.msg.id ≠ 0) :
    Acts P G s (t.handled r) ∧ Sound (t.handled r) ∧ PcOk (t.handled r) .receive :=
  ⟨h.acts.tail (.handled hr hnone), ⟨(h.sound hs).wf.same rfl rfl rfl rfl rfl rfl rfl rfl,
    (h.sound hs).net⟩, rfl⟩

theorem worker_does (hs : Sound s) (h : Does P G s t) {pc : WorkerPc} (hpc : PcOk t pc) :
    Acts P G s t ∧ Sound t ∧ PcOk t pc := ⟨h.acts, h.sound hs, hpc⟩

theorem workerStep_does (hs : Sound s) {pc : WorkerPc} (hpc : PcOk s pc) {h : HttpdPc}
    (env : WorkerEnv) (hG : Allows P G ⟨s, pc, h⟩ (.worker env)) :
    Returns (workerStep s pc env) (fun r => Acts P G s r.1 ∧ Sound r.1 ∧ PcOk r.1 r.2) := by
  have hstay : ∀ {pc' : WorkerPc}, PcOk s pc' → Returns (pure (s, pc') : Fallible (Server × WorkerPc))
      (fun r => Acts P G s r.1 ∧ Sound r.1 ∧ PcOk r.1 r.2) :=
    fun hpc' => .pure (worker_does hs (.refl hs) hpc')
  cases pc with
  | idle => exact hstay ⟨hpc, fun p hp => List.mem_of_mem_head? hp⟩
  | served => exact hstay ⟨hpc, .head s⟩
  | serveCalls item =>
      cases item with
      | none => exact hstay ⟨hpc.1, fun p hp => List.mem_of_mem_head? hp⟩
      | some p =>
          have hp := hpc.2 p rfl
          obtain ⟨c, hc⟩ := hs.wf.call_of_mem (.inl hp)
          simp only [workerStep, findNext_any_calls hs.wf hp, ok_bind]
          apply (vServeApiCall_does (P := P) (G := G) hs hc env).bind
          rintro t ⟨ht, hmem⟩
          refine .pure (worker_does hs ht ⟨ht.handling.trans hpc.1, fun n hn => ?_⟩)
          have hn' := List.mem_of_mem_head? hn
          have hne := ne_of_mem_after (List.nodup_append.1 hs.wf.nodup).1 hn'
          exact (hmem n hne).1 (mem_of_mem_after hn')
  | serveWaiting item =>
      cases item with
      | none => exact hstay hpc.1
      | some p =>
          have hp := hpc.2 p rfl
          obtain ⟨c, hc⟩ := hs.wf.call_of_mem (.inr hp)
          simp only [workerStep, findNext_any_waiting hs.wf hp, ok_bind]
          apply (vServeApiCall_does (P := P) (G := G) hs hc env).bind
          rintro t ⟨ht, hmem⟩
          refine .pure (worker_does hs ht ⟨ht.handling.trans hpc.1, fun n hn => ?_⟩)
          have hn' := List.mem_of_mem_head? hn
          have hne := ne_of_mem_after (List.nodup_append.1 hs.wf.nodup).2.1 hn'
          exact (hmem n hne).2 (mem_of_mem_after hn')
  | forward item =>
      cases item with
      | none => exact hstay hpc.1
      | some p =>
          simp only [workerStep]
          apply (forwardItem_does (P := P) hs hpc.2 env (hG.2 p rfl)).bind
          rintro r ⟨hr, hf⟩
          exact .pure (worker_does hs hr ⟨hr.handling.trans hpc.1, hf⟩)
  | receive =>
      cases hq : s.xWsWorkerQueue with
      | nil =>
          simp only [workerStep, hq]
          exact hstay hpc
      | cons r rs =>
          simp only [workerStep, hq]
          exact .pure ⟨.single (.receive hq hpc), ⟨hs.wf.same rfl rfl rfl rfl rfl rfl rfl rfl, hs.net⟩,
            rfl⟩
  | taken r =>
      by_cases hid : r.msg.id = 0
      · simp only [workerStep, hid, if_true, findFirst_fid hs.wf, ok_bind]
        exact hstay ⟨hpc, hid, .start s _⟩
      · simp only [workerStep, hid, if_false, findFirst_id hs.wf, ok_bind]
        cases hp : picked s r.msg.id with
        | none =>
            refine .pure (handled_does hs (.refl hs) hpc (.inl fun p hp' c hc hq => ?_))
            rw [if_neg hid]
            intro he
            have := List.find?_eq_none.1 hp p hp'
            simp [idTarget, hc, he, hq] at this
        | some p =>
            obtain ⟨hp', c, hc, hcid⟩ := picked_some hs.wf hp
            have hans := hG.1 r p (by simp [answering, hid, hp])
            apply (respond_does (P := P) hs hp' hpc (fun d hd => by
              rw [hc, Option.some.injEq] at hd
              rw [if_neg hid, ← hd, hcid]) env hans).bind
            rintro t ⟨ht, hw, -, -⟩
            refine .pure (handled_does hs ht (ht.handling.trans hpc) (.inr ⟨s, p, ?_, ?_, hid⟩))
            · exact (hans s (.refl s)).1
            · rw [hw]
              exact fun he => ((List.nodup_append.1 hs.wf.nodup).2.1.mem_erase_iff.1 he).1 rfl
  | broadcast r it =>
      obtain ⟨hr, hid, hat⟩ := hpc
      cases it with
      | none =>
          refine .pure (handled_does hs (.refl hs) hr (.inl fun p hp c hc hq => ?_))
          rw [if_pos hid]
          intro he
          have := hat p hp
          simp [isTarget_eq hc, he, hq] at this
      | some p =>
          have hnext := findNext_waiting hs.wf hat.1
            (fun _ _ hc => bCallFidMatch_eq (s := s) hc r.msg.fid)
          simp only [workerStep, hnext, ok_bind]
          apply (respond_does (P := P) hs hat.1 hr (fun c hc => by
            rw [if_pos hid]
            exact hat.2.1 c hc) env (hG.1 r p rfl)).bind
          rintro t ⟨ht, hw, hfalse, hcalls⟩
          exact .pure (worker_does hs ht ⟨ht.handling.trans hr, hid, hat.next hs.wf hw hfalse hcalls⟩)

def Beside (P : Platform) (G : Guard) (locked : Bool) (s t : Server) : Prop :=
  Does P G s t ∧ (locked = true → Still s t)

def Apart (P : Platform) (G : Guard) (locked : Bool) (s t : Server) : Prop :=
  Outside P G s t ∧ (locked = true → Still s t)

variable {l : Bool}

theorem Outside.apart (h : Outside P G s t) (hl : l = false) : Apart P G l s t :=
  ⟨h, fun hl' => by simp [hl] at hl'⟩

theorem Apart.still (h : Outside P G s t) (hs : Still s t) : Apart P G l s t := ⟨h, fun _ => hs⟩

theorem Apart.beside (h : Apart P G l s t) : Beside P G l s t := ⟨h.1.does, h.2⟩

theorem Beside.inv {x : System} (hx : Inv x) {t : Server} (h : Beside P G x.worker.locked x.srv t)
    (p : HttpdPc) : Inv ⟨t, x.worker, p⟩ := by
  refine ⟨h.1.sound hx.sound, ?_⟩
  cases hl : x.worker.locked with
  | true => exact (h.2 hl).pc hx.pc
  | false => exact pc_of_unlocked h.1.handling hx.pc hl

theorem lift_returns {x : System} {b : Bool} {op : Fallible Server} {res : Fallible System}
    {Q : Server → Prop} (h : x.lift b op = some res) (hop : b = true → Returns op Q) :
    Returns res (fun y => y.worker = x.worker ∧ y.httpd = x.httpd ∧ Q y.srv) := by
  unfold System.lift at h
  split at h
  next hb =>
    cases h
    exact ((hop hb).mono (fun t ht => ⟨rfl, rfl, ht⟩)).map
  next => cases h

theorem vWsTransferComplete_still {i : Nat} {err took : Bool} {op : Fallible Server}
    (h : vWsTransferComplete s i err took = some op) (hb : (err && took) = false)
    (ht : op = .ok t) : Still s t := by
  unfold vWsTransferComplete at h
  split at h
  · cases h
  next x hx =>
    cases h
    simp only [hb, Bool.false_eq_true, if_false, pure_ok, ok_bind] at ht
    cases hr : (s.withNet { s.net with inflight := s.net.inflight.eraseIdx i }).net.release x.buf with
    | error f =>
        rw [hr] at ht
        cases ht
    | ok m =>
        rw [hr] at ht
        cases ht
        exact ⟨rfl, rfl, rfl, rfl⟩

theorem bApiCallRegister_still (h : Option HandlerId) (fid : UInt32) (ctx : Nat)
    (took alloc : Bool) : Still s (bApiCallRegister s h fid ctx took alloc).1 := by
  unfold bApiCallRegister
  split
  · exact .refl s
  · split_ifs
    all_goals exact ⟨rfl, rfl, rfl, rfl⟩

theorem wsServerRegisterFidQueue_still (fid : UInt32) (queue : Option QueueId) (took alloc : Bool) :
    Still s (wsServerRegisterFidQueue s fid queue took alloc).1 := by
  unfold wsServerRegisterFidQueue
  split_ifs
  all_goals exact ⟨rfl, rfl, rfl, rfl⟩

theorem stepFrame_apart {x : System} (hx : Inv x) {conn : ConnPtr} {k : Conn}
    (hk : x.srv.conns conn = some k) (type : FrameType) (data : Option Bytes) (sent : Bool) :
    Returns (stepFrame x conn k type data sent)
      (fun y => y.worker = x.worker ∧ Apart P G x.worker.locked x.srv y.srv) := by
  obtain ⟨s, he, hsoft, hn⟩ := touchSession_calm hx.sound hk
  have hstill : Still x.srv s := by
    refine ⟨?_, hsoft.lists, hsoft.waiting, hsoft.handling⟩
    cases hq : k.userData with
    | none =>
        rw [hq] at he
        cases he
        rfl
    | some q =>
        obtain ⟨y, hy, -⟩ := hx.sound.wf.userData conn k q hk hq
        rw [hq] at he
        simp only [touchSession, session_eq hy, ok_bind] at he
        cases he
        rfl
  have hctl := wsServerOnControl_soft (s := s) (by rw [hsoft.conns, hk]; rfl) type sent
  have hctlstill : Still s (wsServerOnControl s conn type sent) := by
    cases type <;> exact ⟨rfl, rfl, rfl, rfl⟩
  have hdone : Apart P G x.worker.locked x.srv (wsServerOnControl s conn type sent) :=
    .still (.soft (hsoft.trans hctl.1) (hctl.2 ▸ hn)) (hstill.trans hctlstill)
  simp only [stepFrame, he, ok_bind]
  cases type with
  | text => exact .pure ⟨rfl, .still (.soft hsoft hn) hstill⟩
  | cont => exact .pure ⟨rfl, hdone⟩
  | binary => exact .pure ⟨rfl, hdone⟩
  | close => exact .pure ⟨rfl, hdone⟩
  | ping => exact .pure ⟨rfl, hdone⟩
  | pong => exact .pure ⟨rfl, hdone⟩

theorem fdLive_false (hs : WF s) {fd : Int} (h : fdLive s fd = false) :
    ∀ n k, s.conns n = some k → k.fd ≠ fd := by
  intro n k hk he
  have hn := hs.nextConn n (by simp [hk])
  have := List.any_eq_false.1 h n (List.mem_range.2 hn)
  simp [hk, he] at this

theorem postReply_apart {q : QueueId} {r : Request} {id : UInt32} {published : Bool}
    (hs : Sound s) (hb : (s.periph q).busy = some r) (data : Option Bytes)
    (hid : if published then id = 0 else id = r.msg.id)
    (hG : workerQueueDepth ≤ s.xWsWorkerQueue.length → G.drop s r) :
    Apart P G l s (postReply s q r id published data) := by
  unfold postReply
  split_ifs with hroom
  · exact .still (.act (.post hb hroom hid) hs.net) ⟨rfl, rfl, rfl, rfl⟩
  · exact .still (.act (.drop hb (hG (Nat.not_lt.1 hroom))) hs.net) ⟨rfl, rfl, rfl, rfl⟩

theorem step_apart {x : System} (hx : Inv x) {a : Label} (ha : ∀ env, a ≠ .worker env)
    (hG : Allows P G x a) {res : Fallible System} (h : step P x a = some res) :
    Returns res (fun y => y.worker = x.worker ∧ Apart P G x.worker.locked x.srv y.srv) := by
  have hlift : ∀ {b op} {p : HttpdPc}, (⟨x.srv, x.worker, p⟩ : System).lift b op = some res →
      (b = true → Returns op (Apart P G x.worker.locked x.srv)) →
      Returns res (fun y => y.worker = x.worker ∧ Apart P G x.worker.locked x.srv y.srv) :=
    fun h hop => (lift_returns h hop).mono (fun y hy => ⟨hy.1, hy.2.2⟩)
  have hcalm : ∀ {op : Fallible Server}, Calm x.srv op → x.worker.locked = false →
      Returns op (Apart P G x.worker.locked x.srv) :=
    fun hop hl => hop.mono (fun t ht => Outside.apart (.soft ht.1 ht.2) hl)
  cases a with
  | connect fd alloc =>
      refine hlift h (fun hb => .pure ?_)
      have hfd := fdLive_false hx.sound.wf (by simpa using (Bool.and_eq_true_iff.1 hb).2)
      have hsame : (wsServerOnConnect x.srv fd alloc).net = x.srv.net ∧
          Still x.srv (wsServerOnConnect x.srv fd alloc) := by
        cases alloc with
        | true => exact ⟨rfl, rfl, rfl, rfl, rfl⟩
        | false => exact ⟨rfl, rfl, rfl, rfl, rfl⟩
      exact .still (.act (.connect hfd) (hsame.1 ▸ hx.sound.net) hsame.2.handling) hsame.2
  | disconnect conn =>
      simp only [step] at h
      cases hk : x.srv.conns conn with
      | none => simp [hk] at h
      | some k =>
          rw [hk] at h
          refine hlift h (fun hb => ?_)
          have hl : x.worker.locked = false := by simpa using (Bool.and_eq_true_iff.1 hb).2
          exact (wsServerOnDisconnect_outside hx.sound hk).mono (fun t ht => Outside.apart ht hl)
  | frame conn type data sent =>
      simp only [step] at h
      cases hk : x.srv.conns conn with
      | none => simp [hk] at h
      | some k =>
          simp only [hk] at h
          split_ifs at h
          cases h
          exact stepFrame_apart hx hk type data sent
  | text env =>
      simp only [step] at h
      cases hp : x.httpd with
      | idle => simp [hp] at h
      | text conn data =>
          rw [hp] at h
          refine hlift h (fun hb => ?_)
          have hl : x.worker.locked = false := by simpa using hb
          cases hk : x.srv.conns conn with
          | none =>
              refine .pure (Outside.apart (.soft (.refl x.srv) hx.sound.net) hl)
          | some k =>
              refine (wsServerOnText_outside hx.sound hk data env fun json sid hjson hsid => ?_).mono
                (fun t ht => Outside.apart ht hl)
              exact hG conn data json sid hp (by rw [hk]; exact hjson) hsid
  | transferComplete i err took =>
      simp only [step] at h
      cases hop : vWsTransferComplete x.srv i err took with
      | none => simp [hop] at h
      | some op =>
          rw [hop] at h
          refine hlift h (fun hb => ?_)
          obtain ⟨t, ht, hsoft, hn⟩ := vWsTransferComplete_calm hx.sound hop
          refine ⟨t, ht, .soft hsoft hn, fun hl => ?_⟩
          refine vWsTransferComplete_still hop ?_ ht
          simp only [hl, Bool.and_true, Bool.and_eq_true, Bool.not_eq_true'] at hb
          exact hb.2
  | complete p =>
      exact hlift h (fun hb => hcalm (vApiCallComplete_calm hx.sound p) (by simpa using hb))
  | sendGroup fid json env =>
      refine hlift h (fun hb => hcalm (Returns.map ?_) (by simpa using hb))
      exact bApiCallSendJsonFidGroup_calm hx.sound (.inr rfl) fid json env
  | register hd fid ctx took alloc =>
      refine hlift h (fun _ => ?_)
      obtain ⟨t, ht, hsoft, hn⟩ := bApiCallRegister_calm hx.sound hd fid ctx took alloc
      cases ht
      exact .pure (.still (.soft hsoft hn) (bApiCallRegister_still hd fid ctx took alloc))
  | unregister fid took =>
      refine hlift h (fun hb => ?_)
      obtain ⟨t, ht, hsoft, hn⟩ := bApiCallUnregister_calm hx.sound fid took
      refine ⟨t, ht, .soft hsoft hn, fun hl => ?_⟩
      have htook : took = false := by simpa [hl] using hb
      rw [htook] at ht
      simp only [bApiCallUnregister] at ht
      split at ht
      · cases ht
        exact .refl _
      · cases ht
        exact .refl _
  | registerQueue fid queue took alloc =>
      refine hlift h (fun _ => ?_)
      obtain ⟨t, ht, hsoft, hn⟩ := wsServerRegisterFidQueue_calm hx.sound fid queue took alloc
      cases ht
      exact .pure (.still (.soft hsoft hn) (wsServerRegisterFidQueue_still fid queue took alloc))
  | tick d =>
      exact hlift h (fun _ => .pure (.still (.soft (.passTicks _ d) hx.sound.net) ⟨rfl, rfl, rfl, rfl⟩))
  | worker env => exact absurd rfl (ha env)
  | periphTake q =>
      obtain ⟨r, rs, hb, hq, h⟩ := periphTake_cases h
      exact hlift h (fun _ => .pure (.still (.act (.take hb hq) hx.sound.net) ⟨rfl, rfl, rfl, rfl⟩))
  | periphAnswer q data | periphPublish q data =>
      simp only [step] at h
      split at h
      next r hb => exact hlift h (fun _ => .pure (postReply_apart hx.sound hb data rfl (hG r hb)))
      next => cases h
  | periphDrop q =>
      simp only [step] at h
      split at h
      next r hb =>
        exact hlift h (fun _ => .pure (.still (.act (.drop hb (hG r hb)) hx.sound.net)
          ⟨rfl, rfl, rfl, rfl⟩))
      next => cases h

theorem step_beside {x : System} (hx : Inv x) {a : Label} (ha : ∀ env, a ≠ .worker env)
    (hG : Allows P G x a) {res : Fallible System} (h : step P x a = some res) :
    Returns res (fun y => y.worker = x.worker ∧ Beside P G x.worker.locked x.srv y.srv) :=
  (step_apart hx ha hG h).mono (fun _ hy => ⟨hy.1, hy.2.beside⟩)

/-- Every step touches only valid memory, and does nothing but acts. -/
theorem step_does {x : System} (hx : Inv x) {a : Label} (hG : Allows P G x a) {res : Fallible System}
    (h : step P x a = some res) : Returns res (fun y => Acts P G x.srv y.srv ∧ Inv y) := by
  rcases worker_or_other a with ⟨env, rfl⟩ | ha
  · cases h
    apply Returns.map
    apply (workerStep_does (P := P) hx.sound hx.pc env hG).mono
    rintro r ⟨hacts, hs, hpc⟩
    exact ⟨hacts, hs, hpc⟩
  · apply (step_beside hx ha hG h).mono
    rintro ⟨t, pc, hp⟩ ⟨rfl, hb⟩
    exact ⟨hb.1.acts, hb.inv hx hp⟩

theorem init_inv {x : System} (h : (machine P).init x) : Inv x := by
  obtain ⟨depth, rfl⟩ := h
  refine ⟨⟨⟨?_, ?_, ?_, ?_, ?_, ?_, ?_, ?_, ?_⟩, ?_, ?_⟩, rfl⟩
  all_goals simp [initSystem, initServer, Attached, holds, Lib.Countdown.Counts]

def anything : Guard :=
  ⟨fun _ _ => True, fun _ _ _ => True, fun _ _ _ => True, fun _ _ => True, fun _ _ => True⟩

theorem allows_anything (P : Platform) (x : System) (a : Label) : Allows P anything x a := by
  unfold Allows
  split
  · exact ⟨fun _ _ _ _ _ => ⟨trivial, fun _ _ => trivial⟩, fun _ _ _ => trivial⟩
  · exact fun _ _ _ _ _ _ _ => trivial
  · exact fun _ _ _ => trivial
  · exact fun _ _ _ => trivial
  · exact fun _ _ => trivial
  · trivial

theorem reachable_inv {x : System} (h : Reachable (machine P) x) : Inv x := by
  apply h.invariant (fun _ => init_inv)
  intro x a y _ hx hstep
  obtain ⟨z, hz, -, hinv⟩ := step_does hx (allows_anything P x a) hstep
  cases hz
  exact hinv

theorem answering_waiting {x : System} (hr : Reachable (machine P) x) {r : Reply}
    (h : answering x = some (r, p)) :
    p ∈ x.srv.pxWsApiWaitingForResponse := by
  have hx := reachable_inv hr
  rcases answering_worker h with ⟨-, -, hpick⟩ | hw
  · exact (picked_some hx.sound.wf hpick).1
  · have hpc := hx.pc
    rw [hw] at hpc
    exact hpc.2.2.1

/-- No reachable state has a step that touches invalid memory. -/
theorem reachable_no_fault {x : System} (h : Reachable (machine P) x) (a : Label) :
    ¬ (machine P).Faults x a := by
  rintro ⟨f, hf⟩
  obtain ⟨y, hy, -⟩ := step_does (reachable_inv h) (allows_anything P x a) hf
  cases hy

/-- The invariant rule of the server: what every act preserves holds along
every run whose steps the guard allows. -/
theorem along_acts {I : Server → Prop} (hact : ∀ s t, WF s → Act P G s t → I s → I t)
    {x y : System} {as : List Label} (hr : Reachable (machine P) x) (hi : I x.srv)
    (h : Along (machine P) (fun x a _ => Allows P G x a) x as y) : I y.srv := by
  apply h.invariant (I := fun x => I x.srv) hr hi
  intro x a y hx hi hstep hG
  have hinv := reachable_inv hx
  obtain ⟨z, hz, hacts, -⟩ := step_does hinv hG hstep
  cases hz
  exact (hacts.preserve hact hinv.sound.wf hi).2

theorem step_acts {I : Server → Prop} (hact : ∀ s t, WF s → Act P anything s t → I s → I t)
    {x y : System} {a : Label} (hr : Reachable (machine P) x) (h : (machine P).Step x a y)
    (hi : I x.srv) : I y.srv :=
  along_acts hact hr hi (Along.step .start h (allows_anything P x a))

theorem reachable_acts {I : Server → Prop} (hinit : ∀ depth, I (initServer depth))
    (hact : ∀ s t, WF s → Act P anything s t → I s → I t) {x : System}
    (h : Reachable (machine P) x) : I x.srv := by
  obtain ⟨y, as, hy, hrun⟩ := h
  refine along_acts hact (.init hy) ?_ (hrun.imp (fun x a _ _ => allows_anything P x a))
  obtain ⟨depth, rfl⟩ := hy
  exact hinit depth

end WirelessGateway.Steps
