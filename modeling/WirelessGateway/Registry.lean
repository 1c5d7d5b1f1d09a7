import WirelessGateway.Admission
import WirelessGateway.Broadcast
import WirelessGateway.CallHandles
import WirelessGateway.Handlers
import WirelessGateway.Lib.Keyed

namespace WirelessGateway.Registry

open CJson WirelessGateway.Types Memory WsServer Transport Worker Tasks Sends WellFormed SoftSteps
open Lifecycle Steps Operations Answering Updates CallHandles Provenance Accepted Outcomes Handlers
open Fragments Truthful Correlation Admission Broadcast Lib.Keyed Lib.Linked Lib.Fallible Lib.Runs

variable {P : Platform} {s t : Server} {p : CallPtr} {c : ApiCall} {x y : System} {a : Label}
  {fid : UInt32} {ok : Bool}

abbrev HandlerMap := Finmap (fun _ : UInt32 => HandlerId × Nat)

def registry (s : Server) : HandlerMap :=
  mapping ApiHandlerItem.ulFid (fun h => (h.fHandler, h.xHandlerContext)) s.pxWsApiHandlers

inductive RegistryCall
  | register (fHandler : Option HandlerId) (fid : UInt32) (ctx : Nat) (took alloc : Bool)
  | unregister (fid : UInt32) (took : Bool)

def RegistryCall.apply (m : HandlerMap) : RegistryCall → HandlerMap × Bool
  | .register (some h) fid ctx took alloc =>
    if fid ≠ 0 ∧ fid ∉ m ∧ took ∧ alloc then (m.insert fid (h, ctx), true) else (m, false)
  | .register none _ _ _ _ => (m, false)
  | .unregister fid took => if fid ∈ m ∧ took then (m.erase fid, true) else (m, false)

def RegistryCall.run (s : Server) : RegistryCall → Fallible (Server × Bool)
  | .register h fid ctx took alloc => pure (bApiCallRegister s h fid ctx took alloc)
  | .unregister fid took => bApiCallUnregister s fid took

/-- The call touches only valid memory, does to the registry what it is to do
to the map, and changes nothing when it fails. -/
def Refines (s : Server) (call : RegistryCall) : Prop :=
  ∃ t ok, call.run s = .ok (t, ok) ∧ (registry t, ok) = call.apply (registry s) ∧
    (ok = false → t = s)

/-- No FID is registered twice, and the general one never. -/
structure Registered (s : Server) : Prop where
  keys : (s.pxWsApiHandlers.map ApiHandlerItem.ulFid).Nodup
  nonzero : 0 ∉ registry s

def registryCall : HandlerAction → Option RegistryCall
  | .register h fid ctx alloc => some (.register h fid ctx true alloc)
  | .unregister fid => some (.unregister fid true)
  | _ => none

def handlerCalls (s : Server) (p : CallPtr) (env : WorkerEnv) : List RegistryCall :=
  if (s.calls p).any (fun c => c.fHandler.isSome) then env.handler.filterMap registryCall else []

/-- The calls that a step makes, through a task or through the handler that the
worker invokes in it. -/
def registryCalls (x : System) : Label → List RegistryCall
  | .register h fid ctx took alloc => [.register h fid ctx took alloc]
  | .unregister fid took => [.unregister fid took]
  | .worker env => (answering x).elim [] (fun r => handlerCalls x.srv r.2 env)
  | _ => []

def applyAll (m : HandlerMap) (calls : List RegistryCall) : HandlerMap :=
  calls.foldl (fun m call => (call.apply m).1) m

section Map

theorem lookup_registry (s : Server) (fid : UInt32) : (registry s).lookup fid =
    (s.findHandler fid).map (fun h => (h.fHandler, h.xHandlerContext)) := lookup_mapping fid

theorem findHandler_isSome : (s.findHandler fid).isSome ↔ fid ∈ registry s := find_isSome_iff

theorem registry_congr (h : t.pxWsApiHandlers = s.pxWsApiHandlers) : registry t = registry s := by
  rw [registry, h, registry]

theorem Registered.congr (hs : Registered s) (h : t.pxWsApiHandlers = s.pxWsApiHandlers) :
    Registered t := ⟨h ▸ hs.keys, registry_congr h ▸ hs.nonzero⟩

def Kept (s t : Server) : Prop := t.pxWsApiHandlers = s.pxWsApiHandlers

instance : AdmitsQueues Kept where
  log _ _ _ := rfl
  setCall _ _ _ _ := rfl
  complete _ := rfl
  allocData _ _ _ _ _ := rfl
  send _ _ _ := rfl
  release _ := rfl
  transferred _ _ := rfl
  allocCall _ _ _ := rfl
  unlink _ _ := rfl
  toCalls _ _ := rfl
  toWaiting _ _ := rfl
  free _ _ := rfl
  close _ _ := rfl
  freeSession _ _ := rfl
  fidQueues _ _ := rfl
  periph _ _ _ := rfl
  worker _ _ _ _ := rfl

theorem kept_of_writes (h : Relation.ReflTransGen Kept s t) : Kept s t := by
  induction h with
  | refl => rfl
  | tail _ hstep ih => exact hstep.trans ih

theorem register_spec (hs : Registered s) (h : Option HandlerId) (fid : UInt32) (ctx : Nat)
    (took alloc : Bool) : ∃ t ok, bApiCallRegister s h fid ctx took alloc = (t, ok) ∧
      (registry t, ok) = (RegistryCall.register h fid ctx took alloc).apply (registry s) ∧
      Registered t ∧ (ok = false → t = s) := by
  have hsame : ∀ {call : RegistryCall}, (registry s, false) = call.apply (registry s) →
      ∃ t ok, (s, false) = (t, ok) ∧ (registry t, ok) = call.apply (registry s) ∧
        Registered t ∧ (ok = false → t = s) := fun he => ⟨s, false, rfl, he, hs, fun _ => rfl⟩
  cases h with
  | none => exact hsame rfl
  | some h =>
      simp only [bApiCallRegister]
      split_ifs with hzero htook hfound halloc
      · exact hsame (if_neg (fun hc => hc.1 hzero)).symm
      · exact hsame (if_neg (fun hc => by simp [hc.2.2.1] at htook)).symm
      · exact hsame (if_neg (fun hc => hc.2.1 (findHandler_isSome.1 hfound))).symm
      · exact hsame (if_neg (fun hc => by simp [hc.2.2.2] at halloc)).symm
      · have hnew : fid ∉ registry s := fun hm => hfound (findHandler_isSome.2 hm)
        have hadd : registry { s with pxWsApiHandlers := s.pxWsApiHandlers ++ [⟨h, fid, ctx⟩] } =
            (registry s).insert fid (h, ctx) := by
          unfold registry at hnew ⊢
          exact mapping_snoc hnew
        refine ⟨_, true, rfl, ?_, ⟨?_, ?_⟩, by simp⟩
        · rw [hadd, RegistryCall.apply, if_pos]
          exact ⟨hzero, hnew, by simpa using htook, by simpa using halloc⟩
        · rw [List.map_append, List.nodup_append]
          refine ⟨hs.keys, by simp, fun k hk k' hk' he => ?_⟩
          rw [List.map_singleton, List.mem_singleton] at hk'
          obtain ⟨i, hi, hik⟩ := List.mem_map.1 hk
          exact hnew (mem_mapping.2 ⟨i, hi, (hik.trans he).trans hk'⟩)
        · rw [hadd, Finmap.mem_insert, not_or]
          exact ⟨Ne.symm hzero, hs.nonzero⟩

def Broken (fid : UInt32) (s : Server) : Prop :=
  ∀ p c, s.calls p = some c → c.ulFid = fid → c.session = none

theorem vBreakApiCallsByFid_broken (hs : WF s) (fid : UInt32) :
    Returns (vBreakApiCallsByFid s fid) (Broken fid) := by
  refine (forEach_quiet (N := fun s p => ∀ c, s.calls p = some c → c.ulFid = fid →
    c.session = none) ?_ ?_ hs).mono (fun t ht p c hc => ht.2 p c hc c hc)
  · intro s t p hsoft hn d hd hfid
    obtain ⟨c, hc, hw⟩ := hsoft.call_back hd
    cases hq : d.session with
    | none => rfl
    | some q =>
        have hnone := hn c hc (hw.fid ▸ hfid)
        rw [hw.session_some hq] at hnone
        cases hnone
  · intro s p c _ hc
    unfold vBreakApiCallByFid
    rw [call_eq hc, ok_bind]
    by_cases hf : c.ulFid = fid
    · rw [if_pos hf, modifyCall_eq hc]
      refine ⟨_, rfl, ⟨.setCall hc (dropSession_weaker c), rfl⟩, fun d hd _ => ?_⟩
      rw [setCall_calls_self, Option.some.injEq] at hd
      rw [← hd]
      rfl
    · rw [if_neg hf]
      refine .pure ⟨.self s, fun d hd hfid => ?_⟩
      rw [hc, Option.some.injEq] at hd
      exact absurd (hd ▸ hfid) hf

theorem unregister_spec (hs : Registered s) (hw : WF s) (fid : UInt32) (took : Bool) :
    ∃ t ok, bApiCallUnregister s fid took = .ok (t, ok) ∧
      (registry t, ok) = (RegistryCall.unregister fid took).apply (registry s) ∧ Registered t ∧
      (ok = false → t = s) ∧ (ok = true → Broken fid t) := by
  have hsame : ¬ (fid ∈ registry s ∧ took) → ∃ t ok, (pure (s, false) : Fallible _) = .ok (t, ok) ∧
      (registry t, ok) = (RegistryCall.unregister fid took).apply (registry s) ∧ Registered t ∧
      (ok = false → t = s) ∧ (ok = true → Broken fid t) := fun hno =>
    ⟨s, false, rfl, (if_neg hno).symm, hs, fun _ => rfl, by simp⟩
  unfold bApiCallUnregister
  split_ifs with hzero htook hfound
  · subst hzero
    exact hsame (fun hc => hs.nonzero hc.1)
  · exact hsame (fun hc => by simp [hc.2] at htook)
  · obtain ⟨u, hu, hbroken⟩ := vBreakApiCallsByFid_broken hw fid
    have hkept : Kept s u := kept_of_writes ((vBreakApiCallsByFid_through s fid).result u hu)
    have hkept : u.pxWsApiHandlers = s.pxWsApiHandlers := hkept
    have herase : registry { u with
        pxWsApiHandlers := u.pxWsApiHandlers.eraseP (fun h => h.ulFid == fid) } =
        (registry s).erase fid := by
      rw [registry, hkept]
      exact mapping_unlink hs.keys
    rw [hu]
    refine ⟨_, true, rfl, ?_, ⟨?_, ?_⟩, by simp, fun _ => hbroken⟩
    · rw [herase, RegistryCall.apply, if_pos ⟨findHandler_isSome.1 hfound, by simpa using htook⟩]
    · rw [hkept]
      exact hs.keys.sublist ((List.eraseP_sublist ..).map _)
    · rw [herase, Finmap.mem_erase]
      exact fun hm => hs.nonzero hm.2
  · exact hsame (fun hc => hfound (findHandler_isSome.2 hc.1))

theorem run_spec (hs : Registered s) (hw : WF s) (call : RegistryCall) :
    ∃ t ok, call.run s = .ok (t, ok) ∧ (registry t, ok) = call.apply (registry s) ∧
      Registered t ∧ (ok = false → t = s) := by
  cases call with
  | register h fid ctx took alloc =>
      obtain ⟨t, ok, he, hspec⟩ := register_spec hs h fid ctx took alloc
      exact ⟨t, ok, congrArg Except.ok he, hspec⟩
  | unregister fid took =>
      obtain ⟨t, ok, he, happly, hreg, hsame, -⟩ := unregister_spec hs hw fid took
      exact ⟨t, ok, he, happly, hreg, hsame⟩

end Map

section Steps

/-- The calls are made, and the registry is what the map becomes. -/
def Applies (s : Server) (calls : List RegistryCall) (t : Server) : Prop :=
  registry t = applyAll (registry s) calls ∧ Registered t

theorem Applies.kept (hs : Registered s) (h : Kept s t) : Applies s [] t :=
  ⟨registry_congr h, hs.congr h⟩

theorem Applies.after {u : Server} {calls : List RegistryCall} (h : Kept t u)
    (ht : Applies s calls t) : Applies s calls u :=
  ⟨(registry_congr h).trans ht.1, ht.2.congr h⟩

theorem Applies.call (call : RegistryCall) (hs : Registered s) (hw : WF s)
    (h : call.run s = .ok (t, ok)) : Applies s [call] t := by
  obtain ⟨u, ok', he, happly, hreg, -⟩ := run_spec hs hw call
  rw [h] at he
  cases he
  exact ⟨congrArg Prod.fst happly, hreg⟩

theorem handlerAction_applies (hs : Registered s) (hw : WF s) (act : HandlerAction) :
    Yields (handlerAction p s act) (Applies s (registryCall act).toList) := by
  have hkept : ∀ {srv : Server × Bool → Server} {op : Fallible (Server × Bool)},
      Through Kept s srv op → Yields op (fun r => Applies s [] (srv r)) :=
    fun h => h.mono (fun r hr => .kept hs (kept_of_writes hr))
  cases act with
  | sendJson json env =>
      exact .bind (fun r hr => .pure ((hkept (apiCallSendJson_through ..)).result r hr))
  | sendStatus sta env =>
      exact .bind (fun r hr => .pure ((hkept (apiCallSendJson_through ..)).result r hr))
  | sendGroup fid json env =>
      exact .bind (fun r hr => .pure ((hkept (apiCallSendJson_through ..)).result r hr))
  | setContext ctx =>
      exact (modifyCall_through (fun c => .context c ctx)).mono
        (fun t ht => .kept hs (kept_of_writes ht))
  | complete q =>
      exact (vApiCallComplete_through s q).mono (fun t ht => .kept hs (kept_of_writes ht))
  | register h fid ctx alloc =>
      exact .pure (Applies.call (.register h fid ctx true alloc) hs hw rfl)
  | unregister fid =>
      exact .bind (fun r hr => .pure (Applies.call (.unregister fid true) hs hw hr))

theorem Applies.trans {u : Server} {calls calls' : List RegistryCall} (h : Applies s calls t)
    (h' : Applies t calls' u) : Applies s (calls ++ calls') u := by
  refine ⟨?_, h'.2⟩
  rw [h'.1, h.1, applyAll, applyAll, applyAll, List.foldl_append]

theorem handler_applies (hs : Sound s) (hreg : Registered s) (hc : s.calls p = some c)
    (acts : List HandlerAction) (h : acts.foldlM (handlerAction p) s = .ok t) :
    Applies s (acts.filterMap registryCall) t := by
  induction acts generalizing s c with
  | nil =>
      cases h
      exact .kept hreg rfl
  | cons act acts ih =>
      rw [List.foldlM_cons] at h
      obtain ⟨u, hu, h⟩ := bind_eq_ok h
      have hact := (handlerAction_applies hreg hs.wf act).result u hu
      obtain ⟨hsoft, hn⟩ := (handlerAction_calm hs hc act).eq_ok hu
      obtain ⟨d, hd, -⟩ := hsoft.call hc
      have hrest := hact.trans (ih (Soft.sound hsoft hs hn) hact.2 hd h)
      rw [List.filterMap_cons]
      cases hcall : registryCall act with
      | none => simpa [hcall] using hrest
      | some call => simpa [hcall] using hrest

theorem answered_kept (s : Server) (p : CallPtr) (c : ApiCall) (r : Reply) (env : SendEnv) :
    Kept s (answered s p c r env) := by
  unfold answered
  split <;> rfl

theorem respond_applies (hs : Sound s) (hreg : Registered s) (hc : s.calls p = some c) {r : Reply}
    {env : WorkerEnv} (h : respond s p r env = .ok t) : Applies s (handlerCalls s p env) t := by
  obtain ⟨u, hu, hsoft, hn⟩ := invokeHandler_calm hs hc env
  obtain ⟨d, hd, -⟩ := hsoft.call hc
  obtain ⟨m, -, hresp⟩ := respond_eq (Soft.sound hsoft hs hn) hd hu r
  rw [hresp] at h
  cases h
  refine Applies.after (answered_kept (u.withNet m) p d r env.reply) ?_
  refine Applies.after (t := u) rfl ?_
  simp only [invokeHandler, call_eq hc, ok_bind] at hu
  cases hh : c.fHandler.isSome with
  | true =>
      rw [if_pos hh] at hu
      rw [handlerCalls, hc, Option.any_some, if_pos hh]
      exact handler_applies hs hreg hc env.handler hu
  | false =>
      rw [hh] at hu
      cases hu
      rw [handlerCalls, hc, Option.any_some, hh]
      exact .kept hreg rfl

theorem vServeApiCall_kept (s : Server) (p : CallPtr) (env : WorkerEnv) :
    Yields (vServeApiCall s p env) (Kept s) := by
  refine .bind (fun c _ => ?_)
  split
  · refine .bind (fun k _ => ?_)
    dsimp only
    split_ifs
    · have hlog : Kept s (s.log (.control k.conn .ping env.pingSent)) := rfl
      exact (vApiCallComplete_through _ p).mono (fun t ht => (kept_of_writes ht).trans hlog)
    · exact .bind (fun d _ => .bind (fun z _ => .pure rfl))
    · exact .pure rfl
  · exact unlink_free_through.mono (fun t ht => kept_of_writes ht)

theorem worker_applies {env : WorkerEnv} (hr : Reachable (machine P) x) (hreg : Registered x.srv)
    (h : (machine P).Step x (.worker env) y) :
    Applies x.srv (registryCalls x (.worker env)) y.srv := by
  have hs := (reachable_inv hr).sound
  have hidle : answering x = none → Kept x.srv y.srv →
      Applies x.srv (registryCalls x (.worker env)) y.srv := by
    intro hnone hkept
    rw [registryCalls, hnone]
    exact .kept hreg hkept
  have hrespond : ∀ {r p t}, answering x = some (r, p) → respond x.srv p r env = .ok t →
      Applies x.srv (registryCalls x (.worker env)) t := by
    intro r p t hans ht
    obtain ⟨c, hc⟩ := hs.wf.call_of_mem (.inr (answering_waiting hr hans))
    rw [registryCalls, hans]
    exact respond_applies hs hreg hc ht
  have hmove := (worker_move hr h).1
  generalize y.srv = t at hmove hidle hrespond ⊢
  generalize y.worker = pc at hmove
  cases hmove with
  | turned hturn => exact hidle (turn_idle hturn).2.2 rfl
  | served hserve ht _ => exact hidle (serves_idle hserve) ((vServeApiCall_kept ..).result _ ht)
  | passed hw ht =>
      exact hidle (by rw [answering, hw]) (kept_of_writes ((forwardItem_through ..).result _ ht))
  | received hw _ => exact hidle (by rw [answering, hw]) rfl
  | unanswered _ hnone => exact hidle hnone rfl
  | @answered r p u _ hans ht => exact .after (t := u) rfl (hrespond hans ht)
  | broadcast hw ht => exact hrespond (by rw [answering, hw]) ht

theorem step_applies (hr : Reachable (machine P) x) (hreg : Registered x.srv)
    (h : (machine P).Step x a y) : Applies x.srv (registryCalls x a) y.srv := by
  have hs := (reachable_inv hr).sound.wf
  have hstep : step P x a = some (.ok y) := h
  cases a with
  | worker env => exact worker_applies hr hreg h
  | register hd fid ctx took alloc =>
      have happly := Applies.call (.register hd fid ctx took alloc) hreg hs rfl
      exact lift_result hstep (Q := Applies x.srv [.register hd fid ctx took alloc]) (.pure happly)
  | unregister fid took =>
      refine lift_result hstep (Q := Applies x.srv [.unregister fid took]) (.map ⟨?_⟩)
      exact fun r hcall => .call (.unregister fid took) hreg hs hcall
  | connect fd alloc =>
      refine .kept hreg (lift_result hstep (Q := Kept x.srv) (.pure ?_))
      cases alloc <;> rfl
  | tick d => exact .kept hreg (lift_result hstep (Q := Kept x.srv) (.pure rfl))
  | frame conn type data sent =>
      obtain ⟨k, t, -, ht, hwrites, -⟩ := frame_through (R := Kept) h
      refine .kept hreg (Eq.trans (kept_of_writes hwrites) ?_)
      cases hq : k.userData with
      | none =>
          rw [hq] at ht
          cases ht
          rfl
      | some q =>
          rw [hq] at ht
          obtain ⟨z, -, ht⟩ := bind_eq_ok ht
          cases ht
          rfl
  | _ => exact .kept hreg (kept_of_writes (step_through h rfl rfl))

theorem init_registered (depth : QueueId → Nat) : Registered (initServer depth) :=
  ⟨List.nodup_nil, Finmap.notMem_empty⟩

theorem reachable_registered (h : Reachable (machine P) x) : Registered x.srv := by
  refine h.invariant (I := fun x => Registered x.srv) ?_
    (fun z a w hz hreg hstep => (step_applies hz hreg hstep).2)
  rintro z ⟨depth, rfl⟩
  exact init_registered depth

theorem Current.registered (h : Current P s) : Registered s := by
  cases h with
  | between hr => exact reachable_registered hr
  | handler hr hp hrun =>
      have hs := (reachable_inv hr).sound
      obtain ⟨c, hc⟩ := hs.wf.call_of_mem (.inr (answering_waiting hr hp))
      exact (handler_applies hs (reachable_registered hr) hc _ hrun).2

/-- Wherever it is called, the code behaves as the map. -/
theorem current_refines (h : Current P s) (call : RegistryCall) : Refines s call := by
  obtain ⟨t, ok, he, happly, -, hsame⟩ := run_spec (Current.registered h) h.sound.wf call
  exact ⟨t, ok, he, happly, hsame⟩

end Steps

section Binding

/-- The handler of a call is what the map has for its FID when it is accepted. -/
def BindsStep (x y : System) : Prop :=
  ∀ p n json c, .accept p n json c ∈ added x.srv y.srv →
    (registry x.srv).lookup c.ulFid = c.fHandler.map (fun h => (h, c.pxHandlerContext))

theorem step_binds (hr : Reachable (machine P) x) (h : (machine P).Step x a y) :
    BindsStep x y := by
  intro p n json c hm
  obtain ⟨env, data, q, sid, -, -, -, rfl⟩ := step_admits hr h hm
  rw [lookup_registry]
  cases hf : x.srv.findHandler (frameFid json) <;> simp [acceptedCall, textCall, hf]

end Binding

section Revocation

def Past (s : Server) (fid : UInt32) (p : CallPtr) : Prop :=
  ∃ n json c, .accept p n json c ∈ s.trace ∧ c.ulFid = fid

def SentTo (p : CallPtr) : Event → Prop
  | .queue _ q _ _ _ _ _ => q = p
  | _ => False

def hasHandler (s : Server) (p : CallPtr) : Bool := (s.calls p).any (fun c => c.fHandler.isSome)

/-- In the step bApiCallUnregister returns 1 for the FID, to a task or to a
handler, and the server is as given at that time. -/
inductive Unregisters (x : System) (fid : UInt32) : Label → Server → Prop
  | task {took : Bool} {t : Server} (h : bApiCallUnregister x.srv fid took = .ok (t, true)) :
      Unregisters x fid (.unregister fid took) t
  | handler {env : WorkerEnv} {r : Reply} {p : CallPtr} {pre post : List HandlerAction}
      {s t : Server} (hp : answering x = some (r, p)) (hh : hasHandler x.srv p = true)
      (henv : env.handler = pre ++ .unregister fid :: post)
      (hpre : pre.foldlM (handlerAction p) x.srv = .ok s)
      (h : bApiCallUnregister s fid true = .ok (t, true)) : Unregisters x fid (.worker env) t

/-- Of the calls of the FID that had been accepted when the server was t, none
is live, none has been sent a frame since, and no handler is invoked for one in
the run that follows. -/
structure Revoked (P : Platform) (fid : UInt32) (t : Server) (y : System) (as : List Label)
    (z : System) : Prop where
  ended : ∀ p, Past t fid p → live t p = false ∧ live z.srv p = false
  unsent : ∃ l, z.srv.trace = t.trace ++ l ∧ ∀ e ∈ l, ∀ p, Past t fid p → ¬ SentTo p e
  silent : ∀ e ∈ (machine P).trail answerOf y as, Past t fid e.call → e.handler = none

def nextListener (s : Server) (fid : UInt32) (p : CallPtr) : Option CallPtr :=
  (after p s.pxWsApiWaitingForResponse).find? (isTarget s fid)

/-- No handler unregisters the FID of a broadcast while the worker has picked
the next call to invoke a handler for. -/
def SparingStep (x : System) (a : Label) (_ : System) : Prop :=
  ∀ env r p q, a = .worker env → x.worker = .broadcast r (some p) → hasHandler x.srv p = true →
    nextListener x.srv r.msg.fid p = some q → hasHandler x.srv q = true →
    .unregister r.msg.fid ∉ env.handler

structure Over (fid : UInt32) (t s : Server) : Prop where
  born : ∀ p, Past t fid p → p < s.nextCall
  dead : ∀ p, Past t fid p → live s p = false
  unsent : ∃ l, s.trace = t.trace ++ l ∧ ∀ e ∈ l, ∀ p, Past t fid p → ¬ SentTo p e

theorem live_iff : live s p = true ↔ ∃ c q, s.calls p = some c ∧ c.session = some q := by
  cases hc : s.calls p with
  | none => simp [live, hc]
  | some c => simp [live, hc, Option.isSome_iff_exists]

theorem target_live {k : ApiSession} (h : target s p = some (c, k)) : live s p = true := by
  obtain ⟨hc, q, hq, -⟩ := target_eq_some_iff.1 h
  exact live_iff.2 ⟨c, q, hc, hq⟩

theorem isTarget_live (h : isTarget s fid p = true) : live s p = true := by
  cases hc : s.calls p with
  | none => simp [isTarget, hc] at h
  | some c =>
      rw [isTarget_eq hc, Bool.and_eq_true] at h
      rw [live_eq hc]
      exact h.2

theorem Over.start (ha : Accepts P t) (h : Broken fid t) : Over fid t t where
  born := by
    rintro p ⟨n, json, c, hm, -⟩
    exact (ha.asks p n json c hm).1
  dead := by
    rintro p ⟨n, json, c, hm, hfid⟩
    cases hd : t.calls p with
    | none => simp [live, hd]
    | some d =>
        have hnone := h p d hd ((ha.evolved hm hd).fid.trans hfid)
        simp [live_eq hd, hnone]
  unsent := ⟨[], by simp, by simp⟩

theorem act_over {G : Guard} {u : Server} (h : Act P G s u) (ho : Over fid t s) : Over fid t u where
  born p hp := Nat.lt_of_lt_of_le (ho.born p hp) (act_nextCall h)
  dead p hp := by
    rw [Bool.eq_false_iff, ne_eq, live_iff]
    rintro ⟨d, q, hd, hq⟩
    obtain ⟨c, hc, hev⟩ := act_evolves h hd (ho.born p hp)
    have hlive := live_iff.2 ⟨c, q, hc, hev.session_some hq⟩
    rw [ho.dead p hp] at hlive
    cases hlive
  unsent := by
    obtain ⟨l, hl, hun⟩ := ho.unsent
    obtain ⟨l', hl', haddr⟩ := act_addressed h
    refine ⟨l ++ l', by rw [hl', hl, List.append_assoc], fun e he p hp hsent => ?_⟩
    rcases List.mem_append.1 he with he | he
    · exact hun e he p hp hsent
    · cases e with
      | queue src q conn fid' sid arg sent =>
          obtain rfl : q = p := hsent
          obtain ⟨hnew, haddr⟩ := haddr _ he
          by_cases hsrc : src = .httpd
          · exact Nat.lt_irrefl _ (hnew hsrc ▸ ho.born q hp)
          · obtain ⟨⟨c, k, ht, -⟩, -⟩ := haddr hsrc
            have hlive := target_live ht
            rw [ho.dead q hp] at hlive
            cases hlive
      | _ => exact hsent

def Spared (fid : UInt32) (t : Server) (x : System) : Prop :=
  ∀ r p, answering x = some (r, p) → Past t fid p → hasHandler x.srv p = false

theorem picked_live {id : UInt32} (h : picked s id = some p) : live s p = true := by
  obtain ⟨c, hc, -, hq⟩ := idTarget_iff.1 (List.find?_some h)
  rwa [live_eq hc]

theorem broadcast_next {env : WorkerEnv} {r : Reply} (hr : Reachable (machine P) x)
    (hw : x.worker = .broadcast r (some p)) (h : (machine P).Step x (.worker env) y) :
    y.worker = .broadcast r (nextListener x.srv r.msg.fid p) := by
  have hs := (reachable_inv hr).sound.wf
  have hp := answering_waiting hr (show answering x = some (r, p) by rw [answering, hw])
  have hnext := findNext_waiting hs hp (fun _ _ hc => bCallFidMatch_eq (s := x.srv) hc r.msg.fid)
  obtain ⟨z, hz, rfl⟩ := map_eq_ok (Option.some.inj h)
  simp only [hw, workerStep, hnext, ok_bind] at hz
  obtain ⟨u, -, he⟩ := bind_eq_ok hz
  cases he
  rfl

theorem turn_live {pc : WorkerPc} {r : Reply} (h : turn s pc = some (.broadcast r (some p))) :
    live s p = true := by
  unfold turn at h
  split at h
  case h_7 r' =>
    split_ifs at h
    simp only [Option.some.injEq, WorkerPc.broadcast.injEq] at h
    exact isTarget_live (List.find?_some h.2)
  case h_6 => split_ifs at h; cases h
  all_goals cases h

theorem broadcast_live {env : WorkerEnv} {r : Reply} (hr : Reachable (machine P) x)
    (h : (machine P).Step x (.worker env) y) (hy : y.worker = .broadcast r (some p)) :
    live x.srv p = true := by
  have hmove := (worker_move hr h).1
  rw [hy] at hmove
  generalize y.srv = t at hmove
  generalize hpc : WorkerPc.broadcast r (some p) = pc at hmove
  cases hmove with
  | turned hturn => exact turn_live (hpc ▸ hturn)
  | served _ _ hserving =>
      rw [← hpc] at hserving
      cases hserving
  | broadcast hw _ =>
      rw [broadcast_next hr hw h, WorkerPc.broadcast.injEq] at hy
      exact isTarget_live (List.find?_some hy.2)
  | _ => cases hpc

theorem answering_step {r : Reply} (hr : Reachable (machine P) x) (h : (machine P).Step x a y)
    (hans : answering y = some (r, p)) : live y.srv p = true ∨ live x.srv p = true ∨
      (answering x = some (r, p) ∧ y.srv.calls = x.srv.calls) := by
  rcases answering_worker hans with ⟨-, -, hpick⟩ | hy
  · exact .inl (picked_live hpick)
  rcases worker_or_other a with ⟨env, rfl⟩ | ha
  · exact .inr (.inl (broadcast_live hr h hy))
  · have hw : y.worker = x.worker := by
      rcases step_outcome hr h with ⟨env, he, -⟩ | ⟨-, hw, -⟩
      · exact absurd he (ha env)
      · exact hw
    rw [hw] at hy
    obtain ⟨-, hstill, -⟩ := others_step hr h ha (by rw [hy]; rfl)
    exact .inr (.inr ⟨by rw [answering, hy], hstill.calls⟩)

theorem step_over (hr : Reachable (machine P) x) (h : (machine P).Step x a y)
    (ho : Over fid t x.srv) : Over fid t y.srv :=
  step_acts (fun _ _ _ hact ho => act_over hact ho) hr h ho

theorem step_spared (hr : Reachable (machine P) x) (h : (machine P).Step x a y)
    (ho : Over fid t x.srv) (hspare : Spared fid t x) : Spared fid t y := by
  intro r p hans hp
  rcases answering_step hr h hans with hlive | hlive | ⟨hbefore, hcalls⟩
  · rw [(step_over hr h ho).dead p hp] at hlive
    cases hlive
  · rw [ho.dead p hp] at hlive
    cases hlive
  · rw [hasHandler, hcalls]
    exact hspare r p hbefore hp

theorem run_revoked {as : List Label} {v z : System} (hv : Reachable (machine P) v)
    (h : Run (machine P) v as z) (ht : Over fid t t) (ho : Over fid t v.srv)
    (hspare : Spared fid t v) : Revoked P fid t v as z := by
  have hkeep : ∀ {bs : List Label} {w : System}, Run (machine P) v bs w →
      Over fid t w.srv ∧ Spared fid t w := by
    intro bs w hrun
    exact hrun.invariant (I := fun w => Over fid t w.srv ∧ Spared fid t w) hv ⟨ho, hspare⟩
      (fun _ _ _ hr hi hstep _ => ⟨step_over hr hstep hi.1, step_spared hr hstep hi.1 hi.2⟩)
  obtain ⟨hz, -⟩ := hkeep h
  refine ⟨fun p hp => ⟨ht.dead p hp, hz.dead p hp⟩, hz.unsent, fun e he hp => ?_⟩
  obtain ⟨bs, a, cs, u, w, -, hbs, -, hobs⟩ := h.mem_trail he
  have hspare := (hkeep hbs).2
  cases a with
  | worker env =>
      obtain ⟨⟨r, p⟩, hans, hobs⟩ := Option.bind_eq_some_iff.1 hobs
      obtain ⟨c, hc, rfl⟩ := Option.map_eq_some_iff.1 hobs
      have hnone := hspare r p hans hp
      rw [hasHandler, hc, Option.any_some] at hnone
      simpa using hnone
  | _ => cases hobs

theorem answering_matches {r : Reply} (hr : Reachable (machine P) x)
    (h : answering x = some (r, p)) : x.srv.handling = some r ∧ ∀ c, x.srv.calls p = some c →
      if r.msg.id = 0 then c.ulFid = r.msg.fid else c.ulId = r.msg.id := by
  have hx := reachable_inv hr
  have hpc := hx.pc
  rcases answering_worker h with ⟨hw, hid, hpick⟩ | hw
  · rw [hw] at hpc
    obtain ⟨-, d, hd, hdid⟩ := picked_some hx.sound.wf hpick
    refine ⟨hpc, fun c hc => ?_⟩
    rw [hd, Option.some.injEq] at hc
    rw [if_neg hid, ← hc, hdid]
  · rw [hw] at hpc
    refine ⟨hpc.1, fun c hc => ?_⟩
    rw [if_pos hpc.2.1]
    exact hpc.2.2.2.1 c hc

theorem Over.handled (ho : Over fid t s) (r : Reply) : Over fid t (s.handled r) where
  born := ho.born
  dead := ho.dead
  unsent := by
    obtain ⟨l, hl, hun⟩ := ho.unsent
    refine ⟨l ++ [.handled r], by simp [Server.handled, Server.log, hl], fun e he p hp hsent => ?_⟩
    rcases List.mem_append.1 he with he | he
    · exact hun e he p hp hsent
    · rw [List.mem_singleton.1 he] at hsent
      exact hsent

theorem respond_over (P : Platform) {r : Reply} {env : WorkerEnv} {u : Server} (hs : Sound s)
    (hp : p ∈ s.pxWsApiWaitingForResponse) (hr : s.handling = some r)
    (hmatch : ∀ c, s.calls p = some c →
      if r.msg.id = 0 then c.ulFid = r.msg.fid else c.ulId = r.msg.id)
    (ho : Over fid t s) (h : respond s p r env = .ok u) : Over fid t u := by
  have hdoes := (respond_does (P := P) (G := anything) hs hp hr hmatch env
    (fun _ _ => ⟨trivial, fun _ _ => trivial⟩)).eq_ok h
  exact (hdoes.1.acts.preserve (fun _ _ _ hact ho => act_over hact ho) hs.wf ho).2

theorem broken_of_unregister (hs : Registered s) (hw : WF s) {took : Bool}
    (h : bApiCallUnregister s fid took = .ok (t, true)) : Broken fid t := by
  obtain ⟨u, ok, he, -, -, -, hbroken⟩ := unregister_spec hs hw fid took
  rw [h] at he
  cases he
  exact hbroken rfl

theorem respond_rest {r : Reply} {env : WorkerEnv} {act : HandlerAction}
    {pre post : List HandlerAction} {u : Server} (hc : s.calls p = some c)
    (hh : c.fHandler.isSome) (henv : env.handler = pre ++ act :: post)
    (hrun : (pre ++ [act]).foldlM (handlerAction p) s = .ok t) {d : ApiCall}
    (hd : t.calls p = some d) (hsame : d.fHandler = c.fHandler)
    (h : respond s p r env = .ok u) : respond t p r { env with handler := post } = .ok u := by
  have hinvoke : invokeHandler s p env = invokeHandler t p { env with handler := post } := by
    simp only [invokeHandler, call_eq hc, call_eq hd, ok_bind, hsame, hh, if_true, henv]
    rw [List.append_cons, List.foldlM_append, hrun, ok_bind]
  rw [← h, respond, respond, hinvoke]

theorem answer_move {env : WorkerEnv} {r : Reply} (hr : Reachable (machine P) x)
    (h : (machine P).Step x (.worker env) y) (hans : answering x = some (r, p)) :
    ∃ u, respond x.srv p r env = .ok u ∧ ((y.srv = u.handled r ∧ y.worker = .receive) ∨
      (x.worker = .broadcast r (some p) ∧ y.srv = u)) := by
  have hmove := (worker_move hr h).1
  generalize y.srv = t at hmove ⊢
  generalize y.worker = pc at hmove ⊢
  cases hmove with
  | turned hturn =>
      rw [(turn_idle hturn).2.2] at hans
      cases hans
  | served hserve =>
      rw [serves_idle hserve] at hans
      cases hans
  | passed hw | received hw =>
      rw [answering, hw] at hans
      cases hans
  | unanswered _ hnone =>
      rw [hnone] at hans
      cases hans
  | answered _ hans' ht =>
      rw [hans'] at hans
      cases hans
      exact ⟨_, ht, .inl ⟨rfl, rfl⟩⟩
  | broadcast hw ht =>
      rw [answering, hw] at hans
      cases hans
      exact ⟨_, ht, .inr ⟨hw, rfl⟩⟩

theorem unregisters_over {v : System} (hr : Reachable (machine P) x)
    (h : (machine P).Step x a v) (hu : Unregisters x fid a t) :
    Over fid t t ∧ Over fid t v.srv := by
  have hs := (reachable_inv hr).sound
  have hreg := reachable_registered hr
  cases hu with
  | task hcall =>
      have hstep : x.lift _ ((bApiCallUnregister x.srv fid _).map Prod.fst) = some (.ok v) := h
      have hv : v.srv = t := by
        refine lift_result hstep (Q := fun u => u = t) (.map ⟨fun r hres => ?_⟩)
        rw [hcall] at hres
        cases hres
        rfl
      have hbroken := broken_of_unregister hreg hs.wf hcall
      have ho := Over.start (hv ▸ reachable_accepts (hr.step h)) hbroken
      exact ⟨ho, hv ▸ ho⟩
  | @handler env r p pre post s _ hp hh henv hpre hcall =>
      have hwait := answering_waiting hr hp
      obtain ⟨c, hc⟩ := hs.wf.call_of_mem (.inr hwait)
      have hhc : c.fHandler.isSome := by simpa [hasHandler, hc] using hh
      have hrun : (pre ++ [HandlerAction.unregister fid]).foldlM (handlerAction p) x.srv = .ok t := by
        rw [List.foldlM_append, hpre, ok_bind, List.foldlM_cons]
        simp only [handlerAction, hcall, ok_bind]
        rfl
      have hcur : Current P t := .handler hr hp hrun
      obtain ⟨hsofts, hns⟩ := handler_soft hs hc hpre
      obtain ⟨hsoft, hn⟩ := handler_soft hs hc hrun
      obtain ⟨d, hd, hweak⟩ := hsoft.call hc
      have hbroken := broken_of_unregister (handler_applies hs hreg hc pre hpre).2
        (Soft.sound hsofts hs hns).wf hcall
      have haccepts := act_accepted (G := anything) (.soft hsoft) (reachable_accepts hr)
      have ho := Over.start haccepts hbroken
      obtain ⟨hhandling, hmatch⟩ := answering_matches hr hp
      have hrespond : ∀ u, respond x.srv p r env = .ok u → Over fid t u := by
        intro u hu
        refine respond_over P hcur.sound (hsoft.waiting ▸ hwait) (hsoft.handling.trans hhandling)
          (fun e he => ?_) ho (respond_rest hc hhc henv hrun hd hweak.handler hu)
        rw [hd, Option.some.injEq] at he
        rw [← he, hweak.fid, hweak.id]
        exact hmatch c hc
      refine ⟨ho, ?_⟩
      obtain ⟨u, hu, ⟨hv, -⟩ | ⟨-, hv⟩⟩ := answer_move hr h hp
      · exact hv ▸ (hrespond u hu).handled r
      · exact hv ▸ hrespond u hu

theorem unregisters_spared {v : System} (hr : Reachable (machine P) x)
    (h : (machine P).Step x a v) (hsparing : SparingStep x a v) (hu : Unregisters x fid a t) :
    Spared fid t v := by
  obtain ⟨-, ho⟩ := unregisters_over hr h hu
  have hy := hr.step h
  rintro r q hans ⟨n, json, c, hm, hfid⟩
  have hpast : Past t fid q := ⟨n, json, c, hm, hfid⟩
  rcases answering_worker hans with ⟨-, -, hpick⟩ | hw
  · have hlive := picked_live hpick
    rw [ho.dead q hpast] at hlive
    cases hlive
  cases hu with
  | @task took _ hcall =>
      exfalso
      cases took with
      | false =>
          simp only [bApiCallUnregister, Bool.not_false, if_true] at hcall
          split_ifs at hcall <;> cases hcall
      | true =>
          have hstep : x.lift _ ((bApiCallUnregister x.srv fid true).map Prod.fst) = some (.ok v) := h
          obtain ⟨hlock, u, -, rfl⟩ := lift_ok hstep
          have hw : x.worker = .broadcast r (some q) := hw
          simp [hw, WorkerPc.locked] at hlock
  | @handler env r' p pre post s _ hp hh henv hpre hcall =>
      obtain ⟨u, hu, ⟨-, hv⟩ | ⟨hbroadcast, -⟩⟩ := answer_move hr h hp
      · rw [hv] at hw
        cases hw
      · rw [broadcast_next hr hbroadcast h] at hw
        simp only [WorkerPc.broadcast.injEq] at hw
        obtain ⟨rfl, hnext⟩ := hw
        rw [Bool.eq_false_iff]
        intro hhq
        -- the call has the FID of the broadcast, and the FID that was unregistered
        obtain ⟨d, hd⟩ : ∃ d, v.srv.calls q = some d := by
          cases hd : v.srv.calls q with
          | none => simp [hasHandler, hd] at hhq
          | some d => exact ⟨d, rfl⟩
        have htarget := List.find?_some hnext
        obtain ⟨e, -, he, -⟩ := live_iff.1 (isTarget_live htarget)
        have hlt := (reachable_inv hr).sound.wf.nextCall q (by simp [he])
        obtain ⟨b, hb, hev⟩ := step_evolves hr h hlt hd
        have hb' : hasHandler x.srv q = true := by
          simpa [hasHandler, hd, hb, hev.handler] using hhq
        refine hsparing env r' p q rfl hbroadcast hh hnext hb' ?_
        have hsame : fid = r'.msg.fid := by
          obtain ⟨l, hl, -⟩ := ho.unsent
          have hborn := (reachable_accepts hy).evolved (hl ▸ List.mem_append_left l hm) hd
          rw [← hfid, ← hborn.fid, hev.fid, isTarget_fid htarget b hb]
        rw [henv, hsame]
        simp

/-- The registry is a map, and requests are bound to it, in every run. Where
handlers are sparing, no call of a FID survives that bApiCallUnregister has
returned 1 for it. -/
theorem registry_revokes {as : List Label} (hr : Reachable (machine P) x)
    (h : Along (machine P) SparingStep x as y) :
    (∀ s, Current P s → 0 ∉ registry s ∧ ∀ call, Refines s call) ∧
    Along (machine P) (fun u a v =>
      registry v.srv = applyAll (registry u.srv) (registryCalls u a) ∧ BindsStep u v) x as y ∧
    ∀ bs a cs u v fid t, as = bs ++ a :: cs → Run (machine P) x bs u → (machine P).Step u a v →
      Unregisters u fid a t → Revoked P fid t v cs y := by
  refine ⟨fun s hs => ⟨(Current.registered hs).nonzero, current_refines hs⟩, ?_, ?_⟩
  · exact h.imp_of_reachable hr (fun u a v hu hstep _ =>
      ⟨(step_applies hu (reachable_registered hu) hstep).1, step_binds hu hstep⟩)
  · rintro bs a cs u v fid t rfl hbs hstep hu
    have hru := hbs.reachable hr
    rw [List.append_cons] at h
    obtain ⟨w, hw, hcs⟩ := h.of_append
    obtain ⟨u', hu', hstep', hsparing⟩ := Along.snoc_iff.1 hw
    obtain rfl := hbs.unique hu'
    rw [Machine.Step, hstep] at hstep'
    cases hstep'
    obtain ⟨ht, hv⟩ := unregisters_over hru hstep hu
    exact run_revoked (hru.step hstep) hcs.run ht hv (unregisters_spared hru hstep hsparing hu)

end Revocation

section Samples

def unregisters (fid : UInt32) : HandlerAction → Bool
  | .unregister fid' => fid' == fid
  | _ => false

def sparing (x : System) : Label → Bool
  | .worker env => match x.worker with
    | .broadcast r (some p) => !(hasHandler x.srv p &&
        (nextListener x.srv r.msg.fid p).any (hasHandler x.srv) &&
        env.handler.any (unregisters r.msg.fid))
    | _ => true
  | _ => true

theorem sparingStep_of (h : sparing x a = true) : SparingStep x a y := by
  rintro env r p q rfl hw hp hnext hq hm
  have hany : env.handler.any (unregisters r.msg.fid) = true :=
    List.any_eq_true.2 ⟨_, hm, beq_self_eq_true _⟩
  simp [sparing, hw, hp, hnext, hq, hany] at h

theorem unregisters_last {env : WorkerEnv} {r : Reply} (hr : Reachable (machine P) x)
    (hans : answering x = some (r, p)) (hh : hasHandler x.srv p = true)
    (henv : env.handler = [.unregister fid]) (hf : (x.srv.findHandler fid).isSome) :
    ∃ t, Unregisters x fid (.worker env) t ∧ ∀ q, Past x.srv fid q → Past t fid q := by
  have hs := (reachable_inv hr).sound
  obtain ⟨t, ok, ht, happly, -⟩ := unregister_spec (reachable_registered hr) hs.wf fid true
  rw [RegistryCall.apply, if_pos ⟨findHandler_isSome.1 hf, rfl⟩] at happly
  obtain rfl : ok = true := congrArg Prod.snd happly
  refine ⟨t, @Unregisters.handler x fid env r p [] [] x.srv t hans hh henv rfl ht, ?_⟩
  have hsoft := (bApiCallUnregister_calm hs fid true).eq_ok (congrArg (Except.map Prod.fst) ht)
  obtain ⟨l, hl, -⟩ := hsoft.1.trace
  rintro q ⟨n, json, c, hm, hfid⟩
  exact ⟨n, json, c, hl ▸ List.mem_append_left l hm, hfid⟩

def parting : Label := .worker { okEnv with handler := [.unregister 0x1011] }

def renewed : List Label :=
  work 1 ++ [.register (some 8) 0x1011 3 true true] ++ request 1 (0x1011, 0, 6) ++ work 9

def aboutTo (p : CallPtr) (x : System) : Bool :=
  (answering x).any (fun r => r.2 == p && hasHandler x.srv p) && (x.srv.findHandler 0x1011).isSome

theorem aboutTo_unregisters (hr : Reachable (machine P) x) (h : aboutTo p x = true) :
    ∃ t, Unregisters x 0x1011 parting t ∧ ∀ q, Past x.srv 0x1011 q → Past t 0x1011 q := by
  simp only [aboutTo, Bool.and_eq_true] at h
  obtain ⟨⟨r, q⟩, hans, hq⟩ := (Option.any_eq_true ..).1 h.1
  obtain ⟨rfl, hh⟩ := by simpa using hq
  exact unregisters_last hr hans hh rfl h.2

theorem registry_revokes_renewed : ∃ u v y t, Reachable (machine waiters) u ∧
    Unregisters u 0x1011 parting t ∧ (machine waiters).Step u parting v ∧
    Run (machine waiters) v renewed y ∧ 0x1011 ∈ registry y.srv ∧
    Revoked waiters 0x1011 t v renewed y := by
  have h : (machine waiters).check sparing (fun y => (y.srv.findHandler 0x1011).isSome)
      (initSystem (fun _ => 10)) ((published ++ work 2) ++ parting :: renewed) = true := by
    decide +kernel
  have hlast : (machine waiters).reaches (initSystem (fun _ => 10)) (published ++ work 2)
      (aboutTo 1) = true := by decide +kernel
  obtain ⟨y, hrun, hy⟩ := exists_of_check h
  obtain ⟨u, hu, habout⟩ := exists_of_reaches hlast
  have hinit : Reachable (machine waiters) (initSystem (fun _ => 10)) := .init ⟨_, rfl⟩
  have hru := hu.reachable hinit
  obtain ⟨t, hun, -⟩ := aboutTo_unregisters hru habout
  rw [List.append_cons] at hrun
  obtain ⟨v, hv, hrest⟩ := hrun.of_append
  obtain ⟨u', hu', hstep, -⟩ := Along.snoc_iff.1 hv
  obtain rfl := hu.unique hu'
  rw [← List.append_cons] at hrun
  have hall := registry_revokes hinit (hrun.imp (fun _ _ _ hok => sparingStep_of hok))
  exact ⟨u, v, y, t, hru, hun, hstep, hrest.run, findHandler_isSome.1 hy,
    hall.2.2 _ parting renewed u v 0x1011 t rfl hu hstep hun⟩

def isPast (fid : UInt32) (p : CallPtr) : Event → Bool
  | .accept q _ _ c => q == p && c.ulFid == fid
  | _ => false

theorem past_of_any (h : s.trace.any (isPast fid p) = true) : Past s fid p := by
  obtain ⟨e, he, hp⟩ := List.any_eq_true.1 h
  cases e with
  | accept q n json c =>
      simp only [isPast, Bool.and_eq_true, beq_iff_eq] at hp
      obtain ⟨rfl, hfid⟩ := hp
      exact ⟨n, json, c, he, hfid⟩
  | _ => cases hp

/-- The handler of call 1 is invoked although that of call 0, in the same
broadcast, has unregistered the FID. -/
theorem broadcast_unrevoked : ∃ u v y t, Reachable (machine waiters) u ∧
    Unregisters u 0x1011 parting t ∧ (machine waiters).Step u parting v ∧
    Run (machine waiters) v (work 1) y ∧ ¬ Revoked waiters 0x1011 t v (work 1) y := by
  have h : (machine waiters).reaches (initSystem (fun _ => 10)) (published ++ work 1)
      (fun u => aboutTo 0 u && u.srv.trace.any (isPast 0x1011 1) &&
        (machine waiters).reaches u [parting] (fun v =>
          ((machine waiters).trail answerOf v (work 1)).any (fun e =>
            e.call == 1 && e.handler.isSome) &&
          (machine waiters).reaches v (work 1) (fun _ => true))) = true := by
    decide +kernel
  obtain ⟨u, hu, hp⟩ := exists_of_reaches h
  simp only [Bool.and_eq_true] at hp
  obtain ⟨⟨habout, hany⟩, hp⟩ := hp
  obtain ⟨v, hv, hp⟩ := exists_step_of_reaches hp
  obtain ⟨hinvoked, hp⟩ := Bool.and_eq_true_iff.1 hp
  obtain ⟨y, hy, -⟩ := exists_of_reaches hp
  have hr : Reachable (machine waiters) u := hu.reachable (.init ⟨_, rfl⟩)
  obtain ⟨t, hun, hpast⟩ := aboutTo_unregisters hr habout
  refine ⟨u, v, y, t, hr, hun, hv, hy, fun hrevoked => ?_⟩
  obtain ⟨e, he, hcall⟩ := List.any_eq_true.1 hinvoked
  rw [Bool.and_eq_true, beq_iff_eq] at hcall
  have hnone := hrevoked.silent e he (hcall.1 ▸ hpast 1 (past_of_any hany))
  simp [hnone] at hcall

end Samples

end WirelessGateway.Registry
