import WirelessGateway.Operations

namespace WirelessGateway.Answering

open CJson WirelessGateway.Types Memory WsServer Transport Worker Tasks Buffers Sends WellFormed
open SoftSteps Lifecycle Operations Lib.Linked Lib.Fallible

variable {P : Platform} {G : Guard} {s t : Server} {p : CallPtr} {c : ApiCall}

theorem handlerAction_calm (hs : Sound s) (hc : s.calls p = some c) (a : HandlerAction) :
    Calm s (handlerAction p s a) := by
  cases a with
  | sendJson json env =>
      exact (apiCallSendJson_calm .handler hs hc (by simp) (by simp) (by simp) env).bind
        (fun r hr => .pure hr)
  | sendStatus sta env =>
      exact (apiCallSendJson_calm .handler hs hc (by simp) (by simp) (by simp) env).bind
        (fun r hr => .pure hr)
  | sendGroup fid json env =>
      exact (bApiCallSendJsonFidGroup_calm hs (.inl rfl) fid json env).bind
        (fun r hr => .pure hr)
  | setContext ctx =>
      exact modifyCall_calm hs hc ⟨.inl rfl, rfl, rfl, rfl, rfl, rfl, rfl⟩
  | complete q => exact vApiCallComplete_calm hs q
  | register h fid ctx alloc => exact bApiCallRegister_calm hs h fid ctx true alloc
  | unregister fid =>
      obtain ⟨t, ht, hcalm⟩ := bApiCallUnregister_calm hs fid true
      cases hu : bApiCallUnregister s fid true with
      | error f =>
          rw [hu] at ht
          cases ht
      | ok r =>
          rw [hu] at ht
          cases ht
          simp only [handlerAction, hu, ok_bind]
          exact .pure hcalm.1 hcalm.2

theorem invokeHandler_calm (hs : Sound s) (hc : s.calls p = some c) (env : WorkerEnv) :
    Calm s (invokeHandler s p env) := by
  simp only [invokeHandler, call_eq hc, ok_bind]
  split_ifs with hh
  · refine (Returns.foldlM (I := fun t => Soft s t ∧ NetOk t.net) ⟨.refl s, hs.net⟩ ?_)
    rintro t a - ⟨ht, hn⟩
    obtain ⟨d, hd, -⟩ := ht.call hc
    exact (handlerAction_calm (Soft.sound ht hs hn) hd a).after ht
  · exact .self hs.net

theorem respond_eq {s' : Server} {d : ApiCall} (hs' : Sound s') (hd : s'.calls p = some d)
    {env : WorkerEnv} (he : invokeHandler s p env = .ok s') (r : Reply) :
    ∃ m, NetOk m ∧ respond s p r env = .ok (answered (s'.withNet m) p d r env.reply) := by
  have hn := hs'.net
  -- with the data sent, the call is released or armed again
  have hfinish : ∀ m, NetOk m → ∃ t,
      (do
        let call ← (record s' m (replyFrames s' p r env.reply)).call p
        let u := (record s' m (replyFrames s' p r env.reply)).log (.respond p r)
        if !call.longTerm then (u.unlink p).freeCall p
        else
          let v ← u.modifyCall p (fun c => c.setNextPoll (u.tick + c.ulPollIntervalTicks))
          pure (v.toCalls p)) = .ok t ∧ t = answered (s'.withNet m) p d r env.reply := by
    intro m _
    have hd' : (record s' m (replyFrames s' p r env.reply)).calls p = some d := hd
    have hlog : (record s' m (replyFrames s' p r env.reply)).log (.respond p r) =
        frames (s'.withNet m) (replyFrames (s'.withNet m) p r env.reply ++ [.respond p r]) := by
      simp only [record, frames, Server.log, List.append_assoc]
      rfl
    have hd'' : (frames (s'.withNet m) (replyFrames (s'.withNet m) p r env.reply ++
        [.respond p r])).calls p = some d := hd
    simp only [call_eq hd', ok_bind, hlog]
    cases hl : d.longTerm with
    | false =>
        refine ⟨_, unlink_free hd'', ?_⟩
        simp [answered, hl]
    | true =>
        simp only [Bool.not_true, Bool.false_eq_true, if_false, modifyCall_eq hd'', ok_bind]
        refine ⟨_, rfl, ?_⟩
        simp [answered, hl, rearmed]
  simp only [respond, he, ok_bind]
  by_cases hlen : r.msg.len = 0
  · obtain ⟨t, ht, rfl⟩ := hfinish s'.net hn
    rw [replyFrames, if_pos hlen, record_nil] at ht
    simp only [hlen, ne_eq, not_true_eq_false, if_false, pure_ok, ok_bind]
    exact ⟨s'.net, hn, ht⟩
  · obtain ⟨m, hm, hsend⟩ := apiCallSendJson_eq hs'.wf.attached hn hd .worker (.reply r) env.reply
    obtain ⟨t, ht, rfl⟩ := hfinish m hm
    rw [replyFrames, if_neg hlen] at ht
    simp only [hlen, ne_eq, not_false_eq_true, if_true, hsend, ok_bind, pure_ok]
    exact ⟨m, hm, ht⟩

theorem respond_returns (hs : Sound s) (hp : p ∈ s.pxWsApiWaitingForResponse) (r : Reply)
    (env : WorkerEnv) :
    Returns (respond s p r env) (fun t => ∃ s' c m, Soft s s' ∧ s'.calls p = some c ∧ NetOk m ∧
      p ∈ s'.pxWsApiWaitingForResponse ∧ t = answered (s'.withNet m) p c r env.reply ∧
      ((s.calls p).bind ApiCall.fHandler = none → s'.calls = s.calls ∧ s'.trace = s.trace ∧
        s'.sessions = s.sessions)) := by
  obtain ⟨c, hc⟩ := hs.wf.call_of_mem (.inr hp)
  obtain ⟨s', he, hsoft, hn⟩ := invokeHandler_calm hs hc env
  obtain ⟨d, hd, hw⟩ := hsoft.call hc
  obtain ⟨m, hm, ht⟩ := respond_eq (Soft.sound hsoft hs hn) hd he r
  refine ⟨_, ht, s', d, m, hsoft, hd, hm, hsoft.waiting ▸ hp, rfl, fun hh => ?_⟩
  rw [hc, Option.bind_some] at hh
  simp only [invokeHandler, call_eq hc, ok_bind, hh] at he
  cases he
  exact ⟨rfl, rfl, rfl⟩

end WirelessGateway.Answering
