import WirelessGateway.Custody

namespace WirelessGateway.RequestBuffers

open CJson WirelessGateway.Types Memory WsServer Transport Worker Tasks Sends WellFormed SoftSteps
open Lifecycle Operations Forwarding ForwardPass Steps WirelessGateway.Lists Outcomes Deleting Custody Lib.Linked
open Lib.Fallible Lib.Runs Lib.Ownership

variable {P : Platform} {s t : Server} {p : CallPtr} {c d : ApiCall} {env : WorkerEnv}
  {x y : System} {a : Label}

section Forward

variable {b : Store} {q : QueueId} {h : Heap Holder}

theorem stalls_eq (c : ApiCall) (env : WorkerEnv) :
    stalls c env = (!env.msgAlloc || c.longTerm && copies c && !env.dataAlloc) := rfl

theorem forwardCall_stalls (h : stalls c env = true) : forwardCall b s p c q env = b.heap := by
  unfold forwardCall
  simp only [stalls_eq, Bool.or_eq_true, Bool.and_eq_true, Bool.not_eq_true'] at h
  rcases h with hmsg | ⟨⟨hl, hdata⟩, hd⟩
  · simp [hmsg]
  · simp [hl, hdata, hd]

theorem requestOf_data (c : ApiCall) :
    (requestOf c).data.isSome = if c.longTerm then copies c else c.pucReqData.isSome := by
  cases hl : c.longTerm with
  | false => simp [requestOf, hl]
  | true =>
      cases hdata : c.pucReqData.isSome && decide (0 < c.ulReqDataLen) with
      | false => simp [requestOf, copies, hl, hdata]
      | true =>
          obtain ⟨hsome, hlen⟩ := Bool.and_eq_true_iff.1 hdata
          simp [requestOf, copies, hl, hsome, of_decide_eq_true hlen]

theorem forwardCall_pushes (h : stalls c env = false)
    (hroom : (s.periph q).queue.length < (s.periph q).depth) : forwardCall b s p c q env =
      if c.longTerm then if copies c then b.heap.alloc (newMessage b s q) else b.heap
      else b.heap.move (.call p) (newMessage b s q) := by
  simp only [forwardCall, msgAlloc_of_not_stalls h, hroom, decide_true, Bool.not_true,
    Bool.false_eq_true, if_false, if_true]
  cases hl : c.longTerm with
  | false => rfl
  | true =>
      cases hdata : copies c with
      | false => rfl
      | true =>
          have hd := dataAlloc_of_not_stalls h hl hdata
          simp [hd]

theorem forwardCall_refuses (h : stalls c env = false)
    (hfull : ¬ (s.periph q).queue.length < (s.periph q).depth) : forwardCall b s p c q env =
      if c.longTerm && copies c then (b.heap.alloc (newMessage b s q)).free (newMessage b s q)
      else b.heap := by
  simp only [forwardCall, msgAlloc_of_not_stalls h, hfull, decide_false, Bool.not_true,
    Bool.false_eq_true, if_false]
  cases hl : c.longTerm with
  | false => rfl
  | true =>
      cases hdata : copies c with
      | false => rfl
      | true =>
          have hd := dataAlloc_of_not_stalls h hl hdata
          simp [hd]

theorem refused_settled (hc : s.calls p = some c) (e : SendEnv) : Settled s (refused s p c e) := by
  have hsent : Settled s (frames s (.refuse p :: attempts s .worker p (.status apiCallStatusBusy) e)) :=
    .of_eq rfl rfl
  exact hsent.trans (setCall_settled hc rfl)

theorem forwarded_messages :
    messagesOf (forwarded s p c q) q = messagesOf s q ++ [⟨requestOf c, p⟩] := by
  simp [messagesOf, forwarded, pushed, Server.setCall, Server.setPeriph, Server.log]

theorem forwarded_messages_ne {q' : QueueId} (hq : q' ≠ q) :
    messagesOf (forwarded s p c q) q' = messagesOf s q' := by
  simp [messagesOf, forwarded, pushed, Server.setCall, Server.setPeriph, Server.log, hq]

theorem forwarded_arg {r : CallPtr} (hc : s.calls p = some c) : argOf (forwarded s p c q) r =
    if r = p ∧ c.longTerm = false then none else argOf s r := by
  by_cases hr : r = p
  · subst hr
    rw [argOf, forwarded, setCall_calls_self, argOf, hc]
    cases hl : c.longTerm <;> simp [ApiCall.dropReqData]
  · rw [argOf, forwarded, setCall_calls_ne hr, if_neg (by simp [hr])]
    rfl

theorem forwardCall_placed (hb : Placed s b) (hc : s.calls p = some c) (q : QueueId) (env : WorkerEnv) :
    Placed (attempted s p c q env) { b with heap := forwardCall b s p c q env } := by
  have hfree := hb.newMessage q
  unfold attempted
  split_ifs with hstall hroom
  · rw [forwardCall_stalls hstall]
    exact hb.settled (.of_eq rfl rfl)
  · rw [forwardCall_pushes (by simpa using hstall) hroom]
    refine hb.push (fun r => ?_) ?_ (fun q' n hn => ?_) forwarded_messages
      (fun _ => forwarded_messages_ne)
    · rw [forwarded_arg hc]
      cases hl : c.longTerm with
      | true =>
          have hsame : (if copies c then b.heap.alloc (newMessage b s q) else b.heap).holds (.call r) =
              b.heap.holds (.call r) := by
            split_ifs
            · exact alloc_holds_ne (by simp [newMessage])
            · rfl
          simpa [hsame] using hb.call r
      | false =>
          have hne : ∀ r, Holder.call r ≠ newMessage b s q := by simp [newMessage]
          by_cases hr : r = p
          · simp [hr, move_holds_source (hne p)]
          · have hsame : (b.heap.move (.call p) (newMessage b s q)).holds (.call r) =
                b.heap.holds (.call r) := move_holds_ne (by simpa using hr) (hne r)
            simpa [hr, hsame] using hb.call r
    · rw [requestOf_data]
      cases hl : c.longTerm with
      | true => cases copies c <;> simp [hfree]
      | false => simpa [argOf, hc] using hb.call p
    · cases hl : c.longTerm with
      | true =>
          simp only [if_true]
          split_ifs
          · exact alloc_holds_ne hn
          · rfl
      | false => exact move_holds_ne (by simp) hn
  · rw [forwardCall_refuses (by simpa using hstall) hroom]
    refine (hb.of_calls (fun r => ?_) (fun q' n => ?_) (fun _ => rfl)).settled (refused_settled hc _)
    · split_ifs
      · rw [free_holds_ne (by simp [newMessage]), alloc_holds_ne (by simp [newMessage]), hb.call]
      · exact hb.call r
    · split_ifs
      · by_cases hn : Holder.message q' n = newMessage b s q
        · rw [hn, free_holds_self, hfree]
        · rw [free_holds_ne hn, alloc_holds_ne hn]
      · rfl

theorem forwardCall_owned (hb : Placed s b) (ho : Owned b.heap) (p : CallPtr) (c : ApiCall)
    (q : QueueId) (env : WorkerEnv) : Owned (forwardCall b s p c q env) := by
  have hfree := hb.newMessage q
  cases hstall : stalls c env with
  | true =>
      rw [forwardCall_stalls hstall]
      exact ho
  | false =>
      by_cases hroom : (s.periph q).queue.length < (s.periph q).depth
      · rw [forwardCall_pushes hstall hroom]
        split_ifs
        · exact ho.alloc hfree
        · exact ho
        · exact ho.move (by simp [newMessage]) hfree
      · rw [forwardCall_refuses hstall hroom]
        split_ifs
        · exact (ho.alloc hfree).free _
        · exact ho

end Forward

section Worker

variable {b : Store} {h : Heap Holder}

theorem mem_victims (hs : WF s) {r : CallPtr} :
    r ∈ victims s p ↔ r ≠ p ∧ (keyOf s p).isSome ∧ keyOf s r = keyOf s p := by
  rw [victims, List.mem_filter]
  simp only [Bool.and_eq_true, bne_iff_ne, beq_iff_eq, and_assoc, and_iff_right_iff_imp]
  rintro ⟨-, hsome, hkey⟩
  cases hc : s.calls r with
  | none =>
      rw [← hkey] at hsome
      simp [keyOf, target, hc] at hsome
  | some d => exact List.mem_append.2 (hs.mem_of_call hc).symm

theorem deleted_calls_victims (hs : WF s) (hc : s.calls p = some c) (env : SendEnv) (r : CallPtr) :
    (deleted s p c env).calls r = if r = p ∨ r ∈ victims s p then none else s.calls r := by
  cases ht : target s p with
  | none =>
      have hnone : r ∉ victims s p := by simp [mem_victims hs, keyOf, ht]
      rw [deleted, ht, removed_calls_if]
      simp only [hnone, or_false]
      rfl
  | some z =>
      obtain ⟨d, k⟩ := z
      obtain rfl : c = d := Option.some.inj (hc.symm.trans (target_eq_some_iff.1 ht).1)
      rw [deleted_calls hs ht, clientMatch_eq]
      simp only [mem_victims hs, keyOf_eq ht]
      by_cases hr : r = p
      · simp [hr, keyOf_eq ht]
      · simp [hr]

theorem told_settled (e : SendEnv) : Settled s (told s p e) := by
  refine ⟨fun r => ?_, fun q => by rw [messagesOf, told_periph, messagesOf]⟩
  by_cases hr : r = p
  · subst hr
    unfold told
    cases hd : s.calls r with
    | none => rfl
    | some d =>
        simp only
        split_ifs
        · have hsent : Settled s (frames s (attempts s .worker r (.status apiCallStatusDelivered) e)) :=
            .of_eq rfl rfl
          refine (hsent.trans (setCall_settled hd ?_)).arg r
          split_ifs <;> rfl
        · rfl
  · rw [argOf, told_calls_ne hr, argOf]

theorem forwardOne_placed (hs : WF s) (hb : Placed s b) (hc : s.calls p = some c) (env : WorkerEnv) :
    Placed (passed s p c env) { b with heap := forwardOne b s p env } := by
  unfold forwardOne passed
  simp only [hc]
  split_ifs with hdel hpark
  · refine hb.without (fun r => r = p ∨ r ∈ victims s p) (deleted_calls_victims hs hc _)
      (deleted_periph s p c _) (fun r hr => ?_) (fun k hk => ?_)
    · by_cases hp : r = p
      · rw [hp, free_holds_self]
      · rw [free_holds_ne (by simpa using hp), frees_holds, if_pos]
        simpa using hr.resolve_left hp
    · rw [free_holds_ne (fun he => hk p he (.inl rfl)), frees_holds, if_neg]
      rintro hmem
      obtain ⟨r, hr, he⟩ := List.mem_map.1 hmem
      exact hk r he.symm (.inr hr)
  · exact hb
  · cases hq : s.wsGetFidQueue c.ulFid with
    | some q =>
        have hmoved : Settled (attempted s p c q env) ((attempted s p c q env).toWaiting p) :=
          .of_eq rfl rfl
        exact (forwardCall_placed hb hc q env).settled (hmoved.trans (told_settled _))
    | none => exact hb.free rfl rfl

theorem forwardOne_owned (hb : Placed s b) (ho : Owned b.heap) (p : CallPtr) (env : WorkerEnv) :
    Owned (forwardOne b s p env) := by
  unfold forwardOne
  cases hc : s.calls p with
  | none => exact ho
  | some c =>
      simp only
      split_ifs
      · exact (ho.frees _).free _
      · exact ho
      · cases hq : s.wsGetFidQueue c.ulFid with
        | some q => exact forwardCall_owned hb ho p c q env
        | none => exact ho.free _

/-- The call that is answered has nothing left to free, unless it lives on. -/
def Emptied (x : System) : Prop := ∀ r p c, answering x = some (r, p) →
  x.srv.calls p = some c → c.longTerm = false → c.pucReqData = none

theorem workerOne_answering {r : Reply} (h : answering x = some (r, p)) (hc : x.srv.calls p = some c) :
    workerOne b x env = if c.longTerm then b.heap else b.heap.lose (.call p) := by
  rcases answering_worker h with ⟨hw, -⟩ | hw
  · simp [workerOne, hw, h, hc]
  · simp [workerOne, hw, h, hc]

theorem workerOne_serving (h : serves x.worker = some p) (hc : x.srv.calls p = some c) :
    workerOne b x env = if c.session.isNone then b.heap.free (.call p) else b.heap := by
  cases hw : x.worker with
  | serveCalls item =>
      cases item with
      | none => simp [hw, serves] at h
      | some q =>
          obtain rfl : q = p := by simpa [hw, serves] using h
          simp [workerOne, hw, serveCall, hc]
  | serveWaiting item =>
      cases item with
      | none => simp [hw, serves] at h
      | some q =>
          obtain rfl : q = p := by simpa [hw, serves] using h
          simp [workerOne, hw, serveCall, hc]
  | _ => simp [hw, serves] at h

theorem workerOne_idle (hserves : serves x.worker = none) (hforward : ∀ q, x.worker ≠ .forward (some q))
    (hans : answering x = none) : workerOne b x env = b.heap := by
  cases hw : x.worker with
  | serveCalls item =>
      cases item with
      | none => simp [workerOne, hw, hans]
      | some q => simp [hw, serves] at hserves
  | serveWaiting item =>
      cases item with
      | none => simp [workerOne, hw, hans]
      | some q => simp [hw, serves] at hserves
  | forward item =>
      cases item with
      | none => simp [workerOne, hw, hans]
      | some q => exact absurd hw (hforward q)
  | _ => simp [workerOne, hw, hans]

theorem answered_settled {r : Reply} {e : SendEnv} (hc : s.calls p = some c) (hl : c.longTerm = true) :
    Settled s (answered s p c r e) := by
  have hsent : Settled s (frames s (replyFrames s p r e ++ [.respond p r])) := .of_eq rfl rfl
  rw [answered, hl, if_pos rfl]
  have harmed := hsent.trans
    (setCall_settled (d := c.setNextPoll (s.tick + c.ulPollIntervalTicks)) hc rfl)
  exact harmed.trans (.of_eq rfl rfl)

theorem answered_placed (hb : Placed s b) (hc : s.calls p = some c) (r : Reply) (e : SendEnv) :
    Placed (answered s p c r e)
      { b with heap := if c.longTerm then b.heap else b.heap.lose (.call p) } := by
  cases hl : c.longTerm with
  | true => exact hb.settled (answered_settled hc hl)
  | false =>
      refine hb.lose ?_ ?_
      · simp only [answered, hl]
        rfl
      · simp only [answered, hl]
        rfl

theorem forwardCall_frame (b : Store) (s : Server) (p : CallPtr) (c : ApiCall) (q : QueueId)
    (env : WorkerEnv) : (forwardCall b s p c q env).holds .frame = b.heap.holds .frame := by
  unfold forwardCall newMessage
  dsimp only
  split_ifs <;> simp [alloc_holds_ne, free_holds_ne, move_holds_ne]

theorem forwardOne_frame (b : Store) (s : Server) (p : CallPtr) (env : WorkerEnv) :
    (forwardOne b s p env).holds .frame = b.heap.holds .frame := by
  unfold forwardOne
  cases s.calls p with
  | none => rfl
  | some c =>
      dsimp only
      split_ifs
      · simp [free_holds_ne, frees_holds]
      · rfl
      · cases s.wsGetFidQueue c.ulFid with
        | none => exact free_holds_ne (by simp)
        | some q => exact forwardCall_frame b s p c q env

theorem workerOne_frame (b : Store) (x : System) (env : WorkerEnv) :
    (workerOne b x env).holds .frame = b.heap.holds .frame := by
  have hserve : ∀ p, (serveCall b.heap x.srv p).holds .frame = b.heap.holds .frame := by
    intro p
    unfold serveCall
    split_ifs
    · exact free_holds_ne (by simp)
    · rfl
  unfold workerOne
  split
  · exact hserve _
  · exact hserve _
  · exact forwardOne_frame ..
  · split
    · split_ifs
      · rfl
      · exact lose_holds_ne (by simp)
    · rfl

theorem worker_placed (hr : Reachable (machine P) x) (h : (machine P).Step x (.worker env) y)
    (hb : Placed x.srv b) : Placed y.srv { b with heap := workerOne b x env } := by
  have hs := (reachable_inv hr).sound.wf
  have hout := (worker_outcome hr h).1
  generalize y.srv = t at hout
  generalize y.worker = pc at hout
  cases hout with
  | turned hturn =>
      obtain ⟨hserves, hforward, hans⟩ := turn_idle hturn
      rw [workerOne_idle hserves hforward hans]
      exact hb
  | swept hserve hc hq =>
      rw [workerOne_serving hserve hc, hq]
      exact hb.free rfl rfl
  | kept hserve hc hq hsoft =>
      rw [workerOne_serving hserve hc, if_neg (by simpa using hq)]
      exact hb.settled (soft_settled hsoft)
  | @passed p c m hw _ hc =>
      have hone : workerOne b x env = forwardOne b x.srv p env := by simp [workerOne, hw]
      rw [hone]
      exact (forwardOne_placed hs hb hc env).settled (.of_eq rfl rfl)
  | received hw =>
      rw [workerOne_idle (by simp [hw, serves]) (by simp [hw]) (by simp [hw, answering])]
      exact hb.settled (.of_eq rfl rfl)
  | unanswered hw hans =>
      rw [workerOne_idle (by rcases hw with hw | hw <;> simp [hw, serves])
        (by rcases hw with hw | hw <;> simp [hw]) hans]
      exact hb.settled (.of_eq rfl rfl)
  | @answered r p c s m hw hans _ hsoft hc =>
      obtain ⟨c', hc', hweak⟩ := hsoft.call_back hc
      rw [workerOne_answering hans hc', ← hweak.longTerm]
      have hb' : Placed (s.withNet m) b := hb.settled ((soft_settled hsoft).trans (.of_eq rfl rfl))
      exact (answered_placed hb' hc r env.reply).settled (.of_eq rfl rfl)
  | @broadcast r p next c s m hw _ hsoft hc =>
      obtain ⟨c', hc', hweak⟩ := hsoft.call_back hc
      rw [workerOne_answering (r := r) (by simp [answering, hw]) hc', ← hweak.longTerm]
      have hb' : Placed (s.withNet m) b := hb.settled ((soft_settled hsoft).trans (.of_eq rfl rfl))
      exact answered_placed hb' hc r env.reply

theorem worker_owned (hr : Reachable (machine P) x) (hb : Placed x.srv b) (ho : Owned b.heap)
    (env : WorkerEnv) : Owned (workerOne b x env) ↔ Emptied x := by
  have hx := reachable_inv hr
  cases hans : answering x with
  | some z =>
      obtain ⟨r, p⟩ := z
      obtain ⟨c, hc⟩ := hx.sound.wf.call_of_mem (.inr (answering_waiting hr hans))
      have hempty : Emptied x ↔ (c.longTerm = false → c.pucReqData = none) := by
        constructor
        · exact fun he => he r p c hans hc
        · rintro he r' p' d hans' hd
          rw [hans, Option.some.injEq, Prod.mk.injEq] at hans'
          obtain ⟨rfl, rfl⟩ := hans'
          exact Option.some.inj (hc.symm.trans hd) ▸ he
      have harg : b.heap.holds (.call p) = none ↔ c.pucReqData = none := by
        have hcall := hb.call p
        rw [argOf, hc, Option.bind_some] at hcall
        rw [← Option.isNone_iff_eq_none, ← Option.not_isSome, hcall, Option.not_isSome,
          Option.isNone_iff_eq_none]
      rw [workerOne_answering hans hc, hempty]
      cases hl : c.longTerm with
      | true => simpa using ho
      | false => simpa [harg] using owned_lose_iff (k := Holder.call p) ho
  | none =>
      have hempty : Emptied x := fun r p c h => by simp [hans] at h
      refine iff_of_true ?_ hempty
      have hserve : ∀ p, Owned (serveCall b.heap x.srv p) := by
        intro p
        unfold serveCall
        split_ifs
        · exact ho.free _
        · exact ho
      cases hw : x.worker with
      | serveCalls item =>
          cases item with
          | none => simpa [workerOne, hw, hans] using ho
          | some p => simpa [workerOne, hw] using hserve p
      | serveWaiting item =>
          cases item with
          | none => simpa [workerOne, hw, hans] using ho
          | some p => simpa [workerOne, hw] using hserve p
      | forward item =>
          cases item with
          | none => simpa [workerOne, hw, hans] using ho
          | some p => simpa [workerOne, hw] using forwardOne_owned hb ho p env
      | _ => simpa [workerOne, hw, hans] using ho

end Worker

section Ownership

variable {b : Store} {z w : System × Store} {as : List Label}

/-- A text is taken over by a connection that has a session, and is not empty;
an answered call that is freed has handed its ARG over. -/
structure Disposes (x : System) (a : Label) : Prop where
  text : ∀ env conn d, a = .text env → x.httpd = .text conn (some d) →
    ((x.srv.conns conn).bind Conn.userData).isSome ∧ d ≠ []
  answer : ∀ env, a = .worker env → Emptied x

theorem step_tracked (hr : Reachable (machine P) x) (h : (machine P).Step x a y) (ha : Aligned x b) :
    Aligned y (track b P x a) ∧ (Owned b.heap → (Owned (track b P x a).heap ↔ Disposes x a)) := by
  have hx := reachable_inv hr
  have hne : (∀ env, a ≠ .text env) → (∀ env, a ≠ .worker env) → Disposes x a := fun ht hw =>
    ⟨fun env _ _ he _ => absurd he (ht env), fun env he => absurd he (hw env)⟩
  have hquiet : Quiet a → track b P x a = b → (∀ env, a ≠ .text env) → (∀ env, a ≠ .worker env) →
      Aligned y (track b P x a) ∧ (Owned b.heap → (Owned (track b P x a).heap ↔ Disposes x a)) := by
    intro hqa htrack ht hw
    obtain ⟨-, hhttpd, hsettled⟩ := (quiet_step hx hqa h).eq_ok rfl
    rw [htrack]
    exact ⟨⟨hhttpd ▸ ha.frame, ha.placed.settled hsettled⟩, fun ho => iff_of_true ho (hne ht hw)⟩
  have hdeals : ∀ q, deals a = some q → track b P x a = dealtWith b q → (∀ env, a ≠ .text env) →
      (∀ env, a ≠ .worker env) →
      Aligned y (track b P x a) ∧ (Owned b.heap → (Owned (track b P x a).heap ↔ Disposes x a)) := by
    intro q hqa htrack ht hw
    obtain ⟨hhttpd, hdeal⟩ := (deals_step hqa h).eq_ok rfl
    rw [htrack]
    refine ⟨⟨?_, ha.placed.dealtWith hdeal⟩, fun ho => iff_of_true (ho.free _) (hne ht hw)⟩
    rw [hhttpd, ← ha.frame]
    exact congrArg _ (free_holds_ne (by simp))
  cases a with
  | frame conn type data sent =>
      obtain ⟨hidle, hret⟩ := frame_step (P := P) hx h
      obtain ⟨hsettled, hpc⟩ := hret.eq_ok rfl
      have hfree : b.heap.holds .frame = none := by simpa [hidle, dataOf] using ha.frame
      exact ⟨onFrame_aligned ha hidle hsettled hpc,
        fun ho => iff_of_true (onFrame_owned ho hfree) (hne (by simp) (by simp))⟩
  | text env =>
      obtain ⟨haligned, howned⟩ := (text_step hx ha h).eq_ok rfl
      refine ⟨haligned, fun ho => (howned ho).trans ⟨fun hd => ⟨?_, by simp⟩, fun hd => ?_⟩⟩
      · rintro _ conn d - hpc
        exact hd conn d hpc
      · exact fun conn d => hd.text env conn d rfl
  | worker env =>
      refine ⟨⟨?_, worker_placed hr h ha.placed⟩, fun ho => (worker_owned hr ha.placed ho env).trans
        ⟨fun hd => ⟨by simp, fun _ _ => hd⟩, fun hd => hd.answer env rfl⟩⟩
      rw [(worker_outcome hr h).2, ← ha.frame]
      exact congrArg _ (workerOne_frame b x env)
  | periphAnswer q data => exact hdeals q rfl rfl (by simp) (by simp)
  | periphPublish q data => exact hdeals q rfl rfl (by simp) (by simp)
  | periphDrop q => exact hdeals q rfl rfl (by simp) (by simp)
  | _ => exact hquiet trivial rfl (by simp) (by simp)

theorem init_aligned (depth : QueueId → Nat) : Aligned (initSystem depth) .empty where
  frame := rfl
  placed := ⟨fun _ => rfl, fun _ _ _ => rfl, fun _ _ => rfl⟩

/-- Every buffer that has been handed over or copied is freed once, or is owned
by exactly one of the frame, the calls and the messages that there are. -/
structure Accounted (z : System × Store) : Prop where
  owned : Owned z.2.heap
  aligned : Aligned z.1 z.2

theorem accounted_step (hr : Reachable (tracked P) z) (hz : Accounted z)
    (hstep : (tracked P).Step z a w) : Accounted w ↔ Disposes z.1 a := by
  obtain ⟨hxy, hw⟩ := carry_step_iff.1 hstep
  obtain ⟨haligned, howned⟩ := step_tracked hr.carried hxy hz.aligned
  rw [← howned hz.owned, ← hw]
  exact ⟨Accounted.owned, fun ho => ⟨ho, hw ▸ haligned⟩⟩

/-- The buffers stay accounted for in exactly those runs whose steps dispose of
what they take away. -/
theorem accounted_along (hz : (tracked P).init z) : Along (tracked P) (fun _ _ w => Accounted w) z as w ↔
    Along (tracked P) (fun z a _ => Disposes z.1 a) z as w := by
  have hinit : Accounted z := by
    obtain ⟨⟨depth, hx⟩, hb⟩ := hz
    refine ⟨hb ▸ .empty, ?_⟩
    rw [hx, hb]
    exact init_aligned depth
  exact Along.invariant_iff (.init hz) hinit (fun _ _ _ hr hi hstep => accounted_step hr hi hstep)

def disposing (z : System × Store) : Label → Bool
  | .text _ => match z.1.httpd with
    | .text conn (some d) => ((z.1.srv.conns conn).bind Conn.userData).isSome && !d.isEmpty
    | _ => true
  | .worker _ => (answering z.1).all (fun t =>
      (z.1.srv.calls t.2).all (fun c => c.longTerm || c.pucReqData.isNone))
  | _ => true

theorem disposing_iff : disposing z a = true ↔ Disposes z.1 a := by
  constructor
  · intro h
    refine ⟨?_, ?_⟩
    · rintro env conn d rfl hpc
      simpa [disposing, hpc] using h
    · rintro env rfl r p c hans hc hl
      simpa [disposing, hans, hc, hl] using h
  · intro h
    cases a with
    | text env =>
        cases hpc : z.1.httpd with
        | idle => simp [disposing, hpc]
        | text conn data =>
            cases data with
            | none => simp [disposing, hpc]
            | some d => simpa [disposing, hpc] using h.text env conn d rfl hpc
    | worker env =>
        simp only [disposing, Option.all_eq_true, Bool.or_eq_true, Option.isNone_iff_eq_none]
        rintro ⟨r, p⟩ hans c hc
        cases hl : c.longTerm with
        | true => exact .inl rfl
        | false => exact .inr (h.answer env rfl r p c hans hc hl)
    | _ => rfl

def arguing : Platform where
  parse text := (([(0x1013, 0, 5), (0x1013, 4, 6)] : List (Nat × Nat × Nat)).find?
    (fun r => requestText r == text)).map (fun r =>
      .object [(bytes ['F', 'I', 'D'], .number (Int32.ofNat r.1) r.1),
        (bytes ['F', 'L', 'A', 'G', 'S'], .number (Int32.ofNat r.2.1) r.2.1),
        (bytes ['S', 'I', 'D'], .number (Int32.ofNat r.2.2) r.2.2),
        (bytes ['A', 'R', 'G'], .number 1 1)])
  print _ := bytes ['1']
  msToTicks t := t

def handover : List Label :=
  [.registerQueue 0x1013 (some 0) true true, .connect 1 true] ++ request 0 (0x1013, 0, 5) ++
  request 0 (0x1013, 4, 6) ++ work 8 ++ [.periphTake 0, .periphAnswer 0 none]

theorem accounted_handover : ∃ w, Along (tracked arguing) (fun _ _ w => Accounted w)
    (initSystem (fun _ => 10), .empty) handover w ∧ w.2.heap.next = 5 ∧ w.2.heap.freed = [0, 2, 1] ∧
      w.2.heap.holds (.call 1) = some 3 ∧ w.2.heap.holds (.message 0 1) = some 4 := by
  have h : (tracked arguing).check disposing
      (fun w => w.2.heap.next == 5 && w.2.heap.freed == [0, 2, 1] &&
        w.2.heap.holds (.call 1) == some 3 && w.2.heap.holds (.message 0 1) == some 4)
      (initSystem (fun _ => 10), .empty) handover = true := by decide +kernel
  obtain ⟨w, hrun, hw⟩ := exists_of_check h
  simp only [Bool.and_eq_true, beq_iff_eq, and_assoc] at hw
  exact ⟨w, (accounted_along ⟨⟨_, rfl⟩, rfl⟩).2 (hrun.imp fun _ _ _ => disposing_iff.1), hw⟩

/-- The text of a connection without session is never freed. -/
theorem sessionless_leak : ∃ z w, Reachable (tracked arguing) z ∧ Accounted z ∧
    (tracked arguing).Step z (.text ⟨true, true, okSend⟩) w ∧ ¬ Accounted w := by
  have h : (tracked arguing).check disposing (fun z => !disposing z (.text ⟨true, true, okSend⟩) &&
        (tracked arguing).reaches z [.text ⟨true, true, okSend⟩] (fun _ => true))
      (initSystem (fun _ => 10), .empty) [.connect 1 false, .frame 0 .text (some (bytes ['a'])) true] =
      true := by decide +kernel
  obtain ⟨z, hrun, hz⟩ := exists_of_check h
  simp only [Bool.and_eq_true, Bool.not_eq_true'] at hz
  obtain ⟨w, hstep, -⟩ := exists_step_of_reaches hz.2
  have hinit : Reachable (tracked arguing) (initSystem (fun _ => 10), .empty) := .init ⟨⟨_, rfl⟩, rfl⟩
  have hr := hrun.reachable hinit
  have haccount : Accounted z := hrun.invariant (I := Accounted) hinit ⟨.empty, init_aligned _⟩
    (fun _ _ _ hr hi hstep hd => (accounted_step hr hi hstep).2 (disposing_iff.1 hd))
  refine ⟨z, w, hr, haccount, hstep, fun hw => ?_⟩
  have hkept := disposing_iff.2 ((accounted_step hr haccount hstep).1 hw)
  rw [hz.1] at hkept
  cases hkept

end Ownership

end WirelessGateway.RequestBuffers
