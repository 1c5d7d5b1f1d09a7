import WirelessGateway.Accepted

namespace WirelessGateway.Lists

open CJson WirelessGateway.Types Memory WsServer Transport Worker Tasks Sends WellFormed SoftSteps
open Lifecycle Operations Steps Provenance Accepted Lib.Linked Lib.Fallible Lib.Runs

variable {P : Platform} {G : Guard} {s t : Server} {p : CallPtr} {c : ApiCall}

def isFree (p : CallPtr) : Event → Bool
  | .free q => q == p
  | _ => false

def frees (s : Server) (p : CallPtr) : Nat := s.trace.countP (isFree p)

/-- Every call that was ever allocated is there and has not been freed, or is
gone and has been freed once. -/
def Ledger (s : Server) : Prop :=
  ∀ p, frees s p = if p < s.nextCall ∧ s.calls p = none then 1 else 0

theorem frees_append {evs : List Event} (ht : t.trace = s.trace ++ evs) (p : CallPtr) :
    frees t p = frees s p + evs.countP (isFree p) := by
  rw [frees, ht, List.countP_append, frees]

theorem attempts_not_free (s : Server) (src : Source) (p q : CallPtr) (arg : Payload)
    (env : SendEnv) : (attempts s src q arg env).countP (isFree p) = 0 := by
  rw [List.countP_eq_zero]
  intro e he
  obtain ⟨c, x, -, rfl⟩ := mem_attempts he
  simp [isFree]

theorem replyFrames_not_free (s : Server) (p q : CallPtr) (r : Reply) (env : SendEnv) :
    (replyFrames s q r env).countP (isFree p) = 0 := by
  rw [List.countP_eq_zero]
  intro e he
  obtain ⟨c, x, -, rfl⟩ := mem_replyFrames he
  simp [isFree]

theorem ledger_keep (hl : Ledger s) {l : List Event} (ht : t.trace = s.trace ++ l)
    (hev : ∀ p, l.countP (isFree p) = 0) (hcalls : ∀ p, t.calls p = none ↔ s.calls p = none)
    (hnext : t.nextCall = s.nextCall) : Ledger t := by
  intro p
  rw [frees_append ht, hev, Nat.add_zero, hl p, hnext]
  simp only [hcalls]

theorem setCall_none (hc : s.calls p = some c) (d : ApiCall) (z : CallPtr) :
    (s.setCall p d).calls z = none ↔ s.calls z = none := by
  by_cases hz : z = p
  · subst hz
    simp [hc]
  · rw [setCall_calls_ne hz]

theorem ledger_removed (hs : WF s) (hl : Ledger s) (hc : s.calls p = some c) {l : List Event}
    (ht : t.trace = s.trace ++ l ++ [.free p]) (hev : ∀ p, l.countP (isFree p) = 0)
    (hcalls : t.calls = Function.update s.calls p none) (hnext : t.nextCall = s.nextCall) :
    Ledger t := by
  intro z
  rw [List.append_assoc] at ht
  rw [frees_append ht, List.countP_append, hev, hl z, hcalls, hnext]
  by_cases hz : z = p
  · subst hz
    have hlt := hs.nextCall z (by simp [hc])
    simp [hc, hlt, isFree]
  · rw [Function.update_of_ne hz]
    simp [isFree, Ne.symm hz]

theorem lt_next_iff (hp : p ≠ s.nextCall) : p < s.nextCall + 1 ↔ p < s.nextCall :=
  ⟨fun h => Nat.lt_of_le_of_ne (Nat.le_of_lt_succ h) hp, Nat.lt_succ_of_lt⟩

theorem ledger_accepted (hl : Ledger s) (n : ConnPtr) (json : Json) (c : ApiCall) :
    Ledger (accepted s n json c) := by
  intro p
  have hnext : (accepted s n json c).nextCall = s.nextCall + 1 := rfl
  have htrace : (accepted s n json c).trace = s.trace ++ [.accept s.nextCall n json c] := rfl
  rw [frees_append htrace, hl p, hnext]
  by_cases hp : p = s.nextCall
  · have hc : (accepted s n json c).calls p = some c := hp ▸ allocCall_calls_self s _
    rw [hc, hp]
    simp [isFree]
  · have hc : (accepted s n json c).calls p = s.calls p := allocCall_calls_ne hp
    rw [hc]
    simp [isFree, lt_next_iff hp]

theorem ledger_rejected (hs : WF s) (hl : Ledger s) {evs : List Event}
    (hev : ∀ p, evs.countP (isFree p) = 0) : Ledger (rejected s evs) := by
  intro p
  have hnext : (rejected s evs).nextCall = s.nextCall + 1 := rfl
  have hcalls : (rejected s evs).calls = s.calls := rfl
  have htrace : (rejected s evs).trace = s.trace ++ (evs ++ [.free s.nextCall]) := by
    simp [rejected]
  rw [frees_append htrace, List.countP_append, hev, hl p, hcalls, hnext]
  by_cases hp : p = s.nextCall
  · subst hp
    simp [isFree, hs.fresh (Nat.le_refl _)]
  · simp [isFree, Ne.symm hp, lt_next_iff hp]

theorem ledger_answered (hs : WF s) (hl : Ledger s) (hc : s.calls p = some c) (r : Reply)
    (env : SendEnv) : Ledger (answered s p c r env) := by
  have htrace := answered_trace s p c r env
  have hev : ∀ z, (replyFrames s p r env ++ [Event.respond p r]).countP (isFree z) = 0 := by
    intro z
    rw [List.countP_append, replyFrames_not_free]
    rfl
  cases hlt : c.longTerm with
  | true =>
      rw [hlt, if_pos rfl] at htrace
      refine ledger_keep hl htrace hev ?_ ?_
      · simp only [answered, hlt, if_true]
        exact setCall_none (s := frames s _) hc (c.setNextPoll _)
      · simp only [answered, hlt, if_true]
        rfl
  | false =>
      rw [hlt] at htrace
      refine ledger_removed hs hl hc (l := replyFrames s p r env ++ [.respond p r]) ?_ hev ?_ ?_
      · simpa using htrace
      · simp only [answered, hlt]
        rfl
      · simp only [answered, hlt]
        rfl

theorem act_ledger (hs : WF s) (h : Act P G s t) (hl : Ledger s) : Ledger t := by
  cases h with
  | soft h =>
      obtain ⟨evs, ht, hev⟩ := h.trace
      refine ledger_keep hl ht (fun p => ?_) (fun p => ?_) h.nextCall
      · rw [List.countP_eq_zero]
        intro e he hfree
        have hsoft := hev e he
        cases e with
        | free q => cases hsoft
        | _ => cases hfree
      · rw [← Option.not_isSome_iff_eq_none, h.isSome, Option.not_isSome_iff_eq_none]
  | @connect fd alloc _ =>
      cases alloc with
      | true => exact ledger_keep hl (l := [_]) rfl (fun _ => rfl) (fun _ => .rfl) rfl
      | false => exact ledger_keep hl (l := [_]) rfl (fun _ => rfl) (fun _ => .rfl) rfl
  | @disconnect n k _ _ =>
      obtain ⟨hcalls, hnext⟩ := hangUp_calls s n k.userData
      refine ledger_keep hl (l := [.disconnect n]) ?_ (fun _ => rfl) (fun p => by rw [hcalls]) hnext
      cases k.userData <;> rfl
  | accept => exact ledger_accepted hl _ _ _
  | @reject n evs hk hev =>
      refine ledger_rejected hs hl fun p => ?_
      rw [List.countP_eq_zero]
      intro e he
      obtain ⟨_, _, _, _, rfl⟩ := hev e he
      simp [isFree]
  | forward _ hc =>
      exact ledger_keep hl (l := [_]) rfl (fun _ => rfl)
        (setCall_none (s := pushed s _ _) hc _) rfl
  | stall => exact ledger_keep hl (l := [_]) rfl (fun _ => rfl) (fun _ => .rfl) rfl
  | @refuse p c q env _ hc =>
      refine ledger_keep hl rfl (fun z => ?_) (setCall_none (s := frames s _) hc c.dropSession) rfl
      rw [List.countP_cons, attempts_not_free]
      rfl
  | @announce p c env _ hc =>
      exact ledger_keep hl rfl (fun z => attempts_not_free ..) (setCall_none (s := frames s _) hc _) rfl
  | @invalid p c env _ hc =>
      refine ledger_removed hs hl hc (l := attempts s .worker p (.status apiCallStatusInvalid) env) ?_
        (fun z => attempts_not_free ..) rfl rfl
      rw [invalidated_trace, List.append_assoc]
  | release hc => exact ledger_removed hs hl hc (l := []) (by simp [removed, Server.log, Server.unlink]) (fun _ => rfl) rfl rfl
  | respond _ hc => exact ledger_answered hs hl hc _ _
  | take => exact ledger_keep hl (l := []) (by simp [taken, Server.setPeriph]) (fun _ => rfl) (fun _ => .rfl) rfl
  | post => exact ledger_keep hl (l := []) (by simp [posted, Server.setPeriph]) (fun _ => rfl) (fun _ => .rfl) rfl
  | drop =>
      exact ledger_keep hl (l := []) (by simp [dropRequest, Server.setPeriph]) (fun _ => rfl)
        (fun _ => .rfl) rfl
  | receive => exact ledger_keep hl (l := []) (by simp [Server.receive]) (fun _ => rfl) (fun _ => .rfl) rfl
  | handled => exact ledger_keep hl (l := [_]) rfl (fun _ => rfl) (fun _ => .rfl) rfl

theorem reachable_ledger {x : System} (h : Reachable (machine P) x) : Ledger x.srv := by
  refine reachable_acts (fun depth p => ?_) (fun s t hs hact hl => act_ledger hs hact hl) h
  simp [frees, initServer]

section ServePhase

def Serving : WorkerPc → Prop
  | .serveCalls _ | .serveWaiting _ => True
  | _ => False

def Ahead (item : Option CallPtr) (l : List CallPtr) (p : CallPtr) : Prop :=
  ∃ i, item = some i ∧ (p = i ∨ p ∈ after i l)

theorem Ahead.head {l : List CallPtr} (h : p ∈ l) : Ahead l.head? l p := by
  cases l with
  | nil => cases h
  | cons a as => exact ⟨a, rfl, by simpa [after] using h⟩

theorem Ahead.next {l : List CallPtr} {i : CallPtr} (hn : l.Nodup) (h : Ahead (some i) l p)
    (hp : p ≠ i) : Ahead (after i l).head? l p ∧ Ahead (after i l).head? (l.erase i) p := by
  obtain ⟨j, hj, hpj⟩ := h
  cases hj
  have hmem := hpj.resolve_left hp
  cases hh : (after i l).head? with
  | none => simp [List.head?_eq_none_iff.1 hh] at hmem
  | some y =>
      obtain ⟨hafter, herase⟩ := after_head hn hh
      rw [hafter, List.mem_cons] at hmem
      exact ⟨⟨y, rfl, hmem⟩, ⟨y, rfl, herase ▸ hmem⟩⟩

theorem vServeApiCall_cases (hs : Sound s) (hc : s.calls p = some c) {env : WorkerEnv}
    (h : vServeApiCall s p env = .ok t) :
    (c.session = none ∧ t = removed s p) ∨ (c.session ≠ none ∧ Soft s t) := by
  cases hq : c.session with
  | none =>
      rw [vServeApiCall_dead hc hq env] at h
      cases h
      exact .inl ⟨rfl, rfl⟩
  | some q =>
      obtain ⟨u, hu, hsoft, -⟩ := vServeApiCall_live hs hc hq env
      rw [hu] at h
      cases h
      exact .inr ⟨by simp, hsoft⟩

def Unswept (p : CallPtr) (x : System) : Prop :=
  (∀ c, x.srv.calls p = some c → c.session = none) ∧
  match x.worker with
  | .serveCalls item => x.srv.calls p = none ∨ p ∈ x.srv.pxWsApiWaitingForResponse ∨
      Ahead item x.srv.pxWsApiCall p
  | .serveWaiting item => x.srv.calls p = none ∨ Ahead item x.srv.pxWsApiWaitingForResponse p
  | .served => x.srv.calls p = none
  | _ => False

theorem served_dead (hs : Sound s) {i : CallPtr} {env : WorkerEnv} (hc : s.calls i = some c)
    (h : vServeApiCall s i env = .ok t) (hdead : ∀ c, s.calls p = some c → c.session = none) :
    (∀ c, t.calls p = some c → c.session = none) ∧ (t.calls p = none ∨
      s.calls p ≠ none ∧ (p ∈ s.pxWsApiWaitingForResponse → p ∈ t.pxWsApiWaitingForResponse) ∧
      (Ahead (some i) s.pxWsApiCall p → Ahead (after i s.pxWsApiCall).head? t.pxWsApiCall p) ∧
      (Ahead (some i) s.pxWsApiWaitingForResponse p →
        Ahead (after i s.pxWsApiWaitingForResponse).head? t.pxWsApiWaitingForResponse p)) := by
  obtain ⟨hn, hnw, -⟩ := List.nodup_append.1 hs.wf.nodup
  by_cases hp : p = i
  · subst hp
    rcases vServeApiCall_cases hs hc h with ⟨-, rfl⟩ | ⟨hlive, -⟩
    · exact ⟨by simp, .inl (removed_calls_self s p)⟩
    · exact absurd (hdead c hc) hlive
  · cases hcp : s.calls p with
    | none =>
        have hnone : t.calls p = none := by
          rcases vServeApiCall_cases hs hc h with ⟨-, rfl⟩ | ⟨-, hsoft⟩
          · rwa [removed_calls_ne hp]
          · rw [← Option.not_isSome_iff_eq_none, hsoft.isSome, hcp]
            simp
        exact ⟨by simp [hnone], .inl hnone⟩
    | some e =>
        rcases vServeApiCall_cases hs hc h with ⟨-, rfl⟩ | ⟨-, hsoft⟩
        · rw [removed_calls_ne hp]
          exact ⟨hdead, .inr ⟨by simp, (List.mem_erase_of_ne hp).2, fun h => (h.next hn hp).2,
            fun h => (h.next hnw hp).2⟩⟩
        · refine ⟨fun d hd => ?_, .inr ⟨by simp, ?_, ?_, ?_⟩⟩
          · obtain ⟨c, hc, hw⟩ := hsoft.call_back hd
            rcases hw.session with he | he
            · rw [he, hdead c hc]
            · exact he
          · rw [hsoft.waiting]
            exact id
          · rw [hsoft.lists]
            exact fun h => (h.next hn hp).1
          · rw [hsoft.waiting]
            exact fun h => (h.next hnw hp).1

theorem unswept_step {x y : System} {a : Label} (hr : Reachable (machine P) x)
    (hu : Unswept p x) (h : (machine P).Step x a y) (hserving : Serving x.worker) :
    Unswept p y := by
  have hx := reachable_inv hr
  have hs := hx.sound
  obtain ⟨hdead, hat⟩ := hu
  rcases worker_or_other a with ⟨env, rfl⟩ | ha
  · obtain ⟨⟨t, pc⟩, hstep, rfl⟩ := map_eq_ok (Option.some.inj h)
    have hpc := hx.pc
    cases hw : x.worker with
    | serveCalls item =>
        rw [hw] at hat hpc hstep
        cases item with
        | none =>
            cases hstep
            refine ⟨hdead, ?_⟩
            rcases hat with hnone | hwait | ⟨_, hi, -⟩
            · exact .inl hnone
            · exact .inr (.head hwait)
            · cases hi
        | some i =>
            obtain ⟨c, hc⟩ := hs.wf.call_of_mem (.inl (hpc.2 i rfl))
            simp only [workerStep, findNext_any_calls hs.wf (hpc.2 i rfl), ok_bind] at hstep
            obtain ⟨u, hv, he⟩ := bind_eq_ok hstep
            cases he
            obtain ⟨hd, hnone | ⟨hlive, hwait, hnext, -⟩⟩ := served_dead hs hc hv hdead
            · exact ⟨hd, .inl hnone⟩
            · exact ⟨hd, hat.imp (fun hnone => absurd hnone hlive) (fun h => h.imp hwait hnext)⟩
    | serveWaiting item =>
        rw [hw] at hat hpc hstep
        cases item with
        | none =>
            cases hstep
            refine ⟨hdead, ?_⟩
            rcases hat with hnone | ⟨_, hi, -⟩
            · exact hnone
            · cases hi
        | some i =>
            obtain ⟨c, hc⟩ := hs.wf.call_of_mem (.inr (hpc.2 i rfl))
            simp only [workerStep, findNext_any_waiting hs.wf (hpc.2 i rfl), ok_bind] at hstep
            obtain ⟨u, hv, he⟩ := bind_eq_ok hstep
            cases he
            obtain ⟨hd, hnone | ⟨hlive, -, -, hnext⟩⟩ := served_dead hs hc hv hdead
            · exact ⟨hd, .inl hnone⟩
            · exact ⟨hd, hat.imp (fun hnone => absurd hnone hlive) hnext⟩
    | _ => simp [hw, Serving] at hserving
  · -- the worker holds the mutex, so the other tasks leave the calls alone
    obtain ⟨z, hz, hworker, hb⟩ := step_beside hx ha
      (allows_anything P x a) h
    cases hz
    have hlocked : x.worker.locked = true := by
      cases hw : x.worker <;> simp [hw, Serving, WorkerPc.locked] at hserving ⊢
    have hstill := hb.2 hlocked
    simp only [Unswept, hworker, hstill.calls, hstill.lists, hstill.waiting]
    exact ⟨hdead, hat⟩

theorem unswept_start {x y : System} (hr : Reachable (machine P) x) (hw : x.worker = .idle)
    {env : WorkerEnv} (h : (machine P).Step x (.worker env) y) (hc : x.srv.calls p = some c)
    (hq : c.session = none) : Unswept p y := by
  have hstep : (workerStep x.srv x.worker env).map (fun r => (⟨r.1, r.2, x.httpd⟩ : System)) =
      .ok y := Option.some.inj h
  rw [hw] at hstep
  cases hstep
  refine ⟨fun d hd => ?_, ?_⟩
  · rw [show x.srv.calls p = some d from hd, Option.some.injEq] at hc
    rw [hc, hq]
  · rcases (reachable_inv hr).sound.wf.mem_of_call hc with hp | hp
    · exact .inr (.inr (.head hp))
    · exact .inr (.inl hp)

end ServePhase

/-- What becomes of an accepted call: it is in one of the lists and has not
been freed, or it is in none and has been freed once. -/
def Listed (s : Server) (p : CallPtr) : Prop :=
  ((s.calls p).isSome ∧ Xor (p ∈ s.pxWsApiCall) (p ∈ s.pxWsApiWaitingForResponse) ∧
    frees s p = 0) ∨
  (s.calls p = none ∧ p ∉ s.pxWsApiCall ∧ p ∉ s.pxWsApiWaitingForResponse ∧ frees s p = 1)

structure Intact (P : Platform) (x : System) : Prop where
  nodup : x.srv.pxWsApiCall.Nodup ∧ x.srv.pxWsApiWaitingForResponse.Nodup
  disjoint : x.srv.pxWsApiCall.Disjoint x.srv.pxWsApiWaitingForResponse
  accepted : ∀ p n json c, .accept p n json c ∈ x.srv.trace → Listed x.srv p
  valid : ∀ a, ¬ (machine P).Faults x a
  swept : x.worker = .idle → ∀ env x₁, (machine P).Step x (.worker env) x₁ →
    ∀ as y, Along (machine P) (fun x _ _ => Serving x.worker) x₁ as y → y.worker = .served →
    ∀ p c, x.srv.calls p = some c → c.session = none → y.srv.calls p = none ∧ frees y.srv p = 1

theorem frees_freed {x : System} (h : Reachable (machine P) x) (hp : p < x.srv.nextCall)
    (hnone : x.srv.calls p = none) : frees x.srv p = 1 := by
  rw [reachable_ledger h p, if_pos ⟨hp, hnone⟩]

theorem lists_intact {x : System} (h : Reachable (machine P) x) : Intact P x where
  nodup := by
    obtain ⟨hn, hw, -⟩ := List.nodup_append.1 (reachable_inv h).sound.wf.nodup
    exact ⟨hn, hw⟩
  disjoint p hp hw := (reachable_inv h).sound.wf.not_waiting hp hw
  accepted p n json c ha := by
    have hs := (reachable_inv h).sound.wf
    cases hc : x.srv.calls p with
    | none =>
        have hmem := (hs.linked p).not.1 (by simp [hc])
        rw [List.mem_append, not_or] at hmem
        exact .inr ⟨hc, hmem.1, hmem.2, frees_freed h ((reachable_accepts h).asks p n json c ha).1 hc⟩
    | some d =>
        refine .inl ⟨by simp [hc], ?_, by rw [reachable_ledger h p]; simp [hc]⟩
        rcases hs.mem_of_call hc with hp | hp
        · exact .inl ⟨hp, hs.not_waiting hp⟩
        · exact .inr ⟨hp, hs.not_call hp⟩
  valid := reachable_no_fault h
  swept hw env x₁ hstep as y hrun hy p c hc hq := by
    have hr₁ := h.step hstep
    have hend : Unswept p y := hrun.invariant hr₁ (unswept_start h hw hstep hc hq)
      (fun _ _ _ hr hu hst hserving => unswept_step hr hu hst hserving)
    have hnone : y.srv.calls p = none := by
      have := hend.2
      rwa [hy] at this
    refine ⟨hnone, frees_freed (hrun.reachable hr₁) ?_ hnone⟩
    have hlt := (reachable_inv h).sound.wf.nextCall p (by simp [hc])
    refine along_acts (G := anything) (I := fun s => p < s.nextCall) ?_ h hlt
      (Along.cons hstep (allows_anything P x _) (hrun.imp fun x a _ _ => allows_anything P x a))
    exact fun s t _ hact hi => Nat.lt_of_lt_of_le hi (act_nextCall hact)

theorem lists_intact_hangUp : ∃ x, Run (machine (platform [(0x1013, 0, 5)]))
    (initSystem (fun _ => 10)) ([.registerQueue 0x1013 (some 0) true true, .connect 1 true] ++
      request 0 (0x1013, 0, 5) ++ work 8 ++ [.disconnect 0]) x ∧
    (x.srv.pxWsApiWaitingForResponse = [0] ∧ x.worker.locked = false) ∧
    Intact (platform [(0x1013, 0, 5)]) x := by
  have h : (machine (platform [(0x1013, 0, 5)])).reaches (initSystem (fun _ => 10))
      ([.registerQueue 0x1013 (some 0) true true, .connect 1 true] ++
        request 0 (0x1013, 0, 5) ++ work 8 ++ [.disconnect 0])
      (fun x => x.srv.pxWsApiWaitingForResponse == [0] && !x.worker.locked) = true := by
    decide +kernel
  obtain ⟨x, hrun, hx⟩ := exists_of_reaches h
  exact ⟨x, hrun, by simpa using hx, lists_intact ⟨_, _, ⟨_, rfl⟩, hrun⟩⟩

end WirelessGateway.Lists
