import WirelessGateway.Steps

namespace WirelessGateway.Sessions

open CJson WirelessGateway.Types Memory WsServer Worker Tasks Sends WellFormed Lifecycle Steps
open Lib.Runs

variable {P : Platform} {G : Guard} {s t : Server} {p : CallPtr} {conn : ConnPtr}

/-- A call has no session, or one that is open on its own connection. -/
def Connected (s : Server) (c : ApiCall) : Prop :=
  c.session = none ∨ ∃ q x, c.session = some q ∧ s.sessions q = some x ∧
    s.conns x.conn = some ⟨x.fd, some q⟩

theorem connected_of_wf (h : WF s) {c : ApiCall} (hc : s.calls p = some c) : Connected s c := by
  cases hq : c.session with
  | none => exact .inl hq
  | some q =>
      obtain ⟨x, hx⟩ := h.attached p c q hc hq
      exact .inr ⟨q, x, hq, hx, h.owner q x hx⟩

/-- A connection that is closed for good. -/
def Gone (s : Server) (conn : ConnPtr) : Prop := conn < s.nextConn ∧ s.conns conn = none

def frameOn : Event → Option ConnPtr
  | .queue _ _ conn _ _ _ _ => some conn
  | .control conn _ _ => some conn
  | _ => none

def EventOk (s t : Server) (e : Event) : Prop :=
  (∀ conn, frameOn e = some conn → (s.conns conn).isSome) ∧
    ∀ conn, e = .disconnect conn → Gone t conn

theorem queue_ok {src : Source} {fid sid : UInt32} {arg : Payload} {sent : Bool}
    (h : (s.conns conn).isSome) : EventOk s t (.queue src p conn fid sid arg sent) := by
  refine ⟨fun n hn => ?_, fun n hn => by cases hn⟩
  rw [frameOn, Option.some.injEq] at hn
  exact hn ▸ h

theorem attempts_ok (h : WF s) {src : Source} {arg : Payload} {env : SendEnv} :
    ∀ e ∈ attempts s src p arg env, EventOk s t e := by
  intro e he
  obtain ⟨c, x, ht, rfl⟩ := mem_attempts he
  obtain ⟨-, q, -, hx⟩ := target_eq_some_iff.1 ht
  exact queue_ok (by simp [h.owner q x hx])

theorem soft_ok (h : WF s) {e : Event} (he : SoftEvent s e) : EventOk s t e := by
  cases e with
  | queue src p c fid sid arg sent =>
      obtain ⟨d, x, ht, hx, -⟩ := he
      obtain ⟨-, q, -, hq⟩ := target_eq_some_iff.1 ht
      exact queue_ok (by simp [← hx, h.owner q x hq])
  | control c type sent =>
      refine ⟨fun n hn => ?_, fun n hn => by cases hn⟩
      rw [frameOn, Option.some.injEq] at hn
      exact hn ▸ he
  | _ => cases he

theorem act_frames (hs : WF s) (h : Act P G s t) :
    (∃ evs, t.trace = s.trace ++ evs ∧ ∀ e ∈ evs, EventOk s t e) ∧
      ∀ conn, Gone s conn → Gone t conn := by
  have hother : ∀ {e : Event}, frameOn e = none → (∀ n, e ≠ .disconnect n) → EventOk s t e :=
    fun h hd => ⟨fun n hn => (Option.some_ne_none n (hn.symm.trans h)).elim, fun n hn => absurd hn (hd n)⟩
  have hone : ∀ {e : Event}, frameOn e = none → (∀ n, e ≠ .disconnect n) →
      ∀ e' ∈ [e], EventOk s t e' :=
    fun h hd e' he => List.mem_singleton.1 he ▸ hother h hd
  cases h with
  | soft h =>
      obtain ⟨evs, ht, hev⟩ := h.trace
      refine ⟨⟨evs, ht, fun e he => soft_ok hs (hev e he)⟩, fun n hn => ?_⟩
      rw [Gone, h.nextConn, h.conns]
      exact hn
  | @connect fd alloc hfd =>
      have hnew : ∀ u n, Gone s n → Function.update s.conns s.nextConn (some ⟨fd, u⟩) n = none := by
        intro u n hn
        rw [Function.update_of_ne (Nat.ne_of_lt hn.1), hn.2]
      cases alloc with
      | true => exact ⟨⟨[_], rfl, hone rfl (by simp)⟩, fun n hn => ⟨Nat.lt_succ_of_lt hn.1, hnew _ n hn⟩⟩
      | false => exact ⟨⟨[_], rfl, hone rfl (by simp)⟩, fun n hn => ⟨Nat.lt_succ_of_lt hn.1, hnew _ n hn⟩⟩
  | @disconnect n k hk hq =>
      have hsame : (hangUp s n k.userData).conns = Function.update s.conns n none ∧
          (hangUp s n k.userData).nextConn = s.nextConn ∧
          (hangUp s n k.userData).trace = s.trace ++ [.disconnect n] := by
        cases k.userData with
        | none => exact ⟨rfl, rfl, rfl⟩
        | some q => exact ⟨rfl, rfl, rfl⟩
      obtain ⟨hconns, hnext, htrace⟩ := hsame
      refine ⟨⟨_, htrace, fun e he => ?_⟩, fun m hm => ?_⟩
      · rw [List.mem_singleton.1 he]
        refine ⟨fun m hm => absurd hm (by simp [frameOn]), fun m hm => ?_⟩
        cases hm
        exact ⟨hnext ▸ hs.nextConn n (by simp [hk]), by rw [hconns, Function.update_self]⟩
      · refine ⟨hnext ▸ hm.1, ?_⟩
        rw [hconns]
        by_cases hmn : m = n
        · rw [hmn, Function.update_self]
        · rw [Function.update_of_ne hmn, hm.2]
  | accept => exact ⟨⟨[_], rfl, hone rfl (by simp)⟩, fun _ h => h⟩
  | @reject n evs hk hev =>
      refine ⟨⟨evs ++ [.free s.nextCall], by simp [rejected], ?_⟩, fun _ h => h⟩
      intro e he
      rcases List.mem_append.1 he with he | he
      · obtain ⟨fid, sid, sta, sent, rfl⟩ := hev e he
        exact queue_ok hk
      · exact hone rfl (by simp) e he
  | forward => exact ⟨⟨[_], rfl, hone rfl (by simp)⟩, fun _ h => h⟩
  | stall => exact ⟨⟨[_], rfl, hone rfl (by simp)⟩, fun _ h => h⟩
  | refuse =>
      refine ⟨⟨_, rfl, ?_⟩, fun _ h => h⟩
      intro e he
      rcases List.mem_cons.1 he with rfl | he
      · exact hother rfl (by simp)
      · exact attempts_ok hs e he
  | announce => exact ⟨⟨_, rfl, attempts_ok hs⟩, fun _ h => h⟩
  | @invalid p c env =>
      refine ⟨⟨_, invalidated_trace s p env, ?_⟩, fun _ h => h⟩
      intro e he
      rcases List.mem_append.1 he with he | he
      · exact attempts_ok hs e he
      · exact hone rfl (by simp) e he
  | release => exact ⟨⟨[_], rfl, hone rfl (by simp)⟩, fun _ h => h⟩
  | @respond p c r env =>
      obtain ⟨hconns, hnext⟩ := answered_conns s p c r env
      refine ⟨⟨_, answered_trace s p c r env, ?_⟩, fun n hn => ?_⟩
      · intro e he
        rcases List.mem_append.1 he with he | he
        · obtain ⟨c, x, ht, rfl⟩ := mem_replyFrames he
          obtain ⟨-, q, -, hx⟩ := target_eq_some_iff.1 ht
          exact queue_ok (by simp [hs.owner q x hx])
        · rcases List.mem_cons.1 he with rfl | he
          · exact hother rfl (by simp)
          · split at he
            · cases he
            · exact hone rfl (by simp) e he
      · rw [Gone, hconns, hnext]
        exact hn
  | take => exact ⟨⟨[], by simp [taken, Server.setPeriph], by simp⟩, fun _ h => h⟩
  | post => exact ⟨⟨[], by simp [posted, Server.setPeriph], by simp⟩, fun _ h => h⟩
  | drop => exact ⟨⟨[], by simp [dropRequest, Server.setPeriph], by simp⟩, fun _ h => h⟩
  | receive => exact ⟨⟨[], by simp [Server.receive], by simp⟩, fun _ h => h⟩
  | handled => exact ⟨⟨[_], rfl, hone rfl (by simp)⟩, fun _ h => h⟩

theorem disconnected_gone {x : System} (h : Reachable (machine P) x)
    (hd : .disconnect conn ∈ x.srv.trace) : Gone x.srv conn := by
  refine reachable_acts (I := fun s => .disconnect conn ∈ s.trace → Gone s conn) ?_ ?_ h hd
  · intro depth hm
    cases hm
  · intro s t hs hact hi hm
    obtain ⟨⟨evs, ht, hev⟩, hgone⟩ := act_frames hs hact
    rw [ht, List.mem_append] at hm
    rcases hm with hm | hm
    · exact hgone conn (hi hm)
    · exact (hev _ hm).2 conn rfl

theorem gone_silent {x y : System} {as : List Label} (hr : Reachable (machine P) x)
    (hg : Gone x.srv conn) (h : Run (machine P) x as y) :
    ∃ evs, y.srv.trace = x.srv.trace ++ evs ∧ ∀ e ∈ evs, frameOn e ≠ some conn := by
  have hsafe := along_acts (G := anything)
    (I := fun s => Gone s conn ∧
      ∃ evs, s.trace = x.srv.trace ++ evs ∧ ∀ e ∈ evs, frameOn e ≠ some conn) ?_ hr
    ⟨hg, [], by simp, by simp⟩ (h.imp (fun x a _ _ => allows_anything P x a))
  · exact hsafe.2
  · rintro s t hs hact ⟨hgone, evs, hst, hev⟩
    obtain ⟨⟨evs', ht, hok⟩, hkeep⟩ := act_frames hs hact
    refine ⟨hkeep conn hgone, evs ++ evs', by rw [ht, hst, List.append_assoc], fun e he hf => ?_⟩
    rcases List.mem_append.1 he with he | he
    · exact hev e he hf
    · have := (hok e he).1 conn hf
      simp [hgone.2] at this

structure SessionsValid (P : Platform) (x : System) : Prop where
  connected : ∀ p ∈ x.srv.pxWsApiCall ++ x.srv.pxWsApiWaitingForResponse,
    ∃ c, x.srv.calls p = some c ∧ Connected x.srv c
  valid : ∀ a, ¬ (machine P).Faults x a
  silent : ∀ conn, .disconnect conn ∈ x.srv.trace → ∀ as y, Run (machine P) x as y →
    ∃ evs, y.srv.trace = x.srv.trace ++ evs ∧ ∀ e ∈ evs, frameOn e ≠ some conn

/-- In every reachable state the calls point to connected sessions only, no
step touches a NULL or freed session, and nothing is queued on a connection
after its end. -/
theorem session_valid {x : System} (h : Reachable (machine P) x) : SessionsValid P x where
  connected p hp := by
    have hinv := reachable_inv h
    obtain ⟨c, hc⟩ := hinv.sound.wf.call_of_mem (List.mem_append.1 hp)
    exact ⟨c, hc, connected_of_wf hinv.sound.wf hc⟩
  valid := reachable_no_fault h
  silent conn hd as y hrun := gone_silent h (disconnected_gone h hd) hrun

theorem session_valid_hangUp : ∃ x, Run (machine (platform [(0x1012, 4, 5)]))
    (initSystem (fun _ => 10)) ([.registerQueue 0x1012 (some 0) true true, .connect 1 true] ++
      request 0 (0x1012, 4, 5) ++ work 8 ++ [.disconnect 0]) x ∧
    x.srv.pxWsApiWaitingForResponse = [0] ∧ SessionsValid (platform [(0x1012, 4, 5)]) x := by
  have h : (machine (platform [(0x1012, 4, 5)])).reaches (initSystem (fun _ => 10))
      ([.registerQueue 0x1012 (some 0) true true, .connect 1 true] ++
        request 0 (0x1012, 4, 5) ++ work 8 ++ [.disconnect 0])
      (fun x => x.srv.pxWsApiWaitingForResponse == [0]) = true := by decide +kernel
  obtain ⟨x, hrun, hx⟩ := exists_of_reaches h
  exact ⟨x, hrun, by simpa using hx, session_valid ⟨_, _, ⟨_, rfl⟩, hrun⟩⟩

end WirelessGateway.Sessions
