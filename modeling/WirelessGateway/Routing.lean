import WirelessGateway.Provenance

namespace WirelessGateway.Routing

open CJson WirelessGateway.Types Memory WsServer Worker Tasks Sends WellFormed SoftSteps Lifecycle
open Answering Steps Provenance Lib.Linked Lib.Fallible Lib.Runs

variable {P : Platform} {s t : Server} {p : CallPtr} {r : Reply}

/-- An event that answers a call answers the call the reply is for, on its own
connection and under its own FID and SID. -/
def Concerns (s : Server) (r : Reply) : Event → Prop
  | .queue _ p conn fid sid (.reply _) _ => p = r.call ∧
      ∃ c x, target s r.call = some (c, x) ∧ conn = x.conn ∧ fid = c.ulFid ∧ sid = c.ulId
  | .respond p _ => p = r.call
  | .free p => p = r.call
  | _ => True

def answers : Event → Bool
  | .queue _ _ _ _ _ (.reply _) _ => true
  | .respond _ _ => true
  | .free _ => true
  | _ => false

structure Routed (s t : Server) (r : Reply) (evs : List Event) : Prop where
  trace : t.trace = s.trace ++ evs
  own : ∀ e ∈ evs, Concerns s r e
  others : ∀ p ≠ r.call, (p ∈ t.pxWsApiCall ↔ p ∈ s.pxWsApiCall) ∧
    (p ∈ t.pxWsApiWaitingForResponse ↔ p ∈ s.pxWsApiWaitingForResponse)
  answered : r.call ∈ s.pxWsApiWaitingForResponse → (target s r.call).isSome →
    .respond r.call r ∈ evs
  dropped : target s r.call = none → (∀ e ∈ evs, answers e = false) ∧
    t.pxWsApiCall = s.pxWsApiCall ∧ t.pxWsApiWaitingForResponse = s.pxWsApiWaitingForResponse

def RoutedStep (x : System) (a : Label) (y : System) : Prop :=
  ∀ env r, a = .worker env → x.worker = .taken r → r.msg.id ≠ 0 → ∃ evs, Routed x.srv y.srv r evs

/-- Every other waiting call with a session and with the id of the reply
stands behind the reply's own call, which waits with a session itself. -/
def Unshadowed (s : Server) (r : Reply) : Prop :=
  ∀ p ∈ s.pxWsApiWaitingForResponse, p ≠ r.call → idTarget s r.msg.id p = true →
    idTarget s r.msg.id r.call = true ∧ r.call ∈ before p s.pxWsApiWaitingForResponse

instance (s : Server) (r : Reply) : Decidable (Unshadowed s r) :=
  inferInstanceAs (Decidable (∀ p ∈ s.pxWsApiWaitingForResponse, _))

def UnshadowedStep (x : System) (a : Label) (_ : System) : Prop :=
  ∀ env r, a = .worker env → x.worker = .taken r → r.msg.id ≠ 0 → Unshadowed x.srv r

theorem picked_eq (h : Unshadowed s r) (hp : picked s r.msg.id = some p) : p = r.call := by
  by_contra hne
  obtain ⟨htarget, hbefore⟩ := h p (List.mem_of_find?_eq_some hp) hne (List.find?_some hp)
  rw [find?_before hp hbefore] at htarget
  cases htarget

theorem unshadowed_iff (hs : WF s) :
    Unshadowed s r ↔ ∀ p, picked s r.msg.id = some p → p = r.call := by
  refine ⟨fun h p hp => picked_eq h hp, fun h p hp hne htarget => ?_⟩
  cases hpick : picked s r.msg.id with
  | none =>
      have := List.find?_eq_none.1 hpick p hp
      exact absurd htarget this
  | some z =>
      obtain rfl := h z hpick
      refine ⟨List.find?_some hpick, ?_⟩
      rcases (mem_iff_before_after (List.mem_of_find?_eq_some hpick)).1 hp with hb | rfl | ha
      · rw [find?_before hpick hb] at htarget
        cases htarget
      · exact absurd rfl hne
      · exact mem_before_of_mem_after (List.nodup_append.1 hs.nodup).2.1 ha

theorem target_of_idTarget (hs : WF s) {id : UInt32} (h : idTarget s id p = true) :
    (target s p).isSome := by
  obtain ⟨c, hc, -, hsess⟩ := idTarget_iff.1 h
  obtain ⟨q, hq⟩ := Option.isSome_iff_exists.1 hsess
  obtain ⟨x, -, ht⟩ := hs.attached.target hc hq
  simp [ht]

theorem taken_step {x y : System} (hx : Inv x) {env : WorkerEnv} (hw : x.worker = .taken r)
    (hid : r.msg.id ≠ 0) (h : (machine P).Step x (.worker env) y) :
    (picked x.srv r.msg.id = none ∧ y.srv = x.srv.handled r) ∨
      ∃ p s' c m, picked x.srv r.msg.id = some p ∧ Soft x.srv s' ∧ s'.calls p = some c ∧
        y.srv = (answered (s'.withNet m) p c r env.reply).handled r := by
  have hstep : (workerStep x.srv x.worker env).map (fun r => (⟨r.1, r.2, x.httpd⟩ : System)) =
      .ok y := Option.some.inj h
  rw [hw] at hstep
  simp only [workerStep, hid, if_false, findFirst_id hx.sound.wf, ok_bind] at hstep
  cases hp : picked x.srv r.msg.id with
  | none =>
      rw [hp] at hstep
      cases hstep
      exact .inl ⟨rfl, rfl⟩
  | some p =>
      obtain ⟨hp', -⟩ := picked_some hx.sound.wf hp
      obtain ⟨t, ht, s', c, m, hsoft, hc, -, -, rfl, -⟩ := respond_returns hx.sound hp' r env
      rw [hp] at hstep
      simp only [ht, ok_bind] at hstep
      cases hstep
      exact .inr ⟨p, s', c, m, rfl, hsoft, hc, rfl⟩

theorem handled_routed {l : List Event} (h : Routed s t r l) :
    Routed s (t.handled r) r (l ++ [.handled r]) where
  trace := by simp [Server.handled, Server.log, h.trace]
  own e he := by
    rcases List.mem_append.1 he with he | he
    · exact h.own e he
    · rw [List.mem_singleton.1 he]
      trivial
  others := h.others
  answered hw ht := List.mem_append_left _ (h.answered hw ht)
  dropped ht := by
    obtain ⟨hev, hlists⟩ := h.dropped ht
    refine ⟨fun e he => ?_, hlists⟩
    rcases List.mem_append.1 he with he | he
    · exact hev e he
    · rw [List.mem_singleton.1 he]
      rfl

theorem soft_concerns {e : Event} (h : SoftEvent s e) : Concerns s r e := by
  cases e with
  | queue src p conn fid sid arg sent =>
      obtain ⟨-, -, -, -, -, harg, -⟩ := h
      cases arg with
      | reply r' => exact absurd rfl (harg r')
      | status sta => trivial
      | json data => trivial
  | control => trivial
  | _ => cases h

theorem answered_routed {s' : Server} {c : ApiCall} {m : Net} (hs : WF s) (hsoft : Soft s s')
    (hcall : idTarget s r.msg.id r.call = true) (env : SendEnv) :
    ∃ evs, Routed s (answered (s'.withNet m) r.call c r env) r evs := by
  obtain ⟨evs, htrace, hev⟩ := hsoft.trace
  have htarget := target_of_idTarget hs hcall
  refine ⟨evs ++ (replyFrames (s'.withNet m) r.call r env ++
    .respond r.call r :: if c.longTerm then [] else [.free r.call]), ?_, ?_, ?_, ?_, ?_⟩
  · rw [answered_trace, ← List.append_assoc s.trace, ← htrace]
    rfl
  · intro e he
    rcases List.mem_append.1 he with he | he
    · exact soft_concerns (hev e he)
    · rcases List.mem_append.1 he with he | he
      · obtain ⟨d, y, hd, rfl⟩ := mem_replyFrames he
        obtain ⟨c', x, hc', hw, hconn, -⟩ := (hsoft.trans (.withNet s' m)).target_back hd
        exact ⟨rfl, c', x, hc', hconn.symm, hw.fid, hw.id⟩
      · rcases List.mem_cons.1 he with rfl | he
        · rfl
        · split at he
          · cases he
          · rw [List.mem_singleton.1 he]
            rfl
  · intro p hp
    rw [answered_waiting]
    have hwait : (s'.withNet m).pxWsApiWaitingForResponse = s.pxWsApiWaitingForResponse :=
      hsoft.waiting
    have hlist : p ∈ (answered (s'.withNet m) r.call c r env).pxWsApiCall ↔ p ∈ s.pxWsApiCall := by
      unfold answered
      rw [← hsoft.lists]
      cases c.longTerm with
      | true =>
          have : p ∈ s'.pxWsApiCall.erase r.call ++ [r.call] ↔ p ∈ s'.pxWsApiCall := by
            simp [hp, List.mem_erase_of_ne hp]
          exact this
      | false => exact List.mem_erase_of_ne hp
    rw [hwait]
    exact ⟨hlist, List.mem_erase_of_ne hp⟩
  · intro _ _
    simp
  · intro hnone
    rw [hnone] at htarget
    cases htarget

theorem routed_step_iff {x y : System} (hr : Reachable (machine P) x) {a : Label}
    (h : (machine P).Step x a y) : RoutedStep x a y ↔ UnshadowedStep x a y := by
  have hx := reachable_inv hr
  have hs := hx.sound.wf
  constructor
  · rintro hrouted env r rfl hw hid
    rw [unshadowed_iff hs]
    intro p hp
    obtain ⟨evs, hev⟩ := hrouted env r rfl hw hid
    rcases taken_step hx hw hid h with ⟨hnone, -⟩ | ⟨p', s', c, m, hp', hsoft, -, hy⟩
    · rw [hnone] at hp
      cases hp
    · obtain rfl : p' = p := Option.some.inj (hp'.symm.trans hp)
      -- the answer to the picked call is among the events of the step
      have hmem : .respond p' r ∈ evs := by
        obtain ⟨evs', htrace, -⟩ := hsoft.trace
        have htr : y.srv.trace = x.srv.trace ++ (evs' ++ (replyFrames (s'.withNet m) p' r env.reply ++
            .respond p' r :: if c.longTerm then [] else [.free p']) ++ [.handled r]) := by
          rw [hy, Server.handled, Server.log]
          simp only [answered_trace, ← List.append_assoc x.srv.trace, ← htrace]
          rfl
        rw [hev.trace] at htr
        rw [List.append_cancel_left htr]
        simp
      exact hev.own _ hmem
  · rintro hun env r rfl hw hid
    rcases taken_step hx hw hid h with ⟨hnone, hy⟩ | ⟨p, s', c, m, hp, hsoft, -, hy⟩
    · rw [hy]
      refine ⟨_, handled_routed (l := []) ⟨by simp, by simp, fun _ _ => ⟨.rfl, .rfl⟩, ?_, ?_⟩⟩
      · intro hwait htarget
        obtain ⟨⟨c, z⟩, ht⟩ := Option.isSome_iff_exists.1 htarget
        obtain ⟨hc, q, hq, -⟩ := target_eq_some_iff.1 ht
        have hid' : c.ulId = r.msg.id := by
          have hl := (reachable_labelled hr).reply r (by
            have := hx.pc
            rw [hw] at this
            simp [replies, show x.srv.handling = some r from this])
          have := (hl.2 c hc).2
          split at this
          · exact absurd this hid
          · exact this.symm
        have := List.find?_eq_none.1 hnone r.call hwait
        exact absurd (idTarget_iff.2 ⟨c, hc, hid', by simp [hq]⟩) this
      · exact fun _ => ⟨by simp, rfl, rfl⟩
    · obtain rfl := picked_eq (hun env r rfl hw hid) hp
      obtain ⟨evs, hev⟩ := answered_routed (m := m) hs hsoft (c := c) (List.find?_some hp) env.reply
      rw [hy]
      exact ⟨_, handled_routed hev⟩

/-- In exactly those runs in which no reply finds its call shadowed, every
reply goes to its own call and to no other one. -/
theorem routed_iff_unshadowed {x y : System} {as : List Label} (h : Reachable (machine P) x) :
    Along (machine P) RoutedStep x as y ↔ Along (machine P) UnshadowedStep x as y :=
  Along.congr h (fun _ _ _ hr hstep => routed_step_iff hr hstep)

def unshadowed (x : System) : Label → Bool
  | .worker _ => match x.worker with
    | .taken r => r.msg.id == 0 || decide (Unshadowed x.srv r)
    | _ => true
  | _ => true

theorem unshadowedStep_of {x y : System} {a : Label} (h : unshadowed x a = true) :
    UnshadowedStep x a y := by
  rintro env r rfl hw hid
  simpa [unshadowed, hw, hid] using h

def twoClients : List Label :=
  [.registerQueue 0x1013 (some 0) true true, .registerQueue 0x1113 (some 1) true true,
    .connect 1 true, .connect 2 true] ++
  request 0 (0x1013, 0, 5) ++ request 1 (0x1113, 0, 5) ++ work 9

def clients : Platform := platform [(0x1013, 0, 5), (0x1113, 0, 5)]

theorem routed_two_clients : ∃ y, Along (machine clients) RoutedStep (initSystem (fun _ => 10))
    (twoClients ++ [.periphTake 0, .periphAnswer 0 (some [49])] ++ work 2 ++
      [.periphTake 1, .periphAnswer 1 (some [50])] ++ work 2) y := by
  have h : (machine clients).check unshadowed (fun _ => true) (initSystem (fun _ => 10))
      (twoClients ++ [.periphTake 0, .periphAnswer 0 (some [49])] ++ work 2 ++
        [.periphTake 1, .periphAnswer 1 (some [50])] ++ work 2) = true := by decide +kernel
  obtain ⟨y, hy, -⟩ := exists_of_check h
  exact ⟨y, (routed_iff_unshadowed (.init ⟨_, rfl⟩)).2 (hy.imp (fun _ _ _ => unshadowedStep_of))⟩

/-- The Modbus answer comes first, and the worker gives it to the other
client's call. -/
theorem two_clients_misrouted : ∃ x y, Reachable (machine clients) x ∧
    (machine clients).Step x (.worker okEnv) y ∧ ¬ RoutedStep x (.worker okEnv) y := by
  have h : (machine clients).reaches (initSystem (fun _ => 10))
      (twoClients ++ [.periphTake 1, .periphAnswer 1 (some [50])] ++ work 1)
      (fun x => match x.worker with
        | .taken r => r.msg.id != 0 && !decide (Unshadowed x.srv r)
        | _ => false) = true := by decide +kernel
  obtain ⟨x, hrun, hx⟩ := exists_of_reaches h
  have hr : Reachable (machine clients) x := ⟨_, _, ⟨_, rfl⟩, hrun⟩
  obtain ⟨y, hy, -⟩ := step_does (P := clients) (reachable_inv hr)
    (allows_anything clients x (.worker okEnv)) rfl
  have hstep : (machine clients).Step x (.worker okEnv) y := congrArg some hy
  refine ⟨x, y, hr, hstep, fun hrouted => ?_⟩
  cases hw : x.worker with
  | taken r =>
      simp only [hw, Bool.and_eq_true, bne_iff_ne, Bool.not_eq_true', decide_eq_false_iff_not] at hx
      exact hx.2 ((routed_step_iff hr hstep).1 hrouted okEnv r rfl hw hx.1)
  | _ => simp [hw] at hx

end WirelessGateway.Routing
