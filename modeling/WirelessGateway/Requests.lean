import WirelessGateway.Operations

namespace WirelessGateway.Requests

open CJson WirelessGateway.Types Memory WsServer Transport Tasks Buffers Sends WellFormed SoftSteps
open Lifecycle Operations Lib.Fallible

variable {P : Platform} {G : Guard} {s t : Server} {conn : ConnPtr} {k : Conn} {q : SessPtr}

theorem attached_allocCall (hs : WF s) (hk : s.conns conn = some k) (hq : k.userData = some q)
    {c : ApiCall} (hc : c.session = some q) : Attached (s.allocCall c) := by
  intro p d q' hd hq'
  by_cases hp : p = s.nextCall
  · rw [hp, allocCall_calls_self, Option.some.injEq] at hd
    rw [← hd, hc, Option.some.injEq] at hq'
    obtain ⟨x, hx, -⟩ := hs.userData conn k q hk hq
    exact ⟨x, hq' ▸ hx⟩
  · rw [allocCall_calls_ne hp] at hd
    exact hs.attached p d q' hd hq'

theorem attempts_allocCall (hs : WF s) (hk : s.conns conn = some k) (hq : k.userData = some q)
    {c : ApiCall} (hc : c.session = some q) (arg : Payload) (env : SendEnv) :
    attempts (s.allocCall c) .httpd s.nextCall arg env = if env.alloc then
      [.queue .httpd s.nextCall conn c.ulFid c.ulId arg (env.sent s.nextCall)] else [] := by
  obtain ⟨x, hx, hconn⟩ := hs.userData conn k q hk hq
  have htarget : target (s.allocCall c) s.nextCall = some (c, x) :=
    target_eq (allocCall_calls_self s c) hc hx
  simp only [attempts, htarget, hconn]

theorem rejectCall_eq (hs : Sound s) (hk : s.conns conn = some k) (hq : k.userData = some q)
    {c : ApiCall} (hc : c.session = some q) (sta : UInt32) (env : SendEnv) : ∃ m, NetOk m ∧
      rejectCall (s.allocCall c) s.nextCall sta env = .ok (rejected (s.withNet m)
        (attempts (s.allocCall c) .httpd s.nextCall (.status sta) env)) := by
  have hcall := allocCall_calls_self s c
  obtain ⟨m, hm, he⟩ := apiCallSendJson_eq (attached_allocCall hs.wf hk hq hc) hs.net hcall .httpd
    (.status sta) env
  have hcall' : (record (s.allocCall c) m (attempts (s.allocCall c) .httpd s.nextCall
      (.status sta) env)).calls s.nextCall = some c := hcall
  simp only [rejectCall, bApiCallSendStatus, he, ok_bind, Server.freeCall, call_eq hcall', pure_ok]
  have hfree : Function.update (s.allocCall c).calls s.nextCall none = s.calls := by
    simp only [Server.allocCall, Function.update_idem]
    rw [← hs.wf.fresh (Nat.le_refl _), Function.update_eq_self]
  have hrej : rejected (s.withNet m) (attempts (s.allocCall c) .httpd s.nextCall (.status sta) env) =
      { record (s.allocCall c) m (attempts (s.allocCall c) .httpd s.nextCall (.status sta) env) with
        calls := Function.update (s.allocCall c).calls s.nextCall none }.log (.free s.nextCall) := by
    rw [hfree]
    rfl
  exact ⟨m, hm, congrArg Except.ok hrej.symm⟩

theorem rejectCall_outside (hs : Sound s) (hk : s.conns conn = some k) (hq : k.userData = some q)
    {c : ApiCall} (hc : c.session = some q) (sta : UInt32) (env : SendEnv) :
    Returns (rejectCall (s.allocCall c) s.nextCall sta env) (Outside P G s) := by
  obtain ⟨m, hm, he⟩ := rejectCall_eq hs hk hq hc sta env
  have hopen : ((s.withNet m).conns conn).isSome := by simp [Server.withNet, hk]
  refine ⟨_, he, Outer.after (.withNet s m) (.reject hopen ?_) hm⟩
  intro e he
  rw [attempts_allocCall hs.wf hk hq hc] at he
  split_ifs at he
  · exact ⟨_, _, sta, _, List.mem_singleton.1 he⟩
  · cases he

theorem wsServerOnText_outside (hs : Sound s) (hk : s.conns conn = some k) (data : Option Bytes)
    (env : TextEnv) (hG : ∀ json sid, textAccepts P s k.userData data env = some json →
      frameNumber json ['S', 'I', 'D'] = some sid → G.accept s sid) :
    Returns (wsServerOnText P s conn k.userData data env) (Outside P G s) := by
  have hself : Returns (pure s : Fallible Server) (Outside P G s) := .pure (.soft (.refl s) hs.net)
  unfold wsServerOnText
  split
  next q b bs hq =>
    split_ifs with halloc
    · exact hself
    · split
      · exact hself
      next json hjson =>
        split_ifs with hfid
        · exact hself
        · split
          next fl sid hfl hsid =>
            dsimp only
            split_ifs with hnone
            · exact rejectCall_outside hs hk hq rfl _ _
            · refine .pure (.act (.accept hk hq hfid hfl hsid (hG json sid ?_ hsid)) hs.net)
              have hroute : (s.findHandler (frameFid json)).isSome ∨
                  (s.wsGetFidQueue (frameFid json)).isSome := by
                simpa [textCall, or_iff_not_imp_left, Option.isSome_iff_ne_none] using hnone
              simp [textAccepts, hq, hjson, hfl, hsid, hfid, hroute,
                show env.callAlloc = true by simpa using halloc, Option.filter]
          · exact rejectCall_outside hs hk hq rfl _ _
  · exact hself

theorem wsServerOnDisconnect_outside (hs : Sound s) (hk : s.conns conn = some k) :
    Returns (wsServerOnDisconnect s conn k.userData) (Outside P G s) := by
  have hstep : ∀ t, Soft s t → t.net = s.net →
      (∀ q, k.userData = some q → ∀ p c, t.calls p = some c → c.session ≠ some q) →
      Outside P G s (hangUp t conn k.userData) := by
    intro t ht hn hfree
    have hsame : (hangUp t conn k.userData).net = t.net ∧
        (hangUp t conn k.userData).handling = t.handling := by
      cases k.userData with
      | none => exact ⟨rfl, rfl⟩
      | some q => exact ⟨rfl, rfl⟩
    refine Outer.after ht (.disconnect (ht.conns ▸ hk) hfree) ?_ hsame.2
    rw [hsame.1, hn]
    exact hs.net
  cases hq : k.userData with
  | none =>
      have := hstep s (.refl s) rfl (by simp [hq])
      rw [hq] at this
      exact .pure this
  | some q =>
      obtain ⟨x, hx, -⟩ := hs.wf.userData conn k q hk hq
      simp only [wsServerOnDisconnect, session_eq hx, ok_bind]
      apply (vBreakApiCallsByFd_quiet x.fd hs.wf).bind
      rintro t ⟨⟨ht, hn⟩, hdet⟩
      obtain ⟨y, hy, -, hfd⟩ := ht.session hx
      have := hstep t ht hn (by
        intro q' hq' p c hc hcq
        rw [hq, Option.some.injEq] at hq'
        subst hq'
        exact hdet p c hc c q y hc hcq hy hfd)
      rw [hq] at this
      exact .pure this

end WirelessGateway.Requests
