import WirelessGateway.Steps
import WirelessGateway.Updates

namespace WirelessGateway.Transfers

open CJson WirelessGateway.Types Memory WsServer Transport Worker Tasks Sends WellFormed SoftSteps
open Lifecycle Steps Updates Lib.Fallible Lib.Runs

variable {P : Platform} {s t : Server} {p : CallPtr} {c : ApiCall} {q : SessPtr} {z : ApiSession}

/-- A send that is outstanding carries the descriptor of its session, as long as
that session lives. Descriptors come back, sessions do not. -/
structure InflightOk (s : Server) : Prop where
  lt : ∀ u ∈ s.net.inflight, u.sess < s.nextSess
  fd : ∀ u ∈ s.net.inflight, ∀ z, s.sessions u.sess = some z → z.fd = u.fd
  live : ∀ q z, s.sessions q = some z → q < s.nextSess

theorem InflightOk.fewer (h : InflightOk s) (hn : ∀ u ∈ t.net.inflight, u ∈ s.net.inflight)
    (hs : ∀ q z, t.sessions q = some z → ∃ z', s.sessions q = some z' ∧ z.fd = z'.fd)
    (hnext : t.nextSess = s.nextSess) : InflightOk t where
  lt u hu := by
    rw [hnext]
    exact h.lt u (hn u hu)
  fd u hu z hz := by
    obtain ⟨z', hz', hfd⟩ := hs _ z hz
    rw [hfd]
    exact h.fd u (hn u hu) z' hz'
  live q z hz := by
    obtain ⟨z', hz', -⟩ := hs q z hz
    rw [hnext]
    exact h.live q z' hz'

theorem release_inflight {n m : Net} {b : BufPtr} (h : n.release b = .ok m) :
    m.inflight = n.inflight := by
  obtain ⟨d, -, rfl⟩ := Buffers.release_cases h
  rfl

theorem update_inflightOk (h : Update s t) (hi : InflightOk s) : InflightOk t := by
  have hsame : t.net.inflight = s.net.inflight → t.sessions = s.sessions →
      t.nextSess = s.nextSess → InflightOk t := by
    intro hn hs hx
    refine hi.fewer (fun u hu => hn ▸ hu) (fun q z hz => ⟨z, ?_, rfl⟩) hx
    rw [← hs]
    exact hz
  cases h with
  | @send p c q z b hc hq hz =>
      refine ⟨fun u hu => ?_, fun u hu y hy => ?_, hi.live⟩
      · rcases List.mem_append.1 hu with hu | hu
        · exact hi.lt u hu
        · rw [List.mem_singleton.1 hu]
          exact hi.live q z hz
      · rcases List.mem_append.1 hu with hu | hu
        · exact hi.fd u hu y hy
        · rw [List.mem_singleton.1 hu] at hy ⊢
          have hy' : s.sessions q = some y := hy
          rw [hz, Option.some.injEq] at hy'
          exact hy' ▸ rfl
  | release hr => exact hsame (release_inflight hr) rfl rfl
  | transferred i =>
      exact hi.fewer (fun u hu => List.mem_of_mem_eraseIdx hu) (fun q z hz => ⟨z, hz, rfl⟩) rfl
  | @session q z y hz hfd =>
      refine hi.fewer (fun u hu => hu) (fun q' w hw => ?_) rfl
      have hnew : Function.update s.sessions q (some y) q' = some w := hw
      by_cases hq : q' = q
      · rw [hq, Function.update_self, Option.some.injEq] at hnew
        exact ⟨z, hq ▸ hz, hnew ▸ hfd⟩
      · rw [Function.update_of_ne hq] at hnew
        exact ⟨w, hnew, rfl⟩
  | freeSession q =>
      refine hi.fewer (fun u hu => hu) (fun q' w hw => ⟨w, ?_, rfl⟩) rfl
      have hnew : Function.update s.sessions q none q' = some w := hw
      by_cases hq : q' = q
      · rw [hq, Function.update_self] at hnew
        cases hnew
      · rwa [Function.update_of_ne hq] at hnew
  | connect fd alloc =>
      cases alloc with
      | false => exact hsame rfl rfl rfl
      | true =>
          refine ⟨fun u hu => Nat.lt_succ_of_lt (hi.lt u hu), fun u hu z hz => ?_, fun q z hz => ?_⟩
          · have hne : u.sess ≠ s.nextSess := Nat.ne_of_lt (hi.lt u hu)
            have hold : Function.update s.sessions s.nextSess _ u.sess = some z := hz
            rw [Function.update_of_ne hne] at hold
            exact hi.fd u hu z hold
          · have hnew : Function.update s.sessions s.nextSess _ q = some z := hz
            by_cases hq : q = s.nextSess
            · rw [hq]
              exact Nat.lt_succ_self _
            · rw [Function.update_of_ne hq] at hnew
              exact Nat.lt_succ_of_lt (hi.live q z hnew)
  | _ => exact hsame rfl rfl rfl

theorem reachable_inflightOk {x : System} (h : Reachable (machine P) x) : InflightOk x.srv := by
  refine reachable_writes (fun depth => ⟨?_, ?_, ?_⟩) (fun s t hu hi => update_inflightOk hu hi) h
  · intro u hu
    cases hu
  · intro u hu
    cases hu
  · intro q z hz
    cases hz

theorem vBreakApiCallsByFd_keeps {fd : Int} (hc : s.calls p = some c) (hq : c.session = some q)
    (hz : s.sessions q = some z) (hfd : z.fd ≠ fd) :
    Yields (vBreakApiCallsByFd s fd) (fun t => t.calls p = some c) := by
  have hact : ∀ (t : Server) (i : CallPtr), t.calls p = some c ∧ t.sessions = s.sessions →
      Yields (vBreakApiCallByFd fd t i) (fun t => t.calls p = some c ∧ t.sessions = s.sessions) := by
    rintro t i ⟨hct, hst⟩
    unfold vBreakApiCallByFd
    refine .bind (fun d hd => ?_)
    split_ifs
    · exact .pure ⟨hct, hst⟩
    · refine .bind (fun y hy => ?_)
      split_ifs with hyfd
      · refine .bind (fun e _ => .pure ⟨?_, hst⟩)
        have hne : p ≠ i := by
          rintro rfl
          obtain ⟨q', hq', hyq⟩ := sessions_of_session hy
          rw [calls_of_call hd, Option.some.injEq] at hct
          rw [hct, hq, Option.some.injEq] at hq'
          rw [hst, ← hq', hz, Option.some.injEq] at hyq
          exact hfd (hyq ▸ hyfd)
        exact (setCall_calls_ne hne).trans hct
      · exact .pure ⟨hct, hst⟩
  unfold vBreakApiCallsByFd Server.forEach
  refine .bind (fun t ht => ?_)
  have hfold : ∀ (l : List CallPtr) (t : Server), t.calls p = some c ∧ t.sessions = s.sessions →
      Yields (l.foldlM (vBreakApiCallByFd fd) t)
        (fun t => t.calls p = some c ∧ t.sessions = s.sessions) :=
    fun l t ht => Yields.foldlM ht hact
  exact (hfold _ t ((hfold _ s ⟨hc, rfl⟩).result t ht)).mono (fun u hu => hu.1)

/-- A failed transfer takes the session away from no call of another session than
the one that the frame was sent on. -/
def OwnTransferStep (x : System) (a : Label) (y : System) : Prop :=
  ∀ i took t, a = .transferComplete i true took → x.srv.net.inflight[i]? = some t →
    ∀ p c q, x.srv.calls p = some c → c.session = some q → q ≠ t.sess →
      ∃ d, y.srv.calls p = some d ∧ d.session = some q

/-- A failed completion that gets the mutex comes while the session of its frame
lives, or while no call belongs to a connection with its descriptor. -/
def LiveTransferStep (x : System) (a : Label) (_ : System) : Prop :=
  ∀ i t, a = .transferComplete i true true → x.srv.net.inflight[i]? = some t →
    (∃ z, x.srv.sessions t.sess = some z) ∨
      ∀ p c q z, x.srv.calls p = some c → c.session = some q → x.srv.sessions q = some z →
        z.fd ≠ t.fd

theorem transfer_step {x y : System} (hr : Reachable (machine P) x) {i : Nat} {err took : Bool}
    {t : Transfer} (ht : x.srv.net.inflight[i]? = some t)
    (h : (machine P).Step x (.transferComplete i err took) y) :
    ((err && took) = false → y.srv.calls = x.srv.calls) ∧
      ((err && took) = true → ∃ u, vBreakApiCallsByFd (x.srv.withNet
        { x.srv.net with inflight := x.srv.net.inflight.eraseIdx i }) t.fd = .ok u ∧
          y.srv.calls = u.calls) := by
  have h : step P x (.transferComplete i err took) = some (.ok y) := h
  simp only [step, vWsTransferComplete, ht] at h
  have hrelease : ∀ {v : Server} {b : Bool} {op : Fallible Server}, x.lift b op = some (.ok y) →
      Yields op (fun w => w.calls = v.calls) → y.srv.calls = v.calls := by
    intro v b op hop hcalls
    obtain ⟨-, t, ht, rfl⟩ := lift_ok hop
    exact hcalls.result t ht
  cases hb : err && took with
  | false =>
      rw [hb] at h
      refine ⟨fun _ => hrelease h ?_, by simp⟩
      simp only [Bool.false_eq_true, if_false, pure_ok, ok_bind]
      exact .bind (fun n _ => .pure rfl)
  | true =>
      obtain ⟨u, hu, -⟩ := vBreakApiCallsByFd_quiet t.fd
        ((Soft.withNet x.srv { x.srv.net with inflight := x.srv.net.inflight.eraseIdx i }).wf
          (reachable_inv hr).sound.wf)
      rw [hb] at h
      simp only [if_true, hu, ok_bind] at h
      exact ⟨by simp, fun _ => ⟨u, hu, hrelease h (.bind (fun n _ => .pure rfl))⟩⟩

theorem own_transfer_step_iff {x y : System} (hr : Reachable (machine P) x) {a : Label}
    (h : (machine P).Step x a y) : OwnTransferStep x a y ↔ LiveTransferStep x a y := by
  have hs := (reachable_inv hr).sound.wf
  constructor
  · rintro hown i t rfl ht
    rw [or_iff_not_imp_left]
    intro hgone p c q z hc hq hz hfd
    have hne : q ≠ t.sess := by
      rintro rfl
      exact hgone ⟨z, hz⟩
    obtain ⟨d, hd, hdq⟩ := hown i true t rfl ht p c q hc hq hne
    -- the broken calls are the ones of the descriptor
    obtain ⟨u, hu, hcalls⟩ := (transfer_step hr ht h).2 rfl
    obtain ⟨hquiet, hdet⟩ := (vBreakApiCallsByFd_quiet t.fd ((Soft.withNet x.srv _).wf hs)).eq_ok hu
    rw [hcalls] at hd
    obtain ⟨w, hw, -, hwfd⟩ := hquiet.1.session (q := q) hz
    exact hdet p d hd d q w hd hdq hw (hwfd.trans hfd)
  · rintro hlive i took t rfl ht p c q hc hq hne
    cases took with
    | false =>
        rw [(transfer_step hr ht h).1 rfl]
        exact ⟨c, hc, hq⟩
    | true =>
        obtain ⟨z, hz⟩ := hs.attached p c q hc hq
        have hfd : z.fd ≠ t.fd := by
          rcases hlive i t rfl ht with ⟨w, hw⟩ | hnone
          · intro he
            have hwfd := (reachable_inflightOk hr).fd t (List.mem_of_getElem? ht) w hw
            have hconn := hs.fds _ _ _ _ (hs.owner q z hz) (hs.owner t.sess w hw) (he.trans hwfd.symm)
            have howner := hs.owner q z hz
            rw [hconn, hs.owner t.sess w hw] at howner
            simp only [Option.some.injEq, Conn.mk.injEq] at howner
            exact hne howner.2.symm
          · exact hnone p c q z hc hq hz
        obtain ⟨u, hu, hcalls⟩ := (transfer_step hr ht h).2 rfl
        have hkeeps := vBreakApiCallsByFd_keeps (s := x.srv.withNet
          { x.srv.net with inflight := x.srv.net.inflight.eraseIdx i }) hc hq hz hfd
        rw [hcalls]
        exact ⟨c, hkeeps.result u hu, hq⟩

/-- In exactly the runs in which every failed completion comes in the lifetime of
its session, or finds no call under its descriptor, a failed transfer hurts its own
connection only. -/
theorem own_transfer_iff {x y : System} {as : List Label} (h : Reachable (machine P) x) :
    Along (machine P) OwnTransferStep x as y ↔ Along (machine P) LiveTransferStep x as y :=
  Along.congr h (fun _ _ _ hr hstep => own_transfer_step_iff hr hstep)

def liveTransfer (x : System) : Label → Bool
  | .transferComplete i true true => (x.srv.net.inflight[i]?).all (fun t =>
      (x.srv.sessions t.sess).isSome)
  | _ => true

theorem liveTransferStep_of {x y : System} {a : Label} (h : liveTransfer x a = true) :
    LiveTransferStep x a y := by
  rintro i t rfl ht
  simp only [liveTransfer, ht, Option.all_some] at h
  exact .inl (Option.isSome_iff_exists.1 h)

def echoes : Platform := platform [(0x1013, 0, 5), (0x1013, 0, 6)]

def forwardedEcho : List Label :=
  [.registerQueue 0x1013 (some 0) true true, .connect 1 true] ++ request 0 (0x1013, 0, 5) ++ work 8

theorem own_transfer_two : ∃ y, Along (machine echoes) OwnTransferStep (initSystem (fun _ => 10))
      (forwardedEcho ++ [.connect 2 true] ++ request 1 (0x1013, 0, 6) ++
        [.transferComplete 0 true true]) y ∧
    ((y.srv.calls 0).bind ApiCall.session) = none ∧
      ((y.srv.calls 1).bind ApiCall.session) = some 1 := by
  have h : (machine echoes).check liveTransfer
      (fun y => ((y.srv.calls 0).bind ApiCall.session) == none &&
        ((y.srv.calls 1).bind ApiCall.session) == some 1) (initSystem (fun _ => 10))
      (forwardedEcho ++ [.connect 2 true] ++ request 1 (0x1013, 0, 6) ++
        [.transferComplete 0 true true]) = true := by decide +kernel
  obtain ⟨y, hrun, hy⟩ := exists_of_check h
  rw [Bool.and_eq_true, beq_iff_eq, beq_iff_eq] at hy
  exact ⟨y, (own_transfer_iff (.init ⟨_, rfl⟩)).2 (hrun.imp (fun _ _ _ => liveTransferStep_of)), hy⟩

/-- The first client is gone and a second one has got its descriptor when the
status fails. -/
theorem own_transfer_reused : ∃ x y, Reachable (machine echoes) x ∧
    (machine echoes).Step x (.transferComplete 0 true true) y ∧
    ¬ OwnTransferStep x (.transferComplete 0 true true) y := by
  have h : (machine echoes).reaches (initSystem (fun _ => 10))
      (forwardedEcho ++ [.disconnect 0, .connect 1 true] ++ request 1 (0x1013, 0, 6))
      (fun x => (x.srv.net.inflight[0]?).map Transfer.sess == some 0 &&
        (x.srv.calls 1).bind ApiCall.session == some 1 &&
        ((machine echoes).reaches x [.transferComplete 0 true true] (fun y =>
          (y.srv.calls 1).bind ApiCall.session == none))) = true := by decide +kernel
  obtain ⟨x, hrun, hx⟩ := exists_of_reaches h
  simp only [Bool.and_eq_true, beq_iff_eq, Option.map_eq_some_iff, Option.bind_eq_some_iff] at hx
  obtain ⟨⟨⟨t, ht, hsess⟩, c, hc, hq⟩, hlast⟩ := hx
  obtain ⟨y, hstep, hgone⟩ := exists_step_of_reaches hlast
  refine ⟨x, y, ⟨_, _, ⟨_, rfl⟩, hrun⟩, hstep, fun hown => ?_⟩
  obtain ⟨d, hd, hdq⟩ := hown 0 true t rfl ht 1 c 1 hc hq (by rw [hsess]; decide)
  rw [hd, Option.bind_some, hdq] at hgone
  cases hgone

end WirelessGateway.Transfers
