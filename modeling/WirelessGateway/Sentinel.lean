import WirelessGateway.Provenance

namespace WirelessGateway.Sentinel

open CJson WirelessGateway.Types Memory WsServer Transport Worker Tasks WellFormed Lifecycle Steps
open Provenance Lib.Fallible Lib.Runs

variable {P : Platform} {s t : Server}

structure Reserved (s : Server) : Prop where
  calls : ∀ p c, s.calls p = some c → c.ulId ≠ 0
  requests : ∀ q, ∀ r ∈ outstanding s q, r.msg.id ≠ 0
  replies : ∀ m ∈ replies s, m.published = false → m.msg.id ≠ 0

def sidGuard : Guard := { anything with accept := fun _ sid => sid &&& 0xffff ≠ 0 }

theorem act_reserved (h : Act P sidGuard s t) (hr : Reserved s) : Reserved t := by
  obtain ⟨hreq, hrep⟩ := act_messages h
  refine ⟨fun p d hd => ?_, fun q r hm => ?_, fun m hm hpub => ?_⟩
  · rcases act_calls h hd with ⟨c, hc, hev, -⟩ | ⟨-, n, json, sid, -, -, -, hid, hG⟩
    · exact hev.id ▸ hr.calls p c hc
    · exact hid ▸ hG
  · rcases hreq q r hm with hm | ⟨p, c, hc, -, rfl⟩
    · exact hr.requests q r hm
    · exact hr.calls p c hc
  · rcases hrep m hm with hm | ⟨q, r, hm, -, -, hid⟩
    · exact hr.replies m hm hpub
    · rw [hpub] at hid
      exact hid ▸ hr.requests q r hm

/-- No accepted call has id 0, and the worker broadcasts nothing that answers
the request of a single client. -/
structure SentinelFree (x : System) : Prop where
  calls : ∀ p ∈ x.srv.pxWsApiCall ++ x.srv.pxWsApiWaitingForResponse,
    ∀ c, x.srv.calls p = some c → c.ulId ≠ 0
  replies : ∀ m ∈ replies x.srv, m.published = false → m.msg.id ≠ 0
  broadcast : ∀ r it, x.worker = .broadcast r it → r.published = true

theorem sentinelFree_of {x : System} (hx : Inv x) (h : Reserved x.srv) : SentinelFree x where
  calls p _ := h.calls p
  replies := h.replies
  broadcast r it hw := by
    have hpc := hx.pc
    rw [hw] at hpc
    by_contra hpub
    exact h.replies r (by simp [replies, hpc.1]) (by simpa using hpub) hpc.2.1

/-- A frame that is taken up has a SID that is not a multiple of 65536. -/
def SidStep (P : Platform) (x : System) (a : Label) (_ : System) : Prop :=
  ∀ env conn data json sid, a = .text env → x.httpd = .text conn data →
    textAccepts P x.srv ((x.srv.conns conn).bind Conn.userData) data env = some json →
    frameNumber json ['S', 'I', 'D'] = some sid → sid &&& 0xffff ≠ 0

theorem SidStep.allows {x y : System} {a : Label} (h : SidStep P x a y) : Allows P sidGuard x a := by
  have hany := allows_anything P x a
  cases a with
  | text env => exact fun conn data json sid => h env conn data json sid rfl
  | _ => exact hany

theorem wsServerOnText_accepted (conn : ConnPtr) {userData : Option SessPtr} {data : Option Bytes}
    {env : TextEnv} {json : Json} {sid : UInt32}
    (h : textAccepts P s userData data env = some json)
    (hsid : frameNumber json ['S', 'I', 'D'] = some sid) :
    ∃ q, wsServerOnText P s conn userData data env = .ok (accepted s conn json
      (acceptedCall P env.printAlloc json q sid (s.findHandler (frameFid json)))) := by
  unfold textAccepts at h
  split at h
  next q b bs =>
    obtain ⟨hparse, hok⟩ := Option.filter_eq_some_iff.1 h
    simp only [Bool.and_eq_true, Bool.or_eq_true, bne_iff_ne] at hok
    obtain ⟨⟨⟨⟨halloc, hfid⟩, hfl⟩, -⟩, hroute⟩ := hok
    obtain ⟨fl, hfl⟩ := Option.isSome_iff_exists.1 hfl
    have hnone : ((s.findHandler (frameFid json)).isNone &&
        (s.wsGetFidQueue (frameFid json)).isNone) = false := by
      rcases hroute with hr | hr
      · simp [Option.isNone_eq_false_iff.2 hr]
      · simp [Option.isNone_eq_false_iff.2 hr]
    refine ⟨q, ?_⟩
    simp only [wsServerOnText, halloc, hparse, hfid, hfl, hsid, Bool.not_true, Bool.false_eq_true,
      if_false]
    exact if_neg (ne_true_of_eq_false hnone)
  next => cases h

theorem sidStep_of {x y : System} {a : Label} (hstep : (machine P).Step x a y)
    (hy : SentinelFree y) : SidStep P x a y := by
  rintro env conn data json sid rfl hhttpd haccept hsid hzero
  obtain ⟨q, he⟩ := wsServerOnText_accepted conn haccept hsid
  have hy' : (System.lift ⟨x.srv, x.worker, .idle⟩ (!x.worker.locked)
      (wsServerOnText P x.srv conn ((x.srv.conns conn).bind Conn.userData) data env)) =
      some (.ok y) := by
    have := hstep
    simpa only [Machine.Step, machine, step, hhttpd] using this
  obtain ⟨-, t, ht, rfl⟩ := lift_ok hy'
  rw [he] at ht
  cases ht
  have hmem : x.srv.nextCall ∈ x.srv.pxWsApiCall.erase x.srv.nextCall ++ [x.srv.nextCall] := by
    simp
  exact hy.calls _ (List.mem_append_left _ hmem) _ (allocCall_calls_self x.srv _) hzero

/-- Id 0 is left to the broadcasts in exactly those runs in which no SID of a
frame that is taken up is a multiple of 65536. -/
theorem sentinel_free_iff {x y : System} {as : List Label} (hx : (machine P).init x) :
    Along (machine P) (fun _ _ z => SentinelFree z) x as y ↔
      Along (machine P) (SidStep P) x as y := by
  have hinit : Reserved x.srv := by
    obtain ⟨depth, rfl⟩ := hx
    refine ⟨fun p c hc => ?_, fun q r hr => ?_, fun m hm => ?_⟩
    · simp [initSystem, initServer] at hc
    · simp [outstanding, initSystem, initServer] at hr
    · simp [replies, initSystem, initServer] at hm
  constructor
  · intro h
    induction h with
    | start => exact .start
    | step run hstep hcond ih =>
        exact .step ih hstep (sidStep_of hstep hcond)
  · intro h
    induction h with
    | start => exact .start
    | step run hstep hcond ih =>
        have hrun := Along.step run hstep hcond
        refine .step ih hstep (sentinelFree_of (reachable_inv (hrun.reachable (.init hx))) ?_)
        exact along_acts (fun s t _ hact => act_reserved hact) (.init hx) hinit
          (hrun.imp (fun _ _ _ h => h.allows))

def echoClients (sid : Nat) : List Label :=
  [.registerQueue 0x1013 (some 0) true true, .connect 1 true, .connect 2 true] ++
  request 0 (0x1013, 0, sid) ++ request 1 (0x1013, 0, 5) ++ work 9 ++
  [.periphTake 0, .periphAnswer 0 (some [49])] ++ work 3

def echoPlatform (sid : Nat) : Platform := platform [(0x1013, 0, sid), (0x1013, 0, 5)]

def sidOk (P : Platform) (x : System) : Label → Bool
  | .text env => match x.httpd with
    | .text conn data =>
      (textAccepts P x.srv ((x.srv.conns conn).bind Conn.userData) data env).all (fun json =>
        (frameNumber json ['S', 'I', 'D']).all (fun sid => sid &&& 0xffff != 0))
    | .idle => true
  | _ => true

theorem sidStep_of_ok {x y : System} {a : Label} (h : sidOk P x a = true) : SidStep P x a y := by
  rintro env conn data json sid rfl hhttpd haccept hsid
  simpa [sidOk, hhttpd, haccept, hsid] using h

theorem sentinel_free_echo : ∃ y, Along (machine (echoPlatform 7)) (fun _ _ z => SentinelFree z)
    (initSystem (fun _ => 10)) (echoClients 7) y := by
  have h : (machine (echoPlatform 7)).check (sidOk (echoPlatform 7)) (fun _ => true)
      (initSystem (fun _ => 10)) (echoClients 7) = true := by decide +kernel
  obtain ⟨y, hy, -⟩ := exists_of_check h
  exact ⟨y, (sentinel_free_iff ⟨_, rfl⟩).2 (hy.imp (fun _ _ _ => sidStep_of_ok))⟩

def crossed : Event → Bool
  | .queue .worker p _ _ _ (.reply r) true => !r.published && p != r.call
  | _ => false

/-- SID 65536 is accepted as id 0, and the answer goes to both clients. -/
theorem sentinel_taken : ∃ x, Reachable (machine (echoPlatform 65536)) x ∧ ¬ SentinelFree x ∧
    ∃ z, Run (machine (echoPlatform 65536)) x
        (work 9 ++ [.periphTake 0, .periphAnswer 0 (some [49])] ++ work 4) z ∧
      z.srv.trace.any crossed = true := by
  have h : (machine (echoPlatform 65536)).reaches (initSystem (fun _ => 10))
      ([.registerQueue 0x1013 (some 0) true true, .connect 1 true, .connect 2 true] ++
        request 0 (0x1013, 0, 65536) ++ request 1 (0x1013, 0, 5))
      (fun x => x.srv.pxWsApiCall.any (fun p => (x.srv.calls p).any (fun c => c.ulId == 0)) &&
        (machine (echoPlatform 65536)).reaches x
          (work 9 ++ [.periphTake 0, .periphAnswer 0 (some [49])] ++ work 4)
          (fun z => z.srv.trace.any crossed)) = true := by decide +kernel
  obtain ⟨x, hrun, hx⟩ := exists_of_reaches h
  rw [Bool.and_eq_true] at hx
  obtain ⟨z, hrun', hz⟩ := exists_of_reaches hx.2
  refine ⟨x, ⟨_, _, ⟨_, rfl⟩, hrun⟩, fun hfree => ?_, z, hrun', hz⟩
  obtain ⟨p, hp, hc⟩ := List.any_eq_true.1 hx.1
  obtain ⟨c, hc, hid⟩ := (Option.any_eq_true _ _).1 hc
  exact hfree.calls p (List.mem_append_left _ hp) c hc (by simpa using hid)

end WirelessGateway.Sentinel
