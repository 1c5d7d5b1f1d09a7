import WirelessGateway.Orphans
import WirelessGateway.Polling
import WirelessGateway.StatusProtocol

namespace WirelessGateway.Conditions

open CJson WirelessGateway.Types Memory WsServer Transport Worker Tasks Sends WellFormed SoftSteps
open Lifecycle Operations Forwarding ForwardPass Steps Provenance Outcomes Uart Modbus Gateway
open Polling Lib.Linked Lib.Runs

variable {P : Platform} {G : Guard} {s t : Server} {p q : CallPtr} {c d : ApiCall}
  {x y : System} {a : Label}

section Announced

/-- The worker can allocate every DELIVERED status, and the transport takes it. -/
def AnnouncedStep (_ : System) (a : Label) (_ : System) : Prop :=
  ∀ env, a = .worker env → env.status.alloc = true ∧ ∀ p, env.status.sent p = true

def AllTold (s : Server) : Prop :=
  ∀ p ∈ s.pxWsApiWaitingForResponse, ∀ c, s.calls p = some c → c.isNew = true → c.session = none

theorem AllTold.keep (h : AllTold s)
    (hsub : t.pxWsApiWaitingForResponse ⊆ s.pxWsApiWaitingForResponse)
    (hcalls : ∀ p ∈ t.pxWsApiWaitingForResponse, ∀ e, t.calls p = some e →
      ∃ c, s.calls p = some c ∧ Evolves c e) : AllTold t := by
  intro p hp e he hnew
  obtain ⟨c, hc, hev⟩ := hcalls p hp e he
  have hold : c.isNew = true := by
    by_contra hn
    rw [hev.isNew (by simpa using hn)] at hnew
    cases hnew
  have hnone := h p (hsub hp) c hc hold
  rcases hev.session with hs | hs
  · rw [hs, hnone]
  · exact hs

theorem AllTold.same (h : AllTold s) (hw : t.pxWsApiWaitingForResponse = s.pxWsApiWaitingForResponse)
    (hc : t.calls = s.calls) : AllTold t :=
  h.keep (hw ▸ List.Subset.refl _) (fun _ _ e he => ⟨e, hc ▸ he, .refl e⟩)

theorem AllTold.soft (h : AllTold s) (hs : Soft s t) : AllTold t := by
  refine h.keep (hs.waiting ▸ List.Subset.refl _) (fun p _ e he => ?_)
  obtain ⟨c, hc, hw⟩ := hs.call_back he
  exact ⟨c, hc, weaker_evolves hw⟩

theorem AllTold.of_removed (h : AllTold s) (p : CallPtr) : AllTold (removed s p) := by
  refine h.keep (List.erase_subset ..) (fun q _ e he => ?_)
  obtain ⟨c, hc, hev, -⟩ := removed_was he
  exact ⟨c, hc, hev⟩

theorem AllTold.of_frames (h : AllTold s) (evs : List Event) : AllTold (frames s evs) := h.same rfl rfl

theorem AllTold.of_deleted (hs : WF s) (h : AllTold s) (hc : s.calls p = some c) (env : SendEnv) :
    AllTold (deleted s p c env) := by
  cases ht : target s p with
  | none =>
    rw [deleted, ht]
    exact (h.of_frames _).of_removed p
  | some z =>
    obtain ⟨c', k⟩ := z
    obtain rfl : c = c' := Option.some.inj (hc.symm.trans (target_eq_some_iff.1 ht).1)
    refine h.keep ?_ (fun q _ e he => ?_)
    · rw [deleted_waiting hs ht]
      exact fun q hq => List.mem_of_mem_filter hq
    · rw [deleted_calls hs ht] at he
      split at he
      · cases he
      · exact ⟨e, he, .refl e⟩

theorem AllTold.of_told (hs : Attached s) {env : SendEnv} (henv : env.alloc = true ∧ ∀ p, env.sent p = true)
    (h : ∀ q ∈ s.pxWsApiWaitingForResponse, q ≠ p → ∀ c, s.calls q = some c → c.isNew = true →
      c.session = none) (hd : s.calls p = some d) : AllTold (told s p env) := by
  have hother : ∀ q ≠ p, q ∈ (told s p env).pxWsApiWaitingForResponse → ∀ e,
      (told s p env).calls q = some e → e.isNew = true → e.session = none := by
    intro q hq hw e he hnew
    rw [told_calls_ne hq] at he
    have hw' : q ∈ s.pxWsApiWaitingForResponse := by
      rw [told, hd] at hw
      dsimp only at hw
      split at hw
      · exact hw
      · exact hw
    exact h q hw' hq e he hnew
  intro q hw e he hnew
  by_cases hq : q = p
  · subst hq
    rw [told, hd] at he
    dsimp only at he
    split at he
    next _ =>
      rw [announced, setCall_calls_self, Option.some.injEq] at he
      split at he
      next _ =>
        subst he
        simp at hnew
      next hlost =>
        -- it could only fail for want of a session
        subst he
        cases hsess : d.session with
        | none => rfl
        | some k =>
          obtain ⟨k', -, ht⟩ := hs.target hd hsess
          exact absurd (by simp [delivered, ht, henv.1, henv.2]) hlost
    next hold =>
      rw [hd, Option.some.injEq] at he
      exact absurd (he ▸ hnew) hold
  · exact hother q hq hw e he hnew

theorem AllTold.of_passed (hs : WF s) (h : AllTold s) (hc : s.calls p = some c) {env : WorkerEnv}
    (henv : env.status.alloc = true ∧ ∀ p, env.status.sent p = true) :
    AllTold (passed s p c env) := by
  rw [passed]
  split_ifs with hdel hpark
  · exact h.of_deleted hs hc env.status
  · exact h
  · cases hq : s.wsGetFidQueue c.ulFid with
    | none => exact (h.of_frames _).of_removed p
    | some u =>
      obtain ⟨d, hd, -⟩ := attempted_call hc u env
      have hd' : ((attempted s p c u env).toWaiting p).calls p = some d := hd
      have hattached : Attached ((attempted s p c u env).toWaiting p) := (attempted_wf hs hc u env).attached
      refine .of_told hattached henv (fun q hw hq e he => ?_) hd'
      have hkeep : (attempted s p c u env).pxWsApiWaitingForResponse = s.pxWsApiWaitingForResponse := by
        unfold attempted
        split_ifs <;> rfl
      have hw' : q ∈ s.pxWsApiWaitingForResponse.erase p := by
        rw [← hkeep]
        exact (List.mem_append.1 hw).resolve_right (fun hm => hq (List.mem_singleton.1 hm))
      exact h q (List.mem_of_mem_erase hw') e ((attempted_calls_ne hq).symm.trans he)

theorem AllTold.of_answered (hs : WF s) (h : AllTold s) (r : Reply) (env : SendEnv) :
    AllTold (answered s p c r env) := by
  have hnodup := (List.nodup_append.1 hs.nodup).2.1
  refine h.keep ?_ (fun q hq e he => ⟨e, ?_, .refl e⟩)
  · rw [answered_waiting]
    exact List.erase_subset ..
  · rw [answered_waiting, hnodup.mem_erase_iff] at hq
    exact (answered_calls_ne r env hq.1).symm.trans he

theorem outer_waiting (h : Outer P G s t) :
    t.pxWsApiWaitingForResponse ⊆ s.pxWsApiWaitingForResponse := by
  cases h with
  | @connect fd alloc _ => cases alloc <;> exact List.Subset.refl _
  | @disconnect n k _ _ =>
    generalize k.userData = u
    cases u <;> exact List.Subset.refl _
  | accept => exact List.erase_subset ..
  | _ => exact List.Subset.refl _

theorem AllTold.apart {l : Bool} (hs : WF s) (h : AllTold s) (hapart : Apart P G l s t) : AllTold t := by
  obtain ⟨s', hsoft, houter⟩ := hapart.1.outer
  have hs' := hsoft.wf hs
  refine (h.soft hsoft).keep (outer_waiting houter) (fun q hq e he => ?_)
  obtain ⟨c, hc⟩ := hs'.call_of_mem (.inr (outer_waiting houter hq))
  exact act_evolves houter.act he (hs'.nextCall q (by rw [hc]; rfl))

theorem step_allTold (hr : Reachable (machine P) x) (h : (machine P).Step x a y)
    (ha : AnnouncedStep x a y) (hi : AllTold x.srv) : AllTold y.srv := by
  have hs := (reachable_inv hr).sound.wf
  rcases step_outcome hr h with ⟨env, rfl, hout⟩ | ⟨-, -, hapart⟩
  · generalize y.srv = t at hout ⊢
    generalize y.worker = pc at hout
    have hanswered : ∀ {q r s c m}, Soft x.srv s →
        AllTold (answered (s.withNet m) q c r env.reply) := by
      intro q r s c m hsoft
      have hsoft' : Soft x.srv (s.withNet m) := hsoft.trans (.withNet s m)
      exact (hi.soft hsoft').of_answered (hsoft'.wf hs) r env.reply
    cases hout with
    | turned => exact hi
    | swept => exact hi.of_removed _
    | kept _ _ _ hsoft => exact hi.soft hsoft
    | passed _ _ hc => exact (hi.of_passed hs hc (ha env rfl)).same rfl rfl
    | received => exact hi.same rfl rfl
    | unanswered => exact hi.same rfl rfl
    | answered _ _ _ hsoft => exact (hanswered hsoft).same rfl rfl
    | broadcast _ _ hsoft => exact hanswered hsoft
  · exact hi.apart hs hapart

/-- No data is sent before DELIVERED in a run in which no DELIVERED status is
refused. -/
theorem announced_clear {as : List Label} (hx : (machine P).init x)
    (h : Along (machine P) AnnouncedStep x as y) :
    Along (machine P) StatusProtocol.ClearStep x as y := by
  refine h.imp_of_invariant (I := fun x => AllTold x.srv) (.init hx) ?_
    (fun _ _ _ hr hi hstep ha => step_allTold hr hstep ha hi) (fun x a y hr hi hstep ha => ?_)
  · obtain ⟨depth, rfl⟩ := hx
    exact fun p hp => absurd hp List.not_mem_nil
  · rintro env r p c rfl hans hc - hsent
    by_contra hold
    have hnone := hi p (answering_waiting hr hans) c hc (by simpa using hold)
    rw [delivered, target_eq_none hc hnone] at hsent
    cases hsent

end Announced

section Separate

variable {B : Base64} {lib : ModbusLib} {g h : Device} {b : GatewayLabel}

def Unused (s : Server) (sid : UInt32) : Prop :=
  ∀ p c, s.calls p = some c → c.session.isSome → c.ulId ≠ sid &&& 0xffff

def Separate (s : Server) : Prop :=
  ∀ p q c d, s.calls p = some c → s.calls q = some d → c.session.isSome → d.session.isSome →
    c.ulId = d.ulId → p = q

def unusedGuard : Guard := { anything with accept := Unused }

theorem act_live (h : Act P unusedGuard s t) {e : ApiCall} (he : t.calls p = some e)
    (hlive : e.session.isSome) : (∃ c, s.calls p = some c ∧ c.session.isSome ∧ c.ulId = e.ulId) ∨
      (p = s.nextCall ∧ ∀ q c, s.calls q = some c → c.session.isSome → c.ulId ≠ e.ulId) := by
  rcases act_calls h he with ⟨c, hc, hev, -⟩ | ⟨hp, n, json, sid, -, -, -, hid, hG⟩
  · obtain ⟨k, hk⟩ := Option.isSome_iff_exists.1 hlive
    exact .inl ⟨c, hc, by rw [hev.session_some hk]; rfl, hev.id.symm⟩
  · rw [hid]
    exact .inr ⟨hp, hG⟩

theorem act_separate (h : Act P unusedGuard s t) (hi : Separate s) : Separate t := by
  intro p q c d hc hd hcl hdl hid
  rcases act_live h hc hcl with ⟨c', hc', hcl', hcid⟩ | ⟨hp, hnone⟩
  · rcases act_live h hd hdl with ⟨d', hd', hdl', hdid⟩ | ⟨-, hnone'⟩
    · exact hi p q c' d' hc' hd' hcl' hdl' (by rw [hcid, hid, hdid])
    · exact absurd (hcid.trans hid) (hnone' p c' hc' hcl')
  · rcases act_live h hd hdl with ⟨d', hd', hdl', hdid⟩ | ⟨hq, -⟩
    · exact absurd (hdid.trans hid.symm) (hnone q d' hd' hdl')
    · rw [hp, hq]

def UnusedStep (P : Platform) (x : System) (env : TextEnv) : Prop :=
  ∀ conn data json sid, x.httpd = .text conn data →
    textAccepts P x.srv ((x.srv.conns conn).bind Conn.userData) data env = some json →
    frameNumber json ['S', 'I', 'D'] = some sid → Unused x.srv sid

theorem allows_unused (h : ∀ env, a = .text env → UnusedStep P x env) : Allows P unusedGuard x a := by
  have hany := allows_anything P x a
  cases a with
  | text env => exact h env rfl
  | _ => exact hany

theorem allowed_separate (hr : Reachable (Tasks.machine P) x) (h : (Tasks.machine P).Step x a y)
    (ha : ∀ env, a = .text env → UnusedStep P x env) (hi : Separate x.srv) : Separate y.srv :=
  along_acts (fun _ _ _ hact hi => act_separate hact hi) hr hi
    (Along.step .start h (allows_unused ha))

/-- Requests can be allocated and are answered, there is room for every answer,
and no client uses the SID of a live call. -/
def SeparateStep (B : Base64) (P : Platform) (g : Device) (b : GatewayLabel) (h : Device) : Prop :=
  match b with
  | .server (.worker env) => ∀ p, g.sys.worker = .forward (some p) →
      wouldStall g.sys.srv p env = true → target g.sys.srv p = none
  | .server (.text env) => UnusedStep P g.sys env
  | b => Orphans.AttentiveStep B P g b h

theorem step_separate (hg : Reachable (Gateway.machine B lib P) g)
    (hstep : (Gateway.machine B lib P).Step g b h) (hb : SeparateStep B P g b h)
    (hi : Separate g.sys.srv) : Separate h.sys.srv := by
  have hr := Gateway.reachable_sys hg
  have hsend : ∀ {q r msg}, (Tasks.machine P).Step g.sys (Gateway.sendLabel q r msg) h.sys →
      Separate h.sys.srv := by
    intro q r msg hs
    refine allowed_separate hr hs (fun env he => ?_) hi
    cases msg with
    | none => cases he
    | some msg =>
      rw [Gateway.sendLabel] at he
      split at he <;> cases he
  cases Gateway.step_move hstep with
  | server _ hs _ =>
    refine allowed_separate hr hs (fun env he => ?_) hi
    subst he
    exact hb
  | uartTake hs _ => exact allowed_separate hr hs (fun _ he => by cases he) hi
  | mbTake hs _ => exact allowed_separate hr hs (fun _ he => by cases he) hi
  | dropped _ _ _ hs _ => exact allowed_separate hr hs (fun _ he => by cases he) hi
  | sent _ _ hs _ => exact hsend hs
  | mbHandled _ _ hs _ => exact hsend hs
  | handled _ _ _ he =>
    rw [he]
    exact hi
  | received he =>
    rw [he]
    exact hi

theorem Separate.spared (hi : Separate s) (r : Reply) : Orphans.Spared s r := by
  intro z hz hpick c hc hlive hid
  have hmatch : idTarget s r.msg.id z = true := idTarget_iff.2 ⟨c, hc, hid, hlive⟩
  cases hp : picked s r.msg.id with
  | none => exact absurd hmatch (List.find?_eq_none.1 hp z hz)
  | some p =>
    obtain ⟨d, hd, hdid, hdl⟩ := idTarget_iff.1 (List.find?_some hp)
    have he := hi p z d c hd hc hdl hlive (hdid.trans hid.symm)
    exact absurd (he ▸ hp) hpick

/-- No reply takes away what another call waits for in a run in which no two
live calls have one SID. -/
theorem separate_attentive {as : List GatewayLabel} (hg : (Gateway.machine B lib P).init g)
    (hrun : Along (Gateway.machine B lib P) (SeparateStep B P) g as h) :
    Along (Gateway.machine B lib P) (Orphans.AttentiveStep B P) g as h := by
  refine hrun.imp_of_invariant (I := fun g => Separate g.sys.srv) (.init hg) ?_
    (fun _ _ _ hr hi hstep hb => step_separate hr hstep hb hi) (fun g b h hr hi hstep hb => ?_)
  · intro p q c d hc
    rw [hg.1] at hc
    cases hc
  · cases b with
    | server l =>
      cases l with
      | worker env =>
        unfold Orphans.AttentiveStep
        cases hw : g.sys.worker with
        | forward item =>
          cases item with
          | none => trivial
          | some p => exact hb p hw
        | taken r => exact fun _ => hi.spared r
        | _ => trivial
      | _ => trivial
    | _ => exact hb

end Separate

section Own

variable {u : QueueId} {r : Reply}

def queued (s : Server) (p : CallPtr) : Nat := s.xWsWorkerQueue.countP (fun r => r.call == p)

/-- What is on its way for a call, from its request on. -/
def underway (s : Server) (u : QueueId) (p : CallPtr) : Nat := pending s u p + queued s p

structure Alone (s : Server) : Prop where
  idle : ∀ p ∈ s.pxWsApiCall, ∀ u, underway s u p = 0
  one : ∀ u p, underway s u p ≤ 1
  place : ∀ u v p, pending s u p ≠ 0 → pending s v p ≠ 0 → u = v

/-- The message that is handled was the last one for its call. -/
def InHand (s : Server) : Prop :=
  ∀ r, s.handling = some r → r.call ∈ s.pxWsApiWaitingForResponse → ∀ u, underway s u r.call = 0

theorem busy_pending {r : Request} (hb : (s.periph u).busy = some r) : pending s u r.call ≠ 0 := by
  simp [pending, outstanding, hb]

theorem act_queue (h : Act P G s t) : t.xWsWorkerQueue.Sublist s.xWsWorkerQueue ∨
    ∃ u r id pub data, (s.periph u).busy = some r ∧ t = posted s u r id pub data := by
  have hsame : SameMessages s t → t.xWsWorkerQueue.Sublist s.xWsWorkerQueue :=
    fun h => h.queue ▸ List.Sublist.refl _
  cases h with
  | post hb => exact .inr ⟨_, _, _, _, _, hb, rfl⟩
  | soft h => exact .inl (hsame ⟨h.periph, h.handling, h.queue⟩)
  | connect => exact .inl (hsame (connect_messages ..))
  | disconnect => exact .inl (hsame (hangUp_messages ..))
  | respond => exact .inl (hsame (answered_messages ..))
  | receive hr => exact .inl (hr ▸ List.sublist_cons_self ..)
  | _ => exact .inl (List.Sublist.refl _)

theorem queued_posted (s : Server) (u : QueueId) (r : Request) (id : UInt32) (pub : Bool)
    (data : Option Bytes) (p : CallPtr) :
    queued (posted s u r id pub data) p = queued s p + if r.call = p then 1 else 0 := by
  simp [queued, posted, Server.setPeriph, List.countP_append, List.countP_singleton]

theorem pending_posted {r : Request} (hb : (s.periph u).busy = some r) (id : UInt32) (pub : Bool)
    (data : Option Bytes) (v : QueueId) (p : CallPtr) : pending s v p =
      pending (posted s u r id pub data) v p + if v = u ∧ r.call = p then 1 else 0 := by
  by_cases hv : v = u
  · subst hv
    simp [pending, outstanding, posted, Server.setPeriph, hb, List.countP_append, List.countP_cons]
    omega
  · simp [pending, outstanding, posted, Server.setPeriph, hv]

theorem act_load (h : Act P G s t) : (∀ u p, pending t u p ≤ pending s u p ∧ queued t p ≤ queued s p) ∨
    (∃ p c u, p ∈ s.pxWsApiCall ∧ t = (forwarded s p c u).toWaiting p) ∨
    ∃ u r id pub data, (s.periph u).busy = some r ∧ t = posted s u r id pub data := by
  rcases act_queue h with hq | hpost
  · rcases act_requests h with hsub | ⟨p, c, u, hp, -, -, he⟩
    · exact .inl (fun u p => ⟨pending_mono hsub u p, hq.countP_le⟩)
    · exact .inr (.inl ⟨p, c, u, hp, he⟩)
  · exact .inr (.inr hpost)

theorem queued_fresh (hl : Labelled s) : queued s s.nextCall = 0 := by
  rw [queued, List.countP_eq_zero]
  intro r hr he
  have hlt := (hl.reply r (List.mem_append_right _ hr)).1
  rw [beq_iff_eq.1 he] at hlt
  exact Nat.lt_irrefl _ hlt

def aloneGuard : Guard :=
  { anything with respond := fun s p _ => ∀ c, s.calls p = some c → c.longTerm = true →
      ∀ u, underway s u p = 0 }

theorem act_idle (hl : Labelled s) (h : Act P aloneGuard s t) (hi : Alone s) (hp : p ∈ t.pxWsApiCall)
    (u : QueueId) : underway s u p = 0 := by
  rcases act_lists h with hlist | ⟨q, hlist, hq⟩
  · exact hi.idle p (hlist.subset hp) u
  · rw [hlist, List.mem_append, List.mem_singleton] at hp
    rcases hp with hp | rfl
    · exact hi.idle p (List.mem_of_mem_erase hp) u
    · rcases hq with rfl | ⟨c, r, hc, hlong, hG⟩
      · rw [underway, pending_fresh hl, queued_fresh hl]
      · exact hG c hc hlong u

theorem Alone.posted (hi : Alone s) {r : Request} (hb : (s.periph u).busy = some r) (id : UInt32)
    (pub : Bool) (data : Option Bytes) : Alone (posted s u r id pub data) := by
  have hload := fun v p => pending_posted hb id pub data v p
  have hqueue := fun p => queued_posted s u r id pub data p
  have hbusy := busy_pending hb
  refine ⟨fun p hp v => ?_, fun v p => ?_, fun v w p hv hw => ?_⟩
  · have hz := hi.idle p hp v
    have hne : r.call ≠ p := by
      rintro rfl
      have := hi.idle r.call hp u
      exact hbusy (Nat.eq_zero_of_add_eq_zero_right this)
    simp only [underway, hqueue, hload v p, hne, and_false, if_false, Nat.add_zero] at hz ⊢
    exact hz
  · have hone := hi.one v p
    by_cases hp : r.call = p
    · subst hp
      by_cases hv : v = u
      · subst hv
        simp only [underway, hqueue, hload v r.call, and_self, if_true] at hone ⊢
        omega
      · -- nothing else was under way for the call that the message is for
        have hzero : pending s v r.call = 0 := by
          by_contra hne
          exact hv (hi.place v u r.call hne hbusy)
        have hone' := hi.one u r.call
        have hmono := hload v r.call
        simp only [underway, hqueue, if_true] at hone hone' ⊢
        omega
    · simp only [underway, hqueue, hload v p, hp, and_false, if_false, Nat.add_zero] at hone ⊢
      exact hone
  · have hv' := hload v p
    have hw' := hload w p
    exact hi.place v w p (by omega) (by omega)

theorem act_alone (hs : WF s) (hl : Labelled s) (h : Act P aloneGuard s t) (hi : Alone s) :
    Alone t := by
  rcases act_load h with hle | ⟨p, c, u, hp, rfl⟩ | ⟨u, r, id, pub, data, hb, rfl⟩
  · have hmono : ∀ u p, underway t u p ≤ underway s u p := fun u p => Nat.add_le_add (hle u p).1 (hle u p).2
    refine ⟨fun p hp u => ?_, fun u p => (hmono u p).trans (hi.one u p), fun u v p hu hv => ?_⟩
    · exact Nat.le_zero.1 (act_idle hl h hi hp u ▸ hmono u p)
    · have hu' := (hle u p).1
      have hv' := (hle v p).1
      exact hi.place u v p (by omega) (by omega)
  · have hpend := fun v z => pending_forwarded s p c u v z
    have hload : ∀ v z, underway ((forwarded s p c u).toWaiting p) v z =
        underway s v z + if v = u ∧ p = z then 1 else 0 := by
      intro v z
      have hqueue : queued ((forwarded s p c u).toWaiting p) z = queued s z := rfl
      rw [underway, hpend, hqueue, underway]
      omega
    refine ⟨fun z hz v => ?_, fun v z => ?_, fun v w z hv hw => ?_⟩
    · have hz' : z ∈ s.pxWsApiCall.erase p := hz
      have hne : p ≠ z := by
        rintro rfl
        exact (hs.nodup.of_append_left.mem_erase_iff.1 hz').1 rfl
      rw [hload, hi.idle z (List.mem_of_mem_erase hz') v, if_neg (fun he => hne he.2)]
    · rw [hload]
      split
      next he => rw [← he.2, hi.idle p hp v]
      next => exact hi.one v z
    · by_cases hz : p = z
      · subst hz
        have hzero : ∀ v, pending s v p = 0 := fun v => Nat.eq_zero_of_add_eq_zero_right (hi.idle p hp v)
        simp only [hpend, hzero, and_true, Nat.zero_add, ne_eq, ite_eq_right_iff, not_forall] at hv hw
        obtain ⟨rfl, -⟩ := hv
        exact hw.1.symm
      · simp only [hpend, hz, and_false, if_false, Nat.add_zero] at hv hw
        exact hi.place v w z hv hw
  · exact hi.posted hb id pub data

/-- Every message that is handled for a LONG_TERM call answers a request of that
call. -/
def OwnStep (x : System) (a : Label) (_ : System) : Prop :=
  ∀ env r p c, a = .worker env → answering x = some (r, p) → x.srv.calls p = some c →
    c.longTerm = true → r.call = p

theorem own_settled (hr : Reachable (machine P) x) (ha : OwnStep x a y) (hi : InHand x.srv) :
    ∀ env r p c, a = .worker env → answering x = some (r, p) → x.srv.calls p = some c →
      c.longTerm = true → ∀ u, underway x.srv u p = 0 := by
  intro env r p c hworker hans hc hlong u
  have hcall := ha env r p c hworker hans hc hlong
  have hpc := (reachable_inv hr).pc
  have hhand : x.srv.handling = some r := by
    rcases answering_worker hans with ⟨hw, -, -⟩ | hw
    · rw [hw] at hpc
      exact hpc
    · rw [hw] at hpc
      exact hpc.1
  subst hcall
  exact hi r hhand (answering_waiting hr hans) u

theorem own_allows (hr : Reachable (machine P) x) (ha : OwnStep x a y) (hi : InHand x.srv) :
    Allows P aloneGuard x a := by
  have hany := allows_anything P x a
  cases a with
  | worker env =>
    refine ⟨fun r p hp s' hsoft => ⟨fun d hd hlong u => ?_, fun _ _ => trivial⟩, hany.2⟩
    obtain ⟨c, hc, hw⟩ := hsoft.call_back hd
    have hzero := own_settled hr ha hi env r p c rfl hp hc (hw.longTerm ▸ hlong) u
    simpa only [underway, queued, pending, outstanding, hsoft.periph, hsoft.queue] using hzero
  | _ => exact hany

theorem InHand.keep (hi : InHand s) (hh : t.handling = s.handling)
    (hw : t.pxWsApiWaitingForResponse ⊆ s.pxWsApiWaitingForResponse)
    (hload : ∀ p, (∀ u, underway s u p = 0) → ∀ u, underway t u p = 0) : InHand t :=
  fun r hr hmem => hload r.call (hi r (hh ▸ hr) (hw hmem))

theorem InHand.same (hi : InHand s) (h : SameMessages s t)
    (hw : t.pxWsApiWaitingForResponse ⊆ s.pxWsApiWaitingForResponse) : InHand t := by
  refine hi.keep h.handling hw (fun p hz u => ?_)
  simpa only [underway, queued, pending, outstanding, h.periph, h.queue] using hz u

theorem InHand.none (h : s.handling = none) : InHand s := fun r hr => by
  rw [h] at hr
  cases hr

theorem InHand.received (hi : Alone s) {rs : List Reply} (hq : s.xWsWorkerQueue = r :: rs) :
    InHand (s.receive r rs) := by
  intro r' hr' _ u
  cases hr'
  have hone := hi.one u r.call
  have hqueue : queued s r.call = rs.countP (fun m => m.call == r.call) + 1 := by
    rw [queued, hq, List.countP_cons, if_pos (beq_self_eq_true _)]
  show pending s u r.call + rs.countP (fun m => m.call == r.call) = 0
  rw [underway, hqueue] at hone
  omega

theorem InHand.apart {l : Bool} (hs : WF s) (hi : InHand s) (h : Apart P G l s t) : InHand t := by
  obtain ⟨s', hsoft, houter⟩ := h.1.outer
  have hi' : InHand s' := hi.same ⟨hsoft.periph, hsoft.handling, hsoft.queue⟩ (hsoft.waiting ▸ List.Subset.refl _)
  have hh : t.handling = s'.handling := h.1.handling.trans hsoft.handling.symm
  refine hi'.keep hh (outer_waiting houter) (fun p hz u => ?_)
  rcases act_load houter.act with hle | ⟨q, c, v, hq, rfl⟩ | ⟨v, m, id, pub, data, hb, rfl⟩
  · exact Nat.le_zero.1 (hz u ▸ Nat.add_le_add (hle u p).1 (hle u p).2)
  · -- no other task makes a call wait
    have hwait := outer_waiting houter (List.mem_append_right _ (List.mem_singleton.2 rfl))
    exact absurd hwait ((hsoft.wf hs).not_waiting hq)
  · have hne : m.call ≠ p := by
      rintro rfl
      exact busy_pending hb (Nat.eq_zero_of_add_eq_zero_right (hz v))
    have hzero := hz u
    have hload := pending_posted hb id pub data u p
    simp only [underway, queued_posted, hne, if_false, and_false, Nat.add_zero] at hzero hload ⊢
    omega

theorem step_inHand (hr : Reachable (machine P) x) (h : (machine P).Step x a y) (halone : Alone x.srv)
    (hi : InHand x.srv) : InHand y.srv := by
  have hs := (reachable_inv hr).sound.wf
  have hpc := (reachable_inv (hr.step h)).pc
  rcases step_outcome hr h with ⟨env, rfl, hout⟩ | ⟨-, -, hapart⟩
  · generalize y.srv = t at hout hpc ⊢
    generalize y.worker = pc at hout hpc
    cases hout with
    | turned => exact hi
    | swept => exact hi.same ⟨rfl, rfl, rfl⟩ (List.erase_subset ..)
    | kept _ _ _ hsoft =>
      exact hi.same ⟨hsoft.periph, hsoft.handling, hsoft.queue⟩ (hsoft.waiting ▸ List.Subset.refl _)
    | passed => exact .none hpc.1
    | received _ hq => exact .received halone hq
    | unanswered => exact .none hpc
    | answered => exact .none hpc
    | @broadcast r p next c s m _ _ hsoft =>
      have hsame := answered_messages (s.withNet m) p c r env.reply
      refine hi.same ⟨hsame.periph.trans hsoft.periph, hsame.handling.trans hsoft.handling,
        hsame.queue.trans hsoft.queue⟩ ?_
      rw [answered_waiting]
      exact fun q hq => hsoft.waiting ▸ List.mem_of_mem_erase hq
  · exact hi.apart hs hapart

/-- Polling stays bounded in a run in which every message that is handled for a
LONG_TERM call answers a request of that call. -/
theorem own_answered {as : List Label} (hx : (machine P).init x)
    (h : Along (machine P) OwnStep x as y) : Along (machine P) AnsweredStep x as y := by
  refine h.imp_of_invariant (I := fun x => Alone x.srv ∧ InHand x.srv) (.init hx) ?_
    (fun x a y hr hi hstep ha => ⟨?_, step_inHand hr hstep hi.1 hi.2⟩) (fun x a y hr hi _ ha => ?_)
  · obtain ⟨depth, rfl⟩ := hx
    exact ⟨⟨fun _ hp => absurd hp List.not_mem_nil, fun _ _ => Nat.zero_le 1,
      fun _ _ _ hp => absurd rfl hp⟩, .none rfl⟩
  · have hacts := along_acts (G := aloneGuard) (I := fun s => Labelled s ∧ Alone s)
      (fun _ _ hs hact hi => ⟨act_labelled hs hact hi.1, act_alone hs hi.1 hact hi.2⟩) hr
      ⟨reachable_labelled hr, hi.1⟩ (Along.step .start hstep (own_allows hr ha hi.2))
    exact hacts.2
  · intro env r p c hworker hans hc hlong u
    exact Nat.eq_zero_of_add_eq_zero_right (own_settled hr ha hi.2 env r p c hworker hans hc hlong u)

end Own

end WirelessGateway.Conditions
