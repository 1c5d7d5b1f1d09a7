import WirelessGateway.Broadcast
import WirelessGateway.Gateway

namespace WirelessGateway.Subscribers

open CJson WirelessGateway.Types Memory WsServer Transport Worker Tasks Sends WellFormed SoftSteps
open Lifecycle Operations Steps Outcomes Provenance Broadcast Uart Modbus ModbusTransaction Gateway
open Lib.Linked Lib.Fallible Lib.Runs

variable {B : Base64} {lib : ModbusLib} {P : Platform} {g h : Device} {a : GatewayLabel}
variable {s t : Server} {p : CallPtr} {c : ApiCall} {r : Reply}

section Chunks

def subscribed (fid : UInt32) (c : ApiCall) : Bool :=
  c.ulFid == fid && c.longTerm && !c.isNew && !c.toDelete && c.session.isSome

def subscribers (s : Server) (fid : UInt32) : List CallPtr :=
  (s.pxWsApiCall ++ s.pxWsApiWaitingForResponse).filter (fun p => (s.calls p).any (subscribed fid))

/-- What the UART task has published of a chunk, and whose subscription was live
when it was drained. -/
structure Chunk where
  message : Reply
  subscribers : List CallPtr

/-- The chunks of a run. The worker is through with those that are handled. -/
structure Ledger where
  draining : Option (List CallPtr)
  published : List Chunk
  handled : List Chunk

def rawRxContext (app : UartApp) (fid : UInt32) : Option UartSubscriptionContext :=
  if fid = espWsApiUart1RawRx then some (app.context ⟨0, Nat.two_pos⟩)
  else if fid = espWsApiUart2RawRx then some (app.context ⟨1, Nat.one_lt_two⟩)
  else none

def drained (g : Device) : Option (List CallPtr) :=
  (g.sys.srv.periph cmdQueue).busy.bind (fun m =>
    if (rawRxContext g.app m.msg.fid).any (fun ctx => !ctx.buf.isEmpty) then
      some (subscribers g.sys.srv m.msg.fid)
    else none)

def publishes (g : Device) (k : Ledger) : List Chunk :=
  match (g.sys.srv.periph cmdQueue).busy, g.sending, k.draining with
  | some m, some msg, some subs =>
    if msg.id = 0 ∧ hasRoom g.sys.srv then
      [⟨⟨msg, m.call, decide (msg.id ≠ m.msg.id), g.sys.srv.nextReply⟩, subs⟩]
    else []
  | _, _, _ => []

def Ledger.note (g : Device) (a : GatewayLabel) (k : Ledger) : Ledger :=
  match a with
  | .uartHandle _ => { k with draining := drained g }
  | .uartSend => { k with draining := none, published := k.published ++ publishes g k }
  | .server (.worker _) => match g.sys.worker with
    | .broadcast r none =>
      { k with handled := k.handled ++ k.published.filter (fun e => decide (e.message = r)) }
    | _ => k
  | _ => k

def ledgered (B : Base64) (lib : ModbusLib) (P : Platform) :
    Machine (Device × Ledger) GatewayLabel Fault :=
  (machine B lib P).carry ⟨none, [], []⟩ Ledger.note

def Queued (s : Server) (p : CallPtr) (r : Reply) : Prop :=
  ∃ conn fid sid, Event.queue .worker p conn fid sid (.reply r) true ∈ s.trace

/-- Every chunk that the worker is through with was queued to every client whose
subscription was live when it was drained. -/
def NothingLost (s : Server) (k : Ledger) : Prop :=
  ∀ e ∈ k.handled, ∀ p ∈ e.subscribers, Queued s p e.message

def Unfailing (z : Device × Ledger) (a : GatewayLabel) : Prop :=
  ∀ env r p, a = .server (.worker env) → z.1.sys.worker = .broadcast r (some p) →
    env.reply.alloc = true ∧ env.reply.sent p = true

/-- When the worker takes a chunk, everyone whose subscription was live at the
drain is waiting with a session; there is text to send, and no handler ends a
call while it is sent. -/
def Present (z : Device × Ledger) (a : GatewayLabel) : Prop :=
  ∀ env e, a = .server (.worker env) → e ∈ z.2.published →
    (z.1.sys.worker = .taken e.message → ∀ p ∈ e.subscribers,
      p ∈ listeners z.1.sys.srv e.message.msg.fid) ∧
    ∀ p, z.1.sys.worker = .broadcast e.message (some p) →
      (p ∈ e.subscribers → e.message.msg.len ≠ 0 ∧ keepsSession z.1.sys.srv p env = true) ∧
      ∀ act ∈ env.handler, Considerate z.1.sys.srv p act

end Chunks

section Fresh

def Numbered (s : Server) : Prop := ∀ r ∈ replies s, r.serial < s.nextReply

variable {G : Guard}

theorem act_numbered (h : Act P G s t) (hn : Numbered s) : Numbered t := by
  intro r hr
  rcases act_replies h hr with hr | ⟨⟨hserial, hnext⟩, -⟩
  · exact Nat.lt_of_lt_of_le (hn r hr) (act_nextReply h)
  · rw [hserial, hnext]
    exact Nat.lt_succ_self _

theorem reachable_numbered {x : System} (hr : Reachable (Tasks.machine P) x) : Numbered x.srv := by
  refine reachable_acts (fun depth r hr => ?_) (fun s t _ hact hn => act_numbered hact hn) hr
  simp [replies, initServer] at hr

theorem step_nextReply {x y : System} {b : Label} (hr : Reachable (Tasks.machine P) x)
    (h : (Tasks.machine P).Step x b y) : x.srv.nextReply ≤ y.srv.nextReply :=
  step_acts (I := fun s => x.srv.nextReply ≤ s.nextReply)
    (fun _ _ _ hact hle => hle.trans (act_nextReply hact)) hr h (Nat.le_refl _)

theorem step_queued {x y : System} {b : Label} (hr : Reachable (Tasks.machine P) x)
    (h : (Tasks.machine P).Step x b y) (hq : Queued x.srv p r) : Queued y.srv p r := by
  refine step_acts (I := fun s => Queued s p r) (fun s t _ hact hq => ?_) hr h hq
  obtain ⟨l, ht, -⟩ := act_trace hact
  obtain ⟨conn, fid, sid, he⟩ := hq
  exact ⟨conn, fid, sid, ht ▸ List.mem_append_left l he⟩

end Fresh

section Steps

variable {x y : System} {e : Chunk} {env : WorkerEnv}

/-- While the worker sends a chunk, its message has been queued to everyone who
subscribed, or the loop is still to come to the call. -/
def OnItsWay (x : System) (e : Chunk) : Prop :=
  ∀ it, x.worker = .broadcast e.message it → ∀ p ∈ e.subscribers,
    Queued x.srv p e.message ∨ p ∈ listeners x.srv e.message.msg.fid

theorem other_onItsWay (hr : Reachable (Tasks.machine P) x) {b : Label}
    (h : (Tasks.machine P).Step x b y) (hb : ∀ env, b ≠ .worker env) (he : OnItsWay x e) :
    OnItsWay y e := by
  intro it hw p hp
  rcases step_outcome hr h with ⟨env, hb', -⟩ | ⟨-, hworker, hapart⟩
  · exact absurd hb' (hb env)
  · rw [hworker] at hw
    have hstill := hapart.2 (by rw [hw]; rfl)
    rcases he it hw p hp with hq | hl
    · exact .inl (step_queued hr h hq)
    · refine .inr ?_
      rw [listeners, List.mem_filter, isTarget, hstill.waiting, hstill.calls]
      exact List.mem_filter.1 hl

theorem turn_onItsWay (hr : Reachable (Tasks.machine P) x) {q : CallPtr}
    (hw : x.worker = .broadcast r (some q)) (h : (Tasks.machine P).Step x (.worker env) y)
    (hhandler : ∀ act ∈ env.handler, Considerate x.srv q act)
    (hhears : p = q → hears x.srv r q env = true) (hsent : env.reply.sent q = true)
    (hp : p ∈ listeners x.srv r.msg.fid) :
    Queued y.srv p r ∨ p ∈ listeners y.srv r.msg.fid := by
  have hs := (reachable_inv hr).sound.wf
  obtain ⟨-, c, s', d, m, hc, hok, hsoft, hothers, hd, -, rfl⟩ := broadcast_step hr hw h hhandler
  obtain ⟨hwait, htarget⟩ := List.mem_filter.1 hp
  by_cases hpq : p = q
  · subst hpq
    left
    rw [isTarget_eq hc, Bool.and_eq_true] at htarget
    obtain ⟨u, hu⟩ := Option.isSome_iff_exists.1 htarget.2
    obtain ⟨k, -, ht⟩ := hs.attached.target hc hu
    have hframes := replyFrames_hears (r := r) hok hsoft ht hd
    rw [if_pos (hhears rfl), hsent] at hframes
    refine ⟨k.conn, c.ulFid, c.ulId, ?_⟩
    rw [answered_trace]
    apply List.mem_append_right
    have hframes' : replyFrames (s'.withNet m) p r env.reply = replyFrames s' p r env.reply := rfl
    rw [hframes', hframes]
    exact List.mem_cons_self
  · right
    have hwait' : (answered (s'.withNet m) q d r env.reply).pxWsApiWaitingForResponse =
        x.srv.pxWsApiWaitingForResponse.erase q := by
      rw [answered_waiting]
      exact congrArg (fun l => l.erase q) hsoft.waiting
    have hcalls : (answered (s'.withNet m) q d r env.reply).calls p = x.srv.calls p :=
      (answered_calls_ne r env.reply hpq).trans (hothers p hpq)
    rw [listeners, List.mem_filter, isTarget, hwait', hcalls]
    exact ⟨(List.mem_erase_of_ne hpq).2 hwait, htarget⟩

theorem worker_onItsWay (hr : Reachable (Tasks.machine P) x)
    (h : (Tasks.machine P).Step x (.worker env) y) (he : OnItsWay x e)
    (htaken : x.worker = .taken e.message → ∀ p ∈ e.subscribers,
      p ∈ listeners x.srv e.message.msg.fid)
    (hsend : ∀ q, x.worker = .broadcast e.message (some q) → env.reply.sent q = true ∧
      (q ∈ e.subscribers → hears x.srv e.message q env = true) ∧
      ∀ act ∈ env.handler, Considerate x.srv q act) : OnItsWay y e := by
  intro it hw p hp
  have hout := (worker_outcome hr h).1
  rw [hw] at hout
  generalize hsrv : y.srv = t at hout
  cases hout with
  | turned hturn =>
      cases hx : x.worker with
      | taken r =>
          rw [hx, turn] at hturn
          split_ifs at hturn
          cases hturn
          exact .inr (htaken hx p hp)
      | serveCalls item | serveWaiting item | forward item =>
          rw [hx] at hturn
          cases item <;> cases hturn
      | receive =>
          rw [hx, turn] at hturn
          split_ifs at hturn
          cases hturn
      | idle | served | broadcast =>
          rw [hx] at hturn
          cases hturn
  | swept _ _ _ hpc | kept _ _ _ _ hpc => cases hpc
  | @broadcast r q next c s m hx =>
      rw [← hsrv]
      rcases he (some q) hx p hp with hq | hl
      · exact .inl (step_queued hr h hq)
      · obtain ⟨hsent, hhears, hhandler⟩ := hsend q hx
        exact turn_onItsWay hr hx h hhandler (fun hpq => hhears (hpq ▸ hp)) hsent hl

theorem end_queued (hr : Reachable (Tasks.machine P) x) (hw : x.worker = .broadcast e.message none)
    (he : OnItsWay x e) : ∀ p ∈ e.subscribers, Queued x.srv p e.message := by
  intro p hp
  have hpc := (reachable_inv hr).pc
  rw [hw] at hpc
  refine (he none hw p hp).resolve_right (fun hl => ?_)
  obtain ⟨hwait, htarget⟩ := List.mem_filter.1 hl
  rw [hpc.2.2 p hwait] at htarget
  cases htarget

variable {k : Ledger} {z w : Device × Ledger}

theorem note_published (he : e ∈ (k.note g a).published) :
    e ∈ k.published ∨ a = .uartSend ∧ e ∈ publishes g k := by
  cases a with
  | uartSend => exact (List.mem_append.1 he).imp_right (fun h => ⟨rfl, h⟩)
  | server b =>
      cases b with
      | worker env =>
          left
          unfold Ledger.note at he
          dsimp only at he
          split at he
          · exact he
          · exact he
      | _ => exact .inl he
  | _ => exact .inl he

theorem note_handled (he : e ∈ (k.note g a).handled) : e ∈ k.handled ∨ ∃ env,
    a = .server (.worker env) ∧ g.sys.worker = .broadcast e.message none ∧ e ∈ k.published := by
  cases a with
  | server b =>
      cases b with
      | worker env =>
          unfold Ledger.note at he
          dsimp only at he
          split at he
          next r hw =>
            refine (List.mem_append.1 he).imp_right (fun h => ⟨env, rfl, ?_⟩)
            obtain ⟨hpub, hmsg⟩ := List.mem_filter.1 h
            exact ⟨by rw [hw, of_decide_eq_true hmsg], hpub⟩
          next => exact .inl he
      | _ => exact .inl he
  | _ => exact .inl he

structure Kept (z : Device × Ledger) : Prop where
  serial : ∀ e ∈ z.2.published, e.message.serial < z.1.sys.srv.nextReply
  way : ∀ e ∈ z.2.published, OnItsWay z.1.sys e
  handled : NothingLost z.1.sys.srv z.2

theorem publish_step (hg : Reachable (machine B lib P) g) (hstep : (machine B lib P).Step g .uartSend h)
    (he : e ∈ publishes g k) : e.message.serial < h.sys.srv.nextReply ∧ OnItsWay h.sys e := by
  have hr := reachable_sys hg
  cases step_move hstep with
  | @sent m msg hm hmsg hsys _ =>
      simp only [publishes, hm, hmsg] at he
      cases hsubs : k.draining with
      | none =>
          rw [hsubs] at he
          cases he
      | some subs =>
          simp only [hsubs] at he
          split_ifs at he with hpub
          swap
          · cases he
          rw [List.mem_singleton] at he
          subst he
          obtain ⟨m', hm', hfits⟩ := reachable_prepared hg msg hmsg
          rw [hm, Option.some.injEq] at hm'
          subst hm'
          obtain ⟨hworker, hout⟩ := send_step hm hfits hsys
          rw [if_pos hpub.2] at hout
          refine ⟨?_, fun it hw => ?_⟩
          · rw [hout.2]
            exact Nat.lt_succ_self _
          · -- the message is new, and not the one that the worker sends
            rw [hworker] at hw
            have hpc := (reachable_inv hr).pc
            rw [hw] at hpc
            have hmem : (⟨msg, m.call, decide (msg.id ≠ m.msg.id), g.sys.srv.nextReply⟩ : Reply) ∈
                replies g.sys.srv := by simp [replies, hpc.1]
            exact absurd (reachable_numbered hr _ hmem) (Nat.lt_irrefl _)

theorem step_kept (hz : Reachable (ledgered B lib P) z) (hk : Kept z)
    (hstep : (ledgered B lib P).Step z a w) (hunf : Unfailing z a) (hpres : Present z a) : Kept w := by
  have hg := hz.carried
  have hr := reachable_sys hg
  obtain ⟨hmove, hnote⟩ := carry_step_iff.1 hstep
  have hqueued : ∀ {p r}, Queued z.1.sys.srv p r → Queued w.1.sys.srv p r := by
    intro p r hq
    rcases (step_move hmove).sys with he | ⟨b, hb, -⟩
    · rwa [he]
    · exact step_queued hr hb hq
  constructor
  · intro e he
    rw [hnote] at he
    rcases note_published he with he | ⟨rfl, hnew⟩
    · have hlt := hk.serial e he
      rcases (step_move hmove).sys with he' | ⟨b, hb, -⟩
      · rwa [he']
      · exact Nat.lt_of_lt_of_le hlt (step_nextReply hr hb)
    · exact (publish_step hg hmove hnew).1
  · intro e he
    rw [hnote] at he
    rcases note_published he with he | ⟨rfl, hnew⟩
    · have hway := hk.way e he
      rcases (step_move hmove).sys with he' | ⟨b, hb, hlabel⟩
      · rwa [he']
      · rcases worker_or_other b with ⟨env, rfl⟩ | hother
        · have ha := hlabel env rfl
          obtain ⟨htaken, hsend⟩ := hpres env e ha he
          refine worker_onItsWay hr hb hway htaken (fun q hw => ?_)
          obtain ⟨halloc, hsent⟩ := hunf env _ q ha hw
          obtain ⟨hkeeps, hhandler⟩ := hsend q hw
          refine ⟨hsent, fun hq => ?_, hhandler⟩
          obtain ⟨hlen, hsession⟩ := hkeeps hq
          simp [hears, hlen, halloc, hsession]
        · exact other_onItsWay hr hb hother hway
    · exact (publish_step hg hmove hnew).2
  · intro e he p hp
    rw [hnote] at he
    rcases note_handled he with he | ⟨env, -, hw, he⟩
    · exact hqueued (hk.handled e he p hp)
    · exact hqueued (end_queued hr hw (hk.way e he) p hp)

/-- When the subscribers of every chunk wait for it, none of it is lost to them. -/
theorem chunks_reach_subscribers (B : Base64) (lib : ModbusLib) (P : Platform)
    {as : List GatewayLabel} (hz : (ledgered B lib P).init z)
    (hrun : Along (ledgered B lib P) (fun z a _ => Unfailing z a ∧ Present z a) z as w) :
    NothingLost w.1.sys.srv w.2 := by
  have hkept := hrun.invariant (I := Kept) (.init hz) ?_
    (fun z a w hr hk hstep hcond => step_kept hr hk hstep hcond.1 hcond.2)
  · exact hkept.handled
  · rw [show z = (z.1, ⟨none, [], []⟩) from Prod.ext rfl hz.2]
    exact ⟨fun _ he => absurd he List.not_mem_nil, fun _ he => absurd he List.not_mem_nil,
      fun _ he => absurd he List.not_mem_nil⟩

def unfailing (z : Device × Ledger) : GatewayLabel → Bool
  | .server (.worker env) => match z.1.sys.worker with
    | .broadcast _ (some p) => env.reply.alloc && env.reply.sent p
    | _ => true
  | _ => true

theorem unfailing_of (hu : unfailing z a = true) : Unfailing z a := by
  rintro env r p rfl hw
  simpa [unfailing, hw] using hu

def present (z : Device × Ledger) : GatewayLabel → Bool
  | .server (.worker env) => match z.1.sys.worker with
    | .taken r => z.2.published.all (fun e => e.message != r || e.subscribers.all (fun p =>
      (listeners z.1.sys.srv r.msg.fid).contains p))
    | .broadcast r (some p) => r.msg.len != 0 && keepsSession z.1.sys.srv p env && env.handler.isEmpty
    | _ => true
  | _ => true

theorem present_of (hp : present z a = true) : Present z a := by
  rintro env e rfl he
  refine ⟨fun hw p hsub => ?_, fun p hw => ?_⟩
  · simp only [present, hw, List.all_eq_true, Bool.or_eq_true, bne_iff_ne] at hp
    have hall := (hp e he).resolve_left (fun hne => hne rfl) p hsub
    exact List.contains_iff_mem.1 hall
  · simp only [present, hw, Bool.and_eq_true, bne_iff_ne, List.isEmpty_iff] at hp
    refine ⟨fun _ => hp.1, fun act hact => ?_⟩
    rw [hp.2] at hact
    cases hact

def subscriptions : List GatewayLabel :=
  serverSteps ([.registerQueue 0x1011 (some 0) true true, .connect 1 true, .connect 2 true] ++
    request 0 (0x1011, 4, 5) ++ request 1 (0x1011, 4, 6) ++ work 12)

def receives : List GatewayLabel := [.uartRx ⟨0, Nat.two_pos⟩ [1, 2, 3]]

def poll : List GatewayLabel := [.uartTake, .uartHandle calm, .uartSend]

def talking : Platform := { platform [(0x1011, 4, 5), (0x1011, 4, 6)] with print := fun _ => [34, 34] }

def untold : Device × Ledger := (gatewayStart, ⟨none, [], []⟩)

theorem untold_init : (ledgered B lib P).init untold := ⟨gatewayStart_init, rfl⟩

theorem chunks_reach_both : ∃ w, Along (ledgered plainText wordLib talking)
    (fun z a _ => Unfailing z a ∧ Present z a) untold
      (subscriptions ++ receives ++ poll ++ serverSteps (work 10)) w ∧
    w.2.handled.map Chunk.subscribers = [[0, 1]] ∧ NothingLost w.1.sys.srv w.2 := by
  have h : (ledgered plainText wordLib talking).check (fun z a => unfailing z a && present z a)
      (fun w => w.2.handled.map Chunk.subscribers == [[0, 1]]) untold
      (subscriptions ++ receives ++ poll ++ serverSteps (work 10)) = true := by decide +kernel
  obtain ⟨w, hrun, hw⟩ := exists_of_check h
  have halong := hrun.imp (Q := fun z a _ => Unfailing z a ∧ Present z a) (fun z a _ hc =>
    ⟨unfailing_of (Bool.and_eq_true_iff.1 hc).1, present_of (Bool.and_eq_true_iff.1 hc).2⟩)
  exact ⟨w, halong, beq_iff_eq.1 hw, chunks_reach_subscribers plainText wordLib talking untold_init halong⟩

def isQueued (p : CallPtr) (r : Reply) : Event → Bool
  | .queue .worker q _ _ _ (.reply r') true => q == p && r' == r
  | _ => false

theorem isQueued_of (hq : Queued s p r) : s.trace.any (isQueued p r) = true := by
  obtain ⟨conn, fid, sid, he⟩ := hq
  exact List.any_eq_true.2 ⟨_, he, by simp [isQueued]⟩

/-- The answer to the first poll makes both calls ready for the next poll. The
second poll, which is in the queue of the UART task still, drains the bytes
before these are made. -/
theorem chunk_lost : ∃ w, Along (ledgered plainText wordLib talking) (fun z a _ => Unfailing z a) untold
    (subscriptions ++ poll ++ serverSteps (work 10) ++ receives ++ poll ++ serverSteps (work 3)) w ∧
    ¬ NothingLost w.1.sys.srv w.2 := by
  have h : (ledgered plainText wordLib talking).check unfailing
      (fun w => w.2.handled.any (fun e => e.subscribers.any (fun p =>
        !w.1.sys.srv.trace.any (isQueued p e.message)))) untold
      (subscriptions ++ poll ++ serverSteps (work 10) ++ receives ++ poll ++ serverSteps (work 3)) =
      true := by decide +kernel
  obtain ⟨w, hrun, hw⟩ := exists_of_check h
  refine ⟨w, hrun.imp (fun _ _ _ hu => unfailing_of hu), fun hkept => ?_⟩
  obtain ⟨e, he, hw⟩ := List.any_eq_true.1 hw
  obtain ⟨p, hp, hw⟩ := List.any_eq_true.1 hw
  rw [isQueued_of (hkept e he p hp)] at hw
  cases hw

end Steps

end WirelessGateway.Subscribers
