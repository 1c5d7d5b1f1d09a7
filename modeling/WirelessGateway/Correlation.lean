import WirelessGateway.Accepted
import WirelessGateway.Fragments
import WirelessGateway.Truthful

namespace WirelessGateway.Correlation

open CJson WirelessGateway.Types Memory WsServer Transport Worker Tasks Sends WellFormed SoftSteps
open Lifecycle Steps Provenance Accepted Fragments Truthful Lib.Fallible Lib.Runs

variable {P : Platform} {G : Guard} {s t : Server} {p : CallPtr} {c : ApiCall} {n : ConnPtr}
  {json : Json} {x y : System} {a : Label} {e : Event}

def requested (P : Platform) (x : System) : Option (ConnPtr × Json) :=
  match x.httpd with
  | .text conn data => (data.bind P.parse).map (fun json => (conn, json))
  | .idle => none

def AcceptedFor (s : Server) (p : CallPtr) (n : ConnPtr) (json : Json) : Prop :=
  ∃ c, .accept p n json c ∈ s.trace

def Grouped (sid : UInt32) (arg : Payload) : Prop := sid = 0 ∧ ∃ data, arg = .json data

/-- The frames that a step sends in reaction to a request: an error status for
the request that the httpd task works on, and what the worker or a handler
sends to the call that the request was accepted as. -/
def ReactsTo (P : Platform) (x : System) (a : Label) (n : ConnPtr) (json : Json) : Event → Prop
  | .queue .httpd _ _ _ _ _ _ => (∃ env, a = .text env) ∧ requested P x = some (n, json)
  | .queue .worker p _ _ _ _ _ => AcceptedFor x.srv p n json
  | .queue .handler p _ _ sid arg _ => AcceptedFor x.srv p n json ∧ ¬ Grouped sid arg
  | _ => False

def DataFor (x : System) (n : ConnPtr) (json : Json) : Event → Prop
  | .queue .worker _ _ _ _ (.reply r) _ => r.published = false ∧ AcceptedFor x.srv r.call n json
  | _ => False

/-- The frame goes to the connection of the request and carries the FID and the
SID of it. -/
def Correlated (n : ConnPtr) (json : Json) : Event → Prop
  | .queue _ _ conn fid sid _ _ => frameFid json ≠ 0 → ∀ i,
      frameNumber json ['S', 'I', 'D'] = some i →
      conn = n ∧ fid = frameFid json ∧ sid = i % 65536
  | _ => True

def CorrelatedStep (P : Platform) (x : System) (a : Label) (y : System) : Prop :=
  ∀ e ∈ added x.srv y.srv, ∀ n json, ReactsTo P x a n json e → Correlated n json e

def AnsweredStep (x : System) (_ : Label) (y : System) : Prop :=
  ∀ e ∈ added x.srv y.srv, ∀ n json, DataFor x n json e → Correlated n json e

/-- A request that is refused under a SID other than 0 has FLAGS. -/
def FlaggedStep (P : Platform) (x : System) (a : Label) (_ : System) : Prop :=
  ∀ env conn data json i, a = .text env → x.httpd = .text conn data →
    readable P ((x.srv.conns conn).bind Conn.userData) data env = some json →
    env.status.alloc = true → frameNumber json ['S', 'I', 'D'] = some i → i % 65536 ≠ 0 →
    (frameNumber json ['F', 'L', 'A', 'G', 'S']).isSome

def OwnStep (x : System) (a : Label) (_ : System) : Prop :=
  ∀ env r p, a = .worker env → answering x = some (r, p) → r.published = false → p = r.call

theorem and_ffff (i : UInt32) : i &&& 0xffff = i % 65536 := by
  apply UInt32.toNat_inj.1
  rw [UInt32.toNat_and, UInt32.toNat_mod]
  exact Nat.and_two_pow_sub_one_eq_mod i.toNat 16

section Addressed

/-- Where an act finds the connection and the label of a frame, and the session
of a call. The httpd task sends frames for calls only that it has not accepted. -/
def Addressed (G : Guard) (s t : Server) : Event → Prop
  | .queue src p conn fid sid arg _ => (src = .httpd → p = s.nextCall) ∧ (src ≠ .httpd →
      (∃ c x, target s p = some (c, x) ∧ x.conn = conn ∧ c.ulFid = fid ∧ CallSid c src sid arg) ∧
        ∀ r, arg = .reply r → G.respond s p r)
  | .accept _ n _ c => (∃ sid, G.accept s sid) ∧ ∃ k q, s.conns n = some k ∧ k.userData = some q ∧
      c.session = some q ∧ t.sessions = s.sessions ∧ t.nextSess = s.nextSess
  | _ => True

theorem soft_addressed (h : SoftEvent s e) : Addressed G s t e := by
  cases e with
  | queue src p conn fid sid arg sent =>
      obtain ⟨c, x, ht, hconn, hfid, harg, -, hsrc, hsid⟩ := h
      refine ⟨fun he => absurd he hsrc, fun _ => ?_⟩
      exact ⟨⟨c, x, ht, hconn, hfid, hsid⟩, fun r hr => absurd hr (harg r)⟩
  | control => trivial
  | _ => cases h

theorem attempts_addressed {arg : Payload} {env : SendEnv}
    (hr : ∀ r, arg = .reply r → G.respond s p r) :
    ∀ e ∈ attempts s .worker p arg env, Addressed G s t e := by
  intro e he
  obtain ⟨c, x, ht, rfl⟩ := mem_attempts he
  exact ⟨by simp, fun _ => ⟨⟨c, x, ht, rfl, rfl, .inl rfl⟩, hr⟩⟩

theorem act_addressed (h : Act P G s t) :
    ∃ l, t.trace = s.trace ++ l ∧ ∀ e ∈ l, Addressed G s t e := by
  have hnone : t.trace = s.trace → ∃ l, t.trace = s.trace ++ l ∧ ∀ e ∈ l, Addressed G s t e :=
    fun ht => ⟨[], by simp [ht], by simp⟩
  have hone : ∀ {e : Event}, t.trace = s.trace ++ [e] → Addressed G s t e →
      ∃ l, t.trace = s.trace ++ l ∧ ∀ e ∈ l, Addressed G s t e :=
    fun ht he => ⟨_, ht, fun e' he' => List.mem_singleton.1 he' ▸ he⟩
  cases h with
  | soft h =>
      obtain ⟨l, ht, hl⟩ := h.trace
      exact ⟨l, ht, fun e he => soft_addressed (hl e he)⟩
  | @connect fd alloc => cases alloc <;> exact hone rfl trivial
  | @disconnect conn k =>
      refine hone (e := .disconnect conn) ?_ trivial
      cases k.userData <;> rfl
  | accept hk hq _ _ _ hG => exact hone rfl ⟨⟨_, hG⟩, _, _, hk, hq, rfl, rfl, rfl⟩
  | @reject conn evs hk hev =>
      refine ⟨evs ++ [.free s.nextCall], by simp [rejected], fun e he => ?_⟩
      rcases List.mem_append.1 he with he | he
      · obtain ⟨fid, sid, sta, sent, rfl⟩ := hev e he
        exact ⟨fun _ => rfl, fun hsrc => absurd rfl hsrc⟩
      · rw [List.mem_singleton.1 he]
        trivial
  | forward | stall => exact hone rfl trivial
  | refuse =>
      refine ⟨_, rfl, fun e he => ?_⟩
      rcases List.mem_cons.1 he with rfl | he
      · trivial
      · exact attempts_addressed (by simp) e he
  | announce => exact ⟨_, rfl, attempts_addressed (by simp)⟩
  | @invalid p c env =>
      refine ⟨_, invalidated_trace s p env, fun e he => ?_⟩
      rcases List.mem_append.1 he with he | he
      · exact attempts_addressed (by simp) e he
      · rw [List.mem_singleton.1 he]
        trivial
  | release | handled => exact hone rfl trivial
  | @respond p c r env _ _ _ _ _ hG =>
      refine ⟨_, answered_trace s p c r env, fun e he => ?_⟩
      rcases List.mem_append.1 he with he | he
      · unfold replyFrames at he
        split_ifs at he
        · cases he
        · exact attempts_addressed (by rintro r' ⟨⟩; exact hG) e he
      · rcases List.mem_cons.1 he with rfl | he
        · trivial
        · split at he
          · cases he
          · rw [List.mem_singleton.1 he]
            trivial
  | take | post | drop | receive => exact hnone rfl

theorem acts_addressed (h : Acts P G s t) : ∃ l, t.trace = s.trace ++ l ∧
    ∀ e ∈ l, ∃ u v, Addressed G u v e := by
  induction h with
  | refl => exact ⟨[], by simp, by simp⟩
  | tail _ hact ih =>
      obtain ⟨l, hl, haddr⟩ := ih
      obtain ⟨l', hl', haddr'⟩ := act_addressed hact
      refine ⟨l ++ l', by rw [hl', hl, List.append_assoc], fun e he => ?_⟩
      rcases List.mem_append.1 he with he | he
      · exact haddr e he
      · exact ⟨_, _, haddr' e he⟩

end Addressed

section Homes

theorem act_sessions (h : Act P G s t) : s.nextSess ≤ t.nextSess ∧ ∀ q < s.nextSess, ∀ z,
    t.sessions q = some z → ∃ w, s.sessions q = some w ∧ w.conn = z.conn := by
  have hsame : t.nextSess = s.nextSess → t.sessions = s.sessions → s.nextSess ≤ t.nextSess ∧
      ∀ q < s.nextSess, ∀ z, t.sessions q = some z → ∃ w, s.sessions q = some w ∧ w.conn = z.conn :=
    fun hn hq => ⟨Nat.le_of_eq hn.symm, fun q _ z hz => ⟨z, hq ▸ hz, rfl⟩⟩
  cases h with
  | soft h =>
      refine ⟨Nat.le_of_eq h.nextSess.symm, fun q _ z hz => ?_⟩
      obtain ⟨w, hw, hconn, -⟩ := h.session_back hz
      exact ⟨w, hw, hconn⟩
  | @connect fd alloc =>
      cases alloc with
      | false => exact hsame rfl rfl
      | true =>
          refine ⟨Nat.le_succ _, fun q hq z hz => ⟨z, ?_, rfl⟩⟩
          have hnew : Function.update s.sessions s.nextSess _ q = some z := hz
          rwa [Function.update_of_ne (Nat.ne_of_lt hq)] at hnew
  | @disconnect conn k =>
      cases hu : k.userData with
      | none => exact ⟨Nat.le_refl _, fun q _ z hz => ⟨z, hz, rfl⟩⟩
      | some q =>
          refine ⟨Nat.le_refl _, fun q' _ z hz => ⟨z, ?_, rfl⟩⟩
          have hnew : Function.update s.sessions q none q' = some z := hz
          by_cases hq : q' = q
          · rw [hq, Function.update_self] at hnew
            cases hnew
          · rwa [Function.update_of_ne hq] at hnew
  | @respond p c r env =>
      simp only [answered]
      split <;> exact ⟨Nat.le_refl _, fun q _ z hz => ⟨z, hz, rfl⟩⟩
  | _ => exact hsame rfl rfl

def Homed (s : Server) : Prop :=
  ∀ p n json c, .accept p n json c ∈ s.trace → ∃ q, c.session = some q ∧ q < s.nextSess ∧
    ∀ z, s.sessions q = some z → z.conn = n

theorem act_homed (hs : WF s) (h : Act P G s t) (hi : Homed s) : Homed t := by
  intro p n json c hm
  obtain ⟨l, ht, hl⟩ := act_addressed h
  rw [ht, List.mem_append] at hm
  rcases hm with hm | hm
  · obtain ⟨hnext, hsess⟩ := act_sessions h
    obtain ⟨q, hq, hlt, hconn⟩ := hi p n json c hm
    refine ⟨q, hq, Nat.lt_of_lt_of_le hlt hnext, fun z hz => ?_⟩
    obtain ⟨w, hw, hwz⟩ := hsess q hlt z hz
    exact hwz ▸ hconn w hw
  · obtain ⟨-, k, q, hk, hq, hc, hsess, hnext⟩ := hl _ hm
    obtain ⟨w, hw, hwn⟩ := hs.userData n k q hk hq
    refine ⟨q, hc, hnext ▸ hs.nextSess q (by simp [hw]), fun z hz => ?_⟩
    rw [hsess, hw, Option.some.injEq] at hz
    exact hz ▸ hwn

def Tagged (h : List Event) : Event → Prop
  | .queue src p conn fid sid arg _ => src ≠ .httpd → ∃ json c, .accept p conn json c ∈ h ∧
      c.ulFid = fid ∧ CallSid c src sid arg
  | _ => True

theorem tagged_mono {h l : List Event} (he : Tagged h e) : Tagged (h ++ l) e := by
  cases e with
  | queue src p conn fid sid arg sent =>
      intro hsrc
      obtain ⟨json, c, hm, hlabel⟩ := he hsrc
      exact ⟨json, c, List.mem_append_left l hm, hlabel⟩
  | _ => trivial

theorem addressed_tagged (ha : Accepts P s) (hh : Homed s) (he : Addressed G s t e) :
    Tagged s.trace e := by
  cases e with
  | queue src p conn fid sid arg sent =>
      intro hsrc
      obtain ⟨⟨c, x, htarget, rfl, rfl, hsid⟩, -⟩ := he.2 hsrc
      obtain ⟨hc, q, hq, hx⟩ := target_eq_some_iff.1 htarget
      obtain ⟨n, json, d, hm, hev⟩ := ha.born p c hc
      obtain ⟨q', hq', -, hconn⟩ := hh p n json d hm
      have hqq : q' = q := Option.some.inj (hq'.symm.trans (hev.session_some hq))
      rw [CallSid, hev.id] at hsid
      exact ⟨json, d, hconn x (hqq ▸ hx) ▸ hm, hev.fid.symm, hsid⟩
  | _ => trivial

theorem reachable_tagged (h : Reachable (machine P) x) : ∀ e ∈ x.srv.trace, Tagged x.srv.trace e := by
  refine (reachable_acts (I := fun s => Accepts P s ∧ Homed s ∧ ∀ e ∈ s.trace, Tagged s.trace e)
    (fun depth => ⟨init_accepts P depth, ?_, ?_⟩) ?_ h).2.2
  · intro p n json c hm
    cases hm
  · intro e he
    cases he
  · rintro s t hs hact ⟨ha, hh, htag⟩
    refine ⟨act_accepted hact ha, act_homed hs hact hh, fun e he => ?_⟩
    obtain ⟨l, ht, hl⟩ := act_addressed hact
    rw [ht, List.mem_append] at he
    rw [ht]
    rcases he with he | he
    · exact tagged_mono (htag e he)
    · exact tagged_mono (addressed_tagged ha hh (hl e he))

end Homes

section Steps

theorem accepted_label (ha : Accepts P s) (hm : .accept p n json c ∈ s.trace) :
    c.ulFid = frameFid json ∧ ∃ i, frameNumber json ['S', 'I', 'D'] = some i ∧ c.ulId = i % 65536 := by
  obtain ⟨-, alloc, q, fl, sid, hd, -, -, hsid, rfl⟩ := ha.asks p n json c hm
  exact ⟨rfl, sid, hsid, and_ffff sid⟩

theorem tagged_correlated (ha : Accepts P s) {src : Source} {conn : ConnPtr} {fid sid : UInt32}
    {arg : Payload} {sent : Bool} (hsrc : src ≠ .httpd) (hown : src = .worker ∨ ¬ Grouped sid arg)
    (he : Tagged s.trace (.queue src p conn fid sid arg sent)) (hm : AcceptedFor s p n json) :
    Correlated n json (.queue src p conn fid sid arg sent) := by
  obtain ⟨json', c, hm', rfl, hsid⟩ := he hsrc
  obtain ⟨c', hc'⟩ := hm
  cases ha.increasing.eq hm' hc' rfl rfl
  obtain ⟨hfid, i, hi, hid⟩ := accepted_label ha hm'
  intro _ j hj
  obtain rfl : i = j := Option.some.inj (hi.symm.trans hj)
  rcases hsid with rfl | ⟨hworker, hgrouped⟩
  · exact ⟨rfl, hfid, hid⟩
  · exact absurd hgrouped (hown.resolve_left hworker)

theorem step_added (hr : Reachable (machine P) x) (h : (machine P).Step x a y) :
    y.srv.trace = x.srv.trace ++ added x.srv y.srv := by
  have hpre : ∃ l, y.srv.trace = x.srv.trace ++ l := by
    refine step_acts (I := fun s => ∃ l, s.trace = x.srv.trace ++ l) ?_ hr h ⟨[], by simp⟩
    rintro s t - hact ⟨l, hl⟩
    obtain ⟨l', ht, -⟩ := act_trace hact
    exact ⟨l ++ l', by rw [ht, hl, List.append_assoc]⟩
  obtain ⟨l, hl⟩ := hpre
  rw [added_eq hl, hl]

theorem added_correlated (hr : Reachable (machine P) x) (h : (machine P).Step x a y) {src : Source}
    {conn : ConnPtr} {fid sid : UInt32} {arg : Payload} {sent : Bool} (hsrc : src ≠ .httpd)
    (hown : src = .worker ∨ ¬ Grouped sid arg)
    (he : .queue src p conn fid sid arg sent ∈ added x.srv y.srv) (hm : AcceptedFor x.srv p n json) :
    Correlated n json (.queue src p conn fid sid arg sent) := by
  have hadd := step_added hr h
  have hy := hr.step h
  have hmem : .queue src p conn fid sid arg sent ∈ y.srv.trace := by
    rw [hadd]
    exact List.mem_append_right _ he
  obtain ⟨c, hc⟩ := hm
  refine tagged_correlated (reachable_accepts hy) hsrc hown (reachable_tagged hy _ hmem) ⟨c, ?_⟩
  rw [hadd]
  exact List.mem_append_left _ hc

theorem text_result {env : TextEnv} (h : (machine P).Step x (.text env) y) :
    ∃ conn data, x.httpd = .text conn data ∧
      wsServerOnText P x.srv conn ((x.srv.conns conn).bind Conn.userData) data env = .ok y.srv := by
  have h : step P x (.text env) = some (.ok y) := h
  simp only [step] at h
  split at h
  next conn data hpc =>
    obtain ⟨-, t, ht, rfl⟩ := lift_ok h
    exact ⟨conn, data, hpc, ht⟩
  next => cases h

theorem text_ruling {env : TextEnv} (h : (machine P).Step x (.text env) y) :
    ∃ conn data, x.httpd = .text conn data ∧
      Ruling P x.srv conn ((x.srv.conns conn).bind Conn.userData) env data y.srv := by
  obtain ⟨conn, data, hpc, ht⟩ := text_result h
  exact ⟨conn, data, hpc, onText_ruling ht⟩

/-- The SID of an error status is that of the request, unless FLAGS is missing. -/
theorem refusal_sid {r : UInt32 × UInt32} (hr : refusal s json = some r) :
    (∀ i, frameNumber json ['S', 'I', 'D'] = some i → r.1 = i % 65536) ↔
      ∀ i, frameNumber json ['S', 'I', 'D'] = some i → i % 65536 ≠ 0 →
        (frameNumber json ['F', 'L', 'A', 'G', 'S']).isSome := by
  unfold refusal at hr
  split at hr
  next fl sid hfl hsid =>
    split_ifs at hr
    cases hr
    simp [hfl, hsid, and_ffff]
  next hno =>
    cases hr
    refine forall_congr' fun i => forall_congr' fun hi => ?_
    have hfl : frameNumber json ['F', 'L', 'A', 'G', 'S'] = none := by
      cases hf : frameNumber json ['F', 'L', 'A', 'G', 'S'] with
      | none => rfl
      | some fl => exact absurd hi (hno fl i hf)
    simp [hfl, eq_comm]

theorem taken_flags (hr : refusal s json = none) :
    (frameNumber json ['F', 'L', 'A', 'G', 'S']).isSome := by
  unfold refusal at hr
  split at hr
  next fl sid hfl hsid => simp [hfl]
  next => cases hr

theorem requested_eq {conn : ConnPtr} {data : Option Bytes} {u : Option SessPtr} {env : TextEnv}
    (hpc : x.httpd = .text conn data) (h : readable P u data env = some json) :
    requested P x = some (conn, json) := by
  obtain ⟨q, b, bs, -, rfl, -, hj, -⟩ := readable_eq_some h
  simp [requested, hpc, hj]

theorem refused_iff {conn : ConnPtr} {data : Option Bytes} {u : Option SessPtr} {env : TextEnv}
    {r : UInt32 × UInt32} {p : CallPtr} (hpc : x.httpd = .text conn data)
    (hread : readable P u data env = some json) (href : refusal x.srv json = some r)
    (hadd : added x.srv y.srv =
      statusSent conn p (frameFid json) r.1 r.2 env.status ++ [.free p]) :
    CorrelatedStep P x (.text env) y ↔ (env.status.alloc = true →
      ∀ i, frameNumber json ['S', 'I', 'D'] = some i → i % 65536 ≠ 0 →
        (frameNumber json ['F', 'L', 'A', 'G', 'S']).isSome) := by
  have hreq := requested_eq hpc hread
  obtain ⟨-, b, bs, -, -, -, -, hne⟩ := readable_eq_some hread
  rw [← refusal_sid href]
  unfold CorrelatedStep
  rw [hadd, statusSent]
  cases halloc : env.status.alloc with
  | false => simp [ReactsTo]
  | true =>
      rw [if_pos rfl, List.singleton_append, List.forall_mem_cons]
      constructor
      · rintro ⟨hsent, -⟩ - i hi
        exact (hsent conn json ⟨⟨env, rfl⟩, hreq⟩ hne i hi).2.2
      · intro hsid
        refine ⟨?_, by simp [ReactsTo]⟩
        rintro n json' ⟨-, hreq'⟩
        rw [hreq] at hreq'
        cases hreq'
        exact fun _ i hi => ⟨rfl, rfl, hsid rfl i hi⟩

theorem text_step_iff (hr : Reachable (machine P) x) {env : TextEnv}
    (h : (machine P).Step x (.text env) y) :
    CorrelatedStep P x (.text env) y ↔ FlaggedStep P x (.text env) y := by
  obtain ⟨conn, data, hpc, hruling⟩ := text_ruling h
  have hflag : FlaggedStep P x (.text env) y ↔ ∀ json,
      readable P ((x.srv.conns conn).bind Conn.userData) data env = some json →
      env.status.alloc = true → ∀ i, frameNumber json ['S', 'I', 'D'] = some i → i % 65536 ≠ 0 →
      (frameNumber json ['F', 'L', 'A', 'G', 'S']).isSome := by
    constructor
    · exact fun hf json hread halloc i => hf env conn data json i rfl hpc hread halloc
    · rintro hf env' conn' data' json i ⟨⟩ hpc' hread halloc
      rw [hpc] at hpc'
      cases hpc'
      exact hf json hread halloc i
  rw [hflag]
  cases hruling with
  | dropped hread ht =>
      have hadd : added x.srv y.srv = [] := added_eq (by simp [ht])
      simp [CorrelatedStep, hadd, hread]
  | taken hread hno ht =>
      have hadd : added x.srv y.srv = [_] := added_eq (by rw [ht]; rfl)
      refine iff_of_true ?_ ?_
      · intro e he n json hreact
        rw [hadd, List.mem_singleton] at he
        subst he
        exact hreact.elim
      · intro json' hread' _ i hi _
        rw [hread, Option.some.injEq] at hread'
        exact hread' ▸ taken_flags hno
  | @refused json r q c hread href hu hq hfid hid ht =>
      obtain ⟨k, hk, hku⟩ := Option.bind_eq_some_iff.1 hu
      obtain ⟨-, -, -, -, -, htrace⟩ := rejectCall_result (reachable_inv hr).sound hk hku hq ht
      rw [List.append_assoc, hfid, hid] at htrace
      rw [refused_iff hpc hread href (added_eq htrace)]
      simp [hread]

theorem correlated_step_iff (hr : Reachable (machine P) x) (h : (machine P).Step x a y) :
    CorrelatedStep P x a y ↔ FlaggedStep P x a y := by
  by_cases ha : ∃ env, a = .text env
  · obtain ⟨env, rfl⟩ := ha
    exact text_step_iff hr h
  · refine iff_of_true (fun e he n json hreact => ?_)
      (fun env _ _ _ _ he => absurd ⟨env, he⟩ ha)
    cases e with
    | queue src p conn fid sid arg sent =>
        cases src with
        | httpd => exact absurd hreact.1 ha
        | worker => exact added_correlated hr h (by simp) (.inl rfl) he hreact
        | handler => exact added_correlated hr h (by simp) (.inr hreact.2) he hreact.1
        | client => cases hreact
    | _ => trivial

def ownGuard : Guard :=
  { anything with respond := fun _ p r => r.published = false → p = r.call }

theorem OwnStep.allows (h : OwnStep x a y) : Allows P ownGuard x a := by
  have hany := allows_anything P x a
  cases a with
  | worker env =>
      exact ⟨fun r p hans _ _ => ⟨h env r p rfl hans, fun _ _ => trivial⟩, fun _ _ _ => trivial⟩
  | _ => exact hany

def Own : Event → Prop
  | .queue .worker p _ _ _ (.reply r) _ => r.published = false → p = r.call
  | _ => True

theorem addressed_own (h : Addressed ownGuard s t e) : Own e := by
  unfold Own
  split
  next => exact (h.2 (by simp)).2 _ rfl
  next => trivial

theorem own_answered (hr : Reachable (machine P) x) (h : (machine P).Step x a y)
    (hown : OwnStep x a y) : AnsweredStep x a y := by
  obtain ⟨z, hz, hacts, -⟩ := step_does (reachable_inv hr) (OwnStep.allows (P := P) hown) h
  cases hz
  obtain ⟨l, hl, haddr⟩ := acts_addressed hacts
  intro e he n json hdata
  unfold DataFor at hdata
  split at hdata
  next p conn fid sid r sent =>
    obtain ⟨hpub, hm⟩ := hdata
    obtain ⟨u, v, hsent⟩ := haddr _ (added_eq hl ▸ he)
    have hp := addressed_own hsent
    exact added_correlated hr h (by simp) (.inl rfl) he (hp hpub ▸ hm)
  next => cases hdata

/-- In exactly those runs in which no request without FLAGS is refused, every
reaction to a request goes to its connection under its label. The data does so
as well, where the worker gives every answer to the call it answers. -/
theorem correlated_iff_flagged {as : List Label} (hr : Reachable (machine P) x) :
    (Along (machine P) (CorrelatedStep P) x as y ↔ Along (machine P) (FlaggedStep P) x as y) ∧
    (Along (machine P) (fun x a y => FlaggedStep P x a y ∧ OwnStep x a y) x as y →
      Along (machine P) (fun x a y => CorrelatedStep P x a y ∧ AnsweredStep x a y) x as y) := by
  refine ⟨Along.congr hr (fun _ _ _ hr hstep => correlated_step_iff hr hstep), fun h => ?_⟩
  exact h.imp_of_reachable hr (fun z b w hz hstep hcond =>
    ⟨(correlated_step_iff hz hstep).2 hcond.1, own_answered hz hstep hcond.2⟩)

end Steps

def flagged (P : Platform) (x : System) : Label → Bool
  | .text env => match x.httpd with
    | .text conn data =>
      (readable P ((x.srv.conns conn).bind Conn.userData) data env).all (fun json =>
        !env.status.alloc || (frameNumber json ['S', 'I', 'D']).all (fun i => i % 65536 == 0) ||
          (frameNumber json ['F', 'L', 'A', 'G', 'S']).isSome)
    | .idle => true
  | _ => true

theorem flaggedStep_iff : FlaggedStep P x a y ↔ flagged P x a = true := by
  constructor
  · intro h
    cases a with
    | text env =>
        cases hpc : x.httpd with
        | idle => simp [flagged, hpc]
        | text conn data =>
            simp only [flagged, hpc, Option.all_eq_true, Bool.or_eq_true, beq_iff_eq,
              Bool.not_eq_true']
            intro json hread
            by_cases hsid : ∃ i, frameNumber json ['S', 'I', 'D'] = some i ∧ i % 65536 ≠ 0
            · obtain ⟨i, hi, hne⟩ := hsid
              cases halloc : env.status.alloc with
              | false => exact .inl (.inl rfl)
              | true => exact .inr (h env conn data json i rfl hpc hread halloc hi hne)
            · exact .inl (.inr fun i hi => by_contra fun hne => hsid ⟨i, hi, hne⟩)
    | _ => rfl
  · rintro h env conn data json i rfl hpc hread halloc hi hne
    simpa [flagged, hpc, hread, halloc, hi, hne] using h

def ownAnswer (x : System) : Label → Bool
  | .worker _ => (answering x).all (fun a => a.1.published || a.2 == a.1.call)
  | _ => true

theorem ownStep_of (h : ownAnswer x a = true) : OwnStep x a y := by
  rintro env r p rfl hans hpub
  simpa [ownAnswer, hans, hpub] using h

def asking : List Label :=
  [.registerQueue 0x1013 (some 0) true true, .connect 1 true, .connect 2 true] ++
  request 0 (0x1013, 0, 5) ++ request 1 (0x2000, 0, 70000) ++ work 9 ++
  [.periphTake 0, .periphAnswer 0 (some [49])] ++ work 3

def asked : Platform := platform [(0x1013, 0, 5), (0x2000, 0, 70000)]

theorem correlated_asking : ∃ y, Along (machine asked)
    (fun x a y => CorrelatedStep asked x a y ∧ AnsweredStep x a y) (initSystem (fun _ => 10))
    asking y := by
  have h : (machine asked).check (fun x a => flagged asked x a && ownAnswer x a) (fun _ => true)
      (initSystem (fun _ => 10)) asking = true := by decide +kernel
  obtain ⟨y, hy, -⟩ := exists_of_check h
  refine ⟨y, (correlated_iff_flagged (.init ⟨_, rfl⟩)).2 (hy.imp fun x a z hcond => ?_)⟩
  obtain ⟨hflag, hown⟩ := Bool.and_eq_true_iff.1 hcond
  exact ⟨flaggedStep_iff.2 hflag, ownStep_of hown⟩

def unflagged : Json :=
  .object [(bytes ['F', 'I', 'D'], .number 4115 4115), (bytes ['S', 'I', 'D'], .number 5 5)]

def unflaggedText : Bytes :=
  bytes (['\x7b', '"', 'F', 'I', 'D', '"', ':', '4', '1', '1', '5', ',', '"', 'S', 'I', 'D', '"',
    ':', '5', '\x7d'])

def forgetful : Platform :=
  { platform [] with parse := fun text => if text = unflaggedText then some unflagged else none }

/-- The refusal of a request without FLAGS carries SID 0. -/
theorem unflagged_uncorrelated : ∃ x y, Reachable (machine forgetful) x ∧
    (machine forgetful).Step x (.text ⟨true, true, okSend⟩) y ∧
    ¬ CorrelatedStep forgetful x (.text ⟨true, true, okSend⟩) y := by
  have h : (machine forgetful).check (fun x a => match a with
      | .text _ => !flagged forgetful x a
      | _ => true) (fun _ => true) (initSystem (fun _ => 10))
      ([.connect 1 true, .frame 0 .text (some unflaggedText) true] ++
        [.text ⟨true, true, okSend⟩]) = true := by decide +kernel
  obtain ⟨y, hy, -⟩ := exists_of_check h
  obtain ⟨x, hrun, hstep, hflag⟩ := Along.snoc_iff.1 hy
  have hr := hrun.reachable (.init ⟨_, rfl⟩)
  refine ⟨x, y, hr, hstep, fun hcorr => ?_⟩
  rw [correlated_step_iff hr hstep, flaggedStep_iff] at hcorr
  simp [hcorr] at hflag

end WirelessGateway.Correlation
