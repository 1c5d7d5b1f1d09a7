import WirelessGateway.Accepted
import WirelessGateway.Admission

namespace WirelessGateway.OneShots

open CJson WirelessGateway.Types Memory WsServer Transport Tasks Sends WellFormed Lifecycle Steps
open Provenance Accepted Admission Lib.History Lib.Linked Lib.Runs

variable {P : Platform} {G : Guard} {O : CallPtr → Bool} {s t : Server} {p : CallPtr}
  {c d e : ApiCall} {json : Json}

def Marks (O : CallPtr → Bool) (s : Server) : Prop :=
  ∀ p n json c, .accept p n json c ∈ s.trace → O p = true → c.longTerm = false

def forwardKey (O : CallPtr → Bool) : Event → Option CallPtr
  | .forward p _ _ => if O p then some p else none
  | _ => none

def isReply (p : CallPtr) : Event → Bool
  | .queue .worker q _ _ _ (.reply _) _ => q == p
  | _ => false

structure InOrder (O : CallPtr → Bool) (s : Server) : Prop where
  calls : (s.pxWsApiCall.filter O).Pairwise (· < ·)
  increasing : Increasing (forwardKey O) s.trace
  ahead : ∀ p q m, .forward p q m ∈ s.trace → O p = true →
    p < s.nextCall ∧ ∀ p' ∈ s.pxWsApiCall, O p' = true → p < p'

theorem marks_live (ha : Accepts P s) (hm : Marks O s) (hc : s.calls p = some c)
    (hp : O p = true) : c.longTerm = false := by
  obtain ⟨n, json, c₀, hacc, hev⟩ := ha.born p c hc
  exact hev.longTerm.trans (hm p n json c₀ hacc hp)

theorem Marks.before (hm : Marks O t) (h : Act P G s t) : Marks O s := by
  obtain ⟨l, ht, -⟩ := act_trace h
  exact fun p n json c ha => hm p n json c (ht ▸ List.mem_append_left l ha)

theorem first_lt {l : List CallPtr} (hl : (l.filter O).Pairwise (· < ·)) (hp : p ∈ l)
    (ho : O p = true) (hb : ∀ z ∈ before p l, O z = false) :
    ∀ z ∈ l.erase p, O z = true → p < z := by
  have hfilter : l.filter O = p :: (after p l).filter O := by
    have hnone : (before p l).filter O = [] :=
      List.filter_eq_nil_iff.2 (fun z hz => by simp [hb z hz])
    conv_lhs => rw [← before_append_after hp]
    rw [List.filter_append, hnone, List.nil_append, List.filter_cons_of_pos ho]
  have herase : l.erase p = before p l ++ after p l := by
    conv_lhs => rw [← before_append_after hp]
    rw [List.erase_append_right _ (not_mem_before p l), List.erase_cons_head]
  rw [hfilter, List.pairwise_cons] at hl
  intro z hz hoz
  rw [herase, List.mem_append] at hz
  rcases hz with hz | hz
  · rw [hb z hz] at hoz
    cases hoz
  · exact hl.1 z (List.mem_filter.2 ⟨hz, hoz⟩)

theorem act_inOrder (hs : WF s) (ha : Accepts P s) (hm : Marks O s) (h : Act P G s t)
    (hi : InOrder O s) : InOrder O t := by
  obtain ⟨l, ht, hl⟩ := act_trace h
  have hlt : ∀ z ∈ s.pxWsApiCall, z < s.nextCall := fun z hz =>
    hs.nextCall z ((hs.linked z).2 (List.mem_append_left _ hz))
  have hleast : ∀ {p q m}, .forward p q m ∈ l → O p = true → p ∈ s.pxWsApiCall ∧
      t.pxWsApiCall = s.pxWsApiCall.erase p ∧ t.trace = s.trace ++ [.forward p q m] ∧
      ∀ z ∈ s.pxWsApiCall.erase p, O z = true → p < z := by
    intro p q m hf ho
    obtain ⟨c, hp, hc, rfl, -, hfirst, rfl⟩ := hl _ hf
    have hb : ∀ z ∈ before p s.pxWsApiCall, O z = false := by
      intro z hz
      obtain ⟨d, hd⟩ := hs.call_of_mem (.inl (mem_of_mem_before hz))
      by_contra hoz
      have := marks_live ha hm hd (by simpa using hoz)
      rw [hfirst z hz d hd] at this
      cases this
    have hrest : ∀ z ∈ s.pxWsApiCall.erase p, O z = true → p < z := first_lt hi.calls hp ho hb
    exact ⟨hp, rfl, rfl, hrest⟩
  have hnew : ∀ z ∈ t.pxWsApiCall, O z = true → z ∈ s.pxWsApiCall ∨ z = s.nextCall := by
    intro z hz ho
    rcases act_lists h with hsub | ⟨y, hy, hy'⟩
    · exact .inl (hsub.subset hz)
    · rw [hy, List.mem_append, List.mem_singleton] at hz
      rcases hz with hz | rfl
      · exact .inl (List.mem_of_mem_erase hz)
      · rcases hy' with hy' | ⟨c, -, hc, hlong, -⟩
        · exact .inr hy'
        · rw [marks_live ha hm hc ho] at hlong
          cases hlong
  refine ⟨?_, ?_, ?_⟩
  · rcases act_lists h with hsub | ⟨y, hy, hy'⟩
    · exact hi.calls.sublist (hsub.filter O)
    · rw [hy, List.filter_append, List.pairwise_append]
      refine ⟨hi.calls.sublist (List.erase_sublist.filter O), ?_, fun z hz z' hz' => ?_⟩
      · exact (List.pairwise_singleton (· < ·) y).sublist List.filter_sublist
      · obtain ⟨hz, -⟩ := List.mem_filter.1 hz
        obtain ⟨hz', ho⟩ := List.mem_filter.1 hz'
        rw [List.mem_singleton] at hz'
        subst hz'
        rcases hy' with rfl | ⟨c, -, hc, hlong, -⟩
        · exact hlt z (List.mem_of_mem_erase hz)
        · rw [marks_live ha hm hc ho] at hlong
          cases hlong
  · by_cases hf : ∃ p q m, .forward p q m ∈ l ∧ O p = true
    · obtain ⟨p, q, m, hf, ho⟩ := hf
      obtain ⟨hp, -, htrace, -⟩ := hleast hf ho
      rw [htrace]
      refine hi.increasing.snoc (k := p) (by simp [forwardKey, ho]) (fun e he k hk => ?_)
      cases e with
      | forward p' q' m' =>
          simp only [forwardKey, Option.ite_none_right_eq_some, Option.some.injEq] at hk
          obtain ⟨ho', rfl⟩ := hk
          exact (hi.ahead _ q' m' he ho').2 p hp ho
      | _ => cases hk
    · rw [ht]
      refine hi.increasing.aside (fun e he => ?_)
      cases e with
      | forward p' q' m' =>
          have : O p' ≠ true := fun ho => hf ⟨p', q', m', he, ho⟩
          simp [forwardKey, this]
      | _ => rfl
  · intro p q m hf ho
    rw [ht, List.mem_append] at hf
    rcases hf with hf | hf
    · obtain ⟨hplt, hbehind⟩ := hi.ahead p q m hf ho
      refine ⟨Nat.lt_of_lt_of_le hplt (act_nextCall h), fun z hz hoz => ?_⟩
      rcases hnew z hz hoz with hz | rfl
      · exact hbehind z hz hoz
      · exact hplt
    · obtain ⟨hp, hlist, -, hrest⟩ := hleast hf ho
      exact ⟨Nat.lt_of_lt_of_le (hlt p hp) (act_nextCall h), hlist ▸ hrest⟩

/-- The messages are the requests that were accepted, and each call gets at
most one reply. -/
structure Served (O : CallPtr → Bool) (s : Server) : Prop where
  message : ∀ p q m n json c, .forward p q m ∈ s.trace → O p = true →
    .accept p n json c ∈ s.trace → m = requestOf c
  route : ∀ p q m, .forward p q m ∈ s.trace → s.wsGetFidQueue m.fid = some q
  data : ∀ p d n json c, s.calls p = some d → O p = true → .accept p n json c ∈ s.trace →
    d.pucReqData = c.pucReqData ∨ ∃ q m, .forward p q m ∈ s.trace
  replied : ∀ p, O p = true → s.trace.countP (isReply p) ≤ 1 ∧
    ((s.calls p).isSome ∨ s.nextCall ≤ p → s.trace.countP (isReply p) = 0)

theorem requestOf_congr (h : Evolves c d) (hd : d.pucReqData = c.pucReqData) :
    requestOf d = requestOf c := by
  simp only [requestOf, h.fid, h.id, h.len, h.longTerm, hd]

theorem attempts_replies {src : Source} {arg : Payload} {env : SendEnv} :
    (attempts s src p arg env).countP (isReply p) ≤ 1 := by
  unfold attempts
  split
  · split
    · exact List.countP_le_length
    · exact Nat.zero_le 1
  · exact Nat.zero_le 1

theorem act_replied (ha : Accepts P s) (hs : WF s) (hm : Marks O s) (h : Act P G s t)
    (ho : O p = true) (hr : s.trace.countP (isReply p) ≤ 1 ∧
      ((s.calls p).isSome ∨ s.nextCall ≤ p → s.trace.countP (isReply p) = 0)) :
    t.trace.countP (isReply p) ≤ 1 ∧
      ((t.calls p).isSome ∨ t.nextCall ≤ p → t.trace.countP (isReply p) = 0) := by
  obtain ⟨l, ht, hl⟩ := act_trace h
  by_cases hno : l.countP (isReply p) = 0
  · rw [ht, List.countP_append, hno, Nat.add_zero]
    refine ⟨hr.1, fun hlive => hr.2 ?_⟩
    rcases hlive with hlive | hlive
    · obtain ⟨e, he⟩ := Option.isSome_iff_exists.1 hlive
      rcases act_calls h he with ⟨c, hc, -⟩ | ⟨rfl, -⟩
      · exact .inl (by simp [hc])
      · exact .inr (Nat.le_refl _)
    · exact .inr (Nat.le_trans (act_nextCall h) hlive)
  · obtain ⟨e, he, hre⟩ := List.countP_pos_iff.1 (Nat.pos_of_ne_zero hno)
    obtain ⟨conn, fid, sid, r, sent, rfl⟩ : ∃ conn fid sid r sent,
        e = .queue .worker p conn fid sid (.reply r) sent := by
      cases e with
      | queue src p' conn fid sid arg sent =>
          cases src <;> cases arg <;> simp [isReply] at hre
          exact ⟨conn, fid, sid, _, sent, by rw [hre]⟩
      | _ => cases hre
    obtain ⟨c, hc, ⟨-, harg⟩ | ⟨-, -, env, rfl⟩⟩ := hl _ he
    · exact absurd rfl (harg r)
    · have hshort := marks_live ha hm hc ho
      have hold := hr.2 (.inl (by simp [hc]))
      have hlt := hs.nextCall p (by simp [hc])
      have hgone : (answered s p c r env).calls p = none ∧
          (answered s p c r env).nextCall = s.nextCall := by
        simp only [answered, hshort]
        exact ⟨removed_calls_self _ p, rfl⟩
      have hcount : (replyFrames s p r env).countP (isReply p) ≤ 1 := by
        unfold replyFrames
        split
        · exact Nat.zero_le 1
        · exact attempts_replies
      rw [answered_trace, List.countP_append, List.countP_append, hold, hshort]
      refine ⟨by simpa [isReply] using hcount, fun hlive => ?_⟩
      rw [hgone.1, hgone.2] at hlive
      rcases hlive with hlive | hlive
      · cases hlive
      · exact absurd hlt (Nat.not_lt.2 hlive)

theorem act_served (hs : WF s) (ha : Accepts P s) (hm : Marks O s) (hi : InOrder O s)
    (h : Act P G s t) (hv : Served O s) : Served O t := by
  obtain ⟨l, ht, hl⟩ := act_trace h
  have hfid : ∀ {p q m}, .forward p q m ∈ s.trace → t.wsGetFidQueue m.fid = some q :=
    fun hf => act_routes h (hv.route _ _ _ hf)
  refine ⟨?_, ?_, ?_, fun p ho => act_replied ha hs hm h ho (hv.replied p ho)⟩
  · intro p q m n json c hf ho hacc
    -- a call that is accepted in this step is not forwarded yet
    have hold : .forward p q m ∈ t.trace → .accept p n json c ∈ s.trace := by
      intro hf
      rw [ht, List.mem_append] at hacc
      rcases hacc with hacc | hacc
      · exact hacc
      · obtain ⟨rfl, -, rfl⟩ := hl _ hacc
        have hf' : .forward s.nextCall q m ∈ s.trace ++ [.accept s.nextCall n json c] := hf
        simp only [List.mem_append, List.mem_singleton, reduceCtorEq, or_false] at hf'
        exact absurd (hi.ahead _ q m hf' ho).1 (Nat.lt_irrefl _)
    have hacc := hold hf
    rw [ht, List.mem_append] at hf
    rcases hf with hf | hf
    · exact hv.message p q m n json c hf ho hacc
    · obtain ⟨d, hp, hd, rfl, -⟩ := hl _ hf
      rcases hv.data p d n json c hd ho hacc with hdata | ⟨q', m', hf'⟩
      · exact requestOf_congr (ha.evolved hacc hd) hdata
      · exact absurd ((hi.ahead p q' m' hf' ho).2 p hp ho) (Nat.lt_irrefl _)
  · intro p q m hf
    rw [ht, List.mem_append] at hf
    rcases hf with hf | hf
    · exact hfid hf
    · obtain ⟨c, -, -, rfl, hq, -⟩ := hl _ hf
      exact act_routes h hq
  · intro p d n json c hd ho hacc
    rw [ht, List.mem_append] at hacc
    rcases hacc with hacc | hacc
    · rcases act_calls h hd with ⟨e, he, -, hdata | ⟨q, rfl⟩, -⟩ | ⟨rfl, -⟩
      · rcases hv.data p e n json c he ho hacc with hdata' | ⟨q, m, hf⟩
        · exact .inl (hdata.trans hdata')
        · exact .inr ⟨q, m, ht ▸ List.mem_append_left l hf⟩
      · refine .inr ⟨q, requestOf e, ?_⟩
        exact List.mem_append_right _ (List.mem_singleton.2 rfl)
      · exact absurd (ha.asks _ n json c hacc).1 (Nat.lt_irrefl _)
    · obtain ⟨rfl, -, rfl⟩ := hl _ hacc
      have hnew : (s.allocCall c).calls s.nextCall = some d := hd
      rw [allocCall_calls_self, Option.some.injEq] at hnew
      exact .inl (hnew ▸ rfl)

theorem reachable_inOrder {x : System} (h : Reachable (machine P) x) (hm : Marks O x.srv) :
    InOrder O x.srv ∧ Served O x.srv := by
  refine (reachable_acts (I := fun s => Accepts P s ∧ (Marks O s → InOrder O s ∧ Served O s))
    (fun depth => ⟨init_accepts P depth, fun _ => ⟨⟨.nil, .nil, ?_⟩, ?_, ?_, ?_, ?_⟩⟩) ?_ h).2 hm
  · intro p q m hf
    cases hf
  · intro p q m n json c hf
    cases hf
  · intro p q m hf
    cases hf
  · intro p d n json c hd
    cases hd
  · exact fun p _ => ⟨Nat.zero_le 1, fun _ => rfl⟩
  · rintro s t hs hact ⟨ha, hi⟩
    refine ⟨act_accepted hact ha, fun hm => ?_⟩
    have hm' := hm.before hact
    obtain ⟨hi, hv⟩ := hi hm'
    exact ⟨act_inOrder hs ha hm' hact hi, act_served hs ha hm' hi hact hv⟩

def oneShotKey (fid : UInt32) : Event → Option CallPtr
  | .accept p _ _ c => if c.ulFid = fid ∧ c.longTerm = false ∧ c.toDelete = false then some p else none
  | _ => none

def oneShots (s : Server) (fid : UInt32) : List CallPtr := s.trace.filterMap (oneShotKey fid)

def forwards (s : Server) (O : CallPtr → Bool) : List CallPtr := s.trace.filterMap (forwardKey O)

/-- The message that a one-shot request is forwarded as, when its ARG could be
printed or could not. -/
structure RequestFor (P : Platform) (printed : Bool) (json : Json) (m : WebapiMsg) : Prop where
  fid : m.fid = frameFid json
  id : ∃ sid, frameNumber json ['S', 'I', 'D'] = some sid ∧ m.id = sid &&& 0xffff
  data : m.data = frameArg P printed json
  len : m.len = (m.data.map List.length).getD 0

structure OneShot (P : Platform) (s : Server) : Prop where
  once : ∀ p n json c, .accept p n json c ∈ s.trace → c.longTerm = false → c.toDelete = false →
    (forwards s (· == p)).length ≤ 1 ∧ s.trace.countP (isReply p) ≤ 1
  exactly : ∀ p n json c q m, .accept p n json c ∈ s.trace → c.longTerm = false →
    c.toDelete = false → .forward p q m ∈ s.trace →
    RequestFor P true json m ∧ s.wsGetFidQueue m.fid = some q
  ordered : ∀ fid, (forwards s (fun p => decide (p ∈ oneShots s fid))).Sublist (oneShots s fid)

theorem marks_one (ha : Accepts P s) {n : ConnPtr} {json : Json}
    (hacc : .accept p n json c ∈ s.trace) (hl : c.longTerm = false) : Marks (· == p) s := by
  intro p' n' json' c' hacc' hp
  obtain rfl : p' = p := by simpa using hp
  have := ha.increasing.eq hacc hacc' rfl rfl
  cases this
  exact hl

theorem mem_oneShots {fid : UInt32} (h : p ∈ oneShots s fid) :
    ∃ n json c, .accept p n json c ∈ s.trace ∧ c.longTerm = false := by
  obtain ⟨e, he, hk⟩ := List.mem_filterMap.1 h
  cases e with
  | accept p' n json c =>
      simp only [oneShotKey, Option.ite_none_right_eq_some, Option.some.injEq] at hk
      obtain ⟨⟨-, hl, -⟩, rfl⟩ := hk
      exact ⟨n, json, c, he, hl⟩
  | _ => cases hk

theorem requestFor (h : AsksFor P json c) (hl : c.longTerm = false) :
    ∃ printed, c.pucReqData = frameArg P printed json ∧ RequestFor P printed json (requestOf c) := by
  obtain ⟨printed, q, fl, sid, hd, -, -, hsid, rfl⟩ := h
  have hdata : (requestOf (acceptedCall P printed json q sid hd)).data = frameArg P printed json := by
    rw [requestOf, hl]
    rfl
  refine ⟨printed, rfl, rfl, ⟨sid, hsid, rfl⟩, hdata, ?_⟩
  rw [hdata]
  rfl

theorem frameArg_none (h : json.getObjectItem ['A', 'R', 'G'] = none) (printed : Bool) :
    frameArg P printed json = none := by
  rw [frameArg, h]
  rfl

def asksOnce (json : Json) : Bool :=
  (frameNumber json ['F', 'L', 'A', 'G', 'S']).any
    (fun fl => fl &&& callFlagLongTerm == 0 && fl &&& callFlagToDelete == 0)

theorem callFlagNew_or {f : UInt32} (h : callFlagNew &&& f = 0) (fl : UInt32) :
    (callFlagNew ||| fl) &&& f = fl &&& f := by
  have hdistrib : (callFlagNew ||| fl) &&& f = (callFlagNew &&& f) ||| (fl &&& f) :=
    UInt32.toBitVec_inj.1 BitVec.and_or_distrib_right
  rw [hdistrib, h, UInt32.zero_or]

theorem textAccepts_flags {u : Option SessPtr} {data : Option Bytes} {env : TextEnv}
    (h : textAccepts P s u data env = some json) :
    ∃ fl, frameNumber json ['F', 'L', 'A', 'G', 'S'] = some fl := by
  unfold textAccepts at h
  split at h
  · obtain ⟨-, hok⟩ := Option.filter_eq_some_iff.1 h
    simp only [Bool.and_eq_true] at hok
    exact Option.isSome_iff_exists.1 hok.1.1.2
  · cases h

theorem asksOnce_of {fl : UInt32} (hfl : frameNumber json ['F', 'L', 'A', 'G', 'S'] = some fl)
    (hc : c.flags = callFlagNew ||| fl) (hl : c.longTerm = false) (hd : c.toDelete = false) :
    asksOnce json = true := by
  rw [ApiCall.longTerm, hc, callFlagNew_or (by decide)] at hl
  rw [ApiCall.toDelete, hc, callFlagNew_or (by decide)] at hd
  rw [asksOnce, hfl, Option.any_some]
  simpa using And.intro hl hd

/-- The frame of a one-shot request that has an ARG is taken up with the memory
that cJSON_PrintUnformatted needs for it. -/
def PrintStep (P : Platform) (x : System) (a : Label) (_ : System) : Prop :=
  ∀ env conn data json, a = .text env → x.httpd = .text conn data →
    textAccepts P x.srv ((x.srv.conns conn).bind Conn.userData) data env = some json →
    asksOnce json = true → (json.getObjectItem ['A', 'R', 'G']).isSome → env.printAlloc = true

def Printed (P : Platform) (s : Server) : Prop :=
  ∀ p n json c, .accept p n json c ∈ s.trace → c.longTerm = false → c.toDelete = false →
    c.pucReqData = frameArg P true json

theorem step_printed {x y : System} {a : Label} (hr : Reachable (machine P) x)
    (h : (machine P).Step x a y) (hcond : PrintStep P x a y) (hi : Printed P x.srv) :
    Printed P y.srv := by
  intro p n json c hacc hl hd
  rw [Correlation.step_added hr h, List.mem_append] at hacc
  rcases hacc with hacc | hacc
  · exact hi p n json c hacc hl hd
  · obtain ⟨env, data, q, sid, ha, hhttpd, haccept, rfl⟩ := step_admits hr h hacc
    obtain ⟨fl, hfl⟩ := textAccepts_flags haccept
    have honce : asksOnce json = true := by
      refine asksOnce_of hfl ?_ hl hd
      show callFlagNew ||| (frameNumber json ['F', 'L', 'A', 'G', 'S']).getD 0 = _
      rw [hfl, Option.getD_some]
    show frameArg P env.printAlloc json = frameArg P true json
    cases harg : json.getObjectItem ['A', 'R', 'G'] with
    | none => rw [frameArg_none harg, frameArg_none harg]
    | some item => rw [hcond env n data json ha hhttpd haccept honce (by simp [harg])]

theorem along_printed {x y : System} {as : List Label} (hx : (machine P).init x)
    (hrun : Along (machine P) (PrintStep P) x as y) : Printed P y.srv := by
  refine hrun.invariant (.init hx) ?_ (fun t a u hr hi hstep hcond => step_printed hr hstep hcond hi)
  obtain ⟨depth, rfl⟩ := hx
  exact fun p n json c hacc => absurd hacc List.not_mem_nil

/-- If the ARG of every one-shot request is printed, a one-shot request reaches
its peripheral at most once, as its frame asks for and in the order of the
frames, and gets at most one reply. -/
theorem one_shot_along {x y : System} {as : List Label} (hx : (machine P).init x)
    (hrun : Along (machine P) (PrintStep P) x as y) : OneShot P y.srv := by
  have h : Reachable (machine P) y := hrun.reachable (.init hx)
  have hprinted := along_printed hx hrun
  have ha := reachable_accepts h
  refine ⟨fun p n json c hacc hl _ => ?_, fun p n json c q m hacc hl hd hf => ?_, fun fid => ?_⟩
  · obtain ⟨hi, hv⟩ := reachable_inOrder h (marks_one ha hacc hl)
    refine ⟨?_, (hv.replied p (by simp)).1⟩
    have hall : ∀ z ∈ forwards y.srv (· == p), p = z := by
      intro z hz
      obtain ⟨e, -, hk⟩ := List.mem_filterMap.1 hz
      cases e with
      | forward p' q m =>
          simp only [forwardKey, Option.ite_none_right_eq_some, Option.some.injEq, beq_iff_eq] at hk
          rw [← hk.2, hk.1]
      | _ => cases hk
    rw [← List.count_eq_length.2 hall]
    exact hi.increasing.count_le_one p
  · obtain ⟨-, hv⟩ := reachable_inOrder h (marks_one ha hacc hl)
    have hm := hv.message p q m n json c hf (by simp) hacc
    obtain ⟨printed, hdata, hreq⟩ := requestFor (ha.asks p n json c hacc).2 hl
    refine ⟨hm ▸ ⟨hreq.fid, hreq.id, ?_, hreq.len⟩, hv.route p q m hf⟩
    rw [hreq.data, ← hdata]
    exact hprinted p n json c hacc hl hd
  · have hmarks : Marks (fun p => decide (p ∈ oneShots y.srv fid)) y.srv := by
      intro p n json c hacc hp
      obtain ⟨n', json', c', hacc', hl⟩ := mem_oneShots (of_decide_eq_true hp)
      have := ha.increasing.eq hacc hacc' rfl rfl
      cases this
      exact hl
    have hsub : ∀ e k, oneShotKey fid e = some k → acceptKey e = some k := by
      intro e k hk
      cases e with
      | accept p n json c =>
          simp only [oneShotKey, Option.ite_none_right_eq_some] at hk
          exact hk.2
      | _ => cases hk
    refine (reachable_inOrder h hmarks).1.increasing.sublist_keys (ha.increasing.restrict hsub) ?_
    intro e he k hk
    cases e with
    | forward p q m =>
        simp only [forwardKey, Option.ite_none_right_eq_some, Option.some.injEq,
          decide_eq_true_eq] at hk
        obtain ⟨hp, rfl⟩ := hk
        exact List.mem_filterMap.1 hp
    | _ => cases hk

section Samples

def argText (r : Nat × Nat × Nat) : Bytes :=
  (requestText r).dropLast ++ bytes [',', '"', 'A', 'R', 'G', '"', ':', '7', '\x7d']

def argJson (r : Nat × Nat × Nat) : Json :=
  .object [(bytes ['F', 'I', 'D'], .number (Int32.ofNat r.1) r.1),
    (bytes ['F', 'L', 'A', 'G', 'S'], .number (Int32.ofNat r.2.1) r.2.1),
    (bytes ['S', 'I', 'D'], .number (Int32.ofNat r.2.2) r.2.2), (bytes ['A', 'R', 'G'], .number 7 7)]

def argPlatform (rs : List (Nat × Nat × Nat)) : Platform where
  parse text := (rs.find? (fun r => argText r == text)).map argJson
  print item := match item with
    | .number _ d => bytes (digits d.num.toNat)
    | _ => []
  msToTicks t := t

def argRequest (printAlloc : Bool) (r : Nat × Nat × Nat) : List Label :=
  [.frame 0 .text (some (argText r)) true, .text ⟨true, printAlloc, okSend⟩]

def twoRequests (printAlloc : Bool) : List Label :=
  [.registerQueue 0x1013 (some 0) true true, .connect 1 true] ++ argRequest printAlloc (0x1013, 0, 5) ++
    argRequest true (0x1013, 0, 6) ++ work 9 ++ [.periphTake 0, .periphAnswer 0 (some [49])] ++ work 3

def echoes : Platform := argPlatform [(0x1013, 0, 5), (0x1013, 0, 6)]

def printOk (P : Platform) (x : System) : Label → Bool
  | .text env => match x.httpd with
    | .text conn data =>
      (textAccepts P x.srv ((x.srv.conns conn).bind Conn.userData) data env).all (fun json =>
        !asksOnce json || (json.getObjectItem ['A', 'R', 'G']).isNone || env.printAlloc)
    | .idle => true
  | _ => true

theorem printStep_of_ok {x y : System} {a : Label} (h : printOk P x a = true) : PrintStep P x a y := by
  rintro env conn data json rfl hhttpd haccept honce harg
  simpa [printOk, hhttpd, haccept, honce, Option.isSome_iff_ne_none.1 harg] using h

theorem one_shot_along_two : ∃ y, Along (machine echoes) (PrintStep echoes) (initSystem (fun _ => 10))
    (twoRequests true) y ∧ oneShots y.srv 0x1013 = [0, 1] ∧ OneShot echoes y.srv := by
  have h : (machine echoes).check (printOk echoes) (fun y => oneShots y.srv 0x1013 == [0, 1])
      (initSystem (fun _ => 10)) (twoRequests true) = true := by decide +kernel
  obtain ⟨y, hrun, hy⟩ := exists_of_check h
  have hprints : Along (machine echoes) (PrintStep echoes) (initSystem (fun _ => 10))
      (twoRequests true) y := hrun.imp (fun _ _ _ => printStep_of_ok)
  exact ⟨y, hprints, by simpa using hy, one_shot_along ⟨_, rfl⟩ hprints⟩

def asksSeven : Event → Bool
  | .accept p _ json c => p == 0 && !c.longTerm && !c.toDelete && frameArg echoes true json == some [55]
  | _ => false

def argless : Event → Bool
  | .forward p _ m => p == 0 && m.data.isNone
  | _ => false

/-- The ARG of the first request cannot be printed, and the request is forwarded
without it. -/
theorem forwarded_unprinted : ∃ y, Run (machine echoes) (initSystem (fun _ => 10))
    (twoRequests false) y ∧ ¬ OneShot echoes y.srv := by
  have h : (machine echoes).reaches (initSystem (fun _ => 10)) (twoRequests false)
      (fun y => y.srv.trace.any asksSeven && y.srv.trace.any argless) = true := by decide +kernel
  obtain ⟨y, hrun, hy⟩ := exists_of_reaches h
  rw [Bool.and_eq_true] at hy
  obtain ⟨e, he, hkind⟩ := List.any_eq_true.1 hy.1
  obtain ⟨e', he', hkind'⟩ := List.any_eq_true.1 hy.2
  refine ⟨y, hrun, fun hone => ?_⟩
  cases e with
  | accept p n json c =>
      cases e' with
      | forward p' q m =>
          simp only [asksSeven, argless, Bool.and_eq_true, beq_iff_eq, Bool.not_eq_true',
            Option.isNone_iff_eq_none] at hkind hkind'
          obtain ⟨⟨⟨rfl, hl⟩, hd⟩, harg⟩ := hkind
          obtain ⟨rfl, hdata⟩ := hkind'
          have hreq := (hone.exactly 0 n json c q m he hl hd he').1
          rw [hreq.data, harg] at hdata
          cases hdata
      | _ => cases hkind'
  | _ => cases hkind

end Samples

end WirelessGateway.OneShots
