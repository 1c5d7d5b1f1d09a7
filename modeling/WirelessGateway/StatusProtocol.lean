import WirelessGateway.Accepted

namespace WirelessGateway.StatusProtocol

open CJson WirelessGateway.Types Memory WsServer Transport Worker Tasks Sends WellFormed Lifecycle
open Steps Provenance Accepted Lib.Linked Lib.Runs

inductive Wire
  | delivered | data | invalid | busy
  deriving DecidableEq

/-- The documented order of the frames of one call. -/
structure Protocol (fs : List Wire) (refused : Prop) : Prop where
  once : fs.count .delivered ≤ 1
  before : ∀ l r, fs = l ++ .data :: r → .delivered ∈ l
  invalid : .invalid ∈ fs → .delivered ∉ fs ∧ .data ∉ fs
  busy : refused → .delivered ∉ fs ∧ .data ∉ fs

section Order

variable {fs : List Wire} {k : Wire} {R R' : Prop}

theorem Protocol.nil (R : Prop) : Protocol [] R where
  once := Nat.zero_le 1
  before l r h := by simp at h
  invalid h := by cases h
  busy _ := by simp

theorem Protocol.keep (h : Protocol fs R) (hR : R' → .delivered ∉ fs ∧ .data ∉ fs) :
    Protocol fs R' := ⟨h.once, h.before, h.invalid, hR⟩

theorem snoc_split {l r : List Wire} {d : Wire} (h : fs ++ [k] = l ++ d :: r) :
    (k = d ∧ fs = l) ∨ ∃ r', fs = l ++ d :: r' := by
  rcases List.eq_nil_or_concat r with rfl | ⟨r', k', rfl⟩
  · obtain ⟨hl, hk⟩ := List.append_inj' h rfl
    exact .inl ⟨List.singleton_inj.1 hk, hl⟩
  · rw [List.concat_eq_append, ← List.cons_append, ← List.append_assoc] at h
    exact .inr ⟨r', (List.append_inj' h rfl).1⟩

theorem Protocol.snoc (h : Protocol fs R) (hd : k = .delivered → .delivered ∉ fs)
    (hdata : k = .data → .delivered ∈ fs) (hinv : k = .invalid → .delivered ∉ fs ∧ .data ∉ fs)
    (hold : k = .delivered ∨ k = .data → .invalid ∉ fs ∧ ¬ R')
    (hR : R' → .delivered ∉ fs ∧ .data ∉ fs) : Protocol (fs ++ [k]) R' where
  once := by
    rw [List.count_append, List.count_singleton]
    by_cases hk : k = .delivered
    · rw [List.count_eq_zero.2 (hd hk)]
      split <;> decide
    · simpa [hk] using h.once
  before l r hs := by
    rcases snoc_split hs with ⟨hk, hl⟩ | ⟨r', hl⟩
    · exact hl ▸ hdata hk
    · exact h.before l r' hl
  invalid hi := by
    rcases List.mem_append.1 hi with hi | hi
    · obtain ⟨hnd, hna⟩ := h.invalid hi
      have : ¬ (k = .delivered ∨ k = .data) := fun hk => (hold hk).1 hi
      rw [not_or] at this
      simp [hnd, hna, Ne.symm this.1, Ne.symm this.2]
    · have hk := List.mem_singleton.1 hi
      obtain ⟨hnd, hna⟩ := hinv hk.symm
      simp [hnd, hna, ← hk]
  busy hr := by
    obtain ⟨hnd, hna⟩ := hR hr
    have : ¬ (k = .delivered ∨ k = .data) := fun hk => (hold hk).2 hr
    rw [not_or] at this
    simp [hnd, hna, Ne.symm this.1, Ne.symm this.2]

end Order

variable {P : Platform} {G : Guard} {s t : Server} {p : CallPtr} {c d e : ApiCall}
  {l : List Event} {json : Json}

def kind : Payload → Option Wire
  | .status sta =>
    if sta = apiCallStatusDelivered then some .delivered
    else if sta = apiCallStatusInvalid then some .invalid
    else if sta = apiCallStatusBusy then some .busy
    else none
  | .reply _ => some .data
  | .json _ => none

def wire (p : CallPtr) : Event → Option Wire
  | .queue .worker q _ _ _ arg true => if q = p then kind arg else none
  | _ => none

def wires (s : Server) (p : CallPtr) : List Wire := s.trace.filterMap (wire p)

def visit (p : CallPtr) : Event → Bool
  | .forward q _ _ | .stall q | .refuse q => q == p
  | _ => false

def visited (s : Server) (p : CallPtr) : Prop := ∃ e ∈ s.trace, visit p e = true

/-- The first time that the forward pass takes the call up it refuses it. -/
def refusedFirst (s : Server) (p : CallPtr) : Prop := s.trace.find? (visit p) = some (.refuse p)

theorem wires_append (ht : t.trace = s.trace ++ l) :
    wires t p = wires s p ++ l.filterMap (wire p) := by
  rw [wires, ht, List.filterMap_append, wires]

theorem visited_append (ht : t.trace = s.trace ++ l) :
    visited t p ↔ visited s p ∨ ∃ e ∈ l, visit p e = true := by
  simp only [visited, ht, List.mem_append, or_and_right, exists_or]

theorem refusedFirst_append (ht : t.trace = s.trace ++ l) (h : refusedFirst t p) :
    refusedFirst s p ∨ (¬ visited s p ∧ l.find? (visit p) = some (.refuse p)) := by
  rw [refusedFirst, ht, List.find?_append] at h
  cases hf : s.trace.find? (visit p) with
  | some e =>
      rw [hf, Option.some_or] at h
      exact .inl (hf.trans h)
  | none =>
      rw [hf, Option.none_or] at h
      refine .inr ⟨?_, h⟩
      rintro ⟨e, he, hv⟩
      exact List.find?_eq_none.1 hf e he hv

theorem attempts_wires (arg : Payload) (env : SendEnv) :
    (attempts s .worker p arg env).filterMap (wire p) =
      if delivered s p env then (kind arg).toList else [] := by
  unfold attempts delivered
  cases ht : target s p with
  | none => simp
  | some y =>
      cases ha : env.alloc with
      | false => simp
      | true =>
          cases hs : env.sent p with
          | false => simp [wire]
          | true => cases hk : kind arg <;> simp [wire, hk]

theorem attempts_visit {src : Source} {arg : Payload} {env : SendEnv} {q : CallPtr} :
    ∀ e ∈ attempts s src q arg env, visit p e = false := by
  intro e he
  obtain ⟨c, x, -, rfl⟩ := mem_attempts he
  rfl

/-- A call waits only after the forward pass took it up, which does so with no
TO_DELETE call, and only if there is a queue for the FID. -/
theorem act_waiting (h : Act P G s t) (hp : p ∈ t.pxWsApiWaitingForResponse) :
    p ∈ s.pxWsApiWaitingForResponse ∨ (visited t p ∧
      ∃ c q, s.calls p = some c ∧ c.toDelete = false ∧ s.wsGetFidQueue c.ulFid = some q) := by
  have hmoved : ∀ {r c q e l}, p ∈ s.pxWsApiWaitingForResponse.erase r ++ [r] →
      t.trace = s.trace ++ e :: l → visit r e = true → s.calls r = some c → c.toDelete = false →
      s.wsGetFidQueue c.ulFid = some q → p ∈ s.pxWsApiWaitingForResponse ∨ (visited t p ∧
        ∃ c q, s.calls p = some c ∧ c.toDelete = false ∧ s.wsGetFidQueue c.ulFid = some q) := by
    intro r c q e l hm ht hv hc hdel hq
    rcases List.mem_append.1 hm with hm | hm
    · exact .inl (List.mem_of_mem_erase hm)
    · rw [List.mem_singleton.1 hm]
      exact .inr ⟨⟨e, by simp [ht], hv⟩, c, q, hc, hdel, hq⟩
  cases h with
  | soft h => exact .inl (h.waiting ▸ hp)
  | @connect fd alloc _ => cases alloc <;> exact .inl hp
  | @disconnect n k _ _ =>
      left
      generalize k.userData = u at hp
      cases u <;> exact hp
  | @accept n k q alloc json fl sid hd => exact .inl (List.mem_of_mem_erase hp)
  | @forward r _ _ _ hc hdel hq => exact hmoved (r := r) hp (l := []) rfl (by simp [visit]) hc hdel hq
  | @stall r _ _ _ hc hdel hq => exact hmoved (r := r) hp (l := []) rfl (by simp [visit]) hc hdel hq
  | @refuse r _ _ _ _ hc hdel hq => exact hmoved (r := r) hp rfl (by simp [visit]) hc hdel hq
  | invalid | release => exact .inl (List.mem_of_mem_erase hp)
  | @respond q c r env =>
      rw [answered_waiting] at hp
      exact .inl (List.mem_of_mem_erase hp)
  | reject | announce | take | post | drop | receive | handled => exact .inl hp

/-- How a live call stands: what it was sent, and what is sure about its FID
and its session. -/
structure Standing (s : Server) (p : CallPtr) (c : ApiCall) : Prop where
  isNew : c.isNew = true → .delivered ∉ wires s p ∧ .data ∉ wires s p
  told : c.isNew = false → .delivered ∈ wires s p ∧ visited s p
  valid : .invalid ∉ wires s p
  route : visited s p → ∃ q, s.wsGetFidQueue c.ulFid = some q
  refused : refusedFirst s p → c.session = none ∧ c.isNew = true

structure Told (s : Server) (p : CallPtr) : Prop where
  protocol : Protocol (wires s p) (refusedFirst s p)
  live : ∀ c, s.calls p = some c → Standing s p c
  waiting : p ∈ s.pxWsApiWaitingForResponse → visited s p
  fresh : s.nextCall ≤ p → wires s p = [] ∧ ¬ visited s p

theorem Standing.step (h : Standing s p c) (ht : t.trace = s.trace ++ l)
    (hnew : e.isNew = c.isNew)
    (hw : ∀ k ∈ l.filterMap (wire p), k = .busy ∨ (k = .data ∧ c.isNew = false))
    (hroute : visited t p → ∃ q, t.wsGetFidQueue e.ulFid = some q)
    (href : refusedFirst t p → e.session = none ∧ e.isNew = true) : Standing t p e where
  isNew hn := by
    rw [hnew] at hn
    obtain ⟨hd, ha⟩ := h.isNew hn
    rw [wires_append ht, List.mem_append, List.mem_append, not_or, not_or]
    refine ⟨⟨hd, fun hm => ?_⟩, ha, fun hm => ?_⟩
    · rcases hw _ hm with hk | ⟨hk, -⟩ <;> cases hk
    · rcases hw _ hm with hk | ⟨-, hk⟩
      · cases hk
      · rw [hn] at hk
        cases hk
  told hn := by
    rw [hnew] at hn
    obtain ⟨hd, hv⟩ := h.told hn
    rw [wires_append ht]
    exact ⟨List.mem_append_left _ hd, (visited_append ht).2 (.inl hv)⟩
  valid := by
    rw [wires_append ht, List.mem_append, not_or]
    refine ⟨h.valid, fun hm => ?_⟩
    rcases hw _ hm with hk | ⟨hk, -⟩ <;> cases hk
  route := hroute
  refused := href

def clearGuard : Guard :=
  { anything with data := fun s p _ => ∀ c, s.calls p = some c → c.isNew = false }

theorem accepted_isNew (h : AsksFor P json c) : c.isNew = true := by
  obtain ⟨alloc, q, fl, sid, hd, -, -, -, rfl⟩ := h
  simp only [acceptedCall, textCall, ApiCall.isNew, callFlagNew, bne_iff_ne]
  intro hzero
  have hbit := congrArg (fun y : UInt32 => y.toBitVec.getLsbD 0) hzero
  simp at hbit

def Stands (t : Server) (p : CallPtr) : Prop :=
  Protocol (wires t p) (refusedFirst t p) ∧ ∀ e, t.calls p = some e → Standing t p e

theorem not_refused_of_find (h : ∀ e ∈ l, visit p e = false) :
    l.find? (visit p) ≠ some (.refuse p) := by
  rw [List.find?_eq_none.2 (fun e he => by simp [h e he])]
  simp

theorem was_isNew (ht : t.trace = s.trace ++ l) (hw : .delivered ∉ l.filterMap (wire p))
    (hc : s.calls p = some c) (h : Was s t p e) : Evolves c e ∧ e.isNew = c.isNew := by
  obtain ⟨d, hd, hev, -, hnew⟩ := h
  rw [hc, Option.some.injEq] at hd
  subst hd
  refine ⟨hev, hnew.resolve_right ?_⟩
  rintro ⟨env, hsent, rfl⟩
  have hl : l = attempts s .worker p (.status apiCallStatusDelivered) env :=
    (List.append_cancel_left ht).symm
  rw [hl, attempts_wires, hsent] at hw
  exact hw (List.mem_singleton.2 rfl)

theorem stands_step (hi : Told s p) (hc : s.calls p = some c) (h : Act P clearGuard s t)
    (ht : t.trace = s.trace ++ l) (hlt : p < s.nextCall) {w : Option Wire}
    (hw : l.filterMap (wire p) = w.toList)
    (hk : ∀ k, w = some k → k = .busy ∨ (k = .data ∧ c.isNew = false))
    (hroute : visited t p → visited s p ∨ ∃ q, s.wsGetFidQueue c.ulFid = some q)
    (href : refusedFirst t p → c.isNew = true ∧ ∀ e, t.calls p = some e → e.session = none) :
    Stands t p := by
  have hst := hi.live c hc
  have hmem : ∀ k ∈ l.filterMap (wire p), k = .busy ∨ (k = .data ∧ c.isNew = false) := by
    intro k hm
    rw [hw, Option.mem_toList] at hm
    exact hk k hm
  constructor
  · have hR : refusedFirst t p → .delivered ∉ wires s p ∧ .data ∉ wires s p :=
      fun hr => hst.isNew (href hr).1
    rw [wires_append ht, hw]
    cases w with
    | none => simpa using hi.protocol.keep hR
    | some k =>
        refine hi.protocol.snoc ?_ ?_ ?_ ?_ hR
        · rintro rfl
          rcases hk _ rfl with he | ⟨he, -⟩ <;> cases he
        · rintro rfl
          rcases hk _ rfl with he | ⟨-, he⟩
          · cases he
          · exact (hst.told he).1
        · rintro rfl
          rcases hk _ rfl with he | ⟨he, -⟩ <;> cases he
        · intro hor
          refine ⟨hst.valid, fun hr => ?_⟩
          rcases hk k rfl with rfl | ⟨rfl, he⟩
          · rcases hor with he | he <;> cases he
          · rw [(href hr).1] at he
            cases he
  · intro e he
    have hwas := (act_calls h he).resolve_right (fun hn => Nat.ne_of_lt hlt hn.1)
    obtain ⟨hev, hnew⟩ := was_isNew ht (fun hm => by
      rcases hmem _ hm with hk | ⟨hk, -⟩ <;> cases hk) hc hwas
    refine hst.step ht hnew hmem (fun hv => ?_) (fun hr => ⟨(href hr).2 e he, hnew ▸ (href hr).1⟩)
    rw [hev.fid]
    rcases hroute hv with hv | ⟨q, hq⟩
    · obtain ⟨q, hq⟩ := hst.route hv
      exact ⟨q, act_routes h hq⟩
    · exact ⟨q, act_routes h hq⟩

theorem silent_of_dead (hn : s.calls p = none) {e : Event} (he : Caused P G s t e) :
    visit p e = false ∧ wire p e = none := by
  have hne : ∀ {q : CallPtr} {c : ApiCall}, s.calls q = some c → q ≠ p := by
    rintro q c hc rfl
    rw [hn] at hc
    cases hc
  cases e with
  | forward q qu m =>
      obtain ⟨c, -, hc, -⟩ := he
      simp [visit, wire, hne hc]
  | stall q =>
      obtain ⟨c, qu, -, hc, -⟩ := he
      simp [visit, wire, hne hc]
  | refuse q =>
      obtain ⟨c, qu, env, -, hc, -⟩ := he
      simp [visit, wire, hne hc]
  | queue src q conn fid sid arg sent =>
      cases src with
      | worker =>
          obtain ⟨c, hc, -⟩ := he
          cases sent <;> simp [visit, wire, hne hc]
      | _ => exact ⟨rfl, rfl⟩
  | _ => exact ⟨rfl, rfl⟩

theorem stands_dead (hi : Told s p) (hn : s.calls p = none) (h : Act P clearGuard s t) :
    Stands t p := by
  obtain ⟨l, ht, hl⟩ := act_trace h
  have hwires : wires t p = wires s p := by
    rw [wires_append ht, List.filterMap_eq_nil_iff.2 (fun e he => (silent_of_dead hn (hl e he)).2),
      List.append_nil]
  have hvisit : ∀ e ∈ l, visit p e = false := fun e he => (silent_of_dead hn (hl e he)).1
  have href : refusedFirst t p → refusedFirst s p := fun hr =>
    (refusedFirst_append ht hr).resolve_right (fun hf => not_refused_of_find hvisit hf.2)
  refine ⟨hwires ▸ hi.protocol.keep (fun hr => hi.protocol.busy (href hr)), fun e he => ?_⟩
  rcases act_calls h he with ⟨c, hc, -⟩ | ⟨rfl, n, json, sid, -, hasks, -⟩
  · rw [hn] at hc
    cases hc
  · obtain ⟨hnil, hunseen⟩ := hi.fresh (Nat.le_refl _)
    have hunseen' : ¬ visited t s.nextCall := by
      rw [visited_append ht]
      rintro (hv | ⟨e, he, hv⟩)
      · exact hunseen hv
      · rw [hvisit e he] at hv
        cases hv
    have hnew := accepted_isNew hasks
    refine ⟨fun _ => ?_, fun hold => ?_, ?_, fun hv => absurd hv hunseen', fun hr => ?_⟩
    · rw [hwires, hnil]
      simp
    · rw [hnew] at hold
      cases hold
    · rw [hwires, hnil]
      simp
    · exact absurd ⟨_, List.mem_of_find?_eq_some hr, by simp [visit]⟩ hunseen'

theorem stands_visit (hi : Told s p) (hc : s.calls p = some c) (h : Act P clearGuard s t)
    (hlt : p < s.nextCall) {v : Event} (hv : visit p v = true) (hcaused : Caused P clearGuard s t v) :
    Stands t p := by
  have hst := hi.live c hc
  have hold : refusedFirst s p → c.isNew = true ∧ ∀ e, t.calls p = some e → e.session = none := by
    intro hr
    obtain ⟨hq, hnew⟩ := hst.refused hr
    exact ⟨hnew, act_session_none h hc hlt hq⟩
  -- the message is put on the queue, or no memory is left for it
  have hpass : ∀ {e : Event} {q}, t.trace = s.trace ++ [e] → s.wsGetFidQueue c.ulFid = some q →
      wire p e = none → e ≠ .refuse p → Stands t p := by
    intro e q ht hq hw hne
    refine stands_step hi hc h ht hlt (w := none) (by simp [hw]) (by simp) (fun _ => .inr ⟨q, hq⟩)
      (fun hr => ?_)
    rcases refusedFirst_append ht hr with hr | ⟨-, hf⟩
    · exact hold hr
    · exact absurd (List.mem_singleton.1 (List.mem_of_find?_eq_some hf)).symm hne
  cases v with
  | forward q qu m =>
      obtain rfl : q = p := by simpa [visit] using hv
      obtain ⟨d, -, hd, rfl, hq, -, rfl⟩ := hcaused
      rw [hc, Option.some.injEq] at hd
      subst hd
      exact hpass rfl hq rfl (by simp)
  | stall q =>
      obtain rfl : q = p := by simpa [visit] using hv
      obtain ⟨d, qu, -, hd, hq, rfl⟩ := hcaused
      rw [hc, Option.some.injEq] at hd
      subst hd
      exact hpass (e := .stall q) rfl hq rfl (by simp)
  | refuse q =>
      obtain rfl : q = p := by simpa [visit] using hv
      obtain ⟨d, qu, env, -, hd, hq, rfl⟩ := hcaused
      rw [hc, Option.some.injEq] at hd
      subst hd
      have hw : (.refuse q :: attempts s .worker q (.status apiCallStatusBusy) env).filterMap (wire q) =
          (if delivered s q env then some Wire.busy else none).toList := by
        have hbusy : kind (.status apiCallStatusBusy) = some .busy := by decide
        rw [List.filterMap_cons_none rfl, attempts_wires, hbusy]
        split <;> rfl
      refine stands_step hi hc h rfl hlt hw (fun k hk => ?_) (fun _ => .inr ⟨qu, hq⟩) (fun hr => ?_)
      · simp only [Option.ite_none_right_eq_some, Option.some.injEq] at hk
        exact .inl hk.2.symm
      · rcases refusedFirst_append rfl hr with hr | ⟨hunseen, -⟩
        · exact hold hr
        · refine ⟨?_, fun e he => ?_⟩
          · by_contra hnew
            exact hunseen (hst.told (by simpa using hnew)).2
          · have : ((refused s q c env).toWaiting q).calls q = some c.dropSession :=
              setCall_calls_self (frames s _) q _
            rw [he, Option.some.injEq] at this
            rw [this]
            rfl
  | _ => cases hv

theorem stands_delivered (hi : Told s p) (hc : s.calls p = some c) {env : SendEnv}
    (hp : p ∈ s.pxWsApiWaitingForResponse) (hnew : c.isNew = true)
    (hsent : delivered s p env = true) (h : Act P clearGuard s (announced s p c env)) :
    Stands (announced s p c env) p := by
  have hst := hi.live c hc
  have ht : (announced s p c env).trace =
      s.trace ++ attempts s .worker p (.status apiCallStatusDelivered) env := rfl
  have hw : wires (announced s p c env) p = wires s p ++ [.delivered] := by
    rw [wires_append ht, attempts_wires, hsent]
    rfl
  have hvisit : ∀ e ∈ attempts s .worker p (.status apiCallStatusDelivered) env,
      visit p e = false := attempts_visit
  have hunrefused : ¬ refusedFirst (announced s p c env) p := by
    intro hr
    have hr := (refusedFirst_append ht hr).resolve_right (fun hf => not_refused_of_find hvisit hf.2)
    rw [delivered, target_eq_none hc (hst.refused hr).1] at hsent
    cases hsent
  constructor
  · rw [hw]
    exact hi.protocol.snoc (fun _ => (hst.isNew hnew).1) (fun he => by cases he)
      (fun he => by cases he) (fun _ => ⟨hst.valid, hunrefused⟩) (fun hr => absurd hr hunrefused)
  · intro e he
    rw [announced, setCall_calls_self, Option.some.injEq, hsent, if_pos rfl] at he
    subst he
    refine ⟨fun hn => by simp at hn, fun _ => ⟨?_, ?_⟩, ?_, fun hv => ?_, fun hr => absurd hr hunrefused⟩
    · rw [hw]
      simp
    · exact (visited_append ht).2 (.inl (hi.waiting hp))
    · rw [hw]
      simp [hst.valid]
    · obtain ⟨q, hq⟩ := hst.route (hi.waiting hp)
      exact ⟨q, act_routes h hq⟩

theorem stands_invalid (hi : Told s p) (hc : s.calls p = some c)
    (hq : s.wsGetFidQueue c.ulFid = none) (env : SendEnv) : Stands (invalidated s p env) p := by
  have hst := hi.live c hc
  have hunseen : ¬ visited s p := by
    intro hv
    obtain ⟨q, hq'⟩ := hst.route hv
    rw [hq] at hq'
    cases hq'
  have hnew : c.isNew = true := by
    by_contra hold
    exact hunseen (hst.told (by simpa using hold)).2
  have ht := invalidated_trace s p env
  have hinv : kind (.status apiCallStatusInvalid) = some .invalid := by decide
  have hunrefused : ¬ refusedFirst (invalidated s p env) p := by
    intro hr
    rcases refusedFirst_append ht hr with hr | ⟨-, hf⟩
    · exact hunseen ⟨_, List.mem_of_find?_eq_some hr, by simp [visit]⟩
    · refine not_refused_of_find (fun e he => ?_) hf
      rcases List.mem_append.1 he with he | he
      · exact attempts_visit e he
      · rw [List.mem_singleton.1 he]
        rfl
  refine ⟨?_, fun e he => ?_⟩
  · have hfree : [Event.free p].filterMap (wire p) = [] := rfl
    rw [wires_append ht, List.filterMap_append, attempts_wires, hinv, hfree, List.append_nil]
    cases delivered s p env with
    | false => simpa using hi.protocol.keep (fun hr => absurd hr hunrefused)
    | true =>
        exact hi.protocol.snoc (fun he => by cases he) (fun he => by cases he)
          (fun _ => hst.isNew hnew) (fun hk => by rcases hk with hk | hk <;> cases hk)
          (fun hr => absurd hr hunrefused)
  · rw [invalidated, removed_calls_self] at he
    cases he

theorem stands_answered (hi : Told s p) (hc : s.calls p = some c) (hlt : p < s.nextCall)
    (hold : c.isNew = false) {r : Reply} {env : SendEnv}
    (h : Act P clearGuard s (answered s p c r env)) : Stands (answered s p c r env) p := by
  have ht := answered_trace s p c r env
  have hw : (replyFrames s p r env ++
      Event.respond p r :: if c.longTerm then [] else [.free p]).filterMap (wire p) =
      (if r.msg.len ≠ 0 ∧ delivered s p env then some Wire.data else none).toList := by
    have hrest : (Event.respond p r :: if c.longTerm then [] else [.free p]).filterMap (wire p) = [] := by
      cases c.longTerm <;> rfl
    rw [List.filterMap_append, hrest, List.append_nil, replyFrames]
    by_cases hlen : r.msg.len = 0
    · simp [hlen]
    · rw [if_neg hlen, attempts_wires]
      cases delivered s p env <;> simp [hlen, kind]
  have hvisit : ∀ e ∈ replyFrames s p r env ++ Event.respond p r :: if c.longTerm then [] else [.free p],
      visit p e = false := by
    intro e he
    rcases List.mem_append.1 he with he | he
    · obtain ⟨_, _, -, rfl⟩ := mem_replyFrames he
      rfl
    · rcases List.mem_cons.1 he with rfl | he
      · rfl
      · split at he
        · cases he
        · rw [List.mem_singleton.1 he]
          rfl
  have hunrefused : ¬ refusedFirst (answered s p c r env) p := by
    intro hr
    have hr := (refusedFirst_append ht hr).resolve_right (fun hf => not_refused_of_find hvisit hf.2)
    rw [((hi.live c hc).refused hr).2] at hold
    cases hold
  refine stands_step hi hc h ht hlt hw (fun k hk => ?_) (fun hv => ?_) (fun hr => absurd hr hunrefused)
  · simp only [Option.ite_none_right_eq_some, Option.some.injEq] at hk
    exact .inr ⟨hk.2.symm, hold⟩
  · rcases (visited_append ht).1 hv with hv | ⟨e, he, hv⟩
    · exact .inl hv
    · rw [hvisit e he] at hv
      cases hv

theorem wire_eq_some {e : Event} {k : Wire} (h : wire p e = some k) :
    ∃ conn fid sid arg, e = .queue .worker p conn fid sid arg true ∧ kind arg = some k := by
  cases e with
  | queue src q conn fid sid arg sent =>
      cases src <;> cases sent <;> simp only [wire, reduceCtorEq] at h
      split at h
      next hq => exact ⟨conn, fid, sid, arg, by rw [hq], h⟩
      next => cases h
  | _ => cases h

theorem stands_live (hi : Told s p) (hc : s.calls p = some c) (hdel : c.toDelete = false)
    (h : Act P clearGuard s t) (hlt : p < s.nextCall) : Stands t p := by
  obtain ⟨l, ht, hl⟩ := act_trace h
  by_cases hv : ∃ v ∈ l, visit p v = true
  · obtain ⟨v, hm, hv⟩ := hv
    exact stands_visit hi hc h hlt hv (hl v hm)
  · have hvisit : ∀ e ∈ l, visit p e = false := fun e he => by
      by_contra hne
      exact hv ⟨e, he, by simpa using hne⟩
    cases hw : l.filterMap (wire p) with
    | nil =>
        refine stands_step hi hc h ht hlt (w := none) hw (by simp) (fun hv => ?_) (fun hr => ?_)
        · rcases (visited_append ht).1 hv with hv | ⟨e, he, hv⟩
          · exact .inl hv
          · rw [hvisit e he] at hv
            cases hv
        · have hr := (refusedFirst_append ht hr).resolve_right
            (fun hf => not_refused_of_find hvisit hf.2)
          obtain ⟨hq, hnew⟩ := (hi.live c hc).refused hr
          exact ⟨hnew, act_session_none h hc hlt hq⟩
    | cons k ks =>
        obtain ⟨e, he, hk⟩ := List.mem_filterMap.1 (show k ∈ l.filterMap (wire p) by simp [hw])
        obtain ⟨conn, fid, sid, arg, rfl, -⟩ := wire_eq_some hk
        obtain ⟨d, hd, hcases⟩ := hl _ he
        rw [hc, Option.some.injEq] at hd
        subst hd
        rcases hcases with ⟨hdel', -⟩ | hframe
        · rw [hdel] at hdel'
          cases hdel'
        · cases arg with
          | json data => exact hframe.elim
          | reply r =>
              obtain ⟨-, hG, env, rfl⟩ := hframe
              exact stands_answered hi hc hlt (hG rfl c hc) h
          | status sta =>
              rcases hframe with ⟨-, env, rfl⟩ | ⟨-, hp, hnew, env, hsent, rfl⟩ | ⟨-, -, hq, env, rfl⟩
              · -- the refusal itself is in the history
                have hl' : l = .refuse p :: attempts s .worker p (.status apiCallStatusBusy) env :=
                  (List.append_cancel_left ht).symm
                exact absurd ⟨.refuse p, by simp [hl'], by simp [visit]⟩ hv
              · exact stands_delivered hi hc hp hnew hsent h
              · exact stands_invalid hi hc hq env

theorem act_told (hs : WF s) (hdel : ∀ c, s.calls p = some c → c.toDelete = false)
    (h : Act P clearGuard s t) (hi : Told s p) : Told t p := by
  obtain ⟨l, ht, hl⟩ := act_trace h
  have hstands : Stands t p := by
    cases hc : s.calls p with
    | none => exact stands_dead hi hc h
    | some c => exact stands_live hi hc (hdel c hc) h (hs.nextCall p (by simp [hc]))
  refine ⟨hstands.1, hstands.2, fun hp => ?_, fun hle => ?_⟩
  · rcases act_waiting h hp with hp | ⟨hv, -⟩
    · exact (visited_append ht).2 (.inl (hi.waiting hp))
    · exact hv
  · have hle' := Nat.le_trans (act_nextCall h) hle
    obtain ⟨hnil, hunseen⟩ := hi.fresh hle'
    have hn := hs.fresh hle'
    rw [wires_append ht, hnil, visited_append ht]
    refine ⟨List.filterMap_eq_nil_iff.2 (fun e he => (silent_of_dead hn (hl e he)).2), ?_⟩
    rintro (hv | ⟨e, he, hv⟩)
    · exact hunseen hv
    · rw [(silent_of_dead hn (hl e he)).1] at hv
      cases hv

/-- No data that the transport accepts goes to a call whose NEW flag is set. -/
def ClearStep (x : System) (a : Label) (_ : System) : Prop :=
  ∀ env r p c, a = .worker env → answering x = some (r, p) → x.srv.calls p = some c →
    r.msg.len ≠ 0 → delivered x.srv p env.reply = true → c.isNew = false

theorem answers_clear {r : Reply} {env : WorkerEnv}
    (h : ∀ c, s.calls p = some c → r.msg.len ≠ 0 → delivered s p env.reply = true →
      c.isNew = false) : Answers clearGuard s p r env := by
  refine fun s' hsoft => ⟨trivial, fun hlen hsent c hc => ?_⟩
  obtain ⟨d, hd, hw⟩ := hsoft.call_back hc
  rw [hw.isNew]
  refine h d hd hlen ?_
  simp only [delivered, Bool.and_eq_true] at hsent ⊢
  obtain ⟨⟨htarget, halloc⟩, hsent⟩ := hsent
  obtain ⟨⟨e, y⟩, ht⟩ := Option.isSome_iff_exists.1 htarget
  obtain ⟨d', x, ht', -⟩ := hsoft.target_back ht
  exact ⟨⟨by simp [ht'], halloc⟩, hsent⟩

theorem ClearStep.allows {x y : System} {a : Label} (h : ClearStep x a y) :
    Allows P clearGuard x a := by
  have hany := allows_anything P x a
  cases a with
  | worker env =>
      exact ⟨fun r p hp => answers_clear (fun c hc => h env r p c rfl hp hc), fun _ _ _ => trivial⟩
  | _ => exact hany

def Plain (p : CallPtr) (s : Server) : Prop :=
  ∀ n json c, .accept p n json c ∈ s.trace → c.toDelete = false

theorem init_told (depth : QueueId → Nat) (p : CallPtr) : Told (initServer depth) p where
  protocol := .nil _
  live c hc := by cases hc
  waiting hp := by cases hp
  fresh _ := ⟨rfl, fun ⟨_, he, _⟩ => by cases he⟩

/-- In a run in which no data goes to a call whose NEW flag is still set, the
frames of every call come in the documented order. -/
theorem status_protocol {x y : System} {as : List Label} (hx : (machine P).init x)
    (h : Along (machine P) ClearStep x as y) {n : ConnPtr}
    (hacc : .accept p n json c ∈ y.srv.trace) (hdel : c.toDelete = false) :
    Protocol (wires y.srv p) (refusedFirst y.srv p) := by
  have hinv := along_acts (G := clearGuard)
    (I := fun s => Accepts P s ∧ (Plain p s → Told s p)) ?_ (.init hx) ?_
    (h.imp (fun _ _ _ hc => hc.allows))
  · refine (hinv.2 (fun n' json' c' hacc' => ?_)).protocol
    have := hinv.1.increasing.eq hacc hacc' rfl rfl
    cases this
    exact hdel
  · rintro s t hs hact ⟨ha, hi⟩
    refine ⟨act_accepted hact ha, fun hplain => ?_⟩
    have hplain' : Plain p s := by
      obtain ⟨l, ht, -⟩ := act_trace hact
      exact fun n json c hm => hplain n json c (ht ▸ List.mem_append_left l hm)
    refine act_told hs (fun d hd => ?_) hact (hi hplain')
    obtain ⟨n, json, c, hm, hev⟩ := ha.born p d hd
    rw [hev.toDelete, hplain' n json c hm]
  · obtain ⟨depth, rfl⟩ := hx
    exact ⟨init_accepts P depth, fun _ => init_told depth p⟩

def clearOk (x : System) : Label → Bool
  | .worker env => (answering x).all (fun (r, p) => (x.srv.calls p).all (fun c =>
      r.msg.len == 0 || !delivered x.srv p env.reply || !c.isNew))
  | _ => true

theorem clearStep_of_ok {x y : System} {a : Label} (h : clearOk x a = true) : ClearStep x a y := by
  rintro env r p c rfl hans hc hlen hsent
  simpa [clearOk, hans, hc, hlen, hsent] using h

def echoed (deliver : WorkerEnv) : List Label :=
  [.registerQueue 0x1013 (some 0) true true, .connect 1 true] ++ request 0 (0x1013, 0, 5) ++
    work 5 ++ [.worker deliver] ++ work 1 ++ [.periphTake 0, .periphAnswer 0 (some [49])] ++ work 2

def acceptsPlain (p : CallPtr) : Event → Bool
  | .accept q _ _ c => q == p && !c.toDelete
  | _ => false

theorem accepts_of_any (h : s.trace.any (acceptsPlain p) = true) :
    ∃ n json c, .accept p n json c ∈ s.trace ∧ c.toDelete = false := by
  obtain ⟨e, he, hp⟩ := List.any_eq_true.1 h
  cases e with
  | accept q n json c =>
      simp only [acceptsPlain, Bool.and_eq_true, beq_iff_eq, Bool.not_eq_true'] at hp
      exact ⟨n, json, c, hp.1 ▸ he, hp.2⟩
  | _ => cases hp

theorem status_protocol_echo : ∃ y, Along (machine (platform [(0x1013, 0, 5)])) ClearStep
    (initSystem (fun _ => 10)) (echoed okEnv) y ∧ wires y.srv 0 = [.delivered, .data] ∧
    Protocol (wires y.srv 0) (refusedFirst y.srv 0) := by
  have h : (machine (platform [(0x1013, 0, 5)])).check clearOk
      (fun y => decide (wires y.srv 0 = [.delivered, .data]) && y.srv.trace.any (acceptsPlain 0))
      (initSystem (fun _ => 10)) (echoed okEnv) = true := by decide +kernel
  obtain ⟨y, hrun, hy⟩ := exists_of_check h
  rw [Bool.and_eq_true, decide_eq_true_eq] at hy
  obtain ⟨n, json, c, hacc, hdel⟩ := accepts_of_any hy.2
  have hclear := hrun.imp (fun _ _ z => clearStep_of_ok (y := z))
  exact ⟨y, hclear, hy.1, status_protocol ⟨_, rfl⟩ hclear hacc hdel⟩

/-- The transport fails once, for the DELIVERED status. -/
theorem data_before_delivered : ∃ y, Reachable (machine (platform [(0x1013, 0, 5)])) y ∧
    ∃ n json c, .accept 0 n json c ∈ y.srv.trace ∧ c.toDelete = false ∧
      ¬ Protocol (wires y.srv 0) (refusedFirst y.srv 0) := by
  have h : (machine (platform [(0x1013, 0, 5)])).reaches (initSystem (fun _ => 10))
      (echoed { okEnv with status := ⟨true, fun _ => false⟩ })
      (fun y => decide (wires y.srv 0 = [.data]) && y.srv.trace.any (acceptsPlain 0)) = true := by
    decide +kernel
  obtain ⟨y, hrun, hy⟩ := exists_of_reaches h
  rw [Bool.and_eq_true, decide_eq_true_eq] at hy
  obtain ⟨n, json, c, hacc, hdel⟩ := accepts_of_any hy.2
  refine ⟨y, ⟨_, _, ⟨_, rfl⟩, hrun⟩, n, json, c, hacc, hdel, fun hp => ?_⟩
  have := hp.before [] [] hy.1
  cases this

end WirelessGateway.StatusProtocol
