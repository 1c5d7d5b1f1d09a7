import WirelessGateway.Connection

namespace WirelessGateway.LinkDown

open Connection Lib.Runs
open WirelessGateway.Types (ConnPtr)

section Subscriptions

variable {x y : Net} {e : Event} {l : LinkPtr} {c : ConnPtr}

/-- A delegate is subscribed to one link only, an active one with the address
of the connection, and a connection that was told to close to none. -/
structure Subscribed (x : Net) : Prop where
  free : ∀ l ∈ x.links.free, (x.links.pool l).event = []
  conn : ∀ l, ∀ c ∈ (x.links.pool l).event, ∃ conn, x.conns c = some conn ∧
    conn.peer.ip4 = some (x.links.pool l).ip ∧ conn.closes = 0
  nodup : ∀ l, (x.links.pool l).event.Nodup
  unique : ∀ l k c, c ∈ (x.links.pool l).event → c ∈ (x.links.pool k).event → l = k
  closes : ∀ c conn, x.conns c = some conn → conn.closes ≤ 1 ∧ conn.openedAt < x.clock

theorem subscribed_init : Subscribed Net.init := by
  refine ⟨?_, ?_, ?_, ?_, ?_⟩ <;> simp [Net.init]

theorem Subscribed.not_mem (h : Subscribed x) (hc : x.conns c = none) :
    c ∉ (x.links.pool l).event := by
  intro hmem
  obtain ⟨conn, hconn, -⟩ := h.conn l c hmem
  rw [hc] at hconn
  cases hconn

theorem closed_map (cs : List ConnPtr) :
    (cs.map Action.triggerClose).filterMap Action.closed = cs := by
  rw [List.filterMap_map]
  exact List.filterMap_some

theorem countCloses_nil (x : Net) : x.countCloses [] = x.conns := by
  funext c
  simp only [Net.countCloses, List.count_nil, Nat.add_zero]
  exact Option.map_id_apply

theorem countCloses_some {closed : List ConnPtr} {conn : Conn}
    (h : x.countCloses closed c = some conn) : ∃ conn₀, x.conns c = some conn₀ ∧
      conn.peer = conn₀.peer ∧ conn.openedAt = conn₀.openedAt ∧
      conn.closes = conn₀.closes + closed.count c := by
  obtain ⟨conn₀, hconn, rfl⟩ := Option.map_eq_some_iff.1 h
  exact ⟨conn₀, hconn, rfl, rfl, rfl⟩

theorem Subscribed.relink (h : Subscribed x) {closed : List ConnPtr}
    (hpool : ∀ k, (y.links.pool k).event = [] ∨
      y.links.pool k = x.links.pool k ∧ ∀ c ∈ (x.links.pool k).event, c ∉ closed)
    (hfree : ∀ k ∈ y.links.free, (y.links.pool k).event = []) (hclosed : closed.Nodup)
    (hsub : ∀ c ∈ closed, ∃ l, c ∈ (x.links.pool l).event)
    (hconns : y.conns = x.countCloses closed) (hclock : y.clock = x.clock + 1) : Subscribed y := by
  have hmem : ∀ k c, c ∈ (y.links.pool k).event →
      y.links.pool k = x.links.pool k ∧ c ∈ (x.links.pool k).event ∧ c ∉ closed := by
    intro k c hc
    rcases hpool k with hnil | ⟨hsame, hout⟩
    · rw [hnil] at hc
      cases hc
    · rw [hsame] at hc
      exact ⟨hsame, hc, hout c hc⟩
  refine ⟨hfree, ?_, ?_, ?_, ?_⟩
  · intro k c hc
    obtain ⟨hsame, hc, hout⟩ := hmem k c hc
    obtain ⟨conn, hconn, hip, hcloses⟩ := h.conn k c hc
    refine ⟨conn, ?_, hsame ▸ hip, hcloses⟩
    simp [hconns, Net.countCloses, hconn, List.count_eq_zero.2 hout]
  · intro k
    rcases hpool k with hnil | ⟨hsame, -⟩
    · rw [hnil]
      exact List.nodup_nil
    · rw [hsame]
      exact h.nodup k
  · intro k k' c hc hc'
    exact h.unique k k' c (hmem k c hc).2.1 (hmem k' c hc').2.1
  · intro c conn hconn
    rw [hconns] at hconn
    obtain ⟨conn₀, hconn₀, -, hopened, hcount⟩ := countCloses_some hconn
    obtain ⟨hle, hlt⟩ := h.closes c conn₀ hconn₀
    refine ⟨?_, by rw [hopened, hclock]; exact Nat.lt_succ_of_lt hlt⟩
    by_cases hc : c ∈ closed
    · obtain ⟨l, hl⟩ := hsub c hc
      obtain ⟨conn₁, hconn₁, -, hzero⟩ := h.conn l c hl
      rw [hconn₀] at hconn₁
      cases hconn₁
      have hone := List.nodup_iff_count_le_one.1 hclosed c
      omega
    · rw [List.count_eq_zero.2 hc] at hcount
      omega

theorem Subscribed.same (h : Subscribed x) (hlinks : y.links = x.links)
    (hconns : y.conns = x.countCloses []) (hclock : y.clock = x.clock + 1) : Subscribed y := by
  refine @Subscribed.relink x y h [] (fun k => .inr ⟨by rw [hlinks], fun _ _ => List.not_mem_nil⟩) ?_
    List.nodup_nil (by simp) hconns hclock
  rw [hlinks]
  exact h.free

theorem Subscribed.raised (h : Subscribed x) (hnil : (y.links.pool l).event = [])
    (hpool : ∀ k, k ≠ l → y.links.pool k = x.links.pool k)
    (hfree : ∀ k ∈ y.links.free, k = l ∨ k ∈ x.links.free)
    (hconns : y.conns = x.countCloses (x.links.pool l).event) (hclock : y.clock = x.clock + 1) :
    Subscribed y := by
  refine h.relink ?_ ?_ (h.nodup l) (fun c hc => ⟨l, hc⟩) hconns hclock
  · intro k
    by_cases hk : k = l
    · exact .inl (hk ▸ hnil)
    · exact .inr ⟨hpool k hk, fun c hc hl => hk (h.unique k l c hc hl)⟩
  · intro k hk
    by_cases hkl : k = l
    · exact hkl ▸ hnil
    · rw [hpool k hkl]
      exact h.free k ((hfree k hk).resolve_left hkl)

theorem Subscribed.opened (h : Subscribed x) (peer : Peer) (hc : x.conns c = none)
    (hpool : ∀ k, y.links.pool k = x.links.pool k ∨
      k = l ∧ l ∉ x.links.free ∧ peer.ip4 = some (x.links.pool l).ip ∧
        y.links.pool l = { x.links.pool l with event := (x.links.pool l).event ++ [c] })
    (hfree : y.links.free = x.links.free)
    (hconns : y.conns = Function.update (x.countCloses []) c (some ⟨peer, x.clock, 0⟩))
    (hclock : y.clock = x.clock + 1) : Subscribed y := by
  have hmem : ∀ k d, d ∈ (y.links.pool k).event → d ∈ (x.links.pool k).event ∨
      k = l ∧ d = c ∧ peer.ip4 = some (x.links.pool l).ip := by
    intro k d hd
    rcases hpool k with hsame | ⟨rfl, -, hip, hset⟩
    · rw [hsame] at hd
      exact .inl hd
    · rw [hset, List.mem_append, List.mem_singleton] at hd
      exact hd.imp_right (fun hd => ⟨rfl, hd, hip⟩)
  have hip : ∀ k, (y.links.pool k).ip = (x.links.pool k).ip := by
    intro k
    rcases hpool k with hsame | ⟨rfl, -, -, hset⟩
    · rw [hsame]
    · rw [hset]
  refine ⟨?_, ?_, ?_, ?_, ?_⟩
  · intro k hk
    rw [hfree] at hk
    rcases hpool k with hsame | ⟨rfl, hl, -⟩
    · rw [hsame]
      exact h.free k hk
    · exact absurd hk hl
  · intro k d hd
    rw [hconns, countCloses_nil, hip]
    rcases hmem k d hd with hd | ⟨rfl, rfl, hpeer⟩
    · have hne : d ≠ c := fun he => h.not_mem hc (he ▸ hd)
      rw [Function.update_of_ne hne]
      exact h.conn k d hd
    · rw [Function.update_self]
      exact ⟨_, rfl, hpeer, rfl⟩
  · intro k
    rcases hpool k with hsame | ⟨rfl, -, -, hset⟩
    · rw [hsame]
      exact h.nodup k
    · rw [hset]
      exact (h.nodup k).append (List.nodup_singleton c) (by simpa using h.not_mem hc)
  · intro k k' d hd hd'
    rcases hmem k d hd with hd | ⟨rfl, rfl, -⟩
    · rcases hmem k' d hd' with hd' | ⟨rfl, rfl, -⟩
      · exact h.unique k k' d hd hd'
      · exact absurd hd (h.not_mem hc)
    · rcases hmem k' d hd' with hd' | ⟨rfl, -⟩
      · exact absurd hd' (h.not_mem hc)
      · rfl
  · intro d conn hd
    rw [hconns, countCloses_nil] at hd
    by_cases hdc : d = c
    · subst hdc
      rw [Function.update_self, Option.some.injEq] at hd
      subst hd
      exact ⟨Nat.zero_le 1, by rw [hclock]; exact Nat.lt_succ_self _⟩
    · rw [Function.update_of_ne hdc] at hd
      rw [hclock]
      exact (h.closes d conn hd).imp_right Nat.lt_succ_of_lt

theorem Subscribed.freed (h : Subscribed x) (hlinks : y.links = eventUnsubscribe x.links c)
    (hconns : y.conns = Function.update (x.countCloses []) c none)
    (hclock : y.clock = x.clock + 1) : Subscribed y := by
  have hmem : ∀ k d, d ∈ (y.links.pool k).event ↔ d ≠ c ∧ d ∈ (x.links.pool k).event := by
    intro k d
    rw [hlinks]
    exact (h.nodup k).mem_erase_iff
  refine ⟨?_, ?_, ?_, ?_, ?_⟩
  · intro k hk
    rw [hlinks] at hk ⊢
    simp only [eventUnsubscribe] at hk ⊢
    rw [h.free k hk]
    rfl
  · intro k d hd
    obtain ⟨hne, hd⟩ := (hmem k d).1 hd
    rw [hconns, countCloses_nil, Function.update_of_ne hne, hlinks]
    exact h.conn k d hd
  · intro k
    rw [hlinks]
    exact (h.nodup k).erase c
  · intro k k' d hd hd'
    exact h.unique k k' d ((hmem k d).1 hd).2 ((hmem k' d).1 hd').2
  · intro d conn hd
    rw [hconns, countCloses_nil] at hd
    by_cases hdc : d = c
    · subst hdc
      rw [Function.update_self] at hd
      cases hd
    · rw [Function.update_of_ne hdc] at hd
      rw [hclock]
      exact (h.closes d conn hd).imp_right Nat.lt_succ_of_lt

theorem step_fresh {peer : Peer} (h : machine.Step x (.wsOpen c peer) y) : x.conns c = none := by
  simp only [Machine.Step, machine, Net.step] at h
  split at h
  next hc => exact Option.isNone_iff_eq_none.1 hc
  next => cases h

theorem setLink_of_ne {s : Links} {link : Link} {k : LinkPtr} (hk : k ≠ l) :
    (s.setLink l link).pool k = s.pool k := Function.update_of_ne hk ..

theorem setLink_self {s : Links} {link : Link} : (s.setLink l link).pool l = link :=
  Function.update_self ..

theorem apStaConnected_closes (s : Links) (mac : Mac) (aid : UInt16) :
    (apStaConnected s mac aid).2.filterMap Action.closed = [] := by
  simp only [apStaConnected]
  split <;> rfl

theorem closes_handles (s : Links) (e : Event) :
    ∃ t acts, Handles s e t acts ∧ s.closes e = acts.filterMap Action.closed :=
  ⟨_, _, handle_handles s e, rfl⟩

theorem subscribed_step (hp : Pooled x.links) (h : Subscribed x) (hstep : machine.Step x e y) :
    Subscribed y := by
  have hm := handle_handles x.links e
  have hlinks := after_links x e
  have hcloses : x.links.closes e = (x.links.handle e).2.filterMap Action.closed := rfl
  have hclock : y.clock = x.clock + 1 := by
    rw [step_after hstep, after_clock]
  rw [← step_after hstep] at hlinks
  generalize (x.links.handle e).1 = t at hm hlinks
  generalize (x.links.handle e).2 = acts at hm hcloses
  cases hm with
  | connected mac aid =>
      refine h.same hlinks ?_ hclock
      rw [step_after hstep, ← apStaConnected_closes x.links mac aid]
      exact congrArg x.countCloses hcloses
  | dropped | kept | unknown =>
      refine h.same hlinks ?_ hclock
      rw [step_after hstep]
      exact congrArg x.countCloses hcloses
  | taken ip mac l rest hmac hfree =>
      have hnil := h.free l (by simp [hfree])
      refine h.raised (l := l) ?_ ?_ ?_ ?_ hclock
      · rw [hlinks]
        simpa [Links.insertActive, setLink_self] using hnil
      · intro k hk
        rw [hlinks]
        exact setLink_of_ne hk
      · intro k hk
        rw [hlinks] at hk
        exact .inr (List.mem_of_mem_erase hk)
      · rw [step_after hstep, hnil]
        exact congrArg x.countCloses hcloses
  | changed ip mac l hmac hip =>
      rw [closed_map] at hcloses
      refine h.raised (l := l) ?_ ?_ ?_ ?_ hclock
      · rw [hlinks, setLink_self]
      · intro k hk
        rw [hlinks, setLink_of_ne hk]
      · intro k hk
        rw [hlinks] at hk
        exact .inr hk
      · rw [step_after hstep]
        exact congrArg x.countCloses hcloses
  | released mac l hmac =>
      rw [closed_map] at hcloses
      refine h.raised (l := l) ?_ ?_ ?_ ?_ hclock
      · rw [hlinks]
        simp [Links.insertFree, setLink_self]
      · intro k hk
        rw [hlinks]
        exact setLink_of_ne hk
      · intro k hk
        rw [hlinks] at hk
        rcases List.mem_append.1 hk with hk | hk
        · exact .inr (List.mem_of_mem_erase hk)
        · exact .inl (List.mem_singleton.1 hk)
      · rw [step_after hstep]
        exact congrArg x.countCloses hcloses
  | subscribed conn peer ip l hpeer hip =>
      obtain ⟨hl, rfl⟩ := findIp_some hip
      have hnot : l ∉ x.links.free := fun hfree => hp.not_active hfree hl
      refine h.opened (c := conn) (l := l) peer (step_fresh hstep) ?_ ?_ ?_ hclock
      · intro k
        rw [hlinks]
        by_cases hk : k = l
        · exact .inr ⟨hk, hnot, hpeer, setLink_self⟩
        · exact .inl (setLink_of_ne hk)
      · rw [hlinks]
        rfl
      · rw [step_after hstep]
        exact congrArg (fun conns => Function.update conns conn (some ⟨peer, x.clock, 0⟩))
          (congrArg x.countCloses hcloses)
  | unlinked conn peer hip =>
      refine h.opened (c := conn) (l := 0) peer (step_fresh hstep) (fun k => .inl (by rw [hlinks])) ?_ ?_
        hclock
      · rw [hlinks]
      · rw [step_after hstep]
        exact congrArg (fun conns => Function.update conns conn (some ⟨peer, x.clock, 0⟩))
          (congrArg x.countCloses hcloses)
  | freed conn =>
      refine h.freed hlinks ?_ hclock
      rw [step_after hstep]
      exact congrArg (fun conns => Function.update conns conn none)
        (congrArg x.countCloses hcloses)

theorem Subscribed.closes_nodup (h : Subscribed x) (e : Event) : (x.links.closes e).Nodup := by
  obtain ⟨t, acts, hm, hcloses⟩ := closes_handles x.links e
  rw [hcloses]
  cases hm with
  | connected mac aid =>
      rw [apStaConnected_closes]
      exact List.nodup_nil
  | changed ip mac l hmac hip | released mac l hmac =>
      rw [closed_map]
      exact h.nodup l
  | _ => exact List.nodup_nil

theorem subscribed_reachable (h : Reachable machine x) : Subscribed x := by
  refine h.invariant ?_ ?_
  · rintro x rfl
    exact subscribed_init
  · intro x e y hr hx hstep
    exact subscribed_step (pooled_reachable hr) hx hstep

end Subscriptions

section Stations

variable {x y : Net} {e : Event} {l : LinkPtr} {c : ConnPtr} {mac : Mac} {ip : Ip4}

/-- A connection is of the station that had its address when it was opened. -/
def Owns (a : Address) (conns : ConnPtr → Option Conn) (c : ConnPtr) : Prop :=
  ∃ conn, conns c = some conn ∧ conn.peer.ip4 = some a.ip ∧ a.since ≤ conn.openedAt

/-- The connections that an event should close: those of a station that leaves
or gets another address. -/
def Expected (x : Net) (c : ConnPtr) : Event → Prop
  | .apStaDisconnected mac => ∃ a, x.assigned mac = some a ∧ Owns a x.conns c
  | .apStaIpAssigned ip mac => ∃ a, x.assigned mac = some a ∧ a.ip ≠ ip ∧ Owns a x.conns c
  | .apStaConnected .. | .wsOpen .. | .freeConn _ => False

/-- A station gets an address that no other one holds, and not more stations
hold one than there are links. -/
def Distinct (x : Net) : Event → Prop
  | .apStaIpAssigned ip mac => (mac ∈ x.holders ∨ x.holders.card < linksMaxAmount) ∧
      ∀ m ∈ x.holders, m ≠ mac → (x.assigned m).map Address.ip ≠ some ip
  | .apStaConnected .. | .apStaDisconnected _ | .wsOpen .. | .freeConn _ => True

structure Held (x : Net) : Prop where
  unlinked : ∀ m, x.assigned m = none → x.links.findMac m = none
  linked : ∀ m a, x.assigned m = some a → ∃ l, x.links.findMac m = some l ∧
    (x.links.pool l).ip = a.ip ∧ ∀ c, c ∈ (x.links.pool l).event ↔ Owns a x.conns c
  distinct : ∀ m k a b, x.assigned m = some a → x.assigned k = some b → a.ip = b.ip → m = k
  holders : ∀ m, m ∈ x.holders ↔ (x.assigned m).isSome
  since : ∀ m a, x.assigned m = some a → a.since < x.clock

theorem held_init : Held Net.init := by
  refine ⟨?_, ?_, ?_, ?_, ?_⟩ <;> simp [Net.init, Links.findMac]

theorem Held.assigned_of_find (h : Held x) (hl : x.links.findMac mac = some l) :
    ∃ a, x.assigned mac = some a ∧ (x.links.pool l).ip = a.ip ∧
      ∀ c, c ∈ (x.links.pool l).event ↔ Owns a x.conns c := by
  cases ha : x.assigned mac with
  | none =>
      rw [h.unlinked mac ha] at hl
      cases hl
  | some a =>
      obtain ⟨k, hk, hip, hevent⟩ := h.linked mac a ha
      rw [hl, Option.some.injEq] at hk
      subst hk
      exact ⟨a, rfl, hip, hevent⟩

theorem Held.not_assigned (h : Held x) (hl : x.links.findMac mac = none) : x.assigned mac = none := by
  cases ha : x.assigned mac with
  | none => rfl
  | some a =>
      obtain ⟨k, hk, -⟩ := h.linked mac a ha
      rw [hl] at hk
      cases hk

theorem owns_countCloses {a : Address} {closed : List ConnPtr} :
    Owns a (x.countCloses closed) c ↔ Owns a x.conns c := by
  constructor
  · rintro ⟨conn, hconn, hip, hsince⟩
    obtain ⟨conn₀, hconn₀, hpeer, hopened, -⟩ := countCloses_some hconn
    exact ⟨conn₀, hconn₀, hpeer ▸ hip, hopened ▸ hsince⟩
  · rintro ⟨conn, hconn, hip, hsince⟩
    exact ⟨_, Option.map_eq_some_iff.2 ⟨conn, hconn, rfl⟩, hip, hsince⟩

structure Apart (x y : Net) (mac : Mac) : Prop where
  find : ∀ m, m ≠ mac → y.links.findMac m = x.links.findMac m
  pool : ∀ m k, m ≠ mac → x.links.findMac m = some k → y.links.pool k = x.links.pool k
  conns : ∃ closed, y.conns = x.countCloses closed
  clock : y.clock = x.clock + 1

theorem Apart.linked (hy : Apart x y mac) (h : Held x) {m : Mac} {a : Address} (hm : m ≠ mac)
    (ha : x.assigned m = some a) : ∃ l, y.links.findMac m = some l ∧
      (y.links.pool l).ip = a.ip ∧ ∀ c, c ∈ (y.links.pool l).event ↔ Owns a y.conns c := by
  obtain ⟨k, hk, hip, hevent⟩ := h.linked m a ha
  obtain ⟨closed, hconns⟩ := hy.conns
  refine ⟨k, (hy.find m hm).trans hk, ?_, fun c => ?_⟩
  · rw [hy.pool m k hm hk]
    exact hip
  · rw [hy.pool m k hm hk, hconns, owns_countCloses]
    exact hevent c

theorem Held.released (h : Held x) (hy : Apart x y mac) (hnone : y.links.findMac mac = none)
    (hassigned : y.assigned = Function.update x.assigned mac none)
    (hholders : y.holders = x.holders.erase mac) : Held y := by
  have hother : ∀ m, m ≠ mac → y.assigned m = x.assigned m := by
    intro m hm
    rw [hassigned, Function.update_of_ne hm]
  have hself : y.assigned mac = none := by rw [hassigned, Function.update_self]
  have hsome : ∀ m a, y.assigned m = some a → m ≠ mac ∧ x.assigned m = some a := by
    intro m a ha
    have hm : m ≠ mac := by
      rintro rfl
      rw [hself] at ha
      cases ha
    exact ⟨hm, (hother m hm).symm.trans ha⟩
  refine ⟨?_, ?_, ?_, ?_, ?_⟩
  · intro m hm
    by_cases hmac : m = mac
    · exact hmac ▸ hnone
    · rw [hy.find m hmac]
      exact h.unlinked m ((hother m hmac).symm.trans hm)
  · intro m a ha
    obtain ⟨hm, ha⟩ := hsome m a ha
    exact hy.linked h hm ha
  · intro m k a b ha hb hip
    exact h.distinct m k a b (hsome m a ha).2 (hsome k b hb).2 hip
  · intro m
    rw [hholders, Finset.mem_erase]
    by_cases hmac : m = mac
    · subst hmac
      simp [hself]
    · rw [hother m hmac, h.holders m]
      simp [hmac]
  · intro m a ha
    rw [hy.clock]
    exact Nat.lt_succ_of_lt (h.since m a (hsome m a ha).2)

theorem Held.assigned (h : Held x) (hs : Subscribed x) (hy : Apart x y mac)
    (hl : y.links.findMac mac = some l) (hip : (y.links.pool l).ip = ip)
    (hnil : (y.links.pool l).event = [])
    (hassigned : y.assigned = Function.update x.assigned mac (some ⟨ip, x.clock⟩))
    (hholders : y.holders = insert mac x.holders)
    (hdistinct : ∀ m ∈ x.holders, m ≠ mac → (x.assigned m).map Address.ip ≠ some ip) : Held y := by
  have hother : ∀ m, m ≠ mac → y.assigned m = x.assigned m := by
    intro m hm
    rw [hassigned, Function.update_of_ne hm]
  have hself : y.assigned mac = some ⟨ip, x.clock⟩ := by rw [hassigned, Function.update_self]
  have hne : ∀ m a, m ≠ mac → y.assigned m = some a → a.ip ≠ ip := by
    intro m a hm ha he
    rw [hother m hm] at ha
    refine hdistinct m ((h.holders m).2 (by rw [ha]; rfl)) hm ?_
    rw [ha, Option.map_some, he]
  refine ⟨?_, ?_, ?_, ?_, ?_⟩
  · intro m hm
    have hmac : m ≠ mac := by
      rintro rfl
      rw [hself] at hm
      cases hm
    rw [hy.find m hmac]
    exact h.unlinked m ((hother m hmac).symm.trans hm)
  · intro m a ha
    by_cases hmac : m = mac
    · subst hmac
      rw [hself, Option.some.injEq] at ha
      subst ha
      refine ⟨l, hl, hip, fun c => ?_⟩
      rw [hnil]
      refine ⟨fun hc => absurd hc List.not_mem_nil, ?_⟩
      obtain ⟨closed, hconns⟩ := hy.conns
      rw [hconns, owns_countCloses]
      rintro ⟨conn, hconn, -, hsince⟩
      exact absurd (hs.closes c conn hconn).2 (Nat.not_lt.2 hsince)
    · exact hy.linked h hmac ((hother m hmac).symm.trans ha)
  · intro m k a b ha hb hab
    by_cases hm : m = mac
    · subst hm
      by_contra hk
      rw [hself, Option.some.injEq] at ha
      subst ha
      exact hne k b (Ne.symm hk) hb hab.symm
    · by_cases hk : k = mac
      · subst hk
        rw [hself, Option.some.injEq] at hb
        subst hb
        exact absurd hab (hne m a hm ha)
      · rw [hother m hm] at ha
        rw [hother k hk] at hb
        exact h.distinct m k a b ha hb hab
  · intro m
    rw [hholders, Finset.mem_insert]
    by_cases hmac : m = mac
    · subst hmac
      simp [hself]
    · rw [hother m hmac, h.holders m]
      simp [hmac]
  · intro m a ha
    rw [hy.clock]
    by_cases hmac : m = mac
    · subst hmac
      rw [hself, Option.some.injEq] at ha
      subst ha
      exact Nat.lt_succ_self _
    · exact Nat.lt_succ_of_lt (h.since m a ((hother m hmac).symm.trans ha))

theorem Held.stations (h : Held x) (hassigned : y.assigned = x.assigned)
    (hholders : y.holders = x.holders) (hclock : y.clock = x.clock + 1)
    (hfind : ∀ m, y.links.findMac m = x.links.findMac m)
    (hlinked : ∀ m k a, x.links.findMac m = some k → x.assigned m = some a →
      (x.links.pool k).ip = a.ip → (∀ c, c ∈ (x.links.pool k).event ↔ Owns a x.conns c) →
      (y.links.pool k).ip = a.ip ∧ ∀ c, c ∈ (y.links.pool k).event ↔ Owns a y.conns c) :
    Held y := by
  refine ⟨?_, ?_, ?_, ?_, ?_⟩
  · intro m hm
    rw [hassigned] at hm
    rw [hfind]
    exact h.unlinked m hm
  · intro m a ha
    rw [hassigned] at ha
    obtain ⟨k, hk, hip, hevent⟩ := h.linked m a ha
    exact ⟨k, (hfind m).trans hk, hlinked m k a hk ha hip hevent⟩
  · rw [hassigned]
    exact h.distinct
  · rw [hassigned, hholders]
    exact h.holders
  · intro m a ha
    rw [hclock]
    exact Nat.lt_succ_of_lt (h.since m a (hassigned ▸ ha))

theorem Held.same (h : Held x) (hlinks : y.links = x.links)
    (hconns : ∃ closed, y.conns = x.countCloses closed) (hassigned : y.assigned = x.assigned)
    (hholders : y.holders = x.holders) (hclock : y.clock = x.clock + 1) : Held y := by
  obtain ⟨closed, hconns⟩ := hconns
  refine h.stations hassigned hholders hclock (fun m => by rw [hlinks]) ?_
  intro m k a _ _ hip hevent
  rw [hlinks, hconns]
  exact ⟨hip, fun c => (hevent c).trans owns_countCloses.symm⟩

theorem Held.ip_unique (h : Held x) {m m' : Mac} {k : LinkPtr} (hk : x.links.findMac m = some k)
    (hl : x.links.findMac m' = some l) (hip : (x.links.pool k).ip = (x.links.pool l).ip) :
    k = l := by
  obtain ⟨a, ha, hka, -⟩ := h.assigned_of_find hk
  obtain ⟨b, hb, hlb, -⟩ := h.assigned_of_find hl
  have hsame : m = m' := h.distinct m m' a b ha hb (by rw [← hka, ← hlb, hip])
  rw [hsame, hl, Option.some.injEq] at hk
  exact hk.symm

theorem Held.opened (h : Held x) (hs : Subscribed x) (peer : Peer) (hc : x.conns c = none)
    (hfind : ∀ m, y.links.findMac m = x.links.findMac m)
    (hip : ∀ k, (y.links.pool k).ip = (x.links.pool k).ip)
    (hevent : ∀ m k d, x.links.findMac m = some k → (d ∈ (y.links.pool k).event ↔
      d ∈ (x.links.pool k).event ∨ d = c ∧ peer.ip4 = some (x.links.pool k).ip))
    (hconns : y.conns = Function.update (x.countCloses []) c (some ⟨peer, x.clock, 0⟩))
    (hassigned : y.assigned = x.assigned) (hholders : y.holders = x.holders)
    (hclock : y.clock = x.clock + 1) : Held y := by
  refine h.stations hassigned hholders hclock hfind ?_
  intro m k a hk ha hka howns
  refine ⟨(hip k).trans hka, fun d => ?_⟩
  rw [hevent m k d hk, hconns, countCloses_nil]
  by_cases hd : d = c
  · subst hd
    have hself : Owns a (Function.update x.conns d (some ⟨peer, x.clock, 0⟩)) d ↔
        peer.ip4 = some a.ip := by
      simp [Owns, Nat.le_of_lt (h.since m a ha)]
    rw [hself, hka]
    simp [hs.not_mem hc]
  · have hother : Owns a (Function.update x.conns c (some ⟨peer, x.clock, 0⟩)) d ↔
        Owns a x.conns d := by
      simp [Owns, Function.update_of_ne hd]
    rw [hother, ← howns d]
    simp [hd]

theorem Held.freed (h : Held x) (hs : Subscribed x) (hlinks : y.links = eventUnsubscribe x.links c)
    (hconns : y.conns = Function.update (x.countCloses []) c none)
    (hassigned : y.assigned = x.assigned) (hholders : y.holders = x.holders)
    (hclock : y.clock = x.clock + 1) : Held y := by
  refine h.stations hassigned hholders hclock (fun m => by rw [hlinks]; rfl) ?_
  intro m k a _ _ hka howns
  rw [hlinks, hconns, countCloses_nil]
  refine ⟨hka, fun d => ((hs.nodup k).mem_erase_iff).trans ?_⟩
  by_cases hd : d = c
  · subst hd
    simp [Owns]
  · rw [howns d]
    simp [Owns, hd]

theorem Held.exists_free (h : Held x) (hp : Pooled x.links) (hmac : x.links.findMac mac = none)
    (hcard : mac ∈ x.holders ∨ x.holders.card < linksMaxAmount) : x.links.free ≠ [] := by
  have hnot : mac ∉ x.holders := by
    rw [h.holders mac, h.not_assigned hmac]
    exact Bool.false_ne_true
  have hlt := hcard.resolve_left hnot
  have hinj : (x.links.active.map (fun l => (x.links.pool l).mac)).Nodup :=
    (List.nodup_append.1 hp.nodup).2.1.map_on hp.macs
  have hsub : (x.links.active.map (fun l => (x.links.pool l).mac)).toFinset ⊆ x.holders := by
    intro m hm
    obtain ⟨l, hl, he⟩ := List.mem_map.1 (List.mem_toFinset.1 hm)
    obtain ⟨a, ha, -⟩ := h.assigned_of_find (hp.findMac_eq_some.2 ⟨hl, he⟩)
    rw [h.holders m, ha]
    rfl
  have hle := Finset.card_le_card hsub
  rw [List.toFinset_card_of_nodup hinj, List.length_map] at hle
  intro hfree
  have hlen := hp.length
  rw [hfree, List.length_nil] at hlen
  omega

theorem findMac_congr {s t : Links} (hs : Pooled s) (ht : Pooled t) {m : Mac}
    (h : ∀ k, k ∈ t.active ∧ (t.pool k).mac = m ↔ k ∈ s.active ∧ (s.pool k).mac = m) :
    t.findMac m = s.findMac m := by
  apply Option.ext
  intro k
  rw [ht.findMac_eq_some, hs.findMac_eq_some]
  exact h k

theorem findMac_setLink {s : Links} {link : Link} {m : Mac} (hmac : link.mac = (s.pool l).mac) :
    (s.setLink l link).findMac m = s.findMac m := by
  have hsame : ∀ k, ((s.setLink l link).pool k).mac = (s.pool k).mac := fun k => setLink_mac hmac
  simp only [Links.findMac, linkMacMatch, hsame]
  rfl

theorem apart_taken (hp : Pooled x.links) (hl : l ∈ x.links.free) {link : Link}
    (hlinks : y.links = (x.links.setLink l link).insertActive l) (ht : Pooled y.links)
    (hconns : ∃ closed, y.conns = x.countCloses closed) (hclock : y.clock = x.clock + 1) :
    Apart x y link.mac := by
  have hnot := hp.not_active hl
  have hpool : ∀ k, k ≠ l → y.links.pool k = x.links.pool k := by
    intro k hk
    rw [hlinks]
    exact setLink_of_ne hk
  have hactive : y.links.active = x.links.active ++ [l] := by
    rw [hlinks]
    simp only [Links.insertActive, Links.setLink, List.erase_of_not_mem hnot]
  refine ⟨fun m hm => findMac_congr hp ht fun k => ?_, ?_, hconns, hclock⟩
  · rw [hactive, List.mem_append, List.mem_singleton]
    by_cases hk : k = l
    · subst hk
      have hself : y.links.pool k = link := by
        rw [hlinks]
        exact setLink_self
      simp [hself, hnot, Ne.symm hm]
    · simp [hpool k hk, hk]
  · intro m k _ hk
    exact hpool k (fun he => hnot (he ▸ (findMac_some hk).1))

theorem apart_changed (hl : x.links.findMac mac = some l) {link : Link} (hmac : link.mac = mac)
    (hlinks : y.links = x.links.setLink l link)
    (hconns : ∃ closed, y.conns = x.countCloses closed) (hclock : y.clock = x.clock + 1) :
    Apart x y mac := by
  refine ⟨fun m _ => ?_, fun m k hm hk => ?_, hconns, hclock⟩
  · rw [hlinks, findMac_setLink (hmac.trans (findMac_some hl).2.symm)]
  · have hkl : k ≠ l := by
      rintro rfl
      exact hm ((findMac_some hk).2.symm.trans (findMac_some hl).2)
    rw [hlinks, setLink_of_ne hkl]

theorem apart_released (hp : Pooled x.links) (hl : x.links.findMac mac = some l)
    (hlinks : y.links = (x.links.setLink l { x.links.pool l with event := [] }).insertFree l)
    (ht : Pooled y.links) (hconns : ∃ closed, y.conns = x.countCloses closed)
    (hclock : y.clock = x.clock + 1) : Apart x y mac ∧ y.links.findMac mac = none := by
  obtain ⟨hmem, hmac⟩ := findMac_some hl
  have hnodup := (List.nodup_append.1 hp.nodup).2.1
  have hpool : ∀ k, k ≠ l → y.links.pool k = x.links.pool k := by
    intro k hk
    rw [hlinks]
    exact setLink_of_ne hk
  have hactive : ∀ k, k ∈ y.links.active ↔ k ≠ l ∧ k ∈ x.links.active := by
    intro k
    rw [hlinks]
    exact hnodup.mem_erase_iff
  have hne : ∀ m k, m ≠ mac → (x.links.pool k).mac = m → k ≠ l := by
    rintro m k hm hk rfl
    exact hm (hk.symm.trans hmac)
  refine ⟨⟨fun m hm => findMac_congr hp ht fun k => ?_, ?_, hconns, hclock⟩, ?_⟩
  · rw [hactive]
    by_cases hk : k = l
    · subst hk
      simp [hmac, Ne.symm hm]
    · simp [hk, hpool k hk]
  · intro m k hm hk
    exact hpool k (hne m k hm (findMac_some hk).2)
  · refine findMac_eq_none.2 fun k hk he => ?_
    obtain ⟨hkl, hk⟩ := (hactive k).1 hk
    rw [hpool k hkl] at he
    exact hkl (hp.macs k hk l hmem (he.trans hmac.symm))

theorem held_step (hp : Pooled x.links) (hs : Subscribed x) (h : Held x)
    (hstep : machine.Step x e y) (he : Distinct x e) : Held y := by
  have hm := handle_handles x.links e
  have ht := hm.pooled hp
  have hlinks := after_links x e
  have hclock : y.clock = x.clock + 1 := by
    rw [step_after hstep, after_clock]
  rw [← step_after hstep] at hlinks
  rw [← hlinks] at ht
  have hnone : (x.links.handle e).2 = [] → x.links.closes e = [] := fun hnil => by
    rw [Links.closes, hnil, List.filterMap_nil]
  generalize (x.links.handle e).1 = t at hm hlinks
  generalize (x.links.handle e).2 = acts at hm hnone
  have hy := step_after hstep
  cases hm with
  | connected mac aid =>
      exact h.same hlinks ⟨_, congrArg Net.conns hy⟩ (by rw [hy]; rfl) (by rw [hy]; rfl) hclock
  | taken ip mac l rest hmac hfree =>
      have hl : l ∈ x.links.free := by simp [hfree]
      have hapart := apart_taken hp hl hlinks ht ⟨_, congrArg Net.conns hy⟩ hclock
      have hself : y.links.pool l = { x.links.pool l with ip := ip, mac := mac } := by
        rw [hlinks]
        exact setLink_self
      have hassigned : x.assign ip mac = Function.update x.assigned mac (some ⟨ip, x.clock⟩) := by
        simp only [Net.assign, h.not_assigned hmac]
      refine h.assigned hs hapart (l := l) (ht.findMac_eq_some.2 ⟨?_, ?_⟩) ?_ ?_
        ((congrArg Net.assigned hy).trans hassigned) (congrArg Net.holders hy) he.2
      · rw [hlinks]
        simp [Links.insertActive]
      · rw [hself]
      · rw [hself]
      · rw [hself]
        exact hs.free l hl
  | dropped ip mac hmac hfree => exact absurd hfree (h.exists_free hp hmac he.1)
  | kept mac l hmac =>
      obtain ⟨a, ha, hip, -⟩ := h.assigned_of_find hmac
      have hassigned : x.assign (x.links.pool l).ip mac = x.assigned := by
        simp only [Net.assign, ha, hip, if_true]
      have hholders : insert mac x.holders = x.holders :=
        Finset.insert_eq_of_mem ((h.holders mac).2 (by rw [ha]; rfl))
      exact h.same hlinks ⟨_, congrArg Net.conns hy⟩ ((congrArg Net.assigned hy).trans hassigned)
        ((congrArg Net.holders hy).trans hholders) hclock
  | changed ip mac l hmac hip =>
      obtain ⟨a, ha, hla, -⟩ := h.assigned_of_find hmac
      have hsame : ({ x.links.pool l with ip := ip, event := [] } : Link).mac = mac :=
        (findMac_some hmac).2
      have hapart := apart_changed hmac hsame hlinks ⟨_, congrArg Net.conns hy⟩ hclock
      have hself : y.links.pool l = { x.links.pool l with ip := ip, event := [] } := by
        rw [hlinks, setLink_self]
      have hassigned : x.assign ip mac = Function.update x.assigned mac (some ⟨ip, x.clock⟩) := by
        simp only [Net.assign, ha, ← hla, if_neg hip]
      have hfind : y.links.findMac mac = some l := by
        rw [hlinks]
        exact (findMac_setLink (by rfl)).trans hmac
      refine h.assigned hs hapart hfind ?_ ?_ ((congrArg Net.assigned hy).trans hassigned)
        (congrArg Net.holders hy) he.2
      · rw [hself]
      · rw [hself]
  | released mac l hmac =>
      obtain ⟨hapart, hnone⟩ :=
        apart_released hp hmac hlinks ht ⟨_, congrArg Net.conns hy⟩ hclock
      exact h.released hapart hnone (congrArg Net.assigned hy) (congrArg Net.holders hy)
  | unknown mac hmac =>
      have hapart : Apart x y mac :=
        ⟨fun m _ => by rw [hlinks], fun m k _ _ => by rw [hlinks], ⟨_, congrArg Net.conns hy⟩, hclock⟩
      exact h.released hapart (by rw [hlinks]; exact hmac) (congrArg Net.assigned hy)
        (congrArg Net.holders hy)
  | subscribed conn peer ip l hpeer hip =>
      obtain ⟨hl, rfl⟩ := findIp_some hip
      have hother : ∀ k, k ≠ l → y.links.pool k = x.links.pool k := by
        intro k hk
        rw [hlinks, setLink_of_ne hk]
      have hself : y.links.pool l =
          { x.links.pool l with event := (x.links.pool l).event ++ [conn] } := by
        rw [hlinks, setLink_self]
      refine h.opened hs (c := conn) peer (step_fresh hstep) (fun m => ?_) (fun k => ?_) ?_
        ?_ (by rw [hy]; rfl) (by rw [hy]; rfl) hclock
      · rw [hlinks]
        exact findMac_setLink rfl
      · by_cases hk : k = l
        · subst hk
          rw [hself]
        · rw [hother k hk]
      · intro m k d hmk
        by_cases hk : k = l
        · subst hk
          simp [hself, hpeer]
        · have hne : (x.links.pool l).ip ≠ (x.links.pool k).ip := by
            intro hsame
            exact hk (h.ip_unique hmk (hp.findMac_eq_some.2 ⟨hl, rfl⟩) hsame.symm)
          simp [hother k hk, hpeer, hne]
      · rw [hy, ← hnone rfl]
        rfl
  | unlinked conn peer hip =>
      refine h.opened hs (c := conn) peer (step_fresh hstep) (fun m => by rw [hlinks])
        (fun k => by rw [hlinks]) ?_ ?_ (by rw [hy]; rfl) (by rw [hy]; rfl) hclock
      · intro m k d hmk
        have hne : peer.ip4 ≠ some (x.links.pool k).ip := by
          intro hpeer
          rw [hpeer, Option.bind_some] at hip
          exact findIp_none hip (findMac_some hmk).1 rfl
        simp [hlinks, hne]
      · rw [hy, ← hnone rfl]
        rfl
  | freed conn =>
      refine h.freed hs hlinks ?_ (by rw [hy]; rfl) (by rw [hy]; rfl) hclock
      rw [hy, ← hnone rfl]
      rfl

theorem Held.closes (h : Held x) (e : Event) (c : ConnPtr) :
    c ∈ x.links.closes e ↔ Expected x c e := by
  obtain ⟨t, acts, hm, hcloses⟩ := closes_handles x.links e
  rw [hcloses]
  cases hm with
  | connected mac aid =>
      rw [apStaConnected_closes]
      exact iff_of_false List.not_mem_nil id
  | taken ip mac l rest hmac hfree | dropped ip mac hmac hfree =>
      refine iff_of_false List.not_mem_nil ?_
      rintro ⟨a, ha, -⟩
      rw [h.not_assigned hmac] at ha
      cases ha
  | kept mac l hmac =>
      obtain ⟨a, ha, hip, -⟩ := h.assigned_of_find hmac
      refine iff_of_false List.not_mem_nil ?_
      rintro ⟨b, hb, hne, -⟩
      rw [ha, Option.some.injEq] at hb
      exact hne (by rw [← hb, hip])
  | changed ip mac l hmac hip =>
      obtain ⟨a, ha, hla, hevent⟩ := h.assigned_of_find hmac
      rw [closed_map, hevent c]
      simp [Expected, ha, ← hla, hip]
  | released mac l hmac =>
      obtain ⟨a, ha, -, hevent⟩ := h.assigned_of_find hmac
      rw [closed_map, hevent c]
      simp [Expected, ha]
  | unknown mac hmac =>
      refine iff_of_false List.not_mem_nil ?_
      rintro ⟨a, ha, -⟩
      rw [h.not_assigned hmac] at ha
      cases ha
  | subscribed | unlinked | freed => exact iff_of_false List.not_mem_nil id

/-- Every subscription is to one active link, with the address of the
connection, and nobody is told to close twice. In a run in which no two stations
hold one address at a time and all of them have a link, a station that leaves or
gets another address ends exactly its own connections. -/
theorem link_down {es : List Event} (hx : machine.init x) (h : Run machine x es y) :
    (∀ l, ∀ c ∈ (y.links.pool l).event, l ∈ y.links.active ∧
      (y.links.pool l).event.count c = 1 ∧ (∀ k, c ∈ (y.links.pool k).event → k = l) ∧
      ∃ conn, y.conns c = some conn ∧ conn.peer.ip4 = some (y.links.pool l).ip) ∧
    (∀ l ∈ y.links.free, (y.links.pool l).event = []) ∧
    (∀ c conn, y.conns c = some conn → conn.closes ≤ 1) ∧
    (Along machine (fun z e _ => Distinct z e) x es y → ∀ e,
      (y.links.closes e).Nodup ∧ ∀ c, c ∈ y.links.closes e ↔ Expected y c e) := by
  have hr := h.reachable (.init hx)
  have hp := pooled_reachable hr
  have hs := subscribed_reachable hr
  refine ⟨fun l c hc => ?_, hs.free, fun c conn hconn => (hs.closes c conn hconn).1, ?_⟩
  · obtain ⟨conn, hconn, hip, -⟩ := hs.conn l c hc
    have hl : l ∉ y.links.free := by
      intro hfree
      rw [hs.free l hfree] at hc
      cases hc
    have hmem : l ∈ y.links.free ++ y.links.active := hp.links.mem_iff.2 (List.mem_finRange l)
    exact ⟨(List.mem_append.1 hmem).resolve_left hl, List.count_eq_one_of_mem (hs.nodup l) hc,
      fun k hk => hs.unique k l c hk hc, conn, hconn, hip⟩
  · intro hdistinct e
    have hheld : Held y := by
      refine hdistinct.invariant (.init hx) (hx ▸ held_init) ?_
      intro z e w hz hi hstep he
      exact held_step (pooled_reachable hz) (subscribed_reachable hz) hi hstep he
    exact ⟨hs.closes_nodup e, hheld.closes e⟩

instance (a : Address) (conns : ConnPtr → Option Conn) (c : ConnPtr) : Decidable (Owns a conns c) :=
  decidable_of_iff ((conns c).any
    (fun conn => decide (conn.peer.ip4 = some a.ip ∧ a.since ≤ conn.openedAt)) = true)
    (by simp only [Owns, Option.any_eq_true, decide_eq_true_eq])

instance (x : Net) (e : Event) : Decidable (Distinct x e) :=
  match e with
  | .apStaIpAssigned _ _ => @instDecidableAnd _ _ instDecidableOr Finset.decidableDforallFinset
  | .apStaConnected .. | .apStaDisconnected _ | .wsOpen .. | .freeConn _ => .isTrue trivial

theorem link_down_handed : ∃ y : Net, (y.links.closes (.apStaDisconnected 2) = [8]) ∧
    ∀ e, (y.links.closes e).Nodup ∧ ∀ c, c ∈ y.links.closes e ↔ Expected y c e := by
  have h : machine.check (fun x e => decide (Distinct x e))
      (fun y => y.links.closes (.apStaDisconnected 2) == [8]) Net.init
      [.apStaIpAssigned 10 1, .wsOpen 7 (.inet 10), .apStaIpAssigned 11 1, .apStaIpAssigned 10 2,
        .wsOpen 8 (.inet 10)] = true := by
    decide +kernel
  obtain ⟨y, hrun, hy⟩ := exists_of_check h
  have hdistinct := hrun.imp (fun _ _ _ hs => of_decide_eq_true hs)
  exact ⟨y, by simpa using hy, (link_down rfl hrun.run).2.2.2 hdistinct⟩

/-- A station leaves and its connection stays: another station holds the same
address, or there was no link left for it. -/
theorem link_down_shared :
    (∃ y, Reachable machine y ∧ Expected y 7 (.apStaDisconnected 2) ∧
      7 ∉ y.links.closes (.apStaDisconnected 2)) ∧
    ∃ y, Reachable machine y ∧ Expected y 7 (.apStaDisconnected 5) ∧
      7 ∉ y.links.closes (.apStaDisconnected 5) := by
  have h : machine.reaches Net.init [.apStaIpAssigned 10 1, .apStaIpAssigned 10 2,
      .wsOpen 7 (.inet 10)] (fun y => (y.assigned 2).any (fun a => decide (Owns a y.conns 7)) &&
        y.links.closes (.apStaDisconnected 2) == []) = true := by decide +kernel
  have h' : machine.reaches Net.init [.apStaIpAssigned 10 1, .apStaIpAssigned 11 2,
      .apStaIpAssigned 12 3, .apStaIpAssigned 13 4, .apStaIpAssigned 14 5, .wsOpen 7 (.inet 14)]
      (fun y => (y.assigned 5).any (fun a => decide (Owns a y.conns 7)) &&
        y.links.closes (.apStaDisconnected 5) == []) = true := by decide +kernel
  have hout : ∀ {y : Net} {m : Mac}, ((y.assigned m).any (fun a => decide (Owns a y.conns 7)) &&
      y.links.closes (.apStaDisconnected m) == []) = true →
      Expected y 7 (.apStaDisconnected m) ∧ 7 ∉ y.links.closes (.apStaDisconnected m) := by
    intro y m hy
    rw [Bool.and_eq_true, Option.any_eq_true, beq_iff_eq] at hy
    obtain ⟨⟨a, ha, howns⟩, hnil⟩ := hy
    exact ⟨⟨a, ha, of_decide_eq_true howns⟩, by rw [hnil]; exact List.not_mem_nil⟩
  obtain ⟨y, hrun, hy⟩ := exists_of_reaches h
  obtain ⟨z, hrun', hz⟩ := exists_of_reaches h'
  exact ⟨⟨y, ⟨_, _, rfl, hrun⟩, hout hy⟩, ⟨z, ⟨_, _, rfl, hrun'⟩, hout hz⟩⟩

end Stations

end WirelessGateway.LinkDown
