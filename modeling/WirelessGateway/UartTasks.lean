import Mathlib.Algebra.GroupWithZero.Nat
import WirelessGateway.CJson
import WirelessGateway.Lib.Fallible
import WirelessGateway.Lib.Interleave
import WirelessGateway.Lib.Region

namespace WirelessGateway.UartTasks

open CJson Lib.Fallible Lib.Interleave Lib.Region Lib.Runs

inductive UartEvent
  | data (size : Nat)
  | fifoOvf
  | bufferFull
  | other
  deriving DecidableEq

def UartEvent.size : UartEvent → Nat
  | .data size => size
  | _ => 0

def UartEvent.isData : UartEvent → Bool
  | .data _ => true
  | _ => false

/-- Where uart_event_task stands in the loop for an event that has so many
bytes left. The chunk that it has read is ghost state: the source keeps only
its length, and the bytes in buf. -/
inductive TaskPc
  | wait
  | reading (size : Nat)
  | echoing (size : Nat) (chunk : Bytes)
  | raising (size : Nat) (chunk : Bytes)
  deriving DecidableEq

def TaskPc.chunk : TaskPc → Option Bytes
  | .echoing _ chunk | .raising _ chunk => some chunk
  | _ => none

def TaskPc.left : TaskPc → Nat
  | .wait => 0
  | .reading size => size
  | .echoing size chunk | .raising size chunk => size - chunk.length

/-- gw_uart_private_t with the driver's ring of received bytes and queue of
events, its task, and the history of the chunks: those that were read, what
echo_enabled was for each, and those that were echoed and published. -/
structure Port where
  ring : Bytes
  queue : List UartEvent
  echoEnabled : Bool
  rxLocked : Bool
  pc : TaskPc
  reads : List Bytes
  echoOn : List Bool
  echoed : List Bytes
  published : List Bytes

/-- The steps of a port: the driver receives bytes or has another event, the
event task goes on, or another task uses the port. -/
inductive PortLabel
  | arrive (data : Bytes)
  | post (event : UartEvent)
  | receive
  | read
  | echo
  | raise
  | setEcho (enabled : Bool)
  | lockRx
  | unlockRx
  | gwUartRead (size : Nat)

def Port.handleEvent (p : Port) (event : UartEvent) (rest : List UartEvent) : Port :=
  match event with
  | .data size =>
    if p.rxLocked then { p with queue := rest } else { p with queue := rest, pc := .reading size }
  | .fifoOvf | .bufferFull => { p with ring := [], queue := [] }
  | .other => { p with queue := rest }

def Port.incoming (p : Port) : Bytes :=
  match p.pc with
  | .reading size => p.ring.take (min size 128)
  | _ => []

def Port.readBytes (p : Port) (buf : Bytes) : Except Overrun (Port × Bytes) :=
  match p.pc, p.incoming with
  | .reading size, b :: bs => do
    let buf ← copy buf 0 (b :: bs) (b :: bs).length
    pure ({ p with
      ring := p.ring.drop (b :: bs).length
      pc := .echoing size (b :: bs)
      reads := p.reads ++ [b :: bs] }, buf)
  | _, _ => pure ({ p with pc := .wait }, buf)

def portStep (p : Port) (buf : Bytes) : PortLabel → Option (Except Overrun (Port × Bytes))
  | .arrive data => some (pure ({ p with
      ring := p.ring ++ data, queue := p.queue ++ [.data data.length] }, buf))
  | .post event =>
    if event.isData then none else some (pure ({ p with queue := p.queue ++ [event] }, buf))
  | .receive => match p.pc, p.queue with
    | .wait, event :: rest => some (pure (p.handleEvent event rest, buf))
    | _, _ => none
  | .read => match p.pc with
    | .reading _ => some (p.readBytes buf)
    | _ => none
  | .echo => match p.pc with
    | .echoing size chunk => some (pure ({ p with
        pc := .raising size chunk
        echoOn := p.echoOn ++ [p.echoEnabled]
        echoed := p.echoed ++ if p.echoEnabled then [buf.take chunk.length] else [] }, buf))
    | _ => none
  | .raise => match p.pc with
    | .raising size chunk => some (pure ({ p with
        pc := .reading (size - chunk.length)
        published := p.published ++ [buf.take chunk.length] }, buf))
    | _ => none
  | .setEcho enabled => some (pure ({ p with echoEnabled := enabled }, buf))
  | .lockRx => some (pure ({ p with rxLocked := true }, buf))
  | .unlockRx => some (pure ({ p with rxLocked := false }, buf))
  | .gwUartRead size =>
    if p.rxLocked then some (pure ({ p with ring := p.ring.drop size }, buf)) else none

def Port.fresh (p : Port) : Prop :=
  p.ring = [] ∧ p.queue = [] ∧ p.rxLocked = false ∧ p.pc = .wait ∧ p.reads = [] ∧
    p.echoOn = [] ∧ p.echoed = [] ∧ p.published = []

def uartEventTask : Task Port Bytes PortLabel Overrun := ⟨Port.fresh, portStep⟩

def alone : Machine (Port × Bytes) PortLabel Overrun :=
  uartEventTask.alone (fun buf => buf.length = 128)

/-- The tasks of both ports, with the static array buf of the function. -/
def machine : Machine ((Fin 2 → Port) × Bytes) (Fin 2 × PortLabel) Overrun :=
  uartEventTask.shared (fun buf => buf.length = 128)

section Isolation

variable {p q : Port} {buf : Bytes} {a : PortLabel}

def Port.unechoed (p : Port) : List Bytes :=
  match p.pc with
  | .echoing _ chunk => [chunk]
  | _ => []

/-- The chunks that were read are published in order, but for one that is under
way, and those are echoed for which the echo was enabled. -/
structure Delivered (p : Port) : Prop where
  published : p.published ++ p.pc.chunk.toList = p.reads
  echoed : p.echoed = ((p.reads.zip p.echoOn).filter Prod.snd).map Prod.fst
  decided : p.echoOn.length + p.unechoed.length = p.reads.length

/-- What a task can see of buf: nothing but the chunk that it has there. -/
def held (p : Port) (buf : Bytes) : Option Bytes :=
  p.pc.chunk.map (fun chunk => buf.take chunk.length)

theorem incoming_length (p : Port) : p.incoming.length ≤ 128 := by
  unfold Port.incoming
  split
  · rw [List.length_take]
    omega
  · exact Nat.zero_le _

theorem copy_incoming (hbuf : buf.length = 128) :
    ∃ mem, copy buf 0 p.incoming p.incoming.length = .ok mem ∧ mem.length = 128 ∧
      mem.take p.incoming.length = p.incoming ∧
      mem = p.incoming ++ buf.drop p.incoming.length := by
  have hle := incoming_length p
  obtain ⟨mem, hcopy, hlen, htake⟩ := @copy_spec _ buf p.incoming 0 p.incoming.length
    (Nat.le_refl _) (by omega)
  refine ⟨mem, hcopy, hlen.trans hbuf, by simpa using htake, ?_⟩
  rw [copy_ok (Nat.le_refl _) (by omega), Except.ok.injEq] at hcopy
  simpa using hcopy.symm

theorem readBytes_cases {size : Nat} (hpc : p.pc = .reading size) (hbuf : buf.length = 128) :
    (p.incoming = [] ∧ p.readBytes buf = .ok ({ p with pc := .wait }, buf)) ∨
    (p.incoming ≠ [] ∧ p.readBytes buf = .ok ({ p with
      ring := p.ring.drop p.incoming.length
      pc := .echoing size p.incoming
      reads := p.reads ++ [p.incoming] }, p.incoming ++ buf.drop p.incoming.length)) := by
  cases hin : p.incoming with
  | nil =>
      refine .inl ⟨rfl, ?_⟩
      simp only [Port.readBytes, hpc, hin, pure_ok]
  | cons b bs =>
      refine .inr ⟨by simp, ?_⟩
      obtain ⟨mem, hcopy, -, -, hmem⟩ := copy_incoming (p := p) hbuf
      rw [hin] at hcopy hmem
      simp only [Port.readBytes, hpc, hin, hcopy, ok_bind, pure_ok, hmem]

inductive Moves (p : Port) (buf : Bytes) : PortLabel → Port → Bytes → Prop
  | arrive (data : Bytes) : Moves p buf (.arrive data)
      { p with ring := p.ring ++ data, queue := p.queue ++ [.data data.length] } buf
  | post (event : UartEvent) (hdata : event.isData = false) :
      Moves p buf (.post event) { p with queue := p.queue ++ [event] } buf
  | receive (event : UartEvent) (rest : List UartEvent) (hpc : p.pc = .wait)
      (hq : p.queue = event :: rest) : Moves p buf .receive (p.handleEvent event rest) buf
  | stop (size : Nat) (hpc : p.pc = .reading size) (hin : p.incoming = []) :
      Moves p buf .read { p with pc := .wait } buf
  | read (size : Nat) (hpc : p.pc = .reading size) (hin : p.incoming ≠ []) :
      Moves p buf .read { p with
        ring := p.ring.drop p.incoming.length
        pc := .echoing size p.incoming
        reads := p.reads ++ [p.incoming] } (p.incoming ++ buf.drop p.incoming.length)
  | echo (size : Nat) (chunk : Bytes) (hpc : p.pc = .echoing size chunk) :
      Moves p buf .echo { p with
        pc := .raising size chunk
        echoOn := p.echoOn ++ [p.echoEnabled]
        echoed := p.echoed ++ if p.echoEnabled then [buf.take chunk.length] else [] } buf
  | raise (size : Nat) (chunk : Bytes) (hpc : p.pc = .raising size chunk) :
      Moves p buf .raise { p with
        pc := .reading (size - chunk.length)
        published := p.published ++ [buf.take chunk.length] } buf
  | setEcho (enabled : Bool) : Moves p buf (.setEcho enabled) { p with echoEnabled := enabled } buf
  | lockRx : Moves p buf .lockRx { p with rxLocked := true } buf
  | unlockRx : Moves p buf .unlockRx { p with rxLocked := false } buf
  | gwUartRead (size : Nat) (hlock : p.rxLocked = true) :
      Moves p buf (.gwUartRead size) { p with ring := p.ring.drop size } buf

theorem portStep_moves {c : Bytes} (hbuf : buf.length = 128)
    (h : portStep p buf a = some (.ok (q, c))) : Moves p buf a q c := by
  cases a with
  | arrive data =>
      cases h
      exact .arrive data
  | post event =>
      simp only [portStep] at h
      split at h
      next => cases h
      next hdata =>
        cases h
        exact .post event (by simpa using hdata)
  | receive =>
      simp only [portStep] at h
      split at h
      next event rest hpc hq =>
        cases h
        exact .receive event rest hpc hq
      next => cases h
  | read =>
      simp only [portStep] at h
      split at h
      next size hpc =>
        rcases readBytes_cases hpc hbuf with ⟨hin, he⟩ | ⟨hin, he⟩
        · rw [he] at h
          cases h
          exact .stop size hpc hin
        · rw [he] at h
          cases h
          exact .read size hpc hin
      next => cases h
  | echo =>
      simp only [portStep] at h
      split at h
      next size chunk hpc =>
        cases h
        exact .echo size chunk hpc
      next => cases h
  | raise =>
      simp only [portStep] at h
      split at h
      next size chunk hpc =>
        cases h
        exact .raise size chunk hpc
      next => cases h
  | setEcho enabled =>
      cases h
      exact .setEcho enabled
  | lockRx =>
      cases h
      exact .lockRx
  | unlockRx =>
      cases h
      exact .unlockRx
  | gwUartRead size =>
      simp only [portStep] at h
      split at h
      next hlock =>
        cases h
        exact .gwUartRead size hlock
      next => cases h

theorem Moves.portStep {c : Bytes} (hbuf : buf.length = 128) (h : Moves p buf a q c) :
    portStep p buf a = some (.ok (q, c)) := by
  cases h with
  | arrive | setEcho | lockRx | unlockRx => rfl
  | post event h => simp [UartTasks.portStep, h]
  | receive event rest hpc hq => simp [UartTasks.portStep, hpc, hq]
  | stop size hpc h | read size hpc h =>
      rcases readBytes_cases hpc hbuf with ⟨hin, he⟩ | ⟨hin, he⟩
      · simp_all [UartTasks.portStep]
      · simp_all [UartTasks.portStep]
  | echo size chunk hpc => simp [UartTasks.portStep, hpc]
  | raise size chunk hpc => simp [UartTasks.portStep, hpc]
  | gwUartRead size h => simp [UartTasks.portStep, h]

theorem Moves.length {c : Bytes} (hbuf : buf.length = 128) (h : Moves p buf a q c) :
    c.length = 128 := by
  cases h with
  | read size hpc h =>
      have hle := incoming_length p
      rw [List.length_append, List.length_drop]
      omega
  | _ => exact hbuf

theorem handleEvent_chunk (event : UartEvent) (rest : List UartEvent) (hpc : p.pc = .wait) :
    (p.handleEvent event rest).pc.chunk = none := by
  unfold Port.handleEvent
  split
  · split
    · rw [hpc]
      rfl
    · rfl
  · rw [hpc]
    rfl
  · rw [hpc]
    rfl
  · rw [hpc]
    rfl

theorem sees : Sees uartEventTask (fun buf => buf.length = 128) held := by
  intro p b b' a q c hb hb' hheld h
  have hmoves := portStep_moves hb h
  refine ⟨hmoves.length hb, ?_⟩
  have hsame : ∀ {c'}, Moves p b' a q c' → held q c = held q c' →
      ∃ c', uartEventTask.step p b' a = some (.ok (q, c')) ∧ c'.length = 128 ∧
        held q c = held q c' :=
    fun h' hv => ⟨_, h'.portStep hb', h'.length hb', hv⟩
  cases hmoves with
  | arrive data => exact hsame (.arrive data) hheld
  | post event hdata => exact hsame (.post event hdata) hheld
  | receive event rest hpc hq =>
      refine hsame (.receive event rest hpc hq) ?_
      simp only [held, handleEvent_chunk event rest hpc, Option.map_none]
  | stop size hpc hin => exact hsame (.stop size hpc hin) rfl
  | read size hpc hin =>
      refine hsame (.read size hpc hin) ?_
      simp only [held, TaskPc.chunk, Option.map_some, List.take_left]
  | echo size chunk hpc =>
      simp only [held, hpc, TaskPc.chunk, Option.map_some, Option.some.injEq] at hheld
      have hmove : Moves p b' .echo _ b' := .echo size chunk hpc
      rw [← hheld] at hmove
      exact hsame hmove (congrArg some hheld)
  | raise size chunk hpc =>
      simp only [held, hpc, TaskPc.chunk, Option.map_some, Option.some.injEq] at hheld
      have hmove : Moves p b' .raise _ b' := .raise size chunk hpc
      rw [← hheld] at hmove
      exact hsame hmove rfl
  | setEcho enabled => exact hsame (.setEcho enabled) hheld
  | lockRx => exact hsame .lockRx hheld
  | unlockRx => exact hsame .unlockRx hheld
  | gwUartRead size hlock => exact hsame (.gwUartRead size hlock) hheld

structure Intact (p : Port) (buf : Bytes) : Prop where
  length : buf.length = 128
  chunk : held p buf = p.pc.chunk
  delivered : Delivered p

theorem intact_fresh (hbuf : buf.length = 128) (h : p.fresh) : Intact p buf := by
  obtain ⟨-, -, -, hpc, hreads, hon, hechoed, hpublished⟩ := h
  refine ⟨hbuf, by simp [held, hpc, TaskPc.chunk], ?_, ?_, ?_⟩
  · simp [hpc, hreads, hpublished, TaskPc.chunk]
  · simp [hreads, hechoed]
  · simp [Port.unechoed, hpc, hreads, hon]

theorem handleEvent_history (event : UartEvent) (rest : List UartEvent) :
    (p.handleEvent event rest).reads = p.reads ∧ (p.handleEvent event rest).echoOn = p.echoOn ∧
    (p.handleEvent event rest).echoed = p.echoed ∧
    (p.handleEvent event rest).published = p.published := by
  unfold Port.handleEvent
  split
  · split <;> exact ⟨rfl, rfl, rfl, rfl⟩
  · exact ⟨rfl, rfl, rfl, rfl⟩
  · exact ⟨rfl, rfl, rfl, rfl⟩
  · exact ⟨rfl, rfl, rfl, rfl⟩

theorem unechoed_of_none (h : p.pc.chunk = none) : p.unechoed = [] := by
  unfold Port.unechoed
  split
  next hpc => simp [hpc, TaskPc.chunk] at h
  next => rfl

theorem delivered_receive (event : UartEvent) (rest : List UartEvent) (hpc : p.pc = .wait)
    (hd : Delivered p) : Delivered (p.handleEvent event rest) := by
  obtain ⟨hreads, hon, hechoed, hpublished⟩ := handleEvent_history (p := p) event rest
  have hchunk := handleEvent_chunk event rest hpc
  have hnone : p.pc.chunk = none := by rw [hpc]; rfl
  refine ⟨?_, ?_, ?_⟩
  · rw [hchunk, hpublished, hreads, ← hd.published, hnone]
  · rw [hechoed, hreads, hon, hd.echoed]
  · rw [hon, hreads, unechoed_of_none hchunk, ← hd.decided, unechoed_of_none hnone]

theorem zip_snoc_left {α β : Type*} {l : List α} {m : List β} (h : l.length = m.length) (a : α) :
    (l ++ [a]).zip m = l.zip m := by
  have hzip : (l ++ [a]).zip (m ++ []) = l.zip m ++ [a].zip [] := List.zip_append h
  simpa using hzip

theorem delivered_read {size : Nat} {chunk : Bytes} {ring : Bytes} (hpc : p.pc = .reading size)
    (hd : Delivered p) : Delivered { p with
      ring := ring, pc := .echoing size chunk, reads := p.reads ++ [chunk] } := by
  have hnone : p.pc.chunk = none := by rw [hpc]; rfl
  have hpublished := hd.published
  have hdecided := hd.decided
  rw [hnone, Option.toList_none, List.append_nil] at hpublished
  rw [unechoed_of_none hnone, List.length_nil, Nat.add_zero] at hdecided
  refine ⟨?_, ?_, ?_⟩
  · simp only [hpublished, TaskPc.chunk, Option.toList_some]
  · simp only [zip_snoc_left hdecided.symm, hd.echoed]
  · simp only [Port.unechoed, List.length_append, hdecided, List.length_singleton]

theorem delivered_echo {size : Nat} {chunk : Bytes} (hpc : p.pc = .echoing size chunk)
    (hd : Delivered p) : Delivered { p with
      pc := .raising size chunk
      echoOn := p.echoOn ++ [p.echoEnabled]
      echoed := p.echoed ++ if p.echoEnabled then [chunk] else [] } := by
  have hpublished := hd.published
  have hdecided := hd.decided
  rw [hpc] at hpublished
  simp only [Port.unechoed, hpc, List.length_singleton] at hdecided
  simp only [TaskPc.chunk, Option.toList_some] at hpublished
  have hlen : p.published.length = p.echoOn.length := by
    rw [← hpublished, List.length_append, List.length_singleton] at hdecided
    omega
  refine ⟨hpublished, ?_, ?_⟩
  · have hechoed := hd.echoed
    rw [← hpublished, zip_snoc_left hlen] at hechoed
    simp only [← hpublished, List.zip_append hlen, hechoed]
    cases p.echoEnabled <;> simp
  · simpa [Port.unechoed] using hdecided

theorem Moves.intact {c : Bytes} (h : Moves p buf a q c) (hi : Intact p buf) : Intact q c := by
  have hlen := h.length hi.length
  have hd := hi.delivered
  cases h with
  | arrive | post | setEcho | lockRx | unlockRx | gwUartRead =>
      exact ⟨hlen, hi.chunk, hd.published, hd.echoed, hd.decided⟩
  | receive event rest hpc hq =>
      refine ⟨hlen, ?_, delivered_receive event rest hpc hd⟩
      simp only [held, handleEvent_chunk event rest hpc, Option.map_none]
  | stop size hpc hin =>
      have hnone : p.pc.chunk = none := by rw [hpc]; rfl
      have hpublished := hd.published
      have hdecided := hd.decided
      rw [hnone] at hpublished
      rw [unechoed_of_none hnone] at hdecided
      exact ⟨hlen, rfl, hpublished, hd.echoed, hdecided⟩
  | read size hpc hin =>
      refine ⟨hlen, ?_, delivered_read hpc hd⟩
      simp only [held, TaskPc.chunk, Option.map_some, List.take_left]
  | echo size chunk hpc =>
      have hchunk := hi.chunk
      simp only [held, hpc, TaskPc.chunk, Option.map_some, Option.some.injEq] at hchunk
      refine ⟨hlen, ?_, ?_⟩
      · simp only [held, TaskPc.chunk, Option.map_some, hchunk]
      · rw [hchunk]
        exact delivered_echo hpc hd
  | raise size chunk hpc =>
      have hchunk := hi.chunk
      have hpublished := hd.published
      have hdecided := hd.decided
      simp only [held, hpc, TaskPc.chunk, Option.map_some, Option.some.injEq] at hchunk
      simp only [hpc, TaskPc.chunk, Option.toList_some] at hpublished
      simp only [Port.unechoed, hpc] at hdecided
      refine ⟨hlen, rfl, ?_, hd.echoed, hdecided⟩
      simpa [TaskPc.chunk, hchunk] using hpublished

theorem alone_intact {z w : Port × Bytes} {as : List PortLabel} (hz : alone.init z)
    (h : Run alone z as w) : Intact w.1 w.2 := by
  have hfresh : Port.fresh z.1 := hz.1
  refine h.invariant (I := fun z => Intact z.1 z.2) (.init hz) (intact_fresh hz.2 hfresh) ?_
  intro t a u _ hi hstep _
  exact (portStep_moves hi.length hstep).intact hi

/-- No chunk that another port has in buf is overwritten with other bytes. -/
def Spares (x : (Fin 2 → Port) × Bytes) (l : Fin 2 × PortLabel) : Prop :=
  match l.2 with
  | .read => ∀ i, i ≠ l.1 →
      held (x.1 i) ((x.1 l.1).incoming ++ x.2.drop (x.1 l.1).incoming.length) = held (x.1 i) x.2
  | _ => True

theorem spares_unseen {x y : (Fin 2 → Port) × Bytes} {l : Fin 2 × PortLabel}
    (hx : x.2.length = 128) (h : machine.Step x l y) (hs : Spares x l) : Unseen held x l y := by
  obtain ⟨⟨q, c⟩, hq, rfl⟩ := shared_step_iff.1 h
  intro j hj
  have hmoves := portStep_moves hx hq
  obtain ⟨i, a⟩ := l
  cases hmoves with
  | read size hpc h => exact hs j hj
  | _ => rfl

theorem spares_isolated {x y : (Fin 2 → Port) × Bytes} {ls : List (Fin 2 × PortLabel)}
    (hx : machine.init x) (h : Along machine (fun z l _ => Spares z l) x ls y) (i : Fin 2) :
    ∃ b, Run alone (x.1 i, x.2) (inputs i ls) (y.1 i, b) := by
  have hmem : ∀ {z ls}, Along machine (fun z l _ => Spares z l) x ls z → z.2.length = 128 :=
    fun hz => (shared_invariant (I := fun _ => True) (C := fun _ _ => True) hx.2
      (fun _ => trivial) (fun _ _ _ _ _ hb _ _ hstep =>
        ⟨(portStep_moves hb hstep).length hb, trivial⟩) hz.run).1
  have hunseen : Along machine (Unseen held) x ls y := by
    clear i
    induction h with
    | start => exact .start
    | step run hstep hs ih => exact .step ih hstep (spares_unseen (hmem run) hstep hs)
  obtain ⟨-, b, hrun, -⟩ := isolated_run sees hx.2 hunseen i
  exact ⟨b, hrun⟩

/-- As long as no port reads over a chunk that the other one still needs, a
port echoes and publishes what it has read, and its own inputs decide what. -/
theorem ports_isolated {x y : (Fin 2 → Port) × Bytes} {ls : List (Fin 2 × PortLabel)}
    (hx : machine.init x) (h : Along machine (fun z l _ => Spares z l) x ls y) (i : Fin 2) :
    Delivered (y.1 i) ∧ ∀ ls' y', Along machine (fun z l _ => Spares z l) x ls' y' →
      inputs i ls' = inputs i ls → y'.1 i = y.1 i := by
  obtain ⟨b, hrun⟩ := spares_isolated hx h i
  refine ⟨(alone_intact ⟨hx.1 i, hx.2⟩ hrun).delivered, ?_⟩
  intro ls' y' h' hsame
  obtain ⟨b', hrun'⟩ := spares_isolated hx h' i
  rw [hsame] at hrun'
  exact congrArg Prod.fst (hrun'.unique hrun)

instance (x : (Fin 2 → Port) × Bytes) (l : Fin 2 × PortLabel) : Decidable (Spares x l) :=
  match l with
  | (k, .read) => inferInstanceAs (Decidable (∀ i, i ≠ k →
      held (x.1 i) ((x.1 k).incoming ++ x.2.drop (x.1 k).incoming.length) = held (x.1 i) x.2))
  | (_, .arrive _) | (_, .post _) | (_, .receive) | (_, .echo) | (_, .raise) | (_, .setEcho _)
  | (_, .lockRx) | (_, .unlockRx) | (_, .gwUartRead _) => .isTrue trivial

def idle : Port := ⟨[], [], true, false, .wait, [], [], [], []⟩

def booted : (Fin 2 → Port) × Bytes := (fun _ => idle, List.replicate 128 0)

theorem booted_init : machine.init booted :=
  ⟨fun _ => ⟨rfl, rfl, rfl, rfl, rfl, rfl, rfl, rfl⟩, List.length_replicate⟩

theorem ports_isolated_turns : ∃ y : (Fin 2 → Port) × Bytes,
    (y.1 0).published = [[65, 66]] ∧ (y.1 1).published = [[67]] ∧ ∀ i, Delivered (y.1 i) := by
  have h : machine.check (fun x l => decide (Spares x l))
      (fun y => (y.1 0).published == [[65, 66]] && (y.1 1).published == [[67]]) booted
      [(0, .arrive [65, 66]), (1, .arrive [67]), (0, .receive), (1, .receive), (0, .read),
        (0, .echo), (0, .raise), (1, .read), (1, .echo), (1, .raise)] = true := by
    decide +kernel
  obtain ⟨y, hrun, hy⟩ := exists_of_check h
  rw [Bool.and_eq_true, beq_iff_eq, beq_iff_eq] at hy
  have hspares := hrun.imp (fun _ _ _ hs => of_decide_eq_true hs)
  exact ⟨y, hy.1, hy.2, fun i => (ports_isolated booted_init hspares i).1⟩

/-- A byte of the one port is published on the other port, whose task has read
a byte but not yet published it. -/
theorem port_overwritten : ∃ y, Reachable machine y ∧ (y.1 0).reads = [[65]] ∧
    (y.1 0).published = [[66]] := by
  have h : machine.reaches booted [(0, .arrive [65]), (0, .receive), (0, .read), (1, .arrive [66]),
      (1, .receive), (1, .read), (0, .echo), (0, .raise)]
      (fun y => (y.1 0).reads == [[65]] && (y.1 0).published == [[66]]) = true := by decide +kernel
  obtain ⟨y, hrun, hy⟩ := exists_of_reaches h
  rw [Bool.and_eq_true, beq_iff_eq, beq_iff_eq] at hy
  exact ⟨y, ⟨_, _, booted_init, hrun⟩, hy⟩

end Isolation

section Stale

variable {p q : Port} {buf c : Bytes} {a : PortLabel}

def Port.announced (p : Port) : Nat := p.pc.left + (p.queue.map UartEvent.size).sum

/-- An unlock leaves no byte in the ring that no event announces. -/
def Caught (p : Port) (a : PortLabel) : Prop :=
  match a with
  | .unlockRx => p.ring.length ≤ p.announced
  | _ => True

def Announced (p : Port) : Prop := p.rxLocked = false → p.ring.length ≤ p.announced

theorem announced_receive (event : UartEvent) (rest : List UartEvent) (hpc : p.pc = .wait)
    (hq : p.queue = event :: rest) (h : Announced p) : Announced (p.handleEvent event rest) := by
  simp only [Announced, Port.announced, hpc, hq, TaskPc.left, List.map_cons, List.sum_cons] at h
  cases event with
  | data size =>
      by_cases hlock : p.rxLocked = true
      · simp [Announced, Port.handleEvent, hlock]
      · intro hunlocked
        have hle := h (by simpa using hlock)
        simp only [Port.handleEvent, hlock, Bool.false_eq_true, if_false, Port.announced,
          TaskPc.left]
        simpa [UartEvent.size] using hle
  | fifoOvf | bufferFull =>
      intro _
      exact Nat.zero_le _
  | other => simpa [Announced, Port.handleEvent, Port.announced, hpc, TaskPc.left, UartEvent.size] using h

theorem incoming_nil {size : Nat} (hpc : p.pc = .reading size) (hin : p.incoming = []) :
    size = 0 ∨ p.ring = [] := by
  simp only [Port.incoming, hpc, List.take_eq_nil_iff] at hin
  exact hin.imp_left (fun hmin => by omega)

theorem incoming_le {size : Nat} (hpc : p.pc = .reading size) :
    p.incoming.length ≤ size ∧ p.incoming.length ≤ p.ring.length := by
  simp only [Port.incoming, hpc, List.length_take]
  omega

theorem Moves.announced (hmove : Moves p buf a q c) (hc : Caught p a) (h : Announced p) :
    Announced q := by
  cases hmove with
  | arrive data =>
      intro hlock
      have hle := h hlock
      simp only [Port.announced, List.length_append, List.map_append, List.sum_append, List.map_cons,
        List.map_nil, List.sum_cons, List.sum_nil, UartEvent.size] at hle ⊢
      omega
  | post event hdata =>
      intro hlock
      have hle := h hlock
      simp only [Port.announced, List.map_append, List.sum_append] at hle ⊢
      omega
  | receive event rest hpc hq => exact announced_receive event rest hpc hq h
  | stop size hpc hin =>
      intro hlock
      have hle := h hlock
      rcases incoming_nil hpc hin with rfl | hring
      · simpa [Port.announced, hpc, TaskPc.left] using hle
      · simp [hring]
  | read size hpc hin =>
      intro hlock
      have hle := h hlock
      have hchunk := incoming_le hpc
      simp only [Port.announced, hpc, TaskPc.left, List.length_drop] at hle ⊢
      omega
  | echo size chunk hpc | raise size chunk hpc =>
      intro hlock
      have hle := h hlock
      simpa only [Port.announced, hpc, TaskPc.left] using hle
  | setEcho enabled => exact h
  | lockRx =>
      intro hlock
      cases hlock
  | unlockRx =>
      intro _
      exact hc
  | gwUartRead size hlock =>
      intro hunlocked
      rw [hlock] at hunlocked
      cases hunlocked

/-- As long as every unlock leaves only announced bytes behind, a port that is
unlocked and has no event left has no byte left either. -/
theorem no_stale_bytes {x y : (Fin 2 → Port) × Bytes} {ls : List (Fin 2 × PortLabel)}
    (hx : machine.init x) (h : Along machine (fun z l _ => Caught (z.1 l.1) l.2) x ls y) (i : Fin 2)
    (hlock : (y.1 i).rxLocked = false) (hqueue : (y.1 i).queue = []) (hpc : (y.1 i).pc = .wait) :
    (y.1 i).ring = [] := by
  have hfresh : ∀ i, Announced (x.1 i) := by
    intro i _
    obtain ⟨hring, -⟩ := hx.1 i
    rw [hring]
    exact Nat.zero_le _
  have hstep : ∀ p b a q c, b.length = 128 → Announced p → Caught p a →
      portStep p b a = some (.ok (q, c)) → c.length = 128 ∧ Announced q := by
    intro p b a q c hb hi hc hst
    have hmove := portStep_moves hb hst
    exact ⟨hmove.length hb, hmove.announced hc hi⟩
  have hle := (shared_invariant (t := uartEventTask) hx.2 hfresh hstep h).2 i hlock
  simpa [Port.announced, hpc, hqueue, TaskPc.left] using hle

instance (p : Port) (a : PortLabel) : Decidable (Caught p a) :=
  match a with
  | .unlockRx => inferInstanceAs (Decidable (p.ring.length ≤ p.announced))
  | .arrive _ | .post _ | .receive | .read | .echo | .raise | .setEcho _ | .lockRx
  | .gwUartRead _ => .isTrue trivial

theorem no_stale_bytes_locked : ∃ y : (Fin 2 → Port) × Bytes,
    (y.1 0).published = [[67]] ∧ (y.1 0).rxLocked = false ∧ (y.1 0).ring = [] := by
  have h : machine.check (fun x l => decide (Caught (x.1 l.1) l.2))
      (fun y => (y.1 0).published == [[67]] && ((y.1 0).rxLocked == false &&
        ((y.1 0).queue == [] && (y.1 0).pc == .wait))) booted
      [(0, .lockRx), (0, .arrive [65, 66]), (0, .gwUartRead 2), (0, .receive), (0, .unlockRx),
        (0, .arrive [67]), (0, .receive), (0, .read), (0, .echo), (0, .raise), (0, .read)] = true := by
    decide +kernel
  obtain ⟨y, hrun, hy⟩ := exists_of_check h
  simp only [Bool.and_eq_true, beq_iff_eq] at hy
  have hcaught := hrun.imp (fun _ _ _ hs => of_decide_eq_true hs)
  exact ⟨y, hy.1, hy.2.1, no_stale_bytes booted_init hcaught 0 hy.2.1 hy.2.2.1 hy.2.2.2⟩

/-- A byte whose event is skipped during a lock stays in the ring, and is what
the next subscriber gets when another byte arrives. -/
theorem stale_byte : ∃ y z, Reachable machine y ∧ (y.1 0).rxLocked = false ∧ (y.1 0).queue = [] ∧
    (y.1 0).pc = .wait ∧ (y.1 0).ring = [65] ∧
    Run machine y [(0, .arrive [66]), (0, .receive), (0, .read), (0, .echo), (0, .raise)] z ∧
    (z.1 0).published = [[65]] := by
  have h : machine.reaches booted [(0, .lockRx), (0, .arrive [65]), (0, .receive), (0, .unlockRx)]
      (fun y => (y.1 0).rxLocked == false && ((y.1 0).queue == [] && ((y.1 0).pc == .wait &&
        ((y.1 0).ring == [65] && machine.reaches y [(0, .arrive [66]), (0, .receive), (0, .read),
          (0, .echo), (0, .raise)] (fun z => (z.1 0).published == [[65]]))))) = true := by
    decide +kernel
  obtain ⟨y, hrun, hy⟩ := exists_of_reaches h
  simp only [Bool.and_eq_true, beq_iff_eq] at hy
  obtain ⟨z, hnext, hz⟩ := exists_of_reaches hy.2.2.2.2
  exact ⟨y, z, ⟨_, _, booted_init, hrun⟩, hy.1, hy.2.1, hy.2.2.1, hy.2.2.2.1, hnext,
    by simpa using hz⟩

end Stale

end WirelessGateway.UartTasks
