import WirelessGateway.CJson
import WirelessGateway.Lib.Region

namespace WirelessGateway.UartChunks

open CJson Lib.Region

inductive Read
  | error
  | got (bytes : Bytes)

/-- What one uart_read_bytes of the other port's task stores. -/
abbrev Chunk := { bytes : Bytes // bytes.length ≤ 128 }

/-- What the calls of the loop's turns find: the driver's result for the length
asked for, echo_enabled, and what the other port's task reads before the turn
has echoed its bytes and after that, before they are published. -/
structure Turns where
  read : Nat → UInt32 → Read
  echoEnabled : Nat → Bool
  beforeEcho : Nat → List Chunk
  beforeRaise : Nat → List Chunk
  bounded : ∀ i size bytes, read i size = .got bytes → bytes.length ≤ size.toNat

structure Streams where
  published : List Bytes
  echoed : Bytes

def Streams.empty : Streams := ⟨[], []⟩

def bytesOf (buf : Bytes) (size : UInt32) : Except Overrun Bytes :=
  if buf.length < size.toNat then .error .read else .ok (buf.take size.toNat)

def clMin (a b : UInt32) : UInt32 := if a < b then a else b

/-- buf is static, so both ports' tasks read into the same bytes. -/
def storeAll (buf : Bytes) (reads : List Chunk) : Except Overrun Bytes :=
  reads.foldlM (fun buf read => copy buf 0 read.1 read.1.length) buf

def dataLoop (turns : Turns) : Nat → Nat → UInt32 → Bytes → Streams →
    Except Overrun (Option Streams)
  | 0, _, _, _, _ => pure none
  | fuel + 1, i, size, buf, out =>
    if size = 0 then pure (some out)
    else match turns.read i (clMin size 128) with
      | .error => pure (some out)
      | .got bytes => do
        let buf ← copy buf 0 bytes bytes.length
        let sz := UInt32.ofNat bytes.length
        if sz = 0 then pure (some out)
        else
          let buf ← storeAll buf (turns.beforeEcho i)
          let echo ← if turns.echoEnabled i then bytesOf buf sz else pure []
          let buf ← storeAll buf (turns.beforeRaise i)
          let chunk ← bytesOf buf sz
          dataLoop turns fuel (i + 1) (size - sz) buf {
            published := out.published ++ [chunk]
            echoed := out.echoed ++ echo }

def handleData (turns : Turns) (rxLocked : Bool) (size : UInt32) (buf : Bytes) (fuel : Nat) :
    Except Overrun (Option Streams) :=
  if rxLocked then pure (some .empty) else dataLoop turns fuel 0 size buf .empty

section Given

variable {turns : Turns} {size : UInt32} {chunks : List Bytes}

def asked (size : UInt32) (chunks : List Bytes) : UInt32 :=
  UInt32.ofNat (min (size.toNat - chunks.flatten.length) 128)

def Gives (turns : Turns) (size : UInt32) (chunks : List Bytes) : Prop :=
  ∀ i (h : i < chunks.length),
    chunks[i] ≠ [] ∧ turns.read i (asked size (chunks.take i)) = .got chunks[i]

/-- The chunks are all that the driver gives: the size is used up with them, or
the next result is not above 0. -/
structure Given (turns : Turns) (size : UInt32) (chunks : List Bytes) : Prop where
  gives : Gives turns size chunks
  ended : chunks.flatten.length = size.toNat ∨
    turns.read chunks.length (asked size chunks) = .error ∨
    turns.read chunks.length (asked size chunks) = .got []

theorem asked_le (size : UInt32) (chunks : List Bytes) :
    (asked size chunks).toNat ≤ 128 ∧
      (asked size chunks).toNat ≤ size.toNat - chunks.flatten.length := by
  have hlt := size.toNat_lt
  rw [asked, UInt32.toNat_ofNat']
  omega

theorem clMin_asked {rest : UInt32} (h : rest.toNat + chunks.flatten.length = size.toNat) :
    clMin rest 128 = asked size chunks := by
  apply UInt32.toNat_inj.1
  have hlt := size.toNat_lt
  have hleft : size.toNat - chunks.flatten.length = rest.toNat := by omega
  have h128 : (128 : UInt32).toNat = 128 := rfl
  rw [clMin, asked, UInt32.toNat_ofNat', hleft]
  by_cases hmin : rest < 128
  · have := UInt32.lt_iff_toNat_lt.1 hmin
    rw [if_pos hmin]
    omega
  · have : ¬ rest.toNat < (128 : UInt32).toNat := fun hn => hmin (UInt32.lt_iff_toNat_lt.2 hn)
    rw [if_neg hmin]
    omega

theorem Gives.snoc (h : Gives turns size chunks) {bytes : Bytes} (hne : bytes ≠ [])
    (hread : turns.read chunks.length (asked size chunks) = .got bytes) :
    Gives turns size (chunks ++ [bytes]) := by
  intro i hi
  by_cases hlt : i < chunks.length
  · rw [List.getElem_append_left hlt, List.take_append_of_le_length (Nat.le_of_lt hlt)]
    exact h i hlt
  · rw [List.length_append, List.length_singleton] at hi
    obtain rfl : i = chunks.length := by omega
    rw [List.getElem_concat_length rfl, List.take_left]
    exact ⟨hne, hread⟩

theorem Gives.sizes (h : Gives turns size chunks) : ∀ chunk ∈ chunks, 1 ≤ chunk.length ∧ chunk.length ≤ 128 := by
  intro chunk hc
  obtain ⟨i, hi, rfl⟩ := List.getElem_of_mem hc
  obtain ⟨hne, hread⟩ := h i hi
  have hb := turns.bounded _ _ _ hread
  exact ⟨List.length_pos_iff.2 hne, hb.trans (asked_le _ _).1⟩

end Given

section Shared

/-- What is left of a chunk at the front of buf when the reads are stored over
it. -/
def overlay (chunk : Bytes) (reads : List Chunk) : Bytes :=
  reads.foldl (fun chunk read => read.1.take chunk.length ++ chunk.drop read.1.length) chunk

theorem overlay_cons (chunk : Bytes) (read : Chunk) (reads : List Chunk) :
    overlay chunk (read :: reads) =
      overlay (read.1.take chunk.length ++ chunk.drop read.1.length) reads := rfl

@[simp]
theorem overlay_length (chunk : Bytes) (reads : List Chunk) :
    (overlay chunk reads).length = chunk.length := by
  induction reads generalizing chunk with
  | nil => rfl
  | cons read reads ih =>
    rw [overlay_cons, ih, List.length_append, List.length_take, List.length_drop]
    omega

theorem storeAll_spec {buf : Bytes} (h : buf.length = 128) (reads : List Chunk) :
    ∃ buf', storeAll buf reads = .ok buf' ∧ buf'.length = 128 ∧
      ∀ n ≤ 128, buf'.take n = overlay (buf.take n) reads := by
  induction reads generalizing buf with
  | nil => exact ⟨buf, rfl, h, fun _ _ => rfl⟩
  | cons read reads ih =>
    have hfit : 0 + read.1.length ≤ buf.length := by
      have := read.2
      omega
    have hcopy := copy_ok (Nat.le_refl read.1.length) hfit
    have hlen := copy_length hcopy
    obtain ⟨buf', hstore, hbuf', htake⟩ := ih (hlen.trans h)
    refine ⟨buf', ?_, hbuf', fun n hn => ?_⟩
    · rw [storeAll, List.foldlM_cons, hcopy]
      exact hstore
    · rw [htake n hn, overlay_cons]
      congr 1
      rw [List.take_zero, List.nil_append, List.take_length, Nat.zero_add, List.take_append,
        List.drop_take, List.length_take, h, Nat.min_eq_left hn]

theorem bytesOf_stored {buf chunk : Bytes} {sz : UInt32} (hbuf : buf.length = 128)
    (hsz : sz.toNat = chunk.length) (hle : chunk.length ≤ 128) (hfront : buf.take chunk.length = chunk)
    (reads : List Chunk) :
    ∃ buf', storeAll buf reads = .ok buf' ∧ buf'.length = 128 ∧
      buf'.take chunk.length = overlay chunk reads ∧ bytesOf buf' sz = .ok (overlay chunk reads) := by
  obtain ⟨buf', hstore, hbuf', htake⟩ := storeAll_spec hbuf reads
  have hover := htake chunk.length hle
  rw [hfront] at hover
  refine ⟨buf', hstore, hbuf', hover, ?_⟩
  rw [bytesOf, hsz, if_neg (by omega), hover]

end Shared

section Loop

variable {turns : Turns} {size : UInt32} {chunks : List Bytes}

def outcome (turns : Turns) (chunks : List Bytes) : Streams where
  published := chunks.mapIdx (fun i chunk =>
    overlay (overlay chunk (turns.beforeEcho i)) (turns.beforeRaise i))
  echoed := (chunks.mapIdx (fun i chunk =>
    if turns.echoEnabled i then overlay chunk (turns.beforeEcho i) else [])).flatten

theorem outcome_snoc (turns : Turns) (chunks : List Bytes) (chunk : Bytes) :
    outcome turns (chunks ++ [chunk]) = {
      published := (outcome turns chunks).published ++
        [overlay (overlay chunk (turns.beforeEcho chunks.length)) (turns.beforeRaise chunks.length)]
      echoed := (outcome turns chunks).echoed ++
        if turns.echoEnabled chunks.length then overlay chunk (turns.beforeEcho chunks.length) else [] } := by
  rw [outcome, List.mapIdx_concat, List.mapIdx_concat, List.flatten_concat]
  rfl

theorem toNat_ofNat_length {bytes : Bytes} (h : bytes.length ≤ 128) :
    (UInt32.ofNat bytes.length).toNat = bytes.length := by
  rw [UInt32.toNat_ofNat']
  omega

theorem dataLoop_turn (fuel : Nat) {rest : UInt32} {buf bytes : Bytes} (hbuf : buf.length = 128)
    (hrest : rest ≠ 0) (hread : turns.read chunks.length (clMin rest 128) = .got bytes)
    (hpos : 1 ≤ bytes.length) (hle : bytes.length ≤ 128) :
    ∃ buf', buf'.length = 128 ∧
      dataLoop turns (fuel + 1) chunks.length rest buf (outcome turns chunks) =
        dataLoop turns fuel (chunks ++ [bytes]).length (rest - UInt32.ofNat bytes.length) buf'
          (outcome turns (chunks ++ [bytes])) := by
  have hsz := toNat_ofNat_length hle
  have hne : UInt32.ofNat bytes.length ≠ 0 := by
    intro hz
    rw [hz] at hsz
    have : (0 : UInt32).toNat = 0 := rfl
    omega
  have hfit : 0 + bytes.length ≤ buf.length := by omega
  obtain ⟨buf₁, hcopy, hbuf₁, hfront⟩ := copy_spec (Nat.le_refl bytes.length) hfit
  rw [Nat.zero_add, List.take_zero, List.nil_append, List.take_length] at hfront
  obtain ⟨buf₂, hstore₂, hbuf₂, hfront₂, hecho⟩ :=
    bytesOf_stored (hbuf₁.trans hbuf) hsz hle hfront (turns.beforeEcho chunks.length)
  obtain ⟨buf₃, hstore₃, hbuf₃, -, hraise⟩ :=
    bytesOf_stored hbuf₂
      (hsz.trans (overlay_length bytes (turns.beforeEcho chunks.length)).symm)
      (by rwa [overlay_length]) (by rwa [overlay_length]) (turns.beforeRaise chunks.length)
  refine ⟨buf₃, hbuf₃, ?_⟩
  rw [outcome_snoc, List.length_append, List.length_singleton, dataLoop, if_neg hrest, hread]
  simp only [hcopy, bind, Except.bind, if_neg hne, hstore₂]
  cases turns.echoEnabled chunks.length with
  | true => simp only [if_true, hecho, hstore₃, hraise]
  | false => simp only [Bool.false_eq_true, if_false, pure, Except.pure, hstore₃, hraise]

/-- The loop ends, since every turn but the last takes at least one of the bytes
that the size still counts. -/
theorem dataLoop_ends (turns : Turns) (size : UInt32) (fuel : Nat) :
    ∀ (chunks : List Bytes) (rest : UInt32) (buf : Bytes), rest.toNat < fuel → buf.length = 128 →
      Gives turns size chunks → rest.toNat + chunks.flatten.length = size.toNat →
      ∃ all, dataLoop turns fuel chunks.length rest buf (outcome turns chunks) =
          .ok (some (outcome turns all)) ∧
        Given turns size all ∧ all.flatten.length ≤ size.toNat := by
  induction fuel with
  | zero =>
    intro chunks rest buf hfuel
    omega
  | succ fuel ih =>
    intro chunks rest buf hfuel hbuf hgives hrest
    have hasked := clMin_asked hrest
    by_cases hzero : rest = 0
    · refine ⟨chunks, ?_, ⟨hgives, .inl ?_⟩, by omega⟩
      · rw [dataLoop, if_pos hzero]
        rfl
      · rw [hzero] at hrest
        exact (Nat.zero_add _).symm.trans hrest
    · cases hread : turns.read chunks.length (clMin rest 128) with
      | error =>
        refine ⟨chunks, ?_, ⟨hgives, .inr (.inl (hasked ▸ hread))⟩, by omega⟩
        rw [dataLoop, if_neg hzero, hread]
        rfl
      | got bytes =>
        by_cases hnil : bytes = []
        · subst hnil
          refine ⟨chunks, ?_, ⟨hgives, .inr (.inr (hasked ▸ hread))⟩, by omega⟩
          have hcopy : copy buf 0 [] 0 = .ok (buf.take 0 ++ [] ++ buf.drop (0 + 0)) :=
            copy_ok (Nat.le_refl 0) (Nat.zero_le _)
          rw [dataLoop, if_neg hzero, hread]
          dsimp only
          rw [List.length_nil, hcopy]
          rfl
        · have hpos := List.length_pos_iff.2 hnil
          have hb := turns.bounded _ _ _ hread
          have hle := asked_le size chunks
          rw [← hasked] at hle
          obtain ⟨buf', hbuf', hturn⟩ :=
            dataLoop_turn fuel hbuf hzero hread hpos (hb.trans hle.1)
          have hsz := toNat_ofNat_length (hb.trans hle.1)
          have hsub : (rest - UInt32.ofNat bytes.length).toNat = rest.toNat - bytes.length := by
            rw [UInt32.toNat_sub_of_le _ _ (UInt32.le_iff_toNat_le.2 (by omega)), hsz]
          have hleft : (rest - UInt32.ofNat bytes.length).toNat + (chunks ++ [bytes]).flatten.length =
              size.toNat := by
            rw [hsub, List.flatten_concat, List.length_append]
            omega
          rw [hturn]
          exact ih _ _ buf' (by omega) hbuf' (hgives.snoc hnil (hasked ▸ hread)) hleft

end Loop

structure Chunked (turns : Turns) (size : UInt32) (chunks : List Bytes) (out : Streams) : Prop where
  published : out.published.flatten = chunks.flatten
  echoed : out.echoed =
    (chunks.mapIdx (fun i chunk => if turns.echoEnabled i then chunk else [])).flatten
  sizes : ∀ chunk ∈ out.published, 1 ≤ chunk.length ∧ chunk.length ≤ 128
  total : out.published.flatten.length ≤ size.toNat

/-- Nothing that the other port's task reads changes a chunk that is still to be
echoed or to be published. -/
def Spared (turns : Turns) (chunks : List Bytes) : Prop :=
  ∀ i (h : i < chunks.length),
    (turns.echoEnabled i = true → overlay chunks[i] (turns.beforeEcho i) = chunks[i]) ∧
      overlay chunks[i] (turns.beforeEcho i ++ turns.beforeRaise i) = chunks[i]

theorem overlay_append (chunk : Bytes) (reads later : List Chunk) :
    overlay chunk (reads ++ later) = overlay (overlay chunk reads) later := List.foldl_append

theorem flatten_inj {l l' : List Bytes} (hlen : l.length = l'.length)
    (h : ∀ i (hi : i < l.length) (hi' : i < l'.length), l[i].length = l'[i].length) :
    l.flatten = l'.flatten ↔ l = l' := by
  have hmap : l.map List.length = l'.map List.length := by
    apply List.ext_getElem
    · rw [List.length_map, List.length_map, hlen]
    · intro i hi hi'
      rw [List.getElem_map, List.getElem_map]
      rw [List.length_map] at hi hi'
      exact h i hi hi'
  rw [List.eq_iff_flatten_eq, and_iff_left hmap]

theorem published_inj (turns : Turns) (chunks : List Bytes) :
    (outcome turns chunks).published.flatten = chunks.flatten ↔
      (outcome turns chunks).published = chunks := by
  apply flatten_inj List.length_mapIdx
  intro i hi hi'
  simp

theorem streams_iff (turns : Turns) (chunks : List Bytes) :
    (outcome turns chunks).published.flatten = chunks.flatten ∧
      (outcome turns chunks).echoed =
        (chunks.mapIdx (fun i chunk => if turns.echoEnabled i then chunk else [])).flatten ↔
    Spared turns chunks := by
  rw [published_inj, outcome, flatten_inj, List.mapIdx_eq_mapIdx_iff, Spared]
  · constructor
    · rintro ⟨hp, he⟩ i hi
      constructor
      · intro hon
        have := he i hi
        rwa [if_pos hon, if_pos hon] at this
      · rw [overlay_append]
        have := congrArg (fun l => l[i]?) hp
        simpa [hi] using this
    · intro h
      constructor
      · apply List.ext_getElem List.length_mapIdx
        intro i hi hi'
        rw [List.getElem_mapIdx, ← overlay_append]
        exact (h i hi').2
      · intro i hi
        by_cases hon : turns.echoEnabled i = true
        · rw [if_pos hon, if_pos hon]
          exact (h i hi).1 hon
        · rw [if_neg hon, if_neg hon]
  · rw [List.length_mapIdx, List.length_mapIdx]
  · intro i hi hi'
    rw [List.getElem_mapIdx, List.getElem_mapIdx]
    split <;> simp

/-- On an unlocked port the loop ends whatever the driver gives for an event. It
hands on what the driver gave if and only if the other port's task spares the
shared bytes. -/
theorem data_chunked_iff (turns : Turns) (size : UInt32) (buf : Bytes) (fuel : Nat)
    (hbuf : buf.length = 128) (hfuel : size.toNat < fuel) :
    ∃ out chunks, handleData turns false size buf fuel = .ok (some out) ∧ Given turns size chunks ∧
      (Chunked turns size chunks out ↔ Spared turns chunks) := by
  have hnone : Gives turns size [] := fun i hi => absurd hi (Nat.not_lt_zero i)
  obtain ⟨chunks, hrun, hgiven, hle⟩ :=
    dataLoop_ends turns size fuel [] size buf hfuel hbuf hnone (Nat.add_zero _)
  refine ⟨outcome turns chunks, chunks, hrun, hgiven, ?_⟩
  rw [← streams_iff]
  constructor
  · exact fun h => ⟨h.published, h.echoed⟩
  · rintro ⟨hp, he⟩
    refine ⟨hp, he, ?_, hp ▸ hle⟩
    rw [(published_inj turns chunks).1 hp]
    exact hgiven.gives.sizes

def full (echo : Bool) (others : List Chunk) : Turns where
  read _ size := .got (List.replicate size.toNat 65)
  echoEnabled _ := echo
  beforeEcho _ := others
  beforeRaise _ := []
  bounded := by
    intro i size bytes h
    cases h
    rw [List.length_replicate]

theorem data_chunked_iff_full :
    ∃ out chunks, handleData (full true []) false 300 (List.replicate 128 0) 301 = .ok (some out) ∧
      Given (full true []) 300 chunks ∧
      (Chunked (full true []) 300 chunks out ↔ Spared (full true []) chunks) :=
  data_chunked_iff (full true []) 300 (List.replicate 128 0) 301 List.length_replicate (by decide)

set_option maxRecDepth 4000 in
/-- A byte of the other port takes the place of the port's own. -/
theorem data_overwritten :
    ∃ out, handleData (full true [⟨[66], by decide⟩]) false 1 (List.replicate 128 0) 2 = .ok (some out) ∧
      Given (full true [⟨[66], by decide⟩]) 1 [[65]] ∧ out.published = [[66]] ∧ out.echoed = [66] ∧
      ¬ Chunked (full true [⟨[66], by decide⟩]) 1 [[65]] out := by
  refine ⟨⟨[[66]], [66]⟩, by rfl, ⟨?_, .inl rfl⟩, rfl, rfl, ?_⟩
  · intro i hi
    obtain rfl : i = 0 := Nat.lt_one_iff.1 hi
    exact ⟨List.cons_ne_nil _ _, rfl⟩
  · intro h
    exact absurd h.published (by decide)

end WirelessGateway.UartChunks
