import WirelessGateway.FrameCrc

namespace WirelessGateway.SlaveFrame

open Lib.Fallible

variable {σ : Type}

section Purpose

def Answers (address : Int) (code : UInt8) (resp : Frame) : Prop :=
  ∃ first rest, (UInt8.toNat first : Int) = address ∧ resp = appendCrc (first :: code :: rest)

/-- What a request asks to write, none for one that asks for nothing. -/
def requestOf (S : Slave σ) (raw : Frame) : Except PyError (Option (Nat × List Nat)) :=
  if raw.getD 1 0 = 0x06 ∧ S.single then singleRequest raw
  else if raw.getD 1 0 = 0x10 then multipleRequest raw
  else .ok none

def readError {α : Type} : Except UInt8 α → Option UInt8
  | .error err => some err
  | .ok _ => none

def refusal (S : Slave σ) (s : σ) (raw : Frame) : Option UInt8 :=
  if raw.getD 1 0 = 0x03 then readError (S.fc3 s (startOf raw) (countOf raw))
  else match requestOf S raw with
    | .ok (some (start, words)) => (S.write s start words).1
    | _ => some 0x01

def answerCode (S : Slave σ) (s : σ) (raw : Frame) : UInt8 :=
  if (refusal S s raw).isSome then raw.getD 1 0 ||| 0x80 else raw.getD 1 0

def addressAfter (S : Slave σ) (newAddress : σ → Nat → List Nat → Option Int) (s : σ) (raw : Frame) :
    Int :=
  match requestOf S raw with
  | .ok (some (start, words)) => (newAddress s start words).getD (S.address s)
  | _ => S.address s

/-- A master finds its request's address and function code in the answer, and
has to use the new address from the next request on. -/
structure Faithful (S : Slave σ) (newAddress : σ → Nat → List Nat → Option Int) (s : σ)
    (raw resp : Frame) : Prop where
  address : resp[0]? = raw[0]?
  code : resp[1]? = some (answerCode S s raw)
  after : S.address (handle S s raw).2 = addressAfter S newAddress s raw
  next : ∀ raw' resp', (handle S (handle S s raw).2 raw').1 = .ok (some resp') →
    ((raw'.getD 0 0).toNat : Int) = addressAfter S newAddress s raw

/-- A request that leaves the slave at the address it is sent to. -/
def KeepsAddress (S : Slave σ) (newAddress : σ → Nat → List Nat → Option Int) (s : σ)
    (raw : Frame) : Prop :=
  Reaches (S.address s) (raw.getD 1 0) raw → addressAfter S newAddress s raw = S.address s

structure Addressed (S : Slave σ) (newAddress : σ → Nat → List Nat → Option Int) : Prop where
  write : ∀ s start words,
    S.address (S.write s start words).2 = (newAddress s start words).getD (S.address s)
  isByte : ∀ s start words v, newAddress s start words = some v → IsByte v

end Purpose

variable {S : Slave σ} {newAddress : σ → Nat → List Nat → Option Int} {s : σ} {raw resp : Frame}
variable {address : Int} {code fc : UInt8}

section Shape

theorem bytesOf_cons {v : Int} {vs : List Int} {bs : Frame} (h : bytesOf (v :: vs) = .ok bs) :
    ∃ b rest, (UInt8.toNat b : Int) = v ∧ bytesOf vs = .ok rest ∧ bs = b :: rest := by
  rw [bytesOf, List.mapM_cons] at h
  obtain ⟨b, hb, hbs⟩ := bind_eq_ok h
  obtain ⟨rest, hrest, hbs⟩ := bind_eq_ok hbs
  split at hb
  · rename_i hv
    obtain rfl := Except.ok.inj hb
    refine ⟨_, rest, ?_, hrest, (Except.ok.inj hbs).symm⟩
    rw [Nat.toUInt8_eq, UInt8.toNat_ofNat']
    omega
  · cases hb

theorem bytesOf_answers {vs : List Int} {bs : Frame} (rest : Frame)
    (h : bytesOf (address :: (code.toNat : Int) :: vs) = .ok bs) :
    Answers address code (appendCrc (bs ++ rest)) := by
  obtain ⟨first, bs', hfirst, htail, rfl⟩ := bytesOf_cons h
  obtain ⟨second, bs'', hsecond, -, rfl⟩ := bytesOf_cons htail
  obtain rfl := UInt8.toNat_inj.1 (Int.ofNat_inj.1 hsecond)
  exact ⟨first, bs'' ++ rest, hfirst, rfl⟩

theorem exceptionResponse_answers {err : UInt8} (h : exceptionResponse address fc err = .ok (some resp)) :
    Answers address (fc ||| 0x80) resp := by
  obtain ⟨bs, hbs, hresp⟩ := bind_eq_ok h
  obtain rfl := Option.some.inj (Except.ok.inj hresp)
  simpa using bytesOf_answers [] hbs

theorem writeResponse_answers {err : Option UInt8} (h : writeResponse address fc err raw = .ok (some resp)) :
    Answers address (if err.isSome then fc ||| 0x80 else fc) resp := by
  cases err with
  | some err => exact exceptionResponse_answers h
  | none =>
      obtain ⟨bs, hbs, hresp⟩ := bind_eq_ok h
      obtain rfl := Option.some.inj (Except.ok.inj hresp)
      simpa using bytesOf_answers [] hbs

theorem readResponse_answers {words : List Int} (h : readResponse address words = .ok (some resp)) :
    Answers address 0x03 resp := by
  obtain ⟨body, -, hrest⟩ := bind_eq_ok h
  obtain ⟨head, hhead, hresp⟩ := bind_eq_ok hrest
  obtain rfl := Option.some.inj (Except.ok.inj hresp)
  exact bytesOf_answers body.flatten hhead

theorem Answers.checked (h : Answers address code resp) : checkCrc resp = true := by
  obtain ⟨first, rest, -, rfl⟩ := h
  exact checkCrc_appendCrc (List.cons_ne_nil _ _)

theorem Answers.second (h : Answers address code resp) : resp[1]? = some code := by
  obtain ⟨first, rest, -, rfl⟩ := h
  rfl

theorem Answers.first (h : Answers address code resp) :
    ∃ first, resp[0]? = some first ∧ (first.toNat : Int) = address := by
  obtain ⟨first, rest, hfirst, rfl⟩ := h
  exact ⟨first, rfl, hfirst⟩

end Shape

section Requests

theorem handleRead_answers (h : handleRead S s raw = .ok (some resp)) :
    Answers (S.address s)
      (if (readError (S.fc3 s (startOf raw) (countOf raw))).isSome then 0x83 else 0x03) resp := by
  rw [handleRead] at h
  by_cases hlen : raw.length < 8
  · rw [if_pos hlen] at h
    cases h
  · have hstart : wordOf raw 2 = startOf raw := rfl
    have hcount : wordOf raw 4 = countOf raw := rfl
    rw [if_neg hlen, wordAt_ok (by omega), wordAt_ok (by omega), hstart, hcount] at h
    simp only [ok_bind] at h
    cases hread : S.fc3 s (startOf raw) (countOf raw) with
    | error err =>
        rw [hread] at h
        exact exceptionResponse_answers h
    | ok words =>
        rw [hread] at h
        exact readResponse_answers h

theorem handle_write (h : Reaches (S.address s) (raw.getD 1 0) raw) {start : Nat} {words : List Nat}
    (hreq : requestOf S raw = .ok (some (start, words))) :
    raw.getD 1 0 ≠ 0x03 ∧ handle S s raw =
      (writeResponse (S.address (S.write s start words).2) (raw.getD 1 0) (S.write s start words).1 raw,
        (S.write s start words).2) := by
  rw [handle_reaches h]
  rw [requestOf] at hreq
  by_cases h6 : raw.getD 1 0 = 0x06 ∧ S.single
  · have h3 : raw.getD 1 0 ≠ 0x03 := by
      rw [h6.1]
      decide
    rw [if_pos h6] at hreq
    rw [if_neg h3, if_pos h6, hreq]
    exact ⟨h3, rfl⟩
  · rw [if_neg h6] at hreq
    by_cases h16 : raw.getD 1 0 = 0x10
    · have h3 : raw.getD 1 0 ≠ 0x03 := by
        rw [h16]
        decide
      rw [if_pos h16] at hreq
      rw [if_neg h3, if_neg h6, if_pos h16, hreq]
      exact ⟨h3, rfl⟩
    · rw [if_neg h16] at hreq
      cases hreq

theorem handleWrite_nothing (S : Slave σ) (s : σ) (fc : UInt8) (raw : Frame)
    {request : Except PyError (Option (Nat × List Nat))}
    (hreq : ∀ start words, request ≠ .ok (some (start, words))) :
    (handleWrite S s fc raw request).2 = s ∧
      ∀ resp, (handleWrite S s fc raw request).1 ≠ .ok (some resp) := by
  cases request with
  | error e => exact ⟨rfl, fun _ h => by cases h⟩
  | ok asked =>
      cases asked with
      | none => exact ⟨rfl, fun _ h => by cases h⟩
      | some asked => exact absurd rfl (hreq asked.1 asked.2)

theorem handle_nothing (h : Reaches (S.address s) (raw.getD 1 0) raw)
    (hreq : ∀ start words, requestOf S raw ≠ .ok (some (start, words))) :
    (handle S s raw).2 = s ∧ ∀ {resp}, (handle S s raw).1 = .ok (some resp) →
      Answers (S.address s) (answerCode S s raw) resp := by
  rw [handle_reaches h]
  by_cases h3 : raw.getD 1 0 = 0x03
  · rw [if_pos h3, answerCode, refusal, if_pos h3, h3]
    exact ⟨rfl, handleRead_answers⟩
  · rw [if_neg h3]
    by_cases h6 : raw.getD 1 0 = 0x06 ∧ S.single
    · rw [requestOf, if_pos h6] at hreq
      obtain ⟨hsame, hnone⟩ := handleWrite_nothing S s (raw.getD 1 0) raw hreq
      rw [if_pos h6]
      exact ⟨hsame, fun hresp => absurd hresp (hnone _)⟩
    · rw [if_neg h6]
      by_cases h16 : raw.getD 1 0 = 0x10
      · rw [requestOf, if_neg h6, if_pos h16] at hreq
        obtain ⟨hsame, hnone⟩ := handleWrite_nothing S s (raw.getD 1 0) raw hreq
        rw [if_pos h16]
        exact ⟨hsame, fun hresp => absurd hresp (hnone _)⟩
      · have hcode : answerCode S s raw = raw.getD 1 0 ||| 0x80 := by
          rw [answerCode, refusal, if_neg h3, requestOf, if_neg h6, if_neg h16]
          rfl
        rw [if_neg h16, hcode]
        exact ⟨rfl, exceptionResponse_answers⟩

theorem request_cases (S : Slave σ) (raw : Frame) :
    (∃ start words, requestOf S raw = .ok (some (start, words))) ∨
      ∀ start words, requestOf S raw ≠ .ok (some (start, words)) := by
  cases h : requestOf S raw with
  | error e => exact Or.inr (fun _ _ hask => by cases hask)
  | ok asked =>
      cases asked with
      | none => exact Or.inr (fun _ _ hask => by cases hask)
      | some asked => exact Or.inl ⟨asked.1, asked.2, rfl⟩

theorem handle_answers (h : (handle S s raw).1 = .ok (some resp)) :
    Reaches (S.address s) (raw.getD 1 0) raw ∧
      Answers (S.address (handle S s raw).2) (answerCode S s raw) resp := by
  have hreaches : Reaches (S.address s) (raw.getD 1 0) raw := by
    by_contra hother
    rw [handle_ignored hother] at h
    cases h
  refine ⟨hreaches, ?_⟩
  rcases request_cases S raw with ⟨start, words, hreq⟩ | hreq
  · obtain ⟨h3, hwrite⟩ := handle_write hreaches hreq
    rw [answerCode, refusal, if_neg h3, hreq]
    rw [hwrite] at h ⊢
    exact writeResponse_answers h
  · obtain ⟨hsame, hanswers⟩ := handle_nothing hreaches hreq
    rw [hsame]
    exact hanswers h

end Requests

section Addresses

theorem addressAfter_nothing (hreq : ∀ start words, requestOf S raw ≠ .ok (some (start, words))) :
    addressAfter S newAddress s raw = S.address s := by
  rw [addressAfter]
  split
  · rename_i start words hask
    exact absurd hask (hreq start words)
  · rfl

theorem Addressed.after (hS : Addressed S newAddress) (h : Reaches (S.address s) (raw.getD 1 0) raw) :
    S.address (handle S s raw).2 = addressAfter S newAddress s raw := by
  rcases request_cases S raw with ⟨start, words, hreq⟩ | hreq
  · rw [(handle_write h hreq).2, addressAfter, hreq]
    exact hS.write s start words
  · rw [(handle_nothing h hreq).1, addressAfter_nothing hreq]

theorem Addressed.isByte_write (hS : Addressed S newAddress) (h : IsByte (S.address s)) (start : Nat)
    (words : List Nat) : IsByte (S.address (S.write s start words).2) := by
  rw [hS.write]
  cases hnew : newAddress s start words with
  | none => exact h
  | some v => exact hS.isByte s start words v hnew

theorem Addressed.answered (hS : Addressed S newAddress)
    (h : Reaches (S.address s) (raw.getD 1 0) raw) {start : Nat} {words : List Nat}
    (hreq : requestOf S raw = .ok (some (start, words))) :
    ∃ resp, (handle S s raw).1 = .ok (some resp) := by
  have hbyte := hS.isByte_write h.isByte start words
  rw [(handle_write h hreq).2]
  cases (S.write s start words).1 with
  | some err =>
      obtain ⟨resp, hresp, -⟩ := exceptionResponse_ok hbyte (raw.getD 1 0) err
      exact ⟨resp, hresp⟩
  | none =>
      obtain ⟨resp, hresp, -⟩ := writeResponse_ok hbyte (raw.getD 1 0) raw
      exact ⟨resp, hresp⟩

theorem Reaches.first (h : Reaches address fc raw) :
    ∃ first, raw[0]? = some first ∧ (first.toNat : Int) = address := by
  have hlen := checkCrc_length h.1
  refine ⟨raw.getD 0 0, ?_, h.2.1⟩
  rw [List.getD_eq_getElem?_getD, List.getElem?_eq_getElem (by omega), Option.getD_some]

/-- A slave answers under the address it was asked under if and only if the
request does not give it another one. -/
theorem Addressed.faithful_iff (hS : Addressed S newAddress) (s : σ) (raw : Frame) :
    (∀ resp, (handle S s raw).1 = .ok (some resp) → Faithful S newAddress s raw resp) ↔
      KeepsAddress S newAddress s raw := by
  constructor
  · intro hall hreaches
    rcases request_cases S raw with ⟨start, words, hreq⟩ | hreq
    · obtain ⟨resp, hresp⟩ := hS.answered hreaches hreq
      obtain ⟨asked, hasked, haddress⟩ := hreaches.first
      obtain ⟨first, hfirst, hnew⟩ := (handle_answers hresp).2.first
      have hsame := (hall resp hresp).address
      rw [hfirst, hasked] at hsame
      rw [← hS.after hreaches, ← hnew, ← haddress, Option.some.inj hsame]
    · exact addressAfter_nothing hreq
  · intro hkeeps resp hresp
    obtain ⟨hreaches, hanswers⟩ := handle_answers hresp
    have hafter := hS.after hreaches
    refine ⟨?_, hanswers.second, hafter, ?_⟩
    · obtain ⟨asked, hasked, haddress⟩ := hreaches.first
      obtain ⟨first, hfirst, hnew⟩ := hanswers.first
      rw [hafter, hkeeps hreaches, ← haddress] at hnew
      rw [hfirst, hasked, UInt8.toNat_inj.1 (Int.ofNat_inj.1 hnew)]
    · intro raw' resp' hresp'
      rw [← hafter]
      exact (handle_answers hresp').1.2.1

end Addresses

end WirelessGateway.SlaveFrame
